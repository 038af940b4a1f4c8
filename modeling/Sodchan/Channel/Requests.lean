import Sodchan.Channel.Atomic
import Sodchan.Link.Record

/-! # Requests of the peer

What a live endpoint does with a DATA, a WINDOW, an OPEN and a PING of the
peer, from the record to the slot. The limits of the record layer come before
those of the channel.
-/

namespace Sodchan

open ByteString

variable {Rng SS : Type} {E : Env Rng SS} {c c' : Ctx Rng SS} {plain : Bytes} {tag : UInt8}
  {i : Fin maxChannelSlots} {id : UInt32}

namespace Pdu

theorem channelOpen_inv {s w m : UInt32} {name : Bytes}
    (h : ofBytes plain = .channelOpen s w m name) :
    plain.headD 0 = pduChannelOpen ∧
      ∃ p, Wire.channelOpenDecode plain (channelNameMax + 1) = .ok p ∧
      p.senderChannel = s ∧ p.initWindow = w ∧ p.maxPacket = m ∧ cstr p.name = name := by
  unfold ofBytes at h
  dsimp only at h
  split_ifs at h with h1 <;> split at h <;> try cases h
  rename_i p hp
  exact ⟨h1, p, hp, rfl, rfl, rfl, rfl⟩

theorem channelWindow_inv {add : UInt32} (h : ofBytes plain = .channelWindow id add) :
    plain.headD 0 = pduChannelWindow ∧ Wire.channelWindowDecode plain = .ok (id, add) := by
  unfold ofBytes at h
  dsimp only at h
  split_ifs at h <;> split at h <;> try cases h
  exact ⟨by assumption, by assumption⟩

theorem channelData_inv {data : Bytes} (h : ofBytes plain = .channelData id data) :
    plain.headD 0 = pduChannelData ∧ Wire.channelDataDecode plain = .ok (id, data) := by
  unfold ofBytes at h
  dsimp only at h
  split_ifs at h <;> split at h <;> try cases h
  exact ⟨by assumption, by assumption⟩

end Pdu

theorem nonempty_of_headD {type : UInt8} (h : plain.headD 0 = type) (ht : type ≠ 0) :
    plain ≠ [] := by
  rintro rfl
  exact ht h.symm

def Ctx.muxes (c : Ctx Rng SS) : Prop := c.state = .ready ∨ c.state = .draining

theorem handlePlain_mux (hst : c.muxes) (ht : Dispatched tag) (hp : plain ≠ []) :
    handlePlain E c plain tag = handleMuxPdu E c plain := by
  have hauth : c.state ≠ .auth := by
    rcases hst with hst | hst <;> rw [hst] <;> decide
  have hlen : plain.length ≠ 0 := fun h => hp (List.length_eq_zero_iff.mp h)
  unfold handlePlain
  rw [if_neg ht.1, if_neg ht.2, if_neg hlen, Wire.pduType_eq hp]
  dsimp only
  rw [if_neg hauth]
  exact if_pos hst

theorem handlePlain_channelOpen (hst : c.muxes) (ht : Dispatched tag)
    (h : plain.headD 0 = pduChannelOpen) :
    handlePlain E c plain tag = muxChannelOpen E c plain := by
  rw [handlePlain_mux hst ht (nonempty_of_headD h (by decide))]
  unfold handleMuxPdu
  rw [h]
  rfl

theorem handlePlain_ping (hst : c.muxes) (ht : Dispatched tag) (h : plain.headD 0 = pduPing) :
    handlePlain E c plain tag = muxPing E c plain := by
  rw [handlePlain_mux hst ht (nonempty_of_headD h (by decide))]
  unfold handleMuxPdu
  rw [h]
  rfl

/-- The slot after DATA. -/
def Channel.received (ch : Channel) (data : Bytes) : Channel :=
  { ch with recvWindow := ch.recvWindow - UInt32.ofNat data.length }

/-- DATA on an open channel meets two limits: the credit, and the size of an event. -/
theorem handlePlain_data (hst : c.muxes) (ht : Dispatched tag) {data : Bytes}
    (h : Pdu.ofBytes plain = .channelData id data) (hi : chByLocal c id = some i)
    (ho : (c.channels i).state = .open_) :
    handlePlain E c plain tag =
      if (c.channels i).recvWindow.toNat < data.length then
        (setError c .protocol "DATA over window", false)
      else if dataMax < data.length then (setError c .protocol "DATA over max", false)
      else (emit (setCh c i ((c.channels i).received data)) (.channelData id data), true) := by
  obtain ⟨hh, hd⟩ := Pdu.channelData_inv h
  obtain rfl : (c.channels i).localId = id := (Table.find_some (s := c.table) hi).2
  rw [handlePlain_mux hst ht (nonempty_of_headD hh (by decide))]
  unfold handleMuxPdu
  rw [hh]
  change muxChannelData c plain = _
  unfold muxChannelData
  rw [hd]
  dsimp only
  rw [hi]
  dsimp only
  rw [if_neg fun hne => hne.1 ho, if_neg (not_not.mpr ho)]
  rfl

theorem handlePlain_window (hst : c.muxes) (ht : Dispatched tag) {add : UInt32}
    (h : Pdu.ofBytes plain = .channelWindow id add) (hi : chByLocal c id = some i)
    (ho : (c.channels i).state = .open_) :
    handlePlain E c plain tag =
      (emit (setCh c i { c.channels i with sendWindow := (c.channels i).sendWindow + add })
        (.channelWindow id add ((c.channels i).sendWindow + add)), true) := by
  obtain ⟨hh, hd⟩ := Pdu.channelWindow_inv h
  obtain rfl : (c.channels i).localId = id := (Table.find_some (s := c.table) hi).2
  rw [handlePlain_mux hst ht (nonempty_of_headD hh (by decide))]
  unfold handleMuxPdu
  rw [hh]
  change muxChannelWindow c plain = _
  unfold muxChannelWindow
  rw [hd]
  dsimp only
  rw [hi]
  dsimp only
  rw [if_neg (not_not.mpr ho)]

end Sodchan
