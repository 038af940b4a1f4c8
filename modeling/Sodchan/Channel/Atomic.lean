import Sodchan.Channel.Slots
import Sodchan.Model.History

/-! # Channel calls are atomic

A channel call of the host either fails and leaves everything but the next id
as it was, or sends one PDU in one frame and changes one channel. The checks
come before the push on every path, and an allocation that cannot be announced
is undone.
-/

namespace Sodchan

open ByteString

variable {Rng SS : Type} {E : Env Rng SS} {c c' d : Ctx Rng SS} {rc : Rc} {pdu : Bytes}

/-- Nothing happened, but that the output buffer may be compacted and an id may be gone. -/
structure Undone (c c' : Ctx Rng SS) : Prop where
  rest : c' = { c with
    outBuf := c'.outBuf, outOff := c'.outOff
    nextLocalChannelId := c'.nextLocalChannelId, allocs := c'.allocs }
  pending : c'.pending = c.pending

/-- One PDU went out: the stream has advanced by one message, in one whole frame. -/
structure Emits (E : Env Rng SS) (c c' : Ctx Rng SS) (pdu : Bytes) : Prop where
  frame : ∃ ct, E.ssPush c.ssPush pdu tagMessage = some (c'.ssPush, ct) ∧
    c'.pending = c.pending ++ rawFrame ct ∧ c'.appended = c.appended ++ [rawFrame ct]
  sent : c'.sent = c.sent ++ [pdu]

/-- A call fails and undoes everything, or it sends the one PDU that it stands for and changes one
channel. -/
inductive AllOrNothing (E : Env Rng SS) (c : Ctx Rng SS)
    (means : Fin maxChannelSlots → Bytes → Prop) : Ctx Rng SS × Rc → Prop where
  | nothing {c' : Ctx Rng SS} {rc : Rc} : rc ≠ .ok → Undone c c' → AllOrNothing E c means (c', rc)
  | done {c' : Ctx Rng SS} {i : Fin maxChannelSlots} {pdu : Bytes} :
      means i pdu → Emits E c c' pdu →
      (∀ j, j ≠ i → c'.channels j = c.channels j) → AllOrNothing E c means (c', .ok)

theorem Undone.refl (c : Ctx Rng SS) : Undone c c := ⟨rfl, rfl⟩

theorem AllOrNothing.refuse {means : Fin maxChannelSlots → Bytes → Prop} (h : rc ≠ .ok) :
    AllOrNothing E c means (c, rc) := .nothing h (.refl c)

theorem Emits.pushed {st : SS} {ct : Bytes} (h : E.ssPush c.ssPush pdu tagMessage = some (st, ct)) :
    Emits E c (c.pushed pdu st ct) pdu := by
  refine ⟨⟨ct, h, List.drop_zero, ?_⟩, ?_⟩
  · exact List.filterMap_append
  · exact List.filterMap_append

theorem Emits.after (h : Emits E c d pdu) (hs : c'.ssPush = d.ssPush) (hp : c'.pending = d.pending)
    (ha : c'.appended = d.appended) (hn : c'.sent = d.sent) : Emits E c c' pdu := by
  obtain ⟨⟨ct, h1, h2, h3⟩, h4⟩ := h
  exact ⟨⟨ct, by rw [hs, h1], hp.trans h2, ha.trans h3⟩, hn.trans h4⟩

theorem Emits.before (h : Emits E d c' pdu) (hs : d.ssPush = c.ssPush) (hp : d.pending = c.pending)
    (ha : d.appended = c.appended) (hn : d.sent = c.sent) : Emits E c c' pdu := by
  obtain ⟨⟨ct, h1, h2, h3⟩, h4⟩ := h
  exact ⟨⟨ct, hs ▸ h1, hp ▸ h2, ha ▸ h3⟩, hn ▸ h4⟩

theorem Emits.emit (h : Emits E c d pdu) (ev : Event) : Emits E c (emit d ev) pdu := by
  refine h.after ?_ ?_ (emit_filterMap (fun _ => rfl) (fun _ => rfl) d ev)
    (emit_filterMap (fun _ => rfl) (fun _ => rfl) d ev) <;> rw [emit_eq]
  rfl

theorem ssSendPdu_atomic (hs : ssSendPdu E c pdu = (d, rc)) :
    (rc = .ok ∧ Emits E c d pdu ∧ d.channels = c.channels) ∨ (rc ≠ .ok ∧ Undone c d) := by
  obtain ⟨st, ct, -, hpush, he⟩ | ⟨b, o, rc', -, hb, hrc, he⟩ := ssSendPdu_cases E c pdu
  · obtain ⟨rfl, rfl⟩ := Prod.mk.inj (hs.symm.trans he)
    exact Or.inl ⟨rfl, .pushed hpush, rfl⟩
  · obtain ⟨rfl, rfl⟩ := Prod.mk.inj (hs.symm.trans he)
    exact Or.inr ⟨hrc, rfl, pending_withBuf c hb⟩

theorem AllOrNothing.put {means : Fin maxChannelSlots → Bytes → Prop} {i : Fin maxChannelSlots}
    (h : means i pdu) (he : Emits E c d pdu) (hd : d.channels = c.channels) (ch : Channel) :
    AllOrNothing E c means (setCh d i ch, .ok) := by
  refine .done h (he.after rfl rfl rfl rfl) fun j hj => ?_
  rw [← hd]
  exact Function.update_of_ne hj _ _

theorem AllOrNothing.free {means : Fin maxChannelSlots → Bytes → Prop} {i : Fin maxChannelSlots}
    (h : means i pdu) (he : Emits E c d pdu) (hd : d.channels = c.channels) :
    AllOrNothing E c means (chFree d i, .ok) := by
  unfold chFree
  split
  · exact .done h he fun j _ => congrFun hd j
  · refine .done h (he.after rfl rfl rfl rfl) fun j hj => ?_
    rw [← hd]
    exact Function.update_of_ne hj _ _

def Ctx.answer (c : Ctx Rng SS) (i : Fin maxChannelSlots) : Bool → Except Rc Bytes
  | true => Wire.channelOpenConfirmEncode (c.channels i).localId (c.channels i).peerId
      c.initialWindow c.maxPacket 64
  | false => Wire.channelOpenFailEncode (c.channels i).peerId reasonAdminProhibited [] 64

theorem channelAccept_atomic (c : Ctx Rng SS) (id : UInt32) (accept : Bool) :
    AllOrNothing E c (fun i pdu => chByLocal c id = some i ∧ c.answer i accept = .ok pdu)
      (channelAccept E c id accept) := by
  unfold channelAccept
  split
  · exact .refuse (by decide)
  · split
    · exact .refuse (by decide)
    · rename_i i hi
      dsimp only
      split
      · exact .refuse (by decide)
      · split
        · exact .refuse (by decide)
        · cases accept with
          | true =>
            rw [if_pos rfl]
            split
            · exact .refuse (by decide)
            · rename_i pdu henc
              rcases hsend : ssSendPdu E c pdu with ⟨d, rc⟩
              obtain ⟨rfl, hs, hc⟩ | ⟨hrc, hs⟩ := ssSendPdu_atomic hsend
              · refine .done ⟨hi, henc⟩ (Emits.emit (d := setCh d i _) (hs.after rfl rfl rfl rfl) _)
                  fun j hj => ?_
                rw [emit_eq, ← hc]
                exact Function.update_of_ne hj _ _
              · cases rc <;> first | exact absurd rfl hrc | exact .nothing (by decide) hs
          | false =>
            rw [if_neg (by decide)]
            split
            · exact .refuse (by decide)
            · rename_i pdu henc
              rcases hsend : ssSendPdu E c pdu with ⟨d, rc⟩
              obtain ⟨rfl, hs, hc⟩ | ⟨hrc, hs⟩ := ssSendPdu_atomic hsend
              · exact .free ⟨hi, henc⟩ hs hc
              · cases rc <;> first | exact absurd rfl hrc | exact .nothing (by decide) hs

theorem channelDataEncode_ne_ok {peer : UInt32} {data : Bytes} {cap : ℕ} :
    Wire.channelDataEncode peer data cap ≠ .error .ok := by
  unfold Wire.channelDataEncode
  split_ifs <;> rintro ⟨⟩

theorem channelSend_atomic (c : Ctx Rng SS) (id : UInt32) (data : Arg) (memOk : Bool) :
    AllOrNothing E c (fun i pdu => chByLocal c id = some i ∧
      Wire.channelDataEncode (c.channels i).peerId data.data (9 + data.len) = .ok pdu)
      (channelSend E c id data memOk) := by
  unfold channelSend
  split
  · exact .refuse (by decide)
  · split
    · exact .refuse (by decide)
    · split
      · exact .refuse (by decide)
      · rename_i i hi
        dsimp only
        split_ifs
        · exact .refuse (by decide)
        · exact .refuse (by decide)
        · exact .refuse (by decide)
        · exact .refuse (by decide)
        · split
          · rename_i rc henc
            refine .refuse ?_
            rintro rfl
            exact channelDataEncode_ne_ok henc
          · rename_i pdu henc
            rcases hsend : ssSendPdu E c pdu with ⟨d, rc⟩
            obtain ⟨rfl, hs, hc⟩ | ⟨hrc, hs⟩ := ssSendPdu_atomic hsend
            · exact .put ⟨hi, henc⟩ hs hc _
            · cases rc <;> first | exact absurd rfl hrc | exact .nothing hrc hs
        · exact .refuse (by decide)

theorem channelEof_atomic (c : Ctx Rng SS) (id : UInt32) :
    (∃ i, chByLocal c id = some i ∧ (c.channels i).localEof ∧ channelEof E c id = (c, .ok)) ∨
    AllOrNothing E c (fun i pdu => chByLocal c id = some i ∧ ¬ (c.channels i).localEof ∧
      Wire.channelEofEncode (c.channels i).peerId 8 = .ok pdu)
      (channelEof E c id) := by
  unfold channelEof
  split
  · exact Or.inr (.refuse (by decide))
  · split
    · exact Or.inr (.refuse (by decide))
    · rename_i i hi
      dsimp only
      split
      · exact Or.inr (.refuse (by decide))
      · split
        · rename_i hl
          exact Or.inl ⟨i, hi, hl, rfl⟩
        · rename_i hl
          refine Or.inr ?_
          split
          · exact .refuse (by decide)
          · rename_i pdu henc
            rcases hsend : ssSendPdu E c pdu with ⟨d, rc⟩
            obtain ⟨rfl, hs, hc⟩ | ⟨hrc, hs⟩ := ssSendPdu_atomic hsend
            · exact .put ⟨hi, hl, henc⟩ hs hc _
            · cases rc <;> first | exact absurd rfl hrc | exact .nothing (by decide) hs

theorem channelWindowAdjust_atomic (c : Ctx Rng SS) (id credit : UInt32) :
    AllOrNothing E c (fun i pdu => chByLocal c id = some i ∧
      Wire.channelWindowEncode (c.channels i).peerId credit 16 = .ok pdu)
      (channelWindowAdjust E c id credit) := by
  unfold channelWindowAdjust
  split
  · exact .refuse (by decide)
  · split
    · exact .refuse (by decide)
    · split
      · exact .refuse (by decide)
      · rename_i i hi
        dsimp only
        split
        · exact .refuse (by decide)
        · split
          · exact .refuse (by decide)
          · rename_i pdu henc
            rcases hsend : ssSendPdu E c pdu with ⟨d, rc⟩
            obtain ⟨rfl, hs, hc⟩ | ⟨hrc, hs⟩ := ssSendPdu_atomic hsend
            · exact .put ⟨hi, henc⟩ hs hc _
            · cases rc <;> first | exact absurd rfl hrc | exact .nothing (by decide) hs

/-- An allocation that cannot be announced leaves only the id behind. -/
theorem Undone.allocated {i : Fin maxChannelSlots} {ch : Channel} (hz : c.channels i = .zero)
    (hch : ch.state ≠ .unused) (h : Undone (setCh (c.allocated i) i ch) d) :
    Undone c (chFree d i) := by
  obtain ⟨hd, hp⟩ := h
  have hself : d.channels i = ch := by
    rw [hd]
    exact Function.update_self _ _ _
  have hfree : chFree d i = { setCh d i .zero with activeChannels := d.activeChannels - 1 } := by
    unfold chFree
    rw [if_neg (by rwa [hself])]
  have hslots : Function.update d.channels i Channel.zero = c.channels := by
    rw [hd]
    simp only [setCh, Ctx.allocated, Function.update_idem]
    rw [← hz, Function.update_eq_self]
  have hcount : d.activeChannels - 1 = c.activeChannels := by
    rw [hd]
    rfl
  rw [hfree, hcount]
  refine ⟨?_, hp⟩
  simp only [setCh, hslots]
  conv_lhs => rw [hd]
  rfl

theorem channelOpen_atomic (h : SlotsSound c) (name : Option Bytes) :
    AllOrNothing E c (fun i pdu => (c.channels i).state = .unused ∧ ∃ n, name = some n ∧
      Wire.channelOpenEncode c.nextLocalChannelId c.initialWindow c.maxPacket n 128 = .ok pdu)
      ((channelOpen E c name).1, (channelOpen E c name).2.1) := by
  unfold channelOpen
  split
  · exact .refuse (by rintro ⟨⟩)
  · split
    · exact .refuse (by rintro ⟨⟩)
    · split
      · exact .refuse (by rintro ⟨⟩)
      · split
        · exact .refuse (by rintro ⟨⟩)
        · split
          · exact .refuse (by rintro ⟨⟩)
          · split
            · exact .refuse (by rintro ⟨⟩)
            · rename_i n _ _ _ _ _ c' i ha
              obtain ⟨hu, -, rfl⟩ := chAlloc_eq_some ha
              have hz : c.channels i = .zero := (h.slots i).free hu
              have hself : (c.allocated i).channels i =
                  { Channel.zero with localId := c.nextLocalChannelId } :=
                Function.update_self _ _ _
              dsimp only
              rw [hself]
              split
              · exact .nothing (by rintro ⟨⟩) (.allocated hz (by rintro ⟨⟩) (.refl _))
              · rename_i pdu henc
                rcases hsend : ssSendPdu E (setCh (c.allocated i) i { Channel.zero with
                  localId := c.nextLocalChannelId, state := .opening
                  recvWindow := (c.allocated i).initialWindow
                  maxPacket := (c.allocated i).maxPacket, name := n }) pdu with ⟨d, rc⟩
                obtain ⟨rfl, hs, hc⟩ | ⟨hrc, hs⟩ := ssSendPdu_atomic hsend
                · refine .done ⟨hu, n, rfl, henc⟩ (hs.before rfl rfl rfl rfl) fun j hj => ?_
                  rw [hc]
                  exact (Function.update_of_ne hj _ _).trans (Function.update_of_ne hj _ _)
                · cases rc <;> first
                    | exact absurd rfl hrc
                    | exact .nothing (by rintro ⟨⟩) (.allocated hz (by rintro ⟨⟩) hs)

theorem Reachable.slotsSound (h : Reachable E c) : SlotsSound c := by
  obtain ⟨role, cfg, rng, memOk, c₀, l, hc, hr⟩ := h
  exact hr.preserves_steps (fun _ h => h.reset) (fun _ _ _ h hs => h.step hs) (.create hc)

/-- In every reachable context, whatever the arguments and the state of the buffers, a channel call
that fails undoes everything, and one that succeeds sends exactly its PDU and changes one
channel. -/
theorem channel_calls_atomic (h : Reachable E c) :
    (∀ name, AllOrNothing E c (fun i pdu => (c.channels i).state = .unused ∧ ∃ n, name = some n ∧
        Wire.channelOpenEncode c.nextLocalChannelId c.initialWindow c.maxPacket n 128 = .ok pdu)
      ((channelOpen E c name).1, (channelOpen E c name).2.1)) ∧
    (∀ id accept, AllOrNothing E c (fun i pdu => chByLocal c id = some i ∧
        c.answer i accept = .ok pdu)
      (channelAccept E c id accept)) ∧
    (∀ id data memOk, AllOrNothing E c (fun i pdu => chByLocal c id = some i ∧
        Wire.channelDataEncode (c.channels i).peerId data.data (9 + data.len) = .ok pdu)
      (channelSend E c id data memOk)) ∧
    (∀ id, (∃ i, chByLocal c id = some i ∧ (c.channels i).localEof ∧
        channelEof E c id = (c, .ok)) ∨
      AllOrNothing E c (fun i pdu => chByLocal c id = some i ∧ ¬ (c.channels i).localEof ∧
        Wire.channelEofEncode (c.channels i).peerId 8 = .ok pdu) (channelEof E c id)) ∧
    ∀ id credit, AllOrNothing E c (fun i pdu => chByLocal c id = some i ∧
        Wire.channelWindowEncode (c.channels i).peerId credit 16 = .ok pdu)
      (channelWindowAdjust E c id credit) :=
  ⟨channelOpen_atomic h.slotsSound, channelAccept_atomic c, channelSend_atomic c,
    channelEof_atomic c, channelWindowAdjust_atomic c⟩

theorem channel_calls_atomic_plain :
    AllOrNothing plainEnv plainServerPending
      (fun i pdu => chByLocal plainServerPending 0 = some i ∧
        plainServerPending.answer i true = .ok pdu)
      (channelAccept plainEnv plainServerPending 0 true) :=
  (channel_calls_atomic reachable_plainServerPending).2.1 0 true

end Sodchan
