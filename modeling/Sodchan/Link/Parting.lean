import Sodchan.Link.Closing

/-! # Parting

The handlers of DATA and CONFIRM end the session when they do not find their
channel. That is so between honest endpoints too, unless a host closes a channel
only when nothing that needs it is on its way, and sends on a channel or accepts
one only while the peer still has its partner.
-/

namespace Sodchan

open ByteString

variable {Rng SS : Type} {E : Env Rng SS} {c d : Ctx Rng SS} {N N' : Net Rng SS} {r : Role}
  {a b : List Note} {x : UInt32} {p : Pdu} {plain : Bytes} {guard : Net Rng SS → Act → Prop}

/-- The channel of the recipient that a PDU names. -/
def Pdu.recipient : Pdu → Option UInt32
  | channelOpenConfirm _ r .. | channelOpenFail r | channelData r _ | channelWindow r _ => some r
  | channelEof r | channelClose r => some r
  | _ => none

/-- Only DATA and CONFIRM are answered by an error when their channel is not found. -/
theorem handleMuxPdu_unfound (hr : (Pdu.ofBytes plain).recipient = some x)
    (hx : ¬ (Pdu.ofBytes plain).Hits x) (hf : c.table.find x = none) :
    handleMuxPdu E c plain = (c, true) := by
  have hid : chByLocal c x = none := hf
  generalize hp : Pdu.ofBytes plain = p at hr hx
  unfold Pdu.ofBytes at hp
  dsimp only at hp
  split_ifs at hp with h1 h2 h3 h4 h5 h6 h7
  · split at hp <;> subst hp <;> cases hr
  · split at hp <;> subst hp <;> cases hr
    exact absurd rfl hx
  · split at hp <;> rename_i hd <;> subst hp <;> cases hr
    unfold handleMuxPdu
    rw [h3]
    simp [muxChannelOpenFail, hd, hid, pduChannelOpenFail, pduChannelOpen, pduChannelOpenConfirm]
  · split at hp <;> rename_i hd <;> subst hp <;> cases hr
    unfold handleMuxPdu
    rw [h4]
    simp [muxChannelWindow, hd, hid, pduChannelOpenFail, pduChannelOpen, pduChannelOpenConfirm,
      pduChannelWindow, pduChannelData]
  · split at hp <;> subst hp <;> cases hr
    exact absurd rfl hx
  · split at hp <;> rename_i hd <;> subst hp <;> cases hr
    unfold handleMuxPdu
    rw [h6]
    simp [muxChannelEof, hd, hid, pduChannelOpenFail, pduChannelOpen, pduChannelOpenConfirm,
      pduChannelWindow, pduChannelData, pduChannelEof]
  · split at hp <;> rename_i hd <;> subst hp <;> cases hr
    unfold handleMuxPdu
    rw [h7]
    simp [muxChannelClose, hd, hid, pduChannelOpenFail, pduChannelOpen, pduChannelOpenConfirm,
      pduChannelWindow, pduChannelData, pduChannelEof, pduChannelClose]
  · subst hp
    cases hr

instance (x : UInt32) : (p : Pdu) → Decidable (p.Hits x)
  | .channelData r _ | .channelOpenConfirm _ r .. => inferInstanceAs (Decidable (r = x))
  | .channelOpen .. | .channelOpenFail _ | .channelWindow .. | .channelEof _ => .isFalse id
  | .channelClose _ | .other => .isFalse id

namespace Call

def closing : Call → Option UInt32
  | channelClose x => some x
  | _ => none

/-- The channel that a call sends on or accepts, and the state that lets it. -/
def speaking : Call → Option (UInt32 × ChState)
  | channelSend x .. => some (x, .open_)
  | channelAccept x true => some (x, .pending)
  | _ => none

end Call

namespace Net

/-- The PDUs on their way to the endpoint. -/
def coming (N : Net Rng SS) (r : Role) : List Pdu :=
  (N.ends r.peer).sentPdus.drop (N.ends r).tookPdus.length

/-- DATA or a CONFIRM for the channel is on its way to the endpoint. -/
def Needs (N : Net Rng SS) (r : Role) (x : UInt32) : Prop := ∃ p ∈ N.coming r, p.Hits x

/-- The peer still has the partner of the channel `x`, if that is in state `st`. -/
def Attended (N : Net Rng SS) (r : Role) (x : UInt32) (st : ChState) : Prop :=
  ∀ i, (N.ends r).table.find x = some i → ((N.ends r).channels i).state = st →
    (N.ends r.peer).table.find ((N.ends r).channels i).peerId ≠ none

/-- A host closes a channel only when nothing that needs it is on its way, and sends on a channel
or accepts one only while the peer still has its partner. -/
def Considerate (N : Net Rng SS) : Act → Prop
  | .host r k => (∀ x ∈ k.closing, ¬ N.Needs r x) ∧ ∀ q ∈ k.speaking, N.Attended r q.1 q.2
  | .deliver .. => True

instance (N : Net Rng SS) (r : Role) (x : UInt32) : Decidable (N.Needs r x) :=
  inferInstanceAs (Decidable (∃ p ∈ _, Pdu.Hits x p))

instance (N : Net Rng SS) (r : Role) (x : UInt32) (st : ChState) : Decidable (N.Attended r x st) :=
  inferInstanceAs (Decidable (∀ _, _ → _))

instance (N : Net Rng SS) : DecidablePred N.Considerate
  -- not by trying every number
  | .host .. => @instDecidableAnd _ _ (Option.decidableForallMem _) (Option.decidableForallMem _)
  | .deliver .. => .isTrue trivial

/-- Whether every act of the list is honest and admitted. -/
def admitsB (E : Env Rng SS) (guardB : Net Rng SS → Act → Bool) : Net Rng SS → List Act → Bool
  | _, [] => true
  | N, a :: l => a.honest && guardB N a && admitsB E guardB (N.step E a) l

theorem Run.cons {a : Act} (ha : a.honest) (hg : guard N a) (h : Run E guard (N.step E a) N') :
    Run E guard N N' := by
  induction h with
  | nil => exact .snoc a .nil ha hg
  | snoc b _ hb hg' ih => exact ih.snoc b hb hg'

theorem Run.of_admitsB {guardB : Net Rng SS → Act → Bool}
    (hg : ∀ N a, guardB N a = true → guard N a) {l : List Act} (h : admitsB E guardB N l = true) :
    Run E guard N (l.foldl (step E) N) := by
  induction l generalizing N with
  | nil => exact .nil
  | cons a l ih =>
    rw [admitsB, Bool.and_eq_true, Bool.and_eq_true] at h
    exact (ih h.2).cons h.1.1 (hg N a h.1.2)

end Net

theorem Net.coming_eq (h : Noted (N.ends r) a) (h' : Noted (N.ends r.peer) b) :
    N.coming r = underway b a := by
  rw [Net.coming, h'.sentPdus, h.tookPdus]
  rfl

/-- A slot in use has not gone. -/
theorem Noted.found (h : Noted c a) (hf : c.table.find x ≠ none) : stageOf x a ≠ .gone :=
  fun hs => hf (h.find_gone hs)

theorem Manner.considerate : Manner E (fun N : Net Rng SS => N.Considerate) Considerate where
  call {N r k a b n} hg hn hp hf hdue := by
    obtain ⟨hclose, hspeak⟩ := hg
    have hneeds : ∀ {x}, k = .channelClose x → ∀ pdu ∈ underway b a, ¬ pdu.Hits x := by
      rintro x rfl pdu hpdu hx
      exact hclose x rfl ⟨pdu, Net.coming_eq hn hp ▸ hpdu, hx⟩
    have hattended : ∀ {x y i st}, k.speaking = some (x, st) → (N.ends r).table.find x = some i →
        ((N.ends r).table.slot i).state = st → ((N.ends r).table.slot i).peerId = y →
        stageOf y b ≠ .gone := by
      rintro x _ i st hk hi hs rfl
      exact hp.found (hspeak _ hk i hi hs)
    cases hdue with
    | @call _ deed hobeys hnote =>
      have hserve := hobeys.1
      cases deed with
      | close i told => cases told <;> cases hnote <;> exact hneeds hserve
      | send i payload =>
        obtain ⟨data, memOk, rfl, -⟩ := hserve
        cases hnote
        obtain ⟨own, quota, hst, -⟩ := hf
        obtain ⟨j, hj, -, ho, hpeer, -⟩ := hn.minutes.at_open hst
        exact hattended rfl hj ho hpeer
      | accept i =>
        obtain rfl : k = _ := hserve
        cases hnote
        obtain ⟨quota, hst⟩ := hf
        obtain ⟨j, hj, -, ho, hpeer⟩ := hn.minutes.at_pending hst
        exact hattended rfl hj ho hpeer
      | idle | refused | lost => cases hnote
      | _ =>
        cases hnote
        trivial
  round {a b n p} ht := by
    cases n with
    | told | dropped | accepted => cases ht
    | _ => trivial

/-- Between considerate hosts no DATA and no CONFIRM arrives for a channel that is not found, and
no other PDU for such a channel has any effect. -/
theorem closing_harmless (hE : Ideal E) (h : N.Created E)
    (hrun : Net.Run E Net.Considerate N N') (hb : ∀ r, (N'.ends r).allocs < 2 ^ 32) (r : Role)
    (hf : (N'.ends r).table.find x = none) :
    (∀ p : Pdu, p.Hits x → ¬ (N'.ends r).Unheeded p) ∧
    ∀ plain, (Pdu.ofBytes plain).recipient = some x → ¬ (Pdu.ofBytes plain).Hits x →
      handleMuxPdu E (N'.ends r) plain = (N'.ends r, true) := by
  obtain ⟨d, ht⟩ := Talking.run hE .considerate h hrun hb
  refine ⟨fun p hx hu => ?_, fun plain hr hx => handleMuxPdu_unfound hr hx hf⟩
  have hn := (ht.noted r).broke hu hx
  obtain ⟨hs, -⟩ | ⟨payload, y, own, quota, rfl, hs, -⟩ := (ht.talk r).broken hn hx
  · exact (ht.talk r).spared hn hx hs
  · obtain ⟨i, hi, -⟩ := (ht.noted r).minutes.at_open hs
    exact absurd (hf.symm.trans hi) (by rintro ⟨⟩)

/-- The server closes the channel while credit and an EOF for it are on their way. -/
def plainParting : List Act :=
  plainPass .client ++ [.host .client (.channelWindowAdjust 0 9), .host .client (.channelEof 0),
    .host .server (.channelClose 0)] ++ plainPass .client ++ plainPass .server

theorem admits_plainParting :
    Net.admitsB plainEnv (fun N a => decide (N.Considerate a)) plainNet
      (plainTalk ++ plainParting) = true := by
  decide +kernel

theorem plainParting_facts : (∀ r ∈ [Role.client, .server],
      ((plainAfter plainParting).ends r).allocs < 2 ^ 32 ∧
      ((plainAfter plainParting).ends r).state = .ready ∧
      ((plainAfter plainParting).ends r).table.find 0 = none) ∧
    [.sent (.channelClose 0), .took (.channelWindow 0 9), .took (.channelEof 0)] <:+
      ((plainAfter plainParting).ends .server).entries := by
  decide +kernel

theorem closing_harmless_plain :
    [.sent (.channelClose 0), .took (.channelWindow 0 9), .took (.channelEof 0)] <:+
      ((plainAfter plainParting).ends .server).entries ∧
    ((plainAfter plainParting).ends .server).state = .ready ∧
    ¬ ((plainAfter plainParting).ends .server).Unheeded (.channelData 0 [4]) ∧
    handleMuxPdu plainEnv ((plainAfter plainParting).ends .server) (plainWindow 9) =
      ((plainAfter plainParting).ends .server, true) := by
  obtain ⟨hfacts, hlast⟩ := plainParting_facts
  have hrun : Net.Run plainEnv Net.Considerate plainNet (plainAfter plainParting) := by
    unfold plainAfter
    exact .of_admitsB (fun _ _ => of_decide_eq_true) admits_plainParting
  obtain ⟨hhits, hother⟩ := closing_harmless (x := 0) ideal_plainEnv created_plainNet hrun
    (fun r => (hfacts r r.mem_both).1) .server (hfacts .server (by decide)).2.2
  exact ⟨hlast, (hfacts .server (by decide)).2.1, hhits _ rfl,
    hother _ (by decide) (by decide)⟩

/-- DATA arrives at a server that has just closed its channel. -/
theorem closing_harmful_plain : ∃ N, Net.Run plainEnv (fun _ _ => True) plainNet N ∧
    (∀ r, (N.ends r).allocs < 2 ^ 32) ∧ 0 ∈ (N.ends .server).births ∧
    (N.ends .server).table.find 0 = none ∧ .channelClose 0 ∈ (N.ends .server).calls ∧
    (N.ends .server).Unheeded (.channelData 0 [4]) ∧ (N.ends .server).state = .error := by
  obtain ⟨hallocs, hu, -, herr⟩ := plainLate_facts
  obtain ⟨hborn, hnone, hcall⟩ : 0 ∈ ((plainAfter plainLate).ends .server).births ∧
      ((plainAfter plainLate).ends .server).table.find 0 = none ∧
      .channelClose 0 ∈ ((plainAfter plainLate).ends .server).calls := by decide +kernel
  exact ⟨_, run_plainAfter (by decide), fun r => hallocs r r.mem_both, hborn, hnone, hcall, hu,
    herr⟩

end Sodchan
