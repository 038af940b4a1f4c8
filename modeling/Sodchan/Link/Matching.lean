import Sodchan.Channel.Admission
import Sodchan.Link.Parting

/-! # Matching tables

The peer is not told of a channel that is closed before it is open, nor of one
whose CLOSE does not fit, and a CHANNEL_OPEN whose refusal does not fit is not
answered. Where none of this occurs, the tables of both endpoints match as soon
as nothing is on its way.
-/

namespace Sodchan

open ByteString

variable {Rng SS : Type} {E : Env Rng SS} {c c' d : Ctx Rng SS} {N N' : Net Rng SS} {r : Role}
  {a b : List Note} {x s w m : UInt32} {p : Pdu} {plain name : Bytes} {tag : UInt8}
  {i : Fin maxChannelSlots}

instance (pdu : Bytes) : Decidable (CanSend E c pdu) :=
  decidable_of_iff (c.ssPushReady ∧ pdu ≠ [] ∧ pdu.length ≤ c.maxRecordSize ∧
      4 + (pdu.length + ssAbytes) ≤ outBufSize - c.pending.length ∧
      pdu.length + ssAbytes ≤ ssFrameMaxBody E c ∧ (E.ssPush c.ssPush pdu tagMessage).isSome)
    ⟨fun ⟨h1, h2, h3, h4, h5, h6⟩ => ⟨⟨h1, h2, h3, h4, h5⟩, h6⟩,
      fun ⟨⟨h1, h2, h3, h4, h5⟩, h6⟩ => ⟨h1, h2, h3, h4, h5, h6⟩⟩

instance : Decidable c.muxes := inferInstanceAs (Decidable (_ ∨ _))

/-- A CHANNEL_OPEN can be answered when the channel can be taken, or the refusal sent. -/
def Pdu.Answerable (E : Env Rng SS) (c : Ctx Rng SS) : Pdu → Prop
  | channelOpen s _ _ name =>
    channelNameAllowed c name ∧ chAlloc c ≠ none ∨ CanSend E c (c.refusal s name)
  | _ => True

instance : (p : Pdu) → Decidable (p.Answerable E c)
  | .channelOpen .. => inferInstanceAs (Decidable (_ ∧ _ ∨ _))
  | .channelOpenConfirm .. | .channelOpenFail _ | .channelData .. | .channelWindow ..
  | .channelEof _ | .channelClose _ | .other => .isTrue trivial

/-- What comes next can be answered. -/
def Responsive (E : Env Rng SS) (c : Ctx Rng SS) : Prop :=
  c.muxes → ∀ plain, c.dispatches E plain → (Pdu.ofBytes plain).Answerable E c

instance : DecidablePred (Responsive E) := fun c => inferInstanceAs
  (Decidable (c.muxes → ∀ plain, c.dispatches E plain → (Pdu.ofBytes plain).Answerable E c))

/-- The CLOSE of the channel can be sent. -/
structure Closable (E : Env Rng SS) (c : Ctx Rng SS) (ch : Channel) : Prop where
  peer : ch.havePeerId
  open_ : ch.state = .open_
  room : CanSend E c ([pduChannelClose] ++ be32 ch.peerId)

instance (ch : Channel) : Decidable (Closable E c ch) :=
  decidable_of_iff (ch.havePeerId ∧ ch.state = .open_ ∧
      CanSend E c ([pduChannelClose] ++ be32 ch.peerId))
    ⟨fun ⟨h1, h2, h3⟩ => ⟨h1, h2, h3⟩, fun ⟨h1, h2, h3⟩ => ⟨h1, h2, h3⟩⟩

namespace Net

/-- The peer has ended the channel, and says so. -/
def Renounced (N : Net Rng SS) (r : Role) (x : UInt32) : Prop :=
  .channelClose x ∈ N.coming r ∨ .channelOpenFail x ∈ N.coming r

/-- A host closes a channel only when the peer has ended it, or can be told of it. -/
def Tells (E : Env Rng SS) (N : Net Rng SS) (r : Role) (x : UInt32) : Prop :=
  (N.ends r).muxes → ∀ i, (N.ends r).table.find x = some i →
    N.Renounced r x ∨ Closable E (N.ends r) ((N.ends r).channels i)

/-- No channel is closed without a word, and no CHANNEL_OPEN is taken without an answer. -/
def Outspoken (E : Env Rng SS) (N : Net Rng SS) : Act → Prop
  | .host r k => ∀ x ∈ k.closing, N.Tells E r x
  | .deliver r n =>
    RoundsMeet E (Responsive E) (N.ends r) (.feedInput ((N.wire r.peer).take n))

instance (N : Net Rng SS) (r : Role) (x : UInt32) : Decidable (N.Renounced r x) :=
  inferInstanceAs (Decidable (_ ∨ _))

instance (N : Net Rng SS) (r : Role) (x : UInt32) : Decidable (N.Tells E r x) :=
  inferInstanceAs (Decidable (_ → ∀ _, _ → _))

/-- Whether no channel is closed without a word, and no CHANNEL_OPEN is taken without an answer. -/
def outspokenB (E : Env Rng SS) (N : Net Rng SS) : Act → Bool
  | .host r k => k.closing.all fun x => decide (N.Tells E r x)
  | .deliver r n =>
    roundsMeetB E (Responsive E) (N.ends r) (.feedInput ((N.wire r.peer).take n))

theorem outspokenB_sound (N : Net Rng SS) (a : Act) (h : N.outspokenB E a = true) :
    N.Outspoken E a := by
  cases a with
  | host r k =>
    intro x hx
    have h : k.closing.all (fun x => decide (N.Tells E r x)) = true := h
    rw [Option.mem_def.mp hx] at h
    exact of_decide_eq_true h
  | deliver r n => exact roundsMeetB_sound h

end Net

theorem CanSend.sentPdus (h : CanSend E c plain) (hp : Pdu.ofChannel plain = some p) :
    (ssSendPdu E c plain).1.sentPdus = c.sentPdus ++ [p] := by
  rw [Ctx.sentPdus, h.emits.sent, List.filterMap_append]
  simp [hp, Ctx.sentPdus]

theorem handlePlain_unanswered (ht : Dispatched tag)
    (hp : Pdu.ofBytes plain = .channelOpen s w m name)
    (he : (handlePlain E c plain tag).1.entries = c.entries)
    (hl : ¬ (handlePlain E c plain tag).1.ended) :
    c.muxes ∧ ¬ (Pdu.ofBytes plain).Answerable E c := by
  have hpc : Pdu.ofChannel plain = some (.channelOpen s w m name) := by rw [Pdu.ofChannel, hp]
  have hst : c.muxes := by
    by_contra hst
    exact hl (handlePlain_early ht hpc hst)
  refine ⟨hst, fun hok => ?_⟩
  rw [hp] at hok
  by_cases hn : channelNameAllowed c name ∧ chAlloc c ≠ none
  · obtain ⟨⟨d, i⟩, hs⟩ := Option.ne_none_iff_exists'.mp hn.2
    rw [handlePlain_taken hst ht hp hn.1 hs] at he
    have hborn := births_eq_marks (emit (setCh (c.allocated i) i (c.offer s w m name))
      (.channelOpen c.nextLocalChannelId s name w (Deed.packetOf c.terms m)))
    rw [he, ← births_eq_marks, (offered_eq c i _ _).2, List.filterMap_append] at hborn
    exact absurd (List.self_eq_append_right.mp hborn.symm) (by simp [Event.offered])
  · rw [handlePlain_refused hst ht hp hn] at he
    have hsent := (Or.resolve_left hok hn).sentPdus (p := .channelOpenFail s)
      (by rw [Pdu.ofChannel, ofBytes_refusal])
    rw [sentPdus_eq, he, ← sentPdus_eq] at hsent
    exact absurd (List.self_eq_append_right.mp hsent) (by simp)

/-- It does not matter whether the record of the PDU is pulled already. -/
theorem Pdu.Answerable.pulled (h : p.Answerable E c) {body : Bytes} {st : SS} :
    p.Answerable E ((c.log (.frame (rawFrame body))).afterPull st body plain tag) := by
  cases p with
  | channelOpen s w m name =>
    obtain ⟨hname, hslot⟩ | ⟨⟨h1, h2, h3, h4, h5⟩, h6⟩ := h
    · refine Or.inl ⟨hname, fun he => ?_⟩
      have hfull := chAlloc_eq_none.mp he
      exact hslot (chAlloc_eq_none.mpr hfull)
    · exact Or.inr ⟨⟨h1, h2, h3, h4, h5⟩, h6⟩
  | _ => trivial

namespace Ctx.Answered

theorem mono (h : c.Answered) (hh : c.hist <+: c'.hist)
    (hp : .channelOpen x w m name ∈ c.tookPdus) :
    (∃ y m', .channelOpen y x name w m' ∈ c'.emitted) ∨ .channelOpenFail x ∈ c'.sentPdus := by
  refine (h x w m name hp).imp ?_ fun hs => ?_
  · rintro ⟨y, m', he⟩
    exact ⟨y, m', (hh.filterMap _).subset he⟩
  · exact ((hh.filterMap _).filterMap _).subset hs

theorem call (h : c.Answered) {k : Call} (hk : k.isPlain) : (call E c k).1.Answered := by
  obtain ⟨a, ha⟩ := call_obeys (E := E) hk c
  have htook : (Sodchan.call E c k).1.tookPdus = c.tookPdus := by
    rw [tookPdus_eq, ha.2.2.entries, List.filterMap_append, ← tookPdus_eq,
      List.filterMap_eq_nil_iff.mpr, List.append_nil]
    intro e he
    cases e with
    | took p => exact absurd he (a.took_not_mem _ _ p)
    | _ => rfl
  intro x w m name hp
  rw [htook] at hp
  exact h.mono (Step.call k hk).advance.role_hist.2 hp

/-- A round that is dispatched answers a CHANNEL_OPEN, if it can be answered. -/
theorem round (h : c.Answered) (hok : Responsive E c)
    (htag : ∀ k body st plain tag, parseInput E c = .ok (k, body) → c.hs = .done →
      E.ssPull c.ssPull body = some (st, plain, tag) → Dispatched tag)
    (hl : ¬ (processOne E c).state.ended) : (processOne E c).state.Answered := by
  obtain ⟨a, hd, -⟩ := processOne_deed E c
  have hhist : c.hist <+: (processOne E c).state.hist := (processOne_advance E True c).role_hist.2
  obtain ⟨-, hr⟩ | ⟨plain, htakes, -, -, -, hent⟩ := hd.outcome
  · have htook : (processOne E c).state.tookPdus = c.tookPdus := by
      rw [tookPdus_eq, tookPdus_eq]
      obtain he | ⟨pdu, he⟩ := hr.entries
      · rw [he]
      · rw [he, List.filterMap_append]
        exact List.append_nil _
    intro x w m name hp
    rw [htook] at hp
    exact h.mono hhist hp
  · intro x w m name hp
    have hnot : ∀ p, Entry.took p ∉ a.entries c.terms c.table := a.took_not_mem c.terms c.table
    rw [tookPdus_eq, hent, List.filterMap_append, List.filterMap_append] at hp
    obtain hp | hp := List.mem_append.mp hp
    obtain hp | hp := List.mem_append.mp hp
    · rw [← tookPdus_eq] at hp
      exact h.mono hhist hp
    · -- the CHANNEL_OPEN of this round
      have hpc : Pdu.ofChannel plain = some (.channelOpen x w m name) := by
        cases hpc : Pdu.ofChannel plain with
        | none =>
          rw [hpc] at hp
          cases hp
        | some p =>
          rw [hpc] at hp
          simpa [Entry.pduTook, eq_comm] using hp
      rw [(ofChannel_eq hpc).1] at htakes
      have hmem : ∀ {e}, e ∈ a.entries c.terms c.table → e ∈ (processOne E c).state.entries :=
        fun he => hent ▸ List.mem_append_right _ he
      cases a with
      | offered j peer window packet name' =>
        cases htakes
        exact Or.inl ⟨_, _, (mem_entries_event rfl).mp (hmem (List.mem_singleton_self _))⟩
      | refused peer =>
        obtain ⟨w', m', name', he⟩ := htakes
        cases he
        rw [sentPdus_eq]
        exact Or.inr (List.mem_filterMap.mpr ⟨_, hmem (List.mem_singleton_self _), rfl⟩)
      | idle =>
        exfalso
        rw [hpc] at hent
        obtain ⟨k, body, st, plain', tag, hparse, hdone, hpull, hpc', hsame, hend⟩ :=
          processOne_pulled (p := .channelOpen x w m name) (hent.trans (List.append_nil _))
        have ht := htag k body st plain' tag hparse hdone hpull
        obtain ⟨hst, hno⟩ := handlePlain_unanswered ht (ofChannel_eq hpc').1 hsame
          (fun he => hl (hend.mpr he))
        exact hno (Pdu.Answerable.pulled (hok hst plain' ⟨k, body, st, tag, hparse, hpull, ht⟩))
      | lost => cases htakes
      | _ => cases htakes
    · obtain ⟨e, he, hep⟩ := List.mem_filterMap.mp hp
      cases e with
      | took p => exact absurd he (hnot p)
      | _ => cases hep

end Ctx.Answered

/-- A channel that can be closed at the peer is. -/
theorem channelClose_sentPdus (hst : c.muxes) (hi : c.table.Named i)
    (h : Closable E c (c.channels i)) :
    (call E c (.channelClose (c.table.slot i).localId)).1.sentPdus =
      c.sentPdus ++ [.channelClose (c.channels i).peerId] := by
  have hrecord : ∀ {k : Call} {q : Ctx Rng SS × Rc}, (record k q).1.sentPdus = q.1.sentPdus := by
    intro k q
    unfold record
    split
    · simp [Ctx.sentPdus, Ctx.sent, Ctx.log, Occ.sent?]
    · rfl
  have hu : (c.channels i).state ≠ .unused := h.open_ ▸ by rintro ⟨⟩
  have henc : Wire.channelCloseEncode (c.channels i).peerId 8 =
      .ok ([pduChannelClose] ++ be32 (c.channels i).peerId) := rfl
  have hsend : sendClose E c (c.channels i) =
      (ssSendPdu E c ([pduChannelClose] ++ be32 (c.channels i).peerId)).1 := by
    unfold sendClose
    rw [if_pos ⟨h.peer, h.open_⟩, henc]
  refine hrecord.trans ?_
  unfold channelClose
  rw [if_neg (not_and_or.mpr (hst.imp not_not.mpr not_not.mpr)), chByLocal_eq, hi]
  dsimp only
  rw [if_neg hu, hsend]
  refine Eq.trans ?_ (h.room.sentPdus
    (by rw [Pdu.ofChannel, Pdu.ofBytes_channelClose henc]))
  unfold Ctx.sentPdus Ctx.sent
  rw [(chFree_table (by rwa [ssSendPdu_channels])).2.2.2]

theorem Manner.outspoken : Manner E (fun N : Net Rng SS => N.Outspoken E) Spoken where
  call {N r k a b n} hg hn hp _ hdue := by
    cases hdue with
    | @call _ deed hobeys hnote =>
      obtain ⟨hserve, hidle, hdeal⟩ := hobeys
      cases deed with
      | close i told =>
        cases told <;> cases hnote
        · obtain rfl : k = _ := hserve
          have hst := hidle.resolve_left (by rintro ⟨⟩)
          have hi : (N.ends r).table.Named i := hdeal.enabled
          obtain hr | hc := hg _ rfl hst i hi
          · rwa [Net.Renounced, Net.coming_eq hn hp] at hr
          · have hsent := channelClose_sentPdus hst hi hc
            rw [sentPdus_eq, hdeal.entries, List.filterMap_append, ← sentPdus_eq] at hsent
            exact absurd (List.append_cancel_left hsent) (by rintro ⟨⟩)
        · trivial
      | idle | refused | lost => cases hnote
      | _ =>
        cases hnote
        trivial
  round {a b n p} ht := by
    cases n with
    | dropped => cases ht
    | _ => trivial

/-- As long as an endpoint lives, it has answered every CHANNEL_OPEN. -/
theorem Net.Run.answered (hE : Ideal E) (h : N.Created E)
    (hrun : Net.Run E (fun N : Net Rng SS => N.Outspoken E) N N') (r : Role)
    (hl : ¬ (N'.ends r).ended) : (N'.ends r).Answered := by
  induction hrun generalizing r with
  | nil =>
    obtain ⟨cfg, rng, memOk, hc⟩ := h.ends r
    intro x w m name hp
    rw [Ctx.tookPdus, (Fresh.created hc).2.received] at hp
    cases hp
  | @snoc N' a hrun ha hg ih =>
    have hstay : ∀ {d : Ctx Rng SS}, ¬ (processOne E d).state.ended → ¬ d.ended := by
      intro d hd he
      refine hd ?_
      cases hs : processOne E d with
      | again d' => exact (Step.again hs).ended he
      | stop d' => exact (Step.stop hs).ended he
    cases a with
    | host r' k =>
      by_cases hr : r = r'
      · subst hr
        rw [show (N'.step E (.host r k)).ends r = (call E (N'.ends r) k).1 from
          Function.update_self _ _ _] at hl ⊢
        exact (ih r fun he => hl ((Step.call k ha).ended he)).call ha
      · rw [show (N'.step E (.host r' k)).ends r = N'.ends r from
          Function.update_of_ne hr _ _] at hl ⊢
        exact ih r hl
    | deliver r' n =>
      by_cases hr : r = r'
      · subst hr
        refine (Linked.created h |>.run hE hrun).rounds hE (P := fun d => ¬ d.ended → d.Answered)
          (fun d w ht hlined hok hd hl => ?_) hg (ih r) (ih r) hl
        exact (hd (hstay hl)).round hok
          (fun k body st plain tag hp hdone hpull =>
            ht.dispatched hE hlined (hstay hl) hp hdone hpull) hl
      · rw [show (N'.step E (.deliver r' n)).ends r = N'.ends r from
          Function.update_of_ne hr _ _] at hl ⊢
        exact ih r hl

/-- Between endpoints that close no channel without a word, and take no CHANNEL_OPEN without an
answer, the tables match whenever nothing is on its way. -/
theorem tables_match (hE : Ideal E) (h : N.Created E)
    (hrun : Net.Run E (fun N : Net Rng SS => N.Outspoken E) N N')
    (hb : ∀ r, (N'.ends r).allocs < 2 ^ 32) (hq : N'.Quiet) (r : Role)
    (i : Fin maxChannelSlots) : N'.Matched r i := by
  obtain ⟨d, ht⟩ := Talking.run hE .outspoken h hrun hb
  refine ht.matched (ht.calm hE hq fun r => ?_) i
  exact ⟨(ht.talk r).forsaken, fun x w m name => ht.unlost (hrun.answered hE h r (hq.going r))⟩

/-- One channel is closed, one stays open, and one waits for the server. -/
def plainSettling : List Act :=
  plainPass .client ++ .host .client (.channelOpen (some (ascii "exec"))) :: plainPass .client ++
    .host .server (.channelAccept 1 true) :: plainPass .server ++
    .host .client (.channelOpen (some (ascii "tap"))) :: plainPass .client ++
    .host .server (.channelClose 0) :: plainPass .server

theorem admits_plainSettling :
    Net.admitsB plainEnv (fun N a => N.outspokenB plainEnv a) plainNet
      (plainTalk ++ plainSettling) = true := by
  decide +kernel

theorem plainSettling_facts : (∀ r ∈ [Role.client, .server],
      ((plainAfter plainSettling).ends r).allocs < 2 ^ 32 ∧
      ¬ ((plainAfter plainSettling).ends r).ended ∧ (plainAfter plainSettling).wire r = [] ∧
      ((plainAfter plainSettling).ends r).pending = [] ∧
      ((plainAfter plainSettling).ends r).table.find 0 = none) ∧
    (((plainAfter plainSettling).ends .client).channels slot1).state = .open_ ∧
    ∃ i, (((plainAfter plainSettling).ends .client).channels i).state = .opening := by
  decide +kernel

theorem tables_match_plain : ∃ i,
    (((plainAfter plainSettling).ends .client).channels i).state = .opening ∧
    (plainAfter plainSettling).Matched .client i ∧
    (((plainAfter plainSettling).ends .client).channels slot1).state = .open_ ∧
    (plainAfter plainSettling).Matched .client slot1 := by
  obtain ⟨hfacts, hopen, i, hi⟩ := plainSettling_facts
  have hrun : Net.Run plainEnv (fun N => N.Outspoken plainEnv) plainNet
      (plainAfter plainSettling) := by
    unfold plainAfter
    exact .of_admitsB Net.outspokenB_sound admits_plainSettling
  have hall := fun r : Role => hfacts r r.mem_both
  have hmatch := tables_match ideal_plainEnv created_plainNet hrun (fun r => (hall r).1)
    ⟨fun r => (hall r).2.1, fun r => (hall r).2.2.1, fun r => (hall r).2.2.2.1⟩ .client
  exact ⟨i, hi, hmatch i, hopen, hmatch slot1⟩

/-- The client closes a channel that the server has not accepted yet. -/
def plainDeserted : List Act :=
  plainPass .client ++ .host .client (.channelOpen (some (ascii "exec"))) :: plainPass .client ++
    [.host .client (.channelClose 1)]

/-- The channel of the server waits for one that is gone. -/
theorem tables_mismatch_plain : ∃ N, Net.Run plainEnv (fun _ _ => True) plainNet N ∧
    (∀ r, (N.ends r).allocs < 2 ^ 32 ∧ (N.ends r).state = .ready) ∧ N.Quiet ∧
    ∃ i, ((N.ends .server).channels i).state = .pending ∧ ¬ N.Matched .server i ∧
      ∀ j, ((N.ends .client).channels j).state ≠ .opening := by
  have hall : ∀ r ∈ [Role.client, .server], ((plainAfter plainDeserted).ends r).allocs < 2 ^ 32 ∧
      ((plainAfter plainDeserted).ends r).state = .ready ∧ (plainAfter plainDeserted).wire r = [] ∧
      ((plainAfter plainDeserted).ends r).pending = [] := by decide +kernel
  have hpending : (((plainAfter plainDeserted).ends .server).channels slot1).state = .pending := by
    decide +kernel
  have hnone : ∀ j, (((plainAfter plainDeserted).ends .client).channels j).state ≠ .opening := by
    decide +kernel
  have hall := fun r : Role => hall r r.mem_both
  have hgoing : ∀ r, ¬ ((plainAfter plainDeserted).ends r).ended := by
    intro r
    rw [Ctx.ended, (hall r).2.1]
    simp
  refine ⟨_, run_plainAfter (by decide), fun r => ⟨(hall r).1, (hall r).2.1⟩,
    ⟨hgoing, fun r => (hall r).2.2.1, fun r => (hall r).2.2.2⟩, slot1, hpending, fun hm => ?_,
    hnone⟩
  obtain ⟨j, ⟨hj, -⟩, -⟩ := hm.pending hpending
  exact hnone j hj

end Sodchan
