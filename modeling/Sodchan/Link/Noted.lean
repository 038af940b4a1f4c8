import Sodchan.Channel.Minutes
import Sodchan.Channel.Requests
import Sodchan.Link.Linked
import Sodchan.Session.Progress

/-! # What an endpoint notes

Every step of an endpoint makes at most one note, and the notes say what it has
sent and taken, what its events report and what its host has asked for.
-/

namespace Sodchan

open ByteString

variable {Rng SS : Type} {E : Env Rng SS} {c c' d : Ctx Rng SS} {a : Deed} {l : List Note}
  {n : Note}
  {x y : UInt32} {p : Pdu}

def Msg.on (x id : UInt32) (m : Msg) : Option Msg := if id = x then some m else none

def Event.msgOn (x : UInt32) : Event → Option Msg
  | .channelData id data => Msg.on x id (.data data)
  | .channelWindow id add _ => Msg.on x id (.window add)
  | .channelEof id => Msg.on x id .eof
  | .channelClose id => Msg.on x id .close
  | _ => .none

def Call.msgOn (x : UInt32) : Call → Option Msg
  | .channelSend id data _ => Msg.on x id (.data data.data)
  | .channelWindowAdjust id add => Msg.on x id (.window add)
  | .channelEof id => Msg.on x id .eof
  | .channelClose id => Msg.on x id .close
  | _ => .none

namespace Entry

def pduSent : Entry → Option Pdu
  | sent p => some p
  | _ => none

def pduTook : Entry → Option Pdu
  | took p => some p
  | _ => none

def msgOn (x : UInt32) : Entry → Option Msg
  | event ev => ev.msgOn x
  | _ => none

end Entry

namespace Ctx

def sentPdus (c : Ctx Rng SS) : List Pdu := c.sent.filterMap Pdu.ofChannel

def tookPdus (c : Ctx Rng SS) : List Pdu := c.received.filterMap Pdu.ofChannel

/-- The messages of the events that were raised for a channel, stored or lost. -/
def raisedOn (c : Ctx Rng SS) (x : UInt32) : List Msg := c.emitted.filterMap (Event.msgOn x)

/-- The messages of the calls on a channel that returned OK. -/
def saidOn (c : Ctx Rng SS) (x : UInt32) : List Msg := c.calls.filterMap (Call.msgOn x)

end Ctx

/-- What both a note and the history tell: who has asked for a channel and how that ended, what a
send has used up and what a window adjustment has granted. -/
inductive Mark where
  | offer (x peer window : UInt32) (name : Bytes)
  | opened (x peer : UInt32)
  | failed (x : UInt32)
  | spent (x : UInt32) (n : ℕ)
  | granted (x add : UInt32)

def Entry.mark : Entry → Option Mark
  | event (.channelOpen x peer name window _) => some (.offer x peer window name)
  | event (.channelOpened x peer ..) => some (.opened x peer)
  | event (.channelOpenFail x _) => some (.failed x)
  | spent x n => some (.spent x n)
  | granted x add => some (.granted x add)
  | _ => none

def Note.mark : Note → Option Mark
  | offered x peer window _ name => some (.offer x peer window name)
  | accepted x peer .. | confirmed x peer .. => some (.opened x peer)
  | failed x => some (.failed x)
  | told x _ (.data payload) => some (.spent x payload.length)
  | told x _ (.window add) => some (.granted x add)
  | _ => none

theorem sentPdus_eq (c : Ctx Rng SS) : c.sentPdus = c.entries.filterMap Entry.pduSent := by
  unfold Ctx.sentPdus Ctx.sent Ctx.entries
  rw [List.filterMap_filterMap, List.filterMap_filterMap]
  refine List.filterMap_congr fun o _ => ?_
  cases o with
  | sent b =>
    change Pdu.ofChannel b = (Entry.ofSent b).bind Entry.pduSent
    unfold Entry.ofSent
    split
    · rename_i h
      have hother : Pdu.ofBytes b = .other := by
        by_contra hne
        have := headD_of_ofBytes hne
        rw [h] at this
        exact absurd this (by decide)
      rw [Pdu.ofChannel, hother]
      rfl
    · cases Pdu.ofChannel b <;> rfl
  | queued ev | dropped ev =>
    change none = Option.bind (if ev.isChannel then some (Entry.event ev) else none) _
    split <;> rfl
  | pulled ct plain tag =>
    change none = ((Pdu.ofChannel plain).map Entry.took).bind Entry.pduSent
    cases Pdu.ofChannel plain <;> rfl
  | did k => cases k <;> rfl
  | _ => rfl

theorem tookPdus_eq (c : Ctx Rng SS) : c.tookPdus = c.entries.filterMap Entry.pduTook := by
  unfold Ctx.tookPdus Ctx.received Ctx.records Ctx.entries
  rw [← List.filterMap_eq_map, List.filterMap_filterMap, List.filterMap_filterMap,
    List.filterMap_filterMap]
  refine List.filterMap_congr fun o _ => ?_
  cases o with
  | sent b =>
    change none = (Entry.ofSent b).bind Entry.pduTook
    unfold Entry.ofSent
    split
    · rfl
    · cases Pdu.ofChannel b <;> rfl
  | queued ev | dropped ev =>
    change none = Option.bind (if ev.isChannel then some (Entry.event ev) else none) _
    split <;> rfl
  | pulled ct plain tag =>
    change Pdu.ofChannel plain = ((Pdu.ofChannel plain).map Entry.took).bind Entry.pduTook
    cases Pdu.ofChannel plain <;> rfl
  | did k => cases k <;> rfl
  | _ => rfl

theorem raisedOn_eq (c : Ctx Rng SS) (x : UInt32) :
    c.raisedOn x = c.entries.filterMap (Entry.msgOn x) := by
  unfold Ctx.raisedOn Ctx.emitted Ctx.entries
  rw [List.filterMap_filterMap, List.filterMap_filterMap]
  refine List.filterMap_congr fun o _ => ?_
  cases o with
  | queued ev | dropped ev =>
    change ev.msgOn x = Option.bind (if ev.isChannel then some (Entry.event ev) else none) _
    cases ev <;> rfl
  | sent b =>
    change none = (Entry.ofSent b).bind _
    unfold Entry.ofSent
    split
    · rfl
    · cases Pdu.ofChannel b <;> rfl
  | pulled ct plain tag =>
    change none = ((Pdu.ofChannel plain).map Entry.took).bind _
    cases Pdu.ofChannel plain <;> rfl
  | did k => cases k <;> rfl
  | _ => rfl

theorem Deed.note_entries (t : Terms) (s : Table) (ha : a.note t s = some n) :
    (a.entries t s).filterMap Entry.pduSent = n.sends.toList ∧
    (a.entries t s).filterMap Entry.pduTook = [] ∧
    ∀ x, (a.entries t s).filterMap (Entry.msgOn x) = (n.hears x).toList := by
  cases a with
  | idle | refused | lost => cases ha
  | close i told =>
    obtain rfl := Option.some.inj ha
    cases told <;> exact ⟨rfl, rfl, fun _ => rfl⟩
  | data i | credit i | eof i | closed i =>
    obtain rfl := Option.some.inj ha
    refine ⟨rfl, rfl, fun x => ?_⟩
    by_cases hx : (s.slot i).localId = x <;>
      simp [Deed.entries, Entry.msgOn, Event.msgOn, Msg.on, Note.hears, hx]
  | _ =>
    obtain rfl := Option.some.inj ha
    exact ⟨rfl, rfl, fun _ => rfl⟩

theorem Step.advances {lab : Label} (h : Step E lab c c') : ∃ quit : Prop, Advance E quit c c' := by
  cases h with
  | call k hk => exact ⟨_, (Step.call (E := E) (c := c) k hk).advance⟩
  | intake data => exact ⟨True, Advance.turn (.input _)⟩
  | again h | stop h =>
    have hadv := processOne_advance E True c
    rw [h] at hadv
    exact ⟨True, hadv⟩

theorem Step.said_prefix {lab : Label} (h : Step E lab c c') : c.saidOn x <+: c'.saidOn x := by
  obtain ⟨quit, ha⟩ := h.advances
  exact (ha.role_hist.2.filterMap _).filterMap _

theorem Step.ended {lab : Label} (h : Step E lab c c') (hc : c.ended) : c'.ended := by
  cases h with
  | call k hk => exact (Idle.call (E := E) (c := c) hk).ended hc
  | intake data => exact hc
  | again h | stop h =>
    have hst := congrArg Outcome.state h
    obtain ⟨-, hs⟩ | ⟨he, hcl, -⟩ | ⟨k, body, d, he, hcl, -⟩ := processOne_cases E c
    · rw [hs] at hst
      obtain rfl : c = c' := hst
      exact hc
    · exact absurd hc (not_or.mpr ⟨he, hcl⟩)
    · exact absurd hc (not_or.mpr ⟨he, hcl⟩)

/-- Once channels are dispatched, the session does not go back. -/
theorem Step.dispatching {lab : Label} (h : Step E lab c c') (hc : Lifecycle c)
    (hr : 4 ≤ c.state.rank) : 4 ≤ c'.state.rank := by
  by_cases he : c.ended
  · have := rank_of_ended (h.ended he)
    omega
  · obtain ⟨quit, ha⟩ := h.advances
    exact hr.trans (ha.rank hc he)

theorem Resting.entries (h : Resting c c') :
    c'.entries = c.entries ∨ ∃ pdu, c'.entries = c.entries ++ [.proof pdu] := by
  obtain ⟨-, -, -, k, hk, he⟩ | ⟨pdu, -, -, -, -, k, hk, he⟩ := h
  · exact Or.inl (by rw [Ctx.entries, hk, List.filterMap_append, he, List.append_nil]; rfl)
  · exact Or.inr ⟨pdu, by rw [Ctx.entries, hk, List.filterMap_append, he]; rfl⟩

theorem ofChannel_eq {plain : Bytes} (hp : Pdu.ofChannel plain = some p) :
    Pdu.ofBytes plain = p ∧ p ≠ .other := by
  unfold Pdu.ofChannel at hp
  split at hp
  · cases hp
  · rename_i hne
    obtain rfl := Option.some.inj hp
    exact ⟨rfl, hne⟩

theorem ofChannel_none {plain : Bytes} (hp : Pdu.ofChannel plain = none) :
    Pdu.ofBytes plain = .other := by
  unfold Pdu.ofChannel at hp
  split at hp
  · assumption
  · cases hp

theorem ne_nil_of_ofChannel {plain : Bytes} (hp : Pdu.ofChannel plain = some p) : plain ≠ [] := by
  rintro rfl
  obtain ⟨rfl, hne⟩ := ofChannel_eq hp
  exact hne (by decide)

/-- A PDU of a channel ends a session that does not dispatch it. -/
theorem handlePlain_early {plain : Bytes} {tag : UInt8} (htag : Dispatched tag)
    (hp : Pdu.ofChannel plain = some p) (hst : ¬ (c.state = .ready ∨ c.state = .draining)) :
    (handlePlain E c plain tag).1.ended := by
  obtain ⟨hpdu, hne⟩ := ofChannel_eq hp
  have hhead := headD_of_ofBytes (b := plain) (hpdu ▸ hne)
  have hnil := ne_nil_of_ofChannel hp
  have hfail : ∀ (d : Ctx Rng SS) code msg, (setError d code msg).ended :=
    fun d code msg => Or.inl (setError_state d code msg)
  have hother : ∀ {t : UInt8}, 7 < t.toNat → plain.headD 0 ≠ t := by
    rintro t ht rfl
    omega
  unfold handlePlain
  rw [if_neg htag.1, if_neg htag.2, if_neg fun h => hnil (List.length_eq_zero_iff.mp h),
    Wire.pduType_eq hnil]
  dsimp only
  rw [if_neg hst]
  split
  · rw [if_neg (hother (by decide)), if_neg (hother (by decide)), if_neg (hother (by decide))]
    exact hfail _ _ _
  · exact hfail _ _ _

theorem handlePlain_excused {plain : Bytes} {tag : UInt8} (htag : Dispatched tag)
    (hp : Pdu.ofChannel plain = some p)
    (he : (handlePlain E c plain tag).1.entries = c.entries) :
    p.Moot c.table ∨ (handlePlain E c plain tag).1.ended ∧
      (p.Fatal c.table ∨ ¬ (c.state = .ready ∨ c.state = .draining)) := by
  by_cases hst : c.state = .ready ∨ c.state = .draining
  · rw [handlePlain_mux hst htag (ne_nil_of_ofChannel hp)] at he ⊢
    obtain ⟨a, ha, hd, hidle⟩ := handleMuxPdu_heeds (E := E) (c := c) plain
    rw [(ofChannel_eq hp).1] at ha hidle
    have hnone : a.entries c.terms c.table = [] :=
      List.self_eq_append_right.mp (he.symm.trans hd.entries)
    have hid : a = .idle := by
      cases a with
      | idle => rfl
      | lost | close => cases ha
      | _ => cases hnone
    exact (hidle hid).imp_right fun h => ⟨h.1, Or.inl h.2⟩
  · exact Or.inr ⟨handlePlain_early htag hp hst, Or.inr hst⟩

theorem Resting.ne_took (h : Resting c c') : c'.entries ≠ c.entries ++ [.took p] := by
  intro he
  obtain h | ⟨pdu, h⟩ := h.entries <;> rw [h] at he
  · exact absurd (List.self_eq_append_right.mp he) (by simp)
  · cases List.append_cancel_left he

theorem Deed.took_not_mem (t : Terms) (s : Table) (a : Deed) (p : Pdu) :
    Entry.took p ∉ a.entries t s := by
  cases a with
  | close i told => cases told <;> simp [Deed.entries]
  | _ => simp [Deed.entries]

/-- A PDU that nothing has come of was pulled from a record, and dispatched. -/
theorem handleFrame_pulled (body : Bytes)
    (he : (handleFrame E c body).1.entries = c.entries ++ [.took p]) :
    ∃ st plain tag, c.hs = .done ∧ E.ssPull c.ssPull body = some (st, plain, tag) ∧
      Pdu.ofChannel plain = some p ∧
      (handleFrame E c body).1 = (handlePlain E (c.afterPull st body plain tag) plain tag).1 ∧
      (handleFrame E c body).1.entries = (c.afterPull st body plain tag).entries := by
  cases hs : c.hs with
  | waitPeerHello =>
    have hf : handleFrame E c body = handlePeerHello E c body := by
      unfold handleFrame
      rw [hs]
    rw [hf] at he
    exact absurd he (Resting.ne_took (Or.inl (handlePeerHello_rest body)))
  | waitPeerSs =>
    have hf : handleFrame E c body = handlePeerSsHeader E c body := by
      unfold handleFrame
      rw [hs]
    rw [hf] at he
    exact absurd he (handlePeerSsHeader_rest body).ne_took
  | start =>
    have hf : handleFrame E c body = (setError c .state "bad hs state", false) := by
      unfold handleFrame
      rw [hs]
    rw [hf] at he
    exact absurd he (Resting.ne_took (Or.inl (.failed _ _)))
  | done =>
    have hf : handleFrame E c body = handleEncryptedPdu E c body := by
      unfold handleFrame
      rw [hs]
    rw [hf] at he ⊢
    obtain ⟨code, msg, h⟩ | ⟨st, plain, tag, hready, hfits, hpull, h⟩ :=
      handleEncryptedPdu_cases E c body <;> rw [h] at he ⊢
    · exact absurd he (Resting.ne_took (Or.inl (.failed code msg)))
    · have hpulled : Rest _ c (c.afterPull st body plain tag) := .pulled
      have hgrow := hpulled.entries
      obtain ⟨a, ha, -⟩ :=
        handlePlain_answers (E := E) (c := c.afterPull st body plain tag) plain tag
      have hdeal := ha.2.2.entries
      rw [he, hgrow, List.append_assoc] at hdeal
      have hdeal := List.append_cancel_left hdeal
      cases hpc : Pdu.ofChannel plain with
      | none =>
        rw [hpc] at hdeal
        refine absurd (List.mem_singleton_self (Entry.took p)) ?_
        rw [hdeal]
        exact Deed.took_not_mem _ _ a p
      | some p' =>
        rw [hpc] at hdeal hgrow
        obtain ⟨hpp, -⟩ := List.cons.inj (show _ :: _ = _ :: _ from hdeal)
        cases hpp
        exact ⟨st, plain, tag, rfl, hpull, hpc, rfl, he.trans hgrow.symm⟩

theorem processOne_pulled (he : (processOne E c).state.entries = c.entries ++ [.took p]) :
    ∃ k body st plain tag, parseInput E c = .ok (k, body) ∧ c.hs = .done ∧
      E.ssPull c.ssPull body = some (st, plain, tag) ∧ Pdu.ofChannel plain = some p ∧
      let d := (c.log (.frame (rawFrame body))).afterPull st body plain tag
      (handlePlain E d plain tag).1.entries = d.entries ∧
        ((processOne E c).state.ended ↔ (handlePlain E d plain tag).1.ended) := by
  obtain ⟨-, h⟩ | ⟨-, -, -, h⟩ | ⟨k, body, d, -, -, hp, h⟩ := processOne_cases E c
  · rw [h] at he
    exact absurd he (Resting.ne_took (Or.inl (.refl c)))
  · rw [h] at he
    exact absurd he (Resting.ne_took (Or.inl (.failed _ _)))
  · have hlog : (c.log (.frame (rawFrame body))).entries = c.entries := by
      rw [Rest.entries (Rest.log (.frame (rawFrame body)))]
      exact List.append_nil _
    have hd : (processOne E c).state.entries = d.entries ∧
        ((processOne E c).state.ended ↔ d.ended) ∧
        (handleFrame E (c.log (.frame (rawFrame body))) body).1 = d := by
      obtain ⟨hf, h⟩ | ⟨hf, h⟩ := h <;> rw [h, hf] <;> exact ⟨rfl, Iff.rfl, rfl⟩
    obtain ⟨hent, hend, rfl⟩ := hd
    obtain ⟨st, plain, tag, hdone, hpull, hpc, hf, hsame⟩ :=
      handleFrame_pulled (E := E) (c := c.log (.frame (rawFrame body))) body
        (by rw [← hent, he, hlog])
    rw [hf] at hsame hend
    exact ⟨k, body, st, plain, tag, hp, hdone, hpull, hpc, hsame, hend⟩

theorem processOne_excused
    (htag : ∀ k body st plain tag, parseInput E c = .ok (k, body) → c.hs = .done →
      E.ssPull c.ssPull body = some (st, plain, tag) → Dispatched tag)
    (he : (processOne E c).state.entries = c.entries ++ [.took p]) :
    p.Moot c.table ∨ (processOne E c).state.ended ∧
      (p.Fatal c.table ∨ ¬ (c.state = .ready ∨ c.state = .draining)) := by
  obtain ⟨k, body, st, plain, tag, hp, hdone, hpull, hpc, hsame, hend⟩ := processOne_pulled he
  rw [hend]
  exact handlePlain_excused (E := E) (c := (c.log (.frame (rawFrame body))).afterPull st body plain
    tag) (htag k body st plain tag hp hdone hpull) hpc hsame

/-! ### Calls -/

theorem Rest.unsent {b : Bytes} {rc : Rc} (h : ssSendPdu E c b = (d, rc)) (hrc : rc ≠ .ok) :
    Rest [] c d := by
  obtain ⟨-, hok⟩ | ⟨hr, -⟩ := Rest.send E c b
  · rw [h] at hok
    exact absurd hok hrc
  · rwa [h] at hr

theorem Rest.failed_ite {P : Prop} [Decidable P] {r s : Ctx Rng SS × Rc}
    (h : r.2 ≠ .ok → Rest [] c r.1) (h' : s.2 ≠ .ok → Rest [] c s.1) :
    (if P then r else s).2 ≠ .ok → Rest [] c (if P then r else s).1 := by
  split
  · exact h
  · exact h'

theorem channelSend_failed (id : UInt32) (data : Arg) (memOk : Bool) :
    (channelSend E c id data memOk).2 ≠ .ok → Rest [] c (channelSend E c id data memOk).1 := by
  unfold channelSend
  apply Rest.failed_ite
  · exact fun _ => .refl c
  · apply Rest.failed_ite
    · exact fun _ => .refl c
    · split
      · exact fun _ => .refl c
      · dsimp only
        repeat' apply Rest.failed_ite
        all_goals first | exact fun _ => .refl c | skip
        split
        · exact fun _ => .refl c
        · split
          · exact fun h => absurd rfl h
          · rename_i hs
            exact fun h => .unsent hs h

theorem channelEof_failed (id : UInt32) :
    (channelEof E c id).2 ≠ .ok → Rest [] c (channelEof E c id).1 := by
  unfold channelEof
  apply Rest.failed_ite
  · exact fun _ => .refl c
  · split
    · exact fun _ => .refl c
    · dsimp only
      repeat' apply Rest.failed_ite
      all_goals first | exact fun _ => .refl c | skip
      split
      · exact fun _ => .refl c
      · split
        · exact fun h => absurd rfl h
        · rename_i hrc hs
          exact fun _ => .unsent hs hrc

theorem channelWindowAdjust_failed (id add : UInt32) :
    (channelWindowAdjust E c id add).2 ≠ .ok → Rest [] c (channelWindowAdjust E c id add).1 := by
  unfold channelWindowAdjust
  apply Rest.failed_ite
  · exact fun _ => .refl c
  · apply Rest.failed_ite
    · exact fun _ => .refl c
    · split
      · exact fun _ => .refl c
      · dsimp only
        apply Rest.failed_ite
        · exact fun _ => .refl c
        split
        · exact fun _ => .refl c
        · split
          · exact fun h => absurd rfl h
          · rename_i hrc hs
            exact fun _ => .unsent hs hrc

theorem channelClose_failed (id : UInt32) :
    (channelClose E c id).2 ≠ .ok → Rest [] c (channelClose E c id).1 := by
  unfold channelClose
  apply Rest.failed_ite
  · exact fun _ => .refl c
  · split
    · exact fun _ => .refl c
    · dsimp only
      apply Rest.failed_ite
      · exact fun _ => .refl c
      · exact fun h => absurd rfl h

theorem record_did {k : Call} {r : Ctx Rng SS × Rc}
    (hf : r.2 ≠ .ok → Rest [] c r.1) (hm : c.hist <+: r.1.hist)
    (hg : (record k r).1.entries ≠ c.entries) :
    ∃ l, (record k r).1.calls = c.calls ++ l ++ [k] := by
  by_cases hrc : r.2 = .ok
  · obtain ⟨l, hl⟩ := hm
    refine ⟨l.filterMap Occ.did?, ?_⟩
    unfold record Ctx.calls Ctx.log
    rw [if_pos hrc, ← hl]
    simp [Occ.did?]
  · refine absurd ?_ hg
    unfold record
    rw [if_neg hrc, (hf hrc).entries, List.append_nil]

/-- Nothing is told on a channel that is not open. -/
theorem channelClose_silent {i : Fin maxChannelSlots} (hi : c.table.Named i)
    (hs : (c.table.slot i).state ≠ .open_) :
    (record (.channelClose (c.table.slot i).localId)
      (channelClose E c (c.table.slot i).localId)).1.entries = c.entries := by
  have hc : (channelClose E c (c.table.slot i).localId).1.entries = c.entries := by
    unfold channelClose
    split
    · rfl
    · rw [chByLocal_eq, hi]
      dsimp only
      split
      · rfl
      · rename_i hu
        have hn : sendClose E c (c.channels i) = c := if_neg fun h => hs h.2
        rw [hn]
        unfold Ctx.entries
        rw [(chFree_table hu).2.2.2]
  unfold record
  split
  · rw [Rest.entries (Rest.log _), hc]
    exact List.append_nil _
  · exact hc

theorem Obeys.told {k : Call} (h : Obeys c (call E c k).1 k a) {m : Msg}
    (hn : a.note c.terms c.table = some (.told x y m)) :
    k.msgOn x = some m ∧ (∃ l, (call E c k).1.calls = c.calls ++ l ++ [k]) ∧
      ∀ i, a = .close i true → (c.table.slot i).state = .open_ := by
  obtain ⟨hserve, -, hdeal⟩ := h
  have hent : (call E c k).1.entries = c.entries ++ a.entries c.terms c.table := by
    obtain ⟨l, hl, he⟩ := hdeal.hist
    rw [Ctx.entries, hl, List.filterMap_append, he]
    rfl
  have hgrown : a.entries c.terms c.table ≠ [] → (call E c k).1.entries ≠ c.entries := by
    intro hne he
    rw [he] at hent
    exact hne (List.self_eq_append_right.mp hent)
  have hon : ∀ m, Msg.on x x m = some m := fun m => if_pos rfl
  cases a with
  | send i payload =>
    obtain ⟨data, memOk, rfl, rfl⟩ := hserve
    cases hn
    exact ⟨hon _, record_did (channelSend_failed _ data memOk)
      (channelSend_moves _ data memOk).hist_mono (hgrown (by simp [Deed.entries])), by rintro _ ⟨⟩⟩
  | shut i =>
    obtain rfl : k = _ := hserve
    cases hn
    exact ⟨hon _, record_did (channelEof_failed _) (channelEof_moves _).hist_mono
      (hgrown (by simp [Deed.entries])), by rintro _ ⟨⟩⟩
  | grant i add =>
    obtain rfl : k = _ := hserve
    cases hn
    exact ⟨hon _, record_did (channelWindowAdjust_failed _ add)
      (channelWindowAdjust_moves _ add).hist_mono (hgrown (by simp [Deed.entries])), by rintro _ ⟨⟩⟩
  | close i told =>
    obtain rfl : k = _ := hserve
    cases told with
    | false => cases hn
    | true =>
      cases hn
      have hg := hgrown (by simp [Deed.entries])
      refine ⟨hon _, record_did (channelClose_failed _)
        (channelClose_moves (p := ⟨True, True⟩) _).hist_mono hg, ?_⟩
      rintro j ⟨⟩
      by_contra hs
      exact hg (channelClose_silent hdeal.enabled hs)
  | idle | refused | lost => cases hn
  | _ => cases hn

theorem channelClose_ok {i : Fin maxChannelSlots} (hst : c.state = .ready ∨ c.state = .draining)
    (hi : c.table.Named i) : (channelClose E c (c.table.slot i).localId).2 = .ok := by
  unfold channelClose
  split
  · rename_i hgo
    exact absurd hst (not_or.mpr hgo)
  · rw [chByLocal_eq, hi]
    dsimp only
    rw [if_neg (show (c.channels i).state ≠ .unused from (Table.find_some hi).1)]

theorem Obeys.dropped {k : Call} (h : Obeys c (call E c k).1 k a)
    (hn : a.note c.terms c.table = some (.dropped x)) :
    Call.channelClose x ∈ (call E c k).1.calls := by
  obtain ⟨hserve, hidle, hdeal⟩ := h
  cases a with
  | close i told =>
    obtain rfl : k = _ := hserve
    cases told with
    | true => cases hn
    | false =>
      cases hn
      have hok := channelClose_ok (E := E) (hidle.resolve_left (by rintro ⟨⟩)) hdeal.enabled
      change _ ∈ (record _ (channelClose E c _)).1.calls
      unfold record
      rw [if_pos hok]
      simp [Ctx.calls, Ctx.log, Occ.did?]
  | idle | refused | lost => cases hn
  | _ => cases hn

/-! ### The diary of an endpoint -/

/-- The own window that a note offers the peer. -/
def Note.Offers (w : UInt32) : Note → Prop
  | opened _ own .. | accepted _ _ own _ => own = w
  | _ => True

section Deeds

variable {t : Terms} {s : Table}

theorem Deed.note_serves {k : Call} (h : a.Serves s k) (hn : a.note t s = some n) :
    n.takes = none := by
  cases a with
  | idle | refused | lost => cases hn
  | close i told => cases told <;> cases hn <;> rfl
  | open_ | accept | reject | send | shut | grant =>
    cases hn
    rfl
  | _ => cases h

theorem Deed.note_takes (h : a.Takes s p) (hn : a.note t s = some n) : n.takes = some p := by
  cases a with
  | idle | refused | lost => cases hn
  | offered | confirmed | failed | data | credit | eof | closed =>
    obtain rfl : p = _ := h
    cases hn
    rfl
  | _ => cases h

theorem Deed.takes_other (h : a.Takes s .other) : a = .idle := by
  cases a <;> simp only [Deed.Takes, reduceCtorEq, exists_const] at h
  rfl

theorem Deed.note_offers (hn : a.note t s = some n) : n.Offers t.window := by
  cases a with
  | idle | refused | lost => cases hn
  | close i told => cases told <;> cases hn <;> trivial
  | _ =>
    cases hn
    trivial

theorem Deed.note_marks (hn : a.note t s = some n) :
    (a.entries t s).filterMap Entry.mark = n.mark.toList := by
  cases a with
  | idle | refused | lost => cases hn
  | close i told =>
    obtain rfl := Option.some.inj hn
    cases told <;> rfl
  | _ =>
    obtain rfl := Option.some.inj hn
    rfl

theorem Deed.note_ne_broke : a.note t s ≠ some (.broke p) := by
  intro hn
  cases a with
  | close i told => cases told <;> cases hn
  | _ => cases hn

theorem Deed.last_entry {l : List Entry} (h : (l ++ a.entries t s).getLast? = some (.took p)) :
    a.entries t s = [] := by
  by_contra hne
  rw [List.getLast?_append_of_ne_nil _ hne] at h
  exact a.took_not_mem t s p (List.mem_of_getLast? h)

end Deeds

/-- The diary of all that an endpoint has done. -/
structure Noted (c : Ctx Rng SS) (l : List Note) : Prop where
  minutes : Minutes c.table l
  lifecycle : Lifecycle c
  finished : Over l → c.ended
  vacant : ∀ i, (c.channels i).state ≠ .unused → 4 ≤ c.state.rank
  sent : c.entries.filterMap Entry.pduSent = sentBy l
  taken : c.entries.filterMap Entry.pduTook = takenBy l
  heard : ∀ x, c.entries.filterMap (Entry.msgOn x) = heardOn x l
  said : ∀ x, (toldOn x l).Sublist (c.saidOn x)
  offers : ∀ n ∈ l, n.Offers c.initialWindow
  marks : c.entries.filterMap Entry.mark = l.filterMap Note.mark
  dropped : ∀ x, .dropped x ∈ l → .channelClose x ∈ c.calls
  last : ∀ p, c.entries.getLast? = some (.took p) → .passed p ∈ l ∨ .broke p ∈ l

/-- What asks for a note in a step: a call of the host, or a PDU of the peer. -/
inductive Note.Due (E : Env Rng SS) (c : Ctx Rng SS) (n : Note) : Label → Prop where
  | call {k : Call} {a : Deed} : Obeys c (call E c k).1 k a → a.note c.terms c.table = some n →
      Due E c n (.call k)
  | round {p : Pdu} : n.takes = some p → Due E c n .round

namespace Noted

variable {lab : Label} {e : List Entry} {k : List Note}

theorem grow (h : Noted c l) (hs : Step E lab c c') (hm : Minutes c'.table (l ++ k))
    (hset : c'.settings = c.settings) (he : c'.entries = c.entries ++ e)
    (hover : Over k → c'.ended)
    (hvacant : c'.table = c.table ∨ c.state = .ready ∨ c.state = .draining)
    (hsent : e.filterMap Entry.pduSent = sentBy k) (htook : e.filterMap Entry.pduTook = takenBy k)
    (hheard : ∀ x, e.filterMap (Entry.msgOn x) = heardOn x k)
    (hsaid : ∀ x, (c.saidOn x ++ toldOn x k).Sublist (c'.saidOn x))
    (hoffers : ∀ n ∈ k, n.Offers c.initialWindow)
    (hmarks : e.filterMap Entry.mark = k.filterMap Note.mark)
    (hdropped : ∀ x, .dropped x ∈ k → .channelClose x ∈ c'.calls)
    (hlast : ∀ p, c'.entries.getLast? = some (.took p) →
      c'.entries = c.entries ∨ .passed p ∈ k ∨ .broke p ∈ k) : Noted c' (l ++ k) := by
  have hwin : c'.initialWindow = c.initialWindow := congrArg Settings.initialWindow hset
  obtain ⟨quit, hadv⟩ := hs.advances
  refine ⟨hm, hadv.lifecycle h.lifecycle, ?_, fun i hi => ?_, ?_, ?_, fun x => ?_, fun x => ?_,
    fun n hn => ?_, ?_, fun x hx => ?_, fun p hp => ?_⟩
  · rintro ⟨p, hp⟩
    obtain hp | hp := List.mem_append.mp hp
    · exact hs.ended (h.finished ⟨p, hp⟩)
    · exact hover ⟨p, hp⟩
  · apply hs.dispatching h.lifecycle
    obtain ht | hst | hst := hvacant
    · rw [show c'.channels = c.channels from congrArg Table.slot ht] at hi
      exact h.vacant i hi
    · rw [hst]
      decide
    · rw [hst]
      decide
  · rw [he, List.filterMap_append, h.sent, hsent]
    exact (List.filterMap_append ..).symm
  · rw [he, List.filterMap_append, h.taken, htook]
    exact (List.filterMap_append ..).symm
  · rw [he, List.filterMap_append, h.heard, hheard]
    exact (List.filterMap_append ..).symm
  · rw [toldOn, List.filterMap_append]
    exact ((h.said x).append_right _).trans (hsaid x)
  · rw [hwin]
    obtain hn | hn := List.mem_append.mp hn
    · exact h.offers n hn
    · exact hoffers n hn
  · rw [he, List.filterMap_append, h.marks, hmarks]
    exact (List.filterMap_append ..).symm
  · obtain hx | hx := List.mem_append.mp hx
    · exact (hadv.role_hist.2.filterMap Occ.did?).subset (h.dropped x hx)
    · exact hdropped x hx
  · obtain hsame | hk := hlast p hp
    · rw [hsame] at hp
      exact (h.last p hp).imp (List.mem_append_left _) (List.mem_append_left _)
    · exact hk.imp (List.mem_append_right _) (List.mem_append_right _)

theorem stay (h : Noted c l) (hs : Step E lab c c') (hm : Minutes c'.table l)
    (hset : c'.settings = c.settings) (he : c'.entries = c.entries ++ e)
    (hvacant : c'.table = c.table ∨ c.state = .ready ∨ c.state = .draining)
    (hsent : e.filterMap Entry.pduSent = []) (htook : e.filterMap Entry.pduTook = [])
    (hheard : ∀ x, e.filterMap (Entry.msgOn x) = []) (hmarks : e.filterMap Entry.mark = []) :
    Noted c' l := by
  have hlast : ∀ p, c'.entries.getLast? = some (.took p) →
      c'.entries = c.entries ∨ .passed p ∈ ([] : List Note) ∨ .broke p ∈ ([] : List Note) := by
    intro p hp
    rw [he] at hp ⊢
    cases e using List.reverseRecOn with
    | nil => exact Or.inl (List.append_nil _)
    | append_singleton e a =>
      rw [← List.append_assoc, List.getLast?_concat] at hp
      obtain rfl := Option.some.inj hp
      simp [Entry.pduTook] at htook
  have := h.grow hs (k := []) (by rwa [List.append_nil]) hset he (by rintro ⟨p, ⟨⟩⟩) hvacant hsent
    htook hheard (fun x => ?_) (by simp) hmarks (by simp) hlast
  · rwa [List.append_nil] at this
  · rw [show toldOn x [] = [] from rfl, List.append_nil]
    exact hs.said_prefix.sublist

theorem single (n : Note) : sentBy [n] = n.sends.toList ∧ takenBy [n] = n.takes.toList ∧
    (∀ x, toldOn x [n] = (n.tells x).toList) ∧ (∀ x, heardOn x [n] = (n.hears x).toList) ∧
    [n].filterMap Note.mark = n.mark.toList := by
  have h : ∀ {α : Type} (f : Note → Option α), [n].filterMap f = (f n).toList := by
    intro α f
    cases hf : f n <;> simp [hf]
  exact ⟨h _, h _, fun x => h _, fun x => h _, h _⟩

theorem room (ht : c'.table = a.apply c.terms c.table) (hb : c'.allocs < 2 ^ 32) :
    a.allocates → c.table.allocs < 2 ^ 32 := by
  intro hall
  have hn := congrArg Table.allocs ht
  rw [Numbered.apply_allocs, if_pos hall] at hn
  have hn : c'.allocs = c.table.allocs + 1 := hn
  omega

/-- What a step has led to. -/
def After (E : Env Rng SS) (l : List Note) (lab : Label) (c c' : Ctx Rng SS) : Prop :=
  Noted c' l ∨ ∃ n : Note, n.Due E c lab ∧ ¬ Over l ∧ n.Fits l ∧ Noted c' (l ++ [n])

theorem not_over (h : Noted c l) (hst : c.state = .ready ∨ c.state = .draining) : ¬ Over l := by
  intro ho
  obtain he | he := h.finished ho <;> obtain hst | hst := hst <;> rw [hst] at he <;> cases he

theorem call (h : Noted c l) {k : Call} (hk : k.isPlain) (hb : (call E c k).1.allocs < 2 ^ 32) :
    After E l (.call k) c (call E c k).1 := by
  have hs : Step E (.call k) c (Sodchan.call E c k).1 := .call k hk
  obtain ⟨a, ha⟩ := call_obeys (E := E) hk c
  obtain ⟨hserve, hidle, hd⟩ := ha
  have hroom := room hd.table hb
  have hvacant : (Sodchan.call E c k).1.table = c.table ∨ c.state = .ready ∨ c.state = .draining :=
    hidle.imp_left fun hi => by
      rw [hd.table, hi]
      rfl
  cases hn : a.note c.terms c.table with
  | none =>
    have hnone : a.entries c.terms c.table = [] := by
      cases a with
      | idle | lost => rfl
      | refused => cases hserve
      | _ => cases hn
    refine Or.inl (h.stay hs ?_ hd.settings hd.entries hvacant ?_ ?_ (fun x => ?_) ?_)
    · rw [hd.table]
      exact h.minutes.quiet hd.enabled hroom hn
    all_goals
      rw [hnone]
      rfl
  | some n =>
    have hst : c.state = .ready ∨ c.state = .draining := by
      refine hidle.resolve_left ?_
      rintro rfl
      cases hn
    have hover := h.not_over hst
    have htold : ∀ {x y m}, n = .told x y m → k.msgOn x = some m ∧ _ ∧ _ := fun he =>
      Obeys.told ⟨hserve, hidle, hd⟩ (hn.trans (congrArg some he))
    have hclose : ∀ i, a = .close i true → (c.table.slot i).state = .open_ := by
      rintro i rfl
      exact (htold (Option.some.inj hn).symm).2.2 i rfl
    obtain ⟨hf, hm⟩ := h.minutes.deed hover hd.enabled hroom hclose hn
    obtain ⟨h1, h2, h3⟩ := a.note_entries c.terms c.table hn
    obtain ⟨g1, g2, g3, g4, g5⟩ := single n
    refine Or.inr ⟨n, .call ⟨hserve, hidle, hd⟩ hn, hover, hf, h.grow hs (hd.table ▸ hm)
      hd.settings hd.entries ?_ hvacant (h1.trans g1.symm) ?_ (fun x => (h3 x).trans (g4 x).symm)
      (fun x => ?_) ?_ ((Deed.note_marks hn).trans g5.symm) (fun x hx => ?_) fun p hp => ?_⟩
    · rintro ⟨p, hp⟩
      rw [List.mem_singleton] at hp
      exact absurd (hn.trans (congrArg some hp.symm)) Deed.note_ne_broke
    · rw [h2, g2, Deed.note_serves hserve hn]
      rfl
    · rw [g3]
      cases ht : n.tells x with
      | none =>
        rw [Option.toList_none, List.append_nil]
        exact hs.said_prefix.sublist
      | some m =>
        obtain ⟨y, rfl⟩ : ∃ y, n = .told x y m := by
          cases n with
          | told z y m' =>
            simp only [Note.tells, Option.ite_none_right_eq_some, Option.some.injEq] at ht
            exact ⟨y, by rw [ht.1, ht.2]⟩
          | _ => cases ht
        obtain ⟨hmsg, ⟨l', hl'⟩, -⟩ := htold rfl
        unfold Ctx.saidOn
        rw [hl', List.filterMap_append, List.filterMap_append]
        refine List.Sublist.append (List.sublist_append_left _ _) ?_
        simp [hmsg]
    · intro k hk
      rw [List.mem_singleton.mp hk]
      exact Deed.note_offers hn
    · rw [List.mem_singleton] at hx
      exact Obeys.dropped ⟨hserve, hidle, hd⟩ (hn.trans (congrArg some hx.symm))
    · rw [hd.entries] at hp ⊢
      rw [Deed.last_entry hp]
      exact Or.inl (List.append_nil _)

theorem receive (h : Noted c l) (hs : Step E .round c c') (ht : n.takes = some p)
    (hover : ¬ Over l) (hf : n.Fits l) (hm : Minutes c'.table (l ++ [n]))
    (hset : c'.settings = c.settings) (he : c'.entries = c.entries ++ .took p :: e)
    (hvacant : c'.table = c.table ∨ c.state = .ready ∨ c.state = .draining)
    (hend : ∀ q, n = .broke q → c'.ended) (hsent : e.filterMap Entry.pduSent = n.sends.toList)
    (htook : e.filterMap Entry.pduTook = [])
    (hheard : ∀ x, e.filterMap (Entry.msgOn x) = (n.hears x).toList)
    (hmarks : e.filterMap Entry.mark = n.mark.toList)
    (hlast : e = [] → n = .passed p ∨ n = .broke p) : After E l .round c c' := by
  obtain ⟨g1, g2, g3, g4, g5⟩ := single n
  refine Or.inr ⟨n, .round ht, hover, hf, h.grow hs hm hset he ?_ hvacant ?_ ?_
    (fun x => ?_) (fun x => ?_) ?_ ?_ (fun x hx => ?_) fun q hq => Or.inr ?_⟩
  · rintro ⟨q, hq⟩
    exact hend q (List.mem_singleton.mp hq).symm
  · rw [g1, ← hsent]
    rfl
  · rw [g2, ht, List.filterMap_cons, htook]
    rfl
  · rw [g4, ← hheard]
    rfl
  · have hnone : n.tells x = none := by
      cases n with
      | told => cases ht
      | _ => rfl
    rw [g3, hnone, Option.toList_none, List.append_nil]
    exact hs.said_prefix.sublist
  · intro k hk
    rw [List.mem_singleton.mp hk]
    cases n with
    | opened | accepted => cases ht
    | _ => trivial
  · rw [g5, ← hmarks]
    rfl
  · rw [← List.mem_singleton.mp hx] at ht
    cases ht
  · rw [he, List.getLast?_append_of_ne_nil _ (List.cons_ne_nil _ _)] at hq
    cases e with
    | nil =>
      obtain rfl : p = q := by
        cases Option.some.inj hq
        rfl
      simpa [eq_comm] using hlast rfl
    | cons a e =>
      rw [List.getLast?_cons_cons] at hq
      have : q ∈ (a :: e).filterMap Entry.pduTook :=
        List.mem_filterMap.mpr ⟨_, List.mem_of_getLast? hq, rfl⟩
      rw [htook] at this
      cases this

theorem broke_fits (h : Minutes c.table l)
    (hp : p.Fatal c.table ∨ ∀ i, (c.channels i).state = .unused) : (Note.broke p).Fits l := by
  constructor
  · intro x m peer own quota hpm hst
    obtain ⟨i, hi, hid, hopen, -, hb⟩ := h.at_open hst
    obtain hp | hp := hp
    · rw [hpm] at hp
      cases m with
      | data payload =>
        refine ⟨⟨payload, rfl⟩, fun hlt => ?_⟩
        rw [← hid] at hlt ⊢
        have hw := hb.recv hlt
        obtain hover | hmax := hp i hi hopen
        · left
          change _ < _ + payload.length
          omega
        · exact Or.inr hmax
      | _ => cases hp
    · exact absurd (hp i) (hopen ▸ by rintro ⟨⟩)
  · rintro y x w q own rfl hst
    obtain ⟨i, hi, -, hopening⟩ := h.at_opening hst
    obtain hp | hp := hp
    · exact hp i hi hopening
    · exact absurd (hp i) (hopening ▸ by rintro ⟨⟩)

theorem passed_fits (h : Minutes c.table l) (hp : p.Moot c.table) (hn : p ≠ .other) :
    (Note.passed p).Fits l := by
  have hlive : ∀ {x}, (stageOf x l).live → c.table.find x ≠ none := by
    intro x hl hnone
    obtain ⟨i, hi, -⟩ := h.at_stage hl
    rw [hnone] at hi
    cases hi
  cases p with
  | channelOpen => trivial
  | channelOpenFail r =>
    intro own hst
    obtain ⟨i, hi, -, hs⟩ := h.at_opening hst
    exact hp i hi hs
  | channelWindow r add =>
    intro peer own quota hst
    obtain ⟨i, hi, -, hs, -⟩ := h.at_open hst
    exact hp i hi hs
  | channelEof r => exact fun hl => hlive hl hp
  | channelClose r => exact fun hl => hlive hl hp
  | channelOpenConfirm | channelData => cases hp
  | other => exact absurd rfl hn

theorem round (h : Noted c l) (hs : Step E .round c c') (hc : (processOne E c).state = c')
    (hb : c'.allocs < 2 ^ 32)
    (htag : ∀ k body st plain tag, parseInput E c = .ok (k, body) → c.hs = .done →
      E.ssPull c.ssPull body = some (st, plain, tag) → Dispatched tag) : After E l .round c c' := by
  subst hc
  obtain ⟨a, hd, -⟩ := processOne_deed E c
  have hidle := (StepDeed.round hd).idle
  obtain ⟨rfl, hr⟩ | ⟨plain, htakes, hena, htab, hset, hent⟩ := hd.outcome
  · left
    obtain hr | ⟨pdu, -, hr⟩ := hr
    · exact h.stay hs (hr.table ▸ h.minutes) hr.settings hr.entries (Or.inl hr.table) rfl rfl
        (fun _ => rfl) rfl
    · exact h.stay hs (hr.table ▸ h.minutes) hr.settings hr.entries (Or.inl hr.table) rfl rfl
        (fun _ => rfl) rfl
  · have hvacant :
        (processOne E c).state.table = c.table ∨ c.state = .ready ∨ c.state = .draining :=
      hidle.imp_left fun hi => by
        rw [htab, hi]
        rfl
    have hroom := room htab hb
    cases hp : Pdu.ofChannel plain with
    | none =>
      obtain rfl := Deed.takes_other (ofChannel_none hp ▸ htakes)
      rw [hp] at hent
      exact Or.inl (h.stay (e := []) hs (htab ▸ h.minutes) hset (by simpa [Deed.entries] using hent)
        hvacant rfl rfl (fun _ => rfl) rfl)
    | some p =>
      obtain ⟨hpp, hne⟩ := ofChannel_eq hp
      rw [hpp] at htakes
      have hent : (processOne E c).state.entries =
          c.entries ++ .took p :: a.entries c.terms c.table := by
        rw [hent, hp, List.append_assoc]
        rfl
      cases hn : a.note c.terms c.table with
      | some n =>
        have hover := h.not_over (hidle.resolve_left (by rintro rfl; cases hn))
        obtain ⟨hf, hm⟩ := h.minutes.deed hover hena hroom
          (by rintro i rfl; cases htakes) hn
        obtain ⟨h1, h2, h3⟩ := a.note_entries c.terms c.table hn
        refine h.receive hs (Deed.note_takes htakes hn) hover hf (htab ▸ hm) hset hent hvacant ?_
          h1 h2
          h3 ?_ ?_
        · rintro q rfl
          exact absurd hn Deed.note_ne_broke
        · exact Deed.note_marks hn
        · intro hnil
          cases a with
          | close => cases htakes
          | idle | lost => cases hn
          | _ => cases hnil
      | none =>
        cases a with
        | refused peer =>
          obtain ⟨w, q, name, rfl⟩ := htakes
          have hover := h.not_over (hidle.resolve_left (by rintro ⟨⟩))
          exact h.receive (n := .refused peer w q name) hs rfl hover trivial
            (htab ▸ h.minutes.aside hover trivial rfl) hset hent hvacant (by rintro q ⟨⟩) rfl rfl
            (fun _ => rfl) rfl (by rintro ⟨⟩)
        | idle =>
          have hlive : ¬ c.ended := by
            intro he
            obtain ⟨-, hst⟩ | ⟨h1, h2, -⟩ | ⟨_, _, _, h1, h2, -⟩ := processOne_cases E c
            · rw [hst] at hent
              exact absurd (List.self_eq_append_right.mp hent) (by simp)
            all_goals exact (not_or.mpr ⟨h1, h2⟩) he
          have hover : ¬ Over l := fun ho => hlive (h.finished ho)
          obtain hmoot | ⟨hend, hfatal⟩ := processOne_excused htag hent
          · have hf := passed_fits h.minutes hmoot hne
            exact h.receive hs rfl hover hf (htab ▸ h.minutes.aside hover hf rfl) hset hent hvacant
              (by rintro q ⟨⟩) rfl rfl (fun _ => rfl) rfl fun _ => Or.inl rfl
          · have hf : (Note.broke p).Fits l := by
              refine broke_fits h.minutes (hfatal.imp_right fun hst i => ?_)
              by_contra hu
              have hrank := h.vacant i hu
              cases hs : c.state <;> simp [hs, State.rank, Ctx.ended] at hrank hst hlive
            exact h.receive hs rfl hover hf (htab ▸ h.minutes.aside hover hf rfl) hset hent hvacant
              (fun _ _ => hend) rfl rfl (fun _ => rfl) rfl fun _ => Or.inr rfl
        | lost => cases htakes
        | _ => cases hn

end Noted

end Sodchan
