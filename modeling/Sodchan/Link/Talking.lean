import Sodchan.Channel.Concord
import Sodchan.Link.Noted

/-! # Two endpoints that talk

Two honest endpoints on a link, each with its diary. What the one notes as
taken the other has noted as sent, in the same order, so the two diaries are a
dialogue whatever the hosts do and however the bytes are cut on their way.
-/

namespace Sodchan

open ByteString

variable {Rng SS : Type} {E : Env Rng SS} {c c' d : Ctx Rng SS} {N N' : Net Rng SS} {r : Role}
  {a b : List Note} {n : Note} {l : Role → List Note} {G : List Note → List Note → Note → Prop}
  {guard : Net Rng SS → Act → Prop}

theorem Step.allocs_le {lab : Label} (h : Step E lab c c') : c.allocs ≤ c'.allocs := by
  obtain ⟨a, ha⟩ := h.deed
  obtain ⟨-, -, -, ht, -, -⟩ := ha.deals
  have hn := congrArg Table.allocs ht
  rw [Numbered.apply_allocs] at hn
  change c'.allocs = c.allocs + _ at hn
  omega

theorem Steps.allocs_le (h : Steps E c c') : c.allocs ≤ c'.allocs := by
  induction h with
  | refl => exact le_rfl
  | tail _ h ih =>
    obtain ⟨lab, h⟩ := h
    exact ih.trans h.allocs_le

theorem processOne_allocs_le (E : Env Rng SS) (c : Ctx Rng SS) :
    c.allocs ≤ (processOne E c).state.allocs := by
  cases h : processOne E c with
  | again d => exact (Step.again h).allocs_le
  | stop d => exact (Step.stop h).allocs_le

/-- Every record of an endpoint in tune is dispatched. -/
theorem Tuned.dispatched (hE : Ideal E) (ht : Tuned E d c) {w : Bytes} (hl : Lined d c w)
    (hc : ¬ c.ended) {k : ℕ} {body plain : Bytes} {st : SS} {tag : UInt8}
    (hok : parseInput E c = .ok (k, body)) (hdone : c.hs = .done)
    (hpull : E.ssPull c.ssPull body = some (st, plain, tag)) : Dispatched tag := by
  obtain ⟨st', plain', hrec, -⟩ := (ht.parsed hE hc (hl.lane hc) hok).1.record hdone
  cases hpull.symm.trans hrec
  exact ⟨by decide, by decide⟩

/-- Two endpoints in tune, and the dialogue of their diaries. -/
structure Talking (E : Env Rng SS) (G : List Note → List Note → Note → Prop) (N : Net Rng SS)
    (l : Role → List Note) : Prop where
  linked : Linked E N
  noted : ∀ r, Noted (N.ends r) (l r)
  talk : ∀ r, Talk G (l r) (l r.peer)

/-- What the guard admits keeps to the manner of the dialogue. -/
structure Manner (E : Env Rng SS) (guard : Net Rng SS → Act → Prop)
    (G : List Note → List Note → Note → Prop) : Prop where
  call : ∀ {N r k a b n}, guard N (.host r k) → Noted (N.ends r) a → Noted (N.ends r.peer) b →
    n.Fits a → n.Due E (N.ends r) (.call k) → G a b n
  round : ∀ {a b n p}, Note.takes n = some p → G a b n

/-- Nothing is asked of the hosts. -/
theorem Manner.any : Manner E guard fun _ _ _ => True where
  call _ _ _ _ _ := trivial
  round _ := trivial

namespace Talking

theorem replace (h : Talking E G N l) (hl : Linked E N')
    (hends : N'.ends = Function.update N.ends r c)
    (hn : Noted c a) (ht : Talk G a (l r.peer)) : Talking E G N' (Function.update l r a) := by
  have hpeer : r.peer ≠ r := by cases r <;> rintro ⟨⟩
  have hroles : ∀ {P : Role → Prop}, P r → P r.peer → ∀ r', P r' := by
    intro P h1 h2 r'
    cases r <;> cases r' <;> first | exact h1 | exact h2
  refine ⟨hl, hroles ?_ ?_, hroles ?_ ?_⟩
  · rw [hends, Function.update_self, Function.update_self]
    exact hn
  · rw [hends, Function.update_of_ne hpeer, Function.update_of_ne hpeer]
    exact h.noted r.peer
  · rw [Function.update_self, Function.update_of_ne hpeer]
    exact ht
  · rw [Role.peer_peer, Function.update_self, Function.update_of_ne hpeer]
    exact ht.symm

theorem host (hE : Ideal E) (hM : Manner E guard G) (h : Talking E G N l) {k : Call}
    (hk : k.isPlain) (hg : guard N (.host r k)) (hb : (call E (N.ends r) k).1.allocs < 2 ^ 32) :
    ∃ l', Talking E G (N.step E (.host r k)) l' := by
  have hl := h.linked.host hE r hk
  obtain hn | ⟨n, hdue, hover, hfits, hn⟩ := (h.noted r).call hk hb
  · exact ⟨_, h.replace hl rfl hn (h.talk r)⟩
  · refine ⟨_, h.replace hl rfl hn ((h.talk r).left ⟨hover, hfits, fun pdu hp => ?_⟩
      (hM.call hg (h.noted r) (h.noted r.peer) hfits hdue))⟩
    cases hdue with
    | call hobeys hnote =>
      rw [Deed.note_serves hobeys.1 hnote] at hp
      cases hp

/-- What is noted as taken was noted as sent. -/
theorem fifo {w : Bytes} (hn : Noted c a) (hp : Noted d b) (hl : Lined d c w) :
    takenBy a <+: sentBy b := by
  rw [← hn.taken, ← hp.sent, ← tookPdus_eq, ← sentPdus_eq]
  exact hl.received.filterMap _

theorem round (hE : Ideal E) (hM : Manner E guard G) {w : Bytes} (ht : Tuned E d c)
    (hl : Lined d c w) (hp : Noted d b) (hn : Noted c a) (htalk : Talk G a b)
    (hb : (processOne E c).state.allocs < 2 ^ 32) :
    ∃ a', Noted (processOne E c).state a' ∧ Talk G a' b := by
  by_cases hc : c.ended
  · obtain ⟨-, hs⟩ | ⟨h1, h2, -⟩ | ⟨_, _, _, h1, h2, -⟩ := processOne_cases E c
    · rw [hs]
      exact ⟨a, hn, htalk⟩
    · exact absurd hc (not_or.mpr ⟨h1, h2⟩)
    · exact absurd hc (not_or.mpr ⟨h1, h2⟩)
  · have hstep : Step E .round c (processOne E c).state := by
      cases h : processOne E c with
      | again d => exact .again h
      | stop d => exact .stop h
    have hlined := (ht.round hE hl).lined
    obtain hn' | ⟨n, hdue, hover, hfits, hn'⟩ := hn.round hstep rfl hb
      fun k body st plain tag hok hdone hpull => ht.dispatched hE hl hc hok hdone hpull
    · exact ⟨a, hn', htalk⟩
    · cases hdue with
      | round htakes =>
        refine ⟨_, hn', htalk.left ⟨hover, hfits, fun pdu hpdu => ?_⟩ (hM.round htakes)⟩
        have := fifo hn' hp hlined
        rwa [takenBy_snoc, hpdu] at this

theorem deliver (hE : Ideal E) (hM : Manner E guard G) (h : Talking E G N l) {m : ℕ}
    (hb : ((N.step E (.deliver r m)).ends r).allocs < 2 ^ 32) :
    ∃ l', Talking E G (N.step E (.deliver r m)) l' := by
  have hl := h.linked.deliver hE r m
  have hends : (N.step E (.deliver r m)).ends = Function.update N.ends r
      (feedInput E (N.ends r) ((N.wire r.peer).take m)).1 := rfl
  rw [hends, Function.update_self] at hb
  have hkept : (N.step E (.deliver r m)).ends r = (feedInput E (N.ends r) _).1 :=
    Function.update_self _ _ _
  have hd := h.linked.rounds hE (r := r) (n := m) (K := fun _ => True)
    (P := fun d => d.allocs < 2 ^ 32 → ∃ a, Noted d a ∧ Talk G a (l r.peer))
    (fun d w ht hin _ hd hlt => by
      obtain ⟨a, hn, htalk⟩ := hd ((processOne_allocs_le E d).trans_lt hlt)
      exact round hE hM ht hin (h.noted r.peer) hn htalk hlt)
    (fun _ _ _ _ => trivial) (fun _ => ⟨_, h.noted r, h.talk r⟩) fun _ => ⟨_, ?_, h.talk r⟩
  · rw [hkept] at hd
    obtain ⟨a, hn, htalk⟩ := hd hb
    exact ⟨_, h.replace hl hends hn htalk⟩
  · have hn := h.noted r
    exact ⟨hn.minutes, hn.lifecycle.congr rfl rfl rfl rfl rfl rfl rfl rfl, hn.finished, hn.vacant,
      hn.sent, hn.taken, hn.heard, hn.said, hn.offers, hn.marks, hn.dropped, hn.last⟩

theorem created (h : N.Created E) : Talking E G N fun _ => [] := by
  refine ⟨.created h, fun r => ?_, fun _ => .nil⟩
  obtain ⟨cfg, rng, memOk, hc⟩ := h.ends r
  obtain ⟨ht, he, -⟩ := create_table hc
  have hlife : Lifecycle (N.ends r) := by
    obtain ⟨pk, sk, rng', -, hs⟩ := create_eq_some hc
    rw [hs]
    exact .started rfl rfl
  have hslot : ∀ i, ((N.ends r).channels i).state = .unused := fun i => by
    rw [show (N.ends r).channels = Table.slot .empty from congrArg Table.slot ht]
    rfl
  refine ⟨ht ▸ .empty, hlife, ?_, fun i hi => absurd (hslot i) hi, ?_, ?_, fun x => ?_,
    fun x => List.nil_sublist _, ?_, ?_, ?_, fun p hp => ?_⟩
  · rintro ⟨p, ⟨⟩⟩
  · rw [he]
    rfl
  · rw [he]
    rfl
  · rw [he]
    rfl
  · rintro n ⟨⟩
  · rw [he]
    rfl
  · rintro x ⟨⟩
  · rw [he] at hp
    cases hp

theorem run (hE : Ideal E) (hM : Manner E guard G) (h : N.Created E)
    (hrun : Net.Run E guard N N') (hb : ∀ r, (N'.ends r).allocs < 2 ^ 32) :
    ∃ l, Talking E G N' l := by
  induction hrun with
  | nil => exact ⟨_, created h⟩
  | @snoc N' a _ ha hg ih =>
    obtain ⟨l, hl⟩ := ih fun r => (Net.step_ends N' ha r).allocs_le.trans_lt (hb r)
    cases a with
    | host r k =>
      refine hl.host hE hM ha hg ?_
      have := hb r
      rwa [show (N'.step E (.host r k)).ends r = (Sodchan.call E (N'.ends r) k).1 from
        Function.update_self _ _ _] at this
    | deliver r m => exact hl.deliver hE hM (hb r)

end Talking

end Sodchan
