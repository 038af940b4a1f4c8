import Sodchan.Lib.Coding
import Sodchan.Model.History
import Sodchan.Session.Uniform

/-! # The flow of records

What an endpoint does once the key exchange is complete changes its record
layer only by pushing records. Whatever it queues for output is appended to
what is still to be fetched.
-/

namespace Sodchan

open ByteString

variable {Rng SS : Type} {E : Env Rng SS} {c c' c'' : Ctx Rng SS}

/-- The errors of the record layer that were raised so far. -/
def Ctx.alarms (c : Ctx Rng SS) : List Event := c.emitted.filter Event.isRecordError

/-- What the record layer leaves in the history. -/
@[ext]
structure Trace where
  appended : List Bytes
  sent : List Bytes
  frames : List Bytes
  records : List (Bytes × Bytes × UInt8)
  alarms : List Event

def Ctx.trace (c : Ctx Rng SS) : Trace := ⟨c.appended, c.sent, c.frames, c.records, c.alarms⟩

def Occ.isTraced : Occ → Bool
  | .appended _ | .sent _ | .frame _ | .pulled .. => true
  | .queued ev | .dropped ev => ev.isRecordError
  | _ => false

theorem filterMap_untraced {α : Type} {f : Occ → Option α} {l : List Occ}
    (hl : ∀ o ∈ l, o.isTraced = false) (hf : ∀ o, o.isTraced = false → f o = none) :
    l.filterMap f = [] :=
  List.filterMap_eq_nil_iff.mpr fun o ho => hf o (hl o ho)

theorem trace_append {l : List Occ} (hh : c'.hist = c.hist ++ l)
    (hl : ∀ o ∈ l, o.isTraced = false) : c'.trace = c.trace := by
  have hnone : ∀ {α : Type} {f : Occ → Option α}, (∀ o, o.isTraced = false → f o = none) →
      c'.hist.filterMap f = c.hist.filterMap f := by
    intro α f hf
    rw [hh, List.filterMap_append, filterMap_untraced hl hf, List.append_nil]
  have halarm : c'.alarms = c.alarms := by
    have h : (l.filterMap Occ.emitted?).filter Event.isRecordError = [] := by
      rw [List.filter_eq_nil_iff]
      intro ev hev
      obtain ⟨o, ho, he⟩ := List.mem_filterMap.mp hev
      have hev : ev.isRecordError = false := by
        have := hl o ho
        cases o <;> cases he <;> exact this
      rw [hev]
      rintro ⟨⟩
    rw [Ctx.alarms, Ctx.emitted, hh, List.filterMap_append, List.filter_append, h, List.append_nil]
    rfl
  refine Trace.ext (hnone ?_) (hnone ?_) (hnone ?_) (hnone ?_) halarm <;>
    · rintro (_ | _ | _ | _ | _ | _ | _ | _ | _ | _ | _ | _ | _) ho <;> first | rfl | cases ho

/-- The state of the key exchange and of the record layer. -/
structure Seat (SS : Type) where
  settings : Settings
  hs : Hs
  serverIdPk : Key
  haveServerIdPk : Bool
  ephPk : Key
  ephSk : Key
  peerEphPk : Key
  tHello : BytesN tHelloLen
  haveTHello : Bool
  ssKeyC2s : Key
  ssKeyS2c : Key
  ssPush : SS
  ssPushReady : Bool
  ssPull : SS
  ssPullReady : Bool

def Ctx.seat (c : Ctx Rng SS) : Seat SS where
  settings := c.settings
  hs := c.hs
  serverIdPk := c.serverIdPk
  haveServerIdPk := c.haveServerIdPk
  ephPk := c.ephPk
  ephSk := c.ephSk
  peerEphPk := c.peerEphPk
  tHello := c.tHello
  haveTHello := c.haveTHello
  ssKeyC2s := c.ssKeyC2s
  ssKeyS2c := c.ssKeyS2c
  ssPush := c.ssPush
  ssPushReady := c.ssPushReady
  ssPull := c.ssPull
  ssPullReady := c.ssPullReady

/-- The record layer stays as it is, and a session that is over stays over. -/
structure Still (c c' : Ctx Rng SS) : Prop where
  seat : c'.seat = c.seat
  trace : c'.trace = c.trace
  ended : c.ended → c'.ended

namespace Still

theorem trans (h : Still c c') (h' : Still c' c'') : Still c c'' :=
  ⟨h'.seat.trans h.seat, h'.trace.trans h.trace, h'.ended ∘ h.ended⟩

theorem same (hs : c'.seat = c.seat) (hh : c'.hist = c.hist) (he : c.ended → c'.ended) :
    Still c c' :=
  ⟨hs, trace_append (l := []) (by rw [hh, List.append_nil]) (by simp), he⟩

theorem logged {o : Occ} (hs : c'.seat = c.seat) (hh : c'.hist = c.hist ++ [o])
    (ho : o.isTraced = false) (he : c.ended → c'.ended) : Still c c' :=
  ⟨hs, trace_append hh (by simpa using ho), he⟩

theorem log {o : Occ} (ho : o.isTraced = false) : Still c (c.log o) := logged rfl rfl ho id

theorem emit {ev : Event} (h : ev.isRecordError = false) : Still c (emit c ev) := by
  refine logged ?_ (congrArg Ctx.hist (emit_eq c ev)) ?_ fun he => ?_
  · rw [emit_eq]
    rfl
  · rcases emitOcc_cases c ev with ho | ho <;> rw [ho] <;> exact h
  · rwa [Ctx.ended, emit_state]

theorem error {code : Rc} {msg : String} (hm : msg ∉ recordErrors) :
    Still c (setError c code msg) := by
  have hc : Still c { c with
      error := if code = .ok then .protocol else code, state := .error, errorMsg := msg } :=
    same rfl rfl fun _ => Or.inl rfl
  exact hc.trans (emit (by simpa [Event.isRecordError] using hm))

theorem compacted : Still c c.compacted := same rfl rfl id

end Still

/-- One record is pushed. -/
inductive Pushes (E : Env Rng SS) (c : Ctx Rng SS) : Ctx Rng SS → Prop where
  | push {plain : Bytes} {st : SS} {ct : Bytes} : ¬ c.ended → plain.length ≤ plainBufSize →
      SendRoom E c plain → E.ssPush c.ssPush plain tagMessage = some (st, ct) →
      Pushes E c (c.pushed plain st ct)

/-- The record layer is left alone but for records that are pushed. -/
def Flow (E : Env Rng SS) : Ctx Rng SS → Ctx Rng SS → Prop :=
  Relation.ReflTransGen fun c c' => Still c c' ∨ Pushes E c c'

namespace Flow

theorem still (h : Still c c') : Flow E c c' := .single (Or.inl h)

theorem trans (h : Flow E c c') (h' : Flow E c' c'') : Flow E c c'' :=
  Relation.ReflTransGen.trans h h'

theorem error {code : Rc} {msg : String} (h : Flow E c c') (hm : msg ∉ recordErrors) :
    Flow E c (setError c' code msg) := h.trans (still (.error hm))

theorem moves {p : Powers} (hp : ¬ p.record) (h : Moves E p c c') : Flow E c c' := by
  induction h with
  | refl => exact .refl
  | @tail a b _ hm ih =>
    refine ih.trans ?_
    cases hm with
    | emit ev _ _ he => exact still (.emit (by simpa using mt he hp))
    | push he hc hl hroom hpush =>
      exact .single (Or.inr (.push (fun h => h.elim he hc) hl hroom hpush))
    | fail st code msg hst => exact still (.same rfl rfl fun _ => hst)
    | pop => exact still (.logged rfl rfl rfl id)
    | log o ho =>
      exact still (.log (by cases o <;> first | rfl | cases ho))
    | _ => exact still (.same rfl rfl id)

theorem preserves {P : Ctx Rng SS → Prop} (h : Flow E c c') (hc : P c)
    (hstill : ∀ a b, P a → Still a b → P b) (hpush : ∀ a b, P a → Pushes E a b → P b) : P c' := by
  induction h with
  | refl => exact hc
  | tail _ h ih => exact h.elim (hstill _ _ ih) (hpush _ _ ih)

end Flow

theorem handlePlain_flow (hl : ¬ c.ended) (plain : Bytes) (tag : UInt8) :
    Flow E c (handlePlain E c plain tag).1 := by
  obtain ⟨he, hc⟩ := not_or.mp hl
  rcases handlePlain_cases (E := E) he hc plain tag with ⟨-, h | h⟩ | h
  · rw [h]
    have heff := handleAuthDevicePdu_effect E c plain
    generalize handleAuthDevicePdu E c plain = r at heff ⊢
    cases heff with
    | refused code msg hm => exact .still (.error hm)
    | forged msg msg' _ _ hm =>
      have hbad : Flow E c (c.log .authBadSig) := .still (.log rfl)
      have hsend : Flow E (c.log .authBadSig) (serverSendAuthFail E (c.log .authBadSig)).1 :=
        .moves (p := ⟨False, False⟩) id (serverSendAuthFail_moves he hc)
      exact ((hbad.trans hsend).trans (.still (.emit rfl))).error hm
    | accepted d user device =>
      have hpeer : Still c { c with peerIdPk := d.clientIdPk, havePeerId := true } :=
        .same rfl rfl id
      have hlog : Still c (takeAuthDevice E c d user device) :=
        hpeer.trans ((Still.emit rfl).trans ((Still.log rfl).trans (.same rfl rfl id)))
      exact .still hlog
  · rw [h]
    have heff := handleAuthOkPdu_effect c plain
    generalize handleAuthOkPdu c plain = r at heff ⊢
    cases heff with
    | refused msg hm => exact .still (.error hm)
    | accepted =>
      have hready : Still c { c with authComplete := true, state := .ready } :=
        .same rfl rfl fun h => absurd h hl
      exact .still (hready.trans (.emit rfl))
  · exact .moves (p := ⟨True, False⟩) id (h _ fun _ => trivial)

theorem record_flow {k : Call} {r : Ctx Rng SS × Rc} (h : Flow E c r.1) :
    Flow E c (record k r).1 := by
  unfold record
  split
  · exact h.trans (.still (.log rfl))
  · exact h

theorem call_flow {k : Call} (hk : k.isPlain) (c : Ctx Rng SS) : Flow E c (call E c k).1 := by
  obtain ⟨n, rfl⟩ | ⟨accept, claims, -, he⟩ | ⟨reason, msg, rfl⟩ | hm := call_cases (E := E) hk c
  · obtain ⟨b, o, h⟩ := getOutput_eq c n
    simp only [call, h]
    exact .still (.same rfl rfl id)
  · rw [he]
    refine record_flow ?_
    have htake : Still c (takeDecision c accept) := (Still.log rfl).trans (.same rfl rfl id)
    generalize hr : authDecideEx E c accept claims = r
    have heff := authDecideEx_effect E c accept claims
    rw [hr] at heff
    cases heff with
    | refused => exact .refl
    | unsent c' msg _ hs hm =>
      exact ((Flow.still htake).trans (.moves (p := ⟨False, False⟩) id (hs _))).error hm
    | accepted c' _ _ hs hst =>
      have hready : Still c' { c' with authComplete := true, state := .ready } :=
        .same rfl rfl fun h => absurd hst (by rcases h with h | h <;> rw [h] <;> rintro ⟨⟩)
      exact ((Flow.still htake).trans (.moves (p := ⟨False, False⟩) id (hs _))).trans
        (.still (hready.trans (.emit rfl)))
    | rejected c' msg msg' _ _ hs hm =>
      exact (((Flow.still htake).trans (.moves (p := ⟨False, False⟩) id (hs _))).trans
        (.still (.emit rfl))).error hm
  · refine record_flow ?_
    obtain h | h | ⟨d, -, hst, hm, hd, h⟩ := disconnect_cases E c reason msg <;> rw [h]
    · exact .refl
    · exact .still (.same rfl rfl fun _ => Or.inr rfl)
    · have hdrain : Still d { d with state := .draining } := by
        refine .same rfl rfl fun he => absurd he ?_
        rw [Ctx.ended, hd]
        rcases hst with h | h | h <;> simp [h]
      exact (Flow.moves (p := ⟨False, False⟩) id (hm _)).trans (.still hdrain)
  · exact .moves id hm

/-- What stays as it is unless input is taken or a session starts. -/
structure Basis where
  inBuf : Bytes
  frames : List Bytes
  settings : Settings
  ephPk : Key
  ephSk : Key

def Ctx.basis (c : Ctx Rng SS) : Basis := ⟨c.inBuf, c.frames, c.settings, c.ephPk, c.ephSk⟩

/-- What is queued for output comes after what is still to be fetched; no input is touched. -/
structure Utters (c c' : Ctx Rng SS) : Prop where
  output : ∃ l, c'.appended = c.appended ++ l ∧ c'.pending = c.pending ++ l.flatten
  basis : c'.basis = c.basis

namespace Utters

theorem nothing (ha : c'.appended = c.appended) (hp : c'.pending = c.pending)
    (hr : c'.basis = c.basis) : Utters c c' :=
  ⟨⟨[], by rw [ha, List.append_nil], by rw [hp, List.flatten_nil, List.append_nil]⟩, hr⟩

theorem trans (h : Utters c c') (h' : Utters c' c'') : Utters c c'' := by
  obtain ⟨⟨l, ha, hp⟩, hi⟩ := h
  obtain ⟨⟨m, ha', hp'⟩, hi'⟩ := h'
  refine ⟨⟨l ++ m, ?_, ?_⟩, hi'.trans hi⟩
  · rw [ha', ha, List.append_assoc]
  · rw [hp', hp, List.flatten_append, List.append_assoc]

theorem logged {l : List Occ} (hh : c'.hist = c.hist ++ l)
    (hl : ∀ o ∈ l, o.appended? = none ∧ o.frame? = none) (hp : c'.pending = c.pending)
    (hi : c'.inBuf = c.inBuf) (hs : c'.settings = c.settings) (he : c'.ephPk = c.ephPk)
    (hk : c'.ephSk = c.ephSk) : Utters c c' := by
  have hnone : ∀ f : Occ → Option Bytes, (∀ o ∈ l, f o = none) →
      c'.hist.filterMap f = c.hist.filterMap f := by
    intro f hf
    rw [hh, List.filterMap_append, List.filterMap_eq_nil_iff.mpr hf, List.append_nil]
  refine nothing (hnone _ fun o ho => (hl o ho).1) hp ?_
  rw [Ctx.basis, hi, hs, he, hk]
  exact congrArg (fun f => (⟨c.inBuf, f, c.settings, c.ephPk, c.ephSk⟩ : Basis))
    (hnone _ fun o ho => (hl o ho).2)

theorem frame {p : Bytes} (hh : c'.hist = c.hist ++ [.appended p])
    (hp : c'.pending = c.pending ++ p)
    (hi : c'.inBuf = c.inBuf) (hs : c'.settings = c.settings) (he : c'.ephPk = c.ephPk)
    (hk : c'.ephSk = c.ephSk) : Utters c c' := by
  refine ⟨⟨[p], ?_, by rw [hp, List.flatten_singleton]⟩, ?_⟩
  · rw [Ctx.appended, hh, List.filterMap_append]
    rfl
  · rw [Ctx.basis, Ctx.frames, hh, List.filterMap_append, hi, hs, he, hk]
    exact congrArg (fun f => (⟨c.inBuf, f, c.settings, c.ephPk, c.ephSk⟩ : Basis))
      (List.append_nil _)

theorem emit (c : Ctx Rng SS) (ev : Event) : Utters c (emit c ev) := by
  rw [emit_eq]
  refine logged (l := [emitOcc c ev]) rfl ?_ rfl rfl rfl rfl rfl
  intro o ho
  rw [List.mem_singleton.mp ho]
  rcases emitOcc_cases c ev with h | h <;> rw [h] <;> exact ⟨rfl, rfl⟩

theorem append (c : Ctx Rng SS) (p : Bytes) : Utters c (outAppend c p).1 := by
  rw [outAppend_eq]
  split
  · exact nothing rfl rfl rfl
  · exact frame rfl rfl rfl rfl rfl rfl

theorem send (c : Ctx Rng SS) (pdu : Bytes) : Utters c (ssSendPdu E c pdu).1 := by
  obtain ⟨st, ct, -, -, he⟩ | ⟨b, o, rc, -, hb, -, he⟩ := ssSendPdu_cases E c pdu <;> rw [he]
  · have hlog : Utters c (c.log (.sent pdu)) :=
      logged (l := [.sent pdu]) rfl (by simp [Occ.appended?, Occ.frame?]) rfl rfl rfl rfl rfl
    refine hlog.trans (frame (p := rawFrame ct) ?_ rfl rfl rfl rfl rfl)
    exact (List.append_assoc c.hist [.sent pdu] [.appended (rawFrame ct)]).symm
  · obtain ⟨rfl, rfl⟩ | ⟨rfl, rfl⟩ := hb <;> exact nothing rfl rfl rfl

theorem upheld : Upheld E False (@Utters Rng SS) where
  trans := trans
  same h := by
    refine nothing (congrArg (fun o : Outline => o.hist.filterMap Occ.appended?) h)
      (congrArg (fun o : Outline => o.outBuf.drop o.outOff) h) ?_
    exact congrArg (fun o : Outline => (⟨o.inBuf, o.hist.filterMap Occ.frame?, o.settings, o.ephPk,
      o.ephSk⟩ : Basis)) h
  log c o ho := by
    refine logged (l := [o]) rfl ?_ rfl rfl rfl rfl rfl
    intro o' ho'
    rw [List.mem_singleton.mp ho']
    cases o <;> first | exact ⟨rfl, rfl⟩ | cases ho
  emit := emit
  error c code msg _ := by
    have hc : Utters c { c with
        error := if code = .ok then .protocol else code, state := .error, errorMsg := msg } :=
      nothing rfl rfl rfl
    exact hc.trans (emit _ _)
  frame c body := by
    unfold outAppendFrame
    split
    · exact nothing rfl rfl rfl
    · exact append c _
  send := send
  pull c st ct plain tag _ _ :=
    logged (l := [.pulled ct plain tag]) rfl (by simp [Occ.appended?, Occ.frame?]) rfl rfl rfl rfl
      rfl

end Utters

end Sodchan
