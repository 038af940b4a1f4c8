import Mathlib.Data.List.GetD
import Sodchan.Link.Delivery
import Sodchan.Model.Plain
import Sodchan.Session.Auth

/-! # Two endpoints in tune

Whatever the hosts do, and however the bytes are cut on their way, both
endpoints stay in tune: each receives what the other has sent, record by record,
and raises no error of the record layer.
-/

namespace Sodchan

open ByteString Framing

variable {Rng SS : Type} {E : Env Rng SS} {c d : Ctx Rng SS} {N N' : Net Rng SS}

/-- What a call queues comes last, and what it hands out was at the front. -/
theorem call_output {k : Call} (hk : k.isPlain) (c : Ctx Rng SS) :
    (call E c k).1.basis = c.basis ∧ ∃ l, (call E c k).1.appended = c.appended ++ l ∧
      (call E c k).2.output ++ (call E c k).1.pending = c.pending ++ l.flatten := by
  by_cases hout : ∃ n, k = .getOutput n
  · obtain ⟨n, rfl⟩ := hout
    have hpend := getOutput_pending c n
    obtain ⟨b, o, h⟩ := getOutput_eq c n
    refine ⟨?_, [], ?_, ?_⟩
    · change (getOutput c n).1.basis = _
      rw [h]
      rfl
    · change (getOutput c n).1.appended = _
      rw [h, List.append_nil]
      rfl
    · rw [List.flatten_nil, List.append_nil, hpend]
      rfl
  · have hu := Utters.upheld.call (E := E) (c := c) hk fun n hn => absurd ⟨n, hn⟩ hout
    obtain ⟨l, ha, hp⟩ := hu.output
    refine ⟨hu.basis, l, ha, ?_⟩
    have hnone : (call E c k).2.output = [] := by
      cases k <;> first | rfl | exact absurd ⟨_, rfl⟩ hout
    rw [hnone]
    exact hp

/-- An endpoint takes at most what it is offered, and processes what it takes. -/
theorem feedInput_taken (E : Env Rng SS) (c : Ctx Rng SS) (data : Bytes) :
    feedInput E c data = (c, 0) ∨ ∃ n, n ≤ data.length ∧ ¬ c.ended ∧
      feedInput E c data = (processInput E (c.feed (data.take n)), n) := by
  unfold feedInput
  split
  · exact Or.inl rfl
  · split
    · exact Or.inl rfl
    · rename_i hst
      dsimp only
      split
      · exact Or.inl rfl
      · exact Or.inr ⟨_, min_le_left _ _, hst, rfl⟩

/-- Both endpoints are in tune, and what is neither fetched nor taken is on its way. -/
structure Linked (E : Env Rng SS) (N : Net Rng SS) : Prop where
  tuned : ∀ r, Tuned E (N.ends r.peer) (N.ends r)
  settled : ∀ r, Settled E (N.ends r)
  lined : ∀ r, Lined (N.ends r.peer) (N.ends r) (N.wire r.peer ++ (N.ends r.peer).pending)

namespace Linked

theorem replace (h : Linked E N) {r : Role} (ht : Tuned E (N.ends r.peer) c) (hs : Settled E c)
    (hends : N'.ends = Function.update N.ends r c)
    (hin : Lined (N.ends r.peer) c (N'.wire r.peer ++ (N.ends r.peer).pending))
    (hout : Lined c (N.ends r.peer) (N'.wire r ++ c.pending)) : Linked E N' := by
  have hown : N'.ends r = c := by rw [hends, Function.update_self]
  have hpeer : N'.ends r.peer = N.ends r.peer := by
    rw [hends, Function.update_of_ne (by cases r <;> rintro ⟨⟩)]
  have hroles : ∀ {P : Role → Prop}, P r → P r.peer → ∀ r', P r' := by
    intro P h1 h2 r'
    cases r <;> cases r' <;> first | exact h1 | exact h2
  refine ⟨hroles ?_ ?_, hroles ?_ ?_, hroles ?_ ?_⟩
  · rw [hown, hpeer]
    exact ht
  · rw [Role.peer_peer, hown, hpeer]
    exact ht.symm
  · rw [hown]
    exact hs
  · rw [hpeer]
    exact h.settled r.peer
  · rw [hown, hpeer]
    exact hin
  · rw [Role.peer_peer, hown, hpeer]
    exact hout

theorem more {c' : Ctx Rng SS} {w w' : Bytes} (h : Lined c d w) (ho : ∃ l, c'.appended =
    c.appended ++ l ∧ w' = w ++ l.flatten) (hs : c.sent <+: c'.sent) : Lined c' d w' := by
  obtain ⟨l, ha, rfl⟩ := ho
  refine ⟨fun hl => ?_, h.received.trans hs⟩
  rw [ha, ← List.append_assoc]
  exact (h.lane hl).send l

theorem host (hE : Ideal E) (h : Linked E N) (r : Role) {k : Call} (hk : k.isPlain) :
    Linked E (N.step E (.host r k)) := by
  have ht := h.tuned r
  obtain ⟨hbasis, l, ha, hp⟩ := call_output (E := E) hk (N.ends r)
  have hidle := Idle.call (E := E) (c := N.ends r) hk
  have hflow := call_flow (E := E) hk (N.ends r)
  have hhist := (call_hist (E := E) (k := k) (by rintro rfl; cases hk) (N.ends r)).2
  have hframes := congrArg Basis.frames hbasis
  refine h.replace (r := r) (c := (call E (N.ends r) k).1) ?_ (hidle.settled (h.settled r)) rfl
    ⟨fun hl => ?_, ?_⟩ ?_
  · refine ht.goes ⟨l, ha⟩ (congrArg Basis.settings hbasis) (congrArg Basis.ephPk hbasis)
      (congrArg Basis.ephSk hbasis) (ht.heard.flow hE.lengths hflow) ?_ fun he => ?_
    · rw [show (call E (N.ends r) k).1.frames = _ from hframes]
      exact ht.taken
    · rw [hflow.alarms]
      exact (ht.calm he).2
  · rw [show (call E (N.ends r) k).1.frames = _ from hframes, hidle.inBuf]
    rw [show (N.step E (.host r k)).wire r.peer = N.wire r.peer from
      Function.update_of_ne (by cases r <;> rintro ⟨⟩) _ _]
    exact (h.lined r).lane fun he => hl (hidle.ended he)
  · rw [Ctx.received, hflow.records]
    exact (h.lined r).received
  · have hback := h.lined r.peer
    rw [Role.peer_peer] at hback
    refine more hback ⟨l, ha, ?_⟩ (hhist.filterMap _)
    rw [show (N.step E (.host r k)).wire r = N.wire r ++ (call E (N.ends r) k).2.output from
      Function.update_self _ _ _, List.append_assoc, hp, List.append_assoc]

theorem fed (h : Linked E N) (r : Role) (m : ℕ) :
    Tuned E (N.ends r.peer) ((N.ends r).feed ((N.wire r.peer).take m)) ∧
      Lined (N.ends r.peer) ((N.ends r).feed ((N.wire r.peer).take m))
        ((N.wire r.peer).drop m ++ (N.ends r.peer).pending) := by
  have ht := h.tuned r
  refine ⟨?_, fun hl => ?_, (h.lined r).received⟩
  · exact ht.goes ⟨[], (List.append_nil _).symm⟩ rfl rfl rfl
      ⟨ht.heard.spoken, fun hl => (ht.heard.order hl).still (.same rfl rfl id)⟩ ht.taken
      fun he => (ht.calm he).2
  · have hlane := (h.lined r).lane hl
    change Lane _ (N.ends r).frames ((N.ends r).inBuf ++ (N.wire r.peer).take m ++ _)
    rw [← List.append_assoc, List.append_assoc _ _ ((N.wire r.peer).drop m),
      List.take_append_drop, List.append_assoc]
    exact hlane

theorem deliver (hE : Ideal E) (h : Linked E N) (r : Role) (n : ℕ) :
    Linked E (N.step E (.deliver r n)) := by
  have hback := h.lined r.peer
  rw [Role.peer_peer] at hback
  have hwire : (N.step E (.deliver r n)).wire r = N.wire r :=
    Function.update_of_ne (by cases r <;> rintro ⟨⟩) _ _
  have hwire' : (N.step E (.deliver r n)).wire r.peer =
      (N.wire r.peer).drop (feedInput E (N.ends r) ((N.wire r.peer).take n)).2 :=
    Function.update_self _ _ _
  have hends : (N.step E (.deliver r n)).ends = Function.update N.ends r
      (feedInput E (N.ends r) ((N.wire r.peer).take n)).1 := rfl
  have hhist := (call_hist (E := E) (k := .feedInput ((N.wire r.peer).take n)) (by rintro ⟨⟩)
    (N.ends r)).2
  change _ <+: (feedInput E (N.ends r) ((N.wire r.peer).take n)).1.hist at hhist
  obtain he | ⟨m, hm, hl, he⟩ := feedInput_taken E (N.ends r) ((N.wire r.peer).take n)
  · refine h.replace (r := r) (c := N.ends r) (h.tuned r) (h.settled r) ?_ ?_ ?_
    · rw [hends, he]
    · rw [hwire', he, List.drop_zero]
      exact h.lined r
    · rw [hwire]
      exact hback
  · have hm : min m n = m := by
      rw [List.length_take] at hm
      omega
    rw [List.take_take, hm] at he
    rw [he] at hends hwire' hhist
    obtain ⟨ht, hin⟩ := h.fed r m
    generalize hfed : (N.ends r).feed ((N.wire r.peer).take m) = b at hends hwire' hhist ht hin
    have hk := ht.processed hE hin
    refine h.replace (r := r) (c := processInput E b) hk.tuned (processInput_settled E b) hends
      ?_ ?_
    · rw [hwire']
      exact hk.lined
    · obtain ⟨l, ha, hp⟩ := hk.goesOn.output
      refine more hback ⟨l, ha.trans (by rw [← hfed]; rfl), ?_⟩ (hhist.filterMap _)
      rw [hwire, hp, ← List.append_assoc, ← hfed]
      rfl

/-- What every round in tune keeps, a delivery keeps, if its rounds meet the condition. -/
theorem rounds (hE : Ideal E) (h : Linked E N) {r : Role} {n : ℕ} {P K : Ctx Rng SS → Prop}
    (hround : ∀ d w, Tuned E (N.ends r.peer) d → Lined (N.ends r.peer) d w → K d → P d →
      P (processOne E d).state)
    (hok : RoundsMeet E K (N.ends r) (.feedInput ((N.wire r.peer).take n)))
    (hc : P (N.ends r)) (htake : P ((N.ends r).taking ((N.wire r.peer).take n))) :
    P ((N.step E (.deliver r n)).ends r) := by
  rw [show (N.step E (.deliver r n)).ends r = (feedInput E (N.ends r) ((N.wire r.peer).take n)).1
    from Function.update_self _ _ _]
  obtain he | ⟨-, he⟩ := feedInput_cases E (N.ends r) ((N.wire r.peer).take n)
  · rwa [he]
  · rw [he]
    set start := (N.ends r).taking ((N.wire r.peer).take n) with hstart
    obtain ⟨k, hk⟩ : ∃ k, start = (N.ends r).feed ((N.wire r.peer).take k) :=
      ⟨_, by rw [hstart, Ctx.taking, List.take_take]; rfl⟩
    obtain ⟨ht, hin⟩ := h.fed r k
    rw [← hk] at ht hin
    refine (Loop.run_heads (P := fun d => InTune E (N.ends r.peer)
      ((N.wire r.peer).drop k ++ (N.ends r.peer).pending) start d ∧ P d) ?_
      ⟨⟨ht, hin, .refl _⟩, htake⟩ (hok _ rfl)).2
    rintro d ⟨⟨ht, hin, hgo⟩, hd⟩ hd'
    have hr := ht.round hE hin
    exact ⟨⟨hr.tuned, hr.lined, hgo.trans hr.goesOn⟩, hround d _ ht hin hd' hd⟩

theorem step (hE : Ideal E) (h : Linked E N) {a : Act} (ha : a.honest) : Linked E (N.step E a) := by
  cases a with
  | host r k => exact h.host hE r ha
  | deliver r n => exact h.deliver hE r n

theorem run (hE : Ideal E) {guard : Net Rng SS → Act → Prop} (hrun : Net.Run E guard N N')
    (h : Linked E N) : Linked E N' := by
  induction hrun with
  | nil => exact h
  | snoc a _ ha _ ih => exact ih.step hE ha

/-- Once everything has arrived, every frame that was queued was taken. -/
theorem arrived (h : Linked E N) {r : Role} (hl : ¬ (N.ends r).ended)
    (hw : N.wire r.peer = []) (hp : (N.ends r.peer).pending = []) :
    (N.ends r.peer).appended = (N.ends r).frames := by
  have hlane := (h.lined r).lane hl
  rw [hw, hp, List.append_nil] at hlane
  obtain ⟨hall, -⟩ | ⟨v, t, hv, hin⟩ := hlane.next
  · exact hall
  · -- a whole frame is not left in the buffer
    have hmem : v ∈ (N.ends r.peer).appended :=
      hv.subset (List.mem_append_right _ (List.mem_singleton_self v))
    obtain ⟨body, rfl, -, -, hlt⟩ := (h.tuned r).said.framed v hmem
    have hwait := (h.settled r).waits hl
    unfold parseInput Wire.frameParse at hwait
    rw [← List.append_nil (N.ends r).inBuf, hin] at hwait
    split at hwait <;> exact absurd hwait (Wire.frameParseMax_rawFrame_ne_full hlt t _)

/-- Then all that was sent was received. -/
theorem complete (hE : Ideal E) (h : Linked E N) {r : Role} (hl : ¬ (N.ends r).ended)
    (hw : N.wire r.peer = []) (hp : (N.ends r.peer).pending = []) :
    (N.ends r).received = (N.ends r.peer).sent := by
  have ht := h.tuned r
  have hall := h.arrived hl hw hp
  by_cases hs : (N.ends r).hs = .done
  · obtain ⟨l, -, ha, hsent, -⟩ := ht.reading hE hl hs
    rw [hall] at ha
    rw [hsent, List.map_eq_nil_iff.mp (List.self_eq_append_right.mp ha), List.map_nil,
      List.append_nil]
  · obtain ⟨hlen, hrec⟩ := (ht.heard.order hl).early hl hs
    rw [← hall] at hlen
    rw [Ctx.received, hrec]
    refine Eq.symm ?_
    cases ht.said.spoken with
    | nothing _ _ hsent => exact hsent
    | greeted m _ hsent => exact hsent
    | opened m header st rng rng' l _ _ _ _ _ ha =>
      have ha : (N.ends r.peer).appended = _ := ha
      rw [ha] at hlen
      exact absurd hlen (by simp)

end Linked

/-- An endpoint that was just created has taken nothing, and all that it has queued is pending. -/
structure Fresh (E : Env Rng SS) (c : Ctx Rng SS) : Prop where
  order : InOrder E c
  paired : c.Paired E
  inBuf : c.inBuf = []
  frames : c.frames = []
  received : c.received = []
  sent : c.sent = []
  pending : c.pending = c.appended.flatten

theorem Fresh.created {r : Role} {cfg : Option Config} {rng : Rng} {memOk : Bool}
    (h : create E r cfg rng memOk = some c) : c.role = r ∧ Fresh E c := by
  obtain ⟨pk, sk, rng', hk, rfl⟩ := create_eq_some h
  have horder := InOrder.started (E := E) (c := (applyConfigDefaults E r (cfg.getD {}) rng
    (newEvents (cfg.getD {}))).withEph pk sk rng') rfl rfl
  cases r with
  | client => exact ⟨rfl, horder, ⟨rng, rng', hk⟩, rfl, rfl, rfl, rfl, (List.append_nil _).symm⟩
  | server => exact ⟨rfl, horder, ⟨rng, rng', hk⟩, rfl, rfl, rfl, rfl, rfl⟩

theorem Linked.created (h : N.Created E) : Linked E N := by
  have hfresh : ∀ r, (N.ends r).role = r ∧ Fresh E (N.ends r) := by
    intro r
    obtain ⟨cfg, rng, memOk, hc⟩ := h.ends r
    exact Fresh.created hc
  refine ⟨fun r => ?_, fun r => ?_, fun r => ?_⟩
  · refine ⟨⟨?_, (hfresh r.peer).2.paired, (hfresh r).2.paired⟩, (hfresh r.peer).2.order.upright,
      (hfresh r).2.order.upright, ?_, ?_, fun _ => ?_⟩
    · rw [(hfresh r.peer).1, (hfresh r).1]
    · rw [(hfresh r).2.frames]
      exact List.nil_prefix
    · rw [(hfresh r.peer).2.frames]
      exact List.nil_prefix
    · exact ⟨(hfresh r.peer).2.order.calm, (hfresh r).2.order.calm⟩
  · refine settled_short ?_
    rw [(hfresh r).2.inBuf]
    decide
  · refine ⟨fun _ => ?_, ?_⟩
    · rw [(hfresh r).2.inBuf, (hfresh r).2.frames, h.wire, List.nil_append, List.nil_append,
        (hfresh r.peer).2.pending]
      exact .start _
    · rw [(hfresh r).2.received]
      exact List.nil_prefix

def Steps (E : Env Rng SS) : Ctx Rng SS → Ctx Rng SS → Prop :=
  Relation.ReflTransGen fun c c' => ∃ l, Step E l c c'

theorem InputSteps.steps {c c' : Ctx Rng SS} (h : InputSteps E c c') : Steps E c c' := by
  induction h with
  | refl => exact .refl
  | tail _ h ih =>
    obtain h | ⟨data, h⟩ := h
    · exact ih.tail ⟨_, h⟩
    · exact ih.tail ⟨_, h⟩

theorem Steps.settings {c c' : Ctx Rng SS} (h : Steps E c c') : c'.settings = c.settings := by
  induction h with
  | refl => rfl
  | tail _ h ih =>
    obtain ⟨l, h⟩ := h
    obtain ⟨a, ha⟩ := h.deed
    obtain ⟨-, -, -, -, hset, -⟩ := ha.deals
    exact hset.trans ih

theorem Net.step_ends (N : Net Rng SS) {a : Act} (ha : a.honest) (r : Role) :
    Steps E (N.ends r) ((N.step E a).ends r) := by
  cases a with
  | host r' k =>
    by_cases hr : r = r'
    · subst hr
      rw [show (N.step E (.host r k)).ends r = (call E (N.ends r) k).1 from
        Function.update_self _ _ _]
      exact .single ⟨_, .call k ha⟩
    · rw [show (N.step E (.host r' k)).ends r = N.ends r from Function.update_of_ne hr _ _]
      exact .refl
  | deliver r' n =>
    by_cases hr : r = r'
    · subst hr
      rw [show (N.step E (.deliver r n)).ends r =
        (feedInput E (N.ends r) ((N.wire r.peer).take n)).1 from Function.update_self _ _ _]
      exact (feedInput_steps (N.ends r) _).steps
    · rw [show (N.step E (.deliver r' n)).ends r = N.ends r from Function.update_of_ne hr _ _]
      exact .refl

theorem Net.Run.settings {guard : Net Rng SS → Act → Prop} (h : Net.Run E guard N N') (r : Role) :
    (N'.ends r).settings = (N.ends r).settings := by
  induction h with
  | nil => rfl
  | snoc a _ ha _ ih => exact (Net.step_ends _ ha r).settings.trans ih

/-- Between two honest endpoints each receives, in order, what the other has sent, all of it once
everything has arrived; and neither raises an error of the record layer. -/
theorem records_delivered (hE : Ideal E) (h : N.Created E)
    (hmax : (N.ends .client).maxRecordSize = (N.ends .server).maxRecordSize)
    (hrun : Net.Run E (fun _ _ => True) N N') (r : Role) :
    (N'.ends r).received <+: (N'.ends r.peer).sent ∧
    (¬ (N'.ends r).ended → N'.wire r.peer = [] → (N'.ends r.peer).pending = [] →
      (N'.ends r).received = (N'.ends r.peer).sent) ∧
    (N'.ends r).alarms = [] := by
  have hl := (Linked.created h).run hE hrun
  have hlimit : (N'.ends r.peer).maxRecordSize = (N'.ends r).maxRecordSize := by
    have hset := fun r => congrArg Settings.maxRecordSize (hrun.settings r)
    refine (hset r.peer).trans (Eq.trans ?_ (hset r).symm)
    cases r with
    | client => exact hmax.symm
    | server => exact hmax
  exact ⟨(hl.lined r).received, fun he hw hp => hl.complete hE he hw hp,
    ((hl.tuned r).calm hlimit).2⟩

theorem ssPull_plainEnv (plain : Bytes) (tag : UInt8) :
    plainEnv.ssPull () (plain ++ plainTail tag) = some ((), plain, tag) := by
  have hlen : (plain ++ plainTail tag).length - ssAbytes = plain.length := by
    simp [plainTail, ssAbytes]
  change some ((), (plain ++ plainTail tag).take _, (plain ++ plainTail tag).getD _ 0) = _
  rw [hlen, List.take_left, List.getD_append_right _ _ _ _ le_rfl, Nat.sub_self]
  rfl

theorem ideal_plainEnv : Ideal plainEnv where
  kx _ _ := rfl
  stream := by
    intro rng key st header rng' _
    refine ⟨(), rfl, fun l s' he => ⟨(), ?_⟩⟩
    induction he with
    | nil => exact .nil
    | snoc _ h ih =>
      refine ih.snoc ?_
      obtain ⟨-, rfl⟩ := Prod.mk.inj (Option.some.inj h)
      exact ssPull_plainEnv _ _
  lengths := plainEnv_streamLengths

def plainNet : Net Unit Unit where
  ends
    | .client => plainClientStart
    | .server => plainServerStart
  wire _ := []

@[simp] theorem plainNet_client : plainNet.ends .client = plainClientStart := by
  simp only [plainNet]

@[simp] theorem plainNet_server : plainNet.ends .server = plainServerStart := by
  simp only [plainNet]

theorem created_plainNet : plainNet.Created plainEnv := by
  refine ⟨fun r => ?_, fun _ => rfl⟩
  cases r with
  | client =>
    rw [plainNet_client]
    exact ⟨some plainClient, (), true, create_plainClient⟩
  | server =>
    rw [plainNet_server]
    exact ⟨some plainServer, (), true, create_plainServer⟩

def plainExchange : List Act :=
  [.host .client (.getOutput 4096), .deliver .server 100, .deliver .server 4096,
    .host .server (.getOutput 4096), .deliver .client 4096, .host .client (.getOutput 4096),
    .deliver .server 4096, .host .server (.getOutput 4096), .deliver .client 4096,
    .host .client (.getOutput 4096), .deliver .server 4096]

theorem Net.run_acts {E : Env Rng SS} {l : List Act} (h : ∀ a ∈ l, a.honest) (N : Net Rng SS) :
    Net.Run E (fun _ _ => True) N (l.foldl (Net.step E) N) := by
  induction l using List.reverseRecOn with
  | nil => exact .nil
  | append_singleton l a ih =>
    rw [List.foldl_append]
    exact (ih fun b hb => h b (List.mem_append_left _ hb)).snoc a
      (h a (List.mem_append_right _ (List.mem_singleton_self a))) trivial

theorem records_delivered_plain :
    ((plainExchange.foldl (Net.step plainEnv) plainNet).ends .server).received ≠ [] ∧
    ((plainExchange.foldl (Net.step plainEnv) plainNet).ends .server).received =
      ((plainExchange.foldl (Net.step plainEnv) plainNet).ends .client).sent ∧
    ((plainExchange.foldl (Net.step plainEnv) plainNet).ends .server).alarms = [] := by
  obtain ⟨-, hall, halarms⟩ := records_delivered ideal_plainEnv created_plainNet
    (by decide +kernel) (Net.run_acts (l := plainExchange) (by decide) plainNet) .server
  exact ⟨by decide +kernel, hall (by decide +kernel) (by decide +kernel) (by decide +kernel),
    halarms⟩

end Sodchan
