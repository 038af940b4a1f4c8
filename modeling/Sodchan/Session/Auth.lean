import Sodchan.Model.Plain
import Sodchan.Session.Lifecycle

/-! # Authentication of the client at the server

A session goes through at most one AUTH_DEVICE and one decision. The phase is
read off the occurrences recorded since the last creation or reset and ties
them to the flags of the context.
-/

namespace Sodchan

variable {Rng SS : Type} {E : Env Rng SS} {c c' : Ctx Rng SS}

def Ctx.authLog (c : Ctx Rng SS) : List Occ := c.hist.filter Occ.isAuth

/-- The device signature verifies under the peer's key, over this session's transcript. -/
def Proven (E : Env Rng SS) (c : Ctx Rng SS) (pk : Key) (sig : Sig) (user device : Bytes) : Prop :=
  c.peerIdPk = pk ∧ ∃ tAuth, Wire.buildTAuth c.tHello pk user device 512 = .ok tAuth ∧
    E.signVerifyDetached sig tAuth pk

/-- The phases of authentication. -/
inductive AuthPhase (E : Env Rng SS) (c : Ctx Rng SS) : Prop where
  | idle : c.authLog = [] → c.authAwaitingDecide = false → c.authDecided = false →
      c.authComplete = false → AuthPhase E c
  | forged : c.authLog = [.authBadSig] → c.authComplete = false → c.ended → AuthPhase E c
  | awaiting (pk : Key) (sig : Sig) (user device : Bytes) :
      c.authLog = [.authDevice pk sig user device] → c.authAwaitingDecide = true →
      c.authDecided = false → c.authComplete = false → c.hs = .done →
      Proven E c pk sig user device → AuthPhase E c
  | accepted (pk : Key) (sig : Sig) (user device : Bytes) (k : Call) : k.isDecide →
      c.authLog = [.authDevice pk sig user device, .authDecided true, .did k] →
      c.authDecided = true → c.authComplete = true → c.hs = .done →
      Proven E c pk sig user device → AuthPhase E c
  | unsent (pk : Key) (sig : Sig) (user device : Bytes) (accept : Bool) :
      c.authLog = [.authDevice pk sig user device, .authDecided accept] →
      c.authDecided = true → c.authComplete = false → c.ended → AuthPhase E c
  | rejected (pk : Key) (sig : Sig) (user device : Bytes) (k : Call) : k.isDecide →
      c.authLog = [.authDevice pk sig user device, .authDecided false, .did k] →
      c.authDecided = true → c.authComplete = false → c.ended → AuthPhase E c

theorem Moves.authLog {p : Powers} (h : Moves E p c c') : c'.authLog = c.authLog :=
  h.filter_eq Occ.isSession_of_isAuth

theorem Moves.ended {p : Powers} (h : Moves E p c c') (hc : c.ended) : c'.ended := by
  rcases h.state with hs | hs
  · unfold Ctx.ended
    rwa [hs]
  · exact hs

theorem HandshakeOnly.authLog (h : HandshakeOnly c c') : c'.authLog = c.authLog := by
  obtain ⟨l, hl, ho⟩ := h.hist
  unfold Ctx.authLog
  have hnil : l.filter Occ.isAuth = [] :=
    List.filter_eq_nil_iff.mpr fun o hm => by simp [(ho o hm).1]
  rw [hl, List.filter_append, hnil, List.append_nil]

theorem authLog_log (c : Ctx Rng SS) (o : Occ) :
    (c.log o).authLog = c.authLog ++ if o.isAuth then [o] else [] := by
  unfold Ctx.authLog Ctx.log
  rw [List.filter_append]
  cases h : o.isAuth <;> simp [h]

/-- A phase depends on the log, the flags, the peer's key and whether the session is over. -/
theorem AuthPhase.congr (h : AuthPhase E c) (hl : c'.authLog = c.authLog)
    (ha : c'.authAwaitingDecide = c.authAwaitingDecide) (hd : c'.authDecided = c.authDecided)
    (hc : c'.authComplete = c.authComplete) (hh : c'.hs = c.hs) (ht : c'.tHello = c.tHello)
    (hp : c'.peerIdPk = c.peerIdPk) (he : c.ended → c'.ended) : AuthPhase E c' := by
  have hpr : ∀ {pk sig user device}, Proven E c pk sig user device →
      Proven E c' pk sig user device := by
    intro pk sig user device h
    unfold Proven
    rwa [hp, ht]
  cases h with
  | idle h1 h2 h3 h4 => exact .idle (hl.trans h1) (ha.trans h2) (hd.trans h3) (hc.trans h4)
  | forged h1 h2 h3 => exact .forged (hl.trans h1) (hc.trans h2) (he h3)
  | awaiting pk sig user device h1 h2 h3 h4 h5 h6 =>
    exact .awaiting pk sig user device (hl.trans h1) (ha.trans h2) (hd.trans h3) (hc.trans h4)
      (hh.trans h5) (hpr h6)
  | accepted pk sig user device k hk h1 h2 h3 h4 h5 =>
    exact .accepted pk sig user device k hk (hl.trans h1) (hd.trans h2) (hc.trans h3)
      (hh.trans h4) (hpr h5)
  | unsent pk sig user device accept h1 h2 h3 h4 =>
    exact .unsent pk sig user device accept (hl.trans h1) (hd.trans h2) (hc.trans h3) (he h4)
  | rejected pk sig user device k hk h1 h2 h3 h4 =>
    exact .rejected pk sig user device k hk (hl.trans h1) (hd.trans h2) (hc.trans h3) (he h4)

theorem AuthPhase.moves {p : Powers} (h : AuthPhase E c) (hm : Moves E p c c') :
    AuthPhase E c' := by
  have ho := hm.overlay
  refine h.congr hm.authLog ?_ ?_ ?_ ?_ ?_ ?_ hm.ended <;> rw [ho] <;> rfl

/-- Outside of a completed handshake nothing has happened yet, or the session is over. -/
theorem AuthPhase.idle_of_hs (h : AuthPhase E c) (hs : c.hs ≠ .done) (hn : ¬ c.ended) :
    c.authLog = [] ∧ c.authAwaitingDecide = false ∧ c.authDecided = false ∧
      c.authComplete = false := by
  cases h with
  | idle h1 h2 h3 h4 => exact ⟨h1, h2, h3, h4⟩
  | forged _ _ h => exact absurd h hn
  | awaiting _ _ _ _ _ _ _ _ h => exact absurd h hs
  | accepted _ _ _ _ _ _ _ _ _ h => exact absurd h hs
  | unsent _ _ _ _ _ _ _ _ h => exact absurd h hn
  | rejected _ _ _ _ _ _ _ _ _ h => exact absurd h hn

theorem AuthPhase.handshake (h : AuthPhase E c) (hs : c.hs ≠ .done) (hn : ¬ c.ended)
    (ho : HandshakeOnly c c') : AuthPhase E c' := by
  obtain ⟨h1, h2, h3, h4⟩ := h.idle_of_hs hs hn
  exact .idle (ho.authLog.trans h1) (ho.awaiting.trans h2) (ho.decided.trans h3)
    (ho.complete.trans h4)

theorem AuthPhase.output (h : AuthPhase E c) (n : ℕ) : AuthPhase E (getOutput c n).1 := by
  obtain ⟨b, o, he⟩ := getOutput_eq c n
  rw [he]
  exact h.congr rfl rfl rfl rfl rfl rfl rfl id

theorem AuthPhase.drain (h : AuthPhase E c) (hn : ¬ c.ended) :
    AuthPhase E { c with state := .draining } :=
  h.congr rfl rfl rfl rfl rfl rfl rfl fun he => absurd he hn

theorem ended_setError (c : Ctx Rng SS) (code : Rc) (msg : String) : (setError c code msg).ended :=
  Or.inl (setError_state c code msg)

/-- Only an idle session has neither an awaited, nor a taken, nor a completed decision, or it has
ended. -/
theorem AuthPhase.idle_of_flags (h : AuthPhase E c) (hn : ¬ c.ended)
    (hf : c.authAwaitingDecide = false ∧ c.authComplete = false ∧ c.authDecided = false) :
    c.authLog = [] := by
  cases h with
  | idle h => exact h
  | forged _ _ h => exact absurd h hn
  | awaiting _ _ _ _ _ h => exact absurd (h.symm.trans hf.1) (by rintro ⟨⟩)
  | accepted _ _ _ _ _ _ _ _ h => exact absurd (h.symm.trans hf.2.1) (by rintro ⟨⟩)
  | unsent _ _ _ _ _ _ _ _ h => exact absurd h hn
  | rejected _ _ _ _ _ _ _ _ _ h => exact absurd h hn

theorem AuthPhase.authDevice (h : AuthPhase E c) (hs : c.hs = .done) (hst : c.state = .auth)
    (plain : Bytes) : AuthPhase E (handleAuthDevicePdu E c plain).1 := by
  have hn : ¬ c.ended := by simp [Ctx.ended, hst]
  have he := handleAuthDevicePdu_effect E c plain
  generalize handleAuthDevicePdu E c plain = r at he
  cases he with
  | refused code msg =>
    exact h.moves (Moves.recordError trivial code msg : Moves E ⟨True, True⟩ c _)
  | forged msg msg' hr hf =>
    have hmv : Moves E ⟨True, True⟩ (c.log .authBadSig) (setError (emitAuthFailed
        (serverSendAuthFail E (c.log .authBadSig)).1 .badSig msg) .crypto msg') :=
      (serverSendAuthFail_moves (by simp [Ctx.log, hst]) (by simp [Ctx.log, hst])).trans
        ((Moves.emit _ rfl rfl fun _ => trivial).trans (Moves.recordError trivial _ _))
    refine .forged ?_ ?_ (ended_setError _ _ _)
    · rw [hmv.authLog, authLog_log, h.idle_of_flags hn hf]
      rfl
    · rw [hmv.overlay]
      exact hf.2.1
  | accepted d user device hd hv =>
    obtain ⟨ev, r, ⟨e, -, hev⟩, heq⟩ := takeAuthDevice_eq E c d user device
    have hev : ev.isAuth = false := by rcases hev with rfl | rfl <;> rfl
    have hlog : (takeAuthDevice E c d user device).authLog =
        [.authDevice d.clientIdPk d.clientSig user device] := by
      have hidle := h.idle_of_flags hn hv.waiting
      rw [heq]
      unfold Ctx.authLog at hidle ⊢
      rw [List.filter_append, hidle, List.nil_append, List.filter_cons, hev]
      rfl
    refine .awaiting d.clientIdPk d.clientSig user device hlog ?_ ?_ ?_ ?_ ?_ <;> rw [heq]
    · exact hv.waiting.2.2
    · exact hv.waiting.2.1
    · exact hs
    · exact ⟨rfl, hv.verified⟩

theorem AuthPhase.authOk (h : AuthPhase E c) (hr : c.role = .server)
    (plain : Bytes) : AuthPhase E (handleAuthOkPdu c plain).1 := by
  have he := handleAuthOkPdu_effect c plain
  generalize handleAuthOkPdu c plain = r at he
  cases he with
  | refused msg => exact h.moves (Moves.recordError trivial _ msg : Moves E ⟨True, True⟩ c _)
  | accepted hc =>
    rw [hr] at hc
    cases hc

theorem AuthPhase.awaiting_of_mayDecide (h : AuthPhase E c) (hm : MayDecide c) :
    ∃ pk sig user device, c.authLog = [.authDevice pk sig user device] ∧ c.hs = .done ∧
      c.authComplete = false ∧ Proven E c pk sig user device := by
  have hn : ¬ c.ended := by simp [Ctx.ended, hm.state]
  cases h with
  | idle _ h => exact absurd (h.symm.trans hm.awaiting) (by rintro ⟨⟩)
  | forged _ _ h => exact absurd h hn
  | awaiting pk sig user device h1 _ _ h4 h5 h6 => exact ⟨pk, sig, user, device, h1, h5, h4, h6⟩
  | accepted _ _ _ _ _ _ _ h => exact absurd (h.symm.trans hm.undecided) (by rintro ⟨⟩)
  | unsent _ _ _ _ _ _ _ _ h => exact absurd h hn
  | rejected _ _ _ _ _ _ _ _ _ h => exact absurd h hn

theorem authLog_takeDecision (c : Ctx Rng SS) (accept : Bool) :
    (takeDecision c accept).authLog = c.authLog ++ [.authDecided accept] :=
  authLog_log c (.authDecided accept)

theorem authLog_did {k : Call} (hk : k.isDecide) (c : Ctx Rng SS) :
    (c.log (.did k)).authLog = c.authLog ++ [.did k] := by
  rw [authLog_log, Occ.isAuth, hk, if_pos rfl]

theorem authLog_emit (c : Ctx Rng SS) (ev : Event) : (emit c ev).authLog = c.authLog := by
  have h : (emitOcc c ev).isAuth = false := by
    rcases emitOcc_cases c ev with h | h <;> rw [h] <;> rfl
  rw [emit_eq]
  exact (authLog_log c (emitOcc c ev)).trans (by rw [h, if_neg (by decide), List.append_nil])

theorem AuthPhase.decide (h : AuthPhase E c) {k : Call} (hk : k.isDecide) (accept : Bool)
    (claims : Arg) : AuthPhase E (record k (authDecideEx E c accept claims)).1 := by
  have he := authDecideEx_effect E c accept claims
  generalize authDecideEx E c accept claims = r at he
  unfold record
  cases he with
  | refused rc hrc => rwa [if_neg hrc]
  | unsent c' msg hm hmv =>
    obtain ⟨pk, sig, user, device, hl, hs, hc, hp⟩ := h.awaiting_of_mayDecide hm
    have hmv : Moves E ⟨True, True⟩ (takeDecision c accept) (setError c' .full msg) :=
      (hmv ⟨True, True⟩).trans (Moves.recordError trivial _ _)
    rw [if_neg (by rintro ⟨⟩)]
    refine .unsent pk sig user device accept ?_ ?_ ?_ (ended_setError _ _ _)
    · rw [hmv.authLog, authLog_takeDecision, hl]
      rfl
    · rw [hmv.overlay]
      rfl
    · rw [hmv.overlay]
      exact hc
  | accepted c' hm ha hmv =>
    obtain ⟨pk, sig, user, device, hl, hs, -, hp⟩ := h.awaiting_of_mayDecide hm
    have hl' : c'.authLog = [.authDevice pk sig user device, .authDecided true] := by
      rw [(hmv ⟨True, True⟩).authLog, authLog_takeDecision, hl, ha]
      rfl
    have ho := (hmv ⟨True, True⟩).overlay
    rw [if_pos rfl]
    refine .accepted pk sig user device k hk ?_ ?_ ?_ ?_ ?_
    · rw [authLog_did hk, emitAuthenticated, authLog_emit]
      exact congrArg (· ++ [Occ.did k]) hl'
    all_goals
      rw [emitAuthenticated, emit_eq, ho]
      first | rfl | exact hs | exact hp
  | rejected c' msg msg' hm ha hmv =>
    obtain ⟨pk, sig, user, device, hl, hs, hc, hp⟩ := h.awaiting_of_mayDecide hm
    have hmv : Moves E ⟨True, True⟩ (takeDecision c accept)
        (setError (emitAuthFailed c' .policy msg) .rejected msg') :=
      (hmv ⟨True, True⟩).trans ((Moves.emit _ rfl rfl fun _ => trivial).trans
        (Moves.recordError trivial _ _))
    rw [if_pos rfl]
    refine .rejected pk sig user device k hk ?_ ?_ ?_ (ended_setError _ _ _)
    · rw [authLog_did hk, hmv.authLog, authLog_takeDecision, hl, ha]
      rfl
    · unfold Ctx.log
      rw [hmv.overlay]
      rfl
    · unfold Ctx.log
      rw [hmv.overlay]
      exact hc

variable {quit : Prop}

theorem AuthPhase.turn (h : AuthPhase E c) (hr : c.role = .server) (ht : Turn E quit c c') :
    AuthPhase E c' := by
  cases ht with
  | output n => exact h.output n
  | input => exact h.congr rfl rfl rfl rfl rfl rfl rfl id
  | frame raw =>
    exact h.congr ((authLog_log c (.frame raw)).trans (List.append_nil _))
      rfl rfl rfl rfl rfl rfl id
  | pull =>
    exact h.congr ((authLog_log c (.pulled _ _ _)).trans (List.append_nil _)) rfl rfl rfl rfl rfl
      rfl id
  | drain _ hd =>
    refine h.drain ?_
    rintro (he | he) <;> rcases hd with ⟨hs | hs, -⟩ | ⟨hs, -⟩ <;> rw [hs] at he <;> cases he
  | hello body he hc hs =>
    exact h.handshake (by simp [hs]) (by simp [Ctx.ended, he, hc]) (handlePeerHello_only body)
  | ssHeader body he hc hs =>
    exact h.handshake (by simp [hs]) (by simp [Ctx.ended, he, hc]) (handlePeerSsHeader_only body)
  | authDevice plain hs hst => exact h.authDevice hs hst plain
  | authOk plain => exact h.authOk hr plain
  | decide k accept claims hk => exact h.decide hk accept claims

theorem Advance.authPhase (h : Advance E quit c c') (hp : c.role = .server → AuthPhase E c) :
    c'.role = .server → AuthPhase E c' :=
  h.preserves (P := fun d => d.role = .server → AuthPhase E d) hp
    (fun _ _ hp hm hr => (hp (hm.role.symm.trans hr)).moves hm)
    (fun _ _ hp ht hr =>
      have hr' := ht.role_hist.1.symm.trans hr
      (hp hr').turn hr' ht)

theorem authPhase_started (hr : c.role = .server) (hh : c.hist = [])
    (ha : c.authAwaitingDecide = false) (hd : c.authDecided = false)
    (hc : c.authComplete = false) : AuthPhase E c.started := by
  have hs : c.started = { c with state := .hello, hs := .waitPeerHello } := by
    unfold Ctx.started
    rw [hr]
  rw [hs]
  exact .idle (congrArg (List.filter Occ.isAuth) hh) ha hd hc

theorem started_role (c : Ctx Rng SS) : c.started.role = c.role := by
  unfold Ctx.started
  split <;> rfl

theorem ReachableUnder.authPhase {guard : Ctx Rng SS → Call → Prop}
    (h : ReachableUnder E guard c) : c.role = .server → AuthPhase E c := by
  refine h.induction (P := fun d => d.role = .server → AuthPhase E d) ?_ ?_
    (fun _ _ _ hp _ hs => hs.advance.authPhase hp)
    (fun _ _ hp hs => (hs.advance False).authPhase hp)
  · intro role cfg rng memOk c hc hr
    obtain ⟨pk, sk, rng', -, rfl⟩ := create_eq_some hc
    rw [started_role] at hr
    exact authPhase_started hr rfl rfl rfl rfl
  · intro c _ _ hr
    rw [reset_role] at hr
    obtain ⟨rng, -, he⟩ | ⟨pk, sk, rng, -, he⟩ := reset_cases E c <;> rw [he]
    · exact .idle rfl rfl rfl rfl
    · exact authPhase_started hr rfl rfl rfl rfl

/-- A host that never resets. -/
def NoReset (_ : Ctx Rng SS) (k : Call) : Prop := k ≠ .reset

theorem call_hist {k : Call} (hk : k ≠ .reset) (c : Ctx Rng SS) :
    (call E c k).1.role = c.role ∧ c.hist <+: (call E c k).1.hist := by
  by_cases hp : k.isPlain
  · exact (Step.call k hp).advance.role_hist
  · cases k <;> first
      | exact absurd rfl hp
      | exact absurd rfl hk
      | exact ((feedInput_steps c _).advance False).role_hist

theorem Run.role_hist {l : List (Call × Ret)} (h : Run E NoReset c l c') :
    c'.role = c.role ∧ c.hist <+: c'.hist := by
  induction h with
  | nil => exact ⟨rfl, List.prefix_rfl⟩
  | @snoc b l k _ hk ih =>
    have hc := call_hist (E := E) hk b
    exact ⟨hc.1.trans ih.1, ih.2.trans hc.2⟩

theorem Reachable.run {l : List (Call × Ret)} {guard : Ctx Rng SS → Call → Prop}
    (h : Reachable E c) (hr : Run E guard c l c') : Reachable E c' := by
  induction hr with
  | nil => exact h
  | snoc k _ _ ih =>
    obtain ⟨role, cfg, rng, memOk, c₀, l, hc, hrun⟩ := ih
    exact ⟨role, cfg, rng, memOk, c₀, _, hc, hrun.snoc k trivial⟩

def decidedOk (p : Call × Ret) : Bool := p.1.isDecide && decide (p.2 = .rc .ok)

theorem authLog_mono (h : c.hist <+: c'.hist) : c.authLog <+: c'.authLog := h.filter _

theorem call_decide {k : Call} (hk : k.isDecide) (c : Ctx Rng SS) :
    ∃ accept claims, call E c k = record k (authDecideEx E c accept claims) := by
  cases k <;> first
    | exact ⟨_, _, rfl⟩
    | cases hk

/-- A decision that returns OK was awaited, and it is recorded. -/
theorem decidedOk_call {k : Call} (h : decidedOk (k, (call E c k).2)) :
    MayDecide c ∧ ∃ l, (call E c k).1.authLog = c.authLog ++ l ++ [.did k] := by
  obtain ⟨hk, hrc⟩ : k.isDecide ∧ (call E c k).2 = .rc .ok := by simpa [decidedOk] using h
  obtain ⟨accept, claims, hcall⟩ := call_decide (E := E) hk c
  rw [hcall] at hrc ⊢
  have he := authDecideEx_effect E c accept claims
  generalize authDecideEx E c accept claims = r at he hrc ⊢
  have hok : r.2 = .ok := by simpa [record] using hrc
  have hlog : ∀ {d : Ctx Rng SS}, Moves E ⟨True, True⟩ (takeDecision c accept) d →
      (d.log (.did k)).authLog = c.authLog ++ [.authDecided accept] ++ [.did k] := by
    intro d hm
    rw [authLog_did hk, hm.authLog, authLog_takeDecision]
  unfold record
  rw [if_pos hok]
  cases he with
  | refused rc hne => exact absurd hok hne
  | unsent => cases hok
  | accepted c' hm _ hmv =>
    refine ⟨hm, [.authDecided accept], ?_⟩
    rw [authLog_did hk, emitAuthenticated, authLog_emit]
    exact congrArg (· ++ [Occ.did k])
      (((hmv ⟨True, True⟩).authLog).trans (authLog_takeDecision c accept))
  | rejected c' msg msg' hm _ hmv =>
    exact ⟨hm, [.authDecided accept], hlog ((hmv ⟨True, True⟩).trans
      ((Moves.emit _ rfl rfl fun _ => trivial).trans (Moves.recordError trivial _ _)))⟩

/-- Without a reset, at most one decision returns OK. -/
theorem decidedOk_run {l : List (Call × Ret)} (hc : Reachable E c) (hr : c.role = .server)
    (h : Run E NoReset c l c') :
    l.countP decidedOk = 0 ∨ l.countP decidedOk = 1 ∧ 2 ≤ c'.authLog.length := by
  induction h with
  | nil => exact Or.inl rfl
  | @snoc b l k hrun hk ih =>
    have hmono : b.authLog.length ≤ (call E b k).1.authLog.length :=
      (authLog_mono (call_hist hk b).2).length_le
    rw [List.countP_append, List.countP_singleton]
    split
    · rename_i hd
      obtain ⟨hm, l', hl'⟩ := decidedOk_call hd
      have hphase := (hc.run hrun).authPhase (hrun.role_hist.1.trans hr)
      obtain ⟨pk, sig, user, device, hlog, -⟩ := hphase.awaiting_of_mayDecide hm
      rcases ih with ih | ⟨-, ih⟩
      · refine Or.inr ⟨by rw [ih], ?_⟩
        rw [hl', hlog]
        simp
      · rw [hlog] at ih
        simp at ih
    · rcases ih with ih | ⟨ih, hlen⟩
      · exact Or.inl ih
      · exact Or.inr ⟨ih, hlen.trans hmono⟩

theorem AuthPhase.ended_of_mem (h : AuthPhase E c)
    (hm : .authBadSig ∈ c.hist ∨ .authDecided false ∈ c.hist) : c.ended := by
  have hm : .authBadSig ∈ c.authLog ∨ .authDecided false ∈ c.authLog := by
    simpa [Ctx.authLog, Occ.isAuth] using hm
  cases h with
  | idle h => simp [h] at hm
  | forged _ _ h => exact h
  | awaiting _ _ _ _ h => simp [h] at hm
  | accepted _ _ _ _ _ _ h => simp [h] at hm
  | unsent _ _ _ _ _ _ _ _ h => exact h
  | rejected _ _ _ _ _ _ _ _ _ h => exact h

/-- Server authentication: a session that is authenticated has accepted exactly one device proof,
which verifies over its transcript under the peer's key, and then exactly one decision, in favour;
a forged proof or a rejection ends it; and at most one decision returns OK. -/
theorem server_authentication (h : Reachable E c) (hr : c.role = .server) :
    (c.authComplete → ∃ pk sig user device k, k.isDecide ∧
      c.authLog = [.authDevice pk sig user device, .authDecided true, .did k] ∧
      c.peerIdPk = pk ∧ ∃ tAuth, Wire.buildTAuth c.tHello pk user device 512 = .ok tAuth ∧
        E.signVerifyDetached sig tAuth pk) ∧
    (KeypairSucceeds E → c.state = .ready → c.authComplete) ∧
    (∀ l c', Run E NoReset c l c' →
      (.authBadSig ∈ c.hist ∨ .authDecided false ∈ c.hist → c'.state ≠ .ready) ∧
      l.countP decidedOk ≤ 1) := by
  refine ⟨fun hc => ?_, fun hk hs => ?_, fun l c' hrun => ⟨fun hm => ?_, ?_⟩⟩
  · cases h.authPhase hr with
    | accepted pk sig user device k hk hl _ _ _ hp => exact ⟨pk, sig, user, device, k, hk, hl, hp⟩
    | idle _ _ _ h | forged _ h | awaiting _ _ _ _ _ _ _ h | unsent _ _ _ _ _ _ _ h _
    | rejected _ _ _ _ _ _ _ _ h _ =>
      rw [h] at hc
      cases hc
  · have hcl : Cleared (¬ KeypairSucceeds E) True c := h.cleared (absurd trivial)
    rcases hcl.ready hs with hc | ⟨hn, -⟩
    · exact hc
    · exact absurd hk hn
  · have hsub := hrun.role_hist.2.subset
    have he : c'.ended := ((h.run hrun).authPhase (hrun.role_hist.1.trans hr)).ended_of_mem
      (hm.imp (fun x => hsub x) (fun x => hsub x))
    rcases he with he | he <;> rw [he] <;> decide
  · rcases decidedOk_run h hr hrun with h0 | ⟨h1, -⟩ <;> omega

theorem server_authentication_plain :
    plainServerReady.state = .ready ∧
    (plainServerReady.authComplete → ∃ pk sig user device k, k.isDecide ∧
      plainServerReady.authLog =
        [.authDevice pk sig user device, .authDecided true, .did k] ∧
      plainServerReady.peerIdPk = pk ∧
      ∃ tAuth, Wire.buildTAuth plainServerReady.tHello pk user device 512 = .ok tAuth ∧
        plainEnv.signVerifyDetached sig tAuth pk) :=
  ⟨by decide +kernel,
    (server_authentication reachable_plainServerReady (by decide +kernel)).1⟩

end Sodchan
