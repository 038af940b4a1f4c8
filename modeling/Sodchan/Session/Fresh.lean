import Sodchan.Model.Plain
import Sodchan.Session.Uniform
import Sodchan.Session.Veiled

/-! # A reset is a new session

A reset leaves behind keys, a transcript and the states of the streams. None
of them is read again, so whatever is called next, a context that was reset
answers as one that was just created.
-/

namespace Sodchan

open ByteString

variable {Rng SS : Type} {E : Env Rng SS} {c c' d : Ctx Rng SS}

/-- Two contexts that differ only in data that are not read. -/
def Alias (c d : Ctx Rng SS) : Prop := ∃ v : Veil SS, v.inBuf = id ∧ d = c.veiled v

/-- What of a context may be left behind. -/
def Ctx.residue (c : Ctx Rng SS) : Veil SS where
  peerEphPk _ := c.peerEphPk
  peerIdPk _ := c.peerIdPk
  tHello _ := c.tHello
  ssPush _ := c.ssPush
  ssPull _ := c.ssPull
  serverIdPk _ := c.serverIdPk
  haveServerIdPk _ := c.haveServerIdPk

theorem wipe_veiled (v : Veil SS) (c : Ctx Rng SS) :
    wipe (c.veiled v) = (wipe c).veiled (c.veiled v).residue := by
  have hpin : (wipe c).pinUnread = (c.acceptAnyServerPk && decide (c.role = .client)) := rfl
  have hnot : (wipe c).pinUnread = false → c.pinUnread = false := by
    intro h
    rw [hpin] at h
    rw [Ctx.pinUnread, h, Bool.and_false]
  cases hw : (wipe c).pinUnread with
  | true => simp only [Ctx.veiled, hw, cond_true]; rfl
  | false =>
    have hc := hnot hw
    simp only [Ctx.veiled, hw, cond_false]
    simp only [wipe, Ctx.residue, hc, cond_false, id_eq]

theorem reset_veiled (v : Veil SS) (c : Ctx Rng SS) :
    reset E (c.veiled v) = (reset E c).veiled (c.veiled v).residue := by
  rw [reset, wipe_veiled, handshakeStart_veiled]
  rfl

theorem Alias.call (h : Alias c d) (k : Call) :
    (call E d k).2 = (call E c k).2 ∧ Alias (call E c k).1 (call E d k).1 := by
  obtain ⟨v, hv, rfl⟩ := h
  by_cases hk : k.isPlain
  · rw [call_veiled hk]
    exact ⟨rfl, v, hv, rfl⟩
  · cases k <;> first
      | exact absurd rfl hk
      | skip
    case feedInput data =>
      simp only [Sodchan.call, feedInput_veiled hv]
      exact ⟨rfl, v, hv, rfl⟩
    case reset => exact ⟨rfl, _, rfl, reset_veiled v c⟩

theorem Alias.play (h : Alias c d) (ks : List Call) :
    results E d ks = results E c ks ∧ Alias (play E c ks) (play E d ks) := by
  induction ks generalizing c d with
  | nil => exact ⟨rfl, h⟩
  | cons k ks ih =>
    obtain ⟨hret, hnext⟩ := h.call (E := E) k
    obtain ⟨hres, hplay⟩ := ih hnext
    exact ⟨by rw [results, results, hret, hres], hplay⟩

theorem Alias.queries (h : Alias c d) : d.state = c.state ∧
    ∀ id, channelWindowAvail d id = channelWindowAvail c id := by
  obtain ⟨v, -, rfl⟩ := h
  exact ⟨rfl, fun _ => rfl⟩

/-- The settings, the room for events and the server key, unless any is accepted. -/
structure Keeps (c c' : Ctx Rng SS) : Prop where
  settings : c'.settings = c.settings
  cap : c'.events.cap = c.events.cap
  pin : c'.outline.pin = c.outline.pin

namespace Keeps

theorem same (h : c'.outline = c.outline) : Keeps c c' :=
  ⟨congrArg Outline.settings h, congrArg Outline.cap h, congrArg Outline.pin h⟩

theorem trans {c'' : Ctx Rng SS} (h : Keeps c c') (h' : Keeps c' c'') : Keeps c c'' :=
  ⟨h'.settings.trans h.settings, h'.cap.trans h.cap, h'.pin.trans h.pin⟩

theorem emit (c : Ctx Rng SS) (ev : Event) : Keeps c (emit c ev) := by
  rw [emit_eq]
  refine ⟨rfl, ?_, rfl⟩
  change (emitRing c ev).cap = c.events.cap
  unfold emitRing
  cases h : c.events.push ev with
  | none => rfl
  | some r => exact (RingBuffer.push_eq_some h).2

theorem upheld : Upheld E False (@Keeps Rng SS) where
  trans := trans
  same := same
  log _ _ _ := ⟨rfl, rfl, rfl⟩
  emit := emit
  error c code msg _ := by
    have hc : Keeps c { c with
        error := if code = .ok then .protocol else code, state := .error, errorMsg := msg } :=
      ⟨rfl, rfl, rfl⟩
    exact hc.trans (emit _ _)
  frame c body := by
    unfold outAppendFrame
    split
    · exact ⟨rfl, rfl, rfl⟩
    · rw [outAppend_eq]
      split <;> exact ⟨rfl, rfl, rfl⟩
  send c pdu := by
    obtain ⟨st, ct, -, -, h⟩ | ⟨b, o, rc, -, -, -, h⟩ := ssSendPdu_cases E c pdu <;> rw [h] <;>
      exact ⟨rfl, rfl, rfl⟩
  pull _ _ _ _ _ _ _ := ⟨rfl, rfl, rfl⟩

theorem output (c : Ctx Rng SS) (n : ℕ) : Keeps c (getOutput c n).1 := by
  obtain ⟨b, o, h⟩ := getOutput_eq c n
  rw [h]
  exact ⟨rfl, rfl, rfl⟩

theorem started (c : Ctx Rng SS) : Keeps c c.started := by
  unfold Ctx.started
  split <;> exact ⟨rfl, rfl, rfl⟩

theorem wipe (c : Ctx Rng SS) : Keeps c (wipe c) :=
  ⟨rfl, RingBuffer.cap_empty Event.none c.events.cap c.events.cap_pos, rfl⟩

theorem reset (c : Ctx Rng SS) : Keeps c (reset E c) := by
  obtain ⟨rng, -, h⟩ | ⟨pk, sk, rng, -, h⟩ := reset_cases E c <;> rw [h]
  · exact (wipe c).trans ⟨rfl, rfl, rfl⟩
  · have hw : Keeps (Sodchan.wipe c) ((Sodchan.wipe c).withEph pk sk rng) := ⟨rfl, rfl, rfl⟩
    exact (wipe c).trans (hw.trans (started _))

theorem run {guard : Ctx Rng SS → Call → Prop} {l : List (Call × Ret)} {c₀ : Ctx Rng SS}
    (h : Run E guard c₀ l c) : Keeps c₀ c := by
  have hstep : ∀ {l : Label} {a b : Ctx Rng SS}, Keeps c₀ a → Step E l a b → Keeps c₀ b :=
    fun ha hs => ha.trans (upheld.step ⟨fun _ _ _ => ⟨rfl, rfl, rfl⟩, fun _ _ => ⟨rfl, rfl, rfl⟩⟩
      output hs)
  refine h.preserves (P := Keeps c₀) (fun a ha _ => ha.trans (reset a))
    (fun _ _ _ ha _ hs => hstep ha hs) (fun a b ha hs => ?_) ⟨rfl, rfl, rfl⟩
  induction hs with
  | refl => exact ha
  | tail _ hs ih => exact hs.elim (hstep ih) fun ⟨_, hs⟩ => hstep ih hs

end Keeps

theorem started_veiled (c : Ctx Rng SS) (v : Veil SS) :
    (c.veiled v).started = c.started.veiled v := by
  unfold Ctx.started
  simp only [Ctx.veiled_role]
  split <;> rfl

/-- The start of a session does not depend on the state before it. -/
theorem started_enter (c : Ctx Rng SS) (s : State) (h : Hs) :
    (c.enter s h).started = c.started := by
  unfold Ctx.started Ctx.enter
  dsimp only
  split <;> rfl

theorem empty_events {f : Event} {n m : ℕ} (h : n = m) (hn : 0 < n) (hm : 0 < m) :
    RingBuffer.empty f n hn = RingBuffer.empty f m hm := by
  subst h
  rfl

variable {role : Role} {cfg : Option Config} {rng : Rng} {memOk : Bool}

/-- The context of a configuration before its first session. -/
def configured (E : Env Rng SS) (role : Role) (cfg : Option Config) (rng : Rng) : Ctx Rng SS :=
  applyConfigDefaults E role (cfg.getD {}) rng (newEvents (cfg.getD {}))

/-- With a key pair, what a reset wipes is the context of the configuration but for the residue. -/
theorem wipe_eq_configured (h : Keeps (configured E role cfg rng) c) (pk sk : Key) (s : Rng) :
    ((wipe c).enter .idle .start).withEph pk sk s =
      ((configured E role cfg c.rng).withEph pk sk s).veiled c.residue := by
  obtain ⟨hs, hcap, hpin⟩ := h
  simp only [configured, applyConfigDefaults, Ctx.settings, Settings.mk.injEq] at hs
  obtain ⟨h1, h2, h3, h4, h5, h6, h7, h8, h9, h10, h11, h12, h13, h14, h15,
    h16, h17, h18, h19⟩ := hs
  have hev : RingBuffer.empty .none c.events.cap c.events.cap_pos = newEvents (cfg.getD {}) :=
    empty_events (hcap.trans (RingBuffer.cap_empty _ _ (cfgDefault_pos (by decide)))) _ _
  cases hg : ((configured E role cfg c.rng).withEph pk sk s).pinUnread with
  | true =>
    simp only [Ctx.veiled, hg, cond_true]
    simp only [wipe, Ctx.enter, Ctx.withEph, Ctx.residue, configured, applyConfigDefaults, hev, h1,
      h2, h3, h4, h5, h6, h7, h8, h9, h10, h11, h12, h13, h14, h15, h16, h17, h18, h19, id_eq,
      cond_false]
  | false =>
    have hany : ¬ ((cfg.getD {}).acceptAnyServerPk = true ∧ role = .client) := by
      rintro ⟨ha, rfl⟩
      simp [Ctx.pinUnread, configured, applyConfigDefaults, Ctx.withEph, ha] at hg
    have hpin' : c.serverIdPk = copyKey (cfg.getD {}).serverIdPk ∧
        c.haveServerIdPk = (cfg.getD {}).serverIdPk.isSome := by
      simpa [Ctx.outline, configured, applyConfigDefaults, h1, h8, hany] using hpin
    simp only [Ctx.veiled, hg, cond_false]
    simp only [wipe, Ctx.enter, Ctx.withEph, Ctx.residue, configured, applyConfigDefaults, hev, h1,
      h2, h3, h4, h5, h6, h7, h8, h9, h10, h11, h12, h13, h14, h15, h16, h17, h18, h19, hpin'.1,
      hpin'.2, id_eq, cond_false]

/-- A configuration that was accepted once is accepted again. -/
theorem create_again {c₀ : Ctx Rng SS} (h : create E role cfg rng memOk = some c₀) {rng' s : Rng}
    {pk sk : Key} (hk : E.kxKeypair rng' = (some (pk, sk), s)) :
    create E role cfg rng' true = some ((configured E role cfg rng').withEph pk sk s).started := by
  unfold create at h ⊢
  dsimp only at h ⊢
  split_ifs at h with h1 h2 h3 h4 h5
  rw [if_neg h1, if_neg h2, if_neg h3, if_neg (not_not.mpr h4), if_neg (not_not.mpr rfl)]
  generalize hstart : handshakeStart E _ = r
  obtain ⟨s', hs, -⟩ | ⟨pk', sk', s', hs, he⟩ := handshakeStart_cases E
    (c := configured E role cfg rng') rfl
  · cases hk.symm.trans hs
  · cases hk.symm.trans hs
    obtain rfl := hstart.symm.trans he
    rfl

/-- After a reset a context answers every sequence of calls as one that was just created. -/
theorem reset_is_fresh {c₀ : Ctx Rng SS} {l : List (Call × Ret)}
    (hc : create E role cfg rng memOk = some c₀) (hr : Run E (fun _ _ => True) c₀ l c)
    (hk : (E.kxKeypair c.rng).1.isSome) :
    ∃ d, create E role cfg c.rng true = some d ∧
      d.ephPk = (reset E c).ephPk ∧ d.ephSk = (reset E c).ephSk ∧
      ∀ ks, results E (reset E c) ks = results E d ks ∧
        (play E (reset E c) ks).state = (play E d ks).state ∧
        ∀ id, channelWindowAvail (play E (reset E c) ks) id =
          channelWindowAvail (play E d ks) id := by
  obtain ⟨s, hs, -⟩ | ⟨pk, sk, s, hs, he⟩ := reset_cases E c
  · rw [hs] at hk
    cases hk
  have hkeeps : Keeps (configured E role cfg rng) c := by
    obtain ⟨pk₀, sk₀, s₀, -, rfl⟩ := create_eq_some hc
    have hw : Keeps (configured E role cfg rng) ((configured E role cfg rng).withEph pk₀ sk₀ s₀) :=
      ⟨rfl, rfl, rfl⟩
    exact (hw.trans (.started _)).trans (.run hr)
  have halias : reset E c = (((configured E role cfg c.rng).withEph pk sk s).started).veiled
      c.residue := by
    have hw : ((wipe c).withEph pk sk s).started =
        (((wipe c).enter .idle .start).withEph pk sk s).started :=
      (started_enter ((wipe c).withEph pk sk s) .idle .start).symm
    rw [he, hw, ← started_veiled, ← wipe_eq_configured hkeeps]
  refine ⟨_, create_again hc hs, ?_, ?_, fun ks => ?_⟩
  · rw [halias]
    rfl
  · rw [halias]
    rfl
  · have ha : Alias (((configured E role cfg c.rng).withEph pk sk s).started) (reset E c) :=
      ⟨_, rfl, halias⟩
    obtain ⟨hres, hplay⟩ := ha.play (E := E) ks
    exact ⟨hres, hplay.queries⟩

/-- A server that has accepted the client, reset. -/
theorem reset_is_fresh_plain :
    ∃ d, create plainEnv .server (some plainServer) () true = some d ∧
      d.ephPk = (reset plainEnv plainServerReady).ephPk ∧
      d.ephSk = (reset plainEnv plainServerReady).ephSk ∧
      ∀ ks, results plainEnv (reset plainEnv plainServerReady) ks = results plainEnv d ks ∧
        (play plainEnv (reset plainEnv plainServerReady) ks).state = (play plainEnv d ks).state ∧
        ∀ id, channelWindowAvail (play plainEnv (reset plainEnv plainServerReady) ks) id =
          channelWindowAvail (play plainEnv d ks) id := by
  have hr : ∃ l, Run plainEnv (fun _ _ => True) plainServerStart l plainServerReady :=
    ⟨_, run_play (fun _ _ _ => trivial) plainServerStart⟩
  obtain ⟨l, hr⟩ := hr
  generalize plainServerReady = c at hr ⊢
  exact reset_is_fresh create_plainServer hr rfl

end Sodchan
