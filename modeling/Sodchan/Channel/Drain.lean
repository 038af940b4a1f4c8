import Sodchan.Channel.Configured
import Sodchan.Session.Silence
import Sodchan.Model.Plain

/-! # After a disconnect

A disconnect leaves the dispatcher of channel PDUs and two calls of the host
alive. As long as the peer sends neither a PING nor a CHANNEL_OPEN, and the
host neither closes an open channel nor disconnects again, the DISCONNECT is
the last record and no further channel is allocated.
-/

namespace Sodchan

open ByteString

variable {Rng SS : Type} {E : Env Rng SS} {c c' c'' : Ctx Rng SS}

/-- The next record, if it is one that is dispatched, is neither a PING nor a CHANNEL_OPEN. -/
def QuietRound (E : Env Rng SS) (c : Ctx Rng SS) : Prop :=
  c.state = .draining → ∀ plain, c.dispatches E plain → Unanswered plain

instance : DecidablePred (QuietRound E) := fun c =>
  inferInstanceAs (Decidable (_ → ∀ plain, c.dispatches E plain → Unanswered plain))

theorem handlePlain_silent (hst : c.state = .draining) {plain : Bytes} {tag : UInt8}
    (h : Dispatched tag → Unanswered plain) :
    Silent c (handlePlain E c plain tag).1 := by
  unfold handlePlain
  split
  · exact (Silent.emit _).trans (.same rfl rfl)
  · rename_i hf
    split
    · exact .refl c
    · rename_i hr
      split
      · exact .refl c
      · split
        · exact .setError _ _
        · rw [if_neg (by rw [hst]; rintro ⟨⟩), if_pos (Or.inr hst)]
          exact Silent.respected.handleMuxPdu (Or.inr (h ⟨hf, hr⟩))

/-- Draining, with the handshake behind it, or over. -/
def Ctx.drained (c : Ctx Rng SS) : Prop := c.state = .draining ∧ c.hs = .done ∨ c.ended

theorem Moves.drained {p : Powers} (h : Moves E p c c') (hc : c.drained) : c'.drained := by
  rcases h.state with hs | hs
  · have hh : c'.hs = c.hs := by
      rw [h.overlay]
      rfl
    unfold Ctx.drained Ctx.ended
    rw [hs, hh]
    exact hc
  · exact Or.inr hs

theorem processOne_drained (hc : c.drained) (hq : QuietRound E c) :
    Silent c (processOne E c).state ∧ (processOne E c).state.drained := by
  by_cases hend : c.ended
  · obtain ⟨-, h⟩ | ⟨he, hcl, -⟩ | ⟨k, body, d, he, hcl, -⟩ := processOne_cases E c
    · rw [h]
      exact ⟨.refl c, hc⟩
    · exact absurd hend (not_or.mpr ⟨he, hcl⟩)
    · exact absurd hend (not_or.mpr ⟨he, hcl⟩)
  · obtain ⟨hst, hhs⟩ := hc.resolve_right hend
    obtain ⟨-, h⟩ | ⟨-, -, -, h⟩ | ⟨k, body, d, he, hcl, hp, h⟩ := processOne_cases E c
    · rw [h]
      exact ⟨.refl c, Or.inl ⟨hst, hhs⟩⟩
    · rw [h]
      exact ⟨.setError _ _, Or.inr (Or.inl (setError_state _ _ _))⟩
    · set f := c.log (.frame (rawFrame body)) with hf
      have hlog : Silent c f := .log rfl
      have hframe : Silent c (handleFrame E f body).1 ∧ (handleFrame E f body).1.drained := by
        have hdone : handleFrame E f body = handleEncryptedPdu E f body := by
          unfold handleFrame
          rw [show f.hs = .done from hhs]
        rw [hdone]
        obtain ⟨code, msg, h⟩ | ⟨st, plain, tag, hr, -, hpull, h⟩ :=
          handleEncryptedPdu_cases E f body
        · rw [h]
          exact ⟨hlog.trans (.setError _ _), Or.inr (Or.inl (setError_state _ _ _))⟩
        · rw [h]
          have hpulled : Silent f (f.afterPull st body plain tag) :=
            ⟨(Silent.log (c := f) (o := .pulled body plain tag) rfl).appended, rfl⟩
          refine ⟨hlog.trans (hpulled.trans (handlePlain_silent
            (c := f.afterPull st body plain tag) hst fun ht =>
              hq hst plain ⟨k, body, st, tag, hp, hpull, ht⟩)), ?_⟩
          obtain ⟨ha, -⟩ | hm := handlePlain_cases (E := E)
            (c := f.afterPull st body plain tag) he hcl plain tag
          · exact absurd (ha.symm.trans hst) (by rintro ⟨⟩)
          · exact (hm ⟨True, True⟩ fun _ => trivial).drained (Or.inl ⟨hst, hhs⟩)
      rcases h with ⟨hh, h⟩ | ⟨hh, h⟩ <;> rw [h] <;> rw [hh] at hframe
      · exact ⟨hframe.1.trans (.same rfl rfl), hframe.2⟩
      · exact hframe

/-- No reset; while draining, no disconnect and no close of an open channel. -/
structure QuietCall (c : Ctx Rng SS) (k : Call) : Prop where
  reset : k ≠ .reset
  disconnect : c.state = .draining → ∀ reason msg, k ≠ .disconnect reason msg
  close : c.state = .draining → ∀ id i, k = .channelClose id → chByLocal c id = some i →
    (c.channels i).state ≠ .open_

def quietCallB (c : Ctx Rng SS) : Call → Bool
  | .reset => false
  | .disconnect .. => decide (c.state ≠ .draining)
  | .channelClose id => decide (c.state = .draining →
      ∀ i ∈ chByLocal c id, (c.channels i).state ≠ .open_)
  | _ => true

theorem quietCallB_iff (c : Ctx Rng SS) (k : Call) : quietCallB c k = true ↔ QuietCall c k := by
  constructor
  · intro h
    refine ⟨?_, ?_, ?_⟩
    · rintro rfl
      cases h
    · rintro hst reason msg rfl
      exact of_decide_eq_true h hst
    · rintro hst id i rfl hi
      exact of_decide_eq_true h hst i hi
  · rintro ⟨hreset, hdisconnect, hclose⟩
    cases k <;> simp_all [quietCallB]

instance (c : Ctx Rng SS) (k : Call) : Decidable (QuietCall c k) :=
  decidable_of_iff _ (quietCallB_iff c k)

theorem call_drained {k : Call} (hc : c.drained) (hq : QuietCall c k) (hk : k.isPlain) :
    Silent c (call E c k).1 ∧ (call E c k).1.drained := by
  by_cases hend : c.ended
  · obtain ⟨hs, hst⟩ := call_ended (E := E) hend hk
    refine ⟨hs, Or.inr ?_⟩
    rcases hst with hst | hst
    · unfold Ctx.ended
      rw [hst]
      exact hend
    · exact Or.inr hst
  · obtain ⟨hst, hhs⟩ := hc.resolve_right hend
    obtain hl | he := call_late (E := E) (c := c) (by simp [hst]) (by simp [hst]) hk
    · cases hl with
      | getOutput n =>
        obtain ⟨b, o, he⟩ := getOutput_eq c n
        simp only [Sodchan.call, he]
        exact ⟨.same rfl rfl, hc⟩
      | nextEvent =>
        simp only [Sodchan.call]
        refine ⟨.nextEvent c, Or.inl ⟨(nextEvent_state c).trans hst, ?_⟩⟩
        unfold nextEvent
        split <;> exact hhs
      | channelClose id =>
        have hsilent : Silent c (channelClose E c id).1 := by
          unfold channelClose
          split
          · exact .refl c
          · split
            · exact .refl c
            · rename_i i hi
              dsimp only
              split
              · exact .refl c
              · unfold sendClose
                rw [if_neg fun h => hq.close hst id i rfl hi h.2]
                exact .chFree i
        have hmoves : Moves E ⟨True, True⟩ c (record (.channelClose id) (channelClose E c id)).1 :=
          record_moves rfl (channelClose_moves id)
        exact ⟨.record hsilent, hmoves.drained hc⟩
      | disconnect reason msg => exact absurd rfl (hq.disconnect hst reason msg)
    · rw [he]
      exact ⟨.refl c, hc⟩

theorem disconnect_drained (hc : Coherent c) (reason : UInt32) (msg : Option Bytes)
    (h : (call E c (.disconnect reason msg)).1.appended ≠ c.appended) :
    (call E c (.disconnect reason msg)).1.drained := by
  have hquiet : ∀ r : Ctx Rng SS × Rc, Silent c r.1 →
      (record (.disconnect reason msg) r).1.appended = c.appended :=
    fun r hr => hr.record.appended
  simp only [Sodchan.call] at h ⊢
  obtain he | he | ⟨d, -, hs, hm, -, he⟩ := disconnect_cases E c reason msg
  · exact absurd (hquiet _ (by rw [he]; exact .refl c)) h
  · exact absurd (hquiet _ (by rw [he]; exact .same rfl rfl)) h
  · rw [he]
    have hhs : d.hs = .done := by
      rw [(hm ⟨True, True⟩).overlay]
      exact hc.done (by rcases hs with hs | hs | hs <;> simp [hs])
    unfold record
    split <;> exact Or.inl ⟨rfl, hhs⟩

/-- Once a disconnect has appended its record, nothing is appended and no channel allocated, as
long as no PING and no CHANNEL_OPEN is processed while draining, no open channel is closed, and
neither disconnect nor reset is called again. -/
theorem disconnect_last (hc : Reachable E c) {reason : UInt32} {msg : Option Bytes}
    (h : (call E c (.disconnect reason msg)).1.appended ≠ c.appended) {l : List (Call × Ret)}
    (hr : Run E (fun c k => QuietCall c k ∧ RoundsMeet E (QuietRound E) c k)
      (call E c (.disconnect reason msg)).1 l c') :
    c'.appended = (call E c (.disconnect reason msg)).1.appended ∧
      c'.allocs = (call E c (.disconnect reason msg)).1.allocs := by
  set b := (call E c (.disconnect reason msg)).1 with hb
  have hd : b.drained := disconnect_drained hc.coherent reason msg h
  have hfin : Silent b c' ∧ c'.drained := by
    refine hr.preserves_rounds (P := fun d => Silent b d ∧ d.drained) ?_ ?_ ?_ ?_ ⟨.refl b, hd⟩
    · exact fun d _ hg => absurd rfl hg.reset
    · intro d k hd hg hk
      obtain ⟨h1, h2⟩ := call_drained (E := E) hd.2 hg hk
      exact ⟨hd.1.trans h1, h2⟩
    · exact fun d data hd _ => ⟨hd.1.trans (.same rfl rfl), hd.2⟩
    · intro d hd hq
      obtain ⟨h1, h2⟩ := processOne_drained hd.2 hq
      exact ⟨hd.1.trans h1, h2⟩
  exact ⟨hfin.1.appended, hfin.1.allocs⟩

/-- DATA, credit and a CLOSE for a draining server, and what its host fetches. -/
def plainDrain : List Call :=
  [.feedInput (plainRecord plainByte), .feedInput (plainRecord (plainWindow 1)), .getOutput 4096,
    .nextEvent, .feedInput (plainRecord [pduChannelClose, 0, 0, 0, 0]), .channelClose 0]

theorem disconnect_last_plain :
    Event.channelData 0 [0] ∈
      (play plainEnv (call plainEnv plainServerOpen (.disconnect 0 none)).1 plainDrain).emitted ∧
    (play plainEnv (call plainEnv plainServerOpen (.disconnect 0 none)).1 plainDrain).appended =
      (call plainEnv plainServerOpen (.disconnect 0 none)).1.appended ∧
    (play plainEnv (call plainEnv plainServerOpen (.disconnect 0 none)).1 plainDrain).allocs =
      (call plainEnv plainServerOpen (.disconnect 0 none)).1.allocs := by
  refine ⟨by decide +kernel,
    disconnect_last reachable_plainServerOpen (by decide +kernel) (.of_observedB ?_)⟩
  decide +kernel

/-- A draining session answers a PING. -/
theorem ping_answered_after_disconnect :
    ¬ ∀ (c c' : Ctx Unit Unit) (reason : UInt32) (msg : Option Bytes) (l : List (Call × Ret)),
      Reachable plainEnv c →
      (call plainEnv c (.disconnect reason msg)).1.appended ≠ c.appended →
      Run plainEnv (fun _ k => k ≠ .reset) (call plainEnv c (.disconnect reason msg)).1 l c' →
      c'.appended = (call plainEnv c (.disconnect reason msg)).1.appended ∧
        c'.allocs = (call plainEnv c (.disconnect reason msg)).1.allocs := by
  intro h
  have hg : ∀ k ∈ [Call.feedInput (plainRecord [pduPing, 0, 0, 0, 0])], ∀ _ : Ctx Unit Unit,
      k ≠ .reset := by
    intro k hk _
    rw [List.mem_singleton.mp hk]
    rintro ⟨⟩
  have hlast := (h plainServerReady _ 0 none _ reachable_plainServerReady (by decide +kernel)
    (run_play hg _)).1
  revert hlast
  decide +kernel

end Sodchan
