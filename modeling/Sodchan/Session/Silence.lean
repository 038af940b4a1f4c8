import Sodchan.Session.Lifecycle
import Sodchan.Model.History
import Sodchan.Model.Primitives

/-! # Silence

A session that is over, and one that only drains, refuse nearly every call:
nothing is appended to the output, and no id is given out.
-/

namespace Sodchan

open ByteString

variable {Rng SS : Type} {E : Env Rng SS} {c c' c'' : Ctx Rng SS}

/-- Nothing was appended to the output and no id was given out. -/
structure Silent (c c' : Ctx Rng SS) : Prop where
  appended : c'.appended = c.appended
  allocs : c'.allocs = c.allocs

namespace Silent

theorem refl (c : Ctx Rng SS) : Silent c c := ⟨rfl, rfl⟩

theorem trans (h : Silent c c') (h' : Silent c' c'') : Silent c c'' :=
  ⟨h'.appended.trans h.appended, h'.allocs.trans h.allocs⟩

theorem same (hh : c'.hist = c.hist) (ha : c'.allocs = c.allocs) : Silent c c' :=
  ⟨by rw [Ctx.appended, hh]; rfl, ha⟩

theorem log {o : Occ} (ho : o.appended? = none) : Silent c (c.log o) := by
  refine ⟨?_, rfl⟩
  unfold Ctx.appended Ctx.log
  rw [List.filterMap_append]
  simp [ho]

theorem emit (ev : Event) : Silent c (emit c ev) :=
  ⟨emit_filterMap (fun _ => rfl) (fun _ => rfl) c ev, by rw [emit_eq]⟩

theorem setError (code : Rc) (msg : String) : Silent c (setError c code msg) := by
  have h : Silent c { c with
    error := if code = .ok then .protocol else code, state := .error, errorMsg := msg } :=
    same rfl rfl
  exact h.trans (emit _)

theorem setCh (i : Fin maxChannelSlots) (ch : Channel) : Silent c (setCh c i ch) := same rfl rfl

theorem chFree (i : Fin maxChannelSlots) : Silent c (chFree c i) := by
  unfold Sodchan.chFree
  split
  · exact refl c
  · exact same rfl rfl

theorem record {k : Call} {r : Ctx Rng SS × Rc} (h : Silent c r.1) :
    Silent c (Sodchan.record k r).1 := by
  unfold Sodchan.record
  split
  · exact h.trans (log rfl)
  · exact h

theorem nextEvent (c : Ctx Rng SS) : Silent c (nextEvent c).1 := by
  unfold Sodchan.nextEvent
  split
  · exact refl c
  · rename_i ev r _
    have h : Silent c (c.log (.returned ev)) := log rfl
    exact ⟨h.appended, rfl⟩

theorem respected : Respected E False (@Silent Rng SS) where
  refl := refl
  trans := trans
  emit _ ev := emit ev
  error _ code msg _ := setError code msg
  noChannel _ _ := log rfl
  slot _ i ch := setCh i ch
  free _ i := chFree i
  close _ := same rfl rfl
  send := False.elim
  alloc := False.elim

end Silent

theorem nextEvent_state (c : Ctx Rng SS) : (nextEvent c).1.state = c.state := by
  unfold nextEvent
  split <;> rfl

theorem authDecideEx_eq_self (h : c.state ≠ .auth) (accept : Bool) (claims : Arg) :
    ∃ rc, rc ≠ .ok ∧ authDecideEx E c accept claims = (c, rc) := by
  unfold authDecideEx
  split_ifs
  · exact ⟨_, by decide, rfl⟩
  · exact ⟨_, by decide, rfl⟩
  · exact ⟨_, by decide, rfl⟩

/-- The calls that do something there. -/
inductive Late (c : Ctx Rng SS) : Call → Prop where
  | getOutput (n : ℕ) : Late c (.getOutput n)
  | nextEvent : Late c .nextEvent
  | channelClose (id : UInt32) : c.state = .draining → Late c (.channelClose id)
  | disconnect (reason : UInt32) (msg : Option Bytes) : Late c (.disconnect reason msg)

theorem record_refused {k : Call} {rc : Rc} (hrc : rc ≠ .ok) : (record k (c, rc)).1 = c := by
  unfold record
  rw [if_neg hrc]

theorem call_unready (hr : c.state ≠ .ready) {k : Call} (hk : k.isPlain) :
    Late c k ∨ k.isDecide ∨ (call E c k).1 = c := by
  cases k with
  | feedInput | reset => cases hk
  | getOutput n => exact Or.inl (.getOutput n)
  | nextEvent => exact Or.inl .nextEvent
  | disconnect reason msg => exact Or.inl (.disconnect reason msg)
  | authDecide | authDecideEx => exact Or.inr (Or.inl rfl)
  | channelOpen name =>
    have he : ∃ rc, rc ≠ .ok ∧ channelOpen E c name = (c, rc, none) := by
      unfold channelOpen
      split
      · exact ⟨_, by decide, rfl⟩
      · rw [if_pos hr]
        split
        · exact ⟨_, by decide, rfl⟩
        · exact ⟨_, by decide, rfl⟩
    obtain ⟨rc, hrc, he⟩ := he
    refine Or.inr (Or.inr ?_)
    simp only [Sodchan.call, he]
    exact record_refused hrc
  | channelAccept id accept =>
    refine Or.inr (Or.inr ?_)
    simp only [Sodchan.call, channelAccept, if_pos hr]
    exact record_refused (by decide)
  | channelSend id data memOk =>
    refine Or.inr (Or.inr ?_)
    simp only [Sodchan.call, channelSend, if_pos hr]
    split
    · exact record_refused (by decide)
    · exact record_refused (by decide)
  | channelEof id =>
    refine Or.inr (Or.inr ?_)
    simp only [Sodchan.call, channelEof, if_pos hr]
    exact record_refused (by decide)
  | channelWindowAdjust id add =>
    refine Or.inr (Or.inr ?_)
    simp only [Sodchan.call, channelWindowAdjust, if_pos hr]
    split
    · exact record_refused (by decide)
    · exact record_refused (by decide)
  | channelClose id =>
    by_cases hd : c.state = .draining
    · exact Or.inl (.channelClose id hd)
    · refine Or.inr (Or.inr ?_)
      simp only [Sodchan.call, channelClose, if_pos (⟨hr, hd⟩ : _ ∧ _)]
      exact record_refused (by decide)

theorem call_late (hr : c.state ≠ .ready) (ha : c.state ≠ .auth) {k : Call} (hk : k.isPlain) :
    Late c k ∨ (call E c k).1 = c := by
  obtain hl | hd | he := call_unready (E := E) hr hk
  · exact Or.inl hl
  · refine Or.inr ?_
    cases k with
    | authDecide accept =>
      obtain ⟨rc, hrc, h⟩ := authDecideEx_eq_self (E := E) ha accept (.null 0)
      rw [Sodchan.call, authDecide, h]
      exact record_refused hrc
    | authDecideEx accept claims =>
      obtain ⟨rc, hrc, h⟩ := authDecideEx_eq_self (E := E) ha accept claims
      rw [Sodchan.call, h]
      exact record_refused hrc
    | _ => cases hd
  · exact Or.inr he

theorem call_ended (h : c.ended) {k : Call} (hk : k.isPlain) :
    Silent c (call E c k).1 ∧
      ((call E c k).1.state = c.state ∨ (call E c k).1.state = .closed) := by
  have hr : c.state ≠ .ready := by rcases h with h | h <;> simp [h]
  have ha : c.state ≠ .auth := by rcases h with h | h <;> simp [h]
  have hd : c.state ≠ .draining := by rcases h with h | h <;> simp [h]
  obtain hl | he := call_late (E := E) hr ha hk
  · cases hl with
    | getOutput n =>
      obtain ⟨b, o, he⟩ := getOutput_eq c n
      simp only [Sodchan.call, he]
      exact ⟨.same rfl rfl, Or.inl trivial⟩
    | nextEvent =>
      simp only [Sodchan.call]
      exact ⟨.nextEvent c, Or.inl (nextEvent_state c)⟩
    | channelClose id hs => exact absurd hs hd
    | disconnect reason msg =>
      have hstate : ∀ r : Ctx Rng SS × Rc,
          (record (.disconnect reason msg) r).1.state = r.1.state := by
        intro r
        unfold record
        split <;> rfl
      simp only [Sodchan.call, hstate]
      obtain he | he | ⟨d, -, hs, -⟩ := disconnect_cases E c reason msg
      · rw [he]
        exact ⟨.record (.refl c), Or.inl rfl⟩
      · rw [he]
        exact ⟨.record (.same rfl rfl), Or.inr rfl⟩
      · rcases hs with hs | hs | hs
        · exact absurd hs hr
        · exact absurd hs ha
        · exact absurd hs hd
  · rw [he]
    exact ⟨.refl c, Or.inl rfl⟩

end Sodchan
