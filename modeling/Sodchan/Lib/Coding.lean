import Mathlib.Data.List.Induction

/-! # Stateful coders

An encoder and a decoder that both carry a state. A decoder that can follow
every run of the encoder finds, in whatever part of the codes has reached it,
what was encoded.
-/

/-- An encoder with states `S` and a decoder with states `T`, from symbols `A` to codes `B`. -/
structure Coder (S T A B : Type*) where
  encode : S → A → Option (S × B)
  decode : T → B → Option (T × A)

namespace Coder

variable {S T A B : Type*} {k : Coder S T A B} {s s' : S} {t t' : T} {l m : List (A × B)}

/-- A run of the encoder, with the symbols and their codes. -/
inductive Encodes (k : Coder S T A B) (s : S) : List (A × B) → S → Prop where
  | nil : Encodes k s [] s
  | snoc {l : List (A × B)} {u u' : S} {a : A} {b : B} : Encodes k s l u →
      k.encode u a = some (u', b) → Encodes k s (l ++ [(a, b)]) u'

/-- A run of the decoder. -/
inductive Decodes (k : Coder S T A B) (t : T) : List (A × B) → T → Prop where
  | nil : Decodes k t [] t
  | snoc {l : List (A × B)} {u u' : T} {a : A} {b : B} : Decodes k t l u →
      k.decode u b = some (u', a) → Decodes k t (l ++ [(a, b)]) u'

/-- The decoder can follow every run of the encoder. -/
def Faithful (k : Coder S T A B) (s : S) (t : T) : Prop :=
  ∀ l s', k.Encodes s l s' → ∃ t', k.Decodes t l t'

theorem Decodes.cases_last (h : Decodes k t l t') : l = [] ∧ t' = t ∨
    ∃ m v x, l = m ++ [x] ∧ Decodes k t m v ∧ k.decode v x.2 = some (t', x.1) := by
  cases h with
  | nil => exact Or.inl ⟨rfl, rfl⟩
  | snoc h he => exact Or.inr ⟨_, _, _, rfl, h, he⟩

theorem Decodes.eq_nil (h : Decodes k t [] t') : t' = t := by
  obtain ⟨-, hu⟩ | ⟨m, v, y, hl, -⟩ := h.cases_last
  · exact hu
  · simp at hl

theorem Decodes.last {x : A × B} (h : Decodes k t (l ++ [x]) t') :
    ∃ v, Decodes k t l v ∧ k.decode v x.2 = some (t', x.1) := by
  obtain ⟨hl, -⟩ | ⟨m, v, y, hl, hm, he⟩ := h.cases_last
  · simp at hl
  · obtain ⟨rfl, hy⟩ := List.append_inj' hl rfl
    obtain rfl : x = y := by simpa using hy
    exact ⟨v, hm, he⟩

theorem Decodes.split (h : Decodes k t (l ++ m) t') :
    ∃ v, Decodes k t l v ∧ Decodes k v m t' := by
  induction m using List.reverseRecOn generalizing t' with
  | nil => exact ⟨t', by rwa [List.append_nil] at h, .nil⟩
  | append_singleton m x ih =>
    rw [← List.append_assoc] at h
    obtain ⟨w, hw, he⟩ := h.last
    obtain ⟨v, hv, hm⟩ := ih hw
    exact ⟨v, hv, hm.snoc he⟩

theorem Decodes.head {x : A × B} (h : Decodes k t (x :: l) t') :
    ∃ v, k.decode t x.2 = some (v, x.1) ∧ Decodes k v l t' := by
  obtain ⟨v, hv, hl⟩ := Decodes.split (l := [x]) h
  obtain ⟨w, hw, he⟩ := Decodes.last (l := []) hv
  rw [hw.eq_nil] at he
  exact ⟨v, he, hl⟩

/-- The codes alone determine a run of the decoder. -/
theorem Decodes.unique {u v : T} (h : Decodes k t l u) (h' : Decodes k t m v)
    (hc : m.map Prod.snd = l.map Prod.snd) : m = l ∧ v = u := by
  induction l generalizing t m with
  | nil =>
    obtain rfl : m = [] := by simpa using hc
    exact ⟨rfl, h'.eq_nil.trans h.eq_nil.symm⟩
  | cons x l ih =>
    obtain _ | ⟨y, m⟩ := m
    · cases hc
    obtain ⟨hxy, hc⟩ := List.cons.inj hc
    obtain ⟨w, hw, hl⟩ := h.head
    obtain ⟨w', hw', hm⟩ := h'.head
    rw [hxy, hw] at hw'
    obtain ⟨rfl, ha⟩ := Prod.mk.inj (Option.some.inj hw')
    obtain ⟨rfl, rfl⟩ := ih hl hm hc
    exact ⟨by rw [Prod.ext ha.symm hxy], rfl⟩

/-- What was decoded of the first codes is what was encoded. -/
theorem Faithful.decodes (hf : Faithful k s t) (he : Encodes k s l s') (hd : Decodes k t m t')
    (hc : m.map Prod.snd <+: l.map Prod.snd) : m <+: l := by
  obtain ⟨u, hu⟩ := hf l s' he
  rw [← List.take_append_drop m.length l] at hu
  obtain ⟨v, hv, -⟩ := hu.split
  have hm : m.map Prod.snd = (l.take m.length).map Prod.snd := by
    rw [List.map_take]
    simpa using List.prefix_iff_eq_take.mp hc
  rw [(hv.unique hd hm).1]
  exact List.take_prefix _ _

theorem Faithful.next {a : A} {b : B} (hf : Faithful k s t)
    (he : Encodes k s (m ++ (a, b) :: l) s') (hd : Decodes k t m t') :
    ∃ u, k.decode t' b = some (u, a) := by
  obtain ⟨u, hu⟩ := hf _ s' he
  obtain ⟨v, hv, hr⟩ := hu.split
  obtain ⟨-, rfl⟩ := hv.unique hd rfl
  obtain ⟨w, hw, -⟩ := hr.head
  exact ⟨w, hw⟩

end Coder
