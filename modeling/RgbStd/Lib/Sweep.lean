import RgbStd.Lib.Decode
/-!
# Steps that may fail, over a list

`foldlM` stops at the first element its step refuses. `sweep` leaves such elements out and goes on.

* `foldlM_eq_error`: the element a fold stops at, and its error.
* `mem_sweep`: an element is taken if the step accepts it after those before it.
* `foldlM_sweep`: over the elements taken the step never fails.
* `foldlM_perm`: where the order of two steps does not matter, no order does.
-/
namespace Sweep
open Decode

variable {K A E : Type}

/-- A fold fails where its step does, after the elements before it. -/
theorem foldlM_eq_error {step : K → A → Except E K} {as : List A} {k : K} {e : E} : as.foldlM step k = .error e ↔
    ∃ before a after k', as = before ++ a :: after ∧ before.foldlM step k = .ok k' ∧ step k' a = .error e := by
  induction as generalizing k with
  | nil => exact ⟨fun h => (by cases h), fun ⟨before, a, after, _, h, _⟩ => (by simp at h)⟩
  | cons b as ih =>
    rw [List.foldlM_cons, except_bind_eq_error]
    constructor
    · rintro (h | ⟨k₁, hk₁, h⟩)
      · exact ⟨[], b, as, k, rfl, rfl, h⟩
      · obtain ⟨before, a, after, k', rfl, hk', h⟩ := ih.1 h
        exact ⟨b :: before, a, after, k', rfl, except_bind_eq_ok.2 ⟨k₁, hk₁, hk'⟩, h⟩
    · rintro ⟨before, a, after, k', he, hk', h⟩
      cases before with
      | nil =>
        cases he
        cases hk'
        exact Or.inl h
      | cons x before =>
        cases he
        obtain ⟨k₁, hk₁, hk'⟩ := except_bind_eq_ok.1 hk'
        exact Or.inr ⟨k₁, hk₁, ih.2 ⟨before, a, after, k', rfl, hk', h⟩⟩

/-- The elements the step accepts, one after another, and where they lead. -/
def sweep (step : K → A → Except E K) : List A → K → List A × K
  | [], k => ([], k)
  | a :: as, k => match step k a with
    | .error _ => sweep step as k
    | .ok k =>
      let (taken, k) := sweep step as k
      (a :: taken, k)

variable {step : K → A → Except E K}

theorem mem_sweep {a : A} {as : List A} {k : K} :
    a ∈ (sweep step as k).1 ↔
      ∃ before after, as = before ++ a :: after ∧ ∃ k', step (sweep step before k).2 a = .ok k' := by
  induction as generalizing k with
  | nil => simp [sweep]
  | cons b as ih =>
    cases hb : step k b with
    | error e =>
      simp only [sweep, hb, ih]
      constructor
      · rintro ⟨before, after, rfl, k', hk'⟩
        exact ⟨b :: before, after, rfl, k', by simpa only [sweep, hb] using hk'⟩
      · rintro ⟨before, after, he, k', hk'⟩
        cases before with
        | nil =>
          cases he
          cases hb.symm.trans hk'
        | cons x before =>
          cases he
          exact ⟨before, after, rfl, k', by simpa only [sweep, hb] using hk'⟩
    | ok k₁ =>
      simp only [sweep, hb, List.mem_cons, ih]
      constructor
      · rintro (rfl | ⟨before, after, rfl, k', hk'⟩)
        · exact ⟨[], as, rfl, k₁, hb⟩
        · exact ⟨b :: before, after, rfl, k', by simpa only [sweep, hb] using hk'⟩
      · rintro ⟨before, after, he, k', hk'⟩
        cases before with
        | nil =>
          cases he
          exact Or.inl rfl
        | cons x before =>
          cases he
          exact Or.inr ⟨before, after, rfl, k', by simpa only [sweep, hb] using hk'⟩

theorem sweep_sublist (as : List A) (k : K) : (sweep step as k).1.Sublist as := by
  induction as generalizing k with
  | nil => exact List.Sublist.refl _
  | cons a as ih =>
    cases ha : step k a with
    | error e =>
      simp only [sweep, ha]
      exact (ih k).cons a
    | ok k' =>
      simp only [sweep, ha]
      exact (ih k').cons_cons a

theorem foldlM_sweep (as : List A) (k : K) : (sweep step as k).1.foldlM step k = .ok (sweep step as k).2 := by
  induction as generalizing k with
  | nil => rfl
  | cons a as ih =>
    cases ha : step k a with
    | error e =>
      simp only [sweep, ha]
      exact ih k
    | ok k' =>
      simp only [sweep, ha, List.foldlM_cons]
      exact ih k'

/-- Two steps that are made one after the other can be made the other way round. -/
def Swaps (step : K → A → Except E K) : Prop :=
  ∀ k a b k₁ k₂, step k a = .ok k₁ → step k₁ b = .ok k₂ → ∃ k₁', step k b = .ok k₁' ∧ step k₁' a = .ok k₂

theorem foldlM_perm (hs : Swaps step) {as as' : List A} (hp : as.Perm as') {k k' : K}
    (h : as.foldlM step k = .ok k') : as'.foldlM step k = .ok k' := by
  induction hp generalizing k k' with
  | nil => exact h
  | cons a _ ih =>
    rw [List.foldlM_cons] at h ⊢
    obtain ⟨k₁, h₁, h⟩ := except_bind_eq_ok.1 h
    exact except_bind_eq_ok.2 ⟨k₁, h₁, ih h⟩
  | swap a b as =>
    simp only [List.foldlM_cons] at h ⊢
    obtain ⟨k₁, h₁, h⟩ := except_bind_eq_ok.1 h
    obtain ⟨k₂, h₂, h⟩ := except_bind_eq_ok.1 h
    obtain ⟨k₁', h₁', h₂'⟩ := hs _ _ _ _ _ h₁ h₂
    exact except_bind_eq_ok.2 ⟨k₁', h₁', except_bind_eq_ok.2 ⟨k₂, h₂', h⟩⟩
  | trans _ _ ih₁ ih₂ => exact ih₂ (ih₁ h)

end Sweep
