import Mathlib.Data.Set.Basic
/-!
# Validity propagated along a history

`anc o` is the history of `o`, `o` itself included. A node is *live* when its whole history
has a local property `own`. A store that does not keep `own` itself, but only follows its
changes, invalidates what lost it together with all descendants (`down R`) and restores what
gained it together with all descendants (`down F`): `settle`.

`mem_settle_iff` says exactly when that agrees with liveness: restoring a subtree is only
right where nothing else in the history is missing. `mem_settle_change` says of any node how it follows
a change.
-/
namespace Propagate

variable {O : Type*} (anc : O → Set O)

/-- The nodes of `S` and everything that descends from one of them. -/
def down (S : Set O) : Set O := {o | ∃ a ∈ anc o, a ∈ S}

/-- The nodes whose whole history has the property `own`. -/
def live (own : Set O) : Set O := {o | anc o ⊆ own}

/-- Invalidate `R` with its descendants, then restore `F` with its descendants. -/
def settle (V R F : Set O) : Set O := (V \ down anc R) ∪ down anc F

variable {anc}

theorem mem_down {S : Set O} {o : O} : o ∈ down anc S ↔ ∃ a ∈ anc o, a ∈ S := Iff.rfl

theorem mem_live {own : Set O} {o : O} : o ∈ live anc own ↔ ∀ a ∈ anc o, a ∈ own := Iff.rfl

theorem mem_settle {V R F : Set O} {o : O} :
    o ∈ settle anc V R F ↔ (o ∈ V ∧ o ∉ down anc R) ∨ o ∈ down anc F := Iff.rfl

/-- **Following changes is exact** at a node that was live-correct before if and only if the
node is live after whenever something of its history was restored. -/
theorem mem_settle_iff {V own next : Set O} {o : O} (hV : o ∈ V ↔ o ∈ live anc own) :
    (o ∈ settle anc V (own \ next) (next \ own) ↔ o ∈ live anc next) ↔
      (o ∈ down anc (next \ own) → o ∈ live anc next) := by
  constructor
  · intro h hd
    exact h.1 (Or.inr hd)
  · intro h
    constructor
    · rintro (⟨hv, hr⟩ | hf)
      · intro a ha
        have hown : a ∈ own := hV.1 hv ha
        by_contra hn
        exact hr ⟨a, ha, hown, hn⟩
      · exact h hf
    · intro hl
      by_cases hd : o ∈ down anc (next \ own)
      · exact Or.inr hd
      · -- nothing of the history was restored, so the history was live before and lost nothing
        refine Or.inl ⟨hV.2 fun a ha => ?_, fun ⟨a, ha, _, hn⟩ => hn (hl ha)⟩
        by_contra hn
        exact hd ⟨a, ha, hl ha, hn⟩

/-- A node follows the change of `own` to `next` in its history. -/
theorem mem_settle_change {V own next : Set O} {o : O} : o ∈ settle anc V (own \ next) (next \ own) ↔
    (o ∈ V ∧ ∀ a ∈ anc o, a ∈ own → a ∈ next) ∨ ∃ a ∈ anc o, a ∉ own ∧ a ∈ next := by
  have hkept : o ∉ down anc (own \ next) ↔ ∀ a ∈ anc o, a ∈ own → a ∈ next := by
    simp [mem_down]
  have hgot : o ∈ down anc (next \ own) ↔ ∃ a ∈ anc o, a ∉ own ∧ a ∈ next := by
    simp [mem_down, and_comm]
  rw [mem_settle, hkept, hgot]

end Propagate
