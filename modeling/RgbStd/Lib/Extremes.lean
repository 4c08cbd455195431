import Mathlib.Order.Lattice
import Mathlib.Data.List.Basic
/-!
# Extremes of a list by a key

Elements are compared by a key, which different elements may share: `Greatest` and `Least` name an
element of the list. A fold that keeps one of two elements at a time ends at an extreme, whichever
it keeps of two with equal keys.
-/
namespace Extremes

variable {α κ : Type} [LinearOrder κ] (key : α → κ)

def Greatest (a : α) (as : List α) : Prop := a ∈ as ∧ ∀ x ∈ as, key x ≤ key a

def Least (a : α) (as : List α) : Prop := a ∈ as ∧ ∀ x ∈ as, key a ≤ key x

variable {key}

theorem greatest_singleton (a : α) : Greatest key a [a] := by simp [Greatest]

/-- Elements in another order have the same extremes. -/
theorem Least.perm {a : α} {as bs : List α} (h : Least key a as) (hp : as.Perm bs) : Least key a bs :=
  ⟨hp.mem_iff.1 h.1, fun x hx => h.2 x (hp.mem_iff.2 hx)⟩

/-- The step of a fold: the greater of the two is kept. -/
theorem Greatest.of_pair {a b c : α} {as : List α} (hc : Greatest key c [a, b]) {d : α} (hd : Greatest key d (c :: as)) :
    Greatest key d (a :: b :: as) := by
  obtain ⟨hm, hc⟩ := hc
  obtain ⟨hm', hd⟩ := hd
  have hcd : key c ≤ key d := hd c List.mem_cons_self
  refine ⟨?_, fun x hx => ?_⟩
  · rcases List.mem_cons.1 hm' with rfl | h
    · rcases List.mem_pair.1 hm with rfl | rfl <;> simp
    · simp [h]
  · rcases List.mem_cons.1 hx with rfl | hx
    · exact (hc x (by simp)).trans hcd
    · rcases List.mem_cons.1 hx with rfl | hx
      · exact (hc x (by simp)).trans hcd
      · exact hd x (List.mem_cons_of_mem _ hx)

/-- **A fold that keeps the greater** of two ends at the greatest. -/
theorem greatest_foldl {pick : α → α → α} (hp : ∀ a b, Greatest key (pick a b) [a, b]) (as : List α) (a : α) :
    Greatest key (as.foldl pick a) (a :: as) := by
  induction as generalizing a with
  | nil => exact greatest_singleton a
  | cons b as ih => exact (hp a b).of_pair (ih (pick a b))

/-- **A fold that keeps the lesser** of two ends at the least. -/
theorem least_foldl {pick : α → α → α} (hp : ∀ a b, Least key (pick a b) [a, b]) (as : List α) (a : α) :
    Least key (as.foldl pick a) (a :: as) := by
  have hd : ∀ a b, Greatest (fun a => OrderDual.toDual (key a)) (pick a b) [a, b] := hp
  exact greatest_foldl hd as a

end Extremes
