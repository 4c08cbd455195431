import Mathlib.Algebra.BigOperators.Group.List.Basic
import RgbStd.Lib.Tables
/-!
# Totals

A list is its distinct elements followed by its repeats, and so is the total of a list. A map built
by writing the elements of a list has the distinct ones as its keys. Where the elements have different keys, a total
is what is at some of the keys and what is left.

`Stands` relates a table of counters to the totals they count: a key without a counter stands for
zero.
-/
namespace Totals
open Tables

variable {α K V C M : Type}

section
variable [DecidableEq α]

/-- The elements that come again. -/
def repeats : List α → List α
  | [] => []
  | a :: as => if a ∈ as then a :: repeats as else repeats as

theorem perm_dedup_append_repeats (as : List α) : as.Perm (as.dedup ++ repeats as) := by
  induction as with
  | nil => exact List.Perm.refl _
  | cons a as ih =>
    by_cases h : a ∈ as
    · rw [List.dedup_cons_of_mem h, repeats, if_pos h]
      exact (ih.cons a).trans List.perm_middle.symm
    · rw [List.dedup_cons_of_notMem h, repeats, if_neg h]
      exact ih.cons a

/-- The total of a list is that of its distinct elements and that of its repeats. -/
theorem sum_dedup_add_repeats [AddCommMonoid M] (f : α → M) (as : List α) :
    (as.map f).sum = (as.dedup.map f).sum + ((repeats as).map f).sum := by
  rw [((perm_dedup_append_repeats as).map f).sum_eq, List.map_append, List.sum_append]

end

variable [DecidableEq K]

theorem nodup_keys_foldl (f : α → K) (g : α → V) (as : List α) {t : Table K V} (h : (keys t).Nodup) :
    (keys (as.foldl (fun t a => upsert t (f a) (g a)) t)).Nodup := by
  induction as generalizing t with
  | nil => exact h
  | cons a as ih => exact ih (nodup_upsert h _ _)

/-- The keys of a map are the distinct ones of those written. -/
theorem keys_foldl_perm (f : α → K) (g : α → V) (as : List α) :
    (keys (as.foldl (fun t a => upsert t (f a) (g a)) [])).Perm (as.map f).dedup := by
  have hnd : (keys (as.foldl (fun t a => upsert t (f a) (g a)) [])).Nodup := nodup_keys_foldl f g as (by simp [keys])
  refine (List.perm_ext_iff_of_nodup hnd (List.nodup_dedup _)).2 fun k => ?_
  rw [mem_keys_foldl_upsert, List.mem_dedup]
  simp [keys]

/-- The total of a list whose elements have different keys: what is left when keys are taken out, and what was at
them. -/
theorem sum_taken [AddCommMonoid M] (f : α → K) (g : α → M) {as : List α} (h : (as.map f).Nodup) {ks : List K}
    (hks : ks.Nodup) (hall : ∀ k ∈ ks, k ∈ as.map f) {v : K → M} (hv : ∀ a ∈ as, f a ∈ ks → v (f a) = g a) :
    (as.map g).sum = ((as.filter (f · ∉ ks)).map g).sum + (ks.map v).sum := by
  have hperm : ks.Perm ((as.filter (f · ∈ ks)).map f) := by
    refine (List.perm_ext_iff_of_nodup hks (h.sublist (List.filter_sublist.map f))).2 fun k => ?_
    simp only [List.mem_map, List.mem_filter, decide_eq_true_eq]
    constructor
    · intro hk
      obtain ⟨a, ha, rfl⟩ := List.mem_map.1 (hall k hk)
      exact ⟨a, ⟨ha, hk⟩, rfl⟩
    · rintro ⟨a, ⟨-, hk⟩, rfl⟩
      exact hk
  have hat : (ks.map v).sum = ((as.filter (f · ∈ ks)).map g).sum := by
    rw [(hperm.map v).sum_eq, List.map_map]
    refine congrArg List.sum (List.map_congr_left fun a ha => ?_)
    obtain ⟨ha, hk⟩ := List.mem_filter.1 ha
    exact hv a ha (of_decide_eq_true hk)
  have hsplit := List.filter_append_perm (fun a => decide (f a ∈ ks)) as
  rw [← (hsplit.map g).sum_eq, List.map_append, List.sum_append, hat, add_comm]
  simp only [decide_not]

/-! ## Counters -/

variable [AddCommMonoid M]

/-- The counter of a key counts the total at the key; where there is none the total is zero. -/
def Stands (R : K → C → M → Prop) (t : Table K C) (total : K → M) : Prop :=
  ∀ k, (∀ c, get t k = some c → R k c (total k)) ∧ (get t k = none → total k = 0)

theorem stands_nil (R : K → C → M → Prop) : Stands R [] fun _ => 0 :=
  fun _ => ⟨fun c h => by simp at h, fun _ => rfl⟩

theorem Stands.upsert {R : K → C → M → Prop} {t : Table K C} {total total' : K → M} (h : Stands R t total)
    {k : K} {c : C} (hk : R k c (total' k)) (hne : ∀ k', k' ≠ k → total' k' = total k') :
    Stands R (upsert t k c) total' := by
  intro k'
  by_cases he : k' = k
  · subst he
    rw [get_upsert_self]
    exact ⟨fun c' hc' => by cases hc'; exact hk, fun hn => by cases hn⟩
  · rw [get_upsert_ne t c he, hne k' he]
    exact h k'

/-- If every counter is at zero, so is every total. -/
theorem Stands.eq_zero {R : K → C → M → Prop} {t : Table K C} {total : K → M} (h : Stands R t total)
    (hz : ∀ k c m, (k, c) ∈ t → R k c m → m = 0) (k : K) : total k = 0 := by
  cases hg : get t k with
  | none => exact (h k).2 hg
  | some c => exact hz k c _ (get_mem hg) ((h k).1 c hg)

end Totals
