import Mathlib.Data.List.Basic
import Mathlib.Data.List.Infix
import Mathlib.Data.List.Nodup
import Mathlib.Data.List.Dedup
import Mathlib.Data.List.Sort
/-!
# Keyed tables as association lists

A table is the list of its entries in insertion order. These are the ways of writing one that
storage libraries and collections use:

| here | behaves as |
| --- | --- |
| `upsert`     | a hash or index map: replace in place, else append |
| `insertOnce` | an append-only map: an equal value is a no-op, a different one is refused |
| `push`       | a one-to-many index: a pair is recorded once |
| `erase`      | the removal of a key from any of them |
| `UniqueMap`, `SmallMap` | an ordered map: keys are distinct; at most 65535 of them |
| `numbered`   | a map from positions, cut to 16 bits, to what is found there |

`squeeze` is the general fact behind every "nothing was written" argument: tables that only
grow and end where they began never changed on the way.
-/
namespace Tables

variable {K V : Type} [DecidableEq K]

abbrev Table (K V : Type) := List (K × V)

def get (t : Table K V) (k : K) : Option V := t.lookup k

def has (t : Table K V) (k : K) : Bool := (get t k).isSome

def keys (t : Table K V) : List K := t.map Prod.fst

@[simp] theorem get_nil (k : K) : get ([] : Table K V) k = none := rfl

theorem get_cons (k k' : K) (v : V) (t : Table K V) :
    get ((k', v) :: t) k = if k = k' then some v else get t k := by
  by_cases h : k = k'
  · simp [get, h]
  · have hb : (k == k') = false := by simpa using h
    simp [get, List.lookup_cons, h, hb]

theorem get_append (t u : Table K V) (k : K) : get (t ++ u) k = (get t k).or (get u k) :=
  List.lookup_append

theorem has_iff {t : Table K V} {k : K} : has t k = true ↔ ∃ v, get t k = some v :=
  Option.isSome_iff_exists

theorem has_false_iff {t : Table K V} {k : K} : has t k = false ↔ get t k = none := by
  simp [has]

theorem get_mem {t : Table K V} {k : K} {v : V} (h : get t k = some v) : (k, v) ∈ t := by
  induction t with
  | nil => simp at h
  | cons e t ih =>
    obtain ⟨k', v'⟩ := e
    rw [get_cons] at h
    split at h
    · rename_i hk
      cases h
      exact hk ▸ List.mem_cons_self
    · exact List.mem_cons_of_mem _ (ih h)

theorem has_iff_mem_keys {t : Table K V} {k : K} : has t k = true ↔ k ∈ keys t := by
  induction t with
  | nil => simp [has, keys]
  | cons e t ih =>
    obtain ⟨k', v⟩ := e
    simp only [has, keys, get_cons, List.map_cons, List.mem_cons] at ih ⊢
    by_cases h : k = k' <;> simp [h, ih]

theorem get_eq_of_mem {t : Table K V} (hk : (keys t).Nodup) {k : K} {v : V} (h : (k, v) ∈ t) :
    get t k = some v := by
  induction t with
  | nil => simp at h
  | cons e t ih =>
    obtain ⟨k', v'⟩ := e
    simp only [keys, List.map_cons, List.nodup_cons] at hk
    rw [get_cons]
    rcases List.mem_cons.1 h with he | hm
    · cases he; simp
    · have hne : k ≠ k' := fun e => hk.1 (List.mem_map.2 ⟨(k, v), hm, e⟩)
      simp only [hne, if_false]
      exact ih hk.2 hm

theorem get_none_of_notMem {t : Table K V} {k : K} (h : k ∉ keys t) : get t k = none := by
  rw [← has_false_iff, Bool.eq_false_iff]
  exact fun hh => h (has_iff_mem_keys.1 hh)

theorem get_map {U : Type} (f : V → U) (t : Table K V) (k : K) :
    get (t.map fun e => (e.1, f e.2)) k = (get t k).map f := by
  induction t with
  | nil => rfl
  | cons e t ih =>
    rw [List.map_cons, get_cons, get_cons, ih]
    split <;> rfl

omit [DecidableEq K] in
theorem keys_map {U : Type} (f : V → U) (t : Table K V) : keys (t.map fun e => (e.1, f e.2)) = keys t := by
  simp [keys]

/-- What is found is found among entries that pass a test, if it passes it. -/
theorem get_filter_of_get {t : Table K V} {q : K × V → Bool} {k : K} {v : V} (h : get t k = some v)
    (hq : q (k, v) = true) : get (t.filter q) k = some v := by
  induction t with
  | nil => cases h
  | cons e t ih =>
    obtain ⟨k₁, v₁⟩ := e
    rw [get_cons] at h
    by_cases hk : k = k₁
    · subst hk
      rw [if_pos rfl] at h
      cases h
      rw [List.filter_cons_of_pos hq, get_cons, if_pos rfl]
    · rw [if_neg hk] at h
      rw [List.filter_cons]
      split
      · rw [get_cons, if_neg hk, ih h]
      · exact ih h

/-- A key is found alike where the entries under it pass alike. -/
theorem get_filter_congr {t : Table K V} {q q' : K × V → Bool} {k : K} (h : ∀ v, q (k, v) = q' (k, v)) :
    get (t.filter q) k = get (t.filter q') k := by
  induction t with
  | nil => rfl
  | cons e t ih =>
    obtain ⟨k₁, v₁⟩ := e
    by_cases hk : k = k₁
    · subst hk
      simp only [List.filter_cons, h v₁]
      split
      · rw [get_cons, get_cons, if_pos rfl, if_pos rfl]
      · exact ih
    · have hskip : ∀ q : K × V → Bool, get (((k₁, v₁) :: t).filter q) k = get (t.filter q) k := by
        intro q
        rw [List.filter_cons]
        split
        · rw [get_cons, if_neg hk]
        · rfl
      rw [hskip, hskip, ih]

/-! ## `upsert` -/

def upsert : Table K V → K → V → Table K V
  | [], k, v => [(k, v)]
  | (k', v') :: t, k, v => if k' = k then (k, v) :: t else (k', v') :: upsert t k v

theorem get_upsert (t : Table K V) (k k' : K) (v : V) :
    get (upsert t k v) k' = if k' = k then some v else get t k' := by
  induction t with
  | nil => simp [upsert, get_cons]
  | cons e t ih =>
    obtain ⟨k₁, v₁⟩ := e
    unfold upsert
    by_cases h : k₁ = k
    · subst h
      by_cases hk : k' = k₁ <;> simp [get_cons, hk]
    · simp only [h, if_false, get_cons, ih]
      by_cases hk : k' = k₁
      · have hne : k' ≠ k := hk ▸ h
        simp [hk, h]
      · simp [hk]

@[simp] theorem get_upsert_self (t : Table K V) (k : K) (v : V) : get (upsert t k v) k = some v := by
  simp [get_upsert]

theorem get_upsert_ne {k k' : K} (t : Table K V) (v : V) (h : k' ≠ k) :
    get (upsert t k v) k' = get t k' := by
  simp [get_upsert, h]

/-- Writing what is there changes nothing. -/
theorem upsert_of_get {t : Table K V} {k : K} {v : V} (h : get t k = some v) : upsert t k v = t := by
  induction t with
  | nil => cases h
  | cons e t ih =>
    obtain ⟨k₁, v₁⟩ := e
    rw [get_cons] at h
    unfold upsert
    by_cases hk : k₁ = k
    · subst hk
      rw [if_pos rfl] at h
      rw [if_pos rfl, Option.some.inj h]
    · rw [if_neg (Ne.symm hk)] at h
      rw [if_neg hk, ih h]

theorem has_upsert (t : Table K V) (k k' : K) (v : V) :
    has (upsert t k v) k' = (decide (k' = k) || has t k') := by
  by_cases h : k' = k <;> simp [has, get_upsert, h]

theorem keys_upsert (t : Table K V) (k : K) (v : V) :
    keys (upsert t k v) = if has t k then keys t else keys t ++ [k] := by
  induction t with
  | nil => simp [upsert, keys, has]
  | cons e t ih =>
    obtain ⟨k₁, v₁⟩ := e
    unfold upsert
    by_cases h : k₁ = k
    · subst h; simp [keys, has, get_cons]
    · have h' : k ≠ k₁ := Ne.symm h
      simp only [keys, has, get_cons, h, h', if_false, List.map_cons] at ih ⊢
      rw [ih]
      by_cases hs : (get t k).isSome = true <;> simp [hs]

theorem nodup_upsert {t : Table K V} (h : (keys t).Nodup) (k : K) (v : V) :
    (keys (upsert t k v)).Nodup := by
  rw [keys_upsert]
  split
  · exact h
  · rename_i hk
    have hk' : k ∉ keys t := fun hm => hk (has_iff_mem_keys.2 hm)
    exact List.nodup_append.2 ⟨h, by simp, fun a ha b hb => by
      rintro rfl
      exact hk' (List.mem_singleton.1 hb ▸ ha)⟩

/-- A new key is written behind the others. -/
theorem upsert_of_notMem {t : Table K V} {k : K} (h : k ∉ keys t) (v : V) : upsert t k v = t ++ [(k, v)] := by
  induction t with
  | nil => rfl
  | cons e t ih =>
    obtain ⟨k', v'⟩ := e
    have hne : k' ≠ k := fun he => h (he ▸ List.mem_cons_self)
    rw [upsert, if_neg hne, ih fun hm => h (List.mem_cons_of_mem _ hm)]
    rfl

/-- The last write wins. -/
theorem upsert_upsert (t : Table K V) (k : K) (v v' : V) : upsert (upsert t k v) k v' = upsert t k v' := by
  induction t with
  | nil => simp [upsert]
  | cons e t ih =>
    obtain ⟨k₁, v₁⟩ := e
    by_cases h : k₁ = k
    · simp [upsert, h]
    · simp [upsert, h, ih]

theorem length_upsert_le (t : Table K V) (k : K) (v : V) : (upsert t k v).length ≤ t.length + 1 := by
  induction t with
  | nil => simp [upsert]
  | cons e t ih =>
    obtain ⟨k₁, v₁⟩ := e
    unfold upsert
    split <;> simp [ih]

/-- Writing the entries of `u` one after another: the last write of a key is what is read. -/
theorem get_foldl_upsert (u t : Table K V) (hu : (keys u).Nodup) (k : K) :
    get (u.foldl (fun t e => upsert t e.1 e.2) t) k = (get u k).or (get t k) := by
  induction u generalizing t with
  | nil => simp
  | cons e u ih =>
    obtain ⟨k₁, v₁⟩ := e
    simp only [keys, List.map_cons, List.nodup_cons] at hu
    rw [List.foldl_cons, ih _ hu.2, get_cons]
    by_cases h : k = k₁
    · subst h
      simp [get_none_of_notMem hu.1]
    · simp [h, get_upsert_ne _ _ h]

/-- Where a key is written more than once, the last write is the first entry found from the end. -/
theorem get_foldl_upsert_last (u t : Table K V) (k : K) :
    get (u.foldl (fun t e => upsert t e.1 e.2) t) k = (get u.reverse k).or (get t k) := by
  induction u generalizing t with
  | nil => simp
  | cons e u ih =>
    rw [List.foldl_cons, ih, get_upsert, List.reverse_cons, get_append, Option.or_assoc, get_cons, get_nil]
    by_cases h : k = e.1 <;> simp [h]

theorem mem_keys_upsert {t : Table K V} {k k' : K} {v : V} : k' ∈ keys (upsert t k v) ↔ k' = k ∨ k' ∈ keys t := by
  rw [← has_iff_mem_keys, has_upsert, Bool.or_eq_true, decide_eq_true_eq, has_iff_mem_keys]

theorem mem_keys_foldl_upsert {α : Type} (f : α → K) (g : α → V) (l : List α) (t : Table K V) (k : K) :
    k ∈ keys (l.foldl (fun t a => upsert t (f a) (g a)) t) ↔ k ∈ l.map f ∨ k ∈ keys t := by
  induction l generalizing t with
  | nil => simp
  | cons a l ih =>
    rw [List.foldl_cons, ih, mem_keys_upsert, List.map_cons, List.mem_cons, or_assoc, or_left_comm]

/-- What is read after writing entries was written or there before. -/
theorem mem_of_get_foldl_upsert (u : Table K V) : ∀ {t : Table K V} {k : K} {v : V},
    get (u.foldl (fun t e => upsert t e.1 e.2) t) k = some v → (k, v) ∈ u ∨ get t k = some v := by
  induction u with
  | nil => exact fun h => Or.inr h
  | cons e u ih =>
    intro t k v h
    rcases ih h with h | h
    · exact Or.inl (List.mem_cons_of_mem _ h)
    · rw [get_upsert] at h
      split at h
      · rename_i hk
        cases h
        exact Or.inl (by rw [hk]; exact List.mem_cons_self)
      · exact Or.inr h

theorem nodup_foldl_upsert (u : Table K V) {t : Table K V} (h : (keys t).Nodup) :
    (keys (u.foldl (fun t e => upsert t e.1 e.2) t)).Nodup := by
  induction u generalizing t with
  | nil => exact h
  | cons e u ih => exact ih (nodup_upsert h _ _)

/-- Writing a value that is a function of the key. -/
theorem get_foldl_upsert_fun (f : K → V) (ks : List K) (t : Table K V) (k : K) :
    get (ks.foldl (fun t k => upsert t k (f k)) t) k = if k ∈ ks then some (f k) else get t k := by
  induction ks generalizing t with
  | nil => simp
  | cons k₁ ks ih =>
    rw [List.foldl_cons, ih, get_upsert]
    by_cases h : k ∈ ks
    · simp [h]
    · by_cases hk : k = k₁ <;> simp [h, hk]

theorem nodup_foldl_upsert_fun (f : K → V) (ks : List K) {t : Table K V} (h : (keys t).Nodup) :
    (keys (ks.foldl (fun t k => upsert t k (f k)) t)).Nodup := by
  induction ks generalizing t with
  | nil => exact h
  | cons k ks ih => exact ih (nodup_upsert h _ _)

theorem upsert_map {U : Type} (f : V → U) (t : Table K V) (k : K) (v : V) :
    upsert (t.map fun e => (e.1, f e.2)) k (f v) = (upsert t k v).map fun e => (e.1, f e.2) := by
  induction t with
  | nil => rfl
  | cons e t ih =>
    simp only [List.map_cons, upsert]
    split
    · rfl
    · rw [ih]
      rfl

/-! ## `erase` -/

def erase (t : Table K V) (k : K) : Table K V := t.filter fun e => e.1 ≠ k

theorem get_erase (t : Table K V) (k k' : K) : get (erase t k) k' = if k' = k then none else get t k' := by
  induction t with
  | nil => simp [erase]
  | cons e t ih =>
    obtain ⟨k₁, v₁⟩ := e
    by_cases h : k₁ = k
    · subst h
      rw [show erase ((k₁, v₁) :: t) k₁ = erase t k₁ by simp [erase], ih, get_cons]
      by_cases hk : k' = k₁ <;> simp [hk]
    · rw [show erase ((k₁, v₁) :: t) k = (k₁, v₁) :: erase t k by simp [erase, h], get_cons, ih, get_cons]
      by_cases hk : k' = k₁
      · simp [hk, h]
      · simp [hk]

theorem nodup_erase {t : Table K V} (h : (keys t).Nodup) (k : K) : (keys (erase t k)).Nodup :=
  (List.filter_sublist.map _).nodup h

/-! ### Memo tables -/

/-- Whatever is in the table is the value of the function there. -/
def Memoizes (f : K → V) (t : Table K V) : Prop := ∀ k v, get t k = some v → v = f k

theorem memoizes_nil (f : K → V) : Memoizes f [] := fun k v h => by simp at h

theorem Memoizes.upsert {f : K → V} {t : Table K V} (h : Memoizes f t) (k : K) : Memoizes f (upsert t k (f k)) := by
  intro k' v hv
  rw [get_upsert] at hv
  split at hv
  · rename_i hk
    cases hv
    rw [hk]
  · exact h k' v hv

/-! ## `insertOnce` -/

section
variable [DecidableEq V]

def insertOnce (t : Table K V) (k : K) (v : V) : Option (Table K V) :=
  match get t k with
  | none => some (t ++ [(k, v)])
  | some v' => if v' = v then some t else none

/-- The insertion goes through exactly if the key holds nothing else. -/
theorem insertOnce_isSome {t : Table K V} {k : K} {v : V} :
    (∃ t', insertOnce t k v = some t') ↔ ∀ v', get t k = some v' → v' = v := by
  unfold insertOnce
  cases h : get t k with
  | none => simp
  | some v' => by_cases hv : v' = v <;> simp [hv]

theorem get_insertOnce {t t' : Table K V} {k : K} {v : V} (h : insertOnce t k v = some t') (k' : K) :
    get t' k' = if k' = k then some v else get t k' := by
  unfold insertOnce at h
  cases hg : get t k with
  | none =>
    simp only [hg, Option.some.injEq] at h
    subst h
    rw [get_append, get_cons]
    by_cases hk : k' = k
    · subst hk; simp [hg]
    · simp [hk]
  | some v' =>
    simp only [hg] at h
    split at h <;> cases h
    rename_i hv
    by_cases hk : k' = k
    · simp [hk, hg, hv]
    · simp [hk]

theorem insertOnce_self {t t' : Table K V} {k : K} {v : V} (h : insertOnce t k v = some t') :
    get t' k = some v := by
  simp [get_insertOnce h]

theorem has_insertOnce {t t' : Table K V} {k : K} {v : V} (h : insertOnce t k v = some t') (k' : K) :
    has t' k' = (decide (k' = k) || has t k') := by
  by_cases hk : k' = k <;> simp [has, get_insertOnce h, hk]

theorem insertOnce_extends {t t' : Table K V} {k : K} {v : V} (h : insertOnce t k v = some t') : t <+: t' := by
  unfold insertOnce at h
  split at h
  · cases h; exact List.prefix_append _ _
  · split at h <;> cases h
    exact List.prefix_refl _

/-! ## `push` -/

def push (t : Table K V) (k : K) (v : V) : Table K V := if (k, v) ∈ t then t else t ++ [(k, v)]

theorem mem_push {t : Table K V} {k : K} {v : V} {e : K × V} : e ∈ push t k v ↔ e ∈ t ∨ e = (k, v) := by
  unfold push
  split
  · rename_i h
    exact ⟨Or.inl, fun h' => h'.elim id fun he => he ▸ h⟩
  · simp

theorem push_extends (t : Table K V) (k : K) (v : V) : t <+: push t k v := by
  unfold push
  split
  · exact List.prefix_refl _
  · exact List.prefix_append _ _

end

/-- The values recorded under a key, in the order they were pushed. -/
def all (t : Table K V) (k : K) : List V := (t.filter (fun e => e.1 = k)).map Prod.snd

theorem mem_all {t : Table K V} {k : K} {v : V} : v ∈ all t k ↔ (k, v) ∈ t := by
  simp only [all, List.mem_map, List.mem_filter, decide_eq_true_eq]
  constructor
  · rintro ⟨⟨k', v'⟩, ⟨hm, rfl⟩, rfl⟩; exact hm
  · intro h; exact ⟨(k, v), ⟨h, rfl⟩, rfl⟩

/-! ## Tables that only grow -/

/-- `t` grew to `u`, `u` grew to `v`, and nothing is left to see: nothing was written. -/
theorem squeeze {α : Type} {t u v : List α} (h₁ : t <+: u) (h₂ : u <+: v) (h : v = t) : u = t :=
  (h₁.eq_of_length (Nat.le_antisymm h₁.length_le (h ▸ h₂.length_le))).symm

/-! ## Maps with distinct keys, and confined ones -/

/-- An ordered map: every key once. -/
structure UniqueMap (K V : Type) where
  entries : Table K V
  nodup : (keys entries).Nodup
deriving DecidableEq

def UniqueMap.empty : UniqueMap K V := ⟨[], List.nodup_nil⟩

def UniqueMap.find (m : UniqueMap K V) (k : K) : Option V := get m.entries k

def UniqueMap.write (m : UniqueMap K V) (k : K) (v : V) : UniqueMap K V := ⟨upsert m.entries k v, nodup_upsert m.nodup k v⟩

def UniqueMap.remove (m : UniqueMap K V) (k : K) : UniqueMap K V := ⟨erase m.entries k, nodup_erase m.nodup k⟩

/-- The entries collected, each over those of its key before it. -/
def UniqueMap.ofEntries (u : Table K V) : UniqueMap K V :=
  ⟨u.foldl (fun t e => upsert t e.1 e.2) [], nodup_foldl_upsert u (by simp [keys])⟩

theorem UniqueMap.mem_entries {m : UniqueMap K V} {k : K} {v : V} : (k, v) ∈ m.entries ↔ m.find k = some v :=
  ⟨get_eq_of_mem m.nodup, get_mem⟩

/-- What is collected under a key is one of its entries. -/
theorem UniqueMap.mem_of_find_ofEntries {u : Table K V} {k : K} {v : V} (h : (UniqueMap.ofEntries u).find k = some v) :
    (k, v) ∈ u :=
  (mem_of_get_foldl_upsert u h).resolve_right (by simp)

theorem UniqueMap.exists_find_ofEntries {u : Table K V} {e : K × V} (h : e ∈ u) :
    ∃ v, (UniqueMap.ofEntries u).find e.1 = some v := by
  have hk : e.1 ∈ keys (u.foldl (fun t e => upsert t e.1 e.2) []) :=
    (mem_keys_foldl_upsert Prod.fst Prod.snd u [] e.1).2 (Or.inl (List.mem_map_of_mem h))
  exact has_iff.1 (has_iff_mem_keys.2 hk)

@[simp] theorem UniqueMap.find_write (m : UniqueMap K V) (k k' : K) (v : V) :
    (m.write k v).find k' = if k' = k then some v else m.find k' :=
  get_upsert _ _ _ _

theorem UniqueMap.write_write (m : UniqueMap K V) (k : K) (v v' : V) : (m.write k v).write k v' = m.write k v' := by
  simp only [write, upsert_upsert]

@[simp] theorem UniqueMap.find_remove (m : UniqueMap K V) (k k' : K) :
    (m.remove k).find k' = if k' = k then none else m.find k' :=
  get_erase _ _ _

/-- The union of two maps which agree where both are defined. -/
def UniqueMap.unite [DecidableEq V] (a b : UniqueMap K V) : Option (UniqueMap K V) :=
  if ∀ e ∈ b.entries, ∀ v, get a.entries e.1 = some v → v = e.2 then
    some ⟨a.entries ++ b.entries.filter fun e => e.1 ∉ keys a.entries, by
      rw [keys, List.map_append]
      refine List.nodup_append.2 ⟨a.nodup, (List.filter_sublist.map _).nodup b.nodup, fun k hk k' hk' he => ?_⟩
      obtain ⟨e, hm, rfl⟩ := List.mem_map.1 hk'
      have hn : e.1 ∉ keys a.entries := by simpa using (List.mem_filter.1 hm).2
      exact hn (he ▸ hk)⟩
  else none

theorem UniqueMap.unite_self [DecidableEq V] (a : UniqueMap K V) : a.unite a = some a := by
  obtain ⟨t, ht⟩ := a
  have hin : ∀ e ∈ t, e.1 ∈ keys t := fun e he => List.mem_map_of_mem he
  unfold unite
  rw [if_pos]
  · simpa using fun k v hm => hin (k, v) hm
  · intro e he v hv
    rw [get_eq_of_mem ht (k := e.1) (v := e.2) he] at hv
    exact (Option.some.inj hv).symm

/-- A map that stays as it is when united with another has the entries of the other. -/
theorem UniqueMap.find_of_unite [DecidableEq V] {a b : UniqueMap K V} (h : a.unite b = some a) {k : K} {v : V}
    (hb : b.find k = some v) : a.find k = some v := by
  unfold unite at h
  split at h
  · rename_i hagree
    have hentries := congrArg UniqueMap.entries (Option.some.inj h)
    have hnone : b.entries.filter (fun e => e.1 ∉ keys a.entries) = [] := List.append_right_eq_self.1 hentries
    have hm : (k, v) ∈ b.entries := get_mem hb
    have hk : k ∈ keys a.entries := by simpa using List.filter_eq_nil_iff.1 hnone (k, v) hm
    obtain ⟨v', hv'⟩ := has_iff.1 (has_iff_mem_keys.2 hk)
    have heq : v' = v := hagree (k, v) hm v' hv'
    exact heq ▸ hv'
  · cases h

/-- A confined ordered map: at most 65535 entries. -/
structure SmallMap (K V : Type) extends UniqueMap K V where
  small : entries.length ≤ 65535

def SmallMap.empty : SmallMap K V := ⟨⟨[], by simp [keys]⟩, by simp⟩

/-- Confined insertion: refused when the map is full. -/
def SmallMap.insert (m : SmallMap K V) (k : K) (v : V) : Option (SmallMap K V) :=
  if h : m.entries.length < 65535 then
    some ⟨⟨upsert m.entries k v, nodup_upsert m.nodup k v⟩, by
      have := length_upsert_le m.entries k v
      show (upsert m.entries k v).length ≤ 65535
      omega⟩
  else none

theorem SmallMap.insert_entries {m m' : SmallMap K V} {k : K} {v : V} (h : m.insert k v = some m') :
    m'.entries = upsert m.entries k v := by
  unfold SmallMap.insert at h
  split at h <;> cases h
  rfl

theorem SmallMap.insert_eq_none {m : SmallMap K V} {k : K} {v : V} : m.insert k v = none ↔ 65535 ≤ m.entries.length := by
  unfold SmallMap.insert
  split <;> simp <;> omega

/-- The entries collected first, the size checked last. -/
def SmallMap.ofEntries (u : Table K V) : Option (SmallMap K V) :=
  let m : UniqueMap K V := ⟨u.foldl (fun t e => upsert t e.1 e.2) [], nodup_foldl_upsert u (by simp [keys])⟩
  if h : m.entries.length ≤ 65535 then some ⟨m, h⟩ else none

/-- Confined extension: one insertion for each entry, refused as a whole if one is. -/
def SmallMap.extend (m : SmallMap K V) (u : Table K V) : Option (SmallMap K V) :=
  u.foldlM (fun m e => m.insert e.1 e.2) m

theorem SmallMap.extend_entries {m m' : SmallMap K V} {u : Table K V} (h : m.extend u = some m') :
    m'.entries = u.foldl (fun t e => upsert t e.1 e.2) m.entries := by
  induction u generalizing m with
  | nil => cases h; rfl
  | cons e u ih =>
    simp only [SmallMap.extend, List.foldlM_cons, Option.bind_eq_bind, Option.bind_eq_some_iff] at h
    obtain ⟨m₁, h₁, h₂⟩ := h
    rw [List.foldl_cons, ← SmallMap.insert_entries h₁]
    exact ih h₂

/-- After an extension the new map's entries are read first. -/
theorem SmallMap.get_extend {m m' : SmallMap K V} {u : UniqueMap K V} (h : m.extend u.entries = some m')
    (k : K) : get m'.entries k = (get u.entries k).or (get m.entries k) := by
  rw [SmallMap.extend_entries h, get_foldl_upsert _ _ u.nodup]

theorem SmallMap.extend_nil (m : SmallMap K V) : m.extend [] = some m := rfl

/-- A confined set: at most 65535 elements. -/
structure SmallSet (K : Type) where
  elems : List K
  nodup : elems.Nodup
  small : elems.length ≤ 65535

def SmallSet.empty : SmallSet K := ⟨[], List.nodup_nil, by simp⟩

/-- Confined insertion: refused when the set is full. -/
def SmallSet.push (s : SmallSet K) (k : K) : Option (SmallSet K) :=
  if h : s.elems.length < 65535 then
    some ⟨s.elems.insert k, s.nodup.insert, by
      rw [List.length_insert]
      split <;> omega⟩
  else none

/-- The elements collected first, the size checked last. -/
def SmallSet.ofList (l : List K) : Option (SmallSet K) :=
  if h : l.dedup.length ≤ 65535 then some ⟨l.dedup, l.nodup_dedup, h⟩ else none

theorem SmallSet.mem_ofList {l : List K} {s : SmallSet K} (h : SmallSet.ofList l = some s) (k : K) :
    k ∈ s.elems ↔ k ∈ l := by
  unfold SmallSet.ofList at h
  split at h <;> cases h
  exact List.mem_dedup

theorem SmallSet.push_eq_none {s : SmallSet K} {k : K} : s.push k = none ↔ 65535 ≤ s.elems.length := by
  unfold SmallSet.push
  split <;> simp <;> omega

theorem SmallSet.mem_push {s s' : SmallSet K} {k : K} (h : s.push k = some s') (k' : K) :
    k' ∈ s'.elems ↔ k' = k ∨ k' ∈ s.elems := by
  unfold SmallSet.push at h
  split at h <;> cases h
  exact List.mem_insert_iff

/-- How many distinct elements a list has depends on what they are. -/
theorem length_dedup_congr {l l' : List K} (h : ∀ k, k ∈ l ↔ k ∈ l') : l.dedup.length = l'.dedup.length :=
  ((List.perm_ext_iff_of_nodup l.nodup_dedup l'.nodup_dedup).2 fun k => by simpa using h k).length_eq

theorem length_le_dedup_append {l : List K} (h : l.Nodup) (l' : List K) : l.length ≤ (l ++ l').dedup.length :=
  h.length_le_of_subset fun _ hk => List.mem_dedup.2 (List.mem_append_left _ hk)

/-- Sets are equal if they have the same elements. -/
def SmallSet.same (s t : SmallSet K) : Bool := s.elems.all (· ∈ t.elems) && t.elems.all (· ∈ s.elems)

/-- A set is iterated in the order of its elements. -/
def SmallSet.inOrder [Ord K] (s : SmallSet K) : List K := s.elems.insertionSort fun a b => (compare a b).isLE

@[simp] theorem SmallSet.mem_inOrder {α : Type} [Ord α] {s : SmallSet α} {k : α} : k ∈ s.inOrder ↔ k ∈ s.elems :=
  List.mem_insertionSort _

@[simp] theorem SmallSet.inOrder_eq_nil {α : Type} [Ord α] {s : SmallSet α} : s.inOrder = [] ↔ s.elems = [] := by
  simp only [List.eq_nil_iff_forall_not_mem, mem_inOrder]

/-! ## Entries under their positions -/

section
variable {α : Type}

/-- What is found at the positions of a list, under numbers of 16 bits. -/
def numbered (f : α → Nat → Option V) (xs : List α) : Table UInt16 V :=
  xs.zipIdx.filterMap fun (x, n) => (f x n).map fun v => (UInt16.ofNat n, v)

theorem mem_numbered {f : α → Nat → Option V} {xs : List α} {k : UInt16} {v : V} :
    (k, v) ∈ numbered f xs ↔ ∃ x n, xs[n]? = some x ∧ f x n = some v ∧ k = UInt16.ofNat n := by
  simp only [numbered, List.mem_filterMap, Prod.exists, List.mk_mem_zipIdx_iff_getElem?, Option.map_eq_some_iff,
    Prod.mk.injEq]
  constructor
  · rintro ⟨x, n, hx, _, hv, rfl, rfl⟩
    exact ⟨x, n, hx, hv, rfl⟩
  · rintro ⟨x, n, hx, hv, rfl⟩
    exact ⟨x, n, hx, v, hv, rfl, rfl⟩

omit [DecidableEq K] in
theorem keys_filterMap_sublist (k : α → K) (g : α → Option V) (xs : List α) :
    (keys (xs.filterMap fun x => (g x).map fun v => (k x, v))).Sublist (xs.map k) := by
  induction xs with
  | nil => exact List.Sublist.refl _
  | cons x xs ih =>
    rw [List.filterMap_cons]
    cases g x with
    | none => exact ih.cons _
    | some v => exact ih.cons_cons _

/-- What is made of some of the elements, each keeping its element. -/
theorem map_filterMap_sublist {f : α → Option V} {k : V → α} (h : ∀ x y, f x = some y → k y = x) (xs : List α) :
    ((xs.filterMap f).map k).Sublist xs := by
  induction xs with
  | nil => exact List.Sublist.refl _
  | cons x xs ih =>
    rw [List.filterMap_cons]
    cases hx : f x with
    | none => exact ih.cons x
    | some y =>
      rw [List.map_cons, h x y hx]
      exact ih.cons_cons x

/-- Numbers do not run over while there are no more entries than numbers. -/
theorem nodup_numbered (f : α → Nat → Option V) {xs : List α} (h : xs.length ≤ 65536) : (keys (numbered f xs)).Nodup := by
  refine (keys_filterMap_sublist (fun e : α × Nat => UInt16.ofNat e.2) (fun e => f e.1 e.2) xs.zipIdx).nodup ?_
  have he : xs.zipIdx.map (fun e => UInt16.ofNat e.2) = (List.range' 0 xs.length).map UInt16.ofNat := by
    rw [← List.zipIdx_map_snd 0 xs, List.map_map]
    rfl
  rw [he]
  refine List.Nodup.map_on (fun m hm n hn he => ?_) List.nodup_range'
  have hm' : m < UInt16.size := by have := List.mem_range'_1.1 hm; show m < 65536; omega
  have hn' : n < UInt16.size := by have := List.mem_range'_1.1 hn; show n < 65536; omega
  rw [← UInt16.toNat_ofNat_of_lt' hm', he, UInt16.toNat_ofNat_of_lt' hn']

theorem get_numbered (f : α → Nat → Option V) {xs : List α} (h : xs.length ≤ 65536) (k : UInt16) :
    get (numbered f xs) k = xs[k.toNat]?.bind (f · k.toNat) := by
  cases hx : xs[k.toNat]?.bind (f · k.toNat) with
  | some v =>
    obtain ⟨x, hx, hv⟩ := Option.bind_eq_some_iff.1 hx
    exact get_eq_of_mem (nodup_numbered f h) (mem_numbered.2 ⟨x, k.toNat, hx, hv, UInt16.ofNat_toNat.symm⟩)
  | none =>
    by_contra hne
    obtain ⟨v, hv⟩ := Option.ne_none_iff_exists'.1 hne
    obtain ⟨x, n, hxn, hfx, rfl⟩ := mem_numbered.1 (get_mem hv)
    have hn : n < UInt16.size := by
      have := (List.getElem?_eq_some_iff.1 hxn).1
      show n < 65536
      omega
    rw [UInt16.toNat_ofNat_of_lt' hn, hxn, Option.bind_some, hfx] at hx
    cases hx

end

end Tables
