import Mathlib.Data.List.Basic
/-!
# File names made of parts

| here | behaves as |
| --- | --- |
| `splitFirst`, `splitLast`  | `split_once` and `rsplit_once` of a character |
| `fileStem`, `extension`    | the methods of `Path`: the extension follows the last dot |
| `parts`                    | a name read as `name.id.ext` |

`parts_eq_some` says which names are read so: the first part and the extension have no dot, whatever
is between them may have some.
-/
namespace Names

variable {α : Type} [DecidableEq α]

def splitFirst (sep : α) : List α → Option (List α × List α)
  | [] => none
  | a :: as => if a = sep then some ([], as) else (splitFirst sep as).map fun p => (a :: p.1, p.2)

def splitLast (sep : α) (as : List α) : Option (List α × List α) :=
  (splitFirst sep as.reverse).map fun p => (p.2.reverse, p.1.reverse)

theorem splitFirst_eq_some {sep : α} : ∀ {as b c : List α},
    splitFirst sep as = some (b, c) ↔ as = b ++ sep :: c ∧ sep ∉ b
  | [], b, c => by simp [splitFirst]
  | a :: as, b, c => by
    unfold splitFirst
    by_cases h : a = sep
    · subst h
      cases b with
      | nil => simp
      | cons b' b =>
        simp only [if_true, Option.some.injEq, Prod.mk.injEq, List.cons_append, List.cons.injEq, List.mem_cons]
        constructor
        · exact fun he => absurd he.1 (by simp)
        · exact fun he => absurd (Or.inl he.1.1) he.2
    · rw [if_neg h, Option.map_eq_some_iff]
      constructor
      · rintro ⟨⟨b', c'⟩, hs, he⟩
        obtain ⟨rfl, rfl⟩ := Prod.mk.inj he
        obtain ⟨rfl, hb⟩ := splitFirst_eq_some.1 hs
        exact ⟨rfl, fun hm => (List.mem_cons.1 hm).elim (fun e => h e.symm) hb⟩
      · rintro ⟨he, hb⟩
        cases b with
        | nil => exact absurd (List.cons.inj he).1 h
        | cons b' b =>
          obtain ⟨rfl, rfl⟩ := List.cons.inj he
          exact ⟨(b, c), splitFirst_eq_some.2 ⟨rfl, fun hm => hb (List.mem_cons_of_mem _ hm)⟩, rfl⟩

theorem splitLast_eq_some {sep : α} {as b c : List α} :
    splitLast sep as = some (b, c) ↔ as = b ++ sep :: c ∧ sep ∉ c := by
  have hrev : splitLast sep as = some (b, c) ↔ splitFirst sep as.reverse = some (c.reverse, b.reverse) := by
    rw [splitLast, Option.map_eq_some_iff]
    constructor
    · rintro ⟨⟨b', c'⟩, hs, he⟩
      obtain ⟨rfl, rfl⟩ := Prod.mk.inj he
      simpa using hs
    · exact fun hs => ⟨_, hs, by simp⟩
  have hshape : as.reverse = c.reverse ++ sep :: b.reverse ↔ as = b ++ sep :: c := by
    rw [List.reverse_eq_iff]
    simp
  rw [hrev, splitFirst_eq_some, hshape, List.mem_reverse]

/-! ## `Path` -/

abbrev FileName := List Char

/-- What precedes the last dot, unless that is nothing. -/
def fileStem (f : FileName) : FileName :=
  match splitLast '.' f with
  | some (stem, _) => if stem = [] then f else stem
  | none => f

def extension (f : FileName) : Option FileName :=
  match splitLast '.' f with
  | some (stem, ext) => if stem = [] then none else some ext
  | none => none

/-- `name.id.ext`. -/
def dotted (name id ext : FileName) : FileName := name ++ '.' :: (id ++ '.' :: ext)

def parts (f : FileName) : Option (FileName × FileName × FileName) := do
  let ext ← extension f
  let (name, id) ← splitFirst '.' (fileStem f)
  return (name, id, ext)

theorem parts_eq_some {f name id ext : FileName} :
    parts f = some (name, id, ext) ↔ f = dotted name id ext ∧ '.' ∉ name ∧ '.' ∉ ext := by
  have hstem : ∀ stem, stem ≠ [] → splitLast '.' f = some (stem, ext) →
      (parts f = some (name, id, ext) ↔ stem = name ++ '.' :: id ∧ '.' ∉ name) := by
    intro stem hne hs
    simp only [parts, extension, fileStem, hs, hne, if_false, Option.bind_eq_bind, Option.bind_some]
    rw [← splitFirst_eq_some]
    cases splitFirst '.' stem with
    | none => simp
    | some p => simp [Prod.ext_iff]
  constructor
  · intro h
    have hs : ∃ stem, stem ≠ [] ∧ splitLast '.' f = some (stem, ext) := by
      simp only [parts, extension, Option.bind_eq_bind, Option.bind_eq_some_iff] at h
      obtain ⟨ext', hext, p, _, he⟩ := h
      split at hext
      · rename_i stem ext₁ hs
        split at hext
        · cases hext
        · rename_i hne
          cases hext
          cases he
          exact ⟨stem, hne, hs⟩
      · cases hext
    obtain ⟨stem, hne, hs⟩ := hs
    obtain ⟨hstem, hname⟩ := (hstem stem hne hs).1 h
    obtain ⟨hf, hext⟩ := splitLast_eq_some.1 hs
    refine ⟨?_, hname, hext⟩
    rw [hf, hstem, dotted, List.append_assoc, List.cons_append]
  · rintro ⟨hf, hname, hext⟩
    have hs : splitLast '.' f = some (name ++ '.' :: id, ext) :=
      splitLast_eq_some.2 ⟨by rw [hf, dotted, List.append_assoc, List.cons_append], hext⟩
    exact (hstem _ (by simp) hs).2 ⟨rfl, hname⟩

/-- A name written so is read back. -/
theorem parts_dotted {name ext : FileName} (hname : '.' ∉ name) (hext : '.' ∉ ext) (id : FileName) :
    parts (dotted name id ext) = some (name, id, ext) :=
  parts_eq_some.2 ⟨rfl, hname, hext⟩

/-- Names with different extensions are different. -/
theorem dotted_ext {name id ext name' id' ext' : FileName} (hext : '.' ∉ ext) (hext' : '.' ∉ ext')
    (h : dotted name id ext = dotted name' id' ext') : ext = ext' := by
  have hs : ∀ n i e, '.' ∉ e → splitLast '.' (dotted n i e) = some (n ++ '.' :: i, e) :=
    fun n i e he => splitLast_eq_some.2 ⟨by rw [dotted, List.append_assoc, List.cons_append], he⟩
  have heq := hs name id ext hext
  rw [h, hs _ _ _ hext'] at heq
  exact (Prod.mk.inj (Option.some.inj heq)).2.symm

end Names
