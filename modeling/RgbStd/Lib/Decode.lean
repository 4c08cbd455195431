import Mathlib.Data.List.Forall2
import Mathlib.Data.List.Infix
/-!
# Decoders of byte streams

A `Decoder` reads a value off the front of a byte string and returns the rest; that what it
returns is a suffix of what it was given is part of it. Decoders compose with `do`;
`bind_eq_ok` takes a successful run of a composition apart.

| here | reads |
| --- | --- |
| `byte`, `u16le`, `u32le`, `u64le`, `take` | fixed-size little-endian integers and raw bytes |
| `option`   | a 0 byte, or a 1 byte and a value |
| `reserved` | one byte with a fixed value |
| `times`    | a fixed number of values |

`Feed` is what a reader called until it is exhausted yields: values, and how it ended.
-/
namespace Decode

abbrev Bytes := List UInt8

theorem except_bind_eq_ok {E α β : Type} {x : Except E α} {f : α → Except E β} {b : β} :
    (x >>= f) = .ok b ↔ ∃ a, x = .ok a ∧ f a = .ok b := by
  cases x with
  | error e => exact ⟨fun h => (by cases h), fun ⟨_, h, _⟩ => (by cases h)⟩
  | ok a => exact ⟨fun h => ⟨a, rfl, h⟩, fun ⟨_, h, hf⟩ => (by cases h; exact hf)⟩

theorem except_bind_eq_error {E α β : Type} {x : Except E α} {f : α → Except E β} {e : E} :
    (x >>= f) = .error e ↔ x = .error e ∨ ∃ a, x = .ok a ∧ f a = .error e := by
  cases x with
  | error e' =>
    constructor
    · intro h
      cases h
      exact Or.inl rfl
    · rintro (h | ⟨_, h, _⟩)
      · cases h
        rfl
      · cases h
  | ok a =>
    constructor
    · intro h
      exact Or.inr ⟨a, rfl, h⟩
    · rintro (h | ⟨_, h, hf⟩)
      · cases h
      · cases h
        exact hf

theorem mapError_eq_ok {E F α : Type} {f : E → F} {x : Except E α} {a : α} : x.mapError f = .ok a ↔ x = .ok a := by
  cases x <;> simp [Except.mapError]

/-- A traversal succeeds if it does at each element. -/
theorem mapM_eq_ok {E α β : Type} {f : α → Except E β} {xs : List α} {ys : List β} :
    xs.mapM f = .ok ys ↔ List.Forall₂ (fun x y => f x = .ok y) xs ys := by
  induction xs generalizing ys with
  | nil =>
    rw [List.mapM_nil, List.forall₂_nil_left_iff]
    exact ⟨fun h => (by cases h; rfl), fun h => (by rw [h]; rfl)⟩
  | cons x xs ih =>
    rw [List.mapM_cons, except_bind_eq_ok, List.forall₂_cons_left_iff]
    constructor
    · rintro ⟨y, hy, h⟩
      obtain ⟨ys', hys, h⟩ := except_bind_eq_ok.1 h
      cases h
      exact ⟨y, ys', hy, ih.1 hys, rfl⟩
    · rintro ⟨y, ys', hy, hys, rfl⟩
      exact ⟨y, hy, except_bind_eq_ok.2 ⟨ys', ih.2 hys, rfl⟩⟩

theorem mapM_eq_some {α β : Type} {f : α → Option β} {xs : List α} {ys : List β} :
    xs.mapM f = some ys ↔ xs.map f = ys.map some := by
  induction xs generalizing ys with
  | nil => cases ys <;> simp
  | cons x xs ih =>
    rw [List.mapM_cons, List.map_cons]
    cases hx : f x with
    | none => cases ys <;> simp
    | some y =>
      cases ys with
      | nil => cases xs.mapM f <;> simp
      | cons y' ys =>
        rw [List.map_cons, List.cons.injEq, ← ih]
        cases xs.mapM f <;> simp

theorem exists_mapM {α β : Type} {f : α → Option β} {xs : List α} (h : ∀ x ∈ xs, ∃ y, f x = some y) :
    ∃ ys, xs.mapM f = some ys := by
  induction xs with
  | nil => exact ⟨[], rfl⟩
  | cons x xs ih =>
    obtain ⟨⟨y, hy⟩, hxs⟩ := List.forall_mem_cons.1 h
    obtain ⟨ys, hys⟩ := ih hxs
    exact ⟨y :: ys, by rw [List.mapM_cons, hy, hys]; rfl⟩

theorem mem_mapM {α β : Type} {f : α → Option β} {xs : List α} {ys : List β} (h : xs.mapM f = some ys) (y : β) :
    y ∈ ys ↔ ∃ x ∈ xs, f x = some y := by
  have hm : some y ∈ xs.map f ↔ some y ∈ ys.map some := by rw [mapM_eq_some.1 h]
  rw [List.mem_map] at hm
  rw [hm]
  simp

structure Decoder (E α : Type) where
  run : Bytes → Except E (α × Bytes)
  suffix : ∀ bs a rest, run bs = .ok (a, rest) → rest <:+ bs

namespace Decoder

variable {E α β : Type}

instance : Monad (Decoder E) where
  pure a := ⟨fun bs => .ok (a, bs), fun bs a rest h => by cases h; exact List.suffix_refl _⟩
  bind d f :=
    { run := fun bs => match d.run bs with
        | .error e => .error e
        | .ok (a, mid) => (f a).run mid
      suffix := fun bs b rest h => by
        split at h
        · cases h
        · rename_i a mid ha
          exact ((f a).suffix _ _ _ h).trans (d.suffix _ _ _ ha) }

@[simp] theorem run_pure (a : α) (bs : Bytes) : (pure a : Decoder E α).run bs = .ok (a, bs) := rfl

theorem run_bind (d : Decoder E α) (f : α → Decoder E β) (bs : Bytes) :
    (d >>= f).run bs = match d.run bs with
      | .error e => .error e
      | .ok (a, mid) => (f a).run mid := rfl

/-- A composition succeeds through an intermediate value and rest. -/
theorem bind_eq_ok {d : Decoder E α} {f : α → Decoder E β} {bs rest : Bytes} {b : β} :
    (d >>= f).run bs = .ok (b, rest) ↔ ∃ a mid, d.run bs = .ok (a, mid) ∧ (f a).run mid = .ok (b, rest) := by
  rw [run_bind]
  cases h : d.run bs with
  | error e => simp
  | ok r =>
    obtain ⟨a, mid⟩ := r
    constructor
    · exact fun hf => ⟨a, mid, rfl, hf⟩
    · rintro ⟨a', mid', he, hf⟩
      cases he
      exact hf

theorem pure_eq_ok {a b : α} {bs rest : Bytes} :
    (pure a : Decoder E α).run bs = .ok (b, rest) ↔ b = a ∧ rest = bs := by
  simp [eq_comm]

theorem length_le {d : Decoder E α} {bs rest : Bytes} {a : α} (h : d.run bs = .ok (a, rest)) :
    rest.length ≤ bs.length := (d.suffix _ _ _ h).length_le

def fail (e : E) : Decoder E α := ⟨fun _ => .error e, fun _ _ _ h => by cases h⟩

@[simp] theorem run_fail (e : E) (bs : Bytes) : (fail e : Decoder E α).run bs = .error e := rfl

def mapError {F : Type} (d : Decoder E α) (f : E → F) : Decoder F α where
  run bs := match d.run bs with
    | .error e => .error (f e)
    | .ok r => .ok r
  suffix bs a rest h := by
    split at h
    · cases h
    · rename_i r hr
      cases h
      exact d.suffix _ _ _ hr

/-! ## Integers and raw bytes -/

def byte (eof : E) : Decoder E UInt8 where
  run
    | [] => .error eof
    | b :: rest => .ok (b, rest)
  suffix bs a rest h := by
    cases bs with
    | nil => cases h
    | cons b bs => cases h; exact List.suffix_cons _ _

theorem byte_length_lt {eof : E} {bs rest : Bytes} {b : UInt8} (h : (byte eof).run bs = .ok (b, rest)) :
    rest.length < bs.length := by
  cases bs with
  | nil => cases h
  | cons b bs => cases h; simp

def u16le (eof : E) : Decoder E UInt16 := do
  let a ← byte eof
  let b ← byte eof
  return a.toUInt16 + b.toUInt16 * 256

def u32le (eof : E) : Decoder E UInt32 := do
  let a ← u16le eof
  let b ← u16le eof
  return a.toUInt32 + b.toUInt32 * 65536

def u64le (eof : E) : Decoder E UInt64 := do
  let a ← u32le eof
  let b ← u32le eof
  return a.toUInt64 + b.toUInt64 * 4294967296

/-- Exactly `n` bytes. -/
def take (eof : E) (n : Nat) : Decoder E Bytes where
  run bs := if bs.length < n then .error eof else .ok (bs.take n, bs.drop n)
  suffix bs a rest h := by
    split at h
    · cases h
    · cases h; exact List.drop_suffix _ _

/-- One byte with a fixed value. -/
def reserved (eof : E) (unexpected : UInt8 → E) (value : UInt8) : Decoder E Unit := do
  let b ← byte eof
  if b = value then return () else fail (unexpected b)

/-- A tag byte, 0 or 1, and a value under the latter. -/
def option (eof : E) (unexpected : UInt8 → E) (d : Decoder E α) : Decoder E (Option α) := do
  let tag ← byte eof
  if tag = 0 then return none
  else if tag = 1 then return some (← d)
  else fail (unexpected tag)

/-- An absent option is a zero byte. -/
theorem option_eq_none {eof : E} {u : UInt8 → E} {d : Decoder E α} {bs rest : Bytes} :
    (option eof u d).run bs = .ok (none, rest) ↔ bs = 0 :: rest := by
  cases bs with
  | nil => simp [option, run_bind, byte]
  | cons b bs =>
    simp only [option, run_bind, byte]
    by_cases h0 : b = 0
    · simp [h0, eq_comm]
    · by_cases h1 : b = 1
      · simp only [h1]
        constructor
        · intro h
          have h' : (d >>= fun a => pure (some a)).run bs = .ok (none, rest) := h
          obtain ⟨a, mid, _, hp⟩ := bind_eq_ok.1 h'
          cases hp
        · rintro h
          cases h
      · simp [h0, h1]

theorem reserved_eq_ok {eof : E} {u : UInt8 → E} {v : UInt8} {bs rest : Bytes} :
    (reserved eof u v).run bs = .ok ((), rest) ↔ bs = v :: rest := by
  cases bs with
  | nil => simp [reserved, run_bind, byte]
  | cons b bs =>
    simp only [reserved, run_bind, byte]
    by_cases h : b = v
    · simp [h, eq_comm]
    · simp [h]

/-! ## Repetition -/

def times (d : Decoder E α) : Nat → Decoder E (List α)
  | 0 => pure []
  | n + 1 => do
    let a ← d
    let as ← times d n
    return a :: as

theorem times_zero_eq_ok {d : Decoder E α} {bs rest : Bytes} {as : List α} :
    (times d 0).run bs = .ok (as, rest) ↔ as = [] ∧ rest = bs := pure_eq_ok

theorem times_succ_eq_ok {d : Decoder E α} {n : Nat} {bs rest : Bytes} {as : List α} :
    (times d (n + 1)).run bs = .ok (as, rest) ↔
      ∃ a mid as', d.run bs = .ok (a, mid) ∧ (times d n).run mid = .ok (as', rest) ∧ as = a :: as' := by
  simp only [times, bind_eq_ok, pure_eq_ok]
  constructor
  · rintro ⟨a, mid, ha, as', r, has, rfl, rfl⟩
    exact ⟨a, mid, as', ha, has, rfl⟩
  · rintro ⟨a, mid, as', ha, has, rfl⟩
    exact ⟨a, mid, ha, as', rest, has, rfl, rfl⟩

end Decoder

/-! ## Readers -/

/-- What a reader yields call by call: values, then its end or an error. -/
inductive Feed (E ρ α : Type) where
  | done (end_ : ρ)
  | failed (e : E)
  | next (a : α) (more : Feed E ρ α)

namespace Feed

variable {E ρ α : Type}

/-- The feed read to its end. -/
def collect : Feed E ρ α → Except E (List α × ρ)
  | done r => .ok ([], r)
  | failed e => .error e
  | next a more => match collect more with
    | .error e => .error e
    | .ok (as, r) => .ok (a :: as, r)

def ofList (r : ρ) : List α → Feed E ρ α
  | [] => done r
  | a :: as => next a (ofList r as)

theorem collect_ofList (r : ρ) (as : List α) : (ofList r as : Feed E ρ α).collect = .ok (as, r) := by
  induction as with
  | nil => rfl
  | cons a as ih => simp [ofList, collect, ih]

theorem collect_next_eq_ok {a : α} {more : Feed E ρ α} {as : List α} {r : ρ} :
    (next a more).collect = .ok (as, r) ↔ ∃ as', more.collect = .ok (as', r) ∧ as = a :: as' := by
  simp only [collect]
  cases more.collect with
  | error e => simp
  | ok p => obtain ⟨as', r'⟩ := p; simp [eq_comm, and_comm]

/-- What a feed yields, whether or not it fails afterwards. -/
def items : Feed E ρ α → List α
  | done _ => []
  | failed _ => []
  | next a more => a :: more.items

theorem items_of_collect {f : Feed E ρ α} : ∀ {as : List α} {r : ρ}, f.collect = .ok (as, r) → f.items = as := by
  induction f with
  | done r =>
    intro as r' h
    cases h
    rfl
  | failed e =>
    intro as r' h
    cases h
  | next a more ih =>
    intro as r h
    obtain ⟨as', hm, rfl⟩ := collect_next_eq_ok.1 h
    rw [items, ih hm]

end Feed

end Decode
