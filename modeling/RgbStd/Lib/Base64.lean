import RgbStd.Lib.Decode
import RgbStd.Lib.Numerals
import Mathlib.Data.List.Nodup
/-!
# Base64 without padding, over any alphabet

Three bytes are four digits of base 64. One or two bytes at the end are two or three, the last one filled up
with zero bits; other bits in their place are not accepted, nor is a single digit.

| here | is |
| --- | --- |
| `Alphabet`         | 64 different characters |
| `pack`, `unpack`   | up to three bytes as digits, one more than the bytes |
| `encode`, `decode` | bytes as characters |

`decode_eq_some` says that the characters of some bytes are the only ones read as these bytes, and
`exists_encode_iff` which characters those of so many bytes are.
-/
namespace Base64
open Numerals

structure Alphabet where
  symbols : List Char
  length_eq : symbols.length = 64
  nodup : symbols.Nodup

/-! ## Groups -/

def pack (bs : List UInt8) : List Nat := digits 64 (bs.length + 1) (ofBytes bs * 4 ^ (3 - bs.length))

/-- The digits of a group of so many bytes. -/
def unpack (k : Nat) (ds : List Nat) : Option (List UInt8) :=
  if value 64 ds % 4 ^ (3 - k) = 0 then some (toBytes k (value 64 ds / 4 ^ (3 - k))) else none

theorem pack_lt {bs : List UInt8} (h : bs.length ≤ 3) : ofBytes bs * 4 ^ (3 - bs.length) < 64 ^ (bs.length + 1) := by
  have hlt := ofBytes_lt bs
  have hpow : 256 ^ bs.length * 4 ^ (3 - bs.length) = 64 ^ (bs.length + 1) := by
    obtain h | h | h | h : bs.length = 0 ∨ bs.length = 1 ∨ bs.length = 2 ∨ bs.length = 3 := by omega
    all_goals rw [h]; rfl
  rw [← hpow]
  exact Nat.mul_lt_mul_of_pos_right hlt (Nat.pow_pos (by decide))

theorem length_pack {bs : List UInt8} (h : bs.length ≤ 3) : (pack bs).length = bs.length + 1 :=
  length_digits (by decide) (pack_lt h)

theorem lt_of_mem_pack {bs : List UInt8} {d : Nat} (h : d ∈ pack bs) : d < 64 := lt_of_mem_digits (by decide) h

/-- **A group of digits** is read as the bytes it is written for, and as no others. -/
theorem unpack_eq_some {k : Nat} {ds : List Nat} {bs : List UInt8} (hk : k ≤ 3) (hlen : ds.length = k + 1)
    (hds : ∀ d ∈ ds, d < 64) : unpack k ds = some bs ↔ bs.length = k ∧ pack bs = ds := by
  have hpos : 0 < 4 ^ (3 - k) := Nat.pow_pos (by decide)
  unfold unpack
  constructor
  · intro h
    split at h
    · rename_i hdvd
      cases h
      have hmul : value 64 ds / 4 ^ (3 - k) * 4 ^ (3 - k) = value 64 ds :=
        Nat.div_mul_cancel (Nat.dvd_of_mod_eq_zero hdvd)
      have hpow : 256 ^ k * 4 ^ (3 - k) = 64 ^ (k + 1) := by
        obtain rfl | rfl | rfl | rfl : k = 0 ∨ k = 1 ∨ k = 2 ∨ k = 3 := by omega
        all_goals rfl
      have hlt : value 64 ds / 4 ^ (3 - k) < 256 ^ k := by
        rw [Nat.div_lt_iff_lt_mul hpos, hpow, ← hlen]
        exact value_lt (by decide) hds
      have hbytes := length_toBytes hlt
      refine ⟨hbytes, ?_⟩
      rw [pack, hbytes, ofBytes_toBytes, hmul, ← hlen, digits_value (by decide) hds]
    · cases h
  · rintro ⟨rfl, rfl⟩
    rw [pack, value_digits, if_pos (Nat.mul_mod_left _ _), Nat.mul_div_cancel _ hpos, toBytes_ofBytes]

/-! ## Digits -/

def toDigits : List UInt8 → List Nat
  | a :: b :: c :: bs => pack [a, b, c] ++ toDigits bs
  | [a, b] => pack [a, b]
  | [a] => pack [a]
  | [] => []

def ofDigits : List Nat → Option (List UInt8)
  | a :: b :: c :: d :: ds => do return (← unpack 3 [a, b, c, d]) ++ (← ofDigits ds)
  | [a, b, c] => unpack 2 [a, b, c]
  | [a, b] => unpack 1 [a, b]
  | [_] => none
  | [] => some []

theorem lt_of_mem_toDigits : ∀ {bs : List UInt8} {d : Nat}, d ∈ toDigits bs → d < 64
  | a :: b :: c :: bs, d, h => by
    rw [toDigits, List.mem_append] at h
    exact h.elim lt_of_mem_pack lt_of_mem_toDigits
  | [a, b], d, h => lt_of_mem_pack h
  | [a], d, h => lt_of_mem_pack h
  | [], d, h => absurd h List.not_mem_nil

theorem length_toDigits : ∀ bs : List UInt8, (toDigits bs).length = (4 * bs.length + 2) / 3
  | a :: b :: c :: bs => by
    have hlen : (pack [a, b, c]).length = 4 := length_pack (Nat.le_refl 3)
    rw [toDigits, List.length_append, hlen, length_toDigits bs]
    simp only [List.length_cons]
    omega
  | [a, b] => by
    have hlen : (pack [a, b]).length = 3 := length_pack (Nat.le_succ 2)
    rw [toDigits, hlen]
    simp
  | [a] => by
    have hlen : (pack [a]).length = 2 := length_pack (Nat.le_add_left 1 2)
    rw [toDigits, hlen]
    simp
  | [] => rfl

theorem toDigits_eq_pack {bs : List UInt8} (h0 : 0 < bs.length) (h3 : bs.length < 3) : toDigits bs = pack bs := by
  match bs with
  | [a] => rfl
  | [a, b] => rfl
  | [] => exact absurd h0 (Nat.lt_irrefl 0)
  | a :: b :: c :: bs => simp only [List.length_cons] at h3; omega

/-- The last one or two bytes. -/
theorem unpack_eq_some_toDigits {k : Nat} {ds : List Nat} {bs : List UInt8} (h0 : 0 < k) (h3 : k < 3)
    (hlen : ds.length = k + 1) (hds : ∀ d ∈ ds, d < 64) : unpack k ds = some bs ↔ toDigits bs = ds := by
  rw [unpack_eq_some (Nat.le_of_lt h3) hlen hds]
  constructor
  · rintro ⟨rfl, hp⟩
    rw [toDigits_eq_pack h0 h3, hp]
  · intro h
    have hl := length_toDigits bs
    rw [h, hlen] at hl
    have hk : bs.length = k := by omega
    exact ⟨hk, by rw [← h, toDigits_eq_pack (by omega) (by omega)]⟩

theorem ofDigits_eq_some : ∀ {ds : List Nat} {bs : List UInt8}, (∀ d ∈ ds, d < 64) →
    (ofDigits ds = some bs ↔ toDigits bs = ds)
  | a :: b :: c :: d :: ds, bs, hds => by
    have hgroup : ∀ x ∈ [a, b, c, d], x < 64 := fun x hx => hds x (List.mem_append_left ds hx)
    have hrest : ∀ x ∈ ds, x < 64 := fun x hx => hds x (List.mem_append_right [a, b, c, d] hx)
    simp only [ofDigits, Option.bind_eq_bind, Option.bind_eq_some_iff, Option.pure_def, Option.some.injEq]
    constructor
    · rintro ⟨group, hg, rest, hr, rfl⟩
      obtain ⟨h3, hp⟩ := (unpack_eq_some (Nat.le_refl 3) rfl hgroup).1 hg
      obtain ⟨x, y, z, rfl⟩ := List.length_eq_three.1 h3
      show pack [x, y, z] ++ toDigits rest = _
      rw [hp, (ofDigits_eq_some hrest).1 hr]
      rfl
    · intro h
      have hl := length_toDigits bs
      rw [h] at hl
      simp only [List.length_cons] at hl
      -- There are digits for three bytes.
      match bs with
      | x :: y :: z :: bs =>
        rw [toDigits] at h
        have hlen : (pack [x, y, z]).length = 4 := length_pack (Nat.le_refl 3)
        obtain ⟨hp, hr⟩ : pack [x, y, z] = [a, b, c, d] ∧ toDigits bs = ds := List.append_inj h hlen
        exact ⟨[x, y, z], (unpack_eq_some (Nat.le_refl 3) rfl hgroup).2 ⟨rfl, hp⟩, bs,
          (ofDigits_eq_some hrest).2 hr, rfl⟩
      | [] | [_] | [_, _] => simp only [List.length_cons, List.length_nil] at hl; omega
  | [a, b, c], bs, hds => unpack_eq_some_toDigits (Nat.succ_pos 1) (Nat.lt_succ_self 2) rfl hds
  | [a, b], bs, hds => unpack_eq_some_toDigits (Nat.succ_pos 0) (Nat.lt_add_of_pos_right (Nat.succ_pos 1)) rfl hds
  | [a], bs, _ => by
    have hl := length_toDigits bs
    refine ⟨fun h => (by cases h), fun h => ?_⟩
    rw [h, List.length_singleton] at hl
    omega
  | [], bs, _ => by
    have hl := length_toDigits bs
    refine ⟨fun h => (by cases h; rfl), fun h => ?_⟩
    rw [h, List.length_nil] at hl
    rw [List.eq_nil_of_length_eq_zero (by omega : bs.length = 0)]
    rfl

/-- The value of digits leaves the remainders of the last one. -/
theorem value_concat_mod (ds : List Nat) (d : Nat) {m : Nat} (h : m ∣ 64) : value 64 (ds ++ [d]) % m = d % m := by
  obtain ⟨k, hk⟩ := h.mul_right (Nat.ofDigits 64 ds.reverse)
  rw [value, List.reverse_append, List.reverse_singleton, List.singleton_append, Nat.ofDigits_cons, hk]
  exact Nat.add_mul_mod_self_left d m k

theorem exists_unpack_iff {k : Nat} {ds : List Nat} :
    (∃ bs, unpack k ds = some bs) ↔ value 64 ds % 4 ^ (3 - k) = 0 := by
  unfold unpack
  split <;> simp_all

/-- **The digits that are read**: those of whole bytes, with no bits left at the end. -/
theorem exists_ofDigits_iff : ∀ {ds : List Nat}, (∃ bs, ofDigits ds = some bs) ↔
    ds.length % 4 ≠ 1 ∧ ∀ d ∈ ds.getLast?, d % 4 ^ ((4 - ds.length % 4) % 4) = 0
  | a :: b :: c :: d :: ds => by
    have hgroup : unpack 3 [a, b, c, d] = some (toBytes 3 (value 64 [a, b, c, d] / 1)) := if_pos (Nat.mod_one _)
    have hsome : (∃ bs, ofDigits (a :: b :: c :: d :: ds) = some bs) ↔ ∃ bs, ofDigits ds = some bs := by
      rw [ofDigits, hgroup]
      cases ofDigits ds <;> simp
    have hmod : (a :: b :: c :: d :: ds).length % 4 = ds.length % 4 := Nat.add_mod_right ds.length 4
    rw [hsome, exists_ofDigits_iff, hmod]
    cases ds with
    | nil => simp [Nat.mod_one]
    | cons e ds => simp
  | [a, b, c] => by
    have hlast : value 64 [a, b, c] % 4 = c % 4 := value_concat_mod [a, b] c (by decide)
    rw [ofDigits, exists_unpack_iff]
    simp [hlast]
  | [a, b] => by
    have hlast : value 64 [a, b] % 16 = b % 16 := value_concat_mod [a] b (by decide)
    rw [ofDigits, exists_unpack_iff]
    simp [hlast]
  | [a] => by simp [ofDigits]
  | [] => by simp [ofDigits]

/-! ## Characters -/

namespace Alphabet

variable (A : Alphabet)

def symbol (d : Nat) : Char := A.symbols[d]?.getD 'A'

def index (c : Char) : Option Nat := A.symbols.idxOf? c

def encode (bs : List UInt8) : List Char := (toDigits bs).map A.symbol

def decode (s : List Char) : Option (List UInt8) := do ofDigits (← s.mapM A.index)

variable {A}

theorem symbol_eq {d : Nat} (h : d < A.symbols.length) : A.symbol d = A.symbols[d] := by
  rw [symbol, List.getElem?_eq_getElem h, Option.getD_some]

theorem index_eq_some {c : Char} {d : Nat} : A.index c = some d ↔ d < 64 ∧ A.symbol d = c := by
  rw [index, List.idxOf?_eq_some_iff, ← A.length_eq]
  constructor
  · rintro ⟨h, hc, -⟩
    exact ⟨h, (symbol_eq h).trans hc⟩
  · rintro ⟨h, rfl⟩
    rw [symbol_eq h]
    exact ⟨h, rfl, fun j hj he => Nat.ne_of_lt hj ((A.nodup.getElem_inj_iff).1 he)⟩

theorem mapM_index {s : List Char} {ds : List Nat} :
    s.mapM A.index = some ds ↔ (∀ d ∈ ds, d < 64) ∧ s = ds.map A.symbol := by
  rw [Decode.mapM_eq_some]
  induction s generalizing ds with
  | nil => cases ds <;> simp
  | cons c s ih =>
    cases ds with
    | nil => simp
    | cons d ds =>
      simp only [List.map_cons, List.cons.injEq, ih, index_eq_some, List.forall_mem_cons]
      grind

/-- **Base64**: what is written for some bytes, and nothing else, is read as these bytes. -/
theorem decode_eq_some {s : List Char} {bs : List UInt8} : A.decode s = some bs ↔ s = A.encode bs := by
  simp only [decode, Option.bind_eq_bind, Option.bind_eq_some_iff, mapM_index, encode]
  constructor
  · rintro ⟨ds, ⟨hds, rfl⟩, h⟩
    rw [(ofDigits_eq_some hds).1 h]
  · rintro rfl
    have hds : ∀ d ∈ toDigits bs, d < 64 := fun d => lt_of_mem_toDigits
    exact ⟨toDigits bs, ⟨hds, rfl⟩, (ofDigits_eq_some hds).2 rfl⟩

theorem symbol_mem {d : Nat} (h : d < 64) : A.symbol d ∈ A.symbols := by
  rw [symbol_eq (h.trans_eq A.length_eq.symm)]
  exact List.getElem_mem _

theorem mem_encode {bs : List UInt8} {c : Char} (h : c ∈ A.encode bs) : c ∈ A.symbols := by
  obtain ⟨d, hd, rfl⟩ := List.mem_map.1 h
  exact symbol_mem (lt_of_mem_toDigits hd)

theorem exists_index {c : Char} (h : c ∈ A.symbols) : ∃ d, A.index c = some d :=
  Option.isSome_iff_exists.1 (List.isSome_idxOf?.2 h)

/-- **The texts of so many bytes**: their length, and the bits that the last character has left. -/
theorem exists_encode_iff {s : List Char} (hs : ∀ c ∈ s, c ∈ A.symbols) (n : Nat) :
    (∃ bs, bs.length = n ∧ s = A.encode bs) ↔ s.length = (4 * n + 2) / 3 ∧
      ∀ d ∈ s.getLast?.bind A.index, d % 4 ^ ((4 - s.length % 4) % 4) = 0 := by
  obtain ⟨ds, hmap⟩ := Decode.exists_mapM fun c hc => exists_index (hs c hc)
  obtain ⟨hds, rfl⟩ := mapM_index.1 hmap
  have hread : ∀ bs, ds.map A.symbol = A.encode bs ↔ ofDigits ds = some bs := by
    intro bs
    rw [← decode_eq_some, decode, hmap]
    rfl
  have hlast : (ds.map A.symbol).getLast?.bind A.index = ds.getLast? := by
    rw [List.getLast?_map]
    cases hd : ds.getLast? with
    | none => rfl
    | some d => exact index_eq_some.2 ⟨hds d (List.mem_of_getLast? hd), rfl⟩
  have hlength : ∀ bs, ofDigits ds = some bs → ds.length = (4 * bs.length + 2) / 3 := fun bs h => by
    rw [← (ofDigits_eq_some hds).1 h, length_toDigits]
  simp only [hread, hlast, List.length_map]
  constructor
  · rintro ⟨bs, rfl, hbs⟩
    exact ⟨hlength bs hbs, (exists_ofDigits_iff.1 ⟨bs, hbs⟩).2⟩
  · rintro ⟨hlen, hbits⟩
    obtain ⟨bs, hbs⟩ := exists_ofDigits_iff.2 ⟨by omega, hbits⟩
    have := hlength bs hbs
    exact ⟨bs, by omega, hbs⟩

end Alphabet

end Base64
