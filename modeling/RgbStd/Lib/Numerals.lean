import Mathlib.Data.Nat.Digits.Lemmas
/-!
# Numerals of a fixed width, the most significant digit first

`value` reads a numeral and `digits` writes one, as Mathlib's `ofDigits` and `digitsAppend` do with the
least significant digit first. Numerals of one width are in the order of their values, which is what
`value_lt_iff` says of big-endian bytes.

| here | is |
| --- | --- |
| `value`, `digits`      | numerals of any base |
| `ofBytes`, `toBytes`   | base 256, as bytes |
| `ofBeBytes`, `toBeBytes` | `u64::from_be_bytes`, `u64::to_be_bytes` |
-/
namespace Numerals

def value (base : Nat) (ds : List Nat) : Nat := Nat.ofDigits base ds.reverse

def digits (base width n : Nat) : List Nat := (Nat.digitsAppend base width n).reverse

variable {base : Nat}

@[simp] theorem value_nil : value base [] = 0 := rfl

theorem value_cons (d : Nat) (ds : List Nat) : value base (d :: ds) = d * base ^ ds.length + value base ds := by
  rw [value, List.reverse_cons, Nat.ofDigits_append, List.length_reverse, Nat.ofDigits_singleton, Nat.add_comm,
    Nat.mul_comm]
  rfl

theorem value_lt (hb : 1 < base) {ds : List Nat} (h : ∀ d ∈ ds, d < base) : value base ds < base ^ ds.length := by
  rw [← List.length_reverse]
  exact Nat.ofDigits_lt_base_pow_length hb fun d hd => h d (List.mem_reverse.1 hd)

theorem length_digits (hb : 1 < base) {width n : Nat} (h : n < base ^ width) :
    (digits base width n).length = width := by
  rw [digits, List.length_reverse, Nat.length_digitsAppend hb width h]

theorem lt_of_mem_digits (hb : 1 < base) {width n d : Nat} (h : d ∈ digits base width n) : d < base :=
  Nat.lt_of_mem_digitsAppend hb width d (List.mem_reverse.1 h)

/-- A number is read back from its numeral. -/
theorem value_digits (width n : Nat) : value base (digits base width n) = n := by
  rw [value, digits, List.reverse_reverse, Nat.digitsAppend, Nat.ofDigits_append_replicate_zero, Nat.ofDigits_digits]

/-- A numeral is written back from its value. -/
theorem digits_value (hb : 1 < base) {ds : List Nat} (h : ∀ d ∈ ds, d < base) :
    digits base ds.length (value base ds) = ds := by
  have hrev : Nat.digitsAppend base ds.length (Nat.ofDigits base ds.reverse) = ds.reverse :=
    (Nat.setInvOn_digitsAppend_ofDigits hb ds.length).1 ⟨List.length_reverse, fun d hd => h d (List.mem_reverse.1 hd)⟩
  rw [digits, value, hrev, List.reverse_reverse]

/-- **Numerals of one width** are in the order of their values. -/
theorem value_lt_iff (hb : 1 < base) : ∀ {as bs : List Nat}, as.length = bs.length → (∀ d ∈ as, d < base) →
    (∀ d ∈ bs, d < base) → (value base as < value base bs ↔ as < bs)
  | [], [], _, _, _ => by simp
  | [], _ :: _, hl, _, _ => by simp at hl
  | _ :: _, [], hl, _, _ => by simp at hl
  | a :: as, b :: bs, hl, ha, hbs => by
    have hl' : as.length = bs.length := Nat.succ.inj hl
    have ha' := fun d hd => ha d (List.mem_cons_of_mem a hd)
    have hb' := fun d hd => hbs d (List.mem_cons_of_mem b hd)
    have hva := value_lt hb ha'
    have hvb := value_lt hb hb'
    rw [List.cons_lt_cons_iff, value_cons, value_cons, ← value_lt_iff hb hl' ha' hb']
    rw [hl'] at hva ⊢
    -- A difference of the first digits outweighs all the others.
    rcases Nat.lt_trichotomy a b with h | h | h
    · have := Nat.mul_le_mul_right (base ^ bs.length) (Nat.succ_le_of_lt h)
      rw [Nat.succ_mul] at this
      exact ⟨fun _ => Or.inl h, fun _ => by omega⟩
    · subst h
      simp
    · have := Nat.mul_le_mul_right (base ^ bs.length) (Nat.succ_le_of_lt h)
      rw [Nat.succ_mul] at this
      exact ⟨fun _ => by omega, fun hor => by rcases hor with h' | h' <;> omega⟩

/-! ## Bytes -/

def ofBytes (bs : List UInt8) : Nat := value 256 (bs.map UInt8.toNat)

def toBytes (width n : Nat) : List UInt8 := (digits 256 width n).map UInt8.ofNat

theorem lt_of_mem_bytes {bs : List UInt8} {d : Nat} (h : d ∈ bs.map UInt8.toNat) : d < 256 := by
  obtain ⟨b, -, rfl⟩ := List.mem_map.1 h
  exact b.toNat_lt

theorem ofBytes_lt (bs : List UInt8) : ofBytes bs < 256 ^ bs.length := by
  have := value_lt (by decide) fun d (h : d ∈ bs.map UInt8.toNat) => lt_of_mem_bytes h
  rwa [List.length_map] at this

theorem length_toBytes {width n : Nat} (h : n < 256 ^ width) : (toBytes width n).length = width := by
  rw [toBytes, List.length_map, length_digits (by decide) h]

theorem map_toNat_toBytes (width n : Nat) : (toBytes width n).map UInt8.toNat = digits 256 width n := by
  rw [toBytes, List.map_map]
  refine (List.map_congr_left fun d hd => ?_).trans (List.map_id _)
  exact UInt8.toNat_ofNat_of_lt' (lt_of_mem_digits (by decide) hd)

theorem ofBytes_toBytes (width n : Nat) : ofBytes (toBytes width n) = n := by
  rw [ofBytes, map_toNat_toBytes, value_digits]

theorem toBytes_ofBytes (bs : List UInt8) : toBytes bs.length (ofBytes bs) = bs := by
  have hd := digits_value (by decide) fun d (h : d ∈ bs.map UInt8.toNat) => lt_of_mem_bytes h
  rw [List.length_map] at hd
  rw [toBytes, ofBytes, hd, List.map_map]
  exact (List.map_congr_left fun b _ => UInt8.ofNat_toNat).trans (List.map_id _)

theorem map_toNat_lt_iff {as bs : List UInt8} : as.map UInt8.toNat < bs.map UInt8.toNat ↔ as < bs := by
  induction as generalizing bs with
  | nil => cases bs <;> simp
  | cons a as ih =>
    cases bs with
    | nil => simp
    | cons b bs =>
      rw [List.map_cons, List.map_cons, List.cons_lt_cons_iff, List.cons_lt_cons_iff, ih, UInt8.toNat_inj,
        UInt8.lt_iff_toNat_lt]

/-- As many bytes are in the order of their values. -/
theorem ofBytes_lt_iff {as bs : List UInt8} (h : as.length = bs.length) : ofBytes as < ofBytes bs ↔ as < bs := by
  rw [← map_toNat_lt_iff]
  exact value_lt_iff (by decide) (by simpa using h) (fun _ => lt_of_mem_bytes) fun _ => lt_of_mem_bytes

/-! ## Eight bytes -/

/-- `u64::from_be_bytes`. -/
def ofBeBytes (bs : Vector UInt8 8) : UInt64 := UInt64.ofNat (ofBytes bs.toList)

/-- `u64::to_be_bytes`. -/
def toBeBytes (n : UInt64) : Vector UInt8 8 :=
  ⟨(toBytes 8 n.toNat).toArray, by rw [List.size_toArray, length_toBytes n.toNat_lt]⟩

theorem toList_toBeBytes (n : UInt64) : (toBeBytes n).toList = toBytes 8 n.toNat := rfl

theorem toNat_ofBeBytes (bs : Vector UInt8 8) : (ofBeBytes bs).toNat = ofBytes bs.toList := by
  have hlt : ofBytes bs.toList < 256 ^ 8 := by simpa using ofBytes_lt bs.toList
  exact UInt64.toNat_ofNat_of_lt' hlt

@[simp] theorem ofBeBytes_toBeBytes (n : UInt64) : ofBeBytes (toBeBytes n) = n := by
  rw [← UInt64.toNat_inj, toNat_ofBeBytes, toList_toBeBytes, ofBytes_toBytes]

@[simp] theorem toBeBytes_ofBeBytes (bs : Vector UInt8 8) : toBeBytes (ofBeBytes bs) = bs := by
  have h := toBytes_ofBytes bs.toList
  rw [Vector.length_toList] at h
  apply Vector.toList_inj.1
  rw [toList_toBeBytes, toNat_ofBeBytes, h]

/-- Big-endian bytes are in the order of the numbers. -/
theorem toBeBytes_lt_iff (a b : UInt64) : (toBeBytes a).toList < (toBeBytes b).toList ↔ a.toNat < b.toNat := by
  rw [← ofBytes_lt_iff (by simp), toList_toBeBytes, toList_toBeBytes, ofBytes_toBytes, ofBytes_toBytes]

end Numerals
