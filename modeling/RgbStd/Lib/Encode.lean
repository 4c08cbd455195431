import RgbStd.Lib.Decode
/-!
# Encoders

`d.Reads enc` says that the decoder `d` reads back what `enc` writes, whatever follows it;
`d.Sized enc` that a value is never read from more or fewer bytes than `enc` writes for it, and `d.Exact enc`
that it is never read from other bytes. They are put together along the way a decoder is: `Reads.run_bind`
steps over one component of a record.

| here | reads back with |
| --- | --- |
| `encodeU16`, `encodeU32`, `encodeU64` | `u16le`, `u32le`, `u64le` |
| `encodeOption`  | `option` |
| `encodeBlob`    | a length, and `take` |
| `encodeList`    | a length, and `times` |
| `encodeUnary`, `encodeMany` | `unary`, `many`: numbers and lists without a bound |
| `enc ∘ g`       | `filterMap`, which refuses what `g` does not write |
-/
namespace Decode

namespace Decoder

variable {E α β γ : Type}

/-- What was written is read back, and nothing of what follows is taken. -/
def Reads (d : Decoder E α) (enc : α → Bytes) : Prop := ∀ a rest, d.run (enc a ++ rest) = .ok (a, rest)

/-- A value takes as many bytes as are written for it. -/
def Sized (d : Decoder E α) (enc : α → Bytes) : Prop :=
  ∀ bs a rest, d.run bs = .ok (a, rest) → bs.length = (enc a).length + rest.length

/-- Nothing but what is written for a value is read as this value. -/
def Exact (d : Decoder E α) (enc : α → Bytes) : Prop := ∀ bs a rest, d.run bs = .ok (a, rest) → bs = enc a ++ rest

variable {d : Decoder E α} {enc : α → Bytes} {eof : E} {u : UInt8 → E}

theorem Exact.sized (h : d.Exact enc) : d.Sized enc := by
  intro bs a rest hd
  rw [h _ _ _ hd, List.length_append]

theorem Reads.run_bind (h : d.Reads enc) (f : α → Decoder E β) (a : α) (rest : Bytes) :
    (d >>= f).run (enc a ++ rest) = (f a).run rest := by
  rw [Decoder.run_bind, h a rest]

theorem Reads.mapError {F : Type} (h : d.Reads enc) (f : E → F) : (d.mapError f).Reads enc := by
  intro a rest
  simp only [Decoder.mapError, h a rest]

theorem reads_byte : (byte eof).Reads fun b => [b] := fun _ _ => rfl

theorem exact_byte : (byte eof).Exact fun b => [b] := by
  intro bs b rest h
  cases bs with
  | nil => cases h
  | cons b' bs => cases h; rfl

theorem sized_byte : (byte eof).Sized fun b => [b] := exact_byte.sized

/-- A fixed byte is its own encoding. -/
theorem reads_reserved (v : UInt8) : (reserved eof u v).Reads fun _ => [v] :=
  fun _ _ => reserved_eq_ok.2 rfl

/-! ## Integers -/

def encodeU16 (n : UInt16) : Bytes := [n.toUInt8, (n / 256).toUInt8]

def encodeU32 (n : UInt32) : Bytes := encodeU16 n.toUInt16 ++ encodeU16 (n / 65536).toUInt16

def encodeU64 (n : UInt64) : Bytes := encodeU32 n.toUInt32 ++ encodeU32 (n / 4294967296).toUInt32

theorem reads_u16le : (u16le eof).Reads encodeU16 := by
  intro n rest
  have h : n.toUInt8.toUInt16 + (n / 256).toUInt8.toUInt16 * 256 = n := by
    apply UInt16.toNat_inj.1
    simp only [UInt16.toNat_add, UInt16.toNat_mul, UInt8.toNat_toUInt16, UInt16.toNat_toUInt8, UInt16.toNat_div,
      UInt16.reduceToNat]
    have := n.toNat_lt
    omega
  show Except.ok (n.toUInt8.toUInt16 + (n / 256).toUInt8.toUInt16 * 256, rest) = .ok (n, rest)
  rw [h]

theorem reads_u32le : (u32le eof).Reads encodeU32 := by
  intro n rest
  have h : n.toUInt16.toUInt32 + (n / 65536).toUInt16.toUInt32 * 65536 = n := by
    apply UInt32.toNat_inj.1
    simp only [UInt32.toNat_add, UInt32.toNat_mul, UInt16.toNat_toUInt32, UInt32.toNat_toUInt16, UInt32.toNat_div,
      UInt32.reduceToNat]
    have := n.toNat_lt
    omega
  unfold u32le encodeU32
  rw [List.append_assoc, reads_u16le.run_bind, reads_u16le.run_bind, h]
  rfl

theorem reads_u64le : (u64le eof).Reads encodeU64 := by
  intro n rest
  have h : n.toUInt32.toUInt64 + (n / 4294967296).toUInt32.toUInt64 * 4294967296 = n := by
    apply UInt64.toNat_inj.1
    simp only [UInt64.toNat_add, UInt64.toNat_mul, UInt32.toNat_toUInt64, UInt64.toNat_toUInt32, UInt64.toNat_div,
      UInt64.reduceToNat]
    have := n.toNat_lt
    omega
  unfold u64le encodeU64
  rw [List.append_assoc, reads_u32le.run_bind, reads_u32le.run_bind, h]
  rfl

/-- Two values of one kind put together, which are written one after the other. -/
theorem Exact.halves (h : d.Exact enc) {join : α → α → β} {enc' : β → Bytes}
    (henc : ∀ a b, enc' (join a b) = enc a ++ enc b) : Exact (do return join (← d) (← d)) enc' := by
  intro bs n rest hn
  obtain ⟨a, mid, ha, hn⟩ := bind_eq_ok.1 hn
  obtain ⟨b, mid', hb, hn⟩ := bind_eq_ok.1 hn
  obtain ⟨rfl, rfl⟩ := pure_eq_ok.1 hn
  rw [h _ _ _ ha, h _ _ _ hb, henc, List.append_assoc]

theorem exact_u16le : (u16le eof).Exact encodeU16 := by
  refine exact_byte.halves fun a b => ?_
  have ha := a.toNat_lt
  have hb := b.toNat_lt
  have hn : (a.toUInt16 + b.toUInt16 * 256).toNat = a.toNat + b.toNat * 256 := by
    simp only [UInt16.toNat_add, UInt16.toNat_mul, UInt8.toNat_toUInt16, UInt16.reduceToNat]
    omega
  have hlow : (a.toUInt16 + b.toUInt16 * 256).toUInt8 = a := by
    rw [← UInt8.toNat_inj, UInt16.toNat_toUInt8, hn]
    omega
  have hhigh : ((a.toUInt16 + b.toUInt16 * 256) / 256).toUInt8 = b := by
    have hk : (256 : UInt16).toNat = 256 := rfl
    rw [← UInt8.toNat_inj, UInt16.toNat_toUInt8, UInt16.toNat_div, hn, hk]
    omega
  rw [encodeU16, hlow, hhigh]
  rfl

theorem sized_u16le : (u16le eof).Sized encodeU16 := exact_u16le.sized

theorem exact_u32le : (u32le eof).Exact encodeU32 := by
  refine exact_u16le.halves fun a b => ?_
  have ha := a.toNat_lt
  have hb := b.toNat_lt
  have hn : (a.toUInt32 + b.toUInt32 * 65536).toNat = a.toNat + b.toNat * 65536 := by
    simp only [UInt32.toNat_add, UInt32.toNat_mul, UInt16.toNat_toUInt32, UInt32.reduceToNat]
    omega
  have hlow : (a.toUInt32 + b.toUInt32 * 65536).toUInt16 = a := by
    rw [← UInt16.toNat_inj, UInt32.toNat_toUInt16, hn]
    omega
  have hhigh : ((a.toUInt32 + b.toUInt32 * 65536) / 65536).toUInt16 = b := by
    have hk : (65536 : UInt32).toNat = 65536 := rfl
    rw [← UInt16.toNat_inj, UInt32.toNat_toUInt16, UInt32.toNat_div, hn, hk]
    omega
  rw [encodeU32, hlow, hhigh]

theorem exact_u64le : (u64le eof).Exact encodeU64 := by
  refine exact_u32le.halves fun a b => ?_
  have ha := a.toNat_lt
  have hb := b.toNat_lt
  have hn : (a.toUInt64 + b.toUInt64 * 4294967296).toNat = a.toNat + b.toNat * 4294967296 := by
    simp only [UInt64.toNat_add, UInt64.toNat_mul, UInt32.toNat_toUInt64, UInt64.reduceToNat]
    omega
  have hlow : (a.toUInt64 + b.toUInt64 * 4294967296).toUInt32 = a := by
    rw [← UInt32.toNat_inj, UInt64.toNat_toUInt32, hn]
    omega
  have hhigh : ((a.toUInt64 + b.toUInt64 * 4294967296) / 4294967296).toUInt32 = b := by
    have hk : (4294967296 : UInt64).toNat = 4294967296 := rfl
    rw [← UInt32.toNat_inj, UInt64.toNat_toUInt32, UInt64.toNat_div, hn, hk]
    omega
  rw [encodeU64, hlow, hhigh]

/-! ## Options and lists -/

def encodeOption (enc : α → Bytes) : Option α → Bytes
  | none => [0]
  | some a => 1 :: enc a

theorem Reads.option (h : d.Reads enc) : (option eof u d).Reads (encodeOption enc) := by
  intro o rest
  cases o with
  | none => exact option_eq_none.2 rfl
  | some a => exact h.run_bind (fun a => pure (some a)) a rest

theorem Sized.option (h : d.Sized enc) : (option eof u d).Sized (encodeOption enc) := by
  intro bs o rest ho
  obtain ⟨tag, mid, ht, ho⟩ := bind_eq_ok.1 ho
  have hl := sized_byte _ _ _ ht
  split at ho
  · obtain ⟨rfl, rfl⟩ := pure_eq_ok.1 ho
    exact hl
  · split at ho
    · obtain ⟨a, mid', ha, hp⟩ := bind_eq_ok.1 ho
      obtain ⟨rfl, rfl⟩ := pure_eq_ok.1 hp
      have := h _ _ _ ha
      simp only [encodeOption, List.length_cons, List.length_nil] at hl ⊢
      omega
    · cases ho

/-- A list is read back if each of its elements is. -/
theorem times_reads (as : List α) (h : ∀ a ∈ as, ∀ rest, d.run (enc a ++ rest) = .ok (a, rest)) (rest : Bytes) :
    (times d as.length).run (as.flatMap enc ++ rest) = .ok (as, rest) := by
  induction as with
  | nil => rfl
  | cons a as ih =>
    simp only [List.mem_cons, forall_eq_or_imp] at h
    rw [List.flatMap_cons, List.append_assoc]
    exact times_succ_eq_ok.2 ⟨a, _, as, h.1 _, ih h.2, rfl⟩

theorem Reads.times (h : d.Reads enc) (as : List α) (rest : Bytes) :
    (times d as.length).run (as.flatMap enc ++ rest) = .ok (as, rest) :=
  times_reads as (fun a _ => h a) rest

theorem Sized.times (h : d.Sized enc) (n : Nat) : ∀ {bs rest : Bytes} {as : List α},
    (times d n).run bs = .ok (as, rest) → bs.length = (as.flatMap enc).length + rest.length := by
  induction n with
  | zero =>
    intro bs rest as ht
    obtain ⟨rfl, rfl⟩ := times_zero_eq_ok.1 ht
    simp
  | succ n ih =>
    intro bs rest as ht
    obtain ⟨a, mid, as', ha, hs, rfl⟩ := times_succ_eq_ok.1 ht
    have h₁ := h _ _ _ ha
    have h₂ := ih hs
    rw [List.flatMap_cons, List.length_append]
    omega

theorem take_append (bs rest : Bytes) : (take eof bs.length).run (bs ++ rest) = .ok (bs, rest) := by
  have h : ¬(bs ++ rest).length < bs.length := by simp
  simp only [take, h, if_false, List.take_left', List.drop_left']

/-- A confined byte string: its length as a `u16`, and the bytes. -/
def encodeBlob (bs : Bytes) : Bytes := encodeU16 (UInt16.ofNat bs.length) ++ bs

/-- A confined list: its length as a byte, and the elements. -/
def encodeList (enc : α → Bytes) (as : List α) : Bytes := UInt8.ofNat as.length :: as.flatMap enc

/-! ## Without a bound -/

def encodeUnary (n : Nat) : Bytes := List.replicate n 1 ++ [0]

def unaryFrom (eof : E) : Bytes → Except E (Nat × Bytes)
  | [] => .error eof
  | b :: rest => if b = 0 then .ok (0, rest) else match unaryFrom eof rest with
    | .error e => .error e
    | .ok (n, rest) => .ok (n + 1, rest)

theorem length_unaryFrom (eof : E) : ∀ (bs : Bytes) (n : Nat) (rest : Bytes), unaryFrom eof bs = .ok (n, rest) →
    bs.length = n + 1 + rest.length ∧ rest <:+ bs := by
  intro bs
  induction bs with
  | nil => intro n rest h; cases h
  | cons b bs ih =>
    intro n rest h
    unfold unaryFrom at h
    split at h
    · cases h
      exact ⟨by simp [Nat.add_comm], List.suffix_cons _ _⟩
    · split at h
      · cases h
      · rename_i m rest' hm
        cases h
        obtain ⟨hl, hs⟩ := ih m rest hm
        refine ⟨?_, hs.trans (List.suffix_cons _ _)⟩
        rw [List.length_cons]
        omega

/-- As many bytes other than zero as the number, and a zero. -/
def unary (eof : E) : Decoder E Nat where
  run := unaryFrom eof
  suffix bs n rest h := (length_unaryFrom eof bs n rest h).2

theorem reads_unary : (unary eof).Reads encodeUnary := by
  intro n rest
  show unaryFrom eof (List.replicate n 1 ++ [0] ++ rest) = .ok (n, rest)
  induction n with
  | zero => rfl
  | succ n ih =>
    simp only [List.replicate_succ, List.cons_append, unaryFrom, ih]
    rfl

theorem sized_unary : (unary eof).Sized encodeUnary := by
  intro bs n rest h
  rw [(length_unaryFrom eof bs n rest h).1]
  simp [encodeUnary]

def encodeMany (enc : α → Bytes) (as : List α) : Bytes := encodeUnary as.length ++ as.flatMap enc

def many (eof : E) (d : Decoder E α) : Decoder E (List α) := unary eof >>= times d

theorem length_of_times {n : Nat} : ∀ {bs rest : Bytes} {as : List α}, (Decoder.times d n).run bs = .ok (as, rest) →
    as.length = n := by
  induction n with
  | zero => intro bs rest as h; simp [times_zero_eq_ok.1 h]
  | succ n ih =>
    intro bs rest as h
    obtain ⟨a, mid, as', _, hs, rfl⟩ := times_succ_eq_ok.1 h
    simp [ih hs]

theorem Reads.many (h : d.Reads enc) : (many eof d).Reads (encodeMany enc) := by
  intro as rest
  unfold Decoder.many encodeMany
  rw [List.append_assoc, reads_unary.run_bind]
  exact h.times as rest

theorem Sized.many (h : d.Sized enc) : (many eof d).Sized (encodeMany enc) := by
  intro bs as rest hm
  obtain ⟨n, mid, hn, ht⟩ := bind_eq_ok.1 hm
  have h₁ := sized_unary _ _ _ hn
  have h₂ := h.times n ht
  obtain rfl := length_of_times ht
  rw [encodeMany, List.length_append]
  omega

/-- A decoder with its value taken through a function, which refuses some. -/
def filterMap (d : Decoder E α) (refused : E) (f : α → Option β) : Decoder E β := do
  match f (← d) with
  | some b => return b
  | none => fail refused

theorem filterMap_eq_ok {refused : E} {f : α → Option β} {bs rest : Bytes} {b : β} :
    (d.filterMap refused f).run bs = .ok (b, rest) ↔ ∃ a, d.run bs = .ok (a, rest) ∧ f a = some b := by
  unfold Decoder.filterMap
  rw [bind_eq_ok]
  constructor
  · rintro ⟨a, mid, ha, hb⟩
    split at hb
    · rename_i b' hf
      obtain ⟨rfl, rfl⟩ := pure_eq_ok.1 hb
      exact ⟨a, ha, hf⟩
    · cases hb
  · rintro ⟨a, ha, hf⟩
    exact ⟨a, rest, ha, by rw [hf]; rfl⟩

theorem Reads.filterMap (h : d.Reads enc) {refused : E} {f : α → Option β} {g : β → α} (hf : ∀ b, f (g b) = some b) :
    (d.filterMap refused f).Reads fun b => enc (g b) :=
  fun b _ => filterMap_eq_ok.2 ⟨g b, h _ _, hf b⟩

theorem Sized.filterMap (h : d.Sized enc) {refused : E} {f : α → Option β} {g : β → α}
    (hf : ∀ a b, f a = some b → g b = a) : (d.filterMap refused f).Sized fun b => enc (g b) := by
  intro bs b rest hb
  obtain ⟨a, ha, he⟩ := filterMap_eq_ok.1 hb
  show _ = (enc (g b)).length + _
  rw [hf a b he]
  exact h _ _ _ ha

/-- Two values one after the other. -/
def pair (d : Decoder E α) (e : Decoder E β) : Decoder E (α × β) := do
  let a ← d
  let b ← e
  return (a, b)

def encodePair (enc : α → Bytes) (enc' : β → Bytes) (p : α × β) : Bytes := enc p.1 ++ enc' p.2

theorem Reads.pair {e : Decoder E β} {enc' : β → Bytes} (h : d.Reads enc) (h' : e.Reads enc') :
    (d.pair e).Reads (encodePair enc enc') := by
  rintro ⟨a, b⟩ rest
  unfold Decoder.pair encodePair
  rw [List.append_assoc, h.run_bind, h'.run_bind]
  rfl

theorem Sized.pair {e : Decoder E β} {enc' : β → Bytes} (h : d.Sized enc) (h' : e.Sized enc') :
    (d.pair e).Sized (encodePair enc enc') := by
  intro bs p rest hp
  obtain ⟨a, mid, ha, hp⟩ := bind_eq_ok.1 hp
  obtain ⟨b, mid', hb, hp⟩ := bind_eq_ok.1 hp
  obtain ⟨rfl, rfl⟩ := pure_eq_ok.1 hp
  have h₁ := h _ _ _ ha
  have h₂ := h' _ _ _ hb
  show _ = (enc a ++ enc' b).length + _
  rw [List.length_append]
  omega

end Decoder

end Decode
