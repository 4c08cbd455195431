import RgbStd.Core.Texts
import RgbStd.Core.Types
/-!
# Contract references (util.rs)

A reference is an id or a name. The parser tries the id first, and an id may be written without its prefix and
dashes, which some names look like.

| here | there |
| --- | --- |
| `RString`     | `TypeName`: a capital letter or underscore, and letters, digits and underscores, 100 in all |
| `IdTexts`     | `Display` and `FromStr` of `ContractId` (not part of the repository) |
| `ContractRef` | util.rs:32 |

* `fromStr_fmt_iff`: an id is read back, and a name if it is not the base64 of 32 bytes.
-/
namespace RgbStd

/-- What the text of a `TypeName` has to be. -/
def isTypeName : Text → Bool
  | [] => false
  | c :: cs => (c.isUpper || c = '_') && cs.all (fun c => c.isAlphanum || c = '_') && cs.length < 100

structure RString where
  text : Text
  valid : isTypeName text = true
deriving DecidableEq

/-- `TypeName::from_str`. -/
def RString.fromStr (s : Text) : Option RString := if h : isTypeName s = true then some ⟨s, h⟩ else none

theorem RString.alphanum {typeName : RString} {c : Char} (h : c ∈ typeName.text) : c.isAlphanum || c = '_' := by
  obtain ⟨text, hvalid⟩ := typeName
  cases text with
  | nil => cases h
  | cons c' cs =>
    simp only [isTypeName, Bool.and_eq_true, List.all_eq_true] at hvalid
    obtain ⟨⟨hfirst, hrest⟩, -⟩ := hvalid
    rcases List.mem_cons.1 h with rfl | h
    · change (c.isUpper || c.isLower || c.isDigit || decide (c = '_')) = true
      simp only [Bool.or_eq_true] at hfirst ⊢
      exact hfirst.imp_left fun hu => Or.inl (Or.inl hu)
    · exact hrest c h

structure IdTexts where
  display : ContractId → Text
  fromStr : Text → Option ContractId

/-- An id is read back from its text, and from the characters of its bytes alone. Of the strings of these characters,
no others are ids. The characters are letters, digits and underscores at least. -/
structure IdTexts.Lawful (I : IdTexts) (A : Base64.Alphabet) : Prop where
  fromStr_display : ∀ id, I.fromStr (I.display id) = some id
  fromStr_plain : ∀ s, (∀ c ∈ s, c ∈ A.symbols) → ∀ id, I.fromStr s = some id ↔ s = A.encode id.bytes.toList
  symbols : ∀ c : Char, c.isAlphanum || c = '_' → c ∈ A.symbols

/-- `ContractRef` (util.rs:32). -/
inductive ContractRef where
  | id (id : ContractId)
  | name (name : RString)
deriving DecidableEq

structure InvalidContractRef where
  text : Text

namespace ContractRef

variable (I : IdTexts)

def fmt : ContractRef → Text
  | .id contractId => I.display contractId
  | .name typeName => typeName.text

/-- `ContractRef::from_str` (util.rs:48). -/
def fromStr (s : Text) : Except InvalidContractRef ContractRef :=
  match I.fromStr s with
  | some contractId => .ok (.id contractId)
  | none => match RString.fromStr s with
    | some typeName => .ok (.name typeName)
    | none => .error ⟨s⟩

/-- A name of 43 characters with no bits left by the last one. -/
def LooksLikeId (A : Base64.Alphabet) : ContractRef → Prop
  | .id _ => False
  | .name typeName => typeName.text.length = 43 ∧ ∀ d ∈ typeName.text.getLast?.bind A.index, d % 4 = 0

variable {I} {A : Base64.Alphabet}

/-- **The names that are read as ids.** -/
theorem exists_id_iff (hI : I.Lawful A) (typeName : RString) :
    (∃ contractId, I.fromStr typeName.text = some contractId) ↔ LooksLikeId A (.name typeName) := by
  have hs : ∀ c ∈ typeName.text, c ∈ A.symbols := fun c hc => hI.symbols c (RString.alphanum hc)
  have hbytes : (∃ contractId, I.fromStr typeName.text = some contractId) ↔
      ∃ bs, bs.length = 32 ∧ typeName.text = A.encode bs := by
    simp only [hI.fromStr_plain _ hs]
    constructor
    · rintro ⟨contractId, h⟩
      exact ⟨contractId.bytes.toList, contractId.bytes.length_toList, h⟩
    · rintro ⟨bs, hlen, h⟩
      exact ⟨⟨⟨bs.toArray, by rw [List.size_toArray, hlen]⟩⟩, h⟩
  rw [hbytes, Base64.Alphabet.exists_encode_iff hs 32, LooksLikeId]
  refine and_congr_right fun hlen => ?_
  rw [hlen]
  exact Iff.rfl

/-- **References as text**: read back, unless a name looks like an id. -/
theorem fromStr_fmt_iff (hI : I.Lawful A) (r : ContractRef) : fromStr I (r.fmt I) = .ok r ↔ ¬LooksLikeId A r := by
  cases r with
  | id contractId =>
    have hread : fromStr I (fmt I (.id contractId)) = .ok (.id contractId) := by
      rw [fromStr, fmt, hI.fromStr_display]
    exact iff_of_true hread not_false
  | name typeName =>
    rw [← exists_id_iff hI, fmt, fromStr]
    cases hid : I.fromStr typeName.text with
    | some contractId =>
      refine iff_of_false (fun h => ?_) (not_not.2 ⟨contractId, rfl⟩)
      cases h
    | none =>
      have hname : RString.fromStr typeName.text = some typeName := dif_pos typeName.valid
      simp [hname]

end ContractRef

/-! ## The texts of ids -/

namespace RefIds

def hri : Text := "contract:".toList

/-- With or without the prefix, and dashes anywhere. -/
def fromStr (s : Text) : Option ContractId := do
  let bytes ← BAID64_ALPHABET.decode (undashed ((s.dropPrefix? hri).getD s))
  if h : bytes.length = 32 then some ⟨⟨bytes.toArray, by rw [List.size_toArray, h]⟩⟩ else none

/-- Eight characters, and then seven at a time. -/
def display (contractId : ContractId) : Text :=
  let encoded := BAID64_ALPHABET.encode contractId.bytes.toList
  hri ++ writeChunks (encoded.take 8 :: (encoded.drop 8).toChunks 7)

@[reducible] def texts : IdTexts := ⟨display, fromStr⟩

theorem fromStr_eq_some {s : Text} {contractId : ContractId} : fromStr s = some contractId ↔
    undashed ((s.dropPrefix? hri).getD s) = BAID64_ALPHABET.encode contractId.bytes.toList := by
  simp only [fromStr, Option.bind_eq_bind, Option.bind_eq_some_iff]
  constructor
  · rintro ⟨bytes, hd, h⟩
    split at h
    · cases h
      exact Base64.Alphabet.decode_eq_some.1 hd
    · cases h
  · intro h
    exact ⟨_, Base64.Alphabet.decode_eq_some.2 h, dif_pos contractId.bytes.length_toList⟩

theorem alphanum_mem {c : Char} (h : c.isAlphanum || c = '_') : c ∈ BAID64_ALPHABET.symbols := by
  have hascii : ∀ n, n < 123 → ((Char.ofNat n).isAlphanum || Char.ofNat n = '_') = true →
      Char.ofNat n ∈ BAID64_ALPHABET.symbols := by decide +kernel
  have hlt : c.toNat < 123 := by
    delta Char.isAlphanum Char.isAlpha Char.isUpper Char.isLower Char.isDigit at h
    simp only [Bool.or_eq_true, decide_eq_true_eq, Bool.and_eq_true, ge_iff_le, UInt32.le_iff_toNat_le] at h
    rcases h with h | rfl
    · change (65 ≤ c.toNat ∧ c.toNat ≤ 90 ∨ 97 ≤ c.toNat ∧ c.toNat ≤ 122) ∨ 48 ≤ c.toNat ∧ c.toNat ≤ 57 at h
      omega
    · decide
  have hc := hascii c.toNat hlt
  rw [Char.ofNat_toNat] at hc
  exact hc h

theorem lawful : texts.Lawful BAID64_ALPHABET where
  fromStr_display contractId := by
    have hdrop : (display contractId).dropPrefix? hri = some (writeChunks
        ((BAID64_ALPHABET.encode contractId.bytes.toList).take 8 ::
          ((BAID64_ALPHABET.encode contractId.bytes.toList).drop 8).toChunks 7)) :=
      List.dropPrefix?_eq_some_iff.2 ⟨hri, rfl, beq_self_eq_true _⟩
    rw [fromStr_eq_some, hdrop, Option.getD_some, undashed_writeChunks, List.flatten_cons, flatten_toChunks,
      List.take_append_drop, undashed_of_not_mem (dash_not_mem_encode _)]
  fromStr_plain s hs contractId := by
    have hdrop : s.dropPrefix? hri = none := by
      cases hd : s.dropPrefix? hri with
      | none => rfl
      | some rest =>
        obtain ⟨p, rfl, hp⟩ := List.dropPrefix?_eq_some_iff.1 hd
        have hcolon : ':' ∈ p := by
          rw [beq_iff_eq.1 hp]
          decide
        exact absurd (hs ':' (List.mem_append_left rest hcolon)) (by decide)
    have hdash : '-' ∉ s := fun h => absurd (hs '-' h) (by decide)
    rw [fromStr_eq_some, hdrop, Option.getD_none, undashed_of_not_mem hdash]
  symbols _ := alphanum_mem

end RefIds

/-- A name of five characters. -/
theorem ContractRef.fromStr_fmt_name :
    fromStr RefIds.texts (fmt RefIds.texts (.name ⟨"Token".toList, by decide⟩)) =
      .ok (.name ⟨"Token".toList, by decide⟩) :=
  (fromStr_fmt_iff RefIds.lawful _).2 fun h => absurd h.1 (by decide)

/-- The name made of 43 times the letter A is the base64 of 32 zero bytes. -/
theorem ContractRef.fromStr_fmt_zeros : ¬∀ (I : IdTexts) (A : Base64.Alphabet), I.Lawful A →
    ∀ r, fromStr I (fmt I r) = .ok r := by
  intro h
  have hlooks : LooksLikeId BAID64_ALPHABET (.name ⟨List.replicate 43 'A', by decide⟩) :=
    ⟨List.length_replicate, by decide⟩
  obtain ⟨contractId, hid⟩ := (exists_id_iff RefIds.lawful _).2 hlooks
  have hread := h RefIds.texts BAID64_ALPHABET RefIds.lawful (.name ⟨List.replicate 43 'A', by decide⟩)
  rw [fmt, fromStr, hid] at hread
  cases hread

end RgbStd
