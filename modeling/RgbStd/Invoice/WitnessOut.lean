import RgbStd.Consign.Encode
import RgbStd.Core.Texts
import RgbStd.Popls.Fulfill
/-!
# Witness outputs as text (invoice/src/bp.rs, lib.rs:77-93)

The salt and the address of an output with a checksum, in base64, eight characters at a time with dashes
between. The parser takes the dashes out wherever they stand.

| here | there |
| --- | --- |
| `TextCore`           | base64 in the Baid64 alphabet, the strict encoding of addresses, `AuthToken::from_str` (not part of the repository) |
| `checksum`           | `WitnessOut::checksum` (bp.rs:78), of the digest |
| `strictBytes`, `strictD` | the strict encoding of `WitnessOut`: the reserved byte is skipped |
| `fmt`, `fromStr`     | `Display` and `FromStr` (bp.rs:89, 117) |

* `fromStr_eq_ok`: the strings read as an output are the prefix and the base64 of its bytes, with dashes anywhere.
* `text_roundTrip`: so the text of an output is read back, and other strings read as it differ by dashes only.
* `checksum_differs_iff`: digests that differ in the fourth byte only are not told apart.
-/
namespace RgbStd
open Tables Decode Decoder

structure TextCore {B : BpCore} (C : PayCore B) where
  Base64Error : Type
  encode : Bytes → Text
  decode : Text → Except Base64Error Bytes
  address : Decoder DecodeError C.AddressPayload
  encodeAddress : C.AddressPayload → Bytes
  authToken : Text → Option AuthToken

inductive DeserializeError where
  | decode (e : DecodeError)
  | dataNotEntirelyConsumed

inductive ParseWitnessOutError (E : Type) where
  | noPrefix
  | noChecksum
  | invalidChecksum
  | base64 (e : E)
  | tooLong
  | encoding (e : DeserializeError)

/-- The variants that `RgbBeneficiary::from_str` returns. -/
inductive ParseInvoiceError (E : Type) where
  | bp (e : ParseWitnessOutError E)

def WITNESS_OUT_HRI : Text := "wout".toList

/-- `split_last_chunk`. -/
def splitLastChunk (n : Nat) (bs : Bytes) : Option (Bytes × Bytes) :=
  if bs.length < n then none else some (bs.take (bs.length - n), bs.drop (bs.length - n))

namespace WitnessOut

variable {B : BpCore} {C : PayCore B} (X : TextCore C)

/-! ## The checksum -/

/-- The hash, keyed with the prefix. -/
def digest (wout : WitnessOut C) : Vector UInt8 32 :=
  let key := C.sha256 (WITNESS_OUT_HRI.map fun c => UInt8.ofNat c.toNat)
  C.sha256 (key.toList ++ [0] ++ encodeU64 wout.salt ++ wout.scriptPubkey)

/-- `WitnessOut::checksum` (bp.rs:78). The second byte is there twice. -/
def checksum (wout : WitnessOut C) : Vector UInt8 4 :=
  let sha := wout.digest
  #v[sha.get 0, sha.get 1, sha.get 1, sha.get 2]

/-! ## Strict encoding -/

def strictBytes (wout : WitnessOut C) : Bytes := encodeU64 wout.salt ++ X.encodeAddress wout.address

def strictD : Decoder DecodeError (WitnessOut C) := do
  let salt ← u64le .io
  let address ← X.address
  return ⟨salt, address⟩

/-- `to_strict_serialized`, with at most so many bytes. -/
def toStrictSerialized (max : Nat) (wout : WitnessOut C) : Option Bytes :=
  if (wout.strictBytes X).length ≤ max then some (wout.strictBytes X) else none

/-- `from_strict_serialized`: all bytes are read. -/
def fromStrictSerialized (data : Bytes) : Except DeserializeError (WitnessOut C) :=
  match (strictD X).run data with
  | .error e => .error (.decode e)
  | .ok (wout, []) => .ok wout
  | .ok (_, _ :: _) => .error .dataNotEntirelyConsumed

/-! ## Text -/

/-- The text of some data and a checksum. -/
def text (data : Bytes) (checksum : Vector UInt8 4) : Text :=
  WITNESS_OUT_HRI ++ ':' :: writeChunks ((X.encode (data ++ checksum.toList)).toChunks 8)

/-- `Display` (bp.rs:89). It panics if the output takes more than 255 bytes. -/
def fmt (wout : WitnessOut C) : Option Text :=
  (wout.toStrictSerialized X 255).map fun data => text X data wout.checksum

/-- `WitnessOut::from_str` (bp.rs:120). -/
def fromStr (s : Text) : Except (ParseWitnessOutError X.Base64Error) (WitnessOut C) :=
  match (s.dropPrefix? WITNESS_OUT_HRI).bind (·.dropPrefix? [':']) with
  | none => .error .noPrefix
  | some s => match X.decode (undashed s) with
    | .error e => .error (.base64 e)
    | .ok decoded => match splitLastChunk 4 decoded with
      | none => .error .noChecksum
      | some (data, checksum) =>
        if 255 < data.length then .error .tooLong
        else match fromStrictSerialized X data with
          | .error e => .error (.encoding e)
          | .ok wout => if checksum ≠ wout.checksum.toList then .error .invalidChecksum else .ok wout

end WitnessOut

/-- `RgbBeneficiary::from_str` (lib.rs:80). -/
def RgbBeneficiary.fromStr {B : BpCore} {C : PayCore B} (X : TextCore C) (s : Text) :
    Except (ParseInvoiceError X.Base64Error) (RgbBeneficiary C) :=
  match X.authToken s with
  | some auth => .ok (.token auth)
  | none => match WitnessOut.fromStr X s with
    | .error e => .error (.bp e)
    | .ok wout => .ok (.witnessOut wout)

/-- Base64 and the strict encoding of addresses have one text for a value, the characters are no dashes, and
addresses are short. No text of a token has the prefix. -/
structure TextCore.Lawful {B : BpCore} {C : PayCore B} (X : TextCore C) : Prop where
  decode_encode : ∀ bs, X.decode (X.encode bs) = .ok bs
  encode_decode : ∀ s bs, X.decode s = .ok bs → X.encode bs = s
  dash_not_mem : ∀ bs, '-' ∉ X.encode bs
  address_reads : X.address.Reads X.encodeAddress
  address_exact : X.address.Exact X.encodeAddress
  address_length : ∀ a, (X.encodeAddress a).length ≤ 247
  authToken_prefix : ∀ s, X.authToken (WITNESS_OUT_HRI ++ ':' :: s) = none

/-! ## Bytes -/

theorem splitLastChunk_eq_some {n : Nat} {bs data last : Bytes} :
    splitLastChunk n bs = some (data, last) ↔ bs = data ++ last ∧ last.length = n := by
  unfold splitLastChunk
  constructor
  · intro h
    split at h
    · cases h
    · cases h
      exact ⟨(List.take_append_drop _ bs).symm, by rw [List.length_drop]; omega⟩
  · rintro ⟨rfl, rfl⟩
    have hlen : (data ++ last).length - last.length = data.length := by simp
    rw [if_neg (by simp), hlen, List.take_left, List.drop_left]

namespace WitnessOut

variable {B : BpCore} {C : PayCore B} {X : TextCore C}

/-! ## Strict encoding -/

theorem strictD_reads (hX : X.Lawful) : (strictD X).Reads (strictBytes X) := by
  intro wout rest
  unfold strictD strictBytes
  rw [List.append_assoc, reads_u64le.run_bind, hX.address_reads.run_bind]
  rfl

theorem strictD_exact (hX : X.Lawful) : (strictD X).Exact (strictBytes X) := by
  intro bs wout rest h
  obtain ⟨salt, mid, hs, h⟩ := bind_eq_ok.1 h
  obtain ⟨address, mid', ha, h⟩ := bind_eq_ok.1 h
  obtain ⟨rfl, rfl⟩ := pure_eq_ok.1 h
  rw [exact_u64le _ _ _ hs, hX.address_exact _ _ _ ha, strictBytes, List.append_assoc]

theorem fromStrictSerialized_eq_ok (hX : X.Lawful) {data : Bytes} {wout : WitnessOut C} :
    fromStrictSerialized X data = .ok wout ↔ data = wout.strictBytes X := by
  unfold fromStrictSerialized
  constructor
  · intro h
    split at h
    · cases h
    · rename_i hrun
      cases h
      simpa using strictD_exact hX _ _ _ hrun
    · cases h
  · rintro rfl
    have hrun := strictD_reads hX wout []
    rw [List.append_nil] at hrun
    rw [hrun]

theorem length_strictBytes (hX : X.Lawful) (wout : WitnessOut C) : (wout.strictBytes X).length ≤ 255 := by
  have := hX.address_length wout.address
  have h8 : (encodeU64 wout.salt).length = 8 := rfl
  rw [strictBytes, List.length_append, h8]
  omega

theorem fmt_eq_some (hX : X.Lawful) (wout : WitnessOut C) :
    wout.fmt X = some (text X (wout.strictBytes X) wout.checksum) := by
  rw [fmt, toStrictSerialized, if_pos (length_strictBytes hX wout)]
  rfl

/-! ## Text -/

theorem dropPrefix_eq_some {s body : Text} :
    (s.dropPrefix? WITNESS_OUT_HRI).bind (·.dropPrefix? [':']) = some body ↔ s = WITNESS_OUT_HRI ++ ':' :: body := by
  simp only [Option.bind_eq_some_iff, List.dropPrefix?_eq_some_iff, beq_iff_eq]
  constructor
  · rintro ⟨mid, ⟨_, rfl, rfl⟩, _, rfl, rfl⟩
    rfl
  · rintro rfl
    exact ⟨':' :: body, ⟨_, rfl, rfl⟩, [':'], rfl, rfl⟩

/-- What follows the prefix in a text is the base64 of its bytes, with dashes. -/
theorem undashed_text (hX : X.Lawful) (data : Bytes) (checksum : Vector UInt8 4) :
    undashed (writeChunks ((X.encode (data ++ checksum.toList)).toChunks 8)) = X.encode (data ++ checksum.toList) := by
  rw [undashed_writeChunks, flatten_toChunks, undashed_of_not_mem (hX.dash_not_mem _)]

/-- An output and a checksum are read, and the checksum is compared. -/
theorem fromStr_of_undashed (hX : X.Lawful) {body : Text} {wout : WitnessOut C} {checksum : Vector UInt8 4}
    (h : undashed body = X.encode (wout.strictBytes X ++ checksum.toList)) :
    fromStr X (WITNESS_OUT_HRI ++ ':' :: body) =
      if checksum = wout.checksum then .ok wout else .error .invalidChecksum := by
  have hlast : splitLastChunk 4 (wout.strictBytes X ++ checksum.toList) = some (wout.strictBytes X, checksum.toList) :=
    splitLastChunk_eq_some.2 ⟨rfl, checksum.length_toList⟩
  have hsmall : ¬255 < (wout.strictBytes X).length := Nat.not_lt.2 (length_strictBytes hX wout)
  have hread := (fromStrictSerialized_eq_ok hX).2 (rfl : wout.strictBytes X = wout.strictBytes X)
  simp only [fromStr, dropPrefix_eq_some.2 rfl, h, hX.decode_encode, hlast, hsmall, if_false, hread, ne_eq, ite_not,
    Vector.toList_inj]

/-- **The strings read as an output**: the prefix, and the base64 of its bytes with dashes anywhere. -/
theorem fromStr_eq_ok (hX : X.Lawful) {s : Text} {wout : WitnessOut C} : fromStr X s = .ok wout ↔
    ∃ body, s = WITNESS_OUT_HRI ++ ':' :: body ∧
      undashed body = X.encode (wout.strictBytes X ++ wout.checksum.toList) := by
  constructor
  · intro h
    unfold fromStr at h
    split at h
    · cases h
    · rename_i body hbody
      refine ⟨body, dropPrefix_eq_some.1 hbody, ?_⟩
      split at h
      · cases h
      · rename_i decoded hdecoded
        split at h
        · cases h
        · rename_i data checksum hlast
          split at h
          · cases h
          · split at h
            · cases h
            · rename_i wout' hread
              split at h
              · cases h
              · rename_i hsum
                cases h
                obtain ⟨rfl, -⟩ := splitLastChunk_eq_some.1 hlast
                rw [← hX.encode_decode _ _ hdecoded, (fromStrictSerialized_eq_ok hX).1 hread, not_not.1 hsum]
  · rintro ⟨body, rfl, hbody⟩
    rw [fromStr_of_undashed hX hbody, if_pos rfl]

theorem fromStr_text (hX : X.Lawful) (wout : WitnessOut C) (checksum : Vector UInt8 4) :
    fromStr X (text X (wout.strictBytes X) checksum) =
      if checksum = wout.checksum then .ok wout else .error .invalidChecksum :=
  fromStr_of_undashed hX (undashed_text hX _ _)

/-- **Outputs as text**: each output has one, which is read back, also as a beneficiary; and what is read as an
output is that text with other dashes. -/
theorem text_roundTrip (hX : X.Lawful) :
    (∀ wout : WitnessOut C, ∃ s, wout.fmt X = some s ∧ fromStr X s = .ok wout ∧
      RgbBeneficiary.fromStr X s = .ok (.witnessOut wout)) ∧
    (∀ (s : Text) (wout : WitnessOut C), fromStr X s = .ok wout →
      WITNESS_OUT_HRI ++ [':'] <+: s ∧ ∃ t, wout.fmt X = some t ∧ undashed s = undashed t) ∧
    ∀ (s s' : Text) (wout : WitnessOut C), fromStr X s = .ok wout → fromStr X s' = .ok wout →
      undashed s = undashed s' := by
  have hread : ∀ wout : WitnessOut C, fromStr X (text X (wout.strictBytes X) wout.checksum) = .ok wout :=
    fun wout => (fromStr_text hX wout _).trans (if_pos rfl)
  have hunique : ∀ (s s' : Text) (wout : WitnessOut C), fromStr X s = .ok wout → fromStr X s' = .ok wout →
      undashed s = undashed s' := by
    intro s s' wout h h'
    obtain ⟨body, rfl, hbody⟩ := (fromStr_eq_ok hX).1 h
    obtain ⟨body', rfl, hbody'⟩ := (fromStr_eq_ok hX).1 h'
    rw [undashed_append, undashed_append]
    show _ ++ ':' :: undashed body = _ ++ ':' :: undashed body'
    rw [hbody, hbody']
  refine ⟨fun wout => ⟨_, fmt_eq_some hX wout, hread wout, ?_⟩, fun s wout h => ?_, hunique⟩
  · have hauth : X.authToken (text X (wout.strictBytes X) wout.checksum) = none := hX.authToken_prefix _
    simp only [RgbBeneficiary.fromStr, hauth, hread wout]
  · obtain ⟨body, hs, -⟩ := (fromStr_eq_ok hX).1 h
    refine ⟨⟨body, by rw [hs, List.append_assoc]; rfl⟩, _, fmt_eq_some hX wout, hunique s _ wout h (hread wout)⟩

/-! ## What the checksum tells apart -/

/-- Digests with the same first bytes. -/
def Agree (n : Nat) (sha sha' : Vector UInt8 32) : Prop := ∀ i (h : i < 32), i < n → sha[i] = sha'[i]

theorem agree_succ {n : Nat} (hn : n < 32) {sha sha' : Vector UInt8 32} :
    Agree (n + 1) sha sha' ↔ Agree n sha sha' ∧ sha[n] = sha'[n] := by
  constructor
  · exact fun h => ⟨fun i hi hlt => h i hi (Nat.lt_succ_of_lt hlt), h n hn (Nat.lt_succ_self n)⟩
  · rintro ⟨h, he⟩ i hi hlt
    obtain hlt | rfl := Nat.lt_succ_iff_lt_or_eq.1 hlt
    · exact h i hi hlt
    · exact he

theorem checksum_eq_iff {w w' : WitnessOut C} : w.checksum = w'.checksum ↔ Agree 3 w.digest w'.digest := by
  have h0 : Agree 0 w.digest w'.digest := fun i _ hlt => absurd hlt (Nat.not_lt_zero i)
  rw [agree_succ (by decide), agree_succ (by decide), agree_succ (by decide)]
  simp only [checksum, Vector.mk.injEq, List.toArray_eq_iff]
  simp only [List.cons.injEq, and_true, and_self_left, h0, true_and, and_assoc]
  exact Iff.rfl

/-- **The checksum has 24 bits**: outputs whose digests differ in the first four bytes have different checksums, and
the parser does not take one for the other, unless the digests differ in the fourth byte only. -/
theorem checksum_differs_iff (hX : X.Lawful) (w w' : WitnessOut C) :
    (¬Agree 4 w.digest w'.digest → w.checksum ≠ w'.checksum ∧
      fromStr X (text X (w.strictBytes X) w'.checksum) = .error .invalidChecksum) ↔
    (Agree 3 w.digest w'.digest → w.digest[3] = w'.digest[3]) := by
  rw [agree_succ (by decide : 3 < 32)]
  constructor
  · intro h hagree
    by_contra hdiff
    exact (h fun hboth => hdiff hboth.2).1 (checksum_eq_iff.2 hagree)
  · intro h hno
    have hthree : ¬Agree 3 w.digest w'.digest := fun hagree => hno ⟨hagree, h hagree⟩
    have hne : w.checksum ≠ w'.checksum := fun he => hthree (checksum_eq_iff.1 he)
    exact ⟨hne, (fromStr_text hX w w'.checksum).trans (if_neg hne.symm)⟩

end WitnessOut

/-! ## A reference: Taproot outputs -/

namespace Taproot

/-- The digests of the prefix, and of its outputs with the salts 8372 and 8935 on the public key of which all bytes
are 1. Other outputs have that of the prefix here. -/
def sha256 (bytes : Bytes) : Vector UInt8 32 :=
  match (bytes.drop 33).take 8 with
  | [0xb4, 0x20, 0, 0, 0, 0, 0, 0] => #v[133, 171, 175, 95, 71, 14, 229, 96, 33, 203, 103, 16, 147, 145, 199, 197,
      168, 167, 23, 40, 157, 176, 25, 227, 182, 205, 91, 73, 14, 130, 229, 26]
  | [0xe7, 0x22, 0, 0, 0, 0, 0, 0] => #v[133, 171, 175, 97, 166, 145, 54, 236, 7, 17, 224, 224, 243, 107, 44, 124,
      64, 0, 187, 248, 138, 192, 52, 188, 5, 96, 234, 167, 20, 116, 150, 139]
  | _ => #v[198, 228, 20, 122, 11, 24, 47, 178, 187, 184, 206, 5, 244, 115, 85, 27, 217, 240, 232, 215, 23, 184, 215,
      43, 140, 222, 23, 63, 212, 66, 140, 116]

@[reducible] def core : PayCore refBp where
  AddressPayload := Vector UInt8 32
  scriptPubkey key := 0x51 :: 0x20 :: key.toList
  sha256 := sha256
  noiseFrom bytes := ⟨.wout 0, bytes.toList, 0⟩

/-- The 0x20 of a Taproot address, and a public key. -/
def address : Decoder DecodeError (Vector UInt8 32) := do
  reserved .io .enumTagNotKnown 0x20
  contractIdD.filterMap .other fun id => some id.bytes

def text : TextCore core where
  Base64Error := Unit
  encode := BAID64_ALPHABET.encode
  decode s := (BAID64_ALPHABET.decode s).elim (.error ()) .ok
  address := address
  encodeAddress key := 0x20 :: key.toList
  authToken _ := none

theorem text_lawful : text.Lawful where
  decode_encode bs := by
    show (BAID64_ALPHABET.decode (BAID64_ALPHABET.encode bs)).elim (Except.error ()) .ok = .ok bs
    rw [Base64.Alphabet.decode_eq_some.2 rfl]
    rfl
  encode_decode s bs h := by
    change (BAID64_ALPHABET.decode s).elim (Except.error ()) .ok = .ok bs at h
    cases hd : BAID64_ALPHABET.decode s with
    | none => rw [hd] at h; cases h
    | some bytes =>
      rw [hd] at h
      cases h
      exact (Base64.Alphabet.decode_eq_some.1 hd).symm
  dash_not_mem := dash_not_mem_encode
  address_reads key rest := by
    have htag : (reserved DecodeError.io .enumTagNotKnown 0x20).run (0x20 :: (key.toList ++ rest)) =
        .ok ((), key.toList ++ rest) := reserved_eq_ok.2 rfl
    exact bind_eq_ok.2 ⟨(), _, htag, filterMap_eq_ok.2 ⟨⟨key⟩, contractIdD_reads ⟨key⟩ rest, rfl⟩⟩
  address_exact bs key rest h := by
    obtain ⟨⟨⟩, mid, htag, h⟩ := bind_eq_ok.1 h
    obtain ⟨⟨key'⟩, hkey, he⟩ := filterMap_eq_ok.1 h
    cases he
    rw [reserved_eq_ok.1 htag, contractIdD_exact _ _ _ hkey]
    rfl
  address_length key := by
    show (0x20 :: key.toList).length ≤ 247
    simp
  authToken_prefix _ := rfl

def output (salt : UInt64) : WitnessOut core := ⟨salt, .replicate 32 1⟩

end Taproot

/-- The text of an output is read back. -/
theorem WitnessOut.text_roundTrip_taproot : ∃ s, (Taproot.output 8372).fmt Taproot.text = some s ∧
    fromStr Taproot.text s = .ok (Taproot.output 8372) ∧
    RgbBeneficiary.fromStr Taproot.text s = .ok (.witnessOut (Taproot.output 8372)) :=
  (text_roundTrip Taproot.text_lawful).1 _

example : (Taproot.output 8372).fmt Taproot.text =
    some "wout:tCAAAAAA-AAAgAQEB-AQEBAQEB-AQEBAQEB-AQEBAQEB-AQEBAQEB-AQEBAQGF-q6uv".toList := by decide

/-- Two outputs whose digests differ in the first byte. -/
theorem WitnessOut.checksum_differs_first : (Taproot.output 8372).checksum ≠ (Taproot.output 0).checksum ∧
    fromStr Taproot.text (text Taproot.text ((Taproot.output 8372).strictBytes Taproot.text)
      (Taproot.output 0).checksum) = .error .invalidChecksum := by
  have hdiffer : (Taproot.output 8372).digest[0] ≠ (Taproot.output 0).digest[0] := by decide
  exact (checksum_differs_iff Taproot.text_lawful _ _).2 (fun h => absurd (h 0 (by decide) (by decide)) hdiffer)
    fun h => hdiffer (h 0 (by decide) (by decide))

/-- Two outputs whose digests differ in the fourth byte, so that they have one checksum. -/
theorem WitnessOut.checksum_fourth : ¬∀ (B : BpCore) (C : PayCore B) (X : TextCore C), X.Lawful → ∀ w w' : WitnessOut C,
    ¬Agree 4 w.digest w'.digest → w.checksum ≠ w'.checksum ∧
      fromStr X (text X (w.strictBytes X) w'.checksum) = .error .invalidChecksum := by
  intro h
  have hdiffer : ¬Agree 4 (Taproot.output 8372).digest (Taproot.output 8935).digest := by
    intro hagree
    exact absurd (hagree 3 (by decide) (by decide)) (by decide)
  exact absurd (h refBp Taproot.core Taproot.text Taproot.text_lawful _ _ hdiffer).1 (not_not.2 (by decide))

end RgbStd
