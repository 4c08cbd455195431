import RgbStd.Consign.Wire
import RgbStd.Lib.Encode
/-!
# Writing a consignment (consignment.rs:40-57)

| here | there |
| --- | --- |
| `Encoder`            | `StrictEncode` of the types the ledger crate defines |
| `consignmentHeader`, `consignment` | the derived encoding: the fields in order, a `LargeVec` behind its length |
| `Consignment.Whole`  | what the types and the header of a consignment promise |

The decoder of a consignment is written by hand and takes the number of operations from the header
(consignment.rs:59-78).

* `consignmentHeader_reads`: the header is read back.
* `consignment_run`: after it the operations are read where the encoder has put their number.
* `consignment_not_reads`: so no consignment is read back.
-/
namespace RgbStd
open Tables Decode Decoder

/-! ## The types of the other crates -/

def encodeContractId (id : ContractId) : Bytes := id.bytes.toList

theorem contractIdD_reads : contractIdD.Reads encodeContractId := by
  intro id rest
  have hl : id.bytes.toList.length = 32 := by simp
  have hlt : ¬(id.bytes.toList ++ rest).length < 32 := by simp
  have ht : (id.bytes.toList ++ rest).take 32 = id.bytes.toList := List.take_left' hl
  have hd : (id.bytes.toList ++ rest).drop 32 = rest := List.drop_left' hl
  obtain ⟨⟨⟨bs⟩, hb⟩⟩ := id
  simp only [contractIdD, encodeContractId]
  rw [dif_neg hlt]
  simp only [ht, hd]
  rfl

theorem contractIdD_exact : contractIdD.Exact encodeContractId := by
  intro bs id rest h
  simp only [contractIdD] at h
  split at h
  · cases h
  · cases h
    exact (List.take_append_drop 32 bs).symm

theorem contractIdD_sized : contractIdD.Sized encodeContractId := contractIdD_exact.sized

/-- The strict encoding of the types of the other crates. -/
structure Encoder {H : Hypersonic} {S : RgbSeal} (W : Wire H S) where
  semantics : W.Semantics → Bytes
  sigBlob : W.SigBlob → Bytes
  contractMeta : W.ContractMeta → Bytes
  codex : W.Codex → Bytes
  genesis : W.Genesis → Bytes
  operation : H.Operation → Bytes
  seals : SmallMap UInt16 S.Definition → Bytes
  sealWitness : SealWitness S → Bytes

/-- Each of the types is read back, whatever follows. -/
structure Encoder.RoundTrips {H : Hypersonic} {S : RgbSeal} {W : Wire H S} (C : Encoder W) : Prop where
  semantics : W.semantics.Reads C.semantics
  sigBlob : W.sigBlob.Reads C.sigBlob
  contractMeta : W.contractMeta.Reads C.contractMeta
  codex : W.codex.Reads C.codex
  genesis : W.genesis.Reads C.genesis
  operation : W.operation.Reads C.operation
  seals : W.seals.Reads C.seals
  sealWitness : W.sealWitness.Reads C.sealWitness

namespace Encoder

variable {H : Hypersonic} {S : RgbSeal} {W : Wire H S} (C : Encoder W)

/-- `OperationSeals::strict_encode`. -/
def operationSeals (op : OperationSeals H S) : Bytes :=
  C.operation op.operation ++ (C.seals op.definedSeals ++ encodeOption C.sealWitness op.witness)

/-- `TinyVec<SmallBlob>`. -/
def extensions (blobs : List Bytes) : Bytes := encodeList encodeBlob blobs

/-- `ConsignmentHeader::strict_encode`; the version of the issue and `witness` are reserved. -/
def consignmentHeader (h : W.ConsignmentHeader) : Bytes :=
  extensions h.extensions ++ (C.semantics h.semantics ++ (encodeOption C.sigBlob h.sig ++ ([0] ++
    (C.contractMeta h.issue.contractMeta ++ (C.codex h.issue.codex ++ (C.genesis h.issue.genesis ++
      (C.seals h.genesisSeals ++ ([0] ++ encodeU32 h.opCount))))))))

/-- `Consignment::strict_encode`. -/
def consignment (c : W.Consignment) : Bytes :=
  C.consignmentHeader c.header ++ (encodeU32 (UInt32.ofNat c.operationSeals.length) ++
    c.operationSeals.flatMap C.operationSeals)

end Encoder

/-- The extensions fit their types, and the header counts the operations, not too many of them. -/
structure Wire.Consignment.Whole {H : Hypersonic} {S : RgbSeal} {W : Wire H S} (c : W.Consignment) : Prop where
  extensions : c.header.extensions.length ≤ 255
  blobs : ∀ blob ∈ c.header.extensions, blob.length ≤ 65535
  counted : c.header.opCount.toNat = c.operationSeals.length
  bounded : c.header.opCount ≤ MAX_CONSIGNMENT_OPS

/-! ## Reading back -/

namespace Encoder

variable {H : Hypersonic} {S : RgbSeal} {W : Wire H S} {C : Encoder W}

theorem operationSeals_reads (hC : C.RoundTrips) : W.operationSeals.Reads C.operationSeals := by
  intro op rest
  unfold Wire.operationSeals operationSeals
  rw [List.append_assoc, hC.operation.run_bind, List.append_assoc, hC.seals.run_bind,
    (show (optionD W.sealWitness).Reads _ from hC.sealWitness.option).run_bind]
  rfl

theorem smallBlob_reads (blob rest : Bytes) (h : blob.length ≤ 65535) :
    Wire.smallBlob.run (encodeBlob blob ++ rest) = .ok (blob, rest) := by
  have hlen : (UInt16.ofNat blob.length).toNat = blob.length := UInt16.toNat_ofNat_of_lt' (Nat.lt_succ_of_le h)
  unfold Wire.smallBlob encodeBlob
  rw [List.append_assoc, (show u16D.Reads _ from reads_u16le).run_bind, hlen]
  exact take_append blob rest

theorem extensions_reads (blobs : List Bytes) (rest : Bytes) (h : blobs.length ≤ 255)
    (hb : ∀ blob ∈ blobs, blob.length ≤ 65535) :
    Wire.extensions.run (extensions blobs ++ rest) = .ok (blobs, rest) := by
  have hlen : (UInt8.ofNat blobs.length).toNat = blobs.length := UInt8.toNat_ofNat_of_lt' (Nat.lt_succ_of_le h)
  unfold Wire.extensions extensions encodeList
  rw [← List.singleton_append, List.append_assoc, (show u8D.Reads _ from reads_byte).run_bind, hlen]
  exact times_reads blobs (fun blob hm rest => smallBlob_reads blob rest (hb blob hm)) rest

/-- **The header** is read back. -/
theorem consignmentHeader_reads (hC : C.RoundTrips) (h : W.ConsignmentHeader) (rest : Bytes)
    (hx : h.extensions.length ≤ 255) (hb : ∀ blob ∈ h.extensions, blob.length ≤ 65535) :
    W.consignmentHeader.run (C.consignmentHeader h ++ rest) = .ok (h, rest) := by
  have hsig : (optionD W.sigBlob).Reads (encodeOption C.sigBlob) := hC.sigBlob.option
  have hzero : (W.reserved 0).Reads fun _ => [0] := reads_reserved 0
  have hcount : u32D.Reads encodeU32 := reads_u32le
  unfold Wire.consignmentHeader consignmentHeader
  rw [run_bind, List.append_assoc, extensions_reads _ _ hx hb]
  simp only [List.append_assoc, hC.semantics.run_bind, hsig.run_bind]
  rw [hzero.run_bind _ ()]
  simp only [hC.contractMeta.run_bind, hC.codex.run_bind, hC.genesis.run_bind, hC.seals.run_bind]
  rw [hzero.run_bind _ (), hcount.run_bind]
  rfl

/-- **A consignment read back**: the operations are expected right after the header. -/
theorem consignment_run (hC : C.RoundTrips) {c : W.Consignment} (hw : c.Whole) (bs : Bytes) :
    W.consignment.run (C.consignmentHeader c.header ++ bs) =
      (W.operationSeals.times c.operationSeals.length >>= fun ops =>
        (return ⟨c.header, ops⟩ : Decoder DecodeError W.Consignment)).run bs := by
  have hb : ¬MAX_CONSIGNMENT_OPS < c.header.opCount := UInt32.not_lt.2 hw.bounded
  rw [Wire.consignment, run_bind, consignmentHeader_reads hC _ _ hw.extensions hw.blobs]
  simp only [hb, if_false, hw.counted]

/-- Without the number between them, header and operations are read back. -/
theorem consignment_reads_plain (hC : C.RoundTrips) {c : W.Consignment} (hw : c.Whole) (rest : Bytes) :
    W.consignment.run (C.consignmentHeader c.header ++ (c.operationSeals.flatMap C.operationSeals ++ rest)) =
      .ok (c, rest) := by
  rw [consignment_run hC hw]
  exact bind_eq_ok.2 ⟨_, _, (operationSeals_reads hC).times _ rest, rfl⟩

end Encoder

/-! ## A reference encoding of all values

Numbers and lists have no bound here. A map is the list of its entries; repeated keys are refused. -/

namespace RefCodec

def unaryD : Decoder DecodeError Nat := unary .io

def charOf (n : Nat) : Option Char := if n.isValidChar then some (Char.ofNat n) else none

theorem charOf_toNat (c : Char) : charOf c.toNat = some c := by
  have h : c.toNat.isValidChar := c.valid
  simp [charOf, h, Char.ofNat_toNat]

theorem toNat_charOf {n : Nat} {c : Char} (h : charOf n = some c) : c.toNat = n := by
  unfold charOf at h
  split at h
  · rename_i hn
    cases h
    unfold Char.ofNat
    rw [dif_pos hn]
    rfl
  · cases h

def nameD : Decoder DecodeError String :=
  (many .io (unaryD.filterMap .other charOf)).filterMap .other fun cs => some (String.ofList cs)

def name (s : String) : Bytes := encodeMany (fun c => encodeUnary c.toNat) s.toList

def cellD : Decoder DecodeError CellAddr := (unaryD.pair u16D).filterMap .other fun (o, n) => some ⟨⟨o⟩, n⟩

def cell (a : CellAddr) : Bytes := encodePair encodeUnary encodeU16 (a.opid.tag, a.pos)

def outputD : Decoder DecodeError (StateName × AuthToken × Nat) :=
  (nameD.pair (unaryD.pair unaryD)).filterMap .other fun (s, a, n) => some (s, ⟨a⟩, n)

def output (o : StateName × AuthToken × Nat) : Bytes :=
  encodePair name (encodePair encodeUnary encodeUnary) (o.1, o.2.1.tag, o.2.2)

def operationD : Decoder DecodeError RefOperation :=
  (contractIdD.pair (unaryD.pair ((many .io cellD).pair (many .io outputD)))).filterMap .other
    fun (c, s, ins, outs) => some ⟨c, s, ins, outs⟩

def operation (op : RefOperation) : Bytes :=
  encodePair encodeContractId (encodePair encodeUnary (encodePair (encodeMany cell) (encodeMany output)))
    (op.contract, op.salt, op.ins, op.outs)

def uniqueOf {K V : Type} [DecidableEq K] (es : Table K V) : Option (UniqueMap K V) :=
  if h : (keys es).Nodup then some ⟨es, h⟩ else none

def smallOf {K V : Type} [DecidableEq K] (es : Table K V) : Option (SmallMap K V) :=
  if h : (keys es).Nodup ∧ es.length ≤ 65535 then some ⟨⟨es, h.1⟩, h.2⟩ else none

def sealsD : Decoder DecodeError (SmallMap UInt16 Nat) := (many .io (u16D.pair unaryD)).filterMap .other smallOf

def seals (m : SmallMap UInt16 Nat) : Bytes := encodeMany (encodePair encodeU16 encodeUnary) m.entries

def sealWitnessD : Decoder DecodeError (SealWitness refSeal) :=
  (unaryD.pair ((many .io (unaryD.pair unaryD)).filterMap .other uniqueOf)).filterMap .other
    fun (published, client) => some ⟨published, client⟩

def sealWitness (w : SealWitness refSeal) : Bytes :=
  encodePair encodeUnary (fun m => encodeMany (encodePair encodeUnary encodeUnary) m.entries) (w.published, w.client)

theorem unaryD_reads : unaryD.Reads encodeUnary := reads_unary

theorem unaryD_sized : unaryD.Sized encodeUnary := sized_unary

theorem u16D_reads : u16D.Reads encodeU16 := reads_u16le

theorem nameD_reads : nameD.Reads name :=
  (unaryD_reads.filterMap charOf_toNat).many.filterMap fun _ => congrArg some String.ofList_toList

theorem nameD_sized : nameD.Sized name :=
  (unaryD_sized.filterMap fun _ _ h => toNat_charOf h).many.filterMap fun cs s h => by
    cases h
    exact String.toList_ofList

theorem cellD_reads : cellD.Reads cell := (unaryD_reads.pair u16D_reads).filterMap fun _ => rfl

theorem cellD_sized : cellD.Sized cell := (unaryD_sized.pair sized_u16le).filterMap fun _ _ h => by cases h; rfl

theorem outputD_reads : outputD.Reads output :=
  (nameD_reads.pair (unaryD_reads.pair unaryD_reads)).filterMap fun _ => rfl

theorem outputD_sized : outputD.Sized output :=
  (nameD_sized.pair (unaryD_sized.pair unaryD_sized)).filterMap fun _ _ h => by cases h; rfl

theorem operationD_reads : operationD.Reads operation :=
  (contractIdD_reads.pair (unaryD_reads.pair (cellD_reads.many.pair outputD_reads.many))).filterMap fun _ => rfl

theorem operationD_sized : operationD.Sized operation :=
  (contractIdD_sized.pair (unaryD_sized.pair (cellD_sized.many.pair outputD_sized.many))).filterMap
    fun _ _ h => by cases h; rfl

theorem smallOf_entries {K V : Type} [DecidableEq K] (m : SmallMap K V) : smallOf m.entries = some m :=
  dif_pos ⟨m.nodup, m.small⟩

theorem uniqueOf_entries {K V : Type} [DecidableEq K] (m : UniqueMap K V) : uniqueOf m.entries = some m :=
  dif_pos m.nodup

theorem sealsD_reads : sealsD.Reads seals := (u16D_reads.pair unaryD_reads).many.filterMap smallOf_entries

theorem sealWitnessD_reads : sealWitnessD.Reads sealWitness :=
  (unaryD_reads.pair ((unaryD_reads.pair unaryD_reads).many.filterMap uniqueOf_entries)).filterMap fun _ => rfl

theorem operationD_nonempty (bs : Bytes) (op : RefOperation) (rest : Bytes) (h : operationD.run bs = .ok (op, rest)) :
    rest.length < bs.length := by
  rw [operationD_sized bs op rest h]
  simp only [operation, encodePair, encodeContractId, List.length_append, Vector.length_toList]
  omega

end RefCodec

/-- The reference wire, with an encoding of all values of its types. -/
@[reducible] def codecWire : Wire refSonic refSeal :=
  { refWire with
    codex := contractIdD
    genesis := RefCodec.operationD
    operation := RefCodec.operationD
    seals := RefCodec.sealsD
    sealWitness := RefCodec.sealWitnessD
    operation_nonempty := RefCodec.operationD_nonempty }

@[reducible] def refEncoder : Encoder codecWire where
  semantics _ := []
  sigBlob b := [b]
  contractMeta _ := []
  codex := encodeContractId
  genesis := RefCodec.operation
  operation := RefCodec.operation
  seals := RefCodec.seals
  sealWitness := RefCodec.sealWitness

theorem refEncoder_roundTrips : refEncoder.RoundTrips where
  semantics _ _ := rfl
  sigBlob := reads_byte
  contractMeta _ _ := rfl
  codex := contractIdD_reads
  genesis := RefCodec.operationD_reads
  operation := RefCodec.operationD_reads
  seals := RefCodec.sealsD_reads
  sealWitness := RefCodec.sealWitnessD_reads

namespace Written

def id : ContractId := ⟨Vector.replicate 32 5⟩

def genesis : RefOperation := ⟨id, 5, [], []⟩

/-- A consignment of the operations after a genesis. -/
def consignment (ops : List (OperationSeals refSonic refSeal)) : codecWire.Consignment :=
  ⟨⟨[], (), none, ⟨(), id, genesis⟩, .empty, UInt32.ofNat ops.length⟩, ops⟩

end Written

end RgbStd
