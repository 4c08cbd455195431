import RgbStd.Core.Reference
import RgbStd.Lib.Decode
/-!
# Consignments on the wire (consignment.rs, contract.rs:741-766, 802-849)

| here | there |
| --- | --- |
| `Wire`        | `StrictDecode` of the types the ledger crate defines, and what is computed from them |
| `Consignment`, `InMemOps` | the in-memory reader (consignment.rs:40-122) |
| `head`, `OpReader` | the streaming reader: `consume_internal` up to its operations, then `read_operation` |
| `parseConsignment` | the version byte and the contract id (consignment.rs:124) |

A seal resolver is a function of the operation. Reads past the end are `io` errors.
-/
namespace RgbStd
open Tables Decode

/-- `strict_encoding::DecodeError`. -/
inductive DecodeError where
  | io
  | enumTagNotKnown (tag : UInt8)
  | dataIntegrityError (msg : String)
  | other
deriving DecidableEq

/-- An operation with its seals and witness (rgb-core). -/
structure OperationSeals (H : Hypersonic) (S : RgbSeal) where
  operation : H.Operation
  definedSeals : SmallMap UInt16 S.Definition
  witness : Option (SealWitness S)

structure Issue (ContractMeta Codex Genesis : Type) where
  contractMeta : ContractMeta
  codex : Codex
  genesis : Genesis

/-- The strict encoding of the types of the other crates, `Articles::with` and the id texts. -/
structure Wire (H : Hypersonic) (S : RgbSeal) where
  Semantics : Type
  SigBlob : Type
  ContractMeta : Type
  Codex : Type
  Genesis : Type
  StrictHash : Type
  Identity : Type
  semantics : Decoder DecodeError Semantics
  sigBlob : Decoder DecodeError SigBlob
  contractMeta : Decoder DecodeError ContractMeta
  codex : Decoder DecodeError Codex
  genesis : Decoder DecodeError Genesis
  operation : Decoder DecodeError H.Operation
  seals : Decoder DecodeError (SmallMap UInt16 S.Definition)
  sealWitness : Decoder DecodeError (SealWitness S)
  operation_nonempty : ∀ bs op rest, operation.run bs = .ok (op, rest) → rest.length < bs.length
  reservedText : UInt8 → String
  opidText : Opid → String
  toOperation : Genesis → ContractId → H.Operation
  genesisCodex : Genesis → ContractId
  codexContract : Codex → ContractId
  articlesGenesis : H.Articles → Genesis
  articlesWith : Semantics → Issue ContractMeta Codex Genesis → Option SigBlob →
    (StrictHash → Identity → SigBlob → Bool) → Except H.SemanticError H.Articles

def CONSIGN_VERSION : UInt8 := 0

def MAX_CONSIGNMENT_OPS : UInt32 := 65535

def contractIdD : Decoder DecodeError ContractId where
  run bs :=
    if h : bs.length < 32 then .error .io
    else .ok (⟨⟨(bs.take 32).toArray, by simp; omega⟩⟩, bs.drop 32)
  suffix bs a rest h := by
    split at h
    · cases h
    · cases h; exact List.drop_suffix _ _

/-- A resolver gives the seal definitions the wallet knows for an operation's outputs. -/
abbrev SealResolver (H : Hypersonic) (S : RgbSeal) := H.Operation → UniqueMap UInt16 S.Definition

def noSeals {H : Hypersonic} {S : RgbSeal} : SealResolver H S := fun _ => .empty

def u8D : Decoder DecodeError UInt8 := Decoder.byte .io

def u16D : Decoder DecodeError UInt16 := Decoder.u16le .io

def u32D : Decoder DecodeError UInt32 := Decoder.u32le .io

/-- `Option::strict_decode`. -/
def optionD {α : Type} (d : Decoder DecodeError α) : Decoder DecodeError (Option α) :=
  Decoder.option .io .enumTagNotKnown d

namespace Wire

variable {H : Hypersonic} {S : RgbSeal} (W : Wire H S)

abbrev Validator := W.StrictHash → W.Identity → W.SigBlob → Bool

def reserved (value : UInt8) : Decoder DecodeError Unit :=
  Decoder.reserved .io (fun b => .dataIntegrityError (W.reservedText b)) value

/-- `parse_consignment` (consignment.rs:124-135). -/
def parseConsignment : Decoder DecodeError ContractId := do
  (W.reserved CONSIGN_VERSION).mapError fun e => match e with
    | .dataIntegrityError _ => .dataIntegrityError "unsupported future consignment version"
    | e => e
  contractIdD

/-! ## In memory -/

/-- `SmallBlob`. -/
def smallBlob : Decoder DecodeError Bytes := do
  let len ← u16D
  Decoder.take .io len.toNat

/-- `TinyVec<SmallBlob>`. -/
def extensions : Decoder DecodeError (List Bytes) := do
  let len ← u8D
  smallBlob.times len.toNat

/-- `OperationSeals::strict_decode`. -/
def operationSeals : Decoder DecodeError (OperationSeals H S) := do
  let operation ← W.operation
  let definedSeals ← W.seals
  let witness ← optionD W.sealWitness
  return { operation, definedSeals, witness }

/-- `ConsignmentHeader` (consignment.rs:49). -/
structure ConsignmentHeader where
  extensions : List Bytes
  semantics : W.Semantics
  sig : Option W.SigBlob
  issue : Issue W.ContractMeta W.Codex W.Genesis
  genesisSeals : SmallMap UInt16 S.Definition
  opCount : UInt32

def consignmentHeader : Decoder DecodeError W.ConsignmentHeader := do
  let extensions ← extensions
  let semantics ← W.semantics
  let sig ← optionD W.sigBlob
  W.reserved 0
  let contractMeta ← W.contractMeta
  let codex ← W.codex
  let genesis ← W.genesis
  let genesisSeals ← W.seals
  W.reserved 0
  let opCount ← u32D
  return { extensions, semantics, sig, issue := { contractMeta, codex, genesis }, genesisSeals, opCount }

/-- `Consignment` (consignment.rs:42). -/
structure Consignment where
  header : W.ConsignmentHeader
  operationSeals : List (OperationSeals H S)

/-- `Consignment::strict_decode` (consignment.rs:59-78). -/
def consignment : Decoder DecodeError W.Consignment := do
  let header ← W.consignmentHeader
  if MAX_CONSIGNMENT_OPS < header.opCount then
    .fail (.dataIntegrityError ("number of operations in contract consignment (" ++ toString header.opCount ++
      ") exceeds maximum allowed (" ++ toString MAX_CONSIGNMENT_OPS ++ ")"))
  else
    let operationSeals ← W.operationSeals.times header.opCount.toNat
    return { header, operationSeals }

variable {W} in
/-- `Consignment::articles` (consignment.rs:81). -/
def Consignment.articles (c : W.Consignment) (sigValidator : W.Validator) : Except H.SemanticError H.Articles :=
  W.articlesWith c.header.semantics c.header.issue c.header.sig sigValidator

/-- `InMemOps` (consignment.rs:109). -/
structure InMemOps (H : Hypersonic) (S : RgbSeal) where
  genesis : Option (OperationSeals H S)
  rest : List (OperationSeals H S)

variable {W} in
/-- `Consignment::into_operations` (consignment.rs:93). -/
def Consignment.intoOperations (c : W.Consignment) : InMemOps H S where
  genesis := some
    { operation := W.toOperation c.header.issue.genesis (W.codexContract c.header.issue.codex)
      definedSeals := c.header.genesisSeals
      witness := none }
  rest := c.operationSeals

/-- `InMemOps::read_operation` (consignment.rs:117). -/
def InMemOps.readOperation : InMemOps H S → Option (OperationSeals H S × InMemOps H S)
  | ⟨some op, rest⟩ => some (op, ⟨none, rest⟩)
  | ⟨none, op :: rest⟩ => some (op, ⟨none, rest⟩)
  | ⟨none, []⟩ => none

/-- The results of calling `read_operation` until it returns `None`. -/
def InMemOps.feed : InMemOps H S → Feed Empty Unit (OperationSeals H S)
  | ⟨some op, rest⟩ => .next op (.ofList () rest)
  | ⟨none, rest⟩ => .ofList () rest

theorem InMemOps.feed_eq (r : InMemOps H S) : r.feed = match r.readOperation with
    | none => .done ()
    | some (op, r') => .next op r'.feed := by
  obtain ⟨g, rest⟩ := r
  cases g with
  | some op => rfl
  | none => cases rest <;> rfl

/-! ## Streaming -/

/-- The extension blocks as skipped by `consume_internal` (contract.rs:743-748). -/
def skipBlocks : Nat → Decoder DecodeError Unit
  | 0 => return ()
  | n + 1 => do
    let len ← u16D
    let _ ← Decoder.take .io len.toNat
    skipBlocks n

/-- What `consume_internal` reads before the operations. -/
structure Head where
  semantics : W.Semantics
  sig : Option W.SigBlob
  contractMeta : W.ContractMeta
  codex : W.Codex

def head : Decoder DecodeError W.Head := do
  let extBlocks ← u8D
  skipBlocks extBlocks.toNat
  let semantics ← W.semantics
  let sig ← optionD W.sigBlob
  W.reserved 0
  let contractMeta ← W.contractMeta
  let codex ← W.codex
  return { semantics, sig, contractMeta, codex }

/-- `OpReader` (contract.rs:802). -/
structure OpReader where
  stream : Bytes
  count : UInt32

/-- The count which says that the actual one follows the next operation. -/
def COUNT_FOLLOWS : UInt32 := 0xFFFFFFFF

/-- One operation, its seals extended by the resolver (contract.rs:829-840). -/
def resolvedSeals (resolver : SealResolver H S) : Decoder DecodeError (OperationSeals H S) := do
  let operation ← W.operation
  let seals ← W.seals
  match seals.extend (resolver operation).entries with
  | none =>
    .fail (.dataIntegrityError ("too many seals defined for the operation " ++ W.opidText (H.opid operation)))
  | some definedSeals =>
    let witness ← optionD W.sealWitness
    return { operation, definedSeals, witness }

/-- `OpReader::read_operation` (contract.rs:823-848). -/
def OpReader.readOperation (resolver : SealResolver H S) (r : OpReader) :
    Except DecodeError (Option (OperationSeals H S × OpReader)) :=
  if r.count = 0 then .ok none
  else match (W.resolvedSeals resolver).run r.stream with
    | .error e => .error e
    | .ok (op, stream) =>
      if r.count = COUNT_FOLLOWS then
        match u32D.run stream with
        | .error e => .error e
        | .ok (count, stream) => .ok (some (op, { stream, count }))
      else .ok (some (op, { stream, count := r.count - 1 }))

/-- Every read takes at least a byte off the stream, so `stream.length + 1` calls are enough. -/
def OpReader.feedFrom (resolver : SealResolver H S) : Nat → OpReader → Feed DecodeError Bytes (OperationSeals H S)
  | 0, r => .done r.stream
  | n + 1, r => match r.readOperation W resolver with
    | .error e => .failed e
    | .ok none => .done r.stream
    | .ok (some (op, r')) => .next op (feedFrom resolver n r')

/-- The results of calling `read_operation` until it returns `None` or an error. -/
def OpReader.feed (resolver : SealResolver H S) (r : OpReader) : Feed DecodeError Bytes (OperationSeals H S) :=
  r.feedFrom W resolver (r.stream.length + 1)

variable {W}

theorem resolvedSeals_eq_ok {resolver : SealResolver H S} {bs rest : Bytes} {b : OperationSeals H S} :
    (W.resolvedSeals resolver).run bs = .ok (b, rest) ↔ ∃ seals r₁ r₂,
      W.operation.run bs = .ok (b.operation, r₁) ∧ W.seals.run r₁ = .ok (seals, r₂) ∧
      seals.extend (resolver b.operation).entries = some b.definedSeals ∧
      (optionD W.sealWitness).run r₂ = .ok (b.witness, rest) := by
  simp only [resolvedSeals, Decoder.bind_eq_ok]
  constructor
  · rintro ⟨op, r₁, h₁, seals, r₂, h₂, h⟩
    split at h
    · cases h
    · rename_i defined hd
      obtain ⟨w, r₃, h₃, hp⟩ := Decoder.bind_eq_ok.1 h
      obtain ⟨rfl, rfl⟩ := Decoder.pure_eq_ok.1 hp
      exact ⟨seals, r₁, r₂, h₁, h₂, hd, h₃⟩
  · rintro ⟨seals, r₁, r₂, h₁, h₂, hd, h₃⟩
    refine ⟨_, r₁, h₁, seals, r₂, h₂, ?_⟩
    rw [hd]
    exact Decoder.bind_eq_ok.2 ⟨_, _, h₃, rfl⟩

/-- A block that is read is that of the resolved reader; a count may be read behind it. -/
theorem OpReader.readOperation_eq_ok {resolver : SealResolver H S} {r r' : OpReader} {b : OperationSeals H S}
    (h : r.readOperation W resolver = .ok (some (b, r'))) :
    ∃ stream, (W.resolvedSeals resolver).run r.stream = .ok (b, stream) ∧ r'.stream.length ≤ stream.length := by
  unfold OpReader.readOperation at h
  split at h
  · cases h
  · split at h
    · cases h
    · rename_i op stream hs
      split at h
      · split at h
        · cases h
        · rename_i count rest hc
          cases h
          exact ⟨stream, hs, Decoder.length_le hc⟩
      · cases h
        exact ⟨stream, hs, Nat.le_refl _⟩

theorem OpReader.length_lt {resolver : SealResolver H S} {r r' : OpReader} {b : OperationSeals H S}
    (h : r.readOperation W resolver = .ok (some (b, r'))) : r'.stream.length < r.stream.length := by
  obtain ⟨stream, hs, hstream⟩ := OpReader.readOperation_eq_ok h
  obtain ⟨_, r₁, r₂, h₁, h₂, _, h₃⟩ := resolvedSeals_eq_ok.1 hs
  have hlt := W.operation_nonempty _ _ _ h₁
  have hle := (Decoder.length_le h₂).trans' (Decoder.length_le h₃)
  omega

theorem OpReader.feedFrom_eq (resolver : SealResolver H S) : ∀ (n m : Nat) (r : OpReader),
    r.stream.length < n → r.stream.length < m → r.feedFrom W resolver n = r.feedFrom W resolver m := by
  intro n
  induction n with
  | zero => intro m r h; omega
  | succ n ih =>
    intro m r hn hm
    cases m with
    | zero => omega
    | succ m =>
      simp only [feedFrom]
      split
      · rfl
      · rfl
      · rename_i op r' hr
        have := OpReader.length_lt hr
        rw [ih m r' (by omega) (by omega)]

/-- **The feed of the streaming reader**, call by call. -/
theorem OpReader.feed_eq (resolver : SealResolver H S) (r : OpReader) : r.feed W resolver =
    match r.readOperation W resolver with
    | .error e => .failed e
    | .ok none => .done r.stream
    | .ok (some (op, r')) => .next op (r'.feed W resolver) := by
  rw [feed, feedFrom]
  split
  · rfl
  · rfl
  · rename_i op r' hr
    have := OpReader.length_lt hr
    rw [feed, OpReader.feedFrom_eq resolver _ _ r' this (Nat.lt_succ_self _)]

end Wire

/-! ## A reference encoding

Ids and amounts take a byte, addresses two little-endian numbers. A genesis is an operation
without inputs; its salt stands for everything the contract id commits to. -/

namespace RefWire

def contract : Decoder DecodeError ContractId := do
  let b ← u8D
  return ⟨Vector.replicate 32 b⟩

def cell : Decoder DecodeError CellAddr := do
  let opid ← u16D
  let pos ← u16D
  return ⟨⟨opid.toNat⟩, pos⟩

def output : Decoder DecodeError (StateName × AuthToken × Nat) := do
  let auth ← u8D
  let amount ← u8D
  return ("amount", ⟨auth.toNat⟩, amount.toNat)

def operation : Decoder DecodeError RefOperation := do
  let salt ← u8D
  let contract ← contract
  let inputs ← u8D
  let ins ← cell.times inputs.toNat
  let outputs ← u8D
  let outs ← output.times outputs.toNat
  return ⟨contract, salt.toNat, ins, outs⟩

def genesis : Decoder DecodeError RefOperation := do
  let op ← operation
  if op.ins = [] then return op else .fail .other

def definition : Decoder DecodeError (UInt16 × Nat) := do
  let pos ← u8D
  let output ← u8D
  return (pos.toUInt16, output.toNat)

def seals : Decoder DecodeError (SmallMap UInt16 Nat) := do
  let len ← u8D
  let entries ← definition.times len.toNat
  match SmallMap.empty.extend entries with
  | some m => return m
  | none => .fail .other

def sealWitness : Decoder DecodeError (SealWitness refSeal) := do
  let published ← u8D
  return ⟨published.toNat, .empty⟩

/-- The contract id commits to the genesis. -/
def articlesWith (issue : Issue Unit ContractId RefOperation) (sig : Option UInt8)
    (sigValidator : Unit → Unit → UInt8 → Bool) : Except Unit RefArticles :=
  let id : ContractId := ⟨Vector.replicate 32 (UInt8.ofNat issue.genesis.salt)⟩
  let articles : RefArticles := ⟨id, issue.codex, { issue.genesis with contract := id }, "Test", .bitcoin, true⟩
  match sig with
  | none => .ok articles
  | some sig => if sigValidator () () sig then .ok articles else .error ()

theorem operation_nonempty (bs : Bytes) (op : RefOperation) (rest : Bytes) (h : operation.run bs = .ok (op, rest)) :
    rest.length < bs.length := by
  obtain ⟨salt, mid, hs, hrest⟩ := Decoder.bind_eq_ok.1 h
  exact (Decoder.length_le hrest).trans_lt (Decoder.byte_length_lt hs)

end RefWire

/-- The encoding, over a seal with its own decoders. -/
@[reducible] def refWireOf (S : RgbSeal) (seals : Decoder DecodeError (SmallMap UInt16 S.Definition))
    (sealWitness : Decoder DecodeError (SealWitness S)) : Wire refSonic S where
  Semantics := Unit
  SigBlob := UInt8
  ContractMeta := Unit
  Codex := ContractId
  Genesis := RefOperation
  StrictHash := Unit
  Identity := Unit
  semantics := return ()
  sigBlob := u8D
  contractMeta := return ()
  codex := RefWire.contract
  genesis := RefWire.genesis
  operation := RefWire.operation
  seals := seals
  sealWitness := sealWitness
  operation_nonempty := RefWire.operation_nonempty
  reservedText _ := "reserved byte"
  opidText _ := "operation"
  toOperation g id := { g with contract := id }
  genesisCodex g := g.contract
  codexContract := id
  articlesGenesis a := { a.genesis with contract := a.codex }
  articlesWith _ := RefWire.articlesWith

@[reducible] def refWire : Wire refSonic refSeal := refWireOf refSeal RefWire.seals RefWire.sealWitness

end RgbStd
