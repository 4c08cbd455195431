import RgbStd.Contract.Atomic
/-!
# `Stockpile` and `Contracts` (stockpile.rs, contracts.rs:59-465)

| here | there |
| --- | --- |
| `Stockpile`   | the trait: a storage with the contracts it serves |
| `Contracts`   | the contracts in memory over a storage |
| `withContract`, `withContractMut` | contracts.rs:87-126 |
| `issue` … `include`, `consume`    | contracts.rs:245-336, 408-465 |

`none` of a call is a panic: an unknown contract, or a panic of a contract. A contract is read from
the storage once; what the storage holds of it afterwards is never looked at again.
-/
namespace RgbStd
open Tables Decode

/-- The storage trait (stockpile.rs:53), over the state type `Store`. -/
structure Stockpile {H : Hypersonic} {S : RgbSeal} (W : Wire H S) (V : Verifier H S) where
  Store : Type
  PileError : Type
  consensus : Store → Consensus
  isTestnet : Store → Bool
  hasContract : Store → ContractId → Bool
  contractIds : Store → List ContractId
  contract : Store → ContractId → Option (Contract H S)
  importContract : Store → H.Articles → W.Consignment →
    Res (MultiError (ConsumeError H V.Error) H.StockError PileError) (Contract H S) × Store
  issue : Store → CreateParams H S → Res (MultiError (IssuerError H.CodexId) H.StockError PileError) (Contract H S) × Store

/-- What a storage promises: the contracts it serves are known to it under their own ids, contracts
stay known, and an import creates the contract of the articles. -/
structure Stockpile.Lawful {H : Hypersonic} {S : RgbSeal} {W : Wire H S} {V : Verifier H S} (P : Stockpile W V) :
    Prop where
  served : ∀ s id c, P.contract s id = some c → P.hasContract s id = true ∧ c.contractId = id
  import_keeps : ∀ s a cons id, P.hasContract s id = true → P.hasContract (P.importContract s a cons).2 id = true
  import_ok : ∀ s a cons c s', P.importContract s a cons = (.ok c, s') →
    Contract.withArticles W V (.ok .new : Except P.PileError (PileFs S)) a cons = .ok c ∧
      P.hasContract s' c.contractId = true
  issue_keeps : ∀ s p id, P.hasContract s id = true → P.hasContract (P.issue s p).2 id = true
  issue_ok : ∀ s p c s', P.issue s p = (.ok c, s') → P.hasContract s' c.contractId = true

/-- The `unreachable!()` of an error a known contract does not return (contracts.rs:462). -/
def noThird {A B C α : Type} : Res (MultiError A B Empty) α → Res (MultiError A B C) α
  | .ok a => .ok a
  | .error .panic => .error .panic
  | .error (.err (.a e)) => .error (.err (.a e))
  | .error (.err (.b e)) => .error (.err (.b e))
  | .error (.err (.c e)) => e.elim

theorem noThird_eq_ok {A B C α : Type} {r : Res (MultiError A B Empty) α} {a : α} :
    (noThird r : Res (MultiError A B C) α) = .ok a ↔ r = .ok a := by
  match r with
  | .ok b => simp [noThird]
  | .error .panic => simp [noThird]
  | .error (.err (.a e)) => simp [noThird]
  | .error (.err (.b e)) => simp [noThird]
  | .error (.err (.c e)) => exact e.elim

/-- `Contracts` (contracts.rs:59). -/
structure Contracts {H : Hypersonic} {S : RgbSeal} {W : Wire H S} {V : Verifier H S} (P : Stockpile W V) where
  contracts : Table ContractId (Contract H S)
  persistence : P.Store

namespace Contracts

variable {H : Hypersonic} {S : RgbSeal} {W : Wire H S} {V : Verifier H S} {P : Stockpile W V} {R : Type}

def load (persistence : P.Store) : Contracts P := { contracts := [], persistence }

/-- The contract a call on `id` works on. -/
def served (s : Contracts P) (id : ContractId) : Option (Contract H S) :=
  (get s.contracts id).or (P.contract s.persistence id)

/-- What is put into memory is served, and nothing else is served otherwise. -/
theorem served_upsert (s : Contracts P) (id : ContractId) (c : Contract H S) (id' : ContractId) :
    served ({ s with contracts := upsert s.contracts id c } : Contracts P) id' =
      if id' = id then some c else s.served id' := by
  simp only [served, get_upsert]
  split <;> rfl

/-- `Contracts::with_contract` (contracts.rs:87): reads from the storage what is not in memory. -/
def withContract (s : Contracts P) (id : ContractId) (f : Contract H S → R) (or_ : Option R) :
    Option (R × Contracts P) :=
  match get s.contracts id with
  | some c => some (f c, s)
  | none => match P.contract s.persistence id with
    | some c => some (f c, { s with contracts := upsert s.contracts id c })
    | none => or_.map fun r => (r, s)

/-- `Contracts::with_contract_mut` (contracts.rs:109). -/
def withContractMut (s : Contracts P) (id : ContractId) (f : Contract H S → R × Contract H S) :
    Option (R × Contracts P) :=
  match s.served id with
  | some c =>
    let (res, c) := f c
    some (res, { s with contracts := upsert s.contracts id c })
  | none => none

theorem withContractMut_eq {s s' : Contracts P} {id : ContractId} {f : Contract H S → R × Contract H S} {r : R}
    (h : s.withContractMut id f = some (r, s')) : ∃ c, s.served id = some c ∧ r = (f c).1 ∧
      s' = { s with contracts := upsert s.contracts id (f c).2 } := by
  unfold withContractMut at h
  split at h
  · rename_i c hc
    obtain ⟨rfl, rfl⟩ := Prod.mk.inj (Option.some.inj h)
    exact ⟨c, hc, rfl, rfl⟩
  · cases h

def hasContract (s : Contracts P) (id : ContractId) : Bool := P.hasContract s.persistence id

def contractIds (s : Contracts P) : List ContractId := P.contractIds s.persistence

/-- `Contracts::contract_state` (contracts.rs:176). -/
def contractState (s : Contracts P) (id : ContractId) : Option (ContractState H S × Contracts P) :=
  s.withContract id Contract.state none

/-- `Contracts::contract_articles` (contracts.rs:183). -/
def contractArticles (s : Contracts P) (id : ContractId) : Option (H.Articles × Contracts P) :=
  s.withContract id (fun c => H.articles c.ledger) none

/-- `Contracts::witness_ids` (contracts.rs:216), run to its end. -/
def witnessIdsFrom (predicate : PileFs.Witness S → Bool) : List ContractId → Contracts P →
    List S.WitnessId × Contracts P
  | [], s => ([], s)
  | id :: ids, s =>
    match s.withContract id (fun c => (c.pile.witnesses.filter predicate).map (·.id)) (some []) with
    | some (wids, s) =>
      let (rest, s) := witnessIdsFrom predicate ids s
      (wids ++ rest, s)
    | none => ([], s)

def witnessIds (s : Contracts P) (predicate : PileFs.Witness S → Bool) : List S.WitnessId × Contracts P :=
  witnessIdsFrom predicate s.contractIds s

/-- `Contracts::check_layer1` (contracts.rs:245). -/
def checkLayer1 (s : Contracts P) (consensus : Consensus) (testnet : Bool) : Except (IssuerError H.CodexId) Unit :=
  if consensus ≠ P.consensus s.persistence then .error .consensusMismatch
  else if testnet ≠ P.isTestnet s.persistence then
    .error (if testnet then .testnetMismatch else .mainnetMismatch)
  else .ok ()

/-- `Contracts::issue` (contracts.rs:265). -/
def issue (s : Contracts P) (params : CreateParams H S) :
    Res (MultiError (IssuerError H.CodexId) H.StockError P.PileError) ContractId × Contracts P :=
  match s.checkLayer1 params.consensus params.testnet with
  | .error e => (.error (.err (.a e)), s)
  | .ok () => match P.issue s.persistence params with
    | (.error e, persistence) => (.error e, { s with persistence })
    | (.ok c, persistence) =>
      (.ok c.contractId, { contracts := upsert s.contracts c.contractId c, persistence })

/-- `Contracts::contract_call` (contracts.rs:289). -/
def contractCall (s : Contracts P) (id : ContractId) (call : CallParams H.StrictVal H.StateAtom H.Satisfaction)
    (seals : SmallMap UInt16 S.Definition) :
    Option (Res (MultiError H.AcceptError H.StockError Empty) H.Operation × Contracts P) :=
  s.withContractMut id fun c => c.call call seals

/-- The loop of `Contracts::sync`: it ends at the first contract that fails. -/
def syncFrom (changed : List (S.WitnessId × WitnessStatus)) : List ContractId → Contracts P →
    Option (Res (MultiError H.AcceptError H.StockError Empty) Unit × Contracts P)
  | [], s => some (.ok (), s)
  | id :: ids, s => match s.withContractMut id fun c => c.sync changed with
    | none => none
    | some (.error e, s) => some (.error e, s)
    | some (.ok (), s) => syncFrom changed ids s

/-- `Contracts::sync` (contracts.rs:303). -/
def sync (s : Contracts P) (changed : List (S.WitnessId × WitnessStatus)) :
    Option (Res (MultiError H.AcceptError H.StockError Empty) Unit × Contracts P) :=
  syncFrom changed s.contractIds s

/-- `Contracts::consume` (contracts.rs:408). -/
def consume (s : Contracts P) (allowUnknown : Bool) (reader : Bytes) (resolver : SealResolver H S)
    (sigValidator : W.Validator) :
    Option (Res (MultiError (ConsumeError H V.Error) H.StockError P.PileError) Unit × Contracts P) :=
  match W.parseConsignment.run reader with
  | .error e => some (.error (.err (.a (.decode e))), s)
  | .ok (id, reader) =>
    if s.hasContract id = false then
      if allowUnknown then
        match W.consignment.run reader with
        | .error e => some (.error (.err (.a (.decode e))), s)
        | .ok (consignment, _) => match consignment.articles sigValidator with
          | .error e => some (.error (.err (.a (.semantics e))), s)
          | .ok articles =>
            match s.checkLayer1 (H.articlesConsensus articles) (H.articlesTestnet articles) with
            | .error e => some (.error (.err (.a (.issue e))), s)
            | .ok () => match P.importContract s.persistence articles consignment with
              | (.error e, persistence) => some (.error e, { s with persistence })
              | (.ok c, persistence) => some (.ok (), { contracts := upsert s.contracts id c, persistence })
      else some (.error (.err (.a (.unknownContract id))), s)
    else
      (s.withContractMut id fun c => c.consumeInternal W V reader resolver sigValidator).map fun (res, s) =>
        (noThird res, s)

end Contracts

/-- `Contracts::include` (contracts.rs:328). -/
def Contracts.include {H : Hypersonic} {S : RgbSeal} {W : Wire H S} {V : Verifier H S} {P : Stockpile W V}
    (s : Contracts P) (id : ContractId) (opid : Opid) (pubWitness : S.Published) (anchor : S.Client) :
    Option (Contracts P) :=
  match s.served id with
  | none => none
  | some c => (c.include opid anchor pubWitness).map fun c => { s with contracts := upsert s.contracts id c }

theorem Contracts.include_eq {H : Hypersonic} {S : RgbSeal} {W : Wire H S} {V : Verifier H S} {P : Stockpile W V}
    {s s' : Contracts P} {id : ContractId} {opid : Opid} {pubWitness : S.Published} {anchor : S.Client}
    (h : s.include id opid pubWitness anchor = some s') : ∃ c c', s.served id = some c ∧
      c.include opid anchor pubWitness = some c' ∧ s' = { s with contracts := upsert s.contracts id c' } := by
  unfold Contracts.include at h
  split at h
  · cases h
  · rename_i c hc
    obtain ⟨c', hc', rfl⟩ := Option.map_eq_some_iff.1 h
    exact ⟨c, c', hc, hc', rfl⟩

end RgbStd
