import RgbStd.Contracts.Moves
/-!
# `Contracts` with all its calls (contracts.rs:238-390)

| here | there |
| --- | --- |
| `ManagedStockpile`     | the storage trait with `import_issuer` and `purge`; a storage answers under the `Faults` of its medium |
| `purge`, `importIssuer` | contracts.rs:362, 238 |
| `ManagedCall`, `manage` | a call of any kind, under the faults of its time |
| `handed`               | the contracts a call gives to the closures of `with_contract` and `with_contract_mut` |

The issuers in memory are left out: no call on a contract looks at them.

* `Moves.stores`: what the calls of `Contracts/Moves` do to the storage.
* `manage_manages`: what every call comes to.
-/
namespace RgbStd
open Tables Decode

/-- The whole storage trait (stockpile.rs:53). -/
structure ManagedStockpile {H : Hypersonic} {S : RgbSeal} (W : Wire H S) (V : Verifier H S) extends Stockpile W V where
  Error : Type
  Faults : Type
  under : Faults → Store → Store
  importIssuer : Store → H.Issuer → Except Error H.Issuer × Store
  purge : Store → ContractId → Except Error Unit × Store

def Hypersonic.network {H : Hypersonic} (articles : H.Articles) : Consensus × Bool :=
  (H.articlesConsensus articles, H.articlesTestnet articles)

def Contract.network {H : Hypersonic} {S : RgbSeal} (c : Contract H S) : Consensus × Bool :=
  Hypersonic.network (H.articles c.ledger)

def Stockpile.network {H : Hypersonic} {S : RgbSeal} {W : Wire H S} {V : Verifier H S} (P : Stockpile W V)
    (s : P.Store) : Consensus × Bool :=
  (P.consensus s, P.isTestnet s)

/-- Every call of `Contracts` which may touch a contract. What `export` and `consign` write is not
looked at here. -/
inductive ManagedCall {H : Hypersonic} {S : RgbSeal} (W : Wire H S) where
  | base (call : Call W)
  | importIssuer (issuer : H.Issuer)
  | purge (id : ContractId)
  | exported (id : ContractId)
  | consign (id : ContractId)

namespace Contracts

variable {H : Hypersonic} {S : RgbSeal} {W : Wire H S} {V : Verifier H S}

section
variable {P : ManagedStockpile W V}

/-- `Contracts::import_issuer` (contracts.rs:238). -/
def importIssuer (s : Contracts P.toStockpile) (issuer : H.Issuer) :
    Except P.Error H.CodexId × Contracts P.toStockpile :=
  match P.importIssuer s.persistence issuer with
  | (.error e, persistence) => (.error e, { s with persistence })
  | (.ok _, persistence) => (.ok (H.issuerCodex issuer), { s with persistence })

/-- `Contracts::purge` (contracts.rs:362). -/
def purge (s : Contracts P.toStockpile) (id : ContractId) : Except P.Error Unit × Contracts P.toStockpile :=
  let s := { s with contracts := erase s.contracts id }
  match P.purge s.persistence id with
  | (.error e, persistence) => (.error e, { s with persistence })
  | (.ok (), persistence) => (.ok (), { s with persistence })

/-- What a call finds: the storage under the faults of its time. -/
def under (s : Contracts P.toStockpile) (faults : P.Faults) : Contracts P.toStockpile :=
  { s with persistence := P.under faults s.persistence }

/-- A call under the faults of its time, whether it returns `Ok` or an error; `none` is a panic. -/
def manage (s : Contracts P.toStockpile) (call : P.Faults × ManagedCall W) : Option (Contracts P.toStockpile) :=
  let s := s.under call.1
  match call.2 with
  | .base call => s.handle call
  | .importIssuer issuer => some (s.importIssuer issuer).2
  | .purge id => some (s.purge id).2
  | .exported id => (s.withContract id (fun _ => ()) none).map Prod.snd
  | .consign id => (s.withContractMut id fun c => ((), c)).map Prod.snd

end

/-! ## The contracts given to closures -/

section
variable {P : Stockpile W V}

def witnessIdsHanded (predicate : PileFs.Witness S → Bool) : List ContractId → Contracts P → List (Contract H S)
  | [], _ => []
  | id :: ids, s =>
    match s.withContract id (fun c => (c.pile.witnesses.filter predicate).map (·.id)) (some []) with
    | some (_, s') => (s.served id).toList ++ witnessIdsHanded predicate ids s'
    | none => []

def syncHanded (changed : List (S.WitnessId × WitnessStatus)) : List ContractId → Contracts P → List (Contract H S)
  | [], _ => []
  | id :: ids, s => (s.served id).toList ++ match s.withContractMut id fun c => c.sync changed with
    | some (.ok (), s') => syncHanded changed ids s'
    | _ => []

/-- The contracts a call hands to closures, also if it panics later. -/
def handed (s : Contracts P) : ManagedCall W → List (Contract H S)
  | .base (.issue _) | .importIssuer _ | .purge _ => []
  | .base (.consume _ reader _ _) => match W.parseConsignment.run reader with
    | .error _ => []
    | .ok (id, _) => if s.hasContract id = false then [] else (s.served id).toList
  | .base (.sync changed) => syncHanded changed s.contractIds s
  | .base (.witnessIds predicate) => witnessIdsHanded predicate s.contractIds s
  | .base (.contractCall id _ _) | .base (.included id _ _ _) | .base (.contractState id) | .base (.contractArticles id)
  | .exported id | .consign id => (s.served id).toList

/-! ## The storage -/

theorem checkLayer1_ok {s : Contracts P} {consensus : Consensus} {testnet : Bool}
    (h : s.checkLayer1 consensus testnet = .ok ()) : (consensus, testnet) = P.network s.persistence := by
  unfold checkLayer1 at h
  split at h
  · cases h
  · rename_i hc
    split at h
    · cases h
    · rename_i ht
      exact Prod.ext (not_not.1 hc) (not_not.1 ht)

/-- What a call does to the storage: nothing, an issue or an import. -/
inductive Stores (s : Contracts P) (persistence : P.Store) : Prop where
  | kept (h : persistence = s.persistence)
  | issue (params : CreateParams H S) (hn : (params.consensus, params.testnet) = P.network s.persistence)
      (h : persistence = (P.issue s.persistence params).2)
  | imports (articles : H.Articles) (consignment : W.Consignment)
      (hn : Hypersonic.network articles = P.network s.persistence)
      (h : persistence = (P.importContract s.persistence articles consignment).2)

/-- **What a move does to the storage.** -/
theorem Moves.stores {s s' : Contracts P} {call : Call W} (h : s.Moves call s') : s.Stores s'.persistence := by
  cases h with
  | edits he => exact .kept (edits_persistence he)
  | issueFails hl hi => exact .issue _ (checkLayer1_ok hl) rfl
  | issued hl hi => exact .issue _ (checkLayer1_ok hl) rfl
  | importFails hp hk hc ha hl hi => exact .imports _ _ (checkLayer1_ok hl) rfl
  | imported hp hk hc ha hl hi => exact .imports _ _ (checkLayer1_ok hl) rfl

end

/-! ## Moves of all calls -/

section
variable {P : ManagedStockpile W V}

/-- What a call of any kind comes to. -/
inductive Manages (s : Contracts P.toStockpile) : ManagedCall W → Contracts P.toStockpile → Prop where
  | base {call : Call W} {s' : Contracts P.toStockpile} (h : s.Moves call s') : Manages s (.base call) s'
  | importIssuer (issuer : H.Issuer) :
      Manages s (.importIssuer issuer) ⟨s.contracts, (P.importIssuer s.persistence issuer).2⟩
  | purge (id : ContractId) : Manages s (.purge id) ⟨erase s.contracts id, (P.purge s.persistence id).2⟩
  | exported {id : ContractId} {s' : Contracts P.toStockpile} (h : Relation.ReflTransGen Edits s s') :
      Manages s (.exported id) s'
  | consign {id : ContractId} {s' : Contracts P.toStockpile} (h : s.Edits s') : Manages s (.consign id) s'

theorem importIssuer_state (s : Contracts P.toStockpile) (issuer : H.Issuer) :
    (s.importIssuer issuer).2 = ⟨s.contracts, (P.importIssuer s.persistence issuer).2⟩ := by
  unfold importIssuer
  split <;> rename_i he <;> rw [he]

theorem purge_state (s : Contracts P.toStockpile) (id : ContractId) :
    (s.purge id).2 = ⟨erase s.contracts id, (P.purge s.persistence id).2⟩ := by
  unfold purge
  dsimp only
  split <;> rename_i he <;> rw [he]

/-- **Every call** of any kind is one of these. -/
theorem manage_manages {s s' : Contracts P.toStockpile} {faults : P.Faults} {call : ManagedCall W}
    (hs : s.manage (faults, call) = some s') : (s.under faults).Manages call s' := by
  cases call with
  | base call => exact .base (handle_moves hs)
  | importIssuer issuer =>
    cases hs
    rw [importIssuer_state]
    exact .importIssuer issuer
  | purge id =>
    cases hs
    rw [purge_state]
    exact .purge id
  | exported id =>
    obtain ⟨⟨r, s₁⟩, hc, rfl⟩ := Option.map_eq_some_iff.1 hs
    exact .exported (withContract_edits hc)
  | consign id =>
    obtain ⟨⟨r, s₁⟩, hc, rfl⟩ := Option.map_eq_some_iff.1 hs
    exact .consign (withContractMut_edits (fun _ => .refl) hc)

end

end Contracts

end RgbStd
