import RgbStd.Lib.Tables
/-!
# Identifiers and the types of the crates the library is built on

Hash-valued identifiers that are only compared (`Opid`, `AuthToken`) are plain tags; the contract
id, whose bytes enter the noise derivation, is a byte string.

| here | there |
| --- | --- |
| `Hypersonic`  | the `hypersonic` crate: operations, articles, `StateCalc` and the `Ledger` runtime (not part of the repository) |
| `RgbSeal`     | the `RgbSeal` / `RgbSealDef` traits of `rgb-core` with the client and published witness traits |
| `CallParams`  | `hypersonic::CallParams` as built by `RgbWallet::prefab` (popls/bp.rs:629) |
| `CreateParams`| `CreateParams` (contract.rs:232) |
| `MultiError`, `Halt` | `amplify::MultiError`; how a call ends that does not return `Ok` |

Both interfaces are parameters of the model. What the library relies on is stated where it is
used, as named hypotheses about them.
-/
namespace RgbStd
open Tables

/-- Operation id. -/
structure Opid where
  tag : Nat
deriving DecidableEq, Repr

/-- Contract id; the codex id an operation of an unissued contract carries has the same form. -/
structure ContractId where
  bytes : Vector UInt8 32
deriving DecidableEq, Repr

structure AuthToken where
  tag : Nat
deriving DecidableEq, Repr

/-- Address of an operation output. -/
structure CellAddr where
  opid : Opid
  pos : UInt16
deriving DecidableEq, Repr

inductive Consensus where
  | none | bitcoin | liquid | prime
deriving DecidableEq, Repr

abbrev StateName := String
abbrev MethodName := String
abbrev TypeName := String

inductive MultiError (A B C : Type) where
  | a (e : A)
  | b (e : B)
  | c (e : C)

/-- A call which does not return `Ok` returns an error or reaches a panic. -/
inductive Halt (E : Type) where
  | err (e : E)
  | panic

abbrev Res (E α : Type) := Except (Halt E) α

structure NamedState (σ : Type) where
  name : StateName
  state : σ

/-- An owned output as handed to the ledger (its `lock` is always `None`). -/
structure DataCell (Val : Type) where
  auth : AuthToken
  data : Val

structure CoreParams (Val Atom : Type) where
  method : MethodName
  global : List (NamedState Atom)
  owned : List (NamedState (DataCell Val))

structure CallParams (Val Atom Sat : Type) where
  core : CoreParams Val Atom
  using_ : Table CellAddr (Option Sat)
  reading : List CellAddr

/-- Either a seal known to the wallet or a bare auth token (contract.rs:66). -/
inductive EitherSeal (σ : Type) where
  | alt (s : σ)
  | token (auth : AuthToken)

structure Assignment (σ Val : Type) where
  seal_ : σ
  data : Val

structure IssueParams (Spec Val Atom : Type) where
  issuer : Spec
  name : TypeName
  consensus : Consensus
  testnet : Bool
  timestamp : Option Int
  core : CoreParams Val Atom

/-- The external ledger library: opaque types with the functions the repository calls. -/
structure Hypersonic where
  StrictVal : Type
  StateAtom : Type
  Satisfaction : Type
  Operation : Type
  Articles : Type
  IssuerSpec : Type
  Issuer : Type
  CodexId : Type
  StateCalc : Type
  StateCalcError : Type
  AcceptError : Type
  SemanticError : Type
  StockError : Type
  Ledger : Type
  [decOperation : DecidableEq Operation]
  [ordOperation : Ord Operation]
  [transOperation : Std.TransOrd Operation]
  [decCodexId : DecidableEq CodexId]
  -- `Operation`
  opid : Operation → Opid
  contractId : Operation → ContractId
  withContractId : Operation → ContractId → Operation
  destructibleIn : Operation → List CellAddr
  destructibleOut : Operation → List AuthToken
  -- `Articles`, `Issuer`
  articlesId : Articles → ContractId
  genesisOpid : Articles → Opid
  codexAsContract : Articles → ContractId
  articlesName : Articles → String
  articlesConsensus : Articles → Consensus
  articlesTestnet : Articles → Bool
  issuerCodex : Issuer → CodexId
  specCodex : IssuerSpec → CodexId
  specCheck : IssuerSpec → Issuer → Bool
  issue : Issuer → IssueParams IssuerSpec StrictVal StateAtom → Articles
  -- `Api::calculate` of the articles' default API and `StateCalc`
  calculate : Articles → StateName → Option StateCalc
  accumulate : StateCalc → StrictVal → Except StateCalcError StateCalc
  lessen : StateCalc → StrictVal → Except StateCalcError StateCalc
  diff : StateCalc → Except StateCalcError (List StrictVal)
  -- `Ledger`
  new : Articles → Except StockError Ledger
  ledgerId : Ledger → ContractId
  articles : Ledger → Articles
  operations : Ledger → List Opid
  operation : Ledger → Opid → Operation
  trace : Ledger → List Opid
  isValid : Ledger → Opid → Bool
  ancestors : Ledger → Opid → List Opid
  owned : Ledger → List (StateName × List (CellAddr × StrictVal))
  global : Ledger → List (StateName × List (CellAddr × StateAtom))
  aggregated : Ledger → List (StateName × StrictVal)
  call : Ledger → CallParams StrictVal StateAtom Satisfaction →
    Except (MultiError AcceptError StockError Empty) Opid × Ledger
  apply : Ledger → Operation → Option Ledger
  rollback : Ledger → List Opid → Except StockError Unit × Ledger
  forward : Ledger → List Opid → Except (MultiError AcceptError StockError Empty) Unit × Ledger
  commit : Ledger → Ledger
  upgradeApis : Ledger → Articles → Except (MultiError SemanticError StockError Empty) Unit × Ledger

attribute [instance] Hypersonic.decOperation Hypersonic.ordOperation Hypersonic.transOperation Hypersonic.decCodexId

/-- A seal protocol: definitions, the two halves of a witness and its id. `merge` is
`ClientSideWitness::merge`, `none` when it returns an error. -/
structure RgbSeal where
  Src : Type
  Definition : Type
  Published : Type
  Client : Type
  WitnessId : Type
  [decDefinition : DecidableEq Definition]
  [decPublished : DecidableEq Published]
  [decClient : DecidableEq Client]
  [decWitnessId : DecidableEq WitnessId]
  pubId : Published → WitnessId
  merge : Client → Client → Option Client
  authToken : Definition → AuthToken
  resolve : Definition → WitnessId → Src
  toSrc : Definition → Option Src

attribute [instance] RgbSeal.decDefinition RgbSeal.decPublished RgbSeal.decClient RgbSeal.decWitnessId

/-- `SealWitness`: the published and the client-side half (single_use_seals). -/
structure SealWitness (S : RgbSeal) where
  published : S.Published
  client : S.Client

/-- `CreateParams` (contract.rs:232). -/
structure CreateParams (H : Hypersonic) (S : RgbSeal) where
  issuer : H.IssuerSpec
  consensus : Consensus
  testnet : Bool
  method : MethodName
  name : TypeName
  timestamp : Option Int
  global : List (NamedState H.StateAtom)
  owned : List (NamedState (Assignment (EitherSeal S.Definition) H.StrictVal))

/-- `EitherSeal::auth_token` (contract.rs:74). -/
def EitherSeal.authToken {σ : Type} (f : σ → AuthToken) : EitherSeal σ → AuthToken
  | .alt s => f s
  | .token auth => auth

/-- `EitherSeal::to_explicit` (contract.rs:82). -/
def EitherSeal.toExplicit {σ : Type} : EitherSeal σ → Option σ
  | .alt s => some s
  | .token _ => none

end RgbStd
