import RgbStd.Consign.Agree
import RgbStd.Contract.Anchors
/-!
# Consuming a consignment (contract.rs:290-315, 692-800, 863-877)

| here | there |
| --- | --- |
| `Verifier`     | what `ContractVerify::evaluate` of rgb-core checks about an operation, with its own state |
| `applyBlock`   | `apply_operation`, `apply_seals`, `apply_witness` (contract.rs:863) |
| `evaluate`     | its loop over `read_operation` |
| `evaluateCommit`, `consumeOps`, `consumeInternal`, `consume` | contract.rs:717-800 |
| `withArticles`, `issue` | `Contract::with` and `Contract::issue` (contract.rs:290-365) |

The loop reads a block, checks it and applies it before it reads the next, and ends at the first
error. The genesis names the codex instead of the contract, which does not exist when it is made.
-/
namespace RgbStd
open Tables Decode

/-- `VerificationError`: of the reader, of the codex of the genesis, and of the checks. -/
inductive VerificationError (E V : Type) where
  | retrieve (e : E)
  | noCodexCommitment
  | check (e : V)

def VerificationError.widen {E V : Type} : VerificationError Empty V → VerificationError E V
  | retrieve e => e.elim
  | noCodexCommitment => .noCodexCommitment
  | check e => .check e

/-- `IssuerError` (contracts.rs:470). -/
inductive IssuerError (CodexId : Type) where
  | issuerMismatch
  | consensusMismatch
  | testnetMismatch
  | mainnetMismatch
  | unknownCodex (id : CodexId)
deriving DecidableEq

/-- `ConsumeError` (contract.rs:882). -/
inductive ConsumeError (H : Hypersonic) (V : Type) where
  | unknownContract (id : ContractId)
  | semantics (e : H.SemanticError)
  | decode (e : DecodeError)
  | verify (e : VerificationError DecodeError V)
  | issue (e : IssuerError H.CodexId)

/-- The checks of `evaluate`; `State` is what it remembers between operations. -/
structure Verifier (H : Hypersonic) (S : RgbSeal) where
  State : Type
  Error : Type
  init : State
  verify : H.Ledger → State → OperationSeals H S → Except Error State

namespace Contract

variable {H : Hypersonic} {S : RgbSeal} {E ρ : Type}

/-- The genesis names the codex; it is applied under the id of the contract. -/
def nameGenesis (c : Contract H S) (b : OperationSeals H S) : OperationSeals H S :=
  { b with operation := H.withContractId b.operation (H.ledgerId c.ledger) }

/-- `apply_operation`, `apply_seals` and, where there is a witness, `apply_witness`; `none` is a
panic. -/
def applyBlock (c : Contract H S) (b : OperationSeals H S) : Option (Contract H S) :=
  (H.apply c.ledger b.operation).bind fun ledger =>
    (c.pile.addSeals (H.opid b.operation) b.definedSeals.entries).bind fun pile =>
      let c := { c with ledger, pile }
      match b.witness with
      | none => some c
      | some w => c.include (H.opid b.operation) w.client w.published

/-- The operations after the genesis. -/
def evaluateRest (V : Verifier H S) : Contract H S → V.State → Feed E ρ (OperationSeals H S) →
    Res (VerificationError E V.Error) Unit × Contract H S
  | c, _, .done _ => (.ok (), c)
  | c, _, .failed e => (.error (.err (.retrieve e)), c)
  | c, st, .next b more => match V.verify c.ledger st b with
    | .error e => (.error (.err (.check e)), c)
    | .ok st => match c.applyBlock b with
      | none => (.error .panic, c)
      | some c => c.evaluateRest V st more

/-- `ContractVerify::evaluate`. It is not part of the repository, and the order of its calls is an assumption: each
block is verified, then applied with its seals and its witness, the first one as well. In rgb-core 0.12.0-rc.2 the
first block is not applied to the ledger. -/
def evaluate (V : Verifier H S) (c : Contract H S) (ops : Feed E ρ (OperationSeals H S)) :
    Res (VerificationError E V.Error) Unit × Contract H S :=
  match ops with
  | .next b more =>
    if H.contractId b.operation = H.codexAsContract (H.articles c.ledger) then
      c.evaluateRest V V.init (.next (c.nameGenesis b) more)
    else (.error (.err .noCodexCommitment), c)
  | ops => c.evaluateRest V V.init ops

/-- The commits of the ledger and of the pile (contract.rs:797). -/
def commit (c : Contract H S) : Contract H S := { c with ledger := H.commit c.ledger, pile := c.pile.commit }

/-- `Contract::evaluate_commit` (contract.rs:787). -/
def evaluateCommit (V : Verifier H S) (c : Contract H S) (ops : Feed E ρ (OperationSeals H S)) :
    Res (VerificationError E V.Error) Unit × Contract H S :=
  match c.evaluate V ops with
  | (.error e, c) => (.error e, c)
  | (.ok (), c) => (.ok (), c.commit)

variable (W : Wire H S) (V : Verifier H S)

/-- The steps after the operations: the articles with the genesis of the ledger, their signature,
and the API upgrade (contract.rs:769-783). -/
def upgrade (c : Contract H S) (h : W.Head) (sigValidator : W.Validator) :
    Res (MultiError (ConsumeError H V.Error) H.StockError Empty) Unit × Contract H S :=
  match W.articlesWith h.semantics ⟨h.contractMeta, h.codex, W.articlesGenesis (H.articles c.ledger)⟩ h.sig
      sigValidator with
  | .error e => (.error (.err (.a (.semantics e))), c)
  | .ok articles => match H.upgradeApis c.ledger articles with
    | (.error (.a e), ledger) => (.error (.err (.a (.semantics e))), { c with ledger })
    | (.error (.b e), ledger) => (.error (.err (.b e)), { c with ledger })
    | (.ok (), ledger) => (.ok (), { c with ledger })

/-- The operations of the stream and the steps after them (contract.rs:766-783). -/
def consumeOps (c : Contract H S) (h : W.Head) (sigValidator : W.Validator)
    (ops : Feed DecodeError Bytes (OperationSeals H S)) :
    Res (MultiError (ConsumeError H V.Error) H.StockError Empty) Unit × Contract H S :=
  match c.evaluateCommit V ops with
  | (.error .panic, c) => (.error .panic, c)
  | (.error (.err e), c) => (.error (.err (.a (.verify e))), c)
  | (.ok (), c) => c.upgrade W V h sigValidator

/-- `Contract::consume_internal` (contract.rs:730). -/
def consumeInternal (c : Contract H S) (reader : Bytes) (resolver : SealResolver H S) (sigValidator : W.Validator) :
    Res (MultiError (ConsumeError H V.Error) H.StockError Empty) Unit × Contract H S :=
  match W.head.run reader with
  | .error e => (.error (.err (.a (.decode e))), c)
  | .ok (h, stream) =>
    c.consumeOps W V h sigValidator (Wire.OpReader.feed W resolver ⟨stream, Wire.COUNT_FOLLOWS⟩)

/-- `Contract::consume` (contract.rs:710). -/
def consume (c : Contract H S) (reader : Bytes) (resolver : SealResolver H S) (sigValidator : W.Validator) :
    Res (MultiError (ConsumeError H V.Error) H.StockError Empty) Unit × Contract H S :=
  match W.parseConsignment.run reader with
  | .error e => (.error (.err (.a (.decode e))), c)
  | .ok (id, reader) =>
    if id ≠ c.contractId then (.error (.err (.a (.unknownContract id))), c)
    else c.consumeInternal W V reader resolver sigValidator

/-- `Contract::with` (contract.rs:290): the articles and the operations of a consignment, on a new
ledger and a new pile. -/
def withArticles {PileError : Type} (newPile : Except PileError (PileFs S)) (articles : H.Articles)
    (consignment : W.Consignment) : Res (MultiError (ConsumeError H V.Error) H.StockError PileError) (Contract H S) :=
  match H.new articles with
  | .error e => .error (.err (.b e))
  | .ok ledger => match newPile with
    | .error e => .error (.err (.c e))
    | .ok pile => match pile.addSeals (H.genesisOpid articles) [] with
      | none => .error .panic
      | some pile =>
        let c : Contract H S := { contractId := H.articlesId articles, ledger, pile }
        match c.evaluateCommit V consignment.intoOperations.feed with
        | (.error .panic, _) => .error .panic
        | (.error (.err e), _) => .error (.err (.a (.verify e.widen)))
        | (.ok (), c) => .ok c

variable {W V}

theorem applyBlock_eq {c c' : Contract H S} {b : OperationSeals H S} (h : c.applyBlock b = some c') :
    ∃ ledger pile, H.apply c.ledger b.operation = some ledger ∧
      c.pile.addSeals (H.opid b.operation) b.definedSeals.entries = some pile ∧
      (match b.witness with
        | none => some { c with ledger, pile }
        | some w => ({ c with ledger, pile } : Contract H S).include (H.opid b.operation) w.client w.published) =
          some c' := by
  obtain ⟨ledger, hl, h⟩ := Option.bind_eq_some_iff.1 h
  obtain ⟨pile, hp, h⟩ := Option.bind_eq_some_iff.1 h
  exact ⟨ledger, pile, hl, hp, h⟩

theorem evaluateCommit_eq_ok {c c' : Contract H S} {ops : Feed E ρ (OperationSeals H S)} :
    c.evaluateCommit V ops = (.ok (), c') ↔ ∃ c₁, c.evaluate V ops = (.ok (), c₁) ∧ c' = c₁.commit := by
  unfold evaluateCommit
  split
  · rename_i h; simp [h]
  · rename_i c₁ h
    constructor
    · intro he; cases he; exact ⟨c₁, h, rfl⟩
    · rintro ⟨c₂, h₂, rfl⟩; rw [h] at h₂; cases h₂; rfl

theorem withArticles_eq_ok {PileError : Type} {newPile : Except PileError (PileFs S)} {articles : H.Articles}
    {consignment : W.Consignment} {c : Contract H S} (h : withArticles W V newPile articles consignment = .ok c) :
    ∃ ledger pile₀ pile, H.new articles = .ok ledger ∧ newPile = .ok pile₀ ∧
      pile₀.addSeals (H.genesisOpid articles) [] = some pile ∧
      evaluateCommit V ⟨H.articlesId articles, ledger, pile⟩ consignment.intoOperations.feed = (.ok (), c) := by
  simp only [withArticles] at h
  repeat' split at h
  all_goals cases h
  rename_i hn _ _ _ _ hs _ he
  exact ⟨_, _, _, hn, rfl, hs, he⟩

variable (W V)

/-- The outputs whose seals the issuer knows (contract.rs:327). -/
def explicitSeals (params : CreateParams H S) : Table UInt16 S.Definition :=
  params.owned.zipIdx.filterMap fun (a, pos) => a.state.seal_.toExplicit.map fun s => (UInt16.ofNat pos, s)

def issueParams (params : CreateParams H S) : IssueParams H.IssuerSpec H.StrictVal H.StateAtom where
  issuer := params.issuer
  name := params.name
  consensus := params.consensus
  testnet := params.testnet
  timestamp := params.timestamp
  core :=
    { method := params.method
      global := params.global
      owned := params.owned.map fun a => ⟨a.name, ⟨a.state.seal_.authToken S.authToken, a.state.data⟩⟩ }

/-- `Contract::issue` (contract.rs:317). `conf` prepares the storage for the articles. -/
def issue {PileError σ : Type} (issuer : H.Issuer) (params : CreateParams H S) (store : σ)
    (conf : σ → H.Articles → Except H.StockError Unit × σ) (newPile : Except PileError (PileFs S)) :
    Res (MultiError (IssuerError H.CodexId) H.StockError PileError) (Contract H S) × σ :=
  if H.specCheck params.issuer issuer = false then (.error (.err (.a .issuerMismatch)), store)
  else match SmallMap.ofEntries (explicitSeals params) with
    | none => (.error .panic, store)
    | some seals =>
      let articles := H.issue issuer (issueParams params)
      match conf store articles with
      | (.error e, store) => (.error (.err (.b e)), store)
      | (.ok (), store) => match H.new articles with
        | .error e => (.error (.err (.b e)), store)
        | .ok ledger => match newPile with
          | .error e => (.error (.err (.c e)), store)
          | .ok pile => match pile.addSeals (H.genesisOpid (H.articles ledger)) seals.entries with
            | none => (.error .panic, store)
            | some pile => (.ok { contractId := H.ledgerId ledger, ledger, pile }, store)

variable {W V}

/-- The storage is touched by the preparation only. -/
theorem issue_store {PileError σ : Type} (issuer : H.Issuer) (params : CreateParams H S) (store : σ)
    (conf : σ → H.Articles → Except H.StockError Unit × σ) (newPile : Except PileError (PileFs S)) :
    (issue issuer params store conf newPile).2 = store ∨
      (issue issuer params store conf newPile).2 = (conf store (H.issue issuer (issueParams params))).2 := by
  unfold issue
  split
  · exact Or.inl rfl
  · split
    · exact Or.inl rfl
    · dsimp only
      split
      · rename_i h; exact Or.inr (by rw [h])
      · rename_i h
        refine Or.inr ?_
        rw [h]
        split
        · rfl
        · split
          · rfl
          · split <;> rfl

/-- What an issued contract is made of. -/
theorem issue_makes {PileError σ : Type} {issuer : H.Issuer} {params : CreateParams H S} {store store' : σ}
    {conf : σ → H.Articles → Except H.StockError Unit × σ} {newPile : Except PileError (PileFs S)} {c : Contract H S}
    (h : issue issuer params store conf newPile = (.ok c, store')) :
    conf store (H.issue issuer (issueParams params)) = (.ok (), store') ∧
      H.new (H.issue issuer (issueParams params)) = .ok c.ledger ∧ c.contractId = H.ledgerId c.ledger ∧
      ∃ pile seals, newPile = .ok pile ∧ SmallMap.ofEntries (explicitSeals params) = some seals ∧
        pile.addSeals (H.genesisOpid (H.articles c.ledger)) seals.entries = some c.pile := by
  unfold issue at h
  split at h
  · cases h
  · split at h
    · cases h
    · rename_i seals hs
      dsimp only at h
      split at h
      · cases h
      · rename_i hc
        split at h
        · cases h
        · rename_i ledger hn
          split at h
          · cases h
          · rename_i pile
            split at h
            · cases h
            · rename_i pile' hp
              cases h
              exact ⟨hc, hn, rfl, pile, seals, rfl, hs, hp⟩

theorem issue_eq_ok {PileError σ : Type} {issuer : H.Issuer} {params : CreateParams H S} {store store' : σ}
    {conf : σ → H.Articles → Except H.StockError Unit × σ} {newPile : Except PileError (PileFs S)} {c : Contract H S}
    (h : issue issuer params store conf newPile = (.ok c, store')) :
    conf store (H.issue issuer (issueParams params)) = (.ok (), store') ∧
      ∃ ledger, H.new (H.issue issuer (issueParams params)) = .ok ledger ∧ c.contractId = H.ledgerId ledger := by
  obtain ⟨hc, hn, hid, _⟩ := issue_makes h
  exact ⟨hc, c.ledger, hn, hid⟩

section
variable {PileError σ : Type} {issuer : H.Issuer} {params : CreateParams H S} {store store' : σ}
  {conf : σ → H.Articles → Except H.StockError Unit × σ} (newPile : Except PileError (PileFs S))
  {seals : SmallMap UInt16 S.Definition}

theorem issue_conf_error (hcheck : H.specCheck params.issuer issuer = true)
    (hs : SmallMap.ofEntries (explicitSeals params) = some seals) {e : H.StockError}
    (hc : conf store (H.issue issuer (issueParams params)) = (.error e, store')) :
    issue issuer params store conf newPile = (.error (.err (.b e)), store') := by
  simp [issue, hcheck, hs, hc]

/-- Once the storage is prepared, the contract has the ledger of the articles. -/
theorem issue_conf_ok (hcheck : H.specCheck params.issuer issuer = true)
    (hs : SmallMap.ofEntries (explicitSeals params) = some seals)
    (hc : conf store (H.issue issuer (issueParams params)) = (.ok (), store')) :
    (∃ e, issue issuer params store conf newPile = (.error e, store')) ∨
      ∃ c, H.new (H.issue issuer (issueParams params)) = .ok c.ledger ∧ c.contractId = H.ledgerId c.ledger ∧
        issue issuer params store conf newPile = (.ok c, store') := by
  simp only [issue, hcheck, hs, hc, Bool.true_eq_false, if_false]
  cases hn : H.new (H.issue issuer (issueParams params)) with
  | error e => exact Or.inl ⟨_, rfl⟩
  | ok ledger =>
    cases newPile with
    | error e => exact Or.inl ⟨_, rfl⟩
    | ok pile =>
      cases hp : pile.addSeals (H.genesisOpid (H.articles ledger)) seals.entries with
      | none => exact Or.inl ⟨.panic, by simp [hp]⟩
      | some pile => exact Or.inr ⟨⟨H.ledgerId ledger, ledger, pile⟩, rfl, rfl, by simp [hp]⟩

end

end Contract

end RgbStd
