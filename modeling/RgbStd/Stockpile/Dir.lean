import RgbStd.Contracts.Binding
/-!
# `StockpileDir` (persistence/fs/src/stockpile.rs)

| here | there |
| --- | --- |
| `folders`   | the contract folders of the directory, `name.id.contract`, with the contract stored in each |
| `contracts` | the names of the known contracts by id (stockpile.rs:49) |
| `issuers`   | the issuer files by codex id |

A folder whose contract was not completed holds `none`. The file system itself does not fail; what it does
when it may is in `Stockpile/Files`, and `Stockpile/Refine` compares the two.
`stockpileDir_lawful` connects the storage to the promises of the trait.
-/
namespace RgbStd
open Tables Decode

inductive IoError where
  | alreadyExists (msg : String)
deriving DecidableEq

/-- `StockpileDir` (stockpile.rs:44). A folder holds the contract it is named after. -/
structure StockpileDir (H : Hypersonic) (S : RgbSeal) where
  consensus : Consensus
  testnet : Bool
  issuers : Table H.CodexId H.Issuer
  contracts : Table ContractId String
  folders : Table (String × ContractId) (Option (Contract H S))
  stored : ∀ name id c, get folders (name, id) = some (some c) → c.contractId = id

namespace StockpileDir

variable {H : Hypersonic} {S : RgbSeal}

/-- `StockpileDir::load` (stockpile.rs:54): the folders found name the contracts. -/
def load (consensus : Consensus) (testnet : Bool) (issuers : Table H.CodexId H.Issuer)
    (folders : Table (String × ContractId) (Option (Contract H S)))
    (stored : ∀ name id c, get folders (name, id) = some (some c) → c.contractId = id) : StockpileDir H S where
  consensus := consensus
  testnet := testnet
  issuers := issuers
  contracts := folders.foldl (fun contracts e => upsert contracts e.1.2 e.1.1) []
  folders := folders
  stored := stored

def hasContract (d : StockpileDir H S) (id : ContractId) : Bool := has d.contracts id

/-- `StockpileDir::contract` (stockpile.rs:154). -/
def contract (d : StockpileDir H S) (id : ContractId) : Option (Contract H S) := do
  let name ← get d.contracts id
  let c ← (get d.folders (name, id)).join
  let articles := H.articles c.ledger
  if H.articlesConsensus articles ≠ d.consensus ∨ H.articlesTestnet articles ≠ d.testnet then none else some c

/-- The folder of the articles (stockpile.rs:104). -/
def folder (articles : H.Articles) : String × ContractId := (H.articlesName articles, H.articlesId articles)

/-- `StockpileDir::create_contract_dir` (stockpile.rs:103). -/
def createContractDir (d : StockpileDir H S) (articles : H.Articles) : Except IoError Unit × StockpileDir H S :=
  if has d.folders (folder articles) then (.error (.alreadyExists "Contract already exists"), d)
  else (.ok (), { d with
    folders := upsert d.folders (folder articles) none
    stored := fun name id c h => by
      rw [get_upsert] at h
      split at h
      · cases h
      · exact d.stored name id c h })

/-- A completed contract, in the folder of its articles and known by its name. -/
def store (d : StockpileDir H S) (articles : H.Articles) (c : Contract H S) (h : c.contractId = H.articlesId articles) :
    StockpileDir H S :=
  { d with
    contracts := upsert d.contracts c.contractId (H.articlesName (H.articles c.ledger))
    folders := upsert d.folders (folder articles) (some c)
    stored := fun name id c' h' => by
      rw [get_upsert] at h'
      split at h'
      · rename_i he
        cases h'
        exact h.trans (congrArg Prod.snd he).symm
      · exact d.stored name id c' h' }

variable (W : Wire H S) (V : Verifier H S)

/-- `StockpileDir::import_contract` (stockpile.rs:173). -/
def importContract (d : StockpileDir H S) (articles : H.Articles) (consignment : W.Consignment) :
    Res (MultiError (ConsumeError H V.Error) H.StockError IoError) (Contract H S) × StockpileDir H S :=
  match d.createContractDir articles with
  | (.error e, d) => (.error (.err (.c e)), d)
  | (.ok (), d) => match hw : Contract.withArticles W V (.ok .new : Except IoError (PileFs S)) articles consignment with
    | .error e => (.error e, d)
    | .ok c => (.ok c, d.store articles c (Contract.withArticles_contractId hw))

/-- `StockpileDir::issue` (stockpile.rs:197); `stockIo` is how the stock reports an I/O error. -/
def issue (stockIo : IoError → H.StockError) (hN : ∀ a l, H.new a = .ok l → H.ledgerId l = H.articlesId a)
    (d : StockpileDir H S) (params : CreateParams H S) :
    Res (MultiError (IssuerError H.CodexId) H.StockError IoError) (Contract H S) × StockpileDir H S :=
  match get d.issuers (H.specCodex params.issuer) with
  | none => (.error (.err (.a (.unknownCodex (H.specCodex params.issuer)))), d)
  | some issuer =>
    let conf := fun (d : StockpileDir H S) articles => match d.createContractDir articles with
      | (.error e, d) => (.error (stockIo e), d)
      | (.ok (), d) => (.ok (), d)
    match h : Contract.issue issuer params d conf (.ok .new : Except IoError (PileFs S)) with
    | (.error e, d) => (.error e, d)
    | (.ok c, d) =>
      (.ok c, d.store (H.issue issuer (Contract.issueParams params)) c <| by
        obtain ⟨_, l, hl, hc⟩ := Contract.issue_eq_ok h
        exact hc.trans (hN _ _ hl))

end StockpileDir

/-- The directory as a storage of `Contracts`. -/
@[reducible] def stockpileDir {H : Hypersonic} {S : RgbSeal} (W : Wire H S) (V : Verifier H S)
    (stockIo : IoError → H.StockError) (hN : ∀ a l, H.new a = .ok l → H.ledgerId l = H.articlesId a) :
    Stockpile W V where
  Store := StockpileDir H S
  PileError := IoError
  consensus := StockpileDir.consensus
  isTestnet := StockpileDir.testnet
  hasContract := StockpileDir.hasContract
  contractIds d := keys d.contracts
  contract := StockpileDir.contract
  importContract := StockpileDir.importContract W V
  issue := StockpileDir.issue stockIo hN

namespace StockpileDir

variable {H : Hypersonic} {S : RgbSeal} {W : Wire H S} {V : Verifier H S}

theorem createContractDir_hasContract (d : StockpileDir H S) (articles : H.Articles) (id : ContractId) :
    (d.createContractDir articles).2.hasContract id = d.hasContract id := by
  unfold createContractDir
  split <;> rfl

theorem store_hasContract (d : StockpileDir H S) (articles : H.Articles) (c : Contract H S)
    (h : c.contractId = H.articlesId articles) (id : ContractId) :
    (d.store articles c h).hasContract id = (decide (id = c.contractId) || d.hasContract id) :=
  has_upsert _ _ _ _

theorem contract_eq_some {d : StockpileDir H S} {id : ContractId} {c : Contract H S} (h : d.contract id = some c) :
    d.hasContract id = true ∧ c.contractId = id := by
  simp only [contract, Option.bind_eq_bind, Option.bind_eq_some_iff] at h
  obtain ⟨name, hn, c', hc, h⟩ := h
  split at h
  · cases h
  · cases h
    exact ⟨has_iff.2 ⟨name, hn⟩, d.stored name id c (Option.join_eq_some_iff.1 hc)⟩

theorem importContract_eq (V : Verifier H S) (d : StockpileDir H S) (articles : H.Articles) (consignment : W.Consignment) :
    (∃ e, (d.importContract W V articles consignment).1 = .error e ∧
      ∀ id, (d.importContract W V articles consignment).2.hasContract id = d.hasContract id) ∨
    ∃ c, (d.importContract W V articles consignment).1 = .ok c ∧
      Contract.withArticles W V (.ok .new : Except IoError (PileFs S)) articles consignment = .ok c ∧
      ∀ id, (d.importContract W V articles consignment).2.hasContract id =
        (decide (id = c.contractId) || d.hasContract id) := by
  have hdir := createContractDir_hasContract d articles
  unfold importContract
  split
  · rename_i e d' he
    rw [he] at hdir
    exact Or.inl ⟨_, rfl, hdir⟩
  · rename_i d' he
    rw [he] at hdir
    split
    · exact Or.inl ⟨_, rfl, hdir⟩
    · rename_i c hw
      exact Or.inr ⟨c, rfl, hw, fun id => by rw [store_hasContract, hdir]⟩

/-- Whatever becomes of an issue, the directory is prepared for it at most. -/
theorem issue_prepares (stockIo : IoError → H.StockError) {d d' : StockpileDir H S} {issuer : H.Issuer}
    {params : CreateParams H S} {r : Res (MultiError (IssuerError H.CodexId) H.StockError IoError) (Contract H S)}
    (h : Contract.issue issuer params d (fun d articles => match d.createContractDir articles with
        | (.error e, d) => (.error (stockIo e), d)
        | (.ok (), d) => (.ok (), d)) (.ok .new : Except IoError (PileFs S)) = (r, d')) :
    d' = d ∨ d' = (d.createContractDir (H.issue issuer (Contract.issueParams params))).2 := by
  have hstore := Contract.issue_store issuer params d
    (fun d articles => match d.createContractDir articles with
      | (.error e, d) => (.error (stockIo e), d)
      | (.ok (), d) => (.ok (), d)) (.ok .new : Except IoError (PileFs S))
  rw [h] at hstore
  refine hstore.imp_right fun he => he.trans ?_
  split <;> rename_i hd <;> rw [hd]

/-- A folder made for a contract serves nothing. -/
theorem createContractDir_contract (d : StockpileDir H S) (articles : H.Articles) (id : ContractId) :
    (d.createContractDir articles).2.contract id = d.contract id := by
  unfold createContractDir
  split
  · rfl
  · rename_i hno
    have hnone : get d.folders (folder articles) = none := by simpa [has] using hno
    have hjoin : ∀ name, (get (upsert d.folders (folder articles) none) (name, id)).join =
        (get d.folders (name, id)).join := by
      intro name
      rw [get_upsert]
      split
      · rename_i he
        rw [he, hnone]
        rfl
      · rfl
    simp only [contract, hjoin]

theorem issue_contract (stockIo : IoError → H.StockError) {d d' : StockpileDir H S} {issuer : H.Issuer}
    {params : CreateParams H S} {r : Res (MultiError (IssuerError H.CodexId) H.StockError IoError) (Contract H S)}
    (h : Contract.issue issuer params d (fun d articles => match d.createContractDir articles with
        | (.error e, d) => (.error (stockIo e), d)
        | (.ok (), d) => (.ok (), d)) (.ok .new : Except IoError (PileFs S)) = (r, d')) (id : ContractId) :
    d'.contract id = d.contract id := by
  rcases issue_prepares stockIo h with rfl | rfl
  · rfl
  · exact d.createContractDir_contract _ id

theorem issue_eq (stockIo : IoError → H.StockError) (hN : ∀ a l, H.new a = .ok l → H.ledgerId l = H.articlesId a)
    (d : StockpileDir H S) (params : CreateParams H S) :
    (∃ e, (d.issue stockIo hN params).1 = .error e ∧
      ∀ id, (d.issue stockIo hN params).2.hasContract id = d.hasContract id) ∨
    ∃ c, (d.issue stockIo hN params).1 = .ok c ∧
      ∀ id, (d.issue stockIo hN params).2.hasContract id = (decide (id = c.contractId) || d.hasContract id) := by
  unfold issue
  split
  · exact Or.inl ⟨_, rfl, fun _ => rfl⟩
  · dsimp only
    split
    · rename_i e d' h
      refine Or.inl ⟨e, rfl, fun id => ?_⟩
      rcases issue_prepares stockIo h with rfl | rfl
      · rfl
      · exact createContractDir_hasContract _ _ _
    · rename_i c d' h
      refine Or.inr ⟨c, rfl, fun id => ?_⟩
      rw [store_hasContract]
      rcases issue_prepares stockIo h with rfl | rfl
      · rfl
      · rw [createContractDir_hasContract]

end StockpileDir

/-- **The directory keeps the promises of the trait.** -/
theorem stockpileDir_lawful {H : Hypersonic} {S : RgbSeal} (W : Wire H S) (V : Verifier H S)
    (stockIo : IoError → H.StockError) (hN : ∀ a l, H.new a = .ok l → H.ledgerId l = H.articlesId a) :
    (stockpileDir W V stockIo hN).Lawful where
  served d id c h := StockpileDir.contract_eq_some h
  import_keeps d a cons id hd := by
    rcases StockpileDir.importContract_eq V d a cons with ⟨_, _, hk⟩ | ⟨c, _, _, hk⟩
    · exact (hk id).trans hd
    · exact (hk id).trans (by simp [show d.hasContract id = true from hd])
  import_ok d a cons c d' h := by
    have h' : d.importContract W V a cons = (.ok c, d') := h
    rcases StockpileDir.importContract_eq V d a cons with ⟨_, he, _⟩ | ⟨c', he, hw, hk⟩
    · rw [h'] at he; cases he
    · rw [h'] at he hk
      cases he
      exact ⟨hw, (hk _).trans (by simp)⟩
  issue_keeps d p id hd := by
    rcases StockpileDir.issue_eq stockIo hN d p with ⟨_, _, hk⟩ | ⟨c, _, hk⟩
    · exact (hk id).trans hd
    · exact (hk id).trans (by simp [show d.hasContract id = true from hd])
  issue_ok d p c d' h := by
    have h' : d.issue stockIo hN p = (.ok c, d') := h
    rcases StockpileDir.issue_eq stockIo hN d p with ⟨_, he, _⟩ | ⟨c', he, hk⟩
    · rw [h'] at he; cases he
    · rw [h'] at he hk
      cases he
      exact (hk _).trans (by simp)

/-! ## A header that names another contract -/

theorem refSonic_new_ledgerId (a : refSonic.Articles) (l : refSonic.Ledger) (h : refSonic.new a = .ok l) :
    refSonic.ledgerId l = refSonic.articlesId a := by
  rw [(refSonic_new_ok h).2]
  rfl

namespace Stream

@[reducible] def dir : Stockpile refWire refVerifier :=
  stockpileDir refWire refVerifier (fun _ => ()) refSonic_new_ledgerId

def emptyDir : StockpileDir refSonic refSeal := .load .bitcoin true [] [] fun _ _ _ h => by cases h

/-- The plain consignment of contract 3 under its own id, and under another. -/
def named : Bytes := opening ++ plain

def misnamed : Bytes := 0 :: List.replicate 32 8 ++ plain

theorem names_named : Runs.Along Contracts.handle Contracts.Names (Contracts.load emptyDir : Contracts dir)
    [Call.consume true named noSeals validator] := by
  refine ⟨fun _ id stream consignment rest articles hp _ hc ha => ?_, fun _ _ => trivial⟩
  cases hp
  cases hc
  cases ha
  rfl

end Stream

/-- An import under the header's own id. -/
theorem run_named : ∃ states,
    Runs.run Contracts.handle (Contracts.load Stream.emptyDir : Contracts Stream.dir)
      [Call.consume true Stream.named noSeals Stream.validator] = some states ∧ ∀ s ∈ states, s.Bound := by
  refine ⟨_, rfl, ?_⟩
  exact Contracts.run_bound (stockpileDir_lawful _ _ _ _) Stream.emptyDir _ _ Stream.names_named rfl

/-- A stream whose header names contract 8 puts contract 3 under that id. -/
theorem run_misnamed :
    ¬∀ (H : Hypersonic) (S : RgbSeal) (W : Wire H S) (V : Verifier H S) (P : Stockpile W V), P.Lawful →
      ∀ (persistence : P.Store) (calls : List (Call W)) (states : List (Contracts P)),
      Runs.run Contracts.handle (Contracts.load persistence) calls = some states → ∀ s ∈ states, s.Bound := by
  intro h
  have hs := h refSonic refSeal refWire refVerifier Stream.dir (stockpileDir_lawful _ _ _ _) Stream.emptyDir
    [Call.consume true Stream.misnamed noSeals Stream.validator] _ rfl _ List.mem_cons_self
  have hid := (hs ⟨Vector.replicate 32 8⟩ _ rfl).1
  revert hid
  decide

end RgbStd
