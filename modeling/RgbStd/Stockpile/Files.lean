import RgbStd.Lib.Names
import RgbStd.Stockpile.Dir
/-!
# `StockpileDir` over the entries of its directory (persistence/fs/src/stockpile.rs)

`Stockpile/Dir` has the contract folders as they are meant to be. Here the directory is a list of names
with something under each, the loading reads the names, and the file system may refuse a call.

| here | there |
| --- | --- |
| `Texts`           | `Display` and `FromStr` of the ids and names (not part of the repository) |
| `Entry`           | what is under a name: its type, and what `Issuer::load` and `Contract::load` find there |
| `Faults`          | what the file system answers while a call runs |
| `load`            | `StockpileDir::load` (stockpile.rs:54) |
| `createContractDir`, `importContract`, `issue`, `purge` | stockpile.rs:103, 173, 197, 213 |

Names which are not UTF-8 are passed over by the code and left out here.
-/
namespace RgbStd
open Tables Names Decode

/-- How ids and names are written in the names of files. -/
structure Texts (H : Hypersonic) where
  contract : ContractId → FileName
  contractOf : FileName → Option ContractId
  codex : H.CodexId → FileName
  codexOf : FileName → Option H.CodexId
  name : String → FileName
  codexName : H.Issuer → FileName

/-- What is written is read back, and a contract name is an identifier. -/
structure Texts.Lawful {H : Hypersonic} (T : Texts H) : Prop where
  contractOf_contract : ∀ id, T.contractOf (T.contract id) = some id
  codexOf_codex : ∀ id, T.codexOf (T.codex id) = some id
  name_plain : ∀ n, '.' ∉ T.name n

inductive FileErrorKind where
  | alreadyExists | notFound | other
deriving DecidableEq

/-- `io::Error`. -/
structure FileError where
  kind : FileErrorKind
  msg : String
deriving DecidableEq

inductive FileType where
  | file | dir | other
deriving DecidableEq

structure Entry (H : Hypersonic) (S : RgbSeal) where
  fileType : FileType
  issuer : Option H.Issuer
  contract : Option (Contract H S)

/-- The errors of `fs::exists`, `fs::create_dir_all`, `Pile::new`, `fs::remove_dir_all` and
`Issuer::save` under a path, and what a folder holds that was not completed or not wholly removed. -/
structure Faults (H : Hypersonic) (S : RgbSeal) where
  exists_ : FileName → Option FileError
  create : FileName → Option FileError
  pile : FileName → Option FileError
  remove : FileName → Option FileError
  save : FileName → Option FileError
  leftover : FileName → Option (Contract H S)

def Faults.none {H : Hypersonic} {S : RgbSeal} : Faults H S :=
  ⟨fun _ => .none, fun _ => .none, fun _ => .none, fun _ => .none, fun _ => .none, fun _ => .none⟩

/-- `StockpileDir` (stockpile.rs:44) with what is under its path. -/
structure StockpileFiles (H : Hypersonic) (S : RgbSeal) where
  consensus : Consensus
  testnet : Bool
  dir : UniqueMap FileName (Entry H S)
  issuers : Table H.CodexId FileName
  contracts : Table ContractId FileName
  faults : Faults H S

def contractExt : FileName := "contract".toList

def issuerExt : FileName := "issuer".toList

namespace StockpileFiles

variable {H : Hypersonic} {S : RgbSeal} (T : Texts H)

/-- One entry of the loop of `load` (stockpile.rs:59-84). -/
def loadEntry (maps : Table H.CodexId FileName × Table ContractId FileName) (e : FileName × Entry H S) :
    Table H.CodexId FileName × Table ContractId FileName :=
  match extension e.1 with
  | none => maps
  | some ext => match splitFirst '.' (fileStem e.1) with
    | none => maps
    | some (name, idStr) =>
      if e.2.fileType = .file ∧ ext = issuerExt then
        match T.codexOf idStr with
        | none => maps
        | some id => (upsert maps.1 id name, maps.2)
      else if e.2.fileType = .dir ∧ ext = contractExt then
        match T.contractOf idStr with
        | none => maps
        | some id => (maps.1, upsert maps.2 id name)
      else maps

/-- `StockpileDir::load` (stockpile.rs:54). -/
def load (consensus : Consensus) (testnet : Bool) (dir : UniqueMap FileName (Entry H S)) : StockpileFiles H S :=
  let maps := dir.entries.foldl (loadEntry T) ([], [])
  { consensus, testnet, dir, issuers := maps.1, contracts := maps.2, faults := .none }

def hasContract (d : StockpileFiles H S) (id : ContractId) : Bool := has d.contracts id

def contractIds (d : StockpileFiles H S) : List ContractId := keys d.contracts

/-- `StockpileDir::issuer` (stockpile.rs:147). -/
def issuer (d : StockpileFiles H S) (codexId : H.CodexId) : Option H.Issuer := do
  let name ← get d.issuers codexId
  let entry ← d.dir.find (dotted name (T.codex codexId) issuerExt)
  entry.issuer

/-- `StockpileDir::get_contract_dir` (stockpile.rs:97). -/
def getContractDir (d : StockpileFiles H S) (id : ContractId) : Option FileName := do
  let subdir ← get d.contracts id
  return dotted subdir (T.contract id) contractExt

/-- `StockpileDir::contract` (stockpile.rs:154). -/
def contract (d : StockpileFiles H S) (id : ContractId) : Option (Contract H S) := do
  let path ← d.getContractDir T id
  let entry ← d.dir.find path
  let c ← entry.contract
  let articles := H.articles c.ledger
  if H.articlesConsensus articles ≠ d.consensus ∨ H.articlesTestnet articles ≠ d.testnet then none else some c

/-- The path `create_contract_dir` makes of the articles. -/
def articlesDir (articles : H.Articles) : FileName :=
  dotted (T.name (H.articlesName articles)) (T.contract (H.articlesId articles)) contractExt

/-- `StockpileDir::create_contract_dir` (stockpile.rs:103). -/
def createContractDir (d : StockpileFiles H S) (articles : H.Articles) :
    Except FileError FileName × StockpileFiles H S :=
  let path := articlesDir T articles
  match d.faults.exists_ path with
  | some e => (.error e, d)
  | none =>
    if (d.dir.find path).isSome then (.error ⟨.alreadyExists, "Contract already exists"⟩, d)
    else match d.faults.create path with
      | some e => (.error e, d)
      | none => (.ok path, { d with dir := d.dir.write path ⟨.dir, none, d.faults.leftover path⟩ })

/-- `PileFs::new` in a folder. -/
def newPile (d : StockpileFiles H S) (path : FileName) : Except FileError (PileFs S) :=
  match d.faults.pile path with
  | some e => .error e
  | none => .ok .new

/-- A completed contract: it is in its folder, and known by its name. -/
def register (d : StockpileFiles H S) (path : FileName) (c : Contract H S) : StockpileFiles H S :=
  { d with
    contracts := upsert d.contracts c.contractId (T.name (H.articlesName (H.articles c.ledger)))
    dir := d.dir.write path ⟨.dir, none, some c⟩ }

/-- `StockpileDir::import_contract` (stockpile.rs:173). -/
def importContract (W : Wire H S) (V : Verifier H S) (d : StockpileFiles H S) (articles : H.Articles)
    (consignment : W.Consignment) :
    Res (MultiError (ConsumeError H V.Error) H.StockError FileError) (Contract H S) × StockpileFiles H S :=
  match d.createContractDir T articles with
  | (.error e, d) => (.error (.err (.c e)), d)
  | (.ok path, d) => match Contract.withArticles W V (d.newPile path) articles consignment with
    | .error e => (.error e, d)
    | .ok c => (.ok c, d.register T path c)

/-- The `conf` of `issue`; `stockIo` is how the stock reports an I/O error. -/
def conf (stockIo : FileError → H.StockError) (d : StockpileFiles H S) (articles : H.Articles) :
    Except H.StockError Unit × StockpileFiles H S :=
  match d.createContractDir T articles with
  | (.error e, d) => (.error (stockIo e), d)
  | (.ok _, d) => (.ok (), d)

/-- `StockpileDir::issue` (stockpile.rs:197). -/
def issue (stockIo : FileError → H.StockError) (d : StockpileFiles H S) (params : CreateParams H S) :
    Res (MultiError (IssuerError H.CodexId) H.StockError FileError) (Contract H S) × StockpileFiles H S :=
  match d.issuer T (H.specCodex params.issuer) with
  | none => (.error (.err (.a (.unknownCodex (H.specCodex params.issuer)))), d)
  | some schema =>
    let path := articlesDir T (H.issue schema (Contract.issueParams params))
    match Contract.issue schema params d (conf T stockIo) (d.newPile path) with
    | (.error e, d) => (.error e, d)
    | (.ok c, d) => (.ok c, d.register T path c)

/-- `StockpileDir::import_issuer` (stockpile.rs:164). -/
def importIssuer (d : StockpileFiles H S) (issuer : H.Issuer) : Except FileError H.Issuer × StockpileFiles H S :=
  let codexId := H.issuerCodex issuer
  let name := T.codexName issuer
  let path := dotted name (T.codex codexId) issuerExt
  match d.faults.save path with
  | some e => (.error e, d)
  | none =>
    if (d.dir.find path).any (·.fileType = .dir) then (.error ⟨.other, "Is a directory"⟩, d)
    else (.ok issuer, { d with
      dir := d.dir.write path ⟨.file, some issuer, none⟩
      issuers := upsert d.issuers codexId name })

/-- `fs::remove_dir_all`. -/
def removeDirAll (d : StockpileFiles H S) (path : FileName) : Except FileError Unit × StockpileFiles H S :=
  match d.dir.find path with
  | none => (.error ⟨.notFound, "No such file or directory"⟩, d)
  | some entry =>
    if entry.fileType = .file then (.error ⟨.other, "Not a directory"⟩, d)
    else match d.faults.remove path with
      | some e => (.error e, { d with dir := d.dir.write path { entry with contract := d.faults.leftover path } })
      | none => (.ok (), { d with dir := d.dir.remove path })

/-- `StockpileDir::purge` (stockpile.rs:213). -/
def purge (d : StockpileFiles H S) (id : ContractId) : Except FileError Unit × StockpileFiles H S :=
  match d.getContractDir T id with
  | none => (.error ⟨.notFound, "Contract not found"⟩, d)
  | some path => d.removeDirAll path

/-! ## What a loaded directory knows -/

/-- The contract a folder of this name is taken for, with the name it is given. -/
def folderName (f : FileName) : Option (ContractId × FileName) := do
  let (name, idStr, ext) ← parts f
  if ext = contractExt then (T.contractOf idStr).map fun id => (id, name) else none

def IsDir (dir : UniqueMap FileName (Entry H S)) (f : FileName) : Prop :=
  ∃ e, dir.find f = some e ∧ e.fileType = .dir

/-- Some folder is taken for the contract. -/
def Lists (dir : UniqueMap FileName (Entry H S)) (id : ContractId) : Prop :=
  ∃ f name, IsDir dir f ∧ folderName T f = some (id, name)

def folderOf (e : FileName × Entry H S) : Option (ContractId × FileName) :=
  if e.2.fileType = .dir then folderName T e.1 else none

variable {T}

theorem loadEntry_contracts (maps : Table H.CodexId FileName × Table ContractId FileName) (e : FileName × Entry H S) :
    (loadEntry T maps e).2 = match folderOf T e with
      | some p => upsert maps.2 p.1 p.2
      | none => maps.2 := by
  simp only [loadEntry, folderOf, folderName, parts]
  cases extension e.1 with
  | none => simp
  | some ext =>
    cases splitFirst '.' (fileStem e.1) with
    | none => simp
    | some p =>
      by_cases hdir : e.2.fileType = .dir
      · by_cases hext : ext = contractExt
        · cases hid : T.contractOf p.2 <;> simp [hdir, hext, hid]
        · simp [hdir, hext]
      · by_cases hfile : e.2.fileType = .file ∧ ext = issuerExt
        · cases hid : T.codexOf p.2 <;> simp [hfile, hid]
        · simp [hdir, hfile]

theorem foldl_loadEntry_contracts (es : List (FileName × Entry H S)) :
    ∀ maps : Table H.CodexId FileName × Table ContractId FileName, (es.foldl (loadEntry T) maps).2 =
      (es.filterMap (folderOf T)).foldl (fun t p => upsert t p.1 p.2) maps.2 := by
  induction es with
  | nil => exact fun _ => rfl
  | cons e es ih =>
    intro maps
    rw [List.foldl_cons, ih, loadEntry_contracts, List.filterMap_cons]
    cases folderOf T e <;> rfl

theorem load_contracts (consensus : Consensus) (testnet : Bool) (dir : UniqueMap FileName (Entry H S)) :
    (load T consensus testnet dir).contracts =
      (dir.entries.filterMap (folderOf T)).foldl (fun t p => upsert t p.1 p.2) [] :=
  foldl_loadEntry_contracts dir.entries ([], [])

theorem mem_folders {dir : UniqueMap FileName (Entry H S)} {id : ContractId} {name : FileName} :
    (id, name) ∈ dir.entries.filterMap (folderOf T) ↔ ∃ f, IsDir dir f ∧ folderName T f = some (id, name) := by
  rw [List.mem_filterMap]
  constructor
  · rintro ⟨⟨f, e⟩, he, hf⟩
    unfold folderOf at hf
    split at hf
    · rename_i hdir
      exact ⟨f, ⟨e, UniqueMap.mem_entries.1 he, hdir⟩, hf⟩
    · cases hf
  · rintro ⟨f, ⟨e, he, hdir⟩, hf⟩
    exact ⟨(f, e), UniqueMap.mem_entries.2 he, (if_pos hdir).trans hf⟩

/-- **A loaded directory** knows the contracts its folders are taken for. -/
theorem load_hasContract (consensus : Consensus) (testnet : Bool) (dir : UniqueMap FileName (Entry H S))
    (id : ContractId) : (load T consensus testnet dir).hasContract id = true ↔ Lists T dir id := by
  rw [hasContract, has_iff_mem_keys, load_contracts, mem_keys_foldl_upsert]
  simp only [List.mem_map, keys, List.map_nil, List.not_mem_nil, or_false]
  constructor
  · rintro ⟨⟨id, name⟩, hm, rfl⟩
    obtain ⟨f, hf⟩ := mem_folders.1 hm
    exact ⟨f, name, hf⟩
  · rintro ⟨f, name, hf⟩
    exact ⟨(id, name), mem_folders.2 ⟨f, hf⟩, rfl⟩

/-- It knows a contract by the name of one of these folders. -/
theorem get_load_contracts {consensus : Consensus} {testnet : Bool} {dir : UniqueMap FileName (Entry H S)}
    {id : ContractId} {name : FileName} (h : get (load T consensus testnet dir).contracts id = some name) :
    ∃ f, IsDir dir f ∧ folderName T f = some (id, name) := by
  rw [load_contracts] at h
  rcases mem_of_get_foldl_upsert _ h with h | h
  · exact mem_folders.1 h
  · cases h

theorem plain_contractExt : '.' ∉ contractExt := by decide

theorem folderName_eq_some {f : FileName} {id : ContractId} {name : FileName} :
    folderName T f = some (id, name) ↔
      ∃ idStr, f = dotted name idStr contractExt ∧ '.' ∉ name ∧ T.contractOf idStr = some id := by
  simp only [folderName, Option.bind_eq_bind, Option.bind_eq_some_iff]
  constructor
  · rintro ⟨⟨name', idStr, ext⟩, hp, h⟩
    split at h
    · rename_i hext
      obtain ⟨id', hid, he⟩ := Option.map_eq_some_iff.1 h
      obtain ⟨rfl, rfl⟩ := Prod.mk.inj he
      subst hext
      obtain ⟨hf, hname, -⟩ := parts_eq_some.1 hp
      exact ⟨idStr, hf, hname, hid⟩
    · cases h
  · rintro ⟨idStr, rfl, hname, hid⟩
    exact ⟨_, parts_dotted hname plain_contractExt idStr, by simp [hid]⟩

/-- The folder of the articles is taken for their contract. -/
theorem folderName_articlesDir (hT : T.Lawful) (articles : H.Articles) :
    folderName T (articlesDir T articles) = some (H.articlesId articles, T.name (H.articlesName articles)) :=
  folderName_eq_some.2 ⟨_, rfl, hT.name_plain _, hT.contractOf_contract _⟩

/-! ## Writing and removing folders -/

theorem isDir_write (dir : UniqueMap FileName (Entry H S)) (f f' : FileName) (e : Entry H S) :
    IsDir (dir.write f e) f' ↔ if f' = f then e.fileType = .dir else IsDir dir f' := by
  unfold IsDir
  rw [UniqueMap.find_write]
  split <;> simp

/-- A folder that is written adds the contract it is taken for. -/
theorem lists_write {dir : UniqueMap FileName (Entry H S)} {f : FileName} {e : Entry H S} (he : e.fileType = .dir)
    {id' : ContractId} {name : FileName} (hf : folderName T f = some (id', name)) (id : ContractId) :
    Lists T (dir.write f e) id ↔ id = id' ∨ Lists T dir id := by
  unfold Lists
  simp only [isDir_write]
  constructor
  · rintro ⟨f₁, name₁, hd, hn⟩
    split at hd
    · rename_i h
      rw [h, hf] at hn
      cases hn
      exact Or.inl rfl
    · exact Or.inr ⟨f₁, name₁, hd, hn⟩
  · rintro (rfl | ⟨f₁, name₁, hd, hn⟩)
    · exact ⟨f, name, by simpa using he, hf⟩
    · refine ⟨f₁, name₁, ?_, hn⟩
      split
      · exact he
      · exact hd

/-! ## What each call does -/

/-- `create_contract_dir` goes through: the file system answers, and nothing has the name of the folder. -/
structure Creatable (T : Texts H) (d : StockpileFiles H S) (articles : H.Articles) : Prop where
  exists_ : d.faults.exists_ (articlesDir T articles) = none
  free : d.dir.find (articlesDir T articles) = none
  create : d.faults.create (articlesDir T articles) = none

/-- The directory with the folder `create_contract_dir` makes. -/
def opened (d : StockpileFiles H S) (path : FileName) : StockpileFiles H S :=
  { d with dir := d.dir.write path ⟨.dir, none, d.faults.leftover path⟩ }

theorem createContractDir_ok {d : StockpileFiles H S} {articles : H.Articles} (h : Creatable T d articles) :
    d.createContractDir T articles = (.ok (articlesDir T articles), d.opened (articlesDir T articles)) := by
  simp [createContractDir, h.exists_, h.free, h.create, opened]

theorem createContractDir_error {d : StockpileFiles H S} {articles : H.Articles} (h : ¬Creatable T d articles) :
    ∃ e, d.createContractDir T articles = (.error e, d) := by
  unfold createContractDir
  dsimp only
  split
  · exact ⟨_, rfl⟩
  · rename_i hex
    split
    · exact ⟨_, rfl⟩
    · rename_i hfree
      split
      · exact ⟨_, rfl⟩
      · rename_i hcr
        exact absurd ⟨hex, by simpa using hfree, hcr⟩ h

/-- **What an import comes to**: it makes no folder, or it completes the folder or leaves it. -/
theorem importContract_cases {W : Wire H S} (V : Verifier H S) (d : StockpileFiles H S) (articles : H.Articles)
    (consignment : W.Consignment) :
    let path := articlesDir T articles
    (¬Creatable T d articles ∧ ∃ e, d.importContract T W V articles consignment = (.error (.err (.c e)), d)) ∨
      Creatable T d articles ∧ ((∃ e, d.importContract T W V articles consignment = (.error e, d.opened path)) ∨
        ∃ c, Contract.withArticles W V (d.newPile path) articles consignment = .ok c ∧
          d.importContract T W V articles consignment = (.ok c, (d.opened path).register T path c)) := by
  intro path
  by_cases hc : Creatable T d articles
  · refine Or.inr ⟨hc, ?_⟩
    have hp : (d.opened path).newPile path = d.newPile path := rfl
    cases hw : Contract.withArticles W V (d.newPile path) articles consignment with
    | error e => exact Or.inl ⟨e, by simp only [importContract, createContractDir_ok hc, hp, path, hw]⟩
    | ok c => exact Or.inr ⟨c, rfl, by simp only [importContract, createContractDir_ok hc, hp, path, hw]⟩
  · obtain ⟨e, he⟩ := createContractDir_error hc
    exact Or.inl ⟨hc, e, by simp only [importContract, he]⟩

/-- An import that returns `Ok` went through every step. -/
theorem importContract_ok {W : Wire H S} {V : Verifier H S} {d d' : StockpileFiles H S} {articles : H.Articles}
    {consignment : W.Consignment} {c : Contract H S}
    (h : d.importContract T W V articles consignment = (.ok c, d')) :
    Creatable T d articles ∧
      Contract.withArticles W V (d.newPile (articlesDir T articles)) articles consignment = .ok c ∧
      d' = (d.opened (articlesDir T articles)).register T (articlesDir T articles) c := by
  rcases importContract_cases (T := T) V d articles consignment with ⟨-, e, he⟩ | ⟨hc, ⟨e, he⟩ | ⟨c', hw, he⟩⟩ <;>
    rw [h] at he <;> cases he
  exact ⟨hc, hw, rfl⟩

/-- The articles an issue makes. -/
abbrev issued (schema : H.Issuer) (params : CreateParams H S) : H.Articles := H.issue schema (Contract.issueParams params)

/-- `issue` comes to making a folder. -/
structure Issuable (T : Texts H) (d : StockpileFiles H S) (params : CreateParams H S) (schema : H.Issuer) : Prop where
  issuer : d.issuer T (H.specCodex params.issuer) = some schema
  check : H.specCheck params.issuer schema = true
  creatable : Creatable T d (issued schema params)

theorem issue_refused (stockIo : FileError → H.StockError) {d : StockpileFiles H S} {params : CreateParams H S}
    (h : ¬∃ schema, Issuable T d params schema) : ∃ e, d.issue T stockIo params = (.error e, d) := by
  unfold issue
  cases hi : d.issuer T (H.specCodex params.issuer) with
  | none => exact ⟨_, rfl⟩
  | some schema =>
    dsimp only
    by_cases hcheck : H.specCheck params.issuer schema = true
    · cases hs : SmallMap.ofEntries (Contract.explicitSeals params) with
      | none => exact ⟨.panic, by simp [Contract.issue, hcheck, hs]⟩
      | some seals =>
        obtain ⟨e, he⟩ := createContractDir_error fun hc => h ⟨schema, hi, hcheck, hc⟩
        have hconf : conf T stockIo d (issued schema params) = (.error (stockIo e), d) := by simp only [conf, he]
        exact ⟨_, by rw [Contract.issue_conf_error _ hcheck hs hconf]⟩
    · exact ⟨.err (.a .issuerMismatch), by simp [Contract.issue, hcheck]⟩

theorem Issuable.panics {d : StockpileFiles H S} {params : CreateParams H S} {schema : H.Issuer}
    (h : Issuable T d params schema) (stockIo : FileError → H.StockError)
    (hs : SmallMap.ofEntries (Contract.explicitSeals params) = none) :
    d.issue T stockIo params = (.error .panic, d) := by
  simp [issue, h.issuer, Contract.issue, h.check, hs]

theorem Issuable.issues {d : StockpileFiles H S} {params : CreateParams H S} {schema : H.Issuer}
    (h : Issuable T d params schema) (stockIo : FileError → H.StockError) {seals : SmallMap UInt16 S.Definition}
    (hs : SmallMap.ofEntries (Contract.explicitSeals params) = some seals) :
    (∃ e, d.issue T stockIo params = (.error e, d.opened (articlesDir T (issued schema params)))) ∨
      ∃ c, H.new (issued schema params) = .ok c.ledger ∧ c.contractId = H.ledgerId c.ledger ∧
        d.issue T stockIo params = (.ok c, (d.opened (articlesDir T (issued schema params))).register T
          (articlesDir T (issued schema params)) c) := by
  have hconf : conf T stockIo d (issued schema params) =
      (.ok (), d.opened (articlesDir T (issued schema params))) := by
    simp only [conf, createContractDir_ok h.creatable]
  rcases Contract.issue_conf_ok (d.newPile (articlesDir T (issued schema params))) h.check hs hconf with
    ⟨e, he⟩ | ⟨c, hn, hid, hc⟩
  · exact Or.inl ⟨e, by simp only [issue, h.issuer, he]⟩
  · exact Or.inr ⟨c, hn, hid, by simp only [issue, h.issuer, hc]⟩

/-- **What an issue comes to**: it makes no folder, or it completes the folder or leaves it, unless it
panics before. -/
theorem issue_cases (stockIo : FileError → H.StockError) (d : StockpileFiles H S) (params : CreateParams H S) :
    ((¬∃ schema, Issuable T d params schema) ∧ ∃ e, d.issue T stockIo params = (.error e, d)) ∨
      ∃ schema, Issuable T d params schema ∧ (d.issue T stockIo params = (.error .panic, d) ∨
        (∃ e, d.issue T stockIo params = (.error e, d.opened (articlesDir T (issued schema params)))) ∨
        ∃ c, H.new (issued schema params) = .ok c.ledger ∧ c.contractId = H.ledgerId c.ledger ∧
          d.issue T stockIo params = (.ok c, (d.opened (articlesDir T (issued schema params))).register T
            (articlesDir T (issued schema params)) c)) := by
  by_cases hex : ∃ schema, Issuable T d params schema
  · obtain ⟨schema, h⟩ := hex
    refine Or.inr ⟨schema, h, ?_⟩
    cases hs : SmallMap.ofEntries (Contract.explicitSeals params) with
    | none => exact Or.inl (h.panics stockIo hs)
    | some seals => exact Or.inr (h.issues stockIo hs)
  · exact Or.inl ⟨hex, issue_refused stockIo hex⟩

/-- An issue that returns `Ok` went through every step. -/
theorem issue_ok {stockIo : FileError → H.StockError} {d d' : StockpileFiles H S} {params : CreateParams H S}
    {c : Contract H S} (h : d.issue T stockIo params = (.ok c, d')) : ∃ schema, Issuable T d params schema ∧
      H.new (issued schema params) = .ok c.ledger ∧ c.contractId = H.ledgerId c.ledger ∧
      d' = (d.opened (articlesDir T (issued schema params))).register T (articlesDir T (issued schema params)) c := by
  rcases issue_cases (T := T) stockIo d params with
    ⟨-, e, he⟩ | ⟨schema, hi, he | ⟨e, he⟩ | ⟨c', hn, hid, he⟩⟩ <;> rw [h] at he <;> cases he
  exact ⟨schema, hi, hn, hid, rfl⟩

theorem getContractDir_eq_some {d : StockpileFiles H S} {id : ContractId} {path : FileName} :
    d.getContractDir T id = some path ↔
      ∃ name, get d.contracts id = some name ∧ path = dotted name (T.contract id) contractExt := by
  simp only [getContractDir, Option.bind_eq_bind, Option.bind_eq_some_iff]
  exact exists_congr fun name => and_congr_right fun _ =>
    ⟨fun h => (Option.some.inj h).symm, fun h => congrArg some h.symm⟩

/-- What `purge` comes to: no folder to remove, or a folder which stays or goes. -/
theorem purge_cases (d : StockpileFiles H S) (id : ContractId) :
    ((∃ e, d.purge T id = (.error e, d)) ∧
      ∀ path entry, d.getContractDir T id = some path → d.dir.find path = some entry → entry.fileType = .file) ∨
      ∃ path entry, d.getContractDir T id = some path ∧ d.dir.find path = some entry ∧ entry.fileType ≠ .file ∧
        ((∃ e, d.faults.remove path = some e ∧ d.purge T id =
            (.error e, { d with dir := d.dir.write path { entry with contract := d.faults.leftover path } })) ∨
          d.faults.remove path = none ∧ d.purge T id = (.ok (), { d with dir := d.dir.remove path })) := by
  unfold purge
  cases hpath : d.getContractDir T id with
  | none => exact Or.inl ⟨⟨_, rfl⟩, fun _ _ h _ => (by cases h)⟩
  | some path =>
    simp only [removeDirAll]
    cases hf : d.dir.find path with
    | none =>
      refine Or.inl ⟨⟨_, rfl⟩, fun path' entry h hf' => ?_⟩
      cases h
      rw [hf] at hf'
      cases hf'
    | some entry =>
      by_cases hfile : entry.fileType = .file
      · refine Or.inl ⟨⟨⟨.other, "Not a directory"⟩, by simp only [hfile, if_true]⟩, fun path' entry' h hf' => ?_⟩
        cases h
        rw [hf] at hf'
        cases hf'
        exact hfile
      · refine Or.inr ⟨path, entry, rfl, hf, hfile, ?_⟩
        cases hr : d.faults.remove path with
        | some e => exact Or.inl ⟨e, rfl, by simp only [hfile, if_false]⟩
        | none => exact Or.inr ⟨rfl, by simp only [hfile, if_false]⟩

end StockpileFiles

/-! ## Reference texts -/

theorem toNat_ofNat_byte (b : UInt8) : UInt8.ofNat ((Char.ofNat (b.toNat + 256)).toNat - 256) = b := by
  have hb := b.toNat_lt
  have hv : (b.toNat + 256).isValidChar := Or.inl (by omega)
  have hc : (Char.ofNat (b.toNat + 256)).toNat = b.toNat + 256 := by
    rw [Char.ofNat, dif_pos hv]
    rfl
  rw [hc, Nat.add_sub_cancel]
  exact UInt8.ofNat_toNat

/-- The reference texts: an id byte by byte, a codex in unary, and a name without its dots. -/
@[reducible] def refTexts : Texts refSonic where
  contract id := id.bytes.toList.map fun b => Char.ofNat (b.toNat + 256)
  contractOf f :=
    if h : f.length = 32 then some ⟨⟨(f.map fun c => UInt8.ofNat (c.toNat - 256)).toArray, by simp [h]⟩⟩ else none
  codex n := List.replicate n 'x'
  codexOf f := some f.length
  name n := n.toList.filter (· ≠ '.')
  codexName _ := "Codex".toList

theorem refTexts_lawful : refTexts.Lawful where
  contractOf_contract id := by
    obtain ⟨⟨⟨bytes⟩, hb⟩⟩ := id
    have hlen : bytes.length = 32 := hb
    have hm : ((bytes.map fun b => Char.ofNat (b.toNat + 256)).map fun c => UInt8.ofNat (c.toNat - 256)) = bytes := by
      rw [List.map_map]
      exact (List.map_congr_left fun b _ => toNat_ofNat_byte b).trans (List.map_id _)
    simp [Vector.toList, hlen, hm]
  codexOf_codex n := congrArg some List.length_replicate
  name_plain n h := by simp at h
end RgbStd
