import RgbStd.Contracts.Evict
import RgbStd.Stockpile.Storage
/-!
# The folders behind the contracts in memory (persistence/fs/src/stockpile.rs:97-101, 154-162)

A contract in memory writes to its folder, which is found by its id. Folders of different contracts are different,
an issue or an import writes to a folder that was not there, and neither reads what a folder holds.

| here | there |
| --- | --- |
| `rewrite` | the folder of a contract, holding something else |
| `backing` | the directory as the files behind the contracts |

* `contract_eq`, `getContractDir_register`: what is served, in closed form.
* `backing_lawful`: the directory meets what `Contracts/Evict` asks of a storage.
* `run_evictions`: evictions are not noticed over a loaded directory.
-/
namespace RgbStd
open Tables Names Decode

namespace StockpileFiles

variable {H : Hypersonic} {S : RgbSeal} (T : Texts H) {W : Wire H S} {V : Verifier H S}

/-- The folder of a contract, if there is one, holds something else. -/
def rewrite (d : StockpileFiles H S) (id : ContractId) (c : Option (Contract H S)) : StockpileFiles H S :=
  match d.getContractDir T id with
  | none => d
  | some path => match d.dir.find path with
    | none => d
    | some e => { d with dir := d.dir.write path { e with contract := c } }

/-- There is something in the place of the folder of a contract. -/
def HasFolder (d : StockpileFiles H S) (id : ContractId) : Prop :=
  ∃ path e, d.getContractDir T id = some path ∧ d.dir.find path = some e

/-- The names the contracts are known by have no dots. -/
def PlainNames (d : StockpileFiles H S) : Prop := ∀ id name, get d.contracts id = some name → '.' ∉ name

/-- Two directories that differ in the contracts their folders hold, and in nothing else. -/
structure SameFolders (d d' : StockpileFiles H S) : Prop where
  consensus : d.consensus = d'.consensus
  testnet : d.testnet = d'.testnet
  issuers : d.issuers = d'.issuers
  contracts : d.contracts = d'.contracts
  faults : d.faults = d'.faults
  entries : ∀ f,
    (d.dir.find f).map (fun e => (e.fileType, e.issuer)) = (d'.dir.find f).map fun e => (e.fileType, e.issuer)

variable {T} {d d' : StockpileFiles H S} {f path : FileName} {id : ContractId} {c : Contract H S}

/-- **What is served** is what the folder holds, if it is of the network. -/
theorem contract_eq (d : StockpileFiles H S) (id : ContractId) : d.contract T id =
    (((d.getContractDir T id).bind d.dir.find).bind Entry.contract).filter fun c => c.network = d.network := by
  ext c
  rw [contract_eq_some]
  simp only [Option.filter_eq_some_iff, Option.bind_eq_some_iff, decide_eq_true_eq]
  constructor
  · rintro ⟨path, e, hp, he, hc, hn⟩
    exact ⟨⟨e, ⟨path, hp, he⟩, hc⟩, hn⟩
  · rintro ⟨⟨e, ⟨path, hp, he⟩, hc⟩, hn⟩
    exact ⟨path, e, hp, he, hc, hn⟩

/-- The same where one name is written. -/
theorem contract_of_write {e : Entry H S} (hdir : d'.dir = d.dir.write f e)
    (hpath : d'.getContractDir T id = d.getContractDir T id) (hn : d'.network = d.network) : d'.contract T id =
      if d.getContractDir T id = some f then e.contract.filter fun c => c.network = d.network else d.contract T id := by
  rw [contract_eq, contract_eq, hpath, hdir, hn]
  cases hp : d.getContractDir T id with
  | none => simp
  | some path =>
    by_cases hf : path = f
    · subst hf
      simp
    · simp [hf]

/-! ## Folders -/

/-- Contracts with the same folder are the same. -/
theorem getContractDir_inj (hT : T.Lawful) (hd : d.PlainNames) {id' : ContractId}
    (h : d.getContractDir T id = some path) (h' : d.getContractDir T id' = some path) : id = id' := by
  obtain ⟨name, hn, rfl⟩ := getContractDir_eq_some.1 h
  obtain ⟨name', hn', he⟩ := getContractDir_eq_some.1 h'
  have hparts := parts_dotted (hd id name hn) plain_contractExt (T.contract id)
  rw [he, parts_dotted (hd id' name' hn') plain_contractExt] at hparts
  have hid : T.contract id = T.contract id' := by
    simp only [Option.some.injEq, Prod.mk.injEq] at hparts
    exact hparts.2.1.symm
  have hof := hT.contractOf_contract id
  rw [hid, hT.contractOf_contract] at hof
  exact (Option.some.inj hof).symm

/-- A contract in the folder of its articles is found there. -/
theorem getContractDir_register (hf : f = articlesDir T (H.articles c.ledger))
    (hid : c.contractId = H.articlesId (H.articles c.ledger)) (d : StockpileFiles H S) (id : ContractId) :
    (d.register T f c).getContractDir T id = if id = c.contractId then some f else d.getContractDir T id := by
  unfold getContractDir register
  simp only [get_upsert]
  split
  · rename_i he
    rw [he, hid, hf]
    rfl
  · rfl

theorem SameFolders.getContractDir (h : SameFolders d d') (id : ContractId) :
    d.getContractDir T id = d'.getContractDir T id := by
  unfold StockpileFiles.getContractDir
  rw [h.contracts]

theorem SameFolders.network (h : SameFolders d d') : d.network = d'.network :=
  Prod.ext h.consensus h.testnet

theorem SameFolders.isNone (h : SameFolders d d') (f : FileName) : d.dir.find f = none ↔ d'.dir.find f = none := by
  rw [← Option.map_eq_none_iff, h.entries, Option.map_eq_none_iff]

theorem sameFolders_equivalence : Equivalence (SameFolders (H := H) (S := S)) where
  refl _ := ⟨rfl, rfl, rfl, rfl, rfl, fun _ => rfl⟩
  symm h := ⟨h.consensus.symm, h.testnet.symm, h.issuers.symm, h.contracts.symm, h.faults.symm,
    fun f => (h.entries f).symm⟩
  trans h h' := ⟨h.consensus.trans h'.consensus, h.testnet.trans h'.testnet, h.issuers.trans h'.issuers,
    h.contracts.trans h'.contracts, h.faults.trans h'.faults, fun f => (h.entries f).trans (h'.entries f)⟩

theorem SameFolders.write (h : SameFolders d d') (f : FileName) (e : Entry H S) :
    SameFolders { d with dir := d.dir.write f e } { d' with dir := d'.dir.write f e } := by
  refine ⟨h.consensus, h.testnet, h.issuers, h.contracts, h.faults, fun f' => ?_⟩
  simp only [UniqueMap.find_write]
  split
  · rfl
  · exact h.entries f'

/-! ## Writing to a folder -/

/-- What `rewrite` comes to. -/
theorem rewrite_cases (d : StockpileFiles H S) (id : ContractId) (c : Option (Contract H S)) :
    (¬HasFolder T d id ∧ d.rewrite T id c = d) ∨
      ∃ path e, d.getContractDir T id = some path ∧ d.dir.find path = some e ∧
        d.rewrite T id c = { d with dir := d.dir.write path { e with contract := c } } := by
  unfold rewrite
  cases hp : d.getContractDir T id with
  | none =>
    refine Or.inl ⟨?_, rfl⟩
    rintro ⟨path, e, hp', -⟩
    rw [hp] at hp'
    cases hp'
  | some path =>
    cases he : d.dir.find path with
    | none =>
      refine Or.inl ⟨?_, by simp only [he]⟩
      rintro ⟨path', e, hp', he'⟩
      rw [hp] at hp'
      cases hp'
      rw [he] at he'
      cases he'
    | some e => exact Or.inr ⟨path, e, rfl, he, by simp only [he]⟩

theorem rewrite_same (d : StockpileFiles H S) (id : ContractId) (c : Option (Contract H S)) :
    SameFolders (d.rewrite T id c) d := by
  rcases d.rewrite_cases (T := T) id c with ⟨-, he⟩ | ⟨path, e, -, hf, he⟩
  · rw [he]
    exact sameFolders_equivalence.refl d
  · rw [he]
    refine ⟨rfl, rfl, rfl, rfl, rfl, fun f => ?_⟩
    simp only [UniqueMap.find_write]
    split
    · rename_i hff
      rw [hff, hf]
      rfl
    · rfl

theorem SameFolders.hasFolder (h : SameFolders d d') (hd : HasFolder T d id) : HasFolder T d' id := by
  obtain ⟨path, e, hp, he⟩ := hd
  cases hf : d'.dir.find path with
  | none => rw [(h.isNone path).2 hf] at he; cases he
  | some e' => exact ⟨path, e', (h.getContractDir id).symm.trans hp, hf⟩

theorem contract_rewrite (hd : HasFolder T d id) (c : Option (Contract H S)) :
    (d.rewrite T id c).contract T id = c.filter fun c => c.network = d.network := by
  have hsame := d.rewrite_same (T := T) id c
  rcases d.rewrite_cases (T := T) id c with ⟨hno, -⟩ | ⟨path, e, hp, -, he⟩
  · exact absurd hd hno
  · have hdir := congrArg StockpileFiles.dir he
    rw [contract_of_write hdir (hsame.getContractDir id) hsame.network, if_pos hp]

theorem contract_rewrite_ne (hT : T.Lawful) (hd : d.PlainNames) (c : Option (Contract H S)) {id' : ContractId}
    (hne : id' ≠ id) : (d.rewrite T id c).contract T id' = d.contract T id' := by
  have hsame := d.rewrite_same (T := T) id c
  rcases d.rewrite_cases (T := T) id c with ⟨-, he⟩ | ⟨path, e, hp, -, he⟩
  · rw [he]
  · have hdir := congrArg StockpileFiles.dir he
    rw [contract_of_write hdir (hsame.getContractDir id') hsame.network, if_neg]
    exact fun hp' => hne (getContractDir_inj hT hd hp' hp)

/-! ## New folders -/

theorem SameFolders.creatable (h : SameFolders d d') {articles : H.Articles} (hc : Creatable T d articles) :
    Creatable T d' articles :=
  ⟨h.faults ▸ hc.exists_, (h.isNone _).1 hc.free, h.faults ▸ hc.create⟩

theorem SameFolders.createContractDir (h : SameFolders d d') (articles : H.Articles) :
    (d.createContractDir T articles).1 = (d'.createContractDir T articles).1 := by
  unfold StockpileFiles.createContractDir
  rw [h.faults]
  have hsome : (d.dir.find (articlesDir T articles)).isSome = (d'.dir.find (articlesDir T articles)).isSome := by
    rw [Option.isSome_eq_isSome]
    exact h.isNone _
  dsimp only
  rw [hsome]
  split
  · rfl
  · split
    · rfl
    · split <;> rfl

theorem SameFolders.opened (h : SameFolders d d') (f : FileName) : SameFolders (d.opened f) (d'.opened f) := by
  have hleft : d.faults.leftover f = d'.faults.leftover f := by rw [h.faults]
  unfold StockpileFiles.opened
  rw [hleft]
  exact h.write f _

theorem SameFolders.register (h : SameFolders d d') (f : FileName) (c : Contract H S) :
    SameFolders (d.register T f c) (d'.register T f c) := by
  have hw := h.write f ⟨.dir, none, some c⟩
  exact ⟨h.consensus, h.testnet, h.issuers, congrArg (upsert · _ _) h.contracts, h.faults, hw.entries⟩

theorem contract_opened (d : StockpileFiles H S) (f : FileName) (id : ContractId) : (d.opened f).contract T id =
    if d.getContractDir T id = some f then (d.faults.leftover f).filter fun c => c.network = d.network
    else d.contract T id := by
  have hdir : (d.opened f).dir = d.dir.write f _ := rfl
  exact contract_of_write hdir rfl rfl

/-- Nothing is served from a folder that is not there. -/
theorem getContractDir_ne_free (hfree : d.dir.find f = none) (hc : d.contract T id = some c) :
    d.getContractDir T id ≠ some f := by
  intro hp
  rw [contract_eq, hp, Option.bind_some, hfree] at hc
  cases hc

theorem contract_register_ne (hfile : f = articlesDir T (H.articles c.ledger))
    (hid : c.contractId = H.articlesId (H.articles c.ledger)) (d : StockpileFiles H S) (hne : id ≠ c.contractId) :
    ((d.opened f).register T f c).contract T id =
      if d.getContractDir T id = some f then (some c).filter fun c => c.network = d.network else d.contract T id := by
  have hpath : ((d.opened f).register T f c).getContractDir T id = d.getContractDir T id := by
    rw [getContractDir_register hfile hid, if_neg hne]
    rfl
  have hdir : ((d.opened f).register T f c).dir = (d.opened f).dir.write f _ := rfl
  have hreg := contract_of_write hdir hpath rfl
  rw [hreg, contract_opened]
  show (if d.getContractDir T id = some f then _ else _) = _
  split
  · rfl
  · rfl

/-! ## Imports and issues -/

theorem importContract_result (V : Verifier H S) (h : SameFolders d d') (articles : H.Articles)
    (consignment : W.Consignment) :
    (d.importContract T W V articles consignment).1 = (d'.importContract T W V articles consignment).1 := by
  by_cases hc : Creatable T d articles
  · have hpile : (d.opened (articlesDir T articles)).newPile (articlesDir T articles) =
        (d'.opened (articlesDir T articles)).newPile (articlesDir T articles) := by
      unfold newPile StockpileFiles.opened
      rw [h.faults]
    simp only [importContract, createContractDir_ok hc, createContractDir_ok (h.creatable hc), hpile]
    split <;> rfl
  · obtain ⟨e, he⟩ := createContractDir_error hc
    obtain ⟨e', he'⟩ := createContractDir_error fun hc' => hc ((sameFolders_equivalence.symm h).creatable hc')
    have hee := h.createContractDir (T := T) articles
    rw [he, he'] at hee
    cases hee
    simp only [importContract, he, he']

end StockpileFiles

/-- What an issue returns depends on the storage by what its preparation returns. -/
theorem Contract.issue_result {H : Hypersonic} {S : RgbSeal} {PileError σ : Type} {issuer : H.Issuer}
    {params : CreateParams H S} {store store' : σ} {conf : σ → H.Articles → Except H.StockError Unit × σ}
    (newPile : Except PileError (PileFs S))
    (h : (conf store (H.issue issuer (issueParams params))).1 = (conf store' (H.issue issuer (issueParams params))).1) :
    (issue issuer params store conf newPile).1 = (issue issuer params store' conf newPile).1 := by
  unfold issue
  split
  · rfl
  · split
    · rfl
    · dsimp only
      cases hc : conf store (H.issue issuer (issueParams params)) with
      | mk r d =>
        cases hc' : conf store' (H.issue issuer (issueParams params)) with
        | mk r' d' =>
          rw [hc, hc'] at h
          obtain rfl : r = r' := h
          cases r with
          | error e => rfl
          | ok u =>
            dsimp only
            split
            · rfl
            · split
              · rfl
              · split <;> rfl

namespace StockpileFiles

variable {H : Hypersonic} {S : RgbSeal} {T : Texts H} {W : Wire H S} {V : Verifier H S}
  {d d' : StockpileFiles H S} {stockIo : FileError → H.StockError}

theorem SameFolders.issuer (h : SameFolders d d') (codexId : H.CodexId) : d.issuer T codexId = d'.issuer T codexId := by
  unfold StockpileFiles.issuer
  rw [h.issuers]
  cases get d'.issuers codexId with
  | none => rfl
  | some name =>
    have he := h.entries (dotted name (T.codex codexId) issuerExt)
    simp only [Option.bind_eq_bind, Option.bind_some]
    cases hf : d.dir.find (dotted name (T.codex codexId) issuerExt) with
    | none =>
      rw [(h.isNone _).1 hf]
    | some e =>
      cases hf' : d'.dir.find (dotted name (T.codex codexId) issuerExt) with
      | none => rw [(h.isNone _).2 hf'] at hf; cases hf
      | some e' =>
        rw [hf, hf'] at he
        simp only [Option.map_some, Option.some.injEq, Prod.mk.injEq] at he
        exact he.2

theorem issue_result (T : Texts H) (stockIo : FileError → H.StockError) (h : SameFolders d d')
    (params : CreateParams H S) :
    (d.issue T stockIo params).1 = (d'.issue T stockIo params).1 := by
  unfold issue
  rw [h.issuer]
  cases d'.issuer T (H.specCodex params.issuer) with
  | none => rfl
  | some schema =>
    have hpile : ∀ path, d.newPile path = d'.newPile path := fun path => by
      unfold newPile
      rw [h.faults]
    have hconf : (conf T stockIo d (issued schema params)).1 = (conf T stockIo d' (issued schema params)).1 := by
      have hc := h.createContractDir (T := T) (issued schema params)
      unfold conf
      cases hd : d.createContractDir T (issued schema params) with
      | mk r d₁ =>
        cases hd' : d'.createContractDir T (issued schema params) with
        | mk r' d₁' =>
          rw [hd, hd'] at hc
          obtain rfl : r = r' := hc
          cases r <;> rfl
    have hres := Contract.issue_result (d'.newPile (articlesDir T (issued schema params))) hconf
    dsimp only
    rw [hpile]
    cases hi : Contract.issue schema params d (conf T stockIo) (d'.newPile (articlesDir T (issued schema params))) with
    | mk r d₁ =>
      cases hi' : Contract.issue schema params d' (conf T stockIo)
        (d'.newPile (articlesDir T (issued schema params))) with
      | mk r' d₁' =>
        rw [hi, hi'] at hres
        obtain rfl : r = r' := hres
        cases r <;> rfl

/-- What an issue or an import does to two directories: the same, in the folder of the same articles. -/
inductive Outcome (T : Texts H) (d d' : StockpileFiles H S) :
    Option (Contract H S) → StockpileFiles H S → StockpileFiles H S → Prop where
  | stays : Outcome T d d' none d d'
  | opened (articles : H.Articles) (hfree : d.dir.find (articlesDir T articles) = none)
      (hfree' : d'.dir.find (articlesDir T articles) = none) :
      Outcome T d d' none (d.opened (articlesDir T articles)) (d'.opened (articlesDir T articles))
  | made {f : FileName} (c : Contract H S) (hfile : f = articlesDir T (H.articles c.ledger))
      (hid : c.contractId = H.articlesId (H.articles c.ledger)) (hfree : d.dir.find f = none)
      (hfree' : d'.dir.find f = none) :
      Outcome T d d' (some c) ((d.opened f).register T f c) ((d'.opened f).register T f c)

theorem import_outcome (hA : H.ArticlesLaws) (V : Verifier H S) (h : SameFolders d d') (articles : H.Articles)
    (consignment : W.Consignment) : Outcome T d d'
      (d.importContract T W V articles consignment).1.toOption (d.importContract T W V articles consignment).2
      (d'.importContract T W V articles consignment).2 := by
  have hres := importContract_result (T := T) V h articles consignment
  rcases importContract_cases (T := T) V d articles consignment with ⟨hc, e, he⟩ | ⟨hc, ho⟩
  · rcases importContract_cases (T := T) V d' articles consignment with ⟨-, e', he'⟩ | ⟨hc', -⟩
    · rw [he, he']
      exact .stays
    · exact absurd ((sameFolders_equivalence.symm h).creatable hc') hc
  · have hc' := h.creatable hc
    rcases importContract_cases (T := T) V d' articles consignment with ⟨hno, -⟩ | ⟨-, ho'⟩
    · exact absurd hc' hno
    · rcases ho with ⟨e, he⟩ | ⟨c, hw, he⟩ <;> rcases ho' with ⟨e', he'⟩ | ⟨c', -, he'⟩ <;> rw [he, he'] at hres <;>
        cases hres
      · rw [he, he']
        exact .opened articles hc.free hc'.free
      · rw [he, he']
        have ha := Contract.withArticles_articles hA hw
        exact .made c (by rw [ha]) (by rw [ha]; exact Contract.withArticles_contractId hw) hc.free hc'.free

theorem SameFolders.issuable (h : SameFolders d d') {params : CreateParams H S} {schema : H.Issuer}
    (hi : Issuable T d params schema) : Issuable T d' params schema :=
  ⟨(h.issuer _).symm.trans hi.issuer, hi.check, h.creatable hi.creatable⟩

theorem issue_outcome (stockIo : FileError → H.StockError) (hA : H.ArticlesLaws)
    (hN : ∀ a l, H.new a = .ok l → H.ledgerId l = H.articlesId a)
    (h : SameFolders d d') (params : CreateParams H S) : Outcome T d d'
      (d.issue T stockIo params).1.toOption (d.issue T stockIo params).2 (d'.issue T stockIo params).2 := by
  have hres := issue_result T stockIo h params
  by_cases hex : ∃ schema, Issuable T d params schema
  · obtain ⟨schema, hi⟩ := hex
    have hi' := h.issuable hi
    cases hs : SmallMap.ofEntries (Contract.explicitSeals params) with
    | none =>
      rw [hi.panics stockIo hs, hi'.panics stockIo hs]
      exact .stays
    | some seals =>
      rcases hi.issues stockIo hs with ⟨e, he⟩ | ⟨c, hn, hid, he⟩ <;>
        rcases hi'.issues stockIo hs with ⟨e', he'⟩ | ⟨c', -, -, he'⟩ <;> rw [he, he'] at hres <;> cases hres
      · rw [he, he']
        exact .opened _ hi.creatable.free hi'.creatable.free
      · rw [he, he']
        have ha := hA.new _ _ hn
        exact .made c (by rw [ha]) (by rw [ha, hid, hN _ _ hn]) hi.creatable.free hi'.creatable.free
  · obtain ⟨e, he⟩ := issue_refused stockIo hex
    have hex' : ¬∃ schema, Issuable T d' params schema := by
      rintro ⟨schema, hi⟩
      exact hex ⟨schema, (sameFolders_equivalence.symm h).issuable hi⟩
    obtain ⟨e', he'⟩ := issue_refused stockIo hex'
    rw [he, he']
    exact .stays

/-- An import makes the contract of the articles. -/
theorem importContract_made {articles : H.Articles} {consignment : W.Consignment} {c : Contract H S}
    (h : c ∈ (d.importContract T W V articles consignment).1.toOption) :
    Contract.withArticles W V (d.newPile (articlesDir T articles)) articles consignment = .ok c := by
  rcases importContract_cases (T := T) V d articles consignment with ⟨-, e, he⟩ | ⟨-, ⟨e, he⟩ | ⟨c', hw, he⟩⟩ <;>
    rw [he] at h <;> cases h
  exact hw

/-! ## The directory as files -/

end StockpileFiles

/-- The directory as the files behind its contracts. -/
def backing {H : Hypersonic} {S : RgbSeal} (T : Texts H) (W : Wire H S) (V : Verifier H S)
    (stockIo : FileError → H.StockError) : (stockpileFiles T W V stockIo).toStockpile.Backing where
  write := StockpileFiles.rewrite T
  Fits d id c := d.HasFolder T id ∧ c.network = d.network
  Good := StockpileFiles.PlainNames
  Same := StockpileFiles.SameFolders

namespace StockpileFiles

variable {H : Hypersonic} {S : RgbSeal} {T : Texts H} {W : Wire H S} {V : Verifier H S}
  {d d' : StockpileFiles H S} {stockIo : FileError → H.StockError}

theorem HasFolder.write {id : ContractId} (h : HasFolder T d id)
    (hpath : d'.getContractDir T id = d.getContractDir T id) {f : FileName} {e : Entry H S}
    (hdir : d'.dir = d.dir.write f e) : HasFolder T d' id := by
  obtain ⟨path, e', hp, he⟩ := h
  by_cases hf : path = f
  · exact ⟨path, e, hpath.trans hp, by rw [hdir, UniqueMap.find_write, if_pos hf]⟩
  · exact ⟨path, e', hpath.trans hp, by rw [hdir, UniqueMap.find_write, if_neg hf, he]⟩

theorem Outcome.grows (hT : T.Lawful) {made : Option (Contract H S)} {d₁ d₂ : StockpileFiles H S}
    (h : Outcome T d d' made d₁ d₂) (hd : d.PlainNames) (hn : ∀ m ∈ made, m.network = d.network) :
    (backing T W V stockIo).Grows d d₁ made := by
  cases h with
  | stays => exact ⟨hd, fun _ _ _ hc => hc, fun _ _ _ hc => hc, fun m hm => by cases hm⟩
  | opened articles hfree =>
    refine ⟨hd, fun id c _ hc => ?_, fun id c _ hc => ⟨hc.1.write rfl rfl, hc.2⟩, fun m hm => by cases hm⟩
    exact (contract_opened d _ id).trans ((if_neg (getContractDir_ne_free hfree hc)).trans hc)
  | @made f c hfile hid hfree =>
    have hpath := fun id => getContractDir_register hfile hid (d.opened f) id
    refine ⟨fun id name hname => ?_, fun id c' hne hc => ?_, fun id c' hne hc => ⟨?_, hc.2⟩, fun m hm => ?_⟩
    · rw [register, get_upsert] at hname
      split at hname
      · cases hname
        exact hT.name_plain _
      · exact hd id name hname
    · exact (contract_register_ne hfile hid d (hne c rfl)).trans ((if_neg (getContractDir_ne_free hfree hc)).trans hc)
    · have hno := hpath id
      rw [if_neg (hne c rfl)] at hno
      have hopened : HasFolder T (d.opened f) id := hc.1.write rfl rfl
      exact hopened.write hno rfl
    · cases hm
      refine ⟨⟨f, ⟨.dir, none, some c⟩, (hpath c.contractId).trans (if_pos rfl), ?_⟩, hn c rfl⟩
      show (UniqueMap.write _ f _).find f = _
      rw [UniqueMap.find_write, if_pos rfl]

theorem Outcome.agrees {made : Option (Contract H S)} {d₁ d₂ : StockpileFiles H S}
    (h : Outcome T d d' made d₁ d₂) (hs : SameFolders d d') : (backing T W V stockIo).Agrees d d' d₁ d₂ made := by
  have hn := hs.network
  cases h with
  | stays => exact ⟨hs, fun _ _ hc => hc⟩
  | opened articles =>
    refine ⟨hs.opened _, fun id _ hc => (contract_opened d _ id).trans (Eq.trans ?_ (contract_opened d' _ id).symm)⟩
    have hc : d.contract T id = d'.contract T id := hc
    rw [hs.getContractDir, hs.faults, hn, hc]
  | @made f c hfile hid =>
    refine ⟨(hs.opened f).register f c, fun id hne hc => ?_⟩
    have hc : d.contract T id = d'.contract T id := hc
    refine (contract_register_ne hfile hid d (hne c rfl)).trans
      (Eq.trans ?_ (contract_register_ne hfile hid d' (hne c rfl)).symm)
    rw [hs.getContractDir, hn, hc]

end StockpileFiles

/-- **The directory** is such a storage. -/
theorem backing_lawful {H : Hypersonic} {S : RgbSeal} (hL : H.NetworkLaws)
    (hN : ∀ a l, H.new a = .ok l → H.ledgerId l = H.articlesId a) {T : Texts H} (hT : T.Lawful) (W : Wire H S)
    (V : Verifier H S) (stockIo : FileError → H.StockError) : (backing T W V stockIo).Lawful where
  equivalence := StockpileFiles.sameFolders_equivalence
  consensus _ _ h := h.consensus
  isTestnet _ _ h := h.testnet
  hasContract _ _ h id := congrArg (has · id) h.contracts
  contractIds _ _ h := congrArg keys h.contracts
  served d id c h := by
    obtain ⟨path, e, hp, he, -, hn⟩ := StockpileFiles.contract_eq_some.1 h
    exact ⟨⟨path, e, hp, he⟩, hn⟩
  reaches d id c c' h hr := ⟨h.1, (hL.keeps d.network).reaches hr h.2⟩
  write_good d id c h id' name hn := h id' name (by rw [← (d.rewrite_same (T := T) id c).contracts]; exact hn)
  write_same d id c := d.rewrite_same id c
  write_fits d id c id' c' h :=
    have hsame := d.rewrite_same (T := T) id c
    ⟨(StockpileFiles.sameFolders_equivalence.symm hsame).hasFolder h.1, h.2.trans hsame.network.symm⟩
  contract_write d id c h := (StockpileFiles.contract_rewrite h.1 (some c)).trans (by simp [h.2])
  contract_write_ne d id c id' h hne := StockpileFiles.contract_rewrite_ne hT h c hne
  import_id d a cons c hc := Contract.withArticles_contractId (StockpileFiles.importContract_made hc)
  import_result d d' h a cons := StockpileFiles.importContract_result V h a cons
  import_grows d hd a cons hn := by
    have ho := StockpileFiles.import_outcome (T := T) hL.toArticlesLaws V
      (StockpileFiles.sameFolders_equivalence.refl d) a cons
    refine ho.grows hT hd fun m hm => ?_
    have hw := StockpileFiles.importContract_made hm
    exact (congrArg Hypersonic.network (Contract.withArticles_articles hL.toArticlesLaws hw)).trans hn
  import_agrees d d' _ _ h a cons := (StockpileFiles.import_outcome hL.toArticlesLaws V h a cons).agrees h
  issue_result d d' h params := StockpileFiles.issue_result T stockIo h params
  issue_grows d hd params hn := by
    have ho := StockpileFiles.issue_outcome (T := T) stockIo hL.toArticlesLaws hN
      (StockpileFiles.sameFolders_equivalence.refl d) params
    refine ho.grows hT hd fun m hm => ?_
    cases hi : d.issue T stockIo params with
    | mk r d₁ =>
      rw [hi] at hm
      cases r with
      | error e => cases hm
      | ok c =>
        obtain rfl : c = m := Option.some.inj hm
        exact ((stockpileFiles_guarded hL T W V stockIo).issue_ok d params c d₁ hi).trans hn
  issue_agrees d d' _ _ h params := (StockpileFiles.issue_outcome stockIo hL.toArticlesLaws hN h params).agrees h

namespace Contracts

variable {H : Hypersonic} {S : RgbSeal} {W : Wire H S} {V : Verifier H S}

open StockpileFiles

theorem load_plainNames (T : Texts H) (consensus : Consensus) (testnet : Bool)
    (dir : UniqueMap FileName (Entry H S)) : (StockpileFiles.load T consensus testnet dir).PlainNames := by
  intro id name h
  obtain ⟨f, -, hf⟩ := get_load_contracts h
  obtain ⟨-, -, hname, -⟩ := folderName_eq_some.1 hf
  exact hname

theorem Shadows.refl_load {P : Stockpile W V} {F : P.Backing} (hF : F.Lawful) {p : P.Store} (hp : F.Good p) :
    Shadows F (load p) (load p) where
  same := hF.equivalence.refl p
  good := ⟨hp, hp⟩
  memory _ _ h := h
  fits _ _ h := by cases h
  dropped _ _ h := by cases h
  rest _ _ := rfl

/-- **Evictions are not noticed**: over a loaded directory, whichever contracts the memory drops at whatever time, if
the files of each hold it then, every call returns what it returns where nothing is dropped, and the contracts
served and listed are the same after it. -/
theorem run_evictions (hL : H.NetworkLaws) (hN : ∀ a l, H.new a = .ok l → H.ledgerId l = H.articlesId a) {T : Texts H}
    (hT : T.Lawful) (stockIo : FileError → H.StockError) (ledgers : H.Ledger → Except H.StockError H.Ledger)
    (consensus : Consensus) (testnet : Bool) (dir : UniqueMap FileName (Entry H S)) (calls : List (CacheCall W))
    (he : Runs.Along (cached (backing T W V stockIo) ledgers) (Evictable ledgers)
      (none, loadDir T W V stockIo consensus testnet dir) calls) :
    Option.Rel (List.Forall₂ fun x y =>
        x.1 = y.1 ∧ (∀ id, x.2.served id = y.2.served id) ∧ x.2.contractIds = y.2.contractIds)
      (Runs.run (cached (backing T W V stockIo) ledgers) (none, loadDir T W V stockIo consensus testnet dir) calls)
      (Runs.run uncached (none, loadDir T W V stockIo consensus testnet dir) calls) := by
  have hF := backing_lawful hL hN hT W V stockIo
  have hload : Shadows (backing T W V stockIo) (loadDir T W V stockIo consensus testnet dir)
      (loadDir T W V stockIo consensus testnet dir) := Shadows.refl_load hF (load_plainNames T consensus testnet dir)
  rcases Runs.rel_cases (run_shadows hF hload he) with ⟨hs, ht⟩ | ⟨ss, ts, hs, ht, h⟩
  · rw [hs, ht]
    exact .none
  · rw [hs, ht]
    refine .some (h.imp fun x y hxy => ⟨hxy.1, hxy.2.served, ?_⟩)
    exact hF.contractIds _ _ hxy.2.same

end Contracts

/-! ## An import that is dropped -/

theorem metaTexts_lawful : metaTexts.Lawful where
  contractOf_contract := refTexts_lawful.contractOf_contract
  codexOf_codex := refTexts_lawful.codexOf_codex
  name_plain := refTexts_lawful.name_plain

namespace Folders

/-- The ledgers of a stock, which hold what is committed. -/
def ledgers (l : RefLedger) : Except Unit RefLedger := .ok { l with pending := false }

/-- An import, an eviction of the contract, and a look at its state. -/
def dropping : List (CacheCall metaWire) :=
  [.base (.consume true Stream.named noSeals Stream.validator), .evict Stream.id, .base (.contractState Stream.id)]

/-- The directory of `metaTexts` as the files behind its contracts. -/
def held : (stockpileFiles metaTexts metaWire metaVerifier fun _ => ()).toStockpile.Backing :=
  backing metaTexts metaWire metaVerifier fun _ => ()

end Folders

/-- The contract is loaded again from the folder the import has made. -/
theorem run_evictions_import : ∃ states states',
    Runs.run (Contracts.cached Folders.held Folders.ledgers) (none, Folders.testnet) Folders.dropping = some states ∧
    Runs.run Contracts.uncached (none, Folders.testnet) Folders.dropping = some states' ∧ states.length = 3 ∧
    List.Forall₂ (fun x y => x.1 = y.1 ∧ (∀ id, x.2.served id = y.2.served id) ∧ x.2.contractIds = y.2.contractIds)
      states states' := by
  have hrel := Contracts.run_evictions (W := metaWire) (V := metaVerifier) metaSonic_networkLaws refSonic_new_ledgerId
    metaTexts_lawful (fun _ => ()) Folders.ledgers .bitcoin true .empty Folders.dropping ⟨?_, fun s hs => ?_⟩
  · obtain ⟨states, hs, hl⟩ : ∃ states, Runs.run (Contracts.cached Folders.held Folders.ledgers) (none, Folders.testnet)
      Folders.dropping = some states ∧ states.length = 3 := ⟨_, rfl, rfl⟩
    rcases Runs.rel_cases hrel with ⟨hn, -⟩ | ⟨ss, ts, hss, hts, h⟩
    · cases hs.symm.trans hn
    · cases hs.symm.trans hss
      exact ⟨_, ts, hs, hts, hl, h⟩
  · intro _ id stream consignment rest articles hp hk hc ha
    cases hp
    cases hc
    cases ha
    rfl
  · cases hs
    refine ⟨fun c hc => ?_, fun s hs => ⟨trivial, fun s hs => trivial⟩⟩
    cases hc
    rfl

end RgbStd
