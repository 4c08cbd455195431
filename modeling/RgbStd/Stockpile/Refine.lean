import RgbStd.Contracts.Simulate
import RgbStd.Stockpile.Storage
/-!
# The directory and its table of folders

`Stockpile/Dir` is what `Stockpile/Files` comes to while the file system does not fail and nobody else
writes into the contract folders: `Represents` relates the two, `createContractDir_represents` and
`register_represents` are the two steps every import and issue is made of, and `stockpileFiles_simulates`
puts them together. What is proved of `Contracts` over the one then holds over the other
(`run_bound_files`).
-/
namespace RgbStd
open Tables Names Decode

namespace Contract

variable {H : Hypersonic} {S : RgbSeal} {E F : Type}

theorem withArticles_widen {W : Wire H S} {V : Verifier H S} {pile : PileFs S} {articles : H.Articles}
    {consignment : W.Consignment} {c : Contract H S}
    (h : withArticles W V (.ok pile : Except E (PileFs S)) articles consignment = .ok c) :
    withArticles W V (.ok pile : Except F (PileFs S)) articles consignment = .ok c := by
  obtain ⟨ledger, pile₀, pile₁, hn, hp, hs, hev⟩ := withArticles_eq_ok h
  cases hp
  simp only [withArticles, hn, hs, hev]

theorem withArticles_sameOk (W : Wire H S) (V : Verifier H S) (pile : PileFs S) (articles : H.Articles)
    (consignment : W.Consignment) : SameOk (withArticles W V (.ok pile : Except E (PileFs S)) articles consignment)
      (withArticles W V (.ok pile : Except F (PileFs S)) articles consignment) :=
  fun _ => ⟨withArticles_widen, withArticles_widen⟩

/-- An issue over two storages which prepare alike. -/
theorem issue_sameOk {σ τ : Type} {R : σ → τ → Prop} (issuer : H.Issuer) (params : CreateParams H S) {s : σ} {t : τ}
    {conf : σ → H.Articles → Except H.StockError Unit × σ} {conf' : τ → H.Articles → Except H.StockError Unit × τ}
    (h : R s t)
    (hconf : ∀ articles, SameOk (conf s articles).1 (conf' t articles).1 ∧ R (conf s articles).2 (conf' t articles).2)
    (pile : PileFs S) :
    SameOk (issue issuer params s conf (.ok pile : Except E (PileFs S))).1
        (issue issuer params t conf' (.ok pile : Except F (PileFs S))).1 ∧
      R (issue issuer params s conf (.ok pile : Except E (PileFs S))).2
        (issue issuer params t conf' (.ok pile : Except F (PileFs S))).2 := by
  unfold issue
  split
  · exact ⟨sameOk_error _ _, h⟩
  · cases SmallMap.ofEntries (explicitSeals params) with
    | none => exact ⟨sameOk_error _ _, h⟩
    | some seals =>
      obtain ⟨hok, hR⟩ := hconf (H.issue issuer (issueParams params))
      dsimp only
      cases hs : conf s (H.issue issuer (issueParams params)) with
      | mk r s' =>
        cases ht : conf' t (H.issue issuer (issueParams params)) with
        | mk r' t' =>
          rw [hs, ht] at hok hR
          rcases hok.cases with ⟨e, f, he, hf⟩ | ⟨u, he, hf⟩
          · simp only at he hf
            subst he hf
            exact ⟨sameOk_error _ _, hR⟩
          · simp only at he hf
            subst he hf
            dsimp only
            cases H.new (H.issue issuer (issueParams params)) with
            | error e => exact ⟨sameOk_error _ _, hR⟩
            | ok ledger =>
              dsimp only
              cases pile.addSeals (H.genesisOpid (H.articles ledger)) seals.entries with
              | none => exact ⟨sameOk_error _ _, hR⟩
              | some pile => exact ⟨sameOk_ok _, hR⟩

end Contract

namespace StockpileFiles

variable {H : Hypersonic} {S : RgbSeal} {T : Texts H} {W : Wire H S} {V : Verifier H S}

/-- The path of a contract folder. -/
def contractPath (T : Texts H) (name : String) (id : ContractId) : FileName :=
  dotted (T.name name) (T.contract id) contractExt

/-- The directory holds the folders of the table, and knows its contracts under their names. What else it
holds does not matter. -/
structure Represents (T : Texts H) (d : StockpileFiles H S) (a : StockpileDir H S) : Prop where
  consensus : d.consensus = a.consensus
  testnet : d.testnet = a.testnet
  issuers : ∀ codexId, d.issuer T codexId = get a.issuers codexId
  contracts : d.contracts = a.contracts.map fun e => (e.1, T.name e.2)
  folders : ∀ name id, d.dir.find (contractPath T name id) = (get a.folders (name, id)).map fun c => ⟨.dir, none, c⟩
  faults : d.faults = .none

/-! ## What the two know -/

namespace Represents

variable {d : StockpileFiles H S} {a : StockpileDir H S}

theorem hasContract (h : Represents T d a) (id : ContractId) : d.hasContract id = a.hasContract id := by
  rw [StockpileFiles.hasContract, StockpileDir.hasContract, has, has, h.contracts, get_map, Option.isSome_map]

theorem contract (h : Represents T d a) (id : ContractId) : d.contract T id = a.contract id := by
  simp only [StockpileFiles.contract, StockpileDir.contract, getContractDir, h.contracts, get_map, h.consensus, h.testnet]
  cases get a.contracts id with
  | none => rfl
  | some name =>
    have hf := h.folders name id
    unfold contractPath at hf
    simp only [Option.map_some, Option.bind_eq_bind, Option.bind_some, Option.pure_def, hf]
    cases get a.folders (name, id) with
    | none => rfl
    | some c => cases c <;> rfl

end Represents

/-- A directory with nothing in it. -/
theorem represents_empty (consensus : Consensus) (testnet : Bool) :
    Represents T (load T consensus testnet .empty : StockpileFiles H S)
      (.load consensus testnet [] [] fun _ _ _ h => by cases h) where
  consensus := rfl
  testnet := rfl
  issuers _ := rfl
  contracts := rfl
  folders _ _ := rfl
  faults := rfl

/-! ## What they do -/

/-- No two contracts share a path. -/
theorem contractPath_inj (hT : T.Lawful) (hname : Function.Injective T.name) {name name' : String} {id id' : ContractId} :
    contractPath T name id = contractPath T name' id' ↔ (name, id) = (name', id') := by
  constructor
  · intro h
    have hp := parts_dotted (hT.name_plain name) plain_contractExt (T.contract id)
    unfold contractPath at h
    rw [h, parts_dotted (hT.name_plain name') plain_contractExt] at hp
    simp only [Option.some.injEq, Prod.mk.injEq, and_true] at hp
    have hid := hT.contractOf_contract id
    rw [← hp.2, hT.contractOf_contract] at hid
    rw [hname hp.1, Option.some.inj hid]
  · intro h
    cases h
    rfl

theorem write_folders (hT : T.Lawful) (hname : Function.Injective T.name) {d : StockpileFiles H S} {a : StockpileDir H S}
    (h : Represents T d a) (name : String) (id : ContractId) (c : Option (Contract H S))
    (name' : String) (id' : ContractId) :
    (d.dir.write (contractPath T name id) ⟨.dir, none, c⟩).find (contractPath T name' id') =
      (get (upsert a.folders (name, id) c) (name', id')).map fun c => ⟨.dir, none, c⟩ := by
  rw [UniqueMap.find_write, get_upsert, h.folders]
  by_cases he : (name', id') = (name, id)
  · rw [if_pos ((contractPath_inj hT hname).2 he), if_pos he]
    rfl
  · rw [if_neg fun hp => he ((contractPath_inj hT hname).1 hp), if_neg he]

/-- The issuer files are not contract folders. -/
theorem issuer_write (d : StockpileFiles H S) (name : String) (id : ContractId) (e : Entry H S) (codexId : H.CodexId) :
    ({ d with dir := d.dir.write (contractPath T name id) e } : StockpileFiles H S).issuer T codexId =
      d.issuer T codexId := by
  simp only [issuer]
  cases get d.issuers codexId with
  | none => rfl
  | some codexName =>
    have hne : dotted codexName (T.codex codexId) issuerExt ≠ contractPath T name id := by
      intro he
      have hext := dotted_ext (by decide) plain_contractExt he
      revert hext
      decide
    simp only [Option.bind_eq_bind, Option.bind_some, UniqueMap.find_write, if_neg hne]

/-- The folder of the articles is free in both. -/
theorem Represents.find_articlesDir {d : StockpileFiles H S} {a : StockpileDir H S} (h : Represents T d a)
    (articles : H.Articles) : d.dir.find (articlesDir T articles) =
      (get a.folders (StockpileDir.folder articles)).map fun c => ⟨.dir, none, c⟩ :=
  h.folders (H.articlesName articles) (H.articlesId articles)

/-- Both make the folder, or neither does. -/
theorem createContractDir_represents (hT : T.Lawful) (hname : Function.Injective T.name) {d : StockpileFiles H S}
    {a : StockpileDir H S} (h : Represents T d a) (articles : H.Articles) :
    (∃ e f, d.createContractDir T articles = (.error e, d) ∧ a.createContractDir articles = (.error f, a)) ∨
      ∃ a', d.createContractDir T articles = (.ok (articlesDir T articles), d.opened (articlesDir T articles)) ∧
        a.createContractDir articles = (.ok (), a') ∧ Represents T (d.opened (articlesDir T articles)) a' := by
  have hfind := h.find_articlesDir articles
  by_cases hhas : has a.folders (StockpileDir.folder articles)
  · have hc : ¬Creatable T d articles := fun hc => by
      obtain ⟨c, hf⟩ := has_iff.1 hhas
      rw [hc.free, hf] at hfind
      cases hfind
    obtain ⟨e, he⟩ := createContractDir_error hc
    exact Or.inl ⟨e, .alreadyExists "Contract already exists", he,
      by simp only [StockpileDir.createContractDir, hhas, if_true]⟩
  · have hf : get a.folders (StockpileDir.folder articles) = none := by simpa [has] using hhas
    have hc : Creatable T d articles := by
      refine ⟨by rw [h.faults]; rfl, ?_, by rw [h.faults]; rfl⟩
      rw [hfind, hf]
      rfl
    have ha : a.createContractDir articles = (.ok (), (a.createContractDir articles).2) := by
      simp only [StockpileDir.createContractDir, hhas, Bool.false_eq_true, if_false]
    refine Or.inr ⟨_, createContractDir_ok hc, ha, ?_⟩
    simp only [StockpileDir.createContractDir, hhas, Bool.false_eq_true, if_false]
    refine ⟨h.consensus, h.testnet, fun codexId => (issuer_write d _ _ _ codexId).trans (h.issuers codexId), h.contracts,
      fun name id => ?_, h.faults⟩
    have hleft : d.faults.leftover (articlesDir T articles) = none := by rw [h.faults]; rfl
    rw [opened, hleft]
    exact write_folders hT hname h (H.articlesName articles) (H.articlesId articles) none name id

/-- Both complete the contract. -/
theorem register_represents (hT : T.Lawful) (hname : Function.Injective T.name) {d : StockpileFiles H S}
    {a : StockpileDir H S} (h : Represents T d a) (articles : H.Articles) (c : Contract H S)
    (hc : c.contractId = H.articlesId articles) :
    Represents T (d.register T (articlesDir T articles) c) (a.store articles c hc) where
  consensus := h.consensus
  testnet := h.testnet
  issuers codexId := (issuer_write d _ _ _ codexId).trans (h.issuers codexId)
  contracts := by
    rw [register, h.contracts, upsert_map]
    rfl
  folders name id := write_folders hT hname h (H.articlesName articles) (H.articlesId articles) (some c) name id
  faults := h.faults

theorem newPile_represents {d : StockpileFiles H S} {a : StockpileDir H S} (h : Represents T d a) (path : FileName) :
    d.newPile path = .ok .new := by
  rw [newPile, h.faults]
  rfl

theorem importContract_represents (hT : T.Lawful) (hname : Function.Injective T.name) {d : StockpileFiles H S}
    {a : StockpileDir H S} (h : Represents T d a) (articles : H.Articles) (consignment : W.Consignment) :
    SameOk (d.importContract T W V articles consignment).1 (a.importContract W V articles consignment).1 ∧
      Represents T (d.importContract T W V articles consignment).2 (a.importContract W V articles consignment).2 := by
  unfold importContract StockpileDir.importContract
  rcases createContractDir_represents hT hname h articles with ⟨e, f, he, hf⟩ | ⟨a', hd, ha, h'⟩
  · rw [he, hf]
    exact ⟨sameOk_error _ _, h⟩
  · rw [hd, ha]
    dsimp only
    rw [newPile_represents h']
    have hsame := Contract.withArticles_sameOk (E := FileError) (F := IoError) W V .new articles consignment
    split
    · rename_i e he
      split
      · exact ⟨sameOk_error _ _, h'⟩
      · rename_i c hc
        cases he.symm.trans ((hsame c).2 hc)
    · rename_i c hc
      split
      · rename_i e he
        cases he.symm.trans ((hsame c).1 hc)
      · rename_i c' hc'
        cases ((hsame c).1 hc).symm.trans hc'
        exact ⟨sameOk_ok _, register_represents hT hname h' articles c (Contract.withArticles_contractId hc')⟩

/-- The preparation of an issue. -/
def dirConf (stockIo : IoError → H.StockError) (a : StockpileDir H S) (articles : H.Articles) :
    Except H.StockError Unit × StockpileDir H S :=
  match a.createContractDir articles with
  | (.error e, a) => (.error (stockIo e), a)
  | (.ok (), a) => (.ok (), a)

theorem conf_represents (hT : T.Lawful) (hname : Function.Injective T.name) (stockIo : FileError → H.StockError)
    (stockIo' : IoError → H.StockError) {d : StockpileFiles H S} {a : StockpileDir H S} (h : Represents T d a)
    (articles : H.Articles) : SameOk (conf T stockIo d articles).1 (dirConf stockIo' a articles).1 ∧
      Represents T (conf T stockIo d articles).2 (dirConf stockIo' a articles).2 := by
  unfold conf dirConf
  rcases createContractDir_represents hT hname h articles with ⟨e, f, he, hf⟩ | ⟨a', hd, ha, h'⟩
  · rw [he, hf]
    exact ⟨sameOk_error _ _, h⟩
  · rw [hd, ha]
    exact ⟨sameOk_ok _, h'⟩

theorem dir_issue_cases (hN : ∀ a l, H.new a = .ok l → H.ledgerId l = H.articlesId a) (stockIo : IoError → H.StockError)
    {a : StockpileDir H S} {params : CreateParams H S} {schema : H.Issuer}
    (h : get a.issuers (H.specCodex params.issuer) = some schema) :
    (∃ e a', Contract.issue schema params a (dirConf stockIo) (.ok .new : Except IoError (PileFs S)) = (.error e, a') ∧
        a.issue stockIo hN params = (.error e, a')) ∨
      ∃ c a' hc, Contract.issue schema params a (dirConf stockIo) (.ok .new : Except IoError (PileFs S)) = (.ok c, a') ∧
        a.issue stockIo hN params = (.ok c, a'.store (H.issue schema (Contract.issueParams params)) c hc) := by
  unfold StockpileDir.issue
  rw [h]
  dsimp only
  split
  · rename_i e a' ha
    exact Or.inl ⟨e, a', ha, rfl⟩
  · rename_i c a' ha
    obtain ⟨-, l, hl, hid⟩ := Contract.issue_eq_ok ha
    exact Or.inr ⟨c, a', hid.trans (hN _ _ hl), ha, rfl⟩

theorem issue_represents (hT : T.Lawful) (hname : Function.Injective T.name)
    (hN : ∀ a l, H.new a = .ok l → H.ledgerId l = H.articlesId a) (stockIo : FileError → H.StockError)
    (stockIo' : IoError → H.StockError) {d : StockpileFiles H S} {a : StockpileDir H S} (h : Represents T d a)
    (params : CreateParams H S) : SameOk (d.issue T stockIo params).1 (a.issue stockIo' hN params).1 ∧
      Represents T (d.issue T stockIo params).2 (a.issue stockIo' hN params).2 := by
  cases hi : get a.issuers (H.specCodex params.issuer) with
  | none =>
    unfold issue StockpileDir.issue
    rw [h.issuers, hi]
    exact ⟨sameOk_error _ _, h⟩
  | some schema =>
    obtain ⟨hok, hR⟩ := Contract.issue_sameOk (E := FileError) (F := IoError) schema params h
      (conf_represents hT hname stockIo stockIo' h) .new
    unfold issue
    rw [h.issuers, hi]
    dsimp only
    rw [newPile_represents h]
    rcases dir_issue_cases hN stockIo' hi with ⟨f, a', ha, he⟩ | ⟨c, a', hc, ha, he⟩ <;> rw [ha] at hok hR <;> rw [he]
    · split
      · rename_i e d' hd
        rw [hd] at hR
        exact ⟨sameOk_error _ _, hR⟩
      · rename_i c d' hd
        rw [hd] at hok
        cases (hok c).1 rfl
    · split
      · rename_i e d' hd
        rw [hd] at hok
        cases (hok c).2 rfl
      · rename_i c' d' hd
        rw [hd] at hok hR
        cases (hok c').1 rfl
        exact ⟨sameOk_ok _, register_represents hT hname hR _ c hc⟩

end StockpileFiles

/-- **The directory simulates its table of folders.** -/
theorem stockpileFiles_simulates {H : Hypersonic} {S : RgbSeal} {T : Texts H} (W : Wire H S) (V : Verifier H S)
    (hT : T.Lawful) (hname : Function.Injective T.name) (hN : ∀ a l, H.new a = .ok l → H.ledgerId l = H.articlesId a)
    (stockIo : FileError → H.StockError) (stockIo' : IoError → H.StockError) :
    (stockpileFiles T W V stockIo).Simulates (stockpileDir W V stockIo' hN) (StockpileFiles.Represents T) where
  consensus _ _ h := h.consensus
  isTestnet _ _ h := h.testnet
  hasContract _ _ h id := h.hasContract id
  contractIds _ a h := (congrArg keys h.contracts).trans (keys_map T.name a.contracts)
  contract _ _ h id := h.contract id
  importContract _ _ h articles consignment := StockpileFiles.importContract_represents hT hname h articles consignment
  issue _ _ h params := StockpileFiles.issue_represents hT hname hN stockIo stockIo' h params

namespace Contracts

variable {H : Hypersonic} {S : RgbSeal} {T : Texts H} {W : Wire H S} {V : Verifier H S}

/-- Over a directory, too, the contracts in memory are kept under their own ids. -/
theorem run_bound_files (hT : T.Lawful) (hname : Function.Injective T.name)
    (hN : ∀ a l, H.new a = .ok l → H.ledgerId l = H.articlesId a) (stockIo : FileError → H.StockError)
    (stockIo' : IoError → H.StockError) {d : StockpileFiles H S} {a : StockpileDir H S}
    (h : StockpileFiles.Represents T d a) (calls : List (Call W))
    (states : List (Contracts (stockpileFiles T W V stockIo).toStockpile))
    (hn : Runs.Along handle Names (load a : Contracts (stockpileDir W V stockIo' hN)) calls)
    (hrun : Runs.run handle (load d : Contracts (stockpileFiles T W V stockIo).toStockpile) calls = some states) :
    ∀ s ∈ states, s.Bound := by
  have hsim := stockpileFiles_simulates W V hT hname hN stockIo stockIo'
  have hruns := run_simulates hsim (s := load d) (t := load a) ⟨rfl, h⟩ calls
  rw [hrun] at hruns
  rcases Runs.rel_cases hruns with ⟨hs, -⟩ | ⟨ss, ts, hs, ht, hall⟩
  · cases hs
  · cases hs
    have hbound := Runs.run_inv (fun _ _ _ h hn hs => handle_bound (stockpileDir_lawful W V stockIo' hN) h hn hs)
      calls _ ts (load_bound a) hn ht
    exact Runs.forall_of_rel (fun s t halike hb => halike.bound hsim hb) hall hbound

end Contracts

end RgbStd
