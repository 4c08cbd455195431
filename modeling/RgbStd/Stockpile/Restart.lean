import RgbStd.Stockpile.Backing
/-!
# A directory that is opened again (persistence/fs/src/stockpile.rs:54-101, 154-162, contract.rs:377-385)

A program that ends leaves what its contracts have on disk. The next one reads the names of the folders, and loads a
contract when it is first asked for.

| here | there |
| --- | --- |
| `disk`     | the folders with what is on disk of the contracts in memory |
| `Program`  | a running program, with the folders its contracts in memory were opened in |
| `restart`  | `StockpileDir::load` and `Contracts::load` of that directory |
| `LifeCall` | a call of any kind under the faults of its time, or the end of a program and the start of the next |

Invariant `Housed`: each folder has the path of some articles, a contract is known by the name of its articles, and
one in memory has its folder. Invariant `Home`: it was opened in that folder. Every call and every start keep them, so
they hold in the programs that come after.

* `life_housed`, `life_home`: what one step preserves.
* `run_restarts`: the next program serves what this one serves exactly if nothing in memory is unsaved.
-/
namespace RgbStd
open Tables Names Decode

theorem mem_toOption {ε α : Type} {r : Except ε α} {a : α} (h : r = .ok a) : a ∈ r.toOption := by
  rw [h]
  rfl

/-- A call, or the start of the next program. -/
inductive LifeCall {H : Hypersonic} {S : RgbSeal} (W : Wire H S) where
  | manage (faults : Faults H S) (call : ManagedCall W)
  | restart

/-- The id of a contract belongs to its name. -/
def Texts.NamesById {H : Hypersonic} (T : Texts H) : Prop :=
  ∀ a a', H.articlesId a' = H.articlesId a → T.name (H.articlesName a') = T.name (H.articlesName a)

namespace StockpileFiles

variable {H : Hypersonic} {S : RgbSeal} {T : Texts H} {W : Wire H S} {V : Verifier H S}
  {d d' : StockpileFiles H S} {id : ContractId}

/-- The folders with what is on disk of the contracts in memory: a contract writes to the folder it was opened in,
whatever id it is in memory under. -/
def disk (T : Texts H) (ledgers : H.Ledger → Except H.StockError H.Ledger) (opened : Table ContractId ContractId)
    (contracts : Table ContractId (Contract H S)) (d : StockpileFiles H S) : StockpileFiles H S :=
  contracts.foldl (fun d e => d.rewrite T ((get opened e.1).getD e.1) (e.2.load ledgers)) d

/-- Each folder of a contract has the path of articles. -/
def Filed (T : Texts H) (dir : UniqueMap FileName (Entry H S)) : Prop :=
  ∀ f id name, IsDir dir f → folderName T f = some (id, name) → ∃ articles : H.Articles, f = articlesDir T articles

/-- A directory the calls have made: moreover each contract is known by the name of its articles, and what has the path
of its folder is a folder. -/
structure Tidy (T : Texts H) (d : StockpileFiles H S) : Prop where
  filed : Filed T d.dir
  named : ∀ id name, get d.contracts id = some name →
    ∃ articles : H.Articles, H.articlesId articles = id ∧ name = T.name (H.articlesName articles)
  kind : ∀ id path e, d.getContractDir T id = some path → d.dir.find path = some e → e.fileType = .dir

/-- The contract has its folder. -/
def HasDir (T : Texts H) (d : StockpileFiles H S) (id : ContractId) : Prop :=
  ∃ path, d.getContractDir T id = some path ∧ IsDir d.dir path

theorem HasDir.hasContract (h : HasDir T d id) : d.hasContract id = true := by
  obtain ⟨path, hp, -⟩ := h
  obtain ⟨name, hget, -⟩ := getContractDir_eq_some.1 hp
  exact has_iff.2 ⟨name, hget⟩

theorem HasDir.hasFolder (h : HasDir T d id) : HasFolder T d id := by
  obtain ⟨path, hp, e, he, -⟩ := h
  exact ⟨path, e, hp, he⟩

theorem Tidy.plainNames (hT : T.Lawful) (h : Tidy T d) : d.PlainNames := by
  intro id name hn
  obtain ⟨articles, -, rfl⟩ := h.named id name hn
  exact hT.name_plain _

/-- What is served is in a folder. -/
theorem Tidy.hasDir (h : Tidy T d) {c : Contract H S} (hc : d.contract T id = some c) : HasDir T d id := by
  obtain ⟨path, e, hp, he, -, -⟩ := contract_eq_some.1 hc
  exact ⟨path, hp, e, he, h.kind id path e hp he⟩

theorem SameFolders.find (h : SameFolders d d') {f : FileName} {e : Entry H S} (he : d.dir.find f = some e) :
    ∃ e', d'.dir.find f = some e' ∧ e'.fileType = e.fileType := by
  have hentries := h.entries f
  rw [he, Option.map_some, eq_comm, Option.map_eq_some_iff] at hentries
  obtain ⟨e', he', heq⟩ := hentries
  exact ⟨e', he', congrArg Prod.fst heq⟩

theorem SameFolders.isDir (h : SameFolders d d') {f : FileName} (hd : IsDir d.dir f) : IsDir d'.dir f := by
  obtain ⟨e, he, htype⟩ := hd
  obtain ⟨e', he', htype'⟩ := h.find he
  exact ⟨e', he', htype'.trans htype⟩

theorem SameFolders.hasDir (h : SameFolders d d') (hd : HasDir T d id) : HasDir T d' id := by
  obtain ⟨path, hp, hdir⟩ := hd
  exact ⟨path, (h.getContractDir id).symm.trans hp, h.isDir hdir⟩

theorem SameFolders.tidy (h : SameFolders d d') (ht : Tidy T d) : Tidy T d' := by
  have hback := sameFolders_equivalence.symm h
  refine ⟨fun f id name hd => ht.filed f id name (hback.isDir hd), fun id name hn => ?_, fun id path e hp he => ?_⟩
  · exact ht.named id name (h.contracts ▸ hn)
  · obtain ⟨e', he', htype⟩ := hback.find he
    exact htype.symm.trans (ht.kind id path e' ((h.getContractDir id).trans hp) he')

/-! ## What is on disk -/

theorem getD_home {opened : Table ContractId ContractId} (hhome : ∀ id id', get opened id = some id' → id' = id)
    (id : ContractId) : (get opened id).getD id = id := by
  cases hget : get opened id with
  | none => rfl
  | some id' => exact hhome id id' hget

/-- **The folders on disk** hold what is on disk of the contracts in memory, and else what they held. -/
theorem disk_spec (hT : T.Lawful) (ledgers : H.Ledger → Except H.StockError H.Ledger)
    {opened : Table ContractId ContractId} (hhome : ∀ id id', get opened id = some id' → id' = id)
    (contracts : Table ContractId (Contract H S)) :
    ∀ d : StockpileFiles H S, (keys contracts).Nodup → d.PlainNames → (∀ e ∈ contracts, HasDir T d e.1) →
      SameFolders (disk T ledgers opened contracts d) d ∧
        ∀ id, (disk T ledgers opened contracts d).contract T id = match get contracts id with
          | some c => (c.load ledgers).filter fun c => c.network = d.network
          | none => d.contract T id := by
  induction contracts with
  | nil => exact fun d _ _ _ => ⟨sameFolders_equivalence.refl d, fun _ => rfl⟩
  | cons e contracts ih =>
    intro d hk hd hdir
    have hcons := List.nodup_cons.1 hk
    have hsame : SameFolders (d.rewrite T e.1 (e.2.load ledgers)) d := d.rewrite_same e.1 _
    obtain ⟨hs, hc⟩ := ih (d.rewrite T e.1 (e.2.load ledgers)) hcons.2
      (fun id name hn => hd id name (hsame.contracts ▸ hn))
      fun e' he' => (sameFolders_equivalence.symm hsame).hasDir (hdir e' (List.mem_cons_of_mem _ he'))
    rw [disk, List.foldl_cons, getD_home hhome]
    refine ⟨sameFolders_equivalence.trans hs hsame, fun id => (hc id).trans ?_⟩
    rw [get_cons, hsame.network]
    by_cases hid : id = e.1
    · subst hid
      rw [get_none_of_notMem hcons.1, if_pos rfl]
      exact contract_rewrite (hdir e List.mem_cons_self).hasFolder _
    · rw [if_neg hid]
      split
      · rfl
      · exact contract_rewrite_ne hT hd _ hid

/-- The path of a folder that is taken for a contract. -/
theorem Filed.eq_path {dir : UniqueMap FileName (Entry H S)} (hT : T.Lawful) (h : Filed T dir) {f name : FileName}
    (hd : IsDir dir f) (hf : folderName T f = some (id, name)) :
    f = dotted name (T.contract id) contractExt ∧
      ∃ articles : H.Articles, H.articlesId articles = id ∧ name = T.name (H.articlesName articles) := by
  obtain ⟨articles, rfl⟩ := h f id name hd hf
  rw [folderName_articlesDir hT, Option.some.injEq, Prod.mk.injEq] at hf
  obtain ⟨rfl, rfl⟩ := hf
  exact ⟨rfl, articles, rfl, rfl⟩

/-- A directory that is loaded is tidy if its folders have the paths of articles. -/
theorem load_tidy (hT : T.Lawful) {dir : UniqueMap FileName (Entry H S)} (h : Filed T dir) (consensus : Consensus)
    (testnet : Bool) : Tidy T (load T consensus testnet dir) where
  filed := h
  named id name hget := by
    obtain ⟨f, hd, hf⟩ := get_load_contracts hget
    exact (h.eq_path hT hd hf).2
  kind id path e hp he := by
    obtain ⟨name, hget, rfl⟩ := getContractDir_eq_some.1 hp
    obtain ⟨f, hd, hf⟩ := get_load_contracts hget
    obtain ⟨rfl, -⟩ := h.eq_path hT hd hf
    obtain ⟨e', he', htype⟩ := hd
    rw [show dir.find _ = some e from he] at he'
    cases he'
    exact htype

/-- **The next program** serves what the folder of a known contract holds. -/
theorem load_contract (hname : T.NamesById) (hT : T.Lawful) (ht : Tidy T d) (hk : d.hasContract id = true) :
    (load T d.consensus d.testnet d.dir).contract T id = d.contract T id := by
  obtain ⟨name, hget⟩ := has_iff.1 hk
  obtain ⟨articles, hid, hnm⟩ := ht.named id name hget
  have hpath := getContractDir_eq_some (T := T).2 ⟨name, hget, rfl⟩
  cases hl : get (load T d.consensus d.testnet d.dir).contracts id with
  | some name' =>
    -- A folder taken for the contract is the one it is looked for in.
    obtain ⟨articles', hid', hnm'⟩ := (load_tidy hT ht.filed d.consensus d.testnet).named id name' hl
    obtain rfl : name' = name := hnm'.trans ((hname articles articles' (hid'.trans hid.symm)).trans hnm.symm)
    rw [contract_eq, contract_eq, hpath, getContractDir_eq_some.2 ⟨name', hl, rfl⟩]
    rfl
  | none =>
    have hnone : (load T d.consensus d.testnet d.dir).contract T id = none := by
      rw [contract_eq, getContractDir, hl]
      rfl
    rw [hnone]
    refine (Option.eq_none_iff_forall_ne_some.2 fun c hc => ?_).symm
    -- What is served is in a folder, and the loading reads it.
    obtain ⟨path, hp, hd⟩ := ht.hasDir hc
    rw [hpath] at hp
    cases hp
    have hread : folderName T (dotted name (T.contract id) contractExt) = some (id, name) :=
      folderName_eq_some.2 ⟨_, rfl, ht.plainNames hT id name hget, hT.contractOf_contract id⟩
    have hlists := (load_hasContract d.consensus d.testnet d.dir id).2 ⟨_, name, hd, hread⟩
    rw [hasContract, has, hl] at hlists
    cases hlists

/-! ## What the calls do to the folders -/

/-- A change of the storage that keeps it tidy, and keeps the folders of contracts. -/
def Tends (T : Texts H) (d d' : StockpileFiles H S) : Prop :=
  Tidy T d → Tidy T d' ∧ ∀ id, HasDir T d id → HasDir T d' id

theorem Tends.refl (d : StockpileFiles H S) : Tends T d d := fun h => ⟨h, fun _ hd => hd⟩

theorem Tends.trans {d'' : StockpileFiles H S} (h : Tends T d d') (h' : Tends T d' d'') : Tends T d d'' :=
  fun ht => ⟨(h' (h ht).1).1, fun id hd => (h' (h ht).1).2 id ((h ht).2 id hd)⟩

/-- A folder is written under the path of articles. -/
theorem Filed.write {dir : UniqueMap FileName (Entry H S)} (h : Filed T dir) (articles : H.Articles) (e : Entry H S) :
    Filed T (dir.write (articlesDir T articles) e) := by
  intro f id name hd hf
  rw [isDir_write] at hd
  split at hd
  · rename_i he
    exact ⟨articles, he⟩
  · exact h f id name hd hf

theorem HasDir.write (h : HasDir T d id) (hpath : d'.getContractDir T id = d.getContractDir T id) {f : FileName}
    {e : Entry H S} (hdir : d'.dir = d.dir.write f e) (he : d.getContractDir T id = some f → e.fileType = .dir) :
    HasDir T d' id := by
  obtain ⟨path, hp, hd⟩ := h
  refine ⟨path, hpath.trans hp, ?_⟩
  rw [hdir, isDir_write]
  split
  · rename_i hf
    exact he (hf ▸ hp)
  · exact hd

theorem opened_tends (d : StockpileFiles H S) (articles : H.Articles) :
    Tends T d (d.opened (articlesDir T articles)) := by
  refine fun ht => ⟨⟨ht.filed.write _ _, ht.named, fun id path e hp he => ?_⟩, fun id hd => ?_⟩
  · rw [opened, UniqueMap.find_write] at he
    split at he
    · cases he
      rfl
    · exact ht.kind id path e hp he
  · have hpath : (d.opened (articlesDir T articles)).getContractDir T id = d.getContractDir T id := rfl
    exact hd.write hpath rfl fun _ => rfl

/-- A contract that is known already was known by the same name. -/
theorem register_getContractDir (hname : T.NamesById) {c : Contract H S}
    (hid : c.contractId = H.articlesId (H.articles c.ledger)) (ht : Tidy T d) {path : FileName}
    (hp : d.getContractDir T id = some path) :
    (d.register T (articlesDir T (H.articles c.ledger)) c).getContractDir T id = some path := by
  rw [getContractDir_register rfl hid]
  split
  · rename_i he
    obtain ⟨name, hget, rfl⟩ := getContractDir_eq_some.1 hp
    obtain ⟨articles, ha, rfl⟩ := ht.named id name hget
    rw [articlesDir, hname (H.articles c.ledger) articles (ha.trans (he.trans hid)), he, hid]
  · exact hp

theorem register_tends (hname : T.NamesById) {c : Contract H S}
    (hid : c.contractId = H.articlesId (H.articles c.ledger)) (d : StockpileFiles H S) :
    Tends T d (d.register T (articlesDir T (H.articles c.ledger)) c) := by
  refine fun ht => ⟨⟨ht.filed.write _ _, fun id name hget => ?_, fun id path e hp he => ?_⟩, fun id => ?_⟩
  · rw [register, get_upsert] at hget
    split at hget
    · rename_i he
      cases hget
      exact ⟨_, (he.trans hid).symm, rfl⟩
    · exact ht.named id name hget
  · rw [register, UniqueMap.find_write] at he
    split at he
    · cases he
      rfl
    · rename_i hne
      rw [getContractDir_register rfl hid] at hp
      split at hp
      · exact absurd (Option.some.inj hp).symm hne
      · exact ht.kind id path e hp he
  · rintro ⟨path, hp, hd⟩
    exact HasDir.write ⟨path, hp, hd⟩ ((register_getContractDir hname hid ht hp).trans hp.symm) rfl fun _ => rfl

/-- **An issue or an import** keeps the folders, and the contract it makes has its own. -/
theorem Outcome.tends (hname : T.NamesById) {made : Option (Contract H S)} {d₁ d₂ : StockpileFiles H S}
    (h : Outcome T d d' made d₁ d₂) : Tends T d d₁ ∧ ∀ c ∈ made, HasDir T d₁ c.contractId := by
  cases h with
  | stays => exact ⟨.refl d, fun c hc => by cases hc⟩
  | opened articles => exact ⟨opened_tends d articles, fun c hc => by cases hc⟩
  | @made f c hfile hid =>
    subst hfile
    refine ⟨(opened_tends d _).trans (register_tends hname hid _), fun c' hc' => ?_⟩
    cases hc'
    exact ⟨_, (getContractDir_register rfl hid _ _).trans (if_pos rfl), (isDir_write _ _ _ _).2 (by rw [if_pos rfl])⟩

/-- The file of an issuer is not the folder of a contract. -/
theorem getContractDir_ne_issuer {path name idStr : FileName} (hp : d.getContractDir T id = some path) :
    path ≠ dotted name idStr issuerExt := by
  obtain ⟨name', -, rfl⟩ := getContractDir_eq_some.1 hp
  intro he
  exact absurd (dotted_ext plain_contractExt (by decide : '.' ∉ issuerExt) he) (by decide)

theorem importIssuer_tends (d : StockpileFiles H S) (issuer : H.Issuer) : Tends T d (d.importIssuer T issuer).2 := by
  have hcases : (d.importIssuer T issuer).2 = d ∨ ∃ issuers, (d.importIssuer T issuer).2 = { d with
      dir := d.dir.write (dotted (T.codexName issuer) (T.codex (H.issuerCodex issuer)) issuerExt)
        ⟨.file, some issuer, none⟩
      issuers } := by
    unfold importIssuer
    dsimp only
    split
    · exact Or.inl rfl
    · split
      · exact Or.inl rfl
      · exact Or.inr ⟨_, rfl⟩
  rcases hcases with he | ⟨issuers, he⟩ <;> rw [he]
  · exact .refl d
  · refine fun ht => ⟨⟨fun f id name hd => ?_, ht.named, fun id path e hp he => ?_⟩, fun id hd => ?_⟩
    · rw [isDir_write] at hd
      split at hd
      · cases hd
      · exact ht.filed f id name hd
    · rw [UniqueMap.find_write, if_neg (getContractDir_ne_issuer (d := d) hp)] at he
      exact ht.kind id path e hp he
    · exact hd.write (d := d) rfl rfl fun hp => absurd rfl (getContractDir_ne_issuer hp)

/-- **A purge** keeps the directory tidy, and the folders of the other contracts. -/
theorem purge_tidy (hT : T.Lawful) (ht : Tidy T d) (id : ContractId) :
    Tidy T (d.purge T id).2 ∧ ∀ id' ≠ id, HasDir T d id' → HasDir T (d.purge T id).2 id' := by
  rcases purge_cases (T := T) d id with ⟨⟨e, he⟩, -⟩ | ⟨path, entry, hp, hf, -, ⟨e, -, he⟩ | ⟨-, he⟩⟩ <;> rw [he]
  · exact ⟨ht, fun _ _ h => h⟩
  · -- What is left of the folder is a folder.
    have hsame :
        SameFolders { d with dir := d.dir.write path { entry with contract := d.faults.leftover path } } d := by
      have hr := d.rewrite_same (T := T) id (d.faults.leftover path)
      rwa [show d.rewrite T id (d.faults.leftover path) = _ by simp only [rewrite, hp, hf]; rfl] at hr
    have hback := sameFolders_equivalence.symm hsame
    exact ⟨hback.tidy ht, fun _ _ hd => hback.hasDir hd⟩
  · have hfind : ∀ f e, (d.dir.remove path).find f = some e → f ≠ path ∧ d.dir.find f = some e := by
      intro f e hfe
      rw [UniqueMap.find_remove] at hfe
      split at hfe
      · cases hfe
      · rename_i hne
        exact ⟨hne, hfe⟩
    refine ⟨⟨fun f id name hd => ?_, ht.named, fun id path' e hp' he' => ?_⟩, fun id' hne hd => ?_⟩
    · obtain ⟨e, hfe, htype⟩ := hd
      exact ht.filed f id name ⟨e, (hfind f e hfe).2, htype⟩
    · exact ht.kind id path' e hp' (hfind path' e he').2
    · obtain ⟨path', hp', e, hfe, htype⟩ := hd
      have hpp : path' ≠ path := by
        rintro rfl
        exact hne (getContractDir_inj hT (ht.plainNames hT) hp' hp)
      exact ⟨path', hp', e, (UniqueMap.find_remove _ _ _).trans ((if_neg hpp).trans hfe), htype⟩

end StockpileFiles

namespace Contracts

open StockpileFiles

variable {H : Hypersonic} {S : RgbSeal} {T : Texts H} {W : Wire H S} {V : Verifier H S}
  {stockIo : FileError → H.StockError} {ledgers : H.Ledger → Except H.StockError H.Ledger}
  {s s' : Contracts (stockpileFiles T W V stockIo).toStockpile}

/-- A tidy directory, with a folder for each contract in memory. -/
structure Housed (s : Contracts (stockpileFiles T W V stockIo).toStockpile) : Prop where
  tidy : Tidy T s.persistence
  keys : (keys s.contracts).Nodup
  memory : ∀ id c, get s.contracts id = some c → HasDir T s.persistence id

theorem load_housed (hT : T.Lawful) {dir : UniqueMap FileName (Entry H S)} (h : Filed T dir) (consensus : Consensus)
    (testnet : Bool) : Housed (loadDir T W V stockIo consensus testnet dir) where
  tidy := load_tidy hT h consensus testnet
  keys := List.nodup_nil
  memory id c h := by cases h

/-! ## What one step preserves -/

theorem Housed.keep (h : s.Housed) {d : StockpileFiles H S} (hd : Tends T s.persistence d) :
    Housed (⟨s.contracts, d⟩ : Contracts (stockpileFiles T W V stockIo).toStockpile) where
  tidy := (hd h.tidy).1
  keys := h.keys
  memory id c hc := (hd h.tidy).2 id (h.memory id c hc)

/-- A contract with a folder is put into memory. -/
theorem Housed.upsert (h : s.Housed) {d : StockpileFiles H S} (hd : Tends T s.persistence d) {id : ContractId}
    (hid : HasDir T d id) (c : Contract H S) :
    Housed (⟨Tables.upsert s.contracts id c, d⟩ : Contracts (stockpileFiles T W V stockIo).toStockpile) where
  tidy := (hd h.tidy).1
  keys := nodup_upsert h.keys _ _
  memory id' c' hc' := by
    rw [get_upsert] at hc'
    split at hc'
    · rename_i he
      exact he ▸ hid
    · exact (h.keep hd).memory id' c' hc'

/-- What is served has a folder. -/
theorem Housed.hasDir (h : s.Housed) {id : ContractId} {c : Contract H S} (hc : s.served id = some c) :
    HasDir T s.persistence id := by
  rw [served, Option.or_eq_some_iff] at hc
  rcases hc with hc | ⟨-, hc⟩
  · exact h.memory id c hc
  · exact h.tidy.hasDir hc

theorem Housed.edit (h : s.Housed) (he : s.Edits s') : s'.Housed := by
  cases he with
  | @edit id c c' hc hr => exact h.upsert (Tends.refl _) (h.hasDir hc) c'

theorem Housed.edits (h : s.Housed) (he : Relation.ReflTransGen Edits s s') : s'.Housed := by
  induction he with
  | refl => exact h
  | tail _ he ih => exact ih.edit he

theorem Moves.housed (hA : H.ArticlesLaws) (hN : ∀ a l, H.new a = .ok l → H.ledgerId l = H.articlesId a)
    (hname : T.NamesById) (h : s.Housed) {call : Call W} (hn : s.Names call) (hm : s.Moves call s') : s'.Housed := by
  have hissue := fun params => (issue_outcome stockIo hA hN (sameFolders_equivalence.refl s.persistence)
    params).tends hname
  have himport := fun articles (consignment : W.Consignment) =>
    (import_outcome hA V (sameFolders_equivalence.refl s.persistence) articles consignment).tends hname
  cases hm with
  | edits he => exact h.edits he
  | issueFails hl hi => exact h.keep (hissue _).1
  | issued hl hi => exact h.upsert (hissue _).1 ((hissue _).2 _ (mem_toOption hi)) _
  | importFails hp hk hc ha hl hi => exact h.keep (himport _ _).1
  | imported hp hk hc ha hl hi =>
    have hmade := mem_toOption hi
    have hid := (Contract.withArticles_contractId (importContract_made hmade)).trans (hn rfl _ _ _ _ _ hp hk hc ha)
    exact h.upsert (himport _ _).1 (hid ▸ (himport _ _).2 _ hmade) _

theorem purge_housed (hT : T.Lawful) (h : s.Housed) (id : ContractId) : Housed
    (⟨erase s.contracts id, (s.persistence.purge T id).2⟩ : Contracts (stockpileFiles T W V stockIo).toStockpile) := by
  obtain ⟨ht, hd⟩ := purge_tidy hT h.tidy id
  refine ⟨ht, nodup_erase h.keys id, fun id' c hc => ?_⟩
  rw [get_erase] at hc
  split at hc
  · cases hc
  · rename_i hne
    exact hd id' hne (h.memory id' c hc)

/-- An import is of the contract its header names. -/
def ManagedNames (s : Contracts (stockpileFiles T W V stockIo).toStockpile) (faults : Faults H S) : ManagedCall W → Prop
  | .base call => (s.under (P := stockpileFiles T W V stockIo) faults).Names call
  | _ => True

/-- **Every call** keeps a folder for each contract in memory. -/
theorem manage_housed (hT : T.Lawful) (hA : H.ArticlesLaws)
    (hN : ∀ a l, H.new a = .ok l → H.ledgerId l = H.articlesId a) (hname : T.NamesById) (h : s.Housed)
    {faults : Faults H S} {call : ManagedCall W} (hn : s.ManagedNames faults call)
    (hs : s.manage (faults, call) = some s') : s'.Housed := by
  have h : Housed (s.under (P := stockpileFiles T W V stockIo) faults) :=
    ⟨⟨h.tidy.filed, h.tidy.named, h.tidy.kind⟩, h.keys, h.memory⟩
  cases manage_manages hs with
  | base hm => exact hm.housed hA hN hname h hn
  | importIssuer issuer => exact h.keep (importIssuer_tends _ issuer)
  | purge id => exact purge_housed hT h id
  | exported he => exact h.edits he
  | consign he => exact h.edit he

/-! ## What comes into memory -/

theorem edits_served (h : Relation.ReflTransGen Edits s s') {id : ContractId} {c : Contract H S}
    (hc : s'.served id = some c) : ∃ c, s.served id = some c := by
  induction h generalizing c with
  | refl => exact ⟨c, hc⟩
  | tail _ he ih =>
    cases he with
    | edit hserved hr =>
      rw [served_upsert] at hc
      split at hc
      · rename_i hid
        exact ih (hid ▸ hserved)
      · exact ih hc

theorem served_of_get {id : ContractId} {c : Contract H S} (hc : get s.contracts id = some c) :
    s.served id = some c := by
  rw [served, hc]
  rfl

/-- **What a call puts into memory** was served before, or is under its own id. -/
theorem manage_fresh {faults : Faults H S} {call : ManagedCall W} (hn : s.ManagedNames faults call)
    (hs : s.manage (faults, call) = some s') {id : ContractId} {c : Contract H S} (hc : get s'.contracts id = some c) :
    (∃ c, s.served id = some c) ∨ c.contractId = id := by
  cases manage_manages hs with
  | importIssuer issuer => exact Or.inl ⟨c, served_of_get hc⟩
  | purge id' =>
    rw [get_erase] at hc
    split at hc
    · cases hc
    · exact Or.inl ⟨c, served_of_get hc⟩
  | exported he => exact Or.inl (edits_served he (served_of_get hc))
  | consign he => exact Or.inl (edits_served (.single he) (served_of_get hc))
  | base hm =>
    cases hm with
    | edits he => exact Or.inl (edits_served he (served_of_get hc))
    | issueFails hl hi => exact Or.inl ⟨c, served_of_get hc⟩
    | importFails hp hk hcons ha hl hi => exact Or.inl ⟨c, served_of_get hc⟩
    | issued hl hi =>
      rw [get_upsert] at hc
      split at hc
      · rename_i he
        cases hc
        exact Or.inr he.symm
      · exact Or.inl ⟨c, served_of_get hc⟩
    | imported hp hk hcons ha hl hi =>
      rw [get_upsert] at hc
      split at hc
      · rename_i he
        cases hc
        have hid := Contract.withArticles_contractId (importContract_made (mem_toOption hi))
        exact Or.inr ((hid.trans (hn rfl _ _ _ _ _ hp hk hcons ha)).trans he.symm)
      · exact Or.inl ⟨c, served_of_get hc⟩

end Contracts

/-! ## Programs -/

/-- A running program: its contracts, and for those in memory the contracts in whose folders they were opened. -/
structure Program {H : Hypersonic} {S : RgbSeal} (T : Texts H) (W : Wire H S) (V : Verifier H S)
    (stockIo : FileError → H.StockError) where
  running : Contracts (stockpileFiles T W V stockIo).toStockpile
  opened : Table ContractId ContractId

namespace Program

open StockpileFiles

variable {H : Hypersonic} {S : RgbSeal} {T : Texts H} {W : Wire H S} {V : Verifier H S}
  {stockIo : FileError → H.StockError} {ledgers : H.Ledger → Except H.StockError H.Ledger}
  {s s' : Program T W V stockIo}

/-- `StockpileDir::load` and `Contracts::load`. -/
def load (T : Texts H) (W : Wire H S) (V : Verifier H S) (stockIo : FileError → H.StockError) (consensus : Consensus)
    (testnet : Bool) (dir : UniqueMap FileName (Entry H S)) : Program T W V stockIo :=
  ⟨.loadDir T W V stockIo consensus testnet dir, []⟩

/-- The next program: what is on disk is loaded. -/
def restart (ledgers : H.Ledger → Except H.StockError H.Ledger) (s : Program T W V stockIo) : Program T W V stockIo :=
  let d := disk T ledgers s.opened s.running.contracts s.running.persistence
  load T W V stockIo d.consensus d.testnet d.dir

/-- Where the contracts in memory were opened, after a call: one that was not listed is made by the call, in the folder
of its own id; one that was listed was opened before, or is now. -/
def openedBy (s : Program T W V stockIo) (contracts : Table ContractId (Contract H S)) : Table ContractId ContractId :=
  contracts.map fun (id, c) => (id, if s.running.hasContract id then (get s.opened id).getD id else c.contractId)

/-- A call, or the start of the next program; `none` is a panic. -/
def life (ledgers : H.Ledger → Except H.StockError H.Ledger) (s : Program T W V stockIo) :
    LifeCall W → Option (Program T W V stockIo)
  | .manage faults call => (s.running.manage (faults, call)).map fun s' => ⟨s', s.openedBy s'.contracts⟩
  | .restart => some (s.restart ledgers)

/-- An import is of the contract its header names. -/
def LifeNames (s : Program T W V stockIo) : LifeCall W → Prop
  | .manage faults call => s.running.ManagedNames faults call
  | .restart => True

/-- Contracts in memory were opened in the folders of the ids they are under. -/
def Home (s : Program T W V stockIo) : Prop := ∀ id id', get s.opened id = some id' → id' = id

/-- What is on disk is as tidy. -/
theorem disk_of_housed (hT : T.Lawful) (h : s.running.Housed) (hhome : s.Home)
    (ledgers : H.Ledger → Except H.StockError H.Ledger) :
    SameFolders (disk T ledgers s.opened s.running.contracts s.running.persistence) s.running.persistence ∧
      ∀ id, (disk T ledgers s.opened s.running.contracts s.running.persistence).contract T id =
        match get s.running.contracts id with
        | some c => (c.load ledgers).filter fun c => c.network = s.running.persistence.network
        | none => s.running.persistence.contract T id :=
  disk_spec hT ledgers hhome s.running.contracts s.running.persistence h.keys (h.tidy.plainNames hT) fun e he =>
    h.memory e.1 e.2 (get_eq_of_mem h.keys he)

/-- **Every step** keeps a folder for each contract in memory. -/
theorem life_housed (hT : T.Lawful) (hA : H.ArticlesLaws) (hN : ∀ a l, H.new a = .ok l → H.ledgerId l = H.articlesId a)
    (hname : T.NamesById) (h : s.running.Housed) (hhome : s.Home) {call : LifeCall W} (hn : s.LifeNames call)
    (hs : s.life ledgers call = some s') : s'.running.Housed := by
  cases call with
  | restart =>
    cases hs
    have ht := (sameFolders_equivalence.symm (disk_of_housed hT h hhome ledgers).1).tidy h.tidy
    exact Contracts.load_housed hT ht.filed _ _
  | manage faults call =>
    obtain ⟨running, hm, rfl⟩ := Option.map_eq_some_iff.1 hs
    exact Contracts.manage_housed hT hA hN hname h hn hm

/-- **Every step** leaves in memory what was opened in its own folder. -/
theorem life_home (h : s.running.Housed) (hhome : s.Home) (h' : s'.running.Housed) {call : LifeCall W}
    (hn : s.LifeNames call) (hs : s.life ledgers call = some s') : s'.Home := by
  cases call with
  | restart =>
    cases hs
    intro id id' hget
    cases hget
  | manage faults call =>
    obtain ⟨running, hm, rfl⟩ := Option.map_eq_some_iff.1 hs
    intro id id' hget
    obtain ⟨⟨_, c⟩, hmem, he⟩ := List.mem_map.1 (get_mem hget)
    obtain ⟨rfl, rfl⟩ := Prod.mk.inj he
    split
    · exact getD_home hhome _
    · rename_i hk
      rcases Contracts.manage_fresh hn hm (get_eq_of_mem h'.keys hmem) with ⟨_, hc⟩ | hid
      · exact absurd (h.hasDir hc).hasContract hk
      · exact hid

theorem life_isolated (hL : H.NetworkLaws) (h : Contracts.Isolated (P := stockpileFiles T W V stockIo) s.running)
    {call : LifeCall W} (hs : s.life ledgers call = some s') :
    Contracts.Isolated (P := stockpileFiles T W V stockIo) s'.running := by
  cases call with
  | restart =>
    cases hs
    exact Contracts.load_isolated (P := stockpileFiles T W V stockIo) _
  | manage faults call =>
    obtain ⟨running, hm, rfl⟩ := Option.map_eq_some_iff.1 hs
    exact Contracts.manage_isolated (stockpileFiles_guarded hL T W V stockIo) hL h hm

/-! ## What the next program serves -/

/-- The next program serves a known contract as it is on disk. -/
theorem restart_served (hT : T.Lawful) (hname : T.NamesById) (h : s.running.Housed) (hhome : s.Home) {id : ContractId}
    (hk : s.running.hasContract id = true) : (s.restart ledgers).running.served id =
      match get s.running.contracts id with
      | some c => (c.load ledgers).filter fun c => c.network = s.running.persistence.network
      | none => s.running.persistence.contract T id := by
  obtain ⟨hsame, hdisk⟩ := disk_of_housed hT h hhome ledgers
  have ht := (sameFolders_equivalence.symm hsame).tidy h.tidy
  have hk : (disk T ledgers s.opened s.running.contracts s.running.persistence).hasContract id = true := by
    rw [StockpileFiles.hasContract, hsame.contracts]
    exact hk
  exact (load_contract hname hT ht hk).trans (hdisk id)

/-- **A program that is started again** serves the contracts the one before knew as it served them, exactly if each
contract in memory is what is on disk of it: in every run of calls of any kind and further starts, where each import is
of the contract its header names. -/
theorem run_restarts (hT : T.Lawful) (hL : H.NetworkLaws)
    (hN : ∀ a l, H.new a = .ok l → H.ledgerId l = H.articlesId a) (hname : T.NamesById)
    (ledgers : H.Ledger → Except H.StockError H.Ledger) (consensus : Consensus) (testnet : Bool)
    (dir : UniqueMap FileName (Entry H S)) (hdir : Filed T dir) (calls : List (LifeCall W))
    (states : List (Program T W V stockIo))
    (hn : Runs.Along (life ledgers) LifeNames (load T W V stockIo consensus testnet dir) calls)
    (h : Runs.run (life ledgers) (load T W V stockIo consensus testnet dir) calls = some states) :
    ∀ s ∈ states,
      (∀ id, s.running.hasContract id = true → (s.restart ledgers).running.served id = s.running.served id) ↔
        ∀ id c, get s.running.contracts id = some c → c.load ledgers = some c := by
  let Inv := fun s : Program T W V stockIo =>
    (s.running.Housed ∧ s.Home) ∧ Contracts.Isolated (P := stockpileFiles T W V stockIo) s.running
  have hstep : ∀ s call s', Inv s → s.LifeNames call → s.life ledgers call = some s' → Inv s' := by
    rintro s call s' ⟨⟨hh, hhome⟩, hI⟩ hn hs
    have hh' : s'.running.Housed := life_housed hT hL.toArticlesLaws hN hname hh hhome hn hs
    exact ⟨⟨hh', life_home hh hhome hh' hn hs⟩, life_isolated hL hI hs⟩
  have hinit : Inv (load T W V stockIo consensus testnet dir) :=
    ⟨⟨Contracts.load_housed hT hdir consensus testnet, fun id id' hget => by cases hget⟩,
      Contracts.load_isolated (P := stockpileFiles T W V stockIo) _⟩
  intro s hs
  obtain ⟨⟨hh, hhome⟩, hI⟩ := Runs.run_inv hstep calls _ states hinit hn h s hs
  constructor
  · intro hserved id c hc
    have hk := (hh.memory id c hc).hasContract
    have hsame := hserved id hk
    rw [restart_served hT hname hh hhome hk, Contracts.served, hc] at hsame
    exact (Option.filter_eq_some_iff.1 hsame).1
  · intro hsaved id hk
    rw [restart_served hT hname hh hhome hk, Contracts.served]
    cases hc : get s.running.contracts id with
    | none => rfl
    | some c =>
      exact Option.filter_eq_some_iff.2 ⟨hsaved id c hc, decide_eq_true (hI id c hc)⟩

end Program

/-! ## An import, and two more programs -/

namespace Folders

/-- The reference texts, with one name for all contracts. -/
@[reducible] def oneName : Texts metaSonic := { metaTexts with name := fun _ => "Contract".toList }

theorem oneName_lawful : oneName.Lawful where
  contractOf_contract := refTexts_lawful.contractOf_contract
  codexOf_codex := refTexts_lawful.codexOf_codex
  name_plain _ := (by decide : '.' ∉ "Contract".toList)

/-- An import; the next program asks for the contract; the program after that. -/
def programs : List (LifeCall metaWire) :=
  [.manage .none (.base (.consume true Stream.named noSeals Stream.validator)), .restart,
    .manage .none (.base (.contractState Stream.id)), .restart]

end Folders

/-- The contract that was imported is served by each program. -/
theorem run_restarts_import : ∃ states, Runs.run (Program.life Folders.ledgers)
      (.load Folders.oneName metaWire metaVerifier (fun _ => ()) .bitcoin true .empty) Folders.programs = some states ∧
    states.length = 4 ∧ ∀ s ∈ states, s.running.hasContract Stream.id = true ∧
      ∀ id, s.running.hasContract id = true → (s.restart Folders.ledgers).running.served id = s.running.served id := by
  obtain ⟨states, hs, hl⟩ : ∃ states, Runs.run (Program.life Folders.ledgers)
      (.load Folders.oneName metaWire metaVerifier (fun _ => ()) .bitcoin true .empty) Folders.programs = some states ∧
      states.length = 4 := ⟨_, rfl, rfl⟩
  refine ⟨states, hs, hl, fun s hm => ?_⟩
  have hiff := Program.run_restarts (W := metaWire) (V := metaVerifier) Folders.oneName_lawful
    metaSonic_networkLaws refSonic_new_ledgerId (fun _ _ _ => rfl) Folders.ledgers .bitcoin true .empty
    (fun f id name hd => by obtain ⟨e, he, -⟩ := hd; cases he) Folders.programs states ?_ hs s hm
  · cases hs
    have hsaved : (∀ id c, get s.running.contracts id = some c → c.load Folders.ledgers = some c) ∧
        s.running.hasContract Stream.id = true := by
      simp only [List.mem_cons, List.not_mem_nil, or_false] at hm
      rcases hm with rfl | rfl | rfl | rfl
      · refine ⟨fun id c hc => ?_, rfl⟩
        obtain ⟨rfl, rfl⟩ := Prod.mk.inj (List.mem_singleton.1 (get_mem hc))
        rfl
      · exact ⟨fun id c hc => (by cases hc), rfl⟩
      · refine ⟨fun id c hc => ?_, rfl⟩
        obtain ⟨rfl, rfl⟩ := Prod.mk.inj (List.mem_singleton.1 (get_mem hc))
        rfl
      · exact ⟨fun id c hc => (by cases hc), rfl⟩
    exact ⟨hsaved.2, hiff.2 hsaved.1⟩
  · refine ⟨?_, fun s hs => ⟨trivial, fun s hs => ⟨trivial, fun s hs => ⟨trivial, fun s hs => trivial⟩⟩⟩⟩
    intro _ id stream consignment rest articles hp hk hc ha
    cases hp
    cases hc
    cases ha
    rfl

end RgbStd
