import RgbStd.Stockpile.Index
import RgbStd.Stockpile.Storage
/-!
# Listed contracts and served contracts (contracts.rs:109-126, 303-320)

A contract is listed by the name of its folder, and served if its articles are of the network of the
storage and its folder is still there.

* `WellFormed`, `OfNetwork`: what a directory may hold, and what it has to.
* `Unfailing`: the listed contracts are served, and no call on them ends with "Contract not found".
* `load_serves_iff`: a loaded directory serves what it lists if its folders are of its network.
* `serves_purge_iff`: a purge keeps it so if it spares the folder.
* `unfailing_iff`: a run is unfailing if and only if both hold.
-/
namespace RgbStd
open Tables Names Decode

namespace Contracts

variable {H : Hypersonic} {S : RgbSeal} {W : Wire H S} {V : Verifier H S} {P : Stockpile W V}

/-- Every listed contract is served, and the panic of `with_contract` is not reached. -/
structure Unfailing (s : Contracts P) : Prop where
  served : ∀ id ∈ s.contractIds, ∃ c, P.contract s.persistence id = some c
  state : ∀ id ∈ s.contractIds, s.contractState id ≠ none
  sync : ∀ changed, s.sync changed ≠ none
  consume : ∀ allowUnknown reader resolver sigValidator, s.consume allowUnknown reader resolver sigValidator ≠ none

theorem served_of_contract {s : Contracts P} {id : ContractId} {c : Contract H S}
    (h : P.contract s.persistence id = some c) : ∃ c, s.served id = some c := by
  rw [served, h]
  cases get s.contracts id with
  | none => exact ⟨c, rfl⟩
  | some c' => exact ⟨c', rfl⟩

theorem withContractMut_some {R : Type} {s : Contracts P} {id : ContractId} {c : Contract H S}
    (h : P.contract s.persistence id = some c) (f : Contract H S → R × Contract H S) :
    ∃ r s', s.withContractMut id f = some (r, s') := by
  obtain ⟨c', hc⟩ := served_of_contract h
  exact ⟨_, _, by rw [withContractMut, hc]⟩

theorem syncFrom_ne_none (changed : List (S.WitnessId × WitnessStatus)) (ids : List ContractId) :
    ∀ s : Contracts P, (∀ id ∈ ids, ∃ c, P.contract s.persistence id = some c) → syncFrom changed ids s ≠ none := by
  induction ids with
  | nil => exact fun _ _ h => (by cases h)
  | cons id ids ih =>
    intro s h
    obtain ⟨c, hc⟩ := h id List.mem_cons_self
    obtain ⟨r, s', hw⟩ := withContractMut_some hc fun c => c.sync changed
    have hrest : ∀ id ∈ ids, ∃ c, P.contract s'.persistence id = some c := by
      rw [withContractMut_persistence hw]
      exact fun id hid => h id (List.mem_cons_of_mem _ hid)
    simp only [syncFrom, hw]
    cases r with
    | error e => exact fun he => (by cases he)
    | ok u => exact ih s' hrest

theorem consume_ne_none {s : Contracts P} (h : ∀ id, s.hasContract id = true → ∃ c, P.contract s.persistence id = some c)
    (allowUnknown : Bool) (reader : Bytes) (resolver : SealResolver H S) (sigValidator : W.Validator) :
    s.consume allowUnknown reader resolver sigValidator ≠ none := by
  unfold consume
  split
  · exact fun he => (by cases he)
  · rename_i id stream _
    split
    · split
      · split
        · exact fun he => (by cases he)
        · split
          · exact fun he => (by cases he)
          · split
            · exact fun he => (by cases he)
            · split <;> exact fun he => (by cases he)
      · exact fun he => (by cases he)
    · rename_i hk
      obtain ⟨c, hc⟩ := h id (by simpa using hk)
      obtain ⟨r, s', hw⟩ := withContractMut_some hc fun c => c.consumeInternal W V stream resolver sigValidator
      rw [hw]
      exact fun he => (by cases he)

/-- **Serving what is listed** is all it takes. -/
theorem unfailing_iff_served {s : Contracts P} (hids : ∀ id, s.hasContract id = true → id ∈ s.contractIds) :
    s.Unfailing ↔ ∀ id ∈ s.contractIds, ∃ c, P.contract s.persistence id = some c := by
  constructor
  · exact fun h => h.served
  · intro h
    refine ⟨h, fun id hid => ?_, fun changed => syncFrom_ne_none changed _ s h,
      consume_ne_none fun id hk => h id (hids id hk)⟩
    obtain ⟨c, hc⟩ := h id hid
    unfold contractState withContract
    split
    · exact fun he => (by cases he)
    · rw [hc]
      exact fun he => (by cases he)

end Contracts

namespace StockpileFiles

variable {H : Hypersonic} {S : RgbSeal} {T : Texts H} {W : Wire H S} {V : Verifier H S}

def Serves (T : Texts H) (d : StockpileFiles H S) : Prop :=
  ∀ id, d.hasContract id = true → ∃ c, d.contract T id = some c

/-! ## A loaded directory -/

/-- A contract folder holds a contract and has the name of its articles, and no contract has two. -/
structure WellFormed (T : Texts H) (dir : UniqueMap FileName (Entry H S)) : Prop where
  holds : ∀ f e id name, dir.find f = some e → e.fileType = .dir → folderName T f = some (id, name) →
    ∃ c, e.contract = some c ∧ f = articlesDir T (H.articles c.ledger)
  unique : ∀ f f' id name name', IsDir dir f → IsDir dir f' → folderName T f = some (id, name) →
    folderName T f' = some (id, name') → f = f'

/-- The contracts in the contract folders are of one network. -/
def OfNetwork (T : Texts H) (n : Consensus × Bool) (dir : UniqueMap FileName (Entry H S)) : Prop :=
  ∀ f e id name c, dir.find f = some e → e.fileType = .dir → folderName T f = some (id, name) → e.contract = some c →
    c.network = n

/-- The folder of a contract is where the loaded directory looks for it. -/
theorem load_getContractDir (hT : T.Lawful) {dir : UniqueMap FileName (Entry H S)} (hwf : WellFormed T dir)
    (consensus : Consensus) (testnet : Bool) {f : FileName} {e : Entry H S} {id : ContractId} {name : FileName}
    (he : dir.find f = some e) (hdir : e.fileType = .dir) (hf : folderName T f = some (id, name)) :
    (load T consensus testnet dir).getContractDir T id = some f := by
  have hknown : (load T consensus testnet dir).hasContract id = true :=
    (load_hasContract _ _ _ _).2 ⟨f, name, ⟨e, he, hdir⟩, hf⟩
  obtain ⟨name', hn⟩ := has_iff.1 hknown
  obtain ⟨f', hd', hf'⟩ := get_load_contracts hn
  obtain rfl := hwf.unique f f' id name name' ⟨e, he, hdir⟩ hd' hf hf'
  obtain ⟨c, -, hc⟩ := hwf.holds f e id name he hdir hf
  have ha := folderName_articlesDir hT (H.articles c.ledger)
  rw [← hc, hf'] at ha
  obtain ⟨rfl, rfl⟩ := Prod.mk.inj (Option.some.inj ha)
  exact getContractDir_eq_some.2 ⟨_, hn, hc⟩

/-- **A loaded directory** serves what it lists if and only if its folders are of its network. -/
theorem load_serves_iff (hT : T.Lawful) {dir : UniqueMap FileName (Entry H S)} (hwf : WellFormed T dir)
    (consensus : Consensus) (testnet : Bool) :
    Serves T (load T consensus testnet dir) ↔ OfNetwork T (consensus, testnet) dir := by
  constructor
  · intro hs f e id name c he hdir hf hc
    obtain ⟨c', hc'⟩ := hs id ((load_hasContract _ _ _ _).2 ⟨f, name, ⟨e, he, hdir⟩, hf⟩)
    obtain ⟨path, entry, hpath, hentry, hec, hn⟩ := contract_eq_some.1 hc'
    rw [load_getContractDir hT hwf consensus testnet he hdir hf] at hpath
    cases hpath
    obtain rfl : e = entry := Option.some.inj (he.symm.trans hentry)
    obtain rfl : c = c' := Option.some.inj (hc.symm.trans hec)
    exact hn
  · intro hn id hk
    obtain ⟨f, name, ⟨e, he, hdir⟩, hf⟩ := (load_hasContract _ _ _ _).1 hk
    obtain ⟨c, hc, -⟩ := hwf.holds f e id name he hdir hf
    exact ⟨c, contract_eq_some.2 ⟨f, e, load_getContractDir hT hwf consensus testnet he hdir hf, he, hc,
      hn f e id name c he hdir hf hc⟩⟩

/-! ## What the calls preserve -/

/-- Something under the path is served. -/
def Holds (d : StockpileFiles H S) (path : FileName) : Prop :=
  ∃ entry c, d.dir.find path = some entry ∧ entry.contract = some c ∧ c.network = d.network

theorem serves_iff_holds {d : StockpileFiles H S} :
    Serves T d ↔ ∀ id path, d.getContractDir T id = some path → Holds d path := by
  constructor
  · intro hs id path hp
    obtain ⟨name, hn, -⟩ := getContractDir_eq_some.1 hp
    obtain ⟨c, hc⟩ := hs id (has_iff.2 ⟨name, hn⟩)
    obtain ⟨path', entry, hp', he, hec, hnet⟩ := contract_eq_some.1 hc
    rw [hp] at hp'
    cases hp'
    exact ⟨entry, c, he, hec, hnet⟩
  · intro hs id hk
    obtain ⟨name, hn⟩ := has_iff.1 hk
    have hp := getContractDir_eq_some (T := T).2 ⟨name, hn, rfl⟩
    obtain ⟨entry, c, he, hec, hnet⟩ := hs id _ hp
    exact ⟨c, contract_eq_some.2 ⟨_, entry, hp, he, hec, hnet⟩⟩

/-- What is written under another path does not matter. -/
theorem Holds.write {d : StockpileFiles H S} {path : FileName} (h : Holds d path) {f : FileName} (hne : path ≠ f)
    (e : Entry H S) : Holds { d with dir := d.dir.write f e } path := by
  obtain ⟨entry, c, he, hc, hn⟩ := h
  refine ⟨entry, c, ?_, hc, hn⟩
  rw [UniqueMap.find_write, if_neg hne]
  exact he

/-- A path where something is served is not free. -/
theorem Holds.ne_free {d : StockpileFiles H S} {path f : FileName} (h : Holds d path) (hf : d.dir.find f = none) :
    path ≠ f := by
  obtain ⟨entry, _, he, _⟩ := h
  rintro rfl
  rw [hf] at he
  cases he

theorem serves_opened {d : StockpileFiles H S} (h : Serves T d) {path : FileName} (hfree : d.dir.find path = none) :
    Serves T (d.opened path) := by
  rw [serves_iff_holds] at h ⊢
  intro id path' hp
  have hh := h id path' hp
  exact hh.write (hh.ne_free hfree) _

/-- A contract completed in the folder of its articles. -/
theorem serves_register {d : StockpileFiles H S} (h : Serves T d) {c : Contract H S}
    (hfree : d.dir.find (articlesDir T (H.articles c.ledger)) = none)
    (hid : c.contractId = H.articlesId (H.articles c.ledger)) (hn : c.network = d.network) :
    Serves T ((d.opened (articlesDir T (H.articles c.ledger))).register T (articlesDir T (H.articles c.ledger)) c) := by
  rw [serves_iff_holds] at h ⊢
  intro id path hp
  obtain ⟨name, hname, rfl⟩ := getContractDir_eq_some.1 hp
  by_cases hnew : id = c.contractId
  · subst hnew
    obtain rfl : T.name (H.articlesName (H.articles c.ledger)) = name := by
      rw [register, get_upsert_self] at hname
      exact Option.some.inj hname
    refine ⟨⟨.dir, none, some c⟩, c, ?_, rfl, hn⟩
    show UniqueMap.find (UniqueMap.write _ _ _) _ = _
    rw [hid, UniqueMap.find_write]
    exact if_pos rfl
  · rw [register, get_upsert_ne _ _ hnew] at hname
    have hh := h id _ (getContractDir_eq_some.2 ⟨name, hname, rfl⟩)
    have hne := hh.ne_free hfree
    exact (hh.write hne _).write hne _

theorem serves_importContract (hA : H.ArticlesLaws) {d : StockpileFiles H S} (h : Serves T d) {articles : H.Articles}
    (hn : Hypersonic.network articles = d.network) (consignment : W.Consignment) :
    Serves T (d.importContract T W V articles consignment).2 := by
  rcases importContract_cases (T := T) V d articles consignment with ⟨-, e, he⟩ | ⟨hc, ⟨e, he⟩ | ⟨c, hw, he⟩⟩
  · rw [he]
    exact h
  · rw [he]
    exact serves_opened h hc.free
  · rw [he]
    obtain rfl := Contract.withArticles_articles hA hw
    exact serves_register h hc.free (Contract.withArticles_contractId hw) hn

theorem serves_issue (hA : H.ArticlesLaws) (hN : ∀ a l, H.new a = .ok l → H.ledgerId l = H.articlesId a)
    {stockIo : FileError → H.StockError} {d : StockpileFiles H S} (h : Serves T d) {params : CreateParams H S}
    (hn : ∀ schema, Hypersonic.network (issued schema params) = d.network) : Serves T (d.issue T stockIo params).2 := by
  rcases issue_cases (T := T) stockIo d params with
    ⟨-, e, he⟩ | ⟨schema, hi, he | ⟨e, he⟩ | ⟨c, hl, hid, he⟩⟩
  · rw [he]
    exact h
  · rw [he]
    exact h
  · rw [he]
    exact serves_opened h hi.creatable.free
  · rw [he]
    have ha := hA.new _ _ hl
    have hfree := hi.creatable.free
    rw [← ha] at hfree ⊢
    refine serves_register h hfree (hid.trans ?_) ((congrArg Hypersonic.network ha).trans (hn schema))
    rw [hN _ _ hl, ha]

theorem serves_importIssuer {d : StockpileFiles H S} (h : Serves T d) (issuer : H.Issuer) :
    Serves T (d.importIssuer T issuer).2 := by
  unfold importIssuer
  dsimp only
  split
  · exact h
  · split
    · exact h
    · rw [serves_iff_holds] at h ⊢
      intro id path hp
      obtain ⟨name, _, hpath⟩ := getContractDir_eq_some.1 hp
      refine (h id path hp).write ?_ _
      rw [hpath]
      intro he
      have hext := dotted_ext plain_contractExt (by decide) he
      revert hext
      decide

/-- The purge has no folder to remove, or its removal fails and leaves a contract of the network. -/
def Spared (T : Texts H) (d : StockpileFiles H S) (id : ContractId) : Prop :=
  ∀ path entry, d.getContractDir T id = some path → d.dir.find path = some entry → entry.fileType ≠ .file →
    d.faults.remove path ≠ none ∧ ∃ c, d.faults.leftover path = some c ∧ c.network = d.network

/-- **A purge** keeps what is listed served if and only if it spares the folder. -/
theorem serves_purge_iff {d : StockpileFiles H S} (h : Serves T d) (id : ContractId) :
    Serves T (d.purge T id).2 ↔ Spared T d id := by
  rcases purge_cases (T := T) d id with ⟨⟨e, he⟩, hfile⟩ | ⟨path, entry, hp, hf, hdir, ⟨e, hr, he⟩ | ⟨hr, he⟩⟩
  · rw [he]
    exact iff_of_true h fun path entry hp hf hne => absurd (hfile path entry hp hf) hne
  · rw [he]
    constructor
    · intro hs path' entry' hp' hf' _
      rw [hp] at hp'
      cases hp'
      refine ⟨by rw [hr]; exact fun he => (by cases he), ?_⟩
      obtain ⟨entry₁, c, he₁, hc, hn⟩ := serves_iff_holds.1 hs id path hp
      rw [UniqueMap.find_write, if_pos rfl] at he₁
      cases he₁
      exact ⟨c, hc, hn⟩
    · intro hsp
      obtain ⟨-, c, hc, hn⟩ := hsp path entry hp hf hdir
      refine serves_iff_holds.2 fun id' path' hp' => ?_
      by_cases hpath : path' = path
      · subst hpath
        exact ⟨_, c, by rw [UniqueMap.find_write, if_pos rfl], hc, hn⟩
      · exact (serves_iff_holds.1 h id' path' hp').write hpath _
  · rw [he]
    refine iff_of_false (fun hs => ?_) fun hsp => (hsp path entry hp hf hdir).1 hr
    obtain ⟨entry₁, _, he₁, _⟩ := serves_iff_holds.1 hs id path hp
    rw [UniqueMap.find_remove, if_pos rfl] at he₁
    cases he₁

end StockpileFiles

/-! ## Runs -/

namespace Contracts

variable {H : Hypersonic} {S : RgbSeal} {T : Texts H} {W : Wire H S} {V : Verifier H S}
  {stockIo : FileError → H.StockError}

open StockpileFiles

/-- A purge spares the folder; every other call is free. -/
def Spares (s : Contracts (stockpileFiles T W V stockIo).toStockpile) (call : Faults H S × ManagedCall W) : Prop :=
  ∀ id, call.2 = .purge id → Spared T (s.under call.1).persistence id

theorem Moves.serves (hA : H.ArticlesLaws) (hI : ∀ i p, Hypersonic.network (H.issue i p) = (p.consensus, p.testnet))
    (hN : ∀ a l, H.new a = .ok l → H.ledgerId l = H.articlesId a)
    {s s' : Contracts (stockpileFiles T W V stockIo).toStockpile} (h : Serves T s.persistence) {call : Call W}
    (hm : s.Moves call s') : Serves T s'.persistence := by
  rcases hm.stores with hk | ⟨params, hn, hi⟩ | ⟨articles, consignment, hn, hi⟩
  · rw [hk]
    exact h
  · rw [hi]
    exact serves_issue hA hN h fun schema => (hI schema _).trans hn
  · rw [hi]
    exact serves_importContract hA h hn consignment

/-- **A call** keeps what is listed served if and only if it is no purge that removes a folder. -/
theorem manage_serves_iff (hA : H.ArticlesLaws)
    (hI : ∀ i p, Hypersonic.network (H.issue i p) = (p.consensus, p.testnet))
    (hN : ∀ a l, H.new a = .ok l → H.ledgerId l = H.articlesId a)
    {s s' : Contracts (stockpileFiles T W V stockIo).toStockpile} (h : Serves T s.persistence)
    {call : Faults H S × ManagedCall W} (hs : s.manage call = some s') : Serves T s'.persistence ↔ s.Spares call := by
  obtain ⟨faults, call⟩ := call
  have h : Serves T (s.under faults).persistence := h
  cases manage_manages hs with
  | base hm => exact iff_of_true (hm.serves hA hI hN h) fun id he => (by cases he)
  | importIssuer issuer => exact iff_of_true (serves_importIssuer h issuer) fun id he => (by cases he)
  | purge id =>
    refine (serves_purge_iff h id).trans ⟨fun hsp id' he => ?_, fun hsp => hsp id rfl⟩
    cases he
    exact hsp
  | exported he =>
    refine iff_of_true ?_ fun id he => (by cases he)
    rw [edits_persistence he]
    exact h
  | consign he =>
    refine iff_of_true ?_ fun id he => (by cases he)
    rw [edits_persistence (.single he)]
    exact h

theorem unfailing_iff_serves {s : Contracts (stockpileFiles T W V stockIo).toStockpile} :
    s.Unfailing ↔ Serves T s.persistence := by
  have hids : ∀ id, id ∈ s.contractIds ↔ s.hasContract id = true := fun id => mem_contractIds (d := s.persistence)
  rw [unfailing_iff_served fun id hk => (hids id).2 hk]
  exact forall_congr' fun id => imp_congr_left (hids id)

/-- **Every listed contract is served** in every state of a run over a loaded directory, and no call ends
with "Contract not found", if and only if the folders are of its network and every purge spares its own. -/
theorem unfailing_iff (hT : T.Lawful) (hA : H.ArticlesLaws)
    (hI : ∀ i p, Hypersonic.network (H.issue i p) = (p.consensus, p.testnet))
    (hN : ∀ a l, H.new a = .ok l → H.ledgerId l = H.articlesId a) (stockIo : FileError → H.StockError)
    (consensus : Consensus) (testnet : Bool) (dir : UniqueMap FileName (Entry H S)) (hwf : WellFormed T dir)
    (calls : List (Faults H S × ManagedCall W)) (states : List (Contracts (stockpileFiles T W V stockIo).toStockpile))
    (h : Runs.run manage (loadDir T W V stockIo consensus testnet dir) calls = some states) :
    (∀ s ∈ loadDir T W V stockIo consensus testnet dir :: states, s.Unfailing) ↔
      OfNetwork T (consensus, testnet) dir ∧
        Runs.Along manage Spares (loadDir T W V stockIo consensus testnet dir) calls := by
  simp only [unfailing_iff_serves, List.forall_mem_cons]
  have hload : Serves T (loadDir T W V stockIo consensus testnet dir).persistence ↔ OfNetwork T (consensus, testnet) dir :=
    load_serves_iff hT hwf consensus testnet
  rw [hload]
  refine and_congr_right fun hn => ?_
  have hstep : ∀ (s : Contracts (stockpileFiles T W V stockIo).toStockpile) call s', Serves T s.persistence → True →
      manage s call = some s' → (Serves T s'.persistence ↔ s.Spares call) :=
    fun s call s' hs _ hm => manage_serves_iff hA hI hN hs hm
  exact Runs.run_inv_iff hstep calls _ states (hload.2 hn) (fun _ _ => trivial) h

end Contracts

/-! ## A directory of one contract -/

namespace Folders

theorem wellFormed_dir : StockpileFiles.WellFormed refTexts dir where
  holds f e id name he _ _ := by
    rw [dir, UniqueMap.find_write] at he
    split at he
    · rename_i hf
      cases he
      exact ⟨Stream.contract, rfl, hf⟩
    · cases he
  unique f f' id name name' hf hf' _ _ := by
    have hone : ∀ f, StockpileFiles.IsDir dir f → f = folder := by
      rintro f ⟨e, he, -⟩
      rw [dir, UniqueMap.find_write] at he
      split at he
      · assumption
      · cases he
    rw [hone f hf, hone f' hf']

theorem ofNetwork_dir : StockpileFiles.OfNetwork refTexts (.bitcoin, true) dir := by
  intro f e id name c he _ _ hc
  rw [dir, UniqueMap.find_write] at he
  split at he
  · cases he
    cases hc
    rfl
  · cases he

end Folders

/-- Without purges the contract stays served. -/
theorem unfailing_sync : ∃ states,
    Runs.run Contracts.manage (Contracts.loadDir refTexts refWire refVerifier Folders.stockIo .bitcoin true Folders.dir)
      [(.none, .base (.sync [])), (.none, .base (.contractState Stream.id))] = some states ∧ ∀ s ∈ states, s.Unfailing := by
  obtain ⟨states, h⟩ : ∃ states, Runs.run Contracts.manage
      (Contracts.loadDir refTexts refWire refVerifier Folders.stockIo .bitcoin true Folders.dir)
      [(.none, .base (.sync [])), (.none, .base (.contractState Stream.id))] = some states := ⟨_, rfl⟩
  refine ⟨states, h, fun s hs => (Contracts.unfailing_iff refTexts_lawful refSonic_articlesLaws (fun _ _ => rfl)
    refSonic_new_ledgerId _ _ _ _ Folders.wellFormed_dir _ _ h).2 ⟨Folders.ofNetwork_dir, ?_⟩ s
    (List.mem_cons_of_mem _ hs)⟩
  refine Runs.along_of_forall (fun s call hcall id he => ?_) _
  rcases List.mem_cons.1 hcall with rfl | hcall
  · cases he
  · cases List.mem_singleton.1 hcall
    cases he

/-- A testnet contract in the directory of a wallet on Liquid is listed and not served. -/
theorem unfailing_otherNetwork :
    ¬∀ (H : Hypersonic) (S : RgbSeal) (T : Texts H) (W : Wire H S) (V : Verifier H S), T.Lawful → H.ArticlesLaws →
      (∀ i p, Hypersonic.network (H.issue i p) = (p.consensus, p.testnet)) →
      (∀ a l, H.new a = .ok l → H.ledgerId l = H.articlesId a) →
      ∀ stockIo consensus testnet dir, StockpileFiles.WellFormed T dir →
      ∀ (calls : List (Faults H S × ManagedCall W)) states,
      Runs.run Contracts.manage (Contracts.loadDir T W V stockIo consensus testnet dir) calls = some states →
      ∀ s ∈ Contracts.loadDir T W V stockIo consensus testnet dir :: states, s.Unfailing := by
  intro h
  have hs := h refSonic refSeal refTexts refWire refVerifier refTexts_lawful refSonic_articlesLaws (fun _ _ => rfl)
    refSonic_new_ledgerId Folders.stockIo .liquid true Folders.dir Folders.wellFormed_dir [] [] rfl _ List.mem_cons_self
  obtain ⟨c, hc⟩ := hs.served Stream.id (by decide)
  cases hc

end RgbStd
