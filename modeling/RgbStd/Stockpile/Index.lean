import RgbStd.Lib.Runs
import RgbStd.Stockpile.Files
/-!
# The index of a directory and the directory (stockpile.rs:173-218)

`issue` and `import_contract` change the directory and then the map of known contracts, `purge` removes
the folder only.

* `Indexed`: the map names the contracts a fresh load would find.
* `issue_indexed`, `importContract_indexed`: a completed contract keeps it so.
* `purge_known`: after a purge the contract is known as before.
* `indexed_iff`: a run agrees with its directory, and has forgotten what it purged, if and only if it
  purges nothing.
-/
namespace RgbStd
open Tables Names

namespace StockpileFiles

variable {H : Hypersonic} {S : RgbSeal} {T : Texts H} {W : Wire H S} {V : Verifier H S}

/-- The known contracts are the ones a fresh `load` of the directory reports. -/
def Indexed (T : Texts H) (d : StockpileFiles H S) : Prop :=
  ∀ id, d.hasContract id = (load T d.consensus d.testnet d.dir).hasContract id

theorem mem_contractIds {d : StockpileFiles H S} {id : ContractId} : id ∈ d.contractIds ↔ d.hasContract id = true :=
  has_iff_mem_keys.symm

/-- The contract is unknown and its folder can be made again. -/
def Forgotten (T : Texts H) (d : StockpileFiles H S) (id : ContractId) : Prop :=
  d.hasContract id = false ∧ ∀ articles, H.articlesId articles = id →
    (d.createContractDir T articles).1 ≠ .error ⟨.alreadyExists, "Contract already exists"⟩

theorem indexed_iff_lists {d : StockpileFiles H S} :
    Indexed T d ↔ ∀ id, d.hasContract id = true ↔ Lists T d.dir id := by
  refine forall_congr' fun id => ?_
  rw [← load_hasContract d.consensus d.testnet, Bool.eq_iff_iff]

theorem load_indexed (consensus : Consensus) (testnet : Bool) (dir : UniqueMap FileName (Entry H S)) :
    Indexed T (load T consensus testnet dir) :=
  fun _ => rfl

/-! ## One call -/

/-- A contract completed in the folder of its articles. -/
theorem register_indexed (hT : T.Lawful) {d : StockpileFiles H S} (h : Indexed T d) {articles : H.Articles}
    {c : Contract H S} (hid : c.contractId = H.articlesId articles) :
    Indexed T ((d.opened (articlesDir T articles)).register T (articlesDir T articles) c) := by
  rw [indexed_iff_lists] at h ⊢
  intro id
  have hf := folderName_articlesDir hT articles
  have hknown : ((d.opened (articlesDir T articles)).register T (articlesDir T articles) c).hasContract id = true ↔
      id = c.contractId ∨ d.hasContract id = true := by
    rw [hasContract, register, has_upsert, Bool.or_eq_true, decide_eq_true_eq]
    rfl
  rw [hknown, h]
  show _ ↔ Lists T ((d.dir.write _ _).write _ _) id
  rw [lists_write rfl hf, lists_write rfl hf, hid, or_self_left]

theorem importContract_indexed (hT : T.Lawful) {d d' : StockpileFiles H S} (h : Indexed T d) {articles : H.Articles}
    {consignment : W.Consignment} {c : Contract H S} (hi : d.importContract T W V articles consignment = (.ok c, d')) :
    Indexed T d' := by
  obtain ⟨-, hw, rfl⟩ := importContract_ok hi
  exact register_indexed hT h (Contract.withArticles_contractId hw)

theorem issue_indexed (hT : T.Lawful) (hN : ∀ a l, H.new a = .ok l → H.ledgerId l = H.articlesId a)
    {stockIo : FileError → H.StockError} {d d' : StockpileFiles H S} (h : Indexed T d) {params : CreateParams H S}
    {c : Contract H S} (hi : d.issue T stockIo params = (.ok c, d')) : Indexed T d' := by
  obtain ⟨schema, -, hn, hid, rfl⟩ := issue_ok hi
  exact register_indexed hT h (hid.trans (hN _ _ hn))

/-- **A completed purge** leaves the contract known. -/
theorem purge_known {d d' : StockpileFiles H S} {id : ContractId} (h : d.purge T id = (.ok (), d')) :
    d'.hasContract id = true := by
  rcases purge_cases (T := T) d id with ⟨⟨e, he⟩, -⟩ | ⟨path, entry, hpath, -, -, ⟨e, -, he⟩ | ⟨-, he⟩⟩
  · rw [h] at he
    cases he
  · rw [h] at he
    cases he
  · rw [h] at he
    cases he
    obtain ⟨name, hn, -⟩ := getContractDir_eq_some.1 hpath
    exact has_iff.2 ⟨name, hn⟩

end StockpileFiles

/-! ## Runs -/

/-- The calls that change the contracts of a directory. -/
inductive DirCall {H : Hypersonic} {S : RgbSeal} (W : Wire H S) where
  | issue (params : CreateParams H S)
  | importContract (articles : H.Articles) (consignment : W.Consignment)
  | purge (id : ContractId)

namespace StockpileFiles

variable {H : Hypersonic} {S : RgbSeal} {T : Texts H} {W : Wire H S} {V : Verifier H S}

/-- What a call which returns `Ok` leaves. -/
def onOk {E α : Type} : Except E α × StockpileFiles H S → Option (StockpileFiles H S)
  | (.ok _, d) => some d
  | (.error _, _) => none

/-- A call under the faults of its time; `none` if it does not return `Ok`. -/
def handleOk (T : Texts H) (V : Verifier H S) (stockIo : FileError → H.StockError) (d : StockpileFiles H S)
    (call : Faults H S × DirCall W) : Option (StockpileFiles H S) :=
  let d := { d with faults := call.1 }
  match call.2 with
  | .issue params => onOk (d.issue T stockIo params)
  | .importContract articles consignment => onOk (d.importContract T W V articles consignment)
  | .purge id => onOk (d.purge T id)

theorem onOk_eq_some {E α : Type} {r : Except E α × StockpileFiles H S} {d : StockpileFiles H S} (h : onOk r = some d) :
    ∃ a, r = (.ok a, d) := by
  obtain ⟨r, d'⟩ := r
  cases r with
  | ok a =>
    cases h
    exact ⟨a, rfl⟩
  | error e => cases h

theorem handleOk_indexed (hT : T.Lawful) (hN : ∀ a l, H.new a = .ok l → H.ledgerId l = H.articlesId a)
    {stockIo : FileError → H.StockError} {d d' : StockpileFiles H S} (h : Indexed T d)
    {call : Faults H S × DirCall W} (hp : ∀ id, call.2 ≠ .purge id) (hs : handleOk T V stockIo d call = some d') :
    Indexed T d' := by
  have h : Indexed T { d with faults := call.1 } := h
  obtain ⟨faults, call⟩ := call
  cases call with
  | issue params =>
    obtain ⟨c, hc⟩ := onOk_eq_some hs
    exact issue_indexed hT hN h hc
  | importContract articles consignment =>
    obtain ⟨c, hc⟩ := onOk_eq_some hs
    exact importContract_indexed hT h hc
  | purge id => exact absurd rfl (hp id)

/-- **The index and the directory** agree in every state of a run, and what was purged is forgotten, if
and only if nothing is purged. -/
theorem indexed_iff (hT : T.Lawful) (hN : ∀ a l, H.new a = .ok l → H.ledgerId l = H.articlesId a)
    (stockIo : FileError → H.StockError) (consensus : Consensus) (testnet : Bool)
    (dir : UniqueMap FileName (Entry H S)) (calls : List (Faults H S × DirCall W)) (states : List (StockpileFiles H S))
    (h : Runs.run (handleOk T V stockIo) (load T consensus testnet dir) calls = some states) :
    ((∀ d ∈ states, Indexed T d) ∧ Runs.Along (handleOk T V stockIo)
        (fun d call => ∀ id d', call.2 = .purge id → handleOk T V stockIo d call = some d' → Forgotten T d' id)
        (load T consensus testnet dir) calls) ↔
      ∀ call ∈ calls, ∀ id, call.2 ≠ .purge id := by
  constructor
  · rintro ⟨-, hforgotten⟩ call hcall id hp
    obtain ⟨d, d', hs, hf⟩ := Runs.step_of_mem h hforgotten call hcall
    have hok : onOk ({ d with faults := call.1 }.purge T id) = some d' := by
      rw [← hs]
      simp only [handleOk, hp]
    obtain ⟨_, hd⟩ := onOk_eq_some hok
    have hunknown := (hf id d' hp hs).1
    rw [purge_known hd] at hunknown
    cases hunknown
  · intro hnone
    refine ⟨?_, Runs.along_of_forall (fun d call hcall id d' hp _ => absurd hp (hnone call hcall id)) _⟩
    exact Runs.run_inv (C := fun _ call => ∀ id, call.2 ≠ .purge id)
      (fun d call d' hI hp hs => handleOk_indexed hT hN hI hp hs) calls _ states
      (load_indexed consensus testnet dir) (Runs.along_of_forall (fun _ call hcall => hnone call hcall) _) h

end StockpileFiles

/-! ## An issue and a purge -/

namespace Folders

/-- The folder of the contract of `Stream`. -/
def folder : FileName := StockpileFiles.articlesDir refTexts Stream.articles

/-- A directory with that folder. -/
def dir : UniqueMap FileName (Entry refSonic refSeal) := .write .empty folder ⟨.dir, none, some Stream.contract⟩

/-- A directory with the issuer of codex 2. -/
def issuers : UniqueMap FileName (Entry refSonic refSeal) :=
  .write .empty (dotted "Codex".toList ['x', 'x'] issuerExt) ⟨.file, some (2, Stream.articles), none⟩

def params : CreateParams refSonic refSeal :=
  { issuer := (2 : Nat), consensus := .bitcoin, testnet := true, method := "issue", name := "Mine", timestamp := none
    global := [], owned := [] }

def stockIo : FileError → refSonic.StockError := fun _ => ()

end Folders

/-- An issue is found by the next load. -/
theorem indexed_issue : ∃ states,
    Runs.run (StockpileFiles.handleOk refTexts refVerifier Folders.stockIo)
      (.load refTexts .bitcoin true Folders.issuers) [(.none, (.issue Folders.params : DirCall refWire))] = some states ∧
      ∀ d ∈ states, StockpileFiles.Indexed refTexts d := by
  obtain ⟨states, h⟩ : ∃ states, Runs.run (StockpileFiles.handleOk refTexts refVerifier Folders.stockIo)
      (.load refTexts .bitcoin true Folders.issuers) [(.none, (.issue Folders.params : DirCall refWire))] = some states :=
    ⟨_, rfl⟩
  refine ⟨states, h, ((StockpileFiles.indexed_iff refTexts_lawful refSonic_new_ledgerId _ _ _ _ _ _ h).2 ?_).1⟩
  intro call hcall id
  cases List.mem_singleton.1 hcall
  exact fun he => (by cases he)

/-- A purged contract stays in the index. -/
theorem indexed_purge :
    ¬∀ (H : Hypersonic) (S : RgbSeal) (T : Texts H) (W : Wire H S) (V : Verifier H S), T.Lawful →
      (∀ a l, H.new a = .ok l → H.ledgerId l = H.articlesId a) →
      ∀ stockIo consensus testnet dir (calls : List (Faults H S × DirCall W)) states,
      Runs.run (StockpileFiles.handleOk T V stockIo) (.load T consensus testnet dir) calls = some states →
      (∀ d ∈ states, StockpileFiles.Indexed T d) ∧ Runs.Along (StockpileFiles.handleOk T V stockIo)
        (fun d call => ∀ id d', call.2 = .purge id → StockpileFiles.handleOk T V stockIo d call = some d' →
          StockpileFiles.Forgotten T d' id) (.load T consensus testnet dir) calls := by
  intro h
  have hi := (h refSonic refSeal refTexts refWire refVerifier refTexts_lawful refSonic_new_ledgerId Folders.stockIo
    .bitcoin true Folders.dir [(.none, .purge Stream.id)] _ rfl).1 _ List.mem_cons_self Stream.id
  revert hi
  decide

end RgbStd
