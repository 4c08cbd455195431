import RgbStd.Lib.Runs
import RgbStd.Contracts.Network
import RgbStd.Stockpile.Files
/-!
# `Contracts` over a directory

* `stockpileFiles`: the directory as a storage.
* `stockpileFiles_guarded`: it is of one network, and serves and makes only contracts of that network.
* `run_isolated`: so are the contracts in memory, and those given to closures, in every run.
-/
namespace RgbStd
open Tables Names Decode

/-- The directory as a storage of `Contracts`. -/
@[reducible] def stockpileFiles {H : Hypersonic} {S : RgbSeal} (T : Texts H) (W : Wire H S) (V : Verifier H S)
    (stockIo : FileError → H.StockError) : ManagedStockpile W V where
  Store := StockpileFiles H S
  PileError := FileError
  consensus := StockpileFiles.consensus
  isTestnet := StockpileFiles.testnet
  hasContract := StockpileFiles.hasContract
  contractIds := StockpileFiles.contractIds
  contract := StockpileFiles.contract T
  importContract := StockpileFiles.importContract T W V
  issue := StockpileFiles.issue T stockIo
  Error := FileError
  Faults := Faults H S
  under faults d := { d with faults }
  importIssuer := StockpileFiles.importIssuer T
  purge := StockpileFiles.purge T

namespace StockpileFiles

variable {H : Hypersonic} {S : RgbSeal} {T : Texts H} {W : Wire H S} {V : Verifier H S}

def network (d : StockpileFiles H S) : Consensus × Bool := (d.consensus, d.testnet)

/-- What is served is found in the folder, and of the network. -/
theorem contract_eq_some {d : StockpileFiles H S} {id : ContractId} {c : Contract H S} :
    d.contract T id = some c ↔ ∃ path entry, d.getContractDir T id = some path ∧ d.dir.find path = some entry ∧
      entry.contract = some c ∧ c.network = d.network := by
  have hnet : ∀ c' : Contract H S, (if H.articlesConsensus (H.articles c'.ledger) ≠ d.consensus ∨
      H.articlesTestnet (H.articles c'.ledger) ≠ d.testnet then none else some c') = some c ↔
      c' = c ∧ c.network = d.network := by
    intro c'
    rw [Contract.network, Hypersonic.network, network, Prod.mk.injEq]
    split
    · rename_i h
      refine iff_of_false (fun he => (by cases he)) ?_
      rintro ⟨rfl, h₁, h₂⟩
      exact h.elim (fun hn => hn h₁) fun hn => hn h₂
    · rename_i h
      rw [not_or, not_not, not_not] at h
      constructor
      · intro he
        cases he
        exact ⟨rfl, h⟩
      · rintro ⟨rfl, -⟩
        rfl
  simp only [contract, Option.bind_eq_bind, Option.bind_eq_some_iff, hnet]
  constructor
  · rintro ⟨path, hp, entry, he, c', hc, rfl, hn⟩
    exact ⟨path, entry, hp, he, hc, hn⟩
  · rintro ⟨path, entry, hp, he, hc, hn⟩
    exact ⟨path, hp, entry, he, c, hc, rfl, hn⟩

theorem importContract_network (d : StockpileFiles H S) (articles : H.Articles) (consignment : W.Consignment) :
    (d.importContract T W V articles consignment).2.network = d.network := by
  rcases importContract_cases (T := T) V d articles consignment with ⟨-, e, he⟩ | ⟨-, ⟨e, he⟩ | ⟨c, -, he⟩⟩ <;>
    rw [he] <;> rfl

theorem issue_network (stockIo : FileError → H.StockError) (d : StockpileFiles H S) (params : CreateParams H S) :
    (d.issue T stockIo params).2.network = d.network := by
  rcases issue_cases (T := T) stockIo d params with
    ⟨-, e, he⟩ | ⟨schema, -, he | ⟨e, he⟩ | ⟨c, -, -, he⟩⟩ <;> rw [he] <;> rfl

theorem importIssuer_network (d : StockpileFiles H S) (issuer : H.Issuer) :
    (d.importIssuer T issuer).2.network = d.network := by
  unfold importIssuer
  dsimp only
  split
  · rfl
  · split <;> rfl

theorem purge_network (d : StockpileFiles H S) (id : ContractId) : (d.purge T id).2.network = d.network := by
  rcases purge_cases (T := T) d id with ⟨⟨e, he⟩, -⟩ | ⟨path, entry, -, -, -, ⟨e, -, he⟩ | ⟨-, he⟩⟩ <;> rw [he] <;> rfl

end StockpileFiles

/-- **The directory** is a storage of one network. -/
theorem stockpileFiles_guarded {H : Hypersonic} {S : RgbSeal} (hL : H.NetworkLaws) (T : Texts H) (W : Wire H S)
    (V : Verifier H S) (stockIo : FileError → H.StockError) : (stockpileFiles T W V stockIo).Guarded where
  served d id c h := by
    obtain ⟨_, _, _, _, _, hn⟩ := StockpileFiles.contract_eq_some.1 h
    exact hn
  import_network d a cons := StockpileFiles.importContract_network d a cons
  import_ok d a cons c d' h := by
    obtain ⟨-, hw, -⟩ := StockpileFiles.importContract_ok h
    exact congrArg _ (Contract.withArticles_articles hL.toArticlesLaws hw)
  issue_network d p := StockpileFiles.issue_network stockIo d p
  issue_ok d p c d' h := by
    obtain ⟨schema, -, hn, -, -⟩ := StockpileFiles.issue_ok h
    rw [Contract.network, hL.new _ _ hn]
    exact hL.issue _ _
  importIssuer_network d i := StockpileFiles.importIssuer_network d i
  purge_network d id := StockpileFiles.purge_network d id
  under_network faults d := rfl

namespace Contracts

variable {H : Hypersonic} {S : RgbSeal} {W : Wire H S} {V : Verifier H S}

/-- `Contracts::load` of a loaded directory. -/
def loadDir (T : Texts H) (W : Wire H S) (V : Verifier H S) (stockIo : FileError → H.StockError) (consensus : Consensus)
    (testnet : Bool) (dir : UniqueMap FileName (Entry H S)) : Contracts (stockpileFiles T W V stockIo).toStockpile :=
  load (StockpileFiles.load T consensus testnet dir)

/-- **Networks are isolated** in every run over a loaded directory: the storage keeps its network, and
the contracts in memory and those any further call gives to closures are of that network. -/
theorem run_isolated (hL : H.NetworkLaws) (T : Texts H) (stockIo : FileError → H.StockError) (consensus : Consensus)
    (testnet : Bool) (dir : UniqueMap FileName (Entry H S)) (calls : List (Faults H S × ManagedCall W))
    (states : List (Contracts (stockpileFiles T W V stockIo).toStockpile))
    (h : Runs.run manage (loadDir T W V stockIo consensus testnet dir) calls = some states) :
    ∀ s ∈ loadDir T W V stockIo consensus testnet dir :: states, s.persistence.network = (consensus, testnet) ∧
      (∀ id c, get s.contracts id = some c → c.network = s.persistence.network) ∧
      ∀ faults call, ∀ c ∈ (s.under faults).handed call, c.network = s.persistence.network := by
  have hP := stockpileFiles_guarded hL T W V stockIo
  have hstep : ∀ s call s', s.persistence.network = (consensus, testnet) ∧ Isolated (P := stockpileFiles T W V stockIo) s →
      True → manage s call = some s' → s'.persistence.network = (consensus, testnet) ∧ Isolated s' :=
    fun s call s' hI _ hs => ⟨(manage_network hP hs).trans hI.1, manage_isolated hP hL hI.2 hs⟩
  have hinv : ∀ s ∈ loadDir T W V stockIo consensus testnet dir :: states,
      s.persistence.network = (consensus, testnet) ∧ Isolated (P := stockpileFiles T W V stockIo) s := by
    intro s hs
    rcases List.mem_cons.1 hs with rfl | hs
    · exact ⟨rfl, load_isolated _⟩
    · exact Runs.run_inv hstep calls _ states ⟨rfl, load_isolated _⟩ (Runs.along_true calls _) h s hs
  intro s hs
  obtain ⟨hn, hI⟩ := hinv s hs
  exact ⟨hn, hI, fun faults call => handed_network hP hL (s := s.under faults) hI call⟩

end Contracts

/-! ## A ledger whose upgrades keep the network -/

/-- The reference ledger, except that an upgrade takes the network from the articles it replaces. -/
@[reducible] def metaSonic : Hypersonic :=
  { refSonic with
    upgradeApis := fun l a =>
      if l.articles.id = a.id then
        (.ok (), { l with articles := { a with consensus := l.articles.consensus, testnet := l.articles.testnet } })
      else (.error (.a ()), l) }

theorem metaSonic_networkLaws : metaSonic.NetworkLaws where
  new := refSonic_articlesLaws.new
  apply := refSonic_articlesLaws.apply
  commit := refSonic_articlesLaws.commit
  call := refSonic_articlesLaws.call
  rollback := refSonic_articlesLaws.rollback
  forward := refSonic_articlesLaws.forward
  issue i p := rfl
  upgrade l a := by
    show Hypersonic.network (H := metaSonic) (RefLedger.articles (if _ then _ else _ : _ × RefLedger).2) = _
    split <;> rfl

@[reducible] def metaWire : Wire metaSonic refSeal := { refWire with }

@[reducible] def metaVerifier : Verifier metaSonic refSeal where
  State := Unit
  Error := Unit
  init := ()
  verify l _ b := refVerifier.verify (S := refSeal) l () ⟨b.operation, b.definedSeals, none⟩

@[reducible] def metaTexts : Texts metaSonic := { refTexts with }

namespace Folders

/-- An empty directory of Bitcoin's testnet. -/
def testnet : Contracts (stockpileFiles metaTexts metaWire metaVerifier fun _ => ()).toStockpile :=
  .loadDir metaTexts metaWire metaVerifier (fun _ => ()) .bitcoin true .empty

/-- An import, a `sync` and a purge. -/
def calls : List (Faults metaSonic refSeal × ManagedCall metaWire) :=
  [(.none, .base (.consume true Stream.named noSeals Stream.validator)), (.none, .base (.sync [])), (.none, .purge Stream.id)]

end Folders

/-- A run that imports a contract of the network. -/
theorem run_isolated_import : ∃ states, Runs.run Contracts.manage Folders.testnet Folders.calls = some states ∧
    ∀ s ∈ states, ∀ id c, get s.contracts id = some c → c.network = s.persistence.network := by
  obtain ⟨states, h⟩ : ∃ states, Runs.run Contracts.manage Folders.testnet Folders.calls = some states := ⟨_, rfl⟩
  exact ⟨states, h, fun s hs =>
    (Contracts.run_isolated metaSonic_networkLaws _ _ _ _ _ _ states h s (List.mem_cons_of_mem _ hs)).2.1⟩

end RgbStd
