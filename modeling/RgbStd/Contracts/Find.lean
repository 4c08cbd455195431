import RgbStd.Contracts.Ref
import RgbStd.Stockpile.Index
import RgbStd.Stockpile.Storage
/-!
# Finding a contract (contracts.rs:187-209)

A name is looked for among the contracts in memory first, and then in the storage. Contracts may have one name, and
which of them are in memory depends on the calls before.

* `Caches`: contracts of a storage in memory, in the order of its ids.
* `findContractId_cache_iff`: which of them are in memory makes no difference exactly if the storage serves one
  contract of that name at most, under its own id.
-/
namespace RgbStd
open Tables Names

/-- The name of the issue is `ContractName::Named` of the name. -/
def Contract.isNamed {H : Hypersonic} {S : RgbSeal} (c : Contract H S) (name : RString) : Bool :=
  H.articlesName (H.articles c.ledger) = String.ofList name.text

namespace Contracts

variable {H : Hypersonic} {S : RgbSeal} {W : Wire H S} {V : Verifier H S} {P : Stockpile W V}

/-- The search through the storage (contracts.rs:203-207). -/
def findPersisted (persistence : P.Store) (name : RString) : Option ContractId :=
  (((P.contractIds persistence).filterMap (P.contract persistence)).find? (·.isNamed name)).map (·.contractId)

/-- `Contracts::find_contract_id` (contracts.rs:187). -/
def findContractId (s : Contracts P) : ContractRef → Option ContractId
  | .id contractId => if s.hasContract contractId then some contractId else none
  | .name name => match s.contracts.find? fun e => e.2.isNamed name with
    | some (contractId, _) => some contractId
    | none => findPersisted s.persistence name

/-- The contracts in memory are some of those in the storage. -/
structure Caches (persistence : P.Store) (s : Contracts P) : Prop where
  persistence_eq : s.persistence = persistence
  order : (keys s.contracts).Sublist (P.contractIds persistence)
  persisted : ∀ e ∈ s.contracts, P.contract persistence e.1 = some e.2

/-- The storage serves a contract of that name under an id. -/
def ServesNamed (persistence : P.Store) (name : RString) (id : ContractId) (c : Contract H S) : Prop :=
  id ∈ P.contractIds persistence ∧ P.contract persistence id = some c ∧ c.isNamed name

variable {persistence : P.Store} {name : RString} {id : ContractId} {c : Contract H S} {s : Contracts P}

theorem Caches.empty : Caches persistence ({ contracts := [], persistence } : Contracts P) :=
  ⟨rfl, List.nil_sublist _, fun _ he => absurd he List.not_mem_nil⟩

/-- One contract in memory. -/
theorem ServesNamed.caches (h : ServesNamed persistence name id c) :
    Caches persistence ({ contracts := [(id, c)], persistence } : Contracts P) := by
  refine ⟨rfl, List.singleton_sublist.2 h.1, fun e he => ?_⟩
  rw [List.mem_singleton.1 he]
  exact h.2.1

/-- What is found in the storage is a contract of that name, and one is found if there is one. -/
theorem findPersisted_eq_some {found : ContractId} (h : findPersisted persistence name = some found) :
    ∃ id c, ServesNamed persistence name id c ∧ c.contractId = found := by
  obtain ⟨c, hc, rfl⟩ := Option.map_eq_some_iff.1 h
  obtain ⟨id, hid, hserved⟩ := List.mem_filterMap.1 (List.mem_of_find?_eq_some hc)
  exact ⟨id, c, ⟨hid, hserved, List.find?_some (p := fun c : Contract H S => c.isNamed name) hc⟩, rfl⟩

theorem ServesNamed.exists_findPersisted (h : ServesNamed persistence name id c) :
    ∃ found, findPersisted persistence name = some found := by
  obtain ⟨hid, hserved, hname⟩ := h
  have hmem : c ∈ (P.contractIds persistence).filterMap (P.contract persistence) :=
    List.mem_filterMap.2 ⟨id, hid, hserved⟩
  have hsome : (((P.contractIds persistence).filterMap (P.contract persistence)).find? (·.isNamed name)).isSome :=
    List.find?_isSome.2 ⟨c, hmem, hname⟩
  obtain ⟨c', hc'⟩ := Option.isSome_iff_exists.1 hsome
  exact ⟨_, by rw [findPersisted, hc', Option.map_some]⟩

/-- Contracts in memory are found first. -/
theorem Caches.findContractId_name (h : Caches persistence s) (name : RString) :
    (∃ id c, ServesNamed persistence name id c ∧ s.findContractId (.name name) = some id) ∨
      s.findContractId (.name name) = findPersisted persistence name := by
  cases hf : s.contracts.find? fun e => e.2.isNamed name with
  | none =>
    refine Or.inr ?_
    simp only [findContractId, hf, h.persistence_eq]
  | some e =>
    have he := List.mem_of_find?_eq_some hf
    have hid : e.1 ∈ P.contractIds persistence := h.order.subset (List.mem_map_of_mem he)
    have hname : e.2.isNamed name := List.find?_some (p := fun e : ContractId × Contract H S => e.2.isNamed name) hf
    refine Or.inl ⟨e.1, e.2, ⟨hid, h.persisted e he, hname⟩, ?_⟩
    simp only [findContractId, hf]

/-- **A name is found whatever is in memory** if and only if all contracts of that name in the storage are one, under
its own id. -/
theorem findContractId_cache_iff (persistence : P.Store) (name : RString) :
    (∀ s s' : Contracts P, Caches persistence s → Caches persistence s' →
      s.findContractId (.name name) = s'.findContractId (.name name)) ↔
    ∀ id c id' c', ServesNamed persistence name id c → ServesNamed persistence name id' c' → id = c'.contractId := by
  constructor
  · intro h id c id' c' hc hc'
    obtain ⟨found, hfound⟩ := hc.exists_findPersisted
    -- With a contract alone in memory its id is found, and with none the one in the storage.
    have halone : ∀ id c, ServesNamed persistence name id c → id = found := by
      intro id c hc
      have heq := h _ _ hc.caches Caches.empty
      simp only [findContractId, List.find?_cons, hc.2.2, List.find?_nil, hfound] at heq
      exact Option.some.inj heq
    obtain ⟨id₀, c₀, h₀, rfl⟩ := findPersisted_eq_some hfound
    obtain rfl : id' = id₀ := (halone id' c' hc').trans (halone id₀ c₀ h₀).symm
    obtain rfl : c' = c₀ := Option.some.inj (hc'.2.1.symm.trans h₀.2.1)
    exact halone id c hc
  · intro h
    have hall : ∀ s : Contracts P, Caches persistence s →
        s.findContractId (.name name) = findPersisted persistence name := by
      intro s hs
      rcases hs.findContractId_name name with ⟨id, c, hc, hfind⟩ | hfind
      · obtain ⟨found, hfound⟩ := hc.exists_findPersisted
        obtain ⟨id', c', hc', rfl⟩ := findPersisted_eq_some hfound
        rw [hfind, hfound, h id c id' c' hc hc']
      · exact hfind
    exact fun s s' hs hs' => (hall s hs).trans (hall s' hs').symm

end Contracts

namespace Folders

/-- Another contract of the name of `Stream`, in the next folder. -/
def twin : Contract refSonic refSeal :=
  { Stream.contract with
    contractId := ⟨.replicate 32 4⟩
    ledger := .new { Stream.articles with id := ⟨.replicate 32 4⟩ } }

def twins : UniqueMap FileName (Entry refSonic refSeal) :=
  dir.write (StockpileFiles.articlesDir refTexts twin.ledger.articles) ⟨.dir, none, some twin⟩

def storage : StockpileFiles refSonic refSeal := .load refTexts .bitcoin true twins

def name : RString := ⟨"Test".toList, by decide⟩

abbrev files : Stockpile refWire refVerifier := (stockpileFiles refTexts refWire refVerifier stockIo).toStockpile

theorem serves_twin : Contracts.ServesNamed (P := files) storage name twin.contractId twin :=
  ⟨by decide, rfl, by decide⟩

end Folders

/-- With the second contract in memory, the name is its name. -/
theorem findContractId_twins : ¬∀ (H : Hypersonic) (S : RgbSeal) (W : Wire H S) (V : Verifier H S) (P : Stockpile W V)
    (persistence : P.Store) (s s' : Contracts P), Contracts.Caches persistence s → Contracts.Caches persistence s' →
    ∀ name, s.findContractId (.name name) = s'.findContractId (.name name) := by
  intro h
  have heq := h refSonic refSeal refWire refVerifier Folders.files Folders.storage _ _ Folders.serves_twin.caches
    Contracts.Caches.empty Folders.name
  revert heq
  decide

end RgbStd
