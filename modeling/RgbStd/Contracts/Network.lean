import RgbStd.Contract.Foreign
import RgbStd.Contracts.Managed
/-!
# The network of the contracts in memory (contracts.rs:87-126, 245-277, 408-465)

Contracts come from an issue, from a stream, from the storage, and are changed in place by streams.
The parameters of an issue and the articles of a stream are checked against the storage, the storage
checks what it reads, and an upgrade does not change the network.

* `NetworkLaws`: what is assumed of the ledger library.
* `Guarded`: what a storage does for it.
* `Isolated`: the contracts in memory have the network of the storage.
* `manage_isolated`: every call keeps it so.
* `handed_network`: and gives only such contracts to closures.
-/
namespace RgbStd
open Tables Decode

/-- The issuer takes the network from the parameters, and no function changes it. -/
structure Hypersonic.NetworkLaws (H : Hypersonic) : Prop extends H.ArticlesLaws where
  issue : ∀ i p, Hypersonic.network (H.issue i p) = (p.consensus, p.testnet)
  upgrade : ∀ l a, Hypersonic.network (H.articles (H.upgradeApis l a).2) = Hypersonic.network (H.articles l)

theorem Hypersonic.NetworkLaws.keeps {H : Hypersonic} (hL : H.NetworkLaws) (n : Consensus × Bool) :
    H.Keeps fun l => Hypersonic.network (H.articles l) = n where
  apply l op l' h hl := (congrArg _ (hL.apply l op l' hl)).trans h
  commit l h := (congrArg _ (hL.commit l)).trans h
  call l p h := (congrArg _ (hL.call l p)).trans h
  rollback l ops h := (congrArg _ (hL.rollback l ops)).trans h
  forward l ops h := (congrArg _ (hL.forward l ops)).trans h
  upgrade l a h := (hL.upgrade l a).trans h

/-- A new contract has the articles it is made from. -/
theorem Contract.withArticles_articles {H : Hypersonic} {S : RgbSeal} (hA : H.ArticlesLaws) {W : Wire H S}
    {V : Verifier H S}
    {PileError : Type} {newPile : Except PileError (PileFs S)} {articles : H.Articles} {consignment : W.Consignment}
    {c : Contract H S} (h : withArticles W V newPile articles consignment = .ok c) : H.articles c.ledger = articles := by
  obtain ⟨ledger, _, hn, hr⟩ := withArticles_reaches h
  exact (hA.evalKeeps articles).reaches hr (hA.new articles ledger hn)

/-- A storage of one network, which serves and makes no contract of another. -/
structure ManagedStockpile.Guarded {H : Hypersonic} {S : RgbSeal} {W : Wire H S} {V : Verifier H S}
    (P : ManagedStockpile W V) : Prop where
  served : ∀ s id c, P.contract s id = some c → c.network = P.network s
  import_network : ∀ s a cons, P.network (P.importContract s a cons).2 = P.network s
  import_ok : ∀ s a cons c s', P.importContract s a cons = (.ok c, s') → c.network = Hypersonic.network a
  issue_network : ∀ s p, P.network (P.issue s p).2 = P.network s
  issue_ok : ∀ s p c s', P.issue s p = (.ok c, s') → c.network = (p.consensus, p.testnet)
  importIssuer_network : ∀ s i, P.network (P.importIssuer s i).2 = P.network s
  purge_network : ∀ s id, P.network (P.purge s id).2 = P.network s
  under_network : ∀ faults s, P.network (P.under faults s) = P.network s

namespace Contracts

variable {H : Hypersonic} {S : RgbSeal} {W : Wire H S} {V : Verifier H S} {P : ManagedStockpile W V}

/-- The contracts in memory have the network of the storage. -/
def Isolated (s : Contracts P.toStockpile) : Prop :=
  ∀ id c, get s.contracts id = some c → c.network = P.network s.persistence

theorem load_isolated (persistence : P.Store) : (load persistence : Contracts P.toStockpile).Isolated := by
  intro id c h
  simp [load] at h

theorem Isolated.keep {s : Contracts P.toStockpile} (h : s.Isolated) {persistence : P.Store}
    (hp : P.network persistence = P.network s.persistence) : Isolated (P := P) ⟨s.contracts, persistence⟩ :=
  fun id c hc => (h id c hc).trans hp.symm

theorem Isolated.upsert {s : Contracts P.toStockpile} (h : s.Isolated) {persistence : P.Store}
    (hp : P.network persistence = P.network s.persistence) {c : Contract H S} (hc : c.network = P.network s.persistence)
    (id : ContractId) : Isolated (P := P) ⟨Tables.upsert s.contracts id c, persistence⟩ := by
  intro id' c' h'
  rw [get_upsert] at h'
  split at h'
  · cases h'
    exact hc.trans hp.symm
  · exact (h id' c' h').trans hp.symm

theorem Isolated.served (hP : P.Guarded) {s : Contracts P.toStockpile} (h : s.Isolated) {id : ContractId}
    {c : Contract H S} (hc : s.served id = some c) : c.network = P.network s.persistence := by
  rw [Contracts.served, Option.or_eq_some_iff] at hc
  rcases hc with hc | ⟨_, hc⟩
  · exact h id c hc
  · exact hP.served _ _ _ hc

/-! ## What the calls preserve -/

theorem Isolated.edit (hP : P.Guarded) (hL : H.NetworkLaws) {s s' : Contracts P.toStockpile} (h : s.Isolated)
    (he : s.Edits s') : s'.Isolated := by
  cases he with
  | edit hc hr => exact h.upsert rfl ((hL.keeps _).reaches hr (h.served hP hc)) _

theorem Isolated.edits (hP : P.Guarded) (hL : H.NetworkLaws) {s s' : Contracts P.toStockpile} (h : s.Isolated)
    (he : Relation.ReflTransGen Edits s s') : s'.Isolated := by
  induction he with
  | refl => exact h
  | tail _ he ih => exact ih.edit hP hL he

theorem Moves.isolated (hP : P.Guarded) (hL : H.NetworkLaws) {s s' : Contracts P.toStockpile} (h : s.Isolated)
    {call : Call W} (hm : s.Moves call s') : s'.Isolated := by
  cases hm with
  | edits he => exact h.edits hP hL he
  | issueFails hl hi => exact h.keep (hP.issue_network _ _)
  | issued hl hi =>
    exact h.upsert (hP.issue_network _ _) ((hP.issue_ok _ _ _ _ (Prod.ext hi rfl)).trans (checkLayer1_ok hl)) _
  | importFails hp hk hc ha hl hi => exact h.keep (hP.import_network _ _ _)
  | imported hp hk hc ha hl hi =>
    exact h.upsert (hP.import_network _ _ _) ((hP.import_ok _ _ _ _ _ (Prod.ext hi rfl)).trans (checkLayer1_ok hl)) _

theorem Isolated.erase {s : Contracts P.toStockpile} (h : s.Isolated) (id : ContractId) :
    Isolated (P := P) ⟨Tables.erase s.contracts id, s.persistence⟩ := by
  intro id' c hc
  rw [get_erase] at hc
  split at hc
  · cases hc
  · exact h id' c hc

/-- **Every call** keeps the contracts in memory on the network of the storage. -/
theorem manage_isolated (hP : P.Guarded) (hL : H.NetworkLaws) {s s' : Contracts P.toStockpile} (h : s.Isolated)
    {call : P.Faults × ManagedCall W} (hs : s.manage call = some s') : s'.Isolated := by
  obtain ⟨faults, call⟩ := call
  have h : (s.under faults).Isolated := h.keep (hP.under_network faults s.persistence)
  cases manage_manages hs with
  | base hm => exact hm.isolated hP hL h
  | importIssuer issuer => exact h.keep (hP.importIssuer_network _ _)
  | purge id => exact (h.erase id).keep (hP.purge_network _ _)
  | exported he => exact h.edits hP hL he
  | consign he => exact h.edit hP hL he

/-- The storage keeps its network. -/
theorem manage_network (hP : P.Guarded) {s s' : Contracts P.toStockpile}
    {call : P.Faults × ManagedCall W} (hs : s.manage call = some s') :
    P.network s'.persistence = P.network s.persistence := by
  obtain ⟨faults, call⟩ := call
  rw [← hP.under_network faults s.persistence]
  cases manage_manages hs with
  | base hm =>
    rcases hm.stores with hk | ⟨params, -, hi⟩ | ⟨articles, consignment, -, hi⟩
    · exact congrArg P.network hk
    · rw [hi]
      exact hP.issue_network _ _
    · rw [hi]
      exact hP.import_network _ _ _
  | importIssuer issuer => exact hP.importIssuer_network _ _
  | purge id => exact hP.purge_network _ _
  | exported he => exact congrArg P.network (edits_persistence he)
  | consign he => exact congrArg P.network (edits_persistence (.single he))

/-! ## What closures are given -/

theorem served_network (hP : P.Guarded) {s : Contracts P.toStockpile} (h : s.Isolated) {id : ContractId} :
    ∀ c ∈ (s.served id).toList, c.network = P.network s.persistence := by
  intro c hc
  exact h.served hP (Option.mem_toList.1 hc)

theorem syncHanded_network (hP : P.Guarded) (hL : H.NetworkLaws) (changed : List (S.WitnessId × WitnessStatus))
    (ids : List ContractId) : ∀ s : Contracts P.toStockpile, s.Isolated →
    ∀ c ∈ syncHanded changed ids s, c.network = P.network s.persistence := by
  induction ids with
  | nil => exact fun _ _ c hc => absurd hc List.not_mem_nil
  | cons id ids ih =>
    intro s h c hc
    rcases List.mem_append.1 hc with hc | hc
    · exact served_network hP h c hc
    · split at hc
      · rename_i s₁ hw
        have h₁ := h.edit hP hL (withContractMut_edits (fun c => c.sync_reaches changed) hw)
        rw [ih s₁ h₁ c hc, withContractMut_persistence hw]
      · cases hc

theorem witnessIdsHanded_network (hP : P.Guarded) (hL : H.NetworkLaws) (predicate : PileFs.Witness S → Bool)
    (ids : List ContractId) :
    ∀ s : Contracts P.toStockpile, s.Isolated →
    ∀ c ∈ witnessIdsHanded predicate ids s, c.network = P.network s.persistence := by
  induction ids with
  | nil => exact fun _ _ c hc => absurd hc List.not_mem_nil
  | cons id ids ih =>
    intro s h c hc
    unfold witnessIdsHanded at hc
    split at hc
    · rename_i s₁ hw
      rcases List.mem_append.1 hc with hc | hc
      · exact served_network hP h c hc
      · rw [ih s₁ (h.edits hP hL (withContract_edits hw)) c hc, withContract_persistence hw]
    · cases hc

/-- **The contracts a call hands out** are of the network of the storage. -/
theorem handed_network (hP : P.Guarded) (hL : H.NetworkLaws) {s : Contracts P.toStockpile} (h : s.Isolated)
    (call : ManagedCall W) : ∀ c ∈ s.handed call, c.network = P.network s.persistence := by
  cases call with
  | importIssuer issuer => exact fun c hc => absurd hc List.not_mem_nil
  | purge id => exact fun c hc => absurd hc List.not_mem_nil
  | exported id => exact served_network hP h
  | consign id => exact served_network hP h
  | base call =>
    cases call with
    | issue params => exact fun c hc => absurd hc List.not_mem_nil
    | consume allowUnknown reader resolver sigValidator =>
      intro c hc
      simp only [handed] at hc
      split at hc
      · cases hc
      · split at hc
        · cases hc
        · exact served_network hP h c hc
    | contractCall id call seals => exact served_network hP h
    | included id opid pub anchor => exact served_network hP h
    | sync changed => exact syncHanded_network hP hL changed _ s h
    | contractState id => exact served_network hP h
    | contractArticles id => exact served_network hP h
    | witnessIds predicate => exact witnessIdsHanded_network hP hL predicate _ s h

end Contracts

end RgbStd
