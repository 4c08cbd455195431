import RgbStd.Contracts.Moves
/-!
# Contracts in memory are kept under their own ids

The id a contract is cached under comes from the caller, from the storage, or from the header of a
consignment. `Contracts::consume` of an unknown contract takes the header's id for a contract which
is built from the articles that follow.

* `Bound`: each entry has the id it is stored under, and the storage knows it.
* `handle_bound`: every call preserves it, an import if the header names the contract of the articles.
* `run_bound`: so does every run of calls.
-/
namespace RgbStd
open Tables Decode

namespace Contracts

variable {H : Hypersonic} {S : RgbSeal} {W : Wire H S} {V : Verifier H S} {P : Stockpile W V}

/-- Every contract in memory has the id it is stored under, and the storage knows it. -/
def Bound (s : Contracts P) : Prop :=
  ∀ id c, get s.contracts id = some c → c.contractId = id ∧ P.hasContract s.persistence id = true

theorem load_bound (persistence : P.Store) : (load persistence).Bound := by
  intro id c h
  simp [load] at h

theorem Bound.upsert {s : Contracts P} (h : s.Bound) {persistence : P.Store}
    (hk : ∀ id, P.hasContract s.persistence id = true → P.hasContract persistence id = true) {c : Contract H S}
    {id : ContractId} (hid : c.contractId = id) (hc : P.hasContract persistence id = true) :
    Bound ⟨Tables.upsert s.contracts id c, persistence⟩ := by
  intro id' c' h'
  rw [get_upsert] at h'
  split at h'
  · rename_i he
    cases h'
    exact ⟨hid.trans he.symm, he ▸ hc⟩
  · exact ⟨(h id' c' h').1, hk _ (h id' c' h').2⟩

theorem Bound.served (hP : P.Lawful) {s : Contracts P} (h : s.Bound) {id : ContractId} {c : Contract H S}
    (hc : s.served id = some c) : c.contractId = id ∧ P.hasContract s.persistence id = true := by
  rw [Contracts.served, Option.or_eq_some_iff] at hc
  rcases hc with hc | ⟨_, hc⟩
  · exact h id c hc
  · exact (hP.served _ _ _ hc).symm

/-! ## What the calls preserve -/

theorem Bound.edit (hP : P.Lawful) {s s' : Contracts P} (h : s.Bound) (he : s.Edits s') : s'.Bound := by
  cases he with
  | edit hc hr =>
    obtain ⟨hid, hk⟩ := h.served hP hc
    exact h.upsert (fun _ hk => hk) (hr.contractId.trans hid) hk

theorem Bound.edits (hP : P.Lawful) {s s' : Contracts P} (h : s.Bound) (he : Relation.ReflTransGen Edits s s') :
    s'.Bound := by
  induction he with
  | refl => exact h
  | tail _ he ih => exact ih.edit hP he

/-- The contracts in memory are kept, and the storage still knows them. -/
theorem Bound.keep {s : Contracts P} (h : s.Bound) {persistence : P.Store}
    (hk : ∀ id, P.hasContract s.persistence id = true → P.hasContract persistence id = true) :
    Bound ⟨s.contracts, persistence⟩ :=
  fun id c hc => ⟨(h id c hc).1, hk id (h id c hc).2⟩

/-- An unknown contract that is imported is the one the header of the stream names. -/
def HeaderNames (s : Contracts P) (allowUnknown : Bool) (reader : Bytes) (sigValidator : W.Validator) : Prop :=
  allowUnknown = true → ∀ id stream consignment rest articles, W.parseConsignment.run reader = .ok (id, stream) →
    s.hasContract id = false → W.consignment.run stream = .ok (consignment, rest) →
    consignment.articles sigValidator = .ok articles → H.articlesId articles = id

/-- An import names its contract; every other call is free. -/
def Names (s : Contracts P) : Call W → Prop
  | .consume allowUnknown reader _ sigValidator => s.HeaderNames allowUnknown reader sigValidator
  | _ => True

/-- **A call** binds what it imports where the header names it, and everything else. -/
theorem handle_bound (hP : P.Lawful) {s s' : Contracts P} {call : Call W} (h : s.Bound) (hn : s.Names call)
    (hs : s.handle call = some s') : s'.Bound := by
  cases handle_moves hs with
  | edits he => exact h.edits hP he
  | issueFails hl hi => exact h.keep (hP.issue_keeps _ _)
  | issued hl hi => exact h.upsert (hP.issue_keeps _ _) rfl (hP.issue_ok _ _ _ _ (Prod.ext hi rfl))
  | importFails hp hk hc ha hl hi => exact h.keep (hP.import_keeps _ _ _)
  | imported hp hk hc ha hl hi =>
    obtain ⟨hw, hhas⟩ := hP.import_ok _ _ _ _ _ (Prod.ext hi rfl)
    have hid := (Contract.withArticles_contractId hw).trans (hn rfl _ _ _ _ _ hp hk hc ha)
    exact h.upsert (hP.import_keeps _ _ _) hid (hid ▸ hhas)

/-- **Every run** from a loaded storage whose imports are named by their headers keeps each
contract under its own id. -/
theorem run_bound (hP : P.Lawful) (persistence : P.Store) (calls : List (Call W)) (states : List (Contracts P))
    (hn : Runs.Along handle Names (load persistence) calls)
    (hrun : Runs.run handle (load persistence) calls = some states) : ∀ s ∈ states, s.Bound :=
  Runs.run_inv (fun _ _ _ h hn hs => handle_bound hP h hn hs) calls _ states (load_bound persistence) hn hrun

end Contracts

end RgbStd
