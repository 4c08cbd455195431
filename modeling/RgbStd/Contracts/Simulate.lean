import RgbStd.Lib.Runs
import RgbStd.Contracts.Binding
/-!
# Storages that answer alike

Two storages may keep their contracts in different ways. If they answer alike now and after every import
and issue, `Contracts` over the one and over the other hold the same contracts in memory, call by call
(`handle_simulates`) and so in every run (`run_simulates`).
-/
namespace RgbStd
open Tables Decode

/-- Both return the same value or neither does. -/
def SameOk {E F α : Type} (r : Except E α) (r' : Except F α) : Prop := ∀ a, r = .ok a ↔ r' = .ok a

theorem sameOk_error {E F α : Type} (e : E) (f : F) : SameOk (.error e : Except E α) (.error f : Except F α) :=
  fun a => iff_of_false (fun h => (by cases h)) fun h => (by cases h)

theorem sameOk_ok {E F α : Type} (a : α) : SameOk (.ok a : Except E α) (.ok a : Except F α) := by
  intro b
  constructor <;> intro h <;> cases h <;> rfl

/-- A result and one that is the same where it is `Ok`. -/
theorem SameOk.cases {E F α : Type} {r : Except E α} {r' : Except F α} (h : SameOk r r') :
    (∃ e f, r = .error e ∧ r' = .error f) ∨ ∃ a, r = .ok a ∧ r' = .ok a := by
  cases r with
  | ok a => exact Or.inr ⟨a, rfl, (h a).1 rfl⟩
  | error e =>
    cases r' with
    | ok a => cases (h a).2 rfl
    | error f => exact Or.inl ⟨e, f, rfl, rfl⟩

variable {H : Hypersonic} {S : RgbSeal} {W : Wire H S} {V : Verifier H S}

/-- The storages related by `R` answer alike, and stay related. -/
structure Stockpile.Simulates (P Q : Stockpile W V) (R : P.Store → Q.Store → Prop) : Prop where
  consensus : ∀ p q, R p q → P.consensus p = Q.consensus q
  isTestnet : ∀ p q, R p q → P.isTestnet p = Q.isTestnet q
  hasContract : ∀ p q, R p q → ∀ id, P.hasContract p id = Q.hasContract q id
  contractIds : ∀ p q, R p q → P.contractIds p = Q.contractIds q
  contract : ∀ p q, R p q → ∀ id, P.contract p id = Q.contract q id
  importContract : ∀ p q, R p q → ∀ a cons, SameOk (P.importContract p a cons).1 (Q.importContract q a cons).1 ∧
    R (P.importContract p a cons).2 (Q.importContract q a cons).2
  issue : ∀ p q, R p q → ∀ params, SameOk (P.issue p params).1 (Q.issue q params).1 ∧
    R (P.issue p params).2 (Q.issue q params).2

namespace Contracts

variable {P Q : Stockpile W V} {R : P.Store → Q.Store → Prop} {α : Type}

/-- The same contracts in memory over storages that answer alike. -/
structure Alike (R : P.Store → Q.Store → Prop) (s : Contracts P) (t : Contracts Q) : Prop where
  contracts : s.contracts = t.contracts
  persistence : R s.persistence t.persistence

/-- Both end in the same way, in states that are alike. -/
def AlikeEnds (R : P.Store → Q.Store → Prop) (r : Option (α × Contracts P)) (r' : Option (α × Contracts Q)) : Prop :=
  (r = none ∧ r' = none) ∨ ∃ a s t, r = some (a, s) ∧ r' = some (a, t) ∧ Alike R s t

theorem AlikeEnds.states {r : Option (α × Contracts P)} {r' : Option (α × Contracts Q)} (h : AlikeEnds R r r') :
    Option.Rel (Alike R) (r.map Prod.snd) (r'.map Prod.snd) := by
  rcases h with ⟨rfl, rfl⟩ | ⟨a, s, t, rfl, rfl, h⟩
  · exact .none
  · exact .some h

variable (hP : P.Simulates Q R) {s : Contracts P} {t : Contracts Q} (h : Alike R s t)

include hP h

theorem Alike.served (id : ContractId) : s.served id = t.served id := by
  rw [Contracts.served, Contracts.served, h.contracts, hP.contract _ _ h.persistence]

theorem Alike.withContract (id : ContractId) (f : Contract H S → α) (or_ : Option α) :
    AlikeEnds R (s.withContract id f or_) (t.withContract id f or_) := by
  unfold Contracts.withContract
  rw [h.contracts, hP.contract _ _ h.persistence]
  cases get t.contracts id with
  | some c => exact Or.inr ⟨_, s, t, rfl, rfl, h⟩
  | none =>
    cases Q.contract t.persistence id with
    | some c => exact Or.inr ⟨_, _, _, rfl, rfl, rfl, h.persistence⟩
    | none =>
      cases or_ with
      | none => exact Or.inl ⟨rfl, rfl⟩
      | some a => exact Or.inr ⟨a, s, t, rfl, rfl, h⟩

theorem Alike.withContractMut (id : ContractId) (f : Contract H S → α × Contract H S) :
    AlikeEnds R (s.withContractMut id f) (t.withContractMut id f) := by
  unfold Contracts.withContractMut
  rw [h.served hP, h.contracts]
  cases t.served id with
  | none => exact Or.inl ⟨rfl, rfl⟩
  | some c => exact Or.inr ⟨_, _, _, rfl, rfl, rfl, h.persistence⟩

omit h in
theorem witnessIdsFrom_alike (predicate : PileFs.Witness S → Bool) (ids : List ContractId) :
    ∀ {s : Contracts P} {t : Contracts Q}, Alike R s t →
      Alike R (witnessIdsFrom predicate ids s).2 (witnessIdsFrom predicate ids t).2 := by
  induction ids with
  | nil => exact fun h => h
  | cons id ids ih =>
    intro s t h
    have hw := h.withContract hP id (fun c => (c.pile.witnesses.filter predicate).map (·.id)) (some [])
    simp only [witnessIdsFrom]
    rcases hw with ⟨hs, ht⟩ | ⟨wids, s', t', hs, ht, h'⟩
    · rw [hs, ht]
      exact h
    · rw [hs, ht]
      exact ih h'

omit h in
theorem syncFrom_alike (changed : List (S.WitnessId × WitnessStatus)) (ids : List ContractId) :
    ∀ {s : Contracts P} {t : Contracts Q}, Alike R s t →
      AlikeEnds R (syncFrom changed ids s) (syncFrom changed ids t) := by
  induction ids with
  | nil => exact fun h => Or.inr ⟨_, _, _, rfl, rfl, h⟩
  | cons id ids ih =>
    intro s t h
    simp only [syncFrom]
    rcases h.withContractMut hP id fun c => c.sync changed with ⟨hs, ht⟩ | ⟨r, s', t', hs, ht, h'⟩
    · rw [hs, ht]
      exact Or.inl ⟨rfl, rfl⟩
    · rw [hs, ht]
      cases r with
      | error e => exact Or.inr ⟨_, _, _, rfl, rfl, h'⟩
      | ok u => exact ih h'

theorem Alike.include (id : ContractId) (o : Opid) (pub : S.Published) (anchor : S.Client) :
    Option.Rel (Alike R) (s.include id o pub anchor) (t.include id o pub anchor) := by
  unfold Contracts.include
  rw [h.served hP]
  cases t.served id with
  | none => exact .none
  | some c =>
    simp only
    cases c.include o anchor pub with
    | none => exact .none
    | some c' => exact .some ⟨congrArg (upsert · id c') h.contracts, h.persistence⟩

theorem Alike.checkLayer1 (consensus : Consensus) (testnet : Bool) :
    s.checkLayer1 consensus testnet = t.checkLayer1 consensus testnet := by
  unfold Contracts.checkLayer1
  rw [hP.consensus _ _ h.persistence, hP.isTestnet _ _ h.persistence]

theorem Alike.issue (params : CreateParams H S) : Alike R (s.issue params).2 (t.issue params).2 := by
  unfold Contracts.issue
  rw [h.checkLayer1 hP]
  cases t.checkLayer1 params.consensus params.testnet with
  | error e => exact h
  | ok u =>
    obtain ⟨hok, hR⟩ := hP.issue _ _ h.persistence params
    cases hs : P.issue s.persistence params with
    | mk r p =>
      cases ht : Q.issue t.persistence params with
      | mk r' q =>
        rw [hs, ht] at hok hR
        rcases hok.cases with ⟨e, f, he, hf⟩ | ⟨c, he, hf⟩
        · simp only at he hf
          subst he hf
          exact ⟨h.contracts, hR⟩
        · simp only at he hf
          subst he hf
          exact ⟨congrArg (upsert · c.contractId c) h.contracts, hR⟩

theorem Alike.consume (allowUnknown : Bool) (reader : Bytes) (resolver : SealResolver H S) (sigValidator : W.Validator) :
    Option.Rel (Alike R) ((s.consume allowUnknown reader resolver sigValidator).map Prod.snd)
      ((t.consume allowUnknown reader resolver sigValidator).map Prod.snd) := by
  unfold Contracts.consume
  cases W.parseConsignment.run reader with
  | error e => exact .some h
  | ok p =>
    obtain ⟨id, stream⟩ := p
    have hk : s.hasContract id = t.hasContract id := hP.hasContract _ _ h.persistence id
    dsimp only
    rw [hk]
    split
    · split
      · cases W.consignment.run stream with
        | error e => exact .some h
        | ok q =>
          obtain ⟨consignment, rest⟩ := q
          dsimp only
          cases consignment.articles sigValidator with
          | error e => exact .some h
          | ok articles =>
            dsimp only
            rw [h.checkLayer1 hP]
            cases t.checkLayer1 (H.articlesConsensus articles) (H.articlesTestnet articles) with
            | error e => exact .some h
            | ok u =>
              obtain ⟨hok, hR⟩ := hP.importContract _ _ h.persistence articles consignment
              dsimp only
              cases hs : P.importContract s.persistence articles consignment with
              | mk r p =>
                cases ht : Q.importContract t.persistence articles consignment with
                | mk r' q =>
                  rw [hs, ht] at hok hR
                  rcases hok.cases with ⟨e, f, he, hf⟩ | ⟨c, he, hf⟩
                  · simp only at he hf
                    subst he hf
                    exact .some ⟨h.contracts, hR⟩
                  · simp only at he hf
                    subst he hf
                    exact .some ⟨congrArg (upsert · id c) h.contracts, hR⟩
      · exact .some h
    · rcases h.withContractMut hP id fun c => c.consumeInternal W V stream resolver sigValidator with
        ⟨hs, ht⟩ | ⟨r, s', t', hs, ht, h'⟩
      · rw [hs, ht]
        exact .none
      · rw [hs, ht]
        exact .some h'

theorem Alike.bound (ht : t.Bound) : s.Bound := by
  intro id c hc
  rw [h.contracts] at hc
  obtain ⟨hid, hk⟩ := ht id c hc
  exact ⟨hid, (hP.hasContract _ _ h.persistence id).trans hk⟩

theorem Alike.contractIds : s.contractIds = t.contractIds := hP.contractIds _ _ h.persistence

/-- **Every call** leaves them alike, or panics on both. -/
theorem handle_simulates (call : Call W) : Option.Rel (Alike R) (s.handle call) (t.handle call) := by
  cases call with
  | issue params => exact .some (h.issue hP params)
  | consume allowUnknown reader resolver sigValidator => exact h.consume hP allowUnknown reader resolver sigValidator
  | contractCall id call seals => exact (h.withContractMut hP id fun c => c.call call seals).states
  | included id opid pub anchor => exact h.include hP id opid pub anchor
  | sync changed =>
    unfold handle sync
    rw [h.contractIds hP]
    exact (syncFrom_alike hP changed _ h).states
  | contractState id => exact (h.withContract hP id Contract.state none).states
  | contractArticles id => exact (h.withContract hP id (fun c => H.articles c.ledger) none).states
  | witnessIds predicate =>
    unfold handle witnessIds
    rw [h.contractIds hP]
    exact .some (witnessIdsFrom_alike hP predicate _ h)

/-- **Every run** leads through states that are alike. -/
theorem run_simulates (calls : List (Call W)) :
    Option.Rel (List.Forall₂ (Alike R)) (Runs.run handle s calls) (Runs.run handle t calls) :=
  Runs.run_rel (fun _ _ call h => handle_simulates hP h call) calls s t h

end Contracts

end RgbStd
