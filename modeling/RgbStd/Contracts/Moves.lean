import RgbStd.Contract.Effects
import RgbStd.Contracts.Basic
/-!
# What a call does to `Contracts`

A call either works on contracts, each taken from memory or read from the storage and put into memory
afterwards, or it has the storage issue or import one.

* `Edits`: one contract is put into memory after some effects.
* `Moves`: edits, or an issue or an import that fails or completes.
* `handle_moves`: every call is one of these moves.
-/
namespace RgbStd
open Tables Decode Relation

/-- The calls that change what is in memory. -/
inductive Call {H : Hypersonic} {S : RgbSeal} (W : Wire H S) where
  | issue (params : CreateParams H S)
  | consume (allowUnknown : Bool) (reader : Bytes) (resolver : SealResolver H S) (sigValidator : W.Validator)
  | contractCall (id : ContractId) (call : CallParams H.StrictVal H.StateAtom H.Satisfaction)
      (seals : SmallMap UInt16 S.Definition)
  | included (id : ContractId) (opid : Opid) (pubWitness : S.Published) (anchor : S.Client)
  | sync (changed : List (S.WitnessId × WitnessStatus))
  | contractState (id : ContractId)
  | contractArticles (id : ContractId)
  | witnessIds (predicate : PileFs.Witness S → Bool)

namespace Contracts

variable {H : Hypersonic} {S : RgbSeal} {W : Wire H S} {V : Verifier H S} {P : Stockpile W V} {R : Type}

/-- A call, whether it returns `Ok` or an error; `none` is a panic. -/
def handle (s : Contracts P) : Call W → Option (Contracts P)
  | .issue params => some (s.issue params).2
  | .consume allowUnknown reader resolver sigValidator =>
    (s.consume allowUnknown reader resolver sigValidator).map Prod.snd
  | .contractCall id call seals => (s.contractCall id call seals).map Prod.snd
  | .included id opid pubWitness anchor => s.include id opid pubWitness anchor
  | .sync changed => (s.sync changed).map Prod.snd
  | .contractState id => (s.contractState id).map Prod.snd
  | .contractArticles id => (s.contractArticles id).map Prod.snd
  | .witnessIds predicate => some (s.witnessIds predicate).2

/-! ## Moves -/

/-- The contract served under an id, put into memory after some effects. -/
inductive Edits (s : Contracts P) : Contracts P → Prop where
  | edit {id : ContractId} {c c' : Contract H S} (hc : s.served id = some c) (hr : c.Reaches c') :
      Edits s ⟨upsert s.contracts id c', s.persistence⟩

/-- What a call may come to. The import of an unknown contract comes with the readings that led to it. -/
inductive Moves (s : Contracts P) : Call W → Contracts P → Prop where
  | edits {call : Call W} {s' : Contracts P} (h : ReflTransGen Edits s s') : Moves s call s'
  | issueFails {params : CreateParams H S} {e} (hl : s.checkLayer1 params.consensus params.testnet = .ok ())
      (h : (P.issue s.persistence params).1 = .error e) :
      Moves s (.issue params) ⟨s.contracts, (P.issue s.persistence params).2⟩
  | issued {params : CreateParams H S} {c : Contract H S} (hl : s.checkLayer1 params.consensus params.testnet = .ok ())
      (h : (P.issue s.persistence params).1 = .ok c) :
      Moves s (.issue params) ⟨upsert s.contracts c.contractId c, (P.issue s.persistence params).2⟩
  | importFails {reader stream rest : Bytes} {resolver : SealResolver H S} {sigValidator : W.Validator} {id : ContractId}
      {consignment : W.Consignment} {articles : H.Articles} {e}
      (hp : W.parseConsignment.run reader = .ok (id, stream)) (hk : s.hasContract id = false)
      (hc : W.consignment.run stream = .ok (consignment, rest)) (ha : consignment.articles sigValidator = .ok articles)
      (hl : s.checkLayer1 (H.articlesConsensus articles) (H.articlesTestnet articles) = .ok ())
      (h : (P.importContract s.persistence articles consignment).1 = .error e) :
      Moves s (.consume true reader resolver sigValidator)
        ⟨s.contracts, (P.importContract s.persistence articles consignment).2⟩
  | imported {reader stream rest : Bytes} {resolver : SealResolver H S} {sigValidator : W.Validator} {id : ContractId}
      {consignment : W.Consignment} {articles : H.Articles} {c : Contract H S}
      (hp : W.parseConsignment.run reader = .ok (id, stream)) (hk : s.hasContract id = false)
      (hc : W.consignment.run stream = .ok (consignment, rest)) (ha : consignment.articles sigValidator = .ok articles)
      (hl : s.checkLayer1 (H.articlesConsensus articles) (H.articlesTestnet articles) = .ok ())
      (h : (P.importContract s.persistence articles consignment).1 = .ok c) :
      Moves s (.consume true reader resolver sigValidator)
        ⟨upsert s.contracts id c, (P.importContract s.persistence articles consignment).2⟩

theorem Moves.stay (s : Contracts P) (call : Call W) : s.Moves call s := .edits .refl

theorem Edits.moves {s s' : Contracts P} (h : s.Edits s') (call : Call W) : s.Moves call s' := .edits (.single h)

/-- Edits leave the storage alone. -/
theorem edits_persistence {s s' : Contracts P} (h : ReflTransGen Edits s s') : s'.persistence = s.persistence := by
  induction h with
  | refl => rfl
  | tail _ he ih =>
    cases he
    exact ih

/-! ## The closures -/

theorem withContract_edits {s s' : Contracts P} {id : ContractId} {f : Contract H S → R} {or_ : Option R} {r : R}
    (h : s.withContract id f or_ = some (r, s')) : ReflTransGen Edits s s' := by
  unfold withContract at h
  split at h
  · cases h
    exact .refl
  · rename_i hn
    split at h
    · rename_i c hc
      cases h
      exact .single (.edit (by rw [served, hn, hc]; rfl) .refl)
    · obtain ⟨_, _, he⟩ := Option.map_eq_some_iff.1 h
      cases he
      exact .refl

theorem withContractMut_edits {s s' : Contracts P} {id : ContractId} {f : Contract H S → R × Contract H S}
    (hf : ∀ c : Contract H S, c.Reaches (f c).2) {r : R} (h : s.withContractMut id f = some (r, s')) : s.Edits s' := by
  obtain ⟨c, hc, _, rfl⟩ := withContractMut_eq h
  exact .edit hc (hf c)

theorem withContract_persistence {s s' : Contracts P} {id : ContractId} {f : Contract H S → R} {or_ : Option R} {r : R}
    (h : s.withContract id f or_ = some (r, s')) : s'.persistence = s.persistence :=
  edits_persistence (withContract_edits h)

theorem withContractMut_persistence {s s' : Contracts P} {id : ContractId} {f : Contract H S → R × Contract H S} {r : R}
    (h : s.withContractMut id f = some (r, s')) : s'.persistence = s.persistence := by
  obtain ⟨_, _, _, rfl⟩ := withContractMut_eq h
  rfl

/-! ## The calls -/

theorem witnessIdsFrom_edits (predicate : PileFs.Witness S → Bool) (ids : List ContractId) :
    ∀ s : Contracts P, ReflTransGen Edits s (witnessIdsFrom predicate ids s).2 := by
  induction ids with
  | nil => exact fun _ => .refl
  | cons id ids ih =>
    intro s
    simp only [witnessIdsFrom]
    split
    · rename_i hw
      exact (withContract_edits hw).trans (ih _)
    · exact .refl

theorem syncFrom_edits (changed : List (S.WitnessId × WitnessStatus)) (ids : List ContractId) :
    ∀ {s s' : Contracts P} {r}, syncFrom changed ids s = some (r, s') → ReflTransGen Edits s s' := by
  induction ids with
  | nil =>
    intro s s' r h
    cases h
    exact .refl
  | cons id ids ih =>
    intro s s' r h
    have hstep : ∀ r s₁, s.withContractMut id (fun c => c.sync changed) = some (r, s₁) → s.Edits s₁ :=
      fun _ _ => withContractMut_edits fun c => c.sync_reaches changed
    simp only [syncFrom] at h
    split at h
    · cases h
    · rename_i hw
      cases h
      exact .single (hstep _ _ hw)
    · rename_i hw
      exact (ReflTransGen.single (hstep _ _ hw)).trans (ih h)

theorem include_edits {s s' : Contracts P} {id : ContractId} {o : Opid} {pub : S.Published} {anchor : S.Client}
    (h : s.include id o pub anchor = some s') : s.Edits s' := by
  obtain ⟨c, c', hc, hc', rfl⟩ := Contracts.include_eq h
  exact .edit hc (Contract.include_reaches hc').reaches

theorem issue_moves (s : Contracts P) (params : CreateParams H S) : s.Moves (.issue params) (s.issue params).2 := by
  unfold issue
  split
  · exact .stay s _
  · rename_i hl
    split
    · rename_i h
      have hm := Moves.issueFails hl (congrArg Prod.fst h)
      rw [h] at hm
      exact hm
    · rename_i h
      have hm := Moves.issued hl (congrArg Prod.fst h)
      rw [h] at hm
      exact hm

theorem consume_moves {s s' : Contracts P} {allowUnknown : Bool} {reader : Bytes} {resolver : SealResolver H S}
    {sigValidator : W.Validator} {r} (hs : s.consume allowUnknown reader resolver sigValidator = some (r, s')) :
    s.Moves (.consume allowUnknown reader resolver sigValidator) s' := by
  unfold consume at hs
  split at hs
  · cases hs
    exact .stay s _
  · rename_i id stream hp
    split at hs
    · rename_i hk
      split at hs
      · rename_i hallow
        subst hallow
        split at hs
        · cases hs
          exact .stay s _
        · rename_i consignment rest hc
          split at hs
          · cases hs
            exact .stay s _
          · rename_i articles ha
            split at hs
            · cases hs
              exact .stay s _
            · rename_i hl
              split at hs
              · rename_i h
                have hm : s.Moves (.consume true reader resolver sigValidator) _ :=
                  .importFails hp hk hc ha hl (congrArg Prod.fst h)
                rw [h] at hm
                cases hs
                exact hm
              · rename_i h
                have hm : s.Moves (.consume true reader resolver sigValidator) _ :=
                  .imported hp hk hc ha hl (congrArg Prod.fst h)
                rw [h] at hm
                cases hs
                exact hm
      · cases hs
        exact .stay s _
    · obtain ⟨⟨_, s₁⟩, hw, he⟩ := Option.map_eq_some_iff.1 hs
      cases he
      exact (withContractMut_edits (fun c => c.consumeInternal_reaches W V stream resolver sigValidator) hw).moves _

/-- **Every call** is one of the moves. -/
theorem handle_moves {s s' : Contracts P} {call : Call W} (hs : s.handle call = some s') : s.Moves call s' := by
  cases call with
  | issue params =>
    cases hs
    exact issue_moves s params
  | consume allowUnknown reader resolver sigValidator =>
    obtain ⟨⟨r, s₁⟩, hc, rfl⟩ := Option.map_eq_some_iff.1 hs
    exact consume_moves hc
  | contractCall id call seals =>
    obtain ⟨⟨r, s₁⟩, hc, rfl⟩ := Option.map_eq_some_iff.1 hs
    exact (withContractMut_edits (fun c => c.call_reaches call seals) hc).moves _
  | included id opid pub anchor => exact (include_edits hs).moves _
  | sync changed =>
    obtain ⟨⟨r, s₁⟩, hc, rfl⟩ := Option.map_eq_some_iff.1 hs
    exact .edits (syncFrom_edits changed _ hc)
  | contractState id =>
    obtain ⟨⟨r, s₁⟩, hc, rfl⟩ := Option.map_eq_some_iff.1 hs
    exact .edits (withContract_edits hc)
  | contractArticles id =>
    obtain ⟨⟨r, s₁⟩, hc, rfl⟩ := Option.map_eq_some_iff.1 hs
    exact .edits (withContract_edits hc)
  | witnessIds predicate =>
    cases hs
    exact .edits (witnessIdsFrom_edits predicate _ s)

end Contracts

end RgbStd
