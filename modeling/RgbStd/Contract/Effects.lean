import Mathlib.Logic.Relation
import RgbStd.Contract.Consume
/-!
# What a call does to a contract

Whatever a contract is asked, what changes is its ledger, by one of six functions of the library, and its
pile, by one of four. A call is a sequence of these effects, also where it fails half-way.

* `EvalEffect`, `Effect`: the effects of evaluating operations, and all of them.
* `include_reaches` … `consumeInternal_reaches`: the effects of each call.
* `Reaches.contractId`: none of them changes the id of the contract.
* `EvalKeeps.reaches`, `Keeps.reaches`: what the functions of the library keep, every call keeps.
-/
namespace RgbStd
open Tables Decode Relation

namespace Contract

variable {H : Hypersonic} {S : RgbSeal} {E ρ : Type}

/-- One effect of evaluating operations. -/
inductive EvalEffect : Contract H S → Contract H S → Prop where
  | apply {c : Contract H S} {op : H.Operation} {ledger : H.Ledger} (h : H.apply c.ledger op = some ledger) :
      EvalEffect c { c with ledger }
  | commitLedger (c : Contract H S) : EvalEffect c { c with ledger := H.commit c.ledger }
  | seals {c : Contract H S} {opid : Opid} {seals : Table UInt16 S.Definition} {pile : PileFs S}
      (h : c.pile.addSeals opid seals = some pile) : EvalEffect c { c with pile }
  | witness {c : Contract H S} {opid : Opid} {wid : S.WitnessId} {published : S.Published} {anchor : S.Client}
      {pile : PileFs S} (h : c.pile.addWitness opid wid published anchor .tentative = some pile) :
      EvalEffect c { c with pile }
  | commitPile (c : Contract H S) : EvalEffect c { c with pile := c.pile.commit }

/-- One effect of a call. -/
inductive Effect : Contract H S → Contract H S → Prop where
  | eval {c c' : Contract H S} (h : EvalEffect c c') : Effect c c'
  | call (c : Contract H S) (params : CallParams H.StrictVal H.StateAtom H.Satisfaction) :
      Effect c { c with ledger := (H.call c.ledger params).2 }
  | rollback (c : Contract H S) (ops : List Opid) : Effect c { c with ledger := (H.rollback c.ledger ops).2 }
  | forward (c : Contract H S) (ops : List Opid) : Effect c { c with ledger := (H.forward c.ledger ops).2 }
  | upgrade (c : Contract H S) (articles : H.Articles) : Effect c { c with ledger := (H.upgradeApis c.ledger articles).2 }
  | status {c : Contract H S} {wid : S.WitnessId} {status : WitnessStatus} {pile : PileFs S}
      (h : c.pile.updateWitnessStatus wid status = some pile) : Effect c { c with pile }

abbrev EvalReaches : Contract H S → Contract H S → Prop := ReflTransGen EvalEffect

abbrev Reaches : Contract H S → Contract H S → Prop := ReflTransGen Effect

theorem EvalReaches.reaches {c c' : Contract H S} (h : c.EvalReaches c') : c.Reaches c' :=
  ReflTransGen.mono (fun _ _ => Effect.eval) _ _ h

/-! ## The effects of each call -/

theorem include_reaches {c c' : Contract H S} {opid : Opid} {anchor : S.Client} {published : S.Published}
    (h : c.include opid anchor published = some c') : c.EvalReaches c' := by
  obtain ⟨_, pile, _, hp, rfl⟩ := include_eq h
  exact (ReflTransGen.single (.witness hp)).tail (.commitPile { c with pile })

theorem applyBlock_reaches {c c' : Contract H S} {b : OperationSeals H S} (h : c.applyBlock b = some c') :
    c.EvalReaches c' := by
  obtain ⟨ledger, pile, hl, hp, h⟩ := applyBlock_eq h
  have hseals : c.EvalReaches { c with ledger, pile } :=
    (ReflTransGen.single (.apply hl)).tail (.seals (c := { c with ledger }) hp)
  cases hw : b.witness with
  | none =>
    simp only [hw] at h
    cases h
    exact hseals
  | some w =>
    simp only [hw] at h
    exact hseals.trans (include_reaches h)

theorem evaluateRest_reaches (V : Verifier H S) (ops : Feed E ρ (OperationSeals H S)) :
    ∀ (c : Contract H S) (st : V.State), c.EvalReaches (c.evaluateRest V st ops).2 := by
  induction ops with
  | done r => exact fun _ _ => .refl
  | failed e => exact fun _ _ => .refl
  | next b more ih =>
    intro c st
    simp only [evaluateRest]
    split
    · exact .refl
    · split
      · exact .refl
      · rename_i hb
        exact (applyBlock_reaches hb).trans (ih _ _)

theorem evaluateCommit_reaches (V : Verifier H S) (c : Contract H S) (ops : Feed E ρ (OperationSeals H S)) :
    c.EvalReaches (c.evaluateCommit V ops).2 := by
  have hev : c.EvalReaches (c.evaluate V ops).2 := by
    unfold evaluate
    split
    · split
      · exact evaluateRest_reaches V _ _ _
      · exact .refl
    · exact evaluateRest_reaches V _ _ _
  unfold evaluateCommit
  split <;> rename_i he <;> rw [he] at hev
  · exact hev
  · exact (hev.tail (.commitLedger _)).tail (.commitPile _)

theorem upgrade_reaches (W : Wire H S) (V : Verifier H S) (c : Contract H S) (head : W.Head) (sigValidator : W.Validator) :
    c.Reaches (c.upgrade W V head sigValidator).2 := by
  unfold upgrade
  split
  · exact .refl
  · rename_i articles _
    have hu : c.Reaches { c with ledger := (H.upgradeApis c.ledger articles).2 } := .single (.upgrade c articles)
    split <;> rename_i he <;> rw [he] at hu <;> exact hu

theorem consumeInternal_reaches (W : Wire H S) (V : Verifier H S) (c : Contract H S) (reader : Bytes)
    (resolver : SealResolver H S) (sigValidator : W.Validator) :
    c.Reaches (c.consumeInternal W V reader resolver sigValidator).2 := by
  unfold consumeInternal
  split
  · exact .refl
  · rename_i head stream _
    have hev := (evaluateCommit_reaches V c (Wire.OpReader.feed W resolver ⟨stream, Wire.COUNT_FOLLOWS⟩)).reaches
    unfold consumeOps
    split <;> rename_i he <;> rw [he] at hev
    · exact hev
    · exact hev
    · exact hev.trans (upgrade_reaches W V _ head sigValidator)

theorem updateStatuses_reaches (wids : Table S.WitnessId WitnessStatus) :
    ∀ {c : Contract H S} {pile : PileFs S}, updateStatuses c.pile wids = some pile → c.Reaches { c with pile } := by
  induction wids with
  | nil =>
    intro c pile h
    cases h
    exact .refl
  | cons e wids ih =>
    intro c pile h
    obtain ⟨p, hp, h⟩ := Option.bind_eq_some_iff.1 h
    exact (ReflTransGen.single (.status hp)).trans (ih (c := { c with pile := p }) h)

theorem sync_reaches (c : Contract H S) (changed : List (S.WitnessId × WitnessStatus)) : c.Reaches (c.sync changed).2 := by
  simp only [sync]
  split
  · exact .refl
  · rename_i pile hp
    have hr := (updateStatuses_reaches _ hp).tail
      (.rollback _ (splitOps { c with pile } (c.affectedOps (sanitize c.pile changed))).1)
    split
    · rename_i he
      rw [he] at hr
      exact hr
    · rename_i ledger he
      rw [he] at hr
      have hf := (hr.tail (.eval (.commitPile _))).tail
        (.forward _ (splitOps { c with pile } (c.affectedOps (sanitize c.pile changed))).2)
      split <;> rename_i he <;> rw [he] at hf
      · exact hf
      · exact hf.tail (.eval (.commitPile _))

theorem call_reaches (c : Contract H S) (params : CallParams H.StrictVal H.StateAtom H.Satisfaction)
    (seals : SmallMap UInt16 S.Definition) : c.Reaches (c.call params seals).2 := by
  have hl : c.Reaches { c with ledger := (H.call c.ledger params).2 } := .single (.call c params)
  unfold call
  split
  · rename_i he
    rw [he] at hl
    exact hl
  · rename_i ledger he
    rw [he] at hl
    split
    · exact hl
    · rename_i pile hp
      exact hl.tail (.eval (.seals (c := { c with ledger }) hp))

theorem withArticles_reaches {W : Wire H S} {V : Verifier H S} {PileError : Type} {newPile : Except PileError (PileFs S)}
    {articles : H.Articles} {consignment : W.Consignment} {c : Contract H S}
    (h : withArticles W V newPile articles consignment = .ok c) :
    ∃ ledger pile, H.new articles = .ok ledger ∧ EvalReaches ⟨H.articlesId articles, ledger, pile⟩ c := by
  obtain ⟨ledger, _, pile, hn, _, _, hev⟩ := withArticles_eq_ok h
  have hr := evaluateCommit_reaches V ⟨H.articlesId articles, ledger, pile⟩ consignment.intoOperations.feed
  rw [hev] at hr
  exact ⟨ledger, pile, hn, hr⟩

/-! ## The id of a contract -/

theorem Effect.contractId {c c' : Contract H S} (h : Effect c c') : c'.contractId = c.contractId := by
  cases h with
  | eval h => cases h <;> rfl
  | call => rfl
  | rollback => rfl
  | forward => rfl
  | upgrade => rfl
  | status => rfl

/-- **No call** changes the id of a contract. -/
theorem Reaches.contractId {c c' : Contract H S} (h : c.Reaches c') : c'.contractId = c.contractId := by
  induction h with
  | refl => rfl
  | tail _ he ih => exact he.contractId.trans ih

theorem withArticles_contractId {W : Wire H S} {V : Verifier H S} {PileError : Type}
    {newPile : Except PileError (PileFs S)} {articles : H.Articles} {consignment : W.Consignment} {c : Contract H S}
    (h : withArticles W V newPile articles consignment = .ok c) : c.contractId = H.articlesId articles := by
  obtain ⟨_, _, -, hr⟩ := withArticles_reaches h
  exact hr.reaches.contractId

end Contract

/-! ## Properties of the ledger -/

/-- A property of ledgers which the evaluation of operations keeps. -/
structure Hypersonic.EvalKeeps (H : Hypersonic) (I : H.Ledger → Prop) : Prop where
  apply : ∀ l op l', I l → H.apply l op = some l' → I l'
  commit : ∀ l, I l → I (H.commit l)

/-- A property of ledgers which the functions of the library keep. -/
structure Hypersonic.Keeps (H : Hypersonic) (I : H.Ledger → Prop) : Prop extends H.EvalKeeps I where
  call : ∀ l p, I l → I (H.call l p).2
  rollback : ∀ l ops, I l → I (H.rollback l ops).2
  forward : ∀ l ops, I l → I (H.forward l ops).2
  upgrade : ∀ l a, I l → I (H.upgradeApis l a).2

namespace Hypersonic

variable {H : Hypersonic} {S : RgbSeal} {I : H.Ledger → Prop}

theorem EvalKeeps.effect (hI : H.EvalKeeps I) {c c' : Contract H S} (h : Contract.EvalEffect c c') (hc : I c.ledger) :
    I c'.ledger := by
  cases h with
  | apply h => exact hI.apply _ _ _ hc h
  | commitLedger => exact hI.commit _ hc
  | seals h => exact hc
  | witness h => exact hc
  | commitPile => exact hc

theorem Keeps.effect (hI : H.Keeps I) {c c' : Contract H S} (h : Contract.Effect c c') (hc : I c.ledger) : I c'.ledger := by
  cases h with
  | eval h => exact hI.toEvalKeeps.effect h hc
  | call => exact hI.call _ _ hc
  | rollback => exact hI.rollback _ _ hc
  | forward => exact hI.forward _ _ hc
  | upgrade => exact hI.upgrade _ _ hc
  | status h => exact hc

theorem EvalKeeps.reaches (hI : H.EvalKeeps I) {c c' : Contract H S} (h : c.EvalReaches c') (hc : I c.ledger) :
    I c'.ledger := by
  induction h with
  | refl => exact hc
  | tail _ he ih => exact hI.effect he ih

/-- **What the library keeps**, every call keeps. -/
theorem Keeps.reaches (hI : H.Keeps I) {c c' : Contract H S} (h : c.Reaches c') (hc : I c.ledger) : I c'.ledger := by
  induction h with
  | refl => exact hc
  | tail _ he ih => exact hI.effect he ih

end Hypersonic

end RgbStd
