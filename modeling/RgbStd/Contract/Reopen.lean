import RgbStd.Contract.Atomic
import RgbStd.Contract.Retry
/-!
# What a contract has on disk (src/pile.rs:256-270, persistence/fs/src/pile.rs:90-108, contract.rs:377-385)

The maps of a pile are written as they are changed, except for `mine`, which is written when it is committed. A
contract that is loaded again has the statuses of the last commit, and a program that ends without one panics.

| here | there |
| --- | --- |
| `PileFs.load`   | `PileFs::load` of the files of a pile; `none` where a lookup of a status would panic |
| `Contract.load` | `Contract::load` of the files of a contract; `ledgers` is `Ledger::load` |
| `LiveCall`, `live` | `call`, `include`, `sync` and `consume`, whether they return `Ok` or not; `none` is a panic |
| `Saved`         | no status waits for a commit |
| `Strands`       | a `sync` that moves a status and whose rollback fails: it returns before the commit |

* `sync_saved_iff`, `consume_saved`: what one call leaves unsaved.
* `run_saved_iff`: a run leaves nothing unsaved exactly if no call of it strands statuses.
* `run_load_failed`: however often a `sync` fails in its rollback, the contract that is loaded is the one before.
-/
namespace RgbStd
open Tables Decode

namespace PileFs

variable {S : RgbSeal}

/-- The statuses on disk are those of the witnesses on disk. -/
def Stored (p : PileFs S) : Prop :=
  (∀ e ∈ p.saved, has p.hoard e.1 = true) ∧ ∀ e ∈ p.hoard, has p.saved e.1 = true

instance (p : PileFs S) : Decidable p.Stored := inferInstanceAs (Decidable (_ ∧ _))

theorem Stored.has_eq {p : PileFs S} (h : p.Stored) (w : S.WitnessId) : has p.saved w = has p.hoard w := by
  have hiff : has p.saved w = true ↔ has p.hoard w = true := by
    constructor
    · intro hs
      obtain ⟨st, hst⟩ := has_iff.1 hs
      exact h.1 (w, st) (get_mem hst)
    · intro hh
      obtain ⟨a, ha⟩ := has_iff.1 hh
      exact h.2 (w, a) (get_mem ha)
  exact Bool.eq_iff_iff.2 hiff

/-- `PileFs::load` (pile.rs:90). -/
def load (p : PileFs S) : Option (PileFs S) :=
  if h : p.Stored then some { p with mine := p.saved, mined := h.has_eq } else none

theorem stored_of_saved {p : PileFs S} (h : ∀ w, has p.saved w = has p.hoard w) : p.Stored :=
  ⟨fun e he => (h e.1).symm.trans (has_iff_mem_keys.2 (List.mem_map_of_mem he)),
    fun e he => (h e.1).trans (has_iff_mem_keys.2 (List.mem_map_of_mem he))⟩

/-- Files that differ from those of a pile in what is not committed. -/
theorem load_eq {p q : PileFs S} (hh : p.hoard = q.hoard) (hc : p.cache = q.cache) (hk : p.keep = q.keep)
    (hi : p.index = q.index) (hs : p.stand = q.stand) (hm : p.saved = q.mine) (hq : q.saved = q.mine) :
    p.load = some q := by
  have hst : p.Stored := stored_of_saved fun w => by rw [hm, hh, q.mined]
  rw [load, dif_pos hst]
  exact congrArg some (PileFs.ext hh hc hk hi hs hm (hm.trans hq.symm))

/-- A pile with nothing to commit is found as it is. -/
theorem load_saved {p : PileFs S} (h : p.saved = p.mine) : p.load = some p := load_eq rfl rfl rfl rfl rfl h h

theorem addSeals_statuses {p p' : PileFs S} {opid : Opid} {seals : Table UInt16 S.Definition}
    (h : p.addSeals opid seals = some p') : p'.saved = p.saved ∧ p'.mine = p.mine := by
  obtain ⟨keep, -, rfl⟩ := addSeals_eq h
  exact ⟨rfl, rfl⟩

end PileFs

/-- What a contract is asked: what its owner asks it, and the reading of a stream. -/
inductive LiveCall {H : Hypersonic} {S : RgbSeal} (W : Wire H S) where
  | call (params : CallParams H.StrictVal H.StateAtom H.Satisfaction) (seals : SmallMap UInt16 S.Definition)
  | included (opid : Opid) (anchor : S.Client) (published : S.Published)
  | sync (changed : List (S.WitnessId × WitnessStatus))
  | consume (reader : Bytes) (resolver : SealResolver H S) (sigValidator : W.Validator)

/-- What `Ledger::load` finds: a ledger that is committed, and nothing of a rollback that fails. -/
structure Hypersonic.DiskLaws (H : Hypersonic) (ledgers : H.Ledger → Except H.StockError H.Ledger) : Prop where
  committed : ∀ l, ledgers (H.commit l) = .ok (H.commit l)
  rollback_error : ∀ l ops e l', H.rollback l ops = (.error e, l') → ledgers l' = ledgers l

namespace Contract

variable {H : Hypersonic} {S : RgbSeal} {W : Wire H S} {V : Verifier H S} {E α ρ : Type}

/-- `Contract::load` (contract.rs:377) of the files of a contract. -/
def load (ledgers : H.Ledger → Except H.StockError H.Ledger) (c : Contract H S) : Option (Contract H S) :=
  match ledgers c.ledger with
  | .error _ => none
  | .ok ledger => c.pile.load.map fun pile => { contractId := H.ledgerId ledger, ledger, pile }

/-- The contract a call leaves; a panic ends the program. -/
def ended : Res E α × Contract H S → Option (Contract H S)
  | (.error .panic, _) => none
  | (.error (.err _), c) => some c
  | (.ok _, c) => some c

def live (V : Verifier H S) (c : Contract H S) : LiveCall W → Option (Contract H S)
  | .call params seals => ended (c.call params seals)
  | .included opid anchor published => c.include opid anchor published
  | .sync changed => ended (c.sync changed)
  | .consume reader resolver sigValidator => ended (c.consume W V reader resolver sigValidator)

theorem ended_eq {r : Res E α × Contract H S} {c : Contract H S} (h : ended r = some c) : r.2 = c := by
  match r, h with
  | (.error (.err _), _), h => exact Option.some.inj h
  | (.ok _, _), h => exact Option.some.inj h

/-- No status waits for a commit. -/
def Saved (c : Contract H S) : Prop := c.pile.saved = c.pile.mine

/-! ## Reading a stream -/

theorem applyBlock_saved {c c' : Contract H S} {b : OperationSeals H S} (hc : c.Saved) (h : c.applyBlock b = some c') :
    c'.Saved := by
  obtain ⟨ledger, pile, -, hp, h⟩ := applyBlock_eq h
  obtain ⟨hsaved, hmine⟩ := PileFs.addSeals_statuses hp
  cases hw : b.witness with
  | none =>
    simp only [hw] at h
    cases h
    exact (hsaved.trans hc).trans hmine.symm
  | some w =>
    simp only [hw] at h
    obtain ⟨_, _, _, _, rfl⟩ := include_eq h
    rfl

theorem evaluateRest_saved (ops : Feed E ρ (OperationSeals H S)) :
    ∀ {c : Contract H S} (st : V.State), c.Saved → (c.evaluateRest V st ops).2.Saved := by
  induction ops with
  | done r => exact fun _ hc => hc
  | failed e => exact fun _ hc => hc
  | next b more ih =>
    intro c st hc
    simp only [evaluateRest]
    split
    · exact hc
    · split
      · exact hc
      · rename_i hb
        exact ih _ (applyBlock_saved hc hb)

theorem evaluateCommit_saved {c : Contract H S} (hc : c.Saved) (ops : Feed E ρ (OperationSeals H S)) :
    (c.evaluateCommit V ops).2.Saved := by
  have hev : (c.evaluate V ops).2.Saved := by
    unfold evaluate
    split
    · split
      · exact evaluateRest_saved _ _ hc
      · exact hc
    · exact evaluateRest_saved _ _ hc
  unfold evaluateCommit
  split <;> rename_i he <;> rw [he] at hev
  · exact hev
  · rfl

theorem upgrade_pile (c : Contract H S) (head : W.Head) (sigValidator : W.Validator) :
    (c.upgrade W V head sigValidator).2.pile = c.pile := by
  unfold upgrade
  split
  · rfl
  · split <;> rfl

/-- **Reading a stream** leaves nothing unsaved, at whatever point it fails: each witness is committed as it is
included. -/
theorem consume_saved {c : Contract H S} (hc : c.Saved) (reader : Bytes) (resolver : SealResolver H S)
    (sigValidator : W.Validator) : (c.consume W V reader resolver sigValidator).2.Saved := by
  unfold consume
  split
  · exact hc
  · split
    · exact hc
    · unfold consumeInternal
      split
      · exact hc
      · rename_i head stream _
        have hev := evaluateCommit_saved (V := V) hc (Wire.OpReader.feed W resolver ⟨stream, Wire.COUNT_FOLLOWS⟩)
        unfold consumeOps
        split <;> rename_i he <;> rw [he] at hev
        · exact hev
        · exact hev
        · rename_i c₁
          have hp := c₁.upgrade_pile (V := V) head sigValidator
          show _ = _
          rw [hp]
          exact hev

/-! ## Synchronisation -/

theorem updateStatuses_frame (wids : Table S.WitnessId WitnessStatus) : ∀ {p p' : PileFs S},
    updateStatuses p wids = some p' → p'.hoard = p.hoard ∧ p'.cache = p.cache ∧ p'.keep = p.keep ∧
      p'.index = p.index ∧ p'.stand = p.stand ∧ p'.saved = p.saved := by
  induction wids with
  | nil =>
    intro p p' h
    cases h
    exact ⟨rfl, rfl, rfl, rfl, rfl, rfl⟩
  | cons e wids ih =>
    intro p p' h
    obtain ⟨p₁, h₁, h⟩ := Option.bind_eq_some_iff.1 h
    have h₁ : p.updateWitnessStatus e.1 e.2 = some p₁ := h₁
    unfold PileFs.updateWitnessStatus at h₁
    split at h₁
    · cases h₁
      have hframe := ih h
      exact hframe
    · cases h₁

/-- **What a `sync` comes to**: the statuses are written, and then the rollback fails, or they are committed. -/
theorem sync_cases (c : Contract H S) (changed : List (S.WitnessId × WitnessStatus)) :
    ∃ pile, updateStatuses c.pile (sanitize c.pile changed) = some pile ∧
      ((∃ e, (H.rollback c.ledger (c.toRollBack changed pile)).1 = .error e ∧ c.sync changed =
          (.error (.err (.b e)), { c with pile, ledger := (H.rollback c.ledger (c.toRollBack changed pile)).2 })) ∨
        ((H.rollback c.ledger (c.toRollBack changed pile)).1 = .ok () ∧ (c.sync changed).2.pile = pile.commit)) := by
  obtain ⟨pile, hp, -⟩ := updateStatuses_sanitize c.pile changed
  refine ⟨pile, hp, ?_⟩
  cases hr : H.rollback c.ledger (c.toRollBack changed pile) with
  | mk r ledger =>
    have hsync := hr
    unfold toRollBack at hsync
    cases r with
    | error e =>
      refine Or.inl ⟨e, rfl, ?_⟩
      simp only [sync, hp, hsync]
    | ok u =>
      refine Or.inr ⟨rfl, ?_⟩
      simp only [sync, hp, hsync]
      split <;> rfl

/-- The operations a `sync` wants rolled back. -/
def rollsBack (c : Contract H S) (changed : List (S.WitnessId × WitnessStatus)) : List Opid :=
  match updateStatuses c.pile (sanitize c.pile changed) with
  | none => []
  | some pile => c.toRollBack changed pile

/-- The list changes what is stored, and the ledger fails to roll back what that makes invalid. -/
def StrandsList (c : Contract H S) (changed : List (S.WitnessId × WitnessStatus)) : Prop :=
  ¬Unmoved c.pile changed ∧ ∃ e, (H.rollback c.ledger (c.rollsBack changed)).1 = .error e

/-- **A `sync`** leaves something unsaved exactly if it strands its list. -/
theorem sync_saved_iff {c : Contract H S} (hc : c.Saved) (changed : List (S.WitnessId × WitnessStatus)) :
    (c.sync changed).2.Saved ↔ ¬c.StrandsList changed := by
  obtain ⟨pile, hp, hcases⟩ := c.sync_cases changed
  have hrolls : c.rollsBack changed = c.toRollBack changed pile := by simp only [rollsBack, hp]
  have hframe := updateStatuses_frame _ hp
  unfold StrandsList
  rw [hrolls]
  rcases hcases with ⟨e, hr, hs⟩ | ⟨hr, hs⟩
  · rw [hs, hr]
    constructor
    · rintro hsaved ⟨hmoved, -⟩
      have hmine : pile.mine = c.pile.mine := by
        have hsv : pile.saved = pile.mine := hsaved
        rw [← hsv, hframe.2.2.2.2.2]
        exact hc
      have hkept : ∀ w, pile.witnessStatus w = c.pile.witnessStatus w := fun w => by
        simp only [PileFs.witnessStatus, hmine]
      exact hmoved ((statuses_kept_iff hp).1 hkept)
    · intro hno
      have hself : Unmoved c.pile changed := not_not.1 fun hmoved => hno ⟨hmoved, e, rfl⟩
      obtain rfl : c.pile = pile := Option.some.inj (hself.updateStatuses.symm.trans hp)
      exact hc
  · rw [hr]
    refine iff_of_true ?_ fun h => ?_
    · show _ = _
      rw [hs]
      rfl
    · obtain ⟨-, e, he⟩ := h
      cases he

/-! ## Runs -/

/-- The call strands statuses. -/
def Strands (c : Contract H S) : LiveCall W → Prop
  | .sync changed => c.StrandsList changed
  | _ => False

theorem live_saved_iff {c c' : Contract H S} {call : LiveCall W} (hc : c.Saved) (h : live V c call = some c') :
    c'.Saved ↔ ¬c.Strands call := by
  cases call with
  | call params seals =>
    refine iff_of_true ?_ id
    rw [← ended_eq h]
    unfold Contract.call
    split
    · exact hc
    · split
      · exact hc
      · rename_i hp
        obtain ⟨hsaved, hmine⟩ := PileFs.addSeals_statuses hp
        exact (hsaved.trans hc).trans hmine.symm
  | included opid anchor published =>
    obtain ⟨_, _, _, _, rfl⟩ := include_eq h
    exact iff_of_true rfl id
  | sync changed =>
    rw [← ended_eq h]
    exact sync_saved_iff hc changed
  | consume reader resolver sigValidator =>
    rw [← ended_eq h]
    exact iff_of_true (consume_saved hc reader resolver sigValidator) id

/-- **Nothing is left unsaved** throughout a run of calls, whatever they return, exactly if no `sync` of it strands
its statuses. -/
theorem run_saved_iff {c : Contract H S} (hc : c.Saved) {calls : List (LiveCall W)} {states : List (Contract H S)}
    (hrun : Runs.run (live V) c calls = some states) :
    (∀ c' ∈ states, c'.Saved) ↔ Runs.Along (live V) (fun c call => ¬c.Strands call) c calls :=
  Runs.run_inv_iff (P := fun _ => True) (fun _ _ _ hc _ hs => live_saved_iff hc hs) calls c states hc
    (fun _ _ => trivial) hrun

/-! ## Loading -/

/-- **A contract at rest** is loaded as it is. -/
theorem load_atRest {ledgers : H.Ledger → Except H.StockError H.Ledger} (hD : H.DiskLaws ledgers) {c : Contract H S}
    (hc : c.AtRest) (hid : c.contractId = H.ledgerId c.ledger) : c.load ledgers = some c := by
  obtain ⟨hl, hs⟩ := hc
  have hload : ledgers c.ledger = .ok c.ledger := by
    have := hD.committed c.ledger
    rwa [hl] at this
  simp only [load, hload, PileFs.load_saved hs, Option.map_some, ← hid]

/-- The contract after a `sync` whose rollback fails. -/
def failedSync (c : Contract H S) (changed : List (S.WitnessId × WitnessStatus)) : Option (Contract H S) :=
  match (H.rollback c.ledger (c.rollsBack changed)).1 with
  | .error _ => some (c.sync changed).2
  | .ok () => none

/-- What is on disk of `c'` is what is on disk of `c`, where nothing waits. -/
structure OnDisk (ledgers : H.Ledger → Except H.StockError H.Ledger) (c c' : Contract H S) : Prop where
  ledger : ledgers c'.ledger = ledgers c.ledger
  hoard : c'.pile.hoard = c.pile.hoard
  cache : c'.pile.cache = c.pile.cache
  keep : c'.pile.keep = c.pile.keep
  index : c'.pile.index = c.pile.index
  stand : c'.pile.stand = c.pile.stand
  saved : c'.pile.saved = c.pile.mine

theorem OnDisk.failedSync {ledgers : H.Ledger → Except H.StockError H.Ledger} (hD : H.DiskLaws ledgers)
    {c c₁ c₂ : Contract H S} (h : OnDisk ledgers c c₁) {changed : List (S.WitnessId × WitnessStatus)}
    (hs : c₁.failedSync changed = some c₂) : OnDisk ledgers c c₂ := by
  obtain ⟨pile, hp, hcases⟩ := c₁.sync_cases changed
  have hrolls : c₁.rollsBack changed = c₁.toRollBack changed pile := by simp only [rollsBack, hp]
  unfold Contract.failedSync at hs
  rw [hrolls] at hs
  rcases hcases with ⟨e, hr, hsync⟩ | ⟨hr, -⟩
  · rw [hr, hsync] at hs
    cases hs
    obtain ⟨hh, hc, hk, hi, hst, hsv⟩ := updateStatuses_frame _ hp
    have hdisk := hD.rollback_error _ _ e _ (Prod.ext hr rfl)
    exact ⟨hdisk.trans h.ledger, hh.trans h.hoard, hc.trans h.cache, hk.trans h.keep, hi.trans h.index,
      hst.trans h.stand, hsv.trans h.saved⟩
  · rw [hr] at hs
    cases hs

theorem OnDisk.load {ledgers : H.Ledger → Except H.StockError H.Ledger} {c c' : Contract H S} (h : OnDisk ledgers c c')
    (hc : c.Saved) : c'.load ledgers = c.load ledgers := by
  unfold Contract.load
  rw [h.ledger, PileFs.load_eq h.hoard h.cache h.keep h.index h.stand h.saved hc, PileFs.load_saved hc]

/-- **Failed synchronisations are undone** by loading the contract again, however many there were and whatever their
lists: it is as before the first of them. -/
theorem run_load_failed {ledgers : H.Ledger → Except H.StockError H.Ledger} (hD : H.DiskLaws ledgers) {c : Contract H S}
    (hc : c.AtRest) (hid : c.contractId = H.ledgerId c.ledger) {calls : List (List (S.WitnessId × WitnessStatus))}
    {states : List (Contract H S)} (hrun : Runs.run failedSync c calls = some states) :
    ∀ c' ∈ states, c'.load ledgers = some c := by
  have hinv : ∀ c' ∈ states, OnDisk ledgers c c' :=
    Runs.run_inv (fun _ _ _ h _ hs => h.failedSync hD hs) calls c states
      ⟨rfl, rfl, rfl, rfl, rfl, rfl, hc.2⟩ (Runs.along_true calls c) hrun
  intro c' hc'
  rw [(hinv c' hc').load hc.2, load_atRest hD hc hid]

end Contract

/-! ## A ledger that cannot roll back -/

/-- The reference ledger, where a rollback of an operation fails. -/
@[reducible] def stuckSonic : Hypersonic :=
  { refSonic with rollback := fun l ops => if ops = [] then (.ok (), l) else (.error (), l) }

/-- Its files hold what is committed. -/
def stuckLedgers (l : RefLedger) : Except Unit RefLedger := .ok { l with pending := false }

theorem stuckSonic_diskLaws : stuckSonic.DiskLaws stuckLedgers where
  committed l := rfl
  rollback_error l ops e l' h := by
    have h : (if ops = [] then (.ok (), l) else (.error (), l) : Except Unit Unit × RefLedger) = (.error e, l') := h
    split at h <;> cases h
    rfl

namespace Stuck

/-- `Reorg.contract` on that ledger, with everything committed. -/
def contract : Contract stuckSonic refSeal := ⟨Reorg.rid, Reorg.contract.ledger, Reorg.pile.commit⟩

/-- The child's transaction is archived, then that of its parent. -/
def archived : List (List (Nat × WitnessStatus)) := [[(2, .archived)], [(1, .archived)]]

end Stuck

/-- `Reorg.contract` with its statuses committed. -/
def Reorg.settled : Contract refSonic refSeal := ⟨Reorg.rid, Reorg.contract.ledger, Reorg.pile.commit⟩

/-- The same list twice. -/
def Reorg.twice : List (LiveCall refWire) := [.sync [(2, .archived)], .sync [(2, .archived)]]

/-- A synchronisation that works and one without news leave nothing unsaved. -/
theorem run_saved_twice : ∃ states, Runs.run (Contract.live refVerifier) Reorg.settled Reorg.twice = some states ∧
    states.length = 2 ∧ ∀ c' ∈ states, c'.Saved := by
  obtain ⟨states, h, hl⟩ : ∃ states, Runs.run (Contract.live refVerifier) Reorg.settled Reorg.twice = some states ∧
    states.length = 2 := ⟨_, rfl, rfl⟩
  have hc : Reorg.settled.Saved := rfl
  refine ⟨states, h, hl, (Contract.run_saved_iff hc h).2 (Runs.along_of_forall (fun c call hcall => ?_) _)⟩
  have hsync : call = .sync [(2, .archived)] := by
    simpa [Reorg.twice] using hcall
  subst hsync
  rintro ⟨-, e, he⟩
  cases he

/-- Two rollbacks fail, and the contract is loaded as it was. -/
theorem run_load_stuck : ∃ states, Runs.run Contract.failedSync Stuck.contract Stuck.archived = some states ∧
    states.length = 2 ∧ ∀ c' ∈ states, c'.load stuckLedgers = some Stuck.contract := by
  obtain ⟨states, h, hl⟩ : ∃ states, Runs.run Contract.failedSync Stuck.contract Stuck.archived = some states ∧
    states.length = 2 := ⟨_, rfl, rfl⟩
  exact ⟨states, h, hl, Contract.run_load_failed stuckSonic_diskLaws ⟨rfl, rfl⟩ rfl h⟩

end RgbStd
