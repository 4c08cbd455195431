import RgbStd.Contract.Sync
/-!
# A `sync` whose rollback fails (contract.rs:525-593)

The statuses are written in step 3, the ledger is asked to roll back in step 5, and step 1 of the
next call compares its list with the statuses as they then are.

* `RollbackFails`: the failing call; `rollbackFails_eq` is what it leaves behind.
* `statuses_kept_iff`: the statuses are as before exactly if what the list writes is stored as what is there.
* `retriable_iff`: a failed call can be made good if and only if it had nothing to change.
-/
namespace RgbStd
open Tables

namespace Contract

variable {H : Hypersonic} {S : RgbSeal}

/-! ## Step 1 -/

/-- What the list brings of news is stored as what is there. -/
def Unmoved (p : PileFs S) (changed : List (S.WitnessId × WitnessStatus)) : Prop :=
  ∀ w st, lastNews p changed w = some st → st.stored = p.witnessStatus w

/-- A call that has another status to write changes one. -/
theorem statuses_kept_iff {p p' : PileFs S} {changed : List (S.WitnessId × WitnessStatus)}
    (h : updateStatuses p (sanitize p changed) = some p') :
    (∀ w, p'.witnessStatus w = p.witnessStatus w) ↔ Unmoved p changed := by
  obtain ⟨p₁, h₁, -, -, -, hw⟩ := updateStatuses_sanitize p changed
  obtain rfl : p' = p₁ := Option.some.inj (h.symm.trans h₁)
  refine forall_congr' fun w => ?_
  rw [hw, after, get_sanitize]
  cases lastNews p changed w with
  | none => simp
  | some st => simp

/-- Statuses that are stored as what is there leave the tables as they are. -/
theorem updateStatuses_self {wids : Table S.WitnessId WitnessStatus} {p : PileFs S}
    (h : ∀ e ∈ wids, p.hasWitness e.1 = true ∧ e.2.stored = p.witnessStatus e.1) : updateStatuses p wids = some p := by
  induction wids with
  | nil => rfl
  | cons e wids ih =>
    obtain ⟨⟨hk, hst⟩, hrest⟩ := List.forall_mem_cons.1 h
    have hmine : upsert p.mine e.1 e.2.store = p.mine := by
      apply upsert_of_get
      rw [PileFs.get_mine hk]
      exact congrArg some (Subtype.ext ((p.stored_witnessStatus e.1).trans hst.symm))
    have hone : p.updateWitnessStatus e.1 e.2 = some p :=
      (dif_pos hk).trans (congrArg some (PileFs.ext rfl rfl rfl rfl rfl hmine rfl))
    rw [updateStatuses, List.foldlM_cons, hone]
    exact ih hrest

theorem Unmoved.updateStatuses {p : PileFs S} {changed : List (S.WitnessId × WitnessStatus)} (h : Unmoved p changed) :
    updateStatuses p (sanitize p changed) = some p := by
  refine updateStatuses_self fun e he => ⟨(mem_sanitize he).2.1, h e.1 e.2 ?_⟩
  rw [← get_sanitize]
  exact get_eq_of_mem (nodup_sanitize p changed) he

/-! ## The failing call -/

/-- The operations the call wants rolled back, after the pile has become `pile`. -/
def toRollBack (c : Contract H S) (changed : List (S.WitnessId × WitnessStatus)) (pile : PileFs S) : List Opid :=
  (({ c with pile } : Contract H S).splitOps (c.affectedOps (sanitize c.pile changed))).1

/-- The call reaches its rollback, which fails and leaves the ledger as it is. -/
def RollbackFails (c : Contract H S) (changed : List (S.WitnessId × WitnessStatus)) (e : H.StockError)
    (c' : Contract H S) : Prop :=
  ∃ pile, updateStatuses c.pile (sanitize c.pile changed) = some pile ∧
    H.rollback c.ledger (c.toRollBack changed pile) = (.error e, c.ledger) ∧
    c.sync changed = (.error (.err (.b e)), c')

/-- **What a failing call leaves behind**: the pile with the new statuses. -/
theorem rollbackFails_eq {c c' : Contract H S} {changed : List (S.WitnessId × WitnessStatus)} {e : H.StockError}
    (h : c.RollbackFails changed e c') :
    ∃ pile, updateStatuses c.pile (sanitize c.pile changed) = some pile ∧ c' = { c with pile } := by
  obtain ⟨pile, hp, hr, hs⟩ := h
  refine ⟨pile, hp, ?_⟩
  simp only [sync, hp] at hs
  simp only [toRollBack] at hr
  rw [hr] at hs
  cases hs
  rfl

/-- The ledger with the same operations, as the same call finds it when it works again. -/
structure SameLedger (l l' : H.Ledger) : Prop where
  operations : H.operations l = H.operations l'
  ancestors : H.ancestors l = H.ancestors l'
  isValid : H.isValid l = H.isValid l'

/-- The failed call left the statuses alone, so that the same list given again ends as if it had not
been made. -/
structure Retriable (c c' : Contract H S) (changed : List (S.WitnessId × WitnessStatus)) : Prop where
  statuses : ∀ w, c'.pile.witnessStatus w = c.pile.witnessStatus w
  retry : ∀ l c₁ c₂, SameLedger l c.ledger → ({ c' with ledger := l } : Contract H S).sync changed = (.ok (), c₁) →
    ({ c with ledger := l } : Contract H S).sync changed = (.ok (), c₂) →
    (∀ w, c₁.pile.witnessStatus w = c₂.pile.witnessStatus w) ∧ ∀ o, H.isValid c₁.ledger o = H.isValid c₂.ledger o

/-- **A failed `sync` can be retried** if and only if it had nothing to store but what is there. -/
theorem retriable_iff {c c' : Contract H S} {changed : List (S.WitnessId × WitnessStatus)} {e : H.StockError}
    (h : c.RollbackFails changed e c') : c.Retriable c' changed ↔ Unmoved c.pile changed := by
  obtain ⟨pile, hp, rfl⟩ := rollbackFails_eq h
  rw [← statuses_kept_iff hp]
  constructor
  · exact fun hr => hr.statuses
  · intro hkept
    have hself := ((statuses_kept_iff hp).1 hkept).updateStatuses
    obtain rfl : pile = c.pile := Option.some.inj (hp.symm.trans hself)
    refine ⟨hkept, fun l c₁ c₂ _ h₁ h₂ => ?_⟩
    have h₁' : ({ c with ledger := l } : Contract H S).sync changed = (.ok (), c₁) := h₁
    rw [h₁'] at h₂
    cases h₂
    exact ⟨fun _ => rfl, fun _ => rfl⟩

end Contract

/-! ## A stock that fails once -/

/-- The reference ledger, where a rollback fails as long as something is pending. -/
@[reducible] def faultySonic : Hypersonic :=
  { refSonic with
    rollback := fun l S => if l.pending then (.error (), l) else (.ok (), l.rollback S) }

namespace Faulty

/-- `Reorg.contract` on that ledger, with something pending. -/
def contract : Contract faultySonic refSeal :=
  ⟨Reorg.rid, ⟨Reorg.articles, [Reorg.child, Reorg.parent, Reorg.genesis], [], [Reorg.parent.opid, Reorg.child.opid], true⟩,
    Reorg.pile⟩

def archived : List (Nat × WitnessStatus) := [(2, .archived)]

end Faulty

/-- A list without news leaves no trace. -/
theorem retry_known : Faulty.contract.Retriable (Faulty.contract.sync [(1, .tentative)]).2 [(1, .tentative)] := by
  have h : Faulty.contract.RollbackFails [(1, .tentative)] () (Faulty.contract.sync [(1, .tentative)]).2 :=
    ⟨_, rfl, rfl, rfl⟩
  refine (Contract.retriable_iff h).2 fun w st hnews => ?_
  have hm := List.mem_filter.1 (List.mem_reverse.1 (get_mem hnews))
  cases List.mem_singleton.1 hm.1
  decide

/-- The child's transaction is archived and the rollback fails; when the list is given again the
child stays valid. -/
theorem retry_archived :
    ¬∀ (H : Hypersonic) (S : RgbSeal) (c c' : Contract H S) changed e, c.RollbackFails changed e c' →
      c.Retriable c' changed := by
  intro h
  have hr := h faultySonic refSeal Faulty.contract _ Faulty.archived () ⟨_, rfl, rfl, rfl⟩
  have hv := (hr.retry { Faulty.contract.ledger with pending := false } _ _ ⟨rfl, rfl, rfl⟩ rfl rfl).2 Reorg.child.opid
  revert hv
  decide

end RgbStd
