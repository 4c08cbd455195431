import RgbStd.Contract.Basic
import RgbStd.Core.Reference
import RgbStd.Lib.Runs
import RgbStd.Lib.Propagate
/-!
# What `Contract::sync` does to the ledger

`sync` compares the *own* status of each affected operation before and after the update and
rolls back or forwards the difference; the ledger propagates both along the history.

* `sync_spec`: the two lists are exactly the operations that lost, respectively gained, a valid
  best status, and the statuses afterwards are the listed ones.
* `sync_isValid`: the ledger validity afterwards, as the general `Propagate.settle`.
* `sync_consistent_iff`, `sync_run_consistent_iff`: validity keeps agreeing with the witnesses
  of the whole history exactly as long as no call restores an operation above or below one that
  stays archived.
-/
namespace RgbStd
open Tables

/-- What the reorganisation handling assumes of the ledger: `rollback(S)` invalidates exactly `S`
and its descendants, `forward(S)` makes exactly `S` and its descendants valid, and neither changes
the operations known or their histories. -/
structure Hypersonic.ReorgLaws (H : Hypersonic) : Prop where
  ancestors_self : ∀ l o, o ∈ H.operations l → o ∈ H.ancestors l o
  rollback_operations : ∀ l ops l', H.rollback l ops = (.ok (), l') → H.operations l' = H.operations l
  rollback_ancestors : ∀ l ops l', H.rollback l ops = (.ok (), l') → H.ancestors l' = H.ancestors l
  rollback_isValid : ∀ l ops l', H.rollback l ops = (.ok (), l') → ∀ o ∈ H.operations l,
    (H.isValid l' o = true ↔ H.isValid l o = true ∧ ¬∃ a ∈ H.ancestors l o, a ∈ ops)
  forward_operations : ∀ l ops l', H.forward l ops = (.ok (), l') → H.operations l' = H.operations l
  forward_ancestors : ∀ l ops l', H.forward l ops = (.ok (), l') → H.ancestors l' = H.ancestors l
  forward_isValid : ∀ l ops l', H.forward l ops = (.ok (), l') → ∀ o ∈ H.operations l,
    (H.isValid l' o = true ↔ H.isValid l o = true ∨ ∃ a ∈ H.ancestors l o, a ∈ ops)

theorem RefLedger.mem_ancestorsIn (ops : List RefOperation) (o : Opid) : o ∈ ancestorsIn ops o := by
  induction ops with
  | nil => simp [ancestorsIn]
  | cons op older ih =>
    unfold ancestorsIn
    split
    · simp
    · exact ih

theorem RefLedger.mem_descendants {l : RefLedger} {S : List Opid} {o : Opid} :
    o ∈ l.descendants S ↔ o ∈ l.operations ∧ ∃ a ∈ l.ancestors o, a ∈ S := by
  simp [descendants, List.mem_filter, List.any_eq_true]

theorem refSonic_reorgLaws : refSonic.ReorgLaws where
  ancestors_self l o _ := RefLedger.mem_ancestorsIn l.ops o
  rollback_operations l ops l' h := by cases h; rfl
  rollback_ancestors l ops l' h := by cases h; rfl
  rollback_isValid l ops l' h o ho := by
    cases h
    have hd : o ∈ l.descendants ops ↔ ∃ a ∈ l.ancestors o, a ∈ ops := by
      rw [RefLedger.mem_descendants]; exact and_iff_right ho
    simp only [RefLedger.isValid, decide_eq_true_eq, ← hd]
    simp only [RefLedger.rollback, List.mem_append, not_or, and_assoc]
    rfl
  forward_operations l ops l' h := by cases h; rfl
  forward_ancestors l ops l' h := by cases h; rfl
  forward_isValid l ops l' h o ho := by
    cases h
    have hd : o ∈ l.descendants ops ↔ ∃ a ∈ l.ancestors o, a ∈ ops := by
      rw [RefLedger.mem_descendants]; exact and_iff_right ho
    have ho' : o ∈ (l.forward ops).operations := ho
    have ho'' : o ∈ l.operations := ho
    simp only [RefLedger.isValid, decide_eq_true_eq, ← hd, ho', ho'', true_and]
    simp only [RefLedger.forward, List.mem_filter, decide_eq_true_eq, not_and, Decidable.not_not]
    tauto

namespace Contract

variable {H : Hypersonic} {S : RgbSeal}

/-- The status of a witness once the list has been applied. -/
def listed (p : PileFs S) (changed : List (S.WitnessId × WitnessStatus)) (w : S.WitnessId) : WitnessStatus :=
  ((get changed w).map WitnessStatus.stored).getD (p.witnessStatus w)

/-- The best status of an operation once the list has been applied. -/
def statusAfter (c : Contract H S) (changed : List (S.WitnessId × WitnessStatus)) (o : Opid) : WitnessStatus :=
  .bestOf ((c.pile.opWitnessIds o).map (listed c.pile changed))

/-! ## Steps 1-3 -/

/-- One step of the list: the status is written down if it is news. -/
def sanitizeStep (p : PileFs S) (wids : Table S.WitnessId WitnessStatus) (e : S.WitnessId × WitnessStatus) :
    Table S.WitnessId WitnessStatus :=
  if p.hasWitness e.1 then
    if e.2 = p.witnessStatus e.1 then wids else upsert wids e.1 e.2
  else wids

/-- A known witness with another status than the listed one. -/
def News (p : PileFs S) (e : S.WitnessId × WitnessStatus) : Prop := p.hasWitness e.1 = true ∧ e.2 ≠ p.witnessStatus e.1

instance (p : PileFs S) : DecidablePred (News p) := fun _ => inferInstanceAs (Decidable (_ ∧ _))

theorem sanitizeStep_eq (p : PileFs S) (wids : Table S.WitnessId WitnessStatus) (e : S.WitnessId × WitnessStatus) :
    sanitizeStep p wids e = if News p e then upsert wids e.1 e.2 else wids := by
  unfold sanitizeStep News
  by_cases hk : p.hasWitness e.1 = true <;> by_cases hs : e.2 = p.witnessStatus e.1 <;> simp [hk, hs]

/-- **Step 1** writes down the news, the later ones over the earlier. -/
theorem sanitize_eq (p : PileFs S) (changed : List (S.WitnessId × WitnessStatus)) :
    sanitize p changed = (changed.filter (News p ·)).foldl (fun t e => upsert t e.1 e.2) [] := by
  rw [List.foldl_filter]
  show changed.foldl (sanitizeStep p) [] = _
  congr 1
  funext wids e
  simp [sanitizeStep_eq]

theorem nodup_sanitize (p : PileFs S) (changed : List (S.WitnessId × WitnessStatus)) :
    (keys (sanitize p changed)).Nodup := by
  rw [sanitize_eq]
  exact nodup_foldl_upsert _ (by simp [keys])

/-- The last status listed for a witness that is another than its own. -/
def lastNews (p : PileFs S) (changed : List (S.WitnessId × WitnessStatus)) (w : S.WitnessId) : Option WitnessStatus :=
  get (changed.filter (News p ·)).reverse w

theorem get_sanitize (p : PileFs S) (changed : List (S.WitnessId × WitnessStatus)) (w : S.WitnessId) :
    get (sanitize p changed) w = lastNews p changed w := by
  rw [sanitize_eq, get_foldl_upsert_last, get_nil, Option.or_none, lastNews]

/-- What is left of a list was listed, and is news. -/
theorem mem_sanitize {p : PileFs S} {changed : List (S.WitnessId × WitnessStatus)} {e : S.WitnessId × WitnessStatus}
    (he : e ∈ sanitize p changed) : e ∈ changed ∧ News p e := by
  have hget := get_eq_of_mem (nodup_sanitize p changed) he
  rw [sanitize_eq] at hget
  have hm := (mem_of_get_foldl_upsert _ hget).resolve_right (by simp)
  simpa using List.mem_filter.1 hm

/-- The witnesses left are those of which there are news. -/
theorem mem_keys_sanitize {p : PileFs S} {changed : List (S.WitnessId × WitnessStatus)} {w : S.WitnessId} :
    w ∈ keys (sanitize p changed) ↔ ∃ e ∈ changed, News p e ∧ e.1 = w := by
  rw [sanitize_eq, mem_keys_foldl_upsert Prod.fst Prod.snd]
  simp [keys, and_assoc]

/-- The status of a witness after step 3. -/
def after (p : PileFs S) (changed : List (S.WitnessId × WitnessStatus)) (w : S.WitnessId) : WitnessStatus :=
  ((get (sanitize p changed) w).map WitnessStatus.stored).getD (p.witnessStatus w)

/-- **What a list makes of a status**: it keeps it if nothing else is listed, and otherwise makes it what is
stored of another one that is listed. -/
theorem after_cases {p : PileFs S} (changed : List (S.WitnessId × WitnessStatus)) {w : S.WitnessId}
    (hw : p.hasWitness w = true) :
    (after p changed w = p.witnessStatus w ∧ ∀ st, (w, st) ∈ changed → st = p.witnessStatus w) ∨
      ∃ st, (w, st) ∈ changed ∧ st ≠ p.witnessStatus w ∧ after p changed w = st.stored := by
  cases hg : get (sanitize p changed) w with
  | none =>
    refine Or.inl ⟨by rw [after, hg]; rfl, fun st hst => not_not.1 fun hne => ?_⟩
    have hk := mem_keys_sanitize.2 ⟨(w, st), hst, ⟨hw, hne⟩, rfl⟩
    rw [← has_iff_mem_keys, has, hg] at hk
    cases hk
  | some st =>
    obtain ⟨hm, hnews⟩ := mem_sanitize (get_mem hg)
    exact Or.inr ⟨st, hm, hnews.2, by rw [after, hg]; rfl⟩

/-- A list without repetitions leaves every known witness with its listed status. -/
theorem after_eq_listed {p : PileFs S} {changed : List (S.WitnessId × WitnessStatus)}
    (hnd : (changed.map Prod.fst).Nodup) {w : S.WitnessId} (hw : p.hasWitness w = true) :
    after p changed w = listed p changed w := by
  rcases after_cases changed hw with ⟨hkept, hall⟩ | ⟨st, hm, _, hst⟩
  · rw [hkept, listed]
    cases hg : get changed w with
    | none => rfl
    | some st => rw [hall st (get_mem hg), Option.map_some, p.stored_witnessStatus, Option.getD_some]
  · rw [hst, listed, get_eq_of_mem hnd hm]
    rfl

/-- Step 3 completes on known witnesses, moves their statuses and nothing else. -/
theorem updateStatuses_spec (wids : Table S.WitnessId WitnessStatus) (hnd : (keys wids).Nodup) (p : PileFs S)
    (hk : ∀ w ∈ keys wids, p.hasWitness w = true) :
    ∃ p', updateStatuses p wids = some p' ∧ p'.index = p.index ∧ p'.stand = p.stand ∧ p'.hoard = p.hoard ∧
      ∀ w, p'.witnessStatus w = ((get wids w).map WitnessStatus.stored).getD (p.witnessStatus w) := by
  induction wids generalizing p with
  | nil => exact ⟨p, rfl, rfl, rfl, rfl, fun _ => rfl⟩
  | cons e wids ih =>
    obtain ⟨w₁, st₁⟩ := e
    simp only [keys, List.map_cons, List.nodup_cons, List.mem_cons, forall_eq_or_imp] at hnd hk
    obtain ⟨p₁, h₁, hi₁, hs₁, hh₁, hw₁⟩ := PileFs.updateWitnessStatus_eq hk.1 st₁
    obtain ⟨p', h', hi', hs', hh', hw'⟩ := ih hnd.2 p₁ fun w hw => by
      rw [PileFs.hasWitness, hh₁]; exact hk.2 w hw
    refine ⟨p', ?_, hi'.trans hi₁, hs'.trans hs₁, hh'.trans hh₁, fun w => ?_⟩
    · simp only [updateStatuses, List.foldlM_cons, h₁, Option.bind_eq_bind, Option.bind_some]
      exact h'
    · rw [hw', hw₁, get_cons]
      by_cases hw : w = w₁
      · subst hw
        simp [get_none_of_notMem hnd.1]
      · simp [hw]

/-- Step 3 writes what is left of the list. -/
theorem updateStatuses_sanitize (p : PileFs S) (changed : List (S.WitnessId × WitnessStatus)) :
    ∃ p', updateStatuses p (sanitize p changed) = some p' ∧ p'.index = p.index ∧ p'.stand = p.stand ∧
      p'.hoard = p.hoard ∧ ∀ w, p'.witnessStatus w = after p changed w :=
  updateStatuses_spec (sanitize p changed) (nodup_sanitize p changed) p fun w hw => by
    obtain ⟨e, _, hnews, rfl⟩ := mem_keys_sanitize.1 hw
    exact hnews.1

/-! ## Steps 2 and 4 -/

/-- The affected operations are those of an affected witness, each with its status before. -/
theorem mem_affectedOps {c : Contract H S} {wids : Table S.WitnessId WitnessStatus} {o : Opid}
    {st : WitnessStatus} : (o, st) ∈ c.affectedOps wids ↔
      (∃ w ∈ keys wids, w ∈ c.pile.opWitnessIds o) ∧ st = c.witnessStatus o := by
  have hnd : (keys (c.affectedOps wids)).Nodup := nodup_foldl_upsert_fun c.witnessStatus _ (by simp [keys])
  have hget := get_foldl_upsert_fun c.witnessStatus ((keys wids).flatMap c.pile.opsByWitnessId) [] o
  have hmem : o ∈ (keys wids).flatMap c.pile.opsByWitnessId ↔ ∃ w ∈ keys wids, w ∈ c.pile.opWitnessIds o := by
    simp [List.mem_flatMap, PileFs.mem_opsByWitnessId]
  have hiff : (o, st) ∈ c.affectedOps wids ↔ get (c.affectedOps wids) o = some st :=
    ⟨get_eq_of_mem hnd, get_mem⟩
  rw [hiff, affectedOps, hget, ← hmem]
  split
  · rename_i h; simp [h, eq_comm]
  · rename_i h; simp [h]

theorem mem_splitOps_from (c : Contract H S) (ops : Table Opid WitnessStatus) (acc : List Opid × List Opid)
    (o : Opid) :
    let r := ops.foldl (fun acc e =>
      let new := c.witnessStatus e.1
      if e.2.isValid == new.isValid then acc
      else if new.isValid then (acc.1, acc.2 ++ [e.1])
      else (acc.1 ++ [e.1], acc.2)) acc
    (o ∈ r.1 ↔ o ∈ acc.1 ∨ ∃ st, (o, st) ∈ ops ∧ st.isValid = true ∧ (c.witnessStatus o).isValid = false) ∧
    (o ∈ r.2 ↔ o ∈ acc.2 ∨ ∃ st, (o, st) ∈ ops ∧ st.isValid = false ∧ (c.witnessStatus o).isValid = true) := by
  induction ops generalizing acc with
  | nil => simp
  | cons e ops ih =>
    obtain ⟨o₁, st₁⟩ := e
    simp only [List.foldl_cons]
    refine ⟨(ih _).1.trans ?_, (ih _).2.trans ?_⟩
    all_goals
      by_cases ho : o = o₁
      · subst ho
        cases h₁ : st₁.isValid <;> cases (c.witnessStatus o).isValid <;> simp [h₁, or_and_right, exists_or]
      · cases st₁.isValid <;> cases (c.witnessStatus o₁).isValid <;> simp [ho]

theorem mem_splitOps (c : Contract H S) (ops : Table Opid WitnessStatus) (o : Opid) :
    (o ∈ (c.splitOps ops).1 ↔
      ∃ st, (o, st) ∈ ops ∧ st.isValid = true ∧ (c.witnessStatus o).isValid = false) ∧
    (o ∈ (c.splitOps ops).2 ↔
      ∃ st, (o, st) ∈ ops ∧ st.isValid = false ∧ (c.witnessStatus o).isValid = true) := by
  have h := mem_splitOps_from c ops ([], []) o
  simpa [splitOps] using h

/-! ## `sync` -/

/-- The operations whose own status the list takes away, and those it gives back. -/
def lost (c : Contract H S) (changed : List (S.WitnessId × WitnessStatus)) : Set Opid :=
  {o | (c.witnessStatus o).isValid = true ∧ (c.statusAfter changed o).isValid = false}

def gained (c : Contract H S) (changed : List (S.WitnessId × WitnessStatus)) : Set Opid :=
  {o | (c.witnessStatus o).isValid = false ∧ (c.statusAfter changed o).isValid = true}

/-- An operation none of whose witnesses is affected keeps its status. -/
theorem statusAfter_unaffected {c : Contract H S} {changed : List (S.WitnessId × WitnessStatus)}
    (hnd : (changed.map Prod.fst).Nodup) {o : Opid}
    (hno : ¬∃ w ∈ keys (sanitize c.pile changed), w ∈ c.pile.opWitnessIds o) :
    c.statusAfter changed o = c.witnessStatus o := by
  refine congrArg _ (List.map_congr_left fun w hw => ?_)
  rw [← after_eq_listed hnd (PileFs.hasWitness_of_mem hw), after, get_none_of_notMem fun hm => hno ⟨w, hm, hw⟩]
  rfl

/-- So one whose validity changes is affected. -/
theorem affectedOps_moved {c : Contract H S} {changed : List (S.WitnessId × WitnessStatus)}
    (hnd : (changed.map Prod.fst).Nodup) (o : Opid) {b b' : Bool} (hne : b ≠ b') :
    (∃ st, (o, st) ∈ c.affectedOps (sanitize c.pile changed) ∧ st.isValid = b ∧
      (c.statusAfter changed o).isValid = b') ↔
    (c.witnessStatus o).isValid = b ∧ (c.statusAfter changed o).isValid = b' := by
  simp only [mem_affectedOps]
  constructor
  · rintro ⟨st, ⟨_, rfl⟩, h₁, h₂⟩
    exact ⟨h₁, h₂⟩
  · rintro ⟨h₁, h₂⟩
    refine ⟨_, ⟨?_, rfl⟩, h₁, h₂⟩
    by_contra hno
    rw [statusAfter_unaffected hnd hno, h₁] at h₂
    exact hne h₂

/-- **`sync`** rolls back what lost its own valid status and forwards what gained one. -/
theorem sync_spec {c c' : Contract H S} {changed : List (S.WitnessId × WitnessStatus)}
    (hnd : (changed.map Prod.fst).Nodup) (h : c.sync changed = (.ok (), c')) :
    ∃ rb fw l, H.rollback c.ledger rb = (.ok (), l) ∧ H.forward l fw = (.ok (), c'.ledger) ∧
      (∀ o, o ∈ rb ↔ o ∈ c.lost changed) ∧ (∀ o, o ∈ fw ↔ o ∈ c.gained changed) ∧
      c'.pile.index = c.pile.index ∧ c'.pile.hoard = c.pile.hoard ∧ c'.contractId = c.contractId ∧
      (∀ w, c.pile.hasWitness w = true → c'.pile.witnessStatus w = listed c.pile changed w) := by
  obtain ⟨p, hp, hpi, hps, hph, hpw⟩ := updateStatuses_sanitize c.pile changed
  have hstat : ∀ w, c.pile.hasWitness w = true → p.witnessStatus w = listed c.pile changed w :=
    fun w hw => (hpw w).trans (after_eq_listed hnd hw)
  have hws : ∀ o, witnessStatus { c with pile := p } o = c.statusAfter changed o := by
    intro o
    simp only [witnessStatus, statusAfter, PileFs.opWitnessIds, hpi]
    exact congrArg _ (List.map_congr_left fun w hw => hstat w (PileFs.hasWitness_of_mem hw))
  have hsplit := mem_splitOps { c with pile := p } (c.affectedOps (sanitize c.pile changed))
  simp only [sync, hp] at h
  generalize ({ c with pile := p } : Contract H S).splitOps (c.affectedOps (sanitize c.pile changed)) = s at h hsplit
  obtain ⟨rb, fw⟩ := s
  simp only at h hsplit
  split at h
  · cases h
  · rename_i l hr
    split at h
    · cases h
    · rename_i l' hf
      cases h
      refine ⟨rb, fw, l, hr, hf, fun o => ?_, fun o => ?_, hpi, hph, rfl, hstat⟩
      · rw [(hsplit o).1, hws o]
        exact affectedOps_moved hnd o (by simp)
      · rw [(hsplit o).2, hws o]
        exact affectedOps_moved hnd o (by simp)

/-- After a `sync` every operation has the best of its listed statuses. -/
theorem sync_witnessStatus {c c' : Contract H S} {changed : List (S.WitnessId × WitnessStatus)}
    (hnd : (changed.map Prod.fst).Nodup) (h : c.sync changed = (.ok (), c')) (o : Opid) :
    c'.witnessStatus o = c.statusAfter changed o := by
  obtain ⟨_, _, _, _, _, _, _, hi, _, _, hw⟩ := sync_spec hnd h
  simp only [witnessStatus, statusAfter, PileFs.opWitnessIds, hi]
  exact congrArg _ (List.map_congr_left fun w hm => hw w (PileFs.hasWitness_of_mem hm))

/-- The history of an operation as a set. -/
def history (c : Contract H S) (o : Opid) : Set Opid := {a | a ∈ H.ancestors c.ledger o}

/-- **Ledger validity after a `sync`**: what lost its status is invalidated with its descendants,
then what gained one is restored with its descendants. -/
theorem sync_isValid (hL : H.ReorgLaws) {c c' : Contract H S} {changed : List (S.WitnessId × WitnessStatus)}
    (hnd : (changed.map Prod.fst).Nodup) (h : c.sync changed = (.ok (), c')) :
    H.operations c'.ledger = H.operations c.ledger ∧ H.ancestors c'.ledger = H.ancestors c.ledger ∧
    ∀ o ∈ H.operations c.ledger, (H.isValid c'.ledger o = true ↔
      o ∈ Propagate.settle c.history {o | H.isValid c.ledger o = true} (c.lost changed) (c.gained changed)) := by
  obtain ⟨rb, fw, l, hr, hf, hrb, hfw, _⟩ := sync_spec hnd h
  have ho := hL.rollback_operations _ _ _ hr
  have ha := hL.rollback_ancestors _ _ _ hr
  refine ⟨(hL.forward_operations _ _ _ hf).trans ho, (hL.forward_ancestors _ _ _ hf).trans ha, fun o hk => ?_⟩
  rw [hL.forward_isValid _ _ _ hf o (ho ▸ hk), hL.rollback_isValid _ _ _ hr o hk, ha,
    Propagate.mem_settle, Propagate.mem_down, Propagate.mem_down]
  simp only [hrb, hfw]
  rfl

/-- A `sync` makes an operation follow the statuses of its history. -/
theorem sync_isValid_iff (hL : H.ReorgLaws) {c c' : Contract H S} {changed : List (S.WitnessId × WitnessStatus)}
    (hnd : (changed.map Prod.fst).Nodup) (h : c.sync changed = (.ok (), c')) {o : Opid} (ho : o ∈ H.operations c.ledger) :
    H.isValid c'.ledger o = true ↔ (H.isValid c.ledger o = true ∧ ∀ a ∈ H.ancestors c.ledger o,
        (c.witnessStatus a).isValid = true → (c'.witnessStatus a).isValid = true) ∨
      ∃ a ∈ H.ancestors c.ledger o, (c.witnessStatus a).isValid = false ∧ (c'.witnessStatus a).isValid = true := by
  have hlost : c.lost changed =
      {a | (c.witnessStatus a).isValid = true} \ {a | (c'.witnessStatus a).isValid = true} := by
    ext a; simp [lost, sync_witnessStatus hnd h]
  have hgained : c.gained changed =
      {a | (c'.witnessStatus a).isValid = true} \ {a | (c.witnessStatus a).isValid = true} := by
    ext a; simp [gained, sync_witnessStatus hnd h, and_comm]
  rw [(sync_isValid hL hnd h).2.2 o ho, hlost, hgained, Propagate.mem_settle_change]
  simp [history]

/-! ## Consistency -/

/-- Every operation is valid in the ledger exactly if it and all its ancestors have a valid best
witness status. -/
def Consistent (c : Contract H S) : Prop :=
  ∀ o ∈ H.operations c.ledger, (H.isValid c.ledger o = true ↔
    ∀ a ∈ H.ancestors c.ledger o, (c.witnessStatus a).isValid = true)

/-- The list restores no operation whose history, or a descendant of which, keeps an archived
operation: wherever something of a history is restored, the whole history is valid afterwards. -/
def RestoresWhole (c : Contract H S) (changed : List (S.WitnessId × WitnessStatus)) : Prop :=
  ∀ o ∈ H.operations c.ledger, ∀ a ∈ H.ancestors c.ledger o,
    (c.witnessStatus a).isValid = false → (c.statusAfter changed a).isValid = true →
    ∀ b ∈ H.ancestors c.ledger o, (c.statusAfter changed b).isValid = true

/-- One `sync` from a consistent contract. -/
theorem sync_consistent_iff (hL : H.ReorgLaws) {c c' : Contract H S}
    {changed : List (S.WitnessId × WitnessStatus)} (hc : c.Consistent) (hnd : (changed.map Prod.fst).Nodup)
    (h : c.sync changed = (.ok (), c')) : c'.Consistent ↔ c.RestoresWhole changed := by
  obtain ⟨hop, han, hv⟩ := sync_isValid hL hnd h
  have hlost : c.lost changed =
      {a | (c.witnessStatus a).isValid = true} \ {a | (c.statusAfter changed a).isValid = true} := by
    ext a; simp [lost]
  have hgained : c.gained changed =
      {a | (c.statusAfter changed a).isValid = true} \ {a | (c.witnessStatus a).isValid = true} := by
    ext a; simp [gained, and_comm]
  simp only [Consistent, RestoresWhole, hop, han, sync_witnessStatus hnd h]
  refine forall_congr' fun o => forall_congr' fun hk => ?_
  rw [hv o hk, hlost, hgained]
  refine (Propagate.mem_settle_iff (hc o hk)).trans ?_
  simp only [Propagate.mem_down, Propagate.mem_live, history, Set.mem_ofPred_eq, Set.mem_sdiff]
  constructor
  · intro hd a ha h₁ h₂ b hb
    exact hd ⟨a, ha, h₂, by simp [h₁]⟩ b hb
  · rintro hd ⟨a, ha, h₂, h₁⟩ b hb
    exact hd a ha (by simpa using h₁) h₂ b hb

/-- A `sync` call as a step; a call which does not return `Ok` ends the run. -/
def syncStep (c : Contract H S) (changed : List (S.WitnessId × WitnessStatus)) : Option (Contract H S) :=
  match c.sync changed with
  | (.ok (), c') => some c'
  | (.error _, _) => none

theorem syncStep_eq {c c' : Contract H S} {changed : List (S.WitnessId × WitnessStatus)}
    (h : c.syncStep changed = some c') : c.sync changed = (.ok (), c') := by
  unfold syncStep at h
  split at h
  · rename_i c₁ hc; cases h; exact hc
  · cases h

/-- **Runs of `sync`.** From a consistent contract, every state a sequence of calls leads to is
consistent if and only if every call restores whole histories only. -/
theorem sync_run_consistent_iff (hL : H.ReorgLaws) {c : Contract H S} (hc : c.Consistent)
    {calls : List (List (S.WitnessId × WitnessStatus))} (hnd : ∀ l ∈ calls, (l.map Prod.fst).Nodup)
    {states : List (Contract H S)} (hrun : Runs.run syncStep c calls = some states) :
    (∀ c' ∈ states, c'.Consistent) ↔ Runs.Along syncStep RestoresWhole c calls :=
  Runs.run_inv_iff (P := fun l => (l.map Prod.fst).Nodup)
    (fun _ _ _ hc hnd hs => sync_consistent_iff hL hc hnd (syncStep_eq hs)) calls c states hc hnd hrun

instance (c : Contract H S) : Decidable c.Consistent :=
  inferInstanceAs (Decidable (∀ o ∈ _, _))

instance (c : Contract H S) (changed : List (S.WitnessId × WitnessStatus)) :
    Decidable (c.RestoresWhole changed) :=
  inferInstanceAs (Decidable (∀ o ∈ _, ∀ a ∈ _, _))

end Contract

/-! ## A parent and a child in one reorganisation -/

namespace Reorg

def rid : ContractId := ⟨Vector.replicate 32 0⟩

def genesis : RefOperation := ⟨rid, 0, [], [("amount", ⟨0⟩, 100)]⟩

def parent : RefOperation := ⟨rid, 1, [⟨genesis.opid, 0⟩], [("amount", ⟨1⟩, 100)]⟩

def child : RefOperation := ⟨rid, 2, [⟨parent.opid, 0⟩], [("amount", ⟨2⟩, 100)]⟩

def articles : RefArticles := ⟨rid, rid, genesis, "Test", .bitcoin, true⟩

def height : NonZeroU64 := ⟨100, by decide⟩

/-- The parent witnessed by transaction 1, its child by transaction 2, both tentative. -/
def pile : PileFs refSeal :=
  (((PileFs.new : PileFs refSeal).addWitness parent.opid (1 : Nat) (1 : Nat) .empty .tentative).bind fun p =>
    p.addWitness child.opid (2 : Nat) (2 : Nat) .empty .tentative).getD .new

def contract : Contract refSonic refSeal :=
  ⟨rid, ⟨articles, [child, parent, genesis], [], [parent.opid, child.opid], false⟩, pile⟩

/-- Both transactions are archived, then the parent's comes back. -/
def calls : List (List (Nat × WitnessStatus)) := [[(1, .archived), (2, .archived)], [(1, .mined height)]]

/-- Both are archived and come back in one call. -/
def together : List (List (Nat × WitnessStatus)) :=
  [[(1, .archived), (2, .archived)], [(1, .mined height), (2, .tentative)]]

end Reorg

/-- Parent and child are archived and come back together. -/
theorem sync_run_restores_both :
    ∃ states, Runs.run Contract.syncStep Reorg.contract Reorg.together = some states ∧
      ∀ c' ∈ states, c'.Consistent := by
  have hc : Reorg.contract.Consistent := by decide
  have hnd : ∀ l ∈ Reorg.together, (l.map Prod.fst).Nodup := by decide
  exact ⟨_, rfl, (Contract.sync_run_consistent_iff refSonic_reorgLaws hc hnd rfl).2 (by decide)⟩

/-- The child whose own transaction is still archived is valid again with its parent. -/
theorem sync_restores_archived_child :
    ¬∀ (H : Hypersonic) (S : RgbSeal), H.ReorgLaws → ∀ c : Contract H S, c.Consistent →
      ∀ calls : List (List (S.WitnessId × WitnessStatus)), (∀ l ∈ calls, (l.map Prod.fst).Nodup) →
      ∀ states, Runs.run Contract.syncStep c calls = some states → ∀ c' ∈ states, c'.Consistent := by
  intro h
  have hc := h refSonic refSeal refSonic_reorgLaws Reorg.contract (by decide) Reorg.calls (by decide) _ rfl
  revert hc
  decide

end RgbStd
