import RgbStd.Contract.Retry
/-!
# Lists which name a witness more than once (contract.rs:525-564)

Step 1 of `sync` compares every pair with the status stored before the call, not with the one the pairs
before it come to. With debug assertions off nothing stops a list with several statuses for a witness.

* `sync_status`: what the list makes of a status is the status after the call, whatever the call returns.
* `after_eq_lastOther`: it is the last listed other than the former one, as it is stored.
* `sync_last_iff`: the last status wins, and stays if the list is given again, exactly if the list comes to one
  status for each known witness.
-/
namespace RgbStd
open Tables

namespace Contract

variable {H : Hypersonic} {S : RgbSeal}

/-- The status listed last for a witness, or its former one. -/
def lastListed (p : PileFs S) (changed : List (S.WitnessId × WitnessStatus)) (w : S.WitnessId) : WitnessStatus :=
  (get changed.reverse w).getD (p.witnessStatus w)

/-- After the call every known witness has the status listed last. -/
def LastWins (c : Contract H S) (changed : List (S.WitnessId × WitnessStatus)) (c' : Contract H S) : Prop :=
  ∀ w, c.pile.hasWitness w = true → c'.pile.witnessStatus w = lastListed c.pile changed w

/-- The list given again leaves the statuses as they are, whatever the call returns. -/
def Repeatable (c : Contract H S) (changed : List (S.WitnessId × WitnessStatus)) : Prop :=
  ∀ w, c.pile.hasWitness w = true → (c.sync changed).2.pile.witnessStatus w = c.pile.witnessStatus w

/-- The last status listed for a witness other than `st`. -/
def lastOther (changed : List (S.WitnessId × WitnessStatus)) (w : S.WitnessId) (st : WitnessStatus) :
    Option WitnessStatus :=
  get (changed.filter (·.2 ≠ st)).reverse w

/-- The status listed last for a known witness is read back, and the last one that is another, if there is any,
is stored as it. -/
def OneStatus (p : PileFs S) (changed : List (S.WitnessId × WitnessStatus)) : Prop :=
  ∀ w, p.hasWitness w = true → ∀ st, get changed.reverse w = some st →
    st.BelowReserved ∧ ∀ st', lastOther changed w st = some st' → st'.stored = st

/-- The status after a call, whatever it returns. -/
theorem sync_status (c : Contract H S) (changed : List (S.WitnessId × WitnessStatus)) :
    (c.sync changed).2.pile.hoard = c.pile.hoard ∧
      ∀ w, (c.sync changed).2.pile.witnessStatus w = after c.pile changed w := by
  obtain ⟨p, hp, -, -, hh, hw⟩ := updateStatuses_sanitize c.pile changed
  have hpile : (c.sync changed).2.pile = p ∨ (c.sync changed).2.pile = p.commit ∨
      (c.sync changed).2.pile = p.commit.commit := by
    simp only [sync, hp]
    split
    · exact Or.inl rfl
    · split
      · exact Or.inr (Or.inl rfl)
      · exact Or.inr (Or.inr rfl)
  rcases hpile with he | he | he <;> rw [he] <;> exact ⟨hh, hw⟩

theorem lastNews_eq {p : PileFs S} {changed : List (S.WitnessId × WitnessStatus)} {w : S.WitnessId}
    (hw : p.hasWitness w = true) : lastNews p changed w = lastOther changed w (p.witnessStatus w) := by
  rw [lastNews, lastOther, ← List.filter_reverse, ← List.filter_reverse]
  refine get_filter_congr fun st => ?_
  simp [News, hw]

/-- A status listed last is the last other than any that it is not. -/
theorem lastOther_of_ne {changed : List (S.WitnessId × WitnessStatus)} {w : S.WitnessId} {st st' : WitnessStatus}
    (h : get changed.reverse w = some st) (hne : st ≠ st') : lastOther changed w st' = some st := by
  rw [lastOther, ← List.filter_reverse]
  exact get_filter_of_get h (by simpa using hne)

theorem lastOther_eq_none {changed : List (S.WitnessId × WitnessStatus)} {w : S.WitnessId}
    (h : get changed.reverse w = none) (st : WitnessStatus) : lastOther changed w st = none := by
  refine get_none_of_notMem fun hk => ?_
  obtain ⟨e, he, rfl⟩ := List.mem_map.1 hk
  have hmem : e.1 ∈ keys changed.reverse :=
    List.mem_map.2 ⟨e, List.mem_reverse.2 (List.mem_filter.1 (List.mem_reverse.1 he)).1, rfl⟩
  rw [← has_iff_mem_keys, has, h] at hmem
  cases hmem

/-- The status of a known witness after a call is the last other than its own, as it is stored. -/
theorem after_eq_lastOther {p : PileFs S} {changed : List (S.WitnessId × WitnessStatus)} {w : S.WitnessId}
    (hw : p.hasWitness w = true) : after p changed w =
      ((lastOther changed w (p.witnessStatus w)).map WitnessStatus.stored).getD (p.witnessStatus w) := by
  rw [after, get_sanitize, lastNews_eq hw]

/-- A call keeps a status exactly if the last other than it is stored as it. -/
theorem after_eq_self_iff {p : PileFs S} {changed : List (S.WitnessId × WitnessStatus)} {w : S.WitnessId}
    (hw : p.hasWitness w = true) : after p changed w = p.witnessStatus w ↔
      ∀ st, lastOther changed w (p.witnessStatus w) = some st → st.stored = p.witnessStatus w := by
  rw [after_eq_lastOther hw]
  cases lastOther changed w (p.witnessStatus w) <;> simp

/-- **The last status wins**, and the list may be given again, if and only if it comes to one status for each
known witness. -/
theorem sync_last_iff {c c' : Contract H S} {changed : List (S.WitnessId × WitnessStatus)}
    (h : c.sync changed = (.ok (), c')) :
    (c.LastWins changed c' ∧ c'.Repeatable changed) ↔ OneStatus c.pile changed := by
  obtain ⟨hh, hst⟩ := c.sync_status changed
  rw [h] at hh hst
  have hknown : ∀ w, c'.pile.hasWitness w = c.pile.hasWitness w := fun w => by rw [PileFs.hasWitness, hh]; rfl
  have hagain : ∀ w, c.pile.hasWitness w = true → ((c'.sync changed).2.pile.witnessStatus w = c'.pile.witnessStatus w ↔
      ∀ st, lastOther changed w (c'.pile.witnessStatus w) = some st → st.stored = c'.pile.witnessStatus w) := fun w hw => by
    rw [(c'.sync_status changed).2 w]
    exact after_eq_self_iff ((hknown w).trans hw)
  constructor
  · rintro ⟨hlast, hrep⟩ w hw st hg
    have hwins : c'.pile.witnessStatus w = st := by rw [hlast w hw, lastListed, hg]; rfl
    refine ⟨hwins ▸ c'.pile.witnessStatus_belowReserved w, ?_⟩
    have hkept := (hagain w hw).1 (hrep w ((hknown w).trans hw))
    rwa [hwins] at hkept
  · intro hone
    have hwins : ∀ w, c.pile.hasWitness w = true → c'.pile.witnessStatus w = lastListed c.pile changed w := by
      intro w hw
      show c'.pile.witnessStatus w = _
      rw [hst w, after_eq_lastOther hw, lastListed]
      cases hg : get changed.reverse w with
      | none =>
        rw [lastOther_eq_none hg]
        rfl
      | some st =>
        obtain ⟨hbelow, hother⟩ := hone w hw st hg
        by_cases hs : st = c.pile.witnessStatus w
        · -- It has the status already, and the last other is stored as that.
          rw [← hs]
          cases ho : lastOther changed w st with
          | none => rfl
          | some st' => exact hother st' ho
        · rw [lastOther_of_ne hg hs]
          exact WitnessStatus.stored_eq_self_iff.2 hbelow
    refine ⟨hwins, fun w hw' => ?_⟩
    have hw : c.pile.hasWitness w = true := (hknown w).symm.trans hw'
    refine (hagain w hw).2 ?_
    rw [hwins w hw, lastListed]
    cases hg : get changed.reverse w with
    | none =>
      rw [lastOther_eq_none hg]
      simp
    | some st => exact (hone w hw st hg).2

end Contract

/-- The same status twice. -/
theorem sync_last_twice : ∃ c', Reorg.contract.sync [(1, .archived), (1, .archived)] = (.ok (), c') ∧
    Reorg.contract.LastWins [(1, .archived), (1, .archived)] c' ∧ c'.Repeatable [(1, .archived), (1, .archived)] := by
  obtain ⟨c', h⟩ : ∃ c', Reorg.contract.sync [(1, .archived), (1, .archived)] = (.ok (), c') := ⟨_, rfl⟩
  refine ⟨c', h, (Contract.sync_last_iff h).2 fun w _ st hg => ?_⟩
  have hall : ∀ st, (w, st) ∈ [((1 : Nat), WitnessStatus.archived), (1, .archived)] → st = .archived := by simp
  obtain rfl := hall st (List.mem_reverse.1 (get_mem hg))
  refine ⟨trivial, fun st' hg' => ?_⟩
  have hm := List.mem_filter.1 (List.mem_reverse.1 (get_mem hg'))
  rw [hall st' hm.1, WitnessStatus.stored_archived]

/-- The transaction is archived and comes back to the status it has. It ends up archived, and the list
given again brings it back. -/
theorem sync_last_restored :
    ¬∀ (H : Hypersonic) (S : RgbSeal) (c c' : Contract H S) changed, c.sync changed = (.ok (), c') →
      c.LastWins changed c' ∧ c'.Repeatable changed := by
  intro h
  have hlast := (h refSonic refSeal Reorg.contract _ [(1, .archived), (1, .tentative)] rfl).1 (1 : Nat) rfl
  revert hlast
  decide

end RgbStd
