import RgbStd.Contract.Sync
import RgbStd.Lib.Extremes
/-!
# How well a state is confirmed (contract.rs:120-138, 458-516)

A state is as well confirmed as the worst of the operations that led to it, and an operation as well
as the best of its witnesses. Both are compared by quasi-height (pile.rs:75-116).

| here | there |
| --- | --- |
| `IsWorst`   | the worst of some statuses |
| `others`    | the best status of each other operation of the history |
| `confirmed` | `get_status` without its table |
| `stateWith` | `Contract::state` without the two tables, for any status of an entry |
| `Made`      | the own status an entry is made with: of its witness, if its seal is relative to one |

* `state_eq`: the tables of a call never change a result.
* `confirmed_isWorst`: what is reported is the worst. Of two statuses with one quasi-height a pile stores one
  only.
* `state_confirmed`: the same for the entries of a state.
-/
namespace RgbStd
open Tables Extremes

namespace WitnessStatus

/-- The worst of the statuses. -/
def IsWorst (s : WitnessStatus) (ss : List WitnessStatus) : Prop := Greatest (fun s => s.quasiHeight.toNat) s ss

theorem worst_eq (a b : WitnessStatus) :
    a.worst b = if b.quasiHeight.toNat ≤ a.quasiHeight.toNat then a else b := by
  simp only [worst, isWorse, Bool.not_eq_true', ← Bool.not_eq_true, isBetter_iff, Nat.not_lt]

/-- Of two statuses with one quasi-height the first counts as the worse. -/
theorem worst_isWorst (a b : WitnessStatus) : (a.worst b).IsWorst [a, b] := by
  rw [worst_eq]
  split
  · rename_i h
    exact ⟨by simp, by simpa using h⟩
  · rename_i h
    exact ⟨by simp, by simpa using Nat.le_of_not_le h⟩

/-- Only genesis is at height zero. -/
theorem eq_genesis_of_quasiHeight {s : WitnessStatus} (h : s.quasiHeight.toNat = 0) : s = genesis := by
  cases s with
  | genesis => rfl
  | mined height => exact absurd (UInt64.toNat_inj.1 h) height.ne_zero
  | offchain => exact absurd h (by decide)
  | tentative => exact absurd h (by decide)
  | archived => exact absurd h (by decide)

end WitnessStatus

namespace Contract

variable {H : Hypersonic} {S : RgbSeal}

/-! ## Without the tables -/

/-- The worst of the history and an operation's own status. -/
def confirmed (c : Contract H S) (opid : Opid) (own : WitnessStatus) : WitnessStatus := (c.historyStatus opid).worst own

/-- The entries of a cell, with the status `f` of its operation and their own status. -/
def entriesWith (c : Contract H S) (f : Opid → WitnessStatus → WitnessStatus) (cell : CellAddr × H.StrictVal) :
    List (OwnedState H S) :=
  match c.pile.seal cell.1 with
  | none => []
  | some s => match S.toSrc s with
    | some src => [⟨cell.1, ⟨src, cell.2⟩, f cell.1.opid (c.witnessStatus cell.1.opid)⟩]
    | none => (c.pile.opWitnessIds cell.1.opid).map fun wid =>
      ⟨cell.1, ⟨S.resolve s wid, cell.2⟩, f cell.1.opid (c.pile.witnessStatus wid)⟩

def immutableWith (c : Contract H S) (f : Opid → WitnessStatus → WitnessStatus) (cell : CellAddr × H.StateAtom) :
    ImmutableState H :=
  ⟨cell.1, cell.2, f cell.1.opid (c.witnessStatus cell.1.opid)⟩

/-- `Contract::state`, where the status of an entry depends on nothing but its operation and its
own status. -/
def stateWith (c : Contract H S) (f : Opid → WitnessStatus → WitnessStatus) : ContractState H S where
  immutable := (H.global c.ledger).map fun (name, cells) => (name, cells.map (c.immutableWith f))
  owned := (H.owned c.ledger).map fun (name, cells) => (name, cells.flatMap (c.entriesWith f))
  aggregated := H.aggregated c.ledger

/-- Both tables hold what they stand for. -/
structure Memo.Correct (m : Memo) (c : Contract H S) : Prop where
  cache : Memoizes c.witnessStatus m.cache
  ancestorCache : Memoizes c.historyStatus m.ancestorCache

theorem cachedStatus_eq (c : Contract H S) {m : Memo} (hm : m.Correct c) (o : Opid) :
    ∃ m', c.cachedStatus m o = (c.witnessStatus o, m') ∧ m'.Correct c := by
  unfold cachedStatus
  split
  · rename_i st h
    exact ⟨m, by rw [hm.cache o st h], hm⟩
  · exact ⟨_, rfl, hm.cache.upsert o, hm.ancestorCache⟩

theorem getStatus_eq (c : Contract H S) {m : Memo} (hm : m.Correct c) (o : Opid) (own : WitnessStatus) :
    ∃ m', c.getStatus m o own = (c.confirmed o own, m') ∧ m'.Correct c := by
  unfold getStatus
  split
  · rename_i st h
    exact ⟨m, by rw [hm.ancestorCache o st h]; rfl, hm⟩
  · exact ⟨_, rfl, hm.cache, hm.ancestorCache.upsert o⟩

theorem ownedCopies_eq (c : Contract H S) (addr : CellAddr) (s : S.Definition) (data : H.StrictVal)
    (wids : List S.WitnessId) {m : Memo} (hm : m.Correct c) :
    ∃ m', c.ownedCopies addr s data wids m = (wids.map fun wid =>
      ⟨addr, ⟨S.resolve s wid, data⟩, c.confirmed addr.opid (c.pile.witnessStatus wid)⟩, m') ∧ m'.Correct c := by
  induction wids generalizing m with
  | nil => exact ⟨m, rfl, hm⟩
  | cons wid wids ih =>
    obtain ⟨m₁, h₁, hm₁⟩ := c.getStatus_eq hm addr.opid (c.pile.witnessStatus wid)
    obtain ⟨m₂, h₂, hm₂⟩ := ih hm₁
    exact ⟨m₂, by simp only [ownedCopies, h₁, h₂, List.map_cons], hm₂⟩

theorem ownedCells_eq (c : Contract H S) (cells : List (CellAddr × H.StrictVal)) {m : Memo} (hm : m.Correct c) :
    ∃ m', c.ownedCells cells m = (cells.flatMap (c.entriesWith c.confirmed), m') ∧ m'.Correct c := by
  induction cells generalizing m with
  | nil => exact ⟨m, rfl, hm⟩
  | cons cell cells ih =>
    obtain ⟨addr, data⟩ := cell
    cases hs : c.pile.seal addr with
    | none =>
      obtain ⟨m', h', hm'⟩ := ih hm
      exact ⟨m', by simp only [ownedCells, hs, h', List.flatMap_cons, entriesWith, List.nil_append], hm'⟩
    | some s =>
      cases hsrc : S.toSrc s with
      | some src =>
        obtain ⟨m₁, h₁, hm₁⟩ := c.cachedStatus_eq hm addr.opid
        obtain ⟨m₂, h₂, hm₂⟩ := c.getStatus_eq hm₁ addr.opid (c.witnessStatus addr.opid)
        obtain ⟨m₃, h₃, hm₃⟩ := ih hm₂
        exact ⟨m₃, by simp only [ownedCells, hs, hsrc, h₁, h₂, h₃, List.flatMap_cons, entriesWith,
          List.singleton_append], hm₃⟩
      | none =>
        obtain ⟨m₁, h₁, hm₁⟩ := c.ownedCopies_eq addr s data (c.pile.opWitnessIds addr.opid) hm
        obtain ⟨m₂, h₂, hm₂⟩ := ih hm₁
        exact ⟨m₂, by simp only [ownedCells, hs, hsrc, h₁, h₂, List.flatMap_cons, entriesWith], hm₂⟩

theorem ownedMaps_eq (c : Contract H S) (maps : List (StateName × List (CellAddr × H.StrictVal))) {m : Memo}
    (hm : m.Correct c) : ∃ m', c.ownedMaps maps m =
      (maps.map fun (name, cells) => (name, cells.flatMap (c.entriesWith c.confirmed)), m') ∧ m'.Correct c := by
  induction maps generalizing m with
  | nil => exact ⟨m, rfl, hm⟩
  | cons map maps ih =>
    obtain ⟨name, cells⟩ := map
    obtain ⟨m₁, h₁, hm₁⟩ := c.ownedCells_eq cells hm
    obtain ⟨m₂, h₂, hm₂⟩ := ih hm₁
    exact ⟨m₂, by simp only [ownedMaps, h₁, h₂, List.map_cons], hm₂⟩

theorem immutableCells_eq (c : Contract H S) (cells : List (CellAddr × H.StateAtom)) {m : Memo} (hm : m.Correct c) :
    ∃ m', c.immutableCells cells m = (cells.map (c.immutableWith c.confirmed), m') ∧ m'.Correct c := by
  induction cells generalizing m with
  | nil => exact ⟨m, rfl, hm⟩
  | cons cell cells ih =>
    obtain ⟨addr, data⟩ := cell
    obtain ⟨m₁, h₁, hm₁⟩ := c.cachedStatus_eq hm addr.opid
    obtain ⟨m₂, h₂, hm₂⟩ := c.getStatus_eq hm₁ addr.opid (c.witnessStatus addr.opid)
    obtain ⟨m₃, h₃, hm₃⟩ := ih hm₂
    exact ⟨m₃, by simp only [immutableCells, h₁, h₂, h₃, List.map_cons, immutableWith], hm₃⟩

theorem immutableMaps_eq (c : Contract H S) (maps : List (StateName × List (CellAddr × H.StateAtom))) {m : Memo}
    (hm : m.Correct c) : ∃ m', c.immutableMaps maps m =
      (maps.map fun (name, cells) => (name, cells.map (c.immutableWith c.confirmed)), m') ∧ m'.Correct c := by
  induction maps generalizing m with
  | nil => exact ⟨m, rfl, hm⟩
  | cons map maps ih =>
    obtain ⟨name, cells⟩ := map
    obtain ⟨m₁, h₁, hm₁⟩ := c.immutableCells_eq cells hm
    obtain ⟨m₂, h₂, hm₂⟩ := ih hm₁
    exact ⟨m₂, by simp only [immutableMaps, h₁, h₂, List.map_cons], hm₂⟩

/-- **The tables of a `state` call** never change a result. -/
theorem state_eq (c : Contract H S) : c.state = c.stateWith c.confirmed := by
  have h₀ : Memo.Correct ⟨[], []⟩ c := ⟨memoizes_nil _, memoizes_nil _⟩
  obtain ⟨m₁, h₁, hm₁⟩ := c.ownedMaps_eq (H.owned c.ledger) h₀
  obtain ⟨m₂, h₂, -⟩ := c.immutableMaps_eq (H.global c.ledger) hm₁
  simp only [state, h₁, h₂]
  rfl

/-! ## What is reported -/

/-- The best statuses of the other operations of the history. -/
def others (c : Contract H S) (opid : Opid) : List WitnessStatus :=
  ((H.ancestors c.ledger opid).filter (· ≠ opid)).map c.witnessStatus

theorem historyStatus_greatest (c : Contract H S) (o : Opid) : Greatest (fun s => s.quasiHeight.toNat) (c.historyStatus o)
    (.genesis :: (H.ancestors c.ledger o).map c.witnessStatus) :=
  greatest_foldl WitnessStatus.worst_isWorst _ _

theorem others_le (c : Contract H S) {o : Opid} {s : WitnessStatus} (h : s ∈ c.others o) :
    s.quasiHeight.toNat ≤ (c.historyStatus o).quasiHeight.toNat := by
  obtain ⟨a, ha, rfl⟩ := List.mem_map.1 h
  exact (c.historyStatus_greatest o).2 _ (List.mem_cons_of_mem _ (List.mem_map_of_mem (List.mem_filter.1 ha).1))

/-- The status of a history is that of one of its operations, or genesis. -/
theorem historyStatus_mem (c : Contract H S) (o : Opid) :
    c.historyStatus o = .genesis ∨ c.historyStatus o = c.witnessStatus o ∨ c.historyStatus o ∈ c.others o := by
  rcases List.mem_cons.1 (c.historyStatus_greatest o).1 with h | h
  · exact Or.inl h
  · obtain ⟨a, ha, he⟩ := List.mem_map.1 h
    by_cases hao : a = o
    · exact Or.inr (Or.inl (hao ▸ he.symm))
    · exact Or.inr (Or.inr (he ▸ List.mem_map_of_mem (List.mem_filter.2 ⟨ha, by simpa using hao⟩)))

/-- An own status at least as bad as the history's is reported as the worst. -/
theorem isWorst_own {c : Contract H S} {o : Opid} {own : WitnessStatus}
    (h : (c.historyStatus o).quasiHeight.toNat ≤ own.quasiHeight.toNat) : own.IsWorst (own :: c.others o) := by
  refine ⟨List.mem_cons_self, fun x hx => ?_⟩
  rcases List.mem_cons.1 hx with rfl | hx
  · exact Nat.le_refl _
  · exact (c.others_le hx).trans h

theorem witnessStatus_of_nil {c : Contract H S} {o : Opid} (h : c.pile.opWitnessIds o = []) :
    c.witnessStatus o = .genesis := by
  rw [witnessStatus, h]
  rfl

/-- An operation with witnesses has the status of one of them. -/
theorem exists_witnessStatus {c : Contract H S} {o : Opid} (h : c.pile.opWitnessIds o ≠ []) :
    ∃ w ∈ c.pile.opWitnessIds o, c.witnessStatus o = c.pile.witnessStatus w := by
  have hm := (WitnessStatus.bestOf_least
    (mt List.map_eq_nil_iff.1 h : (c.pile.opWitnessIds o).map c.pile.witnessStatus ≠ [])).1
  obtain ⟨w, hw, he⟩ := List.mem_map.1 hm
  exact ⟨w, hw, he.symm⟩

/-- So it is one that was stored. -/
theorem stored_witnessStatus (c : Contract H S) (o : Opid) : (c.witnessStatus o).stored = c.witnessStatus o := by
  by_cases hn : c.pile.opWitnessIds o = []
  · rw [witnessStatus_of_nil hn, WitnessStatus.stored_genesis]
  · obtain ⟨w, -, he⟩ := exists_witnessStatus hn
    rw [he, PileFs.stored_witnessStatus]

/-- **What is reported** is the worst of the own status and those of the other operations. -/
theorem confirmed_isWorst {c : Contract H S} {o : Opid} {own : WitnessStatus} (hs : own.stored = own)
    (hb : (c.witnessStatus o).quasiHeight.toNat ≤ own.quasiHeight.toNat) :
    (c.confirmed o own).IsWorst (own :: c.others o) := by
  unfold confirmed
  rw [WitnessStatus.worst_eq]
  split
  · rename_i h
    rcases c.historyStatus_mem o with hg | hw | ho
    · rw [hg] at h
      have hown : own = .genesis := WitnessStatus.eq_genesis_of_quasiHeight (Nat.le_zero.1 h)
      rw [hg, ← hown]
      exact isWorst_own (by rw [hg, hown])
    · -- Its own best status decides, which the own status is then the same as.
      have hown : own = c.witnessStatus o := by
        refine WitnessStatus.eq_of_quasiHeight_eq hs (c.stored_witnessStatus o) (UInt64.toNat_inj.1 ?_)
        exact Nat.le_antisymm (hw ▸ h) hb
      rw [hw, ← hown]
      exact isWorst_own (by rw [hw, hown])
    · refine ⟨List.mem_cons_of_mem _ ho, fun x hx => ?_⟩
      rcases List.mem_cons.1 hx with rfl | hx
      · exact h
      · exact c.others_le hx
  · rename_i h
    exact isWorst_own (Nat.le_of_not_le h)

/-- The operation is as well confirmed as any of its witnesses. -/
theorem witnessStatus_le {c : Contract H S} {o : Opid} {w : S.WitnessId} (h : w ∈ c.pile.opWitnessIds o) :
    (c.witnessStatus o).quasiHeight.toNat ≤ (c.pile.witnessStatus w).quasiHeight.toNat := by
  have hm := List.mem_map_of_mem (f := c.pile.witnessStatus) h
  exact (WitnessStatus.bestOf_least (List.ne_nil_of_mem hm)).2 _ hm

/-- The own status an entry is made with. -/
inductive Made (c : Contract H S) (e : OwnedState H S) : WitnessStatus → Prop where
  | plain {s : S.Definition} (hs : c.pile.seal e.addr = some s) (hsrc : S.toSrc s = some e.assignment.seal_) :
      Made c e (c.witnessStatus e.addr.opid)
  | relative {s : S.Definition} {wid : S.WitnessId} (hs : c.pile.seal e.addr = some s) (hsrc : S.toSrc s = none)
      (hw : wid ∈ c.pile.opWitnessIds e.addr.opid) (he : e.assignment.seal_ = S.resolve s wid) :
      Made c e (c.pile.witnessStatus wid)

theorem Made.stored {c : Contract H S} {e : OwnedState H S} {own : WitnessStatus} (h : c.Made e own) :
    own.stored = own := by
  cases h with
  | plain hs hsrc => exact c.stored_witnessStatus _
  | relative hs hsrc hw he => exact c.pile.stored_witnessStatus _

theorem Made.witnessStatus_le {c : Contract H S} {e : OwnedState H S} {own : WitnessStatus} (h : c.Made e own) :
    (c.witnessStatus e.addr.opid).quasiHeight.toNat ≤ own.quasiHeight.toNat := by
  cases h with
  | plain hs hsrc => exact Nat.le_refl _
  | relative hs hsrc hw he => exact Contract.witnessStatus_le hw

/-- Every entry of a cell is made with an own status. -/
theorem made_of_mem {c : Contract H S} {cell : CellAddr × H.StrictVal} {e : OwnedState H S}
    (h : e ∈ c.entriesWith c.confirmed cell) : ∃ own, c.Made e own ∧ e.status = c.confirmed e.addr.opid own := by
  unfold entriesWith at h
  split at h
  · cases h
  · rename_i s hs
    split at h
    · rename_i src hsrc
      obtain rfl := List.mem_singleton.1 h
      exact ⟨_, .plain hs hsrc, rfl⟩
    · rename_i hsrc
      obtain ⟨wid, hw, rfl⟩ := List.mem_map.1 h
      exact ⟨_, .relative hs hsrc hw rfl, rfl⟩

/-- **The statuses of a state**: the tables change nothing, and every entry reports the worst of its
history. -/
theorem state_confirmed (c : Contract H S) :
    c.state = c.stateWith c.confirmed ∧
    (∀ name entries, (name, entries) ∈ c.state.owned → ∀ e ∈ entries, ∃ own, c.Made e own ∧
      e.status.IsWorst (own :: c.others e.addr.opid)) ∧
    ∀ name entries, (name, entries) ∈ c.state.immutable → ∀ e ∈ entries,
      e.status.IsWorst (c.witnessStatus e.addr.opid :: c.others e.addr.opid) := by
  refine ⟨c.state_eq, fun name entries hm e he => ?_, fun name entries hm e he => ?_⟩
  · rw [state_eq] at hm
    obtain ⟨⟨name', cells⟩, -, heq⟩ := List.mem_map.1 hm
    cases heq
    obtain ⟨cell, -, hcell⟩ := List.mem_flatMap.1 he
    obtain ⟨own, hmade, hst⟩ := made_of_mem hcell
    rw [hst]
    exact ⟨own, hmade, confirmed_isWorst hmade.stored hmade.witnessStatus_le⟩
  · rw [state_eq] at hm
    obtain ⟨⟨name', cells⟩, -, heq⟩ := List.mem_map.1 hm
    cases heq
    obtain ⟨cell, -, rfl⟩ := List.mem_map.1 he
    exact confirmed_isWorst (c.stored_witnessStatus _) (Nat.le_refl _)

end Contract

end RgbStd
