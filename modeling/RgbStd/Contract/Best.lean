import RgbStd.Contract.Confirm
/-!
# The best witness of an operation (contract.rs:388-410)

`witness_status` reduces the statuses of the witnesses and `retrieve` the witnesses, both by quasi-height
(pile.rs:75-116), and both keep the later of two that are equally good. A height among the last three
is equally good as one of the statuses without a block, and stored as that one.

| here | there |
| --- | --- |
| `Reorders`    | the same witnesses with the same statuses, in another order |
| `WellDefined` | what the two reductions are to give, in every order |

* `bestWitness_eq_some`: the two reductions agree, in any order.
* `witnessStatus_eq_of_least`: the best witnesses have one status.
* `wellDefined`: what the reductions give is well-defined.
-/
namespace RgbStd
open Tables Extremes

namespace Contract

variable {H : Hypersonic} {S : RgbSeal}

/-! ## The two reductions -/

def rank (p : PileFs S) (w : S.WitnessId) : Nat := (p.witnessStatus w).quasiHeight.toNat

/-- The step of the fold in `bestWitness`. -/
theorem pick_least (p : PileFs S) (w w' : S.WitnessId) : Least (rank p)
    (if (p.witnessStatus w).isBetter (p.witnessStatus w') then w else w') [w, w'] := by
  split
  · rename_i h
    exact ⟨by simp, by simpa [rank] using Nat.le_of_lt (WitnessStatus.isBetter_iff.1 h)⟩
  · rename_i h
    exact ⟨by simp, by simpa [rank] using Nat.le_of_not_lt (mt WitnessStatus.isBetter_iff.2 h)⟩

/-- **The witness that is kept** is a best one, and its status is the one that is kept. -/
theorem bestWitness_eq_some {p : PileFs S} {ws : List S.WitnessId} {w : S.WitnessId} (h : bestWitness p ws = some w) :
    Least (rank p) w ws ∧ p.witnessStatus w = .bestOf (ws.map p.witnessStatus) := by
  cases ws with
  | nil => cases h
  | cons v ws =>
    cases h
    refine ⟨least_foldl (pick_least p) ws v, ?_⟩
    show _ = (ws.map p.witnessStatus).foldl .best (p.witnessStatus v)
    rw [List.foldl_map]
    refine (List.foldl_hom p.witnessStatus fun x y => ?_).symm
    show (p.witnessStatus x).best (p.witnessStatus y) = _
    unfold WitnessStatus.best
    split <;> rfl

theorem exists_bestWitness {p : PileFs S} {ws : List S.WitnessId} (h : ws ≠ []) : ∃ w, bestWitness p ws = some w := by
  cases ws with
  | nil => exact absurd rfl h
  | cons v ws => exact ⟨_, rfl⟩

/-- The status of an operation is that of one of its best witnesses. -/
theorem exists_least_witnessStatus {c : Contract H S} {o : Opid} (h : c.pile.opWitnessIds o ≠ []) :
    ∃ w, Least (rank c.pile) w (c.pile.opWitnessIds o) ∧ c.pile.witnessStatus w = c.witnessStatus o := by
  obtain ⟨w, hw⟩ := exists_bestWitness (p := c.pile) h
  exact ⟨w, bestWitness_eq_some hw⟩

/-- What is retrieved is a best witness, if it is valid. -/
theorem retrieve_eq_some {c : Contract H S} {o : Opid} {sw : SealWitness S} : c.retrieve o = some sw ↔
    ∃ w, bestWitness c.pile (c.pile.opWitnessIds o) = some w ∧ (c.pile.witnessStatus w).isValid = true ∧
      c.pile.pubWitness w = some sw.published ∧ c.pile.cliWitness w = some sw.client := by
  simp only [retrieve, Option.bind_eq_bind, Option.bind_eq_some_iff]
  refine exists_congr fun w => and_congr_right fun _ => ?_
  by_cases hv : (c.pile.witnessStatus w).isValid = true
  · simp only [hv, if_true, Option.bind_eq_some_iff, true_and]
    constructor
    · rintro ⟨pub, hp, cli, hc, he⟩
      cases he
      exact ⟨hp, hc⟩
    · rintro ⟨hp, hc⟩
      exact ⟨_, hp, _, hc, rfl⟩
  · simp [hv]

/-- A witness is retrieved if there is one and the status of the operation is valid. -/
theorem retrieve_isSome_iff {c : Contract H S} {o : Opid} :
    (c.retrieve o).isSome = true ↔ c.pile.opWitnessIds o ≠ [] ∧ (c.witnessStatus o).isValid = true := by
  rw [Option.isSome_iff_exists]
  constructor
  · rintro ⟨sw, h⟩
    obtain ⟨w, hw, hv, -⟩ := retrieve_eq_some.1 h
    obtain ⟨hl, hst⟩ := bestWitness_eq_some hw
    exact ⟨List.ne_nil_of_mem hl.1, (congrArg _ hst).symm.trans hv⟩
  · rintro ⟨hne, hv⟩
    obtain ⟨w, hw⟩ := exists_bestWitness (p := c.pile) hne
    obtain ⟨hl, hst⟩ := bestWitness_eq_some hw
    have hk : has c.pile.hoard w = true := PileFs.hasWitness_of_mem hl.1
    obtain ⟨cli, hc⟩ := has_iff.1 hk
    obtain ⟨pub, hp⟩ := has_iff.1 ((c.pile.cached w).trans hk)
    have hv' : (c.pile.witnessStatus w).isValid = true := (congrArg _ hst).trans hv
    exact ⟨⟨pub, cli⟩, retrieve_eq_some.2 ⟨w, hw, hv', hp, hc⟩⟩

/-! ## In every order -/

/-- The same witnesses of the operation, with the same statuses, in any order. -/
structure Reorders (c c' : Contract H S) (o : Opid) : Prop where
  order : (c'.pile.opWitnessIds o).Perm (c.pile.opWitnessIds o)
  status : ∀ w, c'.pile.witnessStatus w = c.pile.witnessStatus w

/-- What the reductions give in the order of `c'`, as they are to in the order of `c`. -/
structure Selects (c c' : Contract H S) (o : Opid) : Prop where
  status : c'.witnessStatus o = c.witnessStatus o
  best : ∀ w ∈ c.pile.opWitnessIds o, (c.pile.witnessStatus w).isBetter (c'.witnessStatus o) = false
  retrieves : (c'.retrieve o).isSome = true ↔ ∃ w ∈ c.pile.opWitnessIds o, (c.pile.witnessStatus w).isValid = true
  retrieved : ∀ sw, c'.retrieve o = some sw → ∃ w ∈ c.pile.opWitnessIds o, c'.pile.pubWitness w = some sw.published ∧
    c'.pile.cliWitness w = some sw.client ∧ c.pile.witnessStatus w = c'.witnessStatus o

def WellDefined (c : Contract H S) (o : Opid) : Prop := ∀ c' : Contract H S, c.Reorders c' o → c.Selects c' o

/-- **The best witnesses** have one status. -/
theorem witnessStatus_eq_of_least {p : PileFs S} {ws : List S.WitnessId} {w₁ w₂ : S.WitnessId}
    (h₁ : Least (rank p) w₁ ws) (h₂ : Least (rank p) w₂ ws) : p.witnessStatus w₁ = p.witnessStatus w₂ :=
  WitnessStatus.eq_of_quasiHeight_eq (p.stored_witnessStatus w₁) (p.stored_witnessStatus w₂)
    (UInt64.toNat_inj.1 (Nat.le_antisymm (h₁.2 w₂ h₂.1) (h₂.2 w₁ h₁.1)))

theorem Reorders.nil_iff {c c' : Contract H S} {o : Opid} (h : c.Reorders c' o) :
    c'.pile.opWitnessIds o = [] ↔ c.pile.opWitnessIds o = [] :=
  ⟨fun hn => List.nil_perm.1 (hn ▸ h.order), fun hn => List.perm_nil.1 (hn ▸ h.order)⟩

/-- In any order the status is that of one of the best witnesses. -/
theorem Reorders.exists_least {c c' : Contract H S} {o : Opid} (h : c.Reorders c' o)
    (hne : c.pile.opWitnessIds o ≠ []) :
    ∃ w, Least (rank c.pile) w (c.pile.opWitnessIds o) ∧ c.pile.witnessStatus w = c'.witnessStatus o := by
  obtain ⟨w, hw, hst⟩ := exists_least_witnessStatus (mt h.nil_iff.1 hne)
  have hrank : rank c'.pile = rank c.pile := funext fun w => by rw [rank, h.status]; rfl
  rw [hrank] at hw
  exact ⟨w, hw.perm h.order, h.status w ▸ hst⟩

/-- So the status is the same in any order. -/
theorem Reorders.witnessStatus_eq {c c' : Contract H S} {o : Opid} (h : c.Reorders c' o) :
    c'.witnessStatus o = c.witnessStatus o := by
  by_cases hn : c.pile.opWitnessIds o = []
  · rw [witnessStatus_of_nil hn, witnessStatus_of_nil (h.nil_iff.2 hn)]
  · obtain ⟨w, hw, hst⟩ := exists_least_witnessStatus hn
    obtain ⟨w', hw', hst'⟩ := h.exists_least hn
    rw [← hst, ← hst', witnessStatus_eq_of_least hw hw']

/-- The status of an operation is valid if it has no witness, or a valid one. -/
theorem isValid_witnessStatus_iff {c : Contract H S} {o : Opid} : (c.witnessStatus o).isValid = true ↔
    c.pile.opWitnessIds o = [] ∨ ∃ w ∈ c.pile.opWitnessIds o, (c.pile.witnessStatus w).isValid = true :=
  WitnessStatus.isValid_bestOf_map_iff fun w _ => c.pile.stored_witnessStatus w

/-- **Best-witness selection** is well-defined: in every order of the witnesses of an operation its status is the
same and the best of theirs, and the witness that is retrieved, if one is valid, has that status. -/
theorem wellDefined (c : Contract H S) (o : Opid) : c.WellDefined o := by
  intro c' h
  have hst := h.witnessStatus_eq
  refine ⟨hst, fun w hw => ?_, ?_, fun sw hsw => ?_⟩
  · rw [hst, ← Bool.not_eq_true, WitnessStatus.isBetter_iff, Nat.not_lt]
    exact witnessStatus_le hw
  · rw [retrieve_isSome_iff, hst, ne_eq, h.nil_iff, isValid_witnessStatus_iff]
    constructor
    · rintro ⟨hne, hn | hv⟩
      · exact absurd hn hne
      · exact hv
    · rintro ⟨w, hw, hv⟩
      exact ⟨List.ne_nil_of_mem hw, Or.inr ⟨w, hw, hv⟩⟩
  · obtain ⟨w, hw, -, hp, hc⟩ := retrieve_eq_some.1 hsw
    obtain ⟨hl, hs⟩ := bestWitness_eq_some hw
    exact ⟨w, h.order.mem_iff.1 hl.1, hp, hc, (h.status w).symm.trans hs⟩

end Contract

end RgbStd
