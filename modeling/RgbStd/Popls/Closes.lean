import RgbStd.Popls.Loss
/-!
# The outputs a prefab closes (popls/bp.rs:549-600)

An input of a request names a cell and, apart from it, an output. `check_request` looks up the cell and
never compares the output with that of its seal.

* `prefab_closes_iff`: a prefab closes the outputs of the cells it spends exactly if its request lists the two
  together; it does if every input is an entry of the state.
-/
namespace RgbStd
open Tables Decode

namespace RgbWallet

variable {H : Hypersonic} {B : BpCore} {W : Wire H B.txoSeal} {V : Verifier H B.txoSeal} {P : Stockpile W V}

/-- The entries of `contract_state`, of all names. -/
def entriesOf (w : RgbWallet P) (id : ContractId) : List (OwnedState H B.txoSeal) :=
  match w.contracts.served id with
  | none => []
  | some c => entries c

/-- Every cell spent has an entry at one of the outputs closed, and every output closed is that of an entry of
a cell spent. -/
def ClosesSpent (w : RgbWallet P) (id : ContractId) (p : Prefab H) : Prop :=
  (∀ a ∈ H.destructibleIn p.operation, ∃ e ∈ w.entriesOf id, e.addr = a ∧ e.assignment.seal_.primary ∈ p.closes.elems) ∧
    ∀ o ∈ p.closes.elems, ∃ e ∈ w.entriesOf id, e.addr ∈ H.destructibleIn p.operation ∧ e.assignment.seal_.primary = o

/-- Each cell listed has an entry at an output that is listed, for whatever cell, and each output listed is that
of an entry of a cell that is. -/
def Listed {T : Type} (w : RgbWallet P) (request : OpRequest H T) : Prop :=
  ∀ used ∈ request.using_,
    (∃ e ∈ w.entriesOf request.contractId, e.addr = used.addr ∧
      ∃ used' ∈ request.using_, used'.outpoint = e.assignment.seal_.primary) ∧
    ∃ e ∈ w.entriesOf request.contractId, e.assignment.seal_.primary = used.outpoint ∧
      ∃ used' ∈ request.using_, used'.addr = e.addr

/-- Every input has the output of an entry of its cell. -/
def Paired {T : Type} (w : RgbWallet P) (request : OpRequest H T) : Prop :=
  ∀ used ∈ request.using_, ∃ e ∈ w.entriesOf request.contractId, e.addr = used.addr ∧
    e.assignment.seal_.primary = used.outpoint

theorem Paired.listed {T : Type} {w : RgbWallet P} {request : OpRequest H T} (h : w.Paired request) : w.Listed request := by
  intro used hu
  obtain ⟨e, he, ha, ho⟩ := h used hu
  exact ⟨⟨e, he, ha, used, hu, ho.symm⟩, e, he, ho, used, hu, ha.symm⟩

/-- **A prefab closes the outputs of the cells it spends** if and only if its request lists the two together, as
it does when each input is an entry of the state. -/
theorem prefab_closes_iff (hL : H.CallLaws) {w w' : RgbWallet P} {request : OpRequest H (PrefabSeal B.Noise)}
    {p : Prefab H} (h : w.prefab request = (.ok p, w')) :
    (w.ClosesSpent request.contractId p ↔ w.Listed request) ∧
      (w.Paired request → w.ClosesSpent request.contractId p) := by
  obtain ⟨hins, hcloses⟩ := prefab_uses hL h
  have hiff : w.ClosesSpent request.contractId p ↔ w.Listed request := by
    simp only [ClosesSpent, hins, hcloses, List.mem_map, forall_exists_index, and_imp, forall_apply_eq_imp_iff₂]
    constructor
    · rintro ⟨hcells, houts⟩ used hu
      obtain ⟨e, he, ha, ho⟩ := houts used hu
      exact ⟨hcells used hu, e, he, ho, ha⟩
    · intro hlisted
      refine ⟨fun used hu => (hlisted used hu).1, fun used hu => ?_⟩
      obtain ⟨e, he, ho, ha⟩ := (hlisted used hu).2
      exact ⟨e, he, ha, ho⟩
  exact ⟨hiff, fun hp => hiff.2 hp.listed⟩

end RgbWallet

/-- The cells of contract 3 at the first output. -/
theorem closes_first : ∃ p w', Purse.wallet.prefab (Purse.spend 3 [(0, Purse.first), (1, Purse.first)] 100 1) = (.ok p, w') ∧
    Purse.wallet.ClosesSpent (Purse.id 3) p := by
  obtain ⟨p, w', h⟩ : ∃ p w', Purse.wallet.prefab (Purse.spend 3 [(0, Purse.first), (1, Purse.first)] 100 1) =
    (.ok p, w') := ⟨_, _, rfl⟩
  refine ⟨p, w', h, (RgbWallet.prefab_closes_iff refSonic_callLaws h).2 fun used hu => ?_⟩
  have hall : ∀ used ∈ (Purse.spend 3 [(0, Purse.first), (1, Purse.first)] 100 1).using_,
      ∃ e ∈ Purse.wallet.entriesOf (Purse.id 3), e.addr = used.addr ∧ e.assignment.seal_.primary = used.outpoint := by
    decide
  exact hall used hu

def Purse.misplaced : Prefab refSonic :=
  (wallet.prefab (spend 3 [(0, second)] 60 1)).1.toOption.getD ⟨.empty, .empty, ⟨id 0, 0, [], []⟩⟩

/-- The 60 of the first output, listed with the second: the second output is closed. -/
theorem closes_second :
    ¬∀ (H : Hypersonic) (B : BpCore) (W : Wire H B.txoSeal) (V : Verifier H B.txoSeal) (P : Stockpile W V), H.CallLaws →
      ∀ (w w' : RgbWallet P) (request : OpRequest H (PrefabSeal B.Noise)) p, w.prefab request = (.ok p, w') →
      w.ClosesSpent request.contractId p := by
  intro h
  have hs := (h refSonic refBp _ _ Purse.dir refSonic_callLaws Purse.wallet _ (Purse.spend 3 [(0, Purse.second)] 60 1)
    Purse.misplaced rfl).2 Purse.second (by decide)
  revert hs
  decide

end RgbStd
