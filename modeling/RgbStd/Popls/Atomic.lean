import RgbStd.Popls.Performs
/-!
# A bundle which fails

The requests of a bundle are executed one after another, and nothing is undone when a later
request, a blank or the size of the bundle makes it fail.

* `Performs.longer`: ledgers only grow.
* `Performs.unchanged_iff`: a contract has changed as soon as an operation is made.
* `bundle_atomic_iff`: a failed bundle has changed no contract exactly if its first request was
  refused.
-/
namespace RgbStd
open Tables Decode

namespace RgbWallet

variable {H : Hypersonic} {B : BpCore} {W : Wire H B.txoSeal} {V : Verifier H B.txoSeal} {P : Stockpile W V}

/-- Every contract has the ledger and the pile it had. -/
def Unchanged (w w' : RgbWallet P) : Prop := ∀ id, w'.contracts.served id = w.contracts.served id

/-- No ledger has lost an operation. -/
def Longer (w w' : RgbWallet P) : Prop :=
  ∀ id c, w.contracts.served id = some c →
    ∃ c', w'.contracts.served id = some c' ∧ H.trace c.ledger <+: H.trace c'.ledger

theorem Same.longer {w w' : RgbWallet P} (h : Same w w') : Longer w w' :=
  fun id c hc => ⟨c, (h.served id).trans hc, List.prefix_refl _⟩

theorem Longer.trans {w₁ w₂ w₃ : RgbWallet P} (h : Longer w₁ w₂) (h' : Longer w₂ w₃) : Longer w₁ w₃ := by
  intro id c hc
  obtain ⟨c₂, hc₂, hle⟩ := h id c hc
  obtain ⟨c₃, hc₃, hle'⟩ := h' id c₂ hc₂
  exact ⟨c₃, hc₃, hle.trans hle'⟩

/-- A prefab was accepted, and the contract has recorded its operation. -/
theorem prefab_trace (hL : H.CallLaws) {w w' : RgbWallet P} {request : OpRequest H (PrefabSeal B.Noise)} {p : Prefab H}
    (h : w.prefab request = (.ok p, w')) : w.Accepted request ∧ ∃ c c' o, w.contracts.served request.contractId = some c ∧
      H.trace c'.ledger = H.trace c.ledger ++ [o] ∧
      ∀ id, w'.contracts.served id = if id = request.contractId then some c' else w.contracts.served id := by
  obtain ⟨c, d, hcalls, hop, _⟩ := prefab_ok h
  obtain ⟨o, ledger, hl, _, hledger, _⟩ := Contract.call_ok hop
  refine ⟨⟨c, d, hcalls.served, hcalls.check, hcalls.draft, o, ledger, hl⟩, c, _, o, hcalls.served, ?_, hcalls.after⟩
  rw [hledger]
  exact hL.trace _ _ _ _ hl

theorem prefab_longer (hL : H.CallLaws) {w w' : RgbWallet P} {request : OpRequest H (PrefabSeal B.Noise)} {p : Prefab H}
    (h : w.prefab request = (.ok p, w')) : Longer w w' := by
  obtain ⟨_, c, c', o, hc, ho, hafter⟩ := prefab_trace hL h
  intro id c₁ hc₁
  rw [hafter]
  split
  · rename_i he
    obtain rfl : c = c₁ := by rw [he, hc] at hc₁; exact Option.some.inj hc₁
    exact ⟨c', rfl, ho ▸ List.prefix_append _ _⟩
  · exact ⟨c₁, hc₁, List.prefix_refl _⟩

/-- **Ledgers only grow.** -/
theorem Performs.longer (hL : H.CallLaws) {w w' : RgbWallet P} {made : List (Made H B)} (h : Performs w made w') :
    Longer w w' := by
  induction h with
  | done w => exact (Same.refl w).longer
  | reads hs _ ih => exact hs.longer.trans ih
  | makes hp _ ih => exact (prefab_longer hL hp).trans ih

/-- **What is recorded stays**, so every operation that is made leaves a change. -/
theorem Performs.unchanged_iff (hL : H.CallLaws) {w w' : RgbWallet P} {made : List (Made H B)}
    (h : Performs w made w') : Unchanged w w' ↔ made = [] := by
  refine ⟨fun hun => ?_, fun hmade => (hmade ▸ h).same.served⟩
  induction h with
  | done w => rfl
  | reads hs _ ih => exact ih fun id => (hun id).trans (hs.served id).symm
  | @makes w w₁ w' _ request _ p hp rest _ =>
    obtain ⟨_, c, c', o, hc, ho, hafter⟩ := prefab_trace hL hp
    -- the operation recorded first is still there
    obtain ⟨c₂, hc₂, hle⟩ := rest.longer hL request.contractId c' (by simp [hafter])
    rw [hun, hc] at hc₂
    cases hc₂
    have hlen := hle.length_le
    rw [ho, List.length_append, List.length_singleton] at hlen
    omega

/-- Without requests there is nothing to make: no outputs are closed, so there are no blanks. -/
theorem makes_nil (w : RgbWallet P) (change : Option UInt32) :
    w.makes (.bundle ([] : List (OpRequest H (PrefabSeal B.Noise))) change) = [] := by
  simp only [makes, executed, List.nil_append]
  split
  · rfl
  · rename_i ps blanks w₁ hplan
    rcases plan_eq hplan with ⟨_, _, he⟩ | ⟨ps', w₂, hps, hr⟩
    · cases he
    cases hps
    obtain ⟨rfl, hblanks⟩ := (hr.resolve_left (by simp)).2 _ _ rfl
    obtain rfl : blanks = [] := List.eq_nil_iff_forall_not_mem.2 fun q hq => by
      obtain ⟨id, _, _, c, _, hb⟩ := hblanks.sound hq
      rcases blankRequest_ok hb with ⟨_, hn⟩ | ⟨_, _, hne, _⟩
      · cases hn
      · exact hne (by simp [entriesAt])
    rfl

/-- A bundle which is refused makes nothing if and only if its first request is refused. -/
theorem makes_eq_nil (hL : H.CallLaws) {w w' : RgbWallet P} {requests : List (OpRequest H (PrefabSeal B.Noise))}
    {change : Option UInt32} {e : MultiError (BundleError H) H.StockError Empty}
    (h : w.bundle requests change = (.error (.err e), w')) :
    w.makes (.bundle requests change) = [] ↔ ∀ request ∈ requests.head?, ¬w.Accepted request := by
  cases requests with
  | nil => exact ⟨fun _ => by simp, fun _ => makes_nil w change⟩
  | cons request requests =>
    simp only [List.head?_cons, Option.mem_def, Option.some.injEq, forall_eq']
    rcases hp : w.prefab request with ⟨e' | p, w₁⟩
    · simp only [bundle, plan, prefabs, hp] at h
      simp only [makes, executed, plan, prefabs, hp, List.append_nil, true_iff]
      cases e' with
      | panic => cases (Prod.mk.inj h).1
      | err e' => exact (prefab_err hL hp).2
    · simp only [makes, executed, hp, List.cons_append, reduceCtorEq, false_iff, not_not]
      exact (prefab_trace hL hp).1

/-- **A failed bundle** has left every contract as it was if and only if its first request was
refused. -/
theorem bundle_atomic_iff (hL : H.CallLaws) {w w' : RgbWallet P} {requests : List (OpRequest H (PrefabSeal B.Noise))}
    {change : Option UInt32} {e : MultiError (BundleError H) H.StockError Empty}
    (h : w.bundle requests change = (.error (.err e), w')) :
    Unchanged w w' ↔ ∀ request ∈ requests.head?, ¬w.Accepted request := by
  have hperforms := (bundle_performs hL h).resolve_left (by simp)
  rw [hperforms.unchanged_iff hL, makes_eq_nil hL h]

end RgbWallet

/-- A request for a cell the contract does not have any more is refused at once. -/
theorem bundle_refused : ∃ e w', Purse.wallet.bundle [Purse.spend 3 [(0, Purse.first)] 50 1] none = (.error (.err e), w') ∧
    RgbWallet.Unchanged Purse.wallet w' := by
  obtain ⟨e, w', h⟩ : ∃ e w', Purse.wallet.bundle [Purse.spend 3 [(0, Purse.first)] 50 1] none = (.error (.err e), w') :=
    ⟨_, _, rfl⟩
  refine ⟨e, w', h, (RgbWallet.bundle_atomic_iff refSonic_callLaws h).2 ?_⟩
  rintro request hr ⟨c, d, hc, hck, _⟩
  cases hr
  cases hc
  cases hck

/-- The payment of contract 3 is recorded, and then there is no change output for contract 4. -/
theorem bundle_changeRequired_recorded :
    ¬∀ (H : Hypersonic) (B : BpCore) (W : Wire H B.txoSeal) (V : Verifier H B.txoSeal) (P : Stockpile W V), H.CallLaws →
      ∀ (w w' : RgbWallet P) requests change e, w.bundle requests change = (.error (.err e), w') →
      RgbWallet.Unchanged w w' := by
  intro h
  have hu := h _ _ _ _ Purse.dir refSonic_callLaws Purse.wallet _ [Purse.spend 3 [(0, Purse.first)] 60 1] none _ rfl
  have hops := congrArg (·.map fun c : Contract refSonic refBp.txoSeal => c.ledger.log) (hu (Purse.id 3))
  revert hops
  decide

end RgbStd
