import RgbStd.Lib.Totals
import RgbStd.Popls.Steps
/-!
# What a checked request balances (popls/bp.rs:540-641)

`check_request` counts every cell a request lists as an input; the operation is built from a map of
the addresses listed. A cell listed twice is counted twice and spent once.

| here | there |
| --- | --- |
| `Totals`    | what is relied on in `StateCalc`: a running total in a cancellative monoid |
| `listed`    | the total `check_request` takes from the inputs of a request |
| `spent`     | the total of the cells in the map `prefab` calls with |
| `assigned`  | the total of the outputs |
| `repeated`  | the total of the cells listed again |

* `check_ok`: a checked request assigns what it lists.
* `checkRequest_balanced_iff`: it assigns what is spent exactly if what is listed again is nothing.
-/
namespace RgbStd
open Tables Decode Totals

/-- A calculator holds a running total of the values of one state. -/
structure Hypersonic.Totals (H : Hypersonic) (M : Type) [AddCommMonoid M] where
  value : H.Articles → StateName → H.StrictVal → M
  Holds : H.Articles → StateName → H.StateCalc → M → Prop
  calculate : ∀ a n k, H.calculate a n = some k → Holds a n k 0
  accumulate : ∀ a n k k' v m, Holds a n k m → H.accumulate k v = .ok k' → Holds a n k' (m + value a n v)
  lessen : ∀ a n k k' v m, Holds a n k m → H.lessen k v = .ok k' → ∃ m', m' + value a n v = m ∧ Holds a n k' m'
  diff : ∀ a n k m vs, Holds a n k m → H.diff k = .ok vs → (vs = [] ↔ m = 0)

/-- The reference calculator is its total. -/
def refTotals : refSonic.Totals Nat where
  value _ _ v := v
  Holds _ _ k m := k = m
  calculate a n k h := by cases h; rfl
  accumulate a n k k' v m h hk := by
    cases h
    cases hk
    rfl
  lessen a n k k' v m h hk := by
    cases h
    have hk' : (if v ≤ k then .ok (k - v) else .error () : Except Unit Nat) = .ok k' := hk
    split at hk'
    · rename_i hle
      cases hk'
      exact ⟨_, Nat.sub_add_cancel hle, rfl⟩
    · cases hk'
  diff a n k m vs h hv := by
    cases h
    cases hv
    by_cases hk : k = 0 <;> simp [hk]

namespace OpRequest

variable {H : Hypersonic} {S : RgbSeal} {T : Type} {M : Type} [AddCommMonoid M] (t : H.Totals M)

/-! ## Totals of a request -/

/-- What a cell of the state adds to the total of a name. -/
def cellTotal (articles : H.Articles) (state : ContractState H S) (name : StateName) (addr : CellAddr) : M :=
  match state.find addr with
  | some (n, owned) => if n = name then t.value articles n owned.assignment.data else 0
  | none => 0

def outTotal (articles : H.Articles) (name : StateName) (out : NamedState (Assignment (EitherSeal T) H.StrictVal)) : M :=
  if out.name = name then t.value articles out.name out.state.data else 0

/-- The addresses listed, one for each use. -/
def addrs (request : OpRequest H T) : List CellAddr := request.using_.map (·.addr)

/-- The addresses of the map the operation is called with. -/
def spends (request : OpRequest H T) : List CellAddr :=
  keys (request.using_.foldl (fun t used => upsert t used.addr used.satisfaction) [])

def listed (request : OpRequest H T) (articles : H.Articles) (state : ContractState H S) (name : StateName) : M :=
  (request.addrs.map (cellTotal t articles state name)).sum

def spent (request : OpRequest H T) (articles : H.Articles) (state : ContractState H S) (name : StateName) : M :=
  (request.spends.map (cellTotal t articles state name)).sum

def repeated (request : OpRequest H T) (articles : H.Articles) (state : ContractState H S) (name : StateName) : M :=
  ((repeats request.addrs).map (cellTotal t articles state name)).sum

def assigned (request : OpRequest H T) (articles : H.Articles) (name : StateName) : M :=
  (request.owned.map (outTotal t articles name)).sum

variable {t}

/-- What is listed is what is spent, and what is listed again. -/
theorem listed_eq (request : OpRequest H T) (articles : H.Articles) (state : ContractState H S) (name : StateName) :
    request.listed t articles state name =
      request.spent t articles state name + request.repeated t articles state name := by
  have hperm : request.spends.Perm request.addrs.dedup := keys_foldl_perm UsedState.addr UsedState.satisfaction _
  rw [listed, sum_dedup_add_repeats, spent, (hperm.map _).sum_eq, repeated]

/-- The inputs a draft calls with. -/
theorem draft_spends {B : BpCore} {engine : Bytes} {request : OpRequest H (PrefabSeal B.Noise)} {d : Draft H B}
    (h : request.draft engine = .ok d) : keys d.call.using_ = request.spends := by
  rw [(draft_eq_ok h).2.2.1]
  rfl

/-! ## The check -/

theorem take_ok {articles : H.Articles} {f : H.StateCalc → H.StrictVal → Except H.StateCalcError H.StateCalc}
    {calcs calcs' : Calcs H} {name : StateName} {val : H.StrictVal} {total : StateName → M}
    (hs : Stands (t.Holds articles) calcs total) (h : calcs.take articles f name val = .ok calcs') :
    ∃ k k', t.Holds articles name k (total name) ∧ f k val = .ok k' ∧ calcs' = upsert calcs name k' := by
  unfold Calcs.take at h
  split at h
  · cases h
  · rename_i k hk
    split at h
    · cases h
    · rename_i k' hk'
      cases h
      refine ⟨k, k', ?_, hk', rfl⟩
      cases hg : get calcs name with
      | some k₀ =>
        rw [hg, Option.some_or] at hk
        cases hk
        exact (hs name).1 k hg
      | none =>
        rw [hg, Option.none_or] at hk
        rw [(hs name).2 hg]
        exact t.calculate _ _ _ hk

theorem matchInput_ok {articles : H.Articles} {state : ContractState H S} {calcs calcs' : Calcs H}
    {inp : UsedState H.Satisfaction} {total : StateName → M} (hs : Stands (t.Holds articles) calcs total)
    (h : matchInput articles state calcs inp = .ok calcs') :
    Stands (t.Holds articles) calcs' fun name => total name + cellTotal t articles state name inp.addr := by
  unfold matchInput at h
  split at h
  · cases h
  · rename_i name owned hf
    obtain ⟨k, k', hk, hacc, rfl⟩ := take_ok hs (mapError_eq_ok.1 h)
    refine hs.upsert ?_ fun n hn => ?_
    · simp only [cellTotal, hf, if_true]
      exact t.accumulate _ _ _ _ _ _ hk hacc
    · simp [cellTotal, hf, hn.symm]

theorem inputs_ok {articles : H.Articles} {state : ContractState H S} {inputs : List (UsedState H.Satisfaction)}
    {calcs calcs' : Calcs H} {total : StateName → M} (hs : Stands (t.Holds articles) calcs total)
    (h : inputs.foldlM (matchInput articles state) calcs = .ok calcs') :
    Stands (t.Holds articles) calcs' fun name =>
      total name + ((inputs.map (·.addr)).map (cellTotal t articles state name)).sum := by
  induction inputs generalizing calcs total with
  | nil =>
    cases h
    simpa using hs
  | cons inp inputs ih =>
    rw [List.foldlM_cons] at h
    obtain ⟨calcs₁, h₁, h⟩ := except_bind_eq_ok.1 h
    simpa only [List.map_cons, List.sum_cons, add_assoc] using ih (matchInput_ok hs h₁) h

theorem matchOutput_ok {articles : H.Articles} {calcs calcs' : Calcs H}
    {out : NamedState (Assignment (EitherSeal T) H.StrictVal)} {total : StateName → M}
    (hs : Stands (t.Holds articles) calcs total) (h : matchOutput articles calcs out = .ok calcs') :
    ∃ rest, (∀ name, rest name + outTotal t articles name out = total name) ∧ Stands (t.Holds articles) calcs' rest := by
  obtain ⟨k, k', hk, hless, rfl⟩ := take_ok hs (mapError_eq_ok.1 h)
  obtain ⟨m, hm, hk'⟩ := t.lessen _ _ _ _ _ _ hk hless
  refine ⟨fun name => if name = out.name then m else total name, fun name => ?_, ?_⟩
  · by_cases hn : name = out.name
    · simp [hn, outTotal, hm]
    · simp [hn, outTotal, Ne.symm hn]
  · refine hs.upsert ?_ fun n hn => ?_
    · simpa using hk'
    · simp [hn]

theorem outputs_ok {articles : H.Articles} {outputs : List (NamedState (Assignment (EitherSeal T) H.StrictVal))}
    {calcs calcs' : Calcs H} {total : StateName → M} (hs : Stands (t.Holds articles) calcs total)
    (h : outputs.foldlM (matchOutput articles) calcs = .ok calcs') :
    ∃ rest, (∀ name, rest name + (outputs.map (outTotal t articles name)).sum = total name) ∧
      Stands (t.Holds articles) calcs' rest := by
  induction outputs generalizing calcs total with
  | nil =>
    cases h
    exact ⟨total, fun name => by simp, hs⟩
  | cons out outputs ih =>
    rw [List.foldlM_cons] at h
    obtain ⟨calcs₁, h₁, h⟩ := except_bind_eq_ok.1 h
    obtain ⟨rest₁, hr₁, hs₁⟩ := matchOutput_ok hs h₁
    obtain ⟨rest, hr, hs'⟩ := ih hs₁ h
    refine ⟨rest, fun name => ?_, hs'⟩
    rw [List.map_cons, List.sum_cons, ← hr₁ name, ← hr name, add_assoc, add_comm (outTotal t articles name out)]

theorem matchRest_ok {calcs : List (StateName × H.StateCalc)} (h : matchRest calcs = .ok ()) :
    ∀ e ∈ calcs, H.diff e.2 = .ok [] := by
  induction calcs with
  | nil => simp
  | cons e calcs ih =>
    obtain ⟨name, k⟩ := e
    simp only [matchRest] at h
    split at h
    · cases h
    · cases h
    · rename_i hd
      exact List.forall_mem_cons.2 ⟨hd, ih h⟩

/-- **A checked request** assigns what it lists. -/
theorem check_ok {request : OpRequest H T} {articles : H.Articles} {state : ContractState H S}
    (h : request.check articles state = .ok ()) (name : StateName) :
    request.listed t articles state name = request.assigned t articles name := by
  unfold check at h
  obtain ⟨calcs₁, h₁, h⟩ := except_bind_eq_ok.1 h
  obtain ⟨calcs₂, h₂, h⟩ := except_bind_eq_ok.1 h
  have hs₁ := inputs_ok (stands_nil (t.Holds articles)) h₁
  obtain ⟨rest, hr, hs₂⟩ := outputs_ok hs₁ h₂
  have hrest : rest name = 0 := by
    refine hs₂.eq_zero (fun n k m hm hk => ?_) name
    have hd := matchRest_ok h (n, k) ((List.mem_insertionSort _).2 hm)
    exact (t.diff _ _ _ _ _ hk hd).1 rfl
  have hname := hr name
  rw [hrest, zero_add, zero_add] at hname
  exact hname.symm

end OpRequest

namespace RgbWallet

variable {H : Hypersonic} {B : BpCore} {W : Wire H B.txoSeal} {V : Verifier H B.txoSeal} {P : Stockpile W V}

theorem checkRequest_ok {T : Type} {w w' : RgbWallet P} {request : OpRequest H T} {c : Contract H B.txoSeal}
    (hc : w.contracts.served request.contractId = some c) (h : w.checkRequest request = (.ok (), w')) :
    request.check (H.articles c.ledger) c.state = .ok () := by
  obtain ⟨_, hcheck, _⟩ := checkRequest_served hc
  exact congrArg Prod.fst (hcheck.symm.trans h)

/-- **A checked request is balanced**, for each name, if and only if what it lists again is nothing. -/
theorem checkRequest_balanced_iff {M : Type} [AddCancelCommMonoid M] (t : H.Totals M) {T : Type} {w w' : RgbWallet P}
    {request : OpRequest H T} {c : Contract H B.txoSeal} (hc : w.contracts.served request.contractId = some c)
    (h : w.checkRequest request = (.ok (), w')) :
    (∀ name, request.spent t (H.articles c.ledger) c.state name = request.assigned t (H.articles c.ledger) name) ↔
      ∀ name, request.repeated t (H.articles c.ledger) c.state name = 0 := by
  refine forall_congr' fun name => ?_
  rw [← OpRequest.check_ok (checkRequest_ok hc h) name, OpRequest.listed_eq]
  exact ⟨fun he => left_eq_add.1 he, fun hz => by rw [hz, add_zero]⟩

end RgbWallet

/-- Two cells, each listed once. -/
theorem balanced_once : ∃ c, Purse.wallet.contracts.served (Purse.id 3) = some c ∧
    ∀ name, (Purse.spend 3 [(0, Purse.first), (1, Purse.first)] 100 1).spent refTotals c.ledger.articles c.state name =
      (Purse.spend 3 [(0, Purse.first), (1, Purse.first)] 100 1).assigned refTotals c.ledger.articles name := by
  obtain ⟨c, hc⟩ : ∃ c, Purse.wallet.contracts.served (Purse.id 3) = some c := ⟨_, rfl⟩
  obtain ⟨w', hw⟩ : ∃ w', Purse.wallet.checkRequest (Purse.spend 3 [(0, Purse.first), (1, Purse.first)] 100 1) =
    (.ok (), w') := ⟨_, rfl⟩
  exact ⟨c, hc, (RgbWallet.checkRequest_balanced_iff refTotals hc hw).2 fun name => rfl⟩

/-- A cell of 60 listed twice pays for 120. -/
theorem balanced_twice :
    ¬∀ (H : Hypersonic) (B : BpCore) (W : Wire H B.txoSeal) (V : Verifier H B.txoSeal) (P : Stockpile W V) (M : Type)
      (_ : AddCancelCommMonoid M) (t : H.Totals M) (T : Type) (w w' : RgbWallet P) (request : OpRequest H T) c,
      w.contracts.served request.contractId = some c → w.checkRequest request = (.ok (), w') →
      ∀ name, request.spent t (H.articles c.ledger) c.state name = request.assigned t (H.articles c.ledger) name := by
  intro h
  have hb := h refSonic _ _ _ Purse.dir Nat inferInstance refTotals _ Purse.wallet _
    (Purse.spend 3 [(0, Purse.first), (0, Purse.first)] 120 1) _ rfl rfl "amount"
  revert hb
  decide

end RgbStd
