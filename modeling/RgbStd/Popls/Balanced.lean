import RgbStd.Contract.Confirm
import RgbStd.Popls.Balance
import RgbStd.Popls.Fulfill
/-!
# A fulfilled invoice passes the check (popls/bp.rs:452-584)

`fulfill` keeps one calculator, which the selector, the extension, the payment and the change go through one
after another. `check_request` starts anew from the finished request: it looks up each address in the
unfiltered state, and keeps a calculator for each name it finds.

* `CalcLaws`, `Honest`, `OneCell`: what is relied on in `StateCalc`, in the selector and in the ledger.
* `check_only`: where all is of one name, the check is a run of the calculator of that name.
* `find_eq`: an address is found under its name, with its value.
* `fulfill_balanced`: a fulfilled invoice passes the check while the state is the same.
-/
namespace RgbStd
open Tables Decode Sweep

/-- The order in which values are accumulated does not matter, and the difference is what is left over. -/
structure Hypersonic.CalcLaws (H : Hypersonic) : Prop where
  accumulate : Swaps H.accumulate
  diff : ∀ k vals, H.diff k = .ok vals → ∃ k', vals.foldlM H.lessen k = .ok k' ∧ H.diff k' = .ok []

theorem refSonic_calcLaws : refSonic.CalcLaws where
  accumulate k a b k₁ k₂ h₁ h₂ := by
    cases h₁
    cases h₂
    exact ⟨k + b, rfl, congrArg Except.ok (Nat.add_right_comm k b a)⟩
  diff k vals h := by
    obtain rfl : (if k = 0 then [] else [k]) = vals := Except.ok.inj h
    by_cases hk : k = 0
    · exact ⟨k, by rw [if_pos hk]; rfl, congrArg Except.ok (if_pos hk)⟩
    · refine ⟨0, ?_, rfl⟩
      have hless : refSonic.lessen k k = .ok 0 := by
        show (if k ≤ k then .ok (k - k) else .error () : Except Unit Nat) = .ok 0
        rw [if_pos le_rfl, Nat.sub_self]
      rw [if_neg hk, List.foldlM_cons, hless]
      rfl

/-- The selector returns cells it was given, and the calculator with their values, in whatever order. -/
def Coinselect.Honest {H : Hypersonic} (coinselect : Coinselect H) : Prop :=
  ∀ value calc_ state selected calc', coinselect value calc_ state = some (selected, calc') →
    ∃ cells : List (OwnState H), (∀ e ∈ cells, e ∈ state) ∧
      selected = (cells.map fun e => (e.addr, e.assignment.seal_)) ∧
      ∃ vals : List H.StrictVal, vals.Perm (cells.map (·.assignment.data)) ∧ vals.foldlM H.accumulate calc_ = .ok calc'

/-- An address stands under one name, with one value. -/
def OneCell {Val : Type} (owned : List (StateName × List (CellAddr × Val))) : Prop :=
  ∀ m ∈ owned, ∀ m' ∈ owned, ∀ cell ∈ m.2, ∀ cell' ∈ m'.2, cell.1 = cell'.1 → m.1 = m'.1 ∧ cell.2 = cell'.2

/-! ## One calculator -/

namespace OpRequest

variable {H : Hypersonic} {S : RgbSeal} {T X E : Type}

/-- There is no other calculator than that of the name; it may still have to be made. -/
def Only (articles : H.Articles) (name : StateName) (calcs : Calcs H) (calc_ : H.StateCalc) : Prop :=
  (calcs = [] ∧ H.calculate articles name = some calc_) ∨ calcs = [(name, calc_)]

theorem Only.take {articles : H.Articles} {name : StateName} {calcs : Calcs H} {k k' : H.StateCalc}
    {f : H.StateCalc → H.StrictVal → Except H.StateCalcError H.StateCalc} {v : H.StrictVal}
    (h : Only articles name calcs k) (hf : f k v = .ok k') : calcs.take articles f name v = .ok [(name, k')] := by
  rcases h with ⟨rfl, hk⟩ | rfl
  · simp only [Calcs.take, get_nil, Option.none_or, hk, hf, upsert]
  · simp only [Calcs.take, get_cons, if_true, Option.some_or, hf, upsert]

theorem Only.foldlM {articles : H.Articles} {name : StateName} {g : Calcs H → X → Except E (Calcs H)}
    {f : H.StateCalc → H.StrictVal → Except H.StateCalcError H.StateCalc} {err : CalcFailure H → E} {xs : List X}
    {vals : List H.StrictVal}
    (hg : List.Forall₂ (fun x v => ∀ calcs, g calcs x = (calcs.take articles f name v).mapError err) xs vals)
    {calcs : Calcs H} {k k' : H.StateCalc} (h : Only articles name calcs k) (hk : vals.foldlM f k = .ok k') :
    ∃ calcs', xs.foldlM g calcs = .ok calcs' ∧ Only articles name calcs' k' := by
  induction hg generalizing calcs k with
  | nil =>
    cases hk
    exact ⟨calcs, rfl, h⟩
  | cons hx _ ih =>
    rw [List.foldlM_cons] at hk ⊢
    obtain ⟨k₁, hk₁, hk⟩ := except_bind_eq_ok.1 hk
    have hnext : Only articles name [(name, k₁)] k₁ := Or.inr rfl
    obtain ⟨calcs', hcalcs, ho⟩ := ih hnext hk
    exact ⟨calcs', except_bind_eq_ok.2 ⟨_, (hx calcs).trans (mapError_eq_ok.2 (h.take hk₁)), hcalcs⟩, ho⟩

theorem Only.matchRest {articles : H.Articles} {name : StateName} {calcs : Calcs H} {k : H.StateCalc}
    (h : Only articles name calcs k) (hd : H.diff k = .ok []) : matchRest calcs.byName = .ok () := by
  rcases h with ⟨rfl, _⟩ | rfl
  · rfl
  · show OpRequest.matchRest [(name, k)] = .ok ()
    simp only [OpRequest.matchRest, hd]

/-- **Where all is of one name**, the check is a run of its calculator over what is used and what is assigned. -/
theorem check_only {request : OpRequest H T} {articles : H.Articles} {state : ContractState H S} {name : StateName}
    {k₀ k₁ k₂ : H.StateCalc} {used assigned : List H.StrictVal} (hk₀ : H.calculate articles name = some k₀)
    (hused : List.Forall₂ (fun inp v => ∃ e, state.find inp.addr = some (name, e) ∧ e.assignment.data = v)
      request.using_ used)
    (hassigned : request.owned.map (fun out => (out.name, out.state.data)) = assigned.map (name, ·))
    (h₁ : used.foldlM H.accumulate k₀ = .ok k₁) (h₂ : assigned.foldlM H.lessen k₁ = .ok k₂) (hd : H.diff k₂ = .ok []) :
    request.check articles state = .ok () := by
  have hin : List.Forall₂ (fun inp v => ∀ calcs, matchInput articles state calcs inp =
      (calcs.take articles H.accumulate name v).mapError fun e => .err (.of e)) request.using_ used := by
    refine hused.imp fun inp v hv calcs => ?_
    obtain ⟨e, hf, rfl⟩ := hv
    simp only [matchInput, hf]
  have hout : List.Forall₂ (fun (out : NamedState (Assignment (EitherSeal T) H.StrictVal)) v => ∀ calcs,
      matchOutput articles calcs out = (calcs.take articles H.lessen name v).mapError fun e => .err (.of e))
      request.owned assigned := by
    have hpair : List.Forall₂ (fun (out : NamedState (Assignment (EitherSeal T) H.StrictVal)) v =>
        (out.name, out.state.data) = (name, v)) request.owned assigned := by
      rw [← List.forall₂_map_left_iff (R := fun x v => x = (name, v)), ← List.forall₂_map_right_iff (R := Eq),
        List.forall₂_eq_eq_eq]
      exact hassigned
    refine hpair.imp fun out v hv calcs => ?_
    obtain ⟨rfl, rfl⟩ := Prod.mk.inj hv
    rfl
  obtain ⟨calcs₁, hc₁, ho₁⟩ := Only.foldlM hin (Or.inl ⟨rfl, hk₀⟩) h₁
  obtain ⟨calcs₂, hc₂, ho₂⟩ := Only.foldlM hout ho₁ h₂
  exact except_bind_eq_ok.2 ⟨calcs₁, hc₁, except_bind_eq_ok.2 ⟨calcs₂, hc₂, ho₂.matchRest hd⟩⟩

end OpRequest

/-! ## The state searched -/

namespace Contract

variable {H : Hypersonic} {S : RgbSeal}

/-- An entry has the address and the value of a cell of the ledger under the same name. -/
theorem mem_owned {c : Contract H S} {m : StateName × List (OwnedState H S)} {e : OwnedState H S}
    (hm : m ∈ c.state.owned) (he : e ∈ m.2) :
    ∃ cells, (m.1, cells) ∈ H.owned c.ledger ∧ (e.addr, e.assignment.data) ∈ cells := by
  rw [c.state_eq] at hm
  obtain ⟨⟨name, cells⟩, hcells, rfl⟩ := List.mem_map.1 hm
  obtain ⟨cell, hcell, he⟩ := List.mem_flatMap.1 he
  have hcopy : (e.addr, e.assignment.data) = cell := by
    unfold entriesWith at he
    split at he
    · cases he
    · split at he
      · rw [List.mem_singleton.1 he]
      · obtain ⟨_, _, rfl⟩ := List.mem_map.1 he
        rfl
  exact ⟨cells, hcells, hcopy ▸ hcell⟩

/-- An address is found under its name, with its value. -/
theorem find_eq {c : Contract H S} (hone : OneCell (H.owned c.ledger)) {m : StateName × List (OwnedState H S)}
    {e : OwnedState H S} (hm : m ∈ c.state.owned) (he : e ∈ m.2) :
    ∃ e', c.state.find e.addr = some (m.1, e') ∧ e'.assignment.data = e.assignment.data := by
  obtain ⟨cells, hcells, hcell⟩ := mem_owned hm he
  cases hf : c.state.find e.addr with
  | none => exact absurd rfl (ContractState.find_eq_none.1 hf m hm e he)
  | some found =>
    obtain ⟨m', hm', hfound⟩ := List.exists_of_findSome?_eq_some hf
    obtain ⟨e', he', rfl⟩ := Option.map_eq_some_iff.1 hfound
    have haddr : e'.addr = e.addr := by simpa using List.find?_some he'
    obtain ⟨cells', hcells', hcell'⟩ := mem_owned hm' (List.mem_of_find?_eq_some he')
    obtain ⟨hname, hdata⟩ := hone _ hcells' _ hcells _ hcell' _ hcell haddr
    exact ⟨e', by rw [← hname], hdata⟩

end Contract

/-! ## The cells used -/

section
variable {H : Hypersonic} {B : BpCore} {C : PayCore B}

theorem RgbInvoice.terms_calculate {defaultCall : H.Articles → Option CallState} {invoice : RgbInvoice H C}
    {articles : H.Articles} {t : Terms H} (h : invoice.terms defaultCall articles = .ok t) :
    H.calculate articles t.name = some t.calc_ := by
  unfold terms at h
  split at h
  · cases h
  · split at h
    · cases h
    · split at h
      · cases h
      · rename_i calc_ hcalc
        split at h
        · cases h
        · cases h
          exact hcalc

/-- The cells a selection uses are of the state, and the calculator has taken their values, in their order. -/
theorem Terms.select_ok (hK : H.CalcLaws) {t : Terms H} {coinselect : Coinselect H} (hH : coinselect.Honest)
    {state : OwnContractState H} {s : Selection H} (h : t.select coinselect state = .ok s) :
    get state.owned t.name = some s.state ∧ ∃ cells : List (OwnState H), (∀ e ∈ cells, e ∈ s.state) ∧
      s.using_ = (cells.map fun e => (e.addr, e.assignment.seal_)) ∧
      (cells.map (·.assignment.data)).foldlM H.accumulate t.calc_ = .ok s.extension.2 := by
  unfold select at h
  split at h
  · cases h
  · rename_i own hown
    split at h
    · cases h
    · rename_i selected calc_ hsel
      obtain ⟨cells, hcells, hselected, vals, hperm, hvals⟩ := hH _ _ _ _ _ hsel
      obtain rfl := Except.ok.inj h
      refine ⟨hown, cells ++ (Selection.extension ⟨own, selected, calc_⟩).1, fun e he => ?_, ?_, ?_⟩
      · rcases List.mem_append.1 he with he | he
        · exact hcells e he
        · exact (Selection.mem_others.1 ((sweep_sublist _ _).subset he)).1
      · rw [Selection.using_, List.map_append, hselected]
      · rw [List.map_append, List.foldlM_append]
        refine except_bind_eq_ok.2 ⟨calc_, foldlM_perm hK.accumulate hperm hvals, ?_⟩
        rw [List.foldlM_map]
        exact foldlM_sweep _ _

/-- A cell of the wallet is an entry of the state. -/
theorem mem_filterMap_own {hasUtxo : Outpoint → Bool} {state : ContractState H B.txoSeal} {name : StateName}
    {own : List (OwnState H)} (hown : get (state.filterMap (ownOutpoint hasUtxo)).owned name = some own)
    {e : OwnState H} (he : e ∈ own) : ∃ m ∈ state.owned, m.1 = name ∧ ∃ owned ∈ m.2, owned.addr = e.addr ∧
      owned.assignment.data = e.assignment.data := by
  obtain ⟨⟨_, map⟩, hmap, hm⟩ := List.mem_map.1 (get_mem hown)
  obtain ⟨rfl, rfl⟩ := Prod.mk.inj hm
  obtain ⟨owned, ho, hf⟩ := List.mem_filterMap.1 he
  obtain ⟨seal_, _, rfl⟩ := Option.map_eq_some_iff.1 hf
  exact ⟨_, hmap, rfl, owned, ho, rfl, rfl⟩

end

namespace RgbWallet

variable {H : Hypersonic} {B : BpCore} {C : PayCore B} {W : Wire H B.txoSeal} {V : Verifier H B.txoSeal}
  {P : Stockpile W V}

/-- **A fulfilled invoice is balanced.** The request passes the check, in the wallet it was made by and in every
other where the state of the contract is the same. -/
theorem fulfill_balanced (hK : H.CalcLaws) {w w' : RgbWallet P} {defaultCall : H.Articles → Option CallState}
    {hasUtxo : Outpoint → Bool} {invoice : RgbInvoice H C} {coinselect : Coinselect H} {giveaway : Option UInt64}
    {request : OpRequest H (Option (WoutAssignment C))} {c : Contract H B.txoSeal} (hH : coinselect.Honest)
    (hc : w.contracts.served invoice.scope = some c) (hone : OneCell (H.owned c.ledger))
    (h : w.fulfill defaultCall hasUtxo invoice coinselect giveaway = (.ok request, w')) :
    (w'.checkRequest request).1 = .ok () ∧ ∀ (w₂ : RgbWallet P) c₂, w₂.contracts.served request.contractId = some c₂ →
      H.articles c₂.ledger = H.articles c.ledger → c₂.state = c.state → (w₂.checkRequest request).1 = .ok () := by
  obtain ⟨hsame, c', t, s, hc', ht, hsel, hpay⟩ := fulfill_ok h
  obtain rfl : c = c' := Option.some.inj (hc.symm.trans hc')
  obtain ⟨hid, husing, calc_, diff, hless, hdiff, howned⟩ := Terms.pay_ok hpay
  obtain ⟨hown, cells, hcells, hs, hacc⟩ := Terms.select_ok hK hH hsel
  obtain ⟨calc', hall, hnil⟩ := hK.diff _ _ hdiff
  have hused : List.Forall₂ (fun (inp : UsedState H.Satisfaction) v =>
      ∃ e, c.state.find inp.addr = some (t.name, e) ∧ e.assignment.data = v)
      request.using_ (cells.map (·.assignment.data)) := by
    rw [husing, hs, List.map_map, List.forall₂_map_left_iff, List.forall₂_map_right_iff, List.forall₂_same]
    intro e he
    obtain ⟨m, hm, hname, owned, ho, haddr, hdata⟩ := mem_filterMap_own hown (hcells e he)
    simp only [Function.comp, ← hname, ← haddr, ← hdata]
    exact Contract.find_eq hone hm ho
  have hcheck : request.check (H.articles c.ledger) c.state = .ok () :=
    OpRequest.check_only (RgbInvoice.terms_calculate ht) hused howned hacc
      (by rw [List.foldlM_cons]; exact except_bind_eq_ok.2 ⟨calc_, hless, hall⟩) hnil
  have hany : ∀ (w₂ : RgbWallet P) c₂, w₂.contracts.served request.contractId = some c₂ →
      H.articles c₂.ledger = H.articles c.ledger → c₂.state = c.state → (w₂.checkRequest request).1 = .ok () := by
    intro w₂ c₂ hc₂ harticles hstate
    obtain ⟨w₃, hw₃, _⟩ := checkRequest_served hc₂
    rw [hw₃, harticles, hstate, hcheck]
  exact ⟨hany w' c (by rw [hid, hsame.served, hc]) rfl rfl, hany⟩

end RgbWallet

namespace Purse

theorem firstCell_honest : firstCell.Honest := by
  intro value calc_ state selected calc' h
  cases state with
  | nil => cases h
  | cons e state =>
    cases h
    exact ⟨[e], by simp, rfl, _, List.Perm.refl _, rfl⟩

end Purse

/-- An invoice for 50, paid out of 60 and 40. -/
theorem balanced_both : ∃ request w',
    Purse.wallet.fulfill Purse.transfer (fun _ => true) (Purse.invoice 3) Purse.firstCell none = (.ok request, w') ∧
    (w'.checkRequest request).1 = .ok () := by
  obtain ⟨request, w', h⟩ : ∃ request w',
    Purse.wallet.fulfill Purse.transfer (fun _ => true) (Purse.invoice 3) Purse.firstCell none = (.ok request, w') :=
    ⟨_, _, rfl⟩
  obtain ⟨c, hc⟩ : ∃ c, Purse.wallet.contracts.served (Purse.id 3) = some c := ⟨_, rfl⟩
  have hone : OneCell (refSonic.owned c.ledger) := by
    cases hc
    unfold OneCell
    decide
  exact ⟨request, w', h, (RgbWallet.fulfill_balanced refSonic_calcLaws Purse.firstCell_honest hc hone h).1⟩

end RgbStd
