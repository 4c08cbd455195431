import RgbStd.Lib.Sweep
import RgbStd.Popls.Loss
import RgbStd.Popls.Payment
/-!
# Fulfilling an invoice (popls/bp.rs:426-538)

`fulfill` has the cells for a payment selected, adds those it finds on the same outputs, and pays the
value invoiced and the change out of them.

| here | there |
| --- | --- |
| `CallState`, `RgbInvoice`, `RgbBeneficiary` | the `CallState` of an API; invoice/src/lib.rs:57-71 |
| `Coinselect`   | bp.rs:74; the cells selected, and the calculator after them |
| `OwnState`, `OwnContractState`, `filterMap` | `OwnedState<Outpoint>`, `ContractState<Outpoint>`; contract.rs:191 |
| `terms`, `select`, `pay` | what `fulfill` reads from the invoice, bp.rs:461-472; 474-502; 503-537 |

* `fulfill_takesAll_iff`: a request uses all that the wallet has at the outputs it uses exactly if what the
  selector left there is of the state that is paid, and the calculator takes it.
-/
namespace RgbStd
open Tables Decode Sweep

/-- The method and the state an invoice without a call of its own is paid by. -/
structure CallState where
  method : MethodName
  owned : Option StateName

inductive RgbBeneficiary {B : BpCore} (C : PayCore B) where
  | token (auth : AuthToken)
  | witnessOut (wout : WitnessOut C)

structure RgbInvoice (H : Hypersonic) {B : BpCore} (C : PayCore B) where
  scope : ContractId
  call : Option CallState
  auth : RgbBeneficiary C
  data : Option H.StrictVal

structure OwnState (H : Hypersonic) where
  addr : CellAddr
  assignment : Assignment Outpoint H.StrictVal
  status : WitnessStatus

structure OwnContractState (H : Hypersonic) where
  immutable : List (StateName × List (ImmutableState H))
  owned : List (StateName × List (OwnState H))
  aggregated : List (StateName × H.StrictVal)

/-- A selector is given the value, the calculator and the cells. -/
abbrev Coinselect (H : Hypersonic) :=
  H.StrictVal → H.StateCalc → List (OwnState H) → Option (List (CellAddr × Outpoint) × H.StateCalc)

inductive FulfillError (H : Hypersonic) where
  | callStateUnknown
  | stateNameUnknown
  | stateUnavailable
  | stateInsufficient
  | stateCalc (e : H.StateCalcError)
  | woutRequiresGiveaway
  | valueMissed

section
variable {H : Hypersonic} {B : BpCore} {C : PayCore B}

/-! ## The state of the wallet -/

def OwnedState.filterMap (f : TxoSeal B.Noise → Option Outpoint) (owned : OwnedState H B.txoSeal) : Option (OwnState H) :=
  (f owned.assignment.seal_).map fun seal_ => ⟨owned.addr, ⟨seal_, owned.assignment.data⟩, owned.status⟩

/-- `ContractState::filter_map` (contract.rs:191). -/
def ContractState.filterMap (f : TxoSeal B.Noise → Option Outpoint) (state : ContractState H B.txoSeal) :
    OwnContractState H where
  immutable := state.immutable
  owned := state.owned.map fun (name, map) => (name, map.filterMap (OwnedState.filterMap f))
  aggregated := state.aggregated

/-- The outpoint of a seal, if the wallet has it. -/
def ownOutpoint (hasUtxo : Outpoint → Bool) (seal_ : TxoSeal B.Noise) : Option Outpoint :=
  if hasUtxo seal_.primary then some seal_.primary else none

/-! ## The request -/

/-- What is to be paid, and by which method. -/
structure Terms (H : Hypersonic) where
  method : MethodName
  name : StateName
  calc_ : H.StateCalc
  value : H.StrictVal

/-- What it is to be paid from: the cells of the state, those selected, and the calculator after them. -/
structure Selection (H : Hypersonic) where
  state : List (OwnState H)
  selected : List (CellAddr × Outpoint)
  calc_ : H.StateCalc

namespace Selection

/-- The other cells of the state at the outputs selected (bp.rs:488-490). -/
def others (s : Selection H) : List (OwnState H) :=
  s.state.filter fun e => e.assignment.seal_ ∈ s.selected.map (·.2) ∧ e.addr ∉ s.selected.map (·.1)

/-- Those of them the calculator takes, and the calculator after them (bp.rs:491-494). -/
def extension (s : Selection H) : List (OwnState H) × H.StateCalc :=
  sweep (fun calc_ e => H.accumulate calc_ e.assignment.data) s.others s.calc_

def using_ (s : Selection H) : List (CellAddr × Outpoint) :=
  s.selected ++ s.extension.1.map fun e => (e.addr, e.assignment.seal_)

end Selection

/-- The beneficiary's seal (bp.rs:504-513). -/
def RgbBeneficiary.seal_ (giveaway : Option UInt64) :
    RgbBeneficiary C → Except (FulfillError H) (EitherSeal (Option (WoutAssignment C)))
  | .token auth => .ok (.token auth)
  | .witnessOut wout => match giveaway with
    | none => .error .woutRequiresGiveaway
    | some sats => .ok (.alt (some ⟨wout, sats⟩))

namespace RgbInvoice

def terms (defaultCall : H.Articles → Option CallState) (invoice : RgbInvoice H C) (articles : H.Articles) :
    Except (FulfillError H) (Terms H) :=
  match invoice.call.or (defaultCall articles) with
  | none => .error .callStateUnknown
  | some call => match call.owned with
    | none => .error .stateNameUnknown
    | some name => match H.calculate articles name with
      | none => .error .stateNameUnknown
      | some calc_ => match invoice.data with
        | none => .error .valueMissed
        | some value => .ok ⟨call.method, name, calc_, value⟩

end RgbInvoice

namespace Terms

def select (t : Terms H) (coinselect : Coinselect H) (state : OwnContractState H) :
    Except (FulfillError H) (Selection H) :=
  match get state.owned t.name with
  | none => .error .stateUnavailable
  | some state => match coinselect t.value t.calc_ state with
    | none => .error .stateInsufficient
    | some (selected, calc_) => .ok ⟨state, selected, calc_⟩

/-- The value goes to the beneficiary, and what is left to the change. -/
def pay (t : Terms H) (invoice : RgbInvoice H C) (giveaway : Option UInt64) (s : Selection H) :
    Except (FulfillError H) (OpRequest H (Option (WoutAssignment C))) := do
  let seal_ ← invoice.auth.seal_ giveaway
  let calc_ ← (H.lessen s.extension.2 t.value).mapError .stateCalc
  let diff ← (H.diff calc_).mapError .stateCalc
  return { contractId := invoice.scope
           method := t.method
           reading := []
           global := []
           using_ := s.using_.map fun (addr, outpoint) => ⟨addr, outpoint, none⟩
           owned := ⟨t.name, ⟨seal_, t.value⟩⟩ :: diff.map fun data => ⟨t.name, ⟨.alt none, data⟩⟩ }

end Terms

end

namespace RgbWallet

variable {H : Hypersonic} {B : BpCore} {C : PayCore B} {W : Wire H B.txoSeal} {V : Verifier H B.txoSeal}
  {P : Stockpile W V}

/-- `RgbWallet::state_own` (bp.rs:426). -/
def stateOwn (w : RgbWallet P) (hasUtxo : Outpoint → Bool) (id : ContractId) : Option (OwnContractState H × RgbWallet P) :=
  (w.contracts.contractState id).map fun (state, contracts) =>
    (state.filterMap (ownOutpoint hasUtxo), { w with contracts })

/-- `RgbWallet::fulfill` (bp.rs:452). -/
def fulfill (w : RgbWallet P) (defaultCall : H.Articles → Option CallState) (hasUtxo : Outpoint → Bool)
    (invoice : RgbInvoice H C) (coinselect : Coinselect H) (giveaway : Option UInt64) :
    Res (FulfillError H) (OpRequest H (Option (WoutAssignment C))) × RgbWallet P :=
  match w.contracts.contractArticles invoice.scope with
  | none => (.error .panic, w)
  | some (articles, contracts) =>
    let w := { w with contracts }
    match invoice.terms defaultCall articles with
    | .error e => (.error (.err e), w)
    | .ok t => match w.stateOwn hasUtxo invoice.scope with
      | none => (.error .panic, w)
      | some (state, w) => match t.select coinselect state with
        | .error e => (.error (.err e), w)
        | .ok s => ((t.pay invoice giveaway s).mapError .err, w)

/-- What a fulfilled invoice was made from. -/
theorem fulfill_ok {w w' : RgbWallet P} {defaultCall : H.Articles → Option CallState} {hasUtxo : Outpoint → Bool}
    {invoice : RgbInvoice H C} {coinselect : Coinselect H} {giveaway : Option UInt64}
    {request : OpRequest H (Option (WoutAssignment C))}
    (h : w.fulfill defaultCall hasUtxo invoice coinselect giveaway = (.ok request, w')) :
    Same w w' ∧ ∃ c t s, w.contracts.served invoice.scope = some c ∧
      invoice.terms defaultCall (H.articles c.ledger) = .ok t ∧
      t.select coinselect (c.state.filterMap (ownOutpoint hasUtxo)) = .ok s ∧ t.pay invoice giveaway s = .ok request := by
  unfold fulfill at h
  split at h
  · cases h
  · rename_i articles contracts ha
    obtain ⟨c, hc, rfl, hp, hv⟩ := Contracts.withContract_eq ha
    split at h
    · cases h
    · rename_i t ht
      simp only at h
      split at h
      · cases h
      · rename_i own w₂ hown
        obtain ⟨⟨state, contracts₂⟩, hs, he⟩ := Option.map_eq_some_iff.1 hown
        obtain ⟨rfl, rfl⟩ := Prod.mk.inj he
        obtain ⟨c', hc', rfl, hp', hv'⟩ := Contracts.withContract_eq hs
        obtain rfl : c = c' := Option.some.inj (hc.symm.trans ((hv _).symm.trans hc'))
        split at h
        · cases h
        · rename_i s hsel
          obtain ⟨hpay, rfl⟩ := Prod.mk.inj h
          exact ⟨⟨rfl, hp'.trans hp, fun id => (hv' id).trans (hv id)⟩, c, t, s, hc, ht, hsel, mapError_eq_ok.1 hpay⟩

/-! ## All of the outputs used -/

/-- The cells of a contract that the wallet has, of all names. -/
def ownCells (w : RgbWallet P) (hasUtxo : Outpoint → Bool) (id : ContractId) : List (OwnState H) :=
  match w.contracts.served id with
  | none => []
  | some c => (c.state.filterMap (ownOutpoint hasUtxo)).owned.flatMap (·.2)

/-- The cells that the wallet has at the outputs used are used. -/
def TakesAll {T : Type} (w : RgbWallet P) (hasUtxo : Outpoint → Bool) (request : OpRequest H T) : Prop :=
  ∀ e ∈ w.ownCells hasUtxo request.contractId, e.assignment.seal_ ∈ request.using_.map (·.outpoint) →
    e.addr ∈ request.using_.map (·.addr)

/-- The selection an invoice is paid from. -/
def selection (w : RgbWallet P) (defaultCall : H.Articles → Option CallState) (hasUtxo : Outpoint → Bool)
    (invoice : RgbInvoice H C) (coinselect : Coinselect H) : Option (Selection H) := do
  let c ← w.contracts.served invoice.scope
  let t ← (invoice.terms defaultCall (H.articles c.ledger)).toOption
  (t.select coinselect (c.state.filterMap (ownOutpoint hasUtxo))).toOption

end RgbWallet

section
variable {H : Hypersonic} {B : BpCore} {C : PayCore B}

/-- Each of the cells at an output selected is selected, or is one of the same state that the calculator takes
after the selection and those before it. -/
def Selection.Covers (s : Selection H) (own : List (OwnState H)) : Prop :=
  ∀ e ∈ own, e.assignment.seal_ ∈ s.selected.map (·.2) → e.addr ∈ s.selected.map (·.1) ∨
    ∃ before e' after, s.others = before ++ e' :: after ∧ e'.addr = e.addr ∧ ∃ calc_,
      H.accumulate (sweep (fun calc_ e => H.accumulate calc_ e.assignment.data) before s.calc_).2
        e'.assignment.data = .ok calc_

namespace Selection

theorem mem_others {s : Selection H} {e : OwnState H} : e ∈ s.others ↔
    e ∈ s.state ∧ e.assignment.seal_ ∈ s.selected.map (·.2) ∧ e.addr ∉ s.selected.map (·.1) := by
  rw [others, List.mem_filter, decide_eq_true_eq]

theorem mem_addrs {s : Selection H} {addr : CellAddr} : addr ∈ s.using_.map (·.1) ↔
    addr ∈ s.selected.map (·.1) ∨ ∃ before e after, s.others = before ++ e :: after ∧ e.addr = addr ∧ ∃ calc_,
      H.accumulate (sweep (fun calc_ e => H.accumulate calc_ e.assignment.data) before s.calc_).2
        e.assignment.data = .ok calc_ := by
  simp only [using_, List.map_append, List.mem_append, List.map_map, List.mem_map (l := s.extension.1), Function.comp]
  refine or_congr Iff.rfl ⟨?_, ?_⟩
  · rintro ⟨e, he, rfl⟩
    obtain ⟨before, after, hs, hk⟩ := mem_sweep.1 he
    exact ⟨before, e, after, hs, rfl, hk⟩
  · rintro ⟨before, e, after, hs, rfl, hk⟩
    exact ⟨e, mem_sweep.2 ⟨before, after, hs, hk⟩, rfl⟩

/-- The extension is at no further outputs. -/
theorem mem_outpoints {s : Selection H} {o : Outpoint} : o ∈ s.using_.map (·.2) ↔ o ∈ s.selected.map (·.2) := by
  rw [using_, List.map_append, List.mem_append, or_iff_left_iff_imp, List.map_map, List.mem_map]
  rintro ⟨e, he, rfl⟩
  exact (mem_others.1 ((sweep_sublist _ _).subset he)).2.1

theorem covers_iff {s : Selection H} {own : List (OwnState H)} :
    s.Covers own ↔ ∀ e ∈ own, e.assignment.seal_ ∈ s.using_.map (·.2) → e.addr ∈ s.using_.map (·.1) := by
  simp only [Covers, mem_outpoints, mem_addrs]

end Selection

theorem Terms.pay_ok {t : Terms H} {invoice : RgbInvoice H C} {giveaway : Option UInt64} {s : Selection H}
    {request : OpRequest H (Option (WoutAssignment C))} (h : t.pay invoice giveaway s = .ok request) :
    request.contractId = invoice.scope ∧ request.using_ = (s.using_.map fun u => ⟨u.1, u.2, none⟩) ∧
      ∃ calc_ diff, H.lessen s.extension.2 t.value = .ok calc_ ∧ H.diff calc_ = .ok diff ∧
        request.owned.map (fun out => (out.name, out.state.data)) = (t.value :: diff).map (t.name, ·) := by
  obtain ⟨seal_, _, h⟩ := except_bind_eq_ok.1 h
  obtain ⟨calc_, hcalc, h⟩ := except_bind_eq_ok.1 h
  obtain ⟨diff, hdiff, h⟩ := except_bind_eq_ok.1 h
  cases h
  refine ⟨rfl, rfl, calc_, diff, mapError_eq_ok.1 hcalc, mapError_eq_ok.1 hdiff, ?_⟩
  simp only [List.map_cons, List.map_map]
  rfl

end

namespace RgbWallet

variable {H : Hypersonic} {B : BpCore} {C : PayCore B} {W : Wire H B.txoSeal} {V : Verifier H B.txoSeal}
  {P : Stockpile W V}

/-- **A request takes everything on its outputs** if and only if the selection covers the cells of the wallet. -/
theorem fulfill_takesAll_iff {w w' : RgbWallet P} {defaultCall : H.Articles → Option CallState}
    {hasUtxo : Outpoint → Bool} {invoice : RgbInvoice H C} {coinselect : Coinselect H} {giveaway : Option UInt64}
    {request : OpRequest H (Option (WoutAssignment C))}
    (h : w.fulfill defaultCall hasUtxo invoice coinselect giveaway = (.ok request, w')) :
    w.TakesAll hasUtxo request ↔ ∃ s, w.selection defaultCall hasUtxo invoice coinselect = some s ∧
      s.Covers (w.ownCells hasUtxo invoice.scope) := by
  obtain ⟨_, c, t, s, hc, ht, hs, hpay⟩ := fulfill_ok h
  obtain ⟨hid, husing, _⟩ := Terms.pay_ok hpay
  have hsel : w.selection defaultCall hasUtxo invoice coinselect = some s := by
    simp only [selection, hc, ht, hs, Option.bind_eq_bind, Option.bind_some, Except.toOption]
  have htakes : w.TakesAll hasUtxo request ↔ s.Covers (w.ownCells hasUtxo invoice.scope) := by
    rw [Selection.covers_iff, TakesAll, hid, husing, List.map_map, List.map_map]
    rfl
  rw [htakes, hsel]
  exact ⟨fun hcov => ⟨s, rfl, hcov⟩, fun ⟨_, he, hcov⟩ => Option.some.inj he ▸ hcov⟩

end RgbWallet

namespace Purse

/-- The selector takes the first cell, whatever the value. -/
def firstCell : Coinselect refSonic
  | _, _, [] => none
  | _, calc_, e :: _ => some ([(e.addr, e.assignment.seal_)], calc_ + e.assignment.data)

def transfer : RefArticles → Option CallState := fun _ => some ⟨"transfer", some "amount"⟩

/-- An invoice of contract `n` for 50. -/
def invoice (n : UInt8) : RgbInvoice refSonic refPay where
  scope := id n
  call := none
  auth := .token ⟨5⟩
  data := some (50 : Nat)

/-- Contract 5 has put 60 and a title on one output. -/
def deed : Contract refSonic refBp.txoSeal :=
  { contract 5 "Deed" [(60, first), (1, first)] with
    ledger := .new ⟨id 5, id 9, ⟨id 5, 0, [], [("amount", ⟨60⟩, 60), ("title", ⟨1⟩, 1)]⟩, "Deed", .bitcoin, true⟩ }

def deedWallet : RgbWallet dir where
  wallet := ⟨Vector.replicate 32 1⟩
  contracts := .load (.load .bitcoin true [] [(("Deed", id 5), some deed)] fun _ _ _ h => by
    obtain ⟨⟨_, rfl⟩, rfl⟩ : (_ ∧ _) ∧ _ := by simpa using get_mem h
    rfl)

def deedRequest : OpRequest refSonic (Option (WoutAssignment refPay)) :=
  (deedWallet.fulfill transfer (fun _ => true) (invoice 5) firstCell none).1.toOption.getD
    ⟨id 0, "", [], [], [], []⟩

end Purse

/-- The 60 are selected, and the 40 on the same output come with them. -/
theorem fulfill_both : ∃ request w',
    Purse.wallet.fulfill Purse.transfer (fun _ => true) (Purse.invoice 3) Purse.firstCell none = (.ok request, w') ∧
    Purse.wallet.TakesAll (fun _ => true) request := by
  obtain ⟨request, w', h⟩ : ∃ request w',
    Purse.wallet.fulfill Purse.transfer (fun _ => true) (Purse.invoice 3) Purse.firstCell none = (.ok request, w') :=
    ⟨_, _, rfl⟩
  refine ⟨request, w', h, (RgbWallet.fulfill_takesAll_iff h).2 ⟨_, rfl, Selection.covers_iff.2 ?_⟩⟩
  decide

/-- The title is on the output used, and stays behind. -/
theorem fulfill_title :
    ¬∀ (H : Hypersonic) (B : BpCore) (C : PayCore B) (W : Wire H B.txoSeal) (V : Verifier H B.txoSeal)
      (P : Stockpile W V) (w w' : RgbWallet P) (defaultCall : H.Articles → Option CallState) (hasUtxo : Outpoint → Bool)
      (invoice : RgbInvoice H C) (coinselect : Coinselect H) giveaway request,
      w.fulfill defaultCall hasUtxo invoice coinselect giveaway = (.ok request, w') → w.TakesAll hasUtxo request := by
  intro h
  have ht := h refSonic refBp refPay _ _ Purse.dir Purse.deedWallet _ Purse.transfer (fun _ => true) (Purse.invoice 5)
    Purse.firstCell none Purse.deedRequest rfl
  revert ht
  unfold RgbWallet.TakesAll
  decide

end RgbStd
