import RgbStd.Popls.Issue
import RgbStd.Popls.Outputs
/-!
# Payment requests

An output of a payment goes to the script of a beneficiary, or to the change of a transaction that is not
made yet. Its seal is settled in one step by `resolve_seal`, for the beneficiary to know, and in two by
`resolve_seals` and `prefab`.

| here | there |
| --- | --- |
| `WitnessOut`      | invoice/src/bp.rs:48-71 |
| `WoutAssignment`, `PaymentScript`, `OpRequestSet` | popls/bp.rs:99-103, 175, 190 |
| `resolveSeals`    | bp.rs:203, with `UnresolvedSeal` |
| `resolveSeal`     | bp.rs:282 |
| `PayCore`         | addresses, SHA-256 and noise from bytes, of the crates these are built on |
-/
namespace RgbStd
open Tables Decode

/-- `AddressPayload`, `Sha256` and `Noise::from`. -/
structure PayCore (B : BpCore) where
  AddressPayload : Type
  [decAddress : DecidableEq AddressPayload]
  scriptPubkey : AddressPayload → Bytes
  sha256 : Bytes → Vector UInt8 32
  noiseFrom : Vector UInt8 40 → B.Noise

attribute [instance] PayCore.decAddress

/-- A reference core. Its hash keeps the first 32 bytes. -/
@[reducible] def refPay : PayCore refBp where
  AddressPayload := Nat
  scriptPubkey n := [UInt8.ofNat n]
  sha256 bytes := Vector.ofFn fun i => bytes.getD i 0
  noiseFrom bytes := ⟨.wout 0, bytes.toList, 0⟩

structure WitnessOut {B : BpCore} (C : PayCore B) where
  salt : UInt64
  address : C.AddressPayload
deriving DecidableEq

namespace WitnessOut

variable {B : BpCore} {C : PayCore B}

def scriptPubkey (wout : WitnessOut C) : Bytes := C.scriptPubkey wout.address

/-- `WitnessOut::noise`: a hash, and 0xFF up to 40 bytes. -/
def noise (wout : WitnessOut C) : B.Noise :=
  C.noiseFrom (C.sha256 (Decoder.encodeU64 wout.salt ++ wout.scriptPubkey) ++ (Vector.replicate 8 0xFF : Vector UInt8 8))

end WitnessOut

structure WoutAssignment {B : BpCore} (C : PayCore B) where
  wout : WitnessOut C
  sats : UInt64

def WoutAssignment.scriptPubkey {B : BpCore} {C : PayCore B} (a : WoutAssignment C) : Bytes := a.wout.scriptPubkey

/-- From 1 to 255 requests. -/
structure OpRequestSet (H : Hypersonic) (T : Type) where
  items : List (OpRequest H T)
  nonempty : items ≠ []
  small : items.length ≤ 255

abbrev PaymentScript (H : Hypersonic) {B : BpCore} (C : PayCore B) := OpRequestSet H (Option (WoutAssignment C))

inductive UnresolvedSeal where
  | spk (spk : Bytes)
  | change

section
variable {H : Hypersonic} {B : BpCore} {C : PayCore B}

abbrev PayOutput (H : Hypersonic) {B : BpCore} (C : PayCore B) :=
  NamedState (Assignment (EitherSeal (Option (WoutAssignment C))) H.StrictVal)

/-! ## `resolve_seals` -/

/-- An output of the transaction, by its script or as the change (bp.rs:212-227). -/
def EitherSeal.resolve (resolver : Bytes → Option UInt32) (change : Option UInt32) :
    EitherSeal (Option (WoutAssignment C)) → Except UnresolvedSeal (EitherSeal (PrefabSeal B.Noise))
  | .alt (some seal_) => match resolver seal_.scriptPubkey with
    | none => .error (.spk seal_.scriptPubkey)
    | some vout => .ok (.alt ⟨vout, some seal_.wout.noise⟩)
  | .alt none => match change with
    | none => .error .change
    | some change => .ok (.alt ⟨change, none⟩)
  | .token auth => .ok (.token auth)

def OpRequest.resolveOutputs (request : OpRequest H (Option (WoutAssignment C))) (resolver : Bytes → Option UInt32)
    (change : Option UInt32) : Except UnresolvedSeal (OpRequest H (PrefabSeal B.Noise)) := do
  let owned ← request.owned.mapM fun assignment => do
    let seal_ ← assignment.state.seal_.resolve resolver change
    return ⟨assignment.name, ⟨seal_, assignment.state.data⟩⟩
  return { contractId := request.contractId, method := request.method, reading := request.reading, using_ := request.using_,
           global := request.global, owned }

/-- `OpRequestSet::resolve_seals` (bp.rs:203). There are as many requests after as before, so the checked
collection never panics. -/
def OpRequestSet.resolveSeals (set : PaymentScript H C) (resolver : Bytes → Option UInt32) (change : Option UInt32) :
    Except UnresolvedSeal (OpRequestSet H (PrefabSeal B.Noise)) :=
  match h : set.items.mapM (·.resolveOutputs resolver change) with
  | .error e => .error e
  | .ok items =>
    have hlen := (mapM_eq_ok.1 h).length_eq
    .ok ⟨items, fun hnil => set.nonempty (List.eq_nil_of_length_eq_zero (by rw [hlen, hnil]; rfl)), hlen ▸ set.small⟩

/-! ## `resolve_seal` -/

/-- The search through the outputs (bp.rs:287-297). -/
def resolveIn (wout : WitnessOut C) (resolver : Bytes → Option UInt32) : List (PayOutput H C) → Option (WTxoSeal B.Noise)
  | [] => none
  | out :: owned => match out.state.seal_ with
    | .alt (some assignment) =>
      if assignment.wout = wout then
        (resolver assignment.scriptPubkey).map fun vout => ⟨.wout vout, .noise wout.noise⟩
      else resolveIn wout resolver owned
    | _ => resolveIn wout resolver owned

/-- `OpRequest::resolve_seal` (bp.rs:282). -/
def OpRequest.resolveSeal (request : OpRequest H (Option (WoutAssignment C))) (wout : WitnessOut C)
    (resolver : Bytes → Option UInt32) : Option (WTxoSeal B.Noise) :=
  resolveIn wout resolver request.owned

/-- The output is assigned to the beneficiary. -/
def AssignedTo (wout : WitnessOut C) (out : PayOutput H C) : Prop :=
  ∃ assignment, out.state.seal_ = .alt (some assignment) ∧ assignment.wout = wout

/-- Output `n` is the first one assigned to the beneficiary. -/
def FirstTo (wout : WitnessOut C) (owned : List (PayOutput H C)) (n : Nat) : Prop :=
  (∃ out, owned[n]? = some out ∧ AssignedTo wout out) ∧ ∀ m < n, ∀ out, owned[m]? = some out → ¬AssignedTo wout out

theorem FirstTo.succ {wout : WitnessOut C} {out : PayOutput H C} {owned : List (PayOutput H C)} {n : Nat}
    (hout : ¬AssignedTo wout out) (h : FirstTo wout owned n) : FirstTo wout (out :: owned) (n + 1) := by
  refine ⟨h.1, fun m hm out' hout' => ?_⟩
  cases m with
  | zero =>
    cases hout'
    exact hout
  | succ m => exact h.2 m (by omega) out' hout'

/-- A seal is resolved at the first output assigned to the beneficiary. -/
theorem resolveIn_first {wout : WitnessOut C} {resolver : Bytes → Option UInt32} {owned : List (PayOutput H C)}
    {s : WTxoSeal B.Noise} (h : resolveIn wout resolver owned = some s) :
    ∃ n vout, FirstTo wout owned n ∧ resolver wout.scriptPubkey = some vout ∧ s = ⟨.wout vout, .noise wout.noise⟩ := by
  induction owned with
  | nil => cases h
  | cons out owned ih =>
    have hnext : ¬AssignedTo wout out → resolveIn wout resolver owned = some s → ∃ n vout,
        FirstTo wout (out :: owned) n ∧ resolver wout.scriptPubkey = some vout ∧ s = ⟨.wout vout, .noise wout.noise⟩ := by
      intro hout h
      obtain ⟨n, vout, hn, hv, hs⟩ := ih h
      exact ⟨n + 1, vout, hn.succ hout, hv, hs⟩
    rw [resolveIn] at h
    split at h
    · rename_i assignment hseal
      split at h
      · rename_i hw
        obtain ⟨vout, hv, rfl⟩ := Option.map_eq_some_iff.1 h
        refine ⟨0, vout, ⟨⟨out, rfl, assignment, hseal, hw⟩, fun m hm => absurd hm (Nat.not_lt_zero m)⟩, ?_, rfl⟩
        rw [← hw]
        exact hv
      · rename_i hw
        refine hnext ?_ h
        rintro ⟨a, ha, rfl⟩
        rw [hseal] at ha
        cases ha
        exact hw rfl
    · rename_i hne
      refine hnext ?_ h
      rintro ⟨a, ha, _⟩
      exact hne a ha

theorem FirstTo.unique {wout : WitnessOut C} {owned : List (PayOutput H C)} {m n : Nat} (hm : FirstTo wout owned m)
    (hn : FirstTo wout owned n) : m = n := by
  obtain ⟨out, hout, ha⟩ := hm.1
  obtain ⟨out', hout', ha'⟩ := hn.1
  refine Nat.le_antisymm (Nat.le_of_not_lt fun h => ?_) (Nat.le_of_not_lt fun h => ?_)
  · exact hm.2 n h out' hout' ha'
  · exact hn.2 m h out hout ha

/-! ## What stays as it is -/

/-- An output and what it is resolved to. -/
structure Resolves (resolver : Bytes → Option UInt32) (change : Option UInt32) (out : PayOutput H C)
    (out' : NamedState (Assignment (EitherSeal (PrefabSeal B.Noise)) H.StrictVal)) : Prop where
  name : out'.name = out.name
  data : out'.state.data = out.state.data
  seal_ : out.state.seal_.resolve resolver change = .ok out'.state.seal_

/-- A request and what it is resolved to: nothing but the seals changes. -/
structure OpRequest.Resolved (resolver : Bytes → Option UInt32) (change : Option UInt32)
    (request : OpRequest H (Option (WoutAssignment C))) (request' : OpRequest H (PrefabSeal B.Noise)) : Prop where
  contractId : request'.contractId = request.contractId
  method : request'.method = request.method
  reading : request'.reading = request.reading
  using_ : request'.using_ = request.using_
  global : request'.global = request.global
  owned : List.Forall₂ (Resolves resolver change) request.owned request'.owned

theorem OpRequest.resolveOutputs_ok {request : OpRequest H (Option (WoutAssignment C))}
    {request' : OpRequest H (PrefabSeal B.Noise)} {resolver : Bytes → Option UInt32} {change : Option UInt32}
    (h : request.resolveOutputs resolver change = .ok request') : request.Resolved resolver change request' := by
  obtain ⟨owned, ho, h⟩ := except_bind_eq_ok.1 h
  cases h
  refine ⟨rfl, rfl, rfl, rfl, rfl, (mapM_eq_ok.1 ho).imp fun out out' hout => ?_⟩
  obtain ⟨seal_, hs, hout⟩ := except_bind_eq_ok.1 hout
  cases hout
  exact ⟨rfl, rfl, hs⟩

theorem OpRequestSet.resolveSeals_ok {set : PaymentScript H C} {set' : OpRequestSet H (PrefabSeal B.Noise)}
    {resolver : Bytes → Option UInt32} {change : Option UInt32} (h : set.resolveSeals resolver change = .ok set') :
    List.Forall₂ (OpRequest.Resolved resolver change) set.items set'.items := by
  unfold resolveSeals at h
  split at h
  · cases h
  · rename_i items hitems
    cases h
    exact (mapM_eq_ok.1 hitems).imp fun _ _ => OpRequest.resolveOutputs_ok

end

namespace RgbWallet

variable {H : Hypersonic} {B : BpCore} {C : PayCore B} {W : Wire H B.txoSeal} {V : Verifier H B.txoSeal}
  {P : Stockpile W V}

/-- An output resolved by its script gets the seal of `resolve_seal`, whatever its number and the engine. -/
theorem explicitAt_resolved {resolver : Bytes → Option UInt32} {change : Option UInt32} {wout : WitnessOut C}
    {out : PayOutput H C} {out' : NamedState (Assignment (EitherSeal (PrefabSeal B.Noise)) H.StrictVal)} {vout : UInt32}
    (hr : Resolves resolver change out out') (ha : AssignedTo wout out) (hv : resolver wout.scriptPubkey = some vout)
    (engine : Bytes) (no : Nat) :
    OpRequest.explicitAt engine out' no = some ⟨.wout vout, .noise wout.noise⟩ := by
  obtain ⟨assignment, hseal, rfl⟩ := ha
  have hs := hr.seal_
  rw [hseal, EitherSeal.resolve, WoutAssignment.scriptPubkey, hv] at hs
  rw [OpRequest.explicitAt, ← Except.ok.inj hs]
  rfl

/-- **Both ways lead to the same seal.** Resolving a set of requests changes their seals only, in place; and
for the beneficiary a seal is resolved for, the first output assigned to it has the token of that seal in the
operation, and that seal in the pile. -/
theorem resolve_agree (hL : H.CallLaws) (hR : H.RecordLaws) {set : PaymentScript H C}
    {set' : OpRequestSet H (PrefabSeal B.Noise)} {resolver : Bytes → Option UInt32} {change : Option UInt32}
    (hset : set.resolveSeals resolver change = .ok set') :
    List.Forall₂ (OpRequest.Resolved resolver change) set.items set'.items ∧
    ∀ (i : Nat) r r', set.items[i]? = some r → set'.items[i]? = some r' →
      ∀ (wout : WitnessOut C) (s : WTxoSeal B.Noise), r.resolveSeal wout resolver = some s →
      ∀ (w w' : RgbWallet P) (p : Prefab H), w.prefab r' = (.ok p, w') →
      (∃ n, FirstTo wout r.owned n) ∧ ∀ n, FirstTo wout r.owned n →
        (H.destructibleOut p.operation)[n]? = some (B.authToken s) ∧ n ≤ 65535 ∧
        ∃ c', w'.contracts.served r.contractId = some c' ∧
          c'.pile.seal ⟨H.opid p.operation, UInt16.ofNat n⟩ = some s := by
  have hall := OpRequestSet.resolveSeals_ok hset
  refine ⟨hall, fun i r r' hr hr' wout s hs w w' p hp => ?_⟩
  have hres : r.Resolved resolver change r' := by
    obtain ⟨hi, rfl⟩ := List.getElem?_eq_some_iff.1 hr
    obtain ⟨hi', rfl⟩ := List.getElem?_eq_some_iff.1 hr'
    exact hall.get hi hi'
  obtain ⟨n, vout, hn, hv, rfl⟩ := resolveIn_first hs
  refine ⟨⟨n, hn⟩, fun n' hn' => ?_⟩
  obtain rfl := hn.unique hn'
  obtain ⟨⟨out, hout, ha⟩, _⟩ := hn
  -- the same output of the resolved request
  obtain ⟨hlt, rfl⟩ := List.getElem?_eq_some_iff.1 hout
  have hlt' : n < r'.owned.length := hres.owned.length_eq ▸ hlt
  have hexp := explicitAt_resolved (hres.owned.get hlt hlt') ha hv (w.contractEngine r'.contractId) n
  obtain ⟨_, c, c', _, hafter, hrec⟩ := prefab_recorded hL hR hp
  have hsmall := hrec.small
  refine ⟨?_, by omega, c', by rw [hafter, if_pos hres.contractId.symm], ?_⟩
  · rw [hrec.outs, List.getElem?_eq_getElem hlt', Option.map_some]
    exact congrArg some (OpRequest.authAt_explicit hexp)
  · have hno : (UInt16.ofNat n).toNat = n := UInt16.toNat_ofNat_of_lt' (show n < 65536 by omega)
    refine (hrec.seals _ _).2 (Or.inr ⟨rfl, ?_⟩)
    show r'.owned[(UInt16.ofNat n).toNat]?.bind (OpRequest.explicitAt _ · (UInt16.ofNat n).toNat) = _
    rw [hno, List.getElem?_eq_getElem hlt', Option.bind_some]
    exact hexp

end RgbWallet

namespace Purse

def beneficiary : WitnessOut refPay := ⟨7, 9⟩

/-- A payment of 100: to a token, to a beneficiary twice, and the change. -/
def payment : PaymentScript refSonic refPay where
  items := [{ spend 3 [(0, first), (1, first)] 100 1 with
    owned := [⟨"amount", ⟨.token ⟨5⟩, 10⟩⟩, ⟨"amount", ⟨.alt (some ⟨beneficiary, 500⟩), 40⟩⟩,
      ⟨"amount", ⟨.alt (some ⟨beneficiary, 500⟩), 20⟩⟩, ⟨"amount", ⟨.alt none, 30⟩⟩] }]
  nonempty := by simp
  small := by simp

def scripts (spk : Bytes) : Option UInt32 := if spk = [9] then some 1 else none

end Purse

/-- The second output has the seal the beneficiary was told. -/
theorem resolve_agree_paid : ∃ s, ∃ p : Prefab refSonic, ∃ w' : RgbWallet Purse.dir,
    Purse.payment.items[0].resolveSeal Purse.beneficiary Purse.scripts = some s ∧
    (p.operation.outs.map (·.2.1))[1]? = some (refBp.authToken s) ∧ ∃ c',
      w'.contracts.served (Purse.id 3) = some c' ∧ c'.pile.seal ⟨p.operation.opid, 1⟩ = some s := by
  obtain ⟨set', hset, r', hr', p, w', hp⟩ : ∃ set', Purse.payment.resolveSeals Purse.scripts (some 2) = .ok set' ∧
      ∃ r', set'.items[0]? = some r' ∧ ∃ p w', Purse.wallet.prefab r' = (.ok p, w') := ⟨_, rfl, _, rfl, _, _, rfl⟩
  obtain ⟨s, hs⟩ : ∃ s, Purse.payment.items[0].resolveSeal Purse.beneficiary Purse.scripts = some s := ⟨_, rfl⟩
  have hfirst : FirstTo Purse.beneficiary Purse.payment.items[0].owned 1 := by
    refine ⟨⟨_, rfl, _, rfl, rfl⟩, fun m hm out hout => ?_⟩
    obtain rfl : m = 0 := by omega
    cases hout
    rintro ⟨_, hseal, _⟩
    cases hseal
  obtain ⟨hauth, _, hseal⟩ := ((RgbWallet.resolve_agree refSonic_callLaws refSonic_recordLaws hset).2 0 _ r' rfl hr'
    Purse.beneficiary s hs Purse.wallet w' p hp).2 1 hfirst
  exact ⟨s, p, w', hs, hauth, hseal⟩

end RgbStd
