import RgbStd.Popls.Payment
import RgbStd.Popls.Resolver
import RgbStd.Popls.Tokens
/-!
# The beneficiaries a wallet makes (popls/bp.rs:63-75, 405-424)

A wallet is paid to a token it hands out, whose seal it registers first, or to an address of its own.

| here | there |
| --- | --- |
| `WalletProvider` | the trait `WalletProvider` (bp.rs:64) |
| `authToken`, `wout` | bp.rs:405, 414 |
| `Knows`          | what a wallet does with the seals it is given |
| `moves`          | whatever else becomes of the wallet, where it forgets no seal |

* `invoiced_knows`: a call forgets no seal, and registers the one it hands out.
* `run_handed`: what is known, and what differs, of all the tokens handed out.
-/
namespace RgbStd
open Tables Decode

/-- `WalletProvider` (bp.rs:64). -/
structure WalletProvider {B : BpCore} (C : PayCore B) where
  State : Type
  noiseSeed : State → Vector UInt8 32
  hasUtxo : State → Outpoint → Bool
  utxos : State → List Outpoint
  registerSeal : State → WTxoSeal B.Noise → State
  resolveSeals : State → List AuthToken → List (WTxoSeal B.Noise)
  nextAddress : State → C.AddressPayload × State
  nextNonce : State → UInt64 × State

/-- What a token was made from. -/
structure Handed where
  outpoint : Outpoint
  engine : Bytes
  nonce : UInt64
deriving DecidableEq

namespace Handed

variable {H : Hypersonic} {B : BpCore} (I : IssueCore H B)

def seal_ (h : Handed) : WTxoSeal B.Noise := I.noFallback h.outpoint h.engine h.nonce

def token (h : Handed) : AuthToken := B.authToken (h.seal_ I)

end Handed

/-- `WTxoSeal::no_fallback`: the noise is derived from the output, the engine and the nonce. -/
structure IssueCore.SealLaws {H : Hypersonic} {B : BpCore} (I : IssueCore H B) : Prop where
  noFallback : ∀ o e n, I.noFallback o e n = ⟨.other o, .noise (B.noiseWith (.other o) e n)⟩

namespace WalletProvider

variable {H : Hypersonic} {B : BpCore} {C : PayCore B}

/-- A wallet resolves the tokens of the seals it was given to register, whatever else it is asked. -/
structure Knows (Q : WalletProvider C) (known : Q.State → AuthToken → Option (WTxoSeal B.Noise)) : Prop where
  answers : ∀ st, RgbWallet.Answers (Q.resolveSeals st) (known st)
  registered : ∀ st s, known (Q.registerSeal st s) (B.authToken s) = some s
  others : ∀ st s auth, auth ≠ B.authToken s → known (Q.registerSeal st s) auth = known st auth
  address : ∀ st, known (Q.nextAddress st).2 = known st
  nonce : ∀ st, known (Q.nextNonce st).2 = known st

variable (Q : WalletProvider C) (I : IssueCore H B)

/-- `RgbWallet::noise_engine` (bp.rs:445). -/
def noiseEngine (st : Q.State) : Bytes := (Q.noiseSeed st).toList

/-- `nonce.unwrap_or_else(..)` -/
def orNext (st : Q.State) : Option UInt64 → UInt64 × Q.State
  | some nonce => (nonce, st)
  | none => Q.nextNonce st

/-- `RgbWallet::auth_token` (bp.rs:405). -/
def authToken (st : Q.State) (nonce : Option UInt64) : Option AuthToken × Q.State :=
  match (Q.utxos st).head? with
  | none => (none, st)
  | some outpoint =>
    let (nonce, st) := Q.orNext st nonce
    let seal_ := I.noFallback outpoint (Q.noiseEngine st) nonce
    (some (B.authToken seal_), Q.registerSeal st seal_)

/-- `RgbWallet::wout` (bp.rs:414). -/
def wout (st : Q.State) (nonce : Option UInt64) : WitnessOut C × Q.State :=
  let (address, st) := Q.nextAddress st
  let (nonce, st) := Q.orNext st nonce
  (⟨nonce, address⟩, st)

/-- What `authToken` makes its token from. -/
def taken (st : Q.State) (nonce : Option UInt64) : Option Handed :=
  (Q.utxos st).head?.map fun outpoint => ⟨outpoint, Q.noiseEngine (Q.orNext st nonce).2, (Q.orNext st nonce).1⟩

inductive InvoiceCall where
  | authToken (nonce : Option UInt64)
  | wout (nonce : Option UInt64)
  | moves (st : Q.State)

/-- A wallet with what it has handed out. -/
def invoiced : Q.State × List Handed → Q.InvoiceCall → Option (Q.State × List Handed)
  | (st, handed), .authToken nonce => some ((Q.authToken I st nonce).2, (Q.taken st nonce).toList ++ handed)
  | (st, handed), .wout nonce => some ((Q.wout st nonce).2, handed)
  | (_, handed), .moves st => some (st, handed)

/-- Nothing that was known is forgotten. -/
def Remembers (known : Q.State → AuthToken → Option (WTxoSeal B.Noise)) (st st' : Q.State) : Prop :=
  ∀ auth s, known st auth = some s → known st' auth = some s

/-- The wallet changes by itself only so that it remembers. -/
def Loyal (known : Q.State → AuthToken → Option (WTxoSeal B.Noise)) (x : Q.State × List Handed) :
    Q.InvoiceCall → Prop
  | .moves st => Q.Remembers known x.1 st
  | _ => True

variable {Q I} {known : Q.State → AuthToken → Option (WTxoSeal B.Noise)}

theorem Knows.orNext (hQ : Q.Knows known) (st : Q.State) (nonce : Option UInt64) :
    known (Q.orNext st nonce).2 = known st := by
  cases nonce with
  | some n => rfl
  | none => exact hQ.nonce st

theorem Knows.wout (hQ : Q.Knows known) (st : Q.State) (nonce : Option UInt64) : known (Q.wout st nonce).2 = known st :=
  (hQ.orNext (Q.nextAddress st).2 nonce).trans (hQ.address st)

/-- Registering a seal forgets none, as its token is that of no other. -/
theorem Knows.remembers (hQ : Q.Knows known) (hN : B.NoCollisions) (st : Q.State) (s : WTxoSeal B.Noise) :
    Q.Remembers known st (Q.registerSeal st s) := by
  intro auth s' h
  by_cases ha : auth = B.authToken s
  · obtain rfl : s' = s := hN.auth _ _ (((hQ.answers st).token _ _ h).trans ha)
    rw [ha]
    exact hQ.registered st s'
  · rw [hQ.others st s auth ha, h]

/-- The token that is handed out is that of the seal registered. -/
theorem authToken_eq (st : Q.State) (nonce : Option UInt64) : Q.authToken I st nonce = match Q.taken st nonce with
    | none => (none, st)
    | some h => (some (h.token I), Q.registerSeal (Q.orNext st nonce).2 (h.seal_ I)) := by
  unfold authToken taken
  cases (Q.utxos st).head? with
  | none => rfl
  | some outpoint => rfl

/-- **What a call keeps**: everything known, and the seals of all tokens handed out. -/
theorem invoiced_knows (hQ : Q.Knows known) (hN : B.NoCollisions) {x x' : Q.State × List Handed} {call : Q.InvoiceCall}
    (hc : Q.Loyal known x call) (h : Q.invoiced I x call = some x') :
    Q.Remembers known x.1 x'.1 ∧ ∀ t ∈ x'.2, t ∈ x.2 ∨ known x'.1 (t.token I) = some (t.seal_ I) := by
  obtain ⟨st, handed⟩ := x
  cases call with
  | authToken nonce =>
    cases h
    rw [authToken_eq]
    cases ht : Q.taken st nonce with
    | none => exact ⟨fun _ _ h => h, fun t h => Or.inl h⟩
    | some t =>
      have hrem := hQ.remembers hN (Q.orNext st nonce).2 (t.seal_ I)
      constructor
      · intro auth s hs
        exact hrem auth s ((congrFun (hQ.orNext st nonce) auth).trans hs)
      · intro t' ht'
        rcases List.mem_cons.1 ht' with rfl | ht'
        · exact Or.inr (hQ.registered _ _)
        · exact Or.inl ht'
  | wout nonce =>
    cases h
    exact ⟨fun auth s hs => (congrFun (hQ.wout st nonce) auth).trans hs, fun t ht => Or.inl ht⟩
  | moves st' =>
    cases h
    exact ⟨hc, fun t ht => Or.inl ht⟩

/-- Tokens are made from what is in them. -/
theorem token_inj (hI : I.SealLaws) (hN : B.NoCollisions) {t t' : Handed} (h : t.token I = t'.token I) : t = t' := by
  have hs := hN.auth _ _ h
  simp only [Handed.seal_, hI.noFallback] at hs
  obtain ⟨-, hn⟩ := WTxoSeal.mk.inj hs
  obtain ⟨ho, he, hk⟩ := hN.noise _ _ _ _ _ _ (TxoSealExt.noise.inj hn)
  obtain ⟨o, e, n⟩ := t
  obtain ⟨o', e', n'⟩ := t'
  cases WOutpoint.other.inj ho
  cases he
  cases hk
  rfl

/-- **The tokens a wallet hands out**, in every run of calls and whatever becomes of the wallet between them: it
resolves each to the seal it was made for, two are the same exactly if they were made from the same, and none is that
of an output the wallet assigns to itself. -/
theorem run_handed (hQ : Q.Knows known) (hI : I.SealLaws) (hN : B.NoCollisions) (st : Q.State)
    (calls : List Q.InvoiceCall) (states : List (Q.State × List Handed))
    (hloyal : Runs.Along (Q.invoiced I) (Q.Loyal known) (st, []) calls)
    (h : Runs.run (Q.invoiced I) (st, []) calls = some states) :
    ∀ x ∈ states, (∀ t ∈ x.2, known x.1 (t.token I) = some (t.seal_ I)) ∧
      (∀ t ∈ x.2, ∀ t' ∈ x.2, t.token I = t'.token I ↔ t = t') ∧
      ∀ {W : Wire H B.txoSeal} {V : Verifier H B.txoSeal} {P : Stockpile W V} (w : RgbWallet P) (slot : Slot),
        ∀ t ∈ x.2, t.token I ≠ w.tokenOf slot := by
  have hstep : ∀ (x : Q.State × List Handed) call x', (∀ t ∈ x.2, known x.1 (t.token I) = some (t.seal_ I)) →
      Q.Loyal known x call → Q.invoiced I x call = some x' → ∀ t ∈ x'.2, known x'.1 (t.token I) = some (t.seal_ I) := by
    intro x call x' hk hc hs t ht
    obtain ⟨hrem, hnew⟩ := invoiced_knows hQ hN hc hs
    exact (hnew t ht).elim (fun ht => hrem _ _ (hk t ht)) id
  have hinv := Runs.run_inv hstep calls _ states (by simp) hloyal h
  intro x hx
  refine ⟨hinv x hx, fun t _ t' _ => ⟨token_inj hI hN, congrArg _⟩, ?_⟩
  intro W V P w slot t _ he
  have hs := hN.auth _ _ he
  simp only [Handed.seal_, hI.noFallback] at hs
  cases (WTxoSeal.mk.inj hs).1

end WalletProvider

/-! ## A wallet with one output -/

/-- A wallet that keeps what it is given, and counts its nonces. -/
@[reducible] def refProvider : WalletProvider refPay where
  State := List (WTxoSeal RefNoise) × Nat
  noiseSeed _ := Vector.replicate 32 1
  hasUtxo _ _ := true
  utxos _ := [Purse.first]
  registerSeal st s := (s :: st.1, st.2)
  resolveSeals st tokens := tokens.filterMap fun auth => st.1.find? (refBp.authToken · = auth)
  nextAddress st := (9, st)
  nextNonce st := (UInt64.ofNat st.2, (st.1, st.2 + 1))

def refKnown (st : refProvider.State) (auth : AuthToken) : Option (WTxoSeal RefNoise) :=
  st.1.find? (refBp.authToken · = auth)

theorem refProvider_knows : refProvider.Knows refKnown where
  answers st := { mem := fun _ _ => List.mem_filterMap, token := fun auth s h => by simpa using List.find?_some h }
  registered st s := by simp [refKnown]
  others st s auth h := by
    have hne : ¬refBp.authToken s = auth := fun he => h he.symm
    simp [refKnown, hne]
  address _ := rfl
  nonce _ := rfl

theorem refIssueCore_sealLaws : refIssueCore.SealLaws where
  noFallback _ _ _ := rfl

/-- Two tokens with nonces of the wallet, and an address between them. -/
theorem run_handed_two : ∃ states, Runs.run (refProvider.invoiced refIssueCore) (([], 0), [])
      [.authToken none, .wout (some 7), .authToken none] = some states ∧
    ∃ x ∈ states, x.2.length = 2 ∧ (∀ t ∈ x.2, ∀ t' ∈ x.2, t.token refIssueCore = t'.token refIssueCore → t = t') ∧
      ∀ t ∈ x.2, refKnown x.1 (t.token refIssueCore) = some (t.seal_ refIssueCore) := by
  obtain ⟨states, h, x, hx, hl⟩ : ∃ states, Runs.run (refProvider.invoiced refIssueCore) (([], 0), [])
      [.authToken none, .wout (some 7), .authToken none] = some states ∧ ∃ x, states[2]? = some x ∧ x.2.length = 2 :=
    ⟨_, rfl, _, rfl, rfl⟩
  have hx := List.mem_of_getElem? hx
  have hloyal : Runs.Along (refProvider.invoiced refIssueCore) (refProvider.Loyal refKnown) (([], 0), [])
      [.authToken none, .wout (some 7), .authToken none] :=
    ⟨trivial, fun s hs => ⟨trivial, fun s hs => ⟨trivial, fun s hs => trivial⟩⟩⟩
  obtain ⟨hk, htok, -⟩ := WalletProvider.run_handed refProvider_knows refIssueCore_sealLaws refBp_noCollisions ([], 0) _
    states hloyal h x hx
  exact ⟨states, h, x, hx, hl, fun t ht t' ht' => (htok t ht t' ht').1, hk⟩

end RgbStd
