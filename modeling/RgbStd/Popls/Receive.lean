import RgbStd.Contract.Confirm
import RgbStd.Contract.Transfer
import RgbStd.Popls.Fulfill
import RgbStd.Popls.Invoices
/-!
# A payment, from the invoice to the wallet that is paid (popls/bp.rs:452-538, 587-641, 796-833)

One wallet fulfils an invoice, makes the operation and exports the contract. The other consumes the export, and
finds the output that was made for it.

| here | there |
| --- | --- |
| `resolver`  | the closure `seal_resolver` of `RgbWallet::consume`, where the wallet answers as it is to |
| `consume`   | bp.rs:808 |
| `Promised`  | the seal an invoice stands for: of its token, or on the transaction |
| `Pays`      | `fulfill`, `resolve_seals`, `prefab`, and whatever becomes of the contract before its export |

* `Pays.told`: the operation and its seals tell of the promised one, whichever way the invoice is paid.
* `payment_received`: the output is in the state of the wallet that is paid.
-/
namespace RgbStd
open Tables Decode Relation

namespace RgbWallet

variable {H : Hypersonic} {B : BpCore} {W : Wire H B.txoSeal} {V : Verifier H B.txoSeal} {P : Stockpile W V}
  {resolveSeals : List AuthToken → List (WTxoSeal B.Noise)} {known : AuthToken → Option (WTxoSeal B.Noise)}

/-! ## The seals of the wallet -/

theorem Answers.isSome (hW : Answers resolveSeals known) (op : H.Operation) :
    (sealResolver resolveSeals op).isSome = true := by
  obtain ⟨entries, h, -⟩ := exists_sealResolver hW op
  rw [h]
  rfl

/-- The closure of `consume`, which never panics. -/
def Answers.resolver (hW : Answers resolveSeals known) : SealResolver H B.txoSeal := fun op =>
  (sealResolver resolveSeals op).get (hW.isSome op)

/-- `RgbWallet::consume` (bp.rs:808). -/
def consume (w : RgbWallet P) (hW : Answers resolveSeals known) (allowUnknown : Bool) (reader : Bytes)
    (sigValidator : W.Validator) :
    Option (Res (MultiError (ConsumeError H V.Error) H.StockError P.PileError) Unit × RgbWallet P) :=
  (w.contracts.consume allowUnknown reader hW.resolver sigValidator).map fun (r, contracts) => (r, { w with contracts })

end RgbWallet

/-! ## The seals of the party that pays -/

namespace Contract

variable {H : Hypersonic} {S : RgbSeal}

/-- A seal in a pile stays there. -/
theorem Effect.seal {c c' : Contract H S} (h : c.Effect c') {a : CellAddr} {s : S.Definition}
    (hs : c.pile.seal a = some s) : c'.pile.seal a = some s := by
  have hprefix : c.pile.keep <+: c'.pile.keep := by
    cases h with
    | eval h =>
      cases h with
      | apply | commitLedger | commitPile => exact List.prefix_refl _
      | seals hp => exact (PileFs.addSeals_grows hp).keep
      | witness hp => exact (PileFs.addWitness_grows hp).keep
    | call | rollback | forward | upgrade => exact List.prefix_refl _
    | status hp =>
      unfold PileFs.updateWitnessStatus at hp
      split at hp
      · cases hp
        exact List.prefix_refl _
      · cases hp
  obtain ⟨more, hk⟩ := hprefix
  have hs : get c.pile.keep a = some s := hs
  show get c'.pile.keep a = some s
  rw [← hk, get_append, hs]
  rfl

theorem Reaches.seal {c c' : Contract H S} (h : c.Reaches c') {a : CellAddr} {s : S.Definition}
    (hs : c.pile.seal a = some s) : c'.pile.seal a = some s := by
  induction h with
  | refl => exact hs
  | tail _ he ih => exact he.seal ih

end Contract

/-! ## Paying -/

section
variable {H : Hypersonic} {B : BpCore} {C : PayCore B} {W : Wire H B.txoSeal} {V : Verifier H B.txoSeal}

/-- The seal a beneficiary stands for: the one the wallet knows for its token, or the one on the output of the
transaction that has its script. -/
inductive Promised (known : AuthToken → Option (WTxoSeal B.Noise)) (resolver : Bytes → Option UInt32) :
    RgbBeneficiary C → WTxoSeal B.Noise → Prop where
  | token {auth : AuthToken} {s : WTxoSeal B.Noise} (h : known auth = some s) : Promised known resolver (.token auth) s
  | witnessOut {wout : WitnessOut C} {vout : UInt32} (h : resolver wout.scriptPubkey = some vout) :
      Promised known resolver (.witnessOut wout) ⟨.wout vout, .noise wout.noise⟩

/-- The invoice was fulfilled by a wallet, the request made into the operation by it or by a later one, and the
contract has become `sender` since. -/
structure Pays (P : Stockpile W V) (invoice : RgbInvoice H C) (resolver : Bytes → Option UInt32) (p : Prefab H)
    (sender : Contract H B.txoSeal) : Prop where
  paid : ∃ (w w₁ : RgbWallet P) (defaultCall : H.Articles → Option CallState) (hasUtxo : Outpoint → Bool)
    (coinselect : Coinselect H) (giveaway : Option UInt64) (request : OpRequest H (Option (WoutAssignment C)))
    (change : Option UInt32) (request' : OpRequest H (PrefabSeal B.Noise)) (w₂ w₃ : RgbWallet P) (c : Contract H B.txoSeal),
    w.fulfill defaultCall hasUtxo invoice coinselect giveaway = (.ok request, w₁) ∧
    request.resolveOutputs resolver change = .ok request' ∧ w₂.prefab request' = (.ok p, w₃) ∧
    w₃.contracts.served invoice.scope = some c ∧ c.Reaches sender

/-- The first output of a payment is the beneficiary's. -/
theorem Terms.pay_first {t : Terms H} {invoice : RgbInvoice H C} {giveaway : Option UInt64} {s : Selection H}
    {request : OpRequest H (Option (WoutAssignment C))} (h : t.pay invoice giveaway s = .ok request) :
    ∃ seal_ change, invoice.auth.seal_ (H := H) giveaway = .ok seal_ ∧
      request.owned = ⟨t.name, ⟨seal_, t.value⟩⟩ :: change := by
  obtain ⟨seal_, hs, h⟩ := except_bind_eq_ok.1 h
  obtain ⟨calc_, _, h⟩ := except_bind_eq_ok.1 h
  obtain ⟨diff, _, h⟩ := except_bind_eq_ok.1 h
  cases h
  exact ⟨seal_, _, hs, rfl⟩

/-- An operation has as many outputs as its request, so not too many to tell of. -/
theorem RgbWallet.Recorded.length_le {engine : Bytes} {request : OpRequest H (PrefabSeal B.Noise)} {op : H.Operation}
    {c c' : Contract H B.txoSeal} (h : RgbWallet.Recorded engine request op c c') :
    (H.destructibleOut op).length ≤ 65535 := by
  have hnone : request.owned[request.owned.length]? = none := List.getElem?_eq_none (Nat.le_refl _)
  have hout : (H.destructibleOut op)[request.owned.length]? = none := by rw [h.outs, hnone, Option.map_none]
  exact (List.getElem?_eq_none_iff.1 hout).trans h.small

/-- **What is told of a payment**: its first output has the token of the promised seal, which is in the pile of the
party that pays if it is on the transaction, else known to the wallet. -/
theorem Pays.first {P : Stockpile W V} (hL : H.CallLaws) (hR : H.RecordLaws) {invoice : RgbInvoice H C}
    {resolver : Bytes → Option UInt32} {p : Prefab H} {sender : Contract H B.txoSeal}
    (h : Pays P invoice resolver p sender) {known : AuthToken → Option (WTxoSeal B.Noise)}
    (hk : ∀ auth s, known auth = some s → B.authToken s = auth) {s : WTxoSeal B.Noise}
    (hs : Promised known resolver invoice.auth s) :
    (H.destructibleOut p.operation).length ≤ 65535 ∧ (H.destructibleOut p.operation)[0]? = some (B.authToken s) ∧
      (sender.pile.seal ⟨H.opid p.operation, 0⟩ = some s ∨
        (∃ auth, invoice.auth = .token auth) ∧ known (B.authToken s) = some s) := by
  obtain ⟨w, w₁, defaultCall, hasUtxo, coinselect, giveaway, request, change, request', w₂, w₃, c, hful, hres, hpre, hc,
    hsend⟩ := h.paid
  obtain ⟨-, _, t, sel, -, -, -, hpay⟩ := RgbWallet.fulfill_ok hful
  obtain ⟨seal_, rest, hseal, howned⟩ := Terms.pay_first hpay
  have hid := (Terms.pay_ok hpay).1
  have hr := OpRequest.resolveOutputs_ok hres
  obtain ⟨_, c₀, c', _, hafter, hrec⟩ := RgbWallet.prefab_recorded hL hR hpre
  have hc' : c' = c := by
    rw [hafter, if_pos (hid.symm.trans hr.contractId.symm)] at hc
    exact Option.some.inj hc
  subst hc'
  -- the same output of the resolved request
  have howned' := hr.owned
  rw [howned] at howned'
  obtain ⟨out', rest', hout, -, hcons⟩ := List.forall₂_cons_left_iff.1 howned'
  have hauth : (H.destructibleOut p.operation)[0]? =
      some (OpRequest.authAt (w₂.contractEngine request'.contractId) 0 out'.state.seal_) := by
    rw [hrec.outs, hcons]
    rfl
  refine ⟨hrec.length_le, ?_⟩
  generalize hb : invoice.auth = beneficiary at hs hseal
  cases hs with
  | @token auth _ hknown =>
    obtain rfl := hk _ _ hknown
    cases hseal
    have hs' : out'.state.seal_ = .token (B.authToken s) := (Except.ok.inj hout.seal_).symm
    rw [hs'] at hauth
    exact ⟨hauth, Or.inr ⟨⟨_, rfl⟩, hknown⟩⟩
  | @witnessOut wout vout hv =>
    cases hg : giveaway with
    | none => rw [hg] at hseal; cases hseal
    | some sats =>
      rw [hg] at hseal
      cases hseal
      have hexp := RgbWallet.explicitAt_resolved hout ⟨⟨wout, sats⟩, rfl, rfl⟩ hv
        (w₂.contractEngine request'.contractId) 0
      refine ⟨hauth.trans (congrArg some (OpRequest.authAt_explicit hexp)), Or.inl (hsend.seal ((hrec.seals _ _).2 ?_))⟩
      refine Or.inr ⟨rfl, ?_⟩
      rw [hcons]
      exact hexp

end

/-! ## All of an output is paid to a token

Numbers and lists have no bound in the encoding. -/

namespace Paid
open Decoder RefCodec

def primaryD : Decoder DecodeError WOutpoint := ((optionD unaryD).pair u32D).filterMap .other fun
  | (none, vout) => some (.wout vout)
  | (some txid, vout) => some (.other ⟨⟨txid⟩, vout⟩)

def primary (o : WOutpoint) : Bytes := encodePair (encodeOption encodeUnary) encodeU32 (match o with
  | .wout vout => (none, vout)
  | .other outpoint => (some outpoint.txid.tag, outpoint.vout))

def noiseD : Decoder DecodeError RefNoise := (primaryD.pair ((many .io u8D).pair (u64le .io))).filterMap .other
  fun (primary, engine, nonce) => some ⟨primary, engine, nonce⟩

def noise (n : RefNoise) : Bytes :=
  encodePair primary (encodePair (encodeMany fun b => [b]) encodeU64) (n.primary, n.engine, n.nonce)

def secondaryD : Decoder DecodeError (TxoSealExt RefNoise) := ((optionD noiseD).pair primaryD).filterMap .other fun
  | (some n, _) => some (.noise n)
  | (none, .other o) => some (.fallback o)
  | (none, .wout _) => none

def secondary (e : TxoSealExt RefNoise) : Bytes := encodePair (encodeOption noise) primary (match e with
  | .noise n => (some n, n.primary)
  | .fallback o => (none, .other o))

def sealD : Decoder DecodeError (WTxoSeal RefNoise) :=
  (primaryD.pair secondaryD).filterMap .other fun (primary, secondary) => some ⟨primary, secondary⟩

def seal_ (s : WTxoSeal RefNoise) : Bytes := encodePair primary secondary (s.primary, s.secondary)

def sealsD : Decoder DecodeError (SmallMap UInt16 (WTxoSeal RefNoise)) :=
  (many .io (u16D.pair sealD)).filterMap .other smallOf

def seals (m : SmallMap UInt16 (WTxoSeal RefNoise)) : Bytes := encodeMany (encodePair encodeU16 seal_) m.entries

def sealWitnessD : Decoder DecodeError (SealWitness refBp.txoSeal) :=
  (unaryD.pair ((many .io (unaryD.pair unaryD)).filterMap .other uniqueOf)).filterMap .other
    fun (published, client) => some ⟨published, client⟩

def sealWitness (w : SealWitness refBp.txoSeal) : Bytes :=
  encodePair encodeUnary (fun m => encodeMany (encodePair encodeUnary encodeUnary) m.entries) (w.published, w.client)

/-- The wire of contract 3. -/
@[reducible] def wire : Wire refSonic refBp.txoSeal :=
  { refWireOf refBp.txoSeal sealsD sealWitnessD with
    codex := contractIdD
    genesis := operationD
    operation := operationD
    operation_nonempty := operationD_nonempty
    articlesWith := fun _ issue _ _ =>
      .ok ⟨Purse.id 3, issue.codex, { issue.genesis with contract := Purse.id 3 }, "Coin", .bitcoin, true⟩ }

@[reducible] def encoder : Encoder wire where
  semantics _ := []
  sigBlob b := [b]
  contractMeta _ := []
  codex := encodeContractId
  genesis := operation
  operation := operation
  seals := seals
  sealWitness := sealWitness

theorem sealWitnessD_reads : sealWitnessD.Reads sealWitness :=
  (unaryD_reads.pair ((unaryD_reads.pair unaryD_reads).many.filterMap uniqueOf_entries)).filterMap
    (fun w => (rfl : some (⟨w.published, w.client⟩ : SealWitness refBp.txoSeal) = some w))

@[reducible] def dir : Stockpile wire refVerifier := stockpileDir _ _ (fun _ => ()) refSonic_new_ledgerId

/-- A genesis has put 60 and 40 on one output. -/
def contract : Contract refSonic refBp.txoSeal :=
  let genesis : RefOperation := ⟨Purse.id 3, 0, [], [("$", ⟨60⟩, 60), ("$", ⟨40⟩, 40)]⟩
  { contractId := Purse.id 3
    ledger := .new ⟨Purse.id 3, Purse.id 9, genesis, "Coin", .bitcoin, true⟩
    pile := ((PileFs.new : PileFs refBp.txoSeal).addSeals genesis.opid
      [(0, (⟨.other Purse.first, .fallback Purse.first⟩ : WTxoSeal RefNoise)),
        (1, (⟨.other Purse.first, .fallback Purse.first⟩ : WTxoSeal RefNoise))]).getD .new }

/-- A wallet that knows the contract. -/
def wallet : RgbWallet dir where
  wallet := ⟨Vector.replicate 32 1⟩
  contracts := .load (.load .bitcoin true [] [(("Coin", Purse.id 3), some contract)] fun _ _ _ h => by
    obtain ⟨⟨_, rfl⟩, rfl⟩ : (_ ∧ _) ∧ _ := by simpa using get_mem h
    rfl)

/-- The seal of the wallet that is paid. -/
def own : WTxoSeal RefNoise := ⟨.other ⟨⟨0⟩, 0⟩, .fallback ⟨⟨0⟩, 0⟩⟩

def known (auth : AuthToken) : Option (WTxoSeal RefNoise) := if auth = refBp.authToken own then some own else none

def resolveSeals (tokens : List AuthToken) : List (WTxoSeal refBp.Noise) := tokens.filterMap known

theorem answers : RgbWallet.Answers (B := refBp) resolveSeals known where
  mem _ _ := List.mem_filterMap
  token auth s h := by
    unfold known at h
    split at h
    · rename_i he
      cases h
      exact he.symm
    · cases h

def transfer : RefArticles → Option CallState := fun _ => some ⟨"transfer", some "$"⟩

/-- All that is on the output. -/
def invoice : RgbInvoice refSonic refPay where
  scope := Purse.id 3
  call := none
  auth := .token (refBp.authToken own)
  data := some (100 : Nat)

def request : OpRequest refSonic (PrefabSeal RefNoise) :=
  ((wallet.fulfill transfer (fun _ => true) invoice Purse.firstCell none).1.toOption.bind
    fun r => (r.resolveOutputs (fun _ => none) none).toOption).getD ⟨Purse.id 3, "", [], [], [], []⟩

def prefab : Prefab refSonic := (wallet.prefab request).1.toOption.getD ⟨.empty, .empty, ⟨Purse.id 3, 0, [], []⟩⟩

/-- The contract of the wallet that pays, with the transaction. -/
def sender : Contract refSonic refBp.txoSeal :=
  ((((wallet.prefab request).2.contracts.served (Purse.id 3)).bind
    (·.include prefab.operation.opid (UniqueMap.empty : UniqueMap Nat Nat) (6 : Nat))).getD contract)

def genesis : RefOperation := ⟨Purse.id 9, 0, [], [("$", ⟨60⟩, 60), ("$", ⟨40⟩, 40)]⟩

def stream : Bytes := 0 :: 0 :: 0 :: encodeContractId (Purse.id 9) ++
  sender.exported encoder (genesis.opid, genesis) [(prefab.operation.opid, prefab.operation)]

theorem pays : Pays dir invoice (fun _ => none) prefab sender where
  paid := by
    obtain ⟨r, w₁, hr⟩ : ∃ r w₁, wallet.fulfill transfer (fun _ => true) invoice Purse.firstCell none = (.ok r, w₁) :=
      ⟨_, _, rfl⟩
    obtain ⟨w₃, hp⟩ : ∃ w₃, wallet.prefab request = (.ok prefab, w₃) := ⟨_, rfl⟩
    have hrequest : r.resolveOutputs (fun _ => none) none = .ok request := by
      cases hr
      rfl
    obtain ⟨c, hc, hi⟩ : ∃ c, w₃.contracts.served (Purse.id 3) = some c ∧
        c.include prefab.operation.opid (UniqueMap.empty : UniqueMap Nat Nat) (6 : Nat) = some sender := by
      cases hp
      exact ⟨_, rfl, rfl⟩
    exact ⟨wallet, w₁, _, _, _, _, r, none, request, wallet, w₃, c, hr, hrequest, hp, hc,
      (Contract.include_reaches hi).reaches⟩

end Paid

end RgbStd
