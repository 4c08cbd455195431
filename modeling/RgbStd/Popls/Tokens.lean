import RgbStd.Lib.Runs
import RgbStd.Popls.Performs
/-!
# Auth tokens of the outputs a wallet assigns to itself

The noise of a change output and that of a blank output are derived from the wallet's seed, the
contract, the number of the output and the transaction output it is assigned to. Nothing in it
depends on the operation.

* `Session`: a wallet with the operations it has made, over any calls of `prefab` and `bundle`.
* `executed_honest`, `makes_honest`: the noise of a derived output is the one derived for its slot.
* `makes_slots`: a call takes slots it asks for, and no others.
* `tokens_unique`: tokens are unique while slots are asked for once.
-/
namespace RgbStd
open Tables Decode

/-- What the noise of an output is derived from, besides the seed. -/
@[ext] structure Slot where
  contractId : ContractId
  vout : UInt32
  nonce : UInt64
deriving DecidableEq

/-- An output cell with its token, and the slot its noise was derived for. -/
structure DerivedCell where
  cell : Opid × Nat
  token : Option AuthToken
  slot : Slot
deriving DecidableEq

/-- The outputs whose noise is the wallet's, with their numbers: those of blanks, and those which do
not bring one. -/
def OpRequest.derived {H : Hypersonic} {N : Type} (blank : Bool) (request : OpRequest H (PrefabSeal N)) :
    List (Nat × Slot) :=
  request.owned.zipIdx.filterMap fun (out, no) => match out.state.seal_ with
    | .token _ => none
    | .alt seal_ =>
      if blank || seal_.noise.isNone then some (no, ⟨request.contractId, seal_.vout, UInt64.ofNat no⟩) else none

def OpRequest.slots {H : Hypersonic} {N : Type} (blank : Bool) (request : OpRequest H (PrefabSeal N)) : List Slot :=
  (request.derived blank).map (·.2)

def Made.derived {H : Hypersonic} {B : BpCore} (m : Made H B) : List DerivedCell :=
  (m.request.derived m.blank).map fun (no, slot) =>
    ⟨(H.opid m.operation, no), (H.destructibleOut m.operation)[no]?, slot⟩

theorem Made.derived_slots {H : Hypersonic} {B : BpCore} (m : Made H B) :
    m.derived.map (·.slot) = m.request.slots m.blank := by
  simp only [derived, OpRequest.slots, List.map_map, Function.comp_def]

/-- A wallet with the operations made so far. -/
structure Session {H : Hypersonic} {B : BpCore} {W : Wire H B.txoSeal} {V : Verifier H B.txoSeal}
    (P : Stockpile W V) where
  wallet : RgbWallet P
  made : List (Made H B)

/-- The contracts whose blanks are left out. -/
def WalletCall.named {H : Hypersonic} {B : BpCore} : WalletCall H B → List ContractId
  | .prefab _ => []
  | .bundle requests _ => requests.map (·.contractId)

namespace RgbWallet

variable {H : Hypersonic} {B : BpCore} {W : Wire H B.txoSeal} {V : Verifier H B.txoSeal} {P : Stockpile W V}

/-- The slots a call asks for: those of its requests, and those of the blanks as they are read off
the contracts before the call. -/
def asked (w : RgbWallet P) : WalletCall H B → List Slot
  | .prefab request => request.slots false
  | .bundle requests change => requests.flatMap (·.slots false) ++
      (w.blanks change (requests.map (·.contractId)) (requests.flatMap (·.using_.map (·.outpoint)))
        w.contracts.contractIds).flatMap (·.slots true)

/-! ## Derived noise -/

/-- The operation has the tokens of its request, and a blank's noise is all derived. -/
structure Honest (w : RgbWallet P) (m : Made H B) : Prop where
  outs : H.destructibleOut m.operation =
    m.request.owned.zipIdx.map fun e => OpRequest.authAt (w.contractEngine m.request.contractId) e.2 e.1.state.seal_
  blank : m.blank = true → ∀ e ∈ m.request.owned.zipIdx, Derived (w.contractEngine m.request.contractId) e.1 e.2

theorem executed_honest (hL : H.CallLaws) {w₀ : RgbWallet P} (blank : Bool)
    (requests : List (OpRequest H (PrefabSeal B.Noise)))
    (hd : blank = true → ∀ r ∈ requests, ∀ e ∈ r.owned.zipIdx, Derived (w₀.contractEngine r.contractId) e.1 e.2) :
    ∀ w : RgbWallet P, w.wallet = w₀.wallet → ∀ m ∈ w.executed blank requests, Honest w₀ m := by
  induction requests with
  | nil => simp [executed]
  | cons request requests ih =>
    intro w hw m hm
    simp only [executed] at hm
    split at hm
    · cases hm
    · rename_i p w₁ hp
      obtain ⟨c, d, hcalls, hop, _⟩ := prefab_ok hp
      rcases List.mem_cons.1 hm with rfl | hm
      · obtain ⟨o, ledger, hl, hop, _⟩ := Contract.call_ok hop
        refine ⟨?_, fun hb => hd hb request List.mem_cons_self⟩
        show H.destructibleOut p.operation = _
        rw [hop, hL.outs _ _ _ _ hl, (OpRequest.draft_ok hcalls.draft).2.2, contractEngine_of_wallet hw]
      · exact ih (fun hb r hr => hd hb r (List.mem_cons_of_mem _ hr)) w₁ (hcalls.wallet.trans hw) m hm

/-- **What a call makes** is honest. -/
theorem makes_honest (hL : H.CallLaws) {w₀ w : RgbWallet P} (hw : w.wallet = w₀.wallet) (call : WalletCall H B) :
    ∀ m ∈ w.makes call, Honest w₀ m := by
  cases call with
  | prefab request => exact executed_honest hL false _ (by simp) w hw
  | bundle requests change =>
    intro m hm
    rcases List.mem_append.1 hm with hm | hm
    · exact executed_honest hL false _ (by simp) w hw m hm
    · split at hm
      · cases hm
      · rename_i ps blanks w₁ hplan
        rcases plan_eq hplan with ⟨_, _, he⟩ | ⟨ps', w₂, hps, hr⟩
        · cases he
        obtain ⟨hsame, hall⟩ := hr.resolve_left (by simp)
        have hw₂ := prefabs_wallet hL hps
        refine executed_honest hL true _ (fun _ q hq => ?_) w₁ (hsame.wallet.trans (hw₂.trans hw)) m hm
        obtain ⟨id, _, _, c, _, hq⟩ := (hall _ _ rfl).2.sound hq
        rcases blankRequest_ok hq with ⟨_, hn⟩ | ⟨q', hq', _, rfl, _, hder⟩
        · cases hn
        · cases hq'
          rw [contractEngine_of_wallet (hw₂.trans hw)] at hder
          exact hder

/-- The token of a derived output in the slot. -/
def tokenOf (w : RgbWallet P) (s : Slot) : AuthToken :=
  B.authToken ⟨.wout s.vout, .noise (B.noiseWith (.wout s.vout) (w.contractEngine s.contractId) s.nonce)⟩

theorem tokenOf_inj (hN : B.NoCollisions) {w : RgbWallet P} {s s' : Slot} (h : w.tokenOf s = w.tokenOf s') : s = s' := by
  obtain ⟨hp, hn⟩ := WTxoSeal.mk.inj (hN.auth _ _ h)
  obtain ⟨-, he, hk⟩ := hN.noise _ _ _ _ _ _ (TxoSealExt.noise.inj hn)
  have hc : s.contractId.bytes.toList = s'.contractId.bytes.toList := List.append_cancel_left he
  exact Slot.ext (congrArg ContractId.mk (Vector.toList_inj.1 hc)) (WOutpoint.wout.inj hp) hk

theorem Honest.token {w : RgbWallet P} {m : Made H B} (h : Honest w m) {d : DerivedCell} (hd : d ∈ m.derived) :
    d.token = some (w.tokenOf d.slot) := by
  simp only [Made.derived, OpRequest.derived, List.mem_map, List.mem_filterMap, Prod.exists] at hd
  obtain ⟨no, slot, ⟨out, no', hmem, hd⟩, rfl⟩ := hd
  split at hd
  · cases hd
  · rename_i seal_ hs
    split at hd
    · rename_i hb
      cases hd
      have hno : m.request.owned.zipIdx[no]? = some (out, no) := by
        rw [List.getElem?_zipIdx, List.mk_mem_zipIdx_iff_getElem?.1 hmem]
        simp
      show (H.destructibleOut m.operation)[no]? = _
      rw [h.outs, List.getElem?_map, hno]
      have hnoise : seal_.noise.getD (B.noiseWith (.wout seal_.vout) (w.contractEngine m.request.contractId)
          (UInt64.ofNat no)) =
            B.noiseWith (.wout seal_.vout) (w.contractEngine m.request.contractId) (UInt64.ofNat no) := by
        rcases Bool.or_eq_true_iff.1 hb with hb | hb
        · obtain ⟨vout, he⟩ := h.blank hb _ hmem
          cases hs.symm.trans he
          rfl
        · rw [Option.isNone_iff_eq_none.1 hb]
          rfl
      simp only [Option.map_some, hs, OpRequest.authAt, OpRequest.sealAt, tokenOf, hnoise]
    · cases hd

/-! ## Slots -/

theorem executed_slots (blank : Bool) (requests : List (OpRequest H (PrefabSeal B.Noise))) : ∀ w : RgbWallet P,
    (((w.executed blank requests).flatMap Made.derived).map (·.slot)).Sublist (requests.flatMap (·.slots blank)) := by
  induction requests with
  | nil => exact fun _ => List.Sublist.refl _
  | cons request requests ih =>
    intro w
    simp only [executed]
    split
    · exact List.nil_sublist _
    · rename_i p w₁ _
      rw [List.flatMap_cons, List.map_append, Made.derived_slots, List.flatMap_cons]
      exact (ih w₁).append_left _

/-- **What a call makes** takes only slots it asks for. -/
theorem makes_slots (hL : H.CallLaws) (w : RgbWallet P) (call : WalletCall H B)
    (hO : ∀ id ∈ call.named, w.OwnId id) :
    (((w.makes call).flatMap Made.derived).map (·.slot)).Sublist (w.asked call) := by
  cases call with
  | prefab request => simpa [makes, asked] using w.executed_slots false [request]
  | bundle requests change =>
    simp only [makes, asked, List.flatMap_append, List.map_append]
    refine (w.executed_slots false requests).append ?_
    split
    · exact List.nil_sublist _
    · rename_i ps blanks w₂ hplan
      rcases plan_eq hplan with ⟨_, _, he⟩ | ⟨ps', w₁, hps, hr⟩
      · cases he
      obtain ⟨rfl, hblanks⟩ := (hr.resolve_left (by simp)).2 _ _ rfl
      obtain ⟨hfits, _, hper, hserved⟩ := prefabs_fit hL hO hps
      have heq := hblanks.eq
      rw [map_contractId hfits, Contracts.contractIds, hper, blanks_congr (prefabs_wallet hL hps)
        (mem_closes_iff hfits) hserved] at heq
      subst heq
      exact executed_slots true _ w₂

end RgbWallet

/-! ## Sessions -/

namespace Session

variable {H : Hypersonic} {B : BpCore} {W : Wire H B.txoSeal} {V : Verifier H B.txoSeal} {P : Stockpile W V}

def step (s : Session P) (call : WalletCall H B) : Option (Session P) :=
  (s.wallet.after call).map fun wallet => { wallet, made := s.made ++ s.wallet.makes call }

/-- All the outputs with derived noise. -/
def derived (s : Session P) : List DerivedCell := s.made.flatMap Made.derived

/-- Different cells have different tokens. -/
def TokensUnique (s : Session P) : Prop :=
  ∀ d ∈ s.derived, ∀ d' ∈ s.derived, d.cell ≠ d'.cell → d.token ≠ d'.token

/-- Different cells are outputs of different contracts, have different numbers, or are assigned to
different outputs of the witness transaction. -/
def SlotsUnique (s : Session P) : Prop :=
  ∀ d ∈ s.derived, ∀ d' ∈ s.derived, d.cell ≠ d'.cell → d.slot ≠ d'.slot

/-- All operations made are honest, with the seed of the wallet. -/
structure Inv (w : RgbWallet P) (s : Session P) : Prop where
  wallet : s.wallet.wallet = w.wallet
  honest : ∀ m ∈ s.made, RgbWallet.Honest w m

theorem step_inv (hL : H.CallLaws) {w : RgbWallet P} {s s' : Session P} {call : WalletCall H B} (hI : Inv w s)
    (h : s.step call = some s') : Inv w s' := by
  obtain ⟨w', hw, rfl⟩ := Option.map_eq_some_iff.1 h
  refine ⟨(RgbWallet.after_performs hL hw).wallet.trans hI.wallet, fun m hm => ?_⟩
  rcases List.mem_append.1 hm with hm | hm
  · exact hI.honest m hm
  · exact RgbWallet.makes_honest hL hI.wallet call m hm

theorem Inv.token {w : RgbWallet P} {s : Session P} (hI : Inv w s) {d : DerivedCell} (hd : d ∈ s.derived) :
    d.token = some (w.tokenOf d.slot) := by
  obtain ⟨m, hm, hd⟩ := List.mem_flatMap.1 hd
  exact (hI.honest m hm).token hd

theorem Inv.unique_iff (hN : B.NoCollisions) {w : RgbWallet P} {s : Session P} (hI : Inv w s) :
    s.TokensUnique ↔ s.SlotsUnique := by
  have htok : ∀ d ∈ s.derived, ∀ d' ∈ s.derived, d.token = d'.token ↔ d.slot = d'.slot := by
    intro d hd d' hd'
    rw [hI.token hd, hI.token hd', Option.some.injEq]
    exact ⟨RgbWallet.tokenOf_inj hN, fun h => by rw [h]⟩
  constructor
  · intro h d hd d' hd' hne hs
    exact h d hd d' hd' hne ((htok d hd d' hd').2 hs)
  · intro h d hd d' hd' hne ht
    exact h d hd d' hd' hne ((htok d hd d' hd').1 ht)

/-- What is made in a run is honest. -/
theorem run_inv (hL : H.CallLaws) {w : RgbWallet P} {calls : List (WalletCall H B)} {sessions : List (Session P)}
    (h : Runs.run step ⟨w, []⟩ calls = some sessions) : ∀ s ∈ sessions, Inv w s := by
  refine Runs.run_inv (C := fun _ _ => True) ?_ calls ⟨w, []⟩ sessions ?_ (Runs.along_true _ _) h
  · exact fun s call s' hI _ hs => step_inv hL hI hs
  · exact ⟨rfl, by simp⟩

/-- A call asks for slots that no output had before, each once; a bundle names its contracts by the
ids of their ledgers. -/
structure Fresh (s : Session P) (call : WalletCall H B) : Prop where
  named : ∀ id ∈ call.named, s.wallet.OwnId id
  nodup : (s.wallet.asked call).Nodup
  unused : ∀ slot ∈ s.wallet.asked call, slot ∉ s.derived.map (·.slot)

/-- No slot has been taken twice. -/
def SlotsOnce (s : Session P) : Prop := (s.derived.map (·.slot)).Nodup

theorem SlotsOnce.unique {s : Session P} (h : s.SlotsOnce) : s.SlotsUnique :=
  fun _ hd _ hd' hne heq => hne (congrArg DerivedCell.cell (List.inj_on_of_nodup_map h hd hd' heq))

theorem step_slots (hL : H.CallLaws) {s s' : Session P} {call : WalletCall H B} (hN : s.SlotsOnce)
    (hC : Fresh s call) (h : s.step call = some s') : s'.SlotsOnce := by
  obtain ⟨w', _, rfl⟩ := Option.map_eq_some_iff.1 h
  have hsub := RgbWallet.makes_slots hL s.wallet call hC.named
  rw [SlotsOnce, derived, List.flatMap_append, List.map_append, List.nodup_append]
  refine ⟨hN, hC.nodup.sublist hsub, fun slot hold slot' hnew he => ?_⟩
  exact hC.unused slot' (hsub.subset hnew) (he ▸ hold)

/-- **No slot is taken twice** in a run of fresh calls. -/
theorem run_slots (hL : H.CallLaws) {w : RgbWallet P} {calls : List (WalletCall H B)} {sessions : List (Session P)}
    (h : Runs.run step ⟨w, []⟩ calls = some sessions) (hC : Runs.Along step Fresh ⟨w, []⟩ calls) :
    ∀ s ∈ sessions, s.SlotsOnce := by
  refine Runs.run_inv ?_ calls ⟨w, []⟩ sessions ?_ hC h
  · exact fun s call s' hI hF hs => step_slots hL hI hF hs
  · exact List.nodup_nil

/-- **Tokens are unique** in every state of a run whose calls are fresh. In any run, they are unique
in a state if and only if slots are. -/
theorem tokens_unique (hL : H.CallLaws) (hN : B.NoCollisions) (w : RgbWallet P) (calls : List (WalletCall H B))
    (sessions : List (Session P)) (h : Runs.run step ⟨w, []⟩ calls = some sessions) :
    (Runs.Along step Fresh ⟨w, []⟩ calls → ∀ s ∈ sessions, s.TokensUnique) ∧
      ∀ s ∈ sessions, s.TokensUnique ↔ s.SlotsUnique := by
  have hiff : ∀ s ∈ sessions, s.TokensUnique ↔ s.SlotsUnique := fun s hs => (run_inv hL h s hs).unique_iff hN
  exact ⟨fun hC s hs => (hiff s hs).2 (run_slots hL h hC s hs).unique, hiff⟩

end Session

/-- A payment with its blank: two contracts, two outputs. -/
theorem tokens_bundle : ∃ sessions, Runs.run Session.step ⟨Purse.wallet, []⟩
      [.bundle [Purse.spend 3 [(0, Purse.first), (1, Purse.first)] 100 1] (some 2)] = some sessions ∧
    ∀ s ∈ sessions, s.TokensUnique := by
  obtain ⟨sessions, hs⟩ : ∃ sessions, Runs.run Session.step ⟨Purse.wallet, []⟩
      [.bundle [Purse.spend 3 [(0, Purse.first), (1, Purse.first)] 100 1] (some 2)] = some sessions := ⟨_, rfl⟩
  refine ⟨sessions, hs, (Session.tokens_unique refSonic_callLaws refBp_noCollisions _ _ _ hs).1 ⟨⟨?_, ?_, ?_⟩, ?_⟩⟩
  · exact fun id _ => Purse.wallet_ownIds id
  · decide
  · decide
  · exact fun _ _ => trivial

/-- Two payments with their change at the same place. -/
theorem tokens_repeated :
    ¬∀ (H : Hypersonic) (B : BpCore) (W : Wire H B.txoSeal) (V : Verifier H B.txoSeal) (P : Stockpile W V), H.CallLaws →
      B.NoCollisions → ∀ (w : RgbWallet P) (calls : List (WalletCall H B)) (sessions : List (Session P)),
      Runs.run Session.step ⟨w, []⟩ calls = some sessions → ∀ s ∈ sessions, s.TokensUnique := by
  intro h
  have hu := h _ _ _ _ Purse.dir refSonic_callLaws refBp_noCollisions Purse.wallet
    [.prefab (Purse.spend 3 [(0, Purse.first)] 60 1), .prefab (Purse.spend 3 [(2, Purse.second)] 5 1)] _ rfl
    _ (List.mem_cons_of_mem _ List.mem_cons_self) _ List.mem_cons_self _ (List.mem_cons_of_mem _ List.mem_cons_self)
  exact hu (by decide) (by decide +kernel)

end RgbStd
