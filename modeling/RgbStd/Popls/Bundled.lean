import RgbStd.Contract.LastStatus
import RgbStd.Contracts.Settle
import RgbStd.Popls.Anchored
/-!
# What `bundle` makes, and `include` takes (popls/bp.rs:654-793)

A bundle is made before its transaction is. It is included later, in whatever the wallet has become, once the
transaction spends at the outputs the bundle closes and commits to its contracts.

| here | what it is |
| --- | --- |
| `Spends`   | the transaction spends at all outputs the bundle closes and commits to all its contracts |
| `Awaits`   | the wallet has the contracts, and none of them knows the transaction |
| `Assigned` | the anchors of the transaction give each input to the operation that closes what it spends |
| `OneFate`  | operations, each in its contract, report one status of a transaction |

* `messages_ok`: an operation whose outputs are spent has its messages.
* `include_alone_iff`: a bundle is included with a new transaction exactly if requests that share a contract use
  nothing.
* `bundle_oneMessage_iff`: that is so as well of the inputs being assigned to one operation of a contract each.
* `bundle_included_iff`: of requests that use something no two may be of one contract.
* `include_oneFate`: from then on all its operations report one status of the transaction.
-/
namespace RgbStd
open Tables Decode

/-- Whatever is closed is spent. -/
theorem messages_ok {B : BpCore} {A : AnchorCore B} {prevouts : List Outpoint} {opid : Opid} {closes : List Outpoint}
    (h : ∀ o ∈ closes, o ∈ prevouts) :
    ∃ map, messages prevouts opid closes = (.ok map : Except (IncludeError A) (Table UInt32 Opid)) := by
  unfold messages
  generalize ([] : Table UInt32 Opid) = map₀
  induction closes generalizing map₀ with
  | nil => exact ⟨map₀, rfl⟩
  | cons o closes ih =>
    obtain ⟨ho, h⟩ := List.forall_mem_cons.1 h
    obtain ⟨map, hmap⟩ := ih h (upsert map₀ (UInt32.ofNat (prevouts.idxOf o)) opid)
    refine ⟨map, ?_⟩
    rw [List.foldlM_cons, if_pos ho]
    exact hmap

/-- Inclusions that have one anchor and one transaction, which the contract does not have. -/
theorem Contract.addsNothing_of_alike {H : Hypersonic} {S : RgbSeal} (hM : S.MergeLaws) {c : Contract H S}
    {calls : List (Inclusion S)} (hnew : ∀ i ∈ calls, c.pile.hasWitness i.wid = false)
    (halike : ∀ i ∈ calls, ∀ j ∈ calls, i.anchor = j.anchor ∧ i.published = j.published) : c.AddsNothing calls := by
  intro i hi base published hfirst
  cases calls with
  | nil => cases hi
  | cons j calls =>
    obtain ⟨hanchor, hpublished⟩ := halike i hi j List.mem_cons_self
    have hwid : i.wid = j.wid := congrArg S.pubId hpublished
    rw [hwid, Contract.firstOf_cons (hnew j List.mem_cons_self)] at hfirst
    cases hfirst
    exact ⟨hanchor ▸ hM.merge_self i.anchor, hpublished⟩

/-- Operations of a contract that close nothing have one anchor. -/
theorem anchorFor_congr {H : Hypersonic} {B : BpCore} {A : AnchorCore B} {p q : Prefab H} {mpc : A.MerkleBlock}
    {dbc : Option A.TapretProof} {prevouts : List Outpoint} (hid : H.contractId p.operation = H.contractId q.operation)
    (hp : p.closes.elems = []) (hq : q.closes.elems = []) :
    anchorFor p mpc dbc prevouts = anchorFor q mpc dbc prevouts := by
  simp only [anchorFor, SmallSet.inOrder_eq_nil.2 hp, SmallSet.inOrder_eq_nil.2 hq, hid, messages, List.foldlM_nil]

namespace PrefabBundle

variable {H : Hypersonic} {B : BpCore} {A : AnchorCore B}

/-- The transaction spends at the outputs the bundle closes, and commits to its contracts. -/
structure Spends (b : PrefabBundle H) (mpc : A.MerkleBlock) (prevouts : List Outpoint) : Prop where
  closes : ∀ o ∈ b.closes, o ∈ prevouts
  commits : ∀ p ∈ b.prefabs, ∃ proof, A.toMerkleProof mpc (H.contractId p.operation) = .ok proof

/-- Then each operation has its anchor. -/
theorem Spends.anchorFor {b : PrefabBundle H} {mpc : A.MerkleBlock} {prevouts : List Outpoint}
    (h : b.Spends mpc prevouts) (dbc : Option A.TapretProof) {p : Prefab H} (hp : p ∈ b.prefabs) :
    ∃ anchor, RgbStd.anchorFor p mpc dbc prevouts = .ok anchor := by
  have hin : ∀ o ∈ p.closes.inOrder, o ∈ prevouts := fun o ho => h.closes o (List.mem_flatMap.2 ⟨p, hp, ho⟩)
  obtain ⟨map, hmap⟩ : ∃ map, messages prevouts (H.opid p.operation) p.closes.inOrder =
    (.ok map : Except (IncludeError A) (Table UInt32 Opid)) := messages_ok hin
  obtain ⟨proof, hproof⟩ := h.commits p hp
  exact ⟨_, except_bind_eq_ok.2 ⟨map, hmap, except_bind_eq_ok.2 ⟨proof, mapError_eq_ok.2 hproof, rfl⟩⟩⟩

end PrefabBundle

namespace RgbWallet

variable {H : Hypersonic} {B : BpCore} {A : AnchorCore B} {W : Wire H B.txoSeal} {V : Verifier H B.txoSeal}
  {P : Stockpile W V} {witness : B.Tx} {mpc : A.MerkleBlock} {dbc : Option A.TapretProof} {prevouts : List Outpoint}

/-- The wallet has the contracts of the bundle, and the transaction is new to each of them. -/
def Awaits (w : RgbWallet P) (b : PrefabBundle H) (witness : B.Tx) : Prop :=
  ∀ p ∈ b.prefabs, ∃ c, w.contracts.served (H.contractId p.operation) = some c ∧
    c.pile.hasWitness (B.txid witness) = false

/-- The anchor that each contract of the bundle has of the transaction gives the inputs that spend what an operation
closes to this operation. -/
def Assigned (w : RgbWallet P) (A : AnchorCore B) (b : PrefabBundle H) (witness : B.Tx) (prevouts : List Outpoint) :
    Prop :=
  ∀ p ∈ b.prefabs, ∃ c map proof dbc, w.contracts.served (H.contractId p.operation) = some c ∧
    c.held (B.txid witness) = some (A.anchor map (H.contractId p.operation) proof dbc, witness) ∧ (keys map).Nodup ∧
    ∀ o ∈ p.closes.elems, get map (UInt32.ofNat (prevouts.idxOf o)) = some (H.opid p.operation)

/-- **What was bundled is included** with a transaction that is new and spends it, exactly if requests that share a
contract use nothing: of two operations, included one after the other, the second adds to the anchor of the first. -/
theorem include_alone_iff (hL : H.CallLaws) (hR : H.RecordLaws) (hF : H.FreshLaws) (hM : B.txoSeal.MergeLaws)
    (hA : A.SeparateLaws) {w w' w₂ : RgbWallet P} (hO : w.OwnIds) (hN : w.contracts.contractIds.Nodup)
    {requests : List (OpRequest H (PrefabSeal B.Noise))} {change : Option UInt32} {b : PrefabBundle H}
    (h : w.bundle requests change = (.ok b, w')) (hspends : b.Spends mpc prevouts) (hawaits : w₂.Awaits b witness) :
    (∃ w₃, w₂.include b witness mpc dbc prevouts = (.ok (), w₃)) ↔ OpRequest.Alone requests := by
  have hanchors : ∀ p ∈ b.prefabs, ∃ anchor, anchorFor p mpc dbc prevouts = .ok anchor :=
    fun _ hp => hspends.anchorFor dbc hp
  constructor
  · intro hok
    by_contra hshared
    obtain ⟨p, hp, q, hq, hid, hclose, hne⟩ := bundle_shared hL hR hF hO h hshared
    obtain ⟨c, hc, hnew⟩ := hawaits q hq
    obtain ⟨-, c', hc', hadd⟩ := (includeEach_ok_iff hM).1 hok q hq
    cases hc.symm.trans hc'
    obtain ⟨_, _, _, _, -, -, -, hb, -⟩ := bundle_ok hL hO h
    obtain ⟨first, hfirst, hmerged⟩ := first_of_merged hA hanchors (PrefabBundle.tryFrom_inOrder hb) hq rfl hadd hnew
    obtain ⟨hopid, hfirstclose⟩ := hmerged q hq rfl hclose
    by_cases hpc : p.closes.elems = []
    · -- what closes nothing comes first
      rcases hfirst p hp hid with rfl | hle
      · exact hfirstclose hpc
      · exact hfirstclose (Prefab.closes_of_cmp hle hpc)
    · exact hne hpc ((hmerged p hp hid hpc).1.trans hopid.symm)
  · intro halone
    refine (includeEach_ok_iff hM).2 fun p hp => ?_
    obtain ⟨c, hc, hnew⟩ := hawaits p hp
    refine ⟨hanchors p hp, c, hc, Contract.addsNothing_of_alike hM (fun i hi => ?_) fun i hi j hj => ?_⟩
    · obtain ⟨_, -, -, _, -, rfl⟩ := mem_inclusions.1 hi
      exact hnew
    · obtain ⟨p₁, hp₁, hid₁, a₁, ha₁, rfl⟩ := mem_inclusions.1 hi
      obtain ⟨p₂, hp₂, hid₂, a₂, ha₂, rfl⟩ := mem_inclusions.1 hj
      refine ⟨?_, rfl⟩
      have hid := hid₁.trans hid₂.symm
      rcases bundle_alike hL hO hN h halone hp₁ hp₂ hid with rfl | ⟨hnil₁, hnil₂⟩
      · exact Except.ok.inj (ha₁.symm.trans ha₂)
      · rw [anchorFor_congr hid hnil₁ hnil₂] at ha₁
        exact Except.ok.inj (ha₁.symm.trans ha₂)

/-- What is included with a new transaction is assigned, where operations of one contract close nothing. -/
theorem include_assigned (hM : B.txoSeal.MergeLaws) {w w' : RgbWallet P} {b : PrefabBundle H}
    (halike : ∀ p ∈ b.prefabs, ∀ q ∈ b.prefabs, H.contractId p.operation = H.contractId q.operation →
      p = q ∨ p.closes.elems = [] ∧ q.closes.elems = [])
    (hawaits : w.Awaits b witness) (h : w.include b witness mpc dbc prevouts = (.ok (), w')) :
    w'.Assigned A b witness prevouts := by
  intro p hp
  have hanchors : ∀ p ∈ b.prefabs, ∃ anchor, anchorFor p mpc dbc prevouts = .ok anchor :=
    fun p hp => ((includeEach_ok_iff hM).1 ⟨w', h⟩ p hp).1
  obtain ⟨c, hc, hnew⟩ := hawaits p hp
  have hrel := includeEach_anchored hM h (H.contractId p.operation)
  rw [hc] at hrel
  rcases Runs.rel_cases hrel with ⟨hn, -⟩ | ⟨_, c', h₁, hc', hanchored⟩
  · cases hn
  cases h₁
  obtain ⟨first, hfirst, hid, -, anchor, calls, ha, hcalls⟩ := inclusions_first (R := fun _ _ => True) witness hanchors
    (List.pairwise_of_forall fun _ _ => trivial) hp rfl
  have hheld : c'.held (B.txid witness) = some (anchor, witness) := by
    rw [hanchored.held, hcalls]
    exact Contract.firstOf_cons hnew calls
  obtain ⟨map, proof, hmap, rfl⟩ := anchorFor_eq ha
  refine ⟨c', map, proof, dbc, hc', hid ▸ hheld, nodup_messages hmap, fun o ho => ?_⟩
  rcases halike first hfirst p hp hid with rfl | ⟨-, hnil⟩
  · exact ((PrefabBundle.get_messages hmap).2 _ _).2 ⟨rfl, o, SmallSet.mem_inOrder.2 ho, rfl⟩
  · exact absurd ho (hnil ▸ List.not_mem_nil)

/-- **One message for each input.** No two operations of a contract close the same output, and with a new transaction
that spends what the bundle closes all its inputs are assigned to the operations that close it, if and only if requests
that share a contract use nothing. -/
theorem bundle_oneMessage_iff (hL : H.CallLaws) (hR : H.RecordLaws) (hF : H.FreshLaws) (hM : B.txoSeal.MergeLaws)
    (hA : A.SeparateLaws) {w w' w₂ : RgbWallet P} (hO : w.OwnIds) (hN : w.contracts.contractIds.Nodup)
    {requests : List (OpRequest H (PrefabSeal B.Noise))} {change : Option UInt32} {b : PrefabBundle H}
    (h : w.bundle requests change = (.ok b, w')) (hspends : b.Spends mpc prevouts) (hawaits : w₂.Awaits b witness) :
    (b.OneMessage ∧ ∃ w₃, w₂.include b witness mpc dbc prevouts = (.ok (), w₃) ∧ w₃.Assigned A b witness prevouts) ↔
      OpRequest.Alone requests := by
  constructor
  · rintro ⟨-, w₃, hok, -⟩
    exact (include_alone_iff hL hR hF hM hA hO hN h hspends hawaits).1 ⟨w₃, hok⟩
  · intro halone
    obtain ⟨w₃, hok⟩ : ∃ w₃, w₂.include b witness mpc dbc prevouts = (.ok (), w₃) :=
      (include_alone_iff hL hR hF hM hA hO hN h hspends hawaits).2 halone
    refine ⟨fun p hp q hq hne hid o ho => ?_, w₃, hok, ?_⟩
    · rcases bundle_alike hL hO hN h halone hp hq hid with rfl | ⟨hnil, -⟩
      · exact absurd rfl hne
      · exact absurd ho (hnil ▸ List.not_mem_nil)
    · exact include_assigned hM (fun p hp q hq => bundle_alike hL hO hN h halone hp hq) hawaits hok

/-- **Requests that use something** are included if they are of one contract each. -/
theorem bundle_included_iff (hL : H.CallLaws) (hR : H.RecordLaws) (hF : H.FreshLaws) (hM : B.txoSeal.MergeLaws)
    (hA : A.SeparateLaws) {w w' w₂ : RgbWallet P} (hO : w.OwnIds) (hN : w.contracts.contractIds.Nodup)
    {requests : List (OpRequest H (PrefabSeal B.Noise))} {change : Option UInt32} {b : PrefabBundle H}
    (h : w.bundle requests change = (.ok b, w')) (huse : ∀ r ∈ requests, r.using_ ≠ [])
    (hspends : b.Spends mpc prevouts) (hawaits : w₂.Awaits b witness) :
    (∃ w₃, w₂.include b witness mpc dbc prevouts = (.ok (), w₃)) ↔ (requests.map (·.contractId)).Nodup :=
  (include_alone_iff hL hR hF hM hA hO hN h hspends hawaits).trans (OpRequest.alone_iff_nodup huse)

end RgbWallet

namespace Purse

theorem spends_whole : wholeBundle.Spends (A := refAnchors) [id 3, id 4] [first] where
  closes := by decide
  commits := by
    have hall : ∀ p ∈ wholeBundle.prefabs, refSonic.contractId p.operation ∈ [id 3, id 4] := by decide
    exact fun p hp => ⟨(), if_pos (hall p hp)⟩

theorem awaits_whole : bundled.Awaits wholeBundle 6 := by
  have hall : ∀ p ∈ wholeBundle.prefabs, ((bundled.contracts.served (refSonic.contractId p.operation)).map fun c =>
      c.pile.hasWitness (refBp.txid 6)) = some false := by decide
  exact fun p hp => Option.map_eq_some_iff.1 (hall p hp)

end Purse

/-- The requests are of one contract each; the transaction spends the first output and commits to both. -/
theorem bundle_included_whole : ∃ w₃, Purse.bundled.include (A := refAnchors) Purse.wholeBundle 6
    [Purse.id 3, Purse.id 4] none [Purse.first] = (.ok (), w₃) := by
  obtain ⟨w', h⟩ : ∃ w', Purse.wallet.bundle Purse.whole (some 2) = (.ok Purse.wholeBundle, w') := ⟨_, rfl⟩
  exact (RgbWallet.bundle_included_iff refSonic_callLaws refSonic_recordLaws refSonic_freshLaws refBp_mergeLaws
    refAnchors_separateLaws Purse.wallet_ownIds (by decide) h (by decide) Purse.spends_whole Purse.awaits_whole).2
    (by decide)

/-- Contract 3 has the message of the payment, and contract 4 that of the blank. -/
theorem oneMessage_whole : Purse.wholeBundle.OneMessage ∧ ∃ w₃, Purse.bundled.include (A := refAnchors)
    Purse.wholeBundle 6 [Purse.id 3, Purse.id 4] none [Purse.first] = (.ok (), w₃) ∧
      w₃.Assigned refAnchors Purse.wholeBundle 6 [Purse.first] := by
  obtain ⟨w', h⟩ : ∃ w', Purse.wallet.bundle Purse.whole (some 2) = (.ok Purse.wholeBundle, w') := ⟨_, rfl⟩
  exact (RgbWallet.bundle_oneMessage_iff refSonic_callLaws refSonic_recordLaws refSonic_freshLaws refBp_mergeLaws
    refAnchors_separateLaws Purse.wallet_ownIds (by decide) h Purse.spends_whole Purse.awaits_whole).2
    (List.pairwise_singleton _ _)

/-- Both operations close the first output. -/
theorem oneMessage_together :
    ¬∀ (H : Hypersonic) (B : BpCore) (W : Wire H B.txoSeal) (V : Verifier H B.txoSeal) (P : Stockpile W V), H.CallLaws →
      H.RecordLaws → H.FreshLaws → P.Lawful → ∀ (w w' : RgbWallet P) requests change b, w.OwnIds →
      w.bundle requests change = (.ok b, w') → b.OneMessage := by
  intro h
  have hone := h _ _ _ _ Purse.dir refSonic_callLaws refSonic_recordLaws refSonic_freshLaws (stockpileDir_lawful _ _ _ _)
    Purse.wallet _ Purse.together (some 2) Purse.togetherBundle Purse.wallet_ownIds rfl
  -- the blank of contract 4 stands between them
  have hp := hone (Purse.togetherBundle.prefabs.get ⟨0, by decide⟩) (List.get_mem _ _)
    (Purse.togetherBundle.prefabs.get ⟨2, by decide⟩) (List.get_mem _ _)
    (fun he => absurd (congrArg RefOperation.salt he) (by decide)) (by decide) Purse.first (by decide)
  revert hp
  decide

/-! ## One fate -/

namespace Contract

variable {H : Hypersonic} {S : RgbSeal}

/-- What a list makes of a status depends on that status only. -/
theorem after_congr {p q : PileFs S} {w : S.WitnessId} (hk : p.hasWitness w = q.hasWitness w)
    (hs : p.witnessStatus w = q.witnessStatus w) (changed : List (S.WitnessId × WitnessStatus)) :
    after p changed w = after q changed w := by
  have hnews : lastNews p changed w = lastNews q changed w := by
    rw [lastNews, lastNews, ← List.filter_reverse, ← List.filter_reverse]
    refine get_filter_congr fun st => decide_eq_decide.2 ?_
    simp only [News, hk, hs]
  rw [after, after, get_sanitize, get_sanitize, hnews, hs]

/-- A `sync` names no witnesses of operations. -/
theorem sync_index (c : Contract H S) (changed : List (S.WitnessId × WitnessStatus)) :
    (c.sync changed).2.pile.index = c.pile.index := by
  obtain ⟨p, hp, hi, -⟩ := updateStatuses_sanitize c.pile changed
  simp only [sync, hp]
  split
  · exact hi
  · split
    · exact hi
    · exact hi

/-- The transaction is a witness of the operation, and has the status. -/
def Reports (c : Contract H S) (o : Opid) (w : S.WitnessId) (status : WitnessStatus) : Prop :=
  w ∈ c.pile.opWitnessIds o ∧ c.pile.witnessStatus w = status

end Contract

namespace Contracts

variable {H : Hypersonic} {S : RgbSeal} {W : Wire H S} {V : Verifier H S} {P : Stockpile W V}

/-- All of the operations, each in its contract, report one status of the transaction. -/
def OneFate (s : Contracts P) (ops : List (ContractId × Opid)) (w : S.WitnessId) : Prop :=
  ∃ status, ∀ e ∈ ops, ∃ c, s.served e.1 = some c ∧ c.Reports e.2 w status

/-- A `sync` tells all contracts the same. -/
theorem news_oneFate {s s' : Contracts P} {changed : List (S.WitnessId × WitnessStatus)}
    (hnd : s.contractIds.Nodup) (h : s.news changed = some s') {ops : List (ContractId × Opid)} {w : S.WitnessId}
    (hlisted : ∀ e ∈ ops, e.1 ∈ s.contractIds) (hs : s.OneFate ops w) : s'.OneFate ops w := by
  obtain ⟨status, hall⟩ := hs
  have hsynced := news_synced hnd h
  by_cases hne : ops = []
  · exact ⟨status, by simp [hne]⟩
  · obtain ⟨first, hfirst⟩ := List.exists_mem_of_ne_nil _ hne
    obtain ⟨c₀, -, hw₀, hs₀⟩ := hall first hfirst
    -- the status is that of the first of them
    refine ⟨Contract.after c₀.pile changed w, fun e he => ?_⟩
    obtain ⟨c, hc, hw, hst⟩ := hall e he
    obtain ⟨c₁, c', hc₁, hc', hone⟩ := hsynced.listed e.1 (hlisted e he)
    cases hc.symm.trans hc₁
    have hsync : c' = (c.sync changed).2 := congrArg Prod.snd hone.symm
    have hknown : c.pile.hasWitness w = c₀.pile.hasWitness w :=
      (PileFs.hasWitness_of_mem hw).trans (PileFs.hasWitness_of_mem hw₀).symm
    refine ⟨c', hc', ?_, ?_⟩
    · rw [hsync, PileFs.mem_opWitnessIds, c.sync_index]
      exact PileFs.mem_opWitnessIds.1 hw
    · rw [hsync, (c.sync_status changed).2]
      exact Contract.after_congr hknown (hst.trans hs₀.symm) changed

/-- **One fate**: in every run of `sync` calls the operations report one status of the transaction. -/
theorem run_oneFate {s : Contracts P} (hnd : s.contractIds.Nodup)
    {ops : List (ContractId × Opid)} {w : S.WitnessId} (hlisted : ∀ e ∈ ops, e.1 ∈ s.contractIds) (hs : s.OneFate ops w)
    {calls : List (List (S.WitnessId × WitnessStatus))} {states : List (Contracts P)}
    (h : Runs.run news s calls = some states) : ∀ s' ∈ states, s'.OneFate ops w := by
  let Inv := fun s₁ : Contracts P => s₁.contractIds = s.contractIds ∧ s₁.OneFate ops w
  have hstep : ∀ s₁ l s₂, Inv s₁ → True → s₁.news l = some s₂ → Inv s₂ := by
    rintro s₁ l s₂ ⟨hids, hfate⟩ - hnews
    have hsynced := news_synced (hids ▸ hnd) hnews
    exact ⟨(congrArg P.contractIds hsynced.persistence).trans hids,
      news_oneFate (hids ▸ hnd) hnews (fun e he => hids ▸ hlisted e he) hfate⟩
  exact fun s' hs' => (Runs.run_inv hstep calls s states ⟨rfl, hs⟩ (Runs.along_true calls s) h s' hs').2

end Contracts

namespace RgbWallet

variable {H : Hypersonic} {B : BpCore} {A : AnchorCore B} {W : Wire H B.txoSeal} {V : Verifier H B.txoSeal}
  {P : Stockpile W V} {witness : B.Tx} {mpc : A.MerkleBlock} {dbc : Option A.TapretProof} {prevouts : List Outpoint}

/-- The operations of a bundle, each with its contract. -/
def bundled (b : PrefabBundle H) : List (ContractId × Opid) :=
  b.prefabs.map fun p => (H.contractId p.operation, H.opid p.operation)

/-- **The operations of a bundle share a fate**, in whatever contracts they are: once it has been included with a new
transaction, they report one status of it in every state of every run of `sync` calls. -/
theorem include_oneFate (hM : B.txoSeal.MergeLaws) {w w' : RgbWallet P} {b : PrefabBundle H}
    (hawaits : w.Awaits b witness) (h : w.include b witness mpc dbc prevouts = (.ok (), w'))
    (hnd : w'.contracts.contractIds.Nodup)
    (hlisted : ∀ p ∈ b.prefabs, H.contractId p.operation ∈ w'.contracts.contractIds)
    {calls : List (List (B.txoSeal.WitnessId × WitnessStatus))} {states : List (Contracts P)}
    (hrun : Runs.run Contracts.news w'.contracts calls = some states) :
    ∀ s ∈ states, s.OneFate (bundled b) (B.txid witness) := by
  refine Contracts.run_oneFate hnd (List.forall_mem_map.2 hlisted) ⟨.tentative, ?_⟩ hrun
  refine List.forall_mem_map.2 fun p hp => ?_
  obtain ⟨c, hc, hnew⟩ := hawaits p hp
  obtain ⟨anchor, ha⟩ := ((includeEach_ok_iff hM).1 ⟨w', h⟩ p hp).1
  have hmem : ⟨H.opid p.operation, anchor, witness⟩ ∈
      inclusions (A := A) witness mpc dbc prevouts b.prefabs (H.contractId p.operation) :=
    mem_inclusions.2 ⟨p, hp, rfl, anchor, ha, rfl⟩
  have hrel := includeEach_anchored hM h (H.contractId p.operation)
  rw [hc] at hrel
  rcases Runs.rel_cases hrel with ⟨hn, -⟩ | ⟨_, c', h₁, hc', hanchored⟩
  · cases hn
  · cases h₁
    exact ⟨c', hc', (hanchored.listed _ _).2 (Or.inr ⟨_, hmem, rfl, rfl⟩), hanchored.fresh _ hmem hnew⟩

end RgbWallet

/-- The transaction is mined, then lost. -/
theorem include_whole_fate : ∃ states, Runs.run Contracts.news Purse.included.contracts
      [[(refBp.txid 6, .mined Reorg.height)], [(refBp.txid 6, .archived)]] = some states ∧
    ∀ s ∈ states, s.OneFate (RgbWallet.bundled Purse.wholeBundle) (refBp.txid 6) := by
  obtain ⟨states, h⟩ : ∃ states, Runs.run Contracts.news Purse.included.contracts
      [[(refBp.txid 6, .mined Reorg.height)], [(refBp.txid 6, .archived)]] = some states := ⟨_, rfl⟩
  exact ⟨states, h, RgbWallet.include_oneFate refBp_mergeLaws Purse.awaits_whole Purse.include_included (by decide)
    (by decide) h⟩

end RgbStd
