import RgbStd.Popls.Messages
/-!
# Including a bundle, contract by contract (popls/bp.rs:757-793, contract.rs:614-638)

`RgbWallet::include` goes through all prefabs of a bundle. To each contract it does what the inclusions of its own
operations do in their order, whatever stands between them.

| here | what it is |
| --- | --- |
| `inclusions`   | the calls of `Contract::include` made on one contract |
| `Anchored`     | a contract before and after its inclusions |
| `SeparateLaws` | an anchor merged into another that stays as it is has no other messages |

* `include_ok_iff`: the call returns `Ok` exactly if each prefab has an anchor and each contract has nothing to add
  to what it holds first of the transaction.
* `include_anchored`: what it leaves in each contract.
* `include_repeated`: called again it returns `Ok` and changes nothing.
* `include_two_panics`: two operations of one contract are not included with a transaction it does not know.
-/
namespace RgbStd
open Tables Decode

namespace Contract

variable {H : Hypersonic} {S : RgbSeal}

/-- What a sequence of inclusions leaves. -/
structure Anchored (c : Contract H S) (calls : List (Inclusion S)) (c' : Contract H S) : Prop where
  ledger : c'.ledger = c.ledger
  contractId : c'.contractId = c.contractId
  seals : ∀ a, c'.pile.seal a = c.pile.seal a
  listed : ∀ o w, w ∈ c'.pile.opWitnessIds o ↔ w ∈ c.pile.opWitnessIds o ∨ ∃ i ∈ calls, i.opid = o ∧ i.wid = w
  known : ∀ w, c'.pile.hasWitness w = true ↔ c.pile.hasWitness w = true ∨ ∃ i ∈ calls, i.wid = w
  kept : ∀ w, c.pile.hasWitness w = true → c'.pile.witnessStatus w = c.pile.witnessStatus w
  fresh : ∀ i ∈ calls, c.pile.hasWitness i.wid = false → c'.pile.witnessStatus i.wid = .tentative
  held : ∀ w, c'.held w = c.firstOf calls w

theorem Anchored.nil (c : Contract H S) : c.Anchored [] c where
  ledger := rfl
  contractId := rfl
  seals _ := rfl
  listed := by simp
  known := by simp
  kept _ _ := rfl
  fresh := by simp
  held w := by simp [firstOf]

theorem Anchored.cons (hM : S.MergeLaws) {c c₁ c' : Contract H S} {i : Inclusion S} {calls : List (Inclusion S)}
    (h : c.include i.opid i.anchor i.published = some c₁) (hrest : c₁.Anchored calls c') :
    c.Anchored (i :: calls) c' := by
  obtain ⟨hl, hid, -, hknown, hold, hnew⟩ := include_pile h
  have hlisted : ∀ o w, w ∈ c₁.pile.opWitnessIds o ↔ w ∈ c.pile.opWitnessIds o ∨ (i.opid = o ∧ i.wid = w) := by
    intro o w
    rw [include_witnesses h, eq_comm (a := o), eq_comm (a := w)]
    rfl
  have hknown : ∀ w, c₁.pile.hasWitness w = true ↔ c.pile.hasWitness w = true ∨ i.wid = w := by
    intro w
    rw [hknown, Bool.or_eq_true, decide_eq_true_iff, or_comm, eq_comm (a := w)]
    rfl
  refine
    { ledger := hrest.ledger.trans hl
      contractId := hrest.contractId.trans hid
      seals := fun a => (hrest.seals a).trans (include_seal h a)
      listed := fun o w => ?_
      known := fun w => ?_
      kept := fun w hw => (hrest.kept w ((hknown w).2 (Or.inl hw))).trans (hold w hw)
      fresh := List.forall_mem_cons.2 ⟨fun hn => ?_, fun j hj hn => ?_⟩
      held := fun w => (hrest.held w).trans (firstOf_include hM h calls w).symm }
  · rw [hrest.listed, hlisted, List.exists_mem_cons_iff, or_assoc]
  · rw [hrest.known, hknown, List.exists_mem_cons_iff, or_assoc]
  · exact (hrest.kept _ ((hknown _).2 (Or.inr rfl))).trans (hnew hn)
  · by_cases he : i.wid = j.wid
    · have hi : c.pile.hasWitness i.wid = false := he ▸ hn
      exact (hrest.kept _ ((hknown _).2 (Or.inr he))).trans (he ▸ hnew hi)
    · refine hrest.fresh j hj (Bool.eq_false_iff.2 fun hk => ?_)
      exact ((hknown _).1 hk).elim (fun hk => Bool.eq_false_iff.1 hn hk) he

/-- **A sequence of inclusions** adds its witnesses to the operations, and tentative statuses for those that are new. -/
theorem includeAll_anchored (hM : S.MergeLaws) {calls : List (Inclusion S)} : ∀ {c c' : Contract H S},
    c.includeAll calls = some c' → c.Anchored calls c' := by
  induction calls with
  | nil =>
    intro c c' h
    cases h
    exact .nil c
  | cons i calls ih =>
    intro c c' h
    obtain ⟨c₁, h₁, h₂⟩ := includeAll_cons.1 h
    exact .cons hM h₁ (ih h₂)

/-- What has been included is there. -/
theorem Anchored.hasWitness {c c' : Contract H S} {calls : List (Inclusion S)}
    (h : c.Anchored calls c') (hadd : c.AddsNothing calls) (hsaved : c'.pile.saved = c'.pile.mine) {i : Inclusion S}
    (hi : i ∈ calls) : c'.HasWitness i.opid ⟨i.published, i.anchor⟩ := by
  obtain ⟨e, he⟩ : ∃ e, c.firstOf calls i.wid = some e := by
    have hfind : (calls.find? fun j => j.wid = i.wid).isSome = true :=
      List.find?_isSome.2 ⟨i, hi, decide_eq_true rfl⟩
    rw [firstOf]
    cases c.held i.wid with
    | some e => exact ⟨e, rfl⟩
    | none =>
      obtain ⟨j, hj⟩ := Option.isSome_iff_exists.1 hfind
      exact ⟨(j.anchor, j.published), by rw [hj]; rfl⟩
  obtain ⟨base, pub⟩ := e
  obtain ⟨hm, rfl⟩ := hadd i hi base pub he
  obtain ⟨hcli, hpub⟩ := held_iff.1 ((h.held i.wid).trans he)
  exact ⟨(h.listed _ _).2 (Or.inr ⟨i, hi, rfl, rfl⟩), hpub, ⟨base, hcli, Or.inr hm⟩, hsaved⟩

theorem includeAll_saved {calls : List (Inclusion S)} : ∀ {c c' : Contract H S}, c.includeAll calls = some c' →
    calls ≠ [] → c'.pile.saved = c'.pile.mine := by
  induction calls with
  | nil => exact fun _ hne => absurd rfl hne
  | cons i calls ih =>
    intro c c' h _
    obtain ⟨c₁, h₁, h₂⟩ := includeAll_cons.1 h
    cases calls with
    | nil =>
      cases h₂
      obtain ⟨_, p, _, _, rfl⟩ := include_eq h₁
      rfl
    | cons j calls => exact ih h₂ (List.cons_ne_nil _ _)

/-- **Inclusions repeated** change nothing. -/
theorem includeAll_repeated (hM : S.MergeLaws) {c c' : Contract H S} {calls : List (Inclusion S)}
    (h : c.includeAll calls = some c') : c'.includeAll calls = some c' := by
  have hsaved := includeAll_saved h
  have hself : ∀ i ∈ calls, c'.include i.opid i.anchor i.published = some c' := fun i hi => by
    have hadd := (includeAll_isSome hM c calls).1 ⟨c', h⟩
    have hhas := (includeAll_anchored hM h).hasWitness hadd (hsaved (List.ne_nil_of_mem hi)) hi
    exact include_self_iff.2 hhas
  clear h hsaved
  induction calls with
  | nil => rfl
  | cons i calls ih =>
    obtain ⟨hi, hrest⟩ := List.forall_mem_cons.1 hself
    exact includeAll_cons.2 ⟨c', hi, ih hrest⟩

end Contract

/-! ## A bundle -/

namespace RgbWallet

variable {H : Hypersonic} {B : BpCore} {A : AnchorCore B} {W : Wire H B.txoSeal} {V : Verifier H B.txoSeal}
  {P : Stockpile W V} {witness : B.Tx} {mpc : A.MerkleBlock} {dbc : Option A.TapretProof} {prevouts : List Outpoint}

/-- The inclusions of the operations of one contract. -/
def inclusions (witness : B.Tx) (mpc : A.MerkleBlock) (dbc : Option A.TapretProof) (prevouts : List Outpoint)
    (prefabs : List (Prefab H)) (id : ContractId) : List (Inclusion B.txoSeal) :=
  prefabs.filterMap fun prefab => if H.contractId prefab.operation = id then
    (anchorFor prefab mpc dbc prevouts).toOption.map fun anchor => ⟨H.opid prefab.operation, anchor, witness⟩ else none

theorem inclusions_cons {prefab : Prefab H} {anchor : B.Anchor} (ha : anchorFor prefab mpc dbc prevouts = .ok anchor)
    (prefabs : List (Prefab H)) (id : ContractId) : inclusions witness mpc dbc prevouts (prefab :: prefabs) id =
      if H.contractId prefab.operation = id then
        ⟨H.opid prefab.operation, anchor, witness⟩ :: inclusions witness mpc dbc prevouts prefabs id
      else inclusions witness mpc dbc prevouts prefabs id := by
  unfold inclusions
  by_cases he : H.contractId prefab.operation = id
  · simp [he, ha, Except.toOption]
  · simp [he]

theorem mem_inclusions {prefabs : List (Prefab H)} {id : ContractId} {i : Inclusion B.txoSeal} :
    i ∈ inclusions witness mpc dbc prevouts prefabs id ↔ ∃ prefab ∈ prefabs, H.contractId prefab.operation = id ∧
      ∃ anchor, anchorFor prefab mpc dbc prevouts = .ok anchor ∧ i = ⟨H.opid prefab.operation, anchor, witness⟩ := by
  unfold inclusions
  rw [List.mem_filterMap]
  refine exists_congr fun prefab => and_congr_right fun _ => ?_
  split
  · rename_i he
    cases ha : anchorFor prefab mpc dbc prevouts with
    | error e => simp [Except.toOption]
    | ok anchor => simp [he, Except.toOption, eq_comm]
  · rename_i he
    simp [he]

/-- The loop goes on if the prefab has its anchor and the contract takes it. -/
theorem includeEach_cons_ok {prefab : Prefab H} {prefabs : List (Prefab H)} {w w' : RgbWallet P} :
    includeEach witness mpc dbc prevouts (prefab :: prefabs) w = (.ok (), w') ↔ ∃ anchor contracts,
      anchorFor prefab mpc dbc prevouts = .ok anchor ∧
      w.contracts.include (H.contractId prefab.operation) (H.opid prefab.operation) witness anchor = some contracts ∧
      includeEach witness mpc dbc prevouts prefabs { w with contracts } = (.ok (), w') := by
  rw [includeEach]
  constructor
  · intro h
    split at h
    · cases h
    · rename_i anchor ha
      split at h
      · cases h
      · rename_i contracts hi
        exact ⟨anchor, contracts, ha, hi, h⟩
  · rintro ⟨anchor, contracts, ha, hi, h⟩
    simp only [ha, hi]
    exact h

/-- **Contract by contract**: the loop does to each contract what its own inclusions do. -/
theorem includeEach_eq {prefabs : List (Prefab H)} : ∀ {w w' : RgbWallet P},
    includeEach witness mpc dbc prevouts prefabs w = (.ok (), w') →
      (∀ p ∈ prefabs, (∃ anchor, anchorFor p mpc dbc prevouts = .ok anchor) ∧
        ∃ c, w.contracts.served (H.contractId p.operation) = some c) ∧
      ∀ id, Option.Rel (fun c c' => c.includeAll (inclusions witness mpc dbc prevouts prefabs id) = some c')
        (w.contracts.served id) (w'.contracts.served id) := by
  induction prefabs with
  | nil =>
    intro w w' h
    cases h
    refine ⟨by simp, fun id => ?_⟩
    cases w.contracts.served id with
    | none => exact .none
    | some c => exact .some rfl
  | cons prefab prefabs ih =>
    intro w w' h
    obtain ⟨anchor, contracts, ha, hi, h⟩ := includeEach_cons_ok.1 h
    obtain ⟨c, c₁, hc, hc₁, hs⟩ := contracts_include_eq hi
    obtain ⟨hall, hrest⟩ := ih h
    refine ⟨List.forall_mem_cons.2 ⟨⟨⟨anchor, ha⟩, c, hc⟩, fun p hp => ⟨(hall p hp).1, ?_⟩⟩, fun id => ?_⟩
    · obtain ⟨c', hc'⟩ := (hall p hp).2
      rw [hs] at hc'
      split at hc'
      · rename_i he
        exact ⟨c, he ▸ hc⟩
      · exact ⟨c', hc'⟩
    · have hid := hrest id
      rw [hs] at hid
      rw [inclusions_cons ha]
      split at hid
      · rename_i he
        subst he
        rw [if_pos rfl, hc]
        rcases Runs.rel_cases hid with ⟨hn, -⟩ | ⟨_, c', h₁, h₂, hall⟩
        · cases hn
        · cases h₁
          rw [h₂]
          exact .some (Contract.includeAll_cons.2 ⟨c₁, hc₁, hall⟩)
      · rename_i hne
        rwa [if_neg (Ne.symm hne)]

/-- The loop gets to its end if all inclusions do. -/
theorem includeEach_ok {prefabs : List (Prefab H)} : ∀ {w : RgbWallet P},
    (∀ p ∈ prefabs, ∃ anchor, anchorFor p mpc dbc prevouts = .ok anchor) →
    (∀ p ∈ prefabs, ∃ c c', w.contracts.served (H.contractId p.operation) = some c ∧
      c.includeAll (inclusions witness mpc dbc prevouts prefabs (H.contractId p.operation)) = some c') →
    ∃ w', includeEach witness mpc dbc prevouts prefabs w = (.ok (), w') := by
  induction prefabs with
  | nil => exact fun _ _ => ⟨_, rfl⟩
  | cons prefab prefabs ih =>
    intro w hanchors hall
    obtain ⟨⟨anchor, ha⟩, hanchors⟩ := List.forall_mem_cons.1 hanchors
    obtain ⟨⟨c, c', hc, hc'⟩, hothers⟩ := List.forall_mem_cons.1 hall
    rw [inclusions_cons ha, if_pos rfl] at hc'
    obtain ⟨c₁, hc₁, hc'⟩ := Contract.includeAll_cons.1 hc'
    obtain ⟨contracts, hi⟩ : ∃ contracts, w.contracts.include (H.contractId prefab.operation) (H.opid prefab.operation)
        witness anchor = some contracts := by
      simp only [Contracts.include, hc]
      exact ⟨_, congrArg (Option.map _) hc₁⟩
    obtain ⟨c₀, c₀', hc₀, hc₀', hs⟩ := contracts_include_eq hi
    cases hc.symm.trans hc₀
    cases hc₁.symm.trans hc₀'
    obtain ⟨w', h⟩ := ih (w := { w with contracts }) hanchors fun p hp => by
      dsimp only
      rw [hs]
      split
      · rename_i he
        rw [he]
        exact ⟨c₁, c', rfl, hc'⟩
      · rename_i hne
        obtain ⟨d, d', hd, hd'⟩ := hothers p hp
        rw [inclusions_cons ha, if_neg (Ne.symm hne)] at hd'
        exact ⟨d, d', hd, hd'⟩
    exact ⟨w', includeEach_cons_ok.2 ⟨anchor, contracts, ha, hi, h⟩⟩

/-- The loop gets to its end exactly if each operation has an anchor and each contract is known and has nothing to add
to what it holds first of the transaction. -/
theorem includeEach_ok_iff (hM : B.txoSeal.MergeLaws) {w : RgbWallet P} {prefabs : List (Prefab H)} :
    (∃ w', includeEach witness mpc dbc prevouts prefabs w = (.ok (), w')) ↔
      ∀ p ∈ prefabs, (∃ anchor, anchorFor p mpc dbc prevouts = .ok anchor) ∧
        ∃ c, w.contracts.served (H.contractId p.operation) = some c ∧
          c.AddsNothing (inclusions witness mpc dbc prevouts prefabs (H.contractId p.operation)) := by
  constructor
  · rintro ⟨w', h⟩ p hp
    obtain ⟨hall, hrel⟩ := includeEach_eq h
    obtain ⟨ha, c, hc⟩ := hall p hp
    have hid := hrel (H.contractId p.operation)
    rw [hc] at hid
    rcases Runs.rel_cases hid with ⟨hn, -⟩ | ⟨_, c', h₁, -, hi⟩
    · cases hn
    · cases h₁
      exact ⟨ha, c, hc, (Contract.includeAll_isSome hM c _).1 ⟨c', hi⟩⟩
  · intro hall
    refine includeEach_ok (fun p hp => (hall p hp).1) fun p hp => ?_
    obtain ⟨-, c, hc, hadd⟩ := hall p hp
    obtain ⟨c', hc'⟩ := (Contract.includeAll_isSome hM c _).2 hadd
    exact ⟨c, c', hc, hc'⟩

/-- What the loop leaves in each contract. -/
theorem includeEach_anchored (hM : B.txoSeal.MergeLaws) {w w' : RgbWallet P} {prefabs : List (Prefab H)}
    (h : includeEach witness mpc dbc prevouts prefabs w = (.ok (), w')) (id : ContractId) :
    Option.Rel (fun c c' : Contract H B.txoSeal => c.Anchored (inclusions witness mpc dbc prevouts prefabs id) c')
      (w.contracts.served id) (w'.contracts.served id) := by
  rcases Runs.rel_cases ((includeEach_eq h).2 id) with ⟨hc, hc'⟩ | ⟨c, c', hc, hc', hi⟩
  · rw [hc, hc']
    exact .none
  · rw [hc, hc']
    exact .some (Contract.includeAll_anchored hM hi)

/-- **`include` of a bundle** returns `Ok` exactly if each operation has an anchor and each contract is known and has
nothing to add to what it holds first of the transaction. -/
theorem include_ok_iff (hM : B.txoSeal.MergeLaws) {w : RgbWallet P} {bundle : PrefabBundle H} :
    (∃ w', w.include bundle witness mpc dbc prevouts = (.ok (), w')) ↔
      ∀ p ∈ bundle.prefabs, (∃ anchor, anchorFor p mpc dbc prevouts = .ok anchor) ∧
        ∃ c, w.contracts.served (H.contractId p.operation) = some c ∧
          c.AddsNothing (inclusions witness mpc dbc prevouts bundle.prefabs (H.contractId p.operation)) :=
  includeEach_ok_iff hM

/-- **What it leaves** in each contract: the transaction as a witness of the bundle's operations of that contract, and
nothing else. -/
theorem include_anchored (hM : B.txoSeal.MergeLaws) {w w' : RgbWallet P} {bundle : PrefabBundle H}
    (h : w.include bundle witness mpc dbc prevouts = (.ok (), w')) (id : ContractId) :
    Option.Rel (fun c c' : Contract H B.txoSeal =>
      c.Anchored (inclusions witness mpc dbc prevouts bundle.prefabs id) c')
      (w.contracts.served id) (w'.contracts.served id) :=
  includeEach_anchored hM h id

/-- **The same bundle again** is included as well, and no contract is changed. -/
theorem include_repeated (hM : B.txoSeal.MergeLaws) {w w' : RgbWallet P} {bundle : PrefabBundle H}
    (h : w.include bundle witness mpc dbc prevouts = (.ok (), w')) :
    ∃ w'', w'.include bundle witness mpc dbc prevouts = (.ok (), w'') ∧
      ∀ id, w''.contracts.served id = w'.contracts.served id := by
  obtain ⟨hall, hrel⟩ := includeEach_eq h
  have hagain : ∀ id c', w'.contracts.served id = some c' →
      c'.includeAll (inclusions witness mpc dbc prevouts bundle.prefabs id) = some c' := by
    intro id c' hc'
    rcases Runs.rel_cases (hrel id) with ⟨-, hn⟩ | ⟨c, _, -, h₂, hi⟩
    · cases hn.symm.trans hc'
    · cases h₂.symm.trans hc'
      exact Contract.includeAll_repeated hM hi
  obtain ⟨w'', hw''⟩ := includeEach_ok (fun p hp => (hall p hp).1) fun p hp => by
    obtain ⟨c, hc⟩ := (hall p hp).2
    rcases Runs.rel_cases (hrel (H.contractId p.operation)) with ⟨hn, -⟩ | ⟨_, c', -, h₂, -⟩
    · cases hn.symm.trans hc
    · exact ⟨c', c', h₂, hagain _ c' h₂⟩
  refine ⟨w'', hw'', fun id => ?_⟩
  rcases Runs.rel_cases ((includeEach_eq hw'').2 id) with ⟨hc, hc'⟩ | ⟨c, c', hc, hc', hi⟩
  · rw [hc, hc']
  · rw [hc, hc', ← hagain id c hc]
    exact hi.symm

end RgbWallet

/-! ## Two operations of a contract -/

/-- An anchor that stays as it is when another is merged into it has the messages of the other. -/
structure AnchorCore.SeparateLaws {B : BpCore} (A : AnchorCore B) : Prop where
  messages : ∀ map map' id id' proof proof' dbc dbc', (keys map).Nodup → (keys map').Nodup →
    B.merge (A.anchor map id proof dbc) (A.anchor map' id' proof' dbc') = some (A.anchor map id proof dbc) →
      ∀ pos opid, get map' pos = some opid → get map pos = some opid

theorem nodup_messages_from {B : BpCore} {A : AnchorCore B} {prevouts : List Outpoint} {opid : Opid}
    {closes : List Outpoint} :
    ∀ {map₀ map : Table UInt32 Opid}, (keys map₀).Nodup → closes.foldlM (fun map prevout =>
      if prevout ∈ prevouts then .ok (upsert map (UInt32.ofNat (prevouts.idxOf prevout)) opid)
      else (.error (.missingPrevout prevout) : Except (IncludeError A) (Table UInt32 Opid))) map₀ = .ok map →
    (keys map).Nodup := by
  induction closes with
  | nil =>
    intro map₀ map hnd h
    cases h
    exact hnd
  | cons o closes ih =>
    intro map₀ map hnd h
    obtain ⟨map₁, h₁, h⟩ := except_bind_eq_ok.1 h
    dsimp only at h₁
    split at h₁
    · cases h₁
      exact ih (nodup_upsert hnd _ _) h
    · cases h₁

theorem nodup_messages {B : BpCore} {A : AnchorCore B} {prevouts : List Outpoint} {opid : Opid} {closes : List Outpoint}
    {map : Table UInt32 Opid} (h : messages prevouts opid closes = (.ok map : Except (IncludeError A) _)) :
    (keys map).Nodup :=
  nodup_messages_from (by simp [keys]) h

theorem anchorFor_eq {H : Hypersonic} {B : BpCore} {A : AnchorCore B} {prefab : Prefab H} {mpc : A.MerkleBlock}
    {dbc : Option A.TapretProof} {prevouts : List Outpoint} {anchor : B.Anchor}
    (h : anchorFor prefab mpc dbc prevouts = .ok anchor) : ∃ map proof,
      messages prevouts (H.opid prefab.operation) prefab.closes.inOrder = (.ok map : Except (IncludeError A) _) ∧
      anchor = A.anchor map (H.contractId prefab.operation) proof dbc := by
  obtain ⟨map, hmap, h⟩ := except_bind_eq_ok.1 h
  obtain ⟨proof, -, h⟩ := except_bind_eq_ok.1 h
  cases h
  exact ⟨map, proof, hmap, rfl⟩

theorem Contract.firstOf_cons {H : Hypersonic} {S : RgbSeal} {c : Contract H S} {i : Inclusion S}
    (hnew : c.pile.hasWitness i.wid = false) (calls : List (Inclusion S)) :
    c.firstOf (i :: calls) i.wid = some (i.anchor, i.published) := by
  have hheld : c.held i.wid = none := held_eq_none_iff.2 (has_false_iff.1 hnew)
  have hfind : (i :: calls).find? (fun j => j.wid = i.wid) = some i := List.find?_cons_of_pos (decide_eq_true rfl)
  rw [firstOf, hheld, hfind]
  rfl

section
variable {H : Hypersonic} {B : BpCore} {A : AnchorCore B} {W : Wire H B.txoSeal} {V : Verifier H B.txoSeal}
  {P : Stockpile W V} {witness : B.Tx} {mpc : A.MerkleBlock} {dbc : Option A.TapretProof} {prevouts : List Outpoint}

/-- Where each operation has an anchor, all that can go wrong is a panic. -/
theorem RgbWallet.includeEach_panics {prefabs : List (Prefab H)} : ∀ {w : RgbWallet P},
    (∀ p ∈ prefabs, ∃ anchor, anchorFor p mpc dbc prevouts = .ok anchor) →
    (includeEach witness mpc dbc prevouts prefabs w).1 = .ok () ∨
      (includeEach witness mpc dbc prevouts prefabs w).1 = .error .panic := by
  induction prefabs with
  | nil => exact fun _ => Or.inl rfl
  | cons prefab prefabs ih =>
    intro w hanchors
    obtain ⟨⟨anchor, ha⟩, hanchors⟩ := List.forall_mem_cons.1 hanchors
    simp only [includeEach, ha]
    split
    · exact Or.inr rfl
    · exact ih hanchors

variable (witness) in
/-- The first operation of a contract, in whatever order the prefabs come. -/
theorem RgbWallet.inclusions_first {R : Prefab H → Prefab H → Prop} {prefabs : List (Prefab H)} {id : ContractId}
    (hanchors : ∀ p ∈ prefabs, ∃ anchor, anchorFor p mpc dbc prevouts = .ok anchor) (hR : prefabs.Pairwise R)
    {r : Prefab H} (hr : r ∈ prefabs) (hid : H.contractId r.operation = id) :
    ∃ first ∈ prefabs, H.contractId first.operation = id ∧
      (∀ q ∈ prefabs, H.contractId q.operation = id → q = first ∨ R first q) ∧ ∃ anchor calls,
      anchorFor first mpc dbc prevouts = .ok anchor ∧
      inclusions witness mpc dbc prevouts prefabs id = ⟨H.opid first.operation, anchor, witness⟩ :: calls := by
  induction prefabs with
  | nil => cases hr
  | cons p prefabs ih =>
    obtain ⟨⟨anchor, ha⟩, hanchors⟩ := List.forall_mem_cons.1 hanchors
    obtain ⟨hp, hR⟩ := List.pairwise_cons.1 hR
    rw [inclusions_cons ha]
    by_cases he : H.contractId p.operation = id
    · refine ⟨p, List.mem_cons_self, he, fun q hq _ => (List.mem_cons.1 hq).imp_right (hp q), anchor, _, ha, if_pos he⟩
    · have hr : r ∈ prefabs := (List.mem_cons.1 hr).resolve_left fun h => he (h ▸ hid)
      obtain ⟨first, hfirst, hfid, hall, anchor', calls, ha', hcalls⟩ := ih hanchors hR hr
      refine ⟨first, List.mem_cons_of_mem _ hfirst, hfid, List.forall_mem_cons.2 ⟨fun h => absurd h he, hall⟩, anchor',
        calls, ha', ?_⟩
      rw [if_neg he, hcalls]

/-- Included with a transaction new to their contract, operations that close something are the first one there. -/
theorem RgbWallet.first_of_merged (hA : A.SeparateLaws) {R : Prefab H → Prefab H → Prop} {c : Contract H B.txoSeal}
    {bundle : PrefabBundle H} (hanchors : ∀ p ∈ bundle.prefabs, ∃ anchor, anchorFor p mpc dbc prevouts = .ok anchor)
    (hR : bundle.prefabs.Pairwise R) {id : ContractId} {r : Prefab H} (hr : r ∈ bundle.prefabs)
    (hid : H.contractId r.operation = id) (hadd : c.AddsNothing (inclusions witness mpc dbc prevouts bundle.prefabs id))
    (hnew : c.pile.hasWitness (B.txid witness) = false) :
    ∃ first, (∀ q ∈ bundle.prefabs, H.contractId q.operation = id → q = first ∨ R first q) ∧
      ∀ q ∈ bundle.prefabs, H.contractId q.operation = id → q.closes.elems ≠ [] →
        H.opid q.operation = H.opid first.operation ∧ first.closes.elems ≠ [] := by
  obtain ⟨first, -, -, hall, a₀, calls, ha₀, hcalls⟩ := inclusions_first witness hanchors hR hr hid
  refine ⟨first, hall, fun q hq hqid hclose => ?_⟩
  -- the messages of the operation are among those of the first anchor
  obtain ⟨a, ha⟩ := hanchors q hq
  have hi : ⟨H.opid q.operation, a, witness⟩ ∈ inclusions witness mpc dbc prevouts bundle.prefabs id :=
    mem_inclusions.2 ⟨q, hq, hqid, a, ha, rfl⟩
  have hfirst : c.firstOf (inclusions witness mpc dbc prevouts bundle.prefabs id) (B.txid witness) =
      some (a₀, witness) := by
    rw [hcalls]
    exact Contract.firstOf_cons hnew calls
  obtain ⟨hmerge, -⟩ := hadd _ hi _ _ hfirst
  obtain ⟨map₀, proof₀, hmap₀, rfl⟩ := anchorFor_eq ha₀
  obtain ⟨map, proof, hmap, rfl⟩ := anchorFor_eq ha
  obtain ⟨o, ho⟩ := List.exists_mem_of_ne_nil _ hclose
  have hget := ((PrefabBundle.get_messages hmap).2 (UInt32.ofNat (prevouts.idxOf o)) (H.opid q.operation)).2
    ⟨rfl, o, SmallSet.mem_inOrder.2 ho, rfl⟩
  obtain ⟨hopid, o₀, ho₀, -⟩ := ((PrefabBundle.get_messages hmap₀).2 _ _).1 (hA.messages _ _ _ _ _ _ _ _
    (nodup_messages hmap₀) (nodup_messages hmap) hmerge _ _ hget)
  exact ⟨hopid, List.ne_nil_of_mem (SmallSet.mem_inOrder.1 ho₀)⟩

/-- **Two operations of a contract** that close outputs are not included with a transaction the contract does not know:
the second is not held by the anchor of the first. -/
theorem RgbWallet.include_two_panics (hM : B.txoSeal.MergeLaws) (hA : A.SeparateLaws) {w : RgbWallet P}
    {bundle : PrefabBundle H} (hanchors : ∀ p ∈ bundle.prefabs, ∃ anchor, anchorFor p mpc dbc prevouts = .ok anchor)
    {p q : Prefab H} (hp : p ∈ bundle.prefabs) (hq : q ∈ bundle.prefabs)
    (hid : H.contractId q.operation = H.contractId p.operation) (hne : H.opid p.operation ≠ H.opid q.operation)
    (hclose : p.closes.elems ≠ []) (hclose' : q.closes.elems ≠ []) (hnew : ∀ c,
      w.contracts.served (H.contractId p.operation) = some c → c.pile.hasWitness (B.txid witness) = false) :
    (w.include bundle witness mpc dbc prevouts).1 = .error .panic := by
  refine (includeEach_panics hanchors).resolve_left fun hok => hne ?_
  obtain ⟨-, c, hc, hadd⟩ := (includeEach_ok_iff hM).1 ⟨_, Prod.ext hok rfl⟩ p hp
  obtain ⟨first, -, hfirst⟩ := first_of_merged (R := fun _ _ => True) hA hanchors
    (List.pairwise_of_forall fun _ _ => trivial) hp rfl hadd (hnew c hc)
  rw [(hfirst p hp rfl hclose).1, (hfirst q hq hid hclose').1]

end

/-! ## One operation, and two -/

theorem refBp_mergeLaws : refBp.txoSeal.MergeLaws := ⟨UniqueMap.unite_self⟩

theorem find_refAnchor {map : Table UInt32 Opid} (hnd : (keys map).Nodup) (m : UniqueMap Nat Nat) (pos : UInt32) :
    (map.foldl (fun m e => m.write e.1.toNat e.2.tag) m).find pos.toNat =
      ((get map pos).map Opid.tag).or (m.find pos.toNat) := by
  induction map generalizing m with
  | nil => rfl
  | cons e map ih =>
    obtain ⟨k, v⟩ := e
    obtain ⟨hk, hnd⟩ := List.nodup_cons.1 hnd
    rw [List.foldl_cons, ih hnd, UniqueMap.find_write, get_cons]
    by_cases hpos : pos = k
    · subst hpos
      rw [get_none_of_notMem hk]
      simp
    · rw [if_neg fun h => hpos (UInt32.toNat_inj.1 h), if_neg hpos]

theorem refAnchors_separateLaws : refAnchors.SeparateLaws where
  messages map map' _ _ _ _ _ _ hnd hnd' h pos opid hget := by
    have hfind' : (refAnchors.anchor map' ⟨Vector.replicate 32 0⟩ () none).find pos.toNat = some opid.tag := by
      rw [find_refAnchor hnd', hget]
      rfl
    have hfind := UniqueMap.find_of_unite h hfind'
    rw [find_refAnchor hnd] at hfind
    cases hm : get map pos with
    | none =>
      rw [hm] at hfind
      cases hfind
    | some opid' =>
      rw [hm] at hfind
      exact congrArg (fun tag => some (Opid.mk tag)) (Option.some.inj hfind)

namespace Purse

/-- Two operations of contract 3, which spend at different outputs, and the blank of contract 4. -/
def apartBundle : PrefabBundle refSonic := (wallet.bundle apart (some 2)).1.toOption.get rfl

def apartWallet : RgbWallet dir := (wallet.bundle apart (some 2)).2

end Purse

/-- The contract of the first operation has nothing to add to what it holds of transaction 6. -/
theorem include_whole : ∃ c, Purse.bundled.contracts.served
      (refSonic.contractId (Purse.wholeBundle.prefabs.get ⟨0, by decide⟩).operation) = some c ∧
    c.AddsNothing (RgbWallet.inclusions (A := refAnchors) 6 [Purse.id 3, Purse.id 4] none [Purse.first]
      Purse.wholeBundle.prefabs (refSonic.contractId (Purse.wholeBundle.prefabs.get ⟨0, by decide⟩).operation)) :=
  ((RgbWallet.include_ok_iff refBp_mergeLaws).1 ⟨_, rfl⟩ _ (List.get_mem _ _)).2

theorem Purse.include_included : Purse.bundled.include (A := refAnchors) Purse.wholeBundle 6 [Purse.id 3, Purse.id 4]
    none [Purse.first] = (.ok (), Purse.included) := rfl

/-- The blank of contract 4 is witnessed by transaction 6, which is tentative. -/
theorem include_whole_anchored : Option.Rel (fun c c' : Contract refSonic refBp.txoSeal =>
      c.Anchored (RgbWallet.inclusions (A := refAnchors) 6 [Purse.id 3, Purse.id 4] none [Purse.first]
        Purse.wholeBundle.prefabs (Purse.id 4)) c')
    (Purse.bundled.contracts.served (Purse.id 4)) (Purse.included.contracts.served (Purse.id 4)) :=
  RgbWallet.include_anchored refBp_mergeLaws Purse.include_included (Purse.id 4)

theorem include_whole_repeated : ∃ w'', Purse.included.include (A := refAnchors) Purse.wholeBundle 6
      [Purse.id 3, Purse.id 4] none [Purse.first] = (.ok (), w'') ∧
    ∀ id, w''.contracts.served id = Purse.included.contracts.served id :=
  RgbWallet.include_repeated refBp_mergeLaws Purse.include_included

set_option maxRecDepth 8192 in
/-- The transaction spends at both outputs, and commits to both contracts. -/
theorem include_apart : (Purse.apartWallet.include (A := refAnchors) Purse.apartBundle 6 [Purse.id 3, Purse.id 4] none
    [Purse.first, Purse.second]).1 = .error .panic := by
  have hanchors : ∀ p ∈ Purse.apartBundle.prefabs, ∃ anchor,
      anchorFor p (A := refAnchors) [Purse.id 3, Purse.id 4] none [Purse.first, Purse.second] = .ok anchor := by
    have hsome : ∀ p ∈ Purse.apartBundle.prefabs, (anchorFor p (A := refAnchors) [Purse.id 3, Purse.id 4] none
        [Purse.first, Purse.second]).toOption.isSome = true := by
      decide
    intro p hp
    have hp := hsome p hp
    cases ha : anchorFor p (A := refAnchors) [Purse.id 3, Purse.id 4] none [Purse.first, Purse.second] with
    | ok anchor => exact ⟨anchor, rfl⟩
    | error e =>
      rw [ha] at hp
      cases hp
  have hp : Purse.apartBundle.prefabs.get ⟨0, by decide⟩ ∈ Purse.apartBundle.prefabs := List.get_mem _ _
  have hq : Purse.apartBundle.prefabs.get ⟨2, by decide⟩ ∈ Purse.apartBundle.prefabs := List.get_mem _ _
  have hne : refSonic.opid (Purse.apartBundle.prefabs.get ⟨0, by decide⟩).operation ≠
    refSonic.opid (Purse.apartBundle.prefabs.get ⟨2, by decide⟩).operation := by decide
  refine RgbWallet.include_two_panics refBp_mergeLaws refAnchors_separateLaws hanchors hp hq rfl hne (by decide)
    (by decide) fun c hc => ?_
  cases hc
  rfl

end RgbStd
