import RgbStd.Popls.Loss
/-!
# Including a bundle (popls/bp.rs:757-788)

| here | there |
| --- | --- |
| `AnchorCore`   | what is taken from the crates `bp` and `commit_verify`: Merkle blocks, proofs and the making of an anchor |
| `messages`, `anchorFor` | bp.rs:769-783 |
| `RgbWallet.include`     | bp.rs:757, a bundle being the list of its prefabs in the order of the set |

The witness of each prefab is written to its contract before the next prefab is looked at.

* `Served.grows`, `includeEach_grows`: piles only grow.
* `include_atomic_iff`: an inclusion that fails has changed no pile exactly if everything before the first
  prefab it fails at was there already.
-/
namespace RgbStd
open Tables Decode

structure AnchorCore (B : BpCore) where
  MerkleBlock : Type
  MerkleProof : Type
  TapretProof : Type
  LeafNotKnown : Type
  toMerkleProof : MerkleBlock → ContractId → Except LeafNotKnown MerkleProof
  anchor : Table UInt32 Opid → ContractId → MerkleProof → Option TapretProof → B.Anchor

/-- A reference core: the block lists its contracts, and an anchor is its messages. -/
@[reducible] def refAnchors : AnchorCore refBp where
  MerkleBlock := List ContractId
  MerkleProof := Unit
  TapretProof := Unit
  LeafNotKnown := Unit
  toMerkleProof block id := if id ∈ block then .ok () else .error ()
  anchor map _ _ _ := map.foldl (fun m e => m.write e.1.toNat e.2.tag) .empty

inductive IncludeError {B : BpCore} (A : AnchorCore B) where
  | missingPrevout (outpoint : Outpoint)
  | mpc (e : A.LeafNotKnown)

section
variable {H : Hypersonic} {B : BpCore} {A : AnchorCore B}

/-- The message for each input of the transaction that the operation closes. -/
def messages (prevouts : List Outpoint) (opid : Opid) : List Outpoint → Except (IncludeError A) (Table UInt32 Opid) :=
  List.foldlM (fun map prevout =>
    if prevout ∈ prevouts then .ok (upsert map (UInt32.ofNat (prevouts.idxOf prevout)) opid)
    else .error (.missingPrevout prevout)) []

/-- The anchor of a prefab. -/
def anchorFor (prefab : Prefab H) (mpc : A.MerkleBlock) (dbc : Option A.TapretProof) (prevouts : List Outpoint) :
    Except (IncludeError A) B.Anchor := do
  let protocolId := H.contractId prefab.operation
  let map ← messages prevouts (H.opid prefab.operation) prefab.closes.inOrder
  let proof ← (A.toMerkleProof mpc protocolId).mapError .mpc
  return A.anchor map protocolId proof dbc

end

namespace RgbWallet

variable {H : Hypersonic} {B : BpCore} {A : AnchorCore B} {W : Wire H B.txoSeal} {V : Verifier H B.txoSeal}
  {P : Stockpile W V}

/-- The loop over the prefabs. -/
def includeEach (witness : B.Tx) (mpc : A.MerkleBlock) (dbc : Option A.TapretProof) (prevouts : List Outpoint) :
    List (Prefab H) → RgbWallet P → Res (IncludeError A) Unit × RgbWallet P
  | [], w => (.ok (), w)
  | prefab :: prefabs, w => match anchorFor prefab mpc dbc prevouts with
    | .error e => (.error (.err e), w)
    | .ok anchor =>
      match w.contracts.include (H.contractId prefab.operation) (H.opid prefab.operation) witness anchor with
      | none => (.error .panic, w)
      | some contracts => includeEach witness mpc dbc prevouts prefabs { w with contracts }

/-- What was included before stays in the pile. -/
def PilesGrow (w w' : RgbWallet P) : Prop :=
  ∀ id, Option.Rel (fun c c' : Contract H B.txoSeal => c.pile.Grows c'.pile) (w.contracts.served id) (w'.contracts.served id)

/-- No pile has been changed. -/
def PilesKept (w w' : RgbWallet P) : Prop :=
  ∀ id, (w'.contracts.served id).map (·.pile) = (w.contracts.served id).map (·.pile)

/-- The prefab's witness is in the pile of its contract, with all that its anchor has. -/
def Includes (w : RgbWallet P) (witness : B.Tx) (mpc : A.MerkleBlock) (dbc : Option A.TapretProof)
    (prevouts : List Outpoint) (prefab : Prefab H) : Prop :=
  ∃ c anchor, w.contracts.served (H.contractId prefab.operation) = some c ∧
    anchorFor prefab mpc dbc prevouts = .ok anchor ∧ c.HasWitness (H.opid prefab.operation) ⟨witness, anchor⟩

theorem PilesGrow.refl (w : RgbWallet P) : PilesGrow w w := by
  intro id
  cases w.contracts.served id with
  | none => exact .none
  | some c => exact .some (.refl _)

theorem contracts_include_eq {s s' : Contracts P} {id : ContractId} {opid : Opid} {witness : B.Tx} {anchor : B.Anchor}
    (h : s.include id opid witness anchor = some s') : ∃ c c', s.served id = some c ∧
      c.include opid anchor witness = some c' ∧
      ∀ id', s'.served id' = if id' = id then some c' else s.served id' := by
  obtain ⟨c, c', hc, hc', rfl⟩ := Contracts.include_eq h
  exact ⟨c, c', hc, hc', s.served_upsert id c'⟩

theorem include_pile_grows {c c' : Contract H B.txoSeal} {opid : Opid} {anchor : B.Anchor} {witness : B.Tx}
    (h : c.include opid anchor witness = some c') : c' = { c with pile := c'.pile } ∧ c.pile.Grows c'.pile := by
  obtain ⟨merged, p, _, hp, rfl⟩ := Contract.include_eq h
  exact ⟨rfl, (PileFs.addWitness_grows hp).trans (PileFs.commit_grows p)⟩

/-- **Piles only grow**, as far as the loop comes. -/
theorem includeEach_grows {witness : B.Tx} {mpc : A.MerkleBlock} {dbc : Option A.TapretProof} {prevouts : List Outpoint}
    {prefabs : List (Prefab H)} : ∀ {w w' : RgbWallet P} {r : Res (IncludeError A) Unit},
      includeEach witness mpc dbc prevouts prefabs w = (r, w') → PilesGrow w w' := by
  induction prefabs with
  | nil =>
    intro w w' r h
    cases h
    exact .refl w
  | cons prefab prefabs ih =>
    intro w w' r h
    rw [includeEach] at h
    split at h
    · cases h
      exact .refl w
    · split at h
      · cases h
        exact .refl w
      · rename_i contracts hi
        obtain ⟨c, c', hc, hc', hs⟩ := contracts_include_eq hi
        have hrest := ih h
        intro id
        have hid := hrest id
        simp only [hs] at hid
        split at hid
        · rename_i he
          rw [he] at hid ⊢
          rw [hc]
          rcases Runs.rel_cases hid with ⟨hn, _⟩ | ⟨c₁, c₂, h₁, h₂, hg⟩
          · cases hn
          · cases h₁
            rw [h₂]
            exact .some ((include_pile_grows hc').2.trans hg)
        · exact hid

theorem Includes.congr {w : RgbWallet P} (w' : RgbWallet P)
    (h : ∀ id, w'.contracts.served id = w.contracts.served id) {witness : B.Tx}
    {mpc : A.MerkleBlock} {dbc : Option A.TapretProof} {prevouts : List Outpoint} {prefab : Prefab H} :
    w'.Includes witness mpc dbc prevouts prefab ↔ w.Includes witness mpc dbc prevouts prefab := by
  simp only [Includes, h]

/-- **A failing loop** changes no pile if and only if it was there already what the loop includes before it
fails. -/
theorem includeEach_kept_iff {witness : B.Tx} {mpc : A.MerkleBlock} {dbc : Option A.TapretProof}
    {prevouts : List Outpoint} {prefabs : List (Prefab H)} : ∀ {w w' : RgbWallet P} {e : IncludeError A},
      includeEach witness mpc dbc prevouts prefabs w = (.error (.err e), w') →
      (PilesKept w w' ↔ ∀ q ∈ prefabs.takeWhile (fun q => (anchorFor q mpc dbc prevouts).isOk),
        w.Includes witness mpc dbc prevouts q) := by
  induction prefabs with
  | nil =>
    intro w w' e h
    cases h
  | cons prefab prefabs ih =>
    intro w w' e h
    rw [includeEach] at h
    split at h
    · rename_i e' ha
      cases h
      rw [List.takeWhile_cons_of_neg (by simp [ha, Except.isOk, Except.toBool])]
      exact ⟨fun _ => by simp, fun _ _ => rfl⟩
    · rename_i anchor ha
      rw [List.takeWhile_cons_of_pos (by simp [ha, Except.isOk, Except.toBool]), List.forall_mem_cons]
      split at h
      · cases h
      · rename_i contracts hi
        obtain ⟨c, c', hc, hc', hs⟩ := contracts_include_eq hi
        have hself : c' = c → ∀ id, contracts.served id = w.contracts.served id := by
          rintro rfl id
          rw [hs]
          split
          · rename_i he
            rw [he, hc]
          · rfl
        constructor
        · intro hk
          -- the pile of the contract is between two equal ones
          have hgrow := includeEach_grows h (H.contractId prefab.operation)
          have hkid := hk (H.contractId prefab.operation)
          simp only [hs, if_true] at hgrow
          rcases Runs.rel_cases hgrow with ⟨hn, _⟩ | ⟨c₁, c₂, h₁, h₂, hg⟩
          · cases hn
          cases h₁
          rw [hc, h₂] at hkid
          obtain ⟨heq, hg'⟩ := include_pile_grows hc'
          have hpile : c'.pile = c.pile := hg'.squeeze hg (Option.some.inj hkid)
          have hsame : c' = c := heq.trans (by rw [hpile])
          refine ⟨⟨c, anchor, hc, ha, Contract.include_self_iff.1 (hsame ▸ hc')⟩, fun q hq => ?_⟩
          have hserved := hself hsame
          refine (Includes.congr { w with contracts } hserved).1 ((ih h).1 (fun id => ?_) q hq)
          exact (hk id).trans (congrArg (Option.map _) (hserved id).symm)
        · rintro ⟨⟨c₁, anchor₁, hc₁, ha₁, hw⟩, hrest⟩
          obtain rfl : c = c₁ := Option.some.inj (hc.symm.trans hc₁)
          obtain rfl : anchor = anchor₁ := Except.ok.inj (ha.symm.trans ha₁)
          have hsame : c' = c := Option.some.inj (hc'.symm.trans (Contract.include_self_iff.2 hw))
          have hserved := hself hsame
          have hkept := (ih h).2 fun q hq => (Includes.congr { w with contracts } hserved).2 (hrest q hq)
          exact fun id => (hkept id).trans (congrArg (Option.map _) (hserved id))

end RgbWallet

/-- `RgbWallet::include` (bp.rs:757). -/
def RgbWallet.include {H : Hypersonic} {B : BpCore} {A : AnchorCore B} {W : Wire H B.txoSeal} {V : Verifier H B.txoSeal}
    {P : Stockpile W V} (w : RgbWallet P) (bundle : PrefabBundle H) (witness : B.Tx) (mpc : A.MerkleBlock)
    (dbc : Option A.TapretProof) (prevouts : List Outpoint) : Res (IncludeError A) Unit × RgbWallet P :=
  includeEach witness mpc dbc prevouts bundle.prefabs w

/-- **A failed inclusion** has changed no pile if and only if, for every prefab before the first one that has no
anchor, the witness was in the pile already. -/
theorem RgbWallet.include_atomic_iff {H : Hypersonic} {B : BpCore} {A : AnchorCore B} {W : Wire H B.txoSeal}
    {V : Verifier H B.txoSeal} {P : Stockpile W V} {w w' : RgbWallet P} {bundle : PrefabBundle H} {witness : B.Tx}
    {mpc : A.MerkleBlock} {dbc : Option A.TapretProof} {prevouts : List Outpoint} {e : IncludeError A}
    (h : w.include bundle witness mpc dbc prevouts = (.error (.err e), w')) :
    PilesKept w w' ↔ ∀ q ∈ bundle.prefabs.takeWhile (fun q => (anchorFor q mpc dbc prevouts).isOk),
      w.Includes witness mpc dbc prevouts q :=
  includeEach_kept_iff h

namespace Purse

/-- A bundle of both contracts, and the wallet that made it. -/
def bundled : RgbWallet dir := (wallet.bundle whole (some 2)).2

def wholeBundle : PrefabBundle refSonic := (wallet.bundle whole (some 2)).1.toOption.get rfl

/-- The bundle included with transaction 6, which commits to both contracts. -/
def included : RgbWallet dir := (bundled.include (A := refAnchors) wholeBundle 6 [id 3, id 4] none [first]).2

end Purse

/-- Included once more, with a block which has contract 3 only. -/
theorem include_again : ∃ e w', Purse.included.include (A := refAnchors) Purse.wholeBundle 6 [Purse.id 3] none
      [Purse.first] = (.error (.err e), w') ∧ RgbWallet.PilesKept Purse.included w' := by
  obtain ⟨e, w', h⟩ : ∃ e w', Purse.included.include (A := refAnchors) Purse.wholeBundle 6 [Purse.id 3] none
      [Purse.first] = (.error (.err e), w') := ⟨_, _, rfl⟩
  refine ⟨e, w', h, (RgbWallet.include_atomic_iff h).2 fun q hq => ?_⟩
  obtain rfl : q = Purse.wholeBundle.prefabs.get ⟨0, by decide⟩ := List.mem_singleton.1 hq
  exact ⟨_, _, rfl, rfl, by decide, rfl, ⟨_, rfl, Or.inl rfl⟩, rfl⟩

/-- The block has contract 3 only: its witness is recorded before contract 4 is looked at. -/
theorem include_halfway :
    ¬∀ (H : Hypersonic) (B : BpCore) (A : AnchorCore B) (W : Wire H B.txoSeal) (V : Verifier H B.txoSeal)
      (P : Stockpile W V) (w w' : RgbWallet P) (bundle : PrefabBundle H) (witness : B.Tx) (mpc : A.MerkleBlock)
      (dbc : Option A.TapretProof) prevouts (e : IncludeError A),
      w.include bundle witness mpc dbc prevouts = (.error (.err e), w') → RgbWallet.PilesKept w w' := by
  intro h
  have hk := h refSonic refBp refAnchors _ _ Purse.dir Purse.bundled _ Purse.wholeBundle 6 [Purse.id 3] none
    [Purse.first] _ rfl
    (Purse.id 3)
  have hn := congrArg (Option.map fun p : PileFs refBp.txoSeal => p.mine.length) hk
  revert hn
  decide

end RgbStd
