import RgbStd.Contract.Foreign
import RgbStd.Contract.Confirm
import RgbStd.Contract.Replace
/-!
# Operations without a witness (contract.rs:388-396, 458-516, 595-638)

`witness_status` has a default for an operation without witnesses, the best of all statuses, meant for the
genesis (pile.rs:46). `call` makes operations without witnesses, and the default stands for them as well.

| here | there |
| --- | --- |
| `ContractCall`, `handleCall` | `call`, `include` and `sync`; what a failing call leaves is a state as well |
| `lineage`   | an operation and its history |
| `Open`      | an operation of the history, other than genesis, has no witness |
| `Backed`    | an operation of the history has witnesses, none of them mined |
| `Guarded`   | whoever is open is backed |
| `Guards`    | what a call must meet to leave the contract guarded |

* `handleCall_guarded`: such a call does.
* `run_reserved`: in a run of such calls the genesis status is reserved for genesis, and nothing open is more
  trusted than the same state with all its witnesses mined.
-/
namespace RgbStd
open Tables

namespace WitnessStatus

theorem pos_of_ne_genesis {s : WitnessStatus} (h : s ≠ genesis) : 0 < s.quasiHeight.toNat :=
  Nat.pos_of_ne_zero fun hz => h (eq_genesis_of_quasiHeight hz)

theorem stored_ne_genesis {s : WitnessStatus} (h : s ≠ genesis) : s.stored ≠ genesis := by
  intro hs
  refine h (eq_genesis_of_quasiHeight ?_)
  rw [← quasiHeight_stored, hs]
  rfl

/-- Below off-chain there are the mined ones. -/
theorem lt_offchain_iff_isMined {s : WitnessStatus} (hg : s ≠ genesis) (hb : s.BelowReserved) :
    s.quasiHeight.toNat < OFFCHAIN.toNat ↔ s.isMined = true := by
  cases s with
  | genesis => exact absurd rfl hg
  | mined height => exact iff_of_true (UInt64.lt_iff_toNat_lt.1 hb) rfl
  | offchain => decide
  | tentative => decide
  | archived => decide

end WitnessStatus

/-- What the wallet asks a contract once it is issued. -/
inductive ContractCall (H : Hypersonic) (S : RgbSeal) where
  | call (params : CallParams H.StrictVal H.StateAtom H.Satisfaction) (seals : SmallMap UInt16 S.Definition)
  | included (opid : Opid) (anchor : S.Client) (published : S.Published)
  | sync (changed : List (S.WitnessId × WitnessStatus))

/-- What the ledger shows is state of its operations; a new ledger has no other than the genesis, and a call
adds one at most. Neither a call nor a reorganisation changes the history of an operation. -/
structure Hypersonic.HistoryLaws (H : Hypersonic) : Prop extends H.ArticlesLaws where
  shown_owned : ∀ l name cells, (name, cells) ∈ H.owned l → ∀ c ∈ cells,
    c.1.opid ∈ H.operations l ∨ c.1.opid = H.genesisOpid (H.articles l)
  shown_global : ∀ l name cells, (name, cells) ∈ H.global l → ∀ c ∈ cells,
    c.1.opid ∈ H.operations l ∨ c.1.opid = H.genesisOpid (H.articles l)
  new_operations : ∀ a l, H.new a = .ok l → ∀ o ∈ H.operations l, o = H.genesisOpid (H.articles l)
  call_operations : ∀ l p, ∀ o ∈ H.operations (H.call l p).2, o ∈ H.operations l ∨ (H.call l p).1 = .ok o
  call_ancestors : ∀ l p, ∀ o ∈ H.operations l, H.ancestors (H.call l p).2 o = H.ancestors l o
  rollback_operations : ∀ l ops, H.operations (H.rollback l ops).2 = H.operations l
  rollback_ancestors : ∀ l ops, H.ancestors (H.rollback l ops).2 = H.ancestors l
  forward_operations : ∀ l ops, H.operations (H.forward l ops).2 = H.operations l
  forward_ancestors : ∀ l ops, H.ancestors (H.forward l ops).2 = H.ancestors l

theorem RefLedger.opid_of_mem_owned {l : RefLedger} {name : StateName} {cells : List (CellAddr × Nat)}
    (h : (name, cells) ∈ l.owned) {c : CellAddr × Nat} (hc : c ∈ cells) : c.1.opid ∈ l.operations := by
  obtain ⟨n, -, he⟩ := List.mem_map.1 h
  cases he
  obtain ⟨⟨name, addr, v⟩, hm, rfl⟩ := List.mem_map.1 hc
  obtain ⟨op, hop, hout⟩ := List.mem_flatMap.1 (List.mem_filter.1 (List.mem_filter.1 hm).1).1
  obtain ⟨⟨out, n⟩, -, he⟩ := List.mem_map.1 hout
  cases he
  exact List.mem_map_of_mem (List.mem_reverse.1 (List.mem_filter.1 hop).1)

/-- The history of the operations there are is that in the older ones. -/
theorem RefLedger.call_cases (l : RefLedger) (p : CallParams Nat Nat Unit) :
    ((∃ e, (l.call p).1 = .error e) ∧ (l.call p).2 = l) ∨
      ∃ op : RefOperation, (l.call p).1 = .ok op.opid ∧ (l.call p).2.ops = op :: l.ops ∧ op.opid ∉ l.operations := by
  unfold RefLedger.call
  dsimp only
  split
  · rename_i h
    exact Or.inr ⟨_, rfl, rfl, fun hm => h.2.2 (List.mem_cons_of_mem _ hm)⟩
  · exact Or.inl ⟨⟨_, rfl⟩, rfl⟩

theorem refSonic_historyLaws : refSonic.HistoryLaws where
  toArticlesLaws := refSonic_articlesLaws
  shown_owned l name cells h c hc := Or.inl (RefLedger.opid_of_mem_owned h hc)
  shown_global l name cells h := (by cases h)
  new_operations a l h o ho := by
    obtain rfl := (refSonic_new_ok h).2
    exact List.mem_singleton.1 ho
  call_operations l p o ho := by
    rcases RefLedger.call_cases l p with ⟨-, he⟩ | ⟨op, hr, he, -⟩
    · exact Or.inl (he ▸ ho)
    · have ho' : o ∈ (l.call p).2.ops.map RefOperation.opid := ho
      rw [he, List.map_cons] at ho'
      rcases List.mem_cons.1 ho' with rfl | hold
      · exact Or.inr hr
      · exact Or.inl hold
  call_ancestors l p o ho := by
    show RefLedger.ancestorsIn (l.call p).2.ops o = RefLedger.ancestorsIn l.ops o
    rcases RefLedger.call_cases l p with ⟨-, he⟩ | ⟨op, -, he, hnew⟩
    · rw [he]
    · rw [he, RefLedger.ancestorsIn, if_neg fun h => hnew (by rw [h]; exact ho)]
  rollback_operations l ops := rfl
  rollback_ancestors l ops := rfl
  forward_operations l ops := rfl
  forward_ancestors l ops := rfl

namespace Contract

variable {H : Hypersonic} {S : RgbSeal}

/-- The contract after a call, whatever it returns; an `include` may panic. -/
def handleCall (c : Contract H S) : ContractCall H S → Option (Contract H S)
  | .call params seals => some (c.call params seals).2
  | .included opid anchor published => c.include opid anchor published
  | .sync changed => some (c.sync changed).2

def genesisOpid (c : Contract H S) : Opid := H.genesisOpid (H.articles c.ledger)

def lineage (c : Contract H S) (o : Opid) : List Opid := o :: H.ancestors c.ledger o

/-! ## What is reported -/

/-- An entry of the state, by its address and the status it is reported with. -/
inductive Shows (c : Contract H S) : CellAddr → WitnessStatus → Prop where
  | owned {name : StateName} {entries : List (OwnedState H S)} {e : OwnedState H S}
      (h : (name, entries) ∈ c.state.owned) (he : e ∈ entries) : Shows c e.addr e.status
  | immutable {name : StateName} {entries : List (ImmutableState H)} {e : ImmutableState H}
      (h : (name, entries) ∈ c.state.immutable) (he : e ∈ entries) : Shows c e.addr e.status

/-- No entry of an operation other than genesis has the genesis status. -/
def Reserved (c : Contract H S) : Prop :=
  ∀ addr st, c.Shows addr st → addr.opid ≠ c.genesisOpid → st ≠ .genesis

/-- The operation, or another of its history than genesis, has no witness. -/
def Open (c : Contract H S) (o : Opid) : Prop := ∃ a ∈ c.lineage o, a ≠ c.genesisOpid ∧ c.pile.opWitnessIds a = []

/-- All witnesses of the history are mined. -/
def AllMined (c : Contract H S) (o : Opid) : Prop :=
  ∀ a ∈ c.lineage o, ∀ w ∈ c.pile.opWitnessIds a, (c.pile.witnessStatus w).isMined = true

/-- What is open is not more trusted than the same state with all its witnesses mined. -/
def NotAhead (c c' : Contract H S) : Prop :=
  ∀ addr st st', c.Shows addr st → c'.Shows addr st' → addr.opid ≠ c.genesisOpid → c.Open addr.opid →
    c'.AllMined addr.opid → st.isBetter st' = false

/-! ## The condition -/

/-- One of the operations has witnesses, and none of them is mined. -/
def Backed (p : PileFs S) (ops : List Opid) : Prop :=
  ∃ a ∈ ops, p.opWitnessIds a ≠ [] ∧ ∀ w ∈ p.opWitnessIds a, (p.witnessStatus w).isMined = false

/-- The calls that keep what is open backed by witnesses that are not mined. -/
def Guards (c : Contract H S) : ContractCall H S → Prop
  -- The operation made is backed.
  | .call params _ => match H.call c.ledger params with
    | (.ok o, ledger) => Backed c.pile (o :: H.ancestors ledger o)
    | (.error _, _) => True
  -- A witness known as mined backs nothing: what stays open is backed by another operation.
  | .included opid _ published => (c.pile.witnessStatus (S.pubId published)).isMined = true →
    ∀ o ∈ H.operations c.ledger, o ≠ c.genesisOpid →
      (∃ a ∈ c.lineage o, a ≠ opid ∧ a ≠ c.genesisOpid ∧ c.pile.opWitnessIds a = []) →
      Backed c.pile ((c.lineage o).filter (· ≠ opid))
  -- No witness gets the status of genesis, and what is open stays backed.
  | .sync changed => (∀ e ∈ changed, c.pile.hasWitness e.1 = true → e.2 ≠ .genesis) ∧
    ∀ o ∈ H.operations c.ledger, o ≠ c.genesisOpid → c.Open o →
      ∃ a ∈ c.lineage o, c.pile.opWitnessIds a ≠ [] ∧
        ∀ w ∈ c.pile.opWitnessIds a, (after c.pile changed w).isMined = false

instance (c : Contract H S) (o : Opid) : Decidable (c.Open o) :=
  inferInstanceAs (Decidable (∃ a ∈ c.lineage o, a ≠ c.genesisOpid ∧ c.pile.opWitnessIds a = []))

instance (p : PileFs S) (ops : List Opid) : Decidable (Backed p ops) :=
  inferInstanceAs (Decidable (∃ a ∈ ops, p.opWitnessIds a ≠ [] ∧ ∀ w ∈ p.opWitnessIds a, _))

instance decidableGuards (c : Contract H S) : DecidablePred c.Guards
  | .call params _ => match h : H.call c.ledger params with
    | (.ok o, ledger) => decidable_of_iff (Backed c.pile (o :: H.ancestors ledger o)) (by simp [Guards, h])
    | (.error _, _) => isTrue (by simp [Guards, h])
  | .included opid _ published =>
    inferInstanceAs (Decidable ((c.pile.witnessStatus (S.pubId published)).isMined = true →
      ∀ o ∈ H.operations c.ledger, o ≠ c.genesisOpid →
        (∃ a ∈ c.lineage o, a ≠ opid ∧ a ≠ c.genesisOpid ∧ c.pile.opWitnessIds a = []) →
        Backed c.pile ((c.lineage o).filter (· ≠ opid))))
  | .sync changed =>
    inferInstanceAs (Decidable ((∀ e ∈ changed, c.pile.hasWitness e.1 = true → e.2 ≠ .genesis) ∧
      ∀ o ∈ H.operations c.ledger, o ≠ c.genesisOpid → c.Open o →
        ∃ a ∈ c.lineage o, c.pile.opWitnessIds a ≠ [] ∧ ∀ w ∈ c.pile.opWitnessIds a, _))

/-- No witness has the status of genesis, and what is open is backed. -/
structure Guarded (c : Contract H S) : Prop where
  regular : ∀ w, c.pile.witnessStatus w ≠ .genesis
  backed : ∀ o ∈ H.operations c.ledger, o ≠ c.genesisOpid → c.Open o → Backed c.pile (c.lineage o)

/-! ## A guarded contract -/

theorem addr_of_mem {c : Contract H S} {f : Opid → WitnessStatus → WitnessStatus} {cell : CellAddr × H.StrictVal}
    {e : OwnedState H S} (h : e ∈ c.entriesWith f cell) : e.addr = cell.1 := by
  unfold entriesWith at h
  split at h
  · cases h
  · split at h
    · obtain rfl := List.mem_singleton.1 h
      rfl
    · obtain ⟨wid, -, rfl⟩ := List.mem_map.1 h
      rfl

/-- An entry belongs to an operation, and has the status of its history or its own, whichever is worse. -/
theorem Shows.confirmed (hL : H.HistoryLaws) {c : Contract H S} {addr : CellAddr} {st : WitnessStatus}
    (h : c.Shows addr st) : (addr.opid ∈ H.operations c.ledger ∨ addr.opid = c.genesisOpid) ∧
      ∃ own, st = c.confirmed addr.opid own ∧
        (own = c.witnessStatus addr.opid ∨ ∃ w ∈ c.pile.opWitnessIds addr.opid, own = c.pile.witnessStatus w) := by
  cases h with
  | @owned name entries e h he =>
    rw [state_eq] at h
    obtain ⟨⟨name', cells⟩, hm, heq⟩ := List.mem_map.1 h
    cases heq
    obtain ⟨cell, hcell, hmem⟩ := List.mem_flatMap.1 he
    obtain ⟨own, hmade, hst⟩ := made_of_mem hmem
    have haddr : e.addr = cell.1 := addr_of_mem hmem
    refine ⟨haddr ▸ hL.shown_owned _ _ _ hm _ hcell, own, hst, ?_⟩
    cases hmade with
    | plain => exact Or.inl rfl
    | relative hs hsrc hw => exact Or.inr ⟨_, hw, rfl⟩
  | immutable h he =>
    rw [state_eq] at h
    obtain ⟨⟨name', cells⟩, hm, heq⟩ := List.mem_map.1 h
    cases heq
    obtain ⟨cell, hcell, rfl⟩ := List.mem_map.1 he
    exact ⟨hL.shown_global _ _ _ hm _ hcell, _, rfl, Or.inl rfl⟩

/-- What is reported is no better than any operation of the lineage. -/
theorem le_confirmed {c : Contract H S} {o a : Opid} {own : WitnessStatus}
    (hown : (c.witnessStatus o).quasiHeight.toNat ≤ own.quasiHeight.toNat) (ha : a ∈ c.lineage o) :
    (c.witnessStatus a).quasiHeight.toNat ≤ (c.confirmed o own).quasiHeight.toNat := by
  have hworst := (WitnessStatus.worst_isWorst (c.historyStatus o) own).2
  rcases List.mem_cons.1 ha with rfl | ha
  · exact hown.trans (hworst own (by simp))
  · have hle := (c.historyStatus_greatest o).2 _ (List.mem_cons_of_mem _ (List.mem_map_of_mem ha))
    exact le_trans hle (hworst _ (by simp))

theorem confirmed_cases (c : Contract H S) (o : Opid) (own : WitnessStatus) :
    c.confirmed o own = own ∨ c.confirmed o own = .genesis ∨
      ∃ a ∈ c.lineage o, c.confirmed o own = c.witnessStatus a := by
  rcases List.mem_pair.1 (WitnessStatus.worst_isWorst (c.historyStatus o) own).1 with h | h
  · rcases List.mem_cons.1 (c.historyStatus_greatest o).1 with hg | hm
    · exact Or.inr (Or.inl (h.trans hg))
    · obtain ⟨a, ha, he⟩ := List.mem_map.1 hm
      exact Or.inr (Or.inr ⟨a, List.mem_cons_of_mem _ ha, h.trans he.symm⟩)
  · exact Or.inl h

/-- The own status of an entry is no better than that of its operation. -/
theorem witnessStatus_le_own {c : Contract H S} {o : Opid} {own : WitnessStatus}
    (h : own = c.witnessStatus o ∨ ∃ w ∈ c.pile.opWitnessIds o, own = c.pile.witnessStatus w) :
    (c.witnessStatus o).quasiHeight.toNat ≤ own.quasiHeight.toNat := by
  rcases h with rfl | ⟨w, hw, rfl⟩
  · exact Nat.le_refl _
  · exact witnessStatus_le hw

/-- What is backed is reported as off-chain or worse. -/
theorem Guarded.offchain_le {c : Contract H S} (hg : c.Guarded) {o : Opid} {own : WitnessStatus}
    (hown : (c.witnessStatus o).quasiHeight.toNat ≤ own.quasiHeight.toNat) (hb : Backed c.pile (c.lineage o)) :
    WitnessStatus.OFFCHAIN.toNat ≤ (c.confirmed o own).quasiHeight.toNat := by
  obtain ⟨a, ha, hne, hun⟩ := hb
  obtain ⟨w, hw, hst⟩ := exists_witnessStatus hne
  have hlt := mt (WitnessStatus.lt_offchain_iff_isMined (hg.regular w) (c.pile.witnessStatus_belowReserved w)).1
    (by simp [hun w hw])
  have hle := le_confirmed hown ha
  rw [hst] at hle
  exact (Nat.le_of_not_lt hlt).trans hle

/-- With all witnesses mined, what is reported is better than off-chain. -/
theorem AllMined.lt_offchain {c : Contract H S} (hr : ∀ w, c.pile.witnessStatus w ≠ .genesis) {o : Opid}
    (hm : c.AllMined o) {own : WitnessStatus}
    (hown : own = c.witnessStatus o ∨ ∃ w ∈ c.pile.opWitnessIds o, own = c.pile.witnessStatus w) :
    (c.confirmed o own).quasiHeight.toNat < WitnessStatus.OFFCHAIN.toNat := by
  have hwit : ∀ a ∈ c.lineage o, ∀ w ∈ c.pile.opWitnessIds a,
      (c.pile.witnessStatus w).quasiHeight.toNat < WitnessStatus.OFFCHAIN.toNat :=
    fun a ha w hw =>
      (WitnessStatus.lt_offchain_iff_isMined (hr w) (c.pile.witnessStatus_belowReserved w)).2 (hm a ha w hw)
  have hop : ∀ a ∈ c.lineage o, (c.witnessStatus a).quasiHeight.toNat < WitnessStatus.OFFCHAIN.toNat := by
    intro a ha
    by_cases hn : c.pile.opWitnessIds a = []
    · rw [witnessStatus_of_nil hn]
      decide
    · obtain ⟨w, hw, hst⟩ := exists_witnessStatus hn
      rw [hst]
      exact hwit a ha w hw
  have hself : o ∈ c.lineage o := List.mem_cons_self
  rcases c.confirmed_cases o own with h | h | ⟨a, ha, h⟩
  · rw [h]
    rcases hown with rfl | ⟨w, hw, rfl⟩
    · exact hop o hself
    · exact hwit o hself w hw
  · rw [h]
    decide
  · rw [h]
    exact hop a ha

theorem Guarded.reserved (hL : H.HistoryLaws) {c : Contract H S} (hg : c.Guarded) : c.Reserved := by
  intro addr st h ho
  obtain ⟨hm, own, rfl, hown⟩ := h.confirmed hL
  have hle := witnessStatus_le_own hown
  have hpos : 0 < (c.confirmed addr.opid own).quasiHeight.toNat := by
    by_cases hopen : c.Open addr.opid
    · have hoff : 0 < WitnessStatus.OFFCHAIN.toNat := by decide
      exact hoff.trans_le (hg.offchain_le hle (hg.backed _ (hm.resolve_right ho) ho hopen))
    · -- The operation itself has a witness.
      have hne : c.pile.opWitnessIds addr.opid ≠ [] := fun hn => hopen ⟨_, List.mem_cons_self, ho, hn⟩
      obtain ⟨w, hw, hst⟩ := exists_witnessStatus hne
      exact ((hst ▸ WitnessStatus.pos_of_ne_genesis (hg.regular w) : 0 < (c.witnessStatus addr.opid).quasiHeight.toNat)).trans_le
        (le_confirmed hle List.mem_cons_self)
  intro hgen
  rw [hgen] at hpos
  exact absurd hpos (by decide)

theorem Guarded.notAhead (hL : H.HistoryLaws) {c c' : Contract H S} (hg : c.Guarded) (hg' : c'.Guarded) :
    c.NotAhead c' := by
  intro addr st st' h h' ho hopen hmined
  obtain ⟨hm, own, rfl, hown⟩ := h.confirmed hL
  obtain ⟨-, own', rfl, hown'⟩ := h'.confirmed hL
  have hge := hg.offchain_le (witnessStatus_le_own hown) (hg.backed _ (hm.resolve_right ho) ho hopen)
  have hlt := AllMined.lt_offchain hg'.regular hmined hown'
  rw [← Bool.not_eq_true, WitnessStatus.isBetter_iff]
  omega

/-! ## What a call keeps -/

/-- A call to the ledger, whatever becomes of it, leaves the witnesses as they are. -/
theorem call_parts (c : Contract H S) (params : CallParams H.StrictVal H.StateAtom H.Satisfaction)
    (seals : SmallMap UInt16 S.Definition) :
    (c.call params seals).2.ledger = (H.call c.ledger params).2 ∧ (c.call params seals).2.pile.index = c.pile.index ∧
      (c.call params seals).2.pile.mine = c.pile.mine := by
  unfold call
  split
  · rename_i hc
    rw [hc]
    exact ⟨rfl, rfl, rfl⟩
  · rename_i hc
    rw [hc]
    split
    · exact ⟨rfl, rfl, rfl⟩
    · rename_i hp
      obtain ⟨keep, -, rfl⟩ := PileFs.addSeals_eq hp
      exact ⟨rfl, rfl, rfl⟩

/-- A `sync`, whatever becomes of it, writes the statuses and leaves the operations as they are. -/
theorem sync_parts (hL : H.HistoryLaws) (c : Contract H S) (changed : List (S.WitnessId × WitnessStatus)) :
    H.operations (c.sync changed).2.ledger = H.operations c.ledger ∧
      H.ancestors (c.sync changed).2.ledger = H.ancestors c.ledger ∧
      H.articles (c.sync changed).2.ledger = H.articles c.ledger ∧
      (c.sync changed).2.pile.index = c.pile.index ∧
      ∀ w, (c.sync changed).2.pile.witnessStatus w = after c.pile changed w := by
  obtain ⟨p, hp, hi, -, -, hw⟩ := updateStatuses_sanitize c.pile changed
  simp only [sync, hp]
  generalize ({ c with pile := p } : Contract H S).splitOps (c.affectedOps (sanitize c.pile changed)) = s
  obtain ⟨rb, fw⟩ := s
  have ho := hL.rollback_operations c.ledger rb
  have ha := hL.rollback_ancestors c.ledger rb
  have hg := hL.rollback c.ledger rb
  simp only
  split
  · rename_i hr
    rw [hr] at ho ha hg
    exact ⟨ho, ha, hg, hi, hw⟩
  · rename_i l hr
    rw [hr] at ho ha hg
    have ho' := (hL.forward_operations l fw).trans ho
    have ha' := (hL.forward_ancestors l fw).trans ha
    have hg' := (hL.forward l fw).trans hg
    split
    · rename_i hf
      rw [hf] at ho' ha' hg'
      exact ⟨ho', ha', hg', hi, hw⟩
    · rename_i hf
      rw [hf] at ho' ha' hg'
      exact ⟨ho', ha', hg', hi, hw⟩

theorem call_guarded (hL : H.HistoryLaws) {c : Contract H S} (hg : c.Guarded)
    {params : CallParams H.StrictVal H.StateAtom H.Satisfaction} {seals : SmallMap UInt16 S.Definition}
    (hC : c.Guards (.call params seals)) : (c.call params seals).2.Guarded := by
  obtain ⟨hl, hi, hm⟩ := c.call_parts params seals
  generalize (c.call params seals).2 = c' at hl hi hm ⊢
  have hws : c'.pile.opWitnessIds = c.pile.opWitnessIds := by funext o; rw [PileFs.opWitnessIds, hi]; rfl
  have hst : c'.pile.witnessStatus = c.pile.witnessStatus := by funext w; rw [PileFs.witnessStatus, hm]; rfl
  have hgen : c'.genesisOpid = c.genesisOpid := by rw [genesisOpid, hl, hL.call]; rfl
  refine ⟨fun w => hst ▸ hg.regular w, fun o ho hne hopen => ?_⟩
  have hbacked : Backed c'.pile = Backed c.pile := by funext ops; simp only [Backed, hws, hst]
  rw [hbacked]
  rcases hL.call_operations c.ledger params o (hl ▸ ho) with hold | hnew
  · have hlin : c'.lineage o = c.lineage o := by rw [lineage, hl, hL.call_ancestors _ _ _ hold]; rfl
    rw [hlin]
    refine hg.backed o hold (hgen ▸ hne) ?_
    simpa only [Open, hlin, hgen, hws] using hopen
  · rw [lineage, hl]
    cases hc : H.call c.ledger params with
    | mk r l =>
      rw [hc] at hnew
      simp only [Guards, hc] at hC
      obtain rfl : r = .ok o := hnew
      exact hC

theorem sync_guarded (hL : H.HistoryLaws) {c : Contract H S} (hg : c.Guarded)
    {changed : List (S.WitnessId × WitnessStatus)} (hC : c.Guards (.sync changed)) : (c.sync changed).2.Guarded := by
  obtain ⟨ho, ha, har, hi, hw⟩ := c.sync_parts hL changed
  generalize (c.sync changed).2 = c' at ho ha har hi hw ⊢
  have hws : c'.pile.opWitnessIds = c.pile.opWitnessIds := by funext o; rw [PileFs.opWitnessIds, hi]; rfl
  have hgen : c'.genesisOpid = c.genesisOpid := by rw [genesisOpid, har]; rfl
  have hlin : c'.lineage = c.lineage := by funext o; rw [lineage, ha]; rfl
  refine ⟨fun w => ?_, fun o hm hne hopen => ?_⟩
  · rw [hw, after]
    cases hs : get (sanitize c.pile changed) w with
    | none => exact hg.regular w
    | some st =>
      obtain ⟨hm, hnews⟩ := mem_sanitize (get_mem hs)
      exact WitnessStatus.stored_ne_genesis (hC.1 _ hm hnews.1)
  · simp only [Open, hlin, hgen, hws] at hopen
    simp only [Backed, hlin, hws, hw]
    exact hC.2 o (ho ▸ hm) (hgen ▸ hne) hopen

/-- The witness given is tentative if it was not known, and all others keep their statuses. -/
theorem include_parts {c c' : Contract H S} {opid : Opid} {anchor : S.Client} {published : S.Published}
    (h : c.include opid anchor published = some c') : c'.ledger = c.ledger ∧
      (∀ a w, w ∈ c'.pile.opWitnessIds a ↔ w ∈ c.pile.opWitnessIds a ∨ a = opid ∧ w = S.pubId published) ∧
      ∀ w, c'.pile.witnessStatus w = c.pile.witnessStatus w ∨ c'.pile.witnessStatus w = .tentative := by
  obtain ⟨hl, -, -, hk, hold, hnew⟩ := include_pile h
  refine ⟨hl, include_witnesses h, fun w => ?_⟩
  cases hw : c.pile.hasWitness w with
  | true => exact Or.inl (hold w hw)
  | false =>
    by_cases he : w = S.pubId published
    · subst he
      exact Or.inr (hnew hw)
    · left
      have hw' : c'.pile.hasWitness w = false := by rw [hk, hw, decide_eq_false he]; rfl
      rw [PileFs.witnessStatus, PileFs.witnessStatus, PileFs.get_mine_none hw, PileFs.get_mine_none hw']

theorem include_guarded {c c' : Contract H S} (hg : c.Guarded) {opid : Opid} {anchor : S.Client}
    {published : S.Published} (hC : c.Guards (.included opid anchor published))
    (h : c.include opid anchor published = some c') : c'.Guarded := by
  obtain ⟨hl, hws, hst⟩ := include_parts h
  have hlin : c'.lineage = c.lineage := by funext o; rw [lineage, hl]; rfl
  have hgen : c'.genesisOpid = c.genesisOpid := by rw [genesisOpid, hl]; rfl
  have hsub : ∀ a w, w ∈ c.pile.opWitnessIds a → w ∈ c'.pile.opWitnessIds a := fun a w hw => (hws a w).2 (Or.inl hw)
  have hkept : ∀ a, c.pile.opWitnessIds a ≠ [] → c'.pile.opWitnessIds a ≠ [] := by
    intro a ha
    obtain ⟨w, hw⟩ := List.exists_mem_of_ne_nil _ ha
    exact List.ne_nil_of_mem (hsub a w hw)
  -- A witness that was not mined is not mined afterwards.
  have hun : ∀ w, (c.pile.witnessStatus w).isMined = false → (c'.pile.witnessStatus w).isMined = false := by
    intro w hw
    rcases hst w with he | he
    · rw [he]
      exact hw
    · rw [he]
      rfl
  refine ⟨fun w => ?_, fun o ho hne hopen => ?_⟩
  · rcases hst w with he | he
    · rw [he]
      exact hg.regular w
    · rw [he]
      decide
  obtain ⟨a, ha, hagen, hnone⟩ := hopen
  rw [hlin] at ha ⊢
  rw [hgen] at hagen hne
  rw [hl] at ho
  have hao : a ≠ opid := by
    rintro rfl
    have hmem := (hws a (S.pubId published)).2 (Or.inr ⟨rfl, rfl⟩)
    rw [hnone] at hmem
    cases hmem
  have hnone' : c.pile.opWitnessIds a = [] := by
    by_contra hsome
    exact hkept a hsome hnone
  cases hmined : (c.pile.witnessStatus (S.pubId published)).isMined with
  | true =>
    obtain ⟨b, hb, hbne, hbun⟩ := hC hmined o ho hne ⟨a, ha, hao, hagen, hnone'⟩
    obtain ⟨hb, hbo⟩ := List.mem_filter.1 hb
    refine ⟨b, hb, hkept b hbne, fun w hw => ?_⟩
    exact hun w (hbun w (((hws b w).1 hw).resolve_right fun he => by simp [he.1] at hbo))
  | false =>
    obtain ⟨b, hb, hbne, hbun⟩ := hg.backed o ho hne ⟨a, ha, hagen, hnone'⟩
    refine ⟨b, hb, hkept b hbne, fun w hw => ?_⟩
    rcases (hws b w).1 hw with hold | ⟨-, rfl⟩
    · exact hun w (hbun w hold)
    · exact hun _ hmined

/-- **A call that guards** leaves a guarded contract. -/
theorem handleCall_guarded (hL : H.HistoryLaws) {c c' : Contract H S} {call : ContractCall H S} (hg : c.Guarded)
    (hC : c.Guards call) (h : c.handleCall call = some c') : c'.Guarded := by
  cases call with
  | call params seals =>
    cases h
    exact call_guarded hL hg hC
  | included opid anchor published => exact include_guarded hg hC h
  | sync changed =>
    cases h
    exact sync_guarded hL hg hC

/-- An issued contract has no witnesses, and no operation than its genesis. -/
theorem issue_guarded (hL : H.HistoryLaws) {PileError σ : Type} {issuer : H.Issuer} {params : CreateParams H S}
    {store store' : σ} {conf : σ → H.Articles → Except H.StockError Unit × σ} {c : Contract H S}
    (h : issue issuer params store conf (.ok .new : Except PileError (PileFs S)) = (.ok c, store')) : c.Guarded := by
  obtain ⟨-, hn, -, pile, seals, hpile, -, hp⟩ := issue_makes h
  cases hpile
  obtain ⟨keep, -, hk⟩ := PileFs.addSeals_eq hp
  refine ⟨fun w => ?_, fun o ho hne => absurd (hL.new_operations _ _ hn o ho) hne⟩
  rw [hk]
  exact fun h => nomatch h

/-- **Genesis status is reserved for genesis**: in a run of calls that guard, no other operation is reported
with it in any state, and no state of an operation whose history lacks a witness is more trusted than it is in
any later state where all witnesses of that history are mined. -/
theorem run_reserved (hL : H.HistoryLaws) {PileError σ : Type} {issuer : H.Issuer} {params : CreateParams H S}
    {store store' : σ} {conf : σ → H.Articles → Except H.StockError Unit × σ} {c : Contract H S}
    (h : issue issuer params store conf (.ok .new : Except PileError (PileFs S)) = (.ok c, store'))
    {calls : List (ContractCall H S)} {states : List (Contract H S)}
    (hrun : Runs.run handleCall c calls = some states) (hC : Runs.Along handleCall Guards c calls) :
    (∀ c' ∈ c :: states, c'.Reserved) ∧ (c :: states).Pairwise NotAhead := by
  have h₀ := issue_guarded hL h
  have hall : ∀ c' ∈ c :: states, c'.Guarded := by
    refine List.forall_mem_cons.2 ⟨h₀, ?_⟩
    exact Runs.run_inv (fun _ _ _ hg hC hs => handleCall_guarded hL hg hC hs) calls c states h₀ hC hrun
  exact ⟨fun c' hc' => (hall c' hc').reserved hL,
    List.pairwise_of_forall_mem_list fun _ ha _ hb => (hall _ ha).notAhead hL (hall _ hb)⟩

end Contract

/-! ## Two transfers, and one without a witness -/

namespace Transfer

/-- The reference seal with definitions that name an output of transaction 0. -/
@[reducible] def txSeal : RgbSeal := { refSeal with toSrc := fun n => some ((0 : Nat), (n : Nat)) }

def issueParams : CreateParams refSonic txSeal :=
  { issuer := (0 : Nat), consensus := .bitcoin, testnet := true, method := "issue", name := "Test", timestamp := none
    global := [], owned := [⟨"amount", ⟨.alt (7 : Nat), (100 : Nat)⟩⟩] }

/-- The contract issued with them. -/
def start : Contract refSonic txSeal :=
  ⟨Reorg.rid, .new { Reorg.articles with genesis := { Reorg.genesis with outs := [("amount", ⟨7⟩, 100)] } },
    ((PileFs.new : PileFs txSeal).addSeals Reorg.genesis.opid [(0, (7 : Nat))]).getD .new⟩

/-- All of a cell goes to an output with a seal. -/
def pay (addr : CellAddr) (s : Nat) : ContractCall refSonic txSeal :=
  .call ⟨⟨"transfer", [], [⟨"amount", ⟨⟨s⟩, (100 : Nat)⟩⟩]⟩, [(addr, none)], []⟩
    ⟨⟨[(0, s)], List.nodup_singleton _⟩, by simp⟩

def first : Opid := ⟨256⟩

def second : Opid := ⟨512⟩

/-- The first operation is witnessed by transaction 1 before it is made, the second one after. -/
def calls : List (ContractCall refSonic txSeal) :=
  [.included first .empty (1 : Nat), pay ⟨Reorg.genesis.opid, 0⟩ 8, pay ⟨first, 0⟩ 9, .included second .empty (2 : Nat),
    .sync [((1 : Nat), .mined Reorg.height), ((2 : Nat), .mined Reorg.height)]]

theorem start_issued : Contract.issue (0, Reorg.articles) issueParams () (fun u _ => (.ok (), u))
    (.ok .new : Except Empty (PileFs txSeal)) = (.ok start, ()) := rfl

end Transfer

/-- Both operations are mined at the end. -/
theorem run_reserved_transfer : ∃ states, Runs.run Contract.handleCall Transfer.start Transfer.calls = some states ∧
    (∀ c ∈ Transfer.start :: states, c.Reserved) ∧ (Transfer.start :: states).Pairwise Contract.NotAhead := by
  obtain ⟨states, h⟩ : ∃ states, Runs.run Contract.handleCall Transfer.start Transfer.calls = some states := ⟨_, rfl⟩
  refine ⟨states, h, Contract.run_reserved refSonic_historyLaws Transfer.start_issued h ?_⟩
  decide

/-- The operation just made is reported with the genesis status. -/
theorem run_reserved_unwitnessed :
    ¬∀ (H : Hypersonic) (S : RgbSeal), H.HistoryLaws → ∀ (issuer : H.Issuer) (params : CreateParams H S)
      (conf : Unit → H.Articles → Except H.StockError Unit × Unit) (c : Contract H S),
      Contract.issue issuer params () conf (.ok .new : Except Empty (PileFs S)) = (.ok c, ()) →
      ∀ calls states, Runs.run Contract.handleCall c calls = some states →
      (∀ c' ∈ c :: states, c'.Reserved) ∧ (c :: states).Pairwise Contract.NotAhead := by
  intro h
  obtain ⟨c', hc'⟩ : ∃ c', Transfer.start.handleCall (Transfer.pay ⟨Reorg.genesis.opid, 0⟩ 8) = some c' := ⟨_, rfl⟩
  have hrun : Runs.run Contract.handleCall Transfer.start [Transfer.pay ⟨Reorg.genesis.opid, 0⟩ 8] = some [c'] := by
    rw [Runs.run, hc']
    rfl
  have hres := (h refSonic Transfer.txSeal refSonic_historyLaws _ _ _ _ Transfer.start_issued _ _ hrun).1 c' (by simp)
  cases hc'
  exact hres ⟨Transfer.first, 0⟩ .genesis
    (.owned (e := ⟨⟨Transfer.first, 0⟩, ⟨((0 : Nat), (8 : Nat)), (100 : Nat)⟩, .genesis⟩)
    List.mem_cons_self List.mem_cons_self) (by decide) rfl

end RgbStd
