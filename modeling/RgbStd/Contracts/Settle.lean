import RgbStd.Contract.Sync
import RgbStd.Stockpile.Dir
/-!
# Reorganisations of a storage (contracts.rs:298-322, contract.rs:525-593)

`Contracts::sync` hands one list of statuses to each contract listed, and ends at the first that fails.

| here | what it is |
| --- | --- |
| `Syncs`       | a contract before and after its own `sync` |
| `news`        | a `sync` of the storage that returns `Ok`, as a step |
| `Settled`     | each contract listed is consistent |
| `SameHistory` | the same operations, histories and witnesses, whatever their statuses |

* `sync_ends`: what becomes of each contract.
* `run_settled_iff`: a storage stays settled exactly if each list restores whole histories in each contract.
* `run_converge`: what is valid then depends on the last statuses only, not on the lists they came with.
-/
namespace RgbStd
open Tables

variable {H : Hypersonic} {S : RgbSeal}

/-- A contract before and after a `sync` that returns `Ok`. -/
def Contract.Syncs (changed : List (S.WitnessId × WitnessStatus)) (c c' : Contract H S) : Prop :=
  c.sync changed = (.ok (), c')

namespace Contracts

variable {W : Wire H S} {V : Verifier H S} {P : Stockpile W V}

/-! ## One `sync` -/

/-- The contracts have been synchronised, and no other is touched. -/
structure Synced (changed : List (S.WitnessId × WitnessStatus)) (ids : List ContractId) (s s' : Contracts P) :
    Prop where
  persistence : s'.persistence = s.persistence
  listed : ∀ id ∈ ids, ∃ c c', s.served id = some c ∧ s'.served id = some c' ∧ c.Syncs changed c'
  others : ∀ id ∉ ids, s'.served id = s.served id

theorem Synced.cons {changed : List (S.WitnessId × WitnessStatus)} {id : ContractId} {ids : List ContractId}
    {s : Contracts P} {c c' : Contract H S} (hid : id ∉ ids) (hc : s.served id = some c) (hsync : c.Syncs changed c')
    {s' : Contracts P} (h : Synced changed ids ({ s with contracts := upsert s.contracts id c' } : Contracts P) s') :
    Synced changed (id :: ids) s s' := by
  have hserved := s.served_upsert id c'
  refine ⟨h.persistence, List.forall_mem_cons.2 ⟨⟨c, c', hc, ?_, hsync⟩, fun id' hid' => ?_⟩, fun id' hid' => ?_⟩
  · rw [h.others id hid, hserved, if_pos rfl]
  · obtain ⟨c₁, c₁', hc₁, hc₁', hs₁⟩ := h.listed id' hid'
    have hne : id' ≠ id := fun he => hid (he ▸ hid')
    rw [hserved, if_neg hne] at hc₁
    exact ⟨c₁, c₁', hc₁, hc₁', hs₁⟩
  · rw [List.mem_cons, not_or] at hid'
    rw [h.others id' hid'.2, hserved, if_neg hid'.1]

/-- The contracts before one have been synchronised, that one failed, and no other is touched. -/
structure Stopped (changed : List (S.WitnessId × WitnessStatus))
    (e : Halt (MultiError H.AcceptError H.StockError Empty))
    (done : List ContractId) (id : ContractId) (s s' : Contracts P) : Prop where
  persistence : s'.persistence = s.persistence
  told : ∀ id' ∈ done, ∃ c c', s.served id' = some c ∧ s'.served id' = some c' ∧ c.Syncs changed c'
  failed : ∃ c c', s.served id = some c ∧ s'.served id = some c' ∧ c.sync changed = (.error e, c')
  others : ∀ id' ∉ done, id' ≠ id → s'.served id' = s.served id'

theorem Stopped.cons {changed : List (S.WitnessId × WitnessStatus)}
    {e : Halt (MultiError H.AcceptError H.StockError Empty)} {first : ContractId} {done : List ContractId}
    {id : ContractId} {s s' : Contracts P} {c c' : Contract H S} (hdone : first ∉ done) (hid : first ≠ id)
    (hc : s.served first = some c) (hsync : c.Syncs changed c')
    (h : Stopped changed e done id ({ s with contracts := upsert s.contracts first c' } : Contracts P) s') :
    Stopped changed e (first :: done) id s s' := by
  have hserved := s.served_upsert first c'
  refine ⟨h.persistence, List.forall_mem_cons.2 ⟨⟨c, c', hc, ?_, hsync⟩, fun id' hid' => ?_⟩, ?_,
    fun id' hid' hne => ?_⟩
  · rw [h.others first hdone hid, hserved, if_pos rfl]
  · obtain ⟨c₁, c₁', hc₁, hc₁', hs₁⟩ := h.told id' hid'
    have hne : id' ≠ first := fun he => hdone (he ▸ hid')
    rw [hserved, if_neg hne] at hc₁
    exact ⟨c₁, c₁', hc₁, hc₁', hs₁⟩
  · obtain ⟨c₁, c₁', hc₁, hc₁', hs₁⟩ := h.failed
    rw [hserved, if_neg hid.symm] at hc₁
    exact ⟨c₁, c₁', hc₁, hc₁', hs₁⟩
  · rw [List.mem_cons, not_or] at hid'
    rw [h.others id' hid'.2 hne, hserved, if_neg hid'.1]

/-- The contracts before one have been synchronised, and that one is not served, where the call panics. -/
structure Panics (changed : List (S.WitnessId × WitnessStatus)) (done : List ContractId) (id : ContractId)
    (s : Contracts P) : Prop where
  told : ∀ id' ∈ done, ∃ c c', s.served id' = some c ∧ c.Syncs changed c'
  missing : s.served id = none

theorem Panics.cons {changed : List (S.WitnessId × WitnessStatus)} {first : ContractId} {done : List ContractId}
    {id : ContractId} {s : Contracts P} {c c' : Contract H S} (hdone : first ∉ done) (hid : first ≠ id)
    (hc : s.served first = some c) (hsync : c.Syncs changed c')
    (h : Panics changed done id ({ s with contracts := upsert s.contracts first c' } : Contracts P)) :
    Panics changed (first :: done) id s := by
  have hserved := s.served_upsert first c'
  refine ⟨List.forall_mem_cons.2 ⟨⟨c, c', hc, hsync⟩, fun id' hid' => ?_⟩, ?_⟩
  · obtain ⟨c₁, c₁', hc₁, hs₁⟩ := h.told id' hid'
    have hne : id' ≠ first := fun he => hdone (he ▸ hid')
    rw [hserved, if_neg hne] at hc₁
    exact ⟨c₁, c₁', hc₁, hs₁⟩
  · have hmissing := h.missing
    rwa [hserved, if_neg hid.symm] at hmissing

/-- The ends of the loop over the ids. -/
inductive Ends (changed : List (S.WitnessId × WitnessStatus)) (ids : List ContractId) (s : Contracts P) :
    Option (Res (MultiError H.AcceptError H.StockError Empty) Unit × Contracts P) → Prop where
  | done {s' : Contracts P} (h : Synced changed ids s s') : Ends changed ids s (some (.ok (), s'))
  | stopped {e : Halt (MultiError H.AcceptError H.StockError Empty)} {done rest : List ContractId} {id : ContractId}
      {s' : Contracts P} (hids : ids = done ++ id :: rest) (h : Stopped changed e done id s s') :
      Ends changed ids s (some (.error e, s'))
  | panicked {done rest : List ContractId} {id : ContractId} (hids : ids = done ++ id :: rest)
      (h : Panics changed done id s) : Ends changed ids s none

/-- What the loop makes of each contract. -/
theorem syncFrom_ends (changed : List (S.WitnessId × WitnessStatus)) {ids : List ContractId} (hnd : ids.Nodup) :
    ∀ s : Contracts P, Ends changed ids s (syncFrom changed ids s) := by
  induction ids with
  | nil => exact fun _ => .done ⟨rfl, by simp, fun _ _ => rfl⟩
  | cons id ids ih =>
    intro s
    obtain ⟨hid, hnd⟩ := List.nodup_cons.1 hnd
    cases hc : s.served id with
    | none =>
      have hstep : s.withContractMut id (fun c => c.sync changed) = none := by
        unfold withContractMut
        simp only [hc]
      have hgo : syncFrom changed (id :: ids) s = none := by simp only [syncFrom, hstep]
      rw [hgo]
      have hend : Panics changed [] id s := ⟨by simp, hc⟩
      exact .panicked rfl hend
    | some c =>
      have hstep : s.withContractMut id (fun c => c.sync changed) =
          some ((c.sync changed).1, { s with contracts := upsert s.contracts id (c.sync changed).2 }) := by
        unfold withContractMut
        simp only [hc]
      cases hr : (c.sync changed).1 with
      | error e =>
        rw [hr] at hstep
        have hgo : syncFrom changed (id :: ids) s =
            some (.error e, { s with contracts := upsert s.contracts id (c.sync changed).2 }) := by
          simp only [syncFrom, hstep]
        rw [hgo]
        have hend : Stopped changed e [] id s { s with contracts := upsert s.contracts id (c.sync changed).2 } := by
          refine ⟨rfl, by simp, ?_, fun id' _ hne => ?_⟩
          · exact ⟨c, _, hc, (s.served_upsert id _ id).trans (if_pos rfl), Prod.ext hr rfl⟩
          · exact (s.served_upsert id _ id').trans (if_neg hne)
        exact .stopped rfl hend
      | ok u =>
        rw [hr] at hstep
        have hsync : c.Syncs changed (c.sync changed).2 := Prod.ext hr rfl
        have hgo : syncFrom changed (id :: ids) s =
            syncFrom changed ids { s with contracts := upsert s.contracts id (c.sync changed).2 } := by
          simp only [syncFrom, hstep]
        rw [hgo]
        have hends := ih hnd { s with contracts := upsert s.contracts id (c.sync changed).2 }
        generalize syncFrom changed ids _ = r at hends ⊢
        cases hends with
        | done h => exact .done (h.cons hid hc hsync)
        | @stopped e done rest last s' hids h =>
          subst hids
          have hne : id ≠ last := fun he => hid (he ▸ List.mem_append_right _ List.mem_cons_self)
          have hdone : id ∉ done := fun hm => hid (List.mem_append_left _ hm)
          have hend := h.cons hdone hne hc hsync
          exact .stopped rfl hend
        | @panicked done rest last hids h =>
          subst hids
          have hne : id ≠ last := fun he => hid (he ▸ List.mem_append_right _ List.mem_cons_self)
          have hdone : id ∉ done := fun hm => hid (List.mem_append_left _ hm)
          have hend := h.cons hdone hne hc hsync
          exact .panicked rfl hend

/-- **`sync` of a storage** goes through its contracts: to the end, or up to the first that fails, which keeps what
its own `sync` made of it while the contracts after it are not told, or up to the first that is not served, where it
panics. -/
theorem sync_ends (changed : List (S.WitnessId × WitnessStatus)) {s : Contracts P} (hnd : s.contractIds.Nodup) :
    Ends changed s.contractIds s (s.sync changed) :=
  syncFrom_ends changed hnd s

theorem sync_synced {changed : List (S.WitnessId × WitnessStatus)} {s s' : Contracts P} (hnd : s.contractIds.Nodup)
    (h : s.sync changed = some (.ok (), s')) : Synced changed s.contractIds s s' := by
  have hends : Ends changed s.contractIds s (s.sync changed) := syncFrom_ends changed hnd s
  rw [h] at hends
  cases hends with
  | done hs => exact hs

/-! ## Runs -/

/-- A `sync` of the storage as a step; one that does not return `Ok` ends the run. -/
def news (s : Contracts P) (changed : List (S.WitnessId × WitnessStatus)) : Option (Contracts P) :=
  match s.sync changed with
  | some (.ok (), s') => some s'
  | some (.error _, _) => none
  | none => none

theorem news_synced {changed : List (S.WitnessId × WitnessStatus)} {s s' : Contracts P} (hnd : s.contractIds.Nodup)
    (h : s.news changed = some s') : Synced changed s.contractIds s s' := by
  unfold news at h
  split at h
  · rename_i s₁ hs
    cases h
    exact sync_synced hnd hs
  · cases h
  · cases h

/-- Each contract listed is consistent. -/
def Settled (s : Contracts P) : Prop := ∀ id ∈ s.contractIds, ∀ c, s.served id = some c → c.Consistent

/-- The list restores whole histories in each contract. -/
def RestoresAll (s : Contracts P) (changed : List (S.WitnessId × WitnessStatus)) : Prop :=
  ∀ id ∈ s.contractIds, ∀ c, s.served id = some c → c.RestoresWhole changed

instance (s : Contracts P) : Decidable s.Settled :=
  inferInstanceAs (Decidable (∀ id ∈ s.contractIds, ∀ c ∈ s.served id, c.Consistent))

instance (s : Contracts P) (changed : List (S.WitnessId × WitnessStatus)) : Decidable (s.RestoresAll changed) :=
  inferInstanceAs (Decidable (∀ id ∈ s.contractIds, ∀ c ∈ s.served id, c.RestoresWhole changed))

theorem news_settled_iff (hL : H.ReorgLaws) {changed : List (S.WitnessId × WitnessStatus)}
    (hkeys : (changed.map Prod.fst).Nodup) {s s' : Contracts P} (hnd : s.contractIds.Nodup) (hs : s.Settled)
    (h : s.news changed = some s') : s'.Settled ↔ s.RestoresAll changed := by
  have hsync := news_synced hnd h
  have hids : s'.contractIds = s.contractIds := congrArg P.contractIds hsync.persistence
  unfold Settled RestoresAll
  rw [hids]
  refine forall_congr' fun id => forall_congr' fun hid => ?_
  obtain ⟨c, c', hc, hc', hone⟩ := hsync.listed id hid
  have hiff := Contract.sync_consistent_iff hL (hs id hid c hc) hkeys hone
  simp only [hc, hc', Option.some.injEq, forall_eq']
  exact hiff

/-- In a run the contracts are listed once and settled in each state exactly if every list restores whole histories. -/
theorem run_listed_iff (hL : H.ReorgLaws) {s : Contracts P} (hnd : s.contractIds.Nodup) (hs : s.Settled)
    {calls : List (List (S.WitnessId × WitnessStatus))} (hkeys : ∀ l ∈ calls, (l.map Prod.fst).Nodup)
    {states : List (Contracts P)} (h : Runs.run news s calls = some states) :
    (∀ s' ∈ states, s'.contractIds.Nodup ∧ s'.Settled) ↔ Runs.Along news RestoresAll s calls := by
  refine Runs.run_inv_iff (fun s₁ l s₂ hi hl hstep => ?_) calls s states ⟨hnd, hs⟩ hkeys h
  rw [← news_settled_iff hL hl hi.1 hi.2 hstep, contractIds, (news_synced hi.1 hstep).persistence]
  exact and_iff_right hi.1

/-- **In a run of reorganisations** each contract is consistent in each state exactly if every list restores whole
histories in each contract. -/
theorem run_settled_iff (hL : H.ReorgLaws) {s : Contracts P} (hnd : s.contractIds.Nodup) (hs : s.Settled)
    {calls : List (List (S.WitnessId × WitnessStatus))} (hkeys : ∀ l ∈ calls, (l.map Prod.fst).Nodup)
    {states : List (Contracts P)} (h : Runs.run news s calls = some states) :
    (∀ s' ∈ states, s'.Settled) ↔ Runs.Along news RestoresAll s calls := by
  have hids : ∀ s' ∈ states, s'.contractIds.Nodup := by
    refine Runs.run_inv (fun s₁ l s₂ hn _ hstep => ?_) calls s states hnd (Runs.along_true calls s) h
    rw [contractIds, (news_synced hn hstep).persistence]
    exact hn
  rw [← run_listed_iff hL hnd hs hkeys h]
  exact forall_congr' fun s' => forall_congr' fun hs' => (and_iff_right (hids s' hs')).symm

end Contracts

/-! ## Convergence -/

namespace Contract

/-- The same operations with the same histories and the same witnesses; their statuses may differ. -/
structure SameHistory (c c' : Contract H S) : Prop where
  operations : H.operations c'.ledger = H.operations c.ledger
  ancestors : H.ancestors c'.ledger = H.ancestors c.ledger
  index : c'.pile.index = c.pile.index

theorem SameHistory.refl (c : Contract H S) : c.SameHistory c := ⟨rfl, rfl, rfl⟩

theorem SameHistory.symm {c c' : Contract H S} (h : c.SameHistory c') : c'.SameHistory c :=
  ⟨h.operations.symm, h.ancestors.symm, h.index.symm⟩

theorem SameHistory.trans {c c' c'' : Contract H S} (h : c.SameHistory c') (h' : c'.SameHistory c'') :
    c.SameHistory c'' :=
  ⟨h'.operations.trans h.operations, h'.ancestors.trans h.ancestors, h'.index.trans h.index⟩

theorem Syncs.sameHistory (hL : H.ReorgLaws) {changed : List (S.WitnessId × WitnessStatus)}
    (hkeys : (changed.map Prod.fst).Nodup) {c c' : Contract H S} (h : c.Syncs changed c') : c.SameHistory c' := by
  obtain ⟨ho, ha, -⟩ := sync_isValid hL hkeys h
  obtain ⟨_, _, _, _, _, _, _, hi, _⟩ := sync_spec hkeys h
  exact ⟨ho, ha, hi⟩

/-- In consistent contracts with one history and the same statuses the same operations are valid. -/
theorem SameHistory.isValid_eq {c d : Contract H S} (h : c.SameHistory d) (hc : c.Consistent) (hd : d.Consistent)
    (hst : ∀ w, c.pile.hasWitness w = true → d.pile.witnessStatus w = c.pile.witnessStatus w) {o : Opid}
    (ho : o ∈ H.operations c.ledger) :
    H.isValid d.ledger o = H.isValid c.ledger o := by
  have hstatus : ∀ a, d.witnessStatus a = c.witnessStatus a := by
    intro a
    simp only [witnessStatus, PileFs.opWitnessIds, h.index]
    exact congrArg _ (List.map_congr_left fun w hw => hst w (PileFs.hasWitness_of_mem hw))
  have hiff : H.isValid d.ledger o = true ↔ H.isValid c.ledger o = true := by
    rw [hc o ho, hd o (h.operations ▸ ho), h.ancestors]
    simp only [hstatus]
  exact Bool.eq_iff_iff.2 hiff

end Contract

namespace Contracts

variable {W : Wire H S} {V : Verifier H S} {P Q : Stockpile W V}

/-- What a contract is in each state of a run that restores whole histories. -/
theorem run_history_kept (hL : H.ReorgLaws) {s : Contracts P} (hnd : s.contractIds.Nodup) (hs : s.Settled)
    {calls : List (List (S.WitnessId × WitnessStatus))} (hkeys : ∀ l ∈ calls, (l.map Prod.fst).Nodup)
    {states : List (Contracts P)} (h : Runs.run news s calls = some states) (hall : Runs.Along news RestoresAll s calls)
    {id : ContractId} (hid : id ∈ s.contractIds) {c : Contract H S} (hc : s.served id = some c) :
    ∀ s' ∈ states, ∃ c', s'.served id = some c' ∧ c.SameHistory c' ∧ c'.Consistent := by
  have hsettled := (run_listed_iff hL hnd hs hkeys h).2 hall
  let Kept := fun s' : Contracts P => s'.contractIds = s.contractIds ∧ ∃ c', s'.served id = some c' ∧ c.SameHistory c'
  have hstep : ∀ s₁ l s₂, Kept s₁ → (l.map Prod.fst).Nodup → s₁.news l = some s₂ → Kept s₂ := by
    rintro s₁ l s₂ ⟨hids, c₁, hc₁, hsame⟩ hl hstep
    have hsync := news_synced (hids ▸ hnd) hstep
    obtain ⟨c₁', c₂, hc₁', hc₂, hone⟩ := hsync.listed id (hids ▸ hid)
    cases hc₁.symm.trans hc₁'
    exact ⟨(congrArg P.contractIds hsync.persistence).trans hids, c₂, hc₂, hsame.trans (hone.sameHistory hL hl)⟩
  intro s' hs'
  obtain ⟨hids, c', hc', hsame⟩ := Runs.run_inv hstep calls s states ⟨rfl, c, hc, .refl c⟩
    (Runs.along_of_forall (fun _ => hkeys) s) h s' hs'
  exact ⟨c', hc', hsame, (hsettled s' hs').2 id (hids ▸ hid) c' hc'⟩

/-- **Convergence**: two storages hold a contract with one history. Whatever lists of statuses each is told, if they
restore whole histories then the same operations are valid wherever the two have the same statuses. -/
theorem run_converge (hL : H.ReorgLaws) {s : Contracts P} {t : Contracts Q} (hnd : s.contractIds.Nodup)
    (hnd' : t.contractIds.Nodup) (hs : s.Settled) (ht : t.Settled)
    {calls calls' : List (List (S.WitnessId × WitnessStatus))} (hkeys : ∀ l ∈ calls, (l.map Prod.fst).Nodup)
    (hkeys' : ∀ l ∈ calls', (l.map Prod.fst).Nodup) {states : List (Contracts P)} {states' : List (Contracts Q)}
    (h : Runs.run news s calls = some states) (h' : Runs.run news t calls' = some states')
    (hall : Runs.Along news RestoresAll s calls) (hall' : Runs.Along news RestoresAll t calls')
    {id : ContractId} (hid : id ∈ s.contractIds) (hid' : id ∈ t.contractIds) {c d : Contract H S}
    (hc : s.served id = some c) (hd : t.served id = some d) (hsame : c.SameHistory d) :
    ∀ s' ∈ states, ∀ t' ∈ states', ∃ c' d', s'.served id = some c' ∧ t'.served id = some d' ∧
      c.SameHistory c' ∧ c.SameHistory d' ∧
      ((∀ w, c'.pile.hasWitness w = true → d'.pile.witnessStatus w = c'.pile.witnessStatus w) →
        ∀ o ∈ H.operations c.ledger, H.isValid d'.ledger o = H.isValid c'.ledger o) := by
  intro s' hs' t' ht'
  obtain ⟨c', hc', hcc, hcons⟩ := run_history_kept hL hnd hs hkeys h hall hid hc s' hs'
  obtain ⟨d', hd', hdd, hcons'⟩ := run_history_kept hL hnd' ht hkeys' h' hall' hid' hd t' ht'
  refine ⟨c', d', hc', hd', hcc, hsame.trans hdd, fun hst o ho => ?_⟩
  have hboth : c'.SameHistory d' := hcc.symm.trans (hsame.trans hdd)
  exact hboth.isValid_eq hcons hcons' hst (hcc.operations ▸ ho)

end Contracts

/-! ## Two storages told in two ways -/

namespace Reorg

def twin : ContractId := ⟨Vector.replicate 32 1⟩

/-- Two contracts, both in memory. -/
def both : Contracts Stream.dir where
  contracts := [(rid, contract), (twin, { contract with contractId := twin })]
  persistence := { Stream.emptyDir with contracts := [(rid, "Test"), (twin, "Twin")] }

/-- The parent's transaction is mined at once. -/
def atOnce : List (List (Nat × WitnessStatus)) := [[(1, .mined height)]]

end Reorg

/-- Both contracts are told that the parent's transaction is archived. -/
theorem sync_both : Contracts.Ends [((1 : Nat), .archived)] Reorg.both.contractIds Reorg.both
    (Reorg.both.sync [(1, .archived)]) :=
  Contracts.sync_ends _ (by decide)

theorem run_both_settled : ∃ states, Runs.run Contracts.news Reorg.both Reorg.together = some states ∧
    ∀ s' ∈ states, s'.Settled := by
  have hs : Reorg.both.Settled := by decide
  have hkeys : ∀ l ∈ Reorg.together, (l.map Prod.fst).Nodup := by decide
  exact ⟨_, rfl, (Contracts.run_settled_iff refSonic_reorgLaws (by decide) hs hkeys rfl).2 (by decide)⟩

/-- One storage sees both transactions archived and coming back, the other sees the parent's mined at once. -/
theorem run_both_converge : ∃ states states', Runs.run Contracts.news Reorg.both Reorg.together = some states ∧
    Runs.run Contracts.news Reorg.both Reorg.atOnce = some states' ∧
    ∀ s' ∈ states, ∀ t' ∈ states', ∃ c' d', s'.served Reorg.twin = some c' ∧ t'.served Reorg.twin = some d' ∧
      ((∀ w : Nat, c'.pile.hasWitness w = true → d'.pile.witnessStatus w = c'.pile.witnessStatus w) →
        ∀ o ∈ refSonic.operations c'.ledger, refSonic.isValid d'.ledger o = refSonic.isValid c'.ledger o) := by
  have hs : Reorg.both.Settled := by decide
  have hkeys : ∀ l ∈ Reorg.together, (l.map Prod.fst).Nodup := by decide
  have hkeys' : ∀ l ∈ Reorg.atOnce, (l.map Prod.fst).Nodup := by decide
  have hall : Runs.Along Contracts.news Contracts.RestoresAll Reorg.both Reorg.together := by decide
  have hall' : Runs.Along Contracts.news Contracts.RestoresAll Reorg.both Reorg.atOnce := by decide
  have hid : Reorg.twin ∈ Reorg.both.contractIds := by decide
  refine ⟨_, _, rfl, rfl, fun s' hs' t' ht' => ?_⟩
  obtain ⟨c', d', hc, hd, hsame, -, hv⟩ := Contracts.run_converge refSonic_reorgLaws (by decide) (by decide) hs hs hkeys
    hkeys' rfl rfl hall hall' hid hid rfl rfl (.refl _) s' hs' t' ht'
  exact ⟨c', d', hc, hd, fun hst o ho => hv hst o (hsame.operations ▸ ho)⟩

end RgbStd
