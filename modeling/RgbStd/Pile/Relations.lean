import RgbStd.Lib.Runs
import RgbStd.Core.Reference
import RgbStd.Pile.PileFs
/-!
# Runs of a pile (persistence/fs/src/pile.rs:107-188)

`PileFs` has the relation between its tables as fields. Here the tables are by themselves, as the code
keeps them by hand, and the relation is what every run of calls from empty tables comes to.

| here | there |
| --- | --- |
| `PileTables`       | the six tables, and what the last commit saved of `mine` |
| `none` of a lookup | the panic of `get_expect` |
| `none` of a call   | the panic of a table it writes |

* `handle_tables`: the calls on the tables are those of `PileFs`, its fields left out.
* `handle_stated`: a witness has the status it was first added with, until it is given another one, each as it
  is stored.
* `run_related_iff`: the relation between the tables, over runs, and where the statuses are those given.
-/
namespace RgbStd
open Tables

/-- The tables of `PileFs` (pile.rs:44). -/
@[ext] structure PileTables (S : RgbSeal) where
  hoard : Table S.WitnessId S.Client
  cache : Table S.WitnessId S.Published
  keep : Table CellAddr S.Definition
  index : Table Opid S.WitnessId
  stand : Table S.WitnessId Opid
  mine : Table S.WitnessId StoredStatus
  saved : Table S.WitnessId StoredStatus

/-- The calls that write a pile. -/
inductive PileCall (S : RgbSeal) where
  | addWitness (opid : Opid) (wid : S.WitnessId) (published : S.Published) (anchor : S.Client) (status : WitnessStatus)
  | addSeals (opid : Opid) (seals : SmallMap UInt16 S.Definition)
  | updateWitnessStatus (wid : S.WitnessId) (status : WitnessStatus)
  | commitTransaction

variable {S : RgbSeal}

namespace PileTables

def new : PileTables S := ⟨[], [], [], [], [], [], []⟩

def pubWitness (t : PileTables S) (wid : S.WitnessId) : Option S.Published := get t.cache wid

def cliWitness (t : PileTables S) (wid : S.WitnessId) : Option S.Client := get t.hoard wid

def witnessStatus (t : PileTables S) (wid : S.WitnessId) : Option WitnessStatus :=
  (get t.mine wid).map Subtype.val

def witnessIds (t : PileTables S) : List S.WitnessId := (keys t.stand).dedup

def opWitnessIds (t : PileTables S) (opid : Opid) : List S.WitnessId := all t.index opid

def opsByWitnessId (t : PileTables S) (wid : S.WitnessId) : List Opid := all t.stand wid

/-- `PileFs::witnesses` (pile.rs:181): the status and the published half are looked up for each
entry of `hoard`. -/
def witnesses (t : PileTables S) : Option (List (PileFs.Witness S)) :=
  t.hoard.mapM fun (id, client) => do
    let published ← t.pubWitness id
    let status ← t.witnessStatus id
    return { id, published, client, status, opids := t.opsByWitnessId id }

/-- `PileFs::add_witness` (pile.rs:144-159). -/
def addWitness (t : PileTables S) (opid : Opid) (wid : S.WitnessId) (published : S.Published) (anchor : S.Client)
    (status : WitnessStatus) : Option (PileTables S) := do
  let index := push t.index opid wid
  let stand := push t.stand wid opid
  let hoard ← insertOnce t.hoard wid anchor
  let cache ← insertOnce t.cache wid published
  let mine := if has t.mine wid then t.mine else t.mine ++ [(wid, status.store)]
  return { t with index, stand, hoard, cache, mine }

/-- `PileFs::add_seals` (pile.rs:161-169). -/
def addSeals (t : PileTables S) (opid : Opid) (seals : SmallMap UInt16 S.Definition) : Option (PileTables S) :=
  (seals.entries.foldlM (fun keep e => insertOnce keep ⟨opid, e.1⟩ e.2) t.keep).map fun keep => { t with keep }

/-- `PileFs::update_witness_status` (pile.rs:171); `update_only` panics if the key is not there. -/
def updateWitnessStatus (t : PileTables S) (wid : S.WitnessId) (status : WitnessStatus) : Option (PileTables S) :=
  if has t.mine wid then some { t with mine := upsert t.mine wid status.store } else none

def handle (t : PileTables S) : PileCall S → Option (PileTables S)
  | .addWitness opid wid published anchor status => t.addWitness opid wid published anchor status
  | .addSeals opid seals => t.addSeals opid seals
  | .updateWitnessStatus wid status => t.updateWitnessStatus wid status
  | .commitTransaction => some { t with saved := t.mine }

/-! ## The relation between the tables -/

/-- The two indexes are each other's inverse, and all tables of witnesses have the same keys. -/
structure Related (t : PileTables S) : Prop where
  inverse : ∀ o w, w ∈ t.opWitnessIds o ↔ o ∈ t.opsByWitnessId w
  cached : ∀ w, w ∈ keys t.cache ↔ w ∈ keys t.hoard
  mined : ∀ w, w ∈ keys t.mine ↔ w ∈ keys t.hoard
  stood : ∀ w, w ∈ keys t.stand ↔ w ∈ keys t.hoard

/-- The lookups find what they are asked for. -/
structure Found (t : PileTables S) (w : S.WitnessId) : Prop where
  status : ∃ st, t.witnessStatus w = some st
  published : ∃ p, t.pubWitness w = some p
  client : ∃ a, t.cliWitness w = some a

/-- No lookup misses: not of a witness that an iterator returns, and not within `witnesses`. -/
structure Complete (t : PileTables S) : Prop where
  ids : ∀ w ∈ t.witnessIds, t.Found w
  ofOp : ∀ o, ∀ w ∈ t.opWitnessIds o, t.Found w
  witnesses : ∃ ws, t.witnesses = some ws ∧ ∀ x ∈ ws, t.Found x.id

theorem Related.found {t : PileTables S} (h : t.Related) {w : S.WitnessId} (hw : w ∈ keys t.hoard) : t.Found w where
  status := by
    obtain ⟨st, hst⟩ := has_iff.1 (has_iff_mem_keys.2 ((h.mined w).2 hw))
    exact ⟨st.val, by rw [witnessStatus, hst]; rfl⟩
  published := has_iff.1 (has_iff_mem_keys.2 ((h.cached w).2 hw))
  client := has_iff.1 (has_iff_mem_keys.2 hw)

/-- Where the tables are related no lookup misses. -/
theorem Related.complete {t : PileTables S} (h : t.Related) : t.Complete where
  ids w hw := h.found ((h.stood w).1 (List.mem_dedup.1 hw))
  ofOp o w hw := by
    have hs : (w, o) ∈ t.stand := mem_all.1 ((h.inverse o w).1 hw)
    exact h.found ((h.stood w).1 (List.mem_map.2 ⟨_, hs, rfl⟩))
  witnesses := by
    have hall : ∀ e ∈ t.hoard, t.Found e.1 := fun e he => h.found (List.mem_map.2 ⟨e, he, rfl⟩)
    unfold witnesses
    generalize t.hoard = hoard at hall
    induction hoard with
    | nil => exact ⟨[], rfl, by simp⟩
    | cons e hoard ih =>
      obtain ⟨id, client⟩ := e
      obtain ⟨he, hrest⟩ := List.forall_mem_cons.1 hall
      obtain ⟨ws, hws, hf⟩ := ih hrest
      obtain ⟨st, hst⟩ := he.status
      obtain ⟨p, hp⟩ := he.published
      refine ⟨⟨id, p, client, st, t.opsByWitnessId id⟩ :: ws, ?_, List.forall_mem_cons.2 ⟨he, hf⟩⟩
      rw [List.mapM_cons, hws]
      simp [hp, hst]

/-- What is related stays related. -/
def Keeps (t t' : PileTables S) : Prop :=
  ∀ o w, w ∈ t.opWitnessIds o → w ∈ t'.opWitnessIds o

end PileTables

/-! ## `PileFs` and its tables -/

namespace PileFs

def tables (p : PileFs S) : PileTables S := ⟨p.hoard, p.cache, p.keep, p.index, p.stand, p.mine, p.saved⟩

def handle (p : PileFs S) : PileCall S → Option (PileFs S)
  | .addWitness opid wid published anchor status => p.addWitness opid wid published anchor status
  | .addSeals opid seals => p.addSeals opid seals.entries
  | .updateWitnessStatus wid status => p.updateWitnessStatus wid status
  | .commitTransaction => some p.commit

theorem tables_related (p : PileFs S) : p.tables.Related where
  inverse o w := mem_opsByWitnessId.symm
  cached w := by rw [← has_iff_mem_keys, ← has_iff_mem_keys]; exact p.cached w ▸ Iff.rfl
  mined w := by rw [← has_iff_mem_keys, ← has_iff_mem_keys]; exact p.mined w ▸ Iff.rfl
  stood w := by
    rw [← has_iff_mem_keys (t := p.tables.hoard)]
    refine Iff.trans ?_ (p.hoarded w).symm
    simp [keys, tables]

theorem tables_new : (new : PileFs S).tables = .new := rfl

/-- **The calls on the tables** are those of `PileFs`. -/
theorem handle_tables (p : PileFs S) (call : PileCall S) : p.tables.handle call = (p.handle call).map tables := by
  cases call with
  | addWitness opid wid published anchor status =>
    simp only [PileTables.handle, PileTables.addWitness, handle, Option.bind_eq_bind]
    cases hp : p.addWitness opid wid published anchor status with
    | some p' =>
      obtain ⟨hh, hc, hk, hi, hs, hm, hsv⟩ := addWitness_eq hp
      have hh' : insertOnce p.tables.hoard wid anchor = some p'.hoard := hh
      have hc' : insertOnce p.tables.cache wid published = some p'.cache := hc
      rw [hh', hc']
      exact congrArg some (PileTables.ext rfl rfl hk.symm hi.symm hs.symm hm.symm hsv.symm)
    | none =>
      unfold addWitness at hp
      split at hp
      · cases hp
      · rename_i hne
        cases hh : insertOnce p.tables.hoard wid anchor with
        | none => rfl
        | some hoard =>
          cases hc : insertOnce p.tables.cache wid published with
          | none => rfl
          | some cache => exact absurd hc (hne hoard cache hh)
  | addSeals opid seals =>
    simp only [PileTables.handle, PileTables.addSeals, handle, addSeals, tables, Option.map_map]
    rfl
  | updateWitnessStatus wid status =>
    have hm : has p.mine wid = p.hasWitness wid := p.mined wid
    simp only [PileTables.handle, PileTables.updateWitnessStatus, handle, updateWitnessStatus, tables, hm]
    by_cases hk : p.hasWitness wid = true
    · rw [if_pos hk, dif_pos hk]
      rfl
    · rw [if_neg hk, dif_neg hk]
      rfl
  | commitTransaction => rfl

end PileFs

namespace PileTables

/-- Every state of a run from empty tables is the tables of a pile. -/
theorem run_tables {calls : List (PileCall S)} {states : List (PileTables S)}
    (h : Runs.run handle (new : PileTables S) calls = some states) : ∀ t ∈ states, ∃ p : PileFs S, t = p.tables := by
  have hrel : Option.Rel (List.Forall₂ fun t p => t = p.tables) (Runs.run handle (new : PileTables S) calls)
      (Runs.run PileFs.handle PileFs.new calls) :=
    Runs.run_rel (fun t p call ht => ?_) calls new PileFs.new PileFs.tables_new.symm
  · rw [h] at hrel
    rcases Runs.rel_cases hrel with ⟨hn, _⟩ | ⟨ss, ps, hss, _, hall⟩
    · cases hn
    · cases hss
      exact Runs.forall_of_rel (fun t p hp (_ : True) => ⟨p, hp⟩) hall fun _ _ => trivial
  · subst ht
    rw [PileFs.handle_tables]
    cases p.handle call with
    | none => exact .none
    | some p' => exact .some rfl

/-! ## Statuses -/

/-- A witness has the status it is first added with, until it is given another one. -/
def stated (w : S.WitnessId) (status : Option WitnessStatus) : PileCall S → Option WitnessStatus
  | .addWitness _ wid _ _ st => if wid = w then status.or (some st) else status
  | .updateWitnessStatus wid st => if wid = w then some st else status
  | .addSeals .. => status
  | .commitTransaction => status

/-- The status the calls have given to a witness, oldest call first. -/
def given (calls : List (PileCall S)) (w : S.WitnessId) : Option WitnessStatus := calls.foldl (stated w) none

/-- At no time has a witness been given a status at a height which stands for another one. -/
def GivenBelow (calls : List (PileCall S)) : Prop :=
  ∀ past, past <+: calls → ∀ w st, given past w = some st → st.BelowReserved

/-- The status a call comes with. -/
def gives : PileCall S → Option WitnessStatus
  | .addWitness _ _ _ _ st => some st
  | .updateWitnessStatus _ st => some st
  | .addSeals .. => none
  | .commitTransaction => none

theorem stated_cases {w : S.WitnessId} {status : Option WitnessStatus} {call : PileCall S} {st : WitnessStatus}
    (h : stated w status call = some st) : status = some st ∨ gives call = some st := by
  cases call with
  | addWitness opid wid published anchor st' =>
    rw [stated] at h
    split at h
    · exact (Option.or_eq_some_iff.1 h).imp_right And.right
    · exact Or.inl h
  | updateWitnessStatus wid st' =>
    rw [stated] at h
    split at h
    · exact Or.inr h
    · exact Or.inl h
  | addSeals opid seals => exact Or.inl h
  | commitTransaction => exact Or.inl h

/-- A status that was given is one that a call came with. -/
theorem exists_gives_of_given {calls : List (PileCall S)} {w : S.WitnessId} {st : WitnessStatus}
    (h : given calls w = some st) :
    ∃ call ∈ calls, gives call = some st := by
  induction calls using List.reverseRecOn with
  | nil => cases h
  | append_singleton calls call ih =>
    rw [given, List.foldl_append] at h
    rcases stated_cases h with h | h
    · obtain ⟨c, hc, hg⟩ := ih h
      exact ⟨c, List.mem_append_left _ hc, hg⟩
    · exact ⟨call, List.mem_append_right _ List.mem_cons_self, h⟩

/-- It is enough that no call comes with one at such a height. -/
theorem givenBelow_of_forall {calls : List (PileCall S)}
    (h : ∀ call ∈ calls, ∀ st, gives call = some st → st.BelowReserved) : GivenBelow calls := by
  intro past hpast w st hg
  obtain ⟨call, hc, hst⟩ := exists_gives_of_given hg
  exact h call (hpast.subset hc) st hst

/-- What is read of the status of a witness is what is stored of the one it has been given. -/
theorem handle_stated {t t' : PileTables S} {call : PileCall S} (h : t.handle call = some t') {w : S.WitnessId}
    {status : Option WitnessStatus} (ht : t.witnessStatus w = status.map WitnessStatus.stored) :
    t'.witnessStatus w = (stated w status call).map WitnessStatus.stored := by
  cases call with
  | addWitness opid wid published anchor status =>
    obtain ⟨hoard, _, h⟩ := Option.bind_eq_some_iff.1 h
    obtain ⟨cache, _, h⟩ := Option.bind_eq_some_iff.1 h
    cases h
    have hr := congrArg (Option.map Subtype.val) (PileFs.get_register t.mine wid w status)
    refine hr.trans ?_
    unfold witnessStatus at ht
    by_cases hw : wid = w
    · subst hw
      rw [if_pos rfl, stated, if_pos rfl]
      cases hg : get t.mine wid with
      | none =>
        rw [hg] at ht
        rw [Option.map_eq_none_iff.1 ht.symm]
        rfl
      | some st =>
        rw [hg] at ht
        obtain ⟨s, rfl, hs⟩ := Option.map_eq_some_iff.1 ht.symm
        exact congrArg some hs.symm
    · rw [if_neg (Ne.symm hw), stated, if_neg hw]
      exact ht
  | addSeals opid seals =>
    obtain ⟨keep, _, rfl⟩ := Option.map_eq_some_iff.1 h
    exact ht
  | updateWitnessStatus wid status =>
    simp only [handle, updateWitnessStatus] at h
    split at h
    · cases h
      unfold witnessStatus at ht ⊢
      rw [get_upsert, stated]
      by_cases hw : wid = w
      · rw [if_pos hw.symm, if_pos hw]
        rfl
      · rw [if_neg (Ne.symm hw), if_neg hw]
        exact ht
    · cases h
  | commitTransaction =>
    cases h
    exact ht

/-! ## Growth -/

theorem handle_keeps {t t' : PileTables S} {call : PileCall S} (h : t.handle call = some t') : t.Keeps t' := by
  cases call with
  | addWitness opid wid published anchor status =>
    obtain ⟨hoard, _, h⟩ := Option.bind_eq_some_iff.1 h
    obtain ⟨cache, _, h⟩ := Option.bind_eq_some_iff.1 h
    cases h
    intro o w hw
    exact mem_all.2 (mem_push.2 (Or.inl (mem_all.1 hw)))
  | addSeals opid seals =>
    obtain ⟨keep, _, rfl⟩ := Option.map_eq_some_iff.1 h
    exact fun _ _ hw => hw
  | updateWitnessStatus wid status =>
    simp only [handle, updateWitnessStatus] at h
    split at h
    · cases h
      exact fun _ _ hw => hw
    · cases h
  | commitTransaction =>
    cases h
    exact fun _ _ hw => hw

/-- In every state of a run the tables are related, so that no lookup misses. -/
theorem run_complete {calls : List (PileCall S)} {states : List (PileTables S)}
    (h : Runs.run handle (new : PileTables S) calls = some states) : ∀ t ∈ states, t.Related ∧ t.Complete := by
  intro t ht
  obtain ⟨p, rfl⟩ := run_tables h t ht
  exact ⟨p.tables_related, p.tables_related.complete⟩

/-- No state has lost a relation that an earlier one has. -/
theorem run_keeps {calls : List (PileCall S)} {states : List (PileTables S)}
    (h : Runs.run handle (new : PileTables S) calls = some states) : states.Pairwise Keeps := by
  have hall := Runs.run_pairwise (R := Keeps) (fun _ _ _ h₁ h₂ o w hw => h₂ o w (h₁ o w hw))
    (fun _ _ _ => handle_keeps) calls new states h
  exact (List.pairwise_cons.1 hall).2

/-- Every witness has the status the calls so far have given it, as it is stored. -/
theorem run_stated {calls : List (PileCall S)} {states : List (PileTables S)}
    (h : Runs.run handle (new : PileTables S) calls = some states) (n : Nat) (t : PileTables S) (hn : states[n]? = some t)
    (w : S.WitnessId) : t.witnessStatus w = (given (calls.take (n + 1)) w).map WitnessStatus.stored := by
  have hstep : ∀ past (t : PileTables S) call t', t.witnessStatus w = (given past w).map WitnessStatus.stored →
      t.handle call = some t' → t'.witnessStatus w = (given (past ++ [call]) w).map WitnessStatus.stored := by
    intro past t call t' ht hs
    rw [handle_stated hs ht, given, given, List.foldl_append]
    rfl
  exact Runs.run_history hstep calls [] new states rfl h n t hn

/-- The statuses are those given exactly if none of these is at a height which stands for another one. -/
theorem run_given_iff {calls : List (PileCall S)} {states : List (PileTables S)}
    (h : Runs.run handle (new : PileTables S) calls = some states) :
    (∀ (n : Nat) (t : PileTables S), states[n]? = some t → ∀ w, t.witnessStatus w = given (calls.take (n + 1)) w) ↔
      GivenBelow calls := by
  constructor
  · intro hall past hpast w st hg
    have hpos : past ≠ [] := by
      rintro rfl
      cases hg
    obtain ⟨n, hlen⟩ := Nat.exists_eq_add_of_lt (List.length_pos_iff.2 hpos)
    have hn : n < states.length := by
      have hle := hpast.length_le
      rw [Runs.run_length h]
      omega
    have htake : calls.take (n + 1) = past := by
      rw [List.prefix_iff_eq_take.1 hpast]
      congr 1
      omega
    have hst := (run_stated h n _ (List.getElem?_eq_getElem hn) w).symm.trans (hall n _ (List.getElem?_eq_getElem hn) w)
    rw [htake, hg] at hst
    exact WitnessStatus.stored_eq_self_iff.1 (Option.some.inj hst)
  · intro hbelow n t hn w
    rw [run_stated h n t hn w]
    cases hg : given (calls.take (n + 1)) w with
    | none => rfl
    | some st =>
      exact congrArg some (WitnessStatus.stored_eq_self_iff.2 (hbelow _ (List.take_prefix _ _) w st hg))

/-- **Runs of a pile.** In every state the tables are related, so that no lookup misses; no state has lost a
relation that an earlier one has; and every witness has the status the calls so far have given it, if and only
if none of those statuses is at a height which stands for another one. -/
theorem run_related_iff (calls : List (PileCall S)) (states : List (PileTables S))
    (h : Runs.run handle (new : PileTables S) calls = some states) :
    ((∀ t ∈ states, t.Related ∧ t.Complete) ∧
      (∀ (n : Nat) (t : PileTables S), states[n]? = some t → ∀ w, t.witnessStatus w = given (calls.take (n + 1)) w) ∧
      states.Pairwise Keeps) ↔ GivenBelow calls := by
  rw [run_given_iff h]
  exact ⟨fun hall => hall.2.1, fun hbelow => ⟨run_complete h, hbelow, run_keeps h⟩⟩

end PileTables

/-- A witness of two operations, added again with another status after an update. -/
def PileCall.again : List (PileCall refSeal) :=
  [.addWitness ⟨1⟩ (5 : Nat) (5 : Nat) .empty .tentative, .updateWitnessStatus (5 : Nat) .offchain,
    .addWitness ⟨2⟩ (5 : Nat) (5 : Nat) .empty .archived]

theorem run_related_again :
    ∃ states, Runs.run PileTables.handle (PileTables.new : PileTables refSeal) PileCall.again = some states ∧
    (∀ t ∈ states, t.Related ∧ t.Complete) ∧ ∀ n t, states[n]? = some t → ∀ w,
      t.witnessStatus w = PileTables.given (PileCall.again.take (n + 1)) w := by
  obtain ⟨states, h⟩ : ∃ states,
    Runs.run PileTables.handle (PileTables.new : PileTables refSeal) PileCall.again = some states := ⟨_, rfl⟩
  have hbelow : PileTables.GivenBelow PileCall.again := by
    refine PileTables.givenBelow_of_forall fun call hc st hst => ?_
    simp only [PileCall.again, List.mem_cons, List.not_mem_nil, or_false] at hc
    rcases hc with rfl | rfl | rfl <;> cases hst <;> trivial
  have hall := (PileTables.run_related_iff _ _ h).2 hbelow
  exact ⟨states, h, hall.1, hall.2.1⟩

/-- A witness added as mined at the height of a tentative one is read as tentative. -/
theorem run_related_misread : ¬∀ (S : RgbSeal) (calls : List (PileCall S)) (states : List (PileTables S)),
    Runs.run PileTables.handle (PileTables.new : PileTables S) calls = some states →
    (∀ t ∈ states, t.Related ∧ t.Complete) ∧
      (∀ (n : Nat) (t : PileTables S), states[n]? = some t →
        ∀ w, t.witnessStatus w = PileTables.given (calls.take (n + 1)) w) ∧
      states.Pairwise PileTables.Keeps := by
  intro h
  have hst := (h refSeal [.addWitness ⟨1⟩ (5 : Nat) (5 : Nat) .empty (.mined ⟨0xFFFFFFFFFFFFFFFE, by decide⟩)] _ rfl).2.1
    0 _ rfl (5 : Nat)
  revert hst
  decide

end RgbStd
