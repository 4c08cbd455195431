import RgbStd.Core.Types
import RgbStd.Pile.StatusBytes
/-!
# `PileFs` (persistence/fs/src/pile.rs)

| here | there |
| --- | --- |
| `hoard`, `cache`, `keep` | `FileAoraMap`: append-only, `insertOnce` |
| `index`, `stand`         | `FileAoraIndex`: one-to-many, `push` |
| `mine`, `saved`          | `FileAuraMap` of eight bytes: updatable; `saved` is what the last commit persisted |
| `none` of an update      | the panic of the table it writes |

The fields `related` … `mined` are the relation every completed call keeps between the six
tables; with them the expecting lookups (`get_expect`) never miss.
-/
namespace RgbStd
open Tables

/-- `PileFs` (pile.rs:44), with the relation between its tables. -/
@[ext] structure PileFs (S : RgbSeal) where
  hoard : Table S.WitnessId S.Client
  cache : Table S.WitnessId S.Published
  keep : Table CellAddr S.Definition
  index : Table Opid S.WitnessId
  stand : Table S.WitnessId Opid
  mine : Table S.WitnessId StoredStatus
  saved : Table S.WitnessId StoredStatus
  related : ∀ o w, (o, w) ∈ index ↔ (w, o) ∈ stand
  hoarded : ∀ w, has hoard w = true ↔ ∃ o, (w, o) ∈ stand
  cached : ∀ w, has cache w = has hoard w
  mined : ∀ w, has mine w = has hoard w

variable {S : RgbSeal}

/-- `PileFs::seal` (pile.rs:127). -/
def PileFs.seal (p : PileFs S) (addr : CellAddr) : Option S.Definition := get p.keep addr

namespace PileFs

/-- `PileFs::new` (pile.rs:67). -/
def new : PileFs S where
  hoard := []
  cache := []
  keep := []
  index := []
  stand := []
  mine := []
  saved := []
  related := by simp
  hoarded := by simp [has]
  cached := by simp [has]
  mined := by simp [has]

def hasWitness (p : PileFs S) (w : S.WitnessId) : Bool := has p.hoard w

def pubWitness (p : PileFs S) (w : S.WitnessId) : Option S.Published := get p.cache w

def cliWitness (p : PileFs S) (w : S.WitnessId) : Option S.Client := get p.hoard w

/-- `mine.get_expect`; a witness of the pile always has an entry (`mined`). -/
def witnessStatus (p : PileFs S) (w : S.WitnessId) : WitnessStatus :=
  ((get p.mine w).map Subtype.val).getD .archived

def opWitnessIds (p : PileFs S) (o : Opid) : List S.WitnessId := all p.index o

def opsByWitnessId (p : PileFs S) (w : S.WitnessId) : List Opid := all p.stand w

/-- A witness with everything known of it (src/pile.rs:143). -/
structure Witness (S : RgbSeal) where
  id : S.WitnessId
  published : S.Published
  client : S.Client
  status : WitnessStatus
  opids : List Opid

/-- `PileFs::witnesses` (pile.rs:181). -/
def witnesses (p : PileFs S) : List (Witness S) :=
  p.hoard.filterMap fun (id, client) => (p.pubWitness id).map fun published =>
    { id, published, client, status := p.witnessStatus id, opids := p.opsByWitnessId id }

/-- `PileFs::commit_transaction` (pile.rs:179). -/
def commit (p : PileFs S) : PileFs S := { p with saved := p.mine }

/-- The status table after a first registration (`insert_only` if absent, pile.rs:156). -/
def register (mine : Table S.WitnessId StoredStatus) (w : S.WitnessId) (status : WitnessStatus) :
    Table S.WitnessId StoredStatus :=
  if has mine w then mine else mine ++ [(w, status.store)]

theorem get_register (mine : Table S.WitnessId StoredStatus) (w w' : S.WitnessId) (st : WitnessStatus) :
    get (register mine w st) w' = if w' = w then some ((get mine w).getD st.store) else get mine w' := by
  unfold register
  by_cases hh : has mine w = true
  · obtain ⟨v, hv⟩ := has_iff.1 hh
    by_cases hw : w' = w <;> simp [hh, hv, hw]
  · have hn : get mine w = none := by simpa [has] using hh
    by_cases hw : w' = w
    · subst hw; simp [hh, get_append, get_cons, hn]
    · simp [hh, get_append, get_cons, hw]

theorem has_register (mine : Table S.WitnessId StoredStatus) (w w' : S.WitnessId) (st : WitnessStatus) :
    has (register mine w st) w' = (decide (w' = w) || has mine w') := by
  by_cases hw : w' = w <;> simp [has, get_register, hw]

theorem register_extends (mine : Table S.WitnessId StoredStatus) (w : S.WitnessId) (st : WitnessStatus) :
    mine <+: register mine w st := by
  unfold register
  split
  · exact List.prefix_refl _
  · exact List.prefix_append _ _

/-- `PileFs::add_witness` (pile.rs:144-159). -/
def addWitness (p : PileFs S) (opid : Opid) (wid : S.WitnessId) (published : S.Published)
    (anchor : S.Client) (status : WitnessStatus) : Option (PileFs S) :=
  match hh : insertOnce p.hoard wid anchor, hc : insertOnce p.cache wid published with
  | some hoard, some cache => some
    { hoard, cache
      keep := p.keep
      index := push p.index opid wid
      stand := push p.stand wid opid
      mine := register p.mine wid status
      saved := p.saved
      related := fun o w => by
        simp only [mem_push, p.related, Prod.mk.injEq]
        tauto
      hoarded := fun w => by
        rw [has_insertOnce hh]
        simp only [Bool.or_eq_true, decide_eq_true_eq, p.hoarded, mem_push, Prod.mk.injEq]
        constructor
        · rintro (rfl | ⟨o, ho⟩)
          · exact ⟨opid, Or.inr ⟨rfl, rfl⟩⟩
          · exact ⟨o, Or.inl ho⟩
        · rintro ⟨o, ho | ⟨rfl, _⟩⟩
          · exact Or.inr ⟨o, ho⟩
          · exact Or.inl rfl
      cached := fun w => by rw [has_insertOnce hh, has_insertOnce hc, p.cached]
      mined := fun w => by rw [has_insertOnce hh, has_register, p.mined] }
  | _, _ => none

/-- `PileFs::add_seals` (pile.rs:161-169). -/
def addSeals (p : PileFs S) (opid : Opid) (seals : Table UInt16 S.Definition) : Option (PileFs S) :=
  (seals.foldlM (fun keep e => insertOnce keep ⟨opid, e.1⟩ e.2) p.keep).map fun keep => { p with keep }

/-- `PileFs::update_witness_status` (pile.rs:171): panics on an unknown witness. -/
def updateWitnessStatus (p : PileFs S) (wid : S.WitnessId) (status : WitnessStatus) : Option (PileFs S) :=
  if h : p.hasWitness wid = true then some
    { p with
      mine := upsert p.mine wid status.store
      mined := fun w => by
        rw [has_upsert, p.mined]
        by_cases hw : w = wid
        · subst hw
          rw [show has p.hoard w = true from h]
          simp
        · simp [hw] }
  else none

/-! ## What each call does -/

theorem mem_opWitnessIds {p : PileFs S} {o : Opid} {w : S.WitnessId} : w ∈ p.opWitnessIds o ↔ (o, w) ∈ p.index :=
  mem_all

theorem mem_opsByWitnessId {p : PileFs S} {o : Opid} {w : S.WitnessId} :
    o ∈ p.opsByWitnessId w ↔ w ∈ p.opWitnessIds o := by
  rw [mem_opWitnessIds, p.related]
  exact mem_all

theorem hasWitness_of_mem {p : PileFs S} {o : Opid} {w : S.WitnessId} (h : w ∈ p.opWitnessIds o) :
    p.hasWitness w = true :=
  (p.hoarded w).2 ⟨o, (p.related o w).1 (mem_opWitnessIds.1 h)⟩

/-- A status that is read is one that was stored. -/
@[simp] theorem stored_witnessStatus (p : PileFs S) (w : S.WitnessId) :
    (p.witnessStatus w).stored = p.witnessStatus w := by
  unfold witnessStatus
  cases get p.mine w with
  | none => exact WitnessStatus.stored_archived
  | some st => exact st.property

theorem get_mine {p : PileFs S} {w : S.WitnessId} (h : p.hasWitness w = true) :
    get p.mine w = some (p.witnessStatus w).store := by
  have hm : has p.mine w = true := (p.mined w).trans h
  obtain ⟨st, hst⟩ := has_iff.1 hm
  rw [witnessStatus, hst, Option.map_some, Option.getD_some]
  exact congrArg some (Subtype.ext st.property.symm)

theorem get_mine_none {p : PileFs S} {w : S.WitnessId} (h : p.hasWitness w = false) : get p.mine w = none :=
  has_false_iff.1 ((p.mined w).trans h)

theorem witnessStatus_belowReserved (p : PileFs S) (w : S.WitnessId) : (p.witnessStatus w).BelowReserved :=
  WitnessStatus.stored_eq_self_iff.1 (p.stored_witnessStatus w)

theorem addWitness_eq {p p' : PileFs S} {o : Opid} {w : S.WitnessId} {pub : S.Published} {a : S.Client}
    {st : WitnessStatus} (h : p.addWitness o w pub a st = some p') :
    insertOnce p.hoard w a = some p'.hoard ∧ insertOnce p.cache w pub = some p'.cache ∧
      p'.keep = p.keep ∧ p'.index = push p.index o w ∧ p'.stand = push p.stand w o ∧
      p'.mine = register p.mine w st ∧ p'.saved = p.saved := by
  unfold addWitness at h
  split at h
  · rename_i hoard cache hh hc
    cases h
    exact ⟨hh, hc, rfl, rfl, rfl, rfl, rfl⟩
  · cases h

/-- `add_witness` completes exactly if neither append-only map holds another value. -/
theorem addWitness_isSome {p : PileFs S} {o : Opid} {w : S.WitnessId} {pub : S.Published} {a : S.Client}
    {st : WitnessStatus} : (∃ p', p.addWitness o w pub a st = some p') ↔
      (∀ a', p.cliWitness w = some a' → a' = a) ∧ (∀ pub', p.pubWitness w = some pub' → pub' = pub) := by
  rw [cliWitness, pubWitness, ← insertOnce_isSome, ← insertOnce_isSome]
  constructor
  · rintro ⟨p', h⟩
    obtain ⟨h₁, h₂, _⟩ := addWitness_eq h
    exact ⟨⟨_, h₁⟩, ⟨_, h₂⟩⟩
  · rintro ⟨⟨t, ht⟩, ⟨u, hu⟩⟩
    unfold addWitness
    split
    · exact ⟨_, rfl⟩
    · rename_i hne
      exact absurd hu (hne t u ht)

theorem addSeals_eq {p p' : PileFs S} {o : Opid} {seals : Table UInt16 S.Definition}
    (h : p.addSeals o seals = some p') : ∃ keep,
      seals.foldlM (fun keep e => insertOnce keep ⟨o, e.1⟩ e.2) p.keep = some keep ∧ p' = { p with keep } := by
  obtain ⟨keep, hk, rfl⟩ := Option.map_eq_some_iff.1 h
  exact ⟨keep, hk, rfl⟩

/-- Seals are not added if there is another one under an address. -/
theorem addSeals_eq_none {p : PileFs S} {o : Opid} {seals : Table UInt16 S.Definition} (hnd : (keys seals).Nodup) :
    p.addSeals o seals = none ↔ ∃ k s s', get seals k = some s ∧ p.seal ⟨o, k⟩ = some s' ∧ s' ≠ s := by
  rw [addSeals, Option.map_eq_none_iff]
  show _ ↔ ∃ k s s', get seals k = some s ∧ get p.keep ⟨o, k⟩ = some s' ∧ s' ≠ s
  generalize p.keep = keep
  induction seals generalizing keep with
  | nil => simp
  | cons e seals ih =>
    obtain ⟨n, v⟩ := e
    simp only [keys, List.map_cons, List.nodup_cons] at hnd
    rw [List.foldlM_cons]
    cases ht : insertOnce keep ⟨o, n⟩ v with
    | none =>
      have hne : ¬∀ v', get keep ⟨o, n⟩ = some v' → v' = v := fun h => by
        obtain ⟨t, ht'⟩ := insertOnce_isSome.2 h
        rw [ht] at ht'
        cases ht'
      push Not at hne
      obtain ⟨v', hv', hne⟩ := hne
      exact ⟨fun _ => ⟨n, v, v', by rw [get_cons, if_pos rfl], hv', hne⟩, fun _ => rfl⟩
    | some t =>
      rw [Option.bind_eq_bind, Option.bind_some, ih hnd.2 t]
      refine exists_congr fun k => exists_congr fun s => exists_congr fun s' => ?_
      rw [get_insertOnce ht, get_cons]
      by_cases hk : k = n
      · subst hk
        have hsame := insertOnce_isSome.1 ⟨t, ht⟩
        have hn : get seals k = none := get_none_of_notMem hnd.1
        simp only [hn, if_true]
        constructor
        · rintro ⟨h, _⟩
          cases h
        · rintro ⟨h, hs', hne⟩
          cases h
          exact absurd (hsame s' hs') hne
      · rw [if_neg hk, if_neg fun he => hk (CellAddr.mk.inj he).2]

theorem updateWitnessStatus_eq {p : PileFs S} {w : S.WitnessId} (h : p.hasWitness w = true)
    (st : WitnessStatus) : ∃ p', p.updateWitnessStatus w st = some p' ∧ p'.index = p.index ∧
      p'.stand = p.stand ∧ p'.hoard = p.hoard ∧
      ∀ w', p'.witnessStatus w' = if w' = w then st.stored else p.witnessStatus w' := by
  refine ⟨_, dif_pos h, rfl, rfl, rfl, fun w' => ?_⟩
  simp only [witnessStatus, get_upsert]
  by_cases hw : w' = w
  · rw [if_pos hw, if_pos hw]
    rfl
  · rw [if_neg hw, if_neg hw]

end PileFs

end RgbStd
