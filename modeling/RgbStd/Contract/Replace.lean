import RgbStd.Contract.Sync
import Mathlib.Data.List.Permutation
/-!
# A replacement witness, in every order of arrival

A transaction that carries an operation is evicted and another one carries it instead. The
contract hears of this in three calls: the new witness is included, the old one is archived, the
new one is mined. `include` does not touch the ledger, and `sync` acts on a change of validity
between its own before and after only.

* `Arrived`: the contract after some of the three calls; `Arrived.isValid_iff` is how they leave the status of an
  operation.
* `Follows`: how either `sync` makes the ledger follow these statuses.
* `replacement_iff`: the outcome is valid in every order exactly for what is `Unharmed`: nothing of its history
  is left without a valid witness in between.
-/
namespace RgbStd
open Tables

/-- The two calls by which a contract hears of transactions. -/
inductive Event (S : RgbSeal) where
  | included (opid : Opid) (anchor : S.Client) (published : S.Published)
  | synced (changed : List (S.WitnessId × WitnessStatus))

namespace Contract

variable {H : Hypersonic} {S : RgbSeal}

def handle (c : Contract H S) : Event S → Option (Contract H S)
  | .included opid anchor published => c.include opid anchor published
  | .synced changed => c.syncStep changed

def handleAll (c : Contract H S) (events : List (Event S)) : Option (Contract H S) := events.foldlM handle c

/-! ## What `include` does to a pile -/

theorem include_eq {c c' : Contract H S} {o : Opid} {anchor : S.Client} {pub : S.Published}
    (h : c.include o anchor pub = some c') : ∃ merged p,
      (match c.pile.cliWitness (S.pubId pub) with
        | some prev => if prev ≠ anchor then S.merge prev anchor else some prev
        | none => some anchor) = some merged ∧
      c.pile.addWitness o (S.pubId pub) pub merged .tentative = some p ∧ c' = { c with pile := p.commit } := by
  obtain ⟨merged, hm, h⟩ := Option.bind_eq_some_iff.1 h
  obtain ⟨p, hp, rfl⟩ := Option.map_eq_some_iff.1 h
  exact ⟨merged, p, hm, hp, rfl⟩

/-- `include` adds one witness to one operation; a status is given to a new witness only. -/
theorem include_pile {c c' : Contract H S} {o : Opid} {anchor : S.Client} {pub : S.Published}
    (h : c.include o anchor pub = some c') :
    c'.ledger = c.ledger ∧ c'.contractId = c.contractId ∧
    c'.pile.index = push c.pile.index o (S.pubId pub) ∧
    (∀ w, c'.pile.hasWitness w = (decide (w = S.pubId pub) || c.pile.hasWitness w)) ∧
    (∀ w, c.pile.hasWitness w = true → c'.pile.witnessStatus w = c.pile.witnessStatus w) ∧
    (c.pile.hasWitness (S.pubId pub) = false → c'.pile.witnessStatus (S.pubId pub) = .tentative) := by
  obtain ⟨merged, p, _, hp, rfl⟩ := include_eq h
  obtain ⟨hh, _, _, hi, _, hm, _⟩ := PileFs.addWitness_eq hp
  refine ⟨rfl, rfl, hi, fun w => has_insertOnce hh w, fun w hw => ?_, fun hn => ?_⟩
  · show ((get p.mine w).map Subtype.val).getD .archived = _
    rw [hm, PileFs.get_register]
    by_cases he : w = S.pubId pub
    · subst he
      rw [if_pos rfl, PileFs.get_mine hw]
      exact c.pile.stored_witnessStatus _
    · rw [if_neg he]
      rfl
  · show ((get p.mine _).map Subtype.val).getD .archived = _
    rw [hm, PileFs.get_register, if_pos rfl, PileFs.get_mine_none hn]
    rfl

/-- It tells of no seal. -/
theorem include_seal {c c' : Contract H S} {o : Opid} {anchor : S.Client} {pub : S.Published}
    (h : c.include o anchor pub = some c') (a : CellAddr) : c'.pile.seal a = c.pile.seal a := by
  obtain ⟨merged, p, _, hp, rfl⟩ := include_eq h
  show get p.keep a = get c.pile.keep a
  rw [(PileFs.addWitness_eq hp).2.2.1]

theorem include_witnesses {c c' : Contract H S} {opid : Opid} {anchor : S.Client} {published : S.Published}
    (h : c.include opid anchor published = some c') (o : Opid) (w : S.WitnessId) :
    w ∈ c'.pile.opWitnessIds o ↔ w ∈ c.pile.opWitnessIds o ∨ (o = opid ∧ w = S.pubId published) := by
  rw [PileFs.mem_opWitnessIds, PileFs.mem_opWitnessIds, (include_pile h).2.2.1, mem_push, Prod.mk.injEq]

/-! ## The three calls -/

section
variable (c : Contract H S) (o : Opid) (wOld wNew : S.WitnessId) (height : NonZeroU64)

/-- The status updates received so far. -/
def received (old new : Bool) : List (S.WitnessId × WitnessStatus) :=
  (if old then [(wOld, .archived)] else []) ++ (if new then [(wNew, .mined height)] else [])

/-- `c'` is the contract after the calls of which the flags tell: the inclusion of `wNew`, the
archiving of `wOld`, the mining of `wNew`. -/
structure Arrived (c' : Contract H S) (inc old new : Bool) : Prop where
  operations : H.operations c'.ledger = H.operations c.ledger
  ancestors : H.ancestors c'.ledger = H.ancestors c.ledger
  index : c'.pile.index = if inc then push c.pile.index o wNew else c.pile.index
  known : ∀ w, c'.pile.hasWitness w = ((inc && decide (w = wNew)) || c.pile.hasWitness w)
  status : ∀ w, c.pile.hasWitness w = true →
    c'.pile.witnessStatus w = listed c.pile (received wOld wNew height old new) w
  fresh : c.pile.hasWitness wNew = false → inc = true →
    c'.pile.witnessStatus wNew = if new then (WitnessStatus.mined height).stored else .tentative

/-- The best status of `a` is valid whichever of the two updates have been received. -/
def Stable (a : Opid) : Prop :=
  ∀ old new : Bool, (c.statusAfter (received wOld wNew height old new) a).isValid = true

/-! ## What an operation has for witnesses -/

/-- A valid witness besides the two, or none at all. -/
def Held (a : Opid) : Prop :=
  c.pile.opWitnessIds a = [] ∨
    ∃ w ∈ c.pile.opWitnessIds a, (w ≠ wOld ∧ w ≠ wNew) ∧ (c.pile.witnessStatus w).isValid = true

/-- The old one, valid. -/
def HeldOld (a : Opid) : Prop := wOld ∈ c.pile.opWitnessIds a ∧ (c.pile.witnessStatus wOld).isValid = true

/-- The new one, once it is included. -/
def Carries (a : Opid) : Prop := a = o ∨ wNew ∈ c.pile.opWitnessIds a

/-- The new witness is valid before it is mined: it is not known yet, or known with a valid status. -/
def Unarchived : Prop := c.pile.hasWitness wNew = true → (c.pile.witnessStatus wNew).isValid = true

/-- The new witness is read as a valid one when it is mined. -/
def Readable : Prop := (WitnessStatus.mined height).stored.isValid = true

instance (a : Opid) : Decidable (c.Stable wOld wNew height a) :=
  inferInstanceAs (Decidable
    (∀ old new : Bool, (c.statusAfter (received wOld wNew height old new) a).isValid = true))

instance (a : Opid) : Decidable (c.Held wOld wNew a) := inferInstanceAs (Decidable (_ ∨ ∃ w ∈ _, _))

instance (a : Opid) : Decidable (c.HeldOld wOld a) := inferInstanceAs (Decidable (_ ∧ _))

instance (a : Opid) : Decidable (c.Carries o wNew a) := inferInstanceAs (Decidable (_ ∨ _))

instance : Decidable (c.Unarchived wNew) := inferInstanceAs (Decidable (_ → _))

instance : Decidable (Readable height) := inferInstanceAs (Decidable (_ = _))

/-- The operation has a valid witness, or none at all, after the calls of which the flags tell. -/
def Witnessed (inc old new : Bool) (a : Opid) : Prop :=
  c.Held wOld wNew a ∨ (old = false ∧ c.HeldOld wOld a) ∨
    (((inc = true ∧ a = o) ∨ wNew ∈ c.pile.opWitnessIds a) ∧ if new then Readable height else c.Unarchived wNew)

/-- What a `sync` makes of the validity `v` of `x`, where the operations that have the property `p` before it have
the property `p'` after it. -/
def Follows (x : Opid) (v : Prop) (p p' : Opid → Prop) : Prop :=
  (v ∧ ∀ a ∈ H.ancestors c.ledger x, p a → p' a) ∨ ∃ a ∈ H.ancestors c.ledger x, ¬p a ∧ p' a

/-- `x` is valid after the three calls in each of their orders: mined last, archived last, included second. -/
def InEveryOrder (x : Opid) : Prop :=
  let v := H.isValid c.ledger x = true
  let w := c.Witnessed o wOld wNew height
  c.Follows x (c.Follows x v (w true false false) (w true true false)) (w true true false) (w true true true) ∧
  c.Follows x (c.Follows x v (w true false false) (w true false true)) (w true false true) (w true true true) ∧
  c.Follows x (c.Follows x v (w false false false) (w false true false)) (w true true false) (w true true true)

/-- The condition for it: nothing of the history has lost its last valid witness with the old transaction. Where
the new one is known as archived, it may restore what it carries. -/
def Unharmed (x : Opid) : Prop :=
  if Readable height then
    if c.Unarchived wNew then
      H.isValid c.ledger x = true ∧
        ∀ a ∈ H.ancestors c.ledger x, c.HeldOld wOld a → c.Held wOld wNew a ∨ wNew ∈ c.pile.opWitnessIds a
    else
      (H.isValid c.ledger x = true ∨
        ∃ a ∈ H.ancestors c.ledger x, c.Carries o wNew a ∧ ¬c.Held wOld wNew a ∧ ¬c.HeldOld wOld a) ∧
        ∀ a ∈ H.ancestors c.ledger x, c.HeldOld wOld a → c.Held wOld wNew a ∨ c.Carries o wNew a
  else
    H.isValid c.ledger x = true ∧ ∀ a ∈ H.ancestors c.ledger x,
      c.HeldOld wOld a ∨ (c.Unarchived wNew ∧ c.Carries o wNew a) → c.Held wOld wNew a

/-- `o`, and each operation that descends from it and has a valid witness of its own. -/
def Concerned (x : Opid) : Prop :=
  x ∈ H.operations c.ledger ∧ o ∈ H.ancestors c.ledger x ∧
    (x = o ∨ ∃ w ∈ c.pile.opWitnessIds x, (c.pile.witnessStatus w).isValid = true)

instance (x : Opid) : Decidable (c.Unharmed o wOld wNew height x) :=
  inferInstanceAs (Decidable (ite _ (ite _ (_ ∧ ∀ a ∈ _, _) ((_ ∨ ∃ a ∈ _, _) ∧ ∀ a ∈ _, _)) (_ ∧ ∀ a ∈ _, _)))

instance (x : Opid) : Decidable (c.Concerned o x) := inferInstanceAs (Decidable (_ ∧ _ ∧ (_ ∨ ∃ w ∈ _, _)))

end

section
variable {c c' c'' : Contract H S} {o : Opid} {wOld wNew : S.WitnessId} {height : NonZeroU64} {inc old new : Bool}

theorem Arrived.refl : c.Arrived o wOld wNew height c false false false where
  operations := rfl
  ancestors := rfl
  index := rfl
  known w := by simp
  status w _ := rfl
  fresh _ h := by cases h

theorem Arrived.include {anchor : S.Client} {pub : S.Published} (hw : S.pubId pub = wNew)
    (h : c.Arrived o wOld wNew height c' false old false) (hi : c'.include o anchor pub = some c'') :
    c.Arrived o wOld wNew height c'' true old false := by
  obtain ⟨hl, _, hx, hk, hs, hf⟩ := include_pile hi
  rw [hw] at hx hk hf
  exact
    { operations := by rw [hl, h.operations]
      ancestors := by rw [hl, h.ancestors]
      index := by simpa [h.index] using hx
      known := fun w => by simpa [h.known] using hk w
      status := fun w hkn => by rw [hs w (by simp [h.known, hkn]), h.status w hkn]
      fresh := fun hn _ => by simpa using hf (by simp [h.known, hn]) }

/-- A `sync` of one witness updates that witness. -/
theorem sync_single (hL : H.ReorgLaws) {w : S.WitnessId} {st : WitnessStatus}
    (h : c'.syncStep [(w, st)] = some c'') :
    H.operations c''.ledger = H.operations c'.ledger ∧ H.ancestors c''.ledger = H.ancestors c'.ledger ∧
    c''.pile.index = c'.pile.index ∧ (∀ w', c''.pile.hasWitness w' = c'.pile.hasWitness w') ∧
    ∀ w', c'.pile.hasWitness w' = true →
      c''.pile.witnessStatus w' = if w' = w then st.stored else c'.pile.witnessStatus w' := by
  have hs := syncStep_eq h
  have hnd : ([(w, st)].map Prod.fst).Nodup := by simp
  obtain ⟨hop, han, _⟩ := sync_isValid hL hnd hs
  obtain ⟨_, _, _, _, _, _, _, hi, hh, _, hst⟩ := sync_spec hnd hs
  refine ⟨hop, han, hi, fun w' => by rw [PileFs.hasWitness, hh]; rfl, fun w' hw' => ?_⟩
  rw [hst w' hw', listed, get_cons]
  split <;> simp

/-- After it the flags tell of the update, if they give each witness the status it has then. -/
theorem Arrived.single (hL : H.ReorgLaws) (h : c.Arrived o wOld wNew height c' inc old new) {w : S.WitnessId}
    {st : WitnessStatus} (hs : c'.syncStep [(w, st)] = some c'') {old' new' : Bool}
    (hstatus : ∀ w', (if w' = w then st.stored else listed c.pile (received wOld wNew height old new) w') =
      listed c.pile (received wOld wNew height old' new') w')
    (hfresh : (if wNew = w then st.stored else if new then (WitnessStatus.mined height).stored else .tentative) =
      if new' then (WitnessStatus.mined height).stored else .tentative) :
    c.Arrived o wOld wNew height c'' inc old' new' := by
  obtain ⟨hop, han, hi, hk, hst⟩ := sync_single hL hs
  exact
    { operations := hop.trans h.operations
      ancestors := han.trans h.ancestors
      index := hi.trans h.index
      known := fun w => (hk w).trans (h.known w)
      status := fun w hkn => by rw [hst w (by simp [h.known, hkn]), h.status w hkn, hstatus]
      fresh := fun hn hinc => by rw [hst wNew (by simp [h.known, hinc]), h.fresh hn hinc, hfresh] }

theorem Arrived.archive (hL : H.ReorgLaws) (hne : wNew ≠ wOld)
    (h : c.Arrived o wOld wNew height c' inc false new) (hs : c'.syncStep [(wOld, .archived)] = some c'') :
    c.Arrived o wOld wNew height c'' inc true new := by
  refine h.single hL hs (fun w => ?_) (if_neg hne)
  by_cases hw : w = wOld
  · subst hw; simp [listed, received, get_cons]
  · simp [listed, received, get_cons, hw]

theorem Arrived.mine (hL : H.ReorgLaws) (hne : wNew ≠ wOld)
    (h : c.Arrived o wOld wNew height c' true old false) (hs : c'.syncStep [(wNew, .mined height)] = some c'') :
    c.Arrived o wOld wNew height c'' true old true := by
  refine h.single hL hs (fun w => ?_) (if_pos rfl)
  by_cases hw : w = wNew
  · subst hw; cases old <;> simp [listed, received, get_cons, hne]
  · cases old <;> simp [listed, received, get_cons, hw]

/-! ## Statuses on the way -/

theorem Arrived.mem_opWitnessIds (h : c.Arrived o wOld wNew height c' inc old new) {a : Opid} {w : S.WitnessId} :
    w ∈ c'.pile.opWitnessIds a ↔ w ∈ c.pile.opWitnessIds a ∨ (inc = true ∧ a = o) ∧ w = wNew := by
  rw [PileFs.mem_opWitnessIds, PileFs.mem_opWitnessIds, h.index]
  cases inc
  · simp
  · simp [mem_push]

/-- A witness other than the two has its status all the while. -/
theorem Arrived.status_other (h : c.Arrived o wOld wNew height c' inc old new) {w : S.WitnessId}
    (hk : c.pile.hasWitness w = true) (ho : w ≠ wOld) (hn : w ≠ wNew) :
    c'.pile.witnessStatus w = c.pile.witnessStatus w := by
  rw [h.status w hk]
  cases old <;> cases new <;> simp [listed, received, get_cons, ho, hn]

/-- The old one is archived by its `sync`. -/
theorem Arrived.isValid_old (h : c.Arrived o wOld wNew height c' inc old new) (hne : wNew ≠ wOld)
    (hk : c.pile.hasWitness wOld = true) : (c'.pile.witnessStatus wOld).isValid = true ↔
      old = false ∧ (c.pile.witnessStatus wOld).isValid = true := by
  rw [h.status wOld hk]
  cases old <;> cases new <;> simp [listed, received, get_cons, Ne.symm hne, WitnessStatus.isValid]

/-- The new one is mined by its `sync`. -/
theorem Arrived.isValid_new (h : c.Arrived o wOld wNew height c' inc old new) (hne : wNew ≠ wOld)
    (hk : inc = true ∨ c.pile.hasWitness wNew = true) :
    (c'.pile.witnessStatus wNew).isValid = true ↔ if new then Readable height else c.Unarchived wNew := by
  cases hkn : c.pile.hasWitness wNew with
  | true =>
    rw [h.status wNew hkn]
    cases old <;> cases new <;> simp [listed, received, get_cons, hne, Readable, Unarchived, hkn]
  | false =>
    have hinc : inc = true := hk.resolve_right (by simp [hkn])
    rw [h.fresh hkn hinc]
    cases new <;> simp [Readable, Unarchived, hkn, WitnessStatus.isValid]

/-- **The status of an operation** after the calls of which the flags tell. -/
theorem Arrived.isValid_iff (h : c.Arrived o wOld wNew height c' inc old new) (hne : wNew ≠ wOld)
    (hold : wOld ∈ c.pile.opWitnessIds o) (a : Opid) :
    (c'.witnessStatus a).isValid = true ↔ c.Witnessed o wOld wNew height inc old new a := by
  have hnil : c'.pile.opWitnessIds a = [] ↔ c.pile.opWitnessIds a = [] := by
    simp only [List.eq_nil_iff_forall_not_mem, h.mem_opWitnessIds]
    constructor
    · exact fun hn w hw => hn w (Or.inl hw)
    · rintro hn w (hw | ⟨⟨-, rfl⟩, -⟩)
      · exact hn w hw
      · exact hn wOld hold
  rw [Contract.witnessStatus, WitnessStatus.isValid_bestOf_map_iff fun w _ => c'.pile.stored_witnessStatus w, hnil]
  simp only [h.mem_opWitnessIds, Witnessed, Held, HeldOld]
  constructor
  · rintro (hn | ⟨w, hw, hv⟩)
    · exact Or.inl (Or.inl hn)
    · by_cases hwn : w = wNew
      · subst hwn
        have hk : inc = true ∨ c.pile.hasWitness w = true :=
          hw.elim (fun hw => Or.inr (PileFs.hasWitness_of_mem hw)) fun hw => Or.inl hw.1.1
        exact Or.inr (Or.inr ⟨hw.symm.imp_left And.left, (h.isValid_new hne hk).1 hv⟩)
      · have hw' := hw.resolve_right fun hw => hwn hw.2
        have hk := PileFs.hasWitness_of_mem hw'
        by_cases hwo : w = wOld
        · subst hwo
          obtain ⟨ho, hv⟩ := (h.isValid_old hne hk).1 hv
          exact Or.inr (Or.inl ⟨ho, hw', hv⟩)
        · exact Or.inl (Or.inr ⟨w, hw', ⟨hwo, hwn⟩, h.status_other hk hwo hwn ▸ hv⟩)
  · rintro ((hn | ⟨w, hw, ⟨hwo, hwn⟩, hv⟩) | ⟨ho, hw, hv⟩ | ⟨hw, hv⟩)
    · exact Or.inl hn
    · exact Or.inr ⟨w, Or.inl hw, (h.status_other (PileFs.hasWitness_of_mem hw) hwo hwn).symm ▸ hv⟩
    · exact Or.inr ⟨wOld, Or.inl hw, (h.isValid_old hne (PileFs.hasWitness_of_mem hw)).2 ⟨ho, hv⟩⟩
    · have hk : inc = true ∨ c.pile.hasWitness wNew = true :=
        hw.elim (fun hw => Or.inl hw.1) fun hw => Or.inr (PileFs.hasWitness_of_mem hw)
      exact Or.inr ⟨wNew, hw.symm.imp_right fun hw => ⟨hw, rfl⟩, (h.isValid_new hne hk).2 hv⟩

/-- A `sync` makes an operation follow its history. -/
theorem Arrived.follows (hL : H.ReorgLaws) (hne : wNew ≠ wOld) (hold : wOld ∈ c.pile.opWitnessIds o)
    (h : c.Arrived o wOld wNew height c' inc old new) {inc' old' new' : Bool}
    (h' : c.Arrived o wOld wNew height c'' inc' old' new') {e : S.WitnessId × WitnessStatus}
    (hs : c'.syncStep [e] = some c'') {x : Opid} (hx : x ∈ H.operations c.ledger) : H.isValid c''.ledger x = true ↔
      c.Follows x (H.isValid c'.ledger x = true) (c.Witnessed o wOld wNew height inc old new)
        (c.Witnessed o wOld wNew height inc' old' new') := by
  rw [sync_isValid_iff hL (by simp) (syncStep_eq hs) (h.operations ▸ hx), h.ancestors]
  simp only [Follows, ← h.isValid_iff hne hold, ← h'.isValid_iff hne hold, Bool.not_eq_true]

end

/-! ## The orders -/

section
variable (c : Contract H S) (o : Opid) (wOld wNew : S.WitnessId) (height : NonZeroU64)
  (anchor : S.Client) (pub : S.Published)

/-- The three calls in the order of the tests. -/
def replacement : List (Event S) :=
  [.included o anchor pub, .synced [(wOld, .archived)], .synced [(wNew, .mined height)]]

/-- An order of the three calls in which the new witness is included before it is mined. -/
def Legal (order : List (Event S)) : Prop :=
  order.Perm (replacement o wOld wNew height anchor pub) ∧
    [.included o anchor pub, .synced [(wNew, .mined height)]].Sublist order

end

section
variable {c : Contract H S} {o : Opid} {wOld wNew : S.WitnessId} {height : NonZeroU64}
  {anchor : S.Client} {pub : S.Published}

theorem legal_cases (hne : wNew ≠ wOld) {order : List (Event S)}
    (h : Legal o wOld wNew height anchor pub order) :
    order = [.included o anchor pub, .synced [(wOld, .archived)], .synced [(wNew, .mined height)]] ∨
    order = [.included o anchor pub, .synced [(wNew, .mined height)], .synced [(wOld, .archived)]] ∨
    order = [.synced [(wOld, .archived)], .included o anchor pub, .synced [(wNew, .mined height)]] := by
  obtain ⟨hp, hs⟩ := h
  rw [← List.mem_permutations', replacement] at hp
  simp only [List.permutations', List.permutations'Aux, List.flatMap_cons, List.flatMap_nil, List.append_nil,
    List.map_cons, List.map_nil, List.cons_append, List.nil_append, List.mem_cons, List.not_mem_nil, or_false] at hp
  rcases hp with rfl | rfl | rfl | rfl | rfl | rfl
  all_goals simp [List.cons_sublist_cons', hne] at hs ⊢

theorem handleAll_three {e₁ e₂ e₃ : Event S} {c' : Contract H S} (h : c.handleAll [e₁, e₂, e₃] = some c') :
    ∃ c₁ c₂, c.handle e₁ = some c₁ ∧ c₁.handle e₂ = some c₂ ∧ c₂.handle e₃ = some c' := by
  simpa [handleAll, List.foldlM_cons, Option.bind_eq_some_iff] using h

/-! ## The outcome -/

/-- Where nothing is restored, what is lost decides. -/
theorem follows_of_lost {x : Opid} {v : Prop} {p p' : Opid → Prop} (h : ∀ a, p' a → p a) :
    c.Follows x v p p' ↔ v ∧ ∀ a ∈ H.ancestors c.ledger x, p a → p' a :=
  or_iff_left fun ⟨a, _, hp, hp'⟩ => hp (h a hp')

/-- Where nothing is lost, what is restored does. -/
theorem follows_of_restored {x : Opid} {v : Prop} {p p' : Opid → Prop} (h : ∀ a, p a → p' a) :
    c.Follows x v p p' ↔ v ∨ ∃ a ∈ H.ancestors c.ledger x, ¬p a ∧ p' a :=
  or_congr_left (and_iff_left fun a _ => h a)

/-- Archiving restores nothing. -/
theorem Witnessed.of_archived {inc new : Bool} {a : Opid} (h : c.Witnessed o wOld wNew height inc true new a) :
    c.Witnessed o wOld wNew height inc false new a :=
  h.imp_right fun h => Or.inr (h.resolve_left (fun h => nomatch h.1))

/-- A new witness that counts as valid already restores nothing: it closes no gap that a `sync` sees. -/
theorem inEveryOrder_of_unarchived {x : Opid} (hr : Readable height) (hu : c.Unarchived wNew) :
    c.InEveryOrder o wOld wNew height x ↔ H.isValid c.ledger x = true ∧
      ∀ a ∈ H.ancestors c.ledger x, c.HeldOld wOld a → c.Held wOld wNew a ∨ wNew ∈ c.pile.opWitnessIds a := by
  have hmine : ∀ old, c.Witnessed o wOld wNew height true old true = c.Witnessed o wOld wNew height true old false := by
    intro old
    funext a
    simp only [Witnessed, hr, hu, ite_self]
  -- The inclusion makes up for the old one at `o`, but the first order to reach the ledger does not know of it.
  have hfirst : ∀ a, (c.Witnessed o wOld wNew height false false false a →
      c.Witnessed o wOld wNew height false true false a) ↔
      (c.HeldOld wOld a → c.Held wOld wNew a ∨ wNew ∈ c.pile.opWitnessIds a) := by
    intro a
    simp only [Witnessed, hu]
    grind
  have hlater : ∀ a, (c.HeldOld wOld a → c.Held wOld wNew a ∨ wNew ∈ c.pile.opWitnessIds a) →
      c.Witnessed o wOld wNew height true false false a → c.Witnessed o wOld wNew height true true false a := by
    intro a h
    simp only [Witnessed, hu]
    grind
  simp only [InEveryOrder, hmine, follows_of_lost fun a => Witnessed.of_archived, follows_of_lost fun _ => id, hfirst]
  constructor
  · exact fun h => h.2.2.1
  · intro h
    have hkept := fun a ha => hlater a (h.2 a ha)
    exact ⟨⟨⟨h.1, hkept⟩, fun _ _ => id⟩, ⟨⟨h.1, fun _ _ => id⟩, hkept⟩, h, fun _ _ => id⟩

/-- One that is known as archived restores what it carries. -/
theorem inEveryOrder_of_archived {x : Opid} (hr : Readable height) (hu : ¬c.Unarchived wNew) :
    c.InEveryOrder o wOld wNew height x ↔
      (H.isValid c.ledger x = true ∨
        ∃ a ∈ H.ancestors c.ledger x, c.Carries o wNew a ∧ ¬c.Held wOld wNew a ∧ ¬c.HeldOld wOld a) ∧
      ∀ a ∈ H.ancestors c.ledger x, c.HeldOld wOld a → c.Held wOld wNew a ∨ c.Carries o wNew a := by
  have hbefore : ∀ inc old a, c.Witnessed o wOld wNew height inc old false a ↔
      c.Held wOld wNew a ∨ old = false ∧ c.HeldOld wOld a := by
    intro inc old a
    simp [Witnessed, hu]
  have hafter : ∀ old a, c.Witnessed o wOld wNew height true old true a ↔
      c.Held wOld wNew a ∨ (old = false ∧ c.HeldOld wOld a) ∨ c.Carries o wNew a := by
    intro old a
    simp [Witnessed, hr, Carries]
  have hmine : ∀ inc old a, c.Witnessed o wOld wNew height inc old false a →
      c.Witnessed o wOld wNew height true old true a := by
    intro inc old a h
    rw [hafter]
    exact ((hbefore inc old a).1 h).imp_right Or.inl
  simp only [InEveryOrder, follows_of_lost fun a => Witnessed.of_archived, follows_of_restored fun a => hmine _ _ a,
    hbefore, hafter, true_and, Bool.true_eq_false, false_and, or_false, false_or, not_or]
  -- Archived first, what the new one carries alone is lost and comes back with its descendants.
  have hcomes : (H.isValid c.ledger x = true ∨
        ∃ a ∈ H.ancestors c.ledger x, c.Carries o wNew a ∧ ¬c.Held wOld wNew a ∧ ¬c.HeldOld wOld a) →
      (∀ a ∈ H.ancestors c.ledger x, c.HeldOld wOld a → c.Held wOld wNew a ∨ c.Carries o wNew a) →
      (H.isValid c.ledger x = true ∧ ∀ a ∈ H.ancestors c.ledger x, c.HeldOld wOld a → c.Held wOld wNew a) ∨
        ∃ a ∈ H.ancestors c.ledger x, ¬c.Held wOld wNew a ∧ c.Carries o wNew a := by
    rintro (hv | ⟨a, ha, hc, hn, -⟩) hall
    · by_cases hheld : ∀ a ∈ H.ancestors c.ledger x, c.HeldOld wOld a → c.Held wOld wNew a
      · exact Or.inl ⟨hv, hheld⟩
      · push Not at hheld
        obtain ⟨a, ha, ho, hn⟩ := hheld
        exact Or.inr ⟨a, ha, hn, (hall a ha ho).resolve_left hn⟩
    · exact Or.inr ⟨a, ha, hn, hc⟩
  grind

/-- One that is archived by its own `sync` holds nothing in the end. -/
theorem inEveryOrder_of_not_readable {x : Opid} (hr : ¬Readable height) : c.InEveryOrder o wOld wNew height x ↔
    H.isValid c.ledger x = true ∧ ∀ a ∈ H.ancestors c.ledger x,
      c.HeldOld wOld a ∨ (c.Unarchived wNew ∧ c.Carries o wNew a) → c.Held wOld wNew a := by
  have hafter : ∀ inc old a, c.Witnessed o wOld wNew height inc old true a ↔
      c.Held wOld wNew a ∨ old = false ∧ c.HeldOld wOld a := by
    intro inc old a
    simp [Witnessed, hr]
  have hmine : ∀ inc old a, c.Witnessed o wOld wNew height inc old true a →
      c.Witnessed o wOld wNew height inc old false a := by
    intro inc old a h
    exact ((hafter inc old a).1 h).imp_right Or.inl
  simp only [InEveryOrder, follows_of_lost fun a => Witnessed.of_archived, follows_of_lost fun a => hmine _ _ a]
  simp only [Witnessed, Carries, hr, true_and, Bool.true_eq_false, Bool.false_eq_true, false_and, and_false, false_or,
    or_false, or_self, ↓reduceIte]
  grind

theorem inEveryOrder_iff {x : Opid} :
    c.InEveryOrder o wOld wNew height x ↔ c.Unharmed o wOld wNew height x := by
  unfold Unharmed
  split_ifs with hr hu
  · exact inEveryOrder_of_unarchived hr hu
  · exact inEveryOrder_of_archived hr hu
  · exact inEveryOrder_of_not_readable hr

section
variable (hL : H.ReorgLaws) (hne : S.pubId pub ≠ wOld) (hold : wOld ∈ c.pile.opWitnessIds o) {x : Opid}
  (hx : x ∈ H.operations c.ledger)
include hL hne hold hx

/-- Included, archived, mined. -/
theorem isValid_include_archive_mine {c' : Contract H S}
    (h : c.handleAll [.included o anchor pub, .synced [(wOld, .archived)], .synced [(S.pubId pub, .mined height)]]
      = some c') : H.isValid c'.ledger x = true ↔
    let w := c.Witnessed o wOld (S.pubId pub) height
    c.Follows x (c.Follows x (H.isValid c.ledger x = true) (w true false false) (w true true false))
      (w true true false) (w true true true) := by
  obtain ⟨c₁, c₂, h₁, h₂, h₃⟩ := handleAll_three h
  have a₀ : c.Arrived o wOld (S.pubId pub) height c false false false := .refl
  have a₁ := a₀.include rfl h₁
  have a₂ := a₁.archive hL hne h₂
  have a₃ := a₂.mine hL hne h₃
  rw [a₂.follows hL hne hold a₃ h₃ hx, a₁.follows hL hne hold a₂ h₂ hx, (include_pile h₁).1]

/-- Included, mined, archived. -/
theorem isValid_include_mine_archive {c' : Contract H S}
    (h : c.handleAll [.included o anchor pub, .synced [(S.pubId pub, .mined height)], .synced [(wOld, .archived)]]
      = some c') : H.isValid c'.ledger x = true ↔
    let w := c.Witnessed o wOld (S.pubId pub) height
    c.Follows x (c.Follows x (H.isValid c.ledger x = true) (w true false false) (w true false true))
      (w true false true) (w true true true) := by
  obtain ⟨c₁, c₂, h₁, h₂, h₃⟩ := handleAll_three h
  have a₀ : c.Arrived o wOld (S.pubId pub) height c false false false := .refl
  have a₁ := a₀.include rfl h₁
  have a₂ := a₁.mine hL hne h₂
  have a₃ := a₂.archive hL hne h₃
  rw [a₂.follows hL hne hold a₃ h₃ hx, a₁.follows hL hne hold a₂ h₂ hx, (include_pile h₁).1]

/-- Archived, included, mined: the last call compares with the statuses that the inclusion has changed. -/
theorem isValid_archive_include_mine {c' : Contract H S}
    (h : c.handleAll [.synced [(wOld, .archived)], .included o anchor pub, .synced [(S.pubId pub, .mined height)]]
      = some c') : H.isValid c'.ledger x = true ↔
    let w := c.Witnessed o wOld (S.pubId pub) height
    c.Follows x (c.Follows x (H.isValid c.ledger x = true) (w false false false) (w false true false))
      (w true true false) (w true true true) := by
  obtain ⟨c₁, c₂, h₁, h₂, h₃⟩ := handleAll_three h
  have a₀ : c.Arrived o wOld (S.pubId pub) height c false false false := .refl
  have a₁ := a₀.archive hL hne h₁
  have a₂ := a₁.include rfl h₂
  have a₃ := a₂.mine hL hne h₃
  rw [a₂.follows hL hne hold a₃ h₃ hx, (include_pile h₂).1, a₀.follows hL hne hold a₁ h₁ hx]

end

/-- **Replacement in any order.** An operation, be it `o` or a descendant of it or any other, ends valid in every order
of the three calls if and only if it is not harmed. -/
theorem replacement_iff (hL : H.ReorgLaws) (hne : S.pubId pub ≠ wOld) (hold : wOld ∈ c.pile.opWitnessIds o)
    (hrun : ∀ order, Legal o wOld (S.pubId pub) height anchor pub order → ∃ c', c.handleAll order = some c') :
    ∀ x ∈ H.operations c.ledger,
      (∀ order, Legal o wOld (S.pubId pub) height anchor pub order → ∀ c', c.handleAll order = some c' →
        H.isValid c'.ledger x = true) ↔ c.Unharmed o wOld (S.pubId pub) height x := by
  intro x hx
  have hl₁ : Legal o wOld (S.pubId pub) height anchor pub (replacement o wOld (S.pubId pub) height anchor pub) :=
    ⟨List.Perm.refl _, by simp [replacement]⟩
  have hl₂ : Legal o wOld (S.pubId pub) height anchor pub
      [.included o anchor pub, .synced [(S.pubId pub, .mined height)], .synced [(wOld, .archived)]] :=
    ⟨(List.Perm.swap _ _ _).cons _, by simp⟩
  have hl₃ : Legal o wOld (S.pubId pub) height anchor pub
      [.synced [(wOld, .archived)], .included o anchor pub, .synced [(S.pubId pub, .mined height)]] :=
    ⟨List.Perm.swap _ _ _, List.sublist_cons_self _ _⟩
  obtain ⟨c₁, h₁⟩ := hrun _ hl₁
  obtain ⟨c₂, h₂⟩ := hrun _ hl₂
  obtain ⟨c₃, h₃⟩ := hrun _ hl₃
  rw [← inEveryOrder_iff, InEveryOrder, ← isValid_include_archive_mine hL hne hold hx h₁,
    ← isValid_include_mine_archive hL hne hold hx h₂, ← isValid_archive_include_mine hL hne hold hx h₃]
  constructor
  · exact fun hall => ⟨hall _ hl₁ c₁ h₁, hall _ hl₂ c₂ h₂, hall _ hl₃ c₃ h₃⟩
  · rintro ⟨hv₁, hv₂, hv₃⟩ order hl c' hc'
    rcases legal_cases hne hl with rfl | rfl | rfl
    · exact Option.some.inj (h₁.symm.trans hc') ▸ hv₁
    · exact Option.some.inj (h₂.symm.trans hc') ▸ hv₂
    · exact Option.some.inj (h₃.symm.trans hc') ▸ hv₃

end

end Contract

/-! ## A transaction replaced by fee -/

namespace Reorg

/-- The parent has a second transaction besides the evicted one. -/
def doubled : Contract refSonic refSeal :=
  { contract with pile := (contract.pile.addWitness parent.opid (5 : Nat) (5 : Nat) .empty .tentative).getD .new }

end Reorg

/-- The replaced parent and its child are valid again if the parent has another transaction. -/
theorem replacement_doubled : ∃ c', Reorg.doubled.handleAll [.synced [(1, .archived)],
      .included Reorg.parent.opid .empty (3 : Nat), .synced [(3, .mined Reorg.height)]] = some c' ∧
    refSonic.isValid c'.ledger Reorg.parent.opid = true ∧ refSonic.isValid c'.ledger Reorg.child.opid = true := by
  have hne : refSeal.pubId (3 : Nat) ≠ (1 : Nat) := by decide
  have hold : (1 : Nat) ∈ Reorg.doubled.pile.opWitnessIds Reorg.parent.opid := by decide
  have hrun : ∀ order,
      Contract.Legal (S := refSeal) Reorg.parent.opid (1 : Nat) (3 : Nat) Reorg.height .empty (3 : Nat) order →
      ∃ c', Reorg.doubled.handleAll order = some c' := by
    intro order hl
    rcases Contract.legal_cases hne hl with rfl | rfl | rfl <;> exact ⟨_, rfl⟩
  have hl : Contract.Legal (S := refSeal) Reorg.parent.opid (1 : Nat) (3 : Nat) Reorg.height .empty (3 : Nat)
      [.synced [(1, .archived)], .included Reorg.parent.opid .empty (3 : Nat), .synced [(3, .mined Reorg.height)]] :=
    ⟨List.Perm.swap _ _ _, List.sublist_cons_self _ _⟩
  have hharm : ∀ x ∈ refSonic.operations Reorg.doubled.ledger,
      Reorg.doubled.Unharmed Reorg.parent.opid (1 : Nat) (3 : Nat) Reorg.height x := by decide
  obtain ⟨c', hc'⟩ := hrun _ hl
  have hvalid : ∀ x ∈ refSonic.operations Reorg.doubled.ledger, refSonic.isValid c'.ledger x = true := fun x hx =>
    (Contract.replacement_iff refSonic_reorgLaws hne hold hrun x hx).2 (hharm x hx) _ hl c' hc'
  exact ⟨c', hc', hvalid _ (by decide), hvalid _ (by decide)⟩

/-- The only transaction of the parent is evicted before its replacement is seen: the parent is
mined and stays invalid. -/
theorem replacement_after_eviction_lost :
    ¬∀ (H : Hypersonic) (S : RgbSeal), H.ReorgLaws → ∀ (c : Contract H S) (o : Opid) (wOld : S.WitnessId)
      (height : NonZeroU64) (anchor : S.Client) (pub : S.Published), S.pubId pub ≠ wOld →
      wOld ∈ c.pile.opWitnessIds o → S.pubId pub ∉ c.pile.opWitnessIds o →
      o ∈ H.operations c.ledger → H.isValid c.ledger o = true →
      (∀ a ∈ H.ancestors c.ledger o, a ≠ o → c.Stable wOld (S.pubId pub) height a) → ∀ order c',
      Contract.Legal o wOld (S.pubId pub) height anchor pub order → c.handleAll order = some c' →
      ∀ x, c.Concerned o x → H.isValid c'.ledger x = true := by
  intro h
  have hl : Contract.Legal (S := refSeal) Reorg.parent.opid (1 : Nat) (3 : Nat) Reorg.height .empty (3 : Nat)
      [.synced [(1, .archived)], .included Reorg.parent.opid .empty (3 : Nat), .synced [(3, .mined Reorg.height)]] :=
    ⟨List.Perm.swap _ _ _, List.sublist_cons_self _ _⟩
  have hc := h refSonic refSeal refSonic_reorgLaws Reorg.contract _ (1 : Nat) _ _ _ (by decide) (by decide)
    (by decide) (by decide) (by decide) (by decide) _ _ hl rfl Reorg.parent.opid (by decide)
  revert hc
  decide

end RgbStd
