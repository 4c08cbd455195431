import RgbStd.Contract.Effects
import RgbStd.Pile.Grow
/-!
# What a failing `consume` leaves behind

Operations are applied as they are read, each witness is committed as it is included, and the
signature and the API upgrade come last. Nothing of this is undone on an error.

* `Grows`: what every effect on the way preserves.
* `applyBlock_self_iff`: applying a block changes nothing exactly if it is there already.
* `evaluateRest_of_absorbs`, `absorbs_of_evaluateRest`: the same for the whole loop.
* `consume_atomic_iff`: a failing call leaves the contract as it was exactly if all blocks it
  came to accept were there already.
-/
namespace RgbStd
open Tables Decode

/-- What consuming assumes of the ledger: applying an operation makes it valid and keeps the
others so, applying a valid one does nothing, and a failed upgrade changes nothing. -/
structure Hypersonic.ConsumeLaws (H : Hypersonic) : Prop where
  apply_valid : ∀ l op l', H.apply l op = some l' → H.isValid l' (H.opid op) = true
  apply_mono : ∀ l op l', H.apply l op = some l' → ∀ o, H.isValid l o = true → H.isValid l' o = true
  apply_known : ∀ l op, H.isValid l (H.opid op) = true → H.apply l op = some l
  commit_mono : ∀ l o, H.isValid l o = true → H.isValid (H.commit l) o = true
  upgrade_error : ∀ l a e l', H.upgradeApis l a = (.error e, l') → l' = l

/-! ## Calls of the pile that change nothing -/

namespace PileFs

variable {S : RgbSeal}

theorem addSeals_self_iff {p : PileFs S} {o : Opid} {seals : Table UInt16 S.Definition} :
    p.addSeals o seals = some p ↔ ∀ e ∈ seals, p.seal ⟨o, e.1⟩ = some e.2 := by
  have hfold : seals.foldlM (fun keep e => insertOnce keep (CellAddr.mk o e.1) e.2) p.keep = some p.keep ↔
      ∀ e ∈ seals, get p.keep ⟨o, e.1⟩ = some e.2 := by
    generalize p.keep = keep
    induction seals with
    | nil => simp
    | cons e seals ih =>
      simp only [List.foldlM_cons, Option.bind_eq_bind, Option.bind_eq_some_iff, List.mem_cons, forall_eq_or_imp]
      constructor
      · rintro ⟨t, h₁, h₂⟩
        have hback := foldlM_insertOnce_extends (fun e => CellAddr.mk o e.1) Prod.snd seals h₂
        obtain rfl : t = keep := squeeze (insertOnce_extends h₁) hback rfl
        exact ⟨insertOnce_self h₁, ih.1 h₂⟩
      · rintro ⟨h₁, h₂⟩
        exact ⟨keep, by simp [insertOnce, h₁], ih.2 h₂⟩
  show p.addSeals o seals = some p ↔ ∀ e ∈ seals, get p.keep ⟨o, e.1⟩ = some e.2
  constructor
  · intro h
    obtain ⟨keep, hk, hp⟩ := addSeals_eq h
    have : p.keep = keep := congrArg PileFs.keep hp
    exact hfold.1 (this ▸ hk)
  · intro h
    simp [addSeals, hfold.2 h]

theorem commit_self_iff {p : PileFs S} : p.commit = p ↔ p.saved = p.mine := by
  constructor
  · intro h
    exact (congrArg PileFs.saved h).symm
  · intro h
    exact PileFs.ext rfl rfl rfl rfl rfl rfl h.symm

end PileFs

namespace Contract

variable {H : Hypersonic} {S : RgbSeal} {E ρ : Type}

/-! ## Growth -/

/-- `c'` is reached from `c` by applying operations, seals and witnesses and by commits. -/
structure Grows (c c' : Contract H S) : Prop where
  contractId : c'.contractId = c.contractId
  pile : c.pile.Grows c'.pile
  valid : ∀ o, H.isValid c.ledger o = true → H.isValid c'.ledger o = true

theorem Grows.refl (c : Contract H S) : c.Grows c := ⟨rfl, .refl _, fun _ => id⟩

theorem Grows.trans {c c₁ c₂ : Contract H S} (h₁ : c.Grows c₁) (h₂ : c₁.Grows c₂) : c.Grows c₂ :=
  ⟨h₂.contractId.trans h₁.contractId, h₁.pile.trans h₂.pile, fun o ho => h₂.valid o (h₁.valid o ho)⟩

theorem EvalEffect.grows (hL : H.ConsumeLaws) {c c' : Contract H S} (h : EvalEffect c c') : c.Grows c' := by
  cases h with
  | apply h => exact ⟨rfl, .refl _, hL.apply_mono _ _ _ h⟩
  | commitLedger => exact ⟨rfl, .refl _, hL.commit_mono _⟩
  | seals h => exact ⟨rfl, PileFs.addSeals_grows h, fun _ => id⟩
  | witness h => exact ⟨rfl, PileFs.addWitness_grows h, fun _ => id⟩
  | commitPile => exact ⟨rfl, PileFs.commit_grows _, fun _ => id⟩

theorem EvalReaches.grows (hL : H.ConsumeLaws) {c c' : Contract H S} (h : c.EvalReaches c') : c.Grows c' := by
  induction h with
  | refl => exact .refl c
  | tail _ he ih => exact ih.trans (he.grows hL)

theorem applyBlock_valid (hL : H.ConsumeLaws) {c c' : Contract H S} {b : OperationSeals H S}
    (h : c.applyBlock b = some c') : H.isValid c'.ledger (H.opid b.operation) = true := by
  obtain ⟨ledger, pile, hl, -, h⟩ := applyBlock_eq h
  have hv := hL.apply_valid _ _ _ hl
  cases hw : b.witness with
  | none =>
    simp only [hw] at h
    cases h
    exact hv
  | some w =>
    simp only [hw] at h
    exact ((include_reaches h).grows hL).valid _ hv

theorem commit_grows (hL : H.ConsumeLaws) (c : Contract H S) : c.Grows c.commit :=
  ⟨rfl, c.pile.commit_grows, hL.commit_mono _⟩

/-! ## Blocks that are there already -/

/-- The witness is stored for the operation as given, its anchor adding nothing, and no status
is waiting to be saved. -/
structure HasWitness (c : Contract H S) (o : Opid) (w : SealWitness S) : Prop where
  listed : S.pubId w.published ∈ c.pile.opWitnessIds o
  published : c.pile.pubWitness (S.pubId w.published) = some w.published
  client : ∃ a, c.pile.cliWitness (S.pubId w.published) = some a ∧ (a = w.client ∨ S.merge a w.client = some a)
  saved : c.pile.saved = c.pile.mine

/-- The operation is valid, its seals are defined as given and so is its witness. -/
structure Absorbs (c : Contract H S) (b : OperationSeals H S) : Prop where
  valid : H.isValid c.ledger (H.opid b.operation) = true
  seals : ∀ e ∈ b.definedSeals.entries, c.pile.seal ⟨H.opid b.operation, e.1⟩ = some e.2
  witness : ∀ w, b.witness = some w → c.HasWitness (H.opid b.operation) w

theorem include_self_iff {c : Contract H S} {o : Opid} {w : SealWitness S} :
    c.include o w.client w.published = some c ↔ c.HasWitness o w := by
  constructor
  · intro h
    obtain ⟨merged, p, hm, hp, hc⟩ := include_eq h
    have hpile : p.commit = c.pile := (congrArg Contract.pile hc).symm
    obtain rfl : p = c.pile := (PileFs.addWitness_grows hp).squeeze (PileFs.commit_grows p) hpile
    obtain ⟨hh, hca, _, hi, _⟩ := PileFs.addWitness_eq hp
    have ha : c.pile.cliWitness (S.pubId w.published) = some merged := insertOnce_self hh
    refine ⟨PileFs.mem_opWitnessIds.2 (hi ▸ mem_push.2 (Or.inr rfl)), insertOnce_self hca, ⟨merged, ha, ?_⟩,
      PileFs.commit_self_iff.1 hpile⟩
    simp only [ha] at hm
    split at hm
    · exact Or.inr hm
    · rename_i he
      exact Or.inl (not_not.1 he)
  · rintro ⟨hl, hp, ⟨a, ha, hm⟩, hs⟩
    obtain ⟨p, hadd⟩ : ∃ p, c.pile.addWitness o (S.pubId w.published) w.published a .tentative = some p :=
      PileFs.addWitness_isSome.2
        ⟨fun a' ha' => by rw [ha] at ha'; exact (Option.some.inj ha').symm,
          fun p' hp' => by rw [hp] at hp'; exact (Option.some.inj hp').symm⟩
    have hself : p = c.pile := by
      obtain ⟨hh, hca, hk, hi, hst, hmi, hsv⟩ := PileFs.addWitness_eq hadd
      have hga : get c.pile.hoard (S.pubId w.published) = some a := ha
      have hgp : get c.pile.cache (S.pubId w.published) = some w.published := hp
      have hmine : has c.pile.mine (S.pubId w.published) = true := by
        rw [c.pile.mined]; exact has_iff.2 ⟨a, hga⟩
      have hin : (o, S.pubId w.published) ∈ c.pile.index := PileFs.mem_opWitnessIds.1 hl
      refine PileFs.ext ?_ ?_ hk ?_ ?_ ?_ hsv
      · simpa [insertOnce, hga, eq_comm] using hh
      · simpa [insertOnce, hgp, eq_comm] using hca
      · simp [hi, push, hin]
      · simp [hst, push, (c.pile.related _ _).1 hin]
      · simp [hmi, PileFs.register, hmine]
    have hmerged : (if a ≠ w.client then S.merge a w.client else some a) = some a := by
      split
      · rename_i hne
        exact hm.resolve_left hne
      · rfl
    have hc : c.pile.commit = c.pile := PileFs.commit_self_iff.2 hs
    simp only [Contract.include, ha, hmerged, Option.bind_some, hadd, Option.map_some, hself, hc]

/-- **Applying a block** changes nothing exactly if it is there already. -/
theorem applyBlock_self_iff (hL : H.ConsumeLaws) {c : Contract H S} {b : OperationSeals H S} :
    c.applyBlock b = some c ↔ c.Absorbs b := by
  constructor
  · intro h
    have hv := applyBlock_valid hL h
    obtain ⟨ledger, pile, hl, hp, h⟩ := applyBlock_eq h
    obtain rfl : c.ledger = ledger := Option.some.inj ((hL.apply_known _ _ hv).symm.trans hl)
    have hpile : pile = c.pile := by
      cases hw : b.witness with
      | none =>
        simp only [hw] at h
        exact congrArg Contract.pile (Option.some.inj h)
      | some w =>
        simp only [hw] at h
        exact (PileFs.addSeals_grows hp).squeeze ((include_reaches h).grows hL).pile rfl
    subst hpile
    refine ⟨hv, PileFs.addSeals_self_iff.1 hp, fun w hw => ?_⟩
    simp only [hw] at h
    exact include_self_iff.1 h
  · rintro ⟨hv, hs, hw⟩
    simp only [applyBlock, hL.apply_known _ _ hv, PileFs.addSeals_self_iff.2 hs, Option.bind_some]
    cases hb : b.witness with
    | none => rfl
    | some w => exact include_self_iff.2 (hw w hb)

/-! ## The loop -/

/-- Nothing waits to be committed. -/
def AtRest (c : Contract H S) : Prop := H.commit c.ledger = c.ledger ∧ c.pile.saved = c.pile.mine

/-- Every block up to the first one that cannot be read or is refused is there already; `atEnd`
holds if there is no such block. -/
def AbsorbsAll (V : Verifier H S) (c : Contract H S) (atEnd : Prop) :
    V.State → Feed E ρ (OperationSeals H S) → Prop
  | _, .done _ => atEnd
  | _, .failed _ => True
  | st, .next b more => match V.verify c.ledger st b with
    | .error _ => True
    | .ok st => c.Absorbs b ∧ AbsorbsAll V c atEnd st more

theorem evaluateRest_of_absorbs (hL : H.ConsumeLaws) {V : Verifier H S} {c c' : Contract H S} {atEnd : Prop}
    {ops : Feed E ρ (OperationSeals H S)} {r : Res (VerificationError E V.Error) Unit} :
    ∀ {st : V.State}, AbsorbsAll V c atEnd st ops → c.evaluateRest V st ops = (r, c') →
      c' = c ∧ (r = .ok () → atEnd) := by
  induction ops with
  | done e =>
    intro st ha h
    cases h
    exact ⟨rfl, fun _ => ha⟩
  | failed e =>
    intro st ha h
    cases h
    exact ⟨rfl, fun he => by cases he⟩
  | next b more ih =>
    intro st ha h
    simp only [evaluateRest, AbsorbsAll] at h ha
    cases hv : V.verify c.ledger st b with
    | error e =>
      simp only [hv] at h
      cases h
      exact ⟨rfl, fun he => by cases he⟩
    | ok st₁ =>
      simp only [hv] at h ha
      simp only [(applyBlock_self_iff hL).2 ha.1] at h
      exact ih ha.2 h

/-- Conversely, if the loop has come to no panic and can be undone by growth alone, nothing
happened. The induction carries that the contract reached so far is the initial one. -/
theorem absorbs_of_evaluateRest (hL : H.ConsumeLaws) {V : Verifier H S} {c c' : Contract H S} {atEnd : Prop}
    {ops : Feed E ρ (OperationSeals H S)} {r : Res (VerificationError E V.Error) Unit} (hback : c'.Grows c)
    (hend : r = .ok () → atEnd) (hr : r ≠ .error .panic) :
    ∀ {st : V.State}, c.evaluateRest V st ops = (r, c') → AbsorbsAll V c atEnd st ops := by
  induction ops with
  | done e =>
    intro st h
    cases h
    exact hend rfl
  | failed e => exact fun _ => trivial
  | next b more ih =>
    intro st h
    simp only [evaluateRest, AbsorbsAll] at h ⊢
    cases hv : V.verify c.ledger st b with
    | error e => trivial
    | ok st₁ =>
      simp only [hv] at h ⊢
      cases hb : c.applyBlock b with
      | none =>
        simp only [hb] at h
        cases h
        exact absurd rfl hr
      | some c₁ =>
        simp only [hb] at h
        have hg₁ := (applyBlock_reaches hb).grows hL
        have hvalid := applyBlock_valid hL hb
        have hg₂ : c₁.Grows c := by
          have := (evaluateRest_reaches V more c₁ st₁).grows hL
          rw [h] at this
          exact this.trans hback
        obtain ⟨ledger, pile, hl, hp, hc⟩ := applyBlock_eq hb
        have hpile : c₁.pile = c.pile := hg₁.pile.squeeze hg₂.pile rfl
        have hledger : c₁.ledger = c.ledger := by
          obtain rfl : c.ledger = ledger := Option.some.inj ((hL.apply_known _ _ (hg₂.valid _ hvalid)).symm.trans hl)
          cases hw : b.witness with
          | none => simp only [hw] at hc; cases hc; rfl
          | some w => simp only [hw] at hc; exact (include_pile hc).1
        obtain rfl : c₁ = c := by
          obtain ⟨id₁, l₁, p₁⟩ := c₁
          obtain ⟨id, l, p⟩ := c
          obtain rfl : id₁ = id := hg₁.contractId
          obtain rfl : l₁ = l := hledger
          obtain rfl : p₁ = p := hpile
          rfl
        exact ⟨(applyBlock_self_iff hL).1 hb, ih h⟩

/-! ## `consume` -/

/-- `AbsorbsAll` for a stream that starts with the genesis. -/
def AbsorbsStream (V : Verifier H S) (c : Contract H S) (atEnd : Prop) (ops : Feed E ρ (OperationSeals H S)) : Prop :=
  match ops with
  | .next b more => H.contractId b.operation = H.codexAsContract (H.articles c.ledger) →
      c.AbsorbsAll V atEnd V.init (.next (c.nameGenesis b) more)
  | ops => c.AbsorbsAll V atEnd V.init ops

theorem evaluate_of_absorbs (hL : H.ConsumeLaws) {V : Verifier H S} {c c' : Contract H S} {atEnd : Prop}
    {ops : Feed E ρ (OperationSeals H S)} {r : Res (VerificationError E V.Error) Unit}
    (ha : c.AbsorbsStream V atEnd ops) (h : c.evaluate V ops = (r, c')) : c' = c ∧ (r = .ok () → atEnd) := by
  cases ops with
  | done e => exact evaluateRest_of_absorbs hL ha h
  | failed e => exact evaluateRest_of_absorbs hL ha h
  | next b more =>
    simp only [evaluate] at h
    split at h
    · rename_i hc
      exact evaluateRest_of_absorbs hL (ha hc) h
    · cases h
      exact ⟨rfl, fun he => by cases he⟩

theorem absorbs_of_evaluate (hL : H.ConsumeLaws) {V : Verifier H S} {c c' : Contract H S} {atEnd : Prop}
    {ops : Feed E ρ (OperationSeals H S)} {r : Res (VerificationError E V.Error) Unit} (hback : c'.Grows c)
    (hend : r = .ok () → atEnd) (hr : r ≠ .error .panic) (h : c.evaluate V ops = (r, c')) :
    c.AbsorbsStream V atEnd ops := by
  cases ops with
  | done e => exact absorbs_of_evaluateRest hL hback hend hr h
  | failed e => exact absorbs_of_evaluateRest hL hback hend hr h
  | next b more =>
    intro hc
    simp only [evaluate, hc, if_true] at h
    exact absorbs_of_evaluateRest hL hback hend hr h

theorem upgrade_error (hL : H.ConsumeLaws) {W : Wire H S} {V : Verifier H S} {c c' : Contract H S} {h : W.Head}
    {sigValidator : W.Validator} {e : Halt (MultiError (ConsumeError H V.Error) H.StockError Empty)}
    (hu : c.upgrade W V h sigValidator = (.error e, c')) : c' = c := by
  unfold upgrade at hu
  split at hu
  · cases hu; rfl
  · split at hu
    · rename_i hl; cases hu; rw [hL.upgrade_error _ _ _ _ hl]
    · rename_i hl; cases hu; rw [hL.upgrade_error _ _ _ _ hl]
    · cases hu

/-- The blocks of the stream a contract comes to accept are there already; if the failure is that
of the signature or of the upgrade, nothing waits to be committed. -/
def ConsumesNothing (W : Wire H S) (V : Verifier H S) (c : Contract H S) (reader : Bytes)
    (resolver : SealResolver H S) : Prop :=
  ∀ rest h stream, W.parseConsignment.run reader = .ok (c.contractId, rest) → W.head.run rest = .ok (h, stream) →
    c.AbsorbsStream V c.AtRest (Wire.OpReader.feed W resolver ⟨stream, Wire.COUNT_FOLLOWS⟩)

theorem commit_of_atRest {c : Contract H S} (h : c.AtRest) : c.commit = c := by
  obtain ⟨hl, hp⟩ := h
  simp only [commit, hl, PileFs.commit_self_iff.2 hp]

theorem consumeOps_atomic_iff (hL : H.ConsumeLaws) {W : Wire H S} {V : Verifier H S} {c c' : Contract H S}
    {hd : W.Head} {sigValidator : W.Validator} {ops : Feed DecodeError Bytes (OperationSeals H S)}
    {e : MultiError (ConsumeError H V.Error) H.StockError Empty}
    (h : c.consumeOps W V hd sigValidator ops = (.error (.err e), c')) : c' = c ↔ c.AbsorbsStream V c.AtRest ops := by
  unfold consumeOps evaluateCommit at h
  cases hev : c.evaluate V ops with
  | mk r c₁ =>
    rw [hev] at h
    match r, hev, h with
    | .error .panic, _, h => cases h
    | .error (.err e₁), hev, h =>
      cases h
      constructor
      · rintro rfl
        exact absorbs_of_evaluate hL (.refl _) (fun he => by cases he) (by simp) hev
      · exact fun ha => (evaluate_of_absorbs hL ha hev).1
    | .ok (), hev, h =>
      obtain rfl : c' = c₁.commit := upgrade_error hL h
      constructor
      · intro hc
        have hback : c₁.Grows c := hc ▸ commit_grows hL c₁
        have ha : c.AbsorbsStream V True _ := absorbs_of_evaluate hL hback (fun _ => trivial) (by simp) hev
        obtain rfl : c₁ = c := (evaluate_of_absorbs hL ha hev).1
        have hrest : c₁.AtRest :=
          ⟨congrArg Contract.ledger hc, PileFs.commit_self_iff.1 (congrArg Contract.pile hc)⟩
        exact absorbs_of_evaluate hL hback (fun _ => hrest) (by simp) hev
      · intro ha
        obtain ⟨rfl, hrest⟩ := evaluate_of_absorbs hL ha hev
        exact commit_of_atRest (hrest rfl)

/-- **A failing `consume`** leaves the contract unchanged if and only if what it accepted was
there already. -/
theorem consume_atomic_iff (hL : H.ConsumeLaws) {W : Wire H S} {V : Verifier H S} {c c' : Contract H S}
    {reader : Bytes} {resolver : SealResolver H S} {sigValidator : W.Validator}
    {e : MultiError (ConsumeError H V.Error) H.StockError Empty}
    (h : c.consume W V reader resolver sigValidator = (.error (.err e), c')) :
    c' = c ↔ c.ConsumesNothing W V reader resolver := by
  unfold consume at h
  split at h
  · rename_i e₁ hp
    cases h
    exact iff_of_true rfl fun rest h stream hp' => by rw [hp] at hp'; cases hp'
  · rename_i id rest hp
    split at h
    · rename_i hid
      cases h
      exact iff_of_true rfl fun rest' h stream hp' => by
        rw [hp] at hp'
        cases hp'
        exact absurd rfl hid
    · rename_i hid
      obtain rfl : id = c.contractId := not_not.1 hid
      unfold consumeInternal at h
      split at h
      · rename_i e₁ hh
        cases h
        exact iff_of_true rfl fun rest' h stream hp' hh' => by
          rw [hp] at hp'
          cases hp'
          rw [hh] at hh'
          cases hh'
      · rename_i hd stream hh
        have hcond : c.ConsumesNothing W V reader resolver ↔
            c.AbsorbsStream V c.AtRest (Wire.OpReader.feed W resolver ⟨stream, Wire.COUNT_FOLLOWS⟩) := by
          constructor
          · exact fun hc => hc rest hd stream hp hh
          · intro hc rest' h' stream' hp' hh'
            rw [hp] at hp'
            cases hp'
            rw [hh] at hh'
            cases hh'
            exact hc
        rw [hcond]
        exact consumeOps_atomic_iff hL h

end Contract

/-! ## The reference ledger -/

theorem RefLedger.isValid_record (l : RefLedger) (op : RefOperation) (o : Opid) :
    (l.record op).isValid o = true ↔ o = op.opid ∨ l.isValid o = true := by
  have hmem : o ∈ (l.record op).operations ↔ o = op.opid ∨ o ∈ l.operations := by
    by_cases h : op ∈ l.ops
    · have hin : op.opid ∈ l.operations := List.mem_map_of_mem h
      simp only [record, operations, h, if_true]
      exact ⟨Or.inr, fun he => he.elim (fun e => e ▸ hin) id⟩
    · simp [record, operations, h]
  simp only [isValid, decide_eq_true_eq, hmem]
  simp only [record, List.mem_filter, decide_eq_true_eq, ne_eq]
  tauto

theorem refSonic_consumeLaws : refSonic.ConsumeLaws where
  apply_valid l op l' h := by
    obtain rfl := Option.some.inj h
    show RefLedger.isValid (if l.isValid op.opid then l else { l.record op with pending := true }) op.opid = true
    split
    · assumption
    · exact (RefLedger.isValid_record l op _).2 (Or.inl rfl)
  apply_mono l op l' h o ho := by
    obtain rfl := Option.some.inj h
    show RefLedger.isValid (if l.isValid op.opid then l else { l.record op with pending := true }) o = true
    split
    · exact ho
    · exact (RefLedger.isValid_record l op _).2 (Or.inr ho)
  apply_known l op h := congrArg some (if_pos h)
  commit_mono l o h := h
  upgrade_error l a e l' h := by
    have h' : (if l.articles.id = a.id then
        ((.ok (), { l with articles := a }) : Except (MultiError Unit Unit Empty) Unit × RefLedger)
      else (.error (.a ()), l)) = (.error e, l') := h
    split at h'
    · cases h'
    · cases h'; rfl

/-- Inputs must be cells of the state, unless the operation is known. -/
@[reducible] def refVerifier {S : RgbSeal} : Verifier refSonic S where
  State := Unit
  Error := Unit
  init := ()
  verify l _ b :=
    if l.isValid b.operation.opid ∨ ∀ a ∈ b.operation.ins, a ∈ l.cells.map (·.2.1) then .ok () else .error ()

/-! ## A stream which breaks off, and one with a bad signature -/

namespace Stream

def id : ContractId := ⟨Vector.replicate 32 3⟩

def articles : RefArticles :=
  ⟨id, ⟨Vector.replicate 32 9⟩, ⟨id, 3, [], [("amount", ⟨0⟩, 100)]⟩, "Test", .bitcoin, true⟩

def contract : Contract refSonic refSeal := ⟨id, .new articles, .new⟩

def opening : Bytes := 0 :: List.replicate 32 3

/-- The genesis, one transfer of its output, and a count of two. -/
def broken : Bytes :=
  opening ++ headBytes ++ [3, 9, 0, 1, 0, 100] ++ [0] ++ [0] ++ [2, 0, 0, 0] ++
    [4, 3, 1, 3, 3, 0, 0, 1, 1, 100] ++ [0] ++ [0]

/-- The genesis only, with signature 77. -/
def badlySigned : Bytes := opening ++ [0, 1, 77, 0, 9] ++ [3, 9, 0, 1, 0, 100] ++ [0] ++ [0] ++ [0, 0, 0, 0]

def validator : refWire.Validator := fun _ _ sig => sig == (1 : UInt8)

end Stream

/-- A signature over known articles is refused. -/
theorem consume_badlySigned : ∃ c', Stream.contract.consume refWire refVerifier Stream.badlySigned noSeals
    Stream.validator = (.error (.err (.a (.semantics ()))), c') ∧ c' = Stream.contract := by
  have h : Stream.contract.consume refWire refVerifier Stream.badlySigned noSeals Stream.validator =
      (.error (.err (.a (.semantics ()))),
        (Stream.contract.consume refWire refVerifier Stream.badlySigned noSeals Stream.validator).2) := rfl
  refine ⟨_, h, (Contract.consume_atomic_iff refSonic_consumeLaws h).2 fun rest hd stream hp hh => ?_⟩
  cases hp
  cases hh
  intro _
  refine ⟨⟨by decide, fun e he => ?_, fun w hw => ?_⟩, rfl, rfl⟩
  · cases he
  · cases hw

/-- The transfer read before the stream breaks off stays in the contract. -/
theorem consume_broken_applied :
    ¬∀ (H : Hypersonic) (S : RgbSeal), H.ConsumeLaws → ∀ (W : Wire H S) (V : Verifier H S) (c c' : Contract H S) reader
      resolver sigValidator e, c.consume W V reader resolver sigValidator = (.error (.err e), c') → c' = c := by
  intro h
  have hc := h refSonic refSeal refSonic_consumeLaws refWire refVerifier Stream.contract _ Stream.broken noSeals
    Stream.validator _ rfl
  have hops := congrArg (fun c : Contract refSonic refSeal => c.ledger.operations.length) hc
  revert hops
  decide

end RgbStd
