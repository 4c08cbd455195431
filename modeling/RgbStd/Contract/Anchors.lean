import RgbStd.Contract.Replace
/-!
# The anchors of a witness over any sequence of inclusions

`include` merges the anchor of a known witness with the new one and hands the union to
`PileFs::add_witness`, whose `hoard` and `cache` are append-only. What is held for a witness is
therefore what was held first.

* `include_isSome`: an inclusion completes exactly if it adds nothing to what is held.
* `includeAll_isSome`, `includeAll_held`: the same over a sequence.
* `accumulate_iff`: anchors accumulate exactly where no inclusion has anything to add.
-/
namespace RgbStd
open Tables

/-- `merge` unites the input-to-message maps of two anchors. -/
structure RgbSeal.MergeLaws (S : RgbSeal) : Prop where
  merge_self : ∀ a, S.merge a a = some a

theorem refSeal_mergeLaws : refSeal.MergeLaws := ⟨UniqueMap.unite_self⟩

/-- The arguments of an `include` call. -/
structure Inclusion (S : RgbSeal) where
  opid : Opid
  anchor : S.Client
  published : S.Published

def Inclusion.wid {S : RgbSeal} (i : Inclusion S) : S.WitnessId := S.pubId i.published

namespace Contract

variable {H : Hypersonic} {S : RgbSeal}

def includeAll (c : Contract H S) (calls : List (Inclusion S)) : Option (Contract H S) :=
  calls.foldlM (fun c i => c.include i.opid i.anchor i.published) c

/-- Both halves of a known witness. -/
def held (c : Contract H S) (w : S.WitnessId) : Option (S.Client × S.Published) :=
  (c.pile.cliWitness w).bind fun a => (c.pile.pubWitness w).map fun p => (a, p)

/-- Both halves of a witness as known or, for a new one, as first given. -/
def firstOf (c : Contract H S) (calls : List (Inclusion S)) (w : S.WitnessId) : Option (S.Client × S.Published) :=
  (c.held w).or ((calls.find? fun i => i.wid = w).map fun i => (i.anchor, i.published))

/-- The anchors the calls give for a witness. -/
def given (calls : List (Inclusion S)) (w : S.WitnessId) : List S.Client :=
  (calls.filter fun i => i.wid = w).map (·.anchor)

/-- The merge of the stored anchor, if any, and all given ones: `none` if they are not
compatible, `some none` for a witness without anchors. -/
def accumulated (c : Contract H S) (calls : List (Inclusion S)) (w : S.WitnessId) : Option (Option S.Client) :=
  match c.pile.cliWitness w, given calls w with
  | some base, as => (as.foldlM S.merge base).map some
  | none, a :: as => (as.foldlM S.merge a).map some
  | none, [] => some none

/-- No call adds anything to the first anchor of its witness, nor has another transaction. -/
def AddsNothing (c : Contract H S) (calls : List (Inclusion S)) : Prop :=
  ∀ i ∈ calls, ∀ base p, c.firstOf calls i.wid = some (base, p) →
    S.merge base i.anchor = some base ∧ i.published = p

/-! ## One inclusion -/

theorem held_iff {c : Contract H S} {w : S.WitnessId} {a : S.Client} {p : S.Published} :
    c.held w = some (a, p) ↔ c.pile.cliWitness w = some a ∧ c.pile.pubWitness w = some p := by
  simp [held, Option.bind_eq_some_iff]

theorem held_eq_none_iff {c : Contract H S} {w : S.WitnessId} : c.held w = none ↔ c.pile.cliWitness w = none := by
  rw [held]
  cases ha : c.pile.cliWitness w with
  | none => simp
  | some a =>
    have hh : has c.pile.cache w = true := by rw [c.pile.cached]; exact has_iff.2 ⟨a, ha⟩
    obtain ⟨p, hp⟩ := has_iff.1 hh
    have hp' : c.pile.pubWitness w = some p := hp
    simp [hp']

theorem held_cliWitness (c : Contract H S) (w : S.WitnessId) : (c.held w).map Prod.fst = c.pile.cliWitness w := by
  cases h : c.held w with
  | none => simp [held_eq_none_iff.1 h]
  | some e =>
    obtain ⟨a, p⟩ := e
    simp [(held_iff.1 h).1]

/-- The merged anchor `include` hands to the pile, on a witness that is held. -/
theorem merged_eq (hM : S.MergeLaws) (prev anchor : S.Client) :
    (if prev ≠ anchor then S.merge prev anchor else some prev) = S.merge prev anchor := by
  split
  · rfl
  · rename_i h
    rw [← not_not.1 h, hM.merge_self]

/-- **`include`** completes exactly if the call adds nothing to what is held. -/
theorem include_isSome (hM : S.MergeLaws) (c : Contract H S) (i : Inclusion S) :
    (∃ c', c.include i.opid i.anchor i.published = some c') ↔
      ∀ base p, c.held i.wid = some (base, p) → S.merge base i.anchor = some base ∧ i.published = p := by
  have hadd : ∀ a, (∃ c', (c.pile.addWitness i.opid i.wid i.published a .tentative).map
      (fun pile => { c with pile := pile.commit }) = some c') ↔
      (∀ a', c.pile.cliWitness i.wid = some a' → a' = a) ∧
        ∀ p, c.pile.pubWitness i.wid = some p → p = i.published := by
    intro a
    have hadd : (∃ p, c.pile.addWitness i.opid i.wid i.published a .tentative = some p) ↔ _ :=
      PileFs.addWitness_isSome
    rw [← hadd]
    simp [Option.map_eq_some_iff]
  unfold Contract.include
  cases hh : c.held i.wid with
  | none =>
    have hn : c.pile.cliWitness i.wid = none := held_eq_none_iff.1 hh
    have hp : c.pile.pubWitness i.wid = none := by
      have := c.pile.cached i.wid
      rw [has_false_iff.2 hn] at this
      exact has_false_iff.1 this
    have hn' : c.pile.cliWitness (S.pubId i.published) = none := hn
    simp only [hn', Option.bind_some]
    refine iff_of_true ((hadd i.anchor).2 ?_) (by simp)
    simp [hn, hp]
  | some e =>
    obtain ⟨base, p⟩ := e
    obtain ⟨ha, hp⟩ := held_iff.1 hh
    have ha' : c.pile.cliWitness (S.pubId i.published) = some base := ha
    simp only [ha', merged_eq hM, Option.some.injEq, Prod.mk.injEq, and_imp, forall_eq', forall_apply_eq_imp_iff]
    cases hm : S.merge base i.anchor with
    | none => simp
    | some m =>
      rw [Option.bind_some]
      refine (hadd m).trans ?_
      simp [ha, hp, eq_comm]

/-- Afterwards the first anchor and transaction of the witness are held. -/
theorem include_held (hM : S.MergeLaws) {c c' : Contract H S} {i : Inclusion S}
    (h : c.include i.opid i.anchor i.published = some c') (w : S.WitnessId) :
    c'.held w = if w = i.wid then some ((c.held w).getD (i.anchor, i.published)) else c.held w := by
  obtain ⟨merged, p, hm, hp, rfl⟩ := include_eq h
  obtain ⟨hh, hc, _⟩ := PileFs.addWitness_eq hp
  have hcli : ∀ w, PileFs.cliWitness p.commit w = if w = i.wid then some merged else c.pile.cliWitness w :=
    get_insertOnce hh
  have hpub : ∀ w, PileFs.pubWitness p.commit w = if w = i.wid then some i.published else c.pile.pubWitness w :=
    get_insertOnce hc
  simp only [held, hcli, hpub]
  by_cases hw : w = i.wid
  · subst hw
    cases hd : c.held i.wid with
    | none =>
      have hn : c.pile.cliWitness (S.pubId i.published) = none := held_eq_none_iff.1 hd
      simp only [hn, Option.some.injEq] at hm
      have hd' := hd
      simp only [held] at hd'
      simp [hd', hm]
    | some e =>
      obtain ⟨base, q⟩ := e
      obtain ⟨hb, hq⟩ := (include_isSome hM c i).1 ⟨_, h⟩ base q hd
      have ha' : c.pile.cliWitness (S.pubId i.published) = some base := (held_iff.1 hd).1
      simp only [ha', hb, ite_self, Option.some.injEq] at hm
      have hd' := hd
      simp only [held] at hd'
      simp [hd', ← hm, hq]
  · simp [hw]

/-! ## A sequence of inclusions -/

theorem includeAll_cons {c c' : Contract H S} {i : Inclusion S} {calls : List (Inclusion S)} :
    c.includeAll (i :: calls) = some c' ↔
      ∃ c₁, c.include i.opid i.anchor i.published = some c₁ ∧ c₁.includeAll calls = some c' := by
  simp [includeAll, List.foldlM_cons, Option.bind_eq_some_iff]

/-- An inclusion does not change what is held first. -/
theorem firstOf_include (hM : S.MergeLaws) {c c₁ : Contract H S} {i : Inclusion S}
    (h : c.include i.opid i.anchor i.published = some c₁) (calls : List (Inclusion S)) (w : S.WitnessId) :
    c.firstOf (i :: calls) w = c₁.firstOf calls w := by
  rw [firstOf, firstOf, include_held hM h, List.find?_cons]
  by_cases hw : w = i.wid
  · subst hw
    cases c.held i.wid <;> simp
  · have hb : decide (i.wid = w) = false := by simpa using Ne.symm hw
    simp [hw, hb]

theorem includeAll_held (hM : S.MergeLaws) {c c' : Contract H S} {calls : List (Inclusion S)}
    (h : c.includeAll calls = some c') (w : S.WitnessId) : c'.held w = c.firstOf calls w := by
  induction calls generalizing c with
  | nil =>
    cases h
    simp [firstOf]
  | cons i calls ih =>
    obtain ⟨c₁, h₁, h₂⟩ := includeAll_cons.1 h
    rw [ih h₂, firstOf_include hM h₁]

theorem firstOf_self {c : Contract H S} {i : Inclusion S} {calls : List (Inclusion S)} {base : S.Client}
    {p : S.Published} (h : c.firstOf (i :: calls) i.wid = some (base, p)) :
    c.held i.wid = some (base, p) ∨ (c.held i.wid = none ∧ base = i.anchor ∧ p = i.published) := by
  cases hh : c.held i.wid with
  | none =>
    simp only [firstOf, hh, List.find?_cons, decide_true, Option.map_some, Option.none_or, Option.some.injEq,
      Prod.mk.injEq] at h
    exact Or.inr ⟨rfl, h.1.symm, h.2.symm⟩
  | some e => simpa [firstOf, hh] using h

/-- **A sequence of inclusions** completes exactly if no call adds anything. -/
theorem includeAll_isSome (hM : S.MergeLaws) (c : Contract H S) (calls : List (Inclusion S)) :
    (∃ c', c.includeAll calls = some c') ↔ c.AddsNothing calls := by
  induction calls generalizing c with
  | nil => simp [includeAll, AddsNothing]
  | cons i calls ih =>
    constructor
    · rintro ⟨c', h⟩
      obtain ⟨c₁, h₁, h₂⟩ := includeAll_cons.1 h
      intro j hj base p hf
      rcases List.mem_cons.1 hj with rfl | hj
      · rcases firstOf_self hf with hh | ⟨_, rfl, rfl⟩
        · exact (include_isSome hM c j).1 ⟨c₁, h₁⟩ base p hh
        · exact ⟨hM.merge_self _, rfl⟩
      · exact (ih c₁).1 ⟨c', h₂⟩ j hj base p (firstOf_include hM h₁ calls j.wid ▸ hf)
    · intro hall
      obtain ⟨c₁, h₁⟩ := (include_isSome hM c i).2 fun base p hh =>
        hall i List.mem_cons_self base p (by simp [firstOf, hh])
      obtain ⟨c', h₂⟩ := (ih c₁).2 fun j hj base p hf =>
        hall j (List.mem_cons_of_mem _ hj) base p ((firstOf_include hM h₁ calls j.wid).trans hf)
      exact ⟨c', includeAll_cons.2 ⟨c₁, h₁, h₂⟩⟩

theorem foldlM_merge_eq {base : S.Client} {as : List S.Client} (h : ∀ a ∈ as, S.merge base a = some base) :
    as.foldlM S.merge base = some base := by
  induction as with
  | nil => rfl
  | cons a as ih =>
    rw [List.foldlM_cons, h a List.mem_cons_self]
    exact ih fun b hb => h b (List.mem_cons_of_mem _ hb)

/-- Where nothing is added the merge of all anchors is the first one. -/
theorem accumulated_eq {c : Contract H S} {calls : List (Inclusion S)} (h : c.AddsNothing calls)
    (w : S.WitnessId) : c.accumulated calls w = some ((c.firstOf calls w).map Prod.fst) := by
  have hgiven : ∀ base p, c.firstOf calls w = some (base, p) → ∀ a ∈ given calls w, S.merge base a = some base := by
    intro base p hf a ha
    obtain ⟨i, hi, rfl⟩ := List.mem_map.1 ha
    obtain ⟨hi, hw⟩ := List.mem_filter.1 hi
    exact (h i hi base p (by rw [of_decide_eq_true hw]; exact hf)).1
  unfold accumulated
  cases hh : c.held w with
  | some e =>
    obtain ⟨base, p⟩ := e
    have hf : c.firstOf calls w = some (base, p) := by simp [firstOf, hh]
    rw [(held_iff.1 hh).1, hf]
    simp [foldlM_merge_eq (hgiven base p hf)]
  | none =>
    rw [held_eq_none_iff.1 hh]
    cases hc : calls.find? fun i => i.wid = w with
    | none =>
      have hg : given calls w = [] := by
        simp only [List.find?_eq_none, decide_eq_true_eq] at hc
        simpa [given] using hc
      simp [hg, firstOf, hh, hc]
    | some i =>
      have hf : c.firstOf calls w = some (i.anchor, i.published) := by simp [firstOf, hh, hc]
      rw [← List.head?_filter] at hc
      obtain ⟨rest, hr⟩ := List.head?_eq_some_iff.1 hc
      have hg : given calls w = i.anchor :: rest.map (·.anchor) := by simp [given, hr]
      have hrest : ∀ a ∈ rest.map (·.anchor), S.merge i.anchor a = some i.anchor := fun a ha =>
        hgiven _ _ hf a (hg ▸ List.mem_cons_of_mem _ ha)
      simp [hg, hf, foldlM_merge_eq hrest]

/-- **Anchors accumulate** over a sequence of inclusions if and only if no call has anything to
add to the first anchor of its witness. -/
theorem accumulate_iff (hM : S.MergeLaws) (c : Contract H S) (calls : List (Inclusion S)) :
    (∃ c', c.includeAll calls = some c' ∧
      ∀ w, c.accumulated calls w = some (c'.pile.cliWitness w)) ↔ c.AddsNothing calls := by
  constructor
  · rintro ⟨c', h, _⟩
    exact (includeAll_isSome hM c calls).1 ⟨c', h⟩
  · intro hadd
    obtain ⟨c', h⟩ := (includeAll_isSome hM c calls).2 hadd
    refine ⟨c', h, fun w => ?_⟩
    rw [accumulated_eq hadd, ← includeAll_held hM h, held_cliWitness]

end Contract

/-! ## Two operations in one transaction -/

namespace Reorg

def messages (input contract : Nat) : UniqueMap Nat Nat := ⟨[(input, contract)], by simp [keys]⟩

/-- One transaction closes seals of the parent and of the child, at two inputs. -/
def bundled : List (Inclusion refSeal) :=
  [⟨parent.opid, messages 0 7, (4 : Nat)⟩, ⟨child.opid, messages 1 8, (4 : Nat)⟩]

/-- Both operations are anchored by the same messages. -/
def repeated : List (Inclusion refSeal) :=
  [⟨parent.opid, messages 0 7, (4 : Nat)⟩, ⟨child.opid, messages 0 7, (4 : Nat)⟩]

end Reorg

/-- The same anchor twice. -/
theorem accumulate_repeated : ∃ c', Reorg.contract.includeAll Reorg.repeated = some c' ∧
    ∀ w : Nat, Reorg.contract.accumulated Reorg.repeated w = some (c'.pile.cliWitness w) := by
  refine (Contract.accumulate_iff refSeal_mergeLaws Reorg.contract Reorg.repeated).2 ?_
  intro i hi base p hf
  simp only [Reorg.repeated, List.mem_cons, List.not_mem_nil, or_false] at hi
  rcases hi with rfl | rfl <;> cases hf <;> exact ⟨by decide, rfl⟩

/-- A compatible anchor for a known witness is never stored: the inclusion panics. -/
theorem accumulate_bundled_panics :
    ¬∀ (H : Hypersonic) (S : RgbSeal), S.MergeLaws → ∀ (c : Contract H S) (calls : List (Inclusion S)),
      (∀ w, (c.accumulated calls w).isSome) →
      ∃ c', c.includeAll calls = some c' ∧ ∀ w, c.accumulated calls w = some (c'.pile.cliWitness w) := by
  intro h
  have hcompat : ∀ w : Nat, (Reorg.contract.accumulated Reorg.bundled w).isSome = true := by
    intro w
    by_cases hw : w = 4
    · subst hw; decide
    · have hg : Contract.given Reorg.bundled w = [] := by
        simp [Contract.given, Reorg.bundled, Inclusion.wid, Ne.symm hw]
      unfold Contract.accumulated
      rw [hg]
      cases Reorg.contract.pile.cliWitness w <;> rfl
  obtain ⟨c', hc, _⟩ := h refSonic refSeal refSeal_mergeLaws Reorg.contract Reorg.bundled hcompat
  cases hc

end RgbStd
