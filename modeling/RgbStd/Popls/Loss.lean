import RgbStd.Popls.Steps
/-!
# State at the outputs a bundle closes

Closing an output moves all the state assigned to it. For contracts no request names, `bundle`
makes blank operations; the contracts which are named it skips, whatever else they have there.

* `mem_tryFrom`, `tryFrom_inOrder`: the bundle as a set of prefabs.
* `bundle_ok`: a bundle is the requested prefabs and the blanks of the other contracts.
* `bundle_lossless_iff`: no state is lost exactly if the requests of a contract spend between them
  all it has at the outputs closed.
-/
namespace RgbStd
open Tables Decode

/-! ## The bundle as a set -/

theorem Prefab.same_refl {H : Hypersonic} (p : Prefab H) : p.same p = true := by
  simp [same, SmallSet.same]

theorem Prefab.same_eq {H : Hypersonic} {p q : Prefab H} (h : p.same q = true) :
    p.operation = q.operation ∧ ∀ o, o ∈ p.closes.elems ↔ o ∈ q.closes.elems := by
  simp only [same, SmallSet.same, Bool.and_eq_true, List.all_eq_true, decide_eq_true_eq] at h
  exact ⟨h.2, fun o => ⟨h.1.1.1 o, h.1.1.2 o⟩⟩

/-- A prefab that closes nothing comes before those that close something. -/
theorem Prefab.closes_of_cmp {H : Hypersonic} {p q : Prefab H} (h : (p.cmp q).isLE) (hq : q.closes.elems = []) :
    p.closes.elems = [] := by
  have hc : (compare p.closes.inOrder q.closes.inOrder).isLE := Ordering.isLE_left_of_isLE_then h
  rw [SmallSet.inOrder_eq_nil.2 hq] at hc
  cases ho : p.closes.inOrder with
  | nil => exact SmallSet.inOrder_eq_nil.1 ho
  | cons o l =>
    rw [ho, List.compare_cons_nil] at hc
    cases hc

namespace PrefabBundle

variable {H : Hypersonic}

theorem mem_collect_of_mem {ps : List (Prefab H)} : ∀ {set : List (Prefab H)}, ∀ q ∈ set, q ∈ collect set ps := by
  induction ps with
  | nil => exact fun _ h => h
  | cons p ps ih =>
    intro set q hq
    refine ih q ?_
    split
    · exact hq
    · exact List.mem_append_left _ hq

theorem mem_of_mem_collect {ps : List (Prefab H)} : ∀ {set : List (Prefab H)}, ∀ q ∈ collect set ps, q ∈ set ∨ q ∈ ps := by
  induction ps with
  | nil => exact fun q hq => Or.inl hq
  | cons p ps ih =>
    intro set q hq
    rcases ih q hq with hq | hq
    · split at hq
      · exact Or.inl hq
      · refine (List.mem_append.1 hq).imp_right fun hq => ?_
        rw [List.mem_singleton.1 hq]
        exact List.mem_cons_self
    · exact Or.inr (List.mem_cons_of_mem _ hq)

theorem exists_mem_collect {ps : List (Prefab H)} :
    ∀ {set : List (Prefab H)}, ∀ p ∈ ps, ∃ q ∈ collect set ps, q.same p = true := by
  induction ps with
  | nil => simp
  | cons p ps ih =>
    intro set x hx
    rcases List.mem_cons.1 hx with rfl | hx
    · rw [collect]
      split
      · rename_i hany
        obtain ⟨y, hy, hs⟩ := List.any_eq_true.1 hany
        exact ⟨y, mem_collect_of_mem y hy, hs⟩
      · exact ⟨x, mem_collect_of_mem x (List.mem_append_right _ List.mem_cons_self), x.same_refl⟩
    · exact ih x hx

/-- The bundle has the prefabs it is made from, and no others. -/
theorem mem_tryFrom {ps : List (Prefab H)} {b : PrefabBundle H} (h : tryFrom ps = some b) :
    (∀ q ∈ b.prefabs, q ∈ ps) ∧ ∀ p ∈ ps, ∃ q ∈ b.prefabs, q.same p = true := by
  simp only [tryFrom] at h
  split at h <;> cases h
  constructor
  · intro q hq
    exact (mem_of_mem_collect q ((List.mem_insertionSort _).1 hq)).resolve_left (by simp)
  · intro p hp
    obtain ⟨q, hq, hs⟩ := exists_mem_collect p hp
    exact ⟨q, (List.mem_insertionSort _).2 hq, hs⟩

/-- They come in order. -/
theorem tryFrom_inOrder {ps : List (Prefab H)} {b : PrefabBundle H} (h : tryFrom ps = some b) :
    b.prefabs.Pairwise fun p q => (p.cmp q).isLE := by
  have : Std.TransCmp (Prefab.cmp (H := H)) := inferInstanceAs (Std.TransCmp (compareLex _ (compareLex _ _)))
  have : Std.Total fun p q : Prefab H => (p.cmp q).isLE := ⟨fun p q => by
    rw [← Std.OrientedCmp.isGE_iff_isLE (a := p)]
    cases p.cmp q <;> simp⟩
  have : IsTrans (Prefab H) fun p q => (p.cmp q).isLE := ⟨fun _ _ _ => Std.TransCmp.isLE_trans⟩
  simp only [tryFrom] at h
  split at h <;> cases h
  exact List.pairwise_insertionSort _ _

/-- What operations have in common that are the same, some of the bundle has if some it is made from has. -/
theorem exists_tryFrom {ps : List (Prefab H)} {b : PrefabBundle H} (h : tryFrom ps = some b) {f : Prefab H → Prop}
    (hf : ∀ q p, q.same p = true → f p → f q) : (∃ q ∈ b.prefabs, f q) ↔ ∃ p ∈ ps, f p := by
  obtain ⟨hfrom, hcov⟩ := mem_tryFrom h
  constructor
  · rintro ⟨q, hq, hfq⟩
    exact ⟨q, hfrom q hq, hfq⟩
  · rintro ⟨p, hp, hfp⟩
    obtain ⟨q, hq, hs⟩ := hcov p hp
    exact ⟨q, hq, hf q p hs hfp⟩

theorem mem_closes_tryFrom {ps : List (Prefab H)} {b : PrefabBundle H} (h : tryFrom ps = some b) {o : Outpoint} :
    o ∈ b.closes ↔ ∃ p ∈ ps, o ∈ p.closes.elems := by
  simp only [closes, List.mem_flatMap, SmallSet.mem_inOrder]
  exact exists_tryFrom h fun _ _ hs ho => ((Prefab.same_eq hs).2 o).2 ho

theorem exists_operation_tryFrom {ps : List (Prefab H)} {b : PrefabBundle H} (h : tryFrom ps = some b)
    (f : H.Operation → Prop) : (∃ q ∈ b.prefabs, f q.operation) ↔ ∃ p ∈ ps, f p.operation := by
  exact exists_tryFrom h fun _ _ hs ho => (Prefab.same_eq hs).1 ▸ ho

end PrefabBundle

namespace RgbWallet

variable {H : Hypersonic} {B : BpCore} {W : Wire H B.txoSeal} {V : Verifier H B.txoSeal} {P : Stockpile W V}

/-! ## What a bundle is made of -/

/-- A bundle is the requested prefabs, and blanks of contracts that no request named. -/
theorem bundle_ok (hL : H.CallLaws) {w w' : RgbWallet P} (hO : w.OwnIds)
    {requests : List (OpRequest H (PrefabSeal B.Noise))} {change : Option UInt32} {b : PrefabBundle H}
    (h : w.bundle requests change = (.ok b, w')) : ∃ ps blanks bs, ∃ w₁ : RgbWallet P,
      w.prefabs requests = (.ok ps, w₁) ∧ List.Forall₂ Fits requests ps ∧ List.Forall₂ Fits blanks bs ∧
      PrefabBundle.tryFrom (ps ++ bs) = some b ∧
      (∀ id, id ∉ requests.map (·.contractId) → w₁.contracts.served id = w.contracts.served id) ∧
      Blanks w₁ change (requests.map (·.contractId)) (ps.flatMap (·.closes.elems)) w.contracts.contractIds blanks := by
  simp only [bundle] at h
  split at h
  · cases h
  · rename_i ps blanks w₂ hplan
    split at h
    · cases h
    · rename_i bs w₃ hbs
      split at h
      · cases h
      · rename_i b' hb
        cases h
        rcases plan_eq hplan with ⟨_, _, he⟩ | ⟨ps', w₁, hps, he | ⟨hsame, hall⟩⟩
        · cases he
        · cases he
        obtain ⟨rfl, hblanks⟩ := hall ps blanks rfl
        obtain ⟨hfits, hO₁, hper, hserved⟩ := prefabs_fit hL (fun id _ => hO id) hps
        rw [map_contractId hfits, Contracts.contractIds, hper] at hblanks
        have hO₂ := hsame.ownIds fun id => hO₁ id (hO id)
        exact ⟨ps, blanks, bs, w₁, hps, hfits, (prefabs_fit hL (fun id _ => hO₂ id) hbs).1, hb, hserved, hblanks⟩

/-! ## No state is lost -/

/-- The entries of the contract's state, of all names. -/
def entries (c : Contract H B.txoSeal) : List (OwnedState H B.txoSeal) := c.state.owned.flatMap (·.2)

/-- Each cell assigned to an output the bundle closes is spent by an operation of its contract. -/
def Lossless (w : RgbWallet P) (b : PrefabBundle H) : Prop :=
  ∀ id ∈ w.contracts.contractIds, ∀ c, w.contracts.served id = some c → ∀ e ∈ entries c,
    e.assignment.seal_.primary ∈ b.closes →
    ∃ p ∈ b.prefabs, H.contractId p.operation = id ∧ e.addr ∈ H.destructibleIn p.operation

/-- The requests of a contract use between them all of its cells at the outputs that any request
uses. -/
def UseAll (w : RgbWallet P) (requests : List (OpRequest H (PrefabSeal B.Noise))) : Prop :=
  ∀ id ∈ w.contracts.contractIds, id ∈ requests.map (·.contractId) → ∀ c, w.contracts.served id = some c →
    ∀ e ∈ entries c, e.assignment.seal_.primary ∈ requests.flatMap (·.using_.map (·.outpoint)) →
    ∃ r ∈ requests, r.contractId = id ∧ e.addr ∈ r.using_.map (·.addr)

theorem mem_entriesAt {c : Contract H B.txoSeal} {outpoints : List Outpoint} {e : OwnedState H B.txoSeal} :
    (∃ name, (name, e) ∈ entriesAt c.state outpoints) ↔ e ∈ entries c ∧ e.assignment.seal_.primary ∈ outpoints := by
  simp only [entriesAt, entries, List.mem_flatMap, List.mem_map, List.mem_filter, decide_eq_true_eq, Prod.mk.injEq]
  constructor
  · rintro ⟨_, map, hm, e, ⟨he, ho⟩, rfl, rfl⟩
    exact ⟨⟨map, hm, he⟩, ho⟩
  · rintro ⟨⟨map, hm, he⟩, ho⟩
    exact ⟨map.1, map, hm, e, ⟨he, ho⟩, rfl, rfl⟩

/-- The cells spent are those the requests use. -/
theorem spent_iff {requests : List (OpRequest H (PrefabSeal B.Noise))} {ps : List (Prefab H)}
    (h : List.Forall₂ Fits requests ps) (id : ContractId) (a : CellAddr) :
    (∃ p ∈ ps, H.contractId p.operation = id ∧ a ∈ H.destructibleIn p.operation) ↔
      ∃ r ∈ requests, r.contractId = id ∧ a ∈ r.using_.map (·.addr) := by
  induction h with
  | nil => simp
  | cons hfit _ ih => simp only [List.mem_cons, exists_eq_or_imp, ih, hfit.contractId, hfit.ins]

section
variable {w : RgbWallet P} {change : Option UInt32} {contracts ids : List ContractId} {outpoints : List Outpoint}
  {blanks : List (OpRequest H (PrefabSeal B.Noise))}

/-- A blank is of no contract that was named, and uses only outputs that are closed anyway. -/
theorem Blanks.mem (h : Blanks w change contracts outpoints ids blanks) {q : OpRequest H (PrefabSeal B.Noise)}
    (hq : q ∈ blanks) : q.contractId ∉ contracts ∧ ∀ o ∈ q.using_.map (·.outpoint), o ∈ outpoints := by
  obtain ⟨id, _, hn, c, _, hr⟩ := h.sound hq
  rcases blankRequest_ok hr with ⟨_, he⟩ | ⟨q', he, _, hid, hus, _⟩
  · cases he
  · cases he
    refine ⟨hid ▸ hn, fun o ho => ?_⟩
    rw [hus, List.map_map] at ho
    obtain ⟨e, he, rfl⟩ := List.mem_map.1 ho
    exact (mem_entriesAt.1 ⟨e.1, he⟩).2

/-- What a contract that was not named has at the outputs, its blank uses. -/
theorem Blanks.covers (h : Blanks w change contracts outpoints ids blanks) {id : ContractId} (hid : id ∈ ids)
    (hn : id ∉ contracts) {c : Contract H B.txoSeal} (hc : w.contracts.served id = some c)
    {e : OwnedState H B.txoSeal} (he : e ∈ entries c) (ho : e.assignment.seal_.primary ∈ outpoints) :
    ∃ q ∈ blanks, q.contractId = id ∧ e.addr ∈ q.using_.map (·.addr) := by
  obtain ⟨c', q, hc', hr, hq⟩ := h.complete hid hn
  obtain rfl : c = c' := Option.some.inj (hc.symm.trans hc')
  obtain ⟨name, hat⟩ := mem_entriesAt.2 ⟨he, ho⟩
  rcases blankRequest_ok hr with ⟨hnil, _⟩ | ⟨q', rfl, _, hqid, hus, _⟩
  · rw [hnil] at hat
    cases hat
  · refine ⟨q', hq q' rfl, hqid, ?_⟩
    rw [hus, List.map_map]
    exact List.mem_map.2 ⟨_, hat, rfl⟩

end

/-- **A bundle loses no state** if and only if the requests of each contract named use all it has
at the outputs closed. -/
theorem bundle_lossless_iff (hL : H.CallLaws) {w w' : RgbWallet P} (hO : w.OwnIds)
    {requests : List (OpRequest H (PrefabSeal B.Noise))} {change : Option UInt32} {b : PrefabBundle H}
    (h : w.bundle requests change = (.ok b, w')) : Lossless w b ↔ UseAll w requests := by
  obtain ⟨ps, blanks, bs, w₁, -, hfits, hbfits, hb, hserved, hblanks⟩ := bundle_ok hL hO h
  -- the blanks close no further outputs
  have hcloses : ∀ o, o ∈ b.closes ↔ o ∈ ps.flatMap (·.closes.elems) := by
    intro o
    rw [PrefabBundle.mem_closes_tryFrom hb, ← List.mem_flatMap, List.flatMap_append, List.mem_append,
      mem_closes_iff hbfits, or_iff_left_iff_imp, List.mem_flatMap]
    rintro ⟨q, hq, ho⟩
    exact (hblanks.mem hq).2 o ho
  -- a cell is spent by a request or by a blank
  have hspent : ∀ id a, (∃ p ∈ b.prefabs, H.contractId p.operation = id ∧ a ∈ H.destructibleIn p.operation) ↔
      (∃ r ∈ requests, r.contractId = id ∧ a ∈ r.using_.map (·.addr)) ∨
        ∃ q ∈ blanks, q.contractId = id ∧ a ∈ q.using_.map (·.addr) := by
    intro id a
    rw [PrefabBundle.exists_operation_tryFrom hb fun op => H.contractId op = id ∧ a ∈ H.destructibleIn op,
      ← spent_iff hfits, ← spent_iff hbfits]
    simp only [List.mem_append, or_and_right, exists_or]
  simp only [Lossless, UseAll, hcloses, hspent, mem_closes_iff hfits]
  constructor
  · intro hless id hid hnamed c hc e he ho
    refine (hless id hid c hc e he ho).resolve_right ?_
    rintro ⟨q, hq, rfl, _⟩
    exact (hblanks.mem hq).1 hnamed
  · intro huse id hid c hc e he ho
    by_cases hnamed : id ∈ requests.map (·.contractId)
    · exact Or.inl (huse id hid hnamed c hc e he ho)
    · exact Or.inr (hblanks.covers hid hnamed ((hserved id hnamed).trans hc) he ((mem_closes_iff hfits _).2 ho))

end RgbWallet

namespace Purse

/-- Both cells of contract 3 at the first output are spent; contract 4 gets a blank. -/
def whole : List (OpRequest refSonic (PrefabSeal RefNoise)) := [spend 3 [(0, first), (1, first)] 100 1]

/-- Only one of them is. -/
def part : List (OpRequest refSonic (PrefabSeal RefNoise)) := [spend 3 [(0, first)] 60 1]

def partBundle : PrefabBundle refSonic := (wallet.bundle part (some 2)).1.toOption.getD ⟨[], by decide⟩

theorem useAll_whole : wallet.UseAll whole := by
  intro i _ hi c hc e he ho
  obtain rfl : i = id 3 := by simpa [whole, spend] using hi
  cases hc
  have hall : ∀ e ∈ RgbWallet.entries (contract 3 "Coin" [(60, first), (40, first), (5, second)]),
      e.assignment.seal_.primary ∈ whole.flatMap (·.using_.map (·.outpoint)) →
      e.addr ∈ (spend 3 [(0, first), (1, first)] 100 1).using_.map (·.addr) := by decide
  exact ⟨_, List.mem_cons_self, rfl, hall e he ho⟩

end Purse

/-- Nothing is left behind at the first output. -/
theorem bundle_whole : ∃ b w', Purse.wallet.bundle Purse.whole (some 2) = (.ok b, w') ∧
    RgbWallet.Lossless Purse.wallet b := by
  obtain ⟨b, w', h⟩ : ∃ b w', Purse.wallet.bundle Purse.whole (some 2) = (.ok b, w') := ⟨_, _, rfl⟩
  exact ⟨b, w', h, (RgbWallet.bundle_lossless_iff refSonic_callLaws Purse.wallet_ownIds h).2 Purse.useAll_whole⟩

/-- The 40 of contract 3 are at the output the request closes, and no operation spends them. -/
theorem bundle_part_lost :
    ¬∀ (H : Hypersonic) (B : BpCore) (W : Wire H B.txoSeal) (V : Verifier H B.txoSeal) (P : Stockpile W V), H.CallLaws →
      P.Lawful → ∀ (w w' : RgbWallet P) requests change b, w.OwnIds → w.bundle requests change = (.ok b, w') →
      RgbWallet.Lossless w b := by
  intro h
  have hl := h _ _ _ _ Purse.dir refSonic_callLaws (stockpileDir_lawful _ _ _ _) Purse.wallet _ Purse.part (some 2)
    Purse.partBundle Purse.wallet_ownIds rfl (Purse.id 3) (by decide) _ rfl
  revert hl
  decide

end RgbStd
