import RgbStd.Pile.PileFs
/-!
# The pile only grows

`add_seals`, `add_witness` and `commit_transaction` extend the tables of the pile at their end;
a commit saves a status table at least as long as the one it found.

* `Grows.squeeze`: a pile between two equal ones is the same pile. A sequence of such calls that
  ends where it began has written nothing on the way.
-/
namespace RgbStd
open Tables

namespace PileFs

variable {S : RgbSeal}

/-- `q` is reached from `p` by adding seals and witnesses and by commits. -/
structure Grows (p q : PileFs S) : Prop where
  hoard : p.hoard <+: q.hoard
  cache : p.cache <+: q.cache
  keep : p.keep <+: q.keep
  index : p.index <+: q.index
  stand : p.stand <+: q.stand
  mine : p.mine <+: q.mine
  saved : q.saved = p.saved ∨ (p.mine <+: q.saved ∧ q.saved <+: q.mine)

theorem Grows.refl (p : PileFs S) : p.Grows p :=
  ⟨List.prefix_refl _, List.prefix_refl _, List.prefix_refl _, List.prefix_refl _, List.prefix_refl _,
    List.prefix_refl _, Or.inl rfl⟩

theorem Grows.trans {p q r : PileFs S} (h₁ : p.Grows q) (h₂ : q.Grows r) : p.Grows r where
  hoard := h₁.hoard.trans h₂.hoard
  cache := h₁.cache.trans h₂.cache
  keep := h₁.keep.trans h₂.keep
  index := h₁.index.trans h₂.index
  stand := h₁.stand.trans h₂.stand
  mine := h₁.mine.trans h₂.mine
  saved := by
    rcases h₂.saved with hr | ⟨hr, hr'⟩
    · rcases h₁.saved with hq | ⟨hq, hq'⟩
      · exact Or.inl (hr.trans hq)
      · exact Or.inr ⟨hr ▸ hq, hr ▸ hq'.trans h₂.mine⟩
    · exact Or.inr ⟨h₁.mine.trans hr, hr'⟩

theorem commit_grows (p : PileFs S) : p.Grows p.commit :=
  { Grows.refl p with saved := Or.inr ⟨List.prefix_refl _, List.prefix_refl _⟩ }

theorem foldlM_insertOnce_extends {K V : Type} [DecidableEq K] [DecidableEq V] {ι : Type} (key : ι → K) (val : ι → V)
    (es : List ι) {t t' : Table K V} (h : es.foldlM (fun t e => insertOnce t (key e) (val e)) t = some t') :
    t <+: t' := by
  induction es generalizing t with
  | nil => cases h; exact List.prefix_refl _
  | cons e es ih =>
    simp only [List.foldlM_cons, Option.bind_eq_bind, Option.bind_eq_some_iff] at h
    obtain ⟨t₁, h₁, h₂⟩ := h
    exact (insertOnce_extends h₁).trans (ih h₂)

theorem addSeals_grows {p q : PileFs S} {o : Opid} {seals : Table UInt16 S.Definition}
    (h : p.addSeals o seals = some q) : p.Grows q := by
  obtain ⟨keep, hk, rfl⟩ := addSeals_eq h
  exact { Grows.refl p with keep := foldlM_insertOnce_extends (fun e => CellAddr.mk o e.1) Prod.snd seals hk }

theorem addWitness_grows {p q : PileFs S} {o : Opid} {w : S.WitnessId} {pub : S.Published} {a : S.Client}
    {st : WitnessStatus} (h : p.addWitness o w pub a st = some q) : p.Grows q := by
  obtain ⟨hh, hc, hk, hi, hs, hm, hsv⟩ := addWitness_eq h
  exact
    { hoard := insertOnce_extends hh
      cache := insertOnce_extends hc
      keep := hk ▸ List.prefix_refl _
      index := hi ▸ push_extends _ _ _
      stand := hs ▸ push_extends _ _ _
      mine := hm ▸ register_extends _ _ _
      saved := Or.inl hsv }

/-- **Squeeze.** A pile between two equal ones is that pile. -/
theorem Grows.squeeze {p q r : PileFs S} (h₁ : p.Grows q) (h₂ : q.Grows r) (h : r = p) : q = p := by
  subst h
  have hm : q.mine = r.mine := Tables.squeeze h₁.mine h₂.mine rfl
  have hs : q.saved = r.saved := by
    rcases h₁.saved with hq | ⟨hq, hq'⟩
    · exact hq
    · have he : q.saved = r.mine := Tables.squeeze hq hq' hm
      rcases h₂.saved with hr | ⟨hr, hr'⟩
      · exact hr.symm
      · exact he.trans (Tables.squeeze (hm ▸ hr) hr' rfl).symm
  exact PileFs.ext (Tables.squeeze h₁.hoard h₂.hoard rfl) (Tables.squeeze h₁.cache h₂.cache rfl)
    (Tables.squeeze h₁.keep h₂.keep rfl) (Tables.squeeze h₁.index h₂.index rfl)
    (Tables.squeeze h₁.stand h₂.stand rfl) hm hs

end PileFs

end RgbStd
