import Mathlib.Data.List.Forall2
/-!
# Runs of a step function

A step may fail to complete (`none`). `run` lists the states a sequence of inputs leads
through, `Along` says that each step meets a condition at the state it starts from, and
`run_inv` / `run_inv_iff` turn what one step preserves into what a whole run preserves; `run_history`
and `run_pairwise` relate a state to the inputs before it and to the states after it.
-/
namespace Runs

variable {σ ι : Type} {step : σ → ι → Option σ}

/-- The states after each step; `none` if one of the steps does not complete. -/
def run (step : σ → ι → Option σ) : σ → List ι → Option (List σ)
  | _, [] => some []
  | s, i :: is => match step s i with
    | none => none
    | some s' => (run step s' is).map (s' :: ·)

/-- Every step of the run meets `C` at the state it starts from. -/
def Along (step : σ → ι → Option σ) (C : σ → ι → Prop) : σ → List ι → Prop
  | _, [] => True
  | s, i :: is => C s i ∧ ∀ s', step s i = some s' → Along step C s' is

theorem along_cons {C : σ → ι → Prop} {s s' : σ} {i : ι} {is : List ι} (h : step s i = some s') :
    Along step C s (i :: is) ↔ C s i ∧ Along step C s' is := by
  simp [Along, h]

theorem along_cons_none {C : σ → ι → Prop} {s : σ} {i : ι} {is : List ι} (h : step s i = none) :
    Along step C s (i :: is) ↔ C s i := by
  simp [Along, h]

theorem along_true : ∀ (is : List ι) (s : σ), Along step (fun _ _ => True) s is
  | [], _ => trivial
  | _ :: is, _ => ⟨trivial, fun s' _ => along_true is s'⟩

theorem along_of_forall {C : σ → ι → Prop} {is : List ι} (h : ∀ s, ∀ i ∈ is, C s i) : ∀ s, Along step C s is := by
  induction is with
  | nil => exact fun _ => trivial
  | cons i is ih =>
    exact fun s => ⟨h s i List.mem_cons_self, fun s' _ => ih (fun s j hj => h s j (List.mem_cons_of_mem _ hj)) s'⟩

theorem along_mono {C C' : σ → ι → Prop} (hC : ∀ s i, C s i → C' s i) : ∀ {is : List ι} {s : σ},
    Along step C s is → Along step C' s is
  | [], _, _ => trivial
  | _ :: _, s, h => ⟨hC s _ h.1, fun s' hs => along_mono hC (h.2 s' hs)⟩

instance decidableAlong (C : σ → ι → Prop) [∀ s i, Decidable (C s i)] :
    ∀ (is : List ι) (s : σ), Decidable (Along step C s is)
  | [], _ => isTrue trivial
  | i :: is, s => match h : step s i with
    | none => decidable_of_iff _ (along_cons_none h).symm
    | some s' => have := decidableAlong C is s'; decidable_of_iff _ (along_cons h).symm

theorem run_cons {s : σ} {i : ι} {is : List ι} {ss : List σ} (h : run step s (i :: is) = some ss) :
    ∃ s' ss', step s i = some s' ∧ run step s' is = some ss' ∧ ss = s' :: ss' := by
  simp only [run] at h
  split at h
  · cases h
  · rename_i s' hs
    obtain ⟨ss', h', rfl⟩ := Option.map_eq_some_iff.1 h
    exact ⟨s', ss', hs, h', rfl⟩

theorem run_length : ∀ {is : List ι} {s : σ} {ss : List σ}, run step s is = some ss → ss.length = is.length
  | [], _, _, h => by cases h; rfl
  | _ :: _, _, _, h => by
    obtain ⟨s', ss', -, hr, rfl⟩ := run_cons h
    rw [List.length_cons, List.length_cons, run_length hr]

/-- Each input of a run is a step that was made. -/
theorem step_of_mem {C : σ → ι → Prop} : ∀ {is : List ι} {s : σ} {ss : List σ}, run step s is = some ss →
    Along step C s is → ∀ i ∈ is, ∃ s₁ s₂, step s₁ i = some s₂ ∧ C s₁ i
  | [], _, _, _, _, _, hi => by cases hi
  | j :: is, s, _, h, hC, i, hi => by
    obtain ⟨s', ss', hs, hr, rfl⟩ := run_cons h
    rcases List.mem_cons.1 hi with rfl | hi
    · exact ⟨s, s', hs, hC.1⟩
    · exact step_of_mem hr (hC.2 s' hs) i hi

/-- **The run rule.** A property that every step meeting `C` preserves holds in every state
of a run whose steps all meet `C`. -/
theorem run_inv {Inv : σ → Prop} {C : σ → ι → Prop}
    (hstep : ∀ s i s', Inv s → C s i → step s i = some s' → Inv s') :
    ∀ (is : List ι) (s : σ) (ss : List σ), Inv s → Along step C s is → run step s is = some ss →
      ∀ s' ∈ ss, Inv s' := by
  intro is
  induction is with
  | nil => intro s ss _ _ h s' hs'; cases h; cases hs'
  | cons i is ih =>
    intro s ss hI hC h t ht
    obtain ⟨s', ss', hs, hr, rfl⟩ := run_cons h
    have hI' := hstep s i s' hI hC.1 hs
    rcases List.mem_cons.1 ht with rfl | ht
    · exact hI'
    · exact ih s' ss' hI' (hC.2 s' hs) hr t ht

/-- **The exact run rule.** If `C` is exactly what makes a step preserve the property, the
property holds throughout a run exactly if every step meets `C`. -/
theorem run_inv_iff {Inv : σ → Prop} {C : σ → ι → Prop} {P : ι → Prop}
    (hstep : ∀ s i s', Inv s → P i → step s i = some s' → (Inv s' ↔ C s i)) :
    ∀ (is : List ι) (s : σ) (ss : List σ), Inv s → (∀ i ∈ is, P i) → run step s is = some ss →
      ((∀ s' ∈ ss, Inv s') ↔ Along step C s is) := by
  intro is
  induction is with
  | nil => intro s ss _ _ h; cases h; simp [Along]
  | cons i is ih =>
    intro s ss hI hP h
    obtain ⟨s', ss', hs, hr, rfl⟩ := run_cons h
    have hP' : ∀ j ∈ is, P j := fun j hj => hP j (List.mem_cons_of_mem _ hj)
    have hi := hstep s i s' hI (hP i List.mem_cons_self) hs
    constructor
    · intro hall
      have hI' := hall s' List.mem_cons_self
      refine ⟨hi.1 hI', fun t ht => ?_⟩
      rw [hs] at ht
      cases ht
      exact (ih s' ss' hI' hP' hr).1 fun t ht => hall t (List.mem_cons_of_mem _ ht)
    · rintro ⟨hc, hrest⟩ t ht
      have hI' := hi.2 hc
      rcases List.mem_cons.1 ht with rfl | ht
      · exact hI'
      · exact (ih s' ss' hI' hP' hr).2 (hrest s' hs) t ht

/-- **The history rule.** A relation between the inputs so far and the state, which every step keeps, holds
at every state of a run. -/
theorem run_history {Inv : List ι → σ → Prop}
    (hstep : ∀ past s i s', Inv past s → step s i = some s' → Inv (past ++ [i]) s') :
    ∀ (is past : List ι) (s : σ) (ss : List σ), Inv past s → run step s is = some ss →
      ∀ n s', ss[n]? = some s' → Inv (past ++ is.take (n + 1)) s' := by
  intro is
  induction is with
  | nil => intro past s ss _ h n s' hn; cases h; simp at hn
  | cons i is ih =>
    intro past s ss hI h n s' hn
    obtain ⟨s₁, ss', hs, hr, rfl⟩ := run_cons h
    have hI₁ := hstep past s i s₁ hI hs
    cases n with
    | zero =>
      cases hn
      simpa using hI₁
    | succ n => simpa using ih (past ++ [i]) s₁ ss' hI₁ hr n s' hn

/-- A transitive relation from each state to the next relates each state to all later ones. -/
theorem run_pairwise {R : σ → σ → Prop} (htrans : ∀ s t u, R s t → R t u → R s u)
    (hstep : ∀ s i s', step s i = some s' → R s s') :
    ∀ (is : List ι) (s : σ) (ss : List σ), run step s is = some ss → (s :: ss).Pairwise R := by
  intro is
  induction is with
  | nil => intro s ss h; cases h; exact List.pairwise_singleton R s
  | cons i is ih =>
    intro s ss h
    obtain ⟨s', ss', hs, hr, rfl⟩ := run_cons h
    have hrest := ih s' ss' hr
    have hstep' := hstep s i s' hs
    refine List.pairwise_cons.2 ⟨fun t ht => ?_, hrest⟩
    rcases List.mem_cons.1 ht with rfl | ht
    · exact hstep'
    · exact htrans s s' t hstep' ((List.pairwise_cons.1 hrest).1 t ht)

theorem rel_cases {α β : Type} {r : α → β → Prop} {a : Option α} {b : Option β} (h : Option.Rel r a b) :
    (a = none ∧ b = none) ∨ ∃ x y, a = some x ∧ b = some y ∧ r x y := by
  cases h with
  | none => exact Or.inl ⟨rfl, rfl⟩
  | some h => exact Or.inr ⟨_, _, rfl, rfl, h⟩

/-- The simulation rule where the steps of the one system have to meet a condition. -/
theorem run_rel_along {τ : Type} {step' : τ → ι → Option τ} {r : σ → τ → Prop} {C : σ → ι → Prop}
    (hstep : ∀ s t i, r s t → C s i → Option.Rel r (step s i) (step' t i)) :
    ∀ (is : List ι) (s : σ) (t : τ), r s t → Along step C s is →
      Option.Rel (List.Forall₂ r) (run step s is) (run step' t is) := by
  intro is
  induction is with
  | nil => exact fun _ _ _ _ => .some .nil
  | cons i is ih =>
    intro s t h hC
    rcases rel_cases (hstep s t i h hC.1) with ⟨hs, ht⟩ | ⟨s', t', hs, ht, h'⟩
    · simp only [run, hs, ht]
      exact .none
    · rcases rel_cases (ih s' t' h' (hC.2 s' hs)) with ⟨hrs, hrt⟩ | ⟨ss, ts, hrs, hrt, hr⟩
      · simp only [run, hs, ht, hrs, hrt]
        exact .none
      · simp only [run, hs, ht, hrs, hrt]
        exact .some (.cons h' hr)

/-- **The simulation rule.** Two systems whose steps keep a relation between their states lead through
related states, or neither completes. -/
theorem run_rel {τ : Type} {step' : τ → ι → Option τ} {r : σ → τ → Prop}
    (hstep : ∀ s t i, r s t → Option.Rel r (step s i) (step' t i)) :
    ∀ (is : List ι) (s : σ) (t : τ), r s t → Option.Rel (List.Forall₂ r) (run step s is) (run step' t is) :=
  fun is s t h => run_rel_along (C := fun _ _ => True) (fun s t i h _ => hstep s t i h) is s t h (along_true is s)

/-- What holds of the states of the one run, and passes along the relation, holds of the other. -/
theorem forall_of_rel {τ : Type} {r : σ → τ → Prop} {Inv : σ → Prop} {Inv' : τ → Prop}
    (hr : ∀ s t, r s t → Inv' t → Inv s) {ss : List σ} {ts : List τ} (h : List.Forall₂ r ss ts)
    (hts : ∀ t ∈ ts, Inv' t) : ∀ s ∈ ss, Inv s := by
  induction h with
  | nil => exact fun s hs => (by cases hs)
  | cons h _ ih =>
    obtain ⟨ht, hts⟩ := List.forall_mem_cons.1 hts
    exact List.forall_mem_cons.2 ⟨hr _ _ h ht, ih hts⟩

end Runs
