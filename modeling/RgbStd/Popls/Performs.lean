import RgbStd.Popls.Steps
/-!
# Calls of a wallet as sequences of operations

Whatever `prefab` and `bundle` return, what they have done is to make some operations, one after
another. What one operation does to a wallet gives what a call does, by induction on `Performs`.

* `prefabs_performs`: a list of requests makes what `executed` says.
* `after_performs`: a call makes what `makes` says.
-/
namespace RgbStd
open Tables Decode

/-- An operation with the request it was made from; `blank` if the wallet made that too. -/
structure Made (H : Hypersonic) (B : BpCore) where
  request : OpRequest H (PrefabSeal B.Noise)
  blank : Bool
  operation : H.Operation

inductive WalletCall (H : Hypersonic) (B : BpCore) where
  | prefab (request : OpRequest H (PrefabSeal B.Noise))
  | bundle (requests : List (OpRequest H (PrefabSeal B.Noise))) (change : Option UInt32)

namespace RgbWallet

variable {H : Hypersonic} {B : BpCore} {W : Wire H B.txoSeal} {V : Verifier H B.txoSeal} {P : Stockpile W V}

/-- The operations `prefabs` makes, also when it fails in the end. -/
def executed (w : RgbWallet P) (blank : Bool) : List (OpRequest H (PrefabSeal B.Noise)) → List (Made H B)
  | [] => []
  | request :: requests => match w.prefab request with
    | (.error _, _) => []
    | (.ok p, w) => ⟨request, blank, p.operation⟩ :: w.executed blank requests

/-- The operations a call makes. -/
def makes (w : RgbWallet P) : WalletCall H B → List (Made H B)
  | .prefab request => w.executed false [request]
  | .bundle requests change => w.executed false requests ++ match w.plan requests change with
    | (.error _, _) => []
    | (.ok (_, blanks), w) => w.executed true blanks

/-- The wallet after a call; a panic ends the run. -/
def after (w : RgbWallet P) : WalletCall H B → Option (RgbWallet P)
  | .prefab request => match w.prefab request with
    | (.error .panic, _) => none
    | (_, w) => some w
  | .bundle requests change => match w.bundle requests change with
    | (.error .panic, _) => none
    | (_, w) => some w

/-- From one state of a wallet to another by operations made in this order, with nothing but readings
in between. -/
inductive Performs : RgbWallet P → List (Made H B) → RgbWallet P → Prop where
  | done (w : RgbWallet P) : Performs w [] w
  | reads {w w₁ w' : RgbWallet P} {made : List (Made H B)} (h : Same w w₁) (rest : Performs w₁ made w') :
    Performs w made w'
  | makes {w w₁ w' : RgbWallet P} {made : List (Made H B)} {request : OpRequest H (PrefabSeal B.Noise)} {blank : Bool}
    {p : Prefab H} (h : w.prefab request = (.ok p, w₁)) (rest : Performs w₁ made w') :
    Performs w (⟨request, blank, p.operation⟩ :: made) w'

theorem Performs.trans {w w₁ w' : RgbWallet P} {made made' : List (Made H B)} (h : Performs w made w₁)
    (h' : Performs w₁ made' w') : Performs w (made ++ made') w' := by
  induction h with
  | done w => exact h'
  | reads hs _ ih => exact .reads hs (ih h')
  | makes hp _ ih => exact .makes hp (ih h')

theorem Performs.wallet {w w' : RgbWallet P} {made : List (Made H B)} (h : Performs w made w') : w'.wallet = w.wallet := by
  induction h with
  | done w => rfl
  | reads hs _ ih => exact ih.trans hs.wallet
  | makes hp _ ih =>
    obtain ⟨_, _, hcalls, _⟩ := prefab_ok hp
    exact ih.trans hcalls.wallet

/-- Nothing made, nothing changed. -/
theorem Performs.same {w w' : RgbWallet P} (h : Performs w ([] : List (Made H B)) w') : Same w w' := by
  generalize hmade : ([] : List (Made H B)) = made at h
  induction h with
  | done w => exact Same.refl w
  | reads hs _ ih => exact hs.trans (ih hmade)
  | makes => cases hmade

/-- A list of requests is executed until one is refused. -/
theorem prefabs_performs (hL : H.CallLaws) (blank : Bool) {requests : List (OpRequest H (PrefabSeal B.Noise))} :
    ∀ {w w' : RgbWallet P} {r : Res (MultiError (PrefabError H) H.StockError Empty) (List (Prefab H))},
      w.prefabs requests = (r, w') → r = .error .panic ∨ Performs w (w.executed blank requests) w' := by
  induction requests with
  | nil =>
    intro w w' r h
    cases h
    exact Or.inr (.done w)
  | cons request requests ih =>
    intro w w' r h
    simp only [prefabs] at h
    split at h
    · rename_i e w₁ hp
      cases h
      simp only [executed, hp]
      cases e with
      | panic => exact Or.inl rfl
      | err e => exact Or.inr (.reads (prefab_err hL hp).1 (.done _))
    · rename_i p w₁ hp
      simp only [executed, hp]
      split at h
      · rename_i e w₂ hps
        cases h
        refine (ih hps).imp (fun he => ?_) (.makes hp)
        cases he
        rfl
      · rename_i ps w₂ hps
        cases h
        exact Or.inr (.makes hp ((ih hps).resolve_left (by simp)))

theorem prefabs_wallet (hL : H.CallLaws) {w w' : RgbWallet P} {requests : List (OpRequest H (PrefabSeal B.Noise))}
    {ps : List (Prefab H)} (h : w.prefabs requests = (.ok ps, w')) : w'.wallet = w.wallet :=
  ((prefabs_performs hL false h).resolve_left (by simp)).wallet

/-- A bundle executes its requests, and the blanks if it comes to them. -/
theorem bundle_performs (hL : H.CallLaws) {w w' : RgbWallet P} {requests : List (OpRequest H (PrefabSeal B.Noise))}
    {change : Option UInt32} {r : Res (MultiError (BundleError H) H.StockError Empty) (PrefabBundle H)}
    (h : w.bundle requests change = (r, w')) : r = .error .panic ∨ Performs w (w.makes (.bundle requests change)) w' := by
  simp only [bundle] at h
  split at h
  · rename_i e w₁ hplan
    cases h
    simp only [makes, hplan, List.append_nil]
    rcases plan_eq hplan with ⟨e', hps, he⟩ | ⟨ps, w₂, hps, hr⟩
    · refine (prefabs_performs hL false hps).imp_left fun hpanic => ?_
      cases hpanic
      exact congrArg Except.error (Except.error.inj he)
    · refine hr.imp (fun he => congrArg Except.error (Except.error.inj he)) fun hplanned => ?_
      have hall := (prefabs_performs hL false hps).resolve_left (by simp)
      simpa using hall.trans (.reads hplanned.1 (.done _))
  · rename_i ps blanks w₁ hplan
    simp only [makes, hplan]
    rcases plan_eq hplan with ⟨_, _, he⟩ | ⟨ps', w₂, hps, hr⟩
    · cases he
    have hsame := (hr.resolve_left (by simp)).1
    have hall := (prefabs_performs hL false hps).resolve_left (by simp)
    split at h
    · rename_i e w₃ hbs
      cases h
      refine (prefabs_performs hL true hbs).imp (fun hpanic => ?_) fun hrest => hall.trans (.reads hsame hrest)
      cases hpanic
      rfl
    · rename_i bs w₃ hbs
      have hrest := (prefabs_performs hL true hbs).resolve_left (by simp)
      split at h <;> cases h <;> exact Or.inr (hall.trans (.reads hsame hrest))

/-- **What a call does** is what it makes. -/
theorem after_performs (hL : H.CallLaws) {w w' : RgbWallet P} {call : WalletCall H B} (h : w.after call = some w') :
    Performs w (w.makes call) w' := by
  cases call with
  | prefab request =>
    simp only [after] at h
    split at h
    · cases h
    · rename_i r w₁ hne hp
      cases h
      simp only [makes, executed, hp]
      cases r with
      | ok p => exact .makes hp (.done _)
      | error e =>
        cases e with
        | panic => exact absurd rfl hne
        | err e => exact .reads (prefab_err hL hp).1 (.done _)
  | bundle requests change =>
    simp only [after] at h
    split at h
    · cases h
    · rename_i r w₁ hne hb
      cases h
      exact (bundle_performs hL hb).resolve_left fun hr => hne hr

end RgbWallet

end RgbStd
