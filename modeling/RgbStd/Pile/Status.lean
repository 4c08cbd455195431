import RgbStd.Lib.Extremes
/-!
# Witness status (pile.rs:36-117)

Statuses share one number line, the quasi-height: genesis at 0, mined witnesses at their
height, then off-chain, tentative and archived at the top. A lesser height is better.
`bestOf` is the fold of `Contract::witness_status` (contract.rs:388).
-/
namespace RgbStd
open Extremes

/-- `NonZeroU64`. -/
structure NonZeroU64 where
  val : UInt64
  ne_zero : val ≠ 0
deriving DecidableEq, Repr

inductive WitnessStatus where
  | genesis
  | mined (height : NonZeroU64)
  | offchain
  | tentative
  | archived
deriving DecidableEq, Repr

namespace WitnessStatus

def GENESIS : UInt64 := 0
def TENTATIVE : UInt64 := 0xFFFFFFFFFFFFFFFF ^^^ 0x01
def OFFCHAIN : UInt64 := 0xFFFFFFFFFFFFFFFF ^^^ 0x02
def ARCHIVED : UInt64 := 0xFFFFFFFFFFFFFFFF

def isMined : WitnessStatus → Bool
  | mined _ => true
  | _ => false

def isValid : WitnessStatus → Bool
  | archived => false
  | _ => true

def quasiHeight : WitnessStatus → UInt64
  | genesis => GENESIS
  | archived => ARCHIVED
  | tentative => TENTATIVE
  | offchain => OFFCHAIN
  | mined height => height.val

/-- Lesser height means "mined deeper", which implies better security. -/
def isBetter (a b : WitnessStatus) : Bool := a.quasiHeight < b.quasiHeight

def isWorse (a b : WitnessStatus) : Bool := !a.isBetter b

def best (a b : WitnessStatus) : WitnessStatus := if a.isBetter b then a else b

def worst (a b : WitnessStatus) : WitnessStatus := if a.isWorse b then a else b

/-- `reduce(best)`, genesis for an operation without witnesses (contract.rs:388-396). -/
def bestOf : List WitnessStatus → WitnessStatus
  | [] => genesis
  | s :: ss => ss.foldl best s

theorem isBetter_iff {a b : WitnessStatus} : a.isBetter b = true ↔ a.quasiHeight.toNat < b.quasiHeight.toNat := by
  simp only [isBetter, decide_eq_true_eq]
  exact UInt64.lt_iff_toNat_lt

theorem isValid_iff {s : WitnessStatus} : s.isValid = true ↔ s ≠ archived := by
  cases s <;> simp [isValid]

theorem best_least (a b : WitnessStatus) : Least (fun s => s.quasiHeight.toNat) (a.best b) [a, b] := by
  simp only [best, isBetter_iff]
  split
  · rename_i h
    exact ⟨by simp, by simpa using Nat.le_of_lt h⟩
  · rename_i h
    exact ⟨by simp, by simpa using Nat.le_of_not_lt h⟩

theorem bestOf_least {ss : List WitnessStatus} (h : ss ≠ []) : Least (fun s => s.quasiHeight.toNat) (bestOf ss) ss := by
  cases ss with
  | nil => exact absurd rfl h
  | cons s ss => exact least_foldl best_least ss s

end WitnessStatus

end RgbStd
