import Mathlib.Data.Nat.Pairing
import RgbStd.Stockpile.Dir
/-!
# Transaction output seals

| here | there |
| --- | --- |
| `Outpoint`, `WOutpoint`, `TxoSealExt`, `WTxoSeal`, `TxoSeal` | the seals of the `bp` crate (not part of the repository) |
| `BpCore`      | its noise derivation, token commitment, transactions and anchors |
| `txoSeal`     | `RgbSealDef for WTxoSeal`, the seals a `RgbWallet` works with (popls/bp.rs:348) |

An output of the witness transaction itself has no transaction id yet; `resolve` supplies it.
-/
namespace RgbStd
open Tables Decode

structure Txid where
  tag : Nat
deriving DecidableEq, Repr

structure Outpoint where
  txid : Txid
  vout : UInt32
deriving DecidableEq, Repr

instance : Ord Outpoint := ⟨compareLex (compareOn (·.txid.tag)) (compareOn (·.vout))⟩

instance : Std.TransOrd Outpoint := inferInstanceAs (Std.TransCmp (compareLex _ _))

/-- An output of the witness transaction, or of another one. -/
inductive WOutpoint where
  | wout (vout : UInt32)
  | other (outpoint : Outpoint)
deriving DecidableEq, Repr

inductive TxoSealExt (N : Type) where
  | noise (n : N)
  | fallback (outpoint : Outpoint)
deriving DecidableEq, Repr

@[ext] structure WTxoSeal (N : Type) where
  primary : WOutpoint
  secondary : TxoSealExt N
deriving DecidableEq, Repr

structure TxoSeal (N : Type) where
  primary : Outpoint
  secondary : TxoSealExt N
deriving DecidableEq, Repr

/-- What the library takes from the `bp` crate. `noiseWith` is `Noise::with`, over the bytes its
engine was fed. -/
structure BpCore where
  Noise : Type
  Tx : Type
  Anchor : Type
  [decNoise : DecidableEq Noise]
  [decTx : DecidableEq Tx]
  [decAnchor : DecidableEq Anchor]
  noiseWith : WOutpoint → Bytes → UInt64 → Noise
  authToken : WTxoSeal Noise → AuthToken
  txid : Tx → Txid
  merge : Anchor → Anchor → Option Anchor

attribute [instance] BpCore.decNoise BpCore.decTx BpCore.decAnchor

namespace WTxoSeal

variable {N : Type}

def resolve (s : WTxoSeal N) (witness : Txid) : TxoSeal N :=
  match s.primary with
  | .wout vout => ⟨⟨witness, vout⟩, s.secondary⟩
  | .other outpoint => ⟨outpoint, s.secondary⟩

def toSrc (s : WTxoSeal N) : Option (TxoSeal N) :=
  match s.primary with
  | .wout _ => none
  | .other outpoint => some ⟨outpoint, s.secondary⟩

end WTxoSeal

@[reducible] def BpCore.txoSeal (B : BpCore) : RgbSeal where
  Src := TxoSeal B.Noise
  Definition := WTxoSeal B.Noise
  Published := B.Tx
  Client := B.Anchor
  WitnessId := Txid
  pubId := B.txid
  merge := B.merge
  authToken := B.authToken
  resolve := WTxoSeal.resolve
  toSrc := WTxoSeal.toSrc

/-- The hashes do not collide. -/
structure BpCore.NoCollisions (B : BpCore) : Prop where
  noise : ∀ p e n p' e' n', B.noiseWith p e n = B.noiseWith p' e' n' → p = p' ∧ e = e' ∧ n = n'
  auth : ∀ s s', B.authToken s = B.authToken s' → s = s'

/-! ## A reference core: noise that keeps what it was derived from -/

@[ext] structure RefNoise where
  primary : WOutpoint
  engine : Bytes
  nonce : UInt64
deriving DecidableEq, Repr

namespace RefNoise

/-- Bytes as a number, in the digits 1 to 256. -/
def number : Bytes → Nat
  | [] => 0
  | b :: bs => 256 * number bs + b.toNat + 1

theorem number_inj : ∀ {bs bs' : Bytes}, number bs = number bs' → bs = bs' := by
  intro bs
  induction bs with
  | nil =>
    intro bs' h
    cases bs' with
    | nil => rfl
    | cons b bs' => simp only [number] at h; omega
  | cons b bs ih =>
    intro bs' h
    cases bs' with
    | nil => simp only [number] at h; omega
    | cons b' bs' =>
      simp only [number] at h
      have hb := b.toNat_lt
      have hb' := b'.toNat_lt
      obtain rfl : b = b' := UInt8.toNat_inj.1 (by omega)
      have hn : number bs = number bs' := by omega
      rw [ih hn]

def outpointTag (o : Outpoint) : Nat := Nat.pair o.txid.tag o.vout.toNat

def primaryTag : WOutpoint → Nat
  | .wout vout => 2 * vout.toNat
  | .other outpoint => 2 * outpointTag outpoint + 1

def secondaryTag : TxoSealExt RefNoise → Nat
  | .noise n => 2 * Nat.pair (primaryTag n.primary) (Nat.pair (number n.engine) n.nonce.toNat)
  | .fallback outpoint => 2 * outpointTag outpoint + 1

def authToken (s : WTxoSeal RefNoise) : AuthToken := ⟨Nat.pair (primaryTag s.primary) (secondaryTag s.secondary)⟩

theorem outpointTag_inj {o o' : Outpoint} (h : outpointTag o = outpointTag o') : o = o' := by
  obtain ⟨⟨t⟩, v⟩ := o
  obtain ⟨⟨t'⟩, v'⟩ := o'
  obtain ⟨rfl, hv⟩ : t = t' ∧ v.toNat = v'.toNat := by simpa [outpointTag] using h
  rw [UInt32.toNat_inj.1 hv]

theorem primaryTag_inj {p p' : WOutpoint} (h : primaryTag p = primaryTag p') : p = p' := by
  cases p with
  | wout v =>
    cases p' with
    | wout v' => rw [UInt32.toNat_inj.1 (Nat.eq_of_mul_eq_mul_left (by decide) h)]
    | other o' => simp only [primaryTag] at h; omega
  | other o =>
    cases p' with
    | wout v' => simp only [primaryTag] at h; omega
    | other o' => rw [outpointTag_inj (Nat.eq_of_mul_eq_mul_left (by decide) (Nat.succ.inj h))]

theorem secondaryTag_inj {s s' : TxoSealExt RefNoise} (h : secondaryTag s = secondaryTag s') : s = s' := by
  cases s with
  | noise n =>
    cases s' with
    | noise n' =>
      have hp := Nat.eq_of_mul_eq_mul_left (by decide) h
      simp only [Nat.pair_eq_pair] at hp
      obtain ⟨h₁, h₂, h₃⟩ := hp
      exact congrArg _ (RefNoise.ext (primaryTag_inj h₁) (number_inj h₂) (UInt64.toNat_inj.1 h₃))
    | fallback o' => simp only [secondaryTag] at h; omega
  | fallback o =>
    cases s' with
    | noise n' => simp only [secondaryTag] at h; omega
    | fallback o' => rw [outpointTag_inj (Nat.eq_of_mul_eq_mul_left (by decide) (Nat.succ.inj h))]

end RefNoise

@[reducible] def refBp : BpCore where
  Noise := RefNoise
  Tx := Nat
  Anchor := UniqueMap Nat Nat
  noiseWith := RefNoise.mk
  authToken := RefNoise.authToken
  txid n := ⟨n⟩
  merge := UniqueMap.unite

theorem refBp_noCollisions : refBp.NoCollisions where
  noise p e n p' e' n' h := by
    obtain ⟨rfl, rfl, rfl⟩ := RefNoise.mk.inj h
    exact ⟨rfl, rfl, rfl⟩
  auth s s' h := by
    obtain ⟨h₁, h₂⟩ := Nat.pair_eq_pair.1 (AuthToken.mk.inj h)
    exact WTxoSeal.ext (RefNoise.primaryTag_inj h₁) (RefNoise.secondaryTag_inj h₂)

end RgbStd
