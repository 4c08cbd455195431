import RgbStd.Pile.Status
import RgbStd.Lib.Numerals
/-!
# Witness statuses in eight bytes (pile.rs:119-139)

A status is stored as its depth, the distance of its quasi-height from the top of the number line, in
big-endian bytes. Every eight bytes are read as a status, and bytes are in the order of the statuses they
are read as. A mined status at one of the three greatest heights is written as the bytes of the status
that has the height for its quasi-height.

* `quasiHeight_ofHeight`: what is read has the quasi-height that was written.
* `bytes_roundTrip_iff`: the mined statuses below those heights, and all that are not mined, are read back.
-/
namespace RgbStd
open Numerals

namespace WitnessStatus

/-- `From<[u8; 8]> for WitnessStatus`, from the depth. -/
def ofHeight (height : UInt64) : WitnessStatus :=
  if h : height = GENESIS then genesis
  else if height = ARCHIVED then archived
  else if height = TENTATIVE then tentative
  else if height = OFFCHAIN then offchain
  else mined ⟨height, h⟩

/-- `From<[u8; 8]> for WitnessStatus`. -/
def ofBytes (value : Vector UInt8 8) : WitnessStatus :=
  let depth := ofBeBytes value
  let height := 0xFFFFFFFFFFFFFFFF - depth
  ofHeight height

/-- `From<WitnessStatus> for [u8; 8]`. -/
def toBytes (value : WitnessStatus) : Vector UInt8 8 :=
  let height := value.quasiHeight
  let depth := 0xFFFFFFFFFFFFFFFF - height
  toBeBytes depth

/-- Not mined at the height of an off-chain, a tentative or an archived witness. -/
def BelowReserved : WitnessStatus → Prop
  | mined height => height.val < OFFCHAIN
  | _ => True

theorem quasiHeight_ofHeight (height : UInt64) : (ofHeight height).quasiHeight = height := by
  unfold ofHeight
  split_ifs with hg ha ht ho
  · exact hg.symm
  · exact ha.symm
  · exact ht.symm
  · exact ho.symm
  · rfl

/-- The four heights that are not read as mined. -/
theorem lt_offchain_iff {height : UInt64} :
    height < OFFCHAIN ↔ height ≠ OFFCHAIN ∧ height ≠ TENTATIVE ∧ height ≠ ARCHIVED := by
  have ho : OFFCHAIN.toNat = 18446744073709551613 := rfl
  have ht : TENTATIVE.toNat = 18446744073709551614 := rfl
  have ha : ARCHIVED.toNat = 18446744073709551615 := rfl
  have hlt := height.toNat_lt
  simp only [UInt64.lt_iff_toNat_lt, ne_eq, ← UInt64.toNat_inj, ho, ht, ha]
  omega

theorem ofHeight_quasiHeight_iff (s : WitnessStatus) : ofHeight s.quasiHeight = s ↔ s.BelowReserved := by
  cases s with
  | genesis => exact iff_of_true rfl trivial
  | offchain => exact iff_of_true rfl trivial
  | tentative => exact iff_of_true rfl trivial
  | archived => exact iff_of_true rfl trivial
  | mined height =>
    show _ ↔ height.val < OFFCHAIN
    rw [lt_offchain_iff]
    have hg : height.val ≠ GENESIS := height.ne_zero
    unfold ofHeight quasiHeight
    rw [dif_neg hg]
    split_ifs with ha ht ho
    · exact iff_of_false (fun h => nomatch h) fun h => h.2.2 ha
    · exact iff_of_false (fun h => nomatch h) fun h => h.2.1 ht
    · exact iff_of_false (fun h => nomatch h) fun h => h.1 ho
    · exact iff_of_true rfl ⟨ho, ht, ha⟩

theorem toNat_depth (n : UInt64) : (0xFFFFFFFFFFFFFFFF - n).toNat = 18446744073709551615 - n.toNat := by
  have hle : n ≤ 0xFFFFFFFFFFFFFFFF := by
    rw [UInt64.le_iff_toNat_le]
    exact Nat.le_of_lt_succ n.toNat_lt
  exact UInt64.toNat_sub_of_le _ _ hle

theorem depth_depth (n : UInt64) : 0xFFFFFFFFFFFFFFFF - (0xFFFFFFFFFFFFFFFF - n) = n := by
  have hlt := n.toNat_lt
  rw [← UInt64.toNat_inj, toNat_depth, toNat_depth]
  omega

/-- What is read of a status that was stored. -/
def stored (s : WitnessStatus) : WitnessStatus := ofHeight s.quasiHeight

/-- What is read back of a status is read off its quasi-height. -/
theorem ofBytes_toBytes (s : WitnessStatus) : ofBytes (toBytes s) = s.stored := by
  simp only [ofBytes, toBytes, ofBeBytes_toBeBytes, depth_depth, stored]

theorem toBytes_ofBytes (bs : Vector UInt8 8) : toBytes (ofBytes bs) = bs := by
  simp only [ofBytes, toBytes, quasiHeight_ofHeight, depth_depth, toBeBytes_ofBeBytes]

/-! ## What is stored -/

theorem stored_eq_self_iff {s : WitnessStatus} : s.stored = s ↔ s.BelowReserved := ofHeight_quasiHeight_iff s

theorem quasiHeight_stored (s : WitnessStatus) : s.stored.quasiHeight = s.quasiHeight := quasiHeight_ofHeight _

@[simp] theorem stored_stored (s : WitnessStatus) : s.stored.stored = s.stored := congrArg ofHeight s.quasiHeight_stored

@[simp] theorem stored_genesis : genesis.stored = genesis := rfl

@[simp] theorem stored_offchain : offchain.stored = offchain := rfl

@[simp] theorem stored_tentative : tentative.stored = tentative := rfl

@[simp] theorem stored_archived : archived.stored = archived := rfl

end WitnessStatus

/-- A status that eight bytes are read as. -/
abbrev StoredStatus := {s : WitnessStatus // s.stored = s}

namespace WitnessStatus

/-- A status as a table of eight-byte values keeps it. -/
def store (s : WitnessStatus) : StoredStatus := ⟨s.stored, s.stored_stored⟩

/-- Stored statuses of one quasi-height are the same. -/
theorem eq_of_quasiHeight_eq {s t : WitnessStatus} (hs : s.stored = s) (ht : t.stored = t)
    (h : s.quasiHeight = t.quasiHeight) : s = t := by
  rw [← hs, ← ht]
  exact congrArg ofHeight h

/-- An archived witness is at the greatest of the heights. -/
theorem quasiHeight_le_archived (s : WitnessStatus) : s.quasiHeight.toNat ≤ archived.quasiHeight.toNat :=
  Nat.le_of_lt_succ s.quasiHeight.toNat_lt

/-- **The best of stored statuses** is valid if one of them is, or there is none. -/
theorem isValid_bestOf_iff {ss : List WitnessStatus} (hs : ∀ s ∈ ss, s.stored = s) :
    (bestOf ss).isValid = true ↔ ss = [] ∨ ∃ s ∈ ss, s.isValid = true := by
  by_cases hn : ss = []
  · subst hn
    exact iff_of_true rfl (Or.inl rfl)
  · obtain ⟨hm, hle⟩ := bestOf_least hn
    rw [or_iff_right hn]
    constructor
    · exact fun h => ⟨_, hm, h⟩
    · rintro ⟨s, hmem, hv⟩
      -- An archived best leaves no other height for the rest.
      by_contra hi
      have hbest : bestOf ss = archived := not_not.1 (mt isValid_iff.2 hi)
      have hheight : s.quasiHeight = archived.quasiHeight :=
        UInt64.toNat_inj.1 (Nat.le_antisymm s.quasiHeight_le_archived (hbest ▸ hle s hmem))
      rw [eq_of_quasiHeight_eq (hs s hmem) stored_archived hheight] at hv
      cases hv

theorem isValid_bestOf_map_iff {W : Type} {ws : List W} {status : W → WitnessStatus}
    (hs : ∀ w ∈ ws, (status w).stored = status w) :
    (bestOf (ws.map status)).isValid = true ↔ ws = [] ∨ ∃ w ∈ ws, (status w).isValid = true := by
  have hs' : ∀ s ∈ ws.map status, s.stored = s := by simpa using hs
  simp [isValid_bestOf_iff hs']

/-! ## The order of the bytes -/

/-- A better status has the greater bytes. -/
theorem isBetter_iff_toBytes (a b : WitnessStatus) : a.isBetter b = true ↔ (toBytes b).toList < (toBytes a).toList := by
  have ha := a.quasiHeight.toNat_lt
  have hb := b.quasiHeight.toNat_lt
  simp only [toBytes, toBeBytes_lt_iff, toNat_depth, isBetter_iff]
  omega

/-- **The bytes of a status**: every eight bytes are the bytes of the status they are read as, the bytes
are in the order of the statuses, and a status is read back exactly if it is not mined at a height
that stands for another status. -/
theorem bytes_roundTrip_iff (s t : WitnessStatus) (bs : Vector UInt8 8) :
    (ofBytes (toBytes s) = s ↔ s.BelowReserved) ∧ toBytes (ofBytes bs) = bs ∧
    (s.isBetter t = true ↔ (toBytes t).toList < (toBytes s).toList) :=
  ⟨by rw [ofBytes_toBytes, stored_eq_self_iff], toBytes_ofBytes bs, isBetter_iff_toBytes s t⟩

example : ofBytes (Vector.replicate 8 0xFF) = genesis := by decide

/-- Mined at the last height, it is read back as archived. -/
theorem bytes_lastHeight : ¬((∀ s : WitnessStatus, ofBytes (toBytes s) = s) ∧
    (∀ bs : Vector UInt8 8, toBytes (ofBytes bs) = bs) ∧
    ∀ a b : WitnessStatus, a.isBetter b = true ↔ (toBytes b).toList < (toBytes a).toList) := by
  intro h
  have hlast := h.1 (mined ⟨0xFFFFFFFFFFFFFFFF, by decide⟩)
  rw [ofBytes_toBytes] at hlast
  revert hlast
  decide

end WitnessStatus

end RgbStd
