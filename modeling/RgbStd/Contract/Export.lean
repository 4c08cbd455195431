import RgbStd.Consign.Agree
import RgbStd.Consign.Encode
import RgbStd.Contract.Sync
/-!
# The operations of an export (contract.rs:640-674, pile.rs:129-142)

| here | there |
| --- | --- |
| `PileFs::seals`  | the seals of the first outputs of an operation |
| `aux`            | `Contract::aux`: seals, a flag, and the witness if there is one |
| `exported`       | the genesis, the number of the operations after it, and these, each with its `aux` |
| `block`          | an operation as the reader gives it |

The writer puts a flag where the reader expects an option, and the number of operations after the
first of them, which the reader counts from `u32::MAX`.

* `get_seals`: the seals written are those of the pile, output by output.
* `feed_exported`: what was written is read back, and nothing of what follows.
-/
namespace RgbStd
open Tables Decode Decoder

/-! ## The seals of an operation -/

namespace PileFs

variable {S : RgbSeal}

/-- The loop of `PileFs::seals`: the seal of each output, in order. -/
def sealsTo (p : PileFs S) (opid : Opid) : Nat → SmallMap UInt16 S.Definition
  | 0 => .empty
  | no + 1 => match p.seal ⟨opid, UInt16.ofNat no⟩ with
    | none => p.sealsTo opid no
    | some seal_ => ((p.sealsTo opid no).insert (UInt16.ofNat no) seal_).getD (p.sealsTo opid no)

/-- `PileFs::seals` (pile.rs:129). -/
def seals (p : PileFs S) (opid : Opid) (upTo : UInt16) : SmallMap UInt16 S.Definition := p.sealsTo opid upTo.toNat

theorem sealsTo_succ_some {p : PileFs S} {opid : Opid} {no : Nat} {seal_ : S.Definition}
    (h : p.seal ⟨opid, UInt16.ofNat no⟩ = some seal_) (hl : (p.sealsTo opid no).entries.length < 65535) :
    (p.sealsTo opid (no + 1)).entries = upsert (p.sealsTo opid no).entries (UInt16.ofNat no) seal_ := by
  simp only [sealsTo, h, SmallMap.insert, hl, dif_pos, Option.getD_some]

theorem sealsTo_succ_none {p : PileFs S} {opid : Opid} {no : Nat} (h : p.seal ⟨opid, UInt16.ofNat no⟩ = none) :
    p.sealsTo opid (no + 1) = p.sealsTo opid no := by
  simp only [sealsTo, h]

theorem length_sealsTo (p : PileFs S) (opid : Opid) (n : Nat) (hn : n ≤ 65535) :
    (p.sealsTo opid n).entries.length ≤ n := by
  induction n with
  | zero => exact Nat.le_refl _
  | succ n ih =>
    have hl := ih (by omega)
    cases h : p.seal ⟨opid, UInt16.ofNat n⟩ with
    | none =>
      rw [sealsTo_succ_none h]
      omega
    | some seal_ =>
      rw [sealsTo_succ_some h (by omega)]
      have := length_upsert_le (p.sealsTo opid n).entries (UInt16.ofNat n) seal_
      omega

theorem get_sealsTo (p : PileFs S) (opid : Opid) (no : UInt16) (n : Nat) (hn : n ≤ 65535) :
    get (p.sealsTo opid n).entries no = if no.toNat < n then p.seal ⟨opid, no⟩ else none := by
  induction n with
  | zero => simp [sealsTo, SmallMap.empty]
  | succ n ih =>
    have ih := ih (by omega)
    have hlen := p.length_sealsTo opid n (by omega)
    have hofNat : (UInt16.ofNat n).toNat = n := UInt16.toNat_ofNat_of_lt' (Nat.lt_succ_of_le (by omega))
    have hno : no = UInt16.ofNat n ↔ no.toNat = n := by rw [← UInt16.toNat_inj, hofNat]
    cases h : p.seal ⟨opid, UInt16.ofNat n⟩ with
    | none =>
      rw [sealsTo_succ_none h, ih]
      by_cases he : no.toNat = n
      · rw [hno.2 he] at ih ⊢
        simp [h, hofNat]
      · by_cases hlt : no.toNat < n
        · simp [hlt, Nat.lt_succ_of_lt hlt]
        · have hge : ¬no.toNat < n + 1 := by omega
          simp [hlt, hge]
    | some seal_ =>
      rw [sealsTo_succ_some h (by omega), get_upsert, ih]
      by_cases he : no.toNat = n
      · rw [hno.2 he]
        simp [h, hofNat]
      · have hne : no ≠ UInt16.ofNat n := fun e => he (hno.1 e)
        by_cases hlt : no.toNat < n
        · simp [hne, hlt, Nat.lt_succ_of_lt hlt]
        · have hge : ¬no.toNat < n + 1 := by omega
          simp [hne, hlt, hge]

/-- **The seals of an operation** are those the pile keeps for its outputs. -/
theorem get_seals (p : PileFs S) (opid : Opid) (upTo no : UInt16) :
    get (p.seals opid upTo).entries no = if no < upTo then p.seal ⟨opid, no⟩ else none :=
  p.get_sealsTo opid no upTo.toNat (Nat.le_of_lt_succ upTo.toNat_lt)

end PileFs

/-! ## Writing -/

/-- `bool::strict_encode`. -/
def encodeBool (b : Bool) : Bytes := [if b then 1 else 0]

/-- A flag with the value behind it is an option. -/
theorem encodeBool_isSome {α : Type} (enc : α → Bytes) (o : Option α) :
    encodeBool o.isSome ++ o.elim [] enc = encodeOption enc o := by
  cases o <;> rfl

namespace Contract

variable {H : Hypersonic} {S : RgbSeal} {W : Wire H S}

/-- The seals written with an operation. -/
def auxSeals (c : Contract H S) (opid : Opid) (op : H.Operation) : SmallMap UInt16 S.Definition :=
  c.pile.seals opid (UInt16.ofNat (H.destructibleOut op).length)

/-- `Contract::aux` (contract.rs:640). -/
def aux (C : Encoder W) (c : Contract H S) (opid : Opid) (op : H.Operation) : Bytes :=
  let witness := c.retrieve opid
  C.seals (c.auxSeals opid op) ++ (encodeBool witness.isSome ++ witness.elim [] C.sealWitness)

def written (C : Encoder W) (c : Contract H S) (op : Opid × H.Operation) : Bytes := C.operation op.2 ++ c.aux C op.1 op.2

/-- The stream of `export` from the genesis on: the number of operations follows it. -/
def exported (C : Encoder W) (c : Contract H S) (genesis : Opid × H.Operation) (ops : List (Opid × H.Operation)) : Bytes :=
  c.written C genesis ++ (encodeU32 (UInt32.ofNat ops.length) ++ ops.flatMap (c.written C))

/-- What the reader is to make of an operation. -/
def block (c : Contract H S) (op : Opid × H.Operation) : OperationSeals H S where
  operation := op.2
  definedSeals := c.auxSeals op.1 op.2
  witness := c.retrieve op.1

/-! ## Reading -/

/-- An operation with its `aux` is what a consignment holds of it. -/
theorem written_eq (C : Encoder W) (c : Contract H S) (op : Opid × H.Operation) :
    c.written C op = C.operationSeals (c.block op) := by
  simp only [written, aux, encodeBool_isSome]
  rfl

/-- The reader on as many operations as it counts. -/
theorem feed_operationSeals {C : Encoder W} (hC : C.RoundTrips) (ops : List (OperationSeals H S)) (rest : Bytes)
    (n : UInt32) (hn : n.toNat = ops.length) (hlt : ops.length < 4294967295) :
    (Wire.OpReader.feed W noSeals ⟨ops.flatMap C.operationSeals ++ rest, n⟩).collect = .ok (ops, rest) := by
  induction ops generalizing n with
  | nil =>
    obtain rfl : n = 0 := UInt32.toNat_inj.1 hn
    exact Wire.collect_feed_zero rest
  | cons op ops ih =>
    rw [List.length_cons] at hn hlt
    have h0 : n ≠ 0 := by rintro rfl; simp at hn
    have hmax : n ≠ Wire.COUNT_FOLLOWS := by
      rintro rfl
      have : Wire.COUNT_FOLLOWS.toNat = 4294967295 := rfl
      omega
    have hpred : (n - 1).toNat = ops.length := by
      rw [UInt32.toNat_sub_of_le _ _ (UInt32.le_iff_toNat_le.2 (by simp; omega))]
      simp
      omega
    rw [List.flatMap_cons, List.append_assoc]
    exact (Wire.collect_feed_block h0 hmax).2
      ⟨op, _, ops, Encoder.operationSeals_reads hC op _, ih (n - 1) hpred (by omega), rfl⟩

/-- What is read of an export. -/
theorem collect_exported {C : Encoder W} (hC : C.RoundTrips) (c : Contract H S) (genesis : Opid × H.Operation)
    (ops : List (Opid × H.Operation)) (hlt : ops.length < 4294967295) (rest : Bytes) :
    (Wire.OpReader.feed W noSeals ⟨c.exported C genesis ops ++ rest, Wire.COUNT_FOLLOWS⟩).collect =
      .ok (c.block genesis :: ops.map c.block, rest) := by
  have hcount : (UInt32.ofNat ops.length).toNat = (ops.map c.block).length := by
    rw [List.length_map]
    exact UInt32.toNat_ofNat_of_lt' (Nat.lt_of_lt_of_le hlt (by decide))
  have hwritten : ops.flatMap (c.written C) = (ops.map c.block).flatMap C.operationSeals := by
    rw [List.flatMap_map]
    exact congrArg (fun f => ops.flatMap f) (funext fun op => c.written_eq C op)
  rw [exported, hwritten, written_eq, List.append_assoc, List.append_assoc]
  exact Wire.collect_feed_counted.2 ⟨_, _, _, _, _, Encoder.operationSeals_reads hC _ _, reads_u32le _ _,
    feed_operationSeals hC _ _ _ hcount (by rwa [List.length_map]), rfl⟩

end Contract

end RgbStd
