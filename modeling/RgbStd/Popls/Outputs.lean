import RgbStd.Contracts.Resolve
import RgbStd.Popls.Steps
/-!
# The outputs of a prefabricated operation (popls/bp.rs:601-637)

The tokens of the outputs go into a list, the seals of those on the witness transaction into a map,
under the number of the output cut to 16 bits.

* `RecordLaws`: a called ledger has the operation, and what it had before.
* `defineSeals_entries`: the map of seals as a fold over the outputs.
* `prefab_recorded`: the tokens in the ledger and the seals in the pile, output by output.
-/
namespace RgbStd
open Tables Decode

/-- The operations of a ledger are those recorded, and the genesis of its articles. -/
def Hypersonic.Has (H : Hypersonic) (l : H.Ledger) (o : Opid) : Prop :=
  o ∈ H.operations l ∨ o = H.genesisOpid (H.articles l)

/-- A completed call is of no more outputs than an operation may have; it records the operation under
its id, beside those there were. -/
structure Hypersonic.RecordLaws (H : Hypersonic) : Prop where
  small : ∀ l p o l', H.call l p = (.ok o, l') → p.core.owned.length ≤ 65535
  opid : ∀ l p o l', H.call l p = (.ok o, l') → H.opid (H.operation l' o) = o
  recorded : ∀ l p o l', H.call l p = (.ok o, l') → H.Has l' o
  keeps : ∀ l p o l', H.call l p = (.ok o, l') → ∀ o', H.Has l o' →
    H.Has l' o' ∧ H.operation l' o' = H.operation l o'

/-- A call that is accepted makes a new operation. -/
theorem refSonic_call_new {l l' : RefLedger} {p : CallParams Nat Nat Unit} {o : Opid} (h : l.call p = (.ok o, l')) :
    p.core.owned.length ≤ 65535 ∧ o ∉ l.known ∧ l'.articles = l.articles ∧
      ∃ op : RefOperation, op.opid = o ∧ l'.ops = op :: l.ops := by
  simp only [RefLedger.call] at h
  split at h
  · rename_i hc
    obtain ⟨ho, rfl⟩ := Prod.mk.inj h
    cases ho
    exact ⟨hc.2.1, hc.2.2, rfl, _, rfl, rfl⟩
  · cases h

theorem refSonic_has {l : RefLedger} {o : Opid} : refSonic.Has l o ↔ o ∈ l.known := by
  rw [RefLedger.known, List.mem_cons, or_comm]
  rfl

theorem refSonic_recordLaws : refSonic.RecordLaws where
  small _ _ _ _ h := (refSonic_call_new h).1
  opid l p o l' h := by
    obtain ⟨-, -, -, op, rfl, hops⟩ := refSonic_call_new h
    show ((l'.ops.find? (·.opid = op.opid)).getD l'.articles.genesis).opid = op.opid
    rw [hops]
    simp
  recorded l p o l' h := by
    obtain ⟨-, -, -, op, rfl, hops⟩ := refSonic_call_new h
    refine Or.inl (?_ : op.opid ∈ l'.ops.map (·.opid))
    rw [hops]
    exact List.mem_cons_self
  keeps l p o l' h o' ho' := by
    obtain ⟨-, hnew, hart, op, rfl, hops⟩ := refSonic_call_new h
    have hne : op.opid ≠ o' := fun he => hnew (he ▸ refSonic_has.1 ho')
    constructor
    · rw [refSonic_has, RefLedger.known, RefLedger.operations, hops, hart]
      rw [refSonic_has] at ho'
      rcases List.mem_cons.1 ho' with rfl | ho'
      · exact List.mem_cons_self
      · exact List.mem_cons_of_mem _ (List.mem_cons_of_mem _ ho')
    · show (l'.ops.find? (·.opid = o')).getD l'.articles.genesis = (l.ops.find? (·.opid = o')).getD l.articles.genesis
      rw [hops, hart, List.find?_cons_of_neg (by simpa using hne)]

namespace OpRequest

variable {H : Hypersonic} {B : BpCore}

/-- The seal of an output, if it is on the witness transaction. -/
def explicitAt (engine : Bytes) (out : NamedState (Assignment (EitherSeal (PrefabSeal B.Noise)) H.StrictVal)) (no : Nat) :
    Option (WTxoSeal B.Noise) :=
  out.state.seal_.toExplicit.map (sealAt engine no)

/-- An output with an explicit seal has its token. -/
theorem authAt_explicit {engine : Bytes} {out : NamedState (Assignment (EitherSeal (PrefabSeal B.Noise)) H.StrictVal)}
    {no : Nat} {s : WTxoSeal B.Noise} (h : explicitAt engine out no = some s) :
    authAt engine no out.state.seal_ = B.authToken s := by
  unfold explicitAt at h
  cases hs : out.state.seal_ with
  | token auth => rw [hs] at h; cases h
  | alt seal_ => rw [hs] at h; cases h; rfl

/-- The map of seals is written output by output. -/
theorem defineSeals_entries {engine : Bytes} :
    ∀ {owned : List (NamedState (Assignment (EitherSeal (PrefabSeal B.Noise)) H.StrictVal) × Nat)}
      {defines defines' : SmallSet UInt32} {seals seals' : SmallMap UInt16 (WTxoSeal B.Noise)},
      defineSeals engine owned defines seals = .ok (defines', seals') → seals'.entries =
        (owned.filterMap fun e => (explicitAt engine e.1 e.2).map fun s => (UInt16.ofNat e.2, s)).foldl
          (fun t e => upsert t e.1 e.2) seals.entries := by
  intro owned
  induction owned with
  | nil =>
    intro defines defines' seals seals' h
    cases h
    rfl
  | cons e owned ih =>
    obtain ⟨out, no⟩ := e
    intro defines defines' seals seals' h
    rw [defineSeals] at h
    split at h
    · rename_i auth hs
      rw [List.filterMap_cons_none (by simp [explicitAt, hs, EitherSeal.toExplicit])]
      exact ih h
    · rename_i seal_ hs
      split at h
      · cases h
      · split at h
        · cases h
        · rename_i seals₁ hins
          have hsome : explicitAt engine out no = some (sealAt engine no seal_) := by
            simp only [explicitAt, hs, EitherSeal.toExplicit, Option.map_some]
          rw [ih h, SmallMap.insert_entries hins, List.filterMap_cons, hsome]
          rfl

/-- The seals of a draft, by the numbers of its outputs. -/
theorem draft_seals {engine : Bytes} {request : OpRequest H (PrefabSeal B.Noise)} {d : Draft H B}
    (h : request.draft engine = .ok d) (hlen : request.owned.length ≤ 65535) (k : UInt16) :
    get d.seals.entries k = request.owned[k.toNat]?.bind (explicitAt engine · k.toNat) := by
  obtain ⟨-, hds, -⟩ := draft_eq_ok h
  have hnd : (keys (numbered (explicitAt engine) request.owned)).Nodup := nodup_numbered _ (by omega)
  rw [defineSeals_entries hds]
  refine (get_foldl_upsert (numbered (explicitAt engine) request.owned) [] hnd k).trans ?_
  rw [get_nil, Option.or_none, get_numbered _ (by omega)]

end OpRequest

namespace RgbWallet

variable {H : Hypersonic} {B : BpCore} {W : Wire H B.txoSeal} {V : Verifier H B.txoSeal} {P : Stockpile W V}

/-- The contract after an operation was prefabricated for it, with the engine its noise is derived from. -/
structure Recorded (engine : Bytes) (request : OpRequest H (PrefabSeal B.Noise)) (op : H.Operation)
    (c c' : Contract H B.txoSeal) : Prop where
  small : request.owned.length ≤ 65535
  has : H.Has c'.ledger (H.opid op)
  operation : H.operation c'.ledger (H.opid op) = op
  keeps : ∀ o, H.Has c.ledger o → H.Has c'.ledger o ∧ H.operation c'.ledger o = H.operation c.ledger o
  outs : ∀ n, (H.destructibleOut op)[n]? = request.owned[n]?.map fun out => OpRequest.authAt engine n out.state.seal_
  seals : ∀ a s, c'.pile.seal a = some s ↔ c.pile.seal a = some s ∨
    (a.opid = H.opid op ∧ request.owned[a.pos.toNat]?.bind (OpRequest.explicitAt engine · a.pos.toNat) = some s)

/-- **What a prefab records**: the tokens of its outputs in the ledger, their seals in the pile. -/
theorem prefab_recorded (hL : H.CallLaws) (hR : H.RecordLaws) {w w' : RgbWallet P}
    {request : OpRequest H (PrefabSeal B.Noise)} {p : Prefab H} (h : w.prefab request = (.ok p, w')) :
    w'.wallet = w.wallet ∧ ∃ c c', w.contracts.served request.contractId = some c ∧
      (∀ id, w'.contracts.served id = if id = request.contractId then some c' else w.contracts.served id) ∧
      Recorded (w.contractEngine request.contractId) request p.operation c c' := by
  obtain ⟨c, d, hcalls, hop, -⟩ := prefab_ok h
  obtain ⟨o, ledger, hl, hop, hledger, hpile⟩ := Contract.call_ok hop
  have hout := (OpRequest.draft_ok hcalls.draft).2.2
  have hsmall : request.owned.length ≤ 65535 := by
    have hlen := congrArg List.length hout
    simp only [List.length_map, List.length_zipIdx] at hlen
    exact hlen ▸ hR.small _ _ _ _ hl
  have hopid : H.opid p.operation = o := by rw [hop]; exact hR.opid _ _ _ _ hl
  refine ⟨hcalls.wallet, c, _, hcalls.served, hcalls.after, hsmall, ?_, ?_, ?_, fun n => ?_, fun a s => ?_⟩
  · rw [hopid, hledger]
    exact hR.recorded _ _ _ _ hl
  · rw [hopid, hledger, hop]
  · rw [hledger]
    exact hR.keeps _ _ _ _ hl
  · rw [hop, hL.outs _ _ _ _ hl, hout, List.getElem?_map, List.getElem?_zipIdx, Option.map_map, Nat.zero_add]
    rfl
  · rw [PileFs.addSeals_seal d.seals.nodup hpile, hopid, OpRequest.draft_seals hcalls.draft hsmall]

end RgbWallet

end RgbStd
