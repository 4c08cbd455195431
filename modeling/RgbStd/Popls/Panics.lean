import RgbStd.Lib.Sweep
import RgbStd.Popls.Loss
import RgbStd.Contracts.Resolve
/-!
# Where bundling panics (popls/bp.rs:549-755)

Two of the `expect` calls on the way to a bundle can be reached. `check_request` expects each address listed in
the state, and nobody has looked; `prefab` expects room in the map of seals, since there was room in the set of
outputs, but an output of the transaction is in the set once and in the map as often as state is assigned to it.

* `Stuck`: a request that reaches a panic, with the cause.
* `check_panic`, `defineSeals_panic`, `Contract.call_panic`: the causes, one by one.
* `prefab_panic_iff`: a request reaches a panic exactly if it is stuck.
* `bundle_unfailing_iff`: a bundle reaches none exactly if no request is stuck when its turn comes.
-/
namespace RgbStd
open Tables Decode Sweep Runs

/-! ## The causes -/

namespace OpRequest

variable {H : Hypersonic} {B : BpCore} {S : RgbSeal} {T : Type}

/-- The outputs on the witness transaction: what `defines` gets for each, and under which number `seals` does. -/
def onWitness (owned : List (NamedState (Assignment (EitherSeal (PrefabSeal B.Noise)) H.StrictVal) × Nat)) :
    List (UInt32 × UInt16) :=
  owned.filterMap fun (out, no) => out.state.seal_.toExplicit.map fun seal_ => (seal_.vout, UInt16.ofNat no)

/-- There is an output for which there still is room in the set, and none in the map. -/
def Overruns (vouts : List UInt32) (numbers : List UInt16) (outs : List (UInt32 × UInt16)) : Prop :=
  ∃ before out after, outs = before ++ out :: after ∧ (vouts ++ before.map (·.1)).dedup.length < 65535 ∧
    65535 ≤ (numbers ++ before.map (·.2)).dedup.length

theorem Overruns.cons_iff {vouts vouts' : List UInt32} {numbers numbers' : List UInt16} {out : UInt32 × UInt16}
    {outs : List (UInt32 × UInt16)} (hvouts : ∀ v, v ∈ vouts' ↔ v = out.1 ∨ v ∈ vouts)
    (hnumbers : ∀ n, n ∈ numbers' ↔ n = out.2 ∨ n ∈ numbers) (hroom : numbers.dedup.length < 65535) :
    Overruns vouts numbers (out :: outs) ↔ Overruns vouts' numbers' outs := by
  have hv : ∀ before : List (UInt32 × UInt16),
      (vouts ++ (out :: before).map (·.1)).dedup.length = (vouts' ++ before.map (·.1)).dedup.length := by
    intro before
    refine length_dedup_congr fun v => ?_
    simp only [List.map_cons, List.mem_append, List.mem_cons, hvouts]
    tauto
  have hn : ∀ before : List (UInt32 × UInt16),
      (numbers ++ (out :: before).map (·.2)).dedup.length = (numbers' ++ before.map (·.2)).dedup.length := by
    intro before
    refine length_dedup_congr fun v => ?_
    simp only [List.map_cons, List.mem_append, List.mem_cons, hnumbers]
    tauto
  constructor
  · rintro ⟨before, out', after, he, hset, hmap⟩
    cases before with
    | nil =>
      rw [List.map_nil, List.append_nil] at hmap
      omega
    | cons x before =>
      cases he
      exact ⟨before, out', after, rfl, hv before ▸ hset, hn before ▸ hmap⟩
  · rintro ⟨before, out', after, rfl, hset, hmap⟩
    exact ⟨out :: before, out', after, rfl, (hv before).symm ▸ hset, (hn before).symm ▸ hmap⟩

/-- The seals run out of room where the outputs still have it. -/
theorem defineSeals_panic {engine : Bytes} :
    ∀ {owned : List (NamedState (Assignment (EitherSeal (PrefabSeal B.Noise)) H.StrictVal) × Nat)}
      {defines : SmallSet UInt32} {seals : SmallMap UInt16 (WTxoSeal B.Noise)},
      defineSeals engine owned defines seals = .error .panic ↔
        Overruns defines.elems (keys seals.entries) (onWitness owned) := by
  intro owned
  induction owned with
  | nil =>
    intro defines seals
    exact ⟨fun h => (by cases h), fun ⟨_, _, _, h, _⟩ => (by simp [onWitness] at h)⟩
  | cons e owned ih =>
    obtain ⟨out, no⟩ := e
    intro defines seals
    rw [defineSeals]
    split
    · rename_i auth hs
      have hskip : onWitness ((out, no) :: owned) = onWitness owned := by
        rw [onWitness, List.filterMap_cons_none (by simp [hs, EitherSeal.toExplicit])]
        rfl
      rw [hskip]
      exact ih
    · rename_i seal_ hs
      have hout : onWitness ((out, no) :: owned) = (seal_.vout, UInt16.ofNat no) :: onWitness owned := by
        rw [onWitness, List.filterMap_cons_some (by simp only [hs, EitherSeal.toExplicit, Option.map_some]; rfl)]
        rfl
      rw [hout]
      have hset := length_le_dedup_append defines.nodup
      split
      · rename_i hpush
        have hfull := SmallSet.push_eq_none.1 hpush
        refine ⟨fun h => (by cases h), ?_⟩
        rintro ⟨before, _, _, _, hroom, _⟩
        have := hset (before.map (·.1))
        omega
      · rename_i defines' hpush
        have hroom : defines.elems.length < 65535 := by
          by_contra hn
          rw [SmallSet.push_eq_none.2 (by omega)] at hpush
          cases hpush
        split
        · rename_i hins
          refine ⟨fun _ => ⟨[], _, _, rfl, ?_, ?_⟩, fun _ => rfl⟩
          · rw [List.map_nil, List.append_nil, List.Nodup.dedup defines.nodup]
            exact hroom
          · rw [List.map_nil, List.append_nil, List.Nodup.dedup seals.nodup]
            simpa [keys] using SmallMap.insert_eq_none.1 hins
        · rename_i seals' hins
          have hmap : seals.entries.length < 65535 := by
            by_contra hn
            rw [SmallMap.insert_eq_none.2 (by omega)] at hins
            cases hins
          refine ih.trans (Overruns.cons_iff (SmallSet.mem_push hpush) (fun n => ?_) ?_).symm
          · rw [SmallMap.insert_entries hins, mem_keys_upsert]
          · rw [List.Nodup.dedup seals.nodup]
            simpa [keys] using hmap

/-- Its outputs overrun the map of seals. -/
def Overfull (request : OpRequest H (PrefabSeal B.Noise)) : Prop := Overruns [] [] (onWitness request.owned.zipIdx)

theorem draft_panic {engine : Bytes} {request : OpRequest H (PrefabSeal B.Noise)} :
    request.draft engine = .error .panic ↔ (request.using_.map (·.outpoint)).dedup.length ≤ 65535 ∧ request.Overfull := by
  have hseals : defineSeals engine request.owned.zipIdx .empty .empty = .error .panic ↔ request.Overfull :=
    defineSeals_panic
  unfold draft
  by_cases hfit : (request.using_.map (·.outpoint)).dedup.length ≤ 65535
  · rw [SmallSet.ofList, dif_pos hfit, and_iff_right hfit]
    refine Iff.trans ?_ hseals
    cases defineSeals engine request.owned.zipIdx .empty .empty with
    | error e => exact ⟨fun h => (by cases h; rfl), fun h => (by cases h; rfl)⟩
    | ok p => exact ⟨fun h => (by cases h), fun h => (by cases h)⟩
  · rw [SmallSet.ofList, dif_neg hfit]
    exact ⟨fun h => (by cases h), fun h => absurd h.1 hfit⟩

theorem mapError_ne_panic {E F α : Type} {f : E → F} {x : Except E α} :
    (x.mapError fun e => Halt.err (f e)) ≠ .error .panic := by
  cases x <;> simp [Except.mapError]

theorem matchInput_panic {articles : H.Articles} {state : ContractState H S} {calcs : Calcs H}
    {inp : UsedState H.Satisfaction} : matchInput articles state calcs inp = .error .panic ↔ state.find inp.addr = none := by
  unfold matchInput
  cases state.find inp.addr with
  | none => exact ⟨fun _ => rfl, fun _ => rfl⟩
  | some found => exact ⟨fun h => absurd h mapError_ne_panic, fun h => (by cases h)⟩

theorem matchRest_panic {calcs : List (StateName × H.StateCalc)} : matchRest calcs ≠ .error .panic := by
  induction calcs with
  | nil => exact fun h => (by cases h)
  | cons e calcs ih =>
    obtain ⟨name, calc_⟩ := e
    rw [matchRest]
    split
    · exact fun h => (by cases h)
    · exact fun h => (by cases h)
    · exact ih

/-- An address of an input is unknown, and all was well with the inputs before it. -/
def Unknown (request : OpRequest H T) (articles : H.Articles) (state : ContractState H S) : Prop :=
  ∃ before inp after calcs, request.using_ = before ++ inp :: after ∧
    before.foldlM (matchInput articles state) [] = .ok calcs ∧ state.find inp.addr = none

theorem check_panic {request : OpRequest H T} {articles : H.Articles} {state : ContractState H S} :
    request.check articles state = .error .panic ↔ request.Unknown articles state := by
  have hin : request.using_.foldlM (matchInput articles state) [] = .error .panic ↔ request.Unknown articles state := by
    simp only [Unknown, foldlM_eq_error, matchInput_panic]
  have hout : ∀ calcs, request.owned.foldlM (matchOutput articles) calcs ≠ .error .panic := by
    intro calcs h
    obtain ⟨_, _, _, _, _, _, hpanic⟩ := foldlM_eq_error.1 h
    exact mapError_ne_panic hpanic
  rw [check, except_bind_eq_error, hin, or_iff_left_iff_imp]
  rintro ⟨calcs, _, h⟩
  rcases except_bind_eq_error.1 h with h | ⟨calcs', _, h⟩
  · exact absurd h (hout calcs)
  · exact absurd h matchRest_panic

end OpRequest

/-- Of a call, only the seals may be refused in a way that is no error. -/
theorem Contract.call_panic {H : Hypersonic} {S : RgbSeal} {c : Contract H S}
    {params : CallParams H.StrictVal H.StateAtom H.Satisfaction} {seals : SmallMap UInt16 S.Definition} :
    (c.call params seals).1 = .error .panic ↔ ∃ o l, H.call c.ledger params = (.ok o, l) ∧
      ∃ k s s', get seals.entries k = some s ∧ c.pile.seal ⟨o, k⟩ = some s' ∧ s' ≠ s := by
  simp only [← PileFs.addSeals_eq_none seals.nodup]
  unfold call
  split
  · rename_i e l hl
    refine ⟨fun h => (by cases h), ?_⟩
    rintro ⟨o, l', hl', _⟩
    rw [hl] at hl'
    cases hl'
  · rename_i o l hl
    have heq : (∃ o' l', H.call c.ledger params = (.ok o', l') ∧ c.pile.addSeals o' seals.entries = none) ↔
        c.pile.addSeals o seals.entries = none := by
      constructor
      · rintro ⟨o', l', hl', hnone⟩
        rw [hl] at hl'
        cases hl'
        exact hnone
      · exact fun hnone => ⟨o, l, hl, hnone⟩
    rw [heq]
    cases c.pile.addSeals o seals.entries with
    | none => exact ⟨fun _ => rfl, fun _ => rfl⟩
    | some pile => exact ⟨fun h => (by cases h), fun h => (by cases h)⟩

/-! ## Requests -/

/-- The operation that is made has another seal in the pile already. -/
def OpRequest.Taken {H : Hypersonic} {B : BpCore} (engine : Bytes) (c : Contract H B.txoSeal)
    (request : OpRequest H (PrefabSeal B.Noise)) : Prop :=
  ∃ d o l, request.draft engine = .ok d ∧ H.call c.ledger d.call = (.ok o, l) ∧
    ∃ k s s', get d.seals.entries k = some s ∧ c.pile.seal ⟨o, k⟩ = some s' ∧ s' ≠ s

/-- What makes the prefab of a request panic. -/
inductive OpRequest.Stuck {H : Hypersonic} {B : BpCore} (engine : Bytes) (c : Contract H B.txoSeal)
    (request : OpRequest H (PrefabSeal B.Noise)) : Prop where
  | unknown (h : request.Unknown (H.articles c.ledger) c.state)
  | overfull (hcheck : request.check (H.articles c.ledger) c.state = .ok ())
    (hcloses : (request.using_.map (·.outpoint)).dedup.length ≤ 65535) (h : request.Overfull)
  | taken (hcheck : request.check (H.articles c.ledger) c.state = .ok ()) (h : request.Taken engine c)

namespace RgbWallet

variable {H : Hypersonic} {B : BpCore} {W : Wire H B.txoSeal} {V : Verifier H B.txoSeal} {P : Stockpile W V}

def Stuck (w : RgbWallet P) (request : OpRequest H (PrefabSeal B.Noise)) : Prop :=
  ∃ c, w.contracts.served request.contractId = some c ∧ request.Stuck (w.contractEngine request.contractId) c

/-- A panic of `prefab` is one of its check, of its draft or of the call. -/
theorem prefab_panic_eq {w : RgbWallet P} {request : OpRequest H (PrefabSeal B.Noise)} {c : Contract H B.txoSeal}
    (hc : w.contracts.served request.contractId = some c) : (w.prefab request).1 = .error .panic ↔
      request.check (H.articles c.ledger) c.state = .error .panic ∨
      (request.check (H.articles c.ledger) c.state = .ok () ∧
        (request.draft (w.contractEngine request.contractId) = .error .panic ∨
          ∃ d, request.draft (w.contractEngine request.contractId) = .ok d ∧
            (c.call d.call d.seals).1 = .error .panic)) := by
  obtain ⟨w₁, hw₁, hsame⟩ := checkRequest_served hc
  have hc₁ : w₁.contracts.served request.contractId = some c := (hsame.served _).trans hc
  simp only [prefab, hw₁]
  cases request.check (H.articles c.ledger) c.state with
  | error e =>
    cases e with
    | panic => simp
    | err e => simp
  | ok u =>
    simp only [hsame.contractEngine]
    cases request.draft (w.contractEngine request.contractId) with
    | error e =>
      cases e with
      | panic => simp
      | err e => simp
    | ok d =>
      obtain ⟨contracts, hcall⟩ : ∃ contracts, w₁.contracts.contractCall request.contractId d.call d.seals =
          some ((c.call d.call d.seals).1, contracts) := ⟨_, by rw [Contracts.contractCall, Contracts.withContractMut, hc₁]⟩
      simp only [hcall]
      cases hres : (c.call d.call d.seals).1 with
      | error e =>
        cases e with
        | panic => simp [named, hres]
        | err e => cases e <;> simp [named, hres]
      | ok op => simp [hres]

/-- **A prefab panics** if and only if its request is stuck. -/
theorem prefab_panic_iff {w : RgbWallet P} {request : OpRequest H (PrefabSeal B.Noise)} {c : Contract H B.txoSeal}
    (hc : w.contracts.served request.contractId = some c) : (w.prefab request).1 = .error .panic ↔ w.Stuck request := by
  have hstuck : w.Stuck request ↔ request.Stuck (w.contractEngine request.contractId) c :=
    ⟨fun ⟨c', hc', h⟩ => Option.some.inj (hc.symm.trans hc') ▸ h, fun h => ⟨c, hc, h⟩⟩
  rw [prefab_panic_eq hc, hstuck, OpRequest.check_panic, OpRequest.draft_panic]
  simp only [Contract.call_panic]
  constructor
  · rintro (h | ⟨hcheck, ⟨hcloses, h⟩ | ⟨d, hdraft, o, l, hcall, h⟩⟩)
    · exact .unknown h
    · exact .overfull hcheck hcloses h
    · exact .taken hcheck ⟨d, o, l, hdraft, hcall, h⟩
  · rintro (h | ⟨hcheck, hcloses, h⟩ | ⟨hcheck, d, o, l, hdraft, hcall, h⟩)
    · exact Or.inl h
    · exact Or.inr ⟨hcheck, Or.inl ⟨hcloses, h⟩⟩
    · exact Or.inr ⟨hcheck, Or.inr ⟨d, hdraft, o, l, hcall, h⟩⟩

/-! ## Bundles -/

/-- The wallet after a prefab that was made. -/
def prefabStep (w : RgbWallet P) (request : OpRequest H (PrefabSeal B.Noise)) : Option (RgbWallet P) :=
  match w.prefab request with
  | (.ok _, w) => some w
  | (.error _, _) => none

/-- No request is stuck when its turn comes. -/
def Smooth (w : RgbWallet P) (requests : List (OpRequest H (PrefabSeal B.Noise))) : Prop :=
  Along prefabStep (fun w request => ¬w.Stuck request) w requests

/-- Every contract listed is served. -/
def Loaded (w : RgbWallet P) : Prop := ∀ id ∈ w.contracts.contractIds, ∃ c, w.contracts.served id = some c

theorem prefab_loaded {w w' : RgbWallet P} {request : OpRequest H (PrefabSeal B.Noise)} {p : Prefab H}
    (h : w.prefab request = (.ok p, w')) (hload : w.Loaded) :
    w'.contracts.contractIds = w.contracts.contractIds ∧ w'.Loaded := by
  obtain ⟨c, d, hcalls, _⟩ := prefab_ok h
  have hids : w'.contracts.contractIds = w.contracts.contractIds := congrArg P.contractIds hcalls.persistence
  refine ⟨hids, fun id hid => ?_⟩
  rw [hcalls.after]
  split
  · exact ⟨_, rfl⟩
  · exact hload id (hids ▸ hid)

theorem prefabs_loaded {requests : List (OpRequest H (PrefabSeal B.Noise))} : ∀ {w w' : RgbWallet P} {ps : List (Prefab H)},
    w.prefabs requests = (.ok ps, w') → w.Loaded → w'.Loaded := by
  induction requests with
  | nil =>
    intro w w' ps h hload
    cases h
    exact hload
  | cons r requests ih =>
    intro w w' ps h hload
    obtain ⟨p, w₁, ps', hp, hps, rfl⟩ := prefabs_cons_ok h
    exact ih hps (prefab_loaded hp hload).2

theorem prefabs_panic_iff {requests : List (OpRequest H (PrefabSeal B.Noise))} : ∀ {w : RgbWallet P}, w.Loaded →
    (∀ r ∈ requests, r.contractId ∈ w.contracts.contractIds) →
    ((w.prefabs requests).1 ≠ .error .panic ↔ w.Smooth requests) := by
  induction requests with
  | nil => exact fun _ _ => ⟨fun _ => trivial, fun _ h => (by cases h)⟩
  | cons r requests ih =>
    intro w hload hknown
    obtain ⟨c, hc⟩ := hload _ (hknown r List.mem_cons_self)
    have hr := prefab_panic_iff hc
    rcases hp : w.prefab r with ⟨e | p, w₁⟩
    · have hnone : prefabStep w r = none := by simp only [prefabStep, hp]
      rw [Smooth, along_cons_none hnone, ← hr]
      simp only [prefabs, hp]
      cases e <;> simp
    · have hsome : prefabStep w r = some w₁ := by simp only [prefabStep, hp]
      obtain ⟨hids, hload₁⟩ := prefab_loaded hp hload
      have hrest := ih hload₁ fun q hq => hids ▸ hknown q (List.mem_cons_of_mem _ hq)
      rw [Smooth, along_cons hsome, ← hr, hp, ← Smooth, ← hrest]
      simp only [prefabs, hp]
      rcases w₁.prefabs requests with ⟨e | ps, w₂⟩
      · cases e <;> simp
      · simp

/-- Where the contracts listed are served, the loop over them does not panic. -/
theorem blankRequests_unfailing {change : Option UInt32} {contracts : List ContractId} {outpoints : List Outpoint}
    {ids : List ContractId} : ∀ {w : RgbWallet P}, (∀ id ∈ ids, ∃ c, w.contracts.served id = some c) →
    (w.blankRequests change contracts outpoints ids).1 ≠ .error .panic := by
  induction ids with
  | nil => exact fun _ h => (by cases h)
  | cons id ids ih =>
    intro w hserved
    have hids : ∀ id ∈ ids, ∃ c, w.contracts.served id = some c := fun id hid => hserved id (List.mem_cons_of_mem _ hid)
    rw [blankRequests]
    split
    · exact ih hids
    · obtain ⟨c, hc⟩ := hserved id List.mem_cons_self
      obtain ⟨contracts₁, contracts₂, hs, ha, hsame⟩ := reads_served hc
      have hrest := ih (w := { w with contracts := contracts₂ }) fun id hid => by
        obtain ⟨c, hc⟩ := hids id hid
        exact ⟨c, (hsame.served id).trans hc⟩
      simp only [hs, ha]
      split
      · exact fun h => (by cases h)
      · revert hrest
        rcases blankRequests { w with contracts := contracts₂ } change contracts outpoints ids with ⟨e | rs, w₂⟩
        · exact fun hrest h => hrest h
        · exact fun _ h => (by cases h)

/-- A plan panics with its requests. -/
theorem plan_panic_iff {w : RgbWallet P} {requests : List (OpRequest H (PrefabSeal B.Noise))} {change : Option UInt32}
    (hload : w.Loaded) (hknown : ∀ r ∈ requests, r.contractId ∈ w.contracts.contractIds) :
    (w.plan requests change).1 ≠ .error .panic ↔ w.Smooth requests := by
  rw [← prefabs_panic_iff hload hknown]
  rcases hps : w.prefabs requests with ⟨e | ps, w₁⟩
  · simp only [plan, hps]
    cases e with
    | panic => simp [named]
    | err e => cases e <;> simp [named]
  · have hblanks : (w₁.blankRequests change (ps.map fun p => H.contractId p.operation) (ps.flatMap (·.closes.elems))
        w₁.contracts.contractIds).1 ≠ .error .panic := blankRequests_unfailing (prefabs_loaded hps hload)
    simp only [plan, hps]
    rcases hbs : w₁.blankRequests change (ps.map fun p => H.contractId p.operation) (ps.flatMap (·.closes.elems))
      w₁.contracts.contractIds with ⟨e | blanks, w₂⟩
    · rw [hbs] at hblanks
      cases e with
      | panic => exact absurd rfl hblanks
      | err e => simp [hbs]
    · simp [hbs]

/-- The blanks planned are of contracts that are listed. -/
theorem plan_known {w w' : RgbWallet P} {requests : List (OpRequest H (PrefabSeal B.Noise))} {change : Option UInt32}
    {ps : List (Prefab H)} {blanks : List (OpRequest H (PrefabSeal B.Noise))} (hload : w.Loaded)
    (h : w.plan requests change = (.ok (ps, blanks), w')) :
    w'.Loaded ∧ ∀ q ∈ blanks, q.contractId ∈ w'.contracts.contractIds := by
  rcases plan_eq h with ⟨_, _, he⟩ | ⟨ps', w₁, hps, he | ⟨hsame, hall⟩⟩
  · cases he
  · cases he
  obtain ⟨rfl, hblanks⟩ := hall ps blanks rfl
  have hids : w'.contracts.contractIds = w₁.contracts.contractIds := congrArg P.contractIds hsame.persistence
  refine ⟨fun id hid => ?_, fun q hq => ?_⟩
  · obtain ⟨c, hc⟩ := prefabs_loaded hps hload id (hids ▸ hid)
    exact ⟨c, (hsame.served id).trans hc⟩
  · obtain ⟨id, hid, _, c, _, hr⟩ := hblanks.sound hq
    rcases blankRequest_ok hr with ⟨_, he⟩ | ⟨q', he, _, hqid, _⟩
    · cases he
    · cases he
      rw [hids, hqid]
      exact hid

/-- **Bundling never panics** if and only if no request is stuck when its turn comes: neither of those it is
given, nor of the blanks it goes on with. -/
theorem bundle_unfailing_iff {w : RgbWallet P} (hload : w.Loaded) :
    (∀ request, request.contractId ∈ w.contracts.contractIds →
      ((w.prefab request).1 ≠ .error .panic ↔ ¬w.Stuck request)) ∧
    ∀ requests change, (∀ r ∈ requests, r.contractId ∈ w.contracts.contractIds) →
      ((w.bundle requests change).1 ≠ .error .panic ↔ w.Smooth requests ∧
        ∀ ps blanks w₁, w.plan requests change = (.ok (ps, blanks), w₁) → w₁.Smooth blanks) := by
  refine ⟨fun request hid => ?_, fun requests change hknown => ?_⟩
  · obtain ⟨c, hc⟩ := hload _ hid
    exact not_congr (prefab_panic_iff hc)
  · have hplan : (w.plan requests change).1 ≠ .error .panic ↔ w.Smooth requests := plan_panic_iff hload hknown
    rw [← hplan]
    obtain ⟨r, w₁, hp⟩ : ∃ r w₁, w.plan requests change = (r, w₁) := ⟨_, _, rfl⟩
    cases r with
    | error e => simp [bundle, hp]
    | ok planned =>
      obtain ⟨ps, blanks⟩ := planned
      obtain ⟨hload₁, hknown₁⟩ := plan_known hload hp
      have hall : (∀ ps' blanks' w₁', w.plan requests change = (.ok (ps', blanks'), w₁') → w₁'.Smooth blanks') ↔
          w₁.Smooth blanks := by
        refine ⟨fun h => h ps blanks w₁ hp, fun h ps' blanks' w₁' he => ?_⟩
        rw [hp] at he
        cases he
        exact h
      rw [hall, ← prefabs_panic_iff hload₁ hknown₁]
      simp only [bundle, hp]
      obtain ⟨r, w₂, hbs⟩ : ∃ r w₂, w₁.prefabs blanks = (r, w₂) := ⟨_, _, rfl⟩
      rw [hbs]
      cases r with
      | error e =>
        cases e with
        | panic => simp [named]
        | err e => cases e <;> simp [named]
      | ok bs => cases htry : PrefabBundle.tryFrom (ps ++ bs) <;> simp [htry]

end RgbWallet

namespace Purse

/-- Two requests for the cell of 60. -/
def twice : List (OpRequest refSonic (PrefabSeal RefNoise)) := [spend 3 [(0, first)] 60 1, spend 3 [(0, first)] 60 1]

theorem wallet_loaded : wallet.Loaded := by
  have hall : ∀ id ∈ wallet.contracts.contractIds, (wallet.contracts.served id).isSome = true := by decide
  exact fun id hid => Option.isSome_iff_exists.1 (hall id hid)

end Purse

/-- The cells of contract 3 at the first output, and the blank of contract 4. -/
theorem unfailing_whole : Purse.wallet.Smooth Purse.whole ∧ ∀ ps blanks w₁,
    Purse.wallet.plan Purse.whole (some 2) = (.ok (ps, blanks), w₁) → w₁.Smooth blanks := by
  obtain ⟨b, hb⟩ : ∃ b, (Purse.wallet.bundle Purse.whole (some 2)).1 = .ok b := ⟨_, rfl⟩
  refine ((RgbWallet.bundle_unfailing_iff Purse.wallet_loaded).2 Purse.whole (some 2) (by decide)).1 ?_
  rw [hb]
  exact fun h => (by cases h)

/-- The second request panics: its cell is spent by then. -/
theorem unfailing_twice :
    ¬∀ (H : Hypersonic) (B : BpCore) (W : Wire H B.txoSeal) (V : Verifier H B.txoSeal) (P : Stockpile W V)
      (w : RgbWallet P), w.Loaded →
      (∀ request, request.contractId ∈ w.contracts.contractIds → (w.prefab request).1 ≠ .error .panic) ∧
        ∀ requests change, (∀ r ∈ requests, r.contractId ∈ w.contracts.contractIds) →
          (w.bundle requests change).1 ≠ .error .panic := by
  intro h
  exact (h refSonic refBp _ _ Purse.dir Purse.wallet Purse.wallet_loaded).2 Purse.twice (some 2) (by decide) rfl

end RgbStd
