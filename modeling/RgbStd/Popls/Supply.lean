import RgbStd.Popls.Balanced
import RgbStd.Popls.Performs
/-!
# The supply over runs of a wallet (popls/bp.rs:540-757)

`prefab` takes the cells of a request out of the ledger and puts its outputs in; `bundle` does so for each request,
and for the contracts which have state on the outputs closed. Both check that what goes out is what comes in, where a
cell listed twice is counted twice.

| here | what it is |
| --- | --- |
| `cells`   | the cells a ledger holds, with their names |
| `supply`  | the total of a name over all cells |
| `minted`  | what the requests that are executed list again, each in the state it is executed in |

* `prefab_supply`: an operation adds to the supply what its request lists again.
* `run_supply_iff`: in a run of any calls the supply is what it was at first in each state exactly if no call mints.
-/
namespace RgbStd
open Tables Decode Totals

/-- All cells of an owned state, with their names. -/
def cells {Val : Type} (owned : List (StateName × List (CellAddr × Val))) : List (StateName × CellAddr × Val) :=
  owned.flatMap fun m => m.2.map (m.1, ·)

/-- The cells an operation makes. -/
def newCells {Val : Type} (o : Opid) (owned : List (NamedState (DataCell Val))) : List (StateName × CellAddr × Val) :=
  owned.zipIdx.map fun (out, n) => (out.name, ⟨o, UInt16.ofNat n⟩, out.state.data)

/-- An address holds one cell; a call takes out the cells it uses, and puts in those it makes. -/
structure Hypersonic.SupplyLaws (H : Hypersonic) (I : H.Ledger → Prop) : Prop where
  nodup : ∀ l, I l → ((cells (H.owned l)).map (·.2.1)).Nodup
  keeps : ∀ l p o l', I l → H.call l p = (.ok o, l') → I l'
  articles : ∀ l p o l', H.call l p = (.ok o, l') → H.articles l' = H.articles l
  cells : ∀ l p o l', I l → H.call l p = (.ok o, l') → (cells (H.owned l')).Perm
    ((cells (H.owned l)).filter (fun e => e.2.1 ∉ keys p.using_) ++ newCells o p.core.owned)

section
variable {H : Hypersonic} {S : RgbSeal} {M : Type} [AddCommMonoid M] (t : H.Totals M)

/-- What a cell adds to the total of a name. -/
def worth (articles : H.Articles) (name : StateName) (e : StateName × CellAddr × H.StrictVal) : M :=
  if e.1 = name then t.value articles e.1 e.2.2 else 0

/-- The total of a name over all cells of a ledger. -/
def supply (l : H.Ledger) (name : StateName) : M := ((cells (H.owned l)).map (worth t (H.articles l) name)).sum

variable {t}

theorem mem_cells {Val : Type} {owned : List (StateName × List (CellAddr × Val))} {e : StateName × CellAddr × Val} :
    e ∈ cells owned ↔ ∃ cs, (e.1, cs) ∈ owned ∧ e.2 ∈ cs := by
  simp only [cells, List.mem_flatMap, List.mem_map]
  constructor
  · rintro ⟨m, hm, c, hc, rfl⟩
    exact ⟨m.2, hm, hc⟩
  · rintro ⟨cs, hm, hc⟩
    exact ⟨(e.1, cs), hm, e.2, hc, rfl⟩

/-- Cells of one address are the same. -/
theorem cells_inj {Val : Type} {owned : List (StateName × List (CellAddr × Val))}
    (h : ((cells owned).map (·.2.1)).Nodup) {e e' : StateName × CellAddr × Val} (he : e ∈ cells owned)
    (he' : e' ∈ cells owned) (ha : e.2.1 = e'.2.1) : e = e' :=
  List.inj_on_of_nodup_map h he he' ha

namespace OpRequest

variable {T : Type}

theorem inputs_found {articles : H.Articles} {state : ContractState H S} {inputs : List (UsedState H.Satisfaction)} :
    ∀ {calcs calcs' : Calcs H}, inputs.foldlM (matchInput articles state) calcs = .ok calcs' →
      ∀ inp ∈ inputs, ∃ f, state.find inp.addr = some f := by
  induction inputs with
  | nil => simp
  | cons inp inputs ih =>
    intro calcs calcs' h
    rw [List.foldlM_cons] at h
    obtain ⟨calcs₁, h₁, h⟩ := except_bind_eq_ok.1 h
    refine List.forall_mem_cons.2 ⟨?_, ih h⟩
    unfold matchInput at h₁
    split at h₁
    · cases h₁
    · rename_i name owned hf
      exact ⟨_, hf⟩

/-- Each input of a checked request is found. -/
theorem check_found {request : OpRequest H T} {articles : H.Articles} {state : ContractState H S}
    (h : request.check articles state = .ok ()) : ∀ a ∈ request.spends, ∃ f, state.find a = some f := by
  unfold check at h
  obtain ⟨calcs, h, -⟩ := except_bind_eq_ok.1 h
  intro a ha
  have hmem := (keys_foldl_perm UsedState.addr UsedState.satisfaction request.using_).mem_iff.1 ha
  obtain ⟨inp, hinp, rfl⟩ := List.mem_map.1 (List.mem_dedup.1 hmem)
  exact inputs_found h inp hinp

theorem nodup_spends (request : OpRequest H T) : request.spends.Nodup :=
  nodup_keys_foldl UsedState.addr UsedState.satisfaction request.using_ (by simp [keys])

/-- What is spent is what the cells at the addresses are worth. -/
theorem spent_cell {c : Contract H S} {a : CellAddr} {f : StateName × OwnedState H S} (hf : c.state.find a = some f) :
    ∃ e ∈ cells (H.owned c.ledger), e.2.1 = a ∧
      ∀ name, cellTotal t (H.articles c.ledger) c.state name a = worth t (H.articles c.ledger) name e := by
  obtain ⟨m, hm, hfound⟩ := List.exists_of_findSome?_eq_some hf
  obtain ⟨e, he, rfl⟩ := Option.map_eq_some_iff.1 hfound
  have haddr : e.addr = a := by simpa using List.find?_some he
  obtain ⟨cs, hcs, hcell⟩ := Contract.mem_owned hm (List.mem_of_find?_eq_some he)
  refine ⟨(m.1, e.addr, e.assignment.data), mem_cells.2 ⟨cs, hcs, hcell⟩, haddr, fun name => ?_⟩
  simp only [cellTotal, hf, worth]

/-- What an operation assigns is what its cells are worth. -/
theorem assigned_eq {B : BpCore} {engine : Bytes} {request : OpRequest H (PrefabSeal B.Noise)} {d : Draft H B}
    (h : request.draft engine = .ok d) (o : Opid) (articles : H.Articles) (name : StateName) :
    ((newCells o d.call.core.owned).map (worth t articles name)).sum = request.assigned t articles name := by
  have hnumbers : ∀ {X : Type} (f : X → M) (xs : List X), xs.zipIdx.map (fun e => f e.1) = xs.map f := fun f xs => by
    conv_rhs => rw [← List.zipIdx_map_fst 0 xs, List.map_map]
    rfl
  unfold draft at h
  split at h
  · cases h
  · split at h
    · cases h
    · cases h
      rw [assigned, newCells, List.map_map]
      refine congrArg List.sum ?_
      let f : NamedState (DataCell H.StrictVal) → M := fun out =>
        if out.name = name then t.value articles out.name out.state.data else 0
      refine (hnumbers f _).trans ?_
      rw [List.map_map]
      exact hnumbers (outTotal t articles name) request.owned

end OpRequest

namespace RgbWallet

variable {B : BpCore} {W : Wire H B.txoSeal} {V : Verifier H B.txoSeal} {P : Stockpile W V} {I : H.Ledger → Prop}

/-- **An operation adds** what its request lists again, and no other contract is touched. -/
theorem prefab_supply (hS : H.SupplyLaws I) {w w' : RgbWallet P} {request : OpRequest H (PrefabSeal B.Noise)}
    {p : Prefab H} (h : w.prefab request = (.ok p, w')) :
    ∃ c c', w.contracts.served request.contractId = some c ∧
      (∀ id, w'.contracts.served id = if id = request.contractId then some c' else w.contracts.served id) ∧
      (I c.ledger → I c'.ledger ∧ ∀ name, supply t c'.ledger name =
        supply t c.ledger name + request.repeated t (H.articles c.ledger) c.state name) := by
  obtain ⟨c, d, hcalls, hop, -⟩ := prefab_ok h
  obtain ⟨o, ledger, hl, -, hledger, -⟩ := Contract.call_ok hop
  refine ⟨c, _, hcalls.served, hcalls.after, fun hI => ?_⟩
  rw [hledger]
  refine ⟨hS.keeps _ _ _ _ hI hl, fun name => ?_⟩
  have hnd := hS.nodup _ hI
  have hfound := OpRequest.check_found hcalls.check
  have hcell := fun a (ha : a ∈ request.spends) =>
    (hfound a ha).elim fun f hf => OpRequest.spent_cell (t := t) hf
  -- what was there is what is left and what is spent
  have htaken : supply t c.ledger name =
      (((cells (H.owned c.ledger)).filter (fun e => e.2.1 ∉ request.spends)).map
        (worth t (H.articles c.ledger) name)).sum + request.spent t (H.articles c.ledger) c.state name := by
    refine sum_taken (fun e : StateName × CellAddr × H.StrictVal => e.2.1) _ hnd request.nodup_spends
      (fun a ha => ?_) fun e he ha => ?_
    · obtain ⟨e, he, rfl, -⟩ := hcell a ha
      exact List.mem_map_of_mem he
    · obtain ⟨e', he', hae, hworth⟩ := hcell _ ha
      rw [hworth, cells_inj hnd he' he hae]
  rw [htaken, supply, ((hS.cells _ _ _ _ hI hl).map _).sum_eq, List.map_append, List.sum_append, hS.articles _ _ _ _ hl,
    OpRequest.assigned_eq hcalls.draft, ← OpRequest.check_ok hcalls.check, OpRequest.listed_eq,
    OpRequest.draft_spends hcalls.draft, add_assoc]

variable (t)

/-- What a request lists again, if it is of the contract. -/
def repeatedAt (id : ContractId) (name : StateName) (w : RgbWallet P) (request : OpRequest H (PrefabSeal B.Noise)) : M :=
  if request.contractId = id then
    (w.contracts.served id).elim 0 fun c => request.repeated t (H.articles c.ledger) c.state name
  else 0

/-- What requests list again, each in the state it is executed in. -/
def mintedBy (id : ContractId) (name : StateName) (w : RgbWallet P) : List (OpRequest H (PrefabSeal B.Noise)) → M
  | [] => 0
  | request :: requests => match w.prefab request with
    | (.error _, _) => 0
    | (.ok _, w') => repeatedAt t id name w request + mintedBy id name w' requests

/-- What a call lists again, in its blank operations as well. -/
def minted (id : ContractId) (name : StateName) (w : RgbWallet P) : WalletCall H B → M
  | .prefab request => mintedBy t id name w [request]
  | .bundle requests change => mintedBy t id name w requests + match w.plan requests change with
    | (.error _, _) => 0
    | (.ok (_, blanks), w) => mintedBy t id name w blanks

variable {t}

/-- The contract is served, and its supply is as given. -/
def Supplied (t : H.Totals M) (I : H.Ledger → Prop) (id : ContractId) (name : StateName) (m : M) (w : RgbWallet P) : Prop :=
  ∃ c, w.contracts.served id = some c ∧ I c.ledger ∧ supply t c.ledger name = m

theorem Supplied.same {id : ContractId} {name : StateName} {m : M} {w w' : RgbWallet P} (h : Supplied t I id name m w)
    (hs : Same w w') : Supplied t I id name m w' := by
  obtain ⟨c, hc, h⟩ := h
  exact ⟨c, (hs.served id).trans hc, h⟩

theorem Supplied.prefab (hS : H.SupplyLaws I) {id : ContractId} {name : StateName} {m : M} {w w' : RgbWallet P}
    (h : Supplied t I id name m w) {request : OpRequest H (PrefabSeal B.Noise)} {p : Prefab H}
    (hp : w.prefab request = (.ok p, w')) : Supplied t I id name (m + repeatedAt t id name w request) w' := by
  obtain ⟨c, hc, hI, rfl⟩ := h
  obtain ⟨c₁, c', hc₁, hafter, hsupply⟩ := prefab_supply (t := t) hS hp
  unfold repeatedAt
  split
  · rename_i hid
    subst hid
    obtain rfl : c = c₁ := Option.some.inj (hc.symm.trans hc₁)
    obtain ⟨hI', hs⟩ := hsupply hI
    refine ⟨c', by rw [hafter, if_pos rfl], hI', ?_⟩
    rw [hs name, hc]
    rfl
  · rename_i hid
    exact ⟨c, by rw [hafter, if_neg (Ne.symm hid), hc], hI, (add_zero _).symm⟩

/-- Requests that are executed add what they list again, also where one of them is refused in the end. -/
theorem Supplied.prefabs (hS : H.SupplyLaws I) (hL : H.CallLaws) {id : ContractId} {name : StateName}
    {requests : List (OpRequest H (PrefabSeal B.Noise))} : ∀ {m : M} {w w' : RgbWallet P}
      {r : Res (MultiError (PrefabError H) H.StockError Empty) (List (Prefab H))}, Supplied t I id name m w →
      w.prefabs requests = (r, w') → r = .error .panic ∨
        Supplied t I id name (m + mintedBy t id name w requests) w' := by
  induction requests with
  | nil =>
    intro m w w' r h hp
    cases hp
    exact Or.inr (by simpa [mintedBy] using h)
  | cons request requests ih =>
    intro m w w' r h hp
    simp only [RgbWallet.prefabs] at hp
    split at hp
    · rename_i e w₁ he
      cases hp
      simp only [mintedBy, he]
      cases e with
      | panic => exact Or.inl rfl
      | err e => exact Or.inr (by simpa using h.same (prefab_err hL he).1)
    · rename_i p w₁ he
      simp only [mintedBy, he]
      rw [← add_assoc]
      have h₁ := h.prefab hS he
      split at hp
      · rename_i e w₂ hps
        cases hp
        refine (ih h₁ hps).imp_left fun hr => ?_
        cases hr
        rfl
      · rename_i ps w₂ hps
        cases hp
        exact Or.inr ((ih h₁ hps).resolve_left (by simp))

theorem Supplied.bundle (hS : H.SupplyLaws I) (hL : H.CallLaws) {id : ContractId} {name : StateName} {m : M}
    {w w' : RgbWallet P} (h : Supplied t I id name m w) {requests : List (OpRequest H (PrefabSeal B.Noise))}
    {change : Option UInt32} {r : Res (MultiError (BundleError H) H.StockError Empty) (PrefabBundle H)}
    (hb : w.bundle requests change = (r, w')) :
    r = .error .panic ∨ Supplied t I id name (m + minted t id name w (.bundle requests change)) w' := by
  simp only [RgbWallet.bundle] at hb
  split at hb
  · rename_i e w₁ hplan
    cases hb
    simp only [minted, hplan, add_zero]
    rcases plan_eq hplan with ⟨e', hps, he⟩ | ⟨ps, w₂, hps, hr⟩
    · refine (h.prefabs hS hL hps).imp_left fun hpanic => ?_
      cases hpanic
      exact congrArg Except.error (Except.error.inj he)
    · refine hr.imp (fun he => congrArg Except.error (Except.error.inj he)) fun hplanned => ?_
      exact ((h.prefabs hS hL hps).resolve_left (by simp)).same hplanned.1
  · rename_i ps blanks w₁ hplan
    simp only [minted, hplan]
    rw [← add_assoc]
    rcases plan_eq hplan with ⟨_, _, he⟩ | ⟨ps', w₂, hps, hr⟩
    · cases he
    have h₁ := ((h.prefabs hS hL hps).resolve_left (by simp)).same (hr.resolve_left (by simp)).1
    split at hb
    · rename_i e w₃ hbs
      cases hb
      refine (h₁.prefabs hS hL hbs).imp_left fun hpanic => ?_
      cases hpanic
      rfl
    · rename_i bs w₃ hbs
      have h₂ := (h₁.prefabs hS hL hbs).resolve_left (by simp)
      split at hb <;> cases hb <;> exact Or.inr h₂

/-- **A call adds** what it lists again, whatever it returns. -/
theorem Supplied.after (hS : H.SupplyLaws I) (hL : H.CallLaws) {id : ContractId} {name : StateName} {m : M}
    {w w' : RgbWallet P} (h : Supplied t I id name m w) {call : WalletCall H B} (hc : w.after call = some w') :
    Supplied t I id name (m + minted t id name w call) w' := by
  cases call with
  | prefab request =>
    simp only [RgbWallet.after] at hc
    split at hc
    · cases hc
    · rename_i r w₁ hne hp
      cases hc
      simp only [minted, mintedBy, hp]
      cases r with
      | ok p => simpa using h.prefab hS hp
      | error e =>
        cases e with
        | panic => exact absurd rfl hne
        | err e => simpa using h.same (prefab_err hL hp).1
  | bundle requests change =>
    simp only [RgbWallet.after] at hc
    split at hc
    · cases hc
    · rename_i r w₁ hne hb
      cases hc
      exact (h.bundle hS hL hb).resolve_left fun hr => hne hr

end RgbWallet

end

namespace RgbWallet

variable {H : Hypersonic} {B : BpCore} {W : Wire H B.txoSeal} {V : Verifier H B.txoSeal} {P : Stockpile W V}
  {I : H.Ledger → Prop} {M : Type} [AddCancelCommMonoid M] {t : H.Totals M}

/-- A contract stays in supply. -/
theorem run_supplied (hS : H.SupplyLaws I) (hL : H.CallLaws) {id : ContractId} (name : StateName) {w : RgbWallet P}
    (hw : ∃ m, Supplied t I id name m w) {calls : List (WalletCall H B)} {states : List (RgbWallet P)}
    (h : Runs.run after w calls = some states) : ∀ w' ∈ states, ∃ m, Supplied t I id name m w' := by
  have hkept : ∀ (w : RgbWallet P) (call : WalletCall H B) w', (∃ m, Supplied t I id name m w) → True →
      after w call = some w' → ∃ m, Supplied t I id name m w' := fun _ _ _ ⟨_, hm⟩ _ hs => ⟨_, hm.after hS hL hs⟩
  exact Runs.run_inv hkept calls w states hw (Runs.along_true calls w) h

/-- **In a run** of any calls, also of such as fail, the supply of a name is in each state what it was at first exactly
if no call lists anything of the name again. -/
theorem run_supply_iff (hS : H.SupplyLaws I) (hL : H.CallLaws) {w : RgbWallet P} {id : ContractId}
    {c : Contract H B.txoSeal} (hc : w.contracts.served id = some c) (hI : I c.ledger) (name : StateName)
    {calls : List (WalletCall H B)} {states : List (RgbWallet P)} (h : Runs.run after w calls = some states) :
    (∀ w' ∈ states, ∃ c', w'.contracts.served id = some c' ∧ supply t c'.ledger name = supply t c.ledger name) ↔
      Runs.Along after (fun w call => minted t id name w call = 0) w calls := by
  have hstep : ∀ (w₁ : RgbWallet P) (call : WalletCall H B) w₂, Supplied t I id name (supply t c.ledger name) w₁ →
      True → after w₁ call = some w₂ →
      (Supplied t I id name (supply t c.ledger name) w₂ ↔ minted t id name w₁ call = 0) := fun w₁ call w₂ hw _ hs => by
    have h₂ := hw.after hS hL hs
    constructor
    · rintro ⟨c₂, hc₂, -, hs₂⟩
      obtain ⟨c₃, hc₃, -, hs₃⟩ := h₂
      obtain rfl : c₂ = c₃ := Option.some.inj (hc₂.symm.trans hc₃)
      exact add_eq_left.1 (hs₃.symm.trans hs₂)
    · intro hz
      rwa [hz, add_zero] at h₂
  have hrun := Runs.run_inv_iff hstep calls w states ⟨c, hc, hI, rfl⟩ (fun _ _ => trivial) h
  refine Iff.trans ⟨fun hall w' hw' => ?_, fun hall w' hw' => ?_⟩ hrun
  · obtain ⟨c', hc', hs⟩ := hall w' hw'
    obtain ⟨_, c₂, hc₂, hI₂, -⟩ := run_supplied (t := t) hS hL name ⟨_, c, hc, hI, rfl⟩ h w' hw'
    obtain rfl : c' = c₂ := Option.some.inj (hc'.symm.trans hc₂)
    exact ⟨c', hc', hI₂, hs⟩
  · obtain ⟨c', hc', -, hs⟩ := hall w' hw'
    exact ⟨c', hc', hs⟩

end RgbWallet

/-! ## The reference ledger -/

namespace RefLedger

/-- The operations have different ids and no more outputs than they may have, and use what known operations made. -/
structure Traced (l : RefLedger) : Prop where
  nodup : l.operations.Nodup
  small : ∀ op ∈ l.ops, op.outs.length ≤ 65535
  used : ∀ op ∈ l.ops, ∀ a ∈ op.ins, a.opid ∈ l.known

theorem opid_of_mem_outputs {op : RefOperation} {c : StateName × CellAddr × Nat} (h : c ∈ outputs op) :
    c.2.1.opid = op.opid := by
  obtain ⟨e, -, rfl⟩ := List.mem_map.1 h
  rfl

theorem mem_validOps {l : RefLedger} {op : RefOperation} : op ∈ l.validOps ↔ op ∈ l.ops ∧ l.isValid op.opid = true := by
  rw [validOps, List.mem_filter, List.mem_reverse]

theorem nodup_outputs {op : RefOperation} (h : op.outs.length ≤ 65535) : ((outputs op).map (·.2.1)).Nodup := by
  have hn : (keys (numbered (fun _ _ => some ()) op.outs)).Nodup := nodup_numbered _ (by omega)
  have he : (outputs op).map (·.2.1) =
      (keys (numbered (fun _ _ => some ()) op.outs)).map fun n => (⟨op.opid, n⟩ : CellAddr) := by
    simp [outputs, numbered, keys, Function.comp_def]
  rw [he]
  exact hn.map fun m n h => congrArg CellAddr.pos h

theorem Traced.nodup_addrs {l : RefLedger} (h : l.Traced) : ((l.validOps.flatMap outputs).map (·.2.1)).Nodup := by
  rw [List.map_flatMap, List.nodup_flatMap]
  constructor
  · exact fun op hop => nodup_outputs (h.small op (mem_validOps.1 hop).1)
  · have hids : (l.validOps.map (·.opid)).Nodup :=
      (List.nodup_reverse.2 h.nodup).sublist (by rw [operations, ← List.map_reverse]; exact List.filter_sublist.map _)
    refine (List.pairwise_map.1 hids).imp fun hne a ha ha' => hne ?_
    obtain ⟨c, hc, rfl⟩ := List.mem_map.1 ha
    obtain ⟨c', hc', he⟩ := List.mem_map.1 ha'
    rw [← opid_of_mem_outputs hc, ← opid_of_mem_outputs hc', he]

theorem Traced.nodup_cells {l : RefLedger} (h : l.Traced) : (l.cells.map (·.2.1)).Nodup :=
  h.nodup_addrs.sublist (List.filter_sublist.map _)

/-- The cells by name are the cells. -/
theorem cells_owned {l : RefLedger} (h : l.cells.Nodup) : (RgbStd.cells l.owned).Perm l.cells := by
  have he : RgbStd.cells l.owned = l.names.flatMap fun n => l.cells.filter (·.1 = n) := by
    rw [RgbStd.cells, owned, List.flatMap_map]
    refine congrArg (fun f => l.names.flatMap f) (funext fun n => ?_)
    rw [List.map_map, List.map_congr_left (g := id) fun e he => ?_, List.map_id]
    have hn : e.1 = n := of_decide_eq_true (List.mem_filter.1 he).2
    rw [← hn]
    rfl
  rw [he]
  refine (List.perm_ext_iff_of_nodup ?_ h).2 fun e => ?_
  · rw [List.nodup_flatMap]
    refine ⟨fun n _ => h.filter _, (List.nodup_dedup _).imp fun hne e he he' => hne ?_⟩
    exact (of_decide_eq_true (List.mem_filter.1 he).2).symm.trans (of_decide_eq_true (List.mem_filter.1 he').2)
  · rw [List.mem_flatMap]
    constructor
    · rintro ⟨n, -, hm⟩
      exact (List.mem_filter.1 hm).1
    · intro hm
      exact ⟨e.1, List.mem_dedup.2 (List.mem_map_of_mem hm), List.mem_filter.2 ⟨hm, decide_eq_true rfl⟩⟩

/-- What a call that is accepted makes of a ledger. -/
theorem call_ok {l l' : RefLedger} {p : CallParams Nat Nat Unit} {o : Opid} (h : l.call p = (.ok o, l')) :
    (∀ a ∈ keys p.using_, a ∈ l.cells.map (·.2.1)) ∧ p.core.owned.length ≤ 65535 ∧ o ∉ l.known ∧
      ∃ op : RefOperation, op.opid = o ∧ op.ins = keys p.using_ ∧
        op.outs = p.core.owned.map (fun out => (out.name, out.state.auth, out.state.data)) ∧
        l' = { l with ops := op :: l.ops, invalid := l.invalid.filter (· ≠ o), log := l.log ++ [o] } := by
  simp only [RefLedger.call] at h
  split at h
  · rename_i hc
    obtain ⟨ho, rfl⟩ := Prod.mk.inj h
    cases ho
    refine ⟨fun a ha => ?_, hc.2.1, hc.2.2, _, rfl, rfl, rfl, rfl⟩
    simpa using List.all_eq_true.1 hc.1 a ha
  · cases h

theorem opid_of_mem_cells {l : RefLedger} {c : StateName × CellAddr × Nat} (h : c ∈ l.cells) :
    c.2.1.opid ∈ l.operations := by
  obtain ⟨op, hop, hc⟩ := List.mem_flatMap.1 (List.mem_filter.1 h).1
  rw [opid_of_mem_outputs hc]
  exact List.mem_map_of_mem (mem_validOps.1 hop).1

theorem Traced.call {l l' : RefLedger} (hl : l.Traced) {p : CallParams Nat Nat Unit} {o : Opid}
    (h : l.call p = (.ok o, l')) : l'.Traced := by
  obtain ⟨hused, hsmall, hnew, op, rfl, hins, houts, rfl⟩ := call_ok h
  refine ⟨List.nodup_cons.2 ⟨fun hm => hnew (List.mem_cons_of_mem _ hm), hl.nodup⟩, ?_, ?_⟩
  · refine List.forall_mem_cons.2 ⟨?_, hl.small⟩
    rwa [houts, List.length_map]
  · have hknown : ∀ o' ∈ l.known, o' ∈ l.articles.genesis.opid :: op.opid :: l.operations := by
      intro o' ho'
      rcases List.mem_cons.1 ho' with rfl | ho'
      · exact List.mem_cons_self
      · exact List.mem_cons_of_mem _ (List.mem_cons_of_mem _ ho')
    refine List.forall_mem_cons.2 ⟨fun a ha => ?_, fun op' hop' a ha => hknown _ (hl.used op' hop' a ha)⟩
    obtain ⟨c, hc, rfl⟩ := List.mem_map.1 (hused a (hins ▸ ha))
    exact hknown _ (List.mem_cons_of_mem _ (opid_of_mem_cells hc))

/-- The cells used are gone, and those of the new operation are there. -/
theorem Traced.cells_call {l l' : RefLedger} (hl : l.Traced) {p : CallParams Nat Nat Unit} {o : Opid}
    (h : l.call p = (.ok o, l')) :
    l'.cells = l.cells.filter (fun e => e.2.1 ∉ keys p.using_) ++ newCells o p.core.owned := by
  obtain ⟨hused, -, hnew, op, rfl, hins, houts, rfl⟩ := call_ok h
  set l' : RefLedger :=
    { l with ops := op :: l.ops, invalid := l.invalid.filter (· ≠ op.opid), log := l.log ++ [op.opid] }
  have hother : ∀ op' ∈ l.ops, op'.opid ≠ op.opid := fun op' hop' he =>
    hnew (List.mem_cons_of_mem _ (he ▸ List.mem_map_of_mem hop'))
  have hvalid : l'.validOps = l.validOps ++ [op] := by
    rw [validOps, show l'.ops.reverse = l.ops.reverse ++ [op] from List.reverse_cons, List.filter_append]
    congr 1
    · refine List.filter_congr fun op' hop' => ?_
      have hne := hother op' (List.mem_reverse.1 hop')
      simp [isValid, operations, l', hne]
    · simp [isValid, operations, l']
  have hspent : l'.spent = l.spent ++ keys p.using_ := by
    rw [spent, hvalid, List.flatMap_append, ← hins]
    simp [spent]
  have hcells : outputs op = newCells op.opid p.core.owned := by
    rw [outputs, newCells, houts, List.zipIdx_map, List.map_map]
    rfl
  -- no operation has used what was not made yet
  have hfree : (outputs op).filter (fun c => c.2.1 ∉ l'.spent) = outputs op := by
    refine List.filter_eq_self.2 fun c hc => decide_eq_true fun hm => hnew ?_
    rw [← opid_of_mem_outputs hc]
    rw [hspent] at hm
    rcases List.mem_append.1 hm with hm | hm
    · obtain ⟨op', hop', ha⟩ := List.mem_flatMap.1 hm
      exact hl.used op' (mem_validOps.1 hop').1 _ ha
    · obtain ⟨c', hc', he⟩ := List.mem_map.1 (hused _ hm)
      rw [← he]
      exact List.mem_cons_of_mem _ (opid_of_mem_cells hc')
  rw [cells, hvalid, List.flatMap_append, List.filter_append, List.flatMap_singleton, hfree, hcells]
  refine congrArg (· ++ _) ?_
  rw [cells, List.filter_filter, hspent]
  refine List.filter_congr fun c _ => ?_
  simp [not_or, and_comm]

end RefLedger

theorem refSonic_supplyLaws : refSonic.SupplyLaws RefLedger.Traced where
  nodup l hl := (((RefLedger.cells_owned (List.Nodup.of_map _ hl.nodup_cells)).map _).nodup_iff).2 hl.nodup_cells
  keeps l p o l' hl h := hl.call h
  articles l p o l' h := (refSonic_call_new h).2.2.1
  cells l p o l' hl h := by
    have hl' := hl.call h
    refine (RefLedger.cells_owned (List.Nodup.of_map _ hl'.nodup_cells)).trans ?_
    rw [hl.cells_call h]
    exact ((RefLedger.cells_owned (List.Nodup.of_map _ hl.nodup_cells)).symm.filter _).append_right _

namespace Purse

/-- One cell of contract 3 is spent, and then the other; contract 4 gets a blank. -/
def callTwice : List (WalletCall refSonic refBp) :=
  [.prefab (spend 3 [(0, first)] 60 1), .bundle [spend 3 [(1, first)] 40 1] (some 2)]

theorem traced : RefLedger.Traced (contract 3 "Coin" [(60, first), (40, first), (5, second)]).ledger where
  nodup := by decide
  small := by decide
  used := by decide

end Purse

set_option maxRecDepth 8192 in
/-- The supply is 105 throughout. -/
theorem run_supply_twice : ∃ c, Purse.wallet.contracts.served (Purse.id 3) = some c ∧
    ∃ states, Runs.run RgbWallet.after Purse.wallet Purse.callTwice = some states ∧
      ∀ w' ∈ states, ∃ c', w'.contracts.served (Purse.id 3) = some c' ∧
        supply refTotals c'.ledger "amount" = supply refTotals c.ledger "amount" := by
  obtain ⟨states, h⟩ : ∃ states, Runs.run RgbWallet.after Purse.wallet Purse.callTwice = some states := ⟨_, rfl⟩
  refine ⟨_, rfl, states, h,
    (RgbWallet.run_supply_iff refSonic_supplyLaws refSonic_callLaws rfl Purse.traced "amount" h).2 ?_⟩
  decide

/-- A cell of 60 that is listed twice adds 60. -/
example : RgbWallet.minted refTotals (Purse.id 3) "amount" Purse.wallet
    (.prefab (Purse.spend 3 [(0, Purse.first), (0, Purse.first)] 120 1)) = 60 := by decide

end RgbStd
