import RgbStd.Popls.Bp
/-!
# What a call of the wallet does

* `CallLaws`: what is relied on in the ledger's `call`.
* `prefab_err`, `prefab_ok`: a refused request leaves the contracts as they were; an accepted one
  is a call of its contract and of no other.
* `prefabs_fit`: the prefabs of a list of requests, one by one.
* `blankRequests_eq`, `plan_eq`: the blanks are those of the contracts that no request named.
-/
namespace RgbStd
open Tables Decode

/-- A failed call leaves the ledger as it is; a completed one records an operation made of the
parameters of the call. -/
structure Hypersonic.CallLaws (H : Hypersonic) : Prop where
  err : ∀ l p e l', H.call l p = (.error e, l') → l' = l
  trace : ∀ l p o l', H.call l p = (.ok o, l') → H.trace l' = H.trace l ++ [o]
  ledgerId : ∀ l p o l', H.call l p = (.ok o, l') → H.ledgerId l' = H.ledgerId l
  contractId : ∀ l p o l', H.call l p = (.ok o, l') → H.contractId (H.operation l' o) = H.ledgerId l
  ins : ∀ l p o l', H.call l p = (.ok o, l') → ∀ a, a ∈ H.destructibleIn (H.operation l' o) ↔ a ∈ keys p.using_
  outs : ∀ l p o l', H.call l p = (.ok o, l') →
    H.destructibleOut (H.operation l' o) = p.core.owned.map (·.state.auth)

theorem refSonic_call_ok {l l' : RefLedger} {p : CallParams Nat Nat Unit} {o : Opid} (h : l.call p = (.ok o, l')) :
    l'.operation o = ⟨l.articles.id, l.log.length + 1, keys p.using_,
      p.core.owned.map fun o => (o.name, o.state.auth, o.state.data)⟩ ∧
    l'.log = l.log ++ [o] ∧ l'.articles = l.articles := by
  simp only [RefLedger.call] at h
  split at h
  · obtain ⟨ho, rfl⟩ := Prod.mk.inj h
    cases ho
    exact ⟨by simp [RefLedger.operation], rfl, rfl⟩
  · cases h

theorem refSonic_callLaws : refSonic.CallLaws where
  err l p e l' h := by
    have h' : l.call p = (.error e, l') := h
    simp only [RefLedger.call] at h'
    split at h'
    · cases h'
    · exact (Prod.mk.inj h').2.symm
  trace _ _ _ _ h := (refSonic_call_ok h).2.1
  ledgerId _ _ _ _ h := congrArg RefArticles.id (refSonic_call_ok h).2.2
  contractId _ _ _ _ h := congrArg RefOperation.contract (refSonic_call_ok h).1
  ins _ _ _ _ h a := by rw [show refSonic.operation _ _ = _ from (refSonic_call_ok h).1]
  outs _ _ _ _ h := by
    rw [show refSonic.operation _ _ = _ from (refSonic_call_ok h).1]
    simp [Function.comp_def]

namespace Contract

variable {H : Hypersonic} {S : RgbSeal}

/-- A completed call: the operation recorded and its seals added. -/
theorem call_ok {c : Contract H S} {params : CallParams H.StrictVal H.StateAtom H.Satisfaction}
    {seals : SmallMap UInt16 S.Definition} {op : H.Operation} (h : (c.call params seals).1 = .ok op) :
    ∃ o ledger, H.call c.ledger params = (.ok o, ledger) ∧ op = H.operation ledger o ∧
      (c.call params seals).2.ledger = ledger ∧
      c.pile.addSeals o seals.entries = some (c.call params seals).2.pile := by
  unfold call at h ⊢
  split at h
  · cases h
  · rename_i o ledger hl
    split at h
    · cases h
    · rename_i pile hp
      cases h
      exact ⟨o, ledger, hl, rfl, rfl, hp⟩

theorem call_err (hL : H.CallLaws) {c c' : Contract H S} {params : CallParams H.StrictVal H.StateAtom H.Satisfaction}
    {seals : SmallMap UInt16 S.Definition} {e : MultiError H.AcceptError H.StockError Empty}
    (h : c.call params seals = (.error (.err e), c')) :
    c' = c ∧ ∀ o l, H.call c.ledger params ≠ (.ok o, l) := by
  unfold call at h
  split at h
  · rename_i e' ledger hl
    obtain ⟨_, rfl⟩ := Prod.mk.inj h
    rw [hL.err _ _ _ _ hl]
    exact ⟨rfl, fun o l ho => by simp [hl] at ho⟩
  · split at h <;> cases h

end Contract

/-- A contract handed out is the one that is served, and reading it changes no other. -/
theorem Contracts.withContract_eq {H : Hypersonic} {S : RgbSeal} {W : Wire H S} {V : Verifier H S} {P : Stockpile W V}
    {R : Type} {s s' : Contracts P} {id : ContractId} {f : Contract H S → R} {r : R}
    (h : s.withContract id f none = some (r, s')) : ∃ c, s.served id = some c ∧ r = f c ∧
      s'.persistence = s.persistence ∧ ∀ id', s'.served id' = s.served id' := by
  unfold withContract at h
  split at h
  · rename_i c hc
    cases h
    exact ⟨c, by simp [served, hc], rfl, rfl, fun _ => rfl⟩
  · rename_i hn
    split at h
    · rename_i c hc
      cases h
      have hserved : s.served id = some c := by simp [served, hn, hc]
      refine ⟨c, hserved, rfl, rfl, fun id' => ?_⟩
      rw [served_upsert]
      split
      · rename_i he
        rw [he, hserved]
      · rfl
    · cases h

theorem Contracts.withContract_served {H : Hypersonic} {S : RgbSeal} {W : Wire H S} {V : Verifier H S}
    {P : Stockpile W V} {R : Type} {s : Contracts P} {id : ContractId} {c : Contract H S} (h : s.served id = some c)
    (f : Contract H S → R) : ∃ s', s.withContract id f none = some (f c, s') := by
  unfold withContract
  unfold served at h
  cases hg : get s.contracts id with
  | some c' =>
    rw [hg, Option.some_or] at h
    cases h
    exact ⟨s, rfl⟩
  | none =>
    rw [hg, Option.none_or] at h
    exact ⟨_, by rw [h]⟩

/-- An address is not found if no entry has it. -/
theorem ContractState.find_eq_none {H : Hypersonic} {S : RgbSeal} {state : ContractState H S} {addr : CellAddr} :
    state.find addr = none ↔ ∀ m ∈ state.owned, ∀ e ∈ m.2, e.addr ≠ addr := by
  simp [find, List.findSome?_eq_none_iff]

namespace OpRequest

variable {H : Hypersonic} {B : BpCore}

/-- What a draft is made of. -/
theorem draft_eq_ok {engine : Bytes} {request : OpRequest H (PrefabSeal B.Noise)} {d : Draft H B}
    (h : request.draft engine = .ok d) :
    SmallSet.ofList (request.using_.map (·.outpoint)) = some d.closes ∧
      defineSeals engine request.owned.zipIdx .empty .empty = .ok (d.defines, d.seals) ∧
      d.call.using_ = request.using_.foldl (fun t used => upsert t used.addr used.satisfaction) [] ∧
      d.call.core.owned.map (·.state.auth) = request.owned.zipIdx.map fun e => authAt engine e.2 e.1.state.seal_ := by
  unfold draft at h
  split at h
  · cases h
  · rename_i closes hc
    split at h
    · cases h
    · rename_i defines seals hds
      cases h
      exact ⟨hc, hds, rfl, by simp [Function.comp_def]⟩

/-- What a draft takes from its request. -/
theorem draft_ok {engine : Bytes} {request : OpRequest H (PrefabSeal B.Noise)} {d : Draft H B}
    (h : request.draft engine = .ok d) :
    (∀ o, o ∈ d.closes.elems ↔ o ∈ request.using_.map (·.outpoint)) ∧
      (∀ a, a ∈ keys d.call.using_ ↔ a ∈ request.using_.map (·.addr)) ∧
      d.call.core.owned.map (·.state.auth) = request.owned.zipIdx.map fun e => authAt engine e.2 e.1.state.seal_ := by
  obtain ⟨hc, -, hused, hout⟩ := draft_eq_ok h
  refine ⟨fun o => SmallSet.mem_ofList hc o, fun a => ?_, hout⟩
  rw [hused]
  exact (mem_keys_foldl_upsert UsedState.addr UsedState.satisfaction request.using_ [] a).trans (by simp [keys])

end OpRequest

namespace RgbWallet

variable {H : Hypersonic} {B : BpCore} {W : Wire H B.txoSeal} {V : Verifier H B.txoSeal} {P : Stockpile W V}

theorem contractEngine_of_wallet {w w' : RgbWallet P} (h : w'.wallet = w.wallet) (id : ContractId) :
    w'.contractEngine id = w.contractEngine id := by
  simp only [contractEngine, noiseEngine, h]

/-- The same contracts are served from the same storage. -/
structure Same (w w' : RgbWallet P) : Prop where
  wallet : w'.wallet = w.wallet
  persistence : w'.contracts.persistence = w.contracts.persistence
  served : ∀ id, w'.contracts.served id = w.contracts.served id

theorem Same.refl (w : RgbWallet P) : Same w w := ⟨rfl, rfl, fun _ => rfl⟩

theorem Same.trans {w₁ w₂ w₃ : RgbWallet P} (h : Same w₁ w₂) (h' : Same w₂ w₃) : Same w₁ w₃ :=
  ⟨h'.wallet.trans h.wallet, h'.persistence.trans h.persistence, fun id => (h'.served id).trans (h.served id)⟩

theorem Same.contractEngine {w w' : RgbWallet P} (h : Same w w') (id : ContractId) :
    w'.contractEngine id = w.contractEngine id := contractEngine_of_wallet h.wallet id

/-- The state and the articles that are read are those of one contract. -/
theorem reads_eq {w : RgbWallet P} {id : ContractId} {state : ContractState H B.txoSeal} {articles : H.Articles}
    {contracts contracts' : Contracts P} (hs : w.contracts.contractState id = some (state, contracts))
    (ha : contracts.contractArticles id = some (articles, contracts')) :
    ∃ c, w.contracts.served id = some c ∧ state = c.state ∧ articles = H.articles c.ledger ∧
      Same w { w with contracts := contracts' } := by
  obtain ⟨c, hc, rfl, hp, hv⟩ := Contracts.withContract_eq hs
  obtain ⟨c', hc', rfl, hp', hv'⟩ := Contracts.withContract_eq ha
  obtain rfl : c = c' := Option.some.inj (hc.symm.trans ((hv _).symm.trans hc'))
  exact ⟨c, hc, rfl, rfl, rfl, hp'.trans hp, fun id => (hv' id).trans (hv id)⟩

/-- Both can be read of a contract that is served. -/
theorem reads_served {w : RgbWallet P} {id : ContractId} {c : Contract H B.txoSeal}
    (hc : w.contracts.served id = some c) : ∃ contracts contracts',
      w.contracts.contractState id = some (c.state, contracts) ∧
      contracts.contractArticles id = some (H.articles c.ledger, contracts') ∧
      Same w { w with contracts := contracts' } := by
  obtain ⟨contracts, hs⟩ := Contracts.withContract_served hc Contract.state
  obtain ⟨_, _, _, _, hv⟩ := Contracts.withContract_eq hs
  obtain ⟨contracts', ha⟩ := Contracts.withContract_served ((hv _).trans hc) fun c => H.articles c.ledger
  obtain ⟨_, _, _, _, hsame⟩ := reads_eq hs ha
  exact ⟨contracts, contracts', hs, ha, hsame⟩

theorem checkRequest_same {T : Type} {w w' : RgbWallet P} {request : OpRequest H T} {r : Res (UnmatchedState H) Unit}
    (h : w.checkRequest request = (r, w')) : r = .error .panic ∨ Same w w' ∧
      ∃ c, w.contracts.served request.contractId = some c ∧ r = request.check (H.articles c.ledger) c.state := by
  unfold checkRequest at h
  split at h
  · cases h; exact Or.inl rfl
  · rename_i state contracts hs
    split at h
    · cases h; exact Or.inl rfl
    · rename_i articles contracts' ha
      cases h
      obtain ⟨c, hc, rfl, rfl, hsame⟩ := reads_eq hs ha
      exact Or.inr ⟨hsame, c, hc, rfl⟩

/-- For a contract that is served the check is made. -/
theorem checkRequest_served {T : Type} {w : RgbWallet P} {request : OpRequest H T} {c : Contract H B.txoSeal}
    (hc : w.contracts.served request.contractId = some c) :
    ∃ w', w.checkRequest request = (request.check (H.articles c.ledger) c.state, w') ∧ Same w w' := by
  obtain ⟨contracts, contracts', hs, ha, hsame⟩ := reads_served hc
  refine ⟨{ w with contracts := contracts' }, ?_, hsame⟩
  rw [checkRequest, hs]
  simp only [ha]

/-- The request passes the check, fits the confinements, and the ledger takes the call. -/
def Accepted (w : RgbWallet P) (request : OpRequest H (PrefabSeal B.Noise)) : Prop :=
  ∃ c d, w.contracts.served request.contractId = some c ∧ request.check (H.articles c.ledger) c.state = .ok () ∧
    request.draft (w.contractEngine request.contractId) = .ok d ∧ ∃ o l, H.call c.ledger d.call = (.ok o, l)

/-- The call of the contract a request is for, with its draft. -/
structure Calls (w : RgbWallet P) (request : OpRequest H (PrefabSeal B.Noise)) (w' : RgbWallet P)
    (c : Contract H B.txoSeal) (d : Draft H B) : Prop where
  served : w.contracts.served request.contractId = some c
  check : request.check (H.articles c.ledger) c.state = .ok ()
  draft : request.draft (w.contractEngine request.contractId) = .ok d
  wallet : w'.wallet = w.wallet
  persistence : w'.contracts.persistence = w.contracts.persistence
  after : ∀ id, w'.contracts.served id =
    if id = request.contractId then some (c.call d.call d.seals).2 else w.contracts.served id

/-- **What `prefab` does**, but for panics: it refuses the request before the call, or calls the
contract and returns what the call returned. -/
theorem prefab_eq {w w' : RgbWallet P} {request : OpRequest H (PrefabSeal B.Noise)}
    {r : Res (MultiError (PrefabError H) H.StockError Empty) (Prefab H)} (h : w.prefab request = (r, w')) :
    r = .error .panic ∨ (Same w w' ∧ ¬w.Accepted request ∧ ∃ e, r = .error (.err e)) ∨
      ∃ c d, Calls w request w' c d ∧ r = match (c.call d.call d.seals).1 with
        | .error e => .error (named .accept e)
        | .ok operation => .ok ⟨d.closes, d.defines, operation⟩ := by
  unfold prefab at h
  split at h
  · cases h
    exact Or.inl rfl
  · rename_i e w₁ hr
    cases h
    rcases checkRequest_same hr with he | ⟨hs, c, hc, hck⟩
    · cases he
    refine Or.inr (Or.inl ⟨hs, ?_, _, rfl⟩)
    rintro ⟨c₁, d, hc₁, hck₁, _⟩
    obtain rfl : c = c₁ := Option.some.inj (hc.symm.trans hc₁)
    rw [hck₁] at hck
    cases hck
  · rename_i w₁ hr
    rcases checkRequest_same hr with he | ⟨hs, c, hc, hck⟩
    · cases he
    rw [hs.contractEngine] at h
    split at h
    · cases h
      exact Or.inl rfl
    · rename_i e hd
      cases h
      refine Or.inr (Or.inl ⟨hs, ?_, _, rfl⟩)
      rintro ⟨_, d, _, _, hd', _⟩
      rw [hd] at hd'
      cases hd'
    · rename_i d hd
      cases hcall : w₁.contracts.contractCall request.contractId d.call d.seals with
      | none =>
        rw [hcall] at h
        cases h
        exact Or.inl rfl
      | some q =>
        obtain ⟨r₁, contracts⟩ := q
        obtain ⟨c₁, hc₁, rfl, rfl⟩ := Contracts.withContractMut_eq hcall
        obtain rfl : c = c₁ := by rw [hs.served, hc] at hc₁; exact Option.some.inj hc₁
        have hafter : ∀ id, Contracts.served
            ⟨upsert w₁.contracts.contracts request.contractId (c.call d.call d.seals).2, w₁.contracts.persistence⟩ id =
            if id = request.contractId then some (c.call d.call d.seals).2 else w.contracts.served id := by
          intro id
          rw [← hs.served id]
          exact w₁.contracts.served_upsert request.contractId _ id
        refine Or.inr (Or.inr ⟨c, d, ?_⟩)
        cases hres : (c.call d.call d.seals).1 with
        | error e =>
          simp only [hcall, hres] at h
          cases h
          exact ⟨⟨hc, hck.symm, hd, hs.wallet, hs.persistence, hafter⟩, rfl⟩
        | ok operation =>
          simp only [hcall, hres] at h
          cases h
          exact ⟨⟨hc, hck.symm, hd, hs.wallet, hs.persistence, hafter⟩, rfl⟩

/-- A prefab is made by an accepted call. -/
theorem prefab_ok {w w' : RgbWallet P} {request : OpRequest H (PrefabSeal B.Noise)} {p : Prefab H}
    (h : w.prefab request = (.ok p, w')) :
    ∃ c d, Calls w request w' c d ∧ (c.call d.call d.seals).1 = .ok p.operation ∧ p.closes = d.closes := by
  rcases prefab_eq h with he | ⟨_, _, _, he⟩ | ⟨c, d, hcalls, hr⟩
  · cases he
  · cases he
  · refine ⟨c, d, hcalls, ?_⟩
    split at hr
    · cases hr
    · rename_i he
      cases hr
      exact ⟨he, rfl⟩

/-- A refused request changes nothing. -/
theorem prefab_err (hL : H.CallLaws) {w w' : RgbWallet P} {request : OpRequest H (PrefabSeal B.Noise)}
    {e : MultiError (PrefabError H) H.StockError Empty} (h : w.prefab request = (.error (.err e), w')) :
    Same w w' ∧ ¬w.Accepted request := by
  rcases prefab_eq h with he | ⟨hs, hn, _⟩ | ⟨c, d, hcalls, hr⟩
  · cases he
  · exact ⟨hs, hn⟩
  · have hcall : ∃ e, c.call d.call d.seals = (.error (.err e), (c.call d.call d.seals).2) := by
      split at hr
      · rename_i e' he
        cases e' with
        | panic => cases hr
        | err e' => exact ⟨e', Prod.ext he rfl⟩
      · cases hr
    obtain ⟨e', hcall⟩ := hcall
    obtain ⟨hsame, hno⟩ := Contract.call_err hL hcall
    refine ⟨⟨hcalls.wallet, hcalls.persistence, fun id => ?_⟩, ?_⟩
    · rw [hcalls.after, hsame]
      split
      · rename_i hid
        rw [hid, hcalls.served]
      · rfl
    · rintro ⟨c₁, d₁, hc₁, _, hd₁, o, l, hl⟩
      obtain rfl : c = c₁ := Option.some.inj (hcalls.served.symm.trans hc₁)
      obtain rfl : d = d₁ := Except.ok.inj (hcalls.draft.symm.trans hd₁)
      exact hno o l hl

/-! ## Lists of requests -/

/-- The contract is served under the id its ledger has. -/
def OwnId (w : RgbWallet P) (id : ContractId) : Prop := ∀ c, w.contracts.served id = some c → H.ledgerId c.ledger = id

/-- All contracts are served under the ids their ledgers have. -/
def OwnIds (w : RgbWallet P) : Prop := ∀ id, w.OwnId id

theorem Same.ownIds {w w' : RgbWallet P} (h : Same w w') (hO : w.OwnIds) : w'.OwnIds :=
  fun id c hc => hO id c (h.served id ▸ hc)

/-- An operation of the requested contract that spends and closes what the request says. -/
structure Fits (request : OpRequest H (PrefabSeal B.Noise)) (p : Prefab H) : Prop where
  contractId : H.contractId p.operation = request.contractId
  ins : ∀ a, a ∈ H.destructibleIn p.operation ↔ a ∈ request.using_.map (·.addr)
  closes : ∀ o, o ∈ p.closes.elems ↔ o ∈ request.using_.map (·.outpoint)

/-- A prefab spends and closes what its request lists. -/
theorem prefab_uses (hL : H.CallLaws) {w w' : RgbWallet P} {request : OpRequest H (PrefabSeal B.Noise)} {p : Prefab H}
    (h : w.prefab request = (.ok p, w')) :
    (∀ a, a ∈ H.destructibleIn p.operation ↔ a ∈ request.using_.map (·.addr)) ∧
      ∀ o, o ∈ p.closes.elems ↔ o ∈ request.using_.map (·.outpoint) := by
  obtain ⟨c, d, hcalls, hop, hcl⟩ := prefab_ok h
  obtain ⟨o, ledger, hl, hop, -⟩ := Contract.call_ok hop
  obtain ⟨hcloses, hins, -⟩ := OpRequest.draft_ok hcalls.draft
  exact ⟨fun a => by rw [hop, hL.ins _ _ _ _ hl, hins], fun o => by rw [hcl, hcloses]⟩

theorem prefab_fits (hL : H.CallLaws) {w w' : RgbWallet P} {request : OpRequest H (PrefabSeal B.Noise)}
    {p : Prefab H} (hO : w.OwnId request.contractId) (h : w.prefab request = (.ok p, w')) :
    Fits request p ∧ ∀ id, w.OwnId id → w'.OwnId id := by
  obtain ⟨hins, hcloses⟩ := prefab_uses hL h
  obtain ⟨c, d, hcalls, hop, -⟩ := prefab_ok h
  obtain ⟨o, ledger, hl, hop, hledger, _⟩ := Contract.call_ok hop
  have hid := hO _ hcalls.served
  refine ⟨⟨?_, hins, hcloses⟩, fun id hown c₁ hc₁ => ?_⟩
  · rw [hop, hL.contractId _ _ _ _ hl, hid]
  · rw [hcalls.after] at hc₁
    split at hc₁
    · rename_i he
      cases hc₁
      rw [he, hledger, hL.ledgerId _ _ _ _ hl, hid]
    · exact hown _ hc₁

/-- The first request is met, and then the others are. -/
theorem prefabs_cons_ok {w w' : RgbWallet P} {request : OpRequest H (PrefabSeal B.Noise)}
    {requests : List (OpRequest H (PrefabSeal B.Noise))} {ps : List (Prefab H)}
    (h : w.prefabs (request :: requests) = (.ok ps, w')) : ∃ p w₁ ps', w.prefab request = (.ok p, w₁) ∧
      w₁.prefabs requests = (.ok ps', w') ∧ ps = p :: ps' := by
  simp only [prefabs] at h
  split at h
  · cases h
  · rename_i p w₁ hp
    split at h
    · cases h
    · rename_i ps' w₂ hps
      cases h
      exact ⟨p, w₁, ps', hp, hps, rfl⟩

/-- The prefabs of a list of requests, one by one; other contracts are not touched. -/
theorem prefabs_fit (hL : H.CallLaws) {requests : List (OpRequest H (PrefabSeal B.Noise))} :
    ∀ {w w' : RgbWallet P} {ps : List (Prefab H)}, (∀ id ∈ requests.map (·.contractId), w.OwnId id) →
      w.prefabs requests = (.ok ps, w') →
      List.Forall₂ Fits requests ps ∧ (∀ id, w.OwnId id → w'.OwnId id) ∧
        w'.contracts.persistence = w.contracts.persistence ∧
        ∀ id, id ∉ requests.map (·.contractId) → w'.contracts.served id = w.contracts.served id := by
  induction requests with
  | nil =>
    intro w w' ps _ h
    cases h
    exact ⟨.nil, fun _ h => h, rfl, fun _ _ => rfl⟩
  | cons request requests ih =>
    intro w w' ps hO h
    obtain ⟨p, w₁, ps', hp, hps, rfl⟩ := prefabs_cons_ok h
    obtain ⟨c, d, hcalls, _⟩ := prefab_ok hp
    obtain ⟨hfit, hO₁⟩ := prefab_fits hL (hO _ List.mem_cons_self) hp
    obtain ⟨hfits, hO₂, hper, hserved⟩ := ih (fun id hid => hO₁ id (hO id (List.mem_cons_of_mem _ hid))) hps
    refine ⟨.cons hfit hfits, fun id hid => hO₂ id (hO₁ id hid), hper.trans hcalls.persistence, fun id hid => ?_⟩
    obtain ⟨hne, hid⟩ : id ≠ request.contractId ∧ id ∉ requests.map (·.contractId) := by simpa using hid
    rw [hserved id hid, hcalls.after, if_neg hne]

theorem map_contractId {requests : List (OpRequest H (PrefabSeal B.Noise))} {ps : List (Prefab H)}
    (h : List.Forall₂ Fits requests ps) : ps.map (fun p => H.contractId p.operation) = requests.map (·.contractId) := by
  induction h with
  | nil => rfl
  | cons hfit _ ih => rw [List.map_cons, List.map_cons, hfit.contractId, ih]

/-- The outputs closed are those the requests use. -/
theorem mem_closes_iff {requests : List (OpRequest H (PrefabSeal B.Noise))} {ps : List (Prefab H)}
    (h : List.Forall₂ Fits requests ps) (o : Outpoint) :
    o ∈ ps.flatMap (·.closes.elems) ↔ o ∈ requests.flatMap (·.using_.map (·.outpoint)) := by
  induction h with
  | nil => simp
  | cons hfit _ ih => rw [List.flatMap_cons, List.flatMap_cons, List.mem_append, List.mem_append, hfit.closes, ih]

/-! ## Blank requests -/

/-- Output `no` has the noise derived for it. -/
def Derived (engine : Bytes) (out : NamedState (Assignment (EitherSeal (PrefabSeal B.Noise)) H.StrictVal))
    (no : Nat) : Prop :=
  ∃ vout, out.state.seal_ = .alt ⟨vout, some (B.noiseWith (.wout vout) engine (UInt64.ofNat no))⟩

theorem changeOutputs_derived {engine : Bytes} {change : Option UInt32} {name : StateName} {vals : List H.StrictVal} :
    ∀ {nonce : Nat} {outs : List (NamedState (Assignment (EitherSeal (PrefabSeal B.Noise)) H.StrictVal))},
      changeOutputs engine change name vals nonce = .ok outs →
      outs.length = vals.length ∧ ∀ e ∈ outs.zipIdx nonce, Derived engine e.1 e.2 := by
  induction vals with
  | nil =>
    intro nonce outs h
    cases h
    exact ⟨rfl, by simp⟩
  | cons data vals ih =>
    intro nonce outs h
    cases change with
    | none => cases h
    | some vout =>
      obtain ⟨rest, hrest, h⟩ := except_bind_eq_ok.1 h
      cases h
      obtain ⟨hlen, hd⟩ := ih hrest
      refine ⟨by simp [hlen], fun e he => ?_⟩
      rw [List.zipIdx_cons, List.mem_cons] at he
      rcases he with rfl | he
      · exact ⟨vout, rfl⟩
      · exact hd e he

theorem blankOutputs_derived {engine : Bytes} {change : Option UInt32} {calcs : List (StateName × H.StateCalc)} :
    ∀ {nonce : Nat} {outs : List (NamedState (Assignment (EitherSeal (PrefabSeal B.Noise)) H.StrictVal))},
      blankOutputs engine change calcs nonce = .ok outs → ∀ e ∈ outs.zipIdx nonce, Derived engine e.1 e.2 := by
  induction calcs with
  | nil =>
    intro nonce outs h
    cases h
    simp
  | cons calc_ calcs ih =>
    intro nonce outs h
    obtain ⟨diff, _, h⟩ := except_bind_eq_ok.1 h
    obtain ⟨outs₁, h₁, h⟩ := except_bind_eq_ok.1 h
    obtain ⟨outs₂, h₂, h⟩ := except_bind_eq_ok.1 h
    cases h
    obtain ⟨hlen, hd⟩ := changeOutputs_derived h₁
    intro e he
    rw [List.zipIdx_append, List.mem_append, hlen] at he
    exact he.elim (hd e) (ih h₂ e)

/-- A blank spends all the entries at the outpoints, and derives its outputs' noise. -/
theorem blankRequest_ok {engine : Bytes} {change : Option UInt32} {outpoints : List Outpoint} {id : ContractId}
    {articles : H.Articles} {state : ContractState H B.txoSeal} {r : Option (OpRequest H (PrefabSeal B.Noise))}
    (h : blankRequest engine change outpoints id articles state = .ok r) :
    (entriesAt state outpoints = [] ∧ r = none) ∨ ∃ q, r = some q ∧ entriesAt state outpoints ≠ [] ∧ q.contractId = id ∧
      q.using_ = ((entriesAt state outpoints).map fun e => ⟨e.2.addr, e.2.assignment.seal_.primary, none⟩) ∧
      ∀ e ∈ q.owned.zipIdx, Derived engine e.1 e.2 := by
  unfold blankRequest at h
  split at h
  · rename_i he
    cases h
    exact Or.inl ⟨he, rfl⟩
  · rename_i hne
    obtain ⟨calcs, _, h⟩ := except_bind_eq_ok.1 h
    obtain ⟨owned, ho, h⟩ := except_bind_eq_ok.1 h
    cases h
    exact Or.inr ⟨_, rfl, hne, rfl, rfl, blankOutputs_derived ho⟩

/-- The blanks of the contracts which are not among those named, as far as they can be made. -/
def blanks (w : RgbWallet P) (change : Option UInt32) (contracts : List ContractId) (outpoints : List Outpoint)
    (ids : List ContractId) : List (OpRequest H (PrefabSeal B.Noise)) :=
  ids.filterMap fun id =>
    if id ∈ contracts then none
    else (w.contracts.served id).bind fun c =>
      (blankRequest (w.contractEngine id) change outpoints id (H.articles c.ledger) c.state).toOption.join

/-- The requests are all those blanks. -/
structure Blanks (w : RgbWallet P) (change : Option UInt32) (contracts : List ContractId) (outpoints : List Outpoint)
    (ids : List ContractId) (requests : List (OpRequest H (PrefabSeal B.Noise))) : Prop where
  eq : requests = w.blanks change contracts outpoints ids
  made : ∀ id ∈ ids, id ∉ contracts → ∃ c q, w.contracts.served id = some c ∧
    blankRequest (w.contractEngine id) change outpoints id (H.articles c.ledger) c.state = .ok q

section
variable {w : RgbWallet P} {change : Option UInt32} {contracts ids : List ContractId} {outpoints : List Outpoint}
  {requests : List (OpRequest H (PrefabSeal B.Noise))}

theorem Blanks.skip {id : ContractId} (h : Blanks w change contracts outpoints ids requests) (hid : id ∈ contracts) :
    Blanks w change contracts outpoints (id :: ids) requests where
  eq := by rw [h.eq, blanks, blanks, List.filterMap_cons, if_pos hid]
  made id' hid' hn := by
    rcases List.mem_cons.1 hid' with rfl | hid'
    · exact absurd hid hn
    · exact h.made id' hid' hn

theorem Blanks.cons {id : ContractId} {c : Contract H B.txoSeal} {q : Option (OpRequest H (PrefabSeal B.Noise))}
    (h : Blanks w change contracts outpoints ids requests) (hid : id ∉ contracts) (hc : w.contracts.served id = some c)
    (hq : blankRequest (w.contractEngine id) change outpoints id (H.articles c.ledger) c.state = .ok q) :
    Blanks w change contracts outpoints (id :: ids) (q.toList ++ requests) where
  eq := by
    rw [h.eq, blanks, blanks, List.filterMap_cons, if_neg hid, hc, Option.bind_some, hq]
    cases q <;> rfl
  made id' hid' hn := by
    rcases List.mem_cons.1 hid' with rfl | hid'
    · exact ⟨c, q, hc, hq⟩
    · exact h.made id' hid' hn

theorem Blanks.complete (h : Blanks w change contracts outpoints ids requests) {id : ContractId} (hid : id ∈ ids)
    (hn : id ∉ contracts) : ∃ c q, w.contracts.served id = some c ∧
      blankRequest (w.contractEngine id) change outpoints id (H.articles c.ledger) c.state = .ok q ∧
      ∀ x ∈ q, x ∈ requests := by
  obtain ⟨c, q, hc, hq⟩ := h.made id hid hn
  refine ⟨c, q, hc, hq, fun x hx => ?_⟩
  rw [h.eq]
  refine List.mem_filterMap.2 ⟨id, hid, ?_⟩
  rw [if_neg hn, hc, Option.bind_some, hq]
  exact hx

theorem Blanks.sound (h : Blanks w change contracts outpoints ids requests)
    {q : OpRequest H (PrefabSeal B.Noise)} (hq : q ∈ requests) :
    ∃ id ∈ ids, id ∉ contracts ∧ ∃ c, w.contracts.served id = some c ∧
      blankRequest (w.contractEngine id) change outpoints id (H.articles c.ledger) c.state = .ok (some q) := by
  rw [h.eq] at hq
  obtain ⟨id, hid, hq⟩ := List.mem_filterMap.1 hq
  split at hq
  · cases hq
  · rename_i hn
    obtain ⟨c, hc, hq⟩ := Option.bind_eq_some_iff.1 hq
    refine ⟨id, hid, hn, c, hc, ?_⟩
    cases hb : blankRequest (w.contractEngine id) change outpoints id (H.articles c.ledger) c.state with
    | error e => rw [hb] at hq; cases hq
    | ok r => rw [hb] at hq; exact congrArg Except.ok hq

end

theorem entriesAt_congr {state : ContractState H B.txoSeal} {outpoints outpoints' : List Outpoint}
    (h : ∀ o, o ∈ outpoints ↔ o ∈ outpoints') : entriesAt state outpoints = entriesAt state outpoints' := by
  simp only [entriesAt, h]

theorem blankRequest_congr {engine : Bytes} {change : Option UInt32} {id : ContractId} {articles : H.Articles}
    {state : ContractState H B.txoSeal} {outpoints outpoints' : List Outpoint} (h : ∀ o, o ∈ outpoints ↔ o ∈ outpoints') :
    blankRequest engine change outpoints id articles state = blankRequest engine change outpoints' id articles state := by
  unfold blankRequest
  rw [entriesAt_congr h]

/-- Blanks depend on the contracts that are not named only. -/
theorem blanks_congr {w w' : RgbWallet P} {change : Option UInt32} {contracts ids : List ContractId}
    {outpoints outpoints' : List Outpoint} (hw : w'.wallet = w.wallet) (ho : ∀ o, o ∈ outpoints ↔ o ∈ outpoints')
    (hs : ∀ id, id ∉ contracts → w'.contracts.served id = w.contracts.served id) :
    w'.blanks change contracts outpoints ids = w.blanks change contracts outpoints' ids := by
  refine List.filterMap_congr fun id _ => ?_
  split
  · rfl
  · rename_i hn
    rw [hs id hn]
    simp only [contractEngine_of_wallet hw, blankRequest_congr ho]

/-- **The loop over the contracts** collects the blanks and changes nothing. -/
theorem blankRequests_eq {w : RgbWallet P} {change : Option UInt32} {contracts : List ContractId}
    {outpoints : List Outpoint} : ∀ {ids : List ContractId} {w₀ w' : RgbWallet P}
      {r : Res (BundleError H) (List (OpRequest H (PrefabSeal B.Noise)))}, Same w w₀ →
      w₀.blankRequests change contracts outpoints ids = (r, w') → r = .error .panic ∨ Same w w' ∧
        ∀ requests, r = .ok requests → Blanks w change contracts outpoints ids requests := by
  intro ids
  induction ids with
  | nil =>
    intro w₀ w' r hs h
    cases h
    refine Or.inr ⟨hs, fun requests hr => ?_⟩
    cases hr
    exact ⟨rfl, by simp⟩
  | cons id ids ih =>
    intro w₀ w' r hs h
    simp only [blankRequests] at h
    split at h
    · rename_i hin
      exact (ih hs h).imp_right (And.imp_right fun hall requests hr => (hall requests hr).skip hin)
    · rename_i hnin
      split at h
      · cases h; exact Or.inl rfl
      · rename_i state contracts₁ hst
        split at h
        · cases h; exact Or.inl rfl
        · rename_i articles contracts₂ har
          obtain ⟨c, hc, rfl, rfl, hread⟩ := reads_eq hst har
          rw [hs.served] at hc
          have hs' : Same w { w₀ with contracts := contracts₂ } := hs.trans hread
          simp only [hs'.contractEngine] at h
          split at h
          · cases h
            exact Or.inr ⟨hs', by simp⟩
          · rename_i q hq
            split at h
            · rename_i e w₁ hrest
              cases h
              rcases ih hs' hrest with he | ⟨hsame, _⟩
              · cases he; exact Or.inl rfl
              · exact Or.inr ⟨hsame, by simp⟩
            · rename_i requests w₁ hrest
              cases h
              rcases ih hs' hrest with he | ⟨hsame, hall⟩
              · cases he
              refine Or.inr ⟨hsame, fun requests' hr => ?_⟩
              cases hr
              exact (hall requests rfl).cons hnin hc hq

/-- **A plan** is the requested prefabs, and the blanks of the contracts they are not of. -/
theorem plan_eq {w w' : RgbWallet P} {requests : List (OpRequest H (PrefabSeal B.Noise))} {change : Option UInt32}
    {r : Res (MultiError (BundleError H) H.StockError Empty)
      (List (Prefab H) × List (OpRequest H (PrefabSeal B.Noise)))}
    (h : w.plan requests change = (r, w')) :
    (∃ e, w.prefabs requests = (.error e, w') ∧ r = .error (named .prefab e)) ∨
    ∃ ps w₁, w.prefabs requests = (.ok ps, w₁) ∧ (r = .error .panic ∨ Same w₁ w' ∧ ∀ ps' blanks, r = .ok (ps', blanks) →
      ps' = ps ∧ Blanks w₁ change (ps.map fun p => H.contractId p.operation) (ps.flatMap (·.closes.elems))
        w₁.contracts.contractIds blanks) := by
  simp only [plan] at h
  split at h
  · rename_i e w₁ hps
    cases h
    exact Or.inl ⟨e, hps, rfl⟩
  · rename_i ps w₁ hps
    refine Or.inr ⟨ps, w₁, hps, ?_⟩
    split at h
    · cases h; exact Or.inl rfl
    · rename_i e w₂ hb
      cases h
      rcases blankRequests_eq (Same.refl w₁) hb with he | ⟨hs, _⟩
      · cases he
      · exact Or.inr ⟨hs, by simp⟩
    · rename_i blanks w₂ hb
      cases h
      rcases blankRequests_eq (Same.refl w₁) hb with he | ⟨hs, hall⟩
      · cases he
      refine Or.inr ⟨hs, fun ps' blanks' hr => ?_⟩
      cases hr
      exact ⟨rfl, hall _ rfl⟩

end RgbWallet

/-! ## A wallet with two contracts

Contract 3 has put 60 and 40 on one output and 5 on another; contract 4 has put 7 on the first. -/

namespace Purse

def sealD : Decoder DecodeError (UInt16 × WTxoSeal RefNoise) := do
  let pos ← u8D
  let vout ← u8D
  let nonce ← u8D
  return (pos.toUInt16, ⟨.wout vout.toUInt32, .noise ⟨.wout vout.toUInt32, [], nonce.toUInt64⟩⟩)

def sealsD : Decoder DecodeError (SmallMap UInt16 (WTxoSeal RefNoise)) := do
  let len ← u8D
  let entries ← sealD.times len.toNat
  match SmallMap.empty.extend entries with
  | some m => return m
  | none => .fail .other

def sealWitnessD : Decoder DecodeError (SealWitness refBp.txoSeal) := do
  let published ← u8D
  return ⟨published.toNat, .empty⟩

@[reducible] def dir : Stockpile (refWireOf refBp.txoSeal sealsD sealWitnessD) refVerifier :=
  stockpileDir _ _ (fun _ => ()) refSonic_new_ledgerId

def first : Outpoint := ⟨⟨70⟩, 0⟩

def second : Outpoint := ⟨⟨71⟩, 0⟩

def id (n : UInt8) : ContractId := ⟨Vector.replicate 32 n⟩

/-- A contract whose genesis has put amounts on outpoints. -/
def contract (n : UInt8) (name : String) (cells : List (Nat × Outpoint)) : Contract refSonic refBp.txoSeal :=
  let genesis : RefOperation := ⟨id n, 0, [], cells.map fun c => ("amount", ⟨c.1⟩, c.1)⟩
  { contractId := id n
    ledger := .new ⟨id n, id 9, genesis, name, .bitcoin, true⟩
    pile := { PileFs.new with keep := cells.zipIdx.map fun (c, pos) =>
      (⟨genesis.opid, UInt16.ofNat pos⟩, (⟨.other c.2, .fallback c.2⟩ : WTxoSeal RefNoise)) } }

def folders : Table (String × ContractId) (Option (Contract refSonic refBp.txoSeal)) :=
  [(("Coin", id 3), some (contract 3 "Coin" [(60, first), (40, first), (5, second)])),
    (("Mark", id 4), some (contract 4 "Mark" [(7, first)]))]

theorem stored {name : String} {i : ContractId} {c : Contract refSonic refBp.txoSeal}
    (h : get folders (name, i) = some (some c)) : c.contractId = i ∧ c.ledger.articles.id = i := by
  have hm := get_mem h
  simp only [folders, List.mem_cons, Prod.mk.injEq, Option.some.injEq, List.not_mem_nil, or_false] at hm
  rcases hm with ⟨⟨_, rfl⟩, rfl⟩ | ⟨⟨_, rfl⟩, rfl⟩
  · exact ⟨rfl, rfl⟩
  · exact ⟨rfl, rfl⟩

theorem folders_named (name : String) (i : ContractId) (c : Contract refSonic refBp.txoSeal)
    (h : get folders (name, i) = some (some c)) : c.contractId = i := (stored h).1

def wallet : RgbWallet dir where
  wallet := ⟨Vector.replicate 32 1⟩
  contracts := .load (.load .bitcoin true [] folders fun _ _ _ h => (stored h).1)

theorem wallet_ownIds : wallet.OwnIds := by
  intro i c h
  have h' : StockpileDir.contract _ i = some c := h
  simp only [StockpileDir.contract, Option.bind_eq_bind, Option.bind_eq_some_iff] at h'
  obtain ⟨name, _, c', hc, h'⟩ := h'
  split at h'
  · cases h'
  · cases h'
    exact (stored (Option.join_eq_some_iff.1 hc)).2

/-- Spend outputs of the genesis of contract `n` into one output of the witness transaction. -/
def spend (n : UInt8) (inputs : List (UInt16 × Outpoint)) (amount : Nat) (vout : UInt32) :
    OpRequest refSonic (PrefabSeal RefNoise) where
  contractId := id n
  method := "transfer"
  reading := []
  using_ := inputs.map fun (pos, outpoint) => ⟨⟨⟨n.toNat⟩, pos⟩, outpoint, none⟩
  global := []
  owned := [⟨"amount", ⟨.alt ⟨vout, none⟩, amount⟩⟩]

end Purse

end RgbStd
