import RgbStd.Contract.Reopen
import RgbStd.Contracts.Binding
import RgbStd.Contracts.Managed
/-!
# Contracts that leave the memory (contracts.rs:59-126)

Which contracts are in memory is left to the collection `C`: it may drop one at any time, and the next call that
needs the contract has the storage load it again.

| here | there |
| --- | --- |
| `Backing`   | the files behind the contracts of a storage, which a contract in memory writes to |
| `evict`     | the collection drops a contract: its files are what is left of it |
| `Answer`, `respond` | what a call returns, with the state after it |
| `Shadows`   | a memory with contracts dropped from it, and the same memory with none dropped |

* `respond_shadows`: a call returns the same on both, and leaves them so.
* `Shadows.evict`: so does an eviction of a contract that its files hold.
* `run_shadows`: and a run of both.
-/
namespace RgbStd
open Tables Decode

variable {H : Hypersonic} {S : RgbSeal} {W : Wire H S} {V : Verifier H S}

/-- The files behind the contracts of a storage. `write` is the storage whose files of a contract have become others,
`Fits` says that it has files for the contract and may serve it, `Good` what it relies on itself, and `Same` that
two storages differ in what the files of their contracts hold and in nothing else. -/
structure Stockpile.Backing (P : Stockpile W V) where
  write : P.Store → ContractId → Option (Contract H S) → P.Store
  Fits : P.Store → ContractId → Contract H S → Prop
  Good : P.Store → Prop
  Same : P.Store → P.Store → Prop

namespace Stockpile.Backing

variable {P : Stockpile W V}

/-- What an issue or an import does to a storage: it may make a contract, and the files of all others stay. -/
structure Grows (F : P.Backing) (p p' : P.Store) (made : Option (Contract H S)) : Prop where
  good : F.Good p'
  kept : ∀ id c, (∀ m ∈ made, id ≠ m.contractId) → P.contract p id = some c → P.contract p' id = some c
  fits : ∀ id c, (∀ m ∈ made, id ≠ m.contractId) → F.Fits p id c → F.Fits p' id c
  made : ∀ m ∈ made, F.Fits p' m.contractId m

/-- It does the same to storages that differ in the files only. -/
structure Agrees (F : P.Backing) (p q p' q' : P.Store) (made : Option (Contract H S)) : Prop where
  same : F.Same p' q'
  alike : ∀ id, (∀ m ∈ made, id ≠ m.contractId) → P.contract p id = P.contract q id → P.contract p' id = P.contract q' id

structure Lawful (F : P.Backing) : Prop where
  equivalence : Equivalence F.Same
  consensus : ∀ p q, F.Same p q → P.consensus p = P.consensus q
  isTestnet : ∀ p q, F.Same p q → P.isTestnet p = P.isTestnet q
  hasContract : ∀ p q, F.Same p q → ∀ id, P.hasContract p id = P.hasContract q id
  contractIds : ∀ p q, F.Same p q → P.contractIds p = P.contractIds q
  served : ∀ p id c, P.contract p id = some c → F.Fits p id c
  reaches : ∀ p id c c', F.Fits p id c → c.Reaches c' → F.Fits p id c'
  write_good : ∀ p id c, F.Good p → F.Good (F.write p id c)
  write_same : ∀ p id c, F.Same (F.write p id c) p
  write_fits : ∀ p id c id' c', F.Fits p id' c' → F.Fits (F.write p id c) id' c'
  contract_write : ∀ p id c, F.Fits p id c → P.contract (F.write p id (some c)) id = some c
  contract_write_ne : ∀ p id c id', F.Good p → id' ≠ id → P.contract (F.write p id c) id' = P.contract p id'
  import_id : ∀ p a cons, ∀ c ∈ (P.importContract p a cons).1.toOption, c.contractId = H.articlesId a
  import_result : ∀ p q, F.Same p q → ∀ a cons, (P.importContract p a cons).1 = (P.importContract q a cons).1
  import_grows : ∀ p, F.Good p → ∀ a cons, Hypersonic.network a = P.network p →
    F.Grows p (P.importContract p a cons).2 (P.importContract p a cons).1.toOption
  import_agrees : ∀ p q, F.Good p → F.Good q → F.Same p q → ∀ a cons,
    F.Agrees p q (P.importContract p a cons).2 (P.importContract q a cons).2 (P.importContract p a cons).1.toOption
  issue_result : ∀ p q, F.Same p q → ∀ params, (P.issue p params).1 = (P.issue q params).1
  issue_grows : ∀ p, F.Good p → ∀ params, (params.consensus, params.testnet) = P.network p →
    F.Grows p (P.issue p params).2 (P.issue p params).1.toOption
  issue_agrees : ∀ p q, F.Good p → F.Good q → F.Same p q → ∀ params,
    F.Agrees p q (P.issue p params).2 (P.issue q params).2 (P.issue p params).1.toOption

end Stockpile.Backing

/-- What the calls return. -/
inductive Answer (P : Stockpile W V) where
  | issue (r : Res (MultiError (IssuerError H.CodexId) H.StockError P.PileError) ContractId)
  | consume (r : Res (MultiError (ConsumeError H V.Error) H.StockError P.PileError) Unit)
  | contractCall (r : Res (MultiError H.AcceptError H.StockError Empty) H.Operation)
  | included
  | sync (r : Res (MultiError H.AcceptError H.StockError Empty) Unit)
  | contractState (state : ContractState H S)
  | contractArticles (articles : H.Articles)
  | witnessIds (wids : List S.WitnessId)

/-- A call, or an eviction. -/
inductive CacheCall {H : Hypersonic} {S : RgbSeal} (W : Wire H S) where
  | base (call : Call W)
  | evict (id : ContractId)

namespace Contracts

variable {P : Stockpile W V} {α : Type}

def tagged {β : Type} (f : α → β) (r : α × Contracts P) : β × Contracts P := (f r.1, r.2)

/-- A call with what it returns; `none` is a panic. -/
def respond (s : Contracts P) : Call W → Option (Answer P × Contracts P)
  | .issue params => some (tagged .issue (s.issue params))
  | .consume allowUnknown reader resolver sigValidator =>
    (s.consume allowUnknown reader resolver sigValidator).map (tagged .consume)
  | .contractCall id call seals => (s.contractCall id call seals).map (tagged .contractCall)
  | .included id opid pubWitness anchor => (s.include id opid pubWitness anchor).map fun s => (.included, s)
  | .sync changed => (s.sync changed).map (tagged .sync)
  | .contractState id => (s.contractState id).map (tagged .contractState)
  | .contractArticles id => (s.contractArticles id).map (tagged .contractArticles)
  | .witnessIds predicate => some (tagged .witnessIds (s.witnessIds predicate))

theorem handle_eq (s : Contracts P) (call : Call W) : s.handle call = (s.respond call).map Prod.snd := by
  cases call <;> simp [handle, respond, tagged, Function.comp_def]

/-- The collection drops a contract. What is loaded of it afterwards is what its files hold. -/
def evict (F : P.Backing) (ledgers : H.Ledger → Except H.StockError H.Ledger) (s : Contracts P) (id : ContractId) :
    Contracts P :=
  match get s.contracts id with
  | none => s
  | some c => ⟨erase s.contracts id, F.write s.persistence id (c.load ledgers)⟩

/-- `s` is `t` with some contracts dropped from its memory. -/
structure Shadows (F : P.Backing) (s t : Contracts P) : Prop where
  same : F.Same s.persistence t.persistence
  good : F.Good s.persistence ∧ F.Good t.persistence
  memory : ∀ id c, get s.contracts id = some c → get t.contracts id = some c
  fits : ∀ id c, get s.contracts id = some c → F.Fits s.persistence id c
  dropped : ∀ id c, get t.contracts id = some c → get s.contracts id = none → P.contract s.persistence id = some c
  rest : ∀ id, get t.contracts id = none → P.contract s.persistence id = P.contract t.persistence id

/-- Both return the same and end in states of which one shadows the other. -/
def ShadowEnds (F : P.Backing) (r r' : Option (α × Contracts P)) : Prop :=
  Option.Rel (fun x y => x.1 = y.1 ∧ Shadows F x.2 y.2) r r'

theorem ShadowEnds.map {β : Type} {F : P.Backing} {r r' : Option (α × Contracts P)} (h : ShadowEnds F r r')
    (f : α → β) :
    ShadowEnds F (r.map (tagged f)) (r'.map (tagged f)) := by
  rcases Runs.rel_cases h with ⟨rfl, rfl⟩ | ⟨x, y, rfl, rfl, he, hs⟩
  · exact .none
  · exact .some ⟨congrArg f he, hs⟩

variable {F : P.Backing} {s t : Contracts P}

/-- **What is served** is the same. -/
theorem Shadows.served (h : Shadows F s t) (id : ContractId) : s.served id = t.served id := by
  unfold Contracts.served
  cases ht : get t.contracts id with
  | some c =>
    cases hs : get s.contracts id with
    | some c' =>
      have := h.memory id c' hs
      rw [ht] at this
      cases this
      rfl
    | none => simp [h.dropped id c ht hs]
  | none =>
    have hs : get s.contracts id = none := by
      cases hs : get s.contracts id with
      | none => rfl
      | some c =>
        have := h.memory id c hs
        rw [ht] at this
        cases this
    simp [hs, h.rest id ht]

variable (hF : F.Lawful)
include hF

theorem Shadows.fits_served (h : Shadows F s t) {id : ContractId} {c : Contract H S} (hc : s.served id = some c) :
    F.Fits s.persistence id c := by
  rw [Contracts.served, Option.or_eq_some_iff] at hc
  rcases hc with hc | ⟨_, hc⟩
  · exact h.fits id c hc
  · exact hF.served _ _ _ hc

omit hF in
/-- A contract that is put into memory on both sides. -/
theorem Shadows.put (h : Shadows F s t) {id : ContractId} {c : Contract H S} (hc : F.Fits s.persistence id c) :
    Shadows F ⟨upsert s.contracts id c, s.persistence⟩ ⟨upsert t.contracts id c, t.persistence⟩ where
  same := h.same
  good := h.good
  memory id' c' hs := by
    rw [get_upsert] at hs ⊢
    split at hs
    · rename_i he
      rw [if_pos he]
      exact hs
    · rename_i hne
      rw [if_neg hne]
      exact h.memory id' c' hs
  fits id' c' hs := by
    rw [get_upsert] at hs
    split at hs
    · rename_i he
      cases hs
      exact he ▸ hc
    · exact h.fits id' c' hs
  dropped id' c' ht hs := by
    rw [get_upsert] at ht hs
    split at hs
    · cases hs
    · rename_i hne
      rw [if_neg hne] at ht
      exact h.dropped id' c' ht hs
  rest id' ht := by
    rw [get_upsert] at ht
    split at ht
    · cases ht
    · exact h.rest id' ht

/-- A contract that is read again where it had been dropped. -/
theorem Shadows.fetch (h : Shadows F s t) {id : ContractId} {c : Contract H S} (hs : s.served id = some c)
    (ht : get t.contracts id = some c) : Shadows F ⟨upsert s.contracts id c, s.persistence⟩ t where
  same := h.same
  good := h.good
  memory id' c' hs' := by
    rw [get_upsert] at hs'
    split at hs'
    · rename_i he
      cases hs'
      exact he ▸ ht
    · exact h.memory id' c' hs'
  fits id' c' hs' := by
    rw [get_upsert] at hs'
    split at hs'
    · rename_i he
      cases hs'
      rw [he]
      exact h.fits_served hF hs
    · exact h.fits id' c' hs'
  dropped id' c' ht' hs' := by
    rw [get_upsert] at hs'
    split at hs'
    · cases hs'
    · exact h.dropped id' c' ht' hs'
  rest := h.rest

omit hF in
/-- Once an issue or an import is over, and what it made is in memory. -/
theorem Shadows.grow (h : Shadows F s t) {p' q' : P.Store} {made : Option (Contract H S)}
    (hp : F.Grows s.persistence p' made) (hq : F.Grows t.persistence q' made)
    (ha : F.Agrees s.persistence t.persistence p' q' made) {cs ct : Table ContractId (Contract H S)}
    (hcs : ∀ id, (∀ m ∈ made, id ≠ m.contractId) → get cs id = get s.contracts id)
    (hct : ∀ id, (∀ m ∈ made, id ≠ m.contractId) → get ct id = get t.contracts id)
    (hms : ∀ m ∈ made, get cs m.contractId = some m) (hmt : ∀ m ∈ made, get ct m.contractId = some m) :
    Shadows F ⟨cs, p'⟩ ⟨ct, q'⟩ := by
  have hcases : ∀ id, (∃ m ∈ made, id = m.contractId) ∨ ∀ m ∈ made, id ≠ m.contractId := by
    intro id
    by_cases hm : ∃ m ∈ made, id = m.contractId
    · exact Or.inl hm
    · exact Or.inr fun m hm' he => hm ⟨m, hm', he⟩
  refine ⟨ha.same, ⟨hp.good, hq.good⟩, fun id c hc => ?_, fun id c hc => ?_, fun id c hc hn => ?_, fun id hn => ?_⟩
  all_goals rcases hcases id with ⟨m, hm, rfl⟩ | hother
  · exact (hmt m hm).trans ((hms m hm).symm.trans hc)
  · exact (hct id hother).trans (h.memory id c ((hcs id hother).symm.trans hc))
  · obtain rfl := Option.some.inj ((hms m hm).symm.trans hc)
    exact hp.made m hm
  · exact hp.fits id c hother (h.fits id c ((hcs id hother).symm.trans hc))
  · exact absurd ((hms m hm).symm.trans hn) (by simp)
  · exact hp.kept id c hother (h.dropped id c ((hct id hother).symm.trans hc) ((hcs id hother).symm.trans hn))
  · exact absurd ((hmt m hm).symm.trans hn) (by simp)
  · exact ha.alike id hother (h.rest id ((hct id hother).symm.trans hn))

omit hF in
/-- What it made is put into both memories. -/
theorem Shadows.grow_some (h : Shadows F s t) {p' q' : P.Store} {c : Contract H S}
    (hp : F.Grows s.persistence p' (some c)) (hq : F.Grows t.persistence q' (some c))
    (ha : F.Agrees s.persistence t.persistence p' q' (some c)) :
    Shadows F ⟨upsert s.contracts c.contractId c, p'⟩ ⟨upsert t.contracts c.contractId c, q'⟩ := by
  have hself : ∀ (cs : Table ContractId (Contract H S)), ∀ m ∈ some c,
      get (upsert cs c.contractId c) m.contractId = some m := by
    intro cs m hm
    cases hm
    exact get_upsert_self _ _ _
  exact h.grow hp hq ha (fun _ hid => get_upsert_ne _ _ (hid c rfl)) (fun _ hid => get_upsert_ne _ _ (hid c rfl))
    (hself _) (hself _)

omit hF in
/-- An issue or an import, on both: it fails, or it makes one contract. -/
theorem Shadows.outcome (h : Shadows F s t) {ε : Type} {x y : Except ε (Contract H S) × P.Store} (hr : x.1 = y.1)
    (hp : F.Grows s.persistence x.2 x.1.toOption) (hq : F.Grows t.persistence y.2 y.1.toOption)
    (ha : F.Agrees s.persistence t.persistence x.2 y.2 x.1.toOption) :
    (∃ e p q, x = (.error e, p) ∧ y = (.error e, q) ∧
      Shadows F { s with persistence := p } { t with persistence := q }) ∨
    ∃ c p q, x = (.ok c, p) ∧ y = (.ok c, q) ∧
      Shadows F ⟨upsert s.contracts c.contractId c, p⟩ ⟨upsert t.contracts c.contractId c, q⟩ := by
  obtain ⟨r, p⟩ := x
  obtain ⟨r', q⟩ := y
  obtain rfl : r = r' := hr
  cases r with
  | error e =>
    exact Or.inl ⟨e, p, q, rfl, rfl, h.grow hp hq ha (fun _ _ => rfl) (fun _ _ => rfl) (fun _ hm => by cases hm)
      fun _ hm => by cases hm⟩
  | ok c => exact Or.inr ⟨c, p, q, rfl, rfl, h.grow_some hp hq ha⟩

/-! ## The closures -/

theorem Shadows.withContractMut (h : Shadows F s t) (id : ContractId) {f : Contract H S → α × Contract H S}
    (hf : ∀ c : Contract H S, c.Reaches (f c).2) : ShadowEnds F (s.withContractMut id f) (t.withContractMut id f) := by
  unfold Contracts.withContractMut
  rw [h.served]
  cases ht : t.served id with
  | none => exact .none
  | some c =>
    have hfit := hF.reaches _ _ _ _ (h.fits_served hF ((h.served id).trans ht)) (hf c)
    exact .some ⟨rfl, h.put hfit⟩

theorem Shadows.withContract (h : Shadows F s t) (id : ContractId) (f : Contract H S → α) (or_ : Option α) :
    ShadowEnds F (s.withContract id f or_) (t.withContract id f or_) := by
  have hserved := h.served id
  unfold Contracts.served at hserved
  unfold Contracts.withContract
  cases ht : get t.contracts id with
  | some c =>
    rw [ht, Option.some_or] at hserved
    cases hs : get s.contracts id with
    | some c' =>
      rw [hs, Option.some_or] at hserved
      cases hserved
      exact .some ⟨rfl, h⟩
    | none =>
      rw [hs, Option.none_or] at hserved
      simp only [hserved]
      refine .some ⟨rfl, h.fetch hF ?_ ht⟩
      rw [h.served, Contracts.served, ht]
      rfl
  | none =>
    have hs : get s.contracts id = none := by
      cases hs : get s.contracts id with
      | none => rfl
      | some c => exact absurd (h.memory id c hs) (by simp [ht])
    have hrest := h.rest id ht
    simp only [hs, hrest]
    cases hc : P.contract t.persistence id with
    | some c => exact .some ⟨rfl, h.put (hF.served _ _ _ (hrest.trans hc))⟩
    | none =>
      cases or_ with
      | none => exact .none
      | some a => exact .some ⟨rfl, h⟩

/-! ## The calls -/

theorem witnessIdsFrom_shadows (predicate : PileFs.Witness S → Bool) (ids : List ContractId) :
    ∀ {s t : Contracts P}, Shadows F s t → (witnessIdsFrom predicate ids s).1 = (witnessIdsFrom predicate ids t).1 ∧
      Shadows F (witnessIdsFrom predicate ids s).2 (witnessIdsFrom predicate ids t).2 := by
  induction ids with
  | nil => exact fun h => ⟨rfl, h⟩
  | cons id ids ih =>
    intro s t h
    have hw := h.withContract hF id (fun c => (c.pile.witnesses.filter predicate).map (·.id)) (some [])
    simp only [witnessIdsFrom]
    rcases Runs.rel_cases hw with ⟨hs, ht⟩ | ⟨⟨wids, s'⟩, ⟨wids', t'⟩, hs, ht, he, h'⟩
    · rw [hs, ht]
      exact ⟨rfl, h⟩
    · obtain rfl : wids = wids' := he
      rw [hs, ht]
      obtain ⟨hr, h''⟩ := ih h'
      exact ⟨congrArg (wids ++ ·) hr, h''⟩

theorem syncFrom_shadows (changed : List (S.WitnessId × WitnessStatus)) (ids : List ContractId) :
    ∀ {s t : Contracts P}, Shadows F s t → ShadowEnds F (syncFrom changed ids s) (syncFrom changed ids t) := by
  induction ids with
  | nil => exact fun h => .some ⟨rfl, h⟩
  | cons id ids ih =>
    intro s t h
    simp only [syncFrom]
    rcases Runs.rel_cases (h.withContractMut hF id fun c => c.sync_reaches changed) with
      ⟨hs, ht⟩ | ⟨⟨r, s'⟩, ⟨r', t'⟩, hs, ht, he, h'⟩
    · rw [hs, ht]
      exact .none
    · obtain rfl : r = r' := he
      rw [hs, ht]
      cases r with
      | error e => exact .some ⟨rfl, h'⟩
      | ok u => exact ih h'

theorem Shadows.include (h : Shadows F s t) (id : ContractId) (o : Opid) (pub : S.Published) (anchor : S.Client) :
    Option.Rel (Shadows F) (s.include id o pub anchor) (t.include id o pub anchor) := by
  unfold Contracts.include
  rw [h.served]
  cases ht : t.served id with
  | none => exact .none
  | some c =>
    simp only
    cases hc : c.include o anchor pub with
    | none => exact .none
    | some c' =>
      exact .some (h.put (hF.reaches _ _ _ _ (h.fits_served hF ((h.served id).trans ht))
        (Contract.include_reaches hc).reaches))

theorem Shadows.checkLayer1 (h : Shadows F s t) (consensus : Consensus) (testnet : Bool) :
    s.checkLayer1 consensus testnet = t.checkLayer1 consensus testnet := by
  unfold Contracts.checkLayer1
  rw [hF.consensus _ _ h.same, hF.isTestnet _ _ h.same]

theorem Shadows.issue (h : Shadows F s t) (params : CreateParams H S) :
    (s.issue params).1 = (t.issue params).1 ∧ Shadows F (s.issue params).2 (t.issue params).2 := by
  have hr := hF.issue_result _ _ h.same params
  have ha := hF.issue_agrees _ _ h.good.1 h.good.2 h.same params
  have hcheck := h.checkLayer1 hF params.consensus params.testnet
  unfold Contracts.issue
  rw [hcheck]
  cases hl : t.checkLayer1 params.consensus params.testnet with
  | error e => exact ⟨rfl, h⟩
  | ok u =>
    have hp := hF.issue_grows _ h.good.1 params (checkLayer1_ok (hcheck.trans hl))
    have hq := hF.issue_grows _ h.good.2 params (checkLayer1_ok hl)
    rcases h.outcome hr hp hq ha with ⟨e, p, q, hs, ht, h'⟩ | ⟨c, p, q, hs, ht, h'⟩
    · rw [hs, ht]
      exact ⟨rfl, h'⟩
    · rw [hs, ht]
      exact ⟨rfl, h'⟩

theorem Shadows.consume (h : Shadows F s t) {allowUnknown : Bool} {reader : Bytes} (resolver : SealResolver H S)
    {sigValidator : W.Validator} (hn : s.HeaderNames allowUnknown reader sigValidator) :
    ShadowEnds F (s.consume allowUnknown reader resolver sigValidator)
      (t.consume allowUnknown reader resolver sigValidator) := by
  unfold Contracts.consume
  cases hparse : W.parseConsignment.run reader with
  | error e => exact .some ⟨rfl, h⟩
  | ok pr =>
    obtain ⟨id, stream⟩ := pr
    have hk : s.hasContract id = t.hasContract id := hF.hasContract _ _ h.same id
    dsimp only
    rw [hk]
    split
    · rename_i hunknown
      split
      · rename_i hallow
        cases hread : W.consignment.run stream with
        | error e => exact .some ⟨rfl, h⟩
        | ok q =>
          obtain ⟨consignment, rest⟩ := q
          dsimp only
          cases hart : consignment.articles sigValidator with
          | error e => exact .some ⟨rfl, h⟩
          | ok articles =>
            have hcheck := h.checkLayer1 hF (H.articlesConsensus articles) (H.articlesTestnet articles)
            dsimp only
            rw [hcheck]
            cases hl : t.checkLayer1 (H.articlesConsensus articles) (H.articlesTestnet articles) with
            | error e => exact .some ⟨rfl, h⟩
            | ok u =>
              have hid : H.articlesId articles = id :=
                hn hallow _ _ _ _ _ hparse (hk.trans hunknown) hread hart
              have hr := hF.import_result _ _ h.same articles consignment
              have hp := hF.import_grows _ h.good.1 articles consignment (checkLayer1_ok (hcheck.trans hl))
              have hq := hF.import_grows _ h.good.2 articles consignment (checkLayer1_ok hl)
              have ha := hF.import_agrees _ _ h.good.1 h.good.2 h.same articles consignment
              have hm := hF.import_id s.persistence articles consignment
              dsimp only
              rcases h.outcome hr hp hq ha with ⟨e, p, q, hs, ht, h'⟩ | ⟨c, p, q, hs, ht, h'⟩
              · rw [hs, ht]
                exact .some ⟨rfl, h'⟩
              · rw [hs] at hm
                obtain rfl : c.contractId = id := (hm c rfl).trans hid
                rw [hs, ht]
                exact .some ⟨rfl, h'⟩
      · exact .some ⟨rfl, h⟩
    · have hc := h.withContractMut hF id fun c => c.consumeInternal_reaches W V stream resolver sigValidator
      exact hc.map noThird

/-- **Every call** returns the same, and leaves the one memory a shadow of the other, or panics on both. -/
theorem respond_shadows (h : Shadows F s t) {call : Call W} (hn : s.Names call) :
    ShadowEnds F (s.respond call) (t.respond call) := by
  have hids : s.contractIds = t.contractIds := hF.contractIds _ _ h.same
  cases call with
  | issue params =>
    obtain ⟨hr, hs⟩ := h.issue hF params
    exact .some ⟨congrArg Answer.issue hr, hs⟩
  | consume allowUnknown reader resolver sigValidator => exact (h.consume hF resolver hn).map _
  | contractCall id call seals => exact (h.withContractMut hF id fun c => c.call_reaches call seals).map _
  | included id opid pub anchor =>
    simp only [respond]
    rcases Runs.rel_cases (h.include hF id opid pub anchor) with ⟨hs, ht⟩ | ⟨s', t', hs, ht, h'⟩
    · rw [hs, ht]
      exact .none
    · rw [hs, ht]
      exact .some ⟨rfl, h'⟩
  | sync changed =>
    simp only [respond, sync, hids]
    exact (syncFrom_shadows hF changed _ h).map _
  | contractState id => exact (h.withContract hF id Contract.state none).map _
  | contractArticles id => exact (h.withContract hF id (fun c => H.articles c.ledger) none).map _
  | witnessIds predicate =>
    simp only [respond, witnessIds, hids]
    obtain ⟨hr, hs⟩ := witnessIdsFrom_shadows hF predicate t.contractIds h
    exact .some ⟨congrArg Answer.witnessIds hr, hs⟩

/-! ## Evictions -/

variable {ledgers : H.Ledger → Except H.StockError H.Ledger}

/-- The files of a contract hold it. -/
def InFiles (ledgers : H.Ledger → Except H.StockError H.Ledger) (s : Contracts P) (id : ContractId) : Prop :=
  ∀ c, get s.contracts id = some c → c.load ledgers = some c

/-- A contract whose files hold it can be dropped. -/
theorem Shadows.evict (h : Shadows F s t) {id : ContractId} (hset : InFiles ledgers s id) :
    Shadows F (s.evict F ledgers id) t := by
  unfold Contracts.evict
  cases hc : get s.contracts id with
  | none => exact h
  | some c =>
    have hload := hset c hc
    have hfit := h.fits id c hc
    simp only [hload]
    have hgood := hF.write_good s.persistence id (some c) h.good.1
    have hne : ∀ id', id' ≠ id → P.contract (F.write s.persistence id (some c)) id' = P.contract s.persistence id' :=
      fun id' => hF.contract_write_ne _ _ _ _ h.good.1
    refine ⟨hF.equivalence.trans (hF.write_same _ _ _) h.same, ⟨hgood, h.good.2⟩, fun id' c' hs => ?_,
      fun id' c' hs => ?_, fun id' c' ht hs => ?_, fun id' ht => ?_⟩
    · rw [get_erase] at hs
      split at hs
      · cases hs
      · exact h.memory id' c' hs
    · rw [get_erase] at hs
      split at hs
      · cases hs
      · exact hF.write_fits _ _ _ _ _ (h.fits id' c' hs)
    · rw [get_erase] at hs
      split at hs
      · rename_i he
        subst he
        obtain rfl : c = c' := Option.some.inj ((h.memory _ c hc).symm.trans ht)
        exact hF.contract_write _ _ _ hfit
      · rename_i hid
        exact (hne id' hid).trans (h.dropped id' c' ht hs)
    · have hid : id' ≠ id := by
        rintro rfl
        rw [h.memory _ c hc] at ht
        cases ht
      exact (hne id' hid).trans (h.rest id' ht)

omit hF

/-- A call with what it returns, or an eviction. -/
def cached (F : P.Backing) (ledgers : H.Ledger → Except H.StockError H.Ledger) (s : Option (Answer P) × Contracts P) :
    CacheCall W → Option (Option (Answer P) × Contracts P)
  | .base call => (s.2.respond call).map (tagged some)
  | .evict id => some (none, s.2.evict F ledgers id)

/-- The same where nothing is ever dropped. -/
def uncached (s : Option (Answer P) × Contracts P) : CacheCall W → Option (Option (Answer P) × Contracts P)
  | .base call => (s.2.respond call).map (tagged some)
  | .evict _ => some (none, s.2)

/-- The files of an evicted contract hold it, and an import names its contract. -/
def Evictable (ledgers : H.Ledger → Except H.StockError H.Ledger) (s : Option (Answer P) × Contracts P) :
    CacheCall W → Prop
  | .base call => s.2.Names call
  | .evict id => InFiles ledgers s.2 id

include hF in
/-- **A run** with evictions returns what the run without them returns, call by call. -/
theorem run_shadows (h : Shadows F s t) {a : Option (Answer P)} {calls : List (CacheCall W)}
    (he : Runs.Along (cached F ledgers) (Evictable ledgers) (a, s) calls) :
    Option.Rel (List.Forall₂ fun x y => x.1 = y.1 ∧ Shadows F x.2 y.2) (Runs.run (cached F ledgers) (a, s) calls)
      (Runs.run uncached (a, t) calls) := by
  refine Runs.run_rel_along (C := Evictable ledgers) (fun x y call hxy hcall => ?_) calls (a, s) (a, t) ⟨rfl, h⟩ he
  cases call with
  | base call => exact (respond_shadows hF hxy.2 hcall).map some
  | evict id => exact .some ⟨rfl, hxy.2.evict hF hcall⟩

end Contracts

end RgbStd
