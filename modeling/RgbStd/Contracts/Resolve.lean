import RgbStd.Stockpile.Dir
/-!
# Seals of the wallet in what it consumes

A consignment of a known contract is streamed, and the resolver extends the seals of each
operation. That of an unknown contract is read in memory, where nobody asks the resolver.

* `addSeals_seal`, `evaluate_seals`: the seals of a pile after a block, and after all of them.
* `collect_resolved`: the blocks of the streaming reader carry the resolver's seals.
* `consume_sealsKept_iff`: what the resolver knows is in the pile afterwards exactly if the
  contract was known, or the consignment itself says so.
-/
namespace RgbStd
open Tables Decode

/-- A ledger keeps the id of the articles it was created with. -/
structure Hypersonic.IdLaws (H : Hypersonic) : Prop where
  new_ledgerId : ∀ a l, H.new a = .ok l → H.ledgerId l = H.articlesId a
  apply_ledgerId : ∀ l op l', H.apply l op = some l' → H.ledgerId l' = H.ledgerId l
  commit_ledgerId : ∀ l, H.ledgerId (H.commit l) = H.ledgerId l
  upgrade_ledgerId : ∀ l a, H.ledgerId (H.upgradeApis l a).2 = H.ledgerId l

theorem refSonic_idLaws : refSonic.IdLaws where
  new_ledgerId := refSonic_new_ledgerId
  apply_ledgerId l op l' h := by
    obtain rfl := Option.some.inj h
    show (if l.isValid op.opid then l else { l.record op with pending := true } : RefLedger).articles.id = l.articles.id
    split <;> rfl
  commit_ledgerId l := rfl
  upgrade_ledgerId l a := by
    show (if l.articles.id = a.id then
      ((.ok (), { l with articles := a }) : Except (MultiError Unit Unit Empty) Unit × RefLedger)
      else (.error (.a ()), l)).2.articles.id = l.articles.id
    split
    · rename_i h; exact h.symm
    · rfl

/-- Adding the seals of an operation. -/
theorem PileFs.addSeals_seal {S : RgbSeal} {p q : PileFs S} {o : Opid} {seals : Table UInt16 S.Definition}
    (hnd : (keys seals).Nodup) (h : p.addSeals o seals = some q) (a : CellAddr) (s : S.Definition) :
    q.seal a = some s ↔ p.seal a = some s ∨ (a.opid = o ∧ get seals a.pos = some s) := by
  obtain ⟨keep, hk, rfl⟩ := addSeals_eq h
  show get keep a = some s ↔ get p.keep a = some s ∨ _
  clear h
  generalize p.keep = keep₀ at hk ⊢
  induction seals generalizing keep₀ with
  | nil => cases hk; simp
  | cons e seals ih =>
    obtain ⟨n, v⟩ := e
    simp only [keys, List.map_cons, List.nodup_cons] at hnd
    simp only [List.foldlM_cons, Option.bind_eq_bind, Option.bind_eq_some_iff] at hk
    obtain ⟨t, ht, hk⟩ := hk
    rw [ih hnd.2 t hk, get_insertOnce ht, get_cons]
    by_cases ha : a = ⟨o, n⟩
    · subst ha
      have hsame := insertOnce_isSome.1 ⟨t, ht⟩
      have hn : get seals n = none := get_none_of_notMem hnd.1
      simp only [if_true, hn, true_and]
      constructor
      · rintro (h | h)
        · exact Or.inr h
        · cases h
      · rintro (h | h)
        · exact Or.inl (congrArg some (hsame s h).symm)
        · exact Or.inl h
    · by_cases hp : a.pos = n
      · have hop : a.opid ≠ o := fun he => ha (by obtain ⟨_, _⟩ := a; simp_all)
        simp [ha, hop]
      · simp [ha, hp]

namespace Contract

variable {H : Hypersonic} {S : RgbSeal} {E ρ : Type}

theorem applyBlock_seals (hI : H.IdLaws) {c c' : Contract H S} {b : OperationSeals H S} (h : c.applyBlock b = some c') :
    H.ledgerId c'.ledger = H.ledgerId c.ledger ∧ ∀ a s, c'.pile.seal a = some s ↔
      c.pile.seal a = some s ∨ (a.opid = H.opid b.operation ∧ get b.definedSeals.entries a.pos = some s) := by
  obtain ⟨ledger, pile, hl, hp, h⟩ := applyBlock_eq h
  have hid := hI.apply_ledgerId _ _ _ hl
  have hseal := PileFs.addSeals_seal b.definedSeals.nodup hp
  split at h
  · cases h
    exact ⟨hid, hseal⟩
  · refine ⟨?_, fun a s => ?_⟩
    · rw [(include_pile h).1]; exact hid
    · rw [include_seal h]; exact hseal a s

/-- **The seals after the loop** are those before and those of the blocks. -/
theorem evaluateRest_seals (hI : H.IdLaws) (V : Verifier H S) (ops : Feed E ρ (OperationSeals H S)) :
    ∀ {c c' : Contract H S} {st : V.State}, c.evaluateRest V st ops = (.ok (), c') →
      ∃ blocks r, ops.collect = .ok (blocks, r) ∧ H.ledgerId c'.ledger = H.ledgerId c.ledger ∧
        ∀ a s, c'.pile.seal a = some s ↔ c.pile.seal a = some s ∨
          ∃ b ∈ blocks, a.opid = H.opid b.operation ∧ get b.definedSeals.entries a.pos = some s := by
  induction ops with
  | done r =>
    intro c c' st h
    cases h
    exact ⟨[], r, rfl, rfl, by simp⟩
  | failed e =>
    intro c c' st h
    cases h
  | next b more ih =>
    intro c c' st h
    simp only [evaluateRest] at h
    split at h
    · cases h
    · split at h
      · cases h
      · rename_i c₁ hb
        obtain ⟨blocks, r, hc, hid, hs⟩ := ih h
        obtain ⟨hid₁, hs₁⟩ := applyBlock_seals hI hb
        refine ⟨b :: blocks, r, Feed.collect_next_eq_ok.2 ⟨blocks, hc, rfl⟩, hid.trans hid₁, fun a s => ?_⟩
        rw [hs, hs₁, or_assoc]
        simp

/-- The blocks with the ids their operations are applied under. -/
def applied (id : ContractId) : List (OperationSeals H S) → List (OperationSeals H S × Opid)
  | [] => []
  | b :: rest => (b, H.opid (H.withContractId b.operation id)) :: rest.map fun b => (b, H.opid b.operation)

/-- **What is evaluated** are the operations with a named genesis. What is true of one of them with its id, whatever the
genesis is named, is true of one of those given with the id it is applied under. -/
theorem evaluate_applied {V : Verifier H S} {ops : Feed E ρ (OperationSeals H S)} {c c' : Contract H S}
    (h : c.evaluate V ops = (.ok (), c')) : ∃ named : Feed E ρ (OperationSeals H S),
      c.evaluateRest V V.init named = (.ok (), c') ∧ ∀ {blocks r}, named.collect = .ok (blocks, r) →
        ∃ plain, ops.collect = .ok (plain, r) ∧ ∀ (o : Opid) (Q : OperationSeals H S → Prop),
          (∀ b, Q (c.nameGenesis b) ↔ Q b) → ((∃ b ∈ blocks, o = H.opid b.operation ∧ Q b) ↔
            ∃ b, (b, o) ∈ applied (H.ledgerId c.ledger) plain ∧ Q b) := by
  unfold evaluate at h
  split at h
  · rename_i b more
    split at h
    · refine ⟨_, h, fun hc => ?_⟩
      obtain ⟨rest, hrest, rfl⟩ := Feed.collect_next_eq_ok.1 hc
      refine ⟨b :: rest, Feed.collect_next_eq_ok.2 ⟨rest, hrest, rfl⟩, fun o Q hQ => ?_⟩
      simp only [applied, List.mem_cons, exists_eq_or_imp, Prod.mk.injEq, List.mem_map, hQ]
      constructor
      · rintro (⟨ho, hb⟩ | ⟨b', hb', ho, hq⟩)
        · exact ⟨b, Or.inl ⟨rfl, ho⟩, hb⟩
        · exact ⟨b', Or.inr ⟨b', hb', rfl, ho.symm⟩, hq⟩
      · rintro ⟨b', ⟨rfl, ho⟩ | ⟨b'', hb'', rfl, ho⟩, hq⟩
        · exact Or.inl ⟨ho, hq⟩
        · exact Or.inr ⟨b'', hb'', ho.symm, hq⟩
    · cases h
  · rename_i hne
    cases ops with
    | done e =>
      refine ⟨_, h, fun hc => ?_⟩
      cases hc
      exact ⟨[], rfl, fun o Q _ => by simp [applied]⟩
    | failed e => cases h
    | next b more => exact absurd rfl (hne b more)

theorem evaluate_seals (hI : H.IdLaws) {V : Verifier H S} {ops : Feed E ρ (OperationSeals H S)} {c c' : Contract H S}
    (h : c.evaluate V ops = (.ok (), c')) :
    ∃ blocks r, ops.collect = .ok (blocks, r) ∧ H.ledgerId c'.ledger = H.ledgerId c.ledger ∧
      ∀ a s, c'.pile.seal a = some s ↔ c.pile.seal a = some s ∨
        ∃ b, (b, a.opid) ∈ applied (H.ledgerId c.ledger) blocks ∧ get b.definedSeals.entries a.pos = some s := by
  obtain ⟨named, hrest, hnamed⟩ := evaluate_applied h
  obtain ⟨blocks, r, hc, hid, hs⟩ := evaluateRest_seals hI V named hrest
  obtain ⟨plain, hplain, hall⟩ := hnamed hc
  refine ⟨plain, r, hplain, hid, fun a s => ?_⟩
  rw [hs, hall a.opid (fun b => get b.definedSeals.entries a.pos = some s) fun _ => Iff.rfl]

end Contract

/-! ## The blocks of the streaming reader -/

namespace Wire

variable {H : Hypersonic} {S : RgbSeal} {W : Wire H S}

theorem readOperation_resolved {resolver : SealResolver H S} {r r' : OpReader} {b : OperationSeals H S}
    (h : r.readOperation W resolver = .ok (some (b, r'))) :
    ∀ e ∈ (resolver b.operation).entries, get b.definedSeals.entries e.1 = some e.2 := by
  obtain ⟨rest, hb, _⟩ := OpReader.readOperation_eq_ok h
  obtain ⟨seals, _, _, _, _, hd, _⟩ := resolvedSeals_eq_ok.1 hb
  intro e he
  have hget : get (resolver b.operation).entries e.1 = some e.2 := get_eq_of_mem (resolver b.operation).nodup he
  rw [SmallMap.get_extend hd, hget]
  rfl

/-- What the resolver knows of an operation is among the seals of its block. -/
theorem collect_resolved {resolver : SealResolver H S} : ∀ (k : Nat) (r : OpReader)
    (blocks : List (OperationSeals H S)) (rest : Bytes), r.stream.length < k →
    (r.feed W resolver).collect = .ok (blocks, rest) → ∀ b ∈ blocks, ∀ e ∈ (resolver b.operation).entries,
      get b.definedSeals.entries e.1 = some e.2 := by
  intro k
  induction k with
  | zero => intro r _ _ hk; omega
  | succ k ih =>
    intro r blocks rest hk h
    rw [OpReader.feed_eq] at h
    cases hr : r.readOperation W resolver with
    | error e => simp [hr, Feed.collect] at h
    | ok o =>
      cases o with
      | none =>
        simp only [hr, Feed.collect, Except.ok.injEq, Prod.mk.injEq] at h
        simp [← h.1]
      | some p =>
        obtain ⟨b, r'⟩ := p
        simp only [hr] at h
        obtain ⟨blocks', hc, rfl⟩ := Feed.collect_next_eq_ok.1 h
        have hlt := OpReader.length_lt hr
        intro b' hb'
        rcases List.mem_cons.1 hb' with rfl | hb'
        · exact readOperation_resolved hr
        · exact ih r' blocks' rest (by omega) hc b' hb'

end Wire

/-! ## `consume` -/

namespace Contract

variable {H : Hypersonic} {S : RgbSeal}

/-- Every seal the resolver knows for an output of an operation, by the auth token of that output,
is the one the pile has for it. -/
def Resolved (resolver : SealResolver H S) (id : ContractId) (pile : PileFs S) (blocks : List (OperationSeals H S)) :
    Prop :=
  ∀ b o, (b, o) ∈ applied id blocks → ∀ n s, (n, s) ∈ (resolver b.operation).entries →
    (H.destructibleOut b.operation)[n.toNat]? = some (S.authToken s) → pile.seal ⟨o, n⟩ = some s

/-- The blocks define those seals themselves. -/
def SelfDefined (resolver : SealResolver H S) (id : ContractId) (blocks : List (OperationSeals H S)) : Prop :=
  ∀ b o, (b, o) ∈ applied id blocks → ∀ n s, (n, s) ∈ (resolver b.operation).entries →
    (H.destructibleOut b.operation)[n.toNat]? = some (S.authToken s) →
    ∃ b', (b', o) ∈ applied id blocks ∧ get b'.definedSeals.entries n = some s

theorem mem_of_applied {id : ContractId} {blocks : List (OperationSeals H S)} {b : OperationSeals H S} {o : Opid}
    (h : (b, o) ∈ applied id blocks) : b ∈ blocks := by
  cases blocks with
  | nil => cases h
  | cons g rest =>
    simp only [applied, List.mem_cons, Prod.mk.injEq, List.mem_map] at h
    rcases h with ⟨rfl, _⟩ | ⟨b', hb', rfl, _⟩
    · exact List.mem_cons_self
    · exact List.mem_cons_of_mem _ hb'

theorem upgrade_eq_ok (hI : H.IdLaws) {W : Wire H S} {V : Verifier H S} {c c' : Contract H S} {hd : W.Head}
    {sigValidator : W.Validator} (h : c.upgrade W V hd sigValidator = (.ok (), c')) :
    c'.pile = c.pile ∧ H.ledgerId c'.ledger = H.ledgerId c.ledger := by
  unfold upgrade at h
  split at h
  · cases h
  · rename_i articles _
    have hid := hI.upgrade_ledgerId c.ledger articles
    split at h
    · cases h
    · cases h
    · rename_i l hu
      cases h
      rw [hu] at hid
      exact ⟨rfl, hid⟩

/-- A known contract gets the seals of the resolver with each block. -/
theorem consumeInternal_resolved (hI : H.IdLaws) {W : Wire H S} {V : Verifier H S} {c c' : Contract H S}
    {stream : Bytes} {resolver : SealResolver H S} {sigValidator : W.Validator}
    (h : c.consumeInternal W V stream resolver sigValidator = (.ok (), c')) :
    ∃ blocks rest, W.readStreaming resolver stream = .ok (blocks, rest) ∧
      Resolved resolver (H.ledgerId c'.ledger) c'.pile blocks := by
  unfold consumeInternal at h
  split at h
  · cases h
  · rename_i hd ops hh
    unfold consumeOps at h
    split at h
    · cases h
    · cases h
    · rename_i c₁ hev
      obtain ⟨c₂, hev₂, rfl⟩ := evaluateCommit_eq_ok.1 hev
      obtain ⟨blocks, rest, hc, hid, hs⟩ := evaluate_seals hI hev₂
      have hup := upgrade_eq_ok hI h
      refine ⟨blocks, rest, by simp [Wire.readStreaming, hh, hc], fun b o hb n s hn _ => ?_⟩
      rw [hup.1]
      refine (hs ⟨o, n⟩ s).2 (Or.inr ⟨b, ?_, ?_⟩)
      · rw [hup.2, show H.ledgerId c₂.commit.ledger = H.ledgerId c.ledger from (hI.commit_ledgerId _).trans hid] at hb
        exact hb
      · exact Wire.collect_resolved _ _ _ _ (Nat.lt_succ_self _) hc b (mem_of_applied hb) (n, s) hn

/-- An imported contract has the id of its articles, the seals of its consignment and no others. -/
theorem withArticles_seals (hI : H.IdLaws) {W : Wire H S} {V : Verifier H S} {PileError : Type} {articles : H.Articles}
    {consignment : W.Consignment} {c : Contract H S}
    (h : withArticles W V (.ok .new : Except PileError (PileFs S)) articles consignment = .ok c) :
    ∃ blocks, consignment.intoOperations.feed.collect = .ok (blocks, ()) ∧ H.ledgerId c.ledger = H.articlesId articles ∧
      ∀ a s, c.pile.seal a = some s ↔
        ∃ b, (b, a.opid) ∈ applied (H.articlesId articles) blocks ∧ get b.definedSeals.entries a.pos = some s := by
  obtain ⟨ledger, pile₀, pile, hn, hp, hs, hev⟩ := withArticles_eq_ok h
  obtain ⟨c₁, hev₁, rfl⟩ := evaluateCommit_eq_ok.1 hev
  obtain ⟨blocks, _, hc, hid, hseals⟩ := evaluate_seals hI hev₁
  cases hp
  have hnew : ∀ a, pile.seal a = none := by
    intro a
    obtain ⟨keep, hk, rfl⟩ := PileFs.addSeals_eq hs
    cases hk
    rfl
  have hnewId := hI.new_ledgerId _ _ hn
  refine ⟨blocks, hc, ((hI.commit_ledgerId _).trans hid).trans hnewId, fun a s => ?_⟩
  rw [← hnewId]
  refine (hseals a s).trans ?_
  simp [hnew]

end Contract

namespace Contracts

variable {H : Hypersonic} {S : RgbSeal} {W : Wire H S} {V : Verifier H S} {P : Stockpile W V}

/-- The blocks of a consignment, as the reader for known or for unknown contracts yields them. -/
def blocksOf (s : Contracts P) (id : ContractId) (resolver : SealResolver H S) (stream : Bytes) :
    Except DecodeError (List (OperationSeals H S) × Bytes) :=
  if s.hasContract id then W.readStreaming resolver stream else W.readInMemory stream

/-- The contract has every seal the resolver knows for an operation of the consignment. -/
def SealsKept (s s' : Contracts P) (reader : Bytes) (resolver : SealResolver H S) : Prop :=
  ∀ id stream blocks rest c, W.parseConsignment.run reader = .ok (id, stream) →
    s.blocksOf id resolver stream = .ok (blocks, rest) → get s'.contracts id = some c →
    Contract.Resolved resolver (H.ledgerId c.ledger) c.pile blocks

/-- The contract is known, or its consignment defines the seals the resolver knows. -/
def SealsDefined (s : Contracts P) (reader : Bytes) (resolver : SealResolver H S) (sigValidator : W.Validator) : Prop :=
  ∀ id stream consignment rest articles blocks, W.parseConsignment.run reader = .ok (id, stream) →
    s.hasContract id = false → W.consignment.run stream = .ok (consignment, rest) →
    consignment.articles sigValidator = .ok articles → s.blocksOf id resolver stream = .ok (blocks, rest) →
    Contract.SelfDefined resolver (H.articlesId articles) blocks

/-- An accepted consignment of a known contract is streamed into it. -/
theorem consume_known (hI : H.IdLaws) {s s' : Contracts P} {allowUnknown : Bool} {reader stream : Bytes}
    {id : ContractId} {resolver : SealResolver H S} {sigValidator : W.Validator}
    (h : s.consume allowUnknown reader resolver sigValidator = some (.ok (), s'))
    (hp : W.parseConsignment.run reader = .ok (id, stream)) (hk : s.hasContract id = true) :
    ∃ blocks rest c, s.blocksOf id resolver stream = .ok (blocks, rest) ∧ get s'.contracts id = some c ∧
      Contract.Resolved resolver (H.ledgerId c.ledger) c.pile blocks := by
  simp only [consume, hp, hk, Bool.true_eq_false, if_false] at h
  obtain ⟨⟨res, s₁⟩, hw, he⟩ := Option.map_eq_some_iff.1 h
  obtain ⟨c, _, rfl, rfl⟩ := withContractMut_eq hw
  obtain ⟨hres, rfl⟩ := Prod.mk.inj he
  have hok : c.consumeInternal W V stream resolver sigValidator =
      (.ok (), (c.consumeInternal W V stream resolver sigValidator).2) := Prod.ext (noThird_eq_ok.1 hres) rfl
  obtain ⟨blocks, rest, hread, hresolved⟩ := Contract.consumeInternal_resolved hI hok
  exact ⟨blocks, rest, _, by simpa [blocksOf, hk] using hread, get_upsert_self _ _ _, hresolved⟩

/-- An accepted consignment of an unknown contract is read in memory and imported. -/
theorem consume_unknown (hI : H.IdLaws) (hP : P.Lawful) {s s' : Contracts P} {allowUnknown : Bool}
    {reader stream : Bytes} {id : ContractId} {resolver : SealResolver H S} {sigValidator : W.Validator}
    (h : s.consume allowUnknown reader resolver sigValidator = some (.ok (), s'))
    (hp : W.parseConsignment.run reader = .ok (id, stream)) (hk : s.hasContract id = false) :
    ∃ consignment rest articles blocks c, W.consignment.run stream = .ok (consignment, rest) ∧
      consignment.articles sigValidator = .ok articles ∧ s.blocksOf id resolver stream = .ok (blocks, rest) ∧
      get s'.contracts id = some c ∧ H.ledgerId c.ledger = H.articlesId articles ∧
      ∀ a sl, c.pile.seal a = some sl ↔ ∃ b, (b, a.opid) ∈ Contract.applied (H.articlesId articles) blocks ∧
        get b.definedSeals.entries a.pos = some sl := by
  simp only [consume, hp, hk, if_true] at h
  split at h
  · split at h
    · cases h
    · rename_i consignment rest hcons
      split at h
      · cases h
      · rename_i articles hart
        split at h
        · cases h
        · split at h
          · cases h
          · rename_i c persistence he
            cases h
            obtain ⟨hw, _⟩ := hP.import_ok _ _ _ _ _ he
            obtain ⟨blocks, hc, hid, hs⟩ := Contract.withArticles_seals hI hw
            exact ⟨consignment, rest, articles, blocks, c, hcons, hart,
              by simp [blocksOf, hk, Wire.readInMemory, hcons, hc], get_upsert_self _ _ _, hid, hs⟩
  · cases h

/-- **What the resolver knows** is in the contract after a `consume` if and only if the contract
was known before, or the consignment defines the same seals itself. -/
theorem consume_sealsKept_iff (hI : H.IdLaws) (hP : P.Lawful) {s s' : Contracts P} {allowUnknown : Bool}
    {reader : Bytes} {resolver : SealResolver H S} {sigValidator : W.Validator}
    (h : s.consume allowUnknown reader resolver sigValidator = some (.ok (), s')) :
    s.SealsKept s' reader resolver ↔ s.SealsDefined reader resolver sigValidator := by
  constructor
  · intro hkept id stream consignment rest articles blocks hp hk hcons hart hb
    obtain ⟨consignment', rest', articles', blocks', c, hcons', hart', hb', hget, hid, hs⟩ := consume_unknown hI hP h hp hk
    obtain ⟨rfl, rfl⟩ : consignment' = consignment ∧ rest' = rest := by simpa [hcons] using hcons'.symm
    obtain rfl : articles' = articles := by simpa [hart] using hart'.symm
    obtain rfl : blocks' = blocks := by simpa [hb] using hb'.symm
    have hres := hkept id stream _ _ c hp hb hget
    intro b o hbo n sl hn hauth
    exact (hs ⟨o, n⟩ sl).1 (hres b o (hid ▸ hbo) n sl hn hauth)
  · intro hdef id stream blocks rest c hp hb hget
    cases hk : s.hasContract id with
    | true =>
      obtain ⟨blocks', rest', c', hb', hget', hres⟩ := consume_known hI h hp hk
      obtain ⟨rfl, rfl⟩ : blocks' = blocks ∧ rest' = rest := by simpa [hb] using hb'.symm
      obtain rfl : c' = c := by simpa [hget] using hget'.symm
      exact hres
    | false =>
      obtain ⟨consignment, rest', articles, blocks', c', hcons, hart, hb', hget', hid, hs⟩ :=
        consume_unknown hI hP h hp hk
      obtain ⟨rfl, rfl⟩ : blocks' = blocks ∧ rest' = rest := by simpa [hb] using hb'.symm
      obtain rfl : c' = c := by simpa [hget] using hget'.symm
      intro b o hbo n sl hn hauth
      exact (hs ⟨o, n⟩ sl).2 (hdef id stream consignment _ articles _ hp hk hcons hart hb b o (hid ▸ hbo) n sl hn hauth)

end Contracts

/-! ## A received asset of an unknown contract -/

namespace Stream

/-- The genesis of contract 3, whose output is locked to the auth token of seal 7. -/
def received (seals : Bytes) : Bytes :=
  opening ++ headBytes ++ [3, 9, 0, 1, 7, 100] ++ seals ++ [0] ++ [0, 0, 0, 0]

/-- The wallet knows seal 7. -/
def wallet : SealResolver refSonic refSeal := fun _ => ⟨[(0, (7 : Nat))], by simp [keys]⟩

end Stream

/-- The issuer has put the seal into the consignment. -/
theorem consume_defined : ∃ s', (Contracts.load Stream.emptyDir : Contracts Stream.dir).consume true
      (Stream.received [1, 0, 7]) Stream.wallet Stream.validator = some (.ok (), s') ∧
    (Contracts.load Stream.emptyDir : Contracts Stream.dir).SealsKept s' (Stream.received [1, 0, 7]) Stream.wallet := by
  let s : Contracts Stream.dir := .load Stream.emptyDir
  have h : s.consume true (Stream.received [1, 0, 7]) Stream.wallet Stream.validator = some (.ok (),
      ((s.consume true (Stream.received [1, 0, 7]) Stream.wallet Stream.validator).map Prod.snd).getD s) := rfl
  refine ⟨_, h, (Contracts.consume_sealsKept_iff refSonic_idLaws (stockpileDir_lawful _ _ _ _) h).2 ?_⟩
  intro id stream consignment rest articles blocks hp hk hcons hart hb
  cases hp
  cases hcons
  cases hart
  cases hb
  intro b o hbo n sl hn hauth
  obtain ⟨rfl, rfl⟩ : n = 0 ∧ sl = (7 : Nat) := by simpa [Stream.wallet] using hn
  obtain ⟨rfl, rfl⟩ := Prod.mk.inj (List.mem_singleton.1 hbo)
  exact ⟨_, hbo, rfl⟩

/-- The wallet's seal is lost on the first import. -/
theorem consume_unresolved :
    ¬∀ (H : Hypersonic) (S : RgbSeal) (W : Wire H S) (V : Verifier H S) (P : Stockpile W V), H.IdLaws → P.Lawful →
      ∀ (s s' : Contracts P) allowUnknown reader resolver sigValidator,
      s.consume allowUnknown reader resolver sigValidator = some (.ok (), s') → s.SealsKept s' reader resolver := by
  intro h
  have hk := h refSonic refSeal refWire refVerifier Stream.dir refSonic_idLaws (stockpileDir_lawful _ _ _ _)
    (Contracts.load Stream.emptyDir) _ true (Stream.received [0]) Stream.wallet Stream.validator rfl _ _ _ _ _ rfl rfl rfl
    _ _ List.mem_cons_self 0 7 List.mem_cons_self rfl
  cases hk

end RgbStd
