import RgbStd.Consign.Wire
/-!
# The two consignment readers

`Consignment::strict_decode` with `into_operations`, and `consume_internal` with `OpReader`, read
the same format by different code. The in-memory reader takes the genesis as a `Genesis`, its
witness as a reserved byte and at most `MAX_CONSIGNMENT_OPS` operations; the streaming one takes
any operation, an optional witness, any count, and reads the count anew after it was
`COUNT_FOLLOWS`.

* `skipBlocks_eq_ok`: the extension blocks are read alike.
* `collect_feed`: so are the operations under an admissible count.
* `readInMemory_eq_ok`, `readStreaming_eq_ok`: what either reader accepts.
* `readStreaming_of_readInMemory`: the streaming reader follows the in-memory one.
* `readersAgree_iff`: where the converse holds.
-/
namespace RgbStd
open Tables Decode

/-- A genesis encodes to the same bytes as the operation made of it with its codex id. -/
structure Wire.GenesisLaws {H : Hypersonic} {S : RgbSeal} (W : Wire H S) : Prop where
  genesis_operation : ∀ bs g rest, W.genesis.run bs = .ok (g, rest) →
    W.operation.run bs = .ok (W.toOperation g (W.genesisCodex g), rest)

namespace Wire

variable {H : Hypersonic} {S : RgbSeal} (W : Wire H S)

/-- `Consignment::strict_decode` and `into_operations`, iterated to the end. -/
def readInMemory (bs : Bytes) : Except DecodeError (List (OperationSeals H S) × Bytes) :=
  match W.consignment.run bs with
  | .error e => .error e
  | .ok (c, rest) => match c.intoOperations.feed.collect with
    | .ok (ops, ()) => .ok (ops, rest)

/-- `consume_internal` up to and including its operations, iterated to the end. -/
def readStreaming (resolver : SealResolver H S) (bs : Bytes) :
    Except DecodeError (List (OperationSeals H S) × Bytes) :=
  match W.head.run bs with
  | .error e => .error e
  | .ok (_, stream) => (OpReader.feed W resolver ⟨stream, COUNT_FOLLOWS⟩).collect

/-- Both fail, or both yield the same operations and leave the same rest; the resolver knows no
seals. -/
def ReadersAgree (bs : Bytes) : Prop :=
  (∃ e e', W.readInMemory bs = .error e ∧ W.readStreaming noSeals bs = .error e') ∨
    ∃ r, W.readInMemory bs = .ok r ∧ W.readStreaming noSeals bs = .ok r

/-- The bytes hold the announced number of operation blocks. -/
inductive Blocks : UInt32 → Bytes → Prop where
  | none (bs : Bytes) : Blocks 0 bs
  | block {n : UInt32} {bs rest : Bytes} {b : OperationSeals H S} : n ≠ 0 → n ≠ COUNT_FOLLOWS →
      W.operationSeals.run bs = .ok (b, rest) → Blocks (n - 1) rest → Blocks n bs
  | counted {n : UInt32} {bs mid rest : Bytes} {b : OperationSeals H S} :
      W.operationSeals.run bs = .ok (b, mid) → u32D.run mid = .ok (n, rest) →
      Blocks n rest → Blocks COUNT_FOLLOWS bs

/-- The genesis block has the form issuers write: a genesis without a witness, followed by at
most `MAX_CONSIGNMENT_OPS` operations. -/
structure PlainGenesis (bs : Bytes) : Prop where
  genesis : ∃ g rest, W.genesis.run bs = .ok (g, rest)
  witness : ∀ b mid, W.operationSeals.run bs = .ok (b, mid) → b.witness = none
  count : ∀ b mid n rest, W.operationSeals.run bs = .ok (b, mid) →
    u32D.run mid = .ok (n, rest) → n ≤ MAX_CONSIGNMENT_OPS

variable {W}

/-! ## Extension blocks -/

theorem skipBlocks_eq_ok (n : Nat) (bs rest : Bytes) :
    (skipBlocks n).run bs = .ok ((), rest) ↔ ∃ blobs, (smallBlob.times n).run bs = .ok (blobs, rest) := by
  induction n generalizing bs with
  | zero => simp [skipBlocks, Decoder.times]
  | succ n ih =>
    simp only [skipBlocks, Decoder.bind_eq_ok, Decoder.times_succ_eq_ok, smallBlob, ih]
    constructor
    · rintro ⟨len, r₁, h₁, blob, r₂, h₂, blobs, hb⟩
      exact ⟨_, blob, r₂, blobs, ⟨len, r₁, h₁, h₂⟩, hb, rfl⟩
    · rintro ⟨_, blob, r₂, blobs, ⟨len, r₁, h₁, h₂⟩, hb, rfl⟩
      exact ⟨len, r₁, h₁, blob, r₂, h₂, blobs, hb⟩

/-! ## The header -/

theorem head_of_header {bs rest : Bytes} {hd : W.ConsignmentHeader}
    (h : W.consignmentHeader.run bs = .ok (hd, rest)) : ∃ h₀ r r₁ r₂,
      W.head.run bs = .ok (h₀, r) ∧ hd.issue.codex = h₀.codex ∧
      W.genesis.run r = .ok (hd.issue.genesis, r₁) ∧ W.seals.run r₁ = .ok (hd.genesisSeals, 0 :: r₂) ∧
      u32D.run r₂ = .ok (hd.opCount, rest) := by
  simp only [consignmentHeader, extensions, Decoder.bind_eq_ok, Decoder.pure_eq_ok] at h
  obtain ⟨ext, q₀, ⟨len, q, hl, he⟩, sem, q₁, hs, sig, q₂, hg, u, q₃, hv, mt, q₄, hm, cx, q₅, hc, g, q₆, hgen, seals,
    q₇, hse, u', q₈, hw, n, q₉, hn, rfl, rfl⟩ := h
  refine ⟨⟨sem, sig, mt, cx⟩, q₅, q₆, q₈, ?_, rfl, hgen, ?_, hn⟩
  · simp only [head, Decoder.bind_eq_ok, Decoder.pure_eq_ok]
    exact ⟨len, q, hl, (), q₀, (skipBlocks_eq_ok _ _ _).2 ⟨ext, he⟩, sem, q₁, hs, sig, q₂, hg, u, q₃, hv, mt, q₄, hm,
      cx, q₅, hc, rfl, rfl⟩
  · have hq : q₇ = 0 :: q₈ := Decoder.reserved_eq_ok.1 hw
    exact hq ▸ hse

theorem header_of_head {bs r r₁ r₂ rest : Bytes} {h₀ : W.Head} {g : W.Genesis} {seals : SmallMap UInt16 S.Definition}
    {n : UInt32} (h : W.head.run bs = .ok (h₀, r)) (hgen : W.genesis.run r = .ok (g, r₁))
    (hse : W.seals.run r₁ = .ok (seals, 0 :: r₂)) (hn : u32D.run r₂ = .ok (n, rest)) :
    ∃ hd, W.consignmentHeader.run bs = .ok (hd, rest) ∧ hd.issue.genesis = g ∧ hd.issue.codex = h₀.codex ∧
      hd.genesisSeals = seals ∧ hd.opCount = n := by
  simp only [head, Decoder.bind_eq_ok, Decoder.pure_eq_ok] at h
  obtain ⟨len, q, hl, u, q₀, hsk, sem, q₁, hs, sig, q₂, hg, u', q₃, hv, mt, q₄, hm, cx, q₅, hc, rfl, rfl⟩ := h
  obtain ⟨ext, he⟩ := (skipBlocks_eq_ok _ _ _).1 hsk
  refine ⟨⟨ext, sem, sig, ⟨mt, cx, g⟩, seals, n⟩, ?_, rfl, rfl, rfl, rfl⟩
  simp only [consignmentHeader, extensions, Decoder.bind_eq_ok, Decoder.pure_eq_ok]
  exact ⟨ext, q₀, ⟨len, q, hl, he⟩, sem, q₁, hs, sig, q₂, hg, u', q₃, hv, mt, q₄, hm, cx, _, hc, g, r₁, hgen, seals, _,
    hse, (), r₂, Decoder.reserved_eq_ok.2 rfl, n, rest, hn, rfl, rfl⟩

/-! ## The operations -/

theorem resolvedSeals_noSeals (bs : Bytes) : (W.resolvedSeals noSeals).run bs = W.operationSeals.run bs := by
  simp only [resolvedSeals, operationSeals, noSeals, UniqueMap.empty, SmallMap.extend_nil]

/-- Reading one block of the stream. -/
theorem collect_feed_block {bs rest : Bytes} {n : UInt32} (h0 : n ≠ 0) (hn : n ≠ COUNT_FOLLOWS)
    {ops : List (OperationSeals H S)} : (OpReader.feed W noSeals ⟨bs, n⟩).collect = .ok (ops, rest) ↔
      ∃ b mid ops', W.operationSeals.run bs = .ok (b, mid) ∧
        (OpReader.feed W noSeals ⟨mid, n - 1⟩).collect = .ok (ops', rest) ∧ ops = b :: ops' := by
  rw [OpReader.feed_eq]
  simp only [OpReader.readOperation, h0, hn, if_false, resolvedSeals_noSeals]
  cases hb : W.operationSeals.run bs with
  | error e => simp [Feed.collect]
  | ok p =>
    obtain ⟨b, mid⟩ := p
    simp only [Feed.collect_next_eq_ok]
    constructor
    · rintro ⟨ops', h, rfl⟩
      exact ⟨b, mid, ops', rfl, h, rfl⟩
    · rintro ⟨b', mid', ops', he, h, rfl⟩
      cases he
      exact ⟨ops', h, rfl⟩

/-- Reading the block after which the count follows. -/
theorem collect_feed_counted {bs rest : Bytes} {ops : List (OperationSeals H S)} :
    (OpReader.feed W noSeals ⟨bs, COUNT_FOLLOWS⟩).collect = .ok (ops, rest) ↔
      ∃ b mid n r ops', W.operationSeals.run bs = .ok (b, mid) ∧ u32D.run mid = .ok (n, r) ∧
        (OpReader.feed W noSeals ⟨r, n⟩).collect = .ok (ops', rest) ∧ ops = b :: ops' := by
  have h0 : COUNT_FOLLOWS ≠ 0 := by decide
  rw [OpReader.feed_eq]
  simp only [OpReader.readOperation, h0, if_false, if_true, resolvedSeals_noSeals]
  cases hb : W.operationSeals.run bs with
  | error e => simp [Feed.collect]
  | ok p =>
    obtain ⟨b, mid⟩ := p
    cases hc : u32D.run mid with
    | error e =>
      simp only [hc, Feed.collect]
      constructor
      · intro h; cases h
      · rintro ⟨b', mid', n, r, ops', he, hn, _⟩
        cases he
        rw [hc] at hn
        cases hn
    | ok q =>
      obtain ⟨n, r⟩ := q
      simp only [hc, Feed.collect_next_eq_ok]
      constructor
      · rintro ⟨ops', h, rfl⟩
        exact ⟨b, mid, n, r, ops', rfl, hc, h, rfl⟩
      · rintro ⟨b', mid', n', r', ops', he, hn, h, rfl⟩
        cases he
        rw [hc] at hn
        cases hn
        exact ⟨ops', h, rfl⟩

theorem collect_feed_zero (bs : Bytes) : (OpReader.feed W noSeals ⟨bs, 0⟩).collect = .ok ([], bs) := by
  rw [OpReader.feed_eq]
  rfl

/-- Under an admissible count the streaming reader reads that many blocks. -/
theorem collect_feed : ∀ (k : Nat) (n : UInt32) (bs rest : Bytes) (ops : List (OperationSeals H S)),
    n.toNat = k → n ≤ MAX_CONSIGNMENT_OPS →
    ((OpReader.feed W noSeals ⟨bs, n⟩).collect = .ok (ops, rest) ↔
      (W.operationSeals.times n.toNat).run bs = .ok (ops, rest)) := by
  intro k
  induction k with
  | zero =>
    intro n bs rest ops hk _
    obtain rfl : n = 0 := UInt32.toNat_inj.1 hk
    rw [collect_feed_zero, UInt32.toNat_zero, Decoder.times_zero_eq_ok]
    simp [eq_comm]
  | succ k ih =>
    intro n bs rest ops hk hle
    have hle' := UInt32.le_iff_toNat_le.1 hle
    have hmax : MAX_CONSIGNMENT_OPS.toNat = 65535 := rfl
    have h0 : n ≠ 0 := by rintro rfl; simp at hk
    have hf : n ≠ COUNT_FOLLOWS := by
      rintro rfl
      have : COUNT_FOLLOWS.toNat = 4294967295 := rfl
      omega
    have hk' : (n - 1).toNat = k := by
      have h1 : (1 : UInt32).toNat = 1 := rfl
      rw [UInt32.toNat_sub_of_le _ _ (UInt32.le_iff_toNat_le.2 (by omega)), hk]
      simp
    have hle₁ : n - 1 ≤ MAX_CONSIGNMENT_OPS := UInt32.le_iff_toNat_le.2 (by omega)
    rw [collect_feed_block h0 hf, hk, Decoder.times_succ_eq_ok]
    simp only [ih (n - 1) _ _ _ hk' hle₁, hk']

/-! ## What either reader accepts -/

theorem readInMemory_eq_ok {bs rest : Bytes} {ops : List (OperationSeals H S)} :
    W.readInMemory bs = .ok (ops, rest) ↔ ∃ h r g r₁ seals r₂ n r₃ l,
      W.head.run bs = .ok (h, r) ∧ W.genesis.run r = .ok (g, r₁) ∧ W.seals.run r₁ = .ok (seals, 0 :: r₂) ∧
      u32D.run r₂ = .ok (n, r₃) ∧ n ≤ MAX_CONSIGNMENT_OPS ∧
      (W.operationSeals.times n.toNat).run r₃ = .ok (l, rest) ∧
      ops = ⟨W.toOperation g (W.codexContract h.codex), seals, none⟩ :: l := by
  have hcollect : ∀ c : W.Consignment, c.intoOperations.feed.collect = .ok
      (⟨W.toOperation c.header.issue.genesis (W.codexContract c.header.issue.codex), c.header.genesisSeals, none⟩ ::
        c.operationSeals, ()) := by
    intro c
    simp [Consignment.intoOperations, InMemOps.feed, Feed.collect, Feed.collect_ofList]
  have hread : W.readInMemory bs = .ok (ops, rest) ↔ ∃ c, W.consignment.run bs = .ok (c, rest) ∧
      ops = ⟨W.toOperation c.header.issue.genesis (W.codexContract c.header.issue.codex), c.header.genesisSeals,
        none⟩ :: c.operationSeals := by
    unfold readInMemory
    cases hc : W.consignment.run bs with
    | error e => simp
    | ok p =>
      obtain ⟨c, rest'⟩ := p
      simp only [hcollect]
      constructor
      · intro h; cases h; exact ⟨c, rfl, rfl⟩
      · rintro ⟨c', he, rfl⟩; cases he; rfl
  rw [hread]
  simp only [consignment, Decoder.bind_eq_ok]
  constructor
  · rintro ⟨c, ⟨hd, r₃, hh, hrest⟩, rfl⟩
    split at hrest
    · cases hrest
    · rename_i hle
      obtain ⟨l, r', hl, hp⟩ := Decoder.bind_eq_ok.1 hrest
      obtain ⟨rfl, rfl⟩ := Decoder.pure_eq_ok.1 hp
      obtain ⟨h, r, r₁, r₂, h₁, hcx, h₂, h₃, h₄⟩ := head_of_header hh
      exact ⟨h, r, _, r₁, _, r₂, _, r₃, l, h₁, h₂, h₃, h₄, UInt32.not_lt.1 hle, hl, by rw [hcx]⟩
  · rintro ⟨h, r, g, r₁, seals, r₂, n, r₃, l, h₁, h₂, h₃, h₄, hle, hl, rfl⟩
    obtain ⟨hd, hh, rfl, hcx, rfl, rfl⟩ := header_of_head h₁ h₂ h₃ h₄
    refine ⟨⟨hd, l⟩, ⟨hd, r₃, hh, ?_⟩, by rw [hcx]⟩
    rw [if_neg (UInt32.not_lt.2 hle)]
    exact Decoder.bind_eq_ok.2 ⟨l, rest, hl, rfl⟩

theorem readStreaming_eq_ok {bs rest : Bytes} {ops : List (OperationSeals H S)} :
    W.readStreaming noSeals bs = .ok (ops, rest) ↔ ∃ h r b mid n r₃ l,
      W.head.run bs = .ok (h, r) ∧ W.operationSeals.run r = .ok (b, mid) ∧
      u32D.run mid = .ok (n, r₃) ∧
      (OpReader.feed W noSeals ⟨r₃, n⟩).collect = .ok (l, rest) ∧ ops = b :: l := by
  unfold readStreaming
  cases hh : W.head.run bs with
  | error e => simp
  | ok p =>
    obtain ⟨h, r⟩ := p
    simp only [collect_feed_counted]
    constructor
    · rintro ⟨b, mid, n, r₃, l, hrest⟩
      exact ⟨h, r, b, mid, n, r₃, l, rfl, hrest⟩
    · rintro ⟨h', r', b, mid, n, r₃, l, he, hrest⟩
      cases he
      exact ⟨b, mid, n, r₃, l, hrest⟩

/-! ## Announced blocks -/

theorem operationSeals_eq_ok {bs rest : Bytes} {b : OperationSeals H S} :
    W.operationSeals.run bs = .ok (b, rest) ↔ ∃ r₁ r₂, W.operation.run bs = .ok (b.operation, r₁) ∧
      W.seals.run r₁ = .ok (b.definedSeals, r₂) ∧ (optionD W.sealWitness).run r₂ = .ok (b.witness, rest) := by
  simp only [operationSeals, Decoder.bind_eq_ok, Decoder.pure_eq_ok]
  constructor
  · rintro ⟨op, r₁, h₁, seals, r₂, h₂, w, r₃, h₃, rfl, rfl⟩
    exact ⟨r₁, r₂, h₁, h₂, h₃⟩
  · rintro ⟨r₁, r₂, h₁, h₂, h₃⟩
    exact ⟨_, r₁, h₁, _, r₂, h₂, _, rest, h₃, rfl, rfl⟩

theorem operationSeals_length_lt {bs rest : Bytes} {b : OperationSeals H S}
    (h : W.operationSeals.run bs = .ok (b, rest)) : rest.length < bs.length := by
  obtain ⟨r₁, r₂, h₁, h₂, h₃⟩ := operationSeals_eq_ok.1 h
  have hlt := W.operation_nonempty _ _ _ h₁
  have hle := (Decoder.length_le h₂).trans' (Decoder.length_le h₃)
  omega

/-- The streaming reader comes to its end on announced blocks only. -/
theorem blocks_of_collect : ∀ (k : Nat) (n : UInt32) (bs rest : Bytes) (ops : List (OperationSeals H S)),
    bs.length < k → (OpReader.feed W noSeals ⟨bs, n⟩).collect = .ok (ops, rest) → W.Blocks n bs := by
  intro k
  induction k with
  | zero => intro n bs rest ops hk; omega
  | succ k ih =>
    intro n bs rest ops hk h
    by_cases h0 : n = 0
    · subst h0; exact Blocks.none bs
    · by_cases hf : n = COUNT_FOLLOWS
      · subst hf
        obtain ⟨b, mid, n, r, ops', hb, hc, h', _⟩ := collect_feed_counted.1 h
        have hlt := operationSeals_length_lt hb
        have hle := Decoder.length_le hc
        exact Blocks.counted hb hc (ih n r rest ops' (by omega) h')
      · obtain ⟨b, mid, ops', hb, h', _⟩ := (collect_feed_block h0 hf).1 h
        have hlt := operationSeals_length_lt hb
        exact Blocks.block h0 hf hb (ih _ mid rest ops' (by omega) h')

theorem collect_of_blocks {n : UInt32} {bs : Bytes} (h : W.Blocks n bs) :
    ∃ ops rest, (OpReader.feed W noSeals ⟨bs, n⟩).collect = .ok (ops, rest) := by
  induction h with
  | none bs => exact ⟨[], bs, collect_feed_zero bs⟩
  | block h0 hf hb _ ih =>
    obtain ⟨ops, rest, h⟩ := ih
    exact ⟨_, rest, (collect_feed_block h0 hf).2 ⟨_, _, ops, hb, h, rfl⟩⟩
  | counted hb hc _ ih =>
    obtain ⟨ops, rest, h⟩ := ih
    exact ⟨_, rest, collect_feed_counted.2 ⟨_, _, _, _, ops, hb, hc, h, rfl⟩⟩

/-! ## Agreement -/

/-- The id of the codex the stream carries is the one its genesis names. -/
def SameCodex (W : Wire H S) (bs : Bytes) : Prop :=
  ∀ h r, W.head.run bs = .ok (h, r) → ∀ g rest, W.genesis.run r = .ok (g, rest) →
    W.genesisCodex g = W.codexContract h.codex

/-- **The streaming reader follows the in-memory one**, which sees a plain genesis only. -/
theorem readStreaming_of_readInMemory (hW : W.GenesisLaws) {bs rest : Bytes} (hc : W.SameCodex bs)
    {ops : List (OperationSeals H S)} (h : W.readInMemory bs = .ok (ops, rest)) :
    W.readStreaming noSeals bs = .ok (ops, rest) ∧ ∀ h₀ r, W.head.run bs = .ok (h₀, r) → W.PlainGenesis r := by
  obtain ⟨h₀, r, g, r₁, seals, r₂, n, r₃, l, h₁, h₂, h₃, h₄, hle, hl, rfl⟩ := readInMemory_eq_ok.1 h
  have hop := hW.genesis_operation _ _ _ h₂
  rw [hc h₀ r h₁ g r₁ h₂] at hop
  have hb : W.operationSeals.run r =
      .ok (⟨W.toOperation g (W.codexContract h₀.codex), seals, none⟩, r₂) :=
    operationSeals_eq_ok.2 ⟨r₁, _, hop, h₃, Decoder.option_eq_none.2 rfl⟩
  refine ⟨readStreaming_eq_ok.2 ⟨h₀, r, _, r₂, n, r₃, l, h₁, hb, h₄, (collect_feed _ n _ _ _ rfl hle).2 hl, rfl⟩, ?_⟩
  intro h₀' r' h₁'
  rw [h₁] at h₁'
  cases h₁'
  refine ⟨⟨g, r₁, h₂⟩, fun b mid hb' => ?_, fun b mid n' rest' hb' hn' => ?_⟩
  · rw [hb] at hb'; cases hb'; rfl
  · rw [hb] at hb'
    cases hb'
    rw [h₄] at hn'
    cases hn'
    exact hle

/-- On a plain genesis the in-memory reader follows the streaming one. -/
theorem readInMemory_of_readStreaming (hW : W.GenesisLaws) {bs rest : Bytes} (hc : W.SameCodex bs)
    (hp : ∀ h₀ r, W.head.run bs = .ok (h₀, r) → W.PlainGenesis r)
    {ops : List (OperationSeals H S)} (h : W.readStreaming noSeals bs = .ok (ops, rest)) :
    W.readInMemory bs = .ok (ops, rest) := by
  obtain ⟨h₀, r, b, mid, n, r₃, l, h₁, hb, hn, hl, rfl⟩ := readStreaming_eq_ok.1 h
  obtain ⟨⟨g, r₁, hg⟩, hwit, hcount⟩ := hp h₀ r h₁
  have hle := hcount b mid n r₃ hb hn
  have hnone := hwit b mid hb
  obtain ⟨q₁, q₂, hop, hse, hw⟩ := operationSeals_eq_ok.1 hb
  have hop' := hW.genesis_operation _ _ _ hg
  rw [hc h₀ r h₁ g r₁ hg, hop] at hop'
  obtain ⟨hbop, rfl⟩ : b.operation = W.toOperation g (W.codexContract h₀.codex) ∧ q₁ = r₁ := by
    simpa using hop'
  rw [hnone] at hw
  obtain rfl : q₂ = 0 :: mid := Decoder.option_eq_none.1 hw
  refine readInMemory_eq_ok.2 ⟨h₀, r, g, q₁, b.definedSeals, mid, n, r₃, l, h₁, hg, hse, hn, hle,
    (collect_feed _ n _ _ _ rfl hle).1 hl, ?_⟩
  rw [← hbop, ← hnone]

/-- **The readers agree** on a stream exactly if, whenever it holds the blocks it announces, its
genesis block is a plain one. -/
theorem readersAgree_iff (hW : W.GenesisLaws) {bs : Bytes} (hc : W.SameCodex bs) :
    W.ReadersAgree bs ↔ ∀ h r, W.head.run bs = .ok (h, r) → W.Blocks COUNT_FOLLOWS r → W.PlainGenesis r := by
  constructor
  · rintro hagree h r hh hbl
    obtain ⟨ops, rest, hcol⟩ := collect_of_blocks hbl
    have hs : W.readStreaming noSeals bs = .ok (ops, rest) := by simpa [readStreaming, hh] using hcol
    rcases hagree with ⟨_, _, _, he⟩ | ⟨⟨ops', rest'⟩, hm, _⟩
    · rw [hs] at he; cases he
    · exact (readStreaming_of_readInMemory hW hc hm).2 h r hh
  · intro hp
    cases hm : W.readInMemory bs with
    | ok p =>
      obtain ⟨ops, rest⟩ := p
      exact Or.inr ⟨_, hm, (readStreaming_of_readInMemory hW hc hm).1⟩
    | error e =>
      refine Or.inl ⟨e, ?_⟩
      cases hs : W.readStreaming noSeals bs with
      | error e' => exact ⟨e', hm, rfl⟩
      | ok p =>
        obtain ⟨ops, rest⟩ := p
        obtain ⟨h₀, r, b, mid, n, r₃, l, h₁, hb, hn, hl, _⟩ := readStreaming_eq_ok.1 hs
        have hbl : W.Blocks COUNT_FOLLOWS r := Blocks.counted hb hn (blocks_of_collect _ _ _ _ _ (Nat.lt_succ_self _) hl)
        have hp' : ∀ h₀ r, W.head.run bs = .ok (h₀, r) → W.PlainGenesis r := by
          intro h' r' hh'
          rw [h₁] at hh'
          cases hh'
          exact hp h₀ r h₁ hbl
        rw [readInMemory_of_readStreaming hW hc hp' hs] at hm
        cases hm

end Wire

theorem refWire_genesisLaws : refWire.GenesisLaws where
  genesis_operation bs g rest h := by
    obtain ⟨op, mid, ho, hp⟩ := Decoder.bind_eq_ok.1 h
    split at hp
    · obtain ⟨rfl, rfl⟩ := Decoder.pure_eq_ok.1 hp
      exact ho
    · cases hp

/-! ## A genesis with a witness -/

namespace Stream

/-- No extension blocks, no signature, issue version 0, codex 9. -/
def headBytes : Bytes := [0, 0, 0, 9]

/-- The genesis of codex 9 with one output and its seal. -/
def genesisBytes : Bytes := [3, 9, 0, 1, 0, 100] ++ [1, 0, 5]

def plain : Bytes := headBytes ++ genesisBytes ++ [0] ++ [0, 0, 0, 0]

def witnessed : Bytes := headBytes ++ genesisBytes ++ [1, 7] ++ [0, 0, 0, 0]

theorem sameCodex_plain : refWire.SameCodex plain := by
  intro h r hh g rest hg
  cases hh
  cases hg
  rfl

theorem sameCodex_witnessed : refWire.SameCodex witnessed := by
  intro h r hh g rest hg
  cases hh
  cases hg
  rfl

end Stream

/-- A plain genesis without further operations. -/
theorem readersAgree_plain : refWire.ReadersAgree Stream.plain := by
  refine (Wire.readersAgree_iff refWire_genesisLaws Stream.sameCodex_plain).2 fun h r hh _ => ?_
  cases hh
  exact
    { genesis := ⟨_, _, rfl⟩
      witness := fun b mid hb => by cases hb; rfl
      count := fun b mid n rest hb hn => by cases hb; cases hn; decide }

/-- The streaming reader accepts a genesis with a witness, the in-memory one does not. -/
theorem readersDisagree_witnessed :
    ¬∀ (H : Hypersonic) (S : RgbSeal) (W : Wire H S), W.GenesisLaws → ∀ bs, W.SameCodex bs → W.ReadersAgree bs := by
  intro h
  rcases h refSonic refSeal refWire refWire_genesisLaws _ Stream.sameCodex_witnessed with ⟨_, _, _, hs⟩ | ⟨_, hm, _⟩
  · cases hs
  · cases hm

end RgbStd
