import RgbStd.Popls.Txo
/-!
# The seal resolver of a wallet (popls/bp.rs:804-832)

The wallet is asked for the seals of the tokens of all outputs. It answers with seals, not with outputs, and
each seal goes to the first output which has its token.

| here | there |
| --- | --- |
| `resolveSeals` | `WalletProvider::resolve_seals`, a parameter |
| `sealResolver` | the closure given to `Contracts::consume` |
| `Answers`      | the wallet returns the seals it knows for the tokens it is given |
| `Complete`     | every output with a known token has its seal |

* `sealResolver_complete_iff`: so it is exactly where no known token repeats.
-/
namespace RgbStd
open Tables Decode

namespace RgbWallet

variable {H : Hypersonic} {B : BpCore} (resolveSeals : List AuthToken → List (WTxoSeal B.Noise))

/-- The output a seal goes to; `none` is the panic "invalid wallet implementation". -/
def outputOf (outs : List AuthToken) (s : WTxoSeal B.Noise) : Option (UInt16 × WTxoSeal B.Noise) :=
  (outs.findIdx? (· = B.authToken s)).map fun opOut => (UInt16.ofNat opOut, s)

/-- The closure `seal_resolver` of `RgbWallet::consume`. -/
def sealResolver (op : H.Operation) : Option (UniqueMap UInt16 (WTxoSeal B.Noise)) :=
  ((resolveSeals (H.destructibleOut op)).mapM (outputOf (H.destructibleOut op))).map .ofEntries

/-- For each token it is given and knows the wallet returns the seal with that token, and no other seals. -/
structure Answers (known : AuthToken → Option (WTxoSeal B.Noise)) : Prop where
  mem : ∀ tokens s, s ∈ resolveSeals tokens ↔ ∃ auth ∈ tokens, known auth = some s
  token : ∀ auth s, known auth = some s → B.authToken s = auth

/-- Every output whose token is known has an entry with its seal. -/
def Complete (known : AuthToken → Option (WTxoSeal B.Noise)) (op : H.Operation) : Prop :=
  ∃ map, sealResolver resolveSeals op = some map ∧
    ∀ (n : Nat) auth s, (H.destructibleOut op)[n]? = some auth → known auth = some s →
      map.find (UInt16.ofNat n) = some s

/-- No two outputs have the same token, if the wallet knows it. -/
def KnownOnce (known : AuthToken → Option (WTxoSeal B.Noise)) (op : H.Operation) : Prop :=
  ∀ (n m : Nat) auth s, (H.destructibleOut op)[n]? = some auth → (H.destructibleOut op)[m]? = some auth →
    known auth = some s → n = m

variable {resolveSeals}

/-- A seal goes to the first output with its token. -/
theorem outputOf_eq_some {outs : List AuthToken} {s : WTxoSeal B.Noise} {e : UInt16 × WTxoSeal B.Noise} :
    outputOf outs s = some e ↔ ∃ i, outs[i]? = some (B.authToken s) ∧
      (∀ j < i, outs[j]? ≠ some (B.authToken s)) ∧ e = (UInt16.ofNat i, s) := by
  rw [outputOf, Option.map_eq_some_iff]
  refine exists_congr fun i => ?_
  rw [List.findIdx?_eq_some_iff_getElem, ← and_assoc]
  refine and_congr ?_ eq_comm
  constructor
  · rintro ⟨hi, heq, hfirst⟩
    refine ⟨by simpa [List.getElem?_eq_getElem hi] using heq, fun j hj hsame => ?_⟩
    have hne := hfirst j hj
    obtain ⟨hjl, hje⟩ := List.getElem?_eq_some_iff.1 hsame
    simp [hje] at hne
  · rintro ⟨heq, hfirst⟩
    obtain ⟨hi, he⟩ := List.getElem?_eq_some_iff.1 heq
    refine ⟨hi, by simp [he], fun j hj => ?_⟩
    have hne := hfirst j hj
    simpa [List.getElem?_eq_getElem (hj.trans hi)] using hne

/-- A known token has a first output. -/
theorem exists_outputOf {outs : List AuthToken} {s : WTxoSeal B.Noise} (h : B.authToken s ∈ outs) :
    ∃ e, outputOf outs s = some e := by
  cases hi : outs.findIdx? (· = B.authToken s) with
  | none =>
    have := List.findIdx?_eq_none_iff.1 hi _ h
    simp at this
  | some i => exact ⟨_, by rw [outputOf, hi]; rfl⟩

/-- The wallet never panics, and its map has what the seals go to. -/
theorem exists_sealResolver {known : AuthToken → Option (WTxoSeal B.Noise)} (hW : Answers resolveSeals known)
    (op : H.Operation) : ∃ entries, sealResolver resolveSeals op = some (.ofEntries entries) ∧
      ∀ e, e ∈ entries ↔ ∃ s ∈ resolveSeals (H.destructibleOut op), outputOf (H.destructibleOut op) s = some e := by
  have hall : ∀ s ∈ resolveSeals (H.destructibleOut op), ∃ e, outputOf (H.destructibleOut op) s = some e := by
    intro s hs
    obtain ⟨auth, hauth, hk⟩ := (hW.mem _ _).1 hs
    exact exists_outputOf (hW.token _ _ hk ▸ hauth)
  obtain ⟨entries, hentries⟩ := exists_mapM hall
  exact ⟨entries, by rw [sealResolver, hentries]; rfl, mem_mapM hentries⟩

theorem ofNat_inj {n m : Nat} (hn : n < 65536) (hm : m < 65536) (h : UInt16.ofNat n = UInt16.ofNat m) : n = m := by
  have h' := congrArg UInt16.toNat h
  rwa [UInt16.toNat_ofNat_of_lt' hn, UInt16.toNat_ofNat_of_lt' hm] at h'

/-- What is found for an output was collected for it: the output is the first one with the token of the seal. -/
theorem outputOf_of_find {outs : List AuthToken} (hsmall : outs.length ≤ 65535) {seals : List (WTxoSeal B.Noise)}
    {entries : List (UInt16 × WTxoSeal B.Noise)} (hmem : ∀ e, e ∈ entries ↔ ∃ s ∈ seals, outputOf outs s = some e)
    {n : Nat} (hn : n < outs.length) {s : WTxoSeal B.Noise}
    (h : (UniqueMap.ofEntries entries).find (UInt16.ofNat n) = some s) :
    s ∈ seals ∧ outs[n]? = some (B.authToken s) ∧ ∀ j < n, outs[j]? ≠ some (B.authToken s) := by
  obtain ⟨s', hs, hout⟩ := (hmem _).1 (UniqueMap.mem_of_find_ofEntries h)
  obtain ⟨i, hi, hlow, he⟩ := outputOf_eq_some.1 hout
  obtain ⟨hni, rfl⟩ := Prod.mk.inj he
  obtain ⟨hlt, -⟩ := List.getElem?_eq_some_iff.1 hi
  obtain rfl : n = i := ofNat_inj (by omega) (by omega) hni
  exact ⟨hs, hi, hlow⟩

/-- **Every output the wallet can open gets its seal** if and only if no two outputs have the same token,
where the wallet knows it. An operation has no more than 65535 outputs. -/
theorem sealResolver_complete_iff {known : AuthToken → Option (WTxoSeal B.Noise)} (hW : Answers resolveSeals known)
    {op : H.Operation} (hsmall : (H.destructibleOut op).length ≤ 65535) :
    Complete resolveSeals known op ↔ KnownOnce known op := by
  obtain ⟨entries, hres, hmem⟩ := exists_sealResolver hW op
  have hlt : ∀ {n : Nat} {auth : AuthToken}, (H.destructibleOut op)[n]? = some auth → n < (H.destructibleOut op).length :=
    fun h => (List.getElem?_eq_some_iff.1 h).1
  constructor
  · rintro ⟨map, hmap, hall⟩
    obtain rfl : UniqueMap.ofEntries entries = map := Option.some.inj (hres.symm.trans hmap)
    have hfirst : ∀ (n : Nat) auth s, (H.destructibleOut op)[n]? = some auth → known auth = some s →
        ∀ j < n, (H.destructibleOut op)[j]? ≠ some auth := by
      intro n auth s hn hk
      obtain ⟨-, -, hlow⟩ := outputOf_of_find hsmall hmem (hlt hn) (hall n auth s hn hk)
      rwa [hW.token _ _ hk] at hlow
    intro n m auth s hn hm hk
    rcases Nat.lt_trichotomy n m with h | h | h
    · exact absurd hn (hfirst m auth s hm hk n h)
    · exact h
    · exact absurd hm (hfirst n auth s hn hk m h)
  · intro honce
    refine ⟨_, hres, fun n auth s hn hk => ?_⟩
    have hs : s ∈ resolveSeals (H.destructibleOut op) := (hW.mem _ _).2 ⟨auth, List.mem_of_getElem? hn, hk⟩
    have hauth := hW.token _ _ hk
    have hout : outputOf (H.destructibleOut op) s = some (UInt16.ofNat n, s) := by
      refine outputOf_eq_some.2 ⟨n, hauth.symm ▸ hn, fun j hj hsame => ?_, rfl⟩
      exact absurd (honce j n auth s (hauth ▸ hsame) hn hk) (Nat.ne_of_lt hj)
    obtain ⟨v, hv⟩ := UniqueMap.exists_find_ofEntries ((hmem _).2 ⟨s, hs, hout⟩)
    -- Whatever else was collected for the output has its token.
    obtain ⟨hs', hi, -⟩ := outputOf_of_find hsmall hmem (hlt hn) hv
    obtain ⟨auth', -, hk'⟩ := (hW.mem _ _).1 hs'
    obtain rfl : auth' = auth := (hW.token _ _ hk').symm.trans (Option.some.inj (hi.symm.trans hn))
    exact hv.trans (hk'.symm.trans hk)

end RgbWallet

/-! ## Two outputs with one token -/

namespace Opens

def s₀ : WTxoSeal RefNoise := ⟨.wout 0, .noise ⟨.wout 0, [], 0⟩⟩

def s₁ : WTxoSeal RefNoise := ⟨.wout 1, .noise ⟨.wout 1, [], 0⟩⟩

def known (auth : AuthToken) : Option (WTxoSeal RefNoise) := [s₀, s₁].find? (refBp.authToken · = auth)

def resolveSeals (tokens : List AuthToken) : List (WTxoSeal refBp.Noise) := tokens.filterMap known

theorem answers : RgbWallet.Answers (B := refBp) resolveSeals known where
  mem _ _ := List.mem_filterMap
  token auth s h := by simpa using List.find?_some h

/-- Two state names, sealed by the two seals. -/
def pays (s s' : WTxoSeal RefNoise) : RefOperation :=
  ⟨Reorg.rid, 1, [], [("amount", refBp.authToken s, 60), ("title", refBp.authToken s', 1)]⟩

end Opens

/-- Each of two seals opens an output. -/
theorem sealResolver_complete_two : (refSonic.destructibleOut (Opens.pays Opens.s₀ Opens.s₁)).length ≤ 65535 ∧
    RgbWallet.Complete (H := refSonic) (B := refBp) Opens.resolveSeals Opens.known (Opens.pays Opens.s₀ Opens.s₁) := by
  have hsmall : (refSonic.destructibleOut (Opens.pays Opens.s₀ Opens.s₁)).length ≤ 65535 := by decide
  refine ⟨hsmall, (RgbWallet.sealResolver_complete_iff Opens.answers hsmall).2 fun n m auth s hn hm _ => ?_⟩
  have hne : refBp.authToken Opens.s₀ ≠ refBp.authToken Opens.s₁ := by decide
  obtain ⟨hn, hauth⟩ := List.getElem?_eq_some_iff.1 hn
  obtain ⟨hm, hauth'⟩ := List.getElem?_eq_some_iff.1 hm
  have hnd : (refSonic.destructibleOut (Opens.pays Opens.s₀ Opens.s₁)).Nodup := by simp [Opens.pays, hne]
  exact (List.Nodup.getElem_inj_iff hnd).1 (hauth.trans hauth'.symm)

/-- The second of two outputs with one token has no entry. -/
theorem sealResolver_complete_same :
    ¬∀ (H : Hypersonic) (B : BpCore) (resolveSeals : List AuthToken → List (WTxoSeal B.Noise))
      (known : AuthToken → Option (WTxoSeal B.Noise)), RgbWallet.Answers resolveSeals known →
      ∀ op : H.Operation, (H.destructibleOut op).length ≤ 65535 → RgbWallet.Complete resolveSeals known op := by
  intro h
  obtain ⟨map, hmap, hall⟩ := h refSonic refBp Opens.resolveSeals Opens.known Opens.answers
    (Opens.pays Opens.s₀ Opens.s₀) (by decide)
  have hone : RgbWallet.sealResolver (H := refSonic) (B := refBp) Opens.resolveSeals (Opens.pays Opens.s₀ Opens.s₀) =
      some (.ofEntries [(0, Opens.s₀), (0, Opens.s₀)]) := by decide
  obtain rfl := Option.some.inj (hone.symm.trans hmap)
  have hentry := hall 1 _ Opens.s₀ rfl (by decide)
  revert hentry
  decide

end RgbStd
