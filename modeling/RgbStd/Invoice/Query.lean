import RgbStd.Core.Texts
import RgbStd.Core.Types
/-!
# Contract queries as text (invoice/src/lib.rs:104-131)

A query of an invoice names a consensus, and a prefix says that the contract is on a test network. The parser looks for
the prefix once and takes it away as often as it stands there.

| here | there |
| --- | --- |
| `trimStartMatches` | the method of `str`, of a text |
| `QueryTexts`       | `Display` and `FromStr` of `Consensus` (not part of the repository) |
| `ContractQuery`    | lib.rs:105 |

* `trimStartMatches_iff`: what is left after copies of the prefix.
* `ContractQuery.fromStr_eq_ok`: which strings are read as a query.
* `ContractQuery.query_roundTrip`: a query is read back, and a string read as a query is its text up to copies of the
  prefix and the way the consensus is written.
-/
namespace RgbStd

/-! ## Copies of a prefix -/

def trimFrom (pat : Text) : Nat → Text → Text
  | 0, s => s
  | n + 1, s => if pat <+: s then trimFrom pat n (s.drop pat.length) else s

/-- Each copy takes a character off the text at least, so its length is often enough. -/
def trimStartMatches (pat s : Text) : Text := trimFrom pat s.length s

/-- That many copies of the prefix. -/
def copies (pat : Text) (k : Nat) : Text := (List.replicate k pat).flatten

@[simp] theorem copies_zero (pat : Text) : copies pat 0 = [] := rfl

@[simp] theorem copies_succ (pat : Text) (k : Nat) : copies pat (k + 1) = pat ++ copies pat k := rfl

theorem trimFrom_copies {pat t : Text} (hpat : pat ≠ []) (ht : ¬pat <+: t) : ∀ {n k : Nat},
    (copies pat k ++ t).length ≤ n → trimFrom pat n (copies pat k ++ t) = t
  | 0, k, hn => by
    have hnil : copies pat k ++ t = [] := List.length_eq_zero_iff.1 (Nat.le_zero.1 hn)
    rw [trimFrom, hnil, (List.append_eq_nil_iff.1 hnil).2]
  | n + 1, 0, _ => by rw [copies_zero, List.nil_append, trimFrom, if_neg ht]
  | n + 1, k + 1, hn => by
    have hlen := List.length_pos_iff.2 hpat
    rw [copies_succ, List.append_assoc, List.length_append] at hn
    rw [copies_succ, List.append_assoc, trimFrom, if_pos (List.prefix_append _ _), List.drop_left]
    exact trimFrom_copies hpat ht (by omega)

theorem exists_copies {pat : Text} (hpat : pat ≠ []) : ∀ {n : Nat} {s : Text}, s.length ≤ n →
    ∃ k, s = copies pat k ++ trimFrom pat n s ∧ ¬pat <+: trimFrom pat n s
  | 0, s, hn => by
    obtain rfl : s = [] := List.length_eq_zero_iff.1 (Nat.le_zero.1 hn)
    exact ⟨0, rfl, fun h => hpat (List.prefix_nil.1 h)⟩
  | n + 1, s, hn => by
    by_cases hs : pat <+: s
    · obtain ⟨t, rfl⟩ := hs
      have hlen := List.length_pos_iff.2 hpat
      rw [List.length_append] at hn
      obtain ⟨k, ht, hno⟩ := exists_copies hpat (n := n) (s := t) (by omega)
      rw [trimFrom, if_pos (List.prefix_append _ _), List.drop_left]
      exact ⟨k + 1, by rw [copies_succ, List.append_assoc, ← ht], hno⟩
    · rw [trimFrom, if_neg hs]
      exact ⟨0, rfl, hs⟩

/-- **What is left** does not start with the prefix, and there were copies of it before. -/
theorem trimStartMatches_iff {pat s t : Text} (hpat : pat ≠ []) :
    trimStartMatches pat s = t ↔ ¬pat <+: t ∧ ∃ k, s = copies pat k ++ t := by
  constructor
  · rintro rfl
    obtain ⟨k, hs, hno⟩ := exists_copies hpat (Nat.le_refl s.length)
    exact ⟨hno, k, hs⟩
  · rintro ⟨ht, k, rfl⟩
    exact trimFrom_copies hpat ht (Nat.le_refl _)

/-- The text starts with the prefix if there was a copy. -/
theorem prefix_copies {pat t : Text} (ht : ¬pat <+: t) : ∀ k, pat <+: copies pat k ++ t ↔ 0 < k
  | 0 => by simp [ht]
  | k + 1 => by simp [List.append_assoc]

/-- The copies of the prefix are counted. -/
theorem copies_inj {pat t t' : Text} (ht : ¬pat <+: t) (ht' : ¬pat <+: t') : ∀ {k k' : Nat},
    copies pat k ++ t = copies pat k' ++ t' → k = k' ∧ t = t'
  | 0, 0, h => ⟨rfl, h⟩
  | 0, k' + 1, h => by
    rw [copies_zero, List.nil_append, copies_succ, List.append_assoc] at h
    exact absurd (h ▸ List.prefix_append _ _) ht
  | k + 1, 0, h => by
    rw [copies_zero, List.nil_append, copies_succ, List.append_assoc] at h
    exact absurd (h ▸ List.prefix_append _ _) ht'
  | k + 1, k' + 1, h => by
    rw [copies_succ, copies_succ, List.append_assoc, List.append_assoc] at h
    obtain ⟨rfl, he⟩ := copies_inj ht ht' (List.append_cancel_left h)
    exact ⟨rfl, he⟩

/-! ## Queries -/

structure QueryTexts where
  display : Consensus → Text
  fromStr : Text → Except Text Consensus

def TESTNET : Text := "testnet@".toList

/-- A consensus is read back from its text, which is no query of a test network. -/
structure QueryTexts.Lawful (X : QueryTexts) : Prop where
  fromStr_display : ∀ c, X.fromStr (X.display c) = .ok c
  plain : ∀ c, ¬TESTNET <+: X.display c

/-- `ContractQuery` (lib.rs:105). -/
structure ContractQuery where
  consensus : Consensus
  testnet : Bool
deriving DecidableEq

namespace ContractQuery

variable (X : QueryTexts)

def fmt (q : ContractQuery) : Text := (if q.testnet then TESTNET else []) ++ X.display q.consensus

/-- `ContractQuery::from_str` (lib.rs:123). -/
def fromStr (s : Text) : Except Text ContractQuery :=
  let testnet := decide (TESTNET <+: s)
  (X.fromStr (trimStartMatches TESTNET s)).map fun consensus => { consensus, testnet }

variable {X}

/-- **The strings read as a query**: a consensus, after any number of prefixes, and after one at least on a test
network. -/
theorem fromStr_eq_ok {s : Text} {q : ContractQuery} : fromStr X s = .ok q ↔ ∃ k t, s = copies TESTNET k ++ t ∧
    ¬TESTNET <+: t ∧ X.fromStr t = .ok q.consensus ∧ (q.testnet = true ↔ 0 < k) := by
  obtain ⟨ht, k, hs⟩ := (trimStartMatches_iff (s := s) (by decide : TESTNET ≠ [])).1 rfl
  have hstart : TESTNET <+: s ↔ 0 < k := by
    conv_lhs => rw [hs]
    exact prefix_copies ht k
  constructor
  · intro h
    unfold fromStr at h
    cases hc : X.fromStr (trimStartMatches TESTNET s) with
    | error e =>
      rw [hc] at h
      cases h
    | ok c =>
      rw [hc] at h
      cases h
      exact ⟨k, _, hs, ht, hc, by rw [← hstart, decide_eq_true_iff]⟩
  · rintro ⟨k', t, rfl, ht', hc, htest⟩
    have htrim : trimStartMatches TESTNET (copies TESTNET k' ++ t) = t :=
      (trimStartMatches_iff (by decide)).2 ⟨ht', k', rfl⟩
    have hdecide : decide (TESTNET <+: copies TESTNET k' ++ t) = q.testnet := by
      rw [Bool.eq_iff_iff, decide_eq_true_iff, htest]
      exact prefix_copies ht' k'
    rw [fromStr, htrim, hc, hdecide]
    rfl

theorem fmt_eq (q : ContractQuery) :
    fmt X q = copies TESTNET (if q.testnet then 1 else 0) ++ X.display q.consensus := by
  unfold fmt
  split
  · rw [copies_succ, copies_zero, List.append_nil]
  · rfl

/-- A query is read back. -/
theorem fromStr_fmt (hX : X.Lawful) (q : ContractQuery) : fromStr X (fmt X q) = .ok q :=
  fromStr_eq_ok.2 ⟨_, _, fmt_eq q, hX.plain _, hX.fromStr_display _, by cases q.testnet <;> simp⟩

/-- **There and back**: a query is read back from its text, and a string that is read is the text of what it is read as
exactly if the prefix is there once at most and the consensus is written as it is displayed. -/
theorem query_roundTrip (hX : X.Lawful) : (∀ q, fromStr X (fmt X q) = .ok q) ∧ ∀ s q, fromStr X s = .ok q →
    (fmt X q = s ↔ ¬TESTNET ++ TESTNET <+: s ∧ trimStartMatches TESTNET s = X.display q.consensus) := by
  refine ⟨fromStr_fmt hX, fun s q h => ?_⟩
  obtain ⟨k, t, rfl, ht, hc, htest⟩ := fromStr_eq_ok.1 h
  have htrim : trimStartMatches TESTNET (copies TESTNET k ++ t) = t := (trimStartMatches_iff (by decide)).2 ⟨ht, k, rfl⟩
  have htwice : TESTNET ++ TESTNET <+: copies TESTNET k ++ t ↔ 1 < k := by
    cases k with
    | zero =>
      refine iff_of_false (fun hp => ht ?_) (by omega)
      exact (List.prefix_append TESTNET TESTNET).trans hp
    | succ k =>
      rw [copies_succ, List.append_assoc, List.prefix_append_right_inj, prefix_copies ht]
      omega
  rw [htrim, htwice, fmt_eq]
  constructor
  · intro h
    obtain ⟨rfl, rfl⟩ := copies_inj (hX.plain q.consensus) ht h
    refine ⟨?_, rfl⟩
    split <;> omega
  · rintro ⟨hk, rfl⟩
    have hone : (if q.testnet then 1 else 0) = k := by
      split
      · rename_i hq
        have hpos := htest.1 hq
        omega
      · rename_i hq
        have hzero := mt htest.2 hq
        omega
    rw [hone]

end ContractQuery

/-! ## The texts of the networks -/

/-- A consensus is displayed by its name. -/
def refQueryTexts : QueryTexts where
  display
    | .none => "none".toList
    | .bitcoin => "bitcoin".toList
    | .liquid => "liquid".toList
    | .prime => "prime".toList
  fromStr s :=
    if s = "none".toList then .ok .none
    else if s = "bitcoin".toList then .ok .bitcoin
    else if s = "liquid".toList then .ok .liquid
    else if s = "prime".toList then .ok .prime
    else .error s

theorem refQueryTexts_lawful : refQueryTexts.Lawful where
  fromStr_display c := by cases c <;> rfl
  plain c := by cases c <;> decide

/-- A query of a test network is printed with one prefix, however many it was read from. -/
theorem query_roundTrip_twice :
    ContractQuery.fromStr refQueryTexts "testnet@testnet@bitcoin".toList = .ok ⟨.bitcoin, true⟩ ∧
      ContractQuery.fmt refQueryTexts ⟨.bitcoin, true⟩ ≠ "testnet@testnet@bitcoin".toList := by
  have h : ContractQuery.fromStr refQueryTexts "testnet@testnet@bitcoin".toList = .ok ⟨.bitcoin, true⟩ := by decide
  refine ⟨h, fun he => ?_⟩
  have htwice := (((ContractQuery.query_roundTrip refQueryTexts_lawful).2 _ _ h).1 he).1
  exact htwice (by decide)

end RgbStd
