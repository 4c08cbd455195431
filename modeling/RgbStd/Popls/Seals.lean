import RgbStd.Popls.Issue
import RgbStd.Popls.Outputs
import RgbStd.Popls.Performs
/-!
# Registered seals and committed outputs

A contract's operations commit to the tokens of their outputs; the pile keeps seals under the addresses of
the outputs. `issue` and `prefab` number the two separately.

* `Advances`: what `prefab` leaves of a contract; `performs_advances` takes it through any calls.
* `issue_served`, `Issued.seal_iff`: the contract that `issue` puts in place.
* `run_seals`: no call leaves a seal whose token is not that of its output, and the seal of each output
  given by one is kept.
-/
namespace RgbStd
open Tables Decode

/-- A ledger made of issued articles has a genesis with the tokens it was issued with, of no more outputs
than an operation may have. -/
structure Hypersonic.GenesisLaws (H : Hypersonic) : Prop where
  small : ∀ i p l, H.new (H.issue i p) = .ok l → p.core.owned.length ≤ 65535
  outs : ∀ i p l, H.new (H.issue i p) = .ok l →
    H.destructibleOut (H.operation l (H.genesisOpid (H.articles l))) = p.core.owned.map (·.state.auth)

theorem refSonic_genesisLaws : refSonic.GenesisLaws where
  small i p l h := by simpa using (refSonic_new_ok h).1
  outs i p l h := by
    rw [(refSonic_new_ok h).2]
    simp [RefLedger.operation, RefLedger.new, Function.comp_def]

namespace Contract

variable {H : Hypersonic} {S : RgbSeal}

/-- The ledger has an operation whose output at the address has the token of the seal. -/
def Committed (c : Contract H S) (a : CellAddr) (s : S.Definition) : Prop :=
  H.Has c.ledger a.opid ∧ (H.destructibleOut (H.operation c.ledger a.opid))[a.pos.toNat]? = some (S.authToken s)

/-- No seal is lost, what is committed stays committed, and so are the new seals. -/
structure Advances (c c' : Contract H S) : Prop where
  kept : ∀ a s, c.pile.seal a = some s → c'.pile.seal a = some s
  committed : ∀ a s, c.Committed a s → c'.Committed a s
  added : ∀ a s, c'.pile.seal a = some s → c.pile.seal a = some s ∨ c'.Committed a s

theorem Advances.refl (c : Contract H S) : c.Advances c := ⟨fun _ _ h => h, fun _ _ h => h, fun _ _ h => Or.inl h⟩

theorem Advances.trans {c₁ c₂ c₃ : Contract H S} (h : c₁.Advances c₂) (h' : c₂.Advances c₃) : c₁.Advances c₃ where
  kept a s hs := h'.kept a s (h.kept a s hs)
  committed a s hc := h'.committed a s (h.committed a s hc)
  added a s hs := (h'.added a s hs).elim (fun hs => (h.added a s hs).imp_right (h'.committed a s)) Or.inr

/-- The seals of an issued contract are the explicit ones of its parameters, and committed. -/
theorem Issued.seal_iff (hG : H.GenesisLaws) {issuer : H.Issuer} {params : CreateParams H S} {c : Contract H S}
    (h : Issued issuer params c) : params.owned.length ≤ 65535 ∧
      (∀ a s, c.pile.seal a = some s ↔ a.opid = H.genesisOpid (H.articles c.ledger) ∧
        params.owned[a.pos.toNat]?.bind (·.state.seal_.toExplicit) = some s) ∧
      ∀ a s, c.pile.seal a = some s → c.Committed a s := by
  obtain ⟨seals, hs, hp⟩ := h.seals
  have hlen : params.owned.length ≤ 65535 := by simpa [issueParams] using hG.small _ _ _ h.ledger
  have hget : ∀ k, get seals.entries k = params.owned[k.toNat]?.bind (·.state.seal_.toExplicit) := by
    intro k
    have hentries : seals.entries = (explicitSeals params).foldl (fun t e => upsert t e.1 e.2) [] := by
      unfold SmallMap.ofEntries at hs
      dsimp only at hs
      split at hs <;> cases hs
      rfl
    have hnum : explicitSeals params = numbered (fun a _ => a.state.seal_.toExplicit) params.owned := rfl
    rw [hentries, hnum, get_foldl_upsert _ _ (nodup_numbered _ (by omega)), get_nil, Option.or_none,
      get_numbered _ (by omega)]
  have hseal : ∀ a s, c.pile.seal a = some s ↔ a.opid = H.genesisOpid (H.articles c.ledger) ∧
      params.owned[a.pos.toNat]?.bind (·.state.seal_.toExplicit) = some s := by
    intro a s
    rw [PileFs.addSeals_seal seals.nodup hp, hget]
    exact or_iff_right (by rintro ⟨⟩)
  refine ⟨hlen, hseal, fun a s hs => ?_⟩
  obtain ⟨ho, hg⟩ := (hseal a s).1 hs
  obtain ⟨out, hout, hs⟩ := Option.bind_eq_some_iff.1 hg
  refine ⟨Or.inr ho, ?_⟩
  rw [ho, hG.outs _ _ _ h.ledger]
  cases hseal : out.state.seal_ with
  | token auth => rw [hseal] at hs; cases hs
  | alt s' =>
    rw [hseal] at hs
    cases hs
    simp [issueParams, hout, hseal, EitherSeal.authToken]

end Contract

/-- An output given by an explicit seal. -/
structure Given (B : BpCore) where
  contractId : ContractId
  cell : Opid × Nat
  seal_ : WTxoSeal B.Noise

namespace RgbWallet

variable {H : Hypersonic} {B : BpCore} {W : Wire H B.txoSeal} {V : Verifier H B.txoSeal} {P : Stockpile W V}

theorem Recorded.advances {engine : Bytes} {request : OpRequest H (PrefabSeal B.Noise)} {op : H.Operation}
    {c c' : Contract H B.txoSeal} (h : Recorded engine request op c c') : c.Advances c' where
  kept a s hs := (h.seals a s).2 (Or.inl hs)
  committed a s hc := by
    obtain ⟨hhas, hop⟩ := h.keeps _ hc.1
    exact ⟨hhas, hop ▸ hc.2⟩
  added a s hs := by
    refine ((h.seals a s).1 hs).imp_right fun ⟨ho, hg⟩ => ?_
    obtain ⟨out, hout, hs⟩ := Option.bind_eq_some_iff.1 hg
    refine ⟨ho ▸ h.has, ?_⟩
    rw [ho, h.operation, h.outs, hout, Option.map_some, OpRequest.authAt_explicit hs]

/-- The outputs of an operation which its request gave by seals. -/
def given (w : RgbWallet P) (m : Made H B) : List (Given B) :=
  m.request.owned.zipIdx.filterMap fun (out, no) =>
    (OpRequest.explicitAt (w.contractEngine m.request.contractId) out no).map fun s =>
      ⟨m.request.contractId, (H.opid m.operation, no), s⟩

theorem given_congr {w w' : RgbWallet P} (hw : w'.wallet = w.wallet) : w'.given = w.given (P := P) := by
  funext m
  simp only [given, contractEngine_of_wallet hw]

/-- The outputs of an issued contract which the parameters gave by seals. -/
def givenIssue (w : RgbWallet P) (id : ContractId) (params : CreateParams H B.txoSeal) : List (Given B) :=
  match w.contracts.served id with
  | none => []
  | some c => params.owned.zipIdx.filterMap fun (out, no) =>
    out.state.seal_.toExplicit.map fun s => ⟨id, (H.genesisOpid (H.articles c.ledger), no), s⟩

/-- The output's seal is in the pile under its address, and the output has the token of the seal. -/
def Keeps (w : RgbWallet P) (g : Given B) : Prop :=
  ∃ c, w.contracts.served g.contractId = some c ∧ g.cell.2 ≤ 65535 ∧
    c.pile.seal ⟨g.cell.1, UInt16.ofNat g.cell.2⟩ = some g.seal_ ∧
    c.Committed ⟨g.cell.1, UInt16.ofNat g.cell.2⟩ g.seal_

/-- A seal in the pile of a contract which is not that of the output at its address. -/
def Unmatched (w : RgbWallet P) (id : ContractId) (a : CellAddr) (s : WTxoSeal B.Noise) : Prop :=
  ∃ c, w.contracts.served id = some c ∧ c.pile.seal a = some s ∧ ¬c.Committed a s

def Advances (w w' : RgbWallet P) : Prop :=
  ∀ id, Option.Rel Contract.Advances (w.contracts.served id) (w'.contracts.served id)

theorem Same.advances {w w' : RgbWallet P} (h : Same w w') : Advances w w' := by
  intro id
  rw [h.served]
  cases w.contracts.served id with
  | none => exact .none
  | some c => exact .some (Contract.Advances.refl c)

theorem Advances.trans {w₁ w₂ w₃ : RgbWallet P} (h : Advances w₁ w₂) (h' : Advances w₂ w₃) : Advances w₁ w₃ := by
  intro id
  rcases Runs.rel_cases (h id) with ⟨h₁, h₂⟩ | ⟨c₁, c₂, h₁, h₂, hc⟩
  · rcases Runs.rel_cases (h' id) with ⟨_, h₃⟩ | ⟨c₂', c₃, h₂', _, _⟩
    · rw [h₁, h₃]
      exact .none
    · rw [h₂] at h₂'
      cases h₂'
  · rcases Runs.rel_cases (h' id) with ⟨h₂', _⟩ | ⟨c₂', c₃, h₂', h₃, hc'⟩
    · rw [h₂] at h₂'
      cases h₂'
    · rw [h₂] at h₂'
      cases h₂'
      rw [h₁, h₃]
      exact .some (hc.trans hc')

theorem Keeps.advance {w w' : RgbWallet P} (h : Advances w w') {g : Given B} (hg : w.Keeps g) : w'.Keeps g := by
  obtain ⟨c, hc, hn, hs, ht⟩ := hg
  rcases Runs.rel_cases (h g.contractId) with ⟨h₁, _⟩ | ⟨c₁, c', h₁, h₂, hadv⟩
  · rw [hc] at h₁
    cases h₁
  · obtain rfl : c = c₁ := Option.some.inj (hc.symm.trans h₁)
    exact ⟨c', h₂, hn, hadv.kept _ _ hs, hadv.committed _ _ ht⟩

/-- A seal that does not match was there before, and did not match. -/
theorem Unmatched.before {w w' : RgbWallet P} (h : Advances w w') {id : ContractId} {a : CellAddr}
    {s : WTxoSeal B.Noise} (hu : w'.Unmatched id a s) : w.Unmatched id a s := by
  obtain ⟨c', hc', hs, ht⟩ := hu
  rcases Runs.rel_cases (h id) with ⟨_, h₂⟩ | ⟨c, c₁, h₁, h₂, hadv⟩
  · rw [hc'] at h₂
    cases h₂
  · obtain rfl : c' = c₁ := Option.some.inj (hc'.symm.trans h₂)
    exact ⟨c, h₁, (hadv.added a s hs).resolve_right ht, fun hc => ht (hadv.committed a s hc)⟩

/-- One operation. -/
theorem prefab_advances (hL : H.CallLaws) (hR : H.RecordLaws) {w w' : RgbWallet P}
    {request : OpRequest H (PrefabSeal B.Noise)} {p : Prefab H} (h : w.prefab request = (.ok p, w')) (blank : Bool) :
    Advances w w' ∧ ∀ g ∈ w.given ⟨request, blank, p.operation⟩, w'.Keeps g := by
  obtain ⟨_, c, c', hc, hafter, hrec⟩ := prefab_recorded hL hR h
  have hadv := hrec.advances
  refine ⟨fun id => ?_, fun g hg => ?_⟩
  · rw [hafter]
    split
    · rename_i hid
      rw [hid, hc]
      exact .some hadv
    · exact (Same.refl w).advances id
  · simp only [given, List.mem_filterMap, Prod.exists, List.mk_mem_zipIdx_iff_getElem?, Option.map_eq_some_iff] at hg
    obtain ⟨out, no, hout, s, hs, rfl⟩ := hg
    have hlt := (List.getElem?_eq_some_iff.1 hout).1
    have hsmall := hrec.small
    have hno : (UInt16.ofNat no).toNat = no := UInt16.toNat_ofNat_of_lt' (show no < 65536 by omega)
    refine ⟨c', by rw [hafter, if_pos rfl], by show no ≤ 65535; omega, ?_, hrec.has, ?_⟩
    · refine (hrec.seals _ s).2 (Or.inr ⟨rfl, ?_⟩)
      show request.owned[(UInt16.ofNat no).toNat]?.bind (OpRequest.explicitAt _ · (UInt16.ofNat no).toNat) = some s
      rw [hno, hout]
      exact hs
    · show (H.destructibleOut (H.operation c'.ledger (H.opid p.operation)))[(UInt16.ofNat no).toNat]? = some (B.authToken s)
      rw [hno, hrec.operation, hrec.outs, hout, Option.map_some, OpRequest.authAt_explicit hs]

/-- **Any number of operations.** -/
theorem performs_advances (hL : H.CallLaws) (hR : H.RecordLaws) {w w' : RgbWallet P} {made : List (Made H B)}
    (h : Performs w made w') : Advances w w' ∧ ∀ g ∈ made.flatMap w.given, w'.Keeps g := by
  induction h with
  | done w => exact ⟨(Same.refl w).advances, by simp⟩
  | reads hs _ ih =>
    rw [given_congr hs.wallet] at ih
    exact ⟨hs.advances.trans ih.1, ih.2⟩
  | @makes w w₁ _ _ request blank p hp _ ih =>
    obtain ⟨hadv, hgiven⟩ := prefab_advances hL hR hp blank
    obtain ⟨_, _, hcalls, _⟩ := prefab_ok hp
    rw [given_congr hcalls.wallet] at ih
    refine ⟨hadv.trans ih.1, fun g hg => ?_⟩
    rw [List.flatMap_cons, List.mem_append] at hg
    exact hg.elim (fun hg => Keeps.advance ih.1 (hgiven g hg)) (ih.2 g)

/-- Issuing puts the contract in place, and leaves the others. -/
theorem issue_served (hP : P.Issues) (I : IssueCore H B) {w w' : RgbWallet P} {params : OutpointParams H}
    {r : Res (MultiError (IssuerError H.CodexId) H.StockError P.PileError) ContractId}
    (h : w.issue I params = (r, w')) : w'.wallet = w.wallet ∧
      (∀ id, r ≠ .ok id → w'.contracts.served id = w.contracts.served id) ∧
      ∀ id, r = .ok id → ∃ issuer c, w'.contracts.served id = some c ∧
        Contract.Issued issuer (params.transform I w.noiseEngine) c := by
  have h' : r = (w.contracts.issue (params.transform I w.noiseEngine)).1 ∧
      w' = { w with contracts := (w.contracts.issue (params.transform I w.noiseEngine)).2 } := by
    obtain ⟨hr, hw⟩ := Prod.mk.inj h
    exact ⟨hr.symm, hw.symm⟩
  obtain ⟨rfl, rfl⟩ := h'
  refine ⟨rfl, ?_⟩
  dsimp only
  unfold Contracts.issue
  split
  · exact ⟨fun _ _ => rfl, by simp⟩
  · split
    · rename_i e st hi
      refine ⟨fun id _ => ?_, by simp⟩
      simp only [Contracts.served, hP.served _ _ _ _ id hi (by simp)]
    · rename_i c st hi
      refine ⟨fun id hid => ?_, fun id hid => ?_⟩
      · have hne : id ≠ c.contractId := fun he => hid (he ▸ rfl)
        have hst := hP.served _ _ _ _ id hi fun c' he => by
          cases he
          exact hne
        simp only [Contracts.served, get_upsert_ne _ _ hne, hst]
      · cases hid
        obtain ⟨issuer, hissued⟩ := hP.issued _ _ _ _ hi
        exact ⟨issuer, c, by simp [Contracts.served], hissued⟩

end RgbWallet

/-! ## Runs -/

inductive OwnerCall (H : Hypersonic) (B : BpCore) where
  | issue (params : OutpointParams H)
  | base (call : WalletCall H B)

/-- A wallet with the outputs that were given by seals. -/
structure Registry {H : Hypersonic} {B : BpCore} {W : Wire H B.txoSeal} {V : Verifier H B.txoSeal}
    (P : Stockpile W V) where
  wallet : RgbWallet P
  given : List (Given B)

namespace Registry

variable {H : Hypersonic} {B : BpCore} {W : Wire H B.txoSeal} {V : Verifier H B.txoSeal} {P : Stockpile W V}

/-- A call; a panic ends the run. A contract issued again has a new pile, so nothing is left of its outputs. -/
def step (I : IssueCore H B) (s : Registry P) : OwnerCall H B → Option (Registry P)
  | .issue params => match s.wallet.issue I params with
    | (.error .panic, _) => none
    | (.error (.err _), wallet) => some { s with wallet }
    | (.ok id, wallet) => some
      { wallet
        given := s.given.filter (·.contractId ≠ id) ++
          wallet.givenIssue id (params.transform I s.wallet.noiseEngine) }
  | .base call => (s.wallet.after call).map fun wallet =>
      { wallet, given := s.given ++ (s.wallet.makes call).flatMap s.wallet.given }

/-- All seals match but those that did not before the run, and every output given by a seal has it kept. -/
structure Inv (w : RgbWallet P) (s : Registry P) : Prop where
  matched : ∀ id a seal_, s.wallet.Unmatched id a seal_ → w.Unmatched id a seal_
  kept : ∀ g ∈ s.given, s.wallet.Keeps g

/-- The outputs of an issued contract are kept. -/
theorem keeps_givenIssue (hG : H.GenesisLaws) {w : RgbWallet P} {id : ContractId} {issuer : H.Issuer}
    {params : CreateParams H B.txoSeal} {c : Contract H B.txoSeal} (hc : w.contracts.served id = some c)
    (hi : Contract.Issued issuer params c) : ∀ g ∈ w.givenIssue id params, w.Keeps g := by
  obtain ⟨hsmall, hseal, hcommitted⟩ := hi.seal_iff hG
  intro g hg
  simp only [RgbWallet.givenIssue, hc, List.mem_filterMap, Prod.exists, List.mk_mem_zipIdx_iff_getElem?,
    Option.map_eq_some_iff] at hg
  obtain ⟨out, no, hout, s, hs, rfl⟩ := hg
  have hlt := (List.getElem?_eq_some_iff.1 hout).1
  have hno : (UInt16.ofNat no).toNat = no := UInt16.toNat_ofNat_of_lt' (show no < 65536 by omega)
  have hpile : c.pile.seal ⟨H.genesisOpid (H.articles c.ledger), UInt16.ofNat no⟩ = some s := by
    refine (hseal _ s).2 ⟨rfl, ?_⟩
    show params.owned[(UInt16.ofNat no).toNat]?.bind (·.state.seal_.toExplicit) = some s
    rw [hno, hout]
    exact hs
  exact ⟨c, hc, by show no ≤ 65535; omega, hpile, hcommitted _ _ hpile⟩

theorem issue_inv (hG : H.GenesisLaws) (hP : P.Issues) {I : IssueCore H B} {w : RgbWallet P} {s s' : Registry P}
    {params : OutpointParams H} (hI : Inv w s) (h : s.step I (.issue params) = some s') : Inv w s' := by
  simp only [step] at h
  -- a contract that was not issued is as it was
  have hother : ∀ {wallet : RgbWallet P} {id a seal_}, wallet.contracts.served id = s.wallet.contracts.served id →
      wallet.Unmatched id a seal_ → w.Unmatched id a seal_ := by
    rintro wallet id a seal_ he ⟨c, hc, hu⟩
    exact hI.matched id a seal_ ⟨c, he ▸ hc, hu⟩
  have hkeeps : ∀ {wallet : RgbWallet P} {g : Given B},
      wallet.contracts.served g.contractId = s.wallet.contracts.served g.contractId → s.wallet.Keeps g → wallet.Keeps g := by
    rintro wallet g he ⟨c, hc, hg⟩
    exact ⟨c, he ▸ hc, hg⟩
  split at h
  · cases h
  · rename_i e wallet hi
    cases h
    obtain ⟨_, hsame, _⟩ := RgbWallet.issue_served hP I hi
    exact ⟨fun id a seal_ => hother (hsame id (by simp)), fun g hg => hkeeps (hsame _ (by simp)) (hI.kept g hg)⟩
  · rename_i id wallet hi
    cases h
    obtain ⟨_, hsame, hnew⟩ := RgbWallet.issue_served hP I hi
    obtain ⟨issuer, c, hc, hissued⟩ := hnew id rfl
    have hne : ∀ {id'}, id' ≠ id → wallet.contracts.served id' = s.wallet.contracts.served id' :=
      fun hn => hsame _ fun he => hn (Except.ok.inj he).symm
    refine ⟨fun id' a seal_ hu => ?_, fun g hg => ?_⟩
    · by_cases hid : id' = id
      · obtain ⟨c', hc', hs, ht⟩ := hu
        rw [hid, hc] at hc'
        cases hc'
        exact absurd ((hissued.seal_iff hG).2.2 a seal_ hs) ht
      · exact hother (hne hid) hu
    · rcases List.mem_append.1 hg with hg | hg
      · obtain ⟨hg, hid⟩ := List.mem_filter.1 hg
        exact hkeeps (hne (by simpa using hid)) (hI.kept g hg)
      · exact keeps_givenIssue hG hc hissued g hg

theorem step_inv (hL : H.CallLaws) (hR : H.RecordLaws) (hG : H.GenesisLaws) (hP : P.Issues) {I : IssueCore H B}
    {w : RgbWallet P} {s s' : Registry P} {call : OwnerCall H B} (hI : Inv w s) (h : s.step I call = some s') :
    Inv w s' := by
  cases call with
  | issue params => exact issue_inv hG hP hI h
  | base call =>
    obtain ⟨wallet, hw, rfl⟩ := Option.map_eq_some_iff.1 h
    obtain ⟨hadv, hgiven⟩ := RgbWallet.performs_advances hL hR (RgbWallet.after_performs hL hw)
    refine ⟨fun id a seal_ hu => hI.matched id a seal_ (hu.before hadv), fun g hg => ?_⟩
    exact (List.mem_append.1 hg).elim (fun hg => (hI.kept g hg).advance hadv) (hgiven g)

/-- **Registered seals match committed outputs** in every state of a run of `issue`, `prefab` and `bundle`: a
seal whose token is not that of the output at its address was in the pile before the run, and did not
match; and each output given by a seal has it in the pile, and its token. -/
theorem run_seals (hL : H.CallLaws) (hR : H.RecordLaws) (hG : H.GenesisLaws) (hP : P.Issues) (I : IssueCore H B)
    (w : RgbWallet P) (calls : List (OwnerCall H B)) (states : List (Registry P))
    (h : Runs.run (step I) ⟨w, []⟩ calls = some states) : ∀ s ∈ states,
      (∀ id a seal_, s.wallet.Unmatched id a seal_ → w.Unmatched id a seal_) ∧ ∀ g ∈ s.given, s.wallet.Keeps g := by
  have hinv : ∀ s ∈ states, Inv w s := by
    refine Runs.run_inv (C := fun _ _ => True) ?_ calls ⟨w, []⟩ states ?_ (Runs.along_true _ _) h
    · exact fun s call s' hI _ hs => step_inv hL hR hG hP hI hs
    · exact ⟨fun _ _ _ hu => hu, by simp⟩
  exact fun s hs => ⟨(hinv s hs).matched, (hinv s hs).kept⟩

end Registry

namespace Purse

/-- The wallet with an issuer for contract 5. -/
def issuing : RgbWallet dir where
  wallet := ⟨Vector.replicate 32 1⟩
  contracts := .load (.load .bitcoin true [(5, (5, ⟨id 5, id 9, ⟨id 5, 0, [], []⟩, "", .bitcoin, true⟩))] folders
    folders_named)

/-- An output with a seal, one with a token only, and another with a seal. -/
def issuance : OutpointParams refSonic where
  issuer := 5
  consensus := .bitcoin
  testnet := true
  method := "issue"
  name := "Bond"
  timestamp := none
  global := []
  owned := [⟨"amount", ⟨.alt first, 30⟩⟩, ⟨"amount", ⟨.token ⟨9⟩, 20⟩⟩, ⟨"amount", ⟨.alt second, 10⟩⟩]

end Purse

/-- A contract is issued, and outputs on both sides of the one without a seal are spent. -/
theorem run_seals_issued : ∃ states, Runs.run (Registry.step refIssueCore) ⟨Purse.issuing, []⟩
      [.issue Purse.issuance, .base (.prefab (Purse.spend 5 [(0, Purse.first), (2, Purse.second)] 40 1))] = some states ∧
    ∀ s ∈ states, ∀ g ∈ s.given, s.wallet.Keeps g := by
  obtain ⟨states, h⟩ : ∃ states, Runs.run (Registry.step refIssueCore) ⟨Purse.issuing, []⟩
      [.issue Purse.issuance, .base (.prefab (Purse.spend 5 [(0, Purse.first), (2, Purse.second)] 40 1))] = some states :=
    ⟨_, rfl⟩
  refine ⟨states, h, fun s hs => ?_⟩
  exact (Registry.run_seals refSonic_callLaws refSonic_recordLaws refSonic_genesisLaws (stockpileDir_issues _ _ _ _) _ _ _ _
    h s hs).2

end RgbStd
