import RgbStd.Popls.Include
import RgbStd.Popls.Outputs
/-!
# The operations of a bundle and their messages (popls/bp.rs:593, 654-669, 757-788)

A transaction input carries one message for each contract, the id of the operation that closes the output. The
requests of a bundle may be of one contract; nothing compares the outputs they close.

* `get_messages`: the messages of an operation are its id, for the inputs it closes.
* `prefabs_opids`: the operations of a contract have different ids.
* `bundle_alike`, `bundle_shared`: the operations a bundle has of one contract.
-/
namespace RgbStd
open Tables Decode

/-- An operation which spends something is new: what it spends was not spent before. -/
structure Hypersonic.FreshLaws (H : Hypersonic) : Prop where
  fresh : ∀ l p o l', H.call l p = (.ok o, l') → p.using_ ≠ [] → ¬H.Has l o

theorem refSonic_freshLaws : refSonic.FreshLaws where
  fresh _ _ _ _ h _ hhas := (refSonic_call_new h).2.1 (refSonic_has.1 hhas)

namespace PrefabBundle

variable {H : Hypersonic} {B : BpCore}

/-- No two operations of a contract close the same output. -/
def OneMessage (b : PrefabBundle H) : Prop :=
  ∀ p ∈ b.prefabs, ∀ q ∈ b.prefabs, p.operation ≠ q.operation → H.contractId p.operation = H.contractId q.operation →
    ∀ o ∈ p.closes.elems, o ∉ q.closes.elems

/-- What the map has after the inputs closed were written to it. -/
theorem get_messages_from {A : AnchorCore B} {prevouts : List Outpoint} {opid : Opid} {closes : List Outpoint}
    {map : Table UInt32 Opid} : ∀ {map₀ : Table UInt32 Opid}, closes.foldlM (fun map prevout =>
      if prevout ∈ prevouts then .ok (upsert map (UInt32.ofNat (prevouts.idxOf prevout)) opid)
      else (.error (.missingPrevout prevout) : Except (IncludeError A) (Table UInt32 Opid))) map₀ = .ok map →
    (∀ k x, get map₀ k = some x → x = opid) → (∀ o ∈ closes, o ∈ prevouts) ∧
      ∀ k x, get map k = some x ↔
        get map₀ k = some x ∨ (x = opid ∧ ∃ o ∈ closes, k = UInt32.ofNat (prevouts.idxOf o)) := by
  induction closes with
  | nil =>
    intro map₀ h _
    cases h
    simp
  | cons o closes ih =>
    intro map₀ h h₀
    obtain ⟨map₁, h₁, h⟩ := except_bind_eq_ok.1 h
    dsimp only at h₁
    split at h₁
    · rename_i ho
      cases h₁
      have hget₁ : ∀ k x, get (upsert map₀ (UInt32.ofNat (prevouts.idxOf o)) opid) k = some x ↔
          get map₀ k = some x ∨ (x = opid ∧ k = UInt32.ofNat (prevouts.idxOf o)) := by
        intro k x
        rw [get_upsert]
        split
        · rename_i hk
          rw [Option.some.injEq, eq_comm, and_iff_left hk]
          exact (or_iff_right_of_imp (h₀ k x)).symm
        · rename_i hk
          simp [hk]
      obtain ⟨hin, hget⟩ := ih h fun k x hx => ((hget₁ k x).1 hx).elim (h₀ k x) And.left
      refine ⟨List.forall_mem_cons.2 ⟨ho, hin⟩, fun k x => ?_⟩
      rw [hget, hget₁, or_assoc, ← and_or_left]
      simp
    · cases h₁

/-- The messages are the operation id, for the inputs closed. -/
theorem get_messages {A : AnchorCore B} {prevouts : List Outpoint} {opid : Opid} {closes : List Outpoint}
    {map : Table UInt32 Opid} (h : messages (A := A) prevouts opid closes = .ok map) :
    (∀ o ∈ closes, o ∈ prevouts) ∧ ∀ k x, get map k = some x ↔
      x = opid ∧ ∃ o ∈ closes, k = UInt32.ofNat (prevouts.idxOf o) := by
  obtain ⟨hin, hget⟩ := get_messages_from h (by simp)
  exact ⟨hin, fun k x => (hget k x).trans (by simp)⟩

end PrefabBundle

namespace RgbWallet

variable {H : Hypersonic} {B : BpCore} {W : Wire H B.txoSeal} {V : Verifier H B.txoSeal} {P : Stockpile W V}

/-- The contract has the operation. -/
def Has (w : RgbWallet P) (id : ContractId) (o : Opid) : Prop := ∃ c, w.contracts.served id = some c ∧ H.Has c.ledger o

/-- A prefab is a new operation, if it spends something, beside those there were. -/
theorem prefab_has (hL : H.CallLaws) (hR : H.RecordLaws) (hF : H.FreshLaws) {w w' : RgbWallet P}
    {request : OpRequest H (PrefabSeal B.Noise)} {p : Prefab H} (h : w.prefab request = (.ok p, w')) :
    (request.using_ ≠ [] → ¬w.Has request.contractId (H.opid p.operation)) ∧
      w'.Has request.contractId (H.opid p.operation) ∧ ∀ id o, w.Has id o → w'.Has id o := by
  obtain ⟨_, c, c', hc, hafter, hrec⟩ := prefab_recorded hL hR h
  refine ⟨fun hne => ?_, ⟨c', by rw [hafter, if_pos rfl], hrec.has⟩, fun id o hhas => ?_⟩
  · rintro ⟨c₁, hc₁, hhas⟩
    obtain rfl : c = c₁ := Option.some.inj (hc.symm.trans hc₁)
    obtain ⟨c₂, d, hcalls, hop, -⟩ := prefab_ok h
    obtain rfl : c = c₂ := Option.some.inj (hc.symm.trans hcalls.served)
    obtain ⟨o, ledger, hl, hop, -⟩ := Contract.call_ok hop
    have hopid : H.opid p.operation = o := by rw [hop]; exact hR.opid _ _ _ _ hl
    refine hF.fresh _ _ _ _ hl (fun hnil => ?_) (hopid ▸ hhas)
    obtain ⟨used, hused⟩ := List.exists_mem_of_ne_nil _ hne
    have hkey := ((OpRequest.draft_ok hcalls.draft).2.1 used.addr).2 (List.mem_map_of_mem hused)
    rw [hnil] at hkey
    cases hkey
  · obtain ⟨c₁, hc₁, hhas⟩ := hhas
    by_cases he : id = request.contractId
    · obtain rfl : c = c₁ := by rw [he, hc] at hc₁; exact Option.some.inj hc₁
      exact ⟨c', by rw [hafter, if_pos he], (hrec.keeps o hhas).1⟩
    · exact ⟨c₁, by rw [hafter, if_neg he, hc₁], hhas⟩

/-- **The operations of a contract** have different ids, but for those that spend nothing. -/
theorem prefabs_opids (hL : H.CallLaws) (hR : H.RecordLaws) (hF : H.FreshLaws)
    {requests : List (OpRequest H (PrefabSeal B.Noise))} : ∀ {w w' : RgbWallet P} {ps : List (Prefab H)},
      w.prefabs requests = (.ok ps, w') →
      (∀ e ∈ requests.zip ps, e.1.using_ ≠ [] → ¬w.Has e.1.contractId (H.opid e.2.operation)) ∧
        (requests.zip ps).Pairwise fun e e' => e.1.contractId = e'.1.contractId → e'.1.using_ ≠ [] →
          H.opid e.2.operation ≠ H.opid e'.2.operation := by
  induction requests with
  | nil =>
    intro w w' ps _
    exact ⟨by simp, List.Pairwise.nil⟩
  | cons request requests ih =>
    intro w w' ps h
    obtain ⟨p, w₁, ps', hp, hps, rfl⟩ := prefabs_cons_ok h
    obtain ⟨hnew, hhas, hkeeps⟩ := prefab_has hL hR hF hp
    obtain ⟨hfresh, hpair⟩ := ih hps
    rw [List.zip_cons_cons]
    refine ⟨List.forall_mem_cons.2 ⟨hnew, fun e he hne hw => hfresh e he hne (hkeeps _ _ hw)⟩, ?_⟩
    refine List.pairwise_cons.2 ⟨fun e he hid hne heq => hfresh e he hne ?_, hpair⟩
    have hid' : request.contractId = e.1.contractId := hid
    have heq' : H.opid p.operation = H.opid e.2.operation := heq
    rwa [← hid', ← heq']

theorem fits_get {requests : List (OpRequest H (PrefabSeal B.Noise))} {ps : List (Prefab H)}
    (h : List.Forall₂ Fits requests ps) {p : Prefab H} (hp : p ∈ ps) :
    ∃ i, ∃ hr : i < requests.length, ∃ hi : i < ps.length, p = ps[i] ∧ Fits requests[i] p := by
  obtain ⟨i, hi, rfl⟩ := List.mem_iff_getElem.1 hp
  have hr : i < requests.length := h.length_eq ▸ hi
  exact ⟨i, hr, hi, rfl, h.get hr hi⟩

/-- One blank of a contract. -/
theorem Blanks.nodup {w : RgbWallet P} {change : Option UInt32} {contracts ids : List ContractId}
    {outpoints : List Outpoint} {blanks : List (OpRequest H (PrefabSeal B.Noise))}
    (h : Blanks w change contracts outpoints ids blanks) (hids : ids.Nodup) : (blanks.map (·.contractId)).Nodup := by
  rw [h.eq, RgbWallet.blanks]
  refine (map_filterMap_sublist (fun id q hq => ?_) ids).nodup hids
  split at hq
  · cases hq
  · obtain ⟨c, -, hq⟩ := Option.bind_eq_some_iff.1 hq
    cases hr : blankRequest (w.contractEngine id) change outpoints id (H.articles c.ledger) c.state with
    | error e =>
      rw [hr] at hq
      cases hq
    | ok r =>
      rw [hr] at hq
      obtain rfl : r = some q := hq
      rcases blankRequest_ok hr with ⟨-, hn⟩ | ⟨q', hq', -, hid, -⟩
      · cases hn
      · cases hq'
        exact hid

/-- What uses nothing closes nothing. -/
theorem Fits.closes_eq_nil_iff {request : OpRequest H (PrefabSeal B.Noise)} {p : Prefab H} (h : Fits request p) :
    p.closes.elems = [] ↔ request.using_ = [] := by
  simp only [List.eq_nil_iff_forall_not_mem, h.closes, List.mem_map, not_exists, not_and]
  exact ⟨fun hn used hused => hn used.outpoint used hused rfl, fun hn _ used hused => absurd hused (hn used)⟩

end RgbWallet

namespace OpRequest

variable {H : Hypersonic} {T : Type}

/-- A request that has its contract in common with another one uses nothing. -/
def Alone (requests : List (OpRequest H T)) : Prop :=
  requests.Pairwise fun r r' => r.contractId = r'.contractId → r.using_ = [] ∧ r'.using_ = []

/-- Requests that use something are of one contract each. -/
theorem alone_iff_nodup {requests : List (OpRequest H T)} (huse : ∀ r ∈ requests, r.using_ ≠ []) :
    Alone requests ↔ (requests.map (·.contractId)).Nodup := by
  rw [List.nodup_iff_pairwise_ne, List.pairwise_map]
  refine List.Pairwise.iff_of_mem fun hr _ => ⟨fun h hid => ?_, fun hne hid => absurd hid hne⟩
  exact huse _ hr (h hid).1

end OpRequest

namespace RgbWallet

variable {H : Hypersonic} {B : BpCore} {W : Wire H B.txoSeal} {V : Verifier H B.txoSeal} {P : Stockpile W V}
  {w w' : RgbWallet P} {requests : List (OpRequest H (PrefabSeal B.Noise))} {change : Option UInt32}
  {b : PrefabBundle H}

/-- Two operations of a contract close nothing, if the requests that share it use nothing: blanks are of other
contracts, one of each. -/
theorem bundle_alike (hL : H.CallLaws) (hO : w.OwnIds) (hN : w.contracts.contractIds.Nodup)
    (h : w.bundle requests change = (.ok b, w')) (halone : OpRequest.Alone requests) {p q : Prefab H}
    (hp : p ∈ b.prefabs) (hq : q ∈ b.prefabs) (hid : H.contractId p.operation = H.contractId q.operation) :
    p = q ∨ p.closes.elems = [] ∧ q.closes.elems = [] := by
  obtain ⟨ps, blanks, bs, w₁, -, hfits, hbfits, hb, -, hblanks⟩ := bundle_ok hL hO h
  have hall : OpRequest.Alone (requests ++ blanks) := by
    have hone := List.pairwise_map.1 (List.nodup_iff_pairwise_ne.1 (hblanks.nodup hN))
    refine List.pairwise_append.2 ⟨halone, hone.imp fun hne hid => absurd hid hne, fun r hr blank hblank hid => ?_⟩
    exact absurd (List.mem_map.2 ⟨r, hr, hid⟩) (hblanks.mem hblank).1
  have hfit := List.rel_append hfits hbfits
  obtain ⟨i, hir, hi, rfl, hfitp⟩ := fits_get hfit ((PrefabBundle.mem_tryFrom hb).1 p hp)
  obtain ⟨j, hjr, hj, rfl, hfitq⟩ := fits_get hfit ((PrefabBundle.mem_tryFrom hb).1 q hq)
  rw [hfitp.contractId, hfitq.contractId] at hid
  rcases Nat.lt_trichotomy i j with hij | rfl | hij
  · obtain ⟨hr, hr'⟩ := List.pairwise_iff_getElem.1 hall i j hir hjr hij hid
    exact Or.inr ⟨hfitp.closes_eq_nil_iff.2 hr, hfitq.closes_eq_nil_iff.2 hr'⟩
  · exact Or.inl rfl
  · obtain ⟨hr', hr⟩ := List.pairwise_iff_getElem.1 hall j i hjr hir hij hid.symm
    exact Or.inr ⟨hfitp.closes_eq_nil_iff.2 hr, hfitq.closes_eq_nil_iff.2 hr'⟩

/-- Two requests of a contract, of which one uses something: the bundle has an operation of each, and they are
different if both close something. -/
theorem bundle_shared (hL : H.CallLaws) (hR : H.RecordLaws) (hF : H.FreshLaws) (hO : w.OwnIds)
    (h : w.bundle requests change = (.ok b, w')) (hshared : ¬OpRequest.Alone requests) :
    ∃ p ∈ b.prefabs, ∃ q ∈ b.prefabs, H.contractId p.operation = H.contractId q.operation ∧ q.closes.elems ≠ [] ∧
      (p.closes.elems ≠ [] → H.opid p.operation ≠ H.opid q.operation) := by
  obtain ⟨ps, blanks, bs, w₁, hps, hfits, -, hb, -, -⟩ := bundle_ok hL hO h
  obtain ⟨i, j, hij, hj, hid, huse⟩ : ∃ i j, ∃ hij : i < j, ∃ hj : j < requests.length,
      requests[i].contractId = requests[j].contractId ∧ (requests[i].using_ = [] → requests[j].using_ ≠ []) := by
    rw [OpRequest.Alone, List.pairwise_iff_getElem] at hshared
    push Not at hshared
    obtain ⟨i, j, hi, hj, hij, hid, huse⟩ := hshared
    exact ⟨i, j, hij, hj, hid, huse⟩
  have hi := hij.trans hj
  have hlen : ps.length = requests.length := hfits.length_eq.symm
  have hopids : requests[j].using_ ≠ [] → H.opid ps[i].operation ≠ H.opid ps[j].operation := by
    have hpair := List.pairwise_iff_getElem.1 (prefabs_opids hL hR hF hps).2 i j (by simp [hi, hlen])
      (by simp [hj, hlen]) hij
    simp only [List.getElem_zip] at hpair
    exact hpair hid
  -- the bundle has the operations, up to what the set merges
  have hhas : ∀ k (hk : k < requests.length), ∃ p ∈ b.prefabs, H.contractId p.operation = requests[k].contractId ∧
      H.opid p.operation = H.opid ps[k].operation ∧ (p.closes.elems = [] ↔ requests[k].using_ = []) := by
    intro k hk
    have hfit : Fits requests[k] ps[k] := hfits.get hk (hlen ▸ hk)
    obtain ⟨p, hp, hsame⟩ := (PrefabBundle.mem_tryFrom hb).2 ps[k] (List.mem_append_left _ (List.getElem_mem _))
    obtain ⟨hop, hcloses⟩ := Prefab.same_eq hsame
    refine ⟨p, hp, by rw [hop, hfit.contractId], by rw [hop], ?_⟩
    rw [← hfit.closes_eq_nil_iff]
    simp only [List.eq_nil_iff_forall_not_mem, hcloses]
  obtain ⟨p, hp, hpid, hpo, hpc⟩ := hhas i hi
  obtain ⟨q, hq, hqid, hqo, hqc⟩ := hhas j hj
  by_cases hnil : requests[j].using_ = []
  · refine ⟨q, hq, p, hp, by rw [hpid, hqid, hid], fun hp => huse (hpc.1 hp) hnil, fun hne => ?_⟩
    exact absurd (hqc.2 hnil) hne
  · refine ⟨p, hp, q, hq, by rw [hpid, hqid, hid], fun hq => hnil (hqc.1 hq), fun _ => ?_⟩
    rw [hpo, hqo]
    exact hopids hnil

end RgbWallet

namespace Purse

/-- Two payments of contract 3, from different outputs. -/
def apart : List (OpRequest refSonic (PrefabSeal RefNoise)) :=
  [spend 3 [(0, first), (1, first)] 100 1, spend 3 [(2, second)] 5 3]

/-- Two payments of contract 3 from the same output. -/
def together : List (OpRequest refSonic (PrefabSeal RefNoise)) := [spend 3 [(0, first)] 60 1, spend 3 [(1, first)] 40 3]

def togetherBundle : PrefabBundle refSonic := (wallet.bundle together (some 2)).1.toOption.get rfl

end Purse

end RgbStd
