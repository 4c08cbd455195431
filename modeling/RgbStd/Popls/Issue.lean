import RgbStd.Lib.Encode
import RgbStd.Popls.Bp
/-!
# Issuing from a wallet (popls/bp.rs:120-165, 395-403)

| here | there |
| --- | --- |
| `OutpointParams`        | `CreateParams<Outpoint>` |
| `EitherSeal.transform`, `OutpointParams.transform` | bp.rs:121, 133 |
| `RgbWallet.issue`       | bp.rs:395 |
| `IssueCore`             | what these take from the crates `hypersonic` and `bp` |

`Issued` is the contract that comes out, `Stockpile.Issues` what a storage does about it.
-/
namespace RgbStd
open Tables Decode

/-- The bytes of codex ids and of the consensus enum, and `WTxoSeal::no_fallback`. -/
structure IssueCore (H : Hypersonic) (B : BpCore) where
  codexBytes : H.CodexId → Bytes
  consensusByte : Consensus → UInt8
  noFallback : Outpoint → Bytes → UInt64 → WTxoSeal B.Noise

@[reducible] def refIssueCore : IssueCore refSonic refBp where
  codexBytes n := [UInt8.ofNat n]
  consensusByte
    | .none => 0
    | .bitcoin => 16
    | .liquid => 17
    | .prime => 32
  noFallback outpoint engine nonce := ⟨.other outpoint, .noise ⟨.other outpoint, engine, nonce⟩⟩

/-- `CreateParams<Outpoint>` (contract.rs:232). -/
structure OutpointParams (H : Hypersonic) where
  issuer : H.IssuerSpec
  consensus : Consensus
  testnet : Bool
  method : MethodName
  name : TypeName
  timestamp : Option Int
  global : List (NamedState H.StateAtom)
  owned : List (NamedState (Assignment (EitherSeal Outpoint) H.StrictVal))

section
variable {H : Hypersonic} {B : BpCore} (I : IssueCore H B)

/-- `EitherSeal::<Outpoint>::transform` (bp.rs:121). -/
def EitherSeal.transform (noiseEngine : Bytes) (nonce : UInt64) : EitherSeal Outpoint → EitherSeal (WTxoSeal B.Noise)
  | .alt seal_ => .alt (I.noFallback seal_ noiseEngine nonce)
  | .token auth => .token auth

/-- `i64::to_le_bytes`. -/
def encodeI64 (n : Int) : Bytes := Decoder.encodeU64 (UInt64.ofInt n)

namespace OutpointParams

/-- What the engine of the outputs is fed, besides the seed. -/
def fed (params : OutpointParams H) : Bytes :=
  I.codexBytes (H.specCodex params.issuer) ++ [I.consensusByte params.consensus] ++ params.method.toUTF8.data.toList ++
    params.name.toUTF8.data.toList ++ encodeI64 (params.timestamp.getD 0)

/-- `CreateParams::<Outpoint>::transform` (bp.rs:133). -/
def transform (params : OutpointParams H) (noiseEngine : Bytes) : CreateParams H B.txoSeal :=
  let noiseEngine := noiseEngine ++ params.fed I
  { issuer := params.issuer
    consensus := params.consensus
    testnet := params.testnet
    method := params.method
    name := params.name
    timestamp := params.timestamp
    global := params.global
    owned := params.owned.zipIdx.map fun (assignment, nonce) =>
      ⟨assignment.name, ⟨assignment.state.seal_.transform I noiseEngine (UInt64.ofNat nonce), assignment.state.data⟩⟩ }

end OutpointParams

/-- `RgbWallet::issue` (bp.rs:395). -/
def RgbWallet.issue {W : Wire H B.txoSeal} {V : Verifier H B.txoSeal} {P : Stockpile W V} (w : RgbWallet P)
    (params : OutpointParams H) :
    Res (MultiError (IssuerError H.CodexId) H.StockError P.PileError) ContractId × RgbWallet P :=
  match w.contracts.issue (params.transform I w.noiseEngine) with
  | (r, contracts) => (r, { w with contracts })

end

/-! ## The contract issued -/

namespace Contract

variable {H : Hypersonic} {S : RgbSeal}

/-- The contract of the articles, with the explicit seals in a new pile. -/
structure Issued (issuer : H.Issuer) (params : CreateParams H S) (c : Contract H S) : Prop where
  ledger : H.new (H.issue issuer (issueParams params)) = .ok c.ledger
  contractId : c.contractId = H.ledgerId c.ledger
  seals : ∃ seals, SmallMap.ofEntries (explicitSeals params) = some seals ∧
    PileFs.new.addSeals (H.genesisOpid (H.articles c.ledger)) seals.entries = some c.pile

theorem issue_issued {PileError σ : Type} {issuer : H.Issuer} {params : CreateParams H S} {store store' : σ}
    {conf : σ → H.Articles → Except H.StockError Unit × σ} {c : Contract H S}
    (h : issue issuer params store conf (.ok .new : Except PileError (PileFs S)) = (.ok c, store')) :
    Issued issuer params c := by
  obtain ⟨_, hn, hid, pile, seals, hpile, hs, hp⟩ := issue_makes h
  cases hpile
  exact ⟨hn, hid, seals, hs, hp⟩

end Contract

/-- A storage issues contracts as `Contract::issue` does, and serves the others as before. -/
structure Stockpile.Issues {H : Hypersonic} {S : RgbSeal} {W : Wire H S} {V : Verifier H S} (P : Stockpile W V) :
    Prop where
  issued : ∀ st p c st', P.issue st p = (.ok c, st') → ∃ issuer, Contract.Issued issuer p c
  served : ∀ st p r st' id, P.issue st p = (r, st') → (∀ c, r = .ok c → id ≠ c.contractId) →
    P.contract st' id = P.contract st id

namespace StockpileDir

variable {H : Hypersonic} {S : RgbSeal}

theorem store_contract (d : StockpileDir H S) (articles : H.Articles) (c : Contract H S)
    (h : c.contractId = H.articlesId articles) {id : ContractId} (hid : id ≠ c.contractId) :
    (d.store articles c h).contract id = d.contract id := by
  have hne : ∀ name, (name, id) ≠ folder articles := fun name he => hid ((congrArg Prod.snd he).trans h.symm)
  simp only [contract, store, get_upsert_ne _ _ hid, get_upsert_ne _ _ (hne _)]
  rfl

end StockpileDir

theorem stockpileDir_issues {H : Hypersonic} {S : RgbSeal} (W : Wire H S) (V : Verifier H S)
    (stockIo : IoError → H.StockError) (hN : ∀ a l, H.new a = .ok l → H.ledgerId l = H.articlesId a) :
    (stockpileDir W V stockIo hN).Issues where
  issued d p c d' h := by
    have h' : d.issue stockIo hN p = (.ok c, d') := h
    unfold StockpileDir.issue at h'
    split at h'
    · cases h'
    · rename_i issuer _
      dsimp only at h'
      split at h'
      · cases h'
      · rename_i c₁ d₁ hi
        cases h'
        exact ⟨issuer, Contract.issue_issued hi⟩
  served d p r d' id h hid := by
    have h' : d.issue stockIo hN p = (r, d') := h
    show d'.contract id = d.contract id
    unfold StockpileDir.issue at h'
    split at h'
    · cases h'
      rfl
    · rename_i issuer _
      dsimp only at h'
      split at h'
      · rename_i hi
        cases h'
        exact StockpileDir.issue_contract stockIo hi id
      · rename_i c₁ d₁ hi
        cases h'
        exact (StockpileDir.store_contract _ _ _ _ (hid c₁ rfl)).trans (StockpileDir.issue_contract stockIo hi id)

end RgbStd
