import RgbStd.Stockpile.Files
/-!
# What a failed import or issue leaves (stockpile.rs:103-116, 173-211)

The folder of a contract is made first. The ledger, the pile and the evaluation of the operations come
after it, and none of them takes it away again.

* `NoTrace`: the folders and the known contracts are as before.
* `opened_trace`: a folder which was made is a trace.
* `failed_noTrace_iff`: a call that returns an error leaves none if and only if it made no folder.
-/
namespace RgbStd
open Tables Names

namespace StockpileFiles

variable {H : Hypersonic} {S : RgbSeal} {T : Texts H} {W : Wire H S}

/-- The folders and the map are the same, and the same imports are refused as existing. -/
structure NoTrace (T : Texts H) (d d' : StockpileFiles H S) : Prop where
  contracts : d'.contracts = d.contracts
  folders : ∀ f, IsDir d'.dir f ↔ IsDir d.dir f
  existing : ∀ articles, (d'.dir.find (articlesDir T articles)).isSome = (d.dir.find (articlesDir T articles)).isSome

theorem noTrace_self (d : StockpileFiles H S) : NoTrace T d d := ⟨rfl, fun _ => Iff.rfl, fun _ => rfl⟩

theorem opened_trace {d : StockpileFiles H S} {path : FileName} (h : d.dir.find path = none) :
    ¬NoTrace T d (d.opened path) := by
  intro hn
  have hdir : IsDir (d.opened path).dir path := (isDir_write _ _ _ _).2 (by simp)
  obtain ⟨e, he, -⟩ := (hn.folders path).1 hdir
  rw [h] at he
  cases he

/-- **A failed import or issue** leaves no trace if and only if it did not come to making a folder. -/
theorem failed_noTrace_iff (T : Texts H) (V : Verifier H S) (stockIo : FileError → H.StockError)
    (d d' : StockpileFiles H S) (articles : H.Articles) (consignment : W.Consignment) (params : CreateParams H S) :
    (∀ e, d.importContract T W V articles consignment = (.error (.err e), d') →
      (NoTrace T d d' ↔ ¬Creatable T d articles)) ∧
    ∀ e, d.issue T stockIo params = (.error (.err e), d') →
      (NoTrace T d d' ↔ ¬∃ schema, Issuable T d params schema) := by
  constructor
  · intro e h
    rcases importContract_cases (T := T) V d articles consignment with ⟨hc, e', he⟩ | ⟨hc, ⟨e', he⟩ | ⟨c, -, he⟩⟩ <;>
      rw [h] at he <;> cases he
    · exact iff_of_true (noTrace_self d) hc
    · exact iff_of_false (opened_trace hc.free) (not_not.2 hc)
  · intro e h
    rcases issue_cases (T := T) stockIo d params with
      ⟨hc, e', he⟩ | ⟨schema, hi, he | ⟨e', he⟩ | ⟨c, -, -, he⟩⟩ <;> rw [h] at he <;> cases he
    · exact iff_of_true (noTrace_self d) hc
    · exact iff_of_false (opened_trace hi.creatable.free) (not_not.2 ⟨schema, hi⟩)

end StockpileFiles

/-! ## An operation that does not verify -/

namespace Folders

/-- The genesis of `Stream` with the operations after it. -/
def consignment (ops : List (OperationSeals refSonic refSeal)) : refWire.Consignment :=
  ⟨⟨[], (), none, ⟨(), Stream.articles.codex, Stream.articles.genesis⟩, .empty, UInt32.ofNat ops.length⟩, ops⟩

/-- It spends an output of no operation. -/
def stray : OperationSeals refSonic refSeal := ⟨⟨Stream.id, 4, [⟨⟨77⟩, 0⟩], [("amount", ⟨1⟩, 100)]⟩, .empty, none⟩

def empty : StockpileFiles refSonic refSeal := .load refTexts .bitcoin true .empty

/-- The folder of the contract is there, with nothing in it. -/
def taken : StockpileFiles refSonic refSeal :=
  .load refTexts .bitcoin true (.write .empty (StockpileFiles.articlesDir refTexts Stream.articles) ⟨.dir, none, none⟩)

end Folders

/-- An import into a folder that is there is refused without a trace. -/
theorem noTrace_taken : StockpileFiles.NoTrace refTexts Folders.taken
    (Folders.taken.importContract refTexts refWire refVerifier Stream.articles (Folders.consignment [])).2 := by
  refine ((StockpileFiles.failed_noTrace_iff refTexts refVerifier (fun _ => ()) Folders.taken _ Stream.articles
    (Folders.consignment []) ⟨(0 : Nat), .bitcoin, true, "", "", none, [], []⟩).1 _ rfl).2 fun hc => ?_
  have hfree := hc.free
  cases hfree

/-- An import whose second operation does not verify leaves its folder behind. -/
theorem noTrace_unverified :
    ¬∀ (H : Hypersonic) (S : RgbSeal) (T : Texts H) (W : Wire H S) (V : Verifier H S), T.Lawful →
      ∀ (d d' : StockpileFiles H S) articles consignment e,
      d.importContract T W V articles consignment = (.error (.err e), d') → StockpileFiles.NoTrace T d d' := by
  intro h
  have hn := h refSonic refSeal refTexts refWire refVerifier refTexts_lawful Folders.empty _ Stream.articles
    (Folders.consignment [Folders.stray]) _ rfl
  have hsome := hn.existing Stream.articles
  revert hsome
  decide

end RgbStd
