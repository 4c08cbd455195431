import RgbStd.Contract.Export
import RgbStd.Contract.Foreign
import RgbStd.Lib.Names
import RgbStd.Lib.Numerals
/-!
# The dump of a consignment (cli/src/dump.rs:95-187)

The third reader of a consignment: it reads the issue as the in-memory one does and the operations as the streaming
one does, and writes a file for each thing it reads.

| here | there |
| --- | --- |
| `dumpName`         | `{:04}-{op,seals,witness}-{id}.{yaml,yml}` |
| `createNew`        | `File::create_new` |
| `dumpOperation`    | the body of the loop (dump.rs:159-178) |
| `dumpConsignment`  | from an opened file on (dump.rs:118-187) |
| `Sonix`            | `sonix::dump_articles`, and the texts of ids |

A YAML document is the value it was written from. The first `expect` of the seals is a panic.

* `dumpName_inj`: no two files of a dump have one name.
* `dumpConsignment_ok_iff`: into an empty directory a consignment is dumped exactly if the in-memory reader, without its
  limit, reads it.
* `dumpConsignment_streaming`: the files are those of the operations the streaming reader yields.
* `dumpConsignment_exported`: an exported contract is dumped in full.
-/
namespace RgbStd
open Tables Decode Names

/-! ## Names -/

inductive DumpKind where
  | op | seals | witness
deriving DecidableEq

namespace DumpKind

def word : DumpKind → FileName
  | op => "op".toList
  | seals => "seals".toList
  | witness => "witness".toList

def ext : DumpKind → FileName
  | op => "yaml".toList
  | seals => "yml".toList
  | witness => "yaml".toList

theorem dash_notMem_word (k : DumpKind) : '-' ∉ k.word := by cases k <;> decide

theorem word_inj {k k' : DumpKind} (h : k.word = k'.word) : k = k' := by
  revert h
  cases k <;> cases k' <;> decide

end DumpKind

/-- `{:04}` of a number. -/
def padded (n : Nat) : FileName := (Numerals.digits 10 4 n).map Nat.digitChar

theorem digitChar_inj {d d' : Nat} (hd : d < 10) (hd' : d' < 10) (h : d.digitChar = d'.digitChar) : d = d' := by
  have hnat := congrArg Char.toNat h
  rw [Nat.toNat_digitChar_of_lt_ten hd, Nat.toNat_digitChar_of_lt_ten hd'] at hnat
  omega

theorem digitChar_ne_dash {d : Nat} (hd : d < 10) : d.digitChar ≠ '-' := by
  intro h
  have hnat := congrArg Char.toNat h
  rw [Nat.toNat_digitChar_of_lt_ten hd, show '-'.toNat = 45 from rfl] at hnat
  omega

theorem dash_notMem_padded (n : Nat) : '-' ∉ padded n := by
  intro h
  obtain ⟨d, hd, he⟩ := List.mem_map.1 h
  exact digitChar_ne_dash (Numerals.lt_of_mem_digits (by decide) hd) he

theorem map_digitChar_inj : ∀ {ds ds' : List Nat}, (∀ d ∈ ds, d < 10) → (∀ d ∈ ds', d < 10) →
    ds.map Nat.digitChar = ds'.map Nat.digitChar → ds = ds'
  | [], [], _, _, _ => rfl
  | [], _ :: _, _, _, h => by cases h
  | _ :: _, [], _, _, h => by cases h
  | d :: ds, d' :: ds', hd, hd', h => by
    obtain ⟨h₁, h₂⟩ := List.cons.inj h
    obtain ⟨hd, hds⟩ := List.forall_mem_cons.1 hd
    obtain ⟨hd', hds'⟩ := List.forall_mem_cons.1 hd'
    rw [digitChar_inj hd hd' h₁, map_digitChar_inj hds hds' h₂]

theorem padded_inj {n n' : Nat} (h : padded n = padded n') : n = n' := by
  have hds := map_digitChar_inj (fun d hd => Numerals.lt_of_mem_digits (by decide) hd)
    (fun d hd => Numerals.lt_of_mem_digits (by decide) hd) h
  have hn : Numerals.value 10 (Numerals.digits 10 4 n) = n := Numerals.value_digits 4 n
  rw [← hn, hds, Numerals.value_digits]

/-- The name of a file of the dump. -/
def dumpName (no : Nat) (kind : DumpKind) (id : String) : FileName :=
  padded no ++ '-' :: (kind.word ++ '-' :: (id.toList ++ '.' :: kind.ext))

example : dumpName 7 .seals "op" = "0007-seals-op.yml".toList := by decide

/-- What is before the first separator, and what is behind it. -/
theorem split_inj {b b' c c' : FileName} (hb : '-' ∉ b) (hb' : '-' ∉ b') (h : b ++ '-' :: c = b' ++ '-' :: c') :
    b = b' ∧ c = c' := by
  have hs : splitFirst '-' (b ++ '-' :: c) = some (b, c) := splitFirst_eq_some.2 ⟨rfl, hb⟩
  have hs' : splitFirst '-' (b ++ '-' :: c) = some (b', c') := splitFirst_eq_some.2 ⟨h, hb'⟩
  exact Prod.mk.inj (Option.some.inj (hs.symm.trans hs'))

/-- **Names differ** in the number, the kind or the id. -/
theorem dumpName_inj {no no' : Nat} {kind kind' : DumpKind} {id id' : String}
    (h : dumpName no kind id = dumpName no' kind' id') : no = no' ∧ kind = kind' ∧ id = id' := by
  obtain ⟨hno, h⟩ := split_inj (dash_notMem_padded no) (dash_notMem_padded no') h
  obtain ⟨hkind, h⟩ := split_inj kind.dash_notMem_word kind'.dash_notMem_word h
  obtain rfl := DumpKind.word_inj hkind
  exact ⟨padded_inj hno, rfl, String.toList_injective (List.append_cancel_right h)⟩

/-! ## The dump -/

/-- What is in a file: the value a document was written from, or what another program wrote. -/
inductive Doc (H : Hypersonic) (S : RgbSeal) where
  | empty
  | operation (operation : H.Operation)
  | seals (definedSeals : SmallMap UInt16 S.Definition)
  | witness (witness : SealWitness S)
  | other (text : String)

abbrev DumpDir (H : Hypersonic) (S : RgbSeal) := UniqueMap FileName (Doc H S)

/-- `anyhow::Error`, by what it is made of. -/
inductive DumpError (H : Hypersonic) where
  | decode (e : DecodeError)
  | semantics (e : H.SemanticError)
  | alreadyExists (name : FileName)
  | articles
  | bail (msg : String)

/-- What is left of the stream, and the directory written to. -/
structure DumpState (H : Hypersonic) (S : RgbSeal) where
  stream : Bytes
  dir : DumpDir H S

/-- `sonix::dump_articles`, which returns the id of the genesis, and the texts of witness ids. -/
structure Sonix (H : Hypersonic) (S : RgbSeal) where
  dumpArticles : H.Articles → DumpDir H S → Except (DumpError H) Opid × DumpDir H S
  widText : S.WitnessId → String

/-- In an empty directory `dump_articles` writes its files, none of which has a name of the others. -/
structure Sonix.Laws {H : Hypersonic} {S : RgbSeal} (X : Sonix H S) : Prop where
  dumpArticles : ∀ articles, ∃ dir, X.dumpArticles articles .empty = (.ok (H.genesisOpid articles), dir) ∧
    ∀ no kind id, dir.find (dumpName no kind id) = none

/-- `bool::strict_decode`. -/
def boolD : Decoder DecodeError Bool := do
  let tag ← u8D
  if tag = 0 then return false
  else if tag = 1 then return true
  else .fail (.enumTagNotKnown tag)

abbrev Dump (H : Hypersonic) (S : RgbSeal) (α : Type) := EStateM (Halt (DumpError H)) (DumpState H S) α

namespace Dump

variable {H : Hypersonic} {S : RgbSeal} {α β : Type}

def strictDecode (d : Decoder DecodeError α) : Dump H S α := fun s => match d.run s.stream with
  | .ok (a, stream) => .ok a { s with stream }
  | .error e => .error (.err (.decode e)) s

/-- A read with `expect`. -/
def expectDecode (d : Decoder DecodeError α) : Dump H S α := fun s => match d.run s.stream with
  | .ok (a, stream) => .ok a { s with stream }
  | .error _ => .error .panic s

def createNew (name : FileName) : Dump H S Unit := fun s => match s.dir.find name with
  | some _ => .error (.err (.alreadyExists name)) s
  | none => .ok () { s with dir := s.dir.write name .empty }

/-- `serde_yaml::to_writer`, into a file that has been created. -/
def toWriter (name : FileName) (doc : Doc H S) : Dump H S Unit := fun s =>
  .ok () { s with dir := s.dir.write name doc }

def attempt (r : Except (DumpError H) α) : Dump H S α := fun s => match r with
  | .ok a => .ok a s
  | .error e => .error (.err e) s

def articles (X : Sonix H S) (articles : H.Articles) : Dump H S Opid := fun s =>
  match X.dumpArticles articles s.dir with
  | (.ok opid, dir) => .ok opid { s with dir }
  | (.error e, dir) => .error (.err e) { s with dir }

end Dump

namespace Wire

variable {H : Hypersonic} {S : RgbSeal} (W : Wire H S) (X : Sonix H S)

/-- Up to the issue (dump.rs:127-135). -/
def dumpHead : Decoder DecodeError (W.Head × W.Genesis) := do
  let _ ← extensions
  let semantics ← W.semantics
  let sig ← optionD W.sigBlob
  W.reserved 0
  let contractMeta ← W.contractMeta
  let codex ← W.codex
  let genesis ← W.genesis
  return ({ semantics, sig, contractMeta, codex }, genesis)

open Dump

/-- One operation (dump.rs:159-178). -/
def dumpOperation (opCount : Nat) : Dump H S Unit := do
  let operation ← strictDecode W.operation
  let opid := W.opidText (H.opid operation)
  createNew (dumpName opCount .op opid)
  toWriter (dumpName opCount .op opid) (.operation operation)
  createNew (dumpName opCount .seals opid)
  let definedSeals ← expectDecode W.seals
  toWriter (dumpName opCount .seals opid) (.seals definedSeals)
  match ← strictDecode boolD with
  | false => return ()
  | true =>
    let witness ← strictDecode W.sealWitness
    let wid := X.widText (S.pubId witness.published)
    createNew (dumpName opCount .witness wid)
    toWriter (dumpName opCount .witness wid) (.witness witness)

def dumpOperations : Nat → Nat → Dump H S Unit
  | _, 0 => return ()
  | opCount, n + 1 => do
    W.dumpOperation X opCount
    dumpOperations (opCount + 1) n

/-- `dump_consignment` of a file that has been opened, to a directory that has been made (dump.rs:118-187). -/
def dumpConsignment : Dump H S Unit := do
  let _ ← strictDecode W.parseConsignment
  let (hd, genesis) ← strictDecode W.dumpHead
  let articles ← attempt ((W.articlesWith hd.semantics ⟨hd.contractMeta, hd.codex, genesis⟩ hd.sig
    fun _ _ _ => true).mapError .semantics)
  let genesisOpid ← Dump.articles X articles
  let name := dumpName 0 .seals (W.opidText genesisOpid)
  createNew name
  let definedSeals ← expectDecode W.seals
  toWriter name (.seals definedSeals)
  match ← strictDecode boolD with
  | true => throw (.err (.bail "Consignment stream has true witnesses for genesis, but zero witnesses are expected"))
  | false =>
    let count ← strictDecode u32D
    W.dumpOperations X 1 count.toNat

end Wire

/-! ## One step -/

/-- A flag, and the value it announces. -/
theorem optionD_eq_ok {α : Type} {d : Decoder DecodeError α} {bs rest : Bytes} {o : Option α} :
    (optionD d).run bs = .ok (o, rest) ↔ (boolD.run bs = .ok (false, rest) ∧ o = none) ∨
      ∃ mid a, boolD.run bs = .ok (true, mid) ∧ d.run mid = .ok (a, rest) ∧ o = some a := by
  cases bs with
  | nil => simp [optionD, boolD, u8D, Decoder.option, Decoder.run_bind, Decoder.byte]
  | cons b bs =>
    simp only [optionD, boolD, u8D, Decoder.option, Decoder.run_bind, Decoder.byte]
    by_cases h0 : b = 0
    · simp [h0, eq_comm, and_comm]
    · by_cases h1 : b = 1
      · simp only [h1]
        show (d >>= fun a => pure (some a)).run bs = .ok (o, rest) ↔ _
        rw [Decoder.bind_eq_ok]
        constructor
        · rintro ⟨a, mid, ha, hp⟩
          obtain ⟨rfl, rfl⟩ := Decoder.pure_eq_ok.1 hp
          exact Or.inr ⟨bs, a, rfl, ha, rfl⟩
        · rintro (⟨hf, -⟩ | ⟨mid, a, ht, ha, rfl⟩)
          · cases hf
          · cases ht
            exact ⟨a, rest, ha, rfl⟩
      · simp [h0, h1]

namespace Dump

variable {H : Hypersonic} {S : RgbSeal} {α β : Type} {s s' : DumpState H S} {b : β}

theorem bind_eq_ok {x : Dump H S α} {f : α → Dump H S β} :
    (x >>= f) s = .ok b s' ↔ ∃ a s₁, x s = .ok a s₁ ∧ f a s₁ = .ok b s' := by
  show EStateM.bind x f s = _ ↔ _
  unfold EStateM.bind
  cases x s with
  | ok a s₁ => simp
  | error e s₁ => simp

/-- A read leaves the directory alone. -/
theorem strictDecode_eq_ok {d : Decoder DecodeError α} {a : α} :
    strictDecode d s = .ok a s' ↔ ∃ rest, d.run s.stream = .ok (a, rest) ∧ s' = ⟨rest, s.dir⟩ := by
  unfold strictDecode
  cases d.run s.stream with
  | error e => simp
  | ok p => obtain ⟨a', stream⟩ := p; simp [eq_comm]

/-- It succeeds where the other one does. -/
theorem expectDecode_eq_ok {d : Decoder DecodeError α} {a : α} :
    expectDecode d s = .ok a s' ↔ strictDecode d s = .ok a s' := by
  unfold expectDecode strictDecode
  cases d.run s.stream <;> simp

theorem createNew_eq_ok {name : FileName} {u : Unit} :
    createNew name s = .ok u s' ↔ s.dir.find name = none ∧ s' = ⟨s.stream, s.dir.write name .empty⟩ := by
  unfold createNew
  cases s.dir.find name with
  | none => simp [eq_comm]
  | some doc => simp

theorem strictDecode_bind {d : Decoder DecodeError α} {k : α → Dump H S β} :
    (strictDecode d >>= k) s = .ok b s' ↔ ∃ a rest, d.run s.stream = .ok (a, rest) ∧ k a ⟨rest, s.dir⟩ = .ok b s' := by
  simp only [bind_eq_ok, strictDecode_eq_ok]
  constructor
  · rintro ⟨a, _, ⟨rest, h, rfl⟩, hk⟩
    exact ⟨a, rest, h, hk⟩
  · rintro ⟨a, rest, h, hk⟩
    exact ⟨a, _, ⟨rest, h, rfl⟩, hk⟩

theorem attempt_bind {r : Except (DumpError H) α} {k : α → Dump H S β} :
    (attempt r >>= k) s = .ok b s' ↔ ∃ a, r = .ok a ∧ k a s = .ok b s' := by
  rw [bind_eq_ok]
  cases r with
  | error e => simp [attempt]
  | ok a => simp [attempt]

/-- A file is created and written. -/
theorem file_bind {name : FileName} {doc : Doc H S} {k : Dump H S β} :
    (do createNew name; toWriter name doc; k) s = .ok b s' ↔
      s.dir.find name = none ∧ k ⟨s.stream, s.dir.write name doc⟩ = .ok b s' := by
  simp only [bind_eq_ok, createNew_eq_ok]
  constructor
  · rintro ⟨_, _, ⟨h, rfl⟩, _, _, hw, hk⟩
    cases hw
    exact ⟨h, UniqueMap.write_write s.dir name _ doc ▸ hk⟩
  · rintro ⟨h, hk⟩
    exact ⟨(), _, ⟨h, rfl⟩, (), _, rfl, (UniqueMap.write_write s.dir name .empty doc).symm ▸ hk⟩

theorem file_eq_ok {name : FileName} {doc : Doc H S} {u : Unit} :
    (do createNew name; toWriter name doc) s = .ok u s' ↔
      s.dir.find name = none ∧ s' = ⟨s.stream, s.dir.write name doc⟩ := by
  simp only [bind_eq_ok, createNew_eq_ok]
  constructor
  · rintro ⟨_, _, ⟨h, rfl⟩, hw⟩
    cases hw
    exact ⟨h, by rw [UniqueMap.write_write]⟩
  · rintro ⟨h, rfl⟩
    exact ⟨(), _, ⟨h, rfl⟩, by simp only [toWriter, UniqueMap.write_write]⟩

/-- A file is created, and written once its contents have been read. -/
theorem readFile_bind {name : FileName} {d : Decoder DecodeError α} {doc : α → Doc H S} {k : Dump H S β} :
    (do createNew name; let a ← expectDecode d; toWriter name (doc a); k) s = .ok b s' ↔ s.dir.find name = none ∧
      ∃ a rest, d.run s.stream = .ok (a, rest) ∧ k ⟨rest, s.dir.write name (doc a)⟩ = .ok b s' := by
  simp only [bind_eq_ok, createNew_eq_ok, expectDecode_eq_ok, strictDecode_eq_ok]
  constructor
  · rintro ⟨_, _, ⟨h, rfl⟩, a, _, ⟨rest, ha, rfl⟩, _, _, hw, hk⟩
    cases hw
    exact ⟨h, a, rest, ha, UniqueMap.write_write s.dir name _ (doc a) ▸ hk⟩
  · rintro ⟨h, a, rest, ha, hk⟩
    exact ⟨(), _, ⟨h, rfl⟩, a, _, ⟨rest, ha, rfl⟩, (), _, rfl,
      (UniqueMap.write_write s.dir name .empty (doc a)).symm ▸ hk⟩

theorem articles_bind {X : Sonix H S} (hX : X.Laws) {a : H.Articles} {stream : Bytes} {k : Opid → Dump H S β} :
    (articles X a >>= k) ⟨stream, .empty⟩ = .ok b s' ↔
      k (H.genesisOpid a) ⟨stream, (X.dumpArticles a .empty).2⟩ = .ok b s' := by
  obtain ⟨dir, hdir, -⟩ := hX.dumpArticles a
  rw [bind_eq_ok]
  simp [articles, hdir]

/-- Documents, written one after the other. -/
def writeDocs (dir : DumpDir H S) (docs : Table FileName (Doc H S)) : DumpDir H S :=
  docs.foldl (fun dir e => dir.write e.1 e.2) dir

theorem writeDocs_append (dir : DumpDir H S) (docs docs' : Table FileName (Doc H S)) :
    writeDocs dir (docs ++ docs') = writeDocs (writeDocs dir docs) docs' := List.foldl_append ..

theorem find_writeDocs_of_notMem {docs : Table FileName (Doc H S)} : ∀ {dir : DumpDir H S} {f : FileName},
    f ∉ keys docs → (writeDocs dir docs).find f = dir.find f := by
  induction docs with
  | nil => exact fun _ => rfl
  | cons e docs ih =>
    intro dir f hf
    have hne : f ≠ e.1 := fun h => hf (h ▸ List.mem_cons_self)
    have hmore : f ∉ keys docs := fun h => hf (List.mem_cons_of_mem _ h)
    show (writeDocs (dir.write e.1 e.2) docs).find f = _
    rw [ih hmore, UniqueMap.find_write, if_neg hne]

/-- Under different names all of them are there. -/
theorem find_writeDocs {docs : Table FileName (Doc H S)} : ∀ {dir : DumpDir H S}, (keys docs).Nodup → ∀ f,
    (writeDocs dir docs).find f = (get docs f).or (dir.find f) := by
  induction docs with
  | nil => exact fun _ _ => rfl
  | cons e docs ih =>
    intro dir hnodup f
    obtain ⟨hnew, hnodup⟩ := List.nodup_cons.1 hnodup
    show (writeDocs (dir.write e.1 e.2) docs).find f = _
    rw [ih hnodup, UniqueMap.find_write, get_cons]
    by_cases hf : f = e.1
    · subst hf
      simp [get_none_of_notMem hnew]
    · simp [hf]

end Dump

namespace Wire

variable {H : Hypersonic} {S : RgbSeal} (W : Wire H S) (X : Sonix H S)

/-- The files of one operation. -/
def blockDocs (opCount : Nat) (b : OperationSeals H S) : Table FileName (Doc H S) :=
  (dumpName opCount .op (W.opidText (H.opid b.operation)), .operation b.operation) ::
    (dumpName opCount .seals (W.opidText (H.opid b.operation)), .seals b.definedSeals) ::
    (b.witness.map fun w => (dumpName opCount .witness (X.widText (S.pubId w.published)), Doc.witness w)).toList

/-- The files of operations numbered from one on. -/
def docsFrom : Nat → List (OperationSeals H S) → Table FileName (Doc H S)
  | _, [] => []
  | opCount, b :: ops => W.blockDocs X opCount b ++ docsFrom (opCount + 1) ops

/-- All files of a dump, but for those of the articles. -/
def docs (genesisOpid : Opid) (genesisSeals : SmallMap UInt16 S.Definition) (ops : List (OperationSeals H S)) :
    Table FileName (Doc H S) :=
  (dumpName 0 .seals (W.opidText genesisOpid), .seals genesisSeals) :: W.docsFrom X 1 ops

variable {W X}

theorem mem_keys_blockDocs {opCount : Nat} {b : OperationSeals H S} {f : FileName}
    (h : f ∈ keys (W.blockDocs X opCount b)) : ∃ kind id, f = dumpName opCount kind id := by
  obtain ⟨e, he, rfl⟩ := List.mem_map.1 h
  simp only [blockDocs, List.mem_cons, Option.mem_toList, Option.map_eq_some_iff] at he
  rcases he with rfl | rfl | ⟨w, -, rfl⟩
  · exact ⟨_, _, rfl⟩
  · exact ⟨_, _, rfl⟩
  · exact ⟨_, _, rfl⟩

theorem mem_keys_docsFrom {ops : List (OperationSeals H S)} : ∀ {opCount : Nat} {f : FileName},
    f ∈ keys (W.docsFrom X opCount ops) → ∃ no kind id, opCount ≤ no ∧ f = dumpName no kind id := by
  induction ops with
  | nil => exact fun h => (by cases h)
  | cons b ops ih =>
    intro opCount f h
    simp only [docsFrom, keys, List.map_append, List.mem_append] at h
    rcases h with h | h
    · obtain ⟨kind, id, rfl⟩ := mem_keys_blockDocs h
      exact ⟨opCount, kind, id, Nat.le_refl _, rfl⟩
    · obtain ⟨no, kind, id, hno, rfl⟩ := ih h
      exact ⟨no, kind, id, Nat.le_of_succ_le hno, rfl⟩

/-- The kinds differ within an operation. -/
theorem nodup_blockDocs (opCount : Nat) (b : OperationSeals H S) : (keys (W.blockDocs X opCount b)).Nodup := by
  have hne {kind kind' : DumpKind} {id id' : String} (h : kind ≠ kind') :
      dumpName opCount kind id ≠ dumpName opCount kind' id' := fun he => h (dumpName_inj he).2.1
  cases hw : b.witness with
  | none => simp [blockDocs, keys, hw, hne]
  | some w => simp [blockDocs, keys, hw, hne]

/-- The numbers differ between operations. -/
theorem nodup_docsFrom (ops : List (OperationSeals H S)) : ∀ opCount, (keys (W.docsFrom X opCount ops)).Nodup := by
  induction ops with
  | nil => exact fun _ => List.nodup_nil
  | cons b ops ih =>
    intro opCount
    rw [docsFrom, keys, List.map_append]
    refine (nodup_blockDocs opCount b).append (ih (opCount + 1)) fun f h h' => ?_
    obtain ⟨kind, id, rfl⟩ := mem_keys_blockDocs h
    obtain ⟨no, kind', id', hno, he⟩ := mem_keys_docsFrom h'
    have heq := (dumpName_inj he).1
    omega

theorem nodup_docs (genesisOpid : Opid) (genesisSeals : SmallMap UInt16 S.Definition)
    (ops : List (OperationSeals H S)) : (keys (W.docs X genesisOpid genesisSeals ops)).Nodup := by
  refine List.nodup_cons.2 ⟨fun h => ?_, nodup_docsFrom ops 1⟩
  obtain ⟨no, kind, id, hno, he⟩ := mem_keys_docsFrom h
  have heq := (dumpName_inj he).1
  omega

/-- No file has a name with the number or one after it. -/
def Clear (opCount : Nat) (dir : DumpDir H S) : Prop :=
  ∀ no kind id, opCount ≤ no → dir.find (dumpName no kind id) = none

open Dump

theorem Clear.block {opCount : Nat} {dir : DumpDir H S} (h : Clear opCount dir) (b : OperationSeals H S) :
    Clear (opCount + 1) (writeDocs dir (W.blockDocs X opCount b)) := by
  intro no kind id hno
  rw [find_writeDocs_of_notMem, h no kind id (Nat.le_of_succ_le hno)]
  intro hm
  obtain ⟨kind', id', he⟩ := mem_keys_blockDocs hm
  have heq := (dumpName_inj he).1
  omega

/-- A file is new after those of the operation with another kind. -/
theorem find_write_kind {opCount : Nat} {dir : DumpDir H S} {kind kind' : DumpKind} {id id' : String} {doc : Doc H S}
    (h : dir.find (dumpName opCount kind' id') = none) (hne : kind' ≠ kind) :
    (dir.write (dumpName opCount kind id) doc).find (dumpName opCount kind' id') = none := by
  rw [UniqueMap.find_write, if_neg fun he => hne (dumpName_inj he).2.1, h]

/-- **An operation is dumped** exactly if the streaming reader reads it. -/
theorem dumpOperation_eq_ok {opCount : Nat} {s s' : DumpState H S} {u : Unit} (hclear : Clear opCount s.dir) :
    W.dumpOperation X opCount s = .ok u s' ↔ ∃ b rest, W.operationSeals.run s.stream = .ok (b, rest) ∧
      s' = ⟨rest, writeDocs s.dir (W.blockDocs X opCount b)⟩ := by
  have hfind (kind : DumpKind) (id : String) : s.dir.find (dumpName opCount kind id) = none :=
    hclear _ _ _ (Nat.le_refl _)
  simp only [dumpOperation, strictDecode_bind, file_bind, readFile_bind]
  constructor
  · rintro ⟨operation, r₁, hop, -, -, definedSeals, r₂, hseals, flag, r₃, hflag, h⟩
    cases flag with
    | false =>
      cases h
      exact ⟨⟨operation, definedSeals, none⟩, r₃, operationSeals_eq_ok.2
        ⟨r₁, r₂, hop, hseals, optionD_eq_ok.2 (.inl ⟨hflag, rfl⟩)⟩, rfl⟩
    | true =>
      simp only [strictDecode_bind, file_eq_ok] at h
      obtain ⟨witness, rest, hwitness, -, rfl⟩ := h
      exact ⟨⟨operation, definedSeals, some witness⟩, rest, operationSeals_eq_ok.2
        ⟨r₁, r₂, hop, hseals, optionD_eq_ok.2 (.inr ⟨r₃, witness, hflag, hwitness, rfl⟩)⟩, rfl⟩
  · rintro ⟨⟨operation, definedSeals, witness⟩, rest, hb, rfl⟩
    obtain ⟨r₁, r₂, hop, hseals, hwitness⟩ := operationSeals_eq_ok.1 hb
    have hsealsNew : (s.dir.write (dumpName opCount .op (W.opidText (H.opid operation))) (.operation operation)).find
        (dumpName opCount .seals (W.opidText (H.opid operation))) = none := find_write_kind (hfind _ _) (by decide)
    refine ⟨operation, r₁, hop, hfind _ _, hsealsNew, definedSeals, r₂, hseals, ?_⟩
    obtain ⟨hflag, rfl⟩ | ⟨r₃, w, hflag, hw, rfl⟩ := optionD_eq_ok.1 hwitness
    · exact ⟨false, rest, hflag, rfl⟩
    · refine ⟨true, r₃, hflag, ?_⟩
      simp only [strictDecode_bind, file_eq_ok]
      exact ⟨w, rest, hw, find_write_kind (find_write_kind (hfind _ _) (by decide)) (by decide), rfl⟩

/-- **So are all of them**, into files numbered from the first on. -/
theorem dumpOperations_eq_ok {n : Nat} : ∀ {opCount : Nat} {s s' : DumpState H S} {u : Unit}, Clear opCount s.dir →
    (W.dumpOperations X opCount n s = .ok u s' ↔ ∃ ops rest, (W.operationSeals.times n).run s.stream = .ok (ops, rest) ∧
      s' = ⟨rest, writeDocs s.dir (W.docsFrom X opCount ops)⟩) := by
  induction n with
  | zero =>
    intro opCount s s' u _
    simp only [dumpOperations, Decoder.times_zero_eq_ok]
    constructor
    · intro h
      cases h
      exact ⟨[], s.stream, ⟨rfl, rfl⟩, rfl⟩
    · rintro ⟨_, _, ⟨rfl, rfl⟩, rfl⟩
      rfl
  | succ n ih =>
    intro opCount s s' u hclear
    simp only [dumpOperations, bind_eq_ok, dumpOperation_eq_ok hclear, Decoder.times_succ_eq_ok]
    constructor
    · rintro ⟨_, _, ⟨b, mid, hb, rfl⟩, h⟩
      obtain ⟨ops, rest, hops, rfl⟩ := (ih (hclear.block b)).1 h
      exact ⟨_, rest, ⟨b, mid, ops, hb, hops, rfl⟩, by rw [docsFrom, writeDocs_append]⟩
    · rintro ⟨_, rest, ⟨b, mid, ops, hb, hops, rfl⟩, rfl⟩
      refine ⟨(), _, ⟨b, mid, hb, rfl⟩, (ih (hclear.block b)).2 ⟨ops, rest, hops, ?_⟩⟩
      rw [docsFrom, writeDocs_append]

/-! ## The whole dump -/

variable (W) in
/-- A consignment in memory, of any number of operations. -/
def consignmentAnyCount : Decoder DecodeError W.Consignment := do
  let header ← W.consignmentHeader
  let operationSeals ← W.operationSeals.times header.opCount.toNat
  return { header, operationSeals }

/-- The in-memory reader limits the number. -/
theorem consignment_eq_ok {bs rest : Bytes} {c : W.Consignment} : W.consignment.run bs = .ok (c, rest) ↔
    W.consignmentAnyCount.run bs = .ok (c, rest) ∧ c.header.opCount ≤ MAX_CONSIGNMENT_OPS := by
  simp only [consignment, consignmentAnyCount, Decoder.bind_eq_ok, Decoder.pure_eq_ok]
  constructor
  · rintro ⟨hd, r, hhd, h⟩
    split at h
    · cases h
    · rename_i hle
      obtain ⟨ops, r', hops, hp⟩ := Decoder.bind_eq_ok.1 h
      obtain ⟨rfl, rfl⟩ := Decoder.pure_eq_ok.1 hp
      exact ⟨⟨hd, r, hhd, ops, _, hops, rfl, rfl⟩, UInt32.not_lt.1 hle⟩
  · rintro ⟨⟨hd, r, hhd, ops, _, hops, rfl, rfl⟩, hle⟩
    refine ⟨hd, r, hhd, ?_⟩
    rw [if_neg (UInt32.not_lt.2 hle)]
    exact Decoder.bind_eq_ok.2 ⟨ops, rest, hops, rfl⟩

/-- The flag of a genesis without witness is the reserved byte. -/
theorem boolD_eq_false {bs rest : Bytes} :
    boolD.run bs = .ok (false, rest) ↔ (W.reserved 0).run bs = .ok ((), rest) := by
  cases bs with
  | nil => simp [boolD, u8D, reserved, Decoder.reserved, Decoder.run_bind, Decoder.byte]
  | cons b bs =>
    rw [show (W.reserved 0).run (b :: bs) = .ok ((), rest) ↔ b :: bs = 0 :: rest from Decoder.reserved_eq_ok]
    simp only [boolD, u8D, Decoder.run_bind, Decoder.byte]
    by_cases h0 : b = 0
    · simp [h0]
    · by_cases h1 : b = 1
      · simp [h1]
      · simp [h0, h1]

theorem dumpHead_of_header {bs rest : Bytes} {hd : W.ConsignmentHeader}
    (h : W.consignmentHeader.run bs = .ok (hd, rest)) : ∃ r r₁ r₂, W.dumpHead.run bs =
        .ok ((⟨hd.semantics, hd.sig, hd.issue.contractMeta, hd.issue.codex⟩, hd.issue.genesis), r) ∧
      W.seals.run r = .ok (hd.genesisSeals, r₁) ∧ boolD.run r₁ = .ok (false, r₂) ∧
      u32D.run r₂ = .ok (hd.opCount, rest) := by
  simp only [consignmentHeader, Decoder.bind_eq_ok, Decoder.pure_eq_ok] at h
  obtain ⟨ext, q₀, he, sem, q₁, hs, sig, q₂, hg, u, q₃, hv, mt, q₄, hm, cx, q₅, hc, g, q₆, hgen, seals, q₇, hse, u', q₈,
    hw, n, q₉, hn, rfl, rfl⟩ := h
  refine ⟨q₆, q₇, q₈, ?_, hse, boolD_eq_false.2 hw, hn⟩
  simp only [dumpHead, Decoder.bind_eq_ok, Decoder.pure_eq_ok]
  exact ⟨ext, q₀, he, sem, q₁, hs, sig, q₂, hg, u, q₃, hv, mt, q₄, hm, cx, q₅, hc, g, q₆, hgen, rfl, rfl⟩

theorem header_of_dumpHead {bs r r₁ r₂ rest : Bytes} {h₀ : W.Head} {g : W.Genesis}
    {seals : SmallMap UInt16 S.Definition} {n : UInt32} (h : W.dumpHead.run bs = .ok ((h₀, g), r))
    (hse : W.seals.run r = .ok (seals, r₁))
    (hw : boolD.run r₁ = .ok (false, r₂)) (hn : u32D.run r₂ = .ok (n, rest)) :
    ∃ ext, W.consignmentHeader.run bs =
      .ok (⟨ext, h₀.semantics, h₀.sig, ⟨h₀.contractMeta, h₀.codex, g⟩, seals, n⟩, rest) := by
  simp only [dumpHead, Decoder.bind_eq_ok, Decoder.pure_eq_ok] at h
  obtain ⟨ext, q₀, he, sem, q₁, hs, sig, q₂, hg, u, q₃, hv, mt, q₄, hm, cx, q₅, hc, g', q₆, hgen, hp, rfl⟩ := h
  cases hp
  refine ⟨ext, ?_⟩
  simp only [consignmentHeader, Decoder.bind_eq_ok, Decoder.pure_eq_ok]
  exact ⟨ext, q₀, he, sem, q₁, hs, sig, q₂, hg, u, q₃, hv, mt, q₄, hm, cx, q₅, hc, g, _, hgen, seals, r₁, hse, (), r₂,
    boolD_eq_false.1 hw, n, rest, hn, rfl, rfl⟩

/-- **What is dumped**, into an empty directory: a consignment as the in-memory reader reads it, but of any length. -/
theorem dumpConsignment_eq_ok (hX : X.Laws) {bs : Bytes} {s' : DumpState H S} {u : Unit} :
    W.dumpConsignment X ⟨bs, .empty⟩ = .ok u s' ↔ ∃ id body c articles rest,
      W.parseConsignment.run bs = .ok (id, body) ∧ W.consignmentAnyCount.run body = .ok (c, rest) ∧
      c.articles (fun _ _ _ => true) = .ok articles ∧ s' = ⟨rest, writeDocs (X.dumpArticles articles .empty).2
        (W.docs X (H.genesisOpid articles) c.header.genesisSeals c.operationSeals)⟩ := by
  simp only [dumpConsignment, strictDecode_bind, attempt_bind, articles_bind hX, readFile_bind, mapError_eq_ok]
  have hclear (a : H.Articles) : Clear 0 (X.dumpArticles a .empty).2 := by
    obtain ⟨dir, hdir, hfind⟩ := hX.dumpArticles a
    rw [hdir]
    exact fun no kind id _ => hfind no kind id
  have hfirst (a : H.Articles) (seals : SmallMap UInt16 S.Definition) : Clear 1 ((X.dumpArticles a .empty).2.write
      (dumpName 0 .seals (W.opidText (H.genesisOpid a))) (.seals seals)) := by
    intro no kind id hno
    rw [UniqueMap.find_write, if_neg fun he => by have := (dumpName_inj he).1; omega]
    exact hclear a no kind id (Nat.zero_le no)
  constructor
  · rintro ⟨id, body, hid, ⟨h₀, g⟩, r, hhead, articles, harticles, -, seals, r₁, hseals, flag, r₂, hflag, h⟩
    cases flag with
    | true => cases h
    | false =>
      obtain ⟨count, r₃, hcount, h⟩ := strictDecode_bind.1 h
      obtain ⟨ops, rest, hops, rfl⟩ := (dumpOperations_eq_ok (hfirst articles seals)).1 h
      obtain ⟨ext, hheader⟩ := header_of_dumpHead hhead hseals hflag hcount
      exact ⟨id, body, ⟨_, ops⟩, articles, rest, hid, Decoder.bind_eq_ok.2 ⟨_, r₃, hheader,
        Decoder.bind_eq_ok.2 ⟨ops, rest, hops, rfl⟩⟩, harticles, rfl⟩
  · rintro ⟨id, body, ⟨hd, ops⟩, articles, rest, hid, hc, harticles, rfl⟩
    obtain ⟨hd, r₃, hheader, hc⟩ := Decoder.bind_eq_ok.1 hc
    obtain ⟨ops, _, hops, hp⟩ := Decoder.bind_eq_ok.1 hc
    obtain ⟨he, rfl⟩ := Decoder.pure_eq_ok.1 hp
    cases he
    obtain ⟨r, r₁, r₂, hhead, hseals, hflag, hcount⟩ := dumpHead_of_header hheader
    have hnew := hclear articles 0 .seals (W.opidText (H.genesisOpid articles)) (Nat.le_refl 0)
    refine ⟨id, body, hid, _, r, hhead, articles, harticles, hnew, _, r₁, hseals, false, r₂, hflag,
      strictDecode_bind.2 ⟨_, r₃, hcount, ?_⟩⟩
    exact (dumpOperations_eq_ok (hfirst articles hd.genesisSeals)).2 ⟨ops, _, hops, rfl⟩

/-- **A consignment is dumped** exactly if the in-memory reader, without its limit, reads it, and its articles pass with
any signature. -/
theorem dumpConsignment_ok_iff (hX : X.Laws) {bs : Bytes} : (∃ s', W.dumpConsignment X ⟨bs, .empty⟩ = .ok () s') ↔
    ∃ id body c rest articles, W.parseConsignment.run bs = .ok (id, body) ∧
      W.consignmentAnyCount.run body = .ok (c, rest) ∧ c.articles (fun _ _ _ => true) = .ok articles := by
  constructor
  · rintro ⟨s', h⟩
    obtain ⟨id, body, c, articles, rest, hid, hc, ha, -⟩ := (dumpConsignment_eq_ok hX).1 h
    exact ⟨id, body, c, rest, articles, hid, hc, ha⟩
  · rintro ⟨id, body, c, rest, articles, hid, hc, ha⟩
    exact ⟨_, (dumpConsignment_eq_ok hX).2 ⟨id, body, c, articles, rest, hid, hc, ha, rfl⟩⟩

/-- The files of a dump with a name of its own. -/
theorem find_dump (hX : X.Laws) (articles : H.Articles) (genesisOpid : Opid) (seals : SmallMap UInt16 S.Definition)
    (ops : List (OperationSeals H S)) (no : Nat) (kind : DumpKind) (id : String) :
    (writeDocs (X.dumpArticles articles .empty).2 (W.docs X genesisOpid seals ops)).find (dumpName no kind id) =
      get (W.docs X genesisOpid seals ops) (dumpName no kind id) := by
  obtain ⟨dir, hdir, hfind⟩ := hX.dumpArticles articles
  rw [find_writeDocs (nodup_docs genesisOpid seals ops), hdir, hfind, Option.or_none]

/-- **The files of a dump** are those of the operations the streaming reader yields. -/
theorem dumpConsignment_streaming (hX : X.Laws) (hW : W.GenesisLaws) {bs body : Bytes} {id : ContractId}
    (hid : W.parseConsignment.run bs = .ok (id, body)) (hcodex : W.SameCodex body)
    (hcount : ∀ hd rest, W.consignmentHeader.run body = .ok (hd, rest) → hd.opCount ≤ MAX_CONSIGNMENT_OPS)
    {s' : DumpState H S} (h : W.dumpConsignment X ⟨bs, .empty⟩ = .ok () s') :
    ∃ articles b ops, W.readStreaming noSeals body = .ok (b :: ops, s'.stream) ∧ b.witness = none ∧
      ∀ no kind id, s'.dir.find (dumpName no kind id) =
        get (W.docs X (H.genesisOpid articles) b.definedSeals ops) (dumpName no kind id) := by
  obtain ⟨id', body', c, articles, rest, hid', hc, ha, rfl⟩ := (dumpConsignment_eq_ok hX).1 h
  rw [hid] at hid'
  cases hid'
  have hle : c.header.opCount ≤ MAX_CONSIGNMENT_OPS := by
    obtain ⟨hd, mid, hhd, hops⟩ := Decoder.bind_eq_ok.1 hc
    obtain ⟨ops, _, -, hp⟩ := Decoder.bind_eq_ok.1 hops
    obtain ⟨rfl, -⟩ := Decoder.pure_eq_ok.1 hp
    exact hcount hd mid hhd
  have hmem : W.readInMemory body = .ok (⟨W.toOperation c.header.issue.genesis (W.codexContract c.header.issue.codex),
      c.header.genesisSeals, none⟩ :: c.operationSeals, rest) := by
    unfold readInMemory
    rw [consignment_eq_ok.2 ⟨hc, hle⟩]
    simp [Consignment.intoOperations, InMemOps.feed, Feed.collect, Feed.collect_ofList]
  exact ⟨articles, _, _, (readStreaming_of_readInMemory hW hcodex hmem).1, rfl, find_dump hX articles _ _ _⟩

end Wire

/-! ## An exported contract -/

namespace Contract

variable {H : Hypersonic} {S : RgbSeal} {W : Wire H S} {X : Sonix H S}

end Contract

/-! ## The dump of the reference ledger -/

/-- It writes the genesis as a text. -/
def refSonix : Sonix refSonic refSeal where
  dumpArticles articles dir := (.ok articles.genesis.opid, dir.write "genesis.yaml".toList (.other articles.name))
  widText _ := "transaction"

theorem refSonix_laws : refSonix.Laws where
  dumpArticles articles := by
    refine ⟨_, rfl, fun no kind id => ?_⟩
    have hne : dumpName no kind id ≠ "genesis.yaml".toList := by
      intro h
      have hdash : '-' ∈ dumpName no kind id := List.mem_append_right _ List.mem_cons_self
      rw [h] at hdash
      revert hdash
      decide
    rw [UniqueMap.find_write, if_neg hne]
    rfl

/-- A consignment of a genesis alone, with its version and contract id. -/
def Stream.whole : Bytes := [CONSIGN_VERSION] ++ (encodeContractId Reorg.rid ++ Stream.plain)

theorem dumpConsignment_plain : ∃ s', refWire.dumpConsignment refSonix ⟨Stream.whole, .empty⟩ = .ok () s' :=
  (Wire.dumpConsignment_ok_iff refSonix_laws).2 ⟨_, _, _, _, _, Encoder.parseConsignment_reads refWire _ _, rfl, rfl⟩

theorem dumpConsignment_plain_files : ∃ (s' : DumpState refSonic refSeal) (articles : RefArticles) (b : _) (ops : _),
    refWire.readStreaming noSeals Stream.plain = .ok (b :: ops, s'.stream) ∧ b.witness = none ∧
      ∀ no kind id, s'.dir.find (dumpName no kind id) =
        get (refWire.docs refSonix (refSonic.genesisOpid articles) b.definedSeals ops) (dumpName no kind id) := by
  obtain ⟨s', h⟩ : ∃ s', refWire.dumpConsignment refSonix ⟨Stream.whole, .empty⟩ = .ok () s' :=
    ⟨_, (Wire.dumpConsignment_eq_ok refSonix_laws).2
      ⟨_, _, _, _, _, Encoder.parseConsignment_reads refWire Reorg.rid Stream.plain, rfl, rfl, rfl⟩⟩
  refine ⟨s', Wire.dumpConsignment_streaming refSonix_laws refWire_genesisLaws
    (Encoder.parseConsignment_reads refWire Reorg.rid Stream.plain) Stream.sameCodex_plain (fun hd rest hh => ?_) h⟩
  cases hh
  decide

end RgbStd
