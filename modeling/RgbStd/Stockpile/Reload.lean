import RgbStd.Stockpile.Index
import RgbStd.Stockpile.Storage
/-!
# What survives a reload (stockpile.rs:54-116, 147-211)

A name, an id and an extension are put together with dots. The loading takes what precedes the first dot for the
name, so a codex name with a dot is not recovered, and its file is passed over.

| here | there |
| --- | --- |
| `SaveCall`   | `import_issuer`, `issue` and `import_contract`, whether they return `Ok` or not |
| `Item`       | an issuer or a contract, under its path |
| `store`      | a call, with the items stored before and after it |
| `Recovered`  | a load lists the id, has the path of the item again, and finds the item |
| `Recoverable` | the name is found again, and nothing else is taken for the id |

* `readAll_iff`: what a load has under an id, in whatever order the entries come.
* `survives_iff`: in a run, the items that survive are the recoverable ones.
-/
namespace RgbStd
open Tables Names

/-- The calls that save something. -/
inductive SaveCall {H : Hypersonic} {S : RgbSeal} (W : Wire H S) where
  | importIssuer (issuer : H.Issuer)
  | issue (params : CreateParams H S)
  | importContract (articles : H.Articles) (consignment : W.Consignment)

inductive Item (H : Hypersonic) (S : RgbSeal) where
  | issuer (issuer : H.Issuer)
  | contract (path : FileName) (c : Contract H S)

namespace Item

variable {H : Hypersonic} {S : RgbSeal} (T : Texts H)

def path : Item H S → FileName
  | .issuer i => dotted (T.codexName i) (T.codex (H.issuerCodex i)) issuerExt
  | .contract path _ => path

def entry : Item H S → Entry H S
  | .issuer i => ⟨.file, some i, none⟩
  | .contract _ c => ⟨.dir, none, some c⟩

/-- An item that is saved takes the place of one under its path. -/
def put (item : Item H S) (items : List (Item H S)) : List (Item H S) :=
  item :: items.filter fun old => old.path T ≠ item.path T

end Item

namespace StockpileFiles

variable {H : Hypersonic} {S : RgbSeal} (T : Texts H) {W : Wire H S} (V : Verifier H S)

/-- A call under the faults of its time. -/
def store (stockIo : FileError → H.StockError) (s : StockpileFiles H S × List (Item H S))
    (call : Faults H S × SaveCall W) : StockpileFiles H S × List (Item H S) :=
  let d := { s.1 with faults := call.1 }
  match call.2 with
  | .importIssuer issuer => match d.importIssuer T issuer with
    | (.ok issuer, d) => (d, Item.put T (.issuer issuer) s.2)
    | (.error _, d) => (d, s.2)
  | .issue params => match d.issue T stockIo params with
    | (.ok c, d') => match d.issuer T (H.specCodex params.issuer) with
      | some schema => (d', Item.put T (.contract (articlesDir T (issued schema params)) c) s.2)
      | none => (d', s.2)
    | (.error _, d) => (d, s.2)
  | .importContract articles consignment => match d.importContract T W V articles consignment with
    | (.ok c, d) => (d, Item.put T (.contract (articlesDir T articles) c) s.2)
    | (.error _, d) => (d, s.2)

/-! ## Reading a directory in any order -/

/-- The same entries, in any order. -/
def SameEntries (dir dir' : UniqueMap FileName (Entry H S)) : Prop := ∀ f, dir'.find f = dir.find f

/-- What a file name is taken for: an id, and the name it is known by. -/
def takenFor {K : Type} (ext : FileName) (idOf : FileName → Option K) (f : FileName) : Option (K × FileName) := do
  let (name, idStr, ext') ← parts f
  if ext' = ext then (idOf idStr).map fun id => (id, name) else none

theorem takenFor_eq_some {K : Type} {ext : FileName} (hext : '.' ∉ ext) {idOf : FileName → Option K} {f name : FileName}
    {id : K} : takenFor ext idOf f = some (id, name) ↔
      ∃ idStr, f = dotted name idStr ext ∧ '.' ∉ name ∧ idOf idStr = some id := by
  simp only [takenFor, Option.bind_eq_bind, Option.bind_eq_some_iff]
  constructor
  · rintro ⟨⟨name', idStr, ext'⟩, hp, h⟩
    split at h
    · rename_i he
      obtain ⟨id', hid, he'⟩ := Option.map_eq_some_iff.1 h
      obtain ⟨rfl, rfl⟩ := Prod.mk.inj he'
      subst he
      obtain ⟨hf, hname, -⟩ := parts_eq_some.1 hp
      exact ⟨idStr, hf, hname, hid⟩
    · cases h
  · rintro ⟨idStr, rfl, hname, hid⟩
    exact ⟨_, parts_dotted hname hext idStr, by simp [hid]⟩

section
variable {K : Type} (type : FileType) (read : FileName → Option (K × FileName))

def readEntry (e : FileName × Entry H S) : Option (K × FileName) := if e.2.fileType = type then read e.1 else none

/-- Some entry of the directory is taken for the id, by this name. -/
def Taken (dir : UniqueMap FileName (Entry H S)) (id : K) (name : FileName) : Prop :=
  ∃ f e, dir.find f = some e ∧ e.fileType = type ∧ read f = some (id, name)

variable {type read} {dir dir' : UniqueMap FileName (Entry H S)} {id : K} {name : FileName}

theorem mem_readEntry : (id, name) ∈ dir.entries.filterMap (readEntry type read) ↔ Taken type read dir id name := by
  rw [List.mem_filterMap]
  constructor
  · rintro ⟨⟨f, e⟩, he, hread⟩
    unfold readEntry at hread
    split at hread
    · rename_i htype
      exact ⟨f, e, UniqueMap.mem_entries.1 he, htype, hread⟩
    · cases hread
  · rintro ⟨f, e, he, htype, hread⟩
    exact ⟨(f, e), UniqueMap.mem_entries.2 he, (if_pos htype).trans hread⟩

theorem SameEntries.taken (h : SameEntries dir dir') : Taken type read dir' id name ↔ Taken type read dir id name := by
  unfold Taken
  simp only [h _]

variable [DecidableEq K]

/-- The names of the loop of `load`, each over those before it. -/
def readAll (type : FileType) (read : FileName → Option (K × FileName)) (dir : UniqueMap FileName (Entry H S)) :
    Table K FileName :=
  (UniqueMap.ofEntries (dir.entries.filterMap (readEntry type read))).entries

/-- An entry can come last, and then it is read. -/
theorem exists_last (h : Taken type read dir id name) :
    ∃ dir', SameEntries dir dir' ∧ get (readAll type read dir') id = some name := by
  obtain ⟨f, e, hf, htype, hread⟩ := h
  refine ⟨(dir.remove f).write f e, fun f' => ?_, ?_⟩
  · rw [UniqueMap.find_write, UniqueMap.find_remove]
    split
    · rename_i he
      rw [he, hf]
    · rfl
  · have hnew : f ∉ keys (dir.remove f).entries := by
      intro hm
      obtain ⟨e', he'⟩ := has_iff.1 (has_iff_mem_keys.2 hm)
      have hgone : (dir.remove f).find f = none := by simp
      rw [UniqueMap.find, he'] at hgone
      cases hgone
    have hentries : ((dir.remove f).write f e).entries = (dir.remove f).entries ++ [(f, e)] := upsert_of_notMem hnew e
    have hlast : readEntry type read (f, e) = some (id, name) := (if_pos htype).trans hread
    simp only [readAll, UniqueMap.ofEntries, hentries, List.filterMap_append, List.filterMap_cons, hlast,
      List.filterMap_nil, List.foldl_append, List.foldl_cons, List.foldl_nil, get_upsert_self]

/-- **What a load has under an id**, whatever the order: a name by which alone entries are taken for the id. -/
theorem readAll_iff : (∀ dir', SameEntries dir dir' → get (readAll type read dir') id = some name) ↔
    Taken type read dir id name ∧ ∀ name', Taken type read dir id name' → name' = name := by
  constructor
  · intro h
    refine ⟨mem_readEntry.1 (UniqueMap.mem_of_find_ofEntries (h dir fun _ => rfl)), fun name' ht => ?_⟩
    obtain ⟨dir', hsame, hget⟩ := exists_last ht
    rw [h dir' hsame] at hget
    exact (Option.some.inj hget).symm
  · rintro ⟨ht, hall⟩ dir' hsame
    obtain ⟨name', hget⟩ := UniqueMap.exists_find_ofEntries (mem_readEntry.2 (hsame.taken.2 ht))
    have ht' := mem_readEntry.1 (UniqueMap.mem_of_find_ofEntries hget)
    rw [← hall name' (hsame.taken.1 ht')]
    exact hget

theorem dotted_inj {name' idStr ext : FileName} : dotted name idStr ext = dotted name' idStr ext ↔ name = name' :=
  List.append_left_inj _

/-- **An entry is found again** under its path if and only if its name has no dot, and no other entry is taken for the
id under another name. -/
theorem path_recovered_iff {ext idStr : FileName} (hext : '.' ∉ ext) {idOf : FileName → Option K}
    (hid : idOf idStr = some id) {e : Entry H S} (htype : e.fileType = type)
    (hf : dir.find (dotted name idStr ext) = some e) :
    (∀ dir', SameEntries dir dir' → ∃ name', get (readAll type (takenFor ext idOf) dir') id = some name' ∧
      dotted name' idStr ext = dotted name idStr ext) ↔
    '.' ∉ name ∧ ∀ name', Taken type (takenFor ext idOf) dir id name' → name' = name := by
  have hget : (∀ dir', SameEntries dir dir' → ∃ name', get (readAll type (takenFor ext idOf) dir') id = some name' ∧
      dotted name' idStr ext = dotted name idStr ext) ↔
      ∀ dir', SameEntries dir dir' → get (readAll type (takenFor ext idOf) dir') id = some name := by
    simp only [dotted_inj, exists_eq_right]
  rw [hget, readAll_iff]
  refine and_congr_left fun _ => ⟨?_, fun hplain => ?_⟩
  · rintro ⟨f, e', -, -, hread⟩
    obtain ⟨_, -, hplain, -⟩ := (takenFor_eq_some hext).1 hread
    exact hplain
  · exact ⟨_, e, hf, htype, (takenFor_eq_some hext).2 ⟨idStr, rfl, hplain, hid⟩⟩

end

/-! ## A load -/

theorem plain_issuerExt : '.' ∉ issuerExt := by decide

variable {T}

theorem loadEntry_issuers (maps : Table H.CodexId FileName × Table ContractId FileName) (e : FileName × Entry H S) :
    (loadEntry T maps e).1 = match readEntry .file (takenFor issuerExt T.codexOf) e with
      | some p => upsert maps.1 p.1 p.2
      | none => maps.1 := by
  simp only [loadEntry, readEntry, takenFor, parts]
  cases extension e.1 with
  | none => simp
  | some ext =>
    cases splitFirst '.' (fileStem e.1) with
    | none => simp
    | some p =>
      by_cases hfile : e.2.fileType = .file
      · by_cases hext : ext = issuerExt
        · cases hid : T.codexOf p.2 <;> simp [hfile, hext, hid]
        · simp [hfile, hext]
      · by_cases hdir : e.2.fileType = .dir ∧ ext = contractExt
        · cases hid : T.contractOf p.2 <;> simp [hdir, hid]
        · simp [hdir, hfile]

theorem foldl_loadEntry_issuers (es : List (FileName × Entry H S)) :
    ∀ maps : Table H.CodexId FileName × Table ContractId FileName, (es.foldl (loadEntry T) maps).1 =
      (es.filterMap (readEntry .file (takenFor issuerExt T.codexOf))).foldl (fun t p => upsert t p.1 p.2) maps.1 := by
  induction es with
  | nil => exact fun _ => rfl
  | cons e es ih =>
    intro maps
    rw [List.foldl_cons, ih, loadEntry_issuers, List.filterMap_cons]
    cases readEntry .file (takenFor issuerExt T.codexOf) e <;> rfl

theorem load_issuers (consensus : Consensus) (testnet : Bool) (dir : UniqueMap FileName (Entry H S)) :
    (load T consensus testnet dir).issuers = readAll .file (takenFor issuerExt T.codexOf) dir :=
  foldl_loadEntry_issuers dir.entries ([], [])

theorem load_contractNames (consensus : Consensus) (testnet : Bool) (dir : UniqueMap FileName (Entry H S)) :
    (load T consensus testnet dir).contracts = readAll .dir (takenFor contractExt T.contractOf) dir :=
  load_contracts consensus testnet dir

/-! ## Items -/

variable (T)

/-- The id of the item is listed, with its path, and the item is found. -/
def Recovered (d : StockpileFiles H S) : Item H S → Prop
  | .issuer i => (∃ name, get d.issuers (H.issuerCodex i) = some name ∧
      dotted name (T.codex (H.issuerCodex i)) issuerExt = (.issuer i : Item H S).path T) ∧
      d.issuer T (H.issuerCodex i) = some i
  | .contract path c => d.getContractDir T c.contractId = some path ∧ d.contract T c.contractId = some c

/-- A load of the directory recovers the item, in whatever order its entries come. -/
def Survives (d : StockpileFiles H S) (item : Item H S) : Prop :=
  ∀ dir', SameEntries d.dir dir' → Recovered T (load T d.consensus d.testnet dir') item

/-- The name of an issuer has no dot, a contract is of the network of the directory, and no other entry is taken
for the id under another name. -/
def Recoverable (d : StockpileFiles H S) : Item H S → Prop
  | .issuer i => '.' ∉ T.codexName i ∧
      ∀ name, Taken .file (takenFor issuerExt T.codexOf) d.dir (H.issuerCodex i) name → name = T.codexName i
  | .contract path c => c.network = d.network ∧
      ∀ name, Taken .dir (takenFor contractExt T.contractOf) d.dir c.contractId name →
        dotted name (T.contract c.contractId) contractExt = path

/-- Each item is under its path, and a contract is under its id there. -/
structure Keeps (s : StockpileFiles H S × List (Item H S)) : Prop where
  found : ∀ item ∈ s.2, s.1.dir.find (item.path T) = some item.entry
  named : ∀ path c, .contract path c ∈ s.2 →
    ∃ name, '.' ∉ name ∧ path = dotted name (T.contract c.contractId) contractExt

variable {T} {d : StockpileFiles H S} {s s' : StockpileFiles H S × List (Item H S)}

theorem issuer_survives_iff (hT : T.Lawful) {i : H.Issuer}
    (hf : d.dir.find ((Item.issuer i : Item H S).path T) = some (Item.issuer i : Item H S).entry) :
    Survives T d (.issuer i) ↔ Recoverable T d (.issuer i) := by
  have htype : (Item.issuer i : Item H S).entry.fileType = .file := rfl
  have hpath := path_recovered_iff plain_issuerExt (hT.codexOf_codex (H.issuerCodex i)) htype hf
  rw [Recoverable, ← hpath]
  constructor
  · intro h dir' hsame
    have hr := (h dir' hsame).1
    rwa [load_issuers] at hr
  · intro h dir' hsame
    obtain ⟨name, hname, hdir⟩ := h dir' hsame
    rw [← load_issuers d.consensus d.testnet] at hname
    refine ⟨⟨name, hname, hdir⟩, ?_⟩
    have hfind : dir'.find (dotted name (T.codex (H.issuerCodex i)) issuerExt) =
        some (Item.issuer i : Item H S).entry := by
      rw [hdir, hsame]
      exact hf
    simp only [issuer, hname, Option.bind_eq_bind, Option.bind_some]
    exact congrArg (Option.bind · (·.issuer)) hfind

theorem contract_survives_iff (hT : T.Lawful) {name : FileName} {c : Contract H S} (hplain : '.' ∉ name)
    (hf : d.dir.find (dotted name (T.contract c.contractId) contractExt) = some ⟨.dir, none, some c⟩) :
    Survives T d (.contract (dotted name (T.contract c.contractId) contractExt) c) ↔
      Recoverable T d (.contract (dotted name (T.contract c.contractId) contractExt) c) := by
  have hpath := path_recovered_iff plain_contractExt (hT.contractOf_contract c.contractId) rfl hf
  have hnames : (∀ name', Taken .dir (takenFor contractExt T.contractOf) d.dir c.contractId name' → name' = name) ↔
      ∀ dir', SameEntries d.dir dir' → (load T d.consensus d.testnet dir').getContractDir T c.contractId =
        some (dotted name (T.contract c.contractId) contractExt) := by
    refine (and_iff_right hplain).symm.trans (hpath.symm.trans ?_)
    simp only [getContractDir_eq_some, load_contractNames, eq_comm]
  simp only [Recoverable, dotted_inj, hnames]
  constructor
  · intro h
    refine ⟨?_, fun dir' hsame => (h dir' hsame).1⟩
    obtain ⟨_, _, _, _, _, hnet⟩ := contract_eq_some.1 (h d.dir fun _ => rfl).2
    exact hnet
  · rintro ⟨hnet, h⟩ dir' hsame
    have hdir := h dir' hsame
    exact ⟨hdir, contract_eq_some.2 ⟨_, _, hdir, (hsame _).trans hf, rfl, hnet⟩⟩

/-! ## Calls -/

theorem Keeps.put {d' : StockpileFiles H S} {items : List (Item H S)} (h : Keeps T (d, items)) {item : Item H S}
    (hfind : ∀ f, d'.dir.find f = if f = item.path T then some item.entry else d.dir.find f)
    (hnamed : ∀ path c, item = .contract path c →
      ∃ name, '.' ∉ name ∧ path = dotted name (T.contract c.contractId) contractExt) :
    Keeps T (d', item.put T items) := by
  have hcases : ∀ old, old ∈ item.put T items → old = item ∨ old ∈ items ∧ old.path T ≠ item.path T := by
    intro old hold
    rcases List.mem_cons.1 hold with he | hold
    · exact Or.inl he
    · exact Or.inr ((List.mem_filter.1 hold).imp_right of_decide_eq_true)
  constructor
  · intro old hold
    show d'.dir.find (old.path T) = some old.entry
    rw [hfind]
    rcases hcases old hold with rfl | ⟨hold, hne⟩
    · rw [if_pos rfl]
    · rw [if_neg hne]
      exact h.found old hold
  · intro path c hc
    rcases hcases _ hc with he | ⟨hc, -⟩
    · exact hnamed path c he.symm
    · exact h.named path c hc

/-- A folder that was not completed has a path no item has. -/
theorem Keeps.opened {items : List (Item H S)} (h : Keeps T (d, items)) {path : FileName}
    (hfree : d.dir.find path = none) :
    Keeps T (d.opened path, items) := by
  refine ⟨fun item hitem => ?_, h.named⟩
  have hfound : d.dir.find (item.path T) = some item.entry := h.found item hitem
  have hne : item.path T ≠ path := by
    intro he
    rw [he, hfree] at hfound
    cases hfound
  show (d.dir.write path _).find (item.path T) = some item.entry
  rw [UniqueMap.find_write, if_neg hne, hfound]

/-- A contract that was completed is in the folder of its articles. -/
theorem Keeps.register (hT : T.Lawful) {items : List (Item H S)} (h : Keeps T (d, items)) {articles : H.Articles}
    {c : Contract H S} (hid : c.contractId = H.articlesId articles) :
    Keeps T ((d.opened (articlesDir T articles)).register T (articlesDir T articles) c,
      (Item.contract (articlesDir T articles) c).put T items) := by
  refine h.put (fun f => ?_) ?_
  · show ((d.dir.write _ _).write (articlesDir T articles) ⟨.dir, none, some c⟩).find f = _
    rw [UniqueMap.find_write, UniqueMap.find_write]
    by_cases hf : f = articlesDir T articles
    · simp [hf, Item.path, Item.entry]
    · simp [hf, Item.path]
  · intro path c' he
    cases he
    exact ⟨T.name (H.articlesName articles), hT.name_plain _, by rw [hid]; rfl⟩

theorem importIssuer_cases (d : StockpileFiles H S) (i : H.Issuer) : (∃ e, d.importIssuer T i = (.error e, d)) ∨
    ∃ d', d.importIssuer T i = (.ok i, d') ∧
      d'.dir = d.dir.write ((Item.issuer i : Item H S).path T) (Item.issuer i : Item H S).entry := by
  unfold importIssuer
  dsimp only
  split
  · exact Or.inl ⟨_, rfl⟩
  · split
    · exact Or.inl ⟨_, rfl⟩
    · exact Or.inr ⟨_, rfl, rfl⟩

/-- **What a call that saves comes to**: the directory stays as it is, an issuer is written, or a folder is made for
some articles, which is completed or left. -/
theorem store_cases (hN : ∀ a l, H.new a = .ok l → H.ledgerId l = H.articlesId a) (stockIo : FileError → H.StockError)
    (d : StockpileFiles H S) (items : List (Item H S)) (faults : Faults H S) (call : SaveCall W) :
    store T V stockIo (d, items) (faults, call) = ({ d with faults }, items) ∨
    (∃ (i : H.Issuer) (d' : StockpileFiles H S),
      d'.dir = d.dir.write ((Item.issuer i : Item H S).path T) (Item.issuer i : Item H S).entry ∧
      store T V stockIo (d, items) (faults, call) = (d', Item.put T (.issuer i) items)) ∨
    ∃ articles, d.dir.find (articlesDir T articles) = none ∧
      (store T V stockIo (d, items) (faults, call) =
        (({ d with faults } : StockpileFiles H S).opened (articlesDir T articles), items) ∨
      ∃ c : Contract H S, c.contractId = H.articlesId articles ∧ store T V stockIo (d, items) (faults, call) =
        ((({ d with faults } : StockpileFiles H S).opened (articlesDir T articles)).register T (articlesDir T articles) c,
          Item.put T (.contract (articlesDir T articles) c) items)) := by
  cases call with
  | importIssuer i =>
    rcases importIssuer_cases (T := T) { d with faults } i with ⟨e, he⟩ | ⟨d', he, hdir⟩
    · exact Or.inl (by simp only [store, he])
    · exact Or.inr (Or.inl ⟨i, d', hdir, by simp only [store, he]⟩)
  | issue params =>
    rcases issue_cases (T := T) stockIo { d with faults } params with
      ⟨-, e, he⟩ | ⟨schema, hi, he | ⟨e, he⟩ | ⟨c, hn, hid, he⟩⟩
    · exact Or.inl (by simp only [store, he])
    · exact Or.inl (by simp only [store, he])
    · exact Or.inr (Or.inr ⟨_, hi.creatable.free, Or.inl (by simp only [store, he])⟩)
    · exact Or.inr (Or.inr ⟨_, hi.creatable.free,
        Or.inr ⟨c, hid.trans (hN _ _ hn), by simp only [store, he, hi.issuer]⟩⟩)
  | importContract articles consignment =>
    rcases importContract_cases (T := T) V { d with faults } articles consignment with
      ⟨-, e, he⟩ | ⟨hc, ⟨e, he⟩ | ⟨c, hw, he⟩⟩
    · exact Or.inl (by simp only [store, he])
    · exact Or.inr (Or.inr ⟨_, hc.free, Or.inl (by simp only [store, he])⟩)
    · exact Or.inr (Or.inr ⟨_, hc.free, Or.inr ⟨c, Contract.withArticles_contractId hw, by simp only [store, he]⟩⟩)

/-- **What is stored stays** under its path through any call that saves. -/
theorem store_keeps (hT : T.Lawful) (hN : ∀ a l, H.new a = .ok l → H.ledgerId l = H.articlesId a)
    {stockIo : FileError → H.StockError} (h : Keeps T s) (call : Faults H S × SaveCall W) :
    Keeps T (store T V stockIo s call) := by
  obtain ⟨d, items⟩ := s
  obtain ⟨faults, call⟩ := call
  have h : Keeps T ({ d with faults }, items) := ⟨h.found, h.named⟩
  rcases store_cases (T := T) V hN stockIo d items faults call with
    he | ⟨i, d', hdir, he⟩ | ⟨articles, hfree, he | ⟨c, hid, he⟩⟩ <;> rw [he]
  · exact h
  · refine h.put (fun f => ?_) (fun _ _ hc => by cases hc)
    rw [hdir, UniqueMap.find_write]
  · exact h.opened hfree
  · exact h.register hT hid

theorem run_keeps (hT : T.Lawful) (hN : ∀ a l, H.new a = .ok l → H.ledgerId l = H.articlesId a)
    {stockIo : FileError → H.StockError} {consensus : Consensus} {testnet : Bool}
    {dir : UniqueMap FileName (Entry H S)} {calls : List (Faults H S × SaveCall W)}
    {states : List (StockpileFiles H S × List (Item H S))}
    (h : Runs.run (fun s call => some (store T V stockIo s call)) (load T consensus testnet dir, []) calls =
      some states) : ∀ s ∈ states, Keeps T s := by
  have hempty : Keeps T (load T consensus testnet dir, []) :=
    ⟨fun _ hitem => absurd hitem List.not_mem_nil, fun _ _ hc => absurd hc List.not_mem_nil⟩
  exact Runs.run_inv (C := fun _ _ => True)
    (fun s call s' hI _ hs => Option.some.inj hs ▸ store_keeps V hT hN hI call) calls _ states hempty
    (Runs.along_true _ _) h

/-- **What survives a reload**: in every state of a run, an item that is stored survives exactly if it is recoverable. -/
theorem survives_iff (hT : T.Lawful) (hN : ∀ a l, H.new a = .ok l → H.ledgerId l = H.articlesId a)
    (stockIo : FileError → H.StockError) (consensus : Consensus) (testnet : Bool)
    (dir : UniqueMap FileName (Entry H S)) (calls : List (Faults H S × SaveCall W))
    (states : List (StockpileFiles H S × List (Item H S)))
    (h : Runs.run (fun s call => some (store T V stockIo s call)) (load T consensus testnet dir, []) calls =
      some states) : ∀ s ∈ states, ∀ item ∈ s.2, Survives T s.1 item ↔ Recoverable T s.1 item := by
  intro s hs item hitem
  have hs := run_keeps V hT hN h s hs
  cases item with
  | issuer i => exact issuer_survives_iff hT (hs.found _ hitem)
  | contract path c =>
    obtain ⟨name, hplain, rfl⟩ := hs.named path c hitem
    exact contract_survives_iff hT hplain (hs.found _ hitem)

end StockpileFiles

/-! ## Two codices -/

namespace Folders

/-- A codex is read from its characters only, and the name of all but one has a version. -/
@[reducible] def versions : Texts refSonic :=
  { refTexts with
    codexOf := fun f => if f.all (· = 'x') then some f.length else none
    codexName := fun i => if i.1 = 2 then "Codex".toList else "Codex.v2".toList }

theorem versions_lawful : versions.Lawful where
  contractOf_contract := refTexts_lawful.contractOf_contract
  codexOf_codex n := by
    have hall : (List.replicate n 'x').all (· = 'x') = true := by simp
    show (if (List.replicate n 'x').all (· = 'x') then some (List.replicate n 'x').length else none) = some n
    rw [if_pos hall, List.length_replicate]
  name_plain := refTexts_lawful.name_plain

/-- The issuer of a codex saved in an empty directory. -/
def saved (codex : Nat) : StockpileFiles refSonic refSeal × List (Item refSonic refSeal) :=
  StockpileFiles.store versions refVerifier stockIo (.load versions .bitcoin true .empty, [])
    (.none, (.importIssuer (codex, Stream.articles) : SaveCall refWire))

theorem run_saved (codex : Nat) :
    Runs.run (fun s call => some (StockpileFiles.store versions refVerifier stockIo s call))
      (.load versions .bitcoin true .empty, []) [(.none, (.importIssuer (codex, Stream.articles) : SaveCall refWire))] =
      some [saved codex] := rfl

end Folders

/-- The issuer of codex 2 survives. -/
theorem survives_codex :
    StockpileFiles.Survives Folders.versions (Folders.saved 2).1 (.issuer (2, Stream.articles)) := by
  have hiff := StockpileFiles.survives_iff refVerifier Folders.versions_lawful refSonic_new_ledgerId Folders.stockIo
    .bitcoin true .empty _ _ (Folders.run_saved 2) _ List.mem_cons_self _ List.mem_cons_self
  refine hiff.2 ⟨by decide, fun name ht => ?_⟩
  have hentries : (Folders.saved 2).1.dir.entries.filterMap (StockpileFiles.readEntry .file
      (StockpileFiles.takenFor issuerExt Folders.versions.codexOf)) = [(2, "Codex".toList)] := by decide
  have hm := StockpileFiles.mem_readEntry.2 ht
  rw [hentries] at hm
  exact (Prod.mk.inj (List.mem_singleton.1 hm)).2

/-- The issuer of codex 3, under the name Codex.v2, does not. -/
theorem survives_version : ¬∀ (H : Hypersonic) (S : RgbSeal) (T : Texts H) (W : Wire H S) (V : Verifier H S), T.Lawful →
    (∀ a l, H.new a = .ok l → H.ledgerId l = H.articlesId a) →
    ∀ stockIo consensus testnet dir (calls : List (Faults H S × SaveCall W)) states,
      Runs.run (fun s call => some (StockpileFiles.store T V stockIo s call))
        (.load T consensus testnet dir, []) calls =
        some states → ∀ s ∈ states, ∀ item ∈ s.2, StockpileFiles.Survives T s.1 item := by
  intro h
  have hs := h refSonic refSeal Folders.versions refWire refVerifier Folders.versions_lawful refSonic_new_ledgerId
    Folders.stockIo .bitcoin true .empty _ _ (Folders.run_saved 3) _ List.mem_cons_self _ List.mem_cons_self
  obtain ⟨⟨name, hname, -⟩, -⟩ := hs _ fun _ => rfl
  have hnone : Tables.get (StockpileFiles.load Folders.versions .bitcoin true (Folders.saved 3).1.dir).issuers 3 = none := by
    decide
  change Tables.get (StockpileFiles.load Folders.versions .bitcoin true (Folders.saved 3).1.dir).issuers 3 = _ at hname
  rw [hnone] at hname
  cases hname

end RgbStd
