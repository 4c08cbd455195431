import RgbStd.Core.Types
/-!
# Reference implementations of the external interfaces

`refSonic` is a small ledger: a list of operations, newest first, and the set of those that are
invalid. The owned state is what the valid operations created and no valid operation consumed.
`refSeal` is a seal over a numbered transaction output whose anchors are maps from inputs to
messages. The laws the development assumes are proved for them beside each law. In two things they
are not like the crates, where the laws leave a choice: `forward` makes valid all that follows from
the operations it is given, where the crate leaves those with another invalid ancestor as they are;
and anchors merge unless they disagree, where the crate merges equal ones only.
-/
namespace RgbStd
open Tables

structure RefOperation where
  contract : ContractId
  salt : Nat
  ins : List CellAddr
  outs : List (StateName × AuthToken × Nat)
deriving DecidableEq, Repr

/-- The commitment: an operation of another contract has another id. -/
def RefOperation.opid (op : RefOperation) : Opid := ⟨op.salt * 256 + (op.contract.bytes[0]).toNat⟩

instance : Ord RefOperation := ⟨compareOn fun op => op.opid.tag⟩

instance : Std.TransOrd RefOperation := inferInstanceAs (Std.TransCmp (compareOn _))

structure RefArticles where
  id : ContractId
  codex : ContractId
  genesis : RefOperation
  name : String
  consensus : Consensus
  testnet : Bool
deriving DecidableEq, Repr

structure RefLedger where
  articles : RefArticles
  ops : List RefOperation
  invalid : List Opid
  log : List Opid
  pending : Bool
deriving DecidableEq, Repr

namespace RefLedger

def operations (l : RefLedger) : List Opid := l.ops.map (·.opid)

def isValid (l : RefLedger) (o : Opid) : Bool := o ∈ l.operations ∧ o ∉ l.invalid

/-- Parents are older than their children. -/
def ancestorsIn : List RefOperation → Opid → List Opid
  | [], o => [o]
  | op :: older, o =>
    if op.opid = o then o :: (op.ins.map (·.opid)).flatMap (ancestorsIn older) else ancestorsIn older o

def ancestors (l : RefLedger) (o : Opid) : List Opid := ancestorsIn l.ops o

/-- `S` and its descendants among the known operations. -/
def descendants (l : RefLedger) (S : List Opid) : List Opid :=
  l.operations.filter fun o => (l.ancestors o).any (· ∈ S)

def rollback (l : RefLedger) (S : List Opid) : RefLedger :=
  { l with invalid := l.invalid ++ l.descendants S }

def forward (l : RefLedger) (S : List Opid) : RefLedger :=
  { l with invalid := l.invalid.filter (· ∉ l.descendants S) }

def validOps (l : RefLedger) : List RefOperation := l.ops.reverse.filter fun op => l.isValid op.opid

def spent (l : RefLedger) : List CellAddr := l.validOps.flatMap (·.ins)

def outputs (op : RefOperation) : List (StateName × CellAddr × Nat) :=
  op.outs.zipIdx.map fun (o, n) => (o.1, ⟨op.opid, UInt16.ofNat n⟩, o.2.2)

def cells (l : RefLedger) : List (StateName × CellAddr × Nat) :=
  (l.validOps.flatMap outputs).filter fun c => c.2.1 ∉ l.spent

def names (l : RefLedger) : List StateName := (l.cells.map (·.1)).dedup

def owned (l : RefLedger) : List (StateName × List (CellAddr × Nat)) :=
  l.names.map fun n => (n, (l.cells.filter (·.1 = n)).map (·.2))

def record (l : RefLedger) (op : RefOperation) : RefLedger :=
  { l with
    ops := if op ∈ l.ops then l.ops else op :: l.ops
    invalid := l.invalid.filter (· ≠ op.opid)
    log := l.log ++ [op.opid] }

/-- The operations the ledger knows of; the genesis belongs to the articles. -/
def known (l : RefLedger) : List Opid := l.articles.genesis.opid :: l.operations

/-- A call is accepted if it spends cells of the current state and makes a new operation, of no more
outputs than an operation may have. -/
def call (l : RefLedger) (p : CallParams Nat Nat Unit) : Except (MultiError Unit Unit Empty) Opid × RefLedger :=
  let ins := keys p.using_
  let op : RefOperation := ⟨l.articles.id, l.log.length + 1, ins,
    p.core.owned.map fun o => (o.name, o.state.auth, o.state.data)⟩
  if ins.all (· ∈ l.cells.map (·.2.1)) ∧ p.core.owned.length ≤ 65535 ∧ op.opid ∉ l.known then
    (.ok op.opid,
      { l with ops := op :: l.ops, invalid := l.invalid.filter (· ≠ op.opid), log := l.log ++ [op.opid] })
  else (.error (.a ()), l)

def operation (l : RefLedger) (o : Opid) : RefOperation :=
  (l.ops.find? (·.opid = o)).getD l.articles.genesis

def new (a : RefArticles) : RefLedger := ⟨a, [a.genesis], [], [], false⟩

end RefLedger

/-- The reference ledger library. A state calculator is a running total. -/
@[reducible] def refSonic : Hypersonic where
  StrictVal := Nat
  StateAtom := Nat
  Satisfaction := Unit
  Operation := RefOperation
  Articles := RefArticles
  IssuerSpec := Nat
  Issuer := Nat × RefArticles
  CodexId := Nat
  StateCalc := Nat
  StateCalcError := Unit
  AcceptError := Unit
  SemanticError := Unit
  StockError := Unit
  Ledger := RefLedger
  opid := RefOperation.opid
  contractId := (·.contract)
  withContractId op id := { op with contract := id }
  destructibleIn := (·.ins)
  destructibleOut op := op.outs.map (·.2.1)
  articlesId := (·.id)
  genesisOpid a := a.genesis.opid
  codexAsContract := (·.codex)
  articlesName := (·.name)
  articlesConsensus := (·.consensus)
  articlesTestnet := (·.testnet)
  issuerCodex := (·.1)
  specCodex := id
  specCheck spec issuer := spec = issuer.1
  issue issuer p := { issuer.2 with
    name := p.name
    consensus := p.consensus
    testnet := p.testnet
    genesis := { issuer.2.genesis with outs := p.core.owned.map fun o => (o.name, o.state.auth, o.state.data) } }
  calculate _ _ := some 0
  accumulate n v := .ok (n + v)
  lessen n v := if v ≤ n then .ok (n - v) else .error ()
  diff n := .ok (if n = 0 then [] else [n])
  new a := if a.genesis.outs.length ≤ 65535 then .ok (.new a) else .error ()
  ledgerId l := l.articles.id
  articles := (·.articles)
  operations := RefLedger.operations
  operation := RefLedger.operation
  trace := (·.log)
  isValid := RefLedger.isValid
  ancestors := RefLedger.ancestors
  owned := RefLedger.owned
  global _ := []
  aggregated _ := []
  call := RefLedger.call
  apply l op := some (if l.isValid op.opid then l else { l.record op with pending := true })
  rollback l S := (.ok (), l.rollback S)
  forward l S := (.ok (), l.forward S)
  commit l := { l with pending := false }
  upgradeApis l a := if l.articles.id = a.id then (.ok (), { l with articles := a }) else (.error (.a ()), l)

theorem refSonic_new_ok {a : RefArticles} {l : RefLedger} (h : refSonic.new a = .ok l) :
    a.genesis.outs.length ≤ 65535 ∧ l = .new a := by
  have h' : (if a.genesis.outs.length ≤ 65535 then .ok (.new a) else .error () : Except Unit RefLedger) = .ok l := h
  split at h'
  · rename_i hs
    cases h'
    exact ⟨hs, rfl⟩
  · cases h'

/-- A reference seal: an output number of the witness transaction. Witnesses are numbered, an
anchor maps inputs to messages, and anchors merge unless they disagree on an input. -/
@[reducible] def refSeal : RgbSeal where
  Src := Nat × Nat
  Definition := Nat
  Published := Nat
  Client := UniqueMap Nat Nat
  WitnessId := Nat
  pubId := id
  merge := UniqueMap.unite
  authToken n := ⟨n⟩
  resolve n w := (w, n)
  toSrc _ := none

end RgbStd
