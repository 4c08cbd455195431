import RgbStd.Pile.PileFs
/-!
# `Contract` (contract.rs:282-638)

| here | there |
| --- | --- |
| `witnessStatus`, `retrieve` | the best witness of an operation (contract.rs:388-410) |
| `state`                     | `Contract::state` with its two memo tables (contract.rs:458-516) |
| `sanitize` … `splitOps`, `sync` | `Contract::sync`, steps 1-5 (contract.rs:525-593) |
| `call`, `include`           | contract.rs:595-638 |

A failed call leaves the contract as far as it got, so every call returns its result and the
contract after it. Debug assertions are off.
-/
namespace RgbStd
open Tables

structure Contract (H : Hypersonic) (S : RgbSeal) where
  contractId : ContractId
  ledger : H.Ledger
  pile : PileFs S

structure OwnedState (H : Hypersonic) (S : RgbSeal) where
  addr : CellAddr
  assignment : Assignment S.Src H.StrictVal
  status : WitnessStatus

structure ImmutableState (H : Hypersonic) where
  addr : CellAddr
  data : H.StateAtom
  status : WitnessStatus

structure ContractState (H : Hypersonic) (S : RgbSeal) where
  immutable : List (StateName × List (ImmutableState H))
  owned : List (StateName × List (OwnedState H S))
  aggregated : List (StateName × H.StrictVal)

namespace Contract

variable {H : Hypersonic} {S : RgbSeal}

/-- The best mining status of an operation (contract.rs:388). -/
def witnessStatus (c : Contract H S) (opid : Opid) : WitnessStatus :=
  .bestOf ((c.pile.opWitnessIds opid).map c.pile.witnessStatus)

/-- `reduce(|best, other| if best.0.is_better(other.0) { best } else { other })`. -/
def bestWitness (p : PileFs S) : List S.WitnessId → Option S.WitnessId
  | [] => none
  | w :: ws => some (ws.foldl
      (fun best other => if (p.witnessStatus best).isBetter (p.witnessStatus other) then best else other) w)

/-- `Contract::retrieve` (contract.rs:398-410). -/
def retrieve (c : Contract H S) (opid : Opid) : Option (SealWitness S) := do
  let wid ← bestWitness c.pile (c.pile.opWitnessIds opid)
  if (c.pile.witnessStatus wid).isValid then
    return ⟨← c.pile.pubWitness wid, ← c.pile.cliWitness wid⟩
  else none

/-! ## `Contract::state` -/

/-- The memo tables of a `state` call: an operation's own status, and the worst status of its
history. -/
structure Memo where
  cache : Table Opid WitnessStatus
  ancestorCache : Table Opid WitnessStatus

def cachedStatus (c : Contract H S) (m : Memo) (opid : Opid) : WitnessStatus × Memo :=
  match get m.cache opid with
  | some status => (status, m)
  | none =>
    let status := c.witnessStatus opid
    (status, { m with cache := upsert m.cache opid status })

def historyStatus (c : Contract H S) (opid : Opid) : WitnessStatus :=
  ((H.ancestors c.ledger opid).map c.witnessStatus).foldl .worst .genesis

def getStatus (c : Contract H S) (m : Memo) (opid : Opid) (or_ : WitnessStatus) : WitnessStatus × Memo :=
  match get m.ancestorCache opid with
  | some status => (status.worst or_, m)
  | none =>
    let status := c.historyStatus opid
    (status.worst or_, { m with ancestorCache := upsert m.ancestorCache opid status })

/-- A copy of the state for each of the witnesses created for the operation. -/
def ownedCopies (c : Contract H S) (addr : CellAddr) (s : S.Definition) (data : H.StrictVal) :
    List S.WitnessId → Memo → List (OwnedState H S) × Memo
  | [], m => ([], m)
  | wid :: wids, m =>
    let (status, m) := c.getStatus m addr.opid (c.pile.witnessStatus wid)
    let (rest, m) := c.ownedCopies addr s data wids m
    (⟨addr, ⟨S.resolve s wid, data⟩, status⟩ :: rest, m)

def ownedCells (c : Contract H S) : List (CellAddr × H.StrictVal) → Memo → List (OwnedState H S) × Memo
  | [], m => ([], m)
  | (addr, data) :: cells, m =>
    match c.pile.seal addr with
    | none => c.ownedCells cells m
    | some s => match S.toSrc s with
      | some src =>
        let (own, m) := c.cachedStatus m addr.opid
        let (status, m) := c.getStatus m addr.opid own
        let (rest, m) := c.ownedCells cells m
        (⟨addr, ⟨src, data⟩, status⟩ :: rest, m)
      | none =>
        let (copies, m) := c.ownedCopies addr s data (c.pile.opWitnessIds addr.opid) m
        let (rest, m) := c.ownedCells cells m
        (copies ++ rest, m)

def ownedMaps (c : Contract H S) :
    List (StateName × List (CellAddr × H.StrictVal)) → Memo → List (StateName × List (OwnedState H S)) × Memo
  | [], m => ([], m)
  | (name, cells) :: maps, m =>
    let (state, m) := c.ownedCells cells m
    let (rest, m) := c.ownedMaps maps m
    ((name, state) :: rest, m)

def immutableCells (c : Contract H S) : List (CellAddr × H.StateAtom) → Memo → List (ImmutableState H) × Memo
  | [], m => ([], m)
  | (addr, data) :: cells, m =>
    let (own, m) := c.cachedStatus m addr.opid
    let (status, m) := c.getStatus m addr.opid own
    let (rest, m) := c.immutableCells cells m
    (⟨addr, data, status⟩ :: rest, m)

def immutableMaps (c : Contract H S) :
    List (StateName × List (CellAddr × H.StateAtom)) → Memo → List (StateName × List (ImmutableState H)) × Memo
  | [], m => ([], m)
  | (name, cells) :: maps, m =>
    let (state, m) := c.immutableCells cells m
    let (rest, m) := c.immutableMaps maps m
    ((name, state) :: rest, m)

/-- `Contract::state` (contract.rs:462). -/
def state (c : Contract H S) : ContractState H S :=
  let (owned, m) := c.ownedMaps (H.owned c.ledger) ⟨[], []⟩
  let (immutable, _) := c.immutableMaps (H.global c.ledger) m
  { immutable, owned, aggregated := H.aggregated c.ledger }

/-! ## `Contract::sync` -/

/-- Step 1: drop unknown witnesses and statuses equal to the stored ones. -/
def sanitize (p : PileFs S) (changed : List (S.WitnessId × WitnessStatus)) :
    Table S.WitnessId WitnessStatus :=
  changed.foldl (fun wids e =>
    if p.hasWitness e.1 then
      if e.2 = p.witnessStatus e.1 then wids else upsert wids e.1 e.2
    else wids) []

/-- Step 2: the operations of the affected witnesses with their status before the update. -/
def affectedOps (c : Contract H S) (wids : Table S.WitnessId WitnessStatus) : Table Opid WitnessStatus :=
  ((keys wids).flatMap c.pile.opsByWitnessId).foldl (fun ops opid => upsert ops opid (c.witnessStatus opid)) []

/-- Step 3. -/
def updateStatuses (p : PileFs S) (wids : Table S.WitnessId WitnessStatus) : Option (PileFs S) :=
  wids.foldlM (fun p e => p.updateWitnessStatus e.1 e.2) p

/-- Step 4: the operations that became invalid and those that became valid. -/
def splitOps (c : Contract H S) (ops : Table Opid WitnessStatus) : List Opid × List Opid :=
  ops.foldl (fun acc e =>
    let new := c.witnessStatus e.1
    if e.2.isValid == new.isValid then acc
    else if new.isValid then (acc.1, acc.2 ++ [e.1])
    else (acc.1 ++ [e.1], acc.2)) ([], [])

/-- `Contract::sync` (contract.rs:525). -/
def sync (c : Contract H S) (changed : List (S.WitnessId × WitnessStatus)) :
    Res (MultiError H.AcceptError H.StockError Empty) Unit × Contract H S :=
  let wids := sanitize c.pile changed
  let ops := c.affectedOps wids
  match updateStatuses c.pile wids with
  | none => (.error .panic, c)
  | some pile =>
    let c := { c with pile }
    let (rollBack, forward) := c.splitOps ops
    match H.rollback c.ledger rollBack with
    | (.error e, ledger) => (.error (.err (.b e)), { c with ledger })
    | (.ok (), ledger) =>
      let c := { c with ledger, pile := c.pile.commit }
      match H.forward c.ledger forward with
      | (.error e, ledger) => (.error (.err e), { c with ledger })
      | (.ok (), ledger) => (.ok (), { c with ledger, pile := c.pile.commit })

/-- `Contract::call` (contract.rs:601). -/
def call (c : Contract H S) (params : CallParams H.StrictVal H.StateAtom H.Satisfaction)
    (seals : SmallMap UInt16 S.Definition) :
    Res (MultiError H.AcceptError H.StockError Empty) H.Operation × Contract H S :=
  match H.call c.ledger params with
  | (.error e, ledger) => (.error (.err e), { c with ledger })
  | (.ok opid, ledger) =>
    match c.pile.addSeals opid seals.entries with
    | none => (.error .panic, { c with ledger })
    | some pile => (.ok (H.operation ledger opid), { c with ledger, pile })

end Contract

/-- `Contract::include` (contract.rs:614): merges the anchor with the stored one if the witness
is known, registers the witness as tentative and commits. `none` is a panic: of the merge
(`expect`) or of a table of the pile. -/
def Contract.include {H : Hypersonic} {S : RgbSeal} (c : Contract H S) (opid : Opid) (anchor : S.Client)
    (published : S.Published) : Option (Contract H S) :=
  let wid := S.pubId published
  let merged := match c.pile.cliWitness wid with
    | some prev => if prev ≠ anchor then S.merge prev anchor else some prev
    | none => some anchor
  merged.bind fun anchor =>
    (c.pile.addWitness opid wid published anchor .tentative).map fun pile => { c with pile := pile.commit }

end RgbStd
