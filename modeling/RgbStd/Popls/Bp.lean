import RgbStd.Popls.Txo
/-!
# `RgbWallet` (popls/bp.rs)

| here | there |
| --- | --- |
| `PrefabSeal` … `OpRequest` | the request types (bp.rs:92-95, 177-181, 274-281) |
| `Prefab`, `PrefabBundle`   | bp.rs:321-325, 339 |
| `checkRequest`, `prefab`   | bp.rs:540-641 |
| `blankRequest`, `bundle`   | bp.rs:654-755 |

A call on a wallet returns its result and the wallet after it, which a failed call leaves as far
as it got. A `BTreeMap` is a table that is iterated by `byName`.
-/
namespace RgbStd
open Tables Decode

def BP_BLANK_METHOD : MethodName := "_"

structure PrefabSeal (N : Type) where
  vout : UInt32
  noise : Option N

structure UsedState (Sat : Type) where
  addr : CellAddr
  outpoint : Outpoint
  satisfaction : Option Sat

/-- `OpRequest` (bp.rs:274). -/
structure OpRequest (H : Hypersonic) (T : Type) where
  contractId : ContractId
  method : MethodName
  reading : List CellAddr
  using_ : List (UsedState H.Satisfaction)
  global : List (NamedState H.StateAtom)
  owned : List (NamedState (Assignment (EitherSeal T) H.StrictVal))

inductive UnmatchedState (H : Hypersonic) where
  | stateNameUnknown
  | stateCalc (e : H.StateCalcError)
  | notEnoughChange (name : StateName)

inductive PrefabError (H : Hypersonic) where
  | tooManyInputs
  | tooManyOutputs
  | unmatchedState (e : UnmatchedState H)
  | accept (e : H.AcceptError)

inductive BundleError (H : Hypersonic) where
  | prefab (e : PrefabError H)
  | blank (e : PrefabError H)
  | changeRequired
  | stateNameUnknown
  | stateCalc (e : H.StateCalcError)
  | tooManyBlanks

/-- `Prefab` (bp.rs:321). -/
structure Prefab (H : Hypersonic) where
  closes : SmallSet Outpoint
  defines : SmallSet UInt32
  operation : H.Operation

def Prefab.same {H : Hypersonic} (p q : Prefab H) : Bool :=
  p.closes.same q.closes && p.defines.same q.defines && p.operation = q.operation

/-- Prefabs are compared field by field, sets as the lists of their elements in order. -/
def Prefab.cmp {H : Hypersonic} : Prefab H → Prefab H → Ordering :=
  compareLex (compareOn (·.closes.inOrder)) (compareLex (compareOn (·.defines.inOrder)) (compareOn (·.operation)))

/-- `PrefabBundle` (bp.rs:339), in the order of the set. -/
structure PrefabBundle (H : Hypersonic) where
  prefabs : List (Prefab H)
  small : prefabs.length ≤ 65535

namespace PrefabBundle

variable {H : Hypersonic}

/-- The set of prefabs is collected first, its size is checked last. It is iterated in the order of the prefabs. -/
def collect : List (Prefab H) → List (Prefab H) → List (Prefab H)
  | set, [] => set
  | set, p :: ps => collect (if set.any (·.same p) then set else set ++ [p]) ps

def tryFrom (prefabs : List (Prefab H)) : Option (PrefabBundle H) :=
  let set := (collect [] prefabs).insertionSort fun p q => (p.cmp q).isLE
  if h : set.length ≤ 65535 then some ⟨set, h⟩ else none

def closes (b : PrefabBundle H) : List Outpoint := b.prefabs.flatMap (·.closes.inOrder)

def defines (b : PrefabBundle H) : List UInt32 := b.prefabs.flatMap (·.defines.inOrder)

end PrefabBundle

/-! ## State calculators -/

section
variable {H : Hypersonic}

inductive CalcFailure (H : Hypersonic) where
  | stateUnknown
  | stateCalc (e : H.StateCalcError)

abbrev Calcs (H : Hypersonic) := Table StateName H.StateCalc

/-- The calculator of the state, made when the name is first met, takes one more value. -/
def Calcs.take (articles : H.Articles) (f : H.StateCalc → H.StrictVal → Except H.StateCalcError H.StateCalc)
    (calcs : Calcs H) (name : StateName) (val : H.StrictVal) : Except (CalcFailure H) (Calcs H) :=
  match (get calcs name).or (H.calculate articles name) with
  | none => .error .stateUnknown
  | some calc_ => match f calc_ val with
    | .error e => .error (.stateCalc e)
    | .ok calc_ => .ok (upsert calcs name calc_)

def Calcs.byName (calcs : Calcs H) : List (StateName × H.StateCalc) := calcs.insertionSort fun a b => a.1 ≤ b.1

def UnmatchedState.of : CalcFailure H → UnmatchedState H
  | .stateUnknown => .stateNameUnknown
  | .stateCalc e => .stateCalc e

def BundleError.of : CalcFailure H → BundleError H
  | .stateUnknown => .stateNameUnknown
  | .stateCalc e => .stateCalc e

end

/-! ## `check_request` -/

/-- The first entry with the address, over the names in order. -/
def ContractState.find {H : Hypersonic} {S : RgbSeal} (state : ContractState H S) (addr : CellAddr) :
    Option (StateName × OwnedState H S) :=
  state.owned.findSome? fun (name, map) => (map.find? (·.addr = addr)).map (name, ·)

namespace OpRequest

variable {H : Hypersonic} {S : RgbSeal} {T : Type}

def matchInput (articles : H.Articles) (state : ContractState H S) (calcs : Calcs H)
    (inp : UsedState H.Satisfaction) : Res (UnmatchedState H) (Calcs H) :=
  match state.find inp.addr with
  | none => .error .panic
  | some (name, owned) =>
    (calcs.take articles H.accumulate name owned.assignment.data).mapError fun e => .err (.of e)

def matchOutput (articles : H.Articles) (calcs : Calcs H) (out : NamedState (Assignment (EitherSeal T) H.StrictVal)) :
    Res (UnmatchedState H) (Calcs H) :=
  (calcs.take articles H.lessen out.name out.state.data).mapError fun e => .err (.of e)

/-- Nothing of a state may be left over. -/
def matchRest : List (StateName × H.StateCalc) → Res (UnmatchedState H) Unit
  | [] => .ok ()
  | (name, calc_) :: calcs => match H.diff calc_ with
    | .error e => .error (.err (.stateCalc e))
    | .ok (_ :: _) => .error (.err (.notEnoughChange name))
    | .ok [] => matchRest calcs

/-- `RgbWallet::check_request` (bp.rs:540), given the state and the articles of the contract. -/
def check (request : OpRequest H T) (articles : H.Articles) (state : ContractState H S) :
    Res (UnmatchedState H) Unit := do
  let calcs ← request.using_.foldlM (matchInput articles state) []
  let calcs ← request.owned.foldlM (matchOutput articles) calcs
  matchRest calcs.byName

end OpRequest

/-- What a request becomes before it is called. -/
structure Draft (H : Hypersonic) (B : BpCore) where
  closes : SmallSet Outpoint
  defines : SmallSet UInt32
  call : CallParams H.StrictVal H.StateAtom H.Satisfaction
  seals : SmallMap UInt16 B.txoSeal.Definition

namespace OpRequest

variable {H : Hypersonic} {B : BpCore}

/-- The seal of output `no`: without a noise of its own it gets one derived from the engine. -/
def sealAt (engine : Bytes) (no : Nat) (seal_ : PrefabSeal B.Noise) : WTxoSeal B.Noise :=
  let primary := WOutpoint.wout seal_.vout
  let noise := seal_.noise.getD (B.noiseWith primary engine (UInt64.ofNat no))
  ⟨primary, .noise noise⟩

def authAt (engine : Bytes) (no : Nat) : EitherSeal (PrefabSeal B.Noise) → AuthToken
  | .alt seal_ => B.authToken (sealAt engine no seal_)
  | .token auth => auth

/-- The outputs on the witness transaction: their numbers and their seals. -/
def defineSeals (engine : Bytes) :
    List (NamedState (Assignment (EitherSeal (PrefabSeal B.Noise)) H.StrictVal) × Nat) →
    SmallSet UInt32 → SmallMap UInt16 (WTxoSeal B.Noise) →
    Res (PrefabError H) (SmallSet UInt32 × SmallMap UInt16 (WTxoSeal B.Noise))
  | [], defines, seals => .ok (defines, seals)
  | (out, no) :: owned, defines, seals => match out.state.seal_ with
    | .token _ => defineSeals engine owned defines seals
    | .alt seal_ => match defines.push seal_.vout with
      | none => .error (.err .tooManyOutputs)
      | some defines => match seals.insert (UInt16.ofNat no) (sealAt engine no seal_) with
        | none => .error .panic
        | some seals => defineSeals engine owned defines seals

/-- `ConstructParams` into `CallParams` (bp.rs:594-633). -/
def draft (engine : Bytes) (request : OpRequest H (PrefabSeal B.Noise)) : Res (PrefabError H) (Draft H B) :=
  match SmallSet.ofList (request.using_.map (·.outpoint)) with
  | none => .error (.err .tooManyInputs)
  | some closes => match defineSeals engine request.owned.zipIdx .empty .empty with
    | .error e => .error e
    | .ok (defines, seals) =>
      let owned := request.owned.zipIdx.map fun (out, no) =>
        (⟨out.name, ⟨authAt engine no out.state.seal_, out.state.data⟩⟩ : NamedState (DataCell H.StrictVal))
      .ok
        { closes, defines, seals
          call :=
            { core := { method := request.method, global := request.global, owned }
              using_ := request.using_.foldl (fun t used => upsert t used.addr used.satisfaction) []
              reading := request.reading } }

end OpRequest

/-- The wallet behind the `WalletProvider` trait, as far as operations are made from it. -/
structure Wallet where
  noiseSeed : Vector UInt8 32

/-- `RgbWallet` (bp.rs:372). -/
structure RgbWallet {H : Hypersonic} {B : BpCore} {W : Wire H B.txoSeal} {V : Verifier H B.txoSeal}
    (P : Stockpile W V) where
  wallet : Wallet
  contracts : Contracts P

namespace RgbWallet

variable {H : Hypersonic} {B : BpCore} {W : Wire H B.txoSeal} {V : Verifier H B.txoSeal} {P : Stockpile W V}

/-- `RgbWallet::noise_engine` (bp.rs:445): the bytes the engine was fed. -/
def noiseEngine (w : RgbWallet P) : Bytes := w.wallet.noiseSeed.toList

/-- The engine of a contract's outputs (bp.rs:602, 711). -/
def contractEngine (w : RgbWallet P) (id : ContractId) : Bytes := w.noiseEngine ++ id.bytes.toList

/-- `RgbWallet::check_request` (bp.rs:540). -/
def checkRequest {T : Type} (w : RgbWallet P) (request : OpRequest H T) : Res (UnmatchedState H) Unit × RgbWallet P :=
  match w.contracts.contractState request.contractId with
  | none => (.error .panic, w)
  | some (state, contracts) => match contracts.contractArticles request.contractId with
    | none => (.error .panic, { w with contracts })
    | some (articles, contracts) => (request.check articles state, { w with contracts })

/-- The same failure, named by the caller. -/
def named {A A' E C : Type} (f : A → A') : Halt (MultiError A E C) → Halt (MultiError A' E C)
  | .panic => .panic
  | .err (.a e) => .err (.a (f e))
  | .err (.b e) => .err (.b e)
  | .err (.c e) => .err (.c e)

/-- `RgbWallet::prefab` (bp.rs:587). -/
def prefab (w : RgbWallet P) (request : OpRequest H (PrefabSeal B.Noise)) :
    Res (MultiError (PrefabError H) H.StockError Empty) (Prefab H) × RgbWallet P :=
  match w.checkRequest request with
  | (.error .panic, w) => (.error .panic, w)
  | (.error (.err e), w) => (.error (.err (.a (.unmatchedState e))), w)
  | (.ok (), w) => match request.draft (w.contractEngine request.contractId) with
    | .error .panic => (.error .panic, w)
    | .error (.err e) => (.error (.err (.a e)), w)
    | .ok draft => match w.contracts.contractCall request.contractId draft.call draft.seals with
      | none => (.error .panic, w)
      | some (.error e, contracts) => (.error (named .accept e), { w with contracts })
      | some (.ok operation, contracts) => (.ok ⟨draft.closes, draft.defines, operation⟩, { w with contracts })

/-- Prefabs are made one after another until one fails. -/
def prefabs (w : RgbWallet P) : List (OpRequest H (PrefabSeal B.Noise)) →
    Res (MultiError (PrefabError H) H.StockError Empty) (List (Prefab H)) × RgbWallet P
  | [] => (.ok [], w)
  | request :: requests => match w.prefab request with
    | (.error e, w) => (.error e, w)
    | (.ok p, w) => match w.prefabs requests with
      | (.error e, w) => (.error e, w)
      | (.ok ps, w) => (.ok (p :: ps), w)

/-! ## `bundle` -/

/-- The entries of the state at one of the outpoints, with their names. -/
def entriesAt (state : ContractState H B.txoSeal) (outpoints : List Outpoint) :
    List (StateName × OwnedState H B.txoSeal) :=
  state.owned.flatMap fun (name, map) =>
    (map.filter fun owned => owned.assignment.seal_.primary ∈ outpoints).map (name, ·)

/-- The change of one state, from output number `nonce` on. -/
def changeOutputs (engine : Bytes) (change : Option UInt32) (name : StateName) : List H.StrictVal → Nat →
    Except (BundleError H) (List (NamedState (Assignment (EitherSeal (PrefabSeal B.Noise)) H.StrictVal)))
  | [], _ => .ok []
  | data :: vals, nonce => match change with
    | none => .error .changeRequired
    | some vout => do
      let noise := B.noiseWith (.wout vout) engine (UInt64.ofNat nonce)
      let rest ← changeOutputs engine change name vals (nonce + 1)
      .ok (⟨name, ⟨.alt ⟨vout, some noise⟩, data⟩⟩ :: rest)

def blankOutputs (engine : Bytes) (change : Option UInt32) : List (StateName × H.StateCalc) → Nat →
    Except (BundleError H) (List (NamedState (Assignment (EitherSeal (PrefabSeal B.Noise)) H.StrictVal)))
  | [], _ => .ok []
  | (name, calc_) :: calcs, nonce => do
    let diff ← (H.diff calc_).mapError .stateCalc
    let outs ← changeOutputs engine change name diff nonce
    let rest ← blankOutputs engine change calcs (nonce + diff.length)
    .ok (outs ++ rest)

/-- The blank operation of a contract, if it has state at the outpoints (bp.rs:681-741). -/
def blankRequest (engine : Bytes) (change : Option UInt32) (outpoints : List Outpoint) (id : ContractId)
    (articles : H.Articles) (state : ContractState H B.txoSeal) :
    Except (BundleError H) (Option (OpRequest H (PrefabSeal B.Noise))) :=
  match entriesAt state outpoints with
  | [] => .ok none
  | prev => do
    let calcs ← prev.foldlM (fun (calcs : Calcs H) (name, owned) =>
      (calcs.take articles H.accumulate name owned.assignment.data).mapError .of) []
    let owned ← blankOutputs engine change calcs.byName 0
    .ok (some
      { contractId := id
        method := BP_BLANK_METHOD
        global := []
        reading := []
        using_ := prev.map fun (_, owned) => ⟨owned.addr, owned.assignment.seal_.primary, none⟩
        owned })

/-- The loop over the contracts (bp.rs:673-743). The articles are those of the contract the state
was read from; reading them where no blank is made changes nothing. -/
def blankRequests (w : RgbWallet P) (change : Option UInt32) (contracts : List ContractId)
    (outpoints : List Outpoint) : List ContractId →
    Res (BundleError H) (List (OpRequest H (PrefabSeal B.Noise))) × RgbWallet P
  | [] => (.ok [], w)
  | id :: ids =>
    if id ∈ contracts then w.blankRequests change contracts outpoints ids
    else match w.contracts.contractState id with
      | none => (.error .panic, w)
      | some (state, c) => match c.contractArticles id with
        | none => (.error .panic, { w with contracts := c })
        | some (articles, c) =>
          let w := { w with contracts := c }
          match blankRequest (w.contractEngine id) change outpoints id articles state with
          | .error e => (.error (.err e), w)
          | .ok request => match w.blankRequests change contracts outpoints ids with
            | (.error e, w) => (.error e, w)
            | (.ok requests, w) => (.ok (request.toList ++ requests), w)

/-- The requested prefabs, and the blank requests they call for (bp.rs:659-743). -/
def plan (w : RgbWallet P) (requests : List (OpRequest H (PrefabSeal B.Noise))) (change : Option UInt32) :
    Res (MultiError (BundleError H) H.StockError Empty)
      (List (Prefab H) × List (OpRequest H (PrefabSeal B.Noise))) × RgbWallet P :=
  match w.prefabs requests with
  | (.error e, w) => (.error (named .prefab e), w)
  | (.ok ps, w) =>
    let contracts := ps.map fun p => H.contractId p.operation
    let outpoints := ps.flatMap (·.closes.elems)
    match w.blankRequests change contracts outpoints w.contracts.contractIds with
    | (.error .panic, w) => (.error .panic, w)
    | (.error (.err e), w) => (.error (.err (.a e)), w)
    | (.ok blanks, w) => (.ok (ps, blanks), w)

/-- `RgbWallet::bundle` (bp.rs:654). -/
def bundle (w : RgbWallet P) (requests : List (OpRequest H (PrefabSeal B.Noise))) (change : Option UInt32) :
    Res (MultiError (BundleError H) H.StockError Empty) (PrefabBundle H) × RgbWallet P :=
  match w.plan requests change with
  | (.error e, w) => (.error e, w)
  | (.ok (ps, blanks), w) => match w.prefabs blanks with
    | (.error e, w) => (.error (named .blank e), w)
    | (.ok bs, w) => match PrefabBundle.tryFrom (ps ++ bs) with
      | none => (.error (.err (.a .tooManyBlanks)), w)
      | some b => (.ok b, w)

end RgbWallet

end RgbStd
