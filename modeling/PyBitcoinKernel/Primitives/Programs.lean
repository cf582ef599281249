import PyBitcoinKernel.Lib.Machine
import PyBitcoinKernel.Primitives.Calls

/-!
# Programs over the data wrappers

A program calls entry points on objects it holds references to, copies and drops
references, packs objects into tuples and takes them out again, and is called back by the
kernel; in any order, and with any allocation failing.
-/

namespace PyBitcoinKernel.Primitives

open PyBitcoinKernel.Binding (PyErr PyResult)
open PyBitcoinKernel.Script (Bytes)

/-- The methods, slots and attributes of a wrapper whose value is a Python object of
`Objects`; an index is the one that the slot or the method is called with. -/
inductive Getter where
  | transactionOutputScriptPubkey
  | transactionOutPointTxid
  | transactionInputOutPoint
  | transactionTxid
  | transactionInput (index : Int)
  | transactionOutput (index : Int)
  | transactionInputs
  | transactionOutputs
  | blockHeaderHash
  | blockHeaderPrevHash
  | blockHash
  | blockHeader
  | blockItem (index : Int)
  | coinOutput
  | transactionSpentOutputsItem (index : Int)
  | blockSpentOutputsItem (index : Int)
  | txidToBytes
  | blockHashToBytes
  deriving DecidableEq, Repr

/-- The type of the wrapper it is an attribute or method of. -/
def Getter.kind : Getter → Kind
  | .transactionOutputScriptPubkey => .transactionOutput
  | .transactionOutPointTxid => .transactionOutPoint
  | .transactionInputOutPoint => .transactionInput
  | .transactionTxid | .transactionInput _ | .transactionOutput _ => .transaction
  | .transactionInputs | .transactionOutputs => .transaction
  | .blockHeaderHash | .blockHeaderPrevHash => .blockHeader
  | .blockHash | .blockHeader | .blockItem _ => .block
  | .coinOutput => .coin
  | .transactionSpentOutputsItem _ => .transactionSpentOutputs
  | .blockSpentOutputsItem _ => .blockSpentOutputs
  | .txidToBytes => .txid
  | .blockHashToBytes => .blockHash

/-- The function behind it. -/
def Getter.call : Getter → Nat → State → PyResult Nat × State
  | .transactionOutputScriptPubkey => transactionOutputGetScriptPubkey
  | .transactionOutPointTxid => transactionOutPointGetTxid
  | .transactionInputOutPoint => transactionInputGetOutPoint
  | .transactionTxid => transactionGetTxid
  | .transactionInput index => fun self => transactionGetInput self index
  | .transactionOutput index => fun self => transactionGetOutput self index
  | .transactionInputs => transactionGetInputs
  | .transactionOutputs => transactionGetOutputs
  | .blockHeaderHash => blockHeaderGetHash
  | .blockHeaderPrevHash => blockHeaderGetPrevHash
  | .blockHash => blockGetHash
  | .blockHeader => blockGetHeader
  | .blockItem index => fun self => blockGetitem self index
  | .coinOutput => coinGetOutput
  | .transactionSpentOutputsItem index => fun self => transactionSpentOutputsGetitem self index
  | .blockSpentOutputsItem index => fun self => blockSpentOutputsGetitem self index
  | .txidToBytes => Primitives.txidToBytes
  | .blockHashToBytes => Primitives.blockHashToBytes

/-- The attributes and lengths that are numbers. -/
inductive Reader where
  | transactionOutputAmount
  | transactionOutPointIndex
  | transactionNInputs
  | transactionNOutputs
  | blockHeaderTimestamp
  | blockHeaderBits
  | blockHeaderVersion
  | blockHeaderNonce
  | blockLength
  | blockValidationStateMode
  | blockValidationStateResult
  | coinConfirmationHeight
  | coinIsCoinbase
  | transactionSpentOutputsLength
  | blockSpentOutputsLength
  deriving DecidableEq, Repr

def Reader.kind : Reader → Kind
  | .transactionOutputAmount => .transactionOutput
  | .transactionOutPointIndex => .transactionOutPoint
  | .transactionNInputs | .transactionNOutputs => .transaction
  | .blockHeaderTimestamp | .blockHeaderBits | .blockHeaderVersion | .blockHeaderNonce =>
    .blockHeader
  | .blockLength => .block
  | .blockValidationStateMode | .blockValidationStateResult => .blockValidationState
  | .coinConfirmationHeight | .coinIsCoinbase => .coin
  | .transactionSpentOutputsLength => .transactionSpentOutputs
  | .blockSpentOutputsLength => .blockSpentOutputs

def Reader.call : Reader → Nat → State → PyResult Int × State
  | .transactionOutputAmount => transactionOutputGetAmount
  | .transactionOutPointIndex => transactionOutPointGetIndex
  | .transactionNInputs => transactionGetNInputs
  | .transactionNOutputs => transactionGetNOutputs
  | .blockHeaderTimestamp => blockHeaderGetTimestamp
  | .blockHeaderBits => blockHeaderGetBits
  | .blockHeaderVersion => blockHeaderGetVersion
  | .blockHeaderNonce => blockHeaderGetNonce
  | .blockLength => Primitives.blockLength
  | .blockValidationStateMode => blockValidationStateGetMode
  | .blockValidationStateResult => blockValidationStateGetResult
  | .coinConfirmationHeight => coinGetConfirmationHeight
  | .coinIsCoinbase => coinGetIsCoinbase
  | .transactionSpentOutputsLength => Primitives.transactionSpentOutputsLength
  | .blockSpentOutputsLength => Primitives.blockSpentOutputsLength

/-- What a program may do, and the kernel to it. -/
inductive Op where
  | bytes (data : Bytes)
  | pack (items : List Nat)
  | follow (i j : Nat)
  | copy (i : Nat)
  | drop (i : Nat)
  | blockHashNew (data : Nat) (made : Option Bytes)
  | scriptPubkeyNew (data : Nat) (made : Option Bytes)
  | transactionNew (data : Nat) (made : Option Transaction)
  | blockHeaderNew (data : Nat) (made : Option BlockHeader)
  | blockNew (data : Nat) (made : Option Block)
  | transactionOutputNew (script : Nat) (amount : Int) (made : Bool)
  | precomputedTransactionDataNew (tx spentOutputs : Nat) (made : Bool)
  | get (g : Getter) (self : Nat)
  | read (r : Reader) (self : Nat)
  | readBlock (made : Option Block)
  | readBlockSpentOutputs (made : Option (List (List Coin)))
  | processBlockHeader (header : Nat) (made : Option BlockValidationState)
  | entryBlockHash (hash : Bytes)
  | entryHeader (header : BlockHeader)
  | scriptTrace (f : KFrame) (keeps : Bool)
  | blockChecked (block : Block) (state : BlockValidationState) (keeps : Bool × Bool)
  | blockEvent (block : Block) (keeps : Bool × Bool)
  deriving DecidableEq, Repr

/-- What a program gets to see. -/
inductive Seen where
  | reference (i : Nat)
  | number (n : Int)
  | raised (e : PyErr)
  deriving DecidableEq, Repr

/-- The process, the references that Python code and the interpreter hold, and what the
program has seen, the latest first. -/
structure World where
  state : State
  held : Multiset Nat
  seen : List Seen

/-- An operation, and how the allocations in it end. -/
structure Event where
  op : Op
  memory : List Bool
  deriving DecidableEq, Repr

/-- A wrapper of this type, as `PyObject_TypeCheck` finds it. -/
def Cell.isWrapper (kind : Kind) : Cell → Bool
  | .wrapper kind' _ => kind = kind'
  | _ => false

def Cell.isBytes : Cell → Bool
  | .bytes _ => true
  | _ => false

/-- Objects other than tuples that Python can iterate over. -/
def Cell.isIterable : Cell → Bool
  | .bytes _ | .wrapper .block _ => true
  | .wrapper .transactionSpentOutputs _ | .wrapper .blockSpentOutputs _ => true
  | _ => false

/-- Python code holds a wrapper of this type. -/
def World.Holds (w : World) (kind : Kind) (i : Nat) : Prop :=
  i ∈ w.held ∧ (w.state.heap.cell i).isWrapper kind = true

instance (w : World) (kind : Kind) (i : Nat) : Decidable (w.Holds kind i) :=
  inferInstanceAs (Decidable (_ ∧ _))

def World.HoldsBytes (w : World) (i : Nat) : Prop :=
  i ∈ w.held ∧ (w.state.heap.cell i).isBytes = true

instance (w : World) (i : Nat) : Decidable (w.HoldsBytes i) := inferInstanceAs (Decidable (_ ∧ _))

/-- The reference that a call returns, if it does not raise. -/
def given : PyResult Nat → Multiset Nat
  | .ok i => {i}
  | .error _ => 0

/-- What a call shows the program: a reference, or an exception. -/
def seenOf : PyResult Nat → Seen
  | .ok i => .reference i
  | .error e => .raised e

def World.returns (w : World) (r : PyResult Nat × State) : World where
  state := r.2
  held := given r.1 + w.held
  seen := seenOf r.1 :: w.seen

def numberOf : PyResult Int → Seen
  | .ok n => .number n
  | .error e => .raised e

def World.reads (w : World) (r : PyResult Int × State) : World where
  state := r.2
  held := w.held
  seen := numberOf r.1 :: w.seen

/-- A callback leaves the references that the code called by it keeps. -/
def World.keeps (w : World) (r : List Nat × State) : World where
  state := r.2
  held := r.1 + w.held
  seen := r.1.map .reference ++ w.seen

/-- Python's own tuples take another reference to each item. -/
def packTuple (items : List Nat) (s : State) : PyResult Nat × State :=
  match s.take with
  | (false, s) => (.error noMemory, s)
  | (true, s) =>
    let s := items.foldl (fun s i => pyIncref i s) s
    (.ok s.heap.next, { s with heap := s.heap.alloc (.tuple (items.map some)) })

/-- `none` where the program cannot do it: it lacks a reference, or one of that type. -/
def World.run (w : World) : Op → Option World
  | .bytes data => some (w.returns (pyBytesFromStringAndSize data w.state))
  | .pack items =>
    if ∀ i ∈ items, i ∈ w.held then some (w.returns (packTuple items w.state)) else none
  | .follow i j =>
    if i ∈ w.held ∧ j ∈ (w.state.heap.cell i).refs then
      some ⟨pyIncref j w.state, j ::ₘ w.held, .reference j :: w.seen⟩
    else none
  | .copy i => if i ∈ w.held then some ⟨pyIncref i w.state, i ::ₘ w.held, w.seen⟩ else none
  | .drop i =>
    -- The reference to `None` that the interpreter holds is not the program's.
    if i ∈ w.held.erase pyNone then some ⟨pyDecref i w.state, w.held.erase i, w.seen⟩ else none
  | .blockHashNew data made =>
    if w.HoldsBytes data then some (w.returns (Primitives.blockHashNew data made w.state)) else none
  | .scriptPubkeyNew data made =>
    if w.HoldsBytes data then some (w.returns (Primitives.scriptPubkeyNew data made w.state))
    else none
  | .transactionNew data made =>
    if w.HoldsBytes data then some (w.returns (Primitives.transactionNew data made w.state))
    else none
  | .blockHeaderNew data made =>
    if w.HoldsBytes data then some (w.returns (Primitives.blockHeaderNew data made w.state))
    else none
  | .blockNew data made =>
    if w.HoldsBytes data then some (w.returns (Primitives.blockNew data made w.state)) else none
  | .transactionOutputNew script amount made =>
    if w.Holds .scriptPubkey script then
      some (w.returns (Primitives.transactionOutputNew script amount made w.state))
    else none
  | .precomputedTransactionDataNew tx spentOutputs made =>
    if w.Holds .transaction tx ∧ spentOutputs ∈ w.held ∧
        (w.state.heap.cell spentOutputs).isIterable = false then
      some (w.returns (Primitives.precomputedTransactionDataNew tx spentOutputs made w.state))
    else none
  | .get g self =>
    if w.Holds g.kind self then some (w.returns (g.call self w.state)) else none
  | .read r self =>
    if w.Holds r.kind self then some (w.reads (r.call self w.state)) else none
  | .readBlock made => some (w.returns (chainstateManagerReadBlock made w.state))
  | .readBlockSpentOutputs made =>
    some (w.returns (chainstateManagerReadBlockSpentOutputs made w.state))
  | .processBlockHeader header made =>
    if w.Holds .blockHeader header then
      some (w.returns (chainstateManagerProcessBlockHeader header made w.state))
    else none
  | .entryBlockHash hash => some (w.returns (blockTreeEntryGetBlockHash hash w.state))
  | .entryHeader header => some (w.returns (blockTreeEntryGetHeader header w.state))
  | .scriptTrace f keeps => some (w.keeps (scriptTraceCb f keeps w.state))
  | .blockChecked block state keeps => some (w.keeps (viBlockCheckedCb block state keeps w.state))
  | .blockEvent block keeps => some (w.keeps (viBlockEventCb block keeps w.state))

/-- One operation, if the program may do it; its allocations end as the event says. -/
def World.step (w : World) (e : Event) : Option World :=
  World.run { w with state := { w.state with memory := e.memory } } e.op

/-- Before the program runs: there is `None`, and the interpreter holds it. -/
def start : World where
  state := ⟨⟨1, fun _ => .none, fun i => if i = pyNone then 1 else 0⟩, ⟨[], [], false⟩, 0, []⟩
  held := {pyNone}
  seen := []

def programs : Machine World Event := ⟨start, World.step⟩

end PyBitcoinKernel.Primitives
