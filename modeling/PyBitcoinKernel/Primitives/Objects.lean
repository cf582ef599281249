import PyBitcoinKernel.Lib.RefGraph
import PyBitcoinKernel.Script.Instruction

/-!
# Python objects that own kernel objects

The wrappers of `_bitcoinkernel.c` for transactions, blocks, hashes and their parts own
the `btck_*` object they point to, and destroy it in `tp_dealloc`. The kernel hands out
such objects by pointer; here a pointer is the number of the object, in the order in which
they were created, and its type is part of the object.

Python objects are the cells of a `RefGraph.Heap`: a wrapper refers to no other Python
object, a tuple to its items, and a trace frame to the four it is made of. `State` is the
process as the extension module sees it. Whether an allocation succeeds is not up to the
code: `memory` says it for the next ones, and those it does not list succeed.
-/

namespace PyBitcoinKernel.Primitives

open PyBitcoinKernel.Script (Bytes)
open RefGraph (Heap)

/-! ## The kernel's objects -/

/-- The types of kernel objects that a wrapper owns. -/
inductive Kind where
  | txid
  | blockHash
  | scriptPubkey
  | transactionOutput
  | transactionOutPoint
  | transactionInput
  | transaction
  | precomputedTransactionData
  | blockHeader
  | block
  | blockValidationState
  | coin
  | transactionSpentOutputs
  | blockSpentOutputs
  deriving DecidableEq, Repr

/-- `btck_TransactionOutPoint`: the output that an input spends. An input has nothing else that
can be read. -/
structure TransactionOutPoint where
  txid : Bytes
  index : UInt32
  deriving DecidableEq, Repr

structure TransactionOutput where
  scriptPubkey : Bytes
  amount : Int
  deriving DecidableEq, Repr

/-- `btck_Transaction`, as far as its getters go. -/
structure Transaction where
  txid : Bytes
  inputs : List TransactionOutPoint
  outputs : List TransactionOutput
  deriving DecidableEq, Repr

/-- `btck_PrecomputedTransactionData`: what it was computed from. -/
structure PrecomputedTransactionData where
  txTo : Transaction
  spentOutputs : List TransactionOutput
  deriving DecidableEq, Repr

/-- `btck_BlockHeader`, with the hash that the kernel computes of it. -/
structure BlockHeader where
  hash : Bytes
  prevHash : Bytes
  timestamp : UInt32
  bits : UInt32
  version : Int
  nonce : UInt32
  deriving DecidableEq, Repr

structure Block where
  header : BlockHeader
  transactions : List Transaction
  deriving DecidableEq, Repr

/-- `btck_BlockValidationState`: both are enumerations of the kernel. -/
structure BlockValidationState where
  mode : Nat
  result : Nat
  deriving DecidableEq, Repr

/-- `btck_Coin`: an output, and the block it was confirmed in. -/
structure Coin where
  confirmationHeight : UInt32
  isCoinbase : Bool
  output : TransactionOutput
  deriving DecidableEq, Repr

/-- What the kernel's functions can read from an object of each type. -/
abbrev Data : Kind → Type
  | .txid => Bytes
  | .blockHash => Bytes
  | .scriptPubkey => Bytes
  | .transactionOutput => TransactionOutput
  | .transactionOutPoint => TransactionOutPoint
  | .transactionInput => TransactionOutPoint
  | .transaction => Transaction
  | .precomputedTransactionData => PrecomputedTransactionData
  | .blockHeader => BlockHeader
  | .block => Block
  | .blockValidationState => BlockValidationState
  | .coin => Coin
  | .transactionSpentOutputs => List Coin
  | .blockSpentOutputs => List (List Coin)

/-- A kernel object: its type, and what it holds. -/
structure KObj where
  kind : Kind
  data : Data kind

/-- The objects created, those destroyed again, each with the type whose function was
called, the latest first, and whether an object was read that was destroyed before or is
of another type, or an assertion of the kernel failed. -/
structure Kernel where
  objs : List KObj
  destroyed : List (Kind × Nat)
  fault : Bool

/-- `btck_*_destroy`. -/
def Kernel.destroy (k : Kernel) (kind : Kind) (ptr : Nat) : Kernel :=
  { k with destroyed := (kind, ptr) :: k.destroyed }

/-- What is there to read behind a pointer of this type. -/
def Kernel.read (k : Kernel) (kind : Kind) (ptr : Nat) : Option (Data kind) :=
  if (kind, ptr) ∈ k.destroyed then none
  else match k.objs[ptr]? with
    | none => none
    | some o => if h : o.kind = kind then some (h ▸ o.data) else none

/-! ## Python objects -/

/-- `ScriptTraceFrameObject`, with the fields that are Python objects; `none` for `NULL`. -/
structure ScriptTraceFrame where
  stack : Option Nat
  altstack : Option Nat
  script : Option Nat
  tapleafHash : Option Nat
  deriving DecidableEq, Repr

/-- The content of a Python object. A slot of a tuple is `none` for as long as it has not
been set. -/
inductive Cell where
  | none
  | wrapper (kind : Kind) (ptr : Nat)
  | blockTreeEntry
  | bytes (data : Bytes)
  | tuple (items : List (Option Nat))
  | frame (fields : ScriptTraceFrame)
  deriving DecidableEq, Repr

/-- The references in a content, in the order in which freeing it gives them back: tuples
are cleared from the end. -/
def Cell.refs : Cell → List Nat
  | .tuple items => items.reverse.reduceOption
  | .frame f => [f.stack, f.altstack, f.script, f.tapleafHash].reduceOption
  | _ => []

/-- The kernel object a content owns. -/
def Cell.handles : Cell → List (Kind × Nat)
  | .wrapper kind ptr => [(kind, ptr)]
  | _ => []

/-- The Python objects, the kernel's, the blocks that were obtained from `PyMem_Malloc` and
not yet freed, and how the next allocations end. -/
structure State where
  heap : Heap Cell
  kernel : Kernel
  blocks : Nat
  memory : List Bool

/-! ### `tp_dealloc`

What it does apart from `Py_XDECREF` on the fields of a trace frame, which are the next
rounds of `Heap.decref`, and `tp_free`. -/

def txidDealloc (k : Kernel) (ptr : Nat) : Kernel := k.destroy .txid ptr

def blockHashDealloc (k : Kernel) (ptr : Nat) : Kernel := k.destroy .blockHash ptr

def scriptPubkeyDealloc (k : Kernel) (ptr : Nat) : Kernel := k.destroy .scriptPubkey ptr

def transactionOutputDealloc (k : Kernel) (ptr : Nat) : Kernel := k.destroy .transactionOutput ptr

def transactionOutPointDealloc (k : Kernel) (ptr : Nat) : Kernel :=
  k.destroy .transactionOutPoint ptr

def transactionInputDealloc (k : Kernel) (ptr : Nat) : Kernel := k.destroy .transactionInput ptr

def transactionDealloc (k : Kernel) (ptr : Nat) : Kernel := k.destroy .transaction ptr

def precomputedTransactionDataDealloc (k : Kernel) (ptr : Nat) : Kernel :=
  k.destroy .precomputedTransactionData ptr

def blockHeaderDealloc (k : Kernel) (ptr : Nat) : Kernel := k.destroy .blockHeader ptr

def blockDealloc (k : Kernel) (ptr : Nat) : Kernel := k.destroy .block ptr

def blockValidationStateDealloc (k : Kernel) (ptr : Nat) : Kernel :=
  k.destroy .blockValidationState ptr

def coinDealloc (k : Kernel) (ptr : Nat) : Kernel := k.destroy .coin ptr

def transactionSpentOutputsDealloc (k : Kernel) (ptr : Nat) : Kernel :=
  k.destroy .transactionSpentOutputs ptr

def blockSpentOutputsDealloc (k : Kernel) (ptr : Nat) : Kernel := k.destroy .blockSpentOutputs ptr

/-- The `tp_dealloc` slot of the type of a Python object. -/
def tpDealloc (k : Kernel) : Cell → Kernel
  | .wrapper .txid ptr => txidDealloc k ptr
  | .wrapper .blockHash ptr => blockHashDealloc k ptr
  | .wrapper .scriptPubkey ptr => scriptPubkeyDealloc k ptr
  | .wrapper .transactionOutput ptr => transactionOutputDealloc k ptr
  | .wrapper .transactionOutPoint ptr => transactionOutPointDealloc k ptr
  | .wrapper .transactionInput ptr => transactionInputDealloc k ptr
  | .wrapper .transaction ptr => transactionDealloc k ptr
  | .wrapper .precomputedTransactionData ptr => precomputedTransactionDataDealloc k ptr
  | .wrapper .blockHeader ptr => blockHeaderDealloc k ptr
  | .wrapper .block ptr => blockDealloc k ptr
  | .wrapper .blockValidationState ptr => blockValidationStateDealloc k ptr
  | .wrapper .coin ptr => coinDealloc k ptr
  | .wrapper .transactionSpentOutputs ptr => transactionSpentOutputsDealloc k ptr
  | .wrapper .blockSpentOutputs ptr => blockSpentOutputsDealloc k ptr
  | .none | .blockTreeEntry | .bytes _ | .tuple _ | .frame _ => k

/-- Every type destroys what it points to with its own function. -/
theorem tpDealloc_wrapper (k : Kernel) (kind : Kind) (ptr : Nat) :
    tpDealloc k (.wrapper kind ptr) = k.destroy kind ptr := by
  cases kind <;> rfl

/-! ## Steps of C code -/

/-- Whether the next allocation succeeds. -/
def State.take (s : State) : Bool × State :=
  match s.memory with
  | [] => (true, s)
  | ok :: rest => (ok, { s with memory := rest })

/-- `PyObject_New`, `tp_alloc` and the constructors of tuples and bytes, with the fields set
that the caller sets right after. -/
def pyObjectNew (c : Cell) (s : State) : Option Nat × State :=
  match s.take with
  | (false, s) => (none, s)
  | (true, s) => (some s.heap.next, { s with heap := s.heap.alloc c })

/-- `Py_INCREF`. -/
def pyIncref (i : Nat) (s : State) : State := { s with heap := s.heap.incref i }

/-- `Py_DECREF`, with the deallocations it leads to. -/
def pyDecref (i : Nat) (s : State) : State :=
  { s with
    heap := (s.heap.decref Cell.refs i).1
    kernel := (s.heap.decref Cell.refs i).2.foldl tpDealloc s.kernel }

/-- `Py_XDECREF`. -/
def pyXDecref (o : Option Nat) (s : State) : State :=
  match o with
  | none => s
  | some i => pyDecref i s

/-- `PyMem_Malloc`: whether there is memory, and then one block more. -/
def pyMemMalloc (s : State) : Bool × State :=
  match s.take with
  | (false, s) => (false, s)
  | (true, s) => (true, { s with blocks := s.blocks + 1 })

def pyMemFree (s : State) : State := { s with blocks := s.blocks - 1 }

/-- A kernel function that returns a new object: its pointer. -/
def State.create (o : KObj) (s : State) : Nat × State :=
  (s.kernel.objs.length, { s with kernel := { s.kernel with objs := s.kernel.objs ++ [o] } })

/-- The `btck_*_destroy` function of this type, called on a pointer. -/
def State.destroy (kind : Kind) (ptr : Nat) (s : State) : State :=
  { s with kernel := s.kernel.destroy kind ptr }

/-- A kernel function that reads the object behind a pointer; `f` gives `none` where the
kernel asserts. -/
def State.access {β : Type} (kind : Kind) (ptr : Nat) (f : Data kind → Option β) (s : State) :
    Option β × State :=
  match (s.kernel.read kind ptr).bind f with
  | none => (none, { s with kernel := { s.kernel with fault := true } })
  | some v => (some v, s)

/-- What the kernel asserts of its arguments, or relies on. -/
def State.requires (p : Bool) (s : State) : State :=
  if p then s else { s with kernel := { s.kernel with fault := true } }

@[simp] theorem State.requires_true (s : State) : s.requires true = s := rfl

/-- The field `ptr` of a wrapper. -/
def State.ptr (s : State) (i : Nat) : Nat :=
  match s.heap.cell i with
  | .wrapper _ ptr => ptr
  | _ => 0

/-- `PyTuple_New(n)`: the slots are `NULL`. -/
def pyTupleNew (n : Nat) (s : State) : Option Nat × State :=
  pyObjectNew (.tuple (List.replicate n none)) s

/-- `PyTuple_SET_ITEM`, which takes over the reference to the item. -/
def pyTupleSetItem (tuple i item : Nat) (s : State) : State :=
  match s.heap.cell tuple with
  | .tuple items => { s with heap := s.heap.set tuple (.tuple (items.set i (some item))) }
  | _ => s

end PyBitcoinKernel.Primitives
