import PyBitcoinKernel.Lib.Machine
import PyBitcoinKernel.Lib.RefCount

/-!
# The wrappers and their references

A `Context`, `ChainstateManagerOptions` or `ChainstateManager` object owns a kernel
object through its `ptr`. CPython runs the type's `tp_dealloc` when the last reference
to the wrapper is gone, and that destroys the kernel object; a manager may also be
destroyed before, by `close()` or `__exit__`. Options and managers refer to their
`Context`, and `Chain` and `BlockTreeEntry` objects, the views, to the manager they
were obtained from.

The reference counts are `RefCount.Heap`: every wrapper has at most one reference to
another, its `context` or `owner` field. `objs` lists the kernel objects that were
created, and `destroyed` those destroyed again, the latest first.

An entry point runs to its end, although closing and freeing a manager release the GIL:
they empty the field before that, and hold on to the context until after it.
-/

namespace PyBitcoinKernel.Manager.Lifetime

open RefCount (Heap)

/-- The types of the wrappers, and of the kernel objects the first three own. -/
inductive Kind where
  | context
  | chainstateManagerOptions
  | chainstateManager
  | chain
  | blockTreeEntry
  deriving DecidableEq, Repr

/-- The wrappers of objects that belong to the kernel. -/
def Kind.isView : Kind → Bool
  | .context | .chainstateManagerOptions | .chainstateManager => false
  | .chain | .blockTreeEntry => true

/-- A kernel object, and the context it is built on. -/
structure KObj where
  kind : Kind
  base : Option Nat
  deriving DecidableEq, Repr

/-- What the wrappers hold, and the kernel's objects. `ptr` is the object a wrapper owns,
`none` for `NULL`; of a view it is the kernel manager it points into. -/
structure Mem where
  kind : Nat → Kind
  ptr : Nat → Option Nat
  objs : List KObj
  destroyed : List Nat

def Mem.create (m : Mem) (o : KObj) : Mem := { m with objs := m.objs ++ [o] }

def Mem.destroy (m : Mem) (k : Nat) : Mem := { m with destroyed := k :: m.destroyed }

/-- The fields of a new wrapper. -/
def Mem.init (m : Mem) (self : Nat) (kind : Kind) (ptr : Option Nat) : Mem :=
  { m with
    kind := Function.update m.kind self kind
    ptr := Function.update m.ptr self ptr }

/-- `if (self->ptr != NULL)`: empty the field, then destroy what it held. -/
def Mem.release (m : Mem) (self : Nat) : Mem :=
  match m.ptr self with
  | none => m
  | some k => Mem.destroy { m with ptr := Function.update m.ptr self none } k

/-! ## Deallocation

What `tp_dealloc` does apart from `Py_XDECREF` on the wrapper's `context` or `owner`,
which is the next round of `Heap.decref`, and `tp_free`. -/

def contextDealloc (m : Mem) (self : Nat) : Mem := m.release self

/-- The options' pointer is destroyed unconditionally. -/
def chainstateManagerOptionsDealloc (m : Mem) (self : Nat) : Mem :=
  match m.ptr self with
  | none => m
  | some k => m.destroy k

/-- `ChainstateManager_close_impl`: what was destroyed is no longer pointed to. -/
def chainstateManagerCloseImpl (m : Mem) (self : Nat) : Mem := m.release self

def chainstateManagerDealloc (m : Mem) (self : Nat) : Mem := chainstateManagerCloseImpl m self

/-- The chain is the kernel's: there is nothing to destroy, nor is there for an entry. -/
def chainDealloc (m : Mem) (_self : Nat) : Mem := m

def blockTreeEntryDealloc (m : Mem) (_self : Nat) : Mem := m

/-- The `tp_dealloc` slot of the type, before the reference to the owner is given back. -/
def tpDealloc (m : Mem) (self : Nat) : Mem :=
  match m.kind self with
  | .context => contextDealloc m self
  | .chainstateManagerOptions => chainstateManagerOptionsDealloc m self
  | .chainstateManager => chainstateManagerDealloc m self
  | .chain => chainDealloc m self
  | .blockTreeEntry => blockTreeEntryDealloc m self

/-! ## The entry points -/

/-- The wrappers, the references that Python code holds, and what the wrappers hold. -/
structure World where
  heap : Heap
  held : Nat → Nat
  mem : Mem

/-- A new wrapper with its fields set; the caller gets the reference. -/
def World.wrap (s : World) (kind : Kind) (ptr parent : Option Nat) : World where
  heap := s.heap.alloc parent
  held := Function.update s.held s.heap.next 1
  mem := s.mem.init s.heap.next kind ptr

/-- `Py_INCREF`, the reference going to Python code. -/
def World.incref (s : World) (i : Nat) : World :=
  { s with heap := s.heap.incref i, held := Function.update s.held i (s.held i + 1) }

/-- Python code drops a reference. -/
def World.drop (s : World) (i : Nat) : World where
  heap := (s.heap.decref i).1
  held := Function.update s.held i (s.held i - 1)
  mem := (s.heap.decref i).2.foldl tpDealloc s.mem

/-- How a constructor's calls end: the kernel returns `NULL`, or it creates the object
and then `tp_alloc` fails, or all goes well. -/
inductive Outcome where
  | kernelFails
  | allocFails
  | ok
  deriving DecidableEq, Repr

/-- The end of a constructor. An object that gets no wrapper is destroyed at once. -/
def construct (s : World) (o : KObj) (context : Option Nat) : Outcome → World
  | .kernelFails => s
  | .allocFails => { s with mem := (s.mem.create o).destroy s.mem.objs.length }
  | .ok => World.wrap { s with mem := s.mem.create o } o.kind (some s.mem.objs.length) context

def contextNew (s : World) (out : Outcome) : World := construct s ⟨.context, none⟩ none out

def chainstateManagerOptionsNew (s : World) (context : Nat) (out : Outcome) : World :=
  construct s ⟨.chainstateManagerOptions, s.mem.ptr context⟩ (some context) out

/-- The kernel builds the manager on the context of its options; the wrapper takes over
their `context` field. -/
def chainstateManagerNew (s : World) (options : Nat) (out : Outcome) : World :=
  construct s ⟨.chainstateManager, ((s.mem.ptr options).bind (s.mem.objs[·]?)).bind KObj.base⟩
    (s.heap.parent options) out

/-- `CHECK_PTR`: a closed object raises. -/
def checkPtr (s : World) (self : Nat) (act : World) : World :=
  if (s.mem.ptr self).isSome then act else s

/-- `view_owner_alive`; a view without an owner passes. -/
def viewOwnerAlive (m : Mem) (owner : Option Nat) : Bool :=
  match owner with
  | none => true
  | some i => !(m.kind i = .chainstateManager && (m.ptr i).isNone)

/-- `CHECK_VIEW`: a view whose manager is closed raises. -/
def checkView (s : World) (self : Nat) (act : World) : World :=
  if viewOwnerAlive s.mem (s.heap.parent self) then act else s

/-- `alloc`: whether there is memory for the wrapper. -/
def blockTreeEntryWrap (s : World) (ptr owner : Option Nat) (alloc : Bool) : World :=
  if alloc then s.wrap .blockTreeEntry ptr owner else s

def getActiveChain (s : World) (self : Nat) (alloc : Bool) : World :=
  checkPtr s self (if alloc then s.wrap .chain (s.mem.ptr self) (some self) else s)

def getBestEntry (s : World) (self : Nat) (alloc : Bool) : World :=
  checkPtr s self (blockTreeEntryWrap s (s.mem.ptr self) (some self) alloc)

/-- `found`: whether the kernel returns an entry. -/
def getBlockTreeEntryByHash (s : World) (self : Nat) (found alloc : Bool) : World :=
  checkPtr s self
    (if found then blockTreeEntryWrap s (s.mem.ptr self) (some self) alloc else s)

def chainGetitem (s : World) (self : Nat) (found alloc : Bool) : World :=
  checkView s self
    (if found then blockTreeEntryWrap s (s.mem.ptr self) (s.heap.parent self) alloc else s)

def chainTip (s : World) (self : Nat) (found alloc : Bool) : World :=
  checkView s self
    (if found then blockTreeEntryWrap s (s.mem.ptr self) (s.heap.parent self) alloc else s)

def blockTreeEntryGetPrev (s : World) (self : Nat) (found alloc : Bool) : World :=
  checkView s self
    (if found then blockTreeEntryWrap s (s.mem.ptr self) (s.heap.parent self) alloc else s)

def managerEnter (s : World) (self : Nat) : World := checkPtr s self (s.incref self)

def managerClose (s : World) (self : Nat) : World :=
  { s with mem := chainstateManagerCloseImpl s.mem self }

/-- `__exit__` closes as `close()` does. -/
def managerExit (s : World) (self : Nat) : World :=
  { s with mem := chainstateManagerCloseImpl s.mem self }

/-! ## Programs -/

/-- What a program may do. Failures the code does not choose are part of the event. -/
inductive Event where
  | contextNew (out : Outcome)
  | optionsNew (context : Nat) (out : Outcome)
  | managerNew (options : Nat) (out : Outcome)
  | getActiveChain (manager : Nat) (alloc : Bool)
  | getBestEntry (manager : Nat) (alloc : Bool)
  | getBlockTreeEntryByHash (manager : Nat) (found alloc : Bool)
  | chainGetitem (chain : Nat) (found alloc : Bool)
  | chainTip (chain : Nat) (found alloc : Bool)
  | entryPrev (entry : Nat) (found alloc : Bool)
  | enter (manager : Nat)
  | close (manager : Nat)
  | exit (manager : Nat)
  | copy (i : Nat)
  | drop (i : Nat)
  deriving DecidableEq, Repr

/-- Python code can call a method of what it holds, if it is of that type. -/
def World.call (s : World) (kind : Kind) (self : Nat) (act : World) : Option World :=
  if 0 < s.held self ∧ s.mem.kind self = kind then some act else none

/-- A call of Python code, on objects of the right types that it holds. -/
def World.step (s : World) : Event → Option World
  | .contextNew out => some (Lifetime.contextNew s out)
  | .optionsNew context out => s.call .context context (chainstateManagerOptionsNew s context out)
  | .managerNew options out =>
    s.call .chainstateManagerOptions options (chainstateManagerNew s options out)
  | .getActiveChain i alloc => s.call .chainstateManager i (Lifetime.getActiveChain s i alloc)
  | .getBestEntry i alloc => s.call .chainstateManager i (Lifetime.getBestEntry s i alloc)
  | .getBlockTreeEntryByHash i found alloc =>
    s.call .chainstateManager i (Lifetime.getBlockTreeEntryByHash s i found alloc)
  | .chainGetitem i found alloc => s.call .chain i (Lifetime.chainGetitem s i found alloc)
  | .chainTip i found alloc => s.call .chain i (Lifetime.chainTip s i found alloc)
  | .entryPrev i found alloc => s.call .blockTreeEntry i (blockTreeEntryGetPrev s i found alloc)
  | .enter i => s.call .chainstateManager i (managerEnter s i)
  | .close i => s.call .chainstateManager i (managerClose s i)
  | .exit i => s.call .chainstateManager i (managerExit s i)
  | .copy i => if 0 < s.held i then some (s.incref i) else none
  | .drop i => if 0 < s.held i then some (s.drop i) else none

/-- Before the program runs. -/
def start : World where
  heap := Heap.empty
  held _ := 0
  mem := ⟨fun _ => .context, fun _ => none, [], []⟩

def programs : Machine World Event := ⟨start, World.step⟩

end PyBitcoinKernel.Manager.Lifetime
