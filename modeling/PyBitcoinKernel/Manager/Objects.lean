import PyBitcoinKernel.Binding.Python

/-!
# `ChainstateManager`, `Chain` and `BlockTreeEntry`

The three object types around the chainstate manager, as the extension module
implements them. A `ChainstateManager` object owns a kernel manager through its
`ptr` until `close()` empties that field; `Chain` and `BlockTreeEntry` objects
are views: a kernel pointer, and a reference to the manager object it was
obtained from, their `owner`.

An entry point is an `Act`: the kernel calls it makes, with the pointers it
passes, and what it returns to Python. What the kernel answers is given by a
`Kernel`, a new one for each call, so the chain may change between two calls.
-/

namespace PyBitcoinKernel.Manager

open PyBitcoinKernel.Binding

/-- A pointer handed out by the kernel, by the manager it belongs to. -/
inductive KPtr where
  | manager (home : Nat)
  | chain (home : Nat)
  | entry (home : Nat) (id : Nat)
  deriving DecidableEq, Repr

/-- The manager a pointer belongs to. -/
def KPtr.home : KPtr → Nat
  | .manager home => home
  | .chain home => home
  | .entry home _ => home

/-- A call into the kernel, with its pointer arguments. -/
inductive KCall where
  | chainGetHeight (chain : KPtr)
  | chainGetByHeight (chain : KPtr) (height : Int)
  | chainContains (chain entry : KPtr)
  | entryGetHeight (entry : KPtr)
  | entryGetBlockHash (entry : KPtr)
  | entryGetBlockHeader (entry : KPtr)
  | entryGetPrevious (entry : KPtr)
  | entryEquals (a b : KPtr)
  | getBestEntry (manager : KPtr)
  | getActiveChain (manager : KPtr)
  | getBlockTreeEntryByHash (manager : KPtr)
  | blockRead (manager entry : KPtr)
  | blockSpentOutputsRead (manager entry : KPtr)
  | managerDestroy (manager : KPtr)
  deriving DecidableEq, Repr

/-- The pointers a call passes. -/
def KCall.ptrs : KCall → List KPtr
  | .chainGetHeight chain => [chain]
  | .chainGetByHeight chain _ => [chain]
  | .chainContains chain entry => [chain, entry]
  | .entryGetHeight entry => [entry]
  | .entryGetBlockHash entry => [entry]
  | .entryGetBlockHeader entry => [entry]
  | .entryGetPrevious entry => [entry]
  | .entryEquals a b => [a, b]
  | .getBestEntry manager => [manager]
  | .getActiveChain manager => [manager]
  | .getBlockTreeEntryByHash manager => [manager]
  | .blockRead manager entry => [manager, entry]
  | .blockSpentOutputsRead manager entry => [manager, entry]
  | .managerDestroy manager => [manager]

/-- What the kernel answers. Objects it hands over by value (hashes, headers,
blocks, spent outputs) are elements of `Obj`; entries are named by their number
within the manager asked. -/
structure Kernel (Obj : Type) where
  chainGetHeight : KPtr → Int
  chainGetByHeight : KPtr → Int → Option Nat
  chainContains : KPtr → KPtr → Bool
  entryGetHeight : KPtr → Int
  entryGetBlockHash : KPtr → Obj
  entryGetBlockHeader : KPtr → Obj
  entryGetPrevious : KPtr → Option Nat
  entryEquals : KPtr → KPtr → Bool
  getBestEntry : KPtr → Nat
  getBlockTreeEntryByHash : KPtr → Obj → Option Nat
  blockRead : KPtr → KPtr → Option Obj
  blockSpentOutputsRead : KPtr → KPtr → Option Obj

/-- A kernel whose best entry is number 7 and whose chains contain everything. -/
def answers : Kernel Unit where
  chainGetHeight _ := 0
  chainGetByHeight _ _ := some 0
  chainContains _ _ := true
  entryGetHeight _ := 0
  entryGetBlockHash _ := ()
  entryGetBlockHeader _ := ()
  entryGetPrevious _ := none
  entryEquals _ _ := false
  getBestEntry _ := 7
  getBlockTreeEntryByHash _ _ := none
  blockRead _ _ := some ()
  blockSpentOutputsRead _ _ := some ()

/-- A `Chain` or `BlockTreeEntry` object. -/
structure View where
  ptr : KPtr
  owner : Option Nat
  deriving DecidableEq, Repr

/-- The Python objects: each manager's `ptr`, `none` once closed, and the views
obtained so far. -/
structure World where
  managers : List (Option KPtr)
  chains : List View
  entries : List View
  deriving DecidableEq, Repr

/-- What an entry point returns. -/
inductive Value (Obj : Type) where
  | none
  | notImplemented
  | bool (b : Bool)
  | int (n : Int)
  | str (s : String)
  | object (o : Obj)
  | chain (v : View)
  | entry (v : View)

/-- An argument, by the type checks it passes. -/
inductive PyArg (Obj : Type) where
  | entry (v : View)
  | blockHash (h : Obj)
  | other

/-! ## Acts -/

/-- The kernel calls an entry point makes, and its outcome. -/
structure Act (α : Type) where
  calls : List KCall
  result : PyResult α

instance : Monad Act where
  pure a := ⟨[], .ok a⟩
  bind x f :=
    match x.result with
    | .error e => ⟨x.calls, .error e⟩
    | .ok a => ⟨x.calls ++ (f a).calls, (f a).result⟩

/-- Raise an exception. -/
def Act.raise {α : Type} (exc : ExcType) (msg : String) : Act α := ⟨[], Binding.raise exc msg⟩

/-- A step that does not call the kernel. -/
def Act.lift {α : Type} (r : PyResult α) : Act α := ⟨[], r⟩

/-- Call the kernel. -/
def Act.call {α : Type} (c : KCall) (answer : α) : Act α := ⟨[c], .ok answer⟩

variable {α β : Type}

/-- Refused with `ValueError` before any kernel call. -/
def Act.Refused (a : Act α) : Prop := a.calls = [] ∧ ∃ msg, a.result = Binding.raise .valueError msg

theorem Act.Refused.bind {a : Act α} (h : a.Refused) (f : α → Act β) : (a >>= f).Refused := by
  obtain ⟨calls, result⟩ := a
  obtain ⟨rfl, msg, rfl⟩ := h
  exact ⟨rfl, msg, rfl⟩

/-- Whatever is returned satisfies `P`. -/
def Act.Ensures (a : Act α) (P : α → Prop) : Prop := ∀ x, a.result = .ok x → P x

theorem Act.ensures_pure {P : α → Prop} {x : α} (h : P x) : (pure x : Act α).Ensures P := by
  intro y hy
  exact Except.ok.inj hy ▸ h

theorem Act.ensures_raise {P : α → Prop} (exc : ExcType) (msg : String) :
    (Act.raise exc msg : Act α).Ensures P :=
  nofun

theorem Act.Ensures.bind {a : Act α} {f : α → Act β} {P : β → Prop}
    (h : a.Ensures fun x => (f x).Ensures P) : (a >>= f).Ensures P := by
  obtain ⟨calls, result⟩ := a
  intro y hy
  cases result with
  | error e => exact nomatch hy
  | ok x => exact h x rfl y hy

theorem Act.ensures_bind {a : Act α} {f : α → Act β} {P : β → Prop}
    (h : ∀ x, (f x).Ensures P) : (a >>= f).Ensures P :=
  Act.Ensures.bind fun x _ => h x

theorem Act.ensures_call {c : KCall} {answer : α} {f : α → Act β} {P : β → Prop}
    (h : (f answer).Ensures P) : (Act.call c answer >>= f).Ensures P :=
  Act.Ensures.bind fun _ hx => Except.ok.inj hx ▸ h

/-! ## Entry points -/

variable {Obj : Type}

/-- `view_owner_alive`, and so `CHECK_VIEW`. -/
def viewOwnerAlive (s : World) (owner : Option Nat) : Act Unit :=
  match owner.bind fun m => s.managers[m]? with
  | some .none => .raise .valueError "the chainstate manager this object belongs to is closed"
  | _ => pure ()

/-- `CHECK_PTR`, and the read of the pointer it guards. -/
def checkPtr (s : World) (m : Nat) : Act KPtr :=
  match s.managers[m]? with
  | some (some ptr) => pure ptr
  | _ => .raise .valueError "operation on closed object"

/-- `BlockTreeEntry_wrap`, with an entry of the manager `parent` belongs to. -/
def entryWrap (parent : KPtr) (id : Nat) (owner : Option Nat) : View :=
  ⟨.entry parent.home id, owner⟩

def entryGetHeight (K : Kernel Obj) (s : World) (self : View) : Act (Value Obj) := do
  viewOwnerAlive s self.owner
  let height ← .call (.entryGetHeight self.ptr) (K.entryGetHeight self.ptr)
  return .int height

def entryGetBlockHash (K : Kernel Obj) (s : World) (self : View) : Act (Value Obj) := do
  viewOwnerAlive s self.owner
  let hash ← .call (.entryGetBlockHash self.ptr) (K.entryGetBlockHash self.ptr)
  return .object hash

def entryGetHeader (K : Kernel Obj) (s : World) (self : View) : Act (Value Obj) := do
  viewOwnerAlive s self.owner
  let header ← .call (.entryGetBlockHeader self.ptr) (K.entryGetBlockHeader self.ptr)
  return .object header

def entryGetPrev (K : Kernel Obj) (s : World) (self : View) : Act (Value Obj) := do
  viewOwnerAlive s self.owner
  match ← .call (.entryGetPrevious self.ptr) (K.entryGetPrevious self.ptr) with
  | none => return .none
  | some prev => return .entry (entryWrap self.ptr prev self.owner)

/-- The operators of a rich comparison. -/
inductive CompareOp where
  | eq
  | ne
  | ordering
  deriving DecidableEq, Repr

/-- `BlockTreeEntry_richcompare`; both operands are checked. -/
def entryRichcompare (K : Kernel Obj) (s : World) (a b : PyArg Obj) (op : CompareOp) :
    Act (Value Obj) :=
  match op, a, b with
  | .ordering, _, _ => return .notImplemented
  | op, .entry a, .entry b => do
    viewOwnerAlive s a.owner
    viewOwnerAlive s b.owner
    let eq ← .call (.entryEquals a.ptr b.ptr) (K.entryEquals a.ptr b.ptr)
    return .bool (if op = .ne then !eq else eq)
  | _, _, _ => return .notImplemented

/-- What an entry is compared with. -/
inductive Operand where
  | entry (v : View)
  /-- Something else, and what its own comparison answers; `none` for `NotImplemented`. -/
  | other (answer : Option (PyResult Bool))

/-- `self == value` and `value == self`, and the same with `!=`. Where neither object knows
how to compare them, they are equal if they are identical, which an entry and something
else are not. -/
def entryCompare (K : Kernel Obj) (s : World) (self : View) (value : Operand) (negated : Bool) :
    Act (Value Obj) :=
  let op := if negated then CompareOp.ne else .eq
  match value with
  | .entry v => entryRichcompare K s (.entry self) (.entry v) op
  | .other answer => do
    match ← entryRichcompare K s (.entry self) .other op with
    | .notImplemented =>
      let equal ← .lift (answer.getD (.ok negated))
      return .bool equal
    | known => return known

def entryRepr (K : Kernel Obj) (s : World) (self : View) : Act (Value Obj) := do
  viewOwnerAlive s self.owner
  let height ← .call (.entryGetHeight self.ptr) (K.entryGetHeight self.ptr)
  return .str ("<BlockTreeEntry height=" ++ toString height ++ ">")

def chainGetHeight (K : Kernel Obj) (s : World) (self : View) : Act (Value Obj) := do
  viewOwnerAlive s self.owner
  let height ← .call (.chainGetHeight self.ptr) (K.chainGetHeight self.ptr)
  return .int height

def chainLength (K : Kernel Obj) (s : World) (self : View) : Act Int := do
  viewOwnerAlive s self.owner
  let height ← .call (.chainGetHeight self.ptr) (K.chainGetHeight self.ptr)
  return height + 1

def chainGetitem (K : Kernel Obj) (s : World) (self : View) (index : Int) : Act (Value Obj) := do
  viewOwnerAlive s self.owner
  let height ← .call (.chainGetHeight self.ptr) (K.chainGetHeight self.ptr)
  let count := height + 1
  let index := if index < 0 then index + count else index
  if index < 0 ∨ index ≥ count then .raise .indexError "block height out of range"
  else
    let height := castInt index
    match ← .call (.chainGetByHeight self.ptr height) (K.chainGetByHeight self.ptr height) with
    | none => .raise .indexError "block height out of range"
    | some entry => return .entry (entryWrap self.ptr entry self.owner)

/-- `PySequence_GetItem`: a negative index is corrected before `Chain_getitem` is called. -/
def chainSequenceGetItem (K : Kernel Obj) (s : World) (self : View) (index : Int) :
    Act (Value Obj) := do
  if index < 0 then
    let length ← chainLength K s self
    chainGetitem K s self (index + length)
  else chainGetitem K s self index

/-- What may stand between the brackets. -/
inductive Subscript where
  | int (i : Int)
  /-- Something that is no integer, of this type. -/
  | other (type : String)
  deriving DecidableEq

/-- `chain[index]`. The interpreter converts the index first. -/
def chainSubscript (K : Kernel Obj) (s : World) (self : View) : Subscript → Act (Value Obj)
  | .int index => do
    let index ← .lift (asSsize index)
    chainSequenceGetItem K s self index
  | .other type => .raise .typeError ("sequence index must be integer, not '" ++ type ++ "'")

/-- `Chain_contains_impl`: `in`, and behind `Chain_contains`. -/
def chainContainsImpl (K : Kernel Obj) (s : World) (self : View) (value : PyArg Obj) :
    Act (Value Obj) := do
  viewOwnerAlive s self.owner
  match value with
  | .entry v =>
    -- The owner of `v` is not looked at.
    let found ← .call (.chainContains self.ptr v.ptr) (K.chainContains self.ptr v.ptr)
    return .bool found
  | _ => .raise .typeError "expected BlockTreeEntry"

def chainTip (K : Kernel Obj) (s : World) (self : View) : Act (Value Obj) := do
  viewOwnerAlive s self.owner
  let height ← .call (.chainGetHeight self.ptr) (K.chainGetHeight self.ptr)
  match ← .call (.chainGetByHeight self.ptr height) (K.chainGetByHeight self.ptr height) with
  | none => .raise .kernelError "failed to retrieve chain tip"
  | some entry => return .entry (entryWrap self.ptr entry self.owner)

def managerGetBestEntry (K : Kernel Obj) (s : World) (m : Nat) : Act (Value Obj) := do
  let ptr ← checkPtr s m
  let entry ← .call (.getBestEntry ptr) (K.getBestEntry ptr)
  return .entry (entryWrap ptr entry (some m))

def managerGetActiveChain (s : World) (m : Nat) : Act (Value Obj) := do
  let ptr ← checkPtr s m
  let chain ← .call (.getActiveChain ptr) (KPtr.chain ptr.home)
  return .chain ⟨chain, some m⟩

def managerGetBlockTreeEntryByHash (K : Kernel Obj) (s : World) (m : Nat) (arg : PyArg Obj) :
    Act (Value Obj) := do
  let ptr ← checkPtr s m
  match arg with
  | .blockHash h =>
    match ← .call (.getBlockTreeEntryByHash ptr) (K.getBlockTreeEntryByHash ptr h) with
    | none => return .none
    | some entry => return .entry (entryWrap ptr entry (some m))
  | _ => .raise .typeError "expected BlockHash"

/-- What is made of a read from disk. -/
def readResult (failed : String) : Option Obj → Act (Value Obj)
  | none => .raise .kernelError failed
  | some block => return .object block

/-- The shape of the two reads from disk: only the manager is checked. -/
def readEntry (s : World) (m : Nat) (arg : PyArg Obj) (call : KPtr → KPtr → KCall)
    (read : KPtr → KPtr → Option Obj) (failed : String) : Act (Value Obj) := do
  let ptr ← checkPtr s m
  match arg with
  | .entry v =>
    -- Nor is it here: the entry may belong to another manager.
    let answer ← .call (call ptr v.ptr) (read ptr v.ptr)
    readResult failed answer
  | _ => .raise .typeError "expected BlockTreeEntry"

def managerReadBlock (K : Kernel Obj) (s : World) (m : Nat) (arg : PyArg Obj) : Act (Value Obj) :=
  readEntry s m arg .blockRead K.blockRead "failed to read block from disk"

def managerReadBlockSpentOutputs (K : Kernel Obj) (s : World) (m : Nat) (arg : PyArg Obj) :
    Act (Value Obj) :=
  readEntry s m arg .blockSpentOutputsRead K.blockSpentOutputsRead
    "failed to read block spent outputs from disk"

/-- `ChainstateManager_close_impl`. -/
def managerCloseImpl (s : World) (m : Nat) : List KCall × World :=
  match s.managers[m]? with
  | some (some ptr) => ([.managerDestroy ptr], { s with managers := s.managers.set m none })
  | _ => ([], s)

end PyBitcoinKernel.Manager
