import Mathlib.Data.List.Basic

/-!
# The exception in flight

A thread has at most one pending exception, and no function of the bindings gets it
as an argument. A dealloc can run while one is pending, because the stack that held
the object is unwound; destroying the kernel object can call back on the same thread,
into the handler or the logging callback. Each trampoline swallows what the Python
code raised, and it swallows it as *the pending exception*: a method that is missing
is cleared, a method that raises is reported, and one that returns a value has failed
as well, as an exception was pending when it returned.

> `deliver_eq_none`: after any callback, however it goes, nothing is pending.

No dealloc puts aside what was pending before it destroys,

> `dealloc_pending_iff`: a dealloc leaves the pending exception as it was exactly if
> there was none, or the kernel calls nothing back while the object is destroyed.
-/

namespace PyBitcoinKernel.Binding.Pending

variable {ε : Type}

/-! ## Calls into Python -/

/-- How Python code ends: it raises, or it returns a value, with an exception pending or
not. -/
inductive Outcome (ε : Type) where
  | value (pending : Option ε)
  | raised (e : ε)

/-- What Python code does when it is called with this exception pending. -/
abbrev Code (ε : Type) := Option ε → Outcome ε

/-- What an attribute lookup finds; if it runs Python code that empties the pending
exception, that is counted as the method's. -/
inductive Attr (ε : Type) where
  | method (code : Code ε)
  /-- The handler does not have it, or its `__getattr__` raises. -/
  | missing (e : ε)

/-- A handler object, by what is found under a name. -/
abbrev Handler (ε : Type) := String → Attr ε

section Trampolines

-- The `SystemError` of a call that returned a value with an exception set.
variable (systemError : ε)

/-- `PyObject_CallObject`: whether there is a result, and what is pending. -/
def callObject (code : Code ε) (pending : Option ε) : Bool × Option ε :=
  match code pending with
  | .value none => (true, none)
  -- A result with an exception set is no result.
  | .value (some _) => (false, some systemError)
  | .raised e => (false, some e)

/-- `PyErr_Clear`. -/
def errClear (_ : Option ε) : Option ε := none

/-- `PyErr_WriteUnraisable`: what is pending is reported. -/
def writeUnraisable (_ : Option ε) : Option ε := none

/-- `call_handler_method`. -/
def callHandlerMethod (handler : Handler ε) (name : String) (pending : Option ε) : Option ε :=
  match handler name with
  -- The exception of the lookup has replaced what was pending, and both are gone.
  | .missing e => errClear (some e)
  | .method method =>
    match callObject systemError method pending with
    | (true, pending) => pending
    | (false, pending) => writeUnraisable pending

/-- Objects are built one after another, up to the first that fails with an exception. -/
def build : List (Option ε) → Option ε → Bool × Option ε
  | [], pending => (true, pending)
  | none :: rest, pending => build rest pending
  | some e :: _, _ => (false, some e)

/-- What the trampolines of a handler have in common: the arguments are built, and then
the method is called. -/
def notify (name : String) (objects : List (Option ε)) (handler : Handler ε)
    (pending : Option ε) : Option ε :=
  match build objects pending with
  | (true, pending) => callHandlerMethod systemError handler name pending
  | (false, pending) => writeUnraisable pending

/-- `log_cb`. -/
def logCb (msg : Option ε) (callback : Code ε) (pending : Option ε) : Option ε :=
  match build [msg] pending with
  | (true, pending) =>
    match callObject systemError callback pending with
    | (true, pending) => pending
    | (false, pending) => writeUnraisable pending
  | (false, pending) => writeUnraisable pending

/-- `notify_block_tip_cb`. -/
def notifyBlockTipCb (entry args : Option ε) : Handler ε → Option ε → Option ε :=
  notify systemError "block_tip" [entry, args]

/-- `notify_header_tip_cb`. -/
def notifyHeaderTipCb (args : Option ε) : Handler ε → Option ε → Option ε :=
  notify systemError "header_tip" [args]

/-- `notify_progress_cb`. -/
def notifyProgressCb (args : Option ε) : Handler ε → Option ε → Option ε :=
  notify systemError "progress" [args]

/-- `notify_warning_set_cb`. -/
def notifyWarningSetCb (args : Option ε) : Handler ε → Option ε → Option ε :=
  notify systemError "warning_set" [args]

/-- `notify_warning_unset_cb`. -/
def notifyWarningUnsetCb (args : Option ε) : Handler ε → Option ε → Option ε :=
  notify systemError "warning_unset" [args]

/-- `notify_flush_error_cb`. -/
def notifyFlushErrorCb (args : Option ε) : Handler ε → Option ε → Option ε :=
  notify systemError "flush_error" [args]

/-- `notify_fatal_error_cb`. -/
def notifyFatalErrorCb (args : Option ε) : Handler ε → Option ε → Option ε :=
  notify systemError "fatal_error" [args]

/-- `vi_block_checked_cb`. -/
def viBlockCheckedCb (block state args : Option ε) : Handler ε → Option ε → Option ε :=
  notify systemError "block_checked" [block, state, args]

/-- `vi_block_event_cb`. -/
def viBlockEventCb (methodName : String) (block entry args : Option ε) :
    Handler ε → Option ε → Option ε :=
  notify systemError methodName [block, entry, args]

/-- `vi_pow_valid_block_cb`. -/
def viPowValidBlockCb (block entry args : Option ε) : Handler ε → Option ε → Option ε :=
  viBlockEventCb systemError "pow_valid_block" block entry args

/-- `vi_block_connected_cb`. -/
def viBlockConnectedCb (block entry args : Option ε) : Handler ε → Option ε → Option ε :=
  viBlockEventCb systemError "block_connected" block entry args

/-- `vi_block_disconnected_cb`. -/
def viBlockDisconnectedCb (block entry args : Option ε) : Handler ε → Option ε → Option ε :=
  viBlockEventCb systemError "block_disconnected" block entry args

/-! ## What the kernel delivers -/

/-- A callback from the kernel: which objects fail to be built for it, and what the Python
code that it reaches does this time. -/
inductive Delivery (ε : Type) where
  | log (msg : Option ε) (callback : Code ε)
  | blockTip (entry args : Option ε) (handler : Handler ε)
  | headerTip (args : Option ε) (handler : Handler ε)
  | progress (args : Option ε) (handler : Handler ε)
  | warningSet (args : Option ε) (handler : Handler ε)
  | warningUnset (args : Option ε) (handler : Handler ε)
  | flushError (args : Option ε) (handler : Handler ε)
  | fatalError (args : Option ε) (handler : Handler ε)
  | blockChecked (block state args : Option ε) (handler : Handler ε)
  | powValidBlock (block entry args : Option ε) (handler : Handler ε)
  | blockConnected (block entry args : Option ε) (handler : Handler ε)
  | blockDisconnected (block entry args : Option ε) (handler : Handler ε)

/-- What is pending after a callback. The GIL is taken and released around it, which
changes nothing here. -/
def deliver (pending : Option ε) : Delivery ε → Option ε
  | .log msg callback => logCb systemError msg callback pending
  | .blockTip entry args handler => notifyBlockTipCb systemError entry args handler pending
  | .headerTip args handler => notifyHeaderTipCb systemError args handler pending
  | .progress args handler => notifyProgressCb systemError args handler pending
  | .warningSet args handler => notifyWarningSetCb systemError args handler pending
  | .warningUnset args handler => notifyWarningUnsetCb systemError args handler pending
  | .flushError args handler => notifyFlushErrorCb systemError args handler pending
  | .fatalError args handler => notifyFatalErrorCb systemError args handler pending
  | .blockChecked block state args handler =>
    viBlockCheckedCb systemError block state args handler pending
  | .powValidBlock block entry args handler =>
    viPowValidBlockCb systemError block entry args handler pending
  | .blockConnected block entry args handler =>
    viBlockConnectedCb systemError block entry args handler pending
  | .blockDisconnected block entry args handler =>
    viBlockDisconnectedCb systemError block entry args handler pending

/-! ## Deallocs -/

/-- A kernel object, by what it delivers on the thread that destroys it. -/
structure KernelObject (ε : Type) where
  deliveries : List (Delivery ε)

/-- `btck_.._destroy`, between `Py_BEGIN_ALLOW_THREADS` and `Py_END_ALLOW_THREADS`. -/
def KernelObject.destroy (o : KernelObject ε) (pending : Option ε) : Option ε :=
  o.deliveries.foldl (deliver systemError) pending

structure LoggingConnectionObject (ε : Type) where
  ptr : Option (KernelObject ε)

structure ContextObject (ε : Type) where
  ptr : Option (KernelObject ε)
  refcnt : Nat

structure ChainstateManagerObject (ε : Type) where
  ptr : Option (KernelObject ε)
  context : Option (ContextObject ε)

/-- What the deallocs have in common: the kernel object is destroyed, if there is one. -/
def destroyPtr (ptr : Option (KernelObject ε)) (pending : Option ε) : Option ε :=
  match ptr with
  | some ptr => ptr.destroy systemError pending
  | none => pending

/-- `LoggingConnection_dealloc`. -/
def loggingConnectionDealloc (self : LoggingConnectionObject ε) : Option ε → Option ε :=
  destroyPtr systemError self.ptr

/-- `Context_dealloc`. -/
def contextDealloc (self : ContextObject ε) : Option ε → Option ε :=
  destroyPtr systemError self.ptr

/-- `ChainstateManager_close_impl`. -/
def chainstateManagerCloseImpl (self : ChainstateManagerObject ε) : Option ε → Option ε :=
  destroyPtr systemError self.ptr

/-- `Py_XDECREF` of a context. -/
def xdecrefContext (context : Option (ContextObject ε)) (pending : Option ε) : Option ε :=
  match context with
  | some c => if c.refcnt = 1 then contextDealloc systemError c pending else pending
  | none => pending

/-- `ChainstateManager_dealloc`. -/
def chainstateManagerDealloc (self : ChainstateManagerObject ε) (pending : Option ε) : Option ε :=
  xdecrefContext systemError self.context (chainstateManagerCloseImpl systemError self pending)

/-- A wrapper that owns a kernel object which can call back. -/
inductive Wrapper (ε : Type) where
  | loggingConnection (self : LoggingConnectionObject ε)
  | context (self : ContextObject ε)
  | chainstateManager (self : ChainstateManagerObject ε)

def Wrapper.dealloc : Wrapper ε → Option ε → Option ε
  | .loggingConnection self => loggingConnectionDealloc systemError self
  | .context self => contextDealloc systemError self
  | .chainstateManager self => chainstateManagerDealloc systemError self

end Trampolines

/-- What is delivered while what stands behind a pointer is destroyed. -/
def deliveriesOf : Option (KernelObject ε) → List (Delivery ε)
  | some ptr => ptr.deliveries
  | none => []

/-- What is delivered while a wrapper goes away; a manager takes its context along if it
holds the last reference. -/
def Wrapper.deliveries : Wrapper ε → List (Delivery ε)
  | .loggingConnection self => deliveriesOf self.ptr
  | .context self => deliveriesOf self.ptr
  | .chainstateManager self => deliveriesOf self.ptr ++
    match self.context with
    | some c => if c.refcnt = 1 then deliveriesOf c.ptr else []
    | none => []

/-! ## A callback leaves nothing pending -/

variable (systemError : ε)

/-- A call with a result leaves nothing pending: a value returned with an exception set is
no result. -/
theorem callObject_eq_none {code : Code ε} {pending after : Option ε}
    (h : callObject systemError code pending = (true, after)) : after = none := by
  unfold callObject at h
  split at h
  next => exact (Prod.mk.inj h).2.symm
  next => cases (Prod.mk.inj h).1
  next => cases (Prod.mk.inj h).1

theorem callHandlerMethod_eq_none (handler : Handler ε) (name : String) (pending : Option ε) :
    callHandlerMethod systemError handler name pending = none := by
  unfold callHandlerMethod
  split
  next => rfl
  next =>
    split
    next hcall => exact callObject_eq_none systemError hcall
    next => rfl

theorem notify_eq_none (name : String) (objects : List (Option ε)) (handler : Handler ε)
    (pending : Option ε) : notify systemError name objects handler pending = none := by
  unfold notify
  split
  next => exact callHandlerMethod_eq_none systemError handler name _
  next => rfl

theorem logCb_eq_none (msg : Option ε) (callback : Code ε) (pending : Option ε) :
    logCb systemError msg callback pending = none := by
  unfold logCb
  split
  next =>
    split
    next hcall => exact callObject_eq_none systemError hcall
    next => rfl
  next => rfl

/-- **A callback leaves nothing pending**, whatever was pending before. -/
theorem deliver_eq_none (pending : Option ε) (d : Delivery ε) :
    deliver systemError pending d = none := by
  cases d with
  | log msg callback => exact logCb_eq_none systemError msg callback pending
  | _ => exact notify_eq_none systemError _ _ _ pending

theorem foldl_deliver (ds : List (Delivery ε)) (pending : Option ε) :
    ds.foldl (deliver systemError) pending = if ds = [] then pending else none := by
  induction ds generalizing pending with
  | nil => rfl
  | cons d ds ih =>
    rw [List.foldl_cons, deliver_eq_none, ih, if_neg (List.cons_ne_nil d ds)]
    split <;> rfl

/-! ## Deallocs and the exception in flight -/

theorem destroyPtr_eq_foldl (ptr : Option (KernelObject ε)) (pending : Option ε) :
    destroyPtr systemError ptr pending =
      (deliveriesOf ptr).foldl (deliver systemError) pending := by
  cases ptr <;> rfl

/-- A dealloc does to the pending exception what the callbacks do, one after another. -/
theorem dealloc_eq_foldl (w : Wrapper ε) (pending : Option ε) :
    w.dealloc systemError pending = w.deliveries.foldl (deliver systemError) pending := by
  cases w with
  | loggingConnection self => exact destroyPtr_eq_foldl systemError self.ptr pending
  | context self => exact destroyPtr_eq_foldl systemError self.ptr pending
  | chainstateManager self =>
    rw [Wrapper.dealloc, chainstateManagerDealloc, chainstateManagerCloseImpl,
      destroyPtr_eq_foldl, Wrapper.deliveries, List.foldl_append]
    unfold xdecrefContext
    cases self.context with
    | none => rfl
    | some c =>
      dsimp only
      split
      next => exact destroyPtr_eq_foldl systemError c.ptr _
      next => rfl

/-- **When a dealloc keeps the exception in flight.** -/
theorem dealloc_pending_iff (w : Wrapper ε) (pending : Option ε) :
    w.dealloc systemError pending = pending ↔ pending = none ∨ w.deliveries = [] := by
  rw [dealloc_eq_foldl, foldl_deliver]
  by_cases h : w.deliveries = []
  · exact iff_of_true (if_pos h) (Or.inr h)
  · rw [if_neg h]
    constructor
    · intro hnone
      exact Or.inl hnone.symm
    · intro hnone
      exact (hnone.resolve_right h).symm

/-- A manager is destroyed while a `ValueError` is pending, and its last flush reports a
tip to a handler that has no methods: the `ValueError` is gone. -/
theorem dealloc_loses_pending :
    let handler : Handler String := fun _ => .missing "AttributeError"
    (Wrapper.chainstateManager ⟨some ⟨[.blockTip none none handler]⟩, none⟩).dealloc
      "SystemError" (some "ValueError") ≠ some "ValueError" := by
  intro handler h
  cases h

end PyBitcoinKernel.Binding.Pending
