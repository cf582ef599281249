import PyBitcoinKernel.Lib.Machine
import PyBitcoinKernel.Binding.Python

/-!
# References taken for callbacks

The kernel keeps a Python object as the user data of a callback. Each of the four
registration paths takes a reference before it calls the kernel, and the kernel
gives it back through `pyobject_destroy_cb` when the registration is replaced,
removed or its holder destroyed, and also when it refuses the registration. So a
path that fails has nothing left to release. `mod_script_trace_register_callback`
does not; `LoggingConnection_new` does, and the object is released twice.

> `references_balanced_iff`: along a run, the references taken are at every moment
> those released and those of the registrations the kernel holds, exactly when the
> kernel refuses no logging connection.
-/

namespace PyBitcoinKernel.Binding.Callbacks

variable {ω : Type}

/-! ## The kernel's side -/

/-- Where the kernel keeps a registration: one for each logging connection, two for
each `ContextOptions`, and one for the script trace. -/
inductive Slot where
  | connection (n : Nat)
  | notifications (options : Nat)
  | validationInterface (options : Nat)
  | scriptTrace
  deriving DecidableEq, Repr

/-- The references taken and released so far, by object, the registrations the kernel
holds, and the number of connections it has made. -/
structure Refs (ω : Type) where
  taken : List ω
  released : List ω
  held : List (Slot × ω)
  connections : Nat

/-- `Py_INCREF`. -/
def Refs.incref (s : Refs ω) (o : ω) : Refs ω := { s with taken := o :: s.taken }

/-- `Py_DECREF`, and so `pyobject_destroy_cb`. -/
def Refs.decref (s : Refs ω) (o : ω) : Refs ω := { s with released := o :: s.released }

/-- The kernel drops what it holds in a slot, with one destroy callback for each. -/
def Refs.remove (s : Refs ω) (slot : Slot) : Refs ω :=
  { s with
    held := s.held.filter fun r => r.1 ≠ slot
    released := ((s.held.filter fun r => r.1 = slot).map Prod.snd) ++ s.released }

/-- The kernel takes over a reference; what the slot held before is replaced. -/
def Refs.register (s : Refs ω) (slot : Slot) (o : ω) : Refs ω :=
  { s.remove slot with held := (slot, o) :: (s.remove slot).held }

/-- The kernel refuses a registration: it has taken over the reference all the same. -/
def Refs.refuse (s : Refs ω) (o : ω) : Refs ω := s.decref o

/-- What is dropped from a slot is released. -/
theorem remove_perm (s : Refs ω) (slot : Slot) :
    ((s.remove slot).released ++ (s.remove slot).held.map Prod.snd).Perm
      (s.released ++ s.held.map Prod.snd) := by
  have hsplit : ((s.held.filter fun r => r.1 = slot) ++ s.held.filter fun r => r.1 ≠ slot).Perm
      s.held := by
    have h := List.filter_append_perm (fun r : Slot × ω => r.1 = slot) s.held
    simpa using h
  have hobjects := hsplit.map Prod.snd
  rw [List.map_append] at hobjects
  show (((s.held.filter fun r => r.1 = slot).map Prod.snd ++ s.released) ++
    (s.held.filter fun r => r.1 ≠ slot).map Prod.snd).Perm _
  refine (List.perm_append_comm.append_right _).trans ?_
  rw [List.append_assoc]
  exact hobjects.append_left s.released

/-! ## The bindings' side -/

/-- How `LoggingConnection(..)` goes, for a callback that is callable. -/
inductive Creation where
  | created
  | kernelFails
  | allocFails
  deriving DecidableEq, Repr

variable (callable : ω → Bool)

/-- `LoggingConnection_new`. -/
def loggingConnectionNew (s : Refs ω) (callback : ω) (creation : Creation) :
    Refs ω × PyResult Unit :=
  if ¬ callable callback then (s, raise .typeError "callback must be callable")
  else
    let s := s.incref callback
    match creation with
    | .kernelFails =>
      let s := s.refuse callback
      -- `if (ptr == NULL)`: the reference is the kernel's, which has released it.
      (s.decref callback, raise .kernelError "failed to create logging connection")
    | .created =>
      let s := s.register (.connection s.connections) callback
      ({ s with connections := s.connections + 1 }, .ok ())
    | .allocFails =>
      let s := s.register (.connection s.connections) callback
      let s := s.remove (.connection s.connections)
      ({ s with connections := s.connections + 1 }, raise .memoryError "")

/-- `LoggingConnection_close` and `LoggingConnection_dealloc`. -/
def loggingConnectionClose (s : Refs ω) (n : Nat) : Refs ω := s.remove (.connection n)

/-- `ContextOptions_set_notifications`. -/
def setNotifications (s : Refs ω) (options : Nat) (handler : ω) : Refs ω :=
  (s.incref handler).register (.notifications options) handler

/-- `ContextOptions_set_validation_interface`. -/
def setValidationInterface (s : Refs ω) (options : Nat) (handler : ω) : Refs ω :=
  (s.incref handler).register (.validationInterface options) handler

/-- `mod_script_trace_register_callback`; the kernel refuses where tracing is not
compiled in. -/
def scriptTraceRegisterCallback (s : Refs ω) (callback : ω) (available : Bool) :
    Refs ω × PyResult Unit :=
  if ¬ callable callback then (s, raise .typeError "callback must be callable")
  else
    let s := s.incref callback
    if available then (s.register .scriptTrace callback, .ok ())
    else (s.refuse callback, raise .kernelError
      "script tracing is unavailable; rebuild libbitcoinkernel with -DENABLE_SCRIPT_TRACE=ON")

/-- `mod_script_trace_unregister_callback`. -/
def scriptTraceUnregisterCallback (s : Refs ω) : Refs ω := s.remove .scriptTrace

/-! ## Runs -/

inductive Event (ω : Type) where
  | newConnection (callback : ω) (creation : Creation)
  /-- `close()`, any number of times, or the connection object goes away. -/
  | closeConnection (n : Nat)
  | setNotifications (options : Nat) (handler : ω)
  | setValidationInterface (options : Nat) (handler : ω)
  /-- The kernel destroys what holds the registrations of a `ContextOptions`. -/
  | destroyOptions (options : Nat)
  | registerTrace (callback : ω) (available : Bool)
  | unregisterTrace

def Refs.step (s : Refs ω) : Event ω → Option (Refs ω)
  | .newConnection callback creation => some (loggingConnectionNew callable s callback creation).1
  | .closeConnection n => some (loggingConnectionClose s n)
  | .setNotifications options handler => some (setNotifications s options handler)
  | .setValidationInterface options handler => some (setValidationInterface s options handler)
  | .destroyOptions options =>
    some ((s.remove (.notifications options)).remove (.validationInterface options))
  | .registerTrace callback available =>
    some (scriptTraceRegisterCallback callable s callback available).1
  | .unregisterTrace => some (scriptTraceUnregisterCallback s)

/-- Runs of an interpreter in which these objects are callable. -/
def registrations : Machine (Refs ω) (Event ω) where
  init := ⟨[], [], [], 0⟩
  step := Refs.step callable

variable [DecidableEq ω]

/-- The references taken are those released and those of the registrations held: of
each object, and in all. -/
def Balanced (s : Refs ω) : Prop :=
  (∀ o, s.released.count o + (s.held.map Prod.snd).count o = s.taken.count o) ∧
    s.released.length + s.held.length = s.taken.length

/-- The kernel does not refuse a logging connection. -/
def NotRefused : Refs ω → Event ω → Prop
  | _, .newConnection callback creation => callable callback = true → creation ≠ .kernelFails
  | _, _ => True

/-! ## One step -/

theorem balanced_iff_perm {s : Refs ω} :
    Balanced s ↔ (s.released ++ s.held.map Prod.snd).Perm s.taken := by
  constructor
  · intro h
    refine List.perm_iff_count.mpr ?_
    intro o
    rw [List.count_append]
    exact h.1 o
  · intro h
    refine ⟨?_, ?_⟩
    · intro o
      rw [← List.count_append]
      exact List.perm_iff_count.mp h o
    · have hlen := h.length_eq
      rwa [List.length_append, List.length_map] at hlen

/-- Balanced, but for a reference that was taken for the call that is going on. -/
def BalancedBut (s : Refs ω) (o : ω) : Prop :=
  (o :: (s.released ++ s.held.map Prod.snd)).Perm s.taken

theorem Balanced.incref {s : Refs ω} (h : Balanced s) (o : ω) : BalancedBut (s.incref o) o :=
  (balanced_iff_perm.mp h).cons o

/-- A refused registration gives the reference back. -/
theorem BalancedBut.refuse {s : Refs ω} {o : ω} (h : BalancedBut s o) : Balanced (s.refuse o) :=
  balanced_iff_perm.mpr h

theorem Balanced.remove {s : Refs ω} (h : Balanced s) (slot : Slot) : Balanced (s.remove slot) :=
  balanced_iff_perm.mpr ((remove_perm s slot).trans (balanced_iff_perm.mp h))

/-- A registration holds the reference that was taken for it. -/
theorem BalancedBut.register {s : Refs ω} {o : ω} (h : BalancedBut s o) (slot : Slot) :
    Balanced (s.register slot o) := by
  refine balanced_iff_perm.mpr ?_
  show ((s.remove slot).released ++ o :: (s.remove slot).held.map Prod.snd).Perm s.taken
  exact List.perm_middle.trans (((remove_perm s slot).cons o).trans h)

/-- Counting connections changes nothing. -/
theorem Balanced.connections {s : Refs ω} (h : Balanced s) (n : Nat) :
    Balanced { s with connections := n } := h

/-- One `Py_DECREF` too many. -/
theorem not_balanced_decref {s : Refs ω} {o : ω} (h : Balanced s) : ¬ Balanced (s.decref o) := by
  intro hno
  have hlen := h.2
  have hlen' := hno.2
  change s.released.length + 1 + s.held.length = s.taken.length at hlen'
  omega

/-- **One step** keeps the balance unless it is a connection that the kernel refuses. -/
theorem balanced_step_iff {s s' : Refs ω} {e : Event ω} (h : Balanced s)
    (hs : s.step callable e = some s') : Balanced s' ↔ NotRefused callable s e := by
  cases e with
  | newConnection callback creation =>
    cases hs
    by_cases hcall : callable callback = true
    · have hnew := (h.incref callback)
      unfold loggingConnectionNew
      rw [if_neg (not_not_intro hcall)]
      cases creation with
      | created =>
        exact iff_of_true ((hnew.register _).connections _) fun _ hno => by cases hno
      | kernelFails =>
        exact iff_of_false (not_balanced_decref hnew.refuse) fun hno => hno hcall rfl
      | allocFails =>
        exact iff_of_true (((hnew.register _).remove _).connections _) fun _ hno => by cases hno
    · unfold loggingConnectionNew
      rw [if_pos hcall]
      exact iff_of_true h fun hyes => absurd hyes hcall
  | closeConnection n =>
    cases hs
    exact iff_of_true (h.remove _) trivial
  | setNotifications options handler =>
    cases hs
    exact iff_of_true ((h.incref handler).register _) trivial
  | setValidationInterface options handler =>
    cases hs
    exact iff_of_true ((h.incref handler).register _) trivial
  | destroyOptions options =>
    cases hs
    exact iff_of_true ((h.remove _).remove _) trivial
  | registerTrace callback available =>
    cases hs
    refine iff_of_true ?_ trivial
    unfold scriptTraceRegisterCallback
    by_cases hcall : callable callback = true
    · rw [if_neg (not_not_intro hcall)]
      cases available with
      | true => exact (h.incref callback).register _
      | false => exact (h.incref callback).refuse
    · rw [if_pos hcall]
      exact h
  | unregisterTrace =>
    cases hs
    exact iff_of_true (h.remove _) trivial

/-- **References are balanced throughout exactly the runs in which the kernel refuses
no logging connection.** -/
theorem references_balanced_iff (es : List (Event ω)) :
    (registrations callable).Throughout Balanced (registrations callable).init es ↔
      (registrations callable).Obeys (NotRefused callable) (registrations callable).init es :=
  Machine.throughout_iff_obeys (I := fun _ => True) (fun _ _ _ _ _ => trivial)
    (fun _ _ _ _ h hs => balanced_step_iff callable h hs) trivial ⟨fun _ => rfl, rfl⟩

/-- A connection that the kernel refuses: one reference taken, two released. -/
theorem references_released_twice :
    ∃ s, (registrations fun _ : Nat => true).exec (registrations fun _ => true).init
        [.newConnection 0 .kernelFails] = some s ∧
      s.taken = [0] ∧ s.released = [0, 0] ∧ s.held = [] ∧ ¬ Balanced s := by
  refine ⟨_, rfl, rfl, rfl, rfl, ?_⟩
  intro h
  exact absurd h.2 (by decide)

end PyBitcoinKernel.Binding.Callbacks
