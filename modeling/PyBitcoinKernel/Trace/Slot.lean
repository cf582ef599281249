import PyBitcoinKernel.Binding.Python
import PyBitcoinKernel.Lib.Machine
import PyBitcoinKernel.Trace.Executions

/-!
# The script trace slot

libbitcoinkernel has one global slot for a trace callback. Four entry points of
the bindings bracket it on their own: the two ends of a `script_trace` context,
`debug_script`, and the probe of `trace_available`. Each of them overwrites the
slot when it starts and empties it when it is done, whatever it held before.
Along a single-threaded, well-nested run (`machine`),

> `slot_innermost_iff`: the slot holds the callback of the innermost open
> context throughout a run exactly when no context is left inside another one,
> and `debug_script` and `trace_available` are called outside of all contexts.
-/

namespace PyBitcoinKernel.Trace

open PyBitcoinKernel.Binding

variable {Cb : Type}

/-- What the kernel keeps of tracing: whether it is compiled in, and the slot. -/
structure TraceKernel (Cb : Type) where
  tracing : Bool
  slot : Option Cb
  deriving DecidableEq, Repr

/-! ## The entry points -/

/-- `mod_script_trace_register_callback`. -/
def registerCallback (k : TraceKernel Cb) (callback : Cb) (callable : Bool) :
    PyResult Unit × TraceKernel Cb :=
  if ¬ callable then (raise .typeError "callback must be callable", k)
  else if ¬ k.tracing then
    (raise .kernelError ("script tracing is unavailable; rebuild libbitcoinkernel " ++
      "with -DENABLE_SCRIPT_TRACE=ON"), k)
  else (.ok (), { k with slot := some callback })

/-- `mod_script_trace_unregister_callback`. -/
def unregisterCallback (k : TraceKernel Cb) : TraceKernel Cb := { k with slot := none }

/-- `trace_available`; `probe` is the lambda it registers. -/
def traceAvailable (k : TraceKernel Cb) (probe : Cb) : PyResult Bool × TraceKernel Cb :=
  match registerCallback k probe true with
  -- `except KernelError: return False`; anything else goes on.
  | (.error e, k) => (if e.exc = .kernelError then .ok false else .error e, k)
  | (.ok _, k) => (.ok true, unregisterCallback k)

/-- `script_trace` up to its `yield`. -/
def scriptTraceEnter (k : TraceKernel Cb) (callback : Cb) (callable : Bool) :
    PyResult Unit × TraceKernel Cb :=
  registerCallback k callback callable

/-- `script_trace` from its `yield` on: the `finally` clause runs, and how the
body ended is passed on. -/
def scriptTraceExit {α : Type} (k : TraceKernel Cb) (body : PyResult α) :
    PyResult α × TraceKernel Cb :=
  (body, unregisterCallback k)

/-- One verification inside the kernel: the frames it emits, and its outcome. -/
structure Evaluation where
  frames : List Frame
  verdict : PyResult Bool

/-- The frames of an evaluation that reach `callback`. -/
def TraceKernel.deliver [DecidableEq Cb] (k : TraceKernel Cb) (callback : Cb)
    (frames : List Frame) : List Frame :=
  if k.slot = some callback then frames else []

/-- `debug_script`; `append` is the bound method of its list of frames. -/
def debugScript [DecidableEq Cb] (k : TraceKernel Cb) (append : Cb) (v : Evaluation) :
    PyResult ScriptTrace × TraceKernel Cb :=
  match scriptTraceEnter k append true with
  | (.error e, k) => (.error e, k)
  | (.ok _, k) =>
    let frames := k.deliver append v.frames
    match scriptTraceExit k v.verdict with
    | (.error e, k) => (.error e, k)
    | (.ok valid, k) => (.ok ⟨valid, frames⟩, k)

/-! ## What they do to the slot -/

/-- With tracing compiled in, registering fails only for what is not callable. -/
theorem registerCallback_tracing {k : TraceKernel Cb} (h : k.tracing = true) (callback : Cb)
    (callable : Bool) :
    (callable = true ∧
        registerCallback k callback callable = (.ok (), { k with slot := some callback })) ∨
      (callable = false ∧ ∃ e, registerCallback k callback callable = (.error e, k)) := by
  unfold registerCallback
  cases callable with
  | true => exact Or.inl ⟨rfl, by simp [h]⟩
  | false => exact Or.inr ⟨rfl, _, rfl⟩

theorem traceAvailable_tracing {k : TraceKernel Cb} (h : k.tracing = true) (probe : Cb) :
    traceAvailable k probe = (.ok true, { k with slot := none }) := by
  unfold traceAvailable
  rcases registerCallback_tracing h probe true with ⟨-, hreg⟩ | ⟨hno, -⟩
  · rw [hreg]
    rfl
  · cases hno

/-- A `debug_script` on its own returns what its verification emitted, and
leaves the slot empty. -/
theorem debugScript_tracing [DecidableEq Cb] {k : TraceKernel Cb} (h : k.tracing = true)
    (append : Cb) (v : Evaluation) :
    debugScript k append v =
      (v.verdict.map fun valid => ⟨valid, v.frames⟩, { k with slot := none }) := by
  unfold debugScript scriptTraceEnter
  rcases registerCallback_tracing h append true with ⟨-, hreg⟩ | ⟨hno, -⟩
  · rw [hreg]
    have hall : { k with slot := some append }.deliver append v.frames = v.frames := if_pos rfl
    simp only [hall]
    cases hv : v.verdict <;> rfl
  · cases hno

/-! ## Single-threaded, well-nested runs -/

/-- The kernel, and the callbacks of the contexts still open, innermost first. -/
structure Run (Cb : Type) where
  kernel : TraceKernel Cb
  opened : List Cb
  deriving DecidableEq

/-- One step of a run. -/
inductive Event (Cb : Type) where
  /-- `with script_trace(callback):` -/
  | enter (callback : Cb) (callable : Bool)
  /-- The innermost context is left, normally or by an exception. -/
  | leave (body : PyResult Unit)
  | debugScript (append : Cb) (v : Evaluation)
  | traceAvailable (probe : Cb)

variable [DecidableEq Cb]

def Run.step (s : Run Cb) : Event Cb → Option (Run Cb)
  | .enter callback callable =>
    match scriptTraceEnter s.kernel callback callable with
    | (.ok _, k) => some ⟨k, callback :: s.opened⟩
    | (.error _, k) => some ⟨k, s.opened⟩
  | .leave body =>
    match s.opened with
    | [] => none
    | _ :: outer => some ⟨(scriptTraceExit s.kernel body).2, outer⟩
  | .debugScript append v => some ⟨(debugScript s.kernel append v).2, s.opened⟩
  | .traceAvailable probe => some ⟨(traceAvailable s.kernel probe).2, s.opened⟩

/-- Runs that start with tracing compiled in and nothing registered. -/
def machine (Cb : Type) [DecidableEq Cb] : Machine (Run Cb) (Event Cb) where
  init := ⟨⟨true, none⟩, []⟩
  step := Run.step

/-- The slot holds the callback of the innermost open context, if one is open. -/
def SlotInnermost (s : Run Cb) : Prop := s.kernel.slot = s.opened.head?

/-- No context is open around the one that is left, and none at all around a
`debug_script` or a `trace_available`. -/
def Outermost (s : Run Cb) : Event Cb → Prop
  | .enter _ _ => True
  | .leave _ => s.opened.length ≤ 1
  | .debugScript _ _ => s.opened = []
  | .traceAvailable _ => s.opened = []

/-- Everything a step can do, with tracing compiled in. -/
theorem step_cases {s s' : Run Cb} {e : Event Cb} (htr : s.kernel.tracing = true)
    (h : s.step e = some s') :
    (∃ callback, e = .enter callback true ∧
        s' = ⟨{ s.kernel with slot := some callback }, callback :: s.opened⟩) ∨
      (∃ callback, e = .enter callback false ∧ s' = s) ∨
      (∃ body callback outer, e = .leave body ∧ s.opened = callback :: outer ∧
        s' = ⟨{ s.kernel with slot := none }, outer⟩) ∨
      (((∃ append v, e = .debugScript append v) ∨ ∃ probe, e = .traceAvailable probe) ∧
        s' = ⟨{ s.kernel with slot := none }, s.opened⟩) := by
  cases e with
  | enter callback callable =>
    rw [Run.step, scriptTraceEnter] at h
    rcases registerCallback_tracing htr callback callable with ⟨rfl, hreg⟩ | ⟨rfl, e, hreg⟩
    · rw [hreg] at h
      exact Or.inl ⟨callback, rfl, by simpa using h.symm⟩
    · rw [hreg] at h
      exact Or.inr (Or.inl ⟨callback, rfl, by simpa using h.symm⟩)
  | leave body =>
    rw [Run.step] at h
    split at h
    next => cases h
    next callback outer hopen =>
      exact Or.inr (Or.inr (Or.inl ⟨body, callback, outer, rfl, hopen, (Option.some.inj h).symm⟩))
  | debugScript append v =>
    rw [Run.step, debugScript_tracing htr] at h
    exact Or.inr (Or.inr (Or.inr ⟨Or.inl ⟨append, v, rfl⟩, by simpa using h.symm⟩))
  | traceAvailable probe =>
    rw [Run.step, traceAvailable_tracing htr] at h
    exact Or.inr (Or.inr (Or.inr ⟨Or.inr ⟨probe, rfl⟩, by simpa using h.symm⟩))

/-- Tracing stays compiled in. -/
theorem step_tracing {s s' : Run Cb} {e : Event Cb} (htr : s.kernel.tracing = true)
    (h : s.step e = some s') : s'.kernel.tracing = true := by
  obtain ⟨_, -, rfl⟩ | ⟨_, -, rfl⟩ | ⟨_, _, _, -, -, rfl⟩ | ⟨-, rfl⟩ := step_cases htr h <;>
    exact htr

/-- A step keeps the slot right exactly when it is an outermost one. -/
theorem step_slotInnermost {s s' : Run Cb} {e : Event Cb} (htr : s.kernel.tracing = true)
    (hs : SlotInnermost s) (h : s.step e = some s') : SlotInnermost s' ↔ Outermost s e := by
  obtain ⟨callback, rfl, rfl⟩ | ⟨callback, rfl, rfl⟩ | ⟨body, callback, outer, rfl, hopen, rfl⟩ |
    ⟨he, rfl⟩ := step_cases htr h
  · exact iff_of_true rfl trivial
  · exact iff_of_true hs trivial
  · -- The slot is empty now, which is right if that was the last context.
    show none = outer.head? ↔ s.opened.length ≤ 1
    rw [hopen]
    cases outer <;> simp
  · have hempty : SlotInnermost ⟨{ s.kernel with slot := none }, s.opened⟩ ↔ s.opened = [] := by
      show none = s.opened.head? ↔ s.opened = []
      cases s.opened <;> simp
    rcases he with ⟨append, v, rfl⟩ | ⟨probe, rfl⟩ <;> exact hempty

/-- **The registered callback is that of the innermost open context throughout a
run exactly when every step is an outermost one.** -/
theorem slot_innermost_iff (es : List (Event Cb)) :
    (machine Cb).Throughout SlotInnermost (machine Cb).init es ↔
      (machine Cb).Obeys Outermost (machine Cb).init es :=
  @Machine.throughout_iff_obeys _ _ (machine Cb) Outermost (fun s => s.kernel.tracing = true)
    SlotInnermost (fun _ _ _ htr h => step_tracing htr h)
    (fun _ _ _ htr hs h => step_slotInnermost htr hs h) es _ rfl rfl

/-- Once the inner of two contexts is left, nothing is registered, although the
outer one is open; asking whether tracing is available does the same. -/
theorem slot_lost :
    ((machine Nat).exec (machine Nat).init [.enter 0 true, .enter 1 true, .leave (.ok ())] =
        some ⟨⟨true, none⟩, [0]⟩) ∧
      ((machine Nat).exec (machine Nat).init [.enter 0 true, .traceAvailable 1] =
        some ⟨⟨true, none⟩, [0]⟩) ∧
      ¬ SlotInnermost (⟨⟨true, none⟩, [0]⟩ : Run Nat) :=
  ⟨rfl, rfl, fun h => nomatch h⟩

end PyBitcoinKernel.Trace
