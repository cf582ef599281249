import PyBitcoinKernel.Lib.Machine
import PyBitcoinKernel.Manager.Objects

/-!
# Closing a manager that other threads are using

The long calls of a `ChainstateManager` look at its `ptr` while they hold the
GIL and release it for the kernel call; the argument `self->ptr` of that call is
evaluated on the far side. `close()` and `__exit__` empty `ptr` under the GIL,
and destroy the kernel manager after releasing it. A close between the check
and the call hands the kernel `NULL`; a close during the call destroys the
manager under it. It need not be another thread that closes: `import_blocks`
calls the `__fspath__` of its paths between its check and its kernel call.

> `manager_alive_exact`: as long as the manager is only closed when no thread is
> between its open check and the end of its kernel call, every kernel call gets a
> manager whose destruction has not begun, nor begins before it ends; and after
> any other close, a call on a dying manager is within reach.
-/

namespace PyBitcoinKernel.Manager.Close

open PyBitcoinKernel.Binding

/-! ## The machine -/

/-- The methods that release the GIL for their kernel call. -/
inductive Method where
  | processBlock
  | processBlockHeader
  | importBlocks
  | readBlock
  | readBlockSpentOutputs
  deriving DecidableEq, Repr

/-- What a method says of an argument that fails its type check. -/
def Method.typeError : Method → String
  | .processBlock => "expected Block"
  | .processBlockHeader => "expected BlockHeader"
  | .importBlocks => "paths must be a sequence or None"
  | .readBlock => "expected BlockTreeEntry"
  | .readBlockSpentOutputs => "expected BlockTreeEntry"

/-- The part of a method before the GIL is released: `CHECK_PTR`, then the type
check of the argument. -/
def Method.check (m : Method) (ptr : Option KPtr) (argOk : Bool) : PyResult Unit :=
  if ptr = none then raise .valueError "operation on closed object"
  else if ¬ argOk then raise .typeError m.typeError
  else .ok ()

/-- What has happened to the kernel manager. -/
inductive Phase where
  | alive
  | destroying
  | destroyed
  deriving DecidableEq, Repr

/-- Where a thread is. Between any two of these points other threads may hold
the GIL. -/
inductive Pc where
  | idle
  /-- The checks have passed; the kernel call is ahead. -/
  | checked (m : Method)
  /-- In the kernel, with the pointer it was passed. -/
  | inKernel (m : Method) (ptr : Option KPtr)
  /-- Back, and waiting for the GIL. -/
  | returned (m : Method)
  /-- `close` has taken the pointer out of the object; `inside` is whether that was in the
  midst of `import_blocks`. -/
  | detached (ptr : KPtr) (inside : Bool)
  | destroying (ptr : KPtr) (inside : Bool)
  deriving DecidableEq, Repr

/-- Where a thread goes on once it has closed. -/
def Pc.resumed (inside : Bool) : Pc := if inside then .checked .importBlocks else .idle

structure Shared (τ : Type) where
  /-- `self->ptr`. -/
  ptr : Option KPtr
  phase : Phase
  pc : τ → Pc

inductive Event (τ : Type) where
  /-- A method is called; `argOk` is whether its argument passes the type check. -/
  | call (t : τ) (m : Method) (argOk : Bool)
  /-- `import_blocks` gives up: a path cannot be converted, or there is no memory. -/
  | abandon (t : τ)
  | kernelBegin (t : τ)
  | kernelEnd (t : τ)
  | finish (t : τ)
  | close (t : τ)
  /-- `__exit__`. -/
  | exit (t : τ)
  | destroyBegin (t : τ)
  | destroyEnd (t : τ)

variable {τ : Type} [DecidableEq τ]

/-- The thread has moved on to `p`. -/
def Shared.move (s : Shared τ) (t : τ) (p : Pc) : Shared τ :=
  { s with pc := Function.update s.pc t p }

/-- `ChainstateManager_close_impl`, up to the release of the GIL. -/
def Shared.closeImpl (s : Shared τ) (t : τ) (inside : Bool) : Shared τ :=
  match s.ptr with
  | none => s
  | some ptr => { s.move t (.detached ptr inside) with ptr := none }

/-- A thread closes between its calls, or in the `__fspath__` of a path that it gave to
`import_blocks`. -/
def Shared.closeFrom (s : Shared τ) (t : τ) : Option (Shared τ) :=
  match s.pc t with
  | .idle => some (s.closeImpl t false)
  | .checked .importBlocks => some (s.closeImpl t true)
  | _ => none

def Shared.step (s : Shared τ) : Event τ → Option (Shared τ)
  | .call t m argOk =>
    match s.pc t with
    | .idle =>
      match m.check s.ptr argOk with
      | .error _ => some s
      | .ok _ => some (s.move t (.checked m))
    | _ => none
  | .abandon t =>
    match s.pc t with
    | .checked .importBlocks => some (s.move t .idle)
    | _ => none
  | .kernelBegin t =>
    match s.pc t with
    -- The argument `self->ptr` of the call is evaluated only now, without the GIL.
    | .checked m => some (s.move t (.inKernel m s.ptr))
    | _ => none
  | .kernelEnd t =>
    match s.pc t with
    | .inKernel m _ => some (s.move t (.returned m))
    | _ => none
  | .finish t =>
    match s.pc t with
    | .returned _ => some (s.move t .idle)
    | _ => none
  | .close t => s.closeFrom t
  | .exit t => s.closeFrom t
  | .destroyBegin t =>
    match s.pc t with
    | .detached ptr inside =>
      some { s.move t (.destroying ptr inside) with phase := .destroying }
    | _ => none
  | .destroyEnd t =>
    match s.pc t with
    | .destroying _ inside => some { s.move t (.resumed inside) with phase := .destroyed }
    | _ => none

/-- Any number of threads around one open manager. -/
def threads (τ : Type) [DecidableEq τ] : Machine (Shared τ) (Event τ) where
  init := ⟨some (.manager 0), .alive, fun _ => .idle⟩
  step := Shared.step

/-- Whoever is in the kernel was given a manager, and it is still alive. -/
def ManagerAlive (s : Shared τ) : Prop :=
  ∀ t m ptr, s.pc t = .inKernel m ptr → ptr = some (.manager 0) ∧ s.phase = .alive

/-- Between the open check and the end of the kernel call. -/
def Pc.Using : Pc → Prop
  | .checked _ => True
  | .inKernel _ _ => True
  | .detached _ inside => inside = true
  | .destroying _ inside => inside = true
  | _ => False

/-- An open manager is closed only while no thread is using it. -/
def Quiescent (s : Shared τ) : Event τ → Prop
  | .close _ => s.ptr ≠ none → ∀ t, ¬ (s.pc t).Using
  | .exit _ => s.ptr ≠ none → ∀ t, ¬ (s.pc t).Using
  | _ => True

/-! ## Disciplined runs -/

/-- What a point of a thread says about the manager. -/
def PcInv (s : Shared τ) : Pc → Prop
  | .idle => True
  | .checked _ => s.ptr = some (.manager 0) ∧ s.phase = .alive
  | .inKernel _ ptr => ptr = some (.manager 0) ∧ s.ptr = some (.manager 0) ∧ s.phase = .alive
  | .returned _ => True
  | .detached _ inside => s.ptr = none ∧ inside = false
  | .destroying _ inside => s.ptr = none ∧ inside = false

structure Inv (s : Shared τ) : Prop where
  ptr : s.ptr = none ∨ s.ptr = some (.manager 0) ∧ s.phase = .alive
  pcs : ∀ t, PcInv s (s.pc t)

theorem inv_init : Inv (threads τ).init :=
  ⟨Or.inr ⟨rfl, rfl⟩, fun _ => trivial⟩

/-- A step that changes nothing but where its thread is. -/
theorem inv_move {s : Shared τ} {t : τ} {p : Pc} (hinv : Inv s) (hp : PcInv s p) :
    Inv (s.move t p) := by
  refine ⟨hinv.ptr, ?_⟩
  intro t'
  show PcInv s (Function.update s.pc t p t')
  by_cases ht : t' = t
  · subst ht
    rwa [Function.update_self]
  · rw [Function.update_of_ne ht]
    exact hinv.pcs t'

omit [DecidableEq τ] in
/-- Once the object is empty, all that matters of a thread is that it does not
use the manager. -/
theorem pcInv_empty_iff {s : Shared τ} (hptr : s.ptr = none) (p : Pc) :
    PcInv s p ↔ ¬ p.Using := by
  have hno : s.ptr ≠ some (.manager 0) := by rw [hptr]; exact nofun
  cases p with
  | checked m => exact iff_of_false (fun h => hno h.1) (not_not_intro trivial)
  | inKernel m ptr => exact iff_of_false (fun h => hno h.2.1) (not_not_intro trivial)
  | idle | returned m => exact iff_of_true trivial id
  | detached ptr inside | destroying ptr inside =>
    exact (and_iff_right hptr).trans Bool.eq_false_iff

omit [DecidableEq τ] in
theorem inv_of_empty {s : Shared τ} (hptr : s.ptr = none) (h : ∀ t, ¬ (s.pc t).Using) : Inv s :=
  ⟨Or.inl hptr, fun t => (pcInv_empty_iff hptr _).mpr (h t)⟩

/-- A thread that moves on without using the manager leaves the others as they are. -/
theorem not_using_update {pc : τ → Pc} {t : τ} {p : Pc} (hp : ¬ p.Using)
    (h : ∀ t, ¬ (pc t).Using) (t' : τ) : ¬ (Function.update pc t p t').Using := by
  by_cases ht : t' = t
  · subst ht
    rwa [Function.update_self]
  · rw [Function.update_of_ne ht]
    exact h t'

theorem inv_closeImpl {s : Shared τ} {t : τ} {inside : Bool} (hinv : Inv s)
    (hinside : inside = true → (s.pc t).Using)
    (hquiet : s.ptr ≠ none → ∀ t, ¬ (s.pc t).Using) : Inv (s.closeImpl t inside) := by
  unfold Shared.closeImpl
  split
  next => exact hinv
  next ptr hptr =>
    have hopen : s.ptr ≠ none := by
      rw [hptr]
      exact nofun
    exact inv_of_empty rfl
      (not_using_update (fun hno => hquiet hopen t (hinside hno)) (hquiet hopen))

theorem inv_closeFrom {s s' : Shared τ} {t : τ} (hinv : Inv s)
    (hquiet : s.ptr ≠ none → ∀ t, ¬ (s.pc t).Using) (h : s.closeFrom t = some s') : Inv s' := by
  unfold Shared.closeFrom at h
  split at h
  next => exact Option.some.inj h ▸ inv_closeImpl hinv nofun hquiet
  next hpc => exact Option.some.inj h ▸ inv_closeImpl hinv (fun _ => hpc ▸ trivial) hquiet
  next => cases h

/-- **A disciplined step keeps the invariant.** -/
theorem inv_step {s s' : Shared τ} {e : Event τ} (hinv : Inv s) (hC : Quiescent s e)
    (h : s.step e = some s') : Inv s' := by
  cases e with
  | call t m argOk =>
    rw [Shared.step] at h
    split at h
    next =>
      split at h
      next => exact Option.some.inj h ▸ hinv
      next hcheck =>
        -- An empty object does not pass the check.
        refine Option.some.inj h ▸ inv_move hinv (hinv.ptr.resolve_left fun hptr => ?_)
        rw [Method.check, if_pos hptr] at hcheck
        cases hcheck
    next => cases h
  | kernelBegin t =>
    rw [Shared.step] at h
    have hpcs := hinv.pcs t
    split at h
    next m hpc =>
      rw [hpc] at hpcs
      exact Option.some.inj h ▸ inv_move hinv ⟨hpcs.1, hpcs⟩
    next => cases h
  | abandon t | kernelEnd t | finish t =>
    rw [Shared.step] at h
    split at h
    next => exact Option.some.inj h ▸ inv_move hinv trivial
    next => cases h
  | close t | exit t => exact inv_closeFrom hinv hC h
  | destroyBegin t | destroyEnd t =>
    rw [Shared.step] at h
    have hpcs := hinv.pcs t
    split at h
    next ptr inside hpc =>
      rw [hpc] at hpcs
      obtain ⟨hptr, rfl⟩ := hpcs
      exact Option.some.inj h ▸ inv_of_empty hptr
        (not_using_update nofun fun t => (pcInv_empty_iff hptr _).mp (hinv.pcs t))
    next => cases h

omit [DecidableEq τ] in
theorem alive_of_inv {s : Shared τ} (hinv : Inv s) : ManagerAlive s := by
  intro t m ptr hpc
  have h := hinv.pcs t
  rw [hpc] at h
  exact ⟨h.1, h.2.2⟩

/-! ## Any other close can be fatal -/

omit [DecidableEq τ] in
/-- While the object is open, who uses the manager is ahead of the kernel call or in it. -/
theorem using_cases {s : Shared τ} {t : τ} (hinv : Inv s) (hptr : s.ptr ≠ none)
    (husing : (s.pc t).Using) :
    (∃ m, s.pc t = .checked m) ∨ ∃ m arg, s.pc t = .inKernel m arg := by
  have hpcs := hinv.pcs t
  cases hm : s.pc t with
  | checked m => exact Or.inl ⟨m, rfl⟩
  | inKernel m arg => exact Or.inr ⟨m, arg, rfl⟩
  | idle | returned m =>
    rw [hm] at husing
    exact husing.elim
  | detached ptr inside | destroying ptr inside =>
    rw [hm] at hpcs
    exact absurd hpcs.1 hptr

/-- A thread that closes from within `import_blocks` then calls the kernel with `NULL`. -/
theorem close_inside_fatal {s : Shared τ} {t : τ} (hptr : s.ptr ≠ none) :
    ∃ es s', (threads τ).Obeys Quiescent (s.closeImpl t true) es ∧
      (threads τ).exec (s.closeImpl t true) es = some s' ∧ ¬ ManagerAlive s' := by
  obtain ⟨ptr, hsome⟩ := Option.ne_none_iff_exists'.mp hptr
  -- The manager is destroyed before the conversion of the path is over.
  have hclose : s.closeImpl t true = { s.move t (.detached ptr true) with ptr := none } := by
    unfold Shared.closeImpl
    rw [hsome]
  generalize hs₁ : s.closeImpl t true = s₁ at hclose
  have hbegin : s₁.step (.destroyBegin t) =
      some { s₁.move t (.destroying ptr true) with phase := .destroying } := by
    rw [Shared.step, hclose]
    simp [Shared.move]
  generalize hs₂ : { s₁.move t (.destroying ptr true) with phase := .destroying } = s₂ at hbegin
  have hend : s₂.step (.destroyEnd t) =
      some { s₂.move t (.checked .importBlocks) with phase := .destroyed } := by
    rw [Shared.step, ← hs₂]
    simp [Shared.move, Pc.resumed]
  generalize hs₃ : { s₂.move t (.checked .importBlocks) with phase := .destroyed } = s₃ at hend
  have hcall : s₃.step (.kernelBegin t) = some (s₃.move t (.inKernel .importBlocks none)) := by
    rw [Shared.step, ← hs₃, ← hs₂, hclose]
    simp [Shared.move]
  refine ⟨[.destroyBegin t, .destroyEnd t, .kernelBegin t], _,
    fun _ _ => ⟨trivial, fun _ _ => ⟨trivial, fun _ _ => ⟨trivial, trivial⟩⟩⟩,
    Machine.exec_cons_iff.mpr ⟨_, hbegin, Machine.exec_cons_iff.mpr ⟨_, hend,
      Machine.exec_cons_iff.mpr ⟨_, hcall, rfl⟩⟩⟩, fun halive => ?_⟩
  exact nomatch (halive t .importBlocks none (Function.update_self ..)).1

/-- Another thread was about to call the kernel: it passes `NULL`. It was in the
kernel: the manager is destroyed under it. -/
theorem close_outside_fatal {s : Shared τ} {t t' : τ} {inside : Bool} (hinv : Inv s)
    (hne : t' ≠ t) (hptr : s.ptr ≠ none) (husing : (s.pc t').Using) :
    ∃ es s', (threads τ).Obeys Quiescent (s.closeImpl t inside) es ∧
      (threads τ).exec (s.closeImpl t inside) es = some s' ∧ ¬ ManagerAlive s' := by
  obtain ⟨ptr, hsome⟩ := Option.ne_none_iff_exists'.mp hptr
  have hclose : s.closeImpl t inside = { s.move t (.detached ptr inside) with ptr := none } := by
    unfold Shared.closeImpl
    rw [hsome]
  have hpc' : (s.closeImpl t inside).pc t' = s.pc t' := by
    rw [hclose]
    exact Function.update_of_ne hne _ _
  rcases using_cases hinv hptr husing with ⟨m, hm⟩ | ⟨m, arg, hm⟩
  · -- `self->ptr` is read after the close.
    have hbegin : (s.closeImpl t inside).step (.kernelBegin t') =
        some ((s.closeImpl t inside).move t' (.inKernel m none)) := by
      rw [Shared.step, hpc', hm, hclose]
    refine ⟨[.kernelBegin t'], _, fun _ _ => ⟨trivial, trivial⟩,
      Machine.exec_cons_iff.mpr ⟨_, hbegin, rfl⟩, fun halive => ?_⟩
    exact nomatch (halive t' m none (Function.update_self ..)).1
  · -- The kernel call goes on while the closing thread begins to destroy.
    have hpct : (s.closeImpl t inside).pc t = .detached ptr inside := by
      rw [hclose]
      exact Function.update_self ..
    have hdestroy : (s.closeImpl t inside).step (.destroyBegin t) =
        some { (s.closeImpl t inside).move t (.destroying ptr inside) with
          phase := .destroying } := by
      rw [Shared.step, hpct]
    refine ⟨[.destroyBegin t], _, fun _ _ => ⟨trivial, trivial⟩,
      Machine.exec_cons_iff.mpr ⟨_, hdestroy, rfl⟩, fun halive => ?_⟩
    have hstill : Function.update (s.closeImpl t inside).pc t (.destroying ptr inside) t' =
        .inKernel m arg := by
      rw [Function.update_of_ne hne, hpc', hm]
    exact nomatch (halive t' m arg hstill).2

theorem close_fatal {s s' : Shared τ} {t t' : τ} (hinv : Inv s) (h : s.closeFrom t = some s')
    (hptr : s.ptr ≠ none) (husing : (s.pc t').Using) :
    ∃ es s'', (threads τ).Obeys Quiescent s' es ∧ (threads τ).exec s' es = some s'' ∧
      ¬ ManagerAlive s'' := by
  unfold Shared.closeFrom at h
  split at h
  next hidle =>
    refine Option.some.inj h ▸ close_outside_fatal hinv ?_ hptr husing
    rintro rfl
    rw [hidle] at husing
    exact husing
  next =>
    by_cases hne : t' = t
    · exact Option.some.inj h ▸ close_inside_fatal hptr
    · exact Option.some.inj h ▸ close_outside_fatal hinv hne hptr husing
  next => cases h

/-- **Closing only quiescent managers keeps kernel calls on a live manager**, whatever
the threads do in between; after any other close some continuation makes a call on a
dying one. -/
theorem manager_alive_exact : (threads τ).Exact Quiescent ManagerAlive := by
  refine Machine.exact_of_breach inv_init (fun _ hinv => alive_of_inv hinv)
    (fun _ _ _ hinv hC h => inv_step hinv hC h) fun s e s' hinv hC h => ?_
  have hfatal : ∀ t, s.closeFrom t = some s' → ¬ (s.ptr ≠ none → ∀ t, ¬ (s.pc t).Using) →
      ∃ es s'', (threads τ).Obeys Quiescent s' es ∧ (threads τ).exec s' es = some s'' ∧
        ¬ ManagerAlive s'' := by
    intro t hstep hno
    obtain ⟨hptr, hall⟩ := Classical.not_imp.mp hno
    obtain ⟨t', husing⟩ := Classical.not_forall.mp hall
    exact close_fatal hinv hstep hptr (Classical.not_not.mp husing)
  cases e with
  | close t => exact hfatal t h hC
  | exit t => exact hfatal t h hC
  | _ => exact absurd trivial hC

/-- One thread is past its open check when another closes the manager: the
kernel is called with `NULL`. One thread is in the kernel when another closes:
the manager is destroyed during the call. A single thread closes the manager from a path
that it imports. -/
theorem close_race :
    (∃ s, (threads (Fin 2)).exec (threads (Fin 2)).init
        [.call 0 .processBlock true, .close 1, .kernelBegin 0] = some s ∧
      s.pc 0 = .inKernel .processBlock none ∧ ¬ ManagerAlive s) ∧
    (∃ s, (threads (Fin 2)).exec (threads (Fin 2)).init
        [.call 0 .readBlock true, .kernelBegin 0, .close 1, .destroyBegin 1] = some s ∧
      s.phase = .destroying ∧ ¬ ManagerAlive s) ∧
    (∃ s, (threads (Fin 2)).exec (threads (Fin 2)).init
        [.call 0 .importBlocks true, .close 0, .destroyBegin 0, .destroyEnd 0, .kernelBegin 0] =
          some s ∧
      s.pc 0 = .inKernel .importBlocks none ∧ ¬ ManagerAlive s) := by
  refine ⟨⟨_, rfl, rfl, fun h => ?_⟩, ⟨_, rfl, rfl, fun h => ?_⟩, _, rfl, rfl, fun h => ?_⟩
  · exact nomatch (h 0 .processBlock none rfl).1
  · exact nomatch (h 0 .readBlock (some (.manager 0)) rfl).2
  · exact nomatch (h 0 .importBlocks none rfl).1

end PyBitcoinKernel.Manager.Close
