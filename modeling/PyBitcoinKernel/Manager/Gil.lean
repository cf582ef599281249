import PyBitcoinKernel.Lib.Machine
import PyBitcoinKernel.Manager.Objects

/-!
# The GIL and the validation lock

`process_block` releases the GIL, so the kernel takes its validation lock `K`
without it; the callback trampolines then ask for the GIL with `K` held. The
reads of the chain and of the block index go the other way round: their kernel
calls, which take `K`, are made with the GIL held. In `threads` any number of
threads mix both.

> `no_deadlock_exact`: as long as no read enters the kernel while `K` is taken,
> no thread ever holds `K` and waits for the GIL while another holds the GIL and
> waits for `K`; and one read that does enter puts that deadlock within reach.
-/

namespace PyBitcoinKernel.Manager.Gil

/-! ## The reads -/

/-- The reads of the chain and of the block index. -/
inductive Read (Obj : Type) where
  | chainHeight (self : View)
  | chainLen (self : View)
  | chainIndex (self : View) (index : Subscript)
  | chainContains (self : View) (value : PyArg Obj)
  | tip (self : View)
  | getBestEntry (m : Nat)
  | getBlockTreeEntryByHash (m : Nat) (hash : PyArg Obj)

variable {Obj : Type}

/-- The kernel calls a read makes. -/
def Read.calls (A : Kernel Obj) (w : World) : Read Obj → List KCall
  | .chainHeight self => (chainGetHeight A w self).calls
  | .chainLen self => (chainLength A w self).calls
  | .chainIndex self index => (chainSubscript A w self index).calls
  | .chainContains self value => (chainContainsImpl A w self value).calls
  | .tip self => (chainTip A w self).calls
  | .getBestEntry m => (managerGetBestEntry A w m).calls
  | .getBlockTreeEntryByHash m hash => (managerGetBlockTreeEntryByHash A w m hash).calls

/-- The kernel calls that acquire `K`. -/
def takesLock : KCall → Bool
  | .chainGetHeight _ => true
  | .chainGetByHeight _ _ => true
  | .chainContains _ _ => true
  | .getBestEntry _ => true
  | .getBlockTreeEntryByHash _ => true
  | _ => false

/-! ## The machine -/

/-- Where a thread is. -/
inductive Pc where
  /-- In Python code, without the GIL. -/
  | waiting
  /-- In Python code, with the GIL. -/
  | running
  /-- In a read, with the kernel calls still to make. -/
  | reading (calls : List KCall)
  /-- In the first of these kernel calls, waiting for `K`. -/
  | blocked (calls : List KCall)
  /-- In `process_block`. -/
  | processing
  /-- In `process_block`, with `K`. -/
  | validating
  /-- In a callback, at `PyGILState_Ensure`. -/
  | callbackWaiting
  /-- In a callback, with the GIL. -/
  | callbackRunning
  deriving DecidableEq, Repr

/-- A thread there holds the GIL. -/
def Pc.holdsGil : Pc → Bool
  | .running => true
  | .reading _ => true
  | .blocked _ => true
  | .callbackRunning => true
  | _ => false

/-- A thread there holds `K`. -/
def Pc.holdsLock : Pc → Bool
  | .validating => true
  | .callbackWaiting => true
  | .callbackRunning => true
  | _ => false

structure Shared (τ : Type) where
  gil : Option τ
  lock : Option τ
  pc : τ → Pc

inductive Event (τ Obj : Type) where
  /-- The interpreter gives the GIL to a thread, or takes it from one. -/
  | acquire (t : τ)
  | giveUp (t : τ)
  | read (t : τ) (A : Kernel Obj) (w : World) (r : Read Obj)
  /-- The next kernel call of a read. -/
  | kernelCall (t : τ)
  /-- A blocked kernel call gets `K`. -/
  | wake (t : τ)
  | readDone (t : τ)
  /-- `process_block` releases the GIL and enters the kernel. -/
  | processBlock (t : τ)
  | lock (t : τ)
  | unlock (t : τ)
  | callback (t : τ)
  /-- `PyGILState_Ensure` returns; it is asked for again where the handler gives
  the GIL up. -/
  | ensure (t : τ)
  | handlerGiveUp (t : τ)
  | callbackDone (t : τ)
  /-- The kernel call is over. -/
  | processDone (t : τ)

variable {τ : Type} [DecidableEq τ]

/-- Whoever holds a lock after a thread has moved on. -/
def holder (old : Option τ) (t : τ) (holds : Bool) : Option τ :=
  if holds then some t else if old = some t then none else old

/-- The thread has moved on to `p`, and holds the locks it holds there. -/
def Shared.move (s : Shared τ) (t : τ) (p : Pc) : Shared τ where
  gil := holder s.gil t p.holdsGil
  lock := holder s.lock t p.holdsLock
  pc := Function.update s.pc t p

def Shared.step (s : Shared τ) : Event τ Obj → Option (Shared τ)
  | .acquire t =>
    match s.pc t with
    | .waiting => if s.gil = none then some (s.move t .running) else none
    | _ => none
  | .giveUp t =>
    match s.pc t with
    | .running => some (s.move t .waiting)
    | _ => none
  | .read t A w r =>
    match s.pc t with
    | .running => some (s.move t (.reading (r.calls A w)))
    | _ => none
  | .kernelCall t =>
    match s.pc t with
    | .reading (c :: calls) =>
      -- The call is made with the GIL, which is kept while it waits for `K`.
      if takesLock c ∧ s.lock ≠ none then some (s.move t (.blocked (c :: calls)))
      else some (s.move t (.reading calls))
    | _ => none
  | .wake t =>
    match s.pc t with
    | .blocked (_ :: calls) => if s.lock = none then some (s.move t (.reading calls)) else none
    | _ => none
  | .readDone t =>
    match s.pc t with
    | .reading [] => some (s.move t .running)
    | _ => none
  | .processBlock t =>
    match s.pc t with
    | .running => some (s.move t .processing)
    | _ => none
  | .lock t =>
    match s.pc t with
    | .processing => if s.lock = none then some (s.move t .validating) else none
    | _ => none
  | .unlock t =>
    match s.pc t with
    | .validating => some (s.move t .processing)
    | _ => none
  | .callback t =>
    match s.pc t with
    | .validating => some (s.move t .callbackWaiting)
    | _ => none
  | .ensure t =>
    match s.pc t with
    | .callbackWaiting => if s.gil = none then some (s.move t .callbackRunning) else none
    | _ => none
  | .handlerGiveUp t =>
    match s.pc t with
    | .callbackRunning => some (s.move t .callbackWaiting)
    | _ => none
  | .callbackDone t =>
    match s.pc t with
    | .callbackRunning => some (s.move t .validating)
    | _ => none
  | .processDone t =>
    match s.pc t with
    | .processing => some (s.move t .waiting)
    | _ => none

/-- All threads in Python code, both locks free. -/
def threads (τ Obj : Type) [DecidableEq τ] : Machine (Shared τ) (Event τ Obj) where
  init := ⟨none, none, fun _ => .waiting⟩
  step := Shared.step

/-- One thread holds `K` and waits for the GIL in a callback, another holds the
GIL and waits for `K`. -/
def Deadlock (s : Shared τ) : Prop :=
  ∃ t t' calls, s.lock = some t ∧ s.pc t = .callbackWaiting ∧
    s.gil = some t' ∧ s.pc t' = .blocked calls

/-- A kernel call of a read that takes `K` is made only while `K` is free. -/
def LockFree (s : Shared τ) : Event τ Obj → Prop
  | .kernelCall t => ∀ c calls, s.pc t = .reading (c :: calls) → takesLock c → s.lock = none
  | _ => True

/-! ## Both locks are exclusive -/

/-- What a step can do: it moves one thread on. A lock the thread holds
afterwards it held before, or the lock was free; and where the thread ends up
blocked, it has made a kernel call that takes `K` while `K` was taken. -/
theorem step_cases {s s' : Shared τ} {e : Event τ Obj} (h : s.step e = some s') :
    ∃ t p, s' = s.move t p ∧
      (p.holdsGil = true → s.gil = none ∨ (s.pc t).holdsGil = true) ∧
      (p.holdsLock = true → s.lock = none ∨ (s.pc t).holdsLock = true) ∧
      ∀ calls, p = .blocked calls → e = .kernelCall t ∧ s.pc t = .reading calls ∧
        ∃ c rest, calls = c :: rest ∧ takesLock c = true ∧ s.lock ≠ none := by
  cases e with
  | acquire t | ensure t | lock t =>
    rw [Shared.step] at h
    split at h
    next hpc =>
      split at h
      next hfree =>
        refine ⟨t, _, (Option.some.inj h).symm, ?_, ?_, nofun⟩ <;>
          simp [hpc, hfree, Pc.holdsGil, Pc.holdsLock]
      next => cases h
    next => cases h
  | kernelCall t =>
    rw [Shared.step] at h
    split at h
    next c calls hpc =>
      split at h
      next hblock =>
        refine ⟨t, _, (Option.some.inj h).symm, fun _ => Or.inr (by rw [hpc]; rfl), nofun, ?_⟩
        intro calls' heq
        obtain rfl := Pc.blocked.inj heq
        exact ⟨rfl, hpc, c, calls, rfl, hblock⟩
      next =>
        exact ⟨t, _, (Option.some.inj h).symm, fun _ => Or.inr (by rw [hpc]; rfl), nofun, nofun⟩
    next => cases h
  | wake t =>
    rw [Shared.step] at h
    split at h
    next hpc =>
      split at h
      next =>
        exact ⟨t, _, (Option.some.inj h).symm, fun _ => Or.inr (by rw [hpc]; rfl), nofun, nofun⟩
      next => cases h
    next => cases h
  | giveUp t | read t A w r | readDone t | processBlock t | unlock t | callback t
  | handlerGiveUp t | callbackDone t | processDone t =>
    rw [Shared.step] at h
    split at h
    next hpc =>
      refine ⟨t, _, (Option.some.inj h).symm, ?_, ?_, nofun⟩ <;>
        simp [hpc, Pc.holdsGil, Pc.holdsLock]
    next => cases h

/-- Each lock is held by the thread that is where it is held. -/
structure Exclusive (s : Shared τ) : Prop where
  gil : ∀ t, (s.pc t).holdsGil = true ↔ s.gil = some t
  lock : ∀ t, (s.pc t).holdsLock = true ↔ s.lock = some t

theorem exclusive_init : Exclusive (threads τ Obj).init where
  gil _ := iff_of_false nofun nofun
  lock _ := iff_of_false nofun nofun

/-- A lock that was free, or held by the thread itself, is held as it should be
after the thread has moved on. -/
theorem holder_iff {pc : τ → Pc} {holds : Pc → Bool} {old : Option τ} {t : τ} {p : Pc}
    (hold : ∀ t, holds (pc t) = true ↔ old = some t)
    (hfree : holds p = true → old = none ∨ old = some t) (t' : τ) :
    holds (Function.update pc t p t') = true ↔ holder old t (holds p) = some t' := by
  unfold holder
  by_cases ht : t' = t
  · -- The thread that moved holds the lock if its new place says so.
    subst ht
    rw [Function.update_self]
    cases hp : holds p with
    | true => simp
    | false => by_cases hmine : old = some t' <;> simp [hmine]
  · -- Any other thread still holds what it held, which the first can not have taken.
    rw [Function.update_of_ne ht, hold t']
    cases hp : holds p with
    | true => rcases hfree hp with rfl | rfl <;> simp [Ne.symm ht]
    | false =>
      by_cases hmine : old = some t
      · simp [hmine, Ne.symm ht]
      · simp [hmine]

theorem exclusive_step {s s' : Shared τ} {e : Event τ Obj} (hex : Exclusive s)
    (h : s.step e = some s') : Exclusive s' := by
  obtain ⟨t, p, rfl, hgil, hlock, -⟩ := step_cases h
  exact ⟨holder_iff hex.gil fun hp => (hgil hp).imp_right (hex.gil t).mp,
    holder_iff hex.lock fun hp => (hlock hp).imp_right (hex.lock t).mp⟩

/-- **Whatever the threads do, the GIL and `K` are locks.** -/
theorem reachable_exclusive {s : Shared τ} (h : (threads τ Obj).Reachable s) : Exclusive s :=
  h.invariant exclusive_init fun _ _ _ hex hs => exclusive_step hex hs

/-! ## Disciplined runs -/

/-- No read is blocked in the kernel. -/
structure Inv (s : Shared τ) : Prop extends Exclusive s where
  unblocked : ∀ t calls, s.pc t ≠ .blocked calls

theorem inv_init : Inv (threads τ Obj).init :=
  ⟨exclusive_init, fun _ _ => nofun⟩

/-- **A disciplined step keeps the invariant.** -/
theorem inv_step {s s' : Shared τ} {e : Event τ Obj} (hinv : Inv s) (hC : LockFree s e)
    (h : s.step e = some s') : Inv s' := by
  refine ⟨exclusive_step hinv.toExclusive h, ?_⟩
  intro t' calls hblocked
  obtain ⟨t, p, rfl, -, -, hp⟩ := step_cases h
  change Function.update s.pc t p t' = .blocked calls at hblocked
  by_cases ht : t' = t
  · subst ht
    rw [Function.update_self] at hblocked
    obtain ⟨rfl, hpc, c, rest, rfl, htakes, htaken⟩ := hp calls hblocked
    exact htaken (hC c rest hpc htakes)
  · rw [Function.update_of_ne ht] at hblocked
    exact hinv.unblocked t' calls hblocked

/-! ## A blocked read can always deadlock -/

theorem blocked_deadlocks {s : Shared τ} {t : τ} {c : KCall} {calls : List KCall}
    (hex : Exclusive s)
    (hpc : s.pc t = .reading (c :: calls)) (hlock : s.lock ≠ none) :
    ∃ es s', (threads τ Obj).Obeys LockFree (s.move t (.blocked (c :: calls))) es ∧
      (threads τ Obj).exec (s.move t (.blocked (c :: calls))) es = some s' ∧ Deadlock s' := by
  obtain ⟨t', ht'⟩ := Option.ne_none_iff_exists'.mp hlock
  have hholds := (hex.lock t').mpr ht'
  have hgil : s.gil = some t := (hex.gil t).mp (hpc ▸ rfl)
  have hne : t' ≠ t := by
    intro heq
    subst heq
    rw [hpc] at hholds
    cases hholds
  have hpc' : (s.move t (.blocked (c :: calls))).pc t' = s.pc t' := Function.update_of_ne hne _ _
  have hself : (s.move t (.blocked (c :: calls))).pc t = .blocked (c :: calls) :=
    Function.update_self ..
  have hlock' : (s.move t (.blocked (c :: calls))).lock = some t' := by
    show (if s.lock = some t then none else s.lock) = some t'
    rw [if_neg (by rw [ht']; exact fun h => hne (Option.some.inj h)), ht']
  -- The holder of `K` is not in a handler, since it has not got the GIL.
  cases hholder : s.pc t' with
  | callbackRunning =>
    have hmine : s.gil = some t' := (hex.gil t').mp (hholder ▸ rfl)
    exact absurd (Option.some.inj (hmine.symm.trans hgil)) hne
  | callbackWaiting =>
    exact ⟨[], _, trivial, rfl, t', t, c :: calls, hlock', hpc'.trans hholder, rfl, hself⟩
  | validating =>
    have hcallback : (s.move t (.blocked (c :: calls))).step (.callback t' : Event τ Obj) =
        some ((s.move t (.blocked (c :: calls))).move t' .callbackWaiting) := by
      rw [Shared.step, hpc', hholder]
    refine ⟨[.callback t'], _, fun _ _ => ⟨trivial, trivial⟩,
      Machine.exec_cons_iff.mpr ⟨_, hcallback, rfl⟩, t', t, c :: calls, rfl,
      Function.update_self .., ?_, ?_⟩
    · show (if some t = some t' then none else some t) = some t
      rw [if_neg fun h => hne (Option.some.inj h).symm]
    · show Function.update (s.move t (.blocked (c :: calls))).pc t' .callbackWaiting t = _
      rw [Function.update_of_ne hne.symm]
      exact hself
  | waiting | running | reading _ | blocked _ | processing =>
    rw [hholder] at hholds
    cases hholds

/-- **Reading only while `K` is free keeps the GIL and `K` from deadlocking**; after any
other read some continuation deadlocks. -/
theorem no_deadlock_exact : (threads τ Obj).Exact LockFree fun s => ¬ Deadlock s := by
  refine Machine.exact_of_breach inv_init (fun s hinv => ?_)
    (fun _ _ _ hinv hC h => inv_step hinv hC h) fun s e s' hinv hC h => ?_
  · intro hdead
    obtain ⟨-, t', calls, -, -, -, hblocked⟩ := hdead
    exact hinv.unblocked t' calls hblocked
  · cases e with
    | kernelCall t =>
      obtain ⟨c, hno⟩ := Classical.not_forall.mp hC
      obtain ⟨calls, hno⟩ := Classical.not_forall.mp hno
      obtain ⟨hpc, hno⟩ := Classical.not_imp.mp hno
      obtain ⟨htakes, hlock⟩ := Classical.not_imp.mp hno
      change s.step (.kernelCall t : Event τ Obj) = some s' at h
      rw [Shared.step, hpc] at h
      simp only [htakes, hlock, ne_eq, not_false_eq_true, and_self, if_true] at h
      obtain ⟨es, s'', hob, hexec, hdead⟩ := blocked_deadlocks hinv.toExclusive hpc hlock
      exact Option.some.inj h ▸ ⟨es, s'', hob, hexec, not_not_intro hdead⟩
    | _ => exact absurd trivial hC

/-- Thread 0 validates a block with `K` held and calls back; thread 1 meanwhile
reads the chain's height. -/
theorem height_deadlocks :
    ∃ s, (threads (Fin 2) Unit).exec (threads (Fin 2) Unit).init
      [.acquire 0, .processBlock 0, .lock 0, .acquire 1,
        .read 1 answers ⟨[some (.manager 0)], [⟨.chain 0, some 0⟩], []⟩
          (.chainHeight ⟨.chain 0, some 0⟩),
        .kernelCall 1, .callback 0] = some s ∧ Deadlock s :=
  ⟨_, rfl, 0, 1, _, rfl, rfl, rfl, rfl⟩

end PyBitcoinKernel.Manager.Gil
