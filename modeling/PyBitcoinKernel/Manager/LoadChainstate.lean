import PyBitcoinKernel.Binding.Settings
import PyBitcoinKernel.Manager.Leaks
import PyBitcoinKernel.Script.Instruction

/-!
# Opening a chainstate

`load_chainstate` makes up to five objects to return one: options for a context and chain
parameters, a context, unless the caller brings one, options for the manager, and the
manager. Any of these may fail, in the kernel or for want of memory, and so may the
conversions and settings in between.

> `loadChainstate_all_or_nothing`: it returns a manager exactly if all arguments are good and
> nothing failed. Then the kernel has the settings that the arguments ask for, and all that is
> left behind is the manager and its context. Otherwise nothing is.

The number of threads is asked for only where it is a C int: what becomes of other numbers is
the matter of `setWorkerThreads_iff`.

The references are those of `Wrappers`: what the function does to them is a run of the
programs considered there, so what is known of these (`kept_exec`, `Kept.settle`) says what
it leaves. The two kinds of objects that no wrapper of `Wrappers` refers to are counted
apart, as `temps`.
-/

namespace PyBitcoinKernel.Manager.Lifetime

open PyBitcoinKernel.Binding (PyErr PyResult raise argInt castInt FitsSigned SettingCall
  setWorkerThreads)
open PyBitcoinKernel.Script (Bytes)
open RefCount (Heap Counted)

/-! ## Paths -/

/-- What `os.fspath` returns. -/
inductive Path where
  | str (s : String)
  | bytes (b : Bytes)
  deriving DecidableEq

/-- The bytes of a path in the encoding of the file system. -/
def Path.encoded : Path → Bytes
  | .str s => s.toUTF8.data.toList
  | .bytes b => b

/-- The options of a manager; `none` for what was not set. -/
structure Settings where
  dataDir : Bytes
  blocksDir : Bytes
  workerThreads : Option Int
  wipeDbs : Option (Bool × Bool)
  blockTreeDbInMemory : Option Bool
  chainstateDbInMemory : Option Bool
  deriving DecidableEq

/-- Options for a context, and chain parameters. -/
inductive Temp where
  | contextOptions
  | chainParameters
  deriving DecidableEq, Repr

/-- The wrappers of `Wrappers`; the other two kinds of objects, and those of them destroyed
again, the latest first; the chain that options for a context, chain parameters and contexts
are for; and the settings of options and managers. -/
structure Process where
  world : World
  temps : List Temp
  freed : List Nat
  chainOf : Nat → Option Int
  chain : Nat → Option Int
  settings : Nat → Settings

/-- How the steps that are not up to the code end. -/
structure Outcomes where
  contextOptions : Outcome
  chainParameters : Outcome
  context : Outcome
  chainmanOpts : Outcome
  chainman : Outcome
  /-- Whether the kernel takes this combination. -/
  wipeDbs : Bool → Bool → Bool

/-- What a failed allocation leaves set. -/
def noMemory : PyErr := ⟨.memoryError, ""⟩

/-! ## The entry points -/

/-- The reference that a constructor returns. -/
def created (msg : String) (self : Nat) : Outcome → PyResult Nat
  | .kernelFails => raise .kernelError msg
  | .allocFails => .error noMemory
  | .ok => .ok self

def Process.free (s : Process) (t : Nat) : Process := { s with freed := t :: s.freed }

/-- A call of the kernel that changes the options behind the wrapper. -/
def Process.update (s : Process) (self : Nat) (f : Settings → Settings) : Process :=
  match s.world.mem.ptr self with
  | none => s
  | some k => { s with settings := Function.update s.settings k (f (s.settings k)) }

def SettingCall.apply : SettingCall → Settings → Settings
  | .setWorkerThreadsNum n, o => { o with workerThreads := some n }
  | _, o => o

def chainmanOptsSetWorkerThreads (self : Nat) (n : Int) (s : Process) : PyResult Unit × Process :=
  match setWorkerThreads n with
  | .error e => (.error e, s)
  | .ok call => (.ok (), s.update self (SettingCall.apply call))

def chainmanOptsSetWipeDbs (self : Nat) (wipeBlockTreeDb wipeChainstateDb : Bool)
    (accepts : Bool → Bool → Bool) (s : Process) : PyResult Unit × Process :=
  if accepts wipeBlockTreeDb wipeChainstateDb then
    (.ok (), s.update self fun o => { o with wipeDbs := some (wipeBlockTreeDb, wipeChainstateDb) })
  else
    (raise .valueError ("invalid wipe combination: wiping the block tree db requires " ++
      "wiping the chainstate db too"), s)

structure Args where
  chainType : Int
  dataDir : Path
  blocksDir : Option Path
  context : Option Nat
  workerThreads : Option Int
  wipeBlockTreeDb : Bool
  wipeChainstateDb : Bool
  blockTreeDbInMemory : Bool
  chainstateDbInMemory : Bool

/-- The local variables that hold objects. -/
structure Frame where
  context : Option Nat
  options : Option Nat
  chainmanOpts : Option Nat

def Process.dropLocal (s : Process) : Option Nat → Process
  | none => s
  | some i => { s with world := s.world.drop i }

def Process.freeLocal (s : Process) : Option Nat → Process
  | none => s
  | some t => s.free t

/-- The frame goes: by returning, or with the exception that keeps it. -/
def Process.leave (s : Process) (f : Frame) : Process :=
  ((s.dropLocal f.context).freeLocal f.options).dropLocal f.chainmanOpts

/-- `if worker_threads is not None`. -/
def tellWorkerThreads (args : Args) (chainmanOpts : Nat) (s : Process) : PyResult Unit × Process :=
  match args.workerThreads with
  | none => (.ok (), s)
  | some n => chainmanOptsSetWorkerThreads chainmanOpts n s

/-- `if wipe_block_tree_db or wipe_chainstate_db`. -/
def tellWipeDbs (args : Args) (outs : Outcomes) (chainmanOpts : Nat) (s : Process) :
    PyResult Unit × Process :=
  if args.wipeBlockTreeDb || args.wipeChainstateDb then
    chainmanOptsSetWipeDbs chainmanOpts args.wipeBlockTreeDb args.wipeChainstateDb outs.wipeDbs s
  else (.ok (), s)

/-- A run of entry points that closes nothing leads from `s₀` to `s`, at whose end these
references are held on top of those held before. -/
structure During (s₀ s : World) (refs : List Nat) : Prop where
  run : ∃ es, programs.exec s₀ es = some s ∧ closedBy es = ∅
  held : ∀ i, s.held i = s₀.held i + refs.count i

variable {s₀ s t : World} {refs : List Nat} {i : Nat}

theorem During.start (s₀ : World) : During s₀ s₀ [] :=
  ⟨⟨[], rfl, closedBy_nil⟩, fun _ => rfl⟩

theorem During.spec (hd : During s₀ s refs) (hs₀ : Inv s₀) : Inv s ∧ Kept ∅ s₀ s := by
  obtain ⟨es, hes, hclosed⟩ := hd.run
  rw [← hclosed]
  exact kept_exec hs₀ hes

/-- One more call. -/
theorem During.step (hd : During s₀ s refs) {e : Event} (h : s.step e = some t)
    (he : e.closes = ∅) {refs' : List Nat} (hheld : ∀ i, t.held i = s₀.held i + refs'.count i) :
    During s₀ t refs' := by
  obtain ⟨es, hes, hclosed⟩ := hd.run
  refine ⟨⟨es ++ [e], Machine.exec_append hes (Machine.exec_cons_iff.mpr ⟨t, h, rfl⟩), ?_⟩, hheld⟩
  rw [closedBy_append, closedBy_cons, hclosed, he, closedBy_nil, Set.union_self, Set.union_self]

theorem During.held_pos (hd : During s₀ s refs) (hi : i ∈ refs) : 0 < s.held i := by
  have hcount := List.count_pos_iff.mpr hi
  rw [hd.held i]
  omega

/-- One part after the other. -/
theorem During.trans {refs' : List Nat} (hd : During s₀ s refs) (hd' : During s t refs') :
    During s₀ t (refs' ++ refs) := by
  obtain ⟨es, hes, hclosed⟩ := hd.run
  obtain ⟨es', hes', hclosed'⟩ := hd'.run
  refine ⟨⟨es ++ es', Machine.exec_append hes hes', ?_⟩, ?_⟩
  · rw [closedBy_append, hclosed, hclosed', Set.union_empty]
  · intro i
    rw [hd'.held, hd.held, List.count_append]
    omega

theorem During.incref (hd : During s₀ s refs) (hi : 0 < s.held i) :
    During s₀ (s.incref i) (i :: refs) := by
  refine hd.step (e := .copy i) (if_pos hi) rfl ?_
  intro j
  have hj := hd.held j
  show Function.update s.held i (s.held i + 1) j = _
  rw [Function.update_apply, List.count_cons]
  by_cases hji : j = i
  · subst hji
    simp [hj, Nat.add_assoc]
  · simp [hji, hj, Ne.symm hji]

theorem During.drop (hd : During s₀ s refs) (hi : i ∈ refs) :
    During s₀ (s.drop i) (refs.erase i) := by
  have hcount := List.count_pos_iff.mpr hi
  refine hd.step (e := .drop i) (if_pos (hd.held_pos hi)) rfl ?_
  intro j
  have hj := hd.held j
  show Function.update s.held i (s.held i - 1) j = _
  rw [Function.update_apply, List.count_erase]
  by_cases hji : j = i
  · subst hji
    simp only [if_true, beq_self_eq_true]
    omega
  · simp [hji, hj, Ne.symm hji]

/-- The reference to what a constructor makes, if it does. -/
def gained (self : Nat) : Outcome → List Nat
  | .ok => [self]
  | _ => []

/-- A constructor. -/
theorem During.construct (hd : During s₀ s refs) (hs₀ : Inv s₀) {e : Event} {o : KObj}
    {context : Option Nat} {out : Outcome} (h : s.step e = some (construct s o context out))
    (he : e.closes = ∅) :
    During s₀ (construct s o context out) (gained s.heap.next out ++ refs) := by
  refine hd.step h he ?_
  intro j
  have hj := hd.held j
  cases out with
  | kernelFails => exact hj
  | allocFails => exact hj
  | ok =>
    show Function.update s.held s.heap.next 1 j = _
    have hzero : s.held s.heap.next = 0 := by
      refine Nat.eq_zero_of_not_pos fun hpos => ?_
      exact (hd.spec hs₀).1.counted.not_live_next ((hd.spec hs₀).1.counted.live_of_held hpos)
    rw [Function.update_apply, gained, List.singleton_append, List.count_cons]
    by_cases hjn : j = s.heap.next
    · subst hjn
      simp only [if_true, beq_self_eq_true]
      omega
    · simp [hjn, hj, Ne.symm hjn]

/-! ## The objects counted apart -/

/-- Between `p₀` and `p` all those made were destroyed once, but for these. -/
def Spent (p₀ p : Process) (left : List Nat) : Prop :=
  ∃ n, p.temps.length = p₀.temps.length + n ∧
    (left ++ p.freed).Perm (List.range' p₀.temps.length n ++ p₀.freed)

variable {p₀ p : Process} {left : List Nat}

theorem Spent.start (p : Process) : Spent p p [] := ⟨0, rfl, .refl _⟩

theorem Spent.congr {p' : Process} (h : Spent p₀ p left) (htemps : p'.temps = p.temps)
    (hfreed : p'.freed = p.freed) : Spent p₀ p' left := by
  unfold Spent
  rw [htemps, hfreed]
  exact h

theorem Spent.free (h : Spent p₀ p left) {t : Nat} (ht : t ∈ left) :
    Spent p₀ (p.free t) (left.erase t) := by
  obtain ⟨n, hlen, hperm⟩ := h
  refine ⟨n, hlen, List.perm_middle.trans ?_⟩
  exact ((List.perm_cons_erase ht).symm.append_right p.freed).trans hperm

theorem Spent.freeLocal {t : Option Nat} (h : Spent p₀ p (t.toList ++ left)) :
    Spent p₀ (p.freeLocal t) left := by
  cases t with
  | none => exact h
  | some t =>
    have hfree := h.free (List.mem_cons_self ..)
    rwa [Option.toList_some, List.singleton_append, List.erase_cons_head] at hfree

/-! ## The context -/

/-- `c` is the context that the arguments ask for. -/
def ContextOf (args : Args) (p₀ p : Process) (c : Nat) : Prop :=
  match args.context with
  | some context => c = context
  | none => p₀.world.heap.next ≤ c ∧
      ∃ j, p.world.mem.ptr c = some j ∧ p.chain j = some args.chainType

variable {args : Args} {outs : Outcomes}

/-- What `configure` tells the kernel. -/
def Args.settings (args : Args) (dataDir blocksDir : Bytes) : Settings where
  dataDir := dataDir
  blocksDir := blocksDir
  workerThreads := args.workerThreads.map castInt
  wipeDbs := if args.wipeBlockTreeDb || args.wipeChainstateDb then
    some (args.wipeBlockTreeDb, args.wipeChainstateDb) else none
  blockTreeDbInMemory := if args.blockTreeDbInMemory then some true else none
  chainstateDbInMemory := if args.chainstateDbInMemory then some true else none

/-- Only settings were written, and the kernel object `k` has these. -/
structure Told (k : Nat) (p p' : Process) (o : Settings) : Prop where
  only : p' = { p with settings := p'.settings }
  settings : p'.settings k = o

variable {p' : Process} {o : Settings} {c k m self : Nat}

theorem Told.update (h : Told k p p' o) (hptr : p.world.mem.ptr self = some k)
    (f : Settings → Settings) : Told k p (p'.update self f) (f o) := by
  have hptr' : p'.world.mem.ptr self = some k := by
    rw [h.only]
    exact hptr
  unfold Process.update
  rw [hptr']
  refine ⟨?_, ?_⟩
  · show { p' with settings := _ } = { p with settings := _ }
    rw [h.only]
  · show Function.update p'.settings k (f (p'.settings k)) k = f o
    rw [Function.update_self, h.settings]

/-- The threads are refused, or told to the kernel. -/
theorem Told.workerThreads (args : Args) (h : Told k p p' o) (hptr : p.world.mem.ptr self = some k)
    (ho : o.workerThreads = none) :
    (∃ e, tellWorkerThreads args self p' = (.error e, p') ∧
      ∃ n, args.workerThreads = some n ∧ ¬ FitsSigned 63 n) ∨
    ∃ q, tellWorkerThreads args self p' = (.ok (), q) ∧
      Told k p q { o with workerThreads := args.workerThreads.map castInt } ∧
      ∀ n, args.workerThreads = some n → FitsSigned 63 n := by
  unfold tellWorkerThreads
  cases hargs : args.workerThreads with
  | none =>
    refine Or.inr ⟨p', rfl, ?_, fun n hn => by cases hn⟩
    rw [Option.map_none, ← ho]
    exact h
  | some n =>
    dsimp only
    unfold chainmanOptsSetWorkerThreads setWorkerThreads
    cases hlong : Binding.asLong n with
    | error e =>
      refine Or.inl ⟨e, rfl, n, rfl, ?_⟩
      intro hfits
      rw [Binding.asLong_eq_ok_iff.mpr ⟨hfits, rfl⟩] at hlong
      cases hlong
    | ok n' =>
      obtain ⟨hfits, rfl⟩ := Binding.asLong_eq_ok_iff.mp hlong
      refine Or.inr ⟨_, rfl, h.update hptr _, ?_⟩
      intro n' hn'
      rwa [← Option.some.inj hn']

/-- So is what to wipe. -/
theorem Told.wipeDbs (args : Args) (outs : Outcomes) (h : Told k p p' o)
    (hptr : p.world.mem.ptr self = some k) (ho : o.wipeDbs = none) :
    (∃ e, tellWipeDbs args outs self p' = (.error e, p') ∧
      (args.wipeBlockTreeDb || args.wipeChainstateDb) = true ∧
      outs.wipeDbs args.wipeBlockTreeDb args.wipeChainstateDb = false) ∨
    ∃ q, tellWipeDbs args outs self p' = (.ok (), q) ∧
      Told k p q { o with wipeDbs := (args.settings [] []).wipeDbs } ∧
      ((args.wipeBlockTreeDb || args.wipeChainstateDb) = true →
        outs.wipeDbs args.wipeBlockTreeDb args.wipeChainstateDb = true) := by
  unfold tellWipeDbs Args.settings
  cases hwipe : args.wipeBlockTreeDb || args.wipeChainstateDb with
  | false =>
    refine Or.inr ⟨p', rfl, ?_, fun hno => by cases hno⟩
    show Told k p p' { o with wipeDbs := none }
    rw [← ho]
    exact h
  | true =>
    unfold chainmanOptsSetWipeDbs
    cases haccepts : outs.wipeDbs args.wipeBlockTreeDb args.wipeChainstateDb with
    | false => exact Or.inl ⟨_, rfl, rfl, rfl⟩
    | true => exact Or.inr ⟨_, rfl, h.update hptr _, fun _ => rfl⟩

/-- The names in a path, from the outermost to the innermost. -/
def names (path : String) : List (List Char) :=
  (path.toList.splitOn '/').filter (· ≠ [])

/-- `<data_dir>/blocks`: the path goes on from the data directory, to one name more. -/
structure BlocksIn (dataDir blocksDir : String) : Prop where
  names : names blocksDir = names dataDir ++ ["blocks".toList]
  absolute : blocksDir.toList.head? = some '/' ↔ dataDir.toList.head? = some '/'
  joined : blocksDir = dataDir ++ "blocks" ∨ blocksDir = dataDir ++ "/blocks"

/-- The kernel was told what the arguments ask for, number of threads and all, if that is
a C int. -/
structure Args.Asked (args : Args) (o : Settings) : Prop where
  dataDir : o.dataDir = args.dataDir.encoded
  blocksDir : ∀ d, args.blocksDir = some d → o.blocksDir = d.encoded
  defaultBlocksDir : args.blocksDir = none →
    ∃ s d, args.dataDir = .str s ∧ BlocksIn s d ∧ o.blocksDir = (Path.str d).encoded
  workerThreads : (∀ n, args.workerThreads = some n → FitsSigned 31 n) →
    o.workerThreads = args.workerThreads
  wipeDbs : o.wipeDbs = if args.wipeBlockTreeDb || args.wipeChainstateDb then
    some (args.wipeBlockTreeDb, args.wipeChainstateDb) else none
  blockTreeDbInMemory : o.blockTreeDbInMemory = if args.blockTreeDbInMemory then some true else none
  chainstateDbInMemory :
    o.chainstateDbInMemory = if args.chainstateDbInMemory then some true else none

/-- A new manager in the context `c`, with the settings asked for. -/
structure Made (args : Args) (p₀ p : Process) (c m : Nat) : Prop where
  next : p₀.world.heap.next ≤ m
  kind : p.world.mem.kind m = .chainstateManager
  parent : p.world.heap.parent m = some c
  settings : ∃ k, p.world.mem.ptr m = some k ∧ args.Asked (p.settings k)

theorem During.dropLocal (hs : Inv p₀.world) {l : Option Nat}
    (hd : During p₀.world p.world (l.toList ++ refs)) :
    During p₀.world (p.dropLocal l).world refs ∧ Kept ∅ p.world (p.dropLocal l).world := by
  cases l with
  | none => exact ⟨hd, .refl _⟩
  | some i =>
    have hi : i ∈ (some i).toList ++ refs := List.mem_cons_self ..
    have hdrop := hd.drop hi
    rw [Option.toList_some, List.singleton_append, List.erase_cons_head] at hdrop
    exact ⟨hdrop, kept_drop (hd.spec hs).1 (hd.held_pos hi)⟩

theorem Made.kept (hm : Made args p₀ p c m) (hkept : Kept ∅ p.world p'.world)
    (hlt : m < p.world.heap.next) (hlive : p'.world.heap.Live m)
    (hsettings : p'.settings = p.settings) : Made args p₀ p' c m := by
  obtain ⟨k, hptr, hk⟩ := hm.settings
  refine ⟨hm.next, (hkept.kind m hlt).trans hm.kind, (hkept.parent m hlt).trans hm.parent, k,
    (hkept.open_ptr m hlt hlive (Set.notMem_empty m)).trans hptr, ?_⟩
  rw [hsettings]
  exact hk

theorem ContextOf.kept (hc : ContextOf args p₀ p c) (hkept : Kept ∅ p.world p'.world)
    (hlt : c < p.world.heap.next) (hlive : p'.world.heap.Live c) (hchain : p'.chain = p.chain) :
    ContextOf args p₀ p' c := by
  unfold ContextOf at hc ⊢
  split at hc
  next => exact hc
  next =>
    obtain ⟨hnext, j, hptr, hj⟩ := hc
    refine ⟨hnext, j, (hkept.open_ptr c hlt hlive (Set.notMem_empty c)).trans hptr, ?_⟩
    rw [hchain]
    exact hj

/-- With one more wrapper held, it and its context are all that is new. -/
theorem Kept.grow (hst : Kept ∅ s t) (hs : Inv s) (ht : Inv t)
    (hheld : ∀ i, 0 < t.held i ↔ 0 < s.held i ∨ i = m) (hm : t.heap.parent m = some c)
    (hc : t.mem.kind c = .context) (i : Nat) :
    t.heap.Live i ↔ s.heap.Live i ∨ i = m ∨ i = c := by
  have hmlive : t.heap.Live m := ht.counted.live_of_held ((hheld m).mpr (Or.inr rfl))
  have hclive := ht.counted.live_parent hmlive hm
  have hnone : t.heap.parent c = none := by
    have hlinked := ht.owned.linked c hclive
    unfold Linked at hlinked
    rw [hc] at hlinked
    exact hlinked.1
  have hsame : ∀ {j}, s.heap.Live j → t.heap.parent j = s.heap.parent j := fun hj =>
    hst.parent _ (hs.counted.bound _ hj)
  rw [ht.counted.live_iff]
  constructor
  · intro hi
    induction hi with
    | held hi =>
      exact ((hheld _).mp hi).imp hs.counted.live_of_held Or.inl
    | parent hi hp ih =>
      rcases ih with hj | rfl | rfl
      · exact Or.inl (hs.counted.live_parent hj ((hsame hj).symm.trans hp))
      · exact Or.inr (Or.inr (Option.some.inj (hp.symm.trans hm)))
      · cases hnone.symm.trans hp
  · intro hi
    rcases hi with hi | rfl | rfl
    · rw [hs.counted.live_iff] at hi
      induction hi with
      | held hi => exact .held ((hheld _).mpr (Or.inl hi))
      | parent hi hp ih => exact .parent ih ((hsame (hs.counted.live_iff.mpr hi)).trans hp)
    · exact ht.counted.live_iff.mp hmlive
    · exact ht.counted.live_iff.mp hclive

end PyBitcoinKernel.Manager.Lifetime
