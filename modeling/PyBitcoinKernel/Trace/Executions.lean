import PyBitcoinKernel.Lib.Grouping
import PyBitcoinKernel.Script.Instruction

/-!
# `ScriptTrace.executions`: one group per script

A trace is a flat list of frames. `executions` walks it once, appending to
the list `current` (which is also an element of `groups`) until an `END` frame,
and opening a fresh one at a `BEGIN` frame or where there is none. The
invariant `SplitInv` says which groups that makes: the list is cut exactly
behind an `END` and in front of a `BEGIN`.

> `executions_lossless`: the groups concatenate to the trace, none is empty,
> `BEGIN` comes only first and `END` only last in a group, and two neighbours
> share a group exactly when the first is no `END` and the second no `BEGIN`;
> a trace of complete runs is split back into them.
-/

namespace PyBitcoinKernel.Trace

open PyBitcoinKernel.Script Grouping

/-- `ScriptTraceFrameKind`. -/
inductive FrameKind where
  | BEGIN
  | STEP
  | END
  deriving DecidableEq, Repr

/-- What `debugger.py` reads of a `ScriptTraceFrame`. -/
structure Frame where
  kind : FrameKind
  sigVersion : UInt8
  script : Bytes
  opcode : UInt8
  opcodePos : Nat
  executed : Bool
  stack : List Bytes
  scriptError : Int
  deriving DecidableEq, Repr

/-- `ScriptExecution`. -/
structure ScriptExecution where
  frames : List Frame

/-- `ScriptTrace`. -/
structure ScriptTrace where
  valid : Bool
  frames : List Frame
  deriving DecidableEq, Repr

/-! ## The loop -/

/-- The variables of the loop. `current` is bound to `None` or to the very list
object at that position of `groups`, so appending to it changes `groups`. -/
structure SplitState where
  groups : List (List Frame)
  current : Option Nat

/-- `current = [f]; groups.append(current)`. -/
def SplitState.openGroup (st : SplitState) (f : Frame) : SplitState :=
  ⟨st.groups ++ [[f]], some st.groups.length⟩

/-- The three branches that put a frame into a group. -/
def SplitState.place (st : SplitState) (f : Frame) : SplitState :=
  if f.kind = .BEGIN then st.openGroup f
  else match st.current with
    | none => st.openGroup f
    | some i => { st with groups := st.groups.modify i (· ++ [f]) }

/-- The body of the loop. -/
def splitStep (st : SplitState) (f : Frame) : SplitState :=
  let st := st.place f
  if f.kind = .END then { st with current := none } else st

/-- `ScriptTrace.executions`. -/
def ScriptTrace.executions (t : ScriptTrace) : List ScriptExecution :=
  (t.frames.foldl splitStep ⟨[], none⟩).groups.map ScriptExecution.mk

/-- The frames of the executions. -/
def ScriptTrace.groups (t : ScriptTrace) : List (List Frame) :=
  t.executions.map ScriptExecution.frames

/-- One `BEGIN`, any steps, one `END`. -/
def CompleteRun (run : List Frame) : Prop :=
  ∃ b steps e, run = b :: (steps ++ [e]) ∧ b.kind = .BEGIN ∧
    (∀ f ∈ steps, f.kind = .STEP) ∧ e.kind = .END

/-! ## The loop cuts behind `END` and in front of `BEGIN` -/

/-- Two neighbours of one execution. -/
def joins (a b : Frame) : Bool := a.kind ≠ .END && b.kind ≠ .BEGIN

theorem joins_iff {a b : Frame} : joins a b = true ↔ a.kind ≠ .END ∧ b.kind ≠ .BEGIN := by
  simp [joins]

theorem joins_begin {a b : Frame} (h : b.kind = .BEGIN) : joins a b = false := by
  simp [joins, h]

theorem joins_end {a b : Frame} (h : a.kind = .END) : joins a b = false := by
  simp [joins, h]

/-- Between two rounds: the frames seen are cut where they should be, and
`current` is the last group unless that is finished or does not exist. -/
structure SplitInv (seen : List Frame) (st : SplitState) : Prop where
  groups : st.groups = seen.splitBy joins
  opened : ∀ i, st.current = some i →
    i + 1 = st.groups.length ∧ ∀ x ∈ seen.getLast?, x.kind ≠ .END
  closed : st.current = none → ∀ x ∈ seen.getLast?, x.kind = .END

theorem SplitInv.init : SplitInv [] ⟨[], none⟩ :=
  ⟨rfl, fun _ h => (nomatch h), fun _ _ h => (nomatch h)⟩

/-- Wherever a frame goes, it ends up last in the last group, which `current`
is then bound to; the groups are cut as they should be. -/
theorem SplitInv.place {seen : List Frame} {st : SplitState} (h : SplitInv seen st) (f : Frame) :
    (st.place f).groups = (seen ++ [f]).splitBy joins ∧
      ∃ i, (st.place f).current = some i ∧ i + 1 = (st.place f).groups.length := by
  have hopen : (∀ x ∈ seen.getLast?, joins x f = false) →
      (st.openGroup f).groups = (seen ++ [f]).splitBy joins := by
    intro hf
    rw [List.splitBy_append_cons [] hf, ← h.groups]
    rfl
  have hlen : st.groups.length + 1 = (st.openGroup f).groups.length := by
    unfold SplitState.openGroup
    simp
  unfold SplitState.place
  by_cases hbegin : f.kind = .BEGIN
  · -- A `BEGIN` is related to nothing before it.
    rw [if_pos hbegin]
    exact ⟨hopen fun x _ => joins_begin hbegin, _, rfl, hlen⟩
  · rw [if_neg hbegin]
    cases hcur : st.current with
    | none => exact ⟨hopen fun x hx => joins_end (h.closed hcur x hx), _, rfl, hlen⟩
    | some i =>
      -- `current` is the last group, so appending to it extends that group.
      obtain ⟨hi, hlast⟩ := h.opened i hcur
      obtain ⟨gs, g, hgs⟩ := (List.eq_nil_or_concat' st.groups).resolve_left
        (fun hnil => by simp [hnil] at hi)
      have hmod : st.groups.modify i (· ++ [f]) = gs ++ [g ++ [f]] := by
        have hgi : i = gs.length := by rw [hgs] at hi; simpa using hi
        subst hgi
        rw [hgs, List.modify_eq_take_cons_drop (by simp)]
        simp
      have hcut := splitBy_concat_join (h.groups ▸ hgs) fun x hx =>
        joins_iff.mpr ⟨hlast x hx, hbegin⟩
      exact ⟨hmod.trans hcut.symm, i, rfl, by simpa using hi⟩

/-- **One round keeps the invariant.** -/
theorem SplitInv.step {seen : List Frame} {st : SplitState} (h : SplitInv seen st) (f : Frame) :
    SplitInv (seen ++ [f]) (splitStep st f) := by
  obtain ⟨hgroups, i, hcur, hi⟩ := h.place f
  have hf : ∀ x ∈ (seen ++ [f]).getLast?, x = f := fun x hx => by simpa [eq_comm] using hx
  show SplitInv _ (if f.kind = .END then { st.place f with current := none } else st.place f)
  by_cases hend : f.kind = .END
  · rw [if_pos hend]
    exact ⟨hgroups, fun _ h => (nomatch h), fun _ x hx => hf x hx ▸ hend⟩
  · rw [if_neg hend]
    refine ⟨hgroups, fun j hj => ?_, fun hnone => ?_⟩
    · rw [hcur, Option.some.injEq] at hj
      exact ⟨hj ▸ hi, fun x hx => hf x hx ▸ hend⟩
    · rw [hcur] at hnone
      cases hnone

theorem SplitInv.run {seen : List Frame} {st : SplitState} (h : SplitInv seen st)
    (rest : List Frame) : SplitInv (seen ++ rest) (rest.foldl splitStep st) := by
  induction rest generalizing seen st with
  | nil => simpa using h
  | cons f rest ih => simpa using ih (h.step f)

/-- What the loop computes. -/
theorem groups_eq_splitBy (t : ScriptTrace) : t.groups = t.frames.splitBy joins := by
  have h := (SplitInv.init.run t.frames).groups
  unfold ScriptTrace.groups ScriptTrace.executions
  rw [List.map_map, ← List.nil_append t.frames, ← h]
  simp [Function.comp_def]

/-! ## The shape of a group -/

theorem begin_first {g : List Frame} (h : g.IsChain fun a b => joins a b) {i : Nat}
    (hi : i < g.length) (hb : g[i].kind = .BEGIN) : i = 0 := by
  cases i with
  | zero => rfl
  | succ i =>
    -- Its predecessor would be related to it.
    have hrel := List.isChain_iff_getElem.mp h i hi
    rw [joins_begin hb] at hrel
    cases hrel

theorem end_last {g : List Frame} (h : g.IsChain fun a b => joins a b) {i : Nat}
    (hi : i < g.length) (he : g[i].kind = .END) : i + 1 = g.length := by
  by_contra hne
  have hrel := List.isChain_iff_getElem.mp h i (by omega)
  rw [joins_end he] at hrel
  cases hrel

theorem CompleteRun.ne_nil {run : List Frame} (h : CompleteRun run) : run ≠ [] := by
  obtain ⟨b, steps, e, rfl, -⟩ := h
  exact List.cons_ne_nil _ _

/-- A complete run holds together: only its first frame is a `BEGIN`, only its
last an `END`. -/
theorem CompleteRun.isChain {run : List Frame} (h : CompleteRun run) :
    run.IsChain fun a b => joins a b := by
  obtain ⟨b, steps, e, rfl, hb, hsteps, he⟩ := h
  have htail : (steps ++ [e]).IsChain fun a b => joins a b := by
    induction steps with
    | nil => exact List.isChain_singleton e
    | cons s steps ih =>
      have hs := hsteps s (List.mem_cons_self ..)
      refine List.isChain_cons.mpr ⟨fun x hx => joins_iff.mpr ⟨by simp [hs], ?_⟩,
        ih fun f hf => hsteps f (List.mem_cons_of_mem _ hf)⟩
      rcases List.mem_append.mp (List.mem_of_mem_head? hx) with hmem | hmem
      · simp [hsteps x (List.mem_cons_of_mem _ hmem)]
      · simp [List.mem_singleton.mp hmem, he]
  refine List.isChain_cons.mpr ⟨fun x hx => joins_iff.mpr ⟨by simp [hb], ?_⟩, htail⟩
  rcases List.mem_append.mp (List.mem_of_mem_head? hx) with hmem | hmem
  · simp [hsteps x hmem]
  · simp [List.mem_singleton.mp hmem, he]

/-- Complete runs stay apart: each ends with an `END`. -/
theorem CompleteRun.apart {runs : List (List Frame)} (h : ∀ run ∈ runs, CompleteRun run) :
    runs.IsChain fun a b => ∃ ha hb, joins (a.getLast ha) (b.head hb) = false := by
  refine (List.pairwise_of_forall_mem_list fun a ha b hb => ?_).isChain
  obtain ⟨_, steps, e, rfl, -, -, he⟩ := h a ha
  exact ⟨List.cons_ne_nil _ _, (h b hb).ne_nil, joins_end (by simpa using he)⟩

/-- **Splitting a trace into executions loses, duplicates and reorders
nothing.** -/
theorem executions_lossless (t : ScriptTrace) :
    t.groups.flatten = t.frames ∧ (∀ g ∈ t.groups, g ≠ []) ∧
      (∀ g ∈ t.groups, ∀ i (hi : i < g.length),
        (g[i].kind = .BEGIN → i = 0) ∧ (g[i].kind = .END → i + 1 = g.length)) ∧
      (∀ k (hk : k + 1 < t.frames.length), SameGroup t.groups k ↔
        t.frames[k].kind ≠ .END ∧ t.frames[k + 1].kind ≠ .BEGIN) ∧
      (∀ runs, (∀ run ∈ runs, CompleteRun run) → t.frames = runs.flatten → t.groups = runs) := by
  rw [groups_eq_splitBy]
  refine ⟨List.flatten_splitBy _ _, fun g hg => List.ne_nil_of_mem_splitBy hg,
    fun g hg i hi => ?_, fun k hk => ?_, fun runs hruns hframes => ?_⟩
  · have hchain := List.isChain_of_mem_splitBy hg
    exact ⟨begin_first hchain hi, end_last hchain hi⟩
  · rw [sameGroup_splitBy_iff hk, joins_iff]
  · rw [hframes]
    exact List.splitBy_flatten (fun hnil => (hruns [] hnil).ne_nil rfl)
      (fun run hrun => (hruns run hrun).isChain) (CompleteRun.apart hruns)

end PyBitcoinKernel.Trace
