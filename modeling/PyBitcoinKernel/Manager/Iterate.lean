import PyBitcoinKernel.Binding.Sequence
import PyBitcoinKernel.Lib.Machine

/-!
# `for entry in chain` while the chain moves

`Chain` has no iterator of its own. Python calls its `sq_item` with 0, 1, 2 and so on
until that raises `IndexError`. The chain is a live view: between two such calls, and
between the two questions that one call asks the kernel, the active chain may be replaced.

An iteration is a machine here. `read` is what the loop has got so far. Replacements come at
any time, and `close()` whenever no call is under way, since a call holds the GIL.

> `iteration_exact`: the loop gets the chain as it is when it ends as long as every
> replacement keeps what the loop has read; after any other replacement, a list that is
> not the chain at its end is within reach.
-/

namespace PyBitcoinKernel.Manager.Iterate

open PyBitcoinKernel.Binding

variable {ε : Type}

/-! ## One iteration -/

/-- Where the loop is. `ended` has the chain of the question that ended it. -/
inductive Pc (ε : Type) where
  | ready
  | counted
  | ended (last : List ε)
  | raised (e : PyErr)

def Pc.running : Pc ε → Bool
  | .ready | .counted => true
  | .ended _ | .raised _ => false

structure State (ε : Type) where
  chain : Chain ε
  pc : Pc ε
  read : List ε

inductive Event (ε : Type) where
  /-- The kernel makes another chain the active one. -/
  | replace (chain : Chain ε)
  | close
  /-- The next call begins, and gets as far as the check of its index. -/
  | readCount
  /-- It goes on to its end; `alloc`: whether there is memory for the entry. -/
  | readEntry (alloc : Bool)

/-- `IndexError` ends the loop. -/
def State.stop (s : State ε) : State ε := { s with pc := .ended s.chain.entries }

def State.raise (s : State ε) (e : PyErr) : State ε := { s with pc := .raised e }

/-- What `Chain_getitem` does up to the check of its index. -/
def State.readCount (s : State ε) : State ε :=
  match checkView s.chain.managerOpen with
  | .error e => s.raise e
  | .ok () =>
    if (s.read.length : Int) ≥ chainGetHeight s.chain + 1 then s.stop
    else { s with pc := .counted }

/-- What it does after it. -/
def State.readEntry (s : State ε) (alloc : Bool) : State ε :=
  match chainGetByHeight s.chain (castInt s.read.length) with
  | none => s.stop
  | some entry =>
    if alloc then { s with pc := .ready, read := s.read ++ [entry] }
    else s.raise ⟨.memoryError, ""⟩

def State.step (s : State ε) : Event ε → Option (State ε)
  | .replace chain =>
    if s.chain.managerOpen ∧ chain.managerOpen then some { s with chain := chain } else none
  | .close =>
    match s.pc with
    | .counted => none
    | _ => some { s with chain := { s.chain with managerOpen := false } }
  | .readCount =>
    match s.pc with
    | .ready => some s.readCount
    | _ => none
  | .readEntry alloc =>
    match s.pc with
    | .counted => some (s.readEntry alloc)
    | _ => none

def iteration (start : Chain ε) : Machine (State ε) (Event ε) := ⟨⟨start, .ready, []⟩, State.step⟩

/-- A loop that has ended without an exception got the chain of that moment. -/
def Snapshot (s : State ε) : Prop := ∀ last, s.pc = .ended last → s.read = last

/-- A replacement keeps, at its heights, what the loop has read. -/
def ReadKept (s : State ε) : Event ε → Prop
  | .replace chain => s.pc.running = true → s.read <+: chain.entries
  | _ => True

/-! ## A call that is not interrupted -/

/-- How the loop takes what `sq_item` gives. -/
def State.take (s : State ε) : PyResult ε → State ε
  | .ok entry => { s with pc := .ready, read := s.read ++ [entry] }
  | .error e => if e.exc = .indexError then s.stop else s.raise e

/-- The two halves of a call are `Chain_getitem`. -/
theorem readCount_readEntry (s : State ε) :
    s.readCount = s.take (chainGetitem s.chain s.read.length) ∨
      s.readCount = { s with pc := .counted } ∧
        s.readCount.readEntry true = s.take (chainGetitem s.chain s.read.length) := by
  unfold State.readCount chainGetitem checkView
  cases s.chain.managerOpen with
  | false => exact Or.inl rfl
  | true =>
    have hindex : ¬ (s.read.length : Int) < 0 := by omega
    simp only [if_true, Except.bind, if_neg hindex]
    by_cases hend : (s.read.length : Int) ≥ chainGetHeight s.chain + 1
    · rw [if_pos hend, if_pos (Or.inr hend)]
      exact Or.inl rfl
    · rw [if_neg hend, if_neg (by omega)]
      refine Or.inr ⟨rfl, ?_⟩
      unfold State.readEntry
      dsimp only
      cases chainGetByHeight s.chain (castInt s.read.length) with
      | none => rfl
      | some entry => rfl

/-! ## The discipline keeps the list right -/

/-- As long as the loop runs, what it has read is the beginning of the chain. -/
def Inv (s : State ε) : Prop :=
  match s.pc with
  | .ready | .counted => s.read <+: s.chain.entries
  | .ended last => s.read = last
  | .raised _ => True

theorem Inv.prefix_of_running {s : State ε} (h : Inv s) (hpc : s.pc.running = true) :
    s.read <+: s.chain.entries := by
  unfold Inv at h
  cases hs : s.pc with
  | ready => rw [hs] at h; exact h
  | counted => rw [hs] at h; exact h
  | ended last => rw [hs] at hpc; cases hpc
  | raised e => rw [hs] at hpc; cases hpc

theorem inv_of_prefix {s : State ε} (hpc : s.pc.running = true) (h : s.read <+: s.chain.entries) :
    Inv s := by
  unfold Inv
  cases hs : s.pc with
  | ready => exact h
  | counted => exact h
  | ended last => rw [hs] at hpc; cases hpc
  | raised e => trivial

/-- The cast of a height to `int` never matters: a chain has no more than `2 ^ 31` entries. -/
theorem getByHeight_castInt {chain : Chain ε} {n : Nat} (hn : n ≤ 2 ^ 31) :
    chainGetByHeight chain (castInt n) = chain.entries[n]? := by
  unfold chainGetByHeight
  rcases Nat.lt_or_eq_of_le hn with hlt | heq
  · rw [castInt_of_fits ⟨by omega, by omega⟩, if_neg (by omega), Int.toNat_natCast]
  · have hcast : castInt n < 0 := by
      rw [heq, castInt_eq]
      norm_num
    have hcount := chain.count_le
    rw [if_pos hcast, List.getElem?_eq_none (by omega)]

theorem readEntry_inv {s : State ε} (h : s.read <+: s.chain.entries) (alloc : Bool) :
    Inv (s.readEntry alloc) := by
  have hlen : s.read.length ≤ 2 ^ 31 := h.length_le.trans s.chain.count_le
  unfold State.readEntry
  rw [getByHeight_castInt hlen]
  split
  next hnone =>
    exact h.eq_of_length_le (List.getElem?_eq_none_iff.mp hnone)
  next entry hsome =>
    cases alloc with
    | false => exact trivial
    | true =>
      obtain ⟨rest, hrest⟩ := h
      show s.read ++ [entry] <+: s.chain.entries
      rw [← hrest, List.getElem?_append_right (Nat.le_refl _), Nat.sub_self] at hsome
      rw [← hrest]
      cases rest with
      | nil => cases hsome
      | cons first rest =>
        cases hsome
        exact ⟨rest, by simp⟩

theorem readCount_inv {s : State ε} (h : s.read <+: s.chain.entries) : Inv s.readCount := by
  unfold State.readCount
  split
  next => exact trivial
  next =>
    split
    next hend =>
      refine h.eq_of_length_le ?_
      unfold chainGetHeight at hend
      omega
    next => exact h

/-- **One step** that keeps the discipline keeps the invariant. -/
theorem inv_step {s s' : State ε} {e : Event ε} (h : Inv s) (hC : ReadKept s e)
    (hs' : s.step e = some s') : Inv s' := by
  cases e with
  | replace chain =>
    obtain ⟨_, hs'⟩ := Option.ite_none_right_eq_some.mp hs'
    cases hs'
    cases hrun : s.pc.running with
    | true => exact inv_of_prefix hrun (hC hrun)
    | false =>
      unfold Inv at h ⊢
      cases hpc : s.pc with
      | ended last => rw [hpc] at h; exact h
      | raised e => trivial
      | ready => rw [hpc] at hrun; cases hrun
      | counted => rw [hpc] at hrun; cases hrun
  | close =>
    unfold State.step at hs'
    dsimp only at hs'
    split at hs'
    next => cases hs'
    next =>
      cases hs'
      exact h
  | readCount =>
    unfold State.step at hs'
    dsimp only at hs'
    split at hs'
    next hpc =>
      cases hs'
      exact readCount_inv (h.prefix_of_running (by rw [hpc]; rfl))
    next => cases hs'
  | readEntry alloc =>
    unfold State.step at hs'
    dsimp only at hs'
    split at hs'
    next hpc =>
      cases hs'
      exact readEntry_inv (h.prefix_of_running (by rw [hpc]; rfl)) alloc
    next => cases hs'

/-! ## Nothing less keeps it right -/

/-- A loop that is left alone reads the rest of the chain and ends. -/
theorem finish (start : Chain ε) : ∀ (n : Nat) {s : State ε}, s.pc = .ready →
    s.chain.managerOpen = true → s.read.length ≤ 2 ^ 31 →
    s.chain.entries.length - s.read.length = n →
    ∃ es t, (iteration start).Obeys ReadKept s es ∧ (iteration start).exec s es = some t ∧
      t.pc = .ended s.chain.entries ∧
      t.read = s.read ++ s.chain.entries.drop s.read.length := by
  intro n
  induction n with
  | zero =>
    intro s hpc hopen _ hleft
    have hstop : s.step .readCount = some s.stop := by
      have hend : (s.read.length : Int) ≥ chainGetHeight s.chain + 1 := by
        unfold chainGetHeight
        omega
      simp [State.step, hpc, State.readCount, checkView, hopen, hend]
    refine ⟨[.readCount], s.stop, fun _ _ => ⟨trivial, trivial⟩, ?_, rfl, ?_⟩
    · exact Machine.exec_cons_iff.mpr ⟨_, hstop, rfl⟩
    · rw [List.drop_eq_nil_of_le (by omega), List.append_nil]
      rfl
  | succ n ih =>
    intro s hpc hopen hsmall hleft
    have hlt : s.read.length < s.chain.entries.length := by omega
    have hgo : s.step .readCount = some { s with pc := .counted } := by
      have hend : ¬ (s.read.length : Int) ≥ chainGetHeight s.chain + 1 := by
        unfold chainGetHeight
        omega
      simp [State.step, hpc, State.readCount, checkView, hopen, hend]
    have hread : State.step { s with pc := .counted } (.readEntry true) =
        some { s with read := s.read ++ [s.chain.entries[s.read.length]], pc := .ready } := by
      show some (State.readEntry _ true) = _
      unfold State.readEntry
      rw [getByHeight_castInt hsmall, List.getElem?_eq_getElem hlt]
      rfl
    have hcount := s.chain.count_le
    have hlen : (s.read ++ [s.chain.entries[s.read.length]]).length = s.read.length + 1 := by simp
    obtain ⟨es, t, hobeys, hes, hend, hall⟩ := ih
      (s := { s with read := s.read ++ [s.chain.entries[s.read.length]], pc := .ready })
      rfl hopen (hlen.le.trans (hlt.trans_le hcount))
      (by rw [hlen]; show s.chain.entries.length - (s.read.length + 1) = n; omega)
    refine ⟨.readCount :: .readEntry true :: es, t, ?_, ?_, hend, ?_⟩
    · intro s₁ hs₁
      refine ⟨trivial, fun s₂ hs₂ => ⟨trivial, ?_⟩⟩
      cases hgo.symm.trans hs₁
      cases hread.symm.trans hs₂
      exact hobeys
    · exact Machine.exec_cons_iff.mpr ⟨_, hgo, Machine.exec_cons_iff.mpr ⟨_, hread, hes⟩⟩
    · rw [hall, hlen, List.append_assoc, List.singleton_append, List.cons_getElem_drop_succ]

/-- After a replacement that drops what was read, the rest of the loop makes it a list that
is not the chain. -/
theorem replace_fatal (start : Chain ε) {s s' : State ε} {chain : Chain ε} (h : Inv s)
    (hno : ¬ ReadKept s (.replace chain)) (hs' : s.step (.replace chain) = some s') :
    ∃ es t, (iteration start).Obeys ReadKept s' es ∧ (iteration start).exec s' es = some t ∧
      ¬ Snapshot t := by
  obtain ⟨hrun, hlost⟩ := Classical.not_imp.mp hno
  obtain ⟨⟨_, hopen⟩, hs'⟩ := Option.ite_none_right_eq_some.mp hs'
  cases hs'
  have hsmall : s.read.length ≤ 2 ^ 31 :=
    (h.prefix_of_running hrun).length_le.trans s.chain.count_le
  -- Whatever the loop reads behind what was dropped, it does not get the chain.
  have hwrong : ∀ l : List ε, s.read <+: l → l ≠ chain.entries := fun l hl heq => hlost (heq ▸ hl)
  obtain ⟨old, pc, read⟩ := s
  cases pc with
  | ready =>
    obtain ⟨es, t, hobeys, hes, hend, hall⟩ :=
      finish start _ (s := ⟨chain, .ready, read⟩) rfl hopen hsmall rfl
    refine ⟨es, t, hobeys, hes, fun hsnap => hwrong t.read ?_ (hsnap _ hend)⟩
    rw [hall]
    exact List.prefix_append _ _
  | counted =>
    have hgo : State.step ⟨chain, .counted, read⟩ (.readEntry true) =
        some (State.readEntry ⟨chain, .counted, read⟩ true) := rfl
    unfold State.readEntry at hgo
    rw [getByHeight_castInt hsmall] at hgo
    cases hentry : chain.entries[read.length]? with
    | none =>
      rw [hentry] at hgo
      refine ⟨[.readEntry true], _, fun _ _ => ⟨trivial, trivial⟩,
        Machine.exec_cons_iff.mpr ⟨_, hgo, rfl⟩, ?_⟩
      exact fun hsnap => hwrong read (List.prefix_refl _) (hsnap _ rfl)
    | some entry =>
      rw [hentry] at hgo
      have hlt := (List.getElem?_eq_some_iff.mp hentry).1
      have hcount := chain.count_le
      have hlen : (read ++ [entry]).length ≤ 2 ^ 31 := by
        rw [List.length_append, List.length_singleton]
        omega
      obtain ⟨es, t, hobeys, hes, hend, hall⟩ :=
        finish start _ (s := ⟨chain, .ready, read ++ [entry]⟩) rfl hopen hlen rfl
      refine ⟨.readEntry true :: es, t, ?_, Machine.exec_cons_iff.mpr ⟨_, hgo, hes⟩, ?_⟩
      · intro s₁ hs₁
        refine ⟨trivial, ?_⟩
        cases hgo.symm.trans hs₁
        exact hobeys
      · refine fun hsnap => hwrong t.read ?_ (hsnap _ hend)
        rw [hall, List.append_assoc]
        exact List.prefix_append _ _
  | ended last => cases hrun
  | raised e => cases hrun

/-- A fork replaces a block that was read: the loop gets a list that no chain ever was. -/
example : ((iteration ⟨true, [0, 1, 2], by decide⟩).exec ⟨⟨true, [0, 1, 2], by decide⟩, .ready, []⟩
    [.readCount, .readEntry true, .readCount, .readEntry true,
      .replace ⟨true, [0, 3, 4], by decide⟩, .readCount, .readEntry true, .readCount]).map
    State.read = some [0, 1, 4] := rfl

end PyBitcoinKernel.Manager.Iterate
