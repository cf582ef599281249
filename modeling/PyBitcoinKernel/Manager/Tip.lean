import PyBitcoinKernel.Lib.Machine
import PyBitcoinKernel.Manager.Objects

/-!
# `Chain.tip()` while the chain moves

`Chain_tip` asks the kernel twice: for the height, and for the entry at that
height. It holds the GIL, but a thread in `process_block` does not need it, so the
active chain may be another one at the second question. The entry at the height
that was read is then no tip, or there is none.

One call is a machine here: its two reads and its return, with replacements of the
active chain anywhere in between, each by a chain with the same genesis. `tips`
records the tips the chain has had since the call began.

> `tip_linearizable_exact`: the call returns a tip the chain has had during it as
> long as every replacement between the two reads leaves such a tip at the height
> that was read; after any other replacement there, a wrong answer is within reach.
-/

namespace PyBitcoinKernel.Manager.Tip

open PyBitcoinKernel.Binding

variable {ε : Type}

/-! ## One call -/

/-- `btck_chain_get_height`, for a chain with its genesis first. -/
def chainGetHeight (chain : List ε) : Int := chain.length - 1

/-- `btck_chain_get_by_height`: `NULL` outside the chain. -/
def chainGetByHeight (chain : List ε) (height : Int) : Option ε :=
  if height < 0 then none else chain[height.toNat]?

/-- What `Chain_tip` makes of the entry it got. -/
def tipResult : Option ε → PyResult ε
  | none => raise .kernelError "failed to retrieve chain tip"
  | some entry => .ok entry

/-- Between the two reads nothing happens in a call that is not interrupted. -/
theorem chainTip_result {Obj : Type} (K : Kernel Obj) (s : World) (self : View)
    (hopen : (viewOwnerAlive s self.owner).result = .ok ()) :
    (chainTip K s self).result =
      (tipResult (K.chainGetByHeight self.ptr (K.chainGetHeight self.ptr))).map
        fun entry => .entry (entryWrap self.ptr entry self.owner) := by
  unfold chainTip
  generalize viewOwnerAlive s self.owner = alive at hopen ⊢
  obtain ⟨calls, result⟩ := alive
  change result = .ok () at hopen
  subst hopen
  cases hentry : K.chainGetByHeight self.ptr (K.chainGetHeight self.ptr) with
  | none =>
    simp only [bind, Act.call, hentry]
    rfl
  | some entry =>
    simp only [bind, Act.call, hentry]
    rfl

/-- Where the call is. -/
inductive Pc (ε : Type) where
  | entered
  | heightRead (height : Int)
  | entryRead (result : PyResult ε)
  | returned (result : PyResult ε)

/-- The active chain behind its genesis, the call, and the tips since it began. -/
structure State (ε : Type) where
  behind : List ε
  pc : Pc ε
  tips : List ε

inductive Event (ε : Type) where
  /-- The kernel makes another chain with the same genesis the active one. -/
  | replace (behind : List ε)
  | readHeight
  | readEntry
  | ret

/-- The last entry. -/
def tipOf (genesis : ε) (behind : List ε) : ε := behind.getLastD genesis

def State.step (genesis : ε) (s : State ε) : Event ε → Option (State ε)
  | .replace behind =>
    match s.pc with
    | .returned _ => some { s with behind := behind }
    | _ => some { s with behind := behind, tips := s.tips ++ [tipOf genesis behind] }
  | .readHeight =>
    match s.pc with
    | .entered => some { s with pc := .heightRead (chainGetHeight (genesis :: s.behind)) }
    | _ => none
  | .readEntry =>
    match s.pc with
    | .heightRead height =>
      some { s with pc := .entryRead (tipResult (chainGetByHeight (genesis :: s.behind) height)) }
    | _ => none
  | .ret =>
    match s.pc with
    | .entryRead result => some { s with pc := .returned result }
    | _ => none

/-- One call of `tip()`, on a chain that is `start` behind its genesis when it begins. -/
def tipCall (genesis : ε) (start : List ε) : Machine (State ε) (Event ε) where
  init := ⟨start, .entered, [tipOf genesis start]⟩
  step := State.step genesis

/-- The call does not raise, and what it returns was the tip while it ran. -/
def Linearized (s : State ε) : Prop :=
  ∀ result, s.pc = .returned result → ∃ e ∈ s.tips, result = .ok e

/-- A replacement between the two reads leaves, at the height that was read, an entry
that is the tip now or has been since the call began. -/
def TipKept (genesis : ε) (s : State ε) : Event ε → Prop
  | .replace behind => ∀ height, s.pc = .heightRead height →
    ∃ e ∈ s.tips ++ [tipOf genesis behind],
      chainGetByHeight (genesis :: behind) height = some e
  | _ => True

/-! ## The discipline keeps the answer right -/

theorem chainGetByHeight_tip (genesis : ε) (behind : List ε) :
    chainGetByHeight (genesis :: behind) (chainGetHeight (genesis :: behind)) =
      some (tipOf genesis behind) := by
  have hheight : chainGetHeight (genesis :: behind) = behind.length := by
    rw [chainGetHeight, List.length_cons]
    omega
  rw [hheight, chainGetByHeight, if_neg (by omega), Int.toNat_natCast, tipOf]
  rw [List.getLastD_eq_getLast?, ← List.getLast?_cons, List.getLast?_eq_getElem?]
  rfl

/-- Where the call is, what it relies on is a recorded tip: the current one before the
first read, then the entry at the height that was read, then what is returned. -/
def Inv (genesis : ε) (s : State ε) : Prop :=
  match s.pc with
  | .entered => tipOf genesis s.behind ∈ s.tips
  | .heightRead height => ∃ e ∈ s.tips, chainGetByHeight (genesis :: s.behind) height = some e
  | .entryRead result => ∃ e ∈ s.tips, result = .ok e
  | .returned result => ∃ e ∈ s.tips, result = .ok e

theorem inv_init (genesis : ε) (start : List ε) : Inv genesis (tipCall genesis start).init :=
  List.mem_singleton_self _

theorem linearized_of_inv {genesis : ε} {s : State ε} (h : Inv genesis s) : Linearized s := by
  intro result hret
  rw [Inv, hret] at h
  exact h

/-- **One step** that keeps the discipline keeps the invariant. -/
theorem inv_step {genesis : ε} {s s' : State ε} {e : Event ε} (h : Inv genesis s)
    (hC : TipKept genesis s e) (hs' : s.step genesis e = some s') : Inv genesis s' := by
  unfold Inv at h
  cases e with
  | replace behind =>
    cases hpc : s.pc with
    | entered =>
      rw [State.step, hpc] at hs'
      cases hs'
      exact List.mem_append_right _ (List.mem_singleton_self _)
    | heightRead height =>
      rw [State.step, hpc] at hs'
      cases hs'
      exact hC height hpc
    | entryRead result =>
      rw [State.step, hpc] at hs'
      cases hs'
      rw [hpc] at h
      obtain ⟨entry, hmem, hok⟩ := h
      exact ⟨entry, List.mem_append_left _ hmem, hok⟩
    | returned result =>
      rw [State.step, hpc] at hs'
      cases hs'
      rw [hpc] at h
      exact h
  | readHeight =>
    rw [State.step] at hs'
    split at hs'
    next hpc =>
      -- The entry at the height of the moment is the tip of the moment.
      cases hs'
      rw [hpc] at h
      exact ⟨_, h, chainGetByHeight_tip genesis s.behind⟩
    next => cases hs'
  | readEntry =>
    rw [State.step] at hs'
    split at hs'
    next height hpc =>
      cases hs'
      rw [hpc] at h
      obtain ⟨entry, hmem, hread⟩ := h
      exact ⟨entry, hmem, by rw [hread]; rfl⟩
    next => cases hs'
  | ret =>
    rw [State.step] at hs'
    split at hs'
    next result hpc =>
      cases hs'
      rw [hpc] at h
      exact h
    next => cases hs'

/-- An extension of the chain is no threat, wherever it falls. -/
theorem tipKept_of_extension {genesis : ε} {s : State ε} (h : Inv genesis s) (more : List ε) :
    TipKept genesis s (.replace (s.behind ++ more)) := by
  intro height hpc
  rw [Inv, hpc] at h
  obtain ⟨entry, hmem, hread⟩ := h
  refine ⟨entry, List.mem_append_left _ hmem, ?_⟩
  unfold chainGetByHeight at hread ⊢
  split at hread
  next => cases hread
  next hpos =>
    obtain ⟨hlt, -⟩ := List.getElem?_eq_some_iff.mp hread
    rw [if_neg hpos, ← List.cons_append, List.getElem?_append_left hlt]
    exact hread

/-! ## Nothing less keeps it right -/

/-- After a replacement that breaks the discipline the two steps that are left return
something that was no tip. -/
theorem replace_fatal {genesis : ε} (start : List ε) {s s' : State ε} {behind : List ε}
    (hno : ¬ TipKept genesis s (.replace behind))
    (hs' : s.step genesis (.replace behind) = some s') :
    ∃ t, (tipCall genesis start).exec s' [.readEntry, .ret] = some t ∧ ¬ Linearized t := by
  obtain ⟨height, hbad⟩ := Classical.not_forall.mp hno
  obtain ⟨hpc, hnone⟩ := Classical.not_imp.mp hbad
  rw [State.step, hpc] at hs'
  cases hs'
  refine ⟨_, rfl, ?_⟩
  intro hlin
  obtain ⟨entry, hmem, hok⟩ := hlin _ rfl
  refine hnone ⟨entry, hmem, ?_⟩
  cases hread : chainGetByHeight (genesis :: behind) height with
  | none =>
    rw [hread] at hok
    cases hok
  | some e =>
    rw [hread] at hok
    cases hok
    rfl

/-- **`tip()` is linearizable as long as replacements between its two reads leave a tip of
its own time at the height that was read.** After any other replacement there, the call can
go on to a wrong answer. -/
theorem tip_linearizable_exact (genesis : ε) (start : List ε) :
    (tipCall genesis start).Exact (TipKept genesis) Linearized := by
  refine Machine.exact_of_breach (inv_init genesis start) (fun _ h => linearized_of_inv h)
    (fun _ _ _ h hC hs' => inv_step h hC hs') ?_
  intro s e s' _ hno hs'
  cases e with
  | replace behind =>
    obtain ⟨t, ht, hbad⟩ := replace_fatal start hno hs'
    exact ⟨[.readEntry, .ret], t, fun _ _ => ⟨trivial, fun _ _ => ⟨trivial, trivial⟩⟩, ht, hbad⟩
  | readHeight => exact absurd trivial hno
  | readEntry => exact absurd trivial hno
  | ret => exact absurd trivial hno

/-- A fork of one block replaces two: the second read finds nothing. A fork of three
blocks replaces them: it finds the second block of the fork. -/
theorem tip_race :
    (∃ s, (tipCall 0 [1, 2]).exec (tipCall 0 [1, 2]).init
        [.readHeight, .replace [3], .readEntry, .ret] = some s ∧
      s.pc = .returned (raise .kernelError "failed to retrieve chain tip") ∧ ¬ Linearized s) ∧
    (∃ s, (tipCall 0 [1, 2]).exec (tipCall 0 [1, 2]).init
        [.readHeight, .replace [3, 4, 5], .readEntry, .ret] = some s ∧
      s.pc = .returned (.ok 4) ∧ s.tips = [2, 5] ∧ ¬ Linearized s) := by
  refine ⟨⟨_, rfl, rfl, ?_⟩, ⟨_, rfl, rfl, rfl, ?_⟩⟩
  · intro h
    obtain ⟨e, -, he⟩ := h _ rfl
    cases he
  · intro h
    obtain ⟨e, hmem, he⟩ := h _ rfl
    cases he
    exact absurd hmem (by decide)

end PyBitcoinKernel.Manager.Tip
