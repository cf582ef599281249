import PyBitcoinKernel.Primitives.Refinement

/-!
# How long kernel objects live

Nothing in the module keeps track of the kernel objects: each is owned by the wrapper made
for it, and the counts of Python objects decide when that one goes. Over any run this comes
to the following.

> `wrappers_own`: the kernel objects not yet destroyed are those of the wrappers that the
> program can reach, and each has one; none is destroyed twice, by the function of another
> type, or read after that, and the kernel has no reason to abort.

> `nothing_leaks`: what a program gives back is gone. Wherever it holds the same references
> as at some time before, every count and every kernel object is as it was then, whatever
> was called in between and whichever of these calls failed.
-/

namespace PyBitcoinKernel.Primitives

open RefGraph (Heap Counted Reach)

/-- The kernel object was created and is not yet destroyed. -/
def Kernel.Alive (k : Kernel) (kind : Kind) (ptr : Nat) : Prop :=
  (kind, ptr) ∈ k.created ∧ (kind, ptr) ∉ k.destroyed

/-- The program can reach a wrapper of this kernel object. -/
def World.Wraps (w : World) (i : Nat) (kind : Kind) (ptr : Nat) : Prop :=
  Reach Cell.refs w.state.heap.cell w.held i ∧ w.state.heap.cell i = .wrapper kind ptr

variable {w w' : World} {a : Values} {i j : Nat} {kind : Kind} {ptr : Nat}

theorem Sim.live_of_wraps (h : Sim w a) (hi : w.Wraps i kind ptr) :
    w.state.heap.Live i ∧ (kind, ptr) ∈ Cell.handles (w.state.heap.cell i) := by
  obtain ⟨hreach, hcell⟩ := hi
  refine ⟨h.owns.counted.live_iff.mpr hreach, ?_⟩
  rw [hcell]
  exact List.mem_singleton_self _

/-- Each kernel object is in one place. -/
theorem Sim.nodup (h : Sim w a) :
    (w.state.heap.total Cell.handles +
      (w.state.kernel.destroyed : Multiset (Kind × Nat))).Nodup := by
  have hledger := h.owns.ledger
  rw [zero_add] at hledger
  rw [hledger]
  exact nodup_created w.state.kernel

/-- What is not destroyed has a wrapper, and the other way round. -/
theorem Sim.wraps_iff (h : Sim w a) :
    (∃ i, w.Wraps i kind ptr) ↔ w.state.kernel.Alive kind ptr := by
  have hledger := h.owns.ledger
  rw [zero_add] at hledger
  unfold Kernel.Alive
  rw [← hledger, Multiset.mem_add, RefGraph.mem_total]
  constructor
  · intro hi
    obtain ⟨i, hi⟩ := hi
    obtain ⟨hlive, hmem⟩ := h.live_of_wraps hi
    have htotal : (kind, ptr) ∈ w.state.heap.total Cell.handles :=
      RefGraph.mem_total.mpr ⟨i, h.owns.counted.bound i hlive, hlive, hmem⟩
    refine ⟨Or.inl ⟨i, h.owns.counted.bound i hlive, hlive, hmem⟩, ?_⟩
    have hdisj := (Multiset.nodup_add.mp h.nodup).2.2
    exact fun hno => Multiset.disjoint_left.mp hdisj htotal (Multiset.mem_coe.mpr hno)
  · intro hp
    obtain ⟨hin, hout⟩ := hp
    rcases hin with ⟨i, _, hlive, hmem⟩ | hgone
    · refine ⟨i, h.owns.counted.live_iff.mp hlive, ?_⟩
      cases hcell : w.state.heap.cell i with
      | wrapper kind' ptr' =>
        rw [hcell] at hmem
        obtain ⟨rfl, rfl⟩ := Prod.mk.inj (List.mem_singleton.mp hmem)
        rfl
      | _ =>
        rw [hcell] at hmem
        cases hmem
    · exact absurd (Multiset.mem_coe.mp hgone) hout

theorem Sim.wraps_unique (h : Sim w a) (hi : w.Wraps i kind ptr) (hj : w.Wraps j kind ptr) :
    i = j := by
  obtain ⟨hilive, himem⟩ := h.live_of_wraps hi
  obtain ⟨hjlive, hjmem⟩ := h.live_of_wraps hj
  have hbound := h.owns.counted.bound
  exact RefGraph.eq_of_nodup_total (Multiset.nodup_add.mp h.nodup).1 (hbound i hilive) hilive
    himem (hbound j hjlive) hjlive hjmem

/-- A run keeps what was there. -/
theorem Sim.exec (h : Sim w a) {es : List Event} (hes : programs.exec w es = some w') :
    ∃ a', Sim w' a' ∧ Older w.state w'.state := by
  have hstep : ∀ u b e u', Sim u b ∧ Older w.state u.state → programs.step u e = some u' →
      ∃ b', True ∧ Sim u' b' ∧ Older w.state u'.state := by
    intro u b e u' hu hstep
    obtain ⟨b', _, hsim, holder⟩ := hu.1.step hstep
    exact ⟨b', trivial, hsim, hu.2.trans holder⟩
  have hself : Older w.state w.state := ⟨Nat.le_refl _, fun _ _ => rfl⟩
  obtain ⟨a', _, hsim⟩ := programs.exec_simulated (S := fun _ _ _ => True) hstep ⟨h, hself⟩ hes
  exact ⟨a', hsim⟩

theorem exists_sim (h : programs.Reachable w) : ∃ a, Sim w a := by
  refine h.invariant (I := fun w => ∃ a, Sim w a) ⟨Values.start, sim_start⟩ ?_
  intro w e w' hw hstep
  obtain ⟨a, ha⟩ := hw
  obtain ⟨a', _, hsim, _⟩ := ha.step hstep
  exact ⟨a', hsim⟩

/-- **Each kernel object has one owner**: those that are not destroyed are those of the
wrappers in reach, one wrapper each; nothing is destroyed twice or read after that, nothing
is asked of the kernel that it does not take, and no memory is left behind. -/
theorem wrappers_own (h : programs.Reachable w) :
    w.state.kernel.fault = false ∧ w.state.blocks = 0 ∧ w.state.kernel.destroyed.Nodup ∧
      (∀ p ∈ w.state.kernel.destroyed, p ∈ w.state.kernel.created) ∧
      (∀ kind ptr, (∃ i, w.Wraps i kind ptr) ↔ w.state.kernel.Alive kind ptr) ∧
      ∀ i j kind ptr, w.Wraps i kind ptr → w.Wraps j kind ptr → i = j := by
  obtain ⟨a, hsim⟩ := exists_sim h
  have hnodup := (Multiset.nodup_add.mp hsim.nodup).2.1
  refine ⟨hsim.owns.sound, hsim.owns.blocks, Multiset.coe_nodup.mp hnodup, ?_, ?_, ?_⟩
  · intro p hp
    rw [← hsim.owns.ledger]
    exact Multiset.mem_add.mpr (Or.inr (Multiset.mem_coe.mpr hp))
  · exact fun kind ptr => hsim.wraps_iff
  · exact fun i j kind ptr => hsim.wraps_unique

/-- A script, and an output made of it that outlives it. -/
theorem wrappers_own_output : ∃ w,
    programs.exec start [⟨.bytes [0x51], []⟩, ⟨.scriptPubkeyNew 1 (some [0x51]), []⟩,
      ⟨.transactionOutputNew 2 5 true, []⟩, ⟨.drop 2, []⟩] = some w ∧
    w.state.kernel.destroyed = [(.scriptPubkey, 0)] ∧
    ∀ kind ptr, (∃ i, w.Wraps i kind ptr) ↔ w.state.kernel.Alive kind ptr := by
  have hrun := wrappers_own ⟨[⟨.bytes [0x51], []⟩, ⟨.scriptPubkeyNew 1 (some [0x51]), []⟩,
    ⟨.transactionOutputNew 2 5 true, []⟩, ⟨.drop 2, []⟩], rfl⟩
  exact ⟨_, rfl, rfl, hrun.2.2.2.2.1⟩

/-- **Nothing leaks**: with the same references held as before, every count, every object
with a count and every kernel object is as before. -/
theorem nothing_leaks {es : List Event} (h : programs.Reachable w)
    (hes : programs.exec w es = some w') (hheld : w'.held = w.held) :
    w'.state.heap.count = w.state.heap.count ∧
      (∀ i, w.state.heap.Live i → w'.state.heap.cell i = w.state.heap.cell i) ∧
      ∀ kind ptr, w'.state.kernel.Alive kind ptr ↔ w.state.kernel.Alive kind ptr := by
  obtain ⟨a, hsim⟩ := exists_sim h
  obtain ⟨a', hsim', holder⟩ := hsim.exec hes
  have hbound := hsim.owns.counted.bound
  have hcounted : Counted Cell.refs w'.state.heap w.held := hheld ▸ hsim'.owns.counted
  have hsame : ∀ i, Reach Cell.refs w.state.heap.cell w.held i →
      w'.state.heap.cell i = w.state.heap.cell i := fun i hi =>
    holder.cell i (hbound i (hsim.owns.counted.live_iff.mpr hi))
  refine ⟨hsim.owns.counted.count_eq hcounted holder.next holder.cell,
    fun i hi => holder.cell i (hbound i hi), ?_⟩
  intro kind ptr
  rw [← hsim'.wraps_iff, ← hsim.wraps_iff]
  refine exists_congr fun i => ?_
  unfold World.Wraps
  rw [hheld, RefGraph.reach_congr hsame]
  exact and_congr_right fun hi => by rw [hsame i hi]

/-- A constructor that fails, and a callback whose arguments nobody keeps. -/
theorem nothing_leaks_failing : ∃ w,
    programs.exec start [⟨.bytes [0x51], []⟩, ⟨.scriptPubkeyNew 1 (some [0x51]), []⟩,
      ⟨.transactionOutputNew 2 5 true, [false]⟩,
      ⟨.blockChecked ⟨⟨[], [], 0, 0, 0, 0⟩, []⟩ ⟨0, 0⟩ (false, false), []⟩, ⟨.drop 1, []⟩,
      ⟨.drop 2, []⟩] = some w ∧
    w.state.kernel.destroyed =
      [(.scriptPubkey, 0), (.blockValidationState, 3), (.block, 2), (.transactionOutput, 1)] ∧
    ∀ kind ptr, w.state.kernel.Alive kind ptr ↔ start.state.kernel.Alive kind ptr := by
  have hrun : programs.exec start [⟨.bytes [0x51], []⟩, ⟨.scriptPubkeyNew 1 (some [0x51]), []⟩,
      ⟨.transactionOutputNew 2 5 true, [false]⟩,
      ⟨.blockChecked ⟨⟨[], [], 0, 0, 0, 0⟩, []⟩ ⟨0, 0⟩ (false, false), []⟩, ⟨.drop 1, []⟩,
      ⟨.drop 2, []⟩] = some _ := rfl
  exact ⟨_, hrun, rfl, (nothing_leaks ⟨[], rfl⟩ hrun rfl).2.2⟩

end PyBitcoinKernel.Primitives
