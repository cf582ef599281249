import Mathlib.Algebra.BigOperators.Group.Finset.Basic
import Mathlib.Algebra.Order.BigOperators.Group.Multiset
import Mathlib.Data.Finset.Max
import Mathlib.Logic.Function.Basic

/-!
# Reference counts on a graph

A heap of reference-counted cells that may refer to any number of others. What a cell
refers to is read off its content, `refs`. `decref` gives a reference back; a cell whose
count reaches zero is freed, and the references in its content are given back in turn,
before what was still to do.

`Counted refs h held` says that each count is the number of references there are: those
in the multiset `held`, from outside, and those in live cells; and that no chain of
references comes back to where it started. Then

> `Counted.live_iff`: a cell is live if and only if it can be reached from `held`.

`total` adds up what live cells carry. It is stated for any `carry`, so that the owner of
the heap can account for other things in its cells by the same lemmas.
-/

namespace RefGraph

/-- Cells `0, .., next - 1` have been made; a cell is live while its count is not zero. -/
structure Heap (C : Type) where
  next : Nat
  cell : Nat → C
  count : Nat → Nat

variable {C α σ : Type}

namespace Heap

def Live (h : Heap C) (i : Nat) : Prop := 0 < h.count i

instance (h : Heap C) (i : Nat) : Decidable (h.Live i) := inferInstanceAs (Decidable (0 < _))

/-- Make a cell; one reference to it is handed out. -/
def alloc (h : Heap C) (c : C) : Heap C where
  next := h.next + 1
  cell := Function.update h.cell h.next c
  count := Function.update h.count h.next 1

def incref (h : Heap C) (i : Nat) : Heap C :=
  { h with count := Function.update h.count i (h.count i + 1) }

/-- Write the content of a cell. -/
def set (h : Heap C) (i : Nat) (c : C) : Heap C :=
  { h with cell := Function.update h.cell i c }

/-- Give a reference back, without following those of the cell. -/
def lower (h : Heap C) (i : Nat) : Heap C :=
  { h with count := Function.update h.count i (h.count i - 1) }

/-- Give back the references of a list, and those of each cell that this frees; `fuel`
bounds how many there are. The contents of the freed cells come along, in the order in
which they were freed. -/
def decrefsFuel (refs : C → List Nat) : Nat → Heap C → List Nat → Heap C × List C
  | 0, h, _ => (h, [])
  | _ + 1, h, [] => (h, [])
  | fuel + 1, h, i :: todo =>
    if h.count i = 1 then
      let r := decrefsFuel refs fuel (h.lower i) (refs (h.cell i) ++ todo)
      (r.1, h.cell i :: r.2)
    else decrefsFuel refs fuel (h.lower i) todo

/-- How many references live cells hold. -/
def size (refs : C → List Nat) (h : Heap C) : Nat :=
  ∑ j ∈ Finset.range h.next, if h.Live j then (refs (h.cell j)).length else 0

/-- Give a reference back: the heap, and the contents of the cells freed. -/
def decref (refs : C → List Nat) (h : Heap C) (i : Nat) : Heap C × List C :=
  decrefsFuel refs (h.size refs + 1) h [i]

/-- What live cells carry, all together. -/
def total (carry : C → List α) (h : Heap C) : Multiset α :=
  ∑ j ∈ Finset.range h.next, if h.Live j then (carry (h.cell j) : Multiset α) else 0

end Heap

/-- `i` can be reached from the references in `held`, following those in the cells. -/
inductive Reach (refs : C → List Nat) (cell : Nat → C) (held : Multiset Nat) : Nat → Prop
  | held {i : Nat} : i ∈ held → Reach refs cell held i
  | step {j i : Nat} : Reach refs cell held j → i ∈ refs (cell j) → Reach refs cell held i

/-- Every count is the number of references there are, and they do not form a cycle. -/
structure Counted (refs : C → List Nat) (h : Heap C) (held : Multiset Nat) : Prop where
  bound : ∀ i, h.Live i → i < h.next
  count : ∀ i, h.count i = (held + h.total refs).count i
  acyclic : ∃ rank : Nat → Nat, ∀ j, h.Live j → ∀ i ∈ refs (h.cell j), rank i < rank j

variable {refs : C → List Nat} {carry : C → List α} {h : Heap C} {held : Multiset Nat}
  {i j : Nat} {c : C}

/-! ## What the operations do -/

@[simp] theorem count_alloc (h : Heap C) (c : C) (j : Nat) :
    (h.alloc c).count j = if j = h.next then 1 else h.count j :=
  Function.update_apply _ _ _ _

@[simp] theorem cell_alloc (h : Heap C) (c : C) (j : Nat) :
    (h.alloc c).cell j = if j = h.next then c else h.cell j :=
  Function.update_apply _ _ _ _

@[simp] theorem count_incref (h : Heap C) (i j : Nat) :
    (h.incref i).count j = if j = i then h.count i + 1 else h.count j :=
  Function.update_apply _ _ _ _

@[simp] theorem count_lower (h : Heap C) (i j : Nat) :
    (h.lower i).count j = if j = i then h.count i - 1 else h.count j :=
  Function.update_apply _ _ _ _

@[simp] theorem cell_set (h : Heap C) (i j : Nat) (c : C) :
    (h.set i c).cell j = if j = i then c else h.cell j :=
  Function.update_apply _ _ _ _

theorem live_alloc (j : Nat) : (h.alloc c).Live j ↔ j = h.next ∨ h.Live j := by
  unfold Heap.Live
  rw [count_alloc]
  split
  next hj => simp [hj]
  next hj => simp [hj]

theorem live_incref (hi : h.Live i) (j : Nat) : (h.incref i).Live j ↔ h.Live j := by
  unfold Heap.Live at hi ⊢
  rw [count_incref]
  split
  next hj => simp [hj, hi]
  next => exact Iff.rfl

/-- The last reference frees the cell, any other one does not. -/
theorem live_lower (h : Heap C) (i j : Nat) :
    (h.lower i).Live j ↔ h.Live j ∧ ¬ (j = i ∧ h.count i = 1) := by
  unfold Heap.Live
  rw [count_lower]
  split
  next hj => subst hj; omega
  next hj => simp [hj]

theorem live_lower_of_ne (hmany : h.count i ≠ 1) (j : Nat) : (h.lower i).Live j ↔ h.Live j := by
  simp [live_lower, hmany]

theorem live_free (hlast : h.count i = 1) (j : Nat) :
    (h.lower i).Live j ↔ h.Live j ∧ j ≠ i := by
  simp [live_lower, hlast]

theorem live_of_last (hlast : h.count i = 1) : h.Live i := by
  simp [Heap.Live, hlast]

/-! ## Totals -/

theorem mem_total {a : α} :
    a ∈ h.total carry ↔ ∃ j < h.next, h.Live j ∧ a ∈ carry (h.cell j) := by
  rw [Heap.total, Multiset.mem_sum]
  refine exists_congr fun j => ?_
  rw [Finset.mem_range]
  refine and_congr_right fun _ => ?_
  split
  next hj => simp [hj]
  next hj => simp [hj]

/-- Totals are the same where the same cells are live, with the same contents. -/
theorem total_congr {h' : Heap C} (hnext : h.next ≤ h'.next)
    (hbound : ∀ j < h'.next, h.Live j → j < h.next)
    (hsame : ∀ j, (h'.Live j ↔ h.Live j) ∧ (h.Live j → h'.cell j = h.cell j)) :
    h'.total carry = h.total carry := by
  unfold Heap.total
  have hsub : Finset.range h.next ⊆ Finset.range h'.next := Finset.range_mono hnext
  have hnew : ∀ j ∈ Finset.range h'.next, j ∉ Finset.range h.next →
      (if h.Live j then (carry (h.cell j) : Multiset α) else 0) = 0 := by
    intro j hj hno
    refine if_neg fun hlive => hno (Finset.mem_range.mpr ?_)
    exact hbound j (Finset.mem_range.mp hj) hlive
  rw [Finset.sum_subset hsub hnew]
  refine Finset.sum_congr rfl ?_
  intro j _
  by_cases hj : h.Live j
  · rw [if_pos hj, if_pos ((hsame j).1.mpr hj), (hsame j).2 hj]
  · rw [if_neg hj, if_neg fun hno => hj ((hsame j).1.mp hno)]

/-- The part of a total that is not in the cell `i`. -/
theorem total_split (hi : i < h.next) : h.total carry =
    (if h.Live i then (carry (h.cell i) : Multiset α) else 0) +
      ∑ j ∈ (Finset.range h.next).erase i,
        if h.Live j then (carry (h.cell j) : Multiset α) else 0 :=
  (Finset.add_sum_erase _ _ (Finset.mem_range.mpr hi)).symm

theorem total_alloc (carry : C → List α) (h : Heap C) (c : C) :
    (h.alloc c).total carry = carry c + h.total carry := by
  unfold Heap.total
  show ∑ j ∈ Finset.range (h.next + 1), _ = _
  rw [Finset.sum_range_succ, add_comm]
  congr 1
  · simp [live_alloc]
  · refine Finset.sum_congr rfl ?_
    intro j hj
    have hne : j ≠ h.next := (Finset.mem_range.mp hj).ne
    simp [live_alloc, hne]

theorem total_incref (carry : C → List α) (hi : h.Live i) :
    (h.incref i).total carry = h.total carry :=
  total_congr (Nat.le_refl _) (fun _ hj _ => hj) fun j => ⟨live_incref hi j, fun _ => rfl⟩

theorem total_lower (carry : C → List α) (hmany : h.count i ≠ 1) :
    (h.lower i).total carry = h.total carry :=
  total_congr (Nat.le_refl _) (fun _ hj _ => hj)
    fun j => ⟨live_lower_of_ne hmany j, fun _ => rfl⟩

/-- A freed cell no longer carries anything. -/
theorem total_free (carry : C → List α) (hi : i < h.next) (hlast : h.count i = 1) :
    h.total carry = carry (h.cell i) + (h.lower i).total carry := by
  have hi' : i < (h.lower i).next := hi
  rw [total_split hi, total_split hi', if_pos (live_of_last hlast),
    if_neg (by simp [live_free hlast]), zero_add]
  congr 1
  refine Finset.sum_congr rfl ?_
  intro j hj
  have hne : j ≠ i := (Finset.mem_erase.mp hj).1
  show _ = if (h.lower i).Live j then (carry (h.cell j) : Multiset α) else 0
  simp [live_free hlast, hne]

/-- Writing a live cell replaces what it carries. -/
theorem total_set (carry : C → List α) (c : C) (hi : i < h.next) (hlive : h.Live i) :
    (h.set i c).total carry + carry (h.cell i) = carry c + h.total carry := by
  have hi' : i < (h.set i c).next := hi
  have hlive' : ∀ j, (h.set i c).Live j ↔ h.Live j := fun _ => Iff.rfl
  rw [total_split hi, total_split hi', if_pos hlive, if_pos ((hlive' i).mpr hlive)]
  have hrest : ∑ j ∈ (Finset.range (h.set i c).next).erase i,
      (if (h.set i c).Live j then (carry ((h.set i c).cell j) : Multiset α) else 0) =
        ∑ j ∈ (Finset.range h.next).erase i,
          if h.Live j then (carry (h.cell j) : Multiset α) else 0 := by
    refine Finset.sum_congr rfl ?_
    intro j hj
    have hne : j ≠ i := (Finset.mem_erase.mp hj).1
    simp [hlive', hne]
  rw [hrest, cell_set, if_pos rfl, add_assoc, add_comm (Finset.sum _ _)]

/-- What occurs once in a total is carried by one cell. -/
theorem eq_of_nodup_total {a : α} (hnodup : (h.total carry).Nodup) (hi : i < h.next)
    (hilive : h.Live i) (hai : a ∈ carry (h.cell i)) (hj : j < h.next) (hjlive : h.Live j)
    (haj : a ∈ carry (h.cell j)) : i = j := by
  by_contra hne
  rw [total_split hi, if_pos hilive] at hnodup
  have hdisj := (Multiset.nodup_add.mp hnodup).2.2
  refine Multiset.disjoint_left.mp hdisj (Multiset.mem_coe.mpr hai) ?_
  refine Multiset.mem_sum.mpr ⟨j, ?_, ?_⟩
  · exact Finset.mem_erase.mpr ⟨fun h => hne h.symm, Finset.mem_range.mpr hj⟩
  · rw [if_pos hjlive]
    exact Multiset.mem_coe.mpr haj

theorem size_eq (h : Heap C) : h.size refs = (h.total refs).card := by
  unfold Heap.size Heap.total
  rw [← Multiset.cardHom_apply, map_sum]
  refine Finset.sum_congr rfl ?_
  intro j _
  split <;> simp

/-! ## What can be reached -/

/-- A reference in a cell leads wherever its target leads. -/
theorem Reach.through {cell : Nat → C} (hj : Reach refs cell {i} j) {k : Nat}
    (hi : i ∈ refs (cell k)) : Reach refs cell {k} j := by
  induction hj with
  | held hmem =>
    rw [Multiset.mem_singleton.mp hmem]
    exact Reach.step (Reach.held (Multiset.mem_singleton_self k)) hi
  | step _ hmem ih => exact Reach.step ih hmem

/-- A set of cells that the references do not leave holds all that can be reached from
inside. -/
theorem Reach.mem_of_closed {cell : Nat → C} {p : Nat → Prop} (hheld : ∀ i ∈ held, p i)
    (hclosed : ∀ j, p j → ∀ i ∈ refs (cell j), p i) (hi : Reach refs cell held i) : p i := by
  induction hi with
  | held hmem => exact hheld _ hmem
  | step _ hmem ih => exact hclosed _ ih _ hmem

/-- Reaching depends on the cells reached. -/
theorem reach_congr {cell cell' : Nat → C}
    (hsame : ∀ j, Reach refs cell held j → cell' j = cell j) :
    Reach refs cell' held i ↔ Reach refs cell held i := by
  constructor
  · intro hi
    induction hi with
    | held hmem => exact Reach.held hmem
    | step _ hmem ih =>
      rw [hsame _ ih] at hmem
      exact Reach.step ih hmem
  · intro hi
    induction hi with
    | held hmem => exact Reach.held hmem
    | step hj hmem ih =>
      rw [← hsame _ hj] at hmem
      exact Reach.step ih hmem

/-! ## What is live -/

theorem Counted.live_iff_mem (hc : Counted refs h held) :
    h.Live i ↔ i ∈ held + h.total refs := by
  unfold Heap.Live
  rw [hc.count, Multiset.count_pos]

/-- What is held is live. -/
theorem Counted.live_of_held (hc : Counted refs h held) (hi : i ∈ held) : h.Live i :=
  hc.live_iff_mem.mpr (Multiset.mem_add.mpr (Or.inl hi))

/-- What a live cell refers to is live. -/
theorem Counted.live_ref (hc : Counted refs h held) (hj : h.Live j) (hi : i ∈ refs (h.cell j)) :
    h.Live i := by
  have hmem : i ∈ h.total refs := mem_total.mpr ⟨j, hc.bound j hj, hj, hi⟩
  exact hc.live_iff_mem.mpr (Multiset.mem_add.mpr (Or.inr hmem))

/-- A cell that is not yet made is not live. -/
theorem Counted.not_live_next (hc : Counted refs h held) : ¬ h.Live h.next :=
  fun hlive => Nat.lt_irrefl _ (hc.bound _ hlive)

/-- Ranks of live cells have a bound. -/
theorem Counted.rank_bound (hc : Counted refs h held) (rank : Nat → Nat) :
    ∃ M, ∀ i, h.Live i → rank i < M := by
  refine ⟨(Finset.range h.next).sup rank + 1, ?_⟩
  intro i hi
  exact Nat.lt_succ_of_le (Finset.le_sup (Finset.mem_range.mpr (hc.bound i hi)))

/-- **Counting references finds out what is in use**: no cycle keeps a cell alive. -/
theorem Counted.live_iff (hc : Counted refs h held) : h.Live i ↔ Reach refs h.cell held i := by
  constructor
  · obtain ⟨rank, hrank⟩ := hc.acyclic
    obtain ⟨M, hM⟩ := hc.rank_bound rank
    -- The one that refers to a live cell has a larger rank.
    induction hn : M - rank i using Nat.strong_induction_on generalizing i with
    | _ n ih =>
      intro hlive
      rcases Multiset.mem_add.mp (hc.live_iff_mem.mp hlive) with hheld | htotal
      · exact Reach.held hheld
      · obtain ⟨j, _, hj, hmem⟩ := mem_total.mp htotal
        have hlt := hrank j hj i hmem
        have hjM := hM j hj
        exact Reach.step (ih (M - rank j) (by omega) rfl hj) hmem
  · intro hreach
    induction hreach with
    | held hmem => exact hc.live_of_held hmem
    | step _ hmem ih => exact hc.live_ref ih hmem

/-! ## Taking references -/

/-- **Counts are determined by what is held**: of two heaps of which the second has the cells
of the first, the counts are the same if the same references are held. -/
theorem Counted.count_eq {h' : Heap C} (hc : Counted refs h held) (hc' : Counted refs h' held)
    (hnext : h.next ≤ h'.next) (hcell : ∀ i < h.next, h'.cell i = h.cell i) :
    h'.count = h.count := by
  have hsame : ∀ j, Reach refs h.cell held j → h'.cell j = h.cell j := fun j hj =>
    hcell j (hc.bound j (hc.live_iff.mpr hj))
  have hlive : ∀ j, h'.Live j ↔ h.Live j := fun j => by
    rw [hc'.live_iff, hc.live_iff, reach_congr hsame]
  have htotal : h'.total refs = h.total refs :=
    total_congr hnext (fun j _ hj => hc.bound j hj)
      fun j => ⟨hlive j, fun hj => hcell j (hc.bound j hj)⟩
  funext i
  rw [hc'.count, hc.count, htotal]

theorem Counted.incref (hc : Counted refs h held) (hi : h.Live i) :
    Counted refs (h.incref i) (i ::ₘ held) := by
  refine ⟨fun j hj => hc.bound j ((live_incref hi j).mp hj), ?_, ?_⟩
  · intro j
    have hcount := hc.count j
    rw [count_incref, total_incref refs hi, Multiset.cons_add, Multiset.count_cons]
    split
    next hj => subst hj; omega
    next => exact hcount
  · obtain ⟨rank, hrank⟩ := hc.acyclic
    exact ⟨rank, fun j hj => hrank j ((live_incref hi j).mp hj)⟩

/-- A new cell takes over the references in its content. -/
theorem Counted.alloc (hc : Counted refs h (refs c + held)) :
    Counted refs (h.alloc c) (h.next ::ₘ held) := by
  have hnext := hc.not_live_next
  have hlive : ∀ i ∈ refs c, h.Live i := fun i hi =>
    hc.live_of_held (Multiset.mem_add.mpr (Or.inl hi))
  refine ⟨?_, ?_, ?_⟩
  · intro j hj
    show j < h.next + 1
    rcases (live_alloc j).mp hj with rfl | hj
    · exact Nat.lt_succ_self _
    · exact Nat.lt_succ_of_lt (hc.bound j hj)
  · intro j
    have hcount := hc.count j
    rw [count_alloc, total_alloc, Multiset.cons_add, Multiset.count_cons, ← add_assoc,
      add_comm held, ← hcount]
    split
    next hj =>
      subst hj
      have hzero : h.count h.next = 0 := Nat.eq_zero_of_not_pos hnext
      rw [hzero]
    next => rfl
  · obtain ⟨rank, hrank⟩ := hc.acyclic
    obtain ⟨M, hM⟩ := hc.rank_bound rank
    -- The new cell comes above all others, and none refers to it.
    refine ⟨Function.update rank h.next M, ?_⟩
    have hold : ∀ i, h.Live i → Function.update rank h.next M i = rank i := by
      intro i hi
      refine Function.update_of_ne ?_ _ _
      intro hin
      exact hnext (hin ▸ hi)
    intro j hj i hi
    rw [cell_alloc] at hi
    split at hi
    next hjn =>
      subst hjn
      rw [Function.update_self, hold i (hlive i hi)]
      exact hM i (hlive i hi)
    next hjn =>
      have hj := ((live_alloc j).mp hj).resolve_left hjn
      rw [hold j hj, hold i (hc.live_ref hj hi)]
      exact hrank j hj i hi

/-- A cell takes a reference over, to what does not lead back to it. -/
theorem Counted.link (hc : Counted refs h (i ::ₘ held)) (hj : h.Live j)
    (hperm : (refs c).Perm (i :: refs (h.cell j))) (hno : ¬ Reach refs h.cell {i} j) :
    Counted refs (h.set j c) held := by
  have hi : h.Live i := hc.live_of_held (Multiset.mem_cons_self i held)
  have htotal : (h.set j c).total refs = i ::ₘ h.total refs := by
    have hset := total_set refs c (hc.bound j hj) hj
    have hcoe : (refs c : Multiset Nat) = i ::ₘ (refs (h.cell j) : Multiset Nat) :=
      Multiset.coe_eq_coe.mpr hperm
    rw [hcoe, Multiset.cons_add, add_comm (refs (h.cell j) : Multiset Nat),
      ← Multiset.cons_add] at hset
    exact add_right_cancel hset
  refine ⟨hc.bound, ?_, ?_⟩
  · intro k
    show h.count k = _
    rw [hc.count k, htotal, Multiset.add_cons, Multiset.cons_add]
  · obtain ⟨rank, hrank⟩ := hc.acyclic
    obtain ⟨M, hM⟩ := hc.rank_bound rank
    -- What leads to `j` is raised above everything else.
    classical
    let raised : Nat → Nat := fun k => if Reach refs h.cell {k} j then rank k + M else rank k
    have hup : ∀ k, Reach refs h.cell {k} j → raised k = rank k + M := fun k hk => if_pos hk
    have hdown : ∀ k, ¬ Reach refs h.cell {k} j → raised k = rank k := fun k hk => if_neg hk
    have hself : Reach refs h.cell {j} j := Reach.held (Multiset.mem_singleton_self j)
    -- A reference in the old content.
    have hold : ∀ k, h.Live k → ∀ l ∈ refs (h.cell k), raised l < raised k := by
      intro k hk l hl
      have hlt := hrank k hk l hl
      by_cases hkj : Reach refs h.cell {k} j
      · rw [hup k hkj]
        by_cases hlj : Reach refs h.cell {l} j
        · rw [hup l hlj]
          omega
        · rw [hdown l hlj]
          omega
      · have hlj : ¬ Reach refs h.cell {l} j := fun hlj => hkj (hlj.through hl)
        rw [hdown k hkj, hdown l hlj]
        exact hlt
    refine ⟨raised, ?_⟩
    intro k hk l hl
    rw [cell_set] at hl
    split at hl
    next hkj =>
      subst hkj
      rcases List.mem_cons.mp (hperm.mem_iff.mp hl) with rfl | hl
      · rw [hup k hself, hdown l hno]
        have hlM := hM l hi
        omega
      · exact hold k hk l hl
    next hkj => exact hold k hk l hl

/-! ## Giving references back -/

/-- A reference that is not the last one. -/
theorem Counted.lower (hc : Counted refs h (i ::ₘ held)) (hmany : h.count i ≠ 1) :
    Counted refs (h.lower i) held := by
  have hlive := live_lower_of_ne hmany
  refine ⟨fun j hj => hc.bound j ((hlive j).mp hj), ?_, ?_⟩
  · intro j
    have hcount := hc.count j
    rw [Multiset.cons_add, Multiset.count_cons] at hcount
    rw [count_lower, total_lower refs hmany]
    split
    next hj => subst hj; rw [if_pos rfl] at hcount; omega
    next hj => rw [if_neg hj] at hcount; exact hcount
  · obtain ⟨rank, hrank⟩ := hc.acyclic
    exact ⟨rank, fun j hj => hrank j ((hlive j).mp hj)⟩

/-- The last reference: the cell goes, and hands over the references in its content. -/
theorem Counted.free (hc : Counted refs h (i ::ₘ held)) (hlast : h.count i = 1) :
    Counted refs (h.lower i) (refs (h.cell i) + held) := by
  have hi : i < h.next := hc.bound i (live_of_last hlast)
  have hlive := live_free hlast
  refine ⟨fun j hj => hc.bound j ((hlive j).mp hj).1, ?_, ?_⟩
  · intro j
    have hcount := hc.count j
    rw [Multiset.cons_add, Multiset.count_cons, total_free refs hi hlast,
      ← add_assoc, add_comm held] at hcount
    rw [count_lower]
    split
    next hj => subst hj; rw [if_pos rfl] at hcount; omega
    next hj => rw [if_neg hj] at hcount; exact hcount
  · obtain ⟨rank, hrank⟩ := hc.acyclic
    exact ⟨rank, fun j hj => hrank j ((hlive j).mp hj).1⟩

section Rule

variable {f : σ → C → σ} {P : Heap C → σ → Prop}
  (hlower : ∀ h held i x, Counted refs h (i ::ₘ held) → h.count i ≠ 1 → P h x → P (h.lower i) x)
  (hfree : ∀ h held i x, Counted refs h (i ::ₘ held) → h.count i = 1 → P h x →
    P (h.lower i) (f x (h.cell i)))
include hlower hfree

theorem Counted.decrefsFuel_rule {todo : List Nat} (hc : Counted refs h (todo + held)) {x : σ}
    (hx : P h x) {fuel : Nat} (hfuel : todo.length + (h.total refs).card ≤ fuel) :
    Counted refs (Heap.decrefsFuel refs fuel h todo).1 held ∧
      P (Heap.decrefsFuel refs fuel h todo).1
        ((Heap.decrefsFuel refs fuel h todo).2.foldl f x) := by
  induction fuel generalizing h todo x with
  | zero =>
    have hnil : todo = [] := List.eq_nil_of_length_eq_zero (by omega)
    subst hnil
    rw [Heap.decrefsFuel]
    exact ⟨by simpa using hc, hx⟩
  | succ fuel ih =>
    cases todo with
    | nil =>
      rw [Heap.decrefsFuel]
      exact ⟨by simpa using hc, hx⟩
    | cons i todo =>
      have hc' : Counted refs h (i ::ₘ (todo + held)) := by
        rw [← Multiset.cons_add, Multiset.cons_coe]
        exact hc
      rw [List.length_cons] at hfuel
      rw [Heap.decrefsFuel]
      split
      next hlast =>
        have hi : i < h.next := hc'.bound i (live_of_last hlast)
        have hcfree := hc'.free hlast
        rw [← add_assoc, Multiset.coe_add] at hcfree
        refine ih hcfree (hfree h _ i x hc' hlast hx) ?_
        rw [total_free refs hi hlast, Multiset.card_add, Multiset.coe_card] at hfuel
        rw [List.length_append]
        omega
      next hmany =>
        refine ih (hc'.lower hmany) (hlower h _ i x hc' hmany hx) ?_
        rw [total_lower refs hmany]
        omega

/-- **The rule for `decref`**: `f` says what is done to `x` when a cell with this content is
freed. What giving back one reference preserves, whether or not it frees the cell, `decref`
preserves, and the counts stay right. -/
theorem Counted.decref_rule (hc : Counted refs h (i ::ₘ held)) {x : σ} (hx : P h x) :
    Counted refs (h.decref refs i).1 held ∧
      P (h.decref refs i).1 ((h.decref refs i).2.foldl f x) := by
  have hc' : Counted refs h ([i] + held) := hc
  refine hc'.decrefsFuel_rule hlower hfree hx ?_
  rw [size_eq, List.length_singleton, Nat.add_comm]

end Rule

theorem next_decrefsFuel (fuel : Nat) (h : Heap C) (todo : List Nat) :
    (Heap.decrefsFuel refs fuel h todo).1.next = h.next := by
  induction fuel generalizing h todo with
  | zero => rfl
  | succ fuel ih =>
    cases todo with
    | nil => rfl
    | cons i todo =>
      rw [Heap.decrefsFuel]
      split
      · exact ih (h.lower i) _
      · exact ih (h.lower i) _

theorem cell_decrefsFuel (fuel : Nat) (h : Heap C) (todo : List Nat) :
    (Heap.decrefsFuel refs fuel h todo).1.cell = h.cell := by
  induction fuel generalizing h todo with
  | zero => rfl
  | succ fuel ih =>
    cases todo with
    | nil => rfl
    | cons i todo =>
      rw [Heap.decrefsFuel]
      split
      · exact ih (h.lower i) _
      · exact ih (h.lower i) _

@[simp] theorem next_decref (h : Heap C) (i : Nat) : (h.decref refs i).1.next = h.next :=
  next_decrefsFuel _ _ _

/-- Giving references back writes no cell. -/
@[simp] theorem cell_decref (h : Heap C) (i : Nat) : (h.decref refs i).1.cell = h.cell :=
  cell_decrefsFuel _ _ _

end RefGraph
