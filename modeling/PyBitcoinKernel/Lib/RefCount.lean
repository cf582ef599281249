import Mathlib.Data.Finset.Card
import Mathlib.Data.Finset.Range
import Mathlib.Logic.Function.Basic

/-!
# Reference counts

A heap of reference-counted cells, each with at most one reference to another cell,
its *parent*, which it takes when it is made and gives back when it is freed. Cells
are numbered in the order they are made, so a parent is older than what refers to it.
`decref` gives a reference back; at zero the cell is freed, and its own reference is
given back in turn. It returns the cells it freed, in that order, so that the owner of
the heap can do what a freed cell asks for.

`Counted h held` says that each count is the number of references there are: `held`
from outside, and those of live cells. A freed cell hands its reference over to the one
who frees it, so a chain of frees is an induction in which `held` changes:

> `Counted.decref_rule`: what giving back one reference preserves, whether or not it
> frees the cell, `decref` preserves, together with what is done for each freed cell.

`Counted.decref` is the rule at `Counted` itself.
-/

namespace RefCount

/-- Cells `0, .., next - 1` have been made; a cell is live while its count is not
zero. -/
structure Heap where
  next : Nat
  parent : Nat → Option Nat
  count : Nat → Nat

namespace Heap

def empty : Heap := ⟨0, fun _ => none, fun _ => 0⟩

def Live (h : Heap) (i : Nat) : Prop := 0 < h.count i

instance (h : Heap) (i : Nat) : Decidable (h.Live i) := inferInstanceAs (Decidable (0 < _))

/-- Take one more reference. -/
def incref (h : Heap) (i : Nat) : Heap :=
  { h with count := Function.update h.count i (h.count i + 1) }

/-- Take one more reference, if there is a cell to refer to. -/
def xincref (h : Heap) : Option Nat → Heap
  | none => h
  | some i => h.incref i

/-- Make a cell: one reference to it is handed out, and it takes one to its parent. -/
def alloc (h : Heap) (p : Option Nat) : Heap :=
  { next := h.next + 1
    parent := Function.update h.parent h.next p
    count := Function.update (h.xincref p).count h.next 1 }

/-- Give a reference back, without following the parent. -/
def lower (h : Heap) (i : Nat) : Heap :=
  { h with count := Function.update h.count i (h.count i - 1) }

/-- Give a reference back, and follow the parents for as long as cells are freed; `fuel`
bounds how far. -/
def decrefFuel : Nat → Heap → Nat → Heap × List Nat
  | 0, h, _ => (h, [])
  | fuel + 1, h, i =>
    if h.count i = 1 then
      match h.parent i with
      | none => (h.lower i, [i])
      | some p =>
        let r := decrefFuel fuel (h.lower i) p
        (r.1, i :: r.2)
    else (h.lower i, [])

/-- Give a reference back: the heap, and the cells freed. Parents are older, so there
are at most `i + 1` of them. -/
def decref (h : Heap) (i : Nat) : Heap × List Nat := decrefFuel (i + 1) h i

/-- The live cells that refer to `p`. -/
def children (h : Heap) (p : Nat) : Finset Nat :=
  (Finset.range h.next).filter fun j => h.Live j ∧ h.parent j = some p

end Heap

/-- Every count is the number of references there are. -/
structure Counted (h : Heap) (held : Nat → Nat) : Prop where
  older : ∀ i p, h.parent i = some p → p < i
  bound : ∀ i, h.Live i → i < h.next
  count : ∀ i, h.count i = held i + (h.children i).card

variable {h : Heap} {held : Nat → Nat} {i : Nat}

theorem Counted.empty : Counted Heap.empty fun _ => 0 where
  older _ _ h := by cases h
  bound _ h := absurd h (Nat.lt_irrefl 0)
  count _ := rfl

theorem Counted.mem_children (hc : Counted h held) {p j : Nat} :
    j ∈ h.children p ↔ h.Live j ∧ h.parent j = some p := by
  rw [Heap.children, Finset.mem_filter, Finset.mem_range]
  exact and_iff_right_of_imp fun hj => hc.bound j hj.1

/-- What is held is live. -/
theorem Counted.live_of_held (hc : Counted h held) (hi : 0 < held i) : h.Live i := by
  unfold Heap.Live
  rw [hc.count i]
  omega

/-- What a live cell refers to is live. -/
theorem Counted.live_parent (hc : Counted h held) {p : Nat} (hi : h.Live i)
    (hp : h.parent i = some p) : h.Live p := by
  have hmem : i ∈ h.children p := hc.mem_children.mpr ⟨hi, hp⟩
  unfold Heap.Live
  rw [hc.count p]
  have hcard := Finset.card_pos.mpr ⟨i, hmem⟩
  omega

/-- Where nothing is held, nothing is live: the youngest live cell would have no
reference to it. -/
theorem Counted.not_live (hc : Counted h held) (hnone : ∀ i, held i = 0) : ¬ h.Live i := by
  have hall : ∀ n i, h.next - i = n → ¬ h.Live i := by
    intro n
    induction n using Nat.strong_induction_on with
    | _ n ih =>
      intro i hn hlive
      have hlt := hc.bound i hlive
      have hcount := hc.count i
      rw [hnone i, Nat.zero_add] at hcount
      unfold Heap.Live at hlive
      rw [hcount] at hlive
      obtain ⟨j, hj⟩ := Finset.card_pos.mp hlive
      obtain ⟨hjlive, hjp⟩ := hc.mem_children.mp hj
      have hij := hc.older j i hjp
      exact ih (h.next - j) (by omega) j rfl hjlive
  exact hall _ i rfl

/-! ## Taking references -/

theorem count_incref (h : Heap) (i j : Nat) :
    (h.incref i).count j = if j = i then h.count j + 1 else h.count j := by
  show Function.update h.count i (h.count i + 1) j = _
  rw [Function.update_apply]
  split
  next hj => rw [hj]
  next => rfl

theorem live_incref (hi : h.Live i) (j : Nat) : (h.incref i).Live j ↔ h.Live j := by
  unfold Heap.Live at hi ⊢
  rw [count_incref]
  split
  next hj =>
    subst hj
    exact iff_of_true (Nat.succ_pos _) hi
  next => exact Iff.rfl

theorem children_incref (hi : h.Live i) (p : Nat) : (h.incref i).children p = h.children p := by
  unfold Heap.children
  refine Finset.filter_congr ?_
  intro j _
  rw [live_incref hi]
  rfl

/-- One more reference from outside. -/
theorem Counted.incref (hc : Counted h held) (hi : h.Live i) :
    Counted (h.incref i) (Function.update held i (held i + 1)) := by
  refine ⟨hc.older, fun j hj => hc.bound j ((live_incref hi j).mp hj), ?_⟩
  intro j
  rw [children_incref hi, count_incref, Function.update_apply, hc.count j]
  split
  next hj => rw [hj]; omega
  next => rfl

/-- The new cell has one reference, its parent one more. -/
theorem count_alloc (h : Heap) (p : Option Nat) (j : Nat) : (h.alloc p).count j =
    if j = h.next then 1 else if p = some j then h.count j + 1 else h.count j := by
  show Function.update (h.xincref p).count h.next 1 j = _
  rw [Function.update_apply]
  split
  next => rfl
  next hj =>
    cases p with
    | none => rfl
    | some q =>
      show (h.incref q).count j = _
      rw [count_incref]
      simp only [Option.some.injEq, eq_comm]

theorem parent_alloc (h : Heap) (p : Option Nat) (j : Nat) :
    (h.alloc p).parent j = if j = h.next then p else h.parent j := by
  show Function.update h.parent h.next p j = _
  rw [Function.update_apply]

theorem live_alloc {p : Option Nat} (hp : ∀ q, p = some q → h.Live q) (j : Nat) :
    (h.alloc p).Live j ↔ j = h.next ∨ h.Live j := by
  unfold Heap.Live at hp ⊢
  rw [count_alloc]
  split
  next hj => exact iff_of_true Nat.one_pos (Or.inl hj)
  next hj =>
    rw [or_iff_right hj]
    split
    next hq => exact iff_of_true (Nat.succ_pos _) (hp j hq)
    next => exact Iff.rfl

/-- A cell that is not yet made is not live. -/
theorem Counted.not_live_next (hc : Counted h held) : ¬ h.Live h.next :=
  fun hlive => Nat.lt_irrefl _ (hc.bound _ hlive)

/-- A new cell, held once, under a live parent. -/
theorem Counted.alloc (hc : Counted h held) {p : Option Nat}
    (hp : ∀ q, p = some q → h.Live q) :
    Counted (h.alloc p) (Function.update held h.next 1) := by
  have hnext := hc.not_live_next
  have hbound : ∀ j, (h.alloc p).Live j → j < h.next + 1 := by
    intro j hj
    rcases (live_alloc hp j).mp hj with rfl | hj
    · exact Nat.lt_succ_self _
    · exact Nat.lt_succ_of_lt (hc.bound j hj)
  have holder : ∀ j q, (h.alloc p).parent j = some q → q < j := by
    intro j q hq
    rw [parent_alloc] at hq
    split at hq
    next hj => exact hj ▸ hc.bound q (hp q hq)
    next => exact hc.older j q hq
  refine ⟨holder, hbound, ?_⟩
  intro q
  -- The new cell is one more child of its parent, and has none.
  have hchildren : (h.alloc p).children q =
      if p = some q then insert h.next (h.children q) else h.children q := by
    ext j
    have hmem : j ∈ (h.alloc p).children q ↔
        (h.alloc p).Live j ∧ (h.alloc p).parent j = some q := by
      rw [Heap.children, Finset.mem_filter, Finset.mem_range]
      exact and_iff_right_of_imp fun hj => hbound j hj.1
    rw [hmem, live_alloc hp, parent_alloc]
    by_cases hj : j = h.next
    · subst hj
      rw [if_pos rfl]
      split
      next hq => exact iff_of_true ⟨Or.inl rfl, hq⟩ (Finset.mem_insert_self _ _)
      next hq =>
        exact iff_of_false (fun hno => hq hno.2) fun hno => hnext (hc.mem_children.mp hno).1
    · rw [if_neg hj, or_iff_right hj, ← hc.mem_children]
      split
      next => rw [Finset.mem_insert, or_iff_right hj]
      next => exact Iff.rfl
  have hnew : h.next ∉ h.children q := fun hno => hnext (hc.mem_children.mp hno).1
  have hcount := hc.count q
  rw [count_alloc, Function.update_apply, hchildren]
  by_cases hq : q = h.next
  · have hpq : p ≠ some q := fun hno => hnext (hq ▸ hp q hno)
    have hfree : h.count q = 0 := Nat.eq_zero_of_not_pos fun hno => hnext (hq ▸ hno)
    rw [if_pos hq, if_pos hq, if_neg hpq]
    omega
  · rw [if_neg hq, if_neg hq]
    split
    next => rw [Finset.card_insert_of_notMem hnew]; omega
    next => exact hcount

/-! ## Giving references back -/

theorem count_lower (h : Heap) (i j : Nat) :
    (h.lower i).count j = if j = i then h.count j - 1 else h.count j := by
  show Function.update h.count i (h.count i - 1) j = _
  rw [Function.update_apply]
  split
  next hj => rw [hj]
  next => rfl

/-- The last reference frees the cell, any other one does not. -/
theorem live_lower (h : Heap) (i j : Nat) :
    (h.lower i).Live j ↔ h.Live j ∧ ¬ (j = i ∧ h.count i = 1) := by
  unfold Heap.Live
  rw [count_lower]
  split
  next hj => subst hj; omega
  next hj => exact (and_iff_left fun hno => hj hno.1).symm

theorem live_free (hlast : h.count i = 1) (j : Nat) :
    (h.lower i).Live j ↔ h.Live j ∧ j ≠ i := by
  rw [live_lower]
  exact and_congr_right fun _ => not_congr (and_iff_left hlast)

theorem live_lower_of_ne (hmany : h.count i ≠ 1) (j : Nat) : (h.lower i).Live j ↔ h.Live j := by
  rw [live_lower]
  exact and_iff_left fun hno => hmany hno.2

/-- What is held by the one who frees `i` afterwards: the reference of `i` to its parent. -/
def handOver (held : Nat → Nat) (i : Nat) : Option Nat → Nat → Nat
  | none => Function.update held i 0
  | some p => Function.update (Function.update held i 0) p (held p + 1)

/-- The freed cell is no longer held: it is not its own parent. -/
theorem handOver_self {parent : Option Nat} (holder : ∀ p, parent = some p → p < i) :
    handOver held i parent i = 0 := by
  cases parent with
  | none => exact Function.update_self _ _ _
  | some p =>
    have hne : i ≠ p := (holder p rfl).ne'
    rw [handOver, Function.update_of_ne hne, Function.update_self]

theorem handOver_of_ne {parent : Option Nat} {j : Nat} (hj : j ≠ i) :
    handOver held i parent j = if parent = some j then held j + 1 else held j := by
  cases parent with
  | none => exact Function.update_of_ne hj _ _
  | some p =>
    rw [handOver, Function.update_apply, Function.update_of_ne hj]
    simp only [Option.some.injEq, eq_comm]
    split
    next hp => rw [hp]
    next => rfl

/-- A reference that is not the last one. -/
theorem Counted.lower (hc : Counted h held) (hi : 0 < held i) (hmany : h.count i ≠ 1) :
    Counted (h.lower i) (Function.update held i (held i - 1)) := by
  have hlive := live_lower_of_ne hmany
  have hchildren : ∀ p, (h.lower i).children p = h.children p := by
    intro p
    unfold Heap.children
    refine Finset.filter_congr ?_
    intro j _
    rw [hlive]
    rfl
  refine ⟨hc.older, fun j hj => hc.bound j ((hlive j).mp hj), ?_⟩
  intro j
  rw [hchildren, count_lower, Function.update_apply, hc.count j]
  split
  next hj => rw [hj]; omega
  next => rfl

theorem handOver_parent_pos (held : Nat → Nat) (i p : Nat) :
    0 < handOver held i (some p) p := by
  rw [handOver, Function.update_self]
  exact Nat.succ_pos _

/-- Whoever gives the last reference back holds it, and no live cell refers to what it frees. -/
theorem Counted.last (hc : Counted h held) (hi : 0 < held i) (hlast : h.count i = 1) :
    held i = 1 ∧ h.children i = ∅ := by
  have hcount := hc.count i
  exact ⟨by omega, Finset.card_eq_zero.mp (by omega)⟩

theorem Counted.childless (hc : Counted h held) (hi : 0 < held i) (hlast : h.count i = 1)
    (j : Nat) : j ∉ h.children i := by
  rw [(hc.last hi hlast).2]
  exact Finset.notMem_empty j

/-- The last reference: the cell goes, and its own reference is handed over. -/
theorem Counted.free (hc : Counted h held) (hi : 0 < held i) (hlast : h.count i = 1) :
    Counted (h.lower i) (handOver held i (h.parent i)) := by
  have hilive : h.Live i := hc.live_of_held hi
  have hnone : h.children i = ∅ := (hc.last hi hlast).2
  have hlive := live_free hlast
  have hchildren : ∀ p, (h.lower i).children p = (h.children p).erase i := by
    intro p
    ext j
    rw [Finset.mem_erase, hc.mem_children, Heap.children, Finset.mem_filter, Finset.mem_range,
      hlive]
    show j < h.next ∧ (h.Live j ∧ j ≠ i) ∧ h.parent j = some p ↔ _
    constructor
    · intro hj
      exact ⟨hj.2.1.2, hj.2.1.1, hj.2.2⟩
    · intro hj
      exact ⟨hc.bound j hj.2.1, ⟨hj.2.1, hj.1⟩, hj.2.2⟩
  refine ⟨hc.older, fun j hj => hc.bound j ((hlive j).mp hj).1, ?_⟩
  intro j
  have hcountj := hc.count j
  rw [hchildren, count_lower]
  by_cases hj : j = i
  · -- Nothing is left of the cell itself: it is not its own parent.
    subst hj
    have hself : handOver held j (h.parent j) j = 0 := handOver_self (hc.older j)
    rw [if_pos rfl, hself, hnone, hlast]
    rfl
  rw [if_neg hj, handOver_of_ne hj]
  split
  next hp =>
    have hmem : i ∈ h.children j := hc.mem_children.mpr ⟨hilive, hp⟩
    have hcard := Finset.card_pos.mpr ⟨i, hmem⟩
    rw [Finset.card_erase_of_mem hmem]
    omega
  next hp =>
    have hmem : i ∉ h.children j := fun hno => hp (hc.mem_children.mp hno).2
    rw [Finset.erase_eq_of_notMem hmem]
    exact hcountj

/-- What is handed over is given back, and what is held is as before. -/
theorem update_handOver (hi : held i = 1) {p : Nat} (hp : p < i) :
    Function.update (handOver held i (some p)) p (handOver held i (some p) p - 1) =
      Function.update held i (held i - 1) := by
  have hself : handOver held i (some p) p - 1 = Function.update held i 0 p := by
    rw [handOver, Function.update_self, Function.update_of_ne hp.ne, Nat.add_sub_cancel]
  rw [hself, hi, handOver, Function.update_idem, Function.update_eq_self]

section Rule

variable {σ : Type} {f : σ → Nat → σ} {P : Heap → (Nat → Nat) → σ → Prop}
  (hlower : ∀ h held i x, Counted h held → 0 < held i → h.count i ≠ 1 → P h held x →
    P (h.lower i) (Function.update held i (held i - 1)) x)
  (hfree : ∀ h held i x, Counted h held → 0 < held i → h.count i = 1 → P h held x →
    P (h.lower i) (handOver held i (h.parent i)) (f x i))
include hlower hfree

theorem Counted.decrefFuel_rule (hc : Counted h held) (hi : 0 < held i) {x : σ}
    (hx : P h held x) {fuel : Nat} (hfuel : i < fuel) :
    P (Heap.decrefFuel fuel h i).1 (Function.update held i (held i - 1))
      ((Heap.decrefFuel fuel h i).2.foldl f x) := by
  induction fuel generalizing h held i x with
  | zero => exact absurd hfuel (Nat.not_lt_zero i)
  | succ fuel ih =>
    rw [Heap.decrefFuel]
    split
    next hlast =>
      have hheld : held i = 1 := (hc.last hi hlast).1
      have hcfree := hc.free hi hlast
      have hstep := hfree h held i x hc hi hlast hx
      split
      next hp =>
        rw [hp] at hstep
        rw [hheld]
        exact hstep
      next p hp =>
        have hpi : p < i := hc.older i p hp
        rw [hp] at hcfree hstep
        have hrest := ih hcfree (handOver_parent_pos held i p) hstep (by omega)
        rw [update_handOver hheld hpi] at hrest
        exact hrest
    next hmany => exact hlower h held i x hc hi hmany hx

/-- **The rule for `decref`**: `f` says what is done to `x` when a cell is freed, after
its count is zero and before its parent is followed. What giving back one reference
preserves, whether or not it frees the cell, `decref` preserves. -/
theorem Counted.decref_rule (hc : Counted h held) (hi : 0 < held i) {x : σ} (hx : P h held x) :
    P (h.decref i).1 (Function.update held i (held i - 1)) ((h.decref i).2.foldl f x) :=
  hc.decrefFuel_rule hlower hfree hi hx (Nat.lt_succ_self i)

end Rule

/-- **`decref` keeps the counts right**. -/
theorem Counted.decref (hc : Counted h held) (hi : 0 < held i) :
    Counted (h.decref i).1 (Function.update held i (held i - 1)) :=
  hc.decref_rule (f := fun x _ => x) (P := fun h held (_ : Unit) => Counted h held)
    (fun _ _ _ _ hc hi hmany _ => hc.lower hi hmany)
    (fun _ _ _ _ hc hi hlast _ => hc.free hi hlast) hi (x := ()) hc

/-! ## What the references say -/

/-- Cells that are held, and those they lead to. -/
inductive Reach (h : Heap) (held : Nat → Nat) : Nat → Prop
  | held {i : Nat} : 0 < held i → Reach h held i
  | parent {i p : Nat} : Reach h held i → h.parent i = some p → Reach h held p

/-- **Live is what can be reached**: a live cell is held, or a younger live one refers to
it. -/
theorem Counted.live_iff (hc : Counted h held) : h.Live i ↔ Reach h held i := by
  constructor
  · induction hn : h.next - i using Nat.strong_induction_on generalizing i with
    | _ n ih =>
      intro hlive
      have hlt := hc.bound i hlive
      by_cases hheld : 0 < held i
      · exact Reach.held hheld
      · have hcount := hc.count i
        unfold Heap.Live at hlive
        obtain ⟨j, hj⟩ := Finset.card_pos.mp (show 0 < (h.children i).card by omega)
        obtain ⟨hjlive, hjp⟩ := hc.mem_children.mp hj
        have hij := hc.older j i hjp
        exact Reach.parent (ih (h.next - j) (by omega) rfl hjlive) hjp
  · intro hreach
    induction hreach with
    | held hi => exact hc.live_of_held hi
    | parent _ hp ih => exact hc.live_parent ih hp

/-- **The references held determine the counts**: new cells make no difference if what is
held is the same and the old ones keep their parents. -/
theorem Counted.count_eq {h' : Heap} (hc : Counted h held) (hc' : Counted h' held)
    (hparent : ∀ i < h.next, h'.parent i = h.parent i) : h'.count = h.count := by
  have hsame : ∀ {j}, Reach h held j → h'.parent j = h.parent j := fun hj =>
    hparent _ (hc.bound _ (hc.live_iff.mpr hj))
  have hlive : ∀ j, h'.Live j ↔ h.Live j := by
    intro j
    rw [hc'.live_iff, hc.live_iff]
    constructor
    · intro hj
      induction hj with
      | held hj => exact Reach.held hj
      | parent _ hp ih => exact Reach.parent ih ((hsame ih).symm.trans hp)
    · intro hj
      induction hj with
      | held hj => exact Reach.held hj
      | parent hi hp ih => exact Reach.parent ih ((hsame hi).trans hp)
  have hchildren : ∀ p, h'.children p = h.children p := by
    intro p
    ext j
    rw [hc'.mem_children, hc.mem_children, hlive]
    exact and_congr_right fun hj => by rw [hparent j (hc.bound j hj)]
  funext j
  rw [hc'.count, hc.count, hchildren]

end RefCount
