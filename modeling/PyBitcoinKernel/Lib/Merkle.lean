import Mathlib.Algebra.Ring.Nat
import Mathlib.Data.List.Basic
import Mathlib.Data.Nat.Log

/-!
# Merkle trees over a list of any length

A Merkle root is computed level by level: neighbours are combined, and a node without a
neighbour with itself (`parents`). What the root says is said of a tree: `build d l`
has the items of `l` as its first leaves and is perfect, of depth `d`, because wherever
the right half of a subtree would be empty the left half stands in for it.

> `root_build_parents`: climbing one level does not change the root.

> `root_build_eq_iff`: two lists whose trees are equally deep have the same root exactly
> when their *padded* lists are equal, if among the nodes of the two trees no two
> different pairs have the same combination (`NoClash`).

`pad d l` is `l` continued to `2 ^ d` items by what the doubling repeats. It begins with
`l` (`take_pad`), so among lists of one length the root determines the list; lists of
different lengths with one padding, such as `l` and `pad d l` itself, cannot be told
apart by any combining function.
-/

namespace Merkle

variable {α : Type} {d : Nat}

/-! ## Levels -/

section Parents

variable (H : α → α → α)

/-- The next level: neighbours combined, and the last one with itself if it has none. -/
def parents : List α → List α
  | [] => []
  | [x] => [H x x]
  | x :: y :: l => H x y :: parents l

theorem length_parents : ∀ l : List α, (parents H l).length = (l.length + 1) / 2
  | [] => by rw [parents, List.length_nil]
  | [_] => by rw [parents, List.length_singleton, List.length_singleton]
  | _ :: _ :: l => by
    rw [parents, List.length_cons, length_parents l, List.length_cons, List.length_cons]
    omega

theorem parents_ne_nil {l : List α} (h : l ≠ []) : parents H l ≠ [] := by
  have hpos := List.length_pos_iff.mpr h
  rw [← List.length_pos_iff, length_parents]
  omega

/-- The first half of a level, as long as no pair is cut in two. -/
theorem take_parents : ∀ (k : Nat) (l : List α),
    (parents H l).take k = parents H (l.take (2 * k))
  | 0, l => by rw [Nat.mul_zero, List.take_zero, List.take_zero, parents]
  | _ + 1, [] => by rw [parents, List.take_nil, List.take_nil, parents]
  | k + 1, [x] => by
    rw [parents, List.take_of_length_le (by simp), List.take_of_length_le, parents]
    rw [List.length_singleton]
    omega
  | k + 1, x :: y :: l => by
    rw [parents, Nat.mul_succ, List.take_succ_cons, List.take_succ_cons, List.take_succ_cons,
      parents, take_parents k l]

theorem drop_parents : ∀ {k : Nat} {l : List α}, 2 * k ≤ l.length →
    (parents H l).drop k = parents H (l.drop (2 * k))
  | 0, l, _ => by rw [Nat.mul_zero, List.drop_zero, List.drop_zero]
  | k + 1, [], h => absurd h (by rw [List.length_nil]; omega)
  | k + 1, [x], h => absurd h (by rw [List.length_singleton]; omega)
  | k + 1, x :: y :: l, h => by
    rw [List.length_cons, List.length_cons] at h
    rw [parents, Nat.mul_succ, List.drop_succ_cons, List.drop_succ_cons, List.drop_succ_cons,
      drop_parents (by omega)]

end Parents

/-! ## Trees -/

/-- A perfect binary tree. -/
inductive Tree (α : Type) : Nat → Type where
  | leaf (a : α) : Tree α 0
  | node {d : Nat} (l r : Tree α d) : Tree α (d + 1)

/-- The combination of all leaves. -/
def Tree.root (H : α → α → α) : {d : Nat} → Tree α d → α
  | _, .leaf a => a
  | _, .node l r => H (l.root H) (r.root H)

/-- The leaves, from left to right. -/
def Tree.leaves : {d : Nat} → Tree α d → List α
  | _, .leaf a => [a]
  | _, .node l r => l.leaves ++ r.leaves

theorem Tree.length_leaves : ∀ {d : Nat} (t : Tree α d), t.leaves.length = 2 ^ d
  | _, .leaf _ => rfl
  | d + 1, .node l r => by
    rw [leaves, List.length_append, l.length_leaves, r.length_leaves, Nat.pow_succ]
    omega

/-- A perfect tree is determined by its leaves. -/
theorem Tree.leaves_inj : ∀ {d : Nat} {t u : Tree α d}, t.leaves = u.leaves → t = u
  | _, .leaf a, .leaf b, h => by
    rw [leaves, leaves, List.singleton_inj] at h
    rw [h]
  | d + 1, .node l r, .node l' r', h => by
    have hlen : l.leaves.length = l'.leaves.length := by rw [length_leaves, length_leaves]
    obtain ⟨hl, hr⟩ := List.append_inj h hlen
    rw [leaves_inj hl, leaves_inj hr]

/-- The pairs that are combined on the way to the root. -/
def Tree.pairs (H : α → α → α) : {d : Nat} → Tree α d → List (α × α)
  | _, .leaf _ => []
  | _, .node l r => (l.root H, r.root H) :: (l.pairs H ++ r.pairs H)

/-- No two different pairs, one of each tree, have the same combination. -/
def NoClash (H : α → α → α) (t u : Tree α d) : Prop :=
  ∀ p ∈ t.pairs H, ∀ q ∈ u.pairs H, H p.1 p.2 = H q.1 q.2 → p = q

theorem NoClash.left {H : α → α → α} {l r l' r' : Tree α d}
    (h : NoClash H (.node l r) (.node l' r')) : NoClash H l l' :=
  fun p hp q hq => h p (List.mem_cons_of_mem _ (List.mem_append_left _ hp)) q
    (List.mem_cons_of_mem _ (List.mem_append_left _ hq))

theorem NoClash.right {H : α → α → α} {l r l' r' : Tree α d}
    (h : NoClash H (.node l r) (.node l' r')) : NoClash H r r' :=
  fun p hp q hq => h p (List.mem_cons_of_mem _ (List.mem_append_right _ hp)) q
    (List.mem_cons_of_mem _ (List.mem_append_right _ hq))

/-- **A root binds its tree**: from the top down, equal nodes have equal children. -/
theorem Tree.root_inj {H : α → α → α} : ∀ {d : Nat} {t u : Tree α d}, NoClash H t u →
    t.root H = u.root H → t = u
  | _, .leaf a, .leaf b, _, h => congrArg Tree.leaf h
  | d + 1, .node l r, .node l' r', hno, h => by
    have hpair := hno _ (List.mem_cons_self ..) _ (List.mem_cons_self ..) h
    rw [Prod.mk.injEq] at hpair
    rw [root_inj hno.left hpair.1, root_inj hno.right hpair.2]

/-! ## The tree of a list -/

theorem take_ne_nil {l : List α} (h : l ≠ []) (d : Nat) : l.take (2 ^ d) ≠ [] := by
  have hpow := Nat.two_pow_pos d
  intro hnil
  rcases List.take_eq_nil_iff.mp hnil with h0 | h0
  · omega
  · exact h h0

theorem drop_ne_nil {l : List α} {k : Nat} (h : k < l.length) : l.drop k ≠ [] := by
  rw [ne_eq, List.drop_eq_nil_iff]
  omega

/-- The perfect tree of depth `d` over a list; where nothing is left for the right half of
a subtree, the left half stands there once more. -/
def build : (d : Nat) → (l : List α) → l ≠ [] → Tree α d
  | 0, l, h => .leaf (l.head h)
  | d + 1, l, h =>
    if hlen : 2 ^ d < l.length then
      .node (build d (l.take (2 ^ d)) (take_ne_nil h d)) (build d (l.drop (2 ^ d)) (drop_ne_nil hlen))
    else .node (build d l h) (build d l h)

theorem build_congr {l l' : List α} (h : l ≠ []) (heq : l = l') :
    build d l h = build d l' (heq ▸ h) := by
  subst heq
  rfl

/-- **One level up**: the parents have the root of the list. The two halves of a tree are
the trees of its halves, and no pair lies across them. -/
theorem root_build_parents (H : α → α → α) : ∀ {d : Nat} {l : List α} (h : l ≠ [])
    (_ : l.length ≤ 2 ^ (d + 1)),
    (build d (parents H l) (parents_ne_nil H h)).root H = (build (d + 1) l h).root H
  | 0, [x], _, _ => rfl
  | 0, [x, y], _, _ => rfl
  | 0, x :: y :: z :: l, _, hlen => by
    rw [List.length_cons, List.length_cons, List.length_cons] at hlen
    omega
  | d + 1, l, h, hlen => by
    have hparents := length_parents H l
    have hpow : 2 ^ (d + 1) = 2 * 2 ^ d := by rw [Nat.pow_succ, Nat.mul_comm]
    have hpow' : 2 ^ (d + 1 + 1) = 2 * 2 ^ (d + 1) := by rw [Nat.pow_succ, Nat.mul_comm]
    rw [build, build]
    by_cases hhalf : 2 ^ (d + 1) < l.length
    · have hleft : (l.take (2 ^ (d + 1))).length ≤ 2 ^ (d + 1) := List.length_take_le _ _
      have hright : (l.drop (2 ^ (d + 1))).length ≤ 2 ^ (d + 1) := by
        rw [List.length_drop]
        omega
      have htake : (parents H l).take (2 ^ d) = parents H (l.take (2 ^ (d + 1))) := by
        rw [take_parents, ← hpow]
      have hdrop : (parents H l).drop (2 ^ d) = parents H (l.drop (2 ^ (d + 1))) := by
        rw [drop_parents H (by omega), ← hpow]
      rw [dif_pos (show 2 ^ d < (parents H l).length by omega), dif_pos hhalf, Tree.root, Tree.root,
        build_congr _ htake, build_congr _ hdrop, root_build_parents H _ hleft,
        root_build_parents H _ hright]
    · rw [dif_neg (show ¬ 2 ^ d < (parents H l).length by omega), dif_neg hhalf, Tree.root,
        Tree.root, root_build_parents H h (by omega)]

/-! ## Padding -/

/-- The leaves of the tree of a list: what is missing repeats what is there. -/
def pad : Nat → List α → List α
  | 0, l => l
  | d + 1, l =>
    if 2 ^ d < l.length then l.take (2 ^ d) ++ pad d (l.drop (2 ^ d)) else pad d l ++ pad d l

/-- A full level is its own padding. -/
theorem pad_full : ∀ {d : Nat} {l : List α}, l.length = 2 ^ d → pad d l = l
  | 0, _, _ => rfl
  | d + 1, l, h => by
    have hpow : 2 ^ (d + 1) = 2 * 2 ^ d := by rw [Nat.pow_succ, Nat.mul_comm]
    have hpos := Nat.two_pow_pos d
    rw [pad, if_pos (by omega), pad_full, List.take_append_drop]
    rw [List.length_drop]
    omega

theorem leaves_build : ∀ {d : Nat} {l : List α} (h : l ≠ []), l.length ≤ 2 ^ d →
    (build d l h).leaves = pad d l
  | 0, [_], _, _ => rfl
  | 0, _ :: _ :: _, _, hlen => by
    rw [List.length_cons, List.length_cons] at hlen
    omega
  | d + 1, l, h, hlen => by
    have hpow : 2 ^ (d + 1) = 2 * 2 ^ d := by rw [Nat.pow_succ, Nat.mul_comm]
    rw [build, pad]
    by_cases hhalf : 2 ^ d < l.length
    · have htake : (l.take (2 ^ d)).length = 2 ^ d := List.length_take_of_le (by omega)
      have hdrop : (l.drop (2 ^ d)).length ≤ 2 ^ d := by
        rw [List.length_drop]
        omega
      rw [dif_pos hhalf, if_pos hhalf, Tree.leaves, leaves_build _ htake.le, leaves_build _ hdrop,
        pad_full htake]
    · rw [dif_neg hhalf, if_neg hhalf, Tree.leaves, leaves_build h (by omega)]

/-- The padding begins with the list. -/
theorem take_pad : ∀ {d : Nat} {l : List α}, l.length ≤ 2 ^ d → (pad d l).take l.length = l
  | 0, l, _ => by rw [pad, List.take_length]
  | d + 1, l, hlen => by
    have hpow : 2 ^ (d + 1) = 2 * 2 ^ d := by rw [Nat.pow_succ, Nat.mul_comm]
    rw [pad]
    by_cases hhalf : 2 ^ d < l.length
    · have htake : (l.take (2 ^ d)).length = 2 ^ d := List.length_take_of_le (by omega)
      have hdrop : (l.drop (2 ^ d)).length = l.length - 2 ^ d := List.length_drop
      have hrest := take_pad (show (l.drop (2 ^ d)).length ≤ 2 ^ d by omega)
      rw [if_pos hhalf, List.take_append, htake, List.take_of_length_le (by omega), ← hdrop, hrest,
        List.take_append_drop]
    · have hrest := take_pad (show l.length ≤ 2 ^ d by omega)
      have hle : l.length ≤ (pad d l).length := by
        have hmin := congrArg List.length hrest
        rw [List.length_take] at hmin
        omega
      rw [if_neg hhalf, List.take_append_of_le_length hle, hrest]

/-- **What a root tells apart**: lists with different paddings, as long as no two nodes
clash. -/
theorem root_build_eq_iff {H : α → α → α} {l l' : List α} (h : l ≠ []) (h' : l' ≠ [])
    (hlen : l.length ≤ 2 ^ d) (hlen' : l'.length ≤ 2 ^ d)
    (hno : NoClash H (build d l h) (build d l' h')) :
    (build d l h).root H = (build d l' h').root H ↔ pad d l = pad d l' := by
  rw [← leaves_build h hlen, ← leaves_build h' hlen']
  constructor
  · intro hroot
    exact congrArg Tree.leaves (Tree.root_inj hno hroot)
  · intro hleaves
    rw [Tree.leaves_inj hleaves]

end Merkle
