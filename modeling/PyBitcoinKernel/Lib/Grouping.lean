import Mathlib.Data.List.SplitBy

/-!
# Groups of neighbours

`List.splitBy r` cuts a list between two neighbours `a`, `b` exactly where
`r a b` is false. A loop that reads a list from the front and keeps the groups
it has seen so far computes it: a new element opens a group where `r` is false
(`List.splitBy_append_cons`) and joins the last one where `r` is true
(`splitBy_concat_join`). `sameGroup_splitBy_iff` reads the result back by
positions.
-/

namespace Grouping

variable {α : Type} {r : α → α → Bool}

/-- Positions `k` and `k + 1` of the concatenated groups lie in one group. -/
def SameGroup (gs : List (List α)) (k : Nat) : Prop :=
  ∃ pre g post, gs = pre ++ g :: post ∧
    pre.flatten.length ≤ k ∧ k + 1 < pre.flatten.length + g.length

/-- A new element related to the last one joins the last group. -/
theorem splitBy_concat_join {l : List α} {gs : List (List α)} {g : List α} {a : α}
    (h : l.splitBy r = gs ++ [g]) (ha : ∀ x ∈ l.getLast?, r x a = true) :
    (l ++ [a]).splitBy r = gs ++ [g ++ [a]] := by
  obtain ⟨hflat, hne, hchain, hapart⟩ := List.splitBy_eq_iff.mp h
  have hg : g ≠ [] := fun hg => hne (by simp [hg])
  rw [List.splitBy_eq_iff]
  refine ⟨by simp [hflat], ?_, ?_, ?_⟩
  · intro hmem
    rcases List.mem_append.mp hmem with hmem | hmem
    · exact hne (List.mem_append_left _ hmem)
    · simp at hmem
  · intro m hm
    rcases List.mem_append.mp hm with hm | hm
    · exact hchain m (List.mem_append_left _ hm)
    · rw [List.mem_singleton] at hm
      subst hm
      refine List.isChain_append.mpr
        ⟨hchain g (by simp), List.isChain_singleton a, fun x hx y hy => ?_⟩
      rw [List.head?_cons, Option.mem_some_iff] at hy
      subst hy
      refine ha x ?_
      rw [hflat, List.flatten_append, List.flatten_singleton, List.getLast?_append_of_ne_nil _ hg]
      exact hx
  · -- The last group keeps its first element, so it stays apart from the one before.
    rw [List.isChain_append] at hapart ⊢
    refine ⟨hapart.1, List.isChain_singleton _, ?_⟩
    intro x hx y hy
    rw [List.head?_cons, Option.mem_some_iff] at hy
    subst hy
    obtain ⟨hxne, _, hxg⟩ := hapart.2.2 x hx g (by simp)
    refine ⟨hxne, by simp, ?_⟩
    rw [List.head_append_of_ne_nil hg]
    exact hxg

/-! ## Reading the groups by positions -/

theorem sameGroup_cons {g : List α} {gs : List (List α)} {k : Nat} :
    SameGroup (g :: gs) k ↔ k + 1 < g.length ∨ g.length ≤ k ∧ SameGroup gs (k - g.length) := by
  constructor
  · intro hsame
    obtain ⟨pre, g', post, heq, hlo, hhi⟩ := hsame
    cases pre with
    | nil =>
      rw [List.nil_append, List.cons.injEq] at heq
      obtain ⟨rfl, -⟩ := heq
      exact Or.inl (by simpa using hhi)
    | cons p pre =>
      rw [List.cons_append, List.cons.injEq] at heq
      obtain ⟨rfl, rfl⟩ := heq
      rw [List.flatten_cons, List.length_append] at hlo hhi
      exact Or.inr ⟨by omega, pre, g', post, rfl, by omega, by omega⟩
  · intro hsame
    rcases hsame with h | ⟨hle, pre, g', post, rfl, hlo, hhi⟩
    · exact ⟨[], g, gs, rfl, by simp, by simpa using h⟩
    · refine ⟨g :: pre, g', post, rfl, ?_, ?_⟩ <;>
      · rw [List.flatten_cons, List.length_append]
        omega

/-- In groups that hold together inside and stay apart from each other, two
neighbours share a group exactly when they are related. -/
theorem sameGroup_iff {gs : List (List α)} (hne : [] ∉ gs)
    (hchain : ∀ g ∈ gs, g.IsChain fun x y => r x y)
    (hapart : gs.IsChain fun a b => ∃ ha hb, r (a.getLast ha) (b.head hb) = false)
    {k : Nat} (hk : k + 1 < gs.flatten.length) :
    SameGroup gs k ↔ r gs.flatten[k] gs.flatten[k + 1] = true := by
  induction gs generalizing k with
  | nil => simp at hk
  | cons g gs ih =>
    rw [sameGroup_cons]
    simp only [List.flatten_cons, List.length_append] at hk ⊢
    rcases Nat.lt_trichotomy (k + 1) g.length with hlt | heq | hgt
    · -- Both inside the first group.
      have hrel := List.isChain_iff_getElem.mp (hchain g (by simp)) k hlt
      rw [List.getElem_append_left (by omega), List.getElem_append_left hlt]
      exact iff_of_true (Or.inl hlt) hrel
    · -- The last of the first group, and the first of the next.
      cases gs with
      | nil => simp at hk; omega
      | cons b gs =>
        obtain ⟨hgne, hbne, hrel⟩ := (List.isChain_cons_cons.mp hapart).1
        have hpos := List.length_pos_of_ne_nil hbne
        have hlast : g.getLast hgne = g[k] := by
          rw [List.getLast_eq_getElem]
          congr 1
          omega
        rw [List.getElem_append_left (by omega), List.getElem_append_right (by omega)]
        simp only [List.flatten_cons, heq, Nat.sub_self]
        rw [List.getElem_append_left hpos, ← List.head_eq_getElem hbne, ← hlast, hrel]
        exact iff_of_false (by omega) (by simp)
    · have hle : g.length ≤ k := by omega
      have hstep := ih (fun h => hne (by simp [h])) (fun m hm => hchain m (by simp [hm]))
        hapart.tail (show k - g.length + 1 < gs.flatten.length by omega)
      rw [List.getElem_append_right hle, List.getElem_append_right (by omega)]
      simp only [show k + 1 - g.length = k - g.length + 1 by omega]
      rw [← hstep]
      exact ⟨fun h => (h.resolve_left (by omega)).2, fun h => Or.inr ⟨hle, h⟩⟩

/-- The cuts of `splitBy`, by positions. -/
theorem sameGroup_splitBy_iff {l : List α} {k : Nat} (hk : k + 1 < l.length) :
    SameGroup (l.splitBy r) k ↔ r l[k] l[k + 1] = true := by
  have hflat := List.flatten_splitBy r l
  have h := @sameGroup_iff _ r _ (List.nil_notMem_splitBy r l)
    (fun g hg => List.isChain_of_mem_splitBy hg) (List.isChain_getLast_head_splitBy r l) k
    (by rw [hflat]; exact hk)
  simpa only [hflat] using h

end Grouping
