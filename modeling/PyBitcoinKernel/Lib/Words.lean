import Mathlib.Data.List.Basic

/-!
# Words

Text over any alphabet as a command line has it. A line break behind an escape is
nothing (`joinLines`), and what stands between blanks is a word (`words`). Words are
read off piece by piece: lines that are joined by a blank, an escape and a line break
have the words of the lines, one line after another.

> `words_joinLines_intercalate`: no piece can run into the next one, but a piece that
> is empty leaves no word.
-/

namespace Words

variable {α : Type}

/-! ## Words between blanks -/

/-- What stands between blanks, if anything does. -/
def words (blank : α → Bool) (l : List α) : List (List α) :=
  (l.splitOnP blank).filter fun w => !w.isEmpty

variable {blank : α → Bool}

@[simp] theorem words_nil : words blank [] = [] := by
  rw [words, List.splitOnP_nil]
  rfl

/-- **A blank separates** the words before it from those behind it. -/
theorem words_append_cons (l r : List α) {b : α} (hb : blank b) :
    words blank (l ++ b :: r) = words blank l ++ words blank r := by
  rw [words, List.splitOnP_append_cons l r hb, List.filter_append]
  rfl

/-- Without blanks there is one word, unless there is nothing. -/
theorem words_of_forall {w : List α} (h : ∀ c ∈ w, blank c = false) (hne : w ≠ []) :
    words blank w = [w] := by
  have hnonempty : w.isEmpty = false := List.isEmpty_eq_false_iff.mpr hne
  rw [words, List.splitOnP_eq_singleton h, List.filter_singleton, hnonempty]
  rfl

/-- Pieces joined by a blank. -/
theorem words_intercalate {b : α} (hb : blank b) (ls : List (List α)) :
    words blank ([b].intercalate ls) = ls.flatMap (words blank) := by
  induction ls with
  | nil => exact words_nil
  | cons l ls ih =>
    cases ls with
    | nil => rw [List.intercalate_singleton, List.flatMap_singleton]
    | cons l' ls =>
      rw [List.intercalate_cons_cons, List.append_assoc, List.singleton_append,
        words_append_cons l _ hb, ih]
      rfl

/-- What holds of each symbol of a text that is written down can be checked. -/
theorem forall_mem_of_all {P : α → Prop} [DecidablePred P] {l : List α}
    (h : (l.all fun c => decide (P c)) = true) : ∀ c ∈ l, P c :=
  fun c hc => of_decide_eq_true (List.all_eq_true.mp h c hc)

/-- What holds of the pieces and of what joins them holds of the whole. -/
theorem forall_mem_intercalate {P : α → Prop} {sep : List α} (hsep : ∀ c ∈ sep, P c)
    {ls : List (List α)} (hls : ∀ l ∈ ls, ∀ c ∈ l, P c) : ∀ c ∈ sep.intercalate ls, P c := by
  induction ls with
  | nil => exact fun c hc => absurd hc List.not_mem_nil
  | cons l ls ih =>
    have hl := hls l (List.mem_cons_self ..)
    have hrest := ih fun x hx => hls x (List.mem_cons_of_mem _ hx)
    cases ls with
    | nil => rwa [List.intercalate_singleton]
    | cons l' ls =>
      rw [List.intercalate_cons_cons, List.forall_mem_append, List.forall_mem_append]
      exact ⟨⟨hl, hsep⟩, hrest⟩

/-! ## Lines that go on -/

section JoinLines

variable [DecidableEq α] (e n : α)

/-- A line break `n` behind an escape `e` is taken out, and the escape with it. -/
def joinLines : List α → List α
  | [] => []
  | [c] => [c]
  | c :: d :: rest => if c = e ∧ d = n then joinLines rest else c :: joinLines (d :: rest)

variable {e n}

/-- What is not an escape is left as it is. -/
theorem joinLines_cons {c : α} (hc : c ≠ e) (l : List α) :
    joinLines e n (c :: l) = c :: joinLines e n l := by
  cases l with
  | nil => rfl
  | cons d l => rw [joinLines, if_neg fun h => hc h.1]

theorem joinLines_append {l : List α} (hl : e ∉ l) (r : List α) :
    joinLines e n (l ++ r) = l ++ joinLines e n r := by
  induction l with
  | nil => rfl
  | cons c l ih =>
    have hc : c ≠ e := fun h => hl (h ▸ List.mem_cons_self ..)
    rw [List.cons_append, joinLines_cons hc, ih fun h => hl (List.mem_cons_of_mem _ h)]
    rfl

/-- Lines that go on behind a blank, as one. -/
theorem joinLines_intercalate {b : α} (hb : b ≠ e) {ls : List (List α)}
    (hls : ∀ l ∈ ls, e ∉ l) {r : List α} (hr : e ∉ r) :
    joinLines e n ([b, e, n].intercalate ls ++ r) = [b].intercalate ls ++ r := by
  have hend : joinLines e n r = r := by
    have h := joinLines_append (n := n) hr []
    rwa [List.append_nil, joinLines, List.append_nil] at h
  induction ls with
  | nil => exact hend
  | cons l ls ih =>
    have hl := hls l (List.mem_cons_self ..)
    cases ls with
    | nil =>
      rw [List.intercalate_singleton, List.intercalate_singleton, joinLines_append hl, hend]
    | cons l' ls =>
      have hrest := ih fun x hx => hls x (List.mem_cons_of_mem _ hx)
      rw [List.intercalate_cons_cons, List.intercalate_cons_cons, List.append_assoc,
        List.append_assoc, List.append_assoc, List.append_assoc, joinLines_append hl]
      refine congrArg (l ++ ·) ?_
      show joinLines e n (b :: e :: n :: ([b, e, n].intercalate (l' :: ls) ++ r)) =
        b :: ([b].intercalate (l' :: ls) ++ r)
      rw [joinLines_cons hb, joinLines, if_pos ⟨rfl, rfl⟩, hrest]

end JoinLines

end Words
