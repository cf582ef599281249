/-!
# Delimited text

Text over any alphabet, put together from pieces that do not contain the symbol
that marks where a piece ends. Such text can be read back: at a first delimiter
(`append_cons_inj`), pieces joined by a separator that begins with one
(`intercalate_inj`), and blocks that each begin with one (`flatten_cons_inj`).

For strings, `Free c s` says that `s` can be such a piece. Numerals are free of
what is not a digit, and a text that is written down can be tested on its bytes
(`free_of_bytes`), which evaluate faster than its characters.
-/

namespace Delimited

variable {α : Type}

/-- A piece ends at the first delimiter. -/
theorem append_cons_inj {d : α} {a b s t : List α} (ha : d ∉ a) (hb : d ∉ b)
    (h : a ++ d :: s = b ++ d :: t) : a = b ∧ s = t := by
  induction a generalizing b with
  | nil =>
    cases b with
    | nil => exact ⟨rfl, (List.cons.inj h).2⟩
    | cons y b =>
      obtain ⟨rfl, -⟩ := List.cons.inj h
      exact absurd (List.mem_cons_self ..) hb
  | cons x a ih =>
    cases b with
    | nil =>
      obtain ⟨rfl, -⟩ := List.cons.inj h
      exact absurd (List.mem_cons_self ..) ha
    | cons y b =>
      obtain ⟨rfl, htail⟩ := List.cons.inj h
      obtain ⟨rfl, hrest⟩ := ih (fun hd => ha (List.mem_cons_of_mem _ hd))
        (fun hd => hb (List.mem_cons_of_mem _ hd)) htail
      exact ⟨rfl, hrest⟩

/-- A text without delimiters is no longer one with a delimiter in it. -/
theorem ne_append_cons {d : α} {a b t : List α} (ha : d ∉ a) : a ≠ b ++ d :: t := by
  intro h
  rw [h] at ha
  exact ha (List.mem_append_right _ (List.mem_cons_self ..))

/-- **Joined pieces can be read back.** -/
theorem intercalate_inj (d : α) (sep : List α) :
    ∀ {xs ys : List (List α)}, xs ≠ [] → ys ≠ [] → (∀ x ∈ xs, d ∉ x) → (∀ y ∈ ys, d ∉ y) →
      (d :: sep).intercalate xs = (d :: sep).intercalate ys → xs = ys
  | [x], [y], _, _, _, _, h => by
    rw [List.intercalate_singleton, List.intercalate_singleton] at h
    rw [h]
  | [x], y :: y' :: ys, _, _, hx, _, h => by
    rw [List.intercalate_singleton, List.intercalate_cons_cons, List.append_assoc,
      List.cons_append] at h
    exact absurd h (ne_append_cons (hx x (List.mem_cons_self ..)))
  | x :: x' :: xs, [y], _, _, _, hy, h => by
    rw [List.intercalate_singleton, List.intercalate_cons_cons, List.append_assoc,
      List.cons_append] at h
    exact absurd h.symm (ne_append_cons (hy y (List.mem_cons_self ..)))
  | x :: x' :: xs, y :: y' :: ys, _, _, hx, hy, h => by
    rw [List.intercalate_cons_cons, List.intercalate_cons_cons, List.append_assoc,
      List.append_assoc, List.cons_append, List.cons_append] at h
    obtain ⟨rfl, htail⟩ :=
      append_cons_inj (hx x (List.mem_cons_self ..)) (hy y (List.mem_cons_self ..)) h
    rw [intercalate_inj d sep (List.cons_ne_nil _ _) (List.cons_ne_nil _ _)
      (fun z hz => hx z (List.mem_cons_of_mem _ hz)) (fun z hz => hy z (List.mem_cons_of_mem _ hz))
      (List.append_cancel_left htail)]

/-- Joined pieces that are not empty, none at all being the empty text. -/
theorem intercalate_inj_of_ne_nil (d : α) (sep : List α) {xs ys : List (List α)}
    (hx : ∀ x ∈ xs, d ∉ x ∧ x ≠ []) (hy : ∀ y ∈ ys, d ∉ y ∧ y ≠ [])
    (h : (d :: sep).intercalate xs = (d :: sep).intercalate ys) : xs = ys := by
  have hne : ∀ {zs : List (List α)}, (∀ z ∈ zs, d ∉ z ∧ z ≠ []) →
      (d :: sep).intercalate zs = [] → zs = [] := by
    intro zs hz hnil
    match zs with
    | [] => rfl
    | [z] =>
      rw [List.intercalate_singleton] at hnil
      exact absurd hnil (hz z (List.mem_cons_self ..)).2
    | z :: z' :: zs =>
      rw [List.intercalate_cons_cons, List.append_assoc, List.append_eq_nil_iff] at hnil
      exact absurd hnil.1 (hz z (List.mem_cons_self ..)).2
  by_cases hxs : xs = []
  · subst hxs
    exact (hne hy h.symm).symm
  · by_cases hys : ys = []
    · subst hys
      exact hne hx h
    · exact intercalate_inj d sep hxs hys (fun x hxm => (hx x hxm).1) (fun y hym => (hy y hym).1) h

/-- Blocks that begin with a delimiter, as pieces it joins. -/
theorem flatten_cons_eq (d : α) (b : List α) (bs : List (List α)) :
    ((b :: bs).map (d :: ·)).flatten = d :: [d].intercalate (b :: bs) := by
  induction bs generalizing b with
  | nil => simp
  | cons c bs ih =>
    rw [List.map_cons, List.flatten_cons, ih, List.intercalate_cons_cons, List.append_assoc]
    rfl

/-- **Blocks can be read back.** -/
theorem flatten_cons_inj {d : α} {bs cs : List (List α)} (hb : ∀ b ∈ bs, d ∉ b)
    (hc : ∀ c ∈ cs, d ∉ c)
    (h : (bs.map (d :: ·)).flatten = (cs.map (d :: ·)).flatten) : bs = cs := by
  cases bs with
  | nil =>
    cases cs with
    | nil => rfl
    | cons c cs =>
      rw [flatten_cons_eq] at h
      cases h
  | cons b bs =>
    cases cs with
    | nil =>
      rw [flatten_cons_eq] at h
      cases h
    | cons c cs =>
      rw [flatten_cons_eq, flatten_cons_eq] at h
      exact intercalate_inj d [] (List.cons_ne_nil _ _) (List.cons_ne_nil _ _) hb hc
        (List.cons.inj h).2

/-! ## Strings -/

/-- The character does not occur. -/
def Free (c : Char) (s : String) : Prop := c ∉ s.toList

theorem free_empty (c : Char) : Free c "" := by
  simp [Free]

theorem free_append {c : Char} {s t : String} : Free c (s ++ t) ↔ Free c s ∧ Free c t := by
  unfold Free
  rw [String.toList_append, List.mem_append, not_or]

theorem free_ofList {c : Char} {l : List Char} : Free c (String.ofList l) ↔ c ∉ l := by
  rw [Free, String.toList_ofList]

/-- A numeral has no other characters than digits. -/
theorem isDigit_of_mem_toString {c : Char} {n : Nat} (h : c ∈ (toString n).toList) :
    c.isDigit = true := by
  rw [Nat.toString_eq_ofList_toDigits, String.toList_ofList] at h
  exact Nat.isDigit_of_mem_toDigits (by decide) (by decide) h

theorem free_toString {c : Char} (hc : c.isDigit = false) (n : Nat) : Free c (toString n) := by
  intro hmem
  rw [isDigit_of_mem_toString hmem] at hc
  cases hc

theorem free_intercalate {c : Char} {sep : String} {l : List String} (hsep : Free c sep)
    (hl : ∀ s ∈ l, Free c s) : Free c (sep.intercalate l) := by
  induction l with
  | nil => rw [String.intercalate_nil]; exact free_empty c
  | cons s l ih =>
    have hs := hl s (List.mem_cons_self ..)
    have hrest := ih fun t ht => hl t (List.mem_cons_of_mem _ ht)
    by_cases hnil : l = []
    · rw [hnil, String.intercalate_singleton]
      exact hs
    · rw [String.intercalate_cons_of_ne_nil hnil, free_append, free_append]
      exact ⟨⟨hs, hsep⟩, hrest⟩

/-- The bytes of a string. -/
def bytes (s : String) : List UInt8 := s.toByteArray.data.toList

/-- The bytes are those of the characters. -/
theorem bytes_eq (s : String) : bytes s = s.toList.flatMap String.utf8EncodeChar := by
  rw [bytes, ← String.utf8Encode_toList, List.utf8Encode]
  simp

/-- A character of one byte occurs only where its byte does. -/
theorem free_of_bytes {c : Char} {s : String} {b : UInt8} (hb : String.utf8EncodeChar c = [b])
    (h : b ∉ bytes s) : Free c s := by
  intro hc
  refine h ?_
  rw [bytes_eq, List.mem_flatMap]
  exact ⟨c, hc, hb ▸ List.mem_singleton_self b⟩

theorem free_newline {s : String} (h : 0x0A ∉ bytes s) : Free '\n' s :=
  free_of_bytes (by decide) h

/-- A string as one number, so that distinctness is checked on numbers. -/
def key (s : String) : Nat := (bytes s).foldl (fun k b => 256 * k + b.toNat) 0

end Delimited
