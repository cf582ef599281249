import Mathlib.Data.List.Forall2
import PyBitcoinKernel.Lib.LittleEndian
import PyBitcoinKernel.Script.Instruction
import PyBitcoinKernel.Script.Opcode

/-!
# Stack items

What the formatted trace shows of a stack, and when it calls an item false.

`_cast_to_bool` stops at the first byte that is not zero, and only a sign bit in the
last place is still false there: the items it takes for false are the ones that
denote zero.

> `castToBool_eq_false_iff`: an item is false exactly if it is zero or negative zero.

With a limit, an item beyond it is cut and its length is printed behind the cut.
No character of an item is a comma or a bracket, so a stack shows its items one by
one (`renderStack_append_inj`), and an item that is empty, whole or cut is told from
the others by its `x` or its `.` (`renderItem_eq_iff`).

> `renderStack_faithful`: two stacks are shown alike exactly if they differ only in
> what the limit cuts off.
-/

namespace PyBitcoinKernel.Trace

open PyBitcoinKernel.Script Delimited LittleEndian
open Hex (hex)

/-! ## The truth of an item -/

/-- The loop of `_cast_to_bool` from index `i` on, for an item of `n` bytes. -/
def castToBoolFrom (n : Nat) : Nat → Bytes → Bool
  | _, [] => false
  | i, b :: rest =>
    if b ≠ 0 then !(i + 1 = n ∧ b = 0x80) else castToBoolFrom n (i + 1) rest

/-- `_cast_to_bool`. -/
def castToBool (item : Bytes) : Bool := castToBoolFrom item.length 0 item

/-- What the loop finds in the bytes that are left, of which the last is `t`. -/
theorem castToBoolFrom_eq_false_iff {n : Nat} (t : UInt8) :
    ∀ (l : Bytes) {i : Nat}, i + l.length + 1 = n →
      (castToBoolFrom n i (l ++ [t]) = false ↔ (∀ b ∈ l, b = 0) ∧ (t = 0 ∨ t = 0x80))
  | [], i, hn => by
    have hlast : i + 1 = n := hn
    rw [List.nil_append, castToBoolFrom, castToBoolFrom]
    by_cases ht : t = 0
    · rw [if_neg (not_not.mpr ht)]
      exact iff_of_true rfl ⟨fun _ hb => absurd hb List.not_mem_nil, Or.inl ht⟩
    · rw [if_pos ht]
      by_cases ht' : t = 0x80
      · exact iff_of_true (by simp [hlast, ht'])
          ⟨fun _ hb => absurd hb List.not_mem_nil, Or.inr ht'⟩
      · refine iff_of_false (by simp [ht']) ?_
        rintro ⟨-, h | h⟩
        · exact ht h
        · exact ht' h
  | b :: l, i, hn => by
    rw [List.length_cons] at hn
    rw [List.cons_append, castToBoolFrom, List.forall_mem_cons]
    by_cases hb : b = 0
    · rw [if_neg (not_not.mpr hb), castToBoolFrom_eq_false_iff t l (by omega), and_assoc]
      exact (and_iff_right hb).symm
    · -- There is a byte behind this one, so it is no sign.
      have hinner : i + 1 ≠ n := by omega
      rw [if_pos hb]
      exact iff_of_false (by simp [hinner]) fun h => hb h.1.1

/-- **An item is false exactly if it denotes zero.** -/
theorem castToBool_eq_false_iff (v : Bytes) : castToBool v = false ↔ fromSignMagnitude v = 0 := by
  rcases List.eq_nil_or_concat v with rfl | ⟨l, t, rfl⟩
  · exact iff_of_true rfl rfl
  · rw [List.concat_eq_append, fromSignMagnitude_eq_zero_iff, castToBool]
    exact castToBoolFrom_eq_false_iff t l (by simp)

/-! ## Items and stacks -/

/-- Python's `s[:keep]`. -/
def sliceTo (s : List Char) (keep : Int) : List Char :=
  s.take (if keep < 0 then s.length + keep else keep).toNat

/-- `_render_item`. -/
def renderItem (item : Bytes) (maxItemBytes : Option Int) : String :=
  if item = [] then "0x"
  else match maxItemBytes with
    | some m =>
      if item.length > m then
        String.ofList (sliceTo (hex item) (m * 2)) ++ "...(" ++ toString item.length ++ " bytes)"
      else String.ofList (hex item)
    | none => String.ofList (hex item)

/-- `_render_stack`. -/
def renderStack (stack : List Bytes) (maxItemBytes : Option Int) : String :=
  if stack = [] then "[]"
  else "[" ++ ", ".intercalate (stack.map (renderItem · maxItemBytes)) ++ "]"

/-- The limit cuts the item. -/
def Cut (m : Option Nat) (item : Bytes) : Prop := ∃ k, m = some k ∧ k < item.length

/-- All that a limit may hide: what two items of one length have behind it. -/
def ShownAlike (m : Option Nat) (x y : Bytes) : Prop :=
  x = y ∨ ∃ k, m = some k ∧ k < x.length ∧ k < y.length ∧ x.length = y.length ∧
    x.take k = y.take k

/-- An item is printed as `0x`, with all its digits, or cut. -/
theorem renderItem_cases (item : Bytes) (m : Option Int) :
    item = [] ∧ renderItem item m = "0x" ∨
      item ≠ [] ∧ (∀ k, m = some k → item.length ≤ k) ∧
        renderItem item m = String.ofList (hex item) ∨
      ∃ k, m = some k ∧ k < item.length ∧ renderItem item m =
        String.ofList (sliceTo (hex item) (k * 2)) ++ "...(" ++ toString item.length ++
          " bytes)" := by
  unfold renderItem
  by_cases h : item = []
  · exact Or.inl ⟨h, if_pos h⟩
  · rw [if_neg h]
    cases m with
    | none => exact Or.inr (Or.inl ⟨h, fun k hk => absurd hk (by simp), rfl⟩)
    | some k =>
      by_cases hk : (item.length : Int) > k
      · exact Or.inr (Or.inr ⟨k, rfl, hk, if_pos hk⟩)
      · refine Or.inr (Or.inl ⟨h, ?_, if_neg hk⟩)
        intro k' hk'
        rw [← Option.some.inj hk']
        omega

/-- No item has a character that stands between items, or ends a stack or a line. -/
theorem free_renderItem {c : Char} (hc : c = ',' ∨ c = ']' ∨ c = '\n') (item : Bytes)
    (m : Option Int) : Free c (renderItem item m) := by
  have htext : Free c "0x" ∧ Free c "...(" ∧ Free c " bytes)" := by
    rcases hc with rfl | rfl | rfl
    · have hb : String.utf8EncodeChar ',' = [0x2C] := by decide
      exact ⟨free_of_bytes hb (by decide +kernel), free_of_bytes hb (by decide +kernel),
        free_of_bytes hb (by decide +kernel)⟩
    · have hb : String.utf8EncodeChar ']' = [0x5D] := by decide
      exact ⟨free_of_bytes hb (by decide +kernel), free_of_bytes hb (by decide +kernel),
        free_of_bytes hb (by decide +kernel)⟩
    · exact ⟨free_newline (by decide +kernel), free_newline (by decide +kernel),
        free_newline (by decide +kernel)⟩
  have hhex : c ∉ hex item := by
    intro hmem
    have hdigit := Hex.mem_lowerDigits_of_mem_hex hmem
    rcases hc with rfl | rfl | rfl <;> exact absurd hdigit (by decide)
  have hdigit : c.isDigit = false := by
    rcases hc with rfl | rfl | rfl <;> rfl
  rcases renderItem_cases item m with ⟨-, h⟩ | ⟨-, -, h⟩ | ⟨k, -, -, h⟩
  · rw [h]
    exact htext.1
  · rw [h]
    exact free_ofList.mpr hhex
  · rw [h, free_append, free_append, free_append]
    exact ⟨⟨⟨free_ofList.mpr fun hmem => hhex (List.mem_of_mem_take hmem), htext.2.1⟩,
      free_toString hdigit _⟩, htext.2.2⟩

theorem renderItem_ne_nil (item : Bytes) (m : Option Int) : (renderItem item m).toList ≠ [] := by
  rcases renderItem_cases item m with ⟨-, h⟩ | ⟨hne, -, h⟩ | ⟨k, -, -, h⟩
  · rw [h]
    exact List.cons_ne_nil '0' ['x']
  · rw [h, String.toList_ofList]
    exact fun hnil => hne (Hex.hex_eq_nil_iff.mp hnil)
  · rw [h]
    simp

/-- What stands between the brackets. -/
def stackItems (stack : List Bytes) (maxItemBytes : Option Int) : String :=
  ", ".intercalate (stack.map (renderItem · maxItemBytes))

theorem renderStack_eq (stack : List Bytes) (m : Option Int) :
    renderStack stack m = "[" ++ stackItems stack m ++ "]" := by
  unfold renderStack stackItems
  by_cases h : stack = []
  · subst h
    rfl
  · rw [if_neg h]

theorem free_stackItems {c : Char} (hc : c = ']' ∨ c = '\n') (stack : List Bytes)
    (m : Option Int) : Free c (stackItems stack m) := by
  refine free_intercalate ?_ ?_
  · rcases hc with rfl | rfl
    · exact free_of_bytes (b := 0x5D) (by decide) (by decide +kernel)
    · exact free_newline (by decide +kernel)
  · intro s hs
    obtain ⟨item, -, rfl⟩ := List.mem_map.mp hs
    exact free_renderItem (Or.inr hc) item m

theorem stackItems_inj {s t : List Bytes} {m : Option Int} (h : stackItems s m = stackItems t m) :
    s.map (renderItem · m) = t.map (renderItem · m) := by
  have hpiece : ∀ stack : List Bytes, ∀ x ∈ (stack.map (renderItem · m)).map String.toList,
      ',' ∉ x ∧ x ≠ [] := by
    intro stack x hx
    rw [List.map_map] at hx
    obtain ⟨item, -, rfl⟩ := List.mem_map.mp hx
    exact ⟨free_renderItem (Or.inl rfl) item m, renderItem_ne_nil item m⟩
  have hlist := congrArg String.toList h
  rw [stackItems, stackItems, String.toList_intercalate, String.toList_intercalate] at hlist
  have hmap := intercalate_inj_of_ne_nil ',' [' '] (hpiece s) (hpiece t) hlist
  exact List.map_injective_iff.mpr (fun _ _ => String.toList_inj.mp) hmap

/-- **A stack shows its items one by one**, and it ends at its bracket, whatever stands
behind it. -/
theorem renderStack_append_inj {s t : List Bytes} {m : Option Int} {u v : String}
    (h : renderStack s m ++ u = renderStack t m ++ v) :
    s.map (renderItem · m) = t.map (renderItem · m) ∧ u = v := by
  rw [renderStack_eq, renderStack_eq] at h
  have hlist : (stackItems s m).toList ++ ']' :: u.toList =
      (stackItems t m).toList ++ ']' :: v.toList := by
    simpa using congrArg String.toList h
  obtain ⟨hitems, hrest⟩ := append_cons_inj (free_stackItems (Or.inl rfl) s m)
    (free_stackItems (Or.inl rfl) t m) hlist
  exact ⟨stackItems_inj (String.toList_inj.mp hitems), String.toList_inj.mp hrest⟩

theorem free_renderStack (stack : List Bytes) (m : Option Int) :
    Free '\n' (renderStack stack m) := by
  rw [renderStack_eq, free_append, free_append]
  exact ⟨⟨free_newline (by decide +kernel), free_stackItems (Or.inr rfl) stack m⟩,
    free_newline (by decide +kernel)⟩

/-! ## What a limit hides -/

/-- A limit that is a natural number, or none. -/
def limit (m : Option Nat) : Option Int := m.map fun k : Nat => (k : Int)

/-- The characters of an item: the digits of a cut one are those of the bytes within
the limit. -/
theorem toList_renderItem (item : Bytes) (m : Option Nat) :
    item = [] ∧ (renderItem item (limit m)).toList = ['0', 'x'] ∨
      item ≠ [] ∧ ¬ Cut m item ∧ (renderItem item (limit m)).toList = hex item ∨
      ∃ k, m = some k ∧ k < item.length ∧ (renderItem item (limit m)).toList =
        hex (item.take k) ++ '.' :: ("..(" ++ toString item.length ++ " bytes)").toList := by
  rcases renderItem_cases item (limit m) with ⟨hnil, h⟩ | ⟨hne, hall, h⟩ | ⟨n, hm, hn, h⟩
  · rw [h]
    exact Or.inl ⟨hnil, rfl⟩
  · rw [h, String.toList_ofList]
    refine Or.inr (Or.inl ⟨hne, ?_, rfl⟩)
    rintro ⟨k, rfl, hk⟩
    have := hall k rfl
    omega
  · obtain ⟨k, rfl, rfl⟩ := Option.map_eq_some_iff.mp hm
    have hslice : sliceTo (hex item) ((k : Int) * 2) = hex (item.take k) := by
      have hkeep : ((k : Int) * 2).toNat = 2 * k := by omega
      rw [sliceTo, if_neg (by omega), hkeep, Hex.take_hex]
    refine Or.inr (Or.inr ⟨k, rfl, by omega, ?_⟩)
    rw [h, hslice]
    simp

/-- **Two items are shown alike** exactly if they differ only behind the limit. -/
theorem renderItem_eq_iff (x y : Bytes) (m : Option Nat) :
    renderItem x (limit m) = renderItem y (limit m) ↔ ShownAlike m x y := by
  have hdot : ∀ {u : Bytes}, '.' ∉ hex u := fun hmem =>
    absurd (Hex.mem_lowerDigits_of_mem_hex hmem) (by decide)
  have hx : ∀ {u : Bytes}, ['0', 'x'] ≠ hex u := by
    intro u hu
    have hmem : 'x' ∈ hex u := hu ▸ List.mem_cons_of_mem '0' (List.mem_singleton_self 'x')
    exact absurd (Hex.mem_lowerDigits_of_mem_hex hmem) (by decide)
  rw [← String.toList_inj]
  constructor
  · intro h
    -- Only an empty item has an `x` and only a cut one a `.`, so both have one form.
    rcases toList_renderItem x m with ⟨hxn, hxs⟩ | ⟨-, -, hxs⟩ | ⟨k, hm, hxk, hxs⟩ <;>
      rcases toList_renderItem y m with ⟨hyn, hys⟩ | ⟨-, -, hys⟩ | ⟨j, hm', hyk, hys⟩ <;>
      rw [hxs, hys] at h
    · exact Or.inl (hxn.trans hyn.symm)
    · exact absurd h hx
    · exact absurd h (ne_append_cons (by decide))
    · exact absurd h.symm hx
    · exact Or.inl (Hex.hex_inj h)
    · exact absurd h (ne_append_cons hdot)
    · exact absurd h.symm (ne_append_cons (by decide))
    · exact absurd h.symm (ne_append_cons hdot)
    · obtain rfl : k = j := Option.some.inj (hm.symm.trans hm')
      obtain ⟨hhex, hrest⟩ := append_cons_inj hdot hdot h
      have hlen := String.toList_inj.mp hrest
      rw [String.append_left_inj, String.append_right_inj] at hlen
      exact Or.inr ⟨k, hm, hxk, hyk, toString_nat_inj hlen, Hex.hex_inj hhex⟩
  · rintro (rfl | ⟨k, rfl, hxk, hyk, hlen, htake⟩)
    · rfl
    · have hcut : ∀ {z : Bytes}, k < z.length → (renderItem z (limit (some k))).toList =
          hex (z.take k) ++ '.' :: ("..(" ++ toString z.length ++ " bytes)").toList := by
        intro z hz
        rcases toList_renderItem z (some k) with ⟨rfl, -⟩ | ⟨-, hno, -⟩ | ⟨j, hj, -, hzs⟩
        · cases hz
        · exact absurd ⟨k, rfl, hz⟩ hno
        · rw [hzs, Option.some.inj hj]
      rw [hcut hxk, hcut hyk, hlen, htake]

/-- Without a limit nothing is hidden. -/
theorem renderStack_inj {s t : List Bytes} {u v : String}
    (h : renderStack s none ++ u = renderStack t none ++ v) : s = t ∧ u = v := by
  obtain ⟨hitems, hrest⟩ := renderStack_append_inj h
  refine ⟨List.map_injective_iff.mpr ?_ hitems, hrest⟩
  intro x y hxy
  rcases (renderItem_eq_iff x y none).mp hxy with rfl | ⟨k, hk, -⟩
  · rfl
  · cases hk

/-- Items of the same lengths that concatenate to the same bytes are the same. -/
theorem eq_of_flatten_eq {m : Option Nat} {s t : List Bytes}
    (h : List.Forall₂ (ShownAlike m) s t) (hflat : s.flatten = t.flatten) : s = t := by
  induction h with
  | nil => rfl
  | @cons x y s t hxy _ ih =>
    rw [List.flatten_cons, List.flatten_cons] at hflat
    have hlen : x.length = y.length := by
      rcases hxy with rfl | ⟨-, -, -, -, hlen, -⟩
      · rfl
      · exact hlen
    obtain ⟨rfl, hrest⟩ := List.append_inj hflat hlen
    rw [ih hrest]

theorem renderStack_eq_iff (s t : List Bytes) (m : Option Nat) :
    renderStack s (limit m) = renderStack t (limit m) ↔ List.Forall₂ (ShownAlike m) s t := by
  have hitems : List.Forall₂ (ShownAlike m) s t ↔
      s.map (renderItem · (limit m)) = t.map (renderItem · (limit m)) := by
    rw [← List.forall₂_eq_eq_eq, List.forall₂_map_left_iff, List.forall₂_map_right_iff]
    simp only [renderItem_eq_iff]
  rw [hitems]
  constructor
  · intro h
    have happend : renderStack s (limit m) ++ "" = renderStack t (limit m) ++ "" := by rw [h]
    exact (renderStack_append_inj happend).1
  · intro h
    rw [renderStack_eq, renderStack_eq, stackItems, stackItems, h]

/-- **Rendering hides exactly what the limit cuts off.** -/
theorem renderStack_faithful (m : Option Nat) (s t : List Bytes) :
    (renderStack s (limit m) = renderStack t (limit m) ↔
      s.length = t.length ∧ ∀ i (hs : i < s.length) (ht : i < t.length),
        ShownAlike m (s.get ⟨i, hs⟩) (t.get ⟨i, ht⟩)) ∧
    renderStack [] (limit m) ≠ renderStack [[]] (limit m) ∧
    (s ≠ t → s.flatten = t.flatten → renderStack s (limit m) ≠ renderStack t (limit m)) := by
  refine ⟨?_, ?_, ?_⟩
  · rw [renderStack_eq_iff, List.forall₂_iff_get]
  · intro h
    cases (renderStack_eq_iff _ _ _).mp h
  · intro hne hflat h
    exact hne (eq_of_flatten_eq ((renderStack_eq_iff _ _ _).mp h) hflat)

end PyBitcoinKernel.Trace
