/-!
# Self-delimiting codecs

A `Codec` reads one item off the front of a string and knows where the item
ends: whatever follows an encoding is handed back untouched (`dec_enc`), and
only encodings are ever accepted (`enc_dec`). Iterating such a reader cuts any
string, in exactly one way, into a list of items and a *stuck* remainder on
which the reader fails:

> `decodeAll_eq_iff`: `decodeAll s = (is, r)` iff `s = encodeAll is ++ r` and
> `dec r = none`.

In particular decoding undoes encoding in front of any suffix
(`decodeAll_encodeAll_append`). `Codec.induct` is the matching induction
principle on strings: the stuck ones, and one item followed by a string already
treated.
-/

/-- A one-item writer and its prefix reader. -/
structure Codec (α ι : Type) where
  enc : ι → List α
  dec : List α → Option (ι × List α)
  /-- Reading consumes exactly one encoding in front of any suffix. -/
  dec_enc : ∀ i t, dec (enc i ++ t) = some (i, t)
  /-- Only encodings are accepted. -/
  enc_dec : ∀ {s i t}, dec s = some (i, t) → s = enc i ++ t
  /-- Every item takes room, so iterated reading ends. -/
  enc_ne_nil : ∀ i, enc i ≠ []

namespace Codec

variable {α ι : Type} (c : Codec α ι)

/-- A successful read leaves a shorter string. -/
theorem dec_length {s t : List α} {i : ι} (h : c.dec s = some (i, t)) :
    t.length < s.length := by
  have hs := c.enc_dec h
  have hpos : 0 < (c.enc i).length := List.length_pos_iff.mpr (c.enc_ne_nil i)
  rw [hs, List.length_append]
  omega

/-- The encodings of a list of items, one after the other. -/
def encodeAll : List ι → List α
  | [] => []
  | i :: is => c.enc i ++ encodeAll is

@[simp] theorem encodeAll_cons (i : ι) (is : List ι) :
    c.encodeAll (i :: is) = c.enc i ++ c.encodeAll is := rfl

theorem encodeAll_append (is js : List ι) :
    c.encodeAll (is ++ js) = c.encodeAll is ++ c.encodeAll js := by
  induction is with
  | nil => rfl
  | cons i is ih => rw [List.cons_append, encodeAll_cons, encodeAll_cons, ih, List.append_assoc]

/-- Read items until the reader fails; the items and the remainder. -/
def decodeAll (s : List α) : List ι × List α :=
  match _h : c.dec s with
  | none => ([], s)
  | some (i, t) => (i :: (decodeAll t).1, (decodeAll t).2)
  termination_by s.length
  decreasing_by all_goals exact c.dec_length _h

/-- Induction on how a string is read: either the reader is stuck, or it reads
one item and the claim is known of what follows. -/
theorem induct {P : List α → Prop} (stuck : ∀ s, c.dec s = none → P s)
    (read : ∀ i t, P t → P (c.enc i ++ t)) (s : List α) : P s := by
  cases h : c.dec s with
  | none => exact stuck s h
  | some p =>
    obtain ⟨i, t⟩ := p
    rw [c.enc_dec h]
    exact read i t (induct stuck read t)
  termination_by s.length
  decreasing_by exact c.dec_length h

theorem decodeAll_stuck {s : List α} (h : c.dec s = none) : c.decodeAll s = ([], s) := by
  rw [decodeAll]
  split
  next => rfl
  next hs => rw [h] at hs; exact absurd hs (by simp)

theorem decodeAll_read (i : ι) (t : List α) :
    c.decodeAll (c.enc i ++ t) = (i :: (c.decodeAll t).1, (c.decodeAll t).2) := by
  rw [decodeAll]
  split
  next hs => rw [c.dec_enc] at hs; exact absurd hs (by simp)
  next hs =>
    rw [c.dec_enc] at hs
    simp only [Option.some.injEq, Prod.mk.injEq] at hs
    rw [hs.1, hs.2]

/-- Decoding undoes encoding, whatever follows. -/
theorem decodeAll_encodeAll_append (is : List ι) (t : List α) :
    c.decodeAll (c.encodeAll is ++ t) = (is ++ (c.decodeAll t).1, (c.decodeAll t).2) := by
  induction is with
  | nil => rfl
  | cons i is ih =>
    rw [encodeAll_cons, List.append_assoc, decodeAll_read, ih]
    rfl

/-- Nothing is lost: the items read and the remainder spell the string. -/
theorem encodeAll_decodeAll (s : List α) :
    c.encodeAll (c.decodeAll s).1 ++ (c.decodeAll s).2 = s := by
  induction s using c.induct with
  | stuck s h => rw [c.decodeAll_stuck h]; rfl
  | read i t ih => rw [decodeAll_read, encodeAll_cons, List.append_assoc, ih]

/-- The reader is stuck on the remainder. -/
theorem dec_remainder (s : List α) : c.dec (c.decodeAll s).2 = none := by
  induction s using c.induct with
  | stuck s h => rw [c.decodeAll_stuck h]; exact h
  | read i t ih => rw [decodeAll_read]; exact ih

/-- **Unique decomposition**: the items and the remainder are the only way to
write the string as encodings followed by something the reader rejects. -/
theorem decodeAll_eq_iff {s r : List α} {is : List ι} :
    c.decodeAll s = (is, r) ↔ s = c.encodeAll is ++ r ∧ c.dec r = none := by
  constructor
  · intro h
    have hs := c.encodeAll_decodeAll s
    have hr := c.dec_remainder s
    rw [h] at hs hr
    exact ⟨hs.symm, hr⟩
  · intro h
    obtain ⟨rfl, hr⟩ := h
    rw [decodeAll_encodeAll_append, c.decodeAll_stuck hr, List.append_nil]

end Codec
