import Mathlib.Data.List.Forall2
import Mathlib.Logic.Equiv.Basic

/-!
# Wire formats

A `Format` writes a value and reads it off the front of a string: whatever follows an
encoding is handed back untouched (`dec_enc`), and only encodings are accepted
(`enc_dec`). Unlike the items of a `Codec`, a value may take no room at all.

Formats are put together as records are: `exactly n` raw symbols, one field after the
other (`prod`), a field whose format depends on the one before (`sigma`), `n` items in a
row (`times`), items behind their count (`counted`), and the same bytes under another
type (`map`). Each combinator carries the two proofs of what it builds, so a format that
is written down with them needs none of its own. What follows from the two alone is

> `enc_append_inj`: in front of any two strings, encodings that agree are of one value,
> and so are the strings.
-/

namespace Wire

/-- A writer and its prefix reader. -/
structure Format (α ι : Type) where
  enc : ι → List α
  dec : List α → Option (ι × List α)
  /-- Reading consumes exactly one encoding in front of any suffix. -/
  dec_enc : ∀ i t, dec (enc i ++ t) = some (i, t)
  /-- Only encodings are accepted. -/
  enc_dec : ∀ {s i t}, dec s = some (i, t) → s = enc i ++ t

namespace Format

variable {α ι κ : Type}

section

variable (f : Format α ι)

/-- To be an encoding is to be read back, whatever follows. -/
theorem enc_eq_iff {s : List α} {i : ι} :
    f.enc i = s ↔ ∀ rest, f.dec (s ++ rest) = some (i, rest) := by
  constructor
  · rintro rfl rest
    exact f.dec_enc i rest
  · intro h
    have hs := f.enc_dec (h [])
    rw [List.append_nil, List.append_nil] at hs
    exact hs.symm

/-- **No encoding is the beginning of another one.** -/
theorem enc_append_inj {i j : ι} {s t : List α} (h : f.enc i ++ s = f.enc j ++ t) :
    i = j ∧ s = t := by
  have hi := f.dec_enc i s
  rw [h, f.dec_enc] at hi
  simp only [Option.some.injEq, Prod.mk.injEq] at hi
  exact ⟨hi.1.symm, hi.2.symm⟩

theorem enc_injective : Function.Injective f.enc := by
  intro i j h
  exact (f.enc_append_inj (s := []) (t := []) (by rw [h])).1

end

/-! ## Combinators -/

/-- The same bytes, read as another type. -/
def map (f : Format α ι) (e : ι ≃ κ) : Format α κ where
  enc k := f.enc (e.symm k)
  dec s := (f.dec s).map fun r => (e r.1, r.2)
  dec_enc k t := by rw [f.dec_enc, Option.map_some, e.apply_symm_apply]
  enc_dec := by
    intro s k t h
    obtain ⟨⟨i, t'⟩, hi, hk⟩ := Option.map_eq_some_iff.mp h
    simp only [Prod.mk.injEq] at hk
    obtain ⟨rfl, rfl⟩ := hk
    rw [e.symm_apply_apply]
    exact f.enc_dec hi

/-- A field, then one whose format depends on it. -/
def sigma {κ : ι → Type} (f : Format α ι) (g : ∀ i, Format α (κ i)) :
    Format α (Σ i, κ i) where
  enc p := f.enc p.1 ++ (g p.1).enc p.2
  dec s := (f.dec s).bind fun r => ((g r.1).dec r.2).map fun q => (⟨r.1, q.1⟩, q.2)
  dec_enc p t := by
    rw [List.append_assoc, f.dec_enc, Option.bind_some, (g p.1).dec_enc]
    rfl
  enc_dec := by
    intro s p t h
    obtain ⟨⟨i, s'⟩, hi, hrest⟩ := Option.bind_eq_some_iff.mp h
    obtain ⟨⟨k, t'⟩, hk, hp⟩ := Option.map_eq_some_iff.mp hrest
    simp only [Prod.mk.injEq] at hp
    obtain ⟨rfl, rfl⟩ := hp
    rw [List.append_assoc, ← (g i).enc_dec hk]
    exact f.enc_dec hi

/-- One field after the other. -/
def prod (f : Format α ι) (g : Format α κ) : Format α (ι × κ) :=
  (f.sigma fun _ => g).map (Equiv.sigmaEquivProd ι κ)

@[simp] theorem enc_prod (f : Format α ι) (g : Format α κ) (p : ι × κ) :
    (f.prod g).enc p = f.enc p.1 ++ g.enc p.2 := rfl

/-- Lists of one length. -/
abbrev Exactly (n : Nat) (ι : Type) := { l : List ι // l.length = n }

/-- Exactly `n` symbols, as they are. -/
def exactly (n : Nat) : Format α (Exactly n α) where
  enc v := v.1
  dec s := if h : n ≤ s.length then some (⟨s.take n, List.length_take_of_le h⟩, s.drop n) else none
  dec_enc v t := by
    obtain ⟨l, rfl⟩ := v
    have hle : l.length ≤ (l ++ t).length := by
      rw [List.length_append]
      omega
    rw [dif_pos hle]
    simp only [List.take_left, List.drop_left]
  enc_dec := by
    intro s v t h
    split at h
    next hn =>
      cases h
      exact (List.take_append_drop n s).symm
    next => cases h

section Times

variable (f : Format α ι)

/-- The encodings of some items, one after the other. -/
def encList : List ι → List α
  | [] => []
  | i :: is => f.enc i ++ encList is

/-- So many items. -/
def decList : Nat → List α → Option (List ι × List α)
  | 0, s => some ([], s)
  | n + 1, s => (f.dec s).bind fun r => (decList n r.2).map fun q => (r.1 :: q.1, q.2)

theorem encList_eq_flatten : ∀ is : List ι, f.encList is = (is.map f.enc).flatten
  | [] => rfl
  | i :: is => by rw [encList, encList_eq_flatten is, List.map_cons, List.flatten_cons]

theorem decList_encList (is : List ι) (t : List α) :
    f.decList is.length (f.encList is ++ t) = some (is, t) := by
  induction is with
  | nil => rfl
  | cons i is ih =>
    rw [List.length_cons, decList, encList, List.append_assoc, f.dec_enc, Option.bind_some, ih]
    rfl

theorem encList_decList : ∀ {n : Nat} {s t : List α} {is : List ι},
    f.decList n s = some (is, t) → s = f.encList is ++ t ∧ is.length = n
  | 0, s, t, is, h => by
    rw [decList, Option.some.injEq, Prod.mk.injEq] at h
    obtain ⟨rfl, rfl⟩ := h
    exact ⟨rfl, rfl⟩
  | n + 1, s, t, is, h => by
    rw [decList] at h
    obtain ⟨⟨i, s'⟩, hi, hrest⟩ := Option.bind_eq_some_iff.mp h
    obtain ⟨⟨is', t'⟩, his, hp⟩ := Option.map_eq_some_iff.mp hrest
    simp only [Prod.mk.injEq] at hp
    obtain ⟨rfl, rfl⟩ := hp
    obtain ⟨hs', hlen⟩ := encList_decList his
    refine ⟨?_, congrArg (· + 1) hlen⟩
    rw [encList, List.append_assoc, ← hs']
    exact f.enc_dec hi

/-- Exactly `n` items in a row. -/
def times (n : Nat) : Format α (Exactly n ι) where
  enc v := f.encList v.1
  dec s :=
    match h : f.decList n s with
    | none => none
    | some (is, t) => some (⟨is, (f.encList_decList h).2⟩, t)
  dec_enc v t := by
    obtain ⟨is, rfl⟩ := v
    have hdec := f.decList_encList is t
    split
    next h => exact absurd (h.symm.trans hdec) (by simp)
    next is' t' h =>
      have heq := h.symm.trans hdec
      simp only [Option.some.injEq, Prod.mk.injEq] at heq
      obtain ⟨rfl, rfl⟩ := heq
      rfl
  enc_dec := by
    intro s v t h
    split at h
    next => cases h
    next is t' hd =>
      cases h
      exact (f.encList_decList hd).1

end Times

/-- Lists that are short enough to be counted. -/
abbrev Counted (N : Nat) (ι : Type) := { l : List ι // l.length < N }

/-- A list is its length and as many items. -/
def countedEquiv (N : Nat) (ι : Type) : (Σ n : Fin N, Exactly n ι) ≃ Counted N ι where
  toFun p := ⟨p.2.1, p.2.2.symm ▸ p.1.isLt⟩
  invFun l := ⟨⟨l.1.length, l.2⟩, ⟨l.1, rfl⟩⟩
  left_inv := by
    rintro ⟨⟨n, hn⟩, ⟨l, hl⟩⟩
    change l.length = n at hl
    subst hl
    rfl
  right_inv _ := rfl

/-- A count, and as many items. -/
def counted {N : Nat} (count : Format α (Fin N)) (f : Format α ι) : Format α (Counted N ι) :=
  (count.sigma fun n => f.times n).map (countedEquiv N ι)

theorem enc_counted {N : Nat} (count : Format α (Fin N)) (f : Format α ι) (l : Counted N ι) :
    (count.counted f).enc l = count.enc ⟨l.1.length, l.2⟩ ++ f.encList l.1 := rfl

/-- A count, and as many symbols, as they are. -/
def blob {N : Nat} (count : Format α (Fin N)) : Format α (Counted N α) :=
  (count.sigma fun n => exactly n).map (countedEquiv N α)

theorem enc_blob {N : Nat} (count : Format α (Fin N)) (l : Counted N α) :
    count.blob.enc l = count.enc ⟨l.1.length, l.2⟩ ++ l.1 := rfl

/-! ## Writers that may fail -/

section Writes

variable {ε ξ : Type} (f : Format α ι) (R : ι → ξ → Prop) (w : ξ → Except ε (List α))

/-- On `x` the writer succeeds if `x` stands for some value, and writes that value. -/
def WritesAt (x : ξ) : Prop := ∀ b, w x = .ok b ↔ ∃ i, R i x ∧ f.enc i = b

def Writes : Prop := ∀ x, f.WritesAt R w x

/-- The loop that appends what is written for each item. -/
def appendAll (w : ξ → Except ε (List α)) (acc : List α) (xs : List ξ) : Except ε (List α) :=
  xs.foldlM (fun acc x => (w x).map (acc ++ ·)) acc

theorem appendAll_cons (acc : List α) (x : ξ) (xs : List ξ) :
    appendAll w acc (x :: xs) = (w x).bind fun b => appendAll w (acc ++ b) xs := by
  show ((w x).map (acc ++ ·)).bind (fun acc => appendAll w acc xs) = _
  cases w x with
  | error e => rfl
  | ok b => rfl

variable {f R w}

/-- A loop of writers writes the values one after the other. -/
theorem appendAll_eq_ok_iff : ∀ {xs : List ξ} {acc b : List α}, (∀ x ∈ xs, f.WritesAt R w x) →
    (appendAll w acc xs = .ok b ↔ ∃ is, List.Forall₂ R is xs ∧ acc ++ f.encList is = b)
  | [], acc, b, _ => by
    constructor
    · intro h
      exact ⟨[], List.Forall₂.nil, by rw [encList, List.append_nil]; exact Except.ok.inj h⟩
    · rintro ⟨is, his, hb⟩
      cases his
      rw [encList, List.append_nil] at hb
      rw [← hb]
      rfl
  | x :: xs, acc, b, hw => by
    obtain ⟨hx, hxs⟩ := List.forall_mem_cons.mp hw
    rw [appendAll_cons]
    constructor
    · intro h
      cases hc : w x with
      | error e => rw [hc] at h; cases h
      | ok c =>
        rw [hc] at h
        obtain ⟨i, hi, hc⟩ := (hx c).mp hc
        obtain ⟨is, his, hb⟩ := (appendAll_eq_ok_iff hxs).mp h
        refine ⟨i :: is, List.Forall₂.cons hi his, ?_⟩
        rw [encList, hc, ← List.append_assoc]
        exact hb
    · rintro ⟨is, his, hb⟩
      cases his with
      | cons hi his =>
        rw [(hx _).mpr ⟨_, hi, rfl⟩]
        refine (appendAll_eq_ok_iff hxs).mpr ⟨_, his, ?_⟩
        rw [← hb, encList, List.append_assoc]

end Writes

end Format

end Wire
