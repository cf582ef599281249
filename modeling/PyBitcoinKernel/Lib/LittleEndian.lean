import Mathlib.Data.List.Basic
import Mathlib.Data.Nat.Bitwise
import Mathlib.Data.Nat.Digits.Defs

/-!
# Little-endian byte strings

`fromLE` is the number a little-endian byte string denotes (Mathlib's
`Nat.ofDigits` in base 256) and `toLE w` writes a number into `w` bytes. They
are inverse to each other on numbers that fit (`fromLE_toLE`) and on strings
of the right width (`toLE_fromLE`). `fromSignMagnitude` reads the top bit of the
last byte as a sign, so that zero has two forms of every length
(`fromSignMagnitude_eq_zero_iff`), and a positive number one that is shorter than all
others (`Shortest.le`).
-/

namespace LittleEndian

/-- The number a little-endian byte string denotes. -/
def fromLE (bs : List UInt8) : Nat := Nat.ofDigits 256 (bs.map UInt8.toNat)

/-- The low `w` bytes of `n`, least significant first. -/
def toLE : Nat → Nat → List UInt8
  | 0, _ => []
  | w + 1, n => UInt8.ofNat n :: toLE w (n / 256)

@[simp] theorem fromLE_nil : fromLE [] = 0 := rfl

@[simp] theorem fromLE_cons (b : UInt8) (bs : List UInt8) :
    fromLE (b :: bs) = b.toNat + 256 * fromLE bs := by
  unfold fromLE
  rw [List.map_cons, Nat.ofDigits_cons]

@[simp] theorem toLE_length : ∀ w n : Nat, (toLE w n).length = w
  | 0, _ => rfl
  | w + 1, n => by rw [toLE, List.length_cons, toLE_length w]

/-- A string of `w` bytes denotes a number below `256 ^ w`. -/
theorem fromLE_lt (bs : List UInt8) : fromLE bs < 256 ^ bs.length := by
  have h := Nat.ofDigits_lt_base_pow_length (b := 256) (l := bs.map UInt8.toNat) (by omega) (by
    intro x hx
    obtain ⟨b, -, rfl⟩ := List.mem_map.mp hx
    exact b.toNat_lt)
  rwa [List.length_map] at h

/-- Writing a number that fits and reading it back. -/
theorem fromLE_toLE : ∀ {w n : Nat}, n < 256 ^ w → fromLE (toLE w n) = n
  | 0, n, h => by
    have h0 : n = 0 := by simpa using h
    rw [h0]
    rfl
  | w + 1, n, h => by
    have hdiv : n / 256 < 256 ^ w := by
      rw [Nat.pow_succ] at h
      exact Nat.div_lt_of_lt_mul (by rw [Nat.mul_comm]; exact h)
    rw [toLE, fromLE_cons, fromLE_toLE hdiv, UInt8.toNat_ofNat']
    exact Nat.mod_add_div n 256

/-- Reading a string and writing the number back into as many bytes. -/
theorem toLE_fromLE : ∀ bs : List UInt8, toLE bs.length (fromLE bs) = bs
  | [] => rfl
  | b :: bs => by
    have hb : b.toNat < 256 := b.toNat_lt
    have hdiv : (b.toNat + 256 * fromLE bs) / 256 = fromLE bs := by omega
    have hlow : UInt8.ofNat (b.toNat + 256 * fromLE bs) = b := by
      apply UInt8.toNat_inj.mp
      rw [UInt8.toNat_ofNat']
      omega
    rw [List.length_cons, fromLE_cons, toLE, hdiv, hlow, toLE_fromLE bs]

theorem fromLE_eq_zero_iff {bs : List UInt8} : fromLE bs = 0 ↔ ∀ b ∈ bs, b = 0 := by
  induction bs with
  | nil => exact iff_of_true rfl fun _ hb => absurd hb List.not_mem_nil
  | cons b bs ih =>
    rw [fromLE_cons, List.forall_mem_cons, ← ih, ← UInt8.toNat_inj]
    show b.toNat + 256 * fromLE bs = 0 ↔ b.toNat = 0 ∧ fromLE bs = 0
    omega

theorem fromLE_append (as bs : List UInt8) :
    fromLE (as ++ bs) = fromLE as + 256 ^ as.length * fromLE bs := by
  unfold fromLE
  rw [List.map_append, Nat.ofDigits_append, List.length_map]

theorem fromLE_singleton (b : UInt8) : fromLE [b] = b.toNat := by
  rw [fromLE_cons, fromLE_nil, Nat.mul_zero, Nat.add_zero]

/-- Among strings of one length, the number determines the string. -/
theorem fromLE_inj {as bs : List UInt8} (hlen : as.length = bs.length)
    (h : fromLE as = fromLE bs) : as = bs := by
  rw [← toLE_fromLE as, ← toLE_fromLE bs, hlen, h]

/-! ## Sign and magnitude -/

/-- The number denoted if the top bit of the last byte is the sign, and the other bits
are the magnitude; the empty string denotes 0. -/
def fromSignMagnitude (bs : List UInt8) : Int :=
  match bs.getLast? with
  | none => 0
  | some top =>
    let magnitude : Int := fromLE (bs.dropLast ++ [top &&& 0x7F])
    if top &&& 0x80 = 0 then magnitude else -magnitude

/-- Without its top bit, a byte is zero if it was or if that was all of it. -/
theorem and_0x7F_eq_zero_iff (t : UInt8) : t &&& 0x7F = 0 ↔ t = 0 ∨ t = 0x80 := by
  have ht : t.toNat < 256 := t.toNat_lt
  have hlow : (t &&& 0x7F).toNat = t.toNat % 2 ^ 7 := Nat.and_two_pow_sub_one_eq_mod t.toNat 7
  rw [← UInt8.toNat_inj, ← UInt8.toNat_inj, ← UInt8.toNat_inj, hlow]
  show t.toNat % 2 ^ 7 = 0 ↔ t.toNat = 0 ∨ t.toNat = 128
  omega

/-- **Zero has two forms of every length**: all bytes are zero, but for the sign. -/
theorem fromSignMagnitude_eq_zero_iff (bs : List UInt8) (t : UInt8) :
    fromSignMagnitude (bs ++ [t]) = 0 ↔ (∀ b ∈ bs, b = 0) ∧ (t = 0 ∨ t = 0x80) := by
  have hzero : (fromLE (bs ++ [t &&& 0x7F]) : Int) = 0 ↔
      (∀ b ∈ bs, b = 0) ∧ (t = 0 ∨ t = 0x80) := by
    rw [Int.natCast_eq_zero, fromLE_eq_zero_iff, List.forall_mem_append, List.forall_mem_singleton,
      and_0x7F_eq_zero_iff]
  unfold fromSignMagnitude
  rw [List.getLast?_concat, List.dropLast_concat]
  dsimp only
  split
  next => exact hzero
  next => rw [Int.neg_eq_zero, hzero]

/-! ## The shortest form of a positive number -/

theorem and_0x80_eq_zero_iff (t : UInt8) : t &&& 0x80 = 0 ↔ t.toNat < 128 := by
  have ht : t.toNat < 256 := t.toNat_lt
  have htop : (t &&& 0x80).toNat = 2 ^ 7 * (t.toNat.testBit 7).toNat :=
    (Nat.and_comm t.toNat (2 ^ 7)).trans (Nat.two_pow_and t.toNat 7)
  have hbit : t.toNat.testBit 7 = decide (t.toNat / 128 % 2 = 1) :=
    Nat.testBit_eq_decide_div_mod_eq
  rw [← UInt8.toNat_inj, htop, hbit]
  show _ = 0 ↔ _
  by_cases h : t.toNat / 128 % 2 = 1
  · rw [decide_eq_true h]
    exact iff_of_false (by decide) (by omega)
  · rw [decide_eq_false h]
    exact iff_of_true rfl (by omega)

theorem and_0x7F_of_lt {t : UInt8} (h : t.toNat < 128) : t &&& 0x7F = t := by
  have hlow : (t &&& 0x7F).toNat = t.toNat % 2 ^ 7 := Nat.and_two_pow_sub_one_eq_mod t.toNat 7
  rw [← UInt8.toNat_inj, hlow]
  omega

/-- Without the sign bit, a string denotes what it denotes without a sign. -/
theorem fromSignMagnitude_of_lt {bs : List UInt8} {t : UInt8} (h : t.toNat < 128) :
    fromSignMagnitude (bs ++ [t]) = fromLE (bs ++ [t]) := by
  unfold fromSignMagnitude
  rw [List.getLast?_concat, List.dropLast_concat]
  dsimp only
  rw [if_pos ((and_0x80_eq_zero_iff t).mpr h), and_0x7F_of_lt h]

/-- A positive number has no sign bit. -/
theorem lt_of_fromSignMagnitude_pos {bs : List UInt8} {t : UInt8}
    (h : 0 < fromSignMagnitude (bs ++ [t])) : t.toNat < 128 := by
  refine Classical.byContradiction fun hno => ?_
  have hsign : ¬ t &&& 0x80 = 0 := fun h0 => hno ((and_0x80_eq_zero_iff t).mp h0)
  unfold fromSignMagnitude at h
  rw [List.getLast?_concat, List.dropLast_concat] at h
  dsimp only at h
  rw [if_neg hsign] at h
  omega

/-- A form of the positive number `n` that leaves out every byte it can: one less would
have no room for `n` and the sign. -/
structure Shortest (n : Nat) (bs : List UInt8) : Prop where
  pos : 0 < n
  value : fromSignMagnitude bs = n
  tight : 2 ≤ bs.length → 128 * 256 ^ (bs.length - 2) ≤ n

/-- What a form has room for. -/
theorem lt_of_fromSignMagnitude {n : Nat} {bs : List UInt8} (hn : 0 < n)
    (h : fromSignMagnitude bs = n) :
    0 < bs.length ∧ n < 128 * 256 ^ (bs.length - 1) ∧ fromLE bs = n := by
  rcases List.eq_nil_or_concat' bs with rfl | ⟨as, t, rfl⟩
  · have hzero : (n : Int) = 0 := h.symm
    omega
  · have ht : t.toNat < 128 := lt_of_fromSignMagnitude_pos (by rw [h]; omega)
    rw [fromSignMagnitude_of_lt ht] at h
    have hval : fromLE (as ++ [t]) = n := by exact_mod_cast h
    refine ⟨by simp, ?_, hval⟩
    have has := fromLE_lt as
    rw [fromLE_append, fromLE_singleton] at hval
    rw [List.length_append, List.length_singleton, Nat.add_sub_cancel]
    have hmul := Nat.mul_le_mul_left (256 ^ as.length) (Nat.le_of_lt_succ ht)
    omega

/-- **The shortest form is shorter than any other**, and there is only one. -/
theorem Shortest.le {n : Nat} {bs cs : List UInt8} (hs : Shortest n bs)
    (h : fromSignMagnitude cs = n) : bs.length < cs.length ∨ bs = cs := by
  obtain ⟨hbpos, -, hbval⟩ := lt_of_fromSignMagnitude hs.pos hs.value
  obtain ⟨hcpos, hclt, hcval⟩ := lt_of_fromSignMagnitude hs.pos h
  rcases Nat.lt_trichotomy bs.length cs.length with hlt | heq | hgt
  · exact Or.inl hlt
  · exact Or.inr (fromLE_inj heq (hbval.trans hcval.symm))
  · have htight := hs.tight (by omega)
    have hmono : 256 ^ (cs.length - 1) ≤ 256 ^ (bs.length - 2) :=
      Nat.pow_le_pow_right (by decide) (by omega)
    omega

end LittleEndian
