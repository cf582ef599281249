/-!
# Hexadecimal digits

`hex02` is the `:02x` format of a number: lower-case base-16 digits, padded
with zeros to at least two. On a byte it is exactly two digits
(`hex02_of_lt`), and no two bytes share them (`hex02_inj`). `hex` writes a byte
string so, two digits a byte (`take_hex`), and loses nothing (`hex_inj`). `unhex` reads
such strings and what people write instead, in capitals and with blanks between the bytes;
what it reads from lower-case digits alone is written like that again (`hex_of_unhex`).
-/

namespace Hex

/-- Base-16 digits of `n`, at least two of them. -/
def hex02 (n : Nat) : List Char :=
  List.replicate (2 - (Nat.toDigits 16 n).length) '0' ++ Nat.toDigits 16 n

/-- A byte is written with two digits, high nibble first. -/
theorem hex02_of_lt {n : Nat} (h : n < 256) :
    hex02 n = [Nat.digitChar (n / 16), Nat.digitChar (n % 16)] := by
  unfold hex02
  by_cases hn : n < 16
  · have hdiv : n / 16 = 0 := by omega
    have hmod : n % 16 = n := by omega
    rw [Nat.toDigits_of_lt_base hn, hdiv, hmod]
    rfl
  · have hdiv : n / 16 < 16 := by omega
    rw [Nat.toDigits_of_base_le (by omega) (by omega), Nat.toDigits_of_lt_base hdiv]
    rfl

/-- Distinct nibbles have distinct digits. -/
theorem digitChar_inj : ∀ a < 16, ∀ b < 16, Nat.digitChar a = Nat.digitChar b → a = b := by
  decide

/-- Distinct bytes have distinct digit pairs. -/
theorem hex02_inj {a b : Nat} (ha : a < 256) (hb : b < 256) (h : hex02 a = hex02 b) :
    a = b := by
  rw [hex02_of_lt ha, hex02_of_lt hb] at h
  simp only [List.cons.injEq, and_true] at h
  have hhi := digitChar_inj (a / 16) (by omega) (b / 16) (by omega) h.1
  have hlo := digitChar_inj (a % 16) (by omega) (b % 16) (by omega) h.2
  omega

/-- The digits of a byte string. -/
def hex (bytes : List UInt8) : List Char := bytes.flatMap fun b => hex02 b.toNat

theorem hex_cons (b : UInt8) (bytes : List UInt8) : hex (b :: bytes) =
    Nat.digitChar (b.toNat / 16) :: Nat.digitChar (b.toNat % 16) :: hex bytes := by
  rw [hex, List.flatMap_cons, hex02_of_lt b.toNat_lt]
  rfl

theorem hex_eq_nil_iff {bytes : List UInt8} : hex bytes = [] ↔ bytes = [] := by
  cases bytes with
  | nil => exact iff_of_true rfl rfl
  | cons b bytes =>
    rw [hex_cons]
    exact iff_of_false (List.cons_ne_nil _ _) (List.cons_ne_nil _ _)

/-- **Nothing is lost**: the bytes can be read off their digits. -/
theorem hex_inj : ∀ {s t : List UInt8}, hex s = hex t → s = t
  | [], _, h => (hex_eq_nil_iff.mp h.symm).symm
  | _ :: _, [], h => hex_eq_nil_iff.mp h
  | b :: s, c :: t, h => by
    have hb := b.toNat_lt
    have hc := c.toNat_lt
    rw [hex_cons, hex_cons, List.cons.injEq, List.cons.injEq] at h
    obtain ⟨hhi, hlo, hrest⟩ := h
    have hdiv := digitChar_inj _ (by omega) _ (by omega) hhi
    have hmod := digitChar_inj _ (by omega) _ (by omega) hlo
    have hbc : b = c := UInt8.toNat_inj.mp (by omega)
    rw [hbc, hex_inj hrest]

/-- The digits of the first bytes are the first digits. -/
theorem take_hex : ∀ (bytes : List UInt8) (k : Nat), (hex bytes).take (2 * k) = hex (bytes.take k)
  | [], k => by rw [List.take_nil, hex, List.flatMap_nil, List.take_nil]
  | b :: bytes, 0 => by rw [Nat.mul_zero, List.take_zero, List.take_zero, hex, List.flatMap_nil]
  | b :: bytes, k + 1 => by
    rw [List.take_succ_cons, hex_cons, hex_cons, Nat.mul_succ, List.take_succ_cons,
      List.take_succ_cons, take_hex bytes k]

/-- The digits that are written. -/
def lowerDigits : List Char := (List.range 16).map Nat.digitChar

theorem digitChar_mem_lowerDigits {n : Nat} (h : n < 16) : Nat.digitChar n ∈ lowerDigits :=
  List.mem_map_of_mem (List.mem_range.mpr h)

/-- Only these are written. -/
theorem mem_lowerDigits_of_mem_hex {bytes : List UInt8} {c : Char} (h : c ∈ hex bytes) :
    c ∈ lowerDigits := by
  induction bytes with
  | nil => cases h
  | cons b bytes ih =>
    have hb := b.toNat_lt
    rw [hex_cons, List.mem_cons, List.mem_cons] at h
    rcases h with rfl | rfl | h
    · exact digitChar_mem_lowerDigits (by omega)
    · exact digitChar_mem_lowerDigits (by omega)
    · exact ih h

/-! ## Reading digits -/

/-- What a digit counts, capital or not. -/
def digitVal (c : Char) : Option Nat :=
  if 48 ≤ c.toNat ∧ c.toNat ≤ 57 then some (c.toNat - 48)
  else if 97 ≤ c.toNat ∧ c.toNat ≤ 102 then some (c.toNat - 87)
  else if 65 ≤ c.toNat ∧ c.toNat ≤ 70 then some (c.toNat - 55)
  else none

/-- The white space of ASCII. -/
def isBlank (c : Char) : Bool := c.toNat = 32 ∨ 9 ≤ c.toNat ∧ c.toNat ≤ 13

/-- Two digits a byte, and any blanks between the bytes. -/
def unhex : List Char → Option (List UInt8)
  | [] => some []
  | [c] => if isBlank c then some [] else none
  | c :: d :: rest =>
    if isBlank c then unhex (d :: rest)
    else match digitVal c, digitVal d, unhex rest with
      | some hi, some lo, some bytes => some (UInt8.ofNat (16 * hi + lo) :: bytes)
      | _, _, _ => none

theorem digitVal_digitChar : ∀ n < 16, digitVal (Nat.digitChar n) = some n := by decide

theorem not_isBlank_digitChar : ∀ n < 16, isBlank (Nat.digitChar n) = false := by decide

theorem unhex_pair {hi lo : Nat} (hhi : hi < 16) (hlo : lo < 16) (rest : List Char) :
    unhex (Nat.digitChar hi :: Nat.digitChar lo :: rest) =
      (unhex rest).map (UInt8.ofNat (16 * hi + lo) :: ·) := by
  rw [unhex, not_isBlank_digitChar hi hhi, if_neg Bool.false_ne_true, digitVal_digitChar hi hhi,
    digitVal_digitChar lo hlo]
  cases unhex rest <;> rfl

/-- **What is written is read back.** -/
theorem unhex_hex : ∀ bytes : List UInt8, unhex (hex bytes) = some bytes
  | [] => rfl
  | b :: bytes => by
    have hb := b.toNat_lt
    have hbyte : UInt8.ofNat (16 * (b.toNat / 16) + b.toNat % 16) = b := by
      apply UInt8.toNat_inj.mp
      rw [UInt8.toNat_ofNat']
      omega
    rw [hex_cons, unhex_pair (by omega) (by omega), unhex_hex bytes, Option.map_some, hbyte]

/-- **What is read is written back**, if it was an even number of digits as they are
written. -/
theorem hex_of_unhex : ∀ {cs : List Char}, (∀ c ∈ cs, c ∈ lowerDigits) → cs.length % 2 = 0 →
    ∃ bytes, unhex cs = some bytes ∧ hex bytes = cs
  | [], _, _ => ⟨[], rfl, rfl⟩
  | [_], _, heven => by cases heven
  | c :: d :: rest, hlow, heven => by
    rw [List.forall_mem_cons, List.forall_mem_cons] at hlow
    obtain ⟨hc, hd, hrest⟩ := hlow
    obtain ⟨hi, hhi, rfl⟩ := List.mem_map.mp hc
    obtain ⟨lo, hlo, rfl⟩ := List.mem_map.mp hd
    rw [List.mem_range] at hhi hlo
    rw [List.length_cons, List.length_cons] at heven
    obtain ⟨bytes, hbytes, hwritten⟩ := hex_of_unhex hrest (by omega)
    refine ⟨_, by rw [unhex_pair hhi hlo, hbytes, Option.map_some], ?_⟩
    have hval : (UInt8.ofNat (16 * hi + lo)).toNat = 16 * hi + lo := by
      rw [UInt8.toNat_ofNat']
      omega
    have hdiv : (16 * hi + lo) / 16 = hi := by omega
    have hmod : (16 * hi + lo) % 16 = lo := by omega
    rw [hex_cons, hval, hdiv, hmod, hwritten]

theorem length_hex (bytes : List UInt8) : (hex bytes).length = 2 * bytes.length := by
  induction bytes with
  | nil => rfl
  | cons b bytes ih =>
    rw [hex_cons, List.length_cons, List.length_cons, List.length_cons, ih]
    omega

end Hex
