import PyBitcoinKernel.Lib.Wire
import PyBitcoinKernel.Script.Instruction

/-!
# Numbers in the miner's bytes

`struct.pack` writes a number into a fixed number of little-endian bytes and raises
`struct.error` when it does not fit; `ser_varint` writes a size in the shortest of four
forms. Next to each stands the format it writes, from the combinators of `Wire`, so that
what is written can be read back by a reader that knows nothing of the writer:

> `structPack_writes`, `serVarint_writes`: a number is written exactly when it fits, and
> then as the format has it.

A reader of `compactSize` refuses a size in a longer form than it needs, as the network
does, so a size has one form only.
-/

namespace PyBitcoinKernel.Miner

open PyBitcoinKernel.Script (Bytes)
open LittleEndian (fromLE toLE fromLE_toLE toLE_fromLE toLE_length fromLE_lt)
open Wire (Format)

/-- The exceptions the miner can run into: of `struct.pack`, of indexing, of `bytes`. -/
inductive MinerError where
  | structError
  | indexError
  | valueError
  deriving DecidableEq, Repr

abbrev MinerResult := Except MinerError

/-! ## `struct.pack` -/

/-- The units in use, all of them with `<`: `B`, `H`, `I`, `Q`, `i` and `q`. -/
inductive PackUnit where
  | uchar
  | ushort
  | uint
  | ulonglong
  | int
  | longlong
  deriving DecidableEq, Repr

def PackUnit.width : PackUnit → Nat
  | .uchar => 1
  | .ushort => 2
  | .uint | .int => 4
  | .ulonglong | .longlong => 8

def PackUnit.signed : PackUnit → Bool
  | .uchar | .ushort | .uint | .ulonglong => false
  | .int | .longlong => true

/-- The least number of a unit. -/
def PackUnit.low (u : PackUnit) : Int := if u.signed then -(256 ^ u.width / 2) else 0

/-- The number is one of the `256 ^ width` numbers of the unit. -/
def PackUnit.Fits (u : PackUnit) (n : Int) : Prop := u.low ≤ n ∧ n < u.low + 256 ^ u.width

instance (u : PackUnit) (n : Int) : Decidable (u.Fits n) := inferInstanceAs (Decidable (_ ∧ _))

/-- `struct.pack("<" + unit, n)`: two's complement, little-endian. -/
def structPack (u : PackUnit) (n : Int) : MinerResult Bytes :=
  if u.Fits n then .ok (toLE u.width (n % 256 ^ u.width).toNat) else .error .structError

/-- The numbers of a unit. -/
abbrev PackUnit.Field (u : PackUnit) := { n : Int // u.Fits n }

theorem PackUnit.low_cases (u : PackUnit) : -(256 ^ u.width : Int) < u.low ∧ u.low ≤ 0 := by
  cases u <;> decide

/-- The number of a unit with these bytes. -/
def PackUnit.value (u : PackUnit) (bs : Bytes) : Int :=
  if fromLE bs < u.low + 256 ^ u.width then fromLE bs else fromLE bs - 256 ^ u.width

theorem PackUnit.fits_value (u : PackUnit) {bs : Bytes} (h : bs.length = u.width) :
    u.Fits (u.value bs) := by
  have hlow := u.low_cases
  have hlt : (fromLE bs : Int) < 256 ^ u.width := by
    have := fromLE_lt bs
    rw [h] at this
    exact_mod_cast this
  unfold Fits value
  split
  next hn => exact ⟨by omega, hn⟩
  next hn => exact ⟨by omega, by omega⟩

/-- Reading a number back: what was reduced modulo the width is restored. -/
theorem PackUnit.value_toLE (u : PackUnit) {n : Int} (h : u.Fits n) :
    u.value (toLE u.width (n % 256 ^ u.width).toNat) = n := by
  have hlow := u.low_cases
  have hpos : (0 : Int) < 256 ^ u.width := by positivity
  have hmod := Int.emod_nonneg n hpos.ne'
  have hlt := Int.emod_lt_of_pos n hpos
  have hnat : (n % 256 ^ u.width).toNat < 256 ^ u.width := by
    rw [Int.toNat_lt hmod]
    exact_mod_cast hlt
  obtain ⟨hlo, hhi⟩ := h
  rw [value, fromLE_toLE hnat, Int.toNat_of_nonneg hmod]
  by_cases hn : 0 ≤ n
  · rw [Int.emod_eq_of_lt hn (by omega), if_pos hhi]
  · have hshift : n % 256 ^ u.width = n + 256 ^ u.width := by
      rw [← Int.add_emod_right, Int.emod_eq_of_lt (by omega) (by omega)]
    rw [hshift, if_neg (by omega)]
    omega

/-- Reading bytes and reducing what they denote gives the bytes. -/
theorem PackUnit.toLE_value (u : PackUnit) {bs : Bytes} (h : bs.length = u.width) :
    toLE u.width (u.value bs % 256 ^ u.width).toNat = bs := by
  have hlt : (fromLE bs : Int) < 256 ^ u.width := by
    have := fromLE_lt bs
    rw [h] at this
    exact_mod_cast this
  have hmod : u.value bs % 256 ^ u.width = fromLE bs := by
    unfold value
    split
    next => exact Int.emod_eq_of_lt (Int.natCast_nonneg _) hlt
    next => rw [Int.sub_emod_right, Int.emod_eq_of_lt (Int.natCast_nonneg _) hlt]
  rw [hmod, Int.toNat_natCast, ← h, toLE_fromLE]

/-- The numbers of a unit as its bytes. -/
def fieldEquiv (u : PackUnit) : Format.Exactly u.width UInt8 ≃ u.Field where
  toFun bs := ⟨u.value bs.1, u.fits_value bs.2⟩
  invFun n := ⟨toLE u.width (n.1 % 256 ^ u.width).toNat, toLE_length _ _⟩
  left_inv bs := Subtype.ext (u.toLE_value bs.2)
  right_inv n := Subtype.ext (u.value_toLE n.2)

/-- A number of a unit, on the wire. -/
def packed (u : PackUnit) : Format UInt8 u.Field := (Format.exactly u.width).map (fieldEquiv u)

/-- **`struct.pack` writes the numbers that fit.** -/
theorem structPack_writes (u : PackUnit) :
    (packed u).Writes (fun v n => v.1 = n) (structPack u) := by
  intro n b
  unfold structPack
  split
  next h =>
    constructor
    · intro hb
      exact ⟨⟨n, h⟩, rfl, Except.ok.inj hb⟩
    · rintro ⟨v, rfl, hb⟩
      exact congrArg Except.ok hb
  next h =>
    refine iff_of_false (fun hb => by cases hb) ?_
    rintro ⟨v, rfl, -⟩
    exact h v.2

/-! ## `ser_varint` -/

/-- The forms of a size that take more than one byte. -/
inductive Wide where
  | two
  | four
  | eight
  deriving DecidableEq, Repr

def Wide.width : Wide → Nat
  | .two => 2
  | .four => 4
  | .eight => 8

def Wide.marker : Wide → UInt8
  | .two => 0xFD
  | .four => 0xFE
  | .eight => 0xFF

/-- The shortest form of a size, if one byte is not enough. -/
def wide? (n : Nat) : Option Wide :=
  if n < 0xFD then none
  else if n ≤ 0xFFFF then some .two
  else if n ≤ 0xFFFFFFFF then some .four
  else some .eight

/-- The form a first byte announces. -/
def marked? (b : UInt8) : Option Wide :=
  if b = 0xFD then some .two else if b = 0xFE then some .four
  else if b = 0xFF then some .eight else none

theorem marked?_marker (w : Wide) : marked? w.marker = some w := by
  cases w <;> rfl

theorem eq_marker_of_marked? {b : UInt8} {w : Wide} (h : marked? b = some w) : b = w.marker := by
  unfold marked? at h
  split at h
  next hb => cases h; exact hb
  next =>
    split at h
    next hb => cases h; exact hb
    next =>
      split at h
      next hb => cases h; exact hb
      next => cases h

/-- The first byte of the short form is no marker. -/
theorem marked?_of_lt {b : UInt8} (h : b.toNat < 0xFD) : marked? b = none := by
  cases hb : marked? b with
  | none => rfl
  | some w =>
    rw [eq_marker_of_marked? hb] at h
    cases w <;> exact absurd h (by decide)

theorem lt_of_marked? {b : UInt8} (h : marked? b = none) : b.toNat < 0xFD := by
  refine Nat.lt_of_not_le fun hb => ?_
  have hlt := b.toNat_lt
  have hcases : b = 0xFD ∨ b = 0xFE ∨ b = 0xFF := by
    simp only [← UInt8.toNat_inj]
    show b.toNat = 253 ∨ b.toNat = 254 ∨ b.toNat = 255
    omega
  rcases hcases with rfl | rfl | rfl <;> cases h

theorem wide?_eq_none_iff {n : Nat} : wide? n = none ↔ n < 0xFD := by
  unfold wide?
  split
  next h => exact iff_of_true rfl h
  next h => exact iff_of_false (by split <;> [skip; split] <;> exact Option.some_ne_none _) h

/-- A size fits its form. -/
theorem lt_of_wide? {n : Nat} {w : Wide} (hn : n < 2 ^ 64) (h : wide? n = some w) :
    n < 256 ^ w.width := by
  unfold wide? at h
  split at h
  next => cases h
  next =>
    split at h
    next hle => cases h; exact Nat.lt_succ_of_le hle
    next =>
      split at h
      next hle => cases h; exact Nat.lt_succ_of_le hle
      next => cases h; exact hn

/-- A size in its shortest form. -/
def encSize (n : Nat) : Bytes :=
  match wide? n with
  | none => [UInt8.ofNat n]
  | some w => w.marker :: toLE w.width n

/-- A size off the front of a string; fails on a form that is longer than need be. -/
def decSize : Bytes → Option (Fin (2 ^ 64) × Bytes)
  | [] => none
  | b :: t =>
    match marked? b with
    | none => some (b.toFin.castLE (by decide), t)
    | some w =>
      if h : wide? (fromLE (t.take w.width)) = some w ∧ fromLE (t.take w.width) < 2 ^ 64 ∧
          w.width ≤ t.length then
        some (⟨fromLE (t.take w.width), h.2.1⟩, t.drop w.width)
      else none

theorem decSize_encSize (n : Fin (2 ^ 64)) (t : Bytes) : decSize (encSize n ++ t) = some (n, t) := by
  obtain ⟨n, hn⟩ := n
  unfold encSize
  dsimp only
  split
  next hw =>
    have hlt := wide?_eq_none_iff.mp hw
    have hval : (UInt8.ofNat n).toNat = n := by
      rw [UInt8.toNat_ofNat']
      omega
    rw [List.singleton_append, decSize, marked?_of_lt (by rw [hval]; exact hlt)]
    exact congrArg (fun v => some (v, t)) (Fin.ext hval)
  next w hw =>
    have hlen := toLE_length w.width n
    have hval := fromLE_toLE (lt_of_wide? hn hw)
    rw [List.cons_append, decSize, marked?_marker]
    dsimp only
    rw [dif_pos]
    · simp only [List.take_left' hlen, List.drop_left' hlen, hval]
    · rw [List.take_left' hlen, hval, List.length_append, hlen]
      exact ⟨hw, hn, by omega⟩

theorem encSize_decSize {s t : Bytes} {n : Fin (2 ^ 64)} (h : decSize s = some (n, t)) :
    s = encSize n ++ t := by
  cases s with
  | nil => cases h
  | cons b s =>
    rw [decSize] at h
    split at h
    next hb =>
      cases h
      have hlt := lt_of_marked? hb
      show b :: t = encSize b.toNat ++ t
      rw [encSize, wide?_eq_none_iff.mpr hlt, UInt8.ofNat_toNat]
      rfl
    next w hb =>
      split at h
      next hw =>
        cases h
        obtain ⟨hform, -, hle⟩ := hw
        have hback := toLE_fromLE (s.take w.width)
        rw [List.length_take_of_le hle] at hback
        show b :: s = encSize (fromLE (s.take w.width)) ++ s.drop w.width
        rw [encSize, hform, eq_marker_of_marked? hb, List.cons_append, hback,
          List.take_append_drop]
      next => cases h

/-- A size, on the wire. -/
def compactSize : Format UInt8 (Fin (2 ^ 64)) where
  enc n := encSize n
  dec := decSize
  dec_enc := decSize_encSize
  enc_dec := encSize_decSize

def serVarint (n : Int) : MinerResult Bytes :=
  if n < 0xFD then structPack .uchar n
  else if n ≤ 0xFFFF then (structPack .ushort n).map (0xFD :: ·)
  else if n ≤ 0xFFFFFFFF then (structPack .uint n).map (0xFE :: ·)
  else (structPack .ulonglong n).map (0xFF :: ·)

/-- What a unit without a sign writes. -/
theorem structPack_natCast {u : PackUnit} (hu : u.signed = false) {n : Nat}
    (h : n < 256 ^ u.width) : structPack u n = .ok (toLE u.width n) := by
  have hlow : u.low = 0 := by rw [PackUnit.low, hu]; rfl
  have hlt : (n : Int) < 256 ^ u.width := by exact_mod_cast h
  rw [structPack, if_pos ⟨by omega, by omega⟩, Int.emod_eq_of_lt (by omega) hlt,
    Int.toNat_natCast]

theorem structPack_error {u : PackUnit} {n : Int} (h : ¬ u.Fits n) :
    structPack u n = .error .structError := if_neg h

/-- **A size is written in its shortest form.** -/
theorem serVarint_natCast {n : Nat} (hn : n < 2 ^ 64) : serVarint n = .ok (encSize n) := by
  unfold serVarint encSize wide?
  by_cases h1 : n < 0xFD
  · rw [if_pos (by omega), if_pos h1, structPack_natCast rfl (by exact Nat.lt_trans h1 (by decide))]
    rfl
  · rw [if_neg (by omega), if_neg h1]
    by_cases h2 : n ≤ 0xFFFF
    · rw [if_pos (by omega), if_pos h2, structPack_natCast rfl (Nat.lt_succ_of_le h2)]
      rfl
    · rw [if_neg (by omega), if_neg h2]
      by_cases h3 : n ≤ 0xFFFFFFFF
      · rw [if_pos (by omega), if_pos h3, structPack_natCast rfl (Nat.lt_succ_of_le h3)]
        rfl
      · rw [if_neg (by omega), if_neg h3, structPack_natCast rfl hn]
        rfl

/-- No other number is written. -/
theorem serVarint_error {n : Int} (h : ¬ (0 ≤ n ∧ n < 2 ^ 64)) :
    serVarint n = .error .structError := by
  unfold serVarint
  by_cases hneg : n < 0
  · rw [if_pos (by omega), structPack_error]
    exact fun hno => absurd hno.1 (by show ¬ (0 : Int) ≤ n; omega)
  · rw [if_neg (by omega), if_neg (by omega), if_neg (by omega), structPack_error]
    · rfl
    · exact fun hno => absurd hno.2 (by show ¬ n < (0 : Int) + 2 ^ 64; omega)

theorem serVarint_writes :
    compactSize.Writes (fun v n => ((v : Nat) : Int) = n) serVarint := by
  intro n b
  by_cases h : 0 ≤ n ∧ n < 2 ^ 64
  · have hcast : ((n.toNat : Nat) : Int) = n := Int.toNat_of_nonneg h.1
    have hlt : n.toNat < 2 ^ 64 := by omega
    constructor
    · intro hb
      rw [← hcast, serVarint_natCast hlt] at hb
      exact ⟨⟨n.toNat, hlt⟩, hcast, Except.ok.inj hb⟩
    · rintro ⟨v, rfl, hb⟩
      rw [serVarint_natCast v.isLt]
      exact congrArg Except.ok hb
  · refine iff_of_false (fun hb => by rw [serVarint_error h] at hb; cases hb) ?_
    rintro ⟨v, rfl, -⟩
    exact h ⟨Int.natCast_nonneg _, by exact_mod_cast v.isLt⟩

end PyBitcoinKernel.Miner
