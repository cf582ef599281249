import Mathlib

/-!
# What the bindings see of CPython

The exceptions the extension module raises, and the conversions from a Python
integer to a C integer that its entry points go through. Two kinds of
conversion meet in the bindings: those that refuse a value that does not fit
(`asSsize`, `asLong`, the argument units `L` and `i`), and the argument units `I` and
`k` and the casts of C, which reduce modulo the width without an overflow check. The
debugger's enumerations are `IntEnum` classes, and `intEnum` is the call that looks a
number up in one.
-/

namespace PyBitcoinKernel.Binding

/-- The exception types the bindings raise. -/
inductive ExcType where
  | valueError
  | indexError
  | typeError
  | overflowError
  | kernelError
  | memoryError
  | systemError
  deriving DecidableEq, Repr

/-- A raised exception: its type and its message. -/
structure PyErr where
  exc : ExcType
  msg : String
  deriving DecidableEq, Repr

/-- The outcome of a call: a value, or an exception. -/
abbrev PyResult := Except PyErr

/-- Raise an exception. -/
def raise {α : Type} (exc : ExcType) (msg : String) : PyResult α := .error ⟨exc, msg⟩

/-- `n` fits a signed C integer of `w + 1` bits. -/
def FitsSigned (w : Nat) (n : Int) : Prop := -2 ^ w ≤ n ∧ n < 2 ^ w

instance (w : Nat) (n : Int) : Decidable (FitsSigned w n) := inferInstanceAs (Decidable (_ ∧ _))

/-- `PyNumber_AsSsize_t(n, PyExc_IndexError)`. -/
def asSsize (n : Int) : PyResult Int :=
  if FitsSigned 63 n then .ok n
  else raise .indexError "cannot fit 'int' into an index-sized integer"

/-- The argument unit `L` (`long long`). -/
def argLongLong (n : Int) : PyResult Int :=
  if FitsSigned 63 n then .ok n
  else raise .overflowError "int too big to convert"

/-- `PyLong_AsLong(n)`, for a `long` of 64 bits. -/
def asLong (n : Int) : PyResult Int :=
  if FitsSigned 63 n then .ok n
  else raise .overflowError "Python int too large to convert to C long"

/-- The argument unit `i` (`int`). -/
def argInt (n : Int) : PyResult Int := do
  let ival ← asLong n
  if ival ≥ 2 ^ 31 then raise .overflowError "signed integer is greater than maximum"
  else if ival < -2 ^ 31 then raise .overflowError "signed integer is less than minimum"
  else return ival

/-- The argument unit `I` (`unsigned int`): no overflow check. -/
def argUnsignedInt (n : Int) : BitVec 32 := BitVec.ofInt 32 n

/-- The argument unit `k` (`unsigned long`): no overflow check. -/
def argUnsignedLong (n : Int) : BitVec 64 := BitVec.ofInt 64 n

/-- A cast to a C `int`. -/
def castInt (n : Int) : Int := (BitVec.ofInt 32 n).toInt

/-- A cast to `int` of a value that fits changes nothing. -/
theorem castInt_of_fits {n : Int} (h : FitsSigned 31 n) : castInt n = n := by
  obtain ⟨hlo, hhi⟩ := h
  unfold castInt
  rw [BitVec.toInt_ofInt]
  exact Int.bmod_eq_of_le (by omega) (by omega)

/-- A cast to a type of 8 bits without a sign. -/
def castUint8 (n : Int) : BitVec 8 := BitVec.ofInt 8 n

/-- A cast to `int` keeps the low 32 bits, of which the top one becomes the sign. -/
theorem castInt_eq (n : Int) :
    castInt n = if n % 2 ^ 32 < 2 ^ 31 then n % 2 ^ 32 else n % 2 ^ 32 - 2 ^ 32 := by
  unfold castInt
  rw [BitVec.toInt_ofInt, Int.bmod_def]
  rfl

/-- A cast to 8 bits keeps exactly what has no other bits. -/
theorem castUint8_toNat_eq_iff {n : Int} :
    ((castUint8 n).toNat : Int) = n ↔ 0 ≤ n ∧ n < 2 ^ 8 := by
  unfold castUint8
  rw [BitVec.toNat_ofInt]
  constructor
  · intro h
    omega
  · rintro ⟨hlo, hhi⟩
    omega

theorem asLong_eq_ok_iff {n k : Int} : asLong n = .ok k ↔ FitsSigned 63 n ∧ n = k := by
  unfold asLong
  split
  next h => exact ⟨fun hok => ⟨h, Except.ok.inj hok⟩, fun hok => congrArg Except.ok hok.2⟩
  next h => exact iff_of_false (fun hok => by cases hok) fun hok => h hok.1

theorem argInt_eq_ok_iff {n k : Int} : argInt n = .ok k ↔ FitsSigned 31 n ∧ n = k := by
  unfold argInt
  cases hlong : asLong n with
  | error e =>
    refine iff_of_false (fun hok => by cases hok) ?_
    rintro ⟨⟨hlo, hhi⟩, -⟩
    have hok : asLong n = .ok n := asLong_eq_ok_iff.mpr ⟨⟨by omega, by omega⟩, rfl⟩
    rw [hok] at hlong
    cases hlong
  | ok ival =>
    obtain ⟨-, rfl⟩ := asLong_eq_ok_iff.mp hlong
    show (if n ≥ 2 ^ 31 then _ else if n < -2 ^ 31 then _ else Except.ok n) = _ ↔ _
    split
    next h => exact iff_of_false (fun hok => by cases hok) fun hok => absurd hok.1.2 (by omega)
    next h =>
      split
      next h' => exact iff_of_false (fun hok => by cases hok) fun hok => absurd hok.1.1 (by omega)
      next h' =>
        have hfits : FitsSigned 31 n := ⟨by omega, by omega⟩
        exact ⟨fun hok => ⟨hfits, Except.ok.inj hok⟩, fun hok => congrArg Except.ok hok.2⟩

/-! ## `IntEnum` -/

section IntEnum

variable {α : Type} (cls : String) {members : List α} {value : α → Nat}

/-- `cls(n)`, for an `IntEnum` class with these members. -/
def intEnum (members : List α) (value : α → Nat) (n : Int) : PyResult α :=
  match members.find? fun a => value a = n with
  | some a => .ok a
  | none => raise .valueError (toString n ++ " is not a valid " ++ cls)

/-- A member has the value it was looked up by. -/
theorem value_of_intEnum {n : Int} {a : α} (h : intEnum cls members value n = .ok a) :
    (value a : Int) = n := by
  unfold intEnum at h
  split at h
  next b hb =>
    cases h
    simpa using List.find?_some hb
  next => cases h

/-- Values `0, 1, .., N - 1` leave no gap. -/
theorem intEnum_ok {N : Nat} (hvalues : members.map value = List.range N) {n : Int}
    (hn : 0 ≤ n ∧ n < N) : ∃ a, intEnum cls members value n = .ok a ∧ (value a : Int) = n := by
  have hmem : n.toNat ∈ members.map value := by
    rw [hvalues, List.mem_range]
    omega
  obtain ⟨b, hb, hval⟩ := List.mem_map.mp hmem
  cases hfind : members.find? fun a => value a = n with
  | none =>
    have hno := List.find?_eq_none.mp hfind b hb
    exact absurd (by rw [hval]; omega : (value b : Int) = n) (by simpa using hno)
  | some a =>
    have hok : intEnum cls members value n = .ok a := by
      unfold intEnum
      rw [hfind]
    exact ⟨a, hok, value_of_intEnum cls hok⟩

end IntEnum

end PyBitcoinKernel.Binding
