import PyBitcoinKernel.Binding.Python

/-!
# Integer settings: two widths on the way to the kernel

A setting starts as a Python integer and ends as a C one of 32 or 8 bits. On the way
`PyLong_AsLong` or the argument unit `i` refuses what does not fit 64 or 32 bits, but
the cast behind it refuses nothing: it keeps the low bits. Between the two widths a
number is accepted and reaches the kernel as another one,

> `settings_exact_iff`: a setting has the effect its number asks for, or raises,
> exactly if the number fits the narrow type, does not fit the wide one, or (for the
> worker threads, which the kernel clamps) is clamped like the number its low bits make.

Nothing is out of bounds here, so nothing stops: `2^32 + 3` worker threads are three.
-/

namespace PyBitcoinKernel.Binding

/-! ## The setters -/

/-- A call of the kernel that sets something: a C `int`, or categories and levels of 8
bits. -/
inductive SettingCall where
  | setWorkerThreadsNum (workerThreads : Int)
  | enableCategory (category : BitVec 8)
  | disableCategory (category : BitVec 8)
  | setLevelCategory (category level : BitVec 8)
  deriving DecidableEq, Repr

/-- `ChainstateManagerOptions_set_worker_threads`. -/
def setWorkerThreads (arg : Int) : PyResult SettingCall := do
  let n ← asLong arg
  return .setWorkerThreadsNum (castInt n)

/-- `mod_logging_enable_category`. -/
def loggingEnableCategory (arg : Int) : PyResult SettingCall := do
  let category ← asLong arg
  return .enableCategory (castUint8 category)

/-- `mod_logging_disable_category`. -/
def loggingDisableCategory (arg : Int) : PyResult SettingCall := do
  let category ← asLong arg
  return .disableCategory (castUint8 category)

/-- `mod_logging_set_level_category`: argument units `ii`. -/
def loggingSetLevelCategory (category level : Int) : PyResult SettingCall := do
  let category ← argInt category
  let level ← argInt level
  return .setLevelCategory (castUint8 category) (castUint8 level)

/-! ## What they are for -/

/-- What a setting is to bring about, in numbers. -/
inductive Effect where
  | workerThreads (n : Int)
  | enabled (category : Int)
  | disabled (category : Int)
  | level (category level : Int)
  deriving DecidableEq, Repr

/-- What the kernel does when it is called; it clamps the number of threads. -/
def SettingCall.effect : SettingCall → Effect
  | .setWorkerThreadsNum n => .workerThreads (max 0 (min n 15))
  | .enableCategory category => .enabled category.toNat
  | .disableCategory category => .disabled category.toNat
  | .setLevelCategory category level => .level category.toNat level.toNat

/-- The setter raises, or the kernel does what was asked. -/
def Does (setter : PyResult SettingCall) (asked : Effect) : Prop :=
  ∀ call, setter = .ok call → call.effect = asked

/-- `n` fits a C integer of `w` bits that has no sign. -/
def FitsUnsigned (w : Nat) (n : Int) : Prop := 0 ≤ n ∧ n < 2 ^ w

/-- The number of threads fits an `int`, or its low 32 bits make an `int` that lies
beyond the same end of `0..15`. -/
def ClampsAlike (n : Int) : Prop :=
  FitsSigned 31 n ∨ 2 ^ 31 ≤ n ∧ 15 ≤ n % 2 ^ 32 ∧ n % 2 ^ 32 < 2 ^ 31 ∨
    n < -2 ^ 31 ∧ (n % 2 ^ 32 = 0 ∨ 2 ^ 31 ≤ n % 2 ^ 32)

/-! ## What they do -/

theorem does_ok_iff {call : SettingCall} {asked : Effect} :
    Does (.ok call) asked ↔ call.effect = asked :=
  ⟨fun h => h call rfl, fun h _ hcall => Except.ok.inj hcall ▸ h⟩

/-- An argument is refused by its conversion, or passed on as it is. -/
theorem does_bind_iff {conversion : Int → PyResult Int} {Fits : Int → Prop}
    (hconversion : ∀ {n k}, conversion n = .ok k ↔ Fits n ∧ n = k)
    {next : Int → PyResult SettingCall} {n : Int} {asked : Effect} :
    Does (conversion n >>= next) asked ↔ ¬ Fits n ∨ Does (next n) asked := by
  constructor
  · intro h
    by_cases hn : Fits n
    · have hok : conversion n = .ok n := hconversion.mpr ⟨hn, rfl⟩
      rw [hok] at h
      exact Or.inr h
    · exact Or.inl hn
  · intro h call hcall
    cases hok : conversion n with
    | error e =>
      rw [hok] at hcall
      cases hcall
    | ok k =>
      obtain ⟨hn, rfl⟩ := hconversion.mp hok
      rw [hok] at hcall
      exact h.resolve_left (not_not.mpr hn) call hcall

/-- The clamp of the kernel, behind the cast. -/
theorem clamp_castInt_iff (n : Int) :
    max 0 (min (castInt n) 15) = min (max n 0) 15 ↔ ClampsAlike n := by
  unfold ClampsAlike FitsSigned
  rw [castInt_eq]
  split <;> omega

theorem setWorkerThreads_iff (n : Int) :
    Does (setWorkerThreads n) (.workerThreads (min (max n 0) 15)) ↔
      ¬ FitsSigned 63 n ∨ ClampsAlike n := by
  rw [setWorkerThreads, does_bind_iff asLong_eq_ok_iff, ← clamp_castInt_iff]
  refine or_congr_right (does_ok_iff.trans ?_)
  rw [SettingCall.effect, Effect.workerThreads.injEq]

theorem loggingEnableCategory_iff (n : Int) :
    Does (loggingEnableCategory n) (.enabled n) ↔ ¬ FitsSigned 63 n ∨ FitsUnsigned 8 n := by
  rw [loggingEnableCategory, does_bind_iff asLong_eq_ok_iff, FitsUnsigned,
    ← castUint8_toNat_eq_iff]
  refine or_congr_right (does_ok_iff.trans ?_)
  rw [SettingCall.effect, Effect.enabled.injEq]

theorem loggingDisableCategory_iff (n : Int) :
    Does (loggingDisableCategory n) (.disabled n) ↔ ¬ FitsSigned 63 n ∨ FitsUnsigned 8 n := by
  rw [loggingDisableCategory, does_bind_iff asLong_eq_ok_iff, FitsUnsigned,
    ← castUint8_toNat_eq_iff]
  refine or_congr_right (does_ok_iff.trans ?_)
  rw [SettingCall.effect, Effect.disabled.injEq]

theorem loggingSetLevelCategory_iff (n m : Int) :
    Does (loggingSetLevelCategory n m) (.level n m) ↔
      ¬ FitsSigned 31 n ∨ ¬ FitsSigned 31 m ∨ FitsUnsigned 8 n ∧ FitsUnsigned 8 m := by
  rw [loggingSetLevelCategory, does_bind_iff argInt_eq_ok_iff, does_bind_iff argInt_eq_ok_iff,
    FitsUnsigned, FitsUnsigned, ← castUint8_toNat_eq_iff, ← castUint8_toNat_eq_iff]
  refine or_congr_right (or_congr_right (does_ok_iff.trans ?_))
  rw [SettingCall.effect, Effect.level.injEq]

/-- **When a setting has the effect its number asks for.** -/
theorem settings_exact_iff (n m : Int) :
    (Does (setWorkerThreads n) (.workerThreads (min (max n 0) 15)) ↔
      ¬ FitsSigned 63 n ∨ ClampsAlike n) ∧
    (Does (loggingEnableCategory n) (.enabled n) ↔ ¬ FitsSigned 63 n ∨ FitsUnsigned 8 n) ∧
    (Does (loggingDisableCategory n) (.disabled n) ↔ ¬ FitsSigned 63 n ∨ FitsUnsigned 8 n) ∧
    (Does (loggingSetLevelCategory n m) (.level n m) ↔
      ¬ FitsSigned 31 n ∨ ¬ FitsSigned 31 m ∨ FitsUnsigned 8 n ∧ FitsUnsigned 8 m) :=
  ⟨setWorkerThreads_iff n, loggingEnableCategory_iff n, loggingDisableCategory_iff n,
    loggingSetLevelCategory_iff n m⟩

/-- Numbers between the two widths: `2^32 + 3` threads are three, and category 256 is
category 0. -/
theorem settings_wrap :
    ¬ Does (setWorkerThreads (2 ^ 32 + 3)) (.workerThreads (min (max (2 ^ 32 + 3) 0) 15)) ∧
    ¬ Does (loggingEnableCategory 256) (.enabled 256) ∧
    ¬ Does (loggingDisableCategory 256) (.disabled 256) ∧
    ¬ Does (loggingSetLevelCategory 256 1) (.level 256 1) := by
  refine ⟨fun h => ?_, fun h => ?_, fun h => ?_, fun h => ?_⟩
  · exact absurd (h (.setWorkerThreadsNum 3) (by decide)) (by decide)
  · exact absurd (h (.enableCategory 0) (by decide)) (by decide)
  · exact absurd (h (.disableCategory 0) (by decide)) (by decide)
  · exact absurd (h (.setLevelCategory 0 1) (by decide)) (by decide)

end PyBitcoinKernel.Binding
