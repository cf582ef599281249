import PyBitcoinKernel.Binding.Python

/-!
# `ScriptPubkey.verify`: which question reaches the kernel

`ScriptPubkey_verify` checks the flags and the input index before it calls the
kernel, which would abort on bad ones. The checks run on C values, though: the
argument units `I` and `k` have already reduced the Python integers modulo
`2^32` and `2^64`. So the guards are right about what they see,

> `scriptPubkeyVerify_faithful_iff`: the kernel is asked exactly the question
> the caller asked, or the call raises, unless an integer outside its C type
> was reduced to a pair of values that pass both guards.
-/

namespace PyBitcoinKernel.Binding

/-- `btck_ScriptVerifyStatus`. -/
inductive ScriptVerifyStatus where
  | ok
  | errorInvalidFlagsCombination
  | errorSpentOutputsRequired
  deriving DecidableEq, Repr

/-- What `btck_script_pubkey_verify` is handed. -/
structure VerifyArgs (Spk Tx Pre : Type) where
  scriptPubkey : Spk
  amount : Int
  txTo : Tx
  precomputed : Option Pre
  inputIndex : BitVec 32
  flags : BitVec 32

/-- What the bindings use of libbitcoinkernel to verify a script. -/
structure VerifyKernel (Spk Tx Pre : Type) where
  /-- `btck_ScriptVerificationFlags_ALL`. -/
  verifyAll : BitVec 32
  countInputs : Tx → Nat
  /-- The verdict and the status `btck_script_pubkey_verify` reports. -/
  verify : VerifyArgs Spk Tx Pre → Bool × ScriptVerifyStatus

/-- A Python object, by the type checks it passes; of any other type the name. -/
inductive PyObj (Tx Pre : Type) where
  | none
  | transaction (tx : Tx)
  | precomputedTransactionData (pre : Pre)
  | other (type : String)

/-- What an object is called where another type was expected; `%.50s` cuts the name. -/
def PyObj.typeName {Tx Pre : Type} : PyObj Tx Pre → String
  | .none => "None"
  | .transaction _ => "pybitcoinkernel._bitcoinkernel.Transaction"
  | .precomputedTransactionData _ => "pybitcoinkernel._bitcoinkernel.PrecomputedTransact"
  | .other type => String.ofList (type.toList.take 50)

/-- `None`, or a `PrecomputedTransactionData` object. -/
def PyObj.ofPrecomputed {Tx Pre : Type} : Option Pre → PyObj Tx Pre
  | .none => .none
  | .some pre => .precomputedTransactionData pre

variable {Spk Tx Pre : Type}

/-- A call as seen from outside: what was handed to the kernel, and what the
caller got back. -/
structure VerifyRun (Spk Tx Pre : Type) where
  calls : List (VerifyArgs Spk Tx Pre)
  result : PyResult Bool

/-- A call that raises before it reaches the kernel. -/
def VerifyRun.refuse (exc : ExcType) (msg : String) : VerifyRun Spk Tx Pre :=
  ⟨[], raise exc msg⟩

/-- The kernel call of `ScriptPubkey_verify`, and how its status is reported. -/
def callVerify (K : VerifyKernel Spk Tx Pre) (args : VerifyArgs Spk Tx Pre) :
    VerifyRun Spk Tx Pre :=
  let (valid, status) := K.verify args
  ⟨[args],
    if status = .errorInvalidFlagsCombination then
      raise .valueError "invalid combination of script verification flags"
    else if status = .errorSpentOutputsRequired then
      raise .valueError
        "taproot verification requires precomputed transaction data with spent outputs"
    else .ok valid⟩

/-- `ScriptPubkey_verify` behind the argument parser, on C values. -/
def verifyChecked (K : VerifyKernel Spk Tx Pre) (self : Spk) (amount : Int) (tx : Tx)
    (inputIndex : BitVec 32) (flags : BitVec 64) (precomputed : Option Pre) :
    VerifyRun Spk Tx Pre :=
  -- The kernel asserts (aborts) on these, so they are rejected here.
  if flags &&& ~~~(K.verifyAll.setWidth 64) ≠ 0 then
    .refuse .valueError "unknown script verification flags set"
  else if inputIndex.toNat ≥ K.countInputs tx then
    .refuse .indexError "input_index out of range for tx_to"
  else callVerify K ⟨self, amount, tx, precomputed, inputIndex, flags.setWidth 32⟩

/-- `ScriptPubkey_verify`: argument units `LO!I|kO`. -/
def scriptPubkeyVerify (K : VerifyKernel Spk Tx Pre) (self : Spk) (amount : Int)
    (txTo : PyObj Tx Pre) (inputIndex flags : Int) (precomputed : PyObj Tx Pre) :
    VerifyRun Spk Tx Pre :=
  match argLongLong amount with
  | .error e => ⟨[], .error e⟩
  | .ok amount =>
    match txTo with
    | .transaction tx =>
      match precomputed with
      | .none => verifyChecked K self amount tx (argUnsignedInt inputIndex)
          (argUnsignedLong flags) .none
      | .precomputedTransactionData pre => verifyChecked K self amount tx
          (argUnsignedInt inputIndex) (argUnsignedLong flags) (.some pre)
      | _ => .refuse .typeError
          "precomputed_transaction_data must be PrecomputedTransactionData or None"
    | txTo => .refuse .typeError
        ("argument 2 must be pybitcoinkernel._bitcoinkernel.Transaction, not " ++ txTo.typeName)

/-- `verify_script`: the method, with `int(flags)`. -/
def verifyScript (K : VerifyKernel Spk Tx Pre) (scriptPubkey : Spk) (amount : Int)
    (txTo : PyObj Tx Pre) (inputIndex flags : Int) (precomputed : PyObj Tx Pre) :
    VerifyRun Spk Tx Pre :=
  scriptPubkeyVerify K scriptPubkey amount txTo inputIndex flags precomputed

/-- The flags of a call that names none: `SCRIPT_FLAGS_VERIFY_ALL`. -/
def defaultFlags (K : VerifyKernel Spk Tx Pre) : Int := K.verifyAll.toNat

/-! ## The question that was asked -/

/-- A Python integer with no bit outside `all`; a negative one has infinitely
many. -/
def HasOnly (all : BitVec 32) (flags : Int) : Prop :=
  0 ≤ flags ∧ ∀ k, flags.toNat.testBit k = true → all.getLsbD k = true

/-- A question the kernel can be asked: an input of the transaction, and known
flags. -/
def Askable (K : VerifyKernel Spk Tx Pre) (tx : Tx) (inputIndex flags : Int) : Prop :=
  (0 ≤ inputIndex ∧ inputIndex < K.countInputs tx) ∧ HasOnly K.verifyAll flags

/-- The call puts that very question to the kernel, once, or raises without asking. -/
def Faithful (K : VerifyKernel Spk Tx Pre) (self : Spk) (amount : Int) (tx : Tx)
    (precomputed : Option Pre) (inputIndex flags : Int) (run : VerifyRun Spk Tx Pre) : Prop :=
  (Askable K tx inputIndex flags → ∃ i f, run.calls = [⟨self, amount, tx, precomputed, i, f⟩] ∧
    run = callVerify K ⟨self, amount, tx, precomputed, i, f⟩ ∧
    (i.toNat : Int) = inputIndex ∧ (f.toNat : Int) = flags) ∧
  (¬ Askable K tx inputIndex flags → run.calls = [] ∧ ∃ e, run.result = .error e)

/-- An integer that does not fit its C type is reduced to one that does, and
the pair passes both guards. -/
def WrapsIntoRange (K : VerifyKernel Spk Tx Pre) (tx : Tx) (inputIndex flags : Int) : Prop :=
  Askable K tx (inputIndex % 2 ^ 32) (flags % 2 ^ 64) ∧
    (inputIndex % 2 ^ 32 ≠ inputIndex ∨ flags % 2 ^ 64 ≠ flags)

/-! ## The guards on C values -/

theorem argUnsignedInt_toNat (n : Int) : ((argUnsignedInt n).toNat : Int) = n % 2 ^ 32 := by
  unfold argUnsignedInt
  rw [BitVec.toNat_ofInt]
  omega

theorem argUnsignedLong_toNat (n : Int) : ((argUnsignedLong n).toNat : Int) = n % 2 ^ 64 := by
  unfold argUnsignedLong
  rw [BitVec.toNat_ofInt]
  omega

/-- The flag guard of the C code is the law about bits. -/
theorem flags_guard_iff (all : BitVec 32) (flags : BitVec 64) :
    flags &&& ~~~(all.setWidth 64) = 0 ↔ HasOnly all flags.toNat := by
  -- Both sides bit by bit; no flag has a bit past 64.
  have hbits : flags &&& ~~~(all.setWidth 64) = 0 ↔
      ∀ k, flags.getLsbD k = true → all.getLsbD k = true := by
    refine ⟨fun h k hk => ?_, fun h => ?_⟩
    · have hlt : k < 64 := BitVec.lt_of_getLsbD hk
      have hz : (flags &&& ~~~(all.setWidth 64)).getLsbD k = false := by rw [h]; simp
      simpa [hlt, hk] using hz
    · refine BitVec.eq_of_getLsbD_eq ?_
      intro k hlt
      have hk := h k
      cases hf : flags.getLsbD k
      · simp [hf]
      · simp [hlt, hk hf]
  rw [hbits]
  exact ⟨fun h => ⟨Int.natCast_nonneg _, h⟩, fun h => h.2⟩

/-- Known flags fit the kernel's 32-bit type. -/
theorem HasOnly.lt {all : BitVec 32} {flags : Int} (h : HasOnly all flags) : flags < 2 ^ 32 := by
  have hlt : flags.toNat < 2 ^ 32 := by
    refine Nat.lt_pow_two_of_testBit _ ?_
    intro k hk
    by_contra hbit
    -- Such a bit would be one of the 32 bits of `all`.
    have hknown := BitVec.lt_of_getLsbD (h.2 k (by simpa using hbit))
    omega
  omega

/-- Known flags survive the narrowing cast of the kernel call. -/
theorem known_flags_cast {all : BitVec 32} {flags : BitVec 64} (h : HasOnly all flags.toNat) :
    (flags.setWidth 32).toNat = flags.toNat := by
  have hlt := h.lt
  rw [BitVec.toNat_setWidth]
  exact Nat.mod_eq_of_lt (by omega)

/-- The default flags pass their own check. -/
theorem defaultFlags_hasOnly (K : VerifyKernel Spk Tx Pre) :
    HasOnly K.verifyAll (defaultFlags K) :=
  ⟨Int.natCast_nonneg _, fun _ hk => hk⟩

/-- Behind the argument parser, the question about the C values is put or refused
as it should be. -/
theorem verifyChecked_askable (K : VerifyKernel Spk Tx Pre) (self : Spk) (amount : Int)
    {tx : Tx} {i : BitVec 32} {flags : BitVec 64} (precomputed : Option Pre)
    (h : Askable K tx i.toNat flags.toNat) :
    verifyChecked K self amount tx i flags precomputed =
      callVerify K ⟨self, amount, tx, precomputed, i, flags.setWidth 32⟩ := by
  obtain ⟨⟨-, hi⟩, hf⟩ := h
  have hflags := (flags_guard_iff K.verifyAll flags).2 hf
  unfold verifyChecked
  rw [if_neg (not_not_intro hflags), if_neg (by omega)]

theorem verifyChecked_refused (K : VerifyKernel Spk Tx Pre) (self : Spk) (amount : Int)
    {tx : Tx} {i : BitVec 32} {flags : BitVec 64} (precomputed : Option Pre)
    (h : ¬ Askable K tx i.toNat flags.toNat) :
    (verifyChecked K self amount tx i flags precomputed).calls = [] ∧
      ∃ e, (verifyChecked K self amount tx i flags precomputed).result = .error e := by
  unfold verifyChecked
  by_cases hflags : flags &&& ~~~(K.verifyAll.setWidth 64) = 0
  · have hi : i.toNat ≥ K.countInputs tx := by
      by_contra hlt
      exact h ⟨⟨by omega, by omega⟩, (flags_guard_iff _ _).1 hflags⟩
    rw [if_neg (not_not_intro hflags), if_pos hi]
    exact ⟨rfl, _, rfl⟩
  · rw [if_pos hflags]
    exact ⟨rfl, _, rfl⟩

/-- An amount that fits and a well-typed transaction get through to the guards. -/
theorem scriptPubkeyVerify_eq (K : VerifyKernel Spk Tx Pre) (self : Spk) {amount : Int}
    (tx : Tx) (inputIndex flags : Int) (precomputed : Option Pre) (h : FitsSigned 63 amount) :
    scriptPubkeyVerify K self amount (.transaction tx) inputIndex flags
        (.ofPrecomputed precomputed) =
      verifyChecked K self amount tx (argUnsignedInt inputIndex) (argUnsignedLong flags)
        precomputed := by
  unfold scriptPubkeyVerify argLongLong
  rw [if_pos h]
  cases precomputed <;> rfl

/-! ## The questions that are answered -/

/-- A question that can be asked still can be once its integers are reduced. -/
theorem Askable.reduced {K : VerifyKernel Spk Tx Pre} {tx : Tx} {inputIndex flags : Int}
    (h : Askable K tx inputIndex flags) :
    flags % 2 ^ 64 = flags ∧ Askable K tx (inputIndex % 2 ^ 32) (flags % 2 ^ 64) := by
  obtain ⟨⟨hlo, hhi⟩, hf⟩ := h
  have hlt := hf.lt
  have hnonneg := hf.1
  have hflags : flags % 2 ^ 64 = flags := by omega
  refine ⟨hflags, ⟨by omega, by omega⟩, ?_⟩
  rw [hflags]
  exact hf

/-- **`ScriptPubkey.verify` answers the question it was asked exactly when no
reduced integer slips through the guards.** -/
theorem scriptPubkeyVerify_faithful_iff (K : VerifyKernel Spk Tx Pre) (self : Spk) (amount : Int)
    (tx : Tx) (precomputed : Option Pre) (inputIndex flags : Int) (hamount : FitsSigned 63 amount) :
    (Faithful K self amount tx precomputed inputIndex flags
        (scriptPubkeyVerify K self amount (.transaction tx) inputIndex flags
          (.ofPrecomputed precomputed)) ↔ ¬ WrapsIntoRange K tx inputIndex flags) ∧
      (Faithful K self amount tx precomputed inputIndex flags
        (verifyScript K self amount (.transaction tx) inputIndex flags
          (.ofPrecomputed precomputed)) ↔ ¬ WrapsIntoRange K tx inputIndex flags) := by
  refine (and_self_iff).2 ?_
  show Faithful K self amount tx precomputed inputIndex flags
    (scriptPubkeyVerify K self amount (.transaction tx) inputIndex flags
      (.ofPrecomputed precomputed)) ↔ _
  rw [scriptPubkeyVerify_eq K self tx inputIndex flags precomputed hamount]
  have hi := argUnsignedInt_toNat inputIndex
  have hf := argUnsignedLong_toNat flags
  by_cases hred : Askable K tx (inputIndex % 2 ^ 32) (flags % 2 ^ 64)
  · -- Both guards pass, so the kernel is called on the reduced values.
    have hred' := hred
    rw [← hi, ← hf] at hred'
    have hcast := known_flags_cast hred'.2
    rw [verifyChecked_askable K self amount precomputed hred']
    constructor
    · intro hfaithful hwraps
      obtain ⟨hask, href⟩ := hfaithful
      have hwrap := hwraps.2
      -- A faithful call has put the integers as they are, so none was reduced.
      by_cases h : Askable K tx inputIndex flags
      · obtain ⟨i, f, hcalls, -, hieq, hfeq⟩ := hask h
        have hargs := List.head_eq_of_cons_eq hcalls
        have hieq' := congrArg VerifyArgs.inputIndex hargs
        have hred2 := h.reduced.1
        simp only at hieq'
        subst hieq'
        rcases hwrap with h1 | h1 <;> omega
      · have hcalls := (href h).1
        exact absurd hcalls (List.cons_ne_nil _ _)
    · intro hwrap
      have heq : inputIndex % 2 ^ 32 = inputIndex ∧ flags % 2 ^ 64 = flags := by
        by_contra hne
        refine hwrap ⟨hred, ?_⟩
        omega
      rw [heq.1, heq.2] at hred
      exact ⟨fun _ => ⟨_, _, rfl, rfl, by omega, by omega⟩, fun h => absurd hred h⟩
  · -- A guard fails: nothing reaches the kernel, and nothing should.
    have hred' := hred
    rw [← hi, ← hf] at hred'
    have hrefused := verifyChecked_refused K self amount precomputed hred'
    exact iff_of_true ⟨fun h => absurd h.reduced.2 hred, fun _ => hrefused⟩ fun h => hred h.1

/-- A kernel with the flags of libbitcoinkernel in which a transaction is its
number of inputs and every script is valid. -/
def permissiveKernel : VerifyKernel Unit Nat Unit where
  verifyAll := 0x20E15#32
  countInputs := fun n => n
  verify := fun _ => (true, .ok)

/-- Input 1 of two under all flags is a question the kernel gets as asked. -/
theorem scriptPubkeyVerify_input_one :
    FitsSigned 63 50 ∧ ¬ WrapsIntoRange permissiveKernel 2 1 0x20E15 ∧
      Faithful permissiveKernel () 50 2 none 1 0x20E15
        (scriptPubkeyVerify permissiveKernel () 50 (.transaction 2) 1 0x20E15 .none) := by
  have hwrap : ¬ WrapsIntoRange permissiveKernel 2 1 0x20E15 := by
    intro hwrap
    rcases hwrap.2 with h | h <;> exact h (by decide)
  exact ⟨by decide, hwrap, (scriptPubkeyVerify_faithful_iff permissiveKernel () 50 2 none 1
    0x20E15 (by decide)).1.2 hwrap⟩

/-- Asked about input `2^32` of a transaction with one input, the kernel is asked
about input 0, and its verdict is returned. -/
theorem scriptPubkeyVerify_wraps_index :
    (scriptPubkeyVerify permissiveKernel () 50 (.transaction 1) (2 ^ 32) 0x20E15 .none).calls =
        [⟨(), 50, 1, none, 0#32, 0x20E15#32⟩] ∧
      (scriptPubkeyVerify permissiveKernel () 50 (.transaction 1) (2 ^ 32) 0x20E15 .none).result =
        .ok true ∧
      ¬ Faithful permissiveKernel () 50 1 none (2 ^ 32) 0x20E15
        (scriptPubkeyVerify permissiveKernel () 50 (.transaction 1) (2 ^ 32) 0x20E15 .none) := by
  refine ⟨by rfl, by rfl, ?_⟩
  intro h
  have hrefused := h.2 fun hask => absurd hask.1.2 (by decide)
  exact List.cons_ne_nil _ _ hrefused.1

end PyBitcoinKernel.Binding
