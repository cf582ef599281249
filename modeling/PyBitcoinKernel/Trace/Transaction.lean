import PyBitcoinKernel.Binding.Verify
import PyBitcoinKernel.Trace.Slot

/-!
# Checking a whole transaction, plain and traced

`verify_transaction` asks `verify_script` about one input after the other and
stops at the first that fails; `debug_transaction` runs `debug_script` on every
input. Both take the same way there: the length check, and one
`PrecomputedTransactionData` that all inputs share.

An input that raises is where the two could part: behind the first failing input
only the traced check would see it. But which error status the kernel reports
depends on the flags and on the precomputed data alone, and these the inputs
share, so either every input raises or none does (`verifyInput_alike`), and

> `transaction_checks_agree`: both raise the same exception, or the plain check
> says whether all the verdicts of the traced one are true.
-/

namespace PyBitcoinKernel.Trace

open PyBitcoinKernel.Binding

variable {Spk Tx Pre Cb : Type}

/-- `TransactionOutput`; the kernel keeps the amount as an `int64_t`. -/
structure TransactionOutput (Spk : Type) where
  scriptPubkey : Spk
  amount : Int
  amount_fits : FitsSigned 63 amount

/-- What the two checks use of libbitcoinkernel. -/
structure TransactionKernel (Spk Tx Pre : Type) extends VerifyKernel Spk Tx Pre where
  /-- `btck_precomputed_transaction_data_create`; `NULL` on failure. -/
  precompute : Tx → List (TransactionOutput Spk) → Option Pre
  /-- The frames a verification emits. -/
  frames : VerifyArgs Spk Tx Pre → List Frame

/-- `PrecomputedTransactionData_new`. -/
def precomputedTransactionDataNew (K : TransactionKernel Spk Tx Pre) (tx : Tx)
    (spent : Option (List (TransactionOutput Spk))) : PyResult Pre :=
  let outputs := spent.getD []
  if outputs.length ≠ 0 ∧ outputs.length ≠ K.countInputs tx then
    raise .valueError ("spent_outputs has " ++ toString outputs.length ++
      " entries but the transaction has " ++ toString (K.countInputs tx) ++
      " inputs; provide one spent output per input")
  else match K.precompute tx outputs with
    | none => raise .kernelError ("failed to create precomputed transaction data " ++
        "(spent outputs may not match transaction inputs)")
    | some pre => .ok pre

/-- Both checks up to their loop: the length check, and the shared data. -/
def shareData (K : TransactionKernel Spk Tx Pre) (tx : Tx)
    (spent : List (TransactionOutput Spk)) : PyResult Pre :=
  if spent.length ≠ K.countInputs tx then
    raise .valueError ("expected one spent output per input (" ++ toString (K.countInputs tx) ++
      "), got " ++ toString spent.length)
  else precomputedTransactionDataNew K tx (some spent)

/-- `verify_script(o.script_pubkey, o.amount, tx, i, flags, precomputed)`. -/
def verifyInput (K : TransactionKernel Spk Tx Pre) (tx : Tx) (flags : Int) (pre : Pre) (i : Nat)
    (o : TransactionOutput Spk) : VerifyRun Spk Tx Pre :=
  verifyScript K.toVerifyKernel o.scriptPubkey o.amount (.transaction tx) i flags
    (.precomputedTransactionData pre)

/-! ## The plain check -/

/-- The `all(...)` of `verify_transaction`, from input `i` on. -/
def verifyInputs (K : TransactionKernel Spk Tx Pre) (tx : Tx) (flags : Int) (pre : Pre) :
    Nat → List (TransactionOutput Spk) → PyResult Bool
  | _, [] => .ok true
  | i, o :: rest =>
    match (verifyInput K tx flags pre i o).result with
    | .error e => .error e
    | .ok false => .ok false
    | .ok true => verifyInputs K tx flags pre (i + 1) rest

/-- `verify_transaction`. -/
def verifyTransaction (K : TransactionKernel Spk Tx Pre) (tx : Tx)
    (spent : List (TransactionOutput Spk)) (flags : Int) : PyResult Bool :=
  match shareData K tx spent with
  | .error e => .error e
  | .ok pre => verifyInputs K tx flags pre 0 spent

/-! ## The traced check -/

/-- `debug_script` of one input; `flags` is not `None` there. -/
def debugInput [DecidableEq Cb] (K : TransactionKernel Spk Tx Pre) (k : TraceKernel Cb)
    (append : Cb) (tx : Tx) (flags : Int) (pre : Pre) (i : Nat) (o : TransactionOutput Spk) :
    PyResult ScriptTrace × TraceKernel Cb :=
  let run := verifyInput K tx flags pre i o
  debugScript k append ⟨run.calls.flatMap K.frames, run.result⟩

/-- The list `debug_transaction` builds, from input `i` on; `append i` is the
callback of input `i`. -/
def debugInputs [DecidableEq Cb] (K : TransactionKernel Spk Tx Pre) (append : Nat → Cb) (tx : Tx)
    (flags : Int) (pre : Pre) :
    Nat → List (TransactionOutput Spk) → TraceKernel Cb →
      PyResult (List ScriptTrace) × TraceKernel Cb
  | _, [], k => (.ok [], k)
  | i, o :: rest, k =>
    match debugInput K k (append i) tx flags pre i o with
    | (.error e, k) => (.error e, k)
    | (.ok trace, k) =>
      match debugInputs K append tx flags pre (i + 1) rest k with
      | (.error e, k) => (.error e, k)
      | (.ok traces, k) => (.ok (trace :: traces), k)

/-- `debug_transaction`; without flags it takes `ScriptVerificationFlags.ALL`. -/
def debugTransaction [DecidableEq Cb] (K : TransactionKernel Spk Tx Pre) (k : TraceKernel Cb)
    (append : Nat → Cb) (tx : Tx) (spent : List (TransactionOutput Spk)) (flags : Option Int) :
    PyResult (List ScriptTrace) × TraceKernel Cb :=
  let flags := flags.getD (defaultFlags K.toVerifyKernel)
  match shareData K tx spent with
  | .error e => (.error e, k)
  | .ok pre => debugInputs K append tx flags pre 0 spent k

/-! ## All inputs raise, or none -/

/-- The error statuses of the kernel depend on the flags, and on whether there is
precomputed data that carries spent outputs. -/
def StatusByFlags (K : TransactionKernel Spk Tx Pre) (carriesSpent : Pre → Bool) : Prop :=
  ∀ a b : VerifyArgs Spk Tx Pre, a.flags = b.flags →
    a.precomputed.map carriesSpent = b.precomputed.map carriesSpent →
    (K.verify a).2 = (K.verify b).2

/-- How `callVerify` reports a status: an exception of its own, or none. -/
def statusError : ScriptVerifyStatus → Option PyErr
  | .errorInvalidFlagsCombination =>
    some ⟨.valueError, "invalid combination of script verification flags"⟩
  | .errorSpentOutputsRequired => some ⟨.valueError,
      "taproot verification requires precomputed transaction data with spent outputs"⟩
  | .ok => none

theorem callVerify_error_iff {K : VerifyKernel Spk Tx Pre} {args : VerifyArgs Spk Tx Pre}
    {e : PyErr} :
    (callVerify K args).result = .error e ↔ statusError (K.verify args).2 = some e := by
  unfold callVerify
  cases hs : (K.verify args).2 <;> simp [hs, statusError, raise]

/-- In range, an input gets past the index guard, also where its number is
reduced. -/
theorem verifyInput_eq (K : TransactionKernel Spk Tx Pre) (tx : Tx) (flags : Int) (pre : Pre)
    {i : Nat} (o : TransactionOutput Spk) (hi : i < K.countInputs tx) :
    verifyInput K tx flags pre i o =
      if argUnsignedLong flags &&& ~~~(K.verifyAll.setWidth 64) ≠ 0 then
        .refuse .valueError "unknown script verification flags set"
      else callVerify K.toVerifyKernel ⟨o.scriptPubkey, o.amount, tx, some pre, argUnsignedInt i,
        (argUnsignedLong flags).setWidth 32⟩ := by
  have hcall := scriptPubkeyVerify_eq K.toVerifyKernel o.scriptPubkey tx i flags (some pre)
    o.amount_fits
  have hindex : ¬ (argUnsignedInt i).toNat ≥ K.countInputs tx := by
    have hred := argUnsignedInt_toNat i
    omega
  show scriptPubkeyVerify K.toVerifyKernel o.scriptPubkey o.amount (.transaction tx) i flags
    (.ofPrecomputed (some pre)) = _
  rw [hcall, verifyChecked, if_neg hindex]

/-- **If one input raises, every input raises the same.** -/
theorem verifyInput_alike {K : TransactionKernel Spk Tx Pre} {carriesSpent : Pre → Bool}
    (hstatus : StatusByFlags K carriesSpent) {tx : Tx} {flags : Int} {pre : Pre} {i j : Nat}
    {o o' : TransactionOutput Spk} (hi : i < K.countInputs tx) (hj : j < K.countInputs tx)
    {e : PyErr} (h : (verifyInput K tx flags pre i o).result = .error e) :
    (verifyInput K tx flags pre j o').result = .error e := by
  rw [verifyInput_eq K tx flags pre o hi] at h
  rw [verifyInput_eq K tx flags pre o' hj]
  by_cases hflags : argUnsignedLong flags &&& ~~~(K.verifyAll.setWidth 64) ≠ 0
  · rw [if_pos hflags] at h ⊢
    exact h
  · rw [if_neg hflags, callVerify_error_iff] at h ⊢
    rw [← h]
    exact congrArg statusError (hstatus _ _ rfl rfl)

/-! ## The two loops -/

/-- No input from number `i` on raises. -/
def NoneRaises (K : TransactionKernel Spk Tx Pre) (tx : Tx) (flags : Int) (pre : Pre) (i : Nat)
    (spent : List (TransactionOutput Spk)) : Prop :=
  ∀ p ∈ spent.zipIdx i, ∃ b, (verifyInput K tx flags pre p.2 p.1).result = .ok b

/-- The traces are of the inputs from number `i` on, with the verdicts `verify_script` gives. -/
def TraceVerdicts (K : TransactionKernel Spk Tx Pre) (tx : Tx) (flags : Int) (pre : Pre) (i : Nat)
    (spent : List (TransactionOutput Spk)) (traces : List ScriptTrace) : Prop :=
  List.Forall₂
    (fun p trace => (verifyScript K.toVerifyKernel p.1.scriptPubkey p.1.amount (.transaction tx) p.2
      flags (.precomputedTransactionData pre)).result = .ok trace.valid)
    (spent.zipIdx i) traces

theorem NoneRaises.cons {K : TransactionKernel Spk Tx Pre} {tx : Tx} {flags : Int} {pre : Pre}
    {i : Nat} {o : TransactionOutput Spk} {rest : List (TransactionOutput Spk)}
    (h : NoneRaises K tx flags pre i (o :: rest)) :
    (∃ b, (verifyInput K tx flags pre i o).result = .ok b) ∧
      NoneRaises K tx flags pre (i + 1) rest :=
  ⟨h (o, i) (List.mem_cons_self ..), fun p hp => h p (List.mem_cons_of_mem _ hp)⟩

/-- Where no input raises, the traced loop returns one trace for each. -/
theorem debugInputs_ok [DecidableEq Cb] {K : TransactionKernel Spk Tx Pre} (append : Nat → Cb)
    {tx : Tx} {flags : Int} {pre : Pre} :
    ∀ {spent : List (TransactionOutput Spk)} {i : Nat} {k : TraceKernel Cb}, k.tracing = true →
      NoneRaises K tx flags pre i spent →
      ∃ traces, (debugInputs K append tx flags pre i spent k).1 = .ok traces ∧
        TraceVerdicts K tx flags pre i spent traces := by
  intro spent
  induction spent with
  | nil => intro i k _ _; exact ⟨[], rfl, List.Forall₂.nil⟩
  | cons o rest ih =>
    intro i k htr h
    obtain ⟨⟨b, hfirst⟩, hrest⟩ := h.cons
    obtain ⟨traces, htraces, hverdicts⟩ := ih (k := { k with slot := none }) htr hrest
    have hstart : debugInput K k (append i) tx flags pre i o =
        (.ok ⟨b, (verifyInput K tx flags pre i o).calls.flatMap K.frames⟩,
          { k with slot := none }) := by
      rw [debugInput, debugScript_tracing htr, hfirst]
      rfl
    refine ⟨⟨b, (verifyInput K tx flags pre i o).calls.flatMap K.frames⟩ :: traces, ?_,
      List.Forall₂.cons hfirst hverdicts⟩
    rw [debugInputs, hstart]
    cases hloop : debugInputs K append tx flags pre (i + 1) rest { k with slot := none } with
    | mk result k' =>
      rw [hloop] at htraces
      obtain rfl : result = .ok traces := htraces
      simp only [hloop]

/-- The plain loop says whether the verdicts of all the traces are true. -/
theorem verifyInputs_ok {K : TransactionKernel Spk Tx Pre} {tx : Tx} {flags : Int} {pre : Pre} :
    ∀ {spent : List (TransactionOutput Spk)} {i : Nat} {traces : List ScriptTrace},
      TraceVerdicts K tx flags pre i spent traces →
      ∃ valid, verifyInputs K tx flags pre i spent = .ok valid ∧
        (valid = true ↔ ∀ trace ∈ traces, trace.valid = true) := by
  intro spent
  induction spent with
  | nil =>
    intro i traces h
    cases h
    exact ⟨true, rfl, iff_of_true rfl fun _ ht => absurd ht List.not_mem_nil⟩
  | cons o rest ih =>
    intro i traces h
    obtain ⟨trace, traces', hverdict, hrest, rfl⟩ := List.forall₂_cons_left_iff.mp h
    have hfirst : (verifyInput K tx flags pre i o).result = .ok trace.valid := hverdict
    rw [verifyInputs, hfirst]
    cases hv : trace.valid with
    | false =>
      -- The loop stops here; the traces behind it do not matter.
      refine ⟨false, rfl, iff_of_false Bool.false_ne_true ?_⟩
      intro hall
      rw [hall trace (List.mem_cons_self ..)] at hv
      cases hv
    | true =>
      obtain ⟨valid, hloop, hiff⟩ := ih hrest
      refine ⟨valid, hloop, hiff.trans ?_⟩
      rw [List.forall_mem_cons]
      exact ⟨fun hall => ⟨hv, hall⟩, fun hall => hall.2⟩

/-- An input that raises ends the traced loop. -/
theorem debugInputs_error [DecidableEq Cb] {K : TransactionKernel Spk Tx Pre}
    {append : Nat → Cb} {tx : Tx} {flags : Int} {pre : Pre} {i : Nat} {o : TransactionOutput Spk}
    {rest : List (TransactionOutput Spk)} {k : TraceKernel Cb} {e : PyErr}
    (htr : k.tracing = true) (h : (verifyInput K tx flags pre i o).result = .error e) :
    (debugInputs K append tx flags pre i (o :: rest) k).1 = .error e := by
  rw [debugInputs, debugInput, h, debugScript_tracing htr]
  rfl

/-! ## Agreement -/

/-- The two checks of `tx` under `flags` say the same. -/
def ChecksAgree (K : TransactionKernel Spk Tx Pre) (tx : Tx)
    (spent : List (TransactionOutput Spk)) (flags : Int) :
    PyResult Bool → PyResult (List ScriptTrace) → Prop
  | .error e, .error e' => e.exc = e'.exc
  | .ok valid, .ok traces =>
    traces.length = K.countInputs tx ∧
      (∃ pre, precomputedTransactionDataNew K tx (some spent) = .ok pre ∧
        TraceVerdicts K tx flags pre 0 spent traces) ∧
      (valid = true ↔ ∀ trace ∈ traces, trace.valid = true)
  | _, _ => False

/-- **The plain and the traced check of a transaction agree.** -/
theorem transaction_checks_agree [DecidableEq Cb] (K : TransactionKernel Spk Tx Pre)
    (carriesSpent : Pre → Bool) (hstatus : StatusByFlags K carriesSpent) (k : TraceKernel Cb)
    (htr : k.tracing = true) (append : Nat → Cb) (tx : Tx) (spent : List (TransactionOutput Spk))
    (flags : Int) :
    ChecksAgree K tx spent flags (verifyTransaction K tx spent flags)
      (debugTransaction K k append tx spent (some flags)).1 := by
  unfold verifyTransaction debugTransaction
  rw [Option.getD_some]
  cases hshare : shareData K tx spent with
  | error e => exact rfl
  | ok pre =>
    have hlen : spent.length = K.countInputs tx := by
      by_contra hne
      rw [shareData, if_pos hne] at hshare
      cases hshare
    have hpre : precomputedTransactionDataNew K tx (some spent) = .ok pre := by
      rw [shareData, if_neg (not_not_intro hlen)] at hshare
      exact hshare
    dsimp only
    by_cases hraise : ∃ e o rest, spent = o :: rest ∧
        (verifyInput K tx flags pre 0 o).result = .error e
    · -- Both loops end at the first input.
      obtain ⟨e, o, rest, rfl, he⟩ := hraise
      rw [debugInputs_error htr he, verifyInputs, he]
      exact rfl
    · have hnone : NoneRaises K tx flags pre 0 spent := by
        intro p hp
        cases hres : (verifyInput K tx flags pre p.2 p.1).result with
        | ok b => exact ⟨b, rfl⟩
        | error e =>
          -- Then the first input would have raised as well.
          refine absurd ?_ hraise
          obtain ⟨-, hlt, -⟩ := List.mem_zipIdx hp
          cases hspent : spent with
          | nil =>
            rw [hspent] at hp
            cases hp
          | cons o rest =>
            refine ⟨e, o, rest, rfl, verifyInput_alike hstatus ?_ ?_ hres⟩
            · omega
            · rw [← hlen, hspent]
              exact Nat.succ_pos _
      obtain ⟨traces, htraces, hverdicts⟩ := debugInputs_ok append htr hnone
      obtain ⟨valid, hvalid, hiff⟩ := verifyInputs_ok hverdicts
      rw [hvalid, htraces]
      refine ⟨?_, ⟨pre, hpre, hverdicts⟩, hiff⟩
      rw [← hverdicts.length_eq, List.length_zipIdx, hlen]

/-- A kernel in which input 1 alone fails, and no status is an error. -/
def secondFails : TransactionKernel Unit Nat Bool where
  verifyAll := 0x20E15#32
  countInputs := fun n => n
  verify := fun args => (args.inputIndex != 1#32, .ok)
  precompute := fun _ outputs => some (!outputs.isEmpty)
  frames := fun _ => []

/-- Of three inputs the second fails: the plain check stops there, the traced one
goes on, and they agree. -/
theorem transaction_checks_agree_three :
    StatusByFlags secondFails id ∧
      verifyTransaction secondFails 3 (List.replicate 3 ⟨(), 50, by decide⟩) 0x20E15 =
        .ok false ∧
      ChecksAgree secondFails 3 (List.replicate 3 ⟨(), 50, by decide⟩) 0x20E15
        (verifyTransaction secondFails 3 (List.replicate 3 ⟨(), 50, by decide⟩) 0x20E15)
        (debugTransaction secondFails ⟨true, none⟩ id 3 (List.replicate 3 ⟨(), 50, by decide⟩)
          (some 0x20E15)).1 :=
  ⟨fun _ _ _ _ => rfl, rfl, transaction_checks_agree secondFails id (fun _ _ _ _ => rfl)
    ⟨true, none⟩ rfl id 3 _ 0x20E15⟩

end PyBitcoinKernel.Trace
