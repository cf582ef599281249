import PyBitcoinKernel.Trace.Executions
import PyBitcoinKernel.Script.Classify
import PyBitcoinKernel.Binding.Python

/-!
# What a trace reports

The properties of `ScriptExecution` and `ScriptTrace` that read the frames of a
group, and the two enumerations their numbers are turned into. The overall error
goes through two layers: `executions` cuts the trace into groups, and each group
looks backwards for its `END` frame. In a group an `END` can only stand last
(`end_last`), so the backward scan finds what a forward one does
(`endFrame_eq_find?`), and the first group that reports an error holds the first
`END` frame of the whole list that carries one:

> `error_eq_streamed`: when the `END` frames carry known codes, the error of a
> trace is the first non-zero code of its `END` frames in stream order, and `OK`
> when there is none.
-/

namespace PyBitcoinKernel.Trace

open PyBitcoinKernel.Script PyBitcoinKernel.Binding

/-! ## The enumerations -/

/-- `SigVersion`. -/
inductive SigVersion where
  | BASE
  | WITNESS_V0
  | TAPROOT
  | TAPSCRIPT
  deriving DecidableEq, Repr

def SigVersion.value : SigVersion → Nat
  | .BASE => 0
  | .WITNESS_V0 => 1
  | .TAPROOT => 2
  | .TAPSCRIPT => 3

def SigVersion.name : SigVersion → String
  | .BASE => "BASE"
  | .WITNESS_V0 => "WITNESS_V0"
  | .TAPROOT => "TAPROOT"
  | .TAPSCRIPT => "TAPSCRIPT"

def SigVersion.members : List SigVersion := [.BASE, .WITNESS_V0, .TAPROOT, .TAPSCRIPT]

/-- `SigVersion(n)`. -/
def SigVersion.ofInt : Int → PyResult SigVersion := intEnum "SigVersion" members value

/-- `ScriptError`. -/
inductive ScriptError where
  | OK | UNKNOWN_ERROR | EVAL_FALSE | OP_RETURN | SCRIPTNUM | SCRIPT_SIZE | PUSH_SIZE | OP_COUNT
  | STACK_SIZE | SIG_COUNT | PUBKEY_COUNT | VERIFY | EQUALVERIFY | CHECKMULTISIGVERIFY
  | CHECKSIGVERIFY | NUMEQUALVERIFY | BAD_OPCODE | DISABLED_OPCODE | INVALID_STACK_OPERATION
  | INVALID_ALTSTACK_OPERATION | UNBALANCED_CONDITIONAL | NEGATIVE_LOCKTIME
  | UNSATISFIED_LOCKTIME | SIG_HASHTYPE | SIG_DER | MINIMALDATA | SIG_PUSHONLY | SIG_HIGH_S
  | SIG_NULLDUMMY | PUBKEYTYPE | CLEANSTACK | MINIMALIF | SIG_NULLFAIL
  | DISCOURAGE_UPGRADABLE_NOPS | DISCOURAGE_UPGRADABLE_WITNESS_PROGRAM
  | DISCOURAGE_UPGRADABLE_TAPROOT_VERSION | DISCOURAGE_OP_SUCCESS
  | DISCOURAGE_UPGRADABLE_PUBKEYTYPE | WITNESS_PROGRAM_WRONG_LENGTH
  | WITNESS_PROGRAM_WITNESS_EMPTY | WITNESS_PROGRAM_MISMATCH | WITNESS_MALLEATED
  | WITNESS_MALLEATED_P2SH | WITNESS_UNEXPECTED | WITNESS_PUBKEYTYPE | SCHNORR_SIG_SIZE
  | SCHNORR_SIG_HASHTYPE | SCHNORR_SIG | TAPROOT_WRONG_CONTROL_SIZE | TAPSCRIPT_VALIDATION_WEIGHT
  | TAPSCRIPT_CHECKMULTISIG | TAPSCRIPT_MINIMALIF | TAPSCRIPT_EMPTY_PUBKEY | OP_CODESEPARATOR
  | SIG_FINDANDDELETE
  deriving DecidableEq, Repr

/-- A member of `ScriptError`: its value and its name. -/
def ScriptError.member : ScriptError → Nat × String
  | .OK => (0, "OK") | .UNKNOWN_ERROR => (1, "UNKNOWN_ERROR") | .EVAL_FALSE => (2, "EVAL_FALSE")
  | .OP_RETURN => (3, "OP_RETURN") | .SCRIPTNUM => (4, "SCRIPTNUM")
  | .SCRIPT_SIZE => (5, "SCRIPT_SIZE") | .PUSH_SIZE => (6, "PUSH_SIZE")
  | .OP_COUNT => (7, "OP_COUNT") | .STACK_SIZE => (8, "STACK_SIZE")
  | .SIG_COUNT => (9, "SIG_COUNT") | .PUBKEY_COUNT => (10, "PUBKEY_COUNT")
  | .VERIFY => (11, "VERIFY") | .EQUALVERIFY => (12, "EQUALVERIFY")
  | .CHECKMULTISIGVERIFY => (13, "CHECKMULTISIGVERIFY")
  | .CHECKSIGVERIFY => (14, "CHECKSIGVERIFY") | .NUMEQUALVERIFY => (15, "NUMEQUALVERIFY")
  | .BAD_OPCODE => (16, "BAD_OPCODE") | .DISABLED_OPCODE => (17, "DISABLED_OPCODE")
  | .INVALID_STACK_OPERATION => (18, "INVALID_STACK_OPERATION")
  | .INVALID_ALTSTACK_OPERATION => (19, "INVALID_ALTSTACK_OPERATION")
  | .UNBALANCED_CONDITIONAL => (20, "UNBALANCED_CONDITIONAL")
  | .NEGATIVE_LOCKTIME => (21, "NEGATIVE_LOCKTIME")
  | .UNSATISFIED_LOCKTIME => (22, "UNSATISFIED_LOCKTIME") | .SIG_HASHTYPE => (23, "SIG_HASHTYPE")
  | .SIG_DER => (24, "SIG_DER") | .MINIMALDATA => (25, "MINIMALDATA")
  | .SIG_PUSHONLY => (26, "SIG_PUSHONLY") | .SIG_HIGH_S => (27, "SIG_HIGH_S")
  | .SIG_NULLDUMMY => (28, "SIG_NULLDUMMY") | .PUBKEYTYPE => (29, "PUBKEYTYPE")
  | .CLEANSTACK => (30, "CLEANSTACK") | .MINIMALIF => (31, "MINIMALIF")
  | .SIG_NULLFAIL => (32, "SIG_NULLFAIL")
  | .DISCOURAGE_UPGRADABLE_NOPS => (33, "DISCOURAGE_UPGRADABLE_NOPS")
  | .DISCOURAGE_UPGRADABLE_WITNESS_PROGRAM => (34, "DISCOURAGE_UPGRADABLE_WITNESS_PROGRAM")
  | .DISCOURAGE_UPGRADABLE_TAPROOT_VERSION => (35, "DISCOURAGE_UPGRADABLE_TAPROOT_VERSION")
  | .DISCOURAGE_OP_SUCCESS => (36, "DISCOURAGE_OP_SUCCESS")
  | .DISCOURAGE_UPGRADABLE_PUBKEYTYPE => (37, "DISCOURAGE_UPGRADABLE_PUBKEYTYPE")
  | .WITNESS_PROGRAM_WRONG_LENGTH => (38, "WITNESS_PROGRAM_WRONG_LENGTH")
  | .WITNESS_PROGRAM_WITNESS_EMPTY => (39, "WITNESS_PROGRAM_WITNESS_EMPTY")
  | .WITNESS_PROGRAM_MISMATCH => (40, "WITNESS_PROGRAM_MISMATCH")
  | .WITNESS_MALLEATED => (41, "WITNESS_MALLEATED")
  | .WITNESS_MALLEATED_P2SH => (42, "WITNESS_MALLEATED_P2SH")
  | .WITNESS_UNEXPECTED => (43, "WITNESS_UNEXPECTED")
  | .WITNESS_PUBKEYTYPE => (44, "WITNESS_PUBKEYTYPE")
  | .SCHNORR_SIG_SIZE => (45, "SCHNORR_SIG_SIZE")
  | .SCHNORR_SIG_HASHTYPE => (46, "SCHNORR_SIG_HASHTYPE") | .SCHNORR_SIG => (47, "SCHNORR_SIG")
  | .TAPROOT_WRONG_CONTROL_SIZE => (48, "TAPROOT_WRONG_CONTROL_SIZE")
  | .TAPSCRIPT_VALIDATION_WEIGHT => (49, "TAPSCRIPT_VALIDATION_WEIGHT")
  | .TAPSCRIPT_CHECKMULTISIG => (50, "TAPSCRIPT_CHECKMULTISIG")
  | .TAPSCRIPT_MINIMALIF => (51, "TAPSCRIPT_MINIMALIF")
  | .TAPSCRIPT_EMPTY_PUBKEY => (52, "TAPSCRIPT_EMPTY_PUBKEY")
  | .OP_CODESEPARATOR => (53, "OP_CODESEPARATOR")
  | .SIG_FINDANDDELETE => (54, "SIG_FINDANDDELETE")

def ScriptError.value (e : ScriptError) : Nat := e.member.1

def ScriptError.name (e : ScriptError) : String := e.member.2

def ScriptError.members : List ScriptError :=
  [.OK, .UNKNOWN_ERROR, .EVAL_FALSE, .OP_RETURN, .SCRIPTNUM, .SCRIPT_SIZE, .PUSH_SIZE,
    .OP_COUNT, .STACK_SIZE, .SIG_COUNT, .PUBKEY_COUNT, .VERIFY, .EQUALVERIFY,
    .CHECKMULTISIGVERIFY, .CHECKSIGVERIFY, .NUMEQUALVERIFY, .BAD_OPCODE, .DISABLED_OPCODE,
    .INVALID_STACK_OPERATION, .INVALID_ALTSTACK_OPERATION, .UNBALANCED_CONDITIONAL,
    .NEGATIVE_LOCKTIME, .UNSATISFIED_LOCKTIME, .SIG_HASHTYPE, .SIG_DER, .MINIMALDATA,
    .SIG_PUSHONLY, .SIG_HIGH_S, .SIG_NULLDUMMY, .PUBKEYTYPE, .CLEANSTACK, .MINIMALIF,
    .SIG_NULLFAIL, .DISCOURAGE_UPGRADABLE_NOPS, .DISCOURAGE_UPGRADABLE_WITNESS_PROGRAM,
    .DISCOURAGE_UPGRADABLE_TAPROOT_VERSION, .DISCOURAGE_OP_SUCCESS,
    .DISCOURAGE_UPGRADABLE_PUBKEYTYPE, .WITNESS_PROGRAM_WRONG_LENGTH,
    .WITNESS_PROGRAM_WITNESS_EMPTY, .WITNESS_PROGRAM_MISMATCH, .WITNESS_MALLEATED,
    .WITNESS_MALLEATED_P2SH, .WITNESS_UNEXPECTED, .WITNESS_PUBKEYTYPE, .SCHNORR_SIG_SIZE,
    .SCHNORR_SIG_HASHTYPE, .SCHNORR_SIG, .TAPROOT_WRONG_CONTROL_SIZE,
    .TAPSCRIPT_VALIDATION_WEIGHT, .TAPSCRIPT_CHECKMULTISIG, .TAPSCRIPT_MINIMALIF,
    .TAPSCRIPT_EMPTY_PUBKEY, .OP_CODESEPARATOR, .SIG_FINDANDDELETE]

/-- `ScriptError(n)`. -/
def ScriptError.ofInt : Int → PyResult ScriptError := intEnum "ScriptError" members value

/-- A signature version the kernel can report. -/
theorem SigVersion.ofInt_ok {n : Int} (h : 0 ≤ n ∧ n ≤ 3) :
    ∃ v, SigVersion.ofInt n = .ok v ∧ (v.value : Int) = n :=
  intEnum_ok "SigVersion" (N := 4) rfl ⟨h.1, by omega⟩

/-- An error code the kernel can report. -/
theorem ScriptError.ofInt_ok {n : Int} (h : 0 ≤ n ∧ n ≤ 54) :
    ∃ e, ScriptError.ofInt n = .ok e ∧ (e.value : Int) = n :=
  intEnum_ok "ScriptError" (N := 55) rfl ⟨h.1, by omega⟩

theorem ScriptError.value_eq_zero {e : ScriptError} : e.value = 0 ↔ e = .OK := by
  cases e <;> decide

theorem ScriptError.mem_members (e : ScriptError) : e ∈ ScriptError.members := by
  cases e <;> decide

theorem ScriptError.value_inj : Function.Injective ScriptError.value := by
  intro e e' h
  have hnodup : (ScriptError.members.map ScriptError.value).Nodup := by decide +kernel
  exact List.inj_on_of_nodup_map hnodup (mem_members e) (mem_members e') h

theorem ScriptError.name_inj : Function.Injective ScriptError.name := by
  intro e e' h
  have hnodup : (ScriptError.members.map fun e => Delimited.key e.name).Nodup := by decide +kernel
  exact List.inj_on_of_nodup_map hnodup (mem_members e) (mem_members e') (congrArg Delimited.key h)

/-- Names are one word. -/
theorem ScriptError.free_name (e : ScriptError) : Delimited.Free '\n' e.name := by
  have hall : ∀ e ∈ ScriptError.members, 0x0A ∉ Delimited.bytes e.name := by decide +kernel
  exact Delimited.free_newline (hall e (mem_members e))

theorem SigVersion.free_name (v : SigVersion) : Delimited.Free '\n' v.name := by
  refine Delimited.free_newline ?_
  cases v <;> decide +kernel

/-! ## One execution -/

namespace ScriptExecution

/-- `ScriptExecution.begin`. -/
def beginFrame (x : ScriptExecution) : Option Frame := x.frames.find? (·.kind = .BEGIN)

/-- `ScriptExecution.end`: the frames are looked through backwards. -/
def endFrame (x : ScriptExecution) : Option Frame := x.frames.reverse.find? (·.kind = .END)

/-- `ScriptExecution.steps`. -/
def steps (x : ScriptExecution) : List Frame := x.frames.filter (·.kind = .STEP)

/-- `self.begin or (self.frames[0] if self.frames else None)`. -/
def ref (x : ScriptExecution) : Option Frame := x.beginFrame.or x.frames.head?

/-- `ScriptExecution.script`. -/
def script (x : ScriptExecution) : Bytes :=
  match x.ref with
  | some f => f.script
  | none => []

/-- `ScriptExecution.sig_version`. -/
def sigVersion (x : ScriptExecution) : PyResult SigVersion :=
  match x.ref with
  | some f => SigVersion.ofInt f.sigVersion.toNat
  | none => .ok .BASE

/-- `ScriptExecution.script_type`. -/
def scriptType (x : ScriptExecution) : String := classifyScript x.script

/-- `ScriptExecution.error`. -/
def error (x : ScriptExecution) : PyResult ScriptError :=
  match x.endFrame with
  | some f => ScriptError.ofInt f.scriptError
  | none => .ok .OK

/-- `ScriptExecution.final_stack`. -/
def finalStack (x : ScriptExecution) : List Bytes :=
  match x.endFrame with
  | some f => f.stack
  | none => []

end ScriptExecution

/-- The loop of `ScriptTrace.error`. -/
def firstError : List ScriptExecution → PyResult ScriptError
  | [] => .ok .OK
  | x :: xs => do
    let e ← x.error
    if e ≠ .OK then return e
    firstError xs

/-- `ScriptTrace.error`. -/
def ScriptTrace.error (t : ScriptTrace) : PyResult ScriptError := firstError t.executions

/-! ## The error in stream order -/

/-- The code of the first `END` frame that carries one. -/
def streamedError (frames : List Frame) : Int :=
  match frames.find? fun f => f.kind = .END ∧ f.scriptError ≠ 0 with
  | some f => f.scriptError
  | none => 0

/-- The `END` frames carry codes of `ScriptError`. -/
def CodesKnown (frames : List Frame) : Prop :=
  ∀ f ∈ frames, f.kind = .END → 0 ≤ f.scriptError ∧ f.scriptError ≤ 54

/-- Only the last frame of a group can be an `END`. -/
theorem not_end_of_mem {l : List Frame} {z : Frame}
    (h : (l ++ [z]).IsChain fun a b => joins a b) : ∀ f ∈ l, f.kind ≠ .END := by
  intro f hf he
  obtain ⟨i, hi, rfl⟩ := List.getElem_of_mem hf
  have hlt : i < (l ++ [z]).length := by
    rw [List.length_append]
    omega
  have hlast := end_last h hlt (by rw [List.getElem_append_left hi]; exact he)
  rw [List.length_append, List.length_singleton] at hlast
  omega

/-- So it does not matter from which side it is looked for. -/
theorem endFrame_eq_find? {g : List Frame} (h : g.IsChain fun a b => joins a b) :
    (ScriptExecution.mk g).endFrame = g.find? (·.kind = .END) := by
  rcases List.eq_nil_or_concat' g with rfl | ⟨l, z, rfl⟩
  · rfl
  · have hno := not_end_of_mem h
    have hl : l.find? (·.kind = .END) = none := List.find?_eq_none.mpr (by simpa using hno)
    have hl' : l.reverse.find? (·.kind = .END) = none :=
      List.find?_eq_none.mpr (by simpa using hno)
    show (l ++ [z]).reverse.find? _ = _
    rw [List.reverse_append, List.reverse_singleton, List.find?_append, List.find?_append, hl, hl',
      Option.or_none, Option.none_or]

/-- And an `END` without an error hides no other. -/
theorem find?_error_eq {g : List Frame} (h : g.IsChain fun a b => joins a b) :
    (g.find? fun f => f.kind = .END ∧ f.scriptError ≠ 0) =
      (g.find? (·.kind = .END)).filter fun f => f.scriptError ≠ 0 := by
  rcases List.eq_nil_or_concat' g with rfl | ⟨l, z, rfl⟩
  · rfl
  · have hno := not_end_of_mem h
    have hl : l.find? (·.kind = .END) = none := List.find?_eq_none.mpr (by simpa using hno)
    have hl' : (l.find? fun f => f.kind = .END ∧ f.scriptError ≠ 0) = none := by
      refine List.find?_eq_none.mpr ?_
      intro f hf
      simp [hno f hf]
    rw [List.find?_append, List.find?_append, hl, hl', Option.none_or, Option.none_or]
    by_cases hz : z.kind = .END
    · simp [hz, Option.filter]
    · simp [hz]

theorem streamedError_append (g rest : List Frame) :
    streamedError (g ++ rest) =
      match g.find? fun f => f.kind = .END ∧ f.scriptError ≠ 0 with
      | some f => f.scriptError
      | none => streamedError rest := by
  unfold streamedError
  rw [List.find?_append]
  cases g.find? fun f => f.kind = .END ∧ f.scriptError ≠ 0 with
  | some f => rfl
  | none => rw [Option.none_or]

/-- The loop over the groups scans what they concatenate to. -/
theorem firstError_eq (gs : List (List Frame)) (hchain : ∀ g ∈ gs, g.IsChain fun a b => joins a b)
    (hcodes : CodesKnown gs.flatten) :
    ∃ e, firstError (gs.map ScriptExecution.mk) = .ok e ∧
      (e.value : Int) = streamedError gs.flatten := by
  induction gs with
  | nil => exact ⟨.OK, rfl, rfl⟩
  | cons g gs ih =>
    have hg := hchain g (List.mem_cons_self ..)
    have hrest := ih (fun g' hg' => hchain g' (List.mem_cons_of_mem _ hg'))
      fun f hf => hcodes f (List.mem_append_right _ hf)
    rw [List.map_cons, List.flatten_cons, streamedError_append, find?_error_eq hg,
      ← endFrame_eq_find? hg, firstError, ScriptExecution.error]
    cases hend : (ScriptExecution.mk g).endFrame with
    | none => exact hrest
    | some f =>
      rw [endFrame_eq_find? hg] at hend
      have hf : f.kind = .END := by simpa using List.find?_some hend
      have hmem : f ∈ (g :: gs).flatten := List.mem_append_left _ (List.mem_of_find?_eq_some hend)
      obtain ⟨e, he, hval⟩ := ScriptError.ofInt_ok (hcodes f hmem hf)
      dsimp only
      rw [he, Option.filter]
      by_cases hok : e = .OK
      · -- This group reports nothing, so the loop goes on.
        have hzero : f.scriptError = 0 := by rw [← hval, ScriptError.value_eq_zero.mpr hok]; rfl
        rw [if_neg (by simpa using hzero)]
        show ∃ e', (if e ≠ .OK then _ else _) = _ ∧ _
        rw [if_neg (not_not_intro hok)]
        exact hrest
      · have hcode : f.scriptError ≠ 0 := by
          rw [← hval]
          exact fun hno => hok (ScriptError.value_eq_zero.mp (by exact_mod_cast hno))
        rw [if_pos (by simpa using hcode)]
        refine ⟨e, ?_, hval⟩
        show (if e ≠ .OK then _ else _) = _
        rw [if_pos hok]
        rfl

/-- Only the `END` frames say anything about the error. -/
theorem streamedError_filter (frames : List Frame) :
    streamedError (frames.filter (·.kind = .END)) = streamedError frames := by
  unfold streamedError
  rw [List.find?_filter]
  congr 1
  simp

theorem error_ok {t : ScriptTrace} (h : CodesKnown t.frames) :
    ∃ e, t.error = .ok e ∧ (e.value : Int) = streamedError t.frames := by
  have hflat : t.groups.flatten = t.frames := by rw [groups_eq_splitBy, List.flatten_splitBy]
  have hchain : ∀ g ∈ t.groups, g.IsChain fun a b => joins a b := by
    intro g hg
    rw [groups_eq_splitBy] at hg
    exact List.isChain_of_mem_splitBy hg
  have hloop := firstError_eq t.groups hchain (hflat.symm ▸ h)
  rw [hflat] at hloop
  rwa [ScriptTrace.groups, List.map_map, Function.comp_def, List.map_id'] at hloop

/-- **The overall error is the streamed one**, and what the frames other than the
`END`s carry does not matter. -/
theorem error_eq_streamed (t : ScriptTrace) (h : CodesKnown t.frames) :
    (∃ e, t.error = .ok e ∧ (e.value : Int) = streamedError t.frames) ∧
      ∀ t' : ScriptTrace, t'.frames.filter (·.kind = .END) = t.frames.filter (·.kind = .END) →
        t'.error = t.error := by
  refine ⟨error_ok h, ?_⟩
  intro t' hends
  have hmem : ∀ f, f ∈ t'.frames ∧ f.kind = .END ↔ f ∈ t.frames ∧ f.kind = .END := by
    intro f
    have := congrArg (f ∈ ·) hends
    simpa [List.mem_filter] using this
  obtain ⟨e, he, hval⟩ := error_ok h
  obtain ⟨e', he', hval'⟩ := error_ok (t := t') fun f hf hkind =>
    h f ((hmem f).mp ⟨hf, hkind⟩).1 hkind
  rw [← streamedError_filter, hends, streamedError_filter, ← hval, Nat.cast_inj] at hval'
  rw [he, he', ScriptError.value_inj hval']

/-- A script that ends well without a `BEGIN`, one that fails, and one that never ends. -/
theorem error_eq_streamed_failing :
    let t : ScriptTrace := ⟨false,
      [⟨.END, 0, [0x51], 0, 0, true, [], 0⟩, ⟨.BEGIN, 0, [0x69], 0, 0, true, [], 5⟩,
        ⟨.END, 0, [0x69], 0, 0, true, [], 11⟩, ⟨.BEGIN, 0, [0x6A], 0, 0, true, [], 3⟩]⟩
    (∃ e, t.error = .ok e ∧ (e.value : Int) = streamedError t.frames) ∧
      ∀ t' : ScriptTrace, t'.frames.filter (·.kind = .END) = t.frames.filter (·.kind = .END) →
        t'.error = t.error := by
  intro t
  exact error_eq_streamed t (show ∀ f ∈ t.frames, _ by decide)

end PyBitcoinKernel.Trace
