import PyBitcoinKernel.Trace.Report
import PyBitcoinKernel.Trace.Stack

/-!
# The formatted trace

`ScriptTrace.format` prints a trace as lines: the verdict, a block for each
execution, and a note where the verdict needs one. With `max_item_bytes=None`
nothing is left out of it, and what is printed can be read back:

* no line contains a line feed and only a block's first line is empty, so the text
  gives its lines and the lines their blocks (`Delimited`);
* in a block the second line gives the script, hence its type, hence with the
  heading the signature version, hence whether there is a seed note
  (`executionLines_inj`);
* the heading of a step ends its numeral and its mnemonic with a blank, and the
  opcode gives the description, so what is left of the note tells if the step was
  executed (`stepHeading_inj`); a stack shows its items (`renderStack_inj`).

> `format_faithful`: two traces with one text have one verdict and the same
> executions, each with the same script, signature version, steps and ending.

What is the same is said of the frames themselves (`SameReport`): the groups that
`executions` makes of them concatenate to the trace.
-/

namespace PyBitcoinKernel.Trace

open PyBitcoinKernel.Script PyBitcoinKernel.Binding Delimited
open Hex (hex)

/-! ## Pieces of a line -/

/-- `execution_role`. -/
def executionRole (idx : Nat) (sigVersion : SigVersion) : String :=
  if idx = 0 then "input script (scriptSig)"
  else if idx = 1 then "output script (scriptPubkey)"
  else if sigVersion = .WITNESS_V0 then "witness script (v0)"
  else if sigVersion = .TAPSCRIPT then "tapscript"
  else "redeem script (P2SH)"

/-- `seed_note`. -/
def seedNote (idx : Nat) (sigVersion : SigVersion) : Option String :=
  if idx < 2 then none
  else if sigVersion = .WITNESS_V0 ∨ sigVersion = .TAPSCRIPT then
    some "initial stack seeded from the input witness"
  else some "initial stack seeded from the scriptSig"

/-- The format `04d`. -/
def dec04 (n : Nat) : List Char :=
  List.replicate (4 - (Nat.toDigits 10 n).length) '0' ++ Nat.toDigits 10 n

/-- The format `<22`. -/
def ljust22 (s : String) : String := s ++ String.ofList (List.replicate (22 - s.length) ' ')

/-! ## Lines -/

/-- The note behind the mnemonic of a step. -/
def stepNote (step : Frame) : String :=
  let note := opcodeDescription step.opcode.toNat
  if step.executed then note
  else (if note ≠ "" then note ++ "  " else "") ++ "(skipped in this branch)"

/-- The first line of a step. -/
def stepHeading (step : Frame) : String :=
  "  #" ++ String.ofList (dec04 step.opcodePos) ++ "  " ++
    ljust22 (opcodeName step.opcode.toNat) ++ " " ++ stepNote step

/-- The two lines of a step. -/
def stepLines (maxItemBytes : Option Int) (step : Frame) : List String :=
  [stepHeading step, "         stack: " ++ renderStack step.stack maxItemBytes]

/-- The first line of an execution; `pattern` is the type of its script and `n` the
number of its bytes. -/
def header (idx : Nat) (pattern : String) (n : Nat) (sigVersion : SigVersion) : String :=
  "=== script #" ++ toString idx ++ ": " ++ executionRole idx sigVersion ++
    (if pattern ≠ "" then " · " ++ pattern else "") ++ " · " ++ sigVersion.name ++
    " · " ++ toString n ++ " bytes ==="

/-- The line of the script's bytes. -/
def scriptLine (script : Bytes) : String :=
  "    " ++ (if script = [] then "(empty)" else String.ofList (hex script))

/-- The line of the seed note. -/
def seedLines (idx : Nat) (sigVersion : SigVersion) : List String :=
  match seedNote idx sigVersion with
  | some seed => ["    (" ++ seed ++ ")"]
  | none => []

/-- The line of the result, for an execution that has one. -/
def resultLines (maxItemBytes : Option Int) (x : ScriptExecution) : PyResult (List String) :=
  match x.endFrame with
  | some f => do
    let error ← x.error
    return ["  result: " ++ renderStack f.stack maxItemBytes ++ "  -> " ++ error.name]
  | none => .ok []

/-- The lines of an execution, but for the empty one that goes before them. -/
def executionLines (maxItemBytes : Option Int) (idx : Nat) (x : ScriptExecution) :
    PyResult (List String) := do
  let sigVersion ← x.sigVersion
  let result ← resultLines maxItemBytes x
  return header idx x.scriptType x.script.length sigVersion :: scriptLine x.script ::
    (seedLines idx sigVersion ++ (x.steps.flatMap (stepLines maxItemBytes) ++ result))

/-- The loop over the executions, from index `idx` on: one block for each. -/
def executionBlocks (maxItemBytes : Option Int) : Nat → List ScriptExecution →
    PyResult (List (List String))
  | _, [] => .ok []
  | idx, x :: xs => do
    let lines ← executionLines maxItemBytes idx x
    let blocks ← executionBlocks maxItemBytes (idx + 1) xs
    return lines :: blocks

/-- The block of the note at the end. -/
def noteBlocks (t : ScriptTrace) (error : ScriptError) : List (List String) :=
  if t.valid = false ∧ error = .OK then
    let top := match t.executions.getLast? with
      | some last => last.finalStack.getLast?.getD []
      | none => []
    let reason := if castToBool top = false then "top of stack is false"
      else "stack not clean / policy check failed after evaluation"
    [["  note: scripts evaluated without error, but verification failed (" ++ reason ++ ")."]]
  else []

/-- The first line. -/
def verdictLine (valid : Bool) (error : ScriptError) : String :=
  "script verification: " ++ (if valid then "VALID" else "INVALID") ++ "  (error: " ++
    error.name ++ ")"

/-- `_format_trace`. -/
def ScriptTrace.format (t : ScriptTrace) (maxItemBytes : Option Int) : PyResult String := do
  let error ← t.error
  let blocks ← executionBlocks maxItemBytes 0 t.executions
  return "\n".intercalate
    (verdictLine t.valid error :: ((blocks ++ noteBlocks t error).map ("" :: ·)).flatten)

/-! ## Steps can be read back -/

theorem dec04_inj {m n : Nat} (h : dec04 m = dec04 n) : m = n := by
  have hread : ∀ k, Nat.ofDigitChars 10 (dec04 k) 0 = k := by
    intro k
    rw [dec04, Nat.ofDigitChars_append, Nat.ofDigitChars_replicate_zero, Nat.mul_zero,
      Nat.ofDigitChars_toDigits (by decide) (by decide)]
  rw [← hread m, h, hread]

theorem not_mem_dec04 {c : Char} (hc : c.isDigit = false) (n : Nat) : c ∉ dec04 n := by
  intro h
  have hdigit : c.isDigit = true := by
    rcases List.mem_append.mp h with h | h
    · rw [List.eq_of_mem_replicate h]
      rfl
    · exact Nat.isDigit_of_mem_toDigits (by decide) (by decide) h
  rw [hdigit] at hc
  cases hc

/-- A description is followed by something if the step was skipped. -/
theorem stepNote_inj {f g : Frame} (hop : f.opcode = g.opcode) (h : stepNote f = stepNote g) :
    f.executed = g.executed := by
  have hne : ∀ note : String,
      note ≠ (if note ≠ "" then note ++ "  " else "") ++ "(skipped in this branch)" := by
    intro note hno
    have hlen := congrArg String.length hno
    by_cases hnote : note = ""
    · subst hnote
      exact absurd hlen (by decide)
    · rw [if_pos hnote, String.length_append, String.length_append] at hlen
      have hskip : "(skipped in this branch)".length = 24 := rfl
      omega
  unfold stepNote at h
  rw [hop] at h
  cases hf : f.executed with
  | true =>
    cases hg : g.executed with
    | true => rfl
    | false =>
      rw [hf, hg] at h
      exact absurd h (hne _)
  | false =>
    cases hg : g.executed with
    | false => rfl
    | true =>
      rw [hf, hg] at h
      exact absurd h.symm (hne _)

/-- A padded mnemonic ends at the first blank. -/
theorem ljust22_blank (name : String) (note : String) :
    (ljust22 name ++ " " ++ note).toList =
      name.toList ++ ' ' :: (List.replicate (22 - name.length) ' ' ++ note.toList) := by
  have hpad : ∀ n, List.replicate n ' ' ++ ' ' :: note.toList =
      ' ' :: (List.replicate n ' ' ++ note.toList) := by
    intro n
    rw [← List.cons_append, ← List.replicate_succ, List.replicate_succ', List.append_assoc]
    rfl
  rw [← hpad]
  simp [ljust22]

/-- **The first line of a step** says where, which opcode, and if it was executed. -/
theorem stepHeading_inj {f g : Frame} (h : stepHeading f = stepHeading g) :
    f.opcodePos = g.opcodePos ∧ f.opcode = g.opcode ∧ f.executed = g.executed := by
  have hread : ∀ k : Frame, (stepHeading k).toList = ' ' :: ' ' :: '#' ::
      (dec04 k.opcodePos ++ ' ' :: (' ' ::
        (ljust22 (opcodeName k.opcode.toNat) ++ " " ++ stepNote k).toList)) := by
    intro k
    simp [stepHeading]
  have hlist := congrArg String.toList h
  rw [hread, hread] at hlist
  simp only [List.cons.injEq, true_and] at hlist
  obtain ⟨hpos, hrest⟩ :=
    append_cons_inj (not_mem_dec04 rfl _) (not_mem_dec04 rfl _) hlist
  rw [List.cons.injEq, ljust22_blank, ljust22_blank] at hrest
  obtain ⟨hname, hnote⟩ := append_cons_inj (free_opcodeName (Or.inl rfl) f.opcode.toNat_lt)
    (free_opcodeName (Or.inl rfl) g.opcode.toNat_lt) hrest.2
  have hop : f.opcode = g.opcode := UInt8.toNat_inj.mp
    (opcodeName_inj f.opcode.toNat_lt g.opcode.toNat_lt (String.toList_inj.mp hname))
  rw [hop] at hnote
  have hnote' := String.toList_inj.mp (List.append_cancel_left hnote)
  exact ⟨dec04_inj hpos, hop, stepNote_inj hop hnote'⟩

/-- What the trace shows of a step. -/
def shownStep (f : Frame) : Nat × UInt8 × Bool × List Bytes :=
  (f.opcodePos, f.opcode, f.executed, f.stack)

/-- The third character of a step's first line, and of no line that can follow the
steps. -/
def StartsStep (line : String) : Prop := line.toList[2]? = some '#'

theorem startsStep_stepHeading (f : Frame) : StartsStep (stepHeading f) := by
  simp [StartsStep, stepHeading]

/-- **The steps can be read back**, up to a line that does not begin one. -/
theorem steps_inj : ∀ {fs gs : List Frame} {r r' : List String},
    (∀ line ∈ r, ¬ StartsStep line) → (∀ line ∈ r', ¬ StartsStep line) →
    fs.flatMap (stepLines none) ++ r = gs.flatMap (stepLines none) ++ r' →
    fs.map shownStep = gs.map shownStep ∧ r = r'
  | [], [], _, _, _, _, h => ⟨rfl, h⟩
  | [], g :: gs, r, _, hr, _, h => by
    have hmem : stepHeading g ∈ r := by
      rw [List.flatMap_nil, List.nil_append] at h
      rw [h]
      exact List.mem_append_left _ (List.mem_append_left _ (List.mem_cons_self ..))
    exact absurd (startsStep_stepHeading g) (hr _ hmem)
  | f :: fs, [], _, r', _, hr', h => by
    have hmem : stepHeading f ∈ r' := by
      rw [List.flatMap_nil, List.nil_append] at h
      rw [← h]
      exact List.mem_append_left _ (List.mem_append_left _ (List.mem_cons_self ..))
    exact absurd (startsStep_stepHeading f) (hr' _ hmem)
  | f :: fs, g :: gs, r, r', hr, hr', h => by
    rw [List.flatMap_cons, List.flatMap_cons, List.append_assoc, List.append_assoc] at h
    obtain ⟨hhead, htail⟩ := List.cons.inj h
    obtain ⟨hstack, hrest⟩ := List.cons.inj htail
    obtain ⟨hpos, hop, hexec⟩ := stepHeading_inj hhead
    have hshown : renderStack f.stack none ++ "" = renderStack g.stack none ++ "" := by
      rw [(String.append_right_inj _).mp hstack]
    obtain ⟨hitems, -⟩ := renderStack_inj hshown
    obtain ⟨hsteps, hresult⟩ := steps_inj hr hr' hrest
    refine ⟨?_, hresult⟩
    rw [List.map_cons, List.map_cons, hsteps, shownStep, shownStep, hpos, hop, hexec, hitems]

/-! ## Executions can be read back -/

theorem scriptLine_inj {s t : Bytes} (h : scriptLine s = scriptLine t) : s = t := by
  have hempty : ∀ {u : Bytes}, "(empty)" ≠ String.ofList (hex u) := by
    intro u hno
    have hmem : '(' ∈ hex u := by
      rw [← String.toList_ofList (l := hex u), ← hno]
      exact List.mem_cons_self ..
    exact absurd (Hex.mem_lowerDigits_of_mem_hex hmem) (by decide)
  have hrest := (String.append_right_inj _).mp h
  by_cases hs : s = []
  · by_cases ht : t = []
    · rw [hs, ht]
    · rw [if_pos hs, if_neg ht] at hrest
      exact absurd hrest hempty
  · by_cases ht : t = []
    · rw [if_neg hs, if_pos ht] at hrest
      exact absurd hrest.symm hempty
    · rw [if_neg hs, if_neg ht] at hrest
      exact Hex.hex_inj (String.ofList_injective hrest)

/-- The last two letters of a signature version tell it from the others. -/
theorem header_inj {idx n : Nat} {pattern : String} {v w : SigVersion}
    (h : header idx pattern n v = header idx pattern n w) : v = w := by
  have hname : ∀ {s t : String}, s ++ v.name = t ++ w.name →
      v.name.toList.reverse.take 2 = w.name.toList.reverse.take 2 := by
    intro s t hst
    have hrev := congrArg (fun u : String => u.toList.reverse.take 2) hst
    have hshort : ∀ (s : String) (v : SigVersion),
        (s ++ v.name).toList.reverse.take 2 = v.name.toList.reverse.take 2 := by
      intro s v
      rw [String.toList_append, List.reverse_append, List.take_append_of_le_length]
      cases v <;> decide
    rwa [hshort, hshort] at hrev
  unfold header at h
  rw [String.append_left_inj, String.append_left_inj, String.append_left_inj] at h
  have hlast := hname h
  clear h hname
  cases v <;> cases w <;> first | rfl | exact absurd hlast (by decide)

/-- The line of the result. -/
def resultLine (f : Frame) (error : ScriptError) : String :=
  "  result: " ++ renderStack f.stack none ++ "  -> " ++ error.name

theorem resultLines_cases {x : ScriptExecution} {r : List String}
    (h : resultLines none x = .ok r) :
    x.endFrame = none ∧ r = [] ∨
      ∃ f e, x.endFrame = some f ∧ (e.value : Int) = f.scriptError ∧ r = [resultLine f e] := by
  unfold resultLines ScriptExecution.error at h
  cases hend : x.endFrame with
  | none =>
    rw [hend] at h
    cases h
    exact Or.inl ⟨rfl, rfl⟩
  | some f =>
    rw [hend] at h
    dsimp only at h
    cases he : ScriptError.ofInt f.scriptError with
    | error err =>
      rw [he] at h
      cases h
    | ok e =>
      rw [he] at h
      cases h
      exact Or.inr ⟨f, e, rfl, value_of_intEnum _ he, rfl⟩

theorem not_startsStep_result {x : ScriptExecution} {r : List String}
    (h : resultLines none x = .ok r) : ∀ line ∈ r, ¬ StartsStep line := by
  rcases resultLines_cases h with ⟨-, rfl⟩ | ⟨f, e, -, -, rfl⟩
  · intro line hline
    cases hline
  · intro line hline
    rw [List.mem_singleton.mp hline]
    simp [StartsStep, resultLine]

/-- What the trace shows of how an execution ends. -/
def shownEnd (f : Frame) : List Bytes × Int := (f.stack, f.scriptError)

theorem resultLines_inj {x y : ScriptExecution} {r : List String}
    (hx : resultLines none x = .ok r) (hy : resultLines none y = .ok r) :
    x.endFrame.map shownEnd = y.endFrame.map shownEnd := by
  rcases resultLines_cases hx with ⟨hxe, rfl⟩ | ⟨f, e, hxe, hf, rfl⟩
  · rcases resultLines_cases hy with ⟨hye, -⟩ | ⟨g, e', -, -, hr⟩
    · rw [hxe, hye]
    · cases hr
  · rcases resultLines_cases hy with ⟨-, hr⟩ | ⟨g, e', hye, hg, hr⟩
    · cases hr
    · have hline := List.head_eq_of_cons_eq hr
      unfold resultLine at hline
      rw [String.append_assoc, String.append_assoc, String.append_assoc, String.append_assoc,
        String.append_right_inj] at hline
      obtain ⟨hstack, hname⟩ := renderStack_inj hline
      have he := ScriptError.name_inj ((String.append_right_inj _).mp hname)
      rw [hxe, hye, Option.map_some, Option.map_some, shownEnd, shownEnd, hstack, ← hf, ← hg, he]

/-- Two groups of frames that the trace shows as the same: their first frames name the
script and the signature version, and all their steps and ends are shown. -/
structure SameReport (g h : List Frame) : Prop where
  script : g.head?.map Frame.script = h.head?.map Frame.script
  sigVersion : g.head?.map Frame.sigVersion = h.head?.map Frame.sigVersion
  steps : (g.filter (·.kind = .STEP)).map shownStep = (h.filter (·.kind = .STEP)).map shownStep
  ending : (g.filter (·.kind = .END)).map shownEnd = (h.filter (·.kind = .END)).map shownEnd

/-- The frames of an execution: there is one, `BEGIN` comes only first and `END` only last. -/
structure IsGroup (g : List Frame) : Prop where
  ne_nil : g ≠ []
  begins : ∀ i (hi : i < g.length), g[i].kind = .BEGIN → i = 0
  ends : ∀ i (hi : i < g.length), g[i].kind = .END → i + 1 = g.length

theorem isGroup_of_mem {t : ScriptTrace} {x : ScriptExecution} (hx : x ∈ t.executions) :
    IsGroup x.frames := by
  have hmem : x.frames ∈ t.frames.splitBy joins := by
    rw [← groups_eq_splitBy]
    exact List.mem_map_of_mem hx
  have hchain := List.isChain_of_mem_splitBy hmem
  exact ⟨List.ne_nil_of_mem_splitBy hmem, fun i hi => begin_first hchain hi,
    fun i hi => end_last hchain hi⟩

/-- What an execution says of itself, its first frame says. -/
theorem IsGroup.ref {x : ScriptExecution} (h : IsGroup x.frames) : x.ref = x.frames.head? := by
  unfold ScriptExecution.ref ScriptExecution.beginFrame
  cases hb : x.frames.find? (·.kind = .BEGIN) with
  | none => rfl
  | some f =>
    obtain ⟨hf, as, bs, heq, -⟩ := List.find?_eq_some_iff_append.mp hb
    have hlen : as.length < x.frames.length := by simp [heq]
    have hfirst := h.begins as.length hlen (by simp [heq, of_decide_eq_true hf])
    obtain rfl := List.length_eq_zero_iff.mp hfirst
    rw [heq]
    rfl

/-- The last `END` is the only one. -/
theorem IsGroup.endings {x : ScriptExecution} (h : IsGroup x.frames) :
    x.frames.filter (·.kind = .END) = x.endFrame.toList := by
  obtain ⟨init, last, heq⟩ := (List.eq_nil_or_concat' x.frames).resolve_left h.ne_nil
  have hinit : ∀ f ∈ init, ¬ f.kind = .END := by
    intro f hf hend
    obtain ⟨i, hi, hfi⟩ := List.getElem_of_mem hf
    have hlt : i < x.frames.length := by simp [heq]; omega
    have hlast := h.ends i hlt (by simp [heq, List.getElem_append_left hi, hfi, hend])
    simp [heq] at hlast
    omega
  unfold ScriptExecution.endFrame
  rw [heq, List.filter_append, List.filter_eq_nil_iff.mpr (by simpa using hinit), List.nil_append,
    List.reverse_concat, List.find?_cons]
  by_cases hend : last.kind = .END
  · simp [hend]
  · have hnone : init.reverse.find? (·.kind = .END) = none :=
      List.find?_eq_none.mpr (by simpa using hinit)
    simp [hend, hnone]

theorem executionLines_eq_ok {x : ScriptExecution} {idx : Nat} {lines : List String}
    (h : executionLines none idx x = .ok lines) :
    ∃ v r, x.sigVersion = .ok v ∧ resultLines none x = .ok r ∧
      lines = header idx x.scriptType x.script.length v :: scriptLine x.script ::
        (seedLines idx v ++ (x.steps.flatMap (stepLines none) ++ r)) := by
  unfold executionLines at h
  cases hv : x.sigVersion with
  | error err =>
    rw [hv] at h
    cases h
  | ok v =>
    cases hr : resultLines none x with
    | error err =>
      rw [hv, hr] at h
      cases h
    | ok r =>
      rw [hv, hr] at h
      cases h
      exact ⟨v, r, rfl, rfl, rfl⟩

/-- **A block** shows all there is to its execution. -/
theorem executionLines_inj {x y : ScriptExecution} {idx : Nat} {lines : List String}
    (hgx : IsGroup x.frames) (hgy : IsGroup y.frames)
    (hx : executionLines none idx x = .ok lines) (hy : executionLines none idx y = .ok lines) :
    SameReport x.frames y.frames := by
  obtain ⟨v, r, hxv, hxr, rfl⟩ := executionLines_eq_ok hx
  obtain ⟨w, r', hyw, hyr, hlines⟩ := executionLines_eq_ok hy
  obtain ⟨hheader, hrest⟩ := List.cons.inj hlines
  obtain ⟨hscript, hrest⟩ := List.cons.inj hrest
  -- The script gives its type and length, so the heading gives the signature version.
  have hscript := scriptLine_inj hscript
  rw [ScriptExecution.scriptType, ScriptExecution.scriptType, hscript] at hheader
  have hvw := header_inj hheader
  subst hvw
  obtain ⟨hsteps, hr⟩ := steps_inj (not_startsStep_result hxr) (not_startsStep_result hyr)
    (List.append_cancel_left hrest)
  subst hr
  have hf : x.frames.head? = some (x.frames.head hgx.ne_nil) := List.head?_eq_some_head _
  have hg : y.frames.head? = some (y.frames.head hgy.ne_nil) := List.head?_eq_some_head _
  unfold ScriptExecution.script at hscript
  unfold ScriptExecution.sigVersion at hxv hyw
  rw [hgx.ref, hf] at hscript hxv
  rw [hgy.ref, hg] at hscript hyw
  have hversion : (x.frames.head hgx.ne_nil).sigVersion =
      (y.frames.head hgy.ne_nil).sigVersion := by
    have hvalue := (value_of_intEnum _ hxv).symm.trans (value_of_intEnum _ hyw)
    exact UInt8.toNat_inj.mp (by exact_mod_cast hvalue)
  refine ⟨?_, ?_, hsteps, ?_⟩
  · rw [hf, hg]
    exact congrArg some hscript
  · rw [hf, hg]
    exact congrArg some hversion
  · rw [hgx.endings, hgy.endings, ← Option.toList_map, ← Option.toList_map,
      resultLines_inj hxr hyr]

theorem executionBlocks_cons {x : ScriptExecution} {xs : List ScriptExecution} {idx : Nat}
    {blocks : List (List String)} (h : executionBlocks none idx (x :: xs) = .ok blocks) :
    ∃ lines rest, executionLines none idx x = .ok lines ∧
      executionBlocks none (idx + 1) xs = .ok rest ∧ blocks = lines :: rest := by
  rw [executionBlocks] at h
  cases hlines : executionLines none idx x with
  | error err =>
    rw [hlines] at h
    cases h
  | ok lines =>
    cases hrest : executionBlocks none (idx + 1) xs with
    | error err =>
      rw [hlines, hrest] at h
      cases h
    | ok rest =>
      rw [hlines, hrest] at h
      cases h
      exact ⟨lines, rest, rfl, rfl, rfl⟩

/-- The blocks show all there is to the executions. -/
theorem executionBlocks_inj : ∀ {xs ys : List ScriptExecution} {idx : Nat}
    {blocks : List (List String)}, (∀ x ∈ xs, IsGroup x.frames) → (∀ y ∈ ys, IsGroup y.frames) →
    executionBlocks none idx xs = .ok blocks → executionBlocks none idx ys = .ok blocks →
    List.Forall₂ SameReport (xs.map ScriptExecution.frames) (ys.map ScriptExecution.frames)
  | [], [], _, _, _, _, _, _ => .nil
  | [], _ :: _, _, _, _, _, hx, hy => by
    obtain ⟨lines, rest, -, -, rfl⟩ := executionBlocks_cons hy
    cases hx
  | _ :: _, [], _, _, _, _, hx, hy => by
    obtain ⟨lines, rest, -, -, rfl⟩ := executionBlocks_cons hx
    cases hy
  | x :: xs, y :: ys, idx, blocks, hxs, hys, hx, hy => by
    obtain ⟨hgx, hgxs⟩ := List.forall_mem_cons.mp hxs
    obtain ⟨hgy, hgys⟩ := List.forall_mem_cons.mp hys
    obtain ⟨lines, rest, hxl, hxr, rfl⟩ := executionBlocks_cons hx
    obtain ⟨lines', rest', hyl, hyr, hblocks⟩ := executionBlocks_cons hy
    obtain ⟨rfl, rfl⟩ := List.cons.inj hblocks
    exact .cons (executionLines_inj hgx hgy hxl hyl) (executionBlocks_inj hgxs hgys hxr hyr)

/-! ## The text can be read back -/

/-- A line of a block: it is not empty, and it is one line. -/
def IsLine (line : String) : Prop := line ≠ "" ∧ Free '\n' line

theorem isLine_append {s t : String} (hs : IsLine s) (ht : Free '\n' t) : IsLine (s ++ t) := by
  refine ⟨?_, free_append.mpr ⟨hs.2, ht⟩⟩
  intro hnil
  exact hs.1 (String.append_eq_empty_iff.mp hnil).1

theorem isLine_of_bytes {s : String} (hs : s ≠ "") (h : 0x0A ∉ bytes s) : IsLine s :=
  ⟨hs, free_newline h⟩

theorem free_executionRole (idx : Nat) (v : SigVersion) : Free '\n' (executionRole idx v) := by
  unfold executionRole
  repeat' split
  all_goals exact free_newline (by decide +kernel)

theorem isLine_header (idx n : Nat) (b : Bytes) (v : SigVersion) :
    IsLine (header idx (classifyScript b) n v) := by
  have hdot : Free '\n' " · " := free_newline (by decide +kernel)
  have hpattern : Free '\n' (if classifyScript b ≠ "" then " · " ++ classifyScript b else "") := by
    split
    next => exact free_append.mpr ⟨hdot, free_classifyScript b⟩
    next => exact free_empty _
  have hstart : IsLine ("=== script #" ++ toString idx ++ ": " ++ executionRole idx v) :=
    isLine_append (isLine_append (isLine_append (isLine_of_bytes (by decide) (by decide +kernel))
      (free_toString (by decide) idx)) (free_newline (by decide +kernel)))
      (free_executionRole idx v)
  have hversion := isLine_append (isLine_append (isLine_append hstart hpattern) hdot) v.free_name
  exact isLine_append (isLine_append (isLine_append hversion hdot) (free_toString (by decide) n))
    (free_newline (by decide +kernel))

theorem free_hex (b : Bytes) : Free '\n' (String.ofList (hex b)) :=
  free_ofList.mpr fun h => absurd (Hex.mem_lowerDigits_of_mem_hex h) (by decide)

theorem isLine_scriptLine (b : Bytes) : IsLine (scriptLine b) := by
  refine isLine_append (isLine_of_bytes (by decide) (by decide +kernel)) ?_
  split
  next => exact free_newline (by decide +kernel)
  next => exact free_hex b

theorem isLine_seedLines (idx : Nat) (v : SigVersion) : ∀ line ∈ seedLines idx v, IsLine line := by
  intro line hline
  unfold seedLines seedNote at hline
  split at hline
  next seed hseed =>
    rw [List.mem_singleton.mp hline]
    have hfree : Free '\n' seed := by
      split at hseed
      next => cases hseed
      next =>
        split at hseed <;>
        · cases hseed
          exact free_newline (by decide +kernel)
    exact isLine_append (isLine_append (isLine_of_bytes (by decide) (by decide +kernel)) hfree)
      (free_newline (by decide +kernel))
  next => cases hline

theorem free_stepNote (f : Frame) : Free '\n' (stepNote f) := by
  have hnote := free_opcodeDescription f.opcode.toNat
  unfold stepNote
  dsimp only
  split
  next => exact hnote
  next =>
    refine free_append.mpr ⟨?_, free_newline (by decide +kernel)⟩
    split
    next => exact free_append.mpr ⟨hnote, free_newline (by decide +kernel)⟩
    next => exact free_empty _

theorem isLine_stepLines (f : Frame) : ∀ line ∈ stepLines none f, IsLine line := by
  have hpos : Free '\n' (String.ofList (dec04 f.opcodePos)) :=
    free_ofList.mpr (not_mem_dec04 rfl _)
  have hname : Free '\n' (ljust22 (opcodeName f.opcode.toNat)) := by
    refine free_append.mpr ⟨free_opcodeName (Or.inr rfl) f.opcode.toNat_lt, free_ofList.mpr ?_⟩
    exact fun h => absurd (List.eq_of_mem_replicate h) (by decide)
  intro line hline
  rcases List.mem_cons.mp hline with rfl | hline
  · have hblank : Free '\n' "  " := free_newline (by decide +kernel)
    have hstart := isLine_append (isLine_of_bytes (s := "  #") (by decide) (by decide +kernel)) hpos
    have hpadded := isLine_append (isLine_append hstart hblank) hname
    exact isLine_append (isLine_append hpadded (free_newline (by decide +kernel))) (free_stepNote f)
  · rw [List.mem_singleton.mp hline]
    exact isLine_append (isLine_of_bytes (by decide) (by decide +kernel))
      (free_renderStack f.stack none)

theorem isLine_resultLine (f : Frame) (e : ScriptError) : IsLine (resultLine f e) :=
  isLine_append (isLine_append (isLine_append (isLine_of_bytes (by decide) (by decide +kernel))
    (free_renderStack f.stack none)) (free_newline (by decide +kernel))) e.free_name

/-- Every line of a block is one. -/
theorem isLine_executionLines {x : ScriptExecution} {idx : Nat} {lines : List String}
    (h : executionLines none idx x = .ok lines) : ∀ line ∈ lines, IsLine line := by
  obtain ⟨v, r, -, hr, rfl⟩ := executionLines_eq_ok h
  intro line hline
  simp only [List.mem_cons, List.mem_append, List.mem_flatMap] at hline
  rcases hline with rfl | rfl | hseed | ⟨f, -, hstep⟩ | hresult
  · exact isLine_header _ _ _ _
  · exact isLine_scriptLine _
  · exact isLine_seedLines idx v line hseed
  · exact isLine_stepLines f line hstep
  · rcases resultLines_cases hr with ⟨-, rfl⟩ | ⟨f, e, -, -, rfl⟩
    · cases hresult
    · rw [List.mem_singleton.mp hresult]
      exact isLine_resultLine f e

theorem isLine_executionBlocks : ∀ {xs : List ScriptExecution} {idx : Nat}
    {blocks : List (List String)}, executionBlocks none idx xs = .ok blocks →
    ∀ block ∈ blocks, ∀ line ∈ block, IsLine line
  | [], _, _, h, block, hblock => by
    cases h
    cases hblock
  | x :: xs, _, _, h, block, hblock => by
    obtain ⟨lines, rest, hlines, hrest, rfl⟩ := executionBlocks_cons h
    rcases List.mem_cons.mp hblock with rfl | hblock
    · exact isLine_executionLines hlines
    · exact isLine_executionBlocks hrest block hblock

theorem isLine_noteBlocks (t : ScriptTrace) (e : ScriptError) :
    ∀ block ∈ noteBlocks t e, ∀ line ∈ block, IsLine line := by
  intro block hblock line hline
  unfold noteBlocks at hblock
  split at hblock
  next =>
    rw [List.mem_singleton.mp hblock] at hline
    rw [List.mem_singleton.mp hline]
    refine isLine_append (isLine_append (isLine_of_bytes (by decide) (by decide +kernel)) ?_)
      (free_newline (by decide +kernel))
    by_cases htop : castToBool (match t.executions.getLast? with
      | some last => last.finalStack.getLast?.getD []
      | none => []) = false
    · rw [if_pos htop]
      exact free_newline (by decide +kernel)
    · rw [if_neg htop]
      exact free_newline (by decide +kernel)
  next => cases hblock

theorem isLine_verdictLine (valid : Bool) (e : ScriptError) : IsLine (verdictLine valid e) := by
  have hverdict : Free '\n' (if valid then "VALID" else "INVALID") := by
    split <;> exact free_newline (by decide +kernel)
  exact isLine_append (isLine_append (isLine_append (isLine_append
    (isLine_of_bytes (by decide) (by decide +kernel)) hverdict) (free_newline (by decide +kernel)))
    e.free_name) (free_newline (by decide +kernel))

theorem verdictLine_inj {v w : Bool} {e e' : ScriptError} (h : verdictLine v e = verdictLine w e') :
    v = w ∧ e = e' := by
  have hname : ∀ {v : Bool}, verdictLine v e = verdictLine v e' → e = e' := by
    intro v h
    unfold verdictLine at h
    rw [String.append_left_inj, String.append_right_inj] at h
    exact ScriptError.name_inj h
  have hvalid : ∀ {u u' : String}, "VALID" ++ u ≠ "INVALID" ++ u' := by
    intro u u' hno
    have hhead := congrArg (fun s : String => s.toList.head?) hno
    simp at hhead
  have hcancel := h
  unfold verdictLine at hcancel
  rw [String.append_assoc, String.append_assoc, String.append_assoc, String.append_assoc,
    String.append_assoc, String.append_assoc, String.append_right_inj] at hcancel
  cases v with
  | true =>
    cases w with
    | true => exact ⟨rfl, hname h⟩
    | false => exact absurd hcancel hvalid
  | false =>
    cases w with
    | true => exact absurd hcancel.symm hvalid
    | false => exact ⟨rfl, hname h⟩

theorem format_eq_ok {t : ScriptTrace} {s : String} (h : t.format none = .ok s) :
    ∃ e blocks, t.error = .ok e ∧ executionBlocks none 0 t.executions = .ok blocks ∧
      s = "\n".intercalate (verdictLine t.valid e ::
        ((blocks ++ noteBlocks t e).map ("" :: ·)).flatten) := by
  unfold ScriptTrace.format at h
  cases he : t.error with
  | error err =>
    rw [he] at h
    cases h
  | ok e =>
    cases hblocks : executionBlocks none 0 t.executions with
    | error err =>
      rw [he, hblocks] at h
      cases h
    | ok blocks =>
      rw [he, hblocks] at h
      cases h
      exact ⟨e, blocks, rfl, rfl, rfl⟩

/-- **The text gives its blocks.** -/
theorem text_inj {l l' : String} {bs cs : List (List String)} (hl : IsLine l) (hl' : IsLine l')
    (hb : ∀ b ∈ bs, ∀ line ∈ b, IsLine line) (hc : ∀ c ∈ cs, ∀ line ∈ c, IsLine line)
    (h : "\n".intercalate (l :: (bs.map ("" :: ·)).flatten) =
      "\n".intercalate (l' :: (cs.map ("" :: ·)).flatten)) : l = l' ∧ bs = cs := by
  have hfree : ∀ {l : String} {bs : List (List String)}, IsLine l →
      (∀ b ∈ bs, ∀ line ∈ b, IsLine line) →
      ∀ x ∈ (l :: (bs.map ("" :: ·)).flatten).map String.toList, '\n' ∉ x := by
    intro l bs hl hb x hx
    obtain ⟨line, hline, rfl⟩ := List.mem_map.mp hx
    rcases List.mem_cons.mp hline with rfl | hline
    · exact hl.2
    · obtain ⟨block, hblock, hline⟩ := List.mem_flatten.mp hline
      obtain ⟨b, hbm, rfl⟩ := List.mem_map.mp hblock
      rcases List.mem_cons.mp hline with rfl | hline
      · exact free_empty _
      · exact (hb b hbm line hline).2
  have hlist := congrArg String.toList h
  rw [String.toList_intercalate, String.toList_intercalate] at hlist
  have hlines := intercalate_inj '\n' [] (List.cons_ne_nil _ _)
    (List.cons_ne_nil _ _) (hfree hl hb) (hfree hl' hc) hlist
  obtain ⟨hverdict, hblocks⟩ :=
    List.cons.inj (List.map_injective_iff.mpr (fun _ _ => String.toList_inj.mp) hlines)
  refine ⟨hverdict, flatten_cons_inj ?_ ?_ hblocks⟩
  · exact fun b hbm hmem => (hb b hbm "" hmem).1 rfl
  · exact fun c hcm hmem => (hc c hcm "" hmem).1 rfl

/-! ## Printing succeeds -/

/-- What the kernel reports: signature versions and error codes that have a name. -/
def FramesKnown (frames : List Frame) : Prop :=
  ∀ f ∈ frames, f.sigVersion.toNat ≤ 3 ∧ 0 ≤ f.scriptError ∧ f.scriptError ≤ 54

theorem flatten_groups (t : ScriptTrace) : t.groups.flatten = t.frames := by
  rw [groups_eq_splitBy, List.flatten_splitBy]

/-- The frames of an execution are frames of the trace. -/
theorem frames_subset {t : ScriptTrace} {x : ScriptExecution} (hx : x ∈ t.executions) :
    ∀ f ∈ x.frames, f ∈ t.frames := by
  intro f hf
  rw [← flatten_groups t]
  exact List.mem_flatten.mpr ⟨x.frames, List.mem_map_of_mem hx, hf⟩

theorem executionLines_ok {x : ScriptExecution} (h : FramesKnown x.frames) (idx : Nat) :
    ∃ lines, executionLines none idx x = .ok lines := by
  have hv : ∃ v, x.sigVersion = .ok v := by
    unfold ScriptExecution.sigVersion
    cases href : x.ref with
    | none => exact ⟨_, rfl⟩
    | some f =>
      have hf : f ∈ x.frames := by
        unfold ScriptExecution.ref at href
        rcases Option.or_eq_some_iff.mp href with hbegin | ⟨-, hhead⟩
        · exact List.mem_of_find?_eq_some hbegin
        · exact List.mem_of_mem_head? hhead
      obtain ⟨v, hv, -⟩ := SigVersion.ofInt_ok (n := f.sigVersion.toNat)
        ⟨by omega, by have := (h f hf).1; omega⟩
      exact ⟨v, hv⟩
  have hr : ∃ r, resultLines none x = .ok r := by
    unfold resultLines ScriptExecution.error
    cases hend : x.endFrame with
    | none => exact ⟨_, rfl⟩
    | some f =>
      have hf : f ∈ x.frames := List.mem_reverse.mp (List.mem_of_find?_eq_some hend)
      obtain ⟨e, he, -⟩ := ScriptError.ofInt_ok (h f hf).2
      dsimp only
      rw [he]
      exact ⟨_, rfl⟩
  obtain ⟨v, hv⟩ := hv
  obtain ⟨r, hr⟩ := hr
  unfold executionLines
  rw [hv, hr]
  exact ⟨_, rfl⟩

theorem executionBlocks_ok : ∀ (xs : List ScriptExecution) (idx : Nat),
    (∀ x ∈ xs, FramesKnown x.frames) → ∃ blocks, executionBlocks none idx xs = .ok blocks
  | [], _, _ => ⟨[], rfl⟩
  | x :: xs, idx, h => by
    obtain ⟨lines, hlines⟩ := executionLines_ok (h x (List.mem_cons_self ..)) idx
    obtain ⟨blocks, hblocks⟩ :=
      executionBlocks_ok xs (idx + 1) fun y hy => h y (List.mem_cons_of_mem _ hy)
    rw [executionBlocks, hlines, hblocks]
    exact ⟨_, rfl⟩

/-- A trace of known frames can be printed. -/
theorem format_ok {t : ScriptTrace} (h : FramesKnown t.frames) : ∃ s, t.format none = .ok s := by
  obtain ⟨e, he, -⟩ := error_ok (t := t) fun f hf _ => (h f hf).2
  obtain ⟨blocks, hblocks⟩ := executionBlocks_ok t.executions 0 fun x hx f hf =>
    h f (frames_subset hx f hf)
  unfold ScriptTrace.format
  rw [he, hblocks]
  exact ⟨_, rfl⟩

/-- **The formatted trace is faithful**: it shows every frame of either trace, group by
group. -/
theorem format_faithful (t₁ t₂ : ScriptTrace) (h₁ : FramesKnown t₁.frames)
    (h : t₁.format none = t₂.format none) :
    t₁.valid = t₂.valid ∧ t₁.groups.flatten = t₁.frames ∧ t₂.groups.flatten = t₂.frames ∧
      List.Forall₂ SameReport t₁.groups t₂.groups := by
  obtain ⟨s, hs₁⟩ := format_ok h₁
  obtain ⟨e₁, blocks₁, -, hblocks₁, rfl⟩ := format_eq_ok hs₁
  obtain ⟨e₂, blocks₂, -, hblocks₂, htext⟩ := format_eq_ok (h.symm.trans hs₁)
  have hline : ∀ {t : ScriptTrace} {e : ScriptError} {blocks : List (List String)},
      executionBlocks none 0 t.executions = .ok blocks →
      ∀ b ∈ blocks ++ noteBlocks t e, ∀ line ∈ b, IsLine line := by
    intro t e blocks hblocks b hb
    rcases List.mem_append.mp hb with hb | hb
    · exact isLine_executionBlocks hblocks b hb
    · exact isLine_noteBlocks t e b hb
  obtain ⟨hverdict, hall⟩ := text_inj (isLine_verdictLine _ _) (isLine_verdictLine _ _)
    (hline hblocks₁) (hline hblocks₂) htext
  obtain ⟨hvalid, rfl⟩ := verdictLine_inj hverdict
  -- With one verdict and one error, both traces have a note or neither has.
  have hnotes : (noteBlocks t₁ e₁).length = (noteBlocks t₂ e₁).length := by
    unfold noteBlocks
    rw [hvalid]
    split <;> rfl
  obtain ⟨rfl, -⟩ := List.append_inj' hall hnotes
  exact ⟨hvalid, flatten_groups t₁, flatten_groups t₂,
    executionBlocks_inj (fun _ => isGroup_of_mem) (fun _ => isGroup_of_mem) hblocks₁ hblocks₂⟩

/-- Two traces with one text: the error field of a step is not shown. -/
theorem format_faithful_steps :
    let t : Int → ScriptTrace := fun code => ⟨false,
      [⟨.BEGIN, 0, [0x51], 0, 0, true, [], 0⟩, ⟨.STEP, 0, [0x51], 0x51, 0, true, [], code⟩,
        ⟨.END, 0, [0x51], 0, 0, true, [[0x01]], 0⟩]⟩
    (t 0).valid = (t 1).valid ∧ (t 0).groups.flatten = (t 0).frames ∧
      (t 1).groups.flatten = (t 1).frames ∧ List.Forall₂ SameReport (t 0).groups (t 1).groups := by
  intro t
  exact format_faithful (t 0) (t 1) (show ∀ f ∈ (t 0).frames, _ by decide) (by rfl)

end PyBitcoinKernel.Trace
