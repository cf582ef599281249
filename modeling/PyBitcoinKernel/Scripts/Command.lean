import PyBitcoinKernel.Lib.Delimited
import PyBitcoinKernel.Lib.Words

/-!
# The command between two scripts

`cmd_generator.py` prints a command for `manual_debug.py`, and a shell is to take it
apart. Nothing in it is quoted, and nothing has to be: hexadecimal digits and numerals
are plain characters, so the shell sees the words that were put in
(`shell_command`). But a word must not be empty. An empty scriptpubkey leaves only
blanks, and `--spent` then finds one word where it takes two.

> `runCommand_command_iff`: the printed command gives back the raw transaction and the
> prevouts it was printed from exactly if no scriptpubkey is empty.
-/

namespace PyBitcoinKernel.Scripts

open Words Delimited

/-! ## `cmd_generator.py` -/

def hexDigits : List Char :=
  ['0', '1', '2', '3', '4', '5', '6', '7', '8', '9', 'a', 'b', 'c', 'd', 'e', 'f',
    'A', 'B', 'C', 'D', 'E', 'F']

/-- A text of hexadecimal digits, possibly none. -/
structure HexString where
  text : String
  digits : ∀ c ∈ text.toList, c ∈ hexDigits

/-- What the generator prints of a prevout. -/
structure Prevout where
  scriptpubkey : HexString
  value : Nat

/-- `PYTHON`. -/
def PYTHON : String := "python"

/-- `MANUAL_DEBUG`. -/
def MANUAL_DEBUG : String := "scripts/manual_debug.py"

/-- The line of a prevout. -/
def spentLine (p : Prevout) : String :=
  "  --spent " ++ p.scriptpubkey.text ++ " " ++ toString p.value

/-- The `lines` of the command. -/
def commandLines (rawHex : HexString) (spent : List Prevout) : List String :=
  [PYTHON ++ " " ++ MANUAL_DEBUG, "  " ++ rawHex.text] ++ spent.map spentLine

/-- What `main` prints to stdout. -/
def command (rawHex : HexString) (spent : List Prevout) : String :=
  " \\\n".intercalate (commandLines rawHex spent) ++ "\n"

/-! ## The shell -/

/-- The characters that separate words. -/
def isBlank (c : Char) : Bool := c = ' ' || c = '\t'

/-- The characters that stand for themselves in a command, wherever they are, and blanks. -/
def plain (c : Char) : Bool :=
  c.isAlphanum || c = '/' || c = '.' || c = '_' || c = '-' || isBlank c

/-- The words of a line. -/
def lineWords (line : List Char) : List String := (words isBlank line).map String.ofList

/-- The commands of a text, each by its words. A text with other characters would have to
be looked at more closely; it is not taken. -/
def shell (text : String) : Option (List (List String)) :=
  let joined := joinLines '\\' '\n' text.toList
  if joined.all fun c => plain c || c = '\n' then
    some (((words (· = '\n') joined).map lineWords).filter fun ws => !ws.isEmpty)
  else none

/-! ## `manual_debug.py` -/

/-- What `parse_args` returns. -/
structure Args where
  rawTx : String
  spent : List (String × String)
  deriving DecidableEq

/-- A word that the parser does not take for an argument. -/
def isOption (word : String) : Bool := word.toList.head? = some '-'

/-- The words one after another, with what was found before them: `--spent` takes the two
behind it, and there is one positional. No other option is known. -/
def parseWords : List String → Option String → List (String × String) → Option Args
  | [], rawTx, spent =>
    match rawTx with
    | some rawTx => if spent = [] then none else some ⟨rawTx, spent⟩
    | none => none
  | word :: argv, rawTx, spent =>
    if word = "--spent" then
      match argv with
      | script :: amount :: argv =>
        if isOption script || isOption amount then none
        else parseWords argv rawTx (spent ++ [(script, amount)])
      | _ => none
    else if isOption word then none
    else match rawTx with
      | none => parseWords argv (some word) spent
      | some _ => none

/-- `parse_args`; `none` where the parser gives up. -/
def parseArgs (argv : List String) : Option Args := parseWords argv none []

/-- `int(a)`, on a word that does not begin with a sign. -/
def pyInt (a : String) : Option Nat :=
  if (a.toList.splitOn '_').all fun group => !group.isEmpty && group.all Char.isDigit then
    some (Nat.ofDigitChars 10 (a.toList.filter (· ≠ '_')) 0)
  else none

/-- A pair of `--spent`, with its amount read. -/
def readPair (pair : String × String) : Option (String × Nat) := do
  let amount ← pyInt pair.2
  return (pair.1, amount)

/-- What `main` of `manual_debug.py` goes on with: the raw transaction, and for each input
a script and an amount. -/
def manualDebug (argv : List String) : Option (String × List (String × Nat)) := do
  let args ← parseArgs argv
  let spent ← args.spent.mapM readPair
  return (args.rawTx, spent)

/-- A text that a shell runs, if it is a command for `manual_debug.py`. -/
def runCommand (text : String) : Option (String × List (String × Nat)) := do
  let commands ← shell text
  match commands with
  | [python :: script :: argv] =>
    if python = PYTHON ∧ script = MANUAL_DEBUG then manualDebug argv else none
  | _ => none

/-! ## What the shell sees -/

/-- A character of a word: it is plain, and it separates nothing. -/
def InWord (c : Char) : Prop := plain c = true ∧ isBlank c = false

instance (c : Char) : Decidable (InWord c) := inferInstanceAs (Decidable (_ ∧ _))

theorem inWord_of_hexDigit : ∀ c ∈ hexDigits, InWord c := forall_mem_of_all (by decide)

theorem inWord_of_isDigit {c : Char} (h : c.isDigit = true) : InWord c := by
  have hblank : isBlank c = false := by
    rw [isBlank, Bool.or_eq_false_iff, decide_eq_false_iff_not, decide_eq_false_iff_not]
    constructor
    · rintro rfl
      exact absurd h (by decide)
    · rintro rfl
      exact absurd h (by decide)
  refine ⟨?_, hblank⟩
  unfold plain Char.isAlphanum
  rw [h, Bool.or_true]
  rfl

theorem inWord_hex (s : HexString) : ∀ c ∈ s.text.toList, InWord c :=
  fun c hc => inWord_of_hexDigit c (s.digits c hc)

theorem inWord_toString (n : Nat) : ∀ c ∈ (toString n).toList, InWord c :=
  fun _ hc => inWord_of_isDigit (isDigit_of_mem_toString hc)

theorem toString_ne_empty (n : Nat) : (toString n).toList ≠ [] := by
  rw [Nat.toString_eq_ofList_toDigits, String.toList_ofList]
  exact Nat.toDigits_ne_nil

theorem words_of_inWord {s : String} (h : ∀ c ∈ s.toList, InWord c) :
    lineWords s.toList = if s = "" then [] else [s] := by
  by_cases hs : s = ""
  · rw [hs]
    rfl
  · have hne : s.toList ≠ [] := fun h => hs (String.toList_eq_nil_iff.mp h)
    rw [lineWords, words_of_forall (fun c hc => (h c hc).2) hne, if_neg hs, List.map_singleton,
      String.ofList_toList]

/-- The words of a prevout's line: the script is one if it is not empty. -/
def spentWords (p : Prevout) : List String :=
  "--spent" :: ((if p.scriptpubkey.text = "" then [] else [p.scriptpubkey.text]) ++
    [toString p.value])

theorem lineWords_append_cons (l r : List Char) {b : Char} (hb : isBlank b = true) :
    lineWords (l ++ b :: r) = lineWords l ++ lineWords r := by
  rw [lineWords, words_append_cons l r hb, List.map_append]
  rfl

theorem lineWords_spentLine (p : Prevout) : lineWords (spentLine p).toList = spentWords p := by
  have htext : (spentLine p).toList = "  --spent".toList ++ ' ' ::
      (p.scriptpubkey.text.toList ++ ' ' :: (toString p.value).toList) := by
    simp [spentLine]
  have hvalue : toString p.value ≠ "" := fun h =>
    toString_ne_empty p.value (String.toList_eq_nil_iff.mpr h)
  rw [htext, lineWords_append_cons _ _ rfl, lineWords_append_cons _ _ rfl,
    words_of_inWord (inWord_hex p.scriptpubkey), words_of_inWord (inWord_toString p.value),
    if_neg hvalue]
  rfl

theorem lineWords_commandLines {rawHex : HexString} (hraw : rawHex.text ≠ "")
    (spent : List Prevout) :
    ((commandLines rawHex spent).map String.toList).flatMap lineWords =
      PYTHON :: MANUAL_DEBUG :: rawHex.text :: spent.flatMap spentWords := by
  have hfirst : lineWords (PYTHON ++ " " ++ MANUAL_DEBUG).toList = [PYTHON, MANUAL_DEBUG] := by
    decide +kernel
  have hrawLine : lineWords ("  " ++ rawHex.text).toList = [rawHex.text] := by
    have htext : ("  " ++ rawHex.text).toList = " ".toList ++ ' ' :: rawHex.text.toList := by
      simp
    rw [htext, lineWords_append_cons _ _ rfl, words_of_inWord (inWord_hex rawHex), if_neg hraw]
    rfl
  have hspent : ((spent.map spentLine).map String.toList).flatMap lineWords =
      spent.flatMap spentWords := by
    rw [List.map_map, List.flatMap_map]
    exact List.flatMap_congr fun p _ => lineWords_spentLine p
  rw [commandLines, List.map_append, List.flatMap_append, hspent]
  show (lineWords _ ++ (lineWords _ ++ [])) ++ _ = _
  rw [hfirst, hrawLine]
  rfl

/-- No line has a character that would need a quote. -/
theorem plain_commandLines (rawHex : HexString) (spent : List Prevout) :
    ∀ l ∈ (commandLines rawHex spent).map String.toList, ∀ c ∈ l, plain c = true := by
  have hhex : ∀ s : HexString, ∀ c ∈ s.text.toList, plain c = true :=
    fun s c hc => (inWord_hex s c hc).1
  have hindent : ∀ c ∈ "  ".toList, plain c = true :=
    forall_mem_of_all (by decide +kernel)
  have hoption : ∀ c ∈ "  --spent ".toList, plain c = true :=
    forall_mem_of_all (by decide +kernel)
  have hblank : ∀ c ∈ " ".toList, plain c = true :=
    forall_mem_of_all (by decide +kernel)
  have hspent : ∀ p : Prevout, ∀ c ∈ (spentLine p).toList, plain c = true := by
    intro p
    rw [spentLine, String.toList_append, String.toList_append, String.toList_append,
      List.forall_mem_append, List.forall_mem_append, List.forall_mem_append]
    exact ⟨⟨⟨hoption, hhex p.scriptpubkey⟩, hblank⟩, fun c hc => (inWord_toString p.value c hc).1⟩
  intro l hl
  obtain ⟨line, hline, rfl⟩ := List.mem_map.mp hl
  rcases List.mem_append.mp hline with hline | hline
  · rcases List.mem_cons.mp hline with rfl | hline
    · exact forall_mem_of_all (by decide +kernel)
    · rw [List.mem_singleton.mp hline, String.toList_append, List.forall_mem_append]
      exact ⟨hindent, hhex rawHex⟩
  · obtain ⟨p, -, rfl⟩ := List.mem_map.mp hline
    exact hspent p

/-- **The shell sees one command**, with the words that were put in. -/
theorem shell_command {rawHex : HexString} (hraw : rawHex.text ≠ "") (spent : List Prevout) :
    shell (command rawHex spent) =
      some [PYTHON :: MANUAL_DEBUG :: rawHex.text :: spent.flatMap spentWords] := by
  have hplain := plain_commandLines rawHex spent
  have hjoined : joinLines '\\' '\n' (command rawHex spent).toList =
      [' '].intercalate ((commandLines rawHex spent).map String.toList) ++ ['\n'] := by
    rw [command, String.toList_append, String.toList_intercalate]
    refine joinLines_intercalate (by decide) ?_ (by decide)
    intro l hl hmem
    exact absurd (hplain l hl _ hmem) (by decide)
  have hwords : lineWords ([' '].intercalate ((commandLines rawHex spent).map String.toList)) =
      PYTHON :: MANUAL_DEBUG :: rawHex.text :: spent.flatMap spentWords := by
    rw [lineWords, words_intercalate rfl, List.map_flatMap]
    exact lineWords_commandLines hraw spent
  have hbody : ∀ c ∈ [' '].intercalate ((commandLines rawHex spent).map String.toList),
      plain c = true := forall_mem_intercalate (forall_mem_of_all (by decide)) hplain
  -- All that matters of the body is that it is one line of plain characters.
  revert hjoined hwords hbody
  generalize [' '].intercalate ((commandLines rawHex spent).map String.toList) = body
  intro hjoined hwords hbody
  have hne : body ≠ [] := by
    rintro rfl
    cases hwords
  have hline : words (· = '\n') (body ++ ['\n']) = [body] := by
    rw [words_append_cons body [] (decide_eq_true rfl), words_nil, List.append_nil]
    refine words_of_forall ?_ hne
    intro c hc
    rw [decide_eq_false_iff_not]
    rintro rfl
    exact absurd (hbody _ hc) (by decide)
  have hall : ((body ++ ['\n']).all fun c => plain c || c = '\n') = true := by
    rw [List.all_append, Bool.and_eq_true, List.all_eq_true]
    refine ⟨fun c hc => ?_, rfl⟩
    rw [hbody c hc, Bool.true_or]
  rw [shell, hjoined, hline, if_pos hall, List.map_singleton, hwords]
  rfl

/-! ## What the parser sees -/

theorem not_isOption {w : String} (h : ∀ c ∈ w.toList, InWord c ∧ c ≠ '-') :
    isOption w = false := by
  rw [isOption, decide_eq_false_iff_not]
  intro hhead
  exact (h '-' (List.mem_of_mem_head? hhead)).2 rfl

theorem not_isOption_hex (s : HexString) : isOption s.text = false := by
  have hdash : ∀ c ∈ hexDigits, c ≠ '-' := forall_mem_of_all (by decide)
  exact not_isOption fun c hc => ⟨inWord_hex s c hc, hdash c (s.digits c hc)⟩

theorem not_isOption_toString (n : Nat) : isOption (toString n) = false := by
  refine not_isOption fun c hc => ⟨inWord_toString n c hc, ?_⟩
  rintro rfl
  exact absurd (isDigit_of_mem_toString hc) (by decide)

theorem ne_spent_of_not_isOption {w : String} (h : isOption w = false) : w ≠ "--spent" := by
  rintro rfl
  exact absurd h (by decide +kernel)

theorem parseWords_positional {word : String} (h : isOption word = false) (argv : List String)
    (spent : List (String × String)) :
    parseWords (word :: argv) none spent = parseWords argv (some word) spent := by
  rw [parseWords.eq_def]
  dsimp only
  rw [if_neg (ne_spent_of_not_isOption h), h]
  rfl

/-- `--spent` takes two words that are no options. -/
theorem parseWords_spent (script amount : String) (argv : List String) (rawTx : Option String)
    (spent : List (String × String)) :
    parseWords ("--spent" :: script :: amount :: argv) rawTx spent =
      if isOption script || isOption amount then none
      else parseWords argv rawTx (spent ++ [(script, amount)]) := by
  rw [parseWords.eq_def]
  dsimp only
  rw [if_pos rfl]

theorem parseWords_short (word : String) (rawTx : Option String)
    (spent : List (String × String)) : parseWords ["--spent", word] rawTx spent = none := by
  rw [parseWords.eq_def]
  dsimp only
  rw [if_pos rfl]

/-- The words of prevouts whose scripts are not empty are parsed one by one. -/
theorem parseWords_spentWords (rawTx : String) {spent : List Prevout}
    (h : ∀ p ∈ spent, p.scriptpubkey.text ≠ "") (found : List (String × String)) :
    parseWords (spent.flatMap spentWords) (some rawTx) found =
      parseWords [] (some rawTx)
        (found ++ spent.map fun p => (p.scriptpubkey.text, toString p.value)) := by
  induction spent generalizing found with
  | nil => rw [List.flatMap_nil, List.map_nil, List.append_nil]
  | cons p spent ih =>
    have hp := h p (List.mem_cons_self ..)
    rw [List.flatMap_cons, spentWords, if_neg hp]
    show parseWords ("--spent" :: p.scriptpubkey.text :: toString p.value :: _) _ _ = _
    rw [parseWords_spent, not_isOption_hex, not_isOption_toString, if_neg (by decide)]
    show parseWords (spent.flatMap spentWords) _ _ = _
    rw [ih fun q hq => h q (List.mem_cons_of_mem _ hq), List.append_assoc]
    rfl

/-- **An empty script** leaves `--spent` one word short: the next is `--spent` again, or
there is none. -/
theorem parseWords_eq_none (rawTx : String) {spent : List Prevout}
    (h : ¬ ∀ p ∈ spent, p.scriptpubkey.text ≠ "") (found : List (String × String)) :
    parseWords (spent.flatMap spentWords) (some rawTx) found = none := by
  induction spent generalizing found with
  | nil => exact absurd (fun p hp => absurd hp List.not_mem_nil) h
  | cons p spent ih =>
    rw [List.flatMap_cons, spentWords]
    by_cases hp : p.scriptpubkey.text = ""
    · -- `--spent` takes the amount for the script, and what follows is no amount.
      rw [if_pos hp]
      cases spent with
      | nil => exact parseWords_short _ _ _
      | cons q spent =>
        have hoption : isOption "--spent" = true := by decide +kernel
        show parseWords ("--spent" :: toString p.value :: "--spent" :: _) _ _ = none
        rw [parseWords_spent, hoption, Bool.or_true, if_pos rfl]
    · have hrest : ¬ ∀ q ∈ spent, q.scriptpubkey.text ≠ "" := by
        intro hall
        refine h ?_
        rw [List.forall_mem_cons]
        exact ⟨hp, hall⟩
      rw [if_neg hp]
      show parseWords ("--spent" :: p.scriptpubkey.text :: toString p.value :: _) _ _ = none
      rw [parseWords_spent, not_isOption_hex, not_isOption_toString, if_neg (by decide)]
      exact ih hrest _

/-! ## What comes back -/

/-- An amount is read as it was written. -/
theorem pyInt_toString (n : Nat) : pyInt (toString n) = some n := by
  have hdigit : ∀ c ∈ (toString n).toList, c.isDigit = true := fun _ => isDigit_of_mem_toString
  have hunderscore : ∀ c ∈ (toString n).toList, c ≠ '_' := by
    rintro c hc rfl
    exact absurd (hdigit _ hc) (by decide)
  have hfilter : (toString n).toList.filter (· ≠ '_') = (toString n).toList :=
    List.filter_eq_self.mpr fun c hc => decide_eq_true (hunderscore c hc)
  have hsplit : (toString n).toList.splitOn '_' = [(toString n).toList] := by
    rw [List.splitOn_eq_splitOnP]
    exact List.splitOnP_eq_singleton fun c hc => beq_false_of_ne (hunderscore c hc)
  have hgroups : ([(toString n).toList].all fun group =>
      !group.isEmpty && group.all Char.isDigit) = true := by
    rw [List.all_cons, List.all_nil, List.isEmpty_eq_false_iff.mpr (toString_ne_empty n),
      List.all_eq_true.mpr hdigit]
    rfl
  rw [pyInt, hsplit, hfilter, if_pos hgroups, Nat.toString_eq_ofList_toDigits,
    String.toList_ofList, Nat.ofDigitChars_toDigits (by decide) (by decide)]

theorem mapM_readPair (spent : List Prevout) :
    (spent.map fun p => (p.scriptpubkey.text, toString p.value)).mapM readPair =
      some (spent.map fun p => (p.scriptpubkey.text, p.value)) := by
  induction spent with
  | nil => rfl
  | cons p spent ih =>
    rw [List.map_cons, List.mapM_cons, ih, readPair, pyInt_toString]
    rfl

/-- What the words of a command give, if it is taken. -/
theorem manualDebug_spentWords (rawHex : HexString) {spent : List Prevout} (hspent : spent ≠ [])
    (h : ∀ p ∈ spent, p.scriptpubkey.text ≠ "") :
    manualDebug (rawHex.text :: spent.flatMap spentWords) =
      some (rawHex.text, spent.map fun p => (p.scriptpubkey.text, p.value)) := by
  have hargs : parseArgs (rawHex.text :: spent.flatMap spentWords) =
      some ⟨rawHex.text, spent.map fun p => (p.scriptpubkey.text, toString p.value)⟩ := by
    rw [parseArgs, parseWords_positional (not_isOption_hex rawHex), parseWords_spentWords _ h,
      List.nil_append, parseWords]
    exact if_neg fun hnil => hspent (List.map_eq_nil_iff.mp hnil)
  rw [manualDebug, hargs]
  show (do let pairs ← List.mapM readPair _; return (rawHex.text, pairs)) = _
  rw [mapM_readPair]
  rfl

theorem manualDebug_eq_none (rawHex : HexString) {spent : List Prevout}
    (h : ¬ ∀ p ∈ spent, p.scriptpubkey.text ≠ "") :
    manualDebug (rawHex.text :: spent.flatMap spentWords) = none := by
  rw [manualDebug, parseArgs, parseWords_positional (not_isOption_hex rawHex),
    parseWords_eq_none _ h]
  rfl

/-- **When the command means what it was printed from.** -/
theorem runCommand_command_iff (rawHex : HexString) (spent : List Prevout)
    (hraw : rawHex.text ≠ "") (hspent : spent ≠ []) :
    runCommand (command rawHex spent) =
        some (rawHex.text, spent.map fun p => (p.scriptpubkey.text, p.value)) ↔
      ∀ p ∈ spent, p.scriptpubkey.text ≠ "" := by
  have hrun : runCommand (command rawHex spent) =
      manualDebug (rawHex.text :: spent.flatMap spentWords) := by
    rw [runCommand, shell_command hraw]
    show (if PYTHON = PYTHON ∧ MANUAL_DEBUG = MANUAL_DEBUG then manualDebug _ else none) = _
    rw [if_pos ⟨rfl, rfl⟩]
  rw [hrun]
  by_cases h : ∀ p ∈ spent, p.scriptpubkey.text ≠ ""
  · exact iff_of_true (manualDebug_spentWords rawHex hspent h) h
  · refine iff_of_false ?_ h
    rw [manualDebug_eq_none rawHex h]
    exact (Option.some_ne_none _).symm

/-- Two inputs, whose scripts are not empty. -/
theorem runCommand_command_two :
    let rawHex : HexString := ⟨"00", forall_mem_of_all (by decide)⟩
    let p : Prevout := ⟨⟨"51", forall_mem_of_all (by decide)⟩, 7⟩
    let q : Prevout := ⟨⟨"6a00", forall_mem_of_all (by decide)⟩, 2100⟩
    runCommand (command rawHex [p, q]) = some ("00", [("51", 7), ("6a00", 2100)]) := by
  intro rawHex p q
  refine (runCommand_command_iff rawHex [p, q] (by decide) (List.cons_ne_nil _ _)).mpr ?_
  rw [List.forall_mem_cons, List.forall_mem_singleton]
  exact ⟨by decide, by decide⟩

/-- An input that spends an empty script: the command is refused. -/
theorem runCommand_command_empty :
    let rawHex : HexString := ⟨"00", forall_mem_of_all (by decide)⟩
    let p : Prevout := ⟨⟨"", forall_mem_of_all (by decide)⟩, 7⟩
    runCommand (command rawHex [p]) ≠ some ("00", [("", 7)]) := by
  decide +kernel

end PyBitcoinKernel.Scripts
