import PyBitcoinKernel.Script.Opcode
import PyBitcoinKernel.Script.Instruction

/-!
# `disassemble` against the reference decoder

The debugger's `disassemble` is one `while` loop over an index `i` into the
script: `disassembleLoop` and its `if`/`elif` chain `pushData` mirror it
statement for statement. `loop_eq` turns the index into the suffix
`script.drop i`; on suffixes the loop reads exactly what the reference decoder
reads, except in one branch: when the bytes left do not hold a whole length
field, `pushData` leaves `i` where it is instead of skipping what there is of
the field (`readPush`).

From there:

* `disassemble_encodeScript_append` and `encodeScript_eq_of_disassemble_eq`:
  on complete instructions the loop is faithful, so encoding is undone and no
  byte is lost.
* `disassemble_eq_reference_iff`: the loop agrees with the reference decoder
  on truncated scripts too, unless the script stops inside a 2- or 4-byte
  length field of which some byte is present. Those bytes come back as opcodes
  of their own (`disassemble_split_length`).
-/

namespace PyBitcoinKernel.Script

open LittleEndian (fromLE fromLE_cons fromLE_nil toLE_length)

/-- A row of the disassembly: `(opcode_pos, mnemonic, data)`. -/
structure Entry where
  pos : Nat
  mnemonic : String
  data : Bytes
  deriving DecidableEq, Repr

/-! ## The loop -/

/-- Python's `s[a : b]` for `0 ≤ a`; the bounds clamp to the string. -/
def slice (s : Bytes) (a b : Nat) : Bytes := (s.drop a).take (b - a)

/-- The `if`/`elif` chain of the loop: the pushed bytes and the next index,
for an opcode `op` whose operands start at `i`. -/
def pushData (script : Bytes) (op i : Nat) : Bytes × Nat :=
  if 1 ≤ op ∧ op ≤ 0x4B then (slice script i (i + op), i + op)
  else if op = 0x4C then
    if h : i < script.length then
      let ln := script[i].toNat
      let i := i + 1
      (slice script i (i + ln), i + ln)
    else ([], i)
  else if op = 0x4D then
    -- Without the whole length field nothing is skipped, here and below.
    if i + 1 < script.length then
      let ln := fromLE (slice script i (i + 2))
      let i := i + 2
      (slice script i (i + ln), i + ln)
    else ([], i)
  else if op = 0x4E then
    if i + 3 < script.length then
      let ln := fromLE (slice script i (i + 4))
      let i := i + 4
      (slice script i (i + ln), i + ln)
    else ([], i)
  else ([], i)

/-- The index never moves back. -/
theorem pushData_le (script : Bytes) (op i : Nat) : i ≤ (pushData script op i).2 := by
  unfold pushData
  dsimp only
  repeat' split
  all_goals first | exact Nat.le_refl _ | omega

/-- The `while` loop; `out` is the list built so far. -/
def disassembleLoop (script : Bytes) (i pos : Nat) (out : List Entry) : List Entry :=
  if h : i < script.length then
    let op := script[i].toNat
    let r := pushData script op (i + 1)
    disassembleLoop script r.2 (pos + 1) (out ++ [⟨pos, opcodeName op, r.1⟩])
  else out
  termination_by script.length - i
  decreasing_by
    have := pushData_le script script[i].toNat (i + 1)
    omega

/-- `disassemble` of a `bytes` script. -/
def disassemble (script : Bytes) : List Entry := disassembleLoop script 0 0 []

/-! ## From indices to suffixes -/

/-- What the chain reads of the suffix behind an opcode: the pushed bytes and
the suffix that follows. Where the reference decoder finds no whole length
field, nothing is skipped. -/
def readPush (op : UInt8) (t : Bytes) : Bytes × Bytes :=
  match readLength op t with
  | some (n, t') => (t'.take n, t'.drop n)
  | none => ([], t)

/-- A slice that starts at `i` is a prefix of the suffix at `i`. -/
theorem slice_add (s : Bytes) (i n : Nat) : slice s i (i + n) = (s.drop i).take n := by
  unfold slice
  rw [Nat.add_sub_cancel_left]

/-- Reading `ln` bytes behind a field of `w` bytes, on indices and on suffixes. -/
private theorem field_eq (script : Bytes) (i w ln : Nat) :
    slice script (i + w) (i + w + ln) = ((script.drop i).drop w).take ln ∧
    script.drop (i + w + ln) = ((script.drop i).drop w).drop ln := by
  rw [slice_add, List.drop_drop, List.drop_drop]
  exact ⟨rfl, rfl⟩

/-- An `OP_PUSHDATA` opcode is told from its value. -/
private theorem lenField?_cases (op : UInt8) :
    (op.toNat = 0x4C ∧ lenField? op = some .one) ∨ (op.toNat = 0x4D ∧ lenField? op = some .two) ∨
    (op.toNat = 0x4E ∧ lenField? op = some .four) ∨
    (op.toNat ≠ 0x4C ∧ op.toNat ≠ 0x4D ∧ op.toNat ≠ 0x4E ∧ lenField? op = none) := by
  unfold lenField?
  by_cases h1 : op.toNat = 0x4C
  · exact Or.inl ⟨h1, if_pos h1⟩
  · by_cases h2 : op.toNat = 0x4D
    · exact Or.inr (Or.inl ⟨h2, by rw [if_neg h1, if_pos h2]⟩)
    · by_cases h4 : op.toNat = 0x4E
      · exact Or.inr (Or.inr (Or.inl ⟨h4, by rw [if_neg h1, if_neg h2, if_pos h4]⟩))
      · exact Or.inr (Or.inr (Or.inr ⟨h1, h2, h4, by rw [if_neg h1, if_neg h2, if_neg h4]⟩))

/-- The chain on indices is `readPush` on suffixes. -/
theorem pushData_eq (script : Bytes) (op : UInt8) (i : Nat) :
    (pushData script op.toNat i).1 = (readPush op (script.drop i)).1 ∧
    script.drop (pushData script op.toNat i).2 = (readPush op (script.drop i)).2 := by
  by_cases hd : IsDirect op
  · -- A direct push: like a length field of no bytes.
    have hd' : 1 ≤ op.toNat ∧ op.toNat ≤ 0x4B := hd
    rw [readPush, readLength_direct hd, pushData, if_pos hd']
    exact field_eq script i 0 op.toNat
  · have hd' : ¬ (1 ≤ op.toNat ∧ op.toNat ≤ 0x4B) := hd
    rw [readPush, pushData, if_neg hd']
    rcases lenField?_cases op with ⟨h1, hf⟩ | ⟨h2, hf⟩ | ⟨h4, hf⟩ | ⟨h1, h2, h4, hf⟩
    · rw [readLength_field hf, if_pos h1, List.length_drop, LenField.width]
      by_cases hi : i < script.length
      · have hln : fromLE ((script.drop i).take 1) = script[i].toNat := by
          rw [List.drop_eq_getElem_cons hi, List.take_succ_cons, List.take_zero, fromLE_cons,
            fromLE_nil, Nat.mul_zero, Nat.add_zero]
        rw [dif_pos hi, if_pos (by omega), hln]
        exact field_eq script i 1 _
      · -- Too short for the field: neither side moves on.
        rw [dif_neg hi, if_neg (by omega)]
        exact ⟨rfl, rfl⟩
    · rw [readLength_field hf, if_neg (by omega), if_pos h2, List.length_drop, LenField.width]
      by_cases hi : i + 1 < script.length
      · rw [if_pos hi, if_pos (by omega), ← slice_add]
        exact field_eq script i 2 _
      · rw [if_neg hi, if_neg (by omega)]
        exact ⟨rfl, rfl⟩
    · rw [readLength_field hf, if_neg (by omega), if_neg (by omega), if_pos h4,
        List.length_drop, LenField.width]
      by_cases hi : i + 3 < script.length
      · rw [if_pos hi, if_pos (by omega), ← slice_add]
        exact field_eq script i 4 _
      · rw [if_neg hi, if_neg (by omega)]
        exact ⟨rfl, rfl⟩
    · rw [readLength_plain hd hf, if_neg h1, if_neg h2, if_neg h4]
      exact ⟨rfl, rfl⟩

/-- Reading a push never lengthens the suffix. -/
theorem readPush_length (op : UInt8) (t : Bytes) : (readPush op t).2.length ≤ t.length := by
  unfold readPush
  split
  next n t' hr =>
    have ht := congrArg List.length (eq_of_readLength hr)
    rw [List.length_append] at ht
    rw [List.length_drop]
    omega
  next => exact Nat.le_refl _

/-- The loop on a suffix: one row for each opcode the loop stops at. -/
def listing (pos : Nat) : Bytes → List Entry
  | [] => []
  | op :: t => ⟨pos, opcodeName op.toNat, (readPush op t).1⟩ :: listing (pos + 1) (readPush op t).2
  termination_by t => t.length
  decreasing_by
    have := readPush_length op t
    rw [List.length_cons]
    omega

/-- **The loop invariant**: what is still to come is the listing of the suffix. -/
theorem loop_eq (script : Bytes) (i pos : Nat) (out : List Entry) :
    disassembleLoop script i pos out = out ++ listing pos (script.drop i) := by
  rw [disassembleLoop]
  split
  next h =>
    -- One round: the row of this opcode, then what the recursive call lists.
    obtain ⟨hdata, hrest⟩ := pushData_eq script script[i] (i + 1)
    rw [loop_eq script _ (pos + 1), List.append_assoc, List.drop_eq_getElem_cons h, listing,
      hdata, hrest]
    rfl
  next h =>
    rw [List.drop_eq_nil_of_le (Nat.le_of_not_lt h), listing, List.append_nil]
  termination_by script.length - i
  decreasing_by
    have := pushData_le script script[i].toNat (i + 1)
    omega

theorem disassemble_eq_listing (script : Bytes) : disassemble script = listing 0 script := by
  unfold disassemble
  rw [loop_eq, List.drop_zero, List.nil_append]

/-! ## Complete instructions -/

/-- The row of an instruction at position `pos`. -/
def Instr.entry (i : Instr) (pos : Nat) : Entry := ⟨pos, opcodeName i.opcode.toNat, i.payload⟩

/-- The rows of a list of instructions, positions counted from `pos`. -/
def entries (pos : Nat) : List Instr → List Entry
  | [] => []
  | i :: is => i.entry pos :: entries (pos + 1) is

/-- A row with its position moved by `k`. -/
def Entry.shift (k : Nat) (e : Entry) : Entry := { e with pos := e.pos + k }

theorem readPush_encode (i : Instr) (t : Bytes) :
    readPush i.opcode (lenBytes i.opcode i.payload.length ++ i.payload ++ t) = (i.payload, t) := by
  rw [readPush, List.append_assoc, readLength_encode]
  dsimp only
  rw [List.take_left, List.drop_left]

/-- A complete instruction gives its own row, and the loop goes on behind it. -/
theorem listing_encode (pos : Nat) (i : Instr) (t : Bytes) :
    listing pos (i.encode ++ t) = i.entry pos :: listing (pos + 1) t := by
  rw [Instr.encode, List.cons_append, listing, readPush_encode]
  rfl

theorem listing_encodeScript_append (is : List Instr) :
    ∀ (pos : Nat) (t : Bytes),
      listing pos (encodeScript is ++ t) = entries pos is ++ listing (pos + is.length) t := by
  induction is with
  | nil => intro pos t; rfl
  | cons i is ih =>
    intro pos t
    rw [encodeScript, Codec.encodeAll_cons, List.append_assoc]
    show listing pos (i.encode ++ (encodeScript is ++ t)) = _
    rw [listing_encode, ih, List.length_cons, Nat.add_comm is.length 1, ← Nat.add_assoc]
    rfl

/-- Only the positions depend on where the loop started to count. -/
theorem listing_shift (k : Nat) : ∀ (pos : Nat) (t : Bytes),
    listing (pos + k) t = (listing pos t).map (Entry.shift k)
  | pos, [] => by rw [listing, listing]; rfl
  | pos, op :: t => by
    rw [listing, listing, List.map_cons, Nat.add_right_comm, listing_shift k (pos + 1)]
    rfl
  termination_by _ t => t.length
  decreasing_by
    have := readPush_length op t
    rw [List.length_cons]
    omega

/-- **Encoding is undone**: complete instructions come back one row each, and
whatever follows is disassembled as if it stood alone. -/
theorem disassemble_encodeScript_append (is : List Instr) (t : Bytes) :
    disassemble (encodeScript is ++ t)
      = entries 0 is ++ (disassemble t).map (Entry.shift is.length) := by
  rw [disassemble_eq_listing, listing_encodeScript_append, listing_shift, disassemble_eq_listing]

theorem length_entries (is : List Instr) (pos : Nat) : (entries pos is).length = is.length := by
  induction is generalizing pos with
  | nil => rfl
  | cons i is ih => rw [entries, List.length_cons, List.length_cons, ih]

/-- Rows determine instructions: the mnemonic gives the opcode back. -/
theorem entries_inj : ∀ (is js : List Instr) (pos : Nat),
    entries pos is = entries pos js → is = js
  | [], [], _, _ => rfl
  | [], _ :: _, _, h => absurd h (by simp [entries])
  | _ :: _, [], _, h => absurd h (by simp [entries])
  | i :: is, j :: js, pos, h => by
    simp only [entries, List.cons.injEq, Instr.entry, Entry.mk.injEq, true_and] at h
    obtain ⟨⟨hname, hpay⟩, hrest⟩ := h
    have hop : i.opcode = j.opcode :=
      UInt8.toNat_inj.mp (opcodeName_inj i.opcode.toNat_lt j.opcode.toNat_lt hname)
    have hij : i = j := by
      cases i
      cases j
      cases hop
      cases hpay
      rfl
    rw [hij, entries_inj is js (pos + 1) hrest]

/-- Without `OP_PUSHDATA` opcodes the rows determine the script: a row that shows
the whole payload of its opcode was not cut short. -/
theorem listing_eq_entries_iff : ∀ (is : List Instr) (pos : Nat) (s : Bytes),
    (∀ i ∈ is, lenField? i.opcode = none) →
    (listing pos s = entries pos is ↔ s = encodeScript is)
  | [], pos, s, _ => by
    cases s with
    | nil => exact iff_of_true (by rw [listing]; rfl) rfl
    | cons op t => exact iff_of_false (by rw [listing]; exact nofun) nofun
  | i :: is, pos, s, hplain => by
    have hi := hplain i (List.mem_cons_self ..)
    have ih := listing_eq_entries_iff is (pos + 1)
    constructor
    · intro h
      cases s with
      | nil =>
        rw [listing] at h
        cases h
      | cons op t =>
        rw [listing, entries, List.cons.injEq] at h
        obtain ⟨hrow, hrest⟩ := h
        obtain ⟨-, hname, hdata⟩ := Entry.mk.inj hrow
        have hop : op = i.opcode :=
          UInt8.toNat_inj.mp (opcodeName_inj op.toNat_lt i.opcode.toNat_lt hname)
        subst hop
        have ht : t = i.payload ++ (readPush i.opcode t).2 := by
          rw [← hdata]
          unfold readPush
          by_cases hd : IsDirect i.opcode
          · rw [readLength_direct hd]
            exact (List.take_append_drop _ _).symm
          · rw [readLength_plain hd hi]
            exact (List.take_append_drop _ _).symm
        have htail := (ih _ fun j hj => hplain j (List.mem_cons_of_mem _ hj)).mp hrest
        rw [encodeScript, Codec.encodeAll_cons]
        show i.opcode :: t = i.encode ++ encodeScript is
        rw [← htail, Instr.encode, lenBytes, hi, List.nil_append, List.cons_append, ← ht]
    · intro h
      have hall := listing_encodeScript_append (i :: is) pos []
      rw [List.append_nil, listing, List.append_nil] at hall
      rw [h, hall]

/-- **Nothing is lost**: two instruction lists with one disassembly have one
encoding. -/
theorem encodeScript_eq_of_disassemble_eq {is js : List Instr}
    (h : disassemble (encodeScript is) = disassemble (encodeScript js)) :
    encodeScript is = encodeScript js := by
  have hi := disassemble_encodeScript_append is []
  have hj := disassemble_encodeScript_append js []
  have hnil : disassemble [] = [] := by rw [disassemble_eq_listing, listing]
  rw [List.append_nil, hnil, List.map_nil, List.append_nil] at hi hj
  rw [entries_inj is js 0 (by rw [← hi, ← hj, h])]

/-! ## Truncated pushes -/

/-- Bytes of the length field an opcode announces. -/
def lenWidth (op : UInt8) : Nat :=
  match lenField? op with
  | some f => f.width
  | none => 0

/-- The row of a truncated push: the payload bytes that are there, behind
whatever there is of the length field. -/
def truncatedEntry (pos : Nat) : Bytes → List Entry
  | [] => []
  | op :: t => [⟨pos, opcodeName op.toNat, t.drop (lenWidth op)⟩]

/-- What `disassemble` is for: the instructions the reference decoder reads,
in order, and one last row for the push it fails at, if it fails. -/
def referenceDisassembly (s : Bytes) : List Entry :=
  entries 0 (decodeScript s).1 ++ truncatedEntry (decodeScript s).1.length (decodeScript s).2

/-- The script stops, at an instruction boundary, inside a length field of
which some bytes but not all are there: an `OP_PUSHDATA2` and one byte, or an
`OP_PUSHDATA4` and one to three bytes. -/
def EndsInSplitLength (s : Bytes) : Prop :=
  ∃ (is : List Instr) (f : LenField) (t : Bytes),
    t ≠ [] ∧ t.length < f.width ∧ s = encodeScript is ++ f.opcode :: t

/-- Inside a length field the loop reads nothing, and stops at the next byte. -/
theorem listing_split_length (pos : Nat) {f : LenField} {t : Bytes} (h : t.length < f.width) :
    listing pos (f.opcode :: t)
      = ⟨pos, opcodeName f.opcode.toNat, []⟩ :: listing (pos + 1) t := by
  rw [listing, readPush, readLength_field (lenField?_opcode f), if_neg (by omega)]

/-- Inside a payload the loop reads all that is left. -/
theorem listing_truncated_payload (pos : Nat) {op : UInt8} {t t' : Bytes} {n : Nat}
    (hr : readLength op t = some (n, t')) (h : t'.length < n) :
    listing pos (op :: t) = [⟨pos, opcodeName op.toNat, t'⟩] := by
  rw [listing, readPush, hr]
  dsimp only
  rw [List.take_of_length_le (Nat.le_of_lt h), List.drop_eq_nil_of_le (Nat.le_of_lt h), listing]

theorem lenBytes_length (op : UInt8) (n : Nat) : (lenBytes op n).length = lenWidth op := by
  unfold lenBytes lenWidth
  cases lenField? op with
  | some f => exact toLE_length f.width n
  | none => rfl

theorem listing_eq_nil_iff (pos : Nat) (t : Bytes) : listing pos t = [] ↔ t = [] := by
  cases t with
  | nil => exact iff_of_true (by rw [listing]) rfl
  | cons op t => rw [listing]; simp

/-- The reference decoder is stuck in a length field that is cut short. -/
theorem readInstr_split_length {f : LenField} {t : Bytes} (h : t.length < f.width) :
    readInstr (f.opcode :: t) = none := by
  rw [readInstr]
  split
  next => rfl
  next hr =>
    rw [readLength_field (lenField?_opcode f), if_neg (by omega)] at hr
    exact absurd hr (by simp)

/-- The condition is about the remainder the reference decoder leaves. -/
theorem endsInSplitLength_iff (s : Bytes) :
    EndsInSplitLength s ↔
      ∃ (f : LenField) (t : Bytes), t ≠ [] ∧ t.length < f.width ∧
        (decodeScript s).2 = f.opcode :: t := by
  constructor
  · intro hsplit
    obtain ⟨is, f, t, hne, hlt, hs⟩ := hsplit
    have hd := instrCodec.decodeAll_eq_iff.mpr ⟨hs, readInstr_split_length hlt⟩
    exact ⟨f, t, hne, hlt, congrArg Prod.snd hd⟩
  · intro hsplit
    obtain ⟨f, t, hne, hlt, hr⟩ := hsplit
    refine ⟨(decodeScript s).1, f, t, hne, hlt, ?_⟩
    rw [← hr]
    exact (instrCodec.encodeAll_decodeAll s).symm

/-- On the remainder, the loop gives the one row of the truncated push unless
it walks into the bytes of a length field. -/
theorem listing_stuck_iff (pos : Nat) {r : Bytes} (h : readInstr r = none) :
    listing pos r = truncatedEntry pos r ↔
      ¬ ∃ (f : LenField) (t : Bytes), t ≠ [] ∧ t.length < f.width ∧ r = f.opcode :: t := by
  rcases readInstr_none_cases h with rfl | ⟨f, t, rfl, hlt⟩ | ⟨op, t, n, t', rfl, hr, hlt⟩
  · -- Nothing is left.
    refine iff_of_true ((listing_eq_nil_iff pos []).mpr rfl) ?_
    intro hsplit
    obtain ⟨f, t, -, -, hr⟩ := hsplit
    exact absurd hr (by simp)
  · -- Inside a length field: one more row for each byte of it that is there.
    have hdrop : t.drop (lenWidth f.opcode) = [] := by
      rw [lenWidth, lenField?_opcode]
      exact List.drop_eq_nil_of_le (Nat.le_of_lt hlt)
    rw [listing_split_length pos hlt, truncatedEntry, hdrop, List.cons.injEq, listing_eq_nil_iff]
    constructor
    · intro hrows hsplit
      obtain ⟨-, rfl⟩ := hrows
      obtain ⟨f', t', hne, -, heq⟩ := hsplit
      exact hne (List.cons.inj heq).2.symm
    · intro hno
      refine ⟨rfl, Decidable.byContradiction fun hne => hno ⟨f, t, hne, hlt, rfl⟩⟩
  · -- Inside a payload.
    have ht' : t.drop (lenWidth op) = t' := by
      rw [eq_of_readLength hr]
      exact List.drop_left' (lenBytes_length op n)
    rw [listing_truncated_payload pos hr hlt, truncatedEntry, ht']
    refine iff_of_true rfl ?_
    intro hsplit
    obtain ⟨f, u, -, hu, heq⟩ := hsplit
    obtain ⟨rfl, rfl⟩ := List.cons.inj heq
    rw [readLength_field (lenField?_opcode f), if_neg (by omega)] at hr
    exact absurd hr (by simp)

/-- **Exactly when `disassemble` is the reference decoder's disassembly**: on
every script but those that stop inside a 2- or 4-byte length field. -/
theorem disassemble_eq_reference_iff (s : Bytes) :
    disassemble s = referenceDisassembly s ↔ ¬ EndsInSplitLength s := by
  have hs := (instrCodec.encodeAll_decodeAll s).symm
  have hr := instrCodec.dec_remainder s
  rw [endsInSplitLength_iff, ← listing_stuck_iff (decodeScript s).1.length hr,
    disassemble_eq_listing, referenceDisassembly]
  rw [show listing 0 s = entries 0 (decodeScript s).1
        ++ listing (decodeScript s).1.length (decodeScript s).2 by
      conv => lhs; rw [hs]
      rw [listing_encodeScript_append, Nat.zero_add]]
  exact List.append_right_inj _

/-- An `OP_PUSHDATA2` with one byte left: that byte comes back as an opcode. -/
theorem disassemble_split_length :
    disassemble [0x4D, 0xAC] = [⟨0, "OP_PUSHDATA2", []⟩, ⟨1, "OP_CHECKSIG", []⟩] ∧
    referenceDisassembly [0x4D, 0xAC] = [⟨0, "OP_PUSHDATA2", []⟩] ∧
    disassemble [0x4D, 0xAC] ≠ referenceDisassembly [0x4D, 0xAC] := by
  refine ⟨?_, ?_, ?_⟩
  all_goals decide +kernel

/-- **`disassemble` undoes script encoding and loses nothing.** -/
theorem disassemble_undoes_encoding :
    (∀ (is : List Instr) (t : Bytes), disassemble (encodeScript is ++ t)
        = entries 0 is ++ (disassemble t).map (Entry.shift is.length)) ∧
    (∀ is js : List Instr, disassemble (encodeScript is) = disassemble (encodeScript js) →
      encodeScript is = encodeScript js) :=
  ⟨disassemble_encodeScript_append, fun _ _ => encodeScript_eq_of_disassemble_eq⟩

end PyBitcoinKernel.Script
