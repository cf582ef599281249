import Mathlib.Data.List.Nodup
import PyBitcoinKernel.Lib.Hex
import PyBitcoinKernel.Lib.Delimited

/-!
# Opcode mnemonics

`opcodeName` of the script debugger: a table of names (`opcodeNames`), the
direct pushes `OP_PUSHBYTES_<n>`, and `OP_UNKNOWN_0x<hex>` for what is left.
A disassembly shows mnemonics where the script has bytes, so it loses nothing
only because the three naming rules never meet:

> `opcodeName_inj`: two bytes with one mnemonic are the same byte.

The table's names are pairwise distinct (`opcodeNames_nodup`), none of them
begins like the other two rules' names (`opcodeNames_prefix`), and within each
rule the number can be read back.
-/

namespace PyBitcoinKernel.Script

open Hex (hex02 hex02_inj hex02_of_lt)
open Delimited

/-- Opcode value and name. The direct pushes `0x01..0x4b` have no row. -/
def opcodeNames : List (Nat × String) :=
  [(0x00, "OP_0"), (0x4C, "OP_PUSHDATA1"), (0x4D, "OP_PUSHDATA2"), (0x4E, "OP_PUSHDATA4"),
    (0x4F, "OP_1NEGATE"), (0x50, "OP_RESERVED"), (0x51, "OP_1"), (0x52, "OP_2"), (0x53, "OP_3"),
    (0x54, "OP_4"), (0x55, "OP_5"), (0x56, "OP_6"), (0x57, "OP_7"), (0x58, "OP_8"),
    (0x59, "OP_9"), (0x5A, "OP_10"), (0x5B, "OP_11"), (0x5C, "OP_12"), (0x5D, "OP_13"),
    (0x5E, "OP_14"), (0x5F, "OP_15"), (0x60, "OP_16"), (0x61, "OP_NOP"), (0x62, "OP_VER"),
    (0x63, "OP_IF"), (0x64, "OP_NOTIF"), (0x65, "OP_VERIF"), (0x66, "OP_VERNOTIF"),
    (0x67, "OP_ELSE"), (0x68, "OP_ENDIF"), (0x69, "OP_VERIFY"), (0x6A, "OP_RETURN"),
    (0x6B, "OP_TOALTSTACK"), (0x6C, "OP_FROMALTSTACK"), (0x6D, "OP_2DROP"), (0x6E, "OP_2DUP"),
    (0x6F, "OP_3DUP"), (0x70, "OP_2OVER"), (0x71, "OP_2ROT"), (0x72, "OP_2SWAP"),
    (0x73, "OP_IFDUP"), (0x74, "OP_DEPTH"), (0x75, "OP_DROP"), (0x76, "OP_DUP"),
    (0x77, "OP_NIP"), (0x78, "OP_OVER"), (0x79, "OP_PICK"), (0x7A, "OP_ROLL"), (0x7B, "OP_ROT"),
    (0x7C, "OP_SWAP"), (0x7D, "OP_TUCK"), (0x7E, "OP_CAT"), (0x7F, "OP_SUBSTR"),
    (0x80, "OP_LEFT"), (0x81, "OP_RIGHT"), (0x82, "OP_SIZE"), (0x83, "OP_INVERT"),
    (0x84, "OP_AND"), (0x85, "OP_OR"), (0x86, "OP_XOR"), (0x87, "OP_EQUAL"),
    (0x88, "OP_EQUALVERIFY"), (0x89, "OP_RESERVED1"), (0x8A, "OP_RESERVED2"), (0x8B, "OP_1ADD"),
    (0x8C, "OP_1SUB"), (0x8D, "OP_2MUL"), (0x8E, "OP_2DIV"), (0x8F, "OP_NEGATE"),
    (0x90, "OP_ABS"), (0x91, "OP_NOT"), (0x92, "OP_0NOTEQUAL"), (0x93, "OP_ADD"),
    (0x94, "OP_SUB"), (0x95, "OP_MUL"), (0x96, "OP_DIV"), (0x97, "OP_MOD"), (0x98, "OP_LSHIFT"),
    (0x99, "OP_RSHIFT"), (0x9A, "OP_BOOLAND"), (0x9B, "OP_BOOLOR"), (0x9C, "OP_NUMEQUAL"),
    (0x9D, "OP_NUMEQUALVERIFY"), (0x9E, "OP_NUMNOTEQUAL"), (0x9F, "OP_LESSTHAN"),
    (0xA0, "OP_GREATERTHAN"), (0xA1, "OP_LESSTHANOREQUAL"), (0xA2, "OP_GREATERTHANOREQUAL"),
    (0xA3, "OP_MIN"), (0xA4, "OP_MAX"), (0xA5, "OP_WITHIN"), (0xA6, "OP_RIPEMD160"),
    (0xA7, "OP_SHA1"), (0xA8, "OP_SHA256"), (0xA9, "OP_HASH160"), (0xAA, "OP_HASH256"),
    (0xAB, "OP_CODESEPARATOR"), (0xAC, "OP_CHECKSIG"), (0xAD, "OP_CHECKSIGVERIFY"),
    (0xAE, "OP_CHECKMULTISIG"), (0xAF, "OP_CHECKMULTISIGVERIFY"), (0xB0, "OP_NOP1"),
    (0xB1, "OP_CHECKLOCKTIMEVERIFY"), (0xB2, "OP_CHECKSEQUENCEVERIFY"), (0xB3, "OP_NOP4"),
    (0xB4, "OP_NOP5"), (0xB5, "OP_NOP6"), (0xB6, "OP_NOP7"), (0xB7, "OP_NOP8"),
    (0xB8, "OP_NOP9"), (0xB9, "OP_NOP10"), (0xBA, "OP_CHECKSIGADD"), (0xFF, "OP_INVALIDOPCODE")]

/-- The mnemonic of a one-byte opcode. -/
def opcodeName (opcode : Nat) : String :=
  match opcodeNames.lookup opcode with
  | some name => name
  | none =>
    if 0x01 ≤ opcode ∧ opcode ≤ 0x4B then "OP_PUSHBYTES_" ++ toString opcode
    else "OP_UNKNOWN_0x" ++ String.ofList (hex02 opcode)

example : [0x76, 0x14, 0xBB].map opcodeName = ["OP_DUP", "OP_PUSHBYTES_20", "OP_UNKNOWN_0xbb"] := by
  decide

/-! ## The table -/

/-- No two rows of the table share a name. -/
theorem opcodeNames_nodup : (opcodeNames.map (·.2)).Nodup := by
  have hkeys : ((opcodeNames.map (·.2)).map key).Nodup := by decide +kernel
  exact List.Nodup.of_map key hkeys

/-- No name of the table begins like a computed one. -/
theorem opcodeNames_prefix : ∀ row ∈ opcodeNames,
    ¬ "OP_PUSHBYTES_".toList <+: row.2.toList ∧ ¬ "OP_UNKNOWN_0x".toList <+: row.2.toList := by
  decide +kernel

/-- Rows with one name are one row. -/
theorem opcodeNames_row_inj {a b : Nat} {name : String} (ha : (a, name) ∈ opcodeNames)
    (hb : (b, name) ∈ opcodeNames) : a = b := by
  have h := List.inj_on_of_nodup_map opcodeNames_nodup ha hb rfl
  exact congrArg Prod.fst h

/-! ## The three rules -/

/-- A mnemonic comes from the table, or is a direct push's, or an unassigned
opcode's. -/
theorem opcodeName_cases (a : Nat) :
    (a, opcodeName a) ∈ opcodeNames ∨
    opcodeName a = "OP_PUSHBYTES_" ++ toString a ∨
    opcodeName a = "OP_UNKNOWN_0x" ++ String.ofList (hex02 a) := by
  unfold opcodeName
  split
  next name hrow =>
    obtain ⟨l₁, l₂, hl, -⟩ := List.lookup_eq_some_iff.mp hrow
    left
    rw [hl]
    simp
  next =>
    split
    · exact Or.inr (Or.inl rfl)
    · exact Or.inr (Or.inr rfl)

private theorem prefix_append (p s : String) : p.toList <+: (p ++ s).toList := by
  rw [String.toList_append]
  exact List.prefix_append _ _

/-- A decimal numeral can be read back. -/
theorem toString_nat_inj {a b : Nat} (h : toString a = toString b) : a = b := by
  rw [Nat.toString_eq_ofList_toDigits, Nat.toString_eq_ofList_toDigits] at h
  have hd := String.ofList_injective h
  rw [← Nat.ofDigitChars_ten_toDigits (n := a), hd, Nat.ofDigitChars_ten_toDigits]

/-- The computed names of the two rules differ in their fourth letter. -/
private theorem pushbytes_ne_unknown (s t : String) :
    "OP_PUSHBYTES_" ++ s ≠ "OP_UNKNOWN_0x" ++ t := by
  intro h
  have hl := congrArg String.toList h
  rw [String.toList_append, String.toList_append] at hl
  simp at hl

/-- **Mnemonics are unambiguous**: the opcode byte can be read off its name. -/
theorem opcodeName_inj {a b : Nat} (ha : a < 256) (hb : b < 256)
    (h : opcodeName a = opcodeName b) : a = b := by
  rcases opcodeName_cases a with hra | hpa | hua
  -- Names of one rule give the number back; names of two rules differ in their prefix.
  · have hpre := opcodeNames_prefix _ hra
    rcases opcodeName_cases b with hrb | hpb | hub
    · rw [h] at hra
      exact opcodeNames_row_inj hra hrb
    · rw [h, hpb] at hpre
      exact absurd (prefix_append _ _) hpre.1
    · rw [h, hub] at hpre
      exact absurd (prefix_append _ _) hpre.2
  · rcases opcodeName_cases b with hrb | hpb | hub
    · have hpre := opcodeNames_prefix _ hrb
      rw [← h, hpa] at hpre
      exact absurd (prefix_append _ _) hpre.1
    · rw [hpa, hpb] at h
      exact toString_nat_inj ((String.append_right_inj _).mp h)
    · rw [hpa, hub] at h
      exact absurd h (pushbytes_ne_unknown _ _)
  · rcases opcodeName_cases b with hrb | hpb | hub
    · have hpre := opcodeNames_prefix _ hrb
      rw [← h, hua] at hpre
      exact absurd (prefix_append _ _) hpre.2
    · rw [hua, hpb] at h
      exact absurd h.symm (pushbytes_ne_unknown _ _)
    · rw [hua, hub] at h
      have hd := String.ofList_injective ((String.append_right_inj _).mp h)
      exact hex02_inj ha hb hd

/-- A mnemonic is one word. -/
theorem free_opcodeName {c : Char} (hc : c = ' ' ∨ c = '\n') {op : Nat} (hop : op < 256) :
    Free c (opcodeName op) := by
  have htable : ∀ row ∈ opcodeNames, 0x20 ∉ bytes row.2 ∧ 0x0A ∉ bytes row.2 := by decide +kernel
  have hpush : 0x20 ∉ bytes "OP_PUSHBYTES_" ∧ 0x0A ∉ bytes "OP_PUSHBYTES_" := by decide +kernel
  have hunknown : 0x20 ∉ bytes "OP_UNKNOWN_0x" ∧ 0x0A ∉ bytes "OP_UNKNOWN_0x" := by decide +kernel
  have hfree : ∀ {s : String}, 0x20 ∉ bytes s ∧ 0x0A ∉ bytes s → Free c s := by
    intro s hs
    rcases hc with rfl | rfl
    · exact free_of_bytes (by decide) hs.1
    · exact free_of_bytes (by decide) hs.2
  have hdigit : c.isDigit = false ∧ c ∉ Hex.lowerDigits := by
    rcases hc with rfl | rfl <;> decide
  rcases opcodeName_cases op with hrow | h | h
  · exact hfree (htable _ hrow)
  · rw [h, free_append]
    exact ⟨hfree hpush, free_toString hdigit.1 op⟩
  · rw [h, free_append, hex02_of_lt hop]
    refine ⟨hfree hunknown, free_ofList.mpr ?_⟩
    intro hmem
    rcases List.mem_cons.mp hmem with rfl | hmem
    · exact hdigit.2 (Hex.digitChar_mem_lowerDigits (by omega))
    · rw [List.mem_singleton.mp hmem] at hdigit
      exact hdigit.2 (Hex.digitChar_mem_lowerDigits (by omega))

/-! ## Descriptions -/

/-- Opcode value and description, for the opcodes `opcodeDescription` does not treat
by itself. -/
def opcodeDescriptions : List (Nat × String) :=
  [(0x4F, "Push the number -1."),
    (0x50, "Reserved; makes the script invalid if executed."),
    (0x61, "Do nothing."),
    (0x62, "Reserved; makes the script invalid if executed."),
    (0x63, "If the top stack value is true, run the following block (pops it)."),
    (0x64, "If the top stack value is false, run the following block (pops it)."),
    (0x65, "Reserved; makes the script invalid even when not executed."),
    (0x66, "Reserved; makes the script invalid even when not executed."),
    (0x67, "Run the following block if the matching OP_IF/OP_NOTIF did not."),
    (0x68, "End an OP_IF / OP_NOTIF / OP_ELSE block."),
    (0x69, "Fail the script unless the top stack value is true; then pop it."),
    (0x6A, "Fail the script immediately (marks an output unspendable)."),
    (0x6B, "Move the top stack item to the alt stack."),
    (0x6C, "Move the top alt-stack item back to the main stack."),
    (0x6D, "Remove the top two stack items."),
    (0x6E, "Duplicate the top two stack items."),
    (0x6F, "Duplicate the top three stack items."),
    (0x70, "Copy the second pair of items to the top."),
    (0x71, "Move the third pair of items to the top."),
    (0x72, "Swap the top two pairs of items."),
    (0x73, "Duplicate the top stack item if it is non-zero."),
    (0x74, "Push the current stack depth (number of items)."),
    (0x75, "Remove the top stack item."),
    (0x76, "Duplicate the top stack item."),
    (0x77, "Remove the second-from-top stack item."),
    (0x78, "Copy the second-from-top item to the top."),
    (0x79, "Copy the item n-deep (n taken from the top) to the top."),
    (0x7A, "Move the item n-deep (n taken from the top) to the top."),
    (0x7B, "Rotate the top three items (third item moves to the top)."),
    (0x7C, "Swap the top two items."),
    (0x7D, "Copy the top item and insert it below the second item."),
    (0x7E, "Disabled: concatenate two byte vectors."),
    (0x7F, "Disabled: extract a substring."),
    (0x80, "Disabled: keep the left part of a string."),
    (0x81, "Disabled: keep the right part of a string."),
    (0x82, "Push the byte length of the top item (without removing it)."),
    (0x83, "Disabled: bitwise NOT."),
    (0x84, "Disabled: bitwise AND."),
    (0x85, "Disabled: bitwise OR."),
    (0x86, "Disabled: bitwise XOR."),
    (0x87, "Push true if the top two items are equal, else false."),
    (0x88, "Fail the script unless the top two items are equal."),
    (0x89, "Reserved; makes the script invalid if executed."),
    (0x8A, "Reserved; makes the script invalid if executed."),
    (0x8B, "Add 1 to the top number."),
    (0x8C, "Subtract 1 from the top number."),
    (0x8D, "Disabled: multiply the top number by 2."),
    (0x8E, "Disabled: divide the top number by 2."),
    (0x8F, "Negate the top number."),
    (0x90, "Replace the top number with its absolute value."),
    (0x91, "Push true if the top number is 0, else false."),
    (0x92, "Push true if the top number is not 0, else false."),
    (0x93, "Add the top two numbers."),
    (0x94, "Subtract the top number from the second-from-top number."),
    (0x95, "Disabled: multiply the top two numbers."),
    (0x96, "Disabled: divide the second number by the top."),
    (0x97, "Disabled: remainder of the division."),
    (0x98, "Disabled: left bit-shift."),
    (0x99, "Disabled: right bit-shift."),
    (0x9A, "Push true if both numbers are non-zero."),
    (0x9B, "Push true if either number is non-zero."),
    (0x9C, "Push true if the two numbers are equal."),
    (0x9D, "Fail the script unless the two numbers are equal."),
    (0x9E, "Push true if the two numbers are not equal."),
    (0x9F, "Push true if the second number is less than the top."),
    (0xA0, "Push true if the second number is greater than the top."),
    (0xA1, "Push true if the second number is less than or equal to the top."),
    (0xA2, "Push true if the second number is greater than or equal to the top."),
    (0xA3, "Push the smaller of the top two numbers."),
    (0xA4, "Push the larger of the top two numbers."),
    (0xA5, "Push true if x is within the range [min, max)."),
    (0xA6, "Replace the top item with its RIPEMD-160 hash."),
    (0xA7, "Replace the top item with its SHA-1 hash."),
    (0xA8, "Replace the top item with its SHA-256 hash."),
    (0xA9, "Replace the top item with RIPEMD160(SHA256(item))."),
    (0xAA, "Replace the top item with SHA256(SHA256(item))."),
    (0xAB, "Mark where signing of the script starts (for later signatures)."),
    (0xAC, "Check a signature against a pubkey; push true or false."),
    (0xAD, "Check a signature against a pubkey; fail the script if invalid."),
    (0xAE, "Check M-of-N signatures against N pubkeys; push true or false."),
    (0xAF, "Check M-of-N signatures; fail the script if invalid."),
    (0xB0, "Do nothing (reserved for future soft-fork upgrades)."),
    (0xB1, "Fail unless the tx locktime is at/after the top value (BIP65)."),
    (0xB2, "Fail unless the input's relative locktime is satisfied (BIP112)."),
    (0xB3, "Do nothing (reserved for future soft-fork upgrades)."),
    (0xB4, "Do nothing (reserved for future soft-fork upgrades)."),
    (0xB5, "Do nothing (reserved for future soft-fork upgrades)."),
    (0xB6, "Do nothing (reserved for future soft-fork upgrades)."),
    (0xB7, "Do nothing (reserved for future soft-fork upgrades)."),
    (0xB8, "Do nothing (reserved for future soft-fork upgrades)."),
    (0xB9, "Do nothing (reserved for future soft-fork upgrades)."),
    (0xBA, "Tapscript: add 1 to a counter if the signature is valid (BIP342)."),
    (0xFF, "Invalid opcode; always fails the script.")]

/-- `opcode_description`; empty for an opcode with no known description. -/
def opcodeDescription (opcode : Nat) : String :=
  if opcode = 0x00 then "Push an empty byte vector (represents false / zero)."
  else if 0x01 ≤ opcode ∧ opcode ≤ 0x4B then
    "Push the next " ++ toString opcode ++ " bytes onto the stack."
  else if opcode = 0x4C then "Push bytes counted by the next 1-byte length."
  else if opcode = 0x4D then "Push bytes counted by the next 2-byte little-endian length."
  else if opcode = 0x4E then "Push bytes counted by the next 4-byte little-endian length."
  else if 0x51 ≤ opcode ∧ opcode ≤ 0x60 then "Push the number " ++ toString (opcode - 0x50) ++ "."
  else (opcodeDescriptions.lookup opcode).getD ""

/-- A description is one line. -/
theorem free_opcodeDescription (op : Nat) : Free '\n' (opcodeDescription op) := by
  have htable : ∀ row ∈ opcodeDescriptions, 0x0A ∉ bytes row.2 := by decide +kernel
  unfold opcodeDescription
  repeat' split
  · exact free_newline (by decide +kernel)
  · rw [free_append, free_append]
    exact ⟨⟨free_newline (by decide +kernel), free_toString (by decide) op⟩,
      free_newline (by decide +kernel)⟩
  · exact free_newline (by decide +kernel)
  · exact free_newline (by decide +kernel)
  · exact free_newline (by decide +kernel)
  · rw [free_append, free_append]
    exact ⟨⟨free_newline (by decide +kernel), free_toString (by decide) _⟩,
      free_newline (by decide +kernel)⟩
  · cases hrow : opcodeDescriptions.lookup op with
    | none => exact free_empty _
    | some note =>
      obtain ⟨l₁, l₂, hl, -⟩ := List.lookup_eq_some_iff.mp hrow
      exact free_newline (htable (op, note) (by rw [hl]; simp))

end PyBitcoinKernel.Script
