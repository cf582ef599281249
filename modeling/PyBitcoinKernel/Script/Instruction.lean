import PyBitcoinKernel.Lib.Codec
import PyBitcoinKernel.Lib.LittleEndian

/-!
# Script instructions: the encoding and its reference decoder

What Bitcoin means by the instructions of a script, independent of the
debugger's loop: an opcode byte, and for a push the payload it announces,
either by the opcode itself (`0x01..0x4b`) or by a 1-, 2- or 4-byte
little-endian length field (`OP_PUSHDATA1/2/4`). An `Instr` carries, as a
field, that its opcode can announce its payload, so an instruction with no
encoding cannot be built; `readInstr` is the reference decoder, which fails when
a length field or a payload runs past the end.

`instrCodec` packs the two as a `Codec`, so cutting a script into instructions
is unique (`Codec.decodeAll_eq_iff`), and `readInstr_none_cases` says what a
script the decoder is stuck on looks like: empty, or a push that is truncated
in its length field or in its payload.
-/

namespace PyBitcoinKernel.Script

open LittleEndian (fromLE toLE fromLE_toLE toLE_fromLE toLE_length fromLE_lt)

/-- A script, or any other Python `bytes` value. -/
abbrev Bytes := List UInt8

/-- The length field of `OP_PUSHDATA1`, `OP_PUSHDATA2` and `OP_PUSHDATA4`. -/
inductive LenField where
  | one
  | two
  | four
  deriving DecidableEq, Repr

/-- Bytes of the length field. -/
def LenField.width : LenField → Nat
  | .one => 1
  | .two => 2
  | .four => 4

/-- The opcode that announces the length field. -/
def LenField.opcode : LenField → UInt8
  | .one => 0x4C
  | .two => 0x4D
  | .four => 0x4E

/-- The length field an opcode announces, if any. -/
def lenField? (op : UInt8) : Option LenField :=
  if op.toNat = 0x4C then some .one
  else if op.toNat = 0x4D then some .two
  else if op.toNat = 0x4E then some .four
  else none

theorem lenField?_opcode (f : LenField) : lenField? f.opcode = some f := by
  cases f <;> rfl

theorem eq_opcode_of_lenField? {op : UInt8} {f : LenField} (h : lenField? op = some f) :
    op = f.opcode := by
  apply UInt8.toNat_inj.mp
  unfold lenField? at h
  split at h
  · cases h; assumption
  · split at h
    · cases h; assumption
    · split at h
      · cases h; assumption
      · exact absurd h (by simp)

/-- A direct push opcode: its value is the payload length. -/
def IsDirect (op : UInt8) : Prop := 0x01 ≤ op.toNat ∧ op.toNat ≤ 0x4B

instance (op : UInt8) : Decidable (IsDirect op) := inferInstanceAs (Decidable (_ ∧ _))

theorem not_isDirect_opcode (f : LenField) : ¬ IsDirect f.opcode := by
  cases f <;> decide

/-- The two ways to announce a payload exclude each other. -/
theorem lenField?_of_isDirect {op : UInt8} (h : IsDirect op) : lenField? op = none := by
  cases hf : lenField? op with
  | none => rfl
  | some f =>
    rw [eq_opcode_of_lenField? hf] at h
    exact absurd h (not_isDirect_opcode f)

/-- The payloads an opcode can announce: exactly `op` bytes for a direct push,
whatever fits the length field for an `OP_PUSHDATA`, nothing otherwise. -/
def Announces (op : UInt8) (payload : Bytes) : Prop :=
  if IsDirect op then payload.length = op.toNat
  else match lenField? op with
    | some f => payload.length < 256 ^ f.width
    | none => payload = []

/-- One script instruction. -/
structure Instr where
  opcode : UInt8
  payload : Bytes
  announces : Announces opcode payload

/-- What stands between the opcode byte and a payload of `n` bytes. -/
def lenBytes (op : UInt8) (n : Nat) : Bytes :=
  match lenField? op with
  | some f => toLE f.width n
  | none => []

/-- The bytes of an instruction. -/
def Instr.encode (i : Instr) : Bytes :=
  i.opcode :: (lenBytes i.opcode i.payload.length ++ i.payload)

/-! ## The reference decoder -/

/-- How many payload bytes `op` announces, and where they start. Fails when the
length field runs past the end. -/
def readLength (op : UInt8) (t : Bytes) : Option (Nat × Bytes) :=
  if IsDirect op then some (op.toNat, t)
  else match lenField? op with
    | some f =>
      if f.width ≤ t.length then some (fromLE (t.take f.width), t.drop f.width) else none
    | none => some (0, t)

theorem readLength_direct {op : UInt8} (hd : IsDirect op) (t : Bytes) :
    readLength op t = some (op.toNat, t) := by
  rw [readLength, if_pos hd]

theorem readLength_field {op : UInt8} {f : LenField} (hf : lenField? op = some f) (t : Bytes) :
    readLength op t
      = if f.width ≤ t.length then some (fromLE (t.take f.width), t.drop f.width) else none := by
  have hd : ¬ IsDirect op := by
    rw [eq_opcode_of_lenField? hf]
    exact not_isDirect_opcode f
  rw [readLength, if_neg hd, hf]

theorem readLength_plain {op : UInt8} (hd : ¬ IsDirect op) (hf : lenField? op = none)
    (t : Bytes) : readLength op t = some (0, t) := by
  rw [readLength, if_neg hd, hf]

/-- A length that was read announces any payload of that many bytes. -/
theorem announces_of_readLength {op : UInt8} {t t' p : Bytes} {n : Nat}
    (h : readLength op t = some (n, t')) (hp : p.length = n) : Announces op p := by
  unfold Announces
  split
  next hd =>
    rw [readLength_direct hd] at h
    simp only [Option.some.injEq, Prod.mk.injEq] at h
    rw [hp, ← h.1]
  next hd =>
    split
    next f hf =>
      rw [readLength_field hf] at h
      split at h
      next hw =>
        simp only [Option.some.injEq, Prod.mk.injEq] at h
        have hlt := fromLE_lt (t.take f.width)
        rw [List.length_take_of_le hw] at hlt
        rw [hp, ← h.1]
        exact hlt
      next => exact absurd h (by simp)
    next hf =>
      rw [readLength_plain hd hf] at h
      simp only [Option.some.injEq, Prod.mk.injEq] at h
      exact List.length_eq_zero_iff.mp (hp.trans h.1.symm)

/-- Reading a length splits the script behind the opcode after its length field. -/
theorem eq_of_readLength {op : UInt8} {t t' : Bytes} {n : Nat}
    (h : readLength op t = some (n, t')) : t = lenBytes op n ++ t' := by
  unfold lenBytes
  split
  next f hf =>
    rw [readLength_field hf] at h
    split at h
    next hw =>
      simp only [Option.some.injEq, Prod.mk.injEq] at h
      have hle := toLE_fromLE (t.take f.width)
      rw [List.length_take_of_le hw, h.1] at hle
      rw [hle, ← h.2, List.take_append_drop]
    next => exact absurd h (by simp)
  next hf =>
    by_cases hd : IsDirect op
    · rw [readLength_direct hd] at h
      simp only [Option.some.injEq, Prod.mk.injEq] at h
      rw [h.2]
      rfl
    · rw [readLength_plain hd hf] at h
      simp only [Option.some.injEq, Prod.mk.injEq] at h
      rw [h.2]
      rfl

/-- An encoded length is read back, and the payload is what follows. -/
theorem readLength_encode (i : Instr) (s : Bytes) :
    readLength i.opcode (lenBytes i.opcode i.payload.length ++ s)
      = some (i.payload.length, s) := by
  have ha := i.announces
  unfold Announces at ha
  by_cases hd : IsDirect i.opcode
  · rw [if_pos hd] at ha
    rw [readLength_direct hd, lenBytes, lenField?_of_isDirect hd, ha]
    rfl
  · rw [if_neg hd] at ha
    cases hf : lenField? i.opcode with
    | some f =>
      rw [hf] at ha
      have hlen := toLE_length f.width i.payload.length
      rw [readLength_field hf, lenBytes, hf]
      dsimp only
      rw [List.take_left' hlen, List.drop_left' hlen, fromLE_toLE ha,
        if_pos (by rw [List.length_append, hlen]; omega)]
    | none =>
      rw [hf] at ha
      dsimp only at ha
      rw [readLength_plain hd hf, lenBytes, hf, ha]
      rfl

/-- One instruction off the front of a script; fails when a length field or a
payload runs past the end. -/
def readInstr : Bytes → Option (Instr × Bytes)
  | [] => none
  | op :: t =>
    match hr : readLength op t with
    | none => none
    | some (n, t') =>
      if hn : n ≤ t'.length then
        some (⟨op, t'.take n, announces_of_readLength hr (List.length_take_of_le hn)⟩, t'.drop n)
      else none

theorem readInstr_encode (i : Instr) (t : Bytes) : readInstr (i.encode ++ t) = some (i, t) := by
  have hlen := readLength_encode i (i.payload ++ t)
  rw [Instr.encode, List.cons_append, List.append_assoc, readInstr]
  split
  next hr => rw [hr] at hlen; exact absurd hlen (by simp)
  next n t' hr =>
    rw [hr] at hlen
    simp only [Option.some.injEq, Prod.mk.injEq] at hlen
    obtain ⟨rfl, rfl⟩ := hlen
    rw [dif_pos (by rw [List.length_append]; omega)]
    simp only [List.take_left, List.drop_left]

theorem encode_of_readInstr {s t : Bytes} {i : Instr} (h : readInstr s = some (i, t)) :
    s = i.encode ++ t := by
  cases s with
  | nil => exact absurd h (by simp [readInstr])
  | cons op s =>
    rw [readInstr] at h
    split at h
    next => exact absurd h (by simp)
    next n t' hr =>
      split at h
      next hn =>
        simp only [Option.some.injEq, Prod.mk.injEq] at h
        obtain ⟨rfl, rfl⟩ := h
        have hs := eq_of_readLength hr
        show op :: s = (op :: (lenBytes op (t'.take n).length ++ t'.take n)) ++ t'.drop n
        rw [List.length_take_of_le hn, List.cons_append, List.append_assoc,
          List.take_append_drop, ← hs]
      next => exact absurd h (by simp)

/-- Script instructions as a self-delimiting code. -/
def instrCodec : Codec UInt8 Instr where
  enc := Instr.encode
  dec := readInstr
  dec_enc := readInstr_encode
  enc_dec := encode_of_readInstr
  enc_ne_nil _ := List.cons_ne_nil _ _

/-- The bytes of a list of instructions. -/
abbrev encodeScript (is : List Instr) : Bytes := instrCodec.encodeAll is

/-- The instructions of a script, and what is left where the decoder fails. -/
abbrev decodeScript (s : Bytes) : List Instr × Bytes := instrCodec.decodeAll s

/-- Where the reference decoder is stuck: at the end of the script, inside a
length field, or inside a payload. -/
theorem readInstr_none_cases {r : Bytes} (h : readInstr r = none) :
    r = [] ∨
    (∃ f : LenField, ∃ t, r = f.opcode :: t ∧ t.length < f.width) ∨
    (∃ op t n t', r = op :: t ∧ readLength op t = some (n, t') ∧ t'.length < n) := by
  cases r with
  | nil => exact Or.inl rfl
  | cons op t =>
    right
    rw [readInstr] at h
    split at h
    next hr =>
      left
      by_cases hd : IsDirect op
      · rw [readLength_direct hd] at hr
        exact absurd hr (by simp)
      · cases hf : lenField? op with
        | none =>
          rw [readLength_plain hd hf] at hr
          exact absurd hr (by simp)
        | some f =>
          rw [readLength_field hf] at hr
          split at hr
          next => exact absurd hr (by simp)
          next hw => exact ⟨f, t, by rw [eq_opcode_of_lenField? hf], Nat.lt_of_not_le hw⟩
    next n t' hr =>
      right
      split at h
      next => exact absurd h (by simp)
      next hn => exact ⟨op, t, n, t', rfl, hr, Nat.lt_of_not_le hn⟩

end PyBitcoinKernel.Script
