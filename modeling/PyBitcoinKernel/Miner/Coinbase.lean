import PyBitcoinKernel.Miner.Transaction

/-!
# Coinbase transactions

A coinbase names the height of its block at the start of its only script. What a script
instruction pushes as a number is `pushedNumber`; the heights up to 16 have opcodes of
their own, and a larger one is pushed in the fewest bytes that leave room for a sign bit.

> `bip34HeightPush_spec`: what is pushed reads back as the height, and every other
> instruction that pushes this number is longer.

The length of the data is the opcode that pushes it, which it can be for up to 75 bytes,
that is, below height `128 * 256 ^ 74`. Height 0 raises `IndexError`: there is no last byte to
look at. At a negative height the loop does not end, since shifting leads to -1 and never
to 0; the loop is followed for a number of rounds (`heightLoopWithin`) to say so, and as it
is (`heightLoop`) where it ends.
-/

namespace PyBitcoinKernel.Miner

open PyBitcoinKernel.Script (Bytes Instr IsDirect lenField? lenField?_of_isDirect lenBytes readInstr
  readInstr_encode Announces)
open LittleEndian (fromLE fromLE_append fromLE_singleton fromLE_lt fromSignMagnitude Shortest
  fromSignMagnitude_of_lt and_0x80_eq_zero_iff)

/-! ## The code -/

def COIN : Int := 100000000

def SUBSIDY : Int := 50 * COIN

def OP_TRUE_SCRIPT : Bytes := [0x51]

/-- `while n: data += bytes([n & 0xFF]); n >>= 8`, for this many rounds at most. -/
def heightLoopWithin (rounds : Nat) (n : Int) (data : Bytes) : Option Bytes :=
  if n = 0 then some data
  else
    match rounds with
    | 0 => none
    | rounds + 1 => heightLoopWithin rounds (n >>> (8 : Nat)) (data ++ [UInt8.ofInt n])

/-- What is done with the bytes of the height. -/
def pushData (data : Bytes) : MinerResult Bytes :=
  match data.getLast? with
  | none => .error .indexError
  | some top =>
    let data := if top &&& 0x80 ≠ 0 then data ++ [0x00] else data
    -- `bytes([len(data)])` takes numbers of one byte only.
    if data.length < 256 then .ok (UInt8.ofNat data.length :: data) else .error .valueError

/-- `bip34_height_push`, with so many rounds of its loop. -/
def bip34HeightPushWithin (rounds : Nat) (height : Int) : Option (MinerResult Bytes) :=
  if 1 ≤ height ∧ height ≤ 16 then some (.ok [UInt8.ofInt (0x50 + height)])
  else (heightLoopWithin rounds height []).map pushData

/-- The loop on a number that is not negative. -/
def heightLoop (n : Nat) (data : Bytes) : Bytes :=
  if n = 0 then data else heightLoop (n >>> 8) (data ++ [UInt8.ofNat (n &&& 0xFF)])
  termination_by n
  decreasing_by
    rw [Nat.shiftRight_eq_div_pow]
    omega

/-- `bip34_height_push` of a height that is not negative, with as many rounds as it takes
(`bip34HeightPushWithin_eq_iff`). -/
def bip34HeightPush (height : Nat) : MinerResult Bytes :=
  if 1 ≤ height ∧ height ≤ 16 then .ok [UInt8.ofNat (0x50 + height)]
  else pushData (heightLoop height [])

def makeCoinbase (height : Nat) (amount : Int) : MinerResult Bytes := do
  let push ← bip34HeightPush height
  let scriptSig := push ++ [0x00]
  serTx [⟨List.replicate 32 0x00, 0xFFFFFFFF, scriptSig⟩] [⟨amount, OP_TRUE_SCRIPT⟩] 1 0

/-- The inputs of a coinbase whose script starts with this push. -/
def coinbaseInputs (push : Bytes) : List TxInput :=
  [⟨List.replicate 32 0x00, 0xFFFFFFFF, push ++ [0x00]⟩]

theorem makeCoinbase_eq (height : Nat) (amount : Int) : makeCoinbase height amount =
    (bip34HeightPush height).bind fun push =>
      serTx (coinbaseInputs push) [⟨amount, OP_TRUE_SCRIPT⟩] 1 0 := rfl

theorem null_txid {push : Bytes} : ∀ i ∈ coinbaseInputs push, i.prevoutTxid.length = 32 :=
  List.forall_mem_singleton.mpr List.length_replicate

/-! ## What an instruction pushes -/

/-- The number an instruction pushes: that of `OP_1NEGATE` or `OP_1` to `OP_16`, or what
its payload denotes. -/
def pushedNumber (i : Instr) : Option Int :=
  if i.opcode = 0x4F then some (-1)
  else if 0x51 ≤ i.opcode.toNat ∧ i.opcode.toNat ≤ 0x60 then some ((i.opcode.toNat : Int) - 0x50)
  else if i.opcode.toNat ≤ 0x4E then some (fromSignMagnitude i.payload)
  else none

theorem pushedNumber_small {i : Instr} (h : 0x51 ≤ i.opcode.toNat ∧ i.opcode.toNat ≤ 0x60) :
    pushedNumber i = some ((i.opcode.toNat : Int) - 0x50) := by
  have h4F : ¬ i.opcode = 0x4F := by
    rw [← UInt8.toNat_inj]
    show ¬ i.opcode.toNat = 79
    omega
  rw [pushedNumber, if_neg h4F, if_pos h]

theorem pushedNumber_data {i : Instr} (h : i.opcode.toNat ≤ 0x4E) :
    pushedNumber i = some (fromSignMagnitude i.payload) := by
  have h4F : ¬ i.opcode = 0x4F := by
    rw [← UInt8.toNat_inj]
    show ¬ i.opcode.toNat = 79
    omega
  rw [pushedNumber, if_neg h4F, if_neg (by omega), if_pos h]

/-- The instruction pushes the number, and every other one that does is longer. -/
structure ShortestPush (n : Int) (i : Instr) : Prop where
  pushes : pushedNumber i = some n
  shortest : ∀ j : Instr, pushedNumber j = some n → j = i ∨ i.encode.length < j.encode.length

theorem Instr.ext' {i j : Instr} (hop : i.opcode = j.opcode) (hp : i.payload = j.payload) :
    i = j := by
  obtain ⟨op, p, _⟩ := i
  obtain ⟨op', p', _⟩ := j
  cases hop
  cases hp
  rfl

theorem length_encode (i : Instr) :
    i.encode.length = 1 + (lenBytes i.opcode i.payload.length).length + i.payload.length := by
  rw [Instr.encode, List.length_cons, List.length_append]
  omega

/-- Opcodes other than pushes of data have no payload. -/
theorem payload_eq_nil {i : Instr} (h : 0x4F ≤ i.opcode.toNat) : i.payload = [] := by
  have ha := i.announces
  have hdirect : ¬ IsDirect i.opcode := by
    rintro ⟨-, hle⟩
    omega
  have hfield : lenField? i.opcode = none := by
    unfold lenField?
    rw [if_neg (by omega), if_neg (by omega), if_neg (by omega)]
  unfold Announces at ha
  rw [if_neg hdirect, hfield] at ha
  exact ha

/-- `OP_1` to `OP_16`. -/
def smallPush (n : Nat) (h : 1 ≤ n ∧ n ≤ 16) : Instr where
  opcode := UInt8.ofNat (0x50 + n)
  payload := []
  announces := by
    have hval : (UInt8.ofNat (0x50 + n)).toNat = 0x50 + n := by
      rw [UInt8.toNat_ofNat']
      omega
    have hdirect : ¬ IsDirect (UInt8.ofNat (0x50 + n)) := by
      rintro ⟨-, hle⟩
      omega
    have hfield : lenField? (UInt8.ofNat (0x50 + n)) = none := by
      unfold lenField?
      rw [if_neg (by omega), if_neg (by omega), if_neg (by omega)]
    unfold Announces
    rw [if_neg hdirect, hfield]

theorem opcode_smallPush {n : Nat} (h : 1 ≤ n ∧ n ≤ 16) :
    (smallPush n h).opcode.toNat = 0x50 + n := by
  show (UInt8.ofNat (0x50 + n)).toNat = 0x50 + n
  rw [UInt8.toNat_ofNat']
  omega

/-- A push of up to 75 bytes. -/
def dataPush (data : Bytes) (h : 1 ≤ data.length ∧ data.length ≤ 75) : Instr where
  opcode := UInt8.ofNat data.length
  payload := data
  announces := by
    have hval : (UInt8.ofNat data.length).toNat = data.length := by
      rw [UInt8.toNat_ofNat']
      omega
    unfold Announces
    rw [if_pos ⟨by omega, by omega⟩, hval]

theorem opcode_dataPush {data : Bytes} (h : 1 ≤ data.length ∧ data.length ≤ 75) :
    (dataPush data h).opcode.toNat = data.length := by
  show (UInt8.ofNat data.length).toNat = data.length
  rw [UInt8.toNat_ofNat']
  omega

theorem encode_dataPush {data : Bytes} (h : 1 ≤ data.length ∧ data.length ≤ 75) :
    (dataPush data h).encode = UInt8.ofNat data.length :: data := by
  have hval := opcode_dataPush h
  have hdirect : IsDirect (dataPush data h).opcode := ⟨by omega, by omega⟩
  show UInt8.ofNat data.length :: (lenBytes (UInt8.ofNat data.length) data.length ++ data) = _
  have hfield : lenField? (UInt8.ofNat data.length) = none := lenField?_of_isDirect hdirect
  rw [lenBytes, hfield]
  rfl

theorem encode_smallPush {n : Nat} (h : 1 ≤ n ∧ n ≤ 16) :
    (smallPush n h).encode = [UInt8.ofNat (0x50 + n)] := by
  have hval : (UInt8.ofNat (0x50 + n)).toNat = 0x50 + n := opcode_smallPush h
  have hfield : lenField? (UInt8.ofNat (0x50 + n)) = none := by
    unfold lenField?
    rw [if_neg (by omega), if_neg (by omega), if_neg (by omega)]
  show UInt8.ofNat (0x50 + n) :: (lenBytes (UInt8.ofNat (0x50 + n)) 0 ++ []) = _
  rw [lenBytes, hfield]
  rfl

/-- A number above 16 is pushed as data. -/
theorem payload_of_pushedNumber {i : Instr} {n : Nat} (hn : 16 < n)
    (h : pushedNumber i = some (n : Int)) :
    fromSignMagnitude i.payload = n := by
  unfold pushedNumber at h
  split at h
  next =>
    rw [Option.some.injEq] at h
    omega
  next =>
    split at h
    next =>
      rw [Option.some.injEq] at h
      omega
    next =>
      split at h
      next => exact Option.some.inj h
      next => cases h

theorem length_of_isDirect {i : Instr} (h : IsDirect i.opcode) :
    i.payload.length = i.opcode.toNat := by
  have ha := i.announces
  unfold Announces at ha
  rw [if_pos h] at ha
  exact ha

/-- A push has its length in the opcode or in a length field. -/
theorem isDirect_or_lenBytes {i : Instr} (hne : i.payload ≠ []) :
    IsDirect i.opcode ∨ 0 < (lenBytes i.opcode i.payload.length).length := by
  by_cases hdirect : IsDirect i.opcode
  · exact Or.inl hdirect
  · right
    cases hf : lenField? i.opcode with
    | some f =>
      rw [lenBytes, hf]
      dsimp only
      rw [LittleEndian.toLE_length]
      cases f <;> decide
    | none =>
      have ha := i.announces
      unfold Announces at ha
      rw [if_neg hdirect, hf] at ha
      exact absurd ha hne

/-- Data that denotes a positive number is not empty. -/
theorem payload_ne_nil {i : Instr} {n : Nat} (hn : 0 < n) (h : fromSignMagnitude i.payload = n) :
    i.payload ≠ [] := by
  intro hnil
  rw [hnil] at h
  have hzero : (0 : Int) = n := h
  omega

/-- **The shortest data makes the shortest push.** -/
theorem shortestPush_dataPush {n : Nat} (hn : 16 < n) {data : Bytes} (hs : Shortest n data)
    (h : 1 ≤ data.length ∧ data.length ≤ 75) : ShortestPush n (dataPush data h) := by
  have hval := opcode_dataPush h
  constructor
  · rw [pushedNumber_data (by omega)]
    exact congrArg some hs.value
  · intro j hj
    have hvalue := payload_of_pushedNumber hn hj
    have hlen := length_encode j
    rw [encode_dataPush, List.length_cons]
    rcases hs.le hvalue with hlt | heq
    · right
      omega
    · rcases isDirect_or_lenBytes (payload_ne_nil (by omega) hvalue) with hdirect | hpos
      · left
        refine Instr.ext' ?_ heq.symm
        rw [← UInt8.toNat_inj, hval, ← length_of_isDirect hdirect, heq]
      · right
        rw [← heq] at hlen hpos
        omega

/-- An opcode of its own is shorter than any data. -/
theorem shortestPush_smallPush {n : Nat} (h : 1 ≤ n ∧ n ≤ 16) :
    ShortestPush n (smallPush n h) := by
  have hval := opcode_smallPush h
  constructor
  · rw [pushedNumber_small ⟨by omega, by omega⟩, hval]
    exact congrArg some (by omega)
  · intro j hj
    have hlen := length_encode j
    rw [encode_smallPush, List.length_singleton]
    unfold pushedNumber at hj
    split at hj
    next =>
      rw [Option.some.injEq] at hj
      omega
    next =>
      split at hj
      next hop =>
        rw [Option.some.injEq] at hj
        left
        refine Instr.ext' ?_ (payload_eq_nil (by omega))
        rw [← UInt8.toNat_inj, hval]
        omega
      next =>
        split at hj
        next =>
          right
          have hpos := List.length_pos_iff.mpr (payload_ne_nil (by omega) (Option.some.inj hj))
          omega
        next => cases hj

/-! ## The height -/

/-- The bytes of a number: what it denotes, and that the last one is needed. -/
structure BytesOf (n : Nat) (bs : Bytes) : Prop where
  value : fromLE bs = n
  last : ∀ t, bs.getLast? = some t → t ≠ 0

theorem heightLoop_spec (n : Nat) :
    ∀ data, ∃ bs, heightLoop n data = data ++ bs ∧ BytesOf n bs := by
  induction n using Nat.strong_induction_on with
  | _ n ih =>
    intro data
    rw [heightLoop]
    split
    next h0 =>
      exact ⟨[], (List.append_nil _).symm, ⟨h0.symm, fun t ht => by cases ht⟩⟩
    next h0 =>
      have hshift : n >>> 8 = n / 256 := Nat.shiftRight_eq_div_pow n 8
      have hand : n &&& 0xFF = n % 256 := Nat.and_two_pow_sub_one_eq_mod n 8
      obtain ⟨bs, hbs, hvalue, hlast⟩ := ih (n / 256) (by omega) (data ++ [UInt8.ofNat (n % 256)])
      have hbyte : (UInt8.ofNat (n % 256)).toNat = n % 256 := by
        rw [UInt8.toNat_ofNat']
        omega
      rw [hshift, hand, hbs]
      refine ⟨UInt8.ofNat (n % 256) :: bs, by rw [List.append_assoc]; rfl, ⟨?_, ?_⟩⟩
      · rw [LittleEndian.fromLE_cons, hvalue, hbyte]
        omega
      · intro t ht
        cases bs with
        | nil =>
          -- The last byte is the only one: the number is below 256, and not 0.
          have hdiv : n / 256 = 0 := hvalue.symm
          obtain rfl : UInt8.ofNat (n % 256) = t := Option.some.inj ht
          intro hzero
          rw [hzero] at hbyte
          have : (0 : Nat) = n % 256 := hbyte
          omega
        | cons b bs => exact hlast t ht

theorem heightLoop_nil (n : Nat) : BytesOf n (heightLoop n []) := by
  obtain ⟨bs, hbs, h⟩ := heightLoop_spec n []
  rw [hbs]
  exact h

/-- **The data of a height is its shortest form**: a zero byte is appended where the last
byte would have the sign bit set. -/
theorem shortest_of_bytesOf {n : Nat} (hn : 0 < n) {bs : Bytes} {t : UInt8}
    (h : BytesOf n (bs ++ [t])) :
    Shortest n (if t &&& 0x80 ≠ 0 then bs ++ [t] ++ [0x00] else bs ++ [t]) := by
  have ht : t ≠ 0 := h.last t (by simp)
  have htpos : 0 < t.toNat := by
    refine Nat.pos_of_ne_zero fun h0 => ht ?_
    exact UInt8.toNat_inj.mp h0
  have hvalue := h.value
  rw [fromLE_append, fromLE_singleton] at hvalue
  have hpow := Nat.pow_pos (n := bs.length) (show 0 < 256 by decide)
  by_cases hsign : t &&& 0x80 = 0
  · rw [if_neg (not_not_intro hsign)]
    have htop := (and_0x80_eq_zero_iff t).mp hsign
    refine ⟨hn, by rw [fromSignMagnitude_of_lt htop, h.value], ?_⟩
    rw [List.length_append, List.length_singleton]
    intro hlen
    obtain ⟨k, hk⟩ : ∃ k, bs.length = k + 1 := ⟨bs.length - 1, by omega⟩
    have hsub : bs.length + 1 - 2 = k := by omega
    have hmul := Nat.mul_le_mul_left (256 ^ bs.length) (Nat.succ_le_of_lt htpos)
    rw [hsub]
    rw [hk, Nat.pow_succ] at hmul hvalue
    omega
  · rw [if_pos hsign]
    have htop : ¬ t.toNat < 128 := fun hno => hsign ((and_0x80_eq_zero_iff t).mpr hno)
    have hzero : fromLE (bs ++ [t] ++ [0x00]) = n := by
      rw [fromLE_append (bs ++ [t]), fromLE_singleton, h.value]
      rfl
    refine ⟨hn, by rw [fromSignMagnitude_of_lt (by decide), hzero], ?_⟩
    intro _
    have hsub : (bs ++ [t] ++ [0x00]).length - 2 = bs.length := by simp
    have hmul := Nat.mul_le_mul_left (256 ^ bs.length) (Nat.le_of_not_lt htop)
    rw [hsub]
    omega

/-- What is pushed for a height above 16, before its length is looked at. -/
theorem exists_shortest {height : Nat} (h : 16 < height) :
    ∃ data, Shortest height data ∧ bip34HeightPush height =
      if data.length < 256 then .ok (UInt8.ofNat data.length :: data) else .error .valueError := by
  unfold bip34HeightPush
  rw [if_neg (by omega)]
  have hbytes := heightLoop_nil height
  rcases List.eq_nil_or_concat' (heightLoop height []) with hnil | ⟨bs, t, hbs⟩
  · rw [hnil] at hbytes
    have : (0 : Nat) = height := hbytes.value
    omega
  · rw [hbs] at hbytes ⊢
    unfold pushData
    rw [List.getLast?_concat]
    exact ⟨_, shortest_of_bytesOf (by omega) hbytes, rfl⟩

/-- 75 bytes have room for exactly these heights. -/
theorem length_le_iff {height : Nat} {data : Bytes} (hs : Shortest height data) :
    data.length ≤ 75 ↔ height < 128 * 256 ^ 74 := by
  obtain ⟨hlen, hroom, -⟩ := LittleEndian.lt_of_fromSignMagnitude hs.pos hs.value
  constructor
  · intro hle
    have hmono : 256 ^ (data.length - 1) ≤ 256 ^ 74 :=
      Nat.pow_le_pow_right (by decide) (by omega)
    omega
  · intro hlt
    refine Nat.le_of_not_lt fun hno => ?_
    have htight := hs.tight (by omega)
    have hmono : 256 ^ 74 ≤ 256 ^ (data.length - 2) :=
      Nat.pow_le_pow_right (by decide) (by omega)
    omega

/-- **The push of a height.** -/
theorem bip34HeightPush_spec {height : Nat} (hpos : 0 < height) (hlt : height < 128 * 256 ^ 74) :
    ∃ i : Instr, bip34HeightPush height = .ok i.encode ∧ ShortestPush height i ∧
      i.encode.length ≤ 76 := by
  by_cases hsmall : height ≤ 16
  · refine ⟨smallPush height ⟨hpos, hsmall⟩, ?_, shortestPush_smallPush ⟨hpos, hsmall⟩, ?_⟩
    · rw [encode_smallPush, bip34HeightPush, if_pos ⟨hpos, hsmall⟩]
    · rw [encode_smallPush, List.length_singleton]
      decide
  · obtain ⟨data, hs, heq⟩ := exists_shortest (Nat.lt_of_not_le hsmall)
    have hle := (length_le_iff hs).mpr hlt
    obtain ⟨hlen, -, -⟩ := LittleEndian.lt_of_fromSignMagnitude hs.pos hs.value
    refine ⟨dataPush data ⟨hlen, hle⟩, ?_, shortestPush_dataPush (by omega) hs ⟨hlen, hle⟩, ?_⟩
    · rw [encode_dataPush, heq, if_pos (by omega)]
    · rw [encode_dataPush, List.length_cons]
      omega

/-- There is no push of height 0. -/
theorem bip34HeightPush_zero : bip34HeightPush 0 = .error .indexError := by
  unfold bip34HeightPush
  rw [if_neg (by decide), heightLoop, if_pos rfl]
  rfl

/-- Which heights that are not negative are pushed. A push of more than 75 bytes would need
a length field of its own, which there is none of. -/
theorem bip34HeightPush_nat_iff (height : Nat) :
    (∃ i : Instr, bip34HeightPush height = .ok i.encode ∧ ShortestPush height i) ↔
      0 < height ∧ height < 128 * 256 ^ 74 := by
  constructor
  · rintro ⟨i, hpush, hi⟩
    have hpos : 0 < height := by
      refine Nat.pos_of_ne_zero ?_
      rintro rfl
      rw [bip34HeightPush_zero] at hpush
      cases hpush
    refine ⟨hpos, Nat.lt_of_not_le fun hge => ?_⟩
    obtain ⟨data, hs, heq⟩ := exists_shortest (show 16 < height by omega)
    have hlong : ¬ data.length ≤ 75 := fun hno =>
      Nat.not_le.mpr ((length_le_iff hs).mp hno) hge
    rw [heq] at hpush
    split at hpush
    next hbyte =>
      have henc := Except.ok.inj hpush
      have hvalue := payload_of_pushedNumber (by omega) hi.pushes
      rw [Instr.encode, List.cons.injEq] at henc
      obtain ⟨hop, hrest⟩ := henc
      have hop' : i.opcode.toNat = data.length := by
        rw [← hop, UInt8.toNat_ofNat']
        omega
      -- Such an opcode takes a length in front of the payload, which is then too short.
      have hlen := congrArg List.length hrest
      rw [List.length_append] at hlen
      rcases isDirect_or_lenBytes (payload_ne_nil hpos hvalue) with hdirect | hfield
      · exact absurd hdirect.2 (by omega)
      · rcases hs.le hvalue with hlt | heq'
        · omega
        · rw [← heq'] at hlen hfield
          omega
    next => cases hpush
  · rintro ⟨hpos, hlt⟩
    obtain ⟨i, hpush, hi, -⟩ := bip34HeightPush_spec hpos hlt
    exact ⟨i, hpush, hi⟩

/-! ### Any height -/

theorem ofInt_natCast (n : Nat) : UInt8.ofInt n = UInt8.ofNat (n &&& 0xFF) := by
  have hand : n &&& 0xFF = n % 256 := Nat.and_two_pow_sub_one_eq_mod n 8
  rw [hand]
  exact congrArg UInt8.ofNat (Int.toNat_natCast (n % 256))

/-- Within some rounds the loop is over, or there are too few. -/
theorem heightLoopWithin_natCast (rounds n : Nat) (data : Bytes) :
    heightLoopWithin rounds n data = none ∧ rounds < n ∨
      heightLoopWithin rounds n data = some (heightLoop n data) := by
  induction rounds generalizing n data with
  | zero =>
    rw [heightLoopWithin, heightLoop]
    by_cases h0 : n = 0
    · rw [if_pos (by omega), if_pos h0]
      exact Or.inr rfl
    · rw [if_neg (by omega)]
      exact Or.inl ⟨rfl, by omega⟩
  | succ rounds ih =>
    rw [heightLoopWithin, heightLoop]
    by_cases h0 : n = 0
    · rw [if_pos (by omega), if_pos h0]
      exact Or.inr rfl
    · have hshift : n >>> 8 = n / 256 := Nat.shiftRight_eq_div_pow n 8
      have hcast : (n : Int) >>> (8 : Nat) = (n >>> 8 : Nat) := rfl
      rw [if_neg (by omega), if_neg h0, hcast, ofInt_natCast]
      exact (ih _ _).imp_left fun h => ⟨h.1, by omega⟩

/-- A negative number stays negative. -/
theorem heightLoopWithin_neg : ∀ (rounds : Nat) {n : Int}, n < 0 → ∀ data : Bytes,
    heightLoopWithin rounds n data = none := by
  intro rounds
  induction rounds with
  | zero =>
    intro n hn data
    rw [heightLoopWithin, if_neg hn.ne]
  | succ rounds ih =>
    intro n hn data
    have hshift : n >>> (8 : Nat) = n / 256 := Int.shiftRight_eq_div_pow n 8
    rw [heightLoopWithin, if_neg hn.ne]
    exact ih (by omega) _

/-- So it is with the function, which is always over after as many rounds as the height. -/
theorem bip34HeightPushWithin_natCast (rounds n : Nat) :
    bip34HeightPushWithin rounds n = none ∧ rounds < n ∨
      bip34HeightPushWithin rounds n = some (bip34HeightPush n) := by
  unfold bip34HeightPushWithin bip34HeightPush
  by_cases hsmall : 1 ≤ n ∧ n ≤ 16
  · -- `OP_1` to `OP_16`: the loop is not run.
    have hbyte : UInt8.ofInt (0x50 + n) = UInt8.ofNat (0x50 + n) := by
      have hand : (0x50 + n) &&& 0xFF = (0x50 + n) % 256 := Nat.and_two_pow_sub_one_eq_mod _ 8
      refine (ofInt_natCast (0x50 + n)).trans (congrArg UInt8.ofNat ?_)
      omega
    rw [if_pos (by omega), if_pos hsmall, hbyte]
    exact Or.inr rfl
  · rw [if_neg (by omega), if_neg hsmall]
    rcases heightLoopWithin_natCast rounds n [] with ⟨hnone, hlt⟩ | hloop
    · rw [hnone]
      exact Or.inl ⟨rfl, hlt⟩
    · rw [hloop]
      exact Or.inr rfl

/-- **What any height does**: it returns if it is not negative, and then what `bip34HeightPush`
says. -/
theorem bip34HeightPushWithin_eq_iff {height : Int} {r : MinerResult Bytes} :
    (∃ rounds, bip34HeightPushWithin rounds height = some r) ↔
      ∃ n : Nat, height = n ∧ bip34HeightPush n = r := by
  rcases Int.lt_or_le height 0 with hneg | hnonneg
  · -- However many rounds there are, the loop is not over.
    refine iff_of_false ?_ (fun ⟨n, hn, _⟩ => by omega)
    rintro ⟨rounds, h⟩
    rw [bip34HeightPushWithin, if_neg (by omega), heightLoopWithin_neg rounds hneg] at h
    cases h
  obtain ⟨n, rfl⟩ := Int.eq_ofNat_of_zero_le hnonneg
  have hsome := fun rounds => bip34HeightPushWithin_natCast rounds n
  constructor
  · rintro ⟨rounds, h⟩
    rcases hsome rounds with ⟨hnone, -⟩ | hret
    · cases hnone.symm.trans h
    · exact ⟨n, rfl, Option.some.inj (hret.symm.trans h)⟩
  · rintro ⟨m, hm, rfl⟩
    obtain rfl : n = m := by omega
    exact ⟨n, (hsome n).resolve_left fun h => absurd h.2 (Nat.lt_irrefl n)⟩

/-- **Which heights are pushed**: from 1 on, those of which 75 bytes can hold the number and
its sign. Only at a negative height does the call not end. -/
theorem bip34HeightPush_iff (height : Int) :
    ((∃ (rounds : Nat) (i : Instr), bip34HeightPushWithin rounds height = some (.ok i.encode) ∧
      ShortestPush height i) ↔ 0 < height ∧ height < 128 * 256 ^ 74) ∧
    ((∃ (rounds : Nat) (r : MinerResult Bytes),
      bip34HeightPushWithin rounds height = some r) ↔ 0 ≤ height) := by
  constructor
  · rw [exists_comm]
    simp only [exists_and_right, bip34HeightPushWithin_eq_iff]
    constructor
    · rintro ⟨i, ⟨n, rfl, hpush⟩, hi⟩
      have hn := (bip34HeightPush_nat_iff n).mp ⟨i, hpush, hi⟩
      exact ⟨by omega, by omega⟩
    · rintro ⟨hpos, hlt⟩
      obtain ⟨n, rfl⟩ := Int.eq_ofNat_of_zero_le hpos.le
      obtain ⟨i, hpush, hi⟩ := (bip34HeightPush_nat_iff n).mpr ⟨by omega, by omega⟩
      exact ⟨i, ⟨n, rfl, hpush⟩, hi⟩
  · rw [exists_comm]
    simp only [bip34HeightPushWithin_eq_iff]
    constructor
    · rintro ⟨r, n, rfl, -⟩
      exact Int.natCast_nonneg n
    · intro hnonneg
      obtain ⟨n, rfl⟩ := Int.eq_ofNat_of_zero_le hnonneg
      exact ⟨_, n, rfl, rfl⟩

/-! ## The coinbase -/

theorem makeCoinbase_zero (amount : Int) : makeCoinbase 0 amount = .error .indexError := by
  rw [makeCoinbase_eq, bip34HeightPush_zero]
  rfl

/-- There is one shortest push of a number. -/
theorem ShortestPush.unique {n : Int} {i j : Instr} (hi : ShortestPush n i)
    (hj : ShortestPush n j) : i = j := by
  rcases hj.shortest i hi.pushes with h | h
  · exact h
  · rcases hi.shortest j hj.pushes with h' | h'
    · exact h'.symm
    · omega

/-- The transaction is a coinbase for this height: its script is the shortest push of the
height, and `OP_0`. -/
def IsCoinbase (height : Nat) (t : Tx) : Prop :=
  ∃ push : Instr, ShortestPush height push ∧
    t.Of (coinbaseInputs push.encode) [⟨SUBSIDY, OP_TRUE_SCRIPT⟩] 1 0

/-- **`make_coinbase` makes a coinbase for the height.** -/
theorem makeCoinbase_eq_ok_iff {height : Nat} (hpos : 0 < height)
    (hlt : height < 128 * 256 ^ 74) {b : Bytes} :
    makeCoinbase height SUBSIDY = .ok b ↔ ∃ t, IsCoinbase height t ∧ txFormat.enc t = b := by
  obtain ⟨push, hpush, hshortest, -⟩ := bip34HeightPush_spec hpos hlt
  rw [makeCoinbase_eq, hpush, ok_bind, serTx_eq_ok_iff null_txid]
  constructor
  · rintro ⟨t, ht, hb⟩
    exact ⟨t, ⟨push, hshortest, ht⟩, hb⟩
  · rintro ⟨t, ⟨push', hshortest', ht⟩, hb⟩
    rw [hshortest.unique hshortest']
    exact ⟨t, ht, hb⟩

theorem IsCoinbase.unique {height : Nat} (hpos : 0 < height) (hlt : height < 128 * 256 ^ 74)
    {t u : Tx} (ht : IsCoinbase height t) (hu : IsCoinbase height u) : t = u := by
  have ht' := (makeCoinbase_eq_ok_iff hpos hlt).mpr ⟨t, ht, rfl⟩
  have hu' := (makeCoinbase_eq_ok_iff hpos hlt).mpr ⟨u, hu, rfl⟩
  exact txFormat.enc_injective (Except.ok.inj (ht'.symm.trans hu'))

end PyBitcoinKernel.Miner
