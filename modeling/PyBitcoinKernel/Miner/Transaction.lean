import PyBitcoinKernel.Miner.Pack

/-!
# Serialized transactions

`ser_tx` puts a transaction together from its fields and lets `struct.pack` and
`ser_varint` object to those that do not fit. `Tx` is a transaction all of whose fields
do, and `txFormat` its wire format without witness data.

> `serTx_writes`: `ser_tx` succeeds exactly on the fields of some `Tx`, and writes that.

The reader of `txFormat` owes nothing to `ser_tx`, so what is written can be read back,
also where more bytes follow, and from the bytes alone.
-/

namespace PyBitcoinKernel.Miner

open PyBitcoinKernel.Script (Bytes)
open Wire (Format)

/-! ## The wire format -/

/-- A 32-byte hash. -/
abbrev Hash256 := Format.Exactly 32 UInt8

/-- Bytes, or items, that a size can count. -/
abbrev Sized (ι : Type) := Format.Counted (2 ^ 64) ι

/-- An input as it is written: all fields have the sizes of the wire. -/
structure TxIn where
  prevoutTxid : Hash256
  prevoutIndex : PackUnit.uint.Field
  scriptSig : Sized UInt8
  sequence : PackUnit.uint.Field

/-- An output, its amount in 64 bits with a sign. -/
structure TxOut where
  amount : PackUnit.longlong.Field
  scriptPubkey : Sized UInt8

/-- A transaction without witness data. -/
structure Tx where
  version : PackUnit.int.Field
  inputs : Sized TxIn
  outputs : Sized TxOut
  locktime : PackUnit.uint.Field

/-- An input is the fields of an input, in the order of the wire. -/
def TxIn.equiv :
    Hash256 × PackUnit.uint.Field × Sized UInt8 × PackUnit.uint.Field ≃ TxIn where
  toFun p := ⟨p.1, p.2.1, p.2.2.1, p.2.2.2⟩
  invFun i := (i.prevoutTxid, i.prevoutIndex, i.scriptSig, i.sequence)
  left_inv _ := rfl
  right_inv _ := rfl

/-- The same of an output. -/
def TxOut.equiv : PackUnit.longlong.Field × Sized UInt8 ≃ TxOut where
  toFun p := ⟨p.1, p.2⟩
  invFun o := (o.amount, o.scriptPubkey)
  left_inv _ := rfl
  right_inv _ := rfl

/-- The same of a transaction. -/
def Tx.equiv : PackUnit.int.Field × Sized TxIn × Sized TxOut × PackUnit.uint.Field ≃ Tx where
  toFun p := ⟨p.1, p.2.1, p.2.2.1, p.2.2.2⟩
  invFun t := (t.version, t.inputs, t.outputs, t.locktime)
  left_inv _ := rfl
  right_inv _ := rfl

/-- A hash has no length in front of it. -/
def hashFormat : Format UInt8 Hash256 := Format.exactly 32

/-- A script: its size, and its bytes. -/
def scriptFormat : Format UInt8 (Sized UInt8) := compactSize.blob

/-- The hash and the index of the output spent, the script, the sequence. -/
def inFormat : Format UInt8 TxIn :=
  (hashFormat.prod ((packed .uint).prod (scriptFormat.prod (packed .uint)))).map TxIn.equiv

/-- The amount, and then the script. -/
def outFormat : Format UInt8 TxOut := ((packed .longlong).prod scriptFormat).map TxOut.equiv

/-- The version, the inputs and the outputs behind their counts, the locktime. -/
def txFormat : Format UInt8 Tx :=
  ((packed .int).prod ((compactSize.counted inFormat).prod
    ((compactSize.counted outFormat).prod (packed .uint)))).map Tx.equiv

/-! ## `ser_tx` -/

/-- An item of `inputs`. -/
structure TxInput where
  prevoutTxid : Bytes
  prevoutIndex : Int
  scriptSig : Bytes
  deriving DecidableEq

/-- An item of `outputs`. -/
structure TxOutput where
  amount : Int
  scriptPubkey : Bytes
  deriving DecidableEq

/-- `ser_varint(len(script)) + script`. -/
def serScript (script : Bytes) : MinerResult Bytes :=
  (serVarint script.length).map (· ++ script)

/-- What an input adds. -/
def serInput (i : TxInput) : MinerResult Bytes := do
  let index ← structPack .uint i.prevoutIndex
  let script ← serScript i.scriptSig
  let sequence ← structPack .uint 0xFFFFFFFF
  return i.prevoutTxid ++ index ++ script ++ sequence

/-- What an output adds. -/
def serOutput (o : TxOutput) : MinerResult Bytes := do
  let amount ← structPack .longlong o.amount
  let script ← serScript o.scriptPubkey
  return amount ++ script

/-- `ser_tx`; the loops over inputs and outputs append to what is there. -/
def serTx (inputs : List TxInput) (outputs : List TxOutput) (version locktime : Int) :
    MinerResult Bytes := do
  let tx ← structPack .int version
  let count ← serVarint inputs.length
  let tx ← Format.appendAll serInput (tx ++ count) inputs
  let count ← serVarint outputs.length
  let tx ← Format.appendAll serOutput (tx ++ count) outputs
  let locktime ← structPack .uint locktime
  return tx ++ locktime

/-! ## What is written -/

/-- The input on the wire is the input given, with the sequence number `ser_tx` sets. -/
def TxIn.Of (v : TxIn) (i : TxInput) : Prop :=
  v.prevoutTxid.1 = i.prevoutTxid ∧ v.prevoutIndex.1 = i.prevoutIndex ∧
    v.scriptSig.1 = i.scriptSig ∧ v.sequence.1 = 0xFFFFFFFF

/-- The output as it was given: nothing is cut off. -/
def TxOut.Of (v : TxOut) (o : TxOutput) : Prop :=
  v.amount.1 = o.amount ∧ v.scriptPubkey.1 = o.scriptPubkey

/-- The transaction on the wire has the fields given. -/
structure Tx.Of (t : Tx) (inputs : List TxInput) (outputs : List TxOutput)
    (version locktime : Int) : Prop where
  version : t.version.1 = version
  inputs : List.Forall₂ TxIn.Of t.inputs.1 inputs
  outputs : List.Forall₂ TxOut.Of t.outputs.1 outputs
  locktime : t.locktime.1 = locktime

theorem map_eq_ok_iff {ε α β : Type} {r : Except ε α} {f : α → β} {b : β} :
    r.map f = .ok b ↔ ∃ a, r = .ok a ∧ f a = b := by
  cases r with
  | error e => exact iff_of_false (fun h => by cases h) (by rintro ⟨a, h, -⟩; cases h)
  | ok a =>
    constructor
    · intro h
      exact ⟨a, rfl, Except.ok.inj h⟩
    · rintro ⟨_, h, hb⟩
      cases h
      exact congrArg Except.ok hb

theorem ok_bind {ε α β : Type} (a : α) (f : α → Except ε β) : (Except.ok a).bind f = f a := rfl

/-- A step after another succeeds if both do. -/
theorem bind_eq_ok_iff {ε α β : Type} {r : Except ε α} {f : α → Except ε β} {b : β} :
    r.bind f = .ok b ↔ ∃ a, r = .ok a ∧ f a = .ok b := by
  cases r with
  | error e => exact iff_of_false (fun h => by cases h) (by rintro ⟨a, h, -⟩; cases h)
  | ok a =>
    constructor
    · intro h
      exact ⟨a, rfl, h⟩
    · rintro ⟨_, h, hb⟩
      cases h
      exact hb

/-- Numbers below `2 ^ 64` are counted, and no others. -/
theorem serVarint_eq_ok_iff {n : Nat} {b : Bytes} :
    serVarint n = .ok b ↔ ∃ h : n < 2 ^ 64, compactSize.enc ⟨n, h⟩ = b := by
  rw [serVarint_writes (n : Int) b]
  constructor
  · rintro ⟨⟨m, hm⟩, heq, hb⟩
    obtain rfl : m = n := by exact_mod_cast heq
    exact ⟨hm, hb⟩
  · rintro ⟨h, hb⟩
    exact ⟨⟨n, h⟩, rfl, hb⟩

/-- A script is written whenever its length can be. -/
theorem serScript_writes : scriptFormat.Writes (fun v s => v.1 = s) serScript := by
  intro s b
  rw [serScript, map_eq_ok_iff]
  constructor
  · rintro ⟨c, hc, hb⟩
    obtain ⟨h, hc⟩ := serVarint_eq_ok_iff.mp hc
    refine ⟨⟨s, h⟩, rfl, ?_⟩
    rw [scriptFormat, Format.enc_blob, hc]
    exact hb
  · rintro ⟨⟨s', h⟩, hs, hb⟩
    change s' = s at hs
    subst hs
    rw [scriptFormat, Format.enc_blob] at hb
    exact ⟨_, serVarint_eq_ok_iff.mpr ⟨h, rfl⟩, hb⟩

theorem enc_inFormat (v : TxIn) : inFormat.enc v = v.prevoutTxid.1 ++
    ((packed .uint).enc v.prevoutIndex ++
      (scriptFormat.enc v.scriptSig ++ (packed .uint).enc v.sequence)) := rfl

theorem enc_txFormat (t : Tx) : txFormat.enc t = (packed .int).enc t.version ++
    ((compactSize.counted inFormat).enc t.inputs ++
      ((compactSize.counted outFormat).enc t.outputs ++ (packed .uint).enc t.locktime)) := rfl

/-- An input is written if its hash has the right length, which `ser_tx` does not check. -/
theorem serInput_writesAt {i : TxInput} (h : i.prevoutTxid.length = 32) :
    inFormat.WritesAt TxIn.Of serInput i := by
  intro b
  have hbind : serInput i = (structPack .uint i.prevoutIndex).bind fun index =>
      (serScript i.scriptSig).bind fun script =>
        (structPack .uint 0xFFFFFFFF).bind fun sequence =>
          .ok (i.prevoutTxid ++ index ++ script ++ sequence) := rfl
  rw [hbind]
  constructor
  · intro hb
    obtain ⟨index, hindex, hb⟩ := bind_eq_ok_iff.mp hb
    obtain ⟨script, hscript, hb⟩ := bind_eq_ok_iff.mp hb
    obtain ⟨sequence, hsequence, hb⟩ := bind_eq_ok_iff.mp hb
    obtain ⟨vindex, hvindex, rfl⟩ := (structPack_writes _ _ _).mp hindex
    obtain ⟨vscript, hvscript, rfl⟩ := (serScript_writes _ _).mp hscript
    obtain ⟨vsequence, hvsequence, rfl⟩ := (structPack_writes _ _ _).mp hsequence
    refine ⟨⟨⟨i.prevoutTxid, h⟩, vindex, vscript, vsequence⟩, ⟨rfl, hvindex, hvscript, hvsequence⟩, ?_⟩
    rw [← Except.ok.inj hb, enc_inFormat]
    simp only [List.append_assoc]
  · rintro ⟨v, ⟨htxid, hindex, hscript, hsequence⟩, rfl⟩
    refine bind_eq_ok_iff.mpr ⟨_, (structPack_writes _ _ _).mpr ⟨_, hindex, rfl⟩, ?_⟩
    refine bind_eq_ok_iff.mpr ⟨_, (serScript_writes _ _).mpr ⟨_, hscript, rfl⟩, ?_⟩
    refine bind_eq_ok_iff.mpr ⟨_, (structPack_writes _ _ _).mpr ⟨_, hsequence, rfl⟩, ?_⟩
    rw [enc_inFormat, htxid]
    simp only [List.append_assoc]

/-- An output is written whenever its amount fits and its script can be counted. -/
theorem serOutput_writes : outFormat.Writes TxOut.Of serOutput := by
  intro o b
  have hbind : serOutput o = (structPack .longlong o.amount).bind fun amount =>
      (serScript o.scriptPubkey).bind fun script => .ok (amount ++ script) := rfl
  rw [hbind]
  constructor
  · intro hb
    obtain ⟨amount, hamount, hb⟩ := bind_eq_ok_iff.mp hb
    obtain ⟨script, hscript, hb⟩ := bind_eq_ok_iff.mp hb
    obtain ⟨vamount, hvamount, rfl⟩ := (structPack_writes _ _ _).mp hamount
    obtain ⟨vscript, hvscript, rfl⟩ := (serScript_writes _ _).mp hscript
    exact ⟨⟨vamount, vscript⟩, ⟨hvamount, hvscript⟩, Except.ok.inj hb⟩
  · rintro ⟨v, ⟨hamount, hscript⟩, rfl⟩
    refine bind_eq_ok_iff.mpr ⟨_, (structPack_writes _ _ _).mpr ⟨_, hamount, rfl⟩, ?_⟩
    exact bind_eq_ok_iff.mpr ⟨_, (serScript_writes _ _).mpr ⟨_, hscript, rfl⟩, rfl⟩

/-- A counted loop: the count, and then the items. -/
theorem counted_eq_ok_iff {ι ξ : Type} {f : Format UInt8 ι} {R : ι → ξ → Prop}
    {w : ξ → MinerResult Bytes} {acc : Bytes} {xs : List ξ} {b : Bytes}
    (hw : ∀ x ∈ xs, f.WritesAt R w x) :
    ((serVarint xs.length).bind fun count => Format.appendAll w (acc ++ count) xs) = .ok b ↔
      ∃ vs : Sized ι, List.Forall₂ R vs.1 xs ∧ acc ++ (compactSize.counted f).enc vs = b := by
  rw [bind_eq_ok_iff]
  constructor
  · rintro ⟨count, hcount, hb⟩
    obtain ⟨hlt, rfl⟩ := serVarint_eq_ok_iff.mp hcount
    obtain ⟨is, his, hb⟩ := (Format.appendAll_eq_ok_iff hw).mp hb
    have hlen := his.length_eq
    refine ⟨⟨is, hlen ▸ hlt⟩, his, ?_⟩
    rw [Format.enc_counted, ← hb, List.append_assoc]
    simp only [hlen]
  · rintro ⟨⟨is, hlt⟩, his, hb⟩
    have hlen : is.length = xs.length := his.length_eq
    refine ⟨_, serVarint_eq_ok_iff.mpr ⟨hlen ▸ hlt, rfl⟩, ?_⟩
    refine (Format.appendAll_eq_ok_iff hw).mpr ⟨is, his, ?_⟩
    rw [← hb, Format.enc_counted, List.append_assoc]
    simp only [hlen]

section SerTx

variable {inputs : List TxInput} {outputs : List TxOutput} {version locktime : Int}

/-- **`ser_tx` writes the transactions whose fields fit**, if the hashes it is given have
the right length. -/
theorem serTx_eq_ok_iff (h : ∀ i ∈ inputs, i.prevoutTxid.length = 32) {b : Bytes} :
    serTx inputs outputs version locktime = .ok b ↔
      ∃ t : Tx, t.Of inputs outputs version locktime ∧ txFormat.enc t = b := by
  have hbind : serTx inputs outputs version locktime =
      (structPack .int version).bind fun tx => (serVarint inputs.length).bind fun count =>
        (Format.appendAll serInput (tx ++ count) inputs).bind fun tx =>
          (serVarint outputs.length).bind fun count =>
            (Format.appendAll serOutput (tx ++ count) outputs).bind fun tx =>
              (structPack .uint locktime).bind fun locktime => .ok (tx ++ locktime) := rfl
  have hin : ∀ i ∈ inputs, inFormat.WritesAt TxIn.Of serInput i :=
    fun i hi => serInput_writesAt (h i hi)
  have hout : ∀ o ∈ outputs, outFormat.WritesAt TxOut.Of serOutput o :=
    fun o _ => serOutput_writes o
  rw [hbind]
  constructor
  · intro hb
    obtain ⟨tx, hversion, hb⟩ := bind_eq_ok_iff.mp hb
    obtain ⟨vversion, hvversion, rfl⟩ := (structPack_writes _ _ _).mp hversion
    obtain ⟨count, hcount, hb⟩ := bind_eq_ok_iff.mp hb
    obtain ⟨tx, hinputs, hb⟩ := bind_eq_ok_iff.mp hb
    obtain ⟨vinputs, hvinputs, rfl⟩ :=
      (counted_eq_ok_iff hin).mp (bind_eq_ok_iff.mpr ⟨count, hcount, hinputs⟩)
    obtain ⟨count, hcount, hb⟩ := bind_eq_ok_iff.mp hb
    obtain ⟨tx, houtputs, hb⟩ := bind_eq_ok_iff.mp hb
    obtain ⟨voutputs, hvoutputs, rfl⟩ :=
      (counted_eq_ok_iff hout).mp (bind_eq_ok_iff.mpr ⟨count, hcount, houtputs⟩)
    obtain ⟨tx, hlocktime, hb⟩ := bind_eq_ok_iff.mp hb
    obtain ⟨vlocktime, hvlocktime, rfl⟩ := (structPack_writes _ _ _).mp hlocktime
    refine ⟨⟨vversion, vinputs, voutputs, vlocktime⟩,
      ⟨hvversion, hvinputs, hvoutputs, hvlocktime⟩, ?_⟩
    rw [← Except.ok.inj hb, enc_txFormat]
    simp only [List.append_assoc]
  · rintro ⟨t, ⟨hversion, hinputs, houtputs, hlocktime⟩, rfl⟩
    refine bind_eq_ok_iff.mpr ⟨_, (structPack_writes _ _ _).mpr ⟨_, hversion, rfl⟩, ?_⟩
    obtain ⟨count, hcount, happ⟩ :=
      bind_eq_ok_iff.mp ((counted_eq_ok_iff hin).mpr ⟨_, hinputs, rfl⟩)
    refine bind_eq_ok_iff.mpr ⟨count, hcount, bind_eq_ok_iff.mpr ⟨_, happ, ?_⟩⟩
    obtain ⟨count, hcount, happ⟩ :=
      bind_eq_ok_iff.mp ((counted_eq_ok_iff hout).mpr ⟨_, houtputs, rfl⟩)
    refine bind_eq_ok_iff.mpr ⟨count, hcount, bind_eq_ok_iff.mpr ⟨_, happ, ?_⟩⟩
    refine bind_eq_ok_iff.mpr ⟨_, (structPack_writes _ _ _).mpr ⟨_, hlocktime, rfl⟩, ?_⟩
    rw [enc_txFormat]
    simp only [List.append_assoc]

/-- Every number has room in its field, and every list is counted. -/
structure FieldsFit (inputs : List TxInput) (outputs : List TxOutput)
    (version locktime : Int) : Prop where
  fitsVersion : PackUnit.int.Fits version
  countsInputs : inputs.length < 2 ^ 64
  fitsInput : ∀ i ∈ inputs, PackUnit.uint.Fits i.prevoutIndex ∧ i.scriptSig.length < 2 ^ 64
  countsOutputs : outputs.length < 2 ^ 64
  fitsOutput : ∀ o ∈ outputs, PackUnit.longlong.Fits o.amount ∧ o.scriptPubkey.length < 2 ^ 64
  fitsLocktime : PackUnit.uint.Fits locktime

/-- If each item stands for a value, the list stands for a list of values. -/
theorem exists_forall₂ {ι ξ : Type} {R : ι → ξ → Prop} : ∀ {xs : List ξ},
    (∀ x ∈ xs, ∃ i, R i x) → ∃ is, List.Forall₂ R is xs
  | [], _ => ⟨[], List.Forall₂.nil⟩
  | x :: xs, h => by
    obtain ⟨hx, hxs⟩ := List.forall_mem_cons.mp h
    obtain ⟨i, hi⟩ := hx
    obtain ⟨is, his⟩ := exists_forall₂ hxs
    exact ⟨i :: is, List.Forall₂.cons hi his⟩

/-- What holds of all that stands for a value holds throughout such a list. -/
theorem forall_of_forall₂ {ι ξ : Type} {R : ι → ξ → Prop} {P : ξ → Prop}
    (hP : ∀ i x, R i x → P x) {is : List ι} {xs : List ξ} (h : List.Forall₂ R is xs) :
    ∀ x ∈ xs, P x := by
  induction h with
  | nil => exact fun x hx => absurd hx List.not_mem_nil
  | cons hi _ ih => exact List.forall_mem_cons.mpr ⟨hP _ _ hi, ih⟩

/-- Fields that fit are those of a transaction. -/
theorem exists_of_iff (h : ∀ i ∈ inputs, i.prevoutTxid.length = 32) :
    (∃ t : Tx, t.Of inputs outputs version locktime) ↔
      FieldsFit inputs outputs version locktime := by
  constructor
  · rintro ⟨t, hversion, hinputs, houtputs, hlocktime⟩
    refine ⟨hversion ▸ t.version.2, hinputs.length_eq ▸ t.inputs.2,
      forall_of_forall₂ ?_ hinputs, houtputs.length_eq ▸ t.outputs.2,
      forall_of_forall₂ ?_ houtputs, hlocktime ▸ t.locktime.2⟩
    · rintro v i ⟨-, hindex, hscript, -⟩
      exact ⟨hindex ▸ v.prevoutIndex.2, hscript ▸ v.scriptSig.2⟩
    · rintro v o ⟨hamount, hscript⟩
      exact ⟨hamount ▸ v.amount.2, hscript ▸ v.scriptPubkey.2⟩
  · intro hfit
    have hin : ∀ i ∈ inputs, ∃ v : TxIn, v.Of i := by
      intro i hi
      obtain ⟨hindex, hscript⟩ := hfit.fitsInput i hi
      exact ⟨⟨⟨_, h i hi⟩, ⟨_, hindex⟩, ⟨_, hscript⟩, ⟨0xFFFFFFFF, by decide⟩⟩, rfl, rfl, rfl, rfl⟩
    have hout : ∀ o ∈ outputs, ∃ v : TxOut, v.Of o := by
      intro o ho
      obtain ⟨hamount, hscript⟩ := hfit.fitsOutput o ho
      exact ⟨⟨⟨_, hamount⟩, ⟨_, hscript⟩⟩, rfl, rfl⟩
    obtain ⟨vs, hvs⟩ := exists_forall₂ hin
    obtain ⟨ws, hws⟩ := exists_forall₂ hout
    exact ⟨⟨⟨version, hfit.fitsVersion⟩, ⟨vs, hvs.length_eq ▸ hfit.countsInputs⟩,
      ⟨ws, hws.length_eq ▸ hfit.countsOutputs⟩, ⟨locktime, hfit.fitsLocktime⟩⟩, rfl, hvs, hws, rfl⟩

end SerTx

/-! ## Which exception -/

/-- A failure is a `struct.error`. -/
def OnlyStructError {α : Type} (r : MinerResult α) : Prop := ∀ e, r = .error e → e = .structError

theorem onlyStructError_ok {α : Type} (a : α) : OnlyStructError (.ok a) := by
  intro e h
  cases h

/-- Steps that raise nothing else are put together to one that does not. -/
theorem OnlyStructError.bind {α β : Type} {r : MinerResult α} {f : α → MinerResult β}
    (hr : OnlyStructError r) (hf : ∀ a, OnlyStructError (f a)) : OnlyStructError (r.bind f) := by
  cases r with
  | error e =>
    intro e' h
    cases h
    exact hr e rfl
  | ok a => exact hf a

theorem OnlyStructError.map {α β : Type} {r : MinerResult α} {f : α → β}
    (hr : OnlyStructError r) : OnlyStructError (r.map f) := by
  cases r with
  | error e =>
    intro e' h
    cases h
    exact hr e rfl
  | ok a => exact onlyStructError_ok _

/-- `struct.pack` is where the exceptions come from. -/
theorem onlyStructError_structPack (u : PackUnit) (n : Int) :
    OnlyStructError (structPack u n) := by
  intro e h
  unfold structPack at h
  split at h
  next => cases h
  next => cases h; rfl

/-- A count that no format of `ser_varint` takes raises it too. -/
theorem onlyStructError_serVarint (n : Int) : OnlyStructError (serVarint n) := by
  unfold serVarint
  split
  next => exact onlyStructError_structPack _ _
  next =>
    split
    next => exact (onlyStructError_structPack _ _).map
    next =>
      split
      next => exact (onlyStructError_structPack _ _).map
      next => exact (onlyStructError_structPack _ _).map

/-- A loop raises what its steps raise. -/
theorem onlyStructError_appendAll {ξ : Type} {w : ξ → MinerResult Bytes}
    (hw : ∀ x, OnlyStructError (w x)) : ∀ (xs : List ξ) (acc : Bytes),
    OnlyStructError (Format.appendAll w acc xs)
  | [], acc => onlyStructError_ok acc
  | x :: xs, acc => by
    rw [Format.appendAll_cons]
    exact (hw x).bind fun b => onlyStructError_appendAll hw xs (acc ++ b)

theorem onlyStructError_serScript (s : Bytes) : OnlyStructError (serScript s) :=
  (onlyStructError_serVarint _).map

theorem onlyStructError_serInput (i : TxInput) : OnlyStructError (serInput i) :=
  (onlyStructError_structPack _ _).bind fun _ => (onlyStructError_serScript _).bind fun _ =>
    (onlyStructError_structPack _ _).bind fun _ => onlyStructError_ok _

theorem onlyStructError_serOutput (o : TxOutput) : OnlyStructError (serOutput o) :=
  (onlyStructError_structPack _ _).bind fun _ => (onlyStructError_serScript _).bind fun _ =>
    onlyStructError_ok _

theorem onlyStructError_serTx (inputs : List TxInput) (outputs : List TxOutput)
    (version locktime : Int) : OnlyStructError (serTx inputs outputs version locktime) :=
  (onlyStructError_structPack _ _).bind fun _ => (onlyStructError_serVarint _).bind fun _ =>
    (onlyStructError_appendAll onlyStructError_serInput _ _).bind fun _ =>
      (onlyStructError_serVarint _).bind fun _ =>
        (onlyStructError_appendAll onlyStructError_serOutput _ _).bind fun _ =>
          (onlyStructError_structPack _ _).bind fun _ => onlyStructError_ok _

/-- **Transactions are read back as they were given**, by a reader of the wire format and
in front of any other bytes; what does not fit raises `struct.error`, and nothing else
does. -/
theorem serTx_round_trip (inputs : List TxInput) (outputs : List TxOutput)
    (version locktime : Int) (h : ∀ i ∈ inputs, i.prevoutTxid.length = 32) :
    (∀ b, serTx inputs outputs version locktime = .ok b ↔
      ∃ t : Tx, t.Of inputs outputs version locktime ∧
        ∀ rest, txFormat.dec (b ++ rest) = some (t, rest)) ∧
    (∀ e, serTx inputs outputs version locktime = .error e ↔
      e = .structError ∧ ¬ FieldsFit inputs outputs version locktime) := by
  constructor
  · intro b
    rw [serTx_eq_ok_iff h]
    exact exists_congr fun t => and_congr_right fun _ => txFormat.enc_eq_iff
  · intro e
    rw [← exists_of_iff h]
    cases hser : serTx inputs outputs version locktime with
    | ok b =>
      obtain ⟨t, ht, -⟩ := (serTx_eq_ok_iff h).mp hser
      exact iff_of_false (fun hno => by cases hno) fun hno => hno.2 ⟨t, ht⟩
    | error e' =>
      have he := onlyStructError_serTx inputs outputs version locktime e' hser
      have hno : ¬ ∃ t : Tx, t.Of inputs outputs version locktime := by
        rintro ⟨t, ht⟩
        have hok := (serTx_eq_ok_iff h).mpr ⟨t, ht, rfl⟩
        rw [hok] at hser
        cases hser
      rw [he]
      constructor
      · intro heq
        cases heq
        exact ⟨rfl, hno⟩
      · rintro ⟨rfl, -⟩
        rfl

/-- A transaction with one input and one output. -/
theorem serTx_round_trip_one :
    let inputs := [⟨List.replicate 32 0, 0xFFFFFFFF, [0x51, 0x00]⟩]
    let outputs := [⟨50 * 10 ^ 8, [0x51]⟩]
    (∀ b, serTx inputs outputs 1 0 = .ok b ↔
      ∃ t : Tx, t.Of inputs outputs 1 0 ∧ ∀ rest, txFormat.dec (b ++ rest) = some (t, rest)) ∧
    (∀ e, serTx inputs outputs 1 0 = .error e ↔
      e = .structError ∧ ¬ FieldsFit inputs outputs 1 0) :=
  serTx_round_trip _ _ 1 0 (List.forall_mem_singleton.mpr rfl)

end PyBitcoinKernel.Miner
