import PyBitcoinKernel.Lib.Delimited
import PyBitcoinKernel.Lib.Hex
import PyBitcoinKernel.Lib.HashTable
import PyBitcoinKernel.Lib.LittleEndian
import PyBitcoinKernel.Primitives.Lifetime

/-!
# Hashes as values and as keys

A `Txid` or `BlockHash` object stands for 32 bytes. There are many objects for the same
hash, one for each time an attribute was read, so what they are to each other is up to
`tp_richcompare` and `tp_hash`; and to a reader up to `hex()` and `repr()`, which show the
bytes in the reverse order.

> `hashes_compare`: two objects are equal exactly if they are of one type and have the same
> bytes, and equal objects have the same `hash()`.

> `hashes_are_keys`: so a dictionary with such keys, whatever is assigned and deleted, holds
> what a function of the type and the bytes does.

> `hex_round_trip`: the reversed bytes can be read back from the digits, and every text of
> 64 lower-case digits is that of one hash.
-/

namespace PyBitcoinKernel.Primitives

open PyBitcoinKernel.Binding (PyErr PyResult raise FitsSigned)
open PyBitcoinKernel.Script (Bytes)

/-! ## What is shown -/

/-- `digits[n]`. -/
def digit (n : UInt8) : Char := "0123456789abcdef".toList.getD n.toNat '\x00'

/-- The digits that the loops of `hash_hex_str` and `hash_repr` put into `hex`. -/
def hashDigits (data : Bytes) : List Char :=
  (List.range 32).flatMap fun i =>
    let b := data.getD (31 - i) 0
    [digit (b >>> 4), digit (b &&& 0x0f)]

def hashHexStr (data : Bytes) : String := String.ofList (hashDigits data)

def hashRepr (typeName : String) (data : Bytes) : String :=
  "<" ++ typeName ++ " " ++ String.ofList (hashDigits data) ++ ">"

/-! ## Comparison and hash -/

/-- The operators of a rich comparison. -/
inductive CompareOp where
  | lt
  | le
  | eq
  | ne
  | gt
  | ge
  deriving DecidableEq, Repr

/-- `_Py_SwappedOp`. -/
def CompareOp.swapped : CompareOp → CompareOp
  | .lt => .gt
  | .le => .ge
  | .eq => .eq
  | .ne => .ne
  | .gt => .lt
  | .ge => .le

/-- The two types of hashes. -/
inductive HashType where
  | txid
  | blockHash
  deriving DecidableEq, Repr

def HashType.kind : HashType → Kind
  | .txid => .txid
  | .blockHash => .blockHash

/-- What the kernel's functions see of a hash. -/
def HashType.bytes : (t : HashType) → Data t.kind → Bytes
  | .txid, h => h
  | .blockHash, h => h

/-- The name that `repr()` shows. -/
def HashType.name : HashType → String
  | .txid => "Txid"
  | .blockHash => "BlockHash"

/-- A slot `tp_richcompare`: `none` for `NotImplemented`. Both kernel objects are read by
`btck_txid_equals` or `btck_block_hash_equals`. -/
def richcompare (t : HashType) (a b : Nat) (op : CompareOp) (s : State) :
    PyResult (Option Bool) × State :=
  if (op ≠ .eq ∧ op ≠ .ne) ∨ ¬ (s.heap.cell a).isWrapper t.kind ∨
      ¬ (s.heap.cell b).isWrapper t.kind then (.ok none, s)
  else
    match s.access t.kind (s.ptr a) fun d => some (t.bytes d) with
    | (none, s) => (undefined, s)
    | (some x, s) =>
      match s.access t.kind (s.ptr b) fun d => some (t.bytes d) with
      | (none, s) => (undefined, s)
      | (some y, s) =>
        let eq := decide (x = y)
        (.ok (some (if op = .ne then !eq else eq)), s)

def txidRichcompare := richcompare .txid

def blockHashRichcompare := richcompare .blockHash

/-- The first 8 bytes as a `Py_hash_t`, on a little-endian machine. -/
def memcpyHash (out : Bytes) : Int := (BitVec.ofNat 64 (LittleEndian.fromLE (out.take 8))).toInt

/-- A slot `tp_hash`. -/
def hashHash (t : HashType) (self : Nat) (s : State) : PyResult Int × State :=
  match s.access t.kind (s.ptr self) fun d => some (t.bytes d) with
  | (none, s) => (undefined, s)
  | (some out, s) =>
    let h := memcpyHash out
    (.ok (if h = -1 then -2 else h), s)

/-- `hex()`. -/
def hashHex (t : HashType) (self : Nat) (s : State) : PyResult String × State :=
  match s.access t.kind (s.ptr self) fun d => some (t.bytes d) with
  | (none, s) => (undefined, s)
  | (some out, s) => (.ok (hashHexStr out), s)

def txidHex := hashHex .txid

def blockHashHex := hashHex .blockHash

/-- A slot `tp_repr`. -/
def hashReprOf (t : HashType) (self : Nat) (s : State) : PyResult String × State :=
  match s.access t.kind (s.ptr self) fun d => some (t.bytes d) with
  | (none, s) => (undefined, s)
  | (some out, s) => (.ok (hashRepr t.name out), s)

def txidRepr := hashReprOf .txid

def blockHashRepr := hashReprOf .blockHash

def txidHash := hashHash .txid

def blockHashHash := hashHash .blockHash

/-! ### What the interpreter makes of the slots -/

/-- The `tp_richcompare` slot of an object. What the other objects here have in its place
does not know hashes. -/
def tpRichcompare (a b : Nat) (op : CompareOp) (s : State) : PyResult (Option Bool) × State :=
  match s.heap.cell a with
  | .wrapper .txid _ => txidRichcompare a b op s
  | .wrapper .blockHash _ => blockHashRichcompare a b op s
  | _ => (.ok none, s)

/-- `PyObject_RichCompare`: the slot of the first operand, the one of the second with the
operator turned round, and then the identity of the objects. -/
def pyObjectRichCompare (a b : Nat) (op : CompareOp) (s : State) : PyResult Bool × State :=
  match tpRichcompare a b op s with
  | (.error e, s) => (.error e, s)
  | (.ok (some r), s) => (.ok r, s)
  | (.ok none, s) =>
    match tpRichcompare b a op.swapped s with
    | (.error e, s) => (.error e, s)
    | (.ok (some r), s) => (.ok r, s)
    | (.ok none, s) =>
      match op with
      | .eq => (.ok (decide (a = b)), s)
      | .ne => (.ok (decide (a ≠ b)), s)
      | _ => (raise .typeError "", s)

/-- `PyObject_Hash`, of a hash. -/
def pyObjectHash (self : Nat) (s : State) : PyResult Int × State :=
  match s.heap.cell self with
  | .wrapper .txid _ => txidHash self s
  | .wrapper .blockHash _ => blockHashHash self s
  | _ => (undefined, s)

/-! ## What the slots find -/

/-- The kernel object of a hash. -/
def HashType.object : HashType → Bytes → KObj
  | .txid, x => ⟨.txid, x⟩
  | .blockHash, x => ⟨.blockHash, x⟩

/-- Python code holds an object for this hash. -/
def World.HoldsHash (w : World) (i : Nat) (t : HashType) (x : Bytes) : Prop :=
  i ∈ w.held ∧ Primitives.Wraps w.state i (t.object x)

variable {w : World} {s : State} {refs : Multiset Nat} {handles : Multiset (Kind × Nat)}
  {blocks i j : Nat} {t u : HashType} {x y : Bytes} {op : CompareOp}

theorem Wraps.hash_cell (hw : Wraps s i (t.object x)) :
    ∃ ptr, s.heap.cell i = .wrapper t.kind ptr := by
  obtain ⟨ptr, hcell, _⟩ := hw
  refine ⟨ptr, ?_⟩
  cases t with
  | txid => exact hcell
  | blockHash => exact hcell

theorem Wraps.hash_isWrapper (hw : Wraps s i (t.object x)) (u : HashType) :
    (s.heap.cell i).isWrapper u.kind = decide (t = u) := by
  obtain ⟨ptr, hcell⟩ := hw.hash_cell
  rw [hcell]
  cases t <;> cases u <;> rfl

/-- An object stands for one hash. -/
theorem Wraps.hash_unique (hw : Wraps s i (t.object x)) (hw' : Wraps s i (u.object y)) :
    t = u ∧ x = y := by
  obtain ⟨ptr, hcell, hobj⟩ := hw
  obtain ⟨ptr', hcell', hobj'⟩ := hw'
  rw [hcell, Cell.wrapper.injEq] at hcell'
  rw [← hcell'.2, hobj, Option.some.injEq] at hobj'
  cases t with
  | txid =>
    cases u with
    | txid => exact ⟨rfl, by simpa [HashType.object] using hobj'⟩
    | blockHash => cases hobj'
  | blockHash =>
    cases u with
    | txid => cases hobj'
    | blockHash => exact ⟨rfl, by simpa [HashType.object] using hobj'⟩

/-- What `btck_*_to_bytes` reads. -/
theorem Owns.hash_access (h : Owns s refs handles blocks) (hi : i ∈ refs)
    (hw : Wraps s i (t.object x)) :
    s.access t.kind (s.ptr i) (fun d => some (t.bytes d)) = (some x, s) := by
  cases t with
  | txid => exact h.access (f := fun d => some d) hi hw rfl
  | blockHash => exact h.access (f := fun d => some d) hi hw rfl

/-- The slot leaves ordering, and objects of other types, to the interpreter. -/
theorem richcompare_none (hno : (op ≠ .eq ∧ op ≠ .ne) ∨ ¬ (s.heap.cell i).isWrapper t.kind ∨
    ¬ (s.heap.cell j).isWrapper t.kind) : richcompare t i j op s = (.ok none, s) := by
  unfold richcompare
  rw [if_pos hno]

theorem Owns.richcompare_eq (h : Owns s refs handles blocks) (hi : i ∈ refs) (hj : j ∈ refs)
    (hwi : Wraps s i (t.object x)) (hwj : Wraps s j (t.object y)) (hop : op = .eq ∨ op = .ne) :
    richcompare t i j op s =
      (.ok (some (if op = .ne then !decide (x = y) else decide (x = y))), s) := by
  have hyes : ¬ ((op ≠ .eq ∧ op ≠ .ne) ∨ ¬ (s.heap.cell i).isWrapper t.kind ∨
      ¬ (s.heap.cell j).isWrapper t.kind) := by
    rw [hwi.hash_isWrapper, hwj.hash_isWrapper]
    simp only [decide_true, not_true_eq_false, or_false, not_and_or, not_not]
    exact hop
  unfold richcompare
  rw [if_neg hyes, h.hash_access hi hwi]
  dsimp only
  rw [h.hash_access hj hwj]

theorem tpRichcompare_hash (hw : Wraps s i (t.object x)) :
    tpRichcompare i j op s = richcompare t i j op s := by
  obtain ⟨ptr, hcell⟩ := hw.hash_cell
  unfold tpRichcompare
  rw [hcell]
  cases t <;> rfl

/-- The objects are not hashes of one type. -/
def Strangers (s : State) (i j : Nat) : Prop :=
  ∀ t : HashType, (s.heap.cell i).isWrapper t.kind = true →
    (s.heap.cell j).isWrapper t.kind = false

theorem Strangers.symm (h : Strangers s i j) : Strangers s j i := by
  intro t ht
  rw [← Bool.not_eq_true]
  intro hi
  rw [h t hi] at ht
  cases ht

theorem Strangers.tpRichcompare_eq (h : Strangers s i j) :
    tpRichcompare i j op s = (.ok none, s) := by
  have hslot : ∀ t : HashType, (s.heap.cell i).isWrapper t.kind = true →
      richcompare t i j op s = (.ok none, s) := by
    intro t ht
    refine richcompare_none (Or.inr (Or.inr ?_))
    rw [h t ht]
    exact Bool.false_ne_true
  unfold tpRichcompare
  split
  next ptr hcell => exact hslot .txid (by rw [hcell]; rfl)
  next ptr hcell => exact hslot .blockHash (by rw [hcell]; rfl)
  next => rfl

/-- **Comparing two hashes of one type** reads their bytes. -/
theorem Owns.compare_same (h : Owns s refs handles blocks) (hi : i ∈ refs) (hj : j ∈ refs)
    (hwi : Wraps s i (t.object x)) (hwj : Wraps s j (t.object y)) :
    pyObjectRichCompare i j .eq s = (.ok (decide (x = y)), s) ∧
      pyObjectRichCompare i j .ne s = (.ok (!decide (x = y)), s) := by
  refine ⟨?_, ?_⟩
  · unfold pyObjectRichCompare
    rw [tpRichcompare_hash hwi, h.richcompare_eq hi hj hwi hwj (Or.inl rfl)]
    rfl
  · unfold pyObjectRichCompare
    rw [tpRichcompare_hash hwi, h.richcompare_eq hi hj hwi hwj (Or.inr rfl)]
    rfl

/-- **Comparing anything else** with a hash comes down to the identity. -/
theorem Strangers.compare (h : Strangers s i j) (hij : i ≠ j) :
    pyObjectRichCompare i j .eq s = (.ok false, s) ∧
      pyObjectRichCompare i j .ne s = (.ok true, s) := by
  refine ⟨?_, ?_⟩
  · unfold pyObjectRichCompare
    rw [h.tpRichcompare_eq]
    dsimp only
    rw [h.symm.tpRichcompare_eq]
    simp [hij]
  · unfold pyObjectRichCompare
    rw [h.tpRichcompare_eq]
    dsimp only
    rw [h.symm.tpRichcompare_eq]
    simp [hij]

/-- Hashes have no order. -/
theorem compare_order (heq : op ≠ .eq) (hne : op ≠ .ne) :
    pyObjectRichCompare i j op s = (raise .typeError "", s) := by
  have hnone : ∀ {a b : Nat} {o : CompareOp}, o ≠ .eq → o ≠ .ne →
      tpRichcompare a b o s = (.ok none, s) := by
    intro a b o ho ho'
    unfold tpRichcompare
    split
    next => exact richcompare_none (Or.inl ⟨ho, ho'⟩)
    next => exact richcompare_none (Or.inl ⟨ho, ho'⟩)
    next => rfl
  have hswapped : op.swapped ≠ .eq ∧ op.swapped ≠ .ne := by
    cases op <;> first | exact absurd rfl heq | exact absurd rfl hne | exact ⟨by decide, by decide⟩
  unfold pyObjectRichCompare
  rw [hnone heq hne]
  dsimp only
  rw [hnone hswapped.1 hswapped.2]
  cases op <;> first | exact absurd rfl heq | exact absurd rfl hne | rfl

/-! ### Hashes -/

/-- `tp_hash` does not return -1, which stands for an exception. -/
def hashValue (x : Bytes) : Int := if memcpyHash x = -1 then -2 else memcpyHash x

theorem Owns.pyObjectHash_eq (h : Owns s refs handles blocks) (hi : i ∈ refs)
    (hw : Wraps s i (t.object x)) : pyObjectHash i s = (.ok (hashValue x), s) := by
  have hslot : hashHash t i s = (.ok (hashValue x), s) := by
    unfold hashHash
    rw [h.hash_access hi hw]
    rfl
  obtain ⟨ptr, hcell⟩ := hw.hash_cell
  unfold pyObjectHash
  rw [hcell]
  cases t with
  | txid => exact hslot
  | blockHash => exact hslot

theorem hashValue_range (x : Bytes) : hashValue x ≠ -1 ∧ FitsSigned 63 (hashValue x) := by
  have hlo := BitVec.le_toInt (BitVec.ofNat 64 (LittleEndian.fromLE (x.take 8)))
  have hhi := BitVec.toInt_lt (x := BitVec.ofNat 64 (LittleEndian.fromLE (x.take 8)))
  unfold hashValue FitsSigned memcpyHash
  split
  · omega
  · refine ⟨by assumption, ?_, ?_⟩ <;> omega

/-! ## Hashes as values -/

/-- What is not a hash of this type is none of its values. -/
theorem Owns.strangers (h : Owns s refs handles blocks) (hj : j ∈ refs)
    (hwi : Wraps s i (t.object x)) (hno : ∀ y, ¬ Wraps s j (t.object y)) : Strangers s i j := by
  intro u hu
  rw [hwi.hash_isWrapper, decide_eq_true_iff] at hu
  subst hu
  rw [← Bool.not_eq_true]
  intro hj'
  obtain ⟨d, hd⟩ := h.wraps hj hj'
  refine hno (t.bytes d) ?_
  cases t with
  | txid => exact hd
  | blockHash => exact hd

theorem mem_held_two : (1 : Nat) ∈ ({2} + ({1} + {0}) : Multiset Nat) ∧
    (2 : Nat) ∈ ({2} + ({1} + {0}) : Multiset Nat) := by decide

/-- **Objects of hashes compare as values**: two are equal, from either side, exactly if
they are of one type and stand for the same bytes; there is no order; and equal ones have
the same hash, which is a number that `hash()` can return. -/
theorem hashes_compare (h : programs.Reachable w) (hi : w.HoldsHash i t x) (hj : j ∈ w.held) :
    ∃ e : Bool, (e = true ↔ w.HoldsHash j t x) ∧
      pyObjectRichCompare i j .eq w.state = (.ok e, w.state) ∧
      pyObjectRichCompare j i .eq w.state = (.ok e, w.state) ∧
      pyObjectRichCompare i j .ne w.state = (.ok !e, w.state) ∧
      pyObjectRichCompare j i .ne w.state = (.ok !e, w.state) ∧
      (∀ op, op ≠ .eq → op ≠ .ne →
        pyObjectRichCompare i j op w.state = (raise .typeError "", w.state)) ∧
      ∃ n, pyObjectHash i w.state = (.ok n, w.state) ∧ n ≠ -1 ∧ FitsSigned 63 n ∧
        (e = true → pyObjectHash j w.state = (.ok n, w.state)) := by
  obtain ⟨a, hsim⟩ := exists_sim h
  have howns := hsim.owns
  obtain ⟨hmem, hwi⟩ := hi
  obtain ⟨hneg, hfits⟩ := hashValue_range x
  have hhash := howns.pyObjectHash_eq hmem hwi
  by_cases hsame : ∃ y, Wraps w.state j (t.object y)
  · obtain ⟨y, hwj⟩ := hsame
    obtain ⟨heq, hne⟩ := howns.compare_same hmem hj hwi hwj
    obtain ⟨heq', hne'⟩ := howns.compare_same hj hmem hwj hwi
    have hcomm : decide (y = x) = decide (x = y) := decide_eq_decide.mpr eq_comm
    rw [hcomm] at heq' hne'
    refine ⟨decide (x = y), ?_, heq, heq', hne, hne', fun _ h₁ h₂ => compare_order h₁ h₂, _, hhash,
      hneg, hfits, ?_⟩
    · rw [decide_eq_true_iff]
      refine ⟨fun hxy => ⟨hj, hxy ▸ hwj⟩, ?_⟩
      intro hx
      exact (hx.2.hash_unique hwj).2
    · intro hxy
      rw [of_decide_eq_true hxy]
      exact howns.pyObjectHash_eq hj hwj
  · have hno : ∀ y, ¬ Wraps w.state j (t.object y) := fun y hy => hsame ⟨y, hy⟩
    have hij : i ≠ j := fun hij => hno x (hij ▸ hwi)
    have hstrangers := howns.strangers hj hwi hno
    obtain ⟨heq, hne⟩ := hstrangers.compare hij
    obtain ⟨heq', hne'⟩ := hstrangers.symm.compare hij.symm
    refine ⟨false, ?_, heq, heq', hne, hne', fun _ h₁ h₂ => compare_order h₁ h₂, _, hhash,
      hneg, hfits, fun hfalse => by cases hfalse⟩
    exact iff_of_false Bool.false_ne_true fun hx => hno x hx.2

/-- Two objects for the hash of one block. -/
theorem hashes_compare_two : ∃ w,
    programs.exec start [⟨.entryBlockHash (List.replicate 32 0x42), []⟩,
      ⟨.entryBlockHash (List.replicate 32 0x42), []⟩] = some w ∧
    pyObjectRichCompare 1 2 .eq w.state = (.ok true, w.state) := by
  have hrun : programs.exec start [⟨.entryBlockHash (List.replicate 32 0x42), []⟩,
      ⟨.entryBlockHash (List.replicate 32 0x42), []⟩] = some _ := rfl
  refine ⟨_, hrun, ?_⟩
  have hheld := mem_held_two
  obtain ⟨e, he, heq, -⟩ := hashes_compare (t := .blockHash) ⟨_, hrun⟩
    ⟨hheld.1, 0, rfl, rfl⟩ hheld.2
  rw [heq, he.mpr ⟨hheld.2, 1, rfl, rfl⟩]

/-! ## Hashes as keys -/

/-- What an object stands for, if it is a hash. -/
def State.standsFor (s : State) (i : Nat) : Option (HashType × Bytes) :=
  match s.heap.cell i with
  | .wrapper .txid ptr => (s.kernel.read .txid ptr).map fun h => (.txid, h)
  | .wrapper .blockHash ptr => (s.kernel.read .blockHash ptr).map fun h => (.blockHash, h)
  | _ => none

/-- The hash that a dictionary keeps with a key. -/
def keyHash (s : State) (i : Nat) : Int :=
  match (pyObjectHash i s).1 with
  | .ok n => n
  | .error _ => 0

/-- Whether a dictionary takes one key for the other: `PyObject_RichCompareBool`, for which
an object is equal to itself. -/
def keyEq (s : State) (i j : Nat) : Bool :=
  i = j || match (pyObjectRichCompare i j .eq s).1 with
    | .ok e => e
    | .error _ => false

theorem Owns.standsFor_eq (h : Owns s refs handles blocks) (hi : i ∈ refs)
    (hw : Wraps s i (t.object x)) : s.standsFor i = some (t, x) := by
  obtain ⟨ptr, hcell, hobj⟩ := hw
  obtain ⟨d, hd, hread⟩ := h.live_wrapper (h.counted.live_of_held hi) hcell
  rw [hobj, Option.some.injEq] at hd
  unfold State.standsFor
  rw [hcell]
  cases t with
  | txid =>
    have hx : d = x := eq_of_heq (KObj.mk.inj hd.symm).2
    exact congrArg (Option.map _) (hread.trans (congrArg some hx))
  | blockHash =>
    have hx : d = x := eq_of_heq (KObj.mk.inj hd.symm).2
    exact congrArg (Option.map _) (hread.trans (congrArg some hx))

theorem Owns.compare_hashes (h : Owns s refs handles blocks) (hi : i ∈ refs) (hj : j ∈ refs)
    (hwi : Wraps s i (t.object x)) (hwj : Wraps s j (u.object y)) :
    keyEq s i j = true ↔ t = u ∧ x = y := by
  unfold keyEq
  by_cases htu : t = u
  · subst htu
    rw [(h.compare_same hi hj hwi hwj).1, Bool.or_eq_true, decide_eq_true_iff, decide_eq_true_iff]
    constructor
    · intro hor
      rcases hor with rfl | hxy
      · exact hwi.hash_unique hwj
      · exact ⟨rfl, hxy⟩
    · exact fun hand => Or.inr hand.2
  · have hno : ∀ z, ¬ Wraps s j (t.object z) := fun z hz => htu (hz.hash_unique hwj).1
    have hij : i ≠ j := fun hij => hno x (hij ▸ hwi)
    rw [((h.strangers hj hwi hno).compare hij).1]
    simp [hij, htu]

/-- **Such objects serve as keys.** -/
theorem Owns.lawful (h : Owns s refs handles blocks) :
    HashTable.Lawful (keyHash s) (keyEq s) s.standsFor
      fun i => i ∈ refs ∧ ∃ t x, Wraps s i (HashType.object t x) := by
  have hval : ∀ {i t x}, i ∈ refs → Wraps s i (HashType.object t x) →
      s.standsFor i = some (t, x) ∧ keyHash s i = hashValue x := by
    intro i t x hi hw
    refine ⟨h.standsFor_eq hi hw, ?_⟩
    unfold keyHash
    rw [h.pyObjectHash_eq hi hw]
  constructor
  · intro i j hi hj
    obtain ⟨hi, t, x, hwi⟩ := hi
    obtain ⟨hj, u, y, hwj⟩ := hj
    rw [h.compare_hashes hi hj hwi hwj, (hval hi hwi).1, (hval hj hwj).1, Option.some.injEq,
      Prod.mk.injEq]
  · intro i j hi hj hsame
    obtain ⟨hi, t, x, hwi⟩ := hi
    obtain ⟨hj, u, y, hwj⟩ := hj
    rw [(hval hi hwi).1, (hval hj hwj).1, Option.some.injEq, Prod.mk.injEq] at hsame
    rw [(hval hi hwi).2, (hval hj hwj).2, hsame.2]

/-- **A dictionary with hashes as keys** holds after any assignments and deletions what a
function of their types and bytes would, and has one entry for each. -/
theorem hashes_are_keys {ν : Type} (h : programs.Reachable w) {ops : List (HashTable.Op Nat ν)}
    (hops : ∀ op ∈ ops, ∃ t x, w.HoldsHash op.key t x) :
    (∀ i t x, w.HoldsHash i t x →
      HashTable.lookup (keyHash w.state) (keyEq w.state)
          (HashTable.run (keyHash w.state) (keyEq w.state) ops) i =
        HashTable.spec w.state.standsFor ops (some (t, x))) ∧
    ((HashTable.run (keyHash w.state) (keyEq w.state) ops).map fun e =>
      w.state.standsFor e.1).Nodup := by
  obtain ⟨a, hsim⟩ := exists_sim h
  have hlawful := hsim.owns.lawful
  have hkeys : ∀ op ∈ ops, op.key ∈ w.held ∧ ∃ t x, Wraps w.state op.key (HashType.object t x) := by
    intro op hop
    obtain ⟨t, x, hmem, hw⟩ := hops op hop
    exact ⟨hmem, t, x, hw⟩
  have hholds := HashTable.run_spec hlawful hkeys
  refine ⟨?_, hholds.nodup⟩
  intro i t x hi
  rw [hholds.lookup_eq hlawful ⟨hi.1, t, x, hi.2⟩, hsim.owns.standsFor_eq hi.1 hi.2]

/-- An entry is found, and replaced, by way of another object. -/
theorem hashes_are_keys_two : ∃ w,
    programs.exec start [⟨.entryBlockHash (List.replicate 32 0x42), []⟩,
      ⟨.entryBlockHash (List.replicate 32 0x42), []⟩] = some w ∧
    HashTable.lookup (keyHash w.state) (keyEq w.state)
      (HashTable.run (keyHash w.state) (keyEq w.state) [.set 1 "a", .set 2 "b"]) 1 = some "b" := by
  have hrun : programs.exec start [⟨.entryBlockHash (List.replicate 32 0x42), []⟩,
      ⟨.entryBlockHash (List.replicate 32 0x42), []⟩] = some _ := rfl
  refine ⟨_, hrun, ?_⟩
  have hheld := mem_held_two
  refine ((hashes_are_keys ⟨_, hrun⟩ ?_).1 1 .blockHash _ ⟨hheld.1, 0, rfl, rfl⟩).trans rfl
  intro op hop
  rcases List.mem_pair.mp hop with rfl | rfl
  · exact ⟨.blockHash, _, hheld.1, 0, rfl, rfl⟩
  · exact ⟨.blockHash, _, hheld.2, 1, rfl, rfl⟩

/-! ## Hashes as texts -/

theorem digit_eq : ∀ n : UInt8, n.toNat < 16 → digit n = Nat.digitChar n.toNat := by
  intro n hn
  have hall : ∀ k < 16, "0123456789abcdef".toList.getD k '\x00' = Nat.digitChar k := by decide
  exact hall _ hn

/-- The loop shows the bytes from the last to the first. -/
theorem hashDigits_eq (hx : x.length = 32) : hashDigits x = Hex.hex x.reverse := by
  have hpair : ∀ b : UInt8, [digit (b >>> 4), digit (b &&& 0x0f)] = Hex.hex02 b.toNat := by
    intro b
    have hb := b.toNat_lt
    have hhi : (b >>> 4).toNat = b.toNat / 16 := by
      rw [UInt8.toNat_shiftRight]
      exact Nat.shiftRight_eq_div_pow b.toNat 4
    have hlo : (b &&& 0x0f).toNat = b.toNat % 16 := Nat.and_two_pow_sub_one_eq_mod b.toNat 4
    rw [Hex.hex02_of_lt hb, digit_eq _ (by omega), digit_eq _ (by omega), hhi, hlo]
  have hrev : x.reverse = (List.range 32).map fun i => x.getD (31 - i) 0 := by
    refine List.ext_getElem (by simp [hx]) ?_
    intro i hi hi'
    rw [List.length_reverse] at hi
    rw [List.getElem_reverse, List.getElem_map, List.getElem_range,
      List.getD_eq_getElem _ _ (by omega)]
    simp [hx]
  unfold hashDigits Hex.hex
  rw [hrev, List.flatMap_map]
  refine congrArg (List.flatMap · _) ?_
  funext i
  exact hpair _

theorem toList_hashHexStr (hx : x.length = 32) : (hashHexStr x).toList = Hex.hex x.reverse := by
  rw [hashHexStr, String.toList_ofList, hashDigits_eq hx]

/-- The representation names the type and shows all digits. -/
theorem hashRepr_inj (hx : x.length = 32) (hy : y.length = 32)
    (h : hashRepr t.name x = hashRepr u.name y) : t = u ∧ x = y := by
  have hlist := congrArg String.toList h
  have hread : ∀ {t : HashType} {x : Bytes}, x.length = 32 → (hashRepr t.name x).toList =
      '<' :: (t.name.toList ++ ' ' :: (Hex.hex x.reverse ++ ['>'])) := by
    intro t x hx
    simp [hashRepr, hashDigits_eq hx]
  have hblank : ∀ t : HashType, ' ' ∉ t.name.toList := by
    intro t
    cases t <;> decide
  rw [hread hx, hread hy, List.cons.injEq] at hlist
  obtain ⟨hname, hdigits⟩ :=
    Delimited.append_cons_inj (hblank t) (hblank u) hlist.2
  refine ⟨?_, ?_⟩
  · cases t <;> cases u <;> first | rfl | exact absurd hname (by decide)
  · exact List.reverse_injective (Hex.hex_inj (List.append_cancel_right hdigits))

/-- **What `hex()` shows can be read back**, and the other way round: it gives 64 lower-case
digits, of which `bytes.fromhex`, turned round, makes the bytes again, and any such digits
are those of some hash. `repr()` tells types and bytes apart. -/
theorem hex_round_trip (h : programs.Reachable w) (hi : w.HoldsHash i t x) (hx : x.length = 32)
    (hj : w.HoldsHash j u y) (hy : y.length = 32) :
    (∃ text, hashHex t i w.state = (.ok text, w.state) ∧ text.length = 64 ∧
      (∀ c ∈ text.toList, c ∈ Hex.lowerDigits) ∧
      (Hex.unhex text.toList).map List.reverse = some x) ∧
    ((hashReprOf t i w.state).1 = (hashReprOf u j w.state).1 ↔ t = u ∧ x = y) ∧
    ∀ text : String, text.length = 64 → (∀ c ∈ text.toList, c ∈ Hex.lowerDigits) →
      ∃ z : Bytes, z.length = 32 ∧ (Hex.unhex text.toList).map List.reverse = some z ∧
        hashHexStr z = text := by
  obtain ⟨a, hsim⟩ := exists_sim h
  have hrepr : ∀ {i t x}, w.HoldsHash i t x →
      hashReprOf t i w.state = (.ok (hashRepr t.name x), w.state) := by
    intro i t x hi
    unfold hashReprOf
    rw [hsim.owns.hash_access hi.1 hi.2]
  refine ⟨⟨hashHexStr x, ?_, ?_, ?_, ?_⟩, ?_, ?_⟩
  · unfold hashHex
    rw [hsim.owns.hash_access hi.1 hi.2]
  · rw [← String.length_toList, toList_hashHexStr hx, Hex.length_hex, List.length_reverse, hx]
  · rw [toList_hashHexStr hx]
    exact fun c hc => Hex.mem_lowerDigits_of_mem_hex hc
  · rw [toList_hashHexStr hx, Hex.unhex_hex, Option.map_some, List.reverse_reverse]
  · rw [hrepr hi, hrepr hj]
    constructor
    · exact fun hsame => hashRepr_inj hx hy (Except.ok.inj hsame)
    · intro hsame
      rw [hsame.1, hsame.2]
  · intro text hlen hlow
    rw [← String.length_toList] at hlen
    obtain ⟨bytes, hbytes, hwritten⟩ := Hex.hex_of_unhex hlow (by omega)
    have hlen' : bytes.reverse.length = 32 := by
      have hdouble := Hex.length_hex bytes
      rw [hwritten] at hdouble
      rw [List.length_reverse]
      omega
    refine ⟨bytes.reverse, hlen', by rw [hbytes, Option.map_some], ?_⟩
    rw [← String.toList_inj, toList_hashHexStr hlen', List.reverse_reverse, hwritten]

/-- The hashes of two blocks. -/
theorem hex_round_trip_two : ∃ w,
    programs.exec start [⟨.entryBlockHash (List.replicate 32 0x42), []⟩,
      ⟨.entryBlockHash (List.replicate 32 0x43), []⟩] = some w ∧
    (hashReprOf .blockHash 1 w.state).1 ≠ (hashReprOf .blockHash 2 w.state).1 := by
  have hrun : programs.exec start [⟨.entryBlockHash (List.replicate 32 0x42), []⟩,
      ⟨.entryBlockHash (List.replicate 32 0x43), []⟩] = some _ := rfl
  refine ⟨_, hrun, ?_⟩
  have hheld := mem_held_two
  intro hsame
  have hdata := ((hex_round_trip (t := .blockHash) (u := .blockHash) ⟨_, hrun⟩
    ⟨hheld.1, 0, rfl, rfl⟩ rfl ⟨hheld.2, 1, rfl, rfl⟩ rfl).2.1.mp hsame).2
  exact absurd hdata (by decide)

end PyBitcoinKernel.Primitives
