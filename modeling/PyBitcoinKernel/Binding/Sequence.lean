import PyBitcoinKernel.Binding.Python

/-!
# Indexing of the sequence types

`Block`, `Chain`, `TransactionSpentOutputs` and `BlockSpentOutputs` fill the
`sq_length` and `sq_item` slots and no `mp_subscript`, so `obj[i]` goes through
the interpreter's `PySequence_GetItem`, which adds the length to a negative
index *before* calling `sq_item` (`sequenceGetItem`). Each `sq_item` then adds
the length to a negative index once more (`getitem`, `chainGetitem`).

For `-n ≤ i` the first correction already made the index non-negative and the
second one is dead. Below `-n` both apply, and

> `sequence_indexing_iff`: `obj[i]` is what a Python list of the same `n`
> elements gives, unless `-2n ≤ i < -n`.

In that window element `i + 2n` comes back where a list raises `IndexError`.
-/

namespace PyBitcoinKernel.Binding

variable {α : Type}

/-! ## The interpreter's side -/

/-- The two slots of a sequence type. -/
structure SequenceMethods (σ α : Type) where
  sqLength : σ → PyResult Int
  sqItem : σ → Int → PyResult α

/-- `PySequence_GetItem`. -/
def sequenceGetItem {σ : Type} (m : SequenceMethods σ α) (o : σ) (i : Int) : PyResult α :=
  if i < 0 then (m.sqLength o).bind fun l => m.sqItem o (i + l)
  else m.sqItem o i

/-- `o[i]` for a Python integer `i`. -/
def subscript {σ : Type} (m : SequenceMethods σ α) (o : σ) (i : Int) : PyResult α :=
  (asSsize i).bind (sequenceGetItem m o)

/-! ## The bindings' side -/

/-- The shape of `sq_item` in the bindings, over the `l.length` elements the
kernel reports: correct a negative index, check the range, fetch. -/
def getitem (l : List α) (msg : String) (index : Int) : PyResult α :=
  let index := if index < 0 then index + l.length else index
  if h : index < 0 ∨ index ≥ l.length then raise .indexError msg
  else .ok (l.get ⟨index.toNat, by omega⟩)

/-- A block: its transactions, as many as a `Py_ssize_t` counts. -/
structure Block (τ : Type) where
  transactions : List τ
  count_lt : transactions.length < 2 ^ 63

/-- The coins one transaction spends. -/
structure TransactionSpentOutputs (κ : Type) where
  coins : List κ
  count_lt : coins.length < 2 ^ 63

/-- The spent outputs of a block's transactions. -/
structure BlockSpentOutputs (κ : Type) where
  transactions : List (TransactionSpentOutputs κ)
  count_lt : transactions.length < 2 ^ 63

/-- A chain view: whether its manager is open, and the entries of the chain,
genesis first; the kernel reports the height as an `int32_t`. -/
structure Chain (ε : Type) where
  managerOpen : Bool
  entries : List ε
  count_le : entries.length ≤ 2 ^ 31

variable {τ κ ε : Type}

def blockLength (self : Block τ) : PyResult Int := .ok self.transactions.length

def blockGetitem (self : Block τ) : Int → PyResult τ :=
  getitem self.transactions "transaction index out of range"

def transactionSpentOutputsLength (self : TransactionSpentOutputs κ) : PyResult Int :=
  .ok self.coins.length

def transactionSpentOutputsGetitem (self : TransactionSpentOutputs κ) : Int → PyResult κ :=
  getitem self.coins "coin index out of range"

def blockSpentOutputsLength (self : BlockSpentOutputs κ) : PyResult Int :=
  .ok self.transactions.length

def blockSpentOutputsGetitem (self : BlockSpentOutputs κ) :
    Int → PyResult (TransactionSpentOutputs κ) :=
  getitem self.transactions "transaction spent outputs index out of range"

/-- `CHECK_VIEW`: the manager the view belongs to is still open. -/
def checkView (managerOpen : Bool) : PyResult Unit :=
  if managerOpen then .ok ()
  else raise .valueError "the chainstate manager this object belongs to is closed"

/-- `btck_chain_get_height`: `-1` for an empty chain. -/
def chainGetHeight (self : Chain ε) : Int := self.entries.length - 1

/-- `btck_chain_get_by_height`: `NULL` outside the chain. -/
def chainGetByHeight (self : Chain ε) (height : Int) : Option ε :=
  if height < 0 then none else self.entries[height.toNat]?

def chainLength (self : Chain ε) : PyResult Int :=
  (checkView self.managerOpen).bind fun _ => .ok (chainGetHeight self + 1)

/-- Unlike the other three, it checks the view and the entry it got. -/
def chainGetitem (self : Chain ε) (index : Int) : PyResult ε :=
  (checkView self.managerOpen).bind fun _ =>
    let count := chainGetHeight self + 1
    let index := if index < 0 then index + count else index
    if index < 0 ∨ index ≥ count then raise .indexError "block height out of range"
    else match chainGetByHeight self (castInt index) with
      | none => raise .indexError "block height out of range"
      | some entry => .ok entry

def blockAsSequence : SequenceMethods (Block τ) τ := ⟨blockLength, blockGetitem⟩

def transactionSpentOutputsAsSequence : SequenceMethods (TransactionSpentOutputs κ) κ :=
  ⟨transactionSpentOutputsLength, transactionSpentOutputsGetitem⟩

def blockSpentOutputsAsSequence :
    SequenceMethods (BlockSpentOutputs κ) (TransactionSpentOutputs κ) :=
  ⟨blockSpentOutputsLength, blockSpentOutputsGetitem⟩

def chainAsSequence : SequenceMethods (Chain ε) ε := ⟨chainLength, chainGetitem⟩

/-! ## Python lists -/

/-- `l[i]` of a Python list, `none` for `IndexError`. -/
def listItem (l : List α) (i : Int) : Option α :=
  if 0 ≤ i then l[i.toNat]?
  else if -l.length ≤ i then l[(i + l.length).toNat]?
  else none

/-- The outcome of a call is the item a list would give, or `IndexError`. -/
def Like : Option α → PyResult α → Prop
  | some x, r => r = .ok x
  | none, r => ∃ msg, r = .error ⟨.indexError, msg⟩

theorem listItem_neg {l : List α} {i : Int} (hlo : -l.length ≤ i) (hneg : i < 0) :
    listItem l i = listItem l (i + l.length) := by
  rw [listItem, if_neg (by omega), if_pos hlo, listItem, if_pos (by omega)]

theorem listItem_none {l : List α} {i : Int} (h : i < -l.length ∨ l.length ≤ i) :
    listItem l i = none := by
  unfold listItem
  split
  · rw [List.getElem?_eq_none_iff]
    omega
  · rw [if_neg (by omega)]

theorem listItem_some {l : List α} {i : Int} (hlo : -l.length ≤ i) (hhi : i < l.length) :
    ∃ x, listItem l i = some x := by
  unfold listItem
  split
  · exact ⟨_, List.getElem?_eq_getElem (by omega)⟩
  · exact ⟨_, List.getElem?_eq_getElem (by omega)⟩

/-! ## Each `sq_item` alone -/

/-- The index after one correction. -/
def corrected (n : Nat) (i : Int) : Int := if i < 0 then i + n else i

theorem listItem_corrected (l : List α) (i : Int) :
    listItem l i
      = if 0 ≤ corrected l.length i then l[(corrected l.length i).toNat]? else none := by
  unfold listItem corrected
  by_cases hneg : i < 0
  · have hiff : (-(l.length : Int) ≤ i) = (0 ≤ i + l.length) := propext (by omega)
    rw [if_neg (by omega), if_pos hneg]
    simp only [hiff]
  · rw [if_pos (by omega), if_neg hneg, if_pos (by omega)]

private theorem if_range_none (l : List α) {k : Int} (h : k < 0 ∨ k ≥ l.length) :
    (if 0 ≤ k then l[k.toNat]? else none) = none := by
  split
  · exact List.getElem?_eq_none (by omega)
  · rfl

/-- The common `sq_item` is list indexing, negative indices included. -/
theorem getitem_like (l : List α) (msg : String) (i : Int) :
    Like (listItem l i) (getitem l msg i) := by
  rw [listItem_corrected]
  show Like _ (if h : corrected l.length i < 0 ∨ corrected l.length i ≥ l.length then _ else _)
  by_cases hout : corrected l.length i < 0 ∨ corrected l.length i ≥ l.length
  · rw [dif_pos hout, if_range_none l hout]
    exact ⟨msg, rfl⟩
  · rw [dif_neg hout, if_pos (by omega), List.getElem?_eq_getElem (by omega)]
    rfl

/-- `Chain`'s `sq_item` is list indexing as long as the manager is open; the
cast to `int` and the check of the entry never matter. -/
theorem chainGetitem_like (self : Chain ε) (hopen : self.managerOpen = true) (i : Int) :
    Like (listItem self.entries i) (chainGetitem self i) := by
  have hcount : chainGetHeight self + 1 = self.entries.length := by
    unfold chainGetHeight
    omega
  have hle := self.count_le
  have hcall : chainGetitem self i
      = if corrected self.entries.length i < 0 ∨
          corrected self.entries.length i ≥ self.entries.length then
        raise .indexError "block height out of range"
      else match chainGetByHeight self (castInt (corrected self.entries.length i)) with
        | none => raise .indexError "block height out of range"
        | some entry => .ok entry := by
    rw [chainGetitem, checkView, if_pos hopen, hcount]
    rfl
  rw [listItem_corrected, hcall]
  by_cases hout : corrected self.entries.length i < 0 ∨
      corrected self.entries.length i ≥ self.entries.length
  · rw [if_pos hout, if_range_none self.entries hout]
    exact ⟨_, rfl⟩
  · -- In range, so the cast is the identity and the kernel has the entry.
    have hcast : castInt (corrected self.entries.length i) = corrected self.entries.length i :=
      castInt_of_fits ⟨by omega, by omega⟩
    have hpos : 0 ≤ corrected self.entries.length i := by omega
    rw [if_neg hout, if_pos hpos, hcast, chainGetByHeight, if_neg (by omega),
      List.getElem?_eq_getElem (by omega)]
    rfl

/-! ## Both layers together -/

/-- Both layers correct the index, and it lands in the range again. -/
def WrapsTwice (n : Nat) (i : Int) : Prop := -2 ^ 63 ≤ i ∧ -2 * (n : Int) ≤ i ∧ i < -n

/-- Where `sq_item` is list indexing, the interpreter's own correction spoils
it exactly in the window below `-n`. -/
theorem subscript_like_iff {σ : Type} {m : SequenceMethods σ α} {o : σ} {l : List α}
    (hlen : m.sqLength o = .ok l.length) (hitem : ∀ i, Like (listItem l i) (m.sqItem o i))
    (hl : l.length < 2 ^ 63) (i : Int) :
    Like (listItem l i) (subscript m o i) ↔ ¬ WrapsTwice l.length i := by
  unfold WrapsTwice
  by_cases hfit : FitsSigned 63 i
  · have hsub : subscript m o i = sequenceGetItem m o i := by
      rw [subscript, asSsize, if_pos hfit]
      rfl
    rw [hsub, sequenceGetItem]
    by_cases hneg : i < 0
    · rw [if_pos hneg, hlen]
      show Like (listItem l i) (m.sqItem o (i + l.length)) ↔ _
      have hcall := hitem (i + l.length)
      by_cases hlo : -(l.length : Int) ≤ i
      · rw [listItem_neg hlo hneg]
        exact iff_of_true hcall (by omega)
      · rw [listItem_none (Or.inl (by omega))]
        by_cases hwrap : -2 * (l.length : Int) ≤ i
        · -- The second correction brings the index back into the range.
          obtain ⟨x, hx⟩ := listItem_some (l := l) (i := i + l.length) (by omega) (by omega)
          rw [hx] at hcall
          refine iff_of_false ?_ (fun hno => hno ⟨hfit.1, hwrap, by omega⟩)
          intro hlike
          obtain ⟨msg, herr⟩ := hlike
          rw [show m.sqItem o (i + l.length) = .ok x from hcall] at herr
          exact absurd herr (by simp)
        · rw [listItem_none (Or.inl (by omega))] at hcall
          exact iff_of_true hcall (fun hno => hwrap hno.2.1)
    · rw [if_neg hneg]
      exact iff_of_true (hitem i) (by omega)
  · -- Beyond a `Py_ssize_t` the interpreter itself raises `IndexError`.
    have hsub : ∃ msg, subscript m o i = .error ⟨.indexError, msg⟩ := by
      rw [subscript, asSsize, if_neg hfit]
      exact ⟨_, rfl⟩
    have hout : i < -(l.length : Int) ∨ (l.length : Int) ≤ i := by
      unfold FitsSigned at hfit
      omega
    rw [listItem_none hout]
    exact iff_of_true hsub (fun hno => hfit ⟨hno.1, by omega⟩)

/-- **Exactly where indexing agrees with Python lists**, for all four types:
everywhere but in the window where a negative index is corrected twice. -/
theorem sequence_indexing_iff (i : Int) :
    (∀ b : Block τ,
      Like (listItem b.transactions i) (subscript blockAsSequence b i)
        ↔ ¬ WrapsTwice b.transactions.length i) ∧
    (∀ c : Chain ε, c.managerOpen = true →
      (Like (listItem c.entries i) (subscript chainAsSequence c i)
        ↔ ¬ WrapsTwice c.entries.length i)) ∧
    (∀ t : TransactionSpentOutputs κ,
      Like (listItem t.coins i) (subscript transactionSpentOutputsAsSequence t i)
        ↔ ¬ WrapsTwice t.coins.length i) ∧
    (∀ b : BlockSpentOutputs κ,
      Like (listItem b.transactions i) (subscript blockSpentOutputsAsSequence b i)
        ↔ ¬ WrapsTwice b.transactions.length i) := by
  refine ⟨fun b => ?_, fun c hopen => ?_, fun t => ?_, fun b => ?_⟩
  · exact subscript_like_iff rfl (getitem_like _ _) b.count_lt i
  · have hlen : chainAsSequence.sqLength c = .ok c.entries.length := by
      show chainLength c = _
      rw [chainLength, checkView, if_pos hopen, chainGetHeight]
      exact congrArg Except.ok (by omega)
    exact subscript_like_iff hlen (chainGetitem_like c hopen)
      (Nat.lt_of_le_of_lt c.count_le (by decide)) i
  · exact subscript_like_iff rfl (getitem_like _ _) t.count_lt i
  · exact subscript_like_iff rfl (getitem_like _ _) b.count_lt i

/-- The tip of an open two-entry chain is `chain[-1]`. -/
theorem chain_minus_one :
    Like (listItem [10, 20] (-1)) (subscript chainAsSequence ⟨true, [10, 20], by decide⟩ (-1)) :=
  ((@sequence_indexing_iff Nat Nat Nat (-1)).2.1 ⟨true, [10, 20], by decide⟩ rfl).mpr (by
    unfold WrapsTwice
    decide)

/-- Two transactions, index `-3`: the second one comes back. -/
theorem block_minus_three :
    subscript blockAsSequence (⟨[10, 20], by decide⟩ : Block Nat) (-3) = .ok 20 ∧
    ¬ Like (listItem [10, 20] (-3))
      (subscript blockAsSequence (⟨[10, 20], by decide⟩ : Block Nat) (-3)) := by
  have hcall : subscript blockAsSequence (⟨[10, 20], by decide⟩ : Block Nat) (-3) = .ok 20 := rfl
  refine ⟨hcall, ?_⟩
  rw [hcall]
  intro hlike
  obtain ⟨msg, herr⟩ := hlike
  exact absurd herr (by simp)

end PyBitcoinKernel.Binding
