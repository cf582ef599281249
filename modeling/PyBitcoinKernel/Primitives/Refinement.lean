import PyBitcoinKernel.Primitives.Shared

/-!
# Wrappers are values

To a program the wrappers are to be values: what an object shows never changes, and a
getter returns the part of the value it is named after. `Values` is that view, with no
kernel objects, no counts and no memory; a reference in it is a number with the value it
stands for. `Explains` says what each operation does to it.

> `programs_refine_values`: whatever a program over the wrappers does and sees, an
> explanation in terms of values does and sees too.

Below it stand the kernel objects:

> `wrappers_own`: at every time the kernel objects not yet destroyed are those of the
> wrappers that the program can reach, one each; none is destroyed twice, by the function
> of another type, or read after that.
-/

namespace PyBitcoinKernel.Primitives

open PyBitcoinKernel.Binding (PyErr PyResult raise asSsize)
open PyBitcoinKernel.Script (Bytes)
open RefGraph (Heap Counted Reach)

/-! ## What the getters read off a value -/

/-- The part of a value that a getter is named after. -/
def Getter.value : (g : Getter) → Data g.kind → PyResult Value
  | .transactionOutputScriptPubkey, o => .ok (.object ⟨.scriptPubkey, o.scriptPubkey⟩)
  | .transactionOutPointTxid, p => .ok (.object ⟨.txid, p.txid⟩)
  | .transactionInputOutPoint, p => .ok (.object ⟨.transactionOutPoint, p⟩)
  | .transactionTxid, t => .ok (.object ⟨.txid, t.txid⟩)
  | .transactionInput index, t =>
    argItemValue .transactionInput t.inputs "input index out of range" index
  | .transactionOutput index, t =>
    argItemValue .transactionOutput t.outputs "output index out of range" index
  | .transactionInputs, t => .ok (partsValue .transactionInput t.inputs)
  | .transactionOutputs, t => .ok (partsValue .transactionOutput t.outputs)
  | .blockHeaderHash, h => .ok (.object ⟨.blockHash, h.hash⟩)
  | .blockHeaderPrevHash, h => .ok (.object ⟨.blockHash, h.prevHash⟩)
  | .blockHash, b => .ok (.object ⟨.blockHash, b.header.hash⟩)
  | .blockHeader, b => .ok (.object ⟨.blockHeader, b.header⟩)
  | .blockItem index, b =>
    itemValue .transaction b.transactions "transaction index out of range" index
  | .coinOutput, c => .ok (.object ⟨.transactionOutput, c.output⟩)
  | .transactionSpentOutputsItem index, l =>
    itemValue .coin l "coin index out of range" index
  | .blockSpentOutputsItem index, l =>
    itemValue .transactionSpentOutputs l "transaction spent outputs index out of range"
      index
  | .txidToBytes, h => .ok (.bytes h)
  | .blockHashToBytes, h => .ok (.bytes h)

def Reader.value : (r : Reader) → Data r.kind → Int
  | .transactionOutputAmount, o => o.amount
  | .transactionOutPointIndex, p => p.index.toNat
  | .transactionNInputs, t => t.inputs.length
  | .transactionNOutputs, t => t.outputs.length
  | .blockHeaderTimestamp, h => h.timestamp.toNat
  | .blockHeaderBits, h => h.bits.toNat
  | .blockHeaderVersion, h => h.version
  | .blockHeaderNonce, h => h.nonce.toNat
  | .blockLength, b => b.transactions.length
  | .blockValidationStateMode, v => v.mode
  | .blockValidationStateResult, v => v.result
  | .coinConfirmationHeight, c => c.confirmationHeight.toNat
  | .coinIsCoinbase, c => c.isCoinbase.toInt
  | .transactionSpentOutputsLength, l => l.length
  | .blockSpentOutputsLength, l => l.length

variable {s t : State} {refs : Multiset Nat} {handles : Multiset (Kind × Nat)}
  {blocks i j n self : Nat}

/-- Every getter returns that part. -/
theorem Owns.get (h : Owns s refs handles blocks) (g : Getter) (hself : self ∈ refs)
    {d : Data g.kind} (hw : Wraps s self ⟨g.kind, d⟩) :
    Returns s refs handles blocks (g.value d) (g.call self s) := by
  cases g with
  | transactionOutputScriptPubkey => exact h.copyView hself hw rfl
  | transactionOutPointTxid => exact h.copyView hself hw rfl
  | transactionInputOutPoint => exact h.copyView hself hw rfl
  | transactionTxid => exact h.copyView hself hw rfl
  | transactionInput index =>
    exact h.getArgItem hself hw .transactionInput Transaction.inputs _ index
  | transactionOutput index =>
    exact h.getArgItem hself hw .transactionOutput Transaction.outputs _ index
  | transactionInputs => exact h.copyAll hself hw .transactionInput Transaction.inputs
  | transactionOutputs => exact h.copyAll hself hw .transactionOutput Transaction.outputs
  | blockHeaderHash => exact h.copyView hself hw rfl
  | blockHeaderPrevHash => exact h.copyView hself hw rfl
  | blockHash => exact h.copyView hself hw rfl
  | blockHeader => exact h.copyView hself hw rfl
  | blockItem index =>
    exact h.getitem hself hw .transaction (fun b : Block => b.transactions) _ index
  | coinOutput => exact h.copyView hself hw rfl
  | transactionSpentOutputsItem index => exact h.getitem hself hw .coin (fun l => l) _ index
  | blockSpentOutputsItem index =>
    exact h.getitem hself hw .transactionSpentOutputs (fun l => l) _ index
  | txidToBytes => exact h.toBytes hself hw fun b => b
  | blockHashToBytes => exact h.toBytes hself hw fun b => b

theorem Owns.processBlockHeader (h : Owns s refs handles blocks) {header : Nat}
    (hheader : header ∈ refs) {d : BlockHeader} (hw : Wraps s header ⟨.blockHeader, d⟩)
    (made : Option BlockValidationState) :
    Returns s refs handles blocks
      (@madeOf .blockValidationState "failed to process block header" made)
      (chainstateManagerProcessBlockHeader header made s) := by
  unfold chainstateManagerProcessBlockHeader
  rw [h.access (f := some) hheader hw rfl]
  exact h.wrapMade .blockValidationState _ made

theorem Owns.readNumber (h : Owns s refs handles blocks) (r : Reader) (hself : self ∈ refs)
    {d : Data r.kind} (hw : Wraps s self ⟨r.kind, d⟩) :
    r.call self s = (.ok (r.value d), s) := by
  cases r <;> exact h.getNumber hself hw _

/-! ## Programs over values -/

/-- The references that Python code and the interpreter hold, each with what it stands for,
and what the program has seen, the latest first. -/
structure Values where
  held : Multiset (Nat × Value)
  seen : List Seen

def Values.Holds (a : Values) (i : Nat) (x : Value) : Prop := (i, x) ∈ a.held

/-- The objects that can be taken out of a value. -/
def Value.parts : Value → List Value
  | .tuple vs => vs
  | .frame stack altstack script tapleafHash => [stack, altstack, script, tapleafHash]
  | _ => []

def Value.isObject : Value → Bool
  | .object _ => true
  | _ => false

/-- How a call ends that is to return `v`: with a reference to it, for a wrapper to a new
one, with the exception that `v` says, or with `MemoryError` if an allocation failed. -/
inductive Values.Gives (a : Values) (memory : List Bool) (v : PyResult Value) : Values → Prop
  | value {i : Nat} {x : Value} : v = .ok x → (x.isObject = true → ∀ y, ¬ a.Holds i y) →
      a.Gives memory v ⟨(i, x) ::ₘ a.held, .reference i :: a.seen⟩
  | raised {e : PyErr} : v = .error e → a.Gives memory v ⟨a.held, .raised e :: a.seen⟩
  | noMemory : false ∈ memory → a.Gives memory v ⟨a.held, .raised noMemory :: a.seen⟩

/-- What a callback leaves: references to what was kept, or nothing if an allocation
failed. -/
inductive Values.Keeps (a : Values) (memory : List Bool) (vs : List Value) : Values → Prop
  | kept {items : List Nat} : items.length = vs.length →
      a.Keeps memory vs
        ⟨(items.zip vs : List (Nat × Value)) + a.held, items.map .reference ++ a.seen⟩
  | noMemory : false ∈ memory → a.Keeps memory vs a

def blockHashValue (b : Bytes) (made : Option Bytes) : PyResult Value :=
  @parsed .blockHash (· = 32) "block hash must be exactly 32 bytes" "failed to create block hash"
    b made

def scriptPubkeyValue (b : Bytes) (made : Option Bytes) : PyResult Value :=
  @parsed .scriptPubkey (fun _ => true) "" "failed to create script pubkey" b made

def transactionValue (b : Bytes) (made : Option Transaction) : PyResult Value :=
  @parsed .transaction (fun _ => true) "" "failed to deserialize transaction" b made

def blockHeaderValue (b : Bytes) (made : Option BlockHeader) : PyResult Value :=
  @parsed .blockHeader (· = 80) "block header must be exactly 80 bytes"
    "failed to deserialize block header" b made

def blockValue (b : Bytes) (made : Option Block) : PyResult Value :=
  @parsed .block (fun _ => true) "" "failed to deserialize block" b made

/-- An output made of a script and an amount. -/
def transactionOutputValue (script : Bytes) (amount : Int) (made : Bool) : PyResult Value :=
  if made then .ok (.object ⟨.transactionOutput, ⟨script, amount⟩⟩)
  else raise .kernelError "failed to create transaction output"

/-- What an operation does to values. -/
inductive Explains (memory : List Bool) (a : Values) : Op → Values → Prop
  | bytes {data : Bytes} {a' : Values} :
      a.Gives memory (.ok (.bytes data)) a' → Explains memory a (.bytes data) a'
  | pack {items : List Nat} {vs : List Value} {a' : Values} : List.Forall₂ a.Holds items vs →
      a.Gives memory (.ok (.tuple vs)) a' → Explains memory a (.pack items) a'
  | follow {i j : Nat} {x y : Value} : a.Holds i x → y ∈ x.parts →
      Explains memory a (.follow i j) ⟨(j, y) ::ₘ a.held, .reference j :: a.seen⟩
  | copy {i : Nat} {x : Value} : a.Holds i x →
      Explains memory a (.copy i) ⟨(i, x) ::ₘ a.held, a.seen⟩
  | drop {i : Nat} {x : Value} {rest : Multiset (Nat × Value)} : a.held = (i, x) ::ₘ rest →
      Explains memory a (.drop i) ⟨rest, a.seen⟩
  | blockHashNew {data : Nat} {b : Bytes} {made : Option Bytes} {a' : Values} :
      a.Holds data (.bytes b) → a.Gives memory (blockHashValue b made) a' →
      Explains memory a (.blockHashNew data made) a'
  | scriptPubkeyNew {data : Nat} {b : Bytes} {made : Option Bytes} {a' : Values} :
      a.Holds data (.bytes b) → a.Gives memory (scriptPubkeyValue b made) a' →
      Explains memory a (.scriptPubkeyNew data made) a'
  | transactionNew {data : Nat} {b : Bytes} {made : Option Transaction} {a' : Values} :
      a.Holds data (.bytes b) → a.Gives memory (transactionValue b made) a' →
      Explains memory a (.transactionNew data made) a'
  | blockHeaderNew {data : Nat} {b : Bytes} {made : Option BlockHeader} {a' : Values} :
      a.Holds data (.bytes b) → a.Gives memory (blockHeaderValue b made) a' →
      Explains memory a (.blockHeaderNew data made) a'
  | blockNew {data : Nat} {b : Bytes} {made : Option Block} {a' : Values} :
      a.Holds data (.bytes b) → a.Gives memory (blockValue b made) a' →
      Explains memory a (.blockNew data made) a'
  | transactionOutputNew {script : Nat} {b : Bytes} {amount : Int} {made : Bool} {a' : Values} :
      a.Holds script (.object ⟨.scriptPubkey, b⟩) →
      a.Gives memory (transactionOutputValue b amount made) a' →
      Explains memory a (.transactionOutputNew script amount made) a'
  | precomputedTransactionDataNew {tx : Nat} {txTo : Transaction} {spent : Nat} {x : Value}
      {made : Bool} {a' : Values} :
      a.Holds tx (.object ⟨.transaction, txTo⟩) → a.Holds spent x →
      a.Gives memory (precomputedValue txTo x made) a' →
      Explains memory a (.precomputedTransactionDataNew tx spent made) a'
  | get {g : Getter} {self : Nat} {d : Data g.kind} {a' : Values} :
      a.Holds self (.object ⟨g.kind, d⟩) → a.Gives memory (g.value d) a' →
      Explains memory a (.get g self) a'
  | read {r : Reader} {self : Nat} {d : Data r.kind} : a.Holds self (.object ⟨r.kind, d⟩) →
      Explains memory a (.read r self) ⟨a.held, .number (r.value d) :: a.seen⟩
  | readBlock {made : Option Block} {a' : Values} :
      a.Gives memory (@madeOf .block "failed to read block from disk" made) a' →
      Explains memory a (.readBlock made) a'
  | readBlockSpentOutputs {made : Option (List (List Coin))} {a' : Values} :
      a.Gives memory
        (@madeOf .blockSpentOutputs "failed to read block spent outputs from disk" made) a' →
      Explains memory a (.readBlockSpentOutputs made) a'
  | processBlockHeader {header : Nat} {d : BlockHeader} {made : Option BlockValidationState}
      {a' : Values} : a.Holds header (.object ⟨.blockHeader, d⟩) →
      a.Gives memory (@madeOf .blockValidationState "failed to process block header" made) a' →
      Explains memory a (.processBlockHeader header made) a'
  | entryBlockHash {hash : Bytes} {a' : Values} :
      a.Gives memory (.ok (.object ⟨.blockHash, hash⟩)) a' →
      Explains memory a (.entryBlockHash hash) a'
  | entryHeader {header : BlockHeader} {a' : Values} :
      a.Gives memory (.ok (.object ⟨.blockHeader, header⟩)) a' →
      Explains memory a (.entryHeader header) a'
  | scriptTrace {f : KFrame} {keeps : Bool} {a' : Values} :
      a.Keeps memory (keptValues [(frameValue f, keeps)]) a' →
      Explains memory a (.scriptTrace f keeps) a'
  | blockChecked {block : Block} {state : BlockValidationState} {keeps : Bool × Bool}
      {a' : Values} :
      a.Keeps memory (keptValues [(.object ⟨.block, block⟩, keeps.1),
        (.object ⟨.blockValidationState, state⟩, keeps.2)]) a' →
      Explains memory a (.blockChecked block state keeps) a'
  | blockEvent {block : Block} {keeps : Bool × Bool} {a' : Values} :
      a.Keeps memory (keptValues [(.object ⟨.block, block⟩, keeps.1), (.blockTreeEntry, keeps.2)])
        a' →
      Explains memory a (.blockEvent block keeps) a'

/-- Before the program runs. -/
def Values.start : Values := ⟨{(pyNone, .none)}, []⟩

/-- An account of a run, operation by operation, that ends with these values. -/
def Account (es : List Event) (a : Values) : Prop :=
  Machine.Follows (fun a (e : Event) a' => Explains e.memory a e.op a') Values.start es a

/-! ## The simulation -/

/-- The world as values: the references are the same, each stands for what its object
shows, and the program has seen the same. -/
structure Abs (w : World) (a : Values) : Prop where
  held : a.held.map Prod.fst = w.held
  shows : ∀ i x, a.Holds i x → Shows w.state i x
  seen : a.seen = w.seen

/-- Between any two steps: nothing is held by a call that has returned, and `None` is there. -/
structure Sim (w : World) (a : Values) : Prop extends Abs w a where
  owns : Owns w.state w.held 0 0
  none : pyNone ∈ w.held
  noneCell : w.state.heap.cell pyNone = .none

variable {w w' : World} {a a' : Values} {x : Value}

theorem Sim.mem_held (h : Sim w a) (hx : a.Holds i x) : i ∈ w.held := by
  rw [← h.held]
  exact Multiset.mem_map_of_mem Prod.fst hx

/-- Every reference stands for a value. -/
theorem Sim.holds (h : Sim w a) (hi : i ∈ w.held) : ∃ x, a.Holds i x := by
  rw [← h.held, Multiset.mem_map] at hi
  obtain ⟨⟨i, x⟩, hmem, rfl⟩ := hi
  exact ⟨x, hmem⟩

/-- Objects keep their content once they are made. -/
structure Older (s t : State) : Prop where
  next : s.heap.next ≤ t.heap.next
  cell : ∀ i < s.heap.next, t.heap.cell i = s.heap.cell i

theorem Older.trans {u : State} (h : Older s t) (h' : Older t u) : Older s u :=
  ⟨h.next.trans h'.next, fun i hi => (h'.cell i (hi.trans_le h.next)).trans (h.cell i hi)⟩

theorem Grows.older (h : Grows s.heap.next s t) : Older s t := ⟨h.next, h.cell⟩

/-- Other references, and a process with the same old objects. -/
theorem Sim.follow (h : Sim w a) (howns : Owns t w'.held 0 0)
    (hg : Grows w.state.heap.next w.state t) (hstate : w'.state = t) (hnone : pyNone ∈ w'.held)
    (hheld : a'.held.map Prod.fst = w'.held) (hseen : a'.seen = w'.seen)
    (hshows : ∀ i y, a'.Holds i y → a.Holds i y ∨ Shows t i y) :
    Sim w' a' ∧ Older w.state w'.state := by
  have hlive : ∀ {i}, i ∈ w.held → i < w.state.heap.next := fun hi =>
    h.owns.counted.bound _ (h.owns.counted.live_of_held hi)
  subst hstate
  refine ⟨⟨⟨hheld, ?_, hseen⟩, howns, hnone, (hg.cell _ (hlive h.none)).trans h.noneCell⟩,
    hg.older⟩
  intro i y hi
  rcases hshows i y hi with hold | hnew
  · have hi := h.mem_held hold
    exact h.owns.shows_grows (h.owns.counted.live_of_held hi) (h.shows i y hold) hg
  · exact hnew

/-- A call that keeps its contract gives what its value says. -/
theorem Sim.returns (h : Sim w a) {v : PyResult Value} {out : PyResult Nat × State}
    (hr : Returns w.state w.held 0 0 v out) :
    ∃ a', a.Gives w.state.memory v a' ∧ Sim (w.returns out) a' ∧
      Older w.state (w.returns out).state := by
  obtain ⟨r, t⟩ := out
  cases r with
  | ok i =>
    obtain ⟨x, hv, hx⟩ := hr.answers
    have hfresh : ∀ y, ¬ a.Holds i y := by
      intro y hy
      have hlt := h.owns.counted.bound i (h.owns.counted.live_of_held (h.mem_held hy))
      exact Nat.lt_irrefl _ (hlt.trans_le (hr.fresh i rfl))
    refine ⟨_, .value hv fun _ => hfresh, h.follow hr.owns hr.grows rfl ?_ ?_ ?_ ?_⟩
    · exact Multiset.mem_add.mpr (Or.inr h.none)
    · simp [World.returns, given, h.held, Multiset.singleton_add]
    · simp [World.returns, seenOf, h.seen]
    · intro j y hj
      rcases Multiset.mem_cons.mp hj with hnew | hold
      · obtain ⟨rfl, rfl⟩ := Prod.mk.inj hnew
        exact Or.inr hx
      · exact Or.inl hold
  | error e =>
    have hstep : Sim (w.returns (.error e, t)) ⟨a.held, .raised e :: a.seen⟩ ∧
        Older w.state t := by
      refine h.follow hr.owns hr.grows rfl ?_ ?_ ?_ fun j y hj => Or.inl hj
      · exact Multiset.mem_add.mpr (Or.inr h.none)
      · simp [World.returns, given, h.held]
      · simp [World.returns, seenOf, h.seen]
    rcases hr.answers with hv | ⟨he, hfail⟩
    · exact ⟨_, .raised hv, hstep⟩
    · subst he
      exact ⟨_, .noMemory hfail, hstep⟩

/-- So does a callback. -/
theorem Sim.keeps (h : Sim w a) {vs : List Value} {out : List Nat × State}
    (hl : Leaves w.state w.held 0 0 vs out) :
    ∃ a', a.Keeps w.state.memory vs a' ∧ Sim (w.keeps out) a' ∧
      Older w.state (w.keeps out).state := by
  obtain ⟨items, t⟩ := out
  have hnone : pyNone ∈ (w.keeps (items, t)).held := Multiset.mem_add.mpr (Or.inr h.none)
  rcases hl.kept with ⟨hnil, hfail⟩ | hkept
  · refine ⟨a, .noMemory hfail, h.follow hl.owns hl.grows rfl hnone ?_ ?_ fun j y hj => Or.inl hj⟩
    · cases hnil
      simp [World.keeps, h.held]
    · cases hnil
      simp [World.keeps, h.seen]
  · have hlen : items.length = vs.length := hkept.length_eq
    refine ⟨_, .kept hlen, h.follow hl.owns hl.grows rfl hnone ?_ ?_ ?_⟩
    · simp [World.keeps, h.held, List.map_fst_zip hlen.le]
    · simp [World.keeps, h.seen]
    · intro j y hj
      rcases Multiset.mem_add.mp hj with hnew | hold
      · exact Or.inr ((List.forall₂_iff_zip.mp hkept).2 (Multiset.mem_coe.mp hnew))
      · exact Or.inl hold

/-- A number leaves everything as it was. -/
theorem Sim.reads (h : Sim w a) {n : Int} {out : PyResult Int × State}
    (hr : out = (.ok n, w.state)) :
    Sim (w.reads out) ⟨a.held, .number n :: a.seen⟩ ∧ Older w.state (w.reads out).state := by
  subst hr
  exact h.follow h.owns (Grows.refl _ _) rfl h.none h.held (congrArg _ h.seen)
    fun j y hj => Or.inl hj

/-- The program takes one more reference. -/
theorem Sim.takes (h : Sim w a) (hlive : w.state.heap.Live i) (hx : Shows w.state i x)
    (news : List Seen) :
    Sim ⟨pyIncref i w.state, i ::ₘ w.held, news ++ w.seen⟩
        ⟨(i, x) ::ₘ a.held, news ++ a.seen⟩ ∧
      Older w.state (pyIncref i w.state) := by
  refine h.follow (h.owns.incref hlive) (grows_incref _ i _) rfl ?_ ?_ ?_ ?_
  · exact Multiset.mem_cons_of_mem h.none
  · simp [h.held]
  · simp [h.seen]
  · intro j y hj
    rcases Multiset.mem_cons.mp hj with hnew | hold
    · obtain ⟨rfl, rfl⟩ := Prod.mk.inj hnew
      exact Or.inr (hx.of_grows fun n => grows_incref n _ _)
    · exact Or.inl hold

/-- A dropped reference is a dropped value, and what is still held shows what it did. -/
theorem Sim.drops (h : Sim w a) (hi : i ∈ w.held.erase pyNone) :
    ∃ x rest, a.held = (i, x) ::ₘ rest ∧
      Sim ⟨pyDecref i w.state, w.held.erase i, w.seen⟩ ⟨rest, a.seen⟩ ∧
      Older w.state (pyDecref i w.state) := by
  have hmem : i ∈ w.held := Multiset.mem_of_mem_erase hi
  obtain ⟨x, hx⟩ := h.holds hmem
  obtain ⟨rest, hrest⟩ := Multiset.exists_cons_of_mem hx
  have hheld : w.held = i ::ₘ rest.map Prod.fst := by
    rw [← h.held, hrest, Multiset.map_cons]
  have howns : Owns w.state (i ::ₘ w.held.erase i) 0 0 := by
    rw [Multiset.cons_erase hmem]
    exact h.owns
  refine ⟨x, rest, hrest, h.follow howns.decref (grows_decref _ i _) rfl ?_ ?_ h.seen ?_⟩
  · -- The interpreter keeps its own reference to `None`.
    by_cases hne : pyNone = i
    · rw [← hne] at hi ⊢
      exact hi
    · exact (Multiset.mem_erase_of_ne hne).mpr h.none
  · simp [hheld]
  · intro j y hj
    refine Or.inl ?_
    show (j, y) ∈ a.held
    rw [hrest]
    exact Multiset.mem_cons_of_mem hj

/-- What a live object refers to shows a part of its value. -/
theorem Shows.part (hx : Shows s i x) (hj : j ∈ (s.heap.cell i).refs) :
    ∃ y ∈ x.parts, Shows s j y := by
  cases hx with
  | tuple hc hlen hitems =>
    rw [hc, mem_tuple_refs, List.mem_map] at hj
    obtain ⟨j, hmem, heq⟩ := hj
    cases heq
    obtain ⟨k, hlt, hk⟩ := List.mem_iff_getElem.mp hmem
    have hy := List.getElem?_eq_getElem (hlen ▸ hlt)
    exact ⟨_, List.mem_of_getElem? hy, hitems k j _ (List.getElem?_eq_some_iff.mpr ⟨hlt, hk⟩) hy⟩
  | frame hc hstack haltstack hscript htapleafHash =>
    rename_i stack altstack script tapleafHash _ _ _ _
    have hrefs : (s.heap.cell i).refs = [stack, altstack, script, tapleafHash] := by
      rw [hc]
      rfl
    have hj : j = stack ∨ j = altstack ∨ j = script ∨ j = tapleafHash := by
      simpa [hrefs] using hj
    rcases hj with rfl | rfl | rfl | rfl
    · exact ⟨_, by simp [Value.parts], hstack⟩
    · exact ⟨_, by simp [Value.parts], haltstack⟩
    · exact ⟨_, by simp [Value.parts], hscript⟩
    · exact ⟨_, by simp [Value.parts], htapleafHash⟩
  | none hc => rw [hc] at hj; cases hj
  | object hc _ => rw [hc] at hj; cases hj
  | blockTreeEntry hc => rw [hc] at hj; cases hj
  | bytes hc => rw [hc] at hj; cases hj

/-- A reference more to each item. -/
theorem Owns.increfs (h : Owns s refs handles blocks) {items : List Nat}
    (hitems : ∀ i ∈ items, i ∈ refs) :
    Owns (items.foldl (fun s i => pyIncref i s) s) (items + refs) handles blocks ∧
      (∀ n, Grows n s (items.foldl (fun s i => pyIncref i s) s)) ∧
      (items.foldl (fun s i => pyIncref i s) s).heap.next = s.heap.next := by
  induction items generalizing s refs with
  | nil => exact ⟨by simpa using h, fun n => Grows.refl n s, rfl⟩
  | cons i items ih =>
    have hi := h.counted.live_of_held (hitems i (List.mem_cons_self ..))
    obtain ⟨howns, hg, hnext⟩ := ih (h.incref hi) fun j hj =>
      Multiset.mem_cons_of_mem (hitems j (List.mem_cons_of_mem i hj))
    refine ⟨?_, fun n => (grows_incref n i s).trans (hg n), hnext⟩
    rw [Multiset.add_cons, ← Multiset.cons_add, Multiset.cons_coe] at howns
    exact howns

/-- A packed tuple shows the values of its items. -/
theorem Owns.packTuple (h : Owns s refs handles blocks) {items : List Nat} {vs : List Value}
    (hitems : List.Forall₂ (fun i x => i ∈ refs ∧ Shows s i x) items vs) :
    Returns s refs handles blocks (.ok (.tuple vs)) (packTuple items s) := by
  unfold Primitives.packTuple
  rcases take_cases s with ⟨rest, htake, hrest, hfail⟩ | ⟨rest, htake, hrest⟩
  · rw [htake]
    have howns : Owns { s with memory := rest } refs handles blocks := h.congr rfl rfl rfl
    exact howns.raisesNoMemory (grows_memory s hrest) hfail
  · rw [htake]
    have hstart : Owns { s with memory := rest } refs handles blocks := h.congr rfl rfl rfl
    have hheld : ∀ i ∈ items, i ∈ refs := by
      intro i hi
      obtain ⟨k, hlt, rfl⟩ := List.mem_iff_getElem.mp hi
      exact ((List.forall₂_iff_get.mp hitems).2 k hlt (hitems.length_eq ▸ hlt)).1
    obtain ⟨howns, hgrows, hnext⟩ := hstart.increfs hheld
    dsimp only
    generalize items.foldl (fun s i => pyIncref i s) { s with memory := rest } = t
      at howns hgrows hnext
    have hg : ∀ n, Grows n s t := fun n => (grows_memory s hrest).trans (hgrows n)
    have hready : Owns t ((Cell.tuple (items.map some)).refs + refs)
        ((Cell.tuple (items.map some)).handles + handles) blocks := by
      have hrefs : (Cell.tuple (items.map some)).refs = items.reverse := by
        simp [Cell.refs, List.reduceOption]
      simpa [hrefs, Cell.handles] using howns
    have hnew := grows_alloc t (.tuple (items.map some)) (List.suffix_refl _)
    rw [show t.heap.next = s.heap.next from hnext] at hnew ⊢
    have hlast := hready.alloc t.memory
    rw [show t.heap.next = s.heap.next from hnext] at hlast
    refine hlast.returnsNew ((hg _).trans hnew) (Shows.tuple ?_ hitems.length_eq ?_)
    · simp [hnext]
    · intro k j x hj hx
      obtain ⟨hlt, hget⟩ := List.getElem?_eq_some_iff.mp hj
      obtain ⟨hlt', hget'⟩ := List.getElem?_eq_some_iff.mp hx
      obtain ⟨hmem, hshows⟩ := (List.forall₂_iff_get.mp hitems).2 k hlt hlt'
      rw [List.get_eq_getElem, hget] at hmem hshows
      rw [List.get_eq_getElem, hget'] at hshows
      exact h.shows_grows (h.counted.live_of_held hmem) hshows ((hg _).trans hnew)

/-! ## One step -/

/-- What the program holds as a wrapper stands for an object of that type. -/
theorem Sim.wrapper (h : Sim w a) {kind : Kind} (hi : w.Holds kind i) :
    ∃ d, a.Holds i (.object ⟨kind, d⟩) ∧ Wraps w.state i ⟨kind, d⟩ := by
  obtain ⟨hmem, hcell⟩ := hi
  obtain ⟨x, hx⟩ := h.holds hmem
  obtain ⟨d, hw⟩ := h.owns.wraps hmem hcell
  obtain ⟨ptr, hc, hobj⟩ := hw
  cases h.shows i x hx with
  | object hc' hobj' =>
    rw [hc] at hc'
    rw [← (Cell.wrapper.inj hc').2, hobj] at hobj'
    cases hobj'
    exact ⟨d, hx, ptr, hc, hobj⟩
  | none hc' => rw [hc] at hc'; cases hc'
  | blockTreeEntry hc' => rw [hc] at hc'; cases hc'
  | bytes hc' => rw [hc] at hc'; cases hc'
  | tuple hc' _ _ => rw [hc] at hc'; cases hc'
  | frame hc' _ _ _ _ => rw [hc] at hc'; cases hc'

theorem Sim.data (h : Sim w a) (hi : w.HoldsBytes i) :
    ∃ b, a.Holds i (.bytes b) ∧ w.state.heap.cell i = .bytes b := by
  obtain ⟨hmem, hcell⟩ := hi
  obtain ⟨x, hx⟩ := h.holds hmem
  cases h.shows i x hx with
  | bytes hc => exact ⟨_, hx, hc⟩
  | none hc => rw [hc] at hcell; cases hcell
  | object hc _ => rw [hc] at hcell; cases hcell
  | blockTreeEntry hc => rw [hc] at hcell; cases hcell
  | tuple hc _ _ => rw [hc] at hcell; cases hcell
  | frame hc _ _ _ _ => rw [hc] at hcell; cases hcell

theorem Sim.items (h : Sim w a) {items : List Nat} (hitems : ∀ i ∈ items, i ∈ w.held) :
    ∃ vs, List.Forall₂ a.Holds items vs := by
  induction items with
  | nil => exact ⟨[], .nil⟩
  | cons i items ih =>
    obtain ⟨x, hx⟩ := h.holds (hitems i (List.mem_cons_self ..))
    obtain ⟨vs, hvs⟩ := ih fun j hj => hitems j (List.mem_cons_of_mem i hj)
    exact ⟨x :: vs, .cons hx hvs⟩

/-- The constructors from bytes. -/
theorem Sim.parses (h : Sim w a) {data : Nat} (hdata : w.HoldsBytes data) (kind : Kind)
    (lengthOk : Nat → Bool) (lengthMsg failMsg : String) (made : Option (Data kind))
    (htaken : ∀ n, lengthOk n = true → lengthTaken kind n = true) :
    ∃ b a', a.Holds data (.bytes b) ∧
      a.Gives w.state.memory (parsed lengthOk lengthMsg failMsg b made) a' ∧
      Sim (w.returns (fromBytes kind lengthOk lengthMsg failMsg data made w.state)) a' ∧
      Older w.state
        (w.returns (fromBytes kind lengthOk lengthMsg failMsg data made w.state)).state := by
  obtain ⟨b, hb, hcell⟩ := h.data hdata
  obtain ⟨a', hgives, hsim⟩ :=
    h.returns (h.owns.fromBytes hdata.1 hcell lengthOk lengthMsg failMsg made (htaken _))
  exact ⟨b, a', hb, hgives, hsim⟩

theorem guarded {p : Prop} [Decidable p] {u : World}
    (h : (if p then some u else none) = some w') : p ∧ w' = u := by
  obtain ⟨hp, hu⟩ := Option.ite_none_right_eq_some.mp h
  exact ⟨hp, (Option.some.inj hu).symm⟩

/-- **What an operation does is what it does to values.** -/
theorem Sim.run (h : Sim w a) {op : Op} (hrun : w.run op = some w') :
    ∃ a', Explains w.state.memory a op a' ∧ Sim w' a' ∧ Older w.state w'.state := by
  cases op with
  | bytes data =>
    cases hrun
    obtain ⟨a', hgives, hsim⟩ := h.returns (h.owns.newBytes data)
    exact ⟨a', .bytes hgives, hsim⟩
  | pack items =>
    obtain ⟨hitems, rfl⟩ := guarded hrun
    obtain ⟨vs, hvs⟩ := h.items hitems
    obtain ⟨a', hgives, hsim⟩ := h.returns
      (h.owns.packTuple (hvs.imp fun i x hx => ⟨h.mem_held hx, h.shows i x hx⟩))
    exact ⟨a', .pack hvs hgives, hsim⟩
  | follow i j =>
    obtain ⟨⟨hi, hj⟩, rfl⟩ := guarded hrun
    obtain ⟨x, hx⟩ := h.holds hi
    obtain ⟨y, hy, hshows⟩ := (h.shows i x hx).part hj
    have hlive := h.owns.counted.live_ref (h.owns.counted.live_of_held hi) hj
    exact ⟨_, .follow hx hy, h.takes hlive hshows [.reference j]⟩
  | copy i =>
    obtain ⟨hi, rfl⟩ := guarded hrun
    obtain ⟨x, hx⟩ := h.holds hi
    have hlive := h.owns.counted.live_of_held hi
    exact ⟨_, .copy hx, h.takes hlive (h.shows i x hx) []⟩
  | drop i =>
    obtain ⟨hi, rfl⟩ := guarded hrun
    obtain ⟨x, rest, hrest, hsim⟩ := h.drops hi
    exact ⟨_, .drop hrest, hsim⟩
  | blockHashNew data made =>
    obtain ⟨hdata, rfl⟩ := guarded hrun
    have htaken : ∀ n, decide (n = 32) = true → lengthTaken .blockHash n = true := by
      simp [lengthTaken]
    obtain ⟨b, a', hb, hgives, hsim⟩ := h.parses hdata .blockHash _ _ _ made htaken
    exact ⟨a', .blockHashNew hb hgives, hsim⟩
  | scriptPubkeyNew data made =>
    obtain ⟨hdata, rfl⟩ := guarded hrun
    obtain ⟨b, a', hb, hgives, hsim⟩ := h.parses hdata .scriptPubkey _ _ _ made fun _ _ => rfl
    exact ⟨a', .scriptPubkeyNew hb hgives, hsim⟩
  | transactionNew data made =>
    obtain ⟨hdata, rfl⟩ := guarded hrun
    obtain ⟨b, a', hb, hgives, hsim⟩ := h.parses hdata .transaction _ _ _ made fun _ _ => rfl
    exact ⟨a', .transactionNew hb hgives, hsim⟩
  | blockHeaderNew data made =>
    obtain ⟨hdata, rfl⟩ := guarded hrun
    obtain ⟨b, a', hb, hgives, hsim⟩ := h.parses hdata .blockHeader _ _ _ made fun _ hn => hn
    exact ⟨a', .blockHeaderNew hb hgives, hsim⟩
  | blockNew data made =>
    obtain ⟨hdata, rfl⟩ := guarded hrun
    obtain ⟨b, a', hb, hgives, hsim⟩ := h.parses hdata .block _ _ _ made fun _ _ => rfl
    exact ⟨a', .blockNew hb hgives, hsim⟩
  | transactionOutputNew script amount made =>
    obtain ⟨hscript, rfl⟩ := guarded hrun
    obtain ⟨b, hb, hw⟩ := h.wrapper hscript
    obtain ⟨a', hgives, hsim⟩ := h.returns
      (h.owns.transactionOutputNew hscript.1 hw amount made)
    exact ⟨a', .transactionOutputNew hb hgives, hsim⟩
  | precomputedTransactionDataNew tx spent made =>
    obtain ⟨⟨htx, hspent, _⟩, rfl⟩ := guarded hrun
    obtain ⟨txTo, hto, hw⟩ := h.wrapper htx
    obtain ⟨x, hx⟩ := h.holds hspent
    obtain ⟨a', hgives, hsim⟩ := h.returns
      (h.owns.precomputedTransactionDataNew htx.1 hw hspent (h.shows spent x hx) made)
    exact ⟨a', .precomputedTransactionDataNew hto hx hgives, hsim⟩
  | get g self =>
    obtain ⟨hself, rfl⟩ := guarded hrun
    obtain ⟨d, hd, hw⟩ := h.wrapper hself
    obtain ⟨a', hgives, hsim⟩ := h.returns (h.owns.get g hself.1 hw)
    exact ⟨a', .get hd hgives, hsim⟩
  | read r self =>
    obtain ⟨hself, rfl⟩ := guarded hrun
    obtain ⟨d, hd, hw⟩ := h.wrapper hself
    exact ⟨_, .read hd, h.reads (h.owns.readNumber r hself.1 hw)⟩
  | readBlock made =>
    cases hrun
    obtain ⟨a', hgives, hsim⟩ := h.returns (h.owns.wrapMade .block _ made)
    exact ⟨a', .readBlock hgives, hsim⟩
  | readBlockSpentOutputs made =>
    cases hrun
    obtain ⟨a', hgives, hsim⟩ := h.returns (h.owns.wrapMade .blockSpentOutputs _ made)
    exact ⟨a', .readBlockSpentOutputs hgives, hsim⟩
  | processBlockHeader header made =>
    obtain ⟨hheader, rfl⟩ := guarded hrun
    obtain ⟨d, hd, hw⟩ := h.wrapper hheader
    obtain ⟨a', hgives, hsim⟩ := h.returns (h.owns.processBlockHeader hheader.1 hw made)
    exact ⟨a', .processBlockHeader hd hgives, hsim⟩
  | entryBlockHash hash =>
    cases hrun
    obtain ⟨a', hgives, hsim⟩ := h.returns (h.owns.createWrap ⟨.blockHash, hash⟩)
    exact ⟨a', .entryBlockHash hgives, hsim⟩
  | entryHeader header =>
    cases hrun
    obtain ⟨a', hgives, hsim⟩ := h.returns (h.owns.createWrap ⟨.blockHeader, header⟩)
    exact ⟨a', .entryHeader hgives, hsim⟩
  | scriptTrace f keeps =>
    cases hrun
    obtain ⟨a', hkeeps, hsim⟩ := h.keeps (h.owns.scriptTraceCb h.none h.noneCell f keeps)
    exact ⟨a', .scriptTrace hkeeps, hsim⟩
  | blockChecked block state keeps =>
    cases hrun
    obtain ⟨a', hkeeps, hsim⟩ := h.keeps (h.owns.viBlockCheckedCb block state keeps)
    exact ⟨a', .blockChecked hkeeps, hsim⟩
  | blockEvent block keeps =>
    cases hrun
    obtain ⟨a', hkeeps, hsim⟩ := h.keeps (h.owns.viBlockEventCb block keeps)
    exact ⟨a', .blockEvent hkeeps, hsim⟩

/-- How allocations will end is no part of the values. -/
theorem Sim.memory (h : Sim w a) (memory : List Bool) :
    Sim { w with state := { w.state with memory := memory } } a := by
  refine ⟨⟨h.held, ?_, h.seen⟩, h.owns.congr rfl rfl rfl, h.none, h.noneCell⟩
  intro i x hx
  exact (h.shows i x hx).congr (fun _ _ => rfl) (List.prefix_refl _)

/-- **One operation**, in the process and in the account of it. -/
theorem Sim.step (h : Sim w a) {e : Event} (hstep : w.step e = some w') :
    ∃ a', Explains e.memory a e.op a' ∧ Sim w' a' ∧ Older w.state w'.state := by
  obtain ⟨a', hexplains, hsim, holder⟩ := (h.memory e.memory).run hstep
  exact ⟨a', hexplains, hsim, holder.next, holder.cell⟩

/-! ## Whole runs -/

theorem sim_start : Sim start Values.start := by
  refine ⟨⟨rfl, ?_, rfl⟩, ⟨⟨?_, ?_, ⟨fun _ => 0, ?_⟩⟩, rfl, rfl, rfl⟩, ?_, rfl⟩
  · intro i x hx
    obtain ⟨rfl, rfl⟩ := Prod.mk.inj (Multiset.mem_singleton.mp hx)
    exact Shows.none rfl
  · intro i hi
    by_cases h0 : i = pyNone
    · subst h0
      exact Nat.one_pos
    · simp [RefGraph.Heap.Live, start, h0] at hi
  · intro i
    have htotal : start.state.heap.total Cell.refs = 0 := by
      refine Multiset.eq_zero_of_forall_notMem ?_
      intro k hk
      obtain ⟨j, _, _, hmem⟩ := RefGraph.mem_total.mp hk
      cases hmem
    rw [htotal, add_zero]
    exact (Multiset.count_singleton i pyNone).symm
  · intro j _ i hi
    cases hi
  · exact Multiset.mem_singleton_self _

/-- An object shows one value. -/
theorem Shows.unique {y : Value} (hx : Shows s i x) (hy : Shows s i y) : x = y := by
  induction hx generalizing y with
  | none hc =>
    cases hy with
    | none => rfl
    | _ => simp_all
  | object hc hobj =>
    cases hy with
    | object hc' hobj' =>
      rw [hc] at hc'
      rw [← (Cell.wrapper.inj hc').2, hobj] at hobj'
      rw [Option.some.inj hobj']
    | _ => simp_all
  | blockTreeEntry hc =>
    cases hy with
    | blockTreeEntry => rfl
    | _ => simp_all
  | bytes hc =>
    cases hy with
    | bytes hc' =>
      rw [hc] at hc'
      rw [Cell.bytes.inj hc']
    | _ => simp_all
  | tuple hc hlen _ ih =>
    cases hy with
    | tuple hc' hlen' hitems' =>
      rw [hc] at hc'
      have hitems := List.map_injective_iff.mpr (Option.some_injective Nat) (Cell.tuple.inj hc')
      subst hitems
      refine congrArg Value.tuple (List.ext_getElem (hlen.symm.trans hlen') ?_)
      intro k hk hk'
      have hj := List.getElem?_eq_getElem (hlen.symm ▸ hk)
      exact ih k _ _ hj (List.getElem?_eq_getElem hk)
        (hitems' k _ _ hj (List.getElem?_eq_getElem hk'))
    | _ => simp_all
  | frame hc _ _ _ _ ihstack ihaltstack ihscript ihtapleafHash =>
    cases hy with
    | frame hc' hstack haltstack hscript htapleafHash =>
      rw [hc] at hc'
      obtain ⟨⟩ := hc'
      rw [ihstack hstack, ihaltstack haltstack, ihscript hscript, ihtapleafHash htapleafHash]
    | _ => simp_all

/-- **Wrappers are values**: there is an account of every run in which objects are values,
the program holds and sees the same, and each reference stands for what its object shows.
A reference never stands for two values. -/
theorem programs_refine_values {es : List Event} {w : World}
    (h : programs.exec start es = some w) :
    ∃ a, Account es a ∧ Abs w a ∧ ∀ i x y, a.Holds i x → a.Holds i y → x = y := by
  have hstep : ∀ w a e w', Sim w a → programs.step w e = some w' →
      ∃ a', Explains e.memory a e.op a' ∧ Sim w' a' := by
    intro w a e w' hsim hw
    obtain ⟨a', hexplains, hsim', _⟩ := hsim.step hw
    exact ⟨a', hexplains, hsim'⟩
  obtain ⟨a, hfollows, hsim⟩ := programs.exec_simulated hstep sim_start h
  refine ⟨a, hfollows, hsim.toAbs, ?_⟩
  intro i x y hx hy
  exact (hsim.shows i x hx).unique (hsim.shows i y hy)

/-- An output is made of a script, and its script is read again after the first one is gone;
the first attempt finds no memory. -/
theorem programs_refine_values_output : ∃ w a,
    Account [⟨.bytes [0x51], []⟩, ⟨.scriptPubkeyNew 1 (some [0x51]), []⟩,
      ⟨.transactionOutputNew 2 5 true, [false]⟩, ⟨.transactionOutputNew 2 5 true, []⟩,
      ⟨.drop 2, []⟩, ⟨.get .transactionOutputScriptPubkey 3, []⟩] a ∧
      Abs w a ∧ ∀ i x y, a.Holds i x → a.Holds i y → x = y :=
  ⟨_, programs_refine_values rfl⟩

end PyBitcoinKernel.Primitives
