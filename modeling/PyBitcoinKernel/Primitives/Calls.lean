import PyBitcoinKernel.Binding.Python
import PyBitcoinKernel.Primitives.Objects

/-!
# The entry points of the data wrappers

The constructors, getters and callbacks of `_bitcoinkernel.c` that make or read the
wrappers of `Objects`. Each takes the process and gives its result, a new reference or the
exception set for `NULL`, with the process after it. Arguments have the types that
`PyArg_ParseTupleAndKeywords` and the method tables let through.

What the kernel makes of its input is up to the kernel: `made` is `none` where it returns
`NULL`, and otherwise what the new object holds.
-/

namespace PyBitcoinKernel.Primitives

open PyBitcoinKernel.Binding (PyErr PyResult raise asSsize)
open PyBitcoinKernel.Script (Bytes)

/-- What a failed allocation leaves set. -/
def noMemory : PyErr := ⟨.memoryError, ""⟩

/-- After a kernel assertion or a read of a destroyed object there is no result; what is
put in its place says nothing. -/
def undefined {α : Type} : PyResult α := raise .systemError ""

/-! ## Wrapper construction -/

/-- The shape of the `*_wrap` helpers, and of what ends a constructor: the wrapper takes
over the kernel object, which is destroyed if there is no memory for the wrapper. -/
def wrap (kind : Kind) (ptr : Nat) (s : State) : PyResult Nat × State :=
  match pyObjectNew (.wrapper kind ptr) s with
  | (none, s) => (.error noMemory, s.destroy kind ptr)
  | (some self, s) => (.ok self, s)

/-- A function that wraps a kernel object, or destroys it. -/
abbrev Wrap := Nat → State → PyResult Nat × State

/-- `Transaction_wrap`; the helpers below differ in the type only. -/
def transactionWrap := wrap .transaction

def scriptPubkeyWrap := wrap .scriptPubkey

def transactionOutputWrap := wrap .transactionOutput

def transactionInputWrap := wrap .transactionInput

def transactionOutPointWrap := wrap .transactionOutPoint

def txidWrap := wrap .txid

def blockHashWrap := wrap .blockHash

def blockHeaderWrap := wrap .blockHeader

def blockWrap := wrap .block

def blockValidationStateWrap := wrap .blockValidationState

def coinWrap := wrap .coin

def transactionSpentOutputsWrap := wrap .transactionSpentOutputs

/-- A new object that owns nothing of the kernel's. -/
def pyNew (c : Cell) (s : State) : PyResult Nat × State :=
  match pyObjectNew c s with
  | (none, s) => (.error noMemory, s)
  | (some i, s) => (.ok i, s)

/-- For the entries that callbacks deliver, which have no owner. -/
def blockTreeEntryWrap := pyNew .blockTreeEntry

/-- A `bytes` object with a copy of the data. -/
def pyBytesFromStringAndSize (b : Bytes) := pyNew (.bytes b)

/-! ## Constructors -/

/-- How many bytes the kernel's functions that parse them take: a hash is read from 32, and
on a header of any other length than 80 the kernel aborts. -/
def lengthTaken : Kind → Nat → Bool
  | .blockHash, n => 32 ≤ n
  | .blockHeader, n => n = 80
  | _, _ => true

/-- The constructors from bytes: take hold of the buffer, check its length, have the kernel
parse it, release the buffer, and wrap what came out. -/
def fromBytes (kind : Kind) (lengthOk : Nat → Bool) (lengthMsg failMsg : String) (data : Nat)
    (made : Option (Data kind)) (s : State) : PyResult Nat × State :=
  match s.heap.cell data with
  | .bytes b =>
    let s := pyIncref data s
    if ¬ lengthOk b.length then (raise .valueError lengthMsg, pyDecref data s)
    else
      let s := s.requires (lengthTaken kind b.length)
      match made with
      | none => (raise .kernelError failMsg, pyDecref data s)
      | some d =>
        let (ptr, s) := s.create ⟨kind, d⟩
        wrap kind ptr (pyDecref data s)
  | _ => (raise .typeError "", s)

/-- `BlockHash(data)`; its length is what the kernel takes. -/
def blockHashNew :=
  fromBytes .blockHash (· = 32) "block hash must be exactly 32 bytes" "failed to create block hash"

/-- `ScriptPubkey(data)`, of any length. -/
def scriptPubkeyNew :=
  fromBytes .scriptPubkey (fun _ => true) "" "failed to create script pubkey"

/-- `Transaction(data)`. -/
def transactionNew :=
  fromBytes .transaction (fun _ => true) "" "failed to deserialize transaction"

/-- `BlockHeader(data)`; the kernel would abort at another length. -/
def blockHeaderNew :=
  fromBytes .blockHeader (· = 80) "block header must be exactly 80 bytes"
    "failed to deserialize block header"

/-- `Block(data)`. -/
def blockNew := fromBytes .block (fun _ => true) "" "failed to deserialize block"

/-- `made`: whether the kernel creates the output. -/
def transactionOutputNew (script : Nat) (amount : Int) (made : Bool) (s : State) :
    PyResult Nat × State :=
  match s.access .scriptPubkey (s.ptr script) some with
  | (none, s) => (undefined, s)
  | (some bytes, s) =>
    if ¬ made then (raise .kernelError "failed to create transaction output", s)
    else
      let (ptr, s) := s.create ⟨.transactionOutput, ⟨bytes, amount⟩⟩
      transactionOutputWrap ptr s

/-- `PySequence_Fast` of a tuple is another reference to it; that of any other object it
can iterate over is a list, which is not modelled (`Cell.isIterable`). -/
def pySequenceFast (o : Nat) (s : State) : Option Nat × State :=
  match s.heap.cell o with
  | .tuple _ => (some o, pyIncref o s)
  | _ => (none, s)

/-- `PySequence_Fast_ITEMS`, of a tuple all of whose slots are set. -/
def sequenceItems (s : State) (seq : Nat) : List Nat :=
  match s.heap.cell seq with
  | .tuple items => items.reduceOption
  | _ => []

/-- The loop over `spent_outputs`: the pointers, unless an item is no `TransactionOutput`. -/
def spentLoop (s : State) : List Nat → Option (List Nat)
  | [] => some []
  | item :: items =>
    match s.heap.cell item with
    | .wrapper .transactionOutput ptr => (spentLoop s items).map (ptr :: ·)
    | _ => none

/-- A kernel function that reads several objects of one type. -/
def accessAll (kind : Kind) : List Nat → State → Option (List (Data kind)) × State
  | [], s => (some [], s)
  | ptr :: ptrs, s =>
    match s.access kind ptr some with
    | (none, s) => (none, s)
    | (some d, s) =>
      match accessAll kind ptrs s with
      | (none, s) => (none, s)
      | (some ds, s) => (some (d :: ds), s)

/-- `btck_precomputed_transaction_data_create`, which aborts where there are outputs but
not one for each input. -/
def precomputedCreate (tx : Nat) (spent : List Nat) (made : Bool) (s : State) :
    Option Nat × State :=
  match s.access .transaction tx some with
  | (none, s) => (none, s)
  | (some txTo, s) =>
    match accessAll .transactionOutput spent s with
    | (none, s) => (none, s)
    | (some outputs, s) =>
      let s := s.requires (outputs.length = 0 ∨ outputs.length = txTo.inputs.length)
      if made then
        let (ptr, s) := s.create ⟨.precomputedTransactionData, ⟨txTo, outputs⟩⟩
        (some ptr, s)
      else (none, s)

/-- From the call of the kernel on. `malloced`: whether `spent` is a block of memory. -/
def precomputedFinish (tx : Nat) (spent : List Nat) (malloced : Bool) (seq : Option Nat)
    (made : Bool) (s : State) : PyResult Nat × State :=
  let (ptr, s) := precomputedCreate (s.ptr tx) spent made s
  let s := if malloced then pyMemFree s else s
  let s := pyXDecref seq s
  match ptr with
  | none => (raise .kernelError ("failed to create precomputed transaction data " ++
      "(spent outputs may not match transaction inputs)"), s)
  | some ptr => wrap .precomputedTransactionData ptr s

/-- From the length of the sequence on: check it against the inputs, collect the pointers. -/
def precomputedFromSequence (tx seq : Nat) (made : Bool) (s : State) : PyResult Nat × State :=
  let items := sequenceItems s seq
  match s.access .transaction (s.ptr tx) fun t => some t.inputs.length with
  | (none, s) => (undefined, s)
  | (some nInputs, s) =>
    if items.length ≠ 0 ∧ items.length ≠ nInputs then
      (raise .valueError ("spent_outputs has " ++ toString items.length ++
        " entries but the transaction has " ++ toString nInputs ++
        " inputs; provide one spent output per input"), pyDecref seq s)
    else if items.length > 0 then
      match pyMemMalloc s with
      | (false, s) => (.error noMemory, pyDecref seq s)
      | (true, s) =>
        match spentLoop s items with
        | none => (raise .typeError "spent_outputs items must be TransactionOutput",
            pyDecref seq (pyMemFree s))
        | some ptrs => precomputedFinish tx ptrs true (some seq) made s
    else precomputedFinish tx [] false (some seq) made s

/-- `PrecomputedTransactionData(tx, spent_outputs=None)`. -/
def precomputedTransactionDataNew (tx spentOutputs : Nat) (made : Bool) (s : State) :
    PyResult Nat × State :=
  match s.heap.cell spentOutputs with
  | .none => precomputedFinish tx [] false none made s
  | _ =>
    match pySequenceFast spentOutputs s with
    | (none, s) => (raise .typeError "spent_outputs must be a sequence or None", s)
    | (some seq, s) => precomputedFromSequence tx seq made s

/-! ## Getters -/

/-- The getters that return a wrapper: read a part of the object, copy it, wrap the copy. -/
def copyView (kind part : Kind) (view : Data kind → Option (Data part)) (wrapPart : Wrap)
    (self : Nat) (s : State) : PyResult Nat × State :=
  match s.access kind (s.ptr self) view with
  | (none, s) => (undefined, s)
  | (some v, s) =>
    let (ptr, s) := s.create ⟨part, v⟩
    wrapPart ptr s

/-- `TransactionOutput.script_pubkey`. -/
def transactionOutputGetScriptPubkey :=
  copyView .transactionOutput .scriptPubkey (fun o => some o.scriptPubkey) scriptPubkeyWrap

/-- `TransactionOutPoint.txid`. -/
def transactionOutPointGetTxid :=
  copyView .transactionOutPoint .txid (fun p => some p.txid) txidWrap

/-- `TransactionInput.out_point`: all that an input here holds. -/
def transactionInputGetOutPoint :=
  copyView .transactionInput .transactionOutPoint some transactionOutPointWrap

/-- `Transaction.txid`. -/
def transactionGetTxid := copyView .transaction .txid (fun t => some t.txid) txidWrap

/-- The kernel computes the hash of a header, here and in `blockGetHash`, into a new object. -/
def blockHeaderGetHash := copyView .blockHeader .blockHash (fun h => some h.hash) blockHashWrap

/-- `BlockHeader.prev_hash`, which is a part of the header. -/
def blockHeaderGetPrevHash :=
  copyView .blockHeader .blockHash (fun h => some h.prevHash) blockHashWrap

def blockGetHash := copyView .block .blockHash (fun b => some b.header.hash) blockHashWrap

def blockGetHeader := copyView .block .blockHeader (fun b => some b.header) blockHeaderWrap

/-- `Coin.output`. -/
def coinGetOutput :=
  copyView .coin .transactionOutput (fun c => some c.output) transactionOutputWrap

/-- The getters with an index: correct a negative one, check the range, and copy. -/
def getitem (kind part : Kind) (items : Data kind → List (Data part)) (wrapPart : Wrap)
    (msg : String) (self : Nat) (index : Int) (s : State) : PyResult Nat × State :=
  match s.access kind (s.ptr self) fun d => some (items d).length with
  | (none, s) => (undefined, s)
  | (some count, s) =>
    let index := if index < 0 then index + count else index
    if index < 0 ∨ index ≥ count then (raise .indexError msg, s)
    else copyView kind part (fun d => (items d)[index.toNat]?) wrapPart self s

/-- `block[index]`. -/
def blockGetitem :=
  getitem .block .transaction (fun b => b.transactions) transactionWrap
    "transaction index out of range"

/-- The coins that one transaction has spent. -/
def transactionSpentOutputsGetitem :=
  getitem .transactionSpentOutputs .coin (fun l => l) coinWrap "coin index out of range"

/-- What a transaction of the block has spent; the coinbase has no entry. -/
def blockSpentOutputsGetitem :=
  getitem .blockSpentOutputs .transactionSpentOutputs (fun l => l) transactionSpentOutputsWrap
    "transaction spent outputs index out of range"

/-- The same as a method, whose argument is any Python integer. -/
def getArgItem (kind part : Kind) (items : Data kind → List (Data part)) (wrapPart : Wrap)
    (msg : String) (self : Nat) (arg : Int) (s : State) : PyResult Nat × State :=
  match asSsize arg with
  | .error e => (.error e, s)
  | .ok index => getitem kind part items wrapPart msg self index s

/-- `Transaction.input(index)`. -/
def transactionGetInput :=
  getArgItem .transaction .transactionInput Transaction.inputs transactionInputWrap
    "input index out of range"

/-- `Transaction.output(index)`. -/
def transactionGetOutput :=
  getArgItem .transaction .transactionOutput Transaction.outputs transactionOutputWrap
    "output index out of range"

/-- The getters that return a number. -/
def getNumber (kind : Kind) (field : Data kind → Int) (self : Nat) (s : State) :
    PyResult Int × State :=
  match s.access kind (s.ptr self) fun d => some (field d) with
  | (none, s) => (undefined, s)
  | (some n, s) => (.ok n, s)

/-- `TransactionOutput.amount`, in satoshis; it may be negative. -/
def transactionOutputGetAmount := getNumber .transactionOutput fun o => o.amount

/-- `TransactionOutPoint.index`. -/
def transactionOutPointGetIndex := getNumber .transactionOutPoint fun p => p.index.toNat

def transactionGetNInputs := getNumber .transaction fun t => t.inputs.length

def transactionGetNOutputs := getNumber .transaction fun t => t.outputs.length

/-- `BlockHeader.timestamp`; `bits`, `version` and `nonce` are the other numbers in it. -/
def blockHeaderGetTimestamp := getNumber .blockHeader fun h => h.timestamp.toNat

def blockHeaderGetBits := getNumber .blockHeader fun h => h.bits.toNat

def blockHeaderGetVersion := getNumber .blockHeader fun h => h.version

def blockHeaderGetNonce := getNumber .blockHeader fun h => h.nonce.toNat

/-- `len(block)`: the number of its transactions. -/
def blockLength := getNumber .block fun b => b.transactions.length

/-- `BlockValidationState.mode`, as a number; so is `result`. -/
def blockValidationStateGetMode := getNumber .blockValidationState fun v => v.mode

def blockValidationStateGetResult := getNumber .blockValidationState fun v => v.result

def coinGetConfirmationHeight := getNumber .coin fun c => c.confirmationHeight.toNat

/-- `Coin.is_coinbase`, as the `int` that a `bool` is. -/
def coinGetIsCoinbase := getNumber .coin fun c => c.isCoinbase.toInt

/-- `len(spent)`: one coin for each input. -/
def transactionSpentOutputsLength := getNumber .transactionSpentOutputs fun l => l.length

def blockSpentOutputsLength := getNumber .blockSpentOutputs fun l => l.length

/-- `Txid_to_bytes` and `BlockHash_to_bytes`. -/
def toBytes (kind : Kind) (bytes : Data kind → Bytes) (self : Nat) (s : State) :
    PyResult Nat × State :=
  match s.access kind (s.ptr self) fun d => some (bytes d) with
  | (none, s) => (undefined, s)
  | (some b, s) => pyBytesFromStringAndSize b s

/-- `Txid.to_bytes()`. -/
def txidToBytes := toBytes .txid fun h => h

def blockHashToBytes := toBytes .blockHash fun h => h

/-! ## Tuples -/

/-- The loop that fills a tuple from the slot `i` on: a failure gives the tuple up. -/
def fillTuple (mk : Nat → State → PyResult Nat × State) (tuple : Nat) :
    Nat → Nat → State → PyResult Nat × State
  | _, 0, s => (.ok tuple, s)
  | i, n + 1, s =>
    match mk i s with
    | (.error e, s) => (.error e, pyDecref tuple s)
    | (.ok item, s) => fillTuple mk tuple (i + 1) n (pyTupleSetItem tuple i item s)

/-- A tuple of so many items, each made by `mk`. -/
def buildTuple (mk : Nat → State → PyResult Nat × State) (n : Nat) (s : State) :
    PyResult Nat × State :=
  match pyTupleNew n s with
  | (none, s) => (.error noMemory, s)
  | (some tuple, s) => fillTuple mk tuple 0 n s

/-- The getters that return all parts of one sort. -/
def copyAll (kind part : Kind) (items : Data kind → List (Data part)) (wrapPart : Wrap)
    (self : Nat) (s : State) : PyResult Nat × State :=
  match s.access kind (s.ptr self) fun d => some (items d).length with
  | (none, s) => (undefined, s)
  | (some count, s) =>
    buildTuple (fun i s => copyView kind part (fun d => (items d)[i]?) wrapPart self s) count s

/-- `Transaction.inputs`: a new tuple of new objects. -/
def transactionGetInputs :=
  copyAll .transaction .transactionInput Transaction.inputs transactionInputWrap

/-- `Transaction.outputs`. -/
def transactionGetOutputs :=
  copyAll .transaction .transactionOutput Transaction.outputs transactionOutputWrap

/-! ## Trace frames -/

/-- The parts of `btck_ScriptTraceFrame` that become Python objects. -/
structure KFrame where
  stackItems : List Bytes
  altstackItems : List Bytes
  script : Bytes
  tapleafHash : Option Bytes
  deriving DecidableEq, Repr

/-- `build_stack_tuple`: a stack as a tuple of `bytes`. -/
def buildStackTuple (items : List Bytes) (s : State) : PyResult Nat × State :=
  buildTuple (fun i s => pyBytesFromStringAndSize (items.getD i []) s) items.length s

/-- `Py_None`, which the interpreter holds a reference to. -/
def pyNone : Nat := 0

/-- The result of a call, `none` for `NULL`. -/
def orNull (r : PyResult Nat) : Option Nat := r.toOption

/-- Write the fields of the frame. -/
def setFrame (self : Nat) (f : ScriptTraceFrame) (s : State) : State :=
  { s with heap := s.heap.set self (.frame f) }

/-- The tapleaf hash of a frame, or `None`. -/
def tapleafObject (hash : Option Bytes) (s : State) : PyResult Nat × State :=
  match hash with
  | some h => pyBytesFromStringAndSize h s
  | none => (.ok pyNone, pyIncref pyNone s)

/-- All four fields are filled before any of them is checked. -/
def scriptTraceFrameFromC (f : KFrame) (s : State) : PyResult Nat × State :=
  match pyObjectNew (.frame ⟨none, none, none, none⟩) s with
  | (none, s) => (.error noMemory, s)
  | (some self, s) =>
    let (stack, s) := buildStackTuple f.stackItems s
    let s := setFrame self ⟨orNull stack, none, none, none⟩ s
    let (altstack, s) := buildStackTuple f.altstackItems s
    let s := setFrame self ⟨orNull stack, orNull altstack, none, none⟩ s
    let (script, s) := pyBytesFromStringAndSize f.script s
    let s := setFrame self ⟨orNull stack, orNull altstack, orNull script, none⟩ s
    let (tapleafHash, s) := tapleafObject f.tapleafHash s
    let s := setFrame self
      ⟨orNull stack, orNull altstack, orNull script, orNull tapleafHash⟩ s
    if (orNull stack).isNone ∨ (orNull altstack).isNone ∨ (orNull script).isNone ∨
        (orNull tapleafHash).isNone then
      (.error noMemory, pyDecref self s)
    else (.ok self, s)

/-! ## Callbacks

They return nothing to the kernel. What is left is the references that the Python code
they call keeps: `keeps` says for each argument whether it does. -/

/-- The references a call of Python code keeps, of the arguments it is given. -/
def callPython : List (Nat × Bool) → State → List Nat × State
  | [], s => ([], s)
  | (_, false) :: args, s => callPython args s
  | (i, true) :: args, s =>
    let (kept, s) := callPython args (pyIncref i s)
    (i :: kept, s)

/-- `script_trace_cb`: a frame that cannot be built is not delivered. -/
def scriptTraceCb (f : KFrame) (keeps : Bool) (s : State) : List Nat × State :=
  match scriptTraceFrameFromC f s with
  | (.error _, s) => ([], s)
  | (.ok frame, s) =>
    let (kept, s) := callPython [(frame, keeps)] s
    (kept, pyDecref frame s)

/-- `PyTuple_Pack(2, a, b)`, with a reference of its own to each item. -/
def pyTuplePack (a b : Nat) (s : State) : Option Nat × State :=
  match s.take with
  | (false, s) => (none, s)
  | (true, s) =>
    let s := pyIncref b (pyIncref a s)
    (some s.heap.next, { s with heap := s.heap.alloc (.tuple [some a, some b]) })

/-- What the two validation callbacks do once they have wrapped the block: call the handler
with both objects, if there is a second one, and give them back. -/
def viCall (block : Nat) (other : Option Nat) (keeps : Bool × Bool) (s : State) :
    List Nat × State :=
  match other with
  | none => ([], pyDecref block s)
  | some other =>
    match pyTuplePack block other s with
    | (none, s) => ([], pyDecref other (pyDecref block s))
    | (some args, s) =>
      let (kept, s) := callPython [(block, keeps.1), (other, keeps.2)] s
      (kept, pyDecref other (pyDecref block (pyDecref args s)))

/-- The shape of the validation callbacks: wrap a copy of the block, then the other object,
then call. -/
def viBlockCb (block : Block) (wrapOther : State → PyResult Nat × State) (keeps : Bool × Bool)
    (s : State) : List Nat × State :=
  let (ptr, s) := s.create ⟨.block, block⟩
  match blockWrap ptr s with
  | (.error _, s) => ([], s)
  | (.ok blockObj, s) =>
    let (other, s) := wrapOther s
    viCall blockObj (orNull other) keeps s

/-- `block` and `state`: what the kernel's objects hold. -/
def viBlockCheckedCb (block : Block) (state : BlockValidationState) :=
  viBlockCb block fun s =>
    let (ptr, s) := s.create ⟨.blockValidationState, state⟩
    blockValidationStateWrap ptr s

/-- `pow_valid_block`, `block_connected` and `block_disconnected`. -/
def viBlockEventCb (block : Block) := viBlockCb block blockTreeEntryWrap

/-! ## Objects a manager or an entry hands out -/

/-- Wrap what a kernel function returned, if it is not `NULL`. -/
def wrapMade (kind : Kind) (wrapIt : Wrap) (failMsg : String) (made : Option (Data kind))
    (s : State) : PyResult Nat × State :=
  match made with
  | none => (raise .kernelError failMsg, s)
  | some d =>
    let (ptr, s) := s.create ⟨kind, d⟩
    wrapIt ptr s

/-- `made`: the block on disk, if the kernel can read it. -/
def chainstateManagerReadBlock := wrapMade .block blockWrap "failed to read block from disk"

/-- There is no helper that wraps this type. -/
def chainstateManagerReadBlockSpentOutputs :=
  wrapMade .blockSpentOutputs (wrap .blockSpentOutputs)
    "failed to read block spent outputs from disk"

/-- `process_block_header`, which reads the header that Python code keeps. -/
def chainstateManagerProcessBlockHeader (header : Nat)
    (made : Option (Data .blockValidationState)) (s : State) : PyResult Nat × State :=
  match s.access .blockHeader (s.ptr header) some with
  | (none, s) => (undefined, s)
  | (some _, s) =>
    wrapMade .blockValidationState blockValidationStateWrap "failed to process block header" made s

/-- `hash`: that of the block the entry is for. -/
def blockTreeEntryGetBlockHash (hash : Bytes) := wrapMade .blockHash blockHashWrap "" (some hash)

/-- `header`: the one of that block. -/
def blockTreeEntryGetHeader (header : BlockHeader) :=
  wrapMade .blockHeader blockHeaderWrap "" (some header)

end PyBitcoinKernel.Primitives
