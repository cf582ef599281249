import PyBitcoinKernel.Binding.Sequence
import PyBitcoinKernel.Primitives.Ownership

/-!
# What each entry point returns

`Returns s refs handles blocks v out` is the contract of a C function called in `s` that is
to return the value `v`: whatever else is owned, it ends with one more reference, to a new
object that shows `v`, or with the exception that `v` says, or, if an allocation fails, with
`MemoryError` and nothing gained.
-/

namespace PyBitcoinKernel.Primitives

open PyBitcoinKernel.Binding (PyErr PyResult raise asSsize)
open PyBitcoinKernel.Script (Bytes)
open RefGraph (Heap Counted Reach)

/-- What a call gives answers for the value: a new reference to an object that shows it, the
very exception, or `MemoryError` where an allocation has failed. -/
def Answers (s : State) (v : PyResult Value) (out : PyResult Nat × State) : Prop :=
  match out.1 with
  | .ok i => ∃ x, v = .ok x ∧ Shows out.2 i x
  | .error e => v = .error e ∨ e = noMemory ∧ false ∈ s.memory

/-- A call keeps the accounts, but for the reference it returns, and writes nothing that was
there before. -/
structure Returns (s : State) (refs : Multiset Nat) (handles : Multiset (Kind × Nat))
    (blocks : Nat) (v : PyResult Value) (out : PyResult Nat × State) : Prop where
  owns : Owns out.2 (given out.1 + refs) handles blocks
  grows : Grows s.heap.next s out.2
  answers : Answers s v out
  fresh : ∀ i, out.1 = .ok i → s.heap.next ≤ i

variable {s s' t : State} {refs : Multiset Nat} {handles : Multiset (Kind × Nat)}
  {blocks i j n ptr self : Nat} {kind part : Kind} {v : PyResult Value} {x : Value} {c : Cell}
  {out : PyResult Nat × State} {o : KObj}

/-- Steps before the call only use up allocations. -/
theorem Answers.after (h : Answers t v out) (hmemory : t.memory <:+ s.memory) :
    Answers s v out := by
  unfold Answers at h ⊢
  split
  next hi =>
    rw [hi] at h
    exact h
  next he =>
    rw [he] at h
    exact h.imp_right fun hno => ⟨hno.1, hmemory.subset hno.2⟩

/-- What happened before the call that returns. -/
theorem Returns.after (h : Returns t refs handles blocks v out) (hg : Grows s.heap.next s t) :
    Returns s refs handles blocks v out := by
  refine ⟨h.owns, hg.trans (h.grows.mono hg.next), h.answers.after hg.memory, ?_⟩
  intro i hi
  exact hg.next.trans (h.fresh i hi)

/-- An exception that the value says. -/
theorem Owns.raises (h : Owns s refs handles blocks) (e : PyErr) :
    Returns s refs handles blocks (.error e) (.error e, s) :=
  ⟨by simpa [given] using h, Grows.refl _ s, Or.inl rfl, fun _ hi => by cases hi⟩

/-- Giving up where an allocation fails is always an answer. -/
theorem Owns.raisesNoMemory (h : Owns t refs handles blocks) (hg : Grows s.heap.next s t)
    (hfail : false ∈ s.memory) : Returns s refs handles blocks v (.error noMemory, t) :=
  ⟨by simpa [given] using h, hg, Or.inr ⟨rfl, hfail⟩, fun _ hi => by cases hi⟩

/-- So is the object made last, if it shows the value. -/
theorem Owns.returnsNew (h : Owns t (s.heap.next ::ₘ refs) handles blocks)
    (hg : Grows s.heap.next s t) (hx : Shows t s.heap.next x) :
    Returns s refs handles blocks (.ok x) (.ok s.heap.next, t) :=
  ⟨by simpa [given, Multiset.singleton_add] using h, hg, ⟨x, rfl, hx⟩,
    fun _ hi => (Except.ok.inj hi).le⟩

/-- An allocation that fails writes nothing. -/
theorem grows_memory (s : State) {rest : List Bool} (hrest : rest <:+ s.memory) :
    Grows n s { s with memory := rest } :=
  ⟨Nat.le_refl _, fun _ _ => rfl, List.prefix_refl _, hrest⟩

/-! ## Wrappers -/

/-- The helpers take over the kernel object, whatever happens. -/
theorem Owns.wrap (h : Owns s refs ((o.kind, ptr) ::ₘ handles) blocks)
    (hobj : s.kernel.objs[ptr]? = some o) :
    Returns s refs handles blocks (.ok (.object o)) (wrap o.kind ptr s) := by
  unfold Primitives.wrap
  rcases pyObjectNew_cases (.wrapper o.kind ptr) s with
    ⟨rest, hnew, hrest, hfail⟩ | ⟨rest, hnew, hrest⟩
  · rw [hnew]
    have howns : Owns { s with memory := rest } refs ((o.kind, ptr) ::ₘ handles) blocks :=
      h.congr rfl rfl rfl
    exact howns.destroy.raisesNoMemory ((grows_memory s hrest).trans (grows_destroy _ _ _ _)) hfail
  · rw [hnew]
    have hready : Owns s ((Cell.wrapper o.kind ptr).refs + refs)
        ((Cell.wrapper o.kind ptr).handles + handles) blocks := by
      simpa [Cell.refs, Cell.handles, Multiset.singleton_add] using h
    have hcell : (s.heap.alloc (.wrapper o.kind ptr)).cell s.heap.next = .wrapper o.kind ptr := by
      simp
    exact (hready.alloc rest).returnsNew (grows_alloc s _ hrest) (Shows.object hcell hobj)

/-- A new kernel object, wrapped. -/
theorem Owns.createWrap (h : Owns s refs handles blocks) (o : KObj) :
    Returns s refs handles blocks (.ok (.object o))
      (Primitives.wrap o.kind (s.create o).1 (s.create o).2) := by
  have hobj : (s.create o).2.kernel.objs[(s.create o).1]? = some o := by
    unfold State.create
    simp
  exact ((h.create o).wrap hobj).after (grows_create _ s o)

/-- The getters that return a wrapper. -/
theorem Owns.copyView (h : Owns s refs handles blocks) (hself : self ∈ refs) {d : Data kind}
    (hw : Wraps s self ⟨kind, d⟩) {view : Data kind → Option (Data part)} {p : Data part}
    (hview : view d = some p) :
    Returns s refs handles blocks (.ok (.object ⟨part, p⟩))
      (copyView kind part view (Primitives.wrap part) self s) := by
  unfold Primitives.copyView
  rw [h.access hself hw hview]
  exact h.createWrap ⟨part, p⟩

/-- A part at an index, as the sequence model has it. -/
def itemValue (part : Kind) (items : List (Data part)) (msg : String) (index : Int) :
    PyResult Value :=
  (Binding.getitem items msg index).map fun p => .object ⟨part, p⟩

/-- The same for a method, which converts its argument first. -/
def argItemValue (part : Kind) (items : List (Data part)) (msg : String) (arg : Int) :
    PyResult Value :=
  (asSsize arg).bind (itemValue part items msg)

/-- The getters with an index. -/
theorem Owns.getitem (h : Owns s refs handles blocks) (hself : self ∈ refs) {d : Data kind}
    (hw : Wraps s self ⟨kind, d⟩) (part : Kind) (items : Data kind → List (Data part))
    (msg : String) (index : Int) :
    Returns s refs handles blocks (itemValue part (items d) msg index)
      (getitem kind part items (Primitives.wrap part) msg self index s) := by
  unfold Primitives.getitem itemValue Binding.getitem
  rw [h.access (f := fun d => some (items d).length) hself hw rfl]
  dsimp only
  by_cases hout : (if index < 0 then index + (items d).length else index) < 0 ∨
      (if index < 0 then index + (items d).length else index) ≥ (items d).length
  · rw [dif_pos hout, if_pos hout]
    exact h.raises _
  · rw [dif_neg hout, if_neg hout]
    refine h.copyView hself hw ?_
    exact List.getElem?_eq_getElem (by omega)

/-- The getters that are methods with an index. -/
theorem Owns.getArgItem (h : Owns s refs handles blocks) (hself : self ∈ refs) {d : Data kind}
    (hw : Wraps s self ⟨kind, d⟩) (part : Kind) (items : Data kind → List (Data part))
    (msg : String) (arg : Int) :
    Returns s refs handles blocks (argItemValue part (items d) msg arg)
      (getArgItem kind part items (Primitives.wrap part) msg self arg s) := by
  unfold Primitives.getArgItem argItemValue
  cases asSsize arg with
  | error e => exact h.raises e
  | ok index => exact h.getitem hself hw part items msg index

/-- An object that refers to nothing and owns nothing. -/
theorem Owns.pyNew (h : Owns s refs handles blocks) (hrefs : c.refs = [])
    (hhandles : c.handles = [])
    (hshows : ∀ t : State, t.heap.cell s.heap.next = c → Shows t s.heap.next x) :
    Returns s refs handles blocks (.ok x) (pyNew c s) := by
  unfold Primitives.pyNew
  rcases pyObjectNew_cases c s with ⟨rest, hnew, hrest, hfail⟩ | ⟨rest, hnew, hrest⟩
  · rw [hnew]
    have howns : Owns { s with memory := rest } refs handles blocks := h.congr rfl rfl rfl
    exact howns.raisesNoMemory (grows_memory s hrest) hfail
  · rw [hnew]
    have hready : Owns s (c.refs + refs) (c.handles + handles) blocks := by
      simpa [hrefs, hhandles] using h
    exact (hready.alloc rest).returnsNew (grows_alloc s _ hrest) (hshows _ (by simp))

/-- An entry owns nothing: only its object is new. -/
theorem Owns.blockTreeEntryWrap (h : Owns s refs handles blocks) :
    Returns s refs handles blocks (.ok .blockTreeEntry) (blockTreeEntryWrap s) :=
  h.pyNew rfl rfl fun _ hcell => Shows.blockTreeEntry hcell

theorem Owns.newBytes (h : Owns s refs handles blocks) (b : Bytes) :
    Returns s refs handles blocks (.ok (.bytes b)) (pyBytesFromStringAndSize b s) :=
  h.pyNew rfl rfl fun _ hcell => Shows.bytes hcell

/-- The bytes of a hash, copied. -/
theorem Owns.toBytes (h : Owns s refs handles blocks) (hself : self ∈ refs) {d : Data kind}
    (hw : Wraps s self ⟨kind, d⟩) (bytes : Data kind → Bytes) :
    Returns s refs handles blocks (.ok (.bytes (bytes d))) (toBytes kind bytes self s) := by
  unfold Primitives.toBytes
  rw [h.access (f := fun d => some (bytes d)) hself hw rfl]
  exact h.newBytes (bytes d)

/-- A number is read off the object, and the process stays as it is. -/
theorem Owns.getNumber (h : Owns s refs handles blocks) (hself : self ∈ refs) {d : Data kind}
    (hw : Wraps s self ⟨kind, d⟩) (field : Data kind → Int) :
    getNumber kind field self s = (.ok (field d), s) := by
  unfold Primitives.getNumber
  rw [h.access (f := fun d => some (field d)) hself hw rfl]

/-! ## Constructors -/

/-- What the constructors from bytes return, given what the kernel makes of the bytes. -/
def madeOf (failMsg : String) (made : Option (Data kind)) : PyResult Value :=
  match made with
  | none => raise .kernelError failMsg
  | some d => .ok (.object ⟨kind, d⟩)

/-- The constructors from bytes look at the length before the kernel sees the bytes. -/
def parsed (lengthOk : Nat → Bool) (lengthMsg failMsg : String) (b : Bytes)
    (made : Option (Data kind)) : PyResult Value :=
  if lengthOk b.length then madeOf failMsg made else raise .valueError lengthMsg

/-- An object that the kernel has made is wrapped; without one there is an exception. -/
theorem Owns.wrapMade (h : Owns s refs handles blocks) (kind : Kind) (failMsg : String)
    (made : Option (Data kind)) :
    Returns s refs handles blocks (madeOf failMsg made)
      (wrapMade kind (Primitives.wrap kind) failMsg made s) := by
  cases made with
  | none => exact h.raises _
  | some d => exact h.createWrap ⟨kind, d⟩

/-- The constructors from bytes give the buffer back on every path. -/
theorem Owns.fromBytes (h : Owns s refs handles blocks) {data : Nat} (hdata : data ∈ refs)
    {b : Bytes} (hcell : s.heap.cell data = .bytes b) (lengthOk : Nat → Bool)
    (lengthMsg failMsg : String) (made : Option (Data kind))
    (htaken : lengthOk b.length = true → lengthTaken kind b.length = true) :
    Returns s refs handles blocks (parsed lengthOk lengthMsg failMsg b made)
      (fromBytes kind lengthOk lengthMsg failMsg data made s) := by
  have hbuf := h.incref (h.counted.live_of_held hdata)
  have hgrows : ∀ n, Grows n s (pyDecref data (pyIncref data s)) := fun n =>
    (grows_incref n data s).trans (grows_decref n data _)
  unfold Primitives.fromBytes parsed
  rw [hcell]
  dsimp only
  by_cases hlen : lengthOk b.length = true
  · rw [if_neg (not_not_intro hlen), if_pos hlen, htaken hlen, State.requires_true]
    cases made with
    | none => exact (hbuf.decref.raises _).after (hgrows _)
    | some d =>
      have hmade := hbuf.create ⟨kind, d⟩
      have hobj : (pyDecref data ((pyIncref data s).create ⟨kind, d⟩).2).kernel.objs[
          ((pyIncref data s).create ⟨kind, d⟩).1]? = some ⟨kind, d⟩ := by
        refine getElem?_extended (grows_decref 0 data _).objs ?_
        unfold State.create
        simp
      refine (hmade.decref.wrap hobj).after ?_
      exact ((grows_incref _ data s).trans (grows_create _ _ _)).trans (grows_decref _ data _)
  · rw [if_pos hlen, if_neg hlen]
    exact (hbuf.decref.raises _).after (hgrows _)

/-- An output is made of a script that stays with its owner. -/
theorem Owns.transactionOutputNew (h : Owns s refs handles blocks) {script : Nat}
    (hscript : script ∈ refs) {b : Bytes} (hw : Wraps s script ⟨.scriptPubkey, b⟩) (amount : Int)
    (made : Bool) :
    Returns s refs handles blocks
      (if made then .ok (.object ⟨.transactionOutput, ⟨b, amount⟩⟩)
        else raise .kernelError "failed to create transaction output")
      (transactionOutputNew script amount made s) := by
  unfold Primitives.transactionOutputNew
  rw [h.access (f := some) hscript hw rfl]
  cases made with
  | false => exact h.raises _
  | true => exact h.createWrap ⟨.transactionOutput, ⟨b, amount⟩⟩

end PyBitcoinKernel.Primitives
