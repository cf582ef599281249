import PyBitcoinKernel.Primitives.Programs

/-!
# What C code owns

`Owns s refs handles blocks` is the accounting between any two statements: the references
in `refs`, the kernel objects in `handles` and `blocks` blocks of memory are what local
variables and the callers hold; every count is the number of references there are, and
every kernel object ever created is in exactly one place: in `handles`, in a live wrapper
of its type, or among those destroyed by the function of their type.

A step that takes something over loses it from these, a step that hands something out adds
it, and whatever else is there stays: that is the frame, and each lemma holds for all of it.

`Shows s i v` reads the object `i` as a value, with the values of what it refers to, and
`Grows` says that nothing older than the call was written.
-/

namespace PyBitcoinKernel.Primitives

open PyBitcoinKernel.Binding (PyErr PyResult raise)
open PyBitcoinKernel.Script (Bytes)
open RefGraph (Heap Counted Reach)

/-- The objects created, each with its type. -/
def Kernel.created (k : Kernel) : Multiset (Kind × Nat) :=
  ((k.objs.zipIdx.map fun p => (p.1.kind, p.2) : List (Kind × Nat)) : Multiset (Kind × Nat))

/-- The accounts of a process: every reference counted, every kernel object in one place, no
fault so far, and so many blocks of memory. -/
structure Owns (s : State) (refs : Multiset Nat) (handles : Multiset (Kind × Nat))
    (blocks : Nat) : Prop where
  counted : Counted Cell.refs s.heap refs
  ledger : handles + s.heap.total Cell.handles + (s.kernel.destroyed : Multiset (Kind × Nat)) =
    s.kernel.created
  sound : s.kernel.fault = false
  blocks : s.blocks = blocks

/-- Objects older than `n` are not written, the kernel's stay where they are, and
allocations happen in turn. -/
structure Grows (n : Nat) (s s' : State) : Prop where
  next : s.heap.next ≤ s'.heap.next
  cell : ∀ i < n, s'.heap.cell i = s.heap.cell i
  objs : s.kernel.objs <+: s'.kernel.objs
  memory : s'.memory <:+ s.memory

/-- What a Python object is to the program. -/
inductive Value where
  | none
  | object (o : KObj)
  | blockTreeEntry
  | bytes (data : Bytes)
  | tuple (items : List Value)
  | frame (stack altstack script tapleafHash : Value)

/-- The object `i` shows the value `v`. -/
inductive Shows (s : State) : Nat → Value → Prop
  | none {i : Nat} : s.heap.cell i = .none → Shows s i .none
  | object {i ptr : Nat} {o : KObj} : s.heap.cell i = .wrapper o.kind ptr →
      s.kernel.objs[ptr]? = some o → Shows s i (.object o)
  | blockTreeEntry {i : Nat} : s.heap.cell i = .blockTreeEntry → Shows s i .blockTreeEntry
  | bytes {i : Nat} {data : Bytes} : s.heap.cell i = .bytes data → Shows s i (.bytes data)
  | tuple {i : Nat} {items : List Nat} {vs : List Value} :
      s.heap.cell i = .tuple (items.map some) → items.length = vs.length →
      (∀ (k x : Nat) (v : Value), items[k]? = some x → vs[k]? = some v → Shows s x v) →
      Shows s i (.tuple vs)
  | frame {i a b c d : Nat} {va vb vc vd : Value} :
      s.heap.cell i = .frame ⟨some a, some b, some c, some d⟩ →
      Shows s a va → Shows s b vb → Shows s c vc → Shows s d vd → Shows s i (.frame va vb vc vd)

variable {s s' t : State} {refs : Multiset Nat} {handles : Multiset (Kind × Nat)}
  {blocks i j n ptr : Nat} {kind : Kind} {v : Value} {c : Cell}

/-! ## The kernel's record -/

/-- What was created is known by its number and its type. -/
theorem mem_created {k : Kernel} :
    (kind, ptr) ∈ k.created ↔ ∃ d, k.objs[ptr]? = some ⟨kind, d⟩ := by
  unfold Kernel.created
  rw [Multiset.mem_coe, List.mem_map]
  constructor
  · intro h
    obtain ⟨⟨o, k'⟩, hmem, heq⟩ := h
    obtain ⟨rfl, rfl⟩ := Prod.mk.inj heq
    exact ⟨o.data, List.mem_zipIdx_iff_getElem?.mp hmem⟩
  · intro h
    obtain ⟨d, hd⟩ := h
    exact ⟨(⟨kind, d⟩, ptr), List.mem_zipIdx_iff_getElem?.mpr hd, rfl⟩

/-- No object is created twice. -/
theorem nodup_created (k : Kernel) : k.created.Nodup := by
  unfold Kernel.created
  rw [Multiset.coe_nodup]
  refine List.Nodup.of_map Prod.snd ?_
  rw [List.map_map]
  show (k.objs.zipIdx.map Prod.snd).Nodup
  rw [List.zipIdx_map_snd]
  exact List.nodup_range'

/-- A new object is one more. -/
theorem created_create (s : State) (o : KObj) :
    (s.create o).2.kernel.created = (o.kind, (s.create o).1) ::ₘ s.kernel.created := by
  unfold State.create Kernel.created
  rw [List.zipIdx_append, List.map_append, ← Multiset.coe_add, add_comm]
  simp

/-- What is owned has not been destroyed. -/
theorem Owns.read (h : Owns s refs handles blocks)
    (hmem : (kind, ptr) ∈ handles + s.heap.total Cell.handles) :
    ∃ d, s.kernel.objs[ptr]? = some ⟨kind, d⟩ ∧ s.kernel.read kind ptr = some d := by
  have hnodup := nodup_created s.kernel
  rw [← h.ledger] at hnodup
  have hdisj := (Multiset.nodup_add.mp hnodup).2.2
  have hnew : (kind, ptr) ∉ s.kernel.destroyed := fun hno =>
    Multiset.disjoint_left.mp hdisj hmem (Multiset.mem_coe.mpr hno)
  have hin : (kind, ptr) ∈ s.kernel.created := by
    rw [← h.ledger]
    exact Multiset.mem_add.mpr (Or.inl hmem)
  obtain ⟨d, hd⟩ := mem_created.mp hin
  refine ⟨d, hd, ?_⟩
  unfold Kernel.read
  simp [hnew, hd]

/-! ## Reading through a wrapper -/

/-- `i` is a wrapper whose kernel object is `o`. -/
def Wraps (s : State) (i : Nat) (o : KObj) : Prop :=
  ∃ ptr, s.heap.cell i = .wrapper o.kind ptr ∧ s.kernel.objs[ptr]? = some o

/-- The kernel's objects stay where they are. -/
theorem getElem?_extended {α : Type} {l l' : List α} {x : α} (h : l <+: l')
    (hx : l[n]? = some x) : l'[n]? = some x := by
  obtain ⟨r, rfl⟩ := h
  exact (List.getElem?_append_left (List.getElem?_eq_some_iff.mp hx).1).trans hx

/-- A wrapper shows what the kernel object behind it holds. -/
theorem Wraps.shows {o : KObj} (hw : Wraps s i o) : Shows s i (.object o) := by
  obtain ⟨ptr, hcell, hobj⟩ := hw
  exact Shows.object hcell hobj

/-- An older wrapper is still one. -/
theorem Wraps.grows {o : KObj} (hw : Wraps s i o) (hg : Grows n s t) (hi : i < n) :
    Wraps t i o := by
  obtain ⟨ptr, hcell, hobj⟩ := hw
  exact ⟨ptr, (hg.cell i hi).trans hcell, getElem?_extended hg.objs hobj⟩

/-- A live wrapper has an object of its type, which can be read. -/
theorem Owns.live_wrapper (h : Owns s refs handles blocks) (hlive : s.heap.Live i)
    (hcell : s.heap.cell i = .wrapper kind ptr) :
    ∃ d, s.kernel.objs[ptr]? = some ⟨kind, d⟩ ∧ s.kernel.read kind ptr = some d := by
  refine h.read (Multiset.mem_add.mpr (Or.inr (RefGraph.mem_total.mpr ?_)))
  refine ⟨i, h.counted.bound i hlive, hlive, ?_⟩
  rw [hcell]
  exact List.mem_singleton_self _

/-- Behind every wrapper that is held there is a kernel object of its type. -/
theorem Owns.wraps (h : Owns s refs handles blocks) (hi : i ∈ refs)
    (hcell : (s.heap.cell i).isWrapper kind = true) : ∃ d, Wraps s i ⟨kind, d⟩ := by
  cases hc : s.heap.cell i with
  | wrapper kind' ptr =>
    rw [hc] at hcell
    have hkind : kind = kind' := by simpa [Cell.isWrapper] using hcell
    subst hkind
    obtain ⟨d, hd, _⟩ := h.live_wrapper (h.counted.live_of_held hi) hc
    exact ⟨d, ptr, hc, hd⟩
  | _ =>
    rw [hc] at hcell
    cases hcell

/-- What a wrapper that is held reads through its pointer. -/
theorem Owns.access (h : Owns s refs handles blocks) (hi : i ∈ refs) {d : Data kind}
    (hw : Wraps s i ⟨kind, d⟩) {β : Type} {f : Data kind → Option β} {b : β}
    (hf : f d = some b) : s.access kind (s.ptr i) f = (some b, s) := by
  obtain ⟨ptr, hcell, hobj⟩ := hw
  obtain ⟨d', hobj', hread⟩ := h.live_wrapper (h.counted.live_of_held hi) hcell
  have heq : d' = d := by
    rw [hobj'] at hobj
    simpa using hobj
  rw [heq] at hread
  have hptr : s.ptr i = ptr := by
    unfold State.ptr
    rw [hcell]
  unfold State.access
  rw [hptr, hread, Option.bind_some, hf]

/-! ## Values -/

theorem Grows.refl (n : Nat) (s : State) : Grows n s s :=
  ⟨Nat.le_refl _, fun _ _ => rfl, List.prefix_refl _, List.suffix_refl _⟩

theorem Grows.trans (h : Grows n s s') (h' : Grows n s' t) : Grows n s t :=
  ⟨h.next.trans h'.next, fun i hi => (h'.cell i hi).trans (h.cell i hi), h.objs.trans h'.objs,
    h'.memory.trans h.memory⟩

theorem Grows.mono {m : Nat} (h : Grows n s t) (hmn : m ≤ n) : Grows m s t :=
  ⟨h.next, fun i hi => h.cell i (hi.trans_le hmn), h.objs, h.memory⟩

/-- A value depends on the objects that can be reached. -/
theorem Shows.congr (hv : Shows s i v)
    (hcell : ∀ j, Reach Cell.refs s.heap.cell {i} j → t.heap.cell j = s.heap.cell j)
    (hobjs : s.kernel.objs <+: t.kernel.objs) : Shows t i v := by
  have hself : ∀ i, Reach Cell.refs s.heap.cell {i} i := fun i =>
    Reach.held (Multiset.mem_singleton_self i)
  induction hv with
  | none hc => exact Shows.none ((hcell _ (hself _)).trans hc)
  | object hc hobj =>
    exact Shows.object ((hcell _ (hself _)).trans hc) (getElem?_extended hobjs hobj)
  | blockTreeEntry hc => exact Shows.blockTreeEntry ((hcell _ (hself _)).trans hc)
  | bytes hc => exact Shows.bytes ((hcell _ (hself _)).trans hc)
  | tuple hc hlen _ ih =>
    refine Shows.tuple ((hcell _ (hself _)).trans hc) hlen ?_
    intro k x v hx hv
    refine ih k x v hx hv fun j hj => hcell j (hj.through ?_)
    rw [hc]
    simpa [Cell.refs, List.reduceOption] using List.mem_of_getElem? hx
  | frame hc _ _ _ _ iha ihb ihc ihd =>
    refine Shows.frame ((hcell _ (hself _)).trans hc) (iha ?_) (ihb ?_) (ihc ?_) (ihd ?_)
    all_goals
      intro j hj
      refine hcell j (hj.through ?_)
      rw [hc]
      simp [Cell.refs, List.reduceOption]

/-- The value of a live object does not change. -/
theorem Owns.shows_grows (h : Owns s refs handles blocks) (hlive : s.heap.Live i)
    (hv : Shows s i v) (hg : Grows s.heap.next s t) : Shows t i v := by
  refine hv.congr ?_ hg.objs
  intro j hj
  have hjlive : s.heap.Live j := hj.mem_of_closed
    (fun k hk => Multiset.mem_singleton.mp hk ▸ hlive) fun k hk l hl => h.counted.live_ref hk hl
  exact hg.cell j (h.counted.bound j hjlive)

/-! ## Single steps -/

/-- The accounts are about these three parts of the process only. -/
theorem Owns.congr (h : Owns s refs handles blocks) (hheap : t.heap = s.heap)
    (hkernel : t.kernel = s.kernel) (hblocks : t.blocks = s.blocks) :
    Owns t refs handles blocks := by
  refine ⟨?_, ?_, ?_, hblocks.trans h.blocks⟩
  · rw [hheap]
    exact h.counted
  · rw [hheap, hkernel]
    exact h.ledger
  · rw [hkernel]
    exact h.sound

/-- An allocation that fails changes nothing. -/
theorem take_cases (s : State) : (∃ rest, s.take = (false, { s with memory := rest }) ∧
      rest <:+ s.memory ∧ false ∈ s.memory) ∨
    ∃ rest, s.take = (true, { s with memory := rest }) ∧ rest <:+ s.memory := by
  unfold State.take
  split
  next hnil => exact Or.inr ⟨[], by rw [← hnil], by rw [hnil]⟩
  next ok rest hcons =>
    rw [hcons]
    cases ok with
    | false => exact Or.inl ⟨rest, rfl, List.suffix_cons _ _, by simp⟩
    | true => exact Or.inr ⟨rest, rfl, List.suffix_cons _ _⟩

/-- There is memory for a new object or there is none; either way one answer is used up. -/
theorem pyObjectNew_cases (c : Cell) (s : State) :
    (∃ rest, pyObjectNew c s = (none, { s with memory := rest }) ∧
      rest <:+ s.memory ∧ false ∈ s.memory) ∨
    ∃ rest, pyObjectNew c s =
        (some s.heap.next, { s with heap := s.heap.alloc c, memory := rest }) ∧
      rest <:+ s.memory := by
  unfold pyObjectNew
  rcases take_cases s with ⟨rest, htake, hrest⟩ | ⟨rest, htake, hrest⟩
  · exact Or.inl ⟨rest, by rw [htake], hrest⟩
  · exact Or.inr ⟨rest, by rw [htake], hrest⟩

/-- A new object takes over the references and the kernel object in its content. -/
theorem Owns.alloc (h : Owns s (c.refs + refs) (c.handles + handles) blocks) (rest : List Bool) :
    Owns { s with heap := s.heap.alloc c, memory := rest } (s.heap.next ::ₘ refs) handles
      blocks := by
  refine ⟨h.counted.alloc, ?_, h.sound, h.blocks⟩
  show handles + (s.heap.alloc c).total Cell.handles + _ = _
  rw [RefGraph.total_alloc, ← h.ledger, ← add_assoc, add_comm handles]

theorem grows_alloc (s : State) (c : Cell) {rest : List Bool} (hrest : rest <:+ s.memory) :
    Grows s.heap.next s { s with heap := s.heap.alloc c, memory := rest } := by
  refine ⟨Nat.le_succ _, ?_, List.prefix_refl _, hrest⟩
  intro i hi
  show (s.heap.alloc c).cell i = _
  simp [hi.ne]

/-- One more reference to a live object is one more that is owned. -/
theorem Owns.incref (h : Owns s refs handles blocks) (hi : s.heap.Live i) :
    Owns (pyIncref i s) (i ::ₘ refs) handles blocks := by
  refine ⟨h.counted.incref hi, ?_, h.sound, h.blocks⟩
  show handles + (s.heap.incref i).total Cell.handles + _ = _
  rw [RefGraph.total_incref _ hi]
  exact h.ledger

theorem grows_incref (n i : Nat) (s : State) : Grows n s (pyIncref i s) :=
  ⟨Nat.le_refl _, fun _ _ => rfl, List.prefix_refl _, List.suffix_refl _⟩

/-- Whoever has the kernel create an object owns it. -/
theorem Owns.create (h : Owns s refs handles blocks) (o : KObj) :
    Owns (s.create o).2 refs ((o.kind, (s.create o).1) ::ₘ handles) blocks := by
  refine ⟨h.counted, ?_, h.sound, h.blocks⟩
  rw [created_create, ← h.ledger, Multiset.cons_add, Multiset.cons_add]
  rfl

theorem grows_create (n : Nat) (s : State) (o : KObj) : Grows n s (s.create o).2 :=
  ⟨Nat.le_refl _, fun _ _ => rfl, List.prefix_append _ _, List.suffix_refl _⟩

/-- Only an object that is owned is destroyed, and then it no longer is. -/
theorem Owns.destroy (h : Owns s refs ((kind, ptr) ::ₘ handles) blocks) :
    Owns (s.destroy kind ptr) refs handles blocks := by
  refine ⟨h.counted, ?_, h.sound, h.blocks⟩
  rw [show (s.destroy kind ptr).kernel.created = s.kernel.created from rfl, ← h.ledger,
    Multiset.cons_add, Multiset.cons_add, ← Multiset.add_cons]
  rfl

theorem grows_destroy (n : Nat) (s : State) (kind : Kind) (ptr : Nat) :
    Grows n s (s.destroy kind ptr) :=
  ⟨Nat.le_refl _, fun _ _ => rfl, List.prefix_refl _, List.suffix_refl _⟩

/-- Freeing an object destroys the kernel object it owns. -/
theorem tpDealloc_destroyed (k : Kernel) (c : Cell) :
    (tpDealloc k c).objs = k.objs ∧ (tpDealloc k c).fault = k.fault ∧
      (tpDealloc k c).destroyed = c.handles ++ k.destroyed := by
  cases c with
  | wrapper kind ptr =>
    rw [tpDealloc_wrapper]
    exact ⟨rfl, rfl, rfl⟩
  | _ => exact ⟨rfl, rfl, rfl⟩

/-- **Giving a reference back** frees what nothing refers to any more, and destroys what the
freed wrappers own. -/
theorem Owns.decref (h : Owns s (i ::ₘ refs) handles blocks) :
    Owns (pyDecref i s) refs handles blocks := by
  have hrule := h.counted.decref_rule (f := tpDealloc)
    (P := fun heap (k : Kernel) =>
      handles + heap.total Cell.handles + (k.destroyed : Multiset (Kind × Nat)) =
          s.kernel.created ∧ k.created = s.kernel.created ∧ k.fault = false) ?_ ?_
    (x := s.kernel) ⟨h.ledger, rfl, h.sound⟩
  · obtain ⟨hcounted, hledger, hcreated, hsound⟩ := hrule
    exact ⟨hcounted, hledger.trans hcreated.symm, hsound, h.blocks⟩
  · intro heap held j k _ hmany hP
    rw [RefGraph.total_lower _ hmany]
    exact hP
  · intro heap held j k hc hlast hP
    obtain ⟨hledger, hcreated, hsound⟩ := hP
    obtain ⟨hobjs, hfault, hdestroyed⟩ := tpDealloc_destroyed k (heap.cell j)
    have hj : j < heap.next := hc.bound j (RefGraph.live_of_last hlast)
    refine ⟨?_, ?_, hfault.trans hsound⟩
    · rw [RefGraph.total_free Cell.handles hj hlast] at hledger
      rw [hdestroyed, ← Multiset.coe_add, ← hledger, add_assoc, add_assoc,
        add_left_comm ((heap.lower j).total Cell.handles), add_assoc]
    · unfold Kernel.created at hcreated ⊢
      rw [hobjs, hcreated]

/-- Freeing objects takes none of the kernel's off its record. -/
theorem foldl_tpDealloc_objs (cs : List Cell) (k : Kernel) :
    (cs.foldl tpDealloc k).objs = k.objs := by
  induction cs generalizing k with
  | nil => rfl
  | cons c cs ih => rw [List.foldl_cons, ih, (tpDealloc_destroyed k c).1]

theorem grows_decref (n i : Nat) (s : State) : Grows n s (pyDecref i s) := by
  refine ⟨(RefGraph.next_decref s.heap i).ge, ?_, ?_, List.suffix_refl _⟩
  · intro j _
    exact congrFun (RefGraph.cell_decref s.heap i) j
  · show s.kernel.objs <+: (List.foldl tpDealloc s.kernel _).objs
    rw [foldl_tpDealloc_objs]

/-- A block of memory is owned until it is freed. -/
theorem Owns.malloc (h : Owns s refs handles blocks) (rest : List Bool) :
    Owns { s with blocks := s.blocks + 1, memory := rest } refs handles (blocks + 1) :=
  ⟨h.counted, h.ledger, h.sound, congrArg (· + 1) h.blocks⟩

theorem Owns.memFree (h : Owns s refs handles (blocks + 1)) :
    Owns (pyMemFree s) refs handles blocks :=
  ⟨h.counted, h.ledger, h.sound, by rw [pyMemFree, h.blocks, Nat.add_sub_cancel]⟩

end PyBitcoinKernel.Primitives
