import PyBitcoinKernel.Primitives.Containers

/-!
# Calls that share objects with Python code

`PrecomputedTransactionData` holds on to the sequence of spent outputs while the kernel
reads them, and gives it and its own array back on every way out. The callbacks hand their
objects to Python code, which may keep them, and give their own references back.
-/

namespace PyBitcoinKernel.Primitives

open PyBitcoinKernel.Binding (PyErr PyResult raise)
open PyBitcoinKernel.Script (Bytes)
open RefGraph (Heap Counted Reach)

variable {s t : State} {refs : Multiset Nat} {handles : Multiset (Kind × Nat)}
  {blocks i j n : Nat} {kind : Kind} {x : Value}

/-! ## The spent outputs -/

def asOutput : Value → Option TransactionOutput
  | .object ⟨.transactionOutput, o⟩ => some o
  | _ => none

/-- What is there behind the pointers of the array. -/
def Behind (s : State) (ptr : Nat) (o : TransactionOutput) : Prop :=
  s.kernel.read .transactionOutput ptr = some o

theorem asOutput_of_shows (hv : Shows s i x) :
    (∃ ptr o, s.heap.cell i = .wrapper .transactionOutput ptr ∧ asOutput x = some o ∧
      s.kernel.objs[ptr]? = some ⟨.transactionOutput, o⟩) ∨
    (∀ ptr, s.heap.cell i ≠ .wrapper .transactionOutput ptr) ∧ asOutput x = none := by
  cases hv with
  | object hc hobj =>
    rename_i ptr o
    obtain ⟨kind, d⟩ := o
    by_cases hkind : kind = .transactionOutput
    · subst hkind
      exact Or.inl ⟨ptr, d, hc, rfl, hobj⟩
    · refine Or.inr ⟨?_, ?_⟩
      · intro p hp
        rw [hc] at hp
        exact hkind (Cell.wrapper.inj hp).1
      · cases kind <;> first | rfl | exact absurd rfl hkind
  | none hc => exact Or.inr ⟨fun p hp => (by rw [hc] at hp; cases hp), rfl⟩
  | blockTreeEntry hc => exact Or.inr ⟨fun p hp => (by rw [hc] at hp; cases hp), rfl⟩
  | bytes hc => exact Or.inr ⟨fun p hp => (by rw [hc] at hp; cases hp), rfl⟩
  | tuple hc _ _ => exact Or.inr ⟨fun p hp => (by rw [hc] at hp; cases hp), rfl⟩
  | frame hc _ _ _ _ => exact Or.inr ⟨fun p hp => (by rw [hc] at hp; cases hp), rfl⟩

/-- The loop finds the pointers of the outputs that the items show, or an item that shows
something else. -/
theorem Owns.spentLoop (h : Owns s refs handles blocks) {items : List Nat} {vs : List Value}
    (hitems : List.Forall₂ (fun i v => s.heap.Live i ∧ Shows s i v) items vs) :
    (∃ ptrs outs, spentLoop s items = some ptrs ∧ vs.mapM asOutput = some outs ∧
      List.Forall₂ (Behind s) ptrs outs ∧ outs.length = vs.length) ∨
    spentLoop s items = none ∧ vs.mapM asOutput = none := by
  induction hitems with
  | nil => exact Or.inl ⟨[], [], rfl, rfl, List.Forall₂.nil, rfl⟩
  | cons hhead htail ih =>
    obtain ⟨hlive, hv⟩ := hhead
    rw [Primitives.spentLoop, List.mapM_cons]
    rcases asOutput_of_shows hv with ⟨ptr, o, hcell, hout, hobj⟩ | ⟨hcell, hout⟩
    · obtain ⟨d, hd, hread⟩ := h.live_wrapper hlive hcell
      have hdo : d = o := by
        rw [hd] at hobj
        simpa using hobj
      rw [hcell, hout]
      rcases ih with ⟨ptrs, outs, hptrs, houts, hbehind, hlen⟩ | ⟨hptrs, houts⟩
      · refine Or.inl ⟨ptr :: ptrs, o :: outs, ?_, ?_, ?_, ?_⟩
        · simp [hptrs]
        · simp [houts]
        · exact List.Forall₂.cons (hdo ▸ hread) hbehind
        · simp [hlen]
      · refine Or.inr ⟨?_, ?_⟩
        · simp [hptrs]
        · simp [houts]
    · refine Or.inr ⟨?_, ?_⟩
      · split
        next ptr hptr => exact absurd hptr (hcell ptr)
        next => rfl
      · rw [hout]
        rfl

theorem accessAll_eq {ptrs : List Nat} {outs : List TransactionOutput}
    (h : List.Forall₂ (Behind s) ptrs outs) :
    accessAll .transactionOutput ptrs s = (some outs, s) := by
  induction h with
  | nil => rfl
  | cons hhead _ ih =>
    have haccess : ∀ ptr (o : TransactionOutput), Behind s ptr o →
        s.access .transactionOutput ptr some = (some o, s) := by
      intro ptr o ho
      unfold State.access
      rw [ho]
      rfl
    rw [accessAll, haccess _ _ hhead]
    dsimp only
    rw [ih]

/-! ## `PrecomputedTransactionData` -/

def precomputedMade (txTo : Transaction) (outs : List TransactionOutput) (made : Bool) :
    PyResult Value :=
  if made then .ok (.object ⟨.precomputedTransactionData, ⟨txTo, outs⟩⟩)
  else raise .kernelError ("failed to create precomputed transaction data " ++
    "(spent outputs may not match transaction inputs)")

/-- The references that the call has to the sequence. -/
def seqRefs : Option Nat → Multiset Nat
  | none => 0
  | some seq => {seq}

/-- The value of the constructor, given what the items of the sequence show. -/
def precomputedFromValues (txTo : Transaction) (vs : List Value) (made : Bool) :
    PyResult Value :=
  if vs.length ≠ 0 ∧ vs.length ≠ txTo.inputs.length then
    raise .valueError ("spent_outputs has " ++ toString vs.length ++
      " entries but the transaction has " ++ toString txTo.inputs.length ++
      " inputs; provide one spent output per input")
  else match vs.mapM asOutput with
    | none => raise .typeError "spent_outputs items must be TransactionOutput"
    | some outs => precomputedMade txTo outs made

def precomputedValue (txTo : Transaction) (spent : Value) (made : Bool) : PyResult Value :=
  match spent with
  | .none => precomputedMade txTo [] made
  | .tuple vs => precomputedFromValues txTo vs made
  | _ => raise .typeError "spent_outputs must be a sequence or None"

theorem grows_blocks (s : State) (m : Nat) {rest : List Bool} (hrest : rest <:+ s.memory) :
    Grows n s { s with blocks := m, memory := rest } :=
  ⟨Nat.le_refl _, fun _ _ => rfl, List.prefix_refl _, hrest⟩

theorem grows_memFree (n : Nat) (s : State) : Grows n s (pyMemFree s) :=
  grows_blocks s _ (List.suffix_refl _)

/-- What is left to give back once the kernel has returned. -/
theorem Owns.giveBack {seq : Option Nat} {malloced : Bool}
    (h : Owns s (seqRefs seq + refs) handles (if malloced then blocks + 1 else blocks)) :
    Owns (pyXDecref seq (if malloced then pyMemFree s else s)) refs handles blocks ∧
      ∀ n, Grows n s (pyXDecref seq (if malloced then pyMemFree s else s)) := by
  have hfree : Owns (if malloced then pyMemFree s else s) (seqRefs seq + refs) handles blocks := by
    cases malloced with
    | false => exact h
    | true => exact h.memFree
  have hgrows : ∀ n, Grows n s (if malloced then pyMemFree s else s) := by
    intro n
    cases malloced with
    | false => exact Grows.refl n s
    | true => exact grows_memFree n s
  cases seq with
  | none => exact ⟨by simpa [seqRefs, pyXDecref] using hfree, hgrows⟩
  | some seq =>
    refine ⟨Owns.decref ?_, fun n => (hgrows n).trans (grows_decref n seq _)⟩
    simpa [seqRefs, Multiset.singleton_add] using hfree

/-- From the call of the kernel on, everything is given back. -/
theorem Owns.precomputedFinish {tx : Nat} {txTo : Transaction} {seq : Option Nat}
    {malloced made : Bool}
    (h : Owns s (seqRefs seq + refs) handles (if malloced then blocks + 1 else blocks))
    (htx : tx ∈ refs) (hw : Wraps s tx ⟨.transaction, txTo⟩) {ptrs : List Nat}
    {outs : List TransactionOutput} (hbehind : List.Forall₂ (Behind s) ptrs outs)
    (hcount : outs.length = 0 ∨ outs.length = txTo.inputs.length) :
    Returns s refs handles blocks (precomputedMade txTo outs made)
      (precomputedFinish tx ptrs malloced seq made s) := by
  unfold Primitives.precomputedFinish Primitives.precomputedCreate precomputedMade
  rw [h.access (f := some) (Multiset.mem_add.mpr (Or.inr htx)) hw rfl]
  dsimp only
  rw [accessAll_eq hbehind]
  dsimp only
  rw [decide_eq_true hcount, State.requires_true]
  cases made with
  | false =>
    obtain ⟨howns, hgrows⟩ := h.giveBack
    exact (howns.raises _).after (hgrows _)
  | true =>
    have hmade := h.create ⟨.precomputedTransactionData, ⟨txTo, outs⟩⟩
    obtain ⟨howns, hgrows⟩ := hmade.giveBack
    refine (howns.wrap (getElem?_extended (hgrows 0).objs ?_)).after
      ((grows_create _ s _).trans (hgrows _))
    unfold State.create
    simp

/-- With the sequence in hand: the check, the array and its loop. -/
theorem Owns.precomputedFromSequence {tx seq : Nat} {txTo : Transaction}
    (h : Owns s (seq ::ₘ refs) handles blocks) (htx : tx ∈ refs)
    (hw : Wraps s tx ⟨.transaction, txTo⟩) {vs : List Value} (hshows : Shows s seq (.tuple vs))
    (made : Bool) :
    Returns s refs handles blocks (precomputedFromValues txTo vs made)
      (precomputedFromSequence tx seq made s) := by
  have hlive : s.heap.Live seq := h.counted.live_of_held (Multiset.mem_cons_self _ _)
  have htxlive : tx < s.heap.next :=
    h.counted.bound tx (h.counted.live_of_held (Multiset.mem_cons_of_mem htx))
  cases hshows with
  | tuple hc hlen hshown =>
  rename_i items
  have hitems : sequenceItems s seq = items := by
    unfold sequenceItems
    rw [hc]
    simp [List.reduceOption]
  have hall : List.Forall₂ (fun i v => s.heap.Live i ∧ Shows s i v) items vs := by
    refine List.forall₂_iff_get.mpr ⟨hlen, ?_⟩
    intro k hk hk'
    refine ⟨h.counted.live_ref hlive ?_, ?_⟩
    · rw [hc]
      exact mem_tuple_refs.mpr (List.mem_map_of_mem (List.get_mem items ⟨k, hk⟩))
    · exact hshown k _ _ (List.getElem?_eq_getElem hk) (List.getElem?_eq_getElem hk')
  unfold Primitives.precomputedFromSequence precomputedFromValues
  rw [hitems, h.access (f := fun t : Transaction => some t.inputs.length)
    (Multiset.mem_cons_of_mem htx) hw rfl]
  dsimp only
  rw [hlen]
  by_cases hcount : vs.length ≠ 0 ∧ vs.length ≠ txTo.inputs.length
  · rw [if_pos hcount, if_pos hcount]
    exact (h.decref.raises _).after (grows_decref _ _ _)
  rw [if_neg hcount, if_neg hcount]
  by_cases hpos : vs.length > 0
  · rw [if_pos hpos]
    unfold pyMemMalloc
    rcases take_cases s with ⟨rest, htake, hrest, hfail⟩ | ⟨rest, htake, hrest⟩
    · rw [htake]
      have howns : Owns { s with memory := rest } (seq ::ₘ refs) handles blocks :=
        h.congr rfl rfl rfl
      exact howns.decref.raisesNoMemory ((grows_memory s hrest).trans (grows_decref _ _ _)) hfail
    rw [htake]
    have howns := h.malloc rest
    have hg : ∀ n, Grows n s { s with blocks := s.blocks + 1, memory := rest } := fun n =>
      grows_blocks s _ hrest
    have hsame : List.Forall₂ (fun i v => s.heap.Live i ∧
        Shows { s with blocks := s.blocks + 1, memory := rest } i v) items vs :=
      hall.imp fun i v hi => ⟨hi.1, hi.2.congr (fun _ _ => rfl) (List.prefix_refl _)⟩
    dsimp only
    rcases howns.spentLoop hsame with ⟨ptrs, outs, hptrs, houts, hbehind, hout⟩ |
      ⟨hptrs, houts⟩
    · rw [hptrs, houts]
      have hmatch : outs.length = 0 ∨ outs.length = txTo.inputs.length := by omega
      have hready : Owns { s with blocks := s.blocks + 1, memory := rest }
          (seqRefs (some seq) + refs) handles (if true then blocks + 1 else blocks) := by
        simpa [seqRefs, Multiset.singleton_add] using howns
      exact (hready.precomputedFinish htx (hw.grows (hg _) htxlive) hbehind hmatch).after (hg _)
    · rw [hptrs, houts]
      exact (howns.memFree.decref.raises _).after
        (((hg _).trans (grows_memFree _ _)).trans (grows_decref _ _ _))
  · rw [if_neg hpos]
    have hnil : vs = [] := List.eq_nil_of_length_eq_zero (by omega)
    subst hnil
    have hready : Owns s (seqRefs (some seq) + refs) handles
        (if false then blocks + 1 else blocks) := by
      simpa [seqRefs, Multiset.singleton_add] using h
    exact hready.precomputedFinish htx hw List.Forall₂.nil (Or.inl rfl)

/-- **The constructor** gives the sequence and its array back on every way out. -/
theorem Owns.precomputedTransactionDataNew (h : Owns s refs handles blocks) {tx : Nat}
    {txTo : Transaction} (htx : tx ∈ refs) (hw : Wraps s tx ⟨.transaction, txTo⟩)
    {spent : Nat} (hspent : spent ∈ refs) (hshows : Shows s spent x) (made : Bool) :
    Returns s refs handles blocks (precomputedValue txTo x made)
      (precomputedTransactionDataNew tx spent made s) := by
  unfold Primitives.precomputedTransactionDataNew pySequenceFast precomputedValue
  cases hshows with
  | none hc =>
    rw [hc]
    have hready : Owns s (seqRefs none + refs) handles (if false then blocks + 1 else blocks) := by
      simpa [seqRefs] using h
    exact hready.precomputedFinish htx hw List.Forall₂.nil (Or.inl rfl)
  | tuple hc hlen hshown =>
    rw [hc]
    have hseq := h.incref (h.counted.live_of_held hspent)
    have hvalue : Shows (pyIncref spent s) spent _ := Shows.congr (Shows.tuple hc hlen hshown)
      (fun _ _ => rfl) (List.prefix_refl _)
    exact (hseq.precomputedFromSequence htx hw hvalue made).after (grows_incref _ spent s)
  | object hc _ => rw [hc]; exact h.raises _
  | blockTreeEntry hc => rw [hc]; exact h.raises _
  | bytes hc => rw [hc]; exact h.raises _
  | frame hc _ _ _ _ => rw [hc]; exact h.raises _

/-! ## Callbacks -/

/-- The values of the arguments that are kept. -/
def keptValues (vs : List (Value × Bool)) : List Value := (vs.filter Prod.snd).map Prod.fst

/-- The contract of a callback: its own references are given back, and what the Python code
kept shows the values that were offered; or there was no memory to call it. -/
structure Leaves (s : State) (refs : Multiset Nat) (handles : Multiset (Kind × Nat))
    (blocks : Nat) (vs : List Value) (out : List Nat × State) : Prop where
  owns : Owns out.2 (out.1 + refs) handles blocks
  grows : Grows s.heap.next s out.2
  kept : out.1 = [] ∧ false ∈ s.memory ∨ List.Forall₂ (Shows out.2) out.1 vs

theorem Owns.leavesNothing (h : Owns t refs handles blocks) (hg : Grows s.heap.next s t)
    (hfail : false ∈ s.memory) {vs : List Value} : Leaves s refs handles blocks vs ([], t) :=
  ⟨by simpa using h, hg, Or.inl ⟨rfl, hfail⟩⟩

theorem Shows.of_grows (hv : Shows s i x) (hg : ∀ n, Grows n s t) : Shows t i x :=
  hv.congr (fun j _ => (hg (j + 1)).cell j (Nat.lt_succ_self j)) (hg 0).objs

/-- Python code takes a reference to each argument it keeps. -/
theorem Owns.callPython {args : List (Nat × Bool)} {vs : List (Value × Bool)}
    (hargs : List.Forall₂ (fun a v => a.1 ∈ refs ∧ Shows s a.1 v.1 ∧ a.2 = v.2) args vs)
    (h : Owns s refs handles blocks) :
    Owns (callPython args s).2 ((callPython args s).1 + refs) handles blocks ∧
      (∀ n, Grows n s (callPython args s).2) ∧
      List.Forall₂ (Shows (callPython args s).2) (callPython args s).1 (keptValues vs) := by
  induction args generalizing vs s refs with
  | nil =>
    cases hargs
    exact ⟨by simpa [Primitives.callPython] using h, fun n => Grows.refl n s, .nil⟩
  | cons a args ih =>
    cases hargs with
    | cons hhead htail =>
    rename_i v vs
    obtain ⟨i, keep⟩ := a
    obtain ⟨x, keep'⟩ := v
    obtain ⟨hi, hx, hkeep⟩ := hhead
    dsimp only at hi hx hkeep
    subst hkeep
    cases keep with
    | false =>
      have hrest := ih htail h
      exact hrest
    | true =>
      have hg : ∀ n, Grows n s (pyIncref i s) := fun n => grows_incref n i s
      have htail' : List.Forall₂ (fun a v => a.1 ∈ i ::ₘ refs ∧ Shows (pyIncref i s) a.1 v.1 ∧
          a.2 = v.2) args vs :=
        htail.imp fun a v ha => ⟨Multiset.mem_cons_of_mem ha.1, ha.2.1.of_grows hg, ha.2.2⟩
      obtain ⟨howns, hgrows, hshows⟩ := ih htail' (h.incref (h.counted.live_of_held hi))
      rw [Primitives.callPython]
      generalize Primitives.callPython args (pyIncref i s) = out at howns hgrows hshows
      obtain ⟨kept, s'⟩ := out
      refine ⟨?_, fun n => (hg n).trans (hgrows n), ?_⟩
      · rw [Multiset.add_cons, ← Multiset.cons_add, Multiset.cons_coe] at howns
        exact howns
      · exact List.Forall₂.cons ((hx.of_grows hg).of_grows hgrows) hshows

theorem Owns.scriptTraceCb (h : Owns s refs handles blocks) (hnone : pyNone ∈ refs)
    (hcell : s.heap.cell pyNone = .none) (f : KFrame) (keeps : Bool) :
    Leaves s refs handles blocks (keptValues [(frameValue f, keeps)])
      (scriptTraceCb f keeps s) := by
  have hframe := h.scriptTraceFrameFromC hnone hcell f
  unfold Primitives.scriptTraceCb
  generalize Primitives.scriptTraceFrameFromC f s = out at hframe
  obtain ⟨r, s₁⟩ := out
  cases r with
  | error e =>
    rcases hframe.answers with hno | ⟨_, hfail⟩
    · cases hno
    · exact Owns.leavesNothing (by simpa [given] using hframe.owns) hframe.grows hfail
  | ok frame =>
    obtain ⟨y, hy, hshows⟩ := hframe.answers
    cases hy
    have howns : Owns s₁ (frame ::ₘ refs) handles blocks := hframe.owns
    have hargs : List.Forall₂ (fun a v => a.1 ∈ frame ::ₘ refs ∧ Shows s₁ a.1 v.1 ∧ a.2 = v.2)
        [(frame, keeps)] [(frameValue f, keeps)] :=
      .cons ⟨Multiset.mem_cons_self _ _, hshows, rfl⟩ .nil
    obtain ⟨hcall, hgrows, hkept⟩ := howns.callPython hargs
    rw [Multiset.add_cons] at hcall
    refine ⟨hcall.decref, ?_, Or.inr ?_⟩
    · exact (hframe.grows.trans (hgrows _)).trans (grows_decref _ _ _)
    · exact hkept.imp fun i x hi => hi.of_grows fun n => grows_decref n frame _

/-- `PyTuple_Pack` adds references of its own. -/
theorem Owns.tuplePack (h : Owns s refs handles blocks) (hi : i ∈ refs) (hj : j ∈ refs) :
    (∃ rest, pyTuplePack i j s = (none, { s with memory := rest }) ∧ rest <:+ s.memory ∧
      false ∈ s.memory) ∨
    ∃ t, pyTuplePack i j s = (some s.heap.next, t) ∧ Grows s.heap.next s t ∧
      Owns t (s.heap.next ::ₘ refs) handles blocks := by
  unfold pyTuplePack
  rcases take_cases s with ⟨rest, htake, hrest⟩ | ⟨rest, htake, hrest⟩
  · exact Or.inl ⟨rest, by rw [htake], hrest⟩
  · rw [htake]
    have howns : Owns { s with memory := rest } refs handles blocks := h.congr rfl rfl rfl
    have h₁ := howns.incref (howns.counted.live_of_held hi)
    have h₂ := h₁.incref (h₁.counted.live_of_held (Multiset.mem_cons_of_mem hj))
    have hg : Grows s.heap.next s (pyIncref j (pyIncref i { s with memory := rest })) :=
      ((grows_memory s hrest).trans (grows_incref _ i _)).trans (grows_incref _ j _)
    have hnew := grows_alloc (pyIncref j (pyIncref i { s with memory := rest }))
      (.tuple [some i, some j]) (List.suffix_refl _)
    refine Or.inr ⟨_, rfl, hg.trans hnew, Owns.alloc (c := .tuple [some i, some j]) ?_ rest⟩
    show Owns _ (j ::ₘ i ::ₘ 0 + refs) (0 + handles) blocks
    rw [Multiset.cons_add, Multiset.cons_add, zero_add, zero_add]
    exact h₂

/-- The end of the two validation callbacks. -/
theorem Owns.viCall {block other : Nat} {vb vo : Value}
    (h : Owns s (other ::ₘ block ::ₘ refs) handles blocks) (hb : Shows s block vb)
    (ho : Shows s other vo) (keeps : Bool × Bool) :
    Leaves s refs handles blocks (keptValues [(vb, keeps.1), (vo, keeps.2)])
      (viCall block (some other) keeps s) := by
  have hblock : block ∈ other ::ₘ block ::ₘ refs := by simp
  have hother : other ∈ other ::ₘ block ::ₘ refs := by simp
  have hlive := fun {i} (hi : i ∈ other ::ₘ block ::ₘ refs) => h.counted.live_of_held hi
  unfold Primitives.viCall
  dsimp only
  rcases h.tuplePack hblock hother with ⟨rest, hpack, hrest, hfail⟩ | ⟨t, hpack, hgrows, howns⟩
  · rw [hpack]
    have hback : Owns { s with memory := rest } (block ::ₘ other ::ₘ refs) handles blocks := by
      rw [Multiset.cons_swap]
      exact h.congr rfl rfl rfl
    exact hback.decref.decref.leavesNothing
      (((grows_memory s hrest).trans (grows_decref _ _ _)).trans (grows_decref _ _ _)) hfail
  · rw [hpack]
    have hargs : List.Forall₂
        (fun a v => a.1 ∈ s.heap.next ::ₘ other ::ₘ block ::ₘ refs ∧ Shows t a.1 v.1 ∧ a.2 = v.2)
        [(block, keeps.1), (other, keeps.2)] [(vb, keeps.1), (vo, keeps.2)] :=
      .cons ⟨Multiset.mem_cons_of_mem hblock, h.shows_grows (hlive hblock) hb hgrows, rfl⟩
        (.cons ⟨Multiset.mem_cons_of_mem hother, h.shows_grows (hlive hother) ho hgrows, rfl⟩ .nil)
    obtain ⟨hcall, hg, hkept⟩ := howns.callPython hargs
    dsimp only
    rw [Multiset.add_cons] at hcall
    have hback₁ := hcall.decref
    rw [Multiset.add_cons, Multiset.add_cons, Multiset.cons_swap] at hback₁
    have hback : ∀ (u : State) (n : Nat),
        Grows n u (pyDecref other (pyDecref block (pyDecref s.heap.next u))) := fun u n =>
      ((grows_decref n _ u).trans (grows_decref n _ _)).trans (grows_decref n _ _)
    refine ⟨hback₁.decref.decref, (hgrows.trans (hg _)).trans (hback _ _), Or.inr ?_⟩
    exact hkept.imp fun i x hi => hi.of_grows fun n => hback _ n

/-- A callback that has its first object, and makes the second. -/
theorem Owns.viPair {block : Nat} {vb vo : Value} (h : Owns s (block ::ₘ refs) handles blocks)
    (hb : Shows s block vb) {r : PyResult Nat}
    (hr : Returns s (block ::ₘ refs) handles blocks (.ok vo) (r, t)) (keeps : Bool × Bool) :
    Leaves s refs handles blocks (keptValues [(vb, keeps.1), (vo, keeps.2)])
      (Primitives.viCall block (orNull r) keeps t) := by
  cases r with
  | error e =>
    rcases hr.answers with hno | ⟨_, hfail⟩
    · cases hno
    · have howns : Owns t (block ::ₘ refs) handles blocks := by simpa [given] using hr.owns
      exact howns.decref.leavesNothing (hr.grows.trans (grows_decref _ _ _)) hfail
  | ok other =>
    obtain ⟨y, hy, hshows⟩ := hr.answers
    cases hy
    have howns : Owns t (other ::ₘ block ::ₘ refs) handles blocks := hr.owns
    have hvb := h.shows_grows (h.counted.live_of_held (Multiset.mem_cons_self _ _)) hb hr.grows
    have hcall := howns.viCall hvb hshows keeps
    refine ⟨hcall.owns, hr.grows.trans (hcall.grows.mono hr.grows.next), ?_⟩
    exact hcall.kept.imp_left fun hno => ⟨hno.1, hr.grows.memory.subset hno.2⟩

theorem Leaves.after {vs : List Value} {out : List Nat × State}
    (h : Leaves t refs handles blocks vs out) (hg : Grows s.heap.next s t) :
    Leaves s refs handles blocks vs out := by
  refine ⟨h.owns, hg.trans (h.grows.mono hg.next), ?_⟩
  exact h.kept.imp_left fun hno => ⟨hno.1, hg.memory.subset hno.2⟩

/-- The validation callbacks, whatever they wrap beside the block. -/
theorem Owns.viBlockCb (h : Owns s refs handles blocks) (block : Block) {vo : Value}
    {wrapOther : State → PyResult Nat × State}
    (hother : ∀ {s refs}, Owns s refs handles blocks →
      Returns s refs handles blocks (.ok vo) (wrapOther s)) (keeps : Bool × Bool) :
    Leaves s refs handles blocks
      (keptValues [(.object ⟨.block, block⟩, keeps.1), (vo, keeps.2)])
      (viBlockCb block wrapOther keeps s) := by
  have hblock : Returns s refs handles blocks (.ok (.object ⟨.block, block⟩))
      (blockWrap (s.create ⟨.block, block⟩).1 (s.create ⟨.block, block⟩).2) :=
    h.createWrap ⟨.block, block⟩
  unfold Primitives.viBlockCb
  dsimp only
  generalize blockWrap _ _ = out at hblock
  obtain ⟨r, s₁⟩ := out
  cases r with
  | error e =>
    rcases hblock.answers with hno | ⟨_, hfail⟩
    · cases hno
    · exact Owns.leavesNothing (by simpa [given] using hblock.owns) hblock.grows hfail
  | ok blockObj =>
    obtain ⟨y, hy, hshows⟩ := hblock.answers
    cases hy
    have howns : Owns s₁ (blockObj ::ₘ refs) handles blocks := hblock.owns
    exact (howns.viPair hshows (hother howns) keeps).after hblock.grows

theorem Owns.viBlockCheckedCb (h : Owns s refs handles blocks) (block : Block)
    (state : BlockValidationState) (keeps : Bool × Bool) :
    Leaves s refs handles blocks
      (keptValues [(.object ⟨.block, block⟩, keeps.1),
        (.object ⟨.blockValidationState, state⟩, keeps.2)])
      (viBlockCheckedCb block state keeps s) :=
  h.viBlockCb block (fun h => h.createWrap ⟨.blockValidationState, state⟩) keeps

theorem Owns.viBlockEventCb (h : Owns s refs handles blocks) (block : Block)
    (keeps : Bool × Bool) :
    Leaves s refs handles blocks
      (keptValues [(.object ⟨.block, block⟩, keeps.1), (.blockTreeEntry, keeps.2)])
      (viBlockEventCb block keeps s) :=
  h.viBlockCb block (fun h => h.blockTreeEntryWrap) keeps

end PyBitcoinKernel.Primitives
