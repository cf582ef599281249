import PyBitcoinKernel.Primitives.Values

/-!
# Tuples and trace frames

A container is made with empty slots, which are filled one by one; each slot takes over the
reference to its item. A failure on the way gives the container up, and with it what is
already in it, so nothing is left of either.
-/

namespace PyBitcoinKernel.Primitives

open PyBitcoinKernel.Binding (PyErr PyResult raise)
open PyBitcoinKernel.Script (Bytes)
open RefGraph (Heap Counted Reach)

variable {s s' t s₀ : State} {refs : Multiset Nat} {handles : Multiset (Kind × Nat)}
  {blocks i j n self tuple : Nat} {kind part : Kind} {v : PyResult Value} {x : Value} {c : Cell}
  {out : PyResult Nat × State}

/-! ## Slots -/

/-- Filling an empty slot adds one reference. -/
theorem reduceOption_set {l : List (Option Nat)} (hi : l[i]? = some none) (j : Nat) :
    (l.set i (some j)).reduceOption.Perm (j :: l.reduceOption) := by
  obtain ⟨hlt, hget⟩ := List.getElem?_eq_some_iff.mp hi
  have hsplit : l = l.take i ++ none :: l.drop (i + 1) := by
    rw [← hget, List.cons_getElem_drop_succ, List.take_append_drop]
  rw [List.set_eq_take_append_cons_drop, if_pos hlt]
  conv_rhs => rw [hsplit]
  rw [List.reduceOption_append, List.reduceOption_append, List.reduceOption_cons_of_some,
    List.reduceOption_cons_of_none]
  exact List.perm_middle

theorem tuple_refs_perm (l : List (Option Nat)) : (Cell.tuple l).refs.Perm l.reduceOption :=
  (List.reverse_perm l).filterMap _

theorem mem_tuple_refs {l : List (Option Nat)} : j ∈ (Cell.tuple l).refs ↔ some j ∈ l := by
  rw [(tuple_refs_perm l).mem_iff, List.reduceOption_mem_iff]

/-- Write a content that refers to one more object. -/
theorem Owns.set (h : Owns s (j ::ₘ refs) handles blocks) (hlive : s.heap.Live i)
    (hperm : c.refs.Perm (j :: (s.heap.cell i).refs)) (hhandles : c.handles = [])
    (hold : (s.heap.cell i).handles = []) (hno : ¬ Reach Cell.refs s.heap.cell {j} i) :
    Owns { s with heap := s.heap.set i c } refs handles blocks := by
  refine ⟨h.counted.link hlive hperm hno, ?_, h.sound, h.blocks⟩
  have hset := RefGraph.total_set Cell.handles c (h.counted.bound i hlive) hlive
  rw [hhandles, hold] at hset
  have htotal : (s.heap.set i c).total Cell.handles = s.heap.total Cell.handles := by
    simpa using hset
  show handles + (s.heap.set i c).total Cell.handles + _ = _
  rw [htotal]
  exact h.ledger

/-! ## What does not lead back to a container -/

/-- Values that refer to nothing. -/
def Value.leaf : Value → Bool
  | .tuple _ | .frame .. => false
  | _ => true

/-- Values that refer to leaves only. -/
def Value.flat : Value → Bool
  | .tuple vs => vs.all Value.leaf
  | .frame .. => false
  | _ => true

theorem Value.flat_of_leaf (hx : x.leaf = true) : x.flat = true := by
  cases x with
  | tuple => cases hx
  | frame => cases hx
  | _ => rfl

theorem Shows.refs_eq_nil (hv : Shows s i x) (hx : x.leaf = true) :
    (s.heap.cell i).refs = [] := by
  cases hv with
  | none hc => rw [hc]; rfl
  | object hc _ => rw [hc]; rfl
  | blockTreeEntry hc => rw [hc]; rfl
  | bytes hc => rw [hc]; rfl
  | tuple => cases hx
  | frame => cases hx

theorem Shows.eq_of_reach (hv : Shows s j x) (hx : x.leaf = true)
    (hreach : Reach Cell.refs s.heap.cell {j} i) : i = j := by
  refine hreach.mem_of_closed (p := fun k => k = j) (fun k hk => Multiset.mem_singleton.mp hk) ?_
  intro k hk l hl
  rw [hk, hv.refs_eq_nil hx] at hl
  cases hl

/-- From a flat value no frame can be reached. -/
theorem Shows.not_reach_frame (hv : Shows s j x) (hx : x.flat = true) {f : ScriptTraceFrame}
    (hcell : s.heap.cell i = .frame f) : ¬ Reach Cell.refs s.heap.cell {j} i := by
  intro hreach
  have hflat : ∃ y, Shows s i y ∧ y.flat = true := by
    refine hreach.mem_of_closed (p := fun k => ∃ y, Shows s k y ∧ y.flat = true) ?_ ?_
    · intro k hk
      rw [Multiset.mem_singleton.mp hk]
      exact ⟨x, hv, hx⟩
    · intro k hk l hl
      obtain ⟨y, hy, hyflat⟩ := hk
      by_cases hleaf : y.leaf = true
      · rw [hy.refs_eq_nil hleaf] at hl
        cases hl
      cases hy with
      | tuple hc hlen hitems =>
        rw [hc, mem_tuple_refs, List.mem_map] at hl
        obtain ⟨l', hmem, hl'⟩ := hl
        cases hl'
        obtain ⟨k', hlt, hk'⟩ := List.mem_iff_getElem.mp hmem
        have hz := List.getElem?_eq_getElem (hlen ▸ hlt)
        have hzleaf := List.all_eq_true.mp hyflat _ (List.mem_of_getElem? hz)
        have hget := List.getElem?_eq_some_iff.mpr ⟨hlt, hk'⟩
        exact ⟨_, hitems k' l _ hget hz, Value.flat_of_leaf hzleaf⟩
      | frame => cases hyflat
      | _ => exact absurd rfl hleaf
  obtain ⟨y, hy, hyflat⟩ := hflat
  cases hy with
  | frame => cases hyflat
  | none hc => rw [hcell] at hc; cases hc
  | object hc _ => rw [hcell] at hc; cases hc
  | blockTreeEntry hc => rw [hcell] at hc; cases hc
  | bytes hc => rw [hcell] at hc; cases hc
  | tuple hc _ _ => rw [hcell] at hc; cases hc

/-- Writing a cell that a value does not lead to leaves the value. -/
theorem Shows.set (hv : Shows s j x) (hno : ¬ Reach Cell.refs s.heap.cell {j} i) (c : Cell) :
    Shows { s with heap := s.heap.set i c } j x := by
  refine hv.congr ?_ (List.prefix_refl _)
  intro k hk
  show (s.heap.set i c).cell k = _
  rw [RefGraph.cell_set, if_neg]
  intro hki
  exact hno (hki ▸ hk)

/-! ## Tuples -/

theorem pyTupleSetItem_eq {items : List (Option Nat)} (hcell : s.heap.cell tuple = .tuple items) :
    pyTupleSetItem tuple i j s =
      { s with heap := s.heap.set tuple (.tuple (items.set i (some j))) } := by
  unfold pyTupleSetItem
  rw [hcell]

theorem grows_set (hn : n ≤ i) (s : State) (c : Cell) :
    Grows n s { s with heap := s.heap.set i c } := by
  refine ⟨Nat.le_refl _, ?_, List.prefix_refl _, List.suffix_refl _⟩
  intro k hk
  show (s.heap.set i c).cell k = _
  rw [RefGraph.cell_set, if_neg]
  omega

section Fill

variable {mk : Nat → State → PyResult Nat × State} {vs : List Value}
  (hleaf : ∀ x ∈ vs, x.leaf = true)
  -- What the items are made of is held throughout, and older than the tuple.
  (hmk : ∀ (k : Nat) (x : Value), vs[k]? = some x → ∀ s refs',
    Owns s (refs' + refs) handles blocks → Grows s₀.heap.next s₀ s →
    Returns s (refs' + refs) handles blocks (.ok x) (mk k s))
include hleaf hmk

/-- **The loop that fills a tuple**: the slots before the current one show their values. -/
theorem Owns.fillTuple (m : Nat) (done : List Nat) (hlen : done.length + m = vs.length)
    (h : Owns s (s₀.heap.next ::ₘ refs) handles blocks) (hg : Grows s₀.heap.next s₀ s)
    (hcell : s.heap.cell s₀.heap.next = .tuple (done.map some ++ List.replicate m none))
    (hdone : ∀ (k j : Nat) (x : Value), done[k]? = some j → vs[k]? = some x →
      Shows s j x ∧ j ≠ s₀.heap.next) :
    Returns s₀ refs handles blocks (.ok (.tuple vs))
      (fillTuple mk s₀.heap.next done.length m s) := by
  induction m generalizing done s with
  | zero =>
    rw [Primitives.fillTuple]
    have hfull : s.heap.cell s₀.heap.next = .tuple (done.map some) := by simpa using hcell
    exact h.returnsNew hg (Shows.tuple hfull hlen fun k j x hj hx => (hdone k j x hj hx).1)
  | succ m ih =>
    have hlt : done.length < vs.length := by omega
    have hx : vs[done.length]? = some vs[done.length] := List.getElem?_eq_getElem hlt
    have hlive : s.heap.Live s₀.heap.next := h.counted.live_of_held (Multiset.mem_cons_self _ _)
    have hbound := h.counted.bound _ hlive
    have hitem := hmk done.length _ hx s {s₀.heap.next} h hg
    rw [Primitives.fillTuple]
    generalize mk done.length s = r at hitem
    obtain ⟨r, s₁⟩ := r
    have hg₁ : Grows s₀.heap.next s₀ s₁ := hg.trans (hitem.grows.mono hg.next)
    cases r with
    | error e =>
      have howns : Owns s₁ (s₀.heap.next ::ₘ refs) handles blocks := by
        simpa [given, Multiset.singleton_add] using hitem.owns
      rcases hitem.answers with hno | ⟨rfl, hfail⟩
      · cases hno
      · exact howns.decref.raisesNoMemory (hg₁.trans (grows_decref _ _ _))
          (hg.memory.subset hfail)
    | ok j =>
      have howns : Owns s₁ ({j} + ({s₀.heap.next} + refs)) handles blocks := hitem.owns
      rw [Multiset.singleton_add, Multiset.singleton_add] at howns
      obtain ⟨y, hy, hshows⟩ := hitem.answers
      cases hy
      have hnew := hitem.fresh j rfl
      have hne : j ≠ s₀.heap.next := by omega
      have hcell₁ : s₁.heap.cell s₀.heap.next =
          .tuple (done.map some ++ List.replicate (m + 1) none) :=
        (hitem.grows.cell _ hbound).trans hcell
      have hleafj := hleaf _ (List.getElem_mem hlt)
      have hno : ∀ k y, Shows s₁ k y → y.leaf = true → k ≠ s₀.heap.next →
          ¬ Reach Cell.refs s₁.heap.cell {k} s₀.heap.next := by
        intro k y hy hyleaf hk hreach
        exact hk (hy.eq_of_reach hyleaf hreach).symm
      have hempty : (done.map some ++ List.replicate (m + 1) none)[done.length]? =
          some (none : Option Nat) := by simp
      have hslots : (done.map some ++ List.replicate (m + 1) none).set done.length (some j) =
          (done ++ [j]).map some ++ List.replicate m none := by
        simp [List.replicate_succ]
      have hset := howns.set (c := .tuple ((done ++ [j]).map some ++ List.replicate m none))
        (howns.counted.live_of_held (by simp)) ?_ rfl (by rw [hcell₁]; rfl)
        (hno j _ hshows hleafj hne)
      · dsimp only
        rw [pyTupleSetItem_eq hcell₁, hslots]
        have hnext := ih (done ++ [j]) (by simp; omega) hset
          (hg₁.trans (grows_set (Nat.le_refl _) s₁ _)) (by simp) ?_
        · rw [List.length_append] at hnext
          exact hnext
        · -- The items so far are not the tuple, so writing it leaves their values.
          intro k l z hl hz
          have hzleaf := hleaf z (List.mem_of_getElem? hz)
          by_cases hk : k < done.length
          · rw [List.getElem?_append_left hk] at hl
            obtain ⟨hold, hlne⟩ := hdone k l z hl hz
            have hmem : some l ∈ done.map some ++ List.replicate (m + 1) none :=
              List.mem_append_left _ (List.mem_map_of_mem (List.mem_of_getElem? hl))
            have hllive : s.heap.Live l :=
              h.counted.live_ref hlive (by rw [hcell]; exact mem_tuple_refs.mpr hmem)
            have hlast := h.shows_grows hllive hold hitem.grows
            exact ⟨hlast.set (hno l z hlast hzleaf hlne) _, hlne⟩
          · rw [List.getElem?_append_right (by omega)] at hl
            have hk0 : k = done.length := by
              have hlt := (List.getElem?_eq_some_iff.mp hl).1
              simp at hlt
              omega
            subst hk0
            have hlj : j = l := by simpa using hl
            subst hlj
            have hzx : vs[done.length] = z := by simpa [hx] using hz
            subst hzx
            exact ⟨hshows.set (hno j _ hshows hleafj hne) _, hne⟩
      · rw [hcell₁, ← hslots]
        refine (tuple_refs_perm _).trans ((reduceOption_set hempty j).trans ?_)
        exact ((tuple_refs_perm _).symm).cons j

/-- **Making a tuple** succeeds as a whole or leaves nothing. -/
theorem Owns.buildTuple (h : Owns s₀ refs handles blocks) :
    Returns s₀ refs handles blocks (.ok (.tuple vs)) (buildTuple mk vs.length s₀) := by
  unfold Primitives.buildTuple pyTupleNew
  rcases pyObjectNew_cases (.tuple (List.replicate vs.length none)) s₀ with
    ⟨rest, hnew, hrest, hfail⟩ | ⟨rest, hnew, hrest⟩
  · rw [hnew]
    have howns : Owns { s₀ with memory := rest } refs handles blocks := h.congr rfl rfl rfl
    exact howns.raisesNoMemory (grows_memory s₀ hrest) hfail
  · rw [hnew]
    have hnone : (Cell.tuple (List.replicate vs.length none)).refs = [] := by
      simp [Cell.refs, List.reduceOption]
    have hready : Owns s₀ ((Cell.tuple (List.replicate vs.length none)).refs + refs)
        ((Cell.tuple (List.replicate vs.length none)).handles + handles) blocks := by
      simpa [hnone, Cell.handles] using h
    refine Owns.fillTuple hleaf hmk vs.length [] (Nat.zero_add _) (hready.alloc rest)
      (grows_alloc s₀ _ hrest) (by simp) ?_
    intro k j x hj
    cases hj

end Fill

/-- The value of a tuple of parts. -/
def partsValue (part : Kind) (ps : List (Data part)) : Value :=
  .tuple (ps.map fun p => .object ⟨part, p⟩)

theorem Owns.copyAll (h : Owns s refs handles blocks) (hself : self ∈ refs) {d : Data kind}
    (hw : Wraps s self ⟨kind, d⟩) (part : Kind) (items : Data kind → List (Data part)) :
    Returns s refs handles blocks (.ok (partsValue part (items d)))
      (copyAll kind part items (Primitives.wrap part) self s) := by
  have hbound := h.counted.bound self (h.counted.live_of_held hself)
  unfold Primitives.copyAll partsValue
  rw [h.access (f := fun d => some (items d).length) hself hw rfl]
  have hall : Returns s refs handles blocks
      (.ok (.tuple ((items d).map fun p => Value.object ⟨part, p⟩)))
      (Primitives.buildTuple
        (fun i s =>
          Primitives.copyView kind part (fun d => (items d)[i]?) (Primitives.wrap part) self s)
        ((items d).map fun p => Value.object ⟨part, p⟩).length s) := by
    refine Owns.buildTuple ?_ ?_ h
    · intro x hx
      obtain ⟨p, _, rfl⟩ := List.mem_map.mp hx
      rfl
    · intro k x hx s' refs' howns hg
      rw [List.getElem?_map, Option.map_eq_some_iff] at hx
      obtain ⟨p, hp, rfl⟩ := hx
      exact howns.copyView (Multiset.mem_add.mpr (Or.inr hself)) (hw.grows hg hbound) hp
  rw [List.length_map] at hall
  exact hall

theorem Owns.buildStackTuple (h : Owns s refs handles blocks) (items : List Bytes) :
    Returns s refs handles blocks (.ok (.tuple (items.map .bytes))) (buildStackTuple items s) := by
  unfold Primitives.buildStackTuple
  have hall : Returns s refs handles blocks (.ok (.tuple (items.map .bytes)))
      (Primitives.buildTuple (fun i s => pyBytesFromStringAndSize (items.getD i []) s)
        (items.map Value.bytes).length s) := by
    refine Owns.buildTuple ?_ ?_ h
    · intro x hx
      obtain ⟨b, _, rfl⟩ := List.mem_map.mp hx
      rfl
    · intro k x hx s' refs' howns _
      rw [List.getElem?_map, Option.map_eq_some_iff] at hx
      obtain ⟨b, hb, rfl⟩ := hx
      rw [List.getD_eq_getElem?_getD, hb, Option.getD_some]
      exact howns.newBytes b
  rw [List.length_map] at hall
  exact hall

/-! ## Trace frames -/

def ScriptTraceFrame.slots (f : ScriptTraceFrame) : List (Option Nat) :=
  [f.stack, f.altstack, f.script, f.tapleafHash]

theorem ScriptTraceFrame.ext_slots {f f' : ScriptTraceFrame} (h : f.slots = f'.slots) :
    f = f' := by
  cases f
  cases f'
  simpa [ScriptTraceFrame.slots] using h

/-- A frame on the way: what is in its fields shows the values that belong there. -/
structure Filling (s₀ : State) (refs : Multiset Nat) (handles : Multiset (Kind × Nat))
    (blocks : Nat) (vs : List Value) (f : ScriptTraceFrame) (s : State) : Prop where
  owns : Owns s (s₀.heap.next ::ₘ refs) handles blocks
  grows : Grows s₀.heap.next s₀ s
  cell : s.heap.cell s₀.heap.next = .frame f
  shows : ∀ (k j : Nat) (x : Value), f.slots[k]? = some (some j) → vs[k]? = some x → Shows s j x

/-- **One field**: whether or not its object could be made, the frame stays well formed. -/
theorem Filling.setFrame {vs : List Value} (hflat : ∀ x ∈ vs, x.flat = true)
    {f : ScriptTraceFrame} (hf : Filling s₀ refs handles blocks vs f s) (k : Nat)
    (f' : ScriptTraceFrame) (hx : vs[k]? = some x) (hempty : f.slots[k]? = some none)
    {r : PyResult Nat} {s₁ : State}
    (howns : Owns s₁ (given r + s₀.heap.next ::ₘ refs) handles blocks)
    (hg : Grows s.heap.next s s₁) (hans : Answers s (.ok x) (r, s₁))
    (hslots : f'.slots = f.slots.set k (orNull r)) :
    Filling s₀ refs handles blocks vs f' (setFrame s₀.heap.next f' s₁) := by
  have hlive : s.heap.Live s₀.heap.next := hf.owns.counted.live_of_held (Multiset.mem_cons_self _ _)
  have hbound := hf.owns.counted.bound _ hlive
  have hcell : s₁.heap.cell s₀.heap.next = .frame f := (hg.cell _ hbound).trans hf.cell
  have hgrows := (hf.grows.trans (hg.mono hf.grows.next)).trans
    (grows_set (Nat.le_refl _) s₁ (.frame f'))
  -- The fields that were filled before still show their values.
  have hold : ∀ (l j : Nat) (y : Value), f.slots[l]? = some (some j) → vs[l]? = some y →
      Shows s₁ j y := by
    intro l j y hl hy
    refine hf.owns.shows_grows (hf.owns.counted.live_ref hlive ?_) (hf.shows l j y hl hy) hg
    rw [hf.cell]
    exact List.reduceOption_mem_iff.mpr (List.mem_of_getElem? hl)
  have hkeep : ∀ (l j : Nat) (y : Value), Shows s₁ j y → vs[l]? = some y →
      Shows (Primitives.setFrame s₀.heap.next f' s₁) j y := by
    intro l j y hy hl
    exact hy.set (hy.not_reach_frame (hflat y (List.mem_of_getElem? hl)) hcell) _
  refine ⟨?_, hgrows, by simp [Primitives.setFrame], ?_⟩
  · cases r with
    | error e =>
      have hsame : f' = f := by
        obtain ⟨hlt, hget⟩ := List.getElem?_eq_some_iff.mp hempty
        refine ScriptTraceFrame.ext_slots (hslots.trans ?_)
        show f.slots.set k none = f.slots
        rw [← hget, List.set_getElem_self]
      have heq : s₁.heap.set s₀.heap.next (.frame f') = s₁.heap := by
        rw [hsame, ← hcell]
        unfold Heap.set
        rw [Function.update_eq_self]
      refine Owns.congr (s := s₁) ?_ heq rfl rfl
      simpa [given] using howns
    | ok j =>
      have howns' : Owns s₁ (j ::ₘ s₀.heap.next ::ₘ refs) handles blocks := by
        rw [← Multiset.singleton_add]
        exact howns
      obtain ⟨y, hy, hshows⟩ := hans
      cases hy
      have hno := hshows.not_reach_frame (hflat x (List.mem_of_getElem? hx)) hcell
      refine howns'.set (howns'.counted.live_of_held (by simp)) ?_ rfl (by rw [hcell]; rfl) hno
      rw [hcell]
      show f'.slots.reduceOption.Perm (j :: f.slots.reduceOption)
      rw [hslots]
      exact reduceOption_set hempty j
  · intro l j y hl hy
    rw [hslots, List.getElem?_set] at hl
    split at hl
    next hkl =>
      subst hkl
      rw [hx, Option.some.injEq] at hy
      subst hy
      cases r with
      | error e => simp [orNull, Except.toOption] at hl
      | ok i =>
        obtain ⟨y, hy, hshows⟩ := hans
        cases hy
        have hij : i = j := by
          split at hl
          · simpa [orNull, Except.toOption] using hl
          · cases hl
        exact hkeep k j x (hij ▸ hshows) hx
    next => exact hkeep l j y (hold l j y hl hy) hy

def tapleafValue : Option Bytes → Value
  | none => .none
  | some h => .bytes h

/-- The four fields of a frame. -/
def frameFields (f : KFrame) : List Value :=
  [.tuple (f.stackItems.map .bytes), .tuple (f.altstackItems.map .bytes), .bytes f.script,
    tapleafValue f.tapleafHash]

def frameValue (f : KFrame) : Value :=
  .frame (.tuple (f.stackItems.map .bytes)) (.tuple (f.altstackItems.map .bytes)) (.bytes f.script)
    (tapleafValue f.tapleafHash)

theorem flat_of_mem_frameFields (f : KFrame) : ∀ x ∈ frameFields f, x.flat = true := by
  have htuple : ∀ l : List Bytes, (Value.tuple (l.map .bytes)).flat = true := by
    intro l
    simp [Value.flat, Value.leaf]
  intro x hx
  simp only [frameFields, List.mem_cons, List.not_mem_nil, or_false] at hx
  rcases hx with rfl | rfl | rfl | rfl
  · exact htuple _
  · exact htuple _
  · rfl
  · cases f.tapleafHash <;> rfl

/-- `None` is there already: the field gets another reference to it. -/
theorem Owns.tapleafObject (h : Owns s refs handles blocks) (hnone : pyNone ∈ refs)
    (hcell : s.heap.cell pyNone = .none) (hash : Option Bytes) :
    Owns (tapleafObject hash s).2 (given (tapleafObject hash s).1 + refs) handles blocks ∧
      Grows s.heap.next s (tapleafObject hash s).2 ∧
      Answers s (.ok (tapleafValue hash)) (tapleafObject hash s) := by
  cases hash with
  | none =>
    have howns := h.incref (h.counted.live_of_held hnone)
    exact ⟨by simpa [Primitives.tapleafObject, given] using howns, grows_incref _ _ s, .none, rfl,
      Shows.none hcell⟩
  | some b =>
    have hnew := h.newBytes b
    exact ⟨hnew.owns, hnew.grows, hnew.answers⟩

/-- What is `NULL` is so for lack of memory. -/
theorem Answers.of_null {r : PyResult Nat} (h : Answers s (.ok x) (r, t))
    (hr : (orNull r).isNone = true) : false ∈ s.memory := by
  cases r with
  | ok i => cases hr
  | error e =>
    rcases h with hno | ⟨_, hfail⟩
    · cases hno
    · exact hfail

/-- **The snapshot of a trace frame** is complete, or there is nothing of it. -/
theorem Owns.scriptTraceFrameFromC (h : Owns s refs handles blocks) (hnone : pyNone ∈ refs)
    (hcell : s.heap.cell pyNone = .none) (f : KFrame) :
    Returns s refs handles blocks (.ok (frameValue f)) (scriptTraceFrameFromC f s) := by
  have hflat := flat_of_mem_frameFields f
  have hbound := h.counted.bound _ (h.counted.live_of_held hnone)
  unfold Primitives.scriptTraceFrameFromC
  rcases pyObjectNew_cases (.frame ⟨none, none, none, none⟩) s with
    ⟨rest, hnew, hrest, hfail⟩ | ⟨rest, hnew, hrest⟩
  · rw [hnew]
    have howns : Owns { s with memory := rest } refs handles blocks := h.congr rfl rfl rfl
    exact howns.raisesNoMemory (grows_memory s hrest) hfail
  rw [hnew]
  dsimp only
  have hf₀ : Filling s refs handles blocks (frameFields f) ⟨none, none, none, none⟩
      { s with heap := s.heap.alloc (.frame ⟨none, none, none, none⟩), memory := rest } := by
    refine ⟨Owns.alloc (by simpa [Cell.refs, Cell.handles, List.reduceOption] using h) rest,
      grows_alloc s _ hrest, by simp, ?_⟩
    intro k j x hk
    have hmem := List.mem_of_getElem? hk
    simp [ScriptTraceFrame.slots] at hmem
  generalize ({ s with
    heap := s.heap.alloc (.frame ⟨none, none, none, none⟩), memory := rest } : State) = s₀ at hf₀
  have h₁ := hf₀.owns.buildStackTuple f.stackItems
  generalize Primitives.buildStackTuple f.stackItems s₀ = out at h₁
  obtain ⟨stack, s₁⟩ := out
  have hf₁ := hf₀.setFrame hflat 0 ⟨orNull stack, none, none, none⟩ rfl rfl
    h₁.owns h₁.grows h₁.answers rfl
  dsimp only
  have h₂ := hf₁.owns.buildStackTuple f.altstackItems
  generalize Primitives.buildStackTuple f.altstackItems _ = out at h₂
  obtain ⟨altstack, s₂⟩ := out
  have hf₂ := hf₁.setFrame hflat 1 ⟨orNull stack, orNull altstack, none, none⟩ rfl
    rfl h₂.owns h₂.grows h₂.answers rfl
  dsimp only
  have h₃ := hf₂.owns.newBytes f.script
  generalize pyBytesFromStringAndSize f.script _ = out at h₃
  obtain ⟨script, s₃⟩ := out
  have hf₃ := hf₂.setFrame hflat 2
    ⟨orNull stack, orNull altstack, orNull script, none⟩ rfl rfl h₃.owns h₃.grows
    h₃.answers rfl
  dsimp only
  have hnone₃ := (hf₃.grows.cell _ hbound).trans hcell
  obtain ⟨howns₄, hgrows₄, hans₄⟩ :=
    hf₃.owns.tapleafObject (Multiset.mem_cons_of_mem hnone) hnone₃ f.tapleafHash
  generalize Primitives.tapleafObject f.tapleafHash _ = out at howns₄ hgrows₄ hans₄
  obtain ⟨tapleafHash, s₄⟩ := out
  have hf₄ := hf₃.setFrame hflat 3
    ⟨orNull stack, orNull altstack, orNull script, orNull tapleafHash⟩ rfl rfl howns₄
    hgrows₄ hans₄ rfl
  dsimp only
  split
  next hnull =>
    have hfail : false ∈ s.memory := by
      rcases hnull with hn | hn | hn | hn
      · exact hf₀.grows.memory.subset (h₁.answers.of_null hn)
      · exact hf₁.grows.memory.subset (h₂.answers.of_null hn)
      · exact hf₂.grows.memory.subset (h₃.answers.of_null hn)
      · exact hf₃.grows.memory.subset (hans₄.of_null hn)
    exact hf₄.owns.decref.raisesNoMemory (hf₄.grows.trans (grows_decref _ _ _)) hfail
  next hfull =>
    refine hf₄.owns.returnsNew hf₄.grows ?_
    simp only [not_or, Option.isNone_iff_eq_none] at hfull
    obtain ⟨ha, hb, hc, hd⟩ := hfull
    obtain ⟨a, ha⟩ := Option.ne_none_iff_exists'.mp ha
    obtain ⟨b, hb⟩ := Option.ne_none_iff_exists'.mp hb
    obtain ⟨c, hc⟩ := Option.ne_none_iff_exists'.mp hc
    obtain ⟨d, hd⟩ := Option.ne_none_iff_exists'.mp hd
    have hshows := hf₄.shows
    have hcell₄ := hf₄.cell
    rw [ha, hb, hc, hd] at hshows hcell₄ ⊢
    exact Shows.frame hcell₄ (hshows 0 a _ rfl rfl) (hshows 1 b _ rfl rfl) (hshows 2 c _ rfl rfl)
      (hshows 3 d _ rfl rfl)

end PyBitcoinKernel.Primitives
