import PyBitcoinKernel.Manager.Lifetime

/-!
# What is given back is gone

The references a program holds decide what is there, the counts and the kernel objects not
yet destroyed, apart from the managers it has closed by hand.

> `nothing_left`: whatever a program calls, and whichever of the calls fail, if it holds the
> same references as before, then every count is as before, and so are the kernel objects,
> except that those of the managers closed in between are gone.

A step makes wrappers or frees them, but changes neither the kind nor the reference of one
that was there, and its pointer only when it is closed or freed (`Kept`). With the counts
that the references determine (`RefCount.Counted.count_eq`) this is all there is to it.
-/

namespace PyBitcoinKernel.Manager.Lifetime

open RefCount (Heap Counted live_incref live_alloc parent_alloc live_free live_lower_of_ne)

/-- A kernel object was created and is not yet destroyed. -/
def Mem.Alive (m : Mem) (k : Nat) : Prop := k < m.objs.length ∧ k ∉ m.destroyed

/-- What is left of the wrappers of `s` in `t` is as it was, but for those closed. -/
structure Kept (closed : Set Nat) (s t : World) : Prop where
  next : s.heap.next ≤ t.heap.next
  parent : ∀ i < s.heap.next, t.heap.parent i = s.heap.parent i
  kind : ∀ i < s.heap.next, t.mem.kind i = s.mem.kind i
  live : ∀ i < s.heap.next, t.heap.Live i → s.heap.Live i
  open_ptr : ∀ i < s.heap.next, t.heap.Live i → i ∉ closed → t.mem.ptr i = s.mem.ptr i
  closed_ptr : ∀ i < s.heap.next, t.heap.Live i → i ∈ closed → t.mem.ptr i = none

variable {s t u : World} {h : Heap} {m : Mem} {closed closed' : Set Nat} {i k w : Nat}

/-- Nothing is closed. -/
theorem Kept.of_ptr (hnext : s.heap.next ≤ t.heap.next)
    (hparent : ∀ i < s.heap.next, t.heap.parent i = s.heap.parent i)
    (hkind : ∀ i < s.heap.next, t.mem.kind i = s.mem.kind i)
    (hlive : ∀ i < s.heap.next, t.heap.Live i → s.heap.Live i ∧ t.mem.ptr i = s.mem.ptr i) :
    Kept ∅ s t :=
  ⟨hnext, hparent, hkind, fun i hi hl => (hlive i hi hl).1, fun i hi hl _ => (hlive i hi hl).2,
    fun _ _ _ hno => absurd hno (Set.notMem_empty _)⟩

theorem Kept.refl (s : World) : Kept ∅ s s :=
  .of_ptr (Nat.le_refl _) (fun _ _ => rfl) (fun _ _ => rfl) fun _ _ hi => ⟨hi, rfl⟩

theorem Kept.trans (hst : Kept closed s t) (htu : Kept closed' t u) :
    Kept (closed ∪ closed') s u := by
  have hlt : ∀ {i}, i < s.heap.next → i < t.heap.next := fun hi => hi.trans_le hst.next
  refine ⟨hst.next.trans htu.next, ?_, ?_, ?_, ?_, ?_⟩
  · exact fun i hi => (htu.parent i (hlt hi)).trans (hst.parent i hi)
  · exact fun i hi => (htu.kind i (hlt hi)).trans (hst.kind i hi)
  · exact fun i hi hlive => hst.live i hi (htu.live i (hlt hi) hlive)
  · intro i hi hlive hno
    rw [Set.mem_union, not_or] at hno
    have ht := htu.live i (hlt hi) hlive
    exact (htu.open_ptr i (hlt hi) hlive hno.2).trans (hst.open_ptr i hi ht hno.1)
  · intro i hi hlive hmem
    by_cases hlater : i ∈ closed'
    · exact htu.closed_ptr i (hlt hi) hlive hlater
    · have hbefore := ((Set.mem_union ..).mp hmem).resolve_right hlater
      have ht := htu.live i (hlt hi) hlive
      exact (htu.open_ptr i (hlt hi) hlive hlater).trans (hst.closed_ptr i hi ht hbefore)

theorem Kept.quiet_trans (hst : Kept ∅ s t) (htu : Kept ∅ t u) : Kept ∅ s u := by
  have htrans := hst.trans htu
  rwa [Set.union_empty] at htrans

/-- The owners are the kernel objects that are left. -/
theorem Inv.alive_iff (hs : Inv s) : s.mem.Alive k ↔ ∃ i, Owner s.heap s.mem i k := by
  constructor
  · exact fun hk => (hs.owned.owned k hk.1).resolve_left hk.2
  · intro hown
    obtain ⟨i, hi⟩ := hown
    exact ⟨hs.owned.owner_lt hi, hs.owned.fresh i k hi⟩

/-- **The same references, the same objects.** -/
theorem Kept.settle (hst : Kept closed s t) (hs : Inv s) (ht : Inv t) (hheld : t.held = s.held) :
    t.heap.count = s.heap.count ∧
      ∀ k, t.mem.Alive k ↔ ∃ i, Owner s.heap s.mem i k ∧ i ∉ closed := by
  have hcounted : Counted t.heap s.held := hheld ▸ ht.counted
  have hcount := hs.counted.count_eq hcounted hst.parent
  have hlive : ∀ i, t.heap.Live i ↔ s.heap.Live i := by
    intro i
    unfold Heap.Live
    rw [hcount]
  refine ⟨hcount, ?_⟩
  intro k
  rw [ht.alive_iff]
  refine exists_congr fun i => ?_
  unfold Owner
  rw [hlive, and_assoc]
  refine and_congr_right fun hi => ?_
  have hlt := hs.counted.bound i hi
  have hti := (hlive i).mpr hi
  rw [hst.kind i hlt, and_assoc]
  refine and_congr_right fun _ => ?_
  by_cases hclosed : i ∈ closed
  · rw [hst.closed_ptr i hlt hti hclosed]
    exact iff_of_false (fun hno => Option.some_ne_none k hno.symm) fun hno => hno.2 hclosed
  · rw [hst.open_ptr i hlt hti hclosed]
    exact (and_iff_left hclosed).symm

/-! ## Steps -/

theorem kept_wrap (s : World) (kind : Kind) (ptr : Option Nat) {parent : Option Nat}
    (hp : ∀ q, parent = some q → s.heap.Live q) : Kept ∅ s (s.wrap kind ptr parent) := by
  refine .of_ptr (Nat.le_succ _) ?_ ?_ ?_
  · intro i hi
    show (s.heap.alloc parent).parent i = _
    rw [parent_alloc, if_neg hi.ne]
  · exact fun i hi => (init_of_ne s.mem hi.ne kind ptr).1
  · intro i hi hlive
    exact ⟨((live_alloc hp i).mp hlive).resolve_left hi.ne, (init_of_ne s.mem hi.ne kind ptr).2⟩

theorem kept_incref (hi : s.heap.Live i) : Kept ∅ s (s.incref i) :=
  .of_ptr (Nat.le_refl _) (fun _ _ => rfl) (fun _ _ => rfl)
    fun j _ hj => ⟨(live_incref hi j).mp hj, rfl⟩

theorem kept_objs {objs : List KObj} {destroyed : List Nat} :
    Kept ∅ s { s with mem := { s.mem with objs := objs, destroyed := destroyed } } :=
  .of_ptr (Nat.le_refl _) (fun _ _ => rfl) (fun _ _ => rfl) fun _ _ hi => ⟨hi, rfl⟩

/-- Deallocation writes the freed wrapper and no other. -/
theorem tpDealloc_frame (m : Mem) (w : Nat) :
    (tpDealloc m w).kind = m.kind ∧ ∀ i, i ≠ w → (tpDealloc m w).ptr i = m.ptr i := by
  cases hptr : m.ptr w with
  | none =>
    rw [tpDealloc_idle (Or.inr hptr)]
    exact ⟨rfl, fun _ _ => rfl⟩
  | some k =>
    cases hview : (m.kind w).isView with
    | false =>
      obtain ⟨hkind, _, _, hrest⟩ := tpDealloc_owner hview hptr
      exact ⟨hkind, hrest⟩
    | true =>
      rw [tpDealloc_idle (Or.inl hview)]
      exact ⟨rfl, fun _ _ => rfl⟩

/-- **Dropping a reference** changes only what it frees. -/
theorem kept_drop (hs : Inv s) (hi : 0 < s.held i) : Kept ∅ s (s.drop i) := by
  have hrule := hs.counted.decref_rule (f := tpDealloc)
    (P := fun h _ m => h.next = s.heap.next ∧ h.parent = s.heap.parent ∧ m.kind = s.mem.kind ∧
      ∀ j, h.Live j → s.heap.Live j ∧ m.ptr j = s.mem.ptr j) ?_ ?_ hi
    ⟨rfl, rfl, rfl, fun j hj => ⟨hj, rfl⟩⟩
  · obtain ⟨hnext, hparent, hkind, hrest⟩ := hrule
    exact .of_ptr hnext.ge (fun j _ => congrFun hparent j) (fun j _ => congrFun hkind j)
      fun j _ hj => hrest j hj
  · intro h held j m _ _ hmany hm
    exact ⟨hm.1, hm.2.1, hm.2.2.1, fun l hl => hm.2.2.2 l ((live_lower_of_ne hmany l).mp hl)⟩
  · intro h held j m _ _ hlast hm
    obtain ⟨hkind, hptr⟩ := tpDealloc_frame m j
    refine ⟨hm.1, hm.2.1, hkind.trans hm.2.2.1, ?_⟩
    intro l hl
    obtain ⟨hl, hlj⟩ := (live_free hlast l).mp hl
    exact ⟨(hm.2.2.2 l hl).1, (hptr l hlj).trans (hm.2.2.2 l hl).2⟩

theorem kept_construct {o : KObj} {context : Option Nat}
    (hg : Grounded s.heap s.mem o context) (out : Outcome) :
    Kept ∅ s (construct s o context out) := by
  cases out with
  | kernelFails => exact Kept.refl s
  | allocFails => exact kept_objs
  | ok =>
    have hcreate : Kept ∅ s { s with mem := s.mem.create o } := kept_objs
    exact hcreate.quiet_trans (kept_wrap _ _ _ hg.live)

theorem kept_checkPtr {self : Nat} {act : World} (hact : Kept ∅ s act) :
    Kept ∅ s (checkPtr s self act) := by
  unfold checkPtr
  split
  next => exact hact
  next => exact Kept.refl s

theorem kept_checkView {self : Nat} {act : World} (hact : Kept ∅ s act) :
    Kept ∅ s (checkView s self act) := by
  unfold checkView
  split
  next => exact hact
  next => exact Kept.refl s

/-- The getters that make a view, if there is one to be made. -/
theorem kept_entry {ptr owner : Option Nat} (hp : ∀ q, owner = some q → s.heap.Live q)
    (found alloc : Bool) :
    Kept ∅ s (if found then blockTreeEntryWrap s ptr owner alloc else s) := by
  unfold blockTreeEntryWrap
  split
  next =>
    split
    next => exact kept_wrap s _ _ hp
    next => exact Kept.refl s
  next => exact Kept.refl s

/-- **Closing a manager** empties its pointer. -/
theorem kept_close (self : Nat) : Kept {self} s (managerClose s self) := by
  have hrelease : (s.mem.release self).kind = s.mem.kind ∧ (s.mem.release self).ptr self = none ∧
      ∀ i, i ≠ self → (s.mem.release self).ptr i = s.mem.ptr i := by
    cases hptr : s.mem.ptr self with
    | none =>
      rw [release_none hptr]
      exact ⟨rfl, hptr, fun _ _ => rfl⟩
    | some k =>
      obtain ⟨hkind, _, _, hself, hrest⟩ := release_some hptr
      exact ⟨hkind, hself, hrest⟩
  obtain ⟨hkind, hself, hrest⟩ := hrelease
  refine ⟨Nat.le_refl _, fun _ _ => rfl, fun i _ => congrFun hkind i, fun _ _ hi => hi, ?_, ?_⟩
  · exact fun i _ _ hi => hrest i fun hno => hi (Set.mem_singleton_iff.mpr hno)
  · intro i _ _ hi
    rw [Set.mem_singleton_iff.mp hi]
    exact hself

/-- The managers an event closes. -/
def Event.closes : Event → Set Nat
  | .close i | .exit i => {i}
  | _ => ∅

/-- **One step** keeps what it does not free or close. -/
theorem kept_step (hs : Inv s) {e : Event} (h : s.step e = some t) : Kept e.closes s t := by
  have hself : ∀ {i}, 0 < s.held i → ∀ q, some i = some q → s.heap.Live q := fun hi q hq =>
    Option.some.inj hq ▸ hs.counted.live_of_held hi
  have hparent : ∀ {i}, 0 < s.held i → ∀ q, s.heap.parent i = some q → s.heap.Live q :=
    fun hi q hq => hs.counted.live_parent (hs.counted.live_of_held hi) hq
  cases e with
  | contextNew out =>
    cases h
    exact kept_construct (Or.inl ⟨rfl, rfl, rfl⟩) out
  | optionsNew context out =>
    obtain ⟨⟨hi, hkind⟩, rfl⟩ := call_eq_some h
    exact kept_construct (optionsNew_grounded hs hi hkind) out
  | managerNew options out =>
    obtain ⟨⟨hi, hkind⟩, rfl⟩ := call_eq_some h
    exact kept_construct (managerNew_grounded hs hi hkind) out
  | getActiveChain i alloc =>
    obtain ⟨⟨hi, _⟩, rfl⟩ := call_eq_some h
    refine kept_checkPtr ?_
    split
    next => exact kept_wrap s _ _ (hself hi)
    next => exact Kept.refl s
  | getBestEntry i alloc =>
    obtain ⟨⟨hi, _⟩, rfl⟩ := call_eq_some h
    exact kept_checkPtr (kept_entry (hself hi) true alloc)
  | getBlockTreeEntryByHash i found alloc =>
    obtain ⟨⟨hi, _⟩, rfl⟩ := call_eq_some h
    exact kept_checkPtr (kept_entry (hself hi) found alloc)
  | chainGetitem i found alloc =>
    obtain ⟨⟨hi, _⟩, rfl⟩ := call_eq_some h
    exact kept_checkView (kept_entry (hparent hi) found alloc)
  | chainTip i found alloc =>
    obtain ⟨⟨hi, _⟩, rfl⟩ := call_eq_some h
    exact kept_checkView (kept_entry (hparent hi) found alloc)
  | entryPrev i found alloc =>
    obtain ⟨⟨hi, _⟩, rfl⟩ := call_eq_some h
    exact kept_checkView (kept_entry (hparent hi) found alloc)
  | enter i =>
    obtain ⟨⟨hi, _⟩, rfl⟩ := call_eq_some h
    exact kept_checkPtr (kept_incref (hs.counted.live_of_held hi))
  | close i =>
    obtain ⟨_, rfl⟩ := call_eq_some h
    exact kept_close i
  | exit i =>
    obtain ⟨_, rfl⟩ := call_eq_some h
    exact kept_close i
  | copy i =>
    obtain ⟨hi, hs'⟩ := Option.ite_none_right_eq_some.mp h
    cases hs'
    exact kept_incref (hs.counted.live_of_held hi)
  | drop i =>
    obtain ⟨hi, hs'⟩ := Option.ite_none_right_eq_some.mp h
    cases hs'
    exact kept_drop hs hi

/-! ## Runs -/

/-- The managers that a run closes. -/
def closedBy (es : List Event) : Set Nat := {i | ∃ e ∈ es, i ∈ e.closes}

theorem closedBy_nil : closedBy [] = ∅ := by
  refine Set.eq_empty_iff_forall_notMem.mpr ?_
  intro i hi
  obtain ⟨e, he, -⟩ := hi
  cases he

theorem closedBy_append (es es' : List Event) :
    closedBy (es ++ es') = closedBy es ∪ closedBy es' := by
  ext i
  unfold closedBy
  simp only [Set.mem_ofPred_eq, List.mem_append, or_and_right, exists_or, Set.mem_union]

theorem closedBy_cons (e : Event) (es : List Event) :
    closedBy (e :: es) = e.closes ∪ closedBy es := by
  ext i
  unfold closedBy
  simp only [Set.mem_ofPred_eq, List.mem_cons, exists_eq_or_imp, Set.mem_union]

theorem kept_exec : ∀ {es : List Event} {s : World}, Inv s → programs.exec s es = some t →
    Inv t ∧ Kept (closedBy es) s t
  | [], _, hs, h => by
    cases h
    rw [closedBy_nil]
    exact ⟨hs, .refl _⟩
  | e :: es, _, hs, h => by
    obtain ⟨u, hu, hrest⟩ := Machine.exec_cons_iff.mp h
    obtain ⟨ht, hkept⟩ := kept_exec (step_spec hs hu).1 hrest
    rw [closedBy_cons]
    exact ⟨ht, (kept_step hs hu).trans hkept⟩

/-- **Nothing is left**: with the same references held as before, every count is as before,
and the kernel objects that are there are those that were, without the ones of the managers
that were closed in between. -/
theorem nothing_left {es : List Event} (h : programs.Reachable s)
    (hes : programs.exec s es = some t) (hheld : t.held = s.held) :
    t.heap.count = s.heap.count ∧
      ∀ k, t.mem.Alive k ↔ s.mem.Alive k ∧
        ∀ i, Owner s.heap s.mem i k → .close i ∉ es ∧ .exit i ∉ es := by
  have hs : Inv s := h.invariant (I := Inv) start_inv fun _ _ _ ht hstep => (step_spec ht hstep).1
  obtain ⟨ht, hkept⟩ := kept_exec hs hes
  obtain ⟨hcount, halive⟩ := hkept.settle hs ht hheld
  have hopen : ∀ i, i ∉ closedBy es ↔ Event.close i ∉ es ∧ Event.exit i ∉ es := by
    intro i
    rw [← not_or]
    refine not_congr ⟨?_, ?_⟩
    · intro hi
      obtain ⟨e, he, hi⟩ := hi
      cases e with
      | close j => exact Or.inl (Set.mem_singleton_iff.mp hi ▸ he)
      | exit j => exact Or.inr (Set.mem_singleton_iff.mp hi ▸ he)
      | _ => exact absurd hi (Set.notMem_empty i)
    · intro hi
      rcases hi with hi | hi
      · exact ⟨_, hi, Set.mem_singleton i⟩
      · exact ⟨_, hi, Set.mem_singleton i⟩
  refine ⟨hcount, ?_⟩
  intro k
  rw [halive, hs.alive_iff]
  constructor
  · intro hk
    obtain ⟨i, hi, hno⟩ := hk
    refine ⟨⟨i, hi⟩, ?_⟩
    intro j hj
    rw [hs.owned.alone j i k hj hi]
    exact (hopen i).mp hno
  · intro hk
    obtain ⟨⟨i, hi⟩, hall⟩ := hk
    exact ⟨i, hi, (hopen i).mpr (hall i hi)⟩

/-- A manager that is closed while a chain still refers to it, and one that does not come
into being. -/
theorem nothing_left_closed :
    let run : List Event := [.optionsNew 0 .ok, .managerNew 1 .ok, .drop 1, .getActiveChain 2 true,
      .close 2, .drop 2, .optionsNew 0 .ok, .managerNew 4 .allocFails, .drop 4, .drop 3]
    ∃ s t, programs.exec programs.init [.contextNew .ok] = some s ∧ programs.exec s run = some t ∧
      t.mem.destroyed = [3, 4, 2, 1] ∧ ∀ k, t.mem.Alive k ↔ s.mem.Alive k := by
  intro run
  have hs : programs.exec programs.init [.contextNew .ok] = some (contextNew start .ok) := rfl
  have ht : programs.exec (contextNew start .ok) run = some _ := rfl
  refine ⟨_, _, hs, ht, by decide, ?_⟩
  have hheld := nothing_left ⟨_, hs⟩ ht (by funext i; rcases i with _ | _ | _ | _ | _ | i <;> rfl)
  intro k
  refine (hheld.2 k).trans (and_iff_left ?_)
  intro i hi
  rcases i with _ | i
  · exact ⟨by decide, by decide⟩
  · exact absurd hi.1 (Nat.lt_irrefl 0)

end PyBitcoinKernel.Manager.Lifetime
