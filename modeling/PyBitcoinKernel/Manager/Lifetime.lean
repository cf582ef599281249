import PyBitcoinKernel.Manager.Wrappers

/-!
# Who destroys a kernel object, and when

Over every run of a program that makes wrappers, obtains views, copies and drops
references and closes managers, in any order:

> `teardown`: nothing is destroyed twice; a context goes after all that is built on it;
> a manager goes by an explicit close, or when no view into it is left; and when the
> last Python reference is gone everything has been destroyed exactly once.

The invariant (`Owned`) is that the kernel objects not yet destroyed are those of the
live wrappers, one each, and that the fields of live wrappers agree (`Linked`). A
wrapper is freed with no live wrapper referring to it, so what is built on its object
is gone (`dependents`), and no view points there (`view_child`). `RefCount`'s rule
carries this through a chain of frees.
-/

namespace PyBitcoinKernel.Manager.Lifetime

open RefCount (Heap Counted live_incref live_alloc parent_alloc live_free live_lower_of_ne)

/-- The kernel object `k` is built on the context `c`. -/
def Mem.BuiltOn (m : Mem) (k c : Nat) : Prop := ∃ o, m.objs[k]? = some o ∧ o.base = some c

/-- A live view into the kernel manager `k`. -/
def ViewOf (h : Heap) (m : Mem) (k v : Nat) : Prop :=
  h.Live v ∧ (m.kind v).isView = true ∧ m.ptr v = some k

/-! ## The invariant -/

/-- The kernel's records: objects are built on older ones, and destroyed once, after
everything that is built on them. -/
structure Ledger (m : Mem) : Prop where
  range : ∀ k ∈ m.destroyed, k < m.objs.length
  once : m.destroyed.Nodup
  older : ∀ k c, m.BuiltOn k c → c < k
  ordered : ∀ post c pre, m.destroyed = post ++ c :: pre → ∀ k, m.BuiltOn k c → k ∈ pre

/-- `i` is the live wrapper that owns the kernel object `k`. -/
def Owner (h : Heap) (m : Mem) (i k : Nat) : Prop :=
  h.Live i ∧ (m.kind i).isView = false ∧ m.ptr i = some k

/-- `p` is a manager, and `k` is the kernel manager it owns or has owned. -/
def HomeOf (m : Mem) (p k : Nat) : Prop :=
  m.kind p = .chainstateManager ∧ (m.ptr p = some k ∨ m.ptr p = none ∧ k ∈ m.destroyed)

/-- The fields of the wrapper `i` agree with those of the one it refers to, and with what
the kernel built. -/
def Linked (h : Heap) (m : Mem) (i : Nat) : Prop :=
  match m.kind i with
  | .context => h.parent i = none ∧ ∃ k, m.ptr i = some k ∧ m.objs[k]? = some ⟨.context, none⟩
  | .chainstateManagerOptions => ∃ p c k, h.parent i = some p ∧ m.kind p = .context ∧
      m.ptr p = some c ∧ m.ptr i = some k ∧ m.objs[k]? = some ⟨.chainstateManagerOptions, some c⟩
  | .chainstateManager => ∃ p c, h.parent i = some p ∧ m.kind p = .context ∧
      m.ptr p = some c ∧ ∀ k, m.ptr i = some k → m.objs[k]? = some ⟨.chainstateManager, some c⟩
  | .chain | .blockTreeEntry => ∃ p k, h.parent i = some p ∧ m.ptr i = some k ∧ HomeOf m p k

/-- The kernel objects not yet destroyed are those of the live wrappers, one each. -/
structure Owned (h : Heap) (m : Mem) : Prop where
  ledger : Ledger m
  linked : ∀ i, h.Live i → Linked h m i
  fresh : ∀ i k, Owner h m i k → k ∉ m.destroyed
  alone : ∀ i j k, Owner h m i k → Owner h m j k → i = j
  owned : ∀ k, k < m.objs.length → k ∈ m.destroyed ∨ ∃ i, Owner h m i k

structure Inv (s : World) : Prop where
  counted : Counted s.heap s.held
  owned : Owned s.heap s.mem

variable {h h' : Heap} {m m' : Mem} {held : Nat → Nat} {i w k : Nat} {s : World}

/-! ## What the links say -/

theorem linked_manager (hkind : m.kind i = .chainstateManager) : Linked h m i ↔
    ∃ p c, h.parent i = some p ∧ m.kind p = .context ∧ m.ptr p = some c ∧
      ∀ k, m.ptr i = some k → m.objs[k]? = some ⟨.chainstateManager, some c⟩ := by
  unfold Linked
  rw [hkind]

theorem linked_view (hview : (m.kind i).isView = true) : Linked h m i ↔
    ∃ p k, h.parent i = some p ∧ m.ptr i = some k ∧ HomeOf m p k := by
  unfold Linked
  split
  next hkind => rw [hkind] at hview; cases hview
  next hkind => rw [hkind] at hview; cases hview
  next hkind => rw [hkind] at hview; cases hview
  next => exact Iff.rfl
  next => exact Iff.rfl

/-- What refers to a manager is a view. -/
theorem Linked.view_of_manager (hl : Linked h m i) {p : Nat} (hp : h.parent i = some p)
    (hkind : m.kind p = .chainstateManager) : (m.kind i).isView = true := by
  have hno : ∀ q, h.parent i = some q → m.kind q ≠ .context := by
    intro q hq hkq
    rw [hp, Option.some.injEq] at hq
    rw [← hq, hkind] at hkq
    cases hkq
  unfold Linked at hl
  split at hl
  next =>
    rw [hp] at hl
    cases hl.1
  next =>
    obtain ⟨q, _, _, hq, hkq, _⟩ := hl
    exact absurd hkq (hno q hq)
  next =>
    obtain ⟨q, _, hq, hkq, _⟩ := hl
    exact absurd hkq (hno q hq)
  next hkind => rw [hkind]; rfl
  next hkind => rw [hkind]; rfl

theorem owner_of_kind {kind : Kind} (hlive : h.Live i) (hkind : m.kind i = kind)
    (hview : kind.isView = false) (hptr : m.ptr i = some k) : Owner h m i k :=
  ⟨hlive, hkind ▸ hview, hptr⟩

/-- What an owner owns exists, and its base is the object of the wrapper it refers to. -/
theorem Owned.object (ho : Owned h m) (hw : Owner h m i k) :
    ∃ o, m.objs[k]? = some o ∧
      ∀ c, o.base = some c → ∃ p, h.parent i = some p ∧ m.kind p = .context ∧ m.ptr p = some c := by
  obtain ⟨hlive, hview, hptr⟩ := hw
  have hlink := ho.linked i hlive
  unfold Linked at hlink
  split at hlink
  next =>
    obtain ⟨_, k', hk', hobj⟩ := hlink
    rw [hptr, Option.some.injEq] at hk'
    refine ⟨_, hk' ▸ hobj, ?_⟩
    intro c hc
    cases hc
  next =>
    obtain ⟨p, c, k', hp, hkind, hc, hk', hobj⟩ := hlink
    rw [hptr, Option.some.injEq] at hk'
    refine ⟨_, hk' ▸ hobj, ?_⟩
    intro c' hc'
    exact ⟨p, hp, hkind, hc'.symm ▸ hc⟩
  next =>
    obtain ⟨p, c, hp, hkind, hc, hobj⟩ := hlink
    refine ⟨_, hobj k hptr, ?_⟩
    intro c' hc'
    exact ⟨p, hp, hkind, hc'.symm ▸ hc⟩
  next hkind => rw [hkind] at hview; cases hview
  next hkind => rw [hkind] at hview; cases hview

theorem Owned.owner_lt (ho : Owned h m) (hw : Owner h m i k) : k < m.objs.length := by
  obtain ⟨o, hobj, _⟩ := ho.object hw
  exact (List.getElem?_eq_some_iff.mp hobj).1

/-- What is built on a live wrapper's object is destroyed, or owned by a wrapper that
refers to that one, which is then a context. -/
theorem Owned.dependents (hc : Counted h held) (ho : Owned h m) (hw : Owner h m w k) {j : Nat}
    (hj : m.BuiltOn j k) :
    j ∈ m.destroyed ∨ m.kind w = .context ∧ ∃ i, i ∈ h.children w := by
  obtain ⟨o, hj, hbase⟩ := hj
  have hlt : j < m.objs.length := (List.getElem?_eq_some_iff.mp hj).1
  refine (ho.owned j hlt).imp_right ?_
  intro hown
  obtain ⟨i, hi⟩ := hown
  obtain ⟨o', hobj, hlink⟩ := ho.object hi
  rw [hj, Option.some.injEq] at hobj
  subst hobj
  obtain ⟨p, hp, hkind, hptr⟩ := hlink k hbase
  have hp' : Owner h m p k := owner_of_kind (hc.live_parent hi.1 hp) hkind rfl hptr
  have hpw : p = w := ho.alone p w k hp' hw
  exact ⟨hpw ▸ hkind, i, hc.mem_children.mpr ⟨hi.1, hpw ▸ hp⟩⟩

/-- A view refers to a wrapper that owns what the view points into, if it is not destroyed. -/
theorem Owned.home (hc : Counted h held) (ho : Owned h m) {v : Nat} (hv : ViewOf h m k v) :
    ∃ p, h.parent v = some p ∧ (Owner h m p k ∨ k ∈ m.destroyed) := by
  obtain ⟨hlive, hview, hptr⟩ := hv
  obtain ⟨p, l, hp, hl, hkind, hstate⟩ := (linked_view hview).mp (ho.linked v hlive)
  rw [hptr, Option.some.injEq] at hl
  subst hl
  refine ⟨p, hp, hstate.imp (fun hown => ?_) And.right⟩
  exact owner_of_kind (hc.live_parent hlive hp) hkind rfl hown

/-- A view into what a live wrapper owns refers to that wrapper. -/
theorem Owned.view_child (hc : Counted h held) (ho : Owned h m) (hw : Owner h m w k) {v : Nat}
    (hv : ViewOf h m k v) : v ∈ h.children w := by
  obtain ⟨p, hp, hown | hgone⟩ := ho.home hc hv
  · have hpw : p = w := ho.alone p w k hown hw
    exact hc.mem_children.mpr ⟨hv.1, hpw ▸ hp⟩
  · exact absurd hgone (ho.fresh w k hw)

/-- A view points to a manager that was created. -/
theorem Owned.view_lt (hc : Counted h held) (ho : Owned h m) {v : Nat} (hv : ViewOf h m k v) :
    k < m.objs.length := by
  obtain ⟨p, _, hown | hgone⟩ := ho.home hc hv
  · exact ho.owner_lt hown
  · exact ho.ledger.range k hgone

/-! ## What each change preserves -/

/-- `Linked` reads the wrapper itself and the one it refers to. -/
theorem Linked.frame (hl : Linked h m i) (hparent : h'.parent i = h.parent i)
    (hsame : ∀ j, j = i ∨ h.parent i = some j → m'.kind j = m.kind j ∧ m'.ptr j = m.ptr j)
    (hobjs : ∀ (k : Nat) o, m.objs[k]? = some o → m'.objs[k]? = some o)
    (hgone : ∀ k ∈ m.destroyed, k ∈ m'.destroyed) : Linked h' m' i := by
  have hi := hsame i (Or.inl rfl)
  have hhome : (∃ p k, h.parent i = some p ∧ m.ptr i = some k ∧ HomeOf m p k) →
      ∃ p k, h.parent i = some p ∧ m.ptr i = some k ∧ HomeOf m' p k := by
    intro hview
    obtain ⟨p, k, hp, hk, hkind, hstate⟩ := hview
    have hsp := hsame p (Or.inr hp)
    refine ⟨p, k, hp, hk, hsp.1.trans hkind, ?_⟩
    rw [hsp.2]
    exact hstate.imp_right fun hno => ⟨hno.1, hgone k hno.2⟩
  unfold Linked at hl ⊢
  rw [hi.1, hi.2, hparent]
  split at hl
  next =>
    obtain ⟨hp, k, hk, hobj⟩ := hl
    exact ⟨hp, k, hk, hobjs k _ hobj⟩
  next =>
    obtain ⟨p, c, k, hp, hkind, hc, hk, hobj⟩ := hl
    have hsp := hsame p (Or.inr hp)
    exact ⟨p, c, k, hp, hsp.1.trans hkind, hsp.2.trans hc, hk, hobjs k _ hobj⟩
  next =>
    obtain ⟨p, c, hp, hkind, hc, hobj⟩ := hl
    have hsp := hsame p (Or.inr hp)
    exact ⟨p, c, hp, hsp.1.trans hkind, hsp.2.trans hc, fun k hk => hobjs k _ (hobj k hk)⟩
  next => exact hhome hl
  next => exact hhome hl

theorem builtOn_congr (hobjs : m'.objs = m.objs) (k c : Nat) : m'.BuiltOn k c ↔ m.BuiltOn k c := by
  rw [Mem.BuiltOn, hobjs]
  rfl

theorem Ledger.congr (hl : Ledger m) (hobjs : m'.objs = m.objs)
    (hgone : m'.destroyed = m.destroyed) : Ledger m' := by
  refine ⟨?_, ?_, ?_, ?_⟩
  · rw [hgone, hobjs]
    exact hl.range
  · rw [hgone]
    exact hl.once
  · intro k c hk
    exact hl.older k c ((builtOn_congr hobjs k c).mp hk)
  · intro post c pre hsplit k hk
    exact hl.ordered post c pre (hgone ▸ hsplit) k ((builtOn_congr hobjs k c).mp hk)

/-- Owners are all that ties the kernel's objects to the wrappers. -/
theorem Owned.congr (ho : Owned h m) (hobjs : m'.objs = m.objs) (hgone : m'.destroyed = m.destroyed)
    (howner : ∀ i k, Owner h' m' i k ↔ Owner h m i k) (hlinked : ∀ i, h'.Live i → Linked h' m' i) :
    Owned h' m' := by
  refine ⟨ho.ledger.congr hobjs hgone, hlinked, ?_, ?_, ?_⟩
  · intro i k hi
    rw [hgone]
    exact ho.fresh i k ((howner i k).mp hi)
  · intro i j k hi hj
    exact ho.alone i j k ((howner i k).mp hi) ((howner j k).mp hj)
  · intro k hk
    rw [hobjs] at hk
    rw [hgone]
    exact (ho.owned k hk).imp_right fun hown => hown.imp fun i hi => (howner i k).mpr hi

/-- Counts may change as long as the same wrappers are live. -/
theorem Owned.recount (ho : Owned h m) (hlive : ∀ i, h'.Live i ↔ h.Live i)
    (hparent : h'.parent = h.parent) : Owned h' m := by
  refine ho.congr rfl rfl (fun i k => and_congr_left' (hlive i)) ?_
  intro i hi
  exact (ho.linked i ((hlive i).mp hi)).frame (congrFun hparent i) (fun _ _ => ⟨rfl, rfl⟩)
    (fun _ _ hobj => hobj) fun _ hk => hk

theorem Ledger.destroy (hl : Ledger m) (hk : k < m.objs.length) (hnew : k ∉ m.destroyed)
    (hbuilt : ∀ j, m.BuiltOn j k → j ∈ m.destroyed) (hobjs : m'.objs = m.objs)
    (hgone : m'.destroyed = k :: m.destroyed) : Ledger m' := by
  have hbase := builtOn_congr hobjs
  refine ⟨?_, ?_, ?_, ?_⟩
  · rw [hgone, hobjs]
    exact List.forall_mem_cons.mpr ⟨hk, hl.range⟩
  · rw [hgone]
    exact List.nodup_cons.mpr ⟨hnew, hl.once⟩
  · intro j c hj
    exact hl.older j c ((hbase j c).mp hj)
  · intro post c pre hsplit j hj
    rw [hgone, List.cons_eq_append_iff] at hsplit
    rcases hsplit with ⟨_, hhead⟩ | ⟨post', _, htail⟩
    · rw [List.cons.injEq] at hhead
      obtain ⟨hck, hpre⟩ := hhead
      rw [hpre]
      exact hbuilt j (hck ▸ (hbase j c).mp hj)
    · exact hl.ordered post' c pre htail j ((hbase j c).mp hj)

/-- A live wrapper's object is destroyed, and the wrapper lets go of it or is freed. -/
theorem Owned.destroy (ho : Owned h m) (hw : Owner h m w k)
    (hbuilt : ∀ j, m.BuiltOn j k → j ∈ m.destroyed) (hobjs : m'.objs = m.objs)
    (hgone : m'.destroyed = k :: m.destroyed)
    (howner : ∀ i j, Owner h' m' i j ↔ Owner h m i j ∧ i ≠ w)
    (hlinked : ∀ i, h'.Live i → Linked h' m' i) : Owned h' m' := by
  have hledger := ho.ledger.destroy (ho.owner_lt hw) (ho.fresh w k hw) hbuilt hobjs hgone
  refine ⟨hledger, hlinked, ?_, ?_, ?_⟩
  · intro i j hi
    obtain ⟨hi, hne⟩ := (howner i j).mp hi
    rw [hgone, List.mem_cons, not_or]
    exact ⟨fun hjk => hne (ho.alone i w k (hjk ▸ hi) hw), ho.fresh i j hi⟩
  · intro i j l hi hj
    exact ho.alone i j l ((howner i l).mp hi).1 ((howner j l).mp hj).1
  · intro j hj
    rw [hobjs] at hj
    rw [hgone, List.mem_cons]
    rcases ho.owned j hj with hold | ⟨i, hi⟩
    · exact Or.inl (Or.inr hold)
    by_cases hiw : i = w
    · subst hiw
      have hjk : some j = some k := hi.2.2.symm.trans hw.2.2
      exact Or.inl (Or.inl (Option.some.inj hjk))
    · exact Or.inr ⟨i, (howner i j).mpr ⟨hi, hiw⟩⟩

/-! ### A wrapper is freed, or a manager closed -/

theorem release_none (hptr : m.ptr w = none) : m.release w = m := by
  rw [Mem.release, hptr]

theorem release_some (hptr : m.ptr w = some k) :
    (m.release w).kind = m.kind ∧ (m.release w).objs = m.objs ∧
      (m.release w).destroyed = k :: m.destroyed ∧ (m.release w).ptr w = none ∧
      ∀ i, i ≠ w → (m.release w).ptr i = m.ptr i := by
  rw [Mem.release, hptr]
  exact ⟨rfl, rfl, rfl, Function.update_self _ _ _, fun _ hi => Function.update_of_ne hi _ _⟩

/-- Freeing an owner destroys what it owns; other wrappers' fields stay. -/
theorem tpDealloc_owner (hview : (m.kind w).isView = false) (hptr : m.ptr w = some k) :
    (tpDealloc m w).kind = m.kind ∧ (tpDealloc m w).objs = m.objs ∧
      (tpDealloc m w).destroyed = k :: m.destroyed ∧
      ∀ i, i ≠ w → (tpDealloc m w).ptr i = m.ptr i := by
  obtain ⟨hkind, hobjs, hgone, _, hrest⟩ := release_some hptr
  unfold tpDealloc
  split
  next => exact ⟨hkind, hobjs, hgone, hrest⟩
  next =>
    rw [chainstateManagerOptionsDealloc, hptr]
    exact ⟨rfl, rfl, rfl, fun _ _ => rfl⟩
  next => exact ⟨hkind, hobjs, hgone, hrest⟩
  next h => rw [h] at hview; cases hview
  next h => rw [h] at hview; cases hview

/-- Freeing a view, or a wrapper whose pointer is `NULL`, destroys nothing. -/
theorem tpDealloc_idle (hw : (m.kind w).isView = true ∨ m.ptr w = none) : tpDealloc m w = m := by
  have hnone : ∀ h : (m.kind w).isView = false, m.ptr w = none := by
    intro h
    rw [h] at hw
    exact hw.resolve_left Bool.false_ne_true
  unfold tpDealloc
  split
  next h => exact release_none (hnone (h ▸ rfl))
  next h => rw [chainstateManagerOptionsDealloc, hnone (h ▸ rfl)]
  next h => exact release_none (hnone (h ▸ rfl))
  next => rfl
  next => rfl

theorem tpDealloc_not_owner (hlive : h.Live w) (hw : ∀ k, ¬ Owner h m w k) : tpDealloc m w = m := by
  refine tpDealloc_idle ?_
  cases hview : (m.kind w).isView with
  | true => exact Or.inl rfl
  | false =>
    refine Or.inr (Option.eq_none_iff_forall_not_mem.mpr ?_)
    intro k hk
    exact hw k ⟨hlive, hview, hk⟩

/-- The freed wrapper is a child of nothing and has no child. -/
theorem Linked.freed (hc : Counted h held) (hi : 0 < held w) (hlast : h.count w = 1)
    (hkind : m'.kind = m.kind) (hptr : ∀ i, i ≠ w → m'.ptr i = m.ptr i) (hobjs : m'.objs = m.objs)
    (hgone : ∀ k ∈ m.destroyed, k ∈ m'.destroyed) {i : Nat} (hl : Linked h m i)
    (hlive : (h.lower w).Live i) : Linked (h.lower w) m' i := by
  obtain ⟨hlive, hiw⟩ := (live_free hlast i).mp hlive
  refine hl.frame rfl ?_ (fun k o hobj => hobjs ▸ hobj) hgone
  intro j hj
  refine ⟨congrFun hkind j, hptr j ?_⟩
  rcases hj with rfl | hj
  · exact hiw
  · intro hjw
    exact hc.childless hi hlast i (hc.mem_children.mpr ⟨hlive, hjw ▸ hj⟩)

/-- **Freeing a wrapper** keeps the invariant. -/
theorem Owned.free (hc : Counted h held) (ho : Owned h m) (hi : 0 < held w)
    (hlast : h.count w = 1) : Owned (h.lower w) (tpDealloc m w) := by
  by_cases hown : ∃ k, Owner h m w k
  · obtain ⟨k, hw⟩ := hown
    obtain ⟨hkind, hobjs, hgone, hptr⟩ := tpDealloc_owner hw.2.1 hw.2.2
    refine ho.destroy hw ?_ hobjs hgone ?_ ?_
    · intro j hj
      refine (ho.dependents hc hw hj).resolve_right ?_
      intro hno
      obtain ⟨_, i, hmem⟩ := hno
      exact hc.childless hi hlast i hmem
    · intro i j
      unfold Owner
      rw [live_free hlast, hkind, and_assoc, and_assoc]
      refine and_congr_right fun _ => ?_
      by_cases hiw : i = w
      · exact iff_of_false (fun hno => hno.1 hiw) fun hno => hno.2 hiw
      · rw [hptr i hiw, and_comm]
    · intro i hlive
      exact (ho.linked i ((live_free hlast i).mp hlive).1).freed hc hi hlast hkind hptr hobjs
        (fun k hk => hgone ▸ List.mem_cons_of_mem _ hk) hlive
  · have hno : ∀ k, ¬ Owner h m w k := fun k hk => hown ⟨k, hk⟩
    rw [tpDealloc_not_owner (hc.live_of_held hi) hno]
    have howner : ∀ i k, Owner (h.lower w) m i k ↔ Owner h m i k := by
      intro i k
      unfold Owner
      rw [live_free hlast, and_assoc]
      refine and_congr_right fun hlive => and_iff_right_of_imp ?_
      intro hi hiw
      exact hno k (hiw ▸ ⟨hlive, hi⟩)
    refine ho.congr rfl rfl howner ?_
    intro i hlive
    exact (ho.linked i ((live_free hlast i).mp hlive).1).freed hc hi hlast rfl (fun _ _ => rfl) rfl
      (fun _ hk => hk) hlive

/-- **Closing a manager** keeps the invariant: its views stay, with a manager that has
let go of what they point into. -/
theorem Owned.close (hc : Counted h held) (ho : Owned h m) (hlive : h.Live w)
    (hkind : m.kind w = .chainstateManager) : Owned h (chainstateManagerCloseImpl m w) := by
  unfold chainstateManagerCloseImpl
  cases hptr : m.ptr w with
  | none =>
    rw [release_none hptr]
    exact ho
  | some k =>
    have hw : Owner h m w k := owner_of_kind hlive hkind rfl hptr
    obtain ⟨hkinds, hobjs, hgone, hself, hrest⟩ := release_some hptr
    refine ho.destroy hw ?_ hobjs hgone ?_ ?_
    · intro j hj
      refine (ho.dependents hc hw hj).resolve_right ?_
      intro hcontext
      rw [hkind] at hcontext
      cases hcontext.1
    · intro i j
      unfold Owner
      rw [hkinds]
      by_cases hiw : i = w
      · subst hiw
        rw [hself]
        refine iff_of_false ?_ fun hno => hno.2 rfl
        exact fun hno => absurd hno.2.2.symm (Option.some_ne_none j)
      · rw [hrest i hiw]
        exact (and_iff_left hiw).symm
    · intro i hi
      have hl := ho.linked i hi
      by_cases hiw : i = w
      · -- The manager itself: its context is another wrapper.
        subst hiw
        obtain ⟨p, c, hp, hkp, hcp, _⟩ := (linked_manager hkind).mp hl
        have hpi : p ≠ i := (hc.older i p hp).ne
        refine (linked_manager (hkinds ▸ hkind)).mpr ⟨p, c, hp, hkinds ▸ hkp, hrest p hpi ▸ hcp, ?_⟩
        intro k' hk'
        exact absurd (hk'.symm.trans hself) (Option.some_ne_none k')
      by_cases hpw : h.parent i = some w
      · -- One of its views.
        have hview := hl.view_of_manager hpw hkind
        obtain ⟨p, k', hp, hk', hkp, hstate⟩ := (linked_view hview).mp hl
        rw [hpw, Option.some.injEq] at hp
        subst hp
        rw [hptr, Option.some.injEq] at hstate
        have hkk : k = k' := hstate.resolve_right fun hno => Option.some_ne_none k hno.1
        have hmem : k' ∈ (m.release w).destroyed := hgone ▸ hkk ▸ List.mem_cons_self
        refine (linked_view (hkinds ▸ hview)).mpr ⟨w, k', hpw, hrest i hiw ▸ hk', hkinds ▸ hkp, ?_⟩
        exact Or.inr ⟨hself, hmem⟩
      · refine hl.frame rfl ?_ (fun k o hobj => hobjs ▸ hobj) fun _ hk =>
          hgone ▸ List.mem_cons_of_mem _ hk
        intro j hj
        refine ⟨congrFun hkinds j, hrest j ?_⟩
        rcases hj with rfl | hj
        · exact hiw
        · exact fun hjw => hpw (hjw ▸ hj)

/-! ### A wrapper is made -/

theorem init_self (m : Mem) (i : Nat) (kind : Kind) (ptr : Option Nat) :
    (m.init i kind ptr).kind i = kind ∧ (m.init i kind ptr).ptr i = ptr :=
  ⟨Function.update_self _ _ _, Function.update_self _ _ _⟩

theorem init_of_ne (m : Mem) {j : Nat} (hj : j ≠ i) (kind : Kind) (ptr : Option Nat) :
    (m.init i kind ptr).kind j = m.kind j ∧ (m.init i kind ptr).ptr j = m.ptr j :=
  ⟨Function.update_of_ne hj _ _, Function.update_of_ne hj _ _⟩

theorem Linked.init (hc : Counted h held) (hl : Linked h m i) (hi : h.Live i)
    (parent : Option Nat) (kind : Kind) (ptr : Option Nat) :
    Linked (h.alloc parent) (m.init h.next kind ptr) i := by
  have hne : ∀ j, h.Live j → j ≠ h.next := fun j hj hjn => hc.not_live_next (hjn ▸ hj)
  refine hl.frame ?_ ?_ (fun _ _ hobj => hobj) fun _ hk => hk
  · rw [parent_alloc, if_neg (hne i hi)]
  · intro j hj
    have hlive : h.Live j := by
      rcases hj with rfl | hj
      · exact hi
      · exact hc.live_parent hi hj
    exact init_of_ne m (hne j hlive) kind ptr

theorem owner_init (hc : Counted h held) {parent : Option Nat}
    (hparent : ∀ q, parent = some q → h.Live q) (kind : Kind) (ptr : Option Nat) (i k : Nat) :
    Owner (h.alloc parent) (m.init h.next kind ptr) i k ↔
      (i = h.next ∧ kind.isView = false ∧ ptr = some k) ∨ Owner h m i k := by
  unfold Owner
  rw [live_alloc hparent]
  by_cases hi : i = h.next
  · subst hi
    rw [(init_self m _ kind ptr).1, (init_self m _ kind ptr).2]
    simp only [hc.not_live_next, or_false, true_and, false_and]
  · rw [(init_of_ne m hi kind ptr).1, (init_of_ne m hi kind ptr).2]
    simp only [hi, false_or, false_and]

/-- **A new view** of a manager. -/
theorem Owned.wrap_view (hc : Counted h held) (ho : Owned h m) {kind : Kind}
    (hview : kind.isView = true) {p : Nat} (hp : h.Live p) (hhome : HomeOf m p k) :
    Owned (h.alloc (some p)) (m.init h.next kind (some k)) := by
  have hparent : ∀ q, some p = some q → h.Live q := fun q hq => Option.some.inj hq ▸ hp
  refine ho.congr rfl rfl ?_ ?_
  · intro i j
    rw [owner_init hc hparent, or_iff_right]
    intro hno
    rw [hview] at hno
    cases hno.2.1
  · intro i hi
    rcases (live_alloc hparent i).mp hi with rfl | hi
    · have hpn : p ≠ h.next := fun hpn => hc.not_live_next (hpn ▸ hp)
      have hself := init_self m h.next kind (some k)
      have hother := init_of_ne m hpn kind (some k)
      have hnew : ((m.init h.next kind (some k)).kind h.next).isView = true := by
        rw [hself.1]
        exact hview
      refine (linked_view hnew).mpr ⟨p, k, ?_, hself.2, ?_⟩
      · rw [parent_alloc, if_pos rfl]
      · unfold HomeOf
        rw [hother.1, hother.2]
        exact hhome
    · exact (ho.linked i hi).init hc hi _ _ _

theorem getElem?_create (o : KObj) {k : Nat} {o' : KObj} (hobj : m.objs[k]? = some o') :
    (m.create o).objs[k]? = some o' :=
  (List.getElem?_append_left (List.getElem?_eq_some_iff.mp hobj).1).trans hobj

theorem builtOn_create (o : KObj) (k c : Nat) :
    (m.create o).BuiltOn k c ↔ m.BuiltOn k c ∨ k = m.objs.length ∧ o.base = some c := by
  unfold Mem.BuiltOn Mem.create
  rcases Nat.lt_trichotomy k m.objs.length with hk | hk | hk
  · rw [List.getElem?_append_left hk, or_iff_left fun hno => hk.ne hno.1]
  · subst hk
    rw [List.getElem?_concat_length, List.getElem?_eq_none (Nat.le_refl _)]
    simp
  · have hlen : (m.objs ++ [o]).length ≤ k := by
      rw [List.length_append]
      exact hk
    rw [List.getElem?_eq_none hlen, List.getElem?_eq_none hk.le]
    exact (or_iff_left fun hno => hk.ne' hno.1).symm

/-- **A new kernel object**, built on one that is not destroyed. -/
theorem Ledger.create (hl : Ledger m) {o : KObj}
    (hbase : ∀ c, o.base = some c → c < m.objs.length ∧ c ∉ m.destroyed) : Ledger (m.create o) := by
  have hlen : (m.create o).objs.length = m.objs.length + 1 := List.length_append
  refine ⟨?_, hl.once, ?_, ?_⟩
  · intro k hk
    rw [hlen]
    exact Nat.lt_succ_of_lt (hl.range k hk)
  · intro k c hk
    rcases (builtOn_create o k c).mp hk with hk | ⟨rfl, hc⟩
    · exact hl.older k c hk
    · exact (hbase c hc).1
  · intro post c pre hsplit k hk
    rcases (builtOn_create o k c).mp hk with hk | ⟨_, hc⟩
    · exact hl.ordered post c pre hsplit k hk
    · have hmem : c ∈ m.destroyed := by
        rw [show m.destroyed = post ++ c :: pre from hsplit]
        exact List.mem_append_right _ List.mem_cons_self
      exact absurd hmem (hbase c hc).2

/-- What a constructor builds on: nothing, or the object of a live `Context`, to which
the wrapper will refer. -/
def Grounded (h : Heap) (m : Mem) (o : KObj) (parent : Option Nat) : Prop :=
  o.kind = .context ∧ o.base = none ∧ parent = none ∨
    (o.kind = .chainstateManagerOptions ∨ o.kind = .chainstateManager) ∧
      ∃ p c, o.base = some c ∧ parent = some p ∧ h.Live p ∧ m.kind p = .context ∧ m.ptr p = some c

theorem Grounded.live {o : KObj} {parent : Option Nat} (hg : Grounded h m o parent) :
    ∀ q, parent = some q → h.Live q := by
  intro q hq
  rcases hg with ⟨_, _, hnone⟩ | ⟨_, p, c, _, hp, hlive, _⟩
  · rw [hnone] at hq
    cases hq
  · rw [hp, Option.some.injEq] at hq
    exact hq ▸ hlive

theorem Grounded.isView {o : KObj} {parent : Option Nat} (hg : Grounded h m o parent) :
    o.kind.isView = false := by
  rcases hg with ⟨hkind, _⟩ | ⟨hkind | hkind, _⟩ <;> rw [hkind] <;> rfl

/-- The object of a live context has not been destroyed. -/
theorem Grounded.base {o : KObj} {parent : Option Nat} (hg : Grounded h m o parent)
    (ho : Owned h m) : ∀ c, o.base = some c → c < m.objs.length ∧ c ∉ m.destroyed := by
  intro c' hc'
  rcases hg with ⟨_, hnone, _⟩ | ⟨_, p, c, hc, _, hlive, hkind, hptr⟩
  · rw [hnone] at hc'
    cases hc'
  · rw [hc, Option.some.injEq] at hc'
    subst hc'
    have howner : Owner h m p c := owner_of_kind hlive hkind rfl hptr
    exact ⟨ho.owner_lt howner, ho.fresh p c howner⟩

theorem Grounded.linked {o : KObj} {parent : Option Nat} (hg : Grounded h m o parent)
    (hc : Counted h held) :
    Linked (h.alloc parent) ((m.create o).init h.next o.kind (some m.objs.length)) h.next := by
  obtain ⟨kind, base⟩ := o
  have hobj : (m.create ⟨kind, base⟩).objs[m.objs.length]? = some ⟨kind, base⟩ :=
    List.getElem?_concat_length
  have hparent : (h.alloc parent).parent h.next = parent := by rw [parent_alloc, if_pos rfl]
  have hself := init_self (m.create ⟨kind, base⟩) h.next kind (some m.objs.length)
  unfold Linked
  rw [hself.1, hself.2, hparent]
  rcases hg with ⟨hkind, hbase, hnone⟩ | ⟨hkind, p, c, hbase, hp, hlive, hkp, hcp⟩
  · cases hkind
    cases hbase
    exact ⟨hnone, _, rfl, hobj⟩
  · have hpn : p ≠ h.next := fun hpn => hc.not_live_next (hpn ▸ hlive)
    have hother := init_of_ne (m.create ⟨kind, base⟩) hpn kind (some m.objs.length)
    cases hbase
    rcases hkind with hkind | hkind
    · cases hkind
      exact ⟨p, c, _, hp, hother.1.trans hkp, hother.2.trans hcp, rfl, hobj⟩
    · cases hkind
      refine ⟨p, c, hp, hother.1.trans hkp, hother.2.trans hcp, ?_⟩
      intro k hk
      exact Option.some.inj hk ▸ hobj

/-- **A new owner** of a new kernel object. -/
theorem Owned.construct (hc : Counted h held) (ho : Owned h m) {o : KObj} {parent : Option Nat}
    (hg : Grounded h m o parent) :
    Owned (h.alloc parent) ((m.create o).init h.next o.kind (some m.objs.length)) := by
  have howner : ∀ i k, Owner (h.alloc parent)
      ((m.create o).init h.next o.kind (some m.objs.length)) i k ↔
        (i = h.next ∧ k = m.objs.length) ∨ Owner h m i k := by
    intro i k
    refine (owner_init hc hg.live o.kind _ i k).trans (or_congr_left (and_congr_right fun _ => ?_))
    rw [Option.some.injEq, eq_comm (a := m.objs.length)]
    exact and_iff_right hg.isView
  refine ⟨(ho.ledger.create (hg.base ho)).congr rfl rfl, ?_, ?_, ?_, ?_⟩
  · intro i hi
    rcases (live_alloc hg.live i).mp hi with rfl | hi
    · exact hg.linked hc
    · refine Linked.init hc ?_ hi _ _ _
      exact (ho.linked i hi).frame rfl (fun _ _ => ⟨rfl, rfl⟩)
        (fun _ _ hobj => getElem?_create o hobj)
        fun _ hk => hk
  · intro i k hi
    rcases (howner i k).mp hi with ⟨_, hk⟩ | hi
    · intro hno
      exact (ho.ledger.range k hno).ne hk
    · exact ho.fresh i k hi
  · intro i j k hi hj
    rcases (howner i k).mp hi with ⟨hin, hk⟩ | hi <;> rcases (howner j k).mp hj with ⟨hjn, hk'⟩ | hj
    · exact hin.trans hjn.symm
    · exact absurd hk (ho.owner_lt hj).ne
    · exact absurd hk' (ho.owner_lt hi).ne
    · exact ho.alone i j k hi hj
  · intro k hk
    have hlen : (m.create o).objs.length = m.objs.length + 1 := List.length_append
    have hk' : k < m.objs.length + 1 := hlen ▸ hk
    by_cases hkl : k = m.objs.length
    · exact Or.inr ⟨h.next, (howner h.next k).mpr (Or.inl ⟨rfl, hkl⟩)⟩
    · have hlt : k < m.objs.length := by omega
      exact (ho.owned k hlt).imp_right fun hown => hown.imp fun i hi => (howner i k).mpr (Or.inr hi)

/-- A new kernel object that is destroyed at once. -/
theorem Owned.create_destroy (ho : Owned h m) {o : KObj} {parent : Option Nat}
    (hg : Grounded h m o parent) : Owned h ((m.create o).destroy m.objs.length) := by
  have hlen : (m.create o).objs.length = m.objs.length + 1 := List.length_append
  have hledger := ho.ledger.create (hg.base ho)
  have hnew : m.objs.length ∉ m.destroyed := fun hno => Nat.lt_irrefl _ (ho.ledger.range _ hno)
  refine ⟨hledger.destroy ?_ hnew ?_ rfl rfl, ?_, ?_, ho.alone, ?_⟩
  · rw [hlen]
    exact Nat.lt_succ_self _
  · intro j hj
    have hlt := hledger.older j _ hj
    obtain ⟨_, hobj, _⟩ := hj
    have hle := (List.getElem?_eq_some_iff.mp hobj).1
    omega
  · intro i hi
    exact (ho.linked i hi).frame rfl (fun _ _ => ⟨rfl, rfl⟩)
      (fun _ _ hobj => getElem?_create o hobj)
      fun _ hk => List.mem_cons_of_mem _ hk
  · intro i k hi hno
    rcases List.mem_cons.mp hno with hk | hk
    · exact (ho.owner_lt hi).ne hk
    · exact ho.fresh i k hi hk
  · intro k hk
    have hk' : k < m.objs.length + 1 := hlen ▸ hk
    by_cases hkl : k = m.objs.length
    · exact Or.inl (hkl ▸ List.mem_cons_self)
    · have hlt : k < m.objs.length := by omega
      exact (ho.owned k hlt).imp_left (List.mem_cons_of_mem _)

/-! ## Steps -/

/-- What is destroyed between `m₀` and `m` is pointed into by no live view. -/
def Unviewed (m₀ : Mem) (h : Heap) (m : Mem) : Prop :=
  ∀ k ∈ m.destroyed, k ∉ m₀.destroyed → ∀ v, ¬ ViewOf h m k v

/-- A step that keeps the invariant and destroys nothing under a view. -/
structure Orderly (s s' : World) : Prop where
  inv : Inv s'
  unviewed : Unviewed s.mem s'.heap s'.mem

theorem Orderly.of_eq {s s' : World} (hs' : Inv s') (h : s'.mem.destroyed = s.mem.destroyed) :
    Orderly s s' :=
  ⟨hs', fun _ hk hno => absurd (h ▸ hk) hno⟩

theorem construct_orderly (hs : Inv s) {o : KObj} {context : Option Nat}
    (hg : Grounded s.heap s.mem o context) (out : Outcome) :
    Orderly s (construct s o context out) := by
  cases out with
  | kernelFails => exact .of_eq hs rfl
  | allocFails =>
    refine ⟨⟨hs.counted, hs.owned.create_destroy hg⟩, ?_⟩
    intro k hk hno v hv
    rw [(List.mem_cons.mp hk).resolve_right hno] at hv
    exact Nat.lt_irrefl _ (hs.owned.view_lt hs.counted hv)
  | ok => exact .of_eq ⟨hs.counted.alloc hg.live, hs.owned.construct hs.counted hg⟩ rfl

/-- Views are made on behalf of a live manager. -/
theorem wrap_view_orderly (hs : Inv s) {kind : Kind} (hview : kind.isView = true) {p : Nat}
    (hp : s.heap.Live p) (hhome : HomeOf s.mem p k) :
    Orderly s (s.wrap kind (some k) (some p)) := by
  have hparent : ∀ q, some p = some q → s.heap.Live q := fun q hq => Option.some.inj hq ▸ hp
  exact .of_eq ⟨hs.counted.alloc hparent, hs.owned.wrap_view hs.counted hview hp hhome⟩ rfl

theorem blockTreeEntryWrap_orderly (hs : Inv s) {p : Nat} (hp : s.heap.Live p)
    (hhome : HomeOf s.mem p k) (alloc : Bool) :
    Orderly s (blockTreeEntryWrap s (some k) (some p) alloc) := by
  cases alloc with
  | false => exact .of_eq hs rfl
  | true => exact wrap_view_orderly hs rfl hp hhome

theorem checkPtr_orderly (hs : Inv s) {self : Nat} {act : World}
    (hact : ∀ k, s.mem.ptr self = some k → Orderly s act) : Orderly s (checkPtr s self act) := by
  unfold checkPtr
  split
  next hsome =>
    obtain ⟨k, hk⟩ := Option.isSome_iff_exists.mp hsome
    exact hact k hk
  next => exact .of_eq hs rfl

theorem incref_orderly (hs : Inv s) (hi : 0 < s.held i) : Orderly s (s.incref i) := by
  have hlive := hs.counted.live_of_held hi
  exact .of_eq ⟨hs.counted.incref hlive, hs.owned.recount (live_incref hlive) rfl⟩ rfl

theorem Unviewed.free {m₀ : Mem} (hc : Counted h held) (ho : Owned h m) (hi : 0 < held w)
    (hlast : h.count w = 1) (hu : Unviewed m₀ h m) :
    Unviewed m₀ (h.lower w) (tpDealloc m w) := by
  intro k hk hno v hv
  obtain ⟨hlive, hvw⟩ := (live_free hlast v).mp hv.1
  by_cases hown : ∃ k, Owner h m w k
  · obtain ⟨l, hw⟩ := hown
    obtain ⟨hkind, _, hgone, hptr⟩ := tpDealloc_owner hw.2.1 hw.2.2
    have hview : ViewOf h m k v := ⟨hlive, hkind ▸ hv.2.1, hptr v hvw ▸ hv.2.2⟩
    rw [hgone, List.mem_cons] at hk
    rcases hk with rfl | hold
    · exact hc.childless hi hlast v (ho.view_child hc hw hview)
    · exact hu k hold hno v hview
  · rw [tpDealloc_not_owner (hc.live_of_held hi) fun k hk => hown ⟨k, hk⟩] at hk hv
    exact hu k hk hno v ⟨hlive, hv.2⟩

/-- **Dropping a reference**: every wrapper this frees was referred to by no view. -/
theorem drop_orderly (hs : Inv s) (hi : 0 < s.held i) : Orderly s (s.drop i) := by
  have hstart : Unviewed s.mem s.heap s.mem := fun k hk hno => absurd hk hno
  have hrule := hs.counted.decref_rule (f := tpDealloc)
    (P := fun h _ m => Owned h m ∧ Unviewed s.mem h m) ?_ ?_ hi ⟨hs.owned, hstart⟩
  · exact ⟨⟨hs.counted.decref hi, hrule.1⟩, hrule.2⟩
  · intro h held j m _ _ hmany hm
    have hlive := live_lower_of_ne hmany
    refine ⟨hm.1.recount hlive rfl, ?_⟩
    intro k hk hno v hv
    exact hm.2 k hk hno v ⟨(hlive v).mp hv.1, hv.2⟩
  · intro h held j m hc hj hlast hm
    exact ⟨hm.1.free hc hj hlast, hm.2.free hc hm.1 hj hlast⟩

/-- The getters of a manager. -/
theorem manager_getter_orderly (hs : Inv s) {self : Nat} (hi : 0 < s.held self)
    (hkind : s.mem.kind self = .chainstateManager) (found alloc : Bool) :
    Orderly s (checkPtr s self
      (if found then blockTreeEntryWrap s (s.mem.ptr self) (some self) alloc else s)) := by
  refine checkPtr_orderly hs ?_
  intro k hk
  split
  next =>
    rw [hk]
    exact blockTreeEntryWrap_orderly hs (hs.counted.live_of_held hi) ⟨hkind, Or.inl hk⟩ alloc
  next => exact .of_eq hs rfl

/-- The getters of a view: the new view has the same manager. -/
theorem view_getter_orderly (hs : Inv s) {self : Nat} (hi : 0 < s.held self)
    (hview : (s.mem.kind self).isView = true) (found alloc : Bool) :
    Orderly s (checkView s self
      (if found then blockTreeEntryWrap s (s.mem.ptr self) (s.heap.parent self) alloc else s)) := by
  have hlive := hs.counted.live_of_held hi
  obtain ⟨p, k, hp, hk, hhome⟩ := (linked_view hview).mp (hs.owned.linked self hlive)
  unfold checkView
  split
  next =>
    split
    next =>
      rw [hk, hp]
      exact blockTreeEntryWrap_orderly hs (hs.counted.live_parent hlive hp) hhome alloc
    next => exact .of_eq hs rfl
  next => exact .of_eq hs rfl

theorem getActiveChain_orderly (hs : Inv s) {self : Nat} (hi : 0 < s.held self)
    (hkind : s.mem.kind self = .chainstateManager) (alloc : Bool) :
    Orderly s (getActiveChain s self alloc) := by
  refine checkPtr_orderly hs ?_
  intro k hk
  cases alloc with
  | false => exact .of_eq hs rfl
  | true =>
    rw [hk]
    exact wrap_view_orderly hs rfl (hs.counted.live_of_held hi) ⟨hkind, Or.inl hk⟩

/-- The options know their context as the wrapper does. -/
theorem managerNew_grounded (hs : Inv s) {options : Nat} (hi : 0 < s.held options)
    (hkind : s.mem.kind options = .chainstateManagerOptions) :
    Grounded s.heap s.mem
      ⟨.chainstateManager, ((s.mem.ptr options).bind (s.mem.objs[·]?)).bind KObj.base⟩
      (s.heap.parent options) := by
  have hlive := hs.counted.live_of_held hi
  have hl := hs.owned.linked options hlive
  unfold Linked at hl
  rw [hkind] at hl
  obtain ⟨p, c, k, hp, hkp, hcp, hk, hobj⟩ := hl
  refine Or.inr ⟨Or.inr rfl, p, c, ?_, hp, hs.counted.live_parent hlive hp, hkp, hcp⟩
  rw [hk, Option.bind_some, hobj]
  rfl

theorem optionsNew_grounded (hs : Inv s) {context : Nat} (hi : 0 < s.held context)
    (hkind : s.mem.kind context = .context) :
    Grounded s.heap s.mem ⟨.chainstateManagerOptions, s.mem.ptr context⟩ (some context) := by
  have hlive := hs.counted.live_of_held hi
  have hl := hs.owned.linked context hlive
  unfold Linked at hl
  rw [hkind] at hl
  obtain ⟨_, k, hk, _⟩ := hl
  exact Or.inr ⟨Or.inl rfl, context, k, hk, rfl, hlive, hkind, hk⟩

theorem call_eq_some {kind : Kind} {self : Nat} {act s' : World}
    (h : s.call kind self act = some s') : (0 < s.held self ∧ s.mem.kind self = kind) ∧ act = s' := by
  unfold World.call at h
  split at h
  next hcall => exact ⟨hcall, Option.some.inj h⟩
  next => cases h

/-- Closing a manager destroys its own object, if any. -/
theorem close_inv (hs : Inv s) {self : Nat} (hi : 0 < s.held self)
    (hkind : s.mem.kind self = .chainstateManager) :
    Inv (managerClose s self) ∧ ∀ k ∈ (managerClose s self).mem.destroyed,
      k ∉ s.mem.destroyed → s.mem.ptr self = some k := by
  have hlive := hs.counted.live_of_held hi
  refine ⟨⟨hs.counted, hs.owned.close hs.counted hlive hkind⟩, ?_⟩
  intro k hk hno
  have hk' : k ∈ (s.mem.release self).destroyed := hk
  cases hptr : s.mem.ptr self with
  | none =>
    rw [release_none hptr] at hk'
    exact absurd hk' hno
  | some l =>
    rw [(release_some hptr).2.2.1, List.mem_cons] at hk'
    rw [hk'.resolve_right hno]

/-- What the step destroys is what it closes, or no live view points into it. -/
def Justified (s : World) (e : Event) (s' : World) : Prop :=
  ∀ k ∈ s'.mem.destroyed, k ∉ s.mem.destroyed →
    (∃ i, (e = .close i ∨ e = .exit i) ∧ s.mem.ptr i = some k) ∨ ∀ v, ¬ ViewOf s'.heap s'.mem k v

/-- **One step** keeps the invariant, and is justified in what it destroys. -/
theorem step_spec (hs : Inv s) {e : Event} {s' : World} (h : s.step e = some s') :
    Inv s' ∧ Justified s e s' := by
  have hquiet : Orderly s s' → Inv s' ∧ Justified s e s' :=
    fun ho => ⟨ho.inv, fun k hk hno => Or.inr (ho.unviewed k hk hno)⟩
  cases e with
  | contextNew out =>
    cases h
    exact hquiet (construct_orderly hs (Or.inl ⟨rfl, rfl, rfl⟩) out)
  | optionsNew context out =>
    obtain ⟨⟨hi, hkind⟩, rfl⟩ := call_eq_some h
    exact hquiet (construct_orderly hs (optionsNew_grounded hs hi hkind) out)
  | managerNew options out =>
    obtain ⟨⟨hi, hkind⟩, rfl⟩ := call_eq_some h
    exact hquiet (construct_orderly hs (managerNew_grounded hs hi hkind) out)
  | getActiveChain i alloc =>
    obtain ⟨⟨hi, hkind⟩, rfl⟩ := call_eq_some h
    exact hquiet (getActiveChain_orderly hs hi hkind alloc)
  | getBestEntry i alloc =>
    obtain ⟨⟨hi, hkind⟩, rfl⟩ := call_eq_some h
    exact hquiet (manager_getter_orderly hs hi hkind true alloc)
  | getBlockTreeEntryByHash i found alloc =>
    obtain ⟨⟨hi, hkind⟩, rfl⟩ := call_eq_some h
    exact hquiet (manager_getter_orderly hs hi hkind found alloc)
  | chainGetitem i found alloc =>
    obtain ⟨⟨hi, hkind⟩, rfl⟩ := call_eq_some h
    exact hquiet (view_getter_orderly hs hi (hkind ▸ rfl) found alloc)
  | chainTip i found alloc =>
    obtain ⟨⟨hi, hkind⟩, rfl⟩ := call_eq_some h
    exact hquiet (view_getter_orderly hs hi (hkind ▸ rfl) found alloc)
  | entryPrev i found alloc =>
    obtain ⟨⟨hi, hkind⟩, rfl⟩ := call_eq_some h
    exact hquiet (view_getter_orderly hs hi (hkind ▸ rfl) found alloc)
  | enter i =>
    obtain ⟨⟨hi, _⟩, rfl⟩ := call_eq_some h
    exact hquiet (checkPtr_orderly hs fun _ _ => incref_orderly hs hi)
  | close i =>
    obtain ⟨⟨hi, hkind⟩, rfl⟩ := call_eq_some h
    obtain ⟨hinv, hown⟩ := close_inv hs hi hkind
    exact ⟨hinv, fun k hk hno => Or.inl ⟨i, Or.inl rfl, hown k hk hno⟩⟩
  | exit i =>
    obtain ⟨⟨hi, hkind⟩, rfl⟩ := call_eq_some h
    obtain ⟨hinv, hown⟩ := close_inv hs hi hkind
    exact ⟨hinv, fun k hk hno => Or.inl ⟨i, Or.inr rfl, hown k hk hno⟩⟩
  | copy i =>
    obtain ⟨hi, hs'⟩ := Option.ite_none_right_eq_some.mp h
    cases hs'
    exact hquiet (incref_orderly hs hi)
  | drop i =>
    obtain ⟨hi, hs'⟩ := Option.ite_none_right_eq_some.mp h
    cases hs'
    exact hquiet (drop_orderly hs hi)

theorem start_inv : Inv start where
  counted := .empty
  owned := by
    refine ⟨⟨?_, List.nodup_nil, ?_, ?_⟩, ?_, ?_, ?_, ?_⟩
    · intro k hk
      cases hk
    · intro k c hk
      obtain ⟨o, ho, _⟩ := hk
      cases ho
    · intro post c pre h
      cases (List.append_eq_nil_iff.mp h.symm).2
    · intro i hi
      exact absurd hi (Nat.lt_irrefl 0)
    · intro i k hi
      exact absurd hi.1 (Nat.lt_irrefl 0)
    · intro i j k hi
      exact absurd hi.1 (Nat.lt_irrefl 0)
    · intro k hk
      exact absurd hk (Nat.not_lt_zero k)

/-- **Kernel objects are torn down once and in order**, whatever a program does: nothing is
destroyed twice; what is built on a context is destroyed before it; what a step destroys is
the object of the manager it closes, or no live view points into it; and once Python code
holds nothing, every object has been destroyed exactly once. -/
theorem teardown {s : World} (h : programs.Reachable s) :
    s.mem.destroyed.Nodup ∧
    (∀ post c pre, s.mem.destroyed = post ++ c :: pre → ∀ k, s.mem.BuiltOn k c → k ∈ pre) ∧
    (∀ e s', programs.step s e = some s' → ∀ k ∈ s'.mem.destroyed, k ∉ s.mem.destroyed →
      (∃ i, (e = .close i ∨ e = .exit i) ∧ s.mem.ptr i = some k) ∨
        ∀ v, ¬ ViewOf s'.heap s'.mem k v) ∧
    ((∀ i, s.held i = 0) → ∀ k < s.mem.objs.length, s.mem.destroyed.count k = 1) := by
  have hs : Inv s := h.invariant (I := Inv) start_inv fun _ _ _ ht hstep => (step_spec ht hstep).1
  have hledger := hs.owned.ledger
  refine ⟨hledger.once, hledger.ordered, fun e s' hstep => (step_spec hs hstep).2, ?_⟩
  intro hnone k hk
  -- Nothing is live any more, so nothing is owned.
  have hgone : k ∈ s.mem.destroyed := by
    refine (hs.owned.owned k hk).resolve_right ?_
    intro hown
    obtain ⟨i, hi⟩ := hown
    exact hs.counted.not_live hnone hi.1
  exact List.count_eq_one_of_mem hledger.once hgone

/-- A manager closed under a chain and an entry, which are dropped after it. -/
theorem teardown_closed :
    let run : List Event := [.contextNew .ok, .optionsNew 0 .ok, .managerNew 1 .ok, .drop 0,
      .drop 1, .getActiveChain 2 true, .chainTip 3 true true, .enter 2, .drop 2, .exit 2, .drop 2,
      .drop 3, .drop 4]
    ∃ s, programs.exec programs.init run = some s ∧ s.mem.destroyed = [0, 2, 1] ∧
      ∀ k < s.mem.objs.length, s.mem.destroyed.count k = 1 := by
  intro run
  refine ⟨_, rfl, by decide, ?_⟩
  refine (teardown ⟨run, rfl⟩).2.2.2 ?_
  intro i
  rcases i with _ | _ | _ | _ | _ | i <;> rfl

end PyBitcoinKernel.Manager.Lifetime
