import PyBitcoinKernel.Lib.Machine
import PyBitcoinKernel.Manager.Objects

/-!
# Views of closed managers

Closing a manager leaves the views obtained from it behind, with pointers that
dangle. Nearly every entry point that takes a view looks at its owner first.
The exceptions take an entry as an argument: `chain.contains` and `in`, which
check the chain only, and the two reads from disk, which check the manager only.
And where the interpreter has an answer before it calls the entry point, nothing
is checked: an index that it cannot convert, a comparison with something that is
no entry.

> `views_rejected_iff`: along a sequential run over any number of managers,
> every operation on a view of a closed manager raises `ValueError` and passes
> no pointer of that manager to the kernel, exactly when no entry of a closed
> manager is ever handed to `contains`, `in`, `read_block` or
> `read_block_spent_outputs` of an open one, or compared with something else, and
> no chain of one is indexed with what is no integer of 64 bits.
-/

namespace PyBitcoinKernel.Manager

open PyBitcoinKernel.Binding

variable {Obj : Type}

/-! ## Runs -/

/-- An operation on views, or one that obtains them. -/
inductive Op (Obj : Type) where
  | chainHeight (self : View)
  | chainLen (self : View)
  /-- `chain[index]`. -/
  | chainIndex (self : View) (index : Subscript)
  /-- `chain.contains(value)` and `value in chain`. -/
  | chainContains (self : View) (value : PyArg Obj)
  | tip (self : View)
  | entryHeight (self : View)
  | entryBlockHash (self : View)
  | entryHeader (self : View)
  | entryPrev (self : View)
  | repr (self : View)
  /-- `self == value` and `value == self`, or with `!=`. -/
  | entryCompare (self : View) (value : Operand) (negated : Bool)
  | readBlock (m : Nat) (value : PyArg Obj)
  | readBlockSpentOutputs (m : Nat) (value : PyArg Obj)
  | getBestEntry (m : Nat)
  | getActiveChain (m : Nat)
  | getBlockTreeEntryByHash (m : Nat) (value : PyArg Obj)

def Op.run (K : Kernel Obj) (s : World) : Op Obj → Act (Value Obj)
  | .chainHeight self => chainGetHeight K s self
  | .chainLen self => do return .int (← chainLength K s self)
  | .chainIndex self index => chainSubscript K s self index
  | .chainContains self value => chainContainsImpl K s self value
  | .tip self => chainTip K s self
  | .entryHeight self => entryGetHeight K s self
  | .entryBlockHash self => entryGetBlockHash K s self
  | .entryHeader self => entryGetHeader K s self
  | .entryPrev self => entryGetPrev K s self
  | .repr self => entryRepr K s self
  | .entryCompare self value negated => Manager.entryCompare K s self value negated
  | .readBlock m value => managerReadBlock K s m value
  | .readBlockSpentOutputs m value => managerReadBlockSpentOutputs K s m value
  | .getBestEntry m => managerGetBestEntry K s m
  | .getActiveChain m => managerGetActiveChain s m
  | .getBlockTreeEntryByHash m value => managerGetBlockTreeEntryByHash K s m value

/-- The view an argument is, if it is one. -/
def PyArg.views : PyArg Obj → List View
  | .entry v => [v]
  | _ => []

def Operand.views : Operand → List View
  | .entry v => [v]
  | .other _ => []

/-- The chains an operation takes. -/
def Op.chains : Op Obj → List View
  | .chainHeight self => [self]
  | .chainLen self => [self]
  | .chainIndex self _ => [self]
  | .chainContains self _ => [self]
  | .tip self => [self]
  | _ => []

/-- The entries an operation takes, as receiver or as argument. -/
def Op.entries : Op Obj → List View
  | .chainContains _ value => value.views
  | .entryHeight self => [self]
  | .entryBlockHash self => [self]
  | .entryHeader self => [self]
  | .entryPrev self => [self]
  | .repr self => [self]
  | .entryCompare self value _ => self :: value.views
  | .readBlock _ value => value.views
  | .readBlockSpentOutputs _ value => value.views
  | _ => []

/-- The managers an operation is called on. -/
def Op.managers : Op Obj → List Nat
  | .readBlock m _ => [m]
  | .readBlockSpentOutputs m _ => [m]
  | .getBestEntry m => [m]
  | .getActiveChain m => [m]
  | .getBlockTreeEntryByHash m _ => [m]
  | _ => []

/-- The program holds the objects the operation takes. -/
def Op.Held (s : World) (o : Op Obj) : Prop :=
  (∀ v ∈ o.chains, v ∈ s.chains) ∧ (∀ v ∈ o.entries, v ∈ s.entries) ∧
    ∀ m ∈ o.managers, m < s.managers.length

instance (s : World) (o : Op Obj) : Decidable (o.Held s) := inferInstanceAs (Decidable (_ ∧ _ ∧ _))

inductive Event (Obj : Type) where
  /-- `ChainstateManager(options)` succeeds. -/
  | create
  | close (m : Nat)
  /-- `__exit__`. -/
  | exit (m : Nat)
  | op (K : Kernel Obj) (o : Op Obj)

/-- A view that is returned is kept. -/
def World.keep (s : World) : PyResult (Value Obj) → World
  | .ok (.chain v) => { s with chains := s.chains ++ [v] }
  | .ok (.entry v) => { s with entries := s.entries ++ [v] }
  | _ => s

def World.step (s : World) : Event Obj → Option World
  | .create => some { s with managers := s.managers ++ [some (.manager s.managers.length)] }
  | .close m => if m < s.managers.length then some (managerCloseImpl s m).2 else none
  | .exit m => if m < s.managers.length then some (managerCloseImpl s m).2 else none
  | .op K o => if o.Held s then some (s.keep (o.run K s).result) else none

/-- Sequential runs from an empty world. -/
def programs (Obj : Type) : Machine World (Event Obj) where
  init := ⟨[], [], []⟩
  step := World.step

/-! ## The property and the discipline -/

/-- The manager has been closed. -/
def World.Closed (s : World) (m : Nat) : Prop := s.managers[m]? = some none

/-- Every operation on a view of a closed manager raises `ValueError` and passes
no pointer of that manager to the kernel. -/
def StaleRejected (s : World) : Event Obj → Prop
  | .op K o => ∀ v ∈ o.chains ++ o.entries, s.Closed v.ptr.home →
      (∃ msg, (o.run K s).result = raise .valueError msg) ∧
        ∀ c ∈ (o.run K s).calls, ∀ p ∈ c.ptrs, p.home ≠ v.ptr.home
  | _ => True

/-- The operation gets as far as a check of every view of a closed manager that it takes:
an entry handed to an open chain or an open manager is not one, the index of such a chain
can be converted, and such an entry is compared with an entry (or with something that
refuses by itself). -/
def ReachesChecks (s : World) : Event Obj → Prop
  | .op _ (.chainIndex self index) =>
    s.Closed self.ptr.home → ∃ i, index = .int i ∧ FitsSigned 63 i
  | .op _ (.entryCompare self (.other answer) _) =>
    s.Closed self.ptr.home → ∃ msg, answer = some (raise .valueError msg)
  | .op _ (.chainContains self (.entry v)) => ¬ s.Closed self.ptr.home → ¬ s.Closed v.ptr.home
  | .op _ (.readBlock m (.entry v)) => ¬ s.Closed m → ¬ s.Closed v.ptr.home
  | .op _ (.readBlockSpentOutputs m (.entry v)) => ¬ s.Closed m → ¬ s.Closed v.ptr.home
  | _ => True

/-! ## Owners are right -/

/-- A manager's pointer is its own, and a view's owner is the manager its
pointer belongs to. -/
structure Inv (s : World) : Prop where
  managers : ∀ m (ptr : KPtr), s.managers[m]? = some (some ptr) → ptr.home = m
  chains : ∀ v ∈ s.chains, v.owner = some v.ptr.home
  entries : ∀ v ∈ s.entries, v.owner = some v.ptr.home

theorem inv_init : Inv (programs Obj).init where
  managers _ _ h := nomatch h
  chains := nofun
  entries := nofun

theorem inv_create {s : World} (hinv : Inv s) :
    Inv { s with managers := s.managers ++ [some (.manager s.managers.length)] } where
  managers m ptr h := by
    rcases Nat.lt_or_ge m s.managers.length with hlt | hge
    · rw [List.getElem?_append_left hlt] at h
      exact hinv.managers m ptr h
    · rw [List.getElem?_append_right hge] at h
      obtain ⟨hm, hptr⟩ := List.getElem?_eq_some_iff.mp h
      have hm0 : m = s.managers.length := by simp at hm; omega
      subst hm0
      simp at hptr
      rw [← hptr]
      rfl
  chains := hinv.chains
  entries := hinv.entries

theorem inv_closeImpl {s : World} (hinv : Inv s) (m : Nat) : Inv (managerCloseImpl s m).2 := by
  unfold managerCloseImpl
  split
  next =>
    refine ⟨fun m' ptr h => ?_, hinv.chains, hinv.entries⟩
    by_cases heq : m = m'
    · subst heq
      simp [List.getElem?_set] at h
    · rw [List.getElem?_set_ne heq] at h
      exact hinv.managers m' ptr h
  next => exact hinv

/-- The owner of a view that is returned is the manager of its pointer. -/
def Value.Owned : Value Obj → Prop
  | .chain v => v.owner = some v.ptr.home
  | .entry v => v.owner = some v.ptr.home
  | _ => True

theorem inv_keep {s : World} (hinv : Inv s) {a : Act (Value Obj)} (h : a.Ensures Value.Owned) :
    Inv (s.keep a.result) := by
  unfold World.keep
  split
  next v hv =>
    refine ⟨hinv.managers, fun w hw => ?_, hinv.entries⟩
    rcases List.mem_append.mp hw with hw | hw
    · exact hinv.chains w hw
    · exact List.mem_singleton.mp hw ▸ h _ hv
  next v hv =>
    refine ⟨hinv.managers, hinv.chains, ?_⟩
    intro w hw
    rcases List.mem_append.mp hw with hw | hw
    · exact hinv.entries w hw
    · exact List.mem_singleton.mp hw ▸ h _ hv
  next => exact hinv

theorem getitem_owned {K : Kernel Obj} {s : World} {self : View} {index : Int}
    (h : self.owner = some self.ptr.home) : (chainGetitem K s self index).Ensures Value.Owned := by
  refine Act.ensures_bind fun _ => Act.ensures_call ?_
  dsimp only
  generalize (if index < 0 then index + (K.chainGetHeight self.ptr + 1) else index) = index
  split
  · exact Act.ensures_raise _ _
  · refine Act.ensures_call ?_
    split
    · exact Act.ensures_raise _ _
    · exact Act.ensures_pure h

theorem sequenceGetItem_owned {K : Kernel Obj} {s : World} {self : View} {index : Int}
    (h : self.owner = some self.ptr.home) :
    (chainSequenceGetItem K s self index).Ensures Value.Owned := by
  unfold chainSequenceGetItem
  split
  · exact Act.ensures_bind fun _ => getitem_owned h
  · exact getitem_owned h

/-- The comparison with something else is not up to the entry. -/
theorem entryCompare_other (K : Kernel Obj) (s : World) (self : View)
    (answer : Option (PyResult Bool)) (negated : Bool) :
    entryCompare K s self (.other answer) negated =
      (Act.lift (answer.getD (.ok negated)) >>= fun equal => pure (.bool equal)) := by
  cases negated <;> rfl

theorem readEntry_owned {s : World} {m : Nat} {arg : PyArg Obj} {call : KPtr → KPtr → KCall}
    {read : KPtr → KPtr → Option Obj} {failed : String} :
    (readEntry s m arg call read failed).Ensures Value.Owned := by
  refine Act.ensures_bind ?_
  intro _
  split
  · refine Act.ensures_call ?_
    cases read _ _ with
    | none => exact Act.ensures_raise _ _
    | some block => exact Act.ensures_pure trivial
  · exact Act.ensures_raise _ _

theorem checkPtr_ensures {s : World} (hinv : Inv s) (m : Nat) :
    (checkPtr s m).Ensures fun ptr => ptr.home = m := by
  unfold checkPtr
  split
  next ptr hptr => exact Act.ensures_pure (hinv.managers m ptr hptr)
  next => exact Act.ensures_raise _ _

theorem op_owned {K : Kernel Obj} {s : World} {o : Op Obj} (hinv : Inv s) (hheld : o.Held s) :
    (o.run K s).Ensures Value.Owned := by
  obtain ⟨hchains, hentries, -⟩ := hheld
  cases o with
  | chainIndex self index =>
    have hself := hinv.chains self (hchains self (List.mem_singleton_self _))
    cases index with
    | int i => exact Act.ensures_bind fun i => sequenceGetItem_owned hself
    | other type => exact Act.ensures_raise _ _
  | tip self =>
    have hself := hinv.chains self (hchains self (List.mem_singleton_self _))
    refine Act.ensures_bind fun _ => Act.ensures_call (Act.ensures_call ?_)
    split
    · exact Act.ensures_raise _ _
    · exact Act.ensures_pure hself
  | entryPrev self =>
    have hself := hinv.entries self (hentries self (List.mem_singleton_self _))
    refine Act.ensures_bind fun _ => Act.ensures_call ?_
    split
    · exact Act.ensures_pure trivial
    · exact Act.ensures_pure hself
  | getBestEntry m =>
    refine Act.Ensures.bind fun ptr hptr => Act.ensures_call (Act.ensures_pure ?_)
    exact congrArg some (checkPtr_ensures hinv m ptr hptr).symm
  | getActiveChain m =>
    refine Act.Ensures.bind fun ptr hptr => Act.ensures_call (Act.ensures_pure ?_)
    exact congrArg some (checkPtr_ensures hinv m ptr hptr).symm
  | getBlockTreeEntryByHash m value =>
    refine Act.Ensures.bind ?_
    intro ptr hptr
    split
    · refine Act.ensures_call ?_
      split
      · exact Act.ensures_pure trivial
      · exact Act.ensures_pure (congrArg some (checkPtr_ensures hinv m ptr hptr).symm)
    · exact Act.ensures_raise _ _
  | chainLen self => exact Act.ensures_bind fun _ => Act.ensures_pure trivial
  | chainContains self value =>
    refine Act.ensures_bind ?_
    intro _
    split
    · exact Act.ensures_call (Act.ensures_pure trivial)
    · exact Act.ensures_raise _ _
  | entryCompare self value negated =>
    cases value with
    | entry v =>
      cases negated <;>
        exact Act.ensures_bind fun _ => Act.ensures_bind fun _ =>
          Act.ensures_call (Act.ensures_pure trivial)
    | other answer =>
      show (entryCompare K s self (.other answer) negated).Ensures Value.Owned
      rw [entryCompare_other]
      exact Act.ensures_bind fun _ => Act.ensures_pure trivial
  | readBlock m value => exact readEntry_owned
  | readBlockSpentOutputs m value => exact readEntry_owned
  | chainHeight self | entryHeight self | entryBlockHash self | entryHeader self | repr self =>
    exact Act.ensures_bind fun _ => Act.ensures_call (Act.ensures_pure trivial)

theorem inv_step {s s' : World} {e : Event Obj} (hinv : Inv s) (h : s.step e = some s') :
    Inv s' := by
  cases e with
  | create => exact Option.some.inj h ▸ inv_create hinv
  | close m | exit m =>
    rw [World.step] at h
    split at h
    next => exact Option.some.inj h ▸ inv_closeImpl hinv m
    next => cases h
  | op K o =>
    rw [World.step] at h
    split at h
    next hheld => exact Option.some.inj h ▸ inv_keep hinv (op_owned hinv hheld)
    next => cases h

/-! ## What is checked -/

/-- A closed owner is noticed. -/
theorem viewOwnerAlive_closed {s : World} {owner : Option Nat} {m : Nat} (h : owner = some m)
    (hclosed : s.Closed m) : (viewOwnerAlive s owner).Refused := by
  unfold viewOwnerAlive
  rw [h, Option.bind_some, show s.managers[m]? = some none from hclosed]
  exact ⟨rfl, _, rfl⟩

theorem viewOwnerAlive_open {s : World} {owner : Option Nat} {m : Nat} (h : owner = some m)
    (hopen : ¬ s.Closed m) : viewOwnerAlive s owner = pure () := by
  unfold viewOwnerAlive
  rw [h, Option.bind_some]
  split
  next hclosed => exact absurd hclosed hopen
  next => rfl

theorem checkPtr_closed {s : World} {m : Nat} (hclosed : s.Closed m) :
    (checkPtr s m).Refused := by
  unfold checkPtr
  rw [show s.managers[m]? = some none from hclosed]
  exact ⟨rfl, _, rfl⟩

theorem checkPtr_open {s : World} {m : Nat} (hlt : m < s.managers.length)
    (hopen : ¬ s.Closed m) : ∃ ptr, checkPtr s m = pure ptr := by
  unfold checkPtr
  cases hm : s.managers[m]? with
  | none => exact absurd (List.getElem?_eq_none_iff.mp hm) (by omega)
  | some slot =>
    cases slot with
    | none => exact absurd hm hopen
    | some ptr => exact ⟨ptr, rfl⟩

/-- A refused operation satisfies the property for every manager. -/
theorem Act.Refused.stale {a : Act (Value Obj)} (h : a.Refused) (m : Nat) :
    (∃ msg, a.result = Binding.raise .valueError msg) ∧
      ∀ c ∈ a.calls, ∀ p ∈ c.ptrs, p.home ≠ m := by
  obtain ⟨hcalls, hmsg⟩ := h
  refine ⟨hmsg, ?_⟩
  rw [hcalls]
  nofun

/-- Operations on one view check it. -/
theorem unary_stale {K : Kernel Obj} {s : World} {o : Op Obj} {self : View}
    (hviews : o.chains ++ o.entries = [self]) (howner : self.owner = some self.ptr.home)
    (hguard : (viewOwnerAlive s self.owner).Refused → (o.run K s).Refused) :
    StaleRejected s (.op K o) := by
  intro v hv hclosed
  rw [hviews, List.mem_singleton] at hv
  subst hv
  exact (hguard (viewOwnerAlive_closed howner hclosed)).stale _

/-- An operation that does not end with `ValueError` must not be given a view of a closed
manager; `Q` is what would excuse it. -/
theorem unchecked_stale_iff {K : Kernel Obj} {s : World} {o : Op Obj} {self : View} {Q : Prop}
    (hviews : o.chains ++ o.entries = [self])
    (hno : ∀ msg, (o.run K s).result ≠ raise .valueError msg) (hQ : ¬ Q) :
    StaleRejected s (.op K o) ↔ (s.Closed self.ptr.home → Q) := by
  constructor
  · intro h hclosed
    obtain ⟨⟨msg, hraise⟩, -⟩ := h self (hviews ▸ List.mem_singleton_self _) hclosed
    exact absurd hraise (hno msg)
  · intro h v hv hclosed
    rw [hviews, List.mem_singleton] at hv
    exact absurd (h (hv ▸ hclosed)) hQ

/-- A chain is checked once its index has been converted. -/
theorem index_stale_iff {K : Kernel Obj} {s : World} {self : View} (index : Subscript)
    (howner : self.owner = some self.ptr.home) :
    StaleRejected s (.op K (.chainIndex self index)) ↔
      (s.Closed self.ptr.home → ∃ i, index = .int i ∧ FitsSigned 63 i) := by
  cases index with
  | other type =>
    refine unchecked_stale_iff rfl (fun msg h => nomatch h) ?_
    intro hno
    obtain ⟨i, hi, -⟩ := hno
    cases hi
  | int i =>
    have hrun : (Op.chainIndex self (.int i)).run K s =
        (Act.lift (asSsize i) >>= fun i => chainSequenceGetItem K s self i) := rfl
    by_cases hfits : FitsSigned 63 i
    · -- Both `len` and the slot look at the owner before anything else.
      refine iff_of_true (unary_stale rfl howner fun h => ?_) fun _ => ⟨i, rfl, hfits⟩
      rw [hrun, asSsize, if_pos hfits]
      show (chainSequenceGetItem K s self i).Refused
      unfold chainSequenceGetItem
      split
      · exact (h.bind _).bind _
      · exact h.bind _
    · refine unchecked_stale_iff rfl ?_ ?_
      · intro msg h
        rw [hrun, asSsize, if_neg hfits] at h
        cases h
      · intro hno
        obtain ⟨j, hj, hfits'⟩ := hno
        cases hj
        exact hfits hfits'

/-- `contains` checks the chain, not the entry. -/
theorem contains_stale_iff {K : Kernel Obj} {s : World} {self v : View}
    (hself : self.owner = some self.ptr.home) :
    StaleRejected s (.op K (.chainContains self (.entry v))) ↔
      (¬ s.Closed self.ptr.home → ¬ s.Closed v.ptr.home) := by
  constructor
  · intro h hopen hclosed
    obtain ⟨⟨msg, hraise⟩, -⟩ := h v (by simp [Op.chains, Op.entries, PyArg.views]) hclosed
    have hrun : (chainContainsImpl K s self (.entry v)).result =
        .ok (.bool (K.chainContains self.ptr v.ptr)) := by
      unfold chainContainsImpl
      rw [viewOwnerAlive_open hself hopen]
      rfl
    exact nomatch hrun.symm.trans hraise
  · intro h w hw hclosed
    by_cases hopen : s.Closed self.ptr.home
    · -- The chain itself is stale, and is looked at first.
      exact ((viewOwnerAlive_closed hself hopen).bind _).stale _
    · have hw' : w = self ∨ w = v := by simpa [Op.chains, Op.entries, PyArg.views] using hw
      rcases hw' with rfl | rfl
      · exact absurd hclosed hopen
      · exact absurd hclosed (h hopen)

/-- A read that reached the kernel does not end with `ValueError`. -/
theorem readResult_ne_valueError (failed : String) (answer : Option Obj) (msg : String) :
    (readResult failed answer).result ≠ raise .valueError msg := by
  cases answer with
  | none => simp [readResult, Act.raise, raise]
  | some block => exact nofun

/-- The reads from disk check the manager, not the entry. -/
theorem readEntry_stale_iff {s : World} {m : Nat} {v : View} {call : KPtr → KPtr → KCall}
    {read : KPtr → KPtr → Option Obj} {failed : String} (hlt : m < s.managers.length) :
    (s.Closed v.ptr.home →
      (∃ msg, (readEntry s m (.entry v) call read failed).result = raise .valueError msg) ∧
        ∀ c ∈ (readEntry s m (.entry v) call read failed).calls, ∀ p ∈ c.ptrs,
          p.home ≠ v.ptr.home) ↔
      (¬ s.Closed m → ¬ s.Closed v.ptr.home) := by
  constructor
  · intro h hopen hclosed
    obtain ⟨⟨msg, hraise⟩, -⟩ := h hclosed
    obtain ⟨ptr, hptr⟩ := checkPtr_open hlt hopen
    unfold readEntry at hraise
    rw [hptr] at hraise
    exact readResult_ne_valueError failed (read ptr v.ptr) msg hraise
  · intro h hclosed
    by_cases hopen : s.Closed m
    · exact ((checkPtr_closed hopen).bind _).stale _
    · exact absurd hclosed (h hopen)

/-- A comparison of two entries checks both of them. -/
theorem compare_stale {K : Kernel Obj} {s : World} {a b : View} (ha : a.owner = some a.ptr.home)
    (hb : b.owner = some b.ptr.home) (negated : Bool) :
    StaleRejected s (.op K (.entryCompare a (.entry b) negated)) := by
  intro v hv hclosed
  have hrun : ∃ f : Unit → Act (Value Obj), Op.run K s (.entryCompare a (.entry b) negated) =
      viewOwnerAlive s a.owner >>= fun _ => viewOwnerAlive s b.owner >>= f := by
    cases negated <;> exact ⟨_, rfl⟩
  obtain ⟨f, hf⟩ := hrun
  rw [hf]
  by_cases hopen : s.Closed a.ptr.home
  · -- The left operand is checked first.
    exact ((viewOwnerAlive_closed ha hopen).bind _).stale _
  · have hv' : v = a ∨ v = b := by simpa [Op.chains, Op.entries, Operand.views] using hv
    rcases hv' with rfl | rfl
    · exact absurd hclosed hopen
    · rw [viewOwnerAlive_open ha hopen]
      exact ((viewOwnerAlive_closed hb hclosed).bind f).stale _

/-- A comparison with something else checks nothing, and calls no kernel either. -/
theorem compare_other_stale_iff {K : Kernel Obj} {s : World} {self : View}
    (answer : Option (PyResult Bool)) (negated : Bool) :
    StaleRejected s (.op K (.entryCompare self (.other answer) negated)) ↔
      (s.Closed self.ptr.home → ∃ msg, answer = some (raise .valueError msg)) := by
  have hrun := entryCompare_other K s self answer negated
  by_cases hraise : ∃ msg, answer = some (raise .valueError msg)
  · refine iff_of_true ?_ fun _ => hraise
    obtain ⟨msg, rfl⟩ := hraise
    intro v _ _
    show (∃ msg, (entryCompare K s self _ negated).result = _) ∧
      ∀ c ∈ (entryCompare K s self _ negated).calls, _
    rw [hrun]
    exact ⟨⟨msg, rfl⟩, nofun⟩
  · refine unchecked_stale_iff rfl ?_ hraise
    intro msg h
    change (entryCompare K s self (.other answer) negated).result = _ at h
    rw [hrun] at h
    cases answer with
    | none => cases h
    | some answer =>
      cases answer with
      | ok equal => cases h
      | error e =>
        cases h
        exact hraise ⟨msg, rfl⟩

/-- **A step treats stale views right exactly when it gets as far as their checks.** -/
theorem step_stale_iff {s s' : World} {e : Event Obj} (hinv : Inv s) (h : s.step e = some s') :
    StaleRejected s e ↔ ReachesChecks s e := by
  cases e with
  | create | close m | exit m => exact Iff.rfl
  | op K o =>
    have hheld : o.Held s := by
      rw [World.step] at h
      split at h
      next hheld => exact hheld
      next => cases h
    obtain ⟨hchains, hentries, hmanagers⟩ := hheld
    have howned : ∀ v ∈ o.chains ++ o.entries, v.owner = some v.ptr.home := fun v hv =>
      (List.mem_append.mp hv).elim (fun hv => hinv.chains v (hchains v hv))
        fun hv => hinv.entries v (hentries v hv)
    -- All operations on a single view start with the same check of it.
    have hunary : ∀ self, o.chains ++ o.entries = [self] →
        ((viewOwnerAlive s self.owner).Refused → (o.run K s).Refused) →
        StaleRejected s (.op K o) := fun self hviews hguard =>
      unary_stale hviews (howned self (hviews ▸ List.mem_singleton_self _)) hguard
    cases o with
    | chainHeight self | tip self | entryHeight self | entryBlockHash self | entryHeader self
    | entryPrev self | repr self =>
      exact iff_of_true (hunary self rfl fun h => h.bind _) trivial
    | chainLen self => exact iff_of_true (hunary self rfl fun h => (h.bind _).bind _) trivial
    | chainIndex self index => exact index_stale_iff index (howned self (List.mem_cons_self ..))
    | chainContains self value =>
      cases value with
      | entry v => exact contains_stale_iff (howned self (List.mem_cons_self ..))
      | blockHash _ | other => exact iff_of_true (hunary self rfl fun h => h.bind _) trivial
    | entryCompare self value negated =>
      cases value with
      | entry v =>
        have hself := howned self (List.mem_cons_self ..)
        have hv := howned v (List.mem_cons_of_mem _ (List.mem_singleton_self v))
        exact iff_of_true (compare_stale hself hv negated) trivial
      | other answer => exact compare_other_stale_iff answer negated
    | readBlock m value | readBlockSpentOutputs m value =>
      have hlt := hmanagers m (List.mem_singleton_self _)
      cases value with
      | entry v =>
        refine Iff.trans ⟨fun hs => hs v (List.mem_singleton_self _), fun hs w hw => ?_⟩
          (readEntry_stale_iff hlt)
        rw [List.mem_singleton.mp hw]
        exact hs
      | blockHash _ | other => exact iff_of_true nofun trivial
    | getBestEntry m | getActiveChain m | getBlockTreeEntryByHash m value =>
      exact iff_of_true nofun trivial

/-- **Along a run, views of closed managers are always rejected exactly when the
operations always get as far as their checks.** -/
theorem views_rejected_iff (es : List (Event Obj)) :
    (programs Obj).Obeys StaleRejected (programs Obj).init es ↔
      (programs Obj).Obeys ReachesChecks (programs Obj).init es :=
  Machine.obeys_congr (fun _ _ _ hinv h => inv_step hinv h)
    (fun _ _ _ hinv h => step_stale_iff hinv h) inv_init

/-- The entry of a closed manager is handed to the chain of another, open one:
its dangling pointer reaches the kernel. -/
theorem contains_passes_stale_entry :
    (programs Unit).exec (programs Unit).init
        [.create, .create, .op answers (.getBestEntry 0), .op answers (.getActiveChain 1),
          .close 0] =
      some ⟨[none, some (.manager 1)], [⟨.chain 1, some 1⟩], [⟨.entry 0 7, some 0⟩]⟩ ∧
    (chainContainsImpl answers ⟨[none, some (.manager 1)], [⟨.chain 1, some 1⟩],
      [⟨.entry 0 7, some 0⟩]⟩ ⟨.chain 1, some 1⟩ (.entry ⟨.entry 0 7, some 0⟩)).calls =
        [.chainContains (.chain 1) (.entry 0 7)] ∧
    ¬ StaleRejected ⟨[none, some (.manager 1)], [⟨.chain 1, some 1⟩], [⟨.entry 0 7, some 0⟩]⟩
      (.op answers (.chainContains ⟨.chain 1, some 1⟩ (.entry ⟨.entry 0 7, some 0⟩))) := by
  refine ⟨rfl, rfl, ?_⟩
  intro h
  obtain ⟨⟨msg, hraise⟩, -⟩ := h ⟨.entry 0 7, some 0⟩ (by decide) rfl
  cases hraise

end PyBitcoinKernel.Manager
