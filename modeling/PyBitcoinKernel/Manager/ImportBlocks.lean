import PyBitcoinKernel.Binding.Python

/-!
# `import_blocks`: a loop over a list that its items can change

`ChainstateManager_import_blocks` takes the length of the list once and then converts
the items one by one. `PySequence_Fast` hands back a list as it is, not a copy, and
`PyUnicode_FSConverter` calls the `__fspath__` of the item, which can reach that list.
The next item is read without a look at the length, so the loop is right as long as
the list is,

> `importBlocks_safe_iff`: all reads are in bounds, a list that is converted goes to
> the kernel once and is then released, and a failure releases what was converted
> before it, exactly if each conversion leaves the list longer than the index it goes on to.

`listAt` is the list at that moment. What the loop reads is read off it
(`read_mem_convertLoop_iff`, `converted_mem_convertLoop_iff`), and how the loop ends
gives the rest (`convertLoop_spec`).
-/

namespace PyBitcoinKernel.Manager.ImportBlocks

open PyBitcoinKernel.Binding

variable {Item Path ε : Type}

/-! ## The method -/

/-- `PyUnicode_FSConverter`, called for an index on an item, with the list as it is then:
the path or the exception, and the list as the item's `__fspath__` leaves it. -/
abbrev Convert (Item Path ε : Type) := Nat → Item → List Item → Except ε Path × List Item

/-- What `import_blocks` does that can be told from outside. -/
inductive Event (Item Path ε : Type) where
  | lengthTaken (n : Nat)
  /-- `PySequence_Fast_GET_ITEM`, with the length of the list at that moment. -/
  | read (index length : Nat)
  | converted (index : Nat) (item : Item) (path : Path)
  | failed (index : Nat) (e : ε)
  | kernelCall (paths : List Path)
  /-- `Py_DECREF(encoded[index])`. -/
  | released (index : Nat)

/-- How the method ends. Behind a read out of bounds anything can happen. -/
inductive Outcome (ε : Type) where
  | returned
  | raised (err : PyErr)
  | conversionRaised (e : ε)
  | undefined

structure Run (Item Path ε : Type) where
  events : List (Event Item Path ε)
  outcome : Outcome ε

/-- How the loop ends: with all paths, at an item that cannot be converted, or at one that
is not there. -/
inductive Ended (Path ε : Type) where
  | finished (encoded : List Path)
  | raised (e : ε)
  | strayed

def Ended.cons (path : Path) : Ended Path ε → Ended Path ε
  | .finished encoded => .finished (path :: encoded)
  | .raised e => .raised e
  | .strayed => .strayed

/-- The references to the first `n` paths are given back. -/
def releaseFirst (n : Nat) : List (Event Item Path ε) := (List.range n).map .released

/-- The loop over the items, from index `i` on, with `left` of them to go. -/
def convertLoop (convert : Convert Item Path ε) :
    Nat → Nat → List Item → List (Event Item Path ε) × Ended Path ε
  | 0, _, _ => ([], .finished [])
  | left + 1, i, items =>
    match items[i]? with
    | none => ([.read i items.length], .strayed)
    | some item =>
      match convert i item items with
      | (.error e, _) => (.read i items.length :: .failed i e :: releaseFirst i, .raised e)
      | (.ok path, items') =>
        let (events, ended) := convertLoop convert left (i + 1) items'
        (.read i items.length :: .converted i item path :: events, ended.cons path)

/-- The kernel call, and what follows it; `rc` is what the kernel answers. -/
def callKernel (rc : Int) (encoded : List Path) : Run Item Path ε :=
  ⟨.kernelCall encoded :: releaseFirst encoded.length,
    if rc ≠ 0 then .raised ⟨.kernelError, "importing blocks failed"⟩ else .returned⟩

/-- The method on a list of items; `memory` says if the arrays could be allocated. -/
def importItems (memory : Bool) (rc : Int) (convert : Convert Item Path ε) (items : List Item) :
    Run Item Path ε :=
  if items ≠ [] ∧ ¬ memory then ⟨[.lengthTaken items.length], .raised ⟨.memoryError, ""⟩⟩
  else
    match convertLoop convert items.length 0 items with
    | (events, .finished encoded) =>
      let run := callKernel rc encoded
      ⟨.lengthTaken items.length :: events ++ run.events, run.outcome⟩
    | (events, .raised e) => ⟨.lengthTaken items.length :: events, .conversionRaised e⟩
    | (events, .strayed) => ⟨.lengthTaken items.length :: events, .undefined⟩

/-- The argument `paths`. -/
inductive Paths (Item : Type) where
  | none
  | list (items : List Item)
  /-- A tuple, or what else can be iterated over and is copied to a new list. -/
  | sequence (items : List Item)
  | other

/-- `ChainstateManager_import_blocks`; the items of a tuple or a copy stay as they are. -/
def importBlocks (isOpen memory : Bool) (rc : Int) (convert : Convert Item Path ε)
    (paths : Paths Item) : Run Item Path ε :=
  if ¬ isOpen then ⟨[], .raised ⟨.valueError, "operation on closed object"⟩⟩
  else
    match paths with
    | .none => callKernel rc []
    | .list items => importItems memory rc convert items
    | .sequence items =>
      importItems memory rc (fun i item items => ((convert i item items).1, items)) items
    | .other => ⟨[], .raised ⟨.typeError, "paths must be a sequence or None"⟩⟩

/-! ## What it should do -/

/-- The paths that were made, in the order they were made in. -/
def encodedPaths (events : List (Event Item Path ε)) : List Path :=
  events.filterMap fun
    | .converted _ _ path => some path
    | _ => none

/-- The calls of the kernel. -/
def kernelCalls (events : List (Event Item Path ε)) : List (List Path) :=
  events.filterMap fun
    | .kernelCall paths => some paths
    | _ => none

/-- The indices whose paths were given back, with repetitions. -/
def releasedPaths (events : List (Event Item Path ε)) : List Nat :=
  events.filterMap fun
    | .released index => some index
    | _ => none

/-- Every index was converted. -/
def AllConverted (n : Nat) (events : List (Event Item Path ε)) : Prop :=
  ∀ i < n, ∃ item path, .converted i item path ∈ events

/-- The kernel is called once, with the `n` paths that were made, and each of them is
released once, after the call. -/
def ImportedOnce (n : Nat) (events : List (Event Item Path ε)) : Prop :=
  ∃ before after, events = before ++ .kernelCall (encodedPaths events) :: after ∧
    (encodedPaths events).length = n ∧ kernelCalls before = [] ∧ kernelCalls after = [] ∧
    releasedPaths before = [] ∧ (releasedPaths after).Perm (List.range n)

/-- A run over a list of `n` items is safe. -/
structure Safe (n : Nat) (events : List (Event Item Path ε)) : Prop where
  in_bounds : ∀ i length, .read i length ∈ events → i < length
  imported : .lengthTaken n ∈ events → AllConverted n events → ImportedOnce n events
  cleaned_up : ∀ k e, .failed k e ∈ events →
    (releasedPaths events).Perm (List.range k) ∧ kernelCalls events = []

/-- If all items were converted, they were those of the list as it was. -/
def SameItems (items : List Item) (events : List (Event Item Path ε)) : Prop :=
  AllConverted items.length events →
    ∀ i item path, .converted i item path ∈ events → items[i]? = some item

/-! ## The list while it is converted -/

/-- The list after the conversion of one item, if it is there and can be converted. -/
def stepAt (convert : Convert Item Path ε) (i : Nat) (items : List Item) : Option (List Item) :=
  match items[i]? with
  | none => none
  | some item =>
    match convert i item items with
    | (.ok _, items') => some items'
    | (.error _, _) => none

/-- The list when the item at an index is due, if all before it can be converted. -/
def listAt (convert : Convert Item Path ε) (items : List Item) : Nat → Option (List Item)
  | 0 => some items
  | i + 1 => (listAt convert items i).bind (stepAt convert i)

/-- Each conversion that succeeds, but for the last, leaves a list that still has an item at
the next index. -/
def LongEnough (convert : Convert Item Path ε) (items : List Item) : Prop :=
  ∀ i, i + 1 < items.length → ∀ l item path l', listAt convert items i = some l →
    l[i]? = some item → convert i item l = (.ok path, l') → i + 1 < l'.length

/-- Unless a conversion fails, no item is replaced before it is read. -/
def Unreplaced (convert : Convert Item Path ε) (items : List Item) : Prop :=
  (listAt convert items items.length).isSome →
    ∀ i < items.length, ∀ l, listAt convert items i = some l → l[i]? = items[i]?

variable {convert : Convert Item Path ε} {items : List Item}

theorem stepAt_ok {i : Nat} {l l' : List Item} {item : Item} {path : Path}
    (hitem : l[i]? = some item) (hconvert : convert i item l = (.ok path, l')) :
    stepAt convert i l = some l' := by
  unfold stepAt
  rw [hitem]
  dsimp only
  rw [hconvert]

theorem stepAt_error {i : Nat} {l l' : List Item} {item : Item} {e : ε}
    (hitem : l[i]? = some item) (hconvert : convert i item l = (.error e, l')) :
    stepAt convert i l = none := by
  unfold stepAt
  rw [hitem]
  dsimp only
  rw [hconvert]

theorem stepAt_none {i : Nat} {l : List Item} (hitem : l[i]? = none) :
    stepAt convert i l = none := by
  unfold stepAt
  rw [hitem]

theorem listAt_succ {i : Nat} {l : List Item} (h : listAt convert items i = some l) :
    listAt convert items (i + 1) = stepAt convert i l := by
  rw [listAt, h, Option.bind_some]

theorem stepAt_eq_some {i : Nat} {l l' : List Item} (h : stepAt convert i l = some l') :
    ∃ item path, l[i]? = some item ∧ convert i item l = (.ok path, l') := by
  unfold stepAt at h
  split at h
  next => cases h
  next item hitem =>
    split at h
    next path l'' hconvert => exact ⟨item, path, hitem, Option.some.inj h ▸ hconvert⟩
    next => cases h

/-- The list is long enough if at each index that is arrived at it is longer than it. -/
theorem longEnough_iff : LongEnough convert items ↔
    ∀ i < items.length, ∀ l, listAt convert items i = some l → i < l.length := by
  constructor
  · intro hlong i hi l hl
    cases i with
    | zero =>
      -- Nothing was converted yet.
      rwa [← Option.some.inj hl]
    | succ i =>
      obtain ⟨l₀, hl₀, hstep⟩ := Option.bind_eq_some_iff.mp hl
      obtain ⟨item, path, hitem, hconvert⟩ := stepAt_eq_some hstep
      exact hlong i hi l₀ item path l hl₀ hitem hconvert
  · intro hlong i hi l item path l' hl hitem hconvert
    exact hlong (i + 1) hi l' ((listAt_succ hl).trans (stepAt_ok hitem hconvert))

/-- Nothing is due behind an item that could not be converted. -/
theorem listAt_eq_none {i j : Nat} (h : listAt convert items i = none) (hij : i ≤ j) :
    listAt convert items j = none := by
  induction hij with
  | refl => exact h
  | step _ ih => rw [listAt, ih, Option.bind_none]

/-! ## What the loop does -/

/-- What the loop does at one index, with the list as it is then. -/
def visit (convert : Convert Item Path ε) (i : Nat) (l : List Item) :
    List (Event Item Path ε) :=
  match l[i]? with
  | none => [.read i l.length]
  | some item =>
    match convert i item l with
    | (.error e, _) => .read i l.length :: .failed i e :: releaseFirst i
    | (.ok path, _) => [.read i l.length, .converted i item path]

theorem read_mem_visit_iff {i j length : Nat} {l : List Item} :
    .read j length ∈ visit convert i l ↔ j = i ∧ length = l.length := by
  unfold visit
  split
  next => simp
  next =>
    split
    next => simp [releaseFirst]
    next => simp

theorem converted_mem_visit_iff {i j : Nat} {l : List Item} {item : Item} {path : Path} :
    .converted j item path ∈ visit convert i l ↔
      j = i ∧ l[i]? = some item ∧ (convert i item l).1 = .ok path := by
  unfold visit
  split
  next hitem =>
    refine iff_of_false (by simp) ?_
    rintro ⟨-, hsome, -⟩
    cases hitem.symm.trans hsome
  next item' hitem =>
    split
    next e l' hconvert =>
      refine iff_of_false (by simp [releaseFirst]) ?_
      rintro ⟨-, hsome, hok⟩
      obtain rfl := Option.some.inj (hitem.symm.trans hsome)
      rw [hconvert] at hok
      cases hok
    next path' l' hconvert =>
      constructor
      · intro h
        simp only [List.mem_cons, List.not_mem_nil, or_false, reduceCtorEq, false_or,
          Event.converted.injEq] at h
        obtain ⟨rfl, rfl, rfl⟩ := h
        exact ⟨rfl, hitem, by rw [hconvert]⟩
      · rintro ⟨rfl, hsome, hok⟩
        obtain rfl := Option.some.inj (hitem.symm.trans hsome)
        rw [hconvert] at hok
        cases hok
        exact List.mem_cons_of_mem _ (List.mem_singleton_self _)

/-- One turn of the loop, and the others if there is a list to go on with. -/
theorem convertLoop_succ (left i : Nat) (l : List Item) :
    (convertLoop convert (left + 1) i l).1 = visit convert i l ++
      ((stepAt convert i l).map fun l' => (convertLoop convert left (i + 1) l').1).getD [] := by
  rw [convertLoop, visit]
  cases hitem : l[i]? with
  | none =>
    rw [stepAt_none hitem]
    rfl
  | some item =>
    dsimp only
    rcases hconvert : convert i item l with ⟨e | path, l'⟩
    · rw [stepAt_error hitem hconvert]
      exact (List.append_nil _).symm
    · rw [stepAt_ok hitem hconvert]
      rfl

/-- **The loop visits** each index that is arrived at, with the list as it is then. -/
theorem mem_convertLoop_iff {left i : Nat} {l : List Item}
    (h : listAt convert items i = some l) {event : Event Item Path ε} :
    event ∈ (convertLoop convert left i l).1 ↔ ∃ j l', i ≤ j ∧ j < i + left ∧
      listAt convert items j = some l' ∧ event ∈ visit convert j l' := by
  induction left generalizing i l with
  | zero =>
    refine iff_of_false List.not_mem_nil ?_
    rintro ⟨j, -, hij, hji, -⟩
    omega
  | succ left ih =>
    rw [convertLoop_succ, List.mem_append]
    have hnext := listAt_succ h
    -- An event of this turn, or of a later one, which has the list of `stepAt` to begin with.
    constructor
    · rintro (hvisit | hrest)
      · exact ⟨i, l, le_refl i, by omega, h, hvisit⟩
      · cases hstep : stepAt convert i l with
        | none =>
          rw [hstep] at hrest
          cases hrest
        | some l₁ =>
          rw [hstep] at hrest
          obtain ⟨j, l', hij, hji, hj, hvisit⟩ := (ih (hnext.trans hstep)).mp hrest
          exact ⟨j, l', by omega, by omega, hj, hvisit⟩
    · rintro ⟨j, l', hij, hji, hj, hvisit⟩
      rcases Nat.eq_or_lt_of_le hij with rfl | hlt
      · obtain rfl := Option.some.inj (h.symm.trans hj)
        exact Or.inl hvisit
      · cases hstep : stepAt convert i l with
        | none =>
          rw [listAt_eq_none (hnext.trans hstep) hlt] at hj
          cases hj
        | some l₁ =>
          exact Or.inr ((ih (hnext.trans hstep)).mpr ⟨j, l', hlt, by omega, hj, hvisit⟩)

/-! ## How the loop ends -/

@[simp] theorem encodedPaths_releaseFirst (n : Nat) :
    encodedPaths (releaseFirst n : List (Event Item Path ε)) = [] := by
  simp [encodedPaths, releaseFirst, List.filterMap_map]

@[simp] theorem kernelCalls_releaseFirst (n : Nat) :
    kernelCalls (releaseFirst n : List (Event Item Path ε)) = [] := by
  simp [kernelCalls, releaseFirst, List.filterMap_map]

@[simp] theorem releasedPaths_releaseFirst (n : Nat) :
    releasedPaths (releaseFirst n : List (Event Item Path ε)) = List.range n := by
  simp [releasedPaths, releaseFirst, List.filterMap_map]

/-- What has been done when the loop ends so, from index `i` on with `left` to go. -/
def EndSpec (i left : Nat) (events : List (Event Item Path ε)) : Ended Path ε → Prop
  | .finished encoded => encoded.length = left ∧ encodedPaths events = encoded ∧
      kernelCalls events = [] ∧ releasedPaths events = [] ∧ ∀ k e, .failed k e ∉ events
  | .raised _ => ∃ k, i ≤ k ∧ k < i + left ∧ kernelCalls events = [] ∧
      releasedPaths events = List.range k ∧ (∀ j e, .failed j e ∈ events → j = k) ∧
      ∀ item path, .converted k item path ∉ events
  | .strayed => ∃ k length, .read k length ∈ events ∧ length ≤ k

/-- A turn that converts its item puts one more path in front. -/
theorem EndSpec.cons {i left : Nat} {events : List (Event Item Path ε)} {ended : Ended Path ε}
    (h : EndSpec (i + 1) left events ended) (length : Nat) (item : Item) (path : Path) :
    EndSpec i (left + 1) (.read i length :: .converted i item path :: events)
      (ended.cons path) := by
  cases ended with
  | finished encoded =>
    obtain ⟨hlength, hencoded, hcalls, hreleased, hfailed⟩ := h
    refine ⟨congrArg (· + 1) hlength, congrArg (path :: ·) hencoded, hcalls, hreleased, ?_⟩
    intro k e hmem
    simp only [List.mem_cons, reduceCtorEq, false_or] at hmem
    exact hfailed k e hmem
  | raised e =>
    obtain ⟨k, hik, hk, hcalls, hreleased, hfailed, hconverted⟩ := h
    refine ⟨k, by omega, by omega, hcalls, hreleased, ?_, ?_⟩
    · intro j e' hmem
      simp only [List.mem_cons, reduceCtorEq, false_or] at hmem
      exact hfailed j e' hmem
    · intro item' path' hmem
      simp only [List.mem_cons, reduceCtorEq, false_or, Event.converted.injEq] at hmem
      rcases hmem with ⟨rfl, -⟩ | hmem
      · omega
      · exact hconverted item' path' hmem
  | strayed =>
    obtain ⟨k, length, hmem, hlength⟩ := h
    exact ⟨k, length, List.mem_cons_of_mem _ (List.mem_cons_of_mem _ hmem), hlength⟩

theorem convertLoop_spec (convert : Convert Item Path ε) (left i : Nat) (l : List Item) :
    EndSpec i left (convertLoop convert left i l).1 (convertLoop convert left i l).2 := by
  induction left generalizing i l with
  | zero => exact ⟨rfl, rfl, rfl, rfl, fun _ _ => List.not_mem_nil⟩
  | succ left ih =>
    unfold convertLoop
    cases hitem : l[i]? with
    | none =>
      exact ⟨i, l.length, List.mem_singleton_self _, List.getElem?_eq_none_iff.mp hitem⟩
    | some item =>
      dsimp only
      rcases convert i item l with ⟨e | path, l'⟩
      · refine ⟨i, le_refl i, by omega, ?_, ?_, ?_, ?_⟩
        · exact kernelCalls_releaseFirst i
        · exact releasedPaths_releaseFirst i
        · intro j e' hmem
          simp only [releaseFirst, List.mem_cons, reduceCtorEq, Event.failed.injEq, List.mem_map,
            and_false, exists_false, or_false, false_or] at hmem
          exact hmem.1
        · intro item' path hmem
          simp [releaseFirst] at hmem
      · exact (ih (i + 1) l').cons l.length item path

/-! ## The loop and the list -/

/-- A conversion that succeeded, and the list it found. -/
theorem converted_mem_convertLoop_iff {i : Nat} {item : Item} {path : Path} :
    .converted i item path ∈ (convertLoop convert items.length 0 items).1 ↔
      i < items.length ∧ ∃ l, listAt convert items i = some l ∧ l[i]? = some item ∧
        (convert i item l).1 = .ok path := by
  have hstart : listAt convert items 0 = some items := rfl
  rw [mem_convertLoop_iff hstart]
  constructor
  · rintro ⟨j, l, -, hj, hl, hvisit⟩
    obtain ⟨rfl, hitem, hok⟩ := converted_mem_visit_iff.mp hvisit
    exact ⟨by omega, l, hl, hitem, hok⟩
  · rintro ⟨hi, l, hl, hitem, hok⟩
    exact ⟨i, l, by omega, by omega, hl, converted_mem_visit_iff.mpr ⟨rfl, hitem, hok⟩⟩

theorem read_mem_convertLoop_iff {i length : Nat} :
    .read i length ∈ (convertLoop convert items.length 0 items).1 ↔
      i < items.length ∧ ∃ l, listAt convert items i = some l ∧ length = l.length := by
  have hstart : listAt convert items 0 = some items := rfl
  rw [mem_convertLoop_iff hstart]
  constructor
  · rintro ⟨j, l, -, hj, hl, hvisit⟩
    obtain ⟨rfl, hlength⟩ := read_mem_visit_iff.mp hvisit
    exact ⟨by omega, l, hl, hlength⟩
  · rintro ⟨hi, l, hl, hlength⟩
    exact ⟨i, l, by omega, by omega, hl, read_mem_visit_iff.mpr ⟨rfl, hlength⟩⟩

/-- There is a list to go on with exactly if the item was there and was converted. -/
theorem stepAt_isSome_iff {i : Nat} {l : List Item} :
    (stepAt convert i l).isSome ↔
      ∃ item path, l[i]? = some item ∧ (convert i item l).1 = .ok path := by
  cases hitem : l[i]? with
  | none =>
    rw [stepAt_none hitem]
    refine iff_of_false Bool.false_ne_true ?_
    rintro ⟨item, path, hsome, -⟩
    cases hsome
  | some item =>
    rcases hconvert : convert i item l with ⟨e | path, l'⟩
    · rw [stepAt_error hitem hconvert]
      refine iff_of_false Bool.false_ne_true ?_
      rintro ⟨item', path, hsome, hok⟩
      obtain rfl := Option.some.inj hsome
      rw [hconvert] at hok
      cases hok
    · rw [stepAt_ok hitem hconvert]
      exact iff_of_true rfl ⟨item, path, rfl, by rw [hconvert]⟩

/-- All items are converted exactly if there is a list behind the last one. -/
theorem allConverted_iff :
    AllConverted items.length (convertLoop convert items.length 0 items).1 ↔
      (listAt convert items items.length).isSome := by
  constructor
  · intro hall
    cases hn : items.length with
    | zero => rfl
    | succ m =>
      obtain ⟨item, path, hmem⟩ := hall m (by omega)
      obtain ⟨-, l, hl, hitem, hok⟩ := converted_mem_convertLoop_iff.mp hmem
      rw [listAt_succ hl]
      exact stepAt_isSome_iff.mpr ⟨item, path, hitem, hok⟩
  · intro hsome i hi
    -- The list behind the last item was reached through all the others.
    have harrived : ∀ j ≤ items.length, (listAt convert items j).isSome := by
      intro j hj
      rw [Option.isSome_iff_ne_none]
      intro hnone
      rw [listAt_eq_none hnone hj] at hsome
      cases hsome
    obtain ⟨l, hl⟩ := Option.isSome_iff_exists.mp (harrived i (by omega))
    have hnext := harrived (i + 1) hi
    rw [listAt_succ hl] at hnext
    obtain ⟨item, path, hitem, hok⟩ := stepAt_isSome_iff.mp hnext
    exact ⟨item, path, converted_mem_convertLoop_iff.mpr ⟨hi, l, hl, hitem, hok⟩⟩

/-! ## The method -/

/-- What the method does behind the loop. -/
def afterLoop (rc : Int) : Ended Path ε → List (Event Item Path ε)
  | .finished encoded => (callKernel rc encoded : Run Item Path ε).events
  | _ => []

theorem importItems_events {memory : Bool} (rc : Int) (h : ¬ (items ≠ [] ∧ ¬ memory)) :
    (importItems memory rc convert items).events =
      .lengthTaken items.length :: ((convertLoop convert items.length 0 items).1 ++
        afterLoop rc (convertLoop convert items.length 0 items).2) := by
  unfold importItems
  rw [if_neg h]
  rcases convertLoop convert items.length 0 items with ⟨events, encoded | e | _⟩
  · rfl
  · exact congrArg _ (List.append_nil events).symm
  · exact congrArg _ (List.append_nil events).symm

/-- Behind the loop there are only the kernel call and the releases. -/
theorem eq_of_mem_afterLoop {rc : Int} {ended : Ended Path ε} {event : Event Item Path ε}
    (h : event ∈ afterLoop rc ended) :
    (∃ paths, event = .kernelCall paths) ∨ ∃ index, event = .released index := by
  cases ended with
  | finished encoded =>
    rcases List.mem_cons.mp h with rfl | h
    · exact Or.inl ⟨encoded, rfl⟩
    · obtain ⟨index, -, rfl⟩ := List.mem_map.mp h
      exact Or.inr ⟨index, rfl⟩
  | raised e => cases h
  | strayed => cases h

/-- What happens to single items happens in the loop. -/
theorem mem_loop_of_mem {rc : Int} {n : Nat} {events : List (Event Item Path ε)}
    {ended : Ended Path ε} {event : Event Item Path ε}
    (h : event ∈ .lengthTaken n :: (events ++ afterLoop rc ended))
    (htaken : ∀ n, event ≠ .lengthTaken n) (hcall : ∀ paths, event ≠ .kernelCall paths)
    (hreleased : ∀ index, event ≠ .released index) : event ∈ events := by
  rcases List.mem_cons.mp h with h | h
  · exact absurd h (htaken n)
  · rcases List.mem_append.mp h with h | h
    · exact h
    · rcases eq_of_mem_afterLoop h with ⟨paths, rfl⟩ | ⟨index, rfl⟩
      · exact absurd rfl (hcall paths)
      · exact absurd rfl (hreleased index)

/-- Behind a loop that has finished comes the kernel call, and then the releases. -/
theorem importedOnce_of_finished {n : Nat} {events : List (Event Item Path ε)}
    {encoded : List Path} (h : EndSpec 0 n events (.finished encoded)) (rc : Int) :
    ImportedOnce n (.lengthTaken n :: (events ++ afterLoop rc (.finished encoded))) := by
  obtain ⟨hlength, hencoded, hcalls, hreleased, -⟩ := h
  have hpaths : encodedPaths (.lengthTaken n :: (events ++ afterLoop rc (.finished encoded))) =
      encoded := by
    have hafter : encodedPaths (afterLoop rc (.finished encoded) :
        List (Event Item Path ε)) = [] := encodedPaths_releaseFirst encoded.length
    have happend : encodedPaths (events ++ afterLoop rc (.finished encoded)) =
        encodedPaths events ++ encodedPaths (afterLoop rc (.finished encoded)) :=
      List.filterMap_append
    rw [hafter, List.append_nil, hencoded] at happend
    exact happend
  refine ⟨.lengthTaken n :: events, releaseFirst encoded.length, ?_⟩
  rw [hpaths]
  refine ⟨rfl, hlength, hcalls, kernelCalls_releaseFirst _, hreleased, ?_⟩
  rw [releasedPaths_releaseFirst, hlength]

/-- Behind a loop that has failed comes nothing more; it has cleaned up after itself. -/
theorem cleanedUp_of_raised {n k : Nat} {events : List (Event Item Path ε)} {e e' : ε}
    (h : EndSpec 0 n events (.raised e)) (hfailed : .failed k e' ∈ events) (rc : Int) :
    (releasedPaths (.lengthTaken n :: (events ++ afterLoop rc (.raised e)))).Perm
        (List.range k) ∧
      kernelCalls (.lengthTaken n :: (events ++ afterLoop rc (.raised e))) = [] := by
  obtain ⟨k', -, -, hcalls, hreleased, honly, -⟩ := h
  obtain rfl := honly k e' hfailed
  have hevents : .lengthTaken n :: (events ++ afterLoop rc (.raised e)) =
      .lengthTaken n :: events := congrArg _ (List.append_nil events)
  rw [hevents]
  exact ⟨List.Perm.of_eq hreleased, hcalls⟩

theorem safe_of_longEnough {memory : Bool} (rc : Int) (h : ¬ (items ≠ [] ∧ ¬ memory))
    (hlong : LongEnough convert items) :
    Safe items.length (importItems memory rc convert items).events := by
  have hread : ∀ i length, .read i length ∈ (convertLoop convert items.length 0 items).1 →
      i < length := by
    intro i length hmem
    obtain ⟨hi, l, hl, rfl⟩ := read_mem_convertLoop_iff.mp hmem
    exact longEnough_iff.mp hlong i hi l hl
  have hspec := convertLoop_spec convert items.length 0 items
  rw [importItems_events rc h]
  -- From here on only how the loop ended matters.
  revert hspec hread
  generalize convertLoop convert items.length 0 items = loop
  obtain ⟨events, ended⟩ := loop
  intro hread hspec
  have hbounds : ∀ i length, .read i length ∈ .lengthTaken items.length ::
      (events ++ afterLoop rc ended) → i < length := fun i length hmem =>
    hread i length (mem_loop_of_mem hmem (by simp) (by simp) (by simp))
  refine ⟨hbounds, ?_, ?_⟩
  · intro _ hall
    cases ended with
    | finished encoded => exact importedOnce_of_finished hspec rc
    | raised e =>
      -- The item that failed was not converted, so not all were.
      obtain ⟨k, -, hk, -, -, -, hconverted⟩ := hspec
      obtain ⟨item, path, hmem⟩ := hall k (by omega)
      exact absurd (mem_loop_of_mem hmem (by simp) (by simp) (by simp)) (hconverted item path)
    | strayed =>
      obtain ⟨k, length, hmem, hlength⟩ := hspec
      exact absurd (hread k length hmem) (by omega)
  · intro k e hmem
    have hfailed := mem_loop_of_mem hmem (by simp) (by simp) (by simp)
    cases ended with
    | finished encoded => exact absurd hfailed (hspec.2.2.2.2 k e)
    | raised e' => exact cleanedUp_of_raised hspec hfailed rc
    | strayed =>
      obtain ⟨k, length, hmem, hlength⟩ := hspec
      exact absurd (hread k length hmem) (by omega)

theorem longEnough_of_safe {memory : Bool} {rc : Int} (h : ¬ (items ≠ [] ∧ ¬ memory))
    (hsafe : Safe items.length (importItems memory rc convert items).events) :
    LongEnough convert items := by
  refine longEnough_iff.mpr fun i hi l hl => ?_
  refine hsafe.in_bounds i l.length ?_
  rw [importItems_events rc h]
  exact List.mem_cons_of_mem _
    (List.mem_append_left _ (read_mem_convertLoop_iff.mpr ⟨hi, l, hl, rfl⟩))

/-- The items are those of the list as it was exactly if none was replaced. -/
theorem sameItems_iff {memory : Bool} (rc : Int) (h : ¬ (items ≠ [] ∧ ¬ memory)) :
    SameItems items (importItems memory rc convert items).events ↔ Unreplaced convert items := by
  rw [importItems_events rc h]
  have hmem : ∀ {i item path}, .converted i item path ∈ .lengthTaken items.length ::
      ((convertLoop convert items.length 0 items).1 ++
        afterLoop rc (convertLoop convert items.length 0 items).2) ↔
      .converted i item path ∈ (convertLoop convert items.length 0 items).1 := by
    intro i item path
    refine ⟨fun h => mem_loop_of_mem h (by simp) (by simp) (by simp), fun h => ?_⟩
    exact List.mem_cons_of_mem _ (List.mem_append_left _ h)
  unfold SameItems
  simp only [AllConverted, hmem]
  show (AllConverted _ _ → _) ↔ _
  rw [allConverted_iff]
  constructor
  · intro hsame hsome i hi l hl
    obtain ⟨item, path, hconverted⟩ := allConverted_iff.mpr hsome i hi
    obtain ⟨-, l', hl', hitem, -⟩ := converted_mem_convertLoop_iff.mp hconverted
    obtain rfl := Option.some.inj (hl.symm.trans hl')
    rw [hitem, hsame hsome i item path hconverted]
  · intro hkept hsome i item path hconverted
    obtain ⟨hi, l, hl, hitem, -⟩ := converted_mem_convertLoop_iff.mp hconverted
    rw [← hkept hsome i hi l hl, hitem]

/-- Without memory, or on a closed object, no item is touched. -/
theorem safe_of_untouched {events : List (Event Item Path ε)}
    (h : ∀ event ∈ events, event = .lengthTaken items.length ∧ items ≠ []) :
    Safe items.length events ∧ SameItems items events := by
  refine ⟨⟨?_, ?_, ?_⟩, ?_⟩
  · intro i length hmem
    cases (h _ hmem).1
  · intro htaken hall
    obtain ⟨item, path, hmem⟩ := hall 0 (List.length_pos_iff.mpr (h _ htaken).2)
    cases (h _ hmem).1
  · intro k e hmem
    cases (h _ hmem).1
  · intro _ i item path hmem
    cases (h _ hmem).1

theorem importItems_safe_iff (memory : Bool) (rc : Int) (convert : Convert Item Path ε)
    (items : List Item) :
    (Safe items.length (importItems memory rc convert items).events ↔
      (memory = true → LongEnough convert items)) ∧
    (Safe items.length (importItems memory rc convert items).events ∧
        SameItems items (importItems memory rc convert items).events ↔
      (memory = true → LongEnough convert items ∧ Unreplaced convert items)) := by
  by_cases h : items ≠ [] ∧ ¬ memory
  · have hboth : Safe items.length (importItems memory rc convert items).events ∧
        SameItems items (importItems memory rc convert items).events := by
      refine safe_of_untouched ?_
      intro event hmem
      rw [importItems, if_pos h] at hmem
      exact ⟨List.mem_singleton.mp hmem, h.1⟩
    exact ⟨iff_of_true hboth.1 fun hmemory => absurd hmemory h.2,
      iff_of_true hboth fun hmemory => absurd hmemory h.2⟩
  · have hsafe : Safe items.length (importItems memory rc convert items).events ↔
        LongEnough convert items := ⟨longEnough_of_safe h, safe_of_longEnough rc h⟩
    rw [sameItems_iff rc h, hsafe]
    -- An empty list needs no memory, and nothing can happen to it.
    by_cases hmemory : memory = true
    · simp only [hmemory, forall_const, and_self]
    · have hnil : items = [] := by
        by_contra hne
        exact h ⟨hne, hmemory⟩
      have hlong : LongEnough convert items :=
        longEnough_iff.mpr fun i hi => by rw [hnil] at hi; cases hi
      have hkept : Unreplaced convert items := fun _ i hi => by rw [hnil] at hi; cases hi
      exact ⟨iff_of_true hlong fun hno => absurd hno hmemory,
        iff_of_true ⟨hlong, hkept⟩ fun hno => absurd hno hmemory⟩

/-- A tuple, or a copy, stays as it is: the loop is safe against whatever its items do. -/
theorem importBlocks_sequence_safe (isOpen memory : Bool) (rc : Int)
    (convert : Convert Item Path ε) (items : List Item) :
    Safe items.length (importBlocks isOpen memory rc convert (.sequence items)).events ∧
      SameItems items (importBlocks isOpen memory rc convert (.sequence items)).events := by
  have hstep : ∀ i l, listAt (fun i item items => ((convert i item items).1, items)) items i =
      some l → l = items := by
    intro i
    induction i with
    | zero => exact fun l hl => (Option.some.inj hl).symm
    | succ i ih =>
      intro l hl
      obtain ⟨l', hl', hnext⟩ := Option.bind_eq_some_iff.mp hl
      obtain rfl := ih l' hl'
      obtain ⟨item, path, -, hconvert⟩ := stepAt_eq_some hnext
      exact (Prod.mk.inj hconvert).2.symm
  cases isOpen with
  | false => exact safe_of_untouched fun _ hmem => absurd hmem List.not_mem_nil
  | true =>
    refine (importItems_safe_iff memory rc _ items).2.mpr fun _ => ⟨longEnough_iff.mpr ?_, ?_⟩
    · intro i hi l hl
      rw [hstep i l hl]
      exact hi
    · intro _ i _ l hl
      rw [hstep i l hl]

/-- **When the loop is safe** against the items it converts, and when it converts the items
of the list as it was. -/
theorem importBlocks_safe_iff (isOpen memory : Bool) (rc : Int) (convert : Convert Item Path ε)
    (items : List Item) :
    (Safe items.length (importBlocks isOpen memory rc convert (.list items)).events ↔
      (isOpen = true → memory = true → LongEnough convert items)) ∧
    (Safe items.length (importBlocks isOpen memory rc convert (.list items)).events ∧
        SameItems items (importBlocks isOpen memory rc convert (.list items)).events ↔
      (isOpen = true → memory = true → LongEnough convert items ∧ Unreplaced convert items)) := by
  cases isOpen with
  | false =>
    have hboth : Safe items.length (importBlocks false memory rc convert (.list items)).events ∧
        SameItems items (importBlocks false memory rc convert (.list items)).events :=
      safe_of_untouched fun _ hmem => absurd hmem List.not_mem_nil
    exact ⟨iff_of_true hboth.1 fun h => absurd h Bool.false_ne_true,
      iff_of_true hboth fun h => absurd h Bool.false_ne_true⟩
  | true =>
    have h := importItems_safe_iff memory rc convert items
    exact ⟨h.1.trans ⟨fun hlong _ => hlong, fun hlong => hlong rfl⟩,
      h.2.trans ⟨fun hlong _ => hlong, fun hlong => hlong rfl⟩⟩

/-- Two items, of which the first empties the list: the second is read from an empty list. -/
theorem importBlocks_unsafe :
    let convert : Convert Nat Nat PyErr :=
      fun i item items => (.ok item, if i = 0 then [] else items)
    ¬ Safe 2 (importBlocks true true 0 convert (.list [7, 8])).events := by
  intro convert h
  have hread : .read 1 0 ∈ (importBlocks true true 0 convert (.list [7, 8])).events :=
    List.mem_cons_of_mem _ (List.mem_cons_of_mem _ (List.mem_cons_of_mem _
      (List.mem_singleton_self _)))
  exact absurd (h.in_bounds 1 0 hread) (by decide)

end PyBitcoinKernel.Manager.ImportBlocks
