/-!
# Guarded transition systems and the disciplines that keep them safe

A `Machine` is an initial state and a guarded, executable step function:
`step s e` is `none` where the event `e` is disabled. A *schedule* is a list of
events; `exec` runs one, so a concrete interleaving can be evaluated, and the
rules below speak of all of them. A disabled event ends the schedule there;
nothing is said of what follows it.

Two predicates follow a schedule from a state: `Throughout P` (every state it
visits satisfies `P`) and `Obeys C` (every step it takes meets `C` in the state
it is taken from). `Keeps C P s` says that from `s` on, schedules that obey the
discipline `C` satisfy `P` throughout. A property that holds only as long as
the users of a component behave is then one of

* `throughout_of_obeys`: an invariant that disciplined steps preserve;
* `throughout_iff_obeys`: a discipline whose every breach breaks the property
  at once;
* `exact_of_breach`: a discipline whose every breach can no longer be repaired,
  that is, a disciplined schedule from there reaches a violation (`Exact`);
* `obeys_congr`: a property of steps that, where an invariant holds, is the
  discipline itself.

`exec_simulated` carries a relation between the states of a machine and those of
another transition relation along whole schedules.
-/

/-- A guarded, executable transition system. -/
structure Machine (σ ε : Type) where
  init : σ
  step : σ → ε → Option σ

namespace Machine

variable {σ ε : Type} (M : Machine σ ε)

/-- Run a schedule; `none` if an event is disabled where it comes. -/
def exec : σ → List ε → Option σ
  | s, [] => some s
  | s, e :: es => (M.step s e).bind fun s' => exec s' es

/-- Every step the schedule takes meets `C` in the state it is taken from. -/
def Obeys (C : σ → ε → Prop) : σ → List ε → Prop
  | _, [] => True
  | s, e :: es => ∀ s', M.step s e = some s' → C s e ∧ Obeys C s' es

/-- Every state the schedule visits satisfies `P`, the first one included. -/
def Throughout (P : σ → Prop) : σ → List ε → Prop
  | s, [] => P s
  | s, e :: es => P s ∧ ∀ s', M.step s e = some s' → Throughout P s' es

/-- Some schedule leads from the initial state to `s`. -/
def Reachable (s : σ) : Prop := ∃ es, M.exec M.init es = some s

/-- Disciplined schedules from `s` satisfy `P` throughout. -/
def Keeps (C : σ → ε → Prop) (P : σ → Prop) (s : σ) : Prop :=
  ∀ es, M.Obeys C s es → M.Throughout P s es

/-- Discipline keeps `P` from the start on, and wherever discipline has led, the steps that
meet `C` are those after which further discipline keeps `P`. A run with a breach need not
violate `P` itself: some disciplined continuation of it does. -/
def Exact (C : σ → ε → Prop) (P : σ → Prop) : Prop :=
  M.Keeps C P M.init ∧
  ∀ es s e s', M.Obeys C M.init es → M.exec M.init es = some s → M.step s e = some s' →
    (C s e ↔ M.Keeps C P s')

variable {M}

theorem exec_cons_iff {s s' : σ} {e : ε} {es : List ε} :
    M.exec s (e :: es) = some s' ↔ ∃ t, M.step s e = some t ∧ M.exec t es = some s' := by
  rw [exec, Option.bind_eq_some_iff]

/-- One schedule after the other. -/
theorem exec_append {s t u : σ} {es es' : List ε} (h : M.exec s es = some t)
    (h' : M.exec t es' = some u) : M.exec s (es ++ es') = some u := by
  induction es generalizing s with
  | nil =>
    rw [exec, Option.some.injEq] at h
    rw [List.nil_append, h]
    exact h'
  | cons e es ih =>
    obtain ⟨r, hr, hes⟩ := exec_cons_iff.mp h
    exact exec_cons_iff.mpr ⟨r, hr, ih hes⟩

/-! ## Invariants -/

/-- An invariant that disciplined steps preserve holds where a disciplined
schedule ends. -/
theorem exec_of_obeys {C : σ → ε → Prop} {I : σ → Prop}
    (hstep : ∀ s e s', I s → C s e → M.step s e = some s' → I s') :
    ∀ {es : List ε} {s s' : σ}, I s → M.Obeys C s es → M.exec s es = some s' → I s' := by
  intro es
  induction es with
  | nil =>
    intro s s' hs _ h
    rw [exec, Option.some.injEq] at h
    exact h ▸ hs
  | cons e es ih =>
    intro s s' hs hob h
    obtain ⟨t, ht, hes⟩ := exec_cons_iff.mp h
    obtain ⟨hC, hrest⟩ := hob t ht
    exact ih (hstep s e t hs hC ht) hrest hes

theorem obeys_true : ∀ (es : List ε) (s : σ), M.Obeys (fun _ _ => True) s es
  | [], _ => trivial
  | _ :: es, _ => fun s' _ => ⟨trivial, obeys_true es s'⟩

/-- What holds initially and is preserved by every step holds of every
reachable state. -/
theorem Reachable.invariant {I : σ → Prop} (hinit : I M.init)
    (hstep : ∀ s e s', I s → M.step s e = some s' → I s') {s : σ} (h : M.Reachable s) : I s := by
  obtain ⟨es, hes⟩ := h
  exact exec_of_obeys (fun s e s' hs _ => hstep s e s' hs) hinit (obeys_true es M.init) hes

/-- **Discipline suffices**: an invariant that disciplined steps preserve holds
in every state a disciplined schedule visits. -/
theorem throughout_of_obeys {C : σ → ε → Prop} {I P : σ → Prop} (himp : ∀ s, I s → P s)
    (hstep : ∀ s e s', I s → C s e → M.step s e = some s' → I s') :
    ∀ {es : List ε} {s : σ}, I s → M.Obeys C s es → M.Throughout P s es := by
  intro es
  induction es with
  | nil => intro s hs _; exact himp s hs
  | cons e es ih =>
    intro s hs hob
    refine ⟨himp s hs, ?_⟩
    intro s' hs'
    obtain ⟨hC, hrest⟩ := hob s' hs'
    exact ih (hstep s e s' hs hC hs') hrest

/-! ## Exact disciplines -/

theorem Throughout.head {P : σ → Prop} {s : σ} {es : List ε} (h : M.Throughout P s es) : P s := by
  cases es with
  | nil => exact h
  | cons e es => exact h.1

/-- What holds throughout a schedule holds where it ends. -/
theorem Throughout.last {P : σ → Prop} :
    ∀ {es : List ε} {s s' : σ}, M.Throughout P s es → M.exec s es = some s' → P s' := by
  intro es
  induction es with
  | nil =>
    intro s s' h hs
    rw [exec, Option.some.injEq] at hs
    exact hs ▸ h
  | cons e es ih =>
    intro s s' h hs
    obtain ⟨t, ht, hes⟩ := exec_cons_iff.mp hs
    exact ih (h.2 t ht) hes

/-- **Discipline is exact** where, under an invariant of all steps, a step keeps
the property just when it is disciplined. -/
theorem throughout_iff_obeys {C : σ → ε → Prop} {I P : σ → Prop}
    (hinv : ∀ s e s', I s → M.step s e = some s' → I s')
    (hstep : ∀ s e s', I s → P s → M.step s e = some s' → (P s' ↔ C s e)) :
    ∀ {es : List ε} {s : σ}, I s → P s → (M.Throughout P s es ↔ M.Obeys C s es) := by
  intro es
  induction es with
  | nil => intro s _ hs; exact iff_of_true hs trivial
  | cons e es ih =>
    intro s hI hs
    constructor
    · intro hall s' hs'
      have h := hall.2
      have hP : P s' := (h s' hs').head
      exact ⟨(hstep s e s' hI hs hs').mp hP, (ih (hinv s e s' hI hs') hP).mp (h s' hs')⟩
    · intro h
      refine ⟨hs, ?_⟩
      intro s' hs'
      obtain ⟨hC, hrest⟩ := h s' hs'
      exact (ih (hinv s e s' hI hs') ((hstep s e s' hI hs hs').mpr hC)).mpr hrest

/-- **Discipline is exact** where an invariant of disciplined steps implies the
property, and after any other step a disciplined schedule leads out of it. -/
theorem exact_of_breach {C : σ → ε → Prop} {I P : σ → Prop} (hinit : I M.init)
    (himp : ∀ s, I s → P s) (hstep : ∀ s e s', I s → C s e → M.step s e = some s' → I s')
    (hbreach : ∀ s e s', I s → ¬ C s e → M.step s e = some s' →
      ∃ es t, M.Obeys C s' es ∧ M.exec s' es = some t ∧ ¬ P t) :
    M.Exact C P := by
  have hkeeps : ∀ s, I s → M.Keeps C P s := fun s hs es hob =>
    throughout_of_obeys himp hstep hs hob
  refine ⟨hkeeps M.init hinit, ?_⟩
  intro es s e s' hob hes hs'
  have hs : I s := exec_of_obeys hstep hinit hob hes
  constructor
  · intro hC
    exact hkeeps s' (hstep s e s' hs hC hs')
  · intro hk
    refine Classical.byContradiction ?_
    intro hno
    obtain ⟨fs, t, hobs, ht, hbad⟩ := hbreach s e s' hs hno hs'
    exact hbad ((hk fs hobs).last ht)

/-- Two step properties that agree where an invariant holds agree along every
schedule. -/
theorem obeys_congr {C D : σ → ε → Prop} {I : σ → Prop}
    (hstep : ∀ s e s', I s → M.step s e = some s' → I s')
    (hiff : ∀ s e s', I s → M.step s e = some s' → (C s e ↔ D s e)) :
    ∀ {es : List ε} {s : σ}, I s → (M.Obeys C s es ↔ M.Obeys D s es) := by
  intro es
  induction es with
  | nil => intro s _; exact Iff.rfl
  | cons e es ih =>
    intro s hs
    refine forall_congr' ?_
    intro s'
    constructor
    · intro h hs'
      obtain ⟨hC, hrest⟩ := h hs'
      exact ⟨(hiff s e s' hs hs').mp hC, (ih (hstep s e s' hs hs')).mp hrest⟩
    · intro h hs'
      obtain ⟨hD, hrest⟩ := h hs'
      exact ⟨(hiff s e s' hs hs').mpr hD, (ih (hstep s e s' hs hs')).mpr hrest⟩

/-! ## Simulations -/

/-- The steps of a transition relation along a schedule. -/
def Follows {α : Type} (S : α → ε → α → Prop) : α → List ε → α → Prop
  | a, [], b => a = b
  | a, e :: es, b => ∃ c, S a e c ∧ Follows S c es b

/-- **Runs are simulated** where steps are. -/
theorem exec_simulated {α : Type} {S : α → ε → α → Prop} {R : σ → α → Prop}
    (hstep : ∀ s a e s', R s a → M.step s e = some s' → ∃ a', S a e a' ∧ R s' a') :
    ∀ {es : List ε} {s s' : σ} {a : α}, R s a → M.exec s es = some s' →
      ∃ a', Follows S a es a' ∧ R s' a' := by
  intro es
  induction es with
  | nil =>
    intro s s' a hR hes
    rw [exec, Option.some.injEq] at hes
    exact ⟨a, rfl, hes ▸ hR⟩
  | cons e es ih =>
    intro s s' a hR hes
    obtain ⟨t, ht, hrest⟩ := exec_cons_iff.mp hes
    obtain ⟨b, hb, hRb⟩ := hstep s a e t hR ht
    obtain ⟨c, hc, hRc⟩ := ih hRb hrest
    exact ⟨c, ⟨b, hb, hc⟩, hRc⟩

end Machine
