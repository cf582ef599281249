import PyBitcoinKernel.Trace.Slot

/-!
# `debug_script` in several threads

Registering the callback, verifying and unregistering are three separate steps
under the GIL, and the slot they share is global. Meanwhile kernel threads that
evaluate scripts for a `process_block` deliver their frames to whatever callback
is registered, each frame taking the GIL on its own. In `machine τ` any number
of threads `τ` interleave in these steps, and the ghost field `emitted` keeps
what each call's own verification emitted.

> `debugScript_frames_exact`: as long as frames only ever reach the call whose
> verification emits them, every returned trace holds its own frames and no others;
> and the first frame to go astray puts a wrong trace within reach.
-/

namespace PyBitcoinKernel.Trace

open PyBitcoinKernel.Binding

/-! ## The machine -/

/-- Where a thread is in `debug_script`; `call` stands for the list of frames,
and for its `append`. -/
inductive Pc where
  | idle
  | registered (call : Nat)
  | verified (call : Nat) (verdict : PyResult Bool)
  | unregistered (call : Nat) (verdict : PyResult Bool)

/-- The call a thread is in. -/
def Pc.call? : Pc → Option Nat
  | .idle => none
  | .registered call => some call
  | .verified call _ => some call
  | .unregistered call _ => some call

structure Shared (τ : Type) where
  kernel : TraceKernel Nat
  pc : τ → Pc
  /-- The calls started so far are those below. -/
  calls : Nat
  /-- The list each call appends to. -/
  frames : Nat → List Frame
  /-- What the verification of each call emitted. -/
  emitted : Nat → List Frame
  /-- How many `process_block` calls are running. -/
  validating : Nat
  /-- The traces returned, by call. -/
  returned : List (Nat × ScriptTrace)

inductive Step (τ : Type) where
  /-- `frames = []`, and the context is entered. -/
  | register (t : τ)
  /-- `verify_script`, with the GIL held throughout. -/
  | verify (t : τ) (v : Evaluation)
  /-- The context is left. -/
  | unregister (t : τ)
  /-- `return ScriptTrace(valid, frames)`, or the exception goes on. -/
  | finish (t : τ)
  | processBlock
  | processBlockDone
  /-- A kernel thread delivers a frame. -/
  | frame (f : Frame)

/-- `script_trace_cb`, called with each frame: it goes to the registered list. -/
def collect (k : TraceKernel Nat) (lists : Nat → List Frame) (fs : List Frame) :
    Nat → List Frame :=
  match k.slot with
  | none => lists
  | some call => Function.update lists call (lists call ++ fs)

variable {τ : Type} [DecidableEq τ]

/-- The thread has moved on to `p`. -/
def Shared.move (s : Shared τ) (t : τ) (p : Pc) : Shared τ :=
  { s with pc := Function.update s.pc t p }

def Shared.start (s : Shared τ) (t : τ) (k : TraceKernel Nat) : Shared τ :=
  { s.move t (.registered s.calls) with
    kernel := k
    calls := s.calls + 1
    frames := Function.update s.frames s.calls [] }

def Shared.evaluate (s : Shared τ) (t : τ) (call : Nat) (v : Evaluation) : Shared τ :=
  { s.move t (.verified call v.verdict) with
    frames := collect s.kernel s.frames v.frames
    emitted := Function.update s.emitted call v.frames }

def Shared.leave (s : Shared τ) (t : τ) (call : Nat) (verdict : PyResult Bool) : Shared τ :=
  let (verdict, k) := scriptTraceExit s.kernel verdict
  { s.move t (.unregistered call verdict) with kernel := k }

def Shared.giveBack (s : Shared τ) (t : τ) (call : Nat) (valid : Bool) : Shared τ :=
  { s.move t .idle with returned := s.returned ++ [(call, ⟨valid, s.frames call⟩)] }

def Shared.deliver (s : Shared τ) (f : Frame) : Shared τ :=
  { s with frames := collect s.kernel s.frames [f] }

def Shared.step (s : Shared τ) : Step τ → Option (Shared τ)
  | .register t =>
    match s.pc t with
    | .idle =>
      match scriptTraceEnter s.kernel s.calls true with
      | (.ok _, k) => some (s.start t k)
      | (.error _, k) => some { s with kernel := k }
    | _ => none
  | .verify t v =>
    match s.pc t with
    | .registered call => some (s.evaluate t call v)
    | _ => none
  | .unregister t =>
    match s.pc t with
    | .verified call verdict => some (s.leave t call verdict)
    | _ => none
  | .finish t =>
    match s.pc t with
    -- The trace gets what the list holds by now.
    | .unregistered call (.ok valid) => some (s.giveBack t call valid)
    | .unregistered _ (.error _) => some (s.move t .idle)
    | _ => none
  | .processBlock => some { s with validating := s.validating + 1 }
  | .processBlockDone =>
    if 0 < s.validating then some { s with validating := s.validating - 1 } else none
  | .frame f => if 0 < s.validating then some (s.deliver f) else none

/-- All threads idle, tracing compiled in, nothing registered. -/
def threads (τ : Type) [DecidableEq τ] : Machine (Shared τ) (Step τ) where
  init := ⟨⟨true, none⟩, fun _ => .idle, 0, fun _ => [], fun _ => [], 0, []⟩
  step := Shared.step

/-- Every returned trace holds the frames of its own verification and no others. -/
def OwnFrames (s : Shared τ) : Prop := ∀ p ∈ s.returned, p.2.frames = s.emitted p.1

/-- A frame delivered now spoils nothing: what is registered, if anything,
belongs to a call whose verification has raised. -/
def Harmless (s : Shared τ) : Prop :=
  ∀ call, s.kernel.slot = some call → ∃ t e, s.pc t = .verified call (.error e)

/-- Frames go nowhere but to the call whose verification emits them. -/
def Undisturbed (s : Shared τ) : Step τ → Prop
  | .verify t v => ∀ call, s.pc t = .registered call →
      v.frames = [] ∨ s.kernel.slot = some call ∨ (∃ e, v.verdict = .error e) ∧ Harmless s
  | .frame _ => Harmless s
  | _ => True

/-! ## Whose list is whose -/

/-- Calls are numbered as they start, and no two threads are in the same one. -/
structure Owned (pc : τ → Pc) (calls : Nat) : Prop where
  started : ∀ t call, (pc t).call? = some call → call < calls
  own : ∀ t t' call, (pc t).call? = some call → (pc t').call? = some call → t = t'

/-- A thread that moves on within its call, or leaves it, is in no new call. -/
theorem call_of_update {pc : τ → Pc} {t t' : τ} {p : Pc} {call : Nat}
    (hp : ∀ c, p.call? = some c → (pc t).call? = some c)
    (h : (Function.update pc t p t').call? = some call) : (pc t').call? = some call := by
  by_cases ht : t' = t
  · subst ht
    rw [Function.update_self] at h
    exact hp call h
  · rwa [Function.update_of_ne ht] at h

theorem call_of_start {pc : τ → Pc} {t t' : τ} {p : Pc} {calls call : Nat}
    (hp : p.call? = some calls) (h : (Function.update pc t p t').call? = some call) :
    t' = t ∧ call = calls ∨ (pc t').call? = some call := by
  by_cases ht : t' = t
  · subst ht
    rw [Function.update_self, hp, Option.some.injEq] at h
    exact Or.inl ⟨rfl, h.symm⟩
  · rw [Function.update_of_ne ht] at h
    exact Or.inr h

theorem Owned.move {pc : τ → Pc} {calls : Nat} {t : τ} {p : Pc} (h : Owned pc calls)
    (hp : ∀ c, p.call? = some c → (pc t).call? = some c) :
    Owned (Function.update pc t p) calls where
  started t' call hcall := h.started t' call (call_of_update hp hcall)
  own t₁ t₂ call h₁ h₂ := h.own t₁ t₂ call (call_of_update hp h₁) (call_of_update hp h₂)

/-- A thread that starts a call is the only one in it. -/
theorem Owned.start {pc : τ → Pc} {calls : Nat} {p : Pc} (h : Owned pc calls) (t : τ)
    (hp : p.call? = some calls) : Owned (Function.update pc t p) (calls + 1) where
  started t' call hcall := by
    rcases call_of_start hp hcall with ⟨-, rfl⟩ | hold
    · omega
    · exact Nat.lt_succ_of_lt (h.started t' call hold)
  own t₁ t₂ call h₁ h₂ := by
    rcases call_of_start hp h₁ with ⟨ht₁, hc⟩ | h₁ <;>
      rcases call_of_start hp h₂ with ⟨ht₂, hc'⟩ | h₂
    · exact ht₁.trans ht₂.symm
    · exact absurd (h.started t₂ call h₂) (by omega)
    · exact absurd (h.started t₁ call h₁) (by omega)
    · exact h.own t₁ t₂ call h₁ h₂

/-- Between registering and unregistering. -/
def Pc.Inside (call : Nat) (p : Pc) : Prop :=
  p = .registered call ∨ ∃ verdict, p = .verified call verdict

theorem inside_of_update {pc : τ → Pc} {t : τ} {p : Pc} {call : Nat}
    (hp : (pc t).Inside call → p.Inside call) (h : ∃ t', (pc t').Inside call) :
    ∃ t', (Function.update pc t p t').Inside call := by
  obtain ⟨t', ht'⟩ := h
  refine ⟨t', ?_⟩
  by_cases ht : t' = t
  · subst ht
    rw [Function.update_self]
    exact hp ht'
  · rwa [Function.update_of_ne ht]

/-! ## Where frames go -/

theorem collect_of_ne {k : TraceKernel Nat} {call : Nat} (h : k.slot ≠ some call)
    (lists : Nat → List Frame) (fs : List Frame) : collect k lists fs call = lists call := by
  unfold collect
  cases hslot : k.slot with
  | none => rfl
  | some other =>
    have hne : call ≠ other := fun he => h (he ▸ hslot)
    exact Function.update_of_ne hne _ _

theorem collect_self {k : TraceKernel Nat} {call : Nat} (h : k.slot = some call)
    (lists : Nat → List Frame) (fs : List Frame) :
    collect k lists fs call = lists call ++ fs := by
  unfold collect
  rw [h]
  exact Function.update_self ..

@[simp] theorem collect_nil (k : TraceKernel Nat) (lists : Nat → List Frame) :
    collect k lists [] = lists := by
  unfold collect
  cases k.slot with
  | none => rfl
  | some call => simp

/-! ## A call on its own -/

/-- Up to its last step, a call that no other step interrupts collects what its
verification emits, and leaves the slot empty. -/
theorem unregister_alone {s : Shared τ} {t : τ} (hidle : s.pc t = .idle)
    (htr : s.kernel.tracing = true) (v : Evaluation) :
    ∃ s', (threads τ).exec s [.register t, .verify t v, .unregister t] = some s' ∧
      s'.pc t = .unregistered s.calls v.verdict ∧ s'.frames s.calls = v.frames ∧
      s'.kernel = { s.kernel with slot := none } ∧ s'.returned = s.returned := by
  have hregister : s.step (.register t) =
      some (s.start t { s.kernel with slot := some s.calls }) := by
    rcases registerCallback_tracing htr s.calls true with ⟨-, hreg⟩ | ⟨hno, -⟩
    · rw [Shared.step, hidle, scriptTraceEnter, hreg]
    · cases hno
  have hverify : (s.start t { s.kernel with slot := some s.calls }).step (.verify t v) =
      some ((s.start t { s.kernel with slot := some s.calls }).evaluate t s.calls v) := by
    have hpc : (s.start t { s.kernel with slot := some s.calls }).pc t = .registered s.calls :=
      Function.update_self ..
    rw [Shared.step, hpc]
  have hleave : ((s.start t { s.kernel with slot := some s.calls }).evaluate t s.calls v).step
      (.unregister t) = some (((s.start t { s.kernel with slot := some s.calls }).evaluate t
        s.calls v).leave t s.calls v.verdict) := by
    have hpc : ((s.start t { s.kernel with slot := some s.calls }).evaluate t s.calls v).pc t =
        .verified s.calls v.verdict := Function.update_self ..
    rw [Shared.step, hpc]
  refine ⟨_, Machine.exec_cons_iff.mpr ⟨_, hregister, Machine.exec_cons_iff.mpr
    ⟨_, hverify, Machine.exec_cons_iff.mpr ⟨_, hleave, rfl⟩⟩⟩, Function.update_self .., ?_, rfl, rfl⟩
  have hlist := @collect_self { s.kernel with slot := some s.calls } s.calls rfl
    (Function.update s.frames s.calls []) v.frames
  rw [Function.update_self, List.nil_append] at hlist
  exact hlist

/-- **A call that no other step interrupts is `debugScript`.** -/
theorem debugScript_alone {s : Shared τ} {t : τ} (hidle : s.pc t = .idle)
    (htr : s.kernel.tracing = true) (v : Evaluation) :
    ∃ s₁ s₂, (threads τ).exec s [.register t, .verify t v, .unregister t] = some s₁ ∧
      s₁.step (.finish t) = some s₂ ∧ s₂.kernel = (debugScript s.kernel s.calls v).2 ∧
      s₂.returned = s.returned ++
        match (debugScript s.kernel s.calls v).1 with
        | .ok trace => [(s.calls, trace)]
        | .error _ => [] := by
  obtain ⟨s₁, hexec, hpc, hframes, hkernel, hreturned⟩ := unregister_alone hidle htr v
  rw [debugScript_tracing htr]
  cases hv : v.verdict with
  | ok valid =>
    rw [hv] at hpc
    refine ⟨s₁, s₁.giveBack t s.calls valid, hexec, by rw [Shared.step, hpc], hkernel, ?_⟩
    show s₁.returned ++ [(s.calls, ⟨valid, s₁.frames s.calls⟩)] = _
    rw [hreturned, hframes]
    rfl
  | error e =>
    rw [hv] at hpc
    refine ⟨s₁, s₁.move t .idle, hexec, by rw [Shared.step, hpc], hkernel, ?_⟩
    show s₁.returned = s.returned ++ []
    rw [hreturned, List.append_nil]

/-! ## The invariant of undisturbed runs -/

/-- What a thread in `debug_script` relies on. -/
def PcInv (s : Shared τ) : Pc → Prop
  | .idle => True
  | .registered call => s.frames call = []
  | .verified call verdict => ∀ valid, verdict = .ok valid → s.frames call = s.emitted call
  | .unregistered call verdict => ∀ valid, verdict = .ok valid → s.frames call = s.emitted call

structure Inv (s : Shared τ) : Prop where
  tracing : s.kernel.tracing = true
  owned : Owned s.pc s.calls
  slot : ∀ call, s.kernel.slot = some call → ∃ t, (s.pc t).Inside call
  pcs : ∀ t, PcInv s (s.pc t)
  done : ∀ p ∈ s.returned, p.1 < s.calls ∧ (∀ t, (s.pc t).call? ≠ some p.1) ∧
    p.2.frames = s.emitted p.1

omit [DecidableEq τ] in
/-- A thread is undisturbed as long as the list of its call is, which after an
exception nobody will read. -/
theorem PcInv.transfer {s s' : Shared τ} {p : Pc} (h : PcInv s p)
    (hkeep : ∀ call, p.call? = some call → (∀ e, p ≠ .verified call (.error e)) →
      s'.frames call = s.frames call ∧ s'.emitted call = s.emitted call) : PcInv s' p := by
  cases p with
  | idle => trivial
  | registered call =>
    obtain ⟨hf, -⟩ := hkeep call rfl (fun _ => nofun)
    exact hf.trans h
  | verified call verdict =>
    intro valid hv
    subst hv
    obtain ⟨hf, he⟩ := hkeep call rfl (fun _ => nofun)
    rw [hf, he]
    exact h valid rfl
  | unregistered call verdict =>
    intro valid hv
    obtain ⟨hf, he⟩ := hkeep call rfl (fun _ => nofun)
    rw [hf, he]
    exact h valid hv

omit [DecidableEq τ] in
/-- A harmless delivery changes no list that is still to be read. -/
theorem Harmless.collect_eq {s : Shared τ} (hinv : Inv s) (h : Harmless s) (fs : List Frame)
    {t : τ} {call : Nat} (hcall : (s.pc t).call? = some call)
    (hok : ∀ e, s.pc t ≠ .verified call (.error e)) :
    collect s.kernel s.frames fs call = s.frames call := by
  refine collect_of_ne (fun hslot => ?_) _ _
  obtain ⟨t', e, ht'⟩ := h call hslot
  have heq : t = t' := hinv.owned.own t t' call hcall (by rw [ht']; rfl)
  subst heq
  exact hok e ht'

theorem inv_init : Inv (threads τ).init where
  tracing := rfl
  owned := ⟨nofun, nofun⟩
  slot := nofun
  pcs _ := trivial
  done := nofun

/-- After a move, what is left to show of the threads. -/
theorem pcs_of_move {s s' : Shared τ} {t : τ} {p : Pc} (hinv : Inv s)
    (hpc : s'.pc = Function.update s.pc t p) (hmover : PcInv s' p)
    (hothers : ∀ t' call, t' ≠ t → (s.pc t').call? = some call →
      (∀ e, s.pc t' ≠ .verified call (.error e)) →
      s'.frames call = s.frames call ∧ s'.emitted call = s.emitted call) (t' : τ) :
    PcInv s' (s'.pc t') := by
  rw [hpc]
  by_cases ht : t' = t
  · subst ht
    rwa [Function.update_self]
  · rw [Function.update_of_ne ht]
    exact (hinv.pcs t').transfer fun call hcall hok => hothers t' call ht hcall hok

theorem inv_start {s : Shared τ} (t : τ) (hinv : Inv s) :
    Inv (s.start t { s.kernel with slot := some s.calls }) where
  tracing := hinv.tracing
  owned := hinv.owned.start t rfl
  slot call hslot := by
    have hcall : s.calls = call := Option.some.inj hslot
    exact ⟨t, Or.inl (hcall ▸ Function.update_self ..)⟩
  pcs := pcs_of_move hinv rfl (Function.update_self ..) fun t' call _ hcall _ => by
    have hlt := hinv.owned.started t' call hcall
    exact ⟨Function.update_of_ne (by omega) _ _, rfl⟩
  done p hp := by
    obtain ⟨hlt, hno, heq⟩ := hinv.done p hp
    refine ⟨Nat.lt_succ_of_lt hlt, fun t' hcall => ?_, heq⟩
    rcases call_of_start rfl hcall with ⟨-, hnew⟩ | hold
    · exact absurd hnew (Nat.ne_of_lt hlt)
    · exact hno t' hold

/-- An undisturbed verification fills its own list with its own frames. -/
theorem inv_evaluate {s : Shared τ} {t : τ} {call : Nat} {v : Evaluation} (hinv : Inv s)
    (hpc : s.pc t = .registered call) (hC : Undisturbed s (.verify t v)) :
    Inv (s.evaluate t call v) := by
  have hcall : (s.pc t).call? = some call := by rw [hpc]; rfl
  have hempty : s.frames call = [] := by
    have h := hinv.pcs t
    rw [hpc] at h
    exact h
  have hsame : ∀ c, (Pc.verified call v.verdict).call? = some c → (s.pc t).call? = some c :=
    fun c hc => hcall.trans hc
  refine ⟨hinv.tracing, hinv.owned.move hsame, fun c hslot => ?_,
    pcs_of_move hinv rfl ?_ fun t' c ht hc hok => ?_, fun p hp => ?_⟩
  · refine inside_of_update (fun h => ?_) (hinv.slot c hslot)
    rcases hpc ▸ h with h | ⟨_, h⟩
    · exact Or.inr ⟨v.verdict, by rw [Pc.registered.inj h]⟩
    · cases h
  · -- The mover's own list: empty so far, and if it returns, its frames came to it.
    intro valid hv
    show collect s.kernel s.frames v.frames call = Function.update s.emitted call v.frames call
    rw [Function.update_self]
    rcases hC call hpc with hnil | hslot | ⟨⟨e, he⟩, -⟩
    · rw [hnil, collect_nil, hempty]
    · rw [collect_self hslot, hempty, List.nil_append]
    · exact nomatch hv.symm.trans he
  · -- Another thread's list: it gets nothing.
    have hne : c ≠ call := by
      intro heq
      exact ht (hinv.owned.own t' t c hc (heq ▸ hcall))
    refine ⟨?_, Function.update_of_ne hne _ _⟩
    show collect s.kernel s.frames v.frames c = s.frames c
    rcases hC call hpc with hnil | hslot | ⟨-, hharm⟩
    · rw [hnil, collect_nil]
    · exact collect_of_ne (fun h => hne (Option.some.inj (h.symm.trans hslot))) _ _
    · exact hharm.collect_eq hinv v.frames hc hok
  · -- What has been returned belongs to calls that are over.
    obtain ⟨hlt, hno, heq⟩ := hinv.done p hp
    refine ⟨hlt, fun t' h => hno t' (call_of_update hsame h), ?_⟩
    have hne : p.1 ≠ call := fun h => hno t (h ▸ hcall)
    show p.2.frames = Function.update s.emitted call v.frames p.1
    rw [Function.update_of_ne hne]
    exact heq

theorem inv_leave {s : Shared τ} {t : τ} {call : Nat} {verdict : PyResult Bool} (hinv : Inv s)
    (hpc : s.pc t = .verified call verdict) : Inv (s.leave t call verdict) := by
  have hsame : ∀ c, (Pc.unregistered call verdict).call? = some c → (s.pc t).call? = some c := by
    rw [hpc]
    exact fun _ h => h
  have hmover := hinv.pcs t
  rw [hpc] at hmover
  refine ⟨hinv.tracing, hinv.owned.move hsame, nofun,
    pcs_of_move hinv rfl hmover fun _ _ _ _ _ => ⟨rfl, rfl⟩, fun p hp => ?_⟩
  obtain ⟨hlt, hno, heq⟩ := hinv.done p hp
  exact ⟨hlt, fun t' h => hno t' (call_of_update hsame h), heq⟩

/-- Returning the trace of a call, or passing its exception on, ends the call. -/
theorem inv_finish {s : Shared τ} {t : τ} {call : Nat} {verdict : PyResult Bool} (hinv : Inv s)
    (hpc : s.pc t = .unregistered call verdict) {returned : List (Nat × ScriptTrace)}
    (hret : ∀ p ∈ returned, p.1 = call ∧ p.2.frames = s.emitted call) :
    Inv { s.move t .idle with returned := s.returned ++ returned } where
  tracing := hinv.tracing
  owned := hinv.owned.move nofun
  slot c hslot := by
    refine inside_of_update (fun h => ?_) (hinv.slot c hslot)
    rcases hpc ▸ h with h | ⟨_, h⟩ <;> cases h
  pcs := pcs_of_move hinv rfl trivial fun _ _ _ _ _ => ⟨rfl, rfl⟩
  done p hp := by
    have hcall : (s.pc t).call? = some call := by rw [hpc]; rfl
    have hold : p.1 < s.calls ∧ (∀ t', t' ≠ t → (s.pc t').call? ≠ some p.1) ∧
        p.2.frames = s.emitted p.1 := by
      rcases List.mem_append.mp hp with hp | hp
      · obtain ⟨hlt, hno, heq⟩ := hinv.done p hp
        exact ⟨hlt, fun t' _ => hno t', heq⟩
      · obtain ⟨rfl, heq⟩ := hret p hp
        exact ⟨hinv.owned.started t _ hcall,
          fun t' ht h => ht (hinv.owned.own t' t _ h hcall), heq⟩
    refine ⟨hold.1, fun t' (h : (Function.update s.pc t .idle t').call? = some p.1) => ?_,
      hold.2.2⟩
    by_cases ht : t' = t
    · rw [ht, Function.update_self] at h
      cases h
    · rw [Function.update_of_ne ht] at h
      exact hold.2.1 t' ht h

omit [DecidableEq τ] in
theorem inv_deliver {s : Shared τ} (hinv : Inv s) (f : Frame) (hC : Harmless s) :
    Inv (s.deliver f) where
  tracing := hinv.tracing
  owned := hinv.owned
  slot := hinv.slot
  pcs t := (hinv.pcs t).transfer fun _ hcall hok => ⟨hC.collect_eq hinv [f] hcall hok, rfl⟩
  done := hinv.done

/-- **An undisturbed step keeps the invariant.** -/
theorem inv_step {s s' : Shared τ} {e : Step τ} (hinv : Inv s) (hC : Undisturbed s e)
    (h : s.step e = some s') : Inv s' := by
  cases e with
  | register t =>
    rw [Shared.step] at h
    split at h
    next =>
      rcases registerCallback_tracing hinv.tracing s.calls true with ⟨-, hreg⟩ | ⟨hno, -⟩
      · rw [scriptTraceEnter, hreg] at h
        exact Option.some.inj h ▸ inv_start t hinv
      · cases hno
    next => cases h
  | verify t v =>
    rw [Shared.step] at h
    split at h
    next hpc => exact Option.some.inj h ▸ inv_evaluate hinv hpc hC
    next => cases h
  | unregister t =>
    rw [Shared.step] at h
    split at h
    next hpc => exact Option.some.inj h ▸ inv_leave hinv hpc
    next => cases h
  | finish t =>
    rw [Shared.step] at h
    have hmover := hinv.pcs t
    split at h
    next call valid hpc =>
      rw [hpc] at hmover
      refine Option.some.inj h ▸ inv_finish hinv hpc ?_
      intro p hp
      rw [List.mem_singleton.mp hp]
      exact ⟨rfl, hmover valid rfl⟩
    next hpc =>
      have hnone := @inv_finish _ _ _ _ _ _ hinv hpc [] fun _ hp => absurd hp List.not_mem_nil
      rw [List.append_nil] at hnone
      exact Option.some.inj h ▸ hnone
    next => cases h
  | processBlock =>
    exact Option.some.inj h ▸ ⟨hinv.tracing, hinv.owned, hinv.slot, hinv.pcs, hinv.done⟩
  | processBlockDone =>
    rw [Shared.step] at h
    split at h
    next => exact Option.some.inj h ▸ ⟨hinv.tracing, hinv.owned, hinv.slot, hinv.pcs, hinv.done⟩
    next => cases h
  | frame f =>
    rw [Shared.step] at h
    split at h
    next => exact Option.some.inj h ▸ inv_deliver hinv f hC
    next => cases h

/-! ## A frame gone astray can always reach a result -/

/-- The list of a call that can still return is not what it should be. -/
def Spoilt (s : Shared τ) (t : τ) (call : Nat) : Prop :=
  (s.pc t = .registered call ∧ s.frames call ≠ []) ∨
    ∃ valid, s.pc t = .verified call (.ok valid) ∧ s.frames call ≠ s.emitted call

/-- A call that goes on returns what its list holds by then. -/
theorem verified_returns {s : Shared τ} {t : τ} {call : Nat} {valid : Bool}
    (hpc : s.pc t = .verified call (.ok valid)) (hne : s.frames call ≠ s.emitted call) :
    ∃ es s', (threads τ).Obeys Undisturbed s es ∧ (threads τ).exec s es = some s' ∧
      ¬ OwnFrames s' := by
  have hleave : s.step (.unregister t) = some (s.leave t call (.ok valid)) := by
    rw [Shared.step, hpc]
  have hpc' : (s.leave t call (.ok valid)).pc t = .unregistered call (.ok valid) :=
    Function.update_self ..
  have hback : (s.leave t call (.ok valid)).step (.finish t) =
      some ((s.leave t call (.ok valid)).giveBack t call valid) := by
    rw [Shared.step, hpc']
  refine ⟨[.unregister t, .finish t], _, ?_, Machine.exec_cons_iff.mpr ⟨_, hleave,
    Machine.exec_cons_iff.mpr ⟨_, hback, rfl⟩⟩, fun hown => hne ?_⟩
  · exact fun _ _ => ⟨trivial, fun _ _ => ⟨trivial, trivial⟩⟩
  · exact hown (call, ⟨valid, s.frames call⟩) (List.mem_append_right _ (List.mem_singleton_self _))

theorem spoilt_returns {s : Shared τ} {t : τ} {call : Nat} (h : Spoilt s t call) :
    ∃ es s', (threads τ).Obeys Undisturbed s es ∧ (threads τ).exec s es = some s' ∧
      ¬ OwnFrames s' := by
  rcases h with ⟨hpc, hne⟩ | ⟨valid, hpc, hne⟩
  · -- Let it verify something that emits no frames.
    have hverify : s.step (.verify t ⟨[], .ok true⟩) = some (s.evaluate t call ⟨[], .ok true⟩) := by
      rw [Shared.step, hpc]
    have hne' : (s.evaluate t call ⟨[], .ok true⟩).frames call ≠
        (s.evaluate t call ⟨[], .ok true⟩).emitted call := by
      show collect s.kernel s.frames [] call ≠ Function.update s.emitted call [] call
      rwa [collect_nil, Function.update_self]
    obtain ⟨es, s', hob, hexec, hbad⟩ := verified_returns
      (show (s.evaluate t call ⟨[], .ok true⟩).pc t = _ from Function.update_self ..) hne'
    refine ⟨.verify t ⟨[], .ok true⟩ :: es, s', fun s₁ h₁ => ⟨fun _ _ => Or.inl rfl, ?_⟩,
      Machine.exec_cons_iff.mpr ⟨_, hverify, hexec⟩, hbad⟩
    rw [← Option.some.inj (hverify.symm.trans h₁)]
    exact hob
  · exact verified_returns hpc hne

omit [DecidableEq τ] in
/-- Where a delivery is not harmless, a call is waiting for its frames. -/
theorem waiting_of_not_harmless {s : Shared τ} (hinv : Inv s) (h : ¬ Harmless s) :
    ∃ call t, s.kernel.slot = some call ∧
      (s.pc t = .registered call ∨ ∃ valid, s.pc t = .verified call (.ok valid)) := by
  by_contra hno
  refine h ?_
  intro call hslot
  obtain ⟨t, hpc | ⟨verdict, hpc⟩⟩ := hinv.slot call hslot
  · exact absurd ⟨call, t, hslot, Or.inl hpc⟩ hno
  · cases verdict with
    | ok valid => exact absurd ⟨call, t, hslot, Or.inr ⟨valid, hpc⟩⟩ hno
    | error e => exact ⟨t, e, hpc⟩

omit [DecidableEq τ] in
/-- Foreign frames spoil the list of a waiting call. -/
theorem spoilt_of_waiting {s s' : Shared τ} {t : τ} {call : Nat} {fs : List Frame} (hinv : Inv s)
    (hwait : s.pc t = .registered call ∨ ∃ valid, s.pc t = .verified call (.ok valid))
    (hpc : s'.pc t = s.pc t) (hframes : s'.frames call = s.frames call ++ fs)
    (hemitted : s'.emitted call = s.emitted call) (hfs : fs ≠ []) : Spoilt s' t call := by
  have hold := hinv.pcs t
  unfold Spoilt
  rw [hpc, hframes, hemitted]
  rcases hwait with h | ⟨valid, h⟩
  · exact Or.inl ⟨h, by simp [hfs]⟩
  · rw [h] at hold
    exact Or.inr ⟨valid, h, by simp [hold valid rfl, hfs]⟩

theorem breach_spoils {s s' : Shared τ} {e : Step τ} (hinv : Inv s) (hC : ¬ Undisturbed s e)
    (h : s.step e = some s') : ∃ t call, Spoilt s' t call := by
  cases e with
  | verify t v =>
    rw [Shared.step] at h
    split at h
    next call hpc =>
      obtain rfl := Option.some.inj h
      have hno : ¬ (v.frames = [] ∨ s.kernel.slot = some call ∨
          (∃ e, v.verdict = .error e) ∧ Harmless s) := by
        intro hor
        refine hC ?_
        intro c hc
        rwa [← Pc.registered.inj (hpc.symm.trans hc)]
      obtain ⟨hnil, hslot, hharm⟩ : v.frames ≠ [] ∧ s.kernel.slot ≠ some call ∧
          ¬ ((∃ e, v.verdict = .error e) ∧ Harmless s) := by simpa only [not_or] using hno
      by_cases hh : Harmless s
      · -- Its own frames are lost.
        obtain ⟨valid, hv⟩ : ∃ valid, v.verdict = .ok valid := by
          cases hv : v.verdict with
          | ok valid => exact ⟨valid, rfl⟩
          | error e => exact absurd ⟨⟨e, hv⟩, hh⟩ hharm
        refine ⟨t, call, Or.inr ⟨valid, ?_, ?_⟩⟩
        · show Function.update s.pc t (.verified call v.verdict) t = _
          rw [Function.update_self, hv]
        · have hempty := hinv.pcs t
          rw [hpc] at hempty
          show collect s.kernel s.frames v.frames call ≠
            Function.update s.emitted call v.frames call
          rw [collect_of_ne hslot, Function.update_self, show s.frames call = [] from hempty]
          exact hnil.symm
      · -- They go to another call.
        obtain ⟨other, t', hother, hwait⟩ := waiting_of_not_harmless hinv hh
        have hne : other ≠ call := fun heq => hslot (heq ▸ hother)
        have ht : t' ≠ t := by
          intro heq
          rw [heq, hpc] at hwait
          rcases hwait with hw | ⟨_, hw⟩
          · exact hne (Pc.registered.inj hw).symm
          · cases hw
        exact ⟨t', other, spoilt_of_waiting hinv hwait (Function.update_of_ne ht _ _)
          (collect_self hother _ _) (Function.update_of_ne hne _ _) hnil⟩
    next => cases h
  | frame f =>
    obtain ⟨call, t, hslot, hwait⟩ := waiting_of_not_harmless hinv hC
    rw [Shared.step] at h
    split at h
    next =>
      obtain rfl := Option.some.inj h
      exact ⟨t, call, spoilt_of_waiting hinv hwait rfl (collect_self hslot _ _) rfl
        (List.cons_ne_nil _ _)⟩
    next => cases h
  | _ => exact absurd trivial hC

/-- **Undisturbed runs are safe**: along a run in which frames go nowhere but to the
call whose verification emits them, every returned trace holds its own frames and no
others, in order; after any other step some continuation ends with a wrong trace. -/
theorem debugScript_frames_exact : (threads τ).Exact Undisturbed OwnFrames := by
  refine Machine.exact_of_breach inv_init (fun s hinv p hp => (hinv.done p hp).2.2)
    (fun s e s' hinv hC h => inv_step hinv hC h) fun s e s' hinv hC h => ?_
  obtain ⟨t, call, hspoilt⟩ := breach_spoils hinv hC h
  exact spoilt_returns hspoilt

/-- Thread 1 registers between the registration and the verification of thread 0:
the trace returned to thread 0 lacks the frame its verification emitted. -/
theorem debugScript_race : ∃ s, (threads (Fin 2)).exec (threads (Fin 2)).init
      [.register 0, .register 1, .verify 0 ⟨[⟨.BEGIN, 0, [], 0, 0, true, [], 0⟩], .ok true⟩,
        .unregister 0, .finish 0] = some s ∧
    s.returned = [(0, ⟨true, []⟩)] ∧ s.emitted 0 = [⟨.BEGIN, 0, [], 0, 0, true, [], 0⟩] ∧
    ¬ OwnFrames s := by
  refine ⟨_, rfl, rfl, rfl, ?_⟩
  intro h
  exact nomatch h (0, ⟨true, []⟩) (List.mem_singleton_self _)

end PyBitcoinKernel.Trace
