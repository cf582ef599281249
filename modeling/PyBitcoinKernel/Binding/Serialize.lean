import PyBitcoinKernel.Binding.Python
import PyBitcoinKernel.Script.Instruction

/-!
# Serialisation into a growing buffer

Every `__bytes__` of the bindings hands the kernel `writebuf_cb`, which copies
each chunk behind the last one and doubles the buffer when it is too small. The
kernel may call it any number of times, and go on after a call has failed.

Lengths are `size_t`, so they are 64-bit words here and wrap; a cell of the
buffer that was allocated but never written holds no byte; and what C leaves
undefined is a `Fault`: a copy out of bounds, a loop that never ends, a byte read
that was never written. `Holds` is the invariant between two calls: the buffer
has `cap` cells, and its first `len` cells are the chunks copied so far.
`writebufCb_ok` is one call under the invariant, `runWrites_ok` a whole run.

> `serialize_all_or_nothing`: as long as the chunks fit in `2^63 - 1` bytes no
> call runs into a `Fault`, and `serialize_to_pybytes` returns all chunks in order
> if no write failed and the kernel reports success, and raises otherwise.
-/

namespace PyBitcoinKernel.Binding

open PyBitcoinKernel.Script (Bytes)

/-! ## The buffer -/

/-- A C `size_t`. -/
abbrev SizeT := BitVec 64

/-- What C leaves undefined, and a loop that never ends. -/
inductive Fault where
  | outOfBounds
  | uninitialised
  | diverges
  deriving DecidableEq, Repr

/-- `WriteBuf`. The cells `buf` points to; `[]` for `NULL`. -/
structure WriteBuf where
  buf : List (Option UInt8)
  len : SizeT
  cap : SizeT
  oom : Bool
  deriving DecidableEq, Repr

/-- `WriteBuf wb = {0}`. -/
def WriteBuf.zero : WriteBuf := ⟨[], 0, 0, false⟩

/-- `while (new_cap < want) new_cap *= 2`, for the rounds it is given. -/
def growLoop : Nat → SizeT → SizeT → Option SizeT
  | 0, _, _ => none
  | rounds + 1, newCap, want =>
    if newCap < want then growLoop rounds (newCap * 2) want else some newCap

/-- A `realloc` that succeeds: what was there stays, as far as there is room. -/
def realloc (buf : List (Option UInt8)) (newCap : SizeT) : List (Option UInt8) :=
  buf.take newCap.toNat ++ List.replicate (newCap.toNat - buf.length) none

/-- `memcpy(buf + i, bytes, size)`; a copy of no bytes touches no cell, also behind
`NULL`. -/
def memcpy (buf : List (Option UInt8)) (i : Nat) (bytes : Bytes) :
    Except Fault (List (Option UInt8)) :=
  if i + bytes.length ≤ buf.length then
    .ok (buf.take i ++ bytes.map some ++ buf.drop (i + bytes.length))
  else .error .outOfBounds

/-- The `if` of `writebuf_cb`: room for `want` bytes, or `none` where `realloc`
fails. After 64 doublings the capacity is `0` and stays there, so a loop that has
not ended by then never does. -/
def WriteBuf.reserve (wb : WriteBuf) (want : SizeT) (reallocOk : Bool) :
    Except Fault (Option WriteBuf) :=
  if wb.cap < want then
    match growLoop 65 (if wb.cap = 0 then 256 else wb.cap) want with
    | none => .error .diverges
    | some newCap =>
      if reallocOk then .ok (some { wb with buf := realloc wb.buf newCap, cap := newCap })
      else .ok none
  else .ok (some wb)

/-- `writebuf_cb`: the buffer and the return value. -/
def writebufCb (wb : WriteBuf) (bytes : Bytes) (reallocOk : Bool) :
    Except Fault (WriteBuf × Int) :=
  let size := BitVec.ofNat 64 bytes.length
  match wb.reserve (wb.len + size) reallocOk with
  | .error fault => .error fault
  | .ok none => .ok ({ wb with oom := true }, -1)
  | .ok (some wb) =>
    match memcpy wb.buf wb.len.toNat bytes with
    | .error fault => .error fault
    | .ok buf => .ok ({ wb with buf := buf, len := wb.len + size }, 0)

/-- The calls of one serialisation, each with the outcome `realloc` would have in
it, and what they returned. -/
def runWrites : WriteBuf → List (Bytes × Bool) → Except Fault (WriteBuf × List Int)
  | wb, [] => .ok (wb, [])
  | wb, (bytes, reallocOk) :: rest => do
    let (wb, ret) ← writebufCb wb bytes reallocOk
    let (wb, rets) ← runWrites wb rest
    return (wb, ret :: rets)

/-- `PyBytes_FromStringAndSize(buf, len)`; `alloc` is the outcome of allocating the
object. -/
def pyBytesFromStringAndSize (buf : List (Option UInt8)) (len : Int) (alloc : PyResult Unit) :
    Except Fault (PyResult Bytes) :=
  if len < 0 then .ok (raise .systemError "Negative size passed to PyBytes_FromStringAndSize")
  else match alloc with
    | .error e => .ok (.error e)
    | .ok () =>
      if buf.length < len.toNat then .error .outOfBounds
      else match (buf.take len.toNat).mapM id with
        | some bytes => .ok (.ok bytes)
        | none => .error .uninitialised

/-- `serialize_to_pybytes`, for a kernel function that makes these calls and
returns `rc`. -/
def serializeToPybytes (writes : List (Bytes × Bool)) (rc : Int) (alloc : PyResult Unit) :
    Except Fault (PyResult Bytes) :=
  match runWrites .zero writes with
  | .error fault => .error fault
  | .ok (wb, _) =>
    if rc ≠ 0 ∨ wb.oom then
      if wb.oom then .ok (raise .memoryError "") else .ok (raise .kernelError "serialization failed")
    else pyBytesFromStringAndSize wb.buf wb.len.toInt alloc

/-! ## Doubling -/

/-- **The loop ends without wrapping**: below `2^63` there is room for one more
doubling. -/
theorem growLoop_ok : ∀ (rounds : Nat) (c want : SizeT), 0 < c.toNat → want.toNat < 2 ^ 63 →
    want.toNat ≤ c.toNat * 2 ^ rounds →
    ∃ k newCap, growLoop (rounds + 1) c want = some newCap ∧ newCap.toNat = c.toNat * 2 ^ k ∧
      want.toNat ≤ newCap.toNat := by
  intro rounds
  induction rounds with
  | zero =>
    intro c want hc _ hle
    have hge : ¬ c < want := by
      rw [BitVec.lt_def]
      omega
    exact ⟨0, c, by rw [growLoop, if_neg hge], by omega, by omega⟩
  | succ rounds ih =>
    intro c want hc hwant hle
    by_cases hlt : c < want
    · have hdouble : (c * 2).toNat = c.toNat * 2 := by
        rw [BitVec.lt_def] at hlt
        rw [BitVec.toNat_mul]
        exact Nat.mod_eq_of_lt (by simp; omega)
      obtain ⟨k, newCap, hloop, hcap, hfit⟩ := ih (c * 2) want (by omega) hwant
        (by rw [hdouble, Nat.mul_assoc, ← Nat.pow_succ']; exact hle)
      refine ⟨k + 1, newCap, ?_, ?_, hfit⟩
      · rw [growLoop, if_pos hlt]
        exact hloop
      · rw [hcap, hdouble, Nat.mul_assoc, ← Nat.pow_succ']
    · refine ⟨0, c, by rw [growLoop, if_neg hlt], by omega, ?_⟩
      rw [BitVec.lt_def] at hlt
      omega

/-! ## One call -/

/-- Between two calls: the buffer has `cap` cells, and `done` stands in the first
`len` of them. -/
structure Holds (wb : WriteBuf) (done : Bytes) : Prop where
  cells : wb.buf.length = wb.cap.toNat
  len : wb.len.toNat = done.length
  fits : wb.len ≤ wb.cap
  written : wb.buf.take wb.len.toNat = done.map some

theorem Holds.init : Holds .zero [] :=
  ⟨rfl, rfl, by decide, rfl⟩

/-- The capacity the loop starts from. -/
def WriteBuf.startCap (wb : WriteBuf) : SizeT := if wb.cap = 0 then 256 else wb.cap

/-- What one call does: no sum and no doubling wraps, the chunk is copied into the
buffer or, where `realloc` fails, nothing but `oom` is changed. -/
structure WriteOk (wb : WriteBuf) (bytes : Bytes) (reallocOk : Bool) (wb' : WriteBuf)
    (ret : Int) : Prop where
  noWrap : (wb.len + BitVec.ofNat 64 bytes.length).toNat = wb.len.toNat + bytes.length
  doubles : wb.cap < wb.len + BitVec.ofNat 64 bytes.length →
    ∃ k newCap, growLoop 65 wb.startCap (wb.len + BitVec.ofNat 64 bytes.length) = some newCap ∧
      newCap.toNat = wb.startCap.toNat * 2 ^ k ∧ wb.len.toNat + bytes.length ≤ newCap.toNat
  fits : wb'.len ≤ wb'.cap
  ret_eq : ret = if wb.cap.toNat < wb.len.toNat + bytes.length ∧ reallocOk = false then -1 else 0
  inside : ret = 0 → wb.len.toNat + bytes.length ≤ wb'.buf.length
  failed : ret ≠ 0 → wb' = { wb with oom := true }

theorem realloc_length {buf : List (Option UInt8)} {newCap : SizeT}
    (h : buf.length ≤ newCap.toNat) : (realloc buf newCap).length = newCap.toNat := by
  rw [realloc, List.length_append, List.length_take, List.length_replicate]
  omega

theorem realloc_take {buf : List (Option UInt8)} {newCap : SizeT} {n : Nat}
    (h : buf.length ≤ newCap.toNat) (hn : n ≤ buf.length) :
    (realloc buf newCap).take n = buf.take n := by
  rw [realloc, List.take_of_length_le h, List.take_append_of_le_length hn]

/-- A copy in bounds: the cells in front of it stay, and it ends up behind them. -/
theorem memcpy_ok {buf : List (Option UInt8)} {i : Nat} {bytes : Bytes}
    (h : i + bytes.length ≤ buf.length) :
    ∃ buf', memcpy buf i bytes = .ok buf' ∧ buf'.length = buf.length ∧
      buf'.take (i + bytes.length) = buf.take i ++ bytes.map some := by
  refine ⟨_, if_pos h, ?_, ?_⟩
  · rw [List.length_append, List.length_append, List.length_take, List.length_map,
      List.length_drop]
    omega
  · refine List.take_left' ?_
    rw [List.length_append, List.length_take, List.length_map]
    omega

/-- There is room, or the loop finds how much to ask `realloc` for. -/
theorem reserve_cases (wb : WriteBuf) {want : SizeT} (hwant : want.toNat < 2 ^ 63)
    (reallocOk : Bool) :
    (¬ wb.cap < want ∧ wb.reserve want reallocOk = .ok (some wb)) ∨
    ∃ k newCap, wb.cap < want ∧ growLoop 65 wb.startCap want = some newCap ∧
      newCap.toNat = wb.startCap.toNat * 2 ^ k ∧ want.toNat ≤ newCap.toNat ∧
      wb.reserve want reallocOk = .ok (if reallocOk then
        some { wb with buf := realloc wb.buf newCap, cap := newCap } else none) := by
  by_cases hcap : wb.cap < want
  · right
    have hpos : 0 < wb.startCap.toNat := by
      unfold WriteBuf.startCap
      split
      next => decide
      next hne => exact Nat.pos_of_ne_zero fun hno => hne (BitVec.eq_of_toNat_eq hno)
    obtain ⟨k, newCap, hloop, hdouble, hfit⟩ := growLoop_ok 64 wb.startCap want hpos hwant
      (by have := Nat.mul_le_mul_right (2 ^ 64) hpos; omega)
    refine ⟨k, newCap, hcap, hloop, hdouble, hfit, ?_⟩
    unfold WriteBuf.startCap at hloop
    rw [WriteBuf.reserve, if_pos hcap, hloop]
    cases reallocOk <;> rfl
  · exact Or.inl ⟨hcap, if_neg hcap⟩

/-- What the copy of a chunk makes of a buffer with room for it. -/
theorem Holds.copy {wb : WriteBuf} {done bytes : Bytes} (h : Holds wb done)
    (hnoWrap : (wb.len + BitVec.ofNat 64 bytes.length).toNat = wb.len.toNat + bytes.length)
    (hroom : wb.len.toNat + bytes.length ≤ wb.cap.toNat) :
    ∃ buf, memcpy wb.buf wb.len.toNat bytes = .ok buf ∧ buf.length = wb.buf.length ∧
      Holds { wb with buf := buf, len := wb.len + BitVec.ofNat 64 bytes.length }
        (done ++ bytes) := by
  obtain ⟨buf, hcopy, hlength, htake⟩ := memcpy_ok (h.cells.symm ▸ hroom)
  refine ⟨buf, hcopy, hlength, ?_, ?_, ?_, ?_⟩
  · exact hlength.trans h.cells
  · show (wb.len + BitVec.ofNat 64 bytes.length).toNat = (done ++ bytes).length
    rw [hnoWrap, h.len, List.length_append]
  · show wb.len + BitVec.ofNat 64 bytes.length ≤ wb.cap
    rw [BitVec.le_def, hnoWrap]
    exact hroom
  · show buf.take (wb.len + BitVec.ofNat 64 bytes.length).toNat = (done ++ bytes).map some
    rw [hnoWrap, htake, h.written, List.map_append]

/-- A bigger buffer still holds what was written. -/
theorem Holds.grow {wb : WriteBuf} {done : Bytes} (h : Holds wb done) (newCap : SizeT)
    (hcap : wb.cap.toNat ≤ newCap.toNat) :
    Holds { wb with buf := realloc wb.buf newCap, cap := newCap } done := by
  have hfits := h.fits
  rw [BitVec.le_def] at hfits
  refine ⟨realloc_length (h.cells.symm ▸ hcap), h.len, BitVec.le_def.mpr (hfits.trans hcap), ?_⟩
  show (realloc wb.buf newCap).take wb.len.toNat = done.map some
  rw [realloc_take (h.cells.symm ▸ hcap) (h.cells.symm ▸ hfits), h.written]

/-- **One call**: it runs into no fault, and what the buffer holds grows by the chunk
or, if the call fails, stays. -/
theorem Holds.writebufCb {wb : WriteBuf} {done : Bytes} (h : Holds wb done) (bytes : Bytes)
    (hsize : done.length + bytes.length < 2 ^ 63) (reallocOk : Bool) :
    ∃ wb' ret, writebufCb wb bytes reallocOk = .ok (wb', ret) ∧
      WriteOk wb bytes reallocOk wb' ret ∧
      (ret = 0 ∧ wb'.oom = wb.oom ∧ Holds wb' (done ++ bytes) ∨
        ret ≠ 0 ∧ wb'.oom = true ∧ Holds wb' done) := by
  have hnoWrap : (wb.len + BitVec.ofNat 64 bytes.length).toNat = wb.len.toNat + bytes.length := by
    rw [BitVec.toNat_add, BitVec.toNat_ofNat, h.len]
    omega
  have hwant : (wb.len + BitVec.ofNat 64 bytes.length).toNat < 2 ^ 63 := by
    rw [hnoWrap, h.len]
    exact hsize
  have hlt : wb.cap < wb.len + BitVec.ofNat 64 bytes.length ↔
      wb.cap.toNat < wb.len.toNat + bytes.length := by
    rw [BitVec.lt_def, hnoWrap]
  unfold Binding.writebufCb
  dsimp only
  rcases reserve_cases wb hwant reallocOk with
    ⟨hcap, hres⟩ | ⟨k, newCap, hcap, hloop, hdouble, hfit, hres⟩
  · -- There is room.
    have hroom : wb.len.toNat + bytes.length ≤ wb.cap.toNat := Nat.le_of_not_lt (hlt.not.mp hcap)
    obtain ⟨buf, hcopy, hlength, hholds⟩ := h.copy hnoWrap hroom
    rw [hres]
    dsimp only
    rw [hcopy]
    refine ⟨_, _, rfl, ⟨hnoWrap, fun hno => absurd hno hcap, hholds.fits, ?_, ?_, ?_⟩,
      Or.inl ⟨rfl, rfl, hholds⟩⟩
    · rw [if_neg (fun hno => hcap (hlt.mpr hno.1))]
    · intro _
      exact hroom.trans_eq (h.cells.symm.trans hlength.symm)
    · exact fun hno => absurd rfl hno
  · have hdoubles : ∃ k newCap,
        growLoop 65 wb.startCap (wb.len + BitVec.ofNat 64 bytes.length) = some newCap ∧
        newCap.toNat = wb.startCap.toNat * 2 ^ k ∧ wb.len.toNat + bytes.length ≤ newCap.toNat :=
      ⟨k, newCap, hloop, hdouble, hnoWrap ▸ hfit⟩
    rw [hres]
    cases reallocOk with
    | false =>
      -- `realloc` fails: only the flag is set.
      refine ⟨_, _, rfl, ⟨hnoWrap, fun _ => hdoubles, h.fits, ?_, ?_, ?_⟩,
        Or.inr ⟨by decide, rfl, h.cells, h.len, h.fits, h.written⟩⟩
      · rw [if_pos ⟨hlt.mp hcap, rfl⟩]
      · exact fun hno => absurd hno (by decide)
      · exact fun _ => rfl
    | true =>
      have hcap' := hcap
      rw [BitVec.lt_def] at hcap'
      have hbig := h.grow newCap (by omega)
      obtain ⟨buf, hcopy, hlength, hholds⟩ := hbig.copy hnoWrap (hnoWrap ▸ hfit)
      dsimp only [if_true] at hcopy ⊢
      rw [if_pos rfl]
      dsimp only
      rw [hcopy]
      refine ⟨_, _, rfl, ⟨hnoWrap, fun _ => hdoubles, hholds.fits, ?_, ?_, ?_⟩,
        Or.inl ⟨rfl, rfl, hholds⟩⟩
      · rw [if_neg (fun hno => absurd hno.2 (by decide))]
      · intro _
        exact (hnoWrap ▸ hfit).trans_eq (hbig.cells.symm.trans hlength.symm)
      · exact fun hno => absurd rfl hno

/-! ## A whole serialisation -/

/-- The bytes the kernel writes, whether or not the writes succeed. -/
def totalSize (writes : List (Bytes × Bool)) : Nat := (writes.map fun w => w.1.length).sum

/-- **A run of calls**: no fault, and if none of them failed the buffer holds all the
chunks. -/
theorem Holds.runWrites {wb : WriteBuf} {done : Bytes} (h : Holds wb done)
    (writes : List (Bytes × Bool)) (hsize : done.length + totalSize writes < 2 ^ 63) :
    ∃ wb' rets copied, runWrites wb writes = .ok (wb', rets) ∧ Holds wb' (done ++ copied) ∧
      copied.length ≤ totalSize writes ∧
      (wb'.oom = true ↔ wb.oom = true ∨ ∃ r ∈ rets, r ≠ 0) ∧
      ((∀ r ∈ rets, r = 0) → copied = (writes.map (·.1)).flatten) := by
  induction writes generalizing wb done with
  | nil =>
    refine ⟨wb, [], [], rfl, by rwa [List.append_nil], Nat.le_refl 0, ?_, fun _ => rfl⟩
    simp
  | cons w writes ih =>
    obtain ⟨bytes, reallocOk⟩ := w
    have htotal : totalSize ((bytes, reallocOk) :: writes) = bytes.length + totalSize writes := by
      rw [totalSize, List.map_cons, List.sum_cons, totalSize]
    rw [htotal] at hsize ⊢
    obtain ⟨wb₁, ret, hcall, -, hstep⟩ := h.writebufCb bytes (by omega) reallocOk
    rcases hstep with ⟨hret, hoom, hholds⟩ | ⟨hret, hoom, hholds⟩
    · obtain ⟨wb', rets, copied, hrun, hholds', hlen, hoom', hall⟩ :=
        ih hholds (by rw [List.length_append]; omega)
      refine ⟨wb', ret :: rets, bytes ++ copied, ?_, ?_, ?_, ?_, ?_⟩
      · rw [Binding.runWrites, hcall]
        show (Except.bind (Binding.runWrites wb₁ writes) _) = _
        rw [hrun]
        rfl
      · rwa [← List.append_assoc]
      · rw [List.length_append]
        omega
      · rw [hoom', hoom]
        simp [hret]
      · intro hzero
        rw [hall fun r hr => hzero r (List.mem_cons_of_mem _ hr), List.map_cons, List.flatten_cons]
    · obtain ⟨wb', rets, copied, hrun, hholds', hlen, hoom', hall⟩ := ih hholds (by omega)
      refine ⟨wb', ret :: rets, copied, ?_, hholds', by omega, ?_, ?_⟩
      · rw [Binding.runWrites, hcall]
        show (Except.bind (Binding.runWrites wb₁ writes) _) = _
        rw [hrun]
        rfl
      · rw [hoom', hoom]
        simp [hret]
      · intro hzero
        exact absurd (hzero ret (List.mem_cons_self ..)) hret

theorem mapM_id_map_some (l : Bytes) : (l.map some).mapM id = some l := by
  induction l with
  | nil => rfl
  | cons x l ih => rw [List.map_cons, List.mapM_cons, ih]; rfl

/-- The bytes object of what a buffer holds. -/
theorem Holds.pyBytes {wb : WriteBuf} {done : Bytes} (h : Holds wb done)
    (hsize : done.length < 2 ^ 63) :
    pyBytesFromStringAndSize wb.buf wb.len.toInt (.ok ()) = .ok (.ok done) := by
  have hint : wb.len.toInt = done.length := by
    rw [BitVec.toInt_eq_toNat_of_lt (by rw [h.len]; omega), h.len]
  have hfits := h.fits
  rw [BitVec.le_def, h.len, ← h.cells] at hfits
  have hwritten := h.written
  rw [h.len] at hwritten
  unfold pyBytesFromStringAndSize
  rw [hint, if_neg (by omega)]
  dsimp only
  rw [Int.toNat_natCast, if_neg (by omega), hwritten, mapM_id_map_some]

/-- **Serialisation is all or nothing.** -/
theorem serialize_all_or_nothing (writes : List (Bytes × Bool)) (rc : Int)
    (hsize : totalSize writes ≤ 2 ^ 63 - 1) :
    (∀ done bytes reallocOk rest, writes = done ++ (bytes, reallocOk) :: rest →
      ∃ wb rets wb' ret, runWrites .zero done = .ok (wb, rets) ∧
        writebufCb wb bytes reallocOk = .ok (wb', ret) ∧ WriteOk wb bytes reallocOk wb' ret) ∧
    ∃ wb rets, runWrites .zero writes = .ok (wb, rets) ∧
      if (∀ r ∈ rets, r = 0) ∧ rc = 0 then
        serializeToPybytes writes rc (.ok ()) = .ok (.ok (writes.map (·.1)).flatten)
      else ∃ e, serializeToPybytes writes rc (.ok ()) = .ok (.error e) := by
  constructor
  · intro done bytes reallocOk rest hsplit
    have htotal : totalSize writes = totalSize done + (bytes.length + totalSize rest) := by
      rw [hsplit, totalSize, List.map_append, List.sum_append, List.map_cons, List.sum_cons]
      rfl
    obtain ⟨wb, rets, copied, hrun, hholds, hlen, -, -⟩ :=
      Holds.init.runWrites done (by rw [List.length_nil]; omega)
    rw [List.nil_append] at hholds
    obtain ⟨wb', ret, hcall, hok, -⟩ := hholds.writebufCb bytes (by omega) reallocOk
    exact ⟨wb, rets, wb', ret, hrun, hcall, hok⟩
  · obtain ⟨wb, rets, copied, hrun, hholds, hlen, hoom, hall⟩ :=
      Holds.init.runWrites writes (by rw [List.length_nil]; omega)
    rw [List.nil_append] at hholds
    refine ⟨wb, rets, hrun, ?_⟩
    unfold serializeToPybytes
    rw [hrun]
    dsimp only
    by_cases hzero : ∀ r ∈ rets, r = 0
    · have hno : wb.oom = false := by
        rw [Bool.eq_false_iff, ne_eq, hoom]
        simpa [WriteBuf.zero] using hzero
      by_cases hrc : rc = 0
      · rw [if_pos ⟨hzero, hrc⟩, if_neg (by simp [hrc, hno]), hholds.pyBytes (by omega),
          hall hzero]
      · rw [if_neg (fun hyes => hrc hyes.2), if_pos (Or.inl hrc), if_neg (by simp [hno])]
        exact ⟨_, rfl⟩
    · have hyes : wb.oom = true := by
        rw [hoom]
        right
        simpa using hzero
      rw [if_neg (fun hno => hzero hno.1), if_pos (Or.inr hyes), if_pos hyes]
      exact ⟨_, rfl⟩

/-- A write that fails, and one after it that does not. -/
theorem serialize_all_or_nothing_gap :
    let writes : List (Bytes × Bool) := [([0x01, 0x02], false), ([], true), ([0x03], true)]
    (∀ done bytes reallocOk rest, writes = done ++ (bytes, reallocOk) :: rest →
      ∃ wb rets wb' ret, runWrites .zero done = .ok (wb, rets) ∧
        writebufCb wb bytes reallocOk = .ok (wb', ret) ∧ WriteOk wb bytes reallocOk wb' ret) ∧
    ∃ wb rets, runWrites .zero writes = .ok (wb, rets) ∧
      if (∀ r ∈ rets, r = 0) ∧ (0 : Int) = 0 then
        serializeToPybytes writes 0 (.ok ()) = .ok (.ok (writes.map (·.1)).flatten)
      else ∃ e, serializeToPybytes writes 0 (.ok ()) = .ok (.error e) := by
  intro writes
  exact serialize_all_or_nothing writes 0 (by decide)

end PyBitcoinKernel.Binding
