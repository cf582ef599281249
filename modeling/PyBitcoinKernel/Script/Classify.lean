import PyBitcoinKernel.Script.Disassemble

/-!
# `classify_script` and what the bytes decode to

The debugger's `classify_script` is a chain of byte patterns, tried in order. It
never decodes: each pattern looks at the length, at some fixed offsets and at the
last bytes. What a class means is said by the disassembler and by the definition
of witness programs, and the two views are compared here.

* `fixed_shapes_iff`: the classes with a fixed shape are what the disassembler
  reads as that shape, pushes taken to be direct.
* `witness_recognised_iff`: witness programs are recognised unless the `multisig`
  pattern, which is tried before the generic one and looks at the last two bytes
  only, matches theirs.
* `multisig_shape`: what the `multisig` pattern does promise.
-/

namespace PyBitcoinKernel.Script

/-! ## The chain -/

/-- The output types `classify_script` tells apart. -/
inductive ScriptType where
  | unknown
  | opReturn
  | p2pkh
  | p2sh
  | p2wpkh
  | p2wsh
  | p2tr
  | p2pk
  | multisig
  | witness (version : Nat)
  deriving DecidableEq, Repr

/-- The string `classify_script` returns. -/
def ScriptType.label : ScriptType → String
  | .unknown => ""
  | .opReturn => "OP_RETURN"
  | .p2pkh => "P2PKH"
  | .p2sh => "P2SH"
  | .p2wpkh => "P2WPKH"
  | .p2wsh => "P2WSH"
  | .p2tr => "P2TR"
  | .p2pk => "P2PK"
  | .multisig => "multisig"
  | .witness version => "witness v" ++ toString version ++ " program"

/-- Python's `b[i]`; the chain reads no byte that is not there. -/
def byteAt (b : Bytes) (i : Nat) : Nat := (b.getD i 0).toNat

/-- The `if` chain of `classify_script`. -/
def scriptType (b : Bytes) : ScriptType :=
  let n := b.length
  if n = 0 then .unknown
  else if byteAt b 0 = 0x6A then .opReturn
  else if n = 25 ∧ slice b 0 3 = [0x76, 0xA9, 0x14] ∧ slice b 23 25 = [0x88, 0xAC] then .p2pkh
  else if n = 23 ∧ slice b 0 2 = [0xA9, 0x14] ∧ byteAt b 22 = 0x87 then .p2sh
  else if n = 22 ∧ slice b 0 2 = [0x00, 0x14] then .p2wpkh
  else if n = 34 ∧ slice b 0 2 = [0x00, 0x20] then .p2wsh
  else if n = 34 ∧ slice b 0 2 = [0x51, 0x20] then .p2tr
  else if (n = 35 ∧ byteAt b 0 = 0x21 ∧ byteAt b 34 = 0xAC) ∨
      (n = 67 ∧ byteAt b 0 = 0x41 ∧ byteAt b 66 = 0xAC) then .p2pk
  else if n ≥ 4 ∧ 0x51 ≤ byteAt b 0 ∧ byteAt b 0 ≤ 0x60 ∧
      0x51 ≤ byteAt b (n - 2) ∧ byteAt b (n - 2) ≤ 0x60 ∧ byteAt b (n - 1) = 0xAE then .multisig
  else if n ≥ 4 ∧ n = byteAt b 1 + 2 ∧
      (byteAt b 0 = 0x00 ∨ 0x51 ≤ byteAt b 0 ∧ byteAt b 0 ≤ 0x60) ∧
      0x02 ≤ byteAt b 1 ∧ byteAt b 1 ≤ 0x28 then
    .witness (if byteAt b 0 = 0x00 then 0 else byteAt b 0 - 0x50)
  else .unknown

/-- `classify_script` of a `bytes` script. -/
def classifyScript (b : Bytes) : String := (scriptType b).label

/-! ## Labels -/

/-- Only the generic witness label begins with a `w`. -/
private theorem label_head (t : ScriptType) :
    t.label.toList.head? = some 'w' ↔ ∃ v, t = .witness v := by
  cases t with
  | witness v =>
    refine iff_of_true ?_ ⟨v, rfl⟩
    rw [ScriptType.label, String.toList_append, String.toList_append]
    rfl
  | _ =>
    refine iff_of_false (by decide) ?_
    intro h
    obtain ⟨v, hv⟩ := h
    cases hv

/-- **Labels are unambiguous.** -/
theorem label_inj {s t : ScriptType} (h : s.label = t.label) : s = t := by
  have hhead : (∃ v, s = .witness v) ↔ ∃ v, t = .witness v := by
    rw [← label_head, ← label_head, h]
  cases s with
  | witness v =>
    obtain ⟨w, rfl⟩ := hhead.mp ⟨v, rfl⟩
    rw [ScriptType.label, ScriptType.label, String.append_left_inj, String.append_right_inj] at h
    rw [toString_nat_inj h]
  | _ =>
    cases t with
    | witness w =>
      obtain ⟨v, hv⟩ := hhead.mpr ⟨w, rfl⟩
      cases hv
    | _ => first | rfl | exact absurd h (by decide)

/-- A label is one line. -/
theorem free_classifyScript (b : Bytes) : Delimited.Free '\n' (classifyScript b) := by
  unfold classifyScript
  cases scriptType b with
  | witness v =>
    refine Delimited.free_append.mpr ⟨Delimited.free_append.mpr ⟨?_, ?_⟩, ?_⟩
    · exact Delimited.free_newline (by decide +kernel)
    · exact Delimited.free_toString (by decide) v
    · exact Delimited.free_newline (by decide +kernel)
  | _ => exact Delimited.free_newline (by decide +kernel)

theorem classifyScript_eq_iff {b : Bytes} {t : ScriptType} :
    classifyScript b = t.label ↔ scriptType b = t :=
  ⟨label_inj, congrArg ScriptType.label⟩

/-! ## Patterns as bytes -/

theorem slice_zero_two {b : Bytes} {x y : UInt8} (h : 2 ≤ b.length) :
    slice b 0 2 = [x, y] ↔ byteAt b 0 = x.toNat ∧ byteAt b 1 = y.toNat := by
  match b, h with
  | a :: c :: t, _ => simp [slice, byteAt, UInt8.toNat_inj]

theorem slice_zero_three {b : Bytes} {x y z : UInt8} (h : 3 ≤ b.length) :
    slice b 0 3 = [x, y, z] ↔
      byteAt b 0 = x.toNat ∧ byteAt b 1 = y.toNat ∧ byteAt b 2 = z.toNat := by
  match b, h with
  | a :: c :: d :: t, _ => simp [slice, byteAt, UInt8.toNat_inj]

/-- The last byte, as a suffix. -/
theorem drop_eq_singleton_iff {b : Bytes} {i : Nat} {x : UInt8} (h : b.length = i + 1) :
    b.drop i = [x] ↔ byteAt b i = x.toNat := by
  have hlt : i < b.length := by omega
  rw [List.drop_eq_getElem_cons hlt, List.drop_eq_nil_of_le (by omega), List.cons.injEq,
    byteAt, List.getD_eq_getElem?_getD, List.getElem?_eq_getElem hlt, Option.getD_some,
    UInt8.toNat_inj]
  exact and_iff_left rfl

/-- Fixed bytes around `k` arbitrary ones. -/
theorem template_iff {b pre post : Bytes} {k : Nat} :
    (∃ d, d.length = k ∧ b = pre ++ d ++ post) ↔
      b.length = pre.length + k + post.length ∧ b.take pre.length = pre ∧
        b.drop (pre.length + k) = post := by
  constructor
  · intro h
    obtain ⟨d, rfl, rfl⟩ := h
    refine ⟨by rw [List.length_append, List.length_append], by simp, ?_⟩
    rw [← List.length_append]
    exact List.drop_left
  · intro h
    obtain ⟨hlen, hpre, hpost⟩ := h
    refine ⟨(b.drop pre.length).take k, ?_, ?_⟩
    · rw [List.length_take, List.length_drop]
      omega
    · rw [← hpost, ← List.drop_drop, List.append_assoc, List.take_append_drop]
      conv => lhs; rw [← List.take_append_drop pre.length b, hpre]

/-! ## Fixed shapes -/

/-- Rows without their positions. -/
def rows (l : List (String × Bytes)) : List Entry := l.zipIdx.map fun r => ⟨r.2, r.1.1, r.1.2⟩

/-- An opcode that pushes nothing the script has to spell out. -/
def IsPlain (op : UInt8) : Prop := ¬ IsDirect op ∧ lenField? op = none

instance (op : UInt8) : Decidable (IsPlain op) := inferInstanceAs (Decidable (_ ∧ _))

theorem isPlain_of_all {ops : Bytes} (h : ops.all (IsPlain ·) = true) : ∀ op ∈ ops, IsPlain op :=
  fun op hop => of_decide_eq_true (List.all_eq_true.mp h op hop)

theorem rows_cons (r : String × Bytes) (l : List (String × Bytes)) :
    rows (r :: l) = ⟨0, r.1, r.2⟩ :: (rows l).map (Entry.shift 1) := by
  unfold rows
  rw [List.zipIdx_cons', List.map_cons, List.map_map, List.map_map]
  rfl

theorem entries_shift (is : List Instr) (pos k : Nat) :
    entries (pos + k) is = (entries pos is).map (Entry.shift k) := by
  induction is generalizing pos with
  | nil => rfl
  | cons i is ih =>
    rw [entries, entries, List.map_cons, Nat.add_right_comm, ih (pos + 1)]
    rfl

theorem entries_eq_rows (is : List Instr) :
    entries 0 is = rows (is.map fun i => (opcodeName i.opcode.toNat, i.payload)) := by
  induction is with
  | nil => rfl
  | cons i is ih =>
    rw [List.map_cons, rows_cons, ← ih, entries, entries_shift]
    rfl

/-- Plain opcodes around one direct push. -/
def template (pre : Bytes) (d : Bytes) (post : Bytes) : List (String × Bytes) :=
  pre.map (fun op => (opcodeName op.toNat, [])) ++
    (opcodeName d.length, d) :: post.map fun op => (opcodeName op.toNat, [])

/-- Plain opcodes are instructions of their own. -/
theorem exists_plain_instrs (ops : Bytes) (h : ∀ op ∈ ops, IsPlain op) :
    ∃ is : List Instr, (∀ i ∈ is, lenField? i.opcode = none) ∧ encodeScript is = ops ∧
      is.map (fun i => (opcodeName i.opcode.toNat, i.payload)) =
        ops.map fun op => (opcodeName op.toNat, []) := by
  induction ops with
  | nil => exact ⟨[], nofun, rfl, rfl⟩
  | cons op ops ih =>
    obtain ⟨hdirect, hlen⟩ := h op (List.mem_cons_self ..)
    obtain ⟨is, his, henc, hrows⟩ := ih fun op hop => h op (List.mem_cons_of_mem _ hop)
    refine ⟨⟨op, [], by rw [Announces, if_neg hdirect, hlen]⟩ :: is,
      List.forall_mem_cons.mpr ⟨hlen, his⟩, ?_, ?_⟩
    · rw [encodeScript, Codec.encodeAll_cons]
      show op :: (lenBytes op 0 ++ []) ++ encodeScript is = op :: ops
      rw [lenBytes, hlen, henc]
      rfl
    · rw [List.map_cons, List.map_cons, hrows]

/-- So is a direct push. -/
theorem exists_direct_instr {d : Bytes} (hd : 1 ≤ d.length ∧ d.length ≤ 0x4B) :
    ∃ i : Instr, lenField? i.opcode = none ∧ i.encode = UInt8.ofNat d.length :: d ∧
      i.opcode.toNat = d.length ∧ i.payload = d := by
  have hnat : (UInt8.ofNat d.length).toNat = d.length := by
    rw [UInt8.toNat_ofNat']
    exact Nat.mod_eq_of_lt (by omega)
  have hdirect : IsDirect (UInt8.ofNat d.length) := by
    unfold IsDirect
    rw [hnat]
    exact hd
  have hlen := lenField?_of_isDirect hdirect
  refine ⟨⟨UInt8.ofNat d.length, d, by rw [Announces, if_pos hdirect, hnat]⟩, hlen, ?_, hnat, rfl⟩
  show UInt8.ofNat d.length :: (lenBytes (UInt8.ofNat d.length) d.length ++ d) = _
  rw [lenBytes, hlen]
  rfl

/-- **The disassembly shows a template exactly for its bytes.** -/
theorem disassemble_template_iff {b pre d post : Bytes} (hpre : ∀ op ∈ pre, IsPlain op)
    (hpost : ∀ op ∈ post, IsPlain op) (hd : 1 ≤ d.length ∧ d.length ≤ 0x4B) :
    disassemble b = rows (template pre d post) ↔
      b = pre ++ [UInt8.ofNat d.length] ++ d ++ post := by
  obtain ⟨is, his, henc, hrows⟩ := exists_plain_instrs pre hpre
  obtain ⟨js, hjs, henc', hrows'⟩ := exists_plain_instrs post hpost
  obtain ⟨i, hi, henci, hop, hpay⟩ := exists_direct_instr hd
  have hall : ∀ j ∈ is ++ i :: js, lenField? j.opcode = none := by
    intro j hj
    rcases List.mem_append.mp hj with hj | hj
    · exact his j hj
    · rcases List.mem_cons.mp hj with rfl | hj
      · exact hi
      · exact hjs j hj
  have hshow : rows (template pre d post) = entries 0 (is ++ i :: js) := by
    rw [entries_eq_rows, template, List.map_append, List.map_cons, hrows, hrows', hop, hpay]
  have hbytes : encodeScript (is ++ i :: js) = pre ++ [UInt8.ofNat d.length] ++ d ++ post := by
    rw [encodeScript, Codec.encodeAll_append, Codec.encodeAll_cons]
    show encodeScript is ++ (i.encode ++ encodeScript js) = _
    rw [henc, henci, henc']
    simp
  rw [disassemble_eq_listing, hshow, listing_eq_entries_iff _ 0 b hall, hbytes]

theorem slice_zero (b : Bytes) (n : Nat) : slice b 0 n = b.take n := rfl

theorem slice_to_end {b : Bytes} {i n : Nat} (h : b.length = n) : slice b i n = b.drop i := by
  unfold slice
  rw [List.take_of_length_le]
  rw [List.length_drop]
  omega

/-- A pattern on offsets is a template as the disassembler shows it, if it is that
of the template's bytes. -/
theorem shape_iff {b : Bytes} {k : Nat} {P : Prop} (pre post : Bytes) (before : List String)
    (push : String) (behind : List String) (hpre : ∀ op ∈ pre, IsPlain op)
    (hpost : ∀ op ∈ post, IsPlain op) (hk : 1 ≤ k ∧ k ≤ 0x4B)
    (hnames : pre.map (fun op => opcodeName op.toNat) = before ∧ opcodeName k = push ∧
      post.map (fun op => opcodeName op.toNat) = behind)
    (hbytes : P ↔ b.length = (pre ++ [UInt8.ofNat k]).length + k + post.length ∧
      b.take (pre ++ [UInt8.ofNat k]).length = pre ++ [UInt8.ofNat k] ∧
      b.drop ((pre ++ [UInt8.ofNat k]).length + k) = post) :
    P ↔ ∃ d : Bytes, d.length = k ∧ disassemble b =
      rows (before.map (·, []) ++ (push, d) :: behind.map (·, [])) := by
  obtain ⟨rfl, rfl, rfl⟩ := hnames
  rw [hbytes, ← template_iff]
  refine exists_congr ?_
  intro d
  refine and_congr_right ?_
  intro hd
  subst hd
  have h := disassemble_template_iff (b := b) hpre hpost hk
  rw [template] at h
  rw [List.map_map, List.map_map]
  exact h.symm

/-- What a class says of the bytes by itself, whatever was tried before it. -/
def Pattern (b : Bytes) : ScriptType → Prop
  | .unknown => True
  | .opReturn => byteAt b 0 = 0x6A
  | .p2pkh => b.length = 25 ∧ slice b 0 3 = [0x76, 0xA9, 0x14] ∧ slice b 23 25 = [0x88, 0xAC]
  | .p2sh => b.length = 23 ∧ slice b 0 2 = [0xA9, 0x14] ∧ byteAt b 22 = 0x87
  | .p2wpkh => b.length = 22 ∧ slice b 0 2 = [0x00, 0x14]
  | .p2wsh => b.length = 34 ∧ slice b 0 2 = [0x00, 0x20]
  | .p2tr => b.length = 34 ∧ slice b 0 2 = [0x51, 0x20]
  | .p2pk => (b.length = 35 ∧ byteAt b 0 = 0x21 ∧ byteAt b 34 = 0xAC) ∨
      (b.length = 67 ∧ byteAt b 0 = 0x41 ∧ byteAt b 66 = 0xAC)
  | .multisig => b.length ≥ 4 ∧ 0x51 ≤ byteAt b 0 ∧ byteAt b 0 ≤ 0x60 ∧
      0x51 ≤ byteAt b (b.length - 2) ∧ byteAt b (b.length - 2) ≤ 0x60 ∧
      byteAt b (b.length - 1) = 0xAE
  | .witness version => b.length ≥ 4 ∧ b.length = byteAt b 1 + 2 ∧
      (version = 0 ∧ byteAt b 0 = 0x00 ∨
        1 ≤ version ∧ version ≤ 16 ∧ byteAt b 0 = 0x50 + version) ∧
      0x02 ≤ byteAt b 1 ∧ byteAt b 1 ≤ 0x28

theorem Pattern.ite {b : Bytes} {c : Prop} [Decidable c] {t e : ScriptType}
    (ht : c → Pattern b t) (he : ¬ c → Pattern b e) : Pattern b (if c then t else e) := by
  split
  next h => exact ht h
  next h => exact he h

theorem pattern_scriptType (b : Bytes) : Pattern b (scriptType b) := by
  unfold scriptType
  refine .ite (fun _ => trivial) fun _ => .ite id fun _ => .ite id fun _ => .ite id fun _ => ?_
  refine .ite id fun _ => .ite id fun _ => .ite id fun _ => .ite id fun _ => .ite id fun _ => ?_
  refine .ite ?_ fun _ => trivial
  intro h
  by_cases h0 : byteAt b 0 = 0x00
  · rw [if_pos h0]
    exact ⟨h.1, h.2.1, Or.inl ⟨rfl, h0⟩, h.2.2.2⟩
  · rw [if_neg h0]
    have hversion := h.2.2.1.resolve_left h0
    exact ⟨h.1, h.2.1, Or.inr (by omega), h.2.2.2⟩

theorem slice_two_byteAt {b : Bytes} {x y : UInt8} (h : slice b 0 2 = [x, y]) :
    byteAt b 0 = x.toNat ∧ byteAt b 1 = y.toNat := by
  refine (slice_zero_two ?_).mp h
  have hlen := congrArg List.length h
  rw [slice_zero, List.length_take] at hlen
  change min 2 b.length = 2 at hlen
  omega

/-- The patterns of fixed length are tried before those that could take their
bytes, so each of them is all there is to its class. -/
theorem scriptType_eq_of_pattern {b : Bytes} {t : ScriptType}
    (ht : t ∈ [.p2pkh, .p2sh, .p2wpkh, .p2wsh, .p2tr, .p2pk]) :
    scriptType b = t ↔ Pattern b t := by
  constructor
  · intro h
    exact h ▸ pattern_scriptType b
  · intro h
    simp only [List.mem_cons, List.not_mem_nil, or_false] at ht
    rcases ht with rfl | rfl | rfl | rfl | rfl | rfl
    · obtain ⟨h0, -⟩ := (slice_zero_three (by have := h.1; omega)).mp h.2.1
      change byteAt b 0 = 0x76 at h0
      have hlen := h.1
      unfold scriptType
      rw [if_neg (by omega), if_neg (by omega)]
      exact if_pos h
    · obtain ⟨h0, -⟩ := slice_two_byteAt h.2.1
      change byteAt b 0 = 0xA9 at h0
      have hlen := h.1
      unfold scriptType
      rw [if_neg (by omega), if_neg (by omega), if_neg (by omega)]
      exact if_pos h
    · obtain ⟨h0, -⟩ := slice_two_byteAt h.2
      change byteAt b 0 = 0x00 at h0
      have hlen := h.1
      unfold scriptType
      rw [if_neg (by omega), if_neg (by omega), if_neg (by omega), if_neg (by omega)]
      exact if_pos h
    · obtain ⟨h0, -⟩ := slice_two_byteAt h.2
      change byteAt b 0 = 0x00 at h0
      have hlen := h.1
      unfold scriptType
      rw [if_neg (by omega), if_neg (by omega), if_neg (by omega), if_neg (by omega),
        if_neg (by omega)]
      exact if_pos h
    · obtain ⟨h0, -⟩ := slice_two_byteAt h.2
      change byteAt b 0 = 0x51 at h0
      have hlen := h.1
      have hwsh : ¬ slice b 0 2 = [0x00, 0x20] := by
        intro hno
        obtain ⟨h0', -⟩ := slice_two_byteAt hno
        exact absurd (h0.symm.trans h0') (by decide)
      unfold scriptType
      rw [if_neg (by omega), if_neg (by omega), if_neg (by omega), if_neg (by omega),
        if_neg (by omega), if_neg (fun hno => hwsh hno.2)]
      exact if_pos h
    · have hlen : b.length = 35 ∧ byteAt b 0 = 0x21 ∨ b.length = 67 ∧ byteAt b 0 = 0x41 := by
        unfold Pattern at h
        omega
      unfold scriptType
      rw [if_neg (by omega), if_neg (by omega), if_neg (by omega), if_neg (by omega),
        if_neg (by omega), if_neg (by omega), if_neg (by omega)]
      exact if_pos h

theorem classifyScript_iff_pattern {b : Bytes} (t : ScriptType)
    (ht : t ∈ [.p2pkh, .p2sh, .p2wpkh, .p2wsh, .p2tr, .p2pk]) :
    classifyScript b = t.label ↔ Pattern b t :=
  classifyScript_eq_iff.trans (scriptType_eq_of_pattern ht)

/-- A version opcode and one push, with nothing behind it. -/
theorem version_push_iff {b : Bytes} {k : Nat} (v : UInt8) (version push : String)
    (hv : IsPlain v) (hk : 1 ≤ k ∧ k ≤ 0x4B)
    (hnames : opcodeName v.toNat = version ∧ opcodeName k = push) :
    (b.length = k + 2 ∧ slice b 0 2 = [v, UInt8.ofNat k]) ↔
      ∃ d : Bytes, d.length = k ∧ disassemble b = rows [(version, []), (push, d)] := by
  refine shape_iff [v] [] [version] push [] ?_ nofun hk ?_ ?_
  · intro op hop
    rwa [List.mem_singleton.mp hop]
  · exact ⟨by rw [List.map_singleton, hnames.1], hnames.2, rfl⟩
  · have hlength : ([v] ++ [UInt8.ofNat k]).length + k + ([] : Bytes).length = k + 2 :=
      Nat.add_comm 2 k
    rw [hlength]
    refine and_congr_right ?_
    intro hlen
    refine (and_iff_left (List.drop_eq_nil_of_le ?_)).symm
    rw [hlen]
    exact Nat.le_of_eq (Nat.add_comm k 2)

/-- One push of a public key, then `OP_CHECKSIG`. -/
theorem push_checksig_iff {b : Bytes} {k : Nat} (push : String) (hk : 1 ≤ k ∧ k ≤ 0x4B)
    (hname : opcodeName k = push) :
    (b.length = k + 2 ∧ byteAt b 0 = k ∧ byteAt b (k + 1) = 0xAC) ↔
      ∃ d : Bytes, d.length = k ∧ disassemble b = rows [(push, d), ("OP_CHECKSIG", [])] := by
  refine shape_iff [] [0xAC] [] push ["OP_CHECKSIG"] nofun (isPlain_of_all (by decide)) hk
    ⟨rfl, hname, by decide⟩ ?_
  show _ ↔ b.length = 1 + k + 1 ∧ b.take 1 = [UInt8.ofNat k] ∧ b.drop (1 + k) = [0xAC]
  have hlength : 1 + k + 1 = k + 2 := by omega
  rw [hlength, Nat.add_comm 1 k]
  refine and_congr_right ?_
  intro hlen
  rw [drop_eq_singleton_iff hlen]
  refine and_congr_left' ?_
  match b, hlen with
  | a :: t, _ =>
    rw [List.take_succ_cons, List.take_zero, List.cons.injEq, ← UInt8.toNat_inj,
      UInt8.toNat_ofNat', Nat.mod_eq_of_lt (by omega)]
    exact (and_iff_left rfl).symm

/-- **The classes of fixed shape are what the disassembler reads as that shape**, a
direct push where there is one. -/
theorem fixed_shapes_iff (b : Bytes) :
    (classifyScript b = "P2PKH" ↔ ∃ d : Bytes, d.length = 20 ∧ disassemble b =
      rows [("OP_DUP", []), ("OP_HASH160", []), ("OP_PUSHBYTES_20", d), ("OP_EQUALVERIFY", []),
        ("OP_CHECKSIG", [])]) ∧
    (classifyScript b = "P2SH" ↔ ∃ d : Bytes, d.length = 20 ∧ disassemble b =
      rows [("OP_HASH160", []), ("OP_PUSHBYTES_20", d), ("OP_EQUAL", [])]) ∧
    (classifyScript b = "P2PK" ↔
      (∃ d : Bytes, d.length = 33 ∧ disassemble b =
        rows [("OP_PUSHBYTES_33", d), ("OP_CHECKSIG", [])]) ∨
      ∃ d : Bytes, d.length = 65 ∧ disassemble b =
        rows [("OP_PUSHBYTES_65", d), ("OP_CHECKSIG", [])]) ∧
    (classifyScript b = "P2WPKH" ↔ ∃ d : Bytes, d.length = 20 ∧ disassemble b =
      rows [("OP_0", []), ("OP_PUSHBYTES_20", d)]) ∧
    (classifyScript b = "P2WSH" ↔ ∃ d : Bytes, d.length = 32 ∧ disassemble b =
      rows [("OP_0", []), ("OP_PUSHBYTES_32", d)]) ∧
    (classifyScript b = "P2TR" ↔ ∃ d : Bytes, d.length = 32 ∧ disassemble b =
      rows [("OP_1", []), ("OP_PUSHBYTES_32", d)]) := by
  refine ⟨?_, ?_, ?_, ?_, ?_, ?_⟩
  · refine (classifyScript_iff_pattern .p2pkh (by decide)).trans ?_
    refine shape_iff [0x76, 0xA9] [0x88, 0xAC] ["OP_DUP", "OP_HASH160"]
      "OP_PUSHBYTES_20" ["OP_EQUALVERIFY", "OP_CHECKSIG"] (isPlain_of_all (by decide))
      (isPlain_of_all (by decide)) (by decide) (by decide) ?_
    refine and_congr_right fun hlen => and_congr_right fun _ => ?_
    rw [slice_to_end hlen]
    rfl
  · refine (classifyScript_iff_pattern .p2sh (by decide)).trans ?_
    refine shape_iff [0xA9] [0x87] ["OP_HASH160"] "OP_PUSHBYTES_20" ["OP_EQUAL"]
      (isPlain_of_all (by decide)) (isPlain_of_all (by decide)) (by decide) (by decide) ?_
    refine and_congr_right fun hlen => and_congr_right fun _ => ?_
    exact (drop_eq_singleton_iff (x := 0x87) hlen).symm
  · refine (classifyScript_iff_pattern .p2pk (by decide)).trans ?_
    exact or_congr (push_checksig_iff "OP_PUSHBYTES_33" (by decide) (by decide))
      (push_checksig_iff "OP_PUSHBYTES_65" (by decide) (by decide))
  · refine (classifyScript_iff_pattern .p2wpkh (by decide)).trans ?_
    exact version_push_iff 0x00 "OP_0" "OP_PUSHBYTES_20" (by decide) (by decide) (by decide)
  · refine (classifyScript_iff_pattern .p2wsh (by decide)).trans ?_
    exact version_push_iff 0x00 "OP_0" "OP_PUSHBYTES_32" (by decide) (by decide) (by decide)
  · refine (classifyScript_iff_pattern .p2tr (by decide)).trans ?_
    exact version_push_iff 0x51 "OP_1" "OP_PUSHBYTES_32" (by decide) (by decide) (by decide)

/-- 20 bytes behind `OP_PUSHDATA1`. -/
def indirectPush : Instr :=
  ⟨0x4C, List.replicate 20 0x07, show (List.replicate 20 0x07).length < 256 ^ 1 by decide⟩

/-- A push behind `OP_PUSHDATA1` is as complete as a direct one, but no class
has it. -/
theorem fixed_shapes_indirect :
    ¬ ∀ b : Bytes, classifyScript b = "P2WPKH" ↔ ∃ i : Instr, i.payload.length = 20 ∧
      b = encodeScript [⟨0x00, [], rfl⟩, i] ∧ disassemble b = entries 0 [⟨0x00, [], rfl⟩, i] := by
  intro h
  have hclass := (h (0x00 :: 0x4C :: 0x14 :: List.replicate 20 0x07)).mpr
    ⟨indirectPush, rfl, by decide +kernel, by decide +kernel⟩
  exact absurd hclass (by decide +kernel)

/-! ## Witness programs -/

/-- The version opcode of a witness program. -/
def versionOpcode : Nat → UInt8
  | 0 => 0x00
  | v + 1 => UInt8.ofNat (0x51 + v)

/-- A witness program: a version opcode and one direct push of 2 to 40 bytes that
ends where the script does. -/
def IsWitnessProgram (b : Bytes) (v k : Nat) : Prop :=
  v ≤ 16 ∧ 2 ≤ k ∧ k ≤ 40 ∧
    ∃ p : Bytes, p.length = k ∧ b = versionOpcode v :: UInt8.ofNat k :: p

/-- The class of a witness program of version `v` and `k` bytes. -/
def witnessType (v k : Nat) : ScriptType :=
  if v = 0 ∧ k = 20 then .p2wpkh
  else if v = 0 ∧ k = 32 then .p2wsh
  else if v = 1 ∧ k = 32 then .p2tr
  else .witness v

/-- `classify_script` says of `b` that it is a witness program exactly if it is one. -/
def RecognisesWitness (b : Bytes) : Prop :=
  (∀ v k, IsWitnessProgram b v k → classifyScript b = (witnessType v k).label) ∧
  ∀ v k, classifyScript b = (witnessType v k).label →
    ∃ k', IsWitnessProgram b v k' ∧ witnessType v k' = witnessType v k

/-- The last two bytes are those of a multisig script. -/
def EndsLikeMultisig (b : Bytes) : Prop :=
  0x51 ≤ byteAt b (b.length - 2) ∧ byteAt b (b.length - 2) ≤ 0x60 ∧
    byteAt b (b.length - 1) = 0xAE

instance (b : Bytes) : Decidable (EndsLikeMultisig b) := inferInstanceAs (Decidable (_ ∧ _))

/-- A witness program of version 1 to 16, other than a taproot one, whose last two
bytes are those of a multisig script. -/
def ShadowedByMultisig (b : Bytes) : Prop :=
  EndsLikeMultisig b ∧ ∃ v k, IsWitnessProgram b v k ∧ v ≠ 0 ∧ ¬ (v = 1 ∧ k = 32)

theorem versionOpcode_toNat {v : Nat} (h : v ≤ 16) :
    (versionOpcode v).toNat = if v = 0 then 0 else 0x50 + v := by
  cases v with
  | zero => rfl
  | succ v =>
    rw [versionOpcode, UInt8.toNat_ofNat', Nat.mod_eq_of_lt (by omega), if_neg (by omega)]
    omega

/-- What the chain looks at in a witness program. -/
theorem isWitnessProgram_iff {b : Bytes} {v k : Nat} :
    IsWitnessProgram b v k ↔ v ≤ 16 ∧ 2 ≤ k ∧ k ≤ 40 ∧ b.length = k + 2 ∧
      byteAt b 0 = (if v = 0 then 0 else 0x50 + v) ∧ byteAt b 1 = k := by
  constructor
  · intro h
    obtain ⟨hv, hk, hk', p, rfl, rfl⟩ := h
    refine ⟨hv, hk, hk', rfl, versionOpcode_toNat hv, ?_⟩
    show (UInt8.ofNat p.length).toNat = p.length
    rw [UInt8.toNat_ofNat']
    exact Nat.mod_eq_of_lt (by omega)
  · intro h
    obtain ⟨hv, hk, hk', hlen, h0, h1⟩ := h
    match b, hlen with
    | x :: y :: p, hlen =>
      rw [← versionOpcode_toNat hv] at h0
      have hx : x = versionOpcode v := UInt8.toNat_inj.mp h0
      have hy : y = UInt8.ofNat k := by
        apply UInt8.toNat_inj.mp
        rw [UInt8.toNat_ofNat', Nat.mod_eq_of_lt (by omega)]
        exact h1
      refine ⟨hv, hk, hk', p, ?_, by rw [hx, hy]⟩
      rw [List.length_cons, List.length_cons] at hlen
      omega

/-- The chain behind the patterns of fixed length. -/
theorem scriptType_tail {b : Bytes} (hne : b.length ≠ 0) (hreturn : byteAt b 0 ≠ 0x6A)
    (hfixed : ∀ t ∈ [ScriptType.p2pkh, .p2sh, .p2wpkh, .p2wsh, .p2tr, .p2pk], ¬ Pattern b t) :
    scriptType b =
      if b.length ≥ 4 ∧ 0x51 ≤ byteAt b 0 ∧ byteAt b 0 ≤ 0x60 ∧ EndsLikeMultisig b then .multisig
      else if b.length ≥ 4 ∧ b.length = byteAt b 1 + 2 ∧
          (byteAt b 0 = 0x00 ∨ 0x51 ≤ byteAt b 0 ∧ byteAt b 0 ≤ 0x60) ∧
          0x02 ≤ byteAt b 1 ∧ byteAt b 1 ≤ 0x28 then
        .witness (if byteAt b 0 = 0x00 then 0 else byteAt b 0 - 0x50)
      else .unknown := by
  unfold scriptType
  rw [if_neg hne, if_neg hreturn]
  refine (if_neg (hfixed .p2pkh (by decide))).trans ?_
  refine (if_neg (hfixed .p2sh (by decide))).trans ?_
  refine (if_neg (hfixed .p2wpkh (by decide))).trans ?_
  refine (if_neg (hfixed .p2wsh (by decide))).trans ?_
  refine (if_neg (hfixed .p2tr (by decide))).trans ?_
  refine (if_neg (hfixed .p2pk (by decide))).trans ?_
  rfl

/-- No pattern of fixed length matches a witness program without a class of its own. -/
theorem not_pattern_of_isWitnessProgram {b : Bytes} {v k : Nat} (h : IsWitnessProgram b v k)
    (hwpkh : ¬ (v = 0 ∧ k = 20)) (hwsh : ¬ (v = 0 ∧ k = 32)) (htr : ¬ (v = 1 ∧ k = 32)) :
    ∀ t ∈ [ScriptType.p2pkh, .p2sh, .p2wpkh, .p2wsh, .p2tr, .p2pk], ¬ Pattern b t := by
  obtain ⟨hv, -, -, hlen, h0, h1⟩ := isWitnessProgram_iff.mp h
  intro t ht hp
  simp only [List.mem_cons, List.not_mem_nil, or_false] at ht
  rcases ht with rfl | rfl | rfl | rfl | rfl | rfl
  · obtain ⟨hb, -⟩ := (slice_zero_three (by have := hp.1; omega)).mp hp.2.1
    change byteAt b 0 = 0x76 at hb
    split at h0 <;> omega
  · obtain ⟨hb, -⟩ := slice_two_byteAt hp.2.1
    change byteAt b 0 = 0xA9 at hb
    split at h0 <;> omega
  · obtain ⟨hb, -⟩ := slice_two_byteAt hp.2
    change byteAt b 0 = 0x00 at hb
    have hn := hp.1
    split at h0 <;> omega
  · obtain ⟨hb, -⟩ := slice_two_byteAt hp.2
    change byteAt b 0 = 0x00 at hb
    have hn := hp.1
    split at h0 <;> omega
  · obtain ⟨hb, -⟩ := slice_two_byteAt hp.2
    change byteAt b 0 = 0x51 at hb
    have hn := hp.1
    split at h0 <;> omega
  · unfold Pattern at hp
    split at h0 <;> omega

/-- The class of a witness program: the `multisig` pattern comes before the generic
one, and behind the three that have a class of their own. -/
theorem scriptType_of_isWitnessProgram {b : Bytes} {v k : Nat} (h : IsWitnessProgram b v k) :
    scriptType b = if EndsLikeMultisig b ∧ v ≠ 0 ∧ ¬ (v = 1 ∧ k = 32) then .multisig
      else witnessType v k := by
  obtain ⟨hv, hk, hk', hlen, h0, h1⟩ := isWitnessProgram_iff.mp h
  have hslice : ∀ x y : UInt8, slice b 0 2 = [x, y] ↔ byteAt b 0 = x.toNat ∧ byteAt b 1 = y.toNat :=
    fun x y => slice_zero_two (by omega)
  unfold witnessType
  by_cases hwpkh : v = 0 ∧ k = 20
  · rw [if_neg (fun hno => hno.2.1 hwpkh.1), if_pos hwpkh,
      scriptType_eq_of_pattern (by decide)]
    rw [if_pos hwpkh.1] at h0
    exact ⟨by omega, (hslice 0x00 0x14).mpr ⟨h0, h1.trans hwpkh.2⟩⟩
  · by_cases hwsh : v = 0 ∧ k = 32
    · rw [if_neg (fun hno => hno.2.1 hwsh.1), if_neg hwpkh, if_pos hwsh,
        scriptType_eq_of_pattern (by decide)]
      rw [if_pos hwsh.1] at h0
      exact ⟨by omega, (hslice 0x00 0x20).mpr ⟨h0, h1.trans hwsh.2⟩⟩
    · by_cases htr : v = 1 ∧ k = 32
      · rw [if_neg (fun hno => hno.2.2 htr), if_neg hwpkh, if_neg hwsh, if_pos htr,
          scriptType_eq_of_pattern (by decide)]
        rw [if_neg (by omega), htr.1] at h0
        exact ⟨by omega, (hslice 0x51 0x20).mpr ⟨h0, h1.trans htr.2⟩⟩
      · -- No class of its own: the chain gets as far as the `multisig` pattern.
        rw [if_neg hwpkh, if_neg hwsh, if_neg htr]
        have hfixed := not_pattern_of_isWitnessProgram h hwpkh hwsh htr
        rw [scriptType_tail (by omega) (by split at h0 <;> omega) hfixed]
        refine if_congr ?_ rfl ?_
        · constructor
          · intro hm
            obtain ⟨-, hlo, -, hend⟩ := hm
            exact ⟨hend, by split at h0 <;> omega, htr⟩
          · intro hm
            obtain ⟨hend, hv0, -⟩ := hm
            rw [if_neg hv0] at h0
            exact ⟨by omega, by omega, by omega, hend⟩
        · rw [if_pos (by split at h0 <;> omega)]
          congr 1
          split at h0
          · rw [if_pos h0]
            omega
          · rw [if_neg (by omega)]
            omega

/-- A script whose class is that of a witness program is one. -/
theorem isWitnessProgram_of_scriptType {b : Bytes} {v k : Nat}
    (h : scriptType b = witnessType v k) : ∃ k', IsWitnessProgram b v k' := by
  have hp := pattern_scriptType b
  rw [h] at hp
  unfold witnessType at hp
  split at hp
  next hvk =>
    obtain ⟨h0, h1⟩ := slice_two_byteAt hp.2
    exact ⟨20, isWitnessProgram_iff.mpr
      ⟨by omega, by omega, by omega, hp.1, by rw [if_pos hvk.1]; exact h0, h1⟩⟩
  next =>
    split at hp
    next hvk =>
      obtain ⟨h0, h1⟩ := slice_two_byteAt hp.2
      exact ⟨32, isWitnessProgram_iff.mpr
        ⟨by omega, by omega, by omega, hp.1, by rw [if_pos hvk.1]; exact h0, h1⟩⟩
    next =>
      split at hp
      next hvk =>
        obtain ⟨h0, h1⟩ := slice_two_byteAt hp.2
        exact ⟨32, isWitnessProgram_iff.mpr
          ⟨by omega, by omega, by omega, hp.1, by rw [if_neg (by omega), hvk.1]; exact h0, h1⟩⟩
      next =>
        obtain ⟨hlen, hlen', hversion, hk, hk'⟩ := hp
        exact ⟨byteAt b 1, isWitnessProgram_iff.mpr
          ⟨by omega, hk, hk', hlen', by split <;> omega, rfl⟩⟩

theorem witnessType_ne_multisig (v k : Nat) : witnessType v k ≠ .multisig := by
  unfold witnessType
  repeat' split
  all_goals
    intro h
    cases h

/-- **Exactly the unshadowed witness programs are recognised.** -/
theorem witness_recognised_iff (b : Bytes) : RecognisesWitness b ↔ ¬ ShadowedByMultisig b := by
  constructor
  · intro hrec hshadow
    obtain ⟨hend, v, k, hwp, hv, hvk⟩ := hshadow
    have hclass := classifyScript_eq_iff.mp (hrec.1 v k hwp)
    rw [scriptType_of_isWitnessProgram hwp, if_pos ⟨hend, hv, hvk⟩] at hclass
    exact witnessType_ne_multisig v k hclass.symm
  · intro hshadow
    have hclass : ∀ v k, IsWitnessProgram b v k → scriptType b = witnessType v k := by
      intro v k hwp
      rw [scriptType_of_isWitnessProgram hwp, if_neg]
      intro hno
      exact hshadow ⟨hno.1, v, k, hwp, hno.2⟩
    refine ⟨fun v k hwp => classifyScript_eq_iff.mpr (hclass v k hwp), ?_⟩
    intro v k h
    have htype := classifyScript_eq_iff.mp h
    obtain ⟨k', hwp⟩ := isWitnessProgram_of_scriptType htype
    exact ⟨k', hwp, (hclass v k' hwp).symm.trans htype⟩

/-- A witness program of version 1 with the program `51 ae`. -/
theorem witness_shadowed :
    IsWitnessProgram [0x51, 0x02, 0x51, 0xAE] 1 2 ∧
    classifyScript [0x51, 0x02, 0x51, 0xAE] = "multisig" ∧
    ¬ RecognisesWitness [0x51, 0x02, 0x51, 0xAE] := by
  have hwp : IsWitnessProgram [0x51, 0x02, 0x51, 0xAE] 1 2 :=
    ⟨by decide, by decide, by decide, [0x51, 0xAE], rfl, rfl⟩
  refine ⟨hwp, by decide, ?_⟩
  intro hrec
  exact absurd (hrec.1 1 2 hwp) (by decide)

/-! ## The `multisig` pattern -/

/-- An instruction that pushes data. -/
def Instr.IsPush (i : Instr) : Prop := IsDirect i.opcode ∨ ∃ f, lenField? i.opcode = some f

/-- The rows of a script `OP_m`, the instructions `is`, `OP_n`, `OP_CHECKMULTISIG`. -/
def multisigRows (m : Nat) (is : List Instr) (n : Nat) : List Entry :=
  ⟨0, "OP_" ++ toString m, []⟩ :: entries 1 is ++
    [⟨is.length + 1, "OP_" ++ toString n, []⟩, ⟨is.length + 2, "OP_CHECKMULTISIG", []⟩]

/-- A multisig script as the disassembler shows one: `m` of `n` keys. -/
def IsMultisig (b : Bytes) : Prop :=
  ∃ (m n : Nat) (keys : List Instr), 1 ≤ m ∧ m ≤ n ∧ n ≤ 16 ∧ keys.length = n ∧
    (∀ i ∈ keys, i.IsPush) ∧ disassemble b = multisigRows m keys n

/-- `OP_1` to `OP_16` name their number. -/
theorem opcodeName_small {m : Nat} (h : 1 ≤ m ∧ m ≤ 16) :
    opcodeName (versionOpcode m).toNat = "OP_" ++ toString m := by
  have hall : ∀ m ∈ List.range' 1 16,
      opcodeName (versionOpcode m).toNat = "OP_" ++ toString m := by decide +kernel
  exact hall m (List.mem_range'_1.mpr ⟨h.1, by omega⟩)

/-- The number of an `OP_1` to `OP_16` byte. -/
theorem exists_versionOpcode {x : UInt8} (h : 0x51 ≤ x.toNat ∧ x.toNat ≤ 0x60) :
    ∃ m, (1 ≤ m ∧ m ≤ 16) ∧ x = versionOpcode m := by
  refine ⟨x.toNat - 0x50, by omega, UInt8.toNat_inj.mp ?_⟩
  rw [versionOpcode_toNat (by omega), if_neg (by omega)]
  omega

/-- `OP_1` to `OP_16` push no bytes of the script. -/
theorem isPlain_versionOpcode {m : Nat} (h : 1 ≤ m ∧ m ≤ 16) : IsPlain (versionOpcode m) := by
  have hall : ∀ m ∈ List.range' 1 16, IsPlain (versionOpcode m) := by decide +kernel
  exact hall m (List.mem_range'_1.mpr ⟨h.1, by omega⟩)

/-- The first and the last two bytes, and what is between them. -/
theorem exists_ends {b : Bytes} (h : 4 ≤ b.length) :
    ∃ x mid y z, mid ≠ [] ∧ b = x :: (mid ++ [y, z]) ∧ byteAt b 0 = x.toNat ∧
      byteAt b (b.length - 2) = y.toNat ∧ byteAt b (b.length - 1) = z.toNat := by
  match b, h with
  | x :: t, h =>
    rcases List.eq_nil_or_concat' t with rfl | ⟨u, z, rfl⟩
    · exact absurd h (by simp)
    · rcases List.eq_nil_or_concat' u with rfl | ⟨mid, y, rfl⟩
      · exact absurd h (by simp)
      · refine ⟨x, mid, y, z, ?_, by simp, rfl, ?_, ?_⟩
        · rintro rfl
          exact absurd h (by simp)
        · simp [byteAt]
        · simp [byteAt]

/-- The bytes the `multisig` pattern has looked at. -/
theorem multisig_bytes {b : Bytes} (h : Pattern b .multisig) :
    ∃ m n mid, (1 ≤ m ∧ m ≤ 16) ∧ (1 ≤ n ∧ n ≤ 16) ∧ mid ≠ [] ∧
      b = versionOpcode m :: (mid ++ [versionOpcode n, 0xAE]) := by
  obtain ⟨hlen, hm, hm', hn, hn', hlast⟩ := h
  obtain ⟨x, mid, y, z, hmid, hb, hx, hy, hz⟩ := exists_ends hlen
  rw [hx] at hm hm'
  rw [hy] at hn hn'
  rw [hz] at hlast
  obtain ⟨m, hm16, hxm⟩ := exists_versionOpcode ⟨hm, hm'⟩
  obtain ⟨n, hn16, hyn⟩ := exists_versionOpcode ⟨hn, hn'⟩
  have hcheck : z = 0xAE := UInt8.toNat_inj.mp hlast
  exact ⟨m, n, mid, hm16, hn16, hmid, by rw [hb, hxm, hyn, hcheck]⟩

/-- A plain opcode is a row of its own, wherever the loop stops at it. -/
theorem listing_plain (pos : Nat) {op : UInt8} (h : IsPlain op) (t : Bytes) :
    listing pos (op :: t) = ⟨pos, opcodeName op.toNat, []⟩ :: listing (pos + 1) t := by
  rw [listing, readPush, readLength_plain h.1 h.2]
  rfl

/-- **What the class `multisig` promises**: the script starts with `OP_m`, its last two
bytes are `OP_n` and `OP_CHECKMULTISIG`, and there is something in between. The last two
are instructions if whole instructions stand there; neither that, nor that these are `n`
pushes, nor `m ≤ n` is looked at. -/
theorem multisig_shape (b : Bytes) (h : classifyScript b = "multisig") :
    ∃ m n mid, (1 ≤ m ∧ m ≤ 16) ∧ (1 ≤ n ∧ n ≤ 16) ∧ mid ≠ [] ∧
      b = versionOpcode m :: (mid ++ [versionOpcode n, 0xAE]) ∧
      disassemble b = ⟨0, "OP_" ++ toString m, []⟩ ::
        (disassemble (mid ++ [versionOpcode n, 0xAE])).map (Entry.shift 1) ∧
      ∀ is : List Instr, mid = encodeScript is → disassemble b = multisigRows m is n := by
  have hp := pattern_scriptType b
  rw [label_inj (t := .multisig) h] at hp
  obtain ⟨m, n, mid, hm, hn, hmid, rfl⟩ := multisig_bytes hp
  have hfirst : disassemble (versionOpcode m :: (mid ++ [versionOpcode n, 0xAE])) =
      ⟨0, "OP_" ++ toString m, []⟩ :: listing 1 (mid ++ [versionOpcode n, 0xAE]) := by
    rw [disassemble_eq_listing, listing_plain 0 (isPlain_versionOpcode hm), opcodeName_small hm]
  refine ⟨m, n, mid, hm, hn, hmid, rfl, ?_, ?_⟩
  · rw [hfirst, disassemble_eq_listing, ← listing_shift]
  · intro is his
    rw [hfirst, his, listing_encodeScript_append, listing_plain _ (isPlain_versionOpcode hn),
      listing_plain _ (by decide), listing, opcodeName_small hn, multisigRows,
      Nat.add_comm 1 is.length]
    rfl

/-- A multisig script of two keys. -/
theorem multisig_shape_two :
    ∃ m n mid, (1 ≤ m ∧ m ≤ 16) ∧ (1 ≤ n ∧ n ≤ 16) ∧ mid ≠ [] ∧
      [0x51, 0x01, 0x07, 0x01, 0x08, 0x52, 0xAE] =
        versionOpcode m :: (mid ++ [versionOpcode n, 0xAE]) ∧
      disassemble [0x51, 0x01, 0x07, 0x01, 0x08, 0x52, 0xAE] = ⟨0, "OP_" ++ toString m, []⟩ ::
        (disassemble (mid ++ [versionOpcode n, 0xAE])).map (Entry.shift 1) ∧
      ∀ is : List Instr, mid = encodeScript is →
        disassemble [0x51, 0x01, 0x07, 0x01, 0x08, 0x52, 0xAE] = multisigRows m is n :=
  multisig_shape [0x51, 0x01, 0x07, 0x01, 0x08, 0x52, 0xAE] (by decide)

theorem length_multisigRows (m n : Nat) (is : List Instr) :
    (multisigRows m is n).length = is.length + 3 := by
  rw [multisigRows, List.length_append, List.length_cons, length_entries]
  rfl

theorem Instr.IsPush.le {i : Instr} (h : i.IsPush) : i.opcode.toNat ≤ 0x4E := by
  rcases h with ⟨-, hle⟩ | ⟨f, hf⟩
  · omega
  · refine Nat.le_of_not_lt fun hlt => ?_
    unfold lenField? at hf
    rw [if_neg (by omega), if_neg (by omega), if_neg (by omega)] at hf
    cases hf

/-- A multisig of four rows is a 1-of-1, and its second row is a push. -/
theorem not_isMultisig_of_four {b : Bytes} {x y z : String}
    (hrows : (disassemble b).map Entry.mnemonic = [x, y, z, "OP_CHECKMULTISIG"])
    (hno : x ≠ "OP_1" ∨ y = "OP_1" ∨ z ≠ "OP_1") : ¬ IsMultisig b := by
  rintro ⟨m, n, keys, hm, hmn, -, hkeys, hpush, heq⟩
  have hlen := congrArg List.length hrows
  rw [heq, List.length_map, length_multisigRows] at hlen
  change keys.length + 3 = 4 at hlen
  obtain ⟨key, rfl⟩ := List.length_eq_one_iff.mp (show keys.length = 1 by omega)
  obtain rfl : 1 = n := hkeys
  obtain rfl : m = 1 := by omega
  rw [heq] at hrows
  obtain ⟨hx, hrest⟩ := List.cons.inj hrows
  obtain ⟨hy, hrest'⟩ := List.cons.inj hrest
  obtain ⟨hz, -⟩ := List.cons.inj hrest'
  rcases hno with hne | rfl | hne
  · exact hne hx.symm
  · have hop : key.opcode.toNat = 0x51 := opcodeName_inj key.opcode.toNat_lt (by decide)
      (hy.trans (by decide : "OP_1" = opcodeName 0x51))
    have hle := (hpush key (List.mem_singleton_self key)).le
    omega
  · exact hne hz.symm

/-- Nothing but the ends is looked at: the last two bytes may be those of a push, more keys
may be asked for than there are, fewer may be there than announced, and what is there
need not be one. -/
theorem multisig_unchecked :
    (¬ ∀ b : Bytes, classifyScript b = "multisig" → IsMultisig b) ∧
    ∀ b ∈ ([[0x51, 0x04, 0x07, 0x51, 0xAE], [0x52, 0x01, 0x07, 0x51, 0xAE],
        [0x51, 0x01, 0x07, 0x52, 0xAE], [0x52, 0x51, 0x51, 0xAE], [0x51, 0x51, 0x51, 0xAE]] :
        List Bytes), classifyScript b = "multisig" ∧ ¬ IsMultisig b := by
  have hpush : ¬ IsMultisig [0x51, 0x04, 0x07, 0x51, 0xAE] := by
    rintro ⟨m, n, keys, -, -, -, -, -, hrows⟩
    have hlen : (disassemble [0x51, 0x04, 0x07, 0x51, 0xAE]).length = 2 := by decide +kernel
    rw [hrows, length_multisigRows] at hlen
    omega
  refine ⟨fun h => hpush (h _ (by decide)), ?_⟩
  simp only [List.forall_mem_cons]
  refine ⟨⟨by decide, hpush⟩, ⟨by decide, ?_⟩, ⟨by decide, ?_⟩, ⟨by decide, ?_⟩,
    ⟨by decide, ?_⟩, nofun⟩
  · exact not_isMultisig_of_four (x := "OP_2") (y := "OP_PUSHBYTES_1") (z := "OP_1")
      (by decide +kernel) (Or.inl (by decide))
  · exact not_isMultisig_of_four (x := "OP_1") (y := "OP_PUSHBYTES_1") (z := "OP_2")
      (by decide +kernel) (Or.inr (Or.inr (by decide)))
  · exact not_isMultisig_of_four (x := "OP_2") (y := "OP_1") (z := "OP_1")
      (by decide +kernel) (Or.inl (by decide))
  · exact not_isMultisig_of_four (x := "OP_1") (y := "OP_1") (z := "OP_1")
      (by decide +kernel) (Or.inr (Or.inl rfl))

end PyBitcoinKernel.Script
