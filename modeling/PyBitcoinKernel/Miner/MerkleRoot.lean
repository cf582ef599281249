import Mathlib.Data.Nat.Log
import PyBitcoinKernel.Lib.Merkle
import PyBitcoinKernel.Miner.Transaction

/-!
# The Merkle root of a block

`merkle_root` works on one level at a time, appends the last hash once more where a level
is odd, and hashes neighbours together until one hash is left. On hashes this is the root
of the tree that `Merkle.build` gives the list,

> `merkleRoot_eq`: `merkle_root` is the root of the tree of the list, of depth `⌈log₂ n⌉`,

so what a root tells apart is what the tree does (`Merkle.root_build_eq_iff`): among
lists of one length everything, and nothing between a list and what its own last hashes
continue it to.

SHA-256 is a parameter: a function from byte strings to 32 bytes.
-/

namespace PyBitcoinKernel.Miner

open PyBitcoinKernel.Script (Bytes)
open Merkle (parents build parents_ne_nil length_parents root_build_parents pad NoClash
  root_build_eq_iff leaves_build take_pad)

variable (sha256 : Bytes → Hash256)

def dsha256 (data : Bytes) : Hash256 := sha256 (sha256 data).1

/-! ## The code -/

/-- `if len(level) % 2 == 1: level.append(level[-1])`. -/
def evenLevel (level : List Bytes) : List Bytes :=
  if level.length % 2 = 1 then level ++ level.getLast?.toList else level

/-- `[dsha256(level[i] + level[i + 1]) for i in range(0, len(level), 2)]`. -/
def pairUp : List Bytes → List Bytes
  | [] => []
  -- Not reached: levels are even here.
  | [_] => []
  | x :: y :: level => (dsha256 sha256 (x ++ y)).1 :: pairUp level

theorem length_pairUp : ∀ level : List Bytes, (pairUp sha256 level).length = level.length / 2
  | [] => by rw [pairUp, List.length_nil]
  | [_] => by rw [pairUp, List.length_nil, List.length_singleton]
  | _ :: _ :: level => by
    rw [pairUp, List.length_cons, length_pairUp level, List.length_cons, List.length_cons]
    omega

theorem length_evenLevel {level : List Bytes} (h : level ≠ []) :
    (evenLevel level).length = level.length + level.length % 2 := by
  unfold evenLevel
  split
  next hodd =>
    rw [List.length_append, List.getLast?_eq_some_getLast h, Option.toList_some,
      List.length_singleton, hodd]
  next hodd => omega

def merkleRoot (level : List Bytes) : MinerResult Bytes :=
  if 1 < level.length then merkleRoot (pairUp sha256 (evenLevel level))
  else
    match level with
    | [] => .error .indexError
    | hash :: _ => .ok hash
  termination_by level.length
  decreasing_by
    rename_i h
    rw [length_pairUp, length_evenLevel (by rintro rfl; exact absurd h (by decide))]
    omega

/-! ## Levels of hashes -/

/-- The hash of two neighbours. -/
def combine (x y : Hash256) : Hash256 := dsha256 sha256 (x.1 ++ y.1)

/-- A list of hashes as the code has it. -/
abbrev bytesOf (hashes : List Hash256) : List Bytes := hashes.map Subtype.val

theorem pairUp_append : ∀ {level : List Hash256}, level.length % 2 = 0 →
    pairUp sha256 (bytesOf level) = bytesOf (parents (combine sha256) level)
  | [], _ => by
    show pairUp sha256 [] = bytesOf (parents (combine sha256) [])
    rw [pairUp, parents]
    rfl
  | [_], h => absurd h (by rw [List.length_singleton]; decide)
  | x :: y :: level, h => by
    rw [List.length_cons, List.length_cons] at h
    have ih := pairUp_append (show level.length % 2 = 0 by omega)
    show pairUp sha256 (x.1 :: y.1 :: bytesOf level) = _
    rw [parents, pairUp, ih]
    rfl

/-- The last hash of an odd level is paired with itself. -/
theorem parents_append_self {α : Type} (H : α → α → α) : ∀ {l : List α} {x : α},
    l.length % 2 = 0 → parents H (l ++ [x] ++ [x]) = parents H (l ++ [x])
  | [], x, _ => by
    rw [List.nil_append, List.singleton_append, parents, parents, parents]
  | [_], _, h => absurd h (by rw [List.length_singleton]; decide)
  | y :: z :: l, x, h => by
    rw [List.length_cons, List.length_cons] at h
    show parents H (y :: z :: (l ++ [x] ++ [x])) = parents H (y :: z :: (l ++ [x]))
    rw [parents, parents, parents_append_self H (show l.length % 2 = 0 by omega)]

/-- **One level**: duplicating and pairing makes the parents. -/
theorem pairUp_evenLevel {level : List Hash256} (h : level ≠ []) :
    pairUp sha256 (evenLevel (bytesOf level)) = bytesOf (parents (combine sha256) level) := by
  unfold evenLevel
  rw [List.length_map]
  split
  next hodd =>
    rcases List.eq_nil_or_concat' level with rfl | ⟨l, x, rfl⟩
    · exact absurd rfl h
    · rw [List.length_append, List.length_singleton] at hodd
      have heven : (l ++ [x] ++ [x]).length % 2 = 0 := by simp; omega
      have hbytes : bytesOf (l ++ [x]) ++ (bytesOf (l ++ [x])).getLast?.toList =
          bytesOf (l ++ [x] ++ [x]) := by simp
      rw [hbytes, pairUp_append sha256 heven, parents_append_self _ (by omega)]
  next hodd => exact pairUp_append sha256 (by omega)

/-- **`merkle_root` is the root of a tree.** -/
theorem merkleRoot_bytesOf : ∀ (hashes : List Hash256) (h : hashes ≠ []),
    merkleRoot sha256 (bytesOf hashes) =
      .ok ((build (Nat.clog 2 hashes.length) hashes h).root (combine sha256)).1
  | [hash], h => by
    rw [merkleRoot.eq_def, if_neg (by rw [List.length_map, List.length_singleton]; decide)]
    rfl
  | hash :: hash' :: rest, h => by
    have htwo : 2 ≤ (hash :: hash' :: rest).length := by
      rw [List.length_cons, List.length_cons]
      omega
    have hlen := length_parents (combine sha256) (hash :: hash' :: rest)
    have hclog := Nat.clog_of_two_le (b := 2) (by decide) htwo
    have hsucc : ((hash :: hash' :: rest).length + 2 - 1) / 2 =
        ((hash :: hash' :: rest).length + 1) / 2 := by omega
    rw [hsucc, ← hlen] at hclog
    have hroom := Nat.le_pow_clog (b := 2) (by decide) (hash :: hash' :: rest).length
    rw [hclog] at hroom
    rw [merkleRoot.eq_def, if_pos (by rw [List.length_map]; omega), pairUp_evenLevel sha256 h,
      merkleRoot_bytesOf (parents (combine sha256) (hash :: hash' :: rest)) (parents_ne_nil _ h),
      root_build_parents (combine sha256) h hroom, hclog]
  termination_by hashes => hashes.length
  decreasing_by
    rw [length_parents]
    simp only [List.length_cons]
    omega

/-- **`merkle_root` on every list of hashes**: there is no root of an empty one. -/
theorem merkleRoot_tree (hashes : List Hash256) :
    (hashes = [] → merkleRoot sha256 (bytesOf hashes) = .error .indexError) ∧
    ∀ h : hashes ≠ [], ∃ root : Hash256, merkleRoot sha256 (bytesOf hashes) = .ok root.1 ∧
      root = (build (Nat.clog 2 hashes.length) hashes h).root (combine sha256) ∧
      (build (Nat.clog 2 hashes.length) hashes h).leaves.take hashes.length = hashes := by
  constructor
  · rintro rfl
    rw [merkleRoot.eq_def, if_neg (by decide)]
    rfl
  · intro h
    have hlen := Nat.le_pow_clog (b := 2) (by decide) hashes.length
    refine ⟨_, merkleRoot_bytesOf sha256 hashes h, rfl, ?_⟩
    rw [leaves_build h hlen, take_pad hlen]

/-- **What a Merkle root tells apart**: of two lists of hashes with trees of one depth,
everything but what the duplicated hashes continue them to, if no two nodes clash. -/
theorem merkleRoot_eq_iff {hashes hashes' : List Hash256} {d : Nat} (h : hashes ≠ [])
    (h' : hashes' ≠ []) (hd : Nat.clog 2 hashes.length = d) (hd' : Nat.clog 2 hashes'.length = d)
    (hno : NoClash (combine sha256) (build d hashes h) (build d hashes' h')) :
    merkleRoot sha256 (bytesOf hashes) = merkleRoot sha256 (bytesOf hashes') ↔
      pad d hashes = pad d hashes' := by
  have hlen := Nat.le_pow_clog (b := 2) (by decide) hashes.length
  have hlen' := Nat.le_pow_clog (b := 2) (by decide) hashes'.length
  rw [hd] at hlen
  rw [hd'] at hlen'
  rw [merkleRoot_bytesOf sha256 hashes h, merkleRoot_bytesOf sha256 hashes' h', hd, hd',
    ← root_build_eq_iff h h' hlen hlen' hno]
  constructor
  · intro hroot
    exact Subtype.ext (Except.ok.inj hroot)
  · intro hroot
    rw [hroot]

/-- A hash that keeps the first 32 bytes. -/
def keepFirst (data : Bytes) : Hash256 :=
  ⟨(data ++ List.replicate 32 0).take 32, by simp⟩

def repeated (b : UInt8) : Hash256 := ⟨List.replicate 32 b, List.length_replicate⟩

/-- Three transactions, the last of them once more. -/
theorem merkleRoot_eq_iff_duplicate :
    merkleRoot keepFirst (bytesOf [repeated 1, repeated 2, repeated 2]) =
        merkleRoot keepFirst (bytesOf [repeated 1, repeated 2, repeated 2, repeated 2]) ↔
      pad 2 [repeated 1, repeated 2, repeated 2] =
        pad 2 [repeated 1, repeated 2, repeated 2, repeated 2] := by
  refine merkleRoot_eq_iff keepFirst (List.cons_ne_nil _ _) (List.cons_ne_nil _ _) (by decide)
    (by decide) ?_
  have hpairs : ∀ p ∈ (build 2 [repeated 1, repeated 2, repeated 2] (List.cons_ne_nil _ _)).pairs
      (combine keepFirst), p = (repeated 1, repeated 2) ∨ p = (repeated 2, repeated 2) := by
    decide +kernel
  have hpairs' : ∀ p ∈ (build 2 [repeated 1, repeated 2, repeated 2, repeated 2]
      (List.cons_ne_nil _ _)).pairs (combine keepFirst),
      p = (repeated 1, repeated 2) ∨ p = (repeated 2, repeated 2) := by
    decide +kernel
  intro p hp q hq
  rcases hpairs p hp with rfl | rfl <;> rcases hpairs' q hq with rfl | rfl <;> decide +kernel

end PyBitcoinKernel.Miner
