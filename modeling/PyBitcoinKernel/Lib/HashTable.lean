import Mathlib.Data.List.Nodup
import Mathlib.Logic.Function.Basic

/-!
# Tables that find their keys by hash

A table as Python's `dict` is one: an entry belongs to a key if it was stored under the
same hash and its key compares equal; assigning to a key that is there keeps the entry's
key and replaces the value. What the hash and the comparison are is up to the keys, and so
is whether such a table makes sense. It does for keys that stand for values, as long as

* two keys compare equal exactly if they stand for the same value, and
* they then have the same hash

(`Lawful`). Hashes may collide otherwise.

> `run_spec`: after any assignments and deletions the table holds what a function of the
> values would, each value once.
-/

namespace HashTable

variable {κ ι ν : Type}

/-- What a program does to a table. -/
inductive Op (κ ν : Type) where
  | set (k : κ) (v : ν)
  | del (k : κ)

def Op.key : Op κ ν → κ
  | .set k _ => k
  | .del k => k

section Table

variable (hash : κ → Int) (eq : κ → κ → Bool)

/-- The entry belongs to the key. -/
def hit (k : κ) (e : κ × ν) : Bool := hash e.1 = hash k && eq e.1 k

/-- The value of the first entry that the key hits. -/
def lookup (t : List (κ × ν)) (k : κ) : Option ν := (t.find? (hit hash eq k)).map Prod.snd

def set (t : List (κ × ν)) (k : κ) (v : ν) : List (κ × ν) :=
  if t.any (hit hash eq k) then t.map fun e => if hit hash eq k e then (e.1, v) else e
  else t ++ [(k, v)]

/-- A key that is not there is an error, and changes nothing. -/
def del (t : List (κ × ν)) (k : κ) : List (κ × ν) := t.eraseP (hit hash eq k)

def apply (t : List (κ × ν)) : Op κ ν → List (κ × ν)
  | .set k v => set hash eq t k v
  | .del k => del hash eq t k

/-- The table after a sequence of operations. -/
def run (ops : List (Op κ ν)) : List (κ × ν) := ops.foldl (apply hash eq) []

end Table

/-- What the same does to a function. -/
def update [DecidableEq ι] (val : κ → ι) (f : ι → Option ν) : Op κ ν → ι → Option ν
  | .set k v => Function.update f (val k) (some v)
  | .del k => Function.update f (val k) none

def spec [DecidableEq ι] (val : κ → ι) (ops : List (Op κ ν)) : ι → Option ν :=
  ops.foldl (update val) fun _ => none

/-- The keys in `K` stand for values. -/
structure Lawful (hash : κ → Int) (eq : κ → κ → Bool) (val : κ → ι) (K : κ → Prop) : Prop where
  eq_iff : ∀ a b, K a → K b → (eq a b = true ↔ val a = val b)
  hash_eq : ∀ a b, K a → K b → val a = val b → hash a = hash b

variable {hash : κ → Int} {eq : κ → κ → Bool} {val : κ → ι} {K : κ → Prop} {k : κ}
  {t : List (κ × ν)}

/-- A key hits the entries of its own value, and no others. -/
theorem Lawful.hit_iff (h : Lawful hash eq val K) {e : κ × ν} (he : K e.1) (hk : K k) :
    hit hash eq k e = true ↔ val e.1 = val k := by
  rw [hit, Bool.and_eq_true, decide_eq_true_iff, h.eq_iff _ _ he hk]
  exact and_iff_right_of_imp (h.hash_eq _ _ he hk)

/-- The table holds the function: its keys are in order, each value has one entry, and that
is the one to be found. -/
structure Holds [DecidableEq ι] (val : κ → ι) (K : κ → Prop) (t : List (κ × ν))
    (f : ι → Option ν) : Prop where
  keys : ∀ e ∈ t, K e.1
  nodup : (t.map fun e => val e.1).Nodup
  entry : ∀ c v, f c = some v ↔ ∃ e ∈ t, val e.1 = c ∧ e.2 = v

variable [DecidableEq ι] {f : ι → Option ν}

theorem Holds.unique (ht : Holds val K t f) {e e' : κ × ν} (he : e ∈ t) (he' : e' ∈ t)
    (h : val e.1 = val e'.1) : e = e' :=
  List.inj_on_of_nodup_map ht.nodup he he' h

/-- **A key is found** under its value. -/
theorem Holds.lookup_eq (h : Lawful hash eq val K) (ht : Holds val K t f) (hk : K k) :
    lookup hash eq t k = f (val k) := by
  unfold lookup
  cases hfind : t.find? (hit hash eq k) with
  | none =>
    symm
    rw [Option.map_none, Option.eq_none_iff_forall_not_mem]
    intro v hv
    obtain ⟨e, he, hval, -⟩ := (ht.entry _ v).mp hv
    exact List.find?_eq_none.mp hfind e he ((h.hit_iff (ht.keys e he) hk).mpr hval)
  | some e =>
    have he := List.mem_of_find?_eq_some hfind
    have hval := (h.hit_iff (ht.keys e he) hk).mp (List.find?_some hfind)
    exact ((ht.entry _ _).mpr ⟨e, he, hval, rfl⟩).symm

theorem holds_nil : Holds val K ([] : List (κ × ν)) fun _ => none := by
  refine ⟨?_, List.nodup_nil, ?_⟩
  · intro e he
    cases he
  · intro c v
    refine iff_of_false (fun hno => by cases hno) ?_
    intro hno
    obtain ⟨e, he, -⟩ := hno
    cases he

/-- **Assigning** to a key. -/
theorem Holds.set (h : Lawful hash eq val K) (ht : Holds val K t f) (hk : K k) (v : ν) :
    Holds val K (HashTable.set hash eq t k v) (Function.update f (val k) (some v)) := by
  have hhit : ∀ e ∈ t, (hit hash eq k e = true ↔ val e.1 = val k) := fun e he =>
    h.hit_iff (ht.keys e he) hk
  unfold HashTable.set
  by_cases hany : t.any (hit hash eq k) = true
  · -- The entry keeps its key, so the values of the keys stay.
    have hkey : ∀ e, (if hit hash eq k e = true then (e.1, v) else e).1 = e.1 := by
      intro e
      split <;> rfl
    rw [if_pos hany]
    refine ⟨?_, ?_, ?_⟩
    · intro e' he'
      obtain ⟨e, he, rfl⟩ := List.mem_map.mp he'
      rw [hkey]
      exact ht.keys e he
    · rw [List.map_map]
      have hsame : ((fun e : κ × ν => val e.1) ∘ fun e =>
          if hit hash eq k e = true then (e.1, v) else e) = fun e => val e.1 := by
        funext e
        exact congrArg val (hkey e)
      rw [hsame]
      exact ht.nodup
    · intro c u
      simp only [List.mem_map, exists_exists_and_eq_and, hkey]
      by_cases hc : c = val k
      · subst hc
        rw [Function.update_self, Option.some.injEq]
        obtain ⟨e, he, hehit⟩ := List.any_eq_true.mp hany
        constructor
        · intro huv
          refine ⟨e, he, (hhit e he).mp hehit, ?_⟩
          rw [if_pos hehit]
          exact huv
        · intro hex
          obtain ⟨e', he', hval, hu⟩ := hex
          rw [if_pos ((hhit e' he').mpr hval)] at hu
          exact hu
      · rw [Function.update_of_ne hc, ht.entry]
        refine exists_congr fun e => and_congr_right fun he => and_congr_right fun hval => ?_
        have hmiss : ¬ hit hash eq k e = true := fun hno => hc (hval ▸ (hhit e he).mp hno)
        rw [if_neg hmiss]
  · have hmiss : ∀ e ∈ t, val e.1 ≠ val k := by
      intro e he hval
      exact hany (List.any_eq_true.mpr ⟨e, he, (hhit e he).mpr hval⟩)
    rw [if_neg hany]
    refine ⟨?_, ?_, ?_⟩
    · intro e he
      rcases List.mem_append.mp he with he | he
      · exact ht.keys e he
      · rw [List.mem_singleton.mp he]
        exact hk
    · rw [List.map_append, List.nodup_append]
      refine ⟨ht.nodup, List.nodup_singleton _, ?_⟩
      intro c hc d hd
      obtain ⟨e, he, rfl⟩ := List.mem_map.mp hc
      rw [List.mem_singleton.mp hd]
      exact hmiss e he
    · intro c u
      simp only [List.mem_append, List.mem_singleton, or_and_right, exists_or,
        exists_eq_left]
      by_cases hc : c = val k
      · subst hc
        rw [Function.update_self, Option.some.injEq]
        refine ⟨fun huv => Or.inr ⟨rfl, huv⟩, ?_⟩
        intro hex
        rcases hex with ⟨e, he, hval, -⟩ | ⟨-, huv⟩
        · exact absurd hval (hmiss e he)
        · exact huv
      · rw [Function.update_of_ne hc, ht.entry]
        exact (or_iff_left fun hno => hc hno.1.symm).symm

/-- **Deleting** a key. -/
theorem Holds.del (h : Lawful hash eq val K) (ht : Holds val K t f) (hk : K k) :
    Holds val K (HashTable.del hash eq t k) (Function.update f (val k) none) := by
  have hsub : (HashTable.del hash eq t k).Sublist t := List.eraseP_sublist
  -- Only the entry of the key is gone: there is no other that it hits.
  have hrest : ∀ e, e ∈ HashTable.del hash eq t k ↔ e ∈ t ∧ val e.1 ≠ val k := by
    intro e
    have hnodup : t.Nodup := ht.nodup.of_map _
    constructor
    · intro he
      refine ⟨hsub.mem he, ?_⟩
      intro hval
      have hhit := (h.hit_iff (ht.keys e (hsub.mem he)) hk).mpr hval
      obtain ⟨e', l₁, l₂, -, hhit', rfl, hdel⟩ := List.exists_of_eraseP (hsub.mem he) hhit
      have hmem' : e' ∈ l₁ ++ e' :: l₂ := by simp
      have hval' := (h.hit_iff (ht.keys e' hmem') hk).mp hhit'
      obtain rfl := ht.unique (hsub.mem he) hmem' (hval.trans hval'.symm)
      unfold HashTable.del at he
      rw [hdel] at he
      rw [List.nodup_middle, List.nodup_cons] at hnodup
      exact hnodup.1 he
    · intro hmem
      have hmiss : ¬ hit hash eq k e = true := fun hno =>
        hmem.2 ((h.hit_iff (ht.keys e hmem.1) hk).mp hno)
      exact (List.mem_eraseP_of_neg hmiss).mpr hmem.1
  refine ⟨fun e he => ht.keys e (hsub.mem he), ht.nodup.sublist (hsub.map _), ?_⟩
  intro c v
  simp only [hrest]
  by_cases hc : c = val k
  · subst hc
    rw [Function.update_self]
    refine iff_of_false (fun hno => by cases hno) ?_
    intro hex
    obtain ⟨e, he, hval, -⟩ := hex
    exact he.2 hval
  · rw [Function.update_of_ne hc, ht.entry]
    refine exists_congr fun e => ⟨?_, ?_⟩
    · intro he
      exact ⟨⟨he.1, fun hno => hc (he.2.1.symm.trans hno)⟩, he.2⟩
    · intro he
      exact ⟨he.1.1, he.2⟩

theorem Holds.apply (h : Lawful hash eq val K) (ht : Holds val K t f) {op : Op κ ν}
    (hk : K op.key) : Holds val K (HashTable.apply hash eq t op) (update val f op) := by
  cases op with
  | set k v => exact ht.set h hk v
  | del k => exact ht.del h hk

/-- **A whole run** keeps what one operation keeps. -/
theorem Holds.foldl (h : Lawful hash eq val K) : ∀ {ops : List (Op κ ν)} {t : List (κ × ν)}
    {f : ι → Option ν}, Holds val K t f → (∀ op ∈ ops, K op.key) →
    Holds val K (ops.foldl (HashTable.apply hash eq) t) (ops.foldl (update val) f)
  | [], _, _, ht, _ => ht
  | op :: _, _, _, ht, hops =>
    (ht.apply h (hops op (List.mem_cons_self ..))).foldl h
      fun op' hop' => hops op' (List.mem_cons_of_mem _ hop')

/-- **A table of keys that stand for values** holds what a function of the values would. -/
theorem run_spec (h : Lawful hash eq val K) {ops : List (Op κ ν)} (hops : ∀ op ∈ ops, K op.key) :
    Holds val K (run hash eq ops) (spec val ops) :=
  holds_nil.foldl h hops

end HashTable
