import Mathlib.Data.List.Nodup
import PyBitcoinKernel.Miner.Block

/-!
# Mining a chain

`mine_chain` mines one block after the other, each on top of the hash of the first 80
bytes of the one before. Those bytes are its header (`take_blockFormat`), so the blocks
form a chain:

> `mineChain_eq_ok_iff`: `mine_chain` returns exactly the encodings of the chains of mined
> blocks, of the length asked for, that start at the given hash and height.

Every block of such a chain has a coinbase of its own (`MinedChain.nodup_txs`), because the
height can be read off its script, so that no later block makes the outputs of an earlier
one once more. A chain can be continued from its tip (`mineChain_add`).
-/

namespace PyBitcoinKernel.Miner

open PyBitcoinKernel.Script (Bytes Instr)
open Wire (Format)

variable (sha256 : Bytes → Hash256)

/-! ## The code -/

/-- What the loop keeps: `blocks` and `prev`. -/
structure ChainState where
  blocks : List Bytes
  prev : Bytes

/-- The body of the loop. -/
def mineChainStep (s : ChainState) (height : Nat) : MinerResult ChainState := do
  let block ← mineBlock sha256 s.prev height []
  return ⟨s.blocks ++ [block], (dsha256 sha256 (block.take 80)).1⟩

/-- `range(start_height, start_height + num_blocks)` is empty where `num_blocks` is negative. -/
def mineChain (startHash : Bytes) (numBlocks : Int) (startHeight : Nat) :
    MinerResult (List Bytes) := do
  let s ← (List.range' startHeight numBlocks.toNat).foldlM (mineChainStep sha256) ⟨[], startHash⟩
  return s.blocks

/-! ## Chains of blocks -/

/-- The hash of a block: that of its header. -/
def blockHash (b : Block) : Hash256 := dsha256 sha256 (headerFormat.enc b.header)

/-- The blocks were mined one on top of the other, starting there. -/
def MinedChain : Hash256 → Nat → List Block → Prop
  | _, _, [] => True
  | prev, height, b :: bs =>
    Mined sha256 prev height [] b ∧ MinedChain (blockHash sha256 b) (height + 1) bs

/-- The hash that the next block is mined on. -/
def tipHash (start : Hash256) (bs : List Block) : Hash256 :=
  (bs.getLast?.map (blockHash sha256)).getD start

/-- A block begins with its header. -/
theorem take_blockFormat (b : Block) : (blockFormat.enc b).take 80 = headerFormat.enc b.header := by
  rw [enc_blockFormat, List.take_left' (length_headerFormat b.header)]

theorem tipHash_cons (start : Hash256) (b : Block) (bs : List Block) :
    tipHash sha256 start (b :: bs) = tipHash sha256 (blockHash sha256 b) bs := by
  unfold tipHash
  cases bs with
  | nil => rfl
  | cons c bs =>
    rw [List.getLast?_cons_cons, List.getLast?_eq_some_getLast (List.cons_ne_nil c bs)]
    rfl

/-! ## The loop -/

/-- One turn mines one block. -/
theorem mineChainStep_eq_ok_iff {blocks : List Bytes} {prev : Hash256} {height : Nat}
    {s : ChainState} :
    mineChainStep sha256 ⟨blocks, prev.1⟩ height = .ok s ↔
      ∃ b, Mined sha256 prev height [] b ∧
        s = ⟨blocks ++ [blockFormat.enc b], (blockHash sha256 b).1⟩ := by
  have hbind : mineChainStep sha256 ⟨blocks, prev.1⟩ height =
      (mineBlock sha256 prev.1 height ([].map txFormat.enc)).bind fun block =>
        .ok ⟨blocks ++ [block], (dsha256 sha256 (block.take 80)).1⟩ := rfl
  rw [hbind, bind_eq_ok_iff]
  constructor
  · rintro ⟨block, hblock, hs⟩
    obtain ⟨b, hb, rfl⟩ := (mineBlock_eq_ok_iff sha256 prev height [] block).mp hblock
    rw [take_blockFormat] at hs
    exact ⟨b, hb, (Except.ok.inj hs).symm⟩
  · rintro ⟨b, hb, rfl⟩
    refine ⟨_, (mineBlock_eq_ok_iff sha256 prev height [] _).mpr ⟨b, hb, rfl⟩, ?_⟩
    rw [take_blockFormat]
    rfl

theorem foldlM_cons (s : ChainState) (height : Nat) (heights : List Nat) :
    (height :: heights).foldlM (mineChainStep sha256) s =
      (mineChainStep sha256 s height).bind fun s' => heights.foldlM (mineChainStep sha256) s' :=
  List.foldlM_cons ..

/-- The loop mines a chain on top of where it stands. -/
theorem mineChainLoop_eq_ok_iff : ∀ {n height : Nat} {blocks : List Bytes} {prev : Hash256}
    {s : ChainState},
    (List.range' height n).foldlM (mineChainStep sha256) ⟨blocks, prev.1⟩ = .ok s ↔
      ∃ bs, bs.length = n ∧ MinedChain sha256 prev height bs ∧
        s = ⟨blocks ++ bs.map blockFormat.enc, (tipHash sha256 prev bs).1⟩
  | 0, height, blocks, prev, s => by
    constructor
    · intro h
      refine ⟨[], rfl, trivial, ?_⟩
      rw [← Except.ok.inj h, List.map_nil, List.append_nil]
      rfl
    · rintro ⟨bs, hlen, -, rfl⟩
      obtain rfl := List.length_eq_zero_iff.mp hlen
      rw [List.map_nil, List.append_nil]
      rfl
  | n + 1, height, blocks, prev, s => by
    rw [List.range'_succ, foldlM_cons, bind_eq_ok_iff]
    constructor
    · rintro ⟨_, hstep, h⟩
      obtain ⟨b, hb, rfl⟩ := (mineChainStep_eq_ok_iff sha256).mp hstep
      obtain ⟨bs, hlen, hbs, rfl⟩ := mineChainLoop_eq_ok_iff.mp h
      refine ⟨b :: bs, by rw [List.length_cons, hlen], ⟨hb, hbs⟩, ?_⟩
      rw [tipHash_cons, List.map_cons, List.append_assoc]
      rfl
    · rintro ⟨bs, hlen, hbs, rfl⟩
      cases bs with
      | nil => cases hlen
      | cons b bs =>
        refine ⟨_, (mineChainStep_eq_ok_iff sha256).mpr ⟨b, hbs.1, rfl⟩, ?_⟩
        refine mineChainLoop_eq_ok_iff.mpr ⟨bs, Nat.succ.inj hlen, hbs.2, ?_⟩
        rw [tipHash_cons, List.map_cons, List.append_assoc]
        rfl

/-- **`mine_chain` returns the chains of mined blocks**, and nothing else. -/
theorem mineChain_eq_ok_iff (startHash : Hash256) (numBlocks : Int) (startHeight : Nat)
    (blocks : List Bytes) :
    mineChain sha256 startHash.1 numBlocks startHeight = .ok blocks ↔
      ∃ bs, bs.length = numBlocks.toNat ∧ MinedChain sha256 startHash startHeight bs ∧
        bs.map blockFormat.enc = blocks := by
  have hbind : mineChain sha256 startHash.1 numBlocks startHeight =
      ((List.range' startHeight numBlocks.toNat).foldlM (mineChainStep sha256)
        ⟨[], startHash.1⟩).bind fun s => .ok s.blocks := rfl
  rw [hbind, bind_eq_ok_iff]
  constructor
  · rintro ⟨s, hs, hblocks⟩
    obtain ⟨bs, hlen, hbs, rfl⟩ := (mineChainLoop_eq_ok_iff sha256).mp hs
    exact ⟨bs, hlen, hbs, Except.ok.inj hblocks⟩
  · rintro ⟨bs, hlen, hbs, rfl⟩
    exact ⟨_, (mineChainLoop_eq_ok_iff sha256).mpr ⟨bs, hlen, hbs, rfl⟩, rfl⟩

/-! ## Coinbases -/

/-- A coinbase is one of one height only. -/
theorem IsCoinbase.height_inj {height height' : Nat} {t : Tx} (h : IsCoinbase height t)
    (h' : IsCoinbase height' t) : height = height' := by
  obtain ⟨push, hpush, ht⟩ := h
  obtain ⟨push', hpush', ht'⟩ := h'
  obtain ⟨v, hin, hin'⟩ : ∃ v, List.Forall₂ TxIn.Of [v] (coinbaseInputs push.encode) ∧
      List.Forall₂ TxIn.Of [v] (coinbaseInputs push'.encode) := by
    have hin := ht.inputs
    have hin' := ht'.inputs
    cases hv : t.inputs.1 with
    | nil => rw [hv] at hin; cases hin
    | cons v vs =>
      have hlen := hin.length_eq
      rw [hv] at hin hin' hlen
      obtain rfl : vs = [] := List.length_eq_zero_iff.mp (Nat.succ.inj hlen)
      exact ⟨v, hin, hin'⟩
  cases hin with
  | cons hv _ =>
    cases hin' with
    | cons hv' _ =>
      have hbytes : push.encode ++ [0x00] = push'.encode ++ [0x00] :=
        hv.2.2.1.symm.trans hv'.2.2.1
      have henc : push.encode ++ [] = push'.encode ++ [] := by
        rw [List.append_nil, List.append_nil]
        exact List.append_cancel_right hbytes
      have hread := Script.readInstr_encode push []
      rw [henc, Script.readInstr_encode] at hread
      simp only [Option.some.injEq, Prod.mk.injEq, and_true] at hread
      have hnum := hpush.pushes
      rw [← hread, hpush'.pushes, Option.some.injEq] at hnum
      exact_mod_cast hnum.symm

/-- The transactions of a chain, from the first block on. -/
def chainTxs (bs : List Block) : List Tx := bs.flatMap fun b => b.transactions.1

/-- Every transaction is the coinbase of one of the heights mined. -/
theorem MinedChain.coinbase_of_mem : ∀ {prev : Hash256} {height : Nat} {bs : List Block},
    MinedChain sha256 prev height bs → ∀ t ∈ chainTxs bs, ∃ k, height ≤ k ∧ IsCoinbase k t
  | _, _, [], _, t, ht => by cases ht
  | prev, height, b :: bs, h, t, ht => by
    obtain ⟨coinbase, hcoinbase, htxs⟩ := h.1.transactions
    rw [chainTxs, List.flatMap_cons, htxs, List.mem_append, List.mem_singleton] at ht
    rcases ht with rfl | ht
    · exact ⟨height, Nat.le_refl height, hcoinbase⟩
    · obtain ⟨k, hk, hcb⟩ := h.2.coinbase_of_mem t ht
      exact ⟨k, by omega, hcb⟩

/-- **No transaction is made twice**: coinbases of different heights differ. -/
theorem MinedChain.nodup_txs : ∀ {prev : Hash256} {height : Nat} {bs : List Block},
    MinedChain sha256 prev height bs → (chainTxs bs).Nodup
  | _, _, [], _ => List.nodup_nil
  | prev, height, b :: bs, h => by
    obtain ⟨coinbase, hcoinbase, htxs⟩ := h.1.transactions
    rw [chainTxs, List.flatMap_cons, htxs, List.singleton_append, List.nodup_cons]
    refine ⟨fun hmem => ?_, h.2.nodup_txs⟩
    obtain ⟨k, hk, hcb⟩ := h.2.coinbase_of_mem sha256 coinbase hmem
    have := hcoinbase.height_inj hcb
    omega

/-- The block is what the bytes decode to, whatever follows them. -/
def Decodes (b : Block) (block : Bytes) : Prop :=
  ∀ rest, blockFormat.dec (block ++ rest) = some (b, rest)

theorem forall₂_decodes {bs : List Block} {blocks : List Bytes} :
    List.Forall₂ Decodes bs blocks ↔ bs.map blockFormat.enc = blocks := by
  induction bs generalizing blocks with
  | nil =>
    constructor
    · intro h
      cases h
      rfl
    · rintro rfl
      exact List.Forall₂.nil
  | cons b bs ih =>
    constructor
    · intro h
      cases h with
      | cons hb hbs => rw [List.map_cons, blockFormat.enc_eq_iff.mpr hb, ih.mp hbs]
    · rintro rfl
      exact List.Forall₂.cons (blockFormat.enc_eq_iff.mp rfl) (ih.mpr rfl)

/-- **What `mine_chain` returns**: one block for each height, which decode to blocks mined
one on top of the other, and no transaction twice. -/
theorem mineChain_round_trip (startHash : Hash256) (numBlocks : Int) (startHeight : Nat)
    (blocks : List Bytes) :
    mineChain sha256 startHash.1 numBlocks startHeight = .ok blocks ↔
      ∃ bs, bs.length = numBlocks.toNat ∧ MinedChain sha256 startHash startHeight bs ∧
        ((chainTxs bs).map txFormat.enc).Nodup ∧ List.Forall₂ Decodes bs blocks := by
  rw [mineChain_eq_ok_iff]
  refine exists_congr fun bs => and_congr_right fun _ => and_congr_right fun hbs => ?_
  rw [forall₂_decodes]
  exact (and_iff_right (List.Nodup.map txFormat.enc_injective (hbs.nodup_txs sha256))).symm

/-! ## Going on from the tip -/

/-- The hash that `mine_chain` mines the next block on. -/
def chainTip (startHash : Bytes) (blocks : List Bytes) : Bytes :=
  match blocks.getLast? with
  | none => startHash
  | some block => (dsha256 sha256 (block.take 80)).1

theorem mineChainStep_eq (blocks : List Bytes) (prev : Bytes) (height : Nat) :
    mineChainStep sha256 ⟨blocks, prev⟩ height = (mineBlock sha256 prev height []).map
      fun block => ⟨blocks ++ [block], chainTip sha256 prev [block]⟩ := by
  show (mineBlock sha256 prev height []).bind _ = _
  cases mineBlock sha256 prev height [] with
  | error e => rfl
  | ok block => rfl

theorem chainTip_append (startHash : Bytes) (blocks blocks' : List Bytes) :
    chainTip sha256 startHash (blocks ++ blocks') =
      chainTip sha256 (chainTip sha256 startHash blocks) blocks' := by
  rcases List.eq_nil_or_concat' blocks' with rfl | ⟨bs, block, rfl⟩
  · rw [List.append_nil]
    rfl
  · unfold chainTip
    rw [← List.append_assoc, List.getLast?_concat, List.getLast?_concat]

/-- What was mined after these blocks, behind them. -/
def ChainState.after (blocks : List Bytes) (prev : Bytes) (s : ChainState) : ChainState :=
  ⟨blocks ++ s.blocks, chainTip sha256 prev s.blocks⟩

theorem ChainState.after_after (blocks blocks' : List Bytes) (prev : Bytes) (s : ChainState) :
    (s.after sha256 blocks' (chainTip sha256 prev blocks')).after sha256 blocks prev =
      s.after sha256 (blocks ++ blocks') (chainTip sha256 prev blocks') := by
  unfold after
  rw [chainTip_append, List.append_assoc]

/-- The loop knows of the past only the tip: it goes on as it would from there. -/
theorem mineChainLoop_eq : ∀ (heights : List Nat) (blocks : List Bytes) (prev : Bytes),
    heights.foldlM (mineChainStep sha256) ⟨blocks, prev⟩ =
      (heights.foldlM (mineChainStep sha256) ⟨[], prev⟩).map (ChainState.after sha256 blocks prev)
  | [], blocks, prev => by
    show Except.ok (ChainState.mk blocks prev) =
      Except.ok (ChainState.mk (blocks ++ []) (chainTip sha256 prev []))
    rw [List.append_nil]
    rfl
  | height :: heights, blocks, prev => by
    rw [foldlM_cons, foldlM_cons, mineChainStep_eq, mineChainStep_eq]
    cases mineBlock sha256 prev height [] with
    | error e => rfl
    | ok block =>
      have hfirst := mineChainLoop_eq heights (blocks ++ [block]) (chainTip sha256 prev [block])
      have hsecond := mineChainLoop_eq heights [block] (chainTip sha256 prev [block])
      refine hfirst.trans ?_
      show _ = (heights.foldlM (mineChainStep sha256)
        ⟨[block], chainTip sha256 prev [block]⟩).map _
      rw [hsecond]
      cases heights.foldlM (mineChainStep sha256) ⟨[], chainTip sha256 prev [block]⟩ with
      | error e => rfl
      | ok s => exact congrArg Except.ok (ChainState.after_after sha256 blocks [block] prev s).symm

/-- **A chain can be mined in two parts**, the second on the tip of the first: the blocks
are the same, and so are the failures. -/
theorem mineChain_add (startHash : Bytes) (m n startHeight : Nat) :
    mineChain sha256 startHash (m + n : Nat) startHeight =
      (mineChain sha256 startHash m startHeight).bind fun blocks =>
        (mineChain sha256 (chainTip sha256 startHash blocks) n (startHeight + m)).map
          (blocks ++ ·) := by
  have hloop : ∀ (prev : Bytes) (k height : Nat), mineChain sha256 prev (k : Nat) height =
      ((List.range' height k).foldlM (mineChainStep sha256) ⟨[], prev⟩).map ChainState.blocks := by
    intro prev k height
    show Except.bind ((List.range' height k).foldlM (mineChainStep sha256) ⟨[], prev⟩) _ = _
    cases (List.range' height k).foldlM (mineChainStep sha256) ⟨[], prev⟩ <;> rfl
  have hrange : List.range' startHeight (m + n) =
      List.range' startHeight m ++ List.range' (startHeight + m) n := by
    rw [List.range'_append_1]
  rw [hloop, hrange, List.foldlM_append, hloop]
  have hfirst := mineChainLoop_eq sha256 (List.range' startHeight m) [] startHash
  cases hm : (List.range' startHeight m).foldlM (mineChainStep sha256) ⟨[], startHash⟩ with
  | error e => rfl
  | ok s =>
    -- Where the first part ends, its blocks say what the tip is.
    rw [hm] at hfirst
    have htip : s.prev = chainTip sha256 startHash s.blocks :=
      congrArg ChainState.prev (Except.ok.inj hfirst)
    show ((List.range' (startHeight + m) n).foldlM (mineChainStep sha256) ⟨s.blocks, s.prev⟩).map _ =
      (mineChain sha256 (chainTip sha256 startHash s.blocks) n (startHeight + m)).map _
    rw [mineChainLoop_eq, hloop, htip]
    cases (List.range' (startHeight + m) n).foldlM (mineChainStep sha256)
      ⟨[], chainTip sha256 startHash s.blocks⟩ <;> rfl

end PyBitcoinKernel.Miner
