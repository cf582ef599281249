import PyBitcoinKernel.Miner.Coinbase
import PyBitcoinKernel.Miner.MerkleRoot

/-!
# Mining a block

`mine_block` puts a coinbase in front of the transactions it is given, computes their
Merkle root, and tries nonces from 0 on until the hash of the header is at most the
target. The loop has no bound of its own; it ends at the latest where the next nonce does
not fit its field (`mineLoop_eq_ok_iff`). None of this looks into the transactions or the
previous hash, which may be any bytes:

> `mineBlock_bytes_iff`: the header that is returned has the least nonce that meets the
> target.

`Mined` says what a block is that was mined so, in terms of the decoded block alone: its
links, its proof of work for the target that its own `bits` announce, its first nonce,
its Merkle root and its coinbase.

> `mineBlock_eq_ok_iff`: of a hash and encoded transactions, `mine_block` returns exactly
> the encodings of such blocks.

Since encodings can be read back (`blockFormat`), so can what was mined.
-/

namespace PyBitcoinKernel.Miner

open PyBitcoinKernel.Script (Bytes)
open Wire (Format)
open LittleEndian (fromLE toLE)
open Merkle (build)

/-! ## Blocks on the wire -/

/-- A header as it is written: 80 bytes. -/
structure BlockHeader where
  version : PackUnit.int.Field
  prevHash : Hash256
  merkleRoot : Hash256
  time : PackUnit.uint.Field
  bits : PackUnit.uint.Field
  nonce : PackUnit.uint.Field

/-- A block whose transactions have no witness data. -/
structure Block where
  header : BlockHeader
  transactions : Sized Tx

def BlockHeader.equiv : PackUnit.int.Field × Hash256 × Hash256 × PackUnit.uint.Field ×
    PackUnit.uint.Field × PackUnit.uint.Field ≃ BlockHeader where
  toFun p := ⟨p.1, p.2.1, p.2.2.1, p.2.2.2.1, p.2.2.2.2.1, p.2.2.2.2.2⟩
  invFun h := (h.version, h.prevHash, h.merkleRoot, h.time, h.bits, h.nonce)
  left_inv _ := rfl
  right_inv _ := rfl

def Block.equiv : BlockHeader × Sized Tx ≃ Block where
  toFun p := ⟨p.1, p.2⟩
  invFun b := (b.header, b.transactions)
  left_inv _ := rfl
  right_inv _ := rfl

/-- The fields of a header have no lengths in front of them. -/
def headerFormat : Format UInt8 BlockHeader :=
  ((packed .int).prod (hashFormat.prod (hashFormat.prod ((packed .uint).prod
    ((packed .uint).prod (packed .uint)))))).map BlockHeader.equiv

/-- The header, and then the transactions behind their count. -/
def blockFormat : Format UInt8 Block :=
  (headerFormat.prod (compactSize.counted txFormat)).map Block.equiv

theorem enc_headerFormat (h : BlockHeader) : headerFormat.enc h =
    (packed .int).enc h.version ++ (h.prevHash.1 ++ (h.merkleRoot.1 ++
      ((packed .uint).enc h.time ++ ((packed .uint).enc h.bits ++
        (packed .uint).enc h.nonce)))) := rfl

theorem enc_blockFormat (b : Block) : blockFormat.enc b =
    headerFormat.enc b.header ++ (compactSize.counted txFormat).enc b.transactions := rfl

theorem length_packed (u : PackUnit) (v : u.Field) : ((packed u).enc v).length = u.width :=
  LittleEndian.toLE_length _ _

theorem length_headerFormat (h : BlockHeader) : (headerFormat.enc h).length = 80 := by
  rw [enc_headerFormat]
  simp only [List.length_append, length_packed, h.prevHash.2, h.merkleRoot.2]
  rfl

/-! ## The code -/

def REGTEST_BITS : Int := 0x207FFFFF

/-- What `REGTEST_BITS` announces (`target_eq`), written out as the source has it. -/
def REGTEST_TARGET : Nat := 0x7FFFFF <<< (8 * (0x20 - 3))

def REGTEST_GENESIS_TIME : Int := 1296688602

variable (sha256 : Bytes → Hash256)

/-- The header with this nonce. -/
def packHeader (prevHash root : Bytes) (timestamp nonce : Int) : MinerResult Bytes := do
  let version ← structPack .int 4
  let timestamp ← structPack .uint timestamp
  let bits ← structPack .uint REGTEST_BITS
  let nonce ← structPack .uint nonce
  return version ++ prevHash ++ root ++ timestamp ++ bits ++ nonce

/-- `int.from_bytes(block_hash, "little")`. -/
def hashNumber (header : Bytes) : Nat := fromLE (dsha256 sha256 header).1

theorem packHeader_eq (prevHash root : Bytes) (timestamp nonce : Int) :
    packHeader prevHash root timestamp nonce = (structPack .int 4).bind fun version =>
      (structPack .uint timestamp).bind fun timestamp =>
        (structPack .uint REGTEST_BITS).bind fun bits => (structPack .uint nonce).bind fun nonce =>
          .ok (version ++ prevHash ++ root ++ timestamp ++ bits ++ nonce) := rfl

/-- The bytes of a header, its numbers little-endian. -/
def headerBytes (prevHash root : Bytes) (timestamp nonce : Nat) : Bytes :=
  toLE 4 4 ++ prevHash ++ root ++ toLE 4 timestamp ++ toLE 4 0x207FFFFF ++ toLE 4 nonce

/-- What was packed fits its field. -/
theorem fits_of_packHeader {prevHash root : Bytes} {timestamp nonce : Int} {b : Bytes}
    (h : packHeader prevHash root timestamp nonce = .ok b) :
    PackUnit.uint.Fits timestamp ∧ PackUnit.uint.Fits nonce := by
  rw [packHeader_eq] at h
  obtain ⟨_, -, h⟩ := bind_eq_ok_iff.mp h
  obtain ⟨_, htime, h⟩ := bind_eq_ok_iff.mp h
  obtain ⟨_, -, h⟩ := bind_eq_ok_iff.mp h
  obtain ⟨_, hnonce, -⟩ := bind_eq_ok_iff.mp h
  obtain ⟨time, rfl, -⟩ := (structPack_writes _ _ _).mp htime
  obtain ⟨nonce, rfl, -⟩ := (structPack_writes _ _ _).mp hnonce
  exact ⟨time.2, nonce.2⟩

/-- `while True`, from this nonce on. -/
def mineLoop (prevHash root : Bytes) (timestamp : Int) (nonce : Nat) : MinerResult Bytes :=
  match h : packHeader prevHash root timestamp nonce with
  | .error e => .error e
  | .ok header =>
    if hashNumber sha256 header ≤ REGTEST_TARGET then .ok header
    else mineLoop prevHash root timestamp (nonce + 1)
  termination_by 2 ^ 32 - nonce
  decreasing_by
    have hfits : (nonce : Int) < 0 + 256 ^ 4 := (fits_of_packHeader h).2.2
    omega

/-- `mine_block`. The txids are computed from the bytes of the transactions. -/
def mineBlock (prevHash : Bytes) (height : Nat) (extraTxs : List Bytes) : MinerResult Bytes := do
  let coinbase ← makeCoinbase height SUBSIDY
  let txs := coinbase :: extraTxs
  let root ← merkleRoot sha256 (txs.map fun tx => (dsha256 sha256 tx).1)
  let header ← mineLoop sha256 prevHash root (REGTEST_GENESIS_TIME + height) 0
  let count ← serVarint txs.length
  return header ++ count ++ txs.flatten

/-! ## What was mined -/

/-- The target that the `bits` of a header stand for: a mantissa and an exponent. -/
def compactTarget (bits : Nat) : Nat := bits % 2 ^ 23 * 256 ^ (bits / 2 ^ 24 - 3)

/-- The header's hash is at most its target. -/
def BlockHeader.Work (h : BlockHeader) : Prop :=
  hashNumber sha256 (headerFormat.enc h) ≤ compactTarget h.bits.1.toNat

/-- The header is the one for these links, this time and this nonce. -/
structure BlockHeader.Of (h : BlockHeader) (prevHash root : Hash256) (timestamp nonce : Int) :
    Prop where
  version : h.version.1 = 4
  prevHash : h.prevHash = prevHash
  merkleRoot : h.merkleRoot = root
  time : h.time.1 = timestamp
  bits : h.bits.1 = REGTEST_BITS
  nonce : h.nonce.1 = nonce

/-- The txids of a block. -/
def txids (txs : List Tx) : List Hash256 := txs.map fun t => dsha256 sha256 (txFormat.enc t)

/-- The root of the tree of the txids. -/
def txRoot (txs : List Tx) (h : txids sha256 txs ≠ []) : Hash256 :=
  (build (Nat.clog 2 txs.length) (txids sha256 txs) h).root (combine sha256)

/-- A block mined on top of `prevHash`. -/
structure Mined (prevHash : Hash256) (height : Nat) (extra : List Tx) (b : Block) : Prop where
  height_pos : 0 < height
  /-- The coinbase, and then what was given. -/
  transactions : ∃ coinbase, IsCoinbase height coinbase ∧ b.transactions.1 = coinbase :: extra
  header : ∃ h nonce, b.header.Of prevHash (txRoot sha256 b.transactions.1 h)
    (REGTEST_GENESIS_TIME + height) nonce
  work : b.header.Work sha256
  /-- No smaller nonce would have done. -/
  first : ∀ h : BlockHeader, h.Of b.header.prevHash b.header.merkleRoot b.header.time.1 h.nonce.1 →
    h.nonce.1 < b.header.nonce.1 → ¬ h.Work sha256

/-! ## The loop -/

theorem target_eq : compactTarget REGTEST_BITS.toNat = REGTEST_TARGET := by decide

theorem work_iff {h : BlockHeader} (hbits : h.bits.1 = REGTEST_BITS) :
    h.Work sha256 ↔ hashNumber sha256 (headerFormat.enc h) ≤ REGTEST_TARGET := by
  unfold BlockHeader.Work
  rw [hbits, target_eq]

/-- A header is packed if there is one with these fields. -/
theorem packHeader_eq_ok_iff {prevHash root : Hash256} {timestamp nonce : Int} {b : Bytes} :
    packHeader prevHash.1 root.1 timestamp nonce = .ok b ↔
      ∃ h : BlockHeader, h.Of prevHash root timestamp nonce ∧ headerFormat.enc h = b := by
  rw [packHeader_eq]
  constructor
  · intro hb
    obtain ⟨_, hversion, hb⟩ := bind_eq_ok_iff.mp hb
    obtain ⟨version, hv, rfl⟩ := (structPack_writes _ _ _).mp hversion
    obtain ⟨_, htime, hb⟩ := bind_eq_ok_iff.mp hb
    obtain ⟨time, ht, rfl⟩ := (structPack_writes _ _ _).mp htime
    obtain ⟨_, hbits, hb⟩ := bind_eq_ok_iff.mp hb
    obtain ⟨bits, hbi, rfl⟩ := (structPack_writes _ _ _).mp hbits
    obtain ⟨_, hnonce, hb⟩ := bind_eq_ok_iff.mp hb
    obtain ⟨nonce', hn, rfl⟩ := (structPack_writes _ _ _).mp hnonce
    refine ⟨⟨version, prevHash, root, time, bits, nonce'⟩, ⟨hv, rfl, rfl, ht, hbi, hn⟩, ?_⟩
    rw [← Except.ok.inj hb, enc_headerFormat]
    simp only [List.append_assoc]
  · rintro ⟨h, ⟨hversion, rfl, rfl, htime, hbits, hnonce⟩, rfl⟩
    refine bind_eq_ok_iff.mpr ⟨_, (structPack_writes _ _ _).mpr ⟨_, hversion, rfl⟩, ?_⟩
    refine bind_eq_ok_iff.mpr ⟨_, (structPack_writes _ _ _).mpr ⟨_, htime, rfl⟩, ?_⟩
    refine bind_eq_ok_iff.mpr ⟨_, (structPack_writes _ _ _).mpr ⟨_, hbits, rfl⟩, ?_⟩
    refine bind_eq_ok_iff.mpr ⟨_, (structPack_writes _ _ _).mpr ⟨_, hnonce, rfl⟩, ?_⟩
    rw [enc_headerFormat]
    simp only [List.append_assoc]

/-- There is one header for each nonce. -/
theorem BlockHeader.Of.unique {h h' : BlockHeader} {prevHash root : Hash256}
    {timestamp nonce : Int} (ho : h.Of prevHash root timestamp nonce)
    (ho' : h'.Of prevHash root timestamp nonce) : h = h' := by
  obtain ⟨version, _, _, time, bits, nonce⟩ := h
  obtain ⟨version', _, _, time', bits', nonce'⟩ := h'
  obtain ⟨hv, hp, hr, ht, hb, hn⟩ := ho
  obtain ⟨hv', hp', hr', ht', hb', hn'⟩ := ho'
  rw [BlockHeader.mk.injEq]
  exact ⟨Subtype.ext (hv.trans hv'.symm), hp.trans hp'.symm, hr.trans hr'.symm,
    Subtype.ext (ht.trans ht'.symm), Subtype.ext (hb.trans hb'.symm),
    Subtype.ext (hn.trans hn'.symm)⟩

/-- A header is packed where its numbers fit. -/
theorem packHeader_natCast_eq_ok_iff {prevHash root : Bytes} {timestamp nonce : Nat} {b : Bytes} :
    packHeader prevHash root timestamp nonce = .ok b ↔
      timestamp < 2 ^ 32 ∧ nonce < 2 ^ 32 ∧ headerBytes prevHash root timestamp nonce = b := by
  have hversion : structPack .int 4 = .ok (toLE 4 4) := by decide
  have hbits : structPack .uint REGTEST_BITS = .ok (toLE 4 0x207FFFFF) := by decide
  constructor
  · intro h
    obtain ⟨htime, hnonce⟩ := fits_of_packHeader h
    have htime' : timestamp < 2 ^ 32 := by
      have hhi : (timestamp : Int) < 0 + 256 ^ 4 := htime.2
      omega
    have hnonce' : nonce < 2 ^ 32 := by
      have hhi : (nonce : Int) < 0 + 256 ^ 4 := hnonce.2
      omega
    rw [packHeader_eq, hversion, hbits, structPack_natCast rfl htime',
      structPack_natCast rfl hnonce'] at h
    exact ⟨htime', hnonce', Except.ok.inj h⟩
  · rintro ⟨htime, hnonce, rfl⟩
    rw [packHeader_eq, hversion, hbits, structPack_natCast rfl htime, structPack_natCast rfl hnonce]
    rfl

/-- The nonce does: its header's hash is at most the target that the header announces. -/
def Solves (prevHash root : Bytes) (timestamp nonce : Nat) : Prop :=
  nonce < 2 ^ 32 ∧
    hashNumber sha256 (headerBytes prevHash root timestamp nonce) ≤ compactTarget 0x207FFFFF

/-- **The loop finds the first nonce that does**, from where it starts. -/
theorem mineLoop_eq_ok_iff {prevHash root : Bytes} {timestamp n : Nat} {b : Bytes} :
    mineLoop sha256 prevHash root timestamp n = .ok b ↔ timestamp < 2 ^ 32 ∧
      ∃ k, IsLeast {j | n ≤ j ∧ Solves sha256 prevHash root timestamp j} k ∧
        headerBytes prevHash root timestamp k = b := by
  induction hm : 2 ^ 32 - n using Nat.strong_induction_on generalizing n with
  | _ m ih =>
    rw [mineLoop]
    split
    next e hpack =>
      -- The nonce does not fit, and neither does any later one.
      refine iff_of_false (fun hno => by cases hno) ?_
      rintro ⟨htime, k, ⟨⟨hle, hk, -⟩, -⟩, -⟩
      have hok := packHeader_natCast_eq_ok_iff.mpr
        ⟨htime, hle.trans_lt hk, (rfl : headerBytes prevHash root timestamp n = _)⟩
      rw [hok] at hpack
      cases hpack
    next header hpack =>
      obtain ⟨htime, hn, rfl⟩ := packHeader_natCast_eq_ok_iff.mp hpack
      split
      next hwork =>
        have hsolves : Solves sha256 prevHash root timestamp n := ⟨hn, target_eq ▸ hwork⟩
        constructor
        · intro hb
          exact ⟨htime, n, ⟨⟨Nat.le_refl n, hsolves⟩, fun j hj => hj.1⟩, Except.ok.inj hb⟩
        · rintro ⟨-, k, hk, rfl⟩
          rw [Nat.le_antisymm (hk.2 ⟨Nat.le_refl n, hsolves⟩) hk.1.1]
      next hwork =>
        have hlater : {j | n ≤ j ∧ Solves sha256 prevHash root timestamp j} =
            {j | n + 1 ≤ j ∧ Solves sha256 prevHash root timestamp j} := by
          ext j
          refine and_congr_left fun hj => ⟨fun hle => ?_, Nat.le_of_succ_le⟩
          refine Nat.lt_of_le_of_ne hle ?_
          rintro rfl
          exact hwork (target_eq ▸ hj.2)
        rw [hlater]
        exact ih _ (by omega) rfl

/-- What a header says is in its bytes. -/
theorem BlockHeader.Of.enc {h : BlockHeader} {prevHash root : Hash256} {timestamp nonce : Nat}
    (ho : h.Of prevHash root timestamp nonce) :
    headerFormat.enc h = headerBytes prevHash.1 root.1 timestamp nonce := by
  have hpack := packHeader_eq_ok_iff.mpr ⟨h, ho, rfl⟩
  exact (packHeader_natCast_eq_ok_iff.mp hpack).2.2.symm

/-- A header does exactly if its nonce does. -/
theorem solves_iff {h : BlockHeader} {prevHash root : Hash256} {timestamp nonce : Nat}
    (ho : h.Of prevHash root timestamp nonce) :
    Solves sha256 prevHash.1 root.1 timestamp nonce ↔ h.Work sha256 := by
  have hnonce : nonce < 2 ^ 32 := by
    have hfits : PackUnit.uint.Fits nonce := ho.nonce ▸ h.nonce.2
    have hhi : (nonce : Int) < 0 + 256 ^ 4 := hfits.2
    omega
  rw [work_iff sha256 ho.bits, ho.enc]
  exact and_iff_right hnonce

/-- It has the first nonce that does exactly if no header with a smaller one does. -/
theorem isLeast_iff {h : BlockHeader} {prevHash root : Hash256} {timestamp nonce : Nat}
    (ho : h.Of prevHash root timestamp nonce) :
    IsLeast {k | Solves sha256 prevHash.1 root.1 timestamp k} nonce ↔ h.Work sha256 ∧
      ∀ h' : BlockHeader, h'.Of h.prevHash h.merkleRoot h.time.1 h'.nonce.1 →
        h'.nonce.1 < h.nonce.1 → ¬ h'.Work sha256 := by
  rw [ho.prevHash, ho.merkleRoot, ho.time, ho.nonce]
  constructor
  · rintro ⟨hsolves, hleast⟩
    refine ⟨(solves_iff sha256 ho).mp hsolves, ?_⟩
    intro h' ho' hlt hwork
    obtain ⟨k, hk⟩ := Int.eq_ofNat_of_zero_le (show 0 ≤ h'.nonce.1 from h'.nonce.2.1)
    rw [hk] at ho' hlt
    have hle := hleast ((solves_iff sha256 ho').mpr hwork)
    omega
  · rintro ⟨hwork, hfirst⟩
    refine ⟨(solves_iff sha256 ho).mpr hwork, ?_⟩
    intro k hk
    -- The same header with the nonce `k` would have been the first.
    refine Nat.le_of_not_lt fun hlt => ?_
    have hhi : (k : Int) < 0 + 256 ^ 4 := by
      have := hk.1
      omega
    have ho' : BlockHeader.Of { h with nonce := ⟨k, Int.natCast_nonneg k, hhi⟩ } prevHash root
        timestamp k := ⟨ho.version, ho.prevHash, ho.merkleRoot, ho.time, ho.bits, rfl⟩
    have hbelow : (k : Int) < nonce := by exact_mod_cast hlt
    exact hfirst _ ho' hbelow ((solves_iff sha256 ho').mp hk)

/-! ## The block -/

theorem mineBlock_eq (prevHash : Bytes) (height : Nat) (extraTxs : List Bytes) :
    mineBlock sha256 prevHash height extraTxs = (makeCoinbase height SUBSIDY).bind fun coinbase =>
      (merkleRoot sha256 ((coinbase :: extraTxs).map fun tx => (dsha256 sha256 tx).1)).bind
        fun root => (mineLoop sha256 prevHash root (REGTEST_GENESIS_TIME + height) 0).bind
          fun header => (serVarint (coinbase :: extraTxs).length).bind fun count =>
            .ok (header ++ count ++ (coinbase :: extraTxs).flatten) := rfl

/-- The tree is found by its depth and its hashes. -/
theorem root_build_congr {d d' : Nat} {hashes hashes' : List Hash256} {h : hashes ≠ []}
    {h' : hashes' ≠ []} (hd : d = d') (hhashes : hashes = hashes') :
    (build d hashes h).root (combine sha256) = (build d' hashes' h').root (combine sha256) := by
  subst hd hhashes
  rfl

/-- The root of the tree of the hashes of some transactions, a first one and the rest. -/
def bytesRoot (first : Bytes) (rest : List Bytes) : Hash256 :=
  (build (Nat.clog 2 (rest.length + 1)) ((first :: rest).map (dsha256 sha256))
    (List.cons_ne_nil _ _)).root (combine sha256)

/-- The root that is computed is the root of the tree of the txids. -/
theorem merkleRoot_hashes (first : Bytes) (rest : List Bytes) :
    merkleRoot sha256 ((first :: rest).map fun tx => (dsha256 sha256 tx).1) =
      .ok (bytesRoot sha256 first rest).1 := by
  have hbytes : (first :: rest).map (fun tx => (dsha256 sha256 tx).1) =
      bytesOf ((first :: rest).map (dsha256 sha256)) := by
    rw [bytesOf, List.map_map]
    rfl
  have hlen : ((first :: rest).map (dsha256 sha256)).length = rest.length + 1 :=
    List.length_map _
  have hroot := merkleRoot_bytesOf sha256 ((first :: rest).map (dsha256 sha256))
    (List.cons_ne_nil _ _)
  rw [hbytes, hroot, bytesRoot, root_build_congr sha256 (by rw [hlen]) rfl]

/-- The timestamp of a block at this height. -/
def timeAt (height : Nat) : Nat := 1296688602 + height

theorem timeAt_eq (height : Nat) : REGTEST_GENESIS_TIME + height = (timeAt height : Int) := by
  rw [timeAt, Nat.cast_add]
  rfl

/-- Heights above this have no timestamp. -/
theorem height_lt {height : Nat} (h : timeAt height < 2 ^ 32) : height < 128 * 256 ^ 74 := by
  unfold timeAt at h
  omega

/-- **What `mine_block` returns**, whatever bytes it is given: a header with the first nonce
that meets the target, the number of transactions, the coinbase, and the bytes given. -/
theorem mineBlock_bytes_iff (prevHash : Bytes) (height : Nat) (extraTxs : List Bytes)
    (block : Bytes) :
    mineBlock sha256 prevHash height extraTxs = .ok block ↔
      0 < height ∧ timeAt height < 2 ^ 32 ∧ extraTxs.length + 1 < 2 ^ 64 ∧
        ∃ (coinbase : Tx) (nonce : Nat), IsCoinbase height coinbase ∧
          IsLeast {k | Solves sha256 prevHash (bytesRoot sha256 (txFormat.enc coinbase) extraTxs).1
            (timeAt height) k} nonce ∧
          headerBytes prevHash (bytesRoot sha256 (txFormat.enc coinbase) extraTxs).1 (timeAt height)
            nonce ++ encSize (extraTxs.length + 1) ++
              (txFormat.enc coinbase :: extraTxs).flatten = block := by
  rw [mineBlock_eq, timeAt_eq]
  constructor
  · intro hblock
    -- Every step was a success.
    obtain ⟨cb, hcb, hblock⟩ := bind_eq_ok_iff.mp hblock
    obtain ⟨root, hroot, hblock⟩ := bind_eq_ok_iff.mp hblock
    obtain ⟨header, hheader, hblock⟩ := bind_eq_ok_iff.mp hblock
    obtain ⟨count, hcount, hblock⟩ := bind_eq_ok_iff.mp hblock
    have hpos : 0 < height := by
      refine Nat.pos_of_ne_zero ?_
      rintro rfl
      rw [makeCoinbase_zero] at hcb
      cases hcb
    rw [merkleRoot_hashes] at hroot
    obtain rfl := Except.ok.inj hroot
    obtain ⟨htime, nonce, hleast, rfl⟩ := (mineLoop_eq_ok_iff sha256).mp hheader
    obtain ⟨t, ht, rfl⟩ := (makeCoinbase_eq_ok_iff hpos (height_lt htime)).mp hcb
    obtain ⟨hlen, rfl⟩ := serVarint_eq_ok_iff.mp hcount
    simp only [Nat.zero_le, true_and] at hleast
    exact ⟨hpos, htime, hlen, t, nonce, ht, hleast, Except.ok.inj hblock⟩
  · rintro ⟨hpos, htime, hlen, cb, nonce, hcb, hleast, rfl⟩
    refine bind_eq_ok_iff.mpr
      ⟨_, (makeCoinbase_eq_ok_iff hpos (height_lt htime)).mpr ⟨cb, hcb, rfl⟩, ?_⟩
    refine bind_eq_ok_iff.mpr ⟨_, merkleRoot_hashes sha256 _ _, ?_⟩
    refine bind_eq_ok_iff.mpr ⟨_, (mineLoop_eq_ok_iff sha256).mpr ⟨htime, nonce, ?_, rfl⟩, ?_⟩
    · simpa only [Nat.zero_le, true_and] using hleast
    · exact bind_eq_ok_iff.mpr ⟨_, serVarint_eq_ok_iff.mpr ⟨hlen, rfl⟩, rfl⟩

/-- The root of encoded transactions is that of their txids. -/
theorem bytesRoot_enc (t : Tx) (txs : List Tx) (h : txids sha256 (t :: txs) ≠ []) :
    bytesRoot sha256 (txFormat.enc t) (txs.map txFormat.enc) = txRoot sha256 (t :: txs) h := by
  have hids : (txFormat.enc t :: txs.map txFormat.enc).map (dsha256 sha256) =
      txids sha256 (t :: txs) := by
    rw [← List.map_cons (f := txFormat.enc), List.map_map]
    rfl
  exact root_build_congr sha256 (by rw [List.length_map, List.length_cons]) hids

/-- **`mine_block` returns the blocks mined**, and nothing else. -/
theorem mineBlock_eq_ok_iff (prevHash : Hash256) (height : Nat) (extra : List Tx)
    (block : Bytes) :
    mineBlock sha256 prevHash.1 height (extra.map txFormat.enc) = .ok block ↔
      ∃ b, Mined sha256 prevHash height extra b ∧ blockFormat.enc b = block := by
  rw [mineBlock_bytes_iff]
  have hne : ∀ t : Tx, txids sha256 (t :: extra) ≠ [] := fun t => List.cons_ne_nil _ _
  simp only [bytesRoot_enc sha256 _ _ (hne _), List.length_map]
  constructor
  · rintro ⟨hpos, htime, hlen, cb, nonce, hcb, hleast, rfl⟩
    obtain ⟨header, ho, henc⟩ := packHeader_eq_ok_iff.mp
      (packHeader_natCast_eq_ok_iff.mpr ⟨htime, hleast.1.1, rfl⟩)
    obtain ⟨hwork, hfirst⟩ := (isLeast_iff sha256 ho).mp hleast
    refine ⟨⟨header, ⟨cb :: extra, hlen⟩⟩, ⟨hpos, ⟨cb, hcb, rfl⟩,
      ⟨hne cb, nonce, timeAt_eq height ▸ ho⟩, hwork, hfirst⟩, ?_⟩
    rw [← henc, enc_blockFormat, Format.enc_counted, Format.encList_eq_flatten, List.append_assoc]
    rfl
  · rintro ⟨⟨header, txs, hlen⟩, ⟨hpos, ⟨cb, hcb, rfl⟩, ⟨_, nonce, ho⟩, hwork, hfirst⟩, rfl⟩
    rw [timeAt_eq] at ho
    obtain ⟨k, hk⟩ := Int.eq_ofNat_of_zero_le (show 0 ≤ header.nonce.1 from header.nonce.2.1)
    obtain rfl : nonce = k := ho.nonce.symm.trans hk
    have hhi : (timeAt height : Int) < 0 + 256 ^ 4 := (ho.time ▸ header.time.2 :
      PackUnit.uint.Fits _).2
    refine ⟨hpos, by omega, hlen, cb, k, hcb, (isLeast_iff sha256 ho).mpr ⟨hwork, hfirst⟩, ?_⟩
    rw [← ho.enc, enc_blockFormat, Format.enc_counted, Format.encList_eq_flatten, List.append_assoc]
    rfl

/-- **Mined blocks are read back**: what `mine_block` returns decodes, in front of any other
bytes, to a block mined on `prev_hash` with the transactions given. -/
theorem mineBlock_round_trip (prevHash : Hash256) (height : Nat) (extra : List Tx)
    (block : Bytes) :
    mineBlock sha256 prevHash.1 height (extra.map txFormat.enc) = .ok block ↔
      ∃ b, Mined sha256 prevHash height extra b ∧
        ∀ rest, blockFormat.dec (block ++ rest) = some (b, rest) := by
  rw [mineBlock_eq_ok_iff]
  exact exists_congr fun b => and_congr_right fun _ => blockFormat.enc_eq_iff

/-! ## When a block can be mined -/

/-- **When a block can be mined**, on whatever bytes and with whatever transactions: at
heights from 1 on that have a timestamp, if the transactions can be counted and some nonce
meets the target. It is then the first such nonce that the block has. -/
theorem mineBlock_isOk_iff (prevHash : Bytes) (height : Nat) (extraTxs : List Bytes) :
    ((∃ block, mineBlock sha256 prevHash height extraTxs = .ok block) ↔
      0 < height ∧ timeAt height < 2 ^ 32 ∧ extraTxs.length + 1 < 2 ^ 64 ∧
        ∃ (coinbase : Tx) (nonce : Nat), IsCoinbase height coinbase ∧
          Solves sha256 prevHash (bytesRoot sha256 (txFormat.enc coinbase) extraTxs).1
            (timeAt height) nonce) ∧
    ∀ block, mineBlock sha256 prevHash height extraTxs = .ok block →
      ∃ (coinbase : Tx) (nonce : Nat), IsCoinbase height coinbase ∧
        IsLeast {k | Solves sha256 prevHash (bytesRoot sha256 (txFormat.enc coinbase) extraTxs).1
          (timeAt height) k} nonce ∧
        block = headerBytes prevHash (bytesRoot sha256 (txFormat.enc coinbase) extraTxs).1
          (timeAt height) nonce ++ encSize (extraTxs.length + 1) ++
            (txFormat.enc coinbase :: extraTxs).flatten := by
  constructor
  · simp only [mineBlock_bytes_iff]
    constructor
    · rintro ⟨_, hpos, htime, hlen, cb, nonce, hcb, hleast, -⟩
      exact ⟨hpos, htime, hlen, cb, nonce, hcb, hleast.1⟩
    · rintro ⟨hpos, htime, hlen, cb, nonce, hcb, hsolves⟩
      -- Of the nonces that do, the loop stops at the least.
      classical
      have hsome : ∃ k, Solves sha256 prevHash
          (bytesRoot sha256 (txFormat.enc cb) extraTxs).1 (timeAt height) k := ⟨nonce, hsolves⟩
      exact ⟨_, hpos, htime, hlen, cb, Nat.find hsome, hcb,
        ⟨Nat.find_spec hsome, fun k hk => Nat.find_min' hsome hk⟩, rfl⟩
  · intro block hblock
    obtain ⟨-, -, -, cb, nonce, hcb, hleast, rfl⟩ :=
      (mineBlock_bytes_iff sha256 prevHash height extraTxs block).mp hblock
    exact ⟨cb, nonce, hcb, hleast, rfl⟩

end PyBitcoinKernel.Miner
