/-
The block bitmap of a fresh partition.

`partition_format` fills the tail of the bitmap with ones from the byte that holds
bit `block_bitmap_bit_len` on, and then clears the low bits of that byte again.
The loop that clears runs up to and including `block_bitmap_last_bit`, one bit too
far: the first bit past the end comes out clear, and when the boundary byte is
byte 0 the root directory's bit is lost with it.  Only when the bitmap fills its
sectors completely does the boundary byte lie outside what is written.
-/
import ZyOs.Kernel.Format
import ZyOs.Proofs.Inode
import ZyOs.Proofs.Bitmap

namespace ZyOs

open Library

/-! ### The sizes -/

/-- The number of usable blocks of a partition of `secCnt` sectors, in the size alone. -/
def usableBlocks (secCnt : Nat) : Nat := secCnt - 611 - (secCnt - 611 + 4095) / 4096

section Sizes

variable {secCnt : Nat}

theorem freeSects_eq (h1 : 613 ≤ secCnt) (h2 : secCnt < 2 ^ 32) :
    freeSects secCnt = secCnt - 611 := by
  have : 1 + 1 + inodeBitmapSects + inodeTableSects = 611 := by decide
  unfold freeSects sub32
  rw [this]
  omega

theorem divRoundUp_4096 {x : Nat} (h : x + 4095 < 2 ^ 32) :
    divRoundUp x bitsPerSector = (x + 4095) / 4096 := by
  unfold divRoundUp bitsPerSector
  rw [show x + 4096 - 1 = x + 4095 by omega, Nat.mod_eq_of_lt h]

/-- When no size wraps, the whole layout follows from the sector count. -/
theorem blockBitmapBitLen_eq (h1 : 613 ≤ secCnt) (h2 : secCnt + 3484 < 2 ^ 32) :
    blockBitmapBitLen secCnt = usableBlocks secCnt := by
  unfold blockBitmapBitLen usableBlocks sub32
  rw [freeSects_eq h1 (by omega), divRoundUp_4096 (by omega)]
  omega

theorem blockBitmapSects_eq {p : RawPartition} (h1 : 613 ≤ p.secCnt)
    (h2 : p.secCnt + 3484 < 2 ^ 32) :
    (formatSuperBlock p).blockBitmapSects = (blockBitmapBitLen p.secCnt + 4095) / 4096 := by
  refine divRoundUp_4096 ?_
  rw [blockBitmapBitLen_eq h1 h2]
  unfold usableBlocks
  omega

end Sizes

/-! ### The bitmap in the buffer -/

theorem clearBits_other (i lastBit : Nat) {k : Nat} (hk : k ≠ i) :
    ∀ (fuel bitIdx : Nat) (m : Mem), clearBits i lastBit fuel bitIdx m k = m k := by
  intro fuel
  induction fuel with
  | zero => intro bitIdx m; rfl
  | succ fuel ih =>
      intro bitIdx m
      unfold clearBits
      split
      · rw [ih, if_neg hk]
      · rfl

/-- In its byte the loop clears the bits from `bitIdx` to `lastBit`, both included. -/
theorem clearBits_bit (i : Nat) {lastBit j : Nat} (hlast : lastBit < 8) (hj : j < 8) :
    ∀ (fuel bitIdx : Nat) (m : Mem), lastBit + 1 ≤ bitIdx + fuel →
      (clearBits i lastBit fuel bitIdx m i).toBitVec.getLsbD j
        = ((m i).toBitVec.getLsbD j && !decide (bitIdx ≤ j ∧ j ≤ lastBit)) := by
  intro fuel
  induction fuel with
  | zero =>
      intro bitIdx m hfuel
      have : ¬ (bitIdx ≤ j ∧ j ≤ lastBit) := by omega
      simp [clearBits, this]
  | succ fuel ih =>
      intro bitIdx m hfuel
      unfold clearBits
      by_cases hle : bitIdx ≤ lastBit
      · rw [if_pos hle, ih _ _ (by omega), if_pos rfl,
          getLsbD_and_not_bitMask _ (by omega) hj, Bool.and_assoc, ← Bool.not_or]
        congr 2
        rw [← Bool.decide_or, decide_eq_decide]
        omega
      · have : ¬ (bitIdx ≤ j ∧ j ≤ lastBit) := by omega
        simp [if_neg hle, this]

/-- **Every bit of the bitmap `partition_format` builds.** -/
theorem formatBlockBitmap_bit {bitLen bufSize : Nat} {buf : Mem}
    (h : formatBlockBitmap bitLen bufSize = .ok buf) {i : Nat}
    (hi : i / 8 < bitLen / 8 + (512 - bitLen / 8 % 512)) :
    (buf (i / 8)).toBitVec.getLsbD (i % 8)
      = if i / 8 = bitLen / 8 then decide (bitLen < i) else decide (i = 0 ∨ bitLen < i) := by
  have hi8 : i % 8 < 8 := Nat.mod_lt _ (by decide)
  have hl8 : bitLen % 8 < 8 := Nat.mod_lt _ (by decide)
  have hsec : sectorSize = 512 := rfl
  simp only [formatBlockBitmap] at h
  split at h
  · exact absurd h (by simp)
  rw [pure_eq_ok, Except.ok.injEq] at h
  subst h
  simp only [hsec]
  by_cases hbyte : i / 8 = bitLen / 8
  · rw [if_pos hbyte, hbyte, clearBits_bit _ hl8 hi8 _ _ _ (by omega),
      Mem.fill_in (by omega) (by omega)]
    have hff : (0xff : UInt8).toBitVec.getLsbD (i % 8) = true := by
      interval_cases i % 8 <;> rfl
    rw [hff, Bool.true_and, ← decide_not, decide_eq_decide]
    omega
  · rw [if_neg hbyte, clearBits_other _ _ hbyte]
    by_cases hlt : i / 8 < bitLen / 8
    · rw [Mem.fill_out (Or.inl hlt)]
      have hbit : (orByte zeroMem 0 0x01 (i / 8)).toBitVec.getLsbD (i % 8) = decide (i = 0) := by
        unfold orByte zeroMem
        by_cases h0 : i / 8 = 0
        · rw [if_pos h0, show i = i % 8 by omega]
          interval_cases i % 8 <;> rfl
        · rw [if_neg h0]
          have : ¬ i = 0 := by omega
          simp [this]
      rw [hbit, decide_eq_decide]
      omega
    · rw [Mem.fill_in (by omega) hi]
      have hff : (0xff : UInt8).toBitVec.getLsbD (i % 8) = true := by
        interval_cases i % 8 <;> rfl
      rw [hff, eq_comm, decide_eq_true_eq]
      omega

theorem formatBlockBitmap_returns (bitLen : Nat) {bufSize : Nat}
    (h : bitLen / 8 + (512 - bitLen / 8 % 512) ≤ bufSize) :
    ∃ buf, formatBlockBitmap bitLen bufSize = .ok buf := by
  have hroom : ¬ bufSize < bitLen / 8 + (sectorSize - bitLen / 8 % sectorSize) := by
    unfold sectorSize
    omega
  simp only [formatBlockBitmap]
  rw [if_neg hroom]
  exact ⟨_, rfl⟩

/-! ### What is on the disk -/

/-- Bit `i` of the block bitmap on disk. -/
def diskBlockBit (p : RawPartition) (d : Disk) (i : Nat) : Bool :=
  (d (512 * (formatSuperBlock p).blockBitmapLba + i / 8)).toBitVec.getLsbD (i % 8)

/-- What a run of `partition_format` leaves behind, as far as a later mount looks at it. -/
structure Formatted (p : RawPartition) (pad : Mem) (d : Disk) (buf : Mem) : Prop where
  superBlock : ∀ k < 512, d (512 * (p.startLba + 1) + k) = (formatSuperBlock p).toMem pad k
  blockBits : ∀ k < (formatSuperBlock p).blockBitmapSects * 512,
    d (512 * (formatSuperBlock p).blockBitmapLba + k) = buf k
  onDrive : (formatSuperBlock p).dataStartLba ≤ maxLba
  readSuperBlock : ∀ m, ideRead d (p.startLba + 1) m 1
    = .ok (m.splice 0 (d.drop (512 * (p.startLba + 1))) (1 * 512))
  readBlockBits : ∀ m,
    ideRead d (formatSuperBlock p).blockBitmapLba m (formatSuperBlock p).blockBitmapSects
      = .ok (m.splice 0 (d.drop (512 * (formatSuperBlock p).blockBitmapLba))
        ((formatSuperBlock p).blockBitmapSects * 512))
  readInodeBits : ∀ m, ∃ r,
    ideRead d (formatSuperBlock p).inodeBitmapLba m (formatSuperBlock p).inodeBitmapSects = .ok r

section Disk

variable {p : RawPartition} {pad : Mem} {d d' : Disk}

theorem lba_order (p : RawPartition) :
    (formatSuperBlock p).blockBitmapLba = p.startLba + 2 ∧
    (formatSuperBlock p).inodeBitmapLba
      = (formatSuperBlock p).blockBitmapLba + (formatSuperBlock p).blockBitmapSects ∧
    (formatSuperBlock p).inodeTableLba = (formatSuperBlock p).inodeBitmapLba + 1 ∧
    (formatSuperBlock p).dataStartLba = (formatSuperBlock p).inodeTableLba + 608 :=
  ⟨rfl, rfl, rfl, rfl⟩

/-- The five pieces are written one behind the other, so the first two stay as written. -/
theorem partitionFormat_formatted (h : partitionFormat p pad d = .ok d') :
    ∃ buf bufSize, formatBlockBitmap (blockBitmapBitLen p.secCnt) bufSize = .ok buf ∧
      Formatted p pad d' buf := by
  obtain ⟨ho₁, ho₂, ho₃, ho₄⟩ := lba_order p
  simp only [partitionFormat, bind_eq_ok] at h
  obtain ⟨d₁, h₁, buf, hbuf, d₂, h₂, d₃, h₃, d₄, h₄, h₅⟩ := h
  refine ⟨buf, _, hbuf, ?_, ?_, ideWrite_lba_le h₅, ideRead_of_write h₁ d', ideRead_of_write h₂ d',
    fun m => ⟨_, ideRead_of_write h₃ d' m⟩⟩
  · intro k hk
    rw [ideWrite_eq h₅, Mem.splice_out (by omega), ideWrite_eq h₄, Mem.splice_out (by omega),
      ideWrite_eq h₃, Mem.splice_out (by omega), ideWrite_eq h₂, Mem.splice_out (by omega),
      ideWrite_eq h₁, Mem.splice_at (by omega)]
  · intro k hk
    rw [ideWrite_eq h₅, Mem.splice_out (by omega), ideWrite_eq h₄, Mem.splice_out (by omega),
      ideWrite_eq h₃, Mem.splice_out (by omega), ideWrite_eq h₂, Mem.splice_at hk]

/-- The bitmap a format leaves on disk, bit by bit. -/
theorem diskBlockBit_eq (h1 : 613 ≤ p.secCnt) (h2 : p.secCnt + 3484 < 2 ^ 32)
    (h : partitionFormat p pad d = .ok d') {i : Nat}
    (hi : i < 4096 * (formatSuperBlock p).blockBitmapSects) :
    diskBlockBit p d' i = if i / 8 = blockBitmapBitLen p.secCnt / 8
      then decide (blockBitmapBitLen p.secCnt < i)
      else decide (i = 0 ∨ blockBitmapBitLen p.secCnt < i) := by
  obtain ⟨buf, bufSize, hbuf, hf⟩ := partitionFormat_formatted h
  have hs := blockBitmapSects_eq h1 h2
  rw [diskBlockBit, hf.blockBits _ (by omega), formatBlockBitmap_bit hbuf (by omega)]

end Disk

/-- The bitmap the format should leave: the root's block and everything that is no
block taken, all others free. -/
structure BitmapExact (p : RawPartition) (d : Disk) : Prop where
  root : diskBlockBit p d 0 = true
  usable : ∀ i, 1 ≤ i → i < blockBitmapBitLen p.secCnt → diskBlockBit p d i = false
  tail : ∀ i, blockBitmapBitLen p.secCnt ≤ i →
    i < 4096 * (formatSuperBlock p).blockBitmapSects → diskBlockBit p d i = true

/-- The bit behind the last usable block comes out clear whenever it is written at all. -/
theorem bitmapExact_iff {p : RawPartition} {pad : Mem} {d d' : Disk} (h1 : 613 ≤ p.secCnt)
    (h2 : p.secCnt + 3484 < 2 ^ 32) (h : partitionFormat p pad d = .ok d') :
    BitmapExact p d' ↔ usableBlocks p.secCnt % 4096 = 0 := by
  have hs := blockBitmapSects_eq h1 h2
  have hlen := blockBitmapBitLen_eq h1 h2
  have hpos : 0 < usableBlocks p.secCnt := by
    unfold usableBlocks
    omega
  constructor
  · intro hex
    by_contra hne
    have hin : usableBlocks p.secCnt < 4096 * (formatSuperBlock p).blockBitmapSects := by omega
    have htail := hex.tail _ (Nat.le_of_eq hlen) hin
    rw [diskBlockBit_eq h1 h2 h hin, hlen, if_pos rfl] at htail
    simp at htail
  · intro h0
    -- the boundary byte is the first byte behind the last sector
    have hbit : ∀ i < 4096 * (formatSuperBlock p).blockBitmapSects,
        diskBlockBit p d' i = decide (i = 0) := by
      intro i hi
      rw [diskBlockBit_eq h1 h2 h hi, if_neg (by omega), decide_eq_decide]
      omega
    refine ⟨hbit 0 (by omega), fun i hi hlt => ?_, fun i hge hi => ?_⟩
    · rw [hbit i (by omega)]
      exact decide_eq_false (by omega)
    · omega

/-! ### Allocating from a fresh partition -/

/-- The bit of a block is cleared again, as `inode_release` does. -/
def Partition.releaseBlock (part : Partition) (lba : Int) : Partition :=
  { part with blockBitmap := part.blockBitmap.bitmapSet (part.blockBitmapIdx lba) false }

/-- The runs of a mounted partition's block allocator: blocks are handed out by
`block_bitmap_alloc` and blocks handed out are released again.  The list holds the
blocks handed out so far. -/
inductive AllocRun (part₀ : Partition) : Partition → List Int → Prop where
  | start : AllocRun part₀ part₀ []
  | alloc {part part' : Partition} {given : List Int} {lba : Int} :
      AllocRun part₀ part given →
      part.blockBitmapAlloc = .ok (lba, part') →
      AllocRun part₀ part' (lba :: given)
  | release {part : Partition} {given : List Int} {lba : Int} :
      AllocRun part₀ part given → lba ∈ given →
      AllocRun part₀ (part.releaseBlock lba) given

/-- No run hands out the root's block or a sector behind the partition. -/
def AllocSafe (part₀ : Partition) : Prop :=
  ∀ part given, AllocRun part₀ part given → ∀ lba ∈ given,
    (part₀.sb.dataStartLba : Int) < lba ∧ lba < part₀.startLba + part₀.secCnt

/-- A bitmap whose bits all stand for blocks of the partition and whose root bit is taken. -/
structure Partition.BitmapFits (part : Partition) : Prop where
  root : part.blockBitmap.bitmapScanTest 0 = true
  inside : part.sb.dataStartLba + 8 * part.blockBitmap.bmapBytesLen ≤ part.startLba + part.secCnt
  int : part.sb.dataStartLba + 8 * part.blockBitmap.bmapBytesLen ≤ 2 ^ 31

/-- What every state of a run has in common with the start. -/
structure RunInv (part₀ part : Partition) (given : List Int) : Prop where
  sb : part.sb = part₀.sb
  len : part.blockBitmap.bmapBytesLen = part₀.blockBitmap.bmapBytesLen
  root : part.blockBitmap.bitmapScanTest 0 = true
  given : ∀ lba ∈ given, ∃ i : Nat, 0 < i ∧ i < 8 * part₀.blockBitmap.bmapBytesLen ∧
    lba = (part₀.sb.dataStartLba + i : Nat)

section Runs

variable {part₀ part part' : Partition} {given : List Int} {lba : Int}

theorem RunInv.alloc (hfit : part₀.BitmapFits) (hi : RunInv part₀ part given)
    (h : part.blockBitmapAlloc = .ok (lba, part')) :
    RunInv part₀ part' (lba :: given) := by
  have hint := hfit.int
  simp only [Partition.blockBitmapAlloc, bind_eq_ok] at h
  obtain ⟨bitIdx, hscan, h⟩ := h
  obtain ⟨n, rfl, hn, hclear, -⟩ := Bitmap.scan_one (by rw [hi.len]; omega) hscan
  rw [if_neg (by omega)] at h
  simp only [Int.toNat_natCast, pure_eq_ok, Except.ok.injEq, Prod.mk.injEq] at h
  obtain ⟨rfl, rfl⟩ := h
  -- the root's bit is set, so the clear bit is another one
  have hn0 : n ≠ 0 := by
    intro hc
    rw [hc, hi.root] at hclear
    exact absurd hclear (by decide)
  refine ⟨hi.sb, hi.len, ?_, ?_⟩
  · rw [Bitmap.scanTest_set, if_neg (Ne.symm hn0), hi.root]
  · intro l hl
    rcases List.mem_cons.mp hl with rfl | hl
    · rw [hi.len] at hn
      refine ⟨n, by omega, hn, ?_⟩
      rw [hi.sb, Bitmap.int32_of_lt (by omega)]
    · exact hi.given l hl

theorem RunInv.release (hfit : part₀.BitmapFits) (hi : RunInv part₀ part given)
    (h : lba ∈ given) : RunInv part₀ (part.releaseBlock lba) given := by
  have hint := hfit.int
  obtain ⟨i, h0, hlt, rfl⟩ := hi.given lba h
  have hidx : part.blockBitmapIdx ((part₀.sb.dataStartLba + i : Nat) : Int) = i := by
    simp only [Partition.blockBitmapIdx, hi.sb]
    omega
  refine ⟨hi.sb, hi.len, ?_, hi.given⟩
  rw [Partition.releaseBlock, hidx, Bitmap.scanTest_set, if_neg (by omega), hi.root]

theorem runInv_of_run (hfit : part₀.BitmapFits) (h : AllocRun part₀ part given) :
    RunInv part₀ part given := by
  induction h with
  | start => exact ⟨rfl, rfl, hfit.root, fun lba hlba => absurd hlba (by simp)⟩
  | alloc _ halloc ih => exact ih.alloc hfit halloc
  | release _ hmem ih => exact ih.release hfit hmem

/-- A bitmap that fits keeps the allocator inside the partition and off the root's block. -/
theorem allocSafe_of_fits (hfit : part₀.BitmapFits) : AllocSafe part₀ := by
  intro part given hrun lba hlba
  have hin := hfit.inside
  obtain ⟨i, h0, hlt, rfl⟩ := (runInv_of_run hfit hrun).given lba hlba
  omega

end Runs

/-! ### Mounting what was formatted -/

/-- All members are 32-bit numbers. -/
structure SuperBlock.Word32 (sb : SuperBlock) : Prop where
  magic : sb.magic < 2 ^ 32
  secCnt : sb.secCnt < 2 ^ 32
  inodeCnt : sb.inodeCnt < 2 ^ 32
  partLbaBase : sb.partLbaBase < 2 ^ 32
  blockBitmapLba : sb.blockBitmapLba < 2 ^ 32
  blockBitmapSects : sb.blockBitmapSects < 2 ^ 32
  inodeBitmapLba : sb.inodeBitmapLba < 2 ^ 32
  inodeBitmapSects : sb.inodeBitmapSects < 2 ^ 32
  inodeTableLba : sb.inodeTableLba < 2 ^ 32
  inodeTableSects : sb.inodeTableSects < 2 ^ 32
  dataStartLba : sb.dataStartLba < 2 ^ 32
  rootInodeNo : sb.rootInodeNo < 2 ^ 32
  dirEntrySize : sb.dirEntrySize < 2 ^ 32

/-- A superblock read from the sector it was written to. -/
theorem SuperBlock.ofMem_eq {sb : SuperBlock} (pad : Mem) {m : Mem} (hw : sb.Word32)
    (h : ∀ k < 52, m k = sb.toMem pad k) : SuperBlock.ofMem m = sb := by
  have hword : ∀ i < 13, getWord m (4 * i) = sb.words i := by
    intro i hi
    rw [← getWord_ofWords sb.words i]
    refine getWord_congr fun j hj => ?_
    rw [h _ (by omega), toMem, if_pos (by omega)]
  have hnat : ∀ x : Nat, x < 2 ^ 32 → (UInt32.ofNat x).toNat = x := fun x hx =>
    UInt32.toNat_ofNat_of_lt' hx
  have h0 := hword 0 (by omega)
  have h1 := hword 1 (by omega)
  have h2 := hword 2 (by omega)
  have h3 := hword 3 (by omega)
  have h4 := hword 4 (by omega)
  have h5 := hword 5 (by omega)
  have h6 := hword 6 (by omega)
  have h7 := hword 7 (by omega)
  have h8 := hword 8 (by omega)
  have h9 := hword 9 (by omega)
  have h10 := hword 10 (by omega)
  have h11 := hword 11 (by omega)
  have h12 := hword 12 (by omega)
  simp only [Nat.reduceMul, Nat.mul_zero, Nat.mul_one, words] at *
  simp only [ofMem, h0, h1, h2, h3, h4, h5, h6, h7, h8, h9, h10, h11, h12, hnat, hw.magic,
    hw.secCnt, hw.inodeCnt, hw.partLbaBase, hw.blockBitmapLba, hw.blockBitmapSects,
    hw.inodeBitmapLba, hw.inodeBitmapSects, hw.inodeTableLba, hw.inodeTableSects,
    hw.dataStartLba, hw.rootInodeNo, hw.dirEntrySize]

theorem formatSuperBlock_word32 (p : RawPartition)
    (h : (formatSuperBlock p).dataStartLba ≤ maxLba) : (formatSuperBlock p).Word32 := by
  obtain ⟨ho₁, ho₂, ho₃, ho₄⟩ := lba_order p
  have hmax : maxLba = 163839 := rfl
  have hp := p.lba32
  have hsec : (formatSuperBlock p).secCnt = p.secCnt := rfl
  have hbase : (formatSuperBlock p).partLbaBase = p.startLba := rfl
  have hmagic : superBlockMagic < 2 ^ 32 := by decide
  have hcnt : maxFilesPerPart < 2 ^ 32 := by decide
  have hbits : inodeBitmapSects < 2 ^ 32 := by decide
  have htable : inodeTableSects < 2 ^ 32 := by decide
  have hroot : 0 < 2 ^ 32 := by decide
  have hentry : DirEntry.size < 2 ^ 32 := by decide
  exact ⟨hmagic, by omega, hcnt, by omega, by omega, by omega, by omega, hbits, by omega,
    htable, by omega, hroot, hentry⟩

/-- A formatted partition mounts, with the superblock and the bitmap the format wrote. -/
theorem mountPartition_of_format {p : RawPartition} {pad : Mem} {d d' : Disk}
    (h : partitionFormat p pad d = .ok d') :
    ∃ part, mountPartition p d' = .ok part ∧ part.startLba = p.startLba ∧
      part.secCnt = p.secCnt ∧ part.sb = formatSuperBlock p ∧
      part.blockBitmap.bmapBytesLen = (formatSuperBlock p).blockBitmapSects * 512 ∧
      ∀ i < 4096 * (formatSuperBlock p).blockBitmapSects,
        part.blockBitmap.bitmapScanTest i = diskBlockBit p d' i := by
  obtain ⟨buf, bufSize, -, hf⟩ := partitionFormat_formatted h
  have hsb : SuperBlock.ofMem (zeroMem.splice 0 (d'.drop (512 * (p.startLba + 1))) (1 * 512))
      = formatSuperBlock p := by
    refine SuperBlock.ofMem_eq pad (formatSuperBlock_word32 p hf.onDrive) fun k hk => ?_
    rw [Mem.splice_in (by omega) (by omega), Mem.drop_apply, hf.superBlock _ (by omega)]
    rfl
  obtain ⟨inodeBits, hib⟩ := hf.readInodeBits zeroMem
  have hmount : mountPartition p d' = .ok
      { startLba := p.startLba
        secCnt := p.secCnt
        sb := formatSuperBlock p
        blockBitmap :=
          { bmapBytesLen := (formatSuperBlock p).blockBitmapSects * sectorSize
            bits := zeroMem.splice 0 (d'.drop (512 * (formatSuperBlock p).blockBitmapLba))
              ((formatSuperBlock p).blockBitmapSects * 512) }
        inodeBitmap :=
          { bmapBytesLen := (formatSuperBlock p).inodeBitmapSects * sectorSize
            bits := inodeBits } } := by
    simp only [mountPartition, hf.readSuperBlock, ok_bind, hsb, hf.readBlockBits, hib, pure_eq_ok]
  refine ⟨_, hmount, rfl, rfl, rfl, rfl, fun i hi => ?_⟩
  rw [Bitmap.scanTest_eq]
  dsimp only
  rw [Mem.splice_in (by omega) (by omega), Mem.drop_apply]
  rfl

/-! ### When a format is exact -/

/-- What a format should achieve: the bitmap on disk is exact, and no allocation from
the mounted partition leaves its data area. -/
structure FormatExact (p : RawPartition) (d : Disk) : Prop where
  bitmap : BitmapExact p d
  alloc : ∃ part, mountPartition p d = .ok part ∧ AllocSafe part

/-- An exact bitmap keeps every later allocation inside the partition. -/
theorem mounted_fits {p : RawPartition} {pad : Mem} {d d' : Disk} (h1 : 613 ≤ p.secCnt)
    (h2 : p.secCnt + 3484 < 2 ^ 32) (h : partitionFormat p pad d = .ok d')
    (h0 : usableBlocks p.secCnt % 4096 = 0) :
    ∃ part, mountPartition p d' = .ok part ∧ part.BitmapFits := by
  obtain ⟨ho₁, ho₂, ho₃, ho₄⟩ := lba_order p
  have hs := blockBitmapSects_eq h1 h2
  have hlen := blockBitmapBitLen_eq h1 h2
  have hmax : maxLba = 163839 := rfl
  obtain ⟨buf, bufSize, -, hf⟩ := partitionFormat_formatted h
  have hdrive := hf.onDrive
  have hex := (bitmapExact_iff h1 h2 h).mpr h0
  obtain ⟨part, hm, hstart, hcnt, hsb, hbytes, hbit⟩ := mountPartition_of_format h
  have husable : usableBlocks p.secCnt + (usableBlocks p.secCnt + 4095) / 4096 + 611 ≤ p.secCnt ∧
      0 < usableBlocks p.secCnt := by
    unfold usableBlocks
    omega
  refine ⟨part, hm, ?_, ?_, ?_⟩
  · rw [hbit 0 (by omega)]
    exact hex.root
  · rw [hsb, hbytes, hstart, hcnt]
    omega
  · rw [hsb, hbytes]
    omega

/-- On the drive a format runs to its end. -/
theorem partitionFormat_returns (p : RawPartition) (pad : Mem) (d : Disk) (h1 : 613 ≤ p.secCnt)
    (h2 : p.startLba + p.secCnt ≤ maxLba + 1) : ∃ d', partitionFormat p pad d = .ok d' := by
  obtain ⟨ho₁, ho₂, ho₃, ho₄⟩ := lba_order p
  have hmax : maxLba = 163839 := rfl
  have hs := blockBitmapSects_eq h1 (by omega)
  have hlen := blockBitmapBitLen_eq h1 (by omega)
  have husable : usableBlocks p.secCnt + (usableBlocks p.secCnt + 4095) / 4096 + 611 ≤ p.secCnt ∧
      0 < usableBlocks p.secCnt := by
    unfold usableBlocks
    omega
  have hib : (formatSuperBlock p).inodeBitmapSects = 1 := rfl
  have hit : (formatSuperBlock p).inodeTableSects = 608 := rfl
  -- the buffer has the size of the inode table, far more than the bitmap needs
  have hsize : 608 * 512
      ≤ max (max (formatSuperBlock p).blockBitmapSects (formatSuperBlock p).inodeBitmapSects)
        (formatSuperBlock p).inodeTableSects * sectorSize :=
    Nat.mul_le_mul_right 512 (le_max_right _ (formatSuperBlock p).inodeTableSects)
  obtain ⟨buf, hbuf⟩ := formatBlockBitmap_returns (blockBitmapBitLen p.secCnt)
    (Nat.le_trans (by omega) hsize)
  simp only [partitionFormat]
  rw [ideWrite_returns d _ (by decide) (by omega), ok_bind, hbuf, ok_bind,
    ideWrite_returns _ _ (by omega) (by omega), ok_bind,
    ideWrite_returns _ _ (by omega) (by omega), ok_bind,
    ideWrite_returns _ _ (by omega) (by omega), ok_bind,
    ideWrite_returns _ _ (by decide) (by omega)]
  exact ⟨_, rfl⟩

/-- **A format leaves an exact block bitmap only when the usable blocks fill whole
bitmap sectors.**  On the drive it always runs to its end. -/
theorem partitionFormat_exact_iff (p : RawPartition) (pad : Mem) (d : Disk)
    (h1 : 613 ≤ p.secCnt) (h2 : p.secCnt + 3484 < 2 ^ 32) :
    (p.startLba + p.secCnt ≤ maxLba + 1 → ∃ d', partitionFormat p pad d = .ok d') ∧
    ∀ d', partitionFormat p pad d = .ok d' →
      (FormatExact p d' ↔ usableBlocks p.secCnt % 4096 = 0) := by
  refine ⟨partitionFormat_returns p pad d h1, fun d' h => ?_⟩
  constructor
  · intro hex
    exact (bitmapExact_iff h1 h2 h).mp hex.bitmap
  · intro h0
    obtain ⟨part, hm, hfit⟩ := mounted_fits h1 h2 h h0
    exact ⟨(bitmapExact_iff h1 h2 h).mpr h0, part, hm, allocSafe_of_fits hfit⟩

/-- A partition of 4709 sectors has 4096 usable blocks. -/
theorem partitionFormat_exact_4709 :
    ∃ d', partitionFormat ⟨2048, 4709, by decide⟩ zeroMem zeroMem = .ok d' ∧
      FormatExact ⟨2048, 4709, by decide⟩ d' := by
  have h := partitionFormat_exact_iff ⟨2048, 4709, by decide⟩ zeroMem zeroMem (by decide)
    (by decide)
  obtain ⟨d', hd'⟩ := h.1 (by decide)
  exact ⟨d', hd', (h.2 d' hd').mpr (by decide)⟩

/-- A partition of 20000 sectors: the bit behind its last block comes out clear. -/
theorem partitionFormat_inexact_20000 :
    ∃ d', partitionFormat ⟨2048, 20000, by decide⟩ zeroMem zeroMem = .ok d' ∧
      ¬ FormatExact ⟨2048, 20000, by decide⟩ d' := by
  obtain ⟨d', hd'⟩ := partitionFormat_returns ⟨2048, 20000, by decide⟩ zeroMem zeroMem
    (by decide) (by decide)
  refine ⟨d', hd', fun hex => ?_⟩
  have h0 := (bitmapExact_iff (by decide) (by decide) hd').mp hex.bitmap
  exact absurd h0 (by decide)

end ZyOs
