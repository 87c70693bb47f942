/-
The layout `partition_format` computes.

The block bitmap covers the blocks that are left when the bitmap itself has been taken off, so
its size is rounded twice: once for the free sectors, and once more for the blocks that
remain.  The second rounding can only give fewer sectors than the first, and as many as the
bits need; hence nothing sticks out at the end, and at most one sector stays unused.
-/
import Mathlib
import ZyOs.Kernel.FormatLayout
import ZyOs.Proofs.Format

namespace ZyOs

open Library

/-! ### The sizes -/

section Sizes

variable {p : RawPartition}

/-- How many bits there are. -/
theorem bitLen_eq (hmin : 613 ≤ p.secCnt) (hmax : p.startLba + p.secCnt ≤ 2 ^ 31) :
    blockBitmapBitLen p.secCnt = p.secCnt - 611 - (p.secCnt - 611 + 4095) / 4096 :=
  blockBitmapBitLen_eq hmin (by omega)

/-- How many sectors they take. -/
theorem bitmapSects_eq (hmin : 613 ≤ p.secCnt) (hmax : p.startLba + p.secCnt ≤ 2 ^ 31) :
    (formatSuperBlock p).blockBitmapSects = (blockBitmapBitLen p.secCnt + 4095) / 4096 :=
  blockBitmapSects_eq hmin (by omega)

theorem bitmapSects_pos (hmin : 613 ≤ p.secCnt) (hmax : p.startLba + p.secCnt ≤ 2 ^ 31) :
    1 ≤ (formatSuperBlock p).blockBitmapSects := by
  rw [bitmapSects_eq hmin hmax, bitLen_eq hmin hmax]
  omega

/-- Every bit has its place in the bitmap. -/
theorem bitLen_le (hmin : 613 ≤ p.secCnt) (hmax : p.startLba + p.secCnt ≤ 2 ^ 31) :
    blockBitmapBitLen p.secCnt ≤ 4096 * (formatSuperBlock p).blockBitmapSects := by
  rw [bitmapSects_eq hmin hmax]
  omega

/-- The second rounding gives no more than the first, so the blocks end with the partition. -/
theorem data_end_le (hmin : 613 ≤ p.secCnt) (hmax : p.startLba + p.secCnt ≤ 2 ^ 31) :
    (formatSuperBlock p).dataStartLba + blockBitmapBitLen p.secCnt ≤ p.startLba + p.secCnt := by
  obtain ⟨h₁, h₂, h₃, h₄⟩ := lba_order p
  have hfirst : (formatSuperBlock p).blockBitmapSects ≤ (p.secCnt - 611 + 4095) / 4096 := by
    rw [bitmapSects_eq hmin hmax, bitLen_eq hmin hmax]
    omega
  have hbits := bitLen_eq hmin hmax
  omega

end Sizes

/-! ### No wrap -/

theorem toNat_max (a b : UInt32) : (max a b).toNat = max a.toNat b.toNat := by
  have hle : a ≤ b ↔ a.toNat ≤ b.toNat := UInt32.le_iff_toNat_le
  show (if a ≤ b then b else a).toNat = if a.toNat ≤ b.toNat then b.toNat else a.toNat
  simp only [hle]
  split_ifs <;> rfl

section Wrap

variable {a b : Nat}

theorem sub_wrap (h : b ≤ a) (ha : a < 4294967296) : (4294967296 - b + a) % 4294967296 = a - b := by
  omega

theorem pred_wrap (h : 1 ≤ a) (ha : a < 4294967296) : (4294967295 + a) % 4294967296 = a - 1 :=
  sub_wrap h ha

end Wrap

/-- **The code computes what is meant**: no value on the way wraps in 32 bits. -/
theorem formatLayout_toNat {start cnt : UInt32} (hmin : 613 ≤ cnt.toNat)
    (hmax : start.toNat + cnt.toNat ≤ 2 ^ 31) :
    (formatLayout start cnt).map UInt32.toNat = formatLayout start.toNat cnt.toNat := by
  simp only [formatLayout, FormatLayout.map, List.map_cons, List.map_nil, UInt32.toNat_add,
    UInt32.toNat_sub, UInt32.toNat_mul, UInt32.toNat_div, toNat_max, UInt32.toNat_ofNat,
    Nat.reduceMod, Nat.reduceAdd, Nat.reduceMul, Nat.reduceSub, Nat.reduceDiv, Nat.reducePow]
  generalize start.toNat = lba at *
  generalize cnt.toNat = secs at *
  -- the free sectors, and the bitmap for all of them
  rw [show (4294966685 + secs) % 4294967296 = secs - 611 from sub_wrap (b := 611) (by omega)
    (by omega)]
  have hbound : lba + (secs - 611) ≤ 2147483037 := by omega
  generalize secs - 611 = free at *
  rw [Nat.mod_eq_of_lt (show free + 4096 < 4294967296 by omega),
    pred_wrap (a := free + 4096) (by omega) (by omega)]
  -- what remains of them, and the bitmap for that
  have hfirst : (free + 4096 - 1) / 4096 ≤ free := by omega
  rw [sub_wrap hfirst (by omega)]
  have hrest : free - (free + 4096 - 1) / 4096 ≤ free := by omega
  generalize free - (free + 4096 - 1) / 4096 = bits at *
  rw [Nat.mod_eq_of_lt (show bits + 4096 < 4294967296 by omega),
    pred_wrap (a := bits + 4096) (by omega) (by omega)]
  have hsects : (bits + 4096 - 1) / 4096 ≤ bits + 1 := by omega
  have hsmall : (bits + 4096 - 1) / 4096 ≤ 2 ^ 20 := by omega
  generalize (bits + 4096 - 1) / 4096 = sects at *
  -- the addresses, and the buffer
  rw [Nat.mod_eq_of_lt (show lba + 1 < 4294967296 by omega),
    Nat.mod_eq_of_lt (show lba + 2 < 4294967296 by omega),
    Nat.mod_eq_of_lt (show lba + 2 + sects < 4294967296 by omega),
    Nat.mod_eq_of_lt (show lba + 2 + sects + 1 < 4294967296 by omega),
    Nat.mod_eq_of_lt (show lba + 2 + sects + 1 + 608 < 4294967296 by omega),
    Nat.mod_eq_of_lt (show max (max sects 1) 608 * 512 < 4294967296 by omega)]

/-- The superblock of a partition, and the length of its block bitmap, are those of a layout. -/
structure RawPartition.LaidOut (p : RawPartition) (l : FormatLayout Nat) : Prop where
  blockBitmapBitLen : blockBitmapBitLen p.secCnt = l.blockBitmapBitLen
  blockBitmapLba : (formatSuperBlock p).blockBitmapLba = l.blockBitmapLba
  blockBitmapSects : (formatSuperBlock p).blockBitmapSects = l.blockBitmapSects
  inodeBitmapLba : (formatSuperBlock p).inodeBitmapLba = l.inodeBitmapLba
  inodeBitmapSects : (formatSuperBlock p).inodeBitmapSects = l.inodeBitmapSects
  inodeTableLba : (formatSuperBlock p).inodeTableLba = l.inodeTableLba
  inodeTableSects : (formatSuperBlock p).inodeTableSects = l.inodeTableSects
  dataStartLba : (formatSuperBlock p).dataStartLba = l.dataStartLba

theorem formatSuperBlock_layout {p : RawPartition} (hmin : 613 ≤ p.secCnt)
    (hmax : p.startLba + p.secCnt ≤ 2 ^ 31) : p.LaidOut (formatLayout p.startLba p.secCnt) := by
  obtain ⟨h₁, h₂, h₃, h₄⟩ := lba_order p
  have hbits := bitLen_eq hmin hmax
  have hsects := bitmapSects_eq hmin hmax
  have hinode : inodeBitmapSects = 1 := by decide
  have htable : inodeTableSects = 608 := by decide
  have hmore : ∀ x, x + 4096 - 1 = x + 4095 := fun x => rfl
  constructor <;> simp only [formatLayout, Nat.reduceAdd, Nat.reduceMul,
    Nat.reduceDiv, hmore, ← hbits, ← hsects]
  · exact h₁
  · rw [h₂, h₁]
  · exact hinode
  · rw [h₃, h₂, h₁]
  · exact htable
  · rw [h₄, h₃, h₂, h₁]

/-! ### `bitmap_sync` -/

/-- `bitmap_sync` writes the one sector of the bitmap that has the bit in it. -/
theorem bitmapSync_eq (idx : Nat) (t : BitmapType) (s : Fs) :
    ∃ bits, bitmapSync idx t s
      = writeSectors ((s.part.sb.bitmapRegion t).first + idx / 4096) bits 1 s := by
  cases t with
  | inodeBitmap => exact ⟨_, rfl⟩
  | blockBitmap => exact ⟨_, rfl⟩

/-- A bit the bitmap has room for is in one of its sectors. -/
theorem Region.sector_mem {r : Region} {idx : Nat} (h : idx < 4096 * r.count) :
    r.first + idx / 4096 ∈ r.sectors :=
  ⟨by omega, by omega⟩

/-! ### The regions -/

theorem formatRegions_chain (p : RawPartition) :
    (formatRegions p).IsChain fun r r' => r.first + r.count = r'.first := by
  obtain ⟨h₁, h₂, h₃, h₄⟩ := lba_order p
  simp only [formatRegions, List.isChain_cons_cons, List.IsChain.singleton, and_true]
  exact ⟨trivial, h₁.symm, h₂.symm, h₃.symm, h₄.symm⟩

/-- `r'` begins where `r` has ended. -/
def Region.Before (r r' : Region) : Prop := r.first + r.count ≤ r'.first

instance : IsTrans Region Region.Before where
  trans _ r' _ h h' := h.trans ((Nat.le_add_right r'.first r'.count).trans h')

theorem Region.Before.disjoint {r r' : Region} (h : r.Before r') :
    Disjoint r.sectors r'.sectors :=
  Set.disjoint_left.mpr fun _ hi hi' => by
    have hend := hi.2
    have hstart := hi'.1
    have hle : r.first + r.count ≤ r'.first := h
    omega

theorem formatRegions_disjoint (p : RawPartition) :
    (formatRegions p).Pairwise fun r r' => Disjoint r.sectors r'.sectors := by
  have hbefore : (formatRegions p).IsChain Region.Before :=
    (formatRegions_chain p).imp fun _ _ h => h.le
  exact (List.isChain_iff_pairwise.mp hbefore).imp Region.Before.disjoint

/-- **The layout of a fresh partition.**  The pieces lie one behind the other and end with the
partition at the latest, the block bitmap has a bit for each block, the numbers are those the
same lines give without a bound and nothing wraps on the way, and a bit is written back to its
own bitmap. -/
theorem format_layout (p : RawPartition) (hmin : 613 ≤ p.secCnt)
    (hmax : p.startLba + p.secCnt ≤ 2 ^ 31) :
    ((formatRegions p).IsChain fun r r' => r.first + r.count = r'.first) ∧
    ((formatRegions p).Pairwise fun r r' => Disjoint r.sectors r'.sectors) ∧
    blockBitmapBitLen p.secCnt ≤ 4096 * (formatSuperBlock p).blockBitmapSects ∧
    1 ≤ (formatSuperBlock p).blockBitmapSects ∧
    (formatSuperBlock p).dataStartLba + blockBitmapBitLen p.secCnt ≤ p.startLba + p.secCnt ∧
    p.LaidOut (formatLayout p.startLba p.secCnt) ∧
    (formatLayout (UInt32.ofNat p.startLba) (UInt32.ofNat p.secCnt)).map UInt32.toNat
      = formatLayout p.startLba p.secCnt ∧
    ∀ t idx, idx < (if t = .inodeBitmap then maxFilesPerPart else blockBitmapBitLen p.secCnt) →
      ∀ s : Fs, s.part.sb = formatSuperBlock p →
        ∃ lba ∈ ((formatSuperBlock p).bitmapRegion t).sectors, ∃ bits,
          bitmapSync idx t s = writeSectors lba bits 1 s := by
  have hstart : (UInt32.ofNat p.startLba).toNat = p.startLba :=
    UInt32.toNat_ofNat_of_lt' (by simp only [UInt32.size]; omega)
  have hcnt : (UInt32.ofNat p.secCnt).toNat = p.secCnt :=
    UInt32.toNat_ofNat_of_lt' (by simp only [UInt32.size]; omega)
  refine ⟨formatRegions_chain p, formatRegions_disjoint p, bitLen_le hmin hmax,
    bitmapSects_pos hmin hmax, data_end_le hmin hmax, formatSuperBlock_layout hmin hmax, ?_,
    fun t idx hidx s hsb => ?_⟩
  · have h := @formatLayout_toNat (UInt32.ofNat p.startLba) (UInt32.ofNat p.secCnt)
      (by rw [hcnt]; exact hmin) (by rw [hstart, hcnt]; exact hmax)
    rw [hstart, hcnt] at h
    exact h
  · obtain ⟨bits, hsync⟩ := bitmapSync_eq idx t s
    rw [hsb] at hsync
    refine ⟨_, Region.sector_mem ?_, bits, hsync⟩
    cases t with
    | inodeBitmap =>
        rw [if_pos rfl] at hidx
        have hroom : 4096 * inodeBitmapSects = maxFilesPerPart := by decide
        exact hidx.trans_eq hroom.symm
    | blockBitmap =>
        rw [if_neg (by decide)] at hidx
        exact hidx.trans_le (bitLen_le hmin hmax)

/-- The smallest partition with a block for files. -/
theorem format_layout_613 :
    (613 ≤ 613 ∧ 2048 + 613 ≤ 2 ^ 31) ∧
      (formatRegions ⟨2048, 613, by decide⟩).Pairwise fun r r' =>
        Disjoint r.sectors r'.sectors := by
  have h := format_layout ⟨2048, 613, by decide⟩ (by decide) (by decide)
  exact ⟨by decide, h.2.1⟩

end ZyOs
