/-
Taking a block.

Every user of `block_bitmap_alloc` writes the bitmap sector back at once.  What the
users need of the pair is said once here: a block that was free is marked, its
sector number is the block's position behind the data start, and nothing in the
data area changes.
-/
import ZyOs.Kernel.Dir
import ZyOs.Proofs.BitmapScan
import ZyOs.Proofs.FsState

namespace ZyOs

open Library

/-- The block bitmap lies in front of the data area, and sector numbers are positive
as C `int`s. -/
structure Partition.DataFits (part : Partition) : Prop where
  bitmap : part.sb.blockBitmapLba + (8 * part.blockBitmap.bmapBytesLen + 4095) / 4096
    ≤ part.sb.dataStartLba
  int : part.sb.dataStartLba + 8 * part.blockBitmap.bmapBytesLen < 2 ^ 31

/-- Block `n` marked as used. -/
def Partition.take (part : Partition) (n : Nat) : Partition :=
  { part with blockBitmap := part.blockBitmap.bitmapSet n true }

namespace Partition

variable {part : Partition} {n : Nat}

@[simp] theorem take_sb (part : Partition) (n : Nat) : (part.take n).sb = part.sb := rfl

@[simp] theorem take_bytesLen (part : Partition) (n : Nat) :
    (part.take n).blockBitmap.bmapBytesLen = part.blockBitmap.bmapBytesLen := rfl

theorem take_test (part : Partition) (n m : Nat) :
    (part.take n).blockBitmap.bitmapScanTest m
      = if m = n then true else part.blockBitmap.bitmapScanTest m :=
  Bitmap.scanTest_set _ _ _ _

theorem DataFits.take (h : part.DataFits) (n : Nat) : (part.take n).DataFits := ⟨h.bitmap, h.int⟩

theorem blockBitmapIdx_eq (h : part.DataFits) (hn : n < 8 * part.blockBitmap.bmapBytesLen) :
    part.blockBitmapIdx ((part.sb.dataStartLba + n : Nat) : Int) = n := by
  have := h.int
  simp only [blockBitmapIdx]
  omega

end Partition

/-- A sector of the data area that the bitmap marks as used. -/
structure Marked (part : Partition) (lba : Nat) : Prop where
  data : part.sb.dataStartLba ≤ lba
  bit : lba - part.sb.dataStartLba < 8 * part.blockBitmap.bmapBytesLen
  used : part.blockBitmap.bitmapScanTest (lba - part.sb.dataStartLba) = true

namespace Marked

variable {part : Partition} {lba n : Nat}

theorem ne_zero (hfit : part.DataFits) (h : Marked part lba) : lba ≠ 0 := by
  have := hfit.bitmap
  have := h.bit
  have := h.data
  omega

theorem take (h : Marked part lba) (n : Nat) : Marked (part.take n) lba := by
  refine ⟨h.data, h.bit, ?_⟩
  rw [Partition.take_test, Partition.take_sb, h.used, ite_self]

/-- A block that was free is not one of the used ones. -/
theorem ne_of_free (h : Marked part lba) (hfree : part.blockBitmap.bitmapScanTest n = false) :
    lba ≠ part.sb.dataStartLba + n := by
  intro hc
  have hu := h.used
  rw [hc, Nat.add_sub_cancel_left, hfree] at hu
  exact absurd hu (by decide)

theorem taken (hn : n < 8 * part.blockBitmap.bmapBytesLen) :
    Marked (part.take n) (part.sb.dataStartLba + n) := by
  have hsub : part.sb.dataStartLba + n - part.sb.dataStartLba = n := by omega
  refine ⟨by simp, ?_, ?_⟩
  · rw [Partition.take_sb, Partition.take_bytesLen, hsub]
    exact hn
  · rw [Partition.take_sb, hsub, Partition.take_test, if_pos rfl]

end Marked

/-- Sector numbers that fit survive the C conversions. -/
theorem toNat_u32 {n : Nat} (h : n < 2 ^ 32) : (u32 (n : Int)).toNat = n := by
  have hmod : ((n : Int) % 2 ^ 32).toNat = n := by omega
  rw [u32, hmod, UInt32.toNat_ofNat_of_lt' h]

/-- `block_bitmap_alloc` takes the first free block. -/
theorem Partition.blockBitmapAlloc_run {part : Partition} (hfit : part.DataFits) {i : Nat}
    (hi : i < 8 * part.blockBitmap.bmapBytesLen)
    (hclear : part.blockBitmap.bitmapScanTest i = false) :
    ∃ n ≤ i, part.blockBitmap.bitmapScanTest n = false ∧
      (∀ m < n, part.blockBitmap.bitmapScanTest m = true) ∧
      part.blockBitmapAlloc = .ok ((part.sb.dataStartLba + n : Nat), part.take n) := by
  have hint := hfit.int
  obtain ⟨j, hscan⟩ := Bitmap.scan_one_returns hi hclear
  obtain ⟨n, rfl, hn, hfree, hbelow⟩ := Bitmap.scan_one (by omega) hscan
  have hle : n ≤ i := by
    by_contra hgt
    rw [hbelow i (by omega)] at hclear
    exact absurd hclear (by decide)
  refine ⟨n, hle, hfree, hbelow, ?_⟩
  simp only [blockBitmapAlloc, hscan, ok_bind]
  rw [if_neg (by omega), Int.toNat_natCast, Bitmap.int32_of_lt (by omega)]
  rfl

theorem blockBitmapAlloc_lift {s : Fs} {lba : Int} {part : Partition}
    (h : s.part.blockBitmapAlloc = .ok (lba, part)) :
    blockBitmapAlloc s = .ok (lba, { s with part := part }) := by
  simp only [blockBitmapAlloc]
  rw [Prog.bind_of_run (Prog.get_run s), Prog.bind_of_run (Prog.lift_run.mpr ⟨h, rfl⟩)]
  rfl

/-- `bitmap_sync` writes in front of the data area. -/
theorem bitmapSync_block_run {s : Fs} (hfit : s.part.DataFits) {n : Nat}
    (hn : n < 8 * s.part.blockBitmap.bmapBytesLen) (hdrive : s.part.sb.dataStartLba ≤ maxLba) :
    ∃ d, bitmapSync n .blockBitmap s = .ok ((), { s with disk := d }) ∧
      ∀ x, 512 * s.part.sb.dataStartLba ≤ x → d x = s.disk x := by
  have hbm := hfit.bitmap
  refine ⟨_, writeSectors_run s _ (by decide) (by omega), fun x hx => ?_⟩
  exact Mem.splice_out (by omega)

/-- **A synced allocation marks the first free block and leaves the data area alone.** -/
theorem allocSynced_run {s : Fs} (hfit : s.part.DataFits) {i : Nat} (func : String)
    (hi : i < 8 * s.part.blockBitmap.bmapBytesLen)
    (hclear : s.part.blockBitmap.bitmapScanTest i = false)
    (hdrive : s.part.sb.dataStartLba + i ≤ maxLba) :
    ∃ n ≤ i, ∃ d, s.part.blockBitmap.bitmapScanTest n = false ∧
      (∀ m < n, s.part.blockBitmap.bitmapScanTest m = true) ∧
      allocSynced func s = .ok (((s.part.sb.dataStartLba + n : Nat) : Int),
        { s with part := s.part.take n, disk := d }) ∧
      ∀ x, 512 * s.part.sb.dataStartLba ≤ x → d x = s.disk x := by
  have hint := hfit.int
  obtain ⟨n, hle, hfree, hbelow, halloc⟩ := Partition.blockBitmapAlloc_run hfit hi hclear
  obtain ⟨d, hsync, hdata⟩ := bitmapSync_block_run (s := { s with part := s.part.take n })
    (hfit.take n) (n := n) (show n < 8 * s.part.blockBitmap.bmapBytesLen by omega)
    (show s.part.sb.dataStartLba ≤ maxLba by omega)
  refine ⟨n, hle, d, hfree, hbelow, ?_, hdata⟩
  have hidx := Partition.blockBitmapIdx_eq (hfit.take n) (n := n)
    (show n < 8 * s.part.blockBitmap.bmapBytesLen by omega)
  simp only [Partition.take_sb] at hidx
  simp only [allocSynced]
  rw [Prog.bind_of_run (blockBitmapAlloc_lift halloc), if_neg (by omega),
    Prog.bind_of_run (Prog.get_run _), hidx,
    Prog.bind_of_run (assertFs_run (by omega) _ _ _), Prog.bind_of_run hsync]
  rfl

/-! ### Weakest preconditions -/

theorem bitmapScan_error {b : Bitmap} {cnt : Nat} {e : Halt} (h : b.bitmapScan cnt = .error e) :
    e.IsPanic := by
  rcases bind_eq_error.mp h with h | ⟨_, _, h⟩
  · exact ASSERT_error h
  · exfalso
    revert h
    simp only
    split_ifs <;> simp

section Wp

variable {E : Halt → Prop} (hE : ∀ e : Halt, e.IsPanic → E e) {s : Fs}
include hE

/-- An allocation that returns has taken the lowest free block. -/
theorem wp_blockBitmapAlloc_lowest (hfit : s.part.DataFits) {Q : Int → Fs → Prop}
    (h : ∀ n, s.part.blockBitmap.LowestFree n →
      Q (s.part.sb.dataStartLba + n : Nat) { s with part := s.part.take n }) :
    Prog.wp E blockBitmapAlloc Q s := by
  have hint := hfit.int
  refine Prog.wp_get_bind (Prog.wp_bind (Prog.wp_lift ?_ ?_))
  · rintro ⟨lba, part⟩ hok
    simp only [Partition.blockBitmapAlloc, bind_eq_ok] at hok
    obtain ⟨bitIdx, hscan, hok⟩ := hok
    obtain ⟨n, rfl, hn, hclear, hbelow⟩ := Bitmap.scan_one (by omega) hscan
    rw [if_neg (by omega)] at hok
    simp only [Int.toNat_natCast, pure_eq_ok, Except.ok.injEq, Prod.mk.injEq] at hok
    obtain ⟨rfl, rfl⟩ := hok
    rw [Bitmap.int32_of_lt (by omega)]
    exact h n ⟨hn, hclear, hbelow⟩
  · intro e he
    rcases bind_eq_error.mp he with he | ⟨i, _, he⟩
    · exact hE e (bitmapScan_error he)
    · split at he <;> simp at he

/-- An allocation that returns has taken a free block. -/
theorem wp_blockBitmapAlloc (hfit : s.part.DataFits) {Q : Int → Fs → Prop}
    (h : ∀ n, n < 8 * s.part.blockBitmap.bmapBytesLen →
      s.part.blockBitmap.bitmapScanTest n = false →
      Q (s.part.sb.dataStartLba + n : Nat) { s with part := s.part.take n }) :
    Prog.wp E blockBitmapAlloc Q s :=
  wp_blockBitmapAlloc_lowest hE hfit fun n hn => h n hn.bit hn.free

/-- The write-back of the bitmap stays in front of the data area. -/
theorem wp_bitmapSync_block (hfit : s.part.DataFits) {n : Nat}
    (hn : n < 8 * s.part.blockBitmap.bmapBytesLen) {Q : Unit → Fs → Prop}
    (h : ∀ d, (∀ x, 512 * s.part.sb.dataStartLba ≤ x → d x = s.disk x) →
      Q () { s with disk := d }) : Prog.wp E (bitmapSync n .blockBitmap) Q s := by
  have hbm := hfit.bitmap
  refine Prog.wp_get_bind (wp_writeSectors hE (h _ fun x hx => ?_))
  exact Mem.splice_out (by omega)

end Wp

end ZyOs
