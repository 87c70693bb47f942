/-
What the steps of a call do to the disk and the bitmaps.

Each lemma gives the state a step leaves when it returns, as a function of the state it
found.  Assertions that fail and transfers past the end of the disk stop the call, so
they are no concern here.
-/
import ZyOs.Kernel.Remove
import ZyOs.Proofs.Block
import ZyOs.Proofs.Inode

namespace ZyOs

open Library

/-- The bitmap of a kind, and where it is on the disk. -/
def Partition.bitmapOf (part : Partition) : BitmapType → Bitmap
  | .inodeBitmap => part.inodeBitmap
  | .blockBitmap => part.blockBitmap

def Partition.bitmapLba (part : Partition) : BitmapType → Nat
  | .inodeBitmap => part.sb.inodeBitmapLba
  | .blockBitmap => part.sb.blockBitmapLba

/-- The sector of bit `n` has been written back. -/
def Fs.syncSector (s : Fs) (t : BitmapType) (n : Nat) : Fs :=
  { s with disk := s.disk.splice (512 * (s.part.bitmapLba t + n / 4096))
            ((s.part.bitmapOf t).bits.drop (n / 4096 * 512)) 512 }

/-- A bit of the block bitmap has been changed and its sector written back. -/
def Fs.changeBlock (s : Fs) (n : Nat) (v : Bool) : Fs :=
  { s with part := { s.part with blockBitmap := s.part.blockBitmap.bitmapSet n v } : Fs }.syncSector
    .blockBitmap n

/-- The inode has been written into the slot its number is cut down to. -/
def Fs.inodeSynced (s : Fs) (n : Inode) : Fs :=
  { s with disk := s.disk.splice (slotAddr s.part (n.iNo.toNat % 256)) n.pureMem Inode.size }

/-- The block at `lba` is one the block bitmap speaks of. -/
structure InData (part : Partition) (lba : Nat) : Prop where
  data : part.sb.dataStartLba ≤ lba
  bit : lba - part.sb.dataStartLba < 8 * part.blockBitmap.bmapBytesLen

variable {part : Partition} {s : Fs}

theorem InData.blockBitmapIdx (hfit : part.DataFits) {lba : Nat} (h : InData part lba) :
    part.blockBitmapIdx lba = lba - part.sb.dataStartLba := by
  have hdata := h.data
  have heq := Partition.blockBitmapIdx_eq hfit h.bit
  rwa [Nat.add_sub_cancel' hdata] at heq

/-! ### Bitmaps -/

section Steps

variable {E : Halt → Prop} (hE : ∀ e : Halt, e.IsPanic → E e)
include hE

theorem wp_bitmapSync {n : Nat} {t : BitmapType} {Q : Unit → Fs → Prop}
    (h : Q () (s.syncSector t n)) : Prog.wp E (bitmapSync n t) Q s := by
  refine Prog.wp_get_bind ?_
  cases t with
  | inodeBitmap => exact wp_writeSectors hE h
  | blockBitmap => exact wp_writeSectors hE h

/-- The lowest free block is taken. -/
theorem wp_allocSynced {func : String} (hfit : s.part.DataFits) {Q : Int → Fs → Prop}
    (h : ∀ n, s.part.blockBitmap.LowestFree n →
      Q (s.part.sb.dataStartLba + n : Nat) (s.changeBlock n true)) :
    Prog.wp E (allocSynced func) Q s := by
  refine Prog.wp_bind (wp_blockBitmapAlloc_lowest hE hfit fun n hn => ?_)
  have hidx := Partition.blockBitmapIdx_eq (hfit.take n) (n := n) hn.bit
  simp only [Partition.take_sb] at hidx
  rw [if_neg (by omega)]
  refine Prog.wp_get_bind (Prog.wp_bind (wp_assertFs hE fun _ => Prog.wp_bind ?_))
  rw [hidx]
  exact wp_bitmapSync hE (Prog.wp_pure (h n hn))

theorem wp_freeBlock (hfit : s.part.DataFits) {lba : UInt32} (hlba : InData s.part lba.toNat)
    {Q : Unit → Fs → Prop}
    (h : Q () (s.changeBlock (lba.toNat - s.part.sb.dataStartLba) false)) :
    Prog.wp E (freeBlock lba) Q s := by
  refine Prog.wp_get_bind (Prog.wp_bind (Prog.wp_modify ?_))
  rw [hlba.blockBitmapIdx hfit]
  exact wp_bitmapSync hE h

/-- The lowest free inode number is taken; the bitmap on disk does not know yet. -/
theorem wp_inodeBitmapAlloc (hlen : 8 * s.part.inodeBitmap.bmapBytesLen ≤ 2 ^ 31)
    {Q : Int → Fs → Prop} (h : ∀ n : Nat, s.part.inodeBitmap.LowestFree n →
      Q n { s with part := { s.part with
        inodeBitmap := s.part.inodeBitmap.bitmapSet n true } }) :
    Prog.wp E inodeBitmapAlloc Q s := by
  refine Prog.wp_get_bind (Prog.wp_bind (Prog.wp_lift ?_ ?_))
  · rintro ⟨no, part⟩ hok
    simp only [Partition.inodeBitmapAlloc, bind_eq_ok] at hok
    obtain ⟨bitIdx, hscan, hok⟩ := hok
    obtain ⟨n, rfl, hn, hclear, hbelow⟩ := Bitmap.scan_one hlen hscan
    rw [if_neg (by omega)] at hok
    simp only [Int.toNat_natCast, pure_eq_ok, Except.ok.injEq, Prod.mk.injEq] at hok
    obtain ⟨rfl, rfl⟩ := hok
    exact h n ⟨hn, hclear, hbelow⟩
  · intro e he
    rcases bind_eq_error.mp he with he | ⟨i, _, he⟩
    · exact hE e (bitmapScan_error he)
    · split at he <;> simp at he

/-! ### The inode table -/

/-- A slot is changed through the sectors it lies in. -/
theorem wp_slot {no cnt : Nat} (hcnt : no * 76 % 512 + 76 ≤ cnt * 512) {src ioBuf : Mem}
    {f : Mem → Mem} (hf : ∀ m : Mem, f m = m.splice (no * 76 % 512) src Inode.size)
    {Q : Unit → Fs → Prop}
    (h : Q () { s with disk := s.disk.splice (slotAddr s.part no) src Inode.size }) :
    Prog.wp E (do
      let buf ← readSectors (s.part.sb.inodeTableLba + no * 76 / 512) ioBuf cnt
      writeSectors (s.part.sb.inodeTableLba + no * 76 / 512) (f buf) cnt) Q s := by
  have haddr : slotAddr s.part no
      = 512 * (s.part.sb.inodeTableLba + no * 76 / 512) + no * 76 % 512 := by
    simp only [slotAddr, Inode.size]
    omega
  refine Prog.wp_bind (wp_readSectors hE (wp_writeSectors hE ?_))
  rw [hf, Mem.splice_window _ _ _ (by simpa using hcnt), ← haddr]
  exact h

theorem wp_inodeSync {n : Inode} {ioBuf : Mem} {Q : Unit → Fs → Prop}
    (h : Q () (s.inodeSynced n)) : Prog.wp E (inodeSync n ioBuf) Q s := by
  have hno : n.iNo.toNat % 256 < 256 := Nat.mod_lt _ (by decide)
  have hloc := inodeLocate_run s.part (show n.iNo.toNat % 256 < 4096 by omega)
  refine Prog.wp_get_bind (Prog.wp_bind (Prog.wp_lift (fun pos hpos => ?_) fun e he => ?_))
  · obtain rfl := Except.ok.inj (hloc.symm.trans hpos)
    refine Prog.wp_bind (wp_assertFs hE fun _ => Prog.wp_ite (fun htwo => ?_) fun hone => ?_)
    · exact wp_slot hE (by omega) (fun _ => rfl) h
    · simp only [decide_eq_true_eq] at hone
      exact wp_slot hE (by omega) (fun _ => rfl) h
  · exact absurd (hloc.symm.trans he) (by simp)

theorem wp_inodeDelete {no : Nat} {ioBuf : Mem} {Q : Unit → Fs → Prop}
    (h : no < 4096 →
      Q () { s with disk := s.disk.splice (slotAddr s.part no) (fun _ => 0) Inode.size }) :
    Prog.wp E (inodeDelete no ioBuf) Q s := by
  refine Prog.wp_bind (wp_assertFs hE fun hno => Prog.wp_get_bind ?_)
  have hloc := inodeLocate_run s.part hno
  refine Prog.wp_bind (Prog.wp_lift (fun pos hpos => ?_) fun e he => ?_)
  · obtain rfl := Except.ok.inj (hloc.symm.trans hpos)
    refine Prog.wp_bind (wp_assertFs hE fun _ => ?_)
    simp only [decide_eq_true_eq]
    by_cases htwo : 512 - no * 76 % 512 < 76
    · rw [if_pos htwo]
      exact wp_slot hE (f := fun m => m.fill (no * 76 % 512) 0 Inode.size) (by omega)
        (fun m => rfl) (h hno)
    · rw [if_neg htwo]
      exact wp_slot hE (f := fun m => m.fill (no * 76 % 512) 0 Inode.size) (by omega)
        (fun m => rfl) (h hno)
  · exact absurd (hloc.symm.trans he) (by simp)

end Steps

end ZyOs
