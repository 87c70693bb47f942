/-
Taking blocks and inodes when there may be none left.

With the `bitmap_scan` its header promises an allocation either finds the bitmap full, and then
nothing has happened, or it takes the lowest free bit.  `sync_dir_entry` is the only caller that
undoes anything by itself: when there is a block for the indirect table and none behind it, the
bit of the table is cleared again, in memory only.
-/
import ZyOs.Proofs.Effects
import ZyOs.Proofs.OpenInodes

namespace ZyOs

open Library

variable {s s' : Fs} {part : Partition} {b : Bitmap} {n pdir : Nat}

/-! ### Looking for a free bit -/

/-- The scan finds the first free bit, or there is none. -/
theorem scanOrFail_one (hlen : 8 * b.bmapBytesLen ≤ 2 ^ 31) :
    scanOrFail b 1 = .ok (-1) ∧ b.Full ∨ ∃ n : Nat, scanOrFail b 1 = .ok n ∧ b.LowestFree n := by
  rw [scanOrFail]
  cases hscan : b.bitmapScan 1 with
  | ok i =>
      obtain ⟨n, rfl, hn, hfree, hbelow⟩ := Bitmap.scan_one hlen hscan
      exact .inr ⟨n, rfl, hn, hfree, hbelow⟩
  | error e =>
      refine .inl ⟨rfl, fun i hi => ?_⟩
      by_contra hclear
      obtain ⟨j, hj⟩ := Bitmap.scan_one_returns hi (by simpa using hclear)
      rw [hscan] at hj
      cases hj

theorem Partition.blockBitmapAllocWith_cases (hfit : part.DataFits) :
    part.blockBitmapAllocWith scanOrFail = .ok (-1, part) ∧ part.blockBitmap.Full ∨
    ∃ n, part.blockBitmapAllocWith scanOrFail
      = .ok ((part.sb.dataStartLba + n : Nat), part.take n) ∧ part.blockBitmap.LowestFree n := by
  have hint := hfit.int
  rw [Partition.blockBitmapAllocWith]
  obtain ⟨hscan, hfull⟩ | ⟨n, hscan, hn⟩ := @scanOrFail_one part.blockBitmap (by omega)
  · rw [hscan, ok_bind, if_pos rfl]
    exact .inl ⟨rfl, hfull⟩
  · have hbit := hn.bit
    rw [hscan, ok_bind, if_neg (by omega), Int.toNat_natCast, Bitmap.int32_of_lt (by omega)]
    exact .inr ⟨n, rfl, hn⟩

theorem Partition.inodeBitmapAllocWith_cases (hlen : 8 * part.inodeBitmap.bmapBytesLen ≤ 2 ^ 31) :
    part.inodeBitmapAllocWith scanOrFail = .ok (-1, part) ∧ part.inodeBitmap.Full ∨
    ∃ n : Nat, part.inodeBitmapAllocWith scanOrFail
      = .ok (n, { part with inodeBitmap := part.inodeBitmap.bitmapSet n true }) ∧
      part.inodeBitmap.LowestFree n := by
  rw [Partition.inodeBitmapAllocWith]
  obtain ⟨hscan, hfull⟩ | ⟨n, hscan, hn⟩ := scanOrFail_one hlen
  · rw [hscan, ok_bind, if_pos rfl]
    exact .inl ⟨rfl, hfull⟩
  · rw [hscan, ok_bind, if_neg (by omega), Int.toNat_natCast]
    exact .inr ⟨n, rfl, hn⟩

/-! ### Rules -/

section Wp

variable {E : Halt → Prop}

/-- `block_bitmap_alloc` -/
theorem wp_blockBitmapAllocWith (hfit : s.part.DataFits) {Q : Int → Fs → Prop}
    (hfull : s.part.blockBitmap.Full → Q (-1) s)
    (h : ∀ n, s.part.blockBitmap.LowestFree n →
      Q (s.part.sb.dataStartLba + n : Nat) { s with part := s.part.take n }) :
    Prog.wp E (blockBitmapAllocWith scanOrFail) Q s := by
  refine Prog.wp_get_bind (Prog.wp_bind ?_)
  obtain ⟨halloc, hf⟩ | ⟨n, halloc, hn⟩ := Partition.blockBitmapAllocWith_cases hfit
  · rw [halloc]
    exact hfull hf
  · rw [halloc]
    exact h n hn

/-- `inode_bitmap_alloc` -/
theorem wp_inodeBitmapAllocWith (hlen : 8 * s.part.inodeBitmap.bmapBytesLen ≤ 2 ^ 31)
    {Q : Int → Fs → Prop} (hfull : s.part.inodeBitmap.Full → Q (-1) s)
    (h : ∀ n : Nat, s.part.inodeBitmap.LowestFree n →
      Q n { s with part := { s.part with inodeBitmap := s.part.inodeBitmap.bitmapSet n true } }) :
    Prog.wp E (inodeBitmapAllocWith scanOrFail) Q s := by
  refine Prog.wp_get_bind (Prog.wp_bind ?_)
  obtain ⟨halloc, hf⟩ | ⟨n, halloc, hn⟩ := Partition.inodeBitmapAllocWith_cases hlen
  · rw [halloc]
    exact hfull hf
  · rw [halloc]
    exact h n hn

/-- The block is marked in memory and on disk. -/
theorem wp_allocSyncedWith (hE : ∀ e : Halt, e.IsPanic → E e) {func : String}
    (hfit : s.part.DataFits) {Q : Int → Fs → Prop} (hfull : s.part.blockBitmap.Full → Q (-1) s)
    (h : ∀ n, s.part.blockBitmap.LowestFree n →
      Q (s.part.sb.dataStartLba + n : Nat) (s.changeBlock n true)) :
    Prog.wp E (allocSyncedWith scanOrFail func) Q s := by
  refine Prog.wp_bind (wp_blockBitmapAllocWith hfit (fun hf => ?_) fun n hn => ?_)
  · exact Prog.wp_pure (hfull hf)
  · have hidx := Partition.blockBitmapIdx_eq (hfit.take n) (n := n) hn.bit
    simp only [Partition.take_sb] at hidx
    rw [if_neg (by omega)]
    refine Prog.wp_get_bind (Prog.wp_bind (wp_assertFs hE fun _ => Prog.wp_bind ?_))
    rw [hidx]
    exact wp_bitmapSync hE (Prog.wp_pure (h n hn))

end Wp

/-! ### An entry that finds no block -/

/-- What `sync_dir_entry` leaves when it has taken block `n` for the table and given it back. -/
def Fs.tableUndone (s : Fs) (pdir n : Nat) : Fs :=
  { s with disk := (s.changeBlock n true).disk : Fs }.withInode pdir
    ((s.inodes pdir).setSector 12 0)

/-- `sync_dir_entry` has failed: there was no block, or only the one for the table. -/
def EntryFailed (pdir : Nat) (s s' : Fs) : Prop :=
  s.part.blockBitmap.Full ∧ s' = s ∨
  ∃ n, s.part.blockBitmap.LowestFree n ∧ s' = s.tableUndone pdir n

theorem Inode.setSector_twice (n : Inode) (k : Nat) (v w : UInt32) :
    (n.setSector k v).setSector k w = n.setSector k w := by
  simp only [Inode.setSector, Inode.mk.injEq, true_and]
  funext j
  by_cases hj : j.val = k
  · rw [if_pos hj, if_pos hj]
  · rw [if_neg hj, if_neg hj, if_neg hj]

theorem Inode.setSector_self (n : Inode) (v : UInt32) : (n.setSector 12 v).sector 12 = v := by
  rw [sector_setSector _ _ (by decide), if_pos rfl]

/-- The block that was taken for the table is given back. -/
theorem undoTable_run (hfit : s.part.DataFits) (hn : s.part.blockBitmap.LowestFree n) {t : Fs}
    (ht : t = (s.changeBlock n true).withInode pdir
      ((s.inodes pdir).setSector 12 (u32 (s.part.sb.dataStartLba + n : Nat)))) :
    (do
      setBlockBit (t.part.blockBitmapIdx ((t.inodes pdir).sector 12).toNat) false
      putInode pdir ((t.inodes pdir).setSector 12 0)
      return false : FsM Bool) t = .ok (false, s.tableUndone pdir n) := by
  have hint := hfit.int
  have hbit := hn.bit
  have hinode : t.inodes pdir
      = (s.inodes pdir).setSector 12 (u32 (s.part.sb.dataStartLba + n : Nat)) := by
    rw [ht, withInode_self]
  have hidx : t.part.blockBitmapIdx ((t.inodes pdir).sector 12).toNat = n := by
    rw [hinode, Inode.setSector_self, toNat_u32 (by omega)]
    have hpart : t.part = s.part.take n := by rw [ht]; rfl
    rw [hpart]
    exact Partition.blockBitmapIdx_eq (hfit.take n) hbit
  have hpart : ({ t.part with blockBitmap := t.part.blockBitmap.bitmapSet n false } : Partition)
      = s.part := by
    rw [ht]
    show ({ s.part with blockBitmap := (s.part.blockBitmap.bitmapSet n true).bitmapSet n false }
      : Partition) = s.part
    rw [Bitmap.set_clear hn.free]
  have hinodes : (fun b => if b = pdir then (s.inodes pdir).setSector 12 0 else t.inodes b)
      = fun b => if b = pdir then (s.inodes pdir).setSector 12 0 else s.inodes b := by
    funext b
    by_cases hb : b = pdir
    · rw [if_pos hb, if_pos hb]
    · rw [if_neg hb, if_neg hb, ht, withInode_ne _ _ _ _ hb]
      rfl
  have hset : setBlockBit n false t = .ok ((), { t with part := s.part }) := by
    rw [← hpart]
    rfl
  have hput : putInode pdir ((s.inodes pdir).setSector 12 0) { t with part := s.part }
      = .ok ((), s.tableUndone pdir n) := by
    rw [putInode_run]
    refine congrArg (fun m => Except.ok ((), m)) ?_
    show ({ t with part := s.part, inodes := fun b => if b = pdir then
      (s.inodes pdir).setSector 12 0 else t.inodes b } : Fs) = _
    rw [hinodes, ht]
    rfl
  rw [hidx, Prog.bind_of_run hset, hinode, Inode.setSector_twice, Prog.bind_of_run hput,
    Prog.pure_run]

theorem wp_syncFinish_true (pDe : DirEntry) (ioBuf : Mem) (block : UInt32)
    {Q : Bool → Fs → Prop} (hQ : ∀ s', Q true s') :
    Prog.wp (fun _ => True) (syncFinish pdir pDe ioBuf block) Q s :=
  Prog.wp_get_bind (Prog.wp_bind (wp_writeSectors (fun _ _ => trivial) (Prog.wp_get_bind
    (Prog.wp_bind (Prog.wp_of_run (putInode_run _ _ _) (Prog.wp_pure (hQ _)))))))

/-- A block that is taken for an entry is used, or given back. -/
theorem wp_syncNewBlockWith (hfit : s.part.DataFits) (pdir : Nat) (pDe : DirEntry) (ioBuf : Mem)
    (blocks : Nat → UInt32) (blockIdx : Nat) : Prog.wp (fun _ => True)
      (syncNewBlockWith scanOrFail pdir pDe ioBuf blocks blockIdx)
      (fun ok s' => ok = false → EntryFailed pdir s s') s := by
  have hwrite : ∀ (lba : Nat) (buf : Mem) (block : UInt32) (t : Fs), Prog.wp (fun _ => True) (do
      writeSectors lba buf 1
      syncFinish pdir pDe ioBuf block) (fun ok s' => ok = false → EntryFailed pdir s s') t :=
    fun lba buf block t => Prog.wp_bind (wp_writeSectors (fun _ _ => trivial)
      (wp_syncFinish_true _ _ _ fun _ hc => by cases hc))
  refine Prog.wp_bind (wp_allocSyncedWith (fun _ _ => trivial) hfit (fun hfull => ?_)
    fun n hn => ?_)
  · exact Prog.wp_pure fun _ => .inl ⟨hfull, rfl⟩
  refine Prog.wp_ite (fun hc => absurd hc (by omega)) fun _ => Prog.wp_get_bind ?_
  refine Prog.wp_ite (fun _ => ?_) fun _ => Prog.wp_ite (fun _ => ?_) fun _ => hwrite _ _ _ _
  · exact Prog.wp_bind (Prog.wp_of_run (putInode_run _ _ _)
      (wp_syncFinish_true _ _ _ fun _ hc => by cases hc))
  refine Prog.wp_bind (Prog.wp_of_run (putInode_run _ _ _) (Prog.wp_bind ?_))
  refine wp_allocSyncedWith (fun _ _ => trivial) (hfit.take n) (fun _ => ?_) fun m hm => ?_
  · -- there was no second block, and the table's is given back
    refine Prog.wp_get_bind (Prog.wp_ite (fun _ => Prog.wp_get_bind ?_) fun hc => absurd rfl hc)
    exact Prog.wp_of_run (undoTable_run hfit hn rfl) fun _ => .inr ⟨n, hn, rfl⟩
  · exact Prog.wp_get_bind (Prog.wp_ite (fun hc => absurd hc (by omega)) fun _ => hwrite _ _ _ _)

theorem wp_syncLoopWith (pdir : Nat) (pDe : DirEntry) {blocks : Nat → UInt32}
    (hblocks : ∀ k, 12 ≤ k → blocks k = 0) (hfit : s.part.DataFits) :
    ∀ (fuel blockIdx : Nat) (ioBuf : Mem), 13 ≤ fuel + blockIdx → blockIdx ≤ 12 →
      Prog.wp (fun _ => True) (syncLoopWith scanOrFail pdir pDe blocks fuel blockIdx ioBuf)
        (fun ok s' => ok = false → EntryFailed pdir s s') s := by
  intro fuel
  induction fuel with
  | zero => intro blockIdx ioBuf hsum hle; omega
  | succ fuel ih =>
      intro blockIdx ioBuf hsum hle
      refine Prog.wp_get_bind (Prog.wp_ite (fun _ => wp_syncNewBlockWith hfit _ _ _ _ _)
        fun hne => ?_)
      have hlt : blockIdx < 12 := by
        by_contra hc
        exact hne (hblocks _ (by omega))
      refine Prog.wp_bind ((reads_readSectors _ _ _).wp fun buf => ?_)
      cases freeSlot buf (512 / s.part.sb.dirEntrySize) (512 / s.part.sb.dirEntrySize) 0 with
      | none => exact ih _ _ (by omega) (by omega)
      | some k =>
          exact Prog.wp_bind (wp_writeSectors (fun _ _ => trivial) (Prog.wp_get_bind
            (Prog.wp_bind (Prog.wp_of_run (putInode_run _ _ _) (Prog.wp_pure fun hc => by
              cases hc)))))

/-- **An entry is missed only when a block is.** -/
theorem wp_syncDirEntryWith (hfit : s.part.DataFits) (pdir : Nat) (pDe : DirEntry) (ioBuf : Mem) :
    Prog.wp (fun _ => True) (syncDirEntryWith scanOrFail pdir pDe ioBuf)
      (fun ok s' => ok = false → EntryFailed pdir s s') s := by
  refine Prog.wp_get_bind (Prog.wp_bind ((reads_assertFs _ _ _).wp fun _ => ?_))
  exact wp_syncLoopWith _ _ (fun k hk => if_neg (by omega)) hfit _ _ _ (by decide) (by decide)

/-! ### A partition with few blocks left -/

/-- A partition on which only the blocks with a clear bit in `bits` are free. -/
def scarceFs (bits : UInt8) : Fs :=
  { emptyFs with part := { emptyFs.part with
      blockBitmap := { bmapBytesLen := 512, bits := fun i => if i = 0 then bits else 0xff } } }

/-- It has been mounted. -/
def scarceMounted (bits : UInt8) : Fs := (filesysInit upwardEnv).after (scarceFs bits)

end ZyOs
