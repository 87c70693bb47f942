/-
`inode_release` frees the file and nothing else.

The inode is the one `inode_open` finds: the open one, or what its slot on disk holds.  Its
blocks are the direct ones, the ones its table names and the table.  After the call the block
bitmap differs at exactly these, the inode bitmap at exactly the number, and where the bitmaps
were on disk as in memory they still are, since every bit that is cleared is written back.
-/
import ZyOs.Proofs.Release
import ZyOs.Proofs.SyncedCalls

namespace ZyOs

open Library

/-- The inode `inode_open` finds under a number. -/
def theInode (s : Fs) (no : Nat) : Inode :=
  match findOpen s.inodes no s.openInodes with
  | some a => s.inodes a
  | none => diskInode s no

/-- An inode that is allocated: its number and its blocks are marked, and the first block of
the data area, which is the root's, is none of them. -/
structure Allocated (s : Fs) (no : Nat) : Prop where
  drive : OnDrive s.part
  number : no < 4096
  iNo : (theInode s no).iNo.toNat = no
  bit : s.part.inodeBitmap.bitmapScanTest no = true
  owns : OwnBlocks s.part s.disk (theInode s no)
  notFirst : ∀ k ≤ 140, own s.disk (theInode s no) k ≠ s.part.sb.dataStartLba

/-- Of the bitmaps, the blocks of `n` and the number `no` are cleared, and the disk follows. -/
structure FreesExactly (s s' : Fs) (no : Nat) (n : Inode) : Prop where
  blocks : ∀ m, s'.part.blockBitmap.bitmapScanTest m ≠ s.part.blockBitmap.bitmapScanTest m ↔
    OwnedBy s.disk n (s.part.sb.dataStartLba + m)
  blocksFree : ∀ m, OwnedBy s.disk n (s.part.sb.dataStartLba + m) →
    s'.part.blockBitmap.bitmapScanTest m = false
  numbers : ∀ m, s'.part.inodeBitmap.bitmapScanTest m ≠ s.part.inodeBitmap.bitmapScanTest m ↔
    m = no
  numberFree : s'.part.inodeBitmap.bitmapScanTest no = false
  synced : Synced s → Synced s'

variable {env : FsEnv} {part : Partition} {s s' : Fs} {a no : Nat} {n : Inode}

/-- Opening finds the inode and changes neither the disk nor the partition. -/
theorem inodeOpen_theInode (env : FsEnv) (hfit : s.part.TableFits) (hno : no < 4096) :
    ∃ a s', inodeOpen env no s = .ok (a, s') ∧ Inode.Same (s'.inodes a) (theInode s no) := by
  unfold theInode
  cases hfind : findOpen s.inodes no s.openInodes with
  | some a =>
      refine ⟨a, _, inodeOpen_hit hfind, ?_⟩
      rw [withInode_self]
      exact (Inode.Same.refl _).withCnts _
  | none =>
      refine ⟨_, _, inodeOpen_miss hfit hno hfind, ?_⟩
      rw [show (s.loaded (env.newAddr s.heap) (diskInode s no)).inodes (env.newAddr s.heap)
        = { diskInode s no with iOpenCnts := 1 } from withInode_self _ _ _]
      exact (Inode.Same.refl _).withCnts _

theorem ownedBy_congr {n' : Inode} (h : Inode.Same n n') (d : Disk) (lba : Nat) :
    OwnedBy d n lba ↔ OwnedBy d n' lba := by
  unfold OwnedBy
  rw [own_congr h]

theorem Allocated.used (h : Allocated s no) {lba : Nat}
    (hlba : OwnedBy s.disk (theInode s no) lba) : UsedBlock s.part lba := by
  obtain ⟨k, hk, hne, rfl⟩ := hlba
  exact h.owns.used k hk hne

/-- Every block of the file passes the assertion of `inode_release`. -/
theorem Allocated.releasable (h : Allocated s no) {lba : Nat}
    (hlba : OwnedBy s.disk (theInode s no) lba) : Releasable s.part lba := by
  have hused := h.used hlba
  obtain ⟨k, hk, -, rfl⟩ := hlba
  have hdata := hused.data
  have hfirst := h.notFirst k hk
  exact ⟨by omega, hused.bit, hused.drive⟩

/-- The files and directories of a tree, the root apart, are allocated so. -/
theorem Orderly.allocated {t : Tree} (h : Orderly s t) (hc : Cache s)
    (hno : no ∈ t.dirs ∪ t.files) (h0 : no ≠ 0) : Allocated s no := by
  have hroot : 0 ∈ t.dirs ∪ t.files := Finset.mem_union_left _ h.tree.root
  have hsame : Inode.Same (theInode s no) (diskInode s no) := by
    unfold theInode
    cases hfind : findOpen s.inodes no s.openInodes with
    | some a =>
        obtain ⟨hmem, hnum⟩ := findOpen_some hfind
        have heq := hc.same a hmem
        rwa [hnum] at heq
    | none => exact Inode.Same.refl _
  refine ⟨h.volume.drive, (h.volume.number no hno).1, ?_, h.volume.bit no hno,
    (h.volume.owns no hno).congr hsame.symm, fun k hk heq => ?_⟩
  · rw [hsame.iNo]
    exact (h.volume.number no hno).2
  · have hfirst : own s.disk (diskInode s 0) 0 = s.part.sb.dataStartLba := by
      rw [own_direct _ _ (by omega)]
      exact h.rootBlock
    have hne := h.tree.first 0 h.tree.root
    rw [own_congr hsame, ← hfirst] at heq
    refine h.volume.apart 0 hroot no hno (Ne.symm h0) 0 (by omega) k hk ?_ heq.symm
    rw [own_direct _ _ (by omega)]
    exact toNat_ne_zero.mpr hne.1

/-! ### The disk follows -/

section Follow

variable (ho : part.Ordered)
include ho

theorem Follows.releaseBlock (h : Follows part s ∅) {lba : UInt32} (hlba : InData part lba.toNat) :
    Prog.wp (fun _ => True) (releaseBlock lba) (fun _ s' => Follows part s' ∅) s := by
  refine Prog.wp_get_bind (Prog.wp_bind (wp_assertFs panic_allowed fun _ => ?_))
  refine wp_freeBlock panic_allowed (h.fits ho) (h.inData hlba) ?_
  have hnext := h.changeBlock ho (n := lba.toNat - s.part.sb.dataStartLba) (by
    rw [h.sb]
    exact hlba.bit) false
  rwa [Set.empty_sdiff] at hnext

theorem Follows.releaseBlocks (h : Follows part s ∅)
    (hown : ∀ lba, OwnedBy s.disk (s.inodes a) lba → InData part lba) :
    Prog.wp (fun _ => True) (releaseBlocks a) (fun _ s' => Follows part s' ∅) s := by
  refine wp_releaseBlocks_keeps (fun hlba h => h.releaseBlock ho hlba) h ?_ fun j hj => ?_
  · refine or_iff_not_imp_left.mpr fun h12 => hown _ ⟨140, le_rfl, ?_, (own_table _ _).symm⟩
    rw [own_table]
    exact toNat_ne_zero.mpr h12
  · exact or_iff_not_imp_left.mpr fun hne =>
      hown _ ⟨j, by omega, (own_ne_zero hj).mpr hne, (own_of_lt hj).symm⟩

theorem Follows.inodeRelease (h : Follows part s ∅) (hopen : inodeOpen env no s = .ok (a, s'))
    (hown : ∀ lba, OwnedBy s.disk (s'.inodes a) lba → InData part lba) :
    Prog.wp (fun _ => True) (inodeRelease env no) (fun _ s' => Follows part s' ∅) s := by
  obtain ⟨hdisk, hpart⟩ := inodeOpen_disk hopen
  have hbytes := ho.inodeBytes
  have htable := ho.inodes
  rw [← hdisk] at hown
  refine Prog.wp_bind (Prog.wp_of_run hopen (Prog.wp_get_bind (Prog.wp_bind
    (wp_assertFs panic_allowed fun _ => ?_))))
  refine Prog.wp_bind (Prog.wp_mono ((h.congr hdisk hpart).releaseBlocks ho hown) fun _ s₁ h₁ => ?_)
  refine Prog.wp_bind (Prog.wp_modify (Prog.wp_bind (wp_bitmapSync panic_allowed ?_)))
  refine Prog.wp_bind (wp_inodeDelete panic_allowed fun hno => ?_)
  refine Prog.wp_of_run (inodeClose_run a _) ?_
  obtain ⟨-, -, -, -, hdisk', hpart'⟩ := closed_rest ({ ({ s₁ with part := { s₁.part with
    inodeBitmap := s₁.part.inodeBitmap.bitmapSet no false } : Fs }.syncSector .inodeBitmap no) with
    disk := _ }) a
  refine Follows.congr ?_ hdisk' hpart'
  have hf := (h₁.setInode no false).sync ho (t := .inodeBitmap) (n := no)
    (show no < 8 * part.inodeBitmap.bmapBytesLen by omega)
  rw [Set.insert_sdiff_of_mem _ (Set.mem_singleton _), Set.empty_sdiff] at hf
  refine hf.write ho (.inr ?_) _
  show 512 * (part.sb.inodeBitmapLba + 1) ≤ 512 * s₁.part.sb.inodeTableLba + Inode.size * no
  rw [h₁.sb]
  omega

end Follow

/-! ### The call -/

/-- **`inode_release` clears the bits of the file's blocks, of its table and of its number, and
no other; and bitmaps that were on disk as in memory stay so.** -/
theorem inode_release_exact (env : FsEnv) (s : Fs) (no : Nat) (h : Allocated s no) :
    ∃ s', inodeRelease env no s = .ok ((), s') ∧ FreesExactly s s' no (theInode s no) := by
  obtain ⟨a, s₁, hopen, hsame⟩ := inodeOpen_theInode env h.drive.fits h.number
  obtain ⟨hdisk, hpart⟩ := inodeOpen_disk hopen
  have hown : ∀ lba, OwnedBy s.disk (s₁.inodes a) lba ↔ OwnedBy s.disk (theInode s no) lba :=
    ownedBy_congr hsame s.disk
  have hbits : Prog.wp (fun _ => False) (inodeRelease env no) (fun _ s' =>
      (∀ m, s'.part.blockBitmap.bitmapScanTest m = true ↔
        s.part.blockBitmap.bitmapScanTest m = true ∧
          ¬ OwnedBy s.disk (theInode s no) (s.part.sb.dataStartLba + m)) ∧
      s'.part.inodeBitmap = s.part.inodeBitmap.bitmapSet no false) s := by
    refine wp_inodeRelease h.drive h.number hopen (by rw [hsame.iNo]; exact h.iNo)
      (fun lba hlba => h.releasable ((hown lba).mp hlba)) fun s₂ hrel => ?_
    obtain ⟨-, -, -, -, -, hpart₂⟩ := closed_rest s₂ a
    rw [hpart₂]
    refine ⟨fun m => ?_, ?_⟩
    · rw [hrel.bits, hdisk, hpart, hown]
    · rw [hrel.inodeBitmap, hpart]
  have hfollow : Prog.wp (fun _ => True) (inodeRelease env no)
      (fun _ s' => Synced s → Synced s') s := by
    refine Prog.wp_of_returns fun u s' hrun hsync => ?_
    have hrel := (follows_start hsync).inodeRelease h.drive.ordered hopen fun lba hlba => by
      have hused := h.used ((hown lba).mp hlba)
      exact ⟨hused.data, hused.bit⟩
    exact (hrel.of_run hrun).synced
  obtain ⟨⟨⟨⟩, s'⟩, hrun⟩ := hbits.returns
  obtain ⟨⟨hblocks, hnumbers⟩, hsynced⟩ := (Prog.wp_and_returns hbits hfollow).of_run hrun
  refine ⟨s', hrun, fun m => ?_, fun m hm => ?_, fun m => ?_, ?_, hsynced⟩
  · constructor
    · intro hne
      by_contra hm
      refine hne (Bool.eq_iff_iff.mpr ?_)
      rw [hblocks]
      exact ⟨fun hb => hb.1, fun hb => ⟨hb, hm⟩⟩
    · intro hm heq
      have hused := (h.used hm).used
      rw [Nat.add_sub_cancel_left, ← heq] at hused
      exact ((hblocks m).mp hused).2 hm
  · rw [Bool.eq_false_iff]
    exact fun hb => ((hblocks m).mp hb).2 hm
  · rw [hnumbers, Bitmap.scanTest_set]
    by_cases hm : m = no
    · rw [if_pos hm, hm, h.bit]
      simp
    · rw [if_neg hm]
      simp [hm]
  · rw [hnumbers, Bitmap.scanTest_set, if_pos rfl]

/-- The directory of the small tree with its one block. -/
theorem inode_release_exact_small : ∃ s', inodeRelease upwardEnv 1 smallFs = .ok ((), s') ∧
    FreesExactly smallFs s' 1 (theInode smallFs 1) :=
  inode_release_exact upwardEnv smallFs 1
    (smallFs_orderly.allocated smallFs_cache (by decide) (by decide))

end ZyOs
