/-
When a creation returns.

`bitmap_scan` asserts that there is a free bit, so a creation comes back only when every number
and every block it takes is there: the number of the inode, the block of a new directory, and the
blocks the entry needs in the parent.  A file is refused for a full file table after its number
was taken and before a block is.
-/
import ZyOs.Library.Exact
import ZyOs.Proofs.Place
import ZyOs.Proofs.Rmdir

namespace ZyOs

open Library

/-- There is room for a file in the directory with the inode `n`: its number, and the blocks for
its entry unless the file table is full. -/
structure RoomForFile (s : Fs) (n : Inode) : Prop where
  number : Room s.part.inodeBitmap 1
  blocks : getFreeSlotInGlobal s.fileTable = none ∨
    Room s.part.blockBitmap (blocksNeeded s.disk n)

/-- There is room for a directory in the one with the inode `n`: its number, its first block and
the blocks for its entry. -/
structure RoomForDir (s : Fs) (n : Inode) : Prop where
  number : Room s.part.inodeBitmap 1
  blocks : Room s.part.blockBitmap (blocksNeeded s.disk n + 1)

variable {E : Halt → Prop} {b : Bitmap} {s s' : Fs} {a k m no : Nat} {n n' : Inode}
  {pl : Spot} {src : Mem} {d d' : Disk} {pDe : DirEntry} {env : FsEnv}

/-! ### Room -/

/-- The place that was found took the blocks that were needed. -/
theorem Spot.Fits.room (h : pl.Fits s n) : Room s.part.blockBitmap (blocksNeeded s.disk n) := by
  cases pl with
  | slot k i =>
      have hslot : HasSlot s.disk n := by
        refine ⟨k, h.1, fun j hj => ?_, i, h.2.2.2.1, h.2.2.2.2⟩
        by_cases hjk : j = k
        · exact hjk ▸ h.2.2.1
        · exact (h.2.1 j (by omega)).1
      rw [blocksNeeded, if_pos hslot]
      exact room_zero _
  | block k m =>
      rw [blocksNeeded_block h.2.1 h.1 h.2.2.1]
      exact h.2.2.2.room (room_zero _)
  | table m m' =>
      rw [blocksNeeded_table h.1]
      exact h.2.1.room (h.2.2.room (room_zero _))

/-- The partition stays on its drive. -/
theorem Spot.Fits.onDrive (hs : OnDrive s.part) (h : pl.Fits s (s.inodes a)) (src : Mem) :
    OnDrive (s.placedAs a src pl).part := by
  cases pl with
  | slot k i => exact hs
  | block k m => exact hs.set (.inl h.2.2.2) true
  | table m m' => exact (hs.set (.inl h.2.1) true).set (.inl h.2.2) true

theorem blocksNeeded_eq (hslot : HasSlot d n ↔ HasSlot d' n')
    (hzero : (∃ k < 12, n.sector k = 0) ↔ ∃ k < 12, n'.sector k = 0) :
    blocksNeeded d n = blocksNeeded d' n' := by
  unfold blocksNeeded
  by_cases hs : HasSlot d n
  · rw [if_pos hs, if_pos (hslot.mp hs)]
  · rw [if_neg hs, if_neg fun hc => hs (hslot.mpr hc)]
    by_cases hz : ∃ k < 12, n.sector k = 0
    · rw [if_pos hz, if_pos (hzero.mp hz)]
    · rw [if_neg hz, if_neg fun hc => hz (hzero.mpr hc)]

/-- What an insertion needs is read off the blocks of the directory. -/
theorem blocksNeeded_untouched (hu : Untouched d d' n) : blocksNeeded d' n = blocksNeeded d n := by
  refine blocksNeeded_eq ?_ Iff.rfl
  · refine exists_congr fun k => and_congr_right fun hk => and_congr_right fun hsome =>
      exists_congr fun i => and_congr_right fun hi => not_congr (inUse_congr (hu.entryAt ?_))
    refine mem_slots_own.mpr ⟨k, i, by omega, ?_, hi, by rw [own_direct _ _ hk]⟩
    rw [own_direct _ _ hk]
    exact toNat_ne_zero.mpr (hsome k le_rfl)

theorem blocksNeeded_congr (h : Inode.Same n n') (d : Disk) :
    blocksNeeded d n = blocksNeeded d n' := by
  have hsec : ∀ k < 12, n.sector k = n'.sector k := fun k hk => h.sectors k (by omega)
  refine blocksNeeded_eq ?_ (exists_congr fun k => and_congr_right fun hk => by rw [hsec k hk])
  refine exists_congr fun k => and_congr_right fun hk => ?_
  rw [Inode.blk, Inode.blk, hsec k hk]
  refine and_congr_left fun _ => forall₂_congr fun j hj => ?_
  rw [hsec j (by omega)]

/-! ### Taking -/

/-- `inode_bitmap_alloc` -/
theorem wp_takeInode (hs : OnDrive s.part)
    (hE : Prog.Granted E (Room s.part.inodeBitmap 1)) {Q : Int → Fs → Prop}
    (h : ∀ m : Nat, s.part.inodeBitmap.LowestFree m → Q m { s with part := { s.part with
      inodeBitmap := s.part.inodeBitmap.bitmapSet m true } }) :
    Prog.wp E inodeBitmapAlloc Q s := by
  have hlen : 8 * s.part.inodeBitmap.bmapBytesLen ≤ 2 ^ 31 := by
    have := hs.ordered.inodeBytes
    omega
  have hsup : Supplies E s.part.inodeBitmap (0 + 1) := hE.imp_right fun hall e _ => hall e
  refine wp_scan hsup (fun i hi hfree => ?_) fun E' hE' => wp_inodeBitmapAlloc hE' hlen h
  obtain ⟨j, hscan⟩ := Bitmap.scan_one_returns hi hfree
  obtain ⟨m, rfl, -⟩ := Bitmap.scan_one hlen hscan
  have halloc : s.part.inodeBitmapAlloc
      = .ok (m, { s.part with inodeBitmap := s.part.inodeBitmap.bitmapSet m true }) := by
    simp only [Partition.inodeBitmapAlloc, hscan, ok_bind]
    rw [if_neg (by omega)]
    rfl
  have hrun : inodeBitmapAlloc s = .ok ((m : Int), { s with part := { s.part with
      inodeBitmap := s.part.inodeBitmap.bitmapSet m true } }) := by
    simp only [inodeBitmapAlloc]
    rw [Prog.bind_of_run (Prog.get_run s), Prog.bind_of_run (Prog.lift_run.mpr ⟨halloc, rfl⟩)]
    rfl
  exact ⟨_, _, hrun⟩

/-- `sync_dir_entry` -/
theorem wp_enterEntry (hs : OnDrive s.part) (ho : OwnBlocks s.part s.disk (s.inodes a))
    (hsize : (s.inodes a).iSize.toNat % 24 = 0)
    (hE : Prog.Granted E (Room s.part.blockBitmap (blocksNeeded s.disk (s.inodes a))))
    {buf : Mem} {Q : Bool → Fs → Prop}
    (h : ∀ s', Room s.part.blockBitmap (blocksNeeded s.disk (s.inodes a)) → OnDrive s'.part →
      Q true s') : Prog.wp E (syncDirEntry a pDe buf) Q s :=
  wp_syncDirEntryAs hs ho (hE.imp_right fun hall e _ => hall e) hsize fun _ hpl =>
    h _ hpl.room (hpl.onDrive hs _)

theorem wp_entryOf {filename : List UInt8} (hname : filename.length ≤ maxFileNameLen)
    {iNo fType : UInt32} {Q : DirEntry → Fs → Prop} (h : ∀ pDe, Q pDe s) :
    Prog.wp E (Prog.lift (createDirEntry filename iNo fType DirEntry.zero)) Q s := by
  rw [createDirEntry, ASSERT_pos hname]
  exact h _

theorem wp_syncNumber (hs : OnDrive s.part) (hno : no < 4096) {Q : Unit → Fs → Prop}
    (h : Q () (s.syncSector .inodeBitmap no)) : Prog.wp E (bitmapSync no .inodeBitmap) Q s := by
  refine wp_sync hs ?_ h
  show no < 8 * s.part.inodeBitmap.bmapBytesLen
  rw [hs.ordered.inodeBytes]
  exact hno

/-! ### Creating -/

theorem wp_pcbFdInstall {g : Nat} {Q : Int → Fs → Prop} (h : ∀ r s', Q r s') :
    Prog.wp E (pcbFdInstall g) Q s := by
  refine Prog.wp_get_bind ?_
  cases freeFdFrom (s.tasks s.cur).fdTable (maxFilesOpenPerProc - 3) 3 with
  | none => exact Prog.wp_pure (h _ _)
  | some fd => exact Prog.wp_bind (Prog.wp_get_bind (Prog.wp_set (Prog.wp_pure (h _ _))))

/-- The directory whose inode is at `a` and the block bitmap are as they were. -/
structure Unentered (s s' : Fs) (a : Nat) : Prop where
  drive : OnDrive s'.part
  sb : s'.part.sb = s.part.sb
  blocks : s'.part.blockBitmap = s.part.blockBitmap
  disk : s'.disk = s.disk
  inode : s'.inodes a = s.inodes a

theorem unentered_takeInode (hs : OnDrive s.part) (m a : Nat) :
    Unentered s { s with part := { s.part with
      inodeBitmap := s.part.inodeBitmap.bitmapSet m true } } a :=
  ⟨hs.setInode m true, rfl, rfl, rfl, rfl⟩

theorem Unentered.owns (h : Unentered s s' a) (ho : OwnBlocks s.part s.disk (s.inodes a)) :
    OwnBlocks s'.part s'.disk (s'.inodes a) := by
  rw [h.disk, h.inode]
  refine ho.mono fun k _ _ hused => ⟨⟨?_, ?_, ?_⟩, hused.drive⟩
  · rw [h.sb]
    exact hused.data
  · rw [h.sb, h.blocks]
    exact hused.bit
  · rw [h.sb, h.blocks]
    exact hused.used

/-- The entry is put into the directory as it was. -/
theorem Unentered.wp_enter (h : Unentered s s' a) (ho : OwnBlocks s.part s.disk (s.inodes a))
    (hsize : (s.inodes a).iSize.toNat % 24 = 0)
    (hE : Prog.Granted E (Room s.part.blockBitmap (blocksNeeded s.disk (s.inodes a))))
    {buf : Mem} {Q : Bool → Fs → Prop}
    (hQ : ∀ s₁, Room s.part.blockBitmap (blocksNeeded s.disk (s.inodes a)) → OnDrive s₁.part →
      Q true s₁) : Prog.wp E (syncDirEntry a pDe buf) Q s' := by
  refine wp_enterEntry h.drive (h.owns ho) (h.inode ▸ hsize) ?_ fun s₁ hroom hdrive => ?_
  · rw [h.blocks, h.disk, h.inode]
    exact hE
  · rw [h.blocks, h.disk, h.inode] at hroom
    exact hQ s₁ hroom hdrive

section Parent

variable (hs : OnDrive s.part) (ho : OwnBlocks s.part s.disk (s.inodes a))
  (hsize : (s.inodes a).iSize.toNat % 24 = 0)
include hs ho hsize

/-- `file_create` returns when there is room, and had there been none it would not have. -/
theorem wp_fileCreate (ha : a ∈ s.heap) {filename : List UInt8} {flag : Nat}
    (hname : filename.length ≤ maxFileNameLen)
    (hE : Prog.Granted E (RoomForFile s (s.inodes a))) :
    Prog.wp E (fileCreate env a filename flag) (fun _ _ => RoomForFile s (s.inodes a)) s := by
  refine Prog.wp_bind (wp_takeInode hs (hE.imp RoomForFile.number) fun m hm => ?_)
  have hroom : Room s.part.inodeBitmap 1 := hm.room (room_zero _)
  have hm4096 : m < 4096 := by
    have hbit := hm.bit
    rw [hs.ordered.inodeBytes] at hbit
    exact hbit
  have hnew : a ≠ env.newAddr s.heap := fun hc => env.newAddr_fresh s.heap (hc ▸ ha)
  rw [if_neg (by omega)]
  refine Prog.wp_get_bind (Prog.wp_bind (Prog.wp_modify (Prog.wp_bind (wp_putInode ?_))))
  refine Prog.wp_get_bind ?_
  cases hslot : getFreeSlotInGlobal s.fileTable with
  | none =>
      simp only [Fs.withInode, hslot]
      exact Prog.wp_bind (Prog.wp_modify (Prog.wp_bind (Prog.wp_modify (Prog.wp_pure
        ⟨hroom, .inl hslot⟩))))
  | some fdIdx =>
      simp only [Fs.withInode, hslot]
      refine Prog.wp_bind (Prog.wp_modify (Prog.wp_get_bind (Prog.wp_bind (wp_putInode ?_))))
      refine Prog.wp_bind (wp_entryOf hname fun pDe => ?_)
      refine Prog.wp_bind (Unentered.wp_enter ?_ ho hsize
        (hE.imp fun hall => hall.blocks.resolve_left (by rw [hslot]; simp))
        fun s₁ hblocks hdrive => ?_)
      · exact ⟨hs.setInode m true, rfl, rfl, rfl,
          (withInode_ne _ _ _ _ hnew).trans (withInode_ne _ _ _ _ hnew)⟩
      refine Prog.wp_ite (fun _ => ?_) fun hc => absurd rfl hc
      refine Prog.wp_get_bind (Prog.wp_bind (wp_syncInode hdrive.fits (Prog.wp_get_bind
        (Prog.wp_bind (wp_syncInode (by exact hdrive.fits) ?_)))))
      refine Prog.wp_bind (wp_syncNumber (by exact hdrive) hm4096 ?_)
      refine Prog.wp_bind (Prog.wp_modify (Prog.wp_get_bind (Prog.wp_bind (wp_putInode ?_))))
      exact wp_pcbFdInstall fun _ _ => ⟨hroom, .inr hblocks⟩

omit hsize in
/-- A new block that is written is none of the directory. -/
theorem untouched_newBlock (hm : s.part.blockBitmap.LowestFree m) (src : Mem) :
    Untouched s.disk ((s.changeBlock m true).disk.splice (512 * (s.part.sb.dataStartLba + m))
      src 512) (s.inodes a) := by
  intro k hk hne i hi
  have hother := (ho.used k hk hne).ne_of_free hm.free
  have hdata := (ho.used k hk hne).data
  have htable := hs.ordered.table
  rw [Mem.splice_out (by omega)]
  exact changeBlock_front hs.ordered hm.bit true _ (by omega)

/-- The entry is put into the directory once a block was taken and written. -/
theorem wp_enterNew (hm : s.part.blockBitmap.LowestFree m)
    (hsup : Supplies E (s.part.take m).blockBitmap (blocksNeeded s.disk (s.inodes a))) (src : Mem)
    {b : Nat} (hb : b = a) {buf : Mem} {Q : Bool → Fs → Prop}
    (hQ : ∀ s₁, Room s.part.blockBitmap (blocksNeeded s.disk (s.inodes a) + 1) →
      OnDrive s₁.part → Q true s₁) :
    Prog.wp E (syncDirEntry b pDe buf) Q ((s.changeBlock m true).withDisk
      ((s.changeBlock m true).disk.splice (512 * (s.part.sb.dataStartLba + m)) src 512)) := by
  have hu := untouched_newBlock hs ho hm src
  have hdrive : OnDrive (s.part.take m) := hs.set (.inl hm) true
  have hown : OwnBlocks (s.part.take m) s.disk (s.inodes a) :=
    ho.mono fun k hk hne hused => hused.take m
  rw [hb]
  obtain ⟨t, ht⟩ : ∃ t, t = (s.changeBlock m true).withDisk
    ((s.changeBlock m true).disk.splice (512 * (s.part.sb.dataStartLba + m)) src 512) := ⟨_, rfl⟩
  have hpart : t.part = s.part.take m := by rw [ht]; rfl
  have hin : t.inodes = s.inodes := by rw [ht]; rfl
  rw [← ht]
  rw [show (s.changeBlock m true).disk.splice (512 * (s.part.sb.dataStartLba + m)) src 512
    = t.disk by rw [ht]; rfl] at hu
  rw [← blocksNeeded_untouched hu, ← hpart, ← hin] at hsup
  refine wp_syncDirEntryAs (hpart ▸ hdrive) ?_ hsup (hin ▸ hsize) fun pl hpl => ?_
  · rw [hpart, hin]
    exact hown.untouched hu
  · refine hQ _ ?_ (hpl.onDrive (hpart ▸ hdrive) _)
    have hroom := hpl.room
    rw [hpart, hin, blocksNeeded_untouched hu] at hroom
    exact hm.room hroom

/-- `sys_mkdir` from where the number was taken. -/
theorem wp_makeDir {d : DirPtr} (hd : d.inode s = a)
    (hfirst : s.part.blockBitmap.bitmapScanTest 0 = true) (hno : no < 4096) {dirname : List UInt8}
    (hname : dirname.length ≤ maxFileNameLen)
    (hE : Prog.Granted E (Room s.part.blockBitmap (blocksNeeded s.disk (s.inodes a) + 1))) :
    Prog.wp E (makeDir d dirname no)
      (fun _ _ => Room s.part.blockBitmap (blocksNeeded s.disk (s.inodes a) + 1)) s := by
  have hsup : Supplies E s.part.blockBitmap (blocksNeeded s.disk (s.inodes a) + 1) :=
    hE.imp_right fun hall e _ => hall e
  refine Prog.wp_bind (wp_takeBlock hs hsup fun m hm hsup' => ?_)
  obtain ⟨hlba, hdrive⟩ := OnDrive.lba hs hm
  have hidx : (s.part.take m).blockBitmapIdx (s.part.sb.dataStartLba + m : Nat) = m :=
    Partition.blockBitmapIdx_eq (hs.dataFits.take m) hm.bit
  have hm0 : m ≠ 0 := by
    rintro rfl
    have hfree := hm.free
    rw [hfirst] at hfree
    cases hfree
  have hsector : (((inodeInit no).setSector 0 (u32 (s.part.sb.dataStartLba + m : Nat))).sector
      0).toNat = s.part.sb.dataStartLba + m := by
    rw [Inode.sector_setSector _ _ (by omega), if_pos rfl, hlba]
  rw [if_neg (by omega)]
  refine Prog.wp_get_bind ?_
  simp only [hidx]
  refine Prog.wp_bind (wp_assert (by rw [hidx]; exact hm0) (Prog.wp_bind ?_))
  refine wp_sync (hs.set (.inl hm) true) (show m < 8 * s.part.blockBitmap.bmapBytesLen from hm.bit)
    (Prog.wp_get_bind ?_)
  rw [hsector]
  refine Prog.wp_bind (wp_write hdrive (Prog.wp_bind (wp_entryOf hname fun pDe =>
    Prog.wp_get_bind ?_)))
  have hdir : ∀ u : Fs, u.rootInode = s.rootInode → d.inode u = a := by
    intro u hu
    cases d with
    | root => exact hu.trans hd
    | opened b => exact hd
  refine Prog.wp_bind (wp_enterNew hs ho hsize hm hsup' _ (by exact hdir _ rfl)
    fun s₁ hroom hdrive₁ => ?_)
  refine Prog.wp_ite (fun _ => ?_) fun hc => absurd rfl hc
  refine Prog.wp_get_bind (Prog.wp_bind (wp_syncInode hdrive₁.fits (Prog.wp_bind
    (wp_syncInode (by exact hdrive₁.fits) (Prog.wp_bind
      (wp_syncNumber (by exact hdrive₁) hno ?_))))))
  exact Prog.wp_bind (wp_dirClose fun _ _ _ => Prog.wp_pure hroom)

end Parent

/-- `sys_mkdir` in the directory as it was. -/
theorem Unentered.wp_makeDir (h : Unentered s s' a) (ho : OwnBlocks s.part s.disk (s.inodes a))
    (hsize : (s.inodes a).iSize.toNat % 24 = 0) {d : DirPtr} (hd : d.inode s' = a)
    (hfirst : s.part.blockBitmap.bitmapScanTest 0 = true) (hno : no < 4096) {dirname : List UInt8}
    (hname : dirname.length ≤ maxFileNameLen)
    (hE : Prog.Granted E (Room s.part.blockBitmap (blocksNeeded s.disk (s.inodes a) + 1))) :
    Prog.wp E (makeDir d dirname no)
      (fun _ _ => Room s.part.blockBitmap (blocksNeeded s.disk (s.inodes a) + 1)) s' := by
  have hmake := ZyOs.wp_makeDir (E := E) h.drive (h.owns ho) (h.inode ▸ hsize) hd
    (h.blocks ▸ hfirst) hno hname
  rw [h.blocks, h.disk, h.inode] at hmake
  exact hmake hE

end ZyOs
