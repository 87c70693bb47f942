/-
What moving data leaves alone.

Reading and writing files, looking names up and putting entries into directories
change sectors, bitmaps, block lists, sizes and cursors.  Who has which inode open
is none of their business: `Quiet` says that it stays as it was, and every function
below the system calls has one lemma to that effect.
-/
import ZyOs.Kernel.Scarce
import ZyOs.Proofs.FsState

namespace ZyOs

open Library Library.Prog

/-- The same super block, and bitmaps of the same lengths. -/
structure Partition.Alike (q p : Partition) : Prop where
  sb : p.sb = q.sb
  blockLen : p.blockBitmap.bmapBytesLen = q.blockBitmap.bmapBytesLen
  inodeLen : p.inodeBitmap.bmapBytesLen = q.inodeBitmap.bmapBytesLen

namespace Partition.Alike

theorem refl (p : Partition) : p.Alike p := ⟨rfl, rfl, rfl⟩

theorem trans {p q r : Partition} (h : p.Alike q) (h' : q.Alike r) : p.Alike r :=
  ⟨h'.sb.trans h.sb, h'.blockLen.trans h.blockLen, h'.inodeLen.trans h.inodeLen⟩

end Partition.Alike

/-- Between the two states nobody opened or closed anything. -/
structure Quiet (s₀ s : Fs) : Prop where
  openInodes : s.openInodes = s₀.openInodes
  heap : s.heap = s₀.heap
  rootInode : s.rootInode = s₀.rootInode
  tasks : s.tasks = s₀.tasks
  cur : s.cur = s₀.cur
  fdInode : ∀ g, (s.fileTable g).fdInode = (s₀.fileTable g).fdInode
  fdFlag : ∀ g, (s.fileTable g).fdInode ≠ none →
    (s.fileTable g).fdFlag = (s₀.fileTable g).fdFlag
  iNo : ∀ a, (s.inodes a).iNo = (s₀.inodes a).iNo
  iOpenCnts : ∀ a, (s.inodes a).iOpenCnts = (s₀.inodes a).iOpenCnts
  writeDeny : ∀ a, (s.inodes a).writeDeny = (s₀.inodes a).writeDeny
  alike : s₀.part.Alike s.part

/-- The file system's code when it keeps quiet, whatever state that is measured from. -/
def KeepsQuiet {α : Type} (x : FsM α) : Prop := ∀ s₀, Preserves (Quiet s₀) x

/-- Code that does not change the state at all. -/
def ReadsOnly {α : Type} (x : FsM α) : Prop := ∀ P, Preserves P x

/-- After code that only reads, the state is the one before. -/
theorem ReadsOnly.wp {α : Type} {x : FsM α} (hx : ReadsOnly x) {Q : α → Fs → Prop} {s : Fs}
    (h : ∀ a, Q a s) : Prog.wp (fun _ => True) x Q s :=
  Prog.wp_mono ((hx (· = s)).wp rfl) fun a _ heq => heq ▸ h a

theorem Quiet.refl (s : Fs) : Quiet s s :=
  ⟨rfl, rfl, rfl, rfl, rfl, fun _ => rfl, fun _ _ => rfl, fun _ => rfl, fun _ => rfl, fun _ => rfl,
    .refl _⟩

theorem Quiet.trans {s s' s'' : Fs} (h : Quiet s s') (h' : Quiet s' s'') : Quiet s s'' where
  openInodes := h'.openInodes.trans h.openInodes
  heap := h'.heap.trans h.heap
  rootInode := h'.rootInode.trans h.rootInode
  tasks := h'.tasks.trans h.tasks
  cur := h'.cur.trans h.cur
  fdInode := fun g => (h'.fdInode g).trans (h.fdInode g)
  fdFlag := fun g hg => (h'.fdFlag g hg).trans (h.fdFlag g (h'.fdInode g ▸ hg))
  iNo := fun a => (h'.iNo a).trans (h.iNo a)
  iOpenCnts := fun a => (h'.iOpenCnts a).trans (h.iOpenCnts a)
  writeDeny := fun a => (h'.writeDeny a).trans (h.writeDeny a)
  alike := h.alike.trans h'.alike

variable {s₀ : Fs}

/-! ### The primitive steps -/

theorem reads_assertFs (c : Prop) [Decidable c] (func condition : String) :
    ReadsOnly (assertFs c func condition) := fun _ => Preserves.lift _

theorem reads_readSectors (lba n : Nat) (buf : Mem) : ReadsOnly (readSectors lba buf n) :=
  fun _ => Preserves.get_bind fun _ _ => Preserves.lift _

theorem reads_readTable (a : Nat) (func : String) (blocks : Nat → UInt32) :
    ReadsOnly (readTable a func blocks) :=
  fun _ => Preserves.get_bind fun _ _ => Preserves.bind (reads_assertFs _ _ _ _)
    fun _ => Preserves.bind (reads_readSectors _ _ _ _) fun _ => Preserves.pure _

/-! ### The disk, the bitmaps and the block lists -/

theorem Partition.blockBitmapAllocWith_alike {scan : Scan} {part : Partition} {r : Int × Partition}
    (h : part.blockBitmapAllocWith scan = .ok r) : part.Alike r.2 := by
  unfold Partition.blockBitmapAllocWith at h
  cases hscan : scan part.blockBitmap 1 with
  | error e => simp [hscan] at h
  | ok i =>
      rw [hscan, ok_bind] at h
      split_ifs at h <;> cases h <;> exact ⟨rfl, rfl, rfl⟩

theorem Partition.inodeBitmapAllocWith_alike {scan : Scan} {part : Partition} {r : Int × Partition}
    (h : part.inodeBitmapAllocWith scan = .ok r) : part.Alike r.2 := by
  unfold Partition.inodeBitmapAllocWith at h
  cases hscan : scan part.inodeBitmap 1 with
  | error e => simp [hscan] at h
  | ok i =>
      rw [hscan, ok_bind] at h
      split_ifs at h <;> cases h <;> exact ⟨rfl, rfl, rfl⟩

/-- A property that says nothing of the disk and the bitmaps, nor of the blocks an inode has. -/
structure Ignores (P : Fs → Prop) : Prop where
  disk : ∀ {s : Fs} (d : Disk), P s → P { s with disk := d }
  part : ∀ {s : Fs} (p : Partition), s.part.Alike p → P s → P { s with part := p }
  sector : ∀ {s : Fs} (a k : Nat) (v : UInt32), P s →
    Preserves P (putInode a ((s.inodes a).setSector k v))

namespace Ignores

variable {P : Fs → Prop} (h : Ignores P)
include h

theorem writeSectors (lba n : Nat) (buf : Mem) : Preserves P (writeSectors lba buf n) :=
  Preserves.get_bind fun _ hs => Preserves.bind (Preserves.lift _) fun d =>
    Preserves.set (h.disk d hs)

theorem inodeBitmapAllocWith (scan : Scan) : Preserves P (inodeBitmapAllocWith scan) :=
  Preserves.get_bind fun _ hs => Preserves.lift_bind fun r hr =>
    Preserves.bind (Preserves.set (h.part r.2 (Partition.inodeBitmapAllocWith_alike hr) hs))
      fun _ => Preserves.pure _

theorem blockBitmapAllocWith (scan : Scan) : Preserves P (blockBitmapAllocWith scan) :=
  Preserves.get_bind fun _ hs => Preserves.lift_bind fun r hr =>
    Preserves.bind (Preserves.set (h.part r.2 (Partition.blockBitmapAllocWith_alike hr) hs))
      fun _ => Preserves.pure _

theorem setInodeBit (idx : Nat) (value : Bool) : Preserves P (setInodeBit idx value) :=
  Preserves.modify fun _ hs => h.part _ ⟨rfl, rfl, rfl⟩ hs

theorem setBlockBit (idx : Nat) (value : Bool) : Preserves P (setBlockBit idx value) :=
  Preserves.modify fun _ hs => h.part _ ⟨rfl, rfl, rfl⟩ hs

theorem bitmapSync (bitIdx : Nat) (btmpType : BitmapType) :
    Preserves P (bitmapSync bitIdx btmpType) := by
  refine Preserves.get_bind fun s _ => ?_
  cases btmpType with
  | inodeBitmap => exact h.writeSectors _ _ _
  | blockBitmap => exact h.writeSectors _ _ _

theorem inodeSync (n : Inode) (ioBuf : Mem) : Preserves P (inodeSync n ioBuf) := by
  refine Preserves.get_bind fun s _ =>
    Preserves.bind (Preserves.lift _) fun pos =>
    Preserves.bind (reads_assertFs _ _ _ _) fun _ => ?_
  refine Preserves.ite (fun _ => ?_) fun _ => ?_
  · exact Preserves.bind (reads_readSectors _ _ _ _) fun _ => h.writeSectors _ _ _
  · exact Preserves.bind (reads_readSectors _ _ _ _) fun _ => h.writeSectors _ _ _

theorem allocSyncedWith (scan : Scan) (func : String) :
    Preserves P (allocSyncedWith scan func) := by
  refine Preserves.bind (h.blockBitmapAllocWith scan) fun _ => ?_
  refine Preserves.ite (fun _ => Preserves.pure _) fun _ => ?_
  refine Preserves.get_bind fun s _ => Preserves.bind (reads_assertFs _ _ _ _) fun _ => ?_
  exact Preserves.bind (h.bitmapSync _ _) fun _ => Preserves.pure _

theorem firstBlockWith (scan : Scan) (a : Nat) : Preserves P (firstBlockWith scan a) := by
  refine Preserves.get_bind fun s hs => Preserves.ite (fun _ => ?_)
    fun _ => Preserves.pure _
  refine Preserves.bind (h.blockBitmapAllocWith scan) fun _ =>
    Preserves.ite (fun _ => Preserves.pure _) fun _ => ?_
  refine Preserves.bind (h.sector a 0 _ hs) fun _ =>
    Preserves.get_bind fun _ _ => Preserves.bind (reads_assertFs _ _ _ _) fun _ => ?_
  exact Preserves.bind (h.bitmapSync _ _) fun _ => Preserves.pure _

theorem growLoopWith (scan : Scan) (a : Nat) :
    ∀ n idx blocks, Preserves P (growLoopWith scan a n idx blocks) := by
  intro n
  induction n with
  | zero => exact fun _ _ => Preserves.pure _
  | succ n ih =>
      intro idx blocks
      refine Preserves.bind (h.blockBitmapAllocWith scan) fun _ =>
        Preserves.ite (fun _ => Preserves.pure _) fun _ => ?_
      have hrest : ∀ lba, Preserves P (do
          let blockBitmapIdx := (← get).part.blockBitmapIdx lba
          ZyOs.bitmapSync blockBitmapIdx .blockBitmap
          ZyOs.growLoopWith scan a n (idx + 1) (storeBlock blocks idx (u32 lba))) := fun _ =>
        Preserves.get_bind fun _ _ =>
          Preserves.bind (h.bitmapSync _ _) fun _ => ih _ _
      refine Preserves.ite (fun _ => ?_) fun _ => hrest _
      refine Preserves.get_bind fun s hs =>
        Preserves.bind (reads_assertFs _ _ _ _) fun _ => ?_
      exact Preserves.bind (h.sector a idx _ hs) fun _ => hrest _

/-- What follows the loop: the table is written if there are blocks for all. -/
theorem grown (lba : UInt32) (r : Option (Nat → UInt32)) : Preserves P
    (match r with
      | none => (pure none : FsM (Option (Nat → UInt32)))
      | some blocks => do
          ZyOs.writeSectors lba.toNat (tableMem blocks) 1
          return some blocks) := by
  cases r with
  | none => exact Preserves.pure _
  | some blocks =>
      exact Preserves.bind (h.writeSectors _ _ _) fun _ => Preserves.pure _

theorem collectForWriteWith (scan : Scan) (a hasUsed willUse : Nat) :
    Preserves P (collectForWriteWith scan a hasUsed willUse) := by
  refine Preserves.get_bind fun s hs => Preserves.ite (fun _ => ?_) fun _ =>
    Preserves.ite (fun _ => ?_) fun _ => Preserves.ite (fun _ => ?_) fun _ => ?_
  · refine Preserves.ite (fun _ => Preserves.pure _) fun _ => ?_
    exact Preserves.bind (reads_readTable _ _ _ _) fun _ => Preserves.pure _
  · exact Preserves.bind (reads_assertFs _ _ _ _) fun _ => h.growLoopWith _ _ _ _ _
  · refine Preserves.bind (h.blockBitmapAllocWith scan) fun _ =>
      Preserves.ite (fun _ => Preserves.pure _) fun _ => ?_
    refine Preserves.bind (reads_assertFs _ _ _ _) fun _ =>
      Preserves.bind (h.sector a 12 _ hs) fun _ => ?_
    exact Preserves.bind (h.growLoopWith _ _ _ _ _) fun r => h.grown _ r
  · exact Preserves.bind (reads_readTable _ _ _ _) fun _ =>
      Preserves.bind (h.growLoopWith _ _ _ _ _) fun r => h.grown _ r

theorem inodeBitmapAlloc : Preserves P inodeBitmapAlloc :=
  h.inodeBitmapAllocWith Bitmap.bitmapScan

theorem blockBitmapAlloc : Preserves P blockBitmapAlloc :=
  h.blockBitmapAllocWith Bitmap.bitmapScan

theorem allocSynced (func : String) : Preserves P (allocSynced func) :=
  h.allocSyncedWith Bitmap.bitmapScan func

theorem firstBlock (a : Nat) : Preserves P (firstBlock a) := h.firstBlockWith Bitmap.bitmapScan a

theorem growLoop (a n idx : Nat) (blocks : Nat → UInt32) :
    Preserves P (growLoop a n idx blocks) := by
  rw [← growLoopWith_bitmapScan]
  exact h.growLoopWith _ _ _ _ _

theorem collectForWrite (a hasUsed willUse : Nat) :
    Preserves P (collectForWrite a hasUsed willUse) := by
  rw [← collectForWriteWith_bitmapScan]
  exact h.collectForWriteWith _ _ _ _

end Ignores

/-- An inode may be written back with another size or other blocks. -/
theorem quiet_putInode {a : Nat} {n : Inode} (hno : n.iNo = (s₀.inodes a).iNo)
    (hcnt : n.iOpenCnts = (s₀.inodes a).iOpenCnts)
    (hdeny : n.writeDeny = (s₀.inodes a).writeDeny) :
    Preserves (Quiet s₀) (putInode a n) := by
  refine Preserves.modify fun s h => ⟨h.openInodes, h.heap, h.rootInode, h.tasks, h.cur,
    h.fdInode, h.fdFlag, fun b => ?_, fun b => ?_, fun b => ?_, h.alike⟩
  · by_cases hb : b = a
    · simp only [hb, if_pos, hno]
    · simp only [if_neg hb, h.iNo]
  · by_cases hb : b = a
    · simp only [hb, if_pos, hcnt]
    · simp only [if_neg hb, h.iOpenCnts]
  · by_cases hb : b = a
    · simp only [hb, if_pos, hdeny]
    · simp only [if_neg hb, h.writeDeny]

/-- The case all of the code is in: the inode was read a moment ago. -/
theorem quiet_putInode_of {s : Fs} (h : Quiet s₀ s) {a : Nat} {n : Inode}
    (hno : n.iNo = (s.inodes a).iNo) (hcnt : n.iOpenCnts = (s.inodes a).iOpenCnts)
    (hdeny : n.writeDeny = (s.inodes a).writeDeny) :
    Preserves (Quiet s₀) (putInode a n) :=
  quiet_putInode (hno.trans (h.iNo a)) (hcnt.trans (h.iOpenCnts a)) (hdeny.trans (h.writeDeny a))

theorem quiet_setFdPos (fd pos : Nat) : KeepsQuiet (setFdPos fd pos) := by
  refine fun _ => Preserves.modify fun s h => ⟨h.openInodes, h.heap, h.rootInode, h.tasks,
    h.cur, fun g => ?_, fun g hopen => ?_, h.iNo, h.iOpenCnts, h.writeDeny, h.alike⟩
  · by_cases hg : g = fd
    · simp only [hg, if_pos, h.fdInode]
    · simp only [if_neg hg, h.fdInode]
  · by_cases hg : g = fd
    · subst hg
      simp only [if_pos] at hopen ⊢
      exact h.fdFlag g hopen
    · simp only [if_neg hg] at hopen ⊢
      exact h.fdFlag g hopen

theorem reads_fdInodeOf (fd : Nat) (func : String) : ReadsOnly (fdInodeOf fd func) := by
  refine fun _ => Preserves.get_bind fun s _ => ?_
  cases (s.fileTable fd).fdInode with
  | none => exact Preserves.lift _
  | some a => exact Preserves.pure _

theorem reads_blockAt (blocks : Nat → UInt32) (k : Nat) (func : String) :
    ReadsOnly (blockAt blocks k func) :=
  fun _ => Preserves.ite (fun _ => Preserves.pure _) fun _ => Preserves.lift _

/-- Who has which inode open does not depend on what a transfer changes. -/
theorem Quiet.ignores (s₀ : Fs) : Ignores (Quiet s₀) where
  disk := fun _ h => ⟨h.openInodes, h.heap, h.rootInode, h.tasks, h.cur, h.fdInode, h.fdFlag,
    h.iNo, h.iOpenCnts, h.writeDeny, h.alike⟩
  part := fun _ hp h => ⟨h.openInodes, h.heap, h.rootInode, h.tasks, h.cur, h.fdInode, h.fdFlag,
    h.iNo, h.iOpenCnts, h.writeDeny, h.alike.trans hp⟩
  sector := fun _ _ _ h => quiet_putInode_of h rfl rfl rfl

theorem quiet_writeSectors (lba n : Nat) (buf : Mem) : KeepsQuiet (writeSectors lba buf n) :=
  fun s₀ => (Quiet.ignores s₀).writeSectors lba n buf

theorem quiet_inodeBitmapAlloc : KeepsQuiet inodeBitmapAlloc :=
  fun s₀ => (Quiet.ignores s₀).inodeBitmapAlloc

theorem quiet_blockBitmapAlloc : KeepsQuiet blockBitmapAlloc :=
  fun s₀ => (Quiet.ignores s₀).blockBitmapAlloc

theorem quiet_setInodeBit (idx : Nat) (value : Bool) : KeepsQuiet (setInodeBit idx value) :=
  fun s₀ => (Quiet.ignores s₀).setInodeBit idx value

theorem quiet_bitmapSync (bitIdx : Nat) (btmpType : BitmapType) :
    KeepsQuiet (bitmapSync bitIdx btmpType) :=
  fun s₀ => (Quiet.ignores s₀).bitmapSync bitIdx btmpType

theorem quiet_inodeSync (n : Inode) (ioBuf : Mem) : KeepsQuiet (inodeSync n ioBuf) :=
  fun s₀ => (Quiet.ignores s₀).inodeSync n ioBuf

theorem quiet_firstBlock (a : Nat) : KeepsQuiet (firstBlock a) :=
  fun s₀ => (Quiet.ignores s₀).firstBlock a

theorem quiet_collectForWrite (a hasUsed willUse : Nat) :
    KeepsQuiet (collectForWrite a hasUsed willUse) :=
  fun s₀ => (Quiet.ignores s₀).collectForWrite a hasUsed willUse

/-! ### Directories -/

theorem reads_searchBlocks (blocks : Nat → UInt32) (name : List UInt8) (cnt : Nat) :
    ∀ fuel idx, ReadsOnly (searchBlocks blocks name cnt fuel idx) := by
  intro fuel
  induction fuel with
  | zero => exact fun _ _ => Preserves.pure _
  | succ fuel ih =>
      intro idx P
      refine Preserves.ite (fun _ => ih _ P) fun _ => ?_
      refine Preserves.bind (reads_readSectors _ _ _ _) fun buf => ?_
      cases searchBlock buf name cnt cnt 0 with
      | none => exact ih _ P
      | some e => exact Preserves.pure _

theorem reads_searchDirEntry (pdir : Nat) (name : List UInt8) :
    ReadsOnly (searchDirEntry pdir name) := by
  refine fun P => Preserves.get_bind fun s _ => Preserves.ite (fun _ => ?_) fun _ => ?_
  · exact Preserves.bind (reads_readSectors _ _ _ _) fun _ => reads_searchBlocks _ _ _ _ _ _
  · exact reads_searchBlocks _ _ _ _ _ _

theorem reads_checkFirstBlockOnly (inode : Inode) :
    ∀ n idx, ReadsOnly (checkFirstBlockOnly inode n idx) := by
  intro n
  induction n with
  | zero => exact fun _ _ => Preserves.pure _
  | succ n ih =>
      exact fun idx P => Preserves.bind (reads_assertFs _ _ _ _) fun _ => ih _ P

theorem reads_collectForRead (a startIdx endIdx : Nat) :
    ReadsOnly (collectForRead a startIdx endIdx) := by
  refine fun P => Preserves.get_bind fun s hs => Preserves.ite (fun _ => ?_) fun _ =>
    Preserves.ite (fun _ => Preserves.pure _) fun _ => Preserves.ite (fun _ => ?_)
      fun _ => reads_readTable _ _ _ _
  · refine Preserves.ite (fun _ => Preserves.pure _) fun _ => ?_
    exact Preserves.bind (reads_readSectors _ _ _ _) fun _ => Preserves.pure _
  · exact reads_readTable _ _ _ _

/-! ### What a transfer may change -/

/-- A property that says nothing of sizes and cursors either. -/
structure Transfers (P : Fs → Prop) : Prop extends Ignores P where
  inode : ∀ {s : Fs} (a : Nat) (n : Inode), P s → n.iNo = (s.inodes a).iNo →
    n.iOpenCnts = (s.inodes a).iOpenCnts → n.writeDeny = (s.inodes a).writeDeny →
    Preserves P (putInode a n)
  pos : ∀ fd pos, Preserves P (setFdPos fd pos)

namespace Transfers

variable {P : Fs → Prop} (h : Transfers P)
include h

theorem syncFinish (pdir : Nat) (pDe : DirEntry) (ioBuf : Mem) (block : UInt32) :
    Preserves P (syncFinish pdir pDe ioBuf block) := by
  refine Preserves.get_bind fun _ _ =>
    Preserves.bind (h.writeSectors _ _ _) fun _ => Preserves.get_bind fun s hs => ?_
  exact Preserves.bind (h.inode _ _ hs rfl rfl rfl) fun _ => Preserves.pure _

theorem syncNewBlockWith (scan : Scan) (pdir : Nat) (pDe : DirEntry) (ioBuf : Mem)
    (blocks : Nat → UInt32) (blockIdx : Nat) :
    Preserves P (syncNewBlockWith scan pdir pDe ioBuf blocks blockIdx) := by
  refine Preserves.bind (h.allocSyncedWith _ _) fun _ =>
    Preserves.ite (fun _ => Preserves.pure _) fun _ => Preserves.get_bind fun s hs => ?_
  refine Preserves.ite (fun _ => ?_) fun _ => Preserves.ite (fun _ => ?_) fun _ => ?_
  · exact Preserves.bind (h.inode _ _ hs rfl rfl rfl) fun _ => h.syncFinish _ _ _ _
  · refine Preserves.bind (h.inode _ _ hs rfl rfl rfl) fun _ =>
      Preserves.bind (h.allocSyncedWith _ _) fun _ => Preserves.get_bind fun s hs => ?_
    refine Preserves.ite (fun _ => ?_) fun _ => ?_
    · refine Preserves.get_bind fun _ _ => Preserves.bind (h.setBlockBit _ _) fun _ => ?_
      exact Preserves.bind (h.inode _ _ hs rfl rfl rfl) fun _ => Preserves.pure _
    · exact Preserves.bind (h.writeSectors _ _ _) fun _ => h.syncFinish _ _ _ _
  · exact Preserves.bind (h.writeSectors _ _ _) fun _ => h.syncFinish _ _ _ _

theorem syncLoopWith (scan : Scan) (pdir : Nat) (pDe : DirEntry) (blocks : Nat → UInt32) :
    ∀ fuel idx ioBuf, Preserves P (syncLoopWith scan pdir pDe blocks fuel idx ioBuf) := by
  intro fuel
  induction fuel with
  | zero => exact fun _ _ => Preserves.pure _
  | succ fuel ih =>
      intro idx ioBuf
      refine Preserves.get_bind fun _ _ => Preserves.ite (fun _ => ?_) fun _ => ?_
      · exact h.syncNewBlockWith _ _ _ _ _ _
      refine Preserves.bind (reads_readSectors _ _ _ _) fun ioBuf => ?_
      cases freeSlot ioBuf _ _ 0 with
      | none => exact ih _ _
      | some i =>
          refine Preserves.bind (h.writeSectors _ _ _) fun _ =>
            Preserves.get_bind fun s hs => ?_
          exact Preserves.bind (h.inode _ _ hs rfl rfl rfl) fun _ => Preserves.pure _

theorem syncDirEntryWith (scan : Scan) (pdir : Nat) (pDe : DirEntry) (ioBuf : Mem) :
    Preserves P (syncDirEntryWith scan pdir pDe ioBuf) :=
  Preserves.get_bind fun _ _ =>
    Preserves.bind (reads_assertFs _ _ _ _) fun _ => h.syncLoopWith _ _ _ _ _ _ _

theorem syncDirEntry (pdir : Nat) (pDe : DirEntry) (ioBuf : Mem) :
    Preserves P (syncDirEntry pdir pDe ioBuf) := by
  rw [← syncDirEntryWith_bitmapScan]
  exact h.syncDirEntryWith _ _ _ _

/-! ### Removing -/

theorem inodeDelete (no : Nat) (ioBuf : Mem) : Preserves P (inodeDelete no ioBuf) := by
  refine Preserves.bind (reads_assertFs _ _ _ _) fun _ => Preserves.get_bind fun _ _ =>
    Preserves.bind (Preserves.lift _) fun _ => Preserves.bind (reads_assertFs _ _ _ _) fun _ => ?_
  exact Preserves.bind (reads_readSectors _ _ _ _) fun _ => h.writeSectors _ _ _

theorem freeBlock (lba : UInt32) : Preserves P (freeBlock lba) :=
  Preserves.get_bind fun _ _ => Preserves.bind (h.setBlockBit _ _) fun _ =>
    h.bitmapSync _ _

theorem releaseBlock (lba : UInt32) : Preserves P (releaseBlock lba) :=
  Preserves.get_bind fun _ _ => Preserves.bind (reads_assertFs _ _ _ _) fun _ =>
    h.freeBlock _

theorem releaseLoop (blocks : Nat → UInt32) :
    ∀ n idx, Preserves P (releaseLoop blocks n idx) := by
  intro n
  induction n with
  | zero => exact fun _ => Preserves.pure _
  | succ n ih =>
      intro idx
      refine Preserves.ite (fun _ => ?_) fun _ => ih _
      exact Preserves.bind (h.releaseBlock _) fun _ => ih _

theorem releaseBlocks (a : Nat) : Preserves P (releaseBlocks a) := by
  refine Preserves.get_bind fun _ _ => Preserves.ite (fun _ => ?_) fun _ => ?_
  · refine Preserves.bind (reads_readSectors _ _ _ _) fun _ => ?_
    exact Preserves.bind (h.releaseBlock _) fun _ => h.releaseLoop _ _ _
  · exact h.releaseLoop _ _ _

theorem removeEntry (pdir : Nat) (blocks : Nat → UInt32) (blockIdx : Nat) (ioBuf : Mem)
    (t : Tally) (idx : Nat) : Preserves P (removeEntry pdir blocks blockIdx ioBuf t idx) := by
  -- the size goes down and the inode is written back, whichever way the entry went
  have hend : ∀ size : Nat, Preserves P (do
      let inode := (← get).inodes pdir
      assertFs (size ≤ inode.iSize.toNat) "delete_dir_entry" "dir_inode->i_size >= dir_entry_size"
      putInode pdir { inode with iSize := inode.iSize - UInt32.ofNat size }
      inodeSync ((← get).inodes pdir) (fun _ => 0)) := fun size =>
    Preserves.get_bind fun s hs => Preserves.bind (reads_assertFs _ _ _ _) fun _ =>
      Preserves.bind (h.inode _ _ hs rfl rfl rfl) fun _ => Preserves.get_bind fun _ _ =>
        h.inodeSync _ _
  refine Preserves.get_bind fun s _ => Preserves.bind (reads_assertFs _ _ _ _) fun _ => ?_
  refine Preserves.ite (fun _ => ?_) fun _ => ?_
  · refine Preserves.bind (h.freeBlock _) fun _ => ?_
    refine Preserves.ite (fun _ => ?_) fun _ => ?_
    · refine Preserves.get_bind fun s' hs => ?_
      exact Preserves.bind (h.inode _ _ hs rfl rfl rfl) fun _ => hend _
    · exact Preserves.bind (Preserves.lift _) fun _ => hend _
  · exact Preserves.bind (h.writeSectors _ _ _) fun _ => hend _

theorem deleteLoop (pdir no : Nat) (blocks : Nat → UInt32) :
    ∀ n idx, Preserves P (deleteLoop pdir no blocks n idx) := by
  intro n
  induction n with
  | zero => exact fun _ => Preserves.pure _
  | succ n ih =>
      intro idx
      refine Preserves.ite (fun _ => ih _) fun _ => Preserves.get_bind fun _ _ => ?_
      refine Preserves.bind (reads_readSectors _ _ _ _) fun buf =>
        Preserves.bind (Preserves.lift _) fun t => ?_
      cases t.dirEntryFound with
      | none => exact ih _
      | some i => exact Preserves.bind (h.removeEntry _ _ _ _ _ _) fun _ => Preserves.pure _

theorem deleteDirEntry (pdir no : Nat) : Preserves P (deleteDirEntry pdir no) := by
  refine Preserves.get_bind fun _ _ => Preserves.ite (fun _ => ?_) fun _ => ?_
  · exact Preserves.bind (reads_readSectors _ _ _ _) fun _ => h.deleteLoop _ _ _ _ _
  · exact h.deleteLoop _ _ _ _ _

/-! ### Writing -/

theorem writeLoop (fd a : Nat) (blocks : Nat → UInt32) (count : Nat) :
    ∀ fuel src done left first ioBuf,
      Preserves P (writeLoop fd a blocks count fuel src done left first ioBuf) := by
  intro fuel
  induction fuel with
  | zero => exact fun _ _ _ _ _ => Preserves.pure _
  | succ fuel ih =>
      intro src done left first ioBuf
      refine Preserves.ite (fun _ => ?_) fun _ => Preserves.pure _
      refine Preserves.get_bind fun s hs =>
        Preserves.bind (reads_blockAt _ _ _ _) fun lba => ?_
      refine Preserves.ite (fun _ => ?_) fun _ => ?_
      · refine Preserves.bind (reads_readSectors _ _ _ _) fun _ =>
          Preserves.bind (h.writeSectors _ _ _) fun _ =>
          Preserves.bind (h.inode _ _ hs rfl rfl rfl) fun _ =>
          Preserves.get_bind fun _ _ => ?_
        exact Preserves.bind (h.pos _ _) fun _ => ih _ _ _ _ _
      · refine Preserves.bind (Preserves.pure _) fun _ =>
          Preserves.bind (h.writeSectors _ _ _) fun _ =>
          Preserves.bind (h.inode _ _ hs rfl rfl rfl) fun _ =>
          Preserves.get_bind fun _ _ => ?_
        exact Preserves.bind (h.pos _ _) fun _ => ih _ _ _ _ _

theorem fileWrite (fd : Nat) (buf : Mem) (count : Nat) :
    Preserves P (fileWrite fd buf count) := by
  refine Preserves.bind (reads_fdInodeOf _ _ _) fun a =>
    Preserves.get_bind fun _ _ => Preserves.ite (fun _ => Preserves.pure _) fun _ => ?_
  refine Preserves.bind (h.firstBlock _) fun ok =>
    Preserves.ite (fun _ => ?_) fun _ => Preserves.pure _
  refine Preserves.bind (reads_assertFs _ _ _ _) fun _ =>
    Preserves.bind (h.collectForWrite _ _ _) fun r => ?_
  cases r with
  | none => exact Preserves.pure _
  | some blocks =>
      refine Preserves.bind (h.pos _ _) fun _ =>
        Preserves.bind (h.writeLoop _ _ _ _ _ _ _ _ _ _) fun _ => ?_
      exact Preserves.get_bind fun _ _ =>
        Preserves.bind (h.inodeSync _ _) fun _ => Preserves.pure _

/-! ### Reading -/

theorem readLoop (fd : Nat) (blocks : Nat → UInt32) (size : Nat) :
    ∀ fuel buf done left, Preserves P (readLoop fd blocks size fuel buf done left) := by
  intro fuel
  induction fuel with
  | zero => exact fun _ _ _ => Preserves.pure _
  | succ fuel ih =>
      intro buf done left
      refine Preserves.ite (fun _ => ?_) fun _ => Preserves.pure _
      refine Preserves.get_bind fun _ _ =>
        Preserves.bind (reads_blockAt _ _ _ _) fun _ =>
        Preserves.bind (reads_readSectors _ _ _ _) fun _ => ?_
      exact Preserves.bind (h.pos _ _) fun _ => ih _ _ _

theorem readBytes (fd a : Nat) (buf : Mem) (size : Nat) :
    Preserves P (readBytes fd a buf size) :=
  Preserves.get_bind fun _ _ => Preserves.bind (reads_assertFs _ _ _ _)
    fun _ => Preserves.bind (reads_collectForRead _ _ _ _)
    fun _ => Preserves.bind (h.readLoop _ _ _ _ _ _ _) fun _ => Preserves.pure _

theorem fileRead (fd : Nat) (buf : Mem) (count : Nat) :
    Preserves P (fileRead fd buf count) := by
  refine Preserves.bind (reads_fdInodeOf _ _ _) fun a =>
    Preserves.get_bind fun _ _ => Preserves.get_bind fun _ _ =>
    Preserves.ite (fun _ => ?_) fun _ => h.readBytes _ _ _ _
  exact Preserves.ite (fun _ => Preserves.pure _) fun _ => h.readBytes _ _ _ _

end Transfers

/-- Who has which inode open does not depend on sizes and cursors. -/
theorem Quiet.transfers (s₀ : Fs) : Transfers (Quiet s₀) where
  toIgnores := Quiet.ignores s₀
  inode := fun _ _ h hno hcnt hdeny => quiet_putInode_of h hno hcnt hdeny
  pos := fun fd pos => quiet_setFdPos fd pos s₀

theorem quiet_syncDirEntryWith (scan : Scan) (pdir : Nat) (pDe : DirEntry) (ioBuf : Mem) :
    KeepsQuiet (syncDirEntryWith scan pdir pDe ioBuf) :=
  fun s₀ => (Quiet.transfers s₀).syncDirEntryWith scan pdir pDe ioBuf

theorem quiet_syncDirEntry (pdir : Nat) (pDe : DirEntry) (ioBuf : Mem) :
    KeepsQuiet (syncDirEntry pdir pDe ioBuf) :=
  fun s₀ => (Quiet.transfers s₀).syncDirEntry pdir pDe ioBuf

theorem quiet_inodeDelete (no : Nat) (ioBuf : Mem) : KeepsQuiet (inodeDelete no ioBuf) :=
  fun s₀ => (Quiet.transfers s₀).inodeDelete no ioBuf

theorem quiet_releaseBlocks (a : Nat) : KeepsQuiet (releaseBlocks a) :=
  fun s₀ => (Quiet.transfers s₀).releaseBlocks a

theorem quiet_deleteDirEntry (pdir no : Nat) : KeepsQuiet (deleteDirEntry pdir no) :=
  fun s₀ => (Quiet.transfers s₀).deleteDirEntry pdir no

theorem quiet_writeLoop (fd a : Nat) (blocks : Nat → UInt32) (count : Nat) :
    ∀ fuel src done left first ioBuf,
      KeepsQuiet (writeLoop fd a blocks count fuel src done left first ioBuf) :=
  fun fuel src done left first ioBuf s₀ =>
    (Quiet.transfers s₀).writeLoop fd a blocks count fuel src done left first ioBuf

theorem quiet_fileWrite (fd : Nat) (buf : Mem) (count : Nat) :
    KeepsQuiet (fileWrite fd buf count) :=
  fun s₀ => (Quiet.transfers s₀).fileWrite fd buf count

theorem quiet_readBytes (fd a : Nat) (buf : Mem) (size : Nat) :
    KeepsQuiet (readBytes fd a buf size) :=
  fun s₀ => (Quiet.transfers s₀).readBytes fd a buf size

theorem quiet_fileRead (fd : Nat) (buf : Mem) (count : Nat) :
    KeepsQuiet (fileRead fd buf count) :=
  fun s₀ => (Quiet.transfers s₀).fileRead fd buf count

end ZyOs
