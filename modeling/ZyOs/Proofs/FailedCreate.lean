/-
What a creation that runs out of space leaves behind.

`sys_mkdir` and `file_create` count the steps they have to undo.  The count of `sys_mkdir` leaves
the block of the new directory out, so that block is lost when there is none for the entry in the
parent.  `file_create` clears the entry of the file table instead of putting back what was in it,
and what `sync_dir_entry` gives back it gives back in memory only.
-/
import ZyOs.Proofs.FailedOpen
import ZyOs.Proofs.Scarce

namespace ZyOs

open Library

variable {env : FsEnv} {s s' t t' : Fs} {a g n parent flag : Nat} {filename : List UInt8}

/-- What creates something. -/
inductive CreateCall where
  | mkdir (pathname : List UInt8)
  | file (parent : Nat) (filename : List UInt8) (flag : Nat)

/-- `sys_mkdir` and `file_create` -/
def CreateCall.exec (scan : Scan) (env : FsEnv) : CreateCall → FsM Int
  | .mkdir pathname => sysMkdirWith scan env pathname
  | .file parent filename flag => fileCreateWith scan env parent filename flag

/-- The bitmaps, the open inodes and the entries of the file table are as they were; so is the
disk, where the bitmaps and the inodes are and where it is in use. -/
structure RolledBack (s s' : Fs) : Prop where
  blockBitmap : s'.part.blockBitmap = s.part.blockBitmap
  inodeBitmap : s'.part.inodeBitmap = s.part.inodeBitmap
  front : ∀ x, 512 * s.part.sb.blockBitmapLba ≤ x → x < 512 * s.part.sb.dataStartLba →
    s'.disk x = s.disk x
  entries : ∀ lba, Marked s.part lba → ∀ i < 512, s'.disk (512 * lba + i) = s.disk (512 * lba + i)
  inodes : ∀ a ∈ s.openInodes, s'.inodes a = s.inodes a
  fileTable : s'.fileTable = s.fileTable

/-- Nothing is in the way of the call but that a bitmap may be full: the name is new, or there is
an entry and a descriptor for the file in a directory that is open. -/
def CreateCall.Ready (env : FsEnv) (s : Fs) : CreateCall → Prop
  | .mkdir pathname => ∃ r s₁, searchFile env pathname s = .ok ((-1, r), s₁) ∧
      pathDepthCnt pathname = pathDepthCnt r.searchedPath
  | .file parent _ _ => parent ∈ s.openInodes ∧ (s.part.inodeBitmap.Full ∨
      getFreeSlotInGlobal s.fileTable ≠ none ∧
      freeFdFrom (s.tasks s.cur).fdTable (maxFilesOpenPerProc - 3) 3 ≠ none)

/-- The entry that is going to be used has nothing in it from the last time. -/
def SlotBlank (s : Fs) : Prop :=
  ∀ g, getFreeSlotInGlobal s.fileTable = some g →
    (s.fileTable g).fdPos = 0 ∧ (s.fileTable g).fdFlag = 0

/-- The block that is going to be taken for an indirect table is marked on disk already, and the
directory has no table. -/
def AlreadyMarked (s : Fs) (parent : Nat) : Prop :=
  (s.inodes parent).sector 12 = 0 ∧ ∃ n, s.part.blockBitmap.LowestFree n ∧ ∀ i < 512,
    s.disk (512 * (s.part.sb.blockBitmapLba + n / 4096) + i)
      = (s.part.blockBitmap.bitmapSet n true).bits (n / 4096 * 512 + i)

/-- The call has nothing to undo, or undoes it. -/
def CreateCall.Undone (s : Fs) : CreateCall → Prop
  | .mkdir _ => s.part.inodeBitmap.Full ∨ s.part.blockBitmap.Full
  | .file parent _ _ => s.part.inodeBitmap.Full ∨
      SlotBlank s ∧ (s.part.blockBitmap.Full ∨ AlreadyMarked s parent)

theorem RolledBack.refl (s : Fs) : RolledBack s s :=
  ⟨rfl, rfl, fun _ _ _ => rfl, fun _ _ _ _ => rfl, fun _ _ => rfl, rfl⟩

theorem Unchanged.rolledBack (h : Unchanged s s') : RolledBack s s' :=
  ⟨by rw [h.bitmaps], by rw [h.bitmaps], fun _ _ _ => by rw [h.disk],
    fun _ _ _ _ => by rw [h.disk], h.inodes, h.fileTable⟩

/-! ### `sys_mkdir` -/

/-- What `sync_dir_entry` has not done to the bitmaps when it fails. -/
theorem EntryFailed.part (h : EntryFailed parent s s') : s'.part = s.part := by
  rcases h with ⟨-, rfl⟩ | ⟨n, -, rfl⟩
  · rfl
  · rfl

theorem dirClose_part {d : DirPtr} {u : Unit} (hrun : dirClose d s = .ok (u, s')) :
    s'.part = s.part := by
  cases d with
  | root => rw [(Prod.mk.inj (Except.ok.inj hrun)).2]
  | opened a =>
      rw [dirClose, inodeClose_run] at hrun
      rw [← (Prod.mk.inj (Except.ok.inj hrun)).2, (closed_rest s a).2.2.2.2.2]

/-- The end of `sys_mkdir` with a directory to close. -/
theorem wp_closeFailed {d : DirPtr} (h : Walked s d.opens t)
    (h₀ : Sane s.part s) : Prog.wp (fun _ => True) (do dirClose d; return (-1 : Int))
      (fun _ s' => RolledBack s s') t :=
  Prog.wp_bind (Prog.wp_mono (h.dirClose h₀) fun _ _ h' => Prog.wp_pure h'.unchanged.rolledBack)

/-- With the block of the directory taken there is no way back. -/
theorem not_rolledBack_of_taken (hn : s.part.blockBitmap.LowestFree n)
    (hset : s'.part.blockBitmap.bitmapScanTest n = true) : ¬ RolledBack s s' := by
  intro h
  rw [h.blockBitmap, hn.free] at hset
  cases hset

/-- The number of the inode is given back. -/
theorem setInodeBit_back (hn : t.part.inodeBitmap.LowestFree n) :
    setInodeBit n false { t with part := { t.part with
      inodeBitmap := t.part.inodeBitmap.bitmapSet n true } } = .ok ((), t) := by
  show Except.ok ((), ({ t with part := { t.part with
    inodeBitmap := (t.part.inodeBitmap.bitmapSet n true).bitmapSet n false } } : Fs)) = _
  rw [Bitmap.set_clear hn.free]

/-- The end of `sys_mkdir` once a block has been taken: it stays taken. -/
theorem wp_dropDir {d : DirPtr} {no : Nat} (hn : s.part.blockBitmap.LowestFree n)
    (ht : t.part.blockBitmap.bitmapScanTest n = true) : Prog.wp (fun _ => True) (do
      setInodeBit no false
      dirClose d
      return (-1 : Int)) (fun _ s' => ¬ RolledBack s s') t := by
  refine Prog.wp_bind (Prog.wp_modify (Prog.wp_bind (Prog.wp_of_returns fun u s' hrun => ?_)))
  refine Prog.wp_pure (not_rolledBack_of_taken hn ?_)
  rw [dirClose_part hrun]
  exact ht

theorem wp_makeDirWith {d : DirPtr} {no : Nat} (h : Walked s d.opens t) (h₀ : Sane s.part s)
    (ho : s.part.Ordered) (hno : s.part.inodeBitmap.LowestFree no) (dirname : List UInt8) :
    Prog.wp (fun _ => True) (makeDirWith scanOrFail d dirname no)
      (fun r s' => r = -1 → (RolledBack s s' ↔ s.part.blockBitmap.Full))
      { t with part := { t.part with inodeBitmap := t.part.inodeBitmap.bitmapSet no true } } := by
  have hno' : t.part.inodeBitmap.LowestFree no := h.part ▸ hno
  have hfit : t.part.DataFits := h.part ▸ ho.dataFits
  refine Prog.wp_bind (wp_blockBitmapAllocWith (by exact ⟨hfit.bitmap, hfit.int⟩)
    (fun hfull => ?_) fun n hn => ?_)
  · rw [if_pos rfl]
    refine Prog.wp_bind (Prog.wp_of_run (setInodeBit_back hno') ?_)
    exact Prog.wp_mono (wp_closeFailed h h₀) fun _ _ hback _ =>
      iff_of_true hback (h.part ▸ hfull)
  have hn' : s.part.blockBitmap.LowestFree n := h.part ▸ hn
  rw [if_neg (by omega)]
  refine Prog.wp_get_bind (Prog.wp_bind ((reads_assertFs _ _ _).wp fun _ => ?_))
  refine Prog.wp_bind (wp_bitmapSync (fun _ _ => trivial) (Prog.wp_get_bind ?_))
  refine Prog.wp_bind (wp_writeSectors (fun _ _ => trivial) ?_)
  refine Prog.wp_bind (Prog.wp_lift (fun e _ => Prog.wp_get_bind ?_) fun _ _ => trivial)
  refine Prog.wp_bind (Prog.wp_mono (wp_syncDirEntryWith ?_ _ _ _) fun ok t' hfail => ?_)
  · exact ⟨hfit.bitmap, hfit.int⟩
  cases ok with
  | true =>
      refine Prog.wp_get_bind (Prog.wp_bind (Prog.wp_of_returns fun _ _ _ => ?_))
      refine Prog.wp_bind (Prog.wp_of_returns fun _ _ _ => ?_)
      refine Prog.wp_bind (Prog.wp_of_returns fun _ _ _ => ?_)
      exact Prog.wp_bind (Prog.wp_of_returns fun _ _ _ => Prog.wp_pure nofun)
  | false =>
      rw [if_neg (by decide)]
      have hset : t'.part.blockBitmap.bitmapScanTest n = true := by
        rw [(hfail rfl).part]
        show (t.part.take n).blockBitmap.bitmapScanTest n = true
        rw [Partition.take_test, if_pos rfl]
      exact Prog.wp_mono (wp_dropDir hn' hset) fun _ _ hlost _ =>
        iff_of_false hlost hn'.not_full

/-- **A failed `sys_mkdir` is rolled back exactly when it has taken no block.** -/
theorem wp_sysMkdirWith {pathname : List UInt8} (h : Sane s.part s) (ho : s.part.Ordered)
    (hready : (CreateCall.mkdir pathname).Ready env s) :
    Prog.wp (fun _ => True) (sysMkdirWith scanOrFail env pathname) (fun r s' => r = -1 →
      (RolledBack s s' ↔ s.part.inodeBitmap.Full ∨ s.part.blockBitmap.Full)) s := by
  obtain ⟨r, s₁, hsearch, hdepth⟩ := hready
  have hwalked := ((Walked.tracks h).searchFile (Walked.refl h) pathname).of_run hsearch
  rw [List.append_nil] at hwalked
  refine Prog.wp_bind (Prog.wp_of_run hsearch (Prog.wp_ite (fun hc => absurd rfl hc) fun _ => ?_))
  refine Prog.wp_bind (Prog.wp_lift (fun depth hpath => ?_) fun _ _ => trivial)
  refine Prog.wp_bind (Prog.wp_lift (fun depth' hsearched => ?_) fun _ _ => trivial)
  rw [hdepth, hsearched] at hpath
  refine Prog.wp_ite (fun hne => absurd (Except.ok.inj hpath).symm hne) fun _ => ?_
  have hlen : 8 * s₁.part.inodeBitmap.bmapBytesLen ≤ 2 ^ 31 := by
    rw [hwalked.part, ho.inodeBytes]
    decide
  refine Prog.wp_bind (wp_inodeBitmapAllocWith hlen (fun hfull => ?_) fun no hno => ?_)
  · rw [if_pos rfl]
    exact Prog.wp_mono (wp_closeFailed hwalked h) fun _ _ hback _ =>
      iff_of_true hback (.inl (hwalked.part ▸ hfull))
  · rw [if_neg (by omega)]
    have hno' : s.part.inodeBitmap.LowestFree no := hwalked.part ▸ hno
    refine Prog.wp_mono (wp_makeDirWith hwalked h ho hno' _) fun r s' hiff hr => ?_
    rw [or_iff_right hno'.not_full]
    exact hiff hr

/-! ### `file_create` -/

/-- A file is being created: the inode at `a` has number `no`, and entry `g` leads to it. -/
structure CreationBegun (s t : Fs) (a g no : Nat) : Prop where
  part : t.part = { s.part with inodeBitmap := s.part.inodeBitmap.bitmapSet no true }
  disk : t.disk = s.disk
  inodes : ∀ b, b ≠ a → t.inodes b = s.inodes b
  fileTable : ∀ i, i ≠ g → t.fileTable i = s.fileTable i

/-- The table is as it was when the entry had nothing in it. -/
theorem fileTable_cleared_iff (hslot : getFreeSlotInGlobal s.fileTable = some g) :
    (fun i => if i = g then (⟨0, 0, none⟩ : File) else s.fileTable i) = s.fileTable
      ↔ SlotBlank s := by
  have hfree := (getFreeSlotInGlobal_some hslot).2
  constructor
  · intro heq g' hg'
    obtain rfl := Option.some.inj (hslot.symm.trans hg')
    have hentry := congrFun heq g
    rw [if_pos rfl] at hentry
    rw [← hentry]
    exact ⟨rfl, rfl⟩
  · intro hblank
    funext i
    by_cases hi : i = g
    · subst hi
      obtain ⟨hpos, hflag⟩ := hblank i hslot
      rw [if_pos rfl]
      exact (congrArg₂ (fun p q => (⟨p, q, none⟩ : File)) hpos hflag).symm.trans
        (congrArg (fun o => (⟨(s.fileTable i).fdPos, (s.fileTable i).fdFlag, o⟩ : File)) hfree.symm)
    · rw [if_neg hi]

theorem Inode.setSector_zero_iff (n : Inode) : n.setSector 12 0 = n ↔ n.sector 12 = 0 := by
  constructor
  · intro h
    rw [← h, Inode.setSector_self]
  · intro h
    obtain ⟨no, size, cnts, deny, sectors⟩ := n
    simp only [Inode.setSector, Inode.mk.injEq, true_and]
    funext j
    by_cases hj : j.val = 12
    · rw [if_pos hj]
      obtain rfl : j = 12 := Fin.ext hj
      exact h.symm
    · rw [if_neg hj]

/-- What has been written of the bitmap is what was there. -/
theorem changeBlock_disk_eq_iff (ho : s.part.Ordered) (hn : s.part.blockBitmap.LowestFree n) :
    (∀ x, 512 * s.part.sb.blockBitmapLba ≤ x → x < 512 * s.part.sb.dataStartLba →
      (s.changeBlock n true).disk x = s.disk x) ↔
    ∀ i < 512, s.disk (512 * (s.part.sb.blockBitmapLba + n / 4096) + i)
      = (s.part.blockBitmap.bitmapSet n true).bits (n / 4096 * 512 + i) := by
  have hbit := hn.bit
  have h1 := ho.blockBytes
  have h2 := ho.blocks
  have h3 := ho.inodes
  have h4 := ho.table
  have hin : ∀ i < 512, (s.changeBlock n true).disk
      (512 * (s.part.sb.blockBitmapLba + n / 4096) + i)
      = (s.part.blockBitmap.bitmapSet n true).bits (n / 4096 * 512 + i) := fun i hi =>
    Mem.splice_at hi
  constructor
  · intro h i hi
    rw [← hin i hi, h _ (by omega) (by omega)]
  · intro h x hlo hhi
    by_cases hx : 512 * (s.part.sb.blockBitmapLba + n / 4096) ≤ x ∧
        x < 512 * (s.part.sb.blockBitmapLba + n / 4096) + 512
    · obtain ⟨i, rfl⟩ := Nat.exists_eq_add_of_le hx.1
      rw [hin i (by omega), h i (by omega)]
    · refine Mem.splice_out ?_
      show x < 512 * (s.part.sb.blockBitmapLba + n / 4096) ∨
        512 * (s.part.sb.blockBitmapLba + n / 4096) + 512 ≤ x
      omega

/-- The data is not touched by that. -/
theorem changeBlock_disk_data (ho : s.part.Ordered) (hn : s.part.blockBitmap.LowestFree n)
    {x : Nat} (hx : 512 * s.part.sb.dataStartLba ≤ x) :
    (s.changeBlock n true).disk x = s.disk x := by
  have hbit := hn.bit
  have hlba := ho.dataFits.bitmap
  refine Mem.splice_out (.inr ?_)
  show 512 * (s.part.sb.blockBitmapLba + n / 4096) + 512 ≤ x
  omega

/-- What of an entry that was missed shows on disk and in the directory. -/
theorem EntryFailed.shows_iff (h : EntryFailed parent t t') (ho : s.part.Ordered)
    (hpart : t.part.blockBitmap = s.part.blockBitmap ∧ t.part.sb = s.part.sb)
    (hdisk : t.disk = s.disk) (hinodes : ∀ b ∈ s.openInodes, t.inodes b = s.inodes b)
    (hparent : parent ∈ s.openInodes) :
    ((∀ x, 512 * s.part.sb.blockBitmapLba ≤ x → x < 512 * s.part.sb.dataStartLba →
        t'.disk x = s.disk x) ∧
      (∀ lba, Marked s.part lba → ∀ i < 512, t'.disk (512 * lba + i) = s.disk (512 * lba + i)) ∧
      ∀ b ∈ s.openInodes, t'.inodes b = s.inodes b) ↔
    s.part.blockBitmap.Full ∨ AlreadyMarked s parent := by
  rcases h with ⟨hfull, rfl⟩ | ⟨n, hn, rfl⟩
  · rw [hdisk]
    exact iff_of_true ⟨fun _ _ _ => rfl, fun _ _ _ _ => rfl, hinodes⟩ (.inl (hpart.1 ▸ hfull))
  have hn' : s.part.blockBitmap.LowestFree n := hpart.1 ▸ hn
  have hd : (t.tableUndone parent n).disk = (s.changeBlock n true).disk := by
    show (t.changeBlock n true).disk = _
    simp only [Fs.changeBlock, Fs.syncSector, Partition.bitmapLba, Partition.bitmapOf, hdisk,
      hpart.1, hpart.2]
  have hself : (t.tableUndone parent n).inodes parent = (s.inodes parent).setSector 12 0 := by
    rw [Fs.tableUndone, withInode_self, hinodes parent hparent]
  have hin : (∀ b ∈ s.openInodes, (t.tableUndone parent n).inodes b = s.inodes b) ↔
      (s.inodes parent).sector 12 = 0 := by
    rw [← Inode.setSector_zero_iff]
    refine ⟨fun hall => hself.symm.trans (hall parent hparent), fun hsec b hb => ?_⟩
    by_cases hbp : b = parent
    · rw [hbp, hself, hsec]
    · rw [Fs.tableUndone, withInode_ne _ _ _ _ hbp]
      exact hinodes b hb
  rw [hd]
  constructor
  · rintro ⟨hfront, -, hall⟩
    exact .inr ⟨hin.mp hall, n, hn', (changeBlock_disk_eq_iff ho hn').mp hfront⟩
  · rintro (hfull | ⟨hzero, m, hm, heq⟩)
    · exact absurd hfull hn'.not_full
    · obtain rfl := hn'.unique hm
      refine ⟨(changeBlock_disk_eq_iff ho hn').mpr heq, fun lba hlba i _ => ?_, hin.mpr hzero⟩
      have hdata := hlba.data
      exact changeBlock_disk_data ho hn' (by omega)

/-- The rollback of `file_create`, from where `sync_dir_entry` has failed. -/
theorem CreationBegun.rollback {no : Nat} (h : CreationBegun s t a g no) (ho : s.part.Ordered)
    (hslot : getFreeSlotInGlobal s.fileTable = some g) (hno : s.part.inodeBitmap.LowestFree no)
    (hfresh : a ∉ s.openInodes) (hparent : parent ∈ s.openInodes)
    (hfail : EntryFailed parent t t') : Prog.wp (fun _ => True) (do
      setFile g { fdPos := 0, fdFlag := 0, fdInode := none }
      freeInode a
      setInodeBit no false
      return (-1 : Int)) (fun _ s' => RolledBack s s' ↔
        SlotBlank s ∧ (s.part.blockBitmap.Full ∨ AlreadyMarked s parent)) t' := by
  refine Prog.wp_bind (Prog.wp_of_run (setFile_run _ _ _) (Prog.wp_bind (Prog.wp_modify
    (Prog.wp_bind (Prog.wp_modify (Prog.wp_pure ?_))))))
  have hinodes : ∀ b ∈ s.openInodes, t.inodes b = s.inodes b := fun b hb =>
    h.inodes b fun hba => hfresh (hba ▸ hb)
  have hpart : t.part.blockBitmap = s.part.blockBitmap ∧ t.part.sb = s.part.sb := by
    rw [h.part]
    exact ⟨rfl, rfl⟩
  have htable : (fun i => if i = g then (⟨0, 0, none⟩ : File) else t'.fileTable i)
      = fun i => if i = g then ⟨0, 0, none⟩ else s.fileTable i := by
    funext i
    by_cases hi : i = g
    · rw [if_pos hi, if_pos hi]
    · rw [if_neg hi, if_neg hi, ← h.fileTable i hi]
      rcases hfail with ⟨-, rfl⟩ | ⟨n, -, rfl⟩
      · rfl
      · rfl
  have hbits : t'.part.inodeBitmap.bitmapSet no false = s.part.inodeBitmap := by
    rw [hfail.part, h.part]
    exact Bitmap.set_clear hno.free
  have hblocks : t'.part.blockBitmap = s.part.blockBitmap := by
    rw [hfail.part, hpart.1]
  rw [← fileTable_cleared_iff hslot, ← hfail.shows_iff ho hpart h.disk hinodes hparent, ← htable]
  exact ⟨fun hb => ⟨hb.fileTable, hb.front, hb.entries, hb.inodes⟩,
    fun ⟨h1, h2, h3, h4⟩ => ⟨hblocks, hbits, h2, h3, h4, h1⟩⟩

/-- A free descriptor is found, and it is not -1. -/
theorem wp_pcbFdInstall_ne (g : Nat)
    (h : freeFdFrom (s.tasks s.cur).fdTable (maxFilesOpenPerProc - 3) 3 ≠ none) :
    Prog.wp (fun _ => True) (pcbFdInstall g) (fun r _ => r ≠ -1) s := by
  refine Prog.wp_get_bind ?_
  cases hfd : freeFdFrom (s.tasks s.cur).fdTable (maxFilesOpenPerProc - 3) 3 with
  | none => exact absurd hfd h
  | some fd =>
      exact Prog.wp_bind (Prog.wp_of_returns fun _ _ _ => Prog.wp_pure (by omega))

/-- From `sync_dir_entry` on: with the entry in its place the creation succeeds. -/
theorem CreationBegun.finish {no : Nat} {pDe : DirEntry} (h : CreationBegun s t a g no)
    (htasks : t.tasks = s.tasks ∧ t.cur = s.cur) (ho : s.part.Ordered)
    (hslot : getFreeSlotInGlobal s.fileTable = some g)
    (hfd : freeFdFrom (s.tasks s.cur).fdTable (maxFilesOpenPerProc - 3) 3 ≠ none)
    (hno : s.part.inodeBitmap.LowestFree no) (hfresh : a ∉ s.openInodes)
    (hparent : parent ∈ s.openInodes) : Prog.wp (fun _ => True) (do
      if ← syncDirEntryWith scanOrFail parent pDe (fun _ => 0) then
        inodeSync ((← get).inodes parent) (fun _ => 0)
        inodeSync ((← get).inodes a) (fun _ => 0)
        bitmapSync no .inodeBitmap
        modify fun s => { s with openInodes := a :: s.openInodes }
        putInode a { (← get).inodes a with iOpenCnts := 1 }
        pcbFdInstall g
      else
        setFile g { fdPos := 0, fdFlag := 0, fdInode := none }
        freeInode a
        setInodeBit no false
        return (-1 : Int)) (fun r s' => r = -1 → (RolledBack s s' ↔
          SlotBlank s ∧ (s.part.blockBitmap.Full ∨ AlreadyMarked s parent))) t := by
  have hfit : t.part.DataFits := by
    rw [h.part]
    exact ⟨ho.dataFits.bitmap, ho.dataFits.int⟩
  refine Prog.wp_bind (Prog.wp_mono (Prog.wp_and (wp_syncDirEntryWith hfit _ _ _)
    ((quiet_syncDirEntryWith _ _ _ _ t).wp (Quiet.refl t))) fun ok t₁ ⟨hfail, hq⟩ => ?_)
  cases ok with
  | false =>
      rw [if_neg (by decide)]
      exact Prog.wp_mono (h.rollback ho hslot hno hfresh hparent (hfail rfl)) fun _ _ hiff _ => hiff
  | true =>
      rw [if_pos rfl]
      refine Prog.wp_get_bind (Prog.wp_bind (Prog.wp_mono ((quiet_inodeSync _ _ t).wp hq)
        fun _ t₂ hq₂ => Prog.wp_get_bind ?_))
      refine Prog.wp_bind (Prog.wp_mono ((quiet_inodeSync _ _ t).wp hq₂) fun _ t₃ hq₃ => ?_)
      refine Prog.wp_bind (Prog.wp_mono ((quiet_bitmapSync _ _ t).wp hq₃) fun _ t₄ hq₄ => ?_)
      refine Prog.wp_bind (Prog.wp_modify (Prog.wp_get_bind (Prog.wp_bind
        (Prog.wp_of_run (putInode_run _ _ _) ?_))))
      refine Prog.wp_mono (wp_pcbFdInstall_ne g ?_) fun r s' hr hc => absurd hc hr
      show freeFdFrom (t₄.tasks t₄.cur).fdTable _ _ ≠ none
      rw [hq₄.tasks, hq₄.cur, htasks.1, htasks.2]
      exact hfd

/-- **A failed `file_create` is rolled back exactly when there was no number for the inode, or the
entry was blank and the disk shows nothing of a block for the table.** -/
theorem wp_fileCreateWith (h : Sane s.part s) (ho : s.part.Ordered)
    (hready : (CreateCall.file parent filename flag).Ready env s) :
    Prog.wp (fun _ => True) (fileCreateWith scanOrFail env parent filename flag) (fun r s' =>
      r = -1 → (RolledBack s s' ↔ s.part.inodeBitmap.Full ∨
        SlotBlank s ∧ (s.part.blockBitmap.Full ∨ AlreadyMarked s parent))) s := by
  obtain ⟨hparent, hroom⟩ := hready
  have hlen : 8 * s.part.inodeBitmap.bmapBytesLen ≤ 2 ^ 31 := by
    rw [ho.inodeBytes]
    decide
  refine Prog.wp_bind (wp_inodeBitmapAllocWith hlen (fun hfull => ?_) fun no hno => ?_)
  · exact Prog.wp_pure fun _ => iff_of_true (.refl s) (.inl hfull)
  obtain ⟨hslot, hfd⟩ := hroom.resolve_left hno.not_full
  obtain ⟨g, hg⟩ := Option.ne_none_iff_exists'.mp hslot
  rw [if_neg (by omega), or_iff_right hno.not_full, Int.toNat_natCast]
  refine Prog.wp_get_bind ?_
  set a := env.newAddr s.heap
  have hfresh : a ∉ s.openInodes := fun ha => env.newAddr_fresh s.heap (h.heap a ha)
  refine Prog.wp_bind (Prog.wp_modify (Prog.wp_bind (Prog.wp_of_run (putInode_run _ _ _)
    (Prog.wp_get_bind ?_))))
  simp only [hg]
  refine Prog.wp_bind (Prog.wp_of_run (setFile_run _ _ _) (Prog.wp_get_bind
    (Prog.wp_bind (Prog.wp_of_run (putInode_run _ _ _) ?_))))
  refine Prog.wp_bind (Prog.wp_lift (fun e _ => ?_) fun _ _ => trivial)
  refine CreationBegun.finish ⟨rfl, rfl, fun b hb => ?_, fun i hi => if_neg hi⟩ ⟨rfl, rfl⟩ ho hg
    hfd hno hfresh hparent
  show (if b = a then _ else if b = a then _ else s.inodes b) = s.inodes b
  rw [if_neg hb, if_neg hb]

/-! ### Both -/

/-- **A creation that fails for want of space is rolled back exactly when it has nothing to undo,
or undoes it.** -/
theorem failed_creation_iff (env : FsEnv) (s s' : Fs) (call : CreateCall) (h : Sane s.part s)
    (ho : s.part.Ordered) (hready : call.Ready env s)
    (hrun : call.exec scanOrFail env s = .ok (-1, s')) : RolledBack s s' ↔ call.Undone s := by
  cases call with
  | mkdir pathname => exact (wp_sysMkdirWith h ho hready).of_run hrun rfl
  | file parent filename flag => exact (wp_fileCreateWith h ho hready).of_run hrun rfl

/-! ### A directory that needs a block, and its entry another -/

/-- `mkdir("/d")` -/
def mkdirD : CreateCall := .mkdir [47, 100]

theorem scarceMounted_mounted (bits : UInt8) (hrun : ((filesysInit upwardEnv).answer
    (scarceFs bits)).isSome) : Mounted upwardEnv (scarceMounted bits) := by
  obtain ⟨⟨⟩, hanswer⟩ := Option.isSome_iff_exists.mp hrun
  exact ⟨scarceFs bits, ⟨rfl, fun _ _ => rfl⟩, Prog.run_of_answer hanswer⟩

/-- The root directory is empty, so the name is new. -/
theorem mkdirD_ready {bits : UInt8} (hsearch : ((searchFile upwardEnv [47, 100]).answer
      (scarceMounted bits)).map (fun r => (r.1, r.2.searchedPath)) = some (-1, [47, 100])) :
    mkdirD.Ready upwardEnv (scarceMounted bits) := by
  obtain ⟨⟨no, r⟩, hanswer, heq⟩ := Option.map_eq_some_iff.mp hsearch
  obtain ⟨rfl, hpath⟩ := Prod.mk.inj heq
  exact ⟨r, _, Prog.run_of_answer hanswer, by rw [hpath]⟩

theorem scarceMounted_ordered : (scarceMounted 0xff).part.Ordered :=
  ⟨by decide +kernel, by decide +kernel, by decide +kernel, by decide +kernel, by decide +kernel,
    by decide +kernel, by decide +kernel, by decide +kernel⟩

/-- There is no block, and everything is put back. -/
theorem failed_creation_no_block :
    mkdirD.exec scanOrFail upwardEnv (scarceMounted 0xff) = .ok (-1,
      (mkdirD.exec scanOrFail upwardEnv).after (scarceMounted 0xff)) ∧
    RolledBack (scarceMounted 0xff)
      ((mkdirD.exec scanOrFail upwardEnv).after (scarceMounted 0xff)) := by
  have hrun : mkdirD.exec scanOrFail upwardEnv (scarceMounted 0xff) = .ok (-1,
      (mkdirD.exec scanOrFail upwardEnv).after (scarceMounted 0xff)) :=
    Prog.run_of_answer (by decide +kernel)
  have hmounted := scarceMounted_mounted 0xff (by decide +kernel)
  have hbits : (scarceMounted 0xff).part.blockBitmap.bits
      = fun i => if i = 0 then 0xff else 0xff := rfl
  refine ⟨hrun, (failed_creation_iff upwardEnv _ _ mkdirD hmounted.sane scarceMounted_ordered
    (mkdirD_ready (by decide +kernel)) hrun).mpr (.inr (Bitmap.full_of_bytes fun k _ => ?_))⟩
  rw [hbits]
  exact ite_self _

/-- There is one block, for the directory: it is lost when its entry finds none. -/
theorem failed_creation_loses_block : Mounted upwardEnv (scarceMounted 0xfd) ∧
    mkdirD.Ready upwardEnv (scarceMounted 0xfd) ∧
    mkdirD.exec scanOrFail upwardEnv (scarceMounted 0xfd) = .ok (-1,
      (mkdirD.exec scanOrFail upwardEnv).after (scarceMounted 0xfd)) ∧
    ¬ RolledBack (scarceMounted 0xfd)
      ((mkdirD.exec scanOrFail upwardEnv).after (scarceMounted 0xfd)) := by
  refine ⟨scarceMounted_mounted 0xfd (by decide +kernel), mkdirD_ready (by decide +kernel),
    Prog.run_of_answer (by decide +kernel), fun h => ?_⟩
  have hfree : (scarceMounted 0xfd).part.blockBitmap.bitmapScanTest 1 = false := by
    decide +kernel
  have hset : ((mkdirD.exec scanOrFail upwardEnv).after
      (scarceMounted 0xfd)).part.blockBitmap.bitmapScanTest 1 = true := by
    decide +kernel
  rw [h.blockBitmap, hfree] at hset
  cases hset

end ZyOs
