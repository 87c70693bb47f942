/-
The code that takes blocks and inodes, with `bitmap_scan` as a parameter.

The header says that `bitmap_scan` returns -1 when there is no run of free bits; the code
stops in an `ASSERT` instead, so no caller ever sees the -1 it is prepared for.  To say what
the callers would do with it, the functions between `bitmap_scan` and the calls are written
here once more, over whatever stands in for it: with the one of `lib/kernel/bitmap.c` they are
the functions as they are, with `scanOrFail` they get what the header promises.
-/
import ZyOs.Kernel.Heap

namespace ZyOs

open Library

/-- What may stand in for `bitmap_scan`. -/
abbrev Scan := Bitmap → Nat → Kernel Int

/-- `bitmap_scan` as its header has it: -1 when there is nothing left. -/
def scanOrFail : Scan := fun b cnt =>
  match b.bitmapScan cnt with
  | .ok i => .ok i
  | .error _ => .ok (-1)

/-! ### Taking a bit -/

/-- `inode_bitmap_alloc` on a partition. -/
def Partition.inodeBitmapAllocWith (scan : Scan) (part : Partition) : Kernel (Int × Partition) := do
  let bitIdx ← scan part.inodeBitmap 1
  if bitIdx = -1 then
    return (-1, part)
  return (bitIdx, { part with inodeBitmap := part.inodeBitmap.bitmapSet bitIdx.toNat true })

/-- `block_bitmap_alloc` on a partition. -/
def Partition.blockBitmapAllocWith (scan : Scan) (part : Partition) : Kernel (Int × Partition) := do
  let bitIdx ← scan part.blockBitmap 1
  if bitIdx = -1 then
    return (-1, part)
  return (int32 (part.sb.dataStartLba + bitIdx.toNat),
    { part with blockBitmap := part.blockBitmap.bitmapSet bitIdx.toNat true })

/-- `inode_bitmap_alloc(cur_part)` -/
def inodeBitmapAllocWith (scan : Scan) : FsM Int := do
  let s ← get
  let (bitIdx, part) ← Prog.lift (s.part.inodeBitmapAllocWith scan)
  set { s with part := part }
  return bitIdx

/-- `block_bitmap_alloc(cur_part)` -/
def blockBitmapAllocWith (scan : Scan) : FsM Int := do
  let s ← get
  let (lba, part) ← Prog.lift (s.part.blockBitmapAllocWith scan)
  set { s with part := part }
  return lba

/-- `block_bitmap_alloc` and the `bitmap_sync` of the block. -/
def allocSyncedWith (scan : Scan) (func : String) : FsM Int := do
  let blockLba ← blockBitmapAllocWith scan
  if blockLba = -1 then
    return -1
  let part := (← get).part
  let blockBitmapIdx := part.blockBitmapIdx blockLba
  assertFs (blockBitmapIdx ≠ 2 ^ 32 - 1) func "block_bitmap_idx != -1"
  bitmapSync blockBitmapIdx .blockBitmap
  return blockLba

/-! ### `sync_dir_entry` -/

/-- The entry goes into a block of its own. -/
def syncNewBlockWith (scan : Scan) (pdir : Nat) (pDe : DirEntry) (ioBuf : Mem)
    (blocks : Nat → UInt32) (blockIdx : Nat) : FsM Bool := do
  let blockLba ← allocSyncedWith scan "sync_dir_entry"
  if blockLba = -1 then
    return false
  let inode := (← get).inodes pdir
  if blockIdx < 12 then
    putInode pdir (inode.setSector blockIdx (u32 blockLba))
    syncFinish pdir pDe ioBuf (u32 blockLba)
  else if blockIdx = 12 then
    putInode pdir (inode.setSector 12 (u32 blockLba))
    let blockLba ← allocSyncedWith scan "sync_dir_entry"
    let inode := (← get).inodes pdir
    if blockLba = -1 then
      let part := (← get).part
      setBlockBit (part.blockBitmapIdx (inode.sector 12).toNat) false
      putInode pdir (inode.setSector 12 0)
      return false
    writeSectors (inode.sector 12).toNat (tableMem (storeBlock blocks 12 (u32 blockLba))) 1
    syncFinish pdir pDe ioBuf (u32 blockLba)
  else
    writeSectors (inode.sector 12).toNat (tableMem (storeBlock blocks blockIdx (u32 blockLba))) 1
    syncFinish pdir pDe ioBuf (u32 blockLba)

/-- The loop over the blocks. -/
def syncLoopWith (scan : Scan) (pdir : Nat) (pDe : DirEntry) (blocks : Nat → UInt32) :
    Nat → Nat → Mem → FsM Bool
  | 0, _, _ => return false
  | fuel + 1, blockIdx, ioBuf => do
      let dirEntrySize := (← get).part.sb.dirEntrySize
      if blocks blockIdx = 0 then
        syncNewBlockWith scan pdir pDe ioBuf blocks blockIdx
      else
        let ioBuf ← readSectors (blocks blockIdx).toNat ioBuf 1
        match freeSlot ioBuf (512 / dirEntrySize) (512 / dirEntrySize) 0 with
        | some dirEntryIdx =>
            writeSectors (blocks blockIdx).toNat
              (ioBuf.splice (DirEntry.size * dirEntryIdx) pDe.toMem dirEntrySize) 1
            let inode := (← get).inodes pdir
            putInode pdir { inode with iSize := inode.iSize + UInt32.ofNat dirEntrySize }
            return true
        | none => syncLoopWith scan pdir pDe blocks fuel (blockIdx + 1) ioBuf

/-- `sync_dir_entry` -/
def syncDirEntryWith (scan : Scan) (pdir : Nat) (pDe : DirEntry) (ioBuf : Mem) : FsM Bool := do
  let s ← get
  let dirInode := s.inodes pdir
  assertFs (dirInode.iSize.toNat % s.part.sb.dirEntrySize = 0) "sync_dir_entry"
    "dir_size % dir_entry_size == 0"
  syncLoopWith scan pdir pDe (directBlocks dirInode) 140 0 ioBuf

/-! ### `file_write` -/

/-- The first write to a file gives it its first block. -/
def firstBlockWith (scan : Scan) (a : Nat) : FsM Bool := do
  let inode := (← get).inodes a
  if inode.sector 0 = 0 then
    let blockLba ← blockBitmapAllocWith scan
    if blockLba = -1 then
      return false
    else
      putInode a (inode.setSector 0 (u32 blockLba))
      let blockBitmapIdx := (← get).part.blockBitmapIdx blockLba
      assertFs (blockBitmapIdx ≠ 0) "file_write" "block_bitmap_idx != 0"
      bitmapSync blockBitmapIdx .blockBitmap
      return true
  else
    return true

/-- The loop that takes the blocks from `block_idx` up to `file_will_use_blocks`. -/
def growLoopWith (scan : Scan) (a : Nat) :
    Nat → Nat → (Nat → UInt32) → FsM (Option (Nat → UInt32))
  | 0, _, blocks => return some blocks
  | n + 1, blockIdx, blocks => do
      let blockLba ← blockBitmapAllocWith scan
      if blockLba = -1 then
        return none
      else
        if blockIdx < 12 then
          let inode := (← get).inodes a
          assertFs (inode.sector blockIdx = 0) "file_write"
            "file->fd_inode->i_sectors[block_idx] == 0"
          putInode a (inode.setSector blockIdx (u32 blockLba))
        let blockBitmapIdx := (← get).part.blockBitmapIdx blockLba
        bitmapSync blockBitmapIdx .blockBitmap
        growLoopWith scan a n (blockIdx + 1) (storeBlock blocks blockIdx (u32 blockLba))

/-- The block addresses a write is going to use. -/
def collectForWriteWith (scan : Scan) (a hasUsed willUse : Nat) :
    FsM (Option (Nat → UInt32)) := do
  let inode := (← get).inodes a
  if willUse = hasUsed then
    if hasUsed ≤ 12 then
      return some (lastBlock inode hasUsed)
    else
      return some (← readTable a "file_write" (fun _ => 0))
  else if willUse ≤ 12 then
    assertFs (inode.sector (hasUsed - 1) ≠ 0) "file_write"
      "file->fd_inode->i_sectors[block_idx] != 0"
    growLoopWith scan a (willUse - hasUsed) hasUsed (lastBlock inode hasUsed)
  else if hasUsed ≤ 12 then
    let blockLba ← blockBitmapAllocWith scan
    if blockLba = -1 then
      return none
    else
      assertFs (inode.sector 12 = 0) "file_write" "file->fd_inode->i_sectors[12] == 0"
      putInode a (inode.setSector 12 (u32 blockLba))
      match ← growLoopWith scan a (willUse - hasUsed) hasUsed (lastBlock inode hasUsed) with
      | none => return none
      | some blocks =>
          writeSectors (u32 blockLba).toNat (tableMem blocks) 1
          return some blocks
  else
    let blocks ← readTable a "file_write" (fun _ => 0)
    match ← growLoopWith scan a (willUse - hasUsed) hasUsed blocks with
    | none => return none
    | some blocks =>
        writeSectors (inode.sector 12).toNat (tableMem blocks) 1
        return some blocks

/-- `file_write` with its buffers. -/
def Heaps.fileWriteWith (scan : Scan) (env : HeapEnv) (fd : Nat) (buf : Mem) (count : Nat) :
    HeapM Int := do
  let a ← onFs (fdInodeOf fd "file_write")
  let iSize := ((← get).fs.inodes a).iSize.toNat
  if 512 * 140 < (iSize + count) % 2 ^ 32 then
    return -1
  else
    match ← sysMalloc env 512 with
    | none => return -1
    | some ioBuf =>
        match ← sysMalloc env (512 + 48) with
        | none => return -1
        | some allBlocks =>
            if ← onFs (firstBlockWith scan a) then
              let fileHasUsedBlocks := iSize / 512 + 1
              let fileWillUseBlocks := (iSize + count) % 2 ^ 32 / 512 + 1
              onFs (assertFs (fileWillUseBlocks ≤ 140) "file_write" "file_will_use_blocks <= 140")
              match ← onFs (collectForWriteWith scan a fileHasUsedBlocks fileWillUseBlocks) with
              | none => return -1
              | some blocks =>
                  onFs (setFdPos fd (sub32 iSize 1))
                  let (bytesWritten, io) ←
                    onFs (writeLoop fd a blocks count count buf 0 count true (fun _ => 0))
                  onFs (inodeSync ((← get).fs.inodes a) io)
                  sysFree env allBlocks
                  sysFree env ioBuf
                  return int32 bytesWritten
            else
              return -1

/-! ### `file_create` and `sys_mkdir` -/

/-- `file_create` in the directory whose inode is at `parent`. -/
def fileCreateWith (scan : Scan) (env : FsEnv) (parent : Nat) (filename : List UInt8)
    (flag : Nat) : FsM Int := do
  let inodeNo ← inodeBitmapAllocWith scan
  if inodeNo = -1 then
    return -1
  else
    let a := env.newAddr (← get).heap
    modify fun s => { s with heap := insert a s.heap }
    putInode a (inodeInit inodeNo.toNat)
    match getFreeSlotInGlobal (← get).fileTable with
    | none =>
        freeInode a
        setInodeBit inodeNo.toNat false
        return -1
    | some fdIdx =>
        setFile fdIdx { fdPos := 0, fdFlag := flag, fdInode := some a }
        putInode a { (← get).inodes a with writeDeny := false }
        let newDirEntry ← Prog.lift
          (createDirEntry filename (UInt32.ofNat inodeNo.toNat) ftRegular DirEntry.zero)
        if ← syncDirEntryWith scan parent newDirEntry (fun _ => 0) then
          inodeSync ((← get).inodes parent) (fun _ => 0)
          inodeSync ((← get).inodes a) (fun _ => 0)
          bitmapSync inodeNo.toNat .inodeBitmap
          modify fun s => { s with openInodes := a :: s.openInodes }
          putInode a { (← get).inodes a with iOpenCnts := 1 }
          pcbFdInstall fdIdx
        else
          setFile fdIdx { fdPos := 0, fdFlag := 0, fdInode := none }
          freeInode a
          setInodeBit inodeNo.toNat false
          return -1

/-- `sys_mkdir` from where the name is known to be new: `inode_no` has been taken. -/
def makeDirWith (scan : Scan) (parentDir : DirPtr) (dirname : List UInt8) (inodeNo : Nat) :
    FsM Int := do
  let blockLba ← blockBitmapAllocWith scan
  if blockLba = -1 then
    setInodeBit inodeNo false
    dirClose parentDir
    return -1
  else
    let newDirInode := (inodeInit inodeNo).setSector 0 (u32 blockLba)
    let blockBitmapIdx := (← get).part.blockBitmapIdx blockLba
    assertFs (blockBitmapIdx ≠ 0) "sys_mkdir" "block_bitmap_idx != 0"
    bitmapSync blockBitmapIdx .blockBitmap
    let s ← get
    let parentNo := (s.inodes (parentDir.inode s)).iNo
    writeSectors (newDirInode.sector 0).toNat (dotBlock (UInt32.ofNat inodeNo) parentNo) 1
    let newDirInode := { newDirInode with iSize := UInt32.ofNat (2 * s.part.sb.dirEntrySize) }
    let newDirEntry ← Prog.lift
      (createDirEntry dirname (UInt32.ofNat inodeNo) ftDirectory DirEntry.zero)
    if ← syncDirEntryWith scan (parentDir.inode (← get)) newDirEntry (fun _ => 0) then
      let s ← get
      inodeSync (s.inodes (parentDir.inode s)) (fun _ => 0)
      inodeSync newDirInode (fun _ => 0)
      bitmapSync inodeNo .inodeBitmap
      dirClose parentDir
      return 0
    else
      setInodeBit inodeNo false
      dirClose parentDir
      return -1

/-- `sys_mkdir` -/
def sysMkdirWith (scan : Scan) (env : FsEnv) (pathname : List UInt8) : FsM Int := do
  let (inodeNo, r) ← searchFile env pathname
  if inodeNo ≠ -1 then
    dirClose r.parentDir
    return -1
  else
    let pathnameDepth ← Prog.lift (pathDepthCnt pathname)
    let pathSearchedDepth ← Prog.lift (pathDepthCnt r.searchedPath)
    if pathnameDepth ≠ pathSearchedDepth then
      dirClose r.parentDir
      return -1
    else
      let inodeNo ← inodeBitmapAllocWith scan
      if inodeNo = -1 then
        dirClose r.parentDir
        return -1
      else
        makeDirWith scan r.parentDir (baseName r.searchedPath) inodeNo.toNat

/-! ### The code as it is -/

theorem blockBitmapAllocWith_bitmapScan :
    blockBitmapAllocWith Bitmap.bitmapScan = blockBitmapAlloc := rfl

theorem inodeBitmapAllocWith_bitmapScan :
    inodeBitmapAllocWith Bitmap.bitmapScan = inodeBitmapAlloc := rfl

theorem syncLoopWith_bitmapScan (pdir : Nat) (pDe : DirEntry) (blocks : Nat → UInt32) :
    ∀ fuel blockIdx ioBuf, syncLoopWith Bitmap.bitmapScan pdir pDe blocks fuel blockIdx ioBuf
      = syncLoop pdir pDe blocks fuel blockIdx ioBuf := by
  intro fuel
  induction fuel with
  | zero => exact fun _ _ => rfl
  | succ fuel ih =>
      intro blockIdx ioBuf
      simp only [syncLoopWith, syncLoop, ih]
      rfl

theorem syncDirEntryWith_bitmapScan (pdir : Nat) (pDe : DirEntry) (ioBuf : Mem) :
    syncDirEntryWith Bitmap.bitmapScan pdir pDe ioBuf = syncDirEntry pdir pDe ioBuf := by
  simp only [syncDirEntryWith, syncDirEntry, syncLoopWith_bitmapScan]

theorem growLoopWith_bitmapScan (a : Nat) : ∀ n blockIdx blocks,
    growLoopWith Bitmap.bitmapScan a n blockIdx blocks = growLoop a n blockIdx blocks := by
  intro n
  induction n with
  | zero => exact fun _ _ => rfl
  | succ n ih =>
      intro blockIdx blocks
      simp only [growLoopWith, growLoop, ih, blockBitmapAllocWith_bitmapScan]

theorem collectForWriteWith_bitmapScan (a hasUsed willUse : Nat) :
    collectForWriteWith Bitmap.bitmapScan a hasUsed willUse
      = collectForWrite a hasUsed willUse := by
  have hgrow : growLoopWith Bitmap.bitmapScan a = growLoop a := by
    funext n blockIdx blocks
    exact growLoopWith_bitmapScan a n blockIdx blocks
  unfold collectForWriteWith collectForWrite
  rewrite [hgrow]
  rfl

/-- With the `bitmap_scan` there is, `file_write` is the function it is. -/
theorem fileWriteWith_bitmapScan (env : HeapEnv) (fd : Nat) (buf : Mem) (count : Nat) :
    Heaps.fileWriteWith Bitmap.bitmapScan env fd buf count = Heaps.fileWrite env fd buf count := by
  simp only [Heaps.fileWriteWith, Heaps.fileWrite, collectForWriteWith_bitmapScan]
  rfl

/-- So is `file_create`. -/
theorem fileCreateWith_bitmapScan (env : FsEnv) (parent : Nat) (filename : List UInt8)
    (flag : Nat) : fileCreateWith Bitmap.bitmapScan env parent filename flag
      = fileCreate env parent filename flag := by
  have hsync : syncDirEntryWith Bitmap.bitmapScan = syncDirEntry := by
    funext pdir pDe ioBuf
    exact syncDirEntryWith_bitmapScan pdir pDe ioBuf
  unfold fileCreateWith fileCreate
  rewrite [hsync]
  rfl

/-- So is `sys_mkdir`. -/
theorem sysMkdirWith_bitmapScan (env : FsEnv) (pathname : List UInt8) :
    sysMkdirWith Bitmap.bitmapScan env pathname = sysMkdir env pathname := by
  simp only [sysMkdirWith, sysMkdir, makeDirWith, makeDir, syncDirEntryWith_bitmapScan,
    inodeBitmapAllocWith_bitmapScan, blockBitmapAllocWith_bitmapScan]

end ZyOs
