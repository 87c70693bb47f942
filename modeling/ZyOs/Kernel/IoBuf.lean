/-
The callers of `inode_sync` and `inode_delete`, with the two as parameters.

Both read the sectors of a slot into `io_buf` and write them back, and know nothing of its size.
To say whether it is large enough, the functions that hand it to them are written here once more,
over whatever stands in for the two and is told how many bytes the buffer has: with those of
`fs/inode.c` they are the functions as they are, with `InodeIo.checking` they stop at the first
transfer that does not fit.
-/
import ZyOs.Kernel.HeapCalls

namespace ZyOs

open Library

/-- What may stand in for `inode_sync` and `inode_delete`: the first argument is the size of
`io_buf`. -/
structure InodeIo where
  sync : Nat → Inode → Mem → FsM Unit
  delete : Nat → Nat → Mem → FsM Unit

/-- The functions there are. -/
def InodeIo.code : InodeIo where
  sync _ := inodeSync
  delete _ := inodeDelete

/-- How many sectors are read and written for an inode. -/
def inodeSectors (no : Nat) : Nat := if 512 - no * 76 % 512 < 76 then 2 else 1

/-- A transfer runs past the end of `io_buf`. -/
def ioOverrun : Halt := .fault "io_buf"

/-- The same, when no transfer for inode `no` may run past the end of the buffer; `inode_sync` has
cut the number to a byte. -/
def InodeIo.checking (no : Nat) : InodeIo where
  sync bytes inode ioBuf :=
    if inode.iNo.toNat = no ∧ bytes < 512 * inodeSectors (inode.iNo.toNat % 256) then
      Prog.lift (.error ioOverrun)
    else inodeSync inode ioBuf
  delete bytes inodeNo ioBuf :=
    if inodeNo = no ∧ bytes < 512 * inodeSectors inodeNo then Prog.lift (.error ioOverrun)
    else inodeDelete inodeNo ioBuf

variable (io : InodeIo)

/-! ### `fs/dir.c` -/

/-- `removeEntry`, with `bytes` bytes in `io_buf`. -/
def removeEntryIo (bytes : Nat) (pdir : Nat) (blocks : Nat → UInt32) (blockIdx : Nat)
    (ioBuf : Mem) (t : Tally) (dirEntryIdx : Nat) : FsM Unit := do
  let dirEntrySize := (← get).part.sb.dirEntrySize
  assertFs (1 ≤ t.dirEntryCnt) "delete_dir_entry" "dir_entry_cnt >= 1"
  if t.dirEntryCnt = 1 ∧ t.isDirFirstBlock = false then
    freeBlock (blocks blockIdx)
    if blockIdx < 12 then
      putInode pdir (((← get).inodes pdir).setSector blockIdx 0)
    else
      -- `indirect_block_idx` is never increased
      Prog.lift (.error (.hang "delete_dir_entry"))
  else
    writeSectors (blocks blockIdx).toNat
      (ioBuf.fill (DirEntry.size * dirEntryIdx) 0 dirEntrySize) 1
  let inode := (← get).inodes pdir
  assertFs (dirEntrySize ≤ inode.iSize.toNat) "delete_dir_entry"
    "dir_inode->i_size >= dir_entry_size"
  putInode pdir { inode with iSize := inode.iSize - UInt32.ofNat dirEntrySize }
  io.sync bytes ((← get).inodes pdir) (fun _ => 0)

/-- The loop over the blocks. -/
def deleteLoopIo (bytes pdir inodeNo : Nat) (blocks : Nat → UInt32) : Nat → Nat → FsM Bool
  | 0, _ => return false
  | n + 1, blockIdx => do
      if blocks blockIdx = 0 then
        deleteLoopIo bytes pdir inodeNo blocks n (blockIdx + 1)
      else
        let dirEntrysPerSec := sectorSize / (← get).part.sb.dirEntrySize
        let ioBuf ← readSectors (blocks blockIdx).toNat (fun _ => 0) 1
        let t ← Prog.lift (tallyBlock ioBuf inodeNo dirEntrysPerSec 0 ⟨false, 0, none⟩)
        match t.dirEntryFound with
        | none => deleteLoopIo bytes pdir inodeNo blocks n (blockIdx + 1)
        | some dirEntryIdx =>
            removeEntryIo io bytes pdir blocks blockIdx ioBuf t dirEntryIdx
            return true

/-- `delete_dir_entry` -/
def deleteDirEntryIo (bytes pdir inodeNo : Nat) : FsM Bool := do
  let dirInode := (← get).inodes pdir
  if dirInode.sector 12 ≠ 0 then
    let table ← readSectors (dirInode.sector 12).toNat (fun _ => 0) 1
    deleteLoopIo io bytes pdir inodeNo (withTable (directBlocks dirInode) table) 140 0
  else
    deleteLoopIo io bytes pdir inodeNo (directBlocks dirInode) 140 0

namespace Heaps

/-! ### `fs/inode.c` -/

/-- `inode_release` -/
def inodeReleaseIo (env : HeapEnv) (inodeNo : Nat) : HeapM Unit := do
  let a ← inodeOpen env inodeNo
  onFs (assertFs (((← get).fs.inodes a).iNo.toNat = inodeNo) "inode_release"
    "inode_to_del->i_no == inode_no")
  onFs (releaseBlocks a)
  onFs (setInodeBit inodeNo false)
  onFs (bitmapSync inodeNo .inodeBitmap)
  let bytes := 1024
  let ioBuf ← deref "inode_release" (← sysMalloc env bytes)
  onFs (io.delete bytes inodeNo (fun _ => 0))
  sysFree env ioBuf
  inodeClose env a

/-- `dir_remove` -/
def dirRemoveIo (env : HeapEnv) (parentDir childDir : Nat) : HeapM Int := do
  let childDirInode := (← get).fs.inodes childDir
  onFs (checkFirstBlockOnly childDirInode 12 1)
  let bytes := sectorSize * 2
  match ← sysMalloc env bytes with
  | none => return -1
  | some ioBuf =>
      let _ ← onFs (deleteDirEntryIo io bytes parentDir childDirInode.iNo.toNat)
      inodeReleaseIo io env childDirInode.iNo.toNat
      sysFree env ioBuf
      return 0

/-! ### `fs/file.c` -/

/-- `file_create` in the directory whose inode is at `parent`. -/
def fileCreateIo (env : HeapEnv) (parent : Nat) (filename : List UInt8) (flag : Nat) :
    HeapM Int := do
  let bytes := 1024
  match ← sysMalloc env bytes with
  | none => return -1
  | some ioBuf =>
      let inodeNo ← onFs inodeBitmapAlloc
      if inodeNo = -1 then
        return -1
      else
        match ← sysMalloc env Inode.size with
        | none =>
            onFs (setInodeBit inodeNo.toNat false)
            sysFree env ioBuf
            return -1
        | some a =>
            onFs (putInode a (inodeInit inodeNo.toNat))
            match getFreeSlotInGlobal (← get).fs.fileTable with
            | none =>
                sysFree env a
                onFs (setInodeBit inodeNo.toNat false)
                sysFree env ioBuf
                return -1
            | some fdIdx =>
                onFs (setFile fdIdx { fdPos := 0, fdFlag := flag, fdInode := some a })
                onFs (putInode a { (← get).fs.inodes a with writeDeny := false })
                let newDirEntry ← onFs (Prog.lift
                  (createDirEntry filename (UInt32.ofNat inodeNo.toNat) ftRegular DirEntry.zero))
                if ← onFs (syncDirEntry parent newDirEntry (fun _ => 0)) then
                  onFs (io.sync bytes ((← get).fs.inodes parent) (fun _ => 0))
                  onFs (io.sync bytes ((← get).fs.inodes a) (fun _ => 0))
                  onFs (bitmapSync inodeNo.toNat .inodeBitmap)
                  onFs (modify fun s => { s with openInodes := a :: s.openInodes })
                  onFs (putInode a { (← get).fs.inodes a with iOpenCnts := 1 })
                  sysFree env ioBuf
                  onFs (pcbFdInstall fdIdx)
                else
                  onFs (setFile fdIdx { fdPos := 0, fdFlag := 0, fdInode := none })
                  sysFree env a
                  onFs (setInodeBit inodeNo.toNat false)
                  sysFree env ioBuf
                  return -1

/-- `file_write` -/
def fileWriteIo (env : HeapEnv) (fd : Nat) (buf : Mem) (count : Nat) : HeapM Int := do
  let a ← onFs (fdInodeOf fd "file_write")
  let iSize := ((← get).fs.inodes a).iSize.toNat
  if 512 * 140 < (iSize + count) % 2 ^ 32 then
    return -1
  else
    let bytes := 512
    match ← sysMalloc env bytes with
    | none => return -1
    | some ioBuf =>
        match ← sysMalloc env (512 + 48) with
        | none => return -1
        | some allBlocks =>
            if ← onFs (firstBlock a) then
              let fileHasUsedBlocks := iSize / 512 + 1
              let fileWillUseBlocks := (iSize + count) % 2 ^ 32 / 512 + 1
              onFs (assertFs (fileWillUseBlocks ≤ 140) "file_write" "file_will_use_blocks <= 140")
              match ← onFs (collectForWrite a fileHasUsedBlocks fileWillUseBlocks) with
              | none => return -1
              | some blocks =>
                  onFs (setFdPos fd (sub32 iSize 1))
                  let (bytesWritten, ioMem) ←
                    onFs (writeLoop fd a blocks count count buf 0 count true (fun _ => 0))
                  onFs (io.sync bytes ((← get).fs.inodes a) ioMem)
                  sysFree env allBlocks
                  sysFree env ioBuf
                  return int32 bytesWritten
            else
              return -1

/-! ### `fs/fs.c` -/

/-- `sys_unlink` -/
def sysUnlinkIo (env : HeapEnv) (pathname : List UInt8) : HeapM Int := do
  onFs (assertFs (pathname.length < maxPathLen) "sys_unlink" "strlen(pathname) < MAX_PATH_LEN")
  let (inodeNo, r) ← searchFile env pathname
  onFs (assertFs (inodeNo ≠ 0) "sys_unlink" "inode_no != 0")
  if inodeNo = -1 then
    dirClose env r.parentDir
    return -1
  else if r.fileType = ftDirectory then
    dirClose env r.parentDir
    return -1
  else if fileInUse (← get).fs (u32 inodeNo).toNat then
    dirClose env r.parentDir
    return -1
  else
    let bytes := sectorSize + sectorSize
    match ← sysMalloc env bytes with
    | none =>
        dirClose env r.parentDir
        return -1
    | some ioBuf =>
        let _ ← onFs (deleteDirEntryIo io bytes (r.parentDir.inode (← get)) (u32 inodeNo).toNat)
        inodeReleaseIo io env (u32 inodeNo).toNat
        sysFree env ioBuf
        dirClose env r.parentDir
        return 0

/-- `sys_mkdir` from where the name is known to be new, up to the ways out. -/
def makeDirIo (bytes : Nat) (parentInode : Nat) (dirname : List UInt8) (inodeNo : Nat) :
    FsM Bool := do
  let blockLba ← blockBitmapAlloc
  if blockLba = -1 then
    setInodeBit inodeNo false
    return false
  else
    let newDirInode := (inodeInit inodeNo).setSector 0 (u32 blockLba)
    let blockBitmapIdx := (← get).part.blockBitmapIdx blockLba
    assertFs (blockBitmapIdx ≠ 0) "sys_mkdir" "block_bitmap_idx != 0"
    bitmapSync blockBitmapIdx .blockBitmap
    let s ← get
    let parentNo := (s.inodes parentInode).iNo
    writeSectors (newDirInode.sector 0).toNat (dotBlock (UInt32.ofNat inodeNo) parentNo) 1
    let newDirInode := { newDirInode with iSize := UInt32.ofNat (2 * s.part.sb.dirEntrySize) }
    let newDirEntry ← Prog.lift
      (createDirEntry dirname (UInt32.ofNat inodeNo) ftDirectory DirEntry.zero)
    if ← syncDirEntry parentInode newDirEntry (fun _ => 0) then
      io.sync bytes ((← get).inodes parentInode) (fun _ => 0)
      io.sync bytes newDirInode (fun _ => 0)
      bitmapSync inodeNo .inodeBitmap
      return true
    else
      setInodeBit inodeNo false
      return false

/-- `sys_mkdir` -/
def sysMkdirIo (env : HeapEnv) (pathname : List UInt8) : HeapM Int := do
  let bytes := sectorSize * 2
  match ← sysMalloc env bytes with
  | none => return -1
  | some ioBuf =>
      let (inodeNo, r) ← searchFile env pathname
      if inodeNo ≠ -1 then
        mkdirRollback env r.parentDir ioBuf
      else
        let pathnameDepth ← onFs (Prog.lift (pathDepthCnt pathname))
        let pathSearchedDepth ← onFs (Prog.lift (pathDepthCnt r.searchedPath))
        if pathnameDepth ≠ pathSearchedDepth then
          mkdirRollback env r.parentDir ioBuf
        else
          let inodeNo ← onFs inodeBitmapAlloc
          if inodeNo = -1 then
            mkdirRollback env r.parentDir ioBuf
          else if ← onFs (makeDirIo io bytes (r.parentDir.inode (← get)) (baseName r.searchedPath)
              inodeNo.toNat) then
            sysFree env ioBuf
            dirClose env r.parentDir
            return 0
          else
            mkdirRollback env r.parentDir ioBuf

end Heaps

/-! ### The code as it is -/

theorem deleteLoopIo_code (bytes pdir inodeNo : Nat) (blocks : Nat → UInt32) : ∀ n blockIdx,
    deleteLoopIo .code bytes pdir inodeNo blocks n blockIdx
      = deleteLoop pdir inodeNo blocks n blockIdx := by
  intro n
  induction n with
  | zero => exact fun _ => rfl
  | succ n ih =>
      intro blockIdx
      simp only [deleteLoopIo, deleteLoop, ih]
      rfl

theorem deleteDirEntryIo_code (bytes pdir inodeNo : Nat) :
    deleteDirEntryIo .code bytes pdir inodeNo = deleteDirEntry pdir inodeNo := by
  simp only [deleteDirEntryIo, deleteDirEntry, deleteLoopIo_code]

namespace Heaps

theorem inodeReleaseIo_code (env : HeapEnv) (inodeNo : Nat) :
    inodeReleaseIo .code env inodeNo = inodeRelease env inodeNo := rfl

theorem dirRemoveIo_code (env : HeapEnv) (parentDir childDir : Nat) :
    dirRemoveIo .code env parentDir childDir = dirRemove env parentDir childDir := by
  simp only [dirRemoveIo, dirRemove, deleteDirEntryIo_code]
  rfl

theorem fileCreateIo_code (env : HeapEnv) (parent : Nat) (filename : List UInt8) (flag : Nat) :
    fileCreateIo .code env parent filename flag = fileCreate env parent filename flag := rfl

theorem fileWriteIo_code (env : HeapEnv) (fd : Nat) (buf : Mem) (count : Nat) :
    fileWriteIo .code env fd buf count = fileWrite env fd buf count := rfl

theorem sysUnlinkIo_code (env : HeapEnv) (pathname : List UInt8) :
    sysUnlinkIo .code env pathname = sysUnlink env pathname := by
  simp only [sysUnlinkIo, sysUnlink, deleteDirEntryIo_code]
  rfl

theorem sysMkdirIo_code (env : HeapEnv) (pathname : List UInt8) :
    sysMkdirIo .code env pathname = sysMkdir env pathname := rfl

end Heaps

/-! ### The calls that hand over a buffer -/

/-- Who calls `inode_sync` or `inode_delete`, and who gives `delete_dir_entry` its buffer. -/
inductive IoCall where
  | fileCreate (parent : Nat) (filename : List UInt8) (flag : Nat)
  | fileWrite (fd : Nat) (buf : Mem) (count : Nat)
  | mkdir (pathname : List UInt8)
  | unlink (pathname : List UInt8)
  | dirRemove (parentDir childDir : Nat)

/-- A call of one. -/
def IoCall.exec (env : HeapEnv) : IoCall → HeapM Int
  | .fileCreate parent filename flag => Heaps.fileCreateIo io env parent filename flag
  | .fileWrite fd buf count => Heaps.fileWriteIo io env fd buf count
  | .mkdir pathname => Heaps.sysMkdirIo io env pathname
  | .unlink pathname => Heaps.sysUnlinkIo io env pathname
  | .dirRemove parentDir childDir => Heaps.dirRemoveIo io env parentDir childDir

end ZyOs
