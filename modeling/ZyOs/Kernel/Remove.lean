/-
The removing half of `fs/inode.c` and `fs/dir.c`: giving back the blocks and the
number of an inode, and taking an entry out of a directory.

Buffers are taken as there.  In `delete_dir_entry` the loop that counts the indirect
blocks never moves on, so whoever gets there stays there.
-/
import ZyOs.Kernel.Dir

namespace ZyOs

open Library

/-! ### `inode_release` -/

/-- `inode_delete` -/
def inodeDelete (inodeNo : Nat) (ioBuf : Mem) : FsM Unit := do
  assertFs (inodeNo < 4096) "inode_delete" "inode_no < 4096"
  let part := (← get).part
  let inodePos ← Prog.lift (inodeLocate part inodeNo)
  assertFs (inodePos.secLba ≤ part.startLba + part.secCnt) "inode_delete"
    "inode_pos.sec_lba <= (part->start_lba + part->sec_cnt)"
  let secs := if inodePos.twoSec then 2 else 1
  let inodeBuf ← readSectors inodePos.secLba ioBuf secs
  writeSectors inodePos.secLba (inodeBuf.fill inodePos.offSize 0 Inode.size) secs

/-- The block at `lba` is given back. -/
def freeBlock (lba : UInt32) : FsM Unit := do
  let blockBitmapIdx := (← get).part.blockBitmapIdx lba.toNat
  setBlockBit blockBitmapIdx false
  bitmapSync blockBitmapIdx .blockBitmap

/-- A block of `inode_release` is given back. -/
def releaseBlock (lba : UInt32) : FsM Unit := do
  assertFs (0 < (← get).part.blockBitmapIdx lba.toNat) "inode_release" "block_bitmap_idx > 0"
  freeBlock lba

/-- The loop of `inode_release` over the blocks it has collected. -/
def releaseLoop (blocks : Nat → UInt32) : Nat → Nat → FsM Unit
  | 0, _ => return ()
  | n + 1, blockIdx => do
      if blocks blockIdx ≠ 0 then
        releaseBlock (blocks blockIdx)
      releaseLoop blocks n (blockIdx + 1)

/-- All blocks of the inode at `a`, the table itself first. -/
def releaseBlocks (a : Nat) : FsM Unit := do
  let inode := (← get).inodes a
  if inode.sector 12 ≠ 0 then
    let table ← readSectors (inode.sector 12).toNat (fun _ => 0) 1
    releaseBlock (inode.sector 12)
    releaseLoop (withTable (directBlocks inode) table) 140 0
  else
    releaseLoop (directBlocks inode) 12 0

/-- `inode_release` -/
def inodeRelease (env : FsEnv) (inodeNo : Nat) : FsM Unit := do
  let a ← inodeOpen env inodeNo
  assertFs (((← get).inodes a).iNo.toNat = inodeNo) "inode_release"
    "inode_to_del->i_no == inode_no"
  releaseBlocks a
  setInodeBit inodeNo false
  bitmapSync inodeNo .inodeBitmap
  inodeDelete inodeNo (fun _ => 0)
  inodeClose a

/-! ### `delete_dir_entry` -/

/-- What `delete_dir_entry` has seen of a block: whether `.` is in it, how many entries other
than `.` and `..`, and where the entry to delete is. -/
structure Tally where
  isDirFirstBlock : Bool
  dirEntryCnt : Nat
  dirEntryFound : Option Nat

/-- The loop over the entries of a block. -/
def tallyBlock (ioBuf : Mem) (inodeNo : Nat) : Nat → Nat → Tally → Kernel Tally
  | 0, _, t => return t
  | n + 1, dirEntryIdx, t => do
      let dirE := ioBuf.drop (DirEntry.size * dirEntryIdx)
      if getWord dirE 20 = ftUnknown then
        tallyBlock ioBuf inodeNo n (dirEntryIdx + 1) t
      else if strncmp dirE (cstr [46]) 1 0 = 0 then
        tallyBlock ioBuf inodeNo n (dirEntryIdx + 1) { t with isDirFirstBlock := true }
      else if strncmp dirE (cstr [46, 46]) 2 0 = 0 then
        tallyBlock ioBuf inodeNo n (dirEntryIdx + 1) t
      else
        let t := { t with dirEntryCnt := t.dirEntryCnt + 1 }
        if (getWord dirE 16).toNat = inodeNo then
          ASSERT (t.dirEntryFound = none) "delete_dir_entry" "dir_entry_found == NULL"
          tallyBlock ioBuf inodeNo n (dirEntryIdx + 1) { t with dirEntryFound := some dirEntryIdx }
        else
          tallyBlock ioBuf inodeNo n (dirEntryIdx + 1) t

/-- The entry at `dirEntryIdx` of block `blockIdx` goes, and the block with it when nothing else
is in it. -/
def removeEntry (pdir : Nat) (blocks : Nat → UInt32) (blockIdx : Nat) (ioBuf : Mem) (t : Tally)
    (dirEntryIdx : Nat) : FsM Unit := do
  let dirEntrySize := (← get).part.sb.dirEntrySize
  assertFs (1 ≤ t.dirEntryCnt) "delete_dir_entry" "dir_entry_cnt >= 1"
  if t.dirEntryCnt = 1 ∧ t.isDirFirstBlock = false then
    freeBlock (blocks blockIdx)
    if blockIdx < 12 then
      putInode pdir (((← get).inodes pdir).setSector blockIdx 0)
    else
      -- `indirect_block_idx` is never increased
      Prog.lift (.error (.hang "delete_dir_entry"))
  else
    writeSectors (blocks blockIdx).toNat
      (ioBuf.fill (DirEntry.size * dirEntryIdx) 0 dirEntrySize) 1
  let inode := (← get).inodes pdir
  assertFs (dirEntrySize ≤ inode.iSize.toNat) "delete_dir_entry"
    "dir_inode->i_size >= dir_entry_size"
  putInode pdir { inode with iSize := inode.iSize - UInt32.ofNat dirEntrySize }
  inodeSync ((← get).inodes pdir) (fun _ => 0)

/-- The loop over the blocks. -/
def deleteLoop (pdir inodeNo : Nat) (blocks : Nat → UInt32) : Nat → Nat → FsM Bool
  | 0, _ => return false
  | n + 1, blockIdx => do
      if blocks blockIdx = 0 then
        deleteLoop pdir inodeNo blocks n (blockIdx + 1)
      else
        let dirEntrysPerSec := sectorSize / (← get).part.sb.dirEntrySize
        let ioBuf ← readSectors (blocks blockIdx).toNat (fun _ => 0) 1
        let t ← Prog.lift (tallyBlock ioBuf inodeNo dirEntrysPerSec 0 ⟨false, 0, none⟩)
        match t.dirEntryFound with
        | none => deleteLoop pdir inodeNo blocks n (blockIdx + 1)
        | some dirEntryIdx =>
            removeEntry pdir blocks blockIdx ioBuf t dirEntryIdx
            return true

/-- `delete_dir_entry` -/
def deleteDirEntry (pdir inodeNo : Nat) : FsM Bool := do
  let dirInode := (← get).inodes pdir
  if dirInode.sector 12 ≠ 0 then
    let table ← readSectors (dirInode.sector 12).toNat (fun _ => 0) 1
    deleteLoop pdir inodeNo (withTable (directBlocks dirInode) table) 140 0
  else
    deleteLoop pdir inodeNo (directBlocks dirInode) 140 0

/-! ### Directories -/

/-- `dir_is_empty` -/
def dirIsEmpty (s : Fs) (dir : Nat) : Bool :=
  (s.inodes dir).iSize == UInt32.ofNat (s.part.sb.dirEntrySize * 2)

/-- The loop of `dir_remove`: an empty directory has no block but the first. -/
def checkFirstBlockOnly (inode : Inode) : Nat → Nat → FsM Unit
  | 0, _ => return ()
  | n + 1, blockIdx => do
      assertFs (inode.sector blockIdx = 0) "dir_remove"
        "child_dir_inode->i_sectors[block_idx] == 0"
      checkFirstBlockOnly inode n (blockIdx + 1)

/-- `dir_remove`; what `delete_dir_entry` returns is not looked at. -/
def dirRemove (env : FsEnv) (parentDir childDir : Nat) : FsM Int := do
  let childDirInode := (← get).inodes childDir
  checkFirstBlockOnly childDirInode 12 1
  let _ ← deleteDirEntry parentDir childDirInode.iNo.toNat
  inodeRelease env childDirInode.iNo.toNat
  return 0

end ZyOs
