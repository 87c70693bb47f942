/-
`fs/dir.c`: looking an entry up in a directory and writing one into it.

Both functions collect the directory's blocks in an array of 140 sector numbers,
12 direct ones and the 128 of the indirect table.  The array is here a function
that is zero where nothing was stored.  The memory for buffers is taken as there.
-/
import ZyOs.Kernel.Inode
import ZyOs.Kernel.Block
import ZyOs.Kernel.String

namespace ZyOs

open Library

/-- `MAX_FILE_NAME_LEN` -/
def maxFileNameLen : Nat := 16

/-- A cleared `struct dir_entry`. -/
def DirEntry.zero : DirEntry := ⟨fun _ => 0, 0, 0⟩

/-- `create_dir_entry`: the terminator is not copied. -/
def createDirEntry (filename : List UInt8) (inodeNo fileType : UInt32) (pDe : DirEntry) :
    Kernel DirEntry := do
  ASSERT (filename.length ≤ maxFileNameLen) "create_dir_entry"
    "strlen(filename) <= MAX_FILE_NAME_LEN"
  return { filename := pDe.filename.splice 0 (cstr filename) filename.length
           iNo := inodeNo
           fType := fileType }

/-- `all_blocks` filled from the direct blocks only. -/
def directBlocks (inode : Inode) (k : Nat) : UInt32 := if k < 12 then inode.sector k else 0

/-- `ide_read(.., all_blocks + 12, 1)`: the 128 words of the table in a sector. -/
def withTable (blocks : Nat → UInt32) (table : Mem) (k : Nat) : UInt32 :=
  if 12 ≤ k ∧ k < 140 then getWord table (4 * (k - 12)) else blocks k

/-- `all_blocks + 12` as the bytes `ide_write` takes. -/
def tableMem (blocks : Nat → UInt32) : Mem := ofWords fun k => blocks (12 + k)

/-! ### `search_dir_entry` -/

/-- The loop over the entries of one block. -/
def searchBlock (buf : Mem) (name : List UInt8) (dirEntryCnt : Nat) : Nat → Nat → Option DirEntry
  | 0, _ => none
  | fuel + 1, dirEntryIdx =>
      if dirEntryIdx < dirEntryCnt then
        let pDe := buf.drop (DirEntry.size * dirEntryIdx)
        if strncmp pDe (cstr name) name.length 0 = 0 then some (DirEntry.ofMem pDe)
        else searchBlock buf name dirEntryCnt fuel (dirEntryIdx + 1)
      else none

/-- The loop over the blocks. -/
def searchBlocks (blocks : Nat → UInt32) (name : List UInt8) (dirEntryCnt : Nat) :
    Nat → Nat → FsM (Option DirEntry)
  | 0, _ => return none
  | fuel + 1, blockIdx => do
      if blocks blockIdx = 0 then
        searchBlocks blocks name dirEntryCnt fuel (blockIdx + 1)
      else
        let buf ← readSectors (blocks blockIdx).toNat (fun _ => 0) 1
        match searchBlock buf name dirEntryCnt dirEntryCnt 0 with
        | some e => return some e
        | none => searchBlocks blocks name dirEntryCnt fuel (blockIdx + 1)

/-- `search_dir_entry`: the entry it stores in `dir_e`, if it finds one. -/
def searchDirEntry (pdir : Nat) (name : List UInt8) : FsM (Option DirEntry) := do
  let s ← get
  let inode := s.inodes pdir
  let dirEntryCnt := sectorSize / s.part.sb.dirEntrySize
  if inode.sector 12 ≠ 0 then
    let table ← readSectors (inode.sector 12).toNat (fun _ => 0) 1
    searchBlocks (withTable (directBlocks inode) table) name dirEntryCnt 140 0
  else
    searchBlocks (directBlocks inode) name dirEntryCnt 140 0

/-! ### `sync_dir_entry` -/

/-- `block_bitmap_alloc` and the `bitmap_sync` of the block; -1 when there is none. -/
def allocSynced (func : String) : FsM Int := do
  let blockLba ← blockBitmapAlloc
  if blockLba = -1 then
    return -1
  let part := (← get).part
  let blockBitmapIdx := part.blockBitmapIdx blockLba
  assertFs (blockBitmapIdx ≠ 2 ^ 32 - 1) func "block_bitmap_idx != -1"
  bitmapSync blockBitmapIdx .blockBitmap
  return blockLba

/-- `all_blocks[k] = v` -/
def storeBlock (blocks : Nat → UInt32) (k : Nat) (v : UInt32) (j : Nat) : UInt32 :=
  if j = k then v else blocks j

/-- The end of an insertion that took a block: the block is written with the entry in front
and `i_size` grows. -/
def syncFinish (pdir : Nat) (pDe : DirEntry) (ioBuf : Mem) (block : UInt32) : FsM Bool := do
  let dirEntrySize := (← get).part.sb.dirEntrySize
  writeSectors block.toNat ((ioBuf.fill 0 0 512).splice 0 pDe.toMem dirEntrySize) 1
  let inode := (← get).inodes pdir
  putInode pdir { inode with iSize := inode.iSize + UInt32.ofNat dirEntrySize }
  return true

/-- The entry goes into a block of its own: the block for `blockIdx` is taken, with the
indirect table in front of it when `blockIdx` is 12. -/
def syncNewBlock (pdir : Nat) (pDe : DirEntry) (ioBuf : Mem) (blocks : Nat → UInt32)
    (blockIdx : Nat) : FsM Bool := do
  let blockLba ← allocSynced "sync_dir_entry"
  if blockLba = -1 then
    return false
  let inode := (← get).inodes pdir
  if blockIdx < 12 then
    putInode pdir (inode.setSector blockIdx (u32 blockLba))
    syncFinish pdir pDe ioBuf (u32 blockLba)
  else if blockIdx = 12 then
    putInode pdir (inode.setSector 12 (u32 blockLba))
    let blockLba ← allocSynced "sync_dir_entry"
    let inode := (← get).inodes pdir
    if blockLba = -1 then
      let part := (← get).part
      setBlockBit (part.blockBitmapIdx (inode.sector 12).toNat) false
      putInode pdir (inode.setSector 12 0)
      return false
    writeSectors (inode.sector 12).toNat (tableMem (storeBlock blocks 12 (u32 blockLba))) 1
    syncFinish pdir pDe ioBuf (u32 blockLba)
  else
    writeSectors (inode.sector 12).toNat (tableMem (storeBlock blocks blockIdx (u32 blockLba))) 1
    syncFinish pdir pDe ioBuf (u32 blockLba)

/-- The loop over the entries of a block: the first free slot. -/
def freeSlot (ioBuf : Mem) (dirEntrysPerSec : Nat) : Nat → Nat → Option Nat
  | 0, _ => none
  | fuel + 1, dirEntryIdx =>
      if dirEntryIdx < dirEntrysPerSec then
        if getWord ioBuf (DirEntry.size * dirEntryIdx + 20) = ftUnknown then some dirEntryIdx
        else freeSlot ioBuf dirEntrysPerSec fuel (dirEntryIdx + 1)
      else none

/-- The loop over the blocks. -/
def syncLoop (pdir : Nat) (pDe : DirEntry) (blocks : Nat → UInt32) :
    Nat → Nat → Mem → FsM Bool
  | 0, _, _ => return false
  | fuel + 1, blockIdx, ioBuf => do
      let dirEntrySize := (← get).part.sb.dirEntrySize
      if blocks blockIdx = 0 then
        syncNewBlock pdir pDe ioBuf blocks blockIdx
      else
        let ioBuf ← readSectors (blocks blockIdx).toNat ioBuf 1
        match freeSlot ioBuf (512 / dirEntrySize) (512 / dirEntrySize) 0 with
        | some dirEntryIdx =>
            writeSectors (blocks blockIdx).toNat
              (ioBuf.splice (DirEntry.size * dirEntryIdx) pDe.toMem dirEntrySize) 1
            let inode := (← get).inodes pdir
            putInode pdir { inode with iSize := inode.iSize + UInt32.ofNat dirEntrySize }
            return true
        | none => syncLoop pdir pDe blocks fuel (blockIdx + 1) ioBuf

/-- `sync_dir_entry`.  `all_blocks` starts out as zeros and gets the direct blocks; the
indirect table is not read into it. -/
def syncDirEntry (pdir : Nat) (pDe : DirEntry) (ioBuf : Mem) : FsM Bool := do
  let s ← get
  let dirInode := s.inodes pdir
  assertFs (dirInode.iSize.toNat % s.part.sb.dirEntrySize = 0) "sync_dir_entry"
    "dir_size % dir_entry_size == 0"
  syncLoop pdir pDe (directBlocks dirInode) 140 0 ioBuf

end ZyOs
