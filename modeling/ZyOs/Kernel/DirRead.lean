/-
`dir_read` of `fs/dir.c`, with which a directory is listed entry by entry.

`dir_pos` is where the listing stands.  It grows by the size of an entry with each entry
returned, so it counts the live entries gone by and says nothing of where the next one is:
every call starts again at the first block and lets as many live entries pass.  The entry
is returned as a pointer into `dir_buf`; here it is the entry it points to.
-/
import ZyOs.Kernel.Dir

namespace ZyOs

open Library

/-- The loop over the entries of a block, with `curDirEntryPos` as the earlier blocks left it:
the entry that is next, if it is here, and the position. -/
def readEntries (dirE : Mem) (dirPos dirEntrySize : UInt32) : Nat → Nat → UInt32 →
    Kernel (Option Nat × UInt32)
  | 0, _, curDirEntryPos => return (none, curDirEntryPos)
  | n + 1, dirEntryIdx, curDirEntryPos => do
      if getWord dirE (DirEntry.size * dirEntryIdx + 20) ≠ ftUnknown then
        if curDirEntryPos < dirPos then
          readEntries dirE dirPos dirEntrySize n (dirEntryIdx + 1) (curDirEntryPos + dirEntrySize)
        else
          ASSERT (curDirEntryPos = dirPos) "dir_read" "cur_dir_entry_pos == dir->dir_pos"
          return (some dirEntryIdx, curDirEntryPos)
      else
        readEntries dirE dirPos dirEntrySize n (dirEntryIdx + 1) curDirEntryPos

/-- The loop over the blocks. -/
def readBlocks (blocks : Nat → UInt32) (dirSize dirPos : UInt32) :
    Nat → Nat → UInt32 → FsM (Option DirEntry × UInt32)
  | 0, _, _ => return (none, dirPos)
  | n + 1, blockIdx, curDirEntryPos => do
      if dirSize ≤ dirPos then
        return (none, dirPos)
      else if blocks blockIdx = 0 then
        readBlocks blocks dirSize dirPos n (blockIdx + 1) curDirEntryPos
      else
        let dirEntrySize := (← get).part.sb.dirEntrySize
        let dirE ← readSectors (blocks blockIdx).toNat (fun _ => 0) 1
        match ← Prog.lift (readEntries dirE dirPos (UInt32.ofNat dirEntrySize)
            (sectorSize / dirEntrySize) 0 curDirEntryPos) with
        | (some dirEntryIdx, _) =>
            return (some (DirEntry.ofMem (dirE.drop (DirEntry.size * dirEntryIdx))),
              dirPos + UInt32.ofNat dirEntrySize)
        | (none, curDirEntryPos) =>
            readBlocks blocks dirSize dirPos n (blockIdx + 1) curDirEntryPos

/-- `dir_read` of a directory whose inode is at `a`: the entry, nothing for `NULL`, and the new
`dir_pos`. -/
def dirRead (a : Nat) (dirPos : UInt32) : FsM (Option DirEntry × UInt32) := do
  let dirInode := (← get).inodes a
  if dirInode.sector 12 ≠ 0 then
    let table ← readSectors (dirInode.sector 12).toNat (fun _ => 0) 1
    readBlocks (withTable (directBlocks dirInode) table) dirInode.iSize dirPos 140 0 0
  else
    readBlocks (directBlocks dirInode) dirInode.iSize dirPos 12 0 0

/-- `n` calls one after the other, as `buildin_ls` makes them: what each returned. -/
def dirReads (a : Nat) : Nat → UInt32 → FsM (List (Option DirEntry))
  | 0, _ => return []
  | n + 1, dirPos => do
      let (dirE, dirPos) ← dirRead a dirPos
      return dirE :: (← dirReads a n dirPos)

end ZyOs
