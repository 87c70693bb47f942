/-
`delete_dir_entry` of `fs/dir.c` with its loops as they stand.

Of the three loops, two count up to a bound.  The third counts the blocks of the indirect
table and comes last, when the only entry of an indirect block has been found; it looks at
`indirect_block_idx` without ever increasing it.  Here it takes the number of rounds it is
given, and what follows it is there as well.
-/
import ZyOs.Kernel.Remove

namespace ZyOs

open Library

/-- `while (indirect_block_idx < 140)`: the number of blocks counted when the loop ends within
`fuel` rounds. -/
def countIndirectBlocks (blocks : Nat → UInt32) : Nat → Nat → Nat → Option Nat
  | 0, _, _ => none
  | fuel + 1, indirectBlockIdx, indirectBlocks =>
      if indirectBlockIdx < 140 then
        countIndirectBlocks blocks fuel indirectBlockIdx
          (if blocks indirectBlockIdx ≠ 0 then indirectBlocks + 1 else indirectBlocks)
      else some indirectBlocks

/-- The block at `blockIdx` goes from the table, or the table goes when nothing else is in it. -/
def eraseIndirect (fuel pdir : Nat) (blocks : Nat → UInt32) (blockIdx : Nat) : FsM Unit := do
  match countIndirectBlocks blocks fuel 12 0 with
  | none => Prog.lift (.error (.hang "delete_dir_entry"))
  | some indirectBlocks =>
      assertFs (1 ≤ indirectBlocks) "delete_dir_entry" "indirect_blocks >= 1"
      let inode := (← get).inodes pdir
      if 1 < indirectBlocks then
        writeSectors (inode.sector 12).toNat (tableMem (storeBlock blocks blockIdx 0)) 1
      else
        freeBlock (inode.sector 12)
        putInode pdir (inode.setSector 12 0)

/-- `removeEntry` with the third loop in it. -/
def removeEntryIn (fuel pdir : Nat) (blocks : Nat → UInt32) (blockIdx : Nat) (ioBuf : Mem)
    (t : Tally) (dirEntryIdx : Nat) : FsM Unit := do
  let dirEntrySize := (← get).part.sb.dirEntrySize
  assertFs (1 ≤ t.dirEntryCnt) "delete_dir_entry" "dir_entry_cnt >= 1"
  if t.dirEntryCnt = 1 ∧ t.isDirFirstBlock = false then
    freeBlock (blocks blockIdx)
    if blockIdx < 12 then
      putInode pdir (((← get).inodes pdir).setSector blockIdx 0)
    else
      eraseIndirect fuel pdir blocks blockIdx
  else
    writeSectors (blocks blockIdx).toNat
      (ioBuf.fill (DirEntry.size * dirEntryIdx) 0 dirEntrySize) 1
  let inode := (← get).inodes pdir
  assertFs (dirEntrySize ≤ inode.iSize.toNat) "delete_dir_entry"
    "dir_inode->i_size >= dir_entry_size"
  putInode pdir { inode with iSize := inode.iSize - UInt32.ofNat dirEntrySize }
  inodeSync ((← get).inodes pdir) (fun _ => 0)

/-- `deleteLoop` with the third loop in it. -/
def deleteLoopIn (fuel pdir inodeNo : Nat) (blocks : Nat → UInt32) : Nat → Nat → FsM Bool
  | 0, _ => return false
  | n + 1, blockIdx => do
      if blocks blockIdx = 0 then
        deleteLoopIn fuel pdir inodeNo blocks n (blockIdx + 1)
      else
        let dirEntrysPerSec := sectorSize / (← get).part.sb.dirEntrySize
        let ioBuf ← readSectors (blocks blockIdx).toNat (fun _ => 0) 1
        let t ← Prog.lift (tallyBlock ioBuf inodeNo dirEntrysPerSec 0 ⟨false, 0, none⟩)
        match t.dirEntryFound with
        | none => deleteLoopIn fuel pdir inodeNo blocks n (blockIdx + 1)
        | some dirEntryIdx =>
            removeEntryIn fuel pdir blocks blockIdx ioBuf t dirEntryIdx
            return true

/-- `delete_dir_entry`, when the third loop has `fuel` rounds. -/
def deleteDirEntryIn (fuel pdir inodeNo : Nat) : FsM Bool := do
  let dirInode := (← get).inodes pdir
  if dirInode.sector 12 ≠ 0 then
    let table ← readSectors (dirInode.sector 12).toNat (fun _ => 0) 1
    deleteLoopIn fuel pdir inodeNo (withTable (directBlocks dirInode) table) 140 0
  else
    deleteLoopIn fuel pdir inodeNo (directBlocks dirInode) 140 0

end ZyOs
