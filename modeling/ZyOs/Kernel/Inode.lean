/-
`fs/inode.c`.
-/
import ZyOs.Kernel.FsState

namespace ZyOs

open Library

/-- `struct inode_position` -/
structure InodePosition where
  twoSec : Bool
  secLba : Nat
  offSize : Nat

/-- `inode_locate` -/
def inodeLocate (part : Partition) (inodeNo : Nat) : Kernel InodePosition := do
  ASSERT (inodeNo < 4096) "inode_locate" "inode_no < 4096"
  let offSize := inodeNo * Inode.size
  let offSec := offSize / 512
  let offSizeInSec := offSize % 512
  let leftInSec := 512 - offSizeInSec
  return { twoSec := leftInSec < Inode.size
           secLba := part.sb.inodeTableLba + offSec
           offSize := offSizeInSec }

/-- `inode_sync`: note that the inode number goes through a `uint8_t`. -/
def inodeSync (inode : Inode) (ioBuf : Mem) : FsM Unit := do
  let inodeNo := inode.iNo.toNat % 256
  let part := (← get).part
  let inodePos ← Prog.lift (inodeLocate part inodeNo)
  assertFs (inodePos.secLba ≤ part.startLba + part.secCnt) "inode_sync"
    "inode_pos.sec_lba <= (part->start_lba + part->sec_cnt)"
  -- what only means something in memory is cleared in the copy that goes to disk
  let pureInode := { inode with iOpenCnts := 0, writeDeny := false }
  if inodePos.twoSec then
    let inodeBuf ← readSectors inodePos.secLba ioBuf 2
    writeSectors inodePos.secLba (inodeBuf.splice inodePos.offSize pureInode.toMem Inode.size) 2
  else
    let inodeBuf ← readSectors inodePos.secLba ioBuf 1
    writeSectors inodePos.secLba (inodeBuf.splice inodePos.offSize pureInode.toMem Inode.size) 1

/-- The loop of `inode_open` over `part->open_inodes`. -/
def findOpen (inodes : Nat → Inode) (inodeNo : Nat) : List Nat → Option Nat
  | [] => none
  | a :: rest => if (inodes a).iNo.toNat = inodeNo then some a else findOpen inodes inodeNo rest

/-- Write the inode object at `a`. -/
def putInode (a : Nat) (n : Inode) : FsM Unit :=
  modify fun s => { s with inodes := fun b => if b = a then n else s.inodes b }

/-- `inode_open`: the address of the inode. -/
def inodeOpen (env : FsEnv) (inodeNo : Nat) : FsM Nat := do
  let s ← get
  match findOpen s.inodes inodeNo s.openInodes with
  | some a =>
      putInode a { s.inodes a with iOpenCnts := (s.inodes a).iOpenCnts + 1 }
      return a
  | none =>
      let inodePos ← Prog.lift (inodeLocate s.part inodeNo)
      let a := env.newAddr s.heap
      let secs := if inodePos.twoSec then 2 else 1
      let inodeBuf ← readSectors inodePos.secLba (fun _ => 0) secs
      let inode := Inode.ofMem (inodeBuf.drop inodePos.offSize)
      putInode a { inode with iOpenCnts := 1 }
      modify fun s => { s with openInodes := a :: s.openInodes, heap := insert a s.heap }
      return a

/-- `--inode->i_open_cnts` -/
def decrOpenCnts (cnt : Nat) : Nat := if cnt = 0 then 2 ^ 32 - 1 else cnt - 1

/-- `inode_close` -/
def inodeClose (a : Nat) : FsM Unit := do
  let s ← get
  let cnt := decrOpenCnts (s.inodes a).iOpenCnts
  putInode a { s.inodes a with iOpenCnts := cnt }
  if cnt = 0 then
    modify fun s => { s with openInodes := s.openInodes.erase a, heap := s.heap.erase a }

/-- `inode_init` -/
def inodeInit (inodeNo : Nat) : Inode where
  iNo := UInt32.ofNat inodeNo
  iSize := 0
  iOpenCnts := 0
  writeDeny := false
  iSectors := fun _ => 0

end ZyOs
