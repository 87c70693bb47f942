/-
The allocation half of `fs/file.c`: taking a bit of the inode bitmap or of the
block bitmap, and writing the sector that holds a bit back to disk.
-/
import ZyOs.Kernel.FsState

namespace ZyOs

open Library

/-- `enum bitmap_type` -/
inductive BitmapType where
  | inodeBitmap
  | blockBitmap
deriving DecidableEq

/-- `inode_bitmap_alloc` on a partition. -/
def Partition.inodeBitmapAlloc (part : Partition) : Kernel (Int × Partition) := do
  let bitIdx ← part.inodeBitmap.bitmapScan 1
  if bitIdx = -1 then
    return (-1, part)
  return (bitIdx, { part with inodeBitmap := part.inodeBitmap.bitmapSet bitIdx.toNat true })

/-- `block_bitmap_alloc` on a partition: a sector address, not a bit index. -/
def Partition.blockBitmapAlloc (part : Partition) : Kernel (Int × Partition) := do
  let bitIdx ← part.blockBitmap.bitmapScan 1
  if bitIdx = -1 then
    return (-1, part)
  return (int32 (part.sb.dataStartLba + bitIdx.toNat),
    { part with blockBitmap := part.blockBitmap.bitmapSet bitIdx.toNat true })

/-- `inode_bitmap_alloc(cur_part)` -/
def inodeBitmapAlloc : FsM Int := do
  let s ← get
  let (bitIdx, part) ← Prog.lift s.part.inodeBitmapAlloc
  set { s with part := part }
  return bitIdx

/-- `block_bitmap_alloc(cur_part)` -/
def blockBitmapAlloc : FsM Int := do
  let s ← get
  let (lba, part) ← Prog.lift s.part.blockBitmapAlloc
  set { s with part := part }
  return lba

/-- `block_lba - cur_part->sb->data_start_lba`, kept in 32 bits. -/
def Partition.blockBitmapIdx (part : Partition) (blockLba : Int) : Nat :=
  ((blockLba - part.sb.dataStartLba) % 2 ^ 32).toNat

/-- `bitmap_sync` -/
def bitmapSync (bitIdx : Nat) (btmpType : BitmapType) : FsM Unit := do
  let part := (← get).part
  let offSec := bitIdx / 4096
  let offSize := offSec * 512
  match btmpType with
  | .inodeBitmap =>
      writeSectors (part.sb.inodeBitmapLba + offSec) (part.inodeBitmap.bits.drop offSize) 1
  | .blockBitmap =>
      writeSectors (part.sb.blockBitmapLba + offSec) (part.blockBitmap.bits.drop offSize) 1

/-- `bitmap_set(&cur_part->block_bitmap, idx, value)` -/
def setBlockBit (idx : Nat) (value : Bool) : FsM Unit :=
  modify fun s => { s with part :=
    { s.part with blockBitmap := s.part.blockBitmap.bitmapSet idx value } }

/-- `bitmap_set(&cur_part->inode_bitmap, idx, value)` -/
def setInodeBit (idx : Nat) (value : Bool) : FsM Unit :=
  modify fun s => { s with part :=
    { s.part with inodeBitmap := s.part.inodeBitmap.bitmapSet idx value } }

end ZyOs
