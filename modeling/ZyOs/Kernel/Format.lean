/-
`partition_format` and `mount_partition` of `fs/fs.c`.

Sizes are computed in 32 bits as the source does.  The buffer is the one
`sys_malloc` returns, cleared, and a store past its `buf_size` bytes is a fault.
-/
import ZyOs.Kernel.Inode
import ZyOs.Kernel.Block

namespace ZyOs

open Library

/-- `DIV_ROUND_UP(X, STEP)` on `uint32_t`. -/
def divRoundUp (x step : Nat) : Nat := (x + step - 1) % 2 ^ 32 / step

/-- A partition as the partition table gives it: its sectors have 32-bit numbers. -/
structure RawPartition where
  startLba : Nat
  secCnt : Nat
  lba32 : startLba + secCnt < 2 ^ 32

/-- `MAX_FILES_PER_PART` -/
def maxFilesPerPart : Nat := 4096
/-- `BITS_PER_SECTOR` -/
def bitsPerSector : Nat := 4096
/-- `SUPER_BLOCK_MAGIC` -/
def superBlockMagic : Nat := 0x19970719

/-- `inode_bitmap_sects` -/
def inodeBitmapSects : Nat := divRoundUp maxFilesPerPart bitsPerSector
/-- `inode_table_sects` -/
def inodeTableSects : Nat := divRoundUp (Inode.size * maxFilesPerPart) sectorSize

/-- `free_sects`: what boot block, superblock, inode bitmap and inode table leave over. -/
def freeSects (secCnt : Nat) : Nat := sub32 secCnt (1 + 1 + inodeBitmapSects + inodeTableSects)

/-- `block_bitmap_bit_len` -/
def blockBitmapBitLen (secCnt : Nat) : Nat :=
  sub32 (freeSects secCnt) (divRoundUp (freeSects secCnt) bitsPerSector)

/-- The superblock `partition_format` writes. -/
def formatSuperBlock (p : RawPartition) : SuperBlock :=
  let blockBitmapSects := divRoundUp (blockBitmapBitLen p.secCnt) bitsPerSector
  let blockBitmapLba := p.startLba + 2
  let inodeBitmapLba := blockBitmapLba + blockBitmapSects
  let inodeTableLba := inodeBitmapLba + inodeBitmapSects
  { magic := superBlockMagic
    secCnt := p.secCnt
    inodeCnt := maxFilesPerPart
    partLbaBase := p.startLba
    blockBitmapLba := blockBitmapLba
    blockBitmapSects := blockBitmapSects
    inodeBitmapLba := inodeBitmapLba
    inodeBitmapSects := inodeBitmapSects
    inodeTableLba := inodeTableLba
    inodeTableSects := inodeTableSects
    dataStartLba := inodeTableLba + inodeTableSects
    rootInodeNo := 0
    dirEntrySize := DirEntry.size }

namespace SuperBlock

/-- The 13 words in front of the padding. -/
def words (sb : SuperBlock) (k : Nat) : UInt32 :=
  match k with
  | 0 => UInt32.ofNat sb.magic
  | 1 => UInt32.ofNat sb.secCnt
  | 2 => UInt32.ofNat sb.inodeCnt
  | 3 => UInt32.ofNat sb.partLbaBase
  | 4 => UInt32.ofNat sb.blockBitmapLba
  | 5 => UInt32.ofNat sb.blockBitmapSects
  | 6 => UInt32.ofNat sb.inodeBitmapLba
  | 7 => UInt32.ofNat sb.inodeBitmapSects
  | 8 => UInt32.ofNat sb.inodeTableLba
  | 9 => UInt32.ofNat sb.inodeTableSects
  | 10 => UInt32.ofNat sb.dataStartLba
  | 11 => UInt32.ofNat sb.rootInodeNo
  | _ => UInt32.ofNat sb.dirEntrySize

/-- The bytes of the structure; `pad` is what happens to be on the stack. -/
def toMem (sb : SuperBlock) (pad : Mem) : Mem :=
  fun k => if k < 52 then ofWords sb.words k else pad k

/-- The superblock in a sector. -/
def ofMem (m : Mem) : SuperBlock where
  magic := (getWord m 0).toNat
  secCnt := (getWord m 4).toNat
  inodeCnt := (getWord m 8).toNat
  partLbaBase := (getWord m 12).toNat
  blockBitmapLba := (getWord m 16).toNat
  blockBitmapSects := (getWord m 20).toNat
  inodeBitmapLba := (getWord m 24).toNat
  inodeBitmapSects := (getWord m 28).toNat
  inodeTableLba := (getWord m 32).toNat
  inodeTableSects := (getWord m 36).toNat
  dataStartLba := (getWord m 40).toNat
  rootInodeNo := (getWord m 44).toNat
  dirEntrySize := (getWord m 48).toNat

end SuperBlock

/-- A buffer of zeros, as `sys_malloc` and `memset` leave it. -/
def zeroMem : Mem := fun _ => 0

/-- `buf[i] |= v` -/
def orByte (m : Mem) (i : Nat) (v : UInt8) : Mem := fun k => if k = i then m i ||| v else m k

/-- The loop `while (bit_idx <= last_bit) buf[i] &= ~(1 << bit_idx++)`. -/
def clearBits (i lastBit : Nat) : Nat → Nat → Mem → Mem
  | 0, _, m => m
  | fuel + 1, bitIdx, m =>
      if bitIdx ≤ lastBit then
        clearBits i lastBit fuel (bitIdx + 1)
          (fun k => if k = i then m i &&& ~~~ bitMask bitIdx else m k)
      else m

/-- The block bitmap as `partition_format` builds it in `buf`. -/
def formatBlockBitmap (bitLen bufSize : Nat) : Kernel Mem := do
  let buf := orByte zeroMem 0 0x01
  let lastByte := bitLen / 8
  let lastBit := bitLen % 8
  let lastSize := sectorSize - lastByte % sectorSize
  if bufSize < lastByte + lastSize then
    .error (.fault "partition_format")
  else
    let buf := buf.fill lastByte 0xff lastSize
    return clearBits lastByte lastBit (lastBit + 1) 0 buf

/-- The root directory's inode, as written over a cleared buffer. -/
def rootInodeOf (sb : SuperBlock) : Inode :=
  { inodeInit 0 with iSize := UInt32.ofNat (sb.dirEntrySize * 2) }.setSector 0
    (UInt32.ofNat sb.dataStartLba)

/-- A name of one or two dots over a cleared name. -/
def dotName (dots : Nat) : Mem := fun k => if k < dots then 46 else 0

/-- `partition_format` -/
def partitionFormat (p : RawPartition) (pad : Mem) (d : Disk) : Kernel Disk := do
  let sb := formatSuperBlock p
  let d ← ideWrite d (p.startLba + 1) (sb.toMem pad) 1
  let bufSize := max (max sb.blockBitmapSects sb.inodeBitmapSects) sb.inodeTableSects * sectorSize
  let buf ← formatBlockBitmap (blockBitmapBitLen p.secCnt) bufSize
  let d ← ideWrite d sb.blockBitmapLba buf sb.blockBitmapSects
  let d ← ideWrite d sb.inodeBitmapLba (orByte zeroMem 0 0x1) sb.inodeBitmapSects
  let d ← ideWrite d sb.inodeTableLba (zeroMem.splice 0 (rootInodeOf sb).toMem Inode.size)
    sb.inodeTableSects
  let dot : DirEntry := { filename := dotName 1, iNo := 0, fType := ftDirectory }
  let dotdot : DirEntry := { filename := dotName 2, iNo := 0, fType := ftDirectory }
  ideWrite d sb.dataStartLba ((zeroMem.splice 0 dot.toMem DirEntry.size).splice DirEntry.size
    dotdot.toMem DirEntry.size) 1

/-- `mount_partition`: the superblock and both bitmaps, read into memory. -/
def mountPartition (p : RawPartition) (d : Disk) : Kernel Partition := do
  let sbBuf ← ideRead d (p.startLba + 1) zeroMem 1
  let sb := SuperBlock.ofMem sbBuf
  let blockBits ← ideRead d sb.blockBitmapLba zeroMem sb.blockBitmapSects
  let inodeBits ← ideRead d sb.inodeBitmapLba zeroMem sb.inodeBitmapSects
  return { startLba := p.startLba
           secCnt := p.secCnt
           sb := sb
           blockBitmap := { bmapBytesLen := sb.blockBitmapSects * sectorSize, bits := blockBits }
           inodeBitmap := { bmapBytesLen := sb.inodeBitmapSects * sectorSize, bits := inodeBits } }

end ZyOs
