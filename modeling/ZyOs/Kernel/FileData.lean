/-
`file_write` and `file_read` of `fs/file.c`.

Both collect the sector numbers they are going to use in `all_blocks`, an array of
140 that starts out as zeros, and then move the data sector by sector.  An index
past the array is a fault.  Buffers are taken as there; the messages to the console
are left out.
-/
import ZyOs.Kernel.Dir

namespace ZyOs

open Library

/-- `file->fd_inode` -/
def fdInodeOf (fd : Nat) (func : String) : FsM Nat := do
  match ((← get).fileTable fd).fdInode with
  | some a => return a
  | none => Prog.lift (.error (.fault func))

/-- `file->fd_pos = pos` -/
def setFdPos (fd pos : Nat) : FsM Unit :=
  modify fun s => { s with fileTable := fun g =>
    if g = fd then { s.fileTable fd with fdPos := pos } else s.fileTable g }

/-- `all_blocks[k]` -/
def blockAt (blocks : Nat → UInt32) (k : Nat) (func : String) : FsM UInt32 :=
  if k < 140 then return blocks k else Prog.lift (.error (.fault func))

/-! ### `file_write` -/

/-- The first write to a file gives it its first block; false when there is none. -/
def firstBlock (a : Nat) : FsM Bool := do
  let inode := (← get).inodes a
  if inode.sector 0 = 0 then
    let blockLba ← blockBitmapAlloc
    if blockLba = -1 then
      return false
    else
      putInode a (inode.setSector 0 (u32 blockLba))
      let blockBitmapIdx := (← get).part.blockBitmapIdx blockLba
      assertFs (blockBitmapIdx ≠ 0) "file_write" "block_bitmap_idx != 0"
      bitmapSync blockBitmapIdx .blockBitmap
      return true
  else
    return true

/-- The loop that takes the blocks from `block_idx` up to `file_will_use_blocks`.  The source
has it three times: in situation 1 only direct blocks come up, in situation 3 only indirect
ones.  Nothing when the allocation fails. -/
def growLoop (a : Nat) : Nat → Nat → (Nat → UInt32) → FsM (Option (Nat → UInt32))
  | 0, _, blocks => return some blocks
  | n + 1, blockIdx, blocks => do
      let blockLba ← blockBitmapAlloc
      if blockLba = -1 then
        return none
      else
        if blockIdx < 12 then
          let inode := (← get).inodes a
          assertFs (inode.sector blockIdx = 0) "file_write"
            "file->fd_inode->i_sectors[block_idx] == 0"
          putInode a (inode.setSector blockIdx (u32 blockLba))
        let blockBitmapIdx := (← get).part.blockBitmapIdx blockLba
        bitmapSync blockBitmapIdx .blockBitmap
        growLoop a n (blockIdx + 1) (storeBlock blocks blockIdx (u32 blockLba))

/-- `ide_read(.., i_sectors[12], all_blocks + 12, 1)` after the assertion in front of it. -/
def readTable (a : Nat) (func : String) (blocks : Nat → UInt32) : FsM (Nat → UInt32) := do
  let inode := (← get).inodes a
  assertFs (inode.sector 12 ≠ 0) func "file->fd_inode->i_sectors[12] != 0"
  let table ← readSectors (inode.sector 12).toNat (fun _ => 0) 1
  return withTable blocks table

/-- `all_blocks`, with nothing in it but the last block the file has so far. -/
def lastBlock (inode : Inode) (hasUsed : Nat) : Nat → UInt32 :=
  storeBlock (fun _ => 0) (hasUsed - 1) (inode.sector (hasUsed - 1))

/-- The block addresses a write is going to use, from the last block on; new blocks are
taken.  Nothing when an allocation fails. -/
def collectForWrite (a hasUsed willUse : Nat) : FsM (Option (Nat → UInt32)) := do
  let inode := (← get).inodes a
  if willUse = hasUsed then
    if hasUsed ≤ 12 then
      return some (lastBlock inode hasUsed)
    else
      return some (← readTable a "file_write" (fun _ => 0))
  else if willUse ≤ 12 then
    assertFs (inode.sector (hasUsed - 1) ≠ 0) "file_write"
      "file->fd_inode->i_sectors[block_idx] != 0"
    growLoop a (willUse - hasUsed) hasUsed (lastBlock inode hasUsed)
  else if hasUsed ≤ 12 then
    let blockLba ← blockBitmapAlloc
    if blockLba = -1 then
      return none
    else
      assertFs (inode.sector 12 = 0) "file_write" "file->fd_inode->i_sectors[12] == 0"
      putInode a (inode.setSector 12 (u32 blockLba))
      match ← growLoop a (willUse - hasUsed) hasUsed (lastBlock inode hasUsed) with
      | none => return none
      | some blocks =>
          writeSectors (u32 blockLba).toNat (tableMem blocks) 1
          return some blocks
  else
    let blocks ← readTable a "file_write" (fun _ => 0)
    match ← growLoop a (willUse - hasUsed) hasUsed blocks with
    | none => return none
    | some blocks =>
        writeSectors (inode.sector 12).toNat (tableMem blocks) 1
        return some blocks

/-- The loop that moves the data.  `io_buf` is cleared for every sector; the first one is read,
because there may be data in front. -/
def writeLoop (fd a : Nat) (blocks : Nat → UInt32) (count : Nat) :
    Nat → Mem → Nat → Nat → Bool → Mem → FsM (Nat × Mem)
  | 0, _, bytesWritten, _, _, ioBuf => return (bytesWritten, ioBuf)
  | fuel + 1, src, bytesWritten, sizeLeft, firstWriteBlock, ioBuf => do
      if bytesWritten < count then
        let inode := (← get).inodes a
        let secLba ← blockAt blocks (inode.iSize.toNat / 512) "file_write"
        let secOffBytes := inode.iSize.toNat % 512
        let secLeftBytes := 512 - secOffBytes
        let chunkSize := if sizeLeft < secLeftBytes then sizeLeft else secLeftBytes
        let ioBuf ← if firstWriteBlock then readSectors secLba.toNat (fun _ => 0) 1
          else pure (fun _ => 0)
        let ioBuf := ioBuf.splice secOffBytes src chunkSize
        writeSectors secLba.toNat ioBuf 1
        putInode a { inode with iSize := inode.iSize + UInt32.ofNat chunkSize }
        setFdPos fd ((((← get).fileTable fd).fdPos + chunkSize) % 2 ^ 32)
        writeLoop fd a blocks count fuel (src.drop chunkSize) (bytesWritten + chunkSize)
          (sizeLeft - chunkSize) false ioBuf
      else
        return (bytesWritten, ioBuf)

/-- `file_write`: the number of bytes written, or -1. -/
def fileWrite (fd : Nat) (buf : Mem) (count : Nat) : FsM Int := do
  let a ← fdInodeOf fd "file_write"
  let iSize := ((← get).inodes a).iSize.toNat
  if 512 * 140 < (iSize + count) % 2 ^ 32 then
    return -1
  else
    if ← firstBlock a then
      let fileHasUsedBlocks := iSize / 512 + 1
      let fileWillUseBlocks := (iSize + count) % 2 ^ 32 / 512 + 1
      assertFs (fileWillUseBlocks ≤ 140) "file_write" "file_will_use_blocks <= 140"
      match ← collectForWrite a fileHasUsedBlocks fileWillUseBlocks with
      | none => return -1
      | some blocks =>
          setFdPos fd (sub32 iSize 1)
          let (bytesWritten, ioBuf) ←
            writeLoop fd a blocks count count buf 0 count true (fun _ => 0)
          inodeSync ((← get).inodes a) ioBuf
          return int32 bytesWritten
    else
      return -1

/-! ### `file_read` -/

/-- `all_blocks` with the direct blocks from `lo` to `hi`. -/
def directRange (inode : Inode) (lo hi k : Nat) : UInt32 :=
  if lo ≤ k ∧ k ≤ hi then inode.sector k else 0

/-- The block addresses a read is going to use. -/
def collectForRead (a startIdx endIdx : Nat) : FsM (Nat → UInt32) := do
  let inode := (← get).inodes a
  if startIdx = endIdx then
    if endIdx < 12 then
      return directRange inode endIdx endIdx
    else
      let table ← readSectors (inode.sector 12).toNat (fun _ => 0) 1
      return withTable (fun _ => 0) table
  else if endIdx < 12 then
    return directRange inode startIdx endIdx
  else if startIdx < 12 then
    readTable a "file_read" (directRange inode startIdx 11)
  else
    readTable a "file_read" (fun _ => 0)

/-- The loop that moves the data. -/
def readLoop (fd : Nat) (blocks : Nat → UInt32) (size : Nat) :
    Nat → Mem → Nat → Nat → FsM (Nat × Mem)
  | 0, buf, bytesRead, _ => return (bytesRead, buf)
  | fuel + 1, buf, bytesRead, sizeLeft => do
      if bytesRead < size then
        let fdPos := ((← get).fileTable fd).fdPos
        let secLba ← blockAt blocks (fdPos / 512) "file_read"
        let secOffBytes := fdPos % 512
        let secLeftBytes := 512 - secOffBytes
        let chunkSize := if sizeLeft < secLeftBytes then sizeLeft else secLeftBytes
        let ioBuf ← readSectors secLba.toNat (fun _ => 0) 1
        setFdPos fd ((fdPos + chunkSize) % 2 ^ 32)
        readLoop fd blocks size fuel (buf.splice bytesRead (ioBuf.drop secOffBytes) chunkSize)
          (bytesRead + chunkSize) (sizeLeft - chunkSize)
      else
        return (bytesRead, buf)

/-- What `file_read` does once the size is settled. -/
def readBytes (fd a : Nat) (buf : Mem) (size : Nat) : FsM (Int × Mem) := do
  let fdPos := ((← get).fileTable fd).fdPos
  let blockReadStartIdx := fdPos / 512
  let blockReadEndIdx := (fdPos + size) % 2 ^ 32 / 512
  assertFs (blockReadStartIdx < 139 ∧ blockReadEndIdx < 139) "file_read"
    "block_read_start_idx < 139 && block_read_end_idx < 139"
  let blocks ← collectForRead a blockReadStartIdx blockReadEndIdx
  let (bytesRead, buf) ← readLoop fd blocks size size buf 0 size
  return (int32 bytesRead, buf)

/-- `file_read`: the number of bytes read, or -1, and the buffer. -/
def fileRead (fd : Nat) (buf : Mem) (count : Nat) : FsM (Int × Mem) := do
  let a ← fdInodeOf fd "file_read"
  let fdPos := ((← get).fileTable fd).fdPos
  let iSize := ((← get).inodes a).iSize.toNat
  if iSize < (fdPos + count) % 2 ^ 32 then
    let size := sub32 iSize fdPos
    if size = 0 then
      return (-1, buf)
    else
      readBytes fd a buf size
  else
    readBytes fd a buf count

end ZyOs
