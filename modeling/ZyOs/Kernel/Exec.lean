/-
Loading a program: `segment_load` and `load` of `user_process/exec.c`.

The file is open and its blocks are out of sight: it is its bytes, its size and the position.
`Kernel/FileData` and `Kernel/Fs` have the same `file_read`, `sys_read` and `sys_lseek` on the
blocks.  The memory is the one the process sees, and what `load` keeps on its stack is not in it.

`file_read` takes two buffers from the heap of the process, which is where the program goes.  Each
is a block of a list that has one, or else the first one of a page that `file_read` gets and gives
back; afterwards the lists are as long as before.  `Kernel/ArenaBytes` has the heap itself.  A
program that reaches into the kernel's half of the addresses would overwrite the kernel, one that
reaches a page of the heap its headers and links, and one that reaches behind the pages that
`segment_load` has counted may reach the buffers; that is where the model ends.
-/
import ZyOs.Kernel.PageFree

namespace ZyOs

open Library

namespace Exec

/-- A file; `file_write` keeps it within 140 blocks. -/
structure OpenFile where
  bytes : Mem
  iSize : Nat
  size_le : iSize ≤ 512 * 140

/-- The heap of a process: the pages its headers and blocks are on, by their number, and whether
the list of the blocks for `io_buf` is empty and that of the blocks for `all_blocks`. -/
structure ProcHeap where
  pages : Nat → Bool
  noIoBuf : Bool
  noAllBlocks : Bool

/-- What changes while a program is loaded, and the heap, which is the same after each read. -/
structure Loader where
  fdPos : Nat
  pager : Pager
  mem : Mem
  heap : ProcHeap

abbrev LoadM := Prog Loader Halt

/-- Code that only knows of pages. -/
def onPager {α : Type} (x : PagerM α) : LoadM α := fun s =>
  match x s.pager with
  | .ok (a, p) => .ok (a, { s with pager := p })
  | .error e => .error e

/-! ### The headers -/

/-- A member of 16 bits. -/
def getHalf (m : Mem) (a : Nat) : Nat := (m a).toNat + 256 * (m (a + 1)).toNat

/-- `struct Elf32_Ehdr`, less the members nobody looks at. -/
structure ElfHeader where
  eIdent : List UInt8
  eType : Nat
  eMachine : Nat
  eVersion : Nat
  eEntry : Nat
  ePhoff : Nat
  ePhentsize : Nat
  ePhnum : Nat

/-- The members in the 52 bytes at `m`. -/
def elfHeader (m : Mem) : ElfHeader where
  eIdent := (List.range 16).map m
  eType := getHalf m 16
  eMachine := getHalf m 18
  eVersion := (getWord m 20).toNat
  eEntry := (getWord m 24).toNat
  ePhoff := (getWord m 28).toNat
  ePhentsize := getHalf m 42
  ePhnum := getHalf m 44

/-- The test `load` makes of the header. -/
def ElfHeader.Valid (h : ElfHeader) : Prop :=
  h.eIdent.take 7 = [0x7f, 0x45, 0x4c, 0x46, 1, 1, 1] ∧ h.eType = 2 ∧ h.eMachine = 3 ∧
    h.eVersion = 1 ∧ h.ePhnum ≤ 1024 ∧ h.ePhentsize = 32

instance (h : ElfHeader) : Decidable h.Valid := inferInstanceAs (Decidable (_ ∧ _))

/-- `struct Elf32_Phdr`, less the members nobody looks at. -/
structure ProgHeader where
  pType : Nat
  pOffset : Nat
  pVaddr : Nat
  pFilesz : Nat

/-- The members in the 32 bytes at `m`. -/
def progHeader (m : Mem) : ProgHeader where
  pType := (getWord m 0).toNat
  pOffset := (getWord m 4).toNat
  pVaddr := (getWord m 8).toNat
  pFilesz := (getWord m 16).toNat

/-- `PT_LOAD` -/
def ptLoad : Nat := 1

section

variable (file : OpenFile)

/-! ### The file -/

/-- `sys_lseek(fd, offset, SEEK_SET)` -/
def sysLseek (offset : Nat) : LoadM Int := do
  let newPos := int32 offset
  if newPos < 0 ∨ int32 file.iSize - 1 < newPos then
    return -1
  else
    modify fun s => { s with fdPos := newPos.toNat }
    return newPos

/-- `sys_malloc` for a buffer by task `t`; the page it is on when the list is empty.  There is a
page, or `bitmap_scan` stops the kernel. -/
def takeBuffer (t : Nat) (empty : Bool) : PagerM (Option Nat) := do
  poolAcquire t .user
  if empty then
    match ← mallocPageWith Bitmap.bitmapScan .user 1 with
    | none => Prog.lift (.error (.fault "sys_malloc"))
    | some page =>
        poolRelease t .user
        return some page
  else
    poolRelease t .user
    return none

/-- `sys_free` of a buffer: the page goes back, when it is its own. -/
def giveBuffer (t : Nat) (page : Option Nat) : PagerM Unit := do
  poolAcquire t .user
  if let some page := page then
    Pager.mfreePage .user page 1
  poolRelease t .user

/-- `x` with a buffer that is taken in front of it and freed behind it. -/
def withBuffer {α : Type} (t : Nat) (empty : Bool) (x : LoadM α) : LoadM α := do
  let page ← onPager (takeBuffer t empty)
  let r ← x
  onPager (giveBuffer t page)
  return r

/-- `file_read` between its buffers.  Past the 140 entries of `all_blocks` there is no block. -/
def readBlocks (buf : Mem) (size : Nat) : LoadM (Int × Mem) := do
  let fdPos := (← get).fdPos
  Prog.lift (ASSERT (fdPos / 512 < 139 ∧ (fdPos + size) % 2 ^ 32 / 512 < 139) "file_read"
    "block_read_start_idx < 139 && block_read_end_idx < 139")
  if fdPos + size ≤ 512 * 140 then
    modify fun s => { s with fdPos := fdPos + size }
    return (int32 size, buf.splice 0 (file.bytes.drop fdPos) size)
  else
    Prog.lift (.error (.fault "file_read"))

/-- `file_read` once the size is settled. -/
def readBytes (t : Nat) (buf : Mem) (size : Nat) : LoadM (Int × Mem) := do
  let heap := (← get).heap
  withBuffer t heap.noIoBuf (withBuffer t heap.noAllBlocks (readBlocks file buf size))

/-- `file_read` in task `t` -/
def fileRead (t : Nat) (buf : Mem) (count : Nat) : LoadM (Int × Mem) := do
  let fdPos := (← get).fdPos
  if file.iSize < (fdPos + count) % 2 ^ 32 then
    let size := sub32 file.iSize fdPos
    if size = 0 then
      return (-1, buf)
    else
      readBytes file t buf size
  else
    readBytes file t buf count

/-- `sys_read` to the address `addr`, where `buf` is. -/
def sysRead (t addr : Nat) (buf : Mem) (count : Nat) : LoadM (Int × Mem) := do
  Prog.lift (ASSERT (addr ≠ 0) "sys_read" "buf != NULL")
  fileRead file t buf count

/-! ### Segments -/

/-- The loop of `segment_load` that sees to the pages, in task `t`. -/
def mapPages (t : Nat) : Nat → Nat → LoadM Bool
  | 0, _ => return true
  | pages + 1, vaddrPage => do
      let s := (← get).pager
      if present (s.pde (pdeIdx vaddrPage)) ∧ present (s.pte (vaddrPage / pageSize)) then
        mapPages t pages ((vaddrPage + pageSize) % 2 ^ 32)
      else if 0xc0000000 ≤ vaddrPage then
        Prog.lift (.error (.fault "segment_load"))
      else
        match ← onPager (getAPageWith Bitmap.bitmapScan t .user vaddrPage) with
        | none => return false
        | some _ => mapPages t pages ((vaddrPage + pageSize) % 2 ^ 32)

/-- The pages `filesz` bytes from `vaddr` on are in. -/
def occupyPages (vaddr filesz : Nat) : Nat :=
  let sizeInFirstPage := pageSize - vaddr % pageSize
  if sizeInFirstPage < filesz then
    let leftSize := filesz - sizeInFirstPage
    (leftSize + pageSize - 1) % 2 ^ 32 / pageSize + 1
  else
    1

/-- The first `n` of the `filesz` bytes from `vaddr` on are on the pages that have been counted, and
not on those of the heap. -/
def OnOwnPages (heap : Nat → Bool) (vaddr filesz n : Nat) : Prop :=
  vaddr + n ≤ vaddr / pageSize * pageSize + pageSize * occupyPages vaddr filesz ∧
    ∀ i < n, heap ((vaddr + i) / pageSize) = false

instance (heap : Nat → Bool) (vaddr filesz n : Nat) : Decidable (OnOwnPages heap vaddr filesz n) :=
  inferInstanceAs (Decidable (_ ∧ _))

/-- What has been read of a segment is in the memory. -/
def putSegment (vaddr filesz n : Nat) (buf : Mem) : LoadM Bool := do
  let heap := (← get).heap
  if OnOwnPages heap.pages vaddr filesz n then
    modify fun s => { s with mem := s.mem.splice vaddr buf n }
    return true
  else
    Prog.lift (.error (.fault "segment_load"))

/-- `segment_load`; what `sys_lseek` and `sys_read` return is not looked at. -/
def segmentLoad (t offset filesz vaddr : Nat) : LoadM Bool := do
  let vaddrFirstPage := vaddr / pageSize * pageSize
  if ← mapPages t (occupyPages vaddr filesz) vaddrFirstPage then
    let _ ← sysLseek file offset
    let mem := (← get).mem
    let (n, buf) ← sysRead file t vaddr (mem.drop vaddr) filesz
    if 0 < n ∧ 0xc0000000 < vaddr + n then
      Prog.lift (.error (.fault "segment_load"))
    else
      putSegment vaddr filesz n.toNat buf
  else
    return false

/-- The loop of `load` over the program headers. -/
def loadLoop (t : Nat) : Nat → Nat → LoadM Bool
  | 0, _ => return true
  | left + 1, progHeaderOffset => do
      let _ ← sysLseek file progHeaderOffset
      let (n, buf) ← fileRead file t (fun _ => 0) 32
      if n = 32 then
        let ph := progHeader buf
        if ph.pType = ptLoad then
          if ← segmentLoad file t ph.pOffset ph.pFilesz ph.pVaddr then
            loadLoop t left ((progHeaderOffset + 32) % 2 ^ 32)
          else
            return false
        else
          loadLoop t left ((progHeaderOffset + 32) % 2 ^ 32)
      else
        return false

/-- `load` in task `t`, once `sys_open` has returned `fd`. -/
def load (t : Nat) (fd : Int) : LoadM Int := do
  if fd = -1 then
    return -1
  else
    let (n, buf) ← fileRead file t (fun _ => 0) 52
    if n = 52 then
      let elf := elfHeader buf
      if elf.Valid then
        if ← loadLoop file t elf.ePhnum elf.ePhoff then
          return int32 elf.eEntry
        else
          return -1
      else
        return -1
    else
      return -1

end

end Exec

end ZyOs
