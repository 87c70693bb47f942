/-
`segment_load` and `load` of `user_process/exec.c` under watch.

What a run maps and writes before an `ASSERT` stops it does not show in its result.  So the
functions are written here once more and ask a watch first: before `get_a_page` is called for a
page, and before bytes go to the memory.  With the watch of `Kernel/Exec`, which looks after the
kernel's half only, they are the functions there.
-/
import ZyOs.Kernel.Exec
import ZyOs.Kernel.Arena

namespace ZyOs

open Library

namespace Exec

/-- What a run is allowed: to get a page, and to write some bytes from an address on. -/
structure Watch where
  page : Pager → Nat → Bool
  bytes : Nat → Nat → Bool

/-- The kernel's half is left alone. -/
def halfWatch : Watch where
  page _ vaddrPage := vaddrPage < 0xc0000000
  bytes vaddr n := n = 0 ∨ vaddr + n ≤ 0xc0000000

/-- Everything is in `[USER_VADDR_START, 0xc0000000)`, and the bit of a page in the bitmap. -/
def userWatch : Watch where
  page s vaddrPage := userVaddrStart ≤ vaddrPage ∧ vaddrPage < 0xc0000000 ∧
    sub32 vaddrPage s.userVaddr.vaddrStart / pageSize < 8 * s.userVaddr.vaddrBitmap.bmapBytesLen
  bytes vaddr n := n = 0 ∨ userVaddrStart ≤ vaddr ∧ vaddr + n ≤ 0xc0000000

section

variable (file : OpenFile) (w : Watch)

/-- The loop of `segment_load`, as in `mapPages`. -/
def mapPagesWatched (t : Nat) : Nat → Nat → LoadM Bool
  | 0, _ => return true
  | pages + 1, vaddrPage => do
      let s := (← get).pager
      if present (s.pde (pdeIdx vaddrPage)) ∧ present (s.pte (vaddrPage / pageSize)) then
        mapPagesWatched t pages ((vaddrPage + pageSize) % 2 ^ 32)
      else if w.page s vaddrPage then
        match ← onPager (getAPageWith Bitmap.bitmapScan t .user vaddrPage) with
        | none => return false
        | some _ => mapPagesWatched t pages ((vaddrPage + pageSize) % 2 ^ 32)
      else
        Prog.lift (.error (.fault "segment_load"))

/-- `segment_load`, as in `segmentLoad`. -/
def segmentLoadWatched (t offset filesz vaddr : Nat) : LoadM Bool := do
  let vaddrFirstPage := vaddr / pageSize * pageSize
  if ← mapPagesWatched w t (occupyPages vaddr filesz) vaddrFirstPage then
    let _ ← sysLseek file offset
    let mem := (← get).mem
    let (n, buf) ← sysRead file t vaddr (mem.drop vaddr) filesz
    if w.bytes vaddr n.toNat then
      putSegment vaddr filesz n.toNat buf
    else
      Prog.lift (.error (.fault "segment_load"))
  else
    return false

/-- The loop of `load`, as in `loadLoop`. -/
def loadLoopWatched (t : Nat) : Nat → Nat → LoadM Bool
  | 0, _ => return true
  | left + 1, progHeaderOffset => do
      let _ ← sysLseek file progHeaderOffset
      let (n, buf) ← fileRead file t (fun _ => 0) 32
      if n = 32 then
        let ph := progHeader buf
        if ph.pType = ptLoad then
          if ← segmentLoadWatched file w t ph.pOffset ph.pFilesz ph.pVaddr then
            loadLoopWatched t left ((progHeaderOffset + 32) % 2 ^ 32)
          else
            return false
        else
          loadLoopWatched t left ((progHeaderOffset + 32) % 2 ^ 32)
      else
        return false

/-- `load`, as in `Exec.load`. -/
def loadWatched (t : Nat) (fd : Int) : LoadM Int := do
  if fd = -1 then
    return -1
  else
    let (n, buf) ← fileRead file t (fun _ => 0) 52
    if n = 52 then
      let elf := elfHeader buf
      if elf.Valid then
        if ← loadLoopWatched file w t elf.ePhnum elf.ePhoff then
          return int32 elf.eEntry
        else
          return -1
      else
        return -1
    else
      return -1

end

end Exec

end ZyOs
