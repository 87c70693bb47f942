/-
Sector transfers: `ide_read` and `ide_write` of `device/ide.c`.

A disk is its bytes, sector `lba` being the 512 from `512 * lba`.  The drive is
the one the source is written for: a command with count byte `c` moves `c`
sectors, 256 when `c` is 0, and it always completes.  Locking and the completion
interrupt are no part of what is moved where and are left to the scheduler.
-/
import ZyOs.Kernel.Debug
import ZyOs.Library.Bytes

namespace ZyOs

open Library

/-- The bytes of a disk. -/
abbrev Disk := Mem

/-- `SECTOR_SIZE`, which is also `BLOCK_SIZE` -/
abbrev sectorSize : Nat := 512

/-- `max_lba` -/
def maxLba : Nat := 80 * 1024 * 1024 / 512 - 1

/-- The sectors one command moves for the count `secsOp`, which is cut to a byte. -/
def sectorsMoved (secsOp : Nat) : Nat :=
  if secsOp % 256 = 0 then 256 else secsOp % 256

/-- How many sectors the next command of a transfer asks for. -/
def secsOp (secCnt secsDone : Nat) : Nat :=
  if secsDone + 256 ≤ secCnt then 256 else secCnt - secsDone

/-- `select_sector` -/
def selectSector (lba : Nat) : Kernel Unit :=
  ASSERT (lba ≤ maxLba) "select_sector" "lba <= max_lba"

/-- The loop of `ide_read`. -/
def ideReadLoop (d : Disk) (lba secCnt : Nat) : Nat → Nat → Mem → Kernel Mem
  | 0, _, buf => .ok buf
  | fuel + 1, secsDone, buf =>
      if secsDone < secCnt then do
        let n := secsOp secCnt secsDone
        selectSector (lba + secsDone)
        let buf' := buf.splice (secsDone * 512) (d.drop (512 * (lba + secsDone)))
          (sectorsMoved n * 512)
        ideReadLoop d lba secCnt fuel (secsDone + n) buf'
      else .ok buf

/-- `ide_read`: the buffer after the transfer. -/
def ideRead (d : Disk) (lba : Nat) (buf : Mem) (secCnt : Nat) : Kernel Mem := do
  ASSERT (lba ≤ maxLba) "ide_read" "lba <= max_lba"
  ASSERT (0 < secCnt) "ide_read" "sec_cnt > 0"
  ideReadLoop d lba secCnt secCnt 0 buf

/-- The loop of `ide_write`. -/
def ideWriteLoop (buf : Mem) (lba secCnt : Nat) : Nat → Nat → Disk → Kernel Disk
  | 0, _, d => .ok d
  | fuel + 1, secsDone, d =>
      if secsDone < secCnt then do
        let n := secsOp secCnt secsDone
        selectSector (lba + secsDone)
        let d' := d.splice (512 * (lba + secsDone)) (buf.drop (secsDone * 512))
          (sectorsMoved n * 512)
        ideWriteLoop buf lba secCnt fuel (secsDone + n) d'
      else .ok d

/-- `ide_write`: the disk after the transfer. -/
def ideWrite (d : Disk) (lba : Nat) (buf : Mem) (secCnt : Nat) : Kernel Disk := do
  ASSERT (lba ≤ maxLba) "ide_write" "lba <= max_lba"
  ASSERT (0 < secCnt) "ide_write" "sec_cnt > 0"
  ideWriteLoop buf lba secCnt secCnt 0 d

end ZyOs
