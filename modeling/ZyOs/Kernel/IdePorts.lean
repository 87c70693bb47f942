/-
`ide_read` and `ide_write` at the ports of a channel.

`Kernel/Ide` says what a transfer moves; here is how the drive is told.  The LBA goes into four
registers and the count into one, a byte each, and the data port is read and written word by
word.  The drive takes from the registers what a command is about: which of the two disks, the
sector it begins with and how many sectors, 256 for a count byte of 0.  It always completes.
-/
import ZyOs.Kernel.Ide
import ZyOs.Library.Prog

namespace ZyOs

open Library

/-- The registers of a command. -/
structure CommandBlock where
  sectCnt : UInt8
  lbaL : UInt8
  lbaM : UInt8
  lbaH : UInt8
  dev : UInt8
deriving DecidableEq

/-- A channel: its registers and the disks behind it, the master (`false`) and the slave. -/
structure IdePorts where
  regs : CommandBlock
  disk : Bool → Disk

abbrev PortM := Prog IdePorts Halt

/-- `BIT_DEV_MBS` -/
def bitDevMbs : UInt8 := 0xa0

/-- `BIT_DEV_LBA` -/
def bitDevLba : UInt8 := 0x40

/-- `BIT_DEV_DEV` -/
def bitDevDev : UInt8 := 0x10

/-! ### The drive -/

namespace CommandBlock

/-- The sector a command begins with. -/
def lba (r : CommandBlock) : Nat :=
  r.lbaL.toNat + 0x100 * r.lbaM.toNat + 0x10000 * r.lbaH.toNat + 0x1000000 * (r.dev.toNat % 16)

/-- The sectors it moves. -/
def count (r : CommandBlock) : Nat := if r.sectCnt = 0 then 256 else r.sectCnt.toNat

/-- The disk it is for. -/
def slave (r : CommandBlock) : Bool := r.dev &&& bitDevDev != 0

/-- Whether the registers hold an LBA at all. -/
def usesLba (r : CommandBlock) : Bool := r.dev &&& bitDevLba != 0

end CommandBlock

namespace IdePorts

/-- What the data port gives after `CMD_READ_SECTOR`: the sectors, and `bus` behind them. -/
def dataIn (p : IdePorts) (bus : Mem) : Mem := fun i =>
  if p.regs.usesLba ∧ i < p.regs.count * 512 then p.disk p.regs.slave (512 * p.regs.lba + i)
  else bus i

/-- `n` bytes come to the data port after `CMD_WRITE_SECTOR`; the drive takes as many as it was
told. -/
def dataOut (p : IdePorts) (data : Mem) (n : Nat) : IdePorts :=
  if p.regs.usesLba then
    { p with disk := fun k =>
        if k = p.regs.slave then
          (p.disk k).splice (512 * p.regs.lba) data (min n (p.regs.count * 512))
        else p.disk k }
  else p

end IdePorts

/-! ### The driver -/

namespace Ports

/-- `hd->dev_no == 1 ? BIT_DEV_DEV : 0` -/
def devBit (devNo : UInt8) : UInt8 := if devNo = 1 then bitDevDev else 0

/-- `select_disk` -/
def selectDisk (devNo : UInt8) : PortM Unit :=
  modify fun p => { p with regs := { p.regs with dev := bitDevMbs ||| bitDevLba ||| devBit devNo } }

/-- `select_sector` -/
def selectSector (devNo : UInt8) (lba : UInt32) (secCnt : UInt8) : PortM Unit := do
  Prog.lift (ASSERT (lba.toNat ≤ maxLba) "select_sector" "lba <= max_lba")
  modify fun p => { p with regs :=
    { sectCnt := secCnt
      lbaL := lba.toUInt8
      lbaM := (lba >>> 8).toUInt8
      lbaH := (lba >>> 16).toUInt8
      dev := bitDevMbs ||| bitDevLba ||| devBit devNo ||| (lba >>> 24).toUInt8 } }

/-- `size_in_byte` of `read_from_sector` and `write2sector` -/
def sizeInByte (secCnt : UInt8) : Nat := if secCnt = 0 then 256 * 512 else secCnt.toNat * 512

/-- `read_from_sector` to `buf + off`: `insw` moves two bytes at a time. -/
def readFromSector (bus buf : Mem) (off : Nat) (secCnt : UInt8) : PortM Mem := do
  let p ← get
  return buf.splice off (p.dataIn bus) (2 * (sizeInByte secCnt / 2))

/-- `write2sector` from `buf + off` -/
def write2sector (buf : Mem) (off : Nat) (secCnt : UInt8) : PortM Unit :=
  modify fun p => p.dataOut (buf.drop off) (2 * (sizeInByte secCnt / 2))

/-- `secs_op` -/
def secsOp (secCnt secsDone : UInt32) : UInt32 :=
  if secsDone + 256 ≤ secCnt then 256 else secCnt - secsDone

/-- The loop of `ide_read`. -/
def ideReadLoop (devNo : UInt8) (lba secCnt : UInt32) (bus : Mem) : Nat → UInt32 → Mem → PortM Mem
  | 0, _, buf => return buf
  | fuel + 1, secsDone, buf => do
      if secsDone < secCnt then
        let n := secsOp secCnt secsDone
        selectSector devNo (lba + secsDone) n.toUInt8
        let buf ← readFromSector bus buf (secsDone * 512).toNat n.toUInt8
        ideReadLoop devNo lba secCnt bus fuel (secsDone + n) buf
      else
        return buf

/-- `ide_read` from the disk `devNo`: the buffer after the transfer. -/
def ideRead (devNo : UInt8) (lba : UInt32) (buf : Mem) (secCnt : UInt32) (bus : Mem) :
    PortM Mem := do
  Prog.lift (ASSERT (lba.toNat ≤ maxLba) "ide_read" "lba <= max_lba")
  Prog.lift (ASSERT (0 < secCnt) "ide_read" "sec_cnt > 0")
  selectDisk devNo
  ideReadLoop devNo lba secCnt bus secCnt.toNat 0 buf

/-- The loop of `ide_write`. -/
def ideWriteLoop (devNo : UInt8) (lba : UInt32) (buf : Mem) (secCnt : UInt32) :
    Nat → UInt32 → PortM Unit
  | 0, _ => return ()
  | fuel + 1, secsDone => do
      if secsDone < secCnt then
        let n := secsOp secCnt secsDone
        selectSector devNo (lba + secsDone) n.toUInt8
        write2sector buf (secsDone * 512).toNat n.toUInt8
        ideWriteLoop devNo lba buf secCnt fuel (secsDone + n)
      else
        return ()

/-- `ide_write` to the disk `devNo`. -/
def ideWrite (devNo : UInt8) (lba : UInt32) (buf : Mem) (secCnt : UInt32) : PortM Unit := do
  Prog.lift (ASSERT (lba.toNat ≤ maxLba) "ide_write" "lba <= max_lba")
  Prog.lift (ASSERT (0 < secCnt) "ide_write" "sec_cnt > 0")
  selectDisk devNo
  ideWriteLoop devNo lba buf secCnt secCnt.toNat 0

end Ports

end ZyOs
