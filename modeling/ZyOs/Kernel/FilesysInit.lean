/-
The loops of `filesys_init` in `fs/fs.c` that look for file systems.

`part_idx` is declared outside the loops and counts on, so it is passed along and handed back.
What `partition_format` makes of a disk is a parameter.  The buffer for a superblock is taken as
there.  The log says which superblocks were read, and what was formatted.
-/
import ZyOs.Kernel.Format
import ZyOs.Kernel.PartitionScan

namespace ZyOs

open Library

/-- What is done to a partition: its superblock is read, with this magic, or it is formatted. -/
inductive ScanEvent where
  | read (no : Nat) (part : PartSlot) (magic : Nat)
  | format (no : Nat) (part : PartSlot)
deriving DecidableEq

/-- The disks, the buffer for a superblock, and what was done. -/
structure FsScan where
  disks : Nat → Disk
  sbBuf : Mem
  log : List ScanEvent

/-- Code on these. -/
abbrev FsScanM := Prog FsScan Halt

/-- `part++` -/
def PartSlot.next : PartSlot → PartSlot
  | .prim idx => .prim (idx + 1)
  | .logic idx => .logic (idx + 1)

/-- `*part`; the arrays have four and eight elements. -/
def DiskParts.deref (hd : DiskParts) : PartSlot → Kernel PartInfo
  | .prim idx =>
      if idx < 4 then .ok (hd.primParts idx) else .error (.fault "filesys_init")
  | .logic idx =>
      if idx < 8 then .ok (hd.logicParts idx) else .error (.fault "filesys_init")

section

variable (format : PartInfo → Disk → Kernel Disk) (parts : Nat → DiskParts)

/-- What is done when the partition exists. -/
def probePart (no : Nat) (part : PartSlot) (p : PartInfo) : FsScanM Unit := do
  let s ← get
  let sbBuf ← Prog.lift (ideRead (s.disks no) (p.startLba + 1).toNat zeroMem 1)
  let magic := (SuperBlock.ofMem sbBuf).magic
  set { s with sbBuf := sbBuf, log := s.log ++ [ScanEvent.read no part magic] }
  if magic = superBlockMagic then
    return ()
  else
    let d ← Prog.lift (format p (s.disks no))
    modify fun s => { s with
      disks := Function.update s.disks no d
      log := s.log ++ [ScanEvent.format no part] }

/-- The loop over the partitions of a disk; `part_idx` as it is afterwards. -/
def scanPartIdx (no : Nat) (partIdx : Nat) (part : PartSlot) : FsScanM Nat :=
  if partIdx < 12 then do
    let part := if partIdx = 4 then PartSlot.logic 0 else part
    let p ← Prog.lift ((parts no).deref part)
    if p.secCnt ≠ 0 then
      probePart format no part p
    scanPartIdx no (partIdx + 1) part.next
  else
    return partIdx
termination_by 12 - partIdx

/-- The loop over the disks of a channel; the one that holds the kernel is left out. -/
def scanDevNo (channelNo : Nat) : Nat → Nat → Nat → FsScanM Nat
  | 0, _, partIdx => return partIdx
  | n + 1, devNo, partIdx => do
      if devNo = 0 then
        scanDevNo channelNo n (devNo + 1) partIdx
      else
        let partIdx ← scanPartIdx format parts (channelNo * 2 + devNo) partIdx (.prim 0)
        scanDevNo channelNo n (devNo + 1) partIdx

/-- The loop over the channels. -/
def scanChannelNo : Nat → Nat → Nat → FsScanM Nat
  | 0, _, partIdx => return partIdx
  | n + 1, channelNo, partIdx => do
      let partIdx ← scanDevNo format parts channelNo 2 0 partIdx
      scanChannelNo n (channelNo + 1) partIdx

/-- The three loops, over `channelCnt` channels. -/
def filesysScan (channelCnt : Nat) : FsScanM Unit := do
  let _ ← scanChannelNo format parts channelCnt 0 0
  return ()

end

end ZyOs
