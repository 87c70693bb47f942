/-
`partition_scan` of `device/ide.c`, and the loop of `ide_init` that calls it.

The recursion follows sector numbers on the disk, so it is given fuel, and no fuel is a loop
that is never left.  A store past the end of `prim_parts` or `logic_parts` is a fault.  The
buffer for a sector is taken as there; `identify_disk`, the ports and the interrupts are left
out, and so is `my_disk`, which says of a partition whose array it is in.
-/
import ZyOs.Kernel.Ide
import ZyOs.Library.Prog

namespace ZyOs

open Library

/-! ### Structures -/

/-- `struct partition_table_entry`, as far as it is looked at. -/
structure PartitionTableEntry where
  fsType : UInt8
  startLba : UInt32
  secCnt : UInt32

/-- `struct partition`: what the scan fills in. -/
structure PartInfo where
  startLba : UInt32
  secCnt : UInt32
  name : String

/-- A partition that was not found: `channels` is a global variable. -/
def PartInfo.zero : PartInfo := ⟨0, 0, ""⟩

/-- `struct disk`: where it is among the disks, what it is called, and its bytes. -/
structure HardDisk where
  no : Nat
  name : String
  data : Disk

/-- `prim_parts` and `logic_parts` of a disk. -/
structure DiskParts where
  primParts : Nat → PartInfo
  logicParts : Nat → PartInfo

/-- Where a partition is: what `part_tag` is embedded in. -/
inductive PartSlot where
  | prim (idx : Nat)
  | logic (idx : Nat)
deriving DecidableEq

/-- The globals of `device/ide.c` that the scan uses, and the partitions of all disks. -/
structure IdeGlobals where
  extLbaBase : UInt32
  pNo : Nat
  lNo : Nat
  parts : Nat → DiskParts
  partitionList : List (Nat × PartSlot)

/-- Code on these. -/
abbrev IdeM := Prog IdeGlobals Halt

/-! ### `partition_scan` -/

/-- The entry a pointer to these bytes sees. -/
def PartitionTableEntry.ofMem (m : Mem) : PartitionTableEntry where
  fsType := m 4
  startLba := getWord m 8
  secCnt := getWord m 12

/-- `bs->partition_table` -/
def partitionTable (bs : Mem) : List PartitionTableEntry :=
  (List.range 4).map fun k => PartitionTableEntry.ofMem (bs.drop (446 + 16 * k))

/-- `hd->prim_parts[p_no]` is filled in and appended to `partition_list`. -/
def IdeGlobals.addPrim (s : IdeGlobals) (hd : HardDisk) (startLba secCnt : UInt32) : IdeGlobals :=
  { s with
    parts := Function.update s.parts hd.no { s.parts hd.no with
      primParts := Function.update (s.parts hd.no).primParts s.pNo
        ⟨startLba, secCnt, hd.name ++ toString (s.pNo + 1)⟩ }
    partitionList := s.partitionList ++ [(hd.no, .prim s.pNo)]
    pNo := s.pNo + 1 }

/-- `hd->logic_parts[l_no]` likewise. -/
def IdeGlobals.addLogic (s : IdeGlobals) (hd : HardDisk) (startLba secCnt : UInt32) : IdeGlobals :=
  { s with
    parts := Function.update s.parts hd.no { s.parts hd.no with
      logicParts := Function.update (s.parts hd.no).logicParts s.lNo
        ⟨startLba, secCnt, hd.name ++ toString (s.lNo + 5)⟩ }
    partitionList := s.partitionList ++ [(hd.no, .logic s.lNo)]
    lNo := s.lNo + 1 }

/-- An entry of the master boot record that is a partition. -/
def scanPrim (hd : HardDisk) (startLba secCnt : UInt32) : IdeM Unit := do
  let s ← get
  if s.pNo < 4 then
    set (s.addPrim hd startLba secCnt)
    Prog.lift (ASSERT (s.pNo + 1 < 4) "partition_scan" "p_no < 4")
  else
    Prog.lift (.error (.fault "partition_scan"))

/-- An entry of another table that is a partition: does the loop go on? -/
def scanLogic (hd : HardDisk) (startLba secCnt : UInt32) : IdeM Bool := do
  let s ← get
  if s.lNo < 8 then
    set (s.addLogic hd startLba secCnt)
    return s.lNo + 1 < 8
  else
    Prog.lift (.error (.fault "partition_scan"))

/-- The loop over the entries of the table in sector `extLba`; `scan` is the recursive call. -/
def scanEntries (hd : HardDisk) (scan : UInt32 → IdeM Unit) (extLba : UInt32) :
    List PartitionTableEntry → IdeM Unit
  | [] => return ()
  | p :: rest => do
      if p.fsType = 0x5 then
        let extLbaBase := (← get).extLbaBase
        if extLbaBase ≠ 0 then
          scan (p.startLba + extLbaBase)
        else
          modify fun s => { s with extLbaBase := p.startLba }
          scan p.startLba
        scanEntries hd scan extLba rest
      else if p.fsType ≠ 0 then
        if extLba = 0 then
          scanPrim hd (extLba + p.startLba) p.secCnt
          scanEntries hd scan extLba rest
        else if ← scanLogic hd (extLba + p.startLba) p.secCnt then
          scanEntries hd scan extLba rest
        else
          return ()
      else
        scanEntries hd scan extLba rest

/-- `partition_scan` -/
def partitionScan (hd : HardDisk) : Nat → UInt32 → IdeM Unit
  | 0, _ => Prog.lift (.error (.hang "partition_scan"))
  | fuel + 1, extLba => do
      let bs ← Prog.lift (ideRead hd.data extLba.toNat (fun _ => 0) 1)
      scanEntries hd (partitionScan hd fuel) extLba (partitionTable bs)

/-! ### `ide_init` -/

/-- The loop of `ide_init` over the disks of a channel; the one that holds the kernel is not
scanned.  `disks` are the contents, two for each channel. -/
def ideInitDevices (disks : Nat → Disk) (fuel channelNo : Nat) : Nat → Nat → IdeM Unit
  | 0, _ => return ()
  | n + 1, devNo => do
      let no := channelNo * 2 + devNo
      let hd : HardDisk := ⟨no, "sd" ++ (Char.ofNat (97 + no)).toString, disks no⟩
      if devNo ≠ 0 then
        partitionScan hd fuel 0
      modify fun s => { s with pNo := 0, lNo := 0 }
      ideInitDevices disks fuel channelNo n (devNo + 1)

/-- The loop over the channels. -/
def ideInitChannels (disks : Nat → Disk) (fuel : Nat) : Nat → Nat → IdeM Unit
  | 0, _ => return ()
  | n + 1, channelNo => do
      ideInitDevices disks fuel channelNo 2 0
      ideInitChannels disks fuel n (channelNo + 1)

/-- The globals as they are before. -/
def IdeGlobals.start : IdeGlobals where
  extLbaBase := 0
  pNo := 0
  lNo := 0
  parts := fun _ => ⟨fun _ => .zero, fun _ => .zero⟩
  partitionList := []

end ZyOs
