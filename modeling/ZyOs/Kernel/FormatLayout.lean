/-
The arithmetic of `partition_format`, over any type of numbers.

The source computes the layout in `uint32_t`.  Written over a type with its own `+`, `-`, `*`
and `/`, the same lines give what the code computes when the type is `UInt32`, and what is
meant when it is `Nat`; `steps` keeps every value that comes up on the way, so that the two
can be compared one by one.
-/
import ZyOs.Kernel.Format

namespace ZyOs

/-- The pieces of a partition, and every value computed on the way to them. -/
structure FormatLayout (α : Type) where
  blockBitmapBitLen : α
  blockBitmapLba : α
  blockBitmapSects : α
  inodeBitmapLba : α
  inodeBitmapSects : α
  inodeTableLba : α
  inodeTableSects : α
  dataStartLba : α
  steps : List α

/-- The same layout in other numbers. -/
def FormatLayout.map {α β : Type} (f : α → β) (l : FormatLayout α) : FormatLayout β where
  blockBitmapBitLen := f l.blockBitmapBitLen
  blockBitmapLba := f l.blockBitmapLba
  blockBitmapSects := f l.blockBitmapSects
  inodeBitmapLba := f l.inodeBitmapLba
  inodeBitmapSects := f l.inodeBitmapSects
  inodeTableLba := f l.inodeTableLba
  inodeTableSects := f l.inodeTableSects
  dataStartLba := f l.dataStartLba
  steps := l.steps.map f

/-- `partition_format` up to the size of the buffer. -/
def formatLayout {α : Type} [Add α] [Sub α] [Mul α] [Div α] [Max α] [∀ n, OfNat α n]
    (startLba secCnt : α) : FormatLayout α :=
  let bootSectorSects : α := 1
  let superBlockSects : α := 1
  -- `DIV_ROUND_UP(X, STEP)` is `((X) + (STEP) - 1) / (STEP)`
  let inodeUp : α := 4096 + 4096
  let inodeBitmapSects := (inodeUp - 1) / 4096
  let tableBytes : α := 76 * 4096
  let tableUp := tableBytes + 512
  let inodeTableSects := (tableUp - 1) / 512
  let bootAndSuper := bootSectorSects + superBlockSects
  let andBitmap := bootAndSuper + inodeBitmapSects
  let usedSects := andBitmap + inodeTableSects
  let freeSects := secCnt - usedSects
  let freeUp := freeSects + 4096
  let firstBitmapSects := (freeUp - 1) / 4096
  let blockBitmapBitLen := freeSects - firstBitmapSects
  let bitsUp := blockBitmapBitLen + 4096
  let blockBitmapSects := (bitsUp - 1) / 4096
  let superBlockLba := startLba + 1
  let blockBitmapLba := startLba + 2
  let inodeBitmapLba := blockBitmapLba + blockBitmapSects
  let inodeTableLba := inodeBitmapLba + inodeBitmapSects
  let dataStartLba := inodeTableLba + inodeTableSects
  let bufSize := max (max blockBitmapSects inodeBitmapSects) inodeTableSects * 512
  { blockBitmapBitLen, blockBitmapLba, blockBitmapSects, inodeBitmapLba, inodeBitmapSects,
    inodeTableLba, inodeTableSects, dataStartLba
    steps := [inodeUp, inodeUp - 1, inodeBitmapSects, tableBytes, tableUp, tableUp - 1,
      inodeTableSects, bootAndSuper, andBitmap, usedSects, freeSects, freeUp, freeUp - 1,
      firstBitmapSects, blockBitmapBitLen, bitsUp, bitsUp - 1, blockBitmapSects, superBlockLba,
      blockBitmapLba, inodeBitmapLba, inodeTableLba, dataStartLba, bufSize] }

/-- The sectors from `first` on, `count` of them. -/
structure Region where
  first : Nat
  count : Nat

/-- The sectors of a region. -/
def Region.sectors (r : Region) : Set Nat := Set.Ico r.first (r.first + r.count)

/-- What `partition_format` makes of a partition: boot block, superblock, block bitmap, inode
bitmap, inode table and data area. -/
def formatRegions (p : RawPartition) : List Region :=
  let sb := formatSuperBlock p
  [⟨p.startLba, 1⟩, ⟨p.startLba + 1, 1⟩, ⟨sb.blockBitmapLba, sb.blockBitmapSects⟩,
    ⟨sb.inodeBitmapLba, sb.inodeBitmapSects⟩, ⟨sb.inodeTableLba, sb.inodeTableSects⟩,
    ⟨sb.dataStartLba, blockBitmapBitLen p.secCnt⟩]

/-- The region that holds a bitmap. -/
def SuperBlock.bitmapRegion (sb : SuperBlock) : BitmapType → Region
  | .inodeBitmap => ⟨sb.inodeBitmapLba, sb.inodeBitmapSects⟩
  | .blockBitmap => ⟨sb.blockBitmapLba, sb.blockBitmapSects⟩

end ZyOs
