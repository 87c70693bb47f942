/-
The data of the file system: the structures of `fs/*.h` and what is global in
`fs/*.c`.

An in-memory inode is an object other structures point to, so it lives at an
address in `inodes`; `openInodes` is the list `part->open_inodes` as the sequence
of the addresses linked on it, and `heap` the addresses that are allocated.
Buffers are local to a call and appear as values.
-/
import ZyOs.Kernel.Bitmap
import ZyOs.Kernel.Ide
import ZyOs.Library.Prog

namespace ZyOs

open Library

/-! ### Structures on disk -/

/-- `struct super_block` -/
structure SuperBlock where
  magic : Nat
  secCnt : Nat
  inodeCnt : Nat
  partLbaBase : Nat
  blockBitmapLba : Nat
  blockBitmapSects : Nat
  inodeBitmapLba : Nat
  inodeBitmapSects : Nat
  inodeTableLba : Nat
  inodeTableSects : Nat
  dataStartLba : Nat
  rootInodeNo : Nat
  dirEntrySize : Nat

/-- `struct inode`, less the list tag. -/
structure Inode where
  iNo : UInt32
  iSize : UInt32
  iOpenCnts : Nat
  writeDeny : Bool
  iSectors : Fin 13 → UInt32

namespace Inode

/-- `sizeof(struct inode)` -/
abbrev size : Nat := 76

/-- `i_sectors[k]` -/
def sector (n : Inode) (k : Nat) : UInt32 := if h : k < 13 then n.iSectors ⟨k, h⟩ else 0

/-- `i_sectors[k] = v` -/
def setSector (n : Inode) (k : Nat) (v : UInt32) : Inode :=
  { n with iSectors := fun j => if j.val = k then v else n.iSectors j }

/-- The 19 words of the structure in memory; the last two are the tag's pointers. -/
def words (n : Inode) (k : Nat) : UInt32 :=
  match k with
  | 0 => n.iNo
  | 1 => n.iSize
  | 2 => UInt32.ofNat n.iOpenCnts
  | 3 => if n.writeDeny then 1 else 0
  | k + 4 => n.sector k

/-- The bytes of the structure. -/
def toMem (n : Inode) : Mem := ofWords n.words

/-- The structure a pointer to these bytes sees. -/
def ofMem (m : Mem) : Inode where
  iNo := getWord m 0
  iSize := getWord m 4
  iOpenCnts := (getWord m 8).toNat
  writeDeny := getWord m 12 != 0
  iSectors := fun k => getWord m (16 + 4 * k.val)

end Inode

/-- `struct dir_entry`: 16 bytes of name, the inode number, the type. -/
structure DirEntry where
  filename : Mem
  iNo : UInt32
  fType : UInt32

/-- `FT_UNKNOWN`, also the mark of a free slot -/
def ftUnknown : UInt32 := 0
/-- `FT_REGULAR` -/
def ftRegular : UInt32 := 1
/-- `FT_DIRECTORY` -/
def ftDirectory : UInt32 := 2

namespace DirEntry

/-- `sizeof(struct dir_entry)` -/
abbrev size : Nat := 24

/-- The bytes of the structure. -/
def toMem (e : DirEntry) : Mem := fun k =>
  if k < 16 then e.filename k
  else if k < 20 then byteOf e.iNo (k - 16)
  else byteOf e.fType (k - 20)

/-- The structure these bytes hold. -/
def ofMem (m : Mem) : DirEntry where
  filename := fun k => if k < 16 then m k else 0
  iNo := getWord m 16
  fType := getWord m 20

end DirEntry

/-! ### Structures in memory -/

/-- `struct partition`: the one that is mounted. -/
structure Partition where
  startLba : Nat
  secCnt : Nat
  sb : SuperBlock
  blockBitmap : Bitmap
  inodeBitmap : Bitmap

/-- `struct file`, an entry of `file_table`. -/
structure File where
  fdPos : Nat
  fdFlag : Nat
  fdInode : Option Nat

/-- The file part of a PCB; `pgDir` says whether `pg_dir` is set, as it is for a process. -/
structure FdTask where
  fdTable : Nat → Int
  pgDir : Bool
  cwdInodeNr : Nat := 0

/-- The file system's part of the kernel. -/
structure Fs where
  disk : Disk
  part : Partition
  inodes : Nat → Inode
  heap : Finset Nat
  openInodes : List Nat
  rootInode : Nat
  fileTable : Nat → File
  tasks : Nat → FdTask
  cur : Nat

/-- What the file system calls and does not define: `newAddr` is where `sys_malloc`
puts the next inode, `junk` the inode number in a `struct dir_entry` on the stack that
nothing has been stored in. -/
structure FsEnv where
  newAddr : Finset Nat → Nat
  newAddr_fresh : ∀ used, newAddr used ∉ used
  junk : UInt32 := 0

/-- File-system code. -/
abbrev FsM := Prog Fs Halt

/-- `ASSERT` in file-system code. -/
def assertFs (c : Prop) [Decidable c] (func condition : String) : FsM Unit :=
  Prog.lift (ASSERT c func condition)

/-- `ide_read` from the mounted disk. -/
def readSectors (lba : Nat) (buf : Mem) (secCnt : Nat) : FsM Mem := do
  let s ← get
  Prog.lift (ideRead s.disk lba buf secCnt)

/-- `ide_write` to the mounted disk. -/
def writeSectors (lba : Nat) (buf : Mem) (secCnt : Nat) : FsM Unit := do
  let s ← get
  let d ← Prog.lift (ideWrite s.disk lba buf secCnt)
  set { s with disk := d }

/-- A C `int` as a 32-bit pattern. -/
def u32 (i : Int) : UInt32 := UInt32.ofNat (i % 2 ^ 32).toNat

end ZyOs
