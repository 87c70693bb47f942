/-
The file system's code with `sys_malloc` and `sys_free` in it: `fs/inode.c`, `fs/dir.c` and
`fs/file.c`.

Which heap a call of the two goes to depends on `pg_dir` of the running task: the kernel's
when it is `NULL`, that of the process otherwise.  A pointer is in the heap it was taken
from (`HeapEnv.owner`); of the kernel's pointers that says that they are at `K_HEAP_START` or
above.  What reads and writes the disk, the bitmaps and the tables is the code there is, run
on the file system's part of the state (`onFs`).  `frees` is there for the proofs only: what
has been passed to `sys_free`, and for which heap.
-/
import ZyOs.Kernel.FsDirs

namespace ZyOs

open Library

/-- Where `sys_malloc` takes memory from. -/
inductive Context where
  | kernel
  | process (task : Nat)
deriving DecidableEq

/-- What allocation rests on: `newAddr` is what `sys_malloc` finds for so many bytes when these
addresses are in use, nothing for `NULL`, and `owner` is the heap an address is in.  `junk` is
the inode number in a `struct dir_entry` on the stack that nothing has been stored in. -/
structure HeapEnv where
  newAddr : Context → Nat → Finset Nat → Option Nat
  owner : Nat → Context
  newAddr_fresh : ∀ {c size used a}, newAddr c size used = some a → a ∉ used
  newAddr_owner : ∀ {c size used a}, newAddr c size used = some a → owner a = c
  junk : UInt32 := 0

/-- The file system, and what has been freed. -/
structure HeapFs where
  fs : Fs
  frees : List (Nat × Context)

/-- Where the kernel stopped: in `sys_free`, or elsewhere. -/
inductive HeapHalt where
  | inFree (e : Halt)
  | elsewhere (e : Halt)
deriving DecidableEq

/-- File-system code that allocates. -/
abbrev HeapM := Prog HeapFs HeapHalt

/-- The heap of the running task. -/
def HeapFs.context (s : HeapFs) : Context :=
  if (s.fs.tasks s.fs.cur).pgDir then .process s.fs.cur else .kernel

/-- Code that does not allocate. -/
def onFs {α : Type} (x : FsM α) : HeapM α := fun s =>
  match x s.fs with
  | .ok (a, t) => .ok (a, { s with fs := t })
  | .error e => .error (.elsewhere e)

namespace Heaps

/-! ### `sys_malloc` and `sys_free` -/

/-- `sys_malloc`; nothing for `NULL`. -/
def sysMalloc (env : HeapEnv) (size : Nat) : HeapM (Option Nat) := do
  let s ← get
  match env.newAddr s.context size s.fs.heap with
  | some a =>
      set { s with fs := { s.fs with heap := insert a s.fs.heap } }
      return some a
  | none => return none

/-- A pointer that is used without a test. -/
def deref (func : String) : Option Nat → HeapM Nat
  | some a => return a
  | none => Prog.lift (.error (.elsewhere (.fault func)))

/-- The test of `sys_free`. -/
def assertInHeap (env : HeapEnv) (ptr : Nat) : HeapM Unit :=
  if env.owner ptr = .kernel then return ()
  else Prog.lift (.error (.inFree (.panic "sys_free" "(uint32_t)ptr >= K_HEAP_START")))

/-- `sys_free` -/
def sysFree (env : HeapEnv) (ptr : Nat) : HeapM Unit := do
  let s ← get
  set { s with frees := (ptr, s.context) :: s.frees }
  if s.context = .kernel then
    assertInHeap env ptr
  modify fun s => { s with fs := { s.fs with heap := s.fs.heap.erase ptr } }

/-- `running_thread()->pg_dir = ..` -/
def setPgDir (pgDir : Bool) : HeapM Unit :=
  modify fun s => { s with fs := { s.fs with tasks := fun t =>
    if t = s.fs.cur then { s.fs.tasks t with pgDir := pgDir } else s.fs.tasks t } }

/-! ### `fs/inode.c` -/

/-- `inode_open`: the address of the inode. -/
def inodeOpen (env : HeapEnv) (inodeNo : Nat) : HeapM Nat := do
  let s ← get
  match findOpen s.fs.inodes inodeNo s.fs.openInodes with
  | some a =>
      onFs (putInode a { s.fs.inodes a with iOpenCnts := (s.fs.inodes a).iOpenCnts + 1 })
      return a
  | none =>
      let inodePos ← onFs (Prog.lift (inodeLocate s.fs.part inodeNo))
      -- the inode is to be in the kernel's heap
      let curPagedirBak := (s.fs.tasks s.fs.cur).pgDir
      setPgDir false
      let inodeFound ← sysMalloc env Inode.size
      setPgDir curPagedirBak
      let secs := if inodePos.twoSec then 2 else 1
      let inodeBuf ← deref "inode_open" (← sysMalloc env (sectorSize * secs))
      let buf ← onFs (readSectors inodePos.secLba (fun _ => 0) secs)
      let a ← deref "inode_open" inodeFound
      let inode := Inode.ofMem (buf.drop inodePos.offSize)
      onFs (putInode a { inode with iOpenCnts := 1 })
      onFs (modify fun s => { s with openInodes := a :: s.openInodes })
      sysFree env inodeBuf
      return a

/-- `inode_close` -/
def inodeClose (env : HeapEnv) (a : Nat) : HeapM Unit := do
  let s ← get
  let cnt := decrOpenCnts (s.fs.inodes a).iOpenCnts
  onFs (putInode a { s.fs.inodes a with iOpenCnts := cnt })
  if cnt = 0 then
    onFs (modify fun s => { s with openInodes := s.openInodes.erase a })
    let curPagedirBak := (s.fs.tasks s.fs.cur).pgDir
    setPgDir false
    sysFree env a
    setPgDir curPagedirBak

/-- `inode_release` -/
def inodeRelease (env : HeapEnv) (inodeNo : Nat) : HeapM Unit := do
  let a ← inodeOpen env inodeNo
  onFs (assertFs (((← get).fs.inodes a).iNo.toNat = inodeNo) "inode_release"
    "inode_to_del->i_no == inode_no")
  onFs (releaseBlocks a)
  onFs (setInodeBit inodeNo false)
  onFs (bitmapSync inodeNo .inodeBitmap)
  let ioBuf ← deref "inode_release" (← sysMalloc env 1024)
  onFs (inodeDelete inodeNo (fun _ => 0))
  sysFree env ioBuf
  inodeClose env a

/-! ### `fs/dir.c` -/

/-- `struct dir *`: the root directory is static, the others have been allocated. -/
inductive Dir where
  | root
  | opened (dir inode : Nat)
deriving DecidableEq

/-- `dir->inode` -/
def Dir.inode (s : HeapFs) : Dir → Nat
  | .root => s.fs.rootInode
  | .opened _ a => a

/-- `dir_open` -/
def dirOpen (env : HeapEnv) (inodeNo : Nat) : HeapM Dir := do
  let pdir ← sysMalloc env 520
  let a ← inodeOpen env inodeNo
  return .opened (← deref "dir_open" pdir) a

/-- `dir_close` -/
def dirClose (env : HeapEnv) : Dir → HeapM Unit
  | .root => return ()
  | .opened dir a => do
      inodeClose env a
      sysFree env dir

/-- `search_dir_entry` -/
def searchDirEntry (env : HeapEnv) (pdirInode : Nat) (name : List UInt8) :
    HeapM (Option DirEntry) := do
  match ← sysMalloc env (48 + 512) with
  | none => return none
  | some allBlocks =>
      let buf ← deref "search_dir_entry" (← sysMalloc env sectorSize)
      let dirE ← onFs (ZyOs.searchDirEntry pdirInode name)
      sysFree env buf
      sysFree env allBlocks
      return dirE

/-- `dir_remove` -/
def dirRemove (env : HeapEnv) (parentDir childDir : Nat) : HeapM Int := do
  let childDirInode := (← get).fs.inodes childDir
  onFs (checkFirstBlockOnly childDirInode 12 1)
  match ← sysMalloc env (sectorSize * 2) with
  | none => return -1
  | some ioBuf =>
      let _ ← onFs (deleteDirEntry parentDir childDirInode.iNo.toNat)
      inodeRelease env childDirInode.iNo.toNat
      sysFree env ioBuf
      return 0

/-! ### `fs/file.c` -/

/-- `file_create` in the directory whose inode is at `parent`. -/
def fileCreate (env : HeapEnv) (parent : Nat) (filename : List UInt8) (flag : Nat) :
    HeapM Int := do
  match ← sysMalloc env 1024 with
  | none => return -1
  | some ioBuf =>
      let inodeNo ← onFs inodeBitmapAlloc
      if inodeNo = -1 then
        return -1
      else
        match ← sysMalloc env Inode.size with
        | none =>
            onFs (setInodeBit inodeNo.toNat false)
            sysFree env ioBuf
            return -1
        | some a =>
            onFs (putInode a (inodeInit inodeNo.toNat))
            match getFreeSlotInGlobal (← get).fs.fileTable with
            | none =>
                sysFree env a
                onFs (setInodeBit inodeNo.toNat false)
                sysFree env ioBuf
                return -1
            | some fdIdx =>
                onFs (setFile fdIdx { fdPos := 0, fdFlag := flag, fdInode := some a })
                onFs (putInode a { (← get).fs.inodes a with writeDeny := false })
                let newDirEntry ← onFs (Prog.lift
                  (createDirEntry filename (UInt32.ofNat inodeNo.toNat) ftRegular DirEntry.zero))
                if ← onFs (syncDirEntry parent newDirEntry (fun _ => 0)) then
                  onFs (inodeSync ((← get).fs.inodes parent) (fun _ => 0))
                  onFs (inodeSync ((← get).fs.inodes a) (fun _ => 0))
                  onFs (bitmapSync inodeNo.toNat .inodeBitmap)
                  onFs (modify fun s => { s with openInodes := a :: s.openInodes })
                  onFs (putInode a { (← get).fs.inodes a with iOpenCnts := 1 })
                  sysFree env ioBuf
                  onFs (pcbFdInstall fdIdx)
                else
                  onFs (setFile fdIdx { fdPos := 0, fdFlag := 0, fdInode := none })
                  sysFree env a
                  onFs (setInodeBit inodeNo.toNat false)
                  sysFree env ioBuf
                  return -1

/-- `file_open` -/
def fileOpen (env : HeapEnv) (inodeNo flag : Nat) : HeapM Int := do
  match getFreeSlotInGlobal (← get).fs.fileTable with
  | none => return -1
  | some fdIdx =>
      let a ← inodeOpen env inodeNo
      onFs (setFile fdIdx { fdPos := 0, fdFlag := flag, fdInode := some a })
      if writes flag then
        let inode := (← get).fs.inodes a
        if inode.writeDeny then
          return -1
        else
          onFs (putInode a { inode with writeDeny := true })
          onFs (pcbFdInstall fdIdx)
      else
        onFs (pcbFdInstall fdIdx)

/-- `file_close` -/
def fileClose (env : HeapEnv) (g : Nat) : HeapM Int := do
  let a ← onFs (fdInodeOf g "file_close")
  onFs (putInode a { (← get).fs.inodes a with writeDeny := false })
  inodeClose env a
  onFs (setFile g { (← get).fs.fileTable g with fdInode := none })
  return 0

/-- `file_write`: the number of bytes written, or -1.  A way out in the middle leaves the
buffers. -/
def fileWrite (env : HeapEnv) (fd : Nat) (buf : Mem) (count : Nat) : HeapM Int := do
  let a ← onFs (fdInodeOf fd "file_write")
  let iSize := ((← get).fs.inodes a).iSize.toNat
  if 512 * 140 < (iSize + count) % 2 ^ 32 then
    return -1
  else
    match ← sysMalloc env 512 with
    | none => return -1
    | some ioBuf =>
        match ← sysMalloc env (512 + 48) with
        | none => return -1
        | some allBlocks =>
            if ← onFs (firstBlock a) then
              let fileHasUsedBlocks := iSize / 512 + 1
              let fileWillUseBlocks := (iSize + count) % 2 ^ 32 / 512 + 1
              onFs (assertFs (fileWillUseBlocks ≤ 140) "file_write" "file_will_use_blocks <= 140")
              match ← onFs (collectForWrite a fileHasUsedBlocks fileWillUseBlocks) with
              | none => return -1
              | some blocks =>
                  onFs (setFdPos fd (sub32 iSize 1))
                  let (bytesWritten, io) ←
                    onFs (writeLoop fd a blocks count count buf 0 count true (fun _ => 0))
                  onFs (inodeSync ((← get).fs.inodes a) io)
                  sysFree env allBlocks
                  sysFree env ioBuf
                  return int32 bytesWritten
            else
              return -1

/-- What `file_read` does once the size is settled.  Nobody looks whether there is an
`io_buf`. -/
def readBytes (env : HeapEnv) (fd a : Nat) (buf : Mem) (size : Nat) : HeapM (Int × Mem) := do
  let ioBuf ← sysMalloc env 512
  match ← sysMalloc env (512 + 48) with
  | none => return (-1, buf)
  | some allBlocks =>
      let ioBuf ← deref "file_read" ioBuf
      let res ← onFs (ZyOs.readBytes fd a buf size)
      sysFree env allBlocks
      sysFree env ioBuf
      return res

/-- `file_read`: the number of bytes read, or -1, and the buffer. -/
def fileRead (env : HeapEnv) (fd : Nat) (buf : Mem) (count : Nat) : HeapM (Int × Mem) := do
  let a ← onFs (fdInodeOf fd "file_read")
  let fdPos := ((← get).fs.fileTable fd).fdPos
  let iSize := ((← get).fs.inodes a).iSize.toNat
  if iSize < (fdPos + count) % 2 ^ 32 then
    let size := sub32 iSize fdPos
    if size = 0 then
      return (-1, buf)
    else
      readBytes env fd a buf size
  else
    readBytes env fd a buf count

end Heaps

end ZyOs
