/-
The opening half of `fs/file.c`: free slots, `file_create`, `file_open`, `file_close`.

The memory for buffers and for a new inode is taken as there, so the rollback of
`file_create` has two of its three steps.  `sys_malloc` takes the new inode from the
heap of the running task.  The model has one heap, so it describes a creation by a
kernel thread; a process would put the inode where no other process sees it.
-/
import ZyOs.Kernel.FileData

namespace ZyOs

open Library

/-- `MAX_FILE_OPEN` -/
abbrev maxFileOpen : Nat := 32

/-- `MAX_FILES_OPEN_PER_PROC` -/
abbrev maxFilesOpenPerProc : Nat := 8

/-- `O_WRONLY` -/
def oWronly : Nat := 1
/-- `O_RDWR` -/
def oRdwr : Nat := 2
/-- `O_CREAT` -/
def oCreat : Nat := 4

/-- `flag & O_WRONLY || flag & O_RDWR` -/
def writes (flag : Nat) : Bool := flag &&& oWronly != 0 || flag &&& oRdwr != 0

/-- `file_table[g] = f` -/
def setFile (g : Nat) (f : File) : FsM Unit :=
  modify fun s => { s with fileTable := fun i => if i = g then f else s.fileTable i }

/-! ### Free slots -/

/-- The loop of `get_free_slot_in_global`. -/
def freeSlotFrom (fileTable : Nat → File) : Nat → Nat → Option Nat
  | 0, _ => none
  | n + 1, fdIdx =>
      if (fileTable fdIdx).fdInode = none then some fdIdx
      else freeSlotFrom fileTable n (fdIdx + 1)

/-- `get_free_slot_in_global`; nothing for -1. -/
def getFreeSlotInGlobal (fileTable : Nat → File) : Option Nat :=
  freeSlotFrom fileTable (maxFileOpen - 3) 3

/-- The loop of `pcb_fd_install`. -/
def freeFdFrom (fdTable : Nat → Int) : Nat → Nat → Option Nat
  | 0, _ => none
  | n + 1, localFdIdx =>
      if fdTable localFdIdx = -1 then some localFdIdx else freeFdFrom fdTable n (localFdIdx + 1)

/-- `thread->fd_table[fd] = g` -/
def FdTask.setFd (thread : FdTask) (fd : Nat) (g : Int) : FdTask :=
  { thread with fdTable := fun k => if k = fd then g else thread.fdTable k }

/-- `running_thread()->fd_table[fd] = g` -/
def setFd (fd : Nat) (g : Int) : FsM Unit := do
  let s ← get
  set { s with tasks := fun t => if t = s.cur then (s.tasks t).setFd fd g else s.tasks t }

/-- `pcb_fd_install` -/
def pcbFdInstall (globalFdIdx : Nat) : FsM Int := do
  let s ← get
  match freeFdFrom (s.tasks s.cur).fdTable (maxFilesOpenPerProc - 3) 3 with
  | some localFdIdx =>
      setFd localFdIdx globalFdIdx
      return localFdIdx
  | none => return -1

/-! ### Opening and closing -/

/-- `sys_free(inode)` -/
def freeInode (a : Nat) : FsM Unit := modify fun s => { s with heap := s.heap.erase a }

/-- `file_create` in the directory whose inode is at `parent`. -/
def fileCreate (env : FsEnv) (parent : Nat) (filename : List UInt8) (flag : Nat) : FsM Int := do
  let inodeNo ← inodeBitmapAlloc
  if inodeNo = -1 then
    return -1
  else
    let a := env.newAddr (← get).heap
    modify fun s => { s with heap := insert a s.heap }
    putInode a (inodeInit inodeNo.toNat)
    match getFreeSlotInGlobal (← get).fileTable with
    | none =>
        freeInode a
        setInodeBit inodeNo.toNat false
        return -1
    | some fdIdx =>
        setFile fdIdx { fdPos := 0, fdFlag := flag, fdInode := some a }
        putInode a { (← get).inodes a with writeDeny := false }
        let newDirEntry ← Prog.lift
          (createDirEntry filename (UInt32.ofNat inodeNo.toNat) ftRegular DirEntry.zero)
        if ← syncDirEntry parent newDirEntry (fun _ => 0) then
          inodeSync ((← get).inodes parent) (fun _ => 0)
          inodeSync ((← get).inodes a) (fun _ => 0)
          bitmapSync inodeNo.toNat .inodeBitmap
          modify fun s => { s with openInodes := a :: s.openInodes }
          putInode a { (← get).inodes a with iOpenCnts := 1 }
          pcbFdInstall fdIdx
        else
          setFile fdIdx { fdPos := 0, fdFlag := 0, fdInode := none }
          freeInode a
          setInodeBit inodeNo.toNat false
          return -1

/-- `file_open`.  The entry is filled in before the writers are looked at, and stays. -/
def fileOpen (env : FsEnv) (inodeNo flag : Nat) : FsM Int := do
  match getFreeSlotInGlobal (← get).fileTable with
  | none => return -1
  | some fdIdx =>
      let a ← inodeOpen env inodeNo
      setFile fdIdx { fdPos := 0, fdFlag := flag, fdInode := some a }
      if writes flag then
        let inode := (← get).inodes a
        if inode.writeDeny then
          return -1
        else
          putInode a { inode with writeDeny := true }
          pcbFdInstall fdIdx
      else
        pcbFdInstall fdIdx

/-- `file_close`: `write_deny` is cleared whoever closes. -/
def fileClose (g : Nat) : FsM Int := do
  let a ← fdInodeOf g "file_close"
  putInode a { (← get).inodes a with writeDeny := false }
  inodeClose a
  setFile g { (← get).fileTable g with fdInode := none }
  return 0

end ZyOs
