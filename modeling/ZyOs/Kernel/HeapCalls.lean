/-
The system calls of `fs/fs.c` with `sys_malloc` and `sys_free` in them, called by any
number of kernel threads and processes.

A directory handle is closed by the task that has opened it; the kernel's threads share
their memory, so among them it is any thread.
-/
import ZyOs.Kernel.Heap
import ZyOs.Library.Machine

namespace ZyOs

open Library

namespace Heaps

/-! ### `search_file` -/

/-- `struct path_search_record` -/
structure SearchRecord where
  searchedPath : List UInt8
  parentDir : Dir
  fileType : UInt32

/-- The loop of `search_file`, entered with `name` in the buffer; `dirE` is the number in the
last entry found, or what was on the stack. -/
def searchLoop (env : HeapEnv) : Nat → Option (List UInt8) → List UInt8 → SearchRecord →
    UInt32 → UInt32 → HeapM (Int × SearchRecord)
  | 0, _, _, r, _, _ => return (-1, r)
  | fuel + 1, subPath, name, r, parentInodeNo, dirE => do
      if name = [] then
        dirClose env r.parentDir
        let parentDir ← dirOpen env parentInodeNo.toNat
        return (int32 dirE.toNat, { r with parentDir := parentDir, fileType := ftDirectory })
      else
        onFs (assertFs (r.searchedPath.length < 512) "search_file"
          "strlen(searched_record->searched_path) < 512")
        if maxFileNameLen ≤ name.length then
          onFs (Prog.lift (.error (.fault "search_file")))
        else
          let r := { r with searchedPath := r.searchedPath ++ slash :: name }
          match ← searchDirEntry env (r.parentDir.inode (← get)) name with
          | none => return (-1, r)
          | some e =>
              let (name, subPath) ← match subPath with
                | some p => onFs (Prog.lift (parseName "search_file" p))
                | none => pure ([], none)
              if e.fType = ftDirectory then
                let s ← get
                let parentInodeNo := (s.fs.inodes (r.parentDir.inode s)).iNo
                dirClose env r.parentDir
                let parentDir ← dirOpen env e.iNo.toNat
                searchLoop env fuel subPath name { r with parentDir := parentDir } parentInodeNo
                  e.iNo
              else if e.fType = ftRegular then
                return (int32 e.iNo.toNat, { r with fileType := ftRegular })
              else
                searchLoop env fuel subPath name r parentInodeNo e.iNo

/-- `search_file`: the inode number, -1 when there is no such file, and the record. -/
def searchFile (env : HeapEnv) (pathname : List UInt8) : HeapM (Int × SearchRecord) := do
  if strncmp (cstr pathname) (cstr [slash]) 1 0 = 0 ∨
      strncmp (cstr pathname) (cstr [slash, 46]) 2 0 = 0 ∨
      strncmp (cstr pathname) (cstr [slash, 46, 46]) 3 0 = 0 then
    return (0, { searchedPath := [], parentDir := .root, fileType := ftDirectory })
  else
    onFs (assertFs (pathname.head? = some slash ∧ 1 < pathname.length ∧ pathname.length < 512)
      "search_file" "pathname[0] == '/' && path_len > 1 && path_len < MAX_PATH_LEN")
    let (name, subPath) ← onFs (Prog.lift (parseName "search_file" pathname))
    searchLoop env (pathname.length + 1) subPath name
      { searchedPath := [], parentDir := .root, fileType := ftUnknown } 0 env.junk

/-! ### Files -/

/-- What `sys_open` is going to do once the path has been looked at. -/
inductive OpenPlan where
  | refuse
  | create (parentDir : Dir)
  | existing (inodeNo : Nat)
deriving DecidableEq

/-- `sys_open` up to the `switch`. -/
def openPlan (env : HeapEnv) (pathname : List UInt8) (flags : Nat) : HeapM OpenPlan := do
  if pathname = [] then
    onFs (Prog.lift (.error (.fault "sys_open")))
  else if pathname.getLast? = some slash then
    return .refuse
  else
    onFs (assertFs (flags ≤ 7) "sys_open" "flags <= 7")
    let pathnameDepth ← onFs (Prog.lift (pathDepthCnt pathname))
    let (inodeNo, r) ← searchFile env pathname
    if r.fileType = ftDirectory then
      dirClose env r.parentDir
      return .refuse
    else
      let pathSearchedDepth ← onFs (Prog.lift (pathDepthCnt r.searchedPath))
      if pathnameDepth ≠ pathSearchedDepth then
        dirClose env r.parentDir
        return .refuse
      else if inodeNo = -1 ∧ flags &&& oCreat = 0 then
        dirClose env r.parentDir
        return .refuse
      else if inodeNo ≠ -1 ∧ flags &&& oCreat ≠ 0 then
        dirClose env r.parentDir
        return .refuse
      else if flags &&& oCreat ≠ 0 then
        return .create r.parentDir
      else
        return .existing (u32 inodeNo).toNat

/-- `sys_open` -/
def sysOpen (env : HeapEnv) (pathname : List UInt8) (flags : Nat) : HeapM Int := do
  match ← openPlan env pathname flags with
  | .refuse => return -1
  | .create parentDir =>
      let fd ← fileCreate env (parentDir.inode (← get)) (baseName pathname) flags
      dirClose env parentDir
      return fd
  | .existing inodeNo => fileOpen env inodeNo flags

/-- `sys_close` -/
def sysClose (env : HeapEnv) (fd : Int) : HeapM Int := do
  if 2 < fd then
    let gFd ← onFs (fdLocalToGlobal fd.toNat)
    let res ← fileClose env gFd
    onFs (setFd fd.toNat (-1))
    return res
  else
    return -1

/-- `sys_write`; what goes to the console is left out. -/
def sysWrite (env : HeapEnv) (fd : Int) (buf : Mem) (count : Nat) : HeapM Int := do
  if fd < 0 then
    return -1
  else if fd = 1 then
    if count ≤ 1024 then return int32 count
    else onFs (Prog.lift (.error (.fault "sys_write")))
  else
    let g ← onFs (fdLocalToGlobal fd.toNat)
    if writes ((← get).fs.fileTable g).fdFlag then
      fileWrite env g buf count
    else
      return -1

/-- `sys_read` into `buf`; `keys` are the characters the keyboard is going to deliver. -/
def sysRead (env : HeapEnv) (keys : Mem) (fd : Int) (buf : Mem) (count : Nat) :
    HeapM (Int × Mem) := do
  if fd < 0 ∨ fd = 1 ∨ fd = 2 then
    return (-1, buf)
  else if fd = 0 then
    return (if count = 0 then -1 else int32 count, buf.splice 0 keys count)
  else
    let g ← onFs (fdLocalToGlobal fd.toNat)
    fileRead env g buf count

/-- `sys_unlink` -/
def sysUnlink (env : HeapEnv) (pathname : List UInt8) : HeapM Int := do
  onFs (assertFs (pathname.length < maxPathLen) "sys_unlink" "strlen(pathname) < MAX_PATH_LEN")
  let (inodeNo, r) ← searchFile env pathname
  onFs (assertFs (inodeNo ≠ 0) "sys_unlink" "inode_no != 0")
  if inodeNo = -1 then
    dirClose env r.parentDir
    return -1
  else if r.fileType = ftDirectory then
    dirClose env r.parentDir
    return -1
  else if fileInUse (← get).fs (u32 inodeNo).toNat then
    dirClose env r.parentDir
    return -1
  else
    match ← sysMalloc env (sectorSize + sectorSize) with
    | none =>
        dirClose env r.parentDir
        return -1
    | some ioBuf =>
        let _ ← onFs (deleteDirEntry (r.parentDir.inode (← get)) (u32 inodeNo).toNat)
        inodeRelease env (u32 inodeNo).toNat
        sysFree env ioBuf
        dirClose env r.parentDir
        return 0

/-! ### Directories -/

/-- `sys_mkdir` from where the name is known to be new, up to the ways out; the answer is
whether the directory is there. -/
def makeDir (parentInode : Nat) (dirname : List UInt8) (inodeNo : Nat) : FsM Bool := do
  let blockLba ← blockBitmapAlloc
  if blockLba = -1 then
    setInodeBit inodeNo false
    return false
  else
    let newDirInode := (inodeInit inodeNo).setSector 0 (u32 blockLba)
    let blockBitmapIdx := (← get).part.blockBitmapIdx blockLba
    assertFs (blockBitmapIdx ≠ 0) "sys_mkdir" "block_bitmap_idx != 0"
    bitmapSync blockBitmapIdx .blockBitmap
    let s ← get
    let parentNo := (s.inodes parentInode).iNo
    writeSectors (newDirInode.sector 0).toNat (dotBlock (UInt32.ofNat inodeNo) parentNo) 1
    let newDirInode := { newDirInode with iSize := UInt32.ofNat (2 * s.part.sb.dirEntrySize) }
    let newDirEntry ← Prog.lift
      (createDirEntry dirname (UInt32.ofNat inodeNo) ftDirectory DirEntry.zero)
    if ← syncDirEntry parentInode newDirEntry (fun _ => 0) then
      inodeSync ((← get).inodes parentInode) (fun _ => 0)
      inodeSync newDirInode (fun _ => 0)
      bitmapSync inodeNo .inodeBitmap
      return true
    else
      setInodeBit inodeNo false
      return false

/-- The ways out of `sys_mkdir` on which it fails. -/
def mkdirRollback (env : HeapEnv) (parentDir : Dir) (ioBuf : Nat) : HeapM Int := do
  dirClose env parentDir
  sysFree env ioBuf
  return -1

/-- `sys_mkdir` -/
def sysMkdir (env : HeapEnv) (pathname : List UInt8) : HeapM Int := do
  match ← sysMalloc env (sectorSize * 2) with
  | none => return -1
  | some ioBuf =>
      let (inodeNo, r) ← searchFile env pathname
      if inodeNo ≠ -1 then
        mkdirRollback env r.parentDir ioBuf
      else
        let pathnameDepth ← onFs (Prog.lift (pathDepthCnt pathname))
        let pathSearchedDepth ← onFs (Prog.lift (pathDepthCnt r.searchedPath))
        if pathnameDepth ≠ pathSearchedDepth then
          mkdirRollback env r.parentDir ioBuf
        else
          let inodeNo ← onFs inodeBitmapAlloc
          if inodeNo = -1 then
            mkdirRollback env r.parentDir ioBuf
          else if ← onFs (makeDir (r.parentDir.inode (← get)) (baseName r.searchedPath)
              inodeNo.toNat) then
            sysFree env ioBuf
            dirClose env r.parentDir
            return 0
          else
            mkdirRollback env r.parentDir ioBuf

/-- `sys_opendir`; nothing for `NULL`. -/
def sysOpendir (env : HeapEnv) (name : List UInt8) : HeapM (Option Dir) := do
  onFs (assertFs (name.length < maxPathLen) "sys_opendir" "strlen(name) < MAX_PATH_LEN")
  if name.head? = some slash ∧ (name.length = 1 ∨ name.head? = some 46) then
    return some .root
  else
    let (inodeNo, r) ← searchFile env name
    if inodeNo = -1 then
      dirClose env r.parentDir
      return none
    else if r.fileType = ftDirectory then
      let dir ← dirOpen env (u32 inodeNo).toNat
      dirClose env r.parentDir
      return some dir
    else
      dirClose env r.parentDir
      return none

/-- `sys_closedir` -/
def sysClosedir (env : HeapEnv) (dir : Option Dir) : HeapM Int := do
  match dir with
  | none => return -1
  | some dir =>
      dirClose env dir
      return 0

/-- `sys_rmdir` -/
def sysRmdir (env : HeapEnv) (pathname : List UInt8) : HeapM Int := do
  let (inodeNo, r) ← searchFile env pathname
  onFs (assertFs (inodeNo ≠ 0) "sys_rmdir" "inode_no != 0")
  if inodeNo = -1 then
    dirClose env r.parentDir
    return -1
  else if r.fileType = ftRegular then
    dirClose env r.parentDir
    return -1
  else
    let dir ← dirOpen env (u32 inodeNo).toNat
    let s ← get
    if dirIsEmpty s.fs (dir.inode s) then
      let retval ← dirRemove env (r.parentDir.inode s) (dir.inode s)
      dirClose env dir
      dirClose env r.parentDir
      return retval
    else
      dirClose env dir
      dirClose env r.parentDir
      return -1

/-- `sys_stat`: what it puts into the buffer, nothing for -1. -/
def sysStat (env : HeapEnv) (path : List UInt8) : HeapM (Option Stat) := do
  if strncmp (cstr path) (cstr [slash]) 1 0 = 0 ∨
      strncmp (cstr path) (cstr [slash, 46]) 2 0 = 0 ∨
      strncmp (cstr path) (cstr [slash, 46, 46]) 3 0 = 0 then
    let s ← get
    return some ⟨0, (s.fs.inodes s.fs.rootInode).iSize, ftDirectory⟩
  else
    let (inodeNo, r) ← searchFile env path
    if inodeNo = -1 then
      dirClose env r.parentDir
      return none
    else
      let a ← inodeOpen env (u32 inodeNo).toNat
      let stSize := ((← get).fs.inodes a).iSize
      inodeClose env a
      dirClose env r.parentDir
      return some ⟨(u32 inodeNo).toNat, stSize, r.fileType⟩

/-! ### Start and calls -/

/-- The end of `filesys_init`. -/
def filesysInit (env : HeapEnv) : HeapM Unit := do
  let a ← inodeOpen env (← get).fs.part.sb.rootInodeNo
  onFs (modify fun s => { s with rootInode := a })
  onFs (modify fun s => { s with fileTable := clearTable s.fileTable })

/-- What a task may ask for.  A handle is named with the task that has opened it. -/
inductive Call where
  | «open» (pathname : List UInt8) (flags : Nat)
  | read (keys : Mem) (fd : Int) (buf : Mem) (count : Nat)
  | write (fd : Int) (buf : Mem) (count : Nat)
  | close (fd : Int)
  | mkdir (pathname : List UInt8)
  | opendir (name : List UInt8)
  | closedir (handle : Option (Nat × Dir))
  | unlink (pathname : List UInt8)
  | rmdir (pathname : List UInt8)
  | stat (path : List UInt8)

/-- A call of the running task, with the handles that are open. -/
def Call.exec (env : HeapEnv) (handles : List (Nat × Dir)) : Call → HeapM (List (Nat × Dir))
  | .open pathname flags => do let _ ← sysOpen env pathname flags; return handles
  | .read keys fd buf count => do let _ ← sysRead env keys fd buf count; return handles
  | .write fd buf count => do let _ ← sysWrite env fd buf count; return handles
  | .close fd => do let _ ← sysClose env fd; return handles
  | .mkdir pathname => do let _ ← sysMkdir env pathname; return handles
  | .opendir name => do
      match ← sysOpendir env name with
      | some dir => return ((← get).fs.cur, dir) :: handles
      | none => return handles
  | .closedir none => do let _ ← sysClosedir env none; return handles
  | .closedir (some (t, dir)) => do
      let _ ← sysClosedir env (some dir)
      return handles.erase (t, dir)
  | .unlink pathname => do let _ ← sysUnlink env pathname; return handles
  | .rmdir pathname => do let _ ← sysRmdir env pathname; return handles
  | .stat path => do let _ ← sysStat env path; return handles

/-- A call of task `t`. -/
def Call.execBy (env : HeapEnv) (t : Nat) (handles : List (Nat × Dir)) (c : Call) :
    HeapM (List (Nat × Dir)) := do
  modify fun s => { s with fs := { s.fs with cur := t } }
  c.exec env handles

end Heaps

/-- The file system and the directory handles its callers have. -/
structure HeapSys where
  heaps : HeapFs
  handles : List (Nat × Heaps.Dir)

/-- Task `t` can use a handle that task `u` has opened. -/
def HeapSys.Shares (s : HeapSys) (t u : Nat) : Prop :=
  t = u ∨ (s.heaps.fs.tasks t).pgDir = false ∧ (s.heaps.fs.tasks u).pgDir = false

/-- Only handles that are open are closed, by those who have them. -/
def HeapSys.Enabled (s : HeapSys) : Nat × Heaps.Call → Prop
  | (t, .closedir (some (u, dir))) => (u, dir) ∈ s.handles ∧ s.Shares t u
  | _ => True

/-- One call. -/
def heapExec (env : HeapEnv) (a : Nat × Heaps.Call) : Prog HeapSys HeapHalt Unit := fun s =>
  match a.2.execBy env a.1 s.handles s.heaps with
  | .ok (handles, heaps) => .ok ((), { heaps := heaps, handles := handles })
  | .error e => .error e

/-- Before the mount: nothing is open and nothing has been freed. -/
structure HeapBooted (s : HeapFs) : Prop where
  openInodes : s.fs.openInodes = []
  fileTable : ∀ g < maxFileOpen, (s.fs.fileTable g).fdInode = none
  frees : s.frees = []

/-- The file system under the calls of all tasks. -/
def heapMachine (env : HeapEnv) : Machine HeapSys (Nat × Heaps.Call) HeapHalt where
  init s := s.handles = [] ∧
    ∃ s₀, HeapBooted s₀ ∧ Heaps.filesysInit env s₀ = .ok ((), s.heaps)
  enabled := HeapSys.Enabled
  exec := heapExec env

end ZyOs
