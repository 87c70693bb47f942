/-
The system calls of `fs/fs.c` on files, with the walk along a path in front of
`sys_open`, and what `sys_fork` does to the descriptors.

A path is the list of its bytes.  The buffer for one name has 16 bytes, and a write
or a read past it is a fault.  So is a descriptor past the end of `fd_table`.
-/
import ZyOs.Kernel.File

namespace ZyOs

open Library

/-! ### Paths -/

/-- The character `/`. -/
def slash : UInt8 := 47

/-- `path_parse`: the topmost name and the rest of the path, nothing for `NULL`. -/
def pathParse (pathname : List UInt8) : List UInt8 × Option (List UInt8) :=
  let p := pathname.dropWhile (· == slash)
  let rest := p.dropWhile (· != slash)
  (p.takeWhile (· != slash), if rest = [] then none else some rest)

/-- `path_parse` into the buffer of `func`. -/
def parseName (func : String) (pathname : List UInt8) :
    Kernel (List UInt8 × Option (List UInt8)) :=
  if (pathParse pathname).1.length ≤ maxFileNameLen then .ok (pathParse pathname)
  else .error (.fault func)

/-- The loop of `path_depth_cnt`, entered with a name in the buffer. -/
def depthLoop : Nat → Option (List UInt8) → Nat → Kernel Nat
  | 0, _, depth => return depth
  | _ + 1, none, depth => return depth + 1
  | fuel + 1, some p, depth => do
      let (name, p) ← parseName "path_depth_cnt" p
      if name = [] then return depth + 1
      else depthLoop fuel p (depth + 1)

/-- `path_depth_cnt`.  The buffer starts out with whatever was on the stack, and a path
without a name leaves it so. -/
def pathDepthCnt (pathname : List UInt8) : Kernel Nat := do
  let (name, p) ← parseName "path_depth_cnt" pathname
  if name = [] then .error (.fault "path_depth_cnt")
  else depthLoop (pathname.length + 1) p 0

/-! ### Directories -/

/-- `struct dir *`: the root directory is static, the others hold the address of their inode. -/
inductive DirPtr where
  | root
  | opened (inode : Nat)
deriving DecidableEq

/-- `dir->inode` -/
def DirPtr.inode (s : Fs) : DirPtr → Nat
  | .root => s.rootInode
  | .opened a => a

/-- `dir_open` -/
def dirOpen (env : FsEnv) (inodeNo : Nat) : FsM DirPtr := do
  return .opened (← inodeOpen env inodeNo)

/-- `dir_close` -/
def dirClose : DirPtr → FsM Unit
  | .root => return ()
  | .opened a => inodeClose a

/-- `open_root_dir` -/
def openRootDir (env : FsEnv) : FsM Unit := do
  let a ← inodeOpen env (← get).part.sb.rootInodeNo
  modify fun s => { s with rootInode := a }

/-- `struct path_search_record` -/
structure PathSearchRecord where
  searchedPath : List UInt8
  parentDir : DirPtr
  fileType : UInt32

/-- The loop of `search_file`, entered with `name` in the buffer; `dirE` is the number in the
last entry found, or what was on the stack. -/
def searchLoop (env : FsEnv) : Nat → Option (List UInt8) → List UInt8 → PathSearchRecord →
    UInt32 → UInt32 → FsM (Int × PathSearchRecord)
  | 0, _, _, r, _, _ => return (-1, r)
  | fuel + 1, subPath, name, r, parentInodeNo, dirE => do
      if name = [] then
        -- the whole path was walked and its last name is a directory
        dirClose r.parentDir
        let parentDir ← dirOpen env parentInodeNo.toNat
        return (int32 dirE.toNat, { r with parentDir := parentDir, fileType := ftDirectory })
      else
        assertFs (r.searchedPath.length < 512) "search_file"
          "strlen(searched_record->searched_path) < 512"
        if maxFileNameLen ≤ name.length then
          Prog.lift (.error (.fault "search_file"))
        else
          let r := { r with searchedPath := r.searchedPath ++ slash :: name }
          match ← searchDirEntry (r.parentDir.inode (← get)) name with
          | none => return (-1, r)
          | some e =>
              let (name, subPath) ← match subPath with
                | some p => Prog.lift (parseName "search_file" p)
                | none => pure ([], none)
              if e.fType = ftDirectory then
                let s ← get
                let parentInodeNo := (s.inodes (r.parentDir.inode s)).iNo
                dirClose r.parentDir
                let parentDir ← dirOpen env e.iNo.toNat
                searchLoop env fuel subPath name { r with parentDir := parentDir } parentInodeNo
                  e.iNo
              else if e.fType = ftRegular then
                return (int32 e.iNo.toNat, { r with fileType := ftRegular })
              else
                searchLoop env fuel subPath name r parentInodeNo e.iNo

/-- `search_file`: the inode number, -1 when there is no such file, and the record. -/
def searchFile (env : FsEnv) (pathname : List UInt8) : FsM (Int × PathSearchRecord) := do
  if strncmp (cstr pathname) (cstr [slash]) 1 0 = 0 ∨
      strncmp (cstr pathname) (cstr [slash, 46]) 2 0 = 0 ∨
      strncmp (cstr pathname) (cstr [slash, 46, 46]) 3 0 = 0 then
    return (0, { searchedPath := [], parentDir := .root, fileType := ftDirectory })
  else
    assertFs (pathname.head? = some slash ∧ 1 < pathname.length ∧ pathname.length < 512)
      "search_file" "pathname[0] == '/' && path_len > 1 && path_len < MAX_PATH_LEN"
    let (name, subPath) ← Prog.lift (parseName "search_file" pathname)
    searchLoop env (pathname.length + 1) subPath name
      { searchedPath := [], parentDir := .root, fileType := ftUnknown } 0 env.junk

/-! ### `sys_open` -/

/-- What `sys_open` is going to do once the path has been looked at. -/
inductive OpenPlan where
  | refuse
  | create (parentDir : DirPtr)
  | existing (inodeNo : Nat)
deriving DecidableEq

/-- `sys_open` up to the `switch`. -/
def openPlan (env : FsEnv) (pathname : List UInt8) (flags : Nat) : FsM OpenPlan := do
  if pathname = [] then
    -- `pathname[strlen(pathname) - 1]`
    Prog.lift (.error (.fault "sys_open"))
  else if pathname.getLast? = some slash then
    return .refuse
  else
    assertFs (flags ≤ 7) "sys_open" "flags <= 7"
    let pathnameDepth ← Prog.lift (pathDepthCnt pathname)
    let (inodeNo, r) ← searchFile env pathname
    if r.fileType = ftDirectory then
      dirClose r.parentDir
      return .refuse
    else
      let pathSearchedDepth ← Prog.lift (pathDepthCnt r.searchedPath)
      if pathnameDepth ≠ pathSearchedDepth then
        dirClose r.parentDir
        return .refuse
      else if inodeNo = -1 ∧ flags &&& oCreat = 0 then
        dirClose r.parentDir
        return .refuse
      else if inodeNo ≠ -1 ∧ flags &&& oCreat ≠ 0 then
        dirClose r.parentDir
        return .refuse
      else if flags &&& oCreat ≠ 0 then
        return .create r.parentDir
      else
        return .existing (u32 inodeNo).toNat

/-- `strrchr(pathname, '/') + 1` -/
def baseName (pathname : List UInt8) : List UInt8 :=
  (pathname.reverse.takeWhile (· != slash)).reverse

/-- `sys_open`.  The parent directory stays open when an existing file is opened. -/
def sysOpen (env : FsEnv) (pathname : List UInt8) (flags : Nat) : FsM Int := do
  match ← openPlan env pathname flags with
  | .refuse => return -1
  | .create parentDir =>
      let fd ← fileCreate env (parentDir.inode (← get)) (baseName pathname) flags
      dirClose parentDir
      return fd
  | .existing inodeNo => fileOpen env inodeNo flags

/-! ### The other calls -/

/-- `fd_local_to_global` -/
def fdLocalToGlobal (localFd : Nat) : FsM Nat := do
  let s ← get
  if localFd < maxFilesOpenPerProc then
    let globalFd := (s.tasks s.cur).fdTable localFd
    assertFs (0 ≤ globalFd ∧ globalFd < maxFileOpen) "fd_local_to_global"
      "global_fd >= 0 && global_fd < MAX_FILE_OPEN"
    return globalFd.toNat
  else
    Prog.lift (.error (.fault "fd_local_to_global"))

/-- `sys_close` -/
def sysClose (fd : Int) : FsM Int := do
  if 2 < fd then
    let gFd ← fdLocalToGlobal fd.toNat
    let res ← fileClose gFd
    setFd fd.toNat (-1)
    return res
  else
    return -1

/-- `sys_write`; what goes to the console is left out. -/
def sysWrite (fd : Int) (buf : Mem) (count : Nat) : FsM Int := do
  if fd < 0 then
    return -1
  else if fd = 1 then
    -- `tmp_buf` has 1024 bytes
    if count ≤ 1024 then return int32 count else Prog.lift (.error (.fault "sys_write"))
  else
    let g ← fdLocalToGlobal fd.toNat
    if writes ((← get).fileTable g).fdFlag then
      fileWrite g buf count
    else
      return -1

/-- `sys_read` into `buf`; `keys` are the characters the keyboard is going to deliver. -/
def sysRead (keys : Mem) (fd : Int) (buf : Mem) (count : Nat) : FsM (Int × Mem) := do
  if fd < 0 ∨ fd = 1 ∨ fd = 2 then
    return (-1, buf)
  else if fd = 0 then
    return (if count = 0 then -1 else int32 count, buf.splice 0 keys count)
  else
    let g ← fdLocalToGlobal fd.toNat
    fileRead g buf count

/-- `sys_lseek` -/
def sysLseek (fd offset : Int) (whence : Nat) : FsM Int := do
  if fd < 0 then
    return -1
  else
    assertFs (0 < whence ∧ whence < 4) "sys_lseek" "whence > 0 && whence < 4"
    let g ← fdLocalToGlobal fd.toNat
    let a ← fdInodeOf g "sys_lseek"
    let s ← get
    let fileSize := int32 (s.inodes a).iSize.toNat
    let newPos :=
      if whence = 1 then offset
      else if whence = 2 then int32 (s.fileTable g).fdPos + offset
      else fileSize + offset
    if newPos < 0 ∨ fileSize - 1 < newPos then
      return -1
    else
      setFdPos g newPos.toNat
      return newPos

/-! ### The descriptors in `sys_fork` -/

/-- The loop of `update_inode_open_cnts`. -/
def updateOpenCntsFrom (fdTable : Nat → Int) : Nat → Nat → FsM Unit
  | 0, _ => return ()
  | n + 1, localFd => do
      let globalFd := fdTable localFd
      assertFs (globalFd < maxFileOpen) "update_inode_open_cnts" "global_fd < MAX_FILE_OPEN"
      if globalFd ≠ -1 then
        let a ← fdInodeOf globalFd.toNat "update_inode_open_cnts"
        let inode := (← get).inodes a
        putInode a { inode with iOpenCnts := inode.iOpenCnts + 1 }
      updateOpenCntsFrom fdTable n (localFd + 1)

/-- `update_inode_open_cnts` -/
def updateInodeOpenCnts (thread : Nat) : FsM Unit := do
  updateOpenCntsFrom ((← get).tasks thread).fdTable (maxFilesOpenPerProc - 3) 3

/-- `sys_fork` as far as files go: the PCB is copied, descriptors included, and the inodes
get one more opener for each of them.  `child` is where the new PCB is. -/
def sysForkFiles (child : Nat) : FsM Unit := do
  let s ← get
  assertFs ((s.tasks s.cur).pgDir = true) "sys_fork"
    "INTR_OFF == intr_get_status() && parent_thread->pg_dir != NULL"
  modify fun s => { s with tasks := fun t => if t = child then s.tasks s.cur else s.tasks t }
  updateInodeOpenCnts child

/-! ### Start and calls -/

/-- The loop of `filesys_init` over the file table.  It counts twice, so it leaves out every
other entry. -/
def clearTable (fileTable : Nat → File) (g : Nat) : File :=
  if g < maxFileOpen ∧ g % 2 = 0 then { fileTable g with fdInode := none } else fileTable g

/-- The end of `filesys_init`. -/
def filesysInit (env : FsEnv) : FsM Unit := do
  openRootDir env
  modify fun s => { s with fileTable := clearTable s.fileTable }

/-- What a task may ask for. -/
inductive FsCall where
  | «open» (pathname : List UInt8) (flags : Nat)
  | close (fd : Int)
  | read (keys : Mem) (fd : Int) (buf : Mem) (count : Nat)
  | write (fd : Int) (buf : Mem) (count : Nat)
  | lseek (fd offset : Int) (whence : Nat)

/-- A call of the running task. -/
def FsCall.exec (env : FsEnv) : FsCall → FsM Unit
  | .open pathname flags => do let _ ← sysOpen env pathname flags
  | .close fd => do let _ ← sysClose fd
  | .read keys fd buf count => do let _ ← sysRead keys fd buf count
  | .write fd buf count => do let _ ← sysWrite fd buf count
  | .lseek fd offset whence => do let _ ← sysLseek fd offset whence

/-- A call of task `t`. -/
def FsCall.execBy (env : FsEnv) (t : Nat) (c : FsCall) : FsM Unit := do
  modify fun s => { s with cur := t }
  c.exec env

end ZyOs
