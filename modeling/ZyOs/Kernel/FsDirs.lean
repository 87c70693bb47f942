/-
The system calls of `fs/fs.c` that remove files and work on directories.

The record `search_file` fills in always has an open directory in it, and each call
closes it on its way out.  Buffers are taken as there; the one `sys_getcwd` builds its
path in has 512 bytes, and a write past it is a fault.
-/
import ZyOs.Kernel.Fs
import ZyOs.Kernel.Remove

namespace ZyOs

open Library

/-- `MAX_PATH_LEN` -/
def maxPathLen : Nat := 512

/-! ### `sys_unlink` -/

/-- The loop of `sys_unlink` over `file_table`: is inode `inodeNo` in use? -/
def fileInUse (s : Fs) (inodeNo : Nat) : Bool :=
  (List.range maxFileOpen).any fun g =>
    match (s.fileTable g).fdInode with
    | some a => (s.inodes a).iNo.toNat == inodeNo
    | none => false

/-- `sys_unlink` -/
def sysUnlink (env : FsEnv) (pathname : List UInt8) : FsM Int := do
  assertFs (pathname.length < maxPathLen) "sys_unlink" "strlen(pathname) < MAX_PATH_LEN"
  let (inodeNo, r) ← searchFile env pathname
  assertFs (inodeNo ≠ 0) "sys_unlink" "inode_no != 0"
  if inodeNo = -1 then
    dirClose r.parentDir
    return -1
  else if r.fileType = ftDirectory then
    dirClose r.parentDir
    return -1
  else if fileInUse (← get) (u32 inodeNo).toNat then
    dirClose r.parentDir
    return -1
  else
    let _ ← deleteDirEntry (r.parentDir.inode (← get)) (u32 inodeNo).toNat
    inodeRelease env (u32 inodeNo).toNat
    dirClose r.parentDir
    return 0

/-! ### `sys_mkdir` -/

/-- `.` and `..` of a new directory, as the block that is written. -/
def dotBlock (inodeNo parentNo : UInt32) : Mem :=
  (Mem.splice (fun _ => 0) 0 (DirEntry.toMem ⟨cstr [46], inodeNo, ftDirectory⟩)
    DirEntry.size).splice DirEntry.size
      (DirEntry.toMem ⟨cstr [46, 46], parentNo, ftDirectory⟩) DirEntry.size

/-- `sys_mkdir` from where the name is known to be new: `inode_no` has been taken. -/
def makeDir (parentDir : DirPtr) (dirname : List UInt8) (inodeNo : Nat) : FsM Int := do
  let blockLba ← blockBitmapAlloc
  if blockLba = -1 then
    setInodeBit inodeNo false
    dirClose parentDir
    return -1
  else
    let newDirInode := (inodeInit inodeNo).setSector 0 (u32 blockLba)
    let blockBitmapIdx := (← get).part.blockBitmapIdx blockLba
    assertFs (blockBitmapIdx ≠ 0) "sys_mkdir" "block_bitmap_idx != 0"
    bitmapSync blockBitmapIdx .blockBitmap
    let s ← get
    let parentNo := (s.inodes (parentDir.inode s)).iNo
    writeSectors (newDirInode.sector 0).toNat (dotBlock (UInt32.ofNat inodeNo) parentNo) 1
    let newDirInode := { newDirInode with iSize := UInt32.ofNat (2 * s.part.sb.dirEntrySize) }
    let newDirEntry ← Prog.lift
      (createDirEntry dirname (UInt32.ofNat inodeNo) ftDirectory DirEntry.zero)
    if ← syncDirEntry (parentDir.inode (← get)) newDirEntry (fun _ => 0) then
      let s ← get
      inodeSync (s.inodes (parentDir.inode s)) (fun _ => 0)
      inodeSync newDirInode (fun _ => 0)
      bitmapSync inodeNo .inodeBitmap
      dirClose parentDir
      return 0
    else
      setInodeBit inodeNo false
      dirClose parentDir
      return -1

/-- `sys_mkdir` -/
def sysMkdir (env : FsEnv) (pathname : List UInt8) : FsM Int := do
  let (inodeNo, r) ← searchFile env pathname
  if inodeNo ≠ -1 then
    dirClose r.parentDir
    return -1
  else
    let pathnameDepth ← Prog.lift (pathDepthCnt pathname)
    let pathSearchedDepth ← Prog.lift (pathDepthCnt r.searchedPath)
    if pathnameDepth ≠ pathSearchedDepth then
      dirClose r.parentDir
      return -1
    else
      let inodeNo ← inodeBitmapAlloc
      if inodeNo = -1 then
        dirClose r.parentDir
        return -1
      else
        makeDir r.parentDir (baseName r.searchedPath) inodeNo.toNat

/-! ### Directory handles -/

/-- `sys_opendir`; nothing for `NULL`. -/
def sysOpendir (env : FsEnv) (name : List UInt8) : FsM (Option DirPtr) := do
  assertFs (name.length < maxPathLen) "sys_opendir" "strlen(name) < MAX_PATH_LEN"
  if name.head? = some slash ∧ (name.length = 1 ∨ name.head? = some 46) then
    return some .root
  else
    let (inodeNo, r) ← searchFile env name
    if inodeNo = -1 then
      dirClose r.parentDir
      return none
    else if r.fileType = ftDirectory then
      let dir ← dirOpen env (u32 inodeNo).toNat
      dirClose r.parentDir
      return some dir
    else
      dirClose r.parentDir
      return none

/-- `sys_closedir` -/
def sysClosedir (dir : Option DirPtr) : FsM Int := do
  match dir with
  | none => return -1
  | some dir =>
      dirClose dir
      return 0

/-- `sys_rmdir` -/
def sysRmdir (env : FsEnv) (pathname : List UInt8) : FsM Int := do
  let (inodeNo, r) ← searchFile env pathname
  assertFs (inodeNo ≠ 0) "sys_rmdir" "inode_no != 0"
  if inodeNo = -1 then
    dirClose r.parentDir
    return -1
  else if r.fileType = ftRegular then
    dirClose r.parentDir
    return -1
  else
    let dir ← dirOpen env (u32 inodeNo).toNat
    let s ← get
    if dirIsEmpty s (dir.inode s) then
      let retval ← dirRemove env (r.parentDir.inode s) (dir.inode s)
      dirClose dir
      dirClose r.parentDir
      return retval
    else
      dirClose dir
      dirClose r.parentDir
      return -1

/-! ### The working directory -/

/-- `sys_chdir` -/
def sysChdir (env : FsEnv) (path : List UInt8) : FsM Int := do
  let (inodeNo, r) ← searchFile env path
  if inodeNo ≠ -1 ∧ r.fileType = ftDirectory then
    modify fun s => { s with tasks := fun t =>
      if t = s.cur then { s.tasks t with cwdInodeNr := (u32 inodeNo).toNat } else s.tasks t }
    dirClose r.parentDir
    return 0
  else
    dirClose r.parentDir
    return -1

/-- `get_parent_dir_inode_nr` -/
def getParentDirInodeNr (env : FsEnv) (childInodeNr : Nat) : FsM Nat := do
  let a ← inodeOpen env childInodeNr
  let s ← get
  let blockLba := (s.inodes a).sector 0
  assertFs (s.part.sb.dataStartLba ≤ blockLba.toNat) "get_parent_dir_inode_nr"
    "block_lba >= cur_part->sb->data_start_lba"
  inodeClose a
  let ioBuf ← readSectors blockLba.toNat (fun _ => 0) 1
  let iNo := getWord ioBuf (DirEntry.size + 16)
  assertFs (iNo.toNat < 4096 ∧ getWord ioBuf (DirEntry.size + 20) = ftDirectory)
    "get_parent_dir_inode_nr" "dir_e[1].i_no < 4096 && dir_e[1].f_type == FT_DIRECTORY"
  return iNo.toNat

/-- The C string at the start of `m`, when it ends before `limit`. -/
def cString (m : Mem) (limit : Nat) : Option (List UInt8) :=
  ((List.range limit).find? fun i => m i == 0).map fun n => (List.range n).map m

/-- The loop of `get_child_dir_name` over the entries of a block. -/
def childInBlock (ioBuf : Mem) (cInodeNr : Nat) : Nat → Nat → Option Nat
  | 0, _ => none
  | n + 1, dirEIdx =>
      if (getWord ioBuf (DirEntry.size * dirEIdx + 16)).toNat = cInodeNr then some dirEIdx
      else childInBlock ioBuf cInodeNr n (dirEIdx + 1)

/-- The loop over the blocks: the name that is found. -/
def childInBlocks (blocks : Nat → UInt32) (cInodeNr : Nat) :
    Nat → Nat → FsM (Option (List UInt8))
  | 0, _ => return none
  | n + 1, blockIdx => do
      if blocks blockIdx = 0 then
        childInBlocks blocks cInodeNr n (blockIdx + 1)
      else
        let dirEntrysPerSec := 512 / (← get).part.sb.dirEntrySize
        let ioBuf ← readSectors (blocks blockIdx).toNat (fun _ => 0) 1
        match childInBlock ioBuf cInodeNr dirEntrysPerSec 0 with
        | none => childInBlocks blocks cInodeNr n (blockIdx + 1)
        | some dirEIdx =>
            match cString (ioBuf.drop (DirEntry.size * dirEIdx)) (512 - DirEntry.size * dirEIdx) with
            | some filename => return some filename
            | none => Prog.lift (.error (.fault "get_child_dir_name"))

/-- `get_child_dir_name`: the path with the name appended, nothing for -1. -/
def getChildDirName (env : FsEnv) (pInodeNr cInodeNr : Nat) (path : List UInt8) :
    FsM (Option (List UInt8)) := do
  let a ← inodeOpen env pInodeNr
  let inode := (← get).inodes a
  let (blocks, blockCnt) ←
    if inode.sector 12 ≠ 0 then do
      let table ← readSectors (inode.sector 12).toNat (fun _ => 0) 1
      pure (withTable (directBlocks inode) table, 140)
    else pure (directBlocks inode, 12)
  inodeClose a
  match ← childInBlocks blocks cInodeNr blockCnt 0 with
  | none => return none
  | some filename =>
      let path := path ++ slash :: filename
      -- `full_path_reverse` has 512 bytes
      if path.length < maxPathLen then return some path
      else Prog.lift (.error (.fault "get_child_dir_name"))

/-- The loop of `sys_getcwd` that climbs to the root: the names from the directory upwards.
Each round makes the path longer, so 512 of them are enough. -/
def climb (env : FsEnv) : Nat → Nat → List UInt8 → FsM (Option (List UInt8))
  | 0, _, _ => Prog.lift (.error (.fault "sys_getcwd"))
  | fuel + 1, childInodeNr, path => do
      if childInodeNr = 0 then
        return some path
      else
        let parentInodeNr ← getParentDirInodeNr env childInodeNr
        match ← getChildDirName env parentInodeNr childInodeNr path with
        | none => return none
        | some path => climb env fuel parentInodeNr path

/-- The loop of `sys_getcwd` that turns the path around. -/
def reversePath (size : Nat) : Nat → List UInt8 → Mem → Kernel Mem
  | 0, _, buf => return buf
  | fuel + 1, fullPathReverse, buf =>
      if slash ∈ fullPathReverse then do
        let lastSlash := slash :: baseName fullPathReverse
        match cString buf size with
        | none => .error (.fault "sys_getcwd")
        | some written =>
            if written.length + lastSlash.length ≤ size then
              reversePath size fuel
                (fullPathReverse.take (fullPathReverse.length - lastSlash.length))
                (buf.splice written.length (cstr lastSlash) lastSlash.length)
            else .error (.fault "sys_getcwd")
      else return buf

/-- `sys_getcwd`: the buffer, nothing for `NULL`. -/
def sysGetcwd (env : FsEnv) (buf : Mem) (size : Nat) : FsM (Option Mem) := do
  let s ← get
  let childInodeNr := (s.tasks s.cur).cwdInodeNr
  assertFs (childInodeNr < 4096) "sys_getcwd" "child_inode_nr >= 0 && child_inode_nr < 4096"
  if childInodeNr = 0 then
    if 2 ≤ size then return some (buf.splice 0 (cstr [slash]) 2)
    else Prog.lift (.error (.fault "sys_getcwd"))
  else
    match ← climb env (maxPathLen + 1) childInodeNr [] with
    | none => return none
    | some fullPathReverse =>
        assertFs (fullPathReverse.length ≤ size) "sys_getcwd" "strlen(full_path_reverse) <= size"
        return some (← Prog.lift
          (reversePath size (maxPathLen + 1) fullPathReverse (buf.fill 0 0 size)))

/-! ### `sys_stat` -/

/-- `struct stat` -/
structure Stat where
  stIno : Nat
  stSize : UInt32
  stFiletype : UInt32

/-- `sys_stat`: what it puts into the buffer, nothing for -1. -/
def sysStat (env : FsEnv) (path : List UInt8) : FsM (Option Stat) := do
  if strncmp (cstr path) (cstr [slash]) 1 0 = 0 ∨
      strncmp (cstr path) (cstr [slash, 46]) 2 0 = 0 ∨
      strncmp (cstr path) (cstr [slash, 46, 46]) 3 0 = 0 then
    let s ← get
    return some ⟨0, (s.inodes s.rootInode).iSize, ftDirectory⟩
  else
    let (inodeNo, r) ← searchFile env path
    if inodeNo = -1 then
      dirClose r.parentDir
      return none
    else
      let a ← inodeOpen env (u32 inodeNo).toNat
      let stSize := ((← get).inodes a).iSize
      inodeClose a
      dirClose r.parentDir
      return some ⟨(u32 inodeNo).toNat, stSize, r.fileType⟩

/-! ### Calls -/

/-- What a task may ask for in files and directories. -/
inductive DirCall where
  | «open» (pathname : List UInt8) (flags : Nat)
  | close (fd : Int)
  | opendir (name : List UInt8)
  | closedir (dir : Option DirPtr)
  | mkdir (pathname : List UInt8)
  | rmdir (pathname : List UInt8)
  | unlink (pathname : List UInt8)
  | stat (path : List UInt8)
  | chdir (path : List UInt8)

/-- A call of the running task.  `handles` are the directories that are open, and only these
are closed. -/
def DirCall.exec (env : FsEnv) (handles : List DirPtr) : DirCall → FsM (List DirPtr)
  | .open pathname flags => do let _ ← sysOpen env pathname flags; return handles
  | .close fd => do let _ ← sysClose fd; return handles
  | .opendir name => do
      match ← sysOpendir env name with
      | some dir => return dir :: handles
      | none => return handles
  | .closedir none => do let _ ← sysClosedir none; return handles
  | .closedir (some dir) => do
      if dir ∈ handles then
        let _ ← sysClosedir (some dir)
        return handles.erase dir
      else
        return handles
  | .mkdir pathname => do let _ ← sysMkdir env pathname; return handles
  | .rmdir pathname => do let _ ← sysRmdir env pathname; return handles
  | .unlink pathname => do let _ ← sysUnlink env pathname; return handles
  | .stat path => do let _ ← sysStat env path; return handles
  | .chdir path => do let _ ← sysChdir env path; return handles

/-- A call of task `t`. -/
def DirCall.execBy (env : FsEnv) (t : Nat) (handles : List DirPtr) (c : DirCall) :
    FsM (List DirPtr) := do
  modify fun s => { s with cur := t }
  c.exec env handles

end ZyOs
