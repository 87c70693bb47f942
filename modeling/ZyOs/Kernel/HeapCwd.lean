/-
The working directory's system calls with `sys_malloc` and `sys_free` in them, and all calls
there are.

`sys_getcwd` needs no memory for the root directory, but it has asked for its buffer by then.
-/
import ZyOs.Kernel.HeapCalls

namespace ZyOs

open Library

namespace Heaps

/-! ### The working directory -/

/-- `sys_chdir` -/
def sysChdir (env : HeapEnv) (path : List UInt8) : HeapM Int := do
  let (inodeNo, r) ← searchFile env path
  if inodeNo ≠ -1 ∧ r.fileType = ftDirectory then
    onFs (modify fun s => { s with tasks := fun t =>
      if t = s.cur then { s.tasks t with cwdInodeNr := (u32 inodeNo).toNat } else s.tasks t })
    dirClose env r.parentDir
    return 0
  else
    dirClose env r.parentDir
    return -1

/-- `get_parent_dir_inode_nr` -/
def getParentDirInodeNr (env : HeapEnv) (childInodeNr : Nat) : HeapM Nat := do
  let a ← inodeOpen env childInodeNr
  let s ← get
  let blockLba := (s.fs.inodes a).sector 0
  onFs (assertFs (s.fs.part.sb.dataStartLba ≤ blockLba.toNat) "get_parent_dir_inode_nr"
    "block_lba >= cur_part->sb->data_start_lba")
  inodeClose env a
  let ioBuf ← onFs (readSectors blockLba.toNat (fun _ => 0) 1)
  let iNo := getWord ioBuf (DirEntry.size + 16)
  onFs (assertFs (iNo.toNat < 4096 ∧ getWord ioBuf (DirEntry.size + 20) = ftDirectory)
    "get_parent_dir_inode_nr" "dir_e[1].i_no < 4096 && dir_e[1].f_type == FT_DIRECTORY")
  return iNo.toNat

/-- What `get_child_dir_name` does once the inode of the parent directory is closed. -/
def childName (blocks : Nat → UInt32) (blockCnt cInodeNr : Nat) (path : List UInt8) :
    FsM (Option (List UInt8)) := do
  match ← childInBlocks blocks cInodeNr blockCnt 0 with
  | none => return none
  | some filename =>
      let path := path ++ slash :: filename
      -- `full_path_reverse` has 512 bytes
      if path.length < maxPathLen then return some path
      else Prog.lift (.error (.fault "get_child_dir_name"))

/-- `get_child_dir_name`: the path with the name appended, nothing for -1. -/
def getChildDirName (env : HeapEnv) (pInodeNr cInodeNr : Nat) (path : List UInt8) :
    HeapM (Option (List UInt8)) := do
  let a ← inodeOpen env pInodeNr
  let inode := (← get).fs.inodes a
  let (blocks, blockCnt) ← onFs (
    if inode.sector 12 ≠ 0 then do
      let table ← readSectors (inode.sector 12).toNat (fun _ => 0) 1
      pure (withTable (directBlocks inode) table, 140)
    else pure (directBlocks inode, 12))
  inodeClose env a
  onFs (childName blocks blockCnt cInodeNr path)

/-- The loop of `sys_getcwd` that climbs to the root. -/
def climb (env : HeapEnv) : Nat → Nat → List UInt8 → HeapM (Option (List UInt8))
  | 0, _, _ => onFs (Prog.lift (.error (.fault "sys_getcwd")))
  | fuel + 1, childInodeNr, path => do
      if childInodeNr = 0 then
        return some path
      else
        let parentInodeNr ← getParentDirInodeNr env childInodeNr
        match ← getChildDirName env parentInodeNr childInodeNr path with
        | none => return none
        | some path => climb env fuel parentInodeNr path

/-- `sys_getcwd`: the buffer, nothing for `NULL`.  In the root directory `io_buf` is not
freed. -/
def sysGetcwd (env : HeapEnv) (buf : Mem) (size : Nat) : HeapM (Option Mem) := do
  match ← sysMalloc env sectorSize with
  | none => return none
  | some ioBuf =>
      let s ← get
      let childInodeNr := (s.fs.tasks s.fs.cur).cwdInodeNr
      onFs (assertFs (childInodeNr < 4096) "sys_getcwd"
        "child_inode_nr >= 0 && child_inode_nr < 4096")
      if childInodeNr = 0 then
        if 2 ≤ size then return some (buf.splice 0 (cstr [slash]) 2)
        else onFs (Prog.lift (.error (.fault "sys_getcwd")))
      else
        match ← climb env (maxPathLen + 1) childInodeNr [] with
        | none =>
            sysFree env ioBuf
            return none
        | some fullPathReverse =>
            onFs (assertFs (fullPathReverse.length ≤ size) "sys_getcwd"
              "strlen(full_path_reverse) <= size")
            let buf ← onFs (Prog.lift
              (reversePath size (maxPathLen + 1) fullPathReverse (buf.fill 0 0 size)))
            sysFree env ioBuf
            return some buf

/-! ### All calls -/

/-- What a task may ask for. -/
inductive AnyCall where
  | call (c : Call)
  | lseek (fd offset : Int) (whence : Nat)
  | chdir (path : List UInt8)
  | getcwd (buf : Mem) (size : Nat)
  | fork (child : Nat)

/-- A call of the running task, with the handles that are open. -/
def AnyCall.exec (env : HeapEnv) (handles : List (Nat × Dir)) :
    AnyCall → HeapM (List (Nat × Dir))
  | .call c => c.exec env handles
  | .lseek fd offset whence => do let _ ← onFs (sysLseek fd offset whence); return handles
  | .chdir path => do let _ ← sysChdir env path; return handles
  | .getcwd buf size => do let _ ← sysGetcwd env buf size; return handles
  | .fork child => do onFs (sysForkFiles child); return handles

/-- A call of task `t`. -/
def AnyCall.execBy (env : HeapEnv) (t : Nat) (handles : List (Nat × Dir)) (c : AnyCall) :
    HeapM (List (Nat × Dir)) := do
  modify fun s => { s with fs := { s.fs with cur := t } }
  c.exec env handles

end Heaps

/-- Only handles that are open are closed, by those who have them. -/
def HeapSys.Permits (s : HeapSys) : Nat × Heaps.AnyCall → Prop
  | (t, .call c) => s.Enabled (t, c)
  | _ => True

/-- One call. -/
def anyExec (env : HeapEnv) (a : Nat × Heaps.AnyCall) : Prog HeapSys HeapHalt Unit := fun s =>
  match a.2.execBy env a.1 s.handles s.heaps with
  | .ok (handles, heaps) => .ok ((), { heaps := heaps, handles := handles })
  | .error e => .error e

end ZyOs
