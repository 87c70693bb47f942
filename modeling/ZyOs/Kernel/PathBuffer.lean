/-
The callers of `path_parse` with `path_parse` as a parameter.

`path_parse` copies a name into the buffer of its caller and knows nothing of its size.  To
say what the calls store, the functions that make them are written here once more, over
whatever stands in for `path_parse`: with the one of `fs/fs.c` they are the functions as they
are, with `parseChecked` they stop at the first call that leaves no room for a terminator.
-/
import ZyOs.Kernel.Shell

namespace ZyOs

open Library

/-- What may stand in for `path_parse`: a path to a name and the rest, or a stop. -/
abbrev PathParse := List UInt8 → Kernel (List UInt8 × Option (List UInt8))

/-- A call stored a name that leaves no room for its terminator. -/
def overrun : Halt := .fault "path_parse"

/-- `path_parse`, when it must leave room for a terminator. -/
def parseChecked : PathParse := fun pathname =>
  if (pathParse pathname).1.length ≤ maxFileNameLen - 1 then .ok (pathParse pathname)
  else .error overrun

/-- The step of a loop to the next name. -/
def nextName (parse : PathParse) : Option (List UInt8) → Kernel (List UInt8 × Option (List UInt8))
  | some p => parse p
  | none => return ([], none)

/-- The loop of `path_depth_cnt`. -/
def depthLoopWith (parse : PathParse) : Nat → Option (List UInt8) → Nat → Kernel Nat
  | 0, _, depth => return depth
  | fuel + 1, p, depth => do
      let (name, p) ← nextName parse p
      if name = [] then return depth + 1
      else depthLoopWith parse fuel p (depth + 1)

/-- `path_depth_cnt` -/
def pathDepthCntWith (parse : PathParse) (pathname : List UInt8) : Kernel Nat := do
  let (name, p) ← parse pathname
  if name = [] then .error (.fault "path_depth_cnt")
  else depthLoopWith parse (pathname.length + 1) p 0

/-- The loop of `wash_path`. -/
def washLoopWith (parse : PathParse) : Nat → Option (List UInt8) → List UInt8 → List UInt8 →
    Kernel (List UInt8)
  | 0, _, _, newAbsPath => return newAbsPath
  | fuel + 1, subPath, name, newAbsPath =>
      if name = [] then return newAbsPath
      else if maxFileNameLen ≤ name.length then .error (.fault "wash_path")
      else do
        let (name', subPath) ← nextName parse subPath
        washLoopWith parse fuel subPath name' (washName newAbsPath name)

/-- `wash_path` -/
def washPathWith (parse : PathParse) (oldAbsPath : List UInt8) : Kernel (List UInt8) := do
  ASSERT (oldAbsPath.head? = some slash) "wash_path" "old_abs_path[0] == '/'"
  let (name, subPath) ← parse oldAbsPath
  if name = [] then return [slash]
  else washLoopWith parse (oldAbsPath.length + 1) subPath name [slash]

/-- The loop of `search_file`. -/
def searchLoopWith (parse : PathParse) (env : FsEnv) : Nat → Option (List UInt8) → List UInt8 →
    PathSearchRecord → UInt32 → UInt32 → FsM (Int × PathSearchRecord)
  | 0, _, _, r, _, _ => return (-1, r)
  | fuel + 1, subPath, name, r, parentInodeNo, dirE => do
      if name = [] then
        dirClose r.parentDir
        let parentDir ← dirOpen env parentInodeNo.toNat
        return (int32 dirE.toNat, { r with parentDir := parentDir, fileType := ftDirectory })
      else
        assertFs (r.searchedPath.length < 512) "search_file"
          "strlen(searched_record->searched_path) < 512"
        if maxFileNameLen ≤ name.length then
          Prog.lift (.error (.fault "search_file"))
        else
          let r := { r with searchedPath := r.searchedPath ++ slash :: name }
          match ← searchDirEntry (r.parentDir.inode (← get)) name with
          | none => return (-1, r)
          | some e =>
              let (name, subPath) ← Prog.lift (nextName parse subPath)
              if e.fType = ftDirectory then
                let s ← get
                let parentInodeNo := (s.inodes (r.parentDir.inode s)).iNo
                dirClose r.parentDir
                let parentDir ← dirOpen env e.iNo.toNat
                searchLoopWith parse env fuel subPath name { r with parentDir := parentDir }
                  parentInodeNo e.iNo
              else if e.fType = ftRegular then
                return (int32 e.iNo.toNat, { r with fileType := ftRegular })
              else
                searchLoopWith parse env fuel subPath name r parentInodeNo e.iNo

/-- `search_file` -/
def searchFileWith (parse : PathParse) (env : FsEnv) (pathname : List UInt8) :
    FsM (Int × PathSearchRecord) := do
  if strncmp (cstr pathname) (cstr [slash]) 1 0 = 0 ∨
      strncmp (cstr pathname) (cstr [slash, 46]) 2 0 = 0 ∨
      strncmp (cstr pathname) (cstr [slash, 46, 46]) 3 0 = 0 then
    return (0, { searchedPath := [], parentDir := .root, fileType := ftDirectory })
  else
    assertFs (pathname.head? = some slash ∧ 1 < pathname.length ∧ pathname.length < 512)
      "search_file" "pathname[0] == '/' && path_len > 1 && path_len < MAX_PATH_LEN"
    let (name, subPath) ← Prog.lift (parse pathname)
    searchLoopWith parse env (pathname.length + 1) subPath name
      { searchedPath := [], parentDir := .root, fileType := ftUnknown } 0 env.junk

end ZyOs
