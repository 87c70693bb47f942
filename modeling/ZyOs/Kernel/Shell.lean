/-
The part of `shell/buildin_cmd.c` that cleans a path as text.

The new path is written into the caller's buffer of `MAX_PATH_LEN` bytes; it never gets
longer than the old one, so the buffer is a list here.
-/
import ZyOs.Kernel.Fs

namespace ZyOs

open Library

/-- `..` on the new path: it is cut at its last `/`, or behind the first. -/
def cutLast (newAbsPath : List UInt8) : List UInt8 :=
  let slashIdx := newAbsPath.length - (baseName newAbsPath).length - 1
  if slashIdx ≠ 0 then newAbsPath.take slashIdx else newAbsPath.take 1

/-- What `wash_path` does to the new path for one name. -/
def washName (newAbsPath name : List UInt8) : List UInt8 :=
  if strncmp (cstr [46, 46]) (cstr name) 2 0 = 0 then cutLast newAbsPath
  else if strncmp (cstr [46]) (cstr name) 1 0 ≠ 0 then
    (if strncmp (cstr newAbsPath) (cstr [slash]) 1 0 ≠ 0 then newAbsPath ++ [slash]
      else newAbsPath) ++ name
  else newAbsPath

/-- The loop of `wash_path`, entered with `name` in the buffer. -/
def washLoop : Nat → Option (List UInt8) → List UInt8 → List UInt8 → Kernel (List UInt8)
  | 0, _, _, newAbsPath => return newAbsPath
  | fuel + 1, subPath, name, newAbsPath =>
      if name = [] then return newAbsPath
      else if maxFileNameLen ≤ name.length then .error (.fault "wash_path")
      else do
        let (name', subPath) ← match subPath with
          | some p => parseName "wash_path" p
          | none => pure ([], none)
        washLoop fuel subPath name' (washName newAbsPath name)

/-- `wash_path` -/
def washPath (oldAbsPath : List UInt8) : Kernel (List UInt8) := do
  ASSERT (oldAbsPath.head? = some slash) "wash_path" "old_abs_path[0] == '/'"
  let (name, subPath) ← parseName "wash_path" oldAbsPath
  if name = [] then return [slash]
  else washLoop (oldAbsPath.length + 1) subPath name [slash]

end ZyOs
