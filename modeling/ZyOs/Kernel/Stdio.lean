/-
`lib/stdio.c`: `itoa` and `vsprintf`; `snprintf` passes everything on but the size.

The output is the buffer together with the pointer that is moved along it, counted from the
beginning of the buffer.  An argument is a word, or the memory a `char*` sees; one that does not
match its conversion is a read past what was passed.
-/
import Mathlib.Logic.Function.Basic
import ZyOs.Kernel.Bitmap
import ZyOs.Kernel.String

namespace ZyOs

open Library

/-- `str` and `buf_ptr` -/
structure Output where
  buf : Mem
  ptr : Nat

/-- `*(buf_ptr++) = c` -/
def Output.put (out : Output) (c : UInt8) : Output :=
  ⟨Function.update out.buf out.ptr c, out.ptr + 1⟩

/-- `itoa`, with at most `depth` calls on the stack: a base below 2 goes on for ever. -/
def itoa (base : Nat) : Nat → Nat → Output → Kernel Output
  | 0, _, _ => .error (.hang "itoa")
  | depth + 1, value, out =>
      if base = 0 then .error (.fault "itoa")
      else do
        let m := value % base
        let i := value / base
        let out ← if i ≠ 0 then itoa base depth i out else pure out
        if m < 10 then return out.put (UInt8.ofNat (m + 48))
        else return out.put (UInt8.ofNat (m - 10 + 65))

/-- The calls `itoa` needs for 32 bits. -/
def itoaDepth : Nat := 32

/-- What `va_arg` can take. -/
inductive VaArg where
  | str (s : Mem)
  | int (v : UInt32)

/-- `va_arg(ap, char*)` -/
def vaArgStr : List VaArg → Kernel (Mem × List VaArg)
  | .str s :: ap => .ok (s, ap)
  | _ => .error (.fault "vsprintf")

/-- `va_arg(ap, int)` and `va_arg(ap, char)` -/
def vaArgInt : List VaArg → Kernel (UInt32 × List VaArg)
  | .int v :: ap => .ok (v, ap)
  | _ => .error (.fault "vsprintf")

/-- The `switch` of `vsprintf`; nothing for a character that has no case. -/
def vsprintfSwitch (indexChar : UInt8) (ap : List VaArg) (out : Output) :
    Kernel (Option (List VaArg × Output)) := do
  -- 's'
  if indexChar = 115 then
    let (argStr, ap) ← vaArgStr ap
    let argStrLen ← strlen argStr
    let copied := strncpy (out.buf.drop out.ptr) argStr argStrLen 0
    return some (ap, ⟨out.buf.splice out.ptr copied argStrLen, out.ptr + argStrLen⟩)
  -- 'c'
  else if indexChar = 99 then
    let (v, ap) ← vaArgInt ap
    return some (ap, out.put (UInt8.ofNat v.toNat))
  -- 'd'
  else if indexChar = 100 then
    let (v, ap) ← vaArgInt ap
    if int32 v.toNat < 0 then
      return some (ap, ← itoa 10 itoaDepth (0 - v).toNat (out.put 45))
    else
      return some (ap, ← itoa 10 itoaDepth v.toNat out)
  -- 'x'
  else if indexChar = 120 then
    let (v, ap) ← vaArgInt ap
    return some (ap, ← itoa 16 itoaDepth v.toNat out)
  else
    return none

/-- The loop of `vsprintf`; `index_char` is what `index_ptr` points to. -/
def vsprintfLoop (format : Mem) : Nat → Nat → List VaArg → Output → Kernel Output
  | 0, _, _, _ => .error (.fault "vsprintf")
  | left + 1, indexPtr, ap, out =>
      if format indexPtr = 0 then return out
      -- '%'
      else if format indexPtr ≠ 37 then
        vsprintfLoop format left (indexPtr + 1) ap (out.put (format indexPtr))
      else do
        match ← vsprintfSwitch (format (indexPtr + 1)) ap out with
        | some (ap, out) => vsprintfLoop format left (indexPtr + 2) ap out
        | none => vsprintfLoop format left (indexPtr + 1) ap out

/-- `vsprintf`: the result and what the buffer holds. -/
def vsprintf (str format : Mem) (ap : List VaArg) : Kernel (Nat × Mem) := do
  let out ← vsprintfLoop format addrSpace 0 ap ⟨str, 0⟩
  let retval ← strlen out.buf
  return (retval, out.buf)

end ZyOs
