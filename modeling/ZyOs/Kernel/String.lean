/-
The part of `lib/string.c` names and lines are compared, measured and copied with.

A C string is a list of bytes without the terminator; `cstr` is the memory a
pointer to it sees, with zeros behind it.  A loop that looks for the terminator may come to
the end of the addresses.
-/
import ZyOs.Kernel.Debug
import ZyOs.Library.Bytes

namespace ZyOs

open Library

/-- The memory behind a pointer to a C string. -/
def cstr (l : List UInt8) : Mem := fun k => l.getD k 0

/-- A byte as the signed `char` it is. -/
def charVal (b : UInt8) : Int := b.toInt8.toInt

/-- `strncmp`.  When the count runs out the two bytes behind the last pair compared
still decide, so a longer string differs from its own beginning. -/
def strncmp (a b : Mem) : Nat → Nat → Int
  | 0, i => if charVal (a i) < charVal (b i) then -1 else if charVal (b i) < charVal (a i) then 1
      else 0
  | size + 1, i =>
      if a i ≠ 0 ∧ a i = b i then strncmp a b size (i + 1)
      else strncmp a b 0 i

/-- How far a pointer can go. -/
def addrSpace : Nat := 2 ^ 32

/-- The loop of `strlen`, `left` bytes in front of the end of the addresses. -/
def strlenLoop (str : Mem) : Nat → Nat → Kernel Nat
  | 0, _ => .error (.fault "strlen")
  | left + 1, p => if str p = 0 then return p else strlenLoop str left (p + 1)

/-- `strlen` -/
def strlen (str : Mem) : Kernel Nat := strlenLoop str addrSpace 0

/-- `strncpy`, from byte `i` on. -/
def strncpy (dst src : Mem) : Nat → Nat → Mem
  | 0, _ => dst
  | size + 1, i =>
      if src i = 0 then Function.update dst i 0
      else strncpy (Function.update dst i (src i)) src size (i + 1)

/-- The second loop of `strcat`, which copies to `p` on. -/
def strcatLoop (src : Mem) : Nat → Nat → Nat → Mem → Kernel Mem
  | 0, _, _, _ => .error (.fault "strcat")
  | left + 1, p, i, dst =>
      if src i = 0 then return Function.update dst p 0
      else strcatLoop src left (p + 1) (i + 1) (Function.update dst p (src i))

/-- `strcat`, as what `dst` holds afterwards. -/
def strcat (dst src : Mem) : Kernel Mem := do
  let p ← strlenLoop dst addrSpace 0
  strcatLoop src addrSpace p 0 dst

end ZyOs
