/-
How the shell gets a command: `readline` and `cmd_parse` of `shell/shell.c`.

A pointer into the line is its distance from the first byte.  What is printed is left out.  The
keyboard is a stream of bytes: `read(stdin_no, pos, 1)` waits for the next one and never fails,
so `readline` goes on byte by byte and is done at some point or still waiting.
-/
import ZyOs.Kernel.String
import Mathlib.Logic.Function.Basic

namespace ZyOs

open Library

/-! ### `readline` -/

/-- How `readline` returns: at an Enter, or behind the loop. -/
inductive LineEnd where
  | enter
  | noEnter
deriving DecidableEq

/-- `readline` in front of its next byte; memory lies on both sides of `buf`. -/
structure Readline where
  buf : Int → UInt8
  pos : Int
  done : Option LineEnd

namespace Readline

/-- The loop of the case `'u' - 'a'`, from `pos` down to the byte behind the first. -/
def clearDown : Nat → (Int → UInt8) → Int → UInt8
  | 0, buf => buf
  | pos + 1, buf => clearDown pos (Function.update buf (pos + 1 : Nat) 0)

/-- A round of the loop: one byte is read to where `pos` is and looked at. -/
def readByte (count : Nat) (s : Readline) (byte : UInt8) : Readline :=
  if s.done = none then
    let buf := Function.update s.buf s.pos byte
    if s.pos < count then
      -- '\n' and '\r'
      if byte = 10 ∨ byte = 13 then
        { s with buf := Function.update buf s.pos 0, done := some .enter }
      -- '\b'
      else if byte = 8 then
        { s with buf := buf, pos := if buf 0 ≠ 8 then s.pos - 1 else s.pos }
      -- 'l' - 'a'
      else if byte = 11 then
        { s with buf := Function.update buf s.pos 0 }
      -- 'u' - 'a'
      else if byte = 20 then
        { s with buf := clearDown s.pos.toNat buf, pos := 0 }
      else
        { s with buf := buf, pos := s.pos + 1 }
    else
      { s with buf := buf, done := some .noEnter }
  else
    s

/-- `readline` after the bytes that have been typed. -/
def readline (buf : Int → UInt8) (count : Nat) (typed : List UInt8) : Readline :=
  typed.foldl (readByte count) ⟨buf, 0, none⟩

end Readline

/-! ### `cmd_parse` -/

/-- `MAX_ARG_NR` -/
def maxArgNr : Nat := 16

/-- The first inner loop of `cmd_parse`. -/
def skipToken (cmdStr : Mem) (token : UInt8) : Nat → Nat → Kernel Nat
  | 0, _ => .error (.fault "cmd_parse")
  | left + 1, next =>
      if cmdStr next = token then skipToken cmdStr token left (next + 1) else return next

/-- The second inner loop. -/
def skipWord (cmdStr : Mem) (token : UInt8) : Nat → Nat → Kernel Nat
  | 0, _ => .error (.fault "cmd_parse")
  | left + 1, next =>
      if cmdStr next ≠ 0 ∧ cmdStr next ≠ token then skipWord cmdStr token left (next + 1)
      else return next

/-- The outer loop, which never comes to a nineteenth round.  `argv` is what lies at the array
and behind it. -/
def parseLoop (token : UInt8) : Nat → Mem → (Nat → Option Nat) → Nat → Nat →
    Kernel (Int × Mem × (Nat → Option Nat))
  | 0, _, _, _, _ => .error (.hang "cmd_parse")
  | rounds + 1, cmdStr, argv, argc, next =>
      if cmdStr next = 0 then return (argc, cmdStr, argv)
      else do
        let next ← skipToken cmdStr token addrSpace next
        if cmdStr next = 0 then return (argc, cmdStr, argv)
        else
          let argv := Function.update argv argc (some next)
          let next ← skipWord cmdStr token addrSpace next
          let (cmdStr, next) :=
            if cmdStr next ≠ 0 then (Function.update cmdStr next 0, next + 1) else (cmdStr, next)
          if maxArgNr < argc then return (-1, cmdStr, argv)
          else parseLoop token rounds cmdStr argv (argc + 1) next

/-- `cmd_parse`: the result, the line and `argv` afterwards. -/
def cmdParse (cmdStr : Mem) (argv : Nat → Option Nat) (token : UInt8) :
    Kernel (Int × Mem × (Nat → Option Nat)) :=
  parseLoop token (maxArgNr + 3) cmdStr (fun k => if k < maxArgNr then none else argv k) 0 0

end ZyOs
