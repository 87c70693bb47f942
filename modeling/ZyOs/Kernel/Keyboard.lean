/-
`intr_keyboard_handler` of `device/keyboard.c`.

An interrupt brings one byte.  What the handler puts into `kbd_buf` is its second result; whether
the ring is full then is an argument.
-/
import Mathlib.Data.UInt

namespace ZyOs

/-- The five flags. -/
structure Keyboard where
  ctrlStatus : Bool
  shiftStatus : Bool
  altStatus : Bool
  capsLockStatus : Bool
  extScanCode : Bool
deriving DecidableEq

def shiftLMake : UInt16 := 0x2a
def shiftRMake : UInt16 := 0x36
def altLMake : UInt16 := 0x38
def altRMake : UInt16 := 0xe038
def ctrlLMake : UInt16 := 0x1d
def ctrlRMake : UInt16 := 0xe01d
def capsLockMake : UInt16 := 0x3a

/-- `keymap`: the character of a key without shift and with it. -/
def keymap : List (UInt8 × UInt8) :=
  [(0, 0), (0x1b, 0x1b),
    -- 1 to 0, minus, equals
    (49, 33), (50, 64), (51, 35), (52, 36), (53, 37), (54, 94), (55, 38), (56, 42), (57, 40),
    (48, 41), (45, 95), (61, 43),
    -- backspace, tab
    (8, 8), (9, 9),
    -- q to p, brackets, enter, left ctrl
    (113, 81), (119, 87), (101, 69), (114, 82), (116, 84), (121, 89), (117, 85), (105, 73),
    (111, 79), (112, 80), (91, 123), (93, 125), (13, 13), (0, 0),
    -- a to l, semicolon, quote, backquote, left shift, backslash
    (97, 65), (115, 83), (100, 68), (102, 70), (103, 71), (104, 72), (106, 74), (107, 75),
    (108, 76), (59, 58), (39, 34), (96, 126), (0, 0), (92, 124),
    -- z to m, comma, period, slash, right shift
    (122, 90), (120, 88), (99, 67), (118, 86), (98, 66), (110, 78), (109, 77), (44, 60), (46, 62),
    (47, 63), (0, 0),
    -- keypad star, left alt, space, caps lock
    (42, 42), (0, 0), (32, 32), (0, 0)]

/-- `keymap[index][shift]` -/
def keymapAt (index : UInt8) (shift : Bool) : UInt8 :=
  let entry := keymap.getD index.toNat (0, 0)
  if shift then entry.2 else entry.1

/-- The keys the handler does not take for letters. -/
def isTwoCharKey (scanCode : UInt16) : Prop :=
  scanCode < 0x0e ∨ scanCode = 0x29 ∨ scanCode = 0x1a ∨ scanCode = 0x1b ∨ scanCode = 0x2b ∨
    scanCode = 0x27 ∨ scanCode = 0x28 ∨ scanCode = 0x33 ∨ scanCode = 0x34 ∨ scanCode = 0x35

instance (scanCode : UInt16) : Decidable (isTwoCharKey scanCode) :=
  inferInstanceAs (Decidable (_ ∨ _))

namespace Keyboard

/-- A key is let go. -/
def breakCode (s : Keyboard) (makeCode : UInt16) : Keyboard :=
  if makeCode = ctrlLMake ∨ makeCode = ctrlRMake then { s with ctrlStatus := false }
  else if makeCode = shiftLMake ∨ makeCode = shiftRMake then { s with shiftStatus := false }
  else if makeCode = altLMake ∨ makeCode = altRMake then { s with altStatus := false }
  else s

/-- A key without a character is pressed. -/
def controlKey (s : Keyboard) (scanCode : UInt16) : Keyboard :=
  if scanCode = ctrlLMake ∨ scanCode = ctrlRMake then { s with ctrlStatus := true }
  else if scanCode = shiftLMake ∨ scanCode = shiftRMake then { s with shiftStatus := true }
  else if scanCode = altLMake ∨ scanCode = altRMake then { s with altStatus := true }
  else if scanCode = capsLockMake then { s with capsLockStatus := !s.capsLockStatus }
  else s

/-- `intr_keyboard_handler` -/
def intrKeyboardHandler (s : Keyboard) (byte : UInt8) (full : Bool) : Keyboard × Option UInt8 :=
  let scanCode := byte.toUInt16
  if scanCode = 0xe0 then
    ({ s with extScanCode := true }, none)
  else
    let scanCode := if s.extScanCode then 0xe000 ||| scanCode else scanCode
    let s := { s with extScanCode := false }
    if scanCode &&& 0x80 ≠ 0 then
      (s.breakCode (scanCode &&& 0xff7f), none)
    else if (0 < scanCode ∧ scanCode < 0x3b) ∨ scanCode = altRMake ∨ scanCode = ctrlRMake then
      let shift :=
        if isTwoCharKey scanCode then s.shiftStatus
        else if s.shiftStatus ∧ s.capsLockStatus then false
        else if s.shiftStatus ∨ s.capsLockStatus then true
        else false
      -- the high byte is gone from here on
      let scanCode := scanCode &&& 0x00ff
      let curChar := keymapAt scanCode.toUInt8 shift
      if curChar ≠ 0 then
        (s, if full then none else some curChar)
      else
        (s.controlKey scanCode, none)
    else
      (s, none)

/-- What a run of interrupts leaves and puts into the ring. -/
def interrupts : Keyboard → List (UInt8 × Bool) → Keyboard × List UInt8
  | s, [] => (s, [])
  | s, (byte, full) :: rest =>
      let (s, c) := s.intrKeyboardHandler byte full
      let (s, cs) := interrupts s rest
      (s, c.toList ++ cs)

end Keyboard

/-- The flags start out clear. -/
def keyboardInit : Keyboard := ⟨false, false, false, false, false⟩

end ZyOs
