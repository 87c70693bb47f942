/-
The part of the IA-32 processor that stacks, calls and interrupts use.

`Registers` is what a program sees of the processor, and a `Cpu` is that with the memory.  The
memory is the dwords by the address of their first byte; nothing here depends on how dwords at
odd addresses overlap.  `exec` is one instruction and `run` a piece of straight-line code.  `eip`
is kept where control leaves such a piece: it is then the address execution goes on at.

The stack is spoken of by what lies on it from the top (`OnStack`): the rules for `push` and for
the instructions that pop say how that list changes, and `pushes` is the normal form of a piece
that only pushes.
-/
import Mathlib.Data.UInt
import Mathlib.Logic.Function.Basic
import Mathlib.Tactic

namespace Library.Ia32

abbrev Dwords := UInt32 → UInt32

inductive Reg where
  | eax | ecx | edx | ebx | esp | ebp | esi | edi
deriving DecidableEq

inductive Seg where
  | es | cs | ss | ds | fs | gs
deriving DecidableEq

@[ext] structure Registers where
  reg : Reg → UInt32
  seg : Seg → UInt16
  eip : UInt32
  eflags : UInt32

@[ext] structure Cpu extends Registers where
  mem : Dwords

namespace Registers

def setReg (c : Registers) (r : Reg) (w : UInt32) : Registers :=
  { c with reg := Function.update c.reg r w }

/-- The current privilege level. -/
def cpl (c : Registers) : UInt16 := c.seg .cs &&& 3

end Registers

/-! ### Instructions -/

/-- What an operand in memory is named by. -/
inductive Operand where
  | abs (a : UInt32)
  | disp (base : Reg) (d : UInt32)
  /-- `[a + r*4]` -/
  | index (a : UInt32) (r : Reg)

inductive Instr where
  | nop
  | pushReg (r : Reg)
  | pushImm (w : UInt32)
  | pushSeg (s : Seg)
  | popReg (r : Reg)
  | popSeg (s : Seg)
  | pushad
  | popad
  /-- `mov r, [op]` -/
  | load (r : Reg) (op : Operand)
  /-- `mov [op], r` -/
  | store (op : Operand) (r : Reg)
  /-- `mov al, b` -/
  | movAl (b : UInt8)
  /-- `out port, al` -/
  | outAl (port : UInt8)
  | add (r : Reg) (w : UInt32)
  /-- `call [op]`, with the address of the instruction behind it -/
  | call (next : UInt32) (op : Operand)
  | jmp (a : UInt32)
  | ret
  | iretd

namespace Cpu

def setReg (c : Cpu) (r : Reg) (w : UInt32) : Cpu := { c with reg := Function.update c.reg r w }

def setSeg (c : Cpu) (s : Seg) (w : UInt16) : Cpu := { c with seg := Function.update c.seg s w }

def store (c : Cpu) (a w : UInt32) : Cpu := { c with mem := Function.update c.mem a w }

def goto (c : Cpu) (a : UInt32) : Cpu := { c with eip := a }

def addr (c : Cpu) : Operand → UInt32
  | .abs a => a
  | .disp base d => c.reg base + d
  | .index a r => a + c.reg r * 4

/-- `push w` -/
def push (c : Cpu) (w : UInt32) : Cpu :=
  (c.setReg .esp (c.reg .esp - 4)).store (c.reg .esp - 4) w

/-- The dword `n` bytes above the top of the stack. -/
def peek (c : Cpu) (n : UInt32) : UInt32 := c.mem (c.reg .esp + n)

/-- `add esp, n` -/
def drop (c : Cpu) (n : UInt32) : Cpu := c.setReg .esp (c.reg .esp + n)

/-- `push` of each, the first one first. -/
def pushes (c : Cpu) : List UInt32 → Cpu
  | [] => c
  | w :: ws => (c.push w).pushes ws

/-- `pushad`: what is pushed for `esp` is its value before. -/
def pushad (c : Cpu) : Cpu :=
  c.pushes [c.reg .eax, c.reg .ecx, c.reg .edx, c.reg .ebx, c.reg .esp, c.reg .ebp, c.reg .esi,
    c.reg .edi]

/-- `popad`: the value for `esp` is thrown away. -/
def popad (c : Cpu) : Cpu :=
  { c with reg := fun
      | .edi => c.peek 0
      | .esi => c.peek 4
      | .ebp => c.peek 8
      | .ebx => c.peek 16
      | .edx => c.peek 20
      | .ecx => c.peek 24
      | .eax => c.peek 28
      | .esp => c.reg .esp + 32 }

/-- `iretd`: to an outer level the stack is switched too.  (The data segments of an inner level
that the processor clears on the way are left out.) -/
def iretd (c : Cpu) : Cpu :=
  let cs := (c.peek 4).toUInt16
  let c' : Cpu := { ((c.drop 12).setSeg .cs cs) with eip := c.peek 0, eflags := c.peek 8 }
  if c.cpl < cs &&& 3 then (c'.setReg .esp (c.peek 12)).setSeg .ss (c.peek 16).toUInt16 else c'

def exec (c : Cpu) : Instr → Cpu
  | .nop => c
  | .pushReg r => c.push (c.reg r)
  | .pushImm w => c.push w
  | .pushSeg s => c.push (c.seg s).toUInt32
  | .popReg r => (c.drop 4).setReg r (c.peek 0)
  | .popSeg s => (c.drop 4).setSeg s (c.peek 0).toUInt16
  | .pushad => c.pushad
  | .popad => c.popad
  | .load r op => c.setReg r (c.mem (c.addr op))
  | .store op r => c.store (c.addr op) (c.reg r)
  | .movAl b => c.setReg .eax (c.reg .eax &&& 0xffffff00 ||| b.toUInt32)
  | .outAl _ => c
  | .add r w => c.setReg r (c.reg r + w)
  | .call next op => (c.push next).goto (c.mem (c.addr op))
  | .jmp a => c.goto a
  | .ret => (c.drop 4).goto (c.peek 0)
  | .iretd => c.iretd

/-- Straight-line code. -/
def run (c : Cpu) : List Instr → Cpu
  | [] => c
  | i :: is => (c.exec i).run is

end Cpu

/-! ### Interrupts -/

/-- An interrupt gate. -/
structure Gate where
  selector : UInt16
  offset : UInt32

/-- What of the TSS an interrupt uses. -/
structure Tss where
  esp0 : UInt32
  ss0 : UInt16

/-- The flags an interrupt gate leaves: all but TF, IF, NT, RF and VM. -/
def gateFlags (eflags : UInt32) : UInt32 := eflags &&& ~~~ 0x34300

/-- What the processor pushes, the first one first: from an outer level the stack it leaves, and
with some exceptions an error code. -/
def Registers.interrupted (c : Registers) (err : Option UInt32) : List UInt32 :=
  (if 0 < c.cpl then [(c.seg .ss).toUInt32, c.reg .esp] else []) ++
    [c.eflags, (c.seg .cs).toUInt32, c.eip] ++ err.toList

/-- An interrupt through `g`; from an outer level the stack is the one in the TSS. -/
def Cpu.interrupt (c : Cpu) (g : Gate) (tss : Tss) (err : Option UInt32) : Cpu :=
  let c' := if 0 < c.cpl then (c.setReg .esp tss.esp0).setSeg .ss tss.ss0 else c
  { ((c'.pushes (c.interrupted err)).setSeg .cs g.selector) with
    eip := g.offset
    eflags := gateFlags c.eflags }

/-! ### What lies on the stack -/

/-- From `sp` on the memory holds these dwords. -/
def OnStack (mem : Dwords) (sp : UInt32) : List UInt32 → Prop
  | [] => True
  | w :: ws => mem sp = w ∧ OnStack mem (sp + 4) ws

/-- The memory is the same from `lo` on, for `n` bytes. -/
def Spared (mem mem' : Dwords) (lo n : UInt32) : Prop := ∀ a, a - lo < n → mem' a = mem a

variable {c c' : Cpu} {mem mem' mem'' : Dwords} {sp a lo lo' n n' w : UInt32} {l l' ws : List UInt32}
  {r r' : Reg} {s s' : Seg}

namespace Cpu

@[simp] theorem setReg_reg : (c.setReg r w).reg = Function.update c.reg r w := rfl
@[simp] theorem setReg_seg : (c.setReg r w).seg = c.seg := rfl
@[simp] theorem setReg_eip : (c.setReg r w).eip = c.eip := rfl
@[simp] theorem setReg_eflags : (c.setReg r w).eflags = c.eflags := rfl
@[simp] theorem setReg_mem : (c.setReg r w).mem = c.mem := rfl
@[simp] theorem setSeg_reg {v : UInt16} : (c.setSeg s v).reg = c.reg := rfl
@[simp] theorem setSeg_seg {v : UInt16} : (c.setSeg s v).seg = Function.update c.seg s v := rfl
@[simp] theorem setSeg_eip {v : UInt16} : (c.setSeg s v).eip = c.eip := rfl
@[simp] theorem setSeg_eflags {v : UInt16} : (c.setSeg s v).eflags = c.eflags := rfl
@[simp] theorem setSeg_mem {v : UInt16} : (c.setSeg s v).mem = c.mem := rfl
@[simp] theorem store_toRegisters : (c.store a w).toRegisters = c.toRegisters := rfl
@[simp] theorem store_mem : (c.store a w).mem = Function.update c.mem a w := rfl
@[simp] theorem goto_reg : (c.goto a).reg = c.reg := rfl
@[simp] theorem goto_seg : (c.goto a).seg = c.seg := rfl
@[simp] theorem goto_eip : (c.goto a).eip = a := rfl
@[simp] theorem goto_eflags : (c.goto a).eflags = c.eflags := rfl
@[simp] theorem goto_mem : (c.goto a).mem = c.mem := rfl
@[simp] theorem push_reg : (c.push w).reg = Function.update c.reg .esp (c.reg .esp - 4) := rfl
@[simp] theorem push_seg : (c.push w).seg = c.seg := rfl
@[simp] theorem push_eip : (c.push w).eip = c.eip := rfl
@[simp] theorem push_eflags : (c.push w).eflags = c.eflags := rfl
@[simp] theorem push_mem : (c.push w).mem = Function.update c.mem (c.reg .esp - 4) w := rfl
@[simp] theorem drop_reg : (c.drop n).reg = Function.update c.reg .esp (c.reg .esp + n) := rfl
@[simp] theorem drop_seg : (c.drop n).seg = c.seg := rfl
@[simp] theorem drop_eip : (c.drop n).eip = c.eip := rfl
@[simp] theorem drop_eflags : (c.drop n).eflags = c.eflags := rfl
@[simp] theorem drop_mem : (c.drop n).mem = c.mem := rfl
@[simp] theorem peek_eq : c.peek n = c.mem (c.reg .esp + n) := rfl

@[simp] theorem run_nil : c.run [] = c := rfl
@[simp] theorem run_cons {i : Instr} {is : List Instr} : c.run (i :: is) = (c.exec i).run is := rfl

theorem run_append {is js : List Instr} : c.run (is ++ js) = (c.run is).run js := by
  induction is generalizing c with
  | nil => rfl
  | cons i is ih => exact ih

@[simp] theorem pushes_nil : c.pushes [] = c := rfl
@[simp] theorem pushes_cons : c.pushes (w :: ws) = (c.push w).pushes ws := rfl

theorem pushes_append : c.pushes (l ++ l') = (c.pushes l).pushes l' := by
  induction l generalizing c with
  | nil => rfl
  | cons w l ih => exact ih

end Cpu

/-! ### Dwords in memory -/

theorem spared_trans (h : Spared mem mem' lo n) (h' : Spared mem' mem'' lo n) : Spared mem mem'' lo n := by
  intro a ha
  rw [h' a ha, h a ha]

/-- A store outside. -/
theorem spared_update (ha : n ≤ a - lo) : Spared mem (Function.update mem a w) lo n := by
  intro b hb
  have hne : b ≠ a := by
    rintro rfl
    exact absurd hb (UInt32.not_lt.mpr ha)
  rw [Function.update_of_ne hne]

theorem OnStack.append (h : OnStack mem sp l) (h' : OnStack mem (sp + 4 * UInt32.ofNat l.length) l') :
    OnStack mem sp (l ++ l') := by
  induction l generalizing sp with
  | nil => simpa using h'
  | cons w l ih =>
      refine ⟨h.1, ih h.2 ?_⟩
      have hsp : sp + 4 * UInt32.ofNat (w :: l).length = sp + 4 + 4 * UInt32.ofNat l.length := by
        rw [List.length_cons, UInt32.ofNat_add, show UInt32.ofNat 1 = 1 from rfl]
        grind
      rwa [hsp] at h'

theorem OnStack.left (h : OnStack mem sp (l ++ l')) : OnStack mem sp l := by
  induction l generalizing sp with
  | nil => trivial
  | cons w l ih => exact ⟨h.1, ih h.2⟩

/-- What is on the stack is there as long as its part of the memory is kept. -/
theorem OnStack.spared (h : OnStack mem sp l) (hk : Spared mem mem' lo n)
    (hlo : (sp - lo).toNat + 4 * l.length ≤ n.toNat) : OnStack mem' sp l := by
  induction l generalizing sp with
  | nil => trivial
  | cons w l ih =>
      rw [List.length_cons] at hlo
      have hsp : sp - lo < n := by
        rw [UInt32.lt_iff_toNat_lt]
        omega
      have hnext : sp + 4 - lo = sp - lo + 4 := by grind
      refine ⟨(hk sp hsp).trans h.1, ih h.2 ?_⟩
      have hn := n.toNat_lt
      rw [hnext, UInt32.toNat_add, show (4 : UInt32).toNat = 4 from rfl, Nat.mod_eq_of_lt (by omega)]
      omega

/-- A store elsewhere. -/
theorem OnStack.update (h : OnStack mem sp l) (ha : 4 * l.length ≤ (a - sp).toNat) :
    OnStack (Function.update mem a w) sp l := by
  apply h.spared (spared_update (UInt32.le_refl (a - sp)))
  simpa using ha

/-! ### Pushing -/

theorem onStack_push (h : OnStack c.mem (c.reg .esp) l) (hl : 4 * l.length + 4 ≤ 2 ^ 32) :
    OnStack (c.push w).mem ((c.push w).reg .esp) (w :: l) := by
  simp only [Cpu.push_mem, Cpu.push_reg, Function.update_self]
  refine ⟨Function.update_self .., ?_⟩
  rw [UInt32.sub_add_cancel]
  apply h.update
  have hval : c.reg .esp - 4 - c.reg .esp = 0xfffffffc := by grind
  rw [hval]
  show _ ≤ 2 ^ 32 - 4
  omega

theorem onStack_pushes (h : OnStack c.mem (c.reg .esp) l)
    (hl : 4 * (ws.length + l.length) ≤ 2 ^ 32) :
    OnStack (c.pushes ws).mem ((c.pushes ws).reg .esp) (ws.reverse ++ l) := by
  induction ws generalizing c l with
  | nil => exact h
  | cons w ws ih =>
      rw [List.length_cons] at hl
      rw [Cpu.pushes_cons, List.reverse_cons, List.append_assoc]
      have hroom : 4 * (ws.length + (w :: l).length) ≤ 2 ^ 32 := by
        rw [List.length_cons]
        omega
      exact ih (l := w :: l) (onStack_push h (by omega)) hroom

theorem pushes_esp : (c.pushes ws).reg .esp = c.reg .esp - 4 * UInt32.ofNat ws.length := by
  induction ws generalizing c with
  | nil => simp
  | cons w ws ih =>
      rw [Cpu.pushes_cons, ih, Cpu.push_reg, Function.update_self, List.length_cons, UInt32.ofNat_add]
      rw [show UInt32.ofNat 1 = 1 from rfl]
      grind

theorem pushes_reg (h : r ≠ .esp) : (c.pushes ws).reg r = c.reg r := by
  induction ws generalizing c with
  | nil => rfl
  | cons w ws ih => rw [Cpu.pushes_cons, ih, Cpu.push_reg, Function.update_of_ne h]

@[simp] theorem pushes_seg : (c.pushes ws).seg = c.seg := by
  induction ws generalizing c with
  | nil => rfl
  | cons w ws ih => exact ih

@[simp] theorem pushes_eip : (c.pushes ws).eip = c.eip := by
  induction ws generalizing c with
  | nil => rfl
  | cons w ws ih => exact ih

@[simp] theorem pushes_eflags : (c.pushes ws).eflags = c.eflags := by
  induction ws generalizing c with
  | nil => rfl
  | cons w ws ih => exact ih

theorem setReg_push (h : r ≠ .esp) : (c.setReg r w).push a = (c.push a).setReg r w := by
  apply Cpu.ext
  · simp only [Cpu.push_reg, Cpu.setReg_reg]
    rw [Function.update_of_ne h.symm, Function.update_comm h]
  · rfl
  · rfl
  · rfl
  · simp only [Cpu.push_mem, Cpu.setReg_reg, Cpu.setReg_mem]
    rw [Function.update_of_ne h.symm]

/-- A register that is written before may be written afterwards. -/
theorem setReg_pushes (h : r ≠ .esp) : (c.setReg r w).pushes ws = (c.pushes ws).setReg r w := by
  induction ws generalizing c with
  | nil => rfl
  | cons w' ws ih => rw [Cpu.pushes_cons, setReg_push h, ih, Cpu.pushes_cons]

/-- Pushing depends on the stack pointer and the memory only. -/
theorem pushes_congr (hmem : c.mem = c'.mem) (hesp : c.reg .esp = c'.reg .esp) :
    (c.pushes ws).mem = (c'.pushes ws).mem := by
  induction ws generalizing c c' with
  | nil => exact hmem
  | cons w ws ih =>
      apply ih
      · rw [Cpu.push_mem, Cpu.push_mem, hmem, hesp]
      · simp [hesp]

/-- Pushing writes below the top only. -/
theorem pushes_mem (ha : 4 * ws.length ≤ (c.reg .esp - 1 - a).toNat) :
    (c.pushes ws).mem a = c.mem a := by
  induction ws generalizing c with
  | nil => rfl
  | cons w ws ih =>
      rw [List.length_cons] at ha
      have hsub : c.reg .esp - 4 - 1 - a = c.reg .esp - 1 - a - 4 := by grind
      have hne : a ≠ c.reg .esp - 4 := by
        rintro rfl
        have hval : c.reg .esp - 1 - (c.reg .esp - 4) = 3 := by grind
        rw [hval] at ha
        change 4 * (ws.length + 1) ≤ 3 at ha
        omega
      rw [Cpu.pushes_cons, ih, Cpu.push_mem, Function.update_of_ne hne]
      rw [Cpu.push_reg, Function.update_self, hsub, UInt32.toNat_sub_of_le]
      · show _ ≤ _ - 4
        omega
      · rw [UInt32.le_iff_toNat_le]
        show 4 ≤ _
        omega

/-- Pushing keeps what lies from some place above the top on. -/
theorem spared_pushes
    (h : (lo - c.reg .esp).toNat + n.toNat + 4 * ws.length ≤ 2 ^ 32) :
    Spared c.mem (c.pushes ws).mem lo n := by
  intro a ha
  have hlt : (a - lo).toNat < n.toNat := UInt32.lt_iff_toNat_lt.mp ha
  have hval : c.reg .esp - 1 - a = 0xffffffff - ((lo - c.reg .esp) + (a - lo)) := by
    rw [show (0xffffffff : UInt32) = 0 - 1 from rfl]
    grind
  apply pushes_mem
  have hsum : ((lo - c.reg .esp) + (a - lo)).toNat = (lo - c.reg .esp).toNat + (a - lo).toNat := by
    rw [UInt32.toNat_add, Nat.mod_eq_of_lt (by omega)]
  rw [hval, UInt32.toNat_sub_of_le, hsum]
  · show _ ≤ 2 ^ 32 - 1 - _
    omega
  · rw [UInt32.le_iff_toNat_le, hsum]
    show _ ≤ 2 ^ 32 - 1
    omega

end Library.Ia32
