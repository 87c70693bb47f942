/-
How the processor gets from one task to another: `thread/switch.s`, `kernel/kernel.s`, and the
functions of `thread/thread.c`, `user_process/fork.c`, `user_process/process.c` and
`user_process/exec.c` that write what this code pops.

The pieces of assembler are lists of instructions, in the order of the source.  `Text` are the
addresses they and the C functions stand at.  A task is the address of its PCB, with its kernel
stack in the same page.
-/
import ZyOs.Kernel.Debug
import ZyOs.Library.Ia32
import ZyOs.Library.Machine

namespace ZyOs.Switch

open Library Library.Ia32

/-- `PAGE_SIZE` -/
def pageSize : UInt32 := 4096

/-- `SELECTOR_K_CODE` -/
def selectorKCode : UInt16 := (1 : UInt16) <<< 3

/-- `SELECTOR_K_STACK` -/
def selectorKStack : UInt16 := (2 : UInt16) <<< 3

/-- `SELECTOR_U_CODE` -/
def selectorUCode : UInt16 := ((5 : UInt16) <<< 3) + 3

/-- `SELECTOR_U_DATA` -/
def selectorUData : UInt16 := ((6 : UInt16) <<< 3) + 3

/-- Where the code stands.  `intrRet` and `syscallRet` are the addresses behind the two `call`s of
`kernel.s`. -/
structure Text where
  kernelThread : UInt32
  intrExit : UInt32
  intrEntry : Fin 0x30 → UInt32
  intrRet : Fin 0x30 → UInt32
  syscallHandler : UInt32
  syscallRet : UInt32
  idtTable : UInt32
  syscallTable : UInt32
  intrRet_ne_intrExit : ∀ n, intrRet n ≠ intrExit
  intrRet_ne_syscallRet : ∀ n, intrRet n ≠ syscallRet
  syscallRet_ne_intrExit : syscallRet ≠ intrExit
  kernelThread_ne_intrExit : kernelThread ≠ intrExit
  kernelThread_ne_intrRet : ∀ n, kernelThread ≠ intrRet n
  kernelThread_ne_syscallRet : kernelThread ≠ syscallRet

/-- `eip` is at one of the places of `kernel.s` that a `ret` leads to. -/
def Text.IsAsm (x : Text) (eip : UInt32) : Prop :=
  eip = x.intrExit ∨ eip = x.syscallRet ∨ ∃ n, eip = x.intrRet n

instance (x : Text) (eip : UInt32) : Decidable (x.IsAsm eip) :=
  inferInstanceAs (Decidable (_ ∨ _ ∨ _))

/-! ### `switch.s` -/

/-- `switch_to(cur, next)` -/
def switchTo : List Instr :=
  [.pushReg .esi,
   .pushReg .edi,
   .pushReg .ebx,
   .pushReg .ebp,
   .load .eax (.disp .esp 20),
   .store (.disp .eax 0) .esp,
   .load .eax (.disp .esp 24),
   .load .esp (.disp .eax 0),
   .popReg .ebp,
   .popReg .ebx,
   .popReg .edi,
   .popReg .esi,
   .ret]

/-! ### `kernel.s` -/

/-- The vectors whose second argument of `VECTOR` is `ERROR_CODE`. -/
def errorCode (n : Fin 0x30) : Bool :=
  n.val ∈ [0x08, 0x0a, 0x0b, 0x0d, 0x0e, 0x11, 0x18, 0x1a, 0x1b, 0x1d, 0x1e]

/-- `intr%1entry`, up to the `call` -/
def vector (x : Text) (n : Fin 0x30) : List Instr :=
  [if errorCode n then .nop else .pushImm 0,
   .pushSeg .ds,
   .pushSeg .es,
   .pushSeg .fs,
   .pushSeg .gs,
   .pushad,
   .movAl 0x20,
   .outAl 0xa0,
   .outAl 0x20,
   .pushImm (UInt32.ofNat n.val),
   .call (x.intrRet n) (.abs (x.idtTable + UInt32.ofNat n.val * 4))]

/-- `intr%1entry`, behind the `call` -/
def vectorTail (x : Text) : List Instr := [.jmp x.intrExit]

/-- `intr_exit` -/
def intrExit : List Instr :=
  [.add .esp 4,
   .popad,
   .popSeg .gs,
   .popSeg .fs,
   .popSeg .es,
   .popSeg .ds,
   .add .esp 4,
   .iretd]

/-- `syscall_handler`, up to the `call` -/
def syscallHandler (x : Text) : List Instr :=
  [.pushImm 0,
   .pushSeg .ds,
   .pushSeg .es,
   .pushSeg .fs,
   .pushSeg .gs,
   .pushad,
   .pushImm 0x80,
   .pushReg .edx,
   .pushReg .ecx,
   .pushReg .ebx,
   .call x.syscallRet (.index x.syscallTable .eax)]

/-- `syscall_handler`, behind the `call` -/
def syscallTail (x : Text) : List Instr :=
  [.add .esp 12,
   .store (.disp .esp (8 * 4)) .eax,
   .jmp x.intrExit]

/-! ### `struct intr_stack` and `struct thread_stack` -/

/-- The fields of `struct intr_stack`. -/
inductive IntrField where
  | vecNo | edi | esi | ebp | espDummy | ebx | edx | ecx | eax | gs | fs | es | ds
  | errCode | eip | cs | eflags | esp | ss
deriving DecidableEq

namespace IntrField

def offset : IntrField → UInt32
  | vecNo => 0
  | edi => 4
  | esi => 8
  | ebp => 12
  | espDummy => 16
  | ebx => 20
  | edx => 24
  | ecx => 28
  | eax => 32
  | gs => 36
  | fs => 40
  | es => 44
  | ds => 48
  | errCode => 52
  | eip => 56
  | cs => 60
  | eflags => 64
  | esp => 68
  | ss => 72

end IntrField

/-- `sizeof(struct intr_stack)` -/
def sizeofIntrStack : UInt32 := 76

/-- The fields of `struct thread_stack`. -/
inductive ThreadField where
  | ebp | ebx | edi | esi | eip | unusedRetAddr | function | funcArg
deriving DecidableEq

def ThreadField.offset : ThreadField → UInt32
  | ebp => 0
  | ebx => 4
  | edi => 8
  | esi => 12
  | eip => 16
  | unusedRetAddr => 20
  | function => 24
  | funcArg => 28

/-- `sizeof(struct thread_stack)` -/
def sizeofThreadStack : UInt32 := 32

/-- The value of a field of the `struct intr_stack` at `a`. -/
def intrField (mem : Dwords) (a : UInt32) (f : IntrField) : UInt32 := mem (a + f.offset)

/-- Fields of the `struct intr_stack` at `a` are assigned, the first one first. -/
def setIntr (mem : Dwords) (a : UInt32) : List (IntrField × UInt32) → Dwords
  | [] => mem
  | (f, w) :: fs => setIntr (Function.update mem (a + f.offset) w) a fs

/-- Fields of the `struct thread_stack` at `a` are assigned. -/
def setThread (mem : Dwords) (a : UInt32) : List (ThreadField × UInt32) → Dwords
  | [] => mem
  | (f, w) :: fs => setThread (Function.update mem (a + f.offset) w) a fs

/-- The context `intr_exit` makes of the `struct intr_stack` at `a`, with an `iretd` to user
code. -/
def intrContext (mem : Dwords) (a : UInt32) : Registers where
  reg
    | .eax => intrField mem a .eax
    | .ecx => intrField mem a .ecx
    | .edx => intrField mem a .edx
    | .ebx => intrField mem a .ebx
    | .esp => intrField mem a .esp
    | .ebp => intrField mem a .ebp
    | .esi => intrField mem a .esi
    | .edi => intrField mem a .edi
  seg
    | .es => (intrField mem a .es).toUInt16
    | .cs => (intrField mem a .cs).toUInt16
    | .ss => (intrField mem a .ss).toUInt16
    | .ds => (intrField mem a .ds).toUInt16
    | .fs => (intrField mem a .fs).toUInt16
    | .gs => (intrField mem a .gs).toUInt16
  eip := intrField mem a .eip
  eflags := intrField mem a .eflags

/-! ### C code -/

/-- `running_thread` -/
def runningThread (c : Cpu) : UInt32 := c.reg .esp &&& 0xfffff000

/-- `init_thread`: where the stack begins. -/
def initStack (mem : Dwords) (pthread : UInt32) : Dwords :=
  Function.update mem pthread (pthread + pageSize)

/-- `thread_create`.  `self_kernel_stack` points to dwords, so what is subtracted from it counts
four times. -/
def threadCreate (x : Text) (mem : Dwords) (pthread function funcArg : UInt32) : Dwords :=
  let mem := Function.update mem pthread (mem pthread - 4 * sizeofIntrStack)
  let mem := Function.update mem pthread (mem pthread - 4 * sizeofThreadStack)
  let kthreadStack := mem pthread
  setThread mem kthreadStack
    [(.eip, x.kernelThread), (.function, function), (.funcArg, funcArg), (.ebp, 0), (.ebx, 0),
     (.esi, 0), (.edi, 0)]

/-- `start_process` up to the call of `get_a_page`. -/
def startProcess (mem : Dwords) (cur function : UInt32) : Dwords :=
  let mem := Function.update mem cur (mem cur + 4 * sizeofThreadStack)
  let procStack := mem cur
  setIntr mem procStack
    [(.espDummy, 0), (.ebp, 0), (.esi, 0), (.edi, 0), (.eax, 0), (.ecx, 0), (.edx, 0), (.ebx, 0),
     (.gs, 0), (.fs, selectorUData.toUInt32), (.es, selectorUData.toUInt32),
     (.ds, selectorUData.toUInt32), (.eip, function), (.cs, selectorUCode.toUInt32),
     (.eflags, 0x202)]

/-- `start_process` afterwards, with the page it got. -/
def startProcessEnd (mem : Dwords) (procStack page : UInt32) : Dwords :=
  setIntr mem procStack [(.esp, page + pageSize), (.ss, selectorUData.toUInt32)]

/-- `memcpy(dst, src, PAGE_SIZE)` -/
def copyPage (mem : Dwords) (dst src : UInt32) : Dwords := fun a =>
  if a - dst < pageSize then mem (src + (a - dst)) else mem a

/-- The `struct intr_stack` of a task that comes from user code. -/
def intr0Stack (t : UInt32) : UInt32 := t + pageSize - sizeofIntrStack

/-- `build_child_stack` -/
def buildChildStack (x : Text) (mem : Dwords) (child : UInt32) : Dwords :=
  let intr0 := intr0Stack child
  let mem := setIntr mem intr0 [(.eax, 0)]
  let mem := Function.update mem (intr0 - 4 * 1) x.intrExit
  let mem := Function.update mem (intr0 - 4 * 4) 0
  let mem := Function.update mem (intr0 - 4 * 5) 0
  let mem := Function.update mem (intr0 - 4 * 2) 0
  let mem := Function.update mem (intr0 - 4 * 3) 0
  Function.update mem child (intr0 - 4 * 5)

/-- `sys_execv` once the program is loaded. -/
def execvStack (mem : Dwords) (cur argv argc entryPoint : UInt32) : Dwords :=
  setIntr mem (intr0Stack cur)
    [(.ebx, argv), (.ecx, argc), (.eip, entryPoint), (.esp, 0xc0000000)]

/-! ### The tasks together -/

/-- What a task is doing, as far as its stack goes. -/
inductive Mode where
  /-- kernel code of its own: no user context yet -/
  | thread
  /-- in `start_process`, with the `struct intr_stack` begun -/
  | starting (function : UInt32)
  /-- user code -/
  | user
  /-- the kernel, through an interrupt from user code -/
  | intr (n : Fin 0x30)
  /-- the kernel, through `int 0x80` -/
  | syscall
deriving DecidableEq

/-- The processor and the tasks.  `mem` is the kernel's part of the memory, which all tasks share;
below 0xc0000000 it says nothing.  `isProcess` is `pg_dir != NULL`.  `cur` and `mode` are there for
the proofs only. -/
structure Tasks where
  cpu : Cpu
  esp0 : UInt32
  tasks : List UInt32
  isProcess : UInt32 → Bool
  cur : UInt32
  mode : UInt32 → Mode

namespace Tasks

/-- The running task goes on with `c`, in mode `m`. -/
def go (s : Tasks) (c : Cpu) (m : Mode) : Tasks :=
  { s with cpu := c, mode := Function.update s.mode s.cur m }

@[simp] theorem go_cpu (s : Tasks) (c : Cpu) (m : Mode) : (s.go c m).cpu = c := rfl
@[simp] theorem go_esp0 (s : Tasks) (c : Cpu) (m : Mode) : (s.go c m).esp0 = s.esp0 := rfl
@[simp] theorem go_tasks (s : Tasks) (c : Cpu) (m : Mode) : (s.go c m).tasks = s.tasks := rfl
@[simp] theorem go_isProcess (s : Tasks) (c : Cpu) (m : Mode) :
    (s.go c m).isProcess = s.isProcess := rfl
@[simp] theorem go_cur (s : Tasks) (c : Cpu) (m : Mode) : (s.go c m).cur = s.cur := rfl
@[simp] theorem go_mode (s : Tasks) (c : Cpu) (m : Mode) :
    (s.go c m).mode = Function.update s.mode s.cur m := rfl

/-- The processor with another memory. -/
def withMem (s : Tasks) (mem : Dwords) : Cpu := { s.cpu with mem := mem }

/-- A new task on page `t`, with what is in the memory then. -/
def add (s : Tasks) (t : UInt32) (isProcess : Bool) (m : Mode) (mem : Dwords) : Tasks :=
  { s with
    cpu := s.withMem mem
    tasks := t :: s.tasks
    isProcess := Function.update s.isProcess t isProcess
    mode := Function.update s.mode t m }

section Add

variable (s : Tasks) (t : UInt32) (p : Bool) (m : Mode) (mem : Dwords)

@[simp] theorem add_cpu : (s.add t p m mem).cpu = s.withMem mem := rfl
@[simp] theorem add_esp0 : (s.add t p m mem).esp0 = s.esp0 := rfl
@[simp] theorem add_tasks : (s.add t p m mem).tasks = t :: s.tasks := rfl
@[simp] theorem add_isProcess : (s.add t p m mem).isProcess = Function.update s.isProcess t p := rfl
@[simp] theorem add_cur : (s.add t p m mem).cur = s.cur := rfl
@[simp] theorem add_mode : (s.add t p m mem).mode = Function.update s.mode t m := rfl

end Add

def tss (s : Tasks) : Tss := ⟨s.esp0, selectorKStack⟩

/-- `process_activate(next)`, but for `cr3`: the stack of the TSS. -/
def processActivate (s : Tasks) (next : UInt32) : UInt32 :=
  if s.isProcess next then next + pageSize else s.esp0

end Tasks

/-- How far up in the page of a task the stack of its C code may begin. -/
def Mode.room : Mode → UInt32
  | .thread => pageSize - 4
  | .starting _ => pageSize - 4 * sizeofIntrStack
  | _ => pageSize - sizeofIntrStack

/-- The `struct intr_stack` of a task, and the end of its C code's stack. -/
def Mode.base (m : Mode) (t : UInt32) : UInt32 := t + m.room

/-- How many bytes are there that C code leaves alone. -/
def Mode.frame : Mode → UInt32
  | .thread => 0
  | _ => sizeofIntrStack

/-- A task on its way back from C code: a `ret` that ends in `kernel.s` ends there behind the
`call` it belongs to, with the stack as it was. -/
structure Mode.Point (x : Text) (m : Mode) (t eip esp : UInt32) : Prop where
  intrExit : eip = x.intrExit → (m = .syscall ∨ ∃ n, m = .intr n) ∧ esp = m.base t
  intrRet : ∀ n, eip = x.intrRet n → m = .intr n ∧ esp = m.base t
  syscallRet : eip = x.syscallRet → m = .syscall ∧ esp = m.base t - 12

/-- `sizeof(struct task_struct)` -/
def sizeofTaskStruct : UInt32 := 280

/-- The stack of a task that is not running is as it was. -/
def StackKept (mem mem' : Dwords) (t : UInt32) : Prop :=
  mem' t = mem t ∧ Spared mem mem' (mem t) (t + pageSize - mem t)

/-- The processor in kernel code of a task. -/
structure Running (x : Text) (m : Mode) (t : UInt32) (c : Cpu) : Prop where
  level : c.cpl = 0
  room : c.reg .esp - t ≤ m.room
  point : m.Point x t c.eip (c.reg .esp)

/-- What C code of the kernel may do: it leaves the stacks of the other tasks alone, and what lies
above its own. -/
structure CCode (x : Text) (s : Tasks) (c : Cpu) : Prop where
  running : Running x (s.mode s.cur) s.cur c
  frame : Spared s.cpu.mem c.mem ((s.mode s.cur).base s.cur) (s.mode s.cur).frame
  others : ∀ u ∈ s.tasks, u ≠ s.cur → StackKept s.cpu.mem c.mem u

/-- A page of the kernel. -/
structure Page (t : UInt32) : Prop where
  aligned : t % 4096 = 0
  kernel : 0xc0000000 ≤ t
  below : t < 0xffc00000

/-- What may happen next. -/
inductive Action where
  /-- user code goes on, with the memory `mem` afterwards -/
  | user (c : Registers) (mem : Dwords)
  /-- an interrupt or exception of user code -/
  | intr (n : Fin 0x30) (err : Option UInt32)
  /-- `int 0x80` -/
  | syscall
  /-- C code, with all that it calls -/
  | kernel (c : Cpu)
  /-- `schedule` from `process_activate` on; `ret` is the address behind the call of
  `switch_to` -/
  | switch (next ret : UInt32)
  /-- the rest of `intr%1entry` -/
  | intrTail
  /-- the rest of `syscall_handler` -/
  | syscallTail
  /-- `intr_exit` -/
  | intrExit
  /-- `thread_start` or `process_execute`, on page `t` -/
  | create (t : UInt32) (isProcess : Bool) (function funcArg : UInt32)
  | start (function : UInt32)
  | startEnd (page : UInt32)
  /-- `sys_fork`, with the child on page `child` -/
  | fork (child : UInt32)
  | execv (argv argc entryPoint : UInt32)

/-- An interrupt, as far as the `call` of `intr%1entry`. -/
def Tasks.intrCpu (x : Text) (s : Tasks) (n : Fin 0x30) (err : Option UInt32) : Cpu :=
  (s.cpu.interrupt ⟨selectorKCode, x.intrEntry n⟩ s.tss err).run (vector x n)

/-- `int 0x80`, as far as the `call` of `syscall_handler` -/
def Tasks.syscallCpu (x : Text) (s : Tasks) : Cpu :=
  (s.cpu.interrupt ⟨selectorKCode, x.syscallHandler⟩ s.tss none).run (Switch.syscallHandler x)

/-- C code of the kernel is running. -/
def Tasks.InC (x : Text) (s : Tasks) : Prop := s.mode s.cur ≠ .user ∧ ¬ x.IsAsm s.cpu.eip

/-- When it may happen. -/
def Action.Enabled (x : Text) (s : Tasks) : Action → Prop
  | .user c mem => s.mode s.cur = .user ∧ c.cpl = 3 ∧ ∀ a, 0xc0000000 ≤ a → mem a = s.cpu.mem a
  -- the processor pushes an error code where the macro takes one to be there, and `idt_table`
  -- holds a function
  | .intr n err => s.mode s.cur = .user ∧ err.isSome = errorCode n ∧
      ¬ x.IsAsm (s.intrCpu x n err).eip
  -- the number is not checked by the code: there is a function in `syscall_table`
  | .syscall => s.mode s.cur = .user ∧ ¬ x.IsAsm (s.syscallCpu x).eip
  | .kernel c => s.InC x ∧ CCode x s c
  | .switch next ret => s.InC x ∧ next ∈ s.tasks ∧ ¬ x.IsAsm ret ∧
      sizeofTaskStruct + 28 ≤ s.cpu.reg .esp - s.cur
  | .intrTail => ∃ n, s.mode s.cur = .intr n ∧ s.cpu.eip = x.intrRet n
  | .syscallTail => s.mode s.cur ≠ .user ∧ s.cpu.eip = x.syscallRet
  | .intrExit => s.mode s.cur ≠ .user ∧ s.cpu.eip = x.intrExit
  | .create t _ _ _ => s.InC x ∧ Page t ∧ t ∉ s.tasks
  -- the task has not been switched away from since it began
  | .start _ => s.InC x ∧ s.mode s.cur = .thread ∧ s.isProcess s.cur ∧
      s.cpu.mem s.cur = s.cur + pageSize - 4 * sizeofIntrStack - 4 * sizeofThreadStack ∧
      s.cpu.reg .esp - s.cur ≤ pageSize - 4 * sizeofIntrStack
  | .startEnd _ => s.InC x ∧ ∃ function, s.mode s.cur = .starting function
  | .fork child => s.InC x ∧ s.mode s.cur = .syscall ∧ Page child ∧ child ∉ s.tasks
  | .execv _ _ _ => s.InC x ∧ s.mode s.cur = .syscall

/-- Its effect. -/
def Action.step (x : Text) (s : Tasks) : Action → Tasks
  | .user c mem => s.go { toRegisters := c, mem := mem } .user
  | .intr n err => s.go (s.intrCpu x n err) (.intr n)
  | .syscall => s.go (s.syscallCpu x) .syscall
  | .kernel c => s.go c (s.mode s.cur)
  | .switch next ret =>
      { s with
        cpu := (((s.cpu.push next).push s.cur).push ret).run switchTo
        esp0 := s.processActivate next
        cur := next }
  | .intrTail => s.go (s.cpu.run (vectorTail x)) (s.mode s.cur)
  | .syscallTail => s.go (s.cpu.run (Switch.syscallTail x)) (s.mode s.cur)
  | .intrExit => s.go (s.cpu.run Switch.intrExit) .user
  | .create t isProcess function funcArg =>
      s.add t isProcess .thread (threadCreate x (initStack s.cpu.mem t) t function funcArg)
  | .start function =>
      s.go (s.withMem (startProcess s.cpu.mem s.cur function)) (.starting function)
  | .startEnd page =>
      let procStack := (s.mode s.cur).base s.cur
      let c := s.withMem (startProcessEnd s.cpu.mem procStack page)
      s.go ((c.setReg .esp procStack).run Switch.intrExit) .user
  | .fork child =>
      s.add child true .syscall (buildChildStack x (copyPage s.cpu.mem child s.cur) child)
  | .execv argv argc entryPoint =>
      let c := s.withMem (execvStack s.cpu.mem s.cur argv argc entryPoint)
      s.go ((c.setReg .esp (intr0Stack s.cur)).goto x.intrExit) .syscall

/-- The main thread before there are any others. -/
structure Start (x : Text) (s : Tasks) : Prop where
  tasks : s.tasks = [s.cur]
  page : Page s.cur
  mode : s.mode s.cur = .thread
  isProcess : s.isProcess s.cur = false
  level : s.cpu.cpl = 0
  room : s.cpu.reg .esp - s.cur ≤ Mode.thread.room
  inC : ¬ x.IsAsm s.cpu.eip

def machine (x : Text) : Machine Tasks Action Halt where
  init := Start x
  enabled s a := a.Enabled x s
  exec a := modify fun s => a.step x s

end ZyOs.Switch
