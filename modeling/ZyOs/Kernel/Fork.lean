/-
`sys_fork` of `user_process/fork.c` and `sys_execv` of `user_process/exec.c`, with the names of the
processes.

A process is in the scheduler, has descriptors and a name.  There is memory for the pages of a
child, and what is copied into them is left out.  What `load` has returned is an argument of
`sys_execv`: the name depends on nothing else of the file.
-/
import ZyOs.Kernel.Fs
import ZyOs.Kernel.String
import ZyOs.Kernel.Sync
import ZyOs.Library.Machine

namespace ZyOs

open Library

/-- The processes.  `name` is what a PCB holds from its name on. -/
structure Processes where
  sched : Sched
  fs : Fs
  name : Nat → Mem

abbrev ProcM := Prog Processes Halt

/-- A step of the scheduler's part. -/
def onSched {α : Type} (x : SchedM α) : ProcM α := fun s =>
  match x s.sched with
  | .ok (a, sched) => .ok (a, { s with sched := sched })
  | .error e => .error e

/-- A step of the file system's part. -/
def onFiles {α : Type} (x : FsM α) : ProcM α := fun s =>
  match x s.fs with
  | .ok (a, fs) => .ok (a, { s with fs := fs })
  | .error e => .error e

/-- `TASK_NAME_LEN` -/
def taskNameLen : Nat := 16

/-- The name that is written into the PCB `t`. -/
def putName (t : Nat) (name : Mem) : ProcM Unit :=
  modify fun s => { s with name := Function.update s.name t name }

/-- `init_thread`: what the PCB holds from the name on. -/
def initThreadName (name : List UInt8) : Mem := strncpy (fun _ => 0) (cstr name) name.length 0

/-- `"init"` -/
def initName : List UInt8 := [105, 110, 105, 116]

/-- `"_fork"` -/
def forkSuffix : List UInt8 := [95, 102, 111, 114, 107]

/-- `copy_pcb_vaddrbitmap_stack0` -/
def copyPcbVaddrbitmapStack0 (child : Nat) : ProcM Unit := do
  let s ← get
  let parent := s.sched.cur
  let task := s.sched.task parent
  onSched (newTask child { task with status := .ready, ticks := task.priority, elapsedTicks := 0 }
    .intrExit)
  modify fun s => { s with
    fs := { s.fs with tasks := fun t => if t = child then s.fs.tasks parent else s.fs.tasks t } }
  putName child (s.name parent)
  let len ← Prog.lift (strlen ((← get).name child))
  Prog.lift (ASSERT (len < 11) "copy_pcb_vaddrbitmap_stack0" "strlen(child_thread->name) < 11")
  let name ← Prog.lift (strcat ((← get).name child) (cstr forkSuffix))
  putName child name

/-- `sys_fork` first: it is called through the interrupt gate. -/
def forkEntry : SchedM Unit := do
  pushFrame .intrExit
  intrSetStatus false
  let s ← get
  assertSched (s.intr = false ∧ (s.task s.cur).pgDir = true) "sys_fork"
    "INTR_OFF == intr_get_status() && parent_thread->pg_dir != NULL"

/-- `sys_fork` with the child on page `child` -/
def sysForkProcess (child : Nat) : ProcM Unit := do
  onSched forkEntry
  copyPcbVaddrbitmapStack0 child
  onFiles (updateInodeOpenCnts child)
  onSched (link child "sys_fork")

/-- `sys_execv`: where the process goes on, or -1.  The name is copied as it stands in memory, with
what follows the path. -/
def sysExecv (path : Mem) (entryPoint : Int) : ProcM Int := do
  if entryPoint = -1 then
    return -1
  let s ← get
  let cur := s.sched.cur
  putName cur (Function.update ((s.name cur).splice 0 path taskNameLen) (taskNameLen - 1) 0)
  return entryPoint

/-- What may happen next. -/
inductive ProcOp where
  /-- a step of the scheduler -/
  | sched (op : SchedOp)
  /-- a call of the running task that is about files -/
  | call (c : FsCall)
  | fork (child : Nat)
  | execv (path : Mem) (entryPoint : Int)

/-- When it may happen.  A child gets a page of its own. -/
def ProcOp.Enabled (s : Processes) : ProcOp → Prop
  | .sched op => op.Enabled s.sched ∧ ∀ child, op ≠ .fork child
  | .call _ => s.sched.Free
  | .fork child => s.sched.cur ≠ s.sched.idle ∧ s.sched.kont s.sched.cur = [] ∧
      child ∉ s.sched.pcbs
  | .execv _ _ => s.sched.cur ≠ s.sched.idle ∧ s.sched.kont s.sched.cur = []

/-- Its effect. -/
def ProcOp.exec (env : FsEnv) : ProcOp → ProcM Unit
  | .sched op => onSched op.exec
  | .call c => do
      let cur := (← get).sched.cur
      onFiles (c.execBy env cur)
  | .fork child => sysForkProcess child
  | .execv path entryPoint => do let _ ← sysExecv path entryPoint

end ZyOs
