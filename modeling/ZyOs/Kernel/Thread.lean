/-
`thread/thread.c`, with the timer handler of `device/timer.c`.

A task is the address of its PCB.  The lists `thread_ready_list` and
`thread_all_list` are the sequences of the tasks linked on them.  `switch_to` leaves
one kernel stack for another, so what a task has still to do when it comes back is
kept with it: `kont` is the stack of the calls that have not returned yet.
The memory for a new PCB is taken as there, and the check for a stack overflow is
left out.
-/
import ZyOs.Kernel.Debug
import ZyOs.Library.Prog

namespace ZyOs

open Library

/-- `enum task_status` -/
inductive TaskStatus where
  | running
  | ready
  | blocked
  | waiting
  | hanging
  | died
deriving DecidableEq

/-- The three states `thread_block` takes a task to. -/
def TaskStatus.IsBlocked (stat : TaskStatus) : Prop :=
  stat = .blocked ∨ stat = .waiting ∨ stat = .hanging

instance (stat : TaskStatus) : Decidable stat.IsBlocked :=
  inferInstanceAs (Decidable (stat = .blocked ∨ stat = .waiting ∨ stat = .hanging))

/-- What of `struct task_struct` the scheduler uses; `pgDir` says whether it is a process. -/
structure TaskStruct where
  status : TaskStatus
  priority : Nat
  ticks : Nat
  elapsedTicks : Nat
  pgDir : Bool

/-- A call that waits for `switch_to` to return. -/
inductive Frame where
  /-- `intr_set_status(old_status)` at the end of a function -/
  | restore (old : Bool)
  /-- the loop of `sema_down` -/
  | semaLoop (psema : Nat) (old : Bool)
  /-- `intr_exit` -/
  | intrExit
  /-- `kernel_thread` of a task that has not run yet -/
  | kernelThread
  /-- `sti; hlt` of the idle thread -/
  | hlt
deriving DecidableEq

/-- `struct semaphore` -/
structure Semaphore where
  value : Nat
  waiters : List Nat

/-- The scheduler's part of the kernel.  `waiter` are the pointers `producer` and `consumer`
of the io queues, `intr` is the interrupt flag, and `pcbs` are the pages that hold PCBs.
`found` is there for the proofs only: in which state `schedule` has found the idle thread each
time that the ready list was empty. -/
structure Sched where
  task : Nat → TaskStruct
  ready : List Nat
  all : List Nat
  sema : Nat → Semaphore
  waiter : Nat → Option Nat
  cur : Nat
  idle : Nat
  intr : Bool
  kont : Nat → List Frame
  pcbs : Finset Nat
  ticks : Nat
  found : List TaskStatus

/-- Scheduler code. -/
abbrev SchedM := Prog Sched Halt

/-- `ASSERT` in scheduler code. -/
def assertSched (c : Prop) [Decidable c] (func condition : String) : SchedM Unit :=
  Prog.lift (ASSERT c func condition)

/-! ### Primitive steps -/

/-- `intr_disable` -/
def intrDisable : SchedM Bool := do
  let s ← get
  set { s with intr := false }
  return s.intr

/-- `intr_set_status` -/
def intrSetStatus (status : Bool) : SchedM Unit := modify fun s => { s with intr := status }

/-- The PCB of `t` is overwritten. -/
def putTask (t : Nat) (p : TaskStruct) : SchedM Unit :=
  modify fun s => { s with task := fun u => if u = t then p else s.task u }

/-- `t->status = stat` -/
def setStatus (t : Nat) (stat : TaskStatus) : SchedM Unit := do
  putTask t { (← get).task t with status := stat }

/-- `list_append(&thread_ready_list, &t->general_tag)` -/
def readyAppend (t : Nat) : SchedM Unit := modify fun s => { s with ready := s.ready ++ [t] }

/-- `list_push(&thread_ready_list, &t->general_tag)` -/
def readyPush (t : Nat) : SchedM Unit := modify fun s => { s with ready := t :: s.ready }

/-- `list_append(&thread_all_list, &t->all_list_tag)` -/
def allAppend (t : Nat) : SchedM Unit := modify fun s => { s with all := s.all ++ [t] }

/-- The running task enters a call. -/
def pushFrame (f : Frame) : SchedM Unit :=
  modify fun s => { s with kont := fun t => if t = s.cur then f :: s.kont t else s.kont t }

/-! ### Scheduling -/

/-- `thread_unblock` -/
def threadUnblock (pthread : Nat) : SchedM Unit := do
  let oldStatus ← intrDisable
  assertSched ((← get).task pthread).status.IsBlocked "thread_unblock"
    "pthread->status == TASK_BLOCKED || TASK_WAITING || TASK_HANGING"
  if ((← get).task pthread).status ≠ .ready then
    assertSched (pthread ∉ (← get).ready) "thread_unblock"
      "!elem_find(&thread_ready_list, &pthread->general_tag)"
    readyPush pthread
    setStatus pthread .ready
  intrSetStatus oldStatus

/-- `schedule` first: the running task goes to the end of the ready list unless it
has been taken off the processor for another reason. -/
def requeue : SchedM Unit := do
  let s ← get
  if (s.task s.cur).status = .running then
    assertSched (s.cur ∉ s.ready) "schedule"
      "!elem_find(&thread_ready_list, &cur->general_tag)"
    readyAppend s.cur
    putTask s.cur { s.task s.cur with ticks := (s.task s.cur).priority, status := .ready }

/-- `schedule`: with no task ready, the idle thread is woken up. -/
def wakeIdle : SchedM Unit := do
  let s ← get
  if s.ready = [] then
    set { s with found := (s.task s.idle).status :: s.found }
    threadUnblock s.idle

/-- `schedule`: the first ready task is taken off the list and switched to. -/
def switchNext : SchedM Unit := do
  assertSched ((← get).ready ≠ []) "schedule" "!list_empty(&thread_ready_list)"
  let s ← get
  match s.ready with
  | [] => Prog.lift (.error (.fault "schedule"))
  | next :: rest =>
      set { s with ready := rest, cur := next }
      setStatus next .running

/-- `schedule`: afterwards the next task is running, with interrupts off, in what it was doing
when it was switched away from. -/
def schedule : SchedM Unit := do
  assertSched ((← get).intr = false) "schedule" "intr_get_status() == INTR_OFF"
  requeue
  wakeIdle
  switchNext

/-- `thread_block` -/
def threadBlock (stat : TaskStatus) : SchedM Unit := do
  assertSched stat.IsBlocked "thread_block"
    "stat == TASK_BLOCKED || stat == TASK_WAITING || stat == TASK_HANGING"
  let oldStatus ← intrDisable
  pushFrame (.restore oldStatus)
  setStatus (← get).cur stat
  schedule

/-- `thread_yield` -/
def threadYield : SchedM Unit := do
  let cur := (← get).cur
  let oldStatus ← intrDisable
  assertSched (cur ∉ (← get).ready) "thread_yield"
    "!elem_find(&thread_ready_list, &cur->general_tag)"
  readyAppend cur
  pushFrame (.restore oldStatus)
  setStatus cur .ready
  schedule

/-- `idle`: one round of its loop. -/
def idleRound : SchedM Unit := do
  pushFrame .hlt
  threadBlock .blocked

/-- `intr_timer_handler` -/
def intrTimerHandler : SchedM Unit := do
  let s ← get
  let cur := s.task s.cur
  putTask s.cur { cur with elapsedTicks := cur.elapsedTicks + 1 }
  modify fun s => { s with ticks := s.ticks + 1 }
  if cur.ticks = 0 then
    schedule
  else
    putTask s.cur { cur with elapsedTicks := cur.elapsedTicks + 1, ticks := cur.ticks - 1 }

/-! ### New tasks -/

/-- A new PCB on page `t` and what the task starts with. -/
def newTask (t : Nat) (p : TaskStruct) (start : Frame) : SchedM Unit :=
  modify fun s => { s with
    task := fun u => if u = t then p else s.task u
    kont := fun u => if u = t then [start] else s.kont u
    pcbs := insert t s.pcbs }

/-- `init_thread`, as far as the scheduler goes. -/
def initThread (prio : Nat) (pgDir : Bool) : TaskStruct where
  status := .ready
  priority := prio
  ticks := prio
  elapsedTicks := 0
  pgDir := pgDir

/-- A new task goes to the end of both lists; the same lines are in `thread_start`,
`process_execute` and `sys_fork`. -/
def link (t : Nat) (func : String) : SchedM Unit := do
  assertSched (t ∉ (← get).ready) func "!elem_find(&thread_ready_list, &thread->general_tag)"
  readyAppend t
  assertSched (t ∉ (← get).all) func "!elem_find(&thread_all_list, &thread->all_list_tag)"
  allAppend t

/-- `thread_start` on page `t` -/
def threadStart (t prio : Nat) : SchedM Unit := do
  newTask t (initThread prio false) .kernelThread
  link t "thread_start"

/-- `process_execute` on page `t` -/
def processExecute (t : Nat) : SchedM Unit := do
  newTask t (initThread 31 true) .kernelThread
  link t "process_execute"

/-- `make_main_thread`: the code that is running becomes the main thread. -/
def makeMainThread : SchedM Unit := do
  let main := (← get).cur
  newTask main { initThread 31 false with status := .running } .kernelThread
  modify fun s => { s with kont := fun u => if u = main then [] else s.kont u }
  assertSched (main ∉ (← get).all) "make_main_thread"
    "!elem_find(&thread_all_list, &main_thread->all_list_tag)"
  allAppend main

/-- `thread_init`, with the pages the first process and the idle thread get. -/
def threadInit (init idle : Nat) : SchedM Unit := do
  modify fun s => { s with ready := [], all := [] }
  processExecute init
  makeMainThread
  threadStart idle 10
  modify fun s => { s with idle := idle }

/-- `sys_fork` with the child on page `child`.  It is called through the interrupt gate. -/
def sysFork (child : Nat) : SchedM Unit := do
  pushFrame .intrExit
  intrSetStatus false
  let s ← get
  let parent := s.task s.cur
  assertSched (s.intr = false ∧ parent.pgDir = true) "sys_fork"
    "INTR_OFF == intr_get_status() && parent_thread->pg_dir != NULL"
  newTask child { parent with status := .ready, ticks := parent.priority, elapsedTicks := 0 }
    .intrExit
  link child "sys_fork"

end ZyOs
