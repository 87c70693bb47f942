/-
`thread/sync.c`, the waiting half of `device/io_queue.c`, and the steps the machine
takes: interrupts, the running task going on with a call, the running task making a
new one.  `thread_start` and `sys_fork` are one step each; the locks they take while the
PCB is built are steps of `sema_down` and `sema_up` before it.
-/
import ZyOs.Kernel.Thread

namespace ZyOs

open Library

/-! ### Semaphores -/

/-- `*psema = v` -/
def putSema (psema : Nat) (v : Semaphore) : SchedM Unit :=
  modify fun s => { s with sema := fun k => if k = psema then v else s.sema k }

/-- The loop of `sema_down`; it is left through `thread_block` and entered again when the task
comes back. -/
def semaLoop (psema : Nat) (oldStatus : Bool) : SchedM Unit := do
  let s ← get
  let sem := s.sema psema
  if sem.value = 0 then
    assertSched (s.cur ∉ sem.waiters) "sema_down"
      "!elem_find(&psema->waiters, &running_thread()->general_tag)"
    putSema psema { sem with waiters := sem.waiters ++ [s.cur] }
    pushFrame (.semaLoop psema oldStatus)
    threadBlock .blocked
  else
    putSema psema { sem with value := sem.value - 1 }
    assertSched (sem.value - 1 = 0) "sema_down" "psema->value == 0"
    intrSetStatus oldStatus

/-- `sema_down` -/
def semaDown (psema : Nat) : SchedM Unit := do
  let oldStatus ← intrDisable
  semaLoop psema oldStatus

/-- `sema_up`: the first of the waiters is woken up. -/
def wakeWaiter (psema : Nat) : SchedM Unit := do
  let sem := (← get).sema psema
  match sem.waiters with
  | [] => pure ()
  | threadBlocked :: rest =>
      putSema psema { sem with waiters := rest }
      threadUnblock threadBlocked

/-- `sema_up` -/
def semaUp (psema : Nat) : SchedM Unit := do
  let oldStatus ← intrDisable
  assertSched (((← get).sema psema).value = 0) "sema_up" "psema->value == 0"
  wakeWaiter psema
  let sem := (← get).sema psema
  putSema psema { sem with value := sem.value + 1 }
  assertSched (sem.value + 1 = 1) "sema_up" "psema->value == 1"
  intrSetStatus oldStatus

/-! ### Waiting on an io queue -/

/-- `*waiter = t` -/
def putWaiter (waiter : Nat) (t : Option Nat) : SchedM Unit :=
  modify fun s => { s with waiter := fun k => if k = waiter then t else s.waiter k }

/-- `ioq_wait`; its callers check that interrupts are off. -/
def ioqWait (waiter : Nat) : SchedM Unit := do
  let s ← get
  assertSched (s.intr = false) "ioq_getchar" "intr_get_status() == INTR_OFF"
  assertSched (s.waiter waiter = none) "ioq_wait" "waiter != NULL && *waiter == NULL"
  putWaiter waiter (some s.cur)
  threadBlock .blocked

/-- `ioq_wakeup`; its callers check that interrupts are off. -/
def ioqWakeup (waiter : Nat) : SchedM Unit := do
  let s ← get
  assertSched (s.intr = false) "ioq_putchar" "intr_get_status() == INTR_OFF"
  match s.waiter waiter with
  | none => assertSched False "ioq_wakeup" "*waiter != NULL"
  | some t =>
      threadUnblock t
      putWaiter waiter none

/-! ### The machine -/

/-- An interrupt: the handler runs on the stack of the running task, with interrupts off. -/
def interrupt (handler : SchedM Unit) : SchedM Unit := do
  pushFrame .intrExit
  intrSetStatus false
  handler

/-- The running task goes on with the call it is in. -/
def resume : Frame → SchedM Unit
  | .restore old => intrSetStatus old
  | .semaLoop psema old => semaLoop psema old
  | .intrExit => intrSetStatus true
  | .kernelThread => intrSetStatus true
  | .hlt => intrSetStatus true

/-- What may happen next. -/
inductive SchedOp where
  /-- the timer interrupt -/
  | tick
  /-- the disk interrupt, which ends in `sema_up` -/
  | diskIntr (psema : Nat)
  /-- the keyboard interrupt, when it wakes a reader up -/
  | keyIntr (waiter : Nat)
  /-- the running task returns from the call it is in -/
  | return_ (f : Frame)
  /-- a round of the idle thread -/
  | idle
  /-- `int 0x80` of a process -/
  | syscall
  /-- `intr_enable` or `intr_disable` in the code of a task -/
  | setIntr (status : Bool)
  | yield
  | block (stat : TaskStatus)
  | down (psema : Nat)
  | up (psema : Nat)
  | wait (waiter : Nat)
  | wakeup (waiter : Nat)
  | start (t prio : Nat)
  | fork (child : Nat)

/-- Its effect. -/
def SchedOp.exec : SchedOp → SchedM Unit
  | .tick => interrupt intrTimerHandler
  | .diskIntr psema => interrupt (semaUp psema)
  | .keyIntr waiter => interrupt (ioqWakeup waiter)
  | .return_ f => do
      modify fun s => { s with kont := fun t => if t = s.cur then (s.kont t).tail else s.kont t }
      resume f
  | .idle => idleRound
  | .syscall => interrupt (pure ())
  | .setIntr status => intrSetStatus status
  | .yield => threadYield
  | .block stat => threadBlock stat
  | .down psema => semaDown psema
  | .up psema => semaUp psema
  | .wait waiter => ioqWait waiter
  | .wakeup waiter => ioqWakeup waiter
  | .start t prio => threadStart t prio
  | .fork child => sysFork child

/-- The running task is free to make a call: it is in none, or in a system call. -/
def Sched.Free (s : Sched) : Prop :=
  s.cur ≠ s.idle ∧ (s.kont s.cur = [] ∨ (s.kont s.cur).head? = some .intrExit)

/-- When it may happen.  Interrupts need the flag; a task that is in a call goes on with it;
the idle thread runs its loop and nothing else; `thread_block` is called with one of the
states it is for; a new PCB is on a page of its own; only a process forks. -/
def SchedOp.Enabled (s : Sched) : SchedOp → Prop
  | .tick => s.intr = true
  | .diskIntr _ => s.intr = true
  | .keyIntr _ => s.intr = true
  | .return_ f => (s.kont s.cur).head? = some f
  | .idle => s.cur = s.idle ∧ s.kont s.cur = []
  | .syscall => s.cur ≠ s.idle ∧ s.kont s.cur = [] ∧ (s.task s.cur).pgDir = true
  | .block stat => s.Free ∧ stat.IsBlocked
  | .start t _ => s.Free ∧ t ∉ s.pcbs
  | .fork child => s.cur ≠ s.idle ∧ s.kont s.cur = [] ∧ child ∉ s.pcbs ∧
      (s.task s.cur).pgDir = true
  | _ => s.Free

end ZyOs
