/-
`device/io_queue.c`: `ioq_getchar` and `ioq_putchar` of any number of tasks on one queue.

Their callers have interrupts off, so a task goes on until it blocks, in `sema_down` under
`lock_acquire` or in `ioq_wait`, and an action is what it does up to there or to its return.
The two calls differ in what they wait for, in which field they are recorded and in what
they do with the buffer; the way there is the same and written once.  `stored` and `returned`
are there for the proofs only: the characters of the calls that have returned, in the order
of the returns.
-/
import ZyOs.Kernel.Lock
import ZyOs.Library.Ring

namespace ZyOs

open Library

/-- `BUF_SIZE` -/
def bufSize : Nat := 64

/-- A call on the queue. -/
inductive IoqCall where
  | getchar
  | putchar (byte : UInt8)
deriving DecidableEq

/-- A call on the other side. -/
def IoqCall.other : IoqCall → IoqCall
  | .getchar => .putchar 0
  | .putchar _ => .getchar

/-- Where a task is. -/
inductive IoqPc where
  /-- in no call -/
  | idle
  /-- in `sema_down` under `lock_acquire`, blocked -/
  | down (call : IoqCall)
  /-- there, woken up -/
  | downReady (call : IoqCall)
  /-- in `ioq_wait`, blocked -/
  | wait (call : IoqCall)
  /-- there, woken up -/
  | waitReady (call : IoqCall)
deriving DecidableEq

/-- `struct io_queue_t` and the tasks that use it. -/
structure IoQueue where
  holder : Option Nat
  sem : Semaphore
  holderRepeatNr : UInt32
  producer : Option Nat
  consumer : Option Nat
  buf : Nat → UInt8
  head : Nat
  tail : Nat
  pc : Nat → IoqPc
  stored : List UInt8
  returned : List UInt8

abbrev IoqM := Prog IoQueue Halt

/-- `ASSERT` in the code of the queue. -/
def assertIoq (c : Prop) [Decidable c] (func condition : String) : IoqM Unit :=
  Prog.lift (ASSERT c func condition)

/-- `next_pos` -/
def nextPos (pos : Nat) : Nat := Ring.next bufSize pos

/-- `ioq_full` -/
def ioqFull (s : IoQueue) : Bool := nextPos s.head == s.tail

/-- `ioq_empty` -/
def ioqEmpty (s : IoQueue) : Bool := s.head == s.tail

/-- What a call waits for: the condition of its loop. -/
def IoQueue.mustWait (s : IoQueue) : IoqCall → Bool
  | .getchar => ioqEmpty s
  | .putchar _ => ioqFull s

/-- The field a waiting call is recorded in. -/
def IoQueue.waiter (s : IoQueue) : IoqCall → Option Nat
  | .getchar => s.consumer
  | .putchar _ => s.producer

/-- `*waiter = t` -/
def IoQueue.withWaiter (s : IoQueue) (t : Option Nat) : IoqCall → IoQueue
  | .getchar => { s with consumer := t }
  | .putchar _ => { s with producer := t }

/-- Task `t` is at `pc`. -/
def IoQueue.goto (s : IoQueue) (t : Nat) (pc : IoqPc) : IoQueue :=
  { s with pc := fun u => if u = t then pc else s.pc u }

/-- `thread_unblock` -/
def ioqUnblock (t : Nat) : IoqM Unit := do
  let s ← get
  match s.pc t with
  | .down call => set (s.goto t (.downReady call))
  | .wait call => set (s.goto t (.waitReady call))
  | _ =>
      assertIoq False "thread_unblock"
        "pthread->status == TASK_BLOCKED || TASK_WAITING || TASK_HANGING"

/-- `if (*waiter != NULL) ioq_wakeup(waiter)` for the calls on the other side of `call`. -/
def wakeOther (call : IoqCall) : IoqM Unit := do
  match (← get).waiter call.other with
  | none => return ()
  | some t =>
      ioqUnblock t
      modify fun s => s.withWaiter none call.other

/-- What a call does once it need not wait. -/
def ioqFinish (t : Nat) : IoqCall → IoqM Unit
  | .getchar => do
      let s ← get
      set { s with tail := nextPos s.tail, returned := s.returned ++ [s.buf s.tail] }
      wakeOther .getchar
      modify fun s => s.goto t .idle
  | .putchar byte => do
      let s ← get
      set { s with
        buf := fun i => if i = s.head then byte else s.buf i
        head := nextPos s.head
        stored := s.stored ++ [byte] }
      wakeOther (.putchar byte)
      modify fun s => s.goto t .idle

/-- `ioq_wait`, up to where `thread_block` leaves the task. -/
def ioqWaitIn (t : Nat) (call : IoqCall) : IoqM Unit := do
  let s ← get
  assertIoq (s.waiter call = none) "ioq_wait" "waiter != NULL && *waiter == NULL"
  set ((s.withWaiter (some t) call).goto t (.wait call))

/-- A round of `sema_down` under `lock_acquire`, and what follows it. -/
def ioqDown (t : Nat) (call : IoqCall) : IoqM Unit := do
  let s ← get
  let (sem, got) ← Prog.lift (s.sem.tryDown t)
  if got then
    assertIoq (s.holderRepeatNr = 0) "lock_acquire" "plock->holder_repeat_nr == 0"
    set { s with sem := sem, holder := some t, holderRepeatNr := 1 }
    ioqWaitIn t call
  else
    set ({ s with sem := sem }.goto t (.down call))

/-- The loop of both calls, from its condition on. -/
def ioqLoop (t : Nat) (call : IoqCall) : IoqM Unit := do
  let s ← get
  if s.mustWait call then
    if s.holder ≠ some t then
      ioqDown t call
    else
      set { s with holderRepeatNr := s.holderRepeatNr + 1 }
      ioqWaitIn t call
  else
    ioqFinish t call

/-- `lock_release` -/
def ioqRelease (t : Nat) : IoqM Unit := do
  let s ← get
  assertIoq (s.holder = some t) "lock_release" "plock->holder == running_thread()"
  if 1 < s.holderRepeatNr then
    set { s with holderRepeatNr := s.holderRepeatNr - 1 }
  else
    assertIoq (s.holderRepeatNr = 1) "lock_release" "plock->holder_repeat_nr == 1"
    let (sem, woken) ← Prog.lift s.sem.up
    set { s with holder := none, holderRepeatNr := 0, sem := sem }
    match woken with
    | none => return ()
    | some u => ioqUnblock u

/-- What may happen next. -/
inductive IoqAction where
  /-- task `t` makes a call -/
  | call (t : Nat) (call : IoqCall)
  /-- task `t`, which has been woken up, runs -/
  | resume (t : Nat)
deriving DecidableEq

/-- A task that has been woken up goes on. -/
def ioqResume (t : Nat) : IoqM Unit := do
  match (← get).pc t with
  | .downReady call => ioqDown t call
  | .waitReady call => do
      ioqRelease t
      ioqLoop t call
  | _ => return ()

/-- The task has been woken up. -/
def IoqPc.isReady : IoqPc → Bool
  | .downReady _ => true
  | .waitReady _ => true
  | _ => false

def IoQueue.Enabled (s : IoQueue) : IoqAction → Prop
  | .call t _ => s.pc t = .idle
  | .resume t => (s.pc t).isReady = true

instance (s : IoQueue) : ∀ a, Decidable (s.Enabled a)
  | .call _ _ => inferInstanceAs (Decidable (_ = _))
  | .resume _ => inferInstanceAs (Decidable (_ = _))

/-- `io_queue_init`, with anything in the buffer. -/
def ioqInit (buf : Nat → UInt8) : IoQueue where
  holder := none
  sem := ⟨1, []⟩
  holderRepeatNr := 0
  producer := none
  consumer := none
  buf := buf
  head := 0
  tail := 0
  pc := fun _ => .idle
  stored := []
  returned := []

/-- A queue, used by any number of tasks. -/
def ioqMachine : Machine IoQueue IoqAction Halt where
  init s := ∃ buf, s = ioqInit buf
  enabled := IoQueue.Enabled
  exec
    | .call t call => ioqLoop t call
    | .resume t => ioqResume t

end ZyOs
