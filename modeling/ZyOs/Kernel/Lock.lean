/-
`lock_acquire` and `lock_release` of `thread/sync.c`, statement by statement.

`sema_down` and `sema_up` run with interrupts off, so a round of the loop of the first and
the whole of the second are one step each; between any two other accesses to the lock the
task can be switched away from, and each access is a step.  A task that is blocked is on the
list of waiters; the others may all go on at any time.  `depth` is there for the proofs only:
how many calls of `lock_acquire` a task has returned from and not undone.
-/
import ZyOs.Kernel.Sync
import ZyOs.Library.Machine

namespace ZyOs

open Library

/-! ### Semaphores -/

/-- One round of the loop of `sema_down` in task `t`: whether it got the semaphore.  If not, it
is on the list of waiters. -/
def Semaphore.tryDown (sem : Semaphore) (t : Nat) : Kernel (Semaphore × Bool) :=
  if sem.value = 0 then do
    ASSERT (t ∉ sem.waiters) "sema_down"
      "!elem_find(&psema->waiters, &running_thread()->general_tag)"
    return ({ sem with waiters := sem.waiters ++ [t] }, false)
  else do
    ASSERT (sem.value - 1 = 0) "sema_down" "psema->value == 0"
    return ({ sem with value := sem.value - 1 }, true)

/-- `sema_up`, with the task that is to be woken up. -/
def Semaphore.up (sem : Semaphore) : Kernel (Semaphore × Option Nat) := do
  ASSERT (sem.value = 0) "sema_up" "psema->value == 0"
  let value := sem.value + 1
  ASSERT (value = 1) "sema_up" "psema->value == 1"
  return (⟨value, sem.waiters.tail⟩, sem.waiters.head?)

/-! ### The lock -/

/-- What a task does next in the code of the lock. -/
inductive LockPc where
  /-- it is not in the code of the lock -/
  | idle
  /-- `sema_down`, the loop -/
  | down
  /-- `sema_down`, in `thread_block` -/
  | blocked
  /-- `plock->holder = running_thread()` -/
  | setHolder
  /-- `ASSERT(plock->holder_repeat_nr == 0)` -/
  | assertZero
  /-- `plock->holder_repeat_nr = 1` -/
  | setOne
  /-- `plock->holder_repeat_nr++`, the read -/
  | readUp
  /-- and the write -/
  | writeUp (nr : UInt32)
  /-- `if (plock->holder_repeat_nr > 1)` -/
  | test
  /-- `plock->holder_repeat_nr--`, the read -/
  | readDown
  /-- and the write -/
  | writeDown (nr : UInt32)
  /-- `ASSERT(plock->holder_repeat_nr == 1)` -/
  | assertOne
  /-- `plock->holder = NULL` -/
  | clearHolder
  /-- `plock->holder_repeat_nr = 0` -/
  | clearNr
  /-- `sema_up` -/
  | up
deriving DecidableEq

/-- A lock and the tasks that use it. -/
structure LockSys where
  holder : Option Nat
  sem : Semaphore
  holderRepeatNr : UInt32
  pc : Nat → LockPc
  depth : Nat → Nat

abbrev LockM := Prog LockSys Halt

/-- Task `t` goes on at `pc`. -/
def LockSys.goto (s : LockSys) (t : Nat) (pc : LockPc) : LockSys :=
  { s with pc := fun u => if u = t then pc else s.pc u }

/-- Task `t` is in the lock `d` times. -/
def LockSys.withDepth (s : LockSys) (t d : Nat) : LockSys :=
  { s with depth := fun u => if u = t then d else s.depth u }

/-- `lock_acquire` is called. -/
def lockAcquire (t : Nat) : LockM Unit := do
  let s ← get
  if s.holder ≠ some t then
    set (s.goto t .down)
  else
    set (s.goto t .readUp)

/-- `lock_release` is called. -/
def lockRelease (t : Nat) : LockM Unit := do
  let s ← get
  Prog.lift (ASSERT (s.holder = some t) "lock_release" "plock->holder == running_thread()")
  set (s.goto t .test)

/-- A round of `sema_down`. -/
def lockDown (t : Nat) : LockM Unit := do
  let s ← get
  let (sem, got) ← Prog.lift (s.sem.tryDown t)
  set ({ s with sem := sem }.goto t (if got then .setHolder else .blocked))

/-- `sema_up`: the first waiter goes on in the loop of `sema_down`. -/
def lockUp (t : Nat) : LockM Unit := do
  let s ← get
  let (sem, woken) ← Prog.lift s.sem.up
  let s := ({ s with sem := sem }.goto t .idle).withDepth t 0
  match woken with
  | none => set s
  | some u =>
      Prog.lift (ASSERT (s.pc u = .blocked) "thread_unblock"
        "pthread->status == TASK_BLOCKED || TASK_WAITING || TASK_HANGING")
      set (s.goto u .down)

/-- The next step of task `t` inside the code. -/
def lockStep (t : Nat) : LockM Unit := do
  let s ← get
  match s.pc t with
  | .idle => return ()
  | .down => lockDown t
  | .blocked => return ()
  | .setHolder => set ({ s with holder := some t }.goto t .assertZero)
  | .assertZero =>
      Prog.lift (ASSERT (s.holderRepeatNr = 0) "lock_acquire" "plock->holder_repeat_nr == 0")
      set (s.goto t .setOne)
  | .setOne => set (({ s with holderRepeatNr := 1 }.goto t .idle).withDepth t 1)
  | .readUp => set (s.goto t (.writeUp (s.holderRepeatNr + 1)))
  | .writeUp nr =>
      set (({ s with holderRepeatNr := nr }.goto t .idle).withDepth t (s.depth t + 1))
  | .test => set (s.goto t (if 1 < s.holderRepeatNr then .readDown else .assertOne))
  | .readDown => set (s.goto t (.writeDown (s.holderRepeatNr - 1)))
  | .writeDown nr =>
      set (({ s with holderRepeatNr := nr }.goto t .idle).withDepth t (s.depth t - 1))
  | .assertOne =>
      Prog.lift (ASSERT (s.holderRepeatNr = 1) "lock_release" "plock->holder_repeat_nr == 1")
      set (s.goto t .clearHolder)
  | .clearHolder => set ({ s with holder := none }.goto t .clearNr)
  | .clearNr => set ({ s with holderRepeatNr := 0 }.goto t .up)
  | .up => lockUp t

/-- What may happen next. -/
inductive LockAction where
  | acquire (t : Nat)
  | release (t : Nat)
  | step (t : Nat)
deriving DecidableEq

/-- A task calls when it is not in a call, it releases what it has, and it goes on in a call
unless it is blocked. -/
def LockSys.Enabled (s : LockSys) : LockAction → Prop
  | .acquire t => s.pc t = .idle
  | .release t => s.pc t = .idle ∧ 0 < s.depth t
  | .step t => s.pc t ≠ .idle ∧ s.pc t ≠ .blocked

instance (s : LockSys) : ∀ a, Decidable (s.Enabled a)
  | .acquire _ => inferInstanceAs (Decidable (_ = _))
  | .release _ => inferInstanceAs (Decidable (_ ∧ _))
  | .step _ => inferInstanceAs (Decidable (_ ∧ _))

/-- `lock_init` -/
def lockInit : LockSys where
  holder := none
  sem := ⟨1, []⟩
  holderRepeatNr := 0
  pc := fun _ => .idle
  depth := fun _ => 0

/-- A lock, used by any number of tasks. -/
def lockMachine : Machine LockSys LockAction Halt where
  init s := s = lockInit
  enabled := LockSys.Enabled
  exec
    | .acquire t => lockAcquire t
    | .release t => lockRelease t
    | .step t => lockStep t

/-! ### The lock as its users see it -/

/-- Who has a lock, and how often. -/
structure Mutex where
  holder : Option Nat
  nr : Nat
deriving DecidableEq

namespace Mutex

def free : Mutex := ⟨none, 0⟩

/-- `lock_acquire` of task `t` need not wait. -/
def Open (m : Mutex) (t : Nat) : Prop := m.holder = none ∨ m.holder = some t

instance (m : Mutex) (t : Nat) : Decidable (m.Open t) := inferInstanceAs (Decidable (_ ∨ _))

def acquire (m : Mutex) (t : Nat) : Mutex := ⟨some t, m.nr + 1⟩

def release (m : Mutex) : Mutex := if m.nr = 1 then free else { m with nr := m.nr - 1 }

end Mutex

end ZyOs
