/-
`allocate_pid` of `thread/thread.c`, called by any number of tasks.

The counter is a static `pid_t`, sixteen bits with a sign.  It is counted up under
`pid_lock` and read once more after the lock has been given back, so that a call has four
steps.  `returned` is there for the proofs only: what the calls have returned.
-/
import ZyOs.Kernel.Lock

namespace ZyOs

open Library

/-- What a task does next in `allocate_pid`. -/
inductive PidPc where
  /-- it is in no call -/
  | idle
  /-- `lock_acquire(&pid_lock)` -/
  | acquire
  /-- `next_pid++` -/
  | increment
  /-- `lock_release(&pid_lock)` -/
  | release
  /-- `return next_pid` -/
  | read
deriving DecidableEq

/-- The counter, its lock and the tasks. -/
structure PidSys where
  pidLock : Mutex
  nextPid : Int16
  pc : Nat → PidPc
  returned : List Int16

abbrev PidM := Prog PidSys Halt

/-- Task `t` goes on at `pc`. -/
def PidSys.goto (s : PidSys) (t : Nat) (pc : PidPc) : PidSys :=
  { s with pc := fun u => if u = t then pc else s.pc u }

/-- The next step of task `t` in `allocate_pid`. -/
def allocatePidStep (t : Nat) : PidM Unit := do
  let s ← get
  match s.pc t with
  | .idle => return ()
  | .acquire => set ({ s with pidLock := s.pidLock.acquire t }.goto t .increment)
  | .increment => set ({ s with nextPid := s.nextPid + 1 }.goto t .release)
  | .release =>
      Prog.lift (ASSERT (s.pidLock.holder = some t) "lock_release"
        "plock->holder == running_thread()")
      set ({ s with pidLock := s.pidLock.release }.goto t .read)
  | .read => set ({ s with returned := s.nextPid :: s.returned }.goto t .idle)

/-- What may happen next. -/
inductive PidAction where
  /-- task `t` calls -/
  | call (t : Nat)
  /-- and goes on -/
  | step (t : Nat)
deriving DecidableEq

/-- A task waits in `lock_acquire` as long as another one has the lock. -/
def PidSys.Enabled (s : PidSys) : PidAction → Prop
  | .call t => s.pc t = .idle
  | .step t => s.pc t ≠ .idle ∧ (s.pc t = .acquire → s.pidLock.Open t)

instance PidSys.decidableEnabled (s : PidSys) : ∀ a, Decidable (s.Enabled a)
  | .call _ => inferInstanceAs (Decidable (_ = _))
  | .step _ => inferInstanceAs (Decidable (_ ∧ _))

/-- `static pid_t next_pid = 0` and `lock_init(&pid_lock)` -/
def pidInit : PidSys where
  pidLock := .free
  nextPid := 0
  pc := fun _ => .idle
  returned := []

/-- `allocate_pid` in any number of tasks. -/
def pidMachine : Machine PidSys PidAction Halt where
  init s := s = pidInit
  enabled := PidSys.Enabled
  exec
    | .call t => modify fun s => s.goto t .acquire
    | .step t => allocatePidStep t

instance pidMachine.decidableEnabled (s : PidSys) (a : PidAction) :
    Decidable (pidMachine.enabled s a) :=
  inferInstanceAs (Decidable (s.Enabled a))

end ZyOs
