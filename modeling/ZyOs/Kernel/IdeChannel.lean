/-
Commands and interrupts of one channel: `ide_read`, `ide_write` and `intr_hd_handler` of
`device/ide.c`.

What is moved between the disk and the buffers is in `Kernel/Ide`; here is the way the
commands of any number of tasks and the interrupts meet.  An interrupt may come between any
two steps; `sema_down` runs with interrupts off, so a round of its loop is one step, and the
handler is one.  The drive's answer to `busy_wait` comes with the step.  The last three fields
are there for the proofs only: the commands given out, the calls of `sema_up` and the calls
of `sema_down` that have gone through.
-/
import ZyOs.Kernel.Bitmap
import ZyOs.Kernel.Ide
import ZyOs.Kernel.Lock

namespace ZyOs

open Library

inductive IdeOp where
  | read
  | write
deriving DecidableEq

/-- A call of `ide_read` or `ide_write`. -/
structure IdeJob where
  op : IdeOp
  /-- `hd->name` -/
  name : String
  lba : UInt32
  secCnt : UInt32
  secsDone : UInt32
deriving DecidableEq

namespace IdeJob

/-- `secs_op` -/
def secsOp (job : IdeJob) : UInt32 :=
  if job.secsDone + 256 ≤ job.secCnt then 256 else job.secCnt - job.secsDone

/-- `secs_done += secs_op` -/
def advance (job : IdeJob) : IdeJob := { job with secsDone := job.secsDone + job.secsOp }

/-- The function of the call. -/
def func (job : IdeJob) : String :=
  match job.op with
  | .read => "ide_read"
  | .write => "ide_write"

/-- The text of its `PANIC`. -/
def failed (job : IdeJob) : String :=
  match job.op with
  | .read => job.name ++ " read sector " ++ toString (int32 job.lba.toNat) ++ " failed!!!!!!\n"
  | .write => job.name ++ " write sector " ++ toString (int32 job.lba.toNat) ++ " failed!!!!!!\n"

end IdeJob

/-- What a task does next. -/
inductive IdePc where
  /-- it is in no call -/
  | idle
  /-- `lock_acquire(&hd->my_channel->lock)` -/
  | acquire
  /-- the condition of the loop, and `select_sector` -/
  | loop
  /-- `cmd_out`: `channel->expecting_intr = true` -/
  | cmdOut
  /-- `outb(reg_cmd(channel), cmd)` -/
  | outb
  /-- a round of `sema_down(&hd->my_channel->disk_done)` -/
  | down
  /-- blocked in it -/
  | blocked
  /-- `busy_wait` -/
  | busyWait
  /-- `read_from_sector` or `write2sector` -/
  | transfer
  /-- `lock_release(&hd->my_channel->lock)` -/
  | release
deriving DecidableEq

/-- `struct ide_channel` and the tasks that use it. -/
structure IdeChannel where
  lock : Mutex
  expectingIntr : Bool
  diskDone : Semaphore
  pc : Nat → IdePc
  job : Nat → IdeJob
  issued : Nat
  raised : Nat
  consumed : Nat

abbrev ChannelM := Prog IdeChannel Halt

namespace IdeChannel

/-- Task `t` goes on at `pc`. -/
def goto (s : IdeChannel) (t : Nat) (pc : IdePc) : IdeChannel :=
  { s with pc := fun u => if u = t then pc else s.pc u }

/-- Task `t` is in the call `job`. -/
def withJob (s : IdeChannel) (t : Nat) (job : IdeJob) : IdeChannel :=
  { s with job := fun u => if u = t then job else s.job u }

end IdeChannel

/-- `ide_read` or `ide_write` is called. -/
def ideCall (t : Nat) (op : IdeOp) (name : String) (lba secCnt : UInt32) : ChannelM Unit := do
  let job : IdeJob := ⟨op, name, lba, secCnt, 0⟩
  Prog.lift (ASSERT (lba.toNat ≤ maxLba) job.func "lba <= max_lba")
  Prog.lift (ASSERT (0 < secCnt) job.func "sec_cnt > 0")
  modify fun s => (s.withJob t job).goto t .acquire

/-- Where a call goes on after its command has been given out: a write waits for the drive, a
read for the interrupt. -/
def IdeOp.afterOut : IdeOp → IdePc
  | .read => .down
  | .write => .busyWait

/-- A round of `sema_down`; what follows it in a read is the data, in a write the next round
of the loop. -/
def ideDown (t : Nat) : ChannelM Unit := do
  let s ← get
  let (sem, got) ← Prog.lift (s.diskDone.tryDown t)
  if got then
    let s := { s with diskDone := sem, consumed := s.consumed + 1 }
    match (s.job t).op with
    | .read => set (s.goto t .busyWait)
    | .write => set ((s.withJob t (s.job t).advance).goto t .loop)
  else
    set ({ s with diskDone := sem }.goto t .blocked)

/-- The data phase, without the data. -/
def ideTransfer (t : Nat) : ChannelM Unit := do
  let s ← get
  match (s.job t).op with
  | .read => set ((s.withJob t (s.job t).advance).goto t .loop)
  | .write => set (s.goto t .down)

/-- The next step of task `t`; `ready` is what `busy_wait` returns. -/
def ideStep (t : Nat) (ready : Bool) : ChannelM Unit := do
  let s ← get
  let job := s.job t
  match s.pc t with
  | .idle => return ()
  | .acquire => set ({ s with lock := s.lock.acquire t }.goto t .loop)
  | .loop =>
      if job.secsDone < job.secCnt then
        Prog.lift (selectSector (job.lba + job.secsDone).toNat)
        set (s.goto t .cmdOut)
      else
        set (s.goto t .release)
  | .cmdOut => set ({ s with expectingIntr := true, issued := s.issued + 1 }.goto t .outb)
  | .outb => set (s.goto t job.op.afterOut)
  | .down => ideDown t
  | .blocked => return ()
  | .busyWait =>
      if ready then
        set (s.goto t .transfer)
      else
        Prog.lift (.error (.panic job.func job.failed))
  | .transfer => ideTransfer t
  | .release =>
      Prog.lift (ASSERT (s.lock.holder = some t) "lock_release" "plock->holder == running_thread()")
      set ({ s with lock := s.lock.release }.goto t .idle)

/-- `intr_hd_handler`, for an interrupt of this channel. -/
def intrHdHandler : ChannelM Unit := do
  let s ← get
  if s.expectingIntr then
    let (sem, woken) ← Prog.lift s.diskDone.up
    let s := { s with expectingIntr := false, diskDone := sem, raised := s.raised + 1 }
    match woken with
    | none => set s
    | some t =>
        Prog.lift (ASSERT (s.pc t = .blocked) "thread_unblock"
          "pthread->status == TASK_BLOCKED || TASK_WAITING || TASK_HANGING")
        set (s.goto t .down)
  else
    return ()

/-- What may happen next. -/
inductive IdeAction where
  /-- task `t` calls -/
  | call (t : Nat) (op : IdeOp) (name : String) (lba secCnt : UInt32)
  /-- and goes on -/
  | step (t : Nat) (ready : Bool)
  /-- an interrupt, whether the drive has done something or not -/
  | intr
deriving DecidableEq

/-- A task waits in `lock_acquire` as long as another one has the lock, and in `sema_down`
until it is woken up; an interrupt may always come. -/
def IdeChannel.Enabled (s : IdeChannel) : IdeAction → Prop
  | .call t _ _ _ _ => s.pc t = .idle
  | .step t _ => s.pc t ≠ .idle ∧ s.pc t ≠ .blocked ∧ (s.pc t = .acquire → s.lock.Open t)
  | .intr => True

instance IdeChannel.decidableEnabled (s : IdeChannel) : ∀ a, Decidable (s.Enabled a)
  | .call _ _ _ _ _ => inferInstanceAs (Decidable (_ = _))
  | .step _ _ => inferInstanceAs (Decidable (_ ∧ _ ∧ _))
  | .intr => inferInstanceAs (Decidable True)

/-- `ide_init`: `expecting_intr` is false and `disk_done` starts at 0. -/
def ideChannelInit : IdeChannel where
  lock := .free
  expectingIntr := false
  diskDone := ⟨0, []⟩
  pc := fun _ => .idle
  job := fun _ => ⟨.read, "", 0, 0, 0⟩
  issued := 0
  raised := 0
  consumed := 0

/-- A channel, used by any number of tasks. -/
def ideMachine : Machine IdeChannel IdeAction Halt where
  init s := s = ideChannelInit
  enabled := IdeChannel.Enabled
  exec
    | .call t op name lba secCnt => ideCall t op name lba secCnt
    | .step t ready => ideStep t ready
    | .intr => intrHdHandler

instance ideMachine.decidableEnabled (s : IdeChannel) (a : IdeAction) :
    Decidable (ideMachine.enabled s a) :=
  inferInstanceAs (Decidable (s.Enabled a))

end ZyOs
