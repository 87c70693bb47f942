/-
The completion protocol of a channel.

Either no command is under way, and then the flag is down, the semaphore is 0 and nobody
waits for it (`Quiet`), or exactly one task is between its `cmd_out` and its `sema_down`: its
interrupt has not come and the flag is up, or it has and the semaphore is 1 (`Pending`).  An
interrupt changes something only with the flag up, so it cannot come in twice for a command
and finds nothing to do between commands.
-/
import ZyOs.Kernel.IdeChannel

namespace ZyOs

open Library

variable {s s' : IdeChannel} {t u : Nat} {pc : IdePc} {job : IdeJob}

/-! ### Fields -/

namespace IdeChannel

@[simp] theorem goto_self : (s.goto t pc).pc t = pc := if_pos rfl

theorem goto_ne (h : u ≠ t) : (s.goto t pc).pc u = s.pc u := if_neg h

@[simp] theorem goto_job : (s.goto t pc).job = s.job := rfl

@[simp] theorem goto_lock : (s.goto t pc).lock = s.lock := rfl

@[simp] theorem goto_expectingIntr : (s.goto t pc).expectingIntr = s.expectingIntr := rfl

@[simp] theorem goto_diskDone : (s.goto t pc).diskDone = s.diskDone := rfl

@[simp] theorem withJob_pc : (s.withJob t job).pc = s.pc := rfl

@[simp] theorem withJob_self : (s.withJob t job).job t = job := if_pos rfl

theorem withJob_ne (h : u ≠ t) : (s.withJob t job).job u = s.job u := if_neg h

/-! ### The invariant -/

/-- Task `t` has the channel. -/
def Inside (s : IdeChannel) (t : Nat) : Prop := s.pc t ≠ .idle ∧ s.pc t ≠ .acquire

/-- Task `t` has given out a command and not yet been through `sema_down`. -/
def InCommand (s : IdeChannel) (t : Nat) : Prop :=
  match s.pc t with
  | .outb | .down | .blocked => True
  | .busyWait | .transfer => (s.job t).op = .write
  | _ => False

/-- No command is under way. -/
structure Quiet (s : IdeChannel) : Prop where
  nobody : ∀ t, ¬ s.InCommand t
  expecting : s.expectingIntr = false
  diskDone : s.diskDone = ⟨0, []⟩
  raised : s.raised = s.issued
  consumed : s.consumed = s.issued

/-- The command of task `t` is. -/
structure Pending (s : IdeChannel) (t : Nat) : Prop where
  self : s.InCommand t
  others : ∀ u, s.InCommand u → u = t
  waiters : s.diskDone.waiters = if s.pc t = .blocked then [t] else []
  consumed : s.consumed + 1 = s.issued
  intr : s.expectingIntr = true ∧ s.diskDone.value = 0 ∧ s.raised + 1 = s.issued ∨
    s.expectingIntr = false ∧ s.diskDone.value = 1 ∧ s.raised = s.issued ∧ s.pc t ≠ .blocked

end IdeChannel

structure IdeInv (s : IdeChannel) : Prop where
  lock : s.lock = .free ∨ ∃ t, s.lock = ⟨some t, 1⟩
  holder : ∀ t, s.Inside t ↔ s.lock.holder = some t
  command : s.Quiet ∨ ∃ t, s.Pending t

theorem ideChannelInit_inv : IdeInv ideChannelInit where
  lock := .inl rfl
  holder := fun t => by simp [IdeChannel.Inside, ideChannelInit, Mutex.free]
  command := .inl ⟨fun t => by simp [IdeChannel.InCommand, ideChannelInit], rfl, rfl, rfl, rfl⟩

/-- Two tasks do not have the channel. -/
theorem IdeInv.inside_unique (h : IdeInv s) (ht : s.Inside t) (hu : s.Inside u) : t = u :=
  Option.some.inj (((h.holder t).mp ht).symm.trans ((h.holder u).mp hu))

theorem IdeChannel.InCommand.inside (h : s.InCommand t) : s.Inside t := by
  constructor
  · intro hpc
    simp [InCommand, hpc] at h
  · intro hpc
    simp [InCommand, hpc] at h

/-- Where task `t` has the channel and no command, none is under way. -/
theorem IdeInv.quiet (h : IdeInv s) (ht : s.Inside t) (hno : ¬ s.InCommand t) : s.Quiet := by
  rcases h.command with hq | ⟨u, hu⟩
  · exact hq
  · exact absurd (h.inside_unique hu.self.inside ht ▸ hu.self) hno

/-- Where it has a command, it is the one. -/
theorem IdeInv.pending (h : IdeInv s) (ht : s.InCommand t) : s.Pending t := by
  rcases h.command with hq | ⟨u, hu⟩
  · exact absurd ht (hq.nobody t)
  · exact h.inside_unique hu.self.inside ht.inside ▸ hu

/-! ### What a step leaves alone -/

theorem IdeChannel.inCommand_congr (hpc : s'.pc u = s.pc u) (hjob : s'.job u = s.job u) :
    s'.InCommand u ↔ s.InCommand u := by
  unfold InCommand
  rw [hpc, hjob]

/-- A step of task `t` outside of a command. -/
theorem IdeInv.command_of_outside (h : IdeInv s) (hpc : ∀ u, u ≠ t → s'.pc u = s.pc u)
    (hjob : ∀ u, u ≠ t → s'.job u = s.job u) (ht : ¬ s.InCommand t) (ht' : ¬ s'.InCommand t)
    (hexp : s'.expectingIntr = s.expectingIntr) (hdone : s'.diskDone = s.diskDone)
    (hissued : s'.issued = s.issued) (hraised : s'.raised = s.raised)
    (hconsumed : s'.consumed = s.consumed) : s'.Quiet ∨ ∃ u, s'.Pending u := by
  have hin : ∀ u, s'.InCommand u ↔ s.InCommand u := by
    intro u
    by_cases hut : u = t
    · rw [hut]
      exact iff_of_false ht' ht
    · exact IdeChannel.inCommand_congr (hpc u hut) (hjob u hut)
  rcases h.command with hq | ⟨u, hu⟩
  · refine .inl ⟨fun u hu => hq.nobody u ((hin u).mp hu), hexp.trans hq.expecting,
      hdone.trans hq.diskDone, ?_, ?_⟩
    · rw [hraised, hissued, hq.raised]
    · rw [hconsumed, hissued, hq.consumed]
  · have hut : u ≠ t := fun hut => ht (hut ▸ hu.self)
    refine .inr ⟨u, (hin u).mpr hu.self, fun v hv => hu.others v ((hin v).mp hv), ?_, ?_, ?_⟩
    · rw [hdone, hu.waiters, hpc u hut]
    · rw [hconsumed, hissued, hu.consumed]
    · rw [hexp, hdone, hraised, hissued, hpc u hut]
      exact hu.intr

/-- The holder of the lock is as before where nobody comes in or goes out. -/
theorem IdeInv.holder_of_stay (h : IdeInv s) (hlock : s'.lock = s.lock)
    (hpc : ∀ u, u ≠ t → s'.pc u = s.pc u) (ht : s'.Inside t ↔ s.Inside t) (u : Nat) :
    s'.Inside u ↔ s'.lock.holder = some u := by
  rw [hlock, ← h.holder u]
  by_cases hut : u = t
  · rw [hut]
    exact ht
  · unfold IdeChannel.Inside
    rw [hpc u hut]

/-- A step of task `t` from one place outside of a command to another. -/
theorem IdeInv.goto (h : IdeInv s) (ht : ¬ s.InCommand t) (ht' : ¬ (s.goto t pc).InCommand t)
    (hin : (s.goto t pc).Inside t ↔ s.Inside t) : IdeInv (s.goto t pc) where
  lock := h.lock
  holder := h.holder_of_stay rfl (fun _ hu => IdeChannel.goto_ne hu) hin
  command :=
    h.command_of_outside (fun _ hu => IdeChannel.goto_ne hu) (fun _ _ => rfl) ht ht' rfl rfl
    rfl rfl rfl

/-- The same with a change of its call. -/
theorem IdeInv.withJob_goto (h : IdeInv s) (ht : ¬ s.InCommand t)
    (ht' : ¬ ((s.withJob t job).goto t pc).InCommand t)
    (hin : ((s.withJob t job).goto t pc).Inside t ↔ s.Inside t) :
    IdeInv ((s.withJob t job).goto t pc) where
  lock := h.lock
  holder := h.holder_of_stay rfl (fun _ hu => IdeChannel.goto_ne hu) hin
  command := h.command_of_outside (fun _ hu => IdeChannel.goto_ne hu)
    (fun _ hu => IdeChannel.withJob_ne hu) ht ht' rfl rfl rfl rfl rfl

/-- A step inside a command. -/
theorem IdeInv.goto_command (h : IdeInv s) (ht : s.InCommand t) (ht' : (s.goto t pc).InCommand t)
    (hpc : s.pc t ≠ .blocked) (hpc' : pc ≠ .blocked) : IdeInv (s.goto t pc) := by
  have hp := h.pending ht
  refine ⟨h.lock, h.holder_of_stay rfl (fun _ hu => IdeChannel.goto_ne hu)
    (iff_of_true ht'.inside ht.inside), .inr ⟨t, ht', fun u hu => ?_, ?_, hp.consumed, ?_⟩⟩
  · by_contra hut
    exact hut (hp.others u
      ((IdeChannel.inCommand_congr (IdeChannel.goto_ne hut) (congrFun rfl u)).mp hu))
  · rw [IdeChannel.goto_self, if_neg hpc']
    exact hp.waiters.trans (if_neg hpc)
  · rw [IdeChannel.goto_self]
    exact hp.intr.imp_right fun hr => ⟨hr.1, hr.2.1, hr.2.2.1, hpc'⟩

/-! ### The steps -/

/-- What may stop a call: its own checks of the sector and the answer of the drive. -/
def Halt.OfTransfer (e : Halt) : Prop :=
  ∃ func condition, e = .panic func condition ∧ func ∈ ["ide_read", "ide_write", "select_sector"]

theorem IdeJob.func_mem (job : IdeJob) : job.func ∈ ["ide_read", "ide_write", "select_sector"] := by
  unfold func
  cases job.op with
  | read => simp
  | write => simp

theorem assert_ofTransfer {c : Prop} [Decidable c] {func condition : String} {e : Halt}
    (hfunc : func ∈ ["ide_read", "ide_write", "select_sector"])
    (h : ASSERT c func condition = .error e) : e.OfTransfer := by
  unfold ASSERT at h
  split at h
  · exact absurd h (by simp)
  · exact ⟨func, condition, (Except.error.inj h).symm, hfunc⟩

theorem wp_ideCall (h : IdeInv s) (hidle : s.pc t = .idle) (op : IdeOp) (name : String)
    (lba secCnt : UInt32) :
    Prog.wp Halt.OfTransfer (ideCall t op name lba secCnt) (fun _ => IdeInv) s := by
  refine Prog.wp_bind (Prog.wp_lift (fun _ _ => ?_) fun _ => assert_ofTransfer (IdeJob.func_mem _))
  refine Prog.wp_bind (Prog.wp_lift (fun _ _ => ?_) fun _ => assert_ofTransfer (IdeJob.func_mem _))
  refine Prog.wp_modify (h.withJob_goto ?_ ?_ ?_)
  · simp [IdeChannel.InCommand, hidle]
  · simp [IdeChannel.InCommand]
  · simp [IdeChannel.Inside, hidle]

/-- `lock_acquire` -/
theorem IdeInv.acquire (h : IdeInv s) (hpc : s.pc t = .acquire) (hopen : s.lock.Open t) :
    IdeInv ({ s with lock := s.lock.acquire t }.goto t .loop) := by
  have hnone : s.lock.holder = none := by
    refine hopen.resolve_right fun hself => ?_
    exact ((h.holder t).mpr hself).2 hpc
  have hfree : s.lock = .free := by
    refine h.lock.resolve_right fun ⟨u, hu⟩ => ?_
    rw [hu] at hnone
    cases hnone
  refine ⟨.inr ⟨t, by rw [IdeChannel.goto_lock, hfree]; rfl⟩, fun u => ?_,
    h.command_of_outside (fun u hu => IdeChannel.goto_ne hu) (fun _ _ => rfl)
    ?_ ?_ rfl rfl rfl rfl rfl⟩
  · by_cases hut : u = t
    · simp [hut, IdeChannel.Inside, Mutex.acquire]
    · rw [IdeChannel.Inside, IdeChannel.goto_ne hut]
      refine iff_of_false (fun hin => ?_) fun hself => hut (Option.some.inj hself).symm
      have hself := (h.holder u).mp hin
      rw [hnone] at hself
      cases hself
  · simp [IdeChannel.InCommand, hpc]
  · simp [IdeChannel.InCommand]

/-- `lock_release` -/
theorem IdeInv.release (h : IdeInv s) (hpc : s.pc t = .release) :
    IdeInv ({ s with lock := s.lock.release }.goto t .idle) := by
  have hin : s.Inside t := by simp [IdeChannel.Inside, hpc]
  have hself := (h.holder t).mp hin
  have hfree : s.lock.release = .free := by
    rcases h.lock with hfree | ⟨u, hu⟩
    · rw [hfree] at hself
      cases hself
    · rw [hu]
      rfl
  refine ⟨.inl hfree, fun u => ?_,
    h.command_of_outside (fun u hu => IdeChannel.goto_ne hu) (fun _ _ => rfl)
    ?_ ?_ rfl rfl rfl rfl rfl⟩
  · rw [IdeChannel.goto_lock]
    show _ ↔ s.lock.release.holder = some u
    rw [hfree]
    refine iff_of_false (fun hu => ?_) (by simp [Mutex.free])
    by_cases hut : u = t
    · rw [hut, IdeChannel.Inside, IdeChannel.goto_self] at hu
      exact hu.1 rfl
    · rw [IdeChannel.Inside, IdeChannel.goto_ne hut] at hu
      exact hut (h.inside_unique hu hin)
  · simp [IdeChannel.InCommand, hpc]
  · simp [IdeChannel.InCommand]

/-- `cmd_out`, its first statement -/
theorem IdeInv.cmdOut (h : IdeInv s) (hpc : s.pc t = .cmdOut) :
    IdeInv ({ s with expectingIntr := true, issued := s.issued + 1 }.goto t .outb) := by
  have hin : s.Inside t := by simp [IdeChannel.Inside, hpc]
  have hq := h.quiet hin (by simp [IdeChannel.InCommand, hpc])
  refine ⟨h.lock, h.holder_of_stay rfl (fun u hu => IdeChannel.goto_ne hu)
    (iff_of_true (by simp [IdeChannel.Inside]) hin), .inr ⟨t, ?_, fun u hu => ?_, ?_, ?_, ?_⟩⟩
  · simp [IdeChannel.InCommand]
  · by_contra hut
    exact hq.nobody u
      ((IdeChannel.inCommand_congr (IdeChannel.goto_ne hut) (congrFun rfl u)).mp hu)
  · simp [hq.diskDone]
  · show s.consumed + 1 = s.issued + 1
    rw [hq.consumed]
  · refine .inl ⟨rfl, ?_, ?_⟩
    · show s.diskDone.value = 0
      rw [hq.diskDone]
    · show s.raised + 1 = s.issued + 1
      rw [hq.raised]

/-- A command is over when its task has the semaphore. -/
theorem IdeInv.consume (h : IdeInv s) (hp : s.Pending t) (hexp : s.expectingIntr = false)
    (hraised : s.raised = s.issued) (hpc : s.pc t = .down)
    (hlock : s'.lock = s.lock) (hexp' : s'.expectingIntr = s.expectingIntr)
    (hdone : s'.diskDone = ⟨0, []⟩) (hothers : ∀ u, u ≠ t → s'.pc u = s.pc u ∧ s'.job u = s.job u)
    (hin : s'.Inside t) (hno : ¬ s'.InCommand t) (hissued : s'.issued = s.issued)
    (hraised' : s'.raised = s.raised) (hconsumed : s'.consumed = s.consumed + 1) : IdeInv s' := by
  refine ⟨hlock ▸ h.lock, h.holder_of_stay hlock (fun u hu => (hothers u hu).1)
    (iff_of_true hin (by simp [IdeChannel.Inside, hpc])), .inl ⟨fun u hu => ?_, hexp'.trans hexp,
    hdone, ?_, ?_⟩⟩
  · by_cases hut : u = t
    · exact hno (hut ▸ hu)
    · have hcommand := (IdeChannel.inCommand_congr (hothers u hut).1 (hothers u hut).2).mp hu
      exact hut (hp.others u hcommand)
  · rw [hraised', hissued, hraised]
  · rw [hconsumed, hissued, hp.consumed]

theorem wp_ideDown (h : IdeInv s) (hpc : s.pc t = .down) :
    Prog.wp Halt.OfTransfer (ideDown t) (fun _ => IdeInv) s := by
  have hp := h.pending (t := t) (by simp [IdeChannel.InCommand, hpc])
  have hwaiters : s.diskDone.waiters = [] := by
    rw [hp.waiters, hpc]
    rfl
  refine Prog.wp_get_bind ?_
  rcases hp.intr with ⟨hexp, hvalue, hraised⟩ | ⟨hexp, hvalue, hraised, _⟩
  · -- the interrupt has not come: the task blocks
    have hrun : s.diskDone.tryDown t = .ok (⟨0, [t]⟩, false) := by
      rw [Semaphore.tryDown, if_pos hvalue, ASSERT_pos (by simp [hwaiters])]
      simp [hwaiters, hvalue]
    refine Prog.wp_bind (Prog.wp_of_run (Prog.lift_run.mpr ⟨hrun, rfl⟩) (Prog.wp_set ?_))
    refine ⟨h.lock, h.holder_of_stay rfl (fun u hu => IdeChannel.goto_ne hu)
      (iff_of_true (by simp [IdeChannel.Inside]) (by simp [IdeChannel.Inside, hpc])),
      .inr ⟨t, ?_, fun u hu => ?_, ?_, hp.consumed, ?_⟩⟩
    · simp [IdeChannel.InCommand]
    · by_contra hut
      exact hut (hp.others u
        ((IdeChannel.inCommand_congr (IdeChannel.goto_ne hut) (congrFun rfl u)).mp hu))
    · simp
    · exact .inl ⟨hexp, rfl, hraised⟩
  · have hrun : s.diskDone.tryDown t = .ok (⟨0, []⟩, true) := by
      rw [Semaphore.tryDown, if_neg (by omega), ASSERT_pos (by omega)]
      simp [hwaiters, hvalue]
    refine Prog.wp_bind (Prog.wp_of_run (Prog.lift_run.mpr ⟨hrun, rfl⟩) ?_)
    cases hop : (s.job t).op with
    | read =>
        simp only [if_true, hop]
        refine Prog.wp_set (h.consume hp hexp hraised hpc rfl rfl rfl
          (fun u hu => ⟨IdeChannel.goto_ne hu, rfl⟩) ?_ ?_ rfl rfl rfl)
        · simp [IdeChannel.Inside]
        · simp [IdeChannel.InCommand, hop]
    | write =>
        simp only [if_true, hop]
        refine Prog.wp_set (h.consume hp hexp hraised hpc rfl rfl rfl
          (fun u hu => ⟨IdeChannel.goto_ne hu, IdeChannel.withJob_ne hu⟩) ?_ ?_ rfl rfl rfl)
        · simp [IdeChannel.Inside]
        · simp [IdeChannel.InCommand]

theorem wp_ideTransfer (h : IdeInv s) (hpc : s.pc t = .transfer) :
    Prog.wp Halt.OfTransfer (ideTransfer t) (fun _ => IdeInv) s := by
  refine Prog.wp_get_bind ?_
  cases hop : (s.job t).op with
  | read =>
      refine Prog.wp_set (h.withJob_goto ?_ ?_ ?_)
      · simp [IdeChannel.InCommand, hpc, hop]
      · simp [IdeChannel.InCommand]
      · simp [IdeChannel.Inside, hpc]
  | write =>
      refine Prog.wp_set (h.goto_command ?_ ?_ (by simp [hpc]) (by simp))
      · simp [IdeChannel.InCommand, hpc, hop]
      · simp [IdeChannel.InCommand]

theorem wp_ideStep (h : IdeInv s) (hidle : s.pc t ≠ .idle) (hblocked : s.pc t ≠ .blocked)
    (hopen : s.pc t = .acquire → s.lock.Open t) (ready : Bool) :
    Prog.wp Halt.OfTransfer (ideStep t ready) (fun _ => IdeInv) s := by
  refine Prog.wp_get_bind ?_
  cases hpc : s.pc t with
  | idle => exact absurd hpc hidle
  | acquire => exact Prog.wp_set (h.acquire hpc (hopen hpc))
  | loop =>
      refine Prog.wp_ite (fun _ => ?_) fun _ => ?_
      · refine Prog.wp_bind (Prog.wp_lift (fun _ _ => Prog.wp_set (h.goto ?_ ?_ ?_))
          fun _ => assert_ofTransfer (by simp))
        · simp [IdeChannel.InCommand, hpc]
        · simp [IdeChannel.InCommand]
        · simp [IdeChannel.Inside, hpc]
      · refine Prog.wp_set (h.goto ?_ ?_ ?_)
        · simp [IdeChannel.InCommand, hpc]
        · simp [IdeChannel.InCommand]
        · simp [IdeChannel.Inside, hpc]
  | cmdOut => exact Prog.wp_set (h.cmdOut hpc)
  | outb =>
      refine Prog.wp_set (h.goto_command ?_ ?_ hblocked ?_)
      · simp [IdeChannel.InCommand, hpc]
      · cases hop : (s.job t).op with
        | read => simp [IdeChannel.InCommand, IdeOp.afterOut]
        | write => simp [IdeChannel.InCommand, IdeOp.afterOut, hop]
      · cases (s.job t).op with
        | read => simp [IdeOp.afterOut]
        | write => simp [IdeOp.afterOut]
  | down => exact wp_ideDown h hpc
  | blocked => exact absurd hpc hblocked
  | busyWait =>
      refine Prog.wp_ite (fun _ => Prog.wp_set ?_) fun _ => ?_
      · by_cases hop : (s.job t).op = .write
        · refine h.goto_command ?_ ?_ hblocked (by simp)
          · simp [IdeChannel.InCommand, hpc, hop]
          · simp [IdeChannel.InCommand, hop]
        · refine h.goto ?_ ?_ ?_
          · simp [IdeChannel.InCommand, hpc, hop]
          · simp [IdeChannel.InCommand, hop]
          · simp [IdeChannel.Inside, hpc]
      · refine Prog.wp_lift (fun _ hok => by cases hok) fun e he => ?_
        exact ⟨_, _, (Except.error.inj he).symm, IdeJob.func_mem _⟩
  | transfer => exact wp_ideTransfer h hpc
  | release =>
      have hself := (h.holder t).mp (by simp [IdeChannel.Inside, hpc])
      exact Prog.wp_bind (Prog.wp_of_run (Prog.lift_run.mpr ⟨ASSERT_pos hself _ _, rfl⟩)
        (Prog.wp_set (h.release hpc)))

/-- An interrupt with the flag up is the one the command waits for. -/
theorem wp_intrHdHandler {E : Halt → Prop} (h : IdeInv s) :
    Prog.wp E intrHdHandler (fun _ => IdeInv) s := by
  refine Prog.wp_get_bind (Prog.wp_ite (fun hexp => ?_) fun _ => Prog.wp_pure h)
  obtain ⟨t, hp⟩ : ∃ t, s.Pending t := by
    refine h.command.resolve_left fun hq => ?_
    rw [hq.expecting] at hexp
    cases hexp
  obtain ⟨hvalue, hraised⟩ : s.diskDone.value = 0 ∧ s.raised + 1 = s.issued := by
    rcases hp.intr with hi | hi
    · exact hi.2
    · rw [hi.1] at hexp
      cases hexp
  have hrun : s.diskDone.up = .ok (⟨1, s.diskDone.waiters.tail⟩, s.diskDone.waiters.head?) := by
    rw [Semaphore.up, ASSERT_pos hvalue, hvalue]
    rfl
  refine Prog.wp_bind (Prog.wp_of_run (Prog.lift_run.mpr ⟨hrun, rfl⟩) ?_)
  by_cases hpc : s.pc t = .blocked
  · rw [hp.waiters, if_pos hpc]
    refine Prog.wp_bind (Prog.wp_of_run (Prog.lift_run.mpr ⟨ASSERT_pos hpc _ _, rfl⟩)
      (Prog.wp_set ⟨h.lock, h.holder_of_stay rfl (fun u hu => IdeChannel.goto_ne hu)
        (iff_of_true (by simp [IdeChannel.Inside]) hp.self.inside),
        .inr ⟨t, ?_, fun u hu => ?_, ?_, hp.consumed, .inr ⟨rfl, rfl, hraised, ?_⟩⟩⟩))
    · simp [IdeChannel.InCommand]
    · by_contra hut
      exact hut (hp.others u
        ((IdeChannel.inCommand_congr (IdeChannel.goto_ne hut) (congrFun rfl u)).mp hu))
    · simp
    · simp
  · rw [hp.waiters, if_neg hpc]
    exact Prog.wp_set ⟨h.lock, h.holder, .inr ⟨t, hp.self, hp.others, (if_neg hpc).symm,
      hp.consumed, .inr ⟨rfl, rfl, hraised, hpc⟩⟩⟩

theorem wp_ideExec (h : IdeInv s) {a : IdeAction} (hen : s.Enabled a) :
    Prog.wp Halt.OfTransfer (ideMachine.exec a) (fun _ => IdeInv) s := by
  cases a with
  | call t op name lba secCnt => exact wp_ideCall h hen op name lba secCnt
  | step t ready => exact wp_ideStep h hen.1 hen.2.1 hen.2.2 ready
  | intr => exact wp_intrHdHandler h

/-! ### Runs -/

/-- The protocol: the semaphore is 0 or 1, its checks never fail, nothing is pending when
`cmd_out` is called, and each command takes exactly one `sema_up`. -/
structure ChannelSafe (s : IdeChannel) : Prop where
  value : s.diskDone.value = 0 ∨ s.diskDone.value = 1
  noAssert : ∀ a, s.Enabled a → ∀ e, ideMachine.exec a s = .error e → e.OfTransfer
  noneBefore : ∀ t, s.pc t = .cmdOut →
    s.diskDone.value = 0 ∧ s.expectingIntr = false ∧ s.raised = s.consumed
  during : ∀ t, s.InCommand t →
    s.consumed + 1 = s.issued ∧ s.raised = s.consumed + s.diskDone.value
  between : ∀ t, s.Inside t → ¬ s.InCommand t → s.raised = s.issued ∧ s.consumed = s.issued

theorem IdeInv.safe (h : IdeInv s) : ChannelSafe s where
  value := by
    rcases h.command with hq | ⟨t, hp⟩
    · exact .inl (by rw [hq.diskDone])
    · exact hp.intr.imp (fun hi => hi.2.1) fun hi => hi.2.1
  noAssert := fun a hen e herr => (wp_ideExec h hen).of_error herr
  noneBefore := by
    intro t hpc
    have hq := h.quiet (t := t) (by simp [IdeChannel.Inside, hpc])
      (by simp [IdeChannel.InCommand, hpc])
    exact ⟨by rw [hq.diskDone], hq.expecting, hq.raised.trans hq.consumed.symm⟩
  during := by
    intro t ht
    have hp := h.pending ht
    have hconsumed := hp.consumed
    refine ⟨hconsumed, ?_⟩
    rcases hp.intr with ⟨_, hvalue, hraised⟩ | ⟨_, hvalue, hraised, _⟩
    · omega
    · omega
  between := by
    intro t hin hno
    have hq := h.quiet hin hno
    exact ⟨hq.raised, hq.consumed⟩

/-- **Whatever tasks call and whenever interrupts come, the completion protocol holds.** -/
theorem ide_channel_safe (s : IdeChannel) (h : ideMachine.Reach (fun _ _ => True) s) :
    ChannelSafe s := by
  have hinv : IdeInv s := h.invariant (E := Halt.OfTransfer)
    (by rintro _ rfl; exact ideChannelInit_inv) fun _ _ hinv hen _ => wp_ideExec hinv hen
  exact hinv.safe

/-- A read of one sector, with an interrupt before it, the one it waits for, and two after. -/
theorem ide_channel_safe_read : ∃ s, ideMachine.Reach (fun _ _ => True) s ∧ s.pc 0 = .idle ∧
    s.consumed = 1 ∧ ChannelSafe s := by
  have hrun : ((ideMachine.play [.intr, .call 0 .read "sdb" 0 1, .step 0 true, .intr, .step 0 true,
      .step 0 true, .step 0 true, .step 0 true, .intr, .intr, .step 0 true, .step 0 true,
      .step 0 true, .intr, .step 0 true, .step 0 true] ideChannelInit).map
      fun s => (s.pc 0, s.consumed)) = some (.idle, 1) := by decide
  obtain ⟨s, hplay, hs⟩ := Option.map_eq_some_iff.mp hrun
  rw [Prod.mk.injEq] at hs
  have hreach := Machine.reach_of_play (.start rfl) hplay
  exact ⟨s, hreach, hs.1, hs.2, ide_channel_safe s hreach⟩

end ZyOs
