/-
Forks and the names of processes.

The name of a process follows from its history: a fork lengthens the parent's, an exec cuts the
path.  The check in front of the `strcat` is on the length alone, so a fork goes through as long as
the history has left the name short.  That no other check of `sys_fork` fails is the scheduler's
invariant and that of the descriptors.
-/
import ZyOs.Kernel.Fork
import ZyOs.Proofs.Descriptors
import ZyOs.Proofs.SchedRuns
import ZyOs.Proofs.Text

namespace ZyOs

open Library Library.Prog

/-! ### A process stays one -/

/-- There is a PCB on page `t`, and it is that of a process. -/
def IsProcess (t : Nat) (s : Sched) : Prop := t ∈ s.pcbs ∧ (s.task t).pgDir = true

namespace IsProcess

variable {t : Nat}

theorem modify {f : Sched → Sched} (hpcbs : ∀ s, (f s).pcbs = s.pcbs)
    (htask : ∀ s, (f s).task = s.task) : Preserves (IsProcess t) (modify f : SchedM Unit) :=
  Preserves.modify fun s hs => by rwa [IsProcess, hpcbs, htask]

theorem intrSetStatus (status : Bool) : Preserves (IsProcess t) (intrSetStatus status) :=
  modify (fun _ => rfl) fun _ => rfl

theorem intrDisable : Preserves (IsProcess t) intrDisable :=
  Preserves.get_bind fun _ hs => Preserves.bind (Preserves.set hs) fun _ => Preserves.pure _

theorem pushFrame (f : Frame) : Preserves (IsProcess t) (pushFrame f) :=
  modify (fun _ => rfl) fun _ => rfl

theorem readyAppend (u : Nat) : Preserves (IsProcess t) (readyAppend u) :=
  modify (fun _ => rfl) fun _ => rfl

theorem readyPush (u : Nat) : Preserves (IsProcess t) (readyPush u) :=
  modify (fun _ => rfl) fun _ => rfl

theorem allAppend (u : Nat) : Preserves (IsProcess t) (allAppend u) :=
  modify (fun _ => rfl) fun _ => rfl

theorem putSema (psema : Nat) (v : Semaphore) : Preserves (IsProcess t) (putSema psema v) :=
  modify (fun _ => rfl) fun _ => rfl

theorem putWaiter (waiter : Nat) (u : Option Nat) : Preserves (IsProcess t) (putWaiter waiter u) :=
  modify (fun _ => rfl) fun _ => rfl

/-- What is written into the PCB leaves it a process. -/
theorem putTask {u : Nat} {p : TaskStruct} (hp : u = t → p.pgDir = true) :
    Preserves (IsProcess t) (putTask u p) := by
  refine Preserves.modify fun s hs => ⟨hs.1, ?_⟩
  show (if t = u then p else s.task t).pgDir = true
  by_cases htu : t = u
  · rw [if_pos htu]
    exact hp htu.symm
  · rw [if_neg htu]
    exact hs.2

theorem setStatus (u : Nat) (stat : TaskStatus) : Preserves (IsProcess t) (setStatus u stat) := by
  refine Preserves.get_bind fun s hs => putTask ?_
  rintro rfl
  exact hs.2

theorem threadUnblock (u : Nat) : Preserves (IsProcess t) (threadUnblock u) := by
  refine Preserves.bind intrDisable fun _ => Preserves.get_bind fun _ _ => ?_
  refine Preserves.bind (Preserves.lift _) fun _ => Preserves.get_bind fun _ _ => ?_
  refine Preserves.ite (fun _ => Preserves.get_bind fun _ _ => ?_) fun _ => intrSetStatus _
  refine Preserves.bind (Preserves.lift _) fun _ => Preserves.bind (readyPush u) fun _ => ?_
  exact Preserves.bind (setStatus u _) fun _ => intrSetStatus _

theorem schedule : Preserves (IsProcess t) schedule := by
  refine Preserves.get_bind fun _ _ => Preserves.bind (Preserves.lift _) fun _ => ?_
  refine Preserves.bind (Preserves.get_bind fun s hs => Preserves.ite (fun _ => ?_) fun _ =>
    Preserves.pure _) fun _ => ?_
  · refine Preserves.bind (Preserves.lift _) fun _ => Preserves.bind (readyAppend _) fun _ =>
      putTask ?_
    intro hcur
    show (s.task s.cur).pgDir = true
    rw [hcur]
    exact hs.2
  refine Preserves.bind (Preserves.get_bind fun s hs => Preserves.ite (fun _ => ?_) fun _ =>
    Preserves.pure _) fun _ => ?_
  · exact Preserves.bind (Preserves.set hs) fun _ => threadUnblock _
  refine Preserves.get_bind fun _ _ => Preserves.bind (Preserves.lift _) fun _ =>
    Preserves.get_bind fun s hs => ?_
  cases s.ready with
  | nil => exact Preserves.lift _
  | cons next rest => exact Preserves.bind (Preserves.set hs) fun _ => setStatus _ _

theorem threadBlock (stat : TaskStatus) : Preserves (IsProcess t) (threadBlock stat) := by
  refine Preserves.bind (Preserves.lift _) fun _ => Preserves.bind intrDisable fun _ => ?_
  refine Preserves.bind (pushFrame _) fun _ => Preserves.get_bind fun _ _ => ?_
  exact Preserves.bind (setStatus _ _) fun _ => schedule

theorem threadYield : Preserves (IsProcess t) threadYield := by
  refine Preserves.get_bind fun _ _ => Preserves.bind intrDisable fun _ => ?_
  refine Preserves.get_bind fun _ _ => Preserves.bind (Preserves.lift _) fun _ => ?_
  refine Preserves.bind (readyAppend _) fun _ => Preserves.bind (pushFrame _) fun _ => ?_
  exact Preserves.bind (setStatus _ _) fun _ => schedule

theorem intrTimerHandler : Preserves (IsProcess t) intrTimerHandler := by
  refine Preserves.get_bind fun s hs => ?_
  have hcur : s.cur = t → (s.task s.cur).pgDir = true := by
    rintro rfl
    exact hs.2
  refine Preserves.bind (putTask hcur) fun _ => Preserves.bind (modify (fun _ => rfl) fun _ => rfl)
    fun _ => ?_
  exact Preserves.ite (fun _ => schedule) fun _ => putTask hcur

theorem semaLoop (psema : Nat) (old : Bool) : Preserves (IsProcess t) (semaLoop psema old) := by
  refine Preserves.get_bind fun _ _ => Preserves.ite (fun _ => ?_) fun _ => ?_
  · refine Preserves.bind (Preserves.lift _) fun _ => Preserves.bind (putSema _ _) fun _ => ?_
    exact Preserves.bind (pushFrame _) fun _ => threadBlock _
  · exact Preserves.bind (putSema _ _) fun _ => Preserves.bind (Preserves.lift _) fun _ =>
      intrSetStatus _

theorem semaUp (psema : Nat) : Preserves (IsProcess t) (semaUp psema) := by
  refine Preserves.bind intrDisable fun _ => Preserves.get_bind fun _ _ => ?_
  refine Preserves.bind (Preserves.lift _) fun _ => Preserves.bind ?_ fun _ => ?_
  · refine Preserves.get_bind fun s _ => ?_
    dsimp only
    cases (s.sema psema).waiters with
    | nil => exact Preserves.pure _
    | cons u rest => exact Preserves.bind (putSema _ _) fun _ => threadUnblock u
  · refine Preserves.get_bind fun _ _ => Preserves.bind (putSema _ _) fun _ => ?_
    exact Preserves.bind (Preserves.lift _) fun _ => intrSetStatus _

theorem ioqWait (waiter : Nat) : Preserves (IsProcess t) (ioqWait waiter) := by
  refine Preserves.get_bind fun _ _ => Preserves.bind (Preserves.lift _) fun _ => ?_
  refine Preserves.bind (Preserves.lift _) fun _ => Preserves.bind (putWaiter _ _) fun _ => ?_
  exact threadBlock _

theorem ioqWakeup (waiter : Nat) : Preserves (IsProcess t) (ioqWakeup waiter) := by
  refine Preserves.get_bind fun s _ => Preserves.bind (Preserves.lift _) fun _ => ?_
  cases s.waiter waiter with
  | none => exact Preserves.lift _
  | some u => exact Preserves.bind (threadUnblock u) fun _ => putWaiter _ _

theorem interrupt {handler : SchedM Unit} (h : Preserves (IsProcess t) handler) :
    Preserves (IsProcess t) (interrupt handler) :=
  Preserves.bind (pushFrame _) fun _ => Preserves.bind (intrSetStatus _) fun _ => h

/-- A new PCB on another page. -/
theorem newTask {u : Nat} (htu : t ≠ u) (p : TaskStruct) (start : Frame) :
    Preserves (IsProcess t) (newTask u p start) := by
  refine Preserves.modify fun s hs => ⟨Finset.mem_insert_of_mem hs.1, ?_⟩
  show (if t = u then p else s.task t).pgDir = true
  rw [if_neg htu]
  exact hs.2

theorem link (u : Nat) (func : String) : Preserves (IsProcess t) (link u func) := by
  refine Preserves.get_bind fun _ _ => Preserves.bind (Preserves.lift _) fun _ => ?_
  refine Preserves.bind (readyAppend u) fun _ => Preserves.get_bind fun _ _ => ?_
  exact Preserves.bind (Preserves.lift _) fun _ => allAppend u

theorem resume (f : Frame) : Preserves (IsProcess t) (resume f) := by
  cases f with
  | semaLoop psema old => exact semaLoop psema old
  | restore old => exact intrSetStatus old
  | intrExit => exact intrSetStatus true
  | kernelThread => exact intrSetStatus true
  | hlt => exact intrSetStatus true

/-- No step of the scheduler makes a process anything else. -/
theorem exec {s s' : Sched} {op : SchedOp} (hs : IsProcess t s) (hop : op.Enabled s)
    (hfork : ∀ child, op ≠ .fork child) (hrun : op.exec s = .ok ((), s')) : IsProcess t s' := by
  have hkeep : Preserves (IsProcess t) op.exec := by
    cases op with
    | tick => exact interrupt intrTimerHandler
    | diskIntr psema => exact interrupt (semaUp psema)
    | keyIntr waiter => exact interrupt (ioqWakeup waiter)
    | return_ f => exact Preserves.bind (modify (fun _ => rfl) fun _ => rfl) fun _ => resume f
    | idle => exact Preserves.bind (pushFrame _) fun _ => threadBlock _
    | syscall => exact interrupt (Preserves.pure _)
    | setIntr status => exact intrSetStatus status
    | yield => exact threadYield
    | block stat => exact threadBlock stat
    | down psema => exact Preserves.bind intrDisable fun _ => semaLoop psema _
    | up psema => exact semaUp psema
    | wait waiter => exact ioqWait waiter
    | wakeup waiter => exact ioqWakeup waiter
    | start u prio =>
        have htu : t ≠ u := fun htu => hop.2 (htu ▸ hs.1)
        exact Preserves.bind (newTask htu _ _) fun _ => link u _
    | fork child => exact absurd rfl (hfork child)
  exact hkeep s () s' hs hrun

end IsProcess

/-! ### Names -/

/-- The name an exec leaves: the path as far as it fits. -/
def execName (path : Mem) : List UInt8 := path.stringWithin (taskNameLen - 1)

theorem spells_initThreadName {name : List UInt8} (h : 0 ∉ name) :
    Library.Spells (initThreadName name) name := by
  have hsrc := spells_cstr h
  rw [initThreadName, strncpy_run _ _ _ fun j hj => by
    rw [Nat.zero_add]
    exact hsrc.ne_zero hj]
  refine hsrc.congr fun i hi => ?_
  rcases Nat.lt_or_ge i name.length with hlt | hge
  · rw [Mem.splice_in (Nat.zero_le i) (by omega), Mem.drop_zero, Nat.sub_zero]
  · rw [Mem.splice_out (.inr (by omega)), Nat.le_antisymm hi hge, hsrc.at_end]

theorem spells_execName (name path : Mem) :
    Library.Spells (Function.update (name.splice 0 path taskNameLen) (taskNameLen - 1) 0)
      (execName path) := by
  have hfirst : ∀ i < taskNameLen - 1,
      Function.update (name.splice 0 path taskNameLen) (taskNameLen - 1) 0 i = path i := by
    intro i hi
    rw [Function.update_of_ne (Nat.ne_of_lt hi),
      Mem.splice_in (Nat.zero_le i) (by rw [taskNameLen] at *; omega), Nat.sub_zero]
  rw [execName, ← Mem.stringWithin_congr _ _ _ hfirst]
  exact Mem.spells_stringWithin _ _ (Function.update_self ..)

/-! ### A fork -/

section Fork

variable {env : FsEnv} {s s' : Processes} {child : Nat} {l : List UInt8}

theorem onSched_run {α : Type} {x : SchedM α} {a : α} {sched : Sched}
    (h : x s.sched = .ok (a, sched)) : onSched x s = .ok (a, { s with sched := sched }) := by
  unfold onSched
  rw [h]

theorem wp_onSched {α : Type} {E : Halt → Prop} {x : SchedM α} {Q : α → Processes → Prop}
    (h : wp E x (fun a sched => Q a { s with sched := sched }) s.sched) : wp E (onSched x) Q s := by
  unfold wp onSched
  cases hrun : x s.sched with
  | ok r => exact h.of_run hrun
  | error e => exact h.of_error hrun

theorem wp_onFiles {α : Type} {E : Halt → Prop} {x : FsM α} {Q : α → Processes → Prop}
    (h : wp E x (fun a fs => Q a { s with fs := fs }) s.fs) : wp E (onFiles x) Q s := by
  unfold wp onFiles
  cases hrun : x s.fs with
  | ok r => exact h.of_run hrun
  | error e => exact h.of_error hrun

/-- The scheduler behind the gate. -/
def Sched.entered (s : Sched) : Sched :=
  { s with kont := fun t => if t = s.cur then .intrExit :: s.kont t else s.kont t, intr := false }

theorem forkEntry_run {s : Sched} (hcur : IsProcess s.cur s) :
    forkEntry s = .ok ((), s.entered) := by
  unfold forkEntry pushFrame ZyOs.intrSetStatus
  rw [bind_of_run (modify_run _ _), bind_of_run (modify_run _ _), bind_of_run (get_run _)]
  exact assertSched_run ⟨rfl, hcur.2⟩ _ _ _

/-- The task a fork makes. -/
def TaskStruct.forked (p : TaskStruct) : TaskStruct :=
  { p with status := .ready, ticks := p.priority, elapsedTicks := 0 }

/-- The PCB has been copied. -/
def Processes.copied (s : Processes) (child : Nat) (name : Mem) : Processes where
  sched := { s.sched.withTask child (s.sched.task s.sched.cur).forked with
    kont := fun u => if u = child then [.intrExit] else s.sched.kont u
    pcbs := insert child s.sched.pcbs }
  fs := { s.fs with
    tasks := fun t => if t = child then s.fs.tasks s.sched.cur else s.fs.tasks t }
  name := Function.update s.name child name

theorem copyPcb_run (hname : Library.Spells (s.name s.sched.cur) l) (hlen : l.length < 11) :
    copyPcbVaddrbitmapStack0 child s = .ok ((), s.copied child
      ((s.name s.sched.cur).splice l.length (cstr forkSuffix) (forkSuffix.length + 1))) := by
  have hspace : l.length < addrSpace := hlen.trans (by decide)
  have hcat := strcat_run hname (spells_cstr (l := forkSuffix) (by decide)) hspace (by decide)
  unfold copyPcbVaddrbitmapStack0 putName
  rw [bind_of_run (get_run _), bind_of_run (onSched_run rfl), bind_of_run (modify_run _ _),
    bind_of_run (modify_run _ _), bind_of_run (get_run _)]
  simp only [Function.update_self]
  rw [strlen_run hname hspace, bind_of_run (lift_ok _ _), ASSERT_pos hlen,
    bind_of_run (lift_ok _ _), bind_of_run (get_run _)]
  simp only [Function.update_self]
  rw [hcat, bind_of_run (lift_ok _ _), modify_run]
  simp only [Function.update_idem]
  rfl

theorem copyPcb_cases {s₁ : Processes} (h : copyPcbVaddrbitmapStack0 child s = .ok ((), s₁)) :
    ∃ name, s₁ = s.copied child name := by
  unfold copyPcbVaddrbitmapStack0 putName at h
  rw [bind_of_run (get_run _), bind_of_run (onSched_run rfl), bind_of_run (modify_run _ _),
    bind_of_run (modify_run _ _), bind_of_run (get_run _)] at h
  obtain ⟨len, _, hlen, h⟩ := bind_run.mp h
  obtain ⟨-, rfl⟩ := lift_run.mp hlen
  obtain ⟨_, _, hassert, h⟩ := bind_run.mp h
  obtain ⟨-, rfl⟩ := lift_run.mp hassert
  rw [bind_of_run (get_run _)] at h
  obtain ⟨name, _, hcat, h⟩ := bind_run.mp h
  obtain ⟨-, rfl⟩ := lift_run.mp hcat
  rw [modify_run] at h
  refine ⟨name, (Prod.mk.inj (Except.ok.inj h)).2.symm.trans ?_⟩
  simp only [Function.update_idem]
  rfl

theorem copyPcb_panics (hname : Library.Spells (s.name s.sched.cur) l) (hlen : ¬ l.length < 11)
    (hspace : l.length < addrSpace) : copyPcbVaddrbitmapStack0 child s =
      .error (.panic "copy_pcb_vaddrbitmap_stack0" "strlen(child_thread->name) < 11") := by
  unfold copyPcbVaddrbitmapStack0 putName
  rw [bind_of_run (get_run _), bind_of_run (onSched_run rfl), bind_of_run (modify_run _ _),
    bind_of_run (modify_run _ _), bind_of_run (get_run _)]
  simp only [Function.update_self]
  rw [strlen_run hname hspace, bind_of_run (lift_ok _ _), ASSERT_neg hlen]
  rfl

/-- The checks on the descriptors are of no effect as long as they lead into the file table. -/
theorem wp_updateOpenCntsFrom_fair {fdTable : Nat → Int} : ∀ (n i : Nat) (fs : Fs),
    (∀ fd, i ≤ fd → fd < i + n → fdTable fd < maxFileOpen) →
    wp (fun e => ¬ e.IsPanic) (updateOpenCntsFrom fdTable n i) (fun _ _ => True) fs := by
  intro n
  induction n with
  | zero => exact fun i fs _ => wp_pure trivial
  | succ n ih =>
      intro i fs h
      have hrest : ∀ fs, wp (fun e => ¬ e.IsPanic) (updateOpenCntsFrom fdTable n (i + 1))
          (fun _ _ => True) fs :=
        fun fs => ih (i + 1) fs fun fd h1 h2 => h fd (by omega) (by omega)
      have hassert : assertFs (fdTable i < maxFileOpen) "update_inode_open_cnts"
          "global_fd < MAX_FILE_OPEN" fs = .ok ((), fs) := by
        rw [assertFs, ASSERT_pos (h i (le_refl _) (by omega))]
        rfl
      refine wp_bind (wp_of_run hassert (wp_ite (fun _ => ?_) fun _ => hrest _))
      refine wp_bind (wp_get_bind ?_)
      cases (fs.fileTable (fdTable i).toNat).fdInode with
      | none =>
          refine wp_lift (fun _ hc => nomatch hc) fun e he => ?_
          cases he
          exact id
      | some a => exact wp_pure (wp_get_bind (wp_bind (wp_modify (hrest _))))

theorem wp_updateInodeOpenCnts {fs : Fs} (h : StdDescriptors fs) (child : Nat) :
    wp (fun e => ¬ e.IsPanic) (updateInodeOpenCnts child) (fun _ => StdDescriptors) fs := by
  refine wp_mono (wp_and_returns (wp_get_bind (wp_updateOpenCntsFrom_fair _ _ _ ?_))
    ((StdDescriptors.updateInodeOpenCnts child).wp h)) fun _ _ hboth => hboth.2
  intro fd h3 h8
  rcases h.range child fd h3 (by rw [maxFilesOpenPerProc] at *; omega) with hfd | ⟨g, hg, hfd⟩
  · rw [hfd]
    decide
  · rw [hfd]
    omega

/-- What a fork leaves. -/
structure ForkDone (s s' : Processes) (child : Nat) (name : Mem) : Prop where
  inv : Inv s'.sched
  files : StdDescriptors s'.fs
  process : IsProcess child s'.sched
  old : ∀ t, IsProcess t s.sched → IsProcess t s'.sched
  names : s'.name = Function.update s.name child name

/-- Once the PCB has been copied nothing is left that a check could find wrong. -/
theorem wp_sysForkProcess_copied {name : Mem} (hinv : Inv s.sched) (hstd : StdDescriptors s.fs)
    (hcur : IsProcess s.sched.cur s.sched) (hchild : child ∉ s.sched.pcbs)
    (hcopy : copyPcbVaddrbitmapStack0 child { s with sched := s.sched.entered } =
      .ok ((), Processes.copied { s with sched := s.sched.entered } child name)) :
    wp (fun e => ¬ e.IsPanic) (sysForkProcess child) (fun _ s' => ForkDone s s' child name) s := by
  have hentered : Inv s.sched.entered :=
    (hinv.of_same (same_pushFrame .intrExit fun _ k old => by simp)).of_same (same_intr false)
  have hall : child ∉ s.sched.all := fun h => hchild ((hinv.all_iff child).mp h)
  have hready : child ∉ s.sched.ready := fun h => hall ((hinv.ready_iff child).mp h).1
  refine wp_bind (wp_of_run (onSched_run (forkEntry_run hcur)) ?_)
  refine wp_bind (wp_of_run hcopy ?_)
  refine wp_bind (wp_onFiles (wp_mono (wp_updateInodeOpenCnts (hstd.copied _ child) child)
    fun _ fs hfs => wp_onSched ?_))
  refine wp_get_bind (wp_bind (wp_of_run (assertSched_run hready _ _ _) ?_))
  refine wp_bind (wp_modify (wp_get_bind (wp_bind (wp_of_run (assertSched_run hall _ _ _) ?_))))
  refine wp_modify ⟨hentered.linked hchild rfl _, hfs, ⟨Finset.mem_insert_self _ _, ?_⟩,
    fun t ht => ⟨Finset.mem_insert_of_mem ht.1, ?_⟩, rfl⟩
  · exact (congrArg TaskStruct.pgDir (if_pos rfl)).trans hcur.2
  · have hne : t ≠ child := fun hc => hchild (hc ▸ ht.1)
    exact (congrArg TaskStruct.pgDir (if_neg hne)).trans ht.2

/-- Whoever forks is a process. -/
theorem sysForkProcess_done (hinv : Inv s.sched) (hstd : StdDescriptors s.fs)
    (hchild : child ∉ s.sched.pcbs) (hrun : sysForkProcess child s = .ok ((), s')) :
    ∃ name, ForkDone s s' child name := by
  obtain ⟨_, s₁, hentry, hrest⟩ := bind_run.mp hrun
  have hcur : IsProcess s.sched.cur s.sched := by
    refine ⟨(hinv.all_iff _).mp hinv.cur, ?_⟩
    by_contra hpg
    have hpanic : forkEntry s.sched = .error (.panic "sys_fork"
        "INTR_OFF == intr_get_status() && parent_thread->pg_dir != NULL") := by
      unfold forkEntry pushFrame ZyOs.intrSetStatus
      rw [bind_of_run (modify_run _ _), bind_of_run (modify_run _ _), bind_of_run (get_run _),
        assertSched, ASSERT_neg fun hc => hpg hc.2]
      rfl
    rw [onSched, hpanic] at hentry
    exact nomatch hentry
  rw [onSched_run (forkEntry_run hcur)] at hentry
  obtain rfl := (Prod.mk.inj (Except.ok.inj hentry)).2
  obtain ⟨_, s₂, hcopy, -⟩ := bind_run.mp hrest
  obtain ⟨name, rfl⟩ := copyPcb_cases hcopy
  exact ⟨name, (wp_sysForkProcess_copied hinv hstd hcur hchild hcopy).of_run hrun⟩

theorem wp_sysForkProcess (hinv : Inv s.sched) (hstd : StdDescriptors s.fs)
    (hcur : IsProcess s.sched.cur s.sched) (hchild : child ∉ s.sched.pcbs)
    (hname : Library.Spells (s.name s.sched.cur) l) (hlen : l.length < 11) :
    wp (fun e => ¬ e.IsPanic) (sysForkProcess child) (fun _ s' => ForkDone s s' child
      ((s.name s.sched.cur).splice l.length (cstr forkSuffix) (forkSuffix.length + 1))) s :=
  wp_sysForkProcess_copied hinv hstd hcur hchild (copyPcb_run hname hlen)

theorem sysForkProcess_panics (hcur : IsProcess s.sched.cur s.sched)
    (hname : Library.Spells (s.name s.sched.cur) l) (hlen : ¬ l.length < 11)
    (hspace : l.length < addrSpace) : sysForkProcess child s =
      .error (.panic "copy_pcb_vaddrbitmap_stack0" "strlen(child_thread->name) < 11") := by
  unfold sysForkProcess
  rw [bind_of_run (onSched_run (forkEntry_run hcur))]
  exact bind_of_error (copyPcb_panics hname hlen hspace)

end Fork

/-! ### Runs -/

/-- `thread_init` has made the first process and gives it its name, and the file system has been
mounted. -/
structure ProcBoot (env : FsEnv) (init : Nat) (s : Processes) : Prop where
  sched : ∃ s₀ idle, Boot s₀ init idle ∧ threadInit init idle s₀ = .ok ((), s.sched)
  files : ∃ fs₀, FreshTables fs₀ ∧ filesysInit env fs₀ = .ok ((), s.fs)
  name : s.name init = initThreadName initName

/-- The kernel from there on. -/
def processMachine (env : FsEnv) (init : Nat) : Machine Processes ProcOp Halt where
  init := ProcBoot env init
  enabled := ProcOp.Enabled
  exec := ProcOp.exec env

/-- The process on page `t` is init, or a fork on its line has made it. -/
def Descends (init : Nat) : List (Processes × ProcOp) → Nat → Prop
  | [], t => t = init
  | (s, .fork child) :: hist, t =>
      if t = child then Descends init hist s.sched.cur else Descends init hist t
  | _ :: hist, t => Descends init hist t

/-- Its name, from what has happened on that line. -/
def nameAfter : List (Processes × ProcOp) → Nat → List UInt8
  | [], _ => initName
  | (s, .fork child) :: hist, t =>
      if t = child then nameAfter hist s.sched.cur ++ forkSuffix else nameAfter hist t
  | (s, .execv path entryPoint) :: hist, t =>
      if t = s.sched.cur ∧ entryPoint ≠ -1 then execName path else nameAfter hist t
  | _ :: hist, t => nameAfter hist t

/-- A fork on page `child` fails no check, and the child's name fits. -/
def ForkFine (env : FsEnv) (s : Processes) (child : Nat) : Prop :=
  (∀ e, (ProcOp.fork child).exec env s = .error e → ¬ e.IsPanic) ∧
    ∀ s', (ProcOp.fork child).exec env s = .ok ((), s') →
      ∃ l, Library.Spells (s'.name child) l ∧ l.length + 1 ≤ taskNameLen

section Runs

variable {env : FsEnv} {init child t : Nat} {hist : List (Processes × ProcOp)}
  {s s' : Processes} {a : ProcOp}

/-- The invariant. -/
structure ProcInv (init : Nat) (hist : List (Processes × ProcOp)) (s : Processes) : Prop where
  inv : Inv s.sched
  files : StdDescriptors s.fs
  process : ∀ t, Descends init hist t → IsProcess t s.sched
  name : ∀ t, Descends init hist t →
    Library.Spells (s.name t) (nameAfter hist t) ∧ (nameAfter hist t).length < taskNameLen

theorem ProcBoot.procInv (h : ProcBoot env init s) : ProcInv init [] s := by
  obtain ⟨s₀, idle, hboot, hrun⟩ := h.sched
  obtain ⟨fs₀, hfresh, hmount⟩ := h.files
  rw [threadInit_run hboot] at hrun
  have hsched : s₀.booted init idle = s.sched := (Prod.mk.inj (Except.ok.inj hrun)).2
  refine ⟨hsched ▸ hboot.inv, (hfresh.mounted hmount).stdDescriptors, ?_, ?_⟩
  · rintro t rfl
    rw [← hsched]
    refine ⟨by simp [Sched.booted], ?_⟩
    simp [Sched.booted, hboot.init_ne_idle, hboot.init_ne_main, initThread]
  · rintro t rfl
    rw [h.name]
    exact ⟨spells_initThreadName (by decide), show initName.length < taskNameLen by decide⟩

/-- A fork that returns has found a short name. -/
theorem ProcInv.fork (h : ProcInv init hist s) (hchild : child ∉ s.sched.pcbs)
    (hrun : sysForkProcess child s = .ok ((), s')) :
    ProcInv init ((s, .fork child) :: hist) s' := by
  obtain ⟨name, hdone⟩ := sysForkProcess_done h.inv h.files hchild hrun
  refine ⟨hdone.inv, hdone.files, fun t ht => ?_, fun t ht => ?_⟩
  · by_cases htc : t = child
    · exact htc ▸ hdone.process
    · rw [Descends, if_neg htc] at ht
      exact hdone.old t (h.process t ht)
  · rw [nameAfter]
    by_cases htc : t = child
    · rw [Descends, if_pos htc] at ht
      obtain ⟨hspells, hshort⟩ := h.name _ ht
      have hlen : (nameAfter hist s.sched.cur).length < 11 := by
        by_contra hlen
        rw [sysForkProcess_panics (h.process _ ht) hspells hlen
          (hshort.trans (by decide))] at hrun
        exact nomatch hrun
      have hnames := ((wp_sysForkProcess h.inv h.files (h.process _ ht) hchild hspells
        hlen).of_run hrun).names
      rw [if_pos htc, hnames, htc, Function.update_self]
      refine ⟨hspells.append (spells_cstr (by decide)), ?_⟩
      rw [List.length_append]
      have hsuffix : forkSuffix.length = 5 := rfl
      rw [hsuffix, taskNameLen]
      omega
    · rw [Descends, if_neg htc] at ht
      rw [if_neg htc, hdone.names, Function.update_of_ne htc]
      exact h.name t ht

theorem ProcInv.execv (h : ProcInv init hist s) (path : Mem) (entryPoint : Int) (r : Int)
    (hrun : sysExecv path entryPoint s = .ok (r, s')) :
    ProcInv init ((s, .execv path entryPoint) :: hist) s' := by
  unfold sysExecv at hrun
  by_cases hfail : entryPoint = -1
  · rw [if_pos hfail] at hrun
    obtain rfl := (Prod.mk.inj (Except.ok.inj hrun)).2
    refine ⟨h.inv, h.files, h.process, fun t ht => ?_⟩
    rw [nameAfter, if_neg fun hc => hc.2 hfail]
    exact h.name t ht
  · rw [if_neg hfail] at hrun
    obtain rfl := (Prod.mk.inj (Except.ok.inj hrun)).2
    refine ⟨h.inv, h.files, h.process, fun t ht => ?_⟩
    rw [nameAfter]
    by_cases ht' : t = s.sched.cur
    · subst ht'
      rw [if_pos ⟨rfl, hfail⟩]
      refine ⟨?_, Nat.lt_succ_of_le (Mem.stringWithin_length _ path)⟩
      show Library.Spells (Function.update s.name _ _ s.sched.cur) _
      rw [Function.update_self]
      exact spells_execName _ path
    · rw [if_neg fun hc => ht' hc.1]
      show Library.Spells (Function.update s.name _ _ t) _ ∧ _
      rw [Function.update_of_ne ht']
      exact h.name t ht

/-- The step. -/
theorem ProcInv.exec (h : ProcInv init hist s) (hen : a.Enabled s)
    (hrun : a.exec env s = .ok ((), s')) : ProcInv init ((s, a) :: hist) s' := by
  cases a with
  | fork child => exact h.fork hen.2.2 hrun
  | execv path entryPoint =>
      obtain ⟨r, s₁, hexec, hrest⟩ := bind_run.mp hrun
      obtain rfl := (Prod.mk.inj (Except.ok.inj hrest)).2
      exact h.execv path entryPoint r hexec
  | sched op =>
      have hstep : ProcOp.exec env (.sched op) s = onSched op.exec s := rfl
      rw [hstep, onSched] at hrun
      cases hop : op.exec s.sched with
      | error e =>
          rw [hop] at hrun
          exact nomatch hrun
      | ok r =>
          rw [hop] at hrun
          obtain rfl := (Prod.mk.inj (Except.ok.inj hrun)).2
          exact ⟨(wp_exec h.inv hen.1).of_run hop, h.files,
            fun t ht => (h.process t ht).exec hen.1 hen.2 hop, h.name⟩
  | call c =>
      have hstep : ProcOp.exec env (.call c) s = onFiles (c.execBy env s.sched.cur) s := rfl
      rw [hstep, onFiles] at hrun
      cases hc : c.execBy env s.sched.cur s.fs with
      | error e =>
          rw [hc] at hrun
          exact nomatch hrun
      | ok r =>
          rw [hc] at hrun
          obtain rfl := (Prod.mk.inj (Except.ok.inj hrun)).2
          refine ⟨h.inv, ?_, h.process, h.name⟩
          have hkeep : Preserves StdDescriptors (c.execBy env s.sched.cur) :=
            Preserves.bind (Preserves.modify fun fs hfs => hfs.cur s.sched.cur) fun _ =>
              StdDescriptors.fileExec c
          exact hkeep _ _ _ h.files hc

/-- The run. -/
theorem procInv_run (h : (processMachine env init).Run hist s) : ProcInv init hist s := by
  induction h with
  | start hboot => exact ProcBoot.procInv hboot
  | next _ hen hrun ih => exact ih.exec hen hrun

/-- After any run a process that descends from init forks without a failing check, with a name
for the child that fits, exactly if its own name is shorter than eleven bytes. -/
theorem fork_never_halts_iff (hrun : (processMachine env init).Run hist s)
    (hline : Descends init hist s.sched.cur) (hen : (ProcOp.fork child).Enabled s) :
    ForkFine env s child ↔ (nameAfter hist s.sched.cur).length < 11 := by
  have h := procInv_run hrun
  obtain ⟨hspells, hshort⟩ := h.name _ hline
  have hcur := h.process _ hline
  constructor
  · rintro ⟨hfair, -⟩
    by_contra hlen
    exact hfair _ (sysForkProcess_panics hcur hspells hlen (hshort.trans (by decide))) trivial
  · intro hlen
    have hwp := wp_sysForkProcess h.inv h.files hcur hen.2.2 hspells hlen
    refine ⟨fun e he => hwp.of_error he, fun s' hs' => ?_⟩
    obtain ⟨hchild, hfits⟩ := (h.fork hen.2.2 hs').name child (by rwa [Descends, if_pos rfl])
    exact ⟨_, hchild, hfits⟩

end Runs

/-! ### A run from the boot machine -/

/-- The main thread has made init and the idle thread, on pages 1 and 2. -/
def bootProcesses : Processes where
  sched := bootMachine.booted 1 2
  fs := mountedFs
  name := fun _ => initThreadName initName

theorem bootProcesses_boot : ProcBoot upwardEnv 1 bootProcesses where
  sched := by
    have hboot : Boot bootMachine 1 2 :=
      ⟨fun _ => rfl, fun _ => rfl, rfl, rfl, by decide, by decide, by decide⟩
    exact ⟨bootMachine, 2, hboot, threadInit_run hboot⟩
  files := ⟨emptyFs, emptyFs_freshTables, mountedFs_run⟩
  name := rfl

def yielded : Processes := ((ProcOp.sched .yield).exec upwardEnv).after bootProcesses

/-- Init has the processor and is in none of its calls. -/
def initRuns : Processes :=
  ((ProcOp.sched (.return_ .kernelThread)).exec upwardEnv).after yielded

def initHistory : List (Processes × ProcOp) :=
  [(yielded, .sched (.return_ .kernelThread)), (bootProcesses, .sched .yield)]

theorem initRuns_run : (processMachine upwardEnv 1).Run initHistory initRuns := by
  have hyield : (ProcOp.sched .yield).Enabled bootProcesses :=
    ⟨⟨by decide, .inl (by decide)⟩, fun _ h => nomatch h⟩
  have hreturn : (ProcOp.sched (.return_ .kernelThread)).Enabled yielded :=
    ⟨rfl, fun _ h => nomatch h⟩
  exact .next (.next (.start bootProcesses_boot) hyield (run_of_answer rfl)) hreturn
    (run_of_answer rfl)

/-- Init forks. -/
theorem fork_never_halts_init : ForkFine upwardEnv initRuns 3 ↔ initName.length < 11 :=
  fork_never_halts_iff initRuns_run rfl ⟨by decide, rfl, by decide⟩

/-- `"/bin/program"` -/
def programPath : Mem := cstr [47, 98, 105, 110, 47, 112, 114, 111, 103, 114, 97, 109]

/-- Init executes a program whose path has twelve bytes, and forks. -/
theorem fork_never_halts_exec : ¬ ∀ (env : FsEnv) (init child : Nat)
    (hist : List (Processes × ProcOp)) (s : Processes), (processMachine env init).Run hist s →
    Descends init hist s.sched.cur → (ProcOp.fork child).Enabled s → ForkFine env s child := by
  intro h
  let execv : ProcOp := .execv programPath 0x8048000
  have hrun : (processMachine upwardEnv 1).Run ((initRuns, execv) :: initHistory)
      ((execv.exec upwardEnv).after initRuns) :=
    .next initRuns_run ⟨by decide, rfl⟩ (run_of_answer rfl)
  have hfine := h upwardEnv 1 3 _ _ hrun rfl ⟨by decide, rfl, by decide⟩
  have hinv := procInv_run hrun
  obtain ⟨hspells, hshort⟩ := hinv.name 1 rfl
  have hlong : ¬ (nameAfter ((initRuns, execv) :: initHistory) 1).length < 11 := by decide
  exact hfine.1 _ (sysForkProcess_panics (hinv.process 1 rfl) hspells hlong
    (hshort.trans (by decide))) trivial

end ZyOs
