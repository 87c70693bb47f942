/-
Tasks over whole runs.

Every process has a processor of its own (`own_processors`): whatever interrupts it and whoever
runs in between, it goes on with its registers (`user_undisturbed`), and a system call changes its
result and nothing else (`system_call`).  Inside the kernel `switch_to` is a call that returns
(`switch_returns`), for a new thread in `kernel_thread` (`new_task_begins`).
-/
import ZyOs.Proofs.ContextSteps

namespace ZyOs.Switch

open Library Library.Ia32

variable {x : Text} {s s' s₀ s₁ s₂ s₃ s₄ : Tasks} {act : Action} {c : Cpu} {k : Registers} {m : Mode}
  {mem mem' : Dwords} {a t u w : UInt32}

/-! ### Runs -/

theorem stacks_start (h : Start x s) : Stacks x s := by
  have honly : ∀ t ∈ s.tasks, t = s.cur := by
    intro t ht
    rw [h.tasks] at ht
    exact List.mem_singleton.mp ht
  constructor
  · intro t ht
    rw [honly t ht]
    exact h.page
  · rw [h.tasks]
    exact List.mem_singleton_self s.cur
  · intro t ht hthread
    rw [honly t ht] at hthread
    exact absurd h.mode hthread
  · intro hp
    rw [h.isProcess] at hp
    exact absurd hp (by simp)
  · intro hu
    rw [h.mode] at hu
    exact absurd hu (by simp)
  · intro _
    rw [h.mode]
    exact ⟨h.level, h.room, point_of_not_isAsm h.inC⟩
  · intro t ht htc
    exact absurd (honly t ht) htc
  · intro t ht
    rw [honly t ht, h.mode]
    trivial

theorem machine_step (h : Stacks x s) (hen : (machine x).enabled s act) :
    Prog.wp (fun _ => False) ((machine x).exec act)
      (fun _ s' => Stacks x s' ∧ Stepped x s act s') s := by
  have hstep := h.step hen
  exact ⟨hstep.inv, hstep⟩

theorem stacks_of_reach {Ok : Tasks → Action → Prop} (h : (machine x).Reach Ok s) : Stacks x s :=
  h.invariant (fun _ hs => stacks_start hs) fun _ _ hs hen _ =>
    Prog.wp_mono (machine_step hs hen) fun _ _ hs' => hs'.1

/-! ### A kernel with two tasks -/

/-- The addresses of one kernel. -/
def linked : Text where
  kernelThread := 0xc0003000
  intrExit := 0xc0001600
  intrEntry n := 0xc0001700 + 32 * UInt32.ofNat n.val
  intrRet n := 0xc0001710 + 32 * UInt32.ofNat n.val
  syscallHandler := 0xc0001500
  syscallRet := 0xc0001540
  idtTable := 0xc0006000
  syscallTable := 0xc0006400
  intrRet_ne_intrExit := by decide
  intrRet_ne_syscallRet := by decide
  syscallRet_ne_intrExit := by decide
  kernelThread_ne_intrExit := by decide
  kernelThread_ne_intrRet := by decide
  kernelThread_ne_syscallRet := by decide

def mainThread : UInt32 := 0xc009e000

def initProcess : UInt32 := 0xc0105000

/-- The main thread, in C code at 0xc0002000; every table leads there. -/
def mainOnly : Tasks where
  cpu :=
    { reg := fun r => if r = .esp then 0xc009eff0 else 0
      seg := fun s => if s = .cs then selectorKCode else selectorKStack
      eip := 0xc0002000
      eflags := 2
      mem := fun _ => 0xc0002000 }
  esp0 := 0
  tasks := [mainThread]
  isProcess := fun _ => false
  cur := mainThread
  mode := fun _ => .thread

/-- Step after step. -/
def Tasks.plays (s : Tasks) (acts : List Action) : Tasks :=
  acts.foldl (fun s act => act.step linked s) s

/-- The main thread with a process it has made. -/
def madeInit : Tasks := mainOnly.plays [.create initProcess true 0xc0003100 0x8048000]

/-- The process in `kernel_thread`. -/
def beganInit : Tasks := madeInit.plays [.switch initProcess 0xc0002000]

/-- The process in user code. -/
def userInit : Tasks := beganInit.plays [.start 0x8048000, .startEnd 0xbffff000]

theorem reach_mainOnly : (machine linked).Reach (fun _ _ => True) mainOnly := by
  apply Machine.Reach.start
  constructor
  · rfl
  · constructor <;> decide
  · rfl
  · rfl
  · decide
  · decide
  · decide

theorem enabled_create : (machine linked).enabled mainOnly
    (.create initProcess true 0xc0003100 0x8048000) := by
  refine ⟨⟨?_, ?_⟩, ⟨?_, ?_, ?_⟩, ?_⟩ <;> decide

theorem reach_madeInit : (machine linked).Reach (fun _ _ => True) madeInit :=
  reach_mainOnly.next enabled_create trivial rfl

theorem enabled_switch : (machine linked).enabled madeInit (.switch initProcess 0xc0002000) := by
  refine ⟨⟨?_, ?_⟩, ?_, ?_, ?_⟩ <;> decide

theorem enabled_start : (machine linked).enabled beganInit (.start 0x8048000) := by
  refine ⟨⟨?_, ?_⟩, ?_, ?_, ?_, ?_⟩ <;> decide

theorem enabled_startEnd : (machine linked).enabled (beganInit.plays [.start 0x8048000])
    (.startEnd 0xbffff000) := by
  refine ⟨⟨?_, ?_⟩, 0x8048000, ?_⟩ <;> decide

theorem reach_userInit : (machine linked).Reach (fun _ _ => True) userInit :=
  ((reach_madeInit.next enabled_switch trivial rfl).next enabled_start trivial rfl).next
    enabled_startEnd trivial rfl

/-- A C function returns to where it was called from. -/
def returned (c : Cpu) (eip esp eax : UInt32) : Cpu :=
  ((c.setReg .esp esp).setReg .eax eax).goto eip

/-- It may do so if nothing on the stacks is changed. -/
theorem ccode_returned {eip esp eax : UInt32} (hcpl : s.cpu.cpl = 0)
    (hroom : esp - s.cur ≤ (s.mode s.cur).room) (hpoint : (s.mode s.cur).Point x s.cur eip esp) :
    CCode x s (returned s.cpu eip esp eax) := by
  have hesp : (returned s.cpu eip esp eax).reg .esp = esp := by simp [returned]
  constructor
  · constructor
    · exact hcpl
    · rw [hesp]
      exact hroom
    · rw [hesp]
      exact hpoint
  · exact fun _ _ => rfl
  · exact fun _ _ _ => ⟨rfl, fun _ _ => rfl⟩

/-- The process is interrupted by the timer; the main thread runs before it comes back. -/
def tickedInit : Tasks := userInit.plays [.intr 0x20 none]

def awayInit : Tasks := tickedInit.plays [.switch mainThread 0xc0002000,
  .switch initProcess 0xc0002000]

def backInit : Tasks :=
  awayInit.plays [.kernel (returned awayInit.cpu (linked.intrRet 0x20) 0xc0105fb4 0), .intrTail]

/-- Or it asks for its pid, and gets 7. -/
def calledInit : Tasks := userInit.plays [.syscall]

def answeredInit : Tasks :=
  calledInit.plays [.kernel (returned calledInit.cpu linked.syscallRet 0xc0105fa8 7)]

/-- Or it asks for a child. -/
def childProcess : UInt32 := 0xc0110000

def forkedInit : Tasks := calledInit.plays [.fork childProcess]

def childInit : Tasks := forkedInit.plays [.switch childProcess 0xc0002000, .intrExit]

/-- Every step on these ways may happen. -/
structure RunsOn : Prop where
  ticked : (machine linked).enabled userInit (.intr 0x20 none)
  away : (machine linked).enabled tickedInit (.switch mainThread 0xc0002000)
  again : (machine linked).enabled (tickedInit.plays [.switch mainThread 0xc0002000])
    (.switch initProcess 0xc0002000)
  returns : (machine linked).enabled awayInit
    (.kernel (returned awayInit.cpu (linked.intrRet 0x20) 0xc0105fb4 0))
  tail : (machine linked).enabled (awayInit.plays
    [.kernel (returned awayInit.cpu (linked.intrRet 0x20) 0xc0105fb4 0)]) .intrTail
  exit : (machine linked).enabled backInit .intrExit
  level : (backInit.plays [.intrExit]).cpu.cpl = 3
  called : (machine linked).enabled userInit .syscall
  answers : (machine linked).enabled calledInit
    (.kernel (returned calledInit.cpu linked.syscallRet 0xc0105fa8 7))
  callTail : (machine linked).enabled answeredInit .syscallTail
  callExit : (machine linked).enabled (answeredInit.plays [.syscallTail]) .intrExit
  callCur : answeredInit.cur = initProcess ∧
    (answeredInit.plays [.syscallTail, .intrExit]).cur = initProcess
  callLevel : (answeredInit.plays [.syscallTail, .intrExit]).cpu.cpl = 3
  forks : (machine linked).enabled calledInit (.fork childProcess)
  childSwitch : (machine linked).enabled forkedInit (.switch childProcess 0xc0002000)
  childExit : (machine linked).enabled (forkedInit.plays [.switch childProcess 0xc0002000]) .intrExit
  childCur : calledInit.cur = userInit.cur ∧ childInit.cur = childProcess
  childLevel : childInit.cpu.cpl = 3

theorem runsOn : RunsOn where
  ticked := ⟨by decide, by decide, by decide⟩
  away := by
    refine ⟨⟨?_, ?_⟩, ?_, ?_, ?_⟩ <;> decide +kernel
  again := by
    refine ⟨⟨?_, ?_⟩, ?_, ?_, ?_⟩ <;> decide +kernel
  returns := by
    refine ⟨⟨by decide +kernel, by decide +kernel⟩, ?_⟩
    apply ccode_returned (by decide +kernel) (by decide +kernel)
    constructor
    · intro he
      exact absurd he (by decide)
    · intro i hi
      have hi' : i = 0x20 := by
        revert i
        decide
      rw [hi']
      exact ⟨by decide +kernel, by decide +kernel⟩
    · intro he
      exact absurd he (by decide)
  tail := ⟨0x20, by decide +kernel, by decide +kernel⟩
  exit := ⟨by decide +kernel, by decide +kernel⟩
  level := by decide +kernel
  called := ⟨by decide, by decide⟩
  answers := by
    refine ⟨⟨by decide +kernel, by decide +kernel⟩, ?_⟩
    apply ccode_returned (by decide +kernel) (by decide +kernel)
    constructor
    · intro he
      exact absurd he (by decide)
    · intro i hi
      exact absurd hi.symm (linked.intrRet_ne_syscallRet i)
    · intro _
      exact ⟨by decide +kernel, by decide +kernel⟩
  callTail := ⟨by decide +kernel, by decide +kernel⟩
  callExit := ⟨by decide +kernel, by decide +kernel⟩
  callCur := by decide +kernel
  callLevel := by decide +kernel
  forks := by
    refine ⟨⟨?_, ?_⟩, ?_, ⟨?_, ?_, ?_⟩, ?_⟩ <;> decide +kernel
  childSwitch := by
    refine ⟨⟨?_, ?_⟩, ?_, ?_, ?_⟩ <;> decide +kernel
  childExit := ⟨by decide +kernel, by decide +kernel⟩
  childCur := by decide +kernel
  childLevel := by decide +kernel

/-- Every process has a processor of its own: a step is to all of them together what it is to the
one that takes it, and in user code the registers are those of the process. -/
theorem own_processors (h : (machine x).Reach (fun _ _ => True) s)
    (hen : (machine x).enabled s act) (hrun : (machine x).exec act s = .ok ((), s')) :
    contexts s' = act.onContexts s (contexts s) ∧
      (s'.cpu.cpl = 3 → contexts s' s'.cur = some s'.cpu.toRegisters) ∧
      (s'.cpu.cpl = 0 → runningThread s'.cpu = s'.cur) := by
  have hstep : Stepped x s act s' := ((machine_step (stacks_of_reach h) hen).of_run hrun).2
  have hcur := hstep.inv.contexts_cur
  refine ⟨hstep.contexts, ?_, ?_⟩
  · intro hcpl
    by_cases hu : s'.mode s'.cur = .user
    · rw [hcur, hu]
      rfl
    · rw [(hstep.inv.kernel hu).level] at hcpl
      exact absurd hcpl (by decide)
  · intro hcpl
    by_cases hu : s'.mode s'.cur = .user
    · rw [hstep.inv.user hu] at hcpl
      exact absurd hcpl (by decide)
    · have hroom := (hstep.inv.kernel hu).room
      have hle := (s'.mode s'.cur).room_le
      apply (hstep.inv.page _ hstep.inv.cur).and_mask
      grind

theorem own_processors_init :
    contexts userInit = Action.onContexts (beganInit.plays [.start 0x8048000])
      (contexts (beganInit.plays [.start 0x8048000])) (.startEnd 0xbffff000) ∧
    (userInit.cpu.cpl = 3 → contexts userInit userInit.cur = some userInit.cpu.toRegisters) ∧
    (userInit.cpu.cpl = 0 → runningThread userInit.cpu = userInit.cur) :=
  own_processors ((reach_madeInit.next enabled_switch trivial rfl).next enabled_start trivial rfl)
    enabled_startEnd rfl

/-! ### What a process notices -/

/-- Steps of `t` that are meant to change its registers. -/
def Action.IsOwn : Action → Prop
  | .user _ _ => True
  | .syscallTail => True
  | .startEnd _ => True
  | .execv _ _ _ => True
  | _ => False

/-- Anything but such a step of `t`. -/
def Quiet (t : UInt32) (s : Tasks) (act : Action) : Prop := s.cur = t → ¬ act.IsOwn

theorem onContexts_quiet {ctx : UInt32 → Option Registers} (hen : act.Enabled x s)
    (ht : t ∈ s.tasks) (hq : Quiet t s act) : act.onContexts s ctx t = ctx t := by
  have hown : act.IsOwn → t ≠ s.cur := fun ho htc => hq htc.symm ho
  cases act with
  | user k mem => exact Function.update_of_ne (hown trivial) ..
  | syscallTail => exact Function.update_of_ne (hown trivial) ..
  | startEnd page =>
      obtain ⟨-, f, hmode⟩ := hen
      rw [Action.onContexts, hmode]
      exact Function.update_of_ne (hown trivial) ..
  | execv argv argc entryPoint => exact Function.update_of_ne (hown trivial) ..
  | fork child =>
      apply Function.update_of_ne
      rintro rfl
      exact hen.2.2.2 ht
  | _ => rfl

/-- A context stays as long as its process does nothing to it. -/
theorem context_stays (h : (machine x).Reach (fun _ _ => True) s) (ht : t ∈ s.tasks)
    (hpath : (machine x).Path (Quiet t) s s') :
    t ∈ s'.tasks ∧ contexts s' t = contexts s t := by
  refine hpath.rel (T := fun s s' => t ∈ s.tasks → t ∈ s'.tasks ∧ contexts s' t = contexts s t)
    ?_ ?_ (fun _ _ _ => trivial) ?_ h ht
  · exact fun _ ht => ⟨ht, rfl⟩
  · intro s₁ s₂ s₃ h₁₂ h₂₃ ht
    obtain ⟨ht₂, hc₂⟩ := h₁₂ ht
    obtain ⟨ht₃, hc₃⟩ := h₂₃ ht₂
    exact ⟨ht₃, hc₃.trans hc₂⟩
  · intro s a s' hreach hen _ hrun hq ht
    have hstep : Stepped x s a s' := ((machine_step (stacks_of_reach hreach) hen).of_run hrun).2
    refine ⟨hstep.tasks t ht, ?_⟩
    rw [hstep.contexts, onContexts_quiet hen ht hq]

theorem registers_of_user (h : Stacks x s) (hcpl : s.cpu.cpl = 3) :
    contexts s s.cur = some s.cpu.toRegisters := by
  by_cases hu : s.mode s.cur = .user
  · rw [h.contexts_cur, hu]
    rfl
  · rw [(h.kernel hu).level] at hcpl
    exact absurd hcpl (by decide)

/-- User code that is interrupted goes on as if nothing had been, whatever the kernel and the
other tasks do in between. -/
theorem user_undisturbed (h : (machine x).Reach (fun _ _ => True) s) (hcpl : s.cpu.cpl = 3)
    (hpath : (machine x).Path (Quiet s.cur) s s') (hcur : s'.cur = s.cur) (hcpl' : s'.cpu.cpl = 3) :
    s'.cpu.toRegisters = s.cpu.toRegisters := by
  have hinv := stacks_of_reach h
  have hinv' : Stacks x s' := stacks_of_reach (hpath.reach (fun _ _ _ => trivial) h)
  have hs := registers_of_user hinv hcpl
  have hs' := registers_of_user hinv' hcpl'
  have hstays := (context_stays h hinv.cur hpath).2
  rw [hcur, hstays, hs] at hs'
  exact (Option.some.inj hs').symm

theorem user_undisturbed_init :
    (backInit.plays [.intrExit]).cpu.toRegisters = userInit.cpu.toRegisters := by
  have hquiet : ∀ s, ∀ act : Action, ¬ act.IsOwn → Quiet initProcess s act := fun _ _ h _ => h
  have haway : (machine linked).Path (Quiet initProcess) userInit awayInit :=
    ((Machine.Path.next .nil runsOn.ticked (hquiet _ _ id) rfl).next runsOn.away (hquiet _ _ id)
      rfl).next runsOn.again (hquiet _ _ id) rfl
  have hback : (machine linked).Path (Quiet initProcess) userInit (backInit.plays [.intrExit]) :=
    ((haway.next runsOn.returns (hquiet _ _ id) rfl).next runsOn.tail (hquiet _ _ id) rfl).next
      runsOn.exit (hquiet _ _ id) rfl
  exact user_undisturbed reach_userInit (by decide) hback (by decide) runsOn.level

/-- `int 0x80` is a call of a C function with three arguments: its result is what changes, and
nothing else does until user code goes on. -/
theorem system_call (h : (machine x).Reach (fun _ _ => True) s) (hen : (machine x).enabled s .syscall)
    (hrun : (machine x).exec .syscall s = .ok ((), s₁))
    (hpath : (machine x).Path (Quiet s.cur) s₁ s₂) (hcur₂ : s₂.cur = s.cur)
    (hen₂ : (machine x).enabled s₂ .syscallTail)
    (hrun₂ : (machine x).exec .syscallTail s₂ = .ok ((), s₃))
    (hpath₃ : (machine x).Path (Quiet s.cur) s₃ s₄) (hcur₄ : s₄.cur = s.cur)
    (hcpl : s₄.cpu.cpl = 3)
    (htable : 4096 ≤ x.syscallTable + s.cpu.reg .eax * 4 - s.cur) :
    s₁.cpu.eip = s.cpu.mem (x.syscallTable + s.cpu.reg .eax * 4) ∧
      OnStack s₁.cpu.mem (s₁.cpu.reg .esp)
        [x.syscallRet, s.cpu.reg .ebx, s.cpu.reg .ecx, s.cpu.reg .edx] ∧
      s₄.cpu.toRegisters = s.cpu.toRegisters.setReg .eax (s₂.cpu.reg .eax) := by
  have hinv := stacks_of_reach h
  have hreach₁ : (machine x).Reach (fun _ _ => True) s₁ := h.next hen trivial hrun
  have hreach₂ := hpath.reach (fun _ _ _ => trivial) hreach₁
  have hreach₃ : (machine x).Reach (fun _ _ => True) s₃ := hreach₂.next hen₂ trivial hrun₂
  have hstep : Stepped x s .syscall s₁ := ((machine_step hinv hen).of_run hrun).2
  have hstep₂ : Stepped x s₂ .syscallTail s₃ :=
    ((machine_step (stacks_of_reach hreach₂) hen₂).of_run hrun₂).2
  have hinv₄ := stacks_of_reach (hpath₃.reach (fun _ _ _ => trivial) hreach₃)
  have hcpu₁ : s₁.cpu = s.syscallCpu x := by
    cases hrun
    rfl
  have hpos := hinv.cpl_pos hen.1
  have hthread : s.mode s.cur ≠ .thread := by
    rw [hen.1]
    simp
  have hesp0 : s.esp0 = s.cur + 4096 := hinv.esp0 (hinv.process _ hinv.cur hthread)
  refine ⟨?_, ?_, ?_⟩
  · rw [hcpu₁]
    apply Tasks.syscallCpu_eip hpos
    rw [hesp0]
    grind
  · rw [hcpu₁]
    have hall : OnStack (s.syscallCpu x).mem ((s.syscallCpu x).reg .esp)
        ([x.syscallRet, s.cpu.reg .ebx, s.cpu.reg .ecx, s.cpu.reg .edx] ++ [0x80]) :=
      (s.syscallCpu_entered hpos).onStack (by simp)
    exact hall.left
  · have hctx : contexts s s.cur = some s.cpu.toRegisters := by
      rw [hinv.contexts_cur, hen.1]
      rfl
    have hcur₁ : s.cur ∈ s₁.tasks := hstep.tasks _ hinv.cur
    obtain ⟨ht₂, hctx₂⟩ := context_stays hreach₁ hcur₁ hpath
    have hctx₁ : contexts s₁ s.cur = contexts s s.cur := by
      rw [hstep.contexts]
      rfl
    have hctx₃ : contexts s₃ s.cur =
        some (s.cpu.toRegisters.setReg .eax (s₂.cpu.reg .eax)) := by
      rw [hstep₂.contexts, Action.onContexts, hcur₂, Function.update_self, hctx₂, hctx₁, hctx]
      rfl
    have hctx₄ := (context_stays hreach₃ (hstep₂.tasks _ ht₂) hpath₃).2
    have huser := registers_of_user hinv₄ hcpl
    rw [hcur₄, hctx₄, hctx₃] at huser
    exact (Option.some.inj huser).symm

theorem system_call_getpid :
    calledInit.cpu.eip = userInit.cpu.mem (linked.syscallTable + userInit.cpu.reg .eax * 4) ∧
    OnStack calledInit.cpu.mem (calledInit.cpu.reg .esp)
      [linked.syscallRet, userInit.cpu.reg .ebx, userInit.cpu.reg .ecx, userInit.cpu.reg .edx] ∧
    (answeredInit.plays [.syscallTail, .intrExit]).cpu.toRegisters =
      userInit.cpu.toRegisters.setReg .eax (answeredInit.cpu.reg .eax) := by
  have hpath : (machine linked).Path (Quiet initProcess) calledInit answeredInit :=
    .next .nil runsOn.answers (fun _ => id) rfl
  exact system_call reach_userInit runsOn.called rfl hpath runsOn.callCur.1 runsOn.callTail rfl
    (.next .nil runsOn.callExit (fun _ => id) rfl) runsOn.callCur.2 runsOn.callLevel (by decide)

/-! ### `switch_to` as a call -/

/-- Nobody switches to `t`. -/
def NotTo (t : UInt32) (_ : Tasks) (act : Action) : Prop := ∀ ret, act ≠ .switch t ret

/-- The stack of a task stays until somebody switches to it. -/
theorem stack_stays (h : (machine x).Reach (fun _ _ => True) s) (ht : t ∈ s.tasks) (htc : t ≠ s.cur)
    (hpath : (machine x).Path (NotTo t) s s') :
    t ∈ s'.tasks ∧ t ≠ s'.cur ∧ StackKept s.cpu.mem s'.cpu.mem t := by
  refine hpath.rel (T := fun s s' => t ∈ s.tasks → t ≠ s.cur →
    t ∈ s'.tasks ∧ t ≠ s'.cur ∧ StackKept s.cpu.mem s'.cpu.mem t)
    ?_ ?_ (fun _ _ _ => trivial) ?_ h ht htc
  · exact fun _ ht htc => ⟨ht, htc, rfl, fun _ _ => rfl⟩
  · intro s₁ s₂ s₃ h₁₂ h₂₃ ht htc
    obtain ⟨ht₂, htc₂, hk₂⟩ := h₁₂ ht htc
    obtain ⟨ht₃, htc₃, hk₃⟩ := h₂₃ ht₂ htc₂
    exact ⟨ht₃, htc₃, hk₂.trans hk₃⟩
  · intro s act s' hreach hen _ hrun hnot ht htc
    have hstep : Stepped x s act s' := ((machine_step (stacks_of_reach hreach) hen).of_run hrun).2
    refine ⟨hstep.tasks t ht, ?_, hstep.others t ht htc⟩
    rintro rfl
    obtain hcur | ⟨ret, rfl⟩ := hstep.cur
    · exact htc hcur
    · exact hnot ret rfl

/-- What is on a stack that is kept. -/
theorem StackKept.savedContext (hk : StackKept mem mem' t) (hroom : mem t - t ≤ 4072) :
    savedContext mem' t = savedContext mem t := by
  obtain ⟨hw, hk⟩ := hk
  have hword : ∀ d : UInt32, d ≤ 16 → mem' (mem t + d) = mem (mem t + d) := by
    intro d hd
    apply hk
    unfold pageSize
    grind
  have hzero := hword 0 (by decide)
  rw [UInt32.add_zero] at hzero
  unfold Switch.savedContext
  rw [hw, hzero, hword 4 (by decide), hword 8 (by decide), hword 12 (by decide),
    hword 16 (by decide)]

/-- A task that has been left is switched to again. -/
theorem switched_to (h : (machine x).Reach (fun _ _ => True) s) (ht : t ∈ s.tasks) (htc : t ≠ s.cur)
    (hpath : (machine x).Path (NotTo t) s s₁) {ret : UInt32}
    (hen : (machine x).enabled s₁ (.switch t ret))
    (hrun : (machine x).exec (.switch t ret) s₁ = .ok ((), s')) :
    kernelContext s'.cpu = savedContext s.cpu.mem t ∧ StackKept s.cpu.mem s'.cpu.mem t := by
  obtain ⟨ht₁, htc₁, hk₁⟩ := stack_stays h ht htc hpath
  have hinv₁ := stacks_of_reach (hpath.reach (fun _ _ _ => trivial) h)
  have hstep : Stepped x s₁ (.switch t ret) s' := ((machine_step hinv₁ hen).of_run hrun).2
  have hk : StackKept s.cpu.mem s'.cpu.mem t := hk₁.trans (hstep.others t ht₁ htc₁)
  have hs' : s' = Action.step x s₁ (.switch t ret) := by
    cases hrun
    rfl
  have hcpu := (hinv₁.switch_cpu hen rfl).1
  refine ⟨?_, hk⟩
  rw [← hk.savedContext ((stacks_of_reach h).away t ht htc).le, hs']
  exact hcpu

/-- For the code that calls it, `switch_to` is a function that returns, and the stack above is as
it was. -/
theorem switch_returns {next ret ret' : UInt32} (h : (machine x).Reach (fun _ _ => True) s)
    (hnext : next ≠ s.cur) (hen : (machine x).enabled s (.switch next ret))
    (hrun : (machine x).exec (.switch next ret) s = .ok ((), s₁))
    (hpath : (machine x).Path (NotTo s.cur) s₁ s₂)
    (hen₂ : (machine x).enabled s₂ (.switch s.cur ret'))
    (hrun₂ : (machine x).exec (.switch s.cur ret') s₂ = .ok ((), s₃)) :
    kernelContext s₃.cpu = { kernelContext s.cpu with eip := ret, esp := s.cpu.reg .esp - 8 } ∧
      Spared s.cpu.mem s₃.cpu.mem (s.cpu.reg .esp) (s.cur + pageSize - s.cpu.reg .esp) := by
  have hinv := stacks_of_reach h
  have hreach₁ : (machine x).Reach (fun _ _ => True) s₁ := h.next hen trivial hrun
  have hstep : Stepped x s (.switch next ret) s₁ := ((machine_step hinv hen).of_run hrun).2
  have hs₁ : s₁ = Action.step x s (.switch next ret) := by
    cases hrun
    rfl
  have hcur₁ : s.cur ≠ s₁.cur := by
    rw [hs₁]
    exact hnext.symm
  obtain ⟨-, hsaved, hmem, -⟩ := hinv.switch_cpu hen rfl
  obtain ⟨hcpu, hk⟩ := switched_to hreach₁ (hstep.tasks _ hinv.cur) hcur₁ hpath hen₂ hrun₂
  have hsaved₁ : savedContext s₁.cpu.mem s.cur =
      { kernelContext s.cpu with eip := ret, esp := s.cpu.reg .esp - 8 } := by
    rw [hs₁]
    exact hsaved
  refine ⟨hcpu.trans hsaved₁, ?_⟩
  have hesp : s₁.cpu.mem s.cur + 20 = s.cpu.reg .esp - 8 := congrArg KernelContext.esp hsaved₁
  have hroom := (hinv.kernel hen.1.1).room
  have hle := (s.mode s.cur).room_le
  have hlow : 308 ≤ s.cpu.reg .esp - s.cur := hen.2.2.2
  intro a ha
  have hsame : s₁.cpu.mem a = s.cpu.mem a := by
    rw [hs₁]
    unfold pageSize at ha
    apply hmem
    · rintro rfl
      exact absurd ha (by grind)
    · grind
  rw [← hsame]
  apply hk.2
  unfold pageSize at ha ⊢
  grind

theorem switch_returns_main :
    kernelContext (beganInit.plays [.start 0x8048000, .switch mainThread 0xc0002000]).cpu =
      { kernelContext madeInit.cpu with
        eip := 0xc0002000, esp := madeInit.cpu.reg .esp - 8 } ∧
    Spared madeInit.cpu.mem (beganInit.plays [.start 0x8048000, .switch mainThread 0xc0002000]).cpu.mem
      (madeInit.cpu.reg .esp) (madeInit.cur + pageSize - madeInit.cpu.reg .esp) := by
  have hback : (machine linked).enabled (beganInit.plays [.start 0x8048000])
      (.switch mainThread 0xc0002000) := by
    refine ⟨⟨?_, ?_⟩, ?_, ?_, ?_⟩ <;> decide
  exact switch_returns reach_madeInit (by decide) enabled_switch rfl
    (.next .nil enabled_start (fun ret => by simp) rfl) hback rfl

/-- A new thread begins with `kernel_thread(function, func_arg)`. -/
theorem new_task_begins {p : Bool} {f g ret : UInt32} (h : (machine x).Reach (fun _ _ => True) s)
    (hen : (machine x).enabled s (.create t p f g))
    (hrun : (machine x).exec (.create t p f g) s = .ok ((), s₁))
    (hpath : (machine x).Path (NotTo t) s₁ s₂) (hen₂ : (machine x).enabled s₂ (.switch t ret))
    (hrun₂ : (machine x).exec (.switch t ret) s₂ = .ok ((), s₃)) :
    s₃.cpu.eip = x.kernelThread ∧ OnStack s₃.cpu.mem (s₃.cpu.reg .esp + 4) [f, g] ∧
      runningThread s₃.cpu = t := by
  have hreach₁ : (machine x).Reach (fun _ _ => True) s₁ := h.next hen trivial hrun
  have hs₁ : s₁ = Action.step x s (.create t p f g) := by
    cases hrun
    rfl
  have hmem : s₁.cpu.mem = threadCreate x (initStack s.cpu.mem t) t f g := by
    rw [hs₁]
    rfl
  have ht : t ∈ s₁.tasks := by
    rw [hs₁]
    exact List.mem_cons_self
  have htc : t ≠ s₁.cur := by
    rw [hs₁]
    intro he
    have hcur : t = s.cur := he
    apply hen.2.2
    rw [hcur]
    exact (stacks_of_reach h).cur
  obtain ⟨hcpu, hk⟩ := switched_to hreach₁ ht htc hpath hen₂ hrun₂
  rw [hmem, savedContext_threadCreate] at hcpu
  have hesp : s₃.cpu.reg .esp = t + 3684 := congrArg KernelContext.esp hcpu
  refine ⟨congrArg KernelContext.eip hcpu, ?_, ?_⟩
  · have hargs : OnStack s₁.cpu.mem (t + 3684 + 4) [f, g] := by
      rw [hmem]
      exact args_threadCreate
    have hself : s₁.cpu.mem t = t + 3664 := by
      rw [hmem, threadCreate_self]
    obtain ⟨-, hk⟩ := hk
    rw [hself] at hk
    rw [hesp]
    apply hargs.spared hk
    have hlo : t + 3684 + 4 - (t + 3664) = 24 := by grind
    have hn : t + pageSize - (t + 3664) = 432 := by
      unfold pageSize
      grind
    rw [hlo, hn]
    show 24 + 4 * 2 ≤ 432
    decide
  · rw [runningThread, hesp]
    exact hen.2.1.and_mask (by grind)

theorem new_task_begins_init :
    beganInit.cpu.eip = linked.kernelThread ∧
    OnStack beganInit.cpu.mem (beganInit.cpu.reg .esp + 4) [0xc0003100, 0x8048000] ∧
    runningThread beganInit.cpu = initProcess :=
  new_task_begins reach_mainOnly enabled_create rfl .nil enabled_switch rfl

/-- `fork` returns in the child too, with 0: it goes on where its parent called, as its parent. -/
theorem fork_child (h : (machine x).Reach (fun _ _ => True) s) (hcpl : s.cpu.cpl = 3)
    (hpath : (machine x).Path (Quiet s.cur) s s₁) (hcur : s₁.cur = s.cur)
    (hen : (machine x).enabled s₁ (.fork t)) (hrun : (machine x).exec (.fork t) s₁ = .ok ((), s₂))
    (hpath₂ : (machine x).Path (Quiet t) s₂ s₃) (hcur₃ : s₃.cur = t) (hcpl₃ : s₃.cpu.cpl = 3) :
    s₃.cpu.toRegisters = s.cpu.toRegisters.setReg .eax 0 := by
  have hinv := stacks_of_reach h
  have hreach₁ := hpath.reach (fun _ _ _ => trivial) h
  have hreach₂ : (machine x).Reach (fun _ _ => True) s₂ := hreach₁.next hen trivial hrun
  have hinv₃ := stacks_of_reach (hpath₂.reach (fun _ _ _ => trivial) hreach₂)
  have hstep : Stepped x s₁ (.fork t) s₂ :=
    ((machine_step (stacks_of_reach hreach₁) hen).of_run hrun).2
  have hparent : contexts s₁ s₁.cur = some s.cpu.toRegisters := by
    rw [hcur, (context_stays h hinv.cur hpath).2]
    exact registers_of_user hinv hcpl
  have hchild : contexts s₂ t = some (s.cpu.toRegisters.setReg .eax 0) := by
    rw [hstep.contexts, Action.onContexts, Function.update_self, hparent]
    rfl
  have ht : t ∈ s₂.tasks := by
    cases hrun
    exact List.mem_cons_self
  have huser := registers_of_user hinv₃ hcpl₃
  rw [hcur₃, (context_stays hreach₂ ht hpath₂).2, hchild] at huser
  exact (Option.some.inj huser).symm

theorem fork_child_init : childInit.cpu.toRegisters = userInit.cpu.toRegisters.setReg .eax 0 := by
  have hcalled : (machine linked).Path (Quiet userInit.cur) userInit calledInit :=
    .next .nil runsOn.called (fun _ => id) rfl
  have hchild : (machine linked).Path (Quiet childProcess) forkedInit childInit :=
    (Machine.Path.next .nil runsOn.childSwitch (fun _ => id) rfl).next runsOn.childExit
      (fun _ => id) rfl
  exact fork_child reach_userInit (by decide) hcalled runsOn.childCur.1 runsOn.forks rfl hchild
    runsOn.childCur.2 runsOn.childLevel

end ZyOs.Switch
