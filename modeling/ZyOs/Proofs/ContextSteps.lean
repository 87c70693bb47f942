/-
What a step of the tasks is.

`Action.onContexts` says what it is to the processes: user code changes its own registers, a
system call its result, and `fork` and `execv` what they are for.  Interrupts and switches are
nothing at all.  `Stacks.step` shows that this is what the code does, and that a task that is not
running finds its stack as it left it.
-/
import ZyOs.Proofs.Contexts

namespace ZyOs.Switch

open Library Library.Ia32

variable {x : Text} {s s' : Tasks} {act : Action} {c : Cpu} {k k' : Registers} {m m' : Mode}
  {mem mem' : Dwords} {a b lo n t u w eip esp : UInt32}

/-- The context `execv` leaves. -/
def execContext (argv argc entryPoint : UInt32) (k : Registers) : Registers :=
  { ((k.setReg .ebx argv).setReg .ecx argc).setReg .esp 0xc0000000 with eip := entryPoint }

/-- What a step is to the processes: each has a processor of its own. -/
def Action.onContexts (s : Tasks) (ctx : UInt32 → Option Registers) :
    Action → UInt32 → Option Registers
  | .user c _ => Function.update ctx s.cur (some c)
  | .syscallTail =>
      Function.update ctx s.cur ((ctx s.cur).map fun k => k.setReg .eax (s.cpu.reg .eax))
  | .startEnd page =>
      match s.mode s.cur with
      | .starting function =>
          Function.update ctx s.cur (some (startContext function (page + pageSize)))
      | _ => ctx
  | .fork child => Function.update ctx child ((ctx s.cur).map fun k => k.setReg .eax 0)
  | .execv argv argc entryPoint =>
      Function.update ctx s.cur ((ctx s.cur).map (execContext argv argc entryPoint))
  | _ => ctx

/-- What a step does. -/
structure Stepped (x : Text) (s : Tasks) (act : Action) (s' : Tasks) : Prop where
  inv : Stacks x s'
  contexts : contexts s' = act.onContexts s (contexts s)
  others : ∀ u ∈ s.tasks, u ≠ s.cur → StackKept s.cpu.mem s'.cpu.mem u
  tasks : ∀ u ∈ s.tasks, u ∈ s'.tasks
  cur : s'.cur = s.cur ∨ ∃ ret, act = .switch s'.cur ret

theorem point_of_not_isAsm (h : ¬ x.IsAsm eip) : m.Point x t eip esp := by
  constructor
  · intro he
    exact absurd (Or.inl he) h
  · intro n he
    exact absurd (Or.inr (Or.inr ⟨n, he⟩)) h
  · intro he
    exact absurd (Or.inr (Or.inl he)) h

theorem point_intrExit (hm : m = .syscall ∨ ∃ n, m = .intr n) :
    m.Point x t x.intrExit (m.base t) := by
  constructor
  · exact fun _ => ⟨hm, rfl⟩
  · exact fun n he => absurd he.symm (x.intrRet_ne_intrExit n)
  · exact fun he => absurd he.symm x.syscallRet_ne_intrExit

/-- A system call on its way out. -/
theorem running_syscall (hcpl : c.cpl = 0) (heip : c.eip = x.intrExit)
    (hesp : c.reg .esp = intr0Stack t) : Running x .syscall t c := by
  constructor
  · exact hcpl
  · rw [hesp, intr0Stack_eq, UInt32.add_comm, UInt32.add_sub_cancel]
    exact UInt32.le_refl 4020
  · rw [heip, hesp, ← base_eq_intr0Stack (m := .syscall) rfl]
    exact point_intrExit (.inl rfl)

namespace Stacks

variable (h : Stacks x s)

include h

theorem stackKept (hspared : ∀ u ∈ s.tasks, u ≠ s.cur → Spared s.cpu.mem mem u 4096) :
    ∀ u ∈ s.tasks, u ≠ s.cur → StackKept s.cpu.mem mem u := by
  intro u hu huc
  exact (h.away u hu huc).stackKept_of_page (hspared u hu huc)

/-- A store in the page of the running task. -/
theorem spared_own (hmem : ∀ a, 4096 ≤ a - s.cur → mem a = s.cpu.mem a) :
    ∀ u ∈ s.tasks, u ≠ s.cur → Spared s.cpu.mem mem u 4096 := by
  intro u hu huc a ha
  exact hmem a ((h.page u hu).disjoint (h.page s.cur h.cur) huc ha)

theorem contexts_cur : contexts s s.cur = (s.mode s.cur).context s.cpu s.cur := by
  rw [contexts, if_pos h.cur]

theorem stepped_go (hothers : ∀ u ∈ s.tasks, u ≠ s.cur → StackKept s.cpu.mem c.mem u)
    (hprocess : m ≠ .thread → s.isProcess s.cur) (huser : m = .user → c.cpl = 3)
    (hkernel : m ≠ .user → Running x m s.cur c)
    (hframe : m.Frame (intrContext c.mem (m.base s.cur)))
    (hctx : act.onContexts s (contexts s) =
      Function.update (contexts s) s.cur (m.context c s.cur)) : Stepped x s act (s.go c m) where
  inv := h.go hothers hprocess huser hkernel hframe
  contexts := (h.contexts_go hothers).trans hctx.symm
  others := hothers
  tasks := fun _ hu => hu
  cur := .inl rfl

/-- Code of the kernel that leaves the context alone. -/
theorem stepped_same (hmode : s.mode s.cur ≠ .user)
    (hothers : ∀ u ∈ s.tasks, u ≠ s.cur → StackKept s.cpu.mem c.mem u)
    (hkernel : Running x (s.mode s.cur) s.cur c)
    (hframe : s.mode s.cur ≠ .thread → Spared s.cpu.mem c.mem ((s.mode s.cur).base s.cur) 76)
    (hctx : act.onContexts s (contexts s) = contexts s) :
    Stepped x s act (s.go c (s.mode s.cur)) := by
  have hcongr := fun hthread => intrContext_congr (hframe hthread)
  refine h.stepped_go hothers (h.process _ h.cur) (fun hu => absurd hu hmode) (fun _ => hkernel) ?_ ?_
  · have hf := h.frame s.cur h.cur
    by_cases hthread : s.mode s.cur = .thread
    · rw [hthread]
      trivial
    · rw [hcongr hthread]
      exact hf
  · have hsame : (s.mode s.cur).context c s.cur = contexts s s.cur := by
      rw [h.contexts_cur]
      exact context_congr (fun hu => absurd hu hmode) hcongr
    rw [hctx, hsame, Function.update_eq_self]

theorem user_step (hen : Action.Enabled x s (.user k mem)) :
    Stepped x s (.user k mem) (Action.step x s (.user k mem)) := by
  obtain ⟨hmode, hcpl, hmem⟩ := hen
  refine h.stepped_go ?_ ?_ (fun _ => hcpl) (fun hu => absurd rfl hu) trivial rfl
  · apply h.stackKept
    intro u hu _ a ha
    exact hmem a ((h.page u hu).kernel_of_mem ha)
  · intro _
    apply h.process _ h.cur
    rw [hmode]
    simp

/-- The kernel is entered from user code. -/
theorem entered_step {ws : List UInt32} (hmode : s.mode s.cur = .user)
    (hm : m = .syscall ∨ ∃ n, m = .intr n) (hc : Entered s.cpu s.esp0 ws c)
    (hws : 1 ≤ ws.length ∧ ws.length ≤ 5) (heip : ¬ x.IsAsm c.eip)
    (hctx : act.onContexts s (contexts s) = contexts s) : Stepped x s act (s.go c m) := by
  have hprocess : s.isProcess s.cur := by
    apply h.process _ h.cur
    rw [hmode]
    simp
  have hroom : m.room = 4020 := by
    obtain rfl | ⟨n, rfl⟩ := hm <;> rfl
  have hesp0 : s.esp0 = s.cur + 4096 := h.esp0 hprocess
  obtain ⟨⟨err, esp, hmem⟩, hesp, hcs⟩ := hc
  have hbase : m.base s.cur = s.esp0 - 76 := by
    rw [Mode.base, hroom, hesp0]
    grind
  have hframe : intrContext c.mem (m.base s.cur) = s.cpu.toRegisters := by
    rw [hbase, hmem]
    exact entered_context (by omega)
  have hspared : ∀ u ∈ s.tasks, u ≠ s.cur → Spared s.cpu.mem c.mem u 4096 := by
    apply h.spared_own
    intro a ha
    rw [hmem]
    apply pushes_mem
    rw [Cpu.setReg_reg, Function.update_self, hesp0, List.length_append]
    have hfar : 92 ≤ s.cur + 4096 - 1 - a := by grind
    have hfar' : 92 ≤ (s.cur + 4096 - 1 - a).toNat := UInt32.le_iff_toNat_le.mp hfar
    have h18 : (frameWords s.cpu.toRegisters err esp).length = 18 := rfl
    omega
  apply h.stepped_go (h.stackKept hspared) (fun _ => hprocess)
  · intro hu
    obtain rfl | ⟨n, rfl⟩ := hm <;> simp at hu
  · intro _
    constructor
    · rw [Registers.cpl, hcs]
      rfl
    · have hlen : 4 ≤ 4 * UInt32.ofNat ws.length ∧ 4 * UInt32.ofNat ws.length ≤ 20 := by
        obtain ⟨hlo, hhi⟩ := hws
        interval_cases ws.length <;> decide
      rw [hesp, hroom, hesp0]
      grind
    · exact point_of_not_isAsm heip
  · have hcpl := h.user hmode
    rw [hframe]
    obtain rfl | ⟨n, rfl⟩ := hm <;> exact hcpl
  · have hcontext : m.context c s.cur = some s.cpu.toRegisters := by
      rw [← hframe, base_eq_intr0Stack hroom]
      obtain rfl | ⟨n, rfl⟩ := hm <;> rfl
    have hcur : contexts s s.cur = some s.cpu.toRegisters := by
      rw [h.contexts_cur, hmode]
      rfl
    rw [hctx, hcontext, ← hcur, Function.update_eq_self]

theorem cpl_pos (hmode : s.mode s.cur = .user) : 0 < s.cpu.cpl := by
  rw [h.user hmode]
  decide

theorem intr_step {e : Option UInt32} {i : Fin 0x30} (hen : Action.Enabled x s (.intr i e)) :
    Stepped x s (.intr i e) (Action.step x s (.intr i e)) := by
  obtain ⟨hmode, herr, heip⟩ := hen
  exact h.entered_step hmode (.inr ⟨i, rfl⟩) (s.intrCpu_entered (h.cpl_pos hmode) herr) (by simp) heip
    rfl

theorem syscall_step (hen : Action.Enabled x s .syscall) :
    Stepped x s .syscall (Action.step x s .syscall) := by
  obtain ⟨hmode, heip⟩ := hen
  exact h.entered_step hmode (.inl rfl) (s.syscallCpu_entered (h.cpl_pos hmode)) (by simp) heip rfl

theorem kernel_step (hen : Action.Enabled x s (.kernel c)) :
    Stepped x s (.kernel c) (Action.step x s (.kernel c)) := by
  obtain ⟨⟨hmode, -⟩, hc⟩ := hen
  apply h.stepped_same hmode hc.others hc.running _ rfl
  intro hthread
  have hframe := hc.frame
  have hsize : (s.mode s.cur).frame = 76 := by
    cases hm : s.mode s.cur with
    | thread => exact absurd hm hthread
    | starting f => rfl
    | user => rfl
    | intr i => rfl
    | syscall => rfl
  rw [hsize] at hframe
  exact hframe

theorem intrTail_step (hen : Action.Enabled x s .intrTail) :
    Stepped x s .intrTail (Action.step x s .intrTail) := by
  obtain ⟨i, hmode, heip⟩ := hen
  have huser : s.mode s.cur ≠ .user := by
    rw [hmode]
    simp
  have hrun := h.kernel huser
  obtain ⟨-, hesp⟩ := hrun.point.intrRet i heip
  apply h.stepped_same huser
  · exact fun u _ _ => ⟨rfl, fun _ _ => rfl⟩
  · refine ⟨hrun.level, hrun.room, ?_⟩
    show (s.mode s.cur).Point x s.cur x.intrExit (s.cpu.reg .esp)
    rw [hesp]
    exact point_intrExit (.inr ⟨i, hmode⟩)
  · exact fun _ _ _ => rfl
  · rfl

/-- The result of a system call goes into the context. -/
theorem syscallTail_step (hen : Action.Enabled x s .syscallTail) :
    Stepped x s .syscallTail (Action.step x s .syscallTail) := by
  obtain ⟨huser, heip⟩ := hen
  have hrun := h.kernel huser
  obtain ⟨hmode, hesp⟩ := hrun.point.syscallRet heip
  have hsp : s.cpu.reg .esp + 12 = intr0Stack s.cur := by
    rw [hesp, hmode, base_eq_intr0Stack rfl]
    grind
  obtain ⟨c, hrest⟩ : ∃ c, c = s.cpu.run (syscallTail x) := ⟨_, rfl⟩
  have hc : c = ((s.cpu.setReg .esp (intr0Stack s.cur)).store
      (intr0Stack s.cur + IntrField.eax.offset) (s.cpu.reg .eax)).goto x.intrExit := by
    simp [hrest, syscallTail, Cpu.exec, Cpu.addr, hsp, IntrField.offset]
  have hesp' : c.reg .esp = intr0Stack s.cur := by simp [hc]
  have hmem : c.mem =
      Function.update s.cpu.mem (intr0Stack s.cur + IntrField.eax.offset) (s.cpu.reg .eax) := by
    simp [hc]
  have hcontext : intrContext c.mem (intr0Stack s.cur) =
      (intrContext s.cpu.mem (intr0Stack s.cur)).setReg .eax (s.cpu.reg .eax) := by
    rw [hmem]
    exact intrContext_eax fun _ => intrField_update
  have hcur : contexts s s.cur = some (intrContext s.cpu.mem (intr0Stack s.cur)) := by
    rw [h.contexts_cur, hmode]
    rfl
  show Stepped x s .syscallTail (s.go (s.cpu.run (syscallTail x)) (s.mode s.cur))
  rw [← hrest, hmode]
  apply h.stepped_go
  · apply h.stackKept
    apply h.spared_own
    intro a ha
    rw [hmem, Function.update_of_ne]
    rintro rfl
    rw [intr0Stack_eq] at ha
    exact absurd ha (by simp only [IntrField.offset]; grind)
  · intro hthread
    rw [← hmode] at hthread
    exact h.process _ h.cur hthread
  · exact fun hu => absurd hu (by simp)
  · intro _
    have hseg : c.seg = s.cpu.seg := by simp [hc]
    have hcpl : c.cpl = 0 := by
      rw [Registers.cpl, hseg]
      exact hrun.level
    exact running_syscall hcpl (by simp [hc]) hesp'
  · have hf := h.frame s.cur h.cur
    rw [hmode, base_eq_intr0Stack rfl] at hf
    rw [base_eq_intr0Stack rfl, hcontext]
    exact hf
  · rw [Action.onContexts, hcur, Mode.context, hcontext]
    rfl

/-- Back to user code. -/
theorem to_user (hprocess : s.isProcess s.cur)
    (hothers : ∀ u ∈ s.tasks, u ≠ s.cur → StackKept s.cpu.mem c.mem u)
    (hcpl : c.cpl = 0) (hk : intrContext c.mem (c.reg .esp) = k) (hlevel : k.cpl = 3)
    (hctx : act.onContexts s (contexts s) = Function.update (contexts s) s.cur (some k)) :
    Stepped x s act (s.go (c.run Switch.intrExit) .user) := by
  have hcs : c.cpl < (intrField c.mem (c.reg .esp) .cs).toUInt16 &&& 3 := by
    rw [← hk] at hlevel
    rw [hcpl]
    show 0 < (intrContext c.mem (c.reg .esp)).cpl
    rw [hlevel]
    decide
  have hrun := (run_intrExit hcs).trans hk
  apply h.stepped_go
  · intro u hu huc
    rw [run_intrExit_mem]
    exact hothers u hu huc
  · exact fun _ => hprocess
  · intro _
    rw [hrun]
    exact hlevel
  · exact fun hu => absurd rfl hu
  · trivial
  · rw [hctx, Mode.context, hrun]

theorem intrExit_step (hen : Action.Enabled x s .intrExit) :
    Stepped x s .intrExit (Action.step x s .intrExit) := by
  obtain ⟨huser, heip⟩ := hen
  have hrun := h.kernel huser
  obtain ⟨hm, hesp⟩ := hrun.point.intrExit heip
  have hframe := h.frame s.cur h.cur
  have hthread : s.mode s.cur ≠ .thread := by
    obtain hm | ⟨i, hm⟩ := hm <;> rw [hm] <;> simp
  have hbase : (s.mode s.cur).base s.cur = intr0Stack s.cur := by
    apply base_eq_intr0Stack
    obtain hm | ⟨i, hm⟩ := hm <;> rw [hm] <;> rfl
  apply h.to_user (h.process _ h.cur hthread) (fun u _ _ => ⟨rfl, fun _ _ => rfl⟩) hrun.level rfl
  · rw [hesp]
    obtain hm | ⟨i, hm⟩ := hm <;> rw [hm] at hframe ⊢ <;> exact hframe
  · have hcur : contexts s s.cur = some (intrContext s.cpu.mem (s.cpu.reg .esp)) := by
      rw [h.contexts_cur, hesp, hbase]
      obtain hm | ⟨i, hm⟩ := hm <;> rw [hm] <;> rfl
    rw [← hcur, Function.update_eq_self]
    rfl

theorem create_step {p : Bool} {f g : UInt32} (hen : Action.Enabled x s (.create t p f g)) :
    Stepped x s (.create t p f g) (Action.step x s (.create t p f g)) := by
  obtain ⟨-, ht, hnew⟩ := hen
  obtain ⟨mem, hm⟩ : ∃ mem, mem = threadCreate x (initStack s.cpu.mem t) t f g := ⟨_, rfl⟩
  have hmem : ∀ a, 4096 ≤ a - t → mem a = s.cpu.mem a := by
    intro a ha
    rw [hm, threadCreate_outside ha]
  have hself : mem t = t + 3664 := by
    rw [hm, threadCreate_self]
  have hsaved : savedContext mem t = ⟨0, 0, 0, 0, x.kernelThread, t + 3684⟩ := by
    rw [hm, savedContext_threadCreate]
  have haway : Away x mem .thread t := by
    have heip : mem (mem t + 16) = x.kernelThread := congrArg KernelContext.eip hsaved
    constructor
    · simp
    · rw [hself]
      grind
    · rw [hself]
      show t + 3664 - t ≤ 4092 - 20
      grind
    · rw [heip]
      apply point_of_not_isAsm
      rintro (he | he | ⟨i, he⟩)
      · exact x.kernelThread_ne_intrExit he
      · exact x.kernelThread_ne_syscallRet he
      · exact x.kernelThread_ne_intrRet i he
  have hnone : contexts s t = none := if_neg hnew
  have hstep : Action.step x s (.create t p f g) = s.add t p .thread mem := by
    rw [hm]
    rfl
  rw [hstep]
  constructor
  · exact h.add ht hnew hmem (fun hu => absurd rfl hu) haway trivial
  · rw [h.contexts_add ht hnew hmem]
    show Function.update (contexts s) t none = contexts s
    rw [← hnone, Function.update_eq_self]
  · exact h.stackKept fun u hu _ => h.spared ht hnew hmem hu
  · exact fun u hu => List.mem_cons_of_mem _ hu
  · exact .inl rfl

theorem fork_step (hen : Action.Enabled x s (.fork t)) :
    Stepped x s (.fork t) (Action.step x s (.fork t)) := by
  obtain ⟨-, hmode, ht, hnew⟩ := hen
  obtain ⟨mem, hm⟩ : ∃ mem, mem = buildChildStack x (copyPage s.cpu.mem t s.cur) t := ⟨_, rfl⟩
  have hmem : ∀ a, 4096 ≤ a - t → mem a = s.cpu.mem a := by
    intro a ha
    rw [hm, buildChildStack_outside ha, copyPage_outside ha]
  have hself : mem t = t + 4000 := by
    rw [hm, buildChildStack_self]
  have hsaved : savedContext mem t = ⟨0, 0, 0, 0, x.intrExit, t + 4020⟩ := by
    rw [hm, savedContext_buildChildStack]
  have hcontext : intrContext mem (intr0Stack t) =
      (intrContext s.cpu.mem (intr0Stack s.cur)).setReg .eax 0 := by
    rw [hm, intr0Stack_eq, intr0Stack_eq, intrContext_buildChildStack, intrContext_copyPage]
  have haway : Away x mem .syscall t := by
    have heip : mem (mem t + 16) = x.intrExit := congrArg KernelContext.eip hsaved
    have hesp : mem t + 20 = intr0Stack t := by
      rw [intr0Stack_eq]
      exact congrArg KernelContext.esp hsaved
    constructor
    · simp
    · rw [hself]
      grind
    · rw [hself]
      show t + 4000 - t ≤ 4020 - 20
      grind
    · rw [heip, hesp, ← base_eq_intr0Stack (m := .syscall) rfl]
      exact point_intrExit (.inl rfl)
  have hframe := h.frame s.cur h.cur
  rw [hmode, base_eq_intr0Stack rfl] at hframe
  have hcur : contexts s s.cur = some (intrContext s.cpu.mem (intr0Stack s.cur)) := by
    rw [h.contexts_cur, hmode]
    rfl
  have hstep : Action.step x s (.fork t) = s.add t true .syscall mem := by
    rw [hm]
    rfl
  rw [hstep]
  constructor
  · apply h.add ht hnew hmem (fun _ => rfl) haway
    rw [base_eq_intr0Stack rfl, hcontext]
    exact hframe
  · rw [h.contexts_add ht hnew hmem, Action.onContexts, hcur, Mode.context]
    show Function.update (contexts s) t (some (intrContext mem (intr0Stack t))) = _
    rw [hcontext]
    rfl
  · exact h.stackKept fun u hu _ => h.spared ht hnew hmem hu
  · exact fun u hu => List.mem_cons_of_mem _ hu
  · exact .inl rfl

/-- `start_process` begins the frame. -/
theorem start_step (hen : Action.Enabled x s (.start w)) :
    Stepped x s (.start w) (Action.step x s (.start w)) := by
  obtain ⟨⟨huser, hasm⟩, hmode, hprocess, hstack, hroom⟩ := hen
  have hrun := h.kernel huser
  have hbase : (Mode.starting w).base s.cur = s.cpu.mem s.cur + 4 * sizeofThreadStack := by
    rw [hstack]
    unfold Mode.base Mode.room
    grind
  have hplace : s.cpu.mem s.cur + 4 * sizeofThreadStack = s.cur + 3792 := by
    rw [← hbase]
    rfl
  apply h.stepped_go
  · apply h.stackKept
    apply h.spared_own
    intro a ha
    have hne : a ≠ s.cur := by
      rintro rfl
      exact absurd ha (by grind)
    have hfar : 76 ≤ a - (s.cur + 3792) := by grind
    show startProcess s.cpu.mem s.cur w a = s.cpu.mem a
    rw [startProcess, Function.update_self, hplace, setIntr_outside hfar, Function.update_of_ne hne]
  · exact fun _ => hprocess
  · exact fun hu => absurd hu (by simp)
  · exact fun _ => ⟨hrun.level, hroom, point_of_not_isAsm hasm⟩
  · rw [hbase]
    exact started_startProcess
  · have hnone : contexts s s.cur = none := by
      rw [h.contexts_cur, hmode]
      rfl
    show contexts s = Function.update (contexts s) s.cur none
    rw [← hnone, Function.update_eq_self]

/-- `start_process` jumps into user code. -/
theorem startEnd_step (hen : Action.Enabled x s (.startEnd w)) :
    Stepped x s (.startEnd w) (Action.step x s (.startEnd w)) := by
  obtain ⟨⟨huser, -⟩, f, hmode⟩ := hen
  have hrun := h.kernel huser
  have hframe := h.frame s.cur h.cur
  rw [hmode] at hframe
  have hprocess : s.isProcess s.cur := by
    apply h.process _ h.cur
    rw [hmode]
    simp
  have hbase : (Mode.starting f).base s.cur = s.cur + 3792 := rfl
  obtain ⟨c, hc⟩ : ∃ c, c = (s.withMem (startProcessEnd s.cpu.mem
    ((s.mode s.cur).base s.cur) w)).setReg .esp ((s.mode s.cur).base s.cur) := ⟨_, rfl⟩
  have hmem : c.mem = startProcessEnd s.cpu.mem (s.cur + 3792) w := by
    rw [hc, hmode, ← hbase]
    rfl
  have hesp : c.reg .esp = s.cur + 3792 := by
    rw [hc, hmode, ← hbase]
    simp
  have hcpl : c.cpl = 0 := by
    rw [hc]
    exact hrun.level
  have hk : intrContext c.mem (c.reg .esp) = startContext f (w + pageSize) := by
    rw [hmem, hesp]
    exact intrContext_startProcessEnd hframe
  have hstep : Action.step x s (.startEnd w) = s.go (c.run Switch.intrExit) .user := by
    rw [hc]
    rfl
  rw [hstep]
  have hlevel : (startContext f (w + pageSize)).cpl = 3 := by
    show selectorUCode &&& 3 = 3
    decide
  apply h.to_user hprocess _ hcpl hk hlevel
  · rw [Action.onContexts, hmode]
  · apply h.stackKept
    apply h.spared_own
    intro a ha
    rw [hmem]
    apply setIntr_outside
    grind

theorem execv_step {argv argc entryPoint : UInt32}
    (hen : Action.Enabled x s (.execv argv argc entryPoint)) :
    Stepped x s (.execv argv argc entryPoint)
      (Action.step x s (.execv argv argc entryPoint)) := by
  obtain ⟨⟨huser, -⟩, hmode⟩ := hen
  have hrun := h.kernel huser
  have hframe := h.frame s.cur h.cur
  rw [hmode, base_eq_intr0Stack rfl] at hframe
  have hcur : contexts s s.cur = some (intrContext s.cpu.mem (intr0Stack s.cur)) := by
    rw [h.contexts_cur, hmode]
    rfl
  have hcontext := intrContext_execvStack s.cpu.mem s.cur argv argc entryPoint
  apply h.stepped_go
  · apply h.stackKept
    apply h.spared_own
    intro a ha
    apply setIntr_outside
    rw [intr0Stack_eq]
    grind
  · intro _
    apply h.process _ h.cur
    rw [hmode]
    simp
  · exact fun hu => absurd hu (by simp)
  · intro _
    exact running_syscall hrun.level rfl (by simp)
  · rw [base_eq_intr0Stack rfl]
    show (intrContext (execvStack s.cpu.mem s.cur argv argc entryPoint) (intr0Stack s.cur)).cpl = 3
    rw [hcontext]
    exact hframe
  · rw [Action.onContexts, hcur]
    show _ = Function.update (contexts s) s.cur
      (some (intrContext (execvStack s.cpu.mem s.cur argv argc entryPoint) (intr0Stack s.cur)))
    rw [hcontext]
    rfl

/-- What `switch_to` does to the two tasks. -/
theorem switch_cpu {next ret : UInt32} (hen : Action.Enabled x s (.switch next ret)) {c : Cpu}
    (hc : c = (((s.cpu.push next).push s.cur).push ret).run switchTo) :
    kernelContext c = savedContext c.mem next ∧
      savedContext c.mem s.cur = { kernelContext s.cpu with eip := ret, esp := s.cpu.reg .esp - 8 } ∧
      (∀ a, a ≠ s.cur → 28 ≤ s.cpu.reg .esp - 1 - a → c.mem a = s.cpu.mem a) ∧
      c.seg = s.cpu.seg := by
  obtain ⟨⟨huser, -⟩, hnext, hret, hlow⟩ := hen
  have hroom := (h.kernel huser).room
  have hle := (s.mode s.cur).room_le
  have hlow' : 308 ≤ s.cpu.reg .esp - s.cur := hlow
  have hfar : 28 ≤ s.cur - (s.cpu.reg .esp - 28) := by grind
  obtain ⟨hmem, hcpu, hseg⟩ := switched (c := s.cpu) s.cur next ret hfar
  rw [← hc] at hmem hcpu hseg
  refine ⟨hcpu, ?_, ?_, hseg⟩
  · rw [hmem]
    exact savedContext_switched hfar
  · intro a ha hfar
    rw [hmem]
    exact switched_mem ha hfar

theorem switch_step {next ret : UInt32} (hen : Action.Enabled x s (.switch next ret)) :
    Stepped x s (.switch next ret) (Action.step x s (.switch next ret)) := by
  obtain ⟨c, hc⟩ : ∃ c, c = (((s.cpu.push next).push s.cur).push ret).run switchTo := ⟨_, rfl⟩
  obtain ⟨hcpu, hsaved, hrest, hseg⟩ := h.switch_cpu hen hc
  obtain ⟨⟨huser, -⟩, hnext, hret, hlow⟩ := hen
  have hroom := (h.kernel huser).room
  have hle := (s.mode s.cur).room_le
  have hlow' : 308 ≤ s.cpu.reg .esp - s.cur := hlow
  have hspared : ∀ u ∈ s.tasks, u ≠ s.cur → Spared s.cpu.mem c.mem u 4096 := by
    apply h.spared_own
    intro a ha
    apply hrest
    · rintro rfl
      exact absurd ha (by grind)
    · grind
  have hframe : s.mode s.cur ≠ .thread →
      Spared s.cpu.mem c.mem ((s.mode s.cur).base s.cur) 76 := by
    intro hthread a ha
    have hle' := Mode.room_frame hthread
    unfold Mode.base at ha
    apply hrest
    · rintro rfl
      have hpos := (s.mode s.cur).le_room
      exact absurd ha (by grind)
    · grind
  have haway : Away x c.mem (s.mode s.cur) s.cur := by
    have heip : c.mem (c.mem s.cur + 16) = ret := congrArg KernelContext.eip hsaved
    have hesp : c.mem s.cur + 20 = s.cpu.reg .esp - 8 := congrArg KernelContext.esp hsaved
    constructor
    · exact huser
    · grind
    · have hpos := (s.mode s.cur).le_room
      grind
    · rw [heip]
      exact point_of_not_isAsm hret
  have hstep : Action.step x s (.switch next ret) =
      { s with cpu := c, esp0 := s.processActivate next, cur := next } := by
    rw [hc]
    rfl
  rw [hstep]
  constructor
  · exact h.switch hnext huser haway hspared hframe hcpu hseg
  · exact h.contexts_switch huser hspared hframe
  · exact h.stackKept hspared
  · exact fun _ hu => hu
  · exact .inr ⟨ret, rfl⟩

/-- Every step is one. -/
theorem step (hen : act.Enabled x s) : Stepped x s act (act.step x s) := by
  cases act with
  | user k mem => exact h.user_step hen
  | intr i e => exact h.intr_step hen
  | syscall => exact h.syscall_step hen
  | kernel c => exact h.kernel_step hen
  | switch next ret => exact h.switch_step hen
  | intrTail => exact h.intrTail_step hen
  | syscallTail => exact h.syscallTail_step hen
  | intrExit => exact h.intrExit_step hen
  | create t p f g => exact h.create_step hen
  | start f => exact h.start_step hen
  | startEnd page => exact h.startEnd_step hen
  | fork child => exact h.fork_step hen
  | execv argv argc entryPoint => exact h.execv_step hen

end Stacks

end ZyOs.Switch
