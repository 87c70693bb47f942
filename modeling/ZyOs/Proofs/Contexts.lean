/-
The stacks of all tasks, step by step.

`Stacks` is the invariant: the running task is where its mode says, and every other task has on
its stack what `switch_to` and `intr_exit` will pop.  What a step changes of the memory lies on
the stack of the running task or in the page of a new one, and the pages of two tasks have nothing
in common, so a step is looked at where it happens and the others are carried over
(`Stacks.goOn`, `Stacks.add`, `Stacks.switch`).
-/
import ZyOs.Library.BitFields
import ZyOs.Proofs.Switch

namespace ZyOs.Switch

open Library Library.Ia32

variable {x : Text} {s s' : Tasks} {act : Action} {c : Cpu} {k k' : Registers} {m m' : Mode}
  {mem mem' mem'' : Dwords} {a b lo n t u w eip esp : UInt32}

/-! ### The invariant -/

/-- What the stack of a task holds for `intr_exit`. -/
def Mode.Frame : Mode → Registers → Prop
  | .starting function, k => Started function k
  | .intr _, k => k.cpl = 3
  | .syscall, k => k.cpl = 3
  | _, _ => True

/-- A task that is not running. -/
structure Away (x : Text) (mem : Dwords) (m : Mode) (t : UInt32) : Prop where
  user : m ≠ .user
  low : 4 ≤ mem t - t
  room : mem t - t ≤ m.room - 20
  point : m.Point x t (mem (mem t + 16)) (mem t + 20)

structure Stacks (x : Text) (s : Tasks) : Prop where
  page : ∀ t ∈ s.tasks, Page t
  cur : s.cur ∈ s.tasks
  process : ∀ t ∈ s.tasks, s.mode t ≠ .thread → s.isProcess t
  esp0 : s.isProcess s.cur → s.esp0 = s.cur + pageSize
  user : s.mode s.cur = .user → s.cpu.cpl = 3
  kernel : s.mode s.cur ≠ .user → Running x (s.mode s.cur) s.cur s.cpu
  away : ∀ t ∈ s.tasks, t ≠ s.cur → Away x s.cpu.mem (s.mode t) t
  frame : ∀ t ∈ s.tasks, (s.mode t).Frame (intrContext s.cpu.mem ((s.mode t).base t))

/-! ### Pages -/

theorem Page.disjoint (ht : Page t) (hu : Page u) (hne : t ≠ u) (ha : a - t < 4096) :
    4096 ≤ a - u := by
  obtain ⟨ht4096, -, htlt⟩ := ht
  obtain ⟨hu4096, -, hult⟩ := hu
  grind

theorem Page.kernel_of_mem (ht : Page t) (ha : a - t < 4096) : 0xc0000000 ≤ a := by
  obtain ⟨-, hle, hlt⟩ := ht
  grind

/-- `running_thread` is right as long as the stack stays in its page. -/
theorem Page.and_mask (ht : Page t) (ha : a - t < 4096) : a &&& 0xfffff000 = t := by
  obtain ⟨hmod, -, hlt⟩ := ht
  apply UInt32.toNat_inj.mp
  have hmod' : t.toNat % 4096 = 0 := congrArg UInt32.toNat hmod
  have hle : t ≤ a := by grind
  have hsub : (a - t).toNat = a.toNat - t.toNat := UInt32.toNat_sub_of_le _ _ hle
  have hlt' : a.toNat - t.toNat < 4096 := by
    rw [← hsub]
    exact UInt32.lt_iff_toNat_lt.mp ha
  have hle' : t.toNat ≤ a.toNat := UInt32.le_iff_toNat_le.mp hle
  rw [toNat_and_high (k := 12) _ _ (by decide) rfl]
  omega

theorem Mode.room_cases (m : Mode) : m = .thread ∧ m.room = 4092 ∨ m.room = 3792 ∨ m.room = 4020 := by
  cases m <;> simp [Mode.room, pageSize, sizeofIntrStack]

theorem Mode.room_le (m : Mode) : m.room ≤ 4092 := by
  obtain ⟨-, h⟩ | h | h := m.room_cases <;> rw [h] <;> decide

theorem Mode.le_room (m : Mode) : 3792 ≤ m.room := by
  obtain ⟨-, h⟩ | h | h := m.room_cases <;> rw [h] <;> decide

theorem Mode.room_frame (h : m ≠ .thread) : m.room ≤ 4020 := by
  obtain ⟨ht, -⟩ | hm | hm := m.room_cases
  · exact absurd ht h
  · rw [hm]
    decide
  · rw [hm]
    exact UInt32.le_refl 4020

/-! ### Tasks that are not running -/

theorem StackKept.trans (h : StackKept mem mem' t) (h' : StackKept mem' mem'' t) :
    StackKept mem mem'' t := by
  obtain ⟨hw, hk⟩ := h
  obtain ⟨hw', hk'⟩ := h'
  rw [hw] at hw' hk'
  exact ⟨hw', spared_trans hk hk'⟩

/-- What leaves the page of a task alone leaves its stack alone. -/
theorem stackKept_of_page (hroom : mem t - t ≤ 4092) (h : Spared mem mem' t 4096) :
    StackKept mem mem' t := by
  refine ⟨h t (by grind), ?_⟩
  intro a ha
  apply h a
  unfold pageSize at ha
  grind

/-- A frame lies in the page of its task. -/
theorem frame_of_page (hthread : m ≠ .thread) (h : Spared mem mem' t 4096) :
    intrContext mem' (m.base t) = intrContext mem (m.base t) := by
  have hlt := Mode.room_frame hthread
  apply intrContext_congr
  intro a ha
  apply h
  unfold Mode.base at ha
  grind

namespace Away

variable (h : Away x mem m t)

include h

theorem le : mem t - t ≤ 4072 := by
  have hroom := h.room
  have hle := m.room_le
  have hpos := m.le_room
  grind

theorem stackKept_of_page (hk : Spared mem mem' t 4096) : StackKept mem mem' t := by
  have hle := h.le
  exact Switch.stackKept_of_page (by grind) hk

theorem congr (hk : StackKept mem mem' t) : Away x mem' m t := by
  obtain ⟨hw, hk⟩ := hk
  have hle := h.le
  have heip : mem' (mem t + 16) = mem (mem t + 16) := by
    apply hk
    unfold pageSize
    grind
  constructor
  · exact h.user
  · rw [hw]
    exact h.low
  · rw [hw]
    exact h.room
  · rw [hw, heip]
    exact h.point

theorem frame_congr (hk : StackKept mem mem' t) (hthread : m ≠ .thread) :
    intrContext mem' (m.base t) = intrContext mem (m.base t) := by
  have hroom := h.room
  have hlt := Mode.room_frame hthread
  have hpos := m.le_room
  apply intrContext_congr
  intro a ha
  apply hk.2
  unfold Mode.base at ha
  unfold pageSize
  grind

end Away

/-! ### The contexts of the processes -/

/-- The context of user code: in the processor while it runs, and on the stack otherwise. -/
def Mode.context (c : Cpu) (t : UInt32) : Mode → Option Registers
  | .user => some c.toRegisters
  | .intr _ => some (intrContext c.mem (intr0Stack t))
  | .syscall => some (intrContext c.mem (intr0Stack t))
  | _ => none

def contexts (s : Tasks) (t : UInt32) : Option Registers :=
  if t ∈ s.tasks then (s.mode t).context s.cpu t else none

theorem base_eq_intr0Stack (h : m.room = 4020) : m.base t = intr0Stack t := by
  rw [Mode.base, h, intr0Stack_eq]

/-- A context is in the processor or in the frame. -/
theorem context_congr (hu : m = .user → k' = k)
    (hf : m ≠ .thread → intrContext mem' (m.base t) = intrContext mem (m.base t)) :
    m.context { toRegisters := k', mem := mem' } t =
      m.context { toRegisters := k, mem := mem } t := by
  cases m with
  | thread => rfl
  | starting f => rfl
  | user => exact congrArg some (hu rfl)
  | intr n =>
      have hframe := hf (by simp)
      rw [base_eq_intr0Stack rfl] at hframe
      exact congrArg some hframe
  | syscall =>
      have hframe := hf (by simp)
      rw [base_eq_intr0Stack rfl] at hframe
      exact congrArg some hframe

theorem Away.context (h : Away x mem m t) (hk : StackKept mem mem' t) :
    m.context { toRegisters := k', mem := mem' } t = m.context { toRegisters := k, mem := mem } t :=
  context_congr (fun hu => absurd hu h.user) fun hthread => h.frame_congr hk hthread

/-- A task that is switched to is where it was. -/
theorem running_of_away (hc : c.cpl = 0) (ht : Away x c.mem m t)
    (hcpu : kernelContext c = savedContext c.mem t) : Running x m t c := by
  have heip : c.eip = c.mem (c.mem t + 16) := congrArg KernelContext.eip hcpu
  have hesp : c.reg .esp = c.mem t + 20 := congrArg KernelContext.esp hcpu
  constructor
  · exact hc
  · have hroom := ht.room
    have hle := m.le_room
    rw [hesp]
    grind
  · rw [heip, hesp]
    exact ht.point

namespace Stacks

variable (h : Stacks x s)

include h

/-- The running task takes a step. -/
theorem go (hothers : ∀ u ∈ s.tasks, u ≠ s.cur → StackKept s.cpu.mem c.mem u)
    (hprocess : m ≠ .thread → s.isProcess s.cur) (huser : m = .user → c.cpl = 3)
    (hkernel : m ≠ .user → Running x m s.cur c)
    (hframe : m.Frame (intrContext c.mem (m.base s.cur))) : Stacks x (s.go c m) := by
  have hself : (s.go c m).mode s.cur = m := Function.update_self ..
  have hmode : ∀ u, u ≠ s.cur → (s.go c m).mode u = s.mode u :=
    fun u hu => Function.update_of_ne hu ..
  constructor
  · exact h.page
  · exact h.cur
  · intro t ht hne
    by_cases htc : t = s.cur
    · rw [htc, hself] at hne
      rw [htc]
      exact hprocess hne
    · rw [hmode t htc] at hne
      exact h.process t ht hne
  · exact h.esp0
  · intro hu
    exact huser (hself.symm.trans hu)
  · intro hu
    rw [Tasks.go_cur, hself] at hu ⊢
    exact hkernel hu
  · intro t ht htc
    rw [hmode t htc]
    exact (h.away t ht htc).congr (hothers t ht htc)
  · intro t ht
    by_cases htc : t = s.cur
    · rw [htc, hself]
      exact hframe
    · rw [hmode t htc]
      have hf := h.frame t ht
      by_cases hthread : s.mode t = .thread
      · rw [hthread]
        trivial
      · rw [← (h.away t ht htc).frame_congr (hothers t ht htc) hthread] at hf
        exact hf

/-- Its context is the one that changes. -/
theorem contexts_go (hothers : ∀ u ∈ s.tasks, u ≠ s.cur → StackKept s.cpu.mem c.mem u) :
    contexts (s.go c m) = Function.update (contexts s) s.cur (m.context c s.cur) := by
  funext t
  by_cases htc : t = s.cur
  · rw [htc, Function.update_self, contexts, Tasks.go_tasks, if_pos h.cur, Tasks.go_mode,
      Function.update_self, Tasks.go_cpu]
  · rw [Function.update_of_ne htc, contexts, contexts, Tasks.go_tasks, Tasks.go_mode,
      Function.update_of_ne htc, Tasks.go_cpu]
    by_cases ht : t ∈ s.tasks
    · rw [if_pos ht, if_pos ht]
      exact (h.away t ht htc).context (hothers t ht htc)
    · rw [if_neg ht, if_neg ht]

/-- A task that has been there does not notice a new one. -/
theorem spared (ht : Page t) (hnew : t ∉ s.tasks)
    (hmem : ∀ a, 4096 ≤ a - t → mem a = s.cpu.mem a) (hu : u ∈ s.tasks) :
    Spared s.cpu.mem mem u 4096 := by
  intro a ha
  apply hmem
  apply (h.page u hu).disjoint ht _ ha
  rintro rfl
  exact hnew hu

/-- There is a new task. -/
theorem add {p : Bool} (ht : Page t) (hnew : t ∉ s.tasks)
    (hmem : ∀ a, 4096 ≤ a - t → mem a = s.cpu.mem a) (hprocess : m ≠ .thread → p)
    (haway : Away x mem m t) (hframe : m.Frame (intrContext mem (m.base t))) :
    Stacks x (s.add t p m mem) := by
  have hne : ∀ u ∈ s.tasks, u ≠ t := by
    rintro u hu rfl
    exact hnew hu
  have hmode : ∀ u ∈ s.tasks, (s.add t p m mem).mode u = s.mode u :=
    fun u hu => Function.update_of_ne (hne u hu) ..
  have hself : (s.add t p m mem).mode t = m := Function.update_self ..
  have hproc : ∀ u ∈ s.tasks, (s.add t p m mem).isProcess u = s.isProcess u :=
    fun u hu => Function.update_of_ne (hne u hu) ..
  have hspared : ∀ u ∈ s.tasks, Spared s.cpu.mem mem u 4096 := fun u hu => h.spared ht hnew hmem hu
  constructor
  · intro u hu
    obtain rfl | hu := List.mem_cons.mp hu
    · exact ht
    · exact h.page u hu
  · exact List.mem_cons_of_mem _ h.cur
  · intro u hu hthread
    obtain rfl | hu := List.mem_cons.mp hu
    · rw [hself] at hthread
      exact (Function.update_self ..).trans (hprocess hthread)
    · rw [hmode u hu] at hthread
      rw [hproc u hu]
      exact h.process u hu hthread
  · intro hcur
    exact h.esp0 ((hproc s.cur h.cur).symm.trans hcur)
  · intro huser
    exact h.user ((hmode s.cur h.cur).symm.trans huser)
  · intro hkernel
    have hcur : (s.add t p m mem).mode s.cur = s.mode s.cur := hmode s.cur h.cur
    have hrun := h.kernel fun hu => hkernel (hcur.trans hu)
    show Running x ((s.add t p m mem).mode s.cur) s.cur (s.withMem mem)
    rw [hcur]
    exact ⟨hrun.level, hrun.room, hrun.point⟩
  · intro u hu hcur
    obtain rfl | hu := List.mem_cons.mp hu
    · rw [hself]
      exact haway
    · rw [hmode u hu]
      have ha := h.away u hu hcur
      exact ha.congr (ha.stackKept_of_page (hspared u hu))
  · intro u hu
    obtain rfl | hu := List.mem_cons.mp hu
    · rw [hself]
      exact hframe
    · rw [hmode u hu]
      have hf := h.frame u hu
      by_cases hthread : s.mode u = .thread
      · rw [hthread]
        trivial
      · rw [← frame_of_page hthread (hspared u hu)] at hf
        exact hf

/-- It brings its own context only. -/
theorem contexts_add {p : Bool} (ht : Page t) (hnew : t ∉ s.tasks)
    (hmem : ∀ a, 4096 ≤ a - t → mem a = s.cpu.mem a) :
    contexts (s.add t p m mem) = Function.update (contexts s) t (m.context (s.withMem mem) t) := by
  funext u
  by_cases hut : u = t
  · rw [hut, Function.update_self, contexts, Tasks.add_tasks, if_pos List.mem_cons_self,
      Tasks.add_mode, Function.update_self, Tasks.add_cpu]
  · rw [Function.update_of_ne hut, contexts, contexts, Tasks.add_tasks, Tasks.add_mode,
      Function.update_of_ne hut, Tasks.add_cpu]
    by_cases hu : u ∈ s.tasks
    · rw [if_pos hu, if_pos (List.mem_cons_of_mem _ hu)]
      exact context_congr (fun _ => rfl) fun hthread =>
        frame_of_page hthread (h.spared ht hnew hmem hu)
    · rw [if_neg hu, if_neg]
      simp [hut, hu]

/-- The next task goes on. -/
theorem switch {next : UInt32} (hnext : next ∈ s.tasks) (hmode : s.mode s.cur ≠ .user)
    (hsaved : Away x c.mem (s.mode s.cur) s.cur)
    (hspared : ∀ u ∈ s.tasks, u ≠ s.cur → Spared s.cpu.mem c.mem u 4096)
    (hframe : s.mode s.cur ≠ .thread →
      Spared s.cpu.mem c.mem ((s.mode s.cur).base s.cur) 76)
    (hcpu : kernelContext c = savedContext c.mem next) (hseg : c.seg = s.cpu.seg) :
    Stacks x { s with cpu := c, esp0 := s.processActivate next, cur := next } := by
  have haway : ∀ t ∈ s.tasks, Away x c.mem (s.mode t) t := by
    intro t ht
    by_cases htc : t = s.cur
    · rw [htc]
      exact hsaved
    · have ha := h.away t ht htc
      exact ha.congr (ha.stackKept_of_page (hspared t ht htc))
  constructor
  · exact h.page
  · exact hnext
  · exact h.process
  · intro hp
    exact if_pos hp
  · intro hu
    exact absurd hu (haway next hnext).user
  · intro hu
    have hlevel : c.cpl = 0 := by
      rw [Registers.cpl, hseg]
      exact (h.kernel hmode).level
    exact running_of_away hlevel (haway next hnext) hcpu
  · intro t ht _
    exact haway t ht
  · intro t ht
    have hf := h.frame t ht
    by_cases hthread : s.mode t = .thread
    · show (s.mode t).Frame _
      rw [hthread]
      trivial
    · have hsame : intrContext c.mem ((s.mode t).base t) =
          intrContext s.cpu.mem ((s.mode t).base t) := by
        by_cases htc : t = s.cur
        · rw [htc] at hthread ⊢
          exact intrContext_congr (hframe hthread)
        · exact frame_of_page hthread (hspared t ht htc)
      show (s.mode t).Frame (intrContext c.mem ((s.mode t).base t))
      rw [hsame]
      exact hf

/-- Nobody's context is changed. -/
theorem contexts_switch {next : UInt32} (hmode : s.mode s.cur ≠ .user)
    (hspared : ∀ u ∈ s.tasks, u ≠ s.cur → Spared s.cpu.mem c.mem u 4096)
    (hframe : s.mode s.cur ≠ .thread →
      Spared s.cpu.mem c.mem ((s.mode s.cur).base s.cur) 76) :
    contexts { s with cpu := c, esp0 := s.processActivate next, cur := next } = contexts s := by
  funext t
  unfold contexts
  by_cases ht : t ∈ s.tasks
  · rw [if_pos ht, if_pos ht]
    by_cases htc : t = s.cur
    · rw [htc]
      exact context_congr (fun hu => absurd hu hmode) fun hthread =>
        intrContext_congr (hframe hthread)
    · have ha := h.away t ht htc
      exact ha.context (ha.stackKept_of_page (hspared t ht htc))
  · rw [if_neg ht, if_neg ht]

end Stacks

end ZyOs.Switch
