/-
The scheduler's invariant.

`Core` is what holds whenever `schedule` is called: every list is in step with the
states of the tasks, except that the task that is leaving the processor may be in
any state.  `schedule` turns it into `Inv`, where that task has found its place and
another one is running.  Every other function only has to get from `Inv` to `Core`.
-/
import ZyOs.Kernel.Sync
import Mathlib.Data.List.Nodup

namespace ZyOs

open Library Library.Prog

/-! ### Where a task waits -/

/-- A list of waiters, or a pointer of an io queue. -/
inductive Place where
  | sema (psema : Nat)
  | slot (waiter : Nat)

/-- Task `t` waits at `p`. -/
def Sched.At (s : Sched) (p : Place) (t : Nat) : Prop :=
  match p with
  | .sema psema => t ∈ (s.sema psema).waiters
  | .slot waiter => s.waiter waiter = some t

/-- What holds whenever `schedule` is called. -/
structure Core (s : Sched) : Prop where
  cur : s.cur ∈ s.all
  idle : s.idle ∈ s.all
  running : ∀ t ∈ s.all, (s.task t).status = .running → t = s.cur
  ready_nodup : s.ready.Nodup
  ready_iff : ∀ t, t ∈ s.ready ↔ t ∈ s.all ∧ (s.task t).status = .ready
  waiters_nodup : ∀ k, (s.sema k).waiters.Nodup
  wait : ∀ p t, s.At p t → t ∈ s.all ∧ (s.task t).status = .blocked ∧ t ≠ s.idle
  one_place : ∀ p q t, s.At p t → s.At q t → p = q
  all_nodup : s.all.Nodup
  all_iff : ∀ t, t ∈ s.all ↔ t ∈ s.pcbs
  idle_status : (s.task s.idle).status = .running ∨ (s.task s.idle).status = .ready ∨
    (s.task s.idle).status = .blocked
  idle_kont : ∀ k old, Frame.semaLoop k old ∉ s.kont s.idle
  found : ∀ stat ∈ s.found, stat = .blocked

/-- What holds between the steps. -/
structure Inv (s : Sched) : Prop extends Core s where
  cur_running : (s.task s.cur).status = .running

/-- A panic that the scheduler's own checks did not cause. -/
def Elsewhere : Halt → Prop
  | .panic func _ => func ∉ ["schedule", "thread_yield", "thread_block", "thread_unblock",
      "thread_start", "sys_fork"]
  | .fault _ => False
  | .hang _ => False

/-- The state with the PCB of `t` replaced. -/
def Sched.withTask (s : Sched) (t : Nat) (p : TaskStruct) : Sched :=
  { s with task := fun u => if u = t then p else s.task u }

section Lookup

variable (s : Sched) (t u : Nat) (p : TaskStruct)

@[simp] theorem withTask_self : (s.withTask t p).task t = p := if_pos rfl

theorem withTask_ne (h : u ≠ t) : (s.withTask t p).task u = s.task u := if_neg h

end Lookup

variable {s s' : Sched} {t : Nat}

theorem assertSched_run {c : Prop} [Decidable c] (h : c) (func condition : String) (s : Sched) :
    assertSched c func condition s = .ok ((), s) :=
  lift_run.mpr ⟨ASSERT_pos h func condition, rfl⟩

/-- A check of somebody else may stop the run. -/
theorem wp_assertSched {c : Prop} [Decidable c] {func condition : String} {Q : Unit → Sched → Prop}
    (hfunc : Elsewhere (.panic func condition)) (h : c → Q () s) :
    wp Elsewhere (assertSched c func condition) Q s := by
  by_cases hc : c
  · exact wp_of_run (assertSched_run hc func condition s) (h hc)
  · refine wp_lift (fun _ hok => absurd (ASSERT_eq_ok.mp hok) hc) fun e he => ?_
    rw [ASSERT_neg hc] at he
    rw [← Except.error.inj he]
    exact hfunc

theorem intrDisable_run (s : Sched) :
    intrDisable s = .ok (s.intr, { s with intr := false }) := rfl

theorem setStatus_run (t : Nat) (stat : TaskStatus) (s : Sched) :
    setStatus t stat s = .ok ((), s.withTask t { s.task t with status := stat }) := rfl

/-! ### `thread_unblock` -/

/-- The state after `thread_unblock`. -/
def Sched.unblocked (s : Sched) (t : Nat) : Sched :=
  { s.withTask t { s.task t with status := .ready } with ready := t :: s.ready }

theorem threadUnblock_run (hstat : (s.task t).status.IsBlocked) (hready : t ∉ s.ready) :
    threadUnblock t s = .ok ((), s.unblocked t) := by
  have hne : (s.task t).status ≠ .ready := by
    rintro hc
    rw [hc] at hstat
    exact absurd hstat (by decide)
  unfold threadUnblock
  rw [bind_of_run (intrDisable_run s), bind_of_run (get_run _),
    bind_of_run (assertSched_run (by exact hstat) _ _ _),
    bind_of_run (get_run _), if_pos (by exact hne), bind_of_run (get_run _)]
  rw [bind_of_run (assertSched_run (by exact hready) _ _ _)]
  rfl

/-! ### What the invariant looks at -/

/-- The two states agree in all that the invariant looks at; the idle thread may have entered
or left calls other than `sema_down`. -/
structure Same (s s' : Sched) : Prop where
  cur : s'.cur = s.cur
  idle : s'.idle = s.idle
  status : ∀ t, (s'.task t).status = (s.task t).status
  ready : s'.ready = s.ready
  all : s'.all = s.all
  waiters : ∀ k, (s'.sema k).waiters = (s.sema k).waiters
  waiter : s'.waiter = s.waiter
  kont : ∀ k old, Frame.semaLoop k old ∈ s'.kont s.idle → Frame.semaLoop k old ∈ s.kont s.idle
  pcbs : s'.pcbs = s.pcbs
  found : s'.found = s.found

theorem Same.place (h : Same s s') (p : Place) (t : Nat) : s'.At p t ↔ s.At p t := by
  cases p with
  | sema k => simp [Sched.At, h.waiters]
  | slot k => simp [Sched.At, h.waiter]

theorem Core.of_same (hs : Core s) (h : Same s s') : Core s' where
  cur := by rw [h.cur, h.all]; exact hs.cur
  idle := by rw [h.idle, h.all]; exact hs.idle
  running := by
    intro t ht hrun
    rw [h.cur]
    exact hs.running t (h.all ▸ ht) (h.status t ▸ hrun)
  ready_nodup := h.ready ▸ hs.ready_nodup
  ready_iff := by
    intro t
    rw [h.ready, h.all, h.status]
    exact hs.ready_iff t
  waiters_nodup := fun k => h.waiters k ▸ hs.waiters_nodup k
  wait := by
    intro p t hat
    rw [h.all, h.status, h.idle]
    exact hs.wait p t ((h.place p t).mp hat)
  one_place := fun p q t hp hq => hs.one_place p q t ((h.place p t).mp hp) ((h.place q t).mp hq)
  all_nodup := h.all ▸ hs.all_nodup
  all_iff := by
    intro t
    rw [h.all, h.pcbs]
    exact hs.all_iff t
  idle_status := by
    rw [h.idle, h.status]
    exact hs.idle_status
  idle_kont := by
    intro k old hk
    rw [h.idle] at hk
    exact hs.idle_kont k old (h.kont k old hk)
  found := h.found ▸ hs.found

theorem Inv.of_same (hs : Inv s) (h : Same s s') : Inv s' where
  toCore := hs.toCore.of_same h
  cur_running := by rw [h.cur, h.status]; exact hs.cur_running

/-- The running task enters a call. -/
theorem same_pushFrame (f : Frame) (hf : s.cur = s.idle → ∀ k old, f ≠ .semaLoop k old) :
    Same s { s with kont := fun t => if t = s.cur then f :: s.kont t else s.kont t } where
  cur := rfl
  idle := rfl
  status := fun _ => rfl
  ready := rfl
  all := rfl
  waiters := fun _ => rfl
  waiter := rfl
  pcbs := rfl
  found := rfl
  kont := by
    intro k old hk
    simp only at hk
    split at hk
    · next heq =>
        rcases List.mem_cons.mp hk with h | h
        · exact absurd h.symm (hf heq.symm k old)
        · exact h
    · exact hk

/-- The interrupt flag is none of the invariant's business. -/
theorem same_intr (status : Bool) : Same s { s with intr := status } where
  cur := rfl
  idle := rfl
  status := fun _ => rfl
  ready := rfl
  all := rfl
  waiters := fun _ => rfl
  waiter := rfl
  pcbs := rfl
  found := rfl
  kont := fun _ _ hk => hk

/-- Nor is what a PCB holds besides the status. -/
theorem same_withTask (t : Nat) (p : TaskStruct) (hp : p.status = (s.task t).status) :
    Same s (s.withTask t p) where
  cur := rfl
  idle := rfl
  status := by
    intro u
    by_cases hu : u = t
    · subst hu
      rw [withTask_self, hp]
    · rw [withTask_ne _ _ _ _ hu]
  ready := rfl
  all := rfl
  waiters := fun _ => rfl
  waiter := rfl
  pcbs := rfl
  found := rfl
  kont := fun _ _ hk => hk

/-! ### Moves between the lists -/

/-- A task that waits nowhere becomes ready. -/
theorem Core.to_ready (hs : Core s) {p : TaskStruct} {ready : List Nat} (ht : t ∈ s.all)
    (hp : p.status = .ready) (hat : ∀ q, ¬ s.At q t) (hnodup : ready.Nodup)
    (hready : ∀ u, u ∈ ready ↔ u = t ∨ u ∈ s.ready) :
    Core { s.withTask t p with ready := ready } where
  cur := hs.cur
  idle := hs.idle
  running := by
    intro u hu hrun
    by_cases hut : u = t
    · subst hut
      exact absurd ((congrArg _ (withTask_self s u p)).symm.trans hrun) (by simp [hp])
    · exact hs.running u hu ((congrArg _ (withTask_ne s t u p hut)).symm.trans hrun)
  ready_nodup := hnodup
  ready_iff := by
    intro u
    show u ∈ ready ↔ u ∈ s.all ∧ ((s.withTask t p).task u).status = .ready
    rw [hready u]
    by_cases hut : u = t
    · subst hut
      simp [hp, ht]
    · rw [withTask_ne s t u p hut, hs.ready_iff u]
      simp [hut]
  waiters_nodup := hs.waiters_nodup
  wait := by
    intro q u hq
    have hut : u ≠ t := fun h => hat q (h ▸ hq)
    show u ∈ s.all ∧ ((s.withTask t p).task u).status = .blocked ∧ u ≠ s.idle
    rw [withTask_ne s t u p hut]
    exact hs.wait q u hq
  one_place := hs.one_place
  all_nodup := hs.all_nodup
  all_iff := hs.all_iff
  idle_status := by
    show ((s.withTask t p).task s.idle).status = _ ∨ ((s.withTask t p).task s.idle).status = _ ∨
      ((s.withTask t p).task s.idle).status = _
    by_cases hut : s.idle = t
    · rw [hut, withTask_self, hp]
      exact .inr (.inl rfl)
    · rw [withTask_ne s t _ p hut]
      exact hs.idle_status
  idle_kont := hs.idle_kont
  found := hs.found

/-- The running task leaves the processor. -/
theorem Inv.to_blocked (hs : Inv s) {p : TaskStruct} (hp : p.status.IsBlocked)
    (hidle : s.cur = s.idle → p.status = .blocked) : Core (s.withTask s.cur p) where
  cur := hs.cur
  idle := hs.idle
  running := by
    intro u hu hrun
    by_cases huc : u = s.cur
    · exact huc
    · exact hs.running u hu ((congrArg _ (withTask_ne s _ u p huc)).symm.trans hrun)
  ready_nodup := hs.ready_nodup
  ready_iff := by
    intro u
    show u ∈ s.ready ↔ u ∈ s.all ∧ ((s.withTask s.cur p).task u).status = .ready
    by_cases huc : u = s.cur
    · subst huc
      have hnot : s.cur ∉ s.ready := fun h => by
        have := ((hs.ready_iff _).mp h).2
        rw [hs.cur_running] at this
        exact absurd this (by decide)
      have hne : p.status ≠ .ready := by
        rcases hp with h | h | h <;> simp [h]
      simp [hnot, hne]
    · rw [withTask_ne s _ u p huc]
      exact hs.ready_iff u
  waiters_nodup := hs.waiters_nodup
  wait := by
    intro q u hq
    have hut : u ≠ s.cur := fun h => by
      have := (hs.wait q u hq).2.1
      rw [h, hs.cur_running] at this
      exact absurd this (by decide)
    show u ∈ s.all ∧ ((s.withTask s.cur p).task u).status = .blocked ∧ u ≠ s.idle
    rw [withTask_ne s _ u p hut]
    exact hs.wait q u hq
  one_place := hs.one_place
  all_nodup := hs.all_nodup
  all_iff := hs.all_iff
  idle_status := by
    show ((s.withTask s.cur p).task s.idle).status = _ ∨
      ((s.withTask s.cur p).task s.idle).status = _ ∨
      ((s.withTask s.cur p).task s.idle).status = _
    by_cases hut : s.idle = s.cur
    · rw [hut, withTask_self]
      exact .inr (.inr (hidle hut.symm))
    · rw [withTask_ne s _ _ p hut]
      exact hs.idle_status
  idle_kont := hs.idle_kont
  found := hs.found

theorem Core.not_waiting (hs : Core s) (hstat : (s.task t).status ≠ .blocked) (q : Place) :
    ¬ s.At q t := fun hq => hstat (hs.wait q t hq).2.1

theorem Core.not_ready (hs : Core s) (hstat : (s.task t).status ≠ .ready) : t ∉ s.ready :=
  fun h => hstat ((hs.ready_iff t).mp h).2

/-- `thread_unblock` of a task that has been taken off the list it waited on. -/
theorem Core.unblocked (hs : Core s) (ht : t ∈ s.all) (hstat : (s.task t).status = .blocked)
    (hat : ∀ q, ¬ s.At q t) : Core (s.unblocked t) := by
  have hready : t ∉ s.ready := hs.not_ready (by simp [hstat])
  refine hs.to_ready ht rfl hat (List.nodup_cons.mpr ⟨hready, hs.ready_nodup⟩) fun u => ?_
  exact List.mem_cons

theorem nodup_append_one {l : List Nat} (hl : l.Nodup) (ht : t ∉ l) : (l ++ [t]).Nodup := by
  simp only [List.nodup_append, hl, List.nodup_singleton, List.mem_singleton, true_and]
  rintro u hu _ rfl rfl
  exact ht hu

/-! ### `schedule` -/

/-- The first half of `schedule` leaves nobody running. -/
theorem requeue_run (hs : Core s) :
    ∃ s', requeue s = .ok ((), s') ∧ Core s' ∧
      ∀ t ∈ s'.all, (s'.task t).status ≠ .running := by
  by_cases hrun : (s.task s.cur).status = .running
  · have hready : s.cur ∉ s.ready := hs.not_ready (by simp [hrun])
    refine ⟨{ s.withTask s.cur { s.task s.cur with
        ticks := (s.task s.cur).priority, status := .ready } with
        ready := s.ready ++ [s.cur] }, ?_, ?_, ?_⟩
    · unfold requeue
      rw [bind_of_run (get_run s), if_pos hrun, bind_of_run (assertSched_run hready _ _ s)]
      rfl
    · refine hs.to_ready hs.cur rfl (hs.not_waiting (by simp [hrun]))
        (nodup_append_one hs.ready_nodup hready) fun u => ?_
      simp [or_comm]
    · intro t ht
      by_cases htc : t = s.cur
      · subst htc
        simp [Sched.withTask]
      · simpa [Sched.withTask, htc] using fun h => htc (hs.running t ht h)
  · refine ⟨s, ?_, hs, fun t ht h => hrun (hs.running t ht h ▸ h)⟩
    unfold requeue
    rw [bind_of_run (get_run s), if_neg hrun]
    rfl

/-- The second half finds a task to switch to: when the list is empty, the idle thread is
blocked. -/
theorem Core.idle_blocked (hs : Core s) (hnone : ∀ t ∈ s.all, (s.task t).status ≠ .running)
    (hready : s.ready = []) : (s.task s.idle).status = .blocked := by
  rcases hs.idle_status with h | h | h
  · exact absurd h (hnone _ hs.idle)
  · have := (hs.ready_iff s.idle).mpr ⟨hs.idle, h⟩
    rw [hready] at this
    exact absurd this List.not_mem_nil
  · exact h

theorem Core.idle_not_waiting (hs : Core s) (q : Place) : ¬ s.At q s.idle :=
  fun hq => (hs.wait q _ hq).2.2 rfl

/-- The first task of the ready list starts to run. -/
theorem Core.switch (hs : Core s) {next : Nat} {rest : List Nat} {p : TaskStruct}
    (hnone : ∀ t ∈ s.all, (s.task t).status ≠ .running) (hready : s.ready = next :: rest)
    (hp : p.status = .running) :
    Inv ({ s with ready := rest, cur := next }.withTask next p) := by
  have hmem : ∀ u, u ∈ s.ready ↔ u = next ∨ u ∈ rest := fun u => by rw [hready, List.mem_cons]
  have hnodup : next ∉ rest ∧ rest.Nodup := List.nodup_cons.mp (hready ▸ hs.ready_nodup)
  have hnext := (hs.ready_iff next).mp ((hmem next).mpr (.inl rfl))
  set s' := { s with ready := rest, cur := next }.withTask next p with hs'
  have hself : s'.task next = p := withTask_self _ _ _
  have hne : ∀ u, u ≠ next → s'.task u = s.task u := fun u hu => withTask_ne _ _ _ _ hu
  refine ⟨⟨hnext.1, hs.idle, ?_, hnodup.2, ?_, hs.waiters_nodup, ?_, hs.one_place, hs.all_nodup,
    hs.all_iff, ?_, hs.idle_kont, hs.found⟩, hself ▸ hp⟩
  · intro u hu hrun
    by_contra hun
    exact hnone u hu (hne u hun ▸ hrun)
  · intro u
    show u ∈ rest ↔ u ∈ s.all ∧ (s'.task u).status = .ready
    by_cases hun : u = next
    · subst hun
      simp [hnodup.1, hself, hp]
    · rw [hne u hun, ← hs.ready_iff u, hmem u]
      simp [hun]
  · intro q u hq
    have hw := hs.wait q u hq
    have hun : u ≠ next := fun h => by
      rw [h, hnext.2] at hw
      exact absurd hw.2.1 (by decide)
    rw [hne u hun]
    exact hw
  · show (s'.task s.idle).status = _ ∨ (s'.task s.idle).status = _ ∨ (s'.task s.idle).status = _
    by_cases hun : s.idle = next
    · rw [hun, hself]
      exact .inl hp
    · rw [hne _ hun]
      exact hs.idle_status

/-- After the second part somebody is ready. -/
theorem wakeIdle_run (hs : Core s) (hnone : ∀ t ∈ s.all, (s.task t).status ≠ .running) :
    ∃ s', wakeIdle s = .ok ((), s') ∧ Core s' ∧
      (∀ t ∈ s'.all, (s'.task t).status ≠ .running) ∧ s'.ready ≠ [] := by
  by_cases hempty : s.ready = []
  · have hidle := hs.idle_blocked hnone hempty
    set s₁ := { s with found := (s.task s.idle).status :: s.found } with hs₁
    have hcore : Core s₁ := ⟨hs.cur, hs.idle, hs.running, hs.ready_nodup, hs.ready_iff,
      hs.waiters_nodup, hs.wait, hs.one_place, hs.all_nodup, hs.all_iff, hs.idle_status,
      hs.idle_kont, List.forall_mem_cons.mpr ⟨hidle, hs.found⟩⟩
    refine ⟨s₁.unblocked s.idle, ?_, hcore.unblocked hs.idle hidle hs.idle_not_waiting, ?_, ?_⟩
    · unfold wakeIdle
      rw [bind_of_run (get_run _), if_pos hempty, bind_of_run (set_run _ _)]
      exact threadUnblock_run (by simp [hidle, TaskStatus.IsBlocked]) (by simp [hempty])
    · intro t ht
      by_cases hti : t = s.idle
      · subst hti
        simp [Sched.unblocked, Sched.withTask]
      · simpa [Sched.unblocked, Sched.withTask, hti] using hnone t ht
    · simp [Sched.unblocked]
  · refine ⟨s, ?_, hs, hnone, hempty⟩
    unfold wakeIdle
    rw [bind_of_run (get_run _), if_neg hempty]
    rfl

theorem switchNext_run (hs : Core s) (hnone : ∀ t ∈ s.all, (s.task t).status ≠ .running)
    (hne : s.ready ≠ []) : ∃ s', switchNext s = .ok ((), s') ∧ Inv s' := by
  obtain ⟨next, rest, hready⟩ := List.exists_cons_of_ne_nil hne
  refine ⟨{ s with ready := rest, cur := next }.withTask next
    { s.task next with status := .running }, ?_, hs.switch hnone hready rfl⟩
  unfold switchNext
  rw [bind_of_run (get_run _), bind_of_run (assertSched_run hne _ _ _), bind_of_run (get_run _)]
  simp only [hready]
  rfl

theorem schedule_run (hs : Core s) (hintr : s.intr = false) :
    ∃ s', schedule s = .ok ((), s') ∧ Inv s' := by
  obtain ⟨s₁, h1, hs₁, hnone⟩ := requeue_run hs
  obtain ⟨s₂, h2, hs₂, hnone₂, hne⟩ := wakeIdle_run hs₁ hnone
  obtain ⟨s₃, h3, hs₃⟩ := switchNext_run hs₂ hnone₂ hne
  refine ⟨s₃, ?_, hs₃⟩
  unfold schedule
  rw [bind_of_run (get_run s), bind_of_run (assertSched_run hintr _ _ s), bind_of_run h1,
    bind_of_run h2, h3]

/-- `schedule` called from any of the functions. -/
theorem wp_schedule (hs : Core s) (hintr : s.intr = false) :
    wp Elsewhere schedule (fun _ => Inv) s := by
  obtain ⟨s', h, hs'⟩ := schedule_run hs hintr
  exact wp_of_run h hs'

end ZyOs
