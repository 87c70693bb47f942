/-
The scheduler over whole runs.

Each step of the machine takes `Inv` to `Inv` and stops, if it stops, with a check of
somebody else.  From the state `thread_init` leaves behind this gives what the lists and
the states of the tasks look like after any number of steps.
-/
import ZyOs.Proofs.Sched

namespace ZyOs

open Library Library.Prog

variable {s s' : Sched} {t : Nat}

/-! ### Waiting and being woken up -/

/-- Tasks start or stop to wait. -/
theorem Core.with_places (hs : Core s) {sema : Nat → Semaphore} {waiter : Nat → Option Nat}
    (hnodup : ∀ k, (sema k).waiters.Nodup)
    (hwait : ∀ p u, { s with sema := sema, waiter := waiter }.At p u →
      u ∈ s.all ∧ (s.task u).status = .blocked ∧ u ≠ s.idle)
    (hone : ∀ p q u, { s with sema := sema, waiter := waiter }.At p u →
      { s with sema := sema, waiter := waiter }.At q u → p = q) :
    Core { s with sema := sema, waiter := waiter } :=
  ⟨hs.cur, hs.idle, hs.running, hs.ready_nodup, hs.ready_iff, hnodup, hwait, hone, hs.all_nodup,
    hs.all_iff, hs.idle_status, hs.idle_kont, hs.found⟩

/-- A blocked task that waits nowhere goes to wait at `p`. -/
theorem Core.to_wait (hs : Core s) {sema : Nat → Semaphore} {waiter : Nat → Option Nat} {p : Place}
    (hall : t ∈ s.all) (hstat : (s.task t).status = .blocked) (hidle : t ≠ s.idle)
    (hfree : ∀ q, ¬ s.At q t) (hnodup : ∀ k, (sema k).waiters.Nodup)
    (hat : ∀ q u, { s with sema := sema, waiter := waiter }.At q u → s.At q u ∨ q = p ∧ u = t) :
    Core { s with sema := sema, waiter := waiter } := by
  refine hs.with_places hnodup ?_ ?_
  · intro q u hq
    rcases hat q u hq with h | ⟨-, rfl⟩
    · exact hs.wait q u h
    · exact ⟨hall, hstat, hidle⟩
  · intro q r u hq hr
    rcases hat q u hq with h1 | ⟨rfl, rfl⟩ <;> rcases hat r u hr with h2 | ⟨rfl, h2⟩
    · exact hs.one_place q r u h1 h2
    · exact absurd (h2 ▸ h1) (hfree q)
    · exact absurd h2 (hfree r)
    · rfl

/-- Tasks stop to wait. -/
theorem Core.to_leave (hs : Core s) (sema : Nat → Semaphore) (waiter : Nat → Option Nat)
    (hnodup : ∀ k, (sema k).waiters.Nodup)
    (hat : ∀ q u, { s with sema := sema, waiter := waiter }.At q u → s.At q u) :
    Core { s with sema := sema, waiter := waiter } :=
  hs.with_places hnodup (fun q u hq => hs.wait q u (hat q u hq))
    fun q r u hq hr => hs.one_place q r u (hat q u hq) (hat r u hr)

theorem Inv.unblocked (hs : Inv s) (ht : t ∈ s.all) (hstat : (s.task t).status = .blocked)
    (hat : ∀ q, ¬ s.At q t) : Inv (s.unblocked t) := by
  refine ⟨hs.toCore.unblocked ht hstat hat, ?_⟩
  have hne : s.cur ≠ t := fun h => by
    rw [← h, hs.cur_running] at hstat
    exact absurd hstat (by decide)
  exact (congrArg _ (withTask_ne s t s.cur _ hne)).trans hs.cur_running

/-- `thread_unblock` of a task that has been taken off the list it waited on. -/
theorem wp_threadUnblock (hs : Inv s) (ht : t ∈ s.all) (hstat : (s.task t).status = .blocked)
    (hat : ∀ q, ¬ s.At q t) {Q : Unit → Sched → Prop}
    (h : Inv (s.unblocked t) → Q () (s.unblocked t)) :
    wp Elsewhere (threadUnblock t) Q s :=
  wp_of_run (threadUnblock_run (by simp [hstat, TaskStatus.IsBlocked])
    (hs.not_ready (by simp [hstat]))) (h (hs.unblocked ht hstat hat))

/-- `thread_block`, once the task is where it should wait. -/
theorem wp_threadBlock {stat : TaskStatus} (hstat : stat.IsBlocked)
    (hs : Core (s.withTask s.cur { s.task s.cur with status := stat })) :
    wp Elsewhere (threadBlock stat) (fun _ => Inv) s := by
  unfold threadBlock
  refine wp_bind (wp_of_run (assertSched_run hstat _ _ s) ?_)
  refine wp_bind (wp_of_run (intrDisable_run s) ?_)
  refine wp_bind (wp_modify ?_)
  refine wp_get_bind (wp_bind (wp_of_run (setStatus_run _ _ _) ?_))
  refine wp_schedule (hs.of_same ?_) rfl
  have hpush := same_pushFrame (s := s) (.restore s.intr) (fun _ k old => by simp)
  exact ⟨rfl, rfl, fun _ => rfl, rfl, rfl, fun _ => rfl, rfl, hpush.kont, rfl, rfl⟩

/-! ### The functions -/

theorem Inv.cur_not_waiting (hs : Inv s) (q : Place) : ¬ s.At q s.cur :=
  hs.not_waiting (by simp [hs.cur_running]) q

/-- The running task goes to sleep at a place of its own. -/
theorem Inv.sleep (hs : Inv s) (sema : Nat → Semaphore) (waiter : Nat → Option Nat) (p : Place)
    (pcb : TaskStruct) (hpcb : pcb.status = .blocked) (hidle : s.cur ≠ s.idle)
    (hnodup : ∀ k, (sema k).waiters.Nodup)
    (hat : ∀ q u, { s with sema := sema, waiter := waiter }.At q u → s.At q u ∨ q = p ∧ u = s.cur) :
    Core { s.withTask s.cur pcb with sema := sema, waiter := waiter } := by
  have hcore : Core (s.withTask s.cur pcb) :=
    hs.to_blocked (by simp [hpcb, TaskStatus.IsBlocked]) fun h => absurd h hidle
  exact hcore.to_wait hs.cur ((congrArg _ (withTask_self s _ pcb)).trans hpcb) hidle
    hs.cur_not_waiting hnodup hat

theorem wp_semaLoop (hs : Inv s) (hidle : s.cur ≠ s.idle) (psema : Nat) (old : Bool) :
    wp Elsewhere (semaLoop psema old) (fun _ => Inv) s := by
  unfold semaLoop
  refine wp_get_bind (wp_ite (fun _ => ?_) fun _ => ?_)
  · -- the task joins the waiters and goes to sleep
    refine wp_bind (wp_assertSched (by simp [Elsewhere]) fun hnot => ?_)
    refine wp_bind (wp_modify (wp_bind (wp_modify (wp_threadBlock (.inl rfl) ?_))))
    set sema := fun k => if k = psema then
      { s.sema psema with waiters := (s.sema psema).waiters ++ [s.cur] } else s.sema k with hsema
    have hcore := hs.sleep sema s.waiter (.sema psema) { s.task s.cur with status := .blocked } rfl
      hidle ?_ ?_
    · exact hcore.of_same ⟨rfl, rfl, fun _ => rfl, rfl, rfl, fun _ => rfl, rfl,
        (same_pushFrame (s := s) _ fun h => absurd h hidle).kont, rfl, rfl⟩
    · intro k
      by_cases hk : k = psema
      · simp only [hsema, hk, if_true]
        exact nodup_append_one (hs.waiters_nodup psema) hnot
      · simpa only [hsema, hk, if_false] using hs.waiters_nodup k
    · rintro (k | k) u hq
      · by_cases hk : k = psema
        · subst hk
          simpa [Sched.At, hsema] using hq
        · simp only [Sched.At, hsema, hk, if_false] at hq
          exact .inl hq
      · exact .inl hq
  · -- the semaphore is taken
    refine wp_bind (wp_modify ?_)
    refine wp_bind (wp_assertSched (by simp [Elsewhere]) fun _ => wp_modify ?_)
    refine hs.of_same
      ⟨rfl, rfl, fun _ => rfl, rfl, rfl, fun k => ?_, rfl, fun _ _ hk => hk, rfl, rfl⟩
    by_cases hk : k = psema
    · simp [hk]
    · simp [hk]

/-- The first of the waiters is taken off its list and waits nowhere any more. -/
theorem Inv.pop_waiter (hs : Inv s) {psema : Nat} {rest : List Nat}
    (hw : (s.sema psema).waiters = t :: rest) (sema : Nat → Semaphore)
    (hself : (sema psema).waiters = rest) (hne : ∀ k, k ≠ psema → sema k = s.sema k) :
    Inv { s with sema := sema } ∧ ∀ q, ¬ { s with sema := sema }.At q t := by
  have hnodup := List.nodup_cons.mp (hw ▸ hs.waiters_nodup psema)
  have hat : ∀ q v, { s with sema := sema }.At q v → s.At q v := by
    intro q v hq
    cases q with
    | sema k =>
        by_cases hk : k = psema
        · subst hk
          simp only [Sched.At, hself] at hq
          simp [Sched.At, hw, hq]
        · simpa only [Sched.At, hne k hk] using hq
    | slot k => exact hq
  refine ⟨⟨hs.toCore.to_leave sema s.waiter ?_ hat, hs.cur_running⟩, fun q hq => ?_⟩
  · intro k
    by_cases hk : k = psema
    · rw [hk, hself]
      exact hnodup.2
    · rw [hne k hk]
      exact hs.waiters_nodup k
  · -- it waited at `psema` only, and there only once
    have hplace := hs.one_place q (.sema psema) t (hat q t hq) (by simp [Sched.At, hw])
    subst hplace
    simp only [Sched.At, hself] at hq
    exact hnodup.1 hq

theorem wp_wakeWaiter (hs : Inv s) (psema : Nat) :
    wp Elsewhere (wakeWaiter psema) (fun _ => Inv) s := by
  unfold wakeWaiter
  refine wp_get_bind ?_
  cases hw : (s.sema psema).waiters with
  | nil =>
      simp only [hw]
      exact wp_pure hs
  | cons u rest =>
      simp only [hw]
      have hu := hs.wait (.sema psema) u (by simp [Sched.At, hw])
      obtain ⟨hleave, hfree⟩ := hs.pop_waiter hw
        (fun k => if k = psema then { s.sema psema with waiters := rest } else s.sema k)
        (by simp) fun k hk => if_neg hk
      exact wp_bind (wp_modify (wp_threadUnblock hleave hu.1 hu.2.1 hfree id))

theorem wp_semaUp (hs : Inv s) (psema : Nat) : wp Elsewhere (semaUp psema) (fun _ => Inv) s := by
  unfold semaUp
  refine wp_bind (wp_of_run (intrDisable_run s) ?_)
  refine wp_get_bind (wp_bind (wp_assertSched (by simp [Elsewhere]) fun _ => ?_))
  refine wp_bind (wp_mono (wp_wakeWaiter (hs.of_same (same_intr false)) psema) fun _ s₁ hs₁ => ?_)
  refine wp_get_bind (wp_bind (wp_modify ?_))
  refine wp_bind (wp_assertSched (by simp [Elsewhere]) fun _ => ?_)
  refine wp_modify (hs₁.of_same
    ⟨rfl, rfl, fun _ => rfl, rfl, rfl, fun k => ?_, rfl, fun _ _ hk => hk, rfl, rfl⟩)
  by_cases hk : k = psema
  · simp [hk]
  · simp [hk]

theorem wp_ioqWait (hs : Inv s) (hidle : s.cur ≠ s.idle) (waiter : Nat) :
    wp Elsewhere (ioqWait waiter) (fun _ => Inv) s := by
  unfold ioqWait
  refine wp_get_bind (wp_bind (wp_assertSched (by simp [Elsewhere]) fun _ => ?_))
  refine wp_bind (wp_assertSched (by simp [Elsewhere]) fun _ => ?_)
  refine wp_bind (wp_modify (wp_threadBlock (.inl rfl) ?_))
  refine hs.sleep s.sema _ (.slot waiter) _ rfl hidle hs.waiters_nodup ?_
  rintro (k | k) u hq
  · exact .inl hq
  · by_cases hk : k = waiter
    · subst hk
      simp only [Sched.At, if_true, Option.some.injEq] at hq
      exact .inr ⟨rfl, hq.symm⟩
    · simp only [Sched.At, hk, if_false] at hq
      exact .inl hq

theorem wp_ioqWakeup (hs : Inv s) (waiter : Nat) :
    wp Elsewhere (ioqWakeup waiter) (fun _ => Inv) s := by
  unfold ioqWakeup
  refine wp_get_bind (wp_bind (wp_assertSched (by simp [Elsewhere]) fun _ => ?_))
  cases hw : s.waiter waiter with
  | none => exact wp_assertSched (by simp [Elsewhere]) fun h => h.elim
  | some t =>
      have ht := hs.wait (.slot waiter) t hw
      refine wp_bind (wp_of_run (threadUnblock_run (by simp [ht.2.1, TaskStatus.IsBlocked])
        (hs.not_ready (by simp [ht.2.1]))) (wp_modify ?_))
      set slots := fun k => if k = waiter then none else s.waiter k with hslots
      -- the pointer is cleared last, but nobody looks at it in between
      have hat : ∀ q v, { s with waiter := slots }.At q v → s.At q v ∧ q ≠ .slot waiter := by
        rintro (k | k) v hq
        · exact ⟨hq, by simp⟩
        · by_cases hk : k = waiter
          · simp [Sched.At, hslots, hk] at hq
          · simp only [Sched.At, hslots, hk, if_false] at hq
            exact ⟨hq, by simp [hk]⟩
      have hleave : Inv { s with waiter := slots } :=
        ⟨hs.toCore.to_leave s.sema slots hs.waiters_nodup fun q v hq => (hat q v hq).1,
          hs.cur_running⟩
      exact hleave.unblocked ht.1 ht.2.1 fun q hq =>
        (hat q t hq).2 (hs.one_place q _ t (hat q t hq).1 hw)

theorem wp_threadYield (hs : Inv s) : wp Elsewhere threadYield (fun _ => Inv) s := by
  have hready : s.cur ∉ s.ready := hs.not_ready (by simp [hs.cur_running])
  unfold threadYield
  refine wp_get_bind (wp_bind (wp_of_run (intrDisable_run s) ?_))
  refine wp_get_bind (wp_bind (wp_of_run (assertSched_run hready _ _ _) ?_))
  refine wp_bind (wp_modify (wp_bind (wp_modify ?_)))
  refine wp_bind (wp_of_run (setStatus_run _ _ _) ?_)
  have hcore := hs.to_ready (p := { s.task s.cur with status := .ready }) hs.cur rfl
    hs.cur_not_waiting (nodup_append_one hs.ready_nodup hready) fun u => by simp [or_comm]
  have hpush := same_pushFrame (s := s) (.restore s.intr) (fun _ k old => by simp)
  exact wp_schedule (hcore.of_same
    ⟨rfl, rfl, fun _ => rfl, rfl, rfl, fun _ => rfl, rfl, hpush.kont, rfl, rfl⟩) rfl

/-- The idle thread blocks itself, whoever else is ready. -/
theorem wp_idleRound (hs : Inv s) : wp Elsewhere idleRound (fun _ => Inv) s := by
  unfold idleRound
  refine wp_bind (wp_modify (wp_threadBlock (.inl rfl) ?_))
  have hpush := hs.of_same (same_pushFrame .hlt fun _ k old => by simp)
  exact hpush.to_blocked (.inl rfl) fun _ => rfl

theorem wp_intrTimerHandler (hs : Inv s) (hintr : s.intr = false) :
    wp Elsewhere intrTimerHandler (fun _ => Inv) s := by
  unfold intrTimerHandler
  refine wp_get_bind (wp_bind (wp_modify (wp_bind (wp_modify ?_))))
  have hcount : Inv { s.withTask s.cur { s.task s.cur with
      elapsedTicks := (s.task s.cur).elapsedTicks + 1 } with ticks := s.ticks + 1 } :=
    (hs.of_same (same_withTask s.cur _ (by rfl))).of_same
      ⟨rfl, rfl, fun _ => rfl, rfl, rfl, fun _ => rfl, rfl, fun _ _ hk => hk, rfl, rfl⟩
  refine wp_ite (fun _ => wp_schedule hcount.toCore hintr) fun _ => wp_modify ?_
  exact hcount.of_same (same_withTask s.cur _ (by simp [Sched.withTask]))

/-- An interrupt is taken on the stack of the running task. -/
theorem wp_interrupt (hs : Inv s) {handler : SchedM Unit}
    (h : ∀ s', Inv s' → s'.intr = false → wp Elsewhere handler (fun _ => Inv) s') :
    wp Elsewhere (interrupt handler) (fun _ => Inv) s := by
  unfold interrupt
  refine wp_bind (wp_modify (wp_bind (wp_modify (h _ ?_ rfl))))
  exact (hs.of_same (same_pushFrame .intrExit fun _ k old => by simp)).of_same (same_intr false)

/-! ### New tasks -/

/-- A new PCB on both lists. -/
theorem Inv.linked (hs : Inv s) (ht : t ∉ s.pcbs) {p : TaskStruct} (hp : p.status = .ready)
    (start : Frame) : Inv { s.withTask t p with
      kont := fun u => if u = t then [start] else s.kont u
      pcbs := insert t s.pcbs, ready := s.ready ++ [t], all := s.all ++ [t] } := by
  have hall : t ∉ s.all := fun h => ht ((hs.all_iff t).mp h)
  have hready : t ∉ s.ready := fun h => hall ((hs.ready_iff t).mp h).1
  have hne : ∀ u ∈ s.all, u ≠ t := fun u hu h => hall (h ▸ hu)
  have hold : ∀ u ∈ s.all, (s.withTask t p).task u = s.task u :=
    fun u hu => withTask_ne s t u p (hne u hu)
  refine ⟨⟨List.mem_append_left _ hs.cur, List.mem_append_left _ hs.idle, ?_,
    nodup_append_one hs.ready_nodup hready, ?_, hs.waiters_nodup, ?_, hs.one_place,
    nodup_append_one hs.all_nodup hall, ?_, ?_, ?_, hs.found⟩, ?_⟩
  · intro u hu hrun
    rcases List.mem_append.mp hu with h | h
    · exact hs.running u h ((congrArg _ (hold u h)).symm.trans hrun)
    · have hut := List.mem_singleton.mp h
      subst hut
      exact absurd ((congrArg _ (withTask_self s u p)).symm.trans hrun) (by simp [hp])
  · intro u
    show u ∈ s.ready ++ [t] ↔ u ∈ s.all ++ [t] ∧ ((s.withTask t p).task u).status = .ready
    by_cases hut : u = t
    · subst hut
      simp [hp]
    · rw [withTask_ne s t u p hut]
      simp [hut, hs.ready_iff u]
  · intro q u hq
    have hw := hs.wait q u hq
    show u ∈ s.all ++ [t] ∧ ((s.withTask t p).task u).status = .blocked ∧ u ≠ s.idle
    rw [hold u hw.1]
    exact ⟨List.mem_append_left _ hw.1, hw.2⟩
  · intro u
    show u ∈ s.all ++ [t] ↔ u ∈ insert t s.pcbs
    simp [hs.all_iff u, or_comm]
  · show ((s.withTask t p).task s.idle).status = _ ∨ ((s.withTask t p).task s.idle).status = _ ∨
      ((s.withTask t p).task s.idle).status = _
    rw [hold _ hs.idle]
    exact hs.idle_status
  · intro k old
    show Frame.semaLoop k old ∉ if s.idle = t then [start] else s.kont s.idle
    rw [if_neg (hne _ hs.idle)]
    exact hs.idle_kont k old
  · exact (congrArg _ (hold _ hs.cur)).trans hs.cur_running

/-- The lines that put a new PCB on the lists. -/
theorem wp_newTask_link (hs : Inv s) (ht : t ∉ s.pcbs) {p : TaskStruct} (hp : p.status = .ready)
    (start : Frame) (func : String) :
    wp Elsewhere (do newTask t p start; link t func) (fun _ => Inv) s := by
  have hall : t ∉ s.all := fun h => ht ((hs.all_iff t).mp h)
  have hready : t ∉ s.ready := fun h => hall ((hs.ready_iff t).mp h).1
  refine wp_bind (wp_modify ?_)
  unfold link
  refine wp_get_bind (wp_bind (wp_of_run (assertSched_run hready _ _ _) ?_))
  refine wp_bind (wp_modify (wp_get_bind (wp_bind (wp_of_run (assertSched_run hall _ _ _) ?_))))
  exact wp_modify (hs.linked ht hp start)

theorem wp_sysFork (hs : Inv s) {child : Nat} (hchild : child ∉ s.pcbs)
    (hpg : (s.task s.cur).pgDir = true) : wp Elsewhere (sysFork child) (fun _ => Inv) s := by
  have hentry := (hs.of_same (same_pushFrame .intrExit fun _ k old => by simp)).of_same
    (same_intr false)
  unfold sysFork
  refine wp_bind (wp_modify (wp_bind (wp_modify (wp_get_bind ?_))))
  refine wp_bind (wp_of_run (assertSched_run ⟨rfl, hpg⟩ _ _ _) ?_)
  exact wp_newTask_link hentry hchild (by rfl) _ _

/-! ### Runs -/

/-- The running task returns from a call. -/
theorem wp_return (hs : Inv s) {f : Frame} (hf : (s.kont s.cur).head? = some f) :
    wp Elsewhere (SchedOp.return_ f).exec (fun _ => Inv) s := by
  have hmem : f ∈ s.kont s.cur := List.mem_of_head? hf
  refine wp_bind (wp_modify ?_)
  have hpop : Inv { s with kont := fun t => if t = s.cur then (s.kont t).tail else s.kont t } := by
    refine hs.of_same ⟨rfl, rfl, fun _ => rfl, rfl, rfl, fun _ => rfl, rfl, ?_, rfl, rfl⟩
    intro k old hk
    simp only at hk
    split at hk
    · exact List.mem_of_mem_tail hk
    · exact hk
  cases f with
  | semaLoop psema old =>
      -- the idle thread is never in `sema_down`
      have hidle : s.cur ≠ s.idle := fun h => hs.idle_kont psema old (h ▸ hmem)
      exact wp_semaLoop hpop hidle psema old
  | restore old => exact wp_modify (hpop.of_same (same_intr _))
  | intrExit => exact wp_modify (hpop.of_same (same_intr _))
  | kernelThread => exact wp_modify (hpop.of_same (same_intr _))
  | hlt => exact wp_modify (hpop.of_same (same_intr _))

/-- One step. -/
theorem wp_exec (hs : Inv s) {op : SchedOp} (hop : op.Enabled s) :
    wp Elsewhere op.exec (fun _ => Inv) s := by
  cases op with
  | tick => exact wp_interrupt hs fun _ => wp_intrTimerHandler
  | diskIntr psema => exact wp_interrupt hs fun _ h _ => wp_semaUp h psema
  | keyIntr waiter => exact wp_interrupt hs fun _ h _ => wp_ioqWakeup h waiter
  | return_ f => exact wp_return hs hop
  | idle => exact wp_idleRound hs
  | syscall => exact wp_interrupt hs fun _ h _ => wp_pure h
  | setIntr status => exact wp_modify (hs.of_same (same_intr status))
  | yield => exact wp_threadYield hs
  | block stat => exact wp_threadBlock hop.2 (hs.to_blocked hop.2 fun h => absurd h hop.1.1)
  | down psema =>
      exact wp_bind (wp_of_run rfl (wp_semaLoop (hs.of_same (same_intr false)) hop.1 psema _))
  | up psema => exact wp_semaUp hs psema
  | wait waiter => exact wp_ioqWait hs hop.1 waiter
  | wakeup waiter => exact wp_ioqWakeup hs waiter
  | start t prio => exact wp_newTask_link hs hop.2 rfl _ _
  | fork child => exact wp_sysFork hs hop.2.2.1 hop.2.2.2

/-- The kernel before `thread_init`: nobody waits, no page holds a PCB, and the first process
and the idle thread get pages of their own. -/
structure Boot (s : Sched) (init idle : Nat) : Prop where
  waiters : ∀ k, (s.sema k).waiters = []
  waiter : ∀ k, s.waiter k = none
  pcbs : s.pcbs = ∅
  found : s.found = []
  init_ne_main : init ≠ s.cur
  idle_ne_main : idle ≠ s.cur
  init_ne_idle : init ≠ idle

/-- A state the machine gets to from the end of `thread_init`. -/
inductive Reachable : Sched → Prop
  | init {s₀ s : Sched} {init idle : Nat} (hboot : Boot s₀ init idle)
      (hrun : threadInit init idle s₀ = .ok ((), s)) : Reachable s
  | step {s s' : Sched} {op : SchedOp} (hs : Reachable s) (hop : op.Enabled s)
      (hrun : op.exec s = .ok ((), s')) : Reachable s'

/-- The state `thread_init` leaves behind. -/
def Sched.booted (s : Sched) (init idle : Nat) : Sched :=
  { s with
    task := fun u => if u = idle then initThread 10 false
      else if u = s.cur then { initThread 31 false with status := .running }
      else if u = init then initThread 31 true else s.task u
    kont := fun u => if u = idle then [.kernelThread] else if u = s.cur then []
      else if u = s.cur then [.kernelThread]
      else if u = init then [.kernelThread] else s.kont u
    pcbs := insert idle (insert s.cur (insert init s.pcbs))
    ready := [init, idle]
    all := [init, s.cur, idle]
    idle := idle }

/-- The lines that put a new PCB on the lists, before there is an idle thread. -/
theorem newTask_link_run {p : TaskStruct} {start : Frame} {func : String} (hready : t ∉ s.ready)
    (hall : t ∉ s.all) : (do newTask t p start; link t func : SchedM Unit) s =
      .ok ((), { s.withTask t p with
        kont := fun u => if u = t then [start] else s.kont u
        pcbs := insert t s.pcbs, ready := s.ready ++ [t], all := s.all ++ [t] }) := by
  unfold newTask link
  rw [bind_of_run (modify_run _ _), bind_of_run (get_run _),
    bind_of_run (assertSched_run (by exact hready) _ _ _)]
  unfold readyAppend
  rw [bind_of_run (modify_run _ _), bind_of_run (get_run _),
    bind_of_run (assertSched_run (by exact hall) _ _ _)]
  rfl

theorem makeMainThread_run (hall : s.cur ∉ s.all) : makeMainThread s = .ok ((),
    { s.withTask s.cur { initThread 31 false with status := .running } with
      kont := fun u => if u = s.cur then [] else if u = s.cur then [.kernelThread] else s.kont u
      pcbs := insert s.cur s.pcbs, all := s.all ++ [s.cur] }) := by
  unfold makeMainThread newTask
  rw [bind_of_run (get_run _), bind_of_run (modify_run _ _), bind_of_run (modify_run _ _),
    bind_of_run (get_run _), bind_of_run (assertSched_run (by exact hall) _ _ _)]
  rfl

theorem threadInit_run {init idle : Nat} (h : Boot s init idle) :
    threadInit init idle s = .ok ((), s.booted init idle) := by
  unfold threadInit processExecute threadStart
  rw [bind_of_run (modify_run _ _), bind_of_run (newTask_link_run (by simp) (by simp)),
    bind_of_run (makeMainThread_run ?_), bind_of_run (newTask_link_run ?_ ?_)]
  · rfl
  · simp [Sched.withTask, h.init_ne_idle.symm]
  · simp [Sched.withTask, h.init_ne_idle.symm, h.idle_ne_main]
  · simp [Sched.withTask, h.init_ne_main.symm]

theorem Boot.inv {init idle : Nat} (h : Boot s init idle) : Inv (s.booted init idle) := by
  have him := h.init_ne_main
  have hdm := h.idle_ne_main
  have hid := h.init_ne_idle
  have hinit : (s.booted init idle).task init = initThread 31 true := by
    simp [Sched.booted, hid, him]
  have hmain :
      (s.booted init idle).task s.cur = { initThread 31 false with status := .running } := by
    simp [Sched.booted, hdm.symm]
  have hidle : (s.booted init idle).task idle = initThread 10 false := by simp [Sched.booted]
  have hall : ∀ u, u ∈ (s.booted init idle).all ↔ u = init ∨ u = s.cur ∨ u = idle := by
    simp [Sched.booted]
  have hat : ∀ q u, ¬ (s.booted init idle).At q u := by
    rintro (k | k) u hq
    · simp [Sched.At, Sched.booted, h.waiters] at hq
    · simp [Sched.At, Sched.booted, h.waiter] at hq
  refine ⟨⟨(hall _).mpr (.inr (.inl rfl)), (hall _).mpr (.inr (.inr rfl)), ?_, ?_, ?_, ?_,
    fun q u hq => absurd hq (hat q u), fun q r u hq => absurd hq (hat q u), ?_, ?_, ?_, ?_, ?_⟩,
    ?_⟩
  · intro u hu hrun
    rcases (hall u).mp hu with rfl | rfl | rfl
    · rw [hinit] at hrun
      exact absurd hrun (by decide)
    · rfl
    · rw [hidle] at hrun
      exact absurd hrun (by decide)
  · simp [Sched.booted, hid]
  · intro u
    constructor
    · intro hu
      rcases (show u = init ∨ u = idle by simpa [Sched.booted] using hu) with rfl | rfl
      · exact ⟨(hall _).mpr (.inl rfl), hinit ▸ rfl⟩
      · exact ⟨(hall _).mpr (.inr (.inr rfl)), hidle ▸ rfl⟩
    · rintro ⟨hu, hstat⟩
      rcases (hall u).mp hu with rfl | rfl | rfl
      · simp [Sched.booted]
      · rw [hmain] at hstat
        exact absurd hstat (by decide)
      · simp [Sched.booted]
  · intro k
    simp [Sched.booted, h.waiters]
  · simp [Sched.booted, hid, him, hdm.symm]
  · intro u
    rw [hall]
    simp [Sched.booted, h.pcbs]
    tauto
  · exact .inr (.inl (hidle ▸ rfl))
  · intro k old
    simp [Sched.booted]
  · simp [Sched.booted, h.found]
  · exact hmain ▸ rfl

theorem reachable_inv (hs : Reachable s) : Inv s := by
  induction hs with
  | init hboot hrun =>
      rw [threadInit_run hboot] at hrun
      cases hrun
      exact hboot.inv
  | step _ hop hrun ih => exact (wp_exec ih hop).of_run hrun

/-- What the lists and the states of the tasks look like between two steps: one task is
current and running; the ready list holds the ready tasks once each; a tag is linked on one
list at most; the list of all tasks holds each PCB once; and `schedule` has never found the
ready list empty without the idle thread being blocked. -/
structure Consistent (s : Sched) : Prop where
  cur : s.cur ∈ s.pcbs
  running_iff : ∀ t ∈ s.pcbs, (s.task t).status = .running ↔ t = s.cur
  ready_nodup : s.ready.Nodup
  ready_iff : ∀ t, t ∈ s.ready ↔ t ∈ s.pcbs ∧ (s.task t).status = .ready
  waiters_nodup : ∀ k, (s.sema k).waiters.Nodup
  ready_or_waiting : ∀ t ∈ s.ready, ∀ k, t ∉ (s.sema k).waiters
  one_semaphore : ∀ t j k, t ∈ (s.sema j).waiters → t ∈ (s.sema k).waiters → j = k
  all_nodup : s.all.Nodup
  all_iff : ∀ t, t ∈ s.all ↔ t ∈ s.pcbs
  found : ∀ stat ∈ s.found, stat = .blocked

theorem Inv.consistent (hs : Inv s) : Consistent s where
  cur := (hs.all_iff _).mp hs.cur
  running_iff := by
    intro t ht
    refine ⟨hs.running t ((hs.all_iff t).mpr ht), ?_⟩
    rintro rfl
    exact hs.cur_running
  ready_nodup := hs.ready_nodup
  ready_iff := by
    intro t
    rw [hs.ready_iff, hs.all_iff]
  waiters_nodup := hs.waiters_nodup
  ready_or_waiting := by
    intro t ht k hk
    have hblocked := (hs.wait (.sema k) t hk).2.1
    rw [((hs.ready_iff t).mp ht).2] at hblocked
    exact absurd hblocked (by decide)
  one_semaphore := fun t j k hj hk => Place.sema.inj (hs.one_place (.sema j) (.sema k) t hj hk)
  all_nodup := hs.all_nodup
  all_iff := hs.all_iff
  found := hs.found

/-- After any number of steps from the end of `thread_init` the scheduler is consistent, and
whatever step comes next, no check in `schedule`, `thread_yield`, `thread_block`,
`thread_unblock`, `thread_start` or `sys_fork` fails. -/
theorem sched_consistent_runs (hs : Reachable s) :
    Consistent s ∧ ∀ op : SchedOp, op.Enabled s → ∀ e, op.exec s = .error e → Elsewhere e :=
  ⟨(reachable_inv hs).consistent,
    fun _ hop _ hrun => (wp_exec (reachable_inv hs) hop).of_error hrun⟩

/-- A machine at the call of `thread_init`, with its main thread on page 0. -/
def bootMachine : Sched where
  task := fun _ => initThread 0 false
  ready := []
  all := []
  sema := fun _ => { value := 0, waiters := [] }
  waiter := fun _ => none
  cur := 0
  idle := 0
  intr := false
  kont := fun _ => []
  pcbs := ∅
  ticks := 0
  found := []

/-- The main thread waits for a semaphore, and the first process gets the processor. -/
theorem sched_consistent_down : ∃ s, Reachable s ∧ s.cur = 1 ∧ s.ready = [2] ∧
    (s.sema 0).waiters = [0] ∧ Consistent s ∧
    ∀ op : SchedOp, op.Enabled s → ∀ e, op.exec s = .error e → Elsewhere e := by
  have hboot : Boot bootMachine 1 2 :=
    ⟨fun _ => rfl, fun _ => rfl, rfl, rfl, by decide, by decide, by decide⟩
  have hfree : (SchedOp.down 0).Enabled (bootMachine.booted 1 2) := ⟨by decide, .inl (by decide)⟩
  have hdown := Reachable.step (Reachable.init hboot (threadInit_run hboot)) hfree rfl
  exact ⟨_, hdown, rfl, rfl, rfl, sched_consistent_runs hdown⟩

end ZyOs
