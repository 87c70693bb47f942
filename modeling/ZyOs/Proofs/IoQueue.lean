/-
The io queue as a queue.

What is in the buffer is what has been stored and not yet returned (`Fifo`): only the two
last steps of the calls touch it, and each runs with the condition of its loop just found
false.  Being woken up is another matter: a task that had to wait for the lock goes to sleep
without testing again, so that it may sleep in front of a buffer with something in it.
-/
import ZyOs.Kernel.IoQueue
import ZyOs.Proofs.FsState

namespace ZyOs

open Library

variable {s s' : IoQueue} {t u : Nat} {pc : IoqPc} {call : IoqCall}

/-! ### First in, first out -/

/-- The buffer holds what has been stored and not returned. -/
structure Fifo (s : IoQueue) : Prop where
  head : s.head < bufSize
  tail : s.tail < bufSize
  eq : s.stored = s.returned ++ Ring.content bufSize s.buf s.head s.tail

theorem Fifo.congr (h : Fifo s) (hbuf : s'.buf = s.buf) (hhead : s'.head = s.head)
    (htail : s'.tail = s.tail) (hst : s'.stored = s.stored) (hret : s'.returned = s.returned) :
    Fifo s' := by
  refine ⟨hhead ▸ h.head, htail ▸ h.tail, ?_⟩
  rw [hst, hret, hbuf, hhead, htail]
  exact h.eq

theorem wp_assertIoq {c : Prop} [Decidable c] {func condition : String} {Q : Unit → IoQueue → Prop}
    (h : c → Q () s) : Prog.wp (fun _ => True) (assertIoq c func condition) Q s :=
  Prog.wp_lift (fun _ hok => h (ASSERT_eq_ok.mp hok)) fun _ _ => trivial

theorem keepsFifo_goto : Prog.Preserves Fifo (modify (fun s => s.goto t pc) : IoqM Unit) :=
  .modify fun _ h => h.congr rfl rfl rfl rfl rfl

theorem keepsFifo_unblock : Prog.Preserves Fifo (ioqUnblock t) := by
  refine .get_bind fun s h => ?_
  split
  · exact .set (h.congr rfl rfl rfl rfl rfl)
  · exact .set (h.congr rfl rfl rfl rfl rfl)
  · exact .lift _

theorem keepsFifo_wakeOther : Prog.Preserves Fifo (wakeOther call) := by
  refine .get_bind fun s _ => ?_
  split
  · exact .pure ()
  · refine .bind keepsFifo_unblock fun _ => .modify fun s h => ?_
    cases call with
    | getchar => exact h.congr rfl rfl rfl rfl rfl
    | putchar _ => exact h.congr rfl rfl rfl rfl rfl

theorem keepsFifo_waitIn : Prog.Preserves Fifo (ioqWaitIn t call) := by
  refine .get_bind fun s h => .bind (.lift _) fun _ => .set ?_
  cases call with
  | getchar => exact h.congr rfl rfl rfl rfl rfl
  | putchar _ => exact h.congr rfl rfl rfl rfl rfl

theorem keepsFifo_down : Prog.Preserves Fifo (ioqDown t call) := by
  refine .get_bind fun s h => .bind (.lift _) fun p => .ite (fun _ => ?_) fun _ => ?_
  · exact .bind (.lift _) fun _ => .bind (.set (h.congr rfl rfl rfl rfl rfl))
      fun _ => keepsFifo_waitIn
  · exact .set (h.congr rfl rfl rfl rfl rfl)

theorem keepsFifo_release : Prog.Preserves Fifo (ioqRelease t) := by
  refine .get_bind fun s h => .bind (.lift _) fun _ => .ite (fun _ => ?_) fun _ => ?_
  · exact .set (h.congr rfl rfl rfl rfl rfl)
  · refine .bind (.lift _) fun _ => .bind (.lift _) fun p =>
      .bind (.set (h.congr rfl rfl rfl rfl rfl)) fun _ => ?_
    split
    · exact .pure ()
    · exact keepsFifo_unblock

/-- A character is taken out of a buffer that is not empty. -/
theorem Fifo.take (h : Fifo s) (hne : ioqEmpty s = false) :
    Fifo { s with tail := nextPos s.tail, returned := s.returned ++ [s.buf s.tail] } where
  head := h.head
  tail := Ring.next_lt (by decide) _
  eq := by
    have hne : s.head ≠ s.tail := by simpa [ioqEmpty] using hne
    show s.stored = s.returned ++ [s.buf s.tail] ++
      Ring.content bufSize s.buf s.head (nextPos s.tail)
    rw [h.eq, Ring.content_pop h.head h.tail hne, List.append_assoc]
    rfl

/-- A character is put into a buffer that is not full. -/
theorem Fifo.put (h : Fifo s) (hroom : ioqFull s = false) (byte : UInt8) :
    Fifo { s with
      buf := fun i => if i = s.head then byte else s.buf i
      head := nextPos s.head
      stored := s.stored ++ [byte] } where
  head := Ring.next_lt (by decide) _
  tail := h.tail
  eq := by
    have hroom : nextPos s.head ≠ s.tail := by simpa [ioqFull] using hroom
    show s.stored ++ [byte] = s.returned ++ Ring.content bufSize _ (nextPos s.head) s.tail
    rw [show nextPos s.head = Ring.next bufSize s.head from rfl,
      Ring.content_push h.head h.tail hroom, h.eq, List.append_assoc]

theorem wpFifo_finish (h : Fifo s) (hwait : s.mustWait call = false) :
    Prog.wp (fun _ => True) (ioqFinish t call) (fun _ => Fifo) s := by
  cases call with
  | getchar =>
      exact Prog.wp_get_bind (Prog.wp_bind (Prog.wp_set (Prog.Preserves.wp
        (.bind keepsFifo_wakeOther fun _ => keepsFifo_goto) (h.take hwait))))
  | putchar byte =>
      exact Prog.wp_get_bind (Prog.wp_bind (Prog.wp_set (Prog.Preserves.wp
        (.bind keepsFifo_wakeOther fun _ => keepsFifo_goto) (h.put hwait byte))))

theorem wpFifo_loop (h : Fifo s) :
    Prog.wp (fun _ => True) (ioqLoop t call) (fun _ => Fifo) s := by
  refine Prog.wp_get_bind (Prog.wp_ite (fun _ => ?_) fun hwait => ?_)
  · refine Prog.wp_ite (fun _ => keepsFifo_down.wp h) fun _ => ?_
    exact Prog.wp_bind (Prog.wp_set (keepsFifo_waitIn.wp (h.congr rfl rfl rfl rfl rfl)))
  · exact wpFifo_finish h (Bool.eq_false_iff.mpr hwait)

theorem wpFifo_exec (h : Fifo s) (a : IoqAction) :
    Prog.wp (fun _ => True) (ioqMachine.exec a) (fun _ => Fifo) s := by
  cases a with
  | call t call => exact wpFifo_loop h
  | resume t =>
      refine Prog.wp_get_bind ?_
      cases s.pc t with
      | downReady call => exact keepsFifo_down.wp h
      | waitReady call =>
          exact Prog.wp_bind (Prog.wp_mono (keepsFifo_release.wp h) fun _ _ h' => wpFifo_loop h')
      | _ => exact Prog.wp_pure h

theorem fifo_of_reach {Ok : IoQueue → IoqAction → Prop} (h : ioqMachine.Reach Ok s) : Fifo s := by
  refine h.invariant (E := fun _ => True) ?_ fun _ a hs _ _ => wpFifo_exec hs a
  rintro _ ⟨buf, rfl⟩
  have hpos : 0 < bufSize := by decide
  refine ⟨hpos, hpos, ?_⟩
  show [] = [] ++ Ring.content bufSize buf 0 0
  rw [(Ring.content_eq_nil hpos hpos).mpr rfl, List.append_nil]

/-- **The queue is first in, first out**, and holds 63 characters at most. -/
theorem ioq_fifo (s : IoQueue) (h : ioqMachine.Reach (fun _ _ => True) s) :
    s.head < 64 ∧ s.tail < 64 ∧ s.stored.length ≤ s.returned.length + 63 ∧
      s.returned <+: s.stored := by
  have hs := fifo_of_reach h
  refine ⟨hs.head, hs.tail, ?_, ?_⟩
  · have hcount : Ring.count bufSize s.head s.tail < 64 := Ring.count_lt (by decide)
    rw [hs.eq, List.length_append, Ring.length_content]
    omega
  · rw [hs.eq]
    exact List.prefix_append ..

instance (s : IoQueue) (a : IoqAction) : Decidable (ioqMachine.enabled s a) :=
  inferInstanceAs (Decidable (s.Enabled a))

/-- A queue after `schedule`. -/
theorem ioq_reach {β : Type} (schedule : List IoqAction) (f : IoQueue → β) {b : β}
    (h : (ioqMachine.play schedule (ioqInit fun _ => 0)).map f = some b) :
    ∃ s, ioqMachine.Reach (fun _ _ => True) s ∧ f s = b := by
  obtain ⟨s, hplay, hs⟩ := Option.map_eq_some_iff.mp h
  exact ⟨s, Machine.reach_of_play (.start ⟨_, rfl⟩) hplay, hs⟩

/-- Two characters go in, one comes out. -/
theorem ioq_fifo_two :
    ∃ s, ioqMachine.Reach (fun _ _ => True) s ∧ s.returned = [97] ∧ s.stored = [97, 98] ∧
    s.head < 64 ∧ s.tail < 64 ∧ s.stored.length ≤ s.returned.length + 63 ∧ s.returned <+: s.stored := by
  obtain ⟨s, hreach, hs⟩ := ioq_reach
    [.call 1 (.putchar 97), .call 1 (.putchar 98), .call 2 .getchar]
    (fun s => (s.returned, s.stored)) (b := ([97], [97, 98])) (by decide)
  obtain ⟨hret, hst⟩ := Prod.mk.inj hs
  exact ⟨s, hreach, hret, hst, ioq_fifo s hreach⟩

/-! ### Who waits -/

/-- The lists and fields name tasks that are where they say. -/
structure Recorded (s : IoQueue) : Prop where
  nodup : s.sem.waiters.Nodup
  waiters : ∀ u ∈ s.sem.waiters, ∃ call, s.pc u = .down call
  consumer : ∀ u, s.consumer = some u → s.pc u = .wait .getchar
  producer : ∀ u, s.producer = some u → ∃ byte, s.pc u = .wait (.putchar byte)

/-- Task `t` is not blocked. -/
def IoQueue.Runs (s : IoQueue) (t : Nat) : Prop := ∀ call, s.pc t ≠ .down call ∧ s.pc t ≠ .wait call

/-- Whoever is recorded as waiting has something to wait for. -/
structure NoLostWakeUp (s : IoQueue) : Prop where
  consumer : ∀ u, s.consumer = some u → s.pc u = .wait .getchar → ioqEmpty s = true
  producer : ∀ u byte, s.producer = some u → s.pc u = .wait (.putchar byte) → ioqFull s = true

/-- Nobody is recorded, or the buffer is as it is waited for; no task is looked at. -/
def Awaited (s : IoQueue) : Prop :=
  (s.consumer ≠ none → ioqEmpty s = true) ∧ (s.producer ≠ none → ioqFull s = true)

theorem Recorded.awaited_iff (h : Recorded s) : NoLostWakeUp s ↔ Awaited s := by
  constructor
  · rintro ⟨hc, hp⟩
    refine ⟨fun hne => ?_, fun hne => ?_⟩
    · obtain ⟨u, hu⟩ := Option.ne_none_iff_exists'.mp hne
      exact hc u hu (h.consumer u hu)
    · obtain ⟨u, hu⟩ := Option.ne_none_iff_exists'.mp hne
      obtain ⟨byte, hb⟩ := h.producer u hu
      exact hp u byte hu hb
  · rintro ⟨hc, hp⟩
    exact ⟨fun u hu _ => hc (by simp [hu]), fun u _ hu _ => hp (by simp [hu])⟩

theorem IoQueue.goto_ne (hut : u ≠ t) : (s.goto t pc).pc u = s.pc u := if_neg hut

@[simp] theorem IoQueue.goto_self : (s.goto t pc).pc t = pc := if_pos rfl

/-- A task that is not blocked is recorded nowhere. -/
theorem Recorded.free (h : Recorded s) (ht : s.Runs t) :
    t ∉ s.sem.waiters ∧ s.consumer ≠ some t ∧ s.producer ≠ some t := by
  refine ⟨fun hm => ?_, fun hc => ?_, fun hp => ?_⟩
  · obtain ⟨call, hc⟩ := h.waiters t hm
    exact (ht call).1 hc
  · exact (ht _).2 (h.consumer t hc)
  · obtain ⟨byte, hb⟩ := h.producer t hp
    exact (ht _).2 hb

/-- A task that is recorded nowhere may be anywhere. -/
theorem Recorded.goto (h : Recorded s) (hw : t ∉ s.sem.waiters) (hc : s.consumer ≠ some t)
    (hp : s.producer ≠ some t) (pc : IoqPc) : Recorded (s.goto t pc) := by
  refine ⟨h.nodup, fun u hu => ?_, fun u hu => ?_, fun u hu => ?_⟩
  · rw [IoQueue.goto_ne (show u ≠ t from fun hut => hw (hut ▸ hu))]
    exact h.waiters u hu
  · rw [IoQueue.goto_ne (show u ≠ t from fun hut => hc (hut ▸ hu))]
    exact h.consumer u hu
  · rw [IoQueue.goto_ne (show u ≠ t from fun hut => hp (hut ▸ hu))]
    exact h.producer u hu

theorem IoQueue.Runs.goto_other (ht : s.Runs t) (hut : t ≠ u) : (s.goto u pc).Runs t := by
  intro call
  rw [IoQueue.goto_ne hut]
  exact ht call

theorem IoQueue.waiter_free (h : Recorded s) (ht : s.Runs t) (call : IoqCall) :
    s.waiter call ≠ some t := by
  obtain ⟨-, hc, hp⟩ := h.free ht
  cases call with
  | getchar => exact hc
  | putchar _ => exact hp

theorem Awaited.none (h : Awaited s) (hwait : s.mustWait call = false) : s.waiter call = none := by
  by_contra hne
  cases call with
  | getchar => exact Bool.false_ne_true (hwait.symm.trans (h.1 hne))
  | putchar _ => exact Bool.false_ne_true (hwait.symm.trans (h.2 hne))

theorem awaited_of_none (hwaiter : s.waiter call = none) (hother : s.waiter call.other = none) :
    Awaited s := by
  cases call with
  | getchar => exact ⟨fun hne => absurd hwaiter hne, fun hne => absurd hother hne⟩
  | putchar _ => exact ⟨fun hne => absurd hother hne, fun hne => absurd hwaiter hne⟩

/-- Waking up whoever waits on the other side. -/
theorem wp_wakeOther (h : Recorded s) (ht : s.Runs t) :
    Prog.wp (fun _ => True) (wakeOther call) (fun _ s' => Recorded s' ∧ s'.Runs t ∧
      s'.waiter call = s.waiter call ∧ s'.waiter call.other = none) s := by
  refine Prog.wp_get_bind ?_
  cases hw : s.waiter call.other with
  | none => exact Prog.wp_pure ⟨h, ht, rfl, hw⟩
  | some u =>
      have htu : t ≠ u := fun htu => IoQueue.waiter_free h ht call.other (htu ▸ hw)
      refine Prog.wp_bind (Prog.wp_get_bind ?_)
      cases call with
      | getchar =>
          obtain ⟨byte, hpc⟩ := h.producer u hw
          rw [hpc]
          refine Prog.wp_set (Prog.wp_modify ⟨?_, ht.goto_other htu, rfl, rfl⟩)
          have h' : Recorded { s with producer := none } :=
            ⟨h.nodup, h.waiters, h.consumer, fun _ hc => by cases hc⟩
          refine h'.goto (fun hm => ?_) (fun hc => ?_) (by simp) _
          · obtain ⟨call, hc⟩ := h.waiters u hm
            rw [hpc] at hc
            cases hc
          · have := h.consumer u hc
            rw [hpc] at this
            cases this
      | putchar _ =>
          have hpc := h.consumer u hw
          rw [hpc]
          refine Prog.wp_set (Prog.wp_modify ⟨?_, ht.goto_other htu, rfl, rfl⟩)
          have h' : Recorded { s with consumer := none } :=
            ⟨h.nodup, h.waiters, fun _ hc => (by cases hc), h.producer⟩
          refine h'.goto (fun hm => ?_) (by simp) (fun hc => ?_) _
          · obtain ⟨call, hc⟩ := h.waiters u hm
            rw [hpc] at hc
            cases hc
          · obtain ⟨byte, hb⟩ := h.producer u hc
            rw [hpc] at hb
            cases hb

/-- The last part of a call. -/
theorem wp_ioqFinish (h : Recorded s) (ht : s.Runs t) (hwait : s.mustWait call = false) :
    Prog.wp (fun _ => True) (ioqFinish t call)
      (fun _ s' => Recorded s' ∧ (Awaited s → Awaited s')) s := by
  have hend : ∀ s₁ : IoQueue, Recorded s₁ → s₁.Runs t → s₁.waiter call = s.waiter call →
      Prog.wp (fun _ => True) (do wakeOther call; modify fun s => s.goto t .idle)
        (fun _ s' => Recorded s' ∧ (Awaited s → Awaited s')) s₁ := by
    intro s₁ h₁ ht₁ hw₁
    refine Prog.wp_bind (Prog.wp_mono (wp_wakeOther h₁ ht₁) ?_)
    rintro _ s₂ ⟨h₂, ht₂, hw₂, ho₂⟩
    obtain ⟨hw, hc, hp⟩ := h₂.free ht₂
    refine Prog.wp_modify ⟨h₂.goto hw hc hp _, fun haw => ?_⟩
    have haw₂ := awaited_of_none (hw₂.trans (hw₁.trans (haw.none hwait))) ho₂
    exact ⟨haw₂.1, haw₂.2⟩
  cases call with
  | getchar =>
      exact Prog.wp_get_bind (Prog.wp_bind (Prog.wp_set (hend _
        ⟨h.nodup, h.waiters, h.consumer, h.producer⟩ ht rfl)))
  | putchar byte =>
      exact Prog.wp_get_bind (Prog.wp_bind (Prog.wp_set (hend _
        ⟨h.nodup, h.waiters, h.consumer, h.producer⟩ ht rfl)))

/-- Going to sleep is right exactly when there is something to wait for. -/
theorem wp_ioqWaitIn (h : Recorded s) (ht : s.Runs t) :
    Prog.wp (fun _ => True) (ioqWaitIn t call) (fun _ s' => Recorded s' ∧
      (Awaited s → s.mustWait call = true → Awaited s') ∧
      (Awaited s' → s.mustWait call = true)) s := by
  obtain ⟨hw, hc, hp⟩ := h.free ht
  refine Prog.wp_get_bind (Prog.wp_bind (wp_assertIoq fun hnone => Prog.wp_set ?_))
  cases call with
  | getchar =>
      refine ⟨⟨h.nodup, fun u hu => ?_, fun u hu => ?_, fun u hu => ?_⟩,
        fun haw hwait => ⟨fun _ => hwait, haw.2⟩,
          fun haw => haw.1 (by simp [IoQueue.withWaiter, IoQueue.goto])⟩
      · rw [IoQueue.goto_ne (show u ≠ t from fun hut => hw (hut ▸ hu))]
        exact h.waiters u hu
      · obtain rfl : t = u := Option.some.inj hu
        exact IoQueue.goto_self
      · rw [IoQueue.goto_ne (show u ≠ t from fun hut => hp (hut ▸ hu))]
        exact h.producer u hu
  | putchar byte =>
      refine ⟨⟨h.nodup, fun u hu => ?_, fun u hu => ?_, fun u hu => ?_⟩,
        fun haw hwait => ⟨haw.1, fun _ => hwait⟩,
          fun haw => haw.2 (by simp [IoQueue.withWaiter, IoQueue.goto])⟩
      · rw [IoQueue.goto_ne (show u ≠ t from fun hut => hw (hut ▸ hu))]
        exact h.waiters u hu
      · rw [IoQueue.goto_ne (show u ≠ t from fun hut => hc (hut ▸ hu))]
        exact h.consumer u hu
      · obtain rfl : t = u := Option.some.inj hu
        exact ⟨byte, IoQueue.goto_self⟩

/-- A round of `sema_down` and what follows it.  The condition of the loop is not tested. -/
theorem wp_ioqDown (h : Recorded s) (ht : s.Runs t) :
    Prog.wp (fun _ => True) (ioqDown t call) (fun _ s' => Recorded s' ∧
      (Awaited s → (s.sem.value ≠ 0 → s.mustWait call = true) → Awaited s') ∧
      (Awaited s' → s.sem.value ≠ 0 → s.mustWait call = true)) s := by
  obtain ⟨hw, hc, hp⟩ := h.free ht
  refine Prog.wp_get_bind (Prog.wp_bind ?_)
  by_cases hvalue : s.sem.value = 0
  · have hrun : s.sem.tryDown t
        = .ok ({ s.sem with waiters := s.sem.waiters ++ [t] }, false) := by
      rw [Semaphore.tryDown, if_pos hvalue, ASSERT_pos hw]
      rfl
    refine Prog.wp_of_run (Prog.lift_run.mpr ⟨hrun, rfl⟩) (Prog.wp_set ⟨?_,
      fun haw _ => ⟨haw.1, haw.2⟩, fun _ hv => absurd hvalue hv⟩)
    refine ⟨?_, fun u hu => ?_, fun u hu => ?_, fun u hu => ?_⟩
    · refine List.nodup_append.mpr ⟨h.nodup, List.nodup_singleton t, ?_⟩
      rintro x hx y hy rfl
      exact hw (List.mem_singleton.mp hy ▸ hx)
    · rcases List.mem_append.mp hu with hold | hnew
      · rw [IoQueue.goto_ne (show u ≠ t from fun hut => hw (hut ▸ hold))]
        exact h.waiters u hold
      · rw [List.mem_singleton.mp hnew]
        exact ⟨call, IoQueue.goto_self⟩
    · rw [IoQueue.goto_ne (show u ≠ t from fun hut => hc (hut ▸ hu))]
      exact h.consumer u hu
    · rw [IoQueue.goto_ne (show u ≠ t from fun hut => hp (hut ▸ hu))]
      exact h.producer u hu
  · refine Prog.wp_lift (fun r hr => ?_) fun _ _ => trivial
    rw [Semaphore.tryDown, if_neg hvalue] at hr
    obtain ⟨-, -, hr⟩ := bind_eq_ok.mp hr
    obtain rfl := Except.ok.inj hr
    refine Prog.wp_bind (wp_assertIoq fun _ => Prog.wp_bind (Prog.wp_set ?_))
    have h' : Recorded { s with
        sem := { s.sem with value := s.sem.value - 1 }, holder := some t, holderRepeatNr := 1 } :=
      ⟨h.nodup, h.waiters, h.consumer, h.producer⟩
    refine Prog.wp_mono (wp_ioqWaitIn h' ht) ?_
    rintro _ s' ⟨h₁, haw, hback⟩
    refine ⟨h₁, fun hs hv => haw ⟨hs.1, hs.2⟩ ?_, fun hs _ => ?_⟩
    · cases call with
      | getchar => exact hv hvalue
      | putchar _ => exact hv hvalue
    · have := hback hs
      cases call with
      | getchar => exact this
      | putchar _ => exact this

/-- The loop tests its condition before the task goes to sleep. -/
theorem wp_ioqLoop (h : Recorded s) (ht : s.Runs t) :
    Prog.wp (fun _ => True) (ioqLoop t call)
      (fun _ s' => Recorded s' ∧ (Awaited s → Awaited s')) s := by
  refine Prog.wp_get_bind (Prog.wp_ite (fun hwait => ?_) fun hwait => ?_)
  · refine Prog.wp_ite (fun _ => ?_) fun _ => ?_
    · exact Prog.wp_mono (wp_ioqDown h ht) fun _ _ ⟨h', haw, _⟩ =>
        ⟨h', fun hs => haw hs fun _ => hwait⟩
    · refine Prog.wp_bind (Prog.wp_set ?_)
      have h' : Recorded { s with holderRepeatNr := s.holderRepeatNr + 1 } :=
        ⟨h.nodup, h.waiters, h.consumer, h.producer⟩
      refine Prog.wp_mono (wp_ioqWaitIn h' ht) ?_
      rintro _ s' ⟨h₁, haw, -⟩
      refine ⟨h₁, fun hs => haw ⟨hs.1, hs.2⟩ ?_⟩
      cases call with
      | getchar => exact hwait
      | putchar _ => exact hwait
  · exact wp_ioqFinish h ht (Bool.eq_false_iff.mpr hwait)

theorem wp_ioqRelease (h : Recorded s) (ht : s.Runs t) :
    Prog.wp (fun _ => True) (ioqRelease t) (fun _ s' => Recorded s' ∧ s'.Runs t ∧
      (Awaited s → Awaited s')) s := by
  refine Prog.wp_get_bind
    (Prog.wp_bind (wp_assertIoq fun _ => Prog.wp_ite (fun _ => ?_) fun _ => ?_))
  · exact Prog.wp_set ⟨⟨h.nodup, h.waiters, h.consumer, h.producer⟩, ht, fun hs => ⟨hs.1, hs.2⟩⟩
  · refine Prog.wp_bind (wp_assertIoq fun _ => Prog.wp_bind (Prog.wp_lift (fun r hr => ?_)
      fun _ _ => trivial))
    rw [Semaphore.up] at hr
    obtain ⟨-, -, hr⟩ := bind_eq_ok.mp hr
    obtain ⟨-, -, hr⟩ := bind_eq_ok.mp hr
    obtain rfl := Except.ok.inj hr
    refine Prog.wp_bind (Prog.wp_set ?_)
    have hnd := h.nodup
    have hwaiters := h.waiters
    cases hw : s.sem.waiters with
    | nil =>
        exact Prog.wp_pure ⟨⟨List.nodup_nil, fun _ hu => (by cases hu), h.consumer, h.producer⟩, ht,
          fun hs => ⟨hs.1, hs.2⟩⟩
    | cons u rest =>
        rw [hw] at hnd hwaiters
        obtain ⟨call, hpc⟩ := hwaiters u List.mem_cons_self
        have htu : t ≠ u := fun htu => (ht call).1 (htu ▸ hpc)
        have h' : Recorded { s with
            holder := none, holderRepeatNr := 0, sem := ⟨s.sem.value + 1, rest⟩ } :=
          ⟨(List.nodup_cons.mp hnd).2, fun v hv => hwaiters v (List.mem_cons_of_mem _ hv),
            h.consumer, h.producer⟩
        refine Prog.wp_get_bind ?_
        simp only [hpc]
        refine Prog.wp_set ⟨h'.goto (List.nodup_cons.mp hnd).1 (fun hc => ?_) (fun hc => ?_) _,
          ht.goto_other htu, fun hs => ⟨hs.1, hs.2⟩⟩
        · rw [h.consumer u hc] at hpc
          cases hpc
        · obtain ⟨byte, hb⟩ := h.producer u hc
          rw [hb] at hpc
          cases hpc

/-! ### Runs -/

/-- A task that had to wait for the lock gets it only when what it has tested before still
holds. -/
def TestStillHolds (s : IoQueue) (a : IoqAction) : Prop :=
  ∀ t call, a = .resume t → s.pc t = .downReady call → s.sem.value ≠ 0 → s.mustWait call = true

/-- One action: what is recorded is right, and nobody starts to wait in vain, exactly when the
test of a task that gets the lock late still holds. -/
theorem wp_ioqExec (h : Recorded s) {a : IoqAction} (hen : s.Enabled a) :
    Prog.wp (fun _ => True) (ioqMachine.exec a) (fun _ s' => Recorded s' ∧
      (Awaited s → (Awaited s' ↔ TestStillHolds s a))) s := by
  cases a with
  | call t call =>
      have ht : s.Runs t := fun c => by
        have hidle : s.pc t = .idle := hen
        simp [hidle]
      refine Prog.wp_mono (wp_ioqLoop h ht) ?_
      rintro _ s' ⟨h', haw⟩
      exact ⟨h', fun hs => ⟨fun _ t' c' ha => (by cases ha), fun _ => haw hs⟩⟩
  | resume t =>
      have hen : (s.pc t).isReady = true := hen
      refine Prog.wp_get_bind ?_
      cases hpc : s.pc t with
      | downReady call =>
          have ht : s.Runs t := fun c => by simp [hpc]
          refine Prog.wp_mono (wp_ioqDown h ht) ?_
          rintro _ s' ⟨h', haw, hback⟩
          refine ⟨h', fun hs => ⟨fun hs' t' c' ha hc' hv => ?_, fun hok => ?_⟩⟩
          · cases ha
            obtain rfl : call = c' := by
              rw [hpc] at hc'
              exact IoqPc.downReady.inj hc'
            exact hback hs' hv
          · exact haw hs fun hv => hok t call rfl hpc hv
      | waitReady call =>
          have ht : s.Runs t := fun c => by simp [hpc]
          refine Prog.wp_bind (Prog.wp_mono (wp_ioqRelease h ht) ?_)
          rintro _ s₁ ⟨h₁, ht₁, haw₁⟩
          refine Prog.wp_mono (wp_ioqLoop h₁ ht₁) ?_
          rintro _ s' ⟨h', haw⟩
          refine ⟨h', fun hs => ⟨fun _ t' c' ha hc' => ?_, fun _ => haw (haw₁ hs)⟩⟩
          cases ha
          rw [hpc] at hc'
          cases hc'
      | _ => simp [hpc, IoqPc.isReady] at hen

/-- **No wake-up is lost in a run, exactly as long as no task gets the lock late with a stale
test.** -/
theorem ioq_noLostWakeUp_iff (hist : List (IoQueue × IoqAction)) (s : IoQueue)
    (h : ioqMachine.Run hist s) :
    (NoLostWakeUp s ∧ ∀ p ∈ hist, NoLostWakeUp p.1) ↔ ∀ p ∈ hist, TestStillHolds p.1 p.2 := by
  suffices hrec : Recorded s ∧ ((Awaited s ∧ ∀ p ∈ hist, NoLostWakeUp p.1) ↔
      ∀ p ∈ hist, TestStillHolds p.1 p.2) by
    rw [hrec.1.awaited_iff]
    exact hrec.2
  induction h with
  | start h =>
      obtain ⟨buf, rfl⟩ := h
      exact ⟨⟨List.nodup_nil, fun _ hu => (by cases hu), fun _ hc => (by cases hc),
        fun _ hc => (by cases hc)⟩, by simp [Awaited, ioqInit]⟩
  | next hrun hen hstep ih =>
      obtain ⟨hrec, hiff⟩ := ih
      obtain ⟨hrec', hone⟩ := (wp_ioqExec hrec hen).of_run hstep
      refine ⟨hrec', ?_⟩
      rw [List.forall_mem_cons, List.forall_mem_cons, hrec.awaited_iff, ← hiff]
      constructor
      · rintro ⟨haw', haw, hall⟩
        exact ⟨(hone haw).mp haw', haw, hall⟩
      · rintro ⟨hok, haw, hall⟩
        exact ⟨(hone haw).mpr hok, haw, hall⟩

/-- One reader waits in front of an empty buffer. -/
theorem ioq_noLostWakeUp_one :
    ∃ (hist : List (IoQueue × IoqAction)) (s : IoQueue), s.consumer = some 1 ∧
    ((NoLostWakeUp s ∧ ∀ p ∈ hist, NoLostWakeUp p.1) ↔ ∀ p ∈ hist, TestStillHolds p.1 p.2) := by
  obtain ⟨s, hreach, hs⟩ := ioq_reach [.call 1 .getchar] IoQueue.consumer (b := some 1)
    (by decide)
  obtain ⟨hist, hrun, -⟩ := hreach.run
  exact ⟨hist, s, hs, ioq_noLostWakeUp_iff hist s hrun⟩

/-- Two readers and two characters: the second reader goes to sleep in front of the second
character. -/
theorem ioq_losesWakeUp : ∃ s, ioqMachine.Reach (fun _ _ => True) s ∧ ¬ NoLostWakeUp s := by
  obtain ⟨s, hreach, hs⟩ := ioq_reach [.call 1 .getchar, .call 2 .getchar,
      .call 3 (.putchar 97), .call 3 (.putchar 98), .resume 1, .resume 2]
    (fun s => (s.consumer, s.pc 2, ioqEmpty s)) (b := (some 2, .wait .getchar, false))
    (by decide)
  simp only [Prod.mk.injEq] at hs
  obtain ⟨hconsumer, hpc, hempty⟩ := hs
  refine ⟨s, hreach, fun h => ?_⟩
  rw [h.consumer 2 hconsumer hpc] at hempty
  cases hempty

end ZyOs
