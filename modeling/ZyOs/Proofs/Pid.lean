/-
Process ids.

The counter is read after the lock has been given back, so another call may count up in
between, and then both return the same number.  As long as no call counts up before the one
before it has read, and the counter has not come to the end of its sixteen bits, every
number is given out once (`pids_unique`).
-/
import ZyOs.Kernel.Pid
import Mathlib.Data.Int.Basic

namespace ZyOs

open Library

variable {s s' : PidSys} {t u : Nat} {pc : PidPc}

@[simp] theorem PidSys.goto_self : (s.goto t pc).pc t = pc := if_pos rfl

theorem PidSys.goto_ne (h : u ≠ t) : (s.goto t pc).pc u = s.pc u := if_neg h

@[simp] theorem PidSys.goto_nextPid : (s.goto t pc).nextPid = s.nextPid := rfl

@[simp] theorem PidSys.goto_returned : (s.goto t pc).returned = s.returned := rfl

/-! ### The invariant -/

/-- Task `t` has counted up and not read yet. -/
def PidSys.Counted (s : PidSys) (t : Nat) : Prop := s.pc t = .release ∨ s.pc t = .read

/-- What has been returned is different, and positive up to the counter; the counter itself is
not among it while somebody is to read it. -/
structure PidInv (s : PidSys) : Prop where
  nodup : s.returned.Nodup
  pos : ∀ p ∈ s.returned, 0 ≤ p.toInt
  le : ∀ p ∈ s.returned, p.toInt ≤ s.nextPid.toInt
  counter : 0 ≤ s.nextPid.toInt
  one : ∀ t u, s.Counted t → s.Counted u → t = u
  fresh : ∀ t, s.Counted t → s.nextPid ∉ s.returned

/-- What the callers rely on. -/
structure PidsUnique (s : PidSys) : Prop where
  nodup : s.returned.Nodup
  nonneg : ∀ p ∈ s.returned, 0 ≤ p

/-- The counter goes up only when nobody is still to read it, and not beyond its sixteen
bits. -/
def CountsAlone (s : PidSys) (a : PidAction) : Prop :=
  ∀ t, a = .step t → s.pc t = .increment →
    s.nextPid < 32767 ∧ ∀ u, s.pc u ≠ .release ∧ s.pc u ≠ .read

theorem pidInit_inv : PidInv pidInit where
  nodup := List.nodup_nil
  pos := by simp [pidInit]
  le := by simp [pidInit]
  counter := by decide
  one := by
    rintro t u (ht | ht)
    · cases ht
    · cases ht
  fresh := fun _ _ => List.not_mem_nil

/-! ### Steps -/

theorem toInt_add_one {n : Int16} (h : n < 32767) : (n + 1).toInt = n.toInt + 1 := by
  rw [Int16.lt_iff_toInt_lt, show (32767 : Int16).toInt = 32767 from rfl] at h
  have hlo := n.le_toInt
  rw [Int16.toInt_add, show (1 : Int16).toInt = 1 from rfl]
  exact Int.bmod_eq_of_le (by omega) (by omega)

/-- A step that leaves the counter alone and does not bring `t` between counting and reading. -/
theorem PidInv.goto (h : PidInv s) (hpc : s.Counted t ∨ pc ≠ .release ∧ pc ≠ .read) :
    PidInv (s.goto t pc) := by
  have hcounted : ∀ u, (s.goto t pc).Counted u → s.Counted u := by
    intro u hu
    by_cases hut : u = t
    · rw [hut, PidSys.Counted, PidSys.goto_self] at hu
      rcases hpc with hpc | ⟨hrel, hread⟩
      · exact hut ▸ hpc
      · exact absurd hu (by simp [hrel, hread])
    · rwa [PidSys.Counted, PidSys.goto_ne hut] at hu
  exact {
    nodup := h.nodup
    pos := h.pos
    le := h.le
    counter := h.counter
    one := fun u v hu hv => h.one u v (hcounted u hu) (hcounted v hv)
    fresh := fun u hu => h.fresh u (hcounted u hu) }

/-- `next_pid++` -/
theorem PidInv.increment (h : PidInv s) (hlt : s.nextPid < 32767)
    (hnone : ∀ u, s.pc u ≠ .release ∧ s.pc u ≠ .read) :
    PidInv ({ s with nextPid := s.nextPid + 1 }.goto t .release) := by
  have hnext := toInt_add_one hlt
  have hself : ∀ u, ({ s with nextPid := s.nextPid + 1 }.goto t .release).Counted u → u = t := by
    intro u hu
    by_contra hut
    rw [PidSys.Counted, PidSys.goto_ne hut] at hu
    rcases hu with hu | hu
    · exact (hnone u).1 hu
    · exact (hnone u).2 hu
  refine ⟨h.nodup, h.pos, fun p hp => ?_, ?_, fun u v hu hv => (hself u hu).trans (hself v hv).symm,
    fun _ _ hmem => ?_⟩
  · have hle : p.toInt ≤ s.nextPid.toInt := h.le p hp
    show p.toInt ≤ (s.nextPid + 1).toInt
    omega
  · have hcounter := h.counter
    show 0 ≤ (s.nextPid + 1).toInt
    omega
  · have hle : (s.nextPid + 1).toInt ≤ s.nextPid.toInt := h.le _ hmem
    omega

/-- `return next_pid` -/
theorem PidInv.read (h : PidInv s) (hpc : s.pc t = .read) :
    PidInv ({ s with returned := s.nextPid :: s.returned }.goto t .idle) := by
  have hnone : ∀ u, ¬ ({ s with returned := s.nextPid :: s.returned }.goto t .idle).Counted u := by
    intro u hu
    by_cases hut : u = t
    · rw [hut, PidSys.Counted, PidSys.goto_self] at hu
      simp at hu
    · rw [PidSys.Counted, PidSys.goto_ne hut] at hu
      exact hut (h.one u t hu (.inr hpc))
  refine ⟨List.nodup_cons.mpr ⟨h.fresh t (.inr hpc), h.nodup⟩, ?_, ?_, h.counter,
    fun u _ hu => absurd hu (hnone u), fun u hu => absurd hu (hnone u)⟩
  · exact List.forall_mem_cons.mpr ⟨h.counter, h.pos⟩
  · exact List.forall_mem_cons.mpr ⟨le_refl _, h.le⟩

theorem wp_pidExec (h : PidInv s) {a : PidAction} (hok : CountsAlone s a) :
    Prog.wp (fun _ => True) (pidMachine.exec a) (fun _ => PidInv) s := by
  cases a with
  | call t => exact Prog.wp_modify (h.goto (.inr ⟨by simp, by simp⟩))
  | step t =>
      refine Prog.wp_get_bind ?_
      cases hpc : s.pc t with
      | idle => exact Prog.wp_pure h
      | acquire =>
          have hlock : PidInv { s with pidLock := s.pidLock.acquire t } := { h with }
          exact Prog.wp_set (hlock.goto (.inr ⟨by simp, by simp⟩))
      | increment =>
          obtain ⟨hlt, hnone⟩ := hok t rfl hpc
          exact Prog.wp_set (h.increment hlt hnone)
      | release =>
          have hlock : PidInv { s with pidLock := s.pidLock.release } := { h with }
          exact Prog.wp_bind (Prog.wp_lift (fun _ _ => Prog.wp_set (hlock.goto (.inl (.inl hpc))))
            fun _ _ => trivial)
      | read => exact Prog.wp_set (h.read hpc)

/-! ### Runs -/

theorem pidInv_of_reach (h : pidMachine.Reach CountsAlone s) : PidInv s := by
  refine h.invariant (E := fun _ => True) ?_ fun _ _ hinv _ hok => wp_pidExec hinv hok
  rintro _ rfl
  exact pidInit_inv

theorem PidInv.unique (h : PidInv s) : PidsUnique s where
  nodup := h.nodup
  nonneg := fun p hp => Int16.le_iff_toInt_le.mpr (h.pos p hp)

/-- **In every run in which calls count up one at a time and not beyond 32767, no process id
is given out twice and none is negative.** -/
theorem pids_unique (s : PidSys) (h : pidMachine.Reach CountsAlone s) : PidsUnique s :=
  (pidInv_of_reach h).unique

/-- Two calls side by side: the second one counts up when the first one has read. -/
theorem pids_unique_two : ∃ s, pidMachine.Reach CountsAlone s ∧ s.returned = [2, 1] ∧
    PidsUnique s := by
  have hrun : ((pidMachine.play [.call 0, .call 1, .step 0, .step 0, .step 0, .step 1, .step 0,
      .step 1, .step 1, .step 1] pidInit).map fun s => s.returned) = some [2, 1] := by decide
  obtain ⟨s, hplay, hs⟩ := Option.map_eq_some_iff.mp hrun
  have hreach : pidMachine.Reach CountsAlone s := by
    refine Machine.reach_of_playOk (.start rfl) (fun n hn t ht => ?_) hplay
    change n < 10 at hn
    interval_cases n <;> cases ht <;> rintro u ⟨⟩ hinc <;>
      first
      | exact absurd hinc (by decide)
      | exact ⟨by decide, fun u => match u with
          | 0 => by decide
          | 1 => by decide
          | u + 2 => ⟨nofun, nofun⟩⟩
  exact ⟨s, hreach, hs, pids_unique s hreach⟩

/-- Task 1 counts up between the release and the read of task 0: both return 2. -/
theorem pids_collide : ∃ s, pidMachine.Reach (fun _ _ => True) s ∧ ¬ PidsUnique s := by
  have hrun : ((pidMachine.play [.call 0, .call 1, .step 0, .step 0, .step 0, .step 1, .step 1,
      .step 1, .step 0, .step 1] pidInit).map fun s => s.returned) = some [2, 2] := by decide
  obtain ⟨s, hplay, hs⟩ := Option.map_eq_some_iff.mp hrun
  refine ⟨s, Machine.reach_of_play (.start rfl) hplay, fun h => ?_⟩
  have hnodup := h.nodup
  rw [hs] at hnodup
  exact absurd hnodup (by decide)

end ZyOs
