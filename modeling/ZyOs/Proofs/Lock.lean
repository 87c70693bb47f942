/-
The lock under every interleaving.

At any time the lock is free, and then nobody is between getting and giving back the
semaphore, or one task is there and all others are outside (`LockInv`).  Where a task is
outside, nothing it knows of the lock can be made false by the one inside: the holder is
never somebody else.  So each step is looked at once, in the task that takes it.
-/
import ZyOs.Kernel.Lock

namespace ZyOs

open Library

variable {s s' : LockSys} {t u d : Nat} {pc : LockPc}

/-! ### Fields -/

@[simp] theorem goto_self : (s.goto t pc).pc t = pc := if_pos rfl

theorem goto_ne (h : u ≠ t) : (s.goto t pc).pc u = s.pc u := if_neg h

@[simp] theorem goto_holder : (s.goto t pc).holder = s.holder := rfl

@[simp] theorem goto_sem : (s.goto t pc).sem = s.sem := rfl

@[simp] theorem goto_nr : (s.goto t pc).holderRepeatNr = s.holderRepeatNr := rfl

@[simp] theorem goto_depth : (s.goto t pc).depth = s.depth := rfl

@[simp] theorem withDepth_self : (s.withDepth t d).depth t = d := if_pos rfl

theorem withDepth_ne (h : u ≠ t) : (s.withDepth t d).depth u = s.depth u := if_neg h

@[simp] theorem withDepth_holder : (s.withDepth t d).holder = s.holder := rfl

@[simp] theorem withDepth_sem : (s.withDepth t d).sem = s.sem := rfl

@[simp] theorem withDepth_nr : (s.withDepth t d).holderRepeatNr = s.holderRepeatNr := rfl

@[simp] theorem withDepth_pc : (s.withDepth t d).pc = s.pc := rfl

/-! ### The invariant -/

/-- Task `t` has no part in the lock. -/
structure LockSys.Outside (s : LockSys) (t : Nat) : Prop where
  depth : s.depth t = 0
  holder : s.holder ≠ some t
  pc : s.pc t = .idle ∨ s.pc t = .down ∨ s.pc t = .blocked

/-- Task `t` has the semaphore: what holds where it is. -/
def LockSys.Inside (s : LockSys) (t : Nat) : Prop :=
  match s.pc t with
  | .idle | .test => s.holder = some t ∧ 0 < s.depth t ∧ s.holderRepeatNr.toNat = s.depth t
  | .down | .blocked => False
  | .setHolder => s.holder = none ∧ s.depth t = 0 ∧ s.holderRepeatNr = 0
  | .assertZero | .setOne => s.holder = some t ∧ s.depth t = 0 ∧ s.holderRepeatNr = 0
  | .readUp => s.holder = some t ∧ 0 < s.depth t ∧ s.holderRepeatNr.toNat = s.depth t ∧
      s.depth t + 1 < 2 ^ 32
  | .writeUp nr => s.holder = some t ∧ 0 < s.depth t ∧ nr.toNat = s.depth t + 1
  | .readDown => s.holder = some t ∧ 1 < s.depth t ∧ s.holderRepeatNr.toNat = s.depth t
  | .writeDown nr => s.holder = some t ∧ 1 < s.depth t ∧ nr.toNat + 1 = s.depth t
  | .assertOne | .clearHolder => s.holder = some t ∧ s.depth t = 1 ∧ s.holderRepeatNr = 1
  | .clearNr => s.holder = none ∧ s.depth t = 1
  | .up => s.holder = none ∧ s.depth t = 1 ∧ s.holderRepeatNr = 0

/-- Nobody has the lock. -/
structure LockSys.IsFree (s : LockSys) : Prop where
  value : s.sem.value = 1
  holder : s.holder = none
  nr : s.holderRepeatNr = 0
  outside : ∀ t, s.Outside t

/-- Task `t` has it. -/
structure LockSys.HeldBy (s : LockSys) (t : Nat) : Prop where
  value : s.sem.value = 0
  inside : s.Inside t
  outside : ∀ u, u ≠ t → s.Outside u

structure LockInv (s : LockSys) : Prop where
  nodup : s.sem.waiters.Nodup
  waiters : ∀ t, t ∈ s.sem.waiters ↔ s.pc t = .blocked
  state : s.IsFree ∨ ∃ t, s.HeldBy t

theorem lockInit_inv : LockInv lockInit where
  nodup := List.nodup_nil
  waiters := fun t => by simp [lockInit]
  state := .inl ⟨rfl, rfl, rfl, fun _ => ⟨rfl, by simp [lockInit], .inl rfl⟩⟩

/-- Who has called the lock and is not outside, has it. -/
theorem LockInv.heldBy (h : LockInv s) (ht : ¬ s.Outside t) : s.HeldBy t := by
  rcases h.state with hfree | ⟨u, hu⟩
  · exact absurd (hfree.outside t) ht
  · by_cases htu : t = u
    · exact htu ▸ hu
    · exact absurd (hu.outside t htu) ht

/-- A task outside goes on outside. -/
theorem LockInv.goto_outside (h : LockInv s) (ht : s.Outside t)
    (hpc : pc = .idle ∨ pc = .down) (hb : s.pc t ≠ .blocked) : LockInv (s.goto t pc) := by
  have hout : ∀ u, s.Outside u → (s.goto t pc).Outside u := by
    intro u hu
    refine ⟨hu.depth, hu.holder, ?_⟩
    by_cases hut : u = t
    · rw [hut, goto_self]
      exact hpc.imp_right .inl
    · rw [goto_ne hut]
      exact hu.pc
  refine ⟨h.nodup, fun u => ?_, ?_⟩
  · rw [goto_sem, h.waiters]
    by_cases hut : u = t
    · rw [hut, goto_self]
      rcases hpc with rfl | rfl <;> simp [hb]
    · rw [goto_ne hut]
  · rcases h.state with hfree | ⟨v, hv⟩
    · exact .inl ⟨hfree.value, hfree.holder, hfree.nr, fun u => hout u (hfree.outside u)⟩
    · have htv : v ≠ t := by
        rintro rfl
        have hin := hv.inside
        rcases ht.pc with hp | hp | hp
        · rw [LockSys.Inside, hp] at hin
          exact ht.holder hin.1
        · rw [LockSys.Inside, hp] at hin
          exact hin
        · exact hb hp
      refine .inr ⟨v, hv.value, ?_, fun u hu => hout u (hv.outside u hu)⟩
      have hin := hv.inside
      unfold LockSys.Inside at hin ⊢
      rw [goto_ne htv]
      exact hin

/-- The task inside goes on inside. -/
theorem LockInv.keep (h : LockInv s) (ht : s.HeldBy t) (hin : s'.Inside t)
    (hsem : s'.sem = s.sem) (hpc : ∀ u, u ≠ t → s'.pc u = s.pc u)
    (hdepth : ∀ u, u ≠ t → s'.depth u = s.depth u)
    (hholder : s'.holder = none ∨ s'.holder = some t) (hb : s.pc t ≠ .blocked)
    (hb' : s'.pc t ≠ .blocked) : LockInv s' := by
  refine ⟨hsem ▸ h.nodup, fun u => ?_, .inr ⟨t, hsem ▸ ht.value, hin, fun u hu => ?_⟩⟩
  · rw [hsem, h.waiters]
    by_cases hut : u = t
    · rw [hut]
      exact iff_of_false hb hb'
    · rw [hpc u hut]
  · obtain ⟨hd, -, hp⟩ := ht.outside u hu
    refine ⟨by rw [hdepth u hu, hd], fun hc => ?_, by rwa [hpc u hu]⟩
    rcases hholder with hn | hs
    · rw [hn] at hc
      cases hc
    · exact hu (Option.some.inj (hc.symm.trans hs))

/-- A task outside is not the one inside. -/
theorem LockSys.not_heldBy (hpc : s.pc t = .down) : ¬ s.HeldBy t := by
  intro h
  have hin := h.inside
  rw [LockSys.Inside, hpc] at hin
  exact hin

/-- The semaphore is taken: the task waits. -/
theorem LockInv.block (h : LockInv s) (hpc : s.pc t = .down)
    (hvalue : s.sem.value = 0) :
    LockInv ({ s with sem := { s.sem with waiters := s.sem.waiters ++ [t] } : LockSys }.goto t
      .blocked) := by
  have hnot : t ∉ s.sem.waiters := fun hm => by
    rw [h.waiters, hpc] at hm
    cases hm
  obtain ⟨v, hv⟩ := h.state.resolve_left fun hfree => by
    have := hfree.value
    omega
  have htv : v ≠ t := fun hvt => LockSys.not_heldBy hpc (hvt ▸ hv)
  refine ⟨?_, fun u => ?_, .inr ⟨v, hvalue, ?_, fun u hu => ?_⟩⟩
  · exact List.nodup_append.mpr ⟨h.nodup, List.nodup_singleton t, by
      rintro x hx y hy rfl
      exact hnot (List.mem_singleton.mp hy ▸ hx)⟩
  · rw [goto_sem, List.mem_append, List.mem_singleton, h.waiters]
    by_cases hut : u = t
    · simp [hut]
    · rw [goto_ne hut]
      simp [hut]
  · have hin := hv.inside
    unfold LockSys.Inside at hin ⊢
    rw [goto_ne htv]
    exact hin
  · obtain ⟨hd, hh, hp⟩ := hv.outside u hu
    refine ⟨hd, hh, ?_⟩
    by_cases hut : u = t
    · exact .inr (.inr (by rw [hut, goto_self]))
    · rwa [goto_ne hut]

/-- The semaphore is free: the task gets it. -/
theorem LockInv.take (h : LockInv s) (ht : s.Outside t) (hpc : s.pc t = .down)
    (hvalue : s.sem.value ≠ 0) : s.sem.value = 1 ∧
    LockInv ({ s with sem := { s.sem with value := s.sem.value - 1 } : LockSys }.goto t
      .setHolder) := by
  have hfree := h.state.resolve_right fun ⟨v, hv⟩ => hvalue hv.value
  refine ⟨hfree.value, h.nodup, fun u => ?_, .inr ⟨t, ?_, ?_, fun u hu => ?_⟩⟩
  · rw [goto_sem, h.waiters]
    by_cases hut : u = t
    · simp [hut, hpc]
    · rw [goto_ne hut]
  · rw [goto_sem, hfree.value]
  · rw [LockSys.Inside, goto_self]
    exact ⟨hfree.holder, ht.depth, hfree.nr⟩
  · obtain ⟨hd, hh, hp⟩ := hfree.outside u
    exact ⟨hd, hh, by rwa [goto_ne hu]⟩

/-- The semaphore is given back: of those that wait, the ones in `waiters` still do. -/
theorem LockInv.give (h : LockInv s) (ht : s.HeldBy t) (hpc : s.pc t = .up)
    (hvalue : s'.sem.value = 1) (hnodup : s'.sem.waiters.Nodup) (hholder : s'.holder = s.holder)
    (hnr : s'.holderRepeatNr = s.holderRepeatNr) (hdepth : s'.depth = (s.withDepth t 0).depth)
    (hpcs : ∀ u, s'.pc u = if u = t then .idle
      else if s.pc u = .blocked ∧ u ∉ s'.sem.waiters then .down else s.pc u)
    (hsub : s'.sem.waiters ⊆ s.sem.waiters) : LockInv s' := by
  have hin := ht.inside
  rw [LockSys.Inside, hpc] at hin
  have hout : ∀ u, s'.Outside u := by
    intro u
    refine ⟨?_, by rw [hholder, hin.1]; simp, ?_⟩
    · rw [hdepth]
      by_cases hut : u = t
      · rw [hut, withDepth_self]
      · rw [withDepth_ne hut, (ht.outside u hut).depth]
    · rw [hpcs]
      split
      · exact .inl rfl
      · split
        · exact .inr (.inl rfl)
        · exact (ht.outside u ‹_›).pc
  refine ⟨hnodup, fun u => ?_, .inl ⟨hvalue, hholder.trans hin.1, hnr.trans hin.2.2, hout⟩⟩
  rw [hpcs]
  by_cases hut : u = t
  · rw [if_pos hut]
    refine iff_of_false (fun hm => ?_) (by simp)
    have := (h.waiters u).mp (hsub hm)
    rw [hut, hpc] at this
    cases this
  · rw [if_neg hut]
    by_cases hb : s.pc u = .blocked
    · by_cases hm : u ∈ s'.sem.waiters
      · simp [hm, hb]
      · simp [hm, hb]
    · have hm : u ∉ s'.sem.waiters := fun hm => hb ((h.waiters u).mp (hsub hm))
      simp [hm, hb]

/-! ### The steps -/

section Steps

variable {E : Halt → Prop}

theorem wp_lockDown (h : LockInv s) (hpc : s.pc t = .down) :
    Prog.wp E (lockDown t) (fun _ => LockInv) s := by
  have hout : s.Outside t := by
    rcases h.state with hfree | ⟨u, hu⟩
    · exact hfree.outside t
    · exact hu.outside t fun htu => LockSys.not_heldBy hpc (htu ▸ hu)
  have hnot : t ∉ s.sem.waiters := fun hm => by
    rw [h.waiters, hpc] at hm
    cases hm
  refine Prog.wp_get_bind ?_
  by_cases hvalue : s.sem.value = 0
  · have hrun : s.sem.tryDown t
        = .ok ({ s.sem with waiters := s.sem.waiters ++ [t] }, false) := by
      rw [Semaphore.tryDown, if_pos hvalue, ASSERT_pos hnot]
      rfl
    rw [hrun]
    exact h.block hpc hvalue
  · obtain ⟨hone, htake⟩ := h.take hout hpc hvalue
    have hrun : s.sem.tryDown t = .ok ({ s.sem with value := s.sem.value - 1 }, true) := by
      rw [Semaphore.tryDown, if_neg hvalue, ASSERT_pos (by omega)]
      rfl
    rw [hrun]
    exact htake

theorem wp_lockUp (h : LockInv s) (ht : s.HeldBy t) (hpc : s.pc t = .up) :
    Prog.wp E (lockUp t) (fun _ => LockInv) s := by
  have hrun : s.sem.up = .ok (⟨1, s.sem.waiters.tail⟩, s.sem.waiters.head?) := by
    rw [Semaphore.up, ASSERT_pos ht.value, ht.value]
    rfl
  refine Prog.wp_get_bind (Prog.wp_bind (Prog.wp_of_run (Prog.lift_run.mpr ⟨hrun, rfl⟩) ?_))
  cases hw : s.sem.waiters with
  | nil =>
      refine h.give ht hpc rfl List.nodup_nil rfl rfl rfl (fun u => ?_) (by simp)
      by_cases hut : u = t
      · rw [hut, if_pos rfl]
        exact goto_self
      · have hb : s.pc u ≠ .blocked := fun hb => by
          rw [← h.waiters, hw] at hb
          exact absurd hb (by simp)
        rw [if_neg hut, if_neg fun hc => hb hc.1]
        exact goto_ne hut
  | cons v rest =>
      have hnd := h.nodup
      rw [hw, List.nodup_cons] at hnd
      have hv : s.pc v = .blocked := (h.waiters v).mp (by rw [hw]; exact List.mem_cons_self)
      have hvt : v ≠ t := by
        rintro rfl
        rw [hpc] at hv
        cases hv
      have hvpc : (({ s with sem := ⟨1, rest⟩ : LockSys }.goto t .idle).withDepth t 0).pc v
          = .blocked := (goto_ne hvt).trans hv
      refine Prog.wp_bind (Prog.wp_of_run (Prog.lift_run.mpr ⟨ASSERT_pos hvpc _ _, rfl⟩) ?_)
      refine h.give ht hpc rfl hnd.2 rfl rfl rfl (fun u => ?_)
        (by rw [hw]; exact List.subset_cons_self ..)
      by_cases huv : u = v
      · rw [huv, if_neg hvt, if_pos ⟨hv, hnd.1⟩]
        exact goto_self
      · by_cases hut : u = t
        · rw [hut, if_pos rfl]
          exact (goto_ne (Ne.symm hvt)).trans goto_self
        · have hb : ¬ (s.pc u = .blocked ∧ u ∉ rest) := by
            rintro ⟨hb, hnot⟩
            rw [← h.waiters, hw, List.mem_cons] at hb
            exact hnot (hb.resolve_left huv)
          rw [if_neg hut]
          exact ((goto_ne huv).trans (goto_ne hut)).trans (if_neg hb).symm

theorem LockInv.inside (h : LockInv s) (hidle : s.pc t ≠ .idle) (hdown : s.pc t ≠ .down)
    (hblocked : s.pc t ≠ .blocked) : s.HeldBy t := by
  refine h.heldBy fun hout => ?_
  rcases hout.pc with hp | hp | hp
  · exact hidle hp
  · exact hdown hp
  · exact hblocked hp

/-- A step of the task that has the semaphore, to a place inside. -/
theorem LockInv.keep_goto (h : LockInv s) (ht : s.HeldBy t) (hb : s.pc t ≠ .blocked)
    (hb' : pc ≠ .blocked) (hin : (s.goto t pc).Inside t) (hholder : s.holder ≠ none) :
    LockInv (s.goto t pc) := by
  refine h.keep ht hin rfl (fun u hu => goto_ne hu) (fun _ _ => rfl) ?_ hb (by rwa [goto_self])
  by_contra hc
  push Not at hc
  obtain ⟨v, hv⟩ := Option.ne_none_iff_exists'.mp hholder
  by_cases hvt : v = t
  · exact hc.2 (hvt ▸ hv)
  · exact (ht.outside v hvt).holder hv

theorem wp_lockStep (h : LockInv s) (hidle : s.pc t ≠ .idle) (hblocked : s.pc t ≠ .blocked) :
    Prog.wp E (lockStep t) (fun _ => LockInv) s := by
  have held := fun hdown => h.inside hidle hdown hblocked
  refine Prog.wp_get_bind ?_
  cases hpc : s.pc t with
  | idle => exact absurd hpc hidle
  | blocked => exact absurd hpc hblocked
  | down => exact wp_lockDown h hpc
  | setHolder =>
      have ht := held (by simp [hpc])
      have hin := ht.inside
      rw [LockSys.Inside, hpc] at hin
      refine Prog.wp_set (h.keep ht ?_ rfl (fun u hu => goto_ne hu) (fun _ _ => rfl) (.inr rfl)
        hblocked (by rw [goto_self]; simp))
      rw [LockSys.Inside, goto_self]
      exact ⟨rfl, hin.2⟩
  | assertZero =>
      have ht := held (by simp [hpc])
      have hin := ht.inside
      rw [LockSys.Inside, hpc] at hin
      refine Prog.wp_bind (Prog.wp_of_run (Prog.lift_run.mpr ⟨ASSERT_pos hin.2.2 _ _, rfl⟩)
        (Prog.wp_set (h.keep_goto ht hblocked (by simp) ?_ (by simp [hin.1]))))
      rw [LockSys.Inside, goto_self]
      exact hin
  | setOne =>
      have ht := held (by simp [hpc])
      have hin := ht.inside
      rw [LockSys.Inside, hpc] at hin
      refine Prog.wp_set (h.keep ht ?_ rfl (fun u hu => goto_ne hu) (fun u hu => withDepth_ne hu)
        (.inr hin.1) hblocked (by rw [withDepth_pc, goto_self]; simp))
      rw [LockSys.Inside, withDepth_pc, goto_self]
      exact ⟨hin.1, by simp, by simp⟩
  | readUp =>
      have ht := held (by simp [hpc])
      have hin := ht.inside
      rw [LockSys.Inside, hpc] at hin
      refine Prog.wp_set (h.keep_goto ht hblocked (by simp) ?_ (by simp [hin.1]))
      rw [LockSys.Inside, goto_self]
      refine ⟨hin.1, hin.2.1, ?_⟩
      rw [UInt32.toNat_add, hin.2.2.1, goto_depth]
      exact Nat.mod_eq_of_lt hin.2.2.2
  | writeUp nr =>
      have ht := held (by simp [hpc])
      have hin := ht.inside
      rw [LockSys.Inside, hpc] at hin
      refine Prog.wp_set (h.keep ht ?_ rfl (fun u hu => goto_ne hu) (fun u hu => withDepth_ne hu)
        (.inr hin.1) hblocked (by rw [withDepth_pc, goto_self]; simp))
      rw [LockSys.Inside, withDepth_pc, goto_self]
      exact ⟨hin.1, by simp, by simpa using hin.2.2⟩
  | test =>
      have ht := held (by simp [hpc])
      have hin := ht.inside
      rw [LockSys.Inside, hpc] at hin
      obtain ⟨hholder, hpos, hnr⟩ := hin
      by_cases hgt : 1 < s.holderRepeatNr
      · show Prog.wp E (set (s.goto t (if 1 < s.holderRepeatNr then .readDown else .assertOne))) _ s
        rw [if_pos hgt]
        refine Prog.wp_set (h.keep_goto ht hblocked (by simp) ?_ (by simp [hholder]))
        rw [LockSys.Inside, goto_self]
        rw [UInt32.lt_iff_toNat_lt, hnr] at hgt
        exact ⟨hholder, hgt, hnr⟩
      · show Prog.wp E (set (s.goto t (if 1 < s.holderRepeatNr then .readDown else .assertOne))) _ s
        rw [if_neg hgt]
        refine Prog.wp_set (h.keep_goto ht hblocked (by simp) ?_ (by simp [hholder]))
        rw [LockSys.Inside, goto_self]
        rw [UInt32.lt_iff_toNat_lt, hnr, show (1 : UInt32).toNat = 1 from rfl] at hgt
        have hone : s.depth t = 1 := by omega
        exact ⟨hholder, hone, UInt32.toNat_inj.mp (hnr.trans hone)⟩
  | readDown =>
      have ht := held (by simp [hpc])
      have hin := ht.inside
      rw [LockSys.Inside, hpc] at hin
      refine Prog.wp_set (h.keep_goto ht hblocked (by simp) ?_ (by simp [hin.1]))
      rw [LockSys.Inside, goto_self]
      refine ⟨hin.1, hin.2.1, ?_⟩
      have hle : (1 : UInt32) ≤ s.holderRepeatNr := by
        rw [UInt32.le_iff_toNat_le, hin.2.2]
        exact hin.2.1.le
      rw [UInt32.toNat_sub_of_le _ _ hle, hin.2.2, goto_depth]
      exact Nat.sub_add_cancel hin.2.1.le
  | writeDown nr =>
      have ht := held (by simp [hpc])
      have hin := ht.inside
      rw [LockSys.Inside, hpc] at hin
      refine Prog.wp_set (h.keep ht ?_ rfl (fun u hu => goto_ne hu) (fun u hu => withDepth_ne hu)
        (.inr hin.1) hblocked (by rw [withDepth_pc, goto_self]; simp))
      rw [LockSys.Inside, withDepth_pc, goto_self]
      obtain ⟨hholder, hpos, hnr⟩ := hin
      refine ⟨hholder, ?_, ?_⟩
      · rw [withDepth_self]
        omega
      · rw [withDepth_self]
        show nr.toNat = s.depth t - 1
        omega
  | assertOne =>
      have ht := held (by simp [hpc])
      have hin := ht.inside
      rw [LockSys.Inside, hpc] at hin
      refine Prog.wp_bind (Prog.wp_of_run (Prog.lift_run.mpr ⟨ASSERT_pos hin.2.2 _ _, rfl⟩)
        (Prog.wp_set (h.keep_goto ht hblocked (by simp) ?_ (by simp [hin.1]))))
      rw [LockSys.Inside, goto_self]
      exact hin
  | clearHolder =>
      have ht := held (by simp [hpc])
      have hin := ht.inside
      rw [LockSys.Inside, hpc] at hin
      refine Prog.wp_set (h.keep ht ?_ rfl (fun u hu => goto_ne hu) (fun _ _ => rfl) (.inl rfl)
        hblocked (by rw [goto_self]; simp))
      rw [LockSys.Inside, goto_self]
      exact ⟨rfl, hin.2.1⟩
  | clearNr =>
      have ht := held (by simp [hpc])
      have hin := ht.inside
      rw [LockSys.Inside, hpc] at hin
      refine Prog.wp_set (h.keep ht ?_ rfl (fun u hu => goto_ne hu) (fun _ _ => rfl) (.inl hin.1)
        hblocked (by rw [goto_self]; simp))
      rw [LockSys.Inside, goto_self]
      exact ⟨hin.1, hin.2, rfl⟩
  | up => exact wp_lockUp h (held (by simp [hpc])) hpc

theorem wp_lockAcquire (h : LockInv s) (hidle : s.pc t = .idle) (hnest : s.depth t + 1 < 2 ^ 32) :
    Prog.wp E (lockAcquire t) (fun _ => LockInv) s := by
  have hb : s.pc t ≠ .blocked := by simp [hidle]
  refine Prog.wp_get_bind (Prog.wp_ite (fun hne => ?_) fun hself => ?_)
  · refine Prog.wp_set (h.goto_outside ?_ (.inr rfl) hb)
    by_contra hc
    have hin := (h.heldBy hc).inside
    rw [LockSys.Inside, hidle] at hin
    exact hne hin.1
  · have hself := not_not.mp hself
    have ht := h.heldBy (t := t) fun hout => hout.holder hself
    have hin := ht.inside
    rw [LockSys.Inside, hidle] at hin
    refine Prog.wp_set (h.keep_goto ht hb (by simp) ?_ (by simp [hself]))
    rw [LockSys.Inside, goto_self]
    exact ⟨hin.1, hin.2.1, hin.2.2, hnest⟩

theorem wp_lockRelease (h : LockInv s) (hidle : s.pc t = .idle) (hpos : 0 < s.depth t) :
    Prog.wp E (lockRelease t) (fun _ => LockInv) s := by
  have ht := h.heldBy (t := t) fun hout => by
    have := hout.depth
    omega
  have hin := ht.inside
  rw [LockSys.Inside, hidle] at hin
  refine Prog.wp_get_bind (Prog.wp_bind (Prog.wp_of_run
    (Prog.lift_run.mpr ⟨ASSERT_pos hin.1 _ _, rfl⟩) (Prog.wp_set
      (h.keep_goto ht (by simp [hidle]) (by simp) ?_ (by simp [hin.1])))))
  rw [LockSys.Inside, goto_self]
  exact hin

end Steps

/-! ### Runs -/

/-- Nobody who has the lock 2^32 - 1 times takes it once more. -/
def NestsBelow (s : LockSys) (a : LockAction) : Prop :=
  ∀ t, a = .acquire t → s.depth t + 1 < 2 ^ 32

/-- What a lock is for: one task at a time, as often as it likes; the semaphore says whether
somebody is there, and no check fails. -/
structure LockSafe (s : LockSys) : Prop where
  exclusive : ∀ t u, 0 < s.depth t → 0 < s.depth u → t = u
  nesting : ∀ t, 0 < s.depth t → s.pc t = .idle → s.holderRepeatNr.toNat = s.depth t
  value : s.sem.value = 0 ∨ s.sem.value = 1
  taken : ∀ t, 0 < s.depth t → s.sem.value = 0
  noAssert : ∀ a, s.Enabled a → ∀ e, lockMachine.exec a s ≠ .error e

theorem wp_lockExec (h : LockInv s) {a : LockAction} (hen : s.Enabled a) (hok : NestsBelow s a) :
    Prog.wp (fun _ => False) (lockMachine.exec a) (fun _ => LockInv) s := by
  cases a with
  | acquire t => exact wp_lockAcquire h hen (hok t rfl)
  | release t => exact wp_lockRelease h hen.1 hen.2
  | step t => exact wp_lockStep h hen.1 hen.2

theorem LockInv.held (h : LockInv s) (hpos : 0 < s.depth t) : s.HeldBy t :=
  h.heldBy fun hout => by
    have := hout.depth
    omega

theorem LockInv.safe (h : LockInv s) : LockSafe s where
  exclusive := by
    intro t u ht hu
    by_contra hne
    have := ((h.held hu).outside t hne).depth
    omega
  nesting := by
    intro t ht hidle
    have hin := (h.held ht).inside
    rw [LockSys.Inside, hidle] at hin
    exact hin.2.2
  value := by
    rcases h.state with hfree | ⟨t, ht⟩
    · exact .inr hfree.value
    · exact .inl ht.value
  taken := fun t ht => (h.held ht).value
  noAssert := by
    intro a hen e herr
    cases a with
    | acquire t =>
        -- the call itself checks nothing
        have hwp : Prog.wp (fun _ => False) (lockAcquire t) (fun _ _ => True) s :=
          Prog.wp_get_bind (Prog.wp_ite (fun _ => Prog.wp_set trivial) fun _ => Prog.wp_set trivial)
        exact hwp.of_error herr
    | release t => exact (wp_lockRelease (E := fun _ => False) h hen.1 hen.2).of_error herr
    | step t => exact (wp_lockStep (E := fun _ => False) h hen.1 hen.2).of_error herr

theorem lockInv_of_reach (h : lockMachine.Reach NestsBelow s) : LockInv s := by
  refine h.invariant (E := fun _ => False) ?_ fun _ _ hinv hen hok => wp_lockExec hinv hen hok
  rintro _ rfl
  exact lockInit_inv

/-- **In every run in which nobody nests 2^32 deep, the lock is safe.** -/
theorem lock_safe (s : LockSys) (h : lockMachine.Reach NestsBelow s) : LockSafe s :=
  (lockInv_of_reach h).safe

instance (s : LockSys) (a : LockAction) : Decidable (lockMachine.enabled s a) :=
  inferInstanceAs (Decidable (s.Enabled a))

/-- Task 0 has it twice, and task 1 waits. -/
theorem lock_safe_nested : ∃ s, lockMachine.Reach NestsBelow s ∧ s.holder = some 0 ∧ s.depth 0 = 2 ∧
    s.sem.waiters = [1] ∧ s.pc 1 = .blocked ∧ LockSafe s := by
  have hrun : ((lockMachine.play [.acquire 0, .step 0, .step 0, .step 0, .step 0, .acquire 1,
      .acquire 0, .step 1, .step 0, .step 0] lockInit).map
      fun s => (s.holder, s.depth 0, s.sem.waiters, s.pc 1)) = some (some 0, 2, [1], .blocked) := by
    decide
  obtain ⟨s, hplay, hs⟩ := Option.map_eq_some_iff.mp hrun
  simp only [Prod.mk.injEq] at hs
  have hreach : lockMachine.Reach NestsBelow s := by
    refine Machine.reach_of_playOk (.start rfl) (fun n hn t ht => ?_) hplay
    change n < 10 at hn
    interval_cases n <;> cases ht <;> rintro u ⟨⟩ <;> decide
  exact ⟨s, hreach, hs.1, hs.2.1, hs.2.2.1, hs.2.2.2, lock_safe s hreach⟩

/-! ### Too deep -/

/-- Task 0 has the lock `n` times. -/
structure Nested (s : LockSys) (n : Nat) : Prop where
  reach : lockMachine.Reach (fun _ _ => True) s
  holder : s.holder = some 0
  nr : s.holderRepeatNr = UInt32.ofNat n
  pc : s.pc 0 = .idle
  depth : s.depth 0 = n

theorem nested_one : ∃ s, Nested s 1 := by
  have hrun : ((lockMachine.play [.acquire 0, .step 0, .step 0, .step 0, .step 0] lockInit).map
      fun s => (s.holder, s.holderRepeatNr, s.pc 0, s.depth 0)) = some (some 0, 1, .idle, 1) := by
    decide
  obtain ⟨s, hplay, hs⟩ := Option.map_eq_some_iff.mp hrun
  simp only [Prod.mk.injEq] at hs
  exact ⟨s, Machine.reach_of_play (.start rfl) hplay, hs.1, hs.2.1, hs.2.2.1, hs.2.2.2⟩

theorem Nested.again {n : Nat} (h : Nested s n) : ∃ s, Nested s (n + 1) := by
  let s₁ := s.goto 0 .readUp
  let s₂ := s₁.goto 0 (.writeUp (s.holderRepeatNr + 1))
  let s₃ := ({ s₂ with holderRepeatNr := s.holderRepeatNr + 1 }.goto 0 .idle).withDepth 0 (n + 1)
  have hacq : lockMachine.exec (.acquire 0) s = .ok ((), s₁) := by
    show lockAcquire 0 s = _
    rw [lockAcquire, Prog.bind_of_run (Prog.get_run s), if_neg (by simp [h.holder])]
    rfl
  have hread : lockMachine.exec (.step 0) s₁ = .ok ((), s₂) := by
    show lockStep 0 s₁ = _
    rw [lockStep, Prog.bind_of_run (Prog.get_run s₁), show s₁.pc 0 = .readUp from goto_self]
    rfl
  have hwrite : lockMachine.exec (.step 0) s₂ = .ok ((), s₃) := by
    show lockStep 0 s₂ = _
    rw [lockStep, Prog.bind_of_run (Prog.get_run s₂), show s₂.pc 0 = _ from goto_self,
      show s₂.depth 0 = n from h.depth]
    rfl
  have hen₀ : lockMachine.enabled s (.acquire 0) := h.pc
  have hen₁ : lockMachine.enabled s₁ (.step 0) :=
    ⟨by rw [show s₁.pc 0 = .readUp from goto_self]; simp,
      by rw [show s₁.pc 0 = .readUp from goto_self]; simp⟩
  have hen₂ : lockMachine.enabled s₂ (.step 0) :=
    ⟨by rw [show s₂.pc 0 = _ from goto_self]; simp, by rw [show s₂.pc 0 = _ from goto_self]; simp⟩
  have hpc : s₃.pc 0 = .idle := rfl
  have hdepth : s₃.depth 0 = n + 1 := rfl
  refine ⟨s₃, ((h.reach.next hen₀ trivial hacq).next hen₁ trivial hread).next hen₂ trivial hwrite,
    h.holder, ?_, hpc, hdepth⟩
  show s.holderRepeatNr + 1 = _
  rw [h.nr, ← UInt32.toNat_inj]
  simp

/-- The counter has 32 bits: after 2^32 calls it is 0 again. -/
theorem lock_overflows : ∃ s, lockMachine.Reach (fun _ _ => True) s ∧ ¬ LockSafe s := by
  have hn : ∀ n, ∃ s, Nested s (n + 1) := by
    intro n
    induction n with
    | zero => exact nested_one
    | succ n ih =>
        obtain ⟨s, h⟩ := ih
        exact h.again
  obtain ⟨s, h⟩ := hn (2 ^ 32 - 1)
  refine ⟨s, h.reach, fun hsafe => ?_⟩
  have hnr := hsafe.nesting 0 (by rw [h.depth]; decide) h.pc
  rw [h.nr, h.depth] at hnr
  exact absurd hnr (by decide)

end ZyOs
