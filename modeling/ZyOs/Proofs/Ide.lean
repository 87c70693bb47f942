/-
A transfer is one splice.

However many commands `ide_read` and `ide_write` cut a transfer into, the result
is the same as moving all of it at once: `ideRead_eq` and `ideWrite_eq` say so for
every transfer that returns, `ideRead_returns` and `ideWrite_returns` that every
transfer inside the drive does return.  Nothing above this file looks at the loop.
-/
import ZyOs.Kernel.Ide

namespace ZyOs

open Library

theorem sectorsMoved_secsOp {secCnt secsDone : Nat} (h : secsDone < secCnt) :
    sectorsMoved (secsOp secCnt secsDone) = secsOp secCnt secsDone := by
  unfold sectorsMoved secsOp
  split_ifs <;> omega

theorem secsOp_pos {secCnt secsDone : Nat} (h : secsDone < secCnt) :
    0 < secsOp secCnt secsDone := by
  unfold secsOp
  split_ifs <;> omega

theorem secsOp_le {secCnt secsDone : Nat} (h : secsDone < secCnt) :
    secsDone + secsOp secCnt secsDone ≤ secCnt := by
  unfold secsOp
  split_ifs <;> omega

/-! ### Reading -/

theorem ideReadLoop_eq (d : Disk) (lba secCnt : Nat) (buf : Mem) :
    ∀ (fuel done : Nat) (m r : Mem), done ≤ secCnt → secCnt ≤ done + fuel →
      m = buf.splice 0 (d.drop (512 * lba)) (done * 512) →
      ideReadLoop d lba secCnt fuel done m = .ok r →
      r = buf.splice 0 (d.drop (512 * lba)) (secCnt * 512) := by
  intro fuel
  induction fuel with
  | zero =>
      intro done m r hle hfuel hm h
      simp only [ideReadLoop, Except.ok.injEq] at h
      rw [← h, hm, show done = secCnt by omega]
  | succ fuel ih =>
      intro done m r hle hfuel hm h
      unfold ideReadLoop at h
      by_cases hlt : done < secCnt
      · rw [if_pos hlt] at h
        obtain ⟨_, -, h⟩ := bind_eq_ok.mp h
        have hpos := secsOp_pos hlt
        refine ih _ _ r (secsOp_le hlt) (by omega) ?_ h
        rw [hm, sectorsMoved_secsOp hlt, Nat.add_mul,
          ← Mem.splice_append buf _ 0 (done * 512), Mem.drop_drop]
        congr 2
        · omega
        · omega
      · rw [if_neg hlt] at h
        simp only [Except.ok.injEq] at h
        rw [← h, hm, show done = secCnt by omega]

/-- **What `ide_read` puts in the buffer.** -/
theorem ideRead_eq {d : Disk} {lba secCnt : Nat} {buf r : Mem}
    (h : ideRead d lba buf secCnt = .ok r) :
    r = buf.splice 0 (d.drop (512 * lba)) (secCnt * 512) := by
  simp only [ideRead, bind_eq_ok] at h
  obtain ⟨-, -, -, -, h⟩ := h
  refine ideReadLoop_eq d lba secCnt buf secCnt 0 buf r (by omega) (by omega) ?_ h
  rw [Nat.zero_mul, Mem.splice_zero]

theorem ideReadLoop_returns (d : Disk) {lba secCnt : Nat} (hend : lba + secCnt ≤ maxLba + 1) :
    ∀ (fuel done : Nat) (m : Mem), ∃ r, ideReadLoop d lba secCnt fuel done m = .ok r := by
  intro fuel
  induction fuel with
  | zero => intro done m; exact ⟨m, rfl⟩
  | succ fuel ih =>
      intro done m
      unfold ideReadLoop
      by_cases hlt : done < secCnt
      · rw [if_pos hlt, selectSector, ASSERT_pos (by omega), ok_bind]
        exact ih _ _
      · exact ⟨m, by rw [if_neg hlt]⟩

theorem ideRead_returns (d : Disk) {lba secCnt : Nat} (buf : Mem) (hpos : 0 < secCnt)
    (hend : lba + secCnt ≤ maxLba + 1) :
    ideRead d lba buf secCnt = .ok (buf.splice 0 (d.drop (512 * lba)) (secCnt * 512)) := by
  have hret : ∃ r, ideRead d lba buf secCnt = .ok r := by
    rw [ideRead, ASSERT_pos (by omega), ASSERT_pos hpos]
    exact ideReadLoop_returns d hend secCnt 0 buf
  obtain ⟨r, hr⟩ := hret
  rw [hr, ideRead_eq hr]

/-! ### Writing -/

theorem ideWriteLoop_eq (d : Disk) (lba secCnt : Nat) (buf : Mem) :
    ∀ (fuel done : Nat) (m r : Disk), done ≤ secCnt → secCnt ≤ done + fuel →
      m = d.splice (512 * lba) buf (done * 512) →
      ideWriteLoop buf lba secCnt fuel done m = .ok r →
      r = d.splice (512 * lba) buf (secCnt * 512) := by
  intro fuel
  induction fuel with
  | zero =>
      intro done m r hle hfuel hm h
      simp only [ideWriteLoop, Except.ok.injEq] at h
      rw [← h, hm, show done = secCnt by omega]
  | succ fuel ih =>
      intro done m r hle hfuel hm h
      unfold ideWriteLoop at h
      by_cases hlt : done < secCnt
      · rw [if_pos hlt] at h
        obtain ⟨_, -, h⟩ := bind_eq_ok.mp h
        have hpos := secsOp_pos hlt
        refine ih _ _ r (secsOp_le hlt) (by omega) ?_ h
        rw [hm, sectorsMoved_secsOp hlt, Nat.add_mul,
          ← Mem.splice_append d _ (512 * lba) (done * 512)]
        congr 1
        omega
      · rw [if_neg hlt] at h
        simp only [Except.ok.injEq] at h
        rw [← h, hm, show done = secCnt by omega]

/-- **What `ide_write` leaves on the disk.** -/
theorem ideWrite_eq {d r : Disk} {lba secCnt : Nat} {buf : Mem}
    (h : ideWrite d lba buf secCnt = .ok r) :
    r = d.splice (512 * lba) buf (secCnt * 512) := by
  simp only [ideWrite, bind_eq_ok] at h
  obtain ⟨-, -, -, -, h⟩ := h
  refine ideWriteLoop_eq d lba secCnt buf secCnt 0 d r (by omega) (by omega) ?_ h
  rw [Nat.zero_mul, Mem.splice_zero]

theorem ideWriteLoop_returns (buf : Mem) {lba secCnt : Nat} (hend : lba + secCnt ≤ maxLba + 1) :
    ∀ (fuel done : Nat) (d : Disk), ∃ r, ideWriteLoop buf lba secCnt fuel done d = .ok r := by
  intro fuel
  induction fuel with
  | zero => intro done d; exact ⟨d, rfl⟩
  | succ fuel ih =>
      intro done d
      unfold ideWriteLoop
      by_cases hlt : done < secCnt
      · rw [if_pos hlt, selectSector, ASSERT_pos (by omega), ok_bind]
        exact ih _ _
      · exact ⟨d, by rw [if_neg hlt]⟩

theorem ideWrite_returns (d : Disk) {lba secCnt : Nat} (buf : Mem) (hpos : 0 < secCnt)
    (hend : lba + secCnt ≤ maxLba + 1) :
    ideWrite d lba buf secCnt = .ok (d.splice (512 * lba) buf (secCnt * 512)) := by
  have hret : ∃ r, ideWrite d lba buf secCnt = .ok r := by
    rw [ideWrite, ASSERT_pos (by omega), ASSERT_pos hpos]
    exact ideWriteLoop_returns buf hend secCnt 0 d
  obtain ⟨r, hr⟩ := hret
  rw [hr, ideWrite_eq hr]

/-! ### Reading what could be written -/

theorem ideWrite_lba_le {d r : Disk} {lba secCnt : Nat} {buf : Mem}
    (h : ideWrite d lba buf secCnt = .ok r) : lba ≤ maxLba := by
  simp only [ideWrite, bind_eq_ok, ASSERT_eq_ok] at h
  obtain ⟨-, hlba, -⟩ := h
  exact hlba

theorem ideReadLoop_of_write {lba secCnt : Nat} {buf : Mem} (d₂ : Disk) :
    ∀ (fuel done : Nat) (d d' : Disk) (m : Mem),
      ideWriteLoop buf lba secCnt fuel done d = .ok d' →
      ∃ r, ideReadLoop d₂ lba secCnt fuel done m = .ok r := by
  intro fuel
  induction fuel with
  | zero => intro done d d' m _; exact ⟨m, rfl⟩
  | succ fuel ih =>
      intro done d d' m h
      unfold ideWriteLoop at h
      unfold ideReadLoop
      split at h
      · rename_i hlt
        obtain ⟨u, hsel, h⟩ := bind_eq_ok.mp h
        rw [if_pos hlt, hsel, ok_bind]
        exact ih _ _ _ _ h
      · rename_i hge
        rw [if_neg hge]
        exact ⟨m, rfl⟩

/-- The drive can read wherever it could write. -/
theorem ideRead_of_write {d d' : Disk} {lba secCnt : Nat} {buf : Mem}
    (h : ideWrite d lba buf secCnt = .ok d') (d₂ : Disk) (buf₂ : Mem) :
    ideRead d₂ lba buf₂ secCnt = .ok (buf₂.splice 0 (d₂.drop (512 * lba)) (secCnt * 512)) := by
  simp only [ideWrite, bind_eq_ok, ASSERT_eq_ok] at h
  obtain ⟨-, hlba, -, hpos, h⟩ := h
  obtain ⟨r, hr⟩ := ideReadLoop_of_write d₂ secCnt 0 d d' buf₂ h
  have hread : ideRead d₂ lba buf₂ secCnt = .ok r := by
    rw [ideRead, ASSERT_pos hlba, ASSERT_pos hpos]
    exact hr
  rw [hread, ideRead_eq hread]

/-! ### How a transfer can stop -/

theorem ideReadLoop_error {d : Disk} {lba secCnt : Nat} {e : Halt} :
    ∀ (fuel done : Nat) (m : Mem), ideReadLoop d lba secCnt fuel done m = .error e →
      e.IsPanic := by
  intro fuel
  induction fuel with
  | zero => intro done m h; simp [ideReadLoop] at h
  | succ fuel ih =>
      intro done m h
      unfold ideReadLoop at h
      split at h
      · rcases bind_eq_error.mp h with hsel | ⟨_, _, h⟩
        · exact ASSERT_error hsel
        · exact ih _ _ h
      · simp at h

theorem ideRead_error {d : Disk} {lba secCnt : Nat} {buf : Mem} {e : Halt}
    (h : ideRead d lba buf secCnt = .error e) : e.IsPanic := by
  rcases bind_eq_error.mp h with h | ⟨_, _, h⟩
  · exact ASSERT_error h
  rcases bind_eq_error.mp h with h | ⟨_, _, h⟩
  · exact ASSERT_error h
  · exact ideReadLoop_error _ _ _ h

theorem ideWriteLoop_error {buf : Mem} {lba secCnt : Nat} {e : Halt} :
    ∀ (fuel done : Nat) (d : Disk), ideWriteLoop buf lba secCnt fuel done d = .error e →
      e.IsPanic := by
  intro fuel
  induction fuel with
  | zero => intro done d h; simp [ideWriteLoop] at h
  | succ fuel ih =>
      intro done d h
      unfold ideWriteLoop at h
      split at h
      · rcases bind_eq_error.mp h with hsel | ⟨_, _, h⟩
        · exact ASSERT_error hsel
        · exact ih _ _ h
      · simp at h

theorem ideWrite_error {d : Disk} {lba secCnt : Nat} {buf : Mem} {e : Halt}
    (h : ideWrite d lba buf secCnt = .error e) : e.IsPanic := by
  rcases bind_eq_error.mp h with h | ⟨_, _, h⟩
  · exact ASSERT_error h
  rcases bind_eq_error.mp h with h | ⟨_, _, h⟩
  · exact ASSERT_error h
  · exact ideWriteLoop_error _ _ _ h

end ZyOs
