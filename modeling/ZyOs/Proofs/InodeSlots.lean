/-
The slots of the inode table, and how one is wiped.

A slot lies in one sector or in two.  `inode_delete` reads the sectors, wipes the slot in the
buffer and writes them back, so what the neighbours have in the same sectors comes back as it
was.
-/
import ZyOs.Kernel.FormatLayout
import ZyOs.Kernel.IoBuf
import ZyOs.Proofs.Effects

namespace ZyOs

open Library

theorem inodeSectors_pos (no : Nat) : 0 < inodeSectors no := by
  unfold inodeSectors
  split <;> decide

theorem inodeSectors_le (no : Nat) : inodeSectors no ≤ 2 := by
  unfold inodeSectors
  split <;> decide

/-- The slot ends in the last of them. -/
theorem slot_in_sectors (no : Nat) : no * 76 % 512 + 76 ≤ 512 * inodeSectors no := by
  unfold inodeSectors
  split <;> omega

/-- Of different slots no byte is the same. -/
theorem slots_disjoint {m n k j : Nat} (hne : m ≠ n) (hk : k < 76) (hj : j < 76) :
    76 * m + k ≠ 76 * n + j := by
  omega

/-- The last slot ends where the sectors end that `partition_format` leaves for the table. -/
theorem slot_in_table {no : Nat} (h : no < 4096) : 76 * no + 76 ≤ 512 * inodeTableSects := by
  have : inodeTableSects = 608 := by decide
  omega

/-! ### A transfer of a few sectors -/

/-- One command does it, and only where it begins is looked at. -/
theorem ideRead_one {d : Disk} {lba n : Nat} (buf : Mem) (hpos : 0 < n) (hn : n < 256)
    (hlba : lba ≤ maxLba) :
    ideRead d lba buf n = .ok (buf.splice 0 (d.drop (512 * lba)) (n * 512)) := by
  have hop : secsOp n 0 = n := if_neg (by omega)
  have hloop : ∃ r, ideReadLoop d lba n n 0 buf = .ok r := by
    obtain ⟨k, rfl⟩ : ∃ k, n = k + 1 := ⟨n - 1, by omega⟩
    rw [ideReadLoop, if_pos hpos, selectSector, ASSERT_pos (by omega), ok_bind, hop]
    cases k with
    | zero => exact ⟨_, rfl⟩
    | succ k => exact ⟨_, if_neg (by omega)⟩
  have hret : ∃ r, ideRead d lba buf n = .ok r := by
    rw [ideRead, ASSERT_pos hlba, ASSERT_pos hpos]
    exact hloop
  obtain ⟨r, hr⟩ := hret
  rw [hr, ideRead_eq hr]

theorem ideWrite_one {d : Disk} {lba n : Nat} (buf : Mem) (hpos : 0 < n) (hn : n < 256)
    (hlba : lba ≤ maxLba) :
    ideWrite d lba buf n = .ok (d.splice (512 * lba) buf (n * 512)) := by
  have hop : secsOp n 0 = n := if_neg (by omega)
  have hloop : ∃ r, ideWriteLoop buf lba n n 0 d = .ok r := by
    obtain ⟨k, rfl⟩ : ∃ k, n = k + 1 := ⟨n - 1, by omega⟩
    rw [ideWriteLoop, if_pos hpos, selectSector, ASSERT_pos (by omega), ok_bind, hop]
    cases k with
    | zero => exact ⟨_, rfl⟩
    | succ k => exact ⟨_, if_neg (by omega)⟩
  have hret : ∃ r, ideWrite d lba buf n = .ok r := by
    rw [ideWrite, ASSERT_pos hlba, ASSERT_pos hpos]
    exact hloop
  obtain ⟨r, hr⟩ := hret
  rw [hr, ideWrite_eq hr]

variable {s s' : Fs} {no : Nat} {ioBuf : Mem}

theorem readSectors_one {lba n : Nat} (buf : Mem) (hpos : 0 < n) (hn : n < 256)
    (hlba : lba ≤ maxLba) :
    readSectors lba buf n s = .ok (buf.splice 0 (s.disk.drop (512 * lba)) (n * 512), s) := by
  rw [readSectors, Prog.bind_of_run (Prog.get_run s)]
  exact Prog.lift_run.mpr ⟨ideRead_one buf hpos hn hlba, rfl⟩

theorem writeSectors_one {lba n : Nat} (buf : Mem) (hpos : 0 < n) (hn : n < 256)
    (hlba : lba ≤ maxLba) :
    writeSectors lba buf n s
      = .ok ((), { s with disk := s.disk.splice (512 * lba) buf (n * 512) }) := by
  rw [writeSectors, Prog.bind_of_run (Prog.get_run s), Prog.bind_of_run (Prog.lift_run.mpr
    ⟨ideWrite_one buf hpos hn hlba, rfl⟩)]
  rfl

/-! ### `inode_delete` -/

/-- Where the slot of an inode starts on the disk. -/
theorem slotAddr_eq (part : Partition) (no : Nat) :
    slotAddr part no = 512 * part.sb.inodeTableLba + 76 * no := rfl

/-- When it returns it has overwritten the slot with zeros. -/
theorem inodeDelete_effect {u : Unit} (h : inodeDelete no ioBuf s = .ok (u, s')) :
    s' = { s with disk := s.disk.splice (slotAddr s.part no) (fun _ => 0) Inode.size } := by
  have hwp : Prog.wp (fun _ => True) (inodeDelete no ioBuf) (fun _ t =>
      t = { s with disk := s.disk.splice (slotAddr s.part no) (fun _ => 0) Inode.size }) s :=
    wp_inodeDelete (fun _ _ => trivial) fun _ => rfl
  exact hwp.of_run h

/-- It returns when the drive has the sector the slot starts in. -/
theorem inodeDelete_returns (hno : no < 4096)
    (htable : s.part.sb.inodeTableLba + 608 ≤ s.part.startLba + s.part.secCnt)
    (hlba : s.part.sb.inodeTableLba + no * 76 / 512 ≤ maxLba) :
    ∃ s', inodeDelete no ioBuf s = .ok ((), s') := by
  have hpos := inodeSectors_pos no
  have hlt : inodeSectors no < 256 := by have := inodeSectors_le no; omega
  rw [inodeDelete, Prog.bind_of_run (assertFs_run hno _ _ s), Prog.bind_of_run (Prog.get_run s),
    Prog.bind_of_run (Prog.lift_run.mpr ⟨inodeLocate_run s.part hno, rfl⟩),
    Prog.bind_of_run (assertFs_run (by simp only; omega) _ _ s)]
  simp only [decide_eq_true_eq]
  exact ⟨_, (Prog.bind_of_run (readSectors_one ioBuf hpos hlt hlba)).trans
    (writeSectors_one _ hpos hlt hlba)⟩

/-- **`inode_delete` clears exactly one slot.**  It returns when the drive has the sector in which
the slot starts, and then the 76 bytes are zero and no other byte of the disk has changed; the
buffer needs no more than 1024 bytes.  Slots have no byte in common, and all of them lie in the
sectors of the table. -/
theorem inodeDelete_clears (s : Fs) (no : Nat) (ioBuf : Mem) (hno : no < 4096)
    (htable : s.part.sb.inodeTableLba + 608 ≤ s.part.startLba + s.part.secCnt) :
    ((∃ s', inodeDelete no ioBuf s = .ok ((), s')) ↔
      s.part.sb.inodeTableLba + no * 76 / 512 ≤ maxLba) ∧
    (∀ s', inodeDelete no ioBuf s = .ok ((), s') →
      (∀ k < 76, s'.disk (512 * s.part.sb.inodeTableLba + 76 * no + k) = 0) ∧
      ∀ i, i < 512 * s.part.sb.inodeTableLba + 76 * no ∨
        512 * s.part.sb.inodeTableLba + 76 * no + 76 ≤ i → s'.disk i = s.disk i) ∧
    (no * 76 % 512 + 76 ≤ 512 * inodeSectors no ∧ 512 * inodeSectors no ≤ 1024) ∧
    (∀ m < 4096, m ≠ no → ∀ k < 76, ∀ j < 76, 76 * m + k ≠ 76 * no + j) ∧
    76 * no + 76 ≤ 512 * inodeTableSects ∧ inodeTableSects = 608 := by
  have hle := inodeSectors_le no
  refine ⟨⟨?_, inodeDelete_returns hno htable⟩, fun s' hrun => ?_,
    ⟨slot_in_sectors no, by omega⟩, fun m _ hne k hk j hj => slots_disjoint hne hk hj,
    slot_in_table hno, by decide⟩
  · rintro ⟨s', hrun⟩
    rw [inodeDelete, Prog.bind_of_run (assertFs_run hno _ _ s), Prog.bind_of_run (Prog.get_run s),
      Prog.bind_of_run (Prog.lift_run.mpr ⟨inodeLocate_run s.part hno, rfl⟩),
      Prog.bind_of_run (assertFs_run (by simp only; omega) _ _ s)] at hrun
    obtain ⟨buf, s₁, hread, -⟩ := Prog.bind_run.mp hrun
    have hok := (Prog.lift_run.mp hread).1
    simp only [ideRead, bind_eq_ok, ASSERT_eq_ok] at hok
    obtain ⟨-, hlba, -⟩ := hok
    exact hlba
  · rw [inodeDelete_effect hrun, ← slotAddr_eq]
    constructor
    · intro k hk
      exact @Mem.splice_at _ (fun _ => 0) _ _ _ hk
    · intro i hi
      exact @Mem.splice_out _ (fun _ => 0) _ _ _ hi

theorem inodeDelete_clears_seven :
    ∃ s', inodeDelete 7 (fun _ => 0) emptyFs = .ok ((), s') :=
  (inodeDelete_clears emptyFs 7 (fun _ => 0) (by decide) (by decide)).1.mpr (by decide)

end ZyOs
