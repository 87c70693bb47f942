/-
Running the primitive steps of file-system code.

Each primitive comes with two lemmas: `_run` says what it does when it is called
as it should be, `_ok` what must have happened when it did return.
-/
import ZyOs.Kernel.FsState
import ZyOs.Proofs.Ide

namespace ZyOs

open Library

variable {s s' : Fs}

theorem assertFs_run {c : Prop} [Decidable c] (h : c) (func condition : String) (s : Fs) :
    assertFs c func condition s = .ok ((), s) :=
  Prog.lift_run.mpr ⟨ASSERT_pos h func condition, rfl⟩

theorem assertFs_ok {c : Prop} [Decidable c] {func condition : String} {u : Unit}
    (h : assertFs c func condition s = .ok (u, s')) : c ∧ s' = s := by
  obtain ⟨h1, h2⟩ := Prog.lift_run.mp h
  exact ⟨ASSERT_eq_ok.mp h1, h2⟩

theorem readSectors_run (s : Fs) {lba n : Nat} (buf : Mem) (hpos : 0 < n)
    (hend : lba + n ≤ maxLba + 1) :
    readSectors lba buf n s = .ok (buf.splice 0 (s.disk.drop (512 * lba)) (n * 512), s) := by
  unfold readSectors
  rw [Prog.bind_of_run (Prog.get_run s)]
  exact Prog.lift_run.mpr ⟨ideRead_returns s.disk buf hpos hend, rfl⟩

theorem readSectors_ok {lba n : Nat} {buf m : Mem} (h : readSectors lba buf n s = .ok (m, s')) :
    m = buf.splice 0 (s.disk.drop (512 * lba)) (n * 512) ∧ s' = s := by
  unfold readSectors at h
  rw [Prog.bind_of_run (Prog.get_run s)] at h
  obtain ⟨h1, h2⟩ := Prog.lift_run.mp h
  exact ⟨ideRead_eq h1, h2⟩

theorem writeSectors_run (s : Fs) {lba n : Nat} (buf : Mem) (hpos : 0 < n)
    (hend : lba + n ≤ maxLba + 1) :
    writeSectors lba buf n s
      = .ok ((), { s with disk := s.disk.splice (512 * lba) buf (n * 512) }) := by
  unfold writeSectors
  rw [Prog.bind_of_run (Prog.get_run s), Prog.bind_of_run (Prog.lift_run.mpr
    ⟨ideWrite_returns s.disk buf hpos hend, rfl⟩)]
  rfl

/-! ### Weakest preconditions

An assertion is allowed to stop the run (`hE`); a fault is not, unless `E` says so. -/

section Wp

variable {E : Halt → Prop} (hE : ∀ e : Halt, e.IsPanic → E e)
include hE

theorem wp_assertFs {c : Prop} [Decidable c] {func condition : String} {Q : Unit → Fs → Prop}
    (h : c → Q () s) : Prog.wp E (assertFs c func condition) Q s :=
  Prog.wp_lift (fun _ hok => h (ASSERT_eq_ok.mp hok)) fun e he => hE e (ASSERT_error he)

theorem wp_readSectors {lba n : Nat} {buf : Mem} {Q : Mem → Fs → Prop}
    (h : Q (buf.splice 0 (s.disk.drop (512 * lba)) (n * 512)) s) :
    Prog.wp E (readSectors lba buf n) Q s := by
  refine Prog.wp_get_bind (Prog.wp_lift (fun m hok => ?_) fun e he => hE e (ideRead_error he))
  rw [ideRead_eq hok]
  exact h

theorem wp_writeSectors {lba n : Nat} {buf : Mem} {Q : Unit → Fs → Prop}
    (h : Q () { s with disk := s.disk.splice (512 * lba) buf (n * 512) }) :
    Prog.wp E (writeSectors lba buf n) Q s := by
  refine Prog.wp_get_bind (Prog.wp_bind (Prog.wp_lift (fun d hok => ?_)
    fun e he => hE e (ideWrite_error he)))
  rw [ideWrite_eq hok]
  exact h

end Wp

end ZyOs
