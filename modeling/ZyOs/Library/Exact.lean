/-
When exactly a program returns.

`Granted E C` says either that the condition `C` holds or that any error is allowed.  A
specification under it is proved once and read twice: with no error allowed it says that the
program returns when `C` holds, with all of them that `C` held when it returned.
-/
import ZyOs.Library.Prog

namespace Library.Prog

variable {σ ε α : Type} {E : ε → Prop} {C D : Prop} {x : Prog σ ε α} {Q : α → σ → Prop} {s : σ}

/-- `C` holds, or any error is allowed. -/
def Granted (E : ε → Prop) (C : Prop) : Prop := C ∨ ∀ e, E e

theorem Granted.imp (h : Granted E C) (hCD : C → D) : Granted E D := h.imp_left hCD

theorem Granted.of (h : C) : Granted E C := .inl h

/-- What was granted and is not so leaves every error allowed. -/
theorem Granted.any (h : Granted E C) (hC : ¬ C) (e : ε) : E e := h.resolve_left hC e

/-- Without the condition only what is returned counts. -/
theorem Granted.wp_of_not (h : Granted E C) (hC : ¬ C) (hQ : ∀ a s', x s = .ok (a, s') → Q a s') :
    wp E x Q s := by
  unfold wp
  cases hrun : x s with
  | error e => exact h.any hC e
  | ok r => exact hQ r.1 r.2 hrun

/-- A program that returns just when the condition holds. -/
theorem Granted.wp_of_iff (h : Granted E C) (hiff : (∃ r, x s = .ok r) ↔ C)
    (hx : wp (fun _ => True) x Q s) : wp E x (fun a s' => C ∧ Q a s') s := by
  by_cases hC : C
  · obtain ⟨r, hrun⟩ := hiff.mpr hC
    exact wp_of_run hrun ⟨hC, hx.of_run hrun⟩
  · exact h.wp_of_not hC fun a s' hrun => absurd (hiff.mp ⟨_, hrun⟩) hC

/-- **A specification under a condition says when a program returns as it should.** -/
theorem returns_iff (h : ∀ E, Granted E C → wp E x (fun a s' => Q a s' ↔ C) s) :
    (∃ a s', x s = .ok (a, s') ∧ Q a s') ↔ C := by
  constructor
  · rintro ⟨a, s', hrun, hQ⟩
    exact ((h (fun _ => True) (.inr fun _ => trivial)).of_run hrun).mp hQ
  · intro hC
    have hwp := h (fun _ => False) (.inl hC)
    obtain ⟨⟨a, s'⟩, hrun⟩ := hwp.returns
    exact ⟨a, s', hrun, (hwp.of_run hrun).mpr hC⟩

end Library.Prog
