/-
How the kernel stops: `kernel/debug.h`.

A failing `ASSERT` calls `panic_spin`, which prints where it stood and never
returns.  The function's name and the condition's text are what it prints, so
they are kept.  `fault` and `hang` are not in the source: one is an access outside the
object a pointer was taken from, after which C promises nothing, the other a loop
that is never left.
-/
import ZyOs.Library.Outcome

namespace ZyOs

/-- Why the kernel did not return. -/
inductive Halt where
  /-- `panic_spin` was reached in `func` with the text `condition`. -/
  | panic (func condition : String)
  /-- An access outside the object. -/
  | fault (func : String)
  /-- A loop that goes on for ever. -/
  | hang (func : String)
deriving DecidableEq, Repr

/-- Kernel code that may stop. -/
abbrev Kernel (α : Type) := Except Halt α

/-- `ASSERT(c)` inside `func`. -/
def ASSERT (c : Prop) [Decidable c] (func condition : String) : Kernel Unit :=
  if c then .ok () else .error (.panic func condition)

theorem ASSERT_eq_ok {c : Prop} [Decidable c] {func condition : String} {u : Unit} :
    ASSERT c func condition = .ok u ↔ c := by
  unfold ASSERT
  split <;> simp_all

theorem ASSERT_pos {c : Prop} [Decidable c] (h : c) (func condition : String) :
    ASSERT c func condition = .ok () := if_pos h

theorem ASSERT_neg {c : Prop} [Decidable c] (h : ¬ c) (func condition : String) :
    ASSERT c func condition = .error (.panic func condition) := if_neg h

/-- An `ASSERT` stopped the kernel. -/
def Halt.IsPanic : Halt → Prop
  | .panic _ _ => True
  | .fault _ => False
  | .hang _ => False

theorem ASSERT_error {c : Prop} [Decidable c] {func condition : String} {e : Halt}
    (h : ASSERT c func condition = .error e) : e.IsPanic := by
  unfold ASSERT at h
  split at h
  · exact absurd h (by simp)
  · rw [← Except.error.inj h]
    trivial

end ZyOs
