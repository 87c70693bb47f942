/-
Runs of a predicate on the natural numbers.

`IsRun p i n` says that `p` holds of the `n` numbers from `i` on.  Whoever looks for a run of a
given length from the front needs one number to do it, the length of the run that ends where he
stands: `Streak p next count`.  A streak grows by one or starts again at 0, and a run of `n` ends
at `next` exactly when the streak there has reached `n`.
-/
import Mathlib.Tactic

namespace Library

variable {p : Nat → Prop} {i k n m next count : Nat}

/-- `p` holds of the `n` numbers from `i` on. -/
def IsRun (p : Nat → Prop) (i n : Nat) : Prop := ∀ k < n, p (i + k)

instance (p : Nat → Prop) [DecidablePred p] (i n : Nat) : Decidable (IsRun p i n) :=
  inferInstanceAs (Decidable (∀ k < n, p (i + k)))

namespace IsRun

theorem mono (h : IsRun p i n) (hm : m ≤ n) : IsRun p i m := fun k hk => h k (by omega)

theorem mem (h : IsRun p i n) (hi : i ≤ k) (hk : k < i + n) : p k := by
  have := h (k - i) (by omega)
  rwa [show i + (k - i) = k by omega] at this

theorem one : IsRun p i 1 ↔ p i :=
  ⟨fun h => h.mem (Nat.le_refl i) (by omega), fun h k hk => by rwa [show i + k = i by omega]⟩

/-- Of the runs that end early enough one begins first. -/
theorem exists_first {last : Nat} (h : ∃ i, i + n ≤ last ∧ IsRun p i n) :
    ∃ i, i + n ≤ last ∧ IsRun p i n ∧ ∀ k < i, ¬ IsRun p k n := by
  classical
  obtain ⟨hle, hrun⟩ := Nat.find_spec h
  refine ⟨Nat.find h, hle, hrun, fun k hk hrunk => Nat.find_min h hk ⟨by omega, hrunk⟩⟩

end IsRun

/-- The run that ends in front of `next` has length `count`. -/
structure Streak (p : Nat → Prop) (next count : Nat) : Prop where
  le : count ≤ next
  holds : ∀ k, next - count ≤ k → k < next → p k
  edge : count < next → ¬ p (next - count - 1)

namespace Streak

theorem start (hp : p i) (hbelow : ∀ k < i, ¬ p k) : Streak p (i + 1) 1 where
  le := by omega
  holds k hk hk' := by rwa [show k = i by omega]
  edge hlt := hbelow _ (by omega)

theorem grow (h : Streak p next count) (hp : p next) : Streak p (next + 1) (count + 1) where
  le := Nat.succ_le_succ h.le
  holds k hk hk' := by
    rcases Nat.lt_succ_iff_lt_or_eq.mp hk' with hlt | rfl
    · exact h.holds k (by omega) hlt
    · exact hp
  edge hlt := by
    have := h.edge (by omega)
    rwa [show next + 1 - (count + 1) - 1 = next - count - 1 by omega]

theorem stop (hp : ¬ p next) : Streak p (next + 1) 0 where
  le := Nat.zero_le _
  holds k hk hk' := by omega
  edge _ := by simpa using hp

/-- The runs that end in front of `next` are those the streak is long enough for. -/
theorem isRun_iff (h : Streak p next count) (hk : k + n = next) : IsRun p k n ↔ n ≤ count := by
  constructor
  · intro hrun
    by_contra hlt
    have hle := h.le
    exact h.edge (by omega) (hrun.mem (by omega) (by omega))
  · intro hle j hj
    exact h.holds _ (by omega) (by omega)

end Streak

end Library
