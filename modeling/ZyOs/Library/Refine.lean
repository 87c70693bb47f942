/-
Refinement between programs.

Two programs over different states go together: where the first one stops, the second one stops
with the same error, and where the first one returns, the second one returns, with results and
states related by `R`.  The rules walk through both from the front; a part that only one of them
has is run on its own side (`left`, `right`).
-/
import ZyOs.Library.Prog

namespace Library

namespace Prog

variable {σ τ ε α β γ δ : Type}

/-- `y` from `t` does what `x` does from `s`. -/
def Refines (R : α → σ → β → τ → Prop) (x : Prog σ ε α) (y : Prog τ ε β) (s : σ) (t : τ) : Prop :=
  match x s with
  | .ok (a, s') => ∃ b t', y t = .ok (b, t') ∧ R a s' b t'
  | .error e => y t = .error e

namespace Refines

variable {R R' : α → σ → β → τ → Prop} {T : γ → σ → δ → τ → Prop} {x : Prog σ ε α}
  {y : Prog τ ε β} {f : α → Prog σ ε γ} {g : β → Prog τ ε δ} {s s' : σ} {t t' : τ} {a : α} {b : β}
  {e : ε}

theorem of_run (hx : x s = .ok (a, s')) (hy : y t = .ok (b, t')) (h : R a s' b t') :
    Refines R x y s t := by
  unfold Refines
  rw [hx]
  exact ⟨b, t', hy, h⟩

theorem of_error (hx : x s = .error e) (hy : y t = .error e) : Refines R x y s t := by
  unfold Refines
  rw [hx]
  exact hy

/-- What the first program returns, the second one returns. -/
theorem run (h : Refines R x y s t) (hx : x s = .ok (a, s')) :
    ∃ b t', y t = .ok (b, t') ∧ R a s' b t' := by
  unfold Refines at h
  rw [hx] at h
  exact h

/-- What the second program returns, the first one has returned. -/
theorem run_of (h : Refines R x y s t) (hy : y t = .ok (b, t')) :
    ∃ a s', x s = .ok (a, s') ∧ R a s' b t' := by
  unfold Refines at h
  cases hx : x s with
  | error e =>
      rw [hx] at h
      rw [h] at hy
      cases hy
  | ok r =>
      rw [hx] at h
      obtain ⟨b', t'', hrun, hR⟩ := h
      rw [hrun] at hy
      cases hy
      exact ⟨r.1, r.2, rfl, hR⟩

theorem error_of (h : Refines R x y s t) (hy : y t = .error e) : x s = .error e := by
  unfold Refines at h
  cases hx : x s with
  | error e' =>
      rw [hx] at h
      exact congrArg Except.error (Except.error.inj (h.symm.trans hy))
  | ok r =>
      rw [hx] at h
      obtain ⟨b', t'', hrun, -⟩ := h
      rw [hrun] at hy
      cases hy

protected theorem pure (h : R a s b t) :
    Refines R (pure a : Prog σ ε α) (pure b : Prog τ ε β) s t := of_run rfl rfl h

theorem mono (h : Refines R x y s t) (hR : ∀ a s' b t', R a s' b t' → R' a s' b t') :
    Refines R' x y s t := by
  unfold Refines at *
  cases hx : x s with
  | error e => simpa [hx] using h
  | ok r =>
      rw [hx] at h
      obtain ⟨b, t', hrun, hr⟩ := h
      exact ⟨b, t', hrun, hR _ _ _ _ hr⟩

protected theorem bind (h : Refines R x y s t)
    (hrest : ∀ a s' b t', R a s' b t' → Refines T (f a) (g b) s' t') :
    Refines T (x >>= f) (y >>= g) s t := by
  unfold Refines at h
  cases hx : x s with
  | error e =>
      rw [hx] at h
      exact of_error (bind_of_error hx) (bind_of_error h)
  | ok r =>
      rw [hx] at h
      obtain ⟨b, t', hrun, hr⟩ := h
      have hgo := hrest r.1 r.2 b t' hr
      unfold Refines at hgo ⊢
      rw [bind_of_run (show x s = .ok (r.1, r.2) from hx), bind_of_run hrun]
      exact hgo

/-- The first program goes on alone. -/
theorem left {z : Prog τ ε δ} (hx : x s = .ok (a, s')) (h : Refines T (f a) z s' t) :
    Refines T (x >>= f) z s t := by
  unfold Refines at h ⊢
  rw [bind_of_run hx]
  exact h

/-- The second program goes on alone. -/
theorem right {z : Prog σ ε γ} (hy : y t = .ok (b, t')) (h : Refines T z (g b) s t') :
    Refines T z (y >>= g) s t := by
  unfold Refines at h ⊢
  rw [bind_of_run hy]
  exact h

/-- The first program does something to its result. -/
theorem map_left {U : γ → σ → β → τ → Prop} {c : α → γ}
    (h : Refines (fun a => U (c a)) x y s t) :
    Refines U (x >>= fun a => Pure.pure (c a)) y s t := by
  rw [← bind_pure y]
  exact h.bind fun _ _ _ _ hr => .pure hr

/-- Both compute the same, and neither touches its state. -/
theorem lift_bind {z : Except ε α} {g : α → Prog τ ε δ}
    (h : ∀ a, z = .ok a → Refines T (f a) (g a) s t) :
    Refines T (Prog.lift z >>= f) (Prog.lift z >>= g) s t := by
  cases z with
  | error e => exact of_error rfl rfl
  | ok a => exact left rfl (right rfl (h a rfl))

/-- What is known of the first program goes with its results. -/
theorem with_wp {E : ε → Prop} {Q : α → σ → Prop} (h : Refines R x y s t) (hx : wp E x Q s) :
    Refines (fun a s' b t' => R a s' b t' ∧ Q a s') x y s t := by
  unfold Refines at *
  cases hrun : x s with
  | error e => simpa [hrun] using h
  | ok r =>
      rw [hrun] at h
      obtain ⟨b, t', hy, hr⟩ := h
      exact ⟨b, t', hy, hr, hx.of_run hrun⟩

theorem ite {c d : Prop} [Decidable c] [Decidable d] {x' : Prog σ ε α} {y' : Prog τ ε β}
    (hcd : c ↔ d) (hpos : c → Refines R x y s t) (hneg : ¬ c → Refines R x' y' s t) :
    Refines R (if c then x else x') (if d then y else y') s t := by
  by_cases hc : c
  · rw [if_pos hc, if_pos (hcd.mp hc)]
    exact hpos hc
  · rw [if_neg hc, if_neg (mt hcd.mpr hc)]
    exact hneg hc

/-- Both check something under a condition, and go on alike. -/
theorem guard {c d : Prop} [Decidable c] [Decidable d] {x : Prog σ ε PUnit} {y : Prog τ ε PUnit}
    {z : Prog σ ε γ} {z' : Prog τ ε δ} (hcd : c ↔ d) (hx : c → x s = .ok (.unit, s))
    (hy : c → y t = .ok (.unit, t)) (h : Refines T z z' s t) :
    Refines T (if c then x >>= fun _ => z else z) (if d then y >>= fun _ => z' else z') s t :=
  .ite hcd (fun hc => .left (hx hc) (.right (hy hc) h)) fun _ => h

end Refines

end Prog

end Library
