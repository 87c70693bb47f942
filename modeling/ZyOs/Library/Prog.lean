/-
Programs over a state.

`Prog σ ε α` is code that reads and writes a state, may stop with an error, and
returns a value: `StateT` over `Except`.  A run is an application `x s`.  The
lemmas here take a run apart (`bind_run`) and read off the primitive steps.  `wp` is
the weakest precondition: it says of a start state what the run may return and with
which errors it may stop, and its rules walk through a program from the front.
-/
import ZyOs.Library.Outcome

namespace Library

/-- Code over a state `σ` that may stop with `ε`. -/
abbrev Prog (σ ε α : Type) := StateT σ (Except ε) α

namespace Prog

variable {σ ε α β : Type}

/-- A bind runs its first part and goes on from where that part ended. -/
theorem bind_run {x : Prog σ ε α} {f : α → Prog σ ε β} {s : σ} {r : β × σ} :
    (x >>= f) s = .ok r ↔ ∃ a s', x s = .ok (a, s') ∧ f a s' = .ok r := by
  show (x s >>= fun p => f p.1 p.2) = .ok r ↔ _
  rw [bind_eq_ok]
  constructor
  · rintro ⟨⟨a, s'⟩, hx, hf⟩
    exact ⟨a, s', hx, hf⟩
  · rintro ⟨a, s', hx, hf⟩
    exact ⟨(a, s'), hx, hf⟩

/-- A first part that returns is replaced by what it returned. -/
theorem bind_of_run {x : Prog σ ε α} {f : α → Prog σ ε β} {s s' : σ} {a : α}
    (h : x s = .ok (a, s')) : (x >>= f) s = f a s' := by
  show (x s >>= fun p => f p.1 p.2) = _
  rw [h]
  rfl

/-- A first part that stops stops the whole. -/
theorem bind_of_error {x : Prog σ ε α} {f : α → Prog σ ε β} {s : σ} {e : ε}
    (h : x s = .error e) : (x >>= f) s = .error e := by
  show (x s >>= fun p => f p.1 p.2) = _
  rw [h]
  rfl

@[simp] theorem pure_run (a : α) (s : σ) : (pure a : Prog σ ε α) s = .ok (a, s) := rfl

@[simp] theorem get_run (s : σ) : (get : Prog σ ε σ) s = .ok (s, s) := rfl

@[simp] theorem set_run (s' s : σ) : (set s' : Prog σ ε PUnit) s = .ok (⟨⟩, s') := rfl

@[simp] theorem modify_run (f : σ → σ) (s : σ) :
    (modify f : Prog σ ε PUnit) s = .ok (⟨⟩, f s) := rfl

/-- Code that does not touch the state. -/
def lift (x : Except ε α) : Prog σ ε α := fun s => x >>= fun a => .ok (a, s)

theorem lift_run {x : Except ε α} {s s' : σ} {a : α} :
    (lift x : Prog σ ε α) s = .ok (a, s') ↔ x = .ok a ∧ s' = s := by
  unfold lift
  cases x with
  | error e => simp
  | ok b => simp [eq_comm]

@[simp] theorem lift_ok (a : α) (s : σ) : (lift (.ok a) : Prog σ ε α) s = .ok (a, s) := rfl

/-! ### Running -/

/-- What a program returns. -/
def answer (x : Prog σ ε α) (s : σ) : Option α :=
  match x s with
  | .ok (a, _) => some a
  | .error _ => none

/-- The state it leaves. -/
def after (x : Prog σ ε α) (s : σ) : σ :=
  match x s with
  | .ok (_, s') => s'
  | .error _ => s

theorem run_of_answer {x : Prog σ ε α} {s : σ} {a : α} (h : answer x s = some a) :
    x s = .ok (a, after x s) := by
  unfold answer at h
  unfold after
  cases hx : x s with
  | ok r =>
      simp only [hx, Option.some.injEq] at h
      rw [← h]
  | error e => simp [hx] at h

/-! ### Weakest preconditions -/

/-- Started in `s`, `x` returns in a state that satisfies `Q` or stops with an error
that `E` allows. -/
def wp (E : ε → Prop) (x : Prog σ ε α) (Q : α → σ → Prop) (s : σ) : Prop :=
  match x s with
  | .ok (a, s') => Q a s'
  | .error e => E e

section Wp

variable {E : ε → Prop} {x : Prog σ ε α} {f : α → Prog σ ε β} {Q Q' : α → σ → Prop}
  {R : β → σ → Prop} {s s' : σ} {a : α} {e : ε}

/-- What is proved of a program holds of what it returns. -/
theorem wp.of_run (h : wp E x Q s) (hrun : x s = .ok (a, s')) : Q a s' := by
  unfold wp at h
  rw [hrun] at h
  exact h

theorem wp.of_error (h : wp E x Q s) (hrun : x s = .error e) : E e := by
  unfold wp at h
  rw [hrun] at h
  exact h

/-- Nothing stops a program that may not stop with an error. -/
theorem wp.returns (h : wp (fun _ => False) x Q s) : ∃ r, x s = .ok r := by
  cases hrun : x s with
  | error e => exact (h.of_error hrun).elim
  | ok r => exact ⟨r, rfl⟩

theorem wp_of_run (hrun : x s = .ok (a, s')) (h : Q a s') : wp E x Q s := by
  unfold wp
  rw [hrun]
  exact h

/-- When any error is allowed, only what is returned counts. -/
theorem wp_of_returns (h : ∀ a s', x s = .ok (a, s') → Q a s') : wp (fun _ => True) x Q s := by
  unfold wp
  cases hrun : x s with
  | error e => trivial
  | ok r => exact h r.1 r.2 hrun

theorem wp_mono (h : wp E x Q s) (hQ : ∀ a s', Q a s' → Q' a s') : wp E x Q' s := by
  unfold wp at *
  cases hx : x s with
  | error e => simpa [hx] using h
  | ok r =>
      rw [hx] at h
      exact hQ _ _ h

theorem wp_and (h : wp E x Q s) (h' : wp E x Q' s) : wp E x (fun a s' => Q a s' ∧ Q' a s') s := by
  unfold wp at *
  cases hx : x s with
  | error e => simpa [hx] using h
  | ok r =>
      rw [hx] at h h'
      exact ⟨h, h'⟩

/-- What is known of all that is returned goes with it. -/
theorem wp_and_returns (h : wp E x Q s) (h' : wp (fun _ => True) x Q' s) :
    wp E x (fun a s' => Q a s' ∧ Q' a s') s := by
  unfold wp at *
  cases hx : x s with
  | error e => simpa [hx] using h
  | ok r =>
      rw [hx] at h h'
      exact ⟨h, h'⟩

/-- What allows no error and no result does not happen; an error is allowed. -/
theorem ne_ok_of_wp (h : wp (fun _ => True) x (fun _ _ => False) s) : x s ≠ .ok (a, s') :=
  fun hrun => h.of_run hrun

/-- What is known of the run may be used afterwards. -/
theorem wp_run (h : wp E x Q s) : wp E x (fun a s' => x s = .ok (a, s') ∧ Q a s') s := by
  cases hrun : x s with
  | error e =>
      have herr := h.of_error hrun
      unfold wp
      rw [hrun]
      exact herr
  | ok r => exact wp_of_run hrun ⟨rfl, h.of_run hrun⟩

theorem wp_bind (h : wp E x (fun a s' => wp E (f a) R s') s) : wp E (x >>= f) R s := by
  unfold wp at h
  cases hx : x s with
  | error e =>
      rw [hx] at h
      unfold wp
      rw [bind_of_error hx]
      exact h
  | ok r =>
      rw [hx] at h
      unfold wp
      rw [bind_of_run (show x s = .ok (r.1, r.2) from hx)]
      exact h

theorem wp_pure (h : Q a s) : wp E (pure a) Q s := h

theorem wp_get_bind {f : σ → Prog σ ε β} (h : wp E (f s) R s) : wp E (get >>= f) R s :=
  wp_bind h

theorem wp_modify {g : σ → σ} {Q : PUnit → σ → Prop} (h : Q ⟨⟩ (g s)) : wp E (modify g) Q s := h

theorem wp_set {t : σ} {Q : PUnit → σ → Prop} (h : Q ⟨⟩ t) : wp E (set t) Q s := h

theorem wp_lift {y : Except ε α} (hok : ∀ a, y = .ok a → Q a s) (herr : ∀ e, y = .error e → E e) :
    wp E (lift y) Q s := by
  unfold wp lift
  cases y with
  | error e => exact herr e rfl
  | ok a => exact hok a rfl

theorem wp_ite {c : Prop} [Decidable c] {x y : Prog σ ε α} (hx : c → wp E x Q s)
    (hy : ¬ c → wp E y Q s) : wp E (if c then x else y) Q s := by
  by_cases hc : c
  · rw [if_pos hc]; exact hx hc
  · rw [if_neg hc]; exact hy hc

end Wp

/-! ### Invariants of a program -/

/-- Every run of `x` that returns keeps `P`. -/
def Preserves (P : σ → Prop) (x : Prog σ ε α) : Prop :=
  ∀ s a s', P s → x s = .ok (a, s') → P s'

namespace Preserves

variable {P : σ → Prop} {x : Prog σ ε α} {f : α → Prog σ ε β}

protected theorem pure (a : α) : Preserves P (pure a : Prog σ ε α) := by
  intro s b s' hs hrun
  simp only [pure_run, Except.ok.injEq, Prod.mk.injEq] at hrun
  exact hrun.2 ▸ hs

protected theorem lift (y : Except ε α) : Preserves P (lift y : Prog σ ε α) := by
  intro s a s' hs hrun
  exact (lift_run.mp hrun).2 ▸ hs

/-- A computation without a state in front. -/
protected theorem lift_bind {y : Except ε α} (hf : ∀ a, y = .ok a → Preserves P (f a)) :
    Preserves P (Prog.lift y >>= f) := by
  intro s b s' hs hrun
  obtain ⟨a, s₁, hy, hrest⟩ := bind_run.mp hrun
  obtain ⟨hya, rfl⟩ := lift_run.mp hy
  exact hf a hya _ b s' hs hrest

protected theorem bind (hx : Preserves P x) (hf : ∀ a, Preserves P (f a)) :
    Preserves P (x >>= f) := by
  intro s b s' hs hrun
  obtain ⟨a, s₁, h1, h2⟩ := bind_run.mp hrun
  exact hf a s₁ b s' (hx s a s₁ hs h1) h2

/-- What is read off the state is read off a state that satisfies the invariant. -/
protected theorem get_bind {f : σ → Prog σ ε β} (hf : ∀ s, P s → Preserves P (f s)) :
    Preserves P (get >>= f) := fun s b s' hs hrun => hf s hs s b s' hs hrun

protected theorem modify {g : σ → σ} (hg : ∀ s, P s → P (g s)) :
    Preserves P (modify g : Prog σ ε PUnit) := by
  intro s a s' hs hrun
  simp only [modify_run, Except.ok.injEq, Prod.mk.injEq] at hrun
  exact hrun.2 ▸ hg s hs

protected theorem set {t : σ} (ht : P t) : Preserves P (set t : Prog σ ε PUnit) := by
  intro s a s' _ hrun
  simp only [set_run, Except.ok.injEq, Prod.mk.injEq] at hrun
  exact hrun.2 ▸ ht

protected theorem ite {c : Prop} [Decidable c] {x y : Prog σ ε α} (hx : c → Preserves P x)
    (hy : ¬ c → Preserves P y) : Preserves P (if c then x else y) := by
  by_cases hc : c
  · rw [if_pos hc]; exact hx hc
  · rw [if_neg hc]; exact hy hc

/-- What every run from a state of the invariant ends in. -/
theorem of_wp (h : ∀ s, P s → Prog.wp (fun _ => True) x (fun _ => P) s) : Preserves P x :=
  fun s _ _ hs hrun => (h s hs).of_run hrun

/-- The invariant goes into a weakest precondition. -/
theorem wp (hx : Preserves P x) {s : σ} (hs : P s) : wp (fun _ => True) x (fun _ => P) s :=
  wp_of_returns fun a s' hrun => hx s a s' hs hrun

end Preserves

end Prog

end Library
