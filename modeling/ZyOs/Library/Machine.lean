/-
Machines that take one action after another.

A machine has states it may start in and actions; an action is enabled or not, and it is a
program that may stop with an error.  Several tasks are one machine whose actions say which
task goes on: a run is then an interleaving.  What each action keeps is kept by a run
(`Reach.invariant`), and what no action does from a state with the invariant never happens
(`Reach.errors`).  `Ok` restricts the actions that are looked at, for what holds only as
long as nobody leaves a condition.
-/
import ZyOs.Library.Prog

namespace Library

/-- States to start in, and what may happen next. -/
structure Machine (σ α ε : Type) where
  init : σ → Prop
  enabled : σ → α → Prop
  exec : α → Prog σ ε Unit

namespace Machine

variable {σ α ε : Type} {M : Machine σ α ε} {Ok Ok' : σ → α → Prop} {Inv : σ → Prop} {E : ε → Prop}
  {s s' : σ} {a : α} {e : ε} {hist : List (σ × α)}

variable (M) in
/-- The states of the runs whose actions satisfy `Ok`. -/
inductive Reach (Ok : σ → α → Prop) : σ → Prop where
  | start {s : σ} : M.init s → Reach Ok s
  | next {s s' : σ} {a : α} : Reach Ok s → M.enabled s a → Ok s a → M.exec a s = .ok ((), s') →
      Reach Ok s'

variable (M) in
/-- The runs, each with its actions and the states they were taken in, the last one first. -/
inductive Run : List (σ × α) → σ → Prop where
  | start {s : σ} : M.init s → Run [] s
  | next {hist : List (σ × α)} {s s' : σ} {a : α} : Run hist s → M.enabled s a →
      M.exec a s = .ok ((), s') → Run ((s, a) :: hist) s'

/-- An invariant of every action is one of every run. -/
theorem Reach.invariant (hinit : ∀ s, M.init s → Inv s)
    (hstep : ∀ s a, Inv s → M.enabled s a → Ok s a → Prog.wp E (M.exec a) (fun _ => Inv) s)
    (h : M.Reach Ok s) : Inv s := by
  induction h with
  | start h => exact hinit _ h
  | next _ hen hok hrun ih => exact (hstep _ _ ih hen hok).of_run hrun

/-- An action that stops, stops as the invariant allows. -/
theorem Reach.errors (hinit : ∀ s, M.init s → Inv s)
    (hstep : ∀ s a, Inv s → M.enabled s a → Ok s a → Prog.wp E (M.exec a) (fun _ => Inv) s)
    (h : M.Reach Ok s) (hen : M.enabled s a) (hok : Ok s a) (hrun : M.exec a s = .error e) : E e :=
  (hstep _ _ (h.invariant hinit hstep) hen hok).of_error hrun

theorem Reach.mono (hOk : ∀ s a, Ok s a → Ok' s a) (h : M.Reach Ok s) : M.Reach Ok' s := by
  induction h with
  | start h => exact .start h
  | next _ hen hok hrun ih => exact .next ih hen (hOk _ _ hok) hrun

theorem Run.reach (h : M.Run hist s) (hok : ∀ p ∈ hist, Ok p.1 p.2) : M.Reach Ok s := by
  induction h with
  | start h => exact .start h
  | next _ hen hrun ih =>
      exact .next (ih fun p hp => hok p (List.mem_cons_of_mem _ hp)) hen
        (hok _ List.mem_cons_self) hrun

theorem Reach.run (h : M.Reach Ok s) : ∃ hist, M.Run hist s ∧ ∀ p ∈ hist, Ok p.1 p.2 := by
  induction h with
  | start h => exact ⟨[], .start h, fun _ hp => by cases hp⟩
  | next _ hen hok hrun ih =>
      obtain ⟨hist, hr, hall⟩ := ih
      exact ⟨_, hr.next hen hrun, List.forall_mem_cons.mpr ⟨hok, hall⟩⟩

/-! ### Single steps, and runs from anywhere -/

variable (M) in
/-- Every step of every run is one of `R`. -/
def Steps (Ok : σ → α → Prop) (R : σ → α → σ → Prop) : Prop :=
  ∀ s a s', M.Reach Ok s → M.enabled s a → Ok s a → M.exec a s = .ok ((), s') → R s a s'

variable (M) in
/-- A run that goes on from `s`. -/
inductive Path (Ok : σ → α → Prop) (s : σ) : σ → Prop where
  | nil : Path Ok s s
  | next {s₁ s₂ : σ} {a : α} : Path Ok s s₁ → M.enabled s₁ a → Ok s₁ a → M.exec a s₁ = .ok ((), s₂) →
      Path Ok s s₂

variable {R : σ → α → σ → Prop} {T : σ → σ → Prop}

/-- What an action does from a state with the invariant, every step of every run does. -/
theorem Steps.of_invariant (hinit : ∀ s, M.init s → Inv s)
    (hstep : ∀ s a, Inv s → M.enabled s a → Ok s a → Prog.wp E (M.exec a) (fun _ s' => Inv s' ∧ R s a s') s) :
    M.Steps Ok R := by
  intro s a s' hreach hen hok hrun
  have hinv : Inv s := hreach.invariant hinit fun s a hs hen hok =>
    Prog.wp_mono (hstep s a hs hen hok) fun _ _ h => h.1
  exact ((hstep s a hinv hen hok).of_run hrun).2

theorem Path.reach (hpath : M.Path Ok' s s') (hOk : ∀ s a, Ok' s a → Ok s a) (h : M.Reach Ok s) :
    M.Reach Ok s' := by
  induction hpath with
  | nil => exact h
  | next _ hen hok hrun ih => exact .next ih hen (hOk _ _ hok) hrun

/-- A relation that composes holds between the ends of a run when it holds for its steps. -/
theorem Path.rel (hrefl : ∀ s, T s s) (htrans : ∀ s₁ s₂ s₃, T s₁ s₂ → T s₂ s₃ → T s₁ s₃)
    (hOk : ∀ s a, Ok' s a → Ok s a) (hsteps : M.Steps Ok fun s a s' => Ok' s a → T s s')
    (h : M.Reach Ok s) (hpath : M.Path Ok' s s') : T s s' := by
  induction hpath with
  | nil => exact hrefl s
  | next hp hen hok hrun ih =>
      exact htrans _ _ _ ih (hsteps _ _ _ (hp.reach hOk h) hen (hOk _ _ hok) hrun hok)

/-! ### Schedules -/

variable (M) in
/-- The actions of a schedule, one after the other; nothing when one of them cannot happen. -/
def play [∀ s a, Decidable (M.enabled s a)] : List α → σ → Option σ
  | [], s => some s
  | a :: as, s =>
      if M.enabled s a then
        match M.exec a s with
        | .ok (_, s') => play as s'
        | .error _ => none
      else none

theorem reach_of_play [∀ s a, Decidable (M.enabled s a)] : ∀ {as : List α} {s s' : σ},
    M.Reach (fun _ _ => True) s → M.play as s = some s' → M.Reach (fun _ _ => True) s' := by
  intro as
  induction as with
  | nil =>
      intro s s' h hplay
      exact Option.some.inj hplay ▸ h
  | cons a as ih =>
      intro s s' h hplay
      rw [play] at hplay
      by_cases hen : M.enabled s a
      · rw [if_pos hen] at hplay
        cases hrun : M.exec a s with
        | error e => simp [hrun] at hplay
        | ok r =>
            rw [hrun] at hplay
            exact ih (.next h hen trivial hrun) hplay
      · simp [hen] at hplay

/-- And a schedule whose actions are as `Ok` asks of the states they are taken in. -/
theorem reach_of_playOk [∀ s a, Decidable (M.enabled s a)] : ∀ {as : List α} {s s' : σ},
    M.Reach Ok s → (∀ n (hn : n < as.length) t, M.play (as.take n) s = some t → Ok t as[n]) →
    M.play as s = some s' → M.Reach Ok s' := by
  intro as
  induction as with
  | nil =>
      intro s s' h _ hplay
      exact Option.some.inj hplay ▸ h
  | cons a as ih =>
      intro s s' h hok hplay
      rw [play] at hplay
      by_cases hen : M.enabled s a
      · rw [if_pos hen] at hplay
        cases hrun : M.exec a s with
        | error e => simp [hrun] at hplay
        | ok r =>
            rw [hrun] at hplay
            refine ih (.next h hen (hok 0 (by simp) s rfl) hrun) (fun n hn t ht => ?_) hplay
            refine hok (n + 1) (by simpa using hn) t ?_
            rw [List.take_succ_cons, play, if_pos hen, hrun]
            exact ht
      · simp [hen] at hplay

end Machine

end Library
