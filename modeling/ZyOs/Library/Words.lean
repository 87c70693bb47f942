/-
Words between separators.

`parts sep l` are the non-empty runs of `l` between occurrences of `sep`, and
`joined sep ws` writes words down with a separator in front of each.  Joining words
and taking the result apart again gives the words back.
-/
import Mathlib.Data.List.Basic

namespace Library

variable {α : Type}

/-- The words with a separator in front of each. -/
def joined (sep : α) (ws : List (List α)) : List α := ws.flatMap (sep :: ·)

theorem joined_cons (sep : α) (w : List α) (ws : List (List α)) :
    joined sep (w :: ws) = sep :: (w ++ joined sep ws) := by
  simp [joined]

theorem joined_append (sep : α) (ws ws' : List (List α)) :
    joined sep (ws ++ ws') = joined sep ws ++ joined sep ws' := by
  simp [joined]

/-- Between the words there is one separator each. -/
theorem joined_eq_intercalate (sep : α) {ws : List (List α)} (h : ws ≠ []) :
    joined sep ws = sep :: [sep].intercalate ws := by
  induction ws with
  | nil => exact absurd rfl h
  | cons w ws ih =>
      rw [joined_cons]
      by_cases hws : ws = []
      · subst hws
        simp [joined]
      · rw [ih hws, List.intercalate_cons_of_ne_nil hws, List.append_assoc, List.singleton_append]

theorem length_joined_reverse (sep : α) (ws : List (List α)) :
    (joined sep ws.reverse).length = (joined sep ws).length :=
  ((List.reverse_perm ws).flatMap_right _).length_eq

theorem length_le_joined (sep : α) (ws : List (List α)) : ws.length ≤ (joined sep ws).length := by
  induction ws with
  | nil => simp
  | cons w ws ih =>
      rw [joined_cons, List.length_cons, List.length_cons, List.length_append]
      omega

variable [DecidableEq α] {sep : α} {l w : List α} {ws : List (List α)}

/-- The non-empty words of `l`. -/
def parts (sep : α) (l : List α) : List (List α) := (l.splitOn sep).filter (· ≠ [])

@[simp] theorem parts_nil (sep : α) : parts sep [] = [] := by
  simp [parts]

@[simp] theorem parts_sep_cons (sep : α) (l : List α) : parts sep (sep :: l) = parts sep l := by
  have h := List.splitOn_append_cons_self_of_not_mem (show sep ∉ [] by simp) l
  simp only [List.nil_append] at h
  simp [parts, h]

theorem parts_append (hw : w ≠ []) (hsep : sep ∉ w) (l : List α) :
    parts sep (w ++ sep :: l) = w :: parts sep l := by
  unfold parts
  rw [List.splitOn_append_cons_self_of_not_mem hsep, List.filter_cons_of_pos (by simpa using hw)]

theorem parts_word (hw : w ≠ []) (hsep : sep ∉ w) : parts sep w = [w] := by
  unfold parts
  rw [List.splitOn_eq_singleton hsep, List.filter_cons_of_pos (by simpa using hw)]
  simp

/-- Separators in front do not count. -/
theorem parts_dropWhile (sep : α) (l : List α) :
    parts sep (l.dropWhile (· == sep)) = parts sep l := by
  induction l with
  | nil => rfl
  | cons x l ih =>
      by_cases hx : x = sep
      · subst hx
        rw [List.dropWhile_cons_of_pos (by simp), ih, parts_sep_cons]
      · rw [List.dropWhile_cons_of_neg (by simpa using hx)]

/-- A word in front of joined words. -/
theorem parts_append_joined (hw : w ≠ []) (hsep : sep ∉ w) :
    parts sep (w ++ joined sep ws) = w :: parts sep (joined sep ws) := by
  cases ws with
  | nil => simp [joined, parts_word hw hsep]
  | cons v ws =>
      rw [joined_cons, parts_append hw hsep, parts_sep_cons]

theorem parts_joined (h : ∀ w ∈ ws, w ≠ [] ∧ sep ∉ w) : parts sep (joined sep ws) = ws := by
  induction ws with
  | nil => simp [joined]
  | cons w ws ih =>
      have hw := h w (by simp)
      rw [joined_cons, parts_sep_cons, parts_append_joined hw.1 hw.2,
        ih fun v hv => h v (by simp [hv])]

/-- The word in front of a list and what comes behind it. -/
theorem parts_eq_cons (hx : ∀ x ∈ l.head?, x ≠ sep) (hl : l ≠ []) :
    parts sep l = l.takeWhile (· != sep) :: parts sep (l.dropWhile (· != sep)) := by
  have hword : l.takeWhile (· != sep) ≠ [] := by
    cases l with
    | nil => exact absurd rfl hl
    | cons x l => simp [hx x (by simp)]
  have hfree : sep ∉ l.takeWhile (· != sep) := fun hmem => by
    simpa using List.all_eq_true.mp List.all_takeWhile sep hmem
  conv_lhs => rw [← List.takeWhile_append_dropWhile (p := (· != sep)) (l := l)]
  cases hrest : l.dropWhile (· != sep) with
  | nil => simp [parts_word hword hfree]
  | cons y rest =>
      have hy : y = sep := by
        have := List.head_dropWhile_not (p := (· != sep)) (l := l) (by simp [hrest])
        simpa [hrest] using this
      subst hy
      rw [parts_append hword hfree, parts_sep_cons]

theorem mem_parts (h : w ∈ parts sep l) : w ≠ [] := by
  simpa using (List.mem_filter.mp h).2

variable (sep) in
/-- Lists are taken apart from the front: a separator, or a word up to the next one. -/
theorem parts_induction {P : List α → Prop} (nil : P []) (skip : ∀ l, P l → P (sep :: l))
    (word : ∀ w l, w ≠ [] → sep ∉ w → (l = [] ∨ l.head? = some sep) → P l → P (w ++ l))
    (l : List α) : P l := by
  induction hn : l.length using Nat.strongRecOn generalizing l with
  | _ n ih =>
    subst hn
    cases l with
    | nil => exact nil
    | cons x l =>
        by_cases hx : x = sep
        · subst hx
          exact skip l (ih l.length (by simp) l rfl)
        · have hcut := List.takeWhile_append_dropWhile (p := (· != sep)) (l := x :: l)
          have hword : (x :: l).takeWhile (· != sep) ≠ [] := by simp [hx]
          have hfree : sep ∉ (x :: l).takeWhile (· != sep) := fun hmem => by
            simpa using List.all_eq_true.mp List.all_takeWhile sep hmem
          have hrest : (x :: l).dropWhile (· != sep) = [] ∨
              ((x :: l).dropWhile (· != sep)).head? = some sep := by
            cases hd : (x :: l).dropWhile (· != sep) with
            | nil => exact .inl rfl
            | cons y rest =>
                have := List.head_dropWhile_not (p := (· != sep)) (l := x :: l) (by simp [hd])
                exact .inr (by simpa [hd] using this)
          have hlen := congrArg List.length hcut
          rw [List.length_append] at hlen
          have hpos := List.length_pos_of_ne_nil hword
          have := word _ _ hword hfree hrest (ih _ (by omega) _ rfl)
          rwa [hcut] at this

theorem parts_word_append (hw : w ≠ []) (hsep : sep ∉ w) (hl : l = [] ∨ l.head? = some sep) :
    parts sep (w ++ l) = w :: parts sep l := by
  rcases hl with rfl | hl
  · rw [List.append_nil, parts_word hw hsep, parts_nil]
  · obtain ⟨rest, rfl⟩ := List.head?_eq_some_iff.mp hl
    rw [parts_append hw hsep, parts_sep_cons]

/-- Separators in front of a list. -/
theorem parts_seps_append {pre : List α} (h : ∀ x ∈ pre, x = sep) (l : List α) :
    parts sep (pre ++ l) = parts sep l := by
  induction pre with
  | nil => rfl
  | cons x pre ih =>
      obtain rfl := h x (by simp)
      rw [List.cons_append, parts_sep_cons, ih fun y hy => h y (List.mem_cons_of_mem _ hy)]

/-- A list without words is made of separators. -/
theorem eq_sep_of_parts_nil (h : parts sep l = []) : ∀ x ∈ l, x = sep := by
  induction l using parts_induction sep with
  | nil => simp
  | skip l ih =>
      intro x hx
      rcases List.mem_cons.mp hx with rfl | hx
      · rfl
      · exact ih (by rwa [parts_sep_cons] at h) x hx
  | word v l hv hsep hl ih =>
      rw [parts_word_append hv hsep hl] at h
      exact absurd h (by simp)

/-- The first word of a list, the separators in front of it and what is behind it. -/
theorem parts_first (h : parts sep l = w :: ws) : ∃ pre post, l = pre ++ (w ++ post) ∧
    (∀ x ∈ pre, x = sep) ∧ w ≠ [] ∧ sep ∉ w ∧ (post = [] ∨ post.head? = some sep) ∧
    parts sep post = ws := by
  induction l using parts_induction sep with
  | nil => simp at h
  | skip l ih =>
      obtain ⟨pre, post, rfl, hpre, hrest⟩ := ih (by rwa [parts_sep_cons] at h)
      refine ⟨sep :: pre, post, rfl, fun x hx => ?_, hrest⟩
      rcases List.mem_cons.mp hx with rfl | hx
      · rfl
      · exact hpre x hx
  | word v l hv hsep hl ih =>
      rw [parts_word_append hv hsep hl] at h
      obtain ⟨rfl, rfl⟩ := List.cons.inj h
      exact ⟨[], l, rfl, by simp, hv, hsep, hl, rfl⟩

/-- The words hold what the list holds, less the separators. -/
theorem mem_of_mem_parts : ∀ (l : List α) (w : List α) (x : α), w ∈ parts sep l → x ∈ w →
    x ∈ l ∧ x ≠ sep := by
  intro l
  induction l using parts_induction sep with
  | nil => simp
  | skip l ih =>
      intro w x hw hx
      rw [parts_sep_cons] at hw
      exact ⟨List.mem_cons_of_mem _ (ih w x hw hx).1, (ih w x hw hx).2⟩
  | word v l hv hsep hl ih =>
      intro w x hw hx
      rw [parts_word_append hv hsep hl, List.mem_cons] at hw
      rcases hw with rfl | hw
      · exact ⟨List.mem_append_left _ hx, fun hxs => hsep (hxs ▸ hx)⟩
      · exact ⟨List.mem_append_right _ (ih w x hw hx).1, (ih w x hw hx).2⟩

variable (sep) in
/-- Joining the words of a list that begins with a separator makes it no longer. -/
theorem length_joined_parts (l : List α) :
    (joined sep (parts sep l)).length ≤ l.length + 1 ∧
      (l = [] ∨ l.head? = some sep → (joined sep (parts sep l)).length ≤ l.length) := by
  induction l using parts_induction sep with
  | nil => simp [joined]
  | skip l ih =>
      rw [parts_sep_cons, List.length_cons]
      exact ⟨by omega, fun _ => ih.1⟩
  | word v l hv hsep hl ih =>
      have hrest := ih.2 hl
      rw [parts_word_append hv hsep hl, joined_cons, List.length_cons, List.length_append,
        List.length_append]
      refine ⟨by omega, fun hhead => ?_⟩
      obtain ⟨x, v, rfl⟩ := List.exists_cons_of_ne_nil hv
      simp only [List.cons_append, List.cons_ne_nil, List.head?_cons, Option.some.injEq,
        false_or] at hhead
      exact absurd (by simp [hhead]) hsep

end Library
