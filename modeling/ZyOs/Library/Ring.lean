/-
Ring buffers.

An array of `n` cells is used around the end: what is in it lies from `tail` up to, and not
with, `head`.  One cell stays empty, so that `head = tail` says that nothing is in it.  The
content is a list; a store at `head` appends to it and a load at `tail` takes its first
element.
-/
import Mathlib.Logic.Function.Basic
import Mathlib.Tactic

namespace Library

namespace Ring

variable {α : Type} {n head tail : Nat} {buf : Nat → α} {x : α}

/-- The cell behind `pos`. -/
def next (n pos : Nat) : Nat := (pos + 1) % n

/-- How many cells are in use. -/
def count (n head tail : Nat) : Nat := (head + n - tail) % n

/-- What is in them, from the tail on. -/
def content (n : Nat) (buf : Nat → α) (head tail : Nat) : List α :=
  (List.range (count n head tail)).map fun i => buf ((tail + i) % n)

theorem next_lt (hn : 0 < n) (pos : Nat) : next n pos < n := Nat.mod_lt _ hn

theorem count_lt (hn : 0 < n) : count n head tail < n := Nat.mod_lt _ hn

theorem length_content : (content n buf head tail).length = count n head tail := by
  simp [content]

theorem count_of_le (hhead : head < n) (hle : tail ≤ head) : count n head tail = head - tail := by
  rw [count, show head + n - tail = head - tail + n by omega, Nat.add_mod_right]
  exact Nat.mod_eq_of_lt (by omega)

theorem count_of_gt (htail : tail < n) (hgt : head < tail) :
    count n head tail = head + n - tail :=
  Nat.mod_eq_of_lt (by omega)

theorem next_of_lt (h : head + 1 < n) : next n head = head + 1 := Nat.mod_eq_of_lt h

theorem next_of_eq (h : head + 1 = n) : next n head = 0 := by
  rw [next, h, Nat.mod_self]

theorem content_eq_nil (hhead : head < n) (htail : tail < n) :
    content n buf head tail = [] ↔ head = tail := by
  rw [← List.length_eq_zero_iff, length_content]
  rcases Nat.lt_or_ge head tail with h | h
  · rw [count_of_gt htail h]
    omega
  · rw [count_of_le hhead h]
    omega

/-- One more cell is in use after a step of the head. -/
theorem count_push (hhead : head < n) (htail : tail < n) (hroom : next n head ≠ tail) :
    count n (next n head) tail = count n head tail + 1 := by
  rcases Nat.lt_or_ge head tail with h | h
  · rw [next_of_lt (by omega)] at hroom ⊢
    rw [count_of_gt htail h, count_of_gt htail (by omega)]
    omega
  · rcases Nat.lt_or_ge (head + 1) n with hlt | hge
    · rw [next_of_lt hlt, count_of_le hhead h, count_of_le hlt (by omega)]
      omega
    · rw [next_of_eq (by omega)] at hroom ⊢
      rw [count_of_le hhead h, count_of_gt htail (by omega)]
      omega

/-- One less after a step of the tail. -/
theorem count_pop (hhead : head < n) (htail : tail < n) (hne : head ≠ tail) :
    count n head tail = count n head (next n tail) + 1 := by
  rcases Nat.lt_or_ge (tail + 1) n with hlt | hge
  · rw [next_of_lt hlt]
    rcases Nat.lt_or_ge head tail with h | h
    · rw [count_of_gt htail h, count_of_gt hlt (by omega)]
      omega
    · rw [count_of_le hhead h, count_of_le hhead (by omega)]
      omega
  · rw [next_of_eq (by omega), count_of_gt htail (by omega), count_of_le hhead (Nat.zero_le _)]
    omega

/-- A store at the head appends. -/
theorem content_push (hhead : head < n) (htail : tail < n) (hroom : next n head ≠ tail) :
    content n (fun i => if i = head then x else buf i) (next n head) tail
      = content n buf head tail ++ [x] := by
  have hlast : (tail + count n head tail) % n = head := by
    rcases Nat.lt_or_ge head tail with h | h
    · rw [count_of_gt htail h, show tail + (head + n - tail) = head + n by omega,
        Nat.add_mod_right]
      exact Nat.mod_eq_of_lt hhead
    · rw [count_of_le hhead h, show tail + (head - tail) = head by omega]
      exact Nat.mod_eq_of_lt hhead
  rw [content, count_push hhead htail hroom, List.range_succ, List.map_append, List.map_singleton,
    hlast, if_pos rfl, content]
  congr 1
  refine List.map_congr_left fun i hi => ?_
  rw [List.mem_range] at hi
  -- no cell that is in use is the one at the head
  refine if_neg fun hc => ?_
  have hlt : count n head tail < n := count_lt (by omega)
  rw [← hlast] at hc
  have hmod := Nat.ModEq.add_left_cancel' tail (show tail + i ≡ tail + count n head tail [MOD n]
    from hc)
  have := Nat.ModEq.eq_of_lt_of_lt hmod (by omega) hlt
  omega

/-- A load at the tail takes the first element. -/
theorem content_pop (hhead : head < n) (htail : tail < n) (hne : head ≠ tail) :
    content n buf head tail = buf tail :: content n buf head (next n tail) := by
  rw [content, count_pop hhead htail hne, List.range_succ_eq_map, List.map_cons, Nat.add_zero,
    Nat.mod_eq_of_lt htail, List.map_map, content]
  congr 1
  refine List.map_congr_left fun i _ => ?_
  rw [Function.comp_apply, next, Nat.mod_add_mod]
  congr 2
  omega

end Ring

end Library
