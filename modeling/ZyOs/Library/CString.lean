/-
Zero-terminated strings.

A pointer to a string sees its bytes and a zero behind them; what follows the zero is not part
of it.  `Spells m l` says that the string a pointer sees is `l`.
-/
import Mathlib.Data.List.GetD
import ZyOs.Library.Bytes

namespace Library

/-- The string a pointer sees. -/
structure Spells (m : Mem) (l : List UInt8) : Prop where
  text : 0 ∉ l
  bytes : ∀ i ≤ l.length, m i = l.getD i 0

namespace Spells

variable {m m' : Mem} {l l' p q : List UInt8} {i : Nat}

theorem at_end (h : Spells m l) : m l.length = 0 := by
  rw [h.bytes _ (le_refl _), List.getD_eq_default _ _ (le_refl _)]

theorem ne_zero (h : Spells m l) (hi : i < l.length) : m i ≠ 0 := by
  rw [h.bytes i hi.le, List.getD_eq_getElem _ _ hi]
  exact fun h0 => h.text (h0 ▸ List.getElem_mem hi)

/-- The zero is where the string ends. -/
theorem eq_zero_iff (h : Spells m l) (hi : i ≤ l.length) : m i = 0 ↔ i = l.length := by
  constructor
  · intro h0
    by_contra hne
    exact h.ne_zero (by omega) h0
  · rintro rfl
    exact h.at_end

theorem congr (h : Spells m l) (hm : ∀ i ≤ l.length, m' i = m i) : Spells m' l :=
  ⟨h.text, fun i hi => (hm i hi).trans (h.bytes i hi)⟩

/-- Strings that agree as far as one of them goes are the same. -/
theorem eq_of_bytes (h : Spells m l) (h' : Spells m' l') (hle : l.length ≤ l'.length)
    (hm : ∀ i ≤ l.length, m i = m' i) : l = l' := by
  have hlen : l.length = l'.length :=
    (h'.eq_zero_iff hle).mp ((hm _ (le_refl _)).symm.trans h.at_end)
  refine List.ext_getElem hlen fun i hi hi' => ?_
  rw [← List.getD_eq_getElem l 0 hi, ← List.getD_eq_getElem l' 0 hi', ← h.bytes i hi.le,
    ← h'.bytes i hi'.le, hm i hi.le]

/-- There is only one string at a pointer. -/
theorem unique (h : Spells m l) (h' : Spells m l') : l = l' := by
  rcases Nat.le_total l.length l'.length with hle | hle
  · exact h.eq_of_bytes h' hle fun _ _ => rfl
  · exact (h'.eq_of_bytes h hle fun _ _ => rfl).symm

/-- The end of a string is a string. -/
theorem drop (h : Spells m (p ++ q)) : Spells (m.drop p.length) q where
  text := fun h0 => h.text (List.mem_append_right _ h0)
  bytes i hi := by
    rw [Mem.drop_apply, h.bytes _ (by rw [List.length_append]; omega),
      List.getD_append_right _ _ _ _ (by omega), Nat.add_sub_cancel_left]

/-- A string behind a string, as `strcat` leaves it. -/
theorem append (h : Spells m p) (h' : Spells m' q) :
    Spells (m.splice p.length m' (q.length + 1)) (p ++ q) where
  text := fun h0 => (List.mem_append.mp h0).elim h.text h'.text
  bytes i hi := by
    rw [List.length_append] at hi
    rcases Nat.lt_or_ge i p.length with hlt | hge
    · rw [Mem.splice_out (.inl hlt), h.bytes i hlt.le, List.getD_append _ _ _ _ hlt]
    · rw [Mem.splice_in hge (by omega), h'.bytes _ (by omega), List.getD_append_right _ _ _ _ hge]

end Spells

/-! ### One byte at a time -/

namespace Mem

variable {m src : Mem} {a n : Nat}

theorem drop_zero (m : Mem) : m.drop 0 = m := by
  funext i
  rw [drop_apply, Nat.zero_add]

theorem update_eq_splice (m src : Mem) (a : Nat) :
    Function.update m a (src 0) = m.splice a src 1 := by
  funext i
  by_cases hi : i = a
  · subst hi
    rw [Function.update_self, splice_in (le_refl _) (by omega), Nat.sub_self]
  · rw [Function.update_of_ne hi, splice_out (by omega)]

/-- A copy that starts with one byte. -/
theorem splice_update (m src : Mem) (a n : Nat) :
    splice (Function.update m a (src 0)) (a + 1) (src.drop 1) n = m.splice a src (n + 1) := by
  rw [update_eq_splice, splice_append, Nat.add_comm]

theorem splice_congr {src' : Mem} (h : ∀ i < n, src i = src' i) :
    m.splice a src n = m.splice a src' n := by
  funext i
  by_cases hi : a ≤ i ∧ i < a + n
  · rw [splice_in hi.1 hi.2, splice_in hi.1 hi.2, h _ (by omega)]
  · rw [splice_out (by omega), splice_out (by omega)]

/-- The string in the first `n` bytes, cut off there if it does not end before. -/
def stringWithin : Mem → Nat → List UInt8
  | _, 0 => []
  | m, n + 1 => if m 0 = 0 then [] else m 0 :: stringWithin (m.drop 1) n

theorem stringWithin_length (n : Nat) : ∀ m : Mem, (m.stringWithin n).length ≤ n := by
  induction n with
  | zero => exact fun m => le_refl _
  | succ n ih =>
      intro m
      rw [stringWithin]
      split
      · exact Nat.zero_le _
      · exact Nat.succ_le_succ (ih _)

theorem stringWithin_congr (n : Nat) : ∀ m m' : Mem, (∀ i < n, m i = m' i) →
    m.stringWithin n = m'.stringWithin n := by
  induction n with
  | zero => exact fun m m' _ => rfl
  | succ n ih =>
      intro m m' h
      rw [stringWithin, stringWithin, h 0 (Nat.succ_pos n),
        ih (m.drop 1) (m'.drop 1) fun i hi => h (1 + i) (by omega)]

/-- With a zero behind them, that is the string a pointer sees. -/
theorem spells_stringWithin (n : Nat) : ∀ m : Mem, m n = 0 → Spells m (m.stringWithin n) := by
  induction n with
  | zero => exact fun m h0 => ⟨by simp [stringWithin], fun i hi => by
      rw [Nat.le_zero.mp hi, h0]
      rfl⟩
  | succ n ih =>
      intro m h0
      have hrest := ih (m.drop 1) (by rwa [drop_apply, Nat.add_comm])
      rw [stringWithin]
      split
      · rename_i hm
        exact ⟨by simp, fun i hi => by
          rw [Nat.le_zero.mp hi, hm]
          rfl⟩
      · rename_i hm
        refine ⟨fun hc => ?_, fun i hi => ?_⟩
        · rcases List.mem_cons.mp hc with h | h
          · exact hm h.symm
          · exact hrest.text h
        · cases i with
          | zero => rfl
          | succ i =>
              have hi' := hrest.bytes i (Nat.le_of_succ_le_succ hi)
              rwa [drop_apply, Nat.add_comm] at hi'

end Mem

end Library
