/-
The normal form of a path.

`wash_path` keeps its stack of names as text.  `washPath_run` says which stack the text spells;
here is what such a text looks like and that it is left alone when it is washed again.
-/
import ZyOs.Proofs.WashPath

namespace ZyOs

open Library

variable {stack ns : List (List UInt8)} {path : List UInt8}

/-- A stack is spelled with one slash in front of each name. -/
theorem spell_eq_intercalate (stack : List (List UInt8)) :
    spell stack = slash :: [slash].intercalate stack := by
  unfold spell
  by_cases hs : stack = []
  · rw [if_pos hs, hs]
    rfl
  · rw [if_neg hs, joined_eq_intercalate slash hs]

/-- Proper names are pushed one after the other. -/
theorem foldl_pushName_proper (h : ∀ n ∈ ns, Proper n) : ns.foldl pushName stack = stack ++ ns := by
  induction ns generalizing stack with
  | nil => simp
  | cons n ns ih =>
      obtain ⟨hdot, hdotdot⟩ := h n (by simp)
      rw [List.foldl_cons, pushName, if_neg hdotdot, if_neg hdot, ih fun m hm => h m (by simp [hm]),
        List.append_assoc, List.singleton_append]

theorem length_spell_stack (hhead : path.head? = some slash) :
    (spell ((names path).foldl pushName [])).length ≤ path.length := by
  have hstack := length_stack (names path)
  have hpath := (length_joined_parts slash path).2 (.inr hhead)
  unfold spell
  split
  · obtain ⟨rest, rfl⟩ := List.head?_eq_some_iff.mp hhead
    simp
  · exact hstack.trans hpath

/-- **`wash_path` computes the normal form**: the names that are left after folding the path from
the left, one slash in front of each; it has no empty name and no dots, it is not longer than
the path, and it is its own normal form. -/
theorem washPath_normal (path : List UInt8) (hhead : path.head? = some slash) (htext : 0 ∉ path)
    (hshort : ∀ n ∈ names path, n.length ≤ 15) :
    ∃ clean, washPath path = .ok clean ∧
      clean = slash :: [slash].intercalate ((names path).foldl pushName []) ∧
      (clean = [slash] ∨ ∀ n ∈ clean.tail.splitOn slash, n ≠ [] ∧ Proper n) ∧
      clean.length ≤ path.length ∧ washPath clean = .ok clean := by
  have hgood : ∀ n ∈ names path, GoodName n := fun n hn =>
    { text := fun h0 => htext (mem_of_mem_parts path n 0 hn h0).1
      short := hshort n hn
      ne_nil := names_ne_nil hn
      noSlash := fun hs => (mem_of_mem_parts path n slash hn hs).2 rfl }
  set stack := (names path).foldl pushName [] with hstack
  have hstackGood : ∀ n ∈ stack, GoodName n := stack_good hgood
  refine ⟨spell stack, washPath_run hhead hgood, spell_eq_intercalate stack, ?_,
    length_spell_stack hhead, ?_⟩
  · by_cases hs : stack = []
    · exact .inl (by rw [spell, if_pos hs])
    · refine .inr fun n hn => ?_
      rw [spell_eq_intercalate, List.tail_cons,
        List.splitOn_intercalate slash (fun l hl => (hstackGood l hl).noSlash) hs] at hn
      exact ⟨(hstackGood n hn).ne_nil, (stack_mem hn).2⟩
  · have hnames := names_spell hstackGood
    have hslash : (spell stack).head? = some slash := by
      rw [spell_eq_intercalate]
      rfl
    have hwash := washPath_run hslash (by rw [hnames]; exact hstackGood)
    rwa [hnames, foldl_pushName_proper fun n hn => (stack_mem hn).2, List.nil_append] at hwash

/-- `/.a//b/../c/.` -/
theorem washPath_normal_dots :
    let path : List UInt8 := [47, 46, 97, 47, 47, 98, 47, 46, 46, 47, 99, 47, 46]
    ∃ clean, washPath path = .ok clean ∧
      clean = slash :: [slash].intercalate ((names path).foldl pushName []) ∧
      (clean = [slash] ∨ ∀ n ∈ clean.tail.splitOn slash, n ≠ [] ∧ Proper n) ∧
      clean.length ≤ path.length ∧ washPath clean = .ok clean :=
  washPath_normal _ (by decide) (by decide) (by decide)

end ZyOs
