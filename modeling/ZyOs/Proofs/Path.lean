/-
Paths as lists of names.

`path_parse` takes one name off a path and leaves a text with the other names in it,
so a loop around it sees the names of the path one by one, however many slashes are
between them.
-/
import ZyOs.Kernel.Fs
import ZyOs.Library.Words

namespace ZyOs

open Library

/-- The names of a path. -/
def names (path : List UInt8) : List (List UInt8) := parts slash path

/-- The names that are left for `path_parse`. -/
def namesLeft (rest : Option (List UInt8)) : List (List UInt8) := names (rest.getD [])

variable {path : List UInt8} {name : List UInt8} {ns : List (List UInt8)}
  {rest : Option (List UInt8)}

@[simp] theorem namesLeft_none : namesLeft none = [] := parts_nil slash

theorem names_ne_nil (h : name ∈ names path) : name ≠ [] := mem_parts h

/-- What is left when the slashes in front are skipped begins with a name. -/
theorem names_skip (hne : path.dropWhile (· == slash) ≠ []) : names path
    = (path.dropWhile (· == slash)).takeWhile (· != slash)
      :: names ((path.dropWhile (· == slash)).dropWhile (· != slash)) := by
  have hhead : ∀ x ∈ (path.dropWhile (· == slash)).head?, x ≠ slash := by
    intro x hx
    have := List.head?_dropWhile_not (· == slash) path
    rw [hx] at this
    simpa using this
  have hparts := parts_eq_cons hhead hne
  rwa [parts_dropWhile] at hparts

/-- A path without a name. -/
theorem pathParse_nil (h : names path = []) : pathParse path = ([], none) := by
  have hdrop : path.dropWhile (· == slash) = [] := by
    by_contra hne
    exact absurd (h.symm.trans (names_skip hne)) (by simp)
  simp [pathParse, hdrop]

/-- A path with a name in front. -/
theorem pathParse_cons (h : names path = name :: ns) : ∃ rest, pathParse path = (name, rest) ∧
    namesLeft rest = ns ∧ (rest.getD []).length < path.length := by
  have hne : path.dropWhile (· == slash) ≠ [] := fun hnil => by
    have := parts_dropWhile slash path
    rw [hnil, parts_nil] at this
    exact absurd (this.trans h) (by simp)
  obtain ⟨hname, hns⟩ := List.cons.inj (h.symm.trans (names_skip hne))
  set p := path.dropWhile (· == slash) with hp
  have hlen : p.length ≤ path.length := (List.dropWhile_sublist _).length_le
  have hsplit :
      (p.takeWhile (· != slash)).length + (p.dropWhile (· != slash)).length = p.length := by
    rw [← List.length_append, List.takeWhile_append_dropWhile]
  have hpos : 0 < (p.takeWhile (· != slash)).length := by
    rw [← hname]
    exact List.length_pos_of_ne_nil (names_ne_nil (h ▸ List.mem_cons_self))
  refine ⟨if p.dropWhile (· != slash) = [] then none else some (p.dropWhile (· != slash)),
    ?_, ?_, ?_⟩
  · simp only [pathParse, ← hp, ← hname]
  · by_cases hrest : p.dropWhile (· != slash) = []
    · rw [if_pos hrest, namesLeft_none, hns, hrest]
      exact (parts_nil slash).symm
    · rw [if_neg hrest, hns]
      rfl
  · by_cases hrest : p.dropWhile (· != slash) = []
    · rw [if_pos hrest]
      simp only [Option.getD_none, List.length_nil]
      omega
    · rw [if_neg hrest, Option.getD_some]
      omega

/-- `path_parse` into a buffer that is large enough. -/
theorem parseName_cons (func : String) (h : names path = name :: ns) (hlen : name.length ≤ 16) :
    ∃ rest, parseName func path = .ok (name, rest) ∧ namesLeft rest = ns ∧
      (rest.getD []).length < path.length := by
  obtain ⟨rest, hparse, hns, hlt⟩ := pathParse_cons h
  refine ⟨rest, ?_, hns, hlt⟩
  unfold parseName
  rw [hparse, if_pos (by simpa [maxFileNameLen] using hlen)]

theorem parseName_nil {func : String} (h : names path = []) :
    parseName func path = .ok ([], none) := by
  unfold parseName
  rw [pathParse_nil h, if_pos (by simp)]

/-- The buffer and the rest of the text stand for the names `ns`. -/
def Buffered (name : List UInt8) (sub : Option (List UInt8)) (ns : List (List UInt8)) : Prop :=
  (name = [] ∧ ns = []) ∨ (name ≠ [] ∧ ns = name :: namesLeft sub)

/-- The step of a loop to the next name. -/
theorem parseName_next (func : String) (sub : Option (List UInt8))
    (hlen : ∀ n ∈ namesLeft sub, n.length ≤ 16) : ∃ name' sub',
    Buffered name' sub' (namesLeft sub) ∧
      (∀ p, sub = some p → parseName func p = .ok (name', sub')) ∧
      (sub = none → name' = [] ∧ sub' = none) := by
  cases sub with
  | none => exact ⟨[], none, .inl ⟨rfl, namesLeft_none⟩, by simp, fun _ => ⟨rfl, rfl⟩⟩
  | some p =>
      cases hn : names p with
      | nil =>
          refine ⟨[], none, .inl ⟨rfl, hn⟩, fun q hq => ?_, by simp⟩
          obtain rfl := Option.some.inj hq
          exact parseName_nil hn
      | cons n ns =>
          obtain ⟨rest, hparse, hns, -⟩ := parseName_cons func hn
            (hlen n (by simp [namesLeft, hn]))
          refine ⟨n, rest, .inr ⟨names_ne_nil (hn ▸ List.mem_cons_self), ?_⟩,
            fun q hq => ?_, by simp⟩
          · rw [hns]
            exact hn
          · obtain rfl := Option.some.inj hq
            exact hparse

/-! ### `path_depth_cnt` -/

theorem depthLoop_run : ∀ (fuel : Nat) (rest : Option (List UInt8)) (depth : Nat),
    (rest.getD []).length < fuel → (∀ n ∈ namesLeft rest, n.length ≤ 16) →
    depthLoop fuel rest depth = .ok (depth + 1 + (namesLeft rest).length) := by
  intro fuel
  induction fuel with
  | zero => intro rest depth hfuel; omega
  | succ fuel ih =>
      intro rest depth hfuel hlen
      cases rest with
      | none => simp [depthLoop]
      | some p =>
          cases hn : names p with
          | nil =>
              have hleft : namesLeft (some p) = [] := hn
              simp [depthLoop, parseName_nil hn, hleft]
          | cons n ns =>
              have hleft : namesLeft (some p) = n :: ns := hn
              obtain ⟨rest', hparse, hns, hlt⟩ := parseName_cons "path_depth_cnt" hn
                (hlen n (by simp [hleft]))
              have hne : n ≠ [] := names_ne_nil (hn ▸ List.mem_cons_self)
              simp only [depthLoop, hparse, ok_bind, hne, if_false]
              rw [ih rest' (depth + 1) (by simp only [Option.getD_some] at hfuel; omega)
                (by rw [hns]; exact fun m hm => hlen m (by simp [hleft, hm])), hns, hleft]
              simp only [List.length_cons]
              congr 1
              omega

/-- The depth of a path is the number of its names. -/
theorem pathDepthCnt_run (hne : names path ≠ []) (hlen : ∀ n ∈ names path, n.length ≤ 16) :
    pathDepthCnt path = .ok (names path).length := by
  obtain ⟨n, ns, hn⟩ := List.exists_cons_of_ne_nil hne
  obtain ⟨rest, hparse, hns, hlt⟩ := parseName_cons "path_depth_cnt" hn
    (hlen n (by simp [hn]))
  have hname : n ≠ [] := names_ne_nil (hn ▸ List.mem_cons_self)
  unfold pathDepthCnt
  simp only [hparse, ok_bind, hname, if_false]
  rw [depthLoop_run _ _ _ (by omega)
    (by rw [hns]; exact fun m hm => hlen m (by simp [hn, hm])), hns, hn]
  simp only [List.length_cons]
  congr 1
  omega

end ZyOs
