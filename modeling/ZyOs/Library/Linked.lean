/-
Doubly linked sequences in a heap of nodes.

A node has a link to the one in front of it and a link to the one behind it.  Nodes follow one
another when the two links between each pair agree.  `link` joins two nodes; taking nodes in and
out is joining, and what a chain of nodes looks like afterwards comes down to `Follows.join`.
-/
import Mathlib.Data.List.Chain
import Mathlib.Data.List.Nodup
import Mathlib.Logic.Function.Basic
import Mathlib.Tactic

namespace Library

/-- The links of all nodes. -/
structure Links (α : Type) where
  prev : α → α
  next : α → α

namespace Links

variable {α : Type} [DecidableEq α]

def setPrev (k : Links α) (a b : α) : Links α := { k with prev := Function.update k.prev a b }

def setNext (k : Links α) (a b : α) : Links α := { k with next := Function.update k.next a b }

/-- `b` comes behind `a`. -/
def link (k : Links α) (a b : α) : Links α := (k.setNext a b).setPrev b a

variable {k k' : Links α} {a b x y : α} {ns front back : List α}

@[simp] theorem link_next_self : (k.link a b).next a = b := Function.update_self ..

@[simp] theorem link_prev_self : (k.link a b).prev b = a := Function.update_self ..

theorem link_next_of_ne (h : x ≠ a) : (k.link a b).next x = k.next x :=
  Function.update_of_ne h ..

theorem link_prev_of_ne (h : x ≠ b) : (k.link a b).prev x = k.prev x :=
  Function.update_of_ne h ..

end Links

open Links

variable {α : Type} {k k' : Links α} {a b x y t : α} {ns front back l : List α}

/-- Each of these nodes leads to the next one, and back. -/
def Follows (k : Links α) (ns : List α) : Prop :=
  ns.IsChain fun a b => k.next a = b ∧ k.prev b = a

namespace Follows

theorem single (k : Links α) (a : α) : Follows k [a] := List.isChain_singleton a

theorem split : Follows k (front ++ a :: b :: back) ↔
    Follows k (front ++ [a]) ∧ (k.next a = b ∧ k.prev b = a) ∧ Follows k (b :: back) :=
  List.isChain_append_cons_cons

/-- Only the links of the nodes themselves matter. -/
theorem congr (h : Follows k ns) (hk : ∀ a ∈ ns, k'.next a = k.next a ∧ k'.prev a = k.prev a) :
    Follows k' ns := by
  refine List.IsChain.imp_of_mem_imp (fun a b ha hb hab => ?_) h
  rw [(hk a ha).1, (hk b hb).2]
  exact hab

variable [DecidableEq α]

/-- What leads to `a` stays as it is when `a` is joined to a node that is not part of it. -/
theorem link_front (h : Follows k (front ++ [a])) (hnodup : (front ++ [a]).Nodup)
    (hb : b ∉ front ++ [a]) : Follows (k.link a b) (front ++ [a]) := by
  rw [Follows, List.isChain_iff_forall_rel_of_append_cons_cons] at h ⊢
  intro x y l₁ l₂ heq
  have hx : x ≠ a := by
    rintro rfl
    have hlast : x ∈ y :: l₂ := by
      have hget := congrArg List.getLast? heq
      rw [List.getLast?_concat, List.getLast?_append_of_ne_nil _ (by simp),
        List.getLast?_cons_cons] at hget
      exact List.mem_of_getLast? hget.symm
    rw [heq] at hnodup
    exact (List.nodup_cons.mp hnodup.of_append_right).1 hlast
  have hy : y ≠ b := by
    rintro rfl
    exact hb (by rw [heq]; simp)
  rw [link_next_of_ne hx, link_prev_of_ne hy]
  exact h heq

/-- And so does what follows a node it is joined to. -/
theorem link_back (h : Follows k (b :: back)) (hnodup : (b :: back).Nodup)
    (ha : a ∉ b :: back) : Follows (k.link a b) (b :: back) := by
  refine List.IsChain.imp_of_mem_tail_imp (fun x y hx hy hxy => ?_) h
  have hxa : x ≠ a := fun hc => ha (hc ▸ hx)
  have hyb : y ≠ b := fun hc => (List.nodup_cons.mp hnodup).1 (hc ▸ hy)
  rw [link_next_of_ne hxa, link_prev_of_ne hyb]
  exact hxy

theorem join (hfront : Follows k (front ++ [a])) (hback : Follows k (b :: back))
    (hnodup : (front ++ a :: b :: back).Nodup) :
    Follows (k.link a b) (front ++ a :: b :: back) := by
  have hsplit : front ++ a :: b :: back = (front ++ [a]) ++ (b :: back) := by simp
  rw [hsplit, List.nodup_append] at hnodup
  obtain ⟨hf, hb, hne⟩ := hnodup
  refine split.mpr ⟨hfront.link_front hf fun hc => ?_, ⟨link_next_self, link_prev_self⟩,
    hback.link_back hb fun hc => ?_⟩
  · exact hne b hc b (List.mem_cons_self ..) rfl
  · exact hne a (by simp) a hc rfl

/-- A chain that neither node belongs to stays as it is. -/
theorem link_other (h : Follows k ns) (ha : a ∉ ns) (hb : b ∉ ns) : Follows (k.link a b) ns :=
  h.congr fun _ hx => ⟨link_next_of_ne fun hc => ha (hc ▸ hx),
    link_prev_of_ne fun hc => hb (hc ▸ hx)⟩

/-- `x` comes between two neighbours. -/
theorem insert (h : Follows k (front ++ a :: b :: back))
    (hnodup : (front ++ a :: x :: b :: back).Nodup) :
    Follows ((k.link a x).link x b) (front ++ a :: x :: b :: back) := by
  obtain ⟨hfront, -, hback⟩ := split.mp h
  have happ : front ++ a :: x :: b :: back = (front ++ [a]) ++ x :: b :: back := by simp
  have hrest := hnodup.of_append_right
  have hx := (List.nodup_cons.mp hrest).2
  have hax : a ∉ b :: back := fun hc => (List.nodup_cons.mp hrest).1 (List.mem_cons_of_mem _ hc)
  have hfront' : Follows (k.link a x) (front ++ [a, x]) := by
    refine hfront.join (single k x) (hnodup.sublist ?_)
    exact List.Sublist.append_left (by simp) front
  have hback' := hback.link_other hax (List.nodup_cons.mp hx).1
  rw [happ] at hnodup ⊢
  refine join ?_ hback' hnodup
  rwa [List.append_assoc]

/-- `x` is left out. -/
theorem remove (h : Follows k (front ++ a :: x :: b :: back))
    (hnodup : (front ++ a :: b :: back).Nodup) :
    Follows (k.link a b) (front ++ a :: b :: back) := by
  obtain ⟨hfront, -, hrest⟩ := split.mp h
  exact hfront.join (List.isChain_cons_cons.mp hrest).2 hnodup

end Follows

/-! ### The sequence between two ends -/

/-- What it is to put `x` in front of `b`, or behind the last one. -/
def insertBefore [DecidableEq α] (x b : α) : List α → List α
  | [] => [x]
  | y :: ys => if y = b then x :: y :: ys else y :: insertBefore x b ys

theorem insertBefore_split [DecidableEq α] (h : b ∉ front) :
    insertBefore x b (front ++ b :: back) = front ++ x :: b :: back := by
  induction front with
  | nil => exact if_pos rfl
  | cons y ys ih =>
      rw [List.mem_cons, not_or] at h
      rw [List.cons_append, insertBefore, if_neg (Ne.symm h.1), ih h.2]
      rfl

theorem insertBefore_of_not_mem [DecidableEq α] (h : b ∉ l) : insertBefore x b l = l ++ [x] := by
  induction l with
  | nil => rfl
  | cons y ys ih =>
      rw [List.mem_cons, not_or] at h
      rw [insertBefore, if_neg (Ne.symm h.1), ih h.2]
      rfl

/-- The first one that a test with a state of its own accepts, and the state it leaves. -/
def firstMatch {σ : Type} (f : α → σ → Bool × σ) : List α → σ → Option α × σ
  | [], s => (none, s)
  | x :: xs, s => if (f x s).1 then (some x, (f x s).2) else firstMatch f xs (f x s).2

end Library
