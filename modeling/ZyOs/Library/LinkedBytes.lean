/-
Linked nodes in memory.

A node is eight bytes: the address of the node in front of it and the address of the one behind
it.  Code that writes such links in memory does to the links what `setPrev` and `setNext` do, as
long as the nodes it works on lie apart; `Holds` carries that from one write to the next, and
`SameOutside` says that nothing else has been written.
-/
import ZyOs.Library.Bytes
import ZyOs.Library.Linked

namespace Library

/-! ### Storing a word -/

/-- The word `w` is stored in the four bytes from offset `a`. -/
def putWord (m : Mem) (a : Nat) (w : UInt32) : Mem := m.splice a (byteOf w) 4

theorem putWord_out {m : Mem} {a j : Nat} {w : UInt32} (h : j < a ∨ a + 4 ≤ j) :
    putWord m a w j = m j := Mem.splice_out h

theorem getWord_putWord (m : Mem) (a : Nat) (w : UInt32) : getWord (putWord m a w) a = w :=
  getWord_byteOf fun _ hj => Mem.splice_at hj

theorem getWord_putWord_of_apart {m : Mem} {a b : Nat} {w : UInt32} (h : b + 4 ≤ a ∨ a + 4 ≤ b) :
    getWord (putWord m a w) b = getWord m b :=
  getWord_congr fun _ _ => putWord_out (by omega)

namespace Nodes

/-! ### Links in memory -/

def prev (m : Mem) (a : UInt32) : UInt32 := getWord m a.toNat

def next (m : Mem) (a : UInt32) : UInt32 := getWord m (a.toNat + 4)

def setPrev (m : Mem) (a b : UInt32) : Mem := putWord m a.toNat b

def setNext (m : Mem) (a b : UInt32) : Mem := putWord m (a.toNat + 4) b

/-- The links that are in the memory. -/
def links (m : Mem) : Links UInt32 := ⟨prev m, next m⟩

/-- These nodes lie apart. -/
def Spaced (S : List UInt32) : Prop :=
  ∀ a ∈ S, ∀ b ∈ S, a ≠ b → a.toNat + 8 ≤ b.toNat ∨ b.toNat + 8 ≤ a.toNat

/-- The memory has the links `k` of these nodes. -/
def Holds (S : List UInt32) (m : Mem) (k : Links UInt32) : Prop :=
  ∀ a ∈ S, prev m a = k.prev a ∧ next m a = k.next a

/-- Byte `j` is in none of these nodes. -/
def Outside (S : List UInt32) (j : Nat) : Prop := ∀ a ∈ S, j < a.toNat ∨ a.toNat + 8 ≤ j

/-- Nothing but these nodes has been written. -/
def SameOutside (S : List UInt32) (m m' : Mem) : Prop := ∀ j, Outside S j → m' j = m j

variable {S : List UInt32} {m m' m'' : Mem} {k : Links UInt32} {a b : UInt32}

theorem holds_links (S : List UInt32) (m : Mem) : Holds S m (links m) := fun _ _ => ⟨rfl, rfl⟩

/-- Nodes whose bytes stay keep their links. -/
theorem links_congr (h : ∀ j < 8, m' (a.toNat + j) = m (a.toNat + j)) :
    (links m').next a = (links m).next a ∧ (links m').prev a = (links m).prev a := by
  refine ⟨getWord_congr fun j hj => ?_, getWord_congr fun j hj => h j (by omega)⟩
  rw [Nat.add_assoc]
  exact h (4 + j) (by omega)

theorem SameOutside.refl (S : List UInt32) (m : Mem) : SameOutside S m m := fun _ _ => rfl

theorem SameOutside.trans (h : SameOutside S m m') (h' : SameOutside S m' m'') :
    SameOutside S m m'' := fun j hj => (h' j hj).trans (h j hj)

theorem sameOutside_setPrev (ha : a ∈ S) (b : UInt32) : SameOutside S m (setPrev m a b) :=
  fun j hj => putWord_out (by have := hj a ha; omega)

theorem sameOutside_setNext (ha : a ∈ S) (b : UInt32) : SameOutside S m (setNext m a b) :=
  fun j hj => putWord_out (by have := hj a ha; omega)

theorem Holds.setPrev (hs : Spaced S) (h : Holds S m k) (ha : a ∈ S) (b : UInt32) :
    Holds S (setPrev m a b) (k.setPrev a b) := by
  intro x hx
  by_cases hxa : x = a
  · subst hxa
    have hself : (k.setPrev x b).prev x = b := Function.update_self ..
    refine ⟨?_, (getWord_putWord_of_apart (by omega)).trans (h x hx).2⟩
    exact (getWord_putWord _ _ _).trans hself.symm
  · have hapart := hs x hx a ha hxa
    refine ⟨?_, (getWord_putWord_of_apart (by omega)).trans (h x hx).2⟩
    calc prev (Nodes.setPrev m a b) x
        = prev m x := getWord_putWord_of_apart (by omega)
      _ = k.prev x := (h x hx).1
      _ = (k.setPrev a b).prev x := (Function.update_of_ne hxa ..).symm

theorem Holds.setNext (hs : Spaced S) (h : Holds S m k) (ha : a ∈ S) (b : UInt32) :
    Holds S (setNext m a b) (k.setNext a b) := by
  intro x hx
  by_cases hxa : x = a
  · subst hxa
    have hself : (k.setNext x b).next x = b := Function.update_self ..
    refine ⟨(getWord_putWord_of_apart (by omega)).trans (h x hx).1, ?_⟩
    exact (getWord_putWord _ _ _).trans hself.symm
  · have hapart := hs x hx a ha hxa
    refine ⟨(getWord_putWord_of_apart (by omega)).trans (h x hx).1, ?_⟩
    calc next (Nodes.setNext m a b) x
        = next m x := getWord_putWord_of_apart (by omega)
      _ = k.next x := (h x hx).2
      _ = (k.setNext a b).next x := (Function.update_of_ne hxa ..).symm

/-- A chain in `k` is one in the memory that holds `k`. -/
theorem Holds.follows {ns : List UInt32} (h : Holds S m k) (hsub : ns ⊆ S) (hf : Follows k ns) :
    Follows (links m) ns :=
  hf.congr fun a ha => ⟨(h a (hsub ha)).2, (h a (hsub ha)).1⟩

theorem Spaced.mono {T : List UInt32} (hs : Spaced S) (h : T ⊆ S) : Spaced T :=
  fun a ha b hb hne => hs a (h ha) b (h hb) hne

end Nodes

end Library
