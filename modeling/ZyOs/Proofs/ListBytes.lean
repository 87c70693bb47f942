/-
Lists in memory.

The list functions on bytes do to the links in the memory what those of `ZyOs.Kernel.List` do
to links, as long as the nodes lie apart, and they write nothing but nodes.  So what is known of
a sequence (`IsList`) holds of the one that is in the memory.
-/
import ZyOs.Kernel.ArenaBytes
import ZyOs.Proofs.List

namespace ZyOs

open Library

namespace InMemory

variable {S l : List UInt32} {m : Mem} {k : Links UInt32} {plist before elem pelem : UInt32}

/-! ### The functions -/

theorem holds_listInit (hs : Nodes.Spaced S) (h : Nodes.Holds S m k) (hhead : listHead plist ∈ S)
    (htail : listTail plist ∈ S) : Nodes.Holds S (listInit m plist) (ZyOs.listInit k plist) :=
  (((h.setPrev hs hhead _).setNext hs hhead _).setPrev hs htail _).setNext hs htail _

theorem sameOutside_listInit (hhead : listHead plist ∈ S) (htail : listTail plist ∈ S) :
    Nodes.SameOutside S m (listInit m plist) :=
  (((Nodes.sameOutside_setPrev hhead _).trans (Nodes.sameOutside_setNext hhead _)).trans
    (Nodes.sameOutside_setPrev htail _)).trans (Nodes.sameOutside_setNext htail _)

theorem holds_listInsertBefore (hs : Nodes.Spaced S) (h : Nodes.Holds S m k) (hbefore : before ∈ S)
    (hprev : k.prev before ∈ S) (helem : elem ∈ S) :
    Nodes.Holds S (listInsertBefore m before elem) (ZyOs.listInsertBefore k before elem) ∧
      Nodes.SameOutside S m (listInsertBefore m before elem) := by
  have hfirst := h.setNext hs hprev elem
  have hread : Nodes.prev m before = k.prev before := (h before hbefore).1
  have hagain : Nodes.prev (Nodes.setNext m (k.prev before) elem) before = k.prev before :=
    (hfirst before hbefore).1
  unfold listInsertBefore
  simp only [hread, hagain]
  refine ⟨((hfirst.setPrev hs helem _).setNext hs helem _).setPrev hs hbefore _, ?_⟩
  exact (((Nodes.sameOutside_setNext hprev _).trans (Nodes.sameOutside_setPrev helem _)).trans
    (Nodes.sameOutside_setNext helem _)).trans (Nodes.sameOutside_setPrev hbefore _)

theorem holds_listRemove (hs : Nodes.Spaced S) (h : Nodes.Holds S m k) (hpelem : pelem ∈ S)
    (hprev : k.prev pelem ∈ S) (hnext : k.next pelem ∈ S) :
    Nodes.Holds S (listRemove m pelem) (ZyOs.listRemove k pelem) ∧
      Nodes.SameOutside S m (listRemove m pelem) := by
  have hfirst := h.setNext hs hprev (k.next pelem)
  have hkeep : (k.setNext (k.prev pelem) (k.next pelem)).next pelem = k.next pelem := by
    by_cases hself : pelem = k.prev pelem
    · exact (congrArg _ hself).trans (Function.update_self ..)
    · exact Function.update_of_ne hself ..
  obtain ⟨hreadPrev, hreadNext⟩ := h pelem hpelem
  obtain ⟨hagainPrev, hagainNext⟩ := hfirst pelem hpelem
  rw [hkeep] at hagainNext
  have hagainPrev : Nodes.prev (Nodes.setNext m (k.prev pelem) (k.next pelem)) pelem
      = k.prev pelem := hagainPrev
  unfold listRemove ZyOs.listRemove
  simp only [hreadPrev, hreadNext, hagainPrev, hagainNext, hkeep]
  exact ⟨hfirst.setPrev hs hnext _,
    (Nodes.sameOutside_setNext hprev _).trans (Nodes.sameOutside_setPrev hnext _)⟩

/-! ### What they do to a list -/

/-- The neighbours of an element are nodes of the list. -/
theorem neighbours_mem (hl : IsList k plist l) (hmem : pelem ∈ l) :
    k.prev pelem ∈ listNodes plist l ∧ k.next pelem ∈ listNodes plist l := by
  obtain ⟨front, back, rfl⟩ := List.append_of_mem hmem
  obtain ⟨next, suf, hsuf⟩ : ∃ next suf, back ++ [listTail plist] = next :: suf :=
    List.exists_cons_of_ne_nil (by simp)
  obtain ⟨pre, a, -, -, hnodes⟩ := listNodes_split plist front hsuf
  have hlinked := hl.linked
  rw [hnodes] at hlinked ⊢
  obtain ⟨-, hprev, hrest⟩ := Follows.split.mp hlinked
  have hnext : k.next pelem = next := (List.isChain_cons_cons.mp hrest).1.1
  rw [hprev.2, hnext]
  simp

/-- What is in front of the end is a node of the list. -/
theorem last_mem (hl : IsList k plist l) : k.prev (listTail plist) ∈ listNodes plist l := by
  obtain ⟨pre, a, -, hnodes, -⟩ := listNodes_split plist l (List.nil_append [listTail plist])
  rw [List.append_nil] at hnodes
  have hlinked := hl.linked
  rw [hnodes] at hlinked ⊢
  rw [(Follows.split.mp hlinked).2.1.2]
  simp

theorem head_mem (plist : UInt32) (l : List UInt32) : listHead plist ∈ listNodes plist l :=
  List.mem_cons_self

theorem tail_mem (plist : UInt32) (l : List UInt32) : listTail plist ∈ listNodes plist l := by
  simp [listNodes]

/-- What holds the links of a list has the list in it. -/
theorem isList_of_holds (h : Nodes.Holds S m k) (hl : IsList k plist l)
    (hsub : listNodes plist l ⊆ S) : IsList (Nodes.links m) plist l :=
  ⟨hl.distinct, h.follows hsub hl.linked⟩

theorem isList_listInit (m : Mem) (hs : Nodes.Spaced (listNodes plist [])) :
    IsList (Nodes.links (listInit m plist)) plist [] ∧
      Nodes.SameOutside (listNodes plist []) m (listInit m plist) :=
  ⟨isList_of_holds (holds_listInit hs (Nodes.holds_links _ m) (head_mem ..) (tail_mem ..))
    (listInit_isList _ _) (List.Subset.refl _),
    sameOutside_listInit (head_mem ..) (tail_mem ..)⟩

theorem isList_append (hl : IsList (Nodes.links m) plist l) (hnew : elem ∉ listNodes plist l)
    (hs : Nodes.Spaced (listNodes plist (l ++ [elem]))) :
    IsList (Nodes.links (listAppend m plist elem)) plist (l ++ [elem]) ∧
      Nodes.SameOutside (listNodes plist (l ++ [elem])) m (listAppend m plist elem) := by
  have hsub : listNodes plist l ⊆ listNodes plist (l ++ [elem]) := by
    intro x hx
    simp only [listNodes, List.mem_cons, List.mem_append] at hx ⊢
    tauto
  obtain ⟨hholds, hsame⟩ := holds_listInsertBefore hs (Nodes.holds_links _ m) (tail_mem ..)
    (hsub (last_mem hl)) (show elem ∈ _ by simp [listNodes])
  exact ⟨isList_of_holds hholds (hl.append hnew).isList (List.Subset.refl _), hsame⟩

theorem isList_remove (hl : IsList (Nodes.links m) plist l) (hmem : pelem ∈ l)
    (hs : Nodes.Spaced (listNodes plist l)) :
    IsList (Nodes.links (listRemove m pelem)) plist (l.erase pelem) ∧
      Nodes.SameOutside (listNodes plist l) m (listRemove m pelem) := by
  have hnode : pelem ∈ listNodes plist l := by simp [listNodes, hmem]
  obtain ⟨hprev, hnext⟩ := neighbours_mem hl hmem
  obtain ⟨hholds, hsame⟩ := holds_listRemove hs (Nodes.holds_links _ m) hnode hprev hnext
  refine ⟨isList_of_holds hholds (hl.remove hmem).isList fun x hx => ?_, hsame⟩
  simp only [listNodes, List.mem_cons, List.mem_append] at hx ⊢
  exact hx.imp_right (Or.imp_left List.mem_of_mem_erase)

/-- `list_pop` returns the first element. -/
theorem listPop_first (hl : IsList (Nodes.links m) plist (elem :: l)) :
    listPop m plist = (elem, listRemove m elem) := by
  have hfirst : Nodes.next m (listHead plist) = elem := (List.isChain_cons_cons.mp hl.linked).1.1
  rw [listPop, hfirst]

theorem elemFind_run (hl : IsList (Nodes.links m) plist l) (objElem : UInt32) :
    elemFind m plist objElem = .ok (decide (objElem ∈ l)) :=
  elemFindLoop_run objElem l _ _ hl.linked hl.tail_not_mem hl.length_lt

theorem listEmpty_run (hl : IsList (Nodes.links m) plist l) :
    listEmpty m plist = true ↔ l = [] := listEmpty_iff hl

end InMemory

end ZyOs
