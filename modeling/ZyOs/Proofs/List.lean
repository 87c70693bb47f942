/-
The list functions implement a sequence.

What a list contains are the elements between its two ends.  Each function that changes links
joins neighbours, so that what it does is `Follows.insert` or `Follows.remove` with the heap
written out; the loops run over the sequence.
-/
import Mathlib.Data.List.Perm.Subperm
import ZyOs.Kernel.List

namespace ZyOs

open Library

variable {h h' : Links UInt32} {plist elem before pelem a : UInt32}
  {l l' front back suf : List UInt32}

/-- The elements of a list with its two ends. -/
def listNodes (plist : UInt32) (l : List UInt32) : List UInt32 :=
  listHead plist :: (l ++ [listTail plist])

/-- The list is well formed, and this is what it contains. -/
structure IsList (h : Links UInt32) (plist : UInt32) (l : List UInt32) : Prop where
  distinct : (listNodes plist l).Nodup
  linked : Follows h (listNodes plist l)

/-- The list contains `l'` where it contained `l`, and the others are as they were. -/
structure ListBecomes (h h' : Links UInt32) (plist : UInt32) (l l' : List UInt32) : Prop where
  isList : IsList h' plist l'
  others : ∀ q m, IsList h q m → (listNodes q m).Disjoint (listNodes plist l) →
    (listNodes q m).Disjoint l' →
    IsList h' q m ∧ ∀ a ∈ listNodes q m, h'.next a = h.next a ∧ h'.prev a = h.prev a

/-! ### The ends -/

theorem listHead_ne_listTail (plist : UInt32) : listHead plist ≠ listTail plist := by
  intro hc
  have hnat := congrArg UInt32.toNat hc
  rw [listTail, UInt32.toNat_add] at hnat
  have h8 : (8 : UInt32).toNat = 8 := rfl
  rw [h8, listHead] at hnat
  omega

theorem listInit_isList (h : Links UInt32) (plist : UInt32) :
    IsList (listInit h plist) plist [] := by
  have hne := listHead_ne_listTail plist
  refine ⟨by simpa [listNodes] using hne, List.isChain_pair.mpr ⟨?_, ?_⟩⟩
  · show Function.update (Function.update h.next _ _) _ _ _ = _
    rw [Function.update_of_ne hne, Function.update_self]
  · exact Function.update_self ..

theorem IsList.tail_not_mem (hl : IsList h plist l) : listTail plist ∉ l := by
  intro hc
  have htail := (List.nodup_cons.mp hl.distinct).2
  exact List.disjoint_of_nodup_append htail hc (List.mem_singleton_self _)

theorem IsList.nodup (hl : IsList h plist l) : l.Nodup :=
  (List.nodup_cons.mp hl.distinct).2.of_append_left

/-- The sequence with its ends, taken apart between two neighbours. -/
theorem listNodes_split (plist : UInt32) (front : List UInt32)
    (hsuf : back ++ [listTail plist] = before :: suf) :
    ∃ pre a, listHead plist :: front = pre ++ [a] ∧
      listNodes plist (front ++ back) = pre ++ a :: before :: suf ∧
      ∀ x, listNodes plist (front ++ x :: back) = pre ++ a :: x :: before :: suf := by
  obtain hnil | ⟨pre, a, hpre⟩ := List.eq_nil_or_concat' (listHead plist :: front)
  · exact nomatch hnil
  have hnodes : ∀ m, listNodes plist (front ++ m) = pre ++ a :: (m ++ [listTail plist]) := by
    intro m
    calc listNodes plist (front ++ m)
        = (listHead plist :: front) ++ (m ++ [listTail plist]) := by simp [listNodes]
      _ = pre ++ a :: (m ++ [listTail plist]) := by rw [hpre]; simp
  refine ⟨pre, a, hpre, by rw [hnodes, hsuf], fun x => ?_⟩
  rw [hnodes, List.cons_append, hsuf]

/-! ### Taking an element in -/

theorem listInsertBefore_eq (h : Links UInt32) (before elem : UInt32) :
    listInsertBefore h before elem = (h.link (h.prev before) elem).link elem before := rfl

/-- `before` may be the end of the list. -/
theorem IsList.insert (hl : IsList h plist (front ++ back))
    (hsuf : back ++ [listTail plist] = before :: suf)
    (helem : elem ∉ listNodes plist (front ++ back)) :
    ListBecomes h (listInsertBefore h before elem) plist (front ++ back)
      (front ++ elem :: back) := by
  obtain ⟨pre, a, -, hold, hnew⟩ := listNodes_split plist front hsuf
  have hlinked := hl.linked
  have hdistinct := hl.distinct
  rw [hold] at hlinked hdistinct helem
  have hprev : h.prev before = a := (Follows.split.mp hlinked).2.1.2
  have hnodup : (pre ++ a :: elem :: before :: suf).Nodup := by
    have happ : ∀ m, pre ++ a :: m = (pre ++ [a]) ++ m := fun m => by simp
    rw [happ] at hdistinct helem ⊢
    exact List.nodup_middle.mpr (List.nodup_cons.mpr ⟨helem, hdistinct⟩)
  refine ⟨⟨by rw [hnew]; exact hnodup, ?_⟩, fun q m hq hdis hdis' => ?_⟩
  · rw [hnew, listInsertBefore_eq, hprev]
    exact hlinked.insert hnodup
  · rw [hold] at hdis
    have hkeep : ∀ x ∈ listNodes q m, (listInsertBefore h before elem).next x = h.next x ∧
        (listInsertBefore h before elem).prev x = h.prev x := by
      intro x hx
      have hxa : x ≠ a := by
        rintro rfl
        exact hdis hx (by simp)
      have hxb : x ≠ before := by
        rintro rfl
        exact hdis hx (by simp)
      have hxe : x ≠ elem := by
        rintro rfl
        exact hdis' hx (by simp)
      rw [listInsertBefore_eq, hprev, Links.link_next_of_ne hxe, Links.link_next_of_ne hxa,
        Links.link_prev_of_ne hxb, Links.link_prev_of_ne hxe]
      exact ⟨rfl, rfl⟩
    exact ⟨⟨hq.distinct, hq.linked.congr hkeep⟩, hkeep⟩

theorem IsList.insertBefore (hl : IsList h plist l) (helem : elem ∉ listNodes plist l)
    (hbefore : before ∈ l ∨ before = listTail plist) :
    ListBecomes h (listInsertBefore h before elem) plist l (insertBefore elem before l) := by
  rcases hbefore with hmem | rfl
  · obtain ⟨front, back, rfl, hfirst⟩ := List.eq_append_cons_of_mem hmem
    rw [insertBefore_split hfirst]
    exact hl.insert rfl helem
  · rw [insertBefore_of_not_mem hl.tail_not_mem]
    rw [← List.append_nil l] at hl helem
    have hins : ListBecomes h _ plist (l ++ []) (l ++ elem :: []) := hl.insert rfl helem
    rwa [List.append_nil] at hins

theorem IsList.push (hl : IsList h plist l) (helem : elem ∉ listNodes plist l) :
    ListBecomes h (listPush h plist elem) plist l (elem :: l) := by
  obtain ⟨first, suf, hsuf⟩ : ∃ first suf, l ++ [listTail plist] = first :: suf :=
    List.exists_cons_of_ne_nil (by simp)
  have hfirst : h.next (listHead plist) = first := by
    have hlinked := hl.linked
    rw [listNodes, hsuf] at hlinked
    exact (List.isChain_cons_cons.mp hlinked).1.1
  rw [listPush, hfirst]
  have hl : IsList h plist ([] ++ l) := hl
  exact hl.insert hsuf helem

theorem IsList.append (hl : IsList h plist l) (helem : elem ∉ listNodes plist l) :
    ListBecomes h (listAppend h plist elem) plist l (l ++ [elem]) := by
  have hins := hl.insertBefore helem (.inr rfl)
  rwa [insertBefore_of_not_mem hl.tail_not_mem] at hins

/-! ### Taking an element out -/

theorem listRemove_eq (hne : pelem ≠ h.prev pelem) :
    listRemove h pelem = h.link (h.prev pelem) (h.next pelem) := by
  have hnext : (h.setNext (h.prev pelem) (h.next pelem)).next pelem = h.next pelem :=
    Function.update_of_ne hne ..
  show (h.setNext (h.prev pelem) (h.next pelem)).setPrev
    ((h.setNext (h.prev pelem) (h.next pelem)).next pelem) (h.prev pelem) = _
  rw [hnext]
  rfl

theorem IsList.remove_between (hl : IsList h plist (front ++ pelem :: back)) :
    ListBecomes h (listRemove h pelem) plist (front ++ pelem :: back) (front ++ back) := by
  obtain ⟨next, suf, hsuf⟩ : ∃ next suf, back ++ [listTail plist] = next :: suf :=
    List.exists_cons_of_ne_nil (by simp)
  obtain ⟨pre, a, -, hnew, hold⟩ := listNodes_split plist front hsuf
  have hlinked := hl.linked
  have hdistinct := hl.distinct
  rw [hold pelem] at hlinked hdistinct
  obtain ⟨-, hprev, hrest⟩ := Follows.split.mp hlinked
  have hnext : h.next pelem = next := (List.isChain_cons_cons.mp hrest).1.1
  have hne : pelem ≠ a := by
    rintro rfl
    exact (List.nodup_cons.mp hdistinct.of_append_right).1 (List.mem_cons_self ..)
  have hlink : listRemove h pelem = h.link a next := by
    rw [listRemove_eq (by rw [hprev.2]; exact hne), hprev.2, hnext]
  have hnodup : (pre ++ a :: next :: suf).Nodup := by
    refine hdistinct.sublist (List.Sublist.append_left ?_ pre)
    exact (List.sublist_cons_self _ _).cons_cons a
  rw [hlink]
  refine ⟨⟨by rw [hnew]; exact hnodup, ?_⟩, fun q m hq hdis _ => ?_⟩
  · rw [hnew]
    exact hlinked.remove hnodup
  · rw [hold pelem] at hdis
    have hkeep : ∀ x ∈ listNodes q m, (h.link a next).next x = h.next x ∧
        (h.link a next).prev x = h.prev x := by
      intro x hx
      have hxa : x ≠ a := by
        rintro rfl
        exact hdis hx (by simp)
      have hxn : x ≠ next := by
        rintro rfl
        exact hdis hx (by simp)
      exact ⟨Links.link_next_of_ne hxa, Links.link_prev_of_ne hxn⟩
    exact ⟨⟨hq.distinct, hq.linked.congr hkeep⟩, hkeep⟩

theorem IsList.remove (hl : IsList h plist l) (hmem : pelem ∈ l) :
    ListBecomes h (listRemove h pelem) plist l (l.erase pelem) := by
  obtain ⟨front, back, rfl, hfirst⟩ := List.eq_append_cons_of_mem hmem
  rw [List.erase_append_right _ hfirst, List.erase_cons_head]
  exact hl.remove_between

theorem IsList.pop (hl : IsList h plist (elem :: l)) :
    ∃ h', listPop h plist = (elem, h') ∧ ListBecomes h h' plist (elem :: l) l := by
  have hfirst : h.next (listHead plist) = elem := (List.isChain_cons_cons.mp hl.linked).1.1
  refine ⟨listRemove h elem, by rw [listPop, hfirst], ?_⟩
  have hl : IsList h plist ([] ++ elem :: l) := hl
  exact hl.remove_between

/-! ### Looking through the list -/

theorem listEmpty_iff (hl : IsList h plist l) : listEmpty h plist = true ↔ l = [] := by
  rw [listEmpty, decide_eq_true_iff]
  cases l with
  | nil => exact iff_of_true (List.isChain_cons_cons.mp hl.linked).1.1 rfl
  | cons x xs =>
      have hfirst : h.next (listHead plist) = x := (List.isChain_cons_cons.mp hl.linked).1.1
      refine iff_of_false (fun hc => ?_) (by simp)
      exact hl.tail_not_mem (by rw [← hc, hfirst]; exact List.mem_cons_self ..)

/-- The loops go on from a node through what is left of the sequence. -/
theorem elemFindLoop_run (objElem : UInt32) : ∀ (l : List UInt32) (a : UInt32) (rounds : Nat),
    Follows h (a :: (l ++ [listTail plist])) → listTail plist ∉ l → l.length < rounds →
    elemFindLoop h plist objElem rounds (h.next a) = .ok (decide (objElem ∈ l)) := by
  intro l
  induction l with
  | nil =>
      intro a rounds hf _ hr
      obtain ⟨n, rfl⟩ : ∃ n, rounds = n + 1 := ⟨rounds - 1, by omega⟩
      have hnext : h.next a = listTail plist := (List.isChain_cons_cons.mp hf).1.1
      rw [elemFindLoop, if_pos hnext]
      rfl
  | cons x xs ih =>
      intro a rounds hf ht hr
      obtain ⟨n, rfl⟩ : ∃ n, rounds = n + 1 := ⟨rounds - 1, by omega⟩
      obtain ⟨hx, hrest⟩ := List.isChain_cons_cons.mp hf
      rw [List.mem_cons, not_or] at ht
      rw [elemFindLoop, hx.1, if_neg (Ne.symm ht.1)]
      by_cases hobj : x = objElem
      · rw [if_pos hobj, hobj]
        simp
      · rw [if_neg hobj, ih x n hrest ht.2 (by rw [List.length_cons] at hr; omega)]
        simp [Ne.symm hobj]

theorem listLenLoop_run : ∀ (l : List UInt32) (a : UInt32) (rounds : Nat) (length : UInt32),
    Follows h (a :: (l ++ [listTail plist])) → listTail plist ∉ l → l.length < rounds →
    listLenLoop h plist rounds (h.next a) length = .ok (length + UInt32.ofNat l.length) := by
  intro l
  induction l with
  | nil =>
      intro a rounds length hf _ hr
      obtain ⟨n, rfl⟩ : ∃ n, rounds = n + 1 := ⟨rounds - 1, by omega⟩
      have hnext : h.next a = listTail plist := (List.isChain_cons_cons.mp hf).1.1
      rw [listLenLoop, if_pos hnext]
      simp
  | cons x xs ih =>
      intro a rounds length hf ht hr
      obtain ⟨n, rfl⟩ : ∃ n, rounds = n + 1 := ⟨rounds - 1, by omega⟩
      obtain ⟨hx, hrest⟩ := List.isChain_cons_cons.mp hf
      rw [List.mem_cons, not_or] at ht
      rw [listLenLoop, hx.1, if_neg (Ne.symm ht.1),
        ih x n _ hrest ht.2 (by rw [List.length_cons] at hr; omega), List.length_cons,
        Nat.add_comm, UInt32.ofNat_add, UInt32.add_assoc]
      rfl

theorem listTraversalLoop_run {σ : Type} (func : UInt32 → UInt32 → σ → Bool × σ) (arg : UInt32) :
    ∀ (l : List UInt32) (a : UInt32) (rounds : Nat) (s : σ),
      Follows h (a :: (l ++ [listTail plist])) → listTail plist ∉ l → l.length < rounds →
      listTraversalLoop h plist func arg rounds (h.next a) s =
        .ok ((firstMatch (func · arg) l s).1.getD 0, (firstMatch (func · arg) l s).2) := by
  intro l
  induction l with
  | nil =>
      intro a rounds s hf _ hr
      obtain ⟨n, rfl⟩ : ∃ n, rounds = n + 1 := ⟨rounds - 1, by omega⟩
      have hnext : h.next a = listTail plist := (List.isChain_cons_cons.mp hf).1.1
      rw [listTraversalLoop, if_pos hnext]
      rfl
  | cons x xs ih =>
      intro a rounds s hf ht hr
      obtain ⟨n, rfl⟩ : ∃ n, rounds = n + 1 := ⟨rounds - 1, by omega⟩
      obtain ⟨hx, hrest⟩ := List.isChain_cons_cons.mp hf
      rw [List.mem_cons, not_or] at ht
      rw [listTraversalLoop, hx.1, if_neg (Ne.symm ht.1), firstMatch]
      by_cases hfound : (func x arg s).1 = true
      · simp only [hfound, if_true]
        rfl
      · simp only [hfound]
        exact ih x n _ hrest ht.2 (by rw [List.length_cons] at hr; omega)

theorem IsList.listTraversal_run {σ : Type} {rounds : Nat} (hl : IsList h plist l)
    (hr : l.length < rounds) (func : UInt32 → UInt32 → σ → Bool × σ) (arg : UInt32) (s : σ) :
    listTraversal h rounds plist func arg s =
      .ok ((firstMatch (func · arg) l s).1.getD 0, (firstMatch (func · arg) l s).2) := by
  rw [listTraversal]
  by_cases hempty : listEmpty h plist = true
  · rw [if_pos hempty, (listEmpty_iff hl).mp hempty]
    rfl
  · rw [if_neg hempty]
    exact listTraversalLoop_run func arg l _ rounds s hl.linked hl.tail_not_mem hr

/-- There are not as many elements as addresses. -/
theorem IsList.length_lt (hl : IsList h plist l) : l.length < 2 ^ 32 := by
  have hmap := hl.distinct.map (f := UInt32.toNat) fun a b => UInt32.toNat_inj.mp
  have hsub : (listNodes plist l).map UInt32.toNat ⊆ List.range (2 ^ 32) := by
    intro n hn
    obtain ⟨a, -, rfl⟩ := List.mem_map.mp hn
    exact List.mem_range.mpr a.toNat_lt
  have hlen := (List.subperm_of_subset hmap hsub).length_le
  rw [List.length_map, List.length_range] at hlen
  simp only [listNodes, List.length_cons, List.length_append, List.length_nil] at hlen
  omega

/-- The list functions do to the sequence of a well formed list what their names say, leave the
other lists alone, and find out about it what the sequence says. -/
theorem list_implements_sequence (hl : IsList h plist l) :
    (∀ elem, elem ∉ listNodes plist l →
      (∀ before, before ∈ l ∨ before = listTail plist →
        ListBecomes h (listInsertBefore h before elem) plist l (insertBefore elem before l)) ∧
      ListBecomes h (listPush h plist elem) plist l (elem :: l) ∧
      ListBecomes h (listAppend h plist elem) plist l (l ++ [elem])) ∧
    (∀ pelem ∈ l, ListBecomes h (listRemove h pelem) plist l (l.erase pelem)) ∧
    (∀ hne : l ≠ [], ∃ h', listPop h plist = (l.head hne, h') ∧
      ListBecomes h h' plist l l.tail) ∧
    (∀ rounds, l.length < rounds →
      (∀ objElem, elemFind h rounds plist objElem = .ok (decide (objElem ∈ l))) ∧
      (∃ n, listLen h rounds plist = .ok n ∧ n.toNat = l.length) ∧
      ∀ (σ : Type) (func : UInt32 → UInt32 → σ → Bool × σ) (arg : UInt32) (s : σ),
        listTraversal h rounds plist func arg s =
          .ok ((firstMatch (func · arg) l s).1.getD 0, (firstMatch (func · arg) l s).2)) ∧
    listEmpty h plist = decide (l = []) := by
  have htail := hl.tail_not_mem
  refine ⟨fun elem helem => ⟨fun before hb => hl.insertBefore helem hb, hl.push helem,
    hl.append helem⟩, fun pelem hmem => hl.remove hmem, fun hne => ?_,
    fun rounds hr => ⟨?_, ?_, ?_⟩, ?_⟩
  · cases l with
    | nil => exact absurd rfl hne
    | cons x xs => exact hl.pop
  · exact fun objElem => elemFindLoop_run objElem l _ rounds hl.linked htail hr
  · refine ⟨UInt32.ofNat l.length, ?_, ?_⟩
    · rw [listLen, listLenLoop_run l _ rounds 0 hl.linked htail hr, UInt32.zero_add]
    · exact Nat.mod_eq_of_lt hl.length_lt
  · exact fun σ func arg s => hl.listTraversal_run hr func arg s
  · rw [Bool.eq_iff_iff, listEmpty_iff hl, decide_eq_true_iff]

/-- The list at `0x1000` after `list_init` and three times `list_append`. -/
def threeLinks : Links UInt32 :=
  listAppend (listAppend (listAppend (listInit ⟨id, id⟩ 0x1000) 0x1000 0x2000) 0x1000 0x3000)
    0x1000 0x4000

theorem threeLinks_isList : IsList threeLinks 0x1000 [0x2000, 0x3000, 0x4000] := by
  have hinit := listInit_isList ⟨id, id⟩ 0x1000
  have hone := (hinit.append (show 0x2000 ∉ _ by decide)).isList
  have htwo := (hone.append (show 0x3000 ∉ _ by decide)).isList
  exact (htwo.append (show 0x4000 ∉ _ by decide)).isList

/-- The element in the middle is removed and another one put in its place; of two that a callback
accepts the first is found. -/
theorem list_implements_sequence_three :
    ListBecomes threeLinks (listRemove threeLinks 0x3000) 0x1000 [0x2000, 0x3000, 0x4000]
      [0x2000, 0x4000] ∧
    ListBecomes threeLinks (listInsertBefore threeLinks 0x3000 0x5000) 0x1000
      [0x2000, 0x3000, 0x4000] [0x2000, 0x5000, 0x3000, 0x4000] ∧
    (∃ h', listPop threeLinks 0x1000 = (0x2000, h') ∧
      ListBecomes threeLinks h' 0x1000 [0x2000, 0x3000, 0x4000] [0x3000, 0x4000]) ∧
    elemFind threeLinks 4 0x1000 0x4000 = .ok true ∧
    listTraversal threeLinks 4 0x1000 (fun elem arg n => (arg ≤ elem, n + 1)) 0x2800 0
      = .ok (0x3000, 2) := by
  obtain ⟨hin, hremove, hpop, hlook, -⟩ := list_implements_sequence threeLinks_isList
  obtain ⟨hfind, -, htraverse⟩ := hlook 4 (by decide)
  exact ⟨hremove 0x3000 (by decide), (hin 0x5000 (by decide)).1 0x3000 (.inl (by decide)),
    hpop (by decide), hfind 0x4000, htraverse ℕ _ 0x2800 0⟩

end ZyOs
