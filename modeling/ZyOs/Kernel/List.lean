/-
`lib/kernel/list.c`: lists through links in their elements.

An element is the address of a `struct list_elem`.  The functions that change links do so with
the interrupts off, so each of them is one step.
-/
import ZyOs.Kernel.Debug
import ZyOs.Library.Linked

namespace ZyOs

open Library

/-- `&list->head` -/
def listHead (list : UInt32) : UInt32 := list

/-- `&list->tail` -/
def listTail (list : UInt32) : UInt32 := list + 8

/-- `list_init` -/
def listInit (h : Links UInt32) (list : UInt32) : Links UInt32 :=
  let h := h.setPrev (listHead list) 0
  let h := h.setNext (listHead list) (listTail list)
  let h := h.setPrev (listTail list) (listHead list)
  h.setNext (listTail list) 0

/-- `list_insert_before` -/
def listInsertBefore (h : Links UInt32) (before elem : UInt32) : Links UInt32 :=
  let h := h.setNext (h.prev before) elem
  let h := h.setPrev elem (h.prev before)
  let h := h.setNext elem before
  h.setPrev before elem

/-- `list_push` -/
def listPush (h : Links UInt32) (plist elem : UInt32) : Links UInt32 :=
  listInsertBefore h (h.next (listHead plist)) elem

/-- `list_append` -/
def listAppend (h : Links UInt32) (plist elem : UInt32) : Links UInt32 :=
  listInsertBefore h (listTail plist) elem

/-- `list_remove` -/
def listRemove (h : Links UInt32) (pelem : UInt32) : Links UInt32 :=
  let h := h.setNext (h.prev pelem) (h.next pelem)
  h.setPrev (h.next pelem) (h.prev pelem)

/-- `list_pop` -/
def listPop (h : Links UInt32) (plist : UInt32) : UInt32 × Links UInt32 :=
  let elem := h.next (listHead plist)
  (elem, listRemove h elem)

/-- The loop of `elem_find`, for that many rounds. -/
def elemFindLoop (h : Links UInt32) (plist objElem : UInt32) : Nat → UInt32 → Kernel Bool
  | 0, _ => .error (.hang "elem_find")
  | rounds + 1, elem =>
      if elem = listTail plist then return false
      else if elem = objElem then return true
      else elemFindLoop h plist objElem rounds (h.next elem)

/-- `elem_find` -/
def elemFind (h : Links UInt32) (rounds : Nat) (plist objElem : UInt32) : Kernel Bool :=
  elemFindLoop h plist objElem rounds (h.next (listHead plist))

/-- `list_empty` -/
def listEmpty (h : Links UInt32) (plist : UInt32) : Bool :=
  h.next (listHead plist) = listTail plist

/-- The loop of `list_traversal`.  The callback may change what it likes apart from the links. -/
def listTraversalLoop {σ : Type} (h : Links UInt32) (plist : UInt32)
    (func : UInt32 → UInt32 → σ → Bool × σ) (arg : UInt32) :
    Nat → UInt32 → σ → Kernel (UInt32 × σ)
  | 0, _, _ => .error (.hang "list_traversal")
  | rounds + 1, elem, s =>
      if elem = listTail plist then return (0, s)
      else
        let (found, s) := func elem arg s
        if found then return (elem, s)
        else listTraversalLoop h plist func arg rounds (h.next elem) s

/-- `list_traversal`: the element, or `NULL`. -/
def listTraversal {σ : Type} (h : Links UInt32) (rounds : Nat) (plist : UInt32)
    (func : UInt32 → UInt32 → σ → Bool × σ) (arg : UInt32) (s : σ) : Kernel (UInt32 × σ) :=
  let elem := h.next (listHead plist)
  if listEmpty h plist then return (0, s)
  else listTraversalLoop h plist func arg rounds elem s

/-- The loop of `list_len`. -/
def listLenLoop (h : Links UInt32) (plist : UInt32) : Nat → UInt32 → UInt32 → Kernel UInt32
  | 0, _, _ => .error (.hang "list_len")
  | rounds + 1, elem, length =>
      if elem = listTail plist then return length
      else listLenLoop h plist rounds (h.next elem) (length + 1)

/-- `list_len` -/
def listLen (h : Links UInt32) (rounds : Nat) (plist : UInt32) : Kernel UInt32 :=
  listLenLoop h plist rounds (h.next (listHead plist)) 0

end ZyOs
