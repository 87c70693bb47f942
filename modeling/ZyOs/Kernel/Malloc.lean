/-
`sys_malloc` of `kernel/memory.c` with everything it needs: the heap of `Kernel/Arena`, and the
frames, the tables and the lock behind it of `Kernel/PageAlloc`.

The virtual addresses and the sizes of the pools are those of the pages; the heap is looked at
with them.
-/
import ZyOs.Kernel.Arena
import ZyOs.Kernel.PageAlloc

namespace ZyOs

open Library

/-- The heaps and the pages under them. -/
structure MemSys where
  heap : Memory
  pages : Pager

abbrev MemSysM := Prog MemSys Halt

namespace MemSys

/-- The heap `c` with its addresses. -/
def memory (s : MemSys) (c : Context) : Memory :=
  { s.heap with
    vaddrs := fun x => if x = c then s.pages.vaddrs c.flag else s.heap.vaddrs x
    poolSize := fun pf => (s.pages.pool pf).poolSize }

/-- Code that works on the arenas. -/
def onHeap {α : Type} (c : Context) (x : MemoryM α) : MemSysM α := fun s =>
  match x (s.memory c) with
  | .ok (a, m) => .ok (a, { s with heap := m })
  | .error e => .error e

/-- Code that works on the pages. -/
def onPages {α : Type} (x : PagerM α) : MemSysM α := fun s =>
  match x s.pages with
  | .ok (a, p) => .ok (a, { s with pages := p })
  | .error e => .error e

/-- The page at `a` becomes an arena whose blocks go on the list of `d`. -/
def setArena (c : Context) (d : DescPtr) (a : Nat) : MemoryM Unit := do
  modify fun s => s.zeroed c a pageSize
  let blocksPerArena := ((← get).descs d).blocksPerArena
  modify fun s => s.withArena c a (some ⟨some d, blocksPerArena, false⟩)
  splitArena d a blocksPerArena.toNat 0

/-- The pages at `a` become an arena of their own. -/
def setLarge (c : Context) (a pageCnt : Nat) : MemoryM Unit := do
  modify fun s => s.zeroed c a (pageCnt * pageSize)
  modify fun s => s.withArena c a (some ⟨none, UInt32.ofNat pageCnt, true⟩)

/-- The pages of `size` bytes and their header. -/
def mallocPageCnt (size : Nat) : Nat := (size + arenaSize + pageSize - 1) / pageSize

/-- More than 1024 bytes, under the lock. -/
def mallocLarge (t : Nat) (c : Context) (size : Nat) : MemSysM (Option Nat) := do
  let pageCnt := mallocPageCnt size
  match ← onPages (mallocPageWith Bitmap.bitmapScan c.flag pageCnt) with
  | some a =>
      onHeap c (setLarge c a pageCnt)
      onPages (poolRelease t c.flag)
      return some (a + arenaSize)
  | none =>
      onPages (poolRelease t c.flag)
      return none

/-- A block from the list of `d`, under the lock. -/
def mallocBlock (t : Nat) (c : Context) (d : DescPtr) : MemSysM (Option Nat) := do
  let b ← onHeap c (takeBlock c d)
  onPages (poolRelease t c.flag)
  return some b

/-- At most 1024 bytes, under the lock. -/
def mallocSmall (t : Nat) (c : Context) (size : Nat) : MemSysM (Option Nat) := do
  let s ← get
  let d : DescPtr := ⟨c, findDesc s.heap c size descCnt 0⟩
  if (s.heap.descs d).freeList = [] then
    match ← onPages (mallocPageWith Bitmap.bitmapScan c.flag 1) with
    | none =>
        onPages (poolRelease t c.flag)
        return none
    | some a =>
        onHeap c (setArena c d a)
        mallocBlock t c d
  else
    mallocBlock t c d

/-- `sys_malloc` by task `t`, whose heap is `c`. -/
def sysMalloc (t : Nat) (c : Context) (size : Nat) : MemSysM (Option Nat) := do
  let s ← get
  if ¬ (0 < size ∧ size < (s.pages.pool c.flag).poolSize) then
    return none
  onPages (poolAcquire t c.flag)
  if 1024 < size then
    mallocLarge t c size
  else
    mallocSmall t c size

end MemSys

end ZyOs
