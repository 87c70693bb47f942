/-
The heap as it is in memory: `block_desc_init`, `sys_malloc`, `sys_free` and `mfree_page` of
`kernel/memory.c` on bytes.

The descriptors, the headers of the arenas and the list elements in the free blocks are words of
one memory, the one the `memset`s and the program itself write.  The array of descriptors is
`k_block_descs` or the `u_block_desc` of a PCB; of the virtual addresses the bitmap is apart.
`ZyOs.Kernel.Arena` has the same functions over what these bytes are to say.
-/
import ZyOs.Kernel.Arena
import ZyOs.Kernel.List
import ZyOs.Library.LinkedBytes
import ZyOs.Library.Machine

namespace ZyOs

open Library

/-- A heap: whose it is, where its array of descriptors is, and the size of the pool behind it. -/
structure HeapSite where
  owner : Context
  descs : UInt32
  poolSize : UInt32

/-- What a task of the heap sees: its memory, and the addresses of the heap. -/
structure HeapMem where
  bytes : Mem
  vaddrs : VirtualAddr

abbrev HeapMemM := Prog HeapMem Halt

namespace InMemory

/-! ### Lists -/

/-- `list_init` -/
def listInit (m : Mem) (list : UInt32) : Mem :=
  let m := Nodes.setPrev m (listHead list) 0
  let m := Nodes.setNext m (listHead list) (listTail list)
  let m := Nodes.setPrev m (listTail list) (listHead list)
  Nodes.setNext m (listTail list) 0

/-- `list_insert_before` -/
def listInsertBefore (m : Mem) (before elem : UInt32) : Mem :=
  let m := Nodes.setNext m (Nodes.prev m before) elem
  let m := Nodes.setPrev m elem (Nodes.prev m before)
  let m := Nodes.setNext m elem before
  Nodes.setPrev m before elem

/-- `list_append` -/
def listAppend (m : Mem) (plist elem : UInt32) : Mem := listInsertBefore m (listTail plist) elem

/-- `list_remove` -/
def listRemove (m : Mem) (pelem : UInt32) : Mem :=
  let m := Nodes.setNext m (Nodes.prev m pelem) (Nodes.next m pelem)
  Nodes.setPrev m (Nodes.next m pelem) (Nodes.prev m pelem)

/-- `list_pop` -/
def listPop (m : Mem) (plist : UInt32) : UInt32 × Mem :=
  let elem := Nodes.next m (listHead plist)
  (elem, listRemove m elem)

/-- `elem_find` -/
def elemFind (m : Mem) (plist objElem : UInt32) : Kernel Bool :=
  ZyOs.elemFind (Nodes.links m) (2 ^ 32) plist objElem

/-- `list_empty` -/
def listEmpty (m : Mem) (plist : UInt32) : Bool := ZyOs.listEmpty (Nodes.links m) plist

/-! ### Structures -/

/-- `&descs[idx]` -/
def descAt (descs : UInt32) (idx : Nat) : UInt32 := descs + UInt32.ofNat (24 * idx)

/-- `d->block_size` -/
def blockSize (m : Mem) (d : UInt32) : UInt32 := getWord m d.toNat

/-- `d->blocks_per_arena` -/
def blocksPerArena (m : Mem) (d : UInt32) : UInt32 := getWord m (d.toNat + 4)

/-- `&d->free_list` -/
def freeList (d : UInt32) : UInt32 := d + 8

/-- `a->desc` -/
def desc (m : Mem) (a : UInt32) : UInt32 := getWord m a.toNat

/-- `a->cnt` -/
def cnt (m : Mem) (a : UInt32) : UInt32 := getWord m (a.toNat + 4)

/-- `a->large`; `bool` is `int`. -/
def large (m : Mem) (a : UInt32) : UInt32 := getWord m (a.toNat + 8)

/-- `a->cnt = n` -/
def setCnt (m : Mem) (a n : UInt32) : Mem := putWord m (a.toNat + 4) n

/-- The three members of the header at `a`. -/
def putHeader (m : Mem) (a desc cnt large : UInt32) : Mem :=
  let m := putWord m a.toNat desc
  let m := putWord m (a.toNat + 4) cnt
  putWord m (a.toNat + 8) large

/-- The members of the descriptor at `d`. -/
def putDesc (m : Mem) (d : UInt32) (size : UInt16) : Mem :=
  let m := putWord m d.toNat size.toUInt32
  let m := putWord m (d.toNat + 4) ((4096 - 12) / size.toUInt32)
  listInit m (freeList d)

/-- The loop of `block_desc_init`. -/
def blockDescLoop (descArray : UInt32) : Nat → Nat → UInt16 → Mem → Mem
  | 0, _, _, m => m
  | n + 1, descIdx, size, m =>
      blockDescLoop descArray n (descIdx + 1) (size * 2) (putDesc m (descAt descArray descIdx) size)

/-- `block_desc_init` -/
def blockDescInit (descArray : UInt32) (m : Mem) : Mem := blockDescLoop descArray descCnt 0 16 m

/-- `arena2block` -/
def arena2block (m : Mem) (a idx : UInt32) : UInt32 := a + 12 + idx * blockSize m (desc m a)

/-- `block2arena` -/
def block2arena (b : UInt32) : UInt32 := b &&& 0xfffff000

/-! ### Pages -/

/-- What is written to the memory. -/
def write (f : Mem → Mem) : HeapMemM Unit := modify fun s => { s with bytes := f s.bytes }

/-- `malloc_page`; 0 for `NULL`. -/
def mallocPages (site : HeapSite) (pgCnt : UInt32) : HeapMemM UInt32 := do
  Prog.lift (ASSERT (0 < pgCnt.toNat ∧ pgCnt.toNat < 3840) "malloc_page"
    "pg_cnt > 0 && pg_cnt < 3840")
  let s ← get
  let (v, vaddr) ← Prog.lift (vaddrGet s.vaddrs site.owner.flag pgCnt.toNat)
  set { s with vaddrs := v }
  return UInt32.ofNat (vaddr.getD 0)

/-- `mfree_page` -/
def mfreePage (vaddr pgCnt : UInt32) : HeapMemM Unit := do
  Prog.lift (ASSERT (1 ≤ pgCnt.toNat ∧ vaddr.toNat % pageSize = 0) "mfree_page"
    "(pg_cnt >= 1) && ((i_vaddr % PAGE_SIZE) == 0)")
  modify fun s => { s with vaddrs := vaddrRemove s.vaddrs vaddr.toNat pgCnt.toNat }

/-! ### `sys_malloc` -/

/-- The loop over the descriptors. -/
def findDesc (m : Mem) (descs size : UInt32) : Nat → Nat → Nat
  | 0, descIdx => descIdx
  | n + 1, descIdx =>
      if size ≤ blockSize m (descAt descs descIdx) then descIdx
      else findDesc m descs size n (descIdx + 1)

/-- The loop that puts the blocks of a new arena on the free list, for that many rounds. -/
def splitArena (d a : UInt32) : Nat → UInt32 → HeapMemM Unit
  | 0, _ => Prog.lift (.error (.hang "sys_malloc"))
  | rounds + 1, blockIdx => do
      let m := (← get).bytes
      if blockIdx < blocksPerArena m d then
        let b := arena2block m a blockIdx
        let found ← Prog.lift (elemFind m (freeList (desc m a)) b)
        Prog.lift (ASSERT (found = false) "sys_malloc"
          "!elem_find(&a->desc->free_list, &b->free_elem)")
        write fun m => listAppend m (freeList (desc m a)) b
        splitArena d a rounds (blockIdx + 1)

/-- A page becomes an arena; `false` when there is none. -/
def newArena (site : HeapSite) (d : UInt32) : HeapMemM Bool := do
  let a ← mallocPages site 1
  if a = 0 then
    return false
  else
    write fun m => m.fill a.toNat 0 pageSize
    write fun m => putHeader m a d (blocksPerArena m d) 0
    splitArena d a (2 ^ 32) 0
    return true

/-- The first block of the free list. -/
def takeBlock (d : UInt32) : HeapMemM UInt32 := do
  let b := (listPop (← get).bytes (freeList d)).1
  write fun m => (listPop m (freeList d)).2
  write fun m => m.fill b.toNat 0 (blockSize m d).toNat
  let a := block2arena b
  write fun m => setCnt m a (cnt m a - 1)
  return b

/-- More than 1024 bytes: pages of their own. -/
def mallocLarge (site : HeapSite) (size : UInt32) : HeapMemM UInt32 := do
  let pageCnt := (size + 12 + 4096 - 1) / 4096
  let a ← mallocPages site pageCnt
  if a = 0 then
    return 0
  else
    write fun m => m.fill a.toNat 0 (pageCnt.toNat * pageSize)
    write fun m => putHeader m a 0 pageCnt 1
    return a + 12

/-- `sys_malloc`; 0 for `NULL`. -/
def sysMalloc (site : HeapSite) (size : UInt32) : HeapMemM UInt32 := do
  if ¬ (0 < size ∧ size < site.poolSize) then
    return 0
  else if 1024 < size then
    mallocLarge site size
  else
    let m := (← get).bytes
    let d := descAt site.descs (findDesc m site.descs size descCnt 0)
    if listEmpty m (freeList d) then
      if ← newArena site d then
        takeBlock d
      else
        return 0
    else
      takeBlock d

/-! ### `sys_free` -/

/-- The loop that takes the blocks of an arena off the free list, for that many rounds. -/
def unlinkBlocks (a : UInt32) : Nat → UInt32 → HeapMemM Unit
  | 0, _ => Prog.lift (.error (.hang "sys_free"))
  | rounds + 1, blockIdx => do
      let m := (← get).bytes
      if blockIdx < blocksPerArena m (desc m a) then
        let b := arena2block m a blockIdx
        let found ← Prog.lift (elemFind m (freeList (desc m a)) b)
        Prog.lift (ASSERT (found = true) "sys_free"
          "elem_find(&a->desc->free_list, &b->free_elem)")
        write fun m => listRemove m b
        unlinkBlocks a rounds (blockIdx + 1)

/-- A block of the arena at `a` goes back, and the arena with its last one. -/
def freeBlock (a b : UInt32) : HeapMemM Unit := do
  write fun m => listAppend m (freeList (desc m a)) b
  write fun m => setCnt m a (cnt m a + 1)
  let m := (← get).bytes
  if cnt m a = blocksPerArena m (desc m a) then
    unlinkBlocks a (2 ^ 32) 0
    mfreePage a 1

/-- `sys_free` -/
def sysFree (site : HeapSite) (ptr : UInt32) : HeapMemM Unit := do
  Prog.lift (ASSERT (ptr ≠ 0) "sys_free" "ptr != NULL")
  if site.owner = .kernel then
    Prog.lift (ASSERT (0xc0100000 ≤ ptr) "sys_free" "(uint32_t)ptr >= K_HEAP_START")
  let a := block2arena ptr
  let m := (← get).bytes
  Prog.lift (ASSERT (large m a = 0 ∨ large m a = 1) "sys_free" "a->large == 0 || a->large == 1")
  if desc m a = 0 ∧ large m a = 1 then
    mfreePage a (cnt m a)
  else
    freeBlock a ptr

end InMemory

/-! ### Runs -/

/-- What has been written before the first call: `block_desc_init`, `mem_pool_init` and, for a
process, `create_user_vaddr_bitmap`.  Any pages may be taken already. -/
structure HeapFresh (site : HeapSite) (s : HeapMem) : Prop where
  descs : ∃ m, s.bytes = InMemory.blockDescInit site.descs m
  -- `k_block_descs` is part of the kernel; `kbm_length` is an eighth of a halved `uint16_t`
  kernel : site.owner = .kernel → 0 < site.descs.toNat ∧ site.descs.toNat + 168 ≤ kHeapStart ∧
    s.vaddrs.vaddrStart = kHeapStart ∧ s.vaddrs.vaddrBitmap.bmapBytesLen ≤ 32767 / 8
  -- a PCB is a page from `get_kernel_pages`
  process : site.owner ≠ .kernel → kHeapStart ≤ site.descs.toNat ∧
    site.descs.toNat + 168 ≤ 2 ^ 32 ∧ s.vaddrs.vaddrStart = userVaddrStart ∧
    s.vaddrs.vaddrBitmap.bmapBytesLen = (0xc0000000 - userVaddrStart) / pageSize / 8
  poolSize : site.poolSize.toNat ≤ 65535 * pageSize

/-- A heap, the addresses as they were before the first call, and what has been allocated and not
freed: address and size. -/
structure HeapRun where
  mem : HeapMem
  before : VirtualAddr
  live : List (Nat × Nat)

/-- A call, or a byte that is written in between. -/
inductive HeapOp where
  | malloc (size : UInt32)
  | free (ptr : UInt32)
  | store (addr : Nat) (byte : UInt8)

/-- One of them. -/
def heapOpExec (site : HeapSite) : HeapOp → Prog HeapRun Halt Unit
  | .malloc size, s =>
      match InMemory.sysMalloc site size s.mem with
      | .ok (p, m) =>
          .ok ((), { s with
            mem := m
            live := if p = 0 then s.live else (p.toNat, size.toNat) :: s.live })
      | .error e => .error e
  | .free ptr, s =>
      match InMemory.sysFree site ptr s.mem with
      | .ok (_, m) => .ok ((), { s with mem := m, live := s.live.filter (·.1 ≠ ptr.toNat) })
      | .error e => .error e
  | .store addr byte, s =>
      .ok ((), { s with mem := { s.mem with bytes := Function.update s.mem.bytes addr byte } })

/-- The heap's own bytes: the descriptors, and the pages that have been taken since the start. -/
def HeapRun.Owns (site : HeapSite) (s : HeapRun) (addr : Nat) : Prop :=
  site.descs.toNat ≤ addr ∧ addr < site.descs.toNat + 168 ∨
    s.mem.vaddrs.Marked (addr / pageSize * pageSize) ∧
      ¬ s.before.Marked (addr / pageSize * pageSize)

/-- Only what is live is freed, and of the heap's own bytes only what is live is written. -/
def HeapRun.Enabled (site : HeapSite) (s : HeapRun) : HeapOp → Prop
  | .malloc _ => True
  | .free ptr => ptr.toNat ∈ s.live.map Prod.fst
  | .store addr _ => (∃ x ∈ s.live, x.1 ≤ addr ∧ addr < x.1 + x.2) ∨ ¬ s.Owns site addr

/-- The calls in one heap. -/
def heapOps (site : HeapSite) : Machine HeapRun HeapOp Halt where
  init s := HeapFresh site s.mem ∧ s.before = s.mem.vaddrs ∧ s.live = []
  enabled s := s.Enabled site
  exec := heapOpExec site

end ZyOs
