/-
The heap: `block_desc_init`, `sys_malloc`, `sys_free` and `mfree_page` of `kernel/memory.c`.

A heap is the kernel's or that of a process (`Context`), with descriptors, virtual addresses
and memory of its own.  In front of an arena's page stands its header, which names the
descriptor of its blocks: one of `k_block_descs` or of the `u_block_desc` of a PCB, whichever
that is.  A header is a record here and a free list the list of its blocks' addresses; how both
are kept in the memory itself is in `ZyOs.Kernel.ArenaBytes`.  A page that has its virtual
address is there: frames and tables are in `ZyOs.Kernel.Pages`.
-/
import ZyOs.Kernel.Heap
import ZyOs.Kernel.Pages

namespace ZyOs

open Library

/-- `K_HEAP_START` -/
def kHeapStart : Nat := 0xc0100000

/-- `USER_VADDR_START` -/
def userVaddrStart : Nat := 0x8048000

/-- `DESC_CNT` -/
def descCnt : Nat := 7

/-- `sizeof(struct arena)` -/
def arenaSize : Nat := 12

/-- A `struct mem_block_desc*`: whose array it points into, and where. -/
structure DescPtr where
  owner : Context
  idx : Nat
deriving DecidableEq

/-- `struct mem_block_desc` -/
structure MemBlockDesc where
  blockSize : Nat
  blocksPerArena : UInt32
  freeList : List Nat

/-- `struct arena` -/
structure Arena where
  desc : Option DescPtr
  cnt : UInt32
  large : Bool
deriving DecidableEq

/-- The heaps; `arenas` has the header in front of each page that is an arena's first. -/
structure Memory where
  descs : DescPtr → MemBlockDesc
  vaddrs : Context → VirtualAddr
  arenas : Context → Nat → Option Arena
  bytes : Context → Mem
  poolSize : PoolFlag → Nat

abbrev MemoryM := Prog Memory Halt

/-- The pool behind a heap. -/
def Context.flag : Context → PoolFlag
  | .kernel => .kernel
  | .process _ => .user

namespace Memory

def withList (s : Memory) (d : DescPtr) (l : List Nat) : Memory :=
  { s with descs := fun x => if x = d then { s.descs d with freeList := l } else s.descs x }

def withVaddr (s : Memory) (c : Context) (v : VirtualAddr) : Memory :=
  { s with vaddrs := fun x => if x = c then v else s.vaddrs x }

def withArena (s : Memory) (c : Context) (p : Nat) (a : Option Arena) : Memory :=
  { s with arenas := fun x y => if x = c ∧ y = p then a else s.arenas x y }

def withBytes (s : Memory) (c : Context) (m : Mem) : Memory :=
  { s with bytes := fun x => if x = c then m else s.bytes x }

/-- `memset(p, 0, n)` -/
def zeroed (s : Memory) (c : Context) (p n : Nat) : Memory :=
  s.withBytes c ((s.bytes c).fill p 0 n)

end Memory

/-- `block_desc_init` -/
def blockDescInit (owner : Context) (s : Memory) : Memory :=
  { s with descs := fun d =>
      if d.owner = owner then
        ⟨16 * 2 ^ d.idx, UInt32.ofNat ((pageSize - arenaSize) / (16 * 2 ^ d.idx)), []⟩
      else s.descs d }

/-- `arena2block` -/
def arena2block (blockSize a idx : Nat) : Nat := a + arenaSize + idx * blockSize

/-- `block2arena` -/
def block2arena (b : Nat) : Nat := b / pageSize * pageSize

/-! ### Pages -/

/-- `malloc_page` -/
def mallocPages (c : Context) (pgCnt : Nat) : MemoryM (Option Nat) := do
  Prog.lift (ASSERT (0 < pgCnt ∧ pgCnt < 3840) "malloc_page" "pg_cnt > 0 && pg_cnt < 3840")
  let s ← get
  let (v, vaddr) ← Prog.lift (vaddrGet (s.vaddrs c) c.flag pgCnt)
  set (s.withVaddr c v)
  return vaddr

/-- `vaddr_remove` -/
def vaddrRemove (v : VirtualAddr) (vaddr pgCnt : Nat) : VirtualAddr :=
  let bitIdxStart := sub32 vaddr v.vaddrStart / pageSize
  { v with vaddrBitmap :=
      (List.range pgCnt).foldl (fun b i => b.bitmapSet (bitIdxStart + i) false) v.vaddrBitmap }

/-- `mfree_page`: the addresses are given back, and nothing is mapped there. -/
def mfreePage (c : Context) (vaddr pgCnt : Nat) : MemoryM Unit := do
  Prog.lift (ASSERT (1 ≤ pgCnt ∧ vaddr % pageSize = 0) "mfree_page"
    "(pg_cnt >= 1) && ((i_vaddr % PAGE_SIZE) == 0)")
  modify fun s => { s with arenas := fun x y =>
    if x = c ∧ vaddr ≤ y ∧ y < vaddr + pgCnt * pageSize then none else s.arenas x y }
  modify fun s => s.withVaddr c (vaddrRemove (s.vaddrs c) vaddr pgCnt)

/-- The page at `q` is marked as taken. -/
def VirtualAddr.Marked (v : VirtualAddr) (q : Nat) : Prop :=
  q % 4096 = 0 ∧ v.vaddrStart ≤ q ∧ q < 2 ^ 32 ∧
    v.vaddrBitmap.bitmapScanTest ((q - v.vaddrStart) / 4096) = true

/-! ### `sys_malloc` -/

/-- The descriptor whose blocks are large enough. -/
def findDesc (s : Memory) (c : Context) (size : Nat) : Nat → Nat → Nat
  | 0, descIdx => descIdx
  | n + 1, descIdx =>
      if size ≤ (s.descs ⟨c, descIdx⟩).blockSize then descIdx
      else findDesc s c size n (descIdx + 1)

/-- The loop that puts the blocks of a new arena on the free list. -/
def splitArena (d : DescPtr) (a : Nat) : Nat → Nat → MemoryM Unit
  | 0, _ => return ()
  | n + 1, blockIdx => do
      let s ← get
      let b := arena2block (s.descs d).blockSize a blockIdx
      Prog.lift (ASSERT (b ∉ (s.descs d).freeList) "sys_malloc"
        "!elem_find(&a->desc->free_list, &b->free_elem)")
      set (s.withList d ((s.descs d).freeList ++ [b]))
      splitArena d a n (blockIdx + 1)

/-- A page becomes an arena; `false` when there is none. -/
def newArena (c : Context) (d : DescPtr) : MemoryM Bool := do
  match ← mallocPages c 1 with
  | none => return false
  | some a =>
      modify fun s => s.zeroed c a pageSize
      let blocksPerArena := ((← get).descs d).blocksPerArena
      modify fun s => s.withArena c a (some ⟨some d, blocksPerArena, false⟩)
      splitArena d a blocksPerArena.toNat 0
      return true

/-- The first block of the free list. -/
def takeBlock (c : Context) (d : DescPtr) : MemoryM Nat := do
  let s ← get
  match (s.descs d).freeList with
  | [] => Prog.lift (.error (.fault "list_pop"))
  | b :: rest =>
      modify fun s => s.withList d rest
      modify fun s => s.zeroed c b (s.descs d).blockSize
      match (← get).arenas c (block2arena b) with
      | none => Prog.lift (.error (.fault "sys_malloc"))
      | some a =>
          modify fun s => s.withArena c (block2arena b) (some { a with cnt := a.cnt - 1 })
          return b

/-- More than 1024 bytes: pages of their own. -/
def mallocLarge (c : Context) (size : Nat) : MemoryM (Option Nat) := do
  let pageCnt := (size + arenaSize + pageSize - 1) / pageSize
  match ← mallocPages c pageCnt with
  | none => return none
  | some a =>
      modify fun s => s.zeroed c a (pageCnt * pageSize)
      modify fun s => s.withArena c a (some ⟨none, UInt32.ofNat pageCnt, true⟩)
      return some (a + arenaSize)

/-- `sys_malloc` by a task whose heap is `c`; nothing for `NULL`. -/
def sysMalloc (c : Context) (size : Nat) : MemoryM (Option Nat) := do
  let s ← get
  if ¬ (0 < size ∧ size < s.poolSize c.flag) then
    return none
  if 1024 < size then
    mallocLarge c size
  else
    let d : DescPtr := ⟨c, findDesc s c size descCnt 0⟩
    if (s.descs d).freeList = [] then
      if ← newArena c d then
        return some (← takeBlock c d)
      else
        return none
    else
      return some (← takeBlock c d)

/-! ### `sys_free` -/

/-- The loop that takes the blocks of an arena off the free list. -/
def unlinkBlocks (d : DescPtr) (a : Nat) : Nat → Nat → MemoryM Unit
  | 0, _ => return ()
  | n + 1, blockIdx => do
      let s ← get
      let b := arena2block (s.descs d).blockSize a blockIdx
      Prog.lift (ASSERT (b ∈ (s.descs d).freeList) "sys_free"
        "elem_find(&a->desc->free_list, &b->free_elem)")
      set (s.withList d ((s.descs d).freeList.erase b))
      unlinkBlocks d a n (blockIdx + 1)

/-- A block of the arena at `p` goes back, and the arena with its last one. -/
def freeBlockOf (c : Context) (p : Nat) (a : Arena) (d : DescPtr) (b : Nat) : MemoryM Unit := do
  modify fun s => s.withList d ((s.descs d).freeList ++ [b])
  modify fun s => s.withArena c p (some { a with cnt := a.cnt + 1 })
  let blocksPerArena := ((← get).descs d).blocksPerArena
  if a.cnt + 1 = blocksPerArena then
    unlinkBlocks d p blocksPerArena.toNat 0
    mfreePage c p 1

/-- `sys_free` by a task whose heap is `c`. -/
def sysFree (c : Context) (ptr : Nat) : MemoryM Unit := do
  Prog.lift (ASSERT (ptr ≠ 0) "sys_free" "ptr != NULL")
  if c = .kernel then
    Prog.lift (ASSERT (kHeapStart ≤ ptr) "sys_free" "(uint32_t)ptr >= K_HEAP_START")
  -- `large` is a `bool`: the second `ASSERT` says no more than that
  match (← get).arenas c (block2arena ptr) with
  | none => Prog.lift (.error (.fault "sys_free"))
  | some a =>
      match a.desc with
      | none =>
          if a.large then
            mfreePage c (block2arena ptr) a.cnt.toNat
          else
            Prog.lift (.error (.fault "sys_free"))
      | some d => freeBlockOf c (block2arena ptr) a d ptr

/-! ### Before the first call -/

/-- What has been written before the first call: `block_desc_init`, `mem_pool_init` and, for a
process, `create_user_vaddr_bitmap`.  Any pages may be taken already. -/
structure HeapReady (c : Context) (s : Memory) : Prop where
  descs : ∀ i, s.descs ⟨c, i⟩ = (blockDescInit c s).descs ⟨c, i⟩
  arenas : ∀ p, s.arenas c p = none
  -- `kbm_length` is an eighth of a `uint16_t` that has been halved
  kernel : c = .kernel → (s.vaddrs c).vaddrStart = kHeapStart ∧
    (s.vaddrs c).vaddrBitmap.bmapBytesLen ≤ 32767 / 8
  process : c ≠ .kernel → (s.vaddrs c).vaddrStart = userVaddrStart ∧
    (s.vaddrs c).vaddrBitmap.bmapBytesLen = (0xc0000000 - userVaddrStart) / pageSize / 8
  poolSize : ∀ pf, s.poolSize pf ≤ 65535 * pageSize

end ZyOs
