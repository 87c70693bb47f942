/-
A page allocation from beginning to end: `palloc`, `vaddr_get`, `page_table_add`, `malloc_page`
and the four calls that come to them, of `kernel/memory.c`.

`Kernel/Pages` has these functions in steps, with other tasks in between; here one call of the
running task goes through, on the entries of its page tables as they are.  The tables are what
the window at the end of the address space shows: the directory's entries by their number and
the tables' by the number of the page they are about.  `bitmap_scan` is a parameter as in
`Kernel/Scarce`.
-/
import ZyOs.Kernel.Pages
import ZyOs.Kernel.Scarce

namespace ZyOs

open Library

/-! ### Frames -/

/-- `palloc`, over what stands in for `bitmap_scan`: the pool after it and the frame's address,
nothing for `NULL`. -/
def pallocWith (scan : Scan) (pool : Pool) : Kernel (Pool × Option Nat) := do
  let bitIdx ← scan pool.poolBitmap 1
  if bitIdx = -1 then
    return (pool, none)
  let pagePhyaddr := (bitIdx.toNat * pageSize + pool.phyAddrStart) % 2 ^ 32
  return ({ pool with poolBitmap := pool.poolBitmap.bitmapSet bitIdx.toNat true },
    if pagePhyaddr = 0 then none else some pagePhyaddr)

/-- `palloc` -/
def palloc (pool : Pool) : Kernel (Pool × Option Nat) := pallocWith Bitmap.bitmapScan pool

/-- `vaddr_get`, over what stands in for `bitmap_scan`. -/
def vaddrGetWith (scan : Scan) (v : VirtualAddr) (pf : PoolFlag) (pgCnt : Nat) :
    Kernel (VirtualAddr × Option Nat) := do
  let bitIdxStart ← scan v.vaddrBitmap pgCnt
  if bitIdxStart = -1 then
    return (v, none)
  let bitIdx := bitIdxStart.toNat
  let bitmap := (List.range pgCnt).foldl (fun b i => b.bitmapSet (bitIdx + i) true) v.vaddrBitmap
  let vaddrStart := (v.vaddrStart + bitIdx * pageSize) % 2 ^ 32
  if pf = .user then
    ASSERT (vaddrStart < 0xc0000000 - pageSize) "vaddr_get"
      "(uint32_t)vaddr_start < (0xc0000000 - PAGE_SIZE)"
  return ({ v with vaddrBitmap := bitmap }, if vaddrStart = 0 then none else some vaddrStart)

theorem vaddrGetWith_bitmapScan (v : VirtualAddr) (pf : PoolFlag) (pgCnt : Nat) :
    vaddrGetWith Bitmap.bitmapScan v pf pgCnt = vaddrGet v pf pgCnt := rfl

/-! ### The state -/

/-- The memory as the running task sees it. -/
structure Pager where
  kernelPool : Pool
  userPool : Pool
  kernelVaddr : VirtualAddr
  /-- `user_process_vaddr` of the task -/
  userVaddr : VirtualAddr
  /-- `pg_dir != NULL` -/
  isUser : Bool
  /-- the entries of the directory, and those of the tables by the number of the page -/
  pde : Nat → UInt32
  pte : Nat → UInt32

abbrev PagerM := Prog Pager Halt

namespace Pager

def pool (s : Pager) : PoolFlag → Pool
  | .kernel => s.kernelPool
  | .user => s.userPool

def withPool (s : Pager) (pool : Pool) : PoolFlag → Pager
  | .kernel => { s with kernelPool := pool }
  | .user => { s with userPool := pool }

def vaddrs (s : Pager) : PoolFlag → VirtualAddr
  | .kernel => s.kernelVaddr
  | .user => s.userVaddr

def withVaddrs (s : Pager) (v : VirtualAddr) : PoolFlag → Pager
  | .kernel => { s with kernelVaddr := v }
  | .user => { s with userVaddr := v }

/-- An entry of the tables is written. -/
def withPte (s : Pager) (page : Nat) (entry : UInt32) : Pager :=
  { s with pte := fun k => if k = page then entry else s.pte k }

end Pager

/-- The P bit of an entry. -/
def present (entry : UInt32) : Bool := entry &&& 1 ≠ 0

/-- `page_phyaddr | PG_US_U | PG_RW_W | PG_P_1` -/
def tableEntry (pagePhyaddr : Nat) : UInt32 := UInt32.ofNat pagePhyaddr ||| 4 ||| 2 ||| 1

/-- `lock_acquire(&mem_pool->lock)` by task `t`, which need not wait. -/
def poolAcquire (t : Nat) (pf : PoolFlag) : PagerM Unit :=
  modify fun s => s.withPool { s.pool pf with lock := (s.pool pf).lock.acquire t } pf

/-- `lock_release(&mem_pool->lock)` -/
def poolRelease (t : Nat) (pf : PoolFlag) : PagerM Unit := do
  let s ← get
  Prog.lift (ASSERT ((s.pool pf).lock.holder = some t) "lock_release"
    "plock->holder == running_thread()")
  set (s.withPool { s.pool pf with lock := (s.pool pf).lock.release } pf)

section

variable (scan : Scan)

/-- `palloc(mem_pool)` -/
def poolAlloc (pf : PoolFlag) : PagerM (Option Nat) := do
  let s ← get
  let (pool, frame) ← Prog.lift (pallocWith scan (s.pool pf))
  set (s.withPool pool pf)
  return frame

/-- `page_table_add` -/
def pageTableAdd (vaddr pagePhyaddr : Nat) : PagerM Unit := do
  if present ((← get).pde (pdeIdx vaddr)) then
    Prog.lift (ASSERT (present ((← get).pte (vaddr / pageSize)) = false) "page_table_add"
      "!(*pte & 0x00000001)")
    modify fun s => s.withPte (vaddr / pageSize) (tableEntry pagePhyaddr)
  else
    -- the result is not looked at: without a frame the entry is for frame 0
    let pdePhyaddr ← poolAlloc scan .kernel
    modify fun s => { s with
      pde := fun i => if i = pdeIdx vaddr then tableEntry (pdePhyaddr.getD 0) else s.pde i
      pte := fun k => if k / 1024 = pdeIdx vaddr then 0 else s.pte k }
    Prog.lift (ASSERT (present ((← get).pte (vaddr / pageSize)) = false) "page_table_add"
      "!(*pte & 0x00000001)")
    modify fun s => s.withPte (vaddr / pageSize) (tableEntry pagePhyaddr)

/-- The loop of `malloc_page`; `false` when there is no frame. -/
def mallocPageLoop (pf : PoolFlag) : Nat → Nat → PagerM Bool
  | 0, _ => return true
  | cnt + 1, vaddr => do
      match ← poolAlloc scan pf with
      | none => return false
      | some pagePhyaddr =>
          pageTableAdd scan vaddr pagePhyaddr
          mallocPageLoop pf cnt ((vaddr + pageSize) % 2 ^ 32)

/-- `malloc_page` -/
def mallocPageWith (pf : PoolFlag) (pgCnt : Nat) : PagerM (Option Nat) := do
  Prog.lift (ASSERT (0 < pgCnt ∧ pgCnt < 3840) "malloc_page" "pg_cnt > 0 && pg_cnt < 3840")
  let s ← get
  let (v, vaddr) ← Prog.lift (vaddrGetWith scan (s.vaddrs pf) pf pgCnt)
  set (s.withVaddrs v pf)
  match vaddr with
  | none => return none
  | some vaddr =>
      if ← mallocPageLoop scan pf pgCnt vaddr then
        return some vaddr
      else
        return none

/-- `get_kernel_pages` and `get_user_pages`, without the `memset` of the pages. -/
def getPagesWith (t : Nat) (pf : PoolFlag) (pgCnt : Nat) : PagerM (Option Nat) := do
  poolAcquire t pf
  let vaddr ← mallocPageWith scan pf pgCnt
  poolRelease t pf
  return vaddr

/-- `get_a_page` -/
def getAPageWith (t : Nat) (pf : PoolFlag) (vaddr : Nat) : PagerM (Option Nat) := do
  poolAcquire t pf
  let s ← get
  if s.isUser = (pf == .user) then
    let v := s.vaddrs pf
    let bitIdx := sub32 vaddr v.vaddrStart / pageSize
    Prog.lift (ASSERT (0 < bitIdx) "get_a_page" "bit_idx > 0")
    set (s.withVaddrs { v with vaddrBitmap := v.vaddrBitmap.bitmapSet bitIdx true } pf)
    match ← poolAlloc scan pf with
    | none => return none
    | some pagePhyaddr =>
        pageTableAdd scan vaddr pagePhyaddr
        poolRelease t pf
        return some vaddr
  else
    Prog.lift (.error (.panic "get_a_page"
      "get_a_page:not allow kernel alloc userspace or user alloc kernel space by get_a_page"))

/-- `get_a_page_without_opvaddrbitmap` -/
def getAPageWithoutOpvaddrbitmapWith (t : Nat) (pf : PoolFlag) (vaddr : Nat) :
    PagerM (Option Nat) := do
  poolAcquire t pf
  match ← poolAlloc scan pf with
  | none =>
      poolRelease t pf
      return none
  | some pagePhyaddr =>
      pageTableAdd scan vaddr pagePhyaddr
      poolRelease t pf
      return some vaddr

end

/-! ### The calls -/

/-- The functions that allocate pages. -/
inductive PageRequest where
  | mallocPage (pf : PoolFlag) (pgCnt : Nat)
  | getKernelPages (pgCnt : Nat)
  | getUserPages (pgCnt : Nat)
  | getAPage (pf : PoolFlag) (vaddr : Nat)
  | getAPageWithoutOpvaddrbitmap (pf : PoolFlag) (vaddr : Nat)
deriving DecidableEq

namespace PageRequest

/-- The request of task `t`. -/
def run (scan : Scan) (t : Nat) : PageRequest → PagerM (Option Nat)
  | .mallocPage pf pgCnt => mallocPageWith scan pf pgCnt
  | .getKernelPages pgCnt => getPagesWith scan t .kernel pgCnt
  | .getUserPages pgCnt => getPagesWith scan t .user pgCnt
  | .getAPage pf vaddr => getAPageWith scan t pf vaddr
  | .getAPageWithoutOpvaddrbitmap pf vaddr => getAPageWithoutOpvaddrbitmapWith scan t pf vaddr

/-- The pool it takes from. -/
def flag : PageRequest → PoolFlag
  | .mallocPage pf _ => pf
  | .getKernelPages _ => .kernel
  | .getUserPages _ => .user
  | .getAPage pf _ => pf
  | .getAPageWithoutOpvaddrbitmap pf _ => pf

end PageRequest

/-! ### Giving back -/

/-- `pfree` on the two pools. -/
def pfreePools (kernelPool userPool : Pool) (pgPhyAddr : Nat) : Pool × Pool :=
  if userPool.phyAddrStart ≤ pgPhyAddr then
    let bitIdx := sub32 pgPhyAddr userPool.phyAddrStart / pageSize
    (kernelPool, { userPool with poolBitmap := userPool.poolBitmap.bitmapSet bitIdx false })
  else
    let bitIdx := sub32 pgPhyAddr kernelPool.phyAddrStart / pageSize
    ({ kernelPool with poolBitmap := kernelPool.poolBitmap.bitmapSet bitIdx false }, userPool)

end ZyOs
