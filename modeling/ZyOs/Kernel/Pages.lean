/-
Pages: `palloc`, `page_table_add`, `malloc_page` and the calls that come to them, of
`kernel/memory.c`.

A task can be switched away from between any two accesses to what the tasks share, so the
scan and the set of `palloc` are two steps, and so are the test of a directory entry and what
follows it.  Whether the free list of a small block is empty comes with the call of
`sys_malloc`: the lists are no part of the pages.  Of the entries of the tables the P bit is
here; the entries of the kernel's half are shared by all page directories.  `frames` is there
for the proofs only: the frames `palloc(&kernel_pool)` has given out and `pfree` has not taken
back.
-/
import ZyOs.Kernel.Bitmap
import ZyOs.Kernel.Lock

namespace ZyOs

open Library

/-- `PAGE_SIZE` -/
abbrev pageSize : Nat := 4096

/-- `enum pool_flags` -/
inductive PoolFlag where
  | kernel
  | user
deriving DecidableEq

/-- `struct pool` -/
structure Pool where
  poolBitmap : Bitmap
  phyAddrStart : Nat
  poolSize : Nat
  lock : Mutex

/-- `struct virtual_addr` -/
structure VirtualAddr where
  vaddrBitmap : Bitmap
  vaddrStart : Nat

/-- `PDE_IDX` -/
def pdeIdx (vaddr : Nat) : Nat := vaddr / 0x400000

/-! ### Calls -/

/-- A call that may allocate pages. -/
inductive PageCall where
  | getKernelPages (pgCnt : Nat)
  | getUserPages (pgCnt : Nat)
  | sysMalloc (size : Nat) (listEmpty : Bool)
  | getAPage (pf : PoolFlag) (vaddr : Nat)
deriving DecidableEq

/-- What is left of the loop of `malloc_page`; `get_a_page` maps one page and does not give the
lock back when there is none. -/
structure PageJob where
  pf : PoolFlag
  vaddr : Nat
  cnt : Nat
  aPage : Bool
deriving DecidableEq

/-- What a task does next. -/
inductive PagePc where
  /-- it is in no call -/
  | idle
  /-- `lock_acquire(&mem_pool->lock)` -/
  | acquire (call : PageCall)
  /-- `vaddr_get`, or the bit of the address of `get_a_page` -/
  | vaddr (call : PageCall)
  /-- `palloc(mem_pool)`: `bitmap_scan` -/
  | scan (job : PageJob)
  /-- and `bitmap_set` -/
  | set (job : PageJob) (bitIdx : Nat)
  /-- `page_table_add`: `if (*pde & 0x00000001)` -/
  | table (job : PageJob)
  /-- `palloc(&kernel_pool)` for the table: `bitmap_scan` -/
  | tableScan (job : PageJob)
  /-- and `bitmap_set`, up to the `memset` of the table -/
  | tableSet (job : PageJob) (bitIdx : Nat)
  /-- `*pte = ...` -/
  | map (job : PageJob)
  /-- `lock_release(&mem_pool->lock)` -/
  | release (pf : PoolFlag)
deriving DecidableEq

/-- The pools, the address spaces and the tasks. -/
structure PageSys where
  kernelPool : Pool
  userPool : Pool
  kernelVaddr : VirtualAddr
  userVaddr : Nat → VirtualAddr
  /-- `pg_dir != NULL` -/
  isUser : Nat → Bool
  /-- the P bits, of the directory and of the tables; space 0 is the kernel's half -/
  pde : Nat → Nat → Bool
  pte : Nat → Nat → Bool
  pc : Nat → PagePc
  frames : List Nat

abbrev PageM := Prog PageSys Halt

namespace PageSys

/-- Task `t` goes on at `pc`. -/
def goto (s : PageSys) (t : Nat) (pc : PagePc) : PageSys :=
  { s with pc := fun u => if u = t then pc else s.pc u }

def pool (s : PageSys) : PoolFlag → Pool
  | .kernel => s.kernelPool
  | .user => s.userPool

def withPool (s : PageSys) (pool : Pool) : PoolFlag → PageSys
  | .kernel => { s with kernelPool := pool }
  | .user => { s with userPool := pool }

/-- The tables task `t` sees at `vaddr`. -/
def space (t vaddr : Nat) : Nat := if 768 ≤ pdeIdx vaddr then 0 else t + 1

/-- The virtual addresses `vaddr_get` takes from in task `t`. -/
def vaddrs (s : PageSys) (t : Nat) : PoolFlag → VirtualAddr
  | .kernel => s.kernelVaddr
  | .user => s.userVaddr t

def withVaddrs (s : PageSys) (t : Nat) (v : VirtualAddr) : PoolFlag → PageSys
  | .kernel => { s with kernelVaddr := v }
  | .user => { s with userVaddr := fun u => if u = t then v else s.userVaddr u }

end PageSys

/-- The pool a call of task `t` takes from and whose lock it takes. -/
def PageCall.flag (s : PageSys) (t : Nat) : PageCall → PoolFlag
  | .getKernelPages _ => .kernel
  | .getUserPages _ => .user
  | .sysMalloc _ _ => if s.isUser t then .user else .kernel
  | .getAPage pf _ => pf

/-! ### The steps -/

/-- `vaddr_get` -/
def vaddrGet (v : VirtualAddr) (pf : PoolFlag) (pgCnt : Nat) :
    Kernel (VirtualAddr × Option Nat) := do
  let bitIdxStart ← v.vaddrBitmap.bitmapScan pgCnt
  if bitIdxStart = -1 then
    return (v, none)
  let bitIdx := bitIdxStart.toNat
  let bitmap := (List.range pgCnt).foldl (fun b i => b.bitmapSet (bitIdx + i) true) v.vaddrBitmap
  let vaddrStart := (v.vaddrStart + bitIdx * pageSize) % 2 ^ 32
  if pf = .user then
    ASSERT (vaddrStart < 0xc0000000 - pageSize) "vaddr_get"
      "(uint32_t)vaddr_start < (0xc0000000 - PAGE_SIZE)"
  return ({ v with vaddrBitmap := bitmap }, if vaddrStart = 0 then none else some vaddrStart)

/-- `malloc_page`, up to its loop. -/
def mallocPage (t : Nat) (pf : PoolFlag) (pgCnt : Nat) : PageM Unit := do
  let s ← get
  Prog.lift (ASSERT (0 < pgCnt ∧ pgCnt < 3840) "malloc_page" "pg_cnt > 0 && pg_cnt < 3840")
  let (v, vaddr) ← Prog.lift (vaddrGet (s.vaddrs t pf) pf pgCnt)
  let s := s.withVaddrs t v pf
  match vaddr with
  | none => set (s.goto t (.release pf))
  | some vaddr => set (s.goto t (.scan ⟨pf, vaddr, pgCnt, false⟩))

/-- `sys_malloc`, up to `malloc_page` or to the free block it returns. -/
def sysMallocPages (t size : Nat) (listEmpty : Bool) (pf : PoolFlag) : PageM Unit := do
  if 1024 < size then
    -- the arena's head has 12 bytes
    mallocPage t pf (((size + 12) % 2 ^ 32 + pageSize - 1) % 2 ^ 32 / pageSize)
  else if listEmpty then
    mallocPage t pf 1
  else
    modify fun s => s.goto t (.release pf)

/-- `get_a_page`, up to `palloc`. -/
def getAPage (t : Nat) (pf : PoolFlag) (vaddr : Nat) : PageM Unit := do
  let s ← get
  if s.isUser t = (pf == .user) then
    let v := s.vaddrs t pf
    let bitIdx := sub32 vaddr v.vaddrStart / pageSize
    Prog.lift (ASSERT (0 < bitIdx) "get_a_page" "bit_idx > 0")
    let s := s.withVaddrs t { v with vaddrBitmap := v.vaddrBitmap.bitmapSet bitIdx true } pf
    set (s.goto t (.scan ⟨pf, vaddr, 1, true⟩))
  else
    Prog.lift (.error (.panic "get_a_page"
      "get_a_page:not allow kernel alloc userspace or user alloc kernel space by get_a_page"))

/-- What a call does once it has the lock. -/
def pageCallStep (t : Nat) (pf : PoolFlag) : PageCall → PageM Unit
  | .getKernelPages pgCnt => mallocPage t pf pgCnt
  | .getUserPages pgCnt => mallocPage t pf pgCnt
  | .sysMalloc size listEmpty => sysMallocPages t size listEmpty pf
  | .getAPage _ vaddr => getAPage t pf vaddr

/-- `palloc`, its scan: the task goes on at `found` or, without a frame, at `none`. -/
def pallocScan (t : Nat) (pf : PoolFlag) (found : Nat → PagePc) (none : PageM Unit) :
    PageM Unit := do
  let s ← get
  let bitIdx ← Prog.lift ((s.pool pf).poolBitmap.bitmapScan 1)
  if bitIdx = -1 then
    none
  else
    set (s.goto t (found bitIdx.toNat))

/-- `palloc`, its set: the frame is given out. -/
def pallocSet (pf : PoolFlag) (bitIdx : Nat) : PageM Unit := do
  let s ← get
  let pool := s.pool pf
  let pagePhyaddr := bitIdx * pageSize + pool.phyAddrStart
  let s := s.withPool { pool with poolBitmap := pool.poolBitmap.bitmapSet bitIdx true } pf
  match pf with
  | .kernel => set { s with frames := pagePhyaddr :: s.frames }
  | .user => set s

/-- `*pde = ...` and the `memset` of the new table. -/
def newTable (t : Nat) (job : PageJob) : PageM Unit :=
  modify fun s =>
    let sp := PageSys.space t job.vaddr
    { s with
      pde := fun k i => if k = sp ∧ i = pdeIdx job.vaddr then true else s.pde k i
      pte := fun k i => if k = sp ∧ i / 1024 = pdeIdx job.vaddr then false else s.pte k i }

/-- `*pte = ...`, and the next round of the loop or its end. -/
def mapPage (t : Nat) (job : PageJob) : PageM Unit := do
  let s ← get
  let sp := PageSys.space t job.vaddr
  let page := job.vaddr / pageSize
  Prog.lift (ASSERT (s.pte sp page = false) "page_table_add" "!(*pte & 0x00000001)")
  let s := { s with pte := fun k i => if k = sp ∧ i = page then true else s.pte k i }
  if 1 < job.cnt then
    set (s.goto t (.scan { job with vaddr := (job.vaddr + pageSize) % 2 ^ 32, cnt := job.cnt - 1 }))
  else
    set (s.goto t (.release job.pf))

/-- The next step of task `t`. -/
def pageStep (t : Nat) : PageM Unit := do
  let s ← get
  match s.pc t with
  | .idle => return ()
  | .acquire call =>
      let pf := call.flag s t
      let pool := s.pool pf
      set ((s.withPool { pool with lock := pool.lock.acquire t } pf).goto t (.vaddr call))
  | .vaddr call => pageCallStep t (call.flag s t) call
  | .scan job =>
      pallocScan t job.pf (.set job)
        (modify fun s => s.goto t (if job.aPage then .idle else .release job.pf))
  | .set job bitIdx => do
      pallocSet job.pf bitIdx
      modify fun s => s.goto t (.table job)
  | .table job =>
      set (s.goto t (if s.pde (PageSys.space t job.vaddr) (pdeIdx job.vaddr) then .map job
        else .tableScan job))
  | .tableScan job =>
      -- the result is not looked at: without a frame the entry points at frame 0
      pallocScan t .kernel (.tableSet job) do
        newTable t job
        modify fun s => s.goto t (.map job)
  | .tableSet job bitIdx => do
      pallocSet .kernel bitIdx
      newTable t job
      modify fun s => s.goto t (.map job)
  | .map job => mapPage t job
  | .release pf =>
      let pool := s.pool pf
      Prog.lift (ASSERT (pool.lock.holder = some t) "lock_release"
        "plock->holder == running_thread()")
      set ((s.withPool { pool with lock := pool.lock.release } pf).goto t .idle)

/-- A call is made; `sys_malloc` returns at once for a size outside of its pool. -/
def pageCall (t : Nat) (call : PageCall) : PageM Unit := do
  let s ← get
  match call with
  | .sysMalloc size _ =>
      if 0 < size ∧ size < (s.pool (call.flag s t)).poolSize then
        set (s.goto t (.acquire call))
      else
        return ()
  | _ => set (s.goto t (.acquire call))

/-- `pfree` -/
def pfree (pgPhyAddr : Nat) : PageM Unit := do
  let s ← get
  let pf : PoolFlag := if s.userPool.phyAddrStart ≤ pgPhyAddr then .user else .kernel
  let pool := s.pool pf
  let bitIdx := (pgPhyAddr - pool.phyAddrStart) / pageSize
  let s := s.withPool { pool with poolBitmap := pool.poolBitmap.bitmapSet bitIdx false } pf
  set { s with frames := s.frames.erase pgPhyAddr }

/-- What may happen next. -/
inductive PageAction where
  /-- task `t` calls -/
  | call (t : Nat) (call : PageCall)
  /-- and goes on -/
  | step (t : Nat)
  /-- somebody gives back a frame that has been given out -/
  | free (frame : Nat)
deriving DecidableEq

/-- The call that is in `lock_acquire`. -/
def PagePc.acquires : PagePc → Option PageCall
  | .acquire call => some call
  | _ => none

/-- A task waits in `lock_acquire` as long as another one has that lock. -/
def PageSys.Enabled (s : PageSys) : PageAction → Prop
  | .call t _ => s.pc t = .idle
  | .step t => s.pc t ≠ .idle ∧
      ∀ call ∈ (s.pc t).acquires, (s.pool (call.flag s t)).lock.Open t
  | .free frame => frame ∈ s.frames

instance PageSys.decidableEnabled (s : PageSys) : ∀ a, Decidable (s.Enabled a)
  | .call _ _ => inferInstanceAs (Decidable (_ = _))
  | .step _ => inferInstanceAs (Decidable (_ ∧ ∀ call ∈ _, _))
  | .free _ => inferInstanceAs (Decidable (_ ∈ _))

/-! ### The start -/

/-- `mem_pool_init`, in memory with anything in it; no call has been made yet. -/
def memPoolInit (allMem : Nat) (bits : Mem) (userVaddr : Nat → VirtualAddr) (isUser : Nat → Bool)
    (pde pte : Nat → Nat → Bool) : PageSys :=
  let usedMem := pageSize * 256 + 0x100000
  let allFreePages := sub32 allMem usedMem / pageSize % 2 ^ 16
  let kernelFreePages := allFreePages / 2
  let userFreePages := allFreePages - kernelFreePages
  let kbmLength := kernelFreePages / 8
  let ubmLength := userFreePages / 8
  { kernelPool :=
      ⟨Bitmap.bitmapInit ⟨kbmLength, bits⟩, usedMem, kernelFreePages * pageSize, .free⟩
    userPool :=
      ⟨Bitmap.bitmapInit ⟨ubmLength, bits.drop kbmLength⟩, usedMem + kernelFreePages * pageSize,
        userFreePages * pageSize, .free⟩
    kernelVaddr := ⟨Bitmap.bitmapInit ⟨kbmLength, bits.drop (kbmLength + ubmLength)⟩, 0xc0100000⟩
    userVaddr := userVaddr
    isUser := isUser
    pde := pde
    pte := pte
    pc := fun _ => .idle
    frames := [] }

/-- Pages, allocated by any number of tasks.  The tables of the kernel's half are there from the
beginning. -/
def pageMachine : Machine PageSys PageAction Halt where
  init s := ∃ allMem bits userVaddr isUser pde pte, (∀ i, 768 ≤ i → pde 0 i = true) ∧
    s = memPoolInit allMem bits userVaddr isUser pde pte
  enabled := PageSys.Enabled
  exec
    | .call t call => pageCall t call
    | .step t => pageStep t
    | .free frame => pfree frame

instance pageMachine.decidableEnabled (s : PageSys) (a : PageAction) :
    Decidable (pageMachine.enabled s a) :=
  inferInstanceAs (Decidable (s.Enabled a))

end ZyOs
