/-
Address spaces: `kernel/memory.c` from `palloc` to `mfree_page`, `create_page_dir` and
`page_dir_activate` of `user_process/process.c`, and what `sys_fork` copies of a process's pages.

In `Kernel/PageAlloc` the tables are two functions of the running task.  Here they stand in the
physical memory, those of all tasks, and the code gets at them as it gets at anything else: by an
address the processor walks (`Kernel/PageTables`).  An access to a page that is not there ends in
a fault.  `memset` and `memcpy` are called on whole entries and whole pages, so they move words.
The bitmaps and the PCBs are kept beside the memory, each with the pages it stands in taken as
the code takes them.  One call goes through before the next one begins, so nobody waits for the
lock of a pool; the locks are in `Kernel/PageAlloc` and `Kernel/Pages`.
-/
import ZyOs.Kernel.PageTables
import ZyOs.Kernel.PageAlloc
import ZyOs.Kernel.Arena

namespace ZyOs.Paged

open Library

/-- What of `struct task_struct` is about pages; `pgDir` is 0 for `NULL`. -/
structure PageTask where
  pgDir : UInt32
  userProcessVaddr : VirtualAddr

/-- The memory, and who has what of it.  A task is the address of its PCB. -/
structure PagedMem where
  phys : PhysMem
  cr3 : UInt32
  kernelPool : Pool
  userPool : Pool
  kernelVaddr : VirtualAddr
  task : Nat → PageTask
  tasks : List Nat
  cur : Nat

abbrev PagedM := Prog PagedMem Halt

namespace PagedMem

def pool (s : PagedMem) : PoolFlag → Pool
  | .kernel => s.kernelPool
  | .user => s.userPool

def withPool (s : PagedMem) (pool : Pool) : PoolFlag → PagedMem
  | .kernel => { s with kernelPool := pool }
  | .user => { s with userPool := pool }

def withTask (s : PagedMem) (t : Nat) (p : PageTask) : PagedMem :=
  { s with task := fun u => if u = t then p else s.task u }

/-- The virtual addresses `vaddr_get` takes from. -/
def vaddrs (s : PagedMem) : PoolFlag → VirtualAddr
  | .kernel => s.kernelVaddr
  | .user => (s.task s.cur).userProcessVaddr

def withVaddrs (s : PagedMem) (v : VirtualAddr) : PoolFlag → PagedMem
  | .kernel => { s with kernelVaddr := v }
  | .user => s.withTask s.cur { s.task s.cur with userProcessVaddr := v }

/-- `t` has a directory of its own. -/
def IsProcess (s : PagedMem) (t : Nat) : Prop := (s.task t).pgDir ≠ 0

instance (s : PagedMem) (t : Nat) : Decidable (s.IsProcess t) :=
  inferInstanceAs (Decidable (_ ≠ _))

end PagedMem

/-- `ASSERT` -/
def assertPaged (c : Prop) [Decidable c] (func condition : String) : PagedM Unit :=
  Prog.lift (ASSERT c func condition)

/-! ### Access -/

/-- What an access to a page that is not there comes to. -/
def pageFault {α : Type} : PagedM α := Prog.lift (.error (.fault "#PF Page-Fault Exception"))

/-- A word is read. -/
def loadWord (vaddr : UInt32) : PagedM UInt32 := do
  let s ← get
  match pageWalk s.phys s.cr3 vaddr with
  | none => pageFault
  | some a => return s.phys a

/-- A word is written. -/
def storeWord (vaddr w : UInt32) : PagedM Unit := do
  let s ← get
  match pageWalk s.phys s.cr3 vaddr with
  | none => pageFault
  | some a => set { s with phys := fun b => if b = a then w else s.phys b }

/-- `memset(vaddr, 0, 4 * n)` -/
def clearWords : Nat → UInt32 → PagedM Unit
  | 0, _ => return ()
  | n + 1, vaddr => do
      storeWord vaddr 0
      clearWords n (vaddr + 4)

/-- `memcpy(dst, src, 4 * n)` -/
def copyWords : Nat → UInt32 → UInt32 → PagedM Unit
  | 0, _, _ => return ()
  | n + 1, dst, src => do
      storeWord dst (← loadWord src)
      copyWords n (dst + 4) (src + 4)

/-- `addr_v2p` -/
def translate (vaddr : UInt32) : PagedM UInt32 := do
  let s ← get
  match addrV2p s.phys s.cr3 vaddr with
  | none => pageFault
  | some a => return a

/-! ### Taking pages -/

/-- `palloc(mem_pool)` -/
def takeFrame (pf : PoolFlag) : PagedM (Option Nat) := do
  let s ← get
  let (pool, frame) ← Prog.lift (palloc (s.pool pf))
  set (s.withPool pool pf)
  return frame

/-- `page_table_add` -/
def pageTableAdd (vaddr : UInt32) (pagePhyaddr : Nat) : PagedM Unit := do
  let pde := pdePtr vaddr
  let pte := ptePtr vaddr
  if isPresent (← loadWord pde) then
    let entry ← loadWord pte
    assertPaged (¬ isPresent entry) "page_table_add" "!(*pte & 0x00000001)"
    storeWord pte (tableEntry pagePhyaddr)
  else
    -- the result is not looked at
    let pdePhyaddr ← takeFrame .kernel
    storeWord pde (tableEntry (pdePhyaddr.getD 0))
    clearWords 1024 (pte &&& 0xfffff000)
    let entry ← loadWord pte
    assertPaged (¬ isPresent entry) "page_table_add" "!(*pte & 0x00000001)"
    storeWord pte (tableEntry pagePhyaddr)

/-- The loop of `malloc_page`; `false` when there is no frame. -/
def mallocPageLoop (pf : PoolFlag) : Nat → UInt32 → PagedM Bool
  | 0, _ => return true
  | cnt + 1, vaddr => do
      match ← takeFrame pf with
      | none => return false
      | some pagePhyaddr =>
          pageTableAdd vaddr pagePhyaddr
          mallocPageLoop pf cnt (vaddr + 4096)

/-- `malloc_page` -/
def mallocPage (pf : PoolFlag) (pgCnt : Nat) : PagedM (Option UInt32) := do
  assertPaged (0 < pgCnt ∧ pgCnt < 3840) "malloc_page" "pg_cnt > 0 && pg_cnt < 3840"
  let s ← get
  let (v, vaddr) ← Prog.lift (vaddrGet (s.vaddrs pf) pf pgCnt)
  set (s.withVaddrs v pf)
  match vaddr with
  | none => return none
  | some vaddr =>
      if ← mallocPageLoop pf pgCnt (UInt32.ofNat vaddr) then
        return some (UInt32.ofNat vaddr)
      else
        return none

/-- `get_kernel_pages` and `get_user_pages` -/
def getPages (pf : PoolFlag) (pgCnt : Nat) : PagedM (Option UInt32) := do
  match ← mallocPage pf pgCnt with
  | none => return none
  | some vaddr =>
      clearWords (1024 * pgCnt) vaddr
      return some vaddr

/-- `get_a_page` -/
def getAPage (pf : PoolFlag) (vaddr : UInt32) : PagedM (Option UInt32) := do
  let s ← get
  if s.IsProcess s.cur ↔ pf = .user then
    let v := s.vaddrs pf
    let bitIdx := sub32 vaddr.toNat v.vaddrStart / pageSize
    assertPaged (0 < bitIdx) "get_a_page" "bit_idx > 0"
    set (s.withVaddrs { v with vaddrBitmap := v.vaddrBitmap.bitmapSet bitIdx true } pf)
    match ← takeFrame pf with
    | none => return none
    | some pagePhyaddr =>
        pageTableAdd vaddr pagePhyaddr
        return some vaddr
  else
    Prog.lift (.error (.panic "get_a_page"
      "get_a_page:not allow kernel alloc userspace or user alloc kernel space by get_a_page"))

/-- `get_a_page_without_opvaddrbitmap` -/
def getAPageWithoutOpvaddrbitmap (pf : PoolFlag) (vaddr : UInt32) : PagedM (Option UInt32) := do
  match ← takeFrame pf with
  | none => return none
  | some pagePhyaddr =>
      pageTableAdd vaddr pagePhyaddr
      return some vaddr

/-! ### Giving pages back -/

/-- `pfree` -/
def pfree (pgPhyAddr : UInt32) : PagedM Unit := modify fun s =>
  let (kernelPool, userPool) := pfreePools s.kernelPool s.userPool pgPhyAddr.toNat
  { s with kernelPool := kernelPool, userPool := userPool }

/-- `page_table_pte_remove` -/
def pageTablePteRemove (vaddr : UInt32) : PagedM Unit := do
  let entry ← loadWord (ptePtr vaddr)
  storeWord (ptePtr vaddr) (entry &&& ~~~ 1)

/-- `mfree_page`: what it asks of a frame, by the pool the first one lies in. -/
def FrameBelongs (s : PagedMem) : PoolFlag → UInt32 → Prop
  | .user, a => a.toNat % pageSize = 0 ∧ s.userPool.phyAddrStart ≤ a.toNat
  | .kernel, a => a.toNat % pageSize = 0 ∧ s.kernelPool.phyAddrStart ≤ a.toNat ∧
      a.toNat < s.userPool.phyAddrStart

instance (s : PagedMem) : ∀ pf a, Decidable (FrameBelongs s pf a)
  | .user, _ => inferInstanceAs (Decidable (_ ∧ _))
  | .kernel, _ => inferInstanceAs (Decidable (_ ∧ _ ∧ _))

/-- The two loops of `mfree_page`. -/
def mfreeLoop (pool : PoolFlag) : Nat → UInt32 → PagedM Unit
  | 0, _ => return ()
  | cnt + 1, vaddr => do
      let pgPhyAddr ← translate vaddr
      assertPaged (FrameBelongs (← get) pool pgPhyAddr) "mfree_page" (match pool with
        | .user => "(pg_phy_addr % PAGE_SIZE) == 0 && pg_phy_addr >= user_pool.phy_addr_start"
        | .kernel => "(pg_phy_addr % PAGE_SIZE) == 0 && pg_phy_addr >= kernel_pool.phy_addr_start && "
            ++ "pg_phy_addr < user_pool.phy_addr_start")
      pfree pgPhyAddr
      pageTablePteRemove vaddr
      mfreeLoop pool cnt (vaddr + 4096)

/-- `mfree_page` -/
def mfreePage (pf : PoolFlag) (vaddr : UInt32) (pgCnt : Nat) : PagedM Unit := do
  assertPaged (1 ≤ pgCnt ∧ vaddr.toNat % pageSize = 0) "mfree_page"
    "(pg_cnt >= 1) && ((i_vaddr % PAGE_SIZE) == 0)"
  let pgPhyAddr ← translate vaddr
  assertPaged (pgPhyAddr.toNat % pageSize = 0 ∧ 0x102000 ≤ pgPhyAddr.toNat) "mfree_page"
    "(pg_phy_addr % PAGE_SIZE) == 0 && pg_phy_addr >= 0x102000"
  if (← get).userPool.phyAddrStart ≤ pgPhyAddr.toNat then
    mfreeLoop .user pgCnt vaddr
  else
    mfreeLoop .kernel pgCnt vaddr
  modify fun s => s.withVaddrs (vaddrRemove (s.vaddrs pf) vaddr.toNat pgCnt) pf

/-! ### Processes -/

/-- `page_dir_activate` -/
def pageDirActivate (t : Nat) : PagedM Unit := do
  let s ← get
  if s.IsProcess t then
    let pageDirPhyAddr ← translate (s.task t).pgDir
    modify fun s => { s with cr3 := pageDirPhyAddr }
  else
    set { s with cr3 := 0x100000 }

/-- `create_page_dir`; 0 is `NULL`. -/
def createPageDir : PagedM UInt32 := do
  match ← getPages .kernel 1 with
  | none => return 0
  | some pageDirVaddr =>
      copyWords 256 (pageDirVaddr + 0x300 * 4) (0xfffff000 + 0x300 * 4)
      let newPageDirPhyAddr ← translate pageDirVaddr
      storeWord (pageDirVaddr + 1023 * 4) (newPageDirPhyAddr ||| 4 ||| 2 ||| 1)
      return pageDirVaddr

/-- `(0xc0000000 - USER_VADDR_START) / PAGE_SIZE / 8` -/
def userBitmapLen : Nat := (0xc0000000 - userVaddrStart) / pageSize / 8

/-- `bitmap_pg_cnt` -/
def bitmapPgCnt : Nat := (userBitmapLen + pageSize - 1) / pageSize

/-- `memset(dst, ...)` with what may be `NULL`. -/
def assertDst (dst : Option UInt32) : PagedM Unit :=
  assertPaged (dst.isSome = true) "memset" "dst != NULL"

/-- `create_user_vaddr_bitmap` -/
def createUserVaddrBitmap (t : Nat) : PagedM Unit := do
  assertDst (← getPages .kernel bitmapPgCnt)
  modify fun s => s.withTask t
    ⟨(s.task t).pgDir, ⟨⟨userBitmapLen, fun _ => 0⟩, userVaddrStart⟩⟩

/-- `process_execute` -/
def processExecute : PagedM Unit := do
  let thread ← getPages .kernel 1
  assertDst thread
  let t := (thread.getD 0).toNat
  modify fun s => s.withTask t ⟨0, ⟨⟨0, fun _ => 0⟩, 0⟩⟩
  createUserVaddrBitmap t
  let pgDir ← createPageDir
  modify fun s => s.withTask t { s.task t with pgDir := pgDir }
  modify fun s => { s with tasks := s.tasks ++ [t] }

/-- `copy_pcb_vaddrbitmap_stack0`: the bitmap the child gets is a copy of the parent's. -/
def copyPcbVaddrbitmapStack0 (child parent : Nat) : PagedM Bool := do
  modify fun s => s.withTask child (s.task parent)
  match ← getPages .kernel bitmapPgCnt with
  | none => return false
  | some _ => return true

/-- `copy_body_stack3`: one page. -/
def copyPage (child parent : Nat) (bufPage processVaddr : UInt32) : PagedM Unit := do
  copyWords 1024 bufPage processVaddr
  pageDirActivate child
  let _ ← getAPageWithoutOpvaddrbitmap .user processVaddr
  copyWords 1024 processVaddr bufPage
  pageDirActivate parent

/-- The inner loop of `copy_body_stack3`, over the bits of a byte. -/
def copyBits (child parent : Nat) (bufPage : UInt32) (v : VirtualAddr) (idxByte : Nat) :
    Nat → Nat → PagedM Unit
  | 0, _ => return ()
  | n + 1, idxBit => do
      if bitMask idxBit &&& v.vaddrBitmap.bits idxByte ≠ 0 then
        copyPage child parent bufPage
          (UInt32.ofNat ((idxByte * 8 + idxBit) * pageSize + v.vaddrStart))
      copyBits child parent bufPage v idxByte n (idxBit + 1)

/-- The outer one, over its bytes. -/
def copyBytes (child parent : Nat) (bufPage : UInt32) (v : VirtualAddr) :
    Nat → Nat → PagedM Unit
  | 0, _ => return ()
  | n + 1, idxByte => do
      if v.vaddrBitmap.bits idxByte ≠ 0 then
        copyBits child parent bufPage v idxByte 8 0
      copyBytes child parent bufPage v n (idxByte + 1)

/-- `copy_body_stack3` -/
def copyBodyStack3 (child parent : Nat) (bufPage : UInt32) : PagedM Unit := do
  let v := ((← get).task parent).userProcessVaddr
  copyBytes child parent bufPage v v.vaddrBitmap.bmapBytesLen 0

/-- `copy_process` -/
def copyProcess (child parent : Nat) : PagedM Bool := do
  match ← getPages .kernel 1 with
  | none => return false
  | some bufPage =>
      if ← copyPcbVaddrbitmapStack0 child parent then
        let pgDir ← createPageDir
        modify fun s => s.withTask child { s.task child with pgDir := pgDir }
        if pgDir = 0 then
          return false
        copyBodyStack3 child parent bufPage
        mfreePage .kernel bufPage 1
        return true
      else
        return false

/-- `sys_fork`; nothing for -1, else the child. -/
def sysFork : PagedM (Option Nat) := do
  let parent := (← get).cur
  match ← getPages .kernel 1 with
  | none => return none
  | some childThread =>
      assertPaged ((← get).IsProcess parent) "sys_fork"
        "INTR_OFF == intr_get_status() && parent_thread->pg_dir != NULL"
      let child := childThread.toNat
      if ← copyProcess child parent then
        modify fun s => { s with tasks := s.tasks ++ [child] }
        return some child
      else
        return none

/-- `process_activate`, when `schedule` has taken `next`. -/
def switchTask (next : Nat) : PagedM Unit := do
  pageDirActivate next
  modify fun s => { s with cur := next }

end ZyOs.Paged
