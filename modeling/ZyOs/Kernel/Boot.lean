/-
From `boot/loader.s` to the first task: how much memory there is, the tables paging is switched on
with, the pools of `mem_pool_init` and the PCB of the main thread.  After that the kernel's calls
and the writes of the processes follow in any order, which is `paging`.

`setup_page` clears the directory, and of the tables it fills only what the first megabyte needs.
-/
import ZyOs.Library.Machine
import ZyOs.Kernel.MemPool
import ZyOs.Kernel.AddressSpace

namespace ZyOs.Paged

open Library

/-! ### How much memory there is -/

/-- What `int 0x15` says about an area; the upper halves and the type are not looked at. -/
structure Ards where
  baseAddLow : UInt32
  lengthLow : UInt32

/-- `ards_buf` with `ards_nr` areas.  An eleventh one would be written over `ards_nr`, which is behind
the 212 bytes. -/
structure ArdsBuf where
  ards : List Ards
  fits : 20 * ards.length ≤ 212

/-- `.find_max_mem_area`, with `edx`; `jge` takes the numbers as signed. -/
def findMaxMemArea : List Ards → UInt32 → UInt32
  | [], edx => edx
  | ards :: rest, edx =>
      let eax := ards.baseAddLow + ards.lengthLow
      if eax.toInt32 ≤ edx.toInt32 then findMaxMemArea rest edx else findMaxMemArea rest eax

/-- What `int 0x15` answers; the next way to ask is tried when one fails. -/
inductive Int15 where
  | e820 (buf : ArdsBuf)
  | e801 (ax bx : UInt16)
  | ah88 (ax : UInt16)
  | fails

/-- `total_mem_bytes`; nothing when the loader halts. -/
def totalMemBytes : Int15 → Option UInt32
  | .e820 buf => some (findMaxMemArea buf.ards 0)
  | .e801 ax bx => some (ax.toUInt32 * 0x400 + 0x100000 + bx.toUInt32 * 0x10000)
  | .ah88 ax => some (ax.toUInt32 * 0x400 + 0x100000)
  | .fails => none

/-! ### `setup_page` -/

/-- A word is written while paging is off. -/
def physStore (phys : PhysMem) (a w : UInt32) : PhysMem := fun b => if b = a then w else phys b

/-- `PAGE_DIR_TABLE_POS` -/
def pageDirTablePos : UInt32 := 0x100000

/-- `.clear_page_dir` -/
def clearPageDir : Nat → UInt32 → PhysMem → PhysMem
  | 0, _, phys => phys
  | ecx + 1, esi, phys => clearPageDir ecx (esi + 1) (physStore phys (pageDirTablePos + esi * 4) 0)

/-- `.create_pte` and `.create_kernel_pde`: entries of the table at `ebx` for frames one after
another. -/
def createEntries (ebx : UInt32) : Nat → UInt32 → UInt32 → PhysMem → PhysMem
  | 0, _, _, phys => phys
  | ecx + 1, esi, entry, phys =>
      createEntries ebx ecx (esi + 1) (entry + 0x1000) (physStore phys (ebx + esi * 4) entry)

/-- `setup_page` -/
@[irreducible] def setupPage (phys : PhysMem) : PhysMem :=
  let phys := clearPageDir 1024 0 phys
  let ebx := pageDirTablePos + 0x1000
  let eax := ebx ||| 4 ||| 2 ||| 1
  let phys := physStore phys (pageDirTablePos + 0x0) eax
  let phys := physStore phys (pageDirTablePos + 0xc00) eax
  let phys := physStore phys (pageDirTablePos + 4092) (eax - 0x1000)
  let phys := createEntries ebx 256 0 (4 ||| 2 ||| 1) phys
  createEntries pageDirTablePos 254 769 (pageDirTablePos + 0x2000 ||| 4 ||| 2 ||| 1) phys

/-! ### The first task -/

/-- The PCB of the main thread. -/
def mainThread : Nat := 0xc009e000

/-- The pool that `mem_pool_init` has made. -/
def PoolAt.made (pool : PoolAt) (mem : Mem) : Pool :=
  ⟨pool.poolBitmap.view mem, pool.phyAddrStart, pool.poolSize, .free⟩

/-- After `mem_init` and `make_main_thread`; `mem` is where the bitmaps are. -/
def boot (phys : PhysMem) (mem : Mem) (allMem : Nat) : PagedMem :=
  let s := memPools allMem
  let mem := memPoolsMem allMem mem
  { phys := setupPage phys
    cr3 := pageDirTablePos
    kernelPool := PoolAt.made s.kernelPool mem
    userPool := PoolAt.made s.userPool mem
    kernelVaddr := ⟨s.kernelVaddr.vaddrBitmap.view mem, s.kernelVaddr.vaddrStart⟩
    task := fun _ => ⟨0, ⟨⟨0, fun _ => 0⟩, 0⟩⟩
    tasks := [mainThread]
    cur := mainThread }

/-! ### What follows -/

/-- `thread_start`, what of it is about pages. -/
def threadStart : PagedM Unit := do
  let thread ← getPages .kernel 1
  assertDst thread
  let t := (thread.getD 0).toNat
  modify fun s => s.withTask t ⟨0, ⟨⟨0, fun _ => 0⟩, 0⟩⟩
  modify fun s => { s with tasks := s.tasks ++ [t] }

inductive PagingAct where
  | getPages (pf : PoolFlag) (pgCnt : Nat)
  | getAPage (pf : PoolFlag) (vaddr : UInt32)
  | mfreePage (pf : PoolFlag) (vaddr : UInt32) (pgCnt : Nat)
  | threadStart
  | processExecute
  | fork
  | switchTask (next : Nat)
  | store (vaddr w : UInt32)

def PagingAct.exec : PagingAct → PagedM Unit
  | .getPages pf pgCnt => do let _ ← Paged.getPages pf pgCnt
  | .getAPage pf vaddr => do let _ ← Paged.getAPage pf vaddr
  | .mfreePage pf vaddr pgCnt => Paged.mfreePage pf vaddr pgCnt
  | .threadStart => Paged.threadStart
  | .processExecute => Paged.processExecute
  | .fork => do let _ ← sysFork
  | .switchTask next => Paged.switchTask next
  | .store vaddr w => storeWord vaddr w

/-- Only tasks are switched to. -/
def PagingAct.enabled (s : PagedMem) : PagingAct → Prop
  | .switchTask next => next ∈ s.tasks
  | _ => True

/-- The system from the boot on, on a machine with `allMem` bytes. -/
def paging (phys : PhysMem) (mem : Mem) (allMem : Nat) : Machine PagedMem PagingAct Halt where
  init s := s = boot phys mem allMem
  enabled := PagingAct.enabled
  exec := PagingAct.exec

end ZyOs.Paged
