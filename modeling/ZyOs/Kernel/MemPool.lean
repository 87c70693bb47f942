/-
The pools as `mem_pool_init` of `kernel/memory.c` lays them out.

Everywhere else a bitmap has its bytes to itself.  The three that are made here are pointers into
one memory, right behind one another, and the frames of the two pools are told apart by their
addresses only; whether they stay out of each other's way depends on how much memory there is.
-/
import ZyOs.Kernel.PageAlloc

namespace ZyOs

open Library

/-- `MEM_BITMAP_BASE` -/
def memBitmapBase : Nat := 0xc009a000

/-- `struct bitmap`, with the address of its bytes. -/
structure BitmapAt where
  bmapBytesLen : Nat
  bits : Nat

namespace BitmapAt

/-- What the pointer sees. -/
def view (b : BitmapAt) (mem : Mem) : Bitmap := ⟨b.bmapBytesLen, mem.drop b.bits⟩

/-- `bitmap_init` -/
def init (b : BitmapAt) (mem : Mem) : Mem := mem.fill b.bits 0 b.bmapBytesLen

/-- `bitmap_set` -/
def set (b : BitmapAt) (mem : Mem) (bitIdx : Nat) (value : Bool) : Mem :=
  let byteIdx := bitIdx / 8
  let bitOdd := bitIdx % 8
  let byte := if value then mem (b.bits + byteIdx) ||| bitMask bitOdd
    else mem (b.bits + byteIdx) &&& ~~~ bitMask bitOdd
  fun a => if a = b.bits + byteIdx then byte else mem a

end BitmapAt

/-- `struct pool`, less the lock. -/
structure PoolAt where
  poolBitmap : BitmapAt
  phyAddrStart : Nat
  poolSize : Nat

/-- `struct virtual_addr` -/
structure VirtualAddrAt where
  vaddrBitmap : BitmapAt
  vaddrStart : Nat

/-- `kernel_pool`, `user_pool` and `kernel_vaddr` -/
structure MemPools where
  kernelPool : PoolAt
  userPool : PoolAt
  kernelVaddr : VirtualAddrAt

def MemPools.pool (s : MemPools) : PoolFlag → PoolAt
  | .kernel => s.kernelPool
  | .user => s.userPool

/-- What `mem_pool_init` writes to the three; the numbers of pages are `uint16_t`. -/
def memPools (allMem : Nat) : MemPools :=
  let pageTableSize := pageSize * 256
  let usedMem := pageTableSize + 0x100000
  let freeMem := sub32 allMem usedMem
  let allFreePages := freeMem / pageSize % 2 ^ 16
  let kernelFreePages := allFreePages / 2
  let userFreePages := allFreePages - kernelFreePages
  let kbmLength := kernelFreePages / 8
  let ubmLength := userFreePages / 8
  let kpStart := usedMem
  let upStart := kpStart + kernelFreePages * pageSize
  { kernelPool := ⟨⟨kbmLength, memBitmapBase⟩, kpStart, kernelFreePages * pageSize⟩
    userPool := ⟨⟨ubmLength, memBitmapBase + kbmLength⟩, upStart, userFreePages * pageSize⟩
    kernelVaddr := ⟨⟨kbmLength, memBitmapBase + kbmLength + ubmLength⟩, 0xc0100000⟩ }

/-- The bytes after `mem_pool_init`. -/
def memPoolsMem (allMem : Nat) (mem : Mem) : Mem :=
  let s := memPools allMem
  let mem := s.kernelPool.poolBitmap.init mem
  let mem := s.userPool.poolBitmap.init mem
  s.kernelVaddr.vaddrBitmap.init mem

/-- The address `palloc` makes of a bit. -/
def PoolAt.frame (pool : PoolAt) (bitIdx : Nat) : Nat :=
  (bitIdx * pageSize + pool.phyAddrStart) % 2 ^ 32

/-- `palloc` -/
def PoolAt.palloc (pool : PoolAt) (mem : Mem) : Kernel (Mem × Option Nat) := do
  let bitIdx ← (pool.poolBitmap.view mem).bitmapScan 1
  if bitIdx = -1 then
    return (mem, none)
  let pagePhyaddr := pool.frame bitIdx.toNat
  return (pool.poolBitmap.set mem bitIdx.toNat true,
    if pagePhyaddr = 0 then none else some pagePhyaddr)

/-- `pfree` -/
def MemPools.pfree (s : MemPools) (mem : Mem) (pgPhyAddr : Nat) : Mem :=
  if s.userPool.phyAddrStart ≤ pgPhyAddr then
    let bitIdx := sub32 pgPhyAddr s.userPool.phyAddrStart / pageSize
    s.userPool.poolBitmap.set mem bitIdx false
  else
    let bitIdx := sub32 pgPhyAddr s.kernelPool.phyAddrStart / pageSize
    s.kernelPool.poolBitmap.set mem bitIdx false

end ZyOs
