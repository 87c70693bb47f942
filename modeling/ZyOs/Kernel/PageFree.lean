/-
Giving pages back: `addr_v2p`, `pfree`, `page_table_pte_remove` and `mfree_page` of
`kernel/memory.c`, on the pages of `Kernel/PageAlloc`.
-/
import ZyOs.Kernel.PageAlloc
import ZyOs.Kernel.Arena

namespace ZyOs

open Library

namespace Pager

/-- `addr_v2p`: the entry is read in the window, and its P bit is not looked at. -/
def addrV2p (vaddr : Nat) : PagerM Nat := do
  let s ← get
  if present (s.pde (pdeIdx vaddr)) then
    return (s.pte (vaddr / pageSize) &&& 0xfffff000).toNat + vaddr % pageSize
  else
    Prog.lift (.error (.fault "addr_v2p"))

/-- `pfree` -/
def pfree (s : Pager) (pgPhyAddr : Nat) : Pager :=
  let (kernelPool, userPool) := pfreePools s.kernelPool s.userPool pgPhyAddr
  { s with kernelPool := kernelPool, userPool := userPool }

/-- `page_table_pte_remove` -/
def pageTablePteRemove (s : Pager) (vaddr : Nat) : Pager :=
  s.withPte (vaddr / pageSize) (s.pte (vaddr / pageSize) &&& ~~~ 1)

/-- `mfree_page`: what it asks of a frame, by the pool the first one lies in. -/
def FrameBelongs (s : Pager) : PoolFlag → Nat → Prop
  | .user, a => a % pageSize = 0 ∧ s.userPool.phyAddrStart ≤ a
  | .kernel, a => a % pageSize = 0 ∧ s.kernelPool.phyAddrStart ≤ a ∧ a < s.userPool.phyAddrStart

instance (s : Pager) : ∀ pf a, Decidable (s.FrameBelongs pf a)
  | .user, _ => inferInstanceAs (Decidable (_ ∧ _))
  | .kernel, _ => inferInstanceAs (Decidable (_ ∧ _ ∧ _))

/-- The two loops of `mfree_page`. -/
def mfreeLoop (pool : PoolFlag) : Nat → Nat → PagerM Unit
  | 0, _ => return ()
  | cnt + 1, vaddr => do
      let pgPhyAddr ← addrV2p vaddr
      Prog.lift (ASSERT ((← get).FrameBelongs pool pgPhyAddr) "mfree_page" (match pool with
        | .user => "(pg_phy_addr % PAGE_SIZE) == 0 && pg_phy_addr >= user_pool.phy_addr_start"
        | .kernel => "(pg_phy_addr % PAGE_SIZE) == 0 && pg_phy_addr >= kernel_pool.phy_addr_start && "
            ++ "pg_phy_addr < user_pool.phy_addr_start"))
      modify fun s => s.pfree pgPhyAddr
      modify fun s => s.pageTablePteRemove vaddr
      mfreeLoop pool cnt ((vaddr + pageSize) % 2 ^ 32)

/-- `mfree_page` -/
def mfreePage (pf : PoolFlag) (vaddr pgCnt : Nat) : PagerM Unit := do
  Prog.lift (ASSERT (1 ≤ pgCnt ∧ vaddr % pageSize = 0) "mfree_page"
    "(pg_cnt >= 1) && ((i_vaddr % PAGE_SIZE) == 0)")
  let pgPhyAddr ← addrV2p vaddr
  Prog.lift (ASSERT (pgPhyAddr % pageSize = 0 ∧ 0x102000 ≤ pgPhyAddr) "mfree_page"
    "(pg_phy_addr % PAGE_SIZE) == 0 && pg_phy_addr >= 0x102000")
  if (← get).userPool.phyAddrStart ≤ pgPhyAddr then
    mfreeLoop .user pgCnt vaddr
  else
    mfreeLoop .kernel pgCnt vaddr
  modify fun s => s.withVaddrs (vaddrRemove (s.vaddrs pf) vaddr pgCnt) pf

end Pager

end ZyOs
