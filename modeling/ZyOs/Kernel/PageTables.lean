/-
The page tables: what the processor makes of an address, and `pte_ptr`, `pde_ptr` and `addr_v2p`
of `kernel/memory.c`, which get at the tables themselves through the last entry of the directory.

The physical memory is its words by their addresses.  An access to a page that is not there ends
in a fault, which is `none`.
-/
import Mathlib.Tactic

namespace ZyOs

/-- The words of the physical memory. -/
abbrev PhysMem := UInt32 → UInt32

/-- The P bit, `PG_P_1`. -/
def isPresent (entry : UInt32) : Prop := entry &&& 1 ≠ 0

instance (entry : UInt32) : Decidable (isPresent entry) := inferInstanceAs (Decidable (_ ≠ _))

/-- The frame an entry names, or `cr3` does. -/
def frameOf (entry : UInt32) : UInt32 := entry &&& 0xfffff000

/-! ### The processor -/

/-- Where the processor finds the directory entry for an address. -/
def pdeAddr (cr3 vaddr : UInt32) : UInt32 := frameOf cr3 + (vaddr >>> 22) * 4

/-- Where it finds the table entry, once it has the directory's. -/
def pteAddr (pde vaddr : UInt32) : UInt32 := frameOf pde + (vaddr >>> 12 &&& 0x3ff) * 4

/-- The physical address. -/
def pageWalk (phys : PhysMem) (cr3 vaddr : UInt32) : Option UInt32 :=
  let pde := phys (pdeAddr cr3 vaddr)
  if isPresent pde then
    let pte := phys (pteAddr pde vaddr)
    if isPresent pte then some (frameOf pte + (vaddr &&& 0xfff)) else none
  else none

/-- A word that is read through the tables. -/
def pageLoad (phys : PhysMem) (cr3 vaddr : UInt32) : Option UInt32 := (pageWalk phys cr3 vaddr).map phys

/-! ### The window -/

/-- `PDE_IDX` -/
def pdeIdx32 (addr : UInt32) : UInt32 := (addr &&& 0xffc00000) >>> 22

/-- `PTE_IDX` -/
def pteIdx32 (addr : UInt32) : UInt32 := (addr &&& 0x003ff000) >>> 12

/-- `pte_ptr` -/
def ptePtr (vaddr : UInt32) : UInt32 :=
  (0xffc00000 : UInt32) + ((vaddr &&& 0xffc00000) >>> 10) + pteIdx32 vaddr * 4

/-- `pde_ptr` -/
def pdePtr (vaddr : UInt32) : UInt32 := 0xfffff000 + pdeIdx32 vaddr * 4

/-- `addr_v2p` -/
def addrV2p (phys : PhysMem) (cr3 vaddr : UInt32) : Option UInt32 := do
  let pte ← pageLoad phys cr3 (ptePtr vaddr)
  return (pte &&& 0xfffff000) + (vaddr &&& 0x00000fff)

end ZyOs
