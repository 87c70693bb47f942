/-
What the window shows.

The last entry of the directory names the directory itself.  An address whose upper field is 1023
is therefore looked up in the directory a second time, as if that were a table, and one that has
1023 in both fields ends in the directory.  What is left of the address says which entry.
-/
import ZyOs.Library.BitFields
import ZyOs.Kernel.PageTables
import ZyOs.Kernel.Pages

namespace ZyOs

open Library

/-! ### Fields -/

theorem toNat_pdeField (vaddr : UInt32) : (vaddr >>> 22).toNat = vaddr.toNat / 2 ^ 22 :=
  toNat_shiftRight _ _ rfl (by decide)

theorem toNat_pteField (vaddr : UInt32) :
    (vaddr >>> 12 &&& 0x3ff).toNat = vaddr.toNat / 2 ^ 12 % 2 ^ 10 := by
  rw [toNat_and_low (k := 10) _ _ rfl, toNat_shiftRight (k := 12) _ _ rfl (by decide)]

/-- `PDE_IDX` is the field the processor takes for the directory. -/
theorem pdeIdx32_eq (vaddr : UInt32) : pdeIdx32 vaddr = vaddr >>> 22 := by
  apply UInt32.toNat_inj.mp
  rw [toNat_pdeField, pdeIdx32, toNat_shiftRight (k := 22) _ _ rfl (by decide),
    toNat_and_high (k := 22) _ _ (by decide) rfl]
  omega

/-- `PTE_IDX` is the one it takes for the table. -/
theorem pteIdx32_eq (vaddr : UInt32) : pteIdx32 vaddr = vaddr >>> 12 &&& 0x3ff := by
  apply UInt32.toNat_inj.mp
  rw [pteIdx32, UInt32.toNat_shiftRight, UInt32.toNat_and, UInt32.toNat_and,
    UInt32.toNat_shiftRight, Nat.shiftRight_and_distrib]
  rfl

/-- The address of `pte_ptr`, field by field. -/
theorem toNat_ptePtr (vaddr : UInt32) : (ptePtr vaddr).toNat
    = 1023 * 2 ^ 22 + vaddr.toNat / 2 ^ 22 * 2 ^ 12 + vaddr.toNat / 2 ^ 12 % 2 ^ 10 * 4 := by
  have hlt := vaddr.toNat_lt
  have hhigh : ((vaddr &&& 0xffc00000) >>> 10).toNat = vaddr.toNat / 2 ^ 22 * 2 ^ 12 := by
    rw [toNat_shiftRight (k := 10) _ _ rfl (by decide),
      toNat_and_high (k := 22) _ _ (by decide) rfl]
    omega
  rw [ptePtr, UInt32.toNat_add, UInt32.toNat_add, UInt32.toNat_mul, hhigh, pteIdx32_eq,
    toNat_pteField]
  simp only [UInt32.reduceToNat]
  omega

theorem toNat_pdePtr (vaddr : UInt32) : (pdePtr vaddr).toNat
    = 1023 * 2 ^ 22 + 1023 * 2 ^ 12 + vaddr.toNat / 2 ^ 22 * 4 := by
  have hlt := vaddr.toNat_lt
  rw [pdePtr, UInt32.toNat_add, UInt32.toNat_mul, pdeIdx32_eq, toNat_pdeField]
  simp only [UInt32.reduceToNat]
  omega

/-! ### The walk of an address of the window -/

/-- The three fields of an address. -/
structure Fields (vaddr pde pte offset : UInt32) : Prop where
  pde : vaddr >>> 22 = pde
  pte : vaddr >>> 12 &&& 0x3ff = pte
  offset : vaddr &&& 0xfff = offset

theorem fields_of_toNat {vaddr pde pte offset : UInt32} (hpte : pte.toNat < 2 ^ 10)
    (hoffset : offset.toNat < 2 ^ 12)
    (h : vaddr.toNat = pde.toNat * 2 ^ 22 + pte.toNat * 2 ^ 12 + offset.toNat) :
    Fields vaddr pde pte offset := by
  refine ⟨?_, ?_, ?_⟩ <;> apply UInt32.toNat_inj.mp
  · rw [toNat_pdeField, h]
    omega
  · rw [toNat_pteField, h]
    omega
  · rw [toNat_and_low (k := 12) _ _ rfl, h]
    omega

theorem fields_ptePtr (vaddr : UInt32) :
    Fields (ptePtr vaddr) 1023 (vaddr >>> 22) (pteIdx32 vaddr * 4) := by
  have hlt := vaddr.toNat_lt
  have hoffset : (pteIdx32 vaddr * 4).toNat = vaddr.toNat / 2 ^ 12 % 2 ^ 10 * 4 := by
    rw [UInt32.toNat_mul, pteIdx32_eq, toNat_pteField]
    simp only [UInt32.reduceToNat]
    omega
  refine fields_of_toNat ?_ ?_ ?_
  · rw [toNat_pdeField]
    omega
  · rw [hoffset]
    omega
  · rw [toNat_ptePtr, toNat_pdeField, hoffset]
    rfl

theorem fields_pdePtr (vaddr : UInt32) : Fields (pdePtr vaddr) 1023 1023 (pdeIdx32 vaddr * 4) := by
  have hlt := vaddr.toNat_lt
  have hoffset : (pdeIdx32 vaddr * 4).toNat = vaddr.toNat / 2 ^ 22 * 4 := by
    rw [UInt32.toNat_mul, pdeIdx32_eq, toNat_pdeField]
    simp only [UInt32.reduceToNat]
    omega
  refine fields_of_toNat (by decide) ?_ ?_
  · rw [hoffset]
    omega
  · rw [toNat_pdePtr, hoffset]
    rfl

/-- The last entry of the directory names the directory. -/
structure NamesItself (phys : PhysMem) (cr3 : UInt32) : Prop where
  present : isPresent (phys (frameOf cr3 + 1023 * 4))
  frame : frameOf (phys (frameOf cr3 + 1023 * 4)) = frameOf cr3

variable {phys : PhysMem} {cr3 vaddr pte offset : UInt32}

/-- An address with 1023 in the upper field: the middle one counts entries of the directory. -/
theorem NamesItself.walk (h : NamesItself phys cr3) (hf : Fields vaddr 1023 pte offset) :
    pageWalk phys cr3 vaddr =
      if isPresent (phys (frameOf cr3 + pte * 4)) then
        some (frameOf (phys (frameOf cr3 + pte * 4)) + offset)
      else none := by
  have hpde : pdeAddr cr3 vaddr = frameOf cr3 + 1023 * 4 := by rw [pdeAddr, hf.pde]
  unfold pageWalk
  simp only [hpde, if_pos h.present, pteAddr, h.frame, hf.pte, hf.offset]

/-- **The window is right**: `pte_ptr` leads to the entry of the table, `pde_ptr` to the one of
the directory, and `addr_v2p` translates like the processor. -/
theorem window_right (phys : PhysMem) (cr3 : UInt32) (h : NamesItself phys cr3) (vaddr : UInt32)
    (hpde : isPresent (phys (frameOf cr3 + pdeIdx32 vaddr * 4))) :
    pageWalk phys cr3 (ptePtr vaddr)
      = some (frameOf (phys (frameOf cr3 + pdeIdx32 vaddr * 4)) + pteIdx32 vaddr * 4) ∧
    pageWalk phys cr3 (pdePtr vaddr) = some (frameOf cr3 + pdeIdx32 vaddr * 4) ∧
    (isPresent (phys (frameOf (phys (frameOf cr3 + pdeIdx32 vaddr * 4)) + pteIdx32 vaddr * 4)) →
      ∃ a, addrV2p phys cr3 vaddr = some a ∧ pageWalk phys cr3 vaddr = some a) := by
  have hpte : pageWalk phys cr3 (ptePtr vaddr)
      = some (frameOf (phys (frameOf cr3 + pdeIdx32 vaddr * 4)) + pteIdx32 vaddr * 4) := by
    rw [h.walk (fields_ptePtr vaddr), ← pdeIdx32_eq, if_pos hpde]
  refine ⟨hpte, ?_, fun hpresent => ?_⟩
  · rw [h.walk (fields_pdePtr vaddr), if_pos h.present, h.frame]
  · have hwalk : pageWalk phys cr3 vaddr = some (frameOf (phys (frameOf (phys (frameOf cr3
        + pdeIdx32 vaddr * 4)) + pteIdx32 vaddr * 4)) + (vaddr &&& 0xfff)) := by
      unfold pageWalk pdeAddr pteAddr
      simp only [← pdeIdx32_eq, ← pteIdx32_eq, if_pos hpde, if_pos hpresent]
    refine ⟨_, ?_, hwalk⟩
    rw [addrV2p, pageLoad, hpte]
    rfl

/-- A directory at 0x100000, a table at 0x101000 and a frame at 0x234000. -/
def twoTables : PhysMem := fun a =>
  if a = 0x100ffc then 0x100007 else if a = 0x100c00 then 0x101007
  else if a = 0x101404 then 0x234007 else 0

theorem window_right_frame : ∃ a, addrV2p twoTables 0x100000 0xc0101abc = some a ∧
    pageWalk twoTables 0x100000 0xc0101abc = some a :=
  (window_right twoTables 0x100000 ⟨by decide, by decide⟩ 0xc0101abc (by decide)).2.2 (by decide)

end ZyOs
