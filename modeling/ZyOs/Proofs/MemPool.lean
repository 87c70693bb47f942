/-
Where the pools are and how much they hold.

The number of pages goes through a `uint16_t`.  That keeps the three bitmaps small: whatever
memory there is, they fit under the PCB of the main thread, and the two pools stay inside the
memory and apart.  It also loses the memory: from 65536 pages on what is counted starts again at
nothing.
-/
import Mathlib
import ZyOs.Kernel.MemPool
import ZyOs.Proofs.BitmapScan

namespace ZyOs

open Library

/-! ### Bitmaps in one memory -/

namespace BitmapAt

/-- The addresses of the bytes. -/
def bytes (b : BitmapAt) : Set Nat := Set.Ico b.bits (b.bits + b.bmapBytesLen)

variable {b c : BitmapAt} {mem : Mem} {i j : Nat}

theorem mem_bytes (hi : i < 8 * b.bmapBytesLen) : b.bits + i / 8 ∈ b.bytes :=
  ⟨by omega, by omega⟩

theorem set_of_ne {v : Bool} {a : Nat} (h : a ≠ b.bits + i / 8) : b.set mem i v a = mem a :=
  if_neg h

theorem view_set (v : Bool) : b.view (b.set mem i v) = (b.view mem).bitmapSet i v := by
  unfold view set Bitmap.bitmapSet
  congr 1
  funext k
  simp only [Mem.drop_apply, Nat.add_left_cancel_iff]

/-- A bit of one bitmap is none of another's. -/
theorem test_set_of_disjoint {v : Bool} (hdisj : Disjoint b.bytes c.bytes)
    (hi : i < 8 * b.bmapBytesLen) (hj : j < 8 * c.bmapBytesLen) :
    (c.view (b.set mem i v)).bitmapScanTest j = (c.view mem).bitmapScanTest j := by
  have hne : c.bits + j / 8 ≠ b.bits + i / 8 := by
    intro heq
    exact Set.disjoint_left.mp hdisj (mem_bytes hi) (heq ▸ mem_bytes hj)
  unfold Bitmap.bitmapScanTest view
  simp only [Mem.drop_apply]
  rw [set_of_ne hne]

/-- `bitmap_init` clears what is there. -/
theorem test_init (hi : i < 8 * b.bmapBytesLen) :
    (b.view (b.init mem)).bitmapScanTest i = false := by
  unfold Bitmap.bitmapScanTest view init
  simp only [Mem.drop_apply]
  rw [Mem.fill_in (by omega) (by omega)]
  simp

theorem init_of_disjoint (hdisj : Disjoint b.bytes c.bytes) (hi : i < 8 * c.bmapBytesLen) :
    (c.view (b.init mem)).bitmapScanTest i = (c.view mem).bitmapScanTest i := by
  have hout : c.bits + i / 8 < b.bits ∨ b.bits + b.bmapBytesLen ≤ c.bits + i / 8 := by
    by_contra hin
    push Not at hin
    exact Set.disjoint_left.mp hdisj hin (mem_bytes hi)
  unfold Bitmap.bitmapScanTest view init
  simp only [Mem.drop_apply]
  rw [Mem.fill_out hout]

end BitmapAt

/-! ### The layout -/

/-- The pages `mem_pool_init` counts. -/
def freePages (allMem : Nat) : Nat := (allMem - 0x200000) / 4096 % 2 ^ 16

theorem freePages_lt (allMem : Nat) : freePages allMem < 2 ^ 16 := Nat.mod_lt _ (by decide)

theorem freePages_le (allMem : Nat) : 4096 * freePages allMem ≤ allMem - 0x200000 := by
  have hle : freePages allMem ≤ (allMem - 0x200000) / 4096 := Nat.mod_le _ _
  omega

variable {allMem : Nat}

theorem memPools_eq (hlow : 0x200000 ≤ allMem) (hhigh : allMem < 2 ^ 32) :
    memPools allMem =
      let kernelPages := freePages allMem / 2
      let userPages := freePages allMem - kernelPages
      { kernelPool := ⟨⟨kernelPages / 8, 0xc009a000⟩, 0x200000, kernelPages * 4096⟩
        userPool := ⟨⟨userPages / 8, 0xc009a000 + kernelPages / 8⟩,
          0x200000 + kernelPages * 4096, userPages * 4096⟩
        kernelVaddr :=
          ⟨⟨kernelPages / 8, 0xc009a000 + kernelPages / 8 + userPages / 8⟩, 0xc0100000⟩ } := by
  have hfree : sub32 allMem 0x200000 = allMem - 0x200000 := by
    unfold sub32
    omega
  have hpages : sub32 allMem 0x200000 / 4096 % 2 ^ 16 = freePages allMem := by
    rw [hfree]
    rfl
  exact hpages ▸ rfl

/-- The physical memory whose frames a pool's bitmap counts. -/
def PoolAt.memory (pool : PoolAt) : Set Nat :=
  {a | ∃ i < 8 * pool.poolBitmap.bmapBytesLen, a ∈ Set.Ico (pool.frame i) (pool.frame i + pageSize)}

/-- The three bitmaps. -/
def MemPools.bitmaps (s : MemPools) : List BitmapAt :=
  [s.kernelPool.poolBitmap, s.userPool.poolBitmap, s.kernelVaddr.vaddrBitmap]

/-- Everything has its place. -/
structure MemPools.Layout (s : MemPools) (allMem : Nat) : Prop where
  inside : ∀ pf, (s.pool pf).memory ⊆ Set.Ico 0x200000 allMem
  apart : Disjoint s.kernelPool.memory s.userPool.memory
  bitmapsInside : ∀ b ∈ s.bitmaps, b.bytes ⊆ Set.Ico 0xc009a000 0xc009e000
  bitmapsApart : s.bitmaps.Pairwise (fun b c => Disjoint b.bytes c.bytes)

/-- The frames of a pool, one after another from its start. -/
theorem frame_memPools (hlow : 0x200000 ≤ allMem) (hhigh : allMem < 2 ^ 32) (pf : PoolFlag)
    {i : Nat} (hi : i < 8 * ((memPools allMem).pool pf).poolBitmap.bmapBytesLen) :
    ((memPools allMem).pool pf).frame i = ((memPools allMem).pool pf).phyAddrStart + 4096 * i := by
  have hlt := freePages_lt allMem
  have hle := freePages_le allMem
  unfold PoolAt.frame
  rw [show pageSize = 4096 from rfl]
  rw [memPools_eq hlow hhigh] at hi ⊢
  cases pf <;> simp only [MemPools.pool] at hi ⊢ <;> omega

/-- The kernel's frames end where the other ones start. -/
theorem memory_memPools (hlow : 0x200000 ≤ allMem) (hhigh : allMem < 2 ^ 32) :
    (memPools allMem).kernelPool.memory
      ⊆ Set.Ico 0x200000 (memPools allMem).userPool.phyAddrStart ∧
    (memPools allMem).userPool.memory
      ⊆ Set.Ico (memPools allMem).userPool.phyAddrStart allMem := by
  have hlt := freePages_lt allMem
  have hle := freePages_le allMem
  constructor
  · rintro a ⟨i, hi, ha⟩
    have hframe := frame_memPools hlow hhigh .kernel hi
    simp only [MemPools.pool] at hframe
    rw [hframe, show pageSize = 4096 from rfl, memPools_eq hlow hhigh, Set.mem_Ico] at ha
    rw [memPools_eq hlow hhigh] at hi ⊢
    simp only at hi ha
    exact ⟨by omega, by simp only; omega⟩
  · rintro a ⟨i, hi, ha⟩
    have hframe := frame_memPools hlow hhigh .user hi
    simp only [MemPools.pool] at hframe
    rw [hframe, show pageSize = 4096 from rfl, memPools_eq hlow hhigh, Set.mem_Ico] at ha
    rw [memPools_eq hlow hhigh] at hi ⊢
    simp only at hi ha
    exact ⟨by simp only; omega, by omega⟩

theorem Ico_disjoint {a b c d : Nat} (h : b ≤ c ∨ d ≤ a) :
    Disjoint (Set.Ico a b) (Set.Ico c d) := by
  rw [Set.disjoint_left]
  rintro x ⟨ha, hb⟩ ⟨hc, hd⟩
  omega

theorem memPools_layout (hlow : 0x200000 ≤ allMem) (hhigh : allMem < 2 ^ 32) :
    (memPools allMem).Layout allMem := by
  have hlt := freePages_lt allMem
  have hle := freePages_le allMem
  obtain ⟨hkernel, huser⟩ := memory_memPools hlow hhigh
  refine ⟨?_, ?_, ?_, ?_⟩
  · intro pf
    cases pf with
    | kernel =>
        refine hkernel.trans (Set.Ico_subset_Ico_right ?_)
        rw [memPools_eq hlow hhigh]
        simp only
        omega
    | user =>
        refine huser.trans (Set.Ico_subset_Ico_left ?_)
        rw [memPools_eq hlow hhigh]
        exact Nat.le_add_right _ _
  · exact (Ico_disjoint (.inl (le_refl _))).mono hkernel huser
  · rw [memPools_eq hlow hhigh]
    unfold MemPools.bitmaps BitmapAt.bytes
    simp only [List.forall_mem_cons, List.not_mem_nil, false_imp_iff, implies_true, and_true]
    refine ⟨?_, ?_, ?_⟩ <;> exact Set.Ico_subset_Ico (by omega) (by omega)
  · rw [memPools_eq hlow hhigh]
    unfold MemPools.bitmaps BitmapAt.bytes
    simp only [List.pairwise_cons, List.forall_mem_cons, List.not_mem_nil, false_imp_iff,
      implies_true, and_true, List.Pairwise.nil]
    exact ⟨⟨Ico_disjoint (by omega), Ico_disjoint (by omega)⟩, Ico_disjoint (by omega)⟩

/-- After `mem_pool_init` all of it is free. -/
theorem memPoolsMem_clear (hlow : 0x200000 ≤ allMem) (hhigh : allMem < 2 ^ 32) (mem : Mem) :
    ∀ b ∈ (memPools allMem).bitmaps, ∀ i < 8 * b.bmapBytesLen,
      (b.view (memPoolsMem allMem mem)).bitmapScanTest i = false := by
  have happart := (memPools_layout hlow hhigh).bitmapsApart
  unfold MemPools.bitmaps memPoolsMem at *
  simp only [List.pairwise_cons, List.forall_mem_cons, List.not_mem_nil, false_imp_iff,
    implies_true, and_true, List.Pairwise.nil] at happart ⊢
  obtain ⟨⟨hku, hkv⟩, huv⟩ := happart
  refine ⟨fun i hi => ?_, fun i hi => ?_, fun i hi => BitmapAt.test_init hi⟩
  · rw [BitmapAt.init_of_disjoint hkv.symm hi, BitmapAt.init_of_disjoint hku.symm hi,
      BitmapAt.test_init hi]
  · rw [BitmapAt.init_of_disjoint huv.symm hi, BitmapAt.test_init hi]

/-! ### Taking a frame and giving it back -/

/-- Bit `i` of the pool, as it is in `mem`. -/
def MemPools.test (s : MemPools) (pf : PoolFlag) (mem : Mem) (i : Nat) : Bool :=
  ((s.pool pf).poolBitmap.view mem).bitmapScanTest i

/-- One bit of one pool gets the value `v`; everything else stays. -/
structure MemPools.OnlyBit (s : MemPools) (pf : PoolFlag) (i : Nat) (v : Bool) (mem mem' : Mem) :
    Prop where
  bits : ∀ pf' j, j < 8 * (s.pool pf').poolBitmap.bmapBytesLen →
    s.test pf' mem' j = if pf' = pf ∧ j = i then v else s.test pf' mem j
  rest : ∀ a ∉ (s.pool pf).poolBitmap.bytes, mem' a = mem a

theorem MemPools.Layout.onlyBit {s : MemPools} (h : s.Layout allMem) (pf : PoolFlag) {i : Nat}
    (hi : i < 8 * (s.pool pf).poolBitmap.bmapBytesLen) (v : Bool) (mem : Mem) :
    s.OnlyBit pf i v mem ((s.pool pf).poolBitmap.set mem i v) where
  bits pf' j hj := by
    have happart := h.bitmapsApart
    unfold MemPools.bitmaps at happart
    simp only [List.pairwise_cons, List.forall_mem_cons] at happart
    have hku := happart.1.1
    by_cases hpf : pf' = pf
    · subst hpf
      unfold MemPools.test
      rw [BitmapAt.view_set, Bitmap.scanTest_set]
      simp only [true_and]
    · rw [if_neg (fun hc => hpf hc.1)]
      have hdisj : Disjoint (s.pool pf).poolBitmap.bytes (s.pool pf').poolBitmap.bytes := by
        cases pf <;> cases pf' <;> first | exact absurd rfl hpf | exact hku | exact hku.symm
      exact BitmapAt.test_set_of_disjoint hdisj hi hj
  rest a ha := BitmapAt.set_of_ne fun heq => ha (heq ▸ BitmapAt.mem_bytes hi)

/-- A frame that is given out has a bit of the pool, which was clear. -/
theorem PoolAt.palloc_ok {pool : PoolAt} {mem mem' : Mem} {frame : Nat}
    (hlen : 8 * pool.poolBitmap.bmapBytesLen ≤ 2 ^ 31)
    (h : pool.palloc mem = .ok (mem', some frame)) :
    ∃ i < 8 * pool.poolBitmap.bmapBytesLen, frame = pool.frame i ∧
      (pool.poolBitmap.view mem).bitmapScanTest i = false ∧
      mem' = pool.poolBitmap.set mem i true := by
  unfold PoolAt.palloc at h
  rcases (pool.poolBitmap.view mem).full_or_lowestFree with hfull | ⟨p, hp⟩
  · rw [hfull.scan] at h
    cases h
  · have hbit : p < 8 * pool.poolBitmap.bmapBytesLen := hp.bit
    rw [hp.scan, ok_bind, if_pos rfl, Bitmap.int32_of_lt (by omega), if_neg (by omega)] at h
    simp only [Int.toNat_natCast] at h
    obtain ⟨rfl, hframe⟩ := Prod.mk.inj (Except.ok.inj h)
    split_ifs at hframe
    exact ⟨p, hbit, (Option.some.inj hframe).symm, hp.free, rfl⟩

/-- `pfree` finds the bit of a frame again. -/
theorem pfree_frame (hlow : 0x200000 ≤ allMem) (hhigh : allMem < 2 ^ 32) (pf : PoolFlag) {i : Nat}
    (hi : i < 8 * ((memPools allMem).pool pf).poolBitmap.bmapBytesLen) (mem : Mem) :
    (memPools allMem).pfree mem (((memPools allMem).pool pf).frame i)
      = ((memPools allMem).pool pf).poolBitmap.set mem i false := by
  have hlt := freePages_lt allMem
  have hidx : sub32 (((memPools allMem).pool pf).frame i) ((memPools allMem).pool pf).phyAddrStart
      / pageSize = i := by
    rw [frame_memPools hlow hhigh pf hi, show pageSize = 4096 from rfl]
    unfold sub32
    rw [memPools_eq hlow hhigh] at hi ⊢
    cases pf <;> simp only [MemPools.pool] at hi ⊢ <;> omega
  have hside : (memPools allMem).userPool.phyAddrStart ≤ ((memPools allMem).pool pf).frame i
      ↔ pf = .user := by
    rw [frame_memPools hlow hhigh pf hi]
    rw [memPools_eq hlow hhigh] at hi ⊢
    cases pf with
    | kernel =>
        simp only [MemPools.pool] at hi ⊢
        exact ⟨fun h => by omega, fun h => by cases h⟩
    | user => exact iff_of_true (Nat.le_add_right _ _) rfl
  unfold MemPools.pfree
  cases pf with
  | kernel =>
      rw [if_neg (fun hc => PoolFlag.noConfusion (hside.mp hc))]
      exact congrArg (fun k => (memPools allMem).kernelPool.poolBitmap.set mem k false) hidx
  | user =>
      rw [if_pos (hside.mpr rfl)]
      exact congrArg (fun k => (memPools allMem).userPool.poolBitmap.set mem k false) hidx

/-- The pool with its bitmap to itself. -/
def PoolAt.view (pool : PoolAt) (mem : Mem) : Pool :=
  ⟨pool.poolBitmap.view mem, pool.phyAddrStart, pool.poolSize, .free⟩

theorem PoolAt.palloc_view (pool : PoolAt) (mem : Mem) :
    ZyOs.palloc (pool.view mem) = (pool.palloc mem).map fun r => (pool.view r.1, r.2) := by
  unfold ZyOs.palloc pallocWith PoolAt.palloc
  rcases hscan : (pool.poolBitmap.view mem).bitmapScan 1 with e | bitIdx
  · rw [PoolAt.view, hscan]
    rfl
  · rw [PoolAt.view, hscan, ok_bind, ok_bind]
    by_cases hnone : bitIdx = -1
    · rw [if_pos hnone, if_pos hnone]
      rfl
    · rw [if_neg hnone, if_neg hnone]
      simp only [PoolAt.view, ← BitmapAt.view_set]
      rfl

theorem pfree_view (s : MemPools) (mem : Mem) (pgPhyAddr : Nat) :
    pfreePools (s.kernelPool.view mem) (s.userPool.view mem) pgPhyAddr =
      if s.userPool.phyAddrStart ≤ pgPhyAddr then
        (s.kernelPool.view mem, s.userPool.view (s.pfree mem pgPhyAddr))
      else (s.kernelPool.view (s.pfree mem pgPhyAddr), s.userPool.view mem) := by
  unfold pfreePools MemPools.pfree PoolAt.view
  by_cases hside : s.userPool.phyAddrStart ≤ pgPhyAddr
  · simp only [if_pos hside, BitmapAt.view_set]
  · simp only [if_neg hside, BitmapAt.view_set]

/-- The pools every allocation starts from. -/
theorem memPoolInit_pools (bits : Mem) (userVaddr : Nat → VirtualAddr) (isUser : Nat → Bool)
    (pde pte : Nat → Nat → Bool) (pf : PoolFlag) :
    let pool := (memPoolInit allMem bits userVaddr isUser pde pte).pool pf
    let pool' := (memPools allMem).pool pf
    pool.poolBitmap.bmapBytesLen = pool'.poolBitmap.bmapBytesLen ∧
      pool.phyAddrStart = pool'.phyAddrStart ∧ pool.poolSize = pool'.poolSize := by
  cases pf <;> exact ⟨rfl, rfl, rfl⟩

/-- **The pools have their places**, and a frame that was given out is given back with the bit it
was given out with. -/
theorem pools_in_place (allMem : Nat) (hlow : 0x200000 ≤ allMem) (hhigh : allMem < 2 ^ 32) :
    (memPools allMem).Layout allMem ∧
    ∀ (pf : PoolFlag) (mem mem' : Mem) (frame : Nat),
      ((memPools allMem).pool pf).palloc mem = .ok (mem', some frame) →
      ∃ i < 8 * ((memPools allMem).pool pf).poolBitmap.bmapBytesLen,
        frame = ((memPools allMem).pool pf).frame i ∧
        (memPools allMem).test pf mem i = false ∧
        (memPools allMem).OnlyBit pf i true mem mem' ∧
        ∀ later, (memPools allMem).OnlyBit pf i false later
          ((memPools allMem).pfree later frame) := by
  have hlayout := memPools_layout hlow hhigh
  refine ⟨hlayout, fun pf mem mem' frame h => ?_⟩
  have hlen : 8 * ((memPools allMem).pool pf).poolBitmap.bmapBytesLen ≤ 2 ^ 31 := by
    have hlt := freePages_lt allMem
    rw [memPools_eq hlow hhigh]
    cases pf <;> simp only [MemPools.pool] <;> omega
  obtain ⟨i, hi, rfl, hclear, rfl⟩ := PoolAt.palloc_ok hlen h
  refine ⟨i, hi, rfl, hclear, hlayout.onlyBit pf hi true mem, fun later => ?_⟩
  rw [pfree_frame hlow hhigh pf hi]
  exact hlayout.onlyBit pf hi false later

/-- 32 MB; the first frame of the processes' pool is taken. -/
def firstTaken : Mem := fun a => if a = 0xc009a000 + 480 then 1 else 0

theorem pools_in_place_32Mb : ∃ mem',
    ((memPools 0x2000000).pool .user).palloc firstTaken = .ok (mem', some 0x1101000) ∧
    (memPools 0x2000000).OnlyBit .user 1 true firstTaken mem' ∧
    ∀ later, (memPools 0x2000000).OnlyBit .user 1 false later
      ((memPools 0x2000000).pfree later 0x1101000) := by
  have hrun : ((memPools 0x2000000).pool .user).palloc firstTaken
      = .ok (((memPools 0x2000000).pool .user).poolBitmap.set firstTaken 1 true,
          some 0x1101000) := by
    have hp : (((memPools 0x2000000).pool .user).poolBitmap.view firstTaken).LowestFree 1 :=
      ⟨by decide, by decide, by decide⟩
    rw [PoolAt.palloc, hp.scan]
    rfl
  obtain ⟨i, hi, hframe, -, htake, hfree⟩ :=
    (pools_in_place 0x2000000 (by decide) (by decide)).2 _ _ _ _ hrun
  have hone : i = 1 := by
    rw [frame_memPools (by decide) (by decide) .user hi] at hframe
    have hstart : ((memPools 0x2000000).pool .user).phyAddrStart = 0x1100000 := by decide
    omega
  exact ⟨_, hrun, hone ▸ htake, fun later => hone ▸ hfree later⟩

/-! ### Capacity -/

/-- The frames the two bitmaps have a bit for. -/
def MemPools.covered (s : MemPools) : Nat :=
  8 * s.kernelPool.poolBitmap.bmapBytesLen + 8 * s.userPool.poolBitmap.bmapBytesLen

theorem covered_memPools (hlow : 0x200000 ≤ allMem) (hhigh : allMem < 2 ^ 32) :
    (memPools allMem).covered = 8 * (freePages allMem / 2 / 8)
      + 8 * ((freePages allMem - freePages allMem / 2) / 8) := by
  rw [memPools_eq hlow hhigh]
  rfl

/-- Dividing each half by 8 costs up to seven pages. -/
theorem covered_le (hlow : 0x200000 ≤ allMem) (hhigh : allMem < 2 ^ 32) :
    (memPools allMem).covered ≤ freePages allMem ∧
      freePages allMem ≤ (memPools allMem).covered + 14 := by
  rw [covered_memPools hlow hhigh]
  omega

/-- Sixteen pages more are sixteen frames more, as long as the number has room for them. -/
theorem covered_add {allMem' n : Nat} (hlow : 0x200000 ≤ allMem) (hhigh : allMem < 2 ^ 32)
    (hlow' : 0x200000 ≤ allMem') (hhigh' : allMem' < 2 ^ 32)
    (h : freePages allMem' = freePages allMem + 16 * n) :
    (memPools allMem').covered = (memPools allMem).covered + 16 * n := by
  rw [covered_memPools hlow hhigh, covered_memPools hlow' hhigh', h]
  omega

/-- What is counted starts again with 65536 pages, at 258 MB. -/
theorem freePages_of_lt (h : allMem < 0x10200000) :
    freePages allMem = (allMem - 0x200000) / 4096 := by
  unfold freePages
  omega

theorem freePages_of_le (h : 0x10200000 ≤ allMem) (h512 : allMem ≤ 0x20000000) :
    freePages allMem = (allMem - 0x200000) / 4096 - 65536 := by
  unfold freePages
  omega

/-- **When no memory is lost.**  Up to 512 MB all the frames but 14 are covered exactly below
258 MB, and more memory covers fewer frames exactly when it crosses that line by less than
256 MB. -/
theorem no_memory_lost_iff (allMem k : Nat) (hlow : 0x200000 ≤ allMem)
    (h512 : allMem + 0x10000 * k ≤ 0x20000000) :
    ((allMem - 0x200000) / 4096 - 14 ≤ (memPools allMem).covered ↔ allMem < 0x10200000) ∧
    ((memPools allMem).covered ≤ (memPools (allMem + 0x10000 * k)).covered ↔
      ¬ (allMem < 0x10200000 ∧ 0x10200000 ≤ allMem + 0x10000 * k ∧ k < 4096)) := by
  have hcovered := covered_le hlow (by omega)
  constructor
  · by_cases hsmall : allMem < 0x10200000
    · have hpages := freePages_of_lt hsmall
      exact iff_of_true (by omega) hsmall
    · have hpages := freePages_of_le (by omega : 0x10200000 ≤ allMem) (by omega)
      exact iff_of_false (by omega) hsmall
  · by_cases hsmall : allMem < 0x10200000
    · have hpages := freePages_of_lt hsmall
      by_cases hcross : 0x10200000 ≤ allMem + 0x10000 * k
      · have hpages' := freePages_of_le hcross h512
        by_cases hk : k < 4096
        · have hless := covered_add (n := 4096 - k) (by omega) (by omega) hlow (by omega)
            (show freePages allMem = freePages (allMem + 0x10000 * k) + 16 * (4096 - k) by omega)
          exact iff_of_false (by omega) (not_not_intro ⟨hsmall, hcross, hk⟩)
        · have hmore := covered_add (n := k - 4096) hlow (by omega) (by omega) (by omega)
            (show freePages (allMem + 0x10000 * k) = freePages allMem + 16 * (k - 4096) by omega)
          exact iff_of_true (by omega) fun hc => hk hc.2.2
      · have hpages' := freePages_of_lt (show allMem + 0x10000 * k < 0x10200000 by omega)
        have hmore := covered_add (n := k) hlow (by omega) (by omega) (by omega)
          (show freePages (allMem + 0x10000 * k) = freePages allMem + 16 * k by omega)
        exact iff_of_true (by omega) fun hc => hcross hc.2.1
    · have hpages := freePages_of_le (show 0x10200000 ≤ allMem by omega) (by omega)
      have hpages' := freePages_of_le (show 0x10200000 ≤ allMem + 0x10000 * k by omega) h512
      have hmore := covered_add (n := k) hlow (by omega) (by omega) (by omega)
        (show freePages (allMem + 0x10000 * k) = freePages allMem + 16 * k by omega)
      exact iff_of_true (by omega) fun hc => hsmall hc.1

/-- At 258 MB nothing is covered; a little less memory would do. -/
theorem no_memory_lost_258Mb :
    ¬ (0x10200000 - 0x200000) / 4096 - 14 ≤ (memPools 0x10200000).covered ∧
    (memPools (0x101f0000 + 0x10000 * 1)).covered < (memPools 0x101f0000).covered := by
  decide

theorem no_memory_lost_32Mb : (0x2000000 - 0x200000) / 4096 - 14 ≤ (memPools 0x2000000).covered :=
  (no_memory_lost_iff 0x2000000 0 (by decide) (by decide)).1.mpr (by decide)

end ZyOs
