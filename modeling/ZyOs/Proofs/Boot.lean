/-
What the loader leaves behind.

`setup_page` writes the directory and 256 entries of the first table, and leaves the other tables
as the memory happened to be.  The system is running after that exactly when nothing that was in
them has its P bit set: `boot_running_iff`.  From then on the invariant stays (`Running`).
-/
import ZyOs.Proofs.MemPool
import ZyOs.Proofs.Running

namespace ZyOs.Paged

open Library Prog

variable {phys : PhysMem} {mem : Mem} {b : Context} {allMem d f i n p : Nat} {w : UInt32}

/-! ### How much memory there is -/

/-- Where an area ends. -/
def Ards.limit (ards : Ards) : UInt32 := ards.baseAddLow + ards.lengthLow

theorem toInt32_le_iff {x y : UInt32} (hy : y.toNat < 2 ^ 31) :
    x.toInt32 ≤ y.toInt32 ↔ 2 ^ 31 ≤ x.toNat ∨ x.toNat ≤ y.toNat := by
  have hx := x.toNat_lt
  rw [Int32.le_iff_toInt_le]
  show x.toBitVec.toInt ≤ y.toBitVec.toInt ↔ _
  rw [BitVec.toInt_eq_toNat_cond, BitVec.toInt_eq_toNat_cond]
  simp only [UInt32.toNat_toBitVec]
  split_ifs <;> omega

/-- The largest end that is not negative, or what there was. -/
theorem findMaxMemArea_spec (ards : List Ards) (edx : UInt32) (hedx : edx.toNat < 2 ^ 31) :
    (findMaxMemArea ards edx).toNat < 2 ^ 31 ∧ edx.toNat ≤ (findMaxMemArea ards edx).toNat ∧
    (∀ a ∈ ards, a.limit.toNat < 2 ^ 31 → a.limit.toNat ≤ (findMaxMemArea ards edx).toNat) ∧
    (findMaxMemArea ards edx = edx ∨ ∃ a ∈ ards, findMaxMemArea ards edx = a.limit) := by
  induction ards generalizing edx with
  | nil =>
      refine ⟨hedx, le_rfl, fun a ha => ?_, .inl rfl⟩
      cases ha
  | cons b rest ih =>
      rw [findMaxMemArea]
      simp only [show b.baseAddLow + b.lengthLow = b.limit from rfl, toInt32_le_iff hedx]
      by_cases hle : 2 ^ 31 ≤ b.limit.toNat ∨ b.limit.toNat ≤ edx.toNat
      · rw [if_pos hle]
        obtain ⟨hlt, hge, hall, hone⟩ := ih edx hedx
        refine ⟨hlt, hge, ?_, hone.imp_right fun ⟨a, ha, heq⟩ => ⟨a, List.mem_cons_of_mem _ ha, heq⟩⟩
        intro a ha hlimit
        rcases List.mem_cons.mp ha with rfl | ha
        · omega
        · exact hall a ha hlimit
      · rw [if_neg hle]
        push Not at hle
        obtain ⟨hlt, hge, hall, hone⟩ := ih b.limit hle.1
        refine ⟨hlt, by omega, ?_, .inr ?_⟩
        · intro a ha hlimit
          rcases List.mem_cons.mp ha with rfl | ha
          · exact hge
          · exact hall a ha hlimit
        · rcases hone with heq | ⟨a, ha, heq⟩
          · exact ⟨b, List.mem_cons_self, heq⟩
          · exact ⟨a, List.mem_cons_of_mem _ ha, heq⟩

/-- **The memory the kernel counts on is there**: what the loader finds is the largest end of an
area below 2 GB, and if there are 2 MB no frame of the two pools lies behind that area. -/
theorem memory_is_reported (buf : ArdsBuf) :
    (∀ a ∈ buf.ards, a.limit.toNat < 2 ^ 31 →
      a.limit.toNat ≤ (findMaxMemArea buf.ards 0).toNat) ∧
    (0x200000 ≤ (findMaxMemArea buf.ards 0).toNat →
      ∃ a ∈ buf.ards, a.limit = findMaxMemArea buf.ards 0 ∧
        ∀ pf, ((memPools (findMaxMemArea buf.ards 0).toNat).pool pf).memory
          ⊆ Set.Ico 0x200000 a.limit.toNat) := by
  obtain ⟨hlt, -, hall, hone⟩ := findMaxMemArea_spec buf.ards 0 (by decide)
  refine ⟨hall, fun hlow => ?_⟩
  rcases hone with hzero | ⟨a, ha, heq⟩
  · rw [hzero] at hlow
    exact absurd hlow (by decide)
  · refine ⟨a, ha, heq.symm, fun pf => ?_⟩
    rw [← heq]
    exact (memPools_layout hlow (by omega)).inside pf

theorem memory_is_reported_32Mb : ∀ pf, ((memPools 0x2000000).pool pf).memory
    ⊆ Set.Ico 0x200000 0x2000000 := by
  intro pf
  obtain ⟨a, ha, heq, hin⟩ := (memory_is_reported
    ⟨[⟨0, 0x9fc00⟩, ⟨0x100000, 0x1f00000⟩, ⟨0xfffc0000, 0x40000⟩], by decide⟩).2 (by decide)
  rw [heq] at hin
  exact hin pf

/-! ### The tables -/

theorem physStore_eq (phys : PhysMem) (hi : i < 1024) {addr : UInt32}
    (haddr : addr.toNat = 4096 * f + 4 * i) : physStore phys addr w = setWord phys f i w := by
  funext b
  have hb := b.toNat_lt
  unfold physStore setWord PhysMem.write
  refine if_congr ?_ rfl rfl
  rw [← UInt32.toNat_inj, haddr]
  omega

theorem toNat_index {base esi : UInt32} (hbase : base.toNat = 4096 * f) (hf : f < 2 ^ 20)
    (hesi : esi.toNat = i) (hi : i < 1024) : (base + esi * 4).toNat = 4096 * f + 4 * i := by
  rw [UInt32.toNat_add, UInt32.toNat_mul, hbase, hesi]
  simp only [UInt32.reduceToNat]
  omega

theorem clearPageDir_eq (n : Nat) {esi : UInt32} (phys : PhysMem) (hesi : esi.toNat = i)
    (hn : i + n ≤ 1024) : clearPageDir n esi phys = phys.write 256 i (i + n) fun _ => 0 := by
  induction n generalizing i esi phys with
  | zero => exact PhysMem.write_nil.symm
  | succ n ih =>
      have hstore := physStore_eq phys (w := 0) (f := 256) (show i < 1024 by omega)
        (toNat_index (show pageDirTablePos.toNat = 4096 * 256 from rfl) (by omega) hesi (by omega))
      have hnext : (esi + 1).toNat = i + 1 := by
        rw [UInt32.toNat_add, hesi]
        simp only [UInt32.reduceToNat]
        omega
      rw [clearPageDir, hstore, ih _ hnext (by omega), PhysMem.write_write (by omega) (by omega),
        show i + 1 + n = i + (n + 1) by omega]

theorem createEntries_eq (n : Nat) {ebx esi : UInt32} (entry : UInt32) (phys : PhysMem)
    (hebx : ebx.toNat = 4096 * f) (hf : f < 2 ^ 20) (hesi : esi.toNat = i) (hn : i + n ≤ 1024) :
    createEntries ebx n esi entry phys
      = phys.write f i (i + n) fun k => entry + 0x1000 * UInt32.ofNat (k - i) := by
  induction n generalizing i esi entry phys with
  | zero => exact PhysMem.write_nil.symm
  | succ n ih =>
      have hstore := physStore_eq phys (w := entry) (show i < 1024 by omega)
        (toNat_index hebx hf hesi (by omega))
      have hnext : (esi + 1).toNat = i + 1 := by
        rw [UInt32.toNat_add, hesi]
        simp only [UInt32.reduceToNat]
        omega
      have hfirst : setWord phys f i entry
          = phys.write f i (i + 1) fun k => entry + 0x1000 * UInt32.ofNat (k - i) := by
        refine PhysMem.write_congr fun k hlow hhigh => ?_
        rw [show k - i = 0 by omega]
        simp
      have hrest : ∀ phys' : PhysMem,
          (phys'.write f (i + 1) (i + 1 + n) fun k => entry + 0x1000 + 0x1000 * UInt32.ofNat (k - (i + 1)))
            = phys'.write f (i + 1) (i + 1 + n) fun k => entry + 0x1000 * UInt32.ofNat (k - i) := by
        refine fun phys' => PhysMem.write_congr fun k hlow hhigh => ?_
        apply UInt32.toNat_inj.mp
        simp only [UInt32.toNat_add, UInt32.toNat_mul, UInt32.toNat_ofNat', UInt32.reduceToNat]
        omega
      rw [createEntries, hstore, ih _ _ hnext (by omega), hfirst, hrest,
        PhysMem.write_write (by omega) (by omega), show i + 1 + n = i + (n + 1) by omega]

/-- The entry for frame `f`. -/
abbrev entryOf (f : Nat) : UInt32 := tableEntry (4096 * f)

theorem toNat_entryOf (hf : f < 2 ^ 20) : (entryOf f).toNat = 4096 * f + 7 := toNat_tableEntry hf

/-- The entries of the directory. -/
def loaderDir (i : Nat) : UInt32 :=
  if i = 0 then entryOf 257 else if i < 768 then 0
  else if i < 1023 then entryOf (257 + (i - 768)) else entryOf 256

/-- What `setup_page` writes. -/
theorem word_setupPage (hf : f < 2 ^ 20) (hi : i < 1024) : (setupPage phys).word f i =
    if f = 256 then loaderDir i else if f = 257 ∧ i < 256 then entryOf i else phys.word f i := by
  have hpte : ∀ k < 256, (4 ||| 2 ||| 1 : UInt32) + 0x1000 * UInt32.ofNat (k - 0) = entryOf k := by
    intro k hk
    apply UInt32.toNat_inj.mp
    rw [toNat_entryOf (by omega)]
    rw [show (4 ||| 2 ||| 1 : UInt32) = 7 from rfl]
    simp only [UInt32.toNat_add, UInt32.toNat_mul, UInt32.toNat_ofNat', UInt32.reduceToNat]
    omega
  have hpde : ∀ k, 769 ≤ k → k < 1023 → (pageDirTablePos + 0x2000 ||| 4 ||| 2 ||| 1)
      + 0x1000 * UInt32.ofNat (k - 769) = entryOf (257 + (k - 768)) := by
    intro k hlow hhigh
    apply UInt32.toNat_inj.mp
    rw [toNat_entryOf (by omega), show pageDirTablePos + 0x2000 ||| 4 ||| 2 ||| 1 = 0x102007 from rfl]
    simp only [UInt32.toNat_add, UInt32.toNat_mul, UInt32.toNat_ofNat', UInt32.reduceToNat]
    omega
  have hstore : ∀ (phys : PhysMem) (w addr : UInt32) i, i < 1024 → addr.toNat = 4096 * 256 + 4 * i →
      physStore phys addr w = setWord phys 256 i w := fun phys _ _ _ hi haddr => physStore_eq phys hi haddr
  unfold setupPage
  simp only
  rw [clearPageDir_eq (i := 0) 1024 phys rfl (by omega), hstore _ _ (pageDirTablePos + 0x0) 0 (by omega) rfl,
    hstore _ _ (pageDirTablePos + 0xc00) 768 (by omega) rfl,
    hstore _ _ (pageDirTablePos + 4092) 1023 (by omega) rfl,
    createEntries_eq (f := 257) (i := 0) 256 _ _ rfl (by omega) rfl (by omega),
    createEntries_eq (f := 256) (i := 769) 254 _ _ rfl (by omega) rfl (by omega)]
  simp only [PhysMem.word_write hf hi]
  by_cases hdir : f = 256
  · rw [if_pos hdir]
    unfold loaderDir
    by_cases hin : 769 ≤ i ∧ i < 1023
    · rw [if_pos ⟨hdir, by omega⟩, hpde i hin.1 hin.2, if_neg (by omega), if_neg (by omega),
        if_pos hin.2]
    · have hfirst : pageDirTablePos + 0x1000 ||| 4 ||| 2 ||| 1 = entryOf 257 := rfl
      have hself : entryOf 257 - 0x1000 = entryOf 256 := rfl
      rw [if_neg (by omega), if_neg (by omega), hfirst, hself]
      by_cases hlast : i = 1023
      · rw [if_pos (by omega), if_neg (by omega), if_neg (by omega), if_neg (by omega)]
      · rw [if_neg (by omega)]
        by_cases hzero : i = 0
        · rw [if_neg (by omega), if_pos (by omega), if_pos hzero]
        · rw [if_neg hzero]
          by_cases hkernel : i = 768
          · rw [if_pos (by omega), if_neg (by omega), if_pos (by omega),
              show 257 + (i - 768) = 257 by omega]
          · rw [if_neg (by omega), if_neg (by omega), if_pos (by omega), if_pos (by omega)]
  · rw [if_neg hdir, if_neg (by omega)]
    by_cases htable : f = 257 ∧ i < 256
    · rw [if_pos (by omega), if_pos htable, hpte i htable.2]
    · rw [if_neg (by omega), if_neg (by omega), if_neg (by omega), if_neg (by omega), if_neg (by omega),
        if_neg htable]

/-- No P bit was set where the loader does not write: behind the 256 entries of the first table,
and in the others. -/
def LeftoverClear (phys : PhysMem) : Prop :=
  ∀ f i, 257 ≤ f → f < 512 → i < 1024 → ¬ (f = 257 ∧ i < 256) → ¬ isPresent (phys.word f i)

/-- Whose the frames are when the loader is done. -/
def loaderOwner (f : Nat) : Owner :=
  if f < 256 then .page .kernel (0xc0000 + f) else if f = 256 then .loader
  else if f < 512 then .table .kernel (768 + (f - 257)) else .nobody

theorem loaderDir_kernel (hi : Context.kernel.HasEntry i) : loaderDir i = entryOf (257 + (i - 768)) := by
  obtain ⟨hlow, hhigh⟩ := hi
  rw [loaderDir, if_neg (by omega), if_neg (by omega), if_pos hhigh]

theorem dir_setupPage (hi : i < 1024) : (setupPage phys).word 256 i = loaderDir i := by
  rw [word_setupPage (by omega) hi, if_pos rfl]

/-- The entry for a page of the kernel. -/
theorem pte_setupPage (phys : PhysMem) (hp : Context.kernel.HasPage p) : pageFrame (setupPage phys) 256 p =
    if isPresent ((setupPage phys).word (257 + (p / 1024 - 768)) (p % 1024)) then
      some (frameNo ((setupPage phys).word (257 + (p / 1024 - 768)) (p % 1024))) else none := by
  have hlt := Context.HasEntry.lt hp
  have hpde : (setupPage phys).word 256 (p / 1024) = entryOf (257 + (p / 1024 - 768)) := by
    rw [dir_setupPage (by omega), loaderDir_kernel hp]
  rw [pageFrame_of_present (by rw [hpde]; exact isPresent_tableEntry _), hpde,
    frameNo_tableEntry (by omega)]

/-- Only the first megabyte is mapped, and where it is. -/
theorem pageFrame_setupPage (hclear : LeftoverClear phys) (hp : Context.kernel.HasPage p) :
    pageFrame (setupPage phys) 256 p = if p < 0xc0100 then some (p - 0xc0000) else none := by
  have hlt := Context.HasEntry.lt hp
  have hlow : 768 ≤ p / 1024 := hp.1
  rw [pte_setupPage phys hp, word_setupPage (by omega) (Nat.mod_lt _ (by decide)),
    if_neg (show ¬ 257 + (p / 1024 - 768) = 256 by omega)]
  by_cases hfirst : p < 0xc0100
  · rw [if_pos (show 257 + (p / 1024 - 768) = 257 ∧ p % 1024 < 256 by omega), if_pos hfirst,
      if_pos (isPresent_tableEntry _), frameNo_tableEntry (by omega),
      show p % 1024 = p - 0xc0000 by omega]
  · rw [if_neg (show ¬ (257 + (p / 1024 - 768) = 257 ∧ p % 1024 < 256) by omega), if_neg hfirst,
      if_neg (hclear _ _ (by omega) (by omega) (by omega) (by omega))]

theorem directory_boot (h : Context.directory (fun _ => none) b = some d) : b = .kernel ∧ d = 256 := by
  cases b with
  | kernel => exact ⟨rfl, (Option.some.inj h).symm⟩
  | process t => cases h

theorem layout_boot (hclear : LeftoverClear phys) :
    Layout (setupPage phys) (fun _ => none) loaderOwner := by
  have hpde : ∀ i, Context.kernel.HasEntry i →
      (setupPage phys).word 256 i = entryOf (257 + (i - 768)) := by
    intro i hi
    have hlt := Context.HasEntry.lt hi
    rw [dir_setupPage (by omega), loaderDir_kernel hi]
  have hself : (setupPage phys).word 256 1023 = entryOf 256 := dir_setupPage (by omega)
  refine ⟨rfl, ?_, ?_, ?_, ?_, ?_, ?_, ?_, ?_, ?_⟩
  · intro i hlow hhigh
    rw [hpde i ⟨hlow, hhigh⟩]
    exact isPresent_tableEntry _
  · intro b d hb
    obtain ⟨rfl, rfl⟩ := directory_boot hb
    refine ⟨?_, ?_⟩
    · rw [hself]
      exact isPresent_tableEntry _
    · rw [hself, frameNo_tableEntry (by omega)]
  · intro t d ht
    cases ht
  · intro t u d ht
    cases ht
  · intro t d i ht
    cases ht
  · intro b d i hb hi hpresent
    obtain ⟨rfl, rfl⟩ := directory_boot hb
    obtain ⟨hlow, hhigh⟩ := hi
    rw [hpde i ⟨hlow, hhigh⟩, frameNo_tableEntry (by omega), loaderOwner, if_neg (by omega),
      if_neg (by omega), if_pos (by omega), show 768 + (257 + (i - 768) - 257) = i by omega]
  · intro b i f hf
    unfold loaderOwner at hf
    split_ifs at hf with hpage hdir htable
    cases hf
    have hi : Context.kernel.HasEntry (768 + (f - 257)) := ⟨by omega, by omega⟩
    refine ⟨256, rfl, hi, ?_, ?_⟩
    · rw [hpde _ hi]
      exact isPresent_tableEntry _
    · rw [hpde _ hi, frameNo_tableEntry (by omega)]
      omega
  · intro b p f hp hmap
    obtain ⟨d, hd, hframe⟩ := directory_of_mapping hmap
    obtain ⟨rfl, rfl⟩ := directory_boot hd
    have hlow : 768 ≤ p / 1024 := hp.1
    rw [pageFrame_setupPage hclear hp] at hframe
    split_ifs at hframe with hfirst
    obtain rfl := Option.some.inj hframe
    rw [loaderOwner, if_pos (by omega), Nat.add_sub_cancel' (by omega)]
  · intro b p f hf
    unfold loaderOwner at hf
    split_ifs at hf with hpage
    cases hf
    have hp : Context.kernel.HasPage (0xc0000 + f) := ⟨by omega, by omega⟩
    refine ⟨hp, ?_⟩
    rw [mapping_of_directory (a := .kernel) (d := 256) rfl, pageFrame_setupPage hclear hp,
      if_pos (by omega), Nat.add_sub_cancel_left]

/-! ### The first state -/

theorem phys_boot (phys : PhysMem) (mem : Mem) (allMem : Nat) :
    (boot phys mem allMem).phys = setupPage phys := rfl

theorem pool_boot (pf : PoolFlag) : (boot phys mem allMem).pool pf
    = PoolAt.made ((memPools allMem).pool pf) (memPoolsMem allMem mem) := by cases pf <;> rfl

theorem unused_boot (hlow : 0x200000 ≤ allMem) (hhigh : allMem < 2 ^ 32) (pf : PoolFlag)
    (hf : ((boot phys mem allMem).pool pf).Has f) :
    ¬ ((boot phys mem allMem).pool pf).Used f := by
  have hclear := memPoolsMem_clear hlow hhigh mem
  rw [pool_boot] at hf ⊢
  obtain ⟨hge, hlt⟩ := hf
  have hmem : ((memPools allMem).pool pf).poolBitmap ∈ (memPools allMem).bitmaps := by
    cases pf <;> simp [MemPools.pool, MemPools.bitmaps]
  have hbit := hclear _ hmem ((4096 * f - ((memPools allMem).pool pf).phyAddrStart) / 4096) (by
    simp only [PoolAt.made, BitmapAt.view] at hge hlt
    omega)
  intro hused
  rw [Pool.Used, PoolAt.made, hbit] at hused
  cases hused

theorem unmarked_boot (hlow : 0x200000 ≤ allMem) (hhigh : allMem < 2 ^ 32) (p : Nat) :
    ¬ (boot phys mem allMem).kernelVaddr.Holds p := by
  rintro ⟨⟨-, hge, -, hbit⟩, hlt⟩
  have hclear := memPoolsMem_clear hlow hhigh mem (memPools allMem).kernelVaddr.vaddrBitmap
    (by simp [MemPools.bitmaps])
    ((4096 * p - (boot phys mem allMem).kernelVaddr.vaddrStart) / 4096) (by
      simp only [boot, BitmapAt.view] at hge hlt ⊢
      omega)
  rw [show (boot phys mem allMem).kernelVaddr.vaddrBitmap.bitmapScanTest _ = _ from hclear] at hbit
  cases hbit

/-- The numbers of `mem_pool_init`. -/
theorem numbers_boot (phys : PhysMem) (mem : Mem) (hlow : 0x200000 ≤ allMem) (hhigh : allMem < 2 ^ 32) :
    (boot phys mem allMem).kernelPool.phyAddrStart = 0x200000 ∧
    (boot phys mem allMem).kernelPool.poolBitmap.bmapBytesLen = freePages allMem / 2 / 8 ∧
    (boot phys mem allMem).userPool.phyAddrStart = 0x200000 + freePages allMem / 2 * 4096 ∧
    (boot phys mem allMem).userPool.poolBitmap.bmapBytesLen
      = (freePages allMem - freePages allMem / 2) / 8 ∧
    (boot phys mem allMem).kernelVaddr.vaddrStart = 0xc0100000 ∧
    (boot phys mem allMem).kernelVaddr.vaddrBitmap.bmapBytesLen = freePages allMem / 2 / 8 := by
  have heq := memPools_eq hlow hhigh
  simp only [boot, PoolAt.made, BitmapAt.view]
  rw [heq]
  exact ⟨rfl, rfl, rfl, rfl, rfl, rfl⟩

/-- The kernel's heap is behind the first megabyte and in front of the window. -/
theorem covers_heap (phys : PhysMem) (mem : Mem) (hlow : 0x200000 ≤ allMem) (hhigh : allMem < 2 ^ 32) :
    Context.kernel.Covers (boot phys mem allMem).kernelVaddr := by
  have hpages := freePages_lt allMem
  obtain ⟨-, -, -, -, hstart, hlen⟩ := numbers_boot phys mem hlow hhigh
  have htop : ∀ n < 2 ^ 16, 0xc0100000 + 4096 * (8 * (n / 2 / 8) + 1) ≤ 2 ^ 32 := by
    clear hlow
    omega
  refine ⟨⟨?_, ?_, ?_⟩, ?_⟩
  · rw [hstart]
    decide
  · rw [hstart]
  · rw [hstart, hlen]
    exact htop _ hpages
  · intro i hi
    rw [hlen] at hi
    rw [hstart]
    exact ⟨by omega, by omega⟩

theorem owned_boot (mem : Mem) (hlow : 0x200000 ≤ allMem) (hhigh : allMem < 2 ^ 32)
    (hclear : LeftoverClear phys) :
    Owned (boot phys mem allMem) (fun _ => none) loaderOwner := by
  have hpages := freePages_lt allMem
  have hle := freePages_le allMem
  obtain ⟨hkstart, hklen, hustart, hulen, hvstart, hvlen⟩ :=
    numbers_boot phys mem hlow hhigh
  have hlayout : Layout (boot phys mem allMem).phys (fun _ => none) loaderOwner := by
    rw [phys_boot]
    exact layout_boot hclear
  refine ⟨hlayout, ?_, ?_, ?_, ?_, ?_, ?_, ?_, ?_, ?_, ?_⟩
  · intro pf
    cases pf with
    | kernel => exact ⟨⟨by simp only [PagedMem.pool]; omega, by simp only [PagedMem.pool]; omega⟩,
        by simp only [PagedMem.pool]; omega⟩
    | user => exact ⟨⟨by simp only [PagedMem.pool]; omega, by simp only [PagedMem.pool]; omega⟩,
        by simp only [PagedMem.pool]; omega⟩
  · omega
  · omega
  · intro pf f hf howner
    have hge : 0x200000 ≤ 4096 * f := by
      have hstart := hf.1
      cases pf <;> simp only [PagedMem.pool] at hstart <;> omega
    rw [loaderOwner, if_neg (by omega), if_neg (by omega), if_neg (by omega)] at howner
    exact absurd rfl howner
  · intro b p f hf hp
    unfold loaderOwner at hf
    split_ifs at hf with hpage
    cases hf
    have hheap := hp.1
    omega
  · intro b d hb
    obtain ⟨rfl, rfl⟩ := directory_boot hb
    exact covers_heap phys mem hlow hhigh
  · intro b p f hp hmap
    obtain ⟨d, hd, hframe⟩ := directory_of_mapping hmap
    obtain ⟨rfl, rfl⟩ := directory_boot hd
    have hheap := hp.1
    rw [show (boot phys mem allMem).phys = setupPage phys from rfl,
      pageFrame_setupPage hclear hp.hasPage, if_neg (by omega)] at hframe
    cases hframe
  · intro t d ht
    cases ht
  · intro t ht hnone
    rfl
  · intro t ht
    rcases ht with ht | ht
    · exact .inl (List.mem_singleton.mp ht)
    · exact absurd rfl ht

/-- **When the system is running after the boot**: exactly when the loader's tables were clear
where it does not write. -/
theorem boot_running_iff (hlow : 0x200000 ≤ allMem) (hhigh : allMem < 2 ^ 32) :
    Running (boot phys mem allMem) ↔ LeftoverClear phys := by
  constructor
  · rintro ⟨dir, owner, h⟩ f i hflow hfhigh hi hnot hpresent
    have hheap : Context.kernel.HeapPage (1024 * (768 + (f - 257)) + i) := ⟨by omega, by omega⟩
    have hdiv : (1024 * (768 + (f - 257)) + i) / 1024 = 768 + (f - 257) := by omega
    have hmod : (1024 * (768 + (f - 257)) + i) % 1024 = i := by omega
    have hword : (setupPage phys).word f i = phys.word f i := by
      rw [word_setupPage (by omega) hi, if_neg (by omega), if_neg hnot]
    have hframe := pte_setupPage phys hheap.hasPage
    rw [hdiv, hmod, show 257 + (768 + (f - 257) - 768) = f by omega, hword, if_pos hpresent] at hframe
    rw [← phys_boot phys mem allMem] at hframe
    exact unmarked_boot hlow hhigh _ (h.owned.marked .kernel _ _ hheap hframe)
  · intro hclear
    have howned := owned_boot mem hlow hhigh hclear
    refine ⟨fun _ => none, loaderOwner, howned, ?_, ?_, ?_, ?_, ?_, ?_⟩
    · intro b p hb hp hholds
      cases b with
      | kernel => exact absurd hholds (unmarked_boot hlow hhigh p)
      | process t => exact absurd rfl hb
    · intro pf f hf hused
      exact absurd hused (unused_boot hlow hhigh pf hf)
    · intro t ht
      exact absurd rfl ht
    · exact List.mem_singleton.mpr rfl
    · exact List.mem_singleton.mpr rfl
    · rfl

theorem leftoverClear_zero : LeftoverClear fun _ => 0 := by
  intro f i _ _ _ _ hpresent
  exact hpresent (show (0 : UInt32) &&& 1 = 0 from rfl)

theorem boot_running_32Mb : Running (boot (fun _ => 0) (fun _ => 0) 0x2000000) :=
  (boot_running_iff (by decide) (by decide)).mpr leftoverClear_zero

end ZyOs.Paged
