/-
A page allocation that fails.

With a `bitmap_scan` that keeps what its header promises, `malloc_page` can fail in two places.
When the virtual addresses are missing nothing has been done yet.  When a frame is missing the
addresses are marked, and as many frames are taken and mapped as there were; none of it is given
back, the comment says so itself.  `get_a_page` keeps its bit as well, and the lock of the pool.
-/
import ZyOs.Kernel.PageAlloc
import ZyOs.Proofs.Vaddr

namespace ZyOs

open Library

variable {scan : Scan} {s s' : Pager} {pf : PoolFlag} {pool : Pool} {n t i : Nat}

/-! ### A scan that returns -/

/-- `bitmap_scan` as its header has it: the first of `cnt` free bits one behind the other, -1 when
there are none. -/
def HeaderScan (scan : Scan) : Prop :=
  ∀ b cnt, 1 ≤ cnt → scan b cnt = .ok (-1) ∧ ¬ b.HasRun cnt ∨
    ∃ i : Nat, scan b cnt = .ok i ∧ i + cnt ≤ 8 * b.bmapBytesLen ∧ IsRun b.Free i cnt

/-- Such a scan. -/
def headerScan : Scan := fun b cnt =>
  match (List.range (8 * b.bmapBytesLen + 1 - cnt)).find? (fun i => IsRun b.Free i cnt) with
  | some i => .ok i
  | none => .ok (-1)

theorem headerScan_spec : HeaderScan headerScan := by
  intro b cnt hcnt
  rw [headerScan]
  cases hfind : (List.range (8 * b.bmapBytesLen + 1 - cnt)).find?
      (fun i => IsRun b.Free i cnt) with
  | none =>
      refine .inl ⟨rfl, ?_⟩
      rintro ⟨i, hi, hrun⟩
      have hnot := List.find?_eq_none.mp hfind i (List.mem_range.mpr (by omega))
      exact hnot (decide_eq_true hrun)
  | some i =>
      have hi := List.mem_range.mp (List.mem_of_find?_eq_some hfind)
      exact .inr ⟨i, rfl, by omega, by simpa using List.find?_some hfind⟩

/-- What it returns is what `bitmap_scan` returns wherever there is a run. -/
theorem Bitmap.HasRun.headerScan {b : Bitmap} {cnt : Nat} (h : b.HasRun cnt)
    (hlen : 8 * b.bmapBytesLen < 2 ^ 31) (hcnt : 1 ≤ cnt) :
    b.bitmapScan cnt = ZyOs.headerScan b cnt := by
  obtain ⟨i, hfirst⟩ := h.exists_first
  have hinside := hfirst.inside
  rw [hfirst.scan hlen hcnt, ZyOs.headerScan]
  have hfind : (List.range (8 * b.bmapBytesLen + 1 - cnt)).find?
      (fun i => IsRun b.Free i cnt) = some i := by
    rw [List.find?_range_eq_some]
    refine ⟨decide_eq_true hfirst.run, List.mem_range.mpr (by omega), fun k hk => ?_⟩
    simpa using hfirst.first k hk
  rw [hfind]

/-! ### The state -/

/-- The frames of a pool have 32-bit addresses, none of them 0. -/
structure PoolFits (pool : Pool) : Prop where
  start : 0 < pool.phyAddrStart
  top : pool.phyAddrStart + 4096 * (8 * pool.poolBitmap.bmapBytesLen) ≤ 2 ^ 32

/-- The pages that are free lie where `vaddr_get` may hand them out: in front of the stack of a
process, or in the kernel's half and in front of the window to the tables. -/
structure VaddrOk (pf : PoolFlag) (v : VirtualAddr) : Prop where
  start : 0 < v.vaddrStart
  aligned : v.vaddrStart % 4096 = 0
  half : pf = .kernel → 0xc0000000 ≤ v.vaddrStart
  below : ∀ i < 8 * v.vaddrBitmap.bmapBytesLen, v.vaddrBitmap.Free i →
    v.vaddrStart + 4096 * i < if pf = .kernel then 0xffc00000 else 0xbffff000

/-- Something is mapped at a page. -/
def Pager.Mapped (s : Pager) (page : Nat) : Prop :=
  present (s.pde (page / 1024)) = true ∧ present (s.pte page) = true

/-- Between two calls: no page that is free is mapped, and the kernel's tables are there. -/
structure PagerOk (s : Pager) : Prop where
  pools : ∀ pf, PoolFits (s.pool pf)
  vaddrs : ∀ pf, VaddrOk pf (s.vaddrs pf)
  unmapped : ∀ pf i, i < 8 * (s.vaddrs pf).vaddrBitmap.bmapBytesLen →
    (s.vaddrs pf).vaddrBitmap.Free i → ¬ s.Mapped ((s.vaddrs pf).vaddrStart / 4096 + i)
  tables : ∀ i, 768 ≤ i → i < 1023 → present (s.pde i) = true

/-- Frames and tables have been taken, and nothing else has happened. -/
structure PoolsGrown (s s' : Pager) : Prop where
  vaddrs : ∀ pf, s'.vaddrs pf = s.vaddrs pf
  isUser : s'.isUser = s.isUser
  lock : ∀ pf, (s'.pool pf).lock = (s.pool pf).lock
  size : ∀ pf, (s'.pool pf).poolSize = (s.pool pf).poolSize
  fits : ∀ pf, PoolFits (s.pool pf) → PoolFits (s'.pool pf)
  pde : ∀ i, present (s.pde i) = true → present (s'.pde i) = true

theorem PoolsGrown.refl (s : Pager) : PoolsGrown s s :=
  ⟨fun _ => rfl, rfl, fun _ => rfl, fun _ => rfl, fun _ h => h, fun _ h => h⟩

theorem PoolsGrown.trans {s₂ : Pager} (h : PoolsGrown s s') (h' : PoolsGrown s' s₂) :
    PoolsGrown s s₂ :=
  ⟨fun pf => (h'.vaddrs pf).trans (h.vaddrs pf), h'.isUser.trans h.isUser,
    fun pf => (h'.lock pf).trans (h.lock pf), fun pf => (h'.size pf).trans (h.size pf),
    fun pf hf => h'.fits pf (h.fits pf hf),
    fun i hi => h'.pde i (h.pde i hi)⟩

namespace Pager

@[simp] theorem pool_withPool : (s.withPool pool pf).pool pf = pool := by
  cases pf <;> rfl

theorem pool_withPool_ne {pf' : PoolFlag} (h : pf' ≠ pf) :
    (s.withPool pool pf).pool pf' = s.pool pf' := by
  cases pf <;> cases pf' <;> first | rfl | exact absurd rfl h

@[simp] theorem vaddrs_withPool {pf' : PoolFlag} :
    (s.withPool pool pf).vaddrs pf' = s.vaddrs pf' := by
  cases pf <;> cases pf' <;> rfl

@[simp] theorem isUser_withPool : (s.withPool pool pf).isUser = s.isUser := by
  cases pf <;> rfl

@[simp] theorem pde_withPool : (s.withPool pool pf).pde = s.pde := by
  cases pf <;> rfl

@[simp] theorem pte_withPool : (s.withPool pool pf).pte = s.pte := by
  cases pf <;> rfl

@[simp] theorem withPool_self : s.withPool (s.pool pf) pf = s := by
  cases pf <;> rfl

theorem mapped_withPool {page : Nat} : (s.withPool pool pf).Mapped page ↔ s.Mapped page := by
  rw [Mapped, pde_withPool, pte_withPool, Mapped]

end Pager

/-- A pool that keeps its place and its lock. -/
theorem PoolsGrown.withPool (hlock : pool.lock = (s.pool pf).lock)
    (hsize : pool.poolSize = (s.pool pf).poolSize)
    (hfits : PoolFits (s.pool pf) → PoolFits pool) : PoolsGrown s (s.withPool pool pf) where
  vaddrs _ := Pager.vaddrs_withPool
  isUser := Pager.isUser_withPool
  lock pf' := by
    by_cases h : pf' = pf
    · rw [h, Pager.pool_withPool, hlock]
    · rw [Pager.pool_withPool_ne h]
  size pf' := by
    by_cases h : pf' = pf
    · rw [h, Pager.pool_withPool, hsize]
    · rw [Pager.pool_withPool_ne h]
  fits pf' hf := by
    by_cases h : pf' = pf
    · rw [h] at hf ⊢
      rw [Pager.pool_withPool]
      exact hfits hf
    · rwa [Pager.pool_withPool_ne h]
  pde i hi := by rwa [Pager.pde_withPool]

/-! ### `palloc` -/

/-- Frame `i` of a pool is taken. -/
def Pool.take (pool : Pool) (i : Nat) : Pool :=
  { pool with poolBitmap := pool.poolBitmap.bitmapSet i true }

theorem pallocWith_cases (hscan : HeaderScan scan) (hfit : PoolFits pool) :
    pool.poolBitmap.Full ∧ pallocWith scan pool = .ok (pool, none) ∨
    ∃ i < 8 * pool.poolBitmap.bmapBytesLen, pool.poolBitmap.Free i ∧
      pallocWith scan pool = .ok (pool.take i, some (i * 4096 + pool.phyAddrStart)) := by
  have hstart := hfit.start
  have htop := hfit.top
  rw [pallocWith]
  rcases hscan pool.poolBitmap 1 (le_refl 1) with ⟨hnone, hno⟩ | ⟨i, hi, hlt, hfree⟩
  · rw [hnone]
    refine .inl ⟨fun i hi => Bitmap.not_free.mp fun hfree => ?_, rfl⟩
    exact hno ⟨i, hi, IsRun.one.mpr hfree⟩
  · refine .inr ⟨i, hlt, IsRun.one.mp hfree, ?_⟩
    have haddr : (i * pageSize + pool.phyAddrStart) % 2 ^ 32 = i * 4096 + pool.phyAddrStart := by
      rw [show pageSize = 4096 from rfl]
      omega
    rw [hi, ok_bind, if_neg (by omega)]
    simp only [Int.toNat_natCast, haddr, if_neg (show ¬ i * 4096 + pool.phyAddrStart = 0 by omega)]
    rfl

theorem poolAlloc_cases (hscan : HeaderScan scan) (hfit : PoolFits (s.pool pf)) :
    (s.pool pf).poolBitmap.Full ∧ poolAlloc scan pf s = .ok (none, s) ∨
    ∃ i < 8 * (s.pool pf).poolBitmap.bmapBytesLen, (s.pool pf).poolBitmap.Free i ∧
      poolAlloc scan pf s = .ok (some (i * 4096 + (s.pool pf).phyAddrStart),
        s.withPool ((s.pool pf).take i) pf) := by
  have hrun : ∀ p f, pallocWith scan (s.pool pf) = .ok (p, f) →
      poolAlloc scan pf s = .ok (f, s.withPool p pf) := by
    intro p f h
    rw [poolAlloc, Prog.bind_of_run (Prog.get_run s), h]
    rfl
  rcases pallocWith_cases hscan hfit with ⟨hfull, h⟩ | ⟨i, hi, hfree, h⟩
  · exact .inl ⟨hfull, by rw [hrun _ _ h, Pager.withPool_self]⟩
  · exact .inr ⟨i, hi, hfree, hrun _ _ h⟩

theorem PoolsGrown.take (i : Nat) : PoolsGrown s (s.withPool ((s.pool pf).take i) pf) :=
  .withPool rfl rfl fun h => ⟨h.start, h.top⟩

/-! ### `page_table_add` -/

theorem present_tableEntry (a : Nat) : present (tableEntry a) = true := by
  have hbit : (tableEntry a &&& 1).toBitVec.getLsbD 0 = true := by
    rw [tableEntry, UInt32.toBitVec_and, BitVec.getLsbD_and, UInt32.toBitVec_or, BitVec.getLsbD_or]
    simp
  have hne : tableEntry a &&& 1 ≠ 0 := by
    intro hc
    rw [hc] at hbit
    exact absurd hbit (by decide)
  simpa [present] using hne

theorem toNat_tableEntry {f : Nat} (hf : f < 2 ^ 20) :
    (tableEntry (4096 * f)).toNat = 4096 * f + 7 := by
  have hv : (UInt32.ofNat (4096 * f)).toNat = 2 ^ 12 * f := by
    rw [UInt32.toNat_ofNat']
    omega
  rw [tableEntry, UInt32.or_assoc, UInt32.or_assoc, UInt32.toNat_or, hv]
  exact (Nat.two_pow_add_eq_or_of_lt (show 7 < 2 ^ 12 by decide) f).symm

theorem PoolsGrown.withPte (page : Nat) (entry : UInt32) : PoolsGrown s (s.withPte page entry) :=
  ⟨fun pf => by cases pf <;> rfl, rfl, fun pf => by cases pf <;> rfl,
    fun pf => by cases pf <;> rfl, fun pf h => by cases pf <;> exact h, fun _ h => h⟩

/-- A table for `i` that is empty. -/
def Pager.withTable (s : Pager) (i : Nat) (entry : UInt32) : Pager :=
  { s with
    pde := fun j => if j = i then entry else s.pde j
    pte := fun k => if k / 1024 = i then 0 else s.pte k }

theorem PoolsGrown.withTable {i : Nat} (a : Nat) : PoolsGrown s (s.withTable i (tableEntry a)) where
  vaddrs pf := by cases pf <;> rfl
  isUser := rfl
  lock pf := by cases pf <;> rfl
  size pf := by cases pf <;> rfl
  fits pf h := by cases pf <;> exact h
  pde j hj := by
    show present (if j = i then _ else s.pde j) = true
    split_ifs
    · exact present_tableEntry a
    · exact hj

/-- Nothing is mapped by an empty table. -/
theorem Pager.Mapped.of_withTable {i page : Nat} {entry : UInt32}
    (h : (s.withTable i entry).Mapped page) : s.Mapped page := by
  obtain ⟨hpde, hpte⟩ := h
  have hne : page / 1024 ≠ i := by
    intro hi
    rw [withTable] at hpte
    simp only [if_pos hi] at hpte
    cases hpte
  simp only [withTable, if_neg hne] at hpde hpte
  exact ⟨hpde, hpte⟩

theorem Pager.Mapped.of_withPte {page q : Nat} {entry : UInt32}
    (h : (s.withPte page entry).Mapped q) : s.Mapped q ∨ q = page := by
  by_cases hq : q = page
  · exact .inr hq
  · obtain ⟨hpde, hpte⟩ := h
    simp only [withPte, if_neg hq] at hpde hpte
    exact .inl ⟨hpde, hpte⟩

theorem pdeIdx_page (vaddr : Nat) : pdeIdx vaddr = vaddr / pageSize / 1024 :=
  (Nat.div_div_eq_div_mul vaddr pageSize 1024).symm

/-- A page is mapped where nothing was; the table may be a new one. -/
theorem pageTableAdd_run (hscan : HeaderScan scan) (hfit : PoolFits s.kernelPool) {vaddr : Nat}
    (hfree : ¬ s.Mapped (vaddr / pageSize)) (frame : Nat) :
    ∃ s', pageTableAdd scan vaddr frame s = .ok ((), s') ∧ PoolsGrown s s' ∧
      s'.userPool = s.userPool ∧
      (present (s.pde (vaddr / pageSize / 1024)) = true → s'.kernelPool = s.kernelPool) ∧
      ∀ q, s'.Mapped q → s.Mapped q ∨ q = vaddr / pageSize := by
  rw [pageTableAdd, Prog.bind_of_run (Prog.get_run s), pdeIdx_page]
  by_cases hpde : present (s.pde (vaddr / pageSize / 1024)) = true
  · have hpte : present (s.pte (vaddr / pageSize)) = false := by
      simpa [Pager.Mapped, hpde] using hfree
    refine ⟨s.withPte (vaddr / pageSize) (tableEntry frame), ?_, .withPte _ _, rfl, fun _ => rfl,
      fun q => Pager.Mapped.of_withPte⟩
    rw [if_pos hpde, Prog.bind_of_run (Prog.get_run s), ASSERT_pos hpte]
    rfl
  · rw [if_neg hpde]
    -- the table is empty, whichever frame it is in
    have hnew : ∀ (s₁ : Pager) (f : Option Nat), poolAlloc scan .kernel s = .ok (f, s₁) →
        PoolsGrown s s₁ → s₁.userPool = s.userPool → (∀ q, s₁.Mapped q ↔ s.Mapped q) →
        ∃ s', (poolAlloc scan .kernel >>= fun pdePhyaddr => (do
            modify fun s => s.withTable (vaddr / pageSize / 1024) (tableEntry (pdePhyaddr.getD 0))
            Prog.lift (ASSERT (present ((← get).pte (vaddr / pageSize)) = false) "page_table_add"
              "!(*pte & 0x00000001)")
            modify fun s => s.withPte (vaddr / pageSize) (tableEntry frame) : PagerM Unit)) s
            = .ok ((), s') ∧ PoolsGrown s s' ∧ s'.userPool = s.userPool ∧
          ∀ q, s'.Mapped q → s.Mapped q ∨ q = vaddr / pageSize := by
      intro s₁ f hrun hgrown huser hmapped
      have hempty : present ((s₁.withTable (vaddr / pageSize / 1024) (tableEntry (f.getD 0))).pte
          (vaddr / pageSize)) = false := by
        rw [Pager.withTable]
        simp only [if_true]
        rfl
      refine ⟨(s₁.withTable (vaddr / pageSize / 1024) (tableEntry (f.getD 0))).withPte
        (vaddr / pageSize) (tableEntry frame), ?_, ?_, huser, fun q hq => ?_⟩
      · rw [Prog.bind_of_run hrun, Prog.bind_of_run (Prog.modify_run _ _),
          Prog.bind_of_run (Prog.get_run _), ASSERT_pos hempty]
        rfl
      · exact (hgrown.trans (.withTable _)).trans (.withPte _ _)
      · exact hq.of_withPte.imp_left fun h => (hmapped q).mp h.of_withTable
    have hcase : ∃ s₁ f, poolAlloc scan .kernel s = .ok (f, s₁) ∧ PoolsGrown s s₁ ∧
        s₁.userPool = s.userPool ∧ ∀ q, s₁.Mapped q ↔ s.Mapped q := by
      have hkernel : PoolFits (s.pool .kernel) := hfit
      rcases poolAlloc_cases hscan hkernel with ⟨-, hrun⟩ | ⟨i, -, -, hrun⟩
      · exact ⟨s, none, hrun, .refl s, rfl, fun _ => Iff.rfl⟩
      · exact ⟨_, _, hrun, .take i, rfl, fun _ => Pager.mapped_withPool⟩
    obtain ⟨s₁, f, hrun, hgrown, huser, hmapped⟩ := hcase
    obtain ⟨s', hs', hg, hu, hm⟩ := hnew s₁ f hrun hgrown huser hmapped
    exact ⟨s', hs', hg, hu, fun hp => absurd hp hpde, hm⟩

/-! ### `malloc_page` -/

/-- The loop goes through when there are frames for all pages, and stops without the last ones
otherwise. -/
theorem mallocPageLoop_run (pf : PoolFlag) (hscan : HeaderScan scan) :
    ∀ (cnt vaddr : Nat) (s : Pager),
    (∀ pf, PoolFits (s.pool pf)) → vaddr % 4096 = 0 → vaddr + 4096 * cnt ≤ 2 ^ 32 →
    (∀ q, vaddr / 4096 ≤ q → q < vaddr / 4096 + cnt → ¬ s.Mapped q) →
    (pf = .kernel → ∀ q, vaddr / 4096 ≤ q → q < vaddr / 4096 + cnt →
      present (s.pde (q / 1024)) = true) →
    ∃ s', PoolsGrown s s' ∧
      (∀ q, s'.Mapped q → s.Mapped q ∨ vaddr / 4096 ≤ q ∧ q < vaddr / 4096 + cnt) ∧
      (Room (s.pool pf).poolBitmap cnt ∧ mallocPageLoop scan pf cnt vaddr s = .ok (true, s') ∨
        ¬ Room (s.pool pf).poolBitmap cnt ∧
          mallocPageLoop scan pf cnt vaddr s = .ok (false, s')) := by
  intro cnt
  induction cnt with
  | zero => exact fun vaddr s _ _ _ _ _ => ⟨s, .refl s, fun _ => .inl, .inl ⟨room_zero _, rfl⟩⟩
  | succ cnt ih =>
      intro vaddr s hfit haligned htop hfree htable
      rcases poolAlloc_cases hscan (hfit pf) with ⟨hfull, hrun⟩ | ⟨i, hi, hclear, hrun⟩
      · refine ⟨s, .refl s, fun _ => .inl, .inr ⟨hfull.not_room, ?_⟩⟩
        rw [mallocPageLoop, Prog.bind_of_run hrun]
        rfl
      set s₁ := s.withPool ((s.pool pf).take i) pf with hs₁
      have hgrown : PoolsGrown s s₁ := .take i
      have hunmapped : ¬ s₁.Mapped (vaddr / pageSize) := fun hm =>
        hfree _ (le_refl _) (by omega) (Pager.mapped_withPool.mp hm)
      obtain ⟨s₂, hadd, hgrown₂, huser, hkernel, hmapped⟩ := pageTableAdd_run hscan
        (hgrown.fits .kernel (hfit .kernel)) hunmapped (i * 4096 + (s.pool pf).phyAddrStart)
      -- the table is not taken from the pool the page is from
      have hpool : (s₂.pool pf).poolBitmap = (s.pool pf).poolBitmap.bitmapSet i true := by
        have h₁ : (s₁.pool pf).poolBitmap = (s.pool pf).poolBitmap.bitmapSet i true := by
          rw [hs₁, Pager.pool_withPool]
          rfl
        rw [← h₁]
        cases pf with
        | kernel =>
            have hpde := htable rfl (vaddr / 4096) (le_refl _) (by omega)
            exact congrArg Pool.poolBitmap (hkernel (hgrown.pde _ hpde))
        | user => exact congrArg Pool.poolBitmap huser
      have hgrown' := hgrown.trans hgrown₂
      have hpage : pageSize = 4096 := rfl
      have hfree' : ∀ q, (vaddr + pageSize) % 2 ^ 32 / 4096 ≤ q →
          q < (vaddr + pageSize) % 2 ^ 32 / 4096 + cnt → ¬ s₂.Mapped q := by
        intro q hq hq' hm
        rcases hmapped q hm with hold | rfl
        · exact hfree q (by omega) (by omega) (Pager.mapped_withPool.mp hold)
        · rw [hpage] at hq hq'
          omega
      have htable' : pf = .kernel → ∀ q, (vaddr + pageSize) % 2 ^ 32 / 4096 ≤ q →
          q < (vaddr + pageSize) % 2 ^ 32 / 4096 + cnt → present (s₂.pde (q / 1024)) = true :=
        fun hpf q hq hq' => hgrown'.pde _ (htable hpf q (by omega) (by omega))
      obtain ⟨s', hgrown'', hmapped', hcase⟩ := ih ((vaddr + pageSize) % 2 ^ 32) s₂
        (fun pf' => hgrown'.fits pf' (hfit pf')) (by omega) (by omega) hfree' htable'
      have hpages : ∀ q, s'.Mapped q → s.Mapped q ∨
          vaddr / 4096 ≤ q ∧ q < vaddr / 4096 + (cnt + 1) := by
        intro q hm
        rcases hmapped' q hm with hm | ⟨hq, hq'⟩
        · rcases hmapped q hm with hold | rfl
          · exact .inl (Pager.mapped_withPool.mp hold)
          · rw [hpage]
            exact .inr ⟨le_refl _, by omega⟩
        · exact .inr ⟨by omega, by omega⟩
      refine ⟨s', hgrown'.trans hgrown'', hpages, ?_⟩
      have hstep : mallocPageLoop scan pf (cnt + 1) vaddr s
          = mallocPageLoop scan pf cnt ((vaddr + pageSize) % 2 ^ 32) s₂ := by
        rw [mallocPageLoop, Prog.bind_of_run hrun]
        exact Prog.bind_of_run hadd
      rw [hpool] at hcase
      rw [hstep]
      refine hcase.imp (fun h => ⟨.of_set hi hclear h.1, h.2⟩) fun h => ⟨fun hc => ?_, h.2⟩
      exact h.1 (hc.set i)

/-- What is handed out: the run of `n` pages from bit `idx` on is marked. -/
theorem vaddrGetWith_cases (hscan : HeaderScan scan) {v : VirtualAddr} (hv : VaddrOk pf v)
    (hn : 1 ≤ n) :
    ¬ v.vaddrBitmap.HasRun n ∧ vaddrGetWith scan v pf n = .ok (v, none) ∨
    ∃ idx, idx + n ≤ 8 * v.vaddrBitmap.bmapBytesLen ∧ IsRun v.vaddrBitmap.Free idx n ∧
      vaddrGetWith scan v pf n = .ok (v.withRun idx n true, some (v.vaddrStart + 4096 * idx)) := by
  have hstart := hv.start
  rcases hscan v.vaddrBitmap n hn with ⟨hnone, hno⟩ | ⟨idx, hidx, hle, hrun⟩
  · refine .inl ⟨hno, ?_⟩
    rw [vaddrGetWith, hnone]
    rfl
  · have hbelow := hv.below idx (by omega) (hrun 0 (by omega))
    have haddr : (v.vaddrStart + idx * pageSize) % 2 ^ 32 = v.vaddrStart + 4096 * idx := by
      rw [show pageSize = 4096 from rfl]
      split_ifs at hbelow <;> omega
    refine .inr ⟨idx, hle, hrun, ?_⟩
    rw [vaddrGetWith, hidx, ok_bind, if_neg (by omega)]
    simp only [Int.toNat_natCast, haddr,
      if_neg (show ¬ v.vaddrStart + 4096 * idx = 0 by omega)]
    cases pf with
    | kernel => rfl
    | user =>
        rw [if_neg (by decide)] at hbelow
        rw [if_pos rfl, ASSERT_pos (by rw [show pageSize = 4096 from rfl]; omega)]
        rfl

namespace Pager

@[simp] theorem vaddrs_withVaddrs {v : VirtualAddr} : (s.withVaddrs v pf).vaddrs pf = v := by
  cases pf <;> rfl

theorem vaddrs_withVaddrs_ne {v : VirtualAddr} {pf' : PoolFlag} (h : pf' ≠ pf) :
    (s.withVaddrs v pf).vaddrs pf' = s.vaddrs pf' := by
  cases pf <;> cases pf' <;> first | rfl | exact absurd rfl h

@[simp] theorem withVaddrs_self : s.withVaddrs (s.vaddrs pf) pf = s := by
  cases pf <;> rfl

@[simp] theorem pool_withVaddrs {v : VirtualAddr} {pf' : PoolFlag} :
    (s.withVaddrs v pf).pool pf' = s.pool pf' := by
  cases pf <;> cases pf' <;> rfl

@[simp] theorem pde_withVaddrs {v : VirtualAddr} : (s.withVaddrs v pf).pde = s.pde := by
  cases pf <;> rfl

theorem mapped_withVaddrs {v : VirtualAddr} {page : Nat} :
    (s.withVaddrs v pf).Mapped page ↔ s.Mapped page := by
  cases pf <;> exact Iff.rfl

end Pager

/-- `New` pages were mapped, none of which is free now. -/
theorem PagerOk.next (h : PagerOk s) {New : Nat → Prop} (hpools : ∀ pf, PoolFits (s'.pool pf))
    (hstart : ∀ pf, (s'.vaddrs pf).vaddrStart = (s.vaddrs pf).vaddrStart)
    (hlen : ∀ pf, (s'.vaddrs pf).vaddrBitmap.bmapBytesLen
      = (s.vaddrs pf).vaddrBitmap.bmapBytesLen)
    (hfree : ∀ pf i, i < 8 * (s.vaddrs pf).vaddrBitmap.bmapBytesLen →
      (s'.vaddrs pf).vaddrBitmap.Free i → (s.vaddrs pf).vaddrBitmap.Free i ∧
        ¬ New ((s.vaddrs pf).vaddrStart / 4096 + i))
    (hmapped : ∀ q, s'.Mapped q → s.Mapped q ∨ New q)
    (hpde : ∀ i, present (s.pde i) = true → present (s'.pde i) = true) : PagerOk s' where
  pools := hpools
  vaddrs pf := by
    have hv := h.vaddrs pf
    refine ⟨by rw [hstart]; exact hv.start, by rw [hstart]; exact hv.aligned,
      by rw [hstart]; exact hv.half, fun i hi hf => ?_⟩
    rw [hlen] at hi
    rw [hstart]
    exact hv.below i hi (hfree pf i hi hf).1
  unmapped pf i hi hf hm := by
    rw [hlen] at hi
    rw [hstart] at hm
    obtain ⟨hold, hnew⟩ := hfree pf i hi hf
    rcases hmapped _ hm with hm | hm
    · exact h.unmapped pf i hi hold hm
    · exact hnew hm
  tables i hi hi' := hpde i (h.tables i hi hi')

/-- A page that is free is in the half of its address space. -/
theorem PagerOk.half (h : PagerOk s) (hi : i < 8 * (s.vaddrs pf).vaddrBitmap.bmapBytesLen)
    (hfree : (s.vaddrs pf).vaddrBitmap.Free i) :
    0xc0000 ≤ (s.vaddrs pf).vaddrStart / 4096 + i ↔ pf = .kernel := by
  have hv := h.vaddrs pf
  have haligned := hv.aligned
  have hbelow := hv.below i hi hfree
  constructor
  · intro hle
    by_contra hpf
    rw [if_neg hpf] at hbelow
    omega
  · intro hpf
    have := hv.half hpf
    omega

/-- `malloc_page` behind its `ASSERT`. -/
theorem mallocPageWith_pos (scan : Scan) (pf : PoolFlag) (hn : 0 < n ∧ n < 3840) :
    mallocPageWith scan pf n s = (do
      let (v, vaddr) ← Prog.lift (vaddrGetWith scan (s.vaddrs pf) pf n)
      set (s.withVaddrs v pf)
      match vaddr with
      | none => return none
      | some vaddr =>
          if ← mallocPageLoop scan pf n vaddr then return some vaddr else return none :
        PagerM (Option Nat)) s := by
  rw [mallocPageWith, ASSERT_pos hn]
  rfl

/-- `malloc_page` between two calls: without addresses nothing happens, with frames for all pages
it succeeds, and otherwise the addresses stay marked. -/
theorem mallocPageWith_cases (pf : PoolFlag) (hscan : HeaderScan scan) (hs : PagerOk s)
    (hn : 0 < n ∧ n < 3840) :
    ¬ (s.vaddrs pf).vaddrBitmap.HasRun n ∧ mallocPageWith scan pf n s = .ok (none, s) ∨
    (s.vaddrs pf).vaddrBitmap.HasRun n ∧ ∃ s', PagerOk s' ∧
      (∀ pf', (s'.pool pf').lock = (s.pool pf').lock) ∧
      (Room (s.pool pf).poolBitmap n ∧
        (∃ vaddr, mallocPageWith scan pf n s = .ok (some vaddr, s')) ∨
        ¬ Room (s.pool pf).poolBitmap n ∧ mallocPageWith scan pf n s = .ok (none, s') ∧
          (s'.vaddrs pf).vaddrBitmap ≠ (s.vaddrs pf).vaddrBitmap) := by
  have hv := hs.vaddrs pf
  have haligned := hv.aligned
  rcases vaddrGetWith_cases hscan hv hn.1 with ⟨hno, hget⟩ | ⟨idx, hidx, hrun, hget⟩
  · refine .inl ⟨hno, ?_⟩
    rw [mallocPageWith_pos scan pf hn, hget]
    show Except.ok (none, s.withVaddrs (s.vaddrs pf) pf) = _
    rw [Pager.withVaddrs_self]
  refine .inr ⟨⟨idx, hidx, hrun⟩, ?_⟩
  set start := (s.vaddrs pf).vaddrStart + 4096 * idx with hstart
  set s₁ := s.withVaddrs ((s.vaddrs pf).withRun idx n true) pf with hs₁
  have hbelow := hv.below (idx + (n - 1)) (by omega) (hrun (n - 1) (by omega))
  have hpage : start / 4096 = (s.vaddrs pf).vaddrStart / 4096 + idx := by omega
  obtain ⟨s', hgrown, hmapped, hcase⟩ := mallocPageLoop_run pf hscan n start s₁
    (fun pf' => by rw [hs₁, Pager.pool_withVaddrs]; exact hs.pools pf') (by omega)
    (by split_ifs at hbelow <;> omega)
    (fun q hq hq' hm => hs.unmapped pf (idx + (q - start / 4096)) (by omega)
      (hrun (q - start / 4096) (by omega)) (by
        rw [Pager.mapped_withVaddrs] at hm
        rwa [show (s.vaddrs pf).vaddrStart / 4096 + (idx + (q - start / 4096)) = q by omega]))
    (fun hpf q hq hq' => by
      have hhalf := hv.half hpf
      rw [if_pos hpf] at hbelow
      rw [hs₁, Pager.pde_withVaddrs]
      exact hs.tables _ (by omega) (by omega))
  have hok : PagerOk s' := by
    have hself : s'.vaddrs pf = (s.vaddrs pf).withRun idx n true := by
      rw [hgrown.vaddrs, hs₁, Pager.vaddrs_withVaddrs]
    have hother : ∀ pf', pf' ≠ pf → s'.vaddrs pf' = s.vaddrs pf' := fun pf' h => by
      rw [hgrown.vaddrs, hs₁, Pager.vaddrs_withVaddrs_ne h]
    refine hs.next (fun pf' => hgrown.fits pf' ?_) (fun pf' => ?_) (fun pf' => ?_)
      (fun pf' i hi hf => ?_) (fun q hq => (hmapped q hq).imp_left Pager.mapped_withVaddrs.mp)
      (fun i hi => hgrown.pde i (by rwa [hs₁, Pager.pde_withVaddrs]))
    · rw [hs₁, Pager.pool_withVaddrs]
      exact hs.pools pf'
    · by_cases h : pf' = pf
      · rw [h, hself]
        rfl
      · rw [hother pf' h]
    · by_cases h : pf' = pf
      · rw [h, hself]
        exact Bitmap.bmapBytesLen_setRun _ _ _ _
      · rw [hother pf' h]
    · by_cases h : pf' = pf
      · subst h
        rw [hself, VirtualAddr.withRun, Bitmap.Free, Bitmap.scanTest_setRun] at hf
        by_cases hin : idx ≤ i ∧ i < idx + n
        · rw [if_pos hin] at hf
          cases hf
        · rw [if_neg hin] at hf
          exact ⟨hf, by omega⟩
      · rw [hother pf' h] at hf
        refine ⟨hf, fun hnew => h ?_⟩
        -- a page of the run is in the half of `pf`
        have hhalf := hs.half hi hf
        have hfree : (s.vaddrs pf).vaddrBitmap.Free
            (idx + ((s.vaddrs pf').vaddrStart / 4096 + i - start / 4096)) :=
          hrun.mem (by omega) (by omega)
        have hrunHalf := hs.half (by omega) hfree
        rw [show (s.vaddrs pf).vaddrStart / 4096 + (idx + ((s.vaddrs pf').vaddrStart / 4096 + i
          - start / 4096)) = (s.vaddrs pf').vaddrStart / 4096 + i by omega, hhalf] at hrunHalf
        cases pf <;> cases pf' <;> simp_all
  refine ⟨s', hok, fun pf' => by rw [hgrown.lock, hs₁, Pager.pool_withVaddrs], ?_⟩
  rw [hs₁, Pager.pool_withVaddrs, ← hs₁] at hcase
  have hloop : mallocPageWith scan pf n s = (mallocPageLoop scan pf n start >>= fun ok =>
      if ok = true then pure (some start) else pure none : PagerM (Option Nat)) s₁ := by
    rw [mallocPageWith_pos scan pf hn, hget]
    rfl
  refine hcase.imp (fun h => ⟨h.1, start, ?_⟩) fun h => ⟨h.1, ?_, fun hsame => ?_⟩
  · rw [hloop, Prog.bind_of_run h.2]
    rfl
  · rw [hloop, Prog.bind_of_run h.2]
    rfl
  · rw [hgrown.vaddrs, hs₁, Pager.vaddrs_withVaddrs] at hsame
    have hset : ((s.vaddrs pf).withRun idx n true).vaddrBitmap.bitmapScanTest idx = true := by
      rw [VirtualAddr.withRun, Bitmap.scanTest_setRun, if_pos (by omega)]
    rw [hsame] at hset
    exact Bitmap.not_free.mpr hset (hrun.mem (le_refl _) (by omega))

/-! ### The lock -/

/-- The lock of a pool is changed. -/
def Pager.withLock (s : Pager) (pf : PoolFlag) (lock : Mutex) : Pager :=
  s.withPool { s.pool pf with lock := lock } pf

theorem poolAcquire_run (t : Nat) (pf : PoolFlag) :
    poolAcquire t pf s = .ok ((), s.withLock pf ((s.pool pf).lock.acquire t)) := rfl

theorem poolRelease_run (h : (s.pool pf).lock = ⟨some t, 1⟩) :
    poolRelease t pf s = .ok ((), s.withLock pf .free) := by
  rw [poolRelease, Prog.bind_of_run (Prog.get_run s), ASSERT_pos (by rw [h]), h]
  rfl

namespace Pager

variable {lock : Mutex}

theorem pool_withLock : (s.withLock pf lock).pool pf = { s.pool pf with lock := lock } :=
  pool_withPool

@[simp] theorem bitmap_withLock {pf' : PoolFlag} :
    ((s.withLock pf lock).pool pf').poolBitmap = (s.pool pf').poolBitmap := by
  cases pf <;> cases pf' <;> rfl

@[simp] theorem poolSize_withLock {pf' : PoolFlag} :
    ((s.withLock pf lock).pool pf').poolSize = (s.pool pf').poolSize := by
  cases pf <;> cases pf' <;> rfl

@[simp] theorem vaddrs_withLock {pf' : PoolFlag} : (s.withLock pf lock).vaddrs pf' = s.vaddrs pf' :=
  vaddrs_withPool

theorem withLock_withLock {lock' : Mutex} :
    (s.withLock pf lock).withLock pf lock' = s.withLock pf lock' := by
  cases pf <;> rfl

end Pager

theorem PagerOk.withLock (h : PagerOk s) (pf : PoolFlag) (lock : Mutex) :
    PagerOk (s.withLock pf lock) where
  pools pf' := by
    have hfit := h.pools pf'
    by_cases hpf : pf' = pf
    · subst hpf
      rw [Pager.pool_withLock]
      exact ⟨hfit.start, hfit.top⟩
    · rwa [Pager.withLock, Pager.pool_withPool_ne hpf]
  vaddrs pf' := by
    rw [Pager.vaddrs_withLock]
    exact h.vaddrs pf'
  unmapped pf' i hi hfree := by
    rw [Pager.vaddrs_withLock] at hi hfree ⊢
    rw [Pager.withLock, Pager.mapped_withPool]
    exact h.unmapped pf' i hi hfree
  tables i hi hi' := by
    rw [Pager.withLock, Pager.pde_withPool]
    exact h.tables i hi hi'

/-! ### Refusals -/

theorem mallocPageWith_refused (hn : ¬ (0 < n ∧ n < 3840)) : mallocPageWith scan pf n s
    = .error (.panic "malloc_page" "pg_cnt > 0 && pg_cnt < 3840") := by
  rw [mallocPageWith, ASSERT_neg hn]
  rfl

/-- Page `i` is marked. -/
def VirtualAddr.mark (v : VirtualAddr) (i : Nat) : VirtualAddr :=
  { v with vaddrBitmap := v.vaddrBitmap.bitmapSet i true }

/-- `get_a_page` on the address `vaddr`, once it is allowed. -/
theorem getAPageWith_run {vaddr : Nat} (ha : s.isUser = (pf == .user))
    (hb : 0 < sub32 vaddr (s.vaddrs pf).vaddrStart / pageSize) :
    getAPageWith scan t pf vaddr s = (do
      match ← poolAlloc scan pf with
      | none => return none
      | some pagePhyaddr =>
          pageTableAdd scan vaddr pagePhyaddr
          poolRelease t pf
          return some vaddr : PagerM (Option Nat))
      ((s.withLock pf ((s.pool pf).lock.acquire t)).withVaddrs
        ((s.vaddrs pf).mark (sub32 vaddr (s.vaddrs pf).vaddrStart / pageSize)) pf) := by
  rw [getAPageWith, Prog.bind_of_run (poolAcquire_run t pf), Prog.bind_of_run (Prog.get_run _),
    if_pos (by rw [Pager.withLock, Pager.isUser_withPool]; exact ha), Pager.vaddrs_withLock,
    ASSERT_pos hb]
  rfl

/-- `get_a_page` for the other kind of task. -/
theorem getAPageWith_refused {vaddr : Nat} (ha : ¬ s.isUser = (pf == .user)) :
    getAPageWith scan t pf vaddr s = .error (.panic "get_a_page"
      "get_a_page:not allow kernel alloc userspace or user alloc kernel space by get_a_page") := by
  rw [getAPageWith, Prog.bind_of_run (poolAcquire_run t pf), Prog.bind_of_run (Prog.get_run _),
    if_neg (by rw [Pager.withLock, Pager.isUser_withPool]; exact ha)]
  rfl

/-- and on the first page there is. -/
theorem getAPageWith_low {vaddr : Nat} (ha : s.isUser = (pf == .user))
    (hb : ¬ 0 < sub32 vaddr (s.vaddrs pf).vaddrStart / pageSize) :
    getAPageWith scan t pf vaddr s = .error (.panic "get_a_page" "bit_idx > 0") := by
  rw [getAPageWith, Prog.bind_of_run (poolAcquire_run t pf), Prog.bind_of_run (Prog.get_run _),
    if_pos (by rw [Pager.withLock, Pager.isUser_withPool]; exact ha), Pager.vaddrs_withLock,
    ASSERT_neg hb]
  rfl

/-! ### What a request keeps -/

theorem PagerOk.take (h : PagerOk s) (i : Nat) :
    PagerOk (s.withPool ((s.pool pf).take i) pf) := by
  have hgrown : PoolsGrown s (s.withPool ((s.pool pf).take i) pf) := .take i
  refine @PagerOk.next _ _ h (fun _ => False) (fun pf' => hgrown.fits pf' (h.pools pf'))
    (fun pf' => by rw [hgrown.vaddrs]) (fun pf' => by rw [hgrown.vaddrs]) (fun pf' j hj hf => ?_)
    (fun q hq => .inl (Pager.mapped_withPool.mp hq)) hgrown.pde
  rw [hgrown.vaddrs] at hf
  exact ⟨hf, id⟩

theorem PagerOk.release (h : PagerOk s) {u : Unit} (hrun : poolRelease t pf s = .ok (u, s')) :
    PagerOk s' := by
  rw [poolRelease, Prog.bind_of_run (Prog.get_run s)] at hrun
  by_cases hheld : (s.pool pf).lock.holder = some t
  · rw [ASSERT_pos hheld] at hrun
    cases hrun
    exact h.withLock _ _
  · rw [ASSERT_neg hheld] at hrun
    cases hrun

/-- A page that is not free is mapped, and the lock given back. -/
theorem PagerOk.mapOne (hscan : HeaderScan scan) (h : PagerOk s) {vaddr frame : Nat}
    (hpage : ∀ pf i, i < 8 * (s.vaddrs pf).vaddrBitmap.bmapBytesLen →
      (s.vaddrs pf).vaddrBitmap.Free i → ¬ (s.vaddrs pf).vaddrStart / 4096 + i = vaddr / 4096)
    {r : Option Nat} (hrun : (do
      pageTableAdd scan vaddr frame
      poolRelease t pf
      return some vaddr : PagerM (Option Nat)) s = .ok (r, s')) : PagerOk s' := by
  obtain ⟨_, s₁, hadd, hrun⟩ := Prog.bind_run.mp hrun
  obtain ⟨_, s₂, hrel, hrun⟩ := Prog.bind_run.mp hrun
  cases hrun
  refine PagerOk.release ?_ hrel
  by_cases hm : s.Mapped (vaddr / pageSize)
  · -- the `ASSERT` has not let it through
    rw [pageTableAdd, Prog.bind_of_run (Prog.get_run s), pdeIdx_page, if_pos hm.1,
      Prog.bind_of_run (Prog.get_run s), ASSERT_neg (by rw [hm.2]; decide)] at hadd
    cases hadd
  · obtain ⟨s₃, hadd', hgrown, -, -, hmapped⟩ :=
      pageTableAdd_run hscan (h.pools .kernel) hm frame
    rw [hadd'] at hadd
    cases hadd
    refine h.next (fun pf' => hgrown.fits pf' (h.pools pf')) (fun pf' => by rw [hgrown.vaddrs])
      (fun pf' => by rw [hgrown.vaddrs]) (fun pf' i hi hf => ?_) hmapped hgrown.pde
    rw [hgrown.vaddrs] at hf
    exact ⟨hf, hpage pf' i hi hf⟩

namespace PageRequest

/-- A single page is asked for in the half of its pool, and past the bitmap only where no page is
free. -/
def Proper (s : Pager) : PageRequest → Prop
  | .mallocPage _ _ => True
  | .getKernelPages _ => True
  | .getUserPages _ => True
  | .getAPage pf vaddr => vaddr < 2 ^ 32 ∧ (0xc0000000 ≤ vaddr ↔ pf = .kernel)
  | .getAPageWithoutOpvaddrbitmap _ vaddr =>
      ∀ pf i, i < 8 * (s.vaddrs pf).vaddrBitmap.bmapBytesLen →
        (s.vaddrs pf).vaddrBitmap.Free i → ¬ (s.vaddrs pf).vaddrStart / 4096 + i = vaddr / 4096

end PageRequest

theorem PagerOk.mallocPage (hscan : HeaderScan scan) (h : PagerOk s) {r : Option Nat}
    (hrun : mallocPageWith scan pf n s = .ok (r, s')) : PagerOk s' := by
  by_cases hn : 0 < n ∧ n < 3840
  · rcases mallocPageWith_cases pf hscan h hn with
      ⟨-, hrun'⟩ | ⟨-, s₁, hok, -, ⟨-, vaddr, hrun'⟩ | ⟨-, hrun', -⟩⟩
    · rw [hrun'] at hrun
      cases hrun
      exact h
    · rw [hrun'] at hrun
      cases hrun
      exact hok
    · rw [hrun'] at hrun
      cases hrun
      exact hok
  · rw [mallocPageWith_refused hn] at hrun
    cases hrun

theorem PagerOk.getPages (hscan : HeaderScan scan) (h : PagerOk s) {r : Option Nat}
    (hrun : getPagesWith scan t pf n s = .ok (r, s')) : PagerOk s' := by
  obtain ⟨_, s₁, hacq, hrun⟩ := Prog.bind_run.mp hrun
  rw [poolAcquire_run] at hacq
  cases hacq
  obtain ⟨_, s₂, hmalloc, hrun⟩ := Prog.bind_run.mp hrun
  obtain ⟨_, s₃, hrel, hrun⟩ := Prog.bind_run.mp hrun
  cases hrun
  exact ((h.withLock _ _).mallocPage hscan hmalloc).release hrel

/-- The frame of a single page is taken, if there is one. -/
theorem PagerOk.single (hscan : HeaderScan scan) (h : PagerOk s) {none : PagerM (Option Nat)}
    {vaddr : Nat}
    (hpage : ∀ pf i, i < 8 * (s.vaddrs pf).vaddrBitmap.bmapBytesLen →
      (s.vaddrs pf).vaddrBitmap.Free i → ¬ (s.vaddrs pf).vaddrStart / 4096 + i = vaddr / 4096)
    {r : Option Nat} (hnone : none s = .ok (r, s') → PagerOk s')
    (hrun : (do
      match ← poolAlloc scan pf with
      | .none => none
      | some pagePhyaddr =>
          pageTableAdd scan vaddr pagePhyaddr
          poolRelease t pf
          return some vaddr : PagerM (Option Nat)) s = .ok (r, s')) : PagerOk s' := by
  rcases poolAlloc_cases hscan (h.pools pf) with ⟨-, halloc⟩ | ⟨i, -, -, halloc⟩
  · rw [Prog.bind_of_run halloc] at hrun
    exact hnone hrun
  · rw [Prog.bind_of_run halloc] at hrun
    have hgrown : PoolsGrown s (s.withPool ((s.pool pf).take i) pf) := .take i
    refine (h.take i).mapOne hscan (fun pf' j hj hf => ?_) hrun
    rw [hgrown.vaddrs] at hj hf ⊢
    exact hpage pf' j hj hf

theorem PagerOk.getAPage (hscan : HeaderScan scan) (h : PagerOk s) {vaddr : Nat}
    (hp : (PageRequest.getAPage pf vaddr).Proper s) {r : Option Nat}
    (hrun : getAPageWith scan t pf vaddr s = .ok (r, s')) : PagerOk s' := by
  obtain ⟨hlt, hhalf⟩ := hp
  by_cases ha : s.isUser = (pf == .user)
  swap
  · rw [getAPageWith_refused ha] at hrun
    cases hrun
  by_cases hb : 0 < sub32 vaddr (s.vaddrs pf).vaddrStart / pageSize
  swap
  · rw [getAPageWith_low ha hb] at hrun
    cases hrun
  rw [getAPageWith_run ha hb] at hrun
  set s₁ := (s.withLock pf ((s.pool pf).lock.acquire t)).withVaddrs _ pf with hs₁
  have hself : s₁.vaddrs pf
      = (s.vaddrs pf).mark (sub32 vaddr (s.vaddrs pf).vaddrStart / pageSize) :=
    Pager.vaddrs_withVaddrs
  have hother : ∀ pf', pf' ≠ pf → s₁.vaddrs pf' = s.vaddrs pf' := fun pf' hne => by
    rw [hs₁, Pager.vaddrs_withVaddrs_ne hne, Pager.vaddrs_withLock]
  have hstart : ∀ pf', (s₁.vaddrs pf').vaddrStart = (s.vaddrs pf').vaddrStart := by
    intro pf'
    by_cases hpf : pf' = pf
    · rw [hpf, hself]
      rfl
    · rw [hother pf' hpf]
  have hlen : ∀ pf', (s₁.vaddrs pf').vaddrBitmap.bmapBytesLen
      = (s.vaddrs pf').vaddrBitmap.bmapBytesLen := by
    intro pf'
    by_cases hpf : pf' = pf
    · rw [hpf, hself]
      rfl
    · rw [hother pf' hpf]
  -- what is free is not the page that is asked for
  have hfree : ∀ pf' i, i < 8 * (s.vaddrs pf').vaddrBitmap.bmapBytesLen →
      (s₁.vaddrs pf').vaddrBitmap.Free i → (s.vaddrs pf').vaddrBitmap.Free i ∧
        ¬ (s.vaddrs pf').vaddrStart / 4096 + i = vaddr / 4096 := by
    intro pf' i hi hf
    by_cases hpf : pf' = pf
    · subst hpf
      have haligned := (h.vaddrs pf').aligned
      rw [hself, VirtualAddr.mark, Bitmap.Free, Bitmap.scanTest_set] at hf
      by_cases hset : i = sub32 vaddr (s.vaddrs pf').vaddrStart / pageSize
      · rw [if_pos hset] at hf
        cases hf
      · rw [if_neg hset] at hf
        refine ⟨hf, fun hc => hset ?_⟩
        rw [sub32, show pageSize = 4096 from rfl]
        omega
    · rw [hother pf' hpf] at hf
      refine ⟨hf, fun hc => hpf ?_⟩
      have hside := h.half hi hf
      rw [hc] at hside
      have hiff : 0xc0000 ≤ vaddr / 4096 ↔ 0xc0000000 ≤ vaddr := by omega
      rw [hiff, hhalf] at hside
      cases pf <;> cases pf' <;> simp_all
  have hok : PagerOk s₁ := @PagerOk.next _ _ h (fun _ => False)
    (fun pf' => by rw [Pager.pool_withVaddrs]; exact (h.withLock _ _).pools pf') hstart hlen
    (fun pf' i hi hf => ⟨(hfree pf' i hi hf).1, id⟩)
    (fun q hq => .inl (by
      rwa [hs₁, Pager.mapped_withVaddrs, Pager.withLock, Pager.mapped_withPool] at hq))
    (fun i hi => by rwa [hs₁, Pager.pde_withVaddrs, Pager.withLock, Pager.pde_withPool])
  refine hok.single hscan (fun pf' i hi hf => ?_) (fun hnone => ?_) hrun
  · rw [hlen] at hi
    rw [hstart]
    exact (hfree pf' i hi hf).2
  · exact (Prod.mk.inj (Except.ok.inj hnone)).2 ▸ hok

theorem PagerOk.getAPageWithoutOpvaddrbitmap (hscan : HeaderScan scan) (h : PagerOk s) {vaddr : Nat}
    (hp : (PageRequest.getAPageWithoutOpvaddrbitmap pf vaddr).Proper s) {r : Option Nat}
    (hrun : getAPageWithoutOpvaddrbitmapWith scan t pf vaddr s = .ok (r, s')) : PagerOk s' := by
  obtain ⟨_, s₁, hacq, hrun⟩ := Prog.bind_run.mp hrun
  rw [poolAcquire_run] at hacq
  cases hacq
  refine (h.withLock _ _).single hscan (fun pf' i hi hf => ?_) (fun hnone => ?_) hrun
  · rw [Pager.vaddrs_withLock] at hi hf ⊢
    exact hp pf' i hi hf
  · obtain ⟨_, s₂, hrel, hnone⟩ := Prog.bind_run.mp hnone
    cases hnone
    exact (h.withLock _ _).release hrel

/-- **A request keeps the memory in order**, whether it succeeds or not. -/
theorem PagerOk.request (hscan : HeaderScan scan) (h : PagerOk s) {call : PageRequest}
    (hp : call.Proper s) {r : Option Nat} (hrun : call.run scan t s = .ok (r, s')) :
    PagerOk s' := by
  cases call with
  | mallocPage pf n => exact h.mallocPage hscan hrun
  | getKernelPages n => exact h.getPages hscan hrun
  | getUserPages n => exact h.getPages hscan hrun
  | getAPage pf vaddr => exact h.getAPage hscan hp hrun
  | getAPageWithoutOpvaddrbitmap pf vaddr => exact h.getAPageWithoutOpvaddrbitmap hscan hp hrun

/-! ### Undone -/

/-- Everything is as it was in `s`, and task `t` does not have the lock. -/
structure Undone (t : Nat) (pf : PoolFlag) (s s' : Pager) : Prop where
  kernelVaddr : s'.kernelVaddr.vaddrBitmap = s.kernelVaddr.vaddrBitmap
  userVaddr : s'.userVaddr.vaddrBitmap = s.userVaddr.vaddrBitmap
  kernelPool : s'.kernelPool.poolBitmap = s.kernelPool.poolBitmap
  userPool : s'.userPool.poolBitmap = s.userPool.poolBitmap
  pde : s'.pde = s.pde
  pte : s'.pte = s.pte
  unlocked : (s'.pool pf).lock.holder ≠ some t

theorem Undone.vaddrs (h : Undone t pf s s') :
    (s'.vaddrs pf).vaddrBitmap = (s.vaddrs pf).vaddrBitmap := by
  cases pf
  · exact h.kernelVaddr
  · exact h.userVaddr

theorem undone_withLock (t : Nat) (pf : PoolFlag) (s : Pager) :
    Undone t pf s (s.withLock pf .free) := by
  cases pf <;> exact ⟨rfl, rfl, rfl, rfl, rfl, rfl, nofun⟩

theorem undone_self (hlock : (s.pool pf).lock = .free) : Undone t pf s s :=
  ⟨rfl, rfl, rfl, rfl, rfl, rfl, by rw [hlock]; nofun⟩

/-- The addresses of `n` pages are missing, or none of their frames is. -/
def KeepsPages (s : Pager) (pf : PoolFlag) (n : Nat) : Prop :=
  ¬ (0 < n ∧ n < 3840) ∨ ¬ (s.vaddrs pf).vaddrBitmap.HasRun n ∨ Room (s.pool pf).poolBitmap n

namespace PageRequest

/-- What it takes for a failure to leave nothing behind. -/
def Undoes (s : Pager) : PageRequest → Prop
  | .mallocPage pf n => KeepsPages s pf n
  | .getKernelPages n => KeepsPages s .kernel n
  | .getUserPages n => KeepsPages s .user n
  | .getAPage pf vaddr => ¬ s.isUser = (pf == .user) ∨
      sub32 vaddr (s.vaddrs pf).vaddrStart / pageSize = 0 ∨ Room (s.pool pf).poolBitmap 1
  | .getAPageWithoutOpvaddrbitmap _ _ => True

end PageRequest

/-- What a request that returns `NULL` leaves. -/
def UndoneBy (t : Nat) (pf : PoolFlag) (s : Pager) (x : PagerM (Option Nat)) : Prop :=
  ∀ s', x s = .ok (none, s') → Undone t pf s s'

theorem undoneBy_error {x : PagerM (Option Nat)} (h : ∃ e, x s = .error e) :
    UndoneBy t pf s x := by
  intro s' hs'
  obtain ⟨e, h⟩ := h
  rw [h] at hs'
  cases hs'

theorem undoneBy_some {x : PagerM (Option Nat)} {vaddr : Nat} (h : x s = .ok (some vaddr, s')) :
    UndoneBy t pf s x := by
  intro s₂ hs₂
  rw [h] at hs₂
  cases hs₂

theorem undoneBy_none {x : PagerM (Option Nat)} (h : x s = .ok (none, s')) :
    UndoneBy t pf s x ↔ Undone t pf s s' := by
  refine ⟨fun hu => hu s' h, fun hu s₂ hs₂ => ?_⟩
  rw [h] at hs₂
  cases hs₂
  exact hu

theorem mallocPage_undoneBy (hscan : HeaderScan scan) (hs : PagerOk s)
    (hlock : (s.pool pf).lock = .free) :
    UndoneBy t pf s (mallocPageWith scan pf n) ↔ KeepsPages s pf n := by
  by_cases hn : 0 < n ∧ n < 3840
  · rcases mallocPageWith_cases pf hscan hs hn with
      ⟨hno, hrun⟩ | ⟨hrun', s', -, -, ⟨hroom, vaddr, hrun⟩ | ⟨hroom, hrun, hne⟩⟩
    · exact ⟨fun _ => .inr (.inl hno), fun _ => (undoneBy_none hrun).mpr (undone_self hlock)⟩
    · exact ⟨fun _ => .inr (.inr hroom), fun _ => undoneBy_some hrun⟩
    · refine ⟨fun hu => absurd ((undoneBy_none hrun).mp hu).vaddrs hne, fun hk => ?_⟩
      rcases hk with hc | hc | hc
      · exact absurd hn hc
      · exact absurd hrun' hc
      · exact absurd hc hroom
  · exact ⟨fun _ => .inl hn, fun _ => undoneBy_error ⟨_, mallocPageWith_refused hn⟩⟩

theorem getPages_undoneBy (hscan : HeaderScan scan) (hs : PagerOk s)
    (hlock : (s.pool pf).lock = .free) :
    UndoneBy t pf s (getPagesWith scan t pf n) ↔ KeepsPages s pf n := by
  set s₁ := s.withLock pf ((s.pool pf).lock.acquire t) with hs₁
  have hheld : (s₁.pool pf).lock = ⟨some t, 1⟩ := by
    rw [hs₁, Pager.pool_withLock, hlock]
    rfl
  have hrest : getPagesWith scan t pf n s = (mallocPageWith scan pf n >>= fun vaddr => do
      poolRelease t pf
      return vaddr : PagerM (Option Nat)) s₁ := rfl
  by_cases hn : 0 < n ∧ n < 3840
  · have hcases := mallocPageWith_cases pf hscan (hs.withLock pf _ : PagerOk s₁) hn
    rw [Pager.vaddrs_withLock, Pager.bitmap_withLock, ← hs₁] at hcases
    have hend : ∀ (r : Option Nat) (s' : Pager), mallocPageWith scan pf n s₁ = .ok (r, s') →
        (s'.pool pf).lock = (s₁.pool pf).lock →
        getPagesWith scan t pf n s = .ok (r, s'.withLock pf .free) := by
      intro r s' hrun hsame
      rw [hrest, Prog.bind_of_run hrun, Prog.bind_of_run (poolRelease_run (hsame.trans hheld))]
      rfl
    rcases hcases with
      ⟨hno, hrun⟩ | ⟨hrun', s', -, hsame, ⟨hroom, vaddr, hrun⟩ | ⟨hroom, hrun, hne⟩⟩
    · refine ⟨fun _ => .inr (.inl hno), fun _ => (undoneBy_none (hend _ _ hrun rfl)).mpr ?_⟩
      rw [hs₁, Pager.withLock_withLock]
      exact undone_withLock t pf s
    · exact ⟨fun _ => .inr (.inr hroom), fun _ => undoneBy_some (hend _ _ hrun (hsame pf))⟩
    · refine ⟨fun hu => ?_, fun hk => ?_⟩
      · have hback := ((undoneBy_none (hend _ _ hrun (hsame pf))).mp hu).vaddrs
        rw [Pager.vaddrs_withLock] at hback
        exact absurd hback hne
      · rcases hk with hc | hc | hc
        · exact absurd hn hc
        · exact absurd hrun' hc
        · exact absurd hc hroom
  · refine ⟨fun _ => .inl hn, fun _ => undoneBy_error ?_⟩
    exact ⟨_, hrest.trans (Prog.bind_of_error (mallocPageWith_refused hn))⟩

/-- What follows the frame of a single page does not return `NULL`. -/
theorem mapped_not_none {vaddr frame : Nat} {s₁ : Pager} :
    (do
      pageTableAdd scan vaddr frame
      poolRelease t pf
      return some vaddr : PagerM (Option Nat)) s₁ ≠ .ok (none, s') := by
  intro h
  obtain ⟨_, _, _, h⟩ := Prog.bind_run.mp h
  obtain ⟨_, _, _, h⟩ := Prog.bind_run.mp h
  cases h

theorem full_or_room (b : Bitmap) : b.Full ∨ Room b 1 :=
  b.full_or_lowestFree.imp_right fun ⟨_, hp⟩ => hp.room (room_zero _)

theorem getAPage_undoneBy (hscan : HeaderScan scan) (hs : PagerOk s) {vaddr : Nat} :
    UndoneBy t pf s (getAPageWith scan t pf vaddr) ↔ (PageRequest.getAPage pf vaddr).Undoes s := by
  by_cases ha : s.isUser = (pf == .user)
  swap
  · exact ⟨fun _ => .inl ha, fun _ => undoneBy_error ⟨_, getAPageWith_refused ha⟩⟩
  by_cases hb : 0 < sub32 vaddr (s.vaddrs pf).vaddrStart / pageSize
  swap
  · exact ⟨fun _ => .inr (.inl (Nat.eq_zero_of_not_pos hb)),
      fun _ => undoneBy_error ⟨_, getAPageWith_low ha hb⟩⟩
  have hrest : getAPageWith scan t pf vaddr s = _ := getAPageWith_run ha hb
  set s₁ := (s.withLock pf ((s.pool pf).lock.acquire t)).withVaddrs _ pf
  have hbits : (s₁.pool pf).poolBitmap = (s.pool pf).poolBitmap := by
    rw [Pager.pool_withVaddrs, Pager.bitmap_withLock]
  have hheld : (s₁.pool pf).lock.holder = some t := by
    rw [Pager.pool_withVaddrs, Pager.pool_withLock]
    rfl
  have hfit : PoolFits (s₁.pool pf) := by
    rw [Pager.pool_withVaddrs]
    exact (hs.withLock _ _).pools pf
  rcases poolAlloc_cases hscan hfit with ⟨hfull, hrun⟩ | ⟨i, hi, hfree, hrun⟩
  · rw [hbits] at hfull
    have hnone : getAPageWith scan t pf vaddr s = .ok (none, s₁) := by
      rw [hrest, Prog.bind_of_run hrun]
      rfl
    refine ⟨fun hu => absurd hheld ((undoneBy_none hnone).mp hu).unlocked, fun hc => ?_⟩
    rcases hc with hc | hc | hc
    · exact absurd ha hc
    · exact absurd hb (by rw [hc]; decide)
    · exact absurd hc hfull.not_room
  · rw [hbits] at hi hfree
    refine ⟨fun _ => .inr (.inr (.of_set hi hfree (room_zero _))), fun _ s' hs' => ?_⟩
    rw [hrest, Prog.bind_of_run hrun] at hs'
    exact absurd hs' mapped_not_none

theorem getAPageWithoutOpvaddrbitmap_undoneBy (hscan : HeaderScan scan) (hs : PagerOk s)
    (hlock : (s.pool pf).lock = .free) {vaddr : Nat} :
    UndoneBy t pf s (getAPageWithoutOpvaddrbitmapWith scan t pf vaddr) := by
  set s₁ := s.withLock pf ((s.pool pf).lock.acquire t) with hs₁
  have hheld : (s₁.pool pf).lock = ⟨some t, 1⟩ := by
    rw [hs₁, Pager.pool_withLock, hlock]
    rfl
  have hrest : getAPageWithoutOpvaddrbitmapWith scan t pf vaddr s = (do
      match ← poolAlloc scan pf with
      | none =>
          poolRelease t pf
          return none
      | some pagePhyaddr =>
          pageTableAdd scan vaddr pagePhyaddr
          poolRelease t pf
          return some vaddr : PagerM (Option Nat)) s₁ := rfl
  rcases poolAlloc_cases hscan ((hs.withLock pf _).pools pf : PoolFits (s₁.pool pf)) with
    ⟨-, hrun⟩ | ⟨i, -, -, hrun⟩
  · have hnone : getAPageWithoutOpvaddrbitmapWith scan t pf vaddr s
        = .ok (none, s₁.withLock pf .free) := by
      rw [hrest, Prog.bind_of_run hrun]
      exact Prog.bind_of_run (poolRelease_run hheld)
    rw [undoneBy_none hnone, hs₁, Pager.withLock_withLock]
    exact undone_withLock t pf s
  · intro s' hs'
    rw [hrest, Prog.bind_of_run hrun] at hs'
    exact absurd hs' mapped_not_none

/-- **When a failed page allocation is undone.** -/
theorem failed_allocation_undone_iff (hscan : HeaderScan scan) (t : Nat) (s : Pager)
    (hs : PagerOk s) (call : PageRequest) (hlock : (s.pool call.flag).lock = .free) :
    (∀ s', call.run scan t s = .ok (none, s') → Undone t call.flag s s') ↔ call.Undoes s := by
  cases call with
  | mallocPage pf n => exact mallocPage_undoneBy hscan hs hlock
  | getKernelPages n => exact getPages_undoneBy hscan hs hlock
  | getUserPages n => exact getPages_undoneBy hscan hs hlock
  | getAPage pf vaddr => exact getAPage_undoneBy hscan hs
  | getAPageWithoutOpvaddrbitmap pf vaddr =>
      exact ⟨fun _ => trivial, fun _ => getAPageWithoutOpvaddrbitmap_undoneBy hscan hs hlock⟩

/-- One frame is left for the kernel and none for processes. -/
def scarcePager : Pager where
  kernelPool := ⟨⟨1, fun _ => 0xfe⟩, 0x200000, 0x8000, .free⟩
  userPool := ⟨⟨1, fun _ => 0xff⟩, 0x208000, 0x8000, .free⟩
  kernelVaddr := ⟨⟨1, fun _ => 0⟩, 0xc0100000⟩
  userVaddr := ⟨⟨1, fun _ => 0⟩, 0x8048000⟩
  isUser := true
  pde := fun i => if 768 ≤ i then 7 else 0
  pte := fun _ => 0

theorem scarcePager_ok : PagerOk scarcePager where
  pools pf := by cases pf <;> exact ⟨by decide, by decide⟩
  vaddrs pf := by
    cases pf with
    | kernel =>
        refine ⟨by decide, by decide, fun _ => by decide, fun i hi _ => ?_⟩
        have hi : i < 8 * 1 := hi
        show 0xc0100000 + 4096 * i < 0xffc00000
        omega
    | user =>
        refine ⟨by decide, by decide, nofun, fun i hi _ => ?_⟩
        have hi : i < 8 * 1 := hi
        show 0x8048000 + 4096 * i < 0xbffff000
        omega
  unmapped _ _ _ _ := fun hm => absurd hm.2 (show ¬ present 0 = true by decide)
  tables i hi _ := by
    show present (if 768 ≤ i then 7 else 0) = true
    rw [if_pos hi]
    rfl

/-- Two pages with one frame: the addresses stay marked and the frame stays taken.  One page with
none: the lock stays held. -/
theorem failed_allocation_scarce :
    (∃ s', (PageRequest.getKernelPages 2).run headerScan 1 scarcePager = .ok (none, s') ∧
      s'.kernelVaddr.vaddrBitmap.bitmapScanTest 0 = true ∧
      s'.kernelPool.poolBitmap.bitmapScanTest 0 = true ∧ ¬ Undone 1 .kernel scarcePager s') ∧
    ∃ s', (PageRequest.getAPage .user 0x8049000).run headerScan 1 scarcePager = .ok (none, s') ∧
      s'.userPool.lock.holder = some 1 ∧ ¬ Undone 1 .user scarcePager s' := by
  refine ⟨⟨_, Prog.run_of_answer (by decide +kernel), ?_⟩,
    _, Prog.run_of_answer (by decide +kernel), ?_⟩
  · have hbit : (Prog.after ((PageRequest.getKernelPages 2).run headerScan 1)
        scarcePager).kernelVaddr.vaddrBitmap.bitmapScanTest 0 = true := by decide +kernel
    refine ⟨hbit, by decide +kernel, fun hu => ?_⟩
    rw [hu.kernelVaddr] at hbit
    exact absurd hbit (by decide)
  · have hheld : (Prog.after ((PageRequest.getAPage .user 0x8049000).run headerScan 1)
        scarcePager).userPool.lock.holder = some 1 := by decide +kernel
    exact ⟨hheld, fun hu => hu.unlocked hheld⟩

/-- More pages than there are addresses: nothing is left behind. -/
theorem failed_allocation_undone_nine :
    (∃ s', (PageRequest.getKernelPages 9).run headerScan 1 scarcePager = .ok (none, s')) ∧
    ∀ s', (PageRequest.getKernelPages 9).run headerScan 1 scarcePager = .ok (none, s') →
      Undone 1 .kernel scarcePager s' := by
  refine ⟨⟨_, Prog.run_of_answer (by decide +kernel)⟩,
    (failed_allocation_undone_iff headerScan_spec 1 scarcePager scarcePager_ok
      (.getKernelPages 9) rfl).mpr (.inr (.inl ?_))⟩
  rintro ⟨i, hi, -⟩
  have hi : i + 9 ≤ 8 * 1 := hi
  omega

end ZyOs
