/-
Which sizes `sys_malloc` has an answer for.

Up to 1024 bytes one page is enough, and where every bitmap has a free bit there is one, with a
frame and a table for it.  Above that it is the pages that count: 3840 of them fail an `ASSERT`, and
a pool of that size lets them through.  With fewer everything is there, or there are no addresses,
which is answered, or there are no frames or tables, which stops the kernel.
-/
import ZyOs.Kernel.Malloc
import ZyOs.Proofs.PageAlloc
import ZyOs.Proofs.ArenaCalls
import ZyOs.Proofs.MemPool

namespace ZyOs

open Library

variable {s s' : Pager} {pf : PoolFlag} {pool : Pool} {n p vaddr frame : Nat}

/-! ### A frame -/

/-- With the lowest free bit taken there is one free bit less. -/
theorem Bitmap.LowestFree.room_succ {b : Bitmap} (h : b.LowestFree p) (k : Nat) :
    Room b (k + 1) ↔ Room (b.bitmapSet p true) k :=
  ⟨fun hroom => hroom.set p, h.room⟩

theorem poolAlloc_full (h : (s.pool pf).poolBitmap.Full) :
    ∃ e, poolAlloc Bitmap.bitmapScan pf s = .error e := by
  rw [poolAlloc, Prog.bind_of_run (Prog.get_run s), pallocWith, h.scan]
  exact ⟨_, rfl⟩

theorem poolAlloc_lowest (hfit : PoolFits (s.pool pf)) (h : (s.pool pf).poolBitmap.LowestFree p) :
    poolAlloc Bitmap.bitmapScan pf s = .ok (some (p * 4096 + (s.pool pf).phyAddrStart),
      s.withPool ((s.pool pf).take p) pf) := by
  have hstart := hfit.start
  have htop := hfit.top
  have hbit := h.bit
  have haddr : (p * pageSize + (s.pool pf).phyAddrStart) % 2 ^ 32
      = p * 4096 + (s.pool pf).phyAddrStart := by
    rw [show pageSize = 4096 from rfl]
    omega
  have hpalloc : pallocWith Bitmap.bitmapScan (s.pool pf)
      = .ok ((s.pool pf).take p, some (p * 4096 + (s.pool pf).phyAddrStart)) := by
    rw [pallocWith, h.scan, ok_bind, if_pos rfl, Bitmap.int32_of_lt (by omega), if_neg (by omega)]
    simp only [Int.toNat_natCast, haddr,
      if_neg (show ¬ p * 4096 + (s.pool pf).phyAddrStart = 0 by omega)]
    rfl
  rw [poolAlloc, Prog.bind_of_run (Prog.get_run s), hpalloc]
  rfl

/-! ### A table -/

theorem pageTableAdd_present (hpde : present (s.pde (vaddr / pageSize / 1024)) = true)
    (hpte : present (s.pte (vaddr / pageSize)) = false) :
    pageTableAdd Bitmap.bitmapScan vaddr frame s
      = .ok ((), s.withPte (vaddr / pageSize) (tableEntry frame)) := by
  rw [pageTableAdd, Prog.bind_of_run (Prog.get_run s), pdeIdx_page, if_pos hpde,
    Prog.bind_of_run (Prog.get_run s), ASSERT_pos hpte]
  rfl

theorem pageTableAdd_absent {s₁ : Pager} {f : Nat}
    (hpde : ¬ present (s.pde (vaddr / pageSize / 1024)) = true)
    (halloc : poolAlloc Bitmap.bitmapScan .kernel s = .ok (some f, s₁)) :
    pageTableAdd Bitmap.bitmapScan vaddr frame s = .ok ((),
      (s₁.withTable (vaddr / pageSize / 1024) (tableEntry f)).withPte (vaddr / pageSize)
        (tableEntry frame)) := by
  have hempty : present ((s₁.withTable (vaddr / pageSize / 1024) (tableEntry f)).pte
      (vaddr / pageSize)) = false := by
    rw [Pager.withTable]
    simp only [if_true]
    rfl
  rw [pageTableAdd, Prog.bind_of_run (Prog.get_run s), pdeIdx_page, if_neg hpde,
    Prog.bind_of_run halloc]
  have hgoal : (do
      modify fun s => s.withTable (vaddr / pageSize / 1024) (tableEntry f)
      Prog.lift (ASSERT (present ((← get).pte (vaddr / pageSize)) = false) "page_table_add"
        "!(*pte & 0x00000001)")
      modify fun s => s.withPte (vaddr / pageSize) (tableEntry frame) : PagerM Unit) s₁
      = .ok ((), (s₁.withTable (vaddr / pageSize / 1024) (tableEntry f)).withPte
        (vaddr / pageSize) (tableEntry frame)) := by
    rw [Prog.bind_of_run (Prog.modify_run _ _), Prog.bind_of_run (Prog.get_run _),
      ASSERT_pos hempty]
    rfl
  exact hgoal

theorem pageTableAdd_stops {e : Halt} (hpde : ¬ present (s.pde (vaddr / pageSize / 1024)) = true)
    (halloc : poolAlloc Bitmap.bitmapScan .kernel s = .error e) :
    pageTableAdd Bitmap.bitmapScan vaddr frame s = .error e := by
  rw [pageTableAdd, Prog.bind_of_run (Prog.get_run s), pdeIdx_page, if_neg hpde,
    Prog.bind_of_error halloc]

/-- The tables that are missing for `n` pages from `page` on. -/
def Pager.missing (s : Pager) (page n : Nat) : Finset Nat :=
  ((Finset.range n).image fun k => (page + k) / 1024).filter fun i => present (s.pde i) = false

theorem mem_missing {page i : Nat} :
    i ∈ s.missing page n ↔ (∃ k < n, (page + k) / 1024 = i) ∧ present (s.pde i) = false := by
  simp [Pager.missing]

theorem missing_congr (h : s'.pde = s.pde) (page n : Nat) :
    s'.missing page n = s.missing page n := by
  unfold Pager.missing
  rw [h]

/-- A page whose table is there. -/
theorem missing_present {page : Nat} (h : present (s.pde (page / 1024)) = true) :
    s.missing page (n + 1) = s.missing (page + 1) n := by
  ext i
  rw [mem_missing, mem_missing]
  refine and_congr_left fun habsent => ⟨?_, ?_⟩
  · rintro ⟨k, hk, rfl⟩
    cases k with
    | zero =>
        rw [Nat.add_zero, h] at habsent
        cases habsent
    | succ k => exact ⟨k, by omega, by rw [show page + 1 + k = page + (k + 1) by omega]⟩
  · rintro ⟨k, hk, rfl⟩
    exact ⟨k + 1, by omega, by rw [show page + 1 + k = page + (k + 1) by omega]⟩

/-- A page whose table is new: it is missing no longer. -/
theorem card_missing_absent {page a : Nat} (h : present (s.pde (page / 1024)) = false)
    (hpde : s'.pde = fun j => if j = page / 1024 then tableEntry a else s.pde j) :
    (s.missing page (n + 1)).card = (s'.missing (page + 1) n).card + 1 := by
  have hnot : page / 1024 ∉ s'.missing (page + 1) n := by
    intro hmem
    have habsent := (mem_missing.mp hmem).2
    rw [hpde] at habsent
    simp only [if_true, present_tableEntry] at habsent
    cases habsent
  rw [← Finset.card_insert_of_notMem hnot]
  congr 1
  ext i
  rw [Finset.mem_insert, mem_missing, mem_missing, hpde]
  by_cases hi : i = page / 1024
  · rw [hi]
    exact iff_of_true ⟨⟨0, by omega, rfl⟩, h⟩ (.inl rfl)
  · simp only [hi, if_false, false_or]
    refine and_congr_left fun _ => ⟨?_, ?_⟩
    · rintro ⟨k, hk, rfl⟩
      cases k with
      | zero => exact absurd rfl hi
      | succ k => exact ⟨k, by omega, by rw [show page + 1 + k = page + (k + 1) by omega]⟩
    · rintro ⟨k, hk, rfl⟩
      exact ⟨k + 1, by omega, by rw [show page + 1 + k = page + (k + 1) by omega]⟩

/-! ### `malloc_page` -/

/-- The frames and the tables for `n` pages are there. -/
def Pager.Supplied (s : Pager) (pf : PoolFlag) (page n : Nat) : Prop :=
  Room (s.pool pf).poolBitmap n ∧ Room s.kernelPool.poolBitmap (s.missing page n).card

/-- A page is mapped that has its table. -/
theorem supplied_present {page : Nat} {entry : UInt32}
    (hp : (s.pool pf).poolBitmap.LowestFree p) (hpde : present (s.pde (page / 1024)) = true)
    (hkernel : pf = .kernel → s.missing page (n + 1) = ∅) :
    s.Supplied pf page (n + 1) ↔
      ((s.withPool ((s.pool pf).take p) pf).withPte page entry).Supplied pf (page + 1) n := by
  have hmissing : ((s.withPool ((s.pool pf).take p) pf).withPte page entry).missing (page + 1) n
      = s.missing page (n + 1) := by
    rw [missing_present hpde]
    exact missing_congr Pager.pde_withPool _ _
  unfold Pager.Supplied
  rw [hp.room_succ, hmissing]
  cases pf with
  | kernel =>
      rw [hkernel rfl]
      exact and_congr_right fun _ => iff_of_true (room_zero _) (room_zero _)
  | user => exact Iff.rfl

/-- A page is mapped whose table is a new one. -/
theorem supplied_absent {page i : Nat} {entry : UInt32} {s₁ : Pager}
    (hp : (s.pool .user).poolBitmap.LowestFree p)
    (hpde : present (s.pde (page / 1024)) = false) (hi : s.kernelPool.poolBitmap.LowestFree i)
    (hs₁ : s₁ = ((s.withPool ((s.pool .user).take p) .user).withPool (s.kernelPool.take i)
      .kernel).withTable (page / 1024) (tableEntry frame)) :
    s.Supplied .user page (n + 1) ↔ (s₁.withPte page entry).Supplied .user (page + 1) n := by
  have hcard : (s.missing page (n + 1)).card
      = ((s₁.withPte page entry).missing (page + 1) n).card + 1 :=
    card_missing_absent (a := frame) hpde (by rw [hs₁]; rfl)
  unfold Pager.Supplied
  rw [hp.room_succ, hcard, hi.room_succ, hs₁]
  exact Iff.rfl

/-- The loop goes through exactly when there are frames and tables for all pages. -/
theorem mallocPageLoop_iff (pf : PoolFlag) : ∀ (n vaddr : Nat) (s : Pager),
    (∀ pf, PoolFits (s.pool pf)) →
    vaddr % 4096 = 0 → vaddr + 4096 * n ≤ 2 ^ 32 →
    (∀ q, vaddr / 4096 ≤ q → q < vaddr / 4096 + n → ¬ s.Mapped q) →
    (pf = .kernel → s.missing (vaddr / 4096) n = ∅) →
    (s.Supplied pf (vaddr / 4096) n ∧ ∃ s', PoolsGrown s s' ∧
      mallocPageLoop Bitmap.bitmapScan pf n vaddr s = .ok (true, s')) ∨
    (¬ s.Supplied pf (vaddr / 4096) n ∧
      ∃ e, mallocPageLoop Bitmap.bitmapScan pf n vaddr s = .error e) := by
  intro n
  induction n with
  | zero =>
      intro vaddr s _ _ _ _ _
      have hnone : s.missing (vaddr / 4096) 0 = ∅ := rfl
      refine .inl ⟨⟨room_zero _, ?_⟩, s, .refl s, rfl⟩
      rw [hnone]
      exact room_zero _
  | succ n ih =>
      intro vaddr s hfit haligned htop hfree hkernel
      rcases (s.pool pf).poolBitmap.full_or_lowestFree with hfull | ⟨p, hp⟩
      · obtain ⟨e, hrun⟩ := poolAlloc_full hfull
        refine .inr ⟨fun hc => hfull.not_room hc.1, e, ?_⟩
        rw [mallocPageLoop, Prog.bind_of_error hrun]
      have halloc := poolAlloc_lowest (hfit pf) hp
      set s₁ := s.withPool ((s.pool pf).take p) pf with hs₁
      have hgrown₁ : PoolsGrown s s₁ := .take p
      have hpte₁ : ∀ q, s₁.Mapped q ↔ s.Mapped q := fun q => Pager.mapped_withPool
      have hpde₁ : s₁.pde = s.pde := Pager.pde_withPool
      have hunmapped := hfree (vaddr / 4096) (le_refl _) (by omega)
      -- what is the same in both cases: the page that was mapped is none of the others
      have hnext : ∀ s₂ : Pager, PoolsGrown s s₂ →
          pageTableAdd Bitmap.bitmapScan vaddr (p * 4096 + (s.pool pf).phyAddrStart) s₁
            = .ok ((), s₂) →
          (∀ q, s₂.Mapped q → s.Mapped q ∨ q = vaddr / 4096) →
          (pf = .kernel → s₂.missing (vaddr / 4096 + 1) n = ∅) →
          (s.Supplied pf (vaddr / 4096) (n + 1) ↔ s₂.Supplied pf (vaddr / 4096 + 1) n) →
          (s.Supplied pf (vaddr / 4096) (n + 1) ∧ ∃ s', PoolsGrown s s' ∧
            mallocPageLoop Bitmap.bitmapScan pf (n + 1) vaddr s = .ok (true, s')) ∨
          (¬ s.Supplied pf (vaddr / 4096) (n + 1) ∧
            ∃ e, mallocPageLoop Bitmap.bitmapScan pf (n + 1) vaddr s = .error e) := by
        intro s₂ hgrown hadd hmapped hkernel₂ hsupplied
        have hrun : mallocPageLoop Bitmap.bitmapScan pf (n + 1) vaddr s
            = mallocPageLoop Bitmap.bitmapScan pf n ((vaddr + pageSize) % 2 ^ 32) s₂ := by
          rw [mallocPageLoop, Prog.bind_of_run halloc]
          exact Prog.bind_of_run hadd
        rw [hrun, hsupplied]
        by_cases hn : n = 0
        · subst hn
          refine .inl ⟨⟨room_zero _, ?_⟩, s₂, hgrown, rfl⟩
          have hnone : s₂.missing (vaddr / 4096 + 1) 0 = ∅ := rfl
          rw [hnone]
          exact room_zero _
        · have hpage : (vaddr + pageSize) % 2 ^ 32 = vaddr + 4096 := by
            rw [show pageSize = 4096 from rfl]
            omega
          have hdiv : (vaddr + 4096) / 4096 = vaddr / 4096 + 1 := by omega
          rw [hpage]
          have hih := ih (vaddr + 4096) s₂ (fun pf' => hgrown.fits pf' (hfit pf')) (by omega)
            (by omega) (fun q hq hq' hm => by
              rcases hmapped q hm with hold | rfl
              · exact hfree q (by omega) (by omega) hold
              · omega)
            (fun hpf => by rw [hdiv]; exact hkernel₂ hpf)
          rw [hdiv] at hih
          rcases hih with ⟨h, s', hg, hr⟩ | hstops
          · exact .inl ⟨h, s', hgrown.trans hg, hr⟩
          · exact .inr hstops
      by_cases hpde : present (s.pde (vaddr / 4096 / 1024)) = true
      · have hpte : present (s₁.pte (vaddr / pageSize)) = false := by
          rw [hs₁, Pager.pte_withPool]
          simpa [Pager.Mapped, hpde] using hunmapped
        refine hnext _ (hgrown₁.trans (.withPte _ _))
          (pageTableAdd_present (by rw [hpde₁]; exact hpde) hpte)
          (fun q hq => hq.of_withPte.imp_left (hpte₁ q).mp) (fun hpf => ?_)
          (supplied_present hp hpde hkernel)
        rw [← hkernel hpf, missing_present hpde]
        exact missing_congr hpde₁ _ _
      · have habsent : present (s.pde (vaddr / 4096 / 1024)) = false := by simpa using hpde
        have huser : pf = .user := by
          by_contra hpf
          have hmem : vaddr / 4096 / 1024 ∈ s.missing (vaddr / 4096) (n + 1) :=
            mem_missing.mpr ⟨⟨0, by omega, rfl⟩, habsent⟩
          rw [hkernel (by cases pf <;> first | rfl | exact absurd rfl hpf)] at hmem
          exact absurd hmem (Finset.notMem_empty _)
        subst huser
        have hpde' : ¬ present (s₁.pde (vaddr / pageSize / 1024)) = true := by rwa [hpde₁]
        rcases s.kernelPool.poolBitmap.full_or_lowestFree with hfull | ⟨i, hi⟩
        · have hfull₁ : (s₁.pool .kernel).poolBitmap.Full := hfull
          obtain ⟨e, hrun⟩ := poolAlloc_full hfull₁
          refine .inr ⟨fun hc => ?_, e, ?_⟩
          · have hcard : (s.missing (vaddr / 4096) (n + 1)).card = _ + 1 :=
              @card_missing_absent s (s.withTable (vaddr / 4096 / 1024) (tableEntry 0)) n
                (vaddr / 4096) 0 habsent rfl
            have hroom := hc.2
            rw [hcard] at hroom
            exact hfull.not_room hroom
          · rw [mallocPageLoop, Prog.bind_of_run halloc]
            exact Prog.bind_of_error (pageTableAdd_stops hpde' hrun)
        · have hi₁ : (s₁.pool .kernel).poolBitmap.LowestFree i := hi
          have htable := poolAlloc_lowest (hgrown₁.fits .kernel (hfit .kernel)) hi₁
          refine hnext _ (((hgrown₁.trans (.take i)).trans (.withTable _)).trans (.withPte _ _))
            (pageTableAdd_absent hpde' htable) (fun q hq => ?_) (fun hpf => by cases hpf)
            (supplied_absent hp habsent hi rfl)
          exact hq.of_withPte.imp_left fun hm =>
            (hpte₁ q).mp (Pager.mapped_withPool.mp hm.of_withTable)

/-- The tables of the kernel's pages in front of the window. -/
theorem kernel_directory {start i k : Nat} (hhalf : 0xc0000000 ≤ start)
    (hbelow : start + 4096 * (i + k) < 0xffc00000) :
    768 ≤ (start / 4096 + i + k) / 1024 ∧ (start / 4096 + i + k) / 1024 < 1023 := by
  omega

/-- The run `bitmap_scan` returns: the first one among the bits of the bitmap and the one behind
it. -/
structure Bitmap.Reaches (b : Bitmap) (cnt i : Nat) : Prop where
  inside : i + cnt ≤ 8 * b.bmapBytesLen + 1
  run : IsRun b.Free i cnt
  first : ∀ k < i, ¬ IsRun b.Free k cnt

theorem Bitmap.Reaches.unique {b : Bitmap} {cnt i j : Nat} (hi : b.Reaches cnt i)
    (hj : b.Reaches cnt j) : i = j := by
  rcases Nat.lt_trichotomy i j with hlt | heq | hlt
  · exact absurd hi.run (hj.first i hlt)
  · exact heq
  · exact absurd hj.run (hi.first j hlt)

/-- A run that ends behind the bitmap has its last bit too: a single bit is found before that. -/
theorem Bitmap.Reaches.behind {b : Bitmap} {cnt i : Nat} (h : b.Reaches cnt i) (hfull : ¬ b.Full)
    (hcnt : 1 ≤ cnt) (hend : i + cnt = 8 * b.bmapBytesLen + 1) :
    b.Free (8 * b.bmapBytesLen - 1) ∧ b.Free (8 * b.bmapBytesLen) := by
  obtain ⟨p, hp⟩ := b.full_or_lowestFree.resolve_left hfull
  have hbit := hp.bit
  have htwo : cnt ≠ 1 := by
    rintro rfl
    exact h.first p (by omega) (IsRun.one.mpr hp.free)
  exact ⟨h.run.mem (by omega) (by omega), h.run.mem (by omega) (by omega)⟩

/-- A single bit is found inside. -/
theorem Bitmap.LowestFree.reaches {b : Bitmap} (h : b.LowestFree p) : b.Reaches 1 p := by
  have hbit := h.bit
  refine ⟨by omega, IsRun.one.mpr h.free, fun k hk hrun => ?_⟩
  exact Bitmap.not_free.mpr (h.below k hk) (IsRun.one.mp hrun)

theorem Bitmap.LowestFree.scan_reaches {b : Bitmap} (h : b.LowestFree p)
    (hlen : 8 * b.bmapBytesLen < 2 ^ 31) {cnt : Nat} (hcnt : 1 ≤ cnt) :
    (∃ i : Nat, b.Reaches cnt i ∧ b.bitmapScan cnt = .ok i) ∨
    ((∀ i, ¬ b.Reaches cnt i) ∧ b.bitmapScan cnt = .ok (-1)) := by
  have hbit := h.bit
  by_cases hone : cnt = 1
  · subst hone
    refine .inl ⟨p, h.reaches, ?_⟩
    rw [h.scan, if_pos rfl, Bitmap.int32_of_lt (by omega)]
  · rcases h.scan_run (by omega) (show 2 ≤ cnt by omega) with
      ⟨i, hi, hrun, hfirst, hscan⟩ | ⟨hnone, hscan⟩
    · refine .inl ⟨i, ⟨hi, hrun, hfirst⟩, ?_⟩
      rw [hscan, Bitmap.int32_of_lt (by omega)]
    · exact .inr ⟨fun i hi => hnone i hi.inside hi.run, hscan⟩

/-- Between two calls, with the page behind the bitmap: where `bitmap_scan` can take it for a page
of the heap, there is nothing and its table is there. -/
def Pager.Behind (s : Pager) (pf : PoolFlag) (n : Nat) : Prop :=
  ∀ i, (s.vaddrs pf).vaddrBitmap.Reaches n i →
    i + n = 8 * (s.vaddrs pf).vaddrBitmap.bmapBytesLen + 1 →
    let page := (s.vaddrs pf).vaddrStart / 4096 + 8 * (s.vaddrs pf).vaddrBitmap.bmapBytesLen
    pf = .kernel ∧ ¬ s.Mapped page ∧ present (s.pde (page / 1024)) = true

theorem supplied_withVaddrs {v : VirtualAddr} {page : Nat} :
    (s.withVaddrs v pf).Supplied pf page n ↔ s.Supplied pf page n := by
  cases pf <;> exact Iff.rfl

theorem supplied_withLock {lock : Mutex} {pf' : PoolFlag} {page : Nat} :
    (s.withLock pf' lock).Supplied pf page n ↔ s.Supplied pf page n := by
  cases pf <;> cases pf' <;> exact Iff.rfl

/-- `vaddr_get` on a bitmap with a free bit. -/
theorem vaddrGet_reaches {v : VirtualAddr} (hv : VaddrOk pf v) (hfits : v.Fits)
    (hp : v.vaddrBitmap.LowestFree p) (hn : 1 ≤ n) :
    ((∀ i, ¬ v.vaddrBitmap.Reaches n i) ∧ vaddrGet v pf n = .ok (v, none)) ∨
    ∃ i < 8 * v.vaddrBitmap.bmapBytesLen, v.vaddrBitmap.Reaches n i ∧
      vaddrGet v pf n = .ok (v.withRun i n true, some (v.vaddrStart + 4096 * i)) := by
  have hstart := hfits.start
  have htop := hfits.top
  have hbit := hp.bit
  rcases hp.scan_reaches (by omega) hn with ⟨i, hi, hscan⟩ | ⟨hnone, hscan⟩
  · have hinside := hi.inside
    have hlt : i < 8 * v.vaddrBitmap.bmapBytesLen := by
      by_contra hc
      -- only a single bit fits behind the end, and there is one inside
      have hone : n = 1 := by omega
      subst hone
      exact hi.first p (by omega) (IsRun.one.mpr hp.free)
    have hbelow := hv.below i hlt (hi.run 0 (by omega))
    have haddr : (v.vaddrStart + i * pageSize) % 2 ^ 32 = v.vaddrStart + 4096 * i := by
      rw [show pageSize = 4096 from rfl]
      omega
    refine .inr ⟨i, hlt, hi, ?_⟩
    rw [vaddrGet, hscan, ok_bind, if_neg (by omega)]
    simp only [Int.toNat_natCast, haddr, if_neg (show ¬ v.vaddrStart + 4096 * i = 0 by omega)]
    cases pf with
    | kernel => rfl
    | user =>
        rw [if_neg (by decide)] at hbelow
        rw [if_pos rfl, ASSERT_pos (by rw [show pageSize = 4096 from rfl]; omega)]
        rfl
  · refine .inl ⟨hnone, ?_⟩
    rw [vaddrGet, hscan]
    rfl

/-- **`malloc_page` on bitmaps with a free bit.** -/
theorem mallocPage_iff (hs : PagerOk s) (hfits : (s.vaddrs pf).Fits)
    (hp : (s.vaddrs pf).vaddrBitmap.LowestFree p) (hn : 0 < n ∧ n < 3840)
    (hbehind : s.Behind pf n) :
    ((∀ i, ¬ (s.vaddrs pf).vaddrBitmap.Reaches n i) ∧
      mallocPageWith Bitmap.bitmapScan pf n s = .ok (none, s)) ∨
    ∃ i, (s.vaddrs pf).vaddrBitmap.Reaches n i ∧
      ((s.Supplied pf ((s.vaddrs pf).vaddrStart / 4096 + i) n ∧ ∃ s' v,
          PoolsGrown (s.withVaddrs v pf) s' ∧ TakesPages (s.vaddrs pf) v
            ((s.vaddrs pf).vaddrStart + 4096 * i) n ∧
          mallocPageWith Bitmap.bitmapScan pf n s
            = .ok (some ((s.vaddrs pf).vaddrStart + 4096 * i), s')) ∨
        (¬ s.Supplied pf ((s.vaddrs pf).vaddrStart / 4096 + i) n ∧
          ∃ e, mallocPageWith Bitmap.bitmapScan pf n s = .error e)) := by
  have hv := hs.vaddrs pf
  have haligned := hv.aligned
  have htop := hfits.top
  rcases vaddrGet_reaches hv hfits hp hn.1 with ⟨hnone, hget⟩ | ⟨i, hlt, hi, hget⟩
  · refine .inl ⟨hnone, ?_⟩
    rw [mallocPageWith_pos Bitmap.bitmapScan pf hn, vaddrGetWith_bitmapScan, hget]
    show Except.ok (none, s.withVaddrs (s.vaddrs pf) pf) = _
    rw [Pager.withVaddrs_self]
  refine .inr ⟨i, hi, ?_⟩
  have htakes : TakesPages (s.vaddrs pf) ((s.vaddrs pf).withRun i n true)
      ((s.vaddrs pf).vaddrStart + 4096 * i) n := by
    rcases vaddrGet_ok hfits hn.1 hget with ⟨hnone, -⟩ | ⟨p, hsome, htakes⟩
    · cases hnone
    · rwa [← Option.some.inj hsome] at htakes
  set v := (s.vaddrs pf).withRun i n true with hwith
  set s₁ := s.withVaddrs v pf with hs₁
  have hinside := hi.inside
  have hpage : ((s.vaddrs pf).vaddrStart + 4096 * i) / 4096
      = (s.vaddrs pf).vaddrStart / 4096 + i := by
    omega
  have hloop := mallocPageLoop_iff pf n ((s.vaddrs pf).vaddrStart + 4096 * i) s₁
    (fun pf' => by rw [hs₁, Pager.pool_withVaddrs]; exact hs.pools pf') (by omega) (by omega)
    (fun q hq hq' => by
      rw [hpage] at hq hq'
      rw [hs₁, Pager.mapped_withVaddrs]
      obtain ⟨j, rfl⟩ : ∃ j, q = (s.vaddrs pf).vaddrStart / 4096 + j :=
        ⟨q - (s.vaddrs pf).vaddrStart / 4096, by omega⟩
      by_cases hj : j < 8 * (s.vaddrs pf).vaddrBitmap.bmapBytesLen
      · exact hs.unmapped pf j hj (hi.run.mem (by omega) (by omega))
      · obtain rfl : j = 8 * (s.vaddrs pf).vaddrBitmap.bmapBytesLen := by omega
        exact (hbehind i hi (by omega)).2.1)
    (fun hpf => by
      rw [hpage, hs₁, missing_congr Pager.pde_withVaddrs]
      refine Finset.eq_empty_of_forall_notMem fun d hd => ?_
      obtain ⟨⟨k, hk, rfl⟩, habsent⟩ := mem_missing.mp hd
      have hhalf := hv.half hpf
      by_cases hj : i + k < 8 * (s.vaddrs pf).vaddrBitmap.bmapBytesLen
      · have hbelow := hv.below (i + k) hj (hi.run k hk)
        rw [if_pos hpf] at hbelow
        obtain ⟨hlow, hhigh⟩ := kernel_directory hhalf hbelow
        have htable := hs.tables _ hlow hhigh
        rw [habsent] at htable
        cases htable
      · have htable := (hbehind i hi (by omega)).2.2
        rw [show (s.vaddrs pf).vaddrStart / 4096 + i + k = (s.vaddrs pf).vaddrStart / 4096
          + 8 * (s.vaddrs pf).vaddrBitmap.bmapBytesLen by omega] at habsent
        rw [habsent] at htable
        cases htable)
  have hrun : mallocPageWith Bitmap.bitmapScan pf n s
      = (mallocPageLoop Bitmap.bitmapScan pf n ((s.vaddrs pf).vaddrStart + 4096 * i) >>= fun ok =>
        if ok = true then pure (some ((s.vaddrs pf).vaddrStart + 4096 * i)) else pure none :
          PagerM (Option Nat)) s₁ := by
    rw [mallocPageWith_pos Bitmap.bitmapScan pf hn, vaddrGetWith_bitmapScan, hget]
    rfl
  rw [hpage, hs₁, supplied_withVaddrs, ← hs₁] at hloop
  rcases hloop with ⟨hsup, s', hgrown, hok⟩ | ⟨hsup, e, herr⟩
  · refine .inl ⟨hsup, s', v, hgrown, htakes, ?_⟩
    rw [hrun, Prog.bind_of_run hok]
    rfl
  · refine .inr ⟨hsup, e, ?_⟩
    rw [hrun, Prog.bind_of_error herr]

/-! ### The heap over its pages -/

section Heap

variable {E : Halt → Prop} {c : Context} {h : MemSys} {m m₀ : Memory} {pages : Pager}
  {live : List (Nat × Nat)} {size : Nat}

/-- Nothing is allocated or given back. -/
def SamePages (m₀ m : Memory) : Prop := m.vaddrs = m₀.vaddrs ∧ m.poolSize = m₀.poolSize

def KeepsPagesOf {α : Type} (x : MemoryM α) : Prop := ∀ m₀, Prog.Preserves (SamePages m₀) x

theorem memory_heap (hm : SamePages (h.memory c) m) :
    ({ h with heap := m } : MemSys).memory c = m := by
  have hvaddrs : (fun x => if x = c then h.pages.vaddrs c.flag else m.vaddrs x) = m.vaddrs := by
    funext x
    rw [hm.1]
    show (if x = c then h.pages.vaddrs c.flag else
      if x = c then h.pages.vaddrs c.flag else h.heap.vaddrs x) = _
    split_ifs with hx
    · exact (if_pos hx).symm
    · exact (if_neg hx).symm
  have hsize : (fun pf => (h.pages.pool pf).poolSize) = m.poolSize := hm.2.symm
  show ({ m with
    vaddrs := fun x => if x = c then h.pages.vaddrs c.flag else m.vaddrs x
    poolSize := fun pf => (h.pages.pool pf).poolSize } : Memory) = m
  rw [hvaddrs, hsize]

/-- Pages have been taken. -/
theorem memory_pages (hsize : ∀ pf, (pages.pool pf).poolSize = (h.pages.pool pf).poolSize) :
    ({ h with pages := pages } : MemSys).memory c
      = (h.memory c).withVaddr c (pages.vaddrs c.flag) := by
  have hvaddrs : (fun x => if x = c then pages.vaddrs c.flag else h.heap.vaddrs x)
      = fun x => if x = c then pages.vaddrs c.flag else
        if x = c then h.pages.vaddrs c.flag else h.heap.vaddrs x := by
    funext x
    split_ifs <;> rfl
  have hpool : (fun pf => (pages.pool pf).poolSize) = fun pf => (h.pages.pool pf).poolSize :=
    funext hsize
  show ({ h.heap with
    vaddrs := fun x => if x = c then pages.vaddrs c.flag else h.heap.vaddrs x
    poolSize := fun pf => (pages.pool pf).poolSize } : Memory) = _
  rw [hvaddrs, hpool]
  rfl

/-- Code on the arenas is looked at in the heap. -/
theorem wp_onHeap {α : Type} {x : MemoryM α} {Q : α → MemSys → Prop} (hx : KeepsPagesOf x)
    (hwp : Prog.wp E x (fun a m => ∀ h' : MemSys, h'.pages = h.pages → h'.memory c = m → Q a h')
      (h.memory c)) : Prog.wp E (MemSys.onHeap c x) Q h := by
  unfold Prog.wp MemSys.onHeap
  cases hrun : x (h.memory c) with
  | ok r =>
      have hsame := hx (h.memory c) (h.memory c) r.1 r.2 ⟨rfl, rfl⟩ hrun
      exact hwp.of_run hrun _ rfl (memory_heap hsame)
  | error e => exact hwp.of_error hrun

theorem onPages_run {α : Type} {x : PagerM α} {a : α} (hrun : x h.pages = .ok (a, pages)) :
    MemSys.onPages x h = .ok (a, { h with pages := pages }) := by
  simp only [MemSys.onPages, hrun]

theorem onPages_error {α : Type} {x : PagerM α} {e : Halt} (hrun : x h.pages = .error e) :
    MemSys.onPages x h = .error e := by
  simp only [MemSys.onPages, hrun]

theorem keepsPages_takeBlock (d : DescPtr) : KeepsPagesOf (takeBlock c d) := by
  refine fun m₀ => Prog.Preserves.get_bind fun s hs => ?_
  cases (s.descs d).freeList with
  | nil => exact Prog.Preserves.lift _
  | cons b rest =>
      refine Prog.Preserves.bind (Prog.Preserves.modify ?_) fun _ =>
        Prog.Preserves.bind (Prog.Preserves.modify ?_) fun _ =>
          Prog.Preserves.get_bind fun s' _ => ?_
      · exact fun _ hm => hm
      · exact fun _ hm => hm
      cases s'.arenas c (block2arena b) with
      | none => exact Prog.Preserves.lift _
      | some a =>
          refine Prog.Preserves.bind (Prog.Preserves.modify ?_) fun _ => Prog.Preserves.pure _
          exact fun _ hm => hm

theorem keepsPages_splitArena (d : DescPtr) (a : Nat) :
    ∀ n k, KeepsPagesOf (splitArena d a n k) := by
  intro n
  induction n with
  | zero => exact fun _ _ => Prog.Preserves.pure _
  | succ n ih =>
      refine fun k m₀ => Prog.Preserves.get_bind fun s hs => Prog.Preserves.bind
        (Prog.Preserves.lift _) fun _ => Prog.Preserves.bind (Prog.Preserves.set ?_) fun _ =>
          ih (k + 1) m₀
      exact hs

theorem keepsPages_setArena (d : DescPtr) (a : Nat) : KeepsPagesOf (MemSys.setArena c d a) := by
  refine fun m₀ => Prog.Preserves.bind (Prog.Preserves.modify ?_) fun _ =>
    Prog.Preserves.get_bind fun _ _ => Prog.Preserves.bind (Prog.Preserves.modify ?_) fun _ =>
      keepsPages_splitArena d a _ 0 m₀
  · exact fun _ hm => hm
  · exact fun _ hm => hm

theorem keepsPages_setLarge (a n : Nat) : KeepsPagesOf (MemSys.setLarge c a n) := by
  refine fun m₀ => Prog.Preserves.bind (Prog.Preserves.modify ?_) fun _ => Prog.Preserves.modify ?_
  · exact fun _ hm => hm
  · exact fun _ hm => hm

/-! ### `sys_malloc` -/

/-- A heap in a machine with `allMem` bytes of memory, between two calls: its bitmaps are not full,
and what is free is not mapped, the page behind the kernel's bitmap included. -/
structure MallocReady (allMem : Nat) (c : Context) (h : MemSys) (live : List (Nat × Nat)) :
    Prop where
  heap : HeapOk c none (h.memory c) live
  pages : PagerOk h.pages
  lock : (h.pages.pool c.flag).lock = .free
  sizes : ∀ pf, (h.pages.pool pf).poolSize = ((memPools allMem).pool pf).poolSize
  frames : ∀ pf, ¬ (h.pages.pool pf).poolBitmap.Full
  addresses : ¬ (h.pages.vaddrs c.flag).vaddrBitmap.Full
  kernel : c = .kernel → let v := h.pages.kernelVaddr
    v.vaddrStart = kHeapStart ∧
      v.vaddrBitmap.bmapBytesLen = (memPools allMem).kernelVaddr.vaddrBitmap.bmapBytesLen ∧
      (v.vaddrBitmap.Free (8 * v.vaddrBitmap.bmapBytesLen) →
        ¬ h.pages.Mapped (v.vaddrStart / 4096 + 8 * v.vaddrBitmap.bmapBytesLen))
  process : c ≠ .kernel → let v := h.pages.userVaddr
    v.vaddrStart = userVaddrStart ∧
      v.vaddrBitmap.bmapBytesLen = (0xc0000000 - userVaddrStart) / pageSize / 8

variable {allMem t : Nat} {r : Option Nat}

theorem kernelVaddr_len (allMem : Nat) :
    (memPools allMem).kernelVaddr.vaddrBitmap.bmapBytesLen ≤ 4095 := by
  have hlt : sub32 allMem 0x200000 / 4096 % 2 ^ 16 < 2 ^ 16 := Nat.mod_lt _ (by decide)
  show sub32 allMem 0x200000 / 4096 % 2 ^ 16 / 2 / 8 ≤ 4095
  omega

namespace MallocReady

variable (hr : MallocReady allMem c h live)
include hr

theorem fits : (h.pages.vaddrs c.flag).Fits := by
  have hfits := hr.heap.arenas.placed.fits
  rwa [show (h.memory c).vaddrs c = h.pages.vaddrs c.flag from if_pos rfl] at hfits

/-- The kernel's pages end in front of the tables, and the last page of a process is its stack. -/
theorem behind (hn : 1 ≤ n) : h.pages.Behind c.flag n := by
  intro i hi hend
  obtain ⟨hlast, hbehind⟩ := hi.behind hr.addresses hn hend
  cases c with
  | kernel =>
      obtain ⟨hstart, hlen, hpage⟩ := hr.kernel rfl
      have hbound := kernelVaddr_len allMem
      rw [← hlen] at hbound
      have hdir : 768 ≤ (h.pages.kernelVaddr.vaddrStart / 4096
            + 8 * h.pages.kernelVaddr.vaddrBitmap.bmapBytesLen) / 1024 ∧
          (h.pages.kernelVaddr.vaddrStart / 4096
            + 8 * h.pages.kernelVaddr.vaddrBitmap.bmapBytesLen) / 1024 < 1023 := by
        rw [hstart, kHeapStart]
        omega
      exact ⟨rfl, hpage hbehind, hr.pages.tables _ hdir.1 hdir.2⟩
  | process t =>
      obtain ⟨hstart, hlen⟩ := hr.process fun hc => by cases hc
      have hlen' : h.pages.userVaddr.vaddrBitmap.bmapBytesLen = 94199 := hlen
      have hlast' : h.pages.userVaddr.vaddrBitmap.Free
          (8 * h.pages.userVaddr.vaddrBitmap.bmapBytesLen - 1) := hlast
      have hbelow := (hr.pages.vaddrs .user).below _
        (show 8 * h.pages.userVaddr.vaddrBitmap.bmapBytesLen - 1
          < 8 * h.pages.userVaddr.vaddrBitmap.bmapBytesLen by omega) hlast'
      rw [if_neg (by decide)] at hbelow
      have hbelow' : h.pages.userVaddr.vaddrStart
        + 4096 * (8 * h.pages.userVaddr.vaddrBitmap.bmapBytesLen - 1) < 0xbffff000 := hbelow
      rw [hstart, hlen', userVaddrStart] at hbelow'
      omega

/-- `malloc_page` under the lock: it has no addresses, or it has and then everything else is
there, or something is missing. -/
theorem mallocPage (t : Nat) (hn : 0 < n ∧ n < 3840) :
    let v := h.pages.vaddrs c.flag
    let locked := { h with pages := h.pages.withLock c.flag ⟨some t, 1⟩ }
    ((∀ i, ¬ v.vaddrBitmap.Reaches n i) ∧
      MemSys.onPages (mallocPageWith Bitmap.bitmapScan c.flag n) locked = .ok (none, locked)) ∨
    ∃ i, v.vaddrBitmap.Reaches n i ∧
      ((h.pages.Supplied c.flag (v.vaddrStart / 4096 + i) n ∧ ∃ pages v',
          TakesPages v v' (v.vaddrStart + 4096 * i) n ∧
          (pages.pool c.flag).lock = ⟨some t, 1⟩ ∧
          ({ h with pages := pages } : MemSys).memory c = (h.memory c).withVaddr c v' ∧
          MemSys.onPages (mallocPageWith Bitmap.bitmapScan c.flag n) locked
            = .ok (some (v.vaddrStart + 4096 * i), { h with pages := pages })) ∨
        (¬ h.pages.Supplied c.flag (v.vaddrStart / 4096 + i) n ∧
          ∃ e, MemSys.onPages (mallocPageWith Bitmap.bitmapScan c.flag n) locked = .error e)) := by
  intro v locked
  obtain ⟨p, hp⟩ := v.vaddrBitmap.full_or_lowestFree.resolve_left hr.addresses
  have hv : (h.pages.withLock c.flag ⟨some t, 1⟩).vaddrs c.flag = v := Pager.vaddrs_withLock
  have hmap : ∀ q, (h.pages.withLock c.flag ⟨some t, 1⟩).Mapped q ↔ h.pages.Mapped q := fun q =>
    Pager.mapped_withPool
  have hpde : (h.pages.withLock c.flag ⟨some t, 1⟩).pde = h.pages.pde := Pager.pde_withPool
  have hsupplied : ∀ page, (h.pages.withLock c.flag ⟨some t, 1⟩).Supplied c.flag page n ↔
      h.pages.Supplied c.flag page n := fun _ => supplied_withLock
  have hbehind : (h.pages.withLock c.flag ⟨some t, 1⟩).Behind c.flag n := by
    unfold Pager.Behind
    rw [hv, hpde]
    simp only [hmap]
    exact hr.behind hn.1
  have hcall := mallocPage_iff (hr.pages.withLock c.flag ⟨some t, 1⟩)
    (by rw [hv]; exact hr.fits) (by rw [hv]; exact hp) hn hbehind
  simp only [hv, hsupplied] at hcall
  refine hcall.imp (fun ⟨hnone, hrun⟩ => ⟨hnone, onPages_run hrun⟩) fun ⟨i, hi, hcase⟩ =>
    ⟨i, hi, hcase.imp ?_ fun ⟨hnot, e, hrun⟩ => ⟨hnot, e, onPages_error hrun⟩⟩
  rintro ⟨hsup, pages, v', hgrown, htakes, hrun⟩
  have hsize : ∀ pf, (pages.pool pf).poolSize = (h.pages.pool pf).poolSize := fun pf => by
    rw [hgrown.size, Pager.pool_withVaddrs, Pager.poolSize_withLock]
  refine ⟨hsup, pages, v', htakes, ?_, ?_, onPages_run hrun⟩
  · rw [hgrown.lock, Pager.pool_withVaddrs, Pager.pool_withLock]
  · rw [memory_pages hsize, hgrown.vaddrs, Pager.vaddrs_withVaddrs]

end MallocReady

theorem memory_withLock (c : Context) (h : MemSys) (pf : PoolFlag) (lock : Mutex) :
    ({ h with pages := h.pages.withLock pf lock } : MemSys).memory c = h.memory c := by
  rw [memory_pages fun pf' => Pager.poolSize_withLock, Pager.vaddrs_withLock]
  show (h.memory c).withVaddr c (h.pages.vaddrs c.flag) = _
  rw [show h.pages.vaddrs c.flag = (h.memory c).vaddrs c from (if_pos rfl).symm]
  exact withVaddr_self (h.memory c) c

/-- The lock is given back, and the call returns. -/
theorem wp_release {Q : Option Nat → MemSys → Prop}
    (hlock : (h.pages.pool c.flag).lock = ⟨some t, 1⟩)
    (hQ : ∀ h' : MemSys, h'.memory c = h.memory c → Q r h') : Prog.wp E (do
      MemSys.onPages (poolRelease t c.flag)
      return r : MemSysM (Option Nat)) Q h :=
  Prog.wp_bind (Prog.wp_of_run (onPages_run (poolRelease_run hlock))
    (Prog.wp_pure (hQ _ (memory_withLock c h c.flag .free))))

/-- The first block of a list that has one. -/
theorem wp_mallocBlock {i b : Nat} {rest : List Nat} {e : Option Nat}
    (hok : HeapOk c e (h.memory c) live) (hi : i < 7) (hpos : 0 < size) (hfit : size ≤ descSize i)
    (hl : (h.memory c).lists c i = b :: rest) (he : e = none ∨ e = some (block2arena b))
    (hlock : (h.pages.pool c.flag).lock = ⟨some t, 1⟩) :
    Prog.wp E (MemSys.mallocBlock t c ⟨c, i⟩)
      (fun r h' => Allocates c size live r (h'.memory c)) h := by
  refine Prog.wp_bind (wp_onHeap (keepsPages_takeBlock _) (Prog.wp_mono
    (wp_popBlock hok hi hpos hfit hl he) fun p m hm h' hpages hmem => ?_))
  refine wp_release (by rw [hpages]; exact hlock) fun h'' hsame => ?_
  rw [hsame, hmem]
  exact hm

/-- A page that has been taken becomes an arena. -/
theorem wp_setArena {i p : Nat} {v : VirtualAddr} (hok : HeapOk c none m live) (hi : i < 7)
    (hl : m.lists c i = []) (ht : TakesPages (m.vaddrs c) v p 1)
    {Q : Unit → Memory → Prop} (hQ : ∀ m' b rest, m'.lists c i = b :: rest →
      HeapOk c (some (block2arena b)) m' live → Q () m') :
    Prog.wp E (MemSys.setArena c ⟨c, i⟩ p) Q (m.withVaddr c v) := by
  refine Prog.wp_bind (Prog.wp_modify (Prog.wp_get_bind (Prog.wp_bind (Prog.wp_modify ?_))))
  have hblocks : (((m.withVaddr c v).zeroed c p pageSize).descs ⟨c, i⟩).blocksPerArena
      = UInt32.ofNat (descBlocks i) := hok.sized.blocks i
  rw [hblocks, descBlocks_toNat hi]
  obtain ⟨m', hrun, b, rest, hl', hok'⟩ := splitArena_new hok hi hl ht
  exact Prog.wp_of_run hrun (hQ m' b rest hl' hok')

/-- The sizes that are answered: nothing is looked for, or one page is enough, or there are the
addresses only if there are the frames and the tables. -/
def MallocAnswers (allMem : Nat) (c : Context) (size : Nat) (h : MemSys) : Prop :=
  size = 0 ∨ ((memPools allMem).pool c.flag).poolSize ≤ size ∨ size ≤ 1024 ∨
    MemSys.mallocPageCnt size < 3840 ∧
      ∀ i, (h.pages.vaddrs c.flag).vaddrBitmap.Reaches (MemSys.mallocPageCnt size) i →
        h.pages.Supplied c.flag ((h.pages.vaddrs c.flag).vaddrStart / 4096 + i)
          (MemSys.mallocPageCnt size)

theorem findDesc_memory (n : Nat) : ∀ k,
    findDesc (h.memory c) c size n k = findDesc h.heap c size n k := by
  induction n with
  | zero => exact fun _ => rfl
  | succ n ih =>
      intro k
      rw [findDesc, findDesc, ih]
      rfl

theorem answered_of_wp {x : MemSysM (Option Nat)} (hwp : Prog.wp (fun _ => False) x
    (fun r h' => Allocates c size live r (h'.memory c)) h) :
    ∃ r h', x h = .ok (r, h') ∧
      ∀ p, r = some p → HeapSound c (h'.memory c) ((p, size) :: live) := by
  obtain ⟨⟨r, h'⟩, hrun⟩ := hwp.returns
  refine ⟨r, h', hrun, fun p hp => ?_⟩
  subst hp
  exact (hwp.of_run hrun).1.sound

section

variable (hr : MallocReady allMem c h live)
include hr

/-- The call behind the check of the size. -/
theorem sysMalloc_locked (t : Nat) (hpos : 0 < size)
    (hlt : size < ((memPools allMem).pool c.flag).poolSize) :
    MemSys.sysMalloc t c size h =
      (if 1024 < size then MemSys.mallocLarge t c size else MemSys.mallocSmall t c size)
        { h with pages := h.pages.withLock c.flag ⟨some t, 1⟩ } := by
  have hacquire : MemSys.onPages (poolAcquire t c.flag) h
      = .ok ((), { h with pages := h.pages.withLock c.flag ⟨some t, 1⟩ }) := by
    refine onPages_run ?_
    rw [poolAcquire_run, hr.lock]
    rfl
  rw [← hr.sizes] at hlt
  unfold MemSys.sysMalloc
  rw [Prog.bind_of_run (Prog.get_run h), if_neg (not_not.mpr ⟨hpos, hlt⟩),
    Prog.bind_of_run hacquire]

/-- One page is always there. -/
theorem supplied_one (page : Nat) : h.pages.Supplied c.flag page 1 := by
  have hcard : (h.pages.missing page 1).card ≤ 1 :=
    (Finset.card_filter_le _ _).trans (Finset.card_image_le.trans_eq (Finset.card_range 1))
  exact ⟨(full_or_room _).resolve_left (hr.frames c.flag),
    Room.mono ((full_or_room _).resolve_left (hr.frames .kernel)) hcard⟩

theorem small_answered (hpos : 0 < size) (hsmall : size ≤ 1024) :
    Prog.wp E (MemSys.mallocSmall t c size) (fun r h' => Allocates c size live r (h'.memory c))
      { h with pages := h.pages.withLock c.flag ⟨some t, 1⟩ } := by
  have hmem := memory_withLock c h c.flag ⟨some t, 1⟩
  have hok := hr.heap
  obtain ⟨hi, hfit⟩ := findDesc_spec hok.sized size descCnt 0
    ⟨6, by omega, by decide, by rw [show descSize 6 = 1024 from rfl]; omega⟩
  rw [findDesc_memory] at hi hfit
  refine Prog.wp_get_bind ?_
  simp only []
  generalize findDesc h.heap c size descCnt 0 = i at hi hfit
  refine Prog.wp_ite (fun hnil => ?_) fun hcons => ?_
  · rcases hr.mallocPage t (n := 1) ⟨by omega, by omega⟩ with ⟨hnone, -⟩ | ⟨j, -, hcase⟩
    · obtain ⟨p, hp⟩ := (Bitmap.full_or_lowestFree _).resolve_left hr.addresses
      exact absurd hp.reaches (hnone p)
    rcases hcase with ⟨-, pages, v, htakes, hlock, hpages, hrun⟩ | ⟨hnot, -⟩
    · refine Prog.wp_bind (Prog.wp_of_run hrun (Prog.wp_bind
        (wp_onHeap (keepsPages_setArena _ _) ?_)))
      rw [hpages]
      have htakes' : TakesPages ((h.memory c).vaddrs c) v
          ((h.pages.vaddrs c.flag).vaddrStart + 4096 * j) 1 := by
        rwa [show (h.memory c).vaddrs c = h.pages.vaddrs c.flag from if_pos rfl]
      refine wp_setArena hok hi hnil htakes' fun m b rest hl hnew h' hsame hmem' => ?_
      exact wp_mallocBlock (hmem' ▸ hnew) hi hpos hfit (hmem' ▸ hl) (.inr rfl)
        (by rw [hsame]; exact hlock)
    · exact absurd (supplied_one hr _) hnot
  · obtain ⟨b, rest, hl⟩ := List.exists_cons_of_ne_nil hcons
    have hl' : (h.memory c).lists c i = b :: rest := hl
    rw [← hmem] at hok hl'
    exact wp_mallocBlock hok hi hpos hfit hl' (.inl rfl) (by rw [Pager.pool_withLock])

theorem large_answered (hpos : 0 < size) (hn : MemSys.mallocPageCnt size < 3840)
    (hsup : ∀ i, (h.pages.vaddrs c.flag).vaddrBitmap.Reaches (MemSys.mallocPageCnt size) i →
      h.pages.Supplied c.flag ((h.pages.vaddrs c.flag).vaddrStart / 4096 + i)
        (MemSys.mallocPageCnt size)) :
    Prog.wp E (MemSys.mallocLarge t c size) (fun r h' => Allocates c size live r (h'.memory c))
      { h with pages := h.pages.withLock c.flag ⟨some t, 1⟩ } := by
  have hcnt := large_pages size
  have hmem := memory_withLock c h c.flag ⟨some t, 1⟩
  unfold MemSys.mallocLarge
  change size + 12 ≤ 4096 * MemSys.mallocPageCnt size at hcnt
  generalize MemSys.mallocPageCnt size = n at hn hsup hcnt ⊢
  rcases hr.mallocPage t (n := n) ⟨by omega, hn⟩ with ⟨-, hrun⟩ | ⟨i, hi, hcase⟩
  · refine Prog.wp_bind (Prog.wp_of_run hrun (wp_release ?_ fun h' hsame => ?_))
    · rw [Pager.pool_withLock]
    · rw [hsame, hmem]
      exact hr.heap
  · rcases hcase with ⟨-, pages, v, htakes, hlock, hpages, hrun⟩ | ⟨hnot, -⟩
    · refine Prog.wp_bind (Prog.wp_of_run hrun (Prog.wp_bind
        (wp_onHeap (keepsPages_setLarge _ _) ?_)))
      refine Prog.wp_bind (Prog.wp_modify (Prog.wp_modify fun h' hsame hmem' => ?_))
      refine wp_release (by rw [hsame]; exact hlock) fun h'' hsame' => ?_
      rw [hsame', hmem', hpages]
      have htakes' : TakesPages ((h.memory c).vaddrs c) v
          ((h.pages.vaddrs c.flag).vaddrStart + 4096 * i) n := by
        rwa [show (h.memory c).vaddrs c = h.pages.vaddrs c.flag from if_pos rfl]
      exact allocates_large hr.heap hpos htakes' (by omega) hn hcnt
    · exact absurd (hsup i hi) hnot

theorem large_stops (h3840 : ¬ MemSys.mallocPageCnt size < 3840 ∨
    ∃ i, (h.pages.vaddrs c.flag).vaddrBitmap.Reaches (MemSys.mallocPageCnt size) i ∧
      ¬ h.pages.Supplied c.flag ((h.pages.vaddrs c.flag).vaddrStart / 4096 + i)
        (MemSys.mallocPageCnt size)) :
    ∃ e, MemSys.mallocLarge t c size { h with pages := h.pages.withLock c.flag ⟨some t, 1⟩ }
      = .error e := by
  have hcnt := large_pages size
  change size + 12 ≤ 4096 * MemSys.mallocPageCnt size at hcnt
  unfold MemSys.mallocLarge
  generalize MemSys.mallocPageCnt size = n at h3840 hcnt ⊢
  by_cases hn : n < 3840
  · obtain ⟨i, hi, hnot⟩ := h3840.resolve_left (not_not.mpr hn)
    rcases hr.mallocPage t (n := n) ⟨by omega, hn⟩ with ⟨hnone, -⟩ | ⟨j, hj, hcase⟩
    · exact absurd hi (hnone i)
    obtain rfl := hj.unique hi
    rcases hcase with ⟨hsup, -⟩ | ⟨-, e, hrun⟩
    · exact absurd hsup hnot
    · exact ⟨e, Prog.bind_of_error hrun⟩
  · exact ⟨_, Prog.bind_of_error (onPages_error (mallocPageWith_refused fun hc => hn hc.2))⟩

/-- A size that is refused. -/
theorem sysMalloc_null (t : Nat)
    (hsize : ¬ (0 < size ∧ size < ((memPools allMem).pool c.flag).poolSize)) :
    MemSys.sysMalloc t c size h = .ok (none, h) := by
  rw [← hr.sizes] at hsize
  unfold MemSys.sysMalloc
  rw [Prog.bind_of_run (Prog.get_run h), if_pos hsize]
  rfl

end

/-- **Which sizes `sys_malloc` answers**, with `NULL` or with a block of that size. -/
theorem malloc_answers_iff (allMem t : Nat) (c : Context) (h : MemSys) (live : List (Nat × Nat))
    (size : Nat) (hr : MallocReady allMem c h live) :
    ((∃ r h', MemSys.sysMalloc t c size h = .ok (r, h') ∧
        ∀ p, r = some p → HeapSound c (h'.memory c) ((p, size) :: live)) ∧
      (1024 < size → size < ((memPools allMem).pool c.flag).poolSize →
        0 < MemSys.mallocPageCnt size ∧ MemSys.mallocPageCnt size < 3840)) ↔
      MallocAnswers allMem c size h := by
  have hcnt := large_pages size
  change size + 12 ≤ 4096 * MemSys.mallocPageCnt size at hcnt
  by_cases hsize : 0 < size ∧ size < ((memPools allMem).pool c.flag).poolSize
  swap
  · refine iff_of_true ⟨⟨none, h, sysMalloc_null hr t hsize, nofun⟩, fun hl hlt => ?_⟩ ?_
    · exact absurd ⟨by omega, hlt⟩ hsize
    · unfold MallocAnswers
      omega
  rw [sysMalloc_locked hr t hsize.1 hsize.2]
  by_cases hlarge : 1024 < size
  swap
  · rw [if_neg hlarge]
    exact iff_of_true ⟨answered_of_wp (small_answered hr hsize.1 (by omega)),
      fun hl => absurd hl hlarge⟩ (.inr (.inr (.inl (by omega))))
  rw [if_pos hlarge]
  constructor
  · rintro ⟨⟨r, h', hrun, -⟩, -⟩
    refine .inr (.inr (.inr ?_))
    by_contra hnot
    rw [not_and_or, not_forall] at hnot
    obtain ⟨e, herr⟩ := large_stops (t := t) hr
      (hnot.imp_right fun ⟨i, hi⟩ => ⟨i, by simpa only [Classical.not_imp] using hi⟩)
    rw [herr] at hrun
    cases hrun
  · rintro (hzero | hbig | hsmall | ⟨h3840, hsup⟩)
    · omega
    · omega
    · omega
    · exact ⟨answered_of_wp (large_answered hr hsize.1 h3840 hsup),
        fun _ _ => ⟨by omega, h3840⟩⟩

end Heap

/-- A machine with 32 MB, before the first allocation. -/
def freshSys : MemSys where
  heap := bootMemory
  pages :=
    { kernelPool := (memPools 0x2000000).kernelPool.view fun _ => 0
      userPool := (memPools 0x2000000).userPool.view fun _ => 0
      kernelVaddr := ⟨(memPools 0x2000000).kernelVaddr.vaddrBitmap.view fun _ => 0, kHeapStart⟩
      userVaddr := ⟨⟨1, fun _ => 0⟩, userVaddrStart⟩
      isUser := false
      pde := fun i => if 768 ≤ i then 7 else 0
      pte := fun _ => 0 }

theorem freshSys_ready : MallocReady 0x2000000 .kernel freshSys [] where
  heap := by
    refine heapReady_ok ⟨fun _ => rfl, fun _ => rfl, fun _ => ⟨rfl, ?_⟩, fun hc => absurd rfl hc,
      fun pf => ?_⟩
    · show 480 ≤ 32767 / 8
      decide
    · cases pf <;> exact (by decide : 15728640 ≤ 65535 * pageSize)
  pages :=
    { pools := fun pf => by cases pf <;> exact ⟨by decide, by decide⟩
      vaddrs := fun pf => by
        cases pf with
        | kernel =>
            refine ⟨by decide, by decide, fun _ => by decide, fun i hi _ => ?_⟩
            have hi : i < 8 * 480 := hi
            show 0xc0100000 + 4096 * i < 0xffc00000
            omega
        | user =>
            refine ⟨by decide, by decide, nofun, fun i hi _ => ?_⟩
            have hi : i < 8 * 1 := hi
            show 0x8048000 + 4096 * i < 0xbffff000
            omega
      unmapped := fun _ _ _ _ hm => absurd hm.2 (show ¬ present 0 = true by decide)
      tables := fun i hi _ => by
        show present (if 768 ≤ i then 7 else 0) = true
        rw [if_pos hi]
        rfl }
  lock := rfl
  sizes pf := by cases pf <;> rfl
  frames pf hfull := by
    cases pf <;> exact absurd (hfull 0 (by decide)) (by decide)
  addresses hfull := absurd (hfull 0 (by decide)) (by decide)
  kernel _ := ⟨rfl, rfl, fun _ hm => absurd hm.2 (show ¬ present 0 = true by decide)⟩
  process hc := absurd rfl hc

/-- 15724533 bytes pass the check and stop the kernel: with the header they are 3840 pages. -/
theorem malloc_answers_3840 :
    MallocReady 0x2000000 .kernel freshSys [] ∧
    15724533 < ((memPools 0x2000000).pool .kernel).poolSize ∧
    MemSys.mallocPageCnt 15724533 = 3840 ∧
    MemSys.sysMalloc 1 .kernel 15724533 freshSys
      = .error (.panic "malloc_page" "pg_cnt > 0 && pg_cnt < 3840") ∧
    ¬ ((∃ r h', MemSys.sysMalloc 1 .kernel 15724533 freshSys = .ok (r, h') ∧
        ∀ p, r = some p → HeapSound .kernel (h'.memory .kernel) [(p, 15724533)]) ∧
      (1024 < 15724533 → 15724533 < ((memPools 0x2000000).pool .kernel).poolSize →
        0 < MemSys.mallocPageCnt 15724533 ∧ MemSys.mallocPageCnt 15724533 < 3840)) := by
  have hlt : 15724533 < ((memPools 0x2000000).pool .kernel).poolSize := by decide
  have hcnt : MemSys.mallocPageCnt 15724533 = 3840 := by decide
  have hstop : MemSys.sysMalloc 1 .kernel 15724533 freshSys
      = .error (.panic "malloc_page" "pg_cnt > 0 && pg_cnt < 3840") := by
    rw [sysMalloc_locked freshSys_ready 1 (by decide) hlt, if_pos (by decide)]
    refine Prog.bind_of_error (onPages_error (mallocPageWith_refused ?_))
    rw [hcnt]
    decide
  refine ⟨freshSys_ready, hlt, hcnt, hstop, fun hc => ?_⟩
  have htop := (hc.2 (by decide) hlt).2
  rw [hcnt] at htop
  exact absurd htop (by decide)

/-- One byte less is answered. -/
theorem malloc_answers_3839 :
    (∃ r h', MemSys.sysMalloc 1 .kernel 15724532 freshSys = .ok (r, h') ∧
        ∀ p, r = some p → HeapSound .kernel (h'.memory .kernel) [(p, 15724532)]) ∧
      (1024 < 15724532 → 15724532 < ((memPools 0x2000000).pool .kernel).poolSize →
        0 < MemSys.mallocPageCnt 15724532 ∧ MemSys.mallocPageCnt 15724532 < 3840) := by
  have hcnt : MemSys.mallocPageCnt 15724532 = 3839 := by decide
  refine (malloc_answers_iff 0x2000000 1 .kernel freshSys [] 15724532 freshSys_ready).mpr
    (.inr (.inr (.inr ⟨?_, fun i hi => ⟨?_, ?_⟩⟩)))
  · rw [hcnt]
    decide
  · rw [hcnt]
    refine ⟨Finset.range 3840, by rw [Finset.card_range]; decide, fun k hk => ⟨?_, ?_⟩⟩
    · exact Finset.mem_range.mp hk
    · show ((0 : UInt8) &&& bitMask (k % 8) != 0) = false
      simp
  · have hnone : freshSys.pages.missing ((freshSys.pages.vaddrs .kernel).vaddrStart / 4096 + i)
        (MemSys.mallocPageCnt 15724532) = ∅ := by
      refine Finset.eq_empty_of_forall_notMem fun d hd => ?_
      obtain ⟨⟨k, -, rfl⟩, habsent⟩ := mem_missing.mp hd
      have hlow : 768 ≤ ((freshSys.pages.vaddrs .kernel).vaddrStart / 4096 + i + k) / 1024 := by
        show 768 ≤ (0xc0100000 / 4096 + i + k) / 1024
        omega
      have hpde : freshSys.pages.pde
          (((freshSys.pages.vaddrs .kernel).vaddrStart / 4096 + i + k) / 1024) = 7 := if_pos hlow
      rw [hpde] at habsent
      exact absurd habsent (by decide)
    show Room freshSys.pages.kernelPool.poolBitmap
      (freshSys.pages.missing ((freshSys.pages.vaddrs .kernel).vaddrStart / 4096 + i)
        (MemSys.mallocPageCnt 15724532)).card
    rw [hnone, Finset.card_empty]
    exact room_zero _

end ZyOs
