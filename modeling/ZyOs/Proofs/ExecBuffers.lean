/-
The pages behind the buffers of `file_read`.

A page that `sys_malloc` gets for a buffer has the lowest address of the process that is free and
the lowest frame that is free.  Once `sys_free` has given it back, the addresses, the frames and
what is mapped are what they were; only the table it may have needed stays.
-/
import ZyOs.Kernel.Exec
import ZyOs.Proofs.Malloc
import ZyOs.Library.BitFields

namespace ZyOs

open Library

namespace Exec

variable {p p' p₂ : Pager} {idx j t : Nat}

/-! ### The pages of a process -/

/-- The pools, and the bitmap of the process, are where they were. -/
structure SamePlaces (p p' : Pager) : Prop where
  isUser : p'.isUser = p.isUser
  start : p'.userVaddr.vaddrStart = p.userVaddr.vaddrStart
  length : p'.userVaddr.vaddrBitmap.bmapBytesLen = p.userVaddr.vaddrBitmap.bmapBytesLen
  pool : ∀ pf, (p'.pool pf).phyAddrStart = (p.pool pf).phyAddrStart
  size : ∀ pf, (p'.pool pf).poolBitmap.bmapBytesLen = (p.pool pf).poolBitmap.bmapBytesLen

/-- `create_user_vaddr_bitmap` has made the bitmap, and the pools are where `mem_pool_init` puts
them. -/
structure UserPages (p : Pager) : Prop where
  isUser : p.isUser = true
  start : p.userVaddr.vaddrStart = userVaddrStart
  length : p.userVaddr.vaddrBitmap.bmapBytesLen = (0xc0000000 - userVaddrStart) / pageSize / 8
  fits : ∀ pf, PoolFits (p.pool pf)
  aligned : p.userPool.phyAddrStart % 4096 = 0
  low : 0x102000 ≤ p.userPool.phyAddrStart

theorem SamePlaces.refl (p : Pager) : SamePlaces p p :=
  ⟨rfl, rfl, rfl, fun _ => rfl, fun _ => rfl⟩

theorem SamePlaces.trans (h : SamePlaces p p') (h' : SamePlaces p' p₂) : SamePlaces p p₂ :=
  ⟨h'.isUser.trans h.isUser, h'.start.trans h.start, h'.length.trans h.length,
    fun pf => (h'.pool pf).trans (h.pool pf), fun pf => (h'.size pf).trans (h.size pf)⟩

theorem SamePlaces.withPool {pool : Pool} {pf : PoolFlag}
    (hstart : pool.phyAddrStart = (p.pool pf).phyAddrStart)
    (hsize : pool.poolBitmap.bmapBytesLen = (p.pool pf).poolBitmap.bmapBytesLen) :
    SamePlaces p (p.withPool pool pf) := by
  cases pf
  · exact ⟨rfl, rfl, rfl, fun | .kernel => hstart | .user => rfl,
      fun | .kernel => hsize | .user => rfl⟩
  · exact ⟨rfl, rfl, rfl, fun | .kernel => rfl | .user => hstart,
      fun | .kernel => rfl | .user => hsize⟩

theorem SamePlaces.take (i : Nat) (pf : PoolFlag) :
    SamePlaces p (p.withPool ((p.pool pf).take i) pf) :=
  .withPool rfl rfl

theorem SamePlaces.withLock (pf : PoolFlag) (lock : Mutex) : SamePlaces p (p.withLock pf lock) :=
  .withPool rfl rfl

theorem SamePlaces.withPte (page : Nat) (entry : UInt32) : SamePlaces p (p.withPte page entry) :=
  ⟨rfl, rfl, rfl, fun pf => by cases pf <;> rfl, fun pf => by cases pf <;> rfl⟩

theorem SamePlaces.withTable (i : Nat) (entry : UInt32) : SamePlaces p (p.withTable i entry) :=
  ⟨rfl, rfl, rfl, fun pf => by cases pf <;> rfl, fun pf => by cases pf <;> rfl⟩

/-- A bit of the addresses is set or cleared. -/
theorem SamePlaces.withVaddrs {v : VirtualAddr} (hstart : v.vaddrStart = p.userVaddr.vaddrStart)
    (hlength : v.vaddrBitmap.bmapBytesLen = p.userVaddr.vaddrBitmap.bmapBytesLen) :
    SamePlaces p (p.withVaddrs v .user) :=
  ⟨rfl, hstart, hlength, fun pf => by cases pf <;> rfl, fun pf => by cases pf <;> rfl⟩

theorem UserPages.congr (h : UserPages p) (hs : SamePlaces p p') : UserPages p' where
  isUser := hs.isUser.trans h.isUser
  start := hs.start.trans h.start
  length := hs.length.trans h.length
  fits pf := by
    have hfit := h.fits pf
    refine ⟨by rw [hs.pool]; exact hfit.start, ?_⟩
    rw [hs.pool, hs.size]
    exact hfit.top
  aligned := by
    rw [show p'.userPool.phyAddrStart = _ from hs.pool .user]
    exact h.aligned
  low := by
    rw [show p'.userPool.phyAddrStart = _ from hs.pool .user]
    exact h.low

/-- The first page of user space. -/
def firstPage : Nat := userVaddrStart / pageSize

/-- The page of a bit. -/
def userPage (idx : Nat) : Nat := firstPage + idx

theorem userPage_div (idx : Nat) : (userVaddrStart + 4096 * idx) / pageSize = userPage idx :=
  Nat.add_mul_div_left _ idx (by decide)

/-! ### A page is mapped -/

/-- Those of the tables that are not there. -/
def absentTables (p : Pager) (tables : Finset Nat) : Finset Nat :=
  tables.filter fun i => ¬ present (p.pde i) = true

/-- One page less is missing. -/
theorem card_filter_erase {s : Finset Nat} {P Q : Nat → Prop} [DecidablePred P] [DecidablePred Q]
    {k : Nat} (hk : k ∈ s) (hP : ¬ P k) (hQ : ∀ q, Q q ↔ P q ∨ q = k) :
    (s.filter fun q => ¬ P q).card = (s.filter fun q => ¬ Q q).card + 1 := by
  have herase : (s.filter fun q => ¬ Q q) = (s.filter fun q => ¬ P q).erase k := by
    ext q
    rw [Finset.mem_erase, Finset.mem_filter, Finset.mem_filter, hQ]
    tauto
  have hmem : k ∈ s.filter fun q => ¬ P q := Finset.mem_filter.mpr ⟨hk, hP⟩
  rw [herase, Finset.card_erase_of_mem hmem]
  have := Finset.card_pos.mpr ⟨k, hmem⟩
  omega

/-- `page_table_add` has mapped page `k`: it may have taken a frame for a table. -/
structure Added (p p' : Pager) (k frame : Nat) : Prop extends SamePlaces p p' where
  userVaddr : p'.userVaddr = p.userVaddr
  userPool : p'.userPool = p.userPool
  mapped : ∀ q, p'.Mapped q ↔ p.Mapped q ∨ q = k
  entry : p'.pte k = tableEntry frame
  others : ∀ q, p.Mapped q → p'.pte q = p.pte q
  tables : ∀ tables, k / 1024 ∈ tables → Room p.kernelPool.poolBitmap (absentTables p tables).card →
    Room p'.kernelPool.poolBitmap (absentTables p' tables).card

section Added

variable {k a b frame vaddr : Nat}

theorem mapped_present (hpde : p'.pde = p.pde)
    (hpte : p'.pte = fun q => if q = k then tableEntry a else p.pte q)
    (hp : present (p.pde (k / 1024)) = true) (q : Nat) : p'.Mapped q ↔ p.Mapped q ∨ q = k := by
  rw [Pager.Mapped, Pager.Mapped, hpde, hpte]
  by_cases hq : q = k
  · subst hq
    simp only [if_true, hp, present_tableEntry, and_self, or_true]
  · simp only [hq, if_false, or_false]

/-- A page with a table of its own. -/
theorem mapped_absent (hpde : p'.pde = fun i => if i = k / 1024 then tableEntry b else p.pde i)
    (hpte : p'.pte = fun q => if q = k then tableEntry a else
      if q / 1024 = k / 1024 then 0 else p.pte q)
    (hp : ¬ present (p.pde (k / 1024)) = true) (q : Nat) : p'.Mapped q ↔ p.Mapped q ∨ q = k := by
  have h0 : ¬ present 0 = true := by decide
  rw [Pager.Mapped, Pager.Mapped, hpde, hpte]
  by_cases hq : q = k
  · subst hq
    simp only [if_true, present_tableEntry, and_self, or_true]
  · simp only [hq, if_false, or_false]
    by_cases htable : q / 1024 = k / 1024
    · simp only [if_pos htable]
      exact iff_of_false (fun h => h0 h.2) fun h => hp (htable ▸ h.1)
    · simp only [if_neg htable]

/-- **A page is mapped** where nothing was and there is a table or a frame for one. -/
theorem pageTableAdd_added (hfit : PoolFits (p.pool .kernel))
    (hunmapped : ¬ p.Mapped (vaddr / pageSize))
    (htable : present (p.pde (vaddr / pageSize / 1024)) = true ∨
      ∃ i, p.kernelPool.poolBitmap.LowestFree i) :
    ∃ p', pageTableAdd Bitmap.bitmapScan vaddr frame p = .ok ((), p') ∧
      Added p p' (vaddr / pageSize) frame := by
  by_cases hpde : present (p.pde (vaddr / pageSize / 1024)) = true
  · have hpte : present (p.pte (vaddr / pageSize)) = false := by
      simpa [Pager.Mapped, hpde] using hunmapped
    refine ⟨_, pageTableAdd_present hpde hpte, .withPte _ _, rfl, rfl, mapped_present rfl rfl hpde,
      if_pos rfl, fun q hq => if_neg ?_, fun _ _ hroom => hroom⟩
    rintro rfl
    exact hunmapped hq
  · obtain ⟨i, hi⟩ := htable.resolve_left hpde
    have hi' : (p.pool .kernel).poolBitmap.LowestFree i := hi
    have halloc := poolAlloc_lowest hfit hi'
    set table := i * 4096 + (p.pool .kernel).phyAddrStart
    have hmapped := @mapped_absent p ((((p.withPool ((p.pool .kernel).take i) .kernel).withTable
      (vaddr / pageSize / 1024) (tableEntry table)).withPte (vaddr / pageSize)
        (tableEntry frame))) (vaddr / pageSize) frame table rfl rfl hpde
    refine ⟨_, pageTableAdd_absent hpde halloc, ((SamePlaces.take i .kernel).trans
      (.withTable _ _)).trans (.withPte _ _), rfl, rfl, hmapped, if_pos rfl, fun q hq => ?_,
      fun tables hmem hroom => ?_⟩
    · -- behind a table that is missing nothing was mapped
      have hne : q ≠ vaddr / pageSize := by
        rintro rfl
        exact hunmapped hq
      have hother : ¬ q / 1024 = vaddr / pageSize / 1024 := fun heq => hpde (heq ▸ hq.1)
      exact (if_neg hne).trans (if_neg hother)
    · have hcard := card_filter_erase hmem hpde
        fun i => (Iff.rfl : present (p.pde i) = true ∨ i = vaddr / pageSize / 1024 ↔ _)
      rw [absentTables, hcard] at hroom
      refine ((hi.room_succ _).mp hroom).mono (Finset.card_le_card fun d hd => ?_)
      obtain ⟨hd, habsent⟩ := Finset.mem_filter.mp hd
      refine Finset.mem_filter.mpr ⟨hd, fun hc => habsent ?_⟩
      show present (if d = vaddr / pageSize / 1024 then tableEntry table else p.pde d) = true
      split_ifs with heq
      · exact present_tableEntry table
      · exact hc.resolve_right heq

theorem poolAlloc_panics {pf : PoolFlag} (h : (p.pool pf).poolBitmap.Full) :
    poolAlloc Bitmap.bitmapScan pf p
      = .error (.panic "bitmap_scan" "idx_byte < bmap->bmap_bytes_len") := by
  rw [poolAlloc, Prog.bind_of_run (Prog.get_run p), pallocWith, h.scan]
  rfl

/-- Without either the kernel stops. -/
theorem pageTableAdd_refused (h : p.Mapped (vaddr / pageSize) ∨
    ¬ (present (p.pde (vaddr / pageSize / 1024)) = true ∨
      ∃ i, p.kernelPool.poolBitmap.LowestFree i)) :
    ∃ e, pageTableAdd Bitmap.bitmapScan vaddr frame p = .error e ∧ e.IsPanic := by
  by_cases hpde : present (p.pde (vaddr / pageSize / 1024)) = true
  · have hpte : ¬ present (p.pte (vaddr / pageSize)) = false := by
      rw [(h.resolve_right fun hc => hc (.inl hpde)).2]
      exact Bool.false_ne_true.symm
    refine ⟨.panic "page_table_add" "!(*pte & 0x00000001)", ?_, trivial⟩
    rw [pageTableAdd, Prog.bind_of_run (Prog.get_run p), pdeIdx_page, if_pos hpde,
      Prog.bind_of_run (Prog.get_run p), ASSERT_neg hpte]
    rfl
  · have hfull : (p.pool .kernel).poolBitmap.Full := by
      refine (p.pool .kernel).poolBitmap.full_or_lowestFree.resolve_right fun hfree => ?_
      rcases h with hm | hno
      · exact hpde hm.1
      · exact hno (.inr hfree)
    exact ⟨.panic _ _, pageTableAdd_stops hpde (poolAlloc_panics hfull), trivial⟩

end Added

/-! ### A page is taken -/

/-- There is a page to be had: the lowest address that is free is that with bit `idx`, where
nothing is mapped, the lowest frame is `j`, and there is a table or a frame for one. -/
structure Lends (p : Pager) (idx j : Nat) : Prop where
  address : p.userVaddr.vaddrBitmap.LowestFree idx
  below : userVaddrStart + 4096 * idx < 0xc0000000 - pageSize
  frame : p.userPool.poolBitmap.LowestFree j
  unmapped : ¬ p.Mapped (userPage idx)
  table : present (p.pde (userPage idx / 1024)) = true ∨ ∃ i, p.kernelPool.poolBitmap.LowestFree i

/-- It has been taken. -/
structure Lent (p p' : Pager) (idx j : Nat) : Prop extends SamePlaces p p' where
  marks : p'.userVaddr.vaddrBitmap = p.userVaddr.vaddrBitmap.bitmapSet idx true
  frames : p'.userPool.poolBitmap = p.userPool.poolBitmap.bitmapSet j true
  mapped : ∀ q, p'.Mapped q ↔ p.Mapped q ∨ q = userPage idx
  entry : p'.pte (userPage idx) = tableEntry (j * 4096 + p.userPool.phyAddrStart)
  others : ∀ q, p.Mapped q → p'.pte q = p.pte q
  tables : ∀ tables, userPage idx / 1024 ∈ tables →
    Room p.kernelPool.poolBitmap (absentTables p tables).card →
      Room p'.kernelPool.poolBitmap (absentTables p' tables).card

/-- `vaddr_get` for one page of a process. -/
theorem vaddrGet_lowest (h : UserPages p) (hidx : p.userVaddr.vaddrBitmap.LowestFree idx) :
    vaddrGet p.userVaddr .user 1 = (do
      ASSERT (userVaddrStart + 4096 * idx < 0xc0000000 - pageSize) "vaddr_get"
        "(uint32_t)vaddr_start < (0xc0000000 - PAGE_SIZE)"
      return (p.userVaddr.mark idx, some (userVaddrStart + 4096 * idx)) : Kernel _) := by
  have hbit := hidx.bit
  rw [h.length] at hbit
  have hlt : idx < 753592 := hbit
  have haddr : (p.userVaddr.vaddrStart + idx * pageSize) % 2 ^ 32
      = userVaddrStart + 4096 * idx := by
    rw [h.start, show userVaddrStart = 0x8048000 from rfl, show pageSize = 4096 from rfl]
    omega
  have hne : ¬ userVaddrStart + 4096 * idx = 0 := by
    rw [show userVaddrStart = 0x8048000 from rfl]
    omega
  rw [vaddrGet, hidx.scan, ok_bind, if_pos rfl, Bitmap.int32_of_lt (by omega), if_neg (by omega)]
  simp only [Int.toNat_natCast, haddr, if_neg hne, if_true]
  rfl

/-- The pages once the address is taken, and once the frame is. -/
def addressTaken (p : Pager) (idx : Nat) : Pager := p.withVaddrs (p.userVaddr.mark idx) .user

def frameTaken (p : Pager) (idx j : Nat) : Pager :=
  (addressTaken p idx).withPool (p.userPool.take j) .user

theorem mallocPage_address (h : UserPages p) (hidx : p.userVaddr.vaddrBitmap.LowestFree idx)
    (hbelow : userVaddrStart + 4096 * idx < 0xc0000000 - pageSize) :
    mallocPageWith Bitmap.bitmapScan .user 1 p = (do
      if ← mallocPageLoop Bitmap.bitmapScan .user 1 (userVaddrStart + 4096 * idx) then
        return some (userVaddrStart + 4096 * idx)
      else
        return none : PagerM (Option Nat)) (addressTaken p idx) := by
  rw [mallocPageWith_pos Bitmap.bitmapScan .user ⟨by decide, by decide⟩, vaddrGetWith_bitmapScan,
    show p.vaddrs .user = p.userVaddr from rfl, vaddrGet_lowest h hidx, ASSERT_pos hbelow]
  rfl

theorem poolAlloc_taken (h : UserPages p) (hj : p.userPool.poolBitmap.LowestFree j) :
    poolAlloc Bitmap.bitmapScan .user (addressTaken p idx)
      = .ok (some (j * 4096 + p.userPool.phyAddrStart), frameTaken p idx j) :=
  poolAlloc_lowest (s := addressTaken p idx) (h.fits .user) hj

/-- **`malloc_page` for one page of a process** that is to be had. -/
theorem mallocPage_lends (h : UserPages p) (hl : Lends p idx j) :
    ∃ p', mallocPageWith Bitmap.bitmapScan .user 1 p
      = .ok (some (userVaddrStart + 4096 * idx), p') ∧ p'.userPool.lock = p.userPool.lock ∧
        Lent p p' idx j := by
  have hplaces : SamePlaces p (frameTaken p idx j) :=
    (SamePlaces.withVaddrs (v := p.userVaddr.mark idx) rfl rfl).trans (.withPool rfl rfl)
  have hpage := userPage_div idx
  obtain ⟨p', hadd, hadded⟩ := @pageTableAdd_added (frameTaken p idx j)
    (j * 4096 + p.userPool.phyAddrStart) (userVaddrStart + 4096 * idx) (h.fits .kernel)
    (by rw [hpage]; exact hl.unmapped) (by rw [hpage]; exact hl.table)
  rw [hpage] at hadded
  have hloop : mallocPageLoop Bitmap.bitmapScan .user 1 (userVaddrStart + 4096 * idx)
      (addressTaken p idx) = .ok (true, p') := by
    rw [mallocPageLoop, Prog.bind_of_run (poolAlloc_taken h hl.frame)]
    exact Prog.bind_of_run hadd
  refine ⟨p', ?_, ?_, hplaces.trans hadded.toSamePlaces, ?_, ?_, hadded.mapped, hadded.entry,
    hadded.others, hadded.tables⟩
  · rw [mallocPage_address h hl.address hl.below, Prog.bind_of_run hloop]
    rfl
  · rw [hadded.userPool]
    rfl
  · rw [hadded.userVaddr]
    rfl
  · rw [hadded.userPool]
    rfl

/-- Where there is no page to be had the kernel stops. -/
theorem mallocPage_refused (h : UserPages p) (hno : ∀ idx j, ¬ Lends p idx j) :
    ∃ e, mallocPageWith Bitmap.bitmapScan .user 1 p = .error e ∧ e.IsPanic := by
  rcases p.userVaddr.vaddrBitmap.full_or_lowestFree with hfull | ⟨idx, hidx⟩
  · refine ⟨.panic "bitmap_scan" "idx_byte < bmap->bmap_bytes_len", ?_, trivial⟩
    rw [mallocPageWith_pos Bitmap.bitmapScan .user ⟨by decide, by decide⟩,
      vaddrGetWith_bitmapScan, show p.vaddrs .user = p.userVaddr from rfl, vaddrGet, hfull.scan]
    rfl
  by_cases hbelow : userVaddrStart + 4096 * idx < 0xc0000000 - pageSize
  · rw [mallocPage_address h hidx hbelow]
    rcases p.userPool.poolBitmap.full_or_lowestFree with hfull | ⟨j, hj⟩
    · have hfull' : ((addressTaken p idx).pool .user).poolBitmap.Full := hfull
      have hstop : mallocPageLoop Bitmap.bitmapScan .user 1 (userVaddrStart + 4096 * idx)
          (addressTaken p idx) = .error (.panic "bitmap_scan" "idx_byte < bmap->bmap_bytes_len") := by
        rw [mallocPageLoop, Prog.bind_of_error (poolAlloc_panics hfull')]
      exact ⟨_, Prog.bind_of_error hstop, trivial⟩
    · have hpage := userPage_div idx
      obtain ⟨e, hadd, he⟩ := @pageTableAdd_refused (frameTaken p idx j)
        (j * 4096 + p.userPool.phyAddrStart) (userVaddrStart + 4096 * idx) (by
          rw [hpage]
          by_contra hc
          rw [not_or, not_not] at hc
          exact hno idx j ⟨hidx, hbelow, hj, hc.1, hc.2⟩)
      refine ⟨e, Prog.bind_of_error ?_, he⟩
      rw [mallocPageLoop, Prog.bind_of_run (poolAlloc_taken h hj)]
      exact Prog.bind_of_error hadd
  · refine ⟨.panic "vaddr_get" "(uint32_t)vaddr_start < (0xc0000000 - PAGE_SIZE)", ?_, trivial⟩
    rw [mallocPageWith_pos Bitmap.bitmapScan .user ⟨by decide, by decide⟩,
      vaddrGetWith_bitmapScan, show p.vaddrs .user = p.userVaddr from rfl, vaddrGet_lowest h hidx,
      ASSERT_neg hbelow]
    rfl

/-! ### It is given back -/

/-- The page with bit `idx` and its frame `j` are free. -/
def pageReturned (p : Pager) (idx j : Nat) : Pager :=
  { p with
    userPool := { p.userPool with poolBitmap := p.userPool.poolBitmap.bitmapSet j false }
    userVaddr :=
      { p.userVaddr with vaddrBitmap := p.userVaddr.vaddrBitmap.bitmapSet idx false }
    pte := fun q => if q = userPage idx then p.pte q &&& ~~~ 1 else p.pte q }

theorem not_present_cleared (e : UInt32) : ¬ present (e &&& ~~~ 1) = true := by
  unfold present
  rw [UInt32.and_assoc]
  simp

theorem mapped_returned (q : Nat) :
    (pageReturned p idx j).Mapped q ↔ p.Mapped q ∧ q ≠ userPage idx := by
  unfold Pager.Mapped pageReturned
  by_cases hq : q = userPage idx
  · simp only [if_pos hq]
    exact iff_of_false (fun h => not_present_cleared _ h.2) fun h => h.2 hq
  · simp only [if_neg hq]
    exact (and_iff_left hq).symm

/-- The frame an entry names. -/
theorem frame_tableEntry {f : Nat} (hf : f < 2 ^ 20) :
    (tableEntry (4096 * f) &&& 0xfffff000).toNat = 4096 * f := by
  rw [toNat_and_high (k := 12) _ _ (by decide) rfl, toNat_tableEntry hf]
  omega

/-- **`mfree_page`** of a page with frame `j` behind it. -/
theorem mfreePage_run (h : UserPages p) (hidx : idx < 8 * p.userVaddr.vaddrBitmap.bmapBytesLen)
    (hj : j < 8 * p.userPool.poolBitmap.bmapBytesLen) (hmapped : p.Mapped (userPage idx))
    (hentry : p.pte (userPage idx) = tableEntry (j * 4096 + p.userPool.phyAddrStart)) :
    Pager.mfreePage .user (userVaddrStart + 4096 * idx) 1 p = .ok ((), pageReturned p idx j) := by
  have haligned := h.aligned
  have hlow := h.low
  have htop := (h.fits .user).top
  have hstart : p.userPool.phyAddrStart + 4096 * (8 * p.userPool.poolBitmap.bmapBytesLen) ≤ 2 ^ 32 :=
    htop
  obtain ⟨f, hf⟩ : ∃ f, j * 4096 + p.userPool.phyAddrStart = 4096 * f :=
    ⟨j + p.userPool.phyAddrStart / 4096, by omega⟩
  have hpage := userPage_div idx
  have hzero : (userVaddrStart + 4096 * idx) % pageSize = 0 := Nat.add_mul_mod_self_left _ _ _
  have htrans : ∀ q : Pager, q.pde = p.pde → q.pte = p.pte →
      Pager.addrV2p (userVaddrStart + 4096 * idx) q = .ok (4096 * f, q) := by
    intro q hpde hpte
    have hlt : f < 2 ^ 20 := by omega
    rw [Pager.addrV2p, Prog.bind_of_run (Prog.get_run q), pdeIdx_page, hpage, hpde, if_pos hmapped.1,
      hpte, hentry, hf, frame_tableEntry hlt, hzero]
    rfl
  have hbelongs : p.FrameBelongs .user (4096 * f) := by
    refine ⟨?_, by omega⟩
    rw [show pageSize = 4096 from rfl]
    omega
  have hbit : sub32 (4096 * f) p.userPool.phyAddrStart / pageSize = j := by
    rw [sub32, show pageSize = 4096 from rfl]
    omega
  have hidx' : sub32 (userVaddrStart + 4096 * idx) p.userVaddr.vaddrStart / pageSize = idx := by
    rw [h.length] at hidx
    have hlt : idx < 753592 := hidx
    rw [h.start, sub32, show userVaddrStart = 0x8048000 from rfl, show pageSize = 4096 from rfl]
    omega
  have hloop : Pager.mfreeLoop .user 1 (userVaddrStart + 4096 * idx) p
      = .ok ((), (p.pfree (4096 * f)).pageTablePteRemove (userVaddrStart + 4096 * idx)) := by
    rw [Pager.mfreeLoop, Prog.bind_of_run (htrans p rfl rfl), Prog.bind_of_run (Prog.get_run p),
      ASSERT_pos hbelongs]
    rfl
  have hfree : (p.pfree (4096 * f)).pageTablePteRemove (userVaddrStart + 4096 * idx)
      = { p with
          userPool := { p.userPool with poolBitmap := p.userPool.poolBitmap.bitmapSet j false }
          pte := fun q => if q = userPage idx then p.pte q &&& ~~~ 1 else p.pte q } := by
    have hpte : (fun q => if q = userPage idx then p.pte (userPage idx) &&& ~~~ 1 else p.pte q)
        = fun q => if q = userPage idx then p.pte q &&& ~~~ 1 else p.pte q := by
      funext q
      by_cases hq : q = userPage idx
      · rw [if_pos hq, if_pos hq, hq]
      · rw [if_neg hq, if_neg hq]
    unfold Pager.pfree pfreePools
    simp only [if_pos (show p.userPool.phyAddrStart ≤ 4096 * f by omega), hbit]
    rw [← hpte, ← hpage]
    rfl
  rw [Pager.mfreePage, ASSERT_pos ⟨le_refl 1, hzero⟩, Prog.bind_of_run (Prog.lift_ok _ _),
    Prog.bind_of_run (htrans p rfl rfl), ASSERT_pos ⟨hbelongs.1, by omega⟩,
    Prog.bind_of_run (Prog.lift_ok _ _), Prog.bind_of_run (Prog.get_run p)]
  simp only [if_pos (show p.userPool.phyAddrStart ≤ 4096 * f by omega)]
  rw [Prog.bind_of_run hloop, hfree, Prog.modify_run]
  refine congrArg (fun s => Except.ok ((), s)) ?_
  unfold pageReturned Pager.withVaddrs vaddrRemove
  simp only [Pager.vaddrs, hidx']
  rfl

/-! ### As before -/

/-- Bit `i` is one of the `n` lowest that are free. -/
def AmongFree : Nat → Bitmap → Nat → Prop
  | 0, _, _ => False
  | n + 1, b, i => b.LowestFree i ∨ ∃ l, b.LowestFree l ∧ AmongFree n (b.bitmapSet l true) i

/-- After `n` pages have been taken and given back, everything is as before; where one of the
tables they are in was missing it may be there. -/
structure Restored (n : Nat) (p p' : Pager) : Prop extends SamePlaces p p' where
  marks : ∀ i, p'.userVaddr.vaddrBitmap.bitmapScanTest i
    = p.userVaddr.vaddrBitmap.bitmapScanTest i
  frames : ∀ i, p'.userPool.poolBitmap.bitmapScanTest i = p.userPool.poolBitmap.bitmapScanTest i
  mapped : ∀ q, p'.Mapped q ↔ p.Mapped q
  entries : ∀ q, p.Mapped q → p'.pte q = p.pte q
  tables : ∀ tables, (∀ i, AmongFree n p.userVaddr.vaddrBitmap i → userPage i / 1024 ∈ tables) →
    Room p.kernelPool.poolBitmap (absentTables p tables).card →
      Room p'.kernelPool.poolBitmap (absentTables p' tables).card

theorem Restored.refl (n : Nat) (p : Pager) : Restored n p p where
  toSamePlaces := .refl p
  marks _ := rfl
  frames _ := rfl
  mapped _ := Iff.rfl
  entries _ _ := rfl
  tables _ _ hroom := hroom

theorem Restored.withLock (n : Nat) (lock : Mutex) : Restored n p (p.withLock .user lock) where
  toSamePlaces := .withLock .user lock
  marks _ := rfl
  frames _ := rfl
  mapped _ := Iff.rfl
  entries _ _ := rfl
  tables _ _ hroom := hroom

theorem Restored.of_withLock {n : Nat} {lock : Mutex} (h : Restored n (p.withLock .user lock) p') :
    Restored n p p' where
  toSamePlaces := (SamePlaces.withLock .user lock).trans h.toSamePlaces
  marks := h.marks
  frames := h.frames
  mapped := h.mapped
  entries := h.entries
  tables := h.tables

theorem Restored.trans {n : Nat} (h : Restored n p p') (h' : Restored 0 p' p₂) :
    Restored n p p₂ where
  toSamePlaces := h.toSamePlaces.trans h'.toSamePlaces
  marks i := (h'.marks i).trans (h.marks i)
  frames i := (h'.frames i).trans (h.frames i)
  mapped q := (h'.mapped q).trans (h.mapped q)
  entries q hq := (h'.entries q ((h.mapped q).mpr hq)).trans (h.entries q hq)
  tables T hT hroom := h'.tables T (fun _ hi => hi.elim) (h.tables T hT hroom)

/-- A page is given back after the others. -/
theorem Lent.restored {n : Nat} {p₁ : Pager} (hl : Lends p idx j) (h : Lent p p₁ idx j)
    (hn : Restored n p₁ p₂) : Restored (n + 1) p (pageReturned p₂ idx j) where
  toSamePlaces := (h.toSamePlaces.trans hn.toSamePlaces).trans
    ⟨rfl, rfl, rfl, fun pf => by cases pf <;> rfl, fun pf => by cases pf <;> rfl⟩
  marks i := by
    show (p₂.userVaddr.vaddrBitmap.bitmapSet idx false).bitmapScanTest i = _
    rw [Bitmap.scanTest_set, hn.marks, h.marks, Bitmap.scanTest_set]
    split_ifs with hi
    · rw [hi, hl.address.free]
    · rfl
  frames i := by
    show (p₂.userPool.poolBitmap.bitmapSet j false).bitmapScanTest i = _
    rw [Bitmap.scanTest_set, hn.frames, h.frames, Bitmap.scanTest_set]
    split_ifs with hi
    · rw [hi, hl.frame.free]
    · rfl
  mapped q := by
    rw [mapped_returned, hn.mapped, h.mapped]
    constructor
    · exact fun hq => hq.1.resolve_right hq.2
    · refine fun hq => ⟨.inl hq, ?_⟩
      rintro rfl
      exact hl.unmapped hq
  entries q hq := by
    have hne : q ≠ userPage idx := by
      rintro rfl
      exact hl.unmapped hq
    have hthere := (h.mapped q).mpr (.inl hq)
    exact (if_neg hne).trans ((hn.entries q hthere).trans (h.others q hq))
  tables T hT hroom := by
    have hfirst := h.tables T (hT idx (.inl hl.address)) hroom
    refine hn.tables T (fun i hi => hT i (.inr ⟨idx, hl.address, ?_⟩)) hfirst
    rwa [h.marks] at hi

/-! ### A buffer -/

theorem poolRelease_held {pf : PoolFlag} (h : (p.pool pf).lock.holder = some t) :
    poolRelease t pf p = .ok ((), p.withLock pf (p.pool pf).lock.release) := by
  rw [poolRelease, Prog.bind_of_run (Prog.get_run p), ASSERT_pos h]
  rfl

theorem open_release (m : Mutex) (t : Nat) : (m.acquire t).release.Open t := by
  unfold Mutex.release Mutex.Open
  split_ifs
  · exact .inl rfl
  · exact .inr rfl

theorem AmongFree.succ : ∀ {n : Nat} {b : Bitmap} {i : Nat}, AmongFree n b i → AmongFree (n + 1) b i
  | 0, _, _, h => h.elim
  | _ + 1, _, _, .inl h => .inl h
  | _ + 1, _, _, .inr ⟨l, hl, h⟩ => .inr ⟨l, hl, h.succ⟩

theorem Restored.succ {n : Nat} (h : Restored n p p') : Restored (n + 1) p p' where
  toSamePlaces := h.toSamePlaces
  marks := h.marks
  frames := h.frames
  mapped := h.mapped
  entries := h.entries
  tables T hT := h.tables T fun i hi => hT i hi.succ

/-- What `sys_malloc` leaves of a buffer: it was on the list, or on a page of its own. -/
inductive Took (empty : Bool) (p p' : Pager) : Prop where
  | block (h : empty = false) (hsame : Restored 0 p p')
  | page (idx j : Nat) (h : empty = true) (hl : Lends p idx j) (hlent : Lent p p' idx j)

theorem Took.places {empty : Bool} : Took empty p p' → SamePlaces p p'
  | .block _ h => h.toSamePlaces
  | .page _ _ _ _ h => h.toSamePlaces

/-- The lock is taken and given back. -/
theorem poolRelease_acquired :
    poolRelease t .user (p.withLock .user ((p.pool .user).lock.acquire t))
      = .ok ((), p.withLock .user (p.userPool.lock.acquire t).release) :=
  poolRelease_held rfl

theorem takeBuffer_block : takeBuffer t false p
    = .ok (none, p.withLock .user (p.userPool.lock.acquire t).release) := by
  rw [takeBuffer, Prog.bind_of_run (poolAcquire_run t .user), if_neg Bool.false_ne_true,
    Prog.bind_of_run poolRelease_acquired]
  rfl

theorem takeBuffer_page (h : UserPages p) (hl : Lends p idx j) :
    ∃ p', takeBuffer t true p = .ok (some (userVaddrStart + 4096 * idx), p') ∧
      Lent p p' idx j := by
  set p₀ := p.withLock .user ((p.pool .user).lock.acquire t) with hp₀
  have hplaces : SamePlaces p p₀ := .withLock .user _
  have hl₀ : Lends p₀ idx j := ⟨hl.address, hl.below, hl.frame, hl.unmapped, hl.table⟩
  obtain ⟨p₁, hmalloc, hlock, hlent⟩ := mallocPage_lends (h.congr hplaces) hl₀
  have hheld : (p₁.pool .user).lock.holder = some t := by
    rw [show (p₁.pool .user).lock = p₀.userPool.lock from hlock]
    rfl
  refine ⟨p₁.withLock .user (p₁.pool .user).lock.release, ?_, ?_⟩
  · rw [takeBuffer, Prog.bind_of_run (poolAcquire_run t .user), if_pos rfl, ← hp₀,
      Prog.bind_of_run hmalloc]
    simp only
    rw [Prog.bind_of_run (poolRelease_held hheld)]
    rfl
  · exact ⟨(hplaces.trans hlent.toSamePlaces).trans (.withLock _ _), hlent.marks, hlent.frames,
      hlent.mapped, hlent.entry, hlent.others, hlent.tables⟩

theorem takeBuffer_refused (h : UserPages p) (hno : ∀ idx j, ¬ Lends p idx j) :
    ∃ e, takeBuffer t true p = .error e ∧ e.IsPanic := by
  set p₀ := p.withLock .user ((p.pool .user).lock.acquire t) with hp₀
  obtain ⟨e, hmalloc, he⟩ := mallocPage_refused (h.congr (.withLock .user _) : UserPages p₀)
    fun idx j hl => hno idx j ⟨hl.address, hl.below, hl.frame, hl.unmapped, hl.table⟩
  refine ⟨e, ?_, he⟩
  rw [takeBuffer, Prog.bind_of_run (poolAcquire_run t .user), if_pos rfl, ← hp₀,
    Prog.bind_of_error hmalloc]

theorem giveBuffer_block : giveBuffer t none p
    = .ok ((), p.withLock .user (p.userPool.lock.acquire t).release) := by
  rw [giveBuffer, Prog.bind_of_run (poolAcquire_run t .user)]
  exact poolRelease_acquired

theorem giveBuffer_page (h : UserPages p) (hidx : idx < 8 * p.userVaddr.vaddrBitmap.bmapBytesLen)
    (hj : j < 8 * p.userPool.poolBitmap.bmapBytesLen) (hmapped : p.Mapped (userPage idx))
    (hentry : p.pte (userPage idx) = tableEntry (j * 4096 + p.userPool.phyAddrStart)) :
    giveBuffer t (some (userVaddrStart + 4096 * idx)) p = .ok ((),
      (pageReturned p idx j).withLock .user (p.userPool.lock.acquire t).release) := by
  set p₀ := p.withLock .user ((p.pool .user).lock.acquire t) with hp₀
  have hfree := mfreePage_run (h.congr (.withLock .user _) : UserPages p₀) hidx hj hmapped hentry
  have hrelease : poolRelease t .user (pageReturned p₀ idx j) = _ := poolRelease_held rfl
  rw [giveBuffer, Prog.bind_of_run (poolAcquire_run t .user), ← hp₀]
  simp only
  rw [Prog.bind_of_run hfree, hrelease]
  rfl

/-! ### `file_read` with a buffer -/

variable {α : Type} {x : LoadM α} {s s' : Loader} {empty : Bool} {n : Nat}

theorem onPager_run {y : PagerM α} {a : α} (h : y s.pager = .ok (a, p)) :
    onPager y s = .ok (a, { s with pager := p }) := by
  rw [onPager, h]

theorem onPager_error {y : PagerM α} {e : Halt} (h : y s.pager = .error e) :
    onPager y s = .error e := by
  rw [onPager, h]

theorem onPager_spec {y : PagerM α} {a : α} (h : onPager y s = .ok (a, s')) :
    ∃ p, y s.pager = .ok (a, p) ∧ s' = { s with pager := p } := by
  unfold onPager at h
  split at h
  · cases h
    exact ⟨_, ‹_›, rfl⟩
  · cases h

/-- What a program with a buffer has done. -/
theorem withBuffer_spec {a : α} (h : withBuffer t empty x s = .ok (a, s')) :
    ∃ p₁ p₂ s₂, x { s with pager := p₁ } = .ok (a, s₂) ∧ s' = { s₂ with pager := p₂ } := by
  unfold withBuffer at h
  obtain ⟨page, s₁, htake, h⟩ := Prog.bind_run.mp h
  obtain ⟨r, s₂, hx, h⟩ := Prog.bind_run.mp h
  obtain ⟨u, s₃, hgive, h⟩ := Prog.bind_run.mp h
  obtain ⟨p₁, -, rfl⟩ := onPager_spec htake
  obtain ⟨p₂, -, rfl⟩ := onPager_spec hgive
  cases h
  exact ⟨p₁, p₂, s₂, hx, rfl⟩

/-- **The pages of a buffer**: where there is one to be had, or a block, the program runs, and
the buffer is gone again behind it. -/
theorem withBuffer_run (h : UserPages s.pager)
    (hl : empty = true → ∃ idx j, Lends s.pager idx j) :
    ∃ p₁, Took empty s.pager p₁ ∧
      (∀ e, x { s with pager := p₁ } = .error e → withBuffer t empty x s = .error e) ∧
      ∀ n a s₂, x { s with pager := p₁ } = .ok (a, s₂) → Restored n p₁ s₂.pager →
        ∃ p', withBuffer t empty x s = .ok (a, { s₂ with pager := p' }) ∧
          Restored (n + 1) s.pager p' ∧ p'.userPool.lock.Open t := by
  cases empty with
  | false =>
      set lock := (s.pager.userPool.lock.acquire t).release
      have hblock := onPager_run (s := s) (takeBuffer_block (t := t))
      refine ⟨s.pager.withLock .user lock, .block rfl (.withLock 0 lock), fun e hx => ?_,
        fun n a s₂ hx hn => ?_⟩
      · rw [withBuffer, Prog.bind_of_run hblock, Prog.bind_of_error hx]
      · refine ⟨s₂.pager.withLock .user (s₂.pager.userPool.lock.acquire t).release, ?_, ?_,
          open_release s₂.pager.userPool.lock t⟩
        · rw [withBuffer, Prog.bind_of_run hblock, Prog.bind_of_run hx,
            Prog.bind_of_run (onPager_run giveBuffer_block)]
          rfl
        · exact hn.of_withLock.succ.trans (.withLock 0 _)
  | true =>
      obtain ⟨idx, j, hl⟩ := hl rfl
      obtain ⟨p₁, htake, hlent⟩ := takeBuffer_page (t := t) h hl
      have hpage := onPager_run htake
      refine ⟨p₁, .page idx j rfl hl hlent, fun e hx => ?_, fun n a s₂ hx hn => ?_⟩
      · rw [withBuffer, Prog.bind_of_run hpage, Prog.bind_of_error hx]
      · have hplaces := hlent.toSamePlaces.trans hn.toSamePlaces
        have hthere := (hlent.mapped _).mpr (.inr rfl)
        have hidx : idx < 8 * s₂.pager.userVaddr.vaddrBitmap.bmapBytesLen := by
          rw [hplaces.length]
          exact hl.address.bit
        have hj : j < 8 * s₂.pager.userPool.poolBitmap.bmapBytesLen := by
          rw [show s₂.pager.userPool.poolBitmap.bmapBytesLen = _ from hplaces.size .user]
          exact hl.frame.bit
        have hentry : s₂.pager.pte (userPage idx)
            = tableEntry (j * 4096 + s₂.pager.userPool.phyAddrStart) := by
          rw [hn.entries _ hthere, hlent.entry,
            show s₂.pager.userPool.phyAddrStart = _ from hplaces.pool .user]
          rfl
        have hgive := giveBuffer_page (t := t) (h.congr hplaces) hidx hj ((hn.mapped _).mpr hthere)
          hentry
        refine ⟨(pageReturned s₂.pager idx j).withLock .user
          (s₂.pager.userPool.lock.acquire t).release, ?_, ?_,
          open_release s₂.pager.userPool.lock t⟩
        · rw [withBuffer, Prog.bind_of_run hpage, Prog.bind_of_run hx,
            Prog.bind_of_run (onPager_run hgive)]
          rfl
        · exact (hlent.restored hl hn).trans (.withLock 0 _)

/-- Where there is none the kernel stops. -/
theorem withBuffer_refused (h : UserPages s.pager) (hno : ∀ idx j, ¬ Lends s.pager idx j) :
    ∃ e, withBuffer t true x s = .error e ∧ e.IsPanic := by
  obtain ⟨e, htake, he⟩ := takeBuffer_refused (t := t) h hno
  exact ⟨e, Prog.bind_of_error (onPager_error htake), he⟩

/-- The program keeps the pages, and it is stopped by an `ASSERT` or not at all. -/
theorem wp_withBuffer {Q : α → Loader → Prop} (h : UserPages s.pager)
    (hQ : ∀ a s p, Q a s → Q a { s with pager := p })
    (hx : ∀ p₁, UserPages p₁ → Prog.wp Halt.IsPanic x
      (fun a s₂ => Restored n p₁ s₂.pager ∧ Q a s₂) { s with pager := p₁ }) :
    Prog.wp Halt.IsPanic (withBuffer t empty x)
      (fun a s' => Restored (n + 1) s.pager s'.pager ∧ Q a s') s := by
  by_cases hl : empty = true → ∃ idx j, Lends s.pager idx j
  · obtain ⟨p₁, htook, herror, hok⟩ := withBuffer_run (t := t) (x := x) h hl
    have hwp := hx p₁ (h.congr htook.places)
    cases hrun : x { s with pager := p₁ } with
    | error e =>
        unfold Prog.wp
        rw [herror e hrun]
        exact hwp.of_error hrun
    | ok r =>
        obtain ⟨hn, hq⟩ := hwp.of_run hrun
        obtain ⟨p', hwith, hrestored, -⟩ := hok n r.1 r.2 hrun hn
        exact Prog.wp_of_run hwith ⟨hrestored, hQ _ _ _ hq⟩
  · obtain ⟨rfl, hno⟩ := Classical.not_imp.mp hl
    obtain ⟨e, hstop, he⟩ := withBuffer_refused (t := t) (x := x) h
      fun idx j hl => hno ⟨idx, j, hl⟩
    unfold Prog.wp
    rw [hstop]
    exact he

end Exec

end ZyOs
