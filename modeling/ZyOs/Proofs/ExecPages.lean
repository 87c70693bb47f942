/-
Which programs that lie in user space are loaded, and onto which pages.

As long as there are frames and tables, `load` of a complete file stops in three places only: at
the first page of user space when it is not mapped yet, since `get_a_page` takes bit 0 for a
mistake, and at a header or a segment that ends where `file_read` has no blocks.  When it returns,
the pages of the segments are mapped, but a segment without bytes has a page as well.
-/
import ZyOs.Proofs.ExecFrames

namespace ZyOs

open Library

namespace Exec

/-- `USER_STACK3_VADDR` -/
def userStack3Vaddr : Nat := 0xc0000000 - 0x1000

/-- The pages `segment_load` sees to for a header. -/
def ProgHeader.pages (ph : ProgHeader) : Finset Nat :=
  Finset.Ico (ph.pVaddr / pageSize) (ph.pVaddr / pageSize + occupyPages ph.pVaddr ph.pFilesz)

namespace OpenFile

variable (f : OpenFile)

/-- The pages `load` sees to. -/
def needs : Finset Nat :=
  ((Finset.range f.elf.ePhnum).filter fun i => (f.header i).pType = ptLoad).biUnion fun i =>
    (f.header i).pages

/-- There are bytes of a segment on the page. -/
def Covered (k : Nat) : Prop :=
  ∃ i < f.elf.ePhnum, ∃ a, (f.header i).Covers a ∧ a / pageSize = k

/-- The segments lie in front of the stack. -/
def InRange : Prop :=
  ∀ i < f.elf.ePhnum, (f.header i).pType = ptLoad → userVaddrStart ≤ (f.header i).pVaddr ∧
    (f.header i).pVaddr + (f.header i).pFilesz ≤ userStack3Vaddr

instance : Decidable f.InRange := inferInstanceAs (Decidable (∀ i < f.elf.ePhnum, _ → _))

/-- They do not lie on a heap with these pages. -/
def OffHeap (heap : Nat → Bool) : Prop := ∀ k, f.Covered k → heap k = false

end OpenFile

/-! ### The pages of a segment -/

variable {f : OpenFile} {s s' : Loader} {t count : Nat} {spare need : Finset Nat}
  {resident : Nat → Bool} {buf : Mem}

theorem mapPages_mapped {n a : Nat} (hm : s.pager.Mapped (a / pageSize)) :
    mapPages t (n + 1) a s = mapPages t n ((a + pageSize) % 2 ^ 32) s := by
  rw [Pager.Mapped, ← pdeIdx_page] at hm
  rw [mapPages, Prog.bind_of_run (Prog.get_run s), if_pos hm]

theorem mapPages_missing {n a : Nat} (hm : ¬ s.pager.Mapped (a / pageSize))
    (hlt : a < 0xc0000000) : mapPages t (n + 1) a s = (do
      match ← onPager (getAPageWith Bitmap.bitmapScan t .user a) with
      | none => return false
      | some _ => mapPages t n ((a + pageSize) % 2 ^ 32) : LoadM Bool) s := by
  rw [Pager.Mapped, ← pdeIdx_page] at hm
  rw [mapPages, Prog.bind_of_run (Prog.get_run s), if_neg hm]
  exact congrFun (if_neg (Nat.not_le.mpr hlt)) s

/-- The pages that are missing are mapped one after the other. -/
theorem mapPages_frames (t : Nat) : ∀ n a s, a % pageSize = 0 → userVaddrStart ≤ a →
    a + pageSize * n ≤ 0xc0000000 → UserTask resident s.pager → Supply t spare need s.pager →
    Finset.Ico (a / pageSize) (a / pageSize + n) ⊆ need →
    (firstPage ∈ Finset.Ico (a / pageSize) (a / pageSize + n) → s.pager.Mapped firstPage) →
    ∃ p, mapPages t n a s = .ok (true, { s with pager := p }) ∧ UserTask resident p ∧
      Supply t spare need p ∧ ∀ q, p.Mapped q ↔
        s.pager.Mapped q ∨ q ∈ Finset.Ico (a / pageSize) (a / pageSize + n) := by
  intro n
  induction n with
  | zero =>
      intro a s _ _ _ htask hsupply _ _
      refine ⟨s.pager, rfl, htask, hsupply, fun q => ?_⟩
      rw [Nat.add_zero, Finset.Ico_self]
      exact (or_iff_left (Finset.notMem_empty q)).symm
  | succ n ih =>
      intro a s haligned hlow hhigh htask hsupply hneed hfirst
      have hpage : (a + pageSize) % 2 ^ 32 = a + pageSize := by
        rw [show pageSize = 4096 from rfl] at *
        omega
      have hdiv : (a + pageSize) / pageSize = a / pageSize + 1 := Nat.add_div_right a (by decide)
      have hrange : Finset.Ico (a / pageSize) (a / pageSize + (n + 1))
          = insert (a / pageSize) (Finset.Ico (a / pageSize + 1) (a / pageSize + 1 + n)) := by
        ext q
        rw [Finset.mem_insert, Finset.mem_Ico, Finset.mem_Ico]
        omega
      rw [hrange, Finset.insert_subset_iff] at hneed
      rw [hrange, Finset.mem_insert] at hfirst
      -- the other pages, once this one is mapped
      have hrest : ∀ p₁, UserTask resident p₁ → Supply t spare need p₁ →
          (∀ q, p₁.Mapped q ↔ s.pager.Mapped q ∨ q = a / pageSize) →
          ∃ p, mapPages t n (a + pageSize) { s with pager := p₁ }
              = .ok (true, { s with pager := p }) ∧ UserTask resident p ∧ Supply t spare need p ∧
            ∀ q, p.Mapped q ↔ s.pager.Mapped q ∨ q ∈ insert (a / pageSize)
              (Finset.Ico (a / pageSize + 1) (a / pageSize + 1 + n)) := by
        intro p₁ htask₁ hsupply₁ hmapped₁
        have hih := ih (a + pageSize) { s with pager := p₁ }
          (by rw [Nat.add_mod_right]; exact haligned) (by omega)
          (by rw [Nat.mul_succ] at hhigh; omega) htask₁ hsupply₁ (by rw [hdiv]; exact hneed.2)
          (by rw [hdiv]; exact fun hq => (hmapped₁ _).mpr (.inl (hfirst (.inr hq))))
        rw [hdiv] at hih
        obtain ⟨p, hrun, htask', hsupply', hmapped⟩ := hih
        refine ⟨p, hrun, htask', hsupply', fun q => ?_⟩
        rw [hmapped, hmapped₁, Finset.mem_insert, or_assoc]
      rw [hrange]
      by_cases hm : s.pager.Mapped (a / pageSize)
      · rw [mapPages_mapped hm, hpage]
        exact hrest s.pager htask hsupply fun q =>
          (or_iff_left_of_imp fun hq => hq ▸ hm).symm
      · have hin : InUser a := by
          refine ⟨hlow, ?_⟩
          rw [show pageSize = 4096 from rfl] at hhigh
          omega
        have hlater : firstPage < a / pageSize := by
          refine lt_of_le_of_ne (Nat.div_le_div_right hlow) fun heq => hm ?_
          rw [← heq]
          exact hfirst (.inl heq)
        obtain ⟨p₁, hrun, hsupply₁, hmapped⟩ :=
          getAPage_missing htask.toUserPages hsupply hin hlater hneed.1 hm
        have htask₁ := htask.grown ((wp_getAPage t a s.pager).of_run hrun)
        rw [mapPages_missing hm hin.2, Prog.bind_of_run (onPager_run hrun), hpage]
        exact hrest p₁ htask₁ hsupply₁ hmapped

/-- The first page of user space is not given out. -/
theorem mapPages_stops {n : Nat} (htask : UserTask resident s.pager)
    (hm : ¬ s.pager.Mapped firstPage) :
    ∃ e, mapPages t (n + 1) userVaddrStart s = .error e := by
  have hlow := @getAPageWith_low Bitmap.bitmapScan s.pager .user t userVaddrStart
    (by rw [htask.isUser]; rfl) (by
      show ¬ 0 < sub32 userVaddrStart s.pager.userVaddr.vaddrStart / pageSize
      rw [htask.start]
      decide)
  exact ⟨_, (mapPages_missing hm (by decide)).trans (Prog.bind_of_error (onPager_error hlow))⟩

/-! ### Reads -/

theorem Supply.restored {p p' : Pager} (h : Supply t spare need p) (hr : Restored 2 p p')
    (hlock : p'.userPool.lock.Open t) : Supply t spare need p' :=
  ⟨hlock, h.two, h.away, h.stock.restored hr h.two⟩

/-- A read keeps what there is for the program. -/
theorem fileRead_supply (htask : UserTask resident s.pager) (hsupply : Supply t spare need s.pager)
    (hpos : s.fdPos ≤ f.iSize) (hlimit : ReadLimit f.iSize s.fdPos count) :
    ∃ p, fileRead f t buf count s = .ok ((f.readCount s.fdPos count,
          buf.splice 0 (f.bytes.drop s.fdPos) (f.got s.fdPos count)),
        { s with fdPos := s.fdPos + f.got s.fdPos count, pager := p }) ∧
      UserTask resident p ∧ Supply t spare need p ∧ ∀ q, p.Mapped q ↔ s.pager.Mapped q := by
  obtain ⟨p, hrun, hrestored, hlock⟩ := @fileRead_stock _ _ t f s count buf htask.toUserPages
    hsupply.lock hsupply.stock hsupply.two hpos hlimit
  exact ⟨p, hrun, htask.restored hrestored, hsupply.restored hrestored hlock, hrestored.mapped⟩

theorem fileRead_header {n : Nat} (htask : UserTask resident s.pager)
    (hsupply : Supply t spare need s.pager) (h1 : 1 ≤ n) (hle : s.fdPos + n ≤ f.iSize)
    (h : s.fdPos + n < 71168) :
    ∃ p, fileRead f t buf n s = .ok (((n : Int), buf.splice 0 (f.bytes.drop s.fdPos) n),
        { s with fdPos := s.fdPos + n, pager := p }) ∧
      UserTask resident p ∧ Supply t spare need p ∧ ∀ q, p.Mapped q ↔ s.pager.Mapped q := by
  obtain ⟨hgot, hcount⟩ := OpenFile.got_whole h1 hle
  have hpos : s.fdPos ≤ f.iSize := by omega
  have hlimit : ReadLimit f.iSize s.fdPos n := ⟨by omega, .inl (by omega)⟩
  have hread := @fileRead_supply f s t n spare need resident buf htask hsupply hpos hlimit
  rwa [hcount, hgot] at hread

/-- Out of the limit it is stopped. -/
theorem fileRead_over (hpos : s.fdPos ≤ f.iSize) (hcount : count < 2 ^ 32)
    (hlimit : ¬ ReadLimit f.iSize s.fdPos count) : ∃ e, fileRead f t buf count s = .error e := by
  cases hrun : fileRead f t buf count s with
  | error e => exact ⟨e, rfl⟩
  | ok r => exact absurd (fileRead_limit hpos hcount hrun) hlimit

/-! ### A segment -/

section Segment

variable {ph : ProgHeader}

/-- A segment in front of the stack has its pages in front of the kernel. -/
theorem occupyPages_below (hrange : ph.pVaddr + ph.pFilesz ≤ userStack3Vaddr) :
    ph.pVaddr / pageSize * pageSize + pageSize * occupyPages ph.pVaddr ph.pFilesz ≤ 0xc0000000 := by
  unfold occupyPages
  rw [show userStack3Vaddr = 0xbffff000 from rfl] at hrange
  rw [show pageSize = 4096 from rfl]
  simp only
  split_ifs <;> omega

theorem mem_pages {k : Nat} : k ∈ ph.pages ↔
    ph.pVaddr / pageSize ≤ k ∧ k < ph.pVaddr / pageSize + occupyPages ph.pVaddr ph.pFilesz :=
  Finset.mem_Ico

/-- The pages of a segment that has bytes are the pages of its bytes. -/
theorem mem_pages_iff (hrange : ph.pVaddr + ph.pFilesz ≤ userStack3Vaddr) (hne : ph.pFilesz ≠ 0)
    {k : Nat} : k ∈ ph.pages ↔
      ∃ a, ph.pVaddr ≤ a ∧ a < ph.pVaddr + ph.pFilesz ∧ a / pageSize = k := by
  rw [mem_pages]
  unfold occupyPages
  rw [show userStack3Vaddr = 0xbffff000 from rfl] at hrange
  rw [show pageSize = 4096 from rfl]
  simp only
  constructor
  · intro hk
    refine ⟨max ph.pVaddr (4096 * k), le_max_left _ _, ?_, ?_⟩
    · split_ifs at hk <;> omega
    · split_ifs at hk <;> omega
  · rintro ⟨a, hlow, hhigh, rfl⟩
    split_ifs <;> omega

/-- One without bytes has a page all the same. -/
theorem mem_pages_empty (h0 : ph.pFilesz = 0) {k : Nat} :
    k ∈ ph.pages ↔ k = ph.pVaddr / pageSize := by
  have hone : occupyPages ph.pVaddr ph.pFilesz = 1 := by
    unfold occupyPages
    rw [h0]
    exact if_neg (Nat.not_lt_zero _)
  rw [mem_pages, hone]
  omega

/-- What `file_read` has blocks for. -/
theorem readLimit_iff {pos : Nat} (hlt : pos < 71168) (hfile : ph.pOffset + ph.pFilesz ≤ f.iSize) :
    ReadLimit f.iSize (f.seekTo pos ph.pOffset) ph.pFilesz ↔
      (ph.pOffset < f.iSize → ph.pOffset + ph.pFilesz < 71168) := by
  have hle := f.size_le
  unfold ReadLimit OpenFile.seekTo
  split_ifs with hin <;> omega

/-- Where `segment_load` begins, and where it ends. -/
theorem segment_range (hlow : userVaddrStart ≤ ph.pVaddr) :
    ph.pVaddr / pageSize * pageSize % pageSize = 0 ∧
      userVaddrStart ≤ ph.pVaddr / pageSize * pageSize ∧
      ph.pVaddr / pageSize * pageSize / pageSize = ph.pVaddr / pageSize := by
  rw [show userVaddrStart = 0x8048000 from rfl] at *
  rw [show pageSize = 4096 from rfl]
  omega

/-- What is read of a segment is on its pages. -/
theorem onOwnPages_whole {heap : Nat → Bool} {n : Nat}
    (hrange : ph.pVaddr + ph.pFilesz ≤ userStack3Vaddr) (hn : n ≤ ph.pFilesz)
    (hheap : ∀ k < ph.pFilesz, heap ((ph.pVaddr + k) / pageSize) = false) :
    OnOwnPages heap ph.pVaddr ph.pFilesz n := by
  refine ⟨?_, fun i hi => hheap i (by omega)⟩
  unfold occupyPages
  rw [show userStack3Vaddr = 0xbffff000 from rfl] at hrange
  rw [show pageSize = 4096 from rfl]
  simp only
  split_ifs <;> omega

variable (hfile : ph.pOffset + ph.pFilesz ≤ f.iSize) (hlow : userVaddrStart ≤ ph.pVaddr)
  (hhigh : ph.pVaddr + ph.pFilesz ≤ userStack3Vaddr) (htask : UserTask resident s.pager)
  (hsupply : Supply t spare need s.pager) (hneed : ph.pages ⊆ need)
include hfile hlow hhigh htask hsupply hneed

/-- Once the pages are there it is all about the read. -/
theorem segmentLoad_read (hfirst : firstPage ∈ ph.pages → s.pager.Mapped firstPage) :
    ∃ p, UserTask resident p ∧ Supply t spare need p ∧
      (∀ q, p.Mapped q ↔ s.pager.Mapped q ∨ q ∈ ph.pages) ∧
      segmentLoad f t ph.pOffset ph.pFilesz ph.pVaddr s = (do
        let (n, buf) ← fileRead f t (s.mem.drop ph.pVaddr) ph.pFilesz
        if 0 < n ∧ 0xc0000000 < ph.pVaddr + n then
          Prog.lift (.error (.fault "segment_load"))
        else
          putSegment ph.pVaddr ph.pFilesz n.toNat buf : LoadM Bool)
        { s with fdPos := f.seekTo s.fdPos ph.pOffset, pager := p } := by
  have hsize := f.size_le
  obtain ⟨haligned, hbegin, hpage⟩ := segment_range hlow
  have hmap := mapPages_frames t _ _ s haligned hbegin (occupyPages_below hhigh) htask hsupply
    (by rw [hpage]; exact hneed) (by rw [hpage]; exact hfirst)
  rw [hpage] at hmap
  obtain ⟨p, hmap, htask₁, hsupply₁, hmapped⟩ := hmap
  obtain ⟨r, hseek⟩ := @sysLseek_run f { s with pager := p } ph.pOffset (by omega)
  have haddr : ph.pVaddr ≠ 0 := by
    intro h0
    rw [h0] at hlow
    exact absurd hlow (by decide)
  refine ⟨p, htask₁, hsupply₁, hmapped, ?_⟩
  unfold segmentLoad
  rw [Prog.bind_of_run hmap, if_pos rfl, Prog.bind_of_run hseek, Prog.bind_of_run (Prog.get_run _),
    sysRead, ASSERT_pos haddr]
  rfl

variable (hpos : s.fdPos ≤ f.iSize) (hlt : s.fdPos < 71168)
include hpos hlt

theorem segmentLoad_frames (hfirst : firstPage ∈ ph.pages → s.pager.Mapped firstPage)
    (hread : ph.pOffset < f.iSize → ph.pOffset + ph.pFilesz < 71168)
    (hheap : ∀ k < ph.pFilesz, s.heap.pages ((ph.pVaddr + k) / pageSize) = false) :
    ∃ s', segmentLoad f t ph.pOffset ph.pFilesz ph.pVaddr s = .ok (true, s') ∧
      s'.heap = s.heap ∧ UserTask resident s'.pager ∧ Supply t spare need s'.pager ∧
      ∀ q, s'.pager.Mapped q ↔ s.pager.Mapped q ∨ q ∈ ph.pages := by
  obtain ⟨p, htask₁, hsupply₁, hmapped, hsegment⟩ :=
    segmentLoad_read hfile hlow hhigh htask hsupply hneed hfirst
  let s₁ : Loader := { s with fdPos := f.seekTo s.fdPos ph.pOffset, pager := p }
  have hq : s₁.fdPos ≤ f.iSize := f.seekTo_le hpos _
  have hlimit : ReadLimit f.iSize s₁.fdPos ph.pFilesz := (readLimit_iff hlt hfile).mpr hread
  have htask₂ : UserTask resident s₁.pager := htask₁
  obtain ⟨p₂, hrun, htask₂, hsupply₂, hmapped₂⟩ :=
    @fileRead_supply f s₁ t _ spare need resident (s.mem.drop ph.pVaddr) htask₂ hsupply₁ hq hlimit
  have hgot := f.readCount_toNat s₁.fdPos ph.pFilesz
  have hle : f.got s₁.fdPos ph.pFilesz ≤ ph.pFilesz := Nat.min_le_left _ _
  rw [hsegment, Prog.bind_of_run hrun]
  simp only
  rw [if_neg (by rw [show userStack3Vaddr = 0xbffff000 from rfl] at hhigh; omega), hgot]
  refine ⟨_, putSegment_run (onOwnPages_whole hhigh hle hheap), rfl, htask₂, hsupply₂,
    fun q => ?_⟩
  exact (hmapped₂ q).trans (hmapped q)

/-- It is stopped at the first page, or behind the last block. -/
theorem segmentLoad_stops (h : ¬ ((firstPage ∈ ph.pages → s.pager.Mapped firstPage) ∧
      (ph.pOffset < f.iSize → ph.pOffset + ph.pFilesz < 71168))) :
    ∃ e, segmentLoad f t ph.pOffset ph.pFilesz ph.pVaddr s = .error e := by
  have hsize := f.size_le
  by_cases hfirst : firstPage ∈ ph.pages → s.pager.Mapped firstPage
  · obtain ⟨p, -, -, -, hsegment⟩ :=
      segmentLoad_read hfile hlow hhigh htask hsupply hneed hfirst
    let s₁ : Loader := { s with fdPos := f.seekTo s.fdPos ph.pOffset, pager := p }
    have hq : s₁.fdPos ≤ f.iSize := f.seekTo_le hpos _
    have hlimit : ¬ ReadLimit f.iSize s₁.fdPos ph.pFilesz := by
      rw [readLimit_iff hlt hfile]
      exact fun hread => h ⟨hfirst, hread⟩
    obtain ⟨e, hstop⟩ :=
      @fileRead_over f s₁ t _ (s.mem.drop ph.pVaddr) hq (by omega) hlimit
    rw [hsegment]
    exact ⟨e, Prog.bind_of_error hstop⟩
  · obtain ⟨hmem, hm⟩ := Classical.not_imp.mp hfirst
    -- the pages begin with the first one there is
    have hstart : ph.pVaddr / pageSize * pageSize = userVaddrStart := by
      have hmem := (mem_pages.mp hmem).1
      unfold firstPage at hmem
      rw [show userVaddrStart = 0x8048000 from rfl] at *
      rw [show pageSize = 4096 from rfl] at *
      omega
    obtain ⟨n, hn⟩ := Nat.exists_eq_succ_of_ne_zero (occupyPages_pos ph.pVaddr ph.pFilesz).ne'
    obtain ⟨e, hstop⟩ := @mapPages_stops s t resident n htask hm
    unfold segmentLoad
    rw [hstart, hn]
    exact ⟨e, Prog.bind_of_error hstop⟩

end Segment

/-! ### All headers -/

namespace OpenFile

/-- Nothing stops the kernel at header `i`: the header and the segment end where `file_read` has
blocks, and the first page of user space need not be given out. -/
structure HeaderLoads (f : OpenFile) (p : Pager) (i : Nat) : Prop where
  header : f.elf.ePhoff + 32 * (i + 1) < 71168
  segment : (f.header i).pType = ptLoad → (f.header i).pOffset < f.iSize →
    (f.header i).pOffset + (f.header i).pFilesz < 71168
  first : (f.header i).pType = ptLoad → firstPage ∈ (f.header i).pages → p.Mapped firstPage

/-- `load` gets past header `i` and those behind it. -/
def LoadsFrom (f : OpenFile) (p : Pager) (i : Nat) : Prop :=
  ∀ j, i ≤ j → j < f.elf.ePhnum → f.HeaderLoads p j

/-- Page `k` is one of a segment from header `i` on. -/
def NeedsFrom (f : OpenFile) (i k : Nat) : Prop :=
  ∃ j, i ≤ j ∧ j < f.elf.ePhnum ∧ (f.header j).pType = ptLoad ∧ k ∈ (f.header j).pages

theorem mem_needs {k : Nat} : k ∈ f.needs ↔ f.NeedsFrom 0 k := by
  unfold needs NeedsFrom
  simp only [Finset.mem_biUnion, Finset.mem_filter, Finset.mem_range, Nat.zero_le, true_and,
    and_assoc]

theorem pages_subset {i : Nat} (hi : i < f.elf.ePhnum) (hload : (f.header i).pType = ptLoad) :
    (f.header i).pages ⊆ f.needs := fun _ hk =>
  mem_needs.mpr ⟨i, Nat.zero_le i, hi, hload, hk⟩

theorem loadsFrom_succ {p : Pager} {i : Nat} (hi : i < f.elf.ePhnum) :
    f.LoadsFrom p i ↔ f.HeaderLoads p i ∧ f.LoadsFrom p (i + 1) := by
  constructor
  · exact fun h => ⟨h i (le_refl i) hi, fun j hj => h j (by omega)⟩
  · rintro ⟨hfirst, hrest⟩ j hij hj
    rcases Nat.lt_or_eq_of_le hij with hlt | rfl
    · exact hrest j hlt hj
    · exact hfirst

theorem needsFrom_succ {i k : Nat} (hi : i < f.elf.ePhnum) : f.NeedsFrom i k ↔
    ((f.header i).pType = ptLoad ∧ k ∈ (f.header i).pages) ∨ f.NeedsFrom (i + 1) k := by
  constructor
  · rintro ⟨j, hij, hj, hpage⟩
    rcases Nat.lt_or_eq_of_le hij with hlt | rfl
    · exact .inr ⟨j, hlt, hj, hpage⟩
    · exact .inl hpage
  · rintro (hpage | ⟨j, hij, hj, hpage⟩)
    · exact ⟨i, le_refl i, hi, hpage⟩
    · exact ⟨j, by omega, hj, hpage⟩

/-- It does not matter what else is mapped. -/
theorem loadsFrom_congr {p p' : Pager} {i : Nat} (h : p'.Mapped firstPage ↔ p.Mapped firstPage) :
    f.LoadsFrom p' i ↔ f.LoadsFrom p i := by
  have hheader : ∀ j, f.HeaderLoads p' j ↔ f.HeaderLoads p j := fun j =>
    ⟨fun hj => ⟨hj.header, hj.segment, fun hl hm => h.mp (hj.first hl hm)⟩,
      fun hj => ⟨hj.header, hj.segment, fun hl hm => h.mpr (hj.first hl hm)⟩⟩
  unfold LoadsFrom
  simp only [hheader]

end OpenFile

section Header

variable {i left : Nat}

theorem seekTo_header (hcomplete : f.Complete) (hi : i < f.elf.ePhnum) (pos : Nat) :
    f.seekTo pos (f.elf.ePhoff + 32 * i) = f.elf.ePhoff + 32 * i := by
  have hheader := hcomplete.header i hi
  exact if_pos (by omega)

/-- A header of a complete file is read. -/
theorem loadLoop_complete (left : Nat) (hcomplete : f.Complete) (hi : i < f.elf.ePhnum)
    (hlimit : f.elf.ePhoff + 32 * (i + 1) < 71168) (htask : UserTask resident s.pager)
    (hsupply : Supply t spare need s.pager) :
    ∃ p, UserTask resident p ∧ Supply t spare need p ∧ (∀ q, p.Mapped q ↔ s.pager.Mapped q) ∧
      loadLoop f t (left + 1) (f.elf.ePhoff + 32 * i) s = (do
        if (f.header i).pType = ptLoad then
          if ← segmentLoad f t (f.header i).pOffset (f.header i).pFilesz (f.header i).pVaddr then
            loadLoop f t left (f.elf.ePhoff + 32 * (i + 1))
          else
            return false
        else
          loadLoop f t left (f.elf.ePhoff + 32 * (i + 1)) : LoadM Bool)
        { s with fdPos := f.elf.ePhoff + 32 * i + 32, pager := p } := by
  have hheader := hcomplete.header i hi
  have hp := seekTo_header hcomplete hi s.fdPos
  have hnext : (f.elf.ePhoff + 32 * i + 32) % 2 ^ 32 = f.elf.ePhoff + 32 * (i + 1) := by omega
  let s₁ : Loader := { s with fdPos := f.seekTo s.fdPos (f.elf.ePhoff + 32 * i) }
  have htask₁ : UserTask resident s₁.pager := htask
  have hpos₁ : s₁.fdPos = f.elf.ePhoff + 32 * i := hp
  obtain ⟨p, hrun, htask', hsupply', hmapped⟩ := @fileRead_header f s₁ t spare need resident
    (fun _ => 0) 32 htask₁ hsupply (by decide) (by omega) (by omega)
  refine ⟨p, htask', hsupply', hmapped, ?_⟩
  rw [loadLoop_header (by omega) hrun]
  simp only [hp, hpos₁, hnext]
  rfl

/-- A header that ends behind the last block is not. -/
theorem loadLoop_behind (hcomplete : f.Complete) (hi : i < f.elf.ePhnum)
    (hlimit : ¬ f.elf.ePhoff + 32 * (i + 1) < 71168) :
    ∃ e, loadLoop f t (left + 1) (f.elf.ePhoff + 32 * i) s = .error e := by
  have hsize := f.size_le
  have hheader := hcomplete.header i hi
  obtain ⟨r, hseek⟩ := @sysLseek_run f s (f.elf.ePhoff + 32 * i) (by omega)
  rw [seekTo_header hcomplete hi] at hseek
  let s₁ : Loader := { s with fdPos := f.elf.ePhoff + 32 * i }
  have hpos₁ : s₁.fdPos ≤ f.iSize := by
    show f.elf.ePhoff + 32 * i ≤ f.iSize
    omega
  have hover : ¬ ReadLimit f.iSize s₁.fdPos 32 := by
    show ¬ ReadLimit f.iSize (f.elf.ePhoff + 32 * i) 32
    unfold ReadLimit
    omega
  obtain ⟨e, hstop⟩ := @fileRead_over f s₁ t 32 (fun _ => 0) hpos₁ (by decide) hover
  rw [loadLoop, Prog.bind_of_run hseek, Prog.bind_of_error hstop]
  exact ⟨_, rfl⟩

end Header

/-- The addresses of a segment off the heap. -/
theorem OpenFile.OffHeap.segment {heap : Nat → Bool} {i : Nat} (h : f.OffHeap heap)
    (hi : i < f.elf.ePhnum) (hload : (f.header i).pType = ptLoad) :
    ∀ k < (f.header i).pFilesz, heap (((f.header i).pVaddr + k) / pageSize) = false :=
  fun _ _ => h _ ⟨i, hi, _, ⟨hload, Nat.le_add_right _ _, by omega⟩, rfl⟩

/-- **The loop over the headers of a complete program** goes through and has the pages mapped, or
it stops the kernel. -/
theorem loadLoop_outcome (t : Nat) (hcomplete : f.Complete) (hrange : f.InRange) :
    ∀ left i s, i + left = f.elf.ePhnum → UserTask resident s.pager →
    Supply t spare f.needs s.pager → f.OffHeap s.heap.pages →
    (f.LoadsFrom s.pager i ∧ ∃ s', loadLoop f t left (f.elf.ePhoff + 32 * i) s = .ok (true, s') ∧
      ∀ k, s'.pager.Mapped k ↔ s.pager.Mapped k ∨ f.NeedsFrom i k) ∨
    (¬ f.LoadsFrom s.pager i ∧ ∃ e, loadLoop f t left (f.elf.ePhoff + 32 * i) s = .error e) := by
  intro left
  induction left with
  | zero =>
      intro i s hi _ _ _
      refine .inl ⟨fun j hij hj => absurd hj (by omega), s, rfl, fun k => ?_⟩
      refine (or_iff_left ?_).symm
      rintro ⟨j, hij, hj, -⟩
      omega
  | succ left ih =>
      intro i s hi htask hsupply hheap
      have hlt : i < f.elf.ePhnum := by omega
      rw [OpenFile.loadsFrom_succ hlt]
      simp only [OpenFile.needsFrom_succ hlt]
      by_cases hlimit : f.elf.ePhoff + 32 * (i + 1) < 71168
      · obtain ⟨p, htask, hsupply, hsame, hheader⟩ :=
          loadLoop_complete left hcomplete hlt hlimit htask hsupply
        let s₁ : Loader := { s with fdPos := f.elf.ePhoff + 32 * i + 32, pager := p }
        have htask₁ : UserTask resident s₁.pager := htask
        have hsupply₁ : Supply t spare f.needs s₁.pager := hsupply
        rw [hheader]
        by_cases hload : (f.header i).pType = ptLoad
        · have hfile := hcomplete.segment i hlt hload
          obtain ⟨hlow, hhigh⟩ := hrange i hlt hload
          have hneed := OpenFile.pages_subset hlt hload
          have hpos₁ : s₁.fdPos ≤ f.iSize := hcomplete.header i hlt
          have hlt₁ : s₁.fdPos < 71168 := hlimit
          simp only [if_pos hload]
          by_cases hthis : (firstPage ∈ (f.header i).pages → s.pager.Mapped firstPage) ∧
              ((f.header i).pOffset < f.iSize →
                (f.header i).pOffset + (f.header i).pFilesz < 71168)
          · obtain ⟨s₂, hsegment, hheap₂, htask₂, hsupply₂, hmapped⟩ := segmentLoad_frames hfile
              hlow hhigh htask₁ hsupply₁ hneed hpos₁ hlt₁ (fun hm => (hsame _).mpr (hthis.1 hm))
              hthis.2 (hheap.segment hlt hload)
            have hmapped : ∀ q, s₂.pager.Mapped q ↔ s.pager.Mapped q ∨ q ∈ (f.header i).pages :=
              fun q => (hmapped q).trans (or_congr_left (hsame q))
            have hfirst : s₂.pager.Mapped firstPage ↔ s.pager.Mapped firstPage :=
              (hmapped firstPage).trans (or_iff_left_of_imp hthis.1)
            have hok : f.HeaderLoads s.pager i := ⟨hlimit, fun _ => hthis.2, fun _ => hthis.1⟩
            rw [Prog.bind_of_run hsegment, if_pos rfl, ← OpenFile.loadsFrom_congr hfirst]
            rcases ih (i + 1) s₂ (by omega) htask₂ hsupply₂ (by rw [hheap₂]; exact hheap) with
              ⟨hrest, s', hrun, hmapped'⟩ | ⟨hrest, hstop⟩
            · refine .inl ⟨⟨hok, hrest⟩, s', hrun, fun k => ?_⟩
              rw [hmapped', hmapped, or_assoc]
              simp only [hload, true_and]
            · exact .inr ⟨fun h => hrest h.2, hstop⟩
          · obtain ⟨e, hstop⟩ := segmentLoad_stops hfile hlow hhigh htask₁ hsupply₁ hneed hpos₁
              hlt₁ fun h => hthis ⟨fun hm => (hsame _).mp (h.1 hm), h.2⟩
            refine .inr ⟨fun h => hthis ⟨h.1.first hload, h.1.segment hload⟩, e, ?_⟩
            exact Prog.bind_of_error hstop
        · simp only [hload, false_and, false_or]
          have hok : f.HeaderLoads s.pager i :=
            ⟨hlimit, fun hl => absurd hl hload, fun hl => absurd hl hload⟩
          rw [← OpenFile.loadsFrom_congr (hsame firstPage)]
          rcases ih (i + 1) s₁ (by omega) htask₁ hsupply₁ hheap with
            ⟨hrest, s', hrun, hmapped⟩ | ⟨hrest, hstop⟩
          · exact .inl ⟨⟨hok, hrest⟩, s', hrun, fun k =>
              (hmapped k).trans (or_congr_left (hsame k))⟩
          · exact .inr ⟨fun h => hrest h.2, hstop⟩
      · exact .inr ⟨fun h => hlimit h.1.header, loadLoop_behind hcomplete hlt hlimit⟩

/-! ### `load` -/

/-- `load` returns the entry address, and what it has mapped are the pages of the segments. -/
def LoadsExactly (f : OpenFile) (t : Nat) (fd : Int) (s : Loader) : Prop :=
  ∃ s', load f t fd s = .ok (int32 f.elf.eEntry, s') ∧
    ∀ k, s'.pager.Mapped k ↔ s.pager.Mapped k ∨ f.Covered k

/-- Nothing stops the kernel on the way, and where a segment has no bytes its page is there
already or one of another segment. -/
structure OpenFile.Loadable (f : OpenFile) (p : Pager) : Prop where
  headers : ∀ i < f.elf.ePhnum, f.HeaderLoads p i
  empty : ∀ i < f.elf.ePhnum, (f.header i).pType = ptLoad → (f.header i).pFilesz = 0 →
    p.Mapped ((f.header i).pVaddr / pageSize) ∨ f.Covered ((f.header i).pVaddr / pageSize)

/-- What is needed and not covered is the page of a segment without bytes. -/
theorem needsFrom_iff (hrange : f.InRange) (k : Nat) : f.NeedsFrom 0 k ↔ f.Covered k ∨
    ∃ i < f.elf.ePhnum, (f.header i).pType = ptLoad ∧ (f.header i).pFilesz = 0 ∧
      k = (f.header i).pVaddr / pageSize := by
  constructor
  · rintro ⟨i, -, hi, hload, hk⟩
    by_cases h0 : (f.header i).pFilesz = 0
    · exact .inr ⟨i, hi, hload, h0, (mem_pages_empty h0).mp hk⟩
    · obtain ⟨a, hlow, hhigh, ha⟩ := (mem_pages_iff (hrange i hi hload).2 h0).mp hk
      exact .inl ⟨i, hi, a, ⟨hload, hlow, hhigh⟩, ha⟩
  · rintro (⟨i, hi, a, ⟨hload, hlow, hhigh⟩, ha⟩ | ⟨i, hi, hload, h0, hk⟩)
    · refine ⟨i, Nat.zero_le i, hi, hload, ?_⟩
      exact (mem_pages_iff (hrange i hi hload).2 (by omega)).mpr ⟨a, hlow, hhigh, ha⟩
    · exact ⟨i, Nat.zero_le i, hi, hload, (mem_pages_empty h0).mpr hk⟩

/-- **When a program in user space is loaded onto its pages and no others**: for every complete
file with the segments in front of the stack and off the heap, every state of the page tables and
frames for the pages that are missing and for the buffers. -/
theorem load_exact_iff {resident : Nat → Bool} (f : OpenFile) (t : Nat) (fd : Int) (s : Loader)
    (hfd : fd ≠ -1) (hpos : s.fdPos = 0) (hcomplete : f.Complete) (hvalid : f.elf.Valid)
    (hrange : f.InRange) (hheap : f.OffHeap s.heap.pages) (htask : UserTask resident s.pager)
    (hframes : Frames t f.needs s.pager) : LoadsExactly f t fd s ↔ f.Loadable s.pager := by
  have hsize := hcomplete.elf
  obtain ⟨spare, hsupply⟩ := hframes.supply htask.toUserPages
  obtain ⟨p, hread, htask, hsupply, hsame⟩ := @fileRead_header f s t spare f.needs resident
    (fun _ => 0) 52 htask hsupply (by decide) (by omega) (by omega)
  rw [hpos] at hread
  have hrun := load_header hfd hvalid hread
  let s₁ : Loader := { s with fdPos := 0 + 52, pager := p }
  have htask₁ : UserTask resident s₁.pager := htask
  have hloop := loadLoop_outcome t hcomplete hrange f.elf.ePhnum 0 s₁ (Nat.zero_add _) htask₁
    hsupply hheap
  rw [Nat.mul_zero, Nat.add_zero, OpenFile.loadsFrom_congr (hsame firstPage)] at hloop
  rcases hloop with ⟨hloads, s', hloop, hmapped⟩ | ⟨hloads, e, hstop⟩
  · have hmapped : ∀ k, s'.pager.Mapped k ↔ s.pager.Mapped k ∨ f.NeedsFrom 0 k := fun k =>
      (hmapped k).trans (or_congr_left (hsame k))
    have hload : load f t fd s = .ok (int32 f.elf.eEntry, s') := by
      rw [hrun, Prog.bind_of_run hloop, if_pos rfl]
      rfl
    constructor
    · rintro ⟨s₂, hload₂, hexact⟩
      rw [hload] at hload₂
      cases hload₂
      refine ⟨fun i hi => hloads i (Nat.zero_le i) hi, fun i hi hl h0 => ?_⟩
      refine (hexact _).mp ((hmapped _).mpr (.inr ?_))
      exact (needsFrom_iff hrange _).mpr (.inr ⟨i, hi, hl, h0, rfl⟩)
    · intro h
      refine ⟨s', hload, fun k => ?_⟩
      rw [hmapped, needsFrom_iff hrange]
      constructor
      · rintro (hm | hc | ⟨i, hi, hl, h0, rfl⟩)
        · exact .inl hm
        · exact .inr hc
        · exact h.empty i hi hl h0
      · exact fun h => h.imp_right .inl
  · refine iff_of_false ?_ fun h => hloads fun i _ hi => h.headers i hi
    rintro ⟨s', hload, -⟩
    rw [hrun, Prog.bind_of_error hstop] at hload
    cases hload

/-- A process that has its stack and nothing else. -/
def newPager : Pager where
  kernelPool := ⟨⟨64, fun _ => 0⟩, 0x200000, 0x200000, .free⟩
  userPool := ⟨⟨64, fun _ => 0⟩, 0x400000, 0x200000, .free⟩
  kernelVaddr := ⟨⟨64, fun _ => 0⟩, 0xc0100000⟩
  userVaddr := ⟨⟨94199, fun byteIdx => if byteIdx = 94198 then 0x80 else 0⟩, userVaddrStart⟩
  isUser := true
  pde i := if 767 ≤ i then 7 else 0
  pte k := if 0xbffff ≤ k ∧ k < 0xc0100 then 7 else 0

/-- Its heap is empty, so `file_read` gets a page for each of its buffers. -/
def newLoader : Loader := ⟨0, newPager, fun _ => 0, fun _ => false, true, true⟩

theorem userTask_newPager : UserTask firstMegabyte newPager where
  isUser := rfl
  start := rfl
  length := by decide
  fits
    | .kernel => poolFits_small (by decide)
    | .user => poolFits_small (by decide)
  aligned := by decide
  low := by decide
  resident k hk hr := by
    have h7 : present 7 = true := by decide
    obtain ⟨-, hlt⟩ := of_decide_eq_true hr
    refine ⟨?_, ?_⟩
    · show present (if 767 ≤ k / 1024 then 7 else 0) = true
      rwa [if_pos (by omega)]
    · show present (if 0xbffff ≤ k ∧ k < 0xc0100 then 7 else 0) = true
      rwa [if_pos (by omega)]

theorem allMarked_newPager : AllMarked newPager := by
  intro i hi hm
  have hlt : i < 753592 := hi
  have hstack : i = 753591 := by
    by_contra hne
    have hpte : present (if 0xbffff ≤ userPage i ∧ userPage i < 0xc0100 then 7 else 0) = true := hm.2
    have hpage : userPage i = 0x8048 + i := rfl
    rw [if_neg (by omega)] at hpte
    exact absurd hpte (by decide)
  rw [hstack]
  decide +kernel

theorem room_first {b : Bitmap} {k : Nat} (hlen : k ≤ 8 * b.bmapBytesLen)
    (h : ∀ i < k, b.bitmapScanTest i = false) : Room b k :=
  ⟨Finset.range k, (Finset.card_range k).ge, fun i hi => by
    have hi := Finset.mem_range.mp hi
    exact ⟨by omega, h i hi⟩⟩

/-- There is enough for one page and for the buffers. -/
theorem frames_newPager {need : Finset Nat} (h : need.card ≤ 1) : Frames 1 need newPager := by
  have hmissing : (missing newPager need).card ≤ 1 := (Finset.card_filter_le _ _).trans h
  have htables : (absentTables newPager (need.image (· / 1024))).card ≤ 1 :=
    (Finset.card_filter_le _ _).trans (Finset.card_image_le.trans h)
  refine ⟨.inl rfl, Room.mono (k := 3) (room_first (by decide) (by decide)) (by omega),
    Room.mono (k := 3) (room_first (by decide) (by decide)) (by omega),
    Room.mono (k := 4) (room_first (by decide) (by decide)) (by omega), allMarked_newPager⟩

theorem load_exact_next : LoadsExactly nextProgram 1 3 newLoader := by
  have hempty : ∀ i < nextProgram.elf.ePhnum, (nextProgram.header i).pFilesz ≠ 0 := by
    decide +kernel
  have hheaders : ∀ i < nextProgram.elf.ePhnum, nextProgram.elf.ePhoff + 32 * (i + 1) < 71168 ∧
      (nextProgram.header i).pOffset + (nextProgram.header i).pFilesz < 71168 ∧
      firstPage ∉ (nextProgram.header i).pages := by decide +kernel
  refine (load_exact_iff nextProgram 1 3 newLoader (by decide) rfl complete_nextProgram
    (by decide +kernel) (by decide +kernel) (fun _ _ => rfl) userTask_newPager
    (frames_newPager (by decide +kernel))).mpr ⟨fun i hi => ?_, fun i hi _ h0 => ?_⟩
  · obtain ⟨hheader, hsegment, hfirst⟩ := hheaders i hi
    exact ⟨hheader, fun _ _ => hsegment, fun _ hc => absurd hc hfirst⟩
  · exact absurd h0 (hempty i hi)

/-- A program at the start of user space. -/
def startProgram : OpenFile := oneSegment [0, 0x80, 4, 8]

/-- It is not loaded into a new process. -/
theorem load_exact_start : startProgram.Complete ∧ startProgram.elf.Valid ∧
    startProgram.InRange ∧ startProgram.OffHeap newLoader.heap.pages ∧
    UserTask firstMegabyte newLoader.pager ∧ Frames 1 startProgram.needs newLoader.pager ∧
    ¬ LoadsExactly startProgram 1 3 newLoader := by
  refine ⟨⟨by decide, by decide +kernel, by decide +kernel⟩, by decide +kernel,
    by decide +kernel, fun _ _ => rfl, userTask_newPager, frames_newPager (by decide +kernel), ?_⟩
  rintro ⟨s', hload, -⟩
  have hstop : (load startProgram 1 3).answer newLoader = none := by decide +kernel
  rw [Prog.answer, hload] at hstop
  cases hstop

end Exec

end ZyOs
