/-
Whether loading stays in user space.

`load` looks at no address.  A file leaves user space when one of the pages `segment_load` counts
for a segment lies outside the addresses of a process and is not there already, or when the bytes
the file has for it do.  The count wraps around, so that a segment that is far too large may be
one page.
-/
import ZyOs.Kernel.ExecWatch
import ZyOs.Proofs.Exec
import ZyOs.Proofs.PageAlloc
import ZyOs.Proofs.Block

namespace ZyOs

open Library

namespace Exec

variable {f : OpenFile} {w w' : Watch} {s s' : Loader} {t pos count off : Nat} {buf : Mem}

/-! ### The watch -/

theorem halfWatch_page (p : Pager) (a : Nat) : halfWatch.page p a = decide (a < 0xc0000000) := rfl

theorem halfWatch_bytes (a n : Nat) :
    halfWatch.bytes a n = decide (n = 0 ∨ a + n ≤ 0xc0000000) := rfl

theorem mapPagesWatched_halfWatch (t : Nat) : ∀ n vaddrPage,
    mapPagesWatched halfWatch t n vaddrPage = mapPages t n vaddrPage := by
  intro n
  induction n with
  | zero => exact fun _ => rfl
  | succ n ih =>
      intro vaddrPage
      rw [mapPagesWatched, mapPages]
      simp only [ih, halfWatch_page, decide_eq_true_eq]
      by_cases hhalf : vaddrPage < 0xc0000000
      · refine congrArg (bind get) (funext fun s => ?_)
        rw [if_pos hhalf]
        exact congrArg (ite _ _) (if_neg (Nat.not_le.mpr hhalf)).symm
      · simp only [if_neg hhalf, if_pos (Nat.not_lt.mp hhalf)]

theorem segmentLoadWatched_halfWatch (t offset filesz vaddr : Nat) :
    segmentLoadWatched f halfWatch t offset filesz vaddr = segmentLoad f t offset filesz vaddr := by
  have hbytes : ∀ n : Int, (halfWatch.bytes vaddr n.toNat = true) ↔
      ¬ (0 < n ∧ 0xc0000000 < vaddr + n) := by
    intro n
    rw [halfWatch_bytes, decide_eq_true_eq]
    omega
  unfold segmentLoadWatched segmentLoad
  simp only [mapPagesWatched_halfWatch, hbytes, ite_not]

theorem loadLoopWatched_halfWatch (t : Nat) : ∀ left off,
    loadLoopWatched f halfWatch t left off = loadLoop f t left off := by
  intro left
  induction left with
  | zero => exact fun _ => rfl
  | succ left ih =>
      intro off
      rw [loadLoopWatched, loadLoop]
      simp only [segmentLoadWatched_halfWatch, ih]

/-- The watch over the kernel's half is the one `load` is modelled with. -/
theorem loadWatched_halfWatch (t : Nat) (fd : Int) :
    loadWatched f halfWatch t fd = load f t fd := by
  unfold loadWatched load
  simp only [loadLoopWatched_halfWatch]

/-! ### A stricter watch -/

/-- Nothing is allowed that the other does not allow. -/
structure Watch.Within (w w' : Watch) : Prop where
  page : ∀ p a, w.page p a = true → w'.page p a = true
  bytes : ∀ a n, w.bytes a n = true → w'.bytes a n = true

theorem userWatch_within : userWatch.Within halfWatch where
  page _ _ h := decide_eq_true (of_decide_eq_true h).2.1
  bytes _ _ h := decide_eq_true ((of_decide_eq_true h).imp_right And.right)

/-- The watch stops the first run, or it is the second. -/
def StopsOr {α : Type} (x y : LoadM α) (s : Loader) : Prop :=
  x s = .error (.fault "segment_load") ∨ x s = y s

namespace StopsOr

variable {α β : Type} {x y : LoadM α} {g g' : α → LoadM β}

theorem refl (x : LoadM α) (s : Loader) : StopsOr x x s := .inr rfl

theorem bind (hx : StopsOr x y s) (hg : ∀ a s', StopsOr (g a) (g' a) s') :
    StopsOr (x >>= g) (y >>= g') s := by
  rcases hx with hstop | hsame
  · exact .inl (Prog.bind_of_error hstop)
  · cases hrun : x s with
    | error e =>
        rw [hrun] at hsame
        exact .inr ((Prog.bind_of_error hrun).trans (Prog.bind_of_error hsame.symm).symm)
    | ok r =>
        rw [hrun] at hsame
        rw [StopsOr, Prog.bind_of_run hrun, Prog.bind_of_run hsame.symm]
        exact hg r.1 r.2

theorem bind_left (x : LoadM α) (hg : ∀ a s', StopsOr (g a) (g' a) s') (s : Loader) :
    StopsOr (x >>= g) (x >>= g') s :=
  bind (refl x s) hg

theorem ite {c : Prop} [Decidable c] {x' y' : LoadM α} (hx : StopsOr x y s)
    (hx' : StopsOr x' y' s) : StopsOr (if c then x else x') (if c then y else y') s := by
  by_cases hc : c
  · simp only [if_pos hc]
    exact hx
  · simp only [if_neg hc]
    exact hx'

/-- What the first watch allows the second does. -/
theorem guard {b b' : Bool} (hb : b = true → b' = true) (hx : StopsOr x y s) :
    StopsOr (if b = true then x else Prog.lift (.error (.fault "segment_load")))
      (if b' = true then y else Prog.lift (.error (.fault "segment_load"))) s := by
  cases b with
  | false => exact .inl rfl
  | true =>
      rw [hb rfl]
      exact hx

end StopsOr

theorem mapPagesWatched_within (h : w.Within w') (t : Nat) : ∀ n vaddrPage s,
    StopsOr (mapPagesWatched w t n vaddrPage) (mapPagesWatched w' t n vaddrPage) s := by
  intro n
  induction n with
  | zero => exact fun _ s => .refl _ s
  | succ n ih =>
      intro vaddrPage s
      rw [mapPagesWatched, mapPagesWatched]
      refine .bind_left get (fun p s => ?_) s
      refine .ite (ih _ s) (.guard (h.page _ _) ?_)
      refine .bind_left _ (fun page s => ?_) s
      cases page with
      | none => exact .refl _ s
      | some a => exact ih _ s

theorem segmentLoadWatched_within (h : w.Within w') (t offset filesz vaddr : Nat) (s : Loader) :
    StopsOr (segmentLoadWatched f w t offset filesz vaddr)
      (segmentLoadWatched f w' t offset filesz vaddr) s := by
  unfold segmentLoadWatched
  refine .bind (mapPagesWatched_within h t _ _ s) fun ok s => .ite ?_ (.refl _ s)
  refine .bind_left _ (fun _ s => .bind_left get (fun l s => ?_) s) s
  exact .bind_left _ (fun r s => .guard (h.bytes _ _) (.refl _ s)) s

theorem loadLoopWatched_within (h : w.Within w') (t : Nat) : ∀ left off s,
    StopsOr (loadLoopWatched f w t left off) (loadLoopWatched f w' t left off) s := by
  intro left
  induction left with
  | zero => exact fun _ s => .refl _ s
  | succ left ih =>
      intro off s
      rw [loadLoopWatched, loadLoopWatched]
      refine .bind_left _ (fun _ s => .bind_left _ (fun r s => ?_) s) s
      refine .ite (.ite ?_ (ih _ s)) (.refl _ s)
      exact .bind (segmentLoadWatched_within h t _ _ _ s) fun ok s => .ite (ih _ s) (.refl _ s)

/-- **What the watch over a process does not stop is a run of `load`.** -/
theorem loadWatched_or_load (t : Nat) (fd : Int) (s : Loader) :
    StopsOr (loadWatched f userWatch t fd) (load f t fd) s := by
  rw [← loadWatched_halfWatch]
  unfold loadWatched
  refine .ite (.refl _ s) (.bind_left _ (fun r s => ?_) s)
  refine .ite (.ite ?_ (.refl _ s)) (.refl _ s)
  exact .bind (loadLoopWatched_within userWatch_within t _ _ s) fun ok s => .refl _ s

/-! ### The pages of a process -/

/-- What is mapped stays so, and nothing has been moved. -/
structure Grown (p p' : Pager) : Prop extends SamePlaces p p' where
  mapped : ∀ k, p.Mapped k → p'.Mapped k

section Grown

variable {p p' p₂ : Pager} {pf : PoolFlag}

theorem Grown.trans (h : Grown p p') (h' : Grown p' p₂) : Grown p p₂ :=
  ⟨h.toSamePlaces.trans h'.toSamePlaces, fun k hk => h'.mapped k (h.mapped k hk)⟩

theorem Grown.withPool {pool : Pool} (hstart : pool.phyAddrStart = (p.pool pf).phyAddrStart)
    (hsize : pool.poolBitmap.bmapBytesLen = (p.pool pf).poolBitmap.bmapBytesLen) :
    Grown p (p.withPool pool pf) := by
  refine ⟨.withPool hstart hsize, fun _ h => ?_⟩
  cases pf <;> exact h

theorem Grown.withPte (page a : Nat) : Grown p (p.withPte page (tableEntry a)) where
  toSamePlaces := .withPte _ _
  mapped k h := by
    refine ⟨h.1, ?_⟩
    show present (if k = page then _ else p.pte k) = true
    split_ifs
    · exact present_tableEntry a
    · exact h.2

/-- Behind an entry that is missing nothing was mapped. -/
theorem Grown.withTable {i : Nat} (hi : ¬ present (p.pde i) = true) (a : Nat) :
    Grown p (p.withTable i (tableEntry a)) where
  toSamePlaces := .withTable _ _
  mapped k h := by
    have hne : k / 1024 ≠ i := by
      rintro rfl
      exact hi h.1
    show present (if k / 1024 = i then _ else p.pde _) = true ∧
      present (if k / 1024 = i then _ else p.pte k) = true
    rw [if_neg hne, if_neg hne]
    exact h

theorem wp_poolAlloc (pf : PoolFlag) (p : Pager) :
    Prog.wp Halt.IsPanic (poolAlloc Bitmap.bitmapScan pf)
      (fun _ p' => Grown p p' ∧ p'.pde = p.pde) p := by
  unfold poolAlloc
  refine Prog.wp_get_bind (Prog.wp_bind (Prog.wp_lift (fun r hok => ?_) fun e he => ?_))
  · have hplaces : r.1.phyAddrStart = (p.pool pf).phyAddrStart ∧
        r.1.poolBitmap.bmapBytesLen = (p.pool pf).poolBitmap.bmapBytesLen := by
      obtain ⟨i, -, hok⟩ := bind_eq_ok.mp hok
      split_ifs at hok <;> cases hok <;> exact ⟨rfl, rfl⟩
    exact Prog.wp_bind (Prog.wp_set (Prog.wp_pure
      ⟨.withPool hplaces.1 hplaces.2, Pager.pde_withPool⟩))
  · rcases bind_eq_error.mp he with he | ⟨i, -, he⟩
    · exact bitmapScan_error he
    · split_ifs at he <;> cases he

theorem wp_assertPager {c : Prop} [Decidable c] {func condition : String} {Q : Unit → Pager → Prop}
    (h : c → Q () p) : Prog.wp Halt.IsPanic (Prog.lift (ASSERT c func condition)) Q p :=
  Prog.wp_lift (fun _ hok => h (ASSERT_eq_ok.mp hok)) fun _ => ASSERT_error

theorem wp_pageTableAdd (vaddr frame : Nat) (p : Pager) :
    Prog.wp Halt.IsPanic (pageTableAdd Bitmap.bitmapScan vaddr frame) (fun _ p' => Grown p p')
      p := by
  unfold pageTableAdd
  refine Prog.wp_get_bind (Prog.wp_ite (fun _ => ?_) fun habsent => ?_)
  · refine Prog.wp_get_bind (Prog.wp_bind (wp_assertPager fun _ => ?_))
    exact Prog.wp_modify (.withPte _ _)
  · refine Prog.wp_bind (Prog.wp_mono (wp_poolAlloc .kernel p) ?_)
    rintro frame₁ p₁ ⟨hgrown, hpde⟩
    rw [← hpde] at habsent
    have htable := hgrown.trans (.withTable habsent (frame₁.getD 0))
    refine Prog.wp_bind (Prog.wp_modify (Prog.wp_get_bind ?_))
    refine Prog.wp_bind (wp_assertPager fun _ => ?_)
    exact Prog.wp_modify (htable.trans (.withPte _ _))

/-- `get_a_page` for a process. -/
theorem wp_getAPage (t vaddr : Nat) (p : Pager) :
    Prog.wp Halt.IsPanic (getAPageWith Bitmap.bitmapScan t .user vaddr) (fun _ p' => Grown p p')
      p := by
  unfold getAPageWith
  refine Prog.wp_bind (Prog.wp_modify (Prog.wp_get_bind (Prog.wp_ite (fun _ => ?_) fun _ => ?_)))
  · refine Prog.wp_bind (wp_assertPager fun _ => Prog.wp_bind (Prog.wp_set ?_))
    refine Prog.wp_bind (Prog.wp_mono (wp_poolAlloc .user _) ?_)
    rintro frame p₁ ⟨hgrown, -⟩
    have hmarked : Grown p p₁ := by
      refine .trans ⟨?_, fun k hk => ?_⟩ hgrown
      · exact (SamePlaces.withLock .user _).trans (.withVaddrs rfl rfl)
      · exact hk
    cases frame with
    | none => exact Prog.wp_pure hmarked
    | some a =>
        refine Prog.wp_bind (Prog.wp_mono (wp_pageTableAdd vaddr a p₁) fun _ p₂ hadd => ?_)
        refine Prog.wp_bind (Prog.wp_get_bind (Prog.wp_bind (wp_assertPager fun _ => ?_)))
        exact Prog.wp_set (Prog.wp_pure ((hmarked.trans hadd).trans (.withPool rfl rfl)))
  · exact Prog.wp_lift (fun _ hok => by cases hok) fun _ he => by cases he; trivial

end Grown

/-! ### Files that keep to user space -/

/-- An address a process may have. -/
def InUser (a : Nat) : Prop := userVaddrStart ≤ a ∧ a < 0xc0000000

instance (a : Nat) : Decidable (InUser a) := inferInstanceAs (Decidable (_ ∧ _))

/-- The process `load` runs in.  Of the kernel's pages the `resident` ones are mapped whatever
happens. -/
structure UserTask (resident : Nat → Bool) (p : Pager) : Prop extends UserPages p where
  resident : ∀ k, 0xc0000 ≤ k → resident k = true → p.Mapped k

theorem UserTask.grown {resident : Nat → Bool} {p p' : Pager} (h : UserTask resident p)
    (hg : Grown p p') : UserTask resident p' :=
  ⟨h.toUserPages.congr hg.toSamePlaces, fun k hk hr => hg.mapped k (h.resident k hk hr)⟩

theorem UserTask.restored {resident : Nat → Bool} {p p' : Pager} {n : Nat}
    (h : UserTask resident p) (hr : Restored n p p') : UserTask resident p' :=
  h.grown ⟨hr.toSamePlaces, fun k => (hr.mapped k).mpr⟩

namespace OpenFile

variable (resident : Nat → Bool) (f : OpenFile)

/-- The page of an address may be asked for: it is one of a process, or there already. -/
def PageInUser (a : Nat) : Prop :=
  InUser a ∨ 0xc0000000 ≤ a ∧ resident (a / pageSize) = true

instance (a : Nat) : Decidable (PageInUser resident a) := inferInstanceAs (Decidable (_ ∨ _))

/-- A segment that is read from `pos` on asks for nothing else: none of the pages that are
counted, and none of the bytes that are read.  Where the end of the read wraps around `file_read`
knows no end. -/
structure SegmentInUser (ph : ProgHeader) (pos : Nat) : Prop where
  pages : ∀ j < occupyPages ph.pVaddr ph.pFilesz,
    PageInUser resident ((ph.pVaddr / pageSize * pageSize + pageSize * j) % 2 ^ 32)
  ends : pos < 71168 → pos + ph.pFilesz < 2 ^ 32
  bytes : ReadLimit f.iSize pos ph.pFilesz → f.got pos ph.pFilesz = 0 ∨
    InUser ph.pVaddr ∧ ph.pVaddr + f.got pos ph.pFilesz ≤ 0xc0000000

/-- The segments `load` gets to among the `left` headers from `off` on, starting at `pos`. -/
def KeepsToUser : Nat → Nat → Nat → Prop
  | 0, _, _ => True
  | left + 1, off, pos =>
      let p := f.seekTo pos off
      let ph := f.headerAt p
      let q := f.seekTo (p + 32) ph.pOffset
      p + 32 ≤ f.iSize → p + 32 < 71168 →
        if ph.pType = ptLoad then
          f.SegmentInUser resident ph q ∧ (ReadLimit f.iSize q ph.pFilesz →
            KeepsToUser left ((off + 32) % 2 ^ 32) (q + f.got q ph.pFilesz))
        else KeepsToUser left ((off + 32) % 2 ^ 32) (p + 32)

section Step

variable {resident f} {left off pos : Nat}

theorem keepsToUser_load (h : (f.headerAt (f.seekTo pos off)).pType = ptLoad)
    (hle : f.seekTo pos off + 32 ≤ f.iSize) (hlt : f.seekTo pos off + 32 < 71168)
    (hkeeps : f.KeepsToUser resident (left + 1) off pos) :
    let ph := f.headerAt (f.seekTo pos off)
    let q := f.seekTo (f.seekTo pos off + 32) ph.pOffset
    f.SegmentInUser resident ph q ∧ (ReadLimit f.iSize q ph.pFilesz →
      f.KeepsToUser resident left ((off + 32) % 2 ^ 32) (q + f.got q ph.pFilesz)) := by
  rw [KeepsToUser] at hkeeps
  simpa only [if_pos h] using hkeeps hle hlt

theorem keepsToUser_skip (h : (f.headerAt (f.seekTo pos off)).pType ≠ ptLoad)
    (hle : f.seekTo pos off + 32 ≤ f.iSize) (hlt : f.seekTo pos off + 32 < 71168)
    (hkeeps : f.KeepsToUser resident (left + 1) off pos) :
    f.KeepsToUser resident left ((off + 32) % 2 ^ 32) (f.seekTo pos off + 32) := by
  rw [KeepsToUser] at hkeeps
  simpa only [if_neg h] using hkeeps hle hlt

end Step

/-- The headers `load` looks at when it gets past all of them. -/
def seen : Nat → Nat → Nat → List ProgHeader
  | 0, _, _ => []
  | left + 1, off, pos =>
      let p := f.seekTo pos off
      let ph := f.headerAt p
      let q := f.seekTo (p + 32) ph.pOffset
      ph :: if ph.pType = ptLoad then seen left ((off + 32) % 2 ^ 32) (q + f.got q ph.pFilesz)
        else seen left ((off + 32) % 2 ^ 32) (p + 32)

/-- All that the headers ask for is in user space. -/
def AsksInUser : Prop :=
  ∀ ph ∈ f.seen f.elf.ePhnum f.elf.ePhoff 52, ∀ a, ph.Covers a → InUser a

/-- No run of `load` in a process with such a heap leaves user space, and a file that asks it to
is not loaded. -/
def LoadsInUser (heap : Nat → Bool) : Prop :=
  ∀ (t : Nat) (fd : Int) (s : Loader), UserTask resident s.pager → s.heap.pages = heap →
    s.fdPos = 0 →
    (∀ text, loadWatched f userWatch t fd s ≠ .error (.fault text)) ∧
    ∀ r s', load f t fd s = .ok (r, s') → r ≠ -1 → f.AsksInUser

end OpenFile

/-! ### Runs in a process -/

variable {resident : Nat → Bool}

theorem UserTask.watch {p : Pager} (h : UserTask resident p) {a : Nat} (ha : InUser a) :
    userWatch.page p a = true := by
  obtain ⟨hlow, hhigh⟩ := ha
  have hbit : sub32 a p.userVaddr.vaddrStart / pageSize
      < 8 * p.userVaddr.vaddrBitmap.bmapBytesLen := by
    rw [h.start, h.length]
    unfold sub32
    rw [show userVaddrStart = 0x8048000 from rfl] at hlow ⊢
    rw [show pageSize = 4096 from rfl]
    omega
  exact decide_eq_true ⟨hlow, hhigh, hbit⟩

theorem wp_onPager {α : Type} {x : PagerM α} {E : Halt → Prop} {Q : α → Loader → Prop}
    (h : Prog.wp E x (fun a p => Q a { s with pager := p }) s.pager) :
    Prog.wp E (onPager x) Q s := by
  unfold Prog.wp onPager at *
  cases hx : x s.pager with
  | error e => simpa [hx] using h
  | ok r => simpa [hx] using h

/-- The next page of a segment. -/
theorem next_page (a j : Nat) :
    ((a + pageSize) % 2 ^ 32 + pageSize * j) % 2 ^ 32 = (a + pageSize * (j + 1)) % 2 ^ 32 := by
  rw [show pageSize = 4096 from rfl]
  omega

theorem wp_mapPagesWatched (t : Nat) : ∀ n a s, a < 2 ^ 32 → UserTask resident s.pager →
    (∀ j < n, OpenFile.PageInUser resident ((a + pageSize * j) % 2 ^ 32)) →
    Prog.wp Halt.IsPanic (mapPagesWatched userWatch t n a)
      (fun _ s' => UserTask resident s'.pager ∧ s'.fdPos = s.fdPos ∧ s'.heap = s.heap) s := by
  intro n
  induction n with
  | zero => exact fun a s _ htask _ => Prog.wp_pure ⟨htask, rfl, rfl⟩
  | succ n ih =>
      intro a s ha htask hpages
      have hrest : ∀ j < n, OpenFile.PageInUser resident
          (((a + pageSize) % 2 ^ 32 + pageSize * j) % 2 ^ 32) := fun j hj => by
        rw [next_page]
        exact hpages (j + 1) (by omega)
      have hnext : (a + pageSize) % 2 ^ 32 < 2 ^ 32 := Nat.mod_lt _ (by decide)
      have hfirst := hpages 0 (by omega)
      rw [Nat.mul_zero, Nat.add_zero, Nat.mod_eq_of_lt ha] at hfirst
      rw [mapPagesWatched]
      refine Prog.wp_get_bind (Prog.wp_ite (fun _ => ih _ s hnext htask hrest) fun hunmapped => ?_)
      have huser : InUser a := by
        refine hfirst.resolve_right fun hkernel => hunmapped ?_
        have hmapped := htask.resident (a / pageSize)
          (by rw [show pageSize = 4096 from rfl]; omega) hkernel.2
        rwa [Pager.Mapped, ← pdeIdx_page] at hmapped
      rw [if_pos (htask.watch huser)]
      refine Prog.wp_bind (wp_onPager (Prog.wp_mono (wp_getAPage t a s.pager) fun r p hg => ?_))
      cases r with
      | none => exact Prog.wp_pure ⟨htask.grown hg, rfl, rfl⟩
      | some _ => exact ih _ { s with pager := p } hnext (htask.grown hg) hrest

/-! ### Reads -/

/-- What `file_read` asks of the blocks a read begins and ends in. -/
def HasBlocks (pos size : Nat) : Prop := pos / 512 < 139 ∧ (pos + size) % 2 ^ 32 / 512 < 139

theorem wp_readBlocks {size : Nat} (hfits : HasBlocks s.fdPos size → s.fdPos + size < 71168) :
    Prog.wp Halt.IsPanic (readBlocks f buf size) (fun r s' => s.fdPos + size < 71168 ∧
      r = ((size : Int), buf.splice 0 (f.bytes.drop s.fdPos) size) ∧
      s' = { s with fdPos := s.fdPos + size }) s := by
  by_cases hidx : HasBlocks s.fdPos size
  · exact Prog.wp_of_run (readBlocks_run (hfits hidx)) ⟨hfits hidx, rfl, rfl⟩
  · unfold readBlocks
    refine Prog.wp_get_bind (Prog.wp_bind (Prog.wp_lift (fun _ hok => ?_) fun _ => ASSERT_error))
    exact absurd (ASSERT_eq_ok.mp hok) hidx

/-- The buffers are gone again, whatever there was on the heap. -/
theorem wp_readBytes {size : Nat} (h : UserPages s.pager)
    (hfits : HasBlocks s.fdPos size → s.fdPos + size < 71168) :
    Prog.wp Halt.IsPanic (readBytes f t buf size) (fun r s' => Restored 2 s.pager s'.pager ∧
      s.fdPos + size < 71168 ∧ r = ((size : Int), buf.splice 0 (f.bytes.drop s.fdPos) size) ∧
      ∃ p, s' = { s with fdPos := s.fdPos + size, pager := p }) s := by
  unfold readBytes
  refine Prog.wp_get_bind (wp_withBuffer h ?_ fun p₁ h₁ => wp_withBuffer h₁ ?_ fun p₂ _ => ?_)
  · rintro r s₁ p ⟨hlt, hr, p', rfl⟩
    exact ⟨hlt, hr, p, rfl⟩
  · rintro r s₁ p ⟨hlt, hr, p', rfl⟩
    exact ⟨hlt, hr, p, rfl⟩
  · refine Prog.wp_mono (wp_readBlocks hfits) ?_
    rintro r s₂ ⟨hlt, hr, rfl⟩
    exact ⟨.refl 0 p₂, hlt, hr, p₂, rfl⟩

/-- Out of the limit `file_read` is asked for what it has no blocks for, unless the end of the read
wraps around. -/
theorem fileRead_out (hpos : s.fdPos ≤ f.iSize) (hlimit : ¬ ReadLimit f.iSize s.fdPos count)
    (hcount : count < 2 ^ 32) (hends : s.fdPos < 71168 → s.fdPos + count < 2 ^ 32) :
    ∃ size, fileRead f t buf count s = readBytes f t buf size s ∧ ¬ HasBlocks s.fdPos size := by
  have hle := f.size_le
  have hsub : sub32 f.iSize s.fdPos = f.iSize - s.fdPos := by
    unfold sub32
    omega
  unfold ReadLimit at hlimit
  unfold fileRead HasBlocks
  rw [Prog.bind_of_run (Prog.get_run s), hsub]
  by_cases hlong : f.iSize < (s.fdPos + count) % 2 ^ 32
  · rw [if_pos hlong, if_neg (by omega)]
    exact ⟨_, rfl, by omega⟩
  · rw [if_neg hlong]
    exact ⟨_, rfl, by omega⟩

/-- A read whose end wraps around goes on behind the last block. -/
theorem fileRead_wraps (hstocked : Stocked s) (hpos : s.fdPos ≤ f.iSize) (hcount : count < 2 ^ 32)
    (hin : s.fdPos < 71168) (hwrap : 2 ^ 32 ≤ s.fdPos + count) :
    fileRead f t buf count s = .error (.fault "file_read") := by
  have hle := f.size_le
  unfold fileRead
  rw [Prog.bind_of_run (Prog.get_run s), if_neg (by omega), readBytes_stocked hstocked]
  unfold readBlocks
  rw [Prog.bind_of_run (Prog.get_run s), ASSERT_pos (by omega),
    Prog.bind_of_run (Prog.lift_ok _ s), if_neg (by omega)]
  rfl

theorem wp_fileRead {Q : Int × Mem → Loader → Prop} (h : UserPages s.pager)
    (hpos : s.fdPos ≤ f.iSize) (hcount : count < 2 ^ 32)
    (hends : s.fdPos < 71168 → s.fdPos + count < 2 ^ 32)
    (hQ : ReadLimit f.iSize s.fdPos count → ∀ p, Restored 2 s.pager p →
      Q (f.readCount s.fdPos count, buf.splice 0 (f.bytes.drop s.fdPos) (f.got s.fdPos count))
        { s with fdPos := s.fdPos + f.got s.fdPos count, pager := p }) :
    Prog.wp Halt.IsPanic (fileRead f t buf count) Q s := by
  by_cases hlimit : ReadLimit f.iSize s.fdPos count
  · have hread := @fileRead_eq f s t count buf hpos hlimit
    have hQ := hQ hlimit
    by_cases hend : s.fdPos = f.iSize ∧ 1 ≤ count
    · obtain ⟨hminus, hnone⟩ := OpenFile.readCount_end hend
      rw [if_pos hend] at hread
      rw [hminus, hnone, Mem.splice_zero] at hQ
      exact Prog.wp_of_run hread (hQ s.pager (.refl 2 s.pager))
    · have hfits := f.got_fits hpos hlimit hend
      rw [if_neg hend] at hread
      rw [OpenFile.readCount, if_neg hend] at hQ
      unfold Prog.wp
      rw [hread]
      refine Prog.wp_mono (wp_readBytes h fun _ => hfits) ?_
      rintro r s' ⟨hrestored, -, rfl, p, rfl⟩
      exact hQ p hrestored
  · obtain ⟨size, hread, hout⟩ :=
      @fileRead_out f s t count buf hpos hlimit hcount hends
    unfold Prog.wp
    rw [hread]
    refine Prog.wp_mono (wp_readBytes h fun hidx => absurd hidx hout) ?_
    rintro r s' ⟨-, hlt, -⟩
    refine absurd ⟨?_, ?_⟩ hout
    · omega
    · omega

/-- A header is read as a whole or it is not read. -/
theorem wp_fileRead_header {n : Nat} {Q : Int × Mem → Loader → Prop} (hu : UserPages s.pager)
    (hpos : s.fdPos ≤ f.iSize) (hn : n < 2 ^ 16) (h1 : 1 ≤ n)
    (hshort : ∀ (r : Int × Mem) s', r.1 ≠ (n : Int) → Q r s')
    (h : s.fdPos + n ≤ f.iSize → s.fdPos + n < 71168 → ∀ p, Restored 2 s.pager p →
      Q (n, buf.splice 0 (f.bytes.drop s.fdPos) n) { s with fdPos := s.fdPos + n, pager := p }) :
    Prog.wp Halt.IsPanic (fileRead f t buf n) Q s := by
  have hle := f.size_le
  refine wp_fileRead hu hpos (by omega) (by omega) fun hlimit p hrestored => ?_
  unfold ReadLimit at hlimit
  by_cases hall : s.fdPos + n ≤ f.iSize
  · obtain ⟨hgot, hcount⟩ := OpenFile.got_whole h1 hall
    rw [hcount, hgot]
    exact h hall (by omega) p hrestored
  · refine hshort _ _ ?_
    show f.readCount s.fdPos n ≠ (n : Int)
    unfold OpenFile.readCount OpenFile.got
    split_ifs <;> omega

/-! ### Every run keeps to user space -/

theorem OpenFile.SegmentInUser.readsInto {ph : ProgHeader} (h : f.SegmentInUser resident ph pos)
    (haddr : ph.pVaddr ≠ 0) (hlimit : ReadLimit f.iSize pos ph.pFilesz) : f.ReadsInto ph pos :=
  ⟨haddr, hlimit, (h.bytes hlimit).imp_right And.right⟩

theorem wp_segmentLoadWatched {ph : ProgHeader} (hpos : s.fdPos ≤ f.iSize)
    (hoff : ph.pOffset < 2 ^ 32) (hsz : ph.pFilesz < 2 ^ 32) (haddr : ph.pVaddr < 2 ^ 32)
    (htask : UserTask resident s.pager)
    (h : f.SegmentInUser resident ph (f.seekTo s.fdPos ph.pOffset))
    (hclear : f.ReadsInto ph (f.seekTo s.fdPos ph.pOffset) → OnOwnPages s.heap.pages ph.pVaddr
      ph.pFilesz (f.got (f.seekTo s.fdPos ph.pOffset) ph.pFilesz)) :
    let q := f.seekTo s.fdPos ph.pOffset
    Prog.wp Halt.IsPanic (segmentLoadWatched f userWatch t ph.pOffset ph.pFilesz ph.pVaddr)
      (fun ok s' => ok = true → f.ReadsInto ph q ∧ UserTask resident s'.pager ∧
        s'.fdPos = q + f.got q ph.pFilesz ∧ s'.heap = s.heap) s := by
  intro q
  have hpage : ph.pVaddr / pageSize * pageSize < 2 ^ 32 := by
    have := Nat.div_mul_le_self ph.pVaddr pageSize
    omega
  unfold segmentLoadWatched
  refine Prog.wp_bind (Prog.wp_mono (wp_mapPagesWatched t _ _ s hpage htask h.pages) ?_)
  rintro ok s₁ ⟨htask₁, hpos₁, hheap₁⟩
  cases ok with
  | false => exact Prog.wp_pure fun hc => by cases hc
  | true =>
      rw [if_pos rfl]
      obtain ⟨r, hseek⟩ := @sysLseek_run f s₁ _ hoff
      rw [hpos₁] at hseek
      refine Prog.wp_bind (Prog.wp_of_run hseek (Prog.wp_get_bind ?_))
      have hq : q ≤ f.iSize := f.seekTo_le hpos _
      unfold sysRead
      refine Prog.wp_bind (Prog.wp_bind (Prog.wp_lift (fun _ hok => ?_) fun _ => ASSERT_error))
      refine wp_fileRead htask₁.toUserPages hq hsz h.ends fun hlimit p hrestored => ?_
      have hinto := h.readsInto (ASSERT_eq_ok.mp hok) hlimit
      have hbytes : userWatch.bytes ph.pVaddr (f.got q ph.pFilesz) = true :=
        decide_eq_true ((h.bytes hlimit).imp_right fun hin => ⟨hin.1.1, hin.2⟩)
      have hown := hclear hinto
      rw [← hheap₁] at hown
      simp only [OpenFile.readCount_toNat]
      refine Prog.wp_ite (fun _ => ?_) fun hc => absurd hbytes hc
      exact Prog.wp_of_run (putSegment_run hown)
        fun _ => ⟨hinto, htask₁.restored hrestored, rfl, hheap₁⟩

theorem wp_loadLoopWatched (t : Nat) : ∀ left off s, off < 2 ^ 32 → s.fdPos ≤ f.iSize →
    UserTask resident s.pager → f.KeepsToUser resident left off s.fdPos →
    f.KeepsClear s.heap.pages left off s.fdPos →
    Prog.wp Halt.IsPanic (loadLoopWatched f userWatch t left off) (fun _ _ => True) s := by
  intro left
  induction left with
  | zero => exact fun _ _ _ _ _ _ _ => Prog.wp_pure trivial
  | succ left ih =>
      intro off s hoff hpos htask hkeeps hclear
      have hnext : (off + 32) % 2 ^ 32 < 2 ^ 32 := Nat.mod_lt _ (by decide)
      obtain ⟨r, hseek⟩ := @sysLseek_run f s _ hoff
      have hp := f.seekTo_le hpos off
      rw [loadLoopWatched]
      refine Prog.wp_bind (Prog.wp_of_run hseek (Prog.wp_bind ?_))
      refine wp_fileRead_header htask.toUserPages hp (by decide) (by decide)
        (fun r s₁ hshort => ?_) fun hle hlt p hrestored => ?_
      · have hshort : r.1 ≠ 32 := hshort
        simp only [if_neg hshort]
        exact Prog.wp_pure trivial
      have htask := htask.restored hrestored
      obtain ⟨hoffset, hsz, haddr⟩ := f.headerAt_lt (f.seekTo s.fdPos off)
      simp only
      rw [if_pos (show ((32 : Nat) : Int) = 32 from rfl), progHeader_read]
      refine Prog.wp_ite (fun hload => ?_) fun hload => ?_
      · obtain ⟨hsegment, hrest⟩ := OpenFile.keepsToUser_load hload hle hlt hkeeps
        have hclear := OpenFile.keepsClear_load hload hle hlt hclear
        refine Prog.wp_bind (Prog.wp_mono (wp_segmentLoadWatched hle hoffset hsz haddr htask
          hsegment fun hinto => (hclear hinto).1) fun ok s₁ hok => ?_)
        refine Prog.wp_ite (fun htrue => ?_) fun _ => Prog.wp_pure trivial
        obtain ⟨hinto, htask₁, hpos₁, hheap₁⟩ := hok htrue
        refine ih _ s₁ hnext ?_ htask₁ ?_ ?_
        · rw [hpos₁]
          exact OpenFile.got_le (f.seekTo_le hle _) _
        · rw [hpos₁]
          exact hrest hinto.limit
        · rw [hpos₁, hheap₁]
          exact (hclear hinto).2
      · exact ih _ _ hnext hle htask (OpenFile.keepsToUser_skip hload hle hlt hkeeps)
          (OpenFile.keepsClear_skip hload hle hlt hclear)

/-- A process that loads such a file is stopped by an `ASSERT` or not at all. -/
theorem wp_loadWatched (t : Nat) (fd : Int) (hpos : s.fdPos = 0) (htask : UserTask resident s.pager)
    (h : f.KeepsToUser resident f.elf.ePhnum f.elf.ePhoff 52) (hclear : f.ClearOf s.heap.pages) :
    Prog.wp Halt.IsPanic (loadWatched f userWatch t fd) (fun _ _ => True) s := by
  unfold loadWatched
  refine Prog.wp_ite (fun _ => Prog.wp_pure trivial) fun _ => Prog.wp_bind ?_
  refine wp_fileRead_header htask.toUserPages (by omega) (by decide) (by decide)
    (fun r s₁ hshort => ?_) fun hle _ p hrestored => ?_
  · have hshort : r.1 ≠ 52 := hshort
    simp only [if_neg hshort]
    exact Prog.wp_pure trivial
  have htask := htask.restored hrestored
  simp only
  rw [if_pos (show ((52 : Nat) : Int) = 52 from rfl), hpos, elfHeader_read]
  refine Prog.wp_ite (fun _ => Prog.wp_bind ?_) fun _ => Prog.wp_pure trivial
  rw [hpos] at hle
  refine Prog.wp_mono (wp_loadLoopWatched t _ _ _ (elfHeader_lt _).2 hle htask h hclear) ?_
  intro ok s₁ _
  exact Prog.wp_ite (fun _ => Prog.wp_pure trivial) fun _ => Prog.wp_pure trivial

/-! ### A process with all its pages -/

/-- Every page of the process is mapped, and of the kernel's only the resident ones. -/
def fullPager (resident : Nat → Bool) : Pager where
  kernelPool := ⟨⟨64, fun _ => 0⟩, 0x200000, 0x200000, .free⟩
  userPool := ⟨⟨64, fun _ => 0⟩, 0x400000, 0x200000, .free⟩
  kernelVaddr := ⟨⟨64, fun _ => 0⟩, 0xc0100000⟩
  userVaddr := ⟨⟨94199, fun _ => 0⟩, userVaddrStart⟩
  isUser := true
  pde _ := 7
  pte k := if OpenFile.PageInUser resident (k * pageSize) then 7 else 0

theorem pageInUser_page (a : Nat) :
    OpenFile.PageInUser resident (a / pageSize * pageSize) ↔ OpenFile.PageInUser resident a := by
  have hsame : a / pageSize * pageSize / pageSize = a / pageSize :=
    Nat.mul_div_cancel _ (by decide)
  unfold OpenFile.PageInUser InUser
  rw [hsame, show pageSize = 4096 from rfl, show userVaddrStart = 0x8048000 from rfl]
  have hlow : 0x8048000 ≤ a / 4096 * 4096 ↔ 0x8048000 ≤ a := by omega
  have hhigh : a / 4096 * 4096 < 0xc0000000 ↔ a < 0xc0000000 := by omega
  have hhalf : 0xc0000000 ≤ a / 4096 * 4096 ↔ 0xc0000000 ≤ a := by omega
  rw [hlow, hhigh, hhalf]

theorem mapped_fullPager (a : Nat) :
    (fullPager resident).Mapped (a / pageSize) ↔ OpenFile.PageInUser resident a := by
  have h7 : present 7 = true := by decide
  have h0 : ¬ present 0 = true := by decide
  rw [Pager.Mapped, ← pageInUser_page]
  show present 7 = true ∧ present (if OpenFile.PageInUser resident _ then 7 else 0) = true ↔ _
  by_cases hin : OpenFile.PageInUser resident (a / pageSize * pageSize)
  · rw [if_pos hin]
    exact iff_of_true ⟨h7, h7⟩ hin
  · rw [if_neg hin]
    exact iff_of_false (fun h => h0 h.2) hin

theorem poolFits_small {a : Nat} (h : 0 < a ∧ a ≤ 0x400000) :
    PoolFits ⟨⟨64, fun _ => 0⟩, a, 0x200000, .free⟩ := by
  refine ⟨h.1, ?_⟩
  show a + 4096 * (8 * 64) ≤ 2 ^ 32
  omega

theorem userTask_fullPager (resident : Nat → Bool) : UserTask resident (fullPager resident) where
  isUser := rfl
  start := rfl
  length := by
    show 94199 = (0xc0000000 - userVaddrStart) / pageSize / 8
    decide
  fits
    | .kernel => poolFits_small (by decide)
    | .user => poolFits_small (by decide)
  aligned := by
    show 0x400000 % 4096 = 0
    decide
  low := by
    show 0x102000 ≤ 0x400000
    decide
  resident k hk hr := by
    have hpage : k * pageSize / pageSize = k := Nat.mul_div_cancel k (by decide)
    have hmapped := (@mapped_fullPager resident (k * pageSize)).mpr
      (.inr ⟨by rw [show pageSize = 4096 from rfl]; omega, by rwa [hpage]⟩)
    rwa [hpage] at hmapped

theorem mapPagesWatched_full (t : Nat) (hs : s.pager = fullPager resident) : ∀ n a, a < 2 ^ 32 →
    (∀ j < n, OpenFile.PageInUser resident ((a + pageSize * j) % 2 ^ 32)) ∧
        mapPagesWatched userWatch t n a s = .ok (true, s) ∨
      (¬ ∀ j < n, OpenFile.PageInUser resident ((a + pageSize * j) % 2 ^ 32)) ∧
        mapPagesWatched userWatch t n a s = .error (.fault "segment_load") := by
  intro n
  induction n with
  | zero => exact fun a _ => .inl ⟨fun j hj => absurd hj (Nat.not_lt_zero j), rfl⟩
  | succ n ih =>
      intro a ha
      have hsplit : (∀ j < n + 1, OpenFile.PageInUser resident ((a + pageSize * j) % 2 ^ 32)) ↔
          OpenFile.PageInUser resident a ∧ ∀ j < n, OpenFile.PageInUser resident
            (((a + pageSize) % 2 ^ 32 + pageSize * j) % 2 ^ 32) := by
        rw [Nat.forall_lt_succ_left, Nat.mul_zero, Nat.add_zero, Nat.mod_eq_of_lt ha]
        simp only [next_page]
      have hmapped := @mapped_fullPager resident a
      rw [← hs, Pager.Mapped, ← pdeIdx_page] at hmapped
      rw [hsplit, mapPagesWatched, Prog.bind_of_run (Prog.get_run s)]
      by_cases hfirst : OpenFile.PageInUser resident a
      · rw [if_pos (hmapped.mpr hfirst)]
        refine (ih _ (Nat.mod_lt _ (by decide))).imp (fun h => ⟨⟨hfirst, h.1⟩, h.2⟩) fun h => ?_
        exact ⟨fun hall => h.1 hall.2, h.2⟩
      · have hwatch : ¬ userWatch.page s.pager a = true := fun h =>
          hfirst (.inl ⟨(of_decide_eq_true h).1, (of_decide_eq_true h).2.1⟩)
        rw [if_neg fun h => hfirst (hmapped.mp h), if_neg hwatch]
        exact .inr ⟨fun hall => hfirst hall.1, rfl⟩

theorem occupyPages_pos (vaddr filesz : Nat) : 0 < occupyPages vaddr filesz := by
  unfold occupyPages
  simp only
  split_ifs
  · exact Nat.succ_pos _
  · exact Nat.one_pos

section Segment

variable {ph : ProgHeader}

/-- The page a segment begins in. -/
theorem firstPage_lt (h : ph.pVaddr < 2 ^ 32) : ph.pVaddr / pageSize * pageSize < 2 ^ 32 := by
  have := Nat.div_mul_le_self ph.pVaddr pageSize
  omega

/-- It is one of the process or of the kernel, so the address is not `NULL`. -/
theorem address_ne_zero (haddr : ph.pVaddr < 2 ^ 32)
    (hpages : ∀ j < occupyPages ph.pVaddr ph.pFilesz, OpenFile.PageInUser resident
      ((ph.pVaddr / pageSize * pageSize + pageSize * j) % 2 ^ 32)) : ph.pVaddr ≠ 0 := by
  have hfirst := hpages 0 (occupyPages_pos _ _)
  rw [Nat.mul_zero, Nat.add_zero, Nat.mod_eq_of_lt (firstPage_lt haddr), pageInUser_page] at hfirst
  intro h0
  rw [h0] at hfirst
  rcases hfirst with hin | hin
  · exact absurd hin.1 (by decide)
  · exact absurd hin.1 (by decide)

/-- Once the pages are there it is all about the read. -/
theorem segmentLoadWatched_read (hoff : ph.pOffset < 2 ^ 32) (haddr : ph.pVaddr < 2 ^ 32)
    (hs : s.pager = fullPager resident)
    (hpages : ∀ j < occupyPages ph.pVaddr ph.pFilesz, OpenFile.PageInUser resident
      ((ph.pVaddr / pageSize * pageSize + pageSize * j) % 2 ^ 32)) :
    segmentLoadWatched f userWatch t ph.pOffset ph.pFilesz ph.pVaddr s = (do
      let (n, buf) ← fileRead f t (s.mem.drop ph.pVaddr) ph.pFilesz
      if userWatch.bytes ph.pVaddr n.toNat then
        putSegment ph.pVaddr ph.pFilesz n.toNat buf
      else
        Prog.lift (.error (.fault "segment_load")) : LoadM Bool)
      { s with fdPos := f.seekTo s.fdPos ph.pOffset } := by
  obtain ⟨r, hseek⟩ := @sysLseek_run f s _ hoff
  have hmap := ((mapPagesWatched_full t hs _ _ (firstPage_lt haddr)).resolve_right
    fun h => h.1 hpages).2
  unfold segmentLoadWatched
  rw [Prog.bind_of_run hmap, if_pos rfl, Prog.bind_of_run hseek, Prog.bind_of_run (Prog.get_run _),
    sysRead, ASSERT_pos (address_ne_zero haddr hpages)]
  rfl

variable (hpos : s.fdPos ≤ f.iSize) (hoff : ph.pOffset < 2 ^ 32) (haddr : ph.pVaddr < 2 ^ 32)
  (hstocked : Stocked s) (hs : s.pager = fullPager resident)
include hpos hoff haddr hstocked hs

theorem segmentLoadWatched_run
    (h : f.SegmentInUser resident ph (f.seekTo s.fdPos ph.pOffset))
    (hlimit : ReadLimit f.iSize (f.seekTo s.fdPos ph.pOffset) ph.pFilesz)
    (hown : OnOwnPages s.heap.pages ph.pVaddr ph.pFilesz
      (f.got (f.seekTo s.fdPos ph.pOffset) ph.pFilesz)) :
    ∃ s', segmentLoadWatched f userWatch t ph.pOffset ph.pFilesz ph.pVaddr s = .ok (true, s') ∧
      s'.pager = s.pager ∧ s'.heap = s.heap ∧ s'.fdPos = f.seekTo s.fdPos ph.pOffset +
        f.got (f.seekTo s.fdPos ph.pOffset) ph.pFilesz := by
  let s₁ : Loader := { s with fdPos := f.seekTo s.fdPos ph.pOffset }
  have hq : s₁.fdPos ≤ f.iSize := f.seekTo_le hpos _
  have hbytes : userWatch.bytes ph.pVaddr (f.got s₁.fdPos ph.pFilesz) = true :=
    decide_eq_true ((h.bytes hlimit).imp_right fun hin => ⟨hin.1.1, hin.2⟩)
  have hread := @fileRead_run f s₁ t _ (s.mem.drop ph.pVaddr) (hstocked.congr rfl rfl) hq hlimit
  rw [segmentLoadWatched_read hoff haddr hs h.pages, Prog.bind_of_run hread]
  simp only [OpenFile.readCount_toNat]
  rw [if_pos hbytes]
  exact ⟨_, putSegment_run hown, rfl, rfl, rfl⟩

theorem segmentLoadWatched_stops (hsz : ph.pFilesz < 2 ^ 32)
    (h : ¬ f.SegmentInUser resident ph (f.seekTo s.fdPos ph.pOffset)) : ∃ text,
    segmentLoadWatched f userWatch t ph.pOffset ph.pFilesz ph.pVaddr s = .error (.fault text) := by
  let s₁ : Loader := { s with fdPos := f.seekTo s.fdPos ph.pOffset }
  have hstocked₁ : Stocked s₁ := hstocked.congr rfl rfl
  have hq : s₁.fdPos ≤ f.iSize := f.seekTo_le hpos _
  by_cases hpages : ∀ j < occupyPages ph.pVaddr ph.pFilesz, OpenFile.PageInUser resident
      ((ph.pVaddr / pageSize * pageSize + pageSize * j) % 2 ^ 32)
  · rw [segmentLoadWatched_read hoff haddr hs hpages]
    by_cases hends : s₁.fdPos < 71168 → s₁.fdPos + ph.pFilesz < 2 ^ 32
    · obtain ⟨hlimit, hout⟩ : ReadLimit f.iSize s₁.fdPos ph.pFilesz ∧
          ¬ (f.got s₁.fdPos ph.pFilesz = 0 ∨
            InUser ph.pVaddr ∧ ph.pVaddr + f.got s₁.fdPos ph.pFilesz ≤ 0xc0000000) := by
        by_contra hc
        exact h ⟨hpages, hends, fun hlimit => by_contra fun hout => hc ⟨hlimit, hout⟩⟩
      have hbytes : ¬ userWatch.bytes ph.pVaddr (f.readCount s₁.fdPos ph.pFilesz).toNat = true := by
        rw [OpenFile.readCount_toNat]
        intro hb
        have hin := of_decide_eq_true hb
        refine hout (hin.elim .inl fun hin => ?_)
        by_cases h0 : f.got s₁.fdPos ph.pFilesz = 0
        · exact .inl h0
        · exact .inr ⟨⟨hin.1, by omega⟩, hin.2⟩
      rw [Prog.bind_of_run (fileRead_run hstocked₁ hq hlimit)]
      simp only
      rw [if_neg hbytes]
      exact ⟨_, rfl⟩
    · obtain ⟨hin, hwrap⟩ := Classical.not_imp.mp hends
      exact ⟨_, Prog.bind_of_error (fileRead_wraps hstocked₁ hq hsz hin (Nat.not_lt.mp hwrap))⟩
  · have hmap := ((mapPagesWatched_full t hs _ _ (firstPage_lt haddr)).resolve_left
      fun h => hpages h.1).2
    exact ⟨_, Prog.bind_of_error hmap⟩

end Segment

/-- The loop once a header has been read. -/
theorem loadLoopWatched_header {left : Nat} (hstocked : Stocked s) (hoff : off < 2 ^ 32)
    (hle : f.seekTo s.fdPos off + 32 ≤ f.iSize) (hlt : f.seekTo s.fdPos off + 32 < 71168) :
    loadLoopWatched f userWatch t (left + 1) off s = (do
      let ph := f.headerAt (f.seekTo s.fdPos off)
      if ph.pType = ptLoad then
        if ← segmentLoadWatched f userWatch t ph.pOffset ph.pFilesz ph.pVaddr then
          loadLoopWatched f userWatch t left ((off + 32) % 2 ^ 32)
        else
          return false
      else
        loadLoopWatched f userWatch t left ((off + 32) % 2 ^ 32) : LoadM Bool)
      { s with fdPos := f.seekTo s.fdPos off + 32 } := by
  let s₁ : Loader := { s with fdPos := f.seekTo s.fdPos off }
  obtain ⟨r, hseek⟩ := @sysLseek_run f s _ hoff
  have hread := @fileRead_whole_run f s₁ t (fun _ => 0) 32 (hstocked.congr rfl rfl) (by decide)
    hle hlt
  rw [loadLoopWatched, Prog.bind_of_run hseek, Prog.bind_of_run hread]
  simp only
  rw [if_pos (show ((32 : Nat) : Int) = 32 from rfl), progHeader_read]
  rfl

/-- What keeps to user space is loaded as far as the file goes. -/
theorem loadLoopWatched_run (t : Nat) : ∀ left off s, off < 2 ^ 32 → s.fdPos ≤ f.iSize →
    Stocked s → s.pager = fullPager resident → f.KeepsToUser resident left off s.fdPos →
    f.KeepsClear s.heap.pages left off s.fdPos → f.Passes left off s.fdPos →
    ∃ s', loadLoopWatched f userWatch t left off s = .ok (true, s') := by
  intro left
  induction left with
  | zero => exact fun _ s _ _ _ _ _ _ _ => ⟨s, rfl⟩
  | succ left ih =>
      intro off s hoff hpos hstocked hs hkeeps hclear hpasses
      have hnext : (off + 32) % 2 ^ 32 < 2 ^ 32 := Nat.mod_lt _ (by decide)
      obtain ⟨hoffset, -, haddr⟩ := f.headerAt_lt (f.seekTo s.fdPos off)
      let s₁ : Loader := { s with fdPos := f.seekTo s.fdPos off + 32 }
      have hstocked₁ : Stocked s₁ := hstocked.congr rfl rfl
      by_cases hload : (f.headerAt (f.seekTo s.fdPos off)).pType = ptLoad
      · obtain ⟨hle, hlt, hinto, hpasses⟩ := (OpenFile.passes_load hload).mp hpasses
        obtain ⟨hsegment, hrest⟩ := OpenFile.keepsToUser_load hload hle hlt hkeeps
        obtain ⟨hown, hclear⟩ := OpenFile.keepsClear_load hload hle hlt hclear hinto
        have hle₁ : s₁.fdPos ≤ f.iSize := hle
        obtain ⟨s₂, hrun, hpager, hheap, hpos₂⟩ := @segmentLoadWatched_run _ s₁ t _ _ hle₁ hoffset
          haddr hstocked₁ hs hsegment hinto.limit hown
        have hle₂ : s₂.fdPos ≤ f.iSize := by
          rw [hpos₂]
          exact OpenFile.got_le (f.seekTo_le hle _) _
        rw [loadLoopWatched_header hstocked hoff hle hlt]
        simp only [if_pos hload]
        rw [Prog.bind_of_run hrun, if_pos rfl]
        rw [← hpos₂] at hrest hpasses hclear
        refine ih _ s₂ hnext hle₂ (hstocked₁.congr hpager hheap) (hpager.trans hs)
          (hrest hinto.limit) ?_ hpasses
        rw [hheap]
        exact hclear
      · obtain ⟨hle, hlt, hpasses⟩ := (OpenFile.passes_skip hload).mp hpasses
        rw [loadLoopWatched_header hstocked hoff hle hlt]
        simp only [if_neg hload]
        exact ih _ s₁ hnext hle hstocked₁ hs (OpenFile.keepsToUser_skip hload hle hlt hkeeps)
          (OpenFile.keepsClear_skip hload hle hlt hclear) hpasses

/-- The watch stops what does not keep to user space. -/
theorem loadLoopWatched_stops (t : Nat) : ∀ left off s, off < 2 ^ 32 → s.fdPos ≤ f.iSize →
    Stocked s → s.pager = fullPager resident → f.KeepsClear s.heap.pages left off s.fdPos →
    ¬ f.KeepsToUser resident left off s.fdPos →
    ∃ text, loadLoopWatched f userWatch t left off s = .error (.fault text) := by
  intro left
  induction left with
  | zero => exact fun _ _ _ _ _ _ _ h => absurd trivial h
  | succ left ih =>
      intro off s hoff hpos hstocked hs hclear hkeeps
      have hnext : (off + 32) % 2 ^ 32 < 2 ^ 32 := Nat.mod_lt _ (by decide)
      obtain ⟨hoffset, hsz, haddr⟩ := f.headerAt_lt (f.seekTo s.fdPos off)
      rw [OpenFile.KeepsToUser] at hkeeps
      simp only [Classical.not_imp] at hkeeps
      obtain ⟨hle, hlt, hkeeps⟩ := hkeeps
      let s₁ : Loader := { s with fdPos := f.seekTo s.fdPos off + 32 }
      have hstocked₁ : Stocked s₁ := hstocked.congr rfl rfl
      have hle₁ : s₁.fdPos ≤ f.iSize := hle
      rw [loadLoopWatched_header hstocked hoff hle hlt]
      by_cases hload : (f.headerAt (f.seekTo s.fdPos off)).pType = ptLoad
      · simp only [if_pos hload] at hkeeps ⊢
        by_cases hsegment : f.SegmentInUser resident (f.headerAt (f.seekTo s.fdPos off))
            (f.seekTo s₁.fdPos (f.headerAt (f.seekTo s.fdPos off)).pOffset)
        · obtain ⟨hlimit, hrest⟩ := Classical.not_imp.mp fun h => hkeeps ⟨hsegment, h⟩
          have hinto := hsegment.readsInto (address_ne_zero haddr hsegment.pages) hlimit
          obtain ⟨hown, hclear⟩ := OpenFile.keepsClear_load hload hle hlt hclear hinto
          obtain ⟨s₂, hrun, hpager, hheap, hpos₂⟩ := @segmentLoadWatched_run _ s₁ t _ _ hle₁
            hoffset haddr hstocked₁ hs hsegment hlimit hown
          have hle₂ : s₂.fdPos ≤ f.iSize := by
            rw [hpos₂]
            exact OpenFile.got_le (f.seekTo_le hle _) _
          rw [Prog.bind_of_run hrun, if_pos rfl]
          rw [← hpos₂] at hrest hclear
          refine ih _ s₂ hnext hle₂ (hstocked₁.congr hpager hheap) (hpager.trans hs) ?_ hrest
          rw [hheap]
          exact hclear
        · obtain ⟨text, hstop⟩ := @segmentLoadWatched_stops _ s₁ t _ _ hle₁ hoffset haddr
            hstocked₁ hs hsz hsegment
          exact ⟨text, Prog.bind_of_error hstop⟩
      · simp only [if_neg hload] at hkeeps ⊢
        exact ih _ s₁ hnext hle hstocked₁ hs (OpenFile.keepsClear_skip hload hle hlt hclear) hkeeps

/-! ### `load` -/

/-- A process with all its pages and blocks for the buffers that has opened a file. -/
def fullLoader (resident heap : Nat → Bool) : Loader :=
  ⟨0, fullPager resident, fun _ => 0, heap, false, false⟩

theorem stocked_fullLoader (resident heap : Nat → Bool) : Stocked (fullLoader resident heap) :=
  ⟨rfl, rfl, rfl⟩

theorem loadWatched_header {fd : Int} (hfd : fd ≠ -1) (hstocked : Stocked s) (hpos : s.fdPos = 0)
    (hsize : 52 ≤ f.iSize) (hvalid : f.elf.Valid) : loadWatched f userWatch t fd s = (do
      if ← loadLoopWatched f userWatch t f.elf.ePhnum f.elf.ePhoff then
        return int32 f.elf.eEntry
      else
        return -1 : LoadM Int) { s with fdPos := 52 } := by
  have hread := @fileRead_whole_run f s t (fun _ => 0) 52 hstocked (by decide) (by omega) (by omega)
  unfold loadWatched
  rw [if_neg hfd, Prog.bind_of_run hread, hpos]
  simp only
  rw [if_pos (show ((52 : Nat) : Int) = 52 from rfl), elfHeader_read, ← OpenFile.elf,
    if_pos hvalid]

/-- **When loading stays in user space**: the files that pass the tests of the ELF header and of
which that is true, whatever process loads them that has its heap elsewhere. -/
theorem load_in_user_iff (resident heap : Nat → Bool) (f : OpenFile) (hsize : 52 ≤ f.iSize)
    (hvalid : f.elf.Valid) (hclear : f.ClearOf heap) :
    f.LoadsInUser resident heap ↔ f.KeepsToUser resident f.elf.ePhnum f.elf.ePhoff 52 ∧
      (f.Accepted → f.AsksInUser) := by
  have hphoff : f.elf.ePhoff < 2 ^ 32 := (elfHeader_lt f.bytes).2
  constructor
  · intro hload
    let s : Loader := fullLoader resident heap
    have hstocked : Stocked s := stocked_fullLoader resident heap
    obtain ⟨hnever, hreturns⟩ := hload 0 3 s (userTask_fullPager resident) rfl rfl
    have hheader := @loadWatched_header f s 0 3 (by decide) hstocked rfl hsize hvalid
    let s₁ : Loader := { s with fdPos := 52 }
    have hstocked₁ : Stocked s₁ := hstocked.congr rfl rfl
    have hkeeps : f.KeepsToUser resident f.elf.ePhnum f.elf.ePhoff 52 := by
      by_contra hkeeps
      obtain ⟨text, hstop⟩ :=
        loadLoopWatched_stops 0 _ _ s₁ hphoff hsize hstocked₁ rfl hclear hkeeps
      exact hnever text (hheader.trans (Prog.bind_of_error hstop))
    refine ⟨hkeeps, fun haccepted => ?_⟩
    obtain ⟨s', hrun⟩ :=
      loadLoopWatched_run 0 _ _ s₁ hphoff hsize hstocked₁ rfl hkeeps hclear haccepted.headers
    have hwatched : loadWatched f userWatch 0 3 s = .ok (int32 f.elf.eEntry, s') := by
      rw [hheader, Prog.bind_of_run hrun, if_pos rfl]
      rfl
    rcases @loadWatched_or_load f 0 3 s with hstop | hsame
    · exact absurd hstop (hnever _)
    · refine hreturns _ s' (hsame.symm.trans hwatched) fun hc => haccepted.entry ?_
      exact (Bitmap.int32_eq_neg (elfHeader_lt f.bytes).1).mp hc
  · rintro ⟨hkeeps, hasks⟩ t fd s htask hheap hpos
    refine ⟨fun text hstop => ?_, fun r s' hrun hr => ?_⟩
    · exact (wp_loadWatched t fd hpos htask hkeeps (by rw [hheap]; exact hclear)).of_error hstop
    · exact hasks (load_spec hpos hrun hr).1

/-- The first megabyte, where the kernel is, is mapped in every process. -/
def firstMegabyte (k : Nat) : Bool := 0xc0000 ≤ k ∧ k < 0xc0100

/-- A program at 0xc0001000. -/
def kernelProgram : OpenFile := oneSegment [0, 0x10, 0, 0xc0]

theorem load_in_user_next : nextProgram.LoadsInUser firstMegabyte firstArena := by
  have hpages : ∀ j < occupyPages 0x8049000 4, OpenFile.PageInUser firstMegabyte
      ((0x8049000 / pageSize * pageSize + pageSize * j) % 2 ^ 32) := by decide
  have hbytes : nextProgram.got 84 4 = 0 ∨
      InUser 0x8049000 ∧ 0x8049000 + nextProgram.got 84 4 ≤ 0xc0000000 := by decide +kernel
  have hseen : ∀ ph ∈ nextProgram.seen 1 52 52, ph.pVaddr = 0x8049000 ∧ ph.pFilesz = 4 := by
    decide +kernel
  refine (load_in_user_iff firstMegabyte firstArena nextProgram (by decide) (by decide +kernel)
    clearOf_nextProgram).mpr ⟨fun _ _ => ?_, fun _ ph hph a hcovers => ?_⟩
  · rw [if_pos (by decide +kernel)]
    exact ⟨⟨hpages, fun _ => by decide +kernel, fun _ => hbytes⟩, fun _ => trivial⟩
  · obtain ⟨hvaddr, hfilesz⟩ := hseen ph hph
    obtain ⟨-, hlow, hhigh⟩ := hcovers
    rw [hvaddr] at hlow hhigh
    rw [hfilesz] at hhigh
    unfold InUser userVaddrStart
    omega

/-- It overwrites the kernel. -/
theorem load_in_user_kernel : 52 ≤ kernelProgram.iSize ∧ kernelProgram.elf.Valid ∧
    kernelProgram.ClearOf firstArena ∧ ¬ kernelProgram.LoadsInUser firstMegabyte firstArena := by
  have hvalid : kernelProgram.elf.Valid := by decide +kernel
  have hbelow : ¬ (kernelProgram.got 84 4 = 0 ∨
      0xc0001000 + kernelProgram.got 84 4 ≤ 0xc0000000) := by decide +kernel
  have hclear : kernelProgram.ClearOf firstArena := fun _ _ => by
    rw [if_pos (by decide +kernel)]
    exact fun hinto => absurd hinto.below hbelow
  have hkeeps : ¬ kernelProgram.KeepsToUser firstMegabyte kernelProgram.elf.ePhnum
      kernelProgram.elf.ePhoff 52 := by
    intro h
    have h := h (by decide +kernel) (by decide +kernel)
    rw [if_pos (by decide +kernel)] at h
    exact hbelow ((h.1.bytes (by decide +kernel)).imp_right And.right)
  refine ⟨by decide, hvalid, hclear, fun hload => ?_⟩
  let s : Loader := fullLoader firstMegabyte firstArena
  have hstocked : Stocked s := stocked_fullLoader firstMegabyte firstArena
  obtain ⟨text, hstop⟩ := loadLoopWatched_stops 1 _ _ { s with fdPos := 52 }
    (elfHeader_lt _).2 (by decide) (hstocked.congr rfl rfl) rfl hclear hkeeps
  have hheader := @loadWatched_header kernelProgram s 1 3 (by decide) hstocked rfl (by decide)
    hvalid
  exact (hload 1 3 s (userTask_fullPager firstMegabyte) rfl rfl).1 text
    (hheader.trans (Prog.bind_of_error hstop))

end Exec

end ZyOs
