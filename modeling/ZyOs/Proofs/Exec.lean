/-
What `load` makes of a file.

Where a seek fails the position stays, and where a read comes up short nobody asks, unless it was
a read of a header.  A file that is all there is loaded as it should be.  One that is not may get
through: `Passes` follows the positions and says when.
-/
import ZyOs.Proofs.ExecBuffers
import ZyOs.Proofs.FileReads
import ZyOs.Proofs.FilePosition
import ZyOs.Proofs.Descriptors

namespace ZyOs

open Library

namespace Exec

/-! ### What is in a file -/

/-- Address `a` is one of the segment's. -/
def ProgHeader.Covers (ph : ProgHeader) (a : Nat) : Prop :=
  ph.pType = ptLoad ∧ ph.pVaddr ≤ a ∧ a < ph.pVaddr + ph.pFilesz

namespace OpenFile

variable (f : OpenFile)

def elf : ElfHeader := elfHeader f.bytes

/-- The program header at an offset. -/
def headerAt (off : Nat) : ProgHeader := progHeader (f.bytes.drop off)

/-- Program header `i` of the file. -/
def header (i : Nat) : ProgHeader := f.headerAt (f.elf.ePhoff + 32 * i)

/-- Nothing that is to be loaded has been cut off. -/
structure Complete : Prop where
  elf : 52 ≤ f.iSize
  header : ∀ i < f.elf.ePhnum, f.elf.ePhoff + 32 * (i + 1) ≤ f.iSize
  segment : ∀ i < f.elf.ePhnum, (f.header i).pType = ptLoad →
    (f.header i).pOffset + (f.header i).pFilesz ≤ f.iSize

/-- The segments do not overlap. -/
def Apart : Prop :=
  ∀ i < f.elf.ePhnum, ∀ j < f.elf.ePhnum, i ≠ j →
    ∀ a, ¬ ((f.header i).Covers a ∧ (f.header j).Covers a)

/-- The bytes of the segments are where they belong. -/
def InPlace (mem : Mem) : Prop :=
  ∀ i < f.elf.ePhnum, (f.header i).pType = ptLoad → ∀ k < (f.header i).pFilesz,
    mem ((f.header i).pVaddr + k) = f.bytes ((f.header i).pOffset + k)

/-! ### What `load` reads of it -/

/-- The position after a seek. -/
def seekTo (pos off : Nat) : Nat := if off < f.iSize then off else pos

/-- How many bytes a read gets. -/
def got (pos count : Nat) : Nat := min count (f.iSize - pos)

/-- A segment that is read from `pos` on: nothing stops the kernel. -/
structure ReadsInto (ph : ProgHeader) (pos : Nat) : Prop where
  address : ph.pVaddr ≠ 0
  limit : ReadLimit f.iSize pos ph.pFilesz
  below : f.got pos ph.pFilesz = 0 ∨ ph.pVaddr + f.got pos ph.pFilesz ≤ 0xc0000000

/-- `load` gets past the `left` headers from `off` on, starting at `pos`. -/
def Passes : Nat → Nat → Nat → Prop
  | 0, _, _ => True
  | left + 1, off, pos =>
      let p := f.seekTo pos off
      let ph := f.headerAt p
      let q := f.seekTo (p + 32) ph.pOffset
      p + 32 ≤ f.iSize ∧ p + 32 < 71168 ∧
        if ph.pType = ptLoad then
          f.ReadsInto ph q ∧ Passes left ((off + 32) % 2 ^ 32) (q + f.got q ph.pFilesz)
        else Passes left ((off + 32) % 2 ^ 32) (p + 32)

/-- The memory it leaves. -/
def loaded : Nat → Nat → Nat → Mem → Mem
  | 0, _, _, mem => mem
  | left + 1, off, pos, mem =>
      let p := f.seekTo pos off
      let ph := f.headerAt p
      let q := f.seekTo (p + 32) ph.pOffset
      if ph.pType = ptLoad then
        loaded left ((off + 32) % 2 ^ 32) (q + f.got q ph.pFilesz)
          (mem.splice ph.pVaddr (f.bytes.drop q) (f.got q ph.pFilesz))
      else loaded left ((off + 32) % 2 ^ 32) (p + 32) mem

/-- What is read of the segments is on the pages that have been counted for them, and not on those
of the heap. -/
def KeepsClear (heap : Nat → Bool) : Nat → Nat → Nat → Prop
  | 0, _, _ => True
  | left + 1, off, pos =>
      let p := f.seekTo pos off
      let ph := f.headerAt p
      let q := f.seekTo (p + 32) ph.pOffset
      p + 32 ≤ f.iSize → p + 32 < 71168 →
        if ph.pType = ptLoad then
          f.ReadsInto ph q → OnOwnPages heap ph.pVaddr ph.pFilesz (f.got q ph.pFilesz) ∧
            KeepsClear heap left ((off + 32) % 2 ^ 32) (q + f.got q ph.pFilesz)
        else KeepsClear heap left ((off + 32) % 2 ^ 32) (p + 32)

section Step

variable {f} {left off pos : Nat} {mem : Mem} {heap : Nat → Bool}

theorem passes_load (h : (f.headerAt (f.seekTo pos off)).pType = ptLoad) :
    f.Passes (left + 1) off pos ↔
      let p := f.seekTo pos off
      let q := f.seekTo (p + 32) (f.headerAt p).pOffset
      p + 32 ≤ f.iSize ∧ p + 32 < 71168 ∧ f.ReadsInto (f.headerAt p) q ∧
        f.Passes left ((off + 32) % 2 ^ 32) (q + f.got q (f.headerAt p).pFilesz) := by
  rw [Passes]
  simp only [if_pos h]

theorem passes_skip (h : (f.headerAt (f.seekTo pos off)).pType ≠ ptLoad) :
    f.Passes (left + 1) off pos ↔
      let p := f.seekTo pos off
      p + 32 ≤ f.iSize ∧ p + 32 < 71168 ∧ f.Passes left ((off + 32) % 2 ^ 32) (p + 32) := by
  rw [Passes]
  simp only [if_neg h]

theorem keepsClear_load (h : (f.headerAt (f.seekTo pos off)).pType = ptLoad)
    (hle : f.seekTo pos off + 32 ≤ f.iSize) (hlt : f.seekTo pos off + 32 < 71168)
    (hclear : f.KeepsClear heap (left + 1) off pos) :
    let ph := f.headerAt (f.seekTo pos off)
    let q := f.seekTo (f.seekTo pos off + 32) ph.pOffset
    f.ReadsInto ph q → OnOwnPages heap ph.pVaddr ph.pFilesz (f.got q ph.pFilesz) ∧
      f.KeepsClear heap left ((off + 32) % 2 ^ 32) (q + f.got q ph.pFilesz) := by
  rw [KeepsClear] at hclear
  simpa only [if_pos h] using hclear hle hlt

theorem keepsClear_skip (h : (f.headerAt (f.seekTo pos off)).pType ≠ ptLoad)
    (hle : f.seekTo pos off + 32 ≤ f.iSize) (hlt : f.seekTo pos off + 32 < 71168)
    (hclear : f.KeepsClear heap (left + 1) off pos) :
    f.KeepsClear heap left ((off + 32) % 2 ^ 32) (f.seekTo pos off + 32) := by
  rw [KeepsClear] at hclear
  simpa only [if_neg h] using hclear hle hlt

theorem loaded_load (h : (f.headerAt (f.seekTo pos off)).pType = ptLoad) :
    f.loaded (left + 1) off pos mem =
      let p := f.seekTo pos off
      let ph := f.headerAt p
      let q := f.seekTo (p + 32) ph.pOffset
      f.loaded left ((off + 32) % 2 ^ 32) (q + f.got q ph.pFilesz)
        (mem.splice ph.pVaddr (f.bytes.drop q) (f.got q ph.pFilesz)) := by
  rw [loaded]
  simp only [if_pos h]

theorem loaded_skip (h : (f.headerAt (f.seekTo pos off)).pType ≠ ptLoad) :
    f.loaded (left + 1) off pos mem
      = f.loaded left ((off + 32) % 2 ^ 32) (f.seekTo pos off + 32) mem := by
  rw [loaded]
  simp only [if_neg h]

end Step

/-- The file is taken for a program. -/
structure Accepted : Prop where
  size : 52 ≤ f.iSize
  valid : f.elf.Valid
  entry : f.elf.eEntry ≠ 0xffffffff
  headers : f.Passes f.elf.ePhnum f.elf.ePhoff 52

/-- Loading it does not get at the heap of a process with these pages. -/
def ClearOf (heap : Nat → Bool) : Prop := f.KeepsClear heap f.elf.ePhnum f.elf.ePhoff 52

end OpenFile

/-! ### The calls -/

variable {f : OpenFile} {s s' : Loader} {t pos count off : Nat} {buf : Mem}

/-- A seek to an offset within the file; any other one changes nothing. -/
theorem sysLseek_run (hoff : off < 2 ^ 32) :
    ∃ r, sysLseek f off s = .ok (r, { s with fdPos := f.seekTo s.fdPos off }) := by
  have hle := f.size_le
  have hsize : int32 f.iSize = f.iSize := Bitmap.int32_of_lt (by omega)
  unfold sysLseek OpenFile.seekTo
  by_cases hin : off < f.iSize
  · have hoff : int32 off = off := Bitmap.int32_of_lt (by omega)
    rw [if_pos hin, hsize, hoff, if_neg (by omega), Int.toNat_natCast]
    exact ⟨_, rfl⟩
  · have hout : int32 off < 0 ∨ int32 f.iSize - 1 < int32 off := by
      rw [hsize]
      unfold int32
      split_ifs <;> omega
    rw [if_neg hin, if_pos hout]
    exact ⟨_, rfl⟩

theorem readBlocks_run {size : Nat} (h : s.fdPos + size < 71168) :
    readBlocks f buf size s
      = .ok (((size : Int), buf.splice 0 (f.bytes.drop s.fdPos) size),
        { s with fdPos := s.fdPos + size }) := by
  unfold readBlocks
  rw [Prog.bind_of_run (Prog.get_run s), Nat.mod_eq_of_lt (show s.fdPos + size < 2 ^ 32 by omega),
    ASSERT_pos (by omega), Prog.bind_of_run (Prog.lift_ok _ s), if_pos (by omega),
    Bitmap.int32_of_lt (by omega)]
  rfl

theorem readBlocks_fits {size : Nat} {r : Int × Mem}
    (h : readBlocks f buf size s = .ok (r, s')) : s.fdPos + size < 71168 := by
  unfold readBlocks at h
  rw [Prog.bind_of_run (Prog.get_run s)] at h
  obtain ⟨_, s₁, hassert, h⟩ := Prog.bind_run.mp h
  obtain ⟨hassert, hs₁⟩ := Prog.lift_run.mp hassert
  by_cases hidx : s.fdPos / 512 < 139 ∧ (s.fdPos + size) % 2 ^ 32 / 512 < 139
  · by_cases hend : s.fdPos + size ≤ 512 * 140
    · omega
    · rw [if_neg hend] at h
      cases h
  · rw [ASSERT_neg hidx] at hassert
    cases hassert

/-- What has been done when the buffers are gone. -/
theorem readBytes_spec {size : Nat} {r : Int × Mem} (h : readBytes f t buf size s = .ok (r, s')) :
    s.fdPos + size < 71168 ∧ r = ((size : Int), buf.splice 0 (f.bytes.drop s.fdPos) size) ∧
      ∃ p, s' = { s with fdPos := s.fdPos + size, pager := p } := by
  rw [readBytes, Prog.bind_of_run (Prog.get_run s)] at h
  obtain ⟨p₁, p₂, s₂, h₁, rfl⟩ := withBuffer_spec h
  obtain ⟨p₃, p₄, s₃, h₃, rfl⟩ := withBuffer_spec h₁
  have hfits := readBlocks_fits h₃
  rw [readBlocks_run hfits] at h₃
  cases h₃
  exact ⟨hfits, rfl, p₂, rfl⟩

/-- What a read returns. -/
def OpenFile.readCount (f : OpenFile) (pos n : Nat) : Int :=
  if pos = f.iSize ∧ 1 ≤ n then -1 else f.got pos n

theorem OpenFile.got_fits (hpos : pos ≤ f.iSize) (hlimit : ReadLimit f.iSize pos count)
    (hend : ¬ (pos = f.iSize ∧ 1 ≤ count)) : pos + f.got pos count < 71168 := by
  have hle := f.size_le
  unfold ReadLimit at hlimit
  unfold OpenFile.got
  omega

/-- Within the limit it is `readBytes` for what there is, or the end of the file. -/
theorem fileRead_eq (hpos : s.fdPos ≤ f.iSize) (hlimit : ReadLimit f.iSize s.fdPos count) :
    fileRead f t buf count s = if s.fdPos = f.iSize ∧ 1 ≤ count then .ok ((-1, buf), s)
      else readBytes f t buf (f.got s.fdPos count) s := by
  have hle := f.size_le
  obtain ⟨hwrap, hshort⟩ := hlimit
  have hsub : sub32 f.iSize s.fdPos = f.iSize - s.fdPos := by
    unfold sub32
    omega
  unfold fileRead
  rw [Prog.bind_of_run (Prog.get_run s), Nat.mod_eq_of_lt hwrap, hsub]
  by_cases hend : s.fdPos = f.iSize ∧ 1 ≤ count
  · rw [if_pos (by omega), if_pos (by omega), if_pos hend]
    rfl
  · rw [if_neg hend]
    by_cases hlong : f.iSize < s.fdPos + count
    · have hall : f.got s.fdPos count = f.iSize - s.fdPos := by
        unfold OpenFile.got
        omega
      rw [if_pos hlong, if_neg (by omega), hall]
    · have hall : f.got s.fdPos count = count := by
        unfold OpenFile.got
        omega
      rw [if_neg hlong, hall]

/-- A read that returns was within the limit. -/
theorem fileRead_limit {r : Int × Mem} (hpos : s.fdPos ≤ f.iSize) (hcount : count < 2 ^ 32)
    (h : fileRead f t buf count s = .ok (r, s')) : ReadLimit f.iSize s.fdPos count := by
  have hle := f.size_le
  unfold fileRead at h
  rw [Prog.bind_of_run (Prog.get_run s)] at h
  by_cases hlong : f.iSize < (s.fdPos + count) % 2 ^ 32
  · have hsub : sub32 f.iSize s.fdPos = f.iSize - s.fdPos := by
      unfold sub32
      omega
    have hwrap : s.fdPos + count < 2 ^ 32 := by omega
    rw [if_pos hlong, hsub] at h
    by_cases hend : f.iSize - s.fdPos = 0
    · exact ⟨hwrap, .inr ⟨by omega, by omega⟩⟩
    · rw [if_neg hend] at h
      have hfits := (readBytes_spec h).1
      exact ⟨hwrap, .inl (by omega)⟩
  · rw [if_neg hlong] at h
    have hfits := (readBytes_spec h).1
    exact ⟨by omega, .inl (by omega)⟩

/-- What is left of the buffer when a read gets nothing. -/
theorem OpenFile.readCount_end (hend : pos = f.iSize ∧ 1 ≤ count) :
    f.readCount pos count = -1 ∧ f.got pos count = 0 := by
  refine ⟨if_pos hend, ?_⟩
  unfold OpenFile.got
  omega

/-- What a read has done that returns. -/
theorem fileRead_spec {r : Int × Mem} (hpos : s.fdPos ≤ f.iSize) (hcount : count < 2 ^ 32)
    (h : fileRead f t buf count s = .ok (r, s')) : ReadLimit f.iSize s.fdPos count ∧
      r = (f.readCount s.fdPos count,
        buf.splice 0 (f.bytes.drop s.fdPos) (f.got s.fdPos count)) ∧
      ∃ p, s' = { s with fdPos := s.fdPos + f.got s.fdPos count, pager := p } := by
  have hlimit := fileRead_limit hpos hcount h
  refine ⟨hlimit, ?_⟩
  rw [fileRead_eq hpos hlimit] at h
  by_cases hend : s.fdPos = f.iSize ∧ 1 ≤ count
  · obtain ⟨hminus, hnone⟩ := OpenFile.readCount_end hend
    rw [if_pos hend] at h
    cases h
    rw [hminus, hnone, Mem.splice_zero]
    exact ⟨rfl, s.pager, rfl⟩
  · rw [if_neg hend] at h
    obtain ⟨-, hr, hs'⟩ := readBytes_spec h
    rw [OpenFile.readCount, if_neg hend]
    exact ⟨hr, hs'⟩

/-! ### Where there are blocks -/

/-- There is a block for both buffers, and the lock of the pool is free. -/
structure Stocked (s : Loader) : Prop where
  ioBuf : s.heap.noIoBuf = false
  allBlocks : s.heap.noAllBlocks = false
  lock : s.pager.userPool.lock = .free

theorem Stocked.congr (h : Stocked s) (hpager : s'.pager = s.pager) (hheap : s'.heap = s.heap) :
    Stocked s' :=
  ⟨by rw [hheap]; exact h.ioBuf, by rw [hheap]; exact h.allBlocks, by rw [hpager]; exact h.lock⟩

theorem withLock_free {p : Pager} (h : p.userPool.lock = .free) :
    p.withLock .user (p.userPool.lock.acquire t).release = p := by
  rw [h]
  show p.withLock .user .free = p
  rw [← h]
  rfl

/-- Then a buffer leaves no trace. -/
theorem withBuffer_stocked {α : Type} {x : LoadM α} (hlock : s.pager.userPool.lock = .free)
    (hx : ∀ a s₂, x s = .ok (a, s₂) → s₂.pager = s.pager) : withBuffer t false x s = x s := by
  have htake := onPager_run (s := s) (takeBuffer_block (t := t))
  rw [withLock_free hlock] at htake
  rw [withBuffer, Prog.bind_of_run htake]
  cases hrun : x s with
  | error e => rw [Prog.bind_of_error hrun]
  | ok r =>
      have hpager := hx r.1 r.2 hrun
      have hgive := onPager_run (s := r.2) (giveBuffer_block (t := t))
      rw [withLock_free (by rw [hpager]; exact hlock)] at hgive
      rw [Prog.bind_of_run hrun, Prog.bind_of_run hgive]
      rfl

theorem readBytes_stocked {size : Nat} (h : Stocked s) :
    readBytes f t buf size s = readBlocks f buf size s := by
  have hkeeps : ∀ r s₂, readBlocks f buf size s = .ok (r, s₂) → s₂.pager = s.pager := by
    intro r s₂ hrun
    rw [readBlocks_run (readBlocks_fits hrun)] at hrun
    cases hrun
    rfl
  have hinner := withBuffer_stocked (t := t) h.lock hkeeps
  rw [readBytes, Prog.bind_of_run (Prog.get_run s), h.ioBuf, h.allBlocks,
    withBuffer_stocked h.lock (by rw [hinner]; exact hkeeps), hinner]

/-- Within the limit a read gets what there is. -/
theorem fileRead_run (h : Stocked s) (hpos : s.fdPos ≤ f.iSize)
    (hlimit : ReadLimit f.iSize s.fdPos count) :
    fileRead f t buf count s = .ok ((f.readCount s.fdPos count,
        buf.splice 0 (f.bytes.drop s.fdPos) (f.got s.fdPos count)),
      { s with fdPos := s.fdPos + f.got s.fdPos count }) := by
  rw [fileRead_eq hpos hlimit]
  by_cases hend : s.fdPos = f.iSize ∧ 1 ≤ count
  · obtain ⟨hminus, hnone⟩ := OpenFile.readCount_end hend
    rw [if_pos hend, hminus, hnone, Mem.splice_zero]
    rfl
  · rw [if_neg hend, OpenFile.readCount, if_neg hend, readBytes_stocked h,
      readBlocks_run (f.got_fits hpos hlimit hend)]

/-! ### Pages -/

/-- The loop over the pages has nothing to do with the file or the memory. -/
theorem mapPages_spec : ∀ (n vaddrPage : Nat) (s s' : Loader) (ok : Bool),
    mapPages t n vaddrPage s = .ok (ok, s') → ∃ p, s' = { s with pager := p } := by
  intro n
  induction n with
  | zero =>
      intro vaddrPage s s' ok h
      cases h
      exact ⟨s.pager, rfl⟩
  | succ n ih =>
      intro vaddrPage s s' ok h
      rw [mapPages, Prog.bind_of_run (Prog.get_run s)] at h
      split_ifs at h with hmapped hkernel
      · exact ih _ s s' ok h
      · cases h
      · obtain ⟨page, s₁, hpage, h⟩ := Prog.bind_run.mp h
        obtain ⟨p, -, rfl⟩ := onPager_spec hpage
        cases page with
        | none =>
            cases h
            exact ⟨p, rfl⟩
        | some a =>
            obtain ⟨p', hs'⟩ := ih ((vaddrPage + pageSize) % 2 ^ 32) _ s' ok h
            exact ⟨p', hs'⟩

/-- Every page is there. -/
def AllMapped (s : Loader) : Prop :=
  (∀ i, present (s.pager.pde i) = true) ∧ ∀ k, present (s.pager.pte k) = true

theorem mapPages_run (h : AllMapped s) :
    ∀ n vaddrPage, mapPages t n vaddrPage s = .ok (true, s) := by
  intro n
  induction n with
  | zero => exact fun _ => rfl
  | succ n ih =>
      intro vaddrPage
      rw [mapPages, Prog.bind_of_run (Prog.get_run s), if_pos ⟨h.1 _, h.2 _⟩]
      exact ih _

/-! ### Segments -/

theorem OpenFile.seekTo_le {p : Nat} (hp : p ≤ f.iSize) (off : Nat) : f.seekTo p off ≤ f.iSize := by
  unfold OpenFile.seekTo
  split_ifs <;> omega

/-- The buffer is the memory itself. -/
theorem splice_back (mem src : Mem) (a n : Nat) :
    mem.splice a ((mem.drop a).splice 0 src n) n = mem.splice a src n := by
  funext i
  by_cases hi : a ≤ i ∧ i < a + n
  · rw [Mem.splice_in hi.1 hi.2, Mem.splice_in hi.1 hi.2, Mem.splice_in (by omega) (by omega),
      Nat.sub_zero]
  · rw [Mem.splice_out (by omega), Mem.splice_out (by omega)]

theorem OpenFile.readCount_toNat (pos count : Nat) :
    (f.readCount pos count).toNat = f.got pos count := by
  unfold OpenFile.readCount OpenFile.got
  split_ifs <;> omega

theorem sysRead_eq {addr : Nat} (h : addr ≠ 0) :
    sysRead f t addr buf count s = fileRead f t buf count s := by
  rw [sysRead, ASSERT_pos h, Prog.bind_of_run (Prog.lift_ok _ _)]

theorem sysRead_run {addr : Nat} {r : Int × Mem}
    (h : sysRead f t addr buf count s = .ok (r, s')) :
    addr ≠ 0 ∧ fileRead f t buf count s = .ok (r, s') := by
  by_cases haddr : addr = 0
  · rw [sysRead, ASSERT_neg (not_not_intro haddr)] at h
    cases h
  · exact ⟨haddr, sysRead_eq haddr ▸ h⟩

theorem putSegment_run {vaddr filesz n : Nat} (h : OnOwnPages s.heap.pages vaddr filesz n) :
    putSegment vaddr filesz n buf s
      = .ok (true, { s with mem := s.mem.splice vaddr buf n }) := by
  rw [putSegment, Prog.bind_of_run (Prog.get_run s), if_pos h]
  rfl

theorem putSegment_spec {vaddr filesz n : Nat} {ok : Bool}
    (h : putSegment vaddr filesz n buf s = .ok (ok, s')) :
    s' = { s with mem := s.mem.splice vaddr buf n } := by
  by_cases hown : OnOwnPages s.heap.pages vaddr filesz n
  · rw [putSegment_run hown] at h
    cases h
    rfl
  · rw [putSegment, Prog.bind_of_run (Prog.get_run s), if_neg hown] at h
    cases h

theorem segmentLoad_spec {ph : ProgHeader} (hpos : s.fdPos ≤ f.iSize) (hoff : ph.pOffset < 2 ^ 32)
    (hsz : ph.pFilesz < 2 ^ 32)
    (h : segmentLoad f t ph.pOffset ph.pFilesz ph.pVaddr s = .ok (true, s')) :
    let q := f.seekTo s.fdPos ph.pOffset
    f.ReadsInto ph q ∧ s'.fdPos = q + f.got q ph.pFilesz ∧
      s'.mem = s.mem.splice ph.pVaddr (f.bytes.drop q) (f.got q ph.pFilesz) := by
  intro q
  unfold segmentLoad at h
  obtain ⟨ok, s₁, hmap, h⟩ := Prog.bind_run.mp h
  obtain ⟨p₁, rfl⟩ := mapPages_spec _ _ _ _ _ hmap
  cases ok with
  | false => cases h
  | true =>
      simp only [if_true] at h
      obtain ⟨_, hseek⟩ := sysLseek_run (f := f) (s := { s with pager := p₁ }) hoff
      rw [Prog.bind_of_run hseek, Prog.bind_of_run (Prog.get_run _)] at h
      obtain ⟨⟨n, buf⟩, s₂, hread, h⟩ := Prog.bind_run.mp h
      obtain ⟨haddr, hread⟩ := sysRead_run hread
      have hq : q ≤ f.iSize := f.seekTo_le hpos _
      obtain ⟨hlimit, hr, p₂, rfl⟩ := fileRead_spec hq hsz hread
      cases hr
      simp only at h
      split_ifs at h with hbelow
      · cases h
      · cases putSegment_spec h
        refine ⟨⟨haddr, hlimit, ?_⟩, rfl, ?_⟩
        · have hgot : ((f.readCount q ph.pFilesz).toNat : Int) = f.got q ph.pFilesz :=
            congrArg _ (OpenFile.readCount_toNat _ _)
          have hbelow : ¬ (0 < f.readCount q ph.pFilesz ∧
            0xc0000000 < ph.pVaddr + f.readCount q ph.pFilesz) := hbelow
          omega
        · show Mem.splice _ _ _ _ = _
          rw [OpenFile.readCount_toNat, splice_back]

/-- Where all pages are there a segment that can be read is. -/
theorem segmentLoad_run {ph : ProgHeader} (hpos : s.fdPos ≤ f.iSize) (hoff : ph.pOffset < 2 ^ 32)
    (hstocked : Stocked s) (hmapped : AllMapped s)
    (h : f.ReadsInto ph (f.seekTo s.fdPos ph.pOffset))
    (hown : OnOwnPages s.heap.pages ph.pVaddr ph.pFilesz
      (f.got (f.seekTo s.fdPos ph.pOffset) ph.pFilesz)) :
    ∃ s', segmentLoad f t ph.pOffset ph.pFilesz ph.pVaddr s = .ok (true, s') ∧
      s'.pager = s.pager ∧ s'.heap = s.heap := by
  let s₁ : Loader := { s with fdPos := f.seekTo s.fdPos ph.pOffset }
  have hq : s₁.fdPos ≤ f.iSize := f.seekTo_le hpos _
  have hstocked₁ : Stocked s₁ := hstocked.congr rfl rfl
  unfold segmentLoad
  obtain ⟨_, hseek⟩ := sysLseek_run (f := f) (s := s) hoff
  rw [Prog.bind_of_run (mapPages_run hmapped _ _), if_pos rfl, Prog.bind_of_run hseek,
    Prog.bind_of_run (Prog.get_run _)]
  rw [Prog.bind_of_run ((sysRead_eq h.address).trans (fileRead_run hstocked₁ hq h.limit))]
  have hbelow : f.got s₁.fdPos ph.pFilesz = 0 ∨
    ph.pVaddr + f.got s₁.fdPos ph.pFilesz ≤ 0xc0000000 := h.below
  have hgot := f.readCount_toNat s₁.fdPos ph.pFilesz
  simp only
  rw [if_neg (by omega), hgot]
  exact ⟨_, putSegment_run hown, rfl, rfl⟩

/-! ### The loop over the headers -/

theorem progHeader_congr {m m' : Mem} (h : ∀ i < 32, m i = m' i) :
    progHeader m = progHeader m' := by
  have hword : ∀ a, a + 3 < 32 → getWord m a = getWord m' a := by
    intro a ha
    unfold getWord
    rw [h a (by omega), h (a + 1) (by omega), h (a + 2) (by omega), h (a + 3) ha]
  unfold progHeader
  rw [hword 0 (by decide), hword 4 (by decide), hword 8 (by decide), hword 16 (by decide)]

theorem elfHeader_congr {m m' : Mem} (h : ∀ i < 52, m i = m' i) : elfHeader m = elfHeader m' := by
  have hword : ∀ a, a + 3 < 52 → getWord m a = getWord m' a := by
    intro a ha
    unfold getWord
    rw [h a (by omega), h (a + 1) (by omega), h (a + 2) (by omega), h (a + 3) ha]
  have hhalf : ∀ a, a + 1 < 52 → getHalf m a = getHalf m' a := by
    intro a ha
    unfold getHalf
    rw [h a (by omega), h (a + 1) ha]
  have hident : (List.range 16).map m = (List.range 16).map m' :=
    List.map_congr_left fun i hi => h i (by have := List.mem_range.mp hi; omega)
  unfold elfHeader
  rw [hident, hhalf 16 (by decide), hhalf 18 (by decide), hhalf 42 (by decide),
    hhalf 44 (by decide), hword 20 (by decide), hword 24 (by decide), hword 28 (by decide)]

theorem progHeader_read (m : Mem) (p : Nat) :
    progHeader (Mem.splice (fun _ => 0) 0 (m.drop p) 32) = progHeader (m.drop p) :=
  progHeader_congr fun i hi => by rw [Mem.splice_in (by omega) (by omega), Nat.sub_zero]

theorem OpenFile.headerAt_lt (f : OpenFile) (p : Nat) : (f.headerAt p).pOffset < 2 ^ 32 ∧
    (f.headerAt p).pFilesz < 2 ^ 32 ∧ (f.headerAt p).pVaddr < 2 ^ 32 :=
  ⟨UInt32.toNat_lt _, UInt32.toNat_lt _, UInt32.toNat_lt _⟩

/-- A header is read as a whole or `load` gives up. -/
theorem fileRead_whole {n : Nat} {b : Mem} (hpos : s.fdPos ≤ f.iSize) (hn : n < 2 ^ 32)
    (h1 : 1 ≤ n) (h : fileRead f t buf n s = .ok (((n : Int), b), s')) :
    s.fdPos + n ≤ f.iSize ∧ s.fdPos + n < 71168 ∧ b = buf.splice 0 (f.bytes.drop s.fdPos) n ∧
      ∃ p, s' = { s with fdPos := s.fdPos + n, pager := p } := by
  obtain ⟨hlimit, hr, p, rfl⟩ := fileRead_spec hpos hn h
  obtain ⟨hcount, rfl⟩ := Prod.mk.inj hr
  have hgot : f.got s.fdPos n = n := by
    rw [← OpenFile.readCount_toNat, ← hcount, Int.toNat_natCast]
  have hle : s.fdPos + n ≤ f.iSize := by
    unfold OpenFile.got at hgot
    omega
  refine ⟨hle, ?_, by rw [hgot], p, by rw [hgot]⟩
  obtain ⟨-, hshort⟩ := hlimit
  omega

/-- What is there is got. -/
theorem OpenFile.got_whole {n : Nat} (h1 : 1 ≤ n) (hle : pos + n ≤ f.iSize) :
    f.got pos n = n ∧ f.readCount pos n = n := by
  have hgot : f.got pos n = n := by
    unfold OpenFile.got
    omega
  exact ⟨hgot, by rw [OpenFile.readCount, if_neg (by omega), hgot]⟩

theorem fileRead_whole_run {n : Nat} (hstocked : Stocked s) (h1 : 1 ≤ n)
    (hle : s.fdPos + n ≤ f.iSize) (h : s.fdPos + n < 71168) :
    fileRead f t buf n s = .ok (((n : Int), buf.splice 0 (f.bytes.drop s.fdPos) n),
      { s with fdPos := s.fdPos + n }) := by
  obtain ⟨hgot, hcount⟩ := OpenFile.got_whole h1 hle
  have hlimit : ReadLimit f.iSize s.fdPos n := ⟨by omega, .inl (by omega)⟩
  rw [fileRead_run hstocked (by omega) hlimit, hcount, hgot]

theorem OpenFile.got_le {p : Nat} (hp : p ≤ f.iSize) (n : Nat) : p + f.got p n ≤ f.iSize := by
  unfold OpenFile.got
  omega

/-- What the loop has done when it returns `true`. -/
theorem loadLoop_spec : ∀ (left off : Nat) (s s' : Loader), off < 2 ^ 32 → s.fdPos ≤ f.iSize →
    loadLoop f t left off s = .ok (true, s') →
    f.Passes left off s.fdPos ∧ s'.mem = f.loaded left off s.fdPos s.mem := by
  intro left
  induction left with
  | zero =>
      intro off s s' _ _ h
      cases h
      exact ⟨trivial, rfl⟩
  | succ left ih =>
      intro off s s' hoff hpos h
      rw [loadLoop] at h
      obtain ⟨_, hseek⟩ := sysLseek_run (f := f) (s := s) hoff
      rw [Prog.bind_of_run hseek] at h
      obtain ⟨⟨n, buf⟩, s₁, hread, h⟩ := Prog.bind_run.mp h
      have hp : f.seekTo s.fdPos off ≤ f.iSize := f.seekTo_le hpos off
      simp only at h
      by_cases hn : n = 32
      · subst hn
        obtain ⟨hle, hlt, rfl, p₁, rfl⟩ := fileRead_whole hp (by decide) (by decide) hread
        rw [if_pos rfl, progHeader_read] at h
        have hnext : (off + 32) % 2 ^ 32 < 2 ^ 32 := Nat.mod_lt _ (by decide)
        obtain ⟨hoffset, hsz, -⟩ := f.headerAt_lt (f.seekTo s.fdPos off)
        by_cases hload : (f.headerAt (f.seekTo s.fdPos off)).pType = ptLoad
        · rw [OpenFile.passes_load hload, OpenFile.loaded_load hload]
          rw [OpenFile.headerAt] at hload
          rw [if_pos hload] at h
          obtain ⟨ok, s₂, hsegment, h⟩ := Prog.bind_run.mp h
          cases ok with
          | false => cases h
          | true =>
              obtain ⟨hinto, hpos₂, hmem₂⟩ := segmentLoad_spec hle hoffset hsz hsegment
              have hpos₃ : s₂.fdPos ≤ f.iSize := by
                rw [hpos₂]
                exact OpenFile.got_le (f.seekTo_le hle _) _
              obtain ⟨hpasses, hmem⟩ := ih _ _ _ hnext hpos₃ h
              rw [hpos₂] at hpasses hmem
              rw [hmem₂] at hmem
              exact ⟨⟨hle, hlt, hinto, hpasses⟩, hmem⟩
        · rw [OpenFile.passes_skip hload, OpenFile.loaded_skip hload]
          rw [OpenFile.headerAt] at hload
          rw [if_neg hload] at h
          obtain ⟨hpasses, hmem⟩ := ih _ _ _ hnext hle h
          exact ⟨⟨hle, hlt, hpasses⟩, hmem⟩
      · rw [if_neg hn] at h
        cases h

/-- The loop once a header has been read. -/
theorem loadLoop_header {left : Nat} (hoff : off < 2 ^ 32)
    (hread : fileRead f t (fun _ => 0) 32 { s with fdPos := f.seekTo s.fdPos off }
      = .ok (((32 : Nat), Mem.splice (fun _ => 0) 0 (f.bytes.drop (f.seekTo s.fdPos off)) 32), s')) :
    loadLoop f t (left + 1) off s = (do
      let ph := f.headerAt (f.seekTo s.fdPos off)
      if ph.pType = ptLoad then
        if ← segmentLoad f t ph.pOffset ph.pFilesz ph.pVaddr then
          loadLoop f t left ((off + 32) % 2 ^ 32)
        else
          return false
      else
        loadLoop f t left ((off + 32) % 2 ^ 32) : LoadM Bool) s' := by
  obtain ⟨_, hseek⟩ := sysLseek_run (f := f) (s := s) hoff
  rw [loadLoop, Prog.bind_of_run hseek, Prog.bind_of_run hread]
  simp only
  rw [if_pos (show ((32 : Nat) : Int) = 32 from rfl), progHeader_read]
  rfl

/-- Where all pages are there the loop gets through. -/
theorem loadLoop_run : ∀ (left off : Nat) (s : Loader), off < 2 ^ 32 → s.fdPos ≤ f.iSize →
    Stocked s → AllMapped s → f.KeepsClear s.heap.pages left off s.fdPos →
    f.Passes left off s.fdPos → ∃ s', loadLoop f t left off s = .ok (true, s') := by
  intro left
  induction left with
  | zero => exact fun off s _ _ _ _ _ _ => ⟨s, rfl⟩
  | succ left ih =>
      intro off s hoff hpos hstocked hmapped hclear h
      have hnext : (off + 32) % 2 ^ 32 < 2 ^ 32 := Nat.mod_lt _ (by decide)
      obtain ⟨hoffset, hsz, -⟩ := f.headerAt_lt (f.seekTo s.fdPos off)
      let s₁ : Loader := { s with fdPos := f.seekTo s.fdPos off + 32 }
      have hstocked₁ : Stocked s₁ := hstocked.congr rfl rfl
      have hmapped₁ : AllMapped s₁ := hmapped
      have hwhole := fun hle hlt => @fileRead_whole_run f
        { s with fdPos := f.seekTo s.fdPos off } t (fun _ => 0) 32 (hstocked.congr rfl rfl)
        (by decide) hle hlt
      by_cases hload : (f.headerAt (f.seekTo s.fdPos off)).pType = ptLoad
      · obtain ⟨hle, hlt, hinto, hpasses⟩ := (OpenFile.passes_load hload).mp h
        obtain ⟨hown, hclear⟩ := OpenFile.keepsClear_load hload hle hlt hclear hinto
        obtain ⟨s₂, hsegment, hpager, hheap⟩ := @segmentLoad_run f s₁ t _ hle hoffset hstocked₁
          hmapped₁ hinto hown
        obtain ⟨-, hpos₂, -⟩ := @segmentLoad_spec f s₁ s₂ t _ hle hoffset hsz hsegment
        rw [← hpos₂] at hpasses hclear
        have hpos₃ : s₂.fdPos ≤ f.iSize := by
          rw [hpos₂]
          exact OpenFile.got_le (f.seekTo_le hle _) _
        rw [loadLoop_header hoff (hwhole hle hlt)]
        simp only [if_pos hload]
        rw [Prog.bind_of_run hsegment, if_pos rfl]
        refine ih _ s₂ hnext hpos₃ (hstocked₁.congr hpager hheap) ?_ ?_ hpasses
        · rw [AllMapped, hpager]
          exact hmapped
        · rw [hheap]
          exact hclear
      · obtain ⟨hle, hlt, hpasses⟩ := (OpenFile.passes_skip hload).mp h
        rw [loadLoop_header hoff (hwhole hle hlt)]
        simp only [if_neg hload]
        exact ih _ s₁ hnext hle hstocked₁ hmapped₁
          (OpenFile.keepsClear_skip hload hle hlt hclear) hpasses

/-! ### Files that are all there -/

namespace OpenFile

/-- The seek to a segment of a complete file; an empty one may lie at the end of it. -/
theorem Complete.splice_segment {i p : Nat} (h : f.Complete) (hi : i < f.elf.ePhnum)
    (hload : (f.header i).pType = ptLoad) (mem : Mem) :
    let q := f.seekTo p (f.header i).pOffset
    mem.splice (f.header i).pVaddr (f.bytes.drop q) (f.got q (f.header i).pFilesz)
      = mem.splice (f.header i).pVaddr (f.bytes.drop (f.header i).pOffset)
        (f.header i).pFilesz := by
  intro q
  have hsegment := h.segment i hi hload
  by_cases hin : (f.header i).pOffset < f.iSize
  · have hq : q = (f.header i).pOffset := if_pos hin
    have hgot : f.got q (f.header i).pFilesz = (f.header i).pFilesz := by
      rw [hq]
      unfold got
      omega
    rw [hgot, hq]
  · have hnone : (f.header i).pFilesz = 0 := by omega
    have hgot : f.got q (f.header i).pFilesz = 0 := by
      rw [hnone]
      exact Nat.zero_min _
    rw [hgot, hnone, Mem.splice_zero, Mem.splice_zero]

/-- Of a complete file the loop loads the segments from `i` on and nothing else. -/
theorem Complete.loaded (h : f.Complete) (happart : f.Apart) : ∀ (left i pos : Nat) (mem : Mem),
    i + left = f.elf.ePhnum →
    (∀ j, i ≤ j → j < f.elf.ePhnum → (f.header j).pType = ptLoad →
      ∀ k < (f.header j).pFilesz, f.loaded left (f.elf.ePhoff + 32 * i) pos mem
        ((f.header j).pVaddr + k) = f.bytes ((f.header j).pOffset + k)) ∧
    ∀ a, (∀ j, i ≤ j → j < f.elf.ePhnum → ¬ (f.header j).Covers a) →
      f.loaded left (f.elf.ePhoff + 32 * i) pos mem a = mem a := by
  have hsize := f.size_le
  intro left
  induction left with
  | zero =>
      intro i pos mem hi
      exact ⟨fun j hij hj => absurd hj (by omega), fun a _ => rfl⟩
  | succ left ih =>
      intro i pos mem hi
      have hheader := h.header i (by omega)
      have hp : f.seekTo pos (f.elf.ePhoff + 32 * i) = f.elf.ePhoff + 32 * i := if_pos (by omega)
      have hnext : (f.elf.ePhoff + 32 * i + 32) % 2 ^ 32 = f.elf.ePhoff + 32 * (i + 1) := by omega
      have hat : f.headerAt (f.seekTo pos (f.elf.ePhoff + 32 * i)) = f.header i := by
        rw [hp]
        rfl
      by_cases hload : (f.header i).pType = ptLoad
      · rw [loaded_load (by rw [hat]; exact hload)]
        simp only [hat, hnext]
        rw [h.splice_segment (show i < f.elf.ePhnum by omega) hload]
        set mem₁ := mem.splice (f.header i).pVaddr (f.bytes.drop (f.header i).pOffset)
          (f.header i).pFilesz with hmem₁
        obtain ⟨hlater, hother⟩ := ih (i + 1) (f.seekTo (f.seekTo pos (f.elf.ePhoff + 32 * i) + 32)
          (f.header i).pOffset + f.got (f.seekTo (f.seekTo pos (f.elf.ePhoff + 32 * i) + 32)
          (f.header i).pOffset) (f.header i).pFilesz) mem₁ (by omega)
        constructor
        · intro j hij hj hloadj k hk
          by_cases heq : j = i
          · -- the segment just read; the later ones lie elsewhere
            subst heq
            have hcovers : (f.header j).Covers ((f.header j).pVaddr + k) :=
              ⟨hloadj, Nat.le_add_right _ _, by omega⟩
            rw [hother _ fun l hjl hl hc => happart j hj l hl (by omega) _ ⟨hcovers, hc⟩, hmem₁,
              Mem.splice_at hk, Mem.drop_apply]
          · exact hlater j (by omega) hj hloadj k hk
        · intro a ha
          have hout := ha i (le_refl i) (by omega)
          rw [hother a fun j hij hj => ha j (by omega) hj, hmem₁, Mem.splice_out]
          by_contra hin
          exact hout ⟨hload, by omega, by omega⟩
      · rw [loaded_skip (by rw [hat]; exact hload), hnext]
        obtain ⟨hlater, hother⟩ := ih (i + 1) (f.seekTo pos (f.elf.ePhoff + 32 * i) + 32) mem
          (by omega)
        refine ⟨fun j hij hj hloadj k hk => ?_, fun a ha => hother a fun j hij => ha j (by omega)⟩
        have hne : j ≠ i := by
          rintro rfl
          exact hload hloadj
        exact hlater j (by omega) hj hloadj k hk

theorem Complete.inPlace (h : f.Complete) (happart : f.Apart) (mem : Mem) :
    f.InPlace (f.loaded f.elf.ePhnum f.elf.ePhoff 52 mem) := fun j hj hload k hk =>
  (h.loaded happart f.elf.ePhnum 0 52 mem (Nat.zero_add _)).1 j (Nat.zero_le j) hj hload k hk

end OpenFile

/-! ### `load` -/

theorem elfHeader_lt (m : Mem) : (elfHeader m).eEntry < 2 ^ 32 ∧ (elfHeader m).ePhoff < 2 ^ 32 :=
  ⟨UInt32.toNat_lt _, UInt32.toNat_lt _⟩

theorem elfHeader_read (m : Mem) :
    elfHeader (Mem.splice (fun _ => 0) 0 (m.drop 0) 52) = elfHeader m :=
  elfHeader_congr fun i hi => by
    rw [Mem.splice_in (by omega) (by omega), Nat.sub_zero, Mem.drop_apply, Nat.zero_add]

/-- What `load` has done when it returns an address. -/
theorem load_spec {fd r : Int} (hpos : s.fdPos = 0) (h : load f t fd s = .ok (r, s'))
    (hr : r ≠ -1) :
    f.Accepted ∧ s'.mem = f.loaded f.elf.ePhnum f.elf.ePhoff 52 s.mem := by
  have hnot : ∀ {s₁ : Loader}, (pure (-1) : LoadM Int) s₁ ≠ .ok (r, s') := by
    intro s₁ hrun
    cases hrun
    exact hr rfl
  unfold load at h
  by_cases hfd : fd = -1
  · rw [if_pos hfd] at h
    exact absurd h hnot
  rw [if_neg hfd] at h
  obtain ⟨⟨n, buf⟩, s₁, hread, h⟩ := Prog.bind_run.mp h
  simp only at h
  by_cases hn : n = 52
  · subst hn
    obtain ⟨hle, hlt, rfl, p₁, rfl⟩ := fileRead_whole (by omega) (by decide) (by decide) hread
    rw [hpos] at hle
    rw [hpos, if_pos rfl, elfHeader_read] at h
    by_cases hvalid : (elfHeader f.bytes).Valid
    · rw [if_pos hvalid] at h
      obtain ⟨ok, s₂, hloop, h⟩ := Prog.bind_run.mp h
      cases ok with
      | false => exact absurd h hnot
      | true =>
          have hlts := elfHeader_lt f.bytes
          obtain ⟨hpasses, hmem⟩ := loadLoop_spec _ _ _ _ hlts.2 hle hloop
          cases h
          refine ⟨⟨hle, hvalid, fun hentry => hr ?_, hpasses⟩, hmem⟩
          exact (Bitmap.int32_eq_neg hlts.1).mpr hentry
    · rw [if_neg hvalid] at h
      exact absurd h hnot
  · rw [if_neg hn] at h
    exact absurd h hnot

/-- `load` once the header has been read. -/
theorem load_header {fd : Int} (hfd : fd ≠ -1) (hvalid : f.elf.Valid)
    (hread : fileRead f t (fun _ => 0) 52 s
      = .ok (((52 : Nat), Mem.splice (fun _ => 0) 0 (f.bytes.drop 0) 52), s')) :
    load f t fd s = (do
      if ← loadLoop f t f.elf.ePhnum f.elf.ePhoff then
        return int32 f.elf.eEntry
      else
        return -1 : LoadM Int) s' := by
  unfold load
  rw [if_neg hfd, Prog.bind_of_run hread]
  simp only
  rw [if_pos (show ((52 : Nat) : Int) = 52 from rfl), elfHeader_read, ← OpenFile.elf,
    if_pos hvalid]

/-- Where all pages are there a file that is taken for a program is loaded. -/
theorem load_run (t : Nat) {fd : Int} (hfd : fd ≠ -1) (hpos : s.fdPos = 0) (hstocked : Stocked s)
    (hmapped : AllMapped s) (hclear : f.ClearOf s.heap.pages) (h : f.Accepted) :
    ∃ r s', load f t fd s = .ok (r, s') ∧ r ≠ -1 := by
  have hlts := elfHeader_lt f.bytes
  have hsize := h.size
  let s₁ : Loader := { s with fdPos := 52 }
  have hread := @fileRead_whole_run f s t (fun _ => 0) 52 hstocked (by decide) (by omega) (by omega)
  rw [hpos] at hread
  obtain ⟨s', hloop⟩ := loadLoop_run (t := t) f.elf.ePhnum f.elf.ePhoff s₁ hlts.2 h.size
    (hstocked.congr rfl rfl) hmapped hclear h.headers
  refine ⟨int32 f.elf.eEntry, s', ?_, fun hc => h.entry ((Bitmap.int32_eq_neg hlts.1).mp hc)⟩
  rw [load_header hfd h.valid hread, Prog.bind_of_run hloop, if_pos rfl]
  rfl

/-- A process that has all the pages there are, with blocks for the buffers and its heap on the
pages that are given. -/
def mappedLoader (heap : Nat → Bool) : Loader where
  fdPos := 0
  pager :=
    { kernelPool := ⟨⟨64, fun _ => 0⟩, 0x200000, 0x200000, .free⟩
      userPool := ⟨⟨64, fun _ => 0⟩, 0x400000, 0x200000, .free⟩
      kernelVaddr := ⟨⟨64, fun _ => 0⟩, 0xc0100000⟩
      userVaddr := ⟨⟨64, fun _ => 0⟩, 0x8048000⟩
      isUser := true
      pde := fun _ => 7
      pte := fun _ => 7 }
  mem := fun _ => 0
  heap := ⟨heap, false, false⟩

theorem stocked_mappedLoader (heap : Nat → Bool) : Stocked (mappedLoader heap) := ⟨rfl, rfl, rfl⟩

theorem allMapped_mappedLoader (heap : Nat → Bool) : AllMapped (mappedLoader heap) := by
  have h : present 7 = true := by decide
  exact ⟨fun _ => h, fun _ => h⟩

/-- 84 bytes with one header, for a segment that is not there. -/
def truncatedProgram : OpenFile where
  bytes i := [0x7f, 0x45, 0x4c, 0x46, 1, 1, 1, 0, 0, 0, 0, 0, 0, 0, 0, 0, 2, 0, 3, 0, 1, 0, 0, 0,
    0, 0x80, 4, 8, 52, 0, 0, 0, 0, 0, 0, 0, 0, 0, 0, 0, 52, 0, 32, 0, 1, 0, 0, 0, 0, 0, 0, 0,
    1, 0, 0, 0, 0, 0x10, 0, 0, 0, 0x80, 4, 8, 0, 0x80, 4, 8, 4, 0, 0, 0, 4, 0, 0, 0, 5, 0, 0, 0,
    0, 0x10, 0, 0].getD i 0
  iSize := 84
  size_le := by decide

/-- The first page of user space is one of the heap, as it is once `sys_malloc` has been called. -/
def firstArena (k : Nat) : Bool := k = firstPage

/-- 88 bytes with one segment, four bytes of code for the address that is given. -/
def oneSegment (vaddr : List UInt8) : OpenFile where
  bytes i := ([0x7f, 0x45, 0x4c, 0x46, 1, 1, 1, 0, 0, 0, 0, 0, 0, 0, 0, 0, 2, 0, 3, 0, 1, 0, 0, 0]
    ++ vaddr ++ [52, 0, 0, 0, 0, 0, 0, 0, 0, 0, 0, 0, 52, 0, 32, 0, 1, 0, 0, 0, 0, 0, 0, 0,
    1, 0, 0, 0, 84, 0, 0, 0] ++ vaddr ++ vaddr ++ [4, 0, 0, 0, 4, 0, 0, 0, 5, 0, 0, 0,
    0, 0x10, 0, 0, 0xf4, 0xeb, 0xfd, 0x90]).getD i 0
  iSize := 88
  size_le := by decide

/-- A program behind the first page. -/
def nextProgram : OpenFile := oneSegment [0, 0x90, 4, 8]

theorem complete_nextProgram : nextProgram.Complete where
  elf := by decide
  header := by decide +kernel
  segment := by decide +kernel

theorem clearOf_nextProgram : nextProgram.ClearOf firstArena := fun _ _ => by
  rw [if_pos (by decide +kernel)]
  exact fun _ => ⟨by decide +kernel, trivial⟩

/-- The open file behind entry `g` of the file table. -/
structure Shows (f : OpenFile) (l : Loader) (fs : Fs) (g a : Nat) : Prop where
  entry : (fs.fileTable g).fdInode = some a
  pos : (fs.fileTable g).fdPos = l.fdPos
  size : (fs.inodes a).iSize.toNat = f.iSize
  bytes : ∀ i < f.iSize,
    fs.disk (512 * (fileBlk fs.disk (fs.inodes a) (i / 512)).toNat + i % 512) = f.bytes i

variable {l : Loader} {fs : Fs} {g a : Nat}

theorem readBlocks_refines (h : Shows f l fs g a) {size : Nat} (hsize : size < 2 ^ 32)
    (hfit : l.fdPos + size ≤ f.iSize ∨ 2 ^ 32 ≤ l.fdPos + size) :
    Prog.wp (fun _ => True) (ZyOs.readBytes g a buf size) (fun r fs' =>
      readBlocks f buf size l = .ok (r, { l with fdPos := l.fdPos + size }) ∧
        fs' = fs.atPos g (l.fdPos + size)) fs := by
  have hle := f.size_le
  rcases hfit with hfit | hwrap
  · unfold ZyOs.readBytes
    refine Prog.wp_get_bind ?_
    simp only [h.pos]
    rw [Nat.mod_eq_of_lt (show l.fdPos + size < 2 ^ 32 by omega)]
    refine Prog.wp_bind (wp_assertFs (fun _ _ => trivial) fun hidx => ?_)
    rw [h.pos, Nat.mod_eq_of_lt (show l.fdPos + size < 2 ^ 32 by omega)] at hidx
    refine Prog.wp_bind (Prog.wp_mono (wp_collectForRead (fun _ _ => trivial) (by omega)) ?_)
    rintro blocks fs₁ ⟨hsame, harr⟩
    rw [hsame]
    have hloop : Prog.wp (fun _ => True) (readLoop g blocks size size buf 0 size) (fun r fs' =>
        r.1 = size ∧ (∀ i, r.2 i = if i < size then f.bytes (l.fdPos + i) else buf i) ∧
          fs' = fs.atPos g (l.fdPos + size)) (fs.atPos g (l.fdPos + 0)) :=
      wp_readLoop (fun _ _ => trivial) (fun i hi => h.bytes i (by omega)) (by omega) harr size buf 0
        size (Nat.zero_add _) (Nat.le_refl _) fun i => (if_neg (by omega)).symm
    rw [Nat.add_zero, ← h.pos, atPos_self, h.pos] at hloop
    refine Prog.wp_bind (Prog.wp_mono hloop ?_)
    rintro ⟨n, buf'⟩ fs' ⟨hn, hbuf, rfl⟩
    simp only at hn hbuf
    subst hn
    refine Prog.wp_pure ⟨?_, rfl⟩
    rw [readBlocks_run (by omega), Bitmap.int32_of_lt (by omega)]
    have hsplice : buf' = buf.splice 0 (f.bytes.drop l.fdPos) n := by
      funext i
      rw [hbuf i]
      by_cases hi : i < n
      · rw [if_pos hi, Mem.splice_in (by omega) (by omega), Mem.drop_apply, Nat.sub_zero]
      · rw [if_neg hi, Mem.splice_out (by omega)]
    rw [hsplice]
  · exact Prog.wp_mono (readBytes_never (by rw [h.pos]; exact hwrap)) fun _ _ => False.elim

/-- **A `file_read` that returns on the blocks returns the same here.** -/
theorem fileRead_refines (h : Shows f l fs g a) (hstocked : Stocked l) (hpos : l.fdPos ≤ f.iSize)
    (hcount : count < 2 ^ 32) :
    Prog.wp (fun _ => True) (ZyOs.fileRead g buf count) (fun r fs' => ∃ pos,
      fileRead f t buf count l = .ok (r, { l with fdPos := pos }) ∧ fs' = fs.atPos g pos) fs := by
  have hle := f.size_le
  unfold ZyOs.fileRead fileRead
  refine Prog.wp_bind (Prog.wp_of_returns fun b fs₁ hrun => ?_)
  obtain ⟨hentry, rfl⟩ := fdInodeOf_eq hrun
  obtain rfl : a = b := Option.some.inj (h.entry.symm.trans hentry)
  have hread : ∀ size < 2 ^ 32, l.fdPos + size ≤ f.iSize ∨ 2 ^ 32 ≤ l.fdPos + size →
      Prog.wp (fun _ => True) (ZyOs.readBytes g a buf size) (fun r fs' => ∃ pos,
        readBytes f t buf size l = .ok (r, { l with fdPos := pos }) ∧ fs' = fs₁.atPos g pos) fs₁ := by
    intro size hsize hfit
    rw [readBytes_stocked hstocked]
    exact Prog.wp_mono (readBlocks_refines h hsize hfit) fun _ _ hr => ⟨_, hr⟩
  refine Prog.wp_get_bind (Prog.wp_get_bind ?_)
  simp only [h.pos, h.size]
  rw [Prog.bind_of_run (Prog.get_run l)]
  have hsub : sub32 f.iSize l.fdPos = f.iSize - l.fdPos := by
    unfold sub32
    omega
  by_cases hlong : f.iSize < (l.fdPos + count) % 2 ^ 32
  · rw [if_pos hlong, if_pos hlong, hsub]
    by_cases hend : f.iSize - l.fdPos = 0
    · rw [if_pos hend, if_pos hend]
      refine Prog.wp_pure ⟨l.fdPos, rfl, ?_⟩
      rw [← h.pos, atPos_self]
    · rw [if_neg hend, if_neg hend]
      exact hread _ (by omega) (by omega)
  · rw [if_neg hlong, if_neg hlong]
    exact hread count hcount (by omega)

/-- The same of a seek, which returns in any case. -/
theorem sysLseek_refines {fd : Nat} (h : Shows f l fs g a) (hfd : fd < maxFilesOpenPerProc)
    (hg : g < maxFileOpen) (hlocal : (fs.tasks fs.cur).fdTable fd = g) :
    ∃ r pos, ZyOs.sysLseek fd (int32 off) 1 fs = .ok (r, fs.atPos g pos) ∧
      sysLseek f off l = .ok (r, { l with fdPos := pos }) := by
  unfold ZyOs.sysLseek sysLseek
  rw [if_neg (by omega), Prog.bind_of_run (assertFs_run (by decide) _ _ fs), Int.toNat_natCast,
    Prog.bind_of_run (fdLocalToGlobal_of_entry hfd hg hlocal),
    Prog.bind_of_run (fdInodeOf_run h.entry _), Prog.bind_of_run (Prog.get_run fs)]
  simp only [h.size, if_true]
  by_cases hout : int32 off < 0 ∨ int32 f.iSize - 1 < int32 off
  · rw [if_pos hout, if_pos hout]
    refine ⟨-1, l.fdPos, ?_, rfl⟩
    rw [← h.pos, atPos_self]
    rfl
  · rw [if_neg hout, if_neg hout]
    exact ⟨int32 off, _, rfl, rfl⟩

end Exec

end ZyOs
