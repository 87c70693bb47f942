/-
All address spaces and the books that are kept of them.

`Owned` ties the layout of the tables (`Proofs/Spaces`) to the bitmaps: a frame of a pool that is
somebody's is marked there, and a page that is mapped is marked among the virtual addresses of its
space.  A frame that `palloc` finds free is therefore nobody's, and a page that `vaddr_get` finds
free is not mapped, so `page_table_add` never overwrites anything.  `Grow` is what all functions
that take pages do to the rest, which is nothing.
-/
import ZyOs.Proofs.Spaces
import ZyOs.Proofs.PageAlloc

namespace ZyOs

open Library

/-! ### Frames of a pool -/

namespace Pool

/-- Frame `f` belongs to the pool. -/
def Has (pool : Pool) (f : Nat) : Prop :=
  pool.phyAddrStart ≤ 4096 * f ∧
    4096 * f < pool.phyAddrStart + 4096 * (8 * pool.poolBitmap.bmapBytesLen)

/-- It is marked as taken. -/
def Used (pool : Pool) (f : Nat) : Prop :=
  pool.poolBitmap.bitmapScanTest ((4096 * f - pool.phyAddrStart) / 4096) = true

/-- It is marked as taken, or as free. -/
def mark (pool : Pool) (f : Nat) (v : Bool) : Pool :=
  { pool with
    poolBitmap := pool.poolBitmap.bitmapSet ((4096 * f - pool.phyAddrStart) / 4096) v }

end Pool

/-- A pool of whole frames. -/
structure FramePool (pool : Pool) : Prop extends PoolFits pool where
  aligned : pool.phyAddrStart % 4096 = 0

variable {pool : Pool} {f g : Nat} {v : Bool}

theorem FramePool.mark (h : FramePool pool) : FramePool (pool.mark f v) := ⟨⟨h.start, h.top⟩, h.aligned⟩

theorem has_mark : (pool.mark f v).Has g ↔ pool.Has g := Iff.rfl

theorem used_mark (h : FramePool pool) (hf : pool.Has f) (hg : pool.Has g) :
    (pool.mark f v).Used g ↔ if g = f then v = true else pool.Used g := by
  have haligned := h.aligned
  obtain ⟨hf, -⟩ := hf
  obtain ⟨hg, -⟩ := hg
  unfold Pool.Used Pool.mark
  simp only [Bitmap.scanTest_set]
  by_cases heq : g = f
  · rw [if_pos heq, if_pos (by rw [heq])]
  · rw [if_neg heq, if_neg (by omega)]

/-- `palloc` gives out a free frame, or there is none and the scan stops. -/
theorem palloc_cases (h : FramePool pool) : (∃ e, palloc pool = .error e ∧ e.PagesShort) ∨
    ∃ f < 2 ^ 20, pool.Has f ∧ ¬ pool.Used f ∧ palloc pool = .ok (pool.mark f true, some (4096 * f)) := by
  have hstart := h.start
  have htop := h.top
  have haligned := h.aligned
  unfold palloc pallocWith
  cases hscan : pool.poolBitmap.bitmapScan 1 with
  | error e => exact .inl ⟨e, rfl, bitmapScan_short hscan⟩
  | ok i =>
      obtain ⟨n, rfl, hn, hfree, -⟩ := Bitmap.scan_one (by omega) hscan
      have hidx : (4096 * (n + pool.phyAddrStart / 4096) - pool.phyAddrStart) / 4096 = n := by omega
      refine .inr ⟨n + pool.phyAddrStart / 4096, by omega, ⟨by omega, by omega⟩, ?_, ?_⟩
      · unfold Pool.Used
        rw [hidx, hfree]
        exact Bool.false_ne_true
      · have haddr : (n * pageSize + pool.phyAddrStart) % 2 ^ 32
            = 4096 * (n + pool.phyAddrStart / 4096) := by
          rw [show pageSize = 4096 from rfl]
          omega
        rw [ok_bind, if_neg (by omega)]
        simp only [Int.toNat_natCast, haddr, Pool.mark, hidx]
        rw [if_neg (by omega)]
        rfl

/-! ### The pages that can be given out -/

/-- Page `p` is one of those a bitmap is about, and marked as taken. -/
structure VirtualAddr.Holds (v : VirtualAddr) (p : Nat) : Prop where
  marked : v.Marked (4096 * p)
  high : 4096 * p < v.vaddrStart + 4096 * (8 * v.vaddrBitmap.bmapBytesLen)

theorem TakesPages.holds {v v' : VirtualAddr} {lo n q : Nat} (h : TakesPages v v' (4096 * lo) n)
    (hv : v.Fits) (hhigh : lo + n ≤ v.vaddrStart / 4096 + 8 * v.vaddrBitmap.bmapBytesLen)
    (hq : lo ≤ q ∧ q < lo + n) : v'.Holds q := by
  have haligned := hv.aligned
  refine ⟨(h.marked _).mpr (.inr ⟨by omega, by omega, by omega⟩), ?_⟩
  rw [h.start, h.len]
  omega

namespace Context

/-- The pages of a space that `vaddr_get` may give out; the loader has filled those below. -/
def HeapPage : Context → Nat → Prop
  | .kernel, p => 0xc0100 ≤ p ∧ p < 1023 * 1024
  | .process _, p => p < 768 * 1024

theorem HeapPage.hasPage {a : Context} {p : Nat} (h : a.HeapPage p) : a.HasPage p := by
  cases a with
  | kernel =>
      obtain ⟨hlow, hhigh⟩ := h
      exact ⟨by omega, by omega⟩
  | process t =>
      have hlt : p < 768 * 1024 := h
      show p / 1024 < 768
      omega

theorem HasPage.lt {a : Context} {p : Nat} (h : a.HasPage p) : p < 2 ^ 20 := by
  have hlt := HasEntry.lt h
  omega

/-- The virtual addresses of a space. -/
structure Covers (a : Context) (v : VirtualAddr) : Prop where
  fits : v.Fits
  pages : ∀ i < 8 * v.vaddrBitmap.bmapBytesLen, a.HeapPage (v.vaddrStart / 4096 + i)

end Context

/-! ### Entries -/

theorem isPresent_tableEntry (n : Nat) : isPresent (tableEntry n) := by
  have h := present_tableEntry n
  simpa [present, isPresent] using h

theorem frameNo_tableEntry (hf : f < 2 ^ 20) : frameNo (tableEntry (4096 * f)) = f := by
  rw [frameNo, toNat_tableEntry hf]
  omega

theorem not_isPresent_cleared (e : UInt32) : ¬ isPresent (e &&& ~~~ 1) := by
  unfold isPresent
  rw [UInt32.and_assoc]
  simp

namespace Paged

variable {s s' s₁ s₂ : PagedMem} {dir : Nat → Option Nat} {owner owner' owner₁ owner₂ : Nat → Owner}
  {a b c : Context} {pf : PoolFlag} {d i p q t : Nat} {vaddr : UInt32} {S S' : Nat → Prop}

namespace PagedMem

/-- The virtual addresses of a space. -/
def vaddrOf (s : PagedMem) : Context → VirtualAddr
  | .kernel => s.kernelVaddr
  | .process t => (s.task t).userProcessVaddr

/-- One word of a frame is overwritten. -/
def setWord (s : PagedMem) (f k : Nat) (e : UInt32) : PagedMem :=
  { s with phys := Paged.setWord s.phys f k e }

/-- The frame of page `p` of a space. -/
def map (s : PagedMem) (dir : Nat → Option Nat) (a : Context) (p : Nat) : Option Nat :=
  mapping s.phys dir a p

@[simp] theorem phys_withPool : (s.withPool pool pf).phys = s.phys := by cases pf <;> rfl
@[simp] theorem cr3_withPool : (s.withPool pool pf).cr3 = s.cr3 := by cases pf <;> rfl
@[simp] theorem task_withPool : (s.withPool pool pf).task = s.task := by cases pf <;> rfl
@[simp] theorem tasks_withPool : (s.withPool pool pf).tasks = s.tasks := by cases pf <;> rfl
@[simp] theorem cur_withPool : (s.withPool pool pf).cur = s.cur := by cases pf <;> rfl
@[simp] theorem vaddrOf_withPool : (s.withPool pool pf).vaddrOf a = s.vaddrOf a := by
  cases pf <;> rfl
@[simp] theorem pool_withPool : (s.withPool pool pf).pool pf = pool := by cases pf <;> rfl

theorem pool_withPool_ne {pf' : PoolFlag} (h : pf' ≠ pf) :
    (s.withPool pool pf).pool pf' = s.pool pf' := by
  cases pf <;> cases pf' <;> first | rfl | exact absurd rfl h

end PagedMem

/-! ### The books -/

/-- Whose the frames are agrees with all tables and with all bitmaps. -/
structure Owned (s : PagedMem) (dir : Nat → Option Nat) (owner : Nat → Owner) : Prop where
  layout : Layout s.phys dir owner
  pool : ∀ pf, FramePool (s.pool pf)
  low : 0x200000 ≤ s.kernelPool.phyAddrStart
  apart : s.kernelPool.phyAddrStart + 4096 * (8 * s.kernelPool.poolBitmap.bmapBytesLen)
    ≤ s.userPool.phyAddrStart
  used : ∀ pf f, (s.pool pf).Has f → owner f ≠ .nobody → (s.pool pf).Used f
  home : ∀ a p f, owner f = .page a p → a.HeapPage p → (s.pool a.flag).Has f
  covers : ∀ (a : Context) d, a.directory dir = some d → a.Covers (s.vaddrOf a)
  marked : ∀ (a : Context) p f, a.HeapPage p → s.map dir a p = some f →
    (s.vaddrOf a).Holds p
  /-- the directory of a process is a page of the kernel -/
  pgDir : ∀ t d, dir t = some d → (s.task t).pgDir ≠ 0 ∧ ∃ q, (s.task t).pgDir.toNat = 4096 * q ∧
    Context.kernel.HeapPage q ∧ s.map dir .kernel q = some d
  thread : ∀ t ∈ s.tasks, dir t = none → (s.task t).pgDir = 0
  /-- a PCB is a page of the kernel, but for the first -/
  pcb : ∀ t, t ∈ s.tasks ∨ dir t ≠ none → t = 0xc009e000 ∨
    ∃ q, t = 4096 * q ∧ Context.kernel.HeapPage q ∧ s.map dir .kernel q ≠ none

theorem Owned.below_user (h : Owned s dir owner) (hf : s.kernelPool.Has f) :
    4096 * f < s.userPool.phyAddrStart :=
  hf.2.trans_le h.apart

/-- What is marked is a page that can be given out. -/
theorem Owned.heapPage_of_holds (h : Owned s dir owner) (ha : a.directory dir = some d)
    (hholds : (s.vaddrOf a).Holds p) : a.HeapPage p := by
  have hcovers := h.covers a d ha
  have haligned := hcovers.fits.aligned
  obtain ⟨-, hlow, -, -⟩ := hholds.marked
  have hhigh := hholds.high
  have hin := hcovers.pages (p - (s.vaddrOf a).vaddrStart / 4096) (by omega)
  rwa [show (s.vaddrOf a).vaddrStart / 4096 + (p - (s.vaddrOf a).vaddrStart / 4096) = p by omega] at hin

/-- A free frame is nobody's. -/
theorem Owned.nobody (h : Owned s dir owner) (hf : (s.pool pf).Has f) (hfree : ¬ (s.pool pf).Used f) :
    owner f = .nobody := by
  by_contra hsome
  exact hfree (h.used pf f hf hsome)

/-- A frame that is marked as taken has been given to a space, or is one of `F`. -/
def Books (F : Nat → Prop) (s : PagedMem) (owner : Nat → Owner) : Prop :=
  ∀ pf f, (s.pool pf).Has f → (s.pool pf).Used f → (owner f).Given ∨ F f

/-- A frame that was missing in the books has got an owner. -/
theorem Books.update {F : Nat → Prop} (h : Books (fun g => F g ∨ g = f) s owner) {o : Owner}
    (ho : o.Given) (hpool : ∀ pf, s'.pool pf = s.pool pf) :
    Books F s' (Function.update owner f o) := by
  intro pf g hg hused
  rw [hpool] at hg hused
  by_cases hgf : g = f
  · left
    rw [hgf, Function.update_self]
    exact ho
  · rw [Function.update_of_ne hgf]
    exact (h pf g hg hused).imp_right fun hF => hF.resolve_right hgf

theorem Books.congr {F : Nat → Prop} (h : Books F s owner) (hpool : ∀ pf, s'.pool pf = s.pool pf) :
    Books F s' owner := by
  intro pf g hg hused
  rw [hpool] at hg hused
  exact h pf g hg hused

/-- The pages of a space that are seen under the directory of another. -/
def Seen (c a : Context) : Prop := a = .kernel ∨ a = c

theorem Layout.word_seen {phys : PhysMem} (h : Layout phys dir owner) {d' : Nat}
    (hc : c.directory dir = some d) (hseen : Seen c a) (ha : a.directory dir = some d')
    (hi : a.HasEntry i) : phys.word d i = phys.word d' i := by
  rcases hseen with rfl | rfl
  · cases ha
    cases c with
    | kernel =>
        cases hc
        rfl
    | process t => exact h.share t d i hc hi.1 hi.2
  · rw [hc] at ha
    cases ha
    rfl

theorem Layout.pageFrame_seen {phys : PhysMem} (h : Layout phys dir owner)
    (hc : c.directory dir = some d) (hseen : Seen c a) (hp : a.HasPage p) :
    pageFrame phys d p = mapping phys dir a p := by
  rcases hseen with rfl | rfl
  · exact h.pageFrame_kernel hc hp
  · rw [mapping_of_directory hc]

theorem directory_seen (hc : c.directory dir = some d) (hseen : Seen c a) :
    ∃ d', a.directory dir = some d' := by
  rcases hseen with rfl | rfl
  · exact ⟨256, rfl⟩
  · exact ⟨d, hc⟩

/-! ### Growing -/

/-- Pages `S` of the space `a` may have changed, and nothing else is mapped differently. -/
structure Elsewhere (dir : Nat → Option Nat) (a : Context) (S : Nat → Prop) (s s' : PagedMem) :
    Prop where
  maps : ∀ b q, b.HasPage q → ¬ (b = a ∧ S q) → s'.map dir b q = s.map dir b q
  vaddrs : ∀ b, b ≠ a → s'.vaddrOf b = s.vaddrOf b
  pgDir : ∀ t, (s'.task t).pgDir = (s.task t).pgDir
  tasks : s'.tasks = s.tasks
  cur : s'.cur = s.cur
  cr3 : s'.cr3 = s.cr3

theorem Elsewhere.refl : Elsewhere dir a S s s :=
  ⟨fun _ _ _ _ => rfl, fun _ _ => rfl, fun _ => rfl, rfl, rfl, rfl⟩

theorem Elsewhere.trans (h : Elsewhere dir a S s s₁) (h' : Elsewhere dir a S s₁ s₂) :
    Elsewhere dir a S s s₂ where
  maps b q hb hne := (h'.maps b q hb hne).trans (h.maps b q hb hne)
  vaddrs b hb := (h'.vaddrs b hb).trans (h.vaddrs b hb)
  pgDir t := (h'.pgDir t).trans (h.pgDir t)
  tasks := h'.tasks.trans h.tasks
  cur := h'.cur.trans h.cur
  cr3 := h'.cr3.trans h.cr3

theorem Elsewhere.mono (h : Elsewhere dir a S s s') (S' : Nat → Prop) (hS : ∀ q, S q → S' q) :
    Elsewhere dir a S' s s' :=
  ⟨fun b q hb hne => h.maps b q hb fun hc => hne ⟨hc.1, hS q hc.2⟩, h.vaddrs, h.pgDir, h.tasks, h.cur,
    h.cr3⟩

/-- Pages `S` of the space `a` have been added, and nothing else has changed. -/
structure Grow (dir : Nat → Option Nat) (a : Context) (S : Nat → Prop) (s : PagedMem)
    (owner : Nat → Owner) (s' : PagedMem) (owner' : Nat → Owner) : Prop
    extends Elsewhere dir a S s s' where
  kept : ∀ f, owner f ≠ .nobody → owner' f = owner f
  words : ∀ b q f i, owner f = .page b q → (∀ t, dir t ≠ some f) → f < 2 ^ 20 → i < 1024 →
    s'.phys.word f i = s.phys.word f i

theorem Grow.refl : Grow dir a S s owner s owner :=
  ⟨.refl, fun _ _ => rfl, fun _ _ _ _ _ _ _ _ => rfl⟩

theorem Grow.trans (h : Grow dir a S s owner s₁ owner₁) (h' : Grow dir a S s₁ owner₁ s₂ owner₂) :
    Grow dir a S s owner s₂ owner₂ where
  toElsewhere := h.toElsewhere.trans h'.toElsewhere
  kept f hf := by
    have hkept := h.kept f hf
    rw [h'.kept f (hkept.symm ▸ hf), hkept]
  words b q f i hf hdir hlt hi := by
    have hkept := h.kept f (by simp [hf])
    rw [h'.words b q f i (hkept.trans hf) hdir hlt hi, h.words b q f i hf hdir hlt hi]

theorem Grow.mono (h : Grow dir a S s owner s' owner') (S' : Nat → Prop) (hS : ∀ q, S q → S' q) :
    Grow dir a S' s owner s' owner' :=
  ⟨h.toElsewhere.mono S' hS, h.kept, h.words⟩

/-! ### Entries by their addresses -/

section Window

variable {phys : PhysMem}

theorem page_pdePtr (vaddr : UInt32) : (pdePtr vaddr).toNat / 4096 = 1023 * 1024 + 1023 := by
  have hlt := vaddr.toNat_lt
  rw [toNat_pdePtr]
  omega

theorem page_ptePtr (vaddr : UInt32) :
    (ptePtr vaddr).toNat / 4096 = 1023 * 1024 + vaddr.toNat / 4096 / 1024 := by
  have hlt := vaddr.toNat_lt
  rw [toNat_ptePtr]
  omega

theorem loadPde (h : IsDir s.phys (frameNo s.cr3)) (vaddr : UInt32) :
    loadWord (pdePtr vaddr) s
      = .ok (s.phys.word (frameNo s.cr3) (vaddr.toNat / 4096 / 1024), s) := by
  have hlt := vaddr.toNat_lt
  have hframe : s.frame ((pdePtr vaddr).toNat / 4096) = some (frameNo s.cr3) := by
    rw [page_pdePtr]
    exact h.window_self
  rw [loadWord_run hframe (by rw [toNat_pdePtr]; omega)]
  rw [toNat_pdePtr, show (1023 * 2 ^ 22 + 1023 * 2 ^ 12 + vaddr.toNat / 2 ^ 22 * 4) % 4096 / 4
    = vaddr.toNat / 4096 / 1024 by omega]

theorem storePde (h : IsDir s.phys (frameNo s.cr3)) (vaddr e : UInt32) :
    storeWord (pdePtr vaddr) e s = .ok ((),
      s.setWord (frameNo s.cr3) (vaddr.toNat / 4096 / 1024) e) := by
  have hlt := vaddr.toNat_lt
  have hframe : s.frame ((pdePtr vaddr).toNat / 4096) = some (frameNo s.cr3) := by
    rw [page_pdePtr]
    exact h.window_self
  rw [storeWord_run hframe (by rw [toNat_pdePtr]; omega)]
  rw [toNat_pdePtr, show (1023 * 2 ^ 22 + 1023 * 2 ^ 12 + vaddr.toNat / 2 ^ 22 * 4) % 4096 / 4
    = vaddr.toNat / 4096 / 1024 by omega]
  rfl

theorem frame_ptePtr (h : IsDir s.phys (frameNo s.cr3))
    (hpde : isPresent (s.phys.word (frameNo s.cr3) (vaddr.toNat / 4096 / 1024))) :
    s.frame ((ptePtr vaddr).toNat / 4096)
      = some (frameNo (s.phys.word (frameNo s.cr3) (vaddr.toNat / 4096 / 1024))) := by
  have hlt := vaddr.toNat_lt
  rw [page_ptePtr, PagedMem.frame, h.window (by omega), if_pos hpde]

theorem offset_ptePtr (vaddr : UInt32) :
    (ptePtr vaddr).toNat % 4 = 0 ∧ (ptePtr vaddr).toNat % 4096 / 4 = vaddr.toNat / 4096 % 1024 := by
  rw [toNat_ptePtr]
  omega

theorem loadPte (h : IsDir s.phys (frameNo s.cr3))
    (hpde : isPresent (s.phys.word (frameNo s.cr3) (vaddr.toNat / 4096 / 1024))) :
    loadWord (ptePtr vaddr) s = .ok (s.phys.word
      (frameNo (s.phys.word (frameNo s.cr3) (vaddr.toNat / 4096 / 1024)))
      (vaddr.toNat / 4096 % 1024), s) := by
  rw [loadWord_run (frame_ptePtr h hpde) (offset_ptePtr vaddr).1, (offset_ptePtr vaddr).2]

theorem storePte (h : IsDir s.phys (frameNo s.cr3))
    (hpde : isPresent (s.phys.word (frameNo s.cr3) (vaddr.toNat / 4096 / 1024))) (e : UInt32) :
    storeWord (ptePtr vaddr) e s = .ok ((),
      s.setWord (frameNo (s.phys.word (frameNo s.cr3) (vaddr.toNat / 4096 / 1024)))
        (vaddr.toNat / 4096 % 1024) e) := by
  rw [storeWord_run (frame_ptePtr h hpde) (offset_ptePtr vaddr).1, (offset_ptePtr vaddr).2]
  rfl

/-- The `memset` of a new table. -/
theorem clearTable (vaddr : UInt32) (h : IsDir s.phys (frameNo s.cr3))
    (hlast : vaddr.toNat / 4096 / 1024 < 1023)
    (hpde : isPresent (s.phys.word (frameNo s.cr3) (vaddr.toNat / 4096 / 1024)))
    (hne : frameNo s.cr3 ≠ frameNo (s.phys.word (frameNo s.cr3) (vaddr.toNat / 4096 / 1024))) :
    clearWords 1024 (ptePtr vaddr &&& 0xfffff000) s = .ok ((), s.write
      (frameNo (s.phys.word (frameNo s.cr3) (vaddr.toNat / 4096 / 1024))) 0 1024 fun _ => 0) := by
  have hpage := page_ptePtr vaddr
  have haddr : (ptePtr vaddr &&& 0xfffff000).toNat
      = 4096 * (1023 * 1024 + vaddr.toNat / 4096 / 1024) + 4 * 0 := by
    rw [toNat_and_high (k := 12) _ _ (by decide) rfl]
    omega
  refine clearWords_run ⟨by omega, ?_, hne, ?_⟩ haddr (by omega)
  · rw [← hpage]
    exact frame_ptePtr h hpde
  · rw [show (1023 * 1024 + vaddr.toNat / 4096 / 1024) / 1024 = 1023 by omega, h.frame]
    exact hne

end Window

end Paged

end ZyOs
