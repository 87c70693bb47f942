/-
Frames for a program and for the buffers of `file_read`.

While the pages of a program are mapped one after the other, `file_read` takes a page for a buffer
now and then and gives it back.  Two addresses that are free and not the program's are enough for
that: the lowest ones that are free are these or lie in front of them, on pages of the program.
-/
import ZyOs.Proofs.ExecWatch
import ZyOs.Proofs.Malloc

namespace ZyOs

open Library

namespace Exec

variable {p p' p₂ : Pager} {spare need : Finset Nat} {idx j k t n : Nat}

instance (p : Pager) (k : Nat) : Decidable (p.Mapped k) := inferInstanceAs (Decidable (_ ∧ _))

/-- Those of the pages that are not mapped. -/
def missing (p : Pager) (need : Finset Nat) : Finset Nat := need.filter fun k => ¬ p.Mapped k

/-- What is mapped is marked in the bitmap of the process. -/
def AllMarked (p : Pager) : Prop :=
  ∀ i < 8 * p.userVaddr.vaddrBitmap.bmapBytesLen, p.Mapped (userPage i) →
    p.userVaddr.vaddrBitmap.bitmapScanTest i = true

/-- For the pages that are missing, and for two buffers, there are frames, tables and addresses,
and task `t` gets at them. -/
structure Frames (t : Nat) (need : Finset Nat) (p : Pager) : Prop where
  lock : p.userPool.lock.Open t
  user : Room p.userPool.poolBitmap ((missing p need).card + 2)
  kernel : Room p.kernelPool.poolBitmap ((absentTables p (need.image (· / 1024))).card + 2)
  addresses : Room p.userVaddr.vaddrBitmap ((missing p need).card + 3)
  marked : AllMarked p

/-! ### Pages that are to be had -/

/-- There are frames and tables for the pages of `need`, and up to the last of the `spare`
addresses all that is free is one of them. -/
structure Stock (spare need : Finset Nat) (p : Pager) : Prop where
  marked : AllMarked p
  user : Room p.userPool.poolBitmap (missing p need).card
  kernel : Room p.kernelPool.poolBitmap (absentTables p (need.image (· / 1024))).card
  below : ∀ y ∈ spare, userVaddrStart + 4096 * y < 0xc0000000 - pageSize
  free : ∀ y ∈ spare, p.userVaddr.vaddrBitmap.bitmapScanTest y = false
  needed : ∀ y ∈ spare, ∀ i ≤ y, p.userVaddr.vaddrBitmap.bitmapScanTest i = false →
    userPage i ∈ need

theorem userPage_inj {i i' : Nat} : userPage i = userPage i' ↔ i = i' := Nat.add_left_cancel_iff

/-- The lowest addresses that are free. -/
theorem amongFree_le : ∀ {n : Nat} {b : Bitmap} {spare : Finset Nat} {i : Nat}, n ≤ spare.card →
    (∀ y ∈ spare, b.bitmapScanTest y = false) → AmongFree n b i →
    b.bitmapScanTest i = false ∧ ∃ y ∈ spare, i ≤ y := by
  intro n
  induction n with
  | zero => exact fun _ _ h => h.elim
  | succ n ih =>
      rintro b spare i hcard hfree (hi | ⟨l, hl, hi⟩)
      · obtain ⟨y, hy⟩ := Finset.card_pos.mp (Nat.lt_of_lt_of_le (Nat.succ_pos n) hcard)
        refine ⟨hi.free, y, hy, Nat.not_lt.mp fun hlt => ?_⟩
        have hset := hi.below y hlt
        rw [hfree y hy] at hset
        cases hset
      · have herase := Finset.pred_card_le_card_erase (s := spare) (a := l)
        have hrest : n ≤ (spare.erase l).card := by omega
        obtain ⟨hclear, y, hy, hle⟩ := ih hrest (fun y hy => by
          rw [Bitmap.scanTest_set, if_neg (Finset.ne_of_mem_erase hy)]
          exact hfree y (Finset.mem_of_mem_erase hy)) hi
        rw [Bitmap.scanTest_set] at hclear
        split_ifs at hclear
        exact ⟨hclear, y, Finset.mem_of_mem_erase hy, hle⟩

namespace Stock

variable (h : Stock spare need p)
include h

theorem table (hk : k ∈ need) :
    present (p.pde (k / 1024)) = true ∨ ∃ i, p.kernelPool.poolBitmap.LowestFree i := by
  by_cases hpde : present (p.pde (k / 1024)) = true
  · exact .inl hpde
  · have hkernel : 1 ≤ (absentTables p (need.image (· / 1024))).card :=
      Finset.card_pos.mpr ⟨_, Finset.mem_filter.mpr ⟨Finset.mem_image_of_mem _ hk, hpde⟩⟩
    exact .inr (h.kernel.mono hkernel).exists_lowestFree

theorem frame (hk : k ∈ need) (hunmapped : ¬ p.Mapped k) :
    ∃ j, p.userPool.poolBitmap.LowestFree j :=
  (h.user.mono (Finset.card_pos.mpr ⟨k, Finset.mem_filter.mpr ⟨hk, hunmapped⟩⟩)).exists_lowestFree

/-- The lowest address that is free is that of a page there is a frame for. -/
theorem lowest (hne : spare.Nonempty) (hidx : p.userVaddr.vaddrBitmap.LowestFree idx) :
    userPage idx ∈ need ∧ userVaddrStart + 4096 * idx < 0xc0000000 - pageSize := by
  obtain ⟨-, y, hy, hle⟩ := amongFree_le (n := 1) (Finset.card_pos.mpr hne) h.free (.inl hidx)
  have hbelow := h.below y hy
  exact ⟨h.needed y hy idx hle hidx.free, by omega⟩

/-- There is a page for a buffer. -/
theorem lends (hu : UserPages p) (hne : spare.Nonempty) : ∃ idx j, Lends p idx j := by
  obtain ⟨y, hy⟩ := hne
  have hbelow := h.below y hy
  have hbit : y < 8 * p.userVaddr.vaddrBitmap.bmapBytesLen := by
    rw [hu.length, show (0xc0000000 - userVaddrStart) / pageSize / 8 = 94199 from rfl]
    rw [show userVaddrStart = 0x8048000 from rfl, show pageSize = 4096 from rfl] at hbelow
    omega
  have hroom : Room p.userVaddr.vaddrBitmap 1 :=
    ⟨{y}, le_refl 1, fun i hi => by rw [Finset.mem_singleton.mp hi]; exact ⟨hbit, h.free y hy⟩⟩
  obtain ⟨idx, hidx⟩ := hroom.exists_lowestFree
  obtain ⟨hmem, hlow⟩ := h.lowest ⟨y, hy⟩ hidx
  have hunmapped : ¬ p.Mapped (userPage idx) := fun hm => by
    have hmark := h.marked idx hidx.bit hm
    rw [hidx.free] at hmark
    cases hmark
  obtain ⟨j, hj⟩ := h.frame hmem hunmapped
  exact ⟨idx, j, hidx, hlow, hj, hunmapped, h.table hmem⟩

/-- Once a page has been taken there is enough for the others. -/
theorem taken {spare' : Finset Nat} (hmem : userPage idx ∈ need)
    (hunmapped : ¬ p.Mapped (userPage idx)) (hj : p.userPool.poolBitmap.LowestFree j)
    (hlent : Lent p p' idx j) (hsub : spare' ⊆ spare) (hidx : idx ∉ spare') :
    Stock spare' need p' where
  marked i hi hm := by
    rw [hlent.length] at hi
    rw [hlent.marks, Bitmap.scanTest_set]
    split_ifs with heq
    · rfl
    · exact h.marked i hi (((hlent.mapped _).mp hm).resolve_right fun hp => heq (userPage_inj.mp hp))
  user := by
    have huser := h.user
    rw [missing, card_filter_erase hmem hunmapped hlent.mapped] at huser
    rw [hlent.frames]
    exact (hj.room_succ _).mp huser
  kernel := hlent.tables _ (Finset.mem_image_of_mem _ hmem) h.kernel
  below y hy := h.below y (hsub hy)
  free y hy := by
    have hother : y ≠ idx := by
      rintro rfl
      exact hidx hy
    rw [hlent.marks, Bitmap.scanTest_set, if_neg hother]
    exact h.free y (hsub hy)
  needed y hy i hle hi := by
    rw [hlent.marks, Bitmap.scanTest_set] at hi
    split_ifs at hi
    exact h.needed y (hsub hy) i hle hi

/-- Once it has been given back everything is as before. -/
theorem restored (hr : Restored n p p') (hn : n ≤ spare.card) : Stock spare need p' where
  marked i hi hm := by
    rw [hr.length] at hi
    rw [hr.marks]
    exact h.marked i hi ((hr.mapped _).mp hm)
  user := by
    have hsame : missing p' need = missing p need :=
      Finset.filter_congr fun q _ => not_congr (hr.mapped q)
    obtain ⟨free, hcard, hfree⟩ := h.user
    have hsize : p'.userPool.poolBitmap.bmapBytesLen = p.userPool.poolBitmap.bmapBytesLen :=
      hr.size .user
    refine ⟨free, by rw [hsame]; exact hcard, fun i hi => ?_⟩
    rw [hr.frames, hsize]
    exact hfree i hi
  kernel := by
    refine hr.tables _ (fun i hi => ?_) h.kernel
    obtain ⟨hclear, y, hy, hle⟩ := amongFree_le hn h.free hi
    exact Finset.mem_image_of_mem _ (h.needed y hy i hle hclear)
  below := h.below
  free y hy := by
    rw [hr.marks]
    exact h.free y hy
  needed y hy i hle hi := by
    rw [hr.marks] at hi
    exact h.needed y hy i hle hi

/-- `sys_malloc` of a buffer. -/
theorem took {empty : Bool} (htook : Took empty p p') (hcard : n + 1 ≤ spare.card) :
    ∃ spare', n ≤ spare'.card ∧ Stock spare' need p' := by
  cases htook with
  | block _ hsame => exact ⟨spare, by omega, h.restored hsame (Nat.zero_le _)⟩
  | page idx j _ hl hlent =>
      have hne : spare.Nonempty := Finset.card_pos.mp (by omega)
      have hmem := (h.lowest hne hl.address).1
      have herase := Finset.pred_card_le_card_erase (s := spare) (a := idx)
      exact ⟨spare.erase idx, by omega, h.taken hmem hl.unmapped hl.frame hlent
        (Finset.erase_subset idx spare) (Finset.notMem_erase idx spare)⟩

end Stock

/-! ### A page of the program -/

/-- Two of the addresses that are free are kept for the buffers. -/
structure Supply (t : Nat) (spare need : Finset Nat) (p : Pager) : Prop where
  lock : p.userPool.lock.Open t
  two : 2 ≤ spare.card
  away : ∀ y ∈ spare, userPage y ∉ need
  stock : Stock spare (need ∪ spare.image userPage) p

/-- The two lowest of some numbers, in front of another one. -/
theorem exists_lowest_two {free : Finset Nat} (h : 3 ≤ free.card) : ∃ spare ⊆ free,
    spare.card = 2 ∧ (∀ y ∈ spare, ∀ i ∈ free, i ≤ y → i ∈ spare) ∧
      ∃ z ∈ free, ∀ y ∈ spare, y < z := by
  have hne : free.Nonempty := Finset.card_pos.mp (by omega)
  set x := free.min' hne
  have hcard : (free.erase x).card = free.card - 1 :=
    Finset.card_erase_of_mem (free.min'_mem hne)
  have hne₁ : (free.erase x).Nonempty := Finset.card_pos.mp (by omega)
  set y := (free.erase x).min' hne₁
  have hy := Finset.mem_erase.mp ((free.erase x).min'_mem hne₁)
  have hcard₁ : ((free.erase x).erase y).card = (free.erase x).card - 1 :=
    Finset.card_erase_of_mem ((free.erase x).min'_mem hne₁)
  obtain ⟨z, hz⟩ : ((free.erase x).erase y).Nonempty := Finset.card_pos.mp (by omega)
  obtain ⟨hzy, hz⟩ := Finset.mem_erase.mp hz
  have hxy : x ≤ y := free.min'_le y hy.2
  have hyz : y < z := lt_of_le_of_ne ((free.erase x).min'_le z hz) hzy.symm
  refine ⟨{x, y}, ?_, Finset.card_pair hy.1.symm, ?_, z, Finset.mem_of_mem_erase hz, ?_⟩
  · intro i hi
    rcases Finset.mem_insert.mp hi with rfl | hi
    · exact free.min'_mem hne
    · rw [Finset.mem_singleton.mp hi]
      exact hy.2
  · intro y' hy' i hi hle
    by_cases hix : i = x
    · exact Finset.mem_insert.mpr (.inl hix)
    · have hiy : y ≤ i := (free.erase x).min'_le i (Finset.mem_erase.mpr ⟨hix, hi⟩)
      refine Finset.mem_insert_of_mem (Finset.mem_singleton.mpr (Nat.le_antisymm ?_ hiy))
      rcases Finset.mem_insert.mp hy' with rfl | hy'
      · exact hle.trans hxy
      · exact Finset.mem_singleton.mp hy' ▸ hle
  · intro y' hy'
    rcases Finset.mem_insert.mp hy' with rfl | hy'
    · exact hxy.trans_lt hyz
    · exact Finset.mem_singleton.mp hy' ▸ hyz

/-- What is counted for the buffers is kept for them. -/
theorem Frames.supply (h : Frames t need p) (hu : UserPages p) :
    ∃ spare, Supply t spare need p := by
  have hlen : 8 * p.userVaddr.vaddrBitmap.bmapBytesLen = 753592 := by
    rw [hu.length]
    rfl
  set free := (Finset.range (8 * p.userVaddr.vaddrBitmap.bmapBytesLen)).filter
    fun i => p.userVaddr.vaddrBitmap.bitmapScanTest i = false with hfree
  have hmem : ∀ i, i ∈ free ↔ i < 8 * p.userVaddr.vaddrBitmap.bmapBytesLen ∧
      p.userVaddr.vaddrBitmap.bitmapScanTest i = false := fun i => by
    rw [hfree, Finset.mem_filter, Finset.mem_range]
  have hunmapped : ∀ i ∈ free, ¬ p.Mapped (userPage i) := fun i hi hm => by
    obtain ⟨hlt, hclear⟩ := (hmem i).mp hi
    rw [h.marked i hlt hm] at hclear
    cases hclear
  -- those on pages of the program are among the missing ones
  have hcard : 3 ≤ (free.filter fun i => userPage i ∉ need).card := by
    obtain ⟨room, hroom, hclear⟩ := h.addresses
    have hall := Finset.card_le_card fun i hi => (hmem i).mpr (hclear i hi)
    have hthere : (free.filter fun i => userPage i ∈ need).card ≤ (missing p need).card := by
      refine Finset.card_le_card_of_injOn userPage (fun i hi => ?_)
        fun i _ i' _ heq => userPage_inj.mp heq
      obtain ⟨hi, hneed⟩ := Finset.mem_filter.mp hi
      exact Finset.mem_filter.mpr ⟨hneed, hunmapped i hi⟩
    have hsplit := Finset.card_filter_add_card_filter_not (s := free) fun i => userPage i ∈ need
    omega
  obtain ⟨spare, hsub, htwo, hlow, z, hz, hlast⟩ := exists_lowest_two hcard
  have hspare : ∀ y ∈ spare, y ∈ free ∧ userPage y ∉ need := fun y hy =>
    Finset.mem_filter.mp (hsub hy)
  have hpages : (spare.image userPage).card ≤ 2 := htwo ▸ Finset.card_image_le
  refine ⟨spare, h.lock, htwo.ge, fun y hy => (hspare y hy).2, h.marked, ?_, ?_, fun y hy => ?_,
    fun y hy => ((hmem y).mp (hspare y hy).1).2, fun y hy i hle hi => ?_⟩
  · refine h.user.mono ?_
    have hunion : missing p (need ∪ spare.image userPage)
        ⊆ missing p need ∪ spare.image userPage := by
      intro q hq
      obtain ⟨hq, hm⟩ := Finset.mem_filter.mp hq
      rcases Finset.mem_union.mp hq with hq | hq
      · exact Finset.mem_union_left _ (Finset.mem_filter.mpr ⟨hq, hm⟩)
      · exact Finset.mem_union_right _ hq
    have := (Finset.card_le_card hunion).trans (Finset.card_union_le _ _)
    omega
  · refine h.kernel.mono ?_
    have hunion : absentTables p ((need ∪ spare.image userPage).image (· / 1024))
        ⊆ absentTables p (need.image (· / 1024)) ∪ (spare.image userPage).image (· / 1024) := by
      intro q hq
      obtain ⟨hq, hm⟩ := Finset.mem_filter.mp hq
      rw [Finset.image_union] at hq
      rcases Finset.mem_union.mp hq with hq | hq
      · exact Finset.mem_union_left _ (Finset.mem_filter.mpr ⟨hq, hm⟩)
      · exact Finset.mem_union_right _ hq
    have := (Finset.card_le_card hunion).trans (Finset.card_union_le _ _)
    have : ((spare.image userPage).image (· / 1024)).card ≤ (spare.image userPage).card :=
      Finset.card_image_le
    omega
  · -- the third address has a bit, so this one is not the page in front of the kernel
    have hlt := hlast y hy
    have hbit := ((hmem z).mp (Finset.mem_filter.mp hz).1).1
    rw [show userVaddrStart = 0x8048000 from rfl, show pageSize = 4096 from rfl]
    omega
  · by_cases hneed : userPage i ∈ need
    · exact Finset.mem_union_left _ hneed
    · have hlt := hlast y hy
      have hbit := ((hmem z).mp (Finset.mem_filter.mp hz).1).1
      have hin := hlow y hy i (Finset.mem_filter.mpr ⟨(hmem i).mpr ⟨by omega, hi⟩, hneed⟩) hle
      exact Finset.mem_union_right _ (Finset.mem_image_of_mem _ hin)

/-- **A page that is missing** is mapped, unless it is the first one of user space. -/
theorem getAPage_missing {vaddr : Nat} (hu : UserPages p) (h : Supply t spare need p)
    (hin : InUser vaddr) (hfirst : firstPage < vaddr / pageSize) (hmem : vaddr / pageSize ∈ need)
    (hunmapped : ¬ p.Mapped (vaddr / pageSize)) :
    ∃ p', getAPageWith Bitmap.bitmapScan t .user vaddr p = .ok (some vaddr, p') ∧
      Supply t spare need p' ∧ ∀ q, p'.Mapped q ↔ p.Mapped q ∨ q = vaddr / pageSize := by
  obtain ⟨hlock, htwo, haway, hstock⟩ := h
  -- the bit of the page
  set bit := sub32 vaddr (p.vaddrs .user).vaddrStart / pageSize with hbit
  have hpage : userPage bit = vaddr / pageSize := by
    obtain ⟨hlow, hhigh⟩ := hin
    have hstart : (p.vaddrs .user).vaddrStart = userVaddrStart := hu.start
    rw [hbit, hstart]
    unfold userPage firstPage sub32
    rw [show userVaddrStart = 0x8048000 from rfl, show pageSize = 4096 from rfl] at *
    omega
  rw [← hpage] at hmem hunmapped
  have hpos : 0 < bit := by
    rw [← hpage] at hfirst
    unfold userPage at hfirst
    omega
  have hneed := Finset.mem_union_left (spare.image userPage) hmem
  obtain ⟨j, hj⟩ := hstock.frame hneed hunmapped
  set p₁ := (p.withLock .user ((p.pool .user).lock.acquire t)).withVaddrs
    ((p.vaddrs .user).mark bit) .user with hp₁
  have hplaces₁ : SamePlaces p p₁ := (SamePlaces.withLock .user _).trans (.withVaddrs rfl rfl)
  have halloc := poolAlloc_lowest (s := p₁) ((hu.congr hplaces₁).fits .user) hj
  set p₂ := p₁.withPool ((p₁.pool .user).take j) .user with hp₂
  have hplaces₂ : SamePlaces p p₂ := hplaces₁.trans (.take j .user)
  obtain ⟨p₃, hadd, hadded⟩ := @pageTableAdd_added p₂ (j * 4096 + (p₁.pool .user).phyAddrStart)
    vaddr ((hu.congr hplaces₂).fits .kernel) (hpage ▸ hunmapped) (hpage ▸ hstock.table hneed)
  rw [← hpage] at hadded ⊢
  have hlock₃ : (p₃.pool .user).lock = p.userPool.lock.acquire t :=
    congrArg Pool.lock hadded.userPool
  have hrelease : poolRelease t .user p₃ = _ := poolRelease_held (by rw [hlock₃]; rfl)
  rw [hlock₃] at hrelease
  set p₄ := p₃.withLock .user (p.userPool.lock.acquire t).release with hp₄
  have hlent : Lent p p₄ bit j := by
    refine ⟨(hplaces₂.trans hadded.toSamePlaces).trans (.withLock .user _), ?_, ?_, hadded.mapped,
      hadded.entry, hadded.others, hadded.tables⟩
    · exact congrArg VirtualAddr.vaddrBitmap hadded.userVaddr
    · exact congrArg Pool.poolBitmap hadded.userPool
  have hkept : bit ∉ spare := fun hc => haway bit hc hmem
  refine ⟨p₄, ?_, ⟨open_release _ _, htwo, haway,
    hstock.taken hneed hunmapped hj hlent (Finset.Subset.refl spare) hkept⟩, hadded.mapped⟩
  rw [getAPageWith_run (by rw [hu.isUser]; rfl) hpos, Prog.bind_of_run halloc]
  simp only
  rw [Prog.bind_of_run hadd, Prog.bind_of_run hrelease]
  rfl

/-! ### Reads -/

section Read

variable {f : OpenFile} {s : Loader} {count : Nat} {buf : Mem}

/-- There are pages for both buffers. -/
theorem readBytes_stock {size : Nat} (hu : UserPages s.pager) (h : Stock spare need s.pager)
    (hcard : 2 ≤ spare.card) (hfits : s.fdPos + size < 71168) :
    ∃ p, readBytes f t buf size s = .ok (((size : Int), buf.splice 0 (f.bytes.drop s.fdPos) size),
        { s with fdPos := s.fdPos + size, pager := p }) ∧
      Restored 2 s.pager p ∧ p.userPool.lock.Open t := by
  obtain ⟨p₁, htook₁, -, hok₁⟩ := @withBuffer_run t _
    (withBuffer t s.heap.noAllBlocks (readBlocks f buf size)) s s.heap.noIoBuf hu
    fun _ => h.lends hu (Finset.card_pos.mp (by omega))
  obtain ⟨spare₁, hcard₁, h₁⟩ := h.took htook₁ hcard
  let s₁ : Loader := { s with pager := p₁ }
  have hu₁ : UserPages s₁.pager := hu.congr htook₁.places
  obtain ⟨p₂, htook₂, -, hok₂⟩ := @withBuffer_run t _ (readBlocks f buf size) s₁
    s.heap.noAllBlocks hu₁ fun _ => h₁.lends hu₁ (Finset.card_pos.mp (by omega))
  have hread := @readBlocks_run f { s with pager := p₂ } buf size hfits
  obtain ⟨p₃, hinner, hrestored₃, -⟩ := hok₂ 0 _ _ hread (.refl 0 p₂)
  obtain ⟨p₄, houter, hrestored₄, hopen⟩ := hok₁ 1 _ _ hinner hrestored₃
  refine ⟨p₄, ?_, hrestored₄, hopen⟩
  rw [readBytes, Prog.bind_of_run (Prog.get_run s), houter]

/-- **Within the limit a read gets what there is**, and the pages are as before. -/
theorem fileRead_stock (hu : UserPages s.pager) (hlock : s.pager.userPool.lock.Open t)
    (h : Stock spare need s.pager) (hcard : 2 ≤ spare.card) (hpos : s.fdPos ≤ f.iSize)
    (hlimit : ReadLimit f.iSize s.fdPos count) :
    ∃ p, fileRead f t buf count s = .ok ((f.readCount s.fdPos count,
          buf.splice 0 (f.bytes.drop s.fdPos) (f.got s.fdPos count)),
        { s with fdPos := s.fdPos + f.got s.fdPos count, pager := p }) ∧
      Restored 2 s.pager p ∧ p.userPool.lock.Open t := by
  rw [fileRead_eq hpos hlimit]
  by_cases hend : s.fdPos = f.iSize ∧ 1 ≤ count
  · obtain ⟨hminus, hnone⟩ := OpenFile.readCount_end hend
    rw [if_pos hend, hminus, hnone, Mem.splice_zero]
    exact ⟨s.pager, rfl, .refl 2 _, hlock⟩
  · rw [if_neg hend, OpenFile.readCount, if_neg hend]
    exact readBytes_stock hu h hcard (f.got_fits hpos hlimit hend)

end Read

end Exec

end ZyOs
