/-
The heap in memory does what `ZyOs.Kernel.Arena` says.

Each function of `ZyOs.Kernel.ArenaBytes` refines the one of the same name: as long as the memory
shows a heap in order, the two stop together, and where they return, the memory shows what the
other one has made of the headers and lists.  Blocks and pages stay accounted for.
-/
import ZyOs.Library.BitFields
import ZyOs.Library.Refine
import ZyOs.Proofs.ArenaAccount
import ZyOs.Proofs.ArenaBytes

namespace ZyOs

open Library InMemory

variable {α β : Type} {site : HeapSite} {s s' : Memory} {w w' : HeapMem} {m : Mem} {i p b n k : Nat}
  {a : Arena} {e : Option Nat} {live : List (Nat × Nat)} {B : Nat → Prop} {size : Nat}

/-- The memory shows `s`, and all of it is accounted for. -/
structure HeapWhole (site : HeapSite) (B : Nat → Prop) (s : Memory) (w : HeapMem)
    (live : List (Nat × Nat)) : Prop where
  shown : Shown site s w
  accounted : Accounted site.owner B (s.vaddrs site.owner) (s.arenas site.owner)
    (s.lists site.owner) live

/-! ### Words -/

theorem toNat_block2arena (b : UInt32) :
    (InMemory.block2arena b).toNat = ZyOs.block2arena b.toNat :=
  toNat_and_high b 0xfffff000 (k := 12) (by decide) (by decide)

theorem toNat_ofNat_lt (h : n < 2 ^ 32) : (UInt32.ofNat n).toNat = n := UInt32.toNat_ofNat_of_lt' h

/-- `a->desc` of the arena of a block. -/
theorem Shown.desc (h : Shown site s w) (ha : s.arenas site.owner p = some a) (hp : p < 2 ^ 32) :
    InMemory.desc w.bytes (UInt32.ofNat p) = site.descWord a.desc := by
  rw [InMemory.desc, toNat_ofNat_lt hp]
  exact (h.headers p a ha).desc

theorem Shown.desc_small (h : Shown site s w) (ha : s.arenas site.owner p = some a)
    (hp : p < 2 ^ 32) (hd : a.desc = some ⟨site.owner, i⟩) :
    InMemory.desc w.bytes (UInt32.ofNat p) = descAt site.descs i := by
  rw [h.desc ha hp, hd]
  rfl

theorem Shown.cnt (h : Shown site s w) (ha : s.arenas site.owner p = some a) (hp : p < 2 ^ 32) :
    InMemory.cnt w.bytes (UInt32.ofNat p) = a.cnt := by
  rw [InMemory.cnt, toNat_ofNat_lt hp]
  exact (h.headers p a ha).cnt

theorem Shown.large (h : Shown site s w) (ha : s.arenas site.owner p = some a) (hp : p < 2 ^ 32) :
    InMemory.large w.bytes (UInt32.ofNat p) = if a.large then 1 else 0 := by
  rw [InMemory.large, toNat_ofNat_lt hp]
  exact (h.headers p a ha).large

/-- `arena2block` reads the size of the blocks through the header. -/
theorem Shown.arena2block (h : Shown site s w) (hi : i < 7)
    (ha : s.arenas site.owner p = some a) (hd : a.desc = some ⟨site.owner, i⟩) (hp : p < 2 ^ 32)
    (k : Nat) : InMemory.arena2block w.bytes (UInt32.ofNat p) (UInt32.ofNat k)
      = UInt32.ofNat (ZyOs.arena2block (descSize i) p k) := by
  rw [InMemory.arena2block, h.desc_small ha hp hd, (h.descs i hi).1, ZyOs.arena2block,
    UInt32.ofNat_add, UInt32.ofNat_add, UInt32.ofNat_mul]
  rfl

theorem HeapLaid.page_lt (h : HeapLaid site.owner s) (ha : s.arenas site.owner p = some a) :
    p < 2 ^ 32 := by
  obtain ⟨-, -, htop, -⟩ := h.placed.range p a ha
  have hpos := h.placed.pages_pos ha
  omega

/-- What is written is known. -/
theorem write_right {T : α → Memory → β → HeapMem → Prop} {x : MemoryM α} {g : Unit → HeapMemM β}
    {f : Mem → Mem} (hm : f w.bytes = m)
    (h : Prog.Refines T x (g ()) s { w with bytes := m }) :
    Prog.Refines T x (write f >>= g) s w := by
  subst hm
  exact .right (Prog.modify_run _ _) h

/-! ### `malloc_page` -/

/-- `malloc_page` takes the same pages. -/
theorem mallocPages_refines {T : α → Memory → β → HeapMem → Prop}
    {f : Option Nat → MemoryM α} {g : UInt32 → HeapMemM β} {pgCnt : UInt32} (h : Shown site s w)
    (hfits : (s.vaddrs site.owner).Fits) (hcnt : pgCnt.toNat = n)
    (hnone : Prog.Refines T (f none) (g 0) s w)
    (hsome : ∀ p v, TakesPages (s.vaddrs site.owner) v p n → 0 < n → n < 3840 → 0 < p →
      p < 2 ^ 32 → (site.descs.toNat + 168 ≤ p ∨ p + 4096 * n ≤ site.descs.toNat) →
      Prog.Refines T (f (some p)) (g (UInt32.ofNat p)) (s.withVaddr site.owner v)
        { w with vaddrs := v }) :
    Prog.Refines T (ZyOs.mallocPages site.owner n >>= f)
      (InMemory.mallocPages site pgCnt >>= g) s w := by
  unfold ZyOs.mallocPages InMemory.mallocPages
  rw [hcnt]
  simp only [bind_assoc]
  refine .lift_bind fun _ hassert => ?_
  obtain ⟨hpos, hlt⟩ := ASSERT_eq_ok.mp hassert
  refine .left (Prog.get_run _) (.right (Prog.get_run _) ?_)
  rw [h.vaddrs]
  refine .lift_bind fun res hget => ?_
  obtain ⟨v, r⟩ := res
  refine .left (Prog.set_run _ _) (.right (Prog.set_run _ _) ?_)
  simp only [pure_bind]
  rcases vaddrGet_ok hfits hpos hget with ⟨rfl, rfl⟩ | ⟨p, rfl, ht⟩
  · have hsame : ({ w with vaddrs := s.vaddrs site.owner } : HeapMem) = w := by rw [← h.vaddrs]
    rw [withVaddr_self, hsame]
    exact hnone
  · have htop := vaddrGet_top hfits hpos hget
    have hwindow := h.window
    rw [h.vaddrs] at hwindow
    have hlow := ht.low
    have hhigh := ht.top
    have hstart := hfits.start
    exact hsome p v ht hpos hlt (by omega) (by omega) (by omega)

/-! ### The loops -/

theorem lt_blocksPerArena (h : Shown site s w) (hi : i < 7) (hk : k ≤ descBlocks i) :
    UInt32.ofNat k < blocksPerArena w.bytes (descAt site.descs i) ↔ k < descBlocks i := by
  have hbound := descBlocks_bounds hi
  rw [(h.descs i hi).2, UInt32.lt_iff_toNat_lt, toNat_ofNat_lt (by omega), descBlocks_toNat hi]

/-- `elem_find` looks for a block. -/
theorem Shown.elemFind (h : Shown site s w) (hlaid : HeapLaid site.owner s) (hi : i < 7)
    (hb : b < 2 ^ 32) :
    InMemory.elemFind w.bytes (freeList (descAt site.descs i)) (UInt32.ofNat b)
      = .ok (decide (b ∈ s.lists site.owner i)) := by
  rw [elemFind_run (h.lists i hi)]
  congr 1
  refine decide_eq_decide.mpr ⟨fun hmem => ?_, fun hmem => List.mem_map_of_mem hmem⟩
  obtain ⟨x, hx, heq⟩ := List.mem_map.mp hmem
  exact (ofNat_inj (hlaid.lt hi hx) hb).mp heq ▸ hx

/-- The blocks from `k` on come onto the list. -/
theorem splitArena_refines (hsite : site.Ok) (hi : i < 7) (hd : a.desc = some ⟨site.owner, i⟩) :
    ∀ (n k rounds : Nat) (s : Memory) (w : HeapMem), n + k = descBlocks i → n < rounds →
      Shown site s w → HeapLaid site.owner s → s.arenas site.owner p = some a →
      Prog.Refines (fun _ s' _ w' => Shown site s' w') (ZyOs.splitArena ⟨site.owner, i⟩ p n k)
        (InMemory.splitArena (descAt site.descs i) (UInt32.ofNat p) rounds (UInt32.ofNat k)) s w := by
  intro n
  induction n with
  | zero =>
      intro k rounds s w hn hr h hlaid ha
      obtain ⟨r, rfl⟩ : ∃ r, rounds = r + 1 := ⟨rounds - 1, by omega⟩
      have hstop := mt (lt_blocksPerArena h hi (k := k) (by omega)).mp (by omega)
      rw [InMemory.splitArena]
      refine .right (Prog.get_run _) ?_
      rw [if_neg hstop]
      exact .pure h
  | succ n ih =>
      intro k rounds s w hn hr h hlaid ha
      obtain ⟨r, rfl⟩ : ∃ r, rounds = r + 1 := ⟨rounds - 1, by omega⟩
      have hgo := (lt_blocksPerArena h hi (k := k) (by omega)).mpr (by omega)
      have hplt := hlaid.page_lt ha
      have hblock : BlockOf site.owner (s.arenas site.owner) i p
          (ZyOs.arena2block (descSize i) p k) := ⟨⟨a, ha, hd⟩, k, by omega, rfl⟩
      have hsize : (s.descs ⟨site.owner, i⟩).blockSize = descSize i := hlaid.sized.size i
      have hlist : (s.descs ⟨site.owner, i⟩).freeList = s.lists site.owner i := rfl
      have hfind := h.elemFind hlaid hi (hblock.lt hlaid.placed)
      have hblocks : ∀ b ∈ s.lists site.owner i ++ [ZyOs.arena2block (descSize i) p k],
          ∃ p, BlockOf site.owner (s.arenas site.owner) i p b := by
        intro b hb
        rcases List.mem_append.mp hb with hb | hb
        · exact hlaid.block i hi b hb
        · exact ⟨p, List.mem_singleton.mp hb ▸ hblock⟩
      rw [ZyOs.splitArena, InMemory.splitArena]
      refine .left (Prog.get_run _) (.right (Prog.get_run _) ?_)
      rw [if_pos hgo]
      simp only [h.arena2block hi ha hd hplt, h.desc_small ha hplt hd, hfind, hsize, hlist]
      refine .right (Prog.lift_ok _ _) ?_
      by_cases hmem : ZyOs.arena2block (descSize i) p k ∈ s.lists site.owner i
      · rw [ASSERT_neg (not_not.mpr hmem), ASSERT_neg (by simp [hmem])]
        exact .of_error (Prog.bind_of_error rfl) (Prog.bind_of_error rfl)
      · rw [ASSERT_pos hmem, ASSERT_pos (by simp [hmem])]
        have happend := h.append hsite hlaid hi hblock hmem
        have hwrite : freeList (InMemory.desc w.bytes (UInt32.ofNat p))
            = freeList (descAt site.descs i) := congrArg _ (h.desc_small ha hplt hd)
        refine .left (Prog.lift_ok _ _) (.right (Prog.lift_ok _ _) (.left (Prog.set_run _ _)
          (write_right (congrArg (InMemory.listAppend w.bytes · _) hwrite) ?_)))
        rw [show UInt32.ofNat k + 1 = UInt32.ofNat (k + 1) from (UInt32.ofNat_add k 1).symm]
        exact ih (k + 1) r _ _ (by omega) (by omega) happend (hlaid.withList hblocks) ha

/-! ### `sys_malloc` -/

/-- What `sys_malloc` returns: `NULL`, or `size` bytes that are zero. -/
structure Answered (site : HeapSite) (B : Nat → Prop) (size : Nat) (live : List (Nat × Nat))
    (r : Option Nat) (s : Memory) (q : UInt32) (w : HeapMem) : Prop where
  pointer : q = UInt32.ofNat (r.getD 0)
  whole : HeapWhole site B s w ((r.map (·, size)).toList ++ live)
  place : ∀ p ∈ r, 0 < p ∧ p < 2 ^ 32
  zero : ∀ p ∈ r, ∀ k < size, w.bytes (p + k) = 0

theorem putHeader_out {x : Nat} {d cnt large : UInt32} (hp : p < 2 ^ 32)
    (hx : x < p ∨ p + 12 ≤ x) : putHeader m (UInt32.ofNat p) d cnt large x = m x := by
  unfold putHeader
  rw [toNat_ofNat_lt hp, putWord_out (by omega), putWord_out (by omega), putWord_out (by omega)]

theorem headerAt_put (hp : p < 2 ^ 32) (m : Mem) (a : Arena) :
    HeaderAt site (putHeader m (UInt32.ofNat p) (site.descWord a.desc) a.cnt
      (if a.large then 1 else 0)) p a := by
  unfold putHeader
  rw [toNat_ofNat_lt hp]
  refine ⟨?_, ?_, getWord_putWord ..⟩
  · rw [getWord_putWord_of_apart (by omega), getWord_putWord_of_apart (by omega),
      getWord_putWord]
  · rw [getWord_putWord_of_apart (by omega), getWord_putWord]

theorem mem_blocks : b ∈ (List.range (descBlocks i)).map (ZyOs.arena2block (descSize i) p) ↔
    b ∈ blockSet i p := by
  simp only [List.mem_map, List.mem_range, mem_blockSet]
  exact ⟨fun ⟨k, hk, he⟩ => ⟨k, hk, he.symm⟩, fun ⟨k, hk, he⟩ => ⟨k, hk, he.symm⟩⟩

/-- A page becomes an arena. -/
theorem newArena_refines (hsite : site.Ok) (h : HeapWhole site B s w live)
    (hok : HeapOk site.owner none s live) (hi : i < 7) (hl : s.lists site.owner i = []) :
    Prog.Refines (fun r s' r' w' => r' = r ∧ HeapWhole site B s' w' live)
      (ZyOs.newArena site.owner ⟨site.owner, i⟩)
      (InMemory.newArena site (descAt site.descs i)) s w := by
  have hbound := descBlocks_bounds hi
  have hlaid := hok.laid
  refine mallocPages_refines h.shown hlaid.placed.fits rfl ?_ fun p v ht _ _ hpos hplt hfar => ?_
  · rw [if_pos rfl]
    exact .pure ⟨rfl, h⟩
  rw [if_neg (ofNat_ne_zero hpos hplt)]
  -- the page is cleared, and its header written
  have hfill : ∀ x, x < p ∨ p + 4096 * 1 ≤ x → w.bytes.fill p 0 pageSize x = w.bytes x :=
    fun x hx => Mem.fill_out (by rw [show pageSize = 4096 from rfl]; omega)
  have hdesc : DescAt site (w.bytes.fill p 0 pageSize) i :=
    (h.shown.descs i hi).congr hsite hi fun x hx hx' => hfill x (by omega)
  have hplaced : Shown site (((s.withVaddr site.owner v).zeroed site.owner p pageSize).withArena
      site.owner p (some ⟨some ⟨site.owner, i⟩, UInt32.ofNat (descBlocks i), false⟩))
      ⟨putHeader (w.bytes.fill p 0 pageSize) (UInt32.ofNat p) (descAt site.descs i)
        (UInt32.ofNat (descBlocks i)) 0, v⟩ :=
    h.shown.place hsite hlaid ht Nat.one_pos hfar
      (fun x hx => (putHeader_out hplt (by omega)).trans (hfill x hx)) (headerAt_put hplt _ _) rfl _
  have hadd := hok.arenas.addSmall ht hi hl
  refine .left (Prog.modify_run _ _) (write_right (congrArg (w.bytes.fill · 0 pageSize)
    (toNat_ofNat_lt hplt)) (.left (Prog.get_run _) (.left (Prog.modify_run _ _)
    (write_right (congrArg (putHeader _ _ _ · 0) hdesc.2) ?_))))
  rw [show (((s.withVaddr site.owner v).zeroed site.owner p pageSize).descs
    ⟨site.owner, i⟩).blocksPerArena = UInt32.ofNat (descBlocks i) from hlaid.sized.blocks i,
    descBlocks_toNat hi]
  generalize hs₁ : ((s.withVaddr site.owner v).zeroed site.owner p pageSize).withArena site.owner p
    (some ⟨some ⟨site.owner, i⟩, UInt32.ofNat (descBlocks i), false⟩) = s₁ at hplaced ⊢
  have hlists : s₁.lists site.owner = s.lists site.owner := hs₁ ▸ rfl
  have harenas : s₁.arenas site.owner = Function.update (s.arenas site.owner) p
      (some ⟨some ⟨site.owner, i⟩, UInt32.ofNat (descBlocks i), false⟩) := by
    subst hs₁
    simp [Memory.zeroed]
  have hvaddrs : s₁.vaddrs site.owner = v := by
    subst hs₁
    simp [Memory.zeroed]
  have hsized : Sized site.owner s₁ := hs₁ ▸ (hlaid.sized.withVaddr ht.start).congr rfl rfl rfl
  have hlaid₁ : HeapLaid site.owner s₁ := by
    refine ⟨hsized, ?_, fun j hj b hb => ?_⟩
    · rw [harenas, hvaddrs]
      exact hadd.placed
    · rw [hlists] at hb
      rw [harenas]
      obtain ⟨q, hblock⟩ := hlaid.block j hj b hb
      refine ⟨q, hblock.mono fun x hx => ?_⟩
      obtain ⟨x', hx', hd, -⟩ := update_fresh (hlaid.placed.fresh ht (Nat.le_refl p) (by omega)) hx
      exact ⟨x', hx', hd⟩
  -- its blocks come onto the list
  have hrun := splitArena_all (p := p) hsized (by rw [hlists, hl]) (descBlocks i)
  obtain ⟨u, w', hrun', hsplit⟩ := (splitArena_refines (p := p) hsite hi rfl (descBlocks i) 0
    (2 ^ 32) s₁ _ rfl (by omega) hplaced hlaid₁ (by rw [harenas, Function.update_self])).run hrun
  refine .left hrun (.right hrun' (.pure ⟨rfl, hsplit, ?_⟩))
  rw [lists_withList, vaddrs_withList, arenas_withList, hlists, harenas, hvaddrs]
  refine h.accounted.place _ _ hlaid.placed ht Nat.one_pos rfl (fun j b hb => ?_) (fun x hx => hx)
    fun j hd b hb => ?_
  · by_cases hj : j = i
    · rw [hj, hl] at hb
      cases hb
    · rwa [Function.update_of_ne hj]
  · obtain rfl : i = j := congrArg DescPtr.idx (Option.some.inj hd)
    rw [Function.update_self]
    exact mem_blocks.mpr hb

/-- The first block of a list is handed out, and it is zero. -/
theorem takeBlock_refines (hsite : site.Ok) (h : HeapWhole site B s w live)
    (hok : HeapOk site.owner e s live) (hi : i < 7) {rest : List Nat}
    (hl : s.lists site.owner i = b :: rest) (hfit : size ≤ descSize i) :
    Prog.Refines (fun p => Answered site B size live (some p))
      (ZyOs.takeBlock site.owner ⟨site.owner, i⟩) (InMemory.takeBlock (descAt site.descs i)) s w := by
  have hlaid := hok.laid
  have hmem : b ∈ s.lists site.owner i := by
    rw [hl]
    exact List.mem_cons_self
  obtain ⟨p, hblock⟩ := hlaid.block i hi b hmem
  have hpage := hblock.arena hlaid.placed
  have hblt := hblock.lt hlaid.placed
  have hrange := hblock.range hlaid.placed
  obtain ⟨a, ha, hd⟩ := hblock.1
  have hsmall := (hlaid.placed.small ha hd).2
  have hlist : (s.descs ⟨site.owner, i⟩).freeList = b :: rest := hl
  have hnodup := hok.arenas.listed.nodup i hi
  rw [hl, List.nodup_cons] at hnodup
  have hblt32 := toNat_ofNat_lt hblt
  have hpage32 : InMemory.block2arena (UInt32.ofNat b) = UInt32.ofNat p := by
    apply UInt32.toNat_inj.mp
    rw [toNat_block2arena, hblt32, hpage, toNat_ofNat_lt (hlaid.page_lt ha)]
  -- the block comes off the list
  obtain ⟨hfirst, hpop⟩ := h.shown.pop hsite hlaid hi hl
  generalize hm : (InMemory.listPop w.bytes (freeList (descAt site.descs i))).2 = m at hpop
  have hlaid₁ : HeapLaid site.owner (s.withList ⟨site.owner, i⟩ rest) :=
    hlaid.withList fun x hx => hlaid.block i hi x (by rw [hl]; exact List.mem_cons_of_mem _ hx)
  -- it is cleared: it is in nobody's way
  have hsize : (InMemory.blockSize m (descAt site.descs i)).toNat = descSize i := by
    rw [(hpop.descs i hi).1, toNat_ofNat_lt (by have := descSize_pos i; omega)]
  have hfill : ∀ x, x < b ∨ b + descSize i ≤ x → m.fill b 0 (descSize i) x = m x :=
    fun x hx => Mem.fill_out hx
  have hclear : Shown site (s.withList ⟨site.owner, i⟩ rest)
      { w with bytes := m.fill b 0 (descSize i) } := by
    have hfar := h.shown.block_apart hlaid hblock
    refine hpop.congr hsite hlaid₁ (fun x hx hx' => hfill x (by omega))
      (fun q y hy x hx hx' => ?_) fun j hj b' hb' x hx hx' => ?_
    · have := hblock.header hlaid.placed hy
      exact hfill x (by omega)
    · obtain ⟨q, hblock'⟩ := hlaid₁.block j hj b' hb'
      have hne : b ≠ b' := by
        rintro rfl
        obtain ⟨rfl, -⟩ := hblock.unique hblock' hlaid.placed
        rw [lists_withList, Function.update_self] at hb'
        exact hnodup.1 hb'
      have := hblock.apart hblock' hlaid.placed hne
      have := descSize_pos j
      exact hfill x (by omega)
  have hcnt := hclear.cnt ha (hlaid.page_lt ha)
  have hcount := (hclear.withBytes site.owner ((s.bytes site.owner).fill b 0 (descSize i))).recount
    hsite (hlaid₁.withBytes _ _) ha hsmall (a.cnt - 1)
  have hblockSize : ((s.withList ⟨site.owner, i⟩ rest).descs ⟨site.owner, i⟩).blockSize
      = descSize i := hlaid₁.sized.size i
  refine .left (Prog.get_run _) ?_
  rw [hlist]
  refine .left (Prog.modify_run _ _) (.left (Prog.modify_run _ _) (.left (Prog.get_run _) ?_))
  rw [hblockSize, show ((s.withList ⟨site.owner, i⟩ rest).zeroed site.owner b
    (descSize i)).arenas site.owner (block2arena b) = some a from hpage.symm ▸ ha]
  refine .left (Prog.modify_run _ _) (.right (Prog.get_run _) ?_)
  rw [hfirst]
  refine write_right hm (write_right (m := m.fill b 0 (descSize i)) ?_ (write_right
    (m := putWord (m.fill b 0 (descSize i)) (p + 4) (a.cnt - 1)) ?_ (.pure ⟨rfl, ⟨?_, ?_⟩, ?_, ?_⟩)))
  · rw [hblt32, hsize]
  · rw [hpage32, setCnt, hcnt, toNat_ofNat_lt (hlaid.page_lt ha)]
  · rw [hpage]
    exact hcount
  · have hpopped := h.accounted.pop (a.cnt - 1) size ha hsmall hl
    simpa [Memory.zeroed, hpage] using hpopped
  · rintro _ ⟨⟩
    exact ⟨by omega, hblt⟩
  · rintro _ ⟨⟩ k hk
    show putWord (m.fill b 0 (descSize i)) (p + 4) (a.cnt - 1) (b + k) = 0
    rw [putWord_out (by omega)]
    exact Mem.fill_in (by omega) (by omega)

/-- `DIV_ROUND_UP` does not wrap. -/
theorem toNat_pageCnt {size : UInt32} (h : size.toNat < 65535 * 4096) :
    ((size + 12 + 4096 - 1) / 4096).toNat = (size.toNat + arenaSize + pageSize - 1) / pageSize := by
  have hsum : (size + 12 + 4096).toNat = size.toNat + 4108 := by
    rw [UInt32.toNat_add, UInt32.toNat_add]
    simp only [UInt32.reduceToNat]
    omega
  have hone : (1 : UInt32) ≤ size + 12 + 4096 := by
    rw [UInt32.le_iff_toNat_le, hsum]
    simp
  rw [UInt32.toNat_div, UInt32.toNat_sub_of_le _ _ hone, hsum, arenaSize, pageSize]
  simp only [UInt32.reduceToNat]

/-- More than 1024 bytes. -/
theorem mallocLarge_refines (hsite : site.Ok) (h : HeapWhole site B s w live)
    (hok : HeapOk site.owner none s live) {size : UInt32} (hsize : size < site.poolSize) :
    Prog.Refines (Answered site B size.toNat live) (ZyOs.mallocLarge site.owner size.toNat)
      (InMemory.mallocLarge site size) s w := by
  have hlaid := hok.laid
  have hpool := h.shown.poolSize
  have hbound := hlaid.sized.pool
  have hlt := UInt32.lt_iff_toNat_lt.mp hsize
  have hlarge := large_pages size.toNat
  have hcnt := toNat_pageCnt (show size.toNat < 65535 * 4096 by omega)
  unfold ZyOs.mallocLarge InMemory.mallocLarge
  generalize (size.toNat + arenaSize + pageSize - 1) / pageSize = n at hcnt hlarge ⊢
  generalize (size + 12 + 4096 - 1) / 4096 = cnt at hcnt ⊢
  refine mallocPages_refines h.shown hlaid.placed.fits hcnt ?_ fun p v ht hn hn' hpos hplt hfar => ?_
  · rw [if_pos rfl]
    exact .pure ⟨rfl, h, nofun, nofun⟩
  rw [if_neg (ofNat_ne_zero hpos hplt)]
  have hcnt' : UInt32.ofNat n = cnt := by rw [← hcnt, UInt32.ofNat_toNat]
  have hpages : Arena.pages ⟨none, UInt32.ofNat n, true⟩ = n := by
    rw [hcnt', ← hcnt]
    rfl
  -- the pages are cleared, and the header written
  have hfill : ∀ x, x < p ∨ p + 4096 * n ≤ x → w.bytes.fill p 0 (n * pageSize) x = w.bytes x :=
    fun x hx => Mem.fill_out (by rw [show pageSize = 4096 from rfl]; omega)
  have hplaced : Shown site (((s.withVaddr site.owner v).zeroed site.owner p
      (n * pageSize)).withArena site.owner p (some ⟨none, UInt32.ofNat n, true⟩))
      ⟨putHeader (w.bytes.fill p 0 (n * pageSize)) (UInt32.ofNat p) 0 (UInt32.ofNat n) 1, v⟩ :=
    h.shown.place hsite hlaid ht hn hfar
      (fun x hx => (putHeader_out hplt (by omega)).trans (hfill x hx)) (headerAt_put hplt _ _)
      hpages _
  have hplace := h.accounted.place (s.lists site.owner)
    ((p + arenaSize, size.toNat) :: live) hlaid.placed ht hn hpages (fun _ _ hb => hb)
    (fun _ hx => List.mem_cons_of_mem _ hx) nofun
  have hadd : UInt32.ofNat p + 12 = UInt32.ofNat (p + arenaSize) := (UInt32.ofNat_add p 12).symm
  refine .left (Prog.modify_run _ _) (.left (Prog.modify_run _ _) (write_right
    (m := w.bytes.fill p 0 (n * pageSize)) ?_ (write_right (congrArg (putHeader _ _ 0 · 1)
      hcnt'.symm) (.pure ⟨hadd, ⟨hplaced, ?_⟩, ?_, ?_⟩))))
  · rw [toNat_ofNat_lt hplt, hcnt]
  · simpa [Memory.zeroed] using hplace
  · rintro _ ⟨⟩
    have := ht.top
    rw [show arenaSize = 12 from rfl]
    omega
  · rintro _ ⟨⟩ k hk
    rw [show arenaSize = 12 from rfl]
    show putHeader (w.bytes.fill p 0 (n * pageSize)) (UInt32.ofNat p) 0 (UInt32.ofNat n) 1 (p + 12 + k) = 0
    rw [putHeader_out hplt (by omega)]
    exact Mem.fill_in (by omega) (by rw [show pageSize = 4096 from rfl]; omega)

/-- The descriptors are those of the other heap. -/
theorem findDesc_eq (h : Shown site s w) (hlaid : HeapLaid site.owner s) (size : UInt32) :
    ∀ n k, n + k = 7 → InMemory.findDesc w.bytes site.descs size n k
      = ZyOs.findDesc s site.owner size.toNat n k := by
  intro n
  induction n with
  | zero => exact fun _ _ => rfl
  | succ n ih =>
      intro k hk
      have hsize : descSize k < 2 ^ 32 := by
        have hlt : k < 7 := by omega
        interval_cases k <;> decide
      have hle : size ≤ InMemory.blockSize w.bytes (descAt site.descs k) ↔
          size.toNat ≤ (s.descs ⟨site.owner, k⟩).blockSize := by
        rw [(h.descs k (by omega)).1, hlaid.sized.size k, UInt32.le_iff_toNat_le,
          toNat_ofNat_lt hsize]
      rw [InMemory.findDesc, ZyOs.findDesc, ih (k + 1) (by omega)]
      exact if_congr hle rfl rfl

/-- `sys_malloc` does what the other one does, whatever the size. -/
theorem sysMalloc_refines (hsite : site.Ok) (h : HeapWhole site B s w live)
    (hok : HeapOk site.owner none s live) (size : UInt32) :
    Prog.Refines (Answered site B size.toNat live) (ZyOs.sysMalloc site.owner size.toNat)
      (InMemory.sysMalloc site size) s w := by
  have hlaid := hok.laid
  have hguard : ¬ (0 < size.toNat ∧ size.toNat < s.poolSize site.owner.flag) ↔
      ¬ (0 < size ∧ size < site.poolSize) := by
    rw [UInt32.lt_iff_toNat_lt, UInt32.lt_iff_toNat_lt, h.shown.poolSize]
    rfl
  refine .left (Prog.get_run _) (.ite hguard (fun _ => .pure ⟨rfl, h, nofun, nofun⟩) fun hsize => ?_)
  obtain ⟨hpos, hlt⟩ := not_not.mp (mt hguard.mpr hsize)
  refine .ite (UInt32.lt_iff_toNat_lt (a := 1024) (b := size)).symm
    (fun _ => mallocLarge_refines hsite h hok hlt)
    fun hsmall => ?_
  have hfound := findDesc_eq h.shown hlaid size 7 0 rfl
  obtain ⟨hi, hfit⟩ := findDesc_spec hlaid.sized size.toNat descCnt 0
    ⟨6, by omega, by decide, by rw [show descSize 6 = 1024 from rfl]; omega⟩
  refine .right (Prog.get_run _) ?_
  rw [show descCnt = 7 from rfl] at hi hfit ⊢
  simp only [hfound]
  generalize ZyOs.findDesc s site.owner size.toNat 7 0 = i at hi hfit ⊢
  rw [Nat.zero_add] at hi
  have hempty : s.lists site.owner i = [] ↔
      InMemory.listEmpty w.bytes (freeList (descAt site.descs i)) = true := by
    rw [listEmpty_run (h.shown.lists i hi), List.map_eq_nil_iff]
  refine .ite hempty (fun hnil => ?_) fun hcons => ?_
  · refine ((newArena_refines hsite h hok hi hnil).with_wp (wp_newArena (fun _ he => he) hok hi
      hnil)).bind fun r s₁ r' w₁ hr => ?_
    obtain ⟨⟨rfl, hwhole⟩, hnew⟩ := hr
    cases r' with
    | false => exact .pure ⟨rfl, hwhole, nofun, nofun⟩
    | true =>
        obtain ⟨b, rest, hl, hok₁⟩ := hnew
        exact (takeBlock_refines hsite hwhole hok₁ hi hl hfit).map_left
  · obtain ⟨b, rest, hl⟩ := List.exists_cons_of_ne_nil hcons
    exact (takeBlock_refines hsite h hok hi hl hfit).map_left

/-! ### `sys_free` -/

/-- The blocks from `k` on come off the list. -/
theorem unlinkBlocks_refines (hsite : site.Ok) (hi : i < 7) (hd : a.desc = some ⟨site.owner, i⟩) :
    ∀ (n k rounds : Nat) (s : Memory) (w : HeapMem), n + k = descBlocks i → n < rounds →
      Shown site s w → HeapLaid site.owner s → s.arenas site.owner p = some a →
      Prog.Refines (fun _ s' _ w' => Shown site s' w') (ZyOs.unlinkBlocks ⟨site.owner, i⟩ p n k)
        (InMemory.unlinkBlocks (UInt32.ofNat p) rounds (UInt32.ofNat k)) s w := by
  intro n
  induction n with
  | zero =>
      intro k rounds s w hn hr h hlaid ha
      obtain ⟨r, rfl⟩ : ∃ r, rounds = r + 1 := ⟨rounds - 1, by omega⟩
      have hstop := mt (lt_blocksPerArena h hi (k := k) (by omega)).mp (by omega)
      rw [InMemory.unlinkBlocks]
      refine .right (Prog.get_run _) ?_
      simp only [h.desc_small ha (hlaid.page_lt ha) hd]
      rw [if_neg hstop]
      exact .pure h
  | succ n ih =>
      intro k rounds s w hn hr h hlaid ha
      obtain ⟨r, rfl⟩ : ∃ r, rounds = r + 1 := ⟨rounds - 1, by omega⟩
      have hgo := (lt_blocksPerArena h hi (k := k) (by omega)).mpr (by omega)
      have hplt := hlaid.page_lt ha
      have hblock : BlockOf site.owner (s.arenas site.owner) i p
          (ZyOs.arena2block (descSize i) p k) := ⟨⟨a, ha, hd⟩, k, by omega, rfl⟩
      have hsize : (s.descs ⟨site.owner, i⟩).blockSize = descSize i := hlaid.sized.size i
      have hlist : (s.descs ⟨site.owner, i⟩).freeList = s.lists site.owner i := rfl
      have hfind := h.elemFind hlaid hi (hblock.lt hlaid.placed)
      rw [ZyOs.unlinkBlocks, InMemory.unlinkBlocks]
      refine .left (Prog.get_run _) (.right (Prog.get_run _) ?_)
      simp only [h.arena2block hi ha hd hplt, h.desc_small ha hplt hd, hfind, hsize, hlist]
      rw [if_pos hgo]
      refine .right (Prog.lift_ok _ _) ?_
      by_cases hmem : ZyOs.arena2block (descSize i) p k ∈ s.lists site.owner i
      · rw [ASSERT_pos hmem, ASSERT_pos (by simp [hmem])]
        have hremove := h.remove hsite hlaid hi hmem
        refine .left (Prog.lift_ok _ _) (.right (Prog.lift_ok _ _) (.left (Prog.set_run _ _)
          (write_right rfl ?_)))
        rw [show UInt32.ofNat k + 1 = UInt32.ofNat (k + 1) from (UInt32.ofNat_add k 1).symm]
        exact ih (k + 1) r _ _ (by omega) (by omega) hremove
          (hlaid.withList fun x hx => hlaid.block i hi x (List.mem_of_mem_erase hx)) ha
      · rw [ASSERT_neg hmem, ASSERT_neg (by simp [hmem])]
        exact .of_error (Prog.bind_of_error rfl) (Prog.bind_of_error rfl)

/-- The pages of an arena are given back. -/
theorem mfreePage_refines (h : Shown site s w) (hlaid : HeapLaid site.owner s)
    (ha : s.arenas site.owner p = some a) (pgCnt : UInt32) (hcnt : pgCnt.toNat = a.pages) :
    Prog.Refines (fun _ s' _ w' => Shown site s' w' ∧ s'.lists = s.lists ∧
        s'.vaddrs site.owner = vaddrRemove (s.vaddrs site.owner) p a.pages ∧
        s'.arenas site.owner = Function.update (s.arenas site.owner) p none)
      (ZyOs.mfreePage site.owner p a.pages) (InMemory.mfreePage (UInt32.ofNat p) pgCnt) s w := by
  have hpos := hlaid.placed.pages_pos ha
  have hal := (hlaid.placed.range p a ha).1
  have hplt := toNat_ofNat_lt (hlaid.page_lt ha)
  have hmfree := arenas_mfree hlaid.placed ha
  unfold ZyOs.mfreePage InMemory.mfreePage
  rw [hcnt, hplt, ASSERT_pos ⟨hpos, hal⟩]
  refine .left (Prog.lift_ok _ _) (.right (Prog.lift_ok _ _) (.left (Prog.modify_run _ _)
    (.of_run (Prog.modify_run _ _) (Prog.modify_run _ _) ⟨?_, rfl, ?_, hmfree⟩)))
  · rw [h.vaddrs]
    refine h.drop (vaddrs_withVaddr ..) ?_ ?_ rfl rfl fun q x hx => ?_
    · rw [h.vaddrs]
      rfl
    · rw [h.vaddrs]
      exact Bitmap.bmapBytesLen_setRun _ _ _ _
    · rw [arenas_withVaddr, hmfree] at hx
      by_cases hq : q = p
      · subst hq
        rw [Function.update_self] at hx
        cases hx
      · rwa [Function.update_of_ne hq] at hx
  · exact vaddrs_withVaddr ..

/-- A live block goes back. -/
theorem freeBlock_refines (hsite : site.Ok) (h : HeapWhole site B s w live)
    (hok : HeapOk site.owner none s live) {x : Nat × Nat} (hx : x ∈ live)
    (hp : block2arena x.1 = p) (ha : s.arenas site.owner p = some a)
    (hd : a.desc = some ⟨site.owner, i⟩) :
    Prog.Refines (fun _ s' _ w' => HeapWhole site B s' w' (live.filter (·.1 ≠ x.1)))
      (ZyOs.freeBlockOf site.owner p a ⟨site.owner, i⟩ x.1)
      (InMemory.freeBlock (UInt32.ofNat p) (UInt32.ofNat x.1)) s w := by
  subst hp
  have hlaid := hok.laid
  obtain ⟨hi, hsmall⟩ := hlaid.placed.small ha hd
  obtain ⟨hset, hnot⟩ := hok.arenas.live_block hx ha hd
  obtain ⟨hadd, hle, hpush⟩ := hok.arenas.push hx ha hd
  have hplt := hlaid.page_lt ha
  have hblock : BlockOf site.owner (s.arenas site.owner) i (block2arena x.1) x.1 :=
    ⟨⟨a, ha, hd⟩, mem_blockSet.mp hset⟩
  -- the block comes onto the list, and is counted
  have happend := h.shown.append hsite hlaid hi hblock hnot
  have hlaid₁ : HeapLaid site.owner
      (s.withList ⟨site.owner, i⟩ (s.lists site.owner i ++ [x.1])) := by
    refine hlaid.withList fun b hb => ?_
    rcases List.mem_append.mp hb with hb | hb
    · exact hlaid.block i hi b hb
    · exact ⟨_, List.mem_singleton.mp hb ▸ hblock⟩
  have hcount := happend.recount hsite hlaid₁ ha hsmall (a.cnt + 1)
  have hlaid₂ := hlaid₁.recount ha hsmall (a.cnt + 1)
  have haccounted := h.accounted.push (a.cnt + 1) hlaid.placed hblock ha hsmall
  generalize hs₁ : (s.withList ⟨site.owner, i⟩ (s.lists site.owner i ++ [x.1])).withArena site.owner
    (block2arena x.1) (some { a with cnt := a.cnt + 1 }) = s₁ at hcount hlaid₂
  have harenas : s₁.arenas site.owner = Function.update (s.arenas site.owner) (block2arena x.1)
      (some { a with cnt := a.cnt + 1 }) := hs₁ ▸ arenas_withArena ..
  have hlists : s₁.lists site.owner = Function.update (s.lists site.owner) i
      (s.lists site.owner i ++ [x.1]) := by
    subst hs₁
    rw [lists_withArena, lists_withList]
  have hvaddrs : s₁.vaddrs site.owner = s.vaddrs site.owner := hs₁ ▸ rfl
  have ha₁ : s₁.arenas site.owner (block2arena x.1) = some { a with cnt := a.cnt + 1 } := by
    rw [harenas, Function.update_self]
  rw [← harenas, ← hlists, ← hvaddrs] at hpush haccounted
  have hcnt := happend.cnt ha hplt
  have hpages : Arena.pages { a with cnt := a.cnt + 1 } = 1 := by simp [Arena.pages, hsmall]
  unfold ZyOs.freeBlockOf InMemory.freeBlock
  refine .left (Prog.modify_run _ _) (.left (Prog.modify_run _ _) (.left (Prog.get_run _)
    (write_right (congrArg (InMemory.listAppend w.bytes · _) (congrArg freeList
      (h.shown.desc_small ha hplt hd))) (write_right (m := putWord (InMemory.listAppend w.bytes
        (freeList (descAt site.descs i)) (UInt32.ofNat x.1)) (block2arena x.1 + 4) (a.cnt + 1)) ?_
      (.right (Prog.get_run _) ?_)))))
  · show setCnt _ _ (InMemory.cnt _ _ + 1) = _
    rw [hcnt, setCnt, toNat_ofNat_lt hplt]
  rw [show (s.descs ⟨site.owner, i⟩).freeList = s.lists site.owner i from rfl, hs₁]
  simp only [hcount.cnt ha₁ hplt, hcount.desc_small ha₁ hplt hd, (hcount.descs i hi).2]
  rw [show (s₁.descs ⟨site.owner, i⟩).blocksPerArena = UInt32.ofNat (descBlocks i) from
    hlaid₂.sized.blocks i, descBlocks_toNat hi]
  refine .ite Iff.rfl (fun hfull => ?_) fun _ => .pure ⟨hcount, haccounted⟩
  -- all of its blocks are free: they come off the list, and the page goes
  have hall : (a.cnt + 1).toNat = descBlocks i := by
    rw [hfull, descBlocks_toNat hi]
  obtain ⟨l', hrun, -, hl'⟩ := unlinkBlocks_run (p := block2arena x.1) (i := i) hlaid₂.sized
    (descBlocks i) 0 (s₁.lists site.owner i) (hpush.listed.nodup i hi) fun j _ hj =>
      hpush.listed.all_free hpush.placed hi ((hpush.listed.counted _ _ i ha₁ hd).symm.trans hall)
        (mem_blockSet.mpr ⟨j, by omega, rfl⟩)
  rw [show s₁.lists site.owner i = (s₁.descs ⟨site.owner, i⟩).freeList from rfl,
    withList_self] at hrun
  obtain ⟨u, w', hrun', hunlinked⟩ := (unlinkBlocks_refines (p := block2arena x.1)
    (a := { a with cnt := a.cnt + 1 }) hsite hi hd (descBlocks i) 0 (2 ^ 32) s₁ _ rfl
    (by have := descBlocks_bounds hi; omega) hcount hlaid₂ ha₁).run hrun
  have hlaid₃ : HeapLaid site.owner (s₁.withList ⟨site.owner, i⟩ l') :=
    hlaid₂.withList fun b hb => hlaid₂.block i hi b ((hl' b).mp hb).1
  have hmfree := mfreePage_refines hunlinked hlaid₃ ha₁ 1 hpages.symm
  rw [hpages] at hmfree
  refine .left hrun (.right hrun' (hmfree.mono fun _ s' _ w' hs' => ?_))
  obtain ⟨hshown, hlists', hvaddrs', harenas'⟩ := hs'
  have hdrop := haccounted.drop (s'.lists site.owner) (live.filter (·.1 ≠ x.1)) hlaid₂.placed ha₁
    (fun j b hb hne => ?_) fun y hy _ => hy
  · rw [hpages] at hdrop
    refine ⟨hshown, ?_⟩
    rw [hvaddrs', harenas']
    exact hdrop
  · rw [hlists', lists_withList]
    by_cases hj : j = i
    · subst hj
      rw [Function.update_self]
      refine (hl' b).mpr ⟨hb, fun k _ hk heq => hne ?_⟩
      have hk : b ∈ blockSet j (block2arena x.1) := mem_blockSet.mpr ⟨k, by omega, heq⟩
      exact page_of_blockSet (hlaid.placed.range _ a ha).1 hk
    · rw [Function.update_of_ne hj]
      exact hb

/-- A live pointer is in an arena. -/
theorem HeapOk.live_at (hok : HeapOk site.owner e s live) {x : Nat × Nat} (hx : x ∈ live) :
    ∃ a, s.arenas site.owner (block2arena x.1) = some a ∧ 0 < block2arena x.1 ∧
      block2arena x.1 ≤ x.1 ∧ x.1 < 2 ^ 32 ∧ (a.desc = none → a.pages = a.cnt.toNat ∧ a.large) := by
  obtain ⟨a, ha, hcase⟩ := (hok.arenas.alive.place x hx).2.header hok.arenas.placed
  obtain ⟨hal, hlow, htop, -⟩ := hok.arenas.placed.range _ a ha
  have hstart := hok.arenas.placed.fits.start
  have hpos := hok.arenas.placed.pages_pos ha
  have hsize := (hok.arenas.alive.place x hx).1
  refine ⟨a, ha, by omega, Nat.div_mul_le_self _ _, ?_, fun hnone => ?_⟩
  · have hin : x.1 < block2arena x.1 + 4096 := by
      show x.1 < x.1 / 4096 * 4096 + 4096
      omega
    omega
  · rcases hok.arenas.placed.kind _ a ha with ⟨-, hlarge, -⟩ | ⟨i, -, hd, -⟩
    · exact ⟨if_pos hlarge, hlarge⟩
    · rw [hd] at hnone
      cases hnone

/-- `sys_free` of what is live does what the other one does. -/
theorem sysFree_refines (hsite : site.Ok) (h : HeapWhole site B s w live)
    (hok : HeapOk site.owner none s live) {x : Nat × Nat} (hx : x ∈ live) :
    Prog.Refines (fun _ s' _ w' => HeapWhole site B s' w' (live.filter (·.1 ≠ x.1)))
      (ZyOs.sysFree site.owner x.1) (InMemory.sysFree site (UInt32.ofNat x.1)) s w := by
  have hlaid := hok.laid
  obtain ⟨a, ha, hpos, hle, hlt, hlarge⟩ := hok.live_at hx
  have hxlt := toNat_ofNat_lt hlt
  have hplt := hlaid.page_lt ha
  have hpage32 : InMemory.block2arena (UInt32.ofNat x.1) = UInt32.ofNat (block2arena x.1) := by
    apply UInt32.toNat_inj.mp
    rw [toNat_block2arena, hxlt, toNat_ofNat_lt hplt]
  have hkernel : site.owner = .kernel → kHeapStart ≤ x.1 := by
    intro hc
    have hk := hlaid.sized.start hc
    obtain ⟨-, hlow, -⟩ := hlaid.placed.range _ a ha
    omega
  have hkernel32 : site.owner = .kernel → (0xc0100000 : UInt32) ≤ UInt32.ofNat x.1 := by
    intro hc
    rw [UInt32.le_iff_toNat_le, hxlt]
    exact hkernel hc
  unfold ZyOs.sysFree InMemory.sysFree
  rw [ASSERT_pos (show x.1 ≠ 0 by omega), ASSERT_pos (ofNat_ne_zero (by omega) hlt), hpage32]
  refine .left (Prog.lift_ok _ _) (.right (Prog.lift_ok _ _) (.guard Iff.rfl (fun hc => ?_)
    (fun hc => ?_) ?_))
  · rw [ASSERT_pos (hkernel hc)]
    rfl
  · rw [ASSERT_pos (hkernel32 hc)]
    rfl
  refine .left (Prog.get_run _) (.right (Prog.get_run _) ?_)
  simp only [ha, h.shown.large ha hplt, h.shown.desc ha hplt, h.shown.cnt ha hplt]
  rw [ASSERT_pos (by cases a.large <;> simp)]
  refine .right (Prog.lift_ok _ _) ?_
  rcases hlaid.placed.kind _ a ha with ⟨hd, hl, hone⟩ | ⟨i, hi, hd, hl⟩
  · rw [hd, if_pos hl, if_pos hl, if_pos ⟨rfl, rfl⟩]
    obtain ⟨hpages, -⟩ := hlarge hd
    have hmfree := mfreePage_refines h.shown hlaid ha a.cnt hpages.symm
    rw [hpages] at hmfree
    refine hmfree.mono fun _ s' _ w' hs' => ?_
    obtain ⟨hshown, hlists', hvaddrs', harenas'⟩ := hs'
    have hdrop := h.accounted.drop (s'.lists site.owner) (live.filter (·.1 ≠ x.1)) hlaid.placed ha
      (fun j b hb _ => ?_) fun y hy hne => ?_
    · rw [hpages] at hdrop
      refine ⟨hshown, ?_⟩
      rw [hvaddrs', harenas']
      exact hdrop
    · rw [hlists']
      exact hb
    · refine List.mem_filter.mpr ⟨hy, decide_eq_true fun heq => hne ?_⟩
      rw [heq]
  · have hne : site.descWord (some ⟨site.owner, i⟩) ≠ 0 := by
      have hat := hsite.descAt hi
      have hsitepos := hsite.pos
      intro hc
      rw [HeapSite.descWord] at hc
      rw [hc] at hat
      simp at hat
      omega
    have hsmall : ¬ (site.descWord (some ⟨site.owner, i⟩) = 0 ∧
        (if a.large = true then (1 : UInt32) else 0) = 1) := fun hc => hne hc.1
    rw [hd, if_neg hsmall]
    exact freeBlock_refines hsite h hok hx rfl ha hd

end ZyOs
