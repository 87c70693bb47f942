/-
The heap behind `file_read`.

Of the heap of its process the loader knows the pages, and whether two free lists are empty.  Here
the calls of `sys_malloc` and `sys_free` are those of the heap itself.  They get and give back the
pages that the buffers of the loader get and give back, and the heap is what it was, but for the
order of its lists.
-/
import ZyOs.Proofs.ArenaAccount
import ZyOs.Proofs.ArenaCalls
import ZyOs.Proofs.ExecWatch

namespace ZyOs

open Library

variable {c : Context} {s s' s₁ s₂ : Memory} {live : List (Nat × Nat)} {i b size : Nat}
  {a : Arena}

/-! ### The order of the lists -/

/-- The addresses, the headers and the lists a call leaves. -/
structure Leaves (c : Context) (s s' : Memory) (V : VirtualAddr) (H : Nat → Option Arena)
    (L : Nat → List Nat) : Prop where
  sized : Sized c s'
  pool : s'.poolSize = s.poolSize
  vaddrs : s'.vaddrs c = V
  arenas : s'.arenas c = H
  lists : s'.lists c = L

/-- The same heap, but for the order of its lists. -/
structure Reordered (c : Context) (s s' : Memory) : Prop where
  sized : Sized c s'
  pool : s'.poolSize = s.poolSize
  start : (s'.vaddrs c).vaddrStart = (s.vaddrs c).vaddrStart
  length : (s'.vaddrs c).vaddrBitmap.bmapBytesLen = (s.vaddrs c).vaddrBitmap.bmapBytesLen
  marked : ∀ q, (s'.vaddrs c).Marked q ↔ (s.vaddrs c).Marked q
  arenas : s'.arenas c = s.arenas c
  lists : ∀ i, (s'.lists c i).Perm (s.lists c i)

namespace Reordered

theorem refl (h : Sized c s) : Reordered c s s :=
  ⟨h, rfl, rfl, rfl, fun _ => Iff.rfl, rfl, fun _ => .refl _⟩

/-- What does not speak of the order is kept. -/
theorem heapOk {e : Option Nat} (h : HeapOk c e s live) (hr : Reordered c s s') :
    HeapOk c e s' live := by
  have hp := h.arenas.placed
  refine ⟨hr.sized, ?_⟩
  rw [hr.arenas]
  refine ⟨⟨hp.fits.congr hr.start hr.length, fun p a ha => ?_, hp.kind, hp.apart⟩,
    ⟨fun i hi => ?_, fun i hi b hb => ?_, fun p a i ha hd => ?_⟩,
    ⟨fun x hx => ?_, h.arenas.alive.distinct⟩, h.arenas.used⟩
  · obtain ⟨haligned, hlow, htop, hmarked⟩ := hp.range p a ha
    exact ⟨haligned, hr.start ▸ hlow, htop, fun q hq hq' hq'' =>
      (hr.marked q).mpr (hmarked q hq hq' hq'')⟩
  · exact (hr.lists i).nodup_iff.mpr (h.arenas.listed.nodup i hi)
  · exact h.arenas.listed.block i hi b ((hr.lists i).mem_iff.mp hb)
  · rw [h.arenas.listed.counted p a i ha hd]
    exact ((hr.lists i).countP_eq _).symm
  · obtain ⟨hpos, hin⟩ := h.arenas.alive.place x hx
    refine ⟨hpos, hin.imp_left ?_⟩
    rintro ⟨i, hi, p, hblock, hle, hnot⟩
    exact ⟨i, hi, p, hblock, hle, fun hc => hnot ((hr.lists i).mem_iff.mp hc)⟩

theorem nil_iff (hr : Reordered c s s') (i : Nat) : s'.lists c i = [] ↔ s.lists c i = [] :=
  ⟨fun h => List.nil_perm.mp (h ▸ hr.lists i), fun h => List.perm_nil.mp (h ▸ hr.lists i)⟩

end Reordered

/-! ### A block is taken -/

theorem takeBlock_leaves (h : Sized c s) {rest : List Nat} (hl : s.lists c i = b :: rest)
    (ha : s.arenas c (block2arena b) = some a) :
    ∃ s', takeBlock c ⟨c, i⟩ s = .ok (b, s') ∧ Leaves c s s' (s.vaddrs c)
      (Function.update (s.arenas c) (block2arena b) (some { a with cnt := a.cnt - 1 }))
      (Function.update (s.lists c) i rest) := by
  have hlist : (s.descs ⟨c, i⟩).freeList = b :: rest := hl
  set w := (s.withList ⟨c, i⟩ rest).zeroed c b ((s.withList ⟨c, i⟩ rest).descs ⟨c, i⟩).blockSize
    with hw
  have hheader : w.arenas c (block2arena b) = some a := ha
  refine ⟨w.withArena c (block2arena b) (some { a with cnt := a.cnt - 1 }), ?_,
    (h.withList ⟨c, i⟩ rest).congr rfl rfl rfl, rfl, rfl, ?_, ?_⟩
  · rw [takeBlock, Prog.bind_of_run (Prog.get_run s), hlist]
    simp only
    rw [Prog.bind_of_run (Prog.modify_run _ s), Prog.bind_of_run (Prog.modify_run _ _), ← hw,
      Prog.bind_of_run (Prog.get_run w), hheader]
    rfl
  · simp [hw, Memory.zeroed]
  · simp [hw, Memory.zeroed]

/-- A new arena of blocks of list `i`, which was empty. -/
theorem newArena_leaves (h : Sized c s) (hv : (s.vaddrs c).Fits) (hi : i < 7)
    (hl : s.lists c i = []) {v : VirtualAddr} {p : Nat}
    (hget : vaddrGet (s.vaddrs c) c.flag 1 = .ok (v, some p)) :
    ∃ s', newArena c ⟨c, i⟩ s = .ok (true, s') ∧ Leaves c s s' v
      (Function.update (s.arenas c) p (some ⟨some ⟨c, i⟩, UInt32.ofNat (descBlocks i), false⟩))
      (Function.update (s.lists c) i
        ((List.range (descBlocks i)).map (arena2block (descSize i) p))) := by
  obtain ⟨hnone, -⟩ | ⟨q, hq, ht⟩ := vaddrGet_ok hv Nat.one_pos hget
  · cases hnone
  obtain rfl := Option.some.inj hq
  have hmalloc : mallocPages c 1 s = .ok (some p, s.withVaddr c v) := by
    rw [mallocPages, ASSERT_pos (by decide), Prog.bind_of_run (Prog.lift_ok _ s),
      Prog.bind_of_run (Prog.get_run s), hget]
    rfl
  set w := ((s.withVaddr c v).zeroed c p pageSize).withArena c p
    (some ⟨some ⟨c, i⟩, UInt32.ofNat (descBlocks i), false⟩) with hw
  have hsized : Sized c w := (h.withVaddr ht.start).congr rfl rfl rfl
  have hblocks : (((s.withVaddr c v).zeroed c p pageSize).descs ⟨c, i⟩).blocksPerArena
      = UInt32.ofNat (descBlocks i) := h.blocks i
  have hsplit := splitArena_all (p := p) (i := i) hsized hl (descBlocks i)
  refine ⟨_, ?_, hsized.withList ⟨c, i⟩ _, rfl, ?_, ?_, lists_withList w c _ i⟩
  · rw [newArena, Prog.bind_of_run hmalloc]
    simp only
    rw [Prog.bind_of_run (Prog.modify_run _ _), Prog.bind_of_run (Prog.get_run _), hblocks,
      Prog.bind_of_run (Prog.modify_run _ _), descBlocks_toNat hi, ← hw, Prog.bind_of_run hsplit]
    rfl
  · simp [hw, Memory.zeroed]
  · simp [hw, Memory.zeroed]

/-- List `i` is that of the smallest blocks that hold `size` bytes. -/
structure ForSize (i size : Nat) : Prop where
  pos : 0 < size
  index : i < 7
  fits : size ≤ descSize i
  smaller : ∀ j < i, descSize j < size

theorem findDesc_forSize (h : Sized c s) (hf : ForSize i size) : ∀ n k, k ≤ i → i < k + n →
    findDesc s c size n k = i := by
  intro n
  induction n with
  | zero =>
      intro k hk hk'
      omega
  | succ n ih =>
      intro k hk hk'
      rw [findDesc, h.size]
      rcases Nat.eq_or_lt_of_le hk with rfl | hlt
      · rw [if_pos hf.fits]
      · have hsmall := hf.smaller k hlt
        rw [if_neg (by omega)]
        exact ih (k + 1) hlt (by omega)

/-- What `sys_malloc` leaves of block `b` of list `i`: it was on the list, or it is the first one of
a new arena. -/
inductive HandedOut (c : Context) (i : Nat) (s s' : Memory) (b : Nat) : Prop where
  | block (rest : List Nat) (a : Arena) (hl : s.lists c i = b :: rest)
      (ha : s.arenas c (block2arena b) = some a) (hd : a.desc = some ⟨c, i⟩)
      (h : Leaves c s s' (s.vaddrs c)
        (Function.update (s.arenas c) (block2arena b) (some { a with cnt := a.cnt - 1 }))
        (Function.update (s.lists c) i rest))
  | page (v : VirtualAddr) (hl : s.lists c i = [])
      (hget : vaddrGet (s.vaddrs c) c.flag 1 = .ok (v, some (block2arena b)))
      (hb : b = arena2block (descSize i) (block2arena b) 0)
      (h : Leaves c s s' v
        (Function.update (s.arenas c) (block2arena b)
          (some ⟨some ⟨c, i⟩, UInt32.ofNat (descBlocks i) - 1, false⟩))
        (Function.update (s.lists c) i
          ((List.range (descBlocks i - 1)).map fun k =>
            arena2block (descSize i) (block2arena b) (k + 1))))

/-- `sys_malloc` of a small block up to its free list. -/
theorem sysMalloc_small (h : Sized c s) (hf : ForSize i size) (hpool : size < s.poolSize c.flag) :
    sysMalloc c size s = (if s.lists c i = [] then do
      if ← newArena c ⟨c, i⟩ then
        return some (← takeBlock c ⟨c, i⟩)
      else
        return none
    else do
      return some (← takeBlock c ⟨c, i⟩) : MemoryM (Option Nat)) s := by
  have hle : ¬ 1024 < size := by
    have hpow : descSize i ≤ descSize 6 :=
      Nat.mul_le_mul_left 16 (Nat.pow_le_pow_right (by omega) (by have := hf.index; omega))
    have hfits := hf.fits
    rw [show descSize 6 = 1024 from rfl] at hpow
    omega
  have hdesc := findDesc_forSize h hf descCnt 0 (Nat.zero_le i) (by
    have := hf.index
    rw [show descCnt = 7 from rfl]
    omega)
  rw [sysMalloc, Prog.bind_of_run (Prog.get_run s), if_neg (not_not.mpr ⟨hf.pos, hpool⟩)]
  simp only [if_neg hle, hdesc]
  rfl

/-- The list has a block. -/
theorem sysMalloc_block (h : HeapOk c none s live) (hf : ForSize i size)
    (hpool : size < s.poolSize c.flag) (hl : s.lists c i ≠ []) :
    ∃ b s', sysMalloc c size s = .ok (some b, s') ∧ HandedOut c i s s' b := by
  obtain ⟨b, rest, hcons⟩ := List.exists_cons_of_ne_nil hl
  have hmem : b ∈ s.lists c i := by
    rw [hcons]
    exact List.mem_cons_self
  obtain ⟨p, hblock⟩ := h.arenas.listed.block i hf.index b hmem
  have hpage := hblock.arena h.arenas.placed
  obtain ⟨⟨a, ha, hd⟩, -⟩ := hblock
  rw [← hpage] at ha
  obtain ⟨s', hrun, hleaves⟩ := takeBlock_leaves h.sized hcons ha
  refine ⟨b, s', ?_, .block rest a hcons ha hd hleaves⟩
  rw [sysMalloc_small h.sized hf hpool, if_neg hl, Prog.bind_of_run hrun]
  rfl

/-- The list is empty, and there is a page. -/
theorem sysMalloc_page (h : HeapOk c none s live) (hf : ForSize i size)
    (hpool : size < s.poolSize c.flag) (hl : s.lists c i = []) {v : VirtualAddr} {p : Nat}
    (hget : vaddrGet (s.vaddrs c) c.flag 1 = .ok (v, some p)) :
    ∃ b s', sysMalloc c size s = .ok (some b, s') ∧ HandedOut c i s s' b ∧ block2arena b = p := by
  obtain ⟨hnone, -⟩ | ⟨q, hq, ht⟩ := vaddrGet_ok h.arenas.placed.fits Nat.one_pos hget
  · cases hnone
  obtain rfl := Option.some.inj hq
  obtain ⟨s₁, hnew, hleaves⟩ := newArena_leaves h.sized h.arenas.placed.fits hf.index hl hget
  have hbound := descBlocks_bounds hf.index
  obtain ⟨m, hm⟩ : ∃ m, descBlocks i = m + 1 := ⟨descBlocks i - 1, by omega⟩
  set b := arena2block (descSize i) p 0 with hb
  have hpage : block2arena b = p :=
    block2arena_eq ht.aligned (by simp [hb, arena2block]) (by simp [hb, arena2block, arenaSize])
  have hlist : s₁.lists c i
      = b :: (List.range m).map fun k => arena2block (descSize i) p (k + 1) := by
    rw [hleaves.lists, Function.update_self, hm, List.range_succ_eq_map, List.map_cons,
      List.map_map]
    rfl
  have hheader : s₁.arenas c (block2arena b)
      = some ⟨some ⟨c, i⟩, UInt32.ofNat (descBlocks i), false⟩ := by
    rw [hleaves.arenas, hpage, Function.update_self]
  obtain ⟨s', htake, htaken⟩ := takeBlock_leaves hleaves.sized hlist hheader
  refine ⟨b, s', ?_, .page v hl (hpage ▸ hget) (by rw [hpage]) ⟨htaken.sized,
    htaken.pool.trans hleaves.pool, htaken.vaddrs.trans hleaves.vaddrs, ?_, ?_⟩, hpage⟩
  · rw [sysMalloc_small h.sized hf hpool, if_pos hl, Prog.bind_of_run hnew, if_pos rfl,
      Prog.bind_of_run htake]
    rfl
  · rw [htaken.arenas, hleaves.arenas, hpage, Function.update_idem]
  · rw [htaken.lists, hleaves.lists, Function.update_idem, hpage, hm]
    rfl

/-! ### And given back -/

/-- A block of a small arena goes to its free list. -/
theorem sysFree_small (h : HeapOk c none s live) (ha : s.arenas c (block2arena b) = some a)
    (hd : a.desc = some ⟨c, i⟩) :
    sysFree c b s = freeBlockOf c (block2arena b) a ⟨c, i⟩ b s := by
  obtain ⟨-, hlow, -⟩ := h.arenas.placed.range _ a ha
  have hpos := h.arenas.placed.fits.start
  have hle : block2arena b ≤ b := Nat.div_mul_le_self _ _
  rw [sysFree, ASSERT_pos (show b ≠ 0 by omega), Prog.bind_of_run (Prog.lift_ok _ s)]
  by_cases hc : c = .kernel
  · have hk := h.sized.start hc
    rw [if_pos hc, ASSERT_pos (show kHeapStart ≤ b by omega),
      Prog.bind_of_run (Prog.lift_ok _ s)]
    beta_reduce
    rw [Prog.bind_of_run (Prog.get_run s), ha]
    simp only [hd]
  · rw [if_neg hc]
    beta_reduce
    rw [Prog.bind_of_run (Prog.get_run s), ha]
    simp only [hd]

/-- The arena has other blocks in use. -/
theorem freeBlockOf_part {p : Nat} (h : Sized c s)
    (hpart : a.cnt + 1 ≠ UInt32.ofNat (descBlocks i)) :
    ∃ s', freeBlockOf c p a ⟨c, i⟩ b s = .ok ((), s') ∧ Leaves c s s' (s.vaddrs c)
      (Function.update (s.arenas c) p (some { a with cnt := a.cnt + 1 }))
      (Function.update (s.lists c) i (s.lists c i ++ [b])) := by
  set w := (s.withList ⟨c, i⟩ ((s.descs ⟨c, i⟩).freeList ++ [b])).withArena c p
    (some { a with cnt := a.cnt + 1 }) with hw
  have hsized : Sized c w := (h.withList ⟨c, i⟩ _).congr rfl rfl rfl
  refine ⟨w, ?_, hsized, rfl, rfl, ?_, ?_⟩
  · rw [freeBlockOf, Prog.bind_of_run (Prog.modify_run _ s), Prog.bind_of_run (Prog.modify_run _ _),
      ← hw, Prog.bind_of_run (Prog.get_run w), hsized.blocks i, if_neg hpart]
    rfl
  · simp [hw]
  · simp [hw, Memory.lists]

/-- It was the last one, and the list has only blocks of this arena. -/
theorem freeBlockOf_last {p : Nat} (h : HeapOk c none s live) (ha : s.arenas c p = some a)
    (hd : a.desc = some ⟨c, i⟩) (hfull : a.cnt + 1 = UInt32.ofNat (descBlocks i))
    (hl : (s.lists c i ++ [b]).Perm
      ((List.range (descBlocks i)).map (arena2block (descSize i) p))) :
    ∃ s', freeBlockOf c p a ⟨c, i⟩ b s = .ok ((), s') ∧ Leaves c s s'
      (vaddrRemove (s.vaddrs c) p 1) (Function.update (s.arenas c) p none)
      (Function.update (s.lists c) i []) := by
  have hplaced := h.arenas.placed
  obtain ⟨hi, hsmall⟩ := hplaced.small ha hd
  set l := s.lists c i ++ [b]
  set w := (s.withList ⟨c, i⟩ ((s.descs ⟨c, i⟩).freeList ++ [b])).withArena c p
    (some { a with cnt := a.cnt + 1 }) with hw
  have hsized : Sized c w := (h.sized.withList ⟨c, i⟩ _).congr rfl rfl rfl
  have hlist : w.withList ⟨c, i⟩ l = w := by
    have hsame : (w.descs ⟨c, i⟩).freeList = l := by
      simp [hw, l, Memory.lists, Memory.withList, Memory.withArena]
    rw [← hsame]
    exact withList_self w ⟨c, i⟩
  have hnodup : l.Nodup := hl.nodup_iff.mpr
    (List.nodup_range.map fun j k hjk => arena2block_inj hjk)
  obtain ⟨l', hrun, -, hl'⟩ := unlinkBlocks_run (p := p) (i := i) hsized (descBlocks i) 0 l hnodup
    fun j _ hj => hl.mem_iff.mpr (List.mem_map.mpr ⟨j, List.mem_range.mpr (by omega), rfl⟩)
  have hnil : l' = [] := by
    refine List.eq_nil_iff_forall_not_mem.mpr fun y hy => ?_
    obtain ⟨hmem, hother⟩ := (hl' y).mp hy
    obtain ⟨j, hj, rfl⟩ := List.mem_map.mp (hl.mem_iff.mp hmem)
    exact hother j (Nat.zero_le j) (by have := List.mem_range.mp hj; omega) rfl
  rw [hlist, hnil] at hrun
  set w' := w.withList ⟨c, i⟩ [] with hw'
  have hheader : w'.arenas c p = some { a with cnt := a.cnt + 1 } := by simp [hw', hw]
  have harenas : w'.arenas c
      = Function.update (s.arenas c) p (some { a with cnt := a.cnt + 1 }) := by
    simp [hw', hw]
  have hplaced' : Placed c (w'.vaddrs c) (w'.arenas c) := by
    rw [harenas]
    exact hplaced.recount ha hsmall _
  have hmfree := arenas_mfree (s := w') hplaced' hheader
  rw [Arena.pages, hsmall, if_neg Bool.false_ne_true] at hmfree
  set m := ({ w' with arenas := fun x y =>
    if x = c ∧ p ≤ y ∧ y < p + 1 * pageSize then none else w'.arenas x y } : Memory) with hm
  refine ⟨m.withVaddr c (vaddrRemove (s.vaddrs c) p 1), ?_,
    (hsized.withList ⟨c, i⟩ []).remap _ rfl, rfl, vaddrs_withVaddr _ c _, ?_, ?_⟩
  · rw [freeBlockOf, Prog.bind_of_run (Prog.modify_run _ s), Prog.bind_of_run (Prog.modify_run _ _),
      ← hw, Prog.bind_of_run (Prog.get_run w), hsized.blocks i, if_pos hfull, descBlocks_toNat hi,
      Prog.bind_of_run hrun, mfreePage, ASSERT_pos ⟨Nat.le_refl 1, (hplaced.range p a ha).1⟩]
    rfl
  · rw [arenas_withVaddr, hmfree, harenas, Function.update_idem]
  · rw [lists_withVaddr]
    show w'.lists c = _
    rw [hw', lists_withList]
    simp [hw]

/-- **A block goes back.**  In between the lists may be put in another order. -/
theorem HandedOut.returned (h : HeapOk c none s live) (hi : i < 7) (hh : HandedOut c i s s₁ b)
    (h₁ : HeapOk c none s₁ ((b, size) :: live)) (hr : Reordered c s₁ s₂) :
    ∃ s₃, sysFree c b s₂ = .ok ((), s₃) ∧ Reordered c s s₃ ∧
      s₃.vaddrs c = if s.lists c i = [] then vaddrRemove (s₂.vaddrs c) (block2arena b) 1
        else s₂.vaddrs c := by
  have h₂ := hr.heapOk h₁
  have hother : ∀ {l j}, j ≠ i → (∀ k, s₁.lists c k = Function.update (s.lists c) i l k) →
      (s₂.lists c j).Perm (s.lists c j) := by
    intro l j hj hs₁
    have hperm := hr.lists j
    rwa [hs₁ j, Function.update_of_ne hj] at hperm
  cases hh with
  | block rest a hl ha hd hleaves =>
      have hlists := congrFun hleaves.lists
      have hheader : s₂.arenas c (block2arena b) = some { a with cnt := a.cnt - 1 } := by
        rw [hr.arenas, hleaves.arenas, Function.update_self]
      have hcount : a.cnt - 1 + 1 = a.cnt := by simp
      have hbound := descBlocks_bounds hi
      have hused := h.arenas.used _ a i (by simp) ha hd
      have hpart : a.cnt - 1 + 1 ≠ UInt32.ofNat (descBlocks i) := by
        intro hc
        rw [hcount] at hc
        rw [hc, descBlocks_toNat hi] at hused
        exact Nat.lt_irrefl _ hused
      obtain ⟨s₃, hrun, hfree⟩ := freeBlockOf_part (b := b) (p := block2arena b)
        (a := { a with cnt := a.cnt - 1 }) h₂.sized hpart
      refine ⟨s₃, (sysFree_small h₂ hheader hd).trans hrun, ⟨hfree.sized, ?_, ?_, ?_, ?_, ?_,
        fun j => ?_⟩, ?_⟩
      · rw [hfree.pool, hr.pool, hleaves.pool]
      · rw [hfree.vaddrs, hr.start, hleaves.vaddrs]
      · rw [hfree.vaddrs, hr.length, hleaves.vaddrs]
      · intro q
        rw [hfree.vaddrs, hr.marked, hleaves.vaddrs]
      · rw [hfree.arenas, hr.arenas, hleaves.arenas, Function.update_idem, hcount, ← ha,
          Function.update_eq_self]
      · rw [hfree.lists]
        by_cases hj : j = i
        · subst hj
          have hperm := hr.lists j
          rw [hlists j, Function.update_self] at hperm
          rw [Function.update_self, hl]
          exact (hperm.append_right [b]).trans List.perm_append_comm
        · rw [Function.update_of_ne hj]
          exact hother hj hlists
      · rw [hfree.vaddrs, if_neg (by simp [hl])]
  | page v hl hget hb hleaves =>
      obtain ⟨hnone, -⟩ | ⟨p, hp, ht⟩ := vaddrGet_ok h.arenas.placed.fits Nat.one_pos hget
      · cases hnone
      obtain rfl := Option.some.inj hp
      have hlists := congrFun hleaves.lists
      have hheader : s₂.arenas c (block2arena b)
          = some ⟨some ⟨c, i⟩, UInt32.ofNat (descBlocks i) - 1, false⟩ := by
        rw [hr.arenas, hleaves.arenas, Function.update_self]
      have hall : (s₂.lists c i ++ [b]).Perm
          ((List.range (descBlocks i)).map (arena2block (descSize i) (block2arena b))) := by
        have hbound := descBlocks_bounds hi
        obtain ⟨m, hm⟩ : ∃ m, descBlocks i = m + 1 := ⟨descBlocks i - 1, by omega⟩
        have hperm := hr.lists i
        rw [hlists i, Function.update_self, hm, Nat.add_sub_cancel] at hperm
        rw [hm, List.range_succ_eq_map, List.map_cons, List.map_map, ← hb]
        exact (hperm.append_right [b]).trans List.perm_append_comm
      obtain ⟨s₃, hrun, hfree⟩ := freeBlockOf_last h₂ hheader rfl (by simp) hall
      refine ⟨s₃, (sysFree_small h₂ hheader rfl).trans hrun, ⟨hfree.sized, ?_, ?_, ?_, ?_, ?_,
        fun j => ?_⟩, ?_⟩
      · rw [hfree.pool, hr.pool, hleaves.pool]
      · rw [hfree.vaddrs]
        show (s₂.vaddrs c).vaddrStart = _
        rw [hr.start, hleaves.vaddrs, ht.start]
      · rw [hfree.vaddrs]
        refine (Bitmap.bmapBytesLen_setRun _ _ _ _).trans ?_
        rw [hr.length, hleaves.vaddrs, ht.len]
      · intro q
        have hfit := h₂.arenas.placed.fits
        have htop := ht.top
        rw [hfree.vaddrs, marked_remove hfit ht.aligned
          (by rw [hr.start, hleaves.vaddrs, ht.start]; exact ht.low) (by omega), hr.marked,
          hleaves.vaddrs, ht.marked]
        constructor
        · rintro ⟨hq | ⟨-, hin⟩, hout⟩
          · exact hq
          · exact absurd hin hout
        · intro hq
          exact ⟨.inl hq, fun hin => ht.free q hin.1 hin.2 hq⟩
      · have hnone := h.arenas.placed.fresh ht (Nat.le_refl _) (by omega)
        rw [hfree.arenas, hr.arenas, hleaves.arenas, Function.update_idem, ← hnone,
          Function.update_eq_self]
      · rw [hfree.lists]
        by_cases hj : j = i
        · subst hj
          rw [Function.update_self, hl]
        · rw [Function.update_of_ne hj]
          exact hother hj hlists
      · rw [hfree.vaddrs, if_pos hl]

namespace HandedOut

theorem pool : HandedOut c i s s' b → s'.poolSize = s.poolSize
  | .block _ _ _ _ _ h => h.pool
  | .page _ _ _ _ h => h.pool

theorem other (h : HandedOut c i s s' b) {j : Nat} (hj : j ≠ i) : s'.lists c j = s.lists c j := by
  cases h with
  | block rest a hl ha hd h => rw [h.lists, Function.update_of_ne hj]
  | page v hl hget hb h => rw [h.lists, Function.update_of_ne hj]

/-- The heap is in order with the block. -/
theorem heapOk (h : HeapOk c none s live)
    (hrun : sysMalloc c size s = .ok (some b, s')) : HeapOk c none s' ((b, size) :: live) :=
  ((wp_sysMalloc (E := fun _ => True) (fun _ _ => trivial) h size).of_run hrun).1

end HandedOut

namespace Exec

variable {p p' : Pager} {t : Nat} {empty : Bool} {page : Option Nat} {file : OpenFile}
  {l l' : Loader}

/-! ### The addresses of the process -/

/-- The pools and the addresses are those of `p`. -/
structure SameAddresses (p p' : Pager) : Prop extends SamePlaces p p' where
  userVaddr : p'.userVaddr = p.userVaddr

theorem SameAddresses.trans {p₂ : Pager} (h : SameAddresses p p') (h' : SameAddresses p' p₂) :
    SameAddresses p p₂ :=
  ⟨h.toSamePlaces.trans h'.toSamePlaces, h'.userVaddr.trans h.userVaddr⟩

theorem SameAddresses.withPool {pool : Pool} {pf : PoolFlag}
    (hstart : pool.phyAddrStart = (p.pool pf).phyAddrStart)
    (hsize : pool.poolBitmap.bmapBytesLen = (p.pool pf).poolBitmap.bmapBytesLen) :
    SameAddresses p (p.withPool pool pf) :=
  ⟨.withPool hstart hsize, by cases pf <;> rfl⟩

theorem poolAlloc_keeps (pf : PoolFlag) :
    Prog.Preserves (SameAddresses p) (poolAlloc Bitmap.bitmapScan pf) := by
  unfold poolAlloc
  refine .get_bind fun q hq => .lift_bind fun r hr => .bind (.set ?_) fun _ => .pure _
  obtain ⟨i, -, hok⟩ := bind_eq_ok.mp hr
  apply hq.trans
  split_ifs at hok <;> cases hok <;> exact .withPool rfl rfl

theorem pageTableAdd_keeps (vaddr frame : Nat) :
    Prog.Preserves (SameAddresses p) (pageTableAdd Bitmap.bitmapScan vaddr frame) := by
  have hentry : ∀ k e (q : Pager), SameAddresses p q → SameAddresses p (q.withPte k e) :=
    fun k e q hq => hq.trans ⟨.withPte k e, rfl⟩
  unfold pageTableAdd
  refine .get_bind fun q _ => .ite (fun _ => ?_) fun _ => ?_
  · exact .get_bind fun _ _ => .lift_bind fun _ _ => .modify (hentry _ _)
  · refine .bind (poolAlloc_keeps .kernel) fun frame => .bind (.modify fun q hq => ?_) fun _ =>
      .get_bind fun _ _ => .lift_bind fun _ _ => .modify (hentry _ _)
    exact hq.trans ⟨.withTable (pdeIdx vaddr) (tableEntry (frame.getD 0)), rfl⟩

theorem poolRelease_keeps (pf : PoolFlag) :
    Prog.Preserves (SameAddresses p) (poolRelease t pf) := by
  unfold poolRelease
  exact .get_bind fun q hq => .lift_bind fun _ _ => .set (hq.trans (.withPool rfl rfl))

theorem addrV2p_keeps (vaddr : Nat) : Prog.Preserves (SameAddresses p) (Pager.addrV2p vaddr) := by
  unfold Pager.addrV2p
  exact .get_bind fun _ _ => .ite (fun _ => .pure _) fun _ => .lift _

theorem mfreeLoop_keeps (pf : PoolFlag) : ∀ n vaddr,
    Prog.Preserves (SameAddresses p) (Pager.mfreeLoop pf n vaddr) := by
  intro n
  induction n with
  | zero => exact fun _ => .pure _
  | succ n ih =>
      intro vaddr
      have hfree : ∀ a (q : Pager), SameAddresses p q → SameAddresses p (q.pfree a) := by
        intro a q hq
        apply hq.trans
        unfold Pager.pfree pfreePools
        split_ifs
        · exact @SameAddresses.withPool q _ .user rfl rfl
        · exact @SameAddresses.withPool q _ .kernel rfl rfl
      refine .bind (addrV2p_keeps vaddr) fun a => .get_bind fun _ _ => .lift_bind fun _ _ =>
        .bind (.modify (hfree a)) fun _ => .bind (.modify fun q hq => ?_) fun _ => ih _
      exact hq.trans ⟨.withPte _ _, rfl⟩

/-! ### A buffer of the loader -/

/-- The addresses once a page for a buffer has been got, or none. -/
theorem takeBuffer_spec (h : UserPages p) (hrun : takeBuffer t empty p = .ok (page, p')) :
    SamePlaces p p' ∧ ((empty = false ∧ page = none ∧ p'.userVaddr = p.userVaddr) ∨
      empty = true ∧ ∃ q, page = some q ∧
        vaddrGet p.userVaddr .user 1 = .ok (p'.userVaddr, some q)) := by
  cases empty with
  | false =>
      rw [takeBuffer_block] at hrun
      cases hrun
      exact ⟨.withLock .user _, .inl ⟨rfl, rfl, rfl⟩⟩
  | true =>
      by_cases hl : ∃ idx j, Lends p idx j
      · obtain ⟨idx, j, hl⟩ := hl
        obtain ⟨p₁, htake, hlent⟩ := takeBuffer_page (t := t) h hl
        rw [htake] at hrun
        cases hrun
        have hmark : p'.userVaddr = p.userVaddr.mark idx := by
          rw [show p'.userVaddr = ⟨p'.userVaddr.vaddrBitmap, p'.userVaddr.vaddrStart⟩ from rfl,
            hlent.marks, hlent.start]
          rfl
        refine ⟨hlent.toSamePlaces, .inr ⟨rfl, _, rfl, ?_⟩⟩
        rw [vaddrGet_lowest h hl.address, ASSERT_pos hl.below, hmark]
        rfl
      · obtain ⟨e, hstop, -⟩ := takeBuffer_refused (t := t) h fun idx j hlend => hl ⟨idx, j, hlend⟩
        rw [hstop] at hrun
        cases hrun

theorem mfreePage_vaddrs {q n : Nat} (hrun : Pager.mfreePage .user q n p = .ok ((), p')) :
    SamePlaces p p' ∧ p'.userVaddr = vaddrRemove p.userVaddr q n := by
  unfold Pager.mfreePage at hrun
  obtain ⟨_, p₁, hassert, h₁⟩ := Prog.bind_run.mp hrun
  obtain ⟨-, hp₁⟩ := Prog.lift_run.mp hassert
  rw [hp₁] at h₁
  obtain ⟨a, p₂, haddr, h₂⟩ := Prog.bind_run.mp h₁
  have hkeeps := addrV2p_keeps q p a p₂ ⟨.refl p, rfl⟩ haddr
  obtain ⟨_, p₃, hassert, h₃⟩ := Prog.bind_run.mp h₂
  obtain ⟨-, hp₃⟩ := Prog.lift_run.mp hassert
  rw [hp₃, Prog.bind_of_run (Prog.get_run p₂)] at h₃
  have hend : ∀ pf, (Pager.mfreeLoop pf n q >>= fun _ => modify fun s : Pager =>
      s.withVaddrs (vaddrRemove (s.vaddrs .user) q n) .user : PagerM Unit) p₂ = .ok ((), p') →
      SamePlaces p p' ∧ p'.userVaddr = vaddrRemove p.userVaddr q n := by
    intro pf h
    obtain ⟨_, p₄, hloop, h⟩ := Prog.bind_run.mp h
    have h₄ := mfreeLoop_keeps pf n q p₂ _ p₄ hkeeps hloop
    cases h
    refine ⟨h₄.toSamePlaces.trans (.withVaddrs rfl (Bitmap.bmapBytesLen_setRun _ _ _ _)), ?_⟩
    show vaddrRemove p₄.userVaddr q n = _
    rw [h₄.userVaddr]
  split_ifs at h₃
  · exact hend .user h₃
  · exact hend .kernel h₃

theorem giveBuffer_spec (hrun : giveBuffer t page p = .ok ((), p')) :
    SamePlaces p p' ∧ p'.userVaddr = page.elim p.userVaddr (vaddrRemove p.userVaddr · 1) := by
  unfold giveBuffer at hrun
  rw [Prog.bind_of_run (poolAcquire_run t .user)] at hrun
  have hlock := SamePlaces.withLock (p := p) .user ((p.pool .user).lock.acquire t)
  cases page with
  | none =>
      have hkeeps := poolRelease_keeps (p := p) .user _ _ p' ⟨hlock, rfl⟩ hrun
      exact ⟨hkeeps.toSamePlaces, hkeeps.userVaddr⟩
  | some q =>
      obtain ⟨_, p₁, hfree, hrun⟩ := Prog.bind_run.mp hrun
      obtain ⟨hplaces, hvaddr⟩ := mfreePage_vaddrs hfree
      have hkeeps := poolRelease_keeps (p := p₁) .user p₁ _ p' ⟨.refl p₁, rfl⟩ hrun
      exact ⟨(hlock.trans hplaces).trans hkeeps.toSamePlaces, hkeeps.userVaddr.trans hvaddr⟩

/-- **`sys_malloc`** for a buffer gets the page the loader gets. -/
theorem takeBuffer_heap (h : UserPages p) (hok : HeapOk c none s live) (hflag : c.flag = .user)
    (hf : ForSize i size) (hpool : size < s.poolSize c.flag) (hv : p.userVaddr = s.vaddrs c)
    (hempty : empty = true ↔ s.lists c i = []) (hrun : takeBuffer t empty p = .ok (page, p')) :
    ∃ b s₁, sysMalloc c size s = .ok (some b, s₁) ∧ HandedOut c i s s₁ b ∧
      page = (if s.lists c i = [] then some (block2arena b) else none) ∧ SamePlaces p p' ∧
      p'.userVaddr = s₁.vaddrs c := by
  obtain ⟨hplaces, ⟨rfl, rfl, hsame⟩ | ⟨rfl, q, rfl, hget⟩⟩ := takeBuffer_spec h hrun
  · have hl : s.lists c i ≠ [] := fun hc => Bool.false_ne_true (hempty.mpr hc)
    obtain ⟨b, s₁, hmalloc, hhanded⟩ := sysMalloc_block hok hf hpool hl
    refine ⟨b, s₁, hmalloc, hhanded, (if_neg hl).symm, hplaces, ?_⟩
    cases hhanded with
    | block rest a _ ha hd h => rw [hsame, hv, h.vaddrs]
    | page v hnil hget hb h => exact absurd hnil hl
  · have hl := hempty.mp rfl
    rw [hv, ← hflag] at hget
    obtain ⟨b, s₁, hmalloc, hhanded, rfl⟩ := sysMalloc_page hok hf hpool hl hget
    refine ⟨b, s₁, hmalloc, hhanded, (if_pos hl).symm, hplaces, ?_⟩
    cases hhanded with
    | block rest a hcons ha hd h =>
        rw [hl] at hcons
        cases hcons
    | page v _ hget' hb h =>
        rw [hget] at hget'
        cases hget'
        exact h.vaddrs.symm

/-- **`sys_free`** of the buffer gives back what the loader gives back. -/
theorem giveBuffer_heap (hok : HeapOk c none s live) (hi : i < 7) (hh : HandedOut c i s s₁ b)
    (h₁ : HeapOk c none s₁ ((b, size) :: live)) (hr : Reordered c s₁ s₂)
    (hv : p.userVaddr = s₂.vaddrs c)
    (hrun : giveBuffer t (if s.lists c i = [] then some (block2arena b) else none) p
      = .ok ((), p')) :
    ∃ s₃, sysFree c b s₂ = .ok ((), s₃) ∧ Reordered c s s₃ ∧ SamePlaces p p' ∧
      p'.userVaddr = s₃.vaddrs c := by
  obtain ⟨s₃, hfree, hreordered, hvaddrs⟩ := hh.returned hok hi h₁ hr
  obtain ⟨hplaces, hgive⟩ := giveBuffer_spec hrun
  refine ⟨s₃, hfree, hreordered, hplaces, ?_⟩
  rw [hgive, hvaddrs, ← hv]
  split_ifs <;> rfl

/-! ### The heap of the process -/

/-- The heap `c` in `s` is the one the loader has, and the page addresses are the same. -/
structure HeapOf (c : Context) (live : List (Nat × Nat)) (s : Memory) (l : Loader) : Prop where
  heapOk : HeapOk c none s live
  pool : 560 < s.poolSize c.flag
  vaddrs : l.pager.userVaddr = s.vaddrs c
  pages : ∀ a, l.heap.pages (a / pageSize) = true ↔ OfArena (s.arenas c) a
  noIoBuf : l.heap.noIoBuf = true ↔ s.lists c 5 = []
  noAllBlocks : l.heap.noAllBlocks = true ↔ s.lists c 6 = []

theorem HeapOf.reordered (h : HeapOf c live s l) (hr : Reordered c s s')
    (hheap : l'.heap = l.heap) (hv : l'.pager.userVaddr = s'.vaddrs c) : HeapOf c live s' l' where
  heapOk := hr.heapOk h.heapOk
  pool := by
    rw [hr.pool]
    exact h.pool
  vaddrs := hv
  pages a := by
    rw [hheap, hr.arenas]
    exact h.pages a
  noIoBuf := by
    rw [hheap, hr.nil_iff]
    exact h.noIoBuf
  noAllBlocks := by
    rw [hheap, hr.nil_iff]
    exact h.noAllBlocks

/-- The lists the two buffers are from. -/
theorem forSize_ioBuf : ForSize 5 512 := ⟨by decide, by decide, by decide, by decide⟩
theorem forSize_allBlocks : ForSize 6 560 := ⟨by decide, by decide, by decide, by decide⟩

/-- **`file_read` on the heap.**  The two calls of `sys_malloc` and the two of `sys_free` return,
the pages are those the loader takes and gives back, and its heap is that of the process again. -/
theorem readBytes_heap {buf : Mem} {r : Int × Mem} (hflag : c.flag = .user)
    (h : UserPages l.pager) (hh : HeapOf c live s l)
    (hrun : readBytes file t buf size l = .ok (r, l')) :
    ∃ ioBuf allBlocks s₁ s₂ s₃ s', sysMalloc c 512 s = .ok (some ioBuf, s₁) ∧
      sysMalloc c 560 s₁ = .ok (some allBlocks, s₂) ∧ sysFree c allBlocks s₂ = .ok ((), s₃) ∧
      sysFree c ioBuf s₃ = .ok ((), s') ∧ UserPages l'.pager ∧ HeapOf c live s' l' := by
  have hpool := hh.pool
  rw [readBytes, Prog.bind_of_run (Prog.get_run l)] at hrun
  unfold withBuffer at hrun
  obtain ⟨page₁, l₁, ha, hrun₁⟩ := Prog.bind_run.mp hrun
  obtain ⟨p₁, htake₁, rfl⟩ := onPager_spec ha
  obtain ⟨ioBuf, s₁, hmalloc₁, hout₁, rfl, hplaces₁, hv₁⟩ := takeBuffer_heap h hh.heapOk hflag
    forSize_ioBuf (by omega) hh.vaddrs hh.noIoBuf htake₁
  have hok₁ := HandedOut.heapOk hh.heapOk hmalloc₁
  obtain ⟨r₁, l₂, hinner, hrun₂⟩ := Prog.bind_run.mp hrun₁
  obtain ⟨page₂, l₃, hb, hinner₁⟩ := Prog.bind_run.mp hinner
  obtain ⟨p₂, htake₂, rfl⟩ := onPager_spec hb
  have hlist : l.heap.noAllBlocks = true ↔ s₁.lists c 6 = [] := by
    rw [hout₁.other (by decide)]
    exact hh.noAllBlocks
  obtain ⟨allBlocks, s₂, hmalloc₂, hout₂, rfl, hplaces₂, hv₂⟩ := takeBuffer_heap
    (h.congr hplaces₁) hok₁ hflag forSize_allBlocks (by rw [hout₁.pool]; exact hpool) hv₁ hlist
    htake₂
  have hok₂ := HandedOut.heapOk hok₁ hmalloc₂
  obtain ⟨r₂, l₄, hread, hinner₂⟩ := Prog.bind_run.mp hinner₁
  rw [readBlocks_run (readBlocks_fits hread)] at hread
  cases hread
  -- they are freed in the other order
  obtain ⟨_, l₅, hc, hinner₃⟩ := Prog.bind_run.mp hinner₂
  obtain ⟨p₃, hgive₂, rfl⟩ := onPager_spec hc
  cases hinner₃
  obtain ⟨s₃, hfree₂, hre₂, hplaces₃, hv₃⟩ := giveBuffer_heap hok₁ (by decide) hout₂ hok₂
    (.refl hok₂.sized) hv₂ hgive₂
  obtain ⟨_, l₆, hd, hrun₃⟩ := Prog.bind_run.mp hrun₂
  obtain ⟨p₄, hgive₁, rfl⟩ := onPager_spec hd
  cases hrun₃
  obtain ⟨s₄, hfree₁, hre₁, hplaces₄, hv₄⟩ := giveBuffer_heap hh.heapOk (by decide) hout₁ hok₁ hre₂
    hv₃ hgive₁
  exact ⟨ioBuf, allBlocks, s₁, s₂, s₃, s₄, hmalloc₁, hmalloc₂, hfree₂, hfree₁,
    (((h.congr hplaces₁).congr hplaces₂).congr hplaces₃).congr hplaces₄,
    hh.reordered hre₁ rfl hv₄⟩

/-! ### While a program is loaded -/

/-- The process has a heap in which `live` is handed out, and it is the one the loader has. -/
def Backed (c : Context) (live : List (Nat × Nat)) (l : Loader) : Prop :=
  UserPages l.pager ∧ ∃ s, HeapOf c live s l

theorem Backed.congr (h : Backed c live l) (hpager : l'.pager = l.pager)
    (hheap : l'.heap = l.heap) : Backed c live l' := by
  obtain ⟨hu, s, hh⟩ := h
  refine ⟨hpager ▸ hu, s, hh.reordered (.refl hh.heapOk.sized) hheap ?_⟩
  rw [hpager]
  exact hh.vaddrs

/-- A new process has nothing on its heap. -/
theorem Backed.new (h : UserPages l.pager) (hready : HeapReady c s)
    (hpool : 560 < s.poolSize c.flag) (hv : l.pager.userVaddr = s.vaddrs c)
    (hheap : l.heap = ⟨fun _ => false, true, true⟩) : Backed c [] l := by
  have hlist : ∀ i, s.lists c i = [] := by
    intro i
    rw [Memory.lists, hready.descs i]
    simp [blockDescInit]
  refine ⟨h, s, heapReady_ok hready, hpool, hv, ?_, ?_, ?_⟩
  · intro a
    rw [hheap]
    refine iff_of_false Bool.false_ne_true ?_
    rintro ⟨p, x, hx, -⟩
    rw [hready.arenas p] at hx
    cases hx
  · simp [hheap, hlist]
  · simp [hheap, hlist]

theorem marked_mark {v : VirtualAddr} {k q : Nat} (h : v.Marked q) : (v.mark k).Marked q := by
  refine ⟨h.1, h.2.1, h.2.2.1, ?_⟩
  rw [VirtualAddr.mark, Bitmap.scanTest_set]
  split_ifs
  · rfl
  · exact h.2.2.2

/-- A page that is marked takes none from the heap. -/
theorem HeapOf.mark {k : Nat} (h : HeapOf c live s l) (hheap : l'.heap = l.heap)
    (hv : l'.pager.userVaddr = l.pager.userVaddr.mark k) :
    HeapOf c live (s.withVaddr c ((s.vaddrs c).mark k)) l' := by
  obtain ⟨hplaced, hlisted, halive, hused⟩ := h.heapOk.arenas
  refine ⟨⟨h.heapOk.sized.withVaddr rfl, ?_, hlisted, halive, hused⟩, h.pool, ?_, ?_, ?_, ?_⟩
  · rw [vaddrs_withVaddr]
    refine ⟨hplaced.fits.congr rfl rfl, fun p a ha => ?_, hplaced.kind, hplaced.apart⟩
    obtain ⟨haligned, hlow, htop, hmarked⟩ := hplaced.range p a ha
    exact ⟨haligned, hlow, htop, fun q hq hq' hq'' => marked_mark (hmarked q hq hq' hq'')⟩
  · rw [hv, h.vaddrs, vaddrs_withVaddr]
  · intro a
    rw [hheap]
    exact h.pages a
  · rw [hheap]
    exact h.noIoBuf
  · rw [hheap]
    exact h.noAllBlocks

theorem wp_getAPage_marks (vaddr : Nat) (p : Pager) :
    Prog.wp (fun _ => True) (getAPageWith Bitmap.bitmapScan t .user vaddr)
      (fun _ p' => SamePlaces p p' ∧ ∃ k, p'.userVaddr = p.userVaddr.mark k) p := by
  unfold getAPageWith
  refine Prog.wp_bind (Prog.wp_modify (Prog.wp_get_bind (Prog.wp_ite (fun _ => ?_) fun _ => ?_)))
  · refine Prog.wp_bind (Prog.wp_lift (fun _ _ => Prog.wp_bind (Prog.wp_set ?_)) fun _ _ => trivial)
    refine Prog.wp_mono (Prog.Preserves.wp (.bind (poolAlloc_keeps .user) fun frame => ?_)
      ⟨.refl _, rfl⟩) fun _ p' hkeeps => ⟨?_, _, hkeeps.userVaddr⟩
    · cases frame with
      | none => exact .pure _
      | some a =>
          exact .bind (pageTableAdd_keeps vaddr a) fun _ =>
            .bind (poolRelease_keeps .user) fun _ => .pure _
    · apply SamePlaces.trans _ hkeeps.toSamePlaces
      exact (SamePlaces.withLock .user _).trans (.withVaddrs rfl rfl)
  · exact Prog.wp_lift (fun _ hok => by cases hok) fun _ _ => trivial

theorem fileRead_keeps (hflag : c.flag = .user) (buf : Mem) (count : Nat) :
    Prog.Preserves (Backed c live) (fileRead file t buf count) := by
  have hbytes : ∀ size, Prog.Preserves (Backed c live) (readBytes file t buf size) := by
    rintro size l r l' ⟨h, s, hh⟩ hrun
    obtain ⟨_, _, _, _, _, s', -, -, -, -, hu, hh'⟩ := readBytes_heap hflag h hh hrun
    exact ⟨hu, s', hh'⟩
  unfold fileRead
  refine .get_bind fun _ _ => .ite (fun _ => ?_) fun _ => hbytes count
  exact .ite (fun _ => .pure _) fun _ => hbytes _

theorem sysLseek_keeps (offset : Nat) :
    Prog.Preserves (Backed c live) (sysLseek file offset) := by
  unfold sysLseek
  refine .ite (fun _ => .pure _) fun _ => .bind (.modify fun l hl => ?_) fun _ => .pure _
  exact hl.congr rfl rfl

theorem mapPages_keeps : ∀ pages vaddrPage,
    Prog.Preserves (Backed c live) (mapPages t pages vaddrPage) := by
  intro pages
  induction pages with
  | zero => exact fun _ => .pure _
  | succ pages ih =>
      intro vaddrPage
      rw [mapPages]
      refine .get_bind fun l hl => .ite (fun _ => ih _) fun _ => .ite (fun _ => .lift _) fun _ => ?_
      refine .bind ?_ fun r => ?_
      · rintro l r l' ⟨hu, s, hh⟩ hrun
        obtain ⟨p', hpage, rfl⟩ := onPager_spec hrun
        obtain ⟨hplaces, k, hmark⟩ := (wp_getAPage_marks vaddrPage l.pager).of_run hpage
        exact ⟨hu.congr hplaces, _, hh.mark rfl hmark⟩
      · cases r with
        | none => exact .pure _
        | some _ => exact ih _

theorem segmentLoad_keeps (hflag : c.flag = .user) (offset filesz vaddr : Nat) :
    Prog.Preserves (Backed c live) (segmentLoad file t offset filesz vaddr) := by
  have hput : ∀ n buf, Prog.Preserves (Backed c live) (putSegment vaddr filesz n buf) := by
    intro n buf
    unfold putSegment
    refine .get_bind fun _ _ => .ite (fun _ => .bind (.modify fun l hl => ?_) fun _ => .pure _)
      fun _ => .lift _
    exact hl.congr rfl rfl
  unfold segmentLoad
  refine .bind (mapPages_keeps _ _) fun ok => .ite (fun _ => ?_) fun _ => .pure _
  refine .bind (sysLseek_keeps offset) fun _ => .get_bind fun l _ => .bind ?_ fun r => ?_
  · exact .lift_bind fun _ _ => fileRead_keeps hflag _ _
  · exact .ite (fun _ => .lift _) fun _ => hput _ _

theorem loadLoop_keeps (hflag : c.flag = .user) : ∀ left progHeaderOffset,
    Prog.Preserves (Backed c live) (loadLoop file t left progHeaderOffset) := by
  intro left
  induction left with
  | zero => exact fun _ => .pure _
  | succ left ih =>
      intro off
      rw [loadLoop]
      refine .bind (sysLseek_keeps off) fun _ => .bind (fileRead_keeps hflag _ _) fun r =>
        .ite (fun _ => .ite (fun _ => ?_) fun _ => ih _) fun _ => .pure _
      exact .bind (segmentLoad_keeps hflag _ _ _) fun ok => .ite (fun _ => ih _) fun _ => .pure _

/-- **The heap while a program is loaded.**  Whatever the file has in it, the heap the loader has is
that of the process as long as `load` runs, with the same allocations. -/
theorem load_keeps (hflag : c.flag = .user) (fd : Int) :
    Prog.Preserves (Backed c live) (load file t fd) := by
  unfold load
  refine .ite (fun _ => .pure _) fun _ => .bind (fileRead_keeps hflag _ _) fun r => ?_
  refine .ite (fun _ => .ite (fun _ => ?_) fun _ => .pure _) fun _ => .pure _
  exact .bind (loadLoop_keeps hflag _ _) fun ok => .ite (fun _ => .pure _) fun _ => .pure _

end Exec

end ZyOs
