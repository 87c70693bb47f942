/-
`sys_malloc` and `sys_free` keep the heap in order.

Each of the two is followed from its start: what it does to the headers and the lists is one of
the steps of `ArenasOk`, and its `ASSERT`s say what the order of the heap says.
-/
import ZyOs.Proofs.Arena

namespace ZyOs

open Library

/-- The free lists of a heap. -/
def Memory.lists (s : Memory) (c : Context) (i : Nat) : List Nat := (s.descs ⟨c, i⟩).freeList

/-- What `block_desc_init` and `mem_pool_init` have written; a pool has a `uint16_t` of pages. -/
structure Sized (c : Context) (s : Memory) : Prop where
  size : ∀ i, (s.descs ⟨c, i⟩).blockSize = descSize i
  blocks : ∀ i, (s.descs ⟨c, i⟩).blocksPerArena = UInt32.ofNat (descBlocks i)
  pool : s.poolSize c.flag ≤ 65535 * 4096
  start : c = .kernel → kHeapStart ≤ (s.vaddrs c).vaddrStart

/-- The heap `c` is in order. -/
structure HeapOk (c : Context) (e : Option Nat) (s : Memory) (live : List (Nat × Nat)) :
    Prop where
  sized : Sized c s
  arenas : ArenasOk c e (s.vaddrs c) (s.arenas c) (s.lists c) live

variable {E : Halt → Prop} {c : Context} {s s' : Memory} {live : List (Nat × Nat)} {i p b n : Nat}
  {e : Option Nat}

/-! ### The parts of the state -/

section Records

variable (s : Memory) (c : Context) (d : DescPtr) (l : List Nat) (a : Option Arena)
  (v : VirtualAddr) (m : Mem) (p : Nat)

@[simp] theorem arenas_withList : (s.withList d l).arenas = s.arenas := rfl
@[simp] theorem vaddrs_withList : (s.withList d l).vaddrs = s.vaddrs := rfl
@[simp] theorem bytes_withList : (s.withList d l).bytes = s.bytes := rfl
@[simp] theorem lists_withArena : (s.withArena c p a).lists = s.lists := rfl
@[simp] theorem vaddrs_withArena : (s.withArena c p a).vaddrs = s.vaddrs := rfl
@[simp] theorem bytes_withArena : (s.withArena c p a).bytes = s.bytes := rfl
@[simp] theorem lists_withBytes : (s.withBytes c m).lists = s.lists := rfl
@[simp] theorem vaddrs_withBytes : (s.withBytes c m).vaddrs = s.vaddrs := rfl
@[simp] theorem arenas_withBytes : (s.withBytes c m).arenas = s.arenas := rfl
@[simp] theorem lists_withVaddr : (s.withVaddr c v).lists = s.lists := rfl
@[simp] theorem arenas_withVaddr : (s.withVaddr c v).arenas = s.arenas := rfl

@[simp] theorem vaddrs_withVaddr : (s.withVaddr c v).vaddrs c = v := if_pos rfl

@[simp] theorem bytes_withBytes : (s.withBytes c m).bytes c = m := if_pos rfl

@[simp] theorem arenas_withArena :
    (s.withArena c p a).arenas c = Function.update (s.arenas c) p a := by
  funext y
  rw [Function.update_apply]
  simp [Memory.withArena]

@[simp] theorem lists_withList (i : Nat) :
    (s.withList ⟨c, i⟩ l).lists c = Function.update (s.lists c) i l := by
  funext j
  rw [Function.update_apply]
  by_cases hj : j = i
  · simp [Memory.lists, Memory.withList, hj]
  · simp [Memory.lists, Memory.withList, hj]

theorem withVaddr_self : s.withVaddr c (s.vaddrs c) = s := by
  have hsame : (fun x => if x = c then s.vaddrs c else s.vaddrs x) = s.vaddrs := by
    funext x
    by_cases hx : x = c
    · rw [if_pos hx, hx]
    · rw [if_neg hx]
  unfold Memory.withVaddr
  rw [hsame]

theorem withList_self : s.withList d (s.descs d).freeList = s := by
  have hsame : (fun x => if x = d then { s.descs d with freeList := (s.descs d).freeList }
      else s.descs x) = s.descs := by
    funext x
    by_cases hx : x = d
    · rw [if_pos hx, hx]
    · rw [if_neg hx]
  unfold Memory.withList
  rw [hsame]

theorem withList_withList (l' : List Nat) : (s.withList d l).withList d l' = s.withList d l' := by
  unfold Memory.withList
  congr 1
  funext x
  by_cases hx : x = d
  · simp [hx]
  · simp [hx]

end Records

theorem Sized.congr (h : Sized c s) (hdescs : s'.descs = s.descs)
    (hpool : s'.poolSize = s.poolSize)
    (hstart : (s'.vaddrs c).vaddrStart = (s.vaddrs c).vaddrStart) : Sized c s' := by
  refine ⟨?_, ?_, ?_, ?_⟩
  · rw [hdescs]
    exact h.size
  · rw [hdescs]
    exact h.blocks
  · rw [hpool]
    exact h.pool
  · rw [hstart]
    exact h.start

theorem Sized.withList (h : Sized c s) (d : DescPtr) (l : List Nat) : Sized c (s.withList d l) := by
  refine ⟨fun i => ?_, fun i => ?_, h.pool, h.start⟩
  · rw [← h.size i]
    by_cases hd : (⟨c, i⟩ : DescPtr) = d
    · simp [Memory.withList, hd]
    · simp [Memory.withList, hd]
  · rw [← h.blocks i]
    by_cases hd : (⟨c, i⟩ : DescPtr) = d
    · simp [Memory.withList, hd]
    · simp [Memory.withList, hd]

theorem Sized.withVaddr (h : Sized c s) {v : VirtualAddr}
    (hv : v.vaddrStart = (s.vaddrs c).vaddrStart) : Sized c (s.withVaddr c v) :=
  h.congr rfl rfl (by rw [vaddrs_withVaddr, hv])

theorem Sized.remap (h : Sized c s) (A : Context → Nat → Option Arena) {v : VirtualAddr}
    (hv : v.vaddrStart = (s.vaddrs c).vaddrStart) :
    Sized c ({ s with arenas := A }.withVaddr c v) :=
  Sized.withVaddr (s := { s with arenas := A }) (h.congr rfl rfl rfl) hv

/-! ### The loops -/

/-- The blocks come onto the list one after the other. -/
theorem splitArena_run (hsize : Sized c s) : ∀ (n k : Nat),
    splitArena ⟨c, i⟩ p n k (s.withList ⟨c, i⟩ ((List.range k).map (arena2block (descSize i) p)))
      = .ok ((), s.withList ⟨c, i⟩ ((List.range (k + n)).map (arena2block (descSize i) p))) := by
  intro n
  induction n with
  | zero => exact fun _ => rfl
  | succ n ih =>
      intro k
      have hlist : ((s.withList ⟨c, i⟩ ((List.range k).map (arena2block (descSize i) p))).descs
          ⟨c, i⟩).freeList = (List.range k).map (arena2block (descSize i) p) := by
        simp [Memory.withList]
      have hnot : arena2block (descSize i) p k
          ∉ (List.range k).map (arena2block (descSize i) p) := by
        intro hmem
        obtain ⟨j, hj, heq⟩ := List.mem_map.mp hmem
        have hjk := arena2block_inj heq
        exact absurd (List.mem_range.mp hj) (by omega)
      have hstep := ih (k + 1)
      rw [List.range_succ, List.map_append, List.map_singleton] at hstep
      rw [splitArena, Prog.bind_of_run (Prog.get_run _)]
      simp only [(hsize.withList ⟨c, i⟩ _).size i, hlist]
      rw [ASSERT_pos hnot, Prog.bind_of_run (Prog.lift_ok _ _), Prog.bind_of_run (Prog.set_run _ _),
        withList_withList, hstep, show k + 1 + n = k + (n + 1) by omega]

/-- All of them come onto an empty list. -/
theorem splitArena_all (hsize : Sized c s) (hl : s.lists c i = []) (n : Nat) :
    splitArena ⟨c, i⟩ p n 0 s
      = .ok ((), s.withList ⟨c, i⟩ ((List.range n).map (arena2block (descSize i) p))) := by
  have hself : s.withList ⟨c, i⟩ ((List.range 0).map (arena2block (descSize i) p)) = s := by
    have hempty : (s.descs ⟨c, i⟩).freeList = [] := hl
    rw [List.range_zero, List.map_nil, ← hempty]
    exact withList_self s ⟨c, i⟩
  have hrun := splitArena_run (p := p) (i := i) hsize n 0
  rwa [hself, Nat.zero_add] at hrun

/-- The blocks of an arena come off the list one after the other. -/
theorem unlinkBlocks_run (hsize : Sized c s) :
    ∀ (n k : Nat) (l : List Nat), l.Nodup →
      (∀ j, k ≤ j → j < k + n → arena2block (descSize i) p j ∈ l) →
      ∃ l', unlinkBlocks ⟨c, i⟩ p n k (s.withList ⟨c, i⟩ l) = .ok ((), s.withList ⟨c, i⟩ l') ∧
        l'.Nodup ∧ ∀ b, b ∈ l' ↔ b ∈ l ∧ ∀ j, k ≤ j → j < k + n →
          b ≠ arena2block (descSize i) p j := by
  intro n
  induction n with
  | zero =>
      exact fun k l hl _ => ⟨l, rfl, hl, fun b => ⟨fun hb => ⟨hb, fun j _ _ => by omega⟩, And.left⟩⟩
  | succ n ih =>
      intro k l hl hmem
      have hlist : ((s.withList ⟨c, i⟩ l).descs ⟨c, i⟩).freeList = l := by simp [Memory.withList]
      obtain ⟨l', hrun, hnodup, hl'⟩ := ih (k + 1) (l.erase (arena2block (descSize i) p k))
        (hl.erase _) fun j hj hj' => by
          rw [hl.mem_erase_iff]
          refine ⟨fun heq => ?_, hmem j (by omega) (by omega)⟩
          have := arena2block_inj heq
          omega
      refine ⟨l', ?_, hnodup, fun b => ?_⟩
      · rw [unlinkBlocks, Prog.bind_of_run (Prog.get_run _)]
        simp only [(hsize.withList ⟨c, i⟩ _).size i, hlist]
        rw [ASSERT_pos (hmem k (Nat.le_refl k) (by omega)), Prog.bind_of_run (Prog.lift_ok _ _),
          Prog.bind_of_run (Prog.set_run _ _), withList_withList]
        exact hrun
      · rw [hl', hl.mem_erase_iff]
        constructor
        · rintro ⟨⟨hne, hb⟩, hall⟩
          refine ⟨hb, fun j hj hj' => ?_⟩
          rcases Nat.eq_or_lt_of_le hj with rfl | hlt
          · exact hne
          · exact hall j hlt (by omega)
        · rintro ⟨hb, hall⟩
          exact ⟨⟨hall k (Nat.le_refl k) (by omega), hb⟩,
            fun j hj hj' => hall j (by omega) (by omega)⟩

/-- The descriptor that is found has blocks of that size. -/
theorem findDesc_spec (hsize : Sized c s) (size : Nat) : ∀ (n k : Nat),
    (∃ j, k ≤ j ∧ j < k + n ∧ size ≤ descSize j) →
      findDesc s c size n k < k + n ∧ size ≤ descSize (findDesc s c size n k) := by
  intro n
  induction n with
  | zero =>
      rintro k ⟨j, hj, hj', -⟩
      omega
  | succ n ih =>
      rintro k ⟨j, hj, hj', hle⟩
      rw [findDesc, hsize.size]
      by_cases hk : size ≤ descSize k
      · rw [if_pos hk]
        exact ⟨by omega, hk⟩
      · rw [if_neg hk]
        have hne : j ≠ k := fun heq => hk (heq ▸ hle)
        have hstep := ih (k + 1) ⟨j, by omega, by omega, hle⟩
        exact ⟨by omega, hstep.2⟩

/-! ### `sys_malloc` -/

/-- What `malloc_page` does: nothing, or it takes pages. -/
theorem wp_mallocPages (hE : ∀ e : Halt, e.PagesShort → E e) (hv : (s.vaddrs c).Fits)
    {Q : Option Nat → Memory → Prop} (hnone : Q none s)
    (hsome : ∀ p v, TakesPages (s.vaddrs c) v p n → 0 < n → n < 3840 →
      Q (some p) (s.withVaddr c v)) : Prog.wp E (mallocPages c n) Q s := by
  refine Prog.wp_bind (Prog.wp_lift (fun u hassert => ?_) fun err herr => ?_)
  · obtain ⟨hpos, hlt⟩ := ASSERT_eq_ok.mp hassert
    refine Prog.wp_get_bind (Prog.wp_bind (Prog.wp_lift (fun r hget => ?_) fun err herr =>
      hE err (vaddrGet_short herr)))
    obtain ⟨v, r⟩ := r
    refine Prog.wp_bind (Prog.wp_set (Prog.wp_pure ?_))
    rcases vaddrGet_ok hv hpos hget with ⟨rfl, rfl⟩ | ⟨p, rfl, htakes⟩
    · rw [withVaddr_self]
      exact hnone
    · exact hsome p v htakes hpos hlt
  · rw [(ASSERT_eq_error herr).2]
    exact hE _ (.inl rfl)

/-- An allocation: nothing, or `size` bytes that are zero. -/
def Allocates (c : Context) (size : Nat) (live : List (Nat × Nat)) (r : Option Nat)
    (s : Memory) : Prop :=
  match r with
  | none => HeapOk c none s live
  | some p => HeapOk c none s ((p, size) :: live) ∧ ∀ k < size, s.bytes c (p + k) = 0

variable {size : Nat}

theorem wp_popBlock (h : HeapOk c e s live) (hi : i < 7) (hpos : 0 < size)
    (hsize : size ≤ descSize i) {rest : List Nat} (hl : s.lists c i = b :: rest)
    (he : e = none ∨ e = some (block2arena b)) :
    Prog.wp E (takeBlock c ⟨c, i⟩) (fun p s' => Allocates c size live (some p) s') s := by
  obtain ⟨a, ha, hpop⟩ := h.arenas.pop hi hl he
  have hlist : (s.descs ⟨c, i⟩).freeList = b :: rest := hl
  refine Prog.wp_get_bind ?_
  rw [hlist]
  refine Prog.wp_bind (Prog.wp_modify (Prog.wp_bind (Prog.wp_modify (Prog.wp_get_bind ?_))))
  have hheader : ((s.withList ⟨c, i⟩ rest).zeroed c b
      ((s.withList ⟨c, i⟩ rest).descs ⟨c, i⟩).blockSize).arenas c (block2arena b) = some a := ha
  rw [hheader]
  refine Prog.wp_bind (Prog.wp_modify (Prog.wp_pure ⟨⟨?_, ?_⟩, fun k hk => ?_⟩))
  · exact (h.sized.withList ⟨c, i⟩ rest).congr rfl rfl rfl
  · simpa [Memory.zeroed] using hpop size hpos hsize
  · have hblock := (h.sized.withList ⟨c, i⟩ rest).size i
    simp only [bytes_withArena, Memory.zeroed, bytes_withBytes, hblock]
    exact Mem.fill_in (by omega) (by omega)

/-- A page that has been taken becomes an arena, and all its blocks come onto the list. -/
theorem splitArena_new (h : HeapOk c none s live) (hi : i < 7) (hl : s.lists c i = [])
    {v : VirtualAddr} (ht : TakesPages (s.vaddrs c) v p 1) :
    ∃ s', splitArena ⟨c, i⟩ p (descBlocks i) 0
        (((s.withVaddr c v).zeroed c p pageSize).withArena c p
          (some ⟨some ⟨c, i⟩, UInt32.ofNat (descBlocks i), false⟩)) = .ok ((), s') ∧
      ∃ b rest, s'.lists c i = b :: rest ∧ HeapOk c (some (block2arena b)) s' live := by
  have hbound := descBlocks_bounds hi
  have hadd := h.arenas.addSmall ht hi hl
  generalize hw : ((s.withVaddr c v).zeroed c p pageSize).withArena c p
    (some ⟨some ⟨c, i⟩, UInt32.ofNat (descBlocks i), false⟩) = w
  have hsized : Sized c w := hw ▸ (h.sized.withVaddr ht.start).congr rfl rfl rfl
  have hrun := splitArena_all (p := p) (i := i) hsized (hw ▸ hl) (descBlocks i)
  obtain ⟨m, hm⟩ : ∃ m, descBlocks i = m + 1 := ⟨descBlocks i - 1, by omega⟩
  have hfirst : block2arena (arena2block (descSize i) p 0) = p :=
    block2arena_eq ht.aligned (by simp [arena2block]) (by simp [arena2block, arenaSize])
  refine ⟨_, hrun, arena2block (descSize i) p 0,
    ((List.range m).map Nat.succ).map (arena2block (descSize i) p), ?_, hsized.withList _ _, ?_⟩
  · rw [lists_withList, Function.update_self, hm, List.range_succ_eq_map, List.map_cons]
  · rw [hfirst]
    subst hw
    simpa [Memory.zeroed] using hadd

/-- A new arena: nothing, or a free list with all its blocks. -/
theorem wp_newArena (hE : ∀ e : Halt, e.PagesShort → E e) (h : HeapOk c none s live) (hi : i < 7)
    (hl : s.lists c i = []) : Prog.wp E (newArena c ⟨c, i⟩) (fun r s' =>
      if r then ∃ b rest, s'.lists c i = b :: rest ∧ HeapOk c (some (block2arena b)) s' live
      else HeapOk c none s' live) s := by
  refine Prog.wp_bind (wp_mallocPages hE h.arenas.placed.fits (Prog.wp_pure (by simpa using h))
    fun p v ht hpos _ => ?_)
  have hcnt : (UInt32.ofNat (descBlocks i)).toNat = descBlocks i := UInt32.toNat_ofNat_of_lt' (by
    have hbound := descBlocks_bounds hi
    show descBlocks i < 2 ^ 32
    omega)
  refine Prog.wp_bind (Prog.wp_modify (Prog.wp_get_bind (Prog.wp_bind (Prog.wp_modify ?_))))
  have hblocks : (((s.withVaddr c v).zeroed c p pageSize).descs ⟨c, i⟩).blocksPerArena
      = UInt32.ofNat (descBlocks i) := h.sized.blocks i
  rw [hblocks, hcnt]
  obtain ⟨s', hrun, hnew⟩ := splitArena_new h hi hl ht
  exact Prog.wp_bind (Prog.wp_of_run hrun (Prog.wp_pure hnew))

/-- Pages that have been taken become an arena of their own. -/
theorem allocates_large (h : HeapOk c none s live) (hpos : 0 < size) {v : VirtualAddr}
    (ht : TakesPages (s.vaddrs c) v p n) (hn : 0 < n) (hn' : n < 3840)
    (hcnt : size + 12 ≤ 4096 * n) :
    Allocates c size live (some (p + arenaSize))
      (((s.withVaddr c v).zeroed c p (n * pageSize)).withArena c p
        (some ⟨none, UInt32.ofNat n, true⟩)) := by
  have hadd := h.arenas.addLarge ht hn hn' hpos (by omega)
  refine ⟨⟨(h.sized.withVaddr ht.start).congr rfl rfl rfl, ?_⟩, fun k hk => ?_⟩
  · simpa [Memory.zeroed, arenaSize] using hadd
  · simp only [bytes_withArena, Memory.zeroed, bytes_withBytes]
    rw [show arenaSize = 12 from rfl, show pageSize = 4096 from rfl]
    exact Mem.fill_in (by omega) (by omega)

/-- The pages of `size` bytes and their header. -/
theorem large_pages (size : Nat) :
    size + 12 ≤ 4096 * ((size + arenaSize + pageSize - 1) / pageSize) := by
  rw [show arenaSize = 12 from rfl, show pageSize = 4096 from rfl]
  omega

/-- More than 1024 bytes. -/
theorem wp_mallocLarge (hE : ∀ e : Halt, e.PagesShort → E e) (h : HeapOk c none s live)
    (hpos : 0 < size) : Prog.wp E (mallocLarge c size) (Allocates c size live) s := by
  have hcnt := large_pages size
  unfold mallocLarge
  generalize (size + arenaSize + pageSize - 1) / pageSize = n at hcnt ⊢
  refine Prog.wp_bind (wp_mallocPages hE h.arenas.placed.fits (Prog.wp_pure h)
    fun p v ht hn hn' => ?_)
  exact Prog.wp_bind (Prog.wp_modify (Prog.wp_bind (Prog.wp_modify (Prog.wp_pure
    (allocates_large h hpos ht hn hn' hcnt)))))

/-- `sys_malloc` keeps the heap in order. -/
theorem wp_sysMalloc (hE : ∀ e : Halt, e.PagesShort → E e) (h : HeapOk c none s live)
    (size : Nat) : Prog.wp E (sysMalloc c size) (Allocates c size live) s := by
  refine Prog.wp_get_bind (Prog.wp_ite (fun _ => Prog.wp_pure h) fun hsize => ?_)
  obtain ⟨hpos, -⟩ := not_not.mp hsize
  refine Prog.wp_ite (fun _ => wp_mallocLarge hE h hpos) fun hsmall => ?_
  obtain ⟨hi, hfit⟩ := findDesc_spec h.sized size descCnt 0
    ⟨6, by omega, by decide, by rw [show descSize 6 = 1024 from rfl]; omega⟩
  rw [Nat.zero_add] at hi
  generalize findDesc s c size descCnt 0 = i at hi hfit
  refine Prog.wp_ite (fun hnil => ?_) fun hcons => ?_
  · refine Prog.wp_bind (Prog.wp_mono (wp_newArena hE h hi hnil) fun r s₁ hr => ?_)
    cases r with
    | false => exact Prog.wp_pure hr
    | true =>
        obtain ⟨b, rest, hl, hok⟩ := hr
        exact Prog.wp_bind (Prog.wp_mono (wp_popBlock hok hi hpos hfit hl (.inr rfl))
          fun p s₂ hp => Prog.wp_pure hp)
  · obtain ⟨b, rest, hl⟩ := List.exists_cons_of_ne_nil hcons
    exact Prog.wp_bind (Prog.wp_mono (wp_popBlock h hi hpos hfit hl (.inl rfl))
      fun p s₂ hp => Prog.wp_pure hp)

/-! ### `sys_free` -/

theorem wp_mfreePage (hn : 1 ≤ n) (hp : p % 4096 = 0) {Q : Unit → Memory → Prop}
    (h : Q () ({ s with arenas := fun x y =>
      if x = c ∧ p ≤ y ∧ y < p + n * pageSize then none else s.arenas x y }.withVaddr c
        (vaddrRemove (s.vaddrs c) p n))) : Prog.wp E (mfreePage c p n) Q s := by
  unfold mfreePage
  rw [ASSERT_pos ⟨hn, hp⟩]
  exact h

/-- The order of a heap whose arena at `p` goes. -/
theorem arenas_mfree (hp : Placed c (s.vaddrs c) (s.arenas c)) {a : Arena}
    (ha : s.arenas c p = some a) :
    ({ s with arenas := fun x y =>
      if x = c ∧ p ≤ y ∧ y < p + a.pages * pageSize then none else s.arenas x y } : Memory).arenas c
      = Function.update (s.arenas c) p none := by
  rw [← hp.header_only ha]
  funext y
  simp [pageSize]

theorem wp_freeBlockOf {a : Arena} {x : Nat × Nat} (h : HeapOk c none s live) (hx : x ∈ live)
    (ha : s.arenas c (block2arena x.1) = some a) (hd : a.desc = some ⟨c, i⟩) :
    Prog.wp E (freeBlockOf c (block2arena x.1) a ⟨c, i⟩ x.1)
      (fun _ s' => HeapOk c none s' (live.filter (·.1 ≠ x.1))) s := by
  obtain ⟨hadd, hle, hpush⟩ := h.arenas.push hx ha hd
  have hi := (h.arenas.placed.small ha hd).1
  have hbound := descBlocks_bounds hi
  have hcnt : (UInt32.ofNat (descBlocks i)).toNat = descBlocks i := UInt32.toNat_ofNat_of_lt' (by
    show descBlocks i < 2 ^ 32
    omega)
  refine Prog.wp_bind (Prog.wp_modify (Prog.wp_bind (Prog.wp_modify (Prog.wp_get_bind ?_))))
  generalize hw : (s.withList ⟨c, i⟩ ((s.descs ⟨c, i⟩).freeList ++ [x.1])).withArena c
    (block2arena x.1) (some { a with cnt := a.cnt + 1 }) = w
  have hsized : Sized c w :=
    hw ▸ (h.sized.withList ⟨c, i⟩ _).congr rfl rfl rfl
  have hpush : ArenasOk c (some (block2arena x.1)) (w.vaddrs c) (w.arenas c) (w.lists c)
      (live.filter (·.1 ≠ x.1)) := by
    subst hw
    simpa [Memory.lists] using hpush
  have hheader : w.arenas c (block2arena x.1) = some { a with cnt := a.cnt + 1 } := by
    subst hw
    simp
  have hlist : (w.descs ⟨c, i⟩).freeList = w.lists c i := rfl
  rw [hsized.blocks i]
  refine Prog.wp_ite (fun hfull => ?_) fun hpart => Prog.wp_pure ⟨hsized, ?_⟩
  · have hall : (a.cnt + 1).toNat = descBlocks i := by
      rw [hfull]
      exact hcnt
    have hcounted := hpush.listed.counted _ _ i hheader hd
    have hnodup := hpush.listed.nodup i hi
    obtain ⟨l', hrun, hnodup', hl'⟩ := unlinkBlocks_run (p := block2arena x.1) (i := i) hsized
      (descBlocks i) 0 (w.lists c i) hnodup fun j _ hj =>
        hpush.listed.all_free hpush.placed hi (hcounted.symm.trans hall)
          (mem_blockSet.mpr ⟨j, by omega, rfl⟩)
    rw [← hlist, withList_self] at hrun
    rw [hcnt]
    refine Prog.wp_bind (Prog.wp_of_run hrun (wp_mfreePage (Nat.le_refl 1)
      (hpush.placed.range _ _ hheader).1 ⟨?_, ?_⟩))
    · exact (hsized.withList ⟨c, i⟩ l').remap _ rfl
    · have hdrop := hpush.dropSmall hheader hd hall hnodup' fun b => by
        rw [hl', mem_blockSet]
        refine and_congr_right fun _ => ⟨fun hne hc => ?_, fun hne j _ hj hc => ?_⟩
        · obtain ⟨j, hj, heq⟩ := hc
          exact hne j (Nat.zero_le j) (by omega) heq
        · exact hne ⟨j, by omega, hc⟩
      have hsmall := (hpush.placed.small hheader hd).2
      have hmfree := arenas_mfree (s := w.withList ⟨c, i⟩ l') hpush.placed hheader
      rw [Arena.pages, hsmall, if_neg Bool.false_ne_true] at hmfree
      have hlists := lists_withList w c l' i
      rw [vaddrs_withVaddr, arenas_withVaddr, hmfree]
      rw [← hlists] at hdrop
      exact hdrop
  · refine hpush.settle hheader hd (Nat.lt_of_le_of_ne (hadd ▸ hle) fun hc => hpart ?_)
    exact UInt32.toNat_inj.mp (hc.trans hcnt.symm)

/-- What a header says decides how its memory is given back. -/
theorem wp_freeArena {x : Nat × Nat} (h : HeapOk c none s live) (hx : x ∈ live) :
    Prog.wp E (do
      match (← get).arenas c (block2arena x.1) with
      | none => Prog.lift (.error (.fault "sys_free"))
      | some a =>
          match a.desc with
          | none =>
              if a.large then
                mfreePage c (block2arena x.1) a.cnt.toNat
              else
                Prog.lift (.error (.fault "sys_free"))
          | some d => freeBlockOf c (block2arena x.1) a d x.1)
      (fun _ s' => HeapOk c none s' (live.filter (·.1 ≠ x.1))) s := by
  obtain ⟨a, ha, hcase⟩ := (h.arenas.alive.place x hx).2.header h.arenas.placed
  obtain ⟨hal, -, -⟩ := h.arenas.placed.range _ a ha
  refine Prog.wp_get_bind ?_
  rw [ha]
  rcases hcase with ⟨i, hi, hd, -⟩ | ⟨hd, hx12, -⟩
  · simp only [hd]
    exact wp_freeBlockOf h hx ha hd
  · have hlarge : a.large = true ∧ 1 ≤ a.cnt.toNat := by
      rcases h.arenas.placed.kind _ a ha with ⟨-, hl⟩ | ⟨i, -, hd', -⟩
      · exact hl
      · rw [hd] at hd'
        cases hd'
    have hpages : a.pages = a.cnt.toNat := if_pos hlarge.1
    have hdrop := h.arenas.dropLarge hx ha hd
    have hmfree := arenas_mfree h.arenas.placed ha
    rw [hpages] at hdrop hmfree
    simp only [hd]
    refine Prog.wp_ite (fun _ => wp_mfreePage hlarge.2 hal
      ⟨h.sized.remap _ rfl, ?_⟩) fun hc => absurd hlarge.1 hc
    rw [vaddrs_withVaddr, arenas_withVaddr, hmfree]
    exact hdrop

/-- `sys_free` of a live allocation keeps the heap in order, and returns. -/
theorem wp_sysFree {x : Nat × Nat} (h : HeapOk c none s live) (hx : x ∈ live) :
    Prog.wp E (sysFree c x.1) (fun _ s' => HeapOk c none s' (live.filter (·.1 ≠ x.1))) s := by
  obtain ⟨a, ha, -⟩ := (h.arenas.alive.place x hx).2.header h.arenas.placed
  obtain ⟨-, hlow, -⟩ := h.arenas.placed.range _ a ha
  have hpos := h.arenas.placed.fits.start
  have hle : block2arena x.1 ≤ x.1 := Nat.div_mul_le_self _ _
  have hrest := wp_freeArena (E := E) h hx
  unfold sysFree
  rw [ASSERT_pos (show x.1 ≠ 0 by omega)]
  refine Prog.wp_bind (Prog.wp_of_run (Prog.lift_ok _ _)
    (Prog.wp_ite (fun hc => ?_) fun _ => hrest))
  have hk := h.sized.start hc
  rw [ASSERT_pos (show kHeapStart ≤ x.1 by omega)]
  exact Prog.wp_bind (Prog.wp_of_run (Prog.lift_ok _ _) hrest)

/-! ### What a heap in order is -/

/-- What a heap is to be. -/
structure HeapSound (c : Context) (s : Memory) (live : List (Nat × Nat)) : Prop where
  /-- No two allocations share a byte. -/
  disjoint : live.Pairwise fun x y => x.1 + x.2 ≤ y.1 ∨ y.1 + y.2 ≤ x.1
  /-- Each is inside of one arena, behind its header. -/
  inside : ∀ x ∈ live, ∃ p a, s.arenas c p = some a ∧ p + arenaSize ≤ x.1 ∧
    x.1 + x.2 ≤ p + a.pages * pageSize
  /-- `cnt` is the number of the arena's blocks on the list of its descriptor. -/
  counted : ∀ p a d, s.arenas c p = some a → a.desc = some d →
    a.cnt.toNat = (s.descs d).freeList.countP (block2arena · = p)
  nodup : ∀ i < descCnt, (s.lists c i).Nodup
  /-- What is on a list is a block of an arena there is, and it is no allocation. -/
  free : ∀ i < descCnt, ∀ b ∈ s.lists c i, (∃ a, s.arenas c (block2arena b) = some a ∧
      a.desc = some ⟨c, i⟩ ∧ ∃ k < (s.descs ⟨c, i⟩).blocksPerArena.toNat,
        b = arena2block (s.descs ⟨c, i⟩).blockSize (block2arena b) k) ∧
    ∀ x ∈ live, x.1 ≠ b
  /-- No arena has all its blocks free. -/
  used : ∀ p a d, s.arenas c p = some a → a.desc = some d → a.cnt ≠ (s.descs d).blocksPerArena

theorem descBlocks_toNat (hi : i < 7) : (UInt32.ofNat (descBlocks i)).toNat = descBlocks i :=
  UInt32.toNat_ofNat_of_lt' (by
    have := descBlocks_bounds hi
    show descBlocks i < 2 ^ 32
    omega)

/-- Two allocations in one heap do not meet. -/
theorem ArenasOk.apart {V : VirtualAddr} {H : Nat → Option Arena} {L : Nat → List Nat}
    (h : ArenasOk c e V H L live) {x y : Nat × Nat} (hx : x ∈ live) (hy : y ∈ live)
    (hne : x.1 ≠ y.1) : x.1 + x.2 ≤ y.1 ∨ y.1 + y.2 ≤ x.1 := by
  have hbounds : ∀ z ∈ live, ∃ a, H (block2arena z.1) = some a ∧ block2arena z.1 + 12 ≤ z.1 ∧
      z.1 + z.2 ≤ block2arena z.1 + 4096 * a.pages := by
    intro z hz
    obtain ⟨a, ha, hcase⟩ := (h.alive.place z hz).2.header h.placed
    refine ⟨a, ha, ?_⟩
    rcases hcase with ⟨i, -, -, hset, hsize, -⟩ | ⟨-, heq, hsize⟩
    · obtain ⟨k, hk, hz⟩ := mem_blockSet.mp hset
      have hin := block_in_page (p := block2arena z.1) hk
      have hpos := h.placed.pages_pos ha
      omega
    · omega
  obtain ⟨a, ha, hlow, hhigh⟩ := hbounds x hx
  obtain ⟨a', ha', hlow', hhigh'⟩ := hbounds y hy
  rcases Nat.lt_trichotomy (block2arena x.1) (block2arena y.1) with hlt | heq | hlt
  · have := h.placed.apart _ a _ a' ha ha' hlt
    omega
  · obtain ⟨a₁, ha₁, hcase⟩ := (h.alive.place x hx).2.header h.placed
    obtain ⟨a₂, ha₂, hcase'⟩ := (h.alive.place y hy).2.header h.placed
    rw [← heq] at ha₂ hcase'
    obtain rfl := Option.some.inj (ha₁.symm.trans ha₂)
    rcases hcase with ⟨i, -, hd, hset, hsize, -⟩ | ⟨hd, hstart, -⟩
    · rcases hcase' with ⟨j, -, hd', hset', hsize', -⟩ | ⟨hd', -⟩
      · obtain rfl : i = j := congrArg DescPtr.idx (Option.some.inj (hd.symm.trans hd'))
        obtain ⟨k, -, hk⟩ := mem_blockSet.mp hset
        obtain ⟨k', -, hk'⟩ := mem_blockSet.mp hset'
        rcases Nat.lt_trichotomy k k' with hlt | hkk | hlt
        · have := block_apart (i := i) (p := block2arena x.1) hlt
          omega
        · exact absurd (hk.trans (hkk ▸ hk'.symm)) hne
        · have := block_apart (i := i) (p := block2arena x.1) hlt
          omega
      · rw [hd] at hd'
        cases hd'
    · rcases hcase' with ⟨j, -, hd', -⟩ | ⟨-, hstart', -⟩
      · rw [hd] at hd'
        cases hd'
      · exact absurd (hstart.trans hstart'.symm) hne
  · have := h.placed.apart _ a' _ a ha' ha hlt
    omega

theorem HeapOk.sound (h : HeapOk c none s live) : HeapSound c s live where
  disjoint := by
    have hdistinct := List.pairwise_map.mp h.arenas.alive.distinct
    exact hdistinct.imp_of_mem fun hx hy hne => h.arenas.apart hx hy hne
  inside x hx := by
    obtain ⟨a, ha, hcase⟩ := (h.arenas.alive.place x hx).2.header h.arenas.placed
    refine ⟨_, a, ha, ?_⟩
    rw [show arenaSize = 12 from rfl, show pageSize = 4096 from rfl]
    rcases hcase with ⟨i, -, -, hset, hsize, -⟩ | ⟨-, heq, hsize⟩
    · obtain ⟨k, hk, hz⟩ := mem_blockSet.mp hset
      have hin := block_in_page (p := block2arena x.1) hk
      have hpos := h.arenas.placed.pages_pos ha
      omega
    · omega
  counted p a d ha hd := by
    rcases h.arenas.placed.kind p a ha with ⟨hnone, -⟩ | ⟨i, -, hd', -⟩
    · rw [hnone] at hd
      cases hd
    · obtain rfl := Option.some.inj (hd'.symm.trans hd)
      exact h.arenas.listed.counted p a i ha hd
  nodup := h.arenas.listed.nodup
  free i hi b hb := by
    refine ⟨?_, fun x hx => h.arenas.ne_of_free hi hb hx⟩
    obtain ⟨p, hblock⟩ := h.arenas.listed.block i hi b hb
    rw [hblock.arena h.arenas.placed, h.sized.size i, h.sized.blocks i, descBlocks_toNat hi]
    obtain ⟨⟨a, ha, hd⟩, hk⟩ := hblock
    exact ⟨a, ha, hd, hk⟩
  used p a d ha hd hfull := by
    rcases h.arenas.placed.kind p a ha with ⟨hnone, -⟩ | ⟨i, hi, hd', -⟩
    · rw [hnone] at hd
      cases hd
    · obtain rfl := Option.some.inj (hd'.symm.trans hd)
      rw [h.sized.blocks i] at hfull
      have hlt := h.arenas.used p a i nofun ha hd
      rw [hfull, descBlocks_toNat hi] at hlt
      exact absurd hlt (Nat.lt_irrefl _)

theorem heapReady_ok (h : HeapReady c s) : HeapOk c none s [] := by
  have hlist : ∀ i, s.lists c i = [] := by
    intro i
    rw [Memory.lists, h.descs i]
    simp [blockDescInit]
  have hnone : ∀ {p a}, ¬ s.arenas c p = some a := by
    intro p a ha
    rw [h.arenas p] at ha
    cases ha
  have hfits : (s.vaddrs c).Fits := by
    by_cases hc : c = .kernel
    · obtain ⟨hstart, hlen⟩ := h.kernel hc
      constructor <;> rw [hstart, kHeapStart] <;> omega
    · obtain ⟨hstart, hlen⟩ := h.process hc
      rw [userVaddrStart, pageSize] at hlen
      constructor <;> rw [hstart, userVaddrStart] <;> omega
  refine ⟨⟨fun i => ?_, fun i => ?_, h.poolSize c.flag, fun hc => (h.kernel hc).1.ge⟩,
    ⟨hfits, fun p a ha => absurd ha hnone, fun p a ha => absurd ha hnone,
      fun p a p' a' ha => absurd ha hnone⟩,
    ⟨fun i _ => ?_, fun i _ b hb => ?_, fun p a i ha => absurd ha hnone⟩,
    ⟨fun x hx => (nomatch hx), List.nodup_nil⟩, fun p a i _ ha => absurd ha hnone⟩
  · rw [h.descs i]
    simp [blockDescInit, descSize]
  · rw [h.descs i]
    simp [blockDescInit, descBlocks, descSize, pageSize, arenaSize]
  · rw [hlist]
    exact List.nodup_nil
  · rw [hlist] at hb
    cases hb

/-- The kernel's heap before its first allocation, with 128 pages. -/
def bootMemory : Memory := blockDescInit .kernel
  { descs := fun _ => ⟨0, 0, []⟩
    vaddrs := fun _ => ⟨⟨16, fun _ => 0⟩, kHeapStart⟩
    arenas := fun _ _ => none
    bytes := fun _ _ => 0xff
    poolSize := fun _ => 0x80000 }

end ZyOs
