/-
The heap in order.

What is said of a heap is said of four things: its virtual addresses `V`, the headers `H` in
front of its arenas, the free lists `L` of its descriptors, and the allocations that are live.
`Placed` is about pages: each arena has its own, and they are marked.  `Listed` is about the
free lists: they hold blocks of arenas, each once, and `cnt` counts those of an arena.  `Alive`
is about the allocations: each is in an arena, in a block that is on no list.
-/
import ZyOs.Proofs.Vaddr

namespace ZyOs

open Library

/-- The size of the blocks of descriptor `i`, and how many an arena has. -/
def descSize (i : Nat) : Nat := 16 * 2 ^ i
def descBlocks (i : Nat) : Nat := 4084 / descSize i

theorem descSize_pos (i : Nat) : 16 ≤ descSize i := Nat.le_mul_of_pos_right 16 (Nat.two_pow_pos i)

theorem descBlocks_le (i : Nat) : descBlocks i * descSize i ≤ 4084 := Nat.div_mul_le_self _ _

theorem descBlocks_bounds {i : Nat} (hi : i < 7) : 3 ≤ descBlocks i ∧ descBlocks i < 256 := by
  interval_cases i <;> decide

/-- The pages an arena takes. -/
def Arena.pages (a : Arena) : Nat := if a.large then a.cnt.toNat else 1

/-- The `n` pages from `p` on are marked. -/
def PageRange (V : VirtualAddr) (p n : Nat) : Prop :=
  p % 4096 = 0 ∧ V.vaddrStart ≤ p ∧ p + 4096 * n ≤ 2 ^ 32 ∧
    ∀ q, q % 4096 = 0 → p ≤ q → q < p + 4096 * n → V.Marked q

/-- Arenas on pages of their own. -/
structure Placed (c : Context) (V : VirtualAddr) (H : Nat → Option Arena) : Prop where
  fits : V.Fits
  range : ∀ p a, H p = some a → PageRange V p a.pages
  kind : ∀ p a, H p = some a → (a.desc = none ∧ a.large = true ∧ 1 ≤ a.cnt.toNat) ∨
    ∃ i < 7, a.desc = some ⟨c, i⟩ ∧ a.large = false
  apart : ∀ p a p' a', H p = some a → H p' = some a' → p < p' → p + 4096 * a.pages ≤ p'

/-- The arena at `p` is one of blocks of descriptor `i`, and `b` is one of them. -/
def BlockOf (c : Context) (H : Nat → Option Arena) (i p b : Nat) : Prop :=
  (∃ a, H p = some a ∧ a.desc = some ⟨c, i⟩) ∧
    ∃ k < descBlocks i, b = arena2block (descSize i) p k

/-- The free lists. -/
structure Listed (c : Context) (H : Nat → Option Arena) (L : Nat → List Nat) : Prop where
  nodup : ∀ i < 7, (L i).Nodup
  block : ∀ i < 7, ∀ b ∈ L i, ∃ p, BlockOf c H i p b
  counted : ∀ p a i, H p = some a → a.desc = some ⟨c, i⟩ →
    a.cnt.toNat = (L i).countP (block2arena · = p)

/-- An allocation, with its size, is in its block or in its pages. -/
def InArena (c : Context) (H : Nat → Option Arena) (L : Nat → List Nat) (x : Nat × Nat) : Prop :=
  (∃ i < 7, ∃ p, BlockOf c H i p x.1 ∧ x.2 ≤ descSize i ∧ x.1 ∉ L i) ∨
    ∃ p a, H p = some a ∧ a.desc = none ∧ x.1 = p + 12 ∧ 12 + x.2 ≤ 4096 * a.pages

/-- The allocations that are live. -/
structure Alive (c : Context) (H : Nat → Option Arena) (L : Nat → List Nat)
    (live : List (Nat × Nat)) : Prop where
  place : ∀ x ∈ live, 0 < x.2 ∧ InArena c H L x
  distinct : (live.map Prod.fst).Nodup

variable {c : Context} {V V' : VirtualAddr} {H : Nat → Option Arena} {L : Nat → List Nat}
  {live : List (Nat × Nat)} {p q b i n : Nat} {a : Arena}

/-! ### Blocks -/

theorem block2arena_eq (hp : p % 4096 = 0) (hb : p ≤ b) (hb' : b < p + 4096) :
    block2arena b = p := by
  rw [block2arena, show pageSize = 4096 from rfl]
  omega

/-- Block `k` ends before the page does. -/
theorem block_in_page {k : Nat} (hk : k < descBlocks i) :
    p + 12 ≤ arena2block (descSize i) p k ∧
      arena2block (descSize i) p k + descSize i ≤ p + 4096 := by
  have hend : (k + 1) * descSize i ≤ descBlocks i * descSize i := Nat.mul_le_mul_right _ hk
  have hle := descBlocks_le i
  rw [Nat.add_mul, Nat.one_mul] at hend
  unfold arena2block arenaSize
  omega

theorem block_apart {k k' : Nat} (h : k < k') :
    arena2block (descSize i) p k + descSize i ≤ arena2block (descSize i) p k' := by
  have hend : (k + 1) * descSize i ≤ k' * descSize i := Nat.mul_le_mul_right _ h
  rw [Nat.add_mul, Nat.one_mul] at hend
  unfold arena2block
  omega

theorem arena2block_inj {k k' : Nat}
    (h : arena2block (descSize i) p k = arena2block (descSize i) p k') : k = k' := by
  have hpos := descSize_pos i
  rcases Nat.lt_trichotomy k k' with hlt | heq | hlt
  · have := block_apart (i := i) (p := p) hlt
    omega
  · exact heq
  · have := block_apart (i := i) (p := p) hlt
    omega

namespace BlockOf

theorem arena (h : BlockOf c H i p b) (hp : Placed c V H) : block2arena b = p := by
  obtain ⟨⟨a, ha, -⟩, k, hk, rfl⟩ := h
  have hin := block_in_page (p := p) hk
  exact block2arena_eq (hp.range p a ha).1 (by omega) (by have := descSize_pos i; omega)

/-- A block says which arena and which descriptor it is of. -/
theorem unique {i' p' : Nat} (h : BlockOf c H i p b) (h' : BlockOf c H i' p' b)
    (hp : Placed c V H) : i = i' ∧ p = p' := by
  have hpp := (h.arena hp).symm.trans (h'.arena hp)
  subst hpp
  obtain ⟨⟨a, ha, hd⟩, -⟩ := h
  obtain ⟨⟨a', ha', hd'⟩, -⟩ := h'
  obtain rfl := Option.some.inj (ha.symm.trans ha')
  exact ⟨congrArg DescPtr.idx (Option.some.inj (hd.symm.trans hd')), rfl⟩

end BlockOf

/-! ### Pages come and go -/

theorem Placed.pages_pos (h : Placed c V H) (ha : H p = some a) : 1 ≤ a.pages := by
  unfold Arena.pages
  rcases h.kind p a ha with ⟨-, hlarge, hcnt⟩ | ⟨i, -, -, hlarge⟩
  · rw [if_pos hlarge]
    exact hcnt
  · rw [hlarge]
    exact Nat.le_refl 1

theorem PageRange.first (h : PageRange V p n) (hn : 1 ≤ n) : V.Marked p :=
  h.2.2.2 p h.1 (Nat.le_refl p) (by omega)

/-- There is no arena where pages were free. -/
theorem Placed.fresh (h : Placed c V H) (ht : TakesPages V V' p n) (hq : p ≤ q)
    (hq' : q < p + 4096 * n) : H q = none := by
  cases hH : H q with
  | none => rfl
  | some a => exact absurd ((h.range q a hH).first (h.pages_pos hH)) (ht.free q hq hq')

/-- An arena is put on pages that were free. -/
theorem Placed.add (h : Placed c V H) (ht : TakesPages V V' p n) (hn : 0 < n)
    (hpages : a.pages = n) (hkind : (a.desc = none ∧ a.large = true ∧ 1 ≤ a.cnt.toNat) ∨
      ∃ i < 7, a.desc = some ⟨c, i⟩ ∧ a.large = false) :
    Placed c V' (Function.update H p (some a)) := by
  have hcase : ∀ q x, Function.update H p (some a) q = some x →
      (q = p ∧ x = a) ∨ (q ≠ p ∧ H q = some x) := by
    intro q x hx
    by_cases hqp : q = p
    · subst hqp
      rw [Function.update_self] at hx
      exact .inl ⟨rfl, (Option.some.inj hx).symm⟩
    · rw [Function.update_of_ne hqp] at hx
      exact .inr ⟨hqp, hx⟩
  refine ⟨h.fits.congr ht.start ht.len, fun q x hx => ?_, fun q x hx => ?_,
    fun q x q' x' hx hx' hlt => ?_⟩
  · rcases hcase q x hx with ⟨rfl, rfl⟩ | ⟨-, hx⟩
    · rw [hpages]
      exact ⟨ht.aligned, ht.start ▸ ht.low, ht.top,
        fun y hy hlow hhigh => (ht.marked y).mpr (.inr ⟨hy, hlow, hhigh⟩)⟩
    · obtain ⟨hal, hlow, htop, hmarked⟩ := h.range q x hx
      exact ⟨hal, ht.start ▸ hlow, htop,
        fun y hy hl hh => (ht.marked y).mpr (.inl (hmarked y hy hl hh))⟩
  · rcases hcase q x hx with ⟨rfl, rfl⟩ | ⟨-, hx⟩
    · exact hkind
    · exact h.kind q x hx
  · have hal := ht.aligned
    rcases hcase q x hx with ⟨rfl, rfl⟩ | ⟨hne, hold⟩
    · rcases hcase q' x' hx' with ⟨rfl, rfl⟩ | ⟨-, hold'⟩
      · omega
      · by_contra hc
        rw [h.fresh ht (by omega) (by omega)] at hold'
        cases hold'
    · rcases hcase q' x' hx' with ⟨rfl, rfl⟩ | ⟨-, hold'⟩
      · obtain ⟨hqal, -, -, hmarked⟩ := h.range q x hold
        by_contra hc
        exact ht.free q' (Nat.le_refl q') (by omega) (hmarked q' hal (by omega) (by omega))
      · exact h.apart q x q' x' hold hold' hlt

/-- An arena goes, with its pages. -/
theorem Placed.drop (h : Placed c V H) (ha : H p = some a) :
    Placed c (vaddrRemove V p a.pages) (Function.update H p none) := by
  obtain ⟨hal, hlow, htop, -⟩ := h.range p a ha
  have hpos := h.pages_pos ha
  have hold : ∀ q x, Function.update H p none q = some x → q ≠ p ∧ H q = some x := by
    intro q x hx
    by_cases hqp : q = p
    · subst hqp
      rw [Function.update_self] at hx
      cases hx
    · rw [Function.update_of_ne hqp] at hx
      exact ⟨hqp, hx⟩
  refine ⟨fits_remove h.fits, fun q x hx => ?_, fun q x hx => h.kind q x (hold q x hx).2,
    fun q x q' x' hx hx' => h.apart q x q' x' (hold q x hx).2 (hold q' x' hx').2⟩
  obtain ⟨hne, hx⟩ := hold q x hx
  obtain ⟨hqal, hqlow, hqtop, hmarked⟩ := h.range q x hx
  refine ⟨hqal, hqlow, hqtop, fun y hy hl hh => ?_⟩
  refine (marked_remove h.fits hal hlow (by omega) y).mpr ⟨hmarked y hy hl hh, fun hc => ?_⟩
  rcases Nat.lt_or_gt_of_ne hne with hlt | hlt
  · have := h.apart q x p a hx ha hlt
    omega
  · have := h.apart p a q x ha hx hlt
    omega

/-- Only the header of an arena stands on its pages. -/
theorem Placed.header_only (h : Placed c V H) (ha : H p = some a) :
    (fun y => if p ≤ y ∧ y < p + a.pages * 4096 then none else H y)
      = Function.update H p none := by
  have hpos := h.pages_pos ha
  funext y
  by_cases hy : y = p
  · subst hy
    rw [Function.update_self, if_pos (by omega)]
  · rw [Function.update_of_ne hy]
    by_cases hin : p ≤ y ∧ y < p + a.pages * 4096
    · rw [if_pos hin]
      cases hH : H y with
      | none => rfl
      | some x =>
          have := h.apart p a y x ha hH (by omega)
          omega
    · rw [if_neg hin]

/-- Counting moves no arena. -/
theorem Placed.recount (h : Placed c V H) (ha : H p = some a) (hsmall : a.large = false)
    (cnt : UInt32) : Placed c V (Function.update H p (some { a with cnt := cnt })) := by
  have hcase : ∀ q x, Function.update H p (some { a with cnt := cnt }) q = some x →
      ∃ y, H q = some y ∧ x.desc = y.desc ∧ x.large = y.large ∧ x.pages = y.pages ∧
        (y.large = true → x = y) := by
    intro q x hx
    by_cases hqp : q = p
    · subst hqp
      rw [Function.update_self] at hx
      obtain rfl := Option.some.inj hx
      refine ⟨a, ha, rfl, rfl, ?_, fun hc => ?_⟩
      · simp [Arena.pages, hsmall]
      · rw [hsmall] at hc
        cases hc
    · rw [Function.update_of_ne hqp] at hx
      exact ⟨x, hx, rfl, rfl, rfl, fun _ => rfl⟩
  refine ⟨h.fits, fun q x hx => ?_, fun q x hx => ?_, fun q x q' x' hx hx' hlt => ?_⟩
  · obtain ⟨y, hy, -, -, hpages, -⟩ := hcase q x hx
    rw [hpages]
    exact h.range q y hy
  · obtain ⟨y, hy, hdesc, hlarge, -, hsame⟩ := hcase q x hx
    rcases h.kind q y hy with hl | ⟨i, hi, hd, hsm⟩
    · rw [hsame hl.2.1]
      exact .inl hl
    · exact .inr ⟨i, hi, hdesc.trans hd, hlarge.trans hsm⟩
  · obtain ⟨y, hy, -, -, hpages, -⟩ := hcase q x hx
    obtain ⟨y', hy', -⟩ := hcase q' x' hx'
    rw [hpages]
    exact h.apart q y q' y' hy hy' hlt

/-! ### Blocks of one arena -/

/-- The addresses of the blocks of the arena at `p`. -/
def blockSet (i p : Nat) : Finset Nat :=
  (Finset.range (descBlocks i)).image (arena2block (descSize i) p)

theorem card_blockSet (i p : Nat) : (blockSet i p).card = descBlocks i := by
  rw [blockSet, Finset.card_image_of_injective _ fun _ _ => arena2block_inj, Finset.card_range]

theorem mem_blockSet {b : Nat} :
    b ∈ blockSet i p ↔ ∃ k < descBlocks i, b = arena2block (descSize i) p k := by
  simp only [blockSet, Finset.mem_image, Finset.mem_range]
  exact ⟨fun ⟨k, hk, he⟩ => ⟨k, hk, he.symm⟩, fun ⟨k, hk, he⟩ => ⟨k, hk, he.symm⟩⟩

namespace Listed

variable (hl : Listed c H L) (hp : Placed c V H) (hi : i < 7)
include hl hi

theorem card_free : ((L i).filter (block2arena · = p)).toFinset.card
    = (L i).countP (block2arena · = p) := by
  rw [List.toFinset_card_of_nodup ((hl.nodup i hi).filter _), List.countP_eq_length_filter]

include hp

/-- The blocks of one arena that are free are blocks of it. -/
theorem free_subset : ((L i).filter (block2arena · = p)).toFinset ⊆ blockSet i p := by
  intro b hb
  obtain ⟨hmem, hpage⟩ := List.mem_filter.mp (List.mem_toFinset.mp hb)
  obtain ⟨q, hblock⟩ := hl.block i hi b hmem
  obtain rfl : q = p := (hblock.arena hp).symm.trans (of_decide_eq_true hpage)
  exact mem_blockSet.mpr hblock.2

theorem count_le : (L i).countP (block2arena · = p) ≤ descBlocks i := by
  rw [← hl.card_free hi, ← card_blockSet i p]
  exact Finset.card_le_card (hl.free_subset hp hi)

/-- A block that is not free is missing in the count. -/
theorem count_lt (hblock : b ∈ blockSet i p) (hb : b ∉ L i) :
    (L i).countP (block2arena · = p) < descBlocks i := by
  rw [← hl.card_free hi, ← card_blockSet i p]
  refine Finset.card_lt_card ((Finset.ssubset_iff_of_subset (hl.free_subset hp hi)).mpr
    ⟨b, hblock, fun hc => hb ?_⟩)
  exact (List.mem_filter.mp (List.mem_toFinset.mp hc)).1

/-- When all are counted, all are free. -/
theorem all_free (hfull : (L i).countP (block2arena · = p) = descBlocks i)
    (hblock : b ∈ blockSet i p) : b ∈ L i := by
  by_contra hb
  exact absurd hfull (Nat.ne_of_lt (hl.count_lt hp hi hblock hb))

end Listed

theorem BlockOf.mono {H' : Nat → Option Arena} (h : BlockOf c H i p b)
    (hH : ∀ a, H p = some a → ∃ a', H' p = some a' ∧ a'.desc = a.desc) : BlockOf c H' i p b := by
  obtain ⟨⟨a, ha, hd⟩, hk⟩ := h
  obtain ⟨a', ha', hd'⟩ := hH a ha
  exact ⟨⟨a', ha', hd'.trans hd⟩, hk⟩

/-- What an allocation says of the header in front of it. -/
theorem InArena.header {x : Nat × Nat} (h : InArena c H L x) (hp : Placed c V H) :
    ∃ a, H (block2arena x.1) = some a ∧
      ((∃ i < 7, a.desc = some ⟨c, i⟩ ∧ x.1 ∈ blockSet i (block2arena x.1) ∧ x.2 ≤ descSize i ∧
        x.1 ∉ L i) ∨
      (a.desc = none ∧ x.1 = block2arena x.1 + 12 ∧ 12 + x.2 ≤ 4096 * a.pages)) := by
  rcases h with ⟨i, hi, p, hblock, hsize, hnot⟩ | ⟨p, a, ha, hd, hx, hsize⟩
  · have hpage := hblock.arena hp
    obtain ⟨⟨a, ha, hd⟩, hk⟩ := hblock
    rw [hpage]
    exact ⟨a, ha, .inl ⟨i, hi, hd, mem_blockSet.mpr hk, hsize, hnot⟩⟩
  · have hpage : block2arena x.1 = p := block2arena_eq (hp.range p a ha).1 (by omega) (by omega)
    rw [hpage]
    exact ⟨a, ha, .inr ⟨hd, hx, hsize⟩⟩

theorem InArena.of_header {x : Nat × Nat} (ha : H (block2arena x.1) = some a)
    (h : (∃ i < 7, a.desc = some ⟨c, i⟩ ∧ x.1 ∈ blockSet i (block2arena x.1) ∧ x.2 ≤ descSize i ∧
        x.1 ∉ L i) ∨
      (a.desc = none ∧ x.1 = block2arena x.1 + 12 ∧ 12 + x.2 ≤ 4096 * a.pages)) :
    InArena c H L x := by
  rcases h with ⟨i, hi, hd, hmem, hsize, hnot⟩ | ⟨hd, hx, hsize⟩
  · exact .inl ⟨i, hi, _, ⟨⟨a, ha, hd⟩, mem_blockSet.mp hmem⟩, hsize, hnot⟩
  · exact .inr ⟨_, a, ha, hd, hx, hsize⟩

/-- An allocation stays where it is when its header keeps saying the same of it. -/
theorem InArena.mono {H' : Nat → Option Arena} {L' : Nat → List Nat} {x : Nat × Nat}
    (h : InArena c H L x) (hp : Placed c V H)
    (hH : ∀ a, H (block2arena x.1) = some a →
      ∃ a', H' (block2arena x.1) = some a' ∧ a'.desc = a.desc ∧ a'.pages = a.pages)
    (hL : ∀ i, x.1 ∈ L' i → x.1 ∈ L i) : InArena c H' L' x := by
  obtain ⟨a, ha, hcase⟩ := h.header hp
  obtain ⟨a', ha', hd, hpages⟩ := hH a ha
  refine .of_header ha' ?_
  rw [hd, hpages]
  rcases hcase with ⟨i, hi, hdesc, hmem, hsize, hnot⟩ | hlarge
  · exact .inl ⟨i, hi, hdesc, hmem, hsize, fun hc => hnot (hL i hc)⟩
  · exact .inr hlarge

/-! ### One arena changes -/

/-- The header of an arena of descriptor `i` is written, and with it the free list. -/
theorem Listed.put {l : List Nat} (hl : Listed c H L) (hi : i < 7) (hd : a.desc = some ⟨c, i⟩)
    (hold : ∀ x, H p = some x → x.desc = some ⟨c, i⟩) (hnodup : l.Nodup)
    (hmem : ∀ b ∈ l, b ∈ L i ∨ b ∈ blockSet i p)
    (hcnt : a.cnt.toNat = l.countP (block2arena · = p))
    (hrest : ∀ q, q ≠ p → l.countP (block2arena · = q) = (L i).countP (block2arena · = q)) :
    Listed c (Function.update H p (some a)) (Function.update L i l) := by
  have hH : ∀ q x, H q = some x →
      ∃ x', Function.update H p (some a) q = some x' ∧ x'.desc = x.desc := by
    intro q x hx
    by_cases hq : q = p
    · subst hq
      exact ⟨a, Function.update_self .., hd.trans (hold x hx).symm⟩
    · exact ⟨x, (Function.update_of_ne hq ..).trans hx, rfl⟩
  refine ⟨fun j hj => ?_, fun j hj b hb => ?_, fun q x j hx hxd => ?_⟩
  · by_cases hji : j = i
    · subst hji
      rw [Function.update_self]
      exact hnodup
    · rw [Function.update_of_ne hji]
      exact hl.nodup j hj
  · by_cases hji : j = i
    · subst hji
      rw [Function.update_self] at hb
      rcases hmem b hb with hb | hb
      · obtain ⟨q, hblock⟩ := hl.block j hj b hb
        exact ⟨q, hblock.mono (hH q)⟩
      · exact ⟨p, ⟨a, Function.update_self .., hd⟩, mem_blockSet.mp hb⟩
    · rw [Function.update_of_ne hji] at hb
      obtain ⟨q, hblock⟩ := hl.block j hj b hb
      exact ⟨q, hblock.mono (hH q)⟩
  · by_cases hq : q = p
    · subst hq
      rw [Function.update_self] at hx
      obtain rfl := Option.some.inj hx
      obtain rfl : i = j := congrArg DescPtr.idx (Option.some.inj (hd.symm.trans hxd))
      rw [Function.update_self]
      exact hcnt
    · rw [Function.update_of_ne hq] at hx
      by_cases hji : j = i
      · subst hji
        rw [Function.update_self, hrest q hq]
        exact hl.counted q x j hx hxd
      · rw [Function.update_of_ne hji]
        exact hl.counted q x j hx hxd

/-- An arena goes, and its blocks are on no list any more. -/
theorem Listed.drop {L' : Nat → List Nat} (hl : Listed c H L) (hp : Placed c V H)
    (hnodup : ∀ j < 7, (L' j).Nodup)
    (hmem : ∀ j < 7, ∀ b ∈ L' j, b ∈ L j ∧ block2arena b ≠ p)
    (hrest : ∀ j < 7, ∀ q, q ≠ p →
      (L' j).countP (block2arena · = q) = (L j).countP (block2arena · = q)) :
    Listed c (Function.update H p none) L' := by
  refine ⟨hnodup, fun j hj b hb => ?_, fun q x j hx hxd => ?_⟩
  · obtain ⟨hold, hne⟩ := hmem j hj b hb
    obtain ⟨q, hblock⟩ := hl.block j hj b hold
    have hq : q ≠ p := hblock.arena hp ▸ hne
    exact ⟨q, hblock.mono fun x hx => ⟨x, (Function.update_of_ne hq ..).trans hx, rfl⟩⟩
  · have hq : q ≠ p := by
      rintro rfl
      rw [Function.update_self] at hx
      cases hx
    rw [Function.update_of_ne hq] at hx
    have hj : j < 7 := by
      rcases hp.kind q x hx with ⟨hnone, -⟩ | ⟨i, hi, hd, -⟩
      · rw [hnone] at hxd
        cases hxd
      · obtain rfl : i = j := congrArg DescPtr.idx (Option.some.inj (hd.symm.trans hxd))
        exact hi
    rw [hrest j hj q hq]
    exact hl.counted q x j hx hxd

/-- Allocations stay when their headers do and their blocks are not freed. -/
theorem Alive.mono {H' : Nat → Option Arena} {L' : Nat → List Nat} {live' : List (Nat × Nat)}
    (h : Alive c H L live) (hp : Placed c V H) (hsub : live'.Sublist live)
    (hH : ∀ x ∈ live', ∀ a, H (block2arena x.1) = some a →
      ∃ a', H' (block2arena x.1) = some a' ∧ a'.desc = a.desc ∧ a'.pages = a.pages)
    (hL : ∀ x ∈ live', ∀ i, x.1 ∈ L' i → x.1 ∈ L i) : Alive c H' L' live' where
  place := fun x hx =>
    ⟨(h.place x (hsub.subset hx)).1, (h.place x (hsub.subset hx)).2.mono hp (hH x hx) (hL x hx)⟩
  distinct := h.distinct.sublist (hsub.map Prod.fst)

theorem Alive.cons {size : Nat} (h : Alive c H L live) (hpos : 0 < size)
    (hin : InArena c H L (b, size)) (hnew : ∀ x ∈ live, x.1 ≠ b) :
    Alive c H L ((b, size) :: live) where
  place := List.forall_mem_cons.mpr ⟨⟨hpos, hin⟩, h.place⟩
  distinct := by
    rw [List.map_cons, List.nodup_cons]
    refine ⟨fun hmem => ?_, h.distinct⟩
    obtain ⟨x, hx, heq⟩ := List.mem_map.mp hmem
    exact hnew x hx heq

/-! ### The heap -/

/-- The heap is in order, and `e` is the only arena that may have no block in use. -/
structure ArenasOk (c : Context) (e : Option Nat) (V : VirtualAddr) (H : Nat → Option Arena)
    (L : Nat → List Nat) (live : List (Nat × Nat)) : Prop where
  placed : Placed c V H
  listed : Listed c H L
  alive : Alive c H L live
  used : ∀ p a i, some p ≠ e → H p = some a → a.desc = some ⟨c, i⟩ →
    a.cnt.toNat < descBlocks i

/-- A header that is written says of its pages what it said. -/
theorem update_keeps (a' : Arena) (ha : H p = some a) (hd : a'.desc = a.desc)
    (hpages : a'.pages = a.pages) {x : Arena} (hx : H q = some x) :
    ∃ x', Function.update H p (some a') q = some x' ∧ x'.desc = x.desc ∧ x'.pages = x.pages := by
  by_cases hq : q = p
  · subst hq
    obtain rfl := Option.some.inj (ha.symm.trans hx)
    exact ⟨a', Function.update_self .., hd, hpages⟩
  · exact ⟨x, (Function.update_of_ne hq ..).trans hx, rfl, rfl⟩

/-- A new header is none of the others. -/
theorem update_fresh {a' : Option Arena} (hnone : H p = none) {x : Arena} (hx : H q = some x) :
    ∃ x', Function.update H p a' q = some x' ∧ x'.desc = x.desc ∧ x'.pages = x.pages := by
  have hq : q ≠ p := by
    rintro rfl
    rw [hnone] at hx
    cases hx
  exact ⟨x, (Function.update_of_ne hq ..).trans hx, rfl, rfl⟩

theorem Placed.small (h : Placed c V H) (ha : H p = some a) (hd : a.desc = some ⟨c, i⟩) :
    i < 7 ∧ a.large = false := by
  rcases h.kind p a ha with ⟨hnone, -⟩ | ⟨j, hj, hd', hsmall⟩
  · rw [hnone] at hd
    cases hd
  · obtain rfl : j = i := congrArg DescPtr.idx (Option.some.inj (hd'.symm.trans hd))
    exact ⟨hj, hsmall⟩

namespace ArenasOk

variable {e : Option Nat}

/-- No allocation is a free block. -/
theorem ne_of_free (h : ArenasOk c e V H L live) (hi : i < 7) (hb : b ∈ L i) {x : Nat × Nat}
    (hx : x ∈ live) : x.1 ≠ b := by
  rintro rfl
  obtain ⟨p, hblock⟩ := h.listed.block i hi x.1 hb
  obtain ⟨a, ha, hcase⟩ := (h.alive.place x hx).2.header h.placed
  rw [hblock.arena h.placed] at ha
  obtain ⟨⟨a', ha', hd⟩, -⟩ := hblock
  obtain rfl := Option.some.inj (ha'.symm.trans ha)
  rcases hcase with ⟨j, -, hd', -, -, hnot⟩ | ⟨hnone, -⟩
  · obtain rfl : j = i := congrArg DescPtr.idx (Option.some.inj (hd'.symm.trans hd))
    exact hnot hb
  · rw [hnone] at hd
    cases hd

/-- The first block of a free list is handed out. -/
theorem pop {rest : List Nat} (h : ArenasOk c e V H L live) (hi : i < 7) (hL : L i = b :: rest)
    (he : e = none ∨ e = some (block2arena b)) :
    ∃ a, H (block2arena b) = some a ∧ ∀ size, 0 < size → size ≤ descSize i →
      ArenasOk c none V (Function.update H (block2arena b) (some { a with cnt := a.cnt - 1 }))
        (Function.update L i rest) ((b, size) :: live) := by
  have hmem : b ∈ L i := by
    rw [hL]
    exact List.mem_cons_self
  obtain ⟨p, hblock⟩ := h.listed.block i hi b hmem
  have hpage := hblock.arena h.placed
  obtain ⟨⟨a, ha, hd⟩, hk⟩ := hblock
  rw [hpage] at he ⊢
  have hsmall := (h.placed.small ha hd).2
  have hle := h.listed.count_le h.placed hi (p := p)
  have hcount := h.listed.counted p a i ha hd
  rw [← hcount] at hle
  rw [hL, List.countP_cons_of_pos (by simpa using hpage)] at hcount
  have hsub : (a.cnt - 1).toNat = a.cnt.toNat - 1 :=
    UInt32.toNat_sub_of_le _ _ (UInt32.le_iff_toNat_le.mpr (show 1 ≤ a.cnt.toNat by omega))
  have hnodup := h.listed.nodup i hi
  rw [hL, List.nodup_cons] at hnodup
  have hpages : Arena.pages { a with cnt := a.cnt - 1 } = a.pages := by
    simp [Arena.pages, hsmall]
  have hlisted := h.listed.put hi (a := { a with cnt := a.cnt - 1 }) (p := p) hd
    (fun x hx => Option.some.inj (ha.symm.trans hx) ▸ hd) hnodup.2
    (fun b' hb' => .inl (by rw [hL]; exact List.mem_cons_of_mem _ hb')) (by
      rw [hsub]
      omega)
    fun q hq => by
      rw [hL, List.countP_cons_of_neg (by simpa [hpage] using hq.symm)]
  refine ⟨a, ha, fun size hpos hsize => ⟨h.placed.recount ha hsmall _, hlisted, ?_,
    fun q x j _ hx hxd => ?_⟩⟩
  · refine Alive.cons (h.alive.mono h.placed (List.Sublist.refl _)
      (fun x _ y hy => update_keeps { a with cnt := a.cnt - 1 } ha rfl hpages hy)
      fun x _ j hj => ?_) hpos
      (.inl ⟨i, hi, p, ⟨⟨_, Function.update_self .., hd⟩, hk⟩, hsize, ?_⟩)
      fun x hx => h.ne_of_free hi hmem hx
    · by_cases hji : j = i
      · subst hji
        rw [Function.update_self] at hj
        rw [hL]
        exact List.mem_cons_of_mem _ hj
      · rwa [Function.update_of_ne hji] at hj
    · rw [Function.update_self]
      exact hnodup.1
  · by_cases hq : q = p
    · subst hq
      rw [Function.update_self] at hx
      obtain rfl := Option.some.inj hx
      obtain rfl : i = j := congrArg DescPtr.idx (Option.some.inj (hd.symm.trans hxd))
      show (a.cnt - 1).toNat < _
      omega
    · rw [Function.update_of_ne hq] at hx
      refine h.used q x j (fun hc => ?_) hx hxd
      rcases he with he | he
      · rw [he] at hc
        cases hc
      · rw [he] at hc
        exact hq (Option.some.inj hc)

/-- An allocation in an arena of small blocks is a block that is on no list. -/
theorem live_block (h : ArenasOk c e V H L live) {x : Nat × Nat} (hx : x ∈ live)
    (ha : H (block2arena x.1) = some a) (hd : a.desc = some ⟨c, i⟩) :
    x.1 ∈ blockSet i (block2arena x.1) ∧ x.1 ∉ L i := by
  obtain ⟨a', ha', hcase⟩ := (h.alive.place x hx).2.header h.placed
  obtain rfl := Option.some.inj (ha.symm.trans ha')
  rcases hcase with ⟨j, -, hd', hset, -, hnot⟩ | ⟨hnone, -⟩
  · obtain rfl : j = i := congrArg DescPtr.idx (Option.some.inj (hd'.symm.trans hd))
    exact ⟨hset, hnot⟩
  · rw [hnone] at hd
    cases hd

/-- A block is put back on the free list. -/
theorem push (h : ArenasOk c none V H L live) {x : Nat × Nat} (hx : x ∈ live)
    (ha : H (block2arena x.1) = some a) (hd : a.desc = some ⟨c, i⟩) :
    (a.cnt + 1).toNat = a.cnt.toNat + 1 ∧ a.cnt.toNat + 1 ≤ descBlocks i ∧
      ArenasOk c (some (block2arena x.1)) V
        (Function.update H (block2arena x.1) (some { a with cnt := a.cnt + 1 }))
        (Function.update L i (L i ++ [x.1])) (live.filter (·.1 ≠ x.1)) := by
  obtain ⟨hi, hsmall⟩ := h.placed.small ha hd
  have hbound := descBlocks_bounds hi
  obtain ⟨hset, hnot⟩ := h.live_block hx ha hd
  have hlt := h.listed.count_lt h.placed hi hset hnot
  have hcount := h.listed.counted _ a i ha hd
  rw [← hcount] at hlt
  have hadd : (a.cnt + 1).toNat = a.cnt.toNat + 1 := by
    rw [UInt32.toNat_add]
    show (a.cnt.toNat + 1) % 2 ^ 32 = _
    omega
  have hpages : Arena.pages { a with cnt := a.cnt + 1 } = a.pages := by
    simp [Arena.pages, hsmall]
  have hsplit : ∀ q, (L i ++ [x.1]).countP (block2arena · = q)
      = (L i).countP (block2arena · = q) + if block2arena x.1 = q then 1 else 0 := by
    intro q
    rw [List.countP_append, List.countP_singleton]
    simp
  refine ⟨hadd, hlt, h.placed.recount ha hsmall _,
    h.listed.put hi (a := { a with cnt := a.cnt + 1 }) hd
      (fun y hy => Option.some.inj (ha.symm.trans hy) ▸ hd)
      (List.nodup_append.mpr ⟨h.listed.nodup i hi, List.nodup_singleton _, ?_⟩)
      (fun b hb => ?_) ?_ fun q hq => ?_, ?_, fun q y j hq hy hyd => ?_⟩
  · intro b hb b' hb' heq
    rw [List.mem_singleton.mp hb'] at heq
    exact hnot (heq ▸ hb)
  · rcases List.mem_append.mp hb with hb | hb
    · exact .inl hb
    · rw [List.mem_singleton.mp hb]
      exact .inr hset
  · refine hadd.trans ?_
    rw [hsplit, if_pos rfl, hcount]
  · rw [hsplit, if_neg hq.symm, Nat.add_zero]
  · refine h.alive.mono h.placed List.filter_sublist
      (fun y _ z hz => update_keeps { a with cnt := a.cnt + 1 } ha rfl hpages hz)
      fun y hy j hj => ?_
    by_cases hji : j = i
    · subst hji
      rw [Function.update_self] at hj
      refine (List.mem_append.mp hj).resolve_right fun hc => ?_
      exact of_decide_eq_true (List.mem_filter.mp hy).2 (List.mem_singleton.mp hc)
    · rwa [Function.update_of_ne hji] at hj
  · have hq : q ≠ block2arena x.1 := fun hc => hq (congrArg some hc)
    rw [Function.update_of_ne hq] at hy
    exact h.used q y j nofun hy hyd

/-- No arena is without a block in use when the last one has some. -/
theorem settle (h : ArenasOk c (some p) V H L live) (ha : H p = some a)
    (hd : a.desc = some ⟨c, i⟩) (hlt : a.cnt.toNat < descBlocks i) :
    ArenasOk c none V H L live := by
  refine ⟨h.placed, h.listed, h.alive, fun q x j _ hx hxd => ?_⟩
  by_cases hq : q = p
  · subst hq
    obtain rfl := Option.some.inj (ha.symm.trans hx)
    obtain rfl : i = j := congrArg DescPtr.idx (Option.some.inj (hd.symm.trans hxd))
    exact hlt
  · exact h.used q x j (fun hc => hq (Option.some.inj hc)) hx hxd

/-- An arena whose blocks are all free goes. -/
theorem dropSmall {l : List Nat} (h : ArenasOk c (some p) V H L live) (ha : H p = some a)
    (hd : a.desc = some ⟨c, i⟩) (hfull : a.cnt.toNat = descBlocks i) (hnodup : l.Nodup)
    (hl : ∀ b, b ∈ l ↔ b ∈ L i ∧ b ∉ blockSet i p) :
    ArenasOk c none (vaddrRemove V p 1) (Function.update H p none) (Function.update L i l)
      live := by
  obtain ⟨hi, hsmall⟩ := h.placed.small ha hd
  have hpages : a.pages = 1 := by simp [Arena.pages, hsmall]
  have hfree : ∀ b ∈ blockSet i p, b ∈ L i := fun b hb =>
    h.listed.all_free h.placed hi ((h.listed.counted p a i ha hd).symm.trans hfull) hb
  have hother : ∀ j < 7, ∀ b ∈ L j, block2arena b = p → b ∈ blockSet i p ∧ j = i := by
    intro j hj b hb hbp
    obtain ⟨q, hblock⟩ := h.listed.block j hj b hb
    obtain rfl := (hblock.arena h.placed).symm.trans hbp
    obtain ⟨⟨a', ha', hd'⟩, hk⟩ := hblock
    obtain rfl := Option.some.inj (ha.symm.trans ha')
    obtain rfl : j = i := congrArg DescPtr.idx (Option.some.inj (hd'.symm.trans hd))
    exact ⟨mem_blockSet.mpr hk, rfl⟩
  have hpage : ∀ b ∈ blockSet i p, block2arena b = p := fun b hb =>
    BlockOf.arena ⟨⟨a, ha, hd⟩, mem_blockSet.mp hb⟩ h.placed
  have hplaced := h.placed.drop ha
  rw [hpages] at hplaced
  refine ⟨hplaced, h.listed.drop h.placed (fun j hj => ?_) (fun j hj b hb => ?_)
    fun j hj q hq => ?_, ?_, fun q x j _ hx hxd => ?_⟩
  · by_cases hji : j = i
    · subst hji
      rw [Function.update_self]
      exact hnodup
    · rw [Function.update_of_ne hji]
      exact h.listed.nodup j hj
  · by_cases hji : j = i
    · subst hji
      rw [Function.update_self] at hb
      obtain ⟨hmem, hnot⟩ := (hl b).mp hb
      exact ⟨hmem, fun hc => hnot (hother j hj b hmem hc).1⟩
    · rw [Function.update_of_ne hji] at hb
      exact ⟨hb, fun hc => hji (hother j hj b hb hc).2⟩
  · by_cases hji : j = i
    · subst hji
      rw [Function.update_self, List.countP_eq_length_filter, List.countP_eq_length_filter]
      refine List.Perm.length_eq ((List.perm_ext_iff_of_nodup (hnodup.filter _)
        ((h.listed.nodup j hj).filter _)).mpr fun b => ?_)
      simp only [List.mem_filter, hl, decide_eq_true_eq]
      exact ⟨fun hb => ⟨hb.1.1, hb.2⟩, fun hb =>
        ⟨⟨hb.1, fun hset => hq (hb.2.symm.trans (hpage b hset))⟩, hb.2⟩⟩
    · rw [Function.update_of_ne hji]
  · have hne : ∀ x ∈ live, block2arena x.1 ≠ p := by
      intro x hx hxp
      obtain ⟨a', ha', hcase⟩ := (h.alive.place x hx).2.header h.placed
      rw [hxp] at ha' hcase
      obtain rfl := Option.some.inj (ha.symm.trans ha')
      rcases hcase with ⟨j, -, hd', hset, -, hnot⟩ | ⟨hnone, -⟩
      · obtain rfl : j = i := congrArg DescPtr.idx (Option.some.inj (hd'.symm.trans hd))
        exact hnot (hfree _ hset)
      · rw [hnone] at hd
        cases hd
    refine h.alive.mono h.placed (List.Sublist.refl _)
      (fun x hx y hy => ⟨y, (Function.update_of_ne (hne x hx) ..).trans hy, rfl, rfl⟩)
      fun x hx j hj => ?_
    by_cases hji : j = i
    · subst hji
      rw [Function.update_self] at hj
      exact ((hl _).mp hj).1
    · rwa [Function.update_of_ne hji] at hj
  · have hq : q ≠ p := by
      rintro rfl
      rw [Function.update_self] at hx
      cases hx
    rw [Function.update_of_ne hq] at hx
    exact h.used q x j (fun hc => hq (Option.some.inj hc)) hx hxd

/-- Pages of their own go. -/
theorem dropLarge (h : ArenasOk c none V H L live) {x : Nat × Nat} (hx : x ∈ live)
    (ha : H (block2arena x.1) = some a) (hd : a.desc = none) :
    ArenasOk c none (vaddrRemove V (block2arena x.1) a.pages)
      (Function.update H (block2arena x.1) none) L (live.filter (·.1 ≠ x.1)) := by
  have hstart : ∀ y ∈ live, block2arena y.1 = block2arena x.1 →
      y.1 = block2arena x.1 + 12 := by
    intro y hy hyp
    obtain ⟨a', ha', hcase⟩ := (h.alive.place y hy).2.header h.placed
    rw [hyp] at ha' hcase
    obtain rfl := Option.some.inj (ha.symm.trans ha')
    rcases hcase with ⟨j, -, hd', -⟩ | ⟨-, heq, -⟩
    · rw [hd] at hd'
      cases hd'
    · exact heq
  refine ⟨h.placed.drop ha, h.listed.drop h.placed h.listed.nodup (fun j hj b hb => ⟨hb, ?_⟩)
    fun j hj q hq => rfl, ?_, fun q y j hq hy hyd => ?_⟩
  · intro hc
    obtain ⟨q, hblock⟩ := h.listed.block j hj b hb
    obtain rfl := (hblock.arena h.placed).symm.trans hc
    obtain ⟨⟨a', ha', hd'⟩, -⟩ := hblock
    obtain rfl := Option.some.inj (ha.symm.trans ha')
    rw [hd] at hd'
    cases hd'
  · refine h.alive.mono h.placed List.filter_sublist (fun y hy z hz => ?_) fun y _ j hj => hj
    obtain ⟨hmem, hne⟩ := List.mem_filter.mp hy
    have hpage : block2arena y.1 ≠ block2arena x.1 := fun hc =>
      of_decide_eq_true hne ((hstart y hmem hc).trans (hstart x hx rfl).symm)
    exact ⟨z, (Function.update_of_ne hpage ..).trans hz, rfl, rfl⟩
  · have hne : q ≠ block2arena x.1 := by
      rintro rfl
      rw [Function.update_self] at hy
      cases hy
    rw [Function.update_of_ne hne] at hy
    exact h.used q y j hq hy hyd

/-- Pages are taken for one allocation. -/
theorem addLarge {size : Nat} (h : ArenasOk c none V H L live) (ht : TakesPages V V' p n)
    (hn : 0 < n) (hn' : n < 3840) (hpos : 0 < size) (hsize : 12 + size ≤ 4096 * n) :
    ArenasOk c none V' (Function.update H p (some ⟨none, UInt32.ofNat n, true⟩)) L
      ((p + 12, size) :: live) := by
  have hcnt : (UInt32.ofNat n).toNat = n := UInt32.toNat_ofNat_of_lt' (by
    show n < 2 ^ 32
    omega)
  have hnone := h.placed.fresh ht (Nat.le_refl p) (by omega)
  have hpages : Arena.pages ⟨none, UInt32.ofNat n, true⟩ = n := by simp [Arena.pages, hcnt]
  refine ⟨h.placed.add ht hn hpages (.inl ⟨rfl, rfl, hcnt.symm ▸ hn⟩), ?_, ?_, ?_⟩
  · refine ⟨h.listed.nodup, fun j hj b hb => ?_, fun q x j hx hxd => ?_⟩
    · obtain ⟨q, hblock⟩ := h.listed.block j hj b hb
      refine ⟨q, hblock.mono fun x hx => ?_⟩
      obtain ⟨x', hx', hd, -⟩ := update_fresh hnone hx
      exact ⟨x', hx', hd⟩
    · by_cases hq : q = p
      · subst hq
        rw [Function.update_self] at hx
        obtain rfl := Option.some.inj hx
        cases hxd
      · rw [Function.update_of_ne hq] at hx
        exact h.listed.counted q x j hx hxd
  · refine Alive.cons (h.alive.mono h.placed (List.Sublist.refl _)
      (fun x _ y hy => update_fresh hnone hy) fun x _ j hj => hj) hpos
      (.inr ⟨p, _, Function.update_self .., rfl, rfl, ?_⟩) fun x hx hc => ?_
    · rw [hpages]
      exact hsize
    · obtain ⟨a', ha', -⟩ := (h.alive.place x hx).2.header h.placed
      rw [hc, block2arena_eq ht.aligned (by omega) (by omega), hnone] at ha'
      cases ha'
  · intro q x j hq hx hxd
    by_cases hqp : q = p
    · subst hqp
      rw [Function.update_self] at hx
      obtain rfl := Option.some.inj hx
      cases hxd
    · rw [Function.update_of_ne hqp] at hx
      exact h.used q x j hq hx hxd

/-- A page is taken and cut into blocks. -/
theorem addSmall (h : ArenasOk c none V H L live) (ht : TakesPages V V' p 1) (hi : i < 7)
    (hL : L i = []) : ArenasOk c (some p) V'
      (Function.update H p (some ⟨some ⟨c, i⟩, UInt32.ofNat (descBlocks i), false⟩))
      (Function.update L i ((List.range (descBlocks i)).map (arena2block (descSize i) p)))
      live := by
  have hbound := descBlocks_bounds hi
  have hcnt : (UInt32.ofNat (descBlocks i)).toNat = descBlocks i := UInt32.toNat_ofNat_of_lt' (by
    show descBlocks i < 2 ^ 32
    omega)
  have hnone := h.placed.fresh ht (Nat.le_refl p) (by omega)
  have hmem : ∀ b, b ∈ (List.range (descBlocks i)).map (arena2block (descSize i) p) ↔
      b ∈ blockSet i p := by
    intro b
    simp only [List.mem_map, List.mem_range, mem_blockSet]
    exact ⟨fun ⟨k, hk, he⟩ => ⟨k, hk, he.symm⟩, fun ⟨k, hk, he⟩ => ⟨k, hk, he.symm⟩⟩
  have hpage : ∀ b ∈ (List.range (descBlocks i)).map (arena2block (descSize i) p),
      block2arena b = p := by
    intro b hb
    obtain ⟨k, hk, rfl⟩ := mem_blockSet.mp ((hmem b).mp hb)
    have hin := block_in_page (p := p) hk
    exact block2arena_eq ht.aligned (by omega) (by have := descSize_pos i; omega)
  refine ⟨h.placed.add ht Nat.one_pos rfl (.inr ⟨i, hi, rfl, rfl⟩),
    h.listed.put hi rfl (fun x hx => ?_)
      (List.Nodup.map (fun _ _ => arena2block_inj) List.nodup_range)
      (fun b hb => .inr ((hmem b).mp hb)) ?_ fun q hq => ?_,
    h.alive.mono h.placed (List.Sublist.refl _) (fun x _ y hy => update_fresh hnone hy)
      fun x hx j hj => ?_, fun q x j hq hx hxd => ?_⟩
  · rw [hnone] at hx
    cases hx
  · rw [List.countP_eq_length.mpr fun b hb => decide_eq_true (hpage b hb), List.length_map,
      List.length_range]
    exact hcnt
  · rw [hL, List.countP_nil, List.countP_eq_zero]
    exact fun b hb hc => hq ((of_decide_eq_true hc).symm.trans (hpage b hb))
  · by_cases hji : j = i
    · subst hji
      rw [Function.update_self] at hj
      obtain ⟨a', ha', -⟩ := (h.alive.place x hx).2.header h.placed
      rw [hpage _ hj, hnone] at ha'
      cases ha'
    · rwa [Function.update_of_ne hji] at hj
  · have hqp : q ≠ p := fun hc => hq (congrArg some hc)
    rw [Function.update_of_ne hqp] at hx
    exact h.used q x j nofun hx hxd

end ArenasOk

end ZyOs
