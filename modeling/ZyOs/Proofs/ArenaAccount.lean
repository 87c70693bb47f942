/-
Nothing of a heap is lost.

Every block of an arena is on a free list or handed out, and every page that is marked was marked
before the first call or is one of an arena's.  The steps are those of `ArenasOk`; here is what
they do to the blocks and pages that no list and no header speaks of.
-/
import ZyOs.Proofs.Arena

namespace ZyOs

open Library

/-- The page at `q` is one of an arena's. -/
def OfArena (H : Nat → Option Arena) (q : Nat) : Prop :=
  ∃ p a, H p = some a ∧ p ≤ q ∧ q < p + 4096 * a.pages

/-- All pages and blocks are accounted for; `B` are the pages that were marked at the start. -/
structure Accounted (c : Context) (B : Nat → Prop) (V : VirtualAddr) (H : Nat → Option Arena)
    (L : Nat → List Nat) (live : List (Nat × Nat)) : Prop where
  pages : ∀ q, B q ↔ V.Marked q ∧ ¬ OfArena H q
  blocks : ∀ p a i, H p = some a → a.desc = some ⟨c, i⟩ → ∀ b ∈ blockSet i p,
    b ∈ L i ∨ ∃ x ∈ live, x.1 = b

variable {c : Context} {B : Nat → Prop} {V V' : VirtualAddr} {H : Nat → Option Arena}
  {L L' : Nat → List Nat} {live live' : List (Nat × Nat)} {p q b i n : Nat} {a : Arena}

theorem OfArena.iff_of_pages {H' : Nat → Option Arena}
    (h : ∀ p, (H' p).map Arena.pages = (H p).map Arena.pages) : OfArena H' q ↔ OfArena H q := by
  have hgo : ∀ {K K' : Nat → Option Arena},
      (∀ p, (K' p).map Arena.pages = (K p).map Arena.pages) → OfArena K q → OfArena K' q := by
    rintro K K' hK ⟨p, a, ha, hlow, hhigh⟩
    have hp := hK p
    rw [ha] at hp
    obtain ⟨a', ha', hpages⟩ := Option.map_eq_some_iff.mp hp
    exact ⟨p, a', ha', hlow, hpages.symm ▸ hhigh⟩
  exact ⟨hgo fun p => (h p).symm, hgo h⟩

theorem page_of_blockSet (hp : p % 4096 = 0) (hb : b ∈ blockSet i p) : block2arena b = p := by
  obtain ⟨k, hk, rfl⟩ := mem_blockSet.mp hb
  have hin := block_in_page (p := p) hk
  have hsize := descSize_pos i
  exact block2arena_eq hp (by omega) (by omega)

namespace Accounted

/-- A block changes hands, and its arena counts it. -/
theorem move {cnt : UInt32} (h : Accounted c B V H L live) (ha : H p = some a)
    (hsmall : a.large = false)
    (hmove : ∀ q x j, H q = some x → x.desc = some ⟨c, j⟩ → ∀ b ∈ blockSet j q,
      (b ∈ L j ∨ ∃ x ∈ live, x.1 = b) → b ∈ L' j ∨ ∃ x ∈ live', x.1 = b) :
    Accounted c B V (Function.update H p (some { a with cnt := cnt })) L' live' := by
  refine ⟨fun q => ?_, fun q x j hx hd b hb => ?_⟩
  · rw [h.pages q]
    refine and_congr_right fun _ => not_congr (OfArena.iff_of_pages fun y => ?_)
    by_cases hy : y = p
    · subst hy
      rw [Function.update_self, ha]
      simp [Arena.pages, hsmall]
    · rw [Function.update_of_ne hy]
  · by_cases hq : q = p
    · subst hq
      rw [Function.update_self] at hx
      obtain rfl := Option.some.inj hx
      exact hmove q a j ha hd b hb (h.blocks q a j ha hd b hb)
    · rw [Function.update_of_ne hq] at hx
      exact hmove q x j hx hd b hb (h.blocks q x j hx hd b hb)

/-- The first block of a list is handed out. -/
theorem pop (cnt : UInt32) {rest : List Nat} (size : Nat) (h : Accounted c B V H L live)
    (ha : H p = some a) (hsmall : a.large = false) (hL : L i = b :: rest) :
    Accounted c B V (Function.update H p (some { a with cnt := cnt })) (Function.update L i rest)
      ((b, size) :: live) := by
  refine h.move ha hsmall fun q x j _ _ b' _ hb' => ?_
  rcases hb' with hb' | ⟨y, hy, hyb⟩
  · by_cases hj : j = i
    · subst hj
      rw [hL] at hb'
      rcases List.mem_cons.mp hb' with rfl | hrest
      · exact .inr ⟨_, List.mem_cons_self, rfl⟩
      · rw [Function.update_self]
        exact .inl hrest
    · rw [Function.update_of_ne hj]
      exact .inl hb'
  · exact .inr ⟨y, List.mem_cons_of_mem _ hy, hyb⟩

/-- A block is put back. -/
theorem push (cnt : UInt32) (h : Accounted c B V H L live) (hp : Placed c V H)
    (hb : BlockOf c H i p b) (ha : H p = some a) (hsmall : a.large = false) :
    Accounted c B V (Function.update H p (some { a with cnt := cnt }))
      (Function.update L i (L i ++ [b])) (live.filter (·.1 ≠ b)) := by
  refine h.move ha hsmall fun q x j hx hd b' hset hb' => ?_
  by_cases heq : b' = b
  · subst heq
    obtain ⟨rfl, -⟩ := hb.unique ⟨⟨x, hx, hd⟩, mem_blockSet.mp hset⟩ hp
    rw [Function.update_self]
    exact .inl (List.mem_append_right _ (List.mem_singleton_self b'))
  · rcases hb' with hb' | ⟨y, hy, rfl⟩
    · by_cases hj : j = i
      · subst hj
        rw [Function.update_self]
        exact .inl (List.mem_append_left _ hb')
      · rw [Function.update_of_ne hj]
        exact .inl hb'
    · exact .inr ⟨y, List.mem_filter.mpr ⟨hy, by simpa using heq⟩, rfl⟩

/-- Pages that were free become an arena's. -/
theorem place (L' : Nat → List Nat) (live' : List (Nat × Nat)) (h : Accounted c B V H L live)
    (hp : Placed c V H) (ht : TakesPages V V' p n) (hn : 0 < n) (hpages : a.pages = n)
    (hL : ∀ j, ∀ b ∈ L j, b ∈ L' j) (hlive : ∀ x ∈ live, x ∈ live')
    (hnew : ∀ i, a.desc = some ⟨c, i⟩ → ∀ b ∈ blockSet i p, b ∈ L' i) :
    Accounted c B V' (Function.update H p (some a)) L' live' := by
  have hnone : H p = none := hp.fresh ht (Nat.le_refl p) (by omega)
  have hof : ∀ q, OfArena (Function.update H p (some a)) q ↔
      OfArena H q ∨ p ≤ q ∧ q < p + 4096 * n := by
    intro q
    constructor
    · rintro ⟨y, x, hx, hlow, hhigh⟩
      by_cases hy : y = p
      · subst hy
        rw [Function.update_self] at hx
        obtain rfl := Option.some.inj hx
        exact .inr ⟨hlow, hpages ▸ hhigh⟩
      · rw [Function.update_of_ne hy] at hx
        exact .inl ⟨y, x, hx, hlow, hhigh⟩
    · rintro (⟨y, x, hx, hlow, hhigh⟩ | ⟨hlow, hhigh⟩)
      · have hy : y ≠ p := by
          rintro rfl
          rw [hnone] at hx
          cases hx
        exact ⟨y, x, (Function.update_of_ne hy ..).trans hx, hlow, hhigh⟩
      · exact ⟨p, a, Function.update_self .., hlow, hpages.symm ▸ hhigh⟩
  refine ⟨fun q => ?_, fun q x j hx hd b hb => ?_⟩
  · rw [h.pages q, ht.marked q, hof q]
    constructor
    · rintro ⟨hmarked, hnot⟩
      refine ⟨.inl hmarked, fun hc => ?_⟩
      rcases hc with hc | ⟨hlow, hhigh⟩
      · exact hnot hc
      · exact ht.free q hlow hhigh hmarked
    · rintro ⟨hmarked | ⟨-, hlow, hhigh⟩, hnot⟩
      · exact ⟨hmarked, fun hc => hnot (.inl hc)⟩
      · exact absurd (.inr ⟨hlow, hhigh⟩) hnot
  · by_cases hq : q = p
    · subst hq
      rw [Function.update_self] at hx
      obtain rfl := Option.some.inj hx
      exact .inl (hnew j hd b hb)
    · rw [Function.update_of_ne hq] at hx
      exact (h.blocks q x j hx hd b hb).imp (hL j b) fun ⟨y, hy, hyb⟩ => ⟨y, hlive y hy, hyb⟩

/-- An arena goes, with its pages. -/
theorem drop (L' : Nat → List Nat) (live' : List (Nat × Nat)) (h : Accounted c B V H L live)
    (hp : Placed c V H) (ha : H p = some a)
    (hL : ∀ j, ∀ b ∈ L j, block2arena b ≠ p → b ∈ L' j)
    (hlive : ∀ x ∈ live, block2arena x.1 ≠ p → x ∈ live') :
    Accounted c B (vaddrRemove V p a.pages) (Function.update H p none) L' live' := by
  obtain ⟨hal, hlow, htop, hmarked⟩ := hp.range p a ha
  have hpos := hp.pages_pos ha
  have hold : ∀ q x, Function.update H p none q = some x → q ≠ p ∧ H q = some x := by
    intro q x hx
    by_cases hq : q = p
    · subst hq
      rw [Function.update_self] at hx
      cases hx
    · exact ⟨hq, (Function.update_of_ne hq ..).symm.trans hx⟩
  have hremove := fun q => marked_remove (n := a.pages) hp.fits hal hlow (by omega) q
  refine ⟨fun q => ?_, fun q x j hx hd b hb => ?_⟩
  · rw [h.pages q, hremove q]
    constructor
    · rintro ⟨hm, hnot⟩
      refine ⟨⟨hm, fun hin => hnot ⟨p, a, ha, hin⟩⟩, ?_⟩
      rintro ⟨y, x, hx, hin⟩
      exact hnot ⟨y, x, (hold y x hx).2, hin⟩
    · rintro ⟨⟨hm, hin⟩, hnot⟩
      refine ⟨hm, ?_⟩
      rintro ⟨y, x, hx, hy⟩
      by_cases hyp : y = p
      · subst hyp
        obtain rfl := Option.some.inj (ha.symm.trans hx)
        exact hin hy
      · exact hnot ⟨y, x, (Function.update_of_ne hyp ..).trans hx, hy⟩
  · obtain ⟨hne, hx⟩ := hold q x hx
    have hpage : block2arena b ≠ p := page_of_blockSet (hp.range q x hx).1 hb ▸ hne
    refine (h.blocks q x j hx hd b hb).imp (fun hmem => hL j b hmem hpage) ?_
    rintro ⟨y, hy, rfl⟩
    exact ⟨y, hlive y hy hpage, rfl⟩

end Accounted

end ZyOs
