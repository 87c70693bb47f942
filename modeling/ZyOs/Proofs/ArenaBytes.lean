/-
What the memory of a heap says.

`Shown` relates the bytes of a heap to the headers and lists of `ZyOs.Kernel.Arena`: each
descriptor and each header has its words, and the free lists are lists in memory.  `HeapLaid` is
about where all of it is: the blocks, the headers and the descriptors lie apart, so that whoever
writes one leaves the others as they are.
-/
import ZyOs.Proofs.ArenaCalls
import ZyOs.Proofs.ListBytes

namespace ZyOs

open Library InMemory

/-- The array of descriptors is somewhere. -/
structure HeapSite.Ok (site : HeapSite) : Prop where
  pos : 0 < site.descs.toNat
  top : site.descs.toNat + 168 ≤ 2 ^ 32

/-- The words of descriptor `i`. -/
def DescAt (site : HeapSite) (m : Mem) (i : Nat) : Prop :=
  blockSize m (descAt site.descs i) = UInt32.ofNat (descSize i) ∧
    blocksPerArena m (descAt site.descs i) = UInt32.ofNat (descBlocks i)

/-- The free list of descriptor `i`. -/
def ListAt (site : HeapSite) (m : Mem) (i : Nat) (l : List Nat) : Prop :=
  IsList (Nodes.links m) (freeList (descAt site.descs i)) (l.map UInt32.ofNat)

/-- What `a->desc` is. -/
def HeapSite.descWord (site : HeapSite) : Option DescPtr → UInt32
  | none => 0
  | some d => descAt site.descs d.idx

/-- The words of the header in front of the page at `p`. -/
structure HeaderAt (site : HeapSite) (m : Mem) (p : Nat) (a : Arena) : Prop where
  desc : getWord m p = site.descWord a.desc
  cnt : getWord m (p + 4) = a.cnt
  large : getWord m (p + 8) = if a.large then 1 else 0

/-- The memory has the headers and the lists of `s`. -/
structure Shown (site : HeapSite) (s : Memory) (w : HeapMem) : Prop where
  vaddrs : w.vaddrs = s.vaddrs site.owner
  poolSize : site.poolSize.toNat = s.poolSize site.owner.flag
  descs : ∀ i < 7, DescAt site w.bytes i
  lists : ∀ i < 7, ListAt site w.bytes i (s.lists site.owner i)
  headers : ∀ p a, s.arenas site.owner p = some a → HeaderAt site w.bytes p a
  /-- The descriptors are on no page of an arena, nor on one that may become one. -/
  apart : ∀ p a, s.arenas site.owner p = some a →
    site.descs.toNat + 168 ≤ p ∨ p + 4096 * a.pages ≤ site.descs.toNat
  window : site.descs.toNat + 168 ≤ w.vaddrs.vaddrStart ∨
    w.vaddrs.vaddrStart + 4096 * (8 * w.vaddrs.vaddrBitmap.bmapBytesLen + 1) ≤ site.descs.toNat

/-- Where the blocks of a heap are. -/
structure HeapLaid (c : Context) (s : Memory) : Prop where
  sized : Sized c s
  placed : Placed c (s.vaddrs c) (s.arenas c)
  block : ∀ i < 7, ∀ b ∈ s.lists c i, ∃ p, BlockOf c (s.arenas c) i p b

variable {site : HeapSite} {s s' : Memory} {w : HeapMem} {m m' : Mem} {c : Context}
  {V : VirtualAddr} {H : Nat → Option Arena} {i j p q b n : Nat} {l : List Nat} {a : Arena}
  {e : Option Nat} {live : List (Nat × Nat)}

theorem HeapOk.laid (h : HeapOk c e s live) : HeapLaid c s :=
  ⟨h.sized, h.arenas.placed, h.arenas.listed.block⟩

/-! ### Places -/

theorem HeapSite.Ok.descAt (h : site.Ok) (hi : i < 7) :
    (InMemory.descAt site.descs i).toNat = site.descs.toNat + 24 * i := by
  have htop := h.top
  have hidx : (UInt32.ofNat (24 * i)).toNat = 24 * i :=
    UInt32.toNat_ofNat_of_lt' (show 24 * i < 2 ^ 32 by omega)
  rw [InMemory.descAt, UInt32.toNat_add, hidx]
  omega

theorem HeapSite.Ok.head (h : site.Ok) (hi : i < 7) :
    (listHead (freeList (InMemory.descAt site.descs i))).toNat = site.descs.toNat + 24 * i + 8 := by
  have htop := h.top
  rw [listHead, freeList, UInt32.toNat_add, h.descAt hi]
  show (site.descs.toNat + 24 * i + 8) % 2 ^ 32 = _
  omega

theorem HeapSite.Ok.tail (h : site.Ok) (hi : i < 7) :
    (listTail (freeList (InMemory.descAt site.descs i))).toNat
      = site.descs.toNat + 24 * i + 16 := by
  have htop := h.top
  have hhead := h.head hi
  rw [listHead] at hhead
  rw [listTail, UInt32.toNat_add, hhead]
  show (site.descs.toNat + 24 * i + 8 + 8) % 2 ^ 32 = _
  omega

theorem ofNat_inj {x y : Nat} (hx : x < 2 ^ 32) (hy : y < 2 ^ 32) :
    UInt32.ofNat x = UInt32.ofNat y ↔ x = y := by
  refine ⟨fun h => ?_, congrArg _⟩
  have hnat := congrArg UInt32.toNat h
  rwa [UInt32.toNat_ofNat_of_lt' hx, UInt32.toNat_ofNat_of_lt' hy] at hnat

namespace BlockOf

/-- A block is in its page, behind the header. -/
theorem range (h : BlockOf c H i p b) (hp : Placed c V H) :
    p % 4096 = 0 ∧ p + 4096 ≤ 2 ^ 32 ∧ p + 12 ≤ b ∧ b + descSize i ≤ p + 4096 := by
  obtain ⟨⟨a, ha, hd⟩, k, hk, rfl⟩ := h
  obtain ⟨hal, -, htop, -⟩ := hp.range p a ha
  have hpos := hp.pages_pos ha
  have hin := block_in_page (p := p) hk
  exact ⟨hal, by omega, hin.1, hin.2⟩

theorem lt (h : BlockOf c H i p b) (hp : Placed c V H) : b < 2 ^ 32 := by
  have hrange := h.range hp
  have hpos := descSize_pos i
  omega

/-- Two blocks lie apart. -/
theorem apart {b' : Nat} (h : BlockOf c H i p b) (h' : BlockOf c H j q b') (hp : Placed c V H)
    (hne : b ≠ b') : b + descSize i ≤ b' ∨ b' + descSize j ≤ b := by
  have hrange := h.range hp
  have hrange' := h'.range hp
  obtain ⟨⟨a, ha, hd⟩, k, hk, hb⟩ := h
  obtain ⟨⟨a', ha', hd'⟩, k', hk', hb'⟩ := h'
  rcases Nat.lt_trichotomy p q with hlt | rfl | hlt
  · have := hp.apart p a q a' ha ha' hlt
    have := hp.pages_pos ha
    omega
  · obtain rfl := Option.some.inj (ha.symm.trans ha')
    obtain rfl : i = j := congrArg DescPtr.idx (Option.some.inj (hd.symm.trans hd'))
    rcases Nat.lt_trichotomy k k' with hlt | rfl | hlt
    · have := block_apart (i := i) (p := p) hlt
      omega
    · exact absurd (hb.trans hb'.symm) hne
    · have := block_apart (i := i) (p := p) hlt
      omega
  · have := hp.apart q a' p a ha' ha hlt
    have := hp.pages_pos ha'
    omega

/-- A block lies apart from the headers. -/
theorem header (h : BlockOf c H i p b) (hp : Placed c V H) (ha : H q = some a) :
    q + 12 ≤ b ∨ b + descSize i ≤ q := by
  have hrange := h.range hp
  obtain ⟨⟨a', ha', -⟩, -⟩ := h
  have hpos := hp.pages_pos ha
  have hpos' := hp.pages_pos ha'
  rcases Nat.lt_trichotomy p q with hlt | rfl | hlt
  · have := hp.apart p a' q a ha' ha hlt
    omega
  · omega
  · have := hp.apart q a p a' ha ha' hlt
    omega

end BlockOf

theorem Placed.headers_apart {x : Arena} (h : Placed c V H) (hx : H q = some x) (ha : H p = some a)
    (hne : q ≠ p) : q + 4096 ≤ p ∨ p + 4096 ≤ q := by
  have hpos := h.pages_pos ha
  have hpos' := h.pages_pos hx
  rcases Nat.lt_or_gt_of_ne hne with hlt | hlt
  · have := h.apart q x p a hx ha hlt
    omega
  · have := h.apart p a q x ha hx hlt
    omega

/-- Pages that were free are no arena's. -/
theorem Placed.away {V' : VirtualAddr} (h : Placed c V H) (ha : H q = some a)
    (ht : TakesPages V V' p n) (hn : 0 < n) : q + 4096 * a.pages ≤ p ∨ p + 4096 * n ≤ q := by
  obtain ⟨hal, -, -, hmarked⟩ := h.range q a ha
  have hpos := h.pages_pos ha
  have hpal := ht.aligned
  by_contra hc
  rcases Nat.le_total p q with hle | hle
  · exact ht.free q hle (by omega) (hmarked q hal (Nat.le_refl q) (by omega))
  · exact ht.free p (Nat.le_refl p) (by omega) (hmarked p hpal hle (by omega))

/-- The ends of a free list and the blocks of one descriptor lie apart. -/
theorem spaced_blocks (hsite : site.Ok) (hp : Placed c V H) (hi : i < 7)
    (hl : ∀ b ∈ l, ∃ p, BlockOf c H i p b)
    (hapart : ∀ p a, H p = some a →
      site.descs.toNat + 168 ≤ p ∨ p + 4096 * a.pages ≤ site.descs.toNat) :
    Nodes.Spaced (listNodes (freeList (descAt site.descs i)) (l.map UInt32.ofNat)) := by
  have hhead := hsite.head hi
  have htail := hsite.tail hi
  have hblock : ∀ b ∈ l, (UInt32.ofNat b).toNat = b ∧
      (site.descs.toNat + 168 ≤ b ∨ b + 8 ≤ site.descs.toNat) := by
    intro b hb
    obtain ⟨p, hblock⟩ := hl b hb
    have hrange := hblock.range hp
    have hsize := descSize_pos i
    refine ⟨UInt32.toNat_ofNat_of_lt' (hblock.lt hp), ?_⟩
    obtain ⟨a, ha, -⟩ := hblock.1
    have hfar := hapart p a ha
    have hpos := hp.pages_pos ha
    omega
  have hcases : ∀ x ∈ listNodes (freeList (descAt site.descs i)) (l.map UInt32.ofNat),
      x = listHead (freeList (descAt site.descs i)) ∨
      x = listTail (freeList (descAt site.descs i)) ∨ ∃ b ∈ l, x = UInt32.ofNat b := by
    intro x hx
    simp only [listNodes, List.mem_cons, List.mem_append, List.mem_map, List.not_mem_nil,
      or_false] at hx
    rcases hx with hx | ⟨b, hb, hx⟩ | hx
    · exact .inl hx
    · exact .inr (.inr ⟨b, hb, hx.symm⟩)
    · exact .inr (.inl hx)
  intro x hx y hy hne
  rcases hcases x hx with rfl | rfl | ⟨b, hb, rfl⟩
  · rcases hcases y hy with rfl | rfl | ⟨b', hb', rfl⟩
    · exact absurd rfl hne
    · omega
    · have := hblock b' hb'
      omega
  · rcases hcases y hy with rfl | rfl | ⟨b', hb', rfl⟩
    · omega
    · exact absurd rfl hne
    · have := hblock b' hb'
      omega
  · have hat := hblock b hb
    rcases hcases y hy with rfl | rfl | ⟨b', hb', rfl⟩
    · omega
    · omega
    · have hat' := hblock b' hb'
      obtain ⟨p, hof⟩ := hl b hb
      obtain ⟨p', hof'⟩ := hl b' hb'
      have hfar := hof.apart hof' hp fun hc => hne (congrArg _ hc)
      have hsize := descSize_pos i
      omega

/-- A byte is outside of these nodes. -/
theorem outside_blocks (hsite : site.Ok) (hi : i < 7) (hl : ∀ b ∈ l, b < 2 ^ 32)
    (hends : j < site.descs.toNat + 24 * i + 8 ∨ site.descs.toNat + 24 * i + 24 ≤ j)
    (hblocks : ∀ b ∈ l, j < b ∨ b + 8 ≤ j) :
    Nodes.Outside (listNodes (freeList (descAt site.descs i)) (l.map UInt32.ofNat)) j := by
  intro x hx
  simp only [listNodes, List.mem_cons, List.mem_append, List.mem_map, List.not_mem_nil,
    or_false] at hx
  rcases hx with rfl | ⟨b, hb, rfl⟩ | rfl
  · rw [hsite.head hi]
    omega
  · rw [UInt32.toNat_ofNat_of_lt' (hl b hb)]
    exact hblocks b hb
  · rw [hsite.tail hi]
    omega

/-! ### Bytes that stay -/

theorem DescAt.congr (hsite : site.Ok) (hi : i < 7) (h : DescAt site m i)
    (hsame : ∀ x, site.descs.toNat + 24 * i ≤ x → x < site.descs.toNat + 24 * i + 8 → m' x = m x) :
    DescAt site m' i := by
  have hat := hsite.descAt hi
  refine ⟨h.1 ▸ getWord_congr fun x hx => hsame _ ?_ ?_,
    h.2 ▸ getWord_congr fun x hx => hsame _ ?_ ?_⟩ <;> omega

theorem HeaderAt.congr (h : HeaderAt site m p a)
    (hsame : ∀ x, p ≤ x → x < p + 12 → m' x = m x) : HeaderAt site m' p a where
  desc := h.desc ▸ getWord_congr fun x hx => hsame _ (by omega) (by omega)
  cnt := h.cnt ▸ getWord_congr fun x hx => hsame _ (by omega) (by omega)
  large := h.large ▸ getWord_congr fun x hx => hsame _ (by omega) (by omega)

theorem ListAt.congr (hsite : site.Ok) (hi : i < 7) (h : ListAt site m i l)
    (hl : ∀ b ∈ l, b < 2 ^ 32)
    (hends : ∀ x, site.descs.toNat + 24 * i + 8 ≤ x → x < site.descs.toNat + 24 * i + 24 →
      m' x = m x)
    (hblocks : ∀ b ∈ l, ∀ x, b ≤ x → x < b + 8 → m' x = m x) : ListAt site m' i l := by
  refine ⟨h.distinct, h.linked.congr fun x hx => Nodes.links_congr fun k hk => ?_⟩
  simp only [listNodes, List.mem_cons, List.mem_append, List.mem_map, List.not_mem_nil,
    or_false] at hx
  rcases hx with rfl | ⟨b, hb, rfl⟩ | rfl
  · rw [hsite.head hi]
    exact hends _ (by omega) (by omega)
  · rw [UInt32.toNat_ofNat_of_lt' (hl b hb)]
    exact hblocks b hb _ (by omega) (by omega)
  · rw [hsite.tail hi]
    exact hends _ (by omega) (by omega)

theorem HeapLaid.lt (h : HeapLaid c s) (hi : i < 7) (hb : b ∈ s.lists c i) : b < 2 ^ 32 := by
  obtain ⟨p, hblock⟩ := h.block i hi b hb
  exact hblock.lt h.placed

/-- A header ends before the page of its arena does. -/
theorem Shown.header_apart (h : Shown site s w) (hlaid : HeapLaid site.owner s)
    (ha : s.arenas site.owner p = some a) :
    site.descs.toNat + 168 ≤ p ∨ p + 12 ≤ site.descs.toNat := by
  have := h.apart p a ha
  have := hlaid.placed.pages_pos ha
  omega

/-- A block is none of the descriptors. -/
theorem Shown.block_apart (h : Shown site s w) (hlaid : HeapLaid site.owner s)
    (hb : BlockOf site.owner (s.arenas site.owner) i p b) :
    site.descs.toNat + 168 ≤ b ∨ b + descSize i ≤ site.descs.toNat := by
  have hrange := hb.range hlaid.placed
  obtain ⟨a, ha, -⟩ := hb.1
  have := h.apart p a ha
  have := hlaid.placed.pages_pos ha
  omega

/-- Whoever writes none of the descriptors, headers and elements leaves what is shown. -/
theorem Shown.congr (h : Shown site s w) (hsite : site.Ok) (hlaid : HeapLaid site.owner s)
    (hdescs : ∀ x, site.descs.toNat ≤ x → x < site.descs.toNat + 168 → m' x = w.bytes x)
    (hheaders : ∀ p a, s.arenas site.owner p = some a → ∀ x, p ≤ x → x < p + 12 →
      m' x = w.bytes x)
    (hblocks : ∀ i < 7, ∀ b ∈ s.lists site.owner i, ∀ x, b ≤ x → x < b + 8 →
      m' x = w.bytes x) : Shown site s { w with bytes := m' } where
  vaddrs := h.vaddrs
  poolSize := h.poolSize
  descs i hi := (h.descs i hi).congr hsite hi fun x hx hx' => hdescs x (by omega) (by omega)
  lists i hi := (h.lists i hi).congr hsite hi (fun _ hb => hlaid.lt hi hb)
    (fun x hx hx' => hdescs x (by omega) (by omega)) (hblocks i hi)
  headers p a ha := (h.headers p a ha).congr (hheaders p a ha)
  apart := h.apart
  window := h.window

/-- What `s` itself has in its bytes does not matter. -/
theorem Shown.withBytes (h : Shown site s w) (x : Context) (m : Mem) :
    Shown site (s.withBytes x m) w :=
  ⟨h.vaddrs, h.poolSize, h.descs, h.lists, h.headers, h.apart, h.window⟩

theorem HeapLaid.withBytes (h : HeapLaid c s) (x : Context) (m : Mem) :
    HeapLaid c (s.withBytes x m) :=
  ⟨h.sized.congr rfl rfl rfl, h.placed, h.block⟩

/-! ### One list changes -/

theorem HeapLaid.withList (h : HeapLaid c s) (hl : ∀ b ∈ l, ∃ p, BlockOf c (s.arenas c) i p b) :
    HeapLaid c (s.withList ⟨c, i⟩ l) := by
  refine ⟨h.sized.withList _ _, h.placed, fun j hj b hb => ?_⟩
  rw [lists_withList] at hb
  by_cases hji : j = i
  · subst hji
    rw [Function.update_self] at hb
    exact hl b hb
  · rw [Function.update_of_ne hji] at hb
    exact h.block j hj b hb

/-- What is written are the ends of list `i` and blocks of descriptor `i`. -/
theorem Shown.edit {l' : List Nat} (h : Shown site s w) (hsite : site.Ok)
    (hlaid : HeapLaid site.owner s) (hi : i < 7)
    (hl : ∀ b ∈ l, ∃ p, BlockOf site.owner (s.arenas site.owner) i p b)
    (hsame : Nodes.SameOutside (listNodes (freeList (descAt site.descs i)) (l.map UInt32.ofNat))
      w.bytes m')
    (hnew : ListAt site m' i l') :
    Shown site (s.withList ⟨site.owner, i⟩ l') { w with bytes := m' } := by
  have hsize := descSize_pos i
  have hlt : ∀ b ∈ l, b < 2 ^ 32 := fun b hb =>
    let ⟨_, hblock⟩ := hl b hb
    hblock.lt hlaid.placed
  have hout : ∀ x, (x < site.descs.toNat + 24 * i + 8 ∨ site.descs.toNat + 24 * i + 24 ≤ x) →
      (∀ b ∈ l, x < b ∨ b + 8 ≤ x) → m' x = w.bytes x := fun x hends hblocks =>
    hsame x (outside_blocks hsite hi hlt hends hblocks)
  refine ⟨h.vaddrs, h.poolSize, fun j hj => ?_, fun j hj => ?_, fun p a ha => ?_, h.apart,
    h.window⟩
  · refine (h.descs j hj).congr hsite hj fun x hx hx' => hout x (by omega) fun b hb => ?_
    obtain ⟨p, hblock⟩ := hl b hb
    have := h.block_apart hlaid hblock
    omega
  · rw [lists_withList]
    by_cases hji : j = i
    · subst hji
      rw [Function.update_self]
      exact hnew
    · rw [Function.update_of_ne hji]
      refine (h.lists j hj).congr hsite hj (fun _ hb => hlaid.lt hj hb)
        (fun x hx hx' => hout x (by omega) fun b hb => ?_)
        fun b hb x hx hx' => ?_
      · obtain ⟨p, hblock⟩ := hl b hb
        have := h.block_apart hlaid hblock
        omega
      · obtain ⟨p, hblock⟩ := hlaid.block j hj b hb
        have hsize' := descSize_pos j
        have := h.block_apart hlaid hblock
        refine hout x (by omega) fun b' hb' => ?_
        obtain ⟨p', hblock'⟩ := hl b' hb'
        have hne : b ≠ b' := by
          rintro rfl
          exact hji (hblock.unique hblock' hlaid.placed).1
        have := hblock.apart hblock' hlaid.placed hne
        omega
  · have := h.header_apart hlaid ha
    refine (h.headers p a ha).congr fun x hx hx' => hout x (by omega) fun b hb => ?_
    obtain ⟨p', hblock⟩ := hl b hb
    have := hblock.header hlaid.placed ha
    omega

/-- `list_append` -/
theorem Shown.append (h : Shown site s w) (hsite : site.Ok) (hlaid : HeapLaid site.owner s)
    (hi : i < 7) (hb : BlockOf site.owner (s.arenas site.owner) i p b) (hnot : b ∉ s.lists site.owner i) :
    Shown site (s.withList ⟨site.owner, i⟩ (s.lists site.owner i ++ [b]))
      { w with bytes :=
          InMemory.listAppend w.bytes (freeList (descAt site.descs i)) (UInt32.ofNat b) } := by
  have hblocks : ∀ x ∈ s.lists site.owner i ++ [b], ∃ p,
      BlockOf site.owner (s.arenas site.owner) i p x := by
    intro x hx
    rcases List.mem_append.mp hx with hx | hx
    · exact hlaid.block i hi x hx
    · exact ⟨p, List.mem_singleton.mp hx ▸ hb⟩
  have hspaced := spaced_blocks hsite hlaid.placed hi hblocks h.apart
  have hfar := h.block_apart hlaid hb
  have hsize := descSize_pos i
  have hat : (UInt32.ofNat b).toNat = b := UInt32.toNat_ofNat_of_lt' (hb.lt hlaid.placed)
  have hnew : UInt32.ofNat b ∉ listNodes (freeList (descAt site.descs i))
      ((s.lists site.owner i).map UInt32.ofNat) := by
    intro hc
    simp only [listNodes, List.mem_cons, List.mem_append, List.mem_map, List.not_mem_nil,
      or_false] at hc
    rcases hc with hc | ⟨x, hx, hc⟩ | hc
    · have hhead := hsite.head hi
      rw [← hc] at hhead
      omega
    · exact hnot ((ofNat_inj (hlaid.lt hi hx) (hb.lt hlaid.placed)).mp hc ▸ hx)
    · have htail := hsite.tail hi
      rw [← hc] at htail
      omega
  rw [List.map_append, List.map_singleton] at hspaced
  obtain ⟨hlist, hsame⟩ := isList_append (h.lists i hi) hnew hspaced
  rw [← List.map_singleton, ← List.map_append] at hlist hsame
  exact h.edit hsite hlaid hi hblocks hsame hlist

/-- `list_remove` -/
theorem Shown.remove (h : Shown site s w) (hsite : site.Ok) (hlaid : HeapLaid site.owner s)
    (hi : i < 7) (hb : b ∈ s.lists site.owner i) :
    Shown site (s.withList ⟨site.owner, i⟩ ((s.lists site.owner i).erase b))
      { w with bytes := InMemory.listRemove w.bytes (UInt32.ofNat b) } := by
  have hblocks := hlaid.block i hi
  have hspaced := spaced_blocks hsite hlaid.placed hi hblocks h.apart
  obtain ⟨hlist, hsame⟩ := isList_remove (h.lists i hi) (List.mem_map_of_mem hb) hspaced
  refine h.edit hsite hlaid hi hblocks hsame ?_
  have herase : ((s.lists site.owner i).map UInt32.ofNat).erase (UInt32.ofNat b)
      = ((s.lists site.owner i).erase b).map UInt32.ofNat := by
    obtain ⟨front, back, hsplit, hfirst⟩ := List.eq_append_cons_of_mem hb
    have hfirst' : UInt32.ofNat b ∉ front.map UInt32.ofNat := by
      intro hc
      obtain ⟨x, hx, heq⟩ := List.mem_map.mp hc
      have hxl : x ∈ s.lists site.owner i := hsplit ▸ List.mem_append_left _ hx
      exact hfirst ((ofNat_inj (hlaid.lt hi hxl) (hlaid.lt hi hb)).mp heq ▸ hx)
    rw [hsplit, List.erase_append_right _ hfirst, List.erase_cons_head, List.map_append,
      List.map_cons, List.erase_append_right _ hfirst', List.erase_cons_head, List.map_append]
  rw [herase] at hlist
  exact hlist

/-- `list_pop` -/
theorem Shown.pop {rest : List Nat} (h : Shown site s w) (hsite : site.Ok)
    (hlaid : HeapLaid site.owner s) (hi : i < 7) (hl : s.lists site.owner i = b :: rest) :
    (InMemory.listPop w.bytes (freeList (descAt site.descs i))).1 = UInt32.ofNat b ∧
      Shown site (s.withList ⟨site.owner, i⟩ rest) { w with bytes :=
        (InMemory.listPop w.bytes (freeList (descAt site.descs i))).2 } := by
  have hlist := h.lists i hi
  rw [hl] at hlist
  have hremove := h.remove hsite hlaid hi (b := b) (by rw [hl]; exact List.mem_cons_self)
  rw [hl, List.erase_cons_head] at hremove
  rw [listPop_first hlist]
  exact ⟨rfl, hremove⟩

/-! ### The headers change -/

/-- A header counts anew. -/
theorem Shown.recount (h : Shown site s w) (hsite : site.Ok) (hlaid : HeapLaid site.owner s)
    (ha : s.arenas site.owner p = some a) (hsmall : a.large = false) (cnt : UInt32) :
    Shown site (s.withArena site.owner p (some { a with cnt := cnt }))
      { w with bytes := putWord w.bytes (p + 4) cnt } := by
  have hfar := h.header_apart hlaid ha
  have hout : ∀ x, x < p ∨ p + 12 ≤ x → putWord w.bytes (p + 4) cnt x = w.bytes x :=
    fun x hx => putWord_out (by omega)
  have hcase : ∀ q x, (s.withArena site.owner p (some { a with cnt := cnt })).arenas site.owner q
      = some x → (q = p ∧ x = { a with cnt := cnt }) ∨ (q ≠ p ∧ s.arenas site.owner q = some x) := by
    intro q x hx
    rw [arenas_withArena] at hx
    by_cases hq : q = p
    · subst hq
      rw [Function.update_self] at hx
      exact .inl ⟨rfl, (Option.some.inj hx).symm⟩
    · rw [Function.update_of_ne hq] at hx
      exact .inr ⟨hq, hx⟩
  refine ⟨h.vaddrs, h.poolSize, fun j hj => ?_, fun j hj => ?_, fun q x hx => ?_, fun q x hx => ?_,
    h.window⟩
  · exact (h.descs j hj).congr hsite hj fun x hx hx' => hout x (by omega)
  · refine (h.lists j hj).congr hsite hj (fun _ hb => hlaid.lt hj hb)
      (fun x hx hx' => hout x (by omega)) fun b hb x hx hx' => ?_
    obtain ⟨q, hblock⟩ := hlaid.block j hj b hb
    have := hblock.header hlaid.placed ha
    have := descSize_pos j
    exact hout x (by omega)
  · rcases hcase q x hx with ⟨rfl, rfl⟩ | ⟨hq, hold⟩
    · have hheader := h.headers q a ha
      exact ⟨(getWord_putWord_of_apart (by omega)).trans hheader.desc, getWord_putWord ..,
        (getWord_putWord_of_apart (by omega)).trans hheader.large⟩
    · have := hlaid.placed.headers_apart hold ha hq
      exact (h.headers q x hold).congr fun y hy hy' => hout y (by omega)
  · rcases hcase q x hx with ⟨rfl, rfl⟩ | ⟨-, hold⟩
    · have hpages : Arena.pages { a with cnt := cnt } = a.pages := by simp [Arena.pages, hsmall]
      rw [hpages]
      exact h.apart q a ha
    · exact h.apart q x hold

theorem HeapLaid.recount (h : HeapLaid c s) (ha : s.arenas c p = some a) (hsmall : a.large = false)
    (cnt : UInt32) : HeapLaid c (s.withArena c p (some { a with cnt := cnt })) := by
  refine ⟨h.sized.congr rfl rfl rfl, ?_, fun j hj b hb => ?_⟩
  · rw [arenas_withArena]
    exact h.placed.recount ha hsmall cnt
  · rw [arenas_withArena]
    obtain ⟨q, hblock⟩ := h.block j hj b hb
    refine ⟨q, hblock.mono fun x hx => ?_⟩
    obtain ⟨x', hx', hd, -⟩ := update_keeps { a with cnt := cnt } ha rfl
      (by simp [Arena.pages, hsmall]) hx
    exact ⟨x', hx', hd⟩

/-- An arena is put on pages that were free. -/
theorem Shown.place {v : VirtualAddr} (h : Shown site s w) (hsite : site.Ok)
    (hlaid : HeapLaid site.owner s) (ht : TakesPages (s.vaddrs site.owner) v p n) (hn : 0 < n)
    (hfar : site.descs.toNat + 168 ≤ p ∨ p + 4096 * n ≤ site.descs.toNat)
    (hout : ∀ x, x < p ∨ p + 4096 * n ≤ x → m' x = w.bytes x) (hheader : HeaderAt site m' p a)
    (hpages : a.pages = n) (m : Mem) :
    Shown site (((s.withVaddr site.owner v).withBytes site.owner m).withArena site.owner p (some a))
      ⟨m', v⟩ := by
  have haway : ∀ q x, s.arenas site.owner q = some x →
      q + 4096 * x.pages ≤ p ∨ p + 4096 * n ≤ q := fun q x hx => hlaid.placed.away hx ht hn
  have hcase : ∀ q x, (((s.withVaddr site.owner v).withBytes site.owner m).withArena site.owner p
      (some a)).arenas site.owner q = some x →
        (q = p ∧ x = a) ∨ s.arenas site.owner q = some x := by
    intro q x hx
    rw [arenas_withArena] at hx
    by_cases hq : q = p
    · subst hq
      rw [Function.update_self] at hx
      exact .inl ⟨rfl, (Option.some.inj hx).symm⟩
    · rw [Function.update_of_ne hq] at hx
      exact .inr hx
  refine ⟨(vaddrs_withVaddr s site.owner v).symm, h.poolSize, fun j hj => ?_, fun j hj => ?_,
    fun q x hx => ?_, fun q x hx => ?_, ?_⟩
  · exact (h.descs j hj).congr hsite hj fun x hx hx' => hout x (by omega)
  · refine (h.lists j hj).congr hsite hj (fun _ hb => hlaid.lt hj hb)
      (fun x hx hx' => hout x (by omega)) fun b hb x hx hx' => ?_
    obtain ⟨q, hblock⟩ := hlaid.block j hj b hb
    have hrange := hblock.range hlaid.placed
    have hsize := descSize_pos j
    obtain ⟨y, hy, -⟩ := hblock.1
    have := haway q y hy
    have := hlaid.placed.pages_pos hy
    exact hout x (by omega)
  · rcases hcase q x hx with ⟨rfl, rfl⟩ | hold
    · exact hheader
    · have := haway q x hold
      have := hlaid.placed.pages_pos hold
      exact (h.headers q x hold).congr fun y hy hy' => hout y (by omega)
  · rcases hcase q x hx with ⟨rfl, rfl⟩ | hold
    · rw [hpages]
      exact hfar
    · exact h.apart q x hold
  · have hwindow := h.window
    rw [h.vaddrs, ← ht.start, ← ht.len] at hwindow
    exact hwindow

/-- Arenas go. -/
theorem Shown.drop {v : VirtualAddr} (h : Shown site s w) (hv : s'.vaddrs site.owner = v)
    (hstart : v.vaddrStart = w.vaddrs.vaddrStart)
    (hlen : v.vaddrBitmap.bmapBytesLen = w.vaddrs.vaddrBitmap.bmapBytesLen)
    (hpool : s'.poolSize = s.poolSize) (hlists : s'.lists = s.lists)
    (harenas : ∀ p a, s'.arenas site.owner p = some a → s.arenas site.owner p = some a) :
    Shown site s' { w with vaddrs := v } where
  vaddrs := hv.symm
  poolSize := hpool ▸ h.poolSize
  descs := h.descs
  lists := hlists ▸ h.lists
  headers p a ha := h.headers p a (harenas p a ha)
  apart p a ha := h.apart p a (harenas p a ha)
  window := by
    rw [hstart, hlen]
    exact h.window

end ZyOs
