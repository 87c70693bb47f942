/-
Runs of a heap.

`block_desc_init` leaves a memory that shows an empty heap, each call keeps what `Shown` and
`ArenasOk` say, and so does a program that writes only where it may.  So any sequence of calls
and writes does (`heap_sound`).
-/
import ZyOs.Proofs.ArenaRefines

namespace ZyOs

open Library InMemory

variable {site : HeapSite} {s : Memory} {w : HeapMem} {m : Mem} {r : HeapRun} {i p b : Nat}
  {a : Arena} {live : List (Nat × Nat)} {B : Nat → Prop}

/-! ### Before the first call -/

/-- The words and the list of one descriptor. -/
theorem putDesc_spec (hsite : site.Ok) (hi : i < 7) {size : UInt16}
    (hsize : size.toNat = descSize i) (m : Mem) :
    DescAt site (putDesc m (descAt site.descs i) size) i ∧
      ListAt site (putDesc m (descAt site.descs i) size) i [] ∧
      ∀ x, x < site.descs.toNat + 24 * i → putDesc m (descAt site.descs i) size x = m x := by
  have hat := hsite.descAt hi
  have hhead := hsite.head hi
  have htail := hsite.tail hi
  have hspaced : Nodes.Spaced (listNodes (freeList (descAt site.descs i)) []) := by
    intro x hx y hy hne
    simp only [listNodes, List.nil_append, List.mem_cons, List.not_mem_nil, or_false] at hx hy
    rcases hx with rfl | rfl
    · rcases hy with rfl | rfl
      · exact absurd rfl hne
      · omega
    · rcases hy with rfl | rfl
      · omega
      · exact absurd rfl hne
  obtain ⟨m₁, hm⟩ : ∃ m₁, putWord (putWord m (descAt site.descs i).toNat size.toUInt32)
    ((descAt site.descs i).toNat + 4) ((4096 - 12) / size.toUInt32) = m₁ := ⟨_, rfl⟩
  have hput : putDesc m (descAt site.descs i) size
      = InMemory.listInit m₁ (freeList (descAt site.descs i)) := by
    rw [← hm]
    rfl
  rw [hput]
  obtain ⟨hlist, hsame⟩ := isList_listInit m₁ hspaced
  have hout : ∀ x, x < site.descs.toNat + 24 * i + 8 ∨ site.descs.toNat + 24 * i + 24 ≤ x →
      InMemory.listInit m₁ (freeList (descAt site.descs i)) x = m₁ x := fun x hx =>
    hsame x (outside_blocks (l := []) hsite hi (List.forall_mem_nil _) hx (List.forall_mem_nil _))
  have hdesc : DescAt site m₁ i := by
    subst hm
    refine ⟨?_, ?_⟩
    · rw [InMemory.blockSize, getWord_putWord_of_apart (by omega), getWord_putWord]
      apply UInt32.toNat_inj.mp
      rw [UInt16.toNat_toUInt32, hsize, toNat_ofNat_lt (by have := size.toNat_lt; omega)]
    · rw [InMemory.blocksPerArena, getWord_putWord]
      apply UInt32.toNat_inj.mp
      rw [UInt32.toNat_div, UInt16.toNat_toUInt32, hsize, descBlocks_toNat hi]
      rfl
  refine ⟨hdesc.congr hsite hi fun x hx hx' => hout x (by omega), hlist, fun x hx => ?_⟩
  rw [hout x (by omega), ← hm, putWord_out (by omega), putWord_out (by omega)]

/-- The descriptors from `k` on are written, and none of those in front. -/
theorem blockDescLoop_spec (hsite : site.Ok) : ∀ (n k : Nat) (size : UInt16) (m : Mem),
    n + k = 7 → size.toNat = descSize k →
    (∀ i, k ≤ i → i < 7 → DescAt site (blockDescLoop site.descs n k size m) i ∧
      ListAt site (blockDescLoop site.descs n k size m) i []) ∧
    ∀ x, x < site.descs.toNat + 24 * k → blockDescLoop site.descs n k size m x = m x := by
  intro n
  induction n with
  | zero => exact fun k _ _ hk _ => ⟨fun i _ _ => by omega, fun _ _ => rfl⟩
  | succ n ih =>
      intro k size m hk hsize
      obtain ⟨hdesc, hlist, hfront⟩ := putDesc_spec hsite (show k < 7 by omega) hsize m
      have hdouble : (size * 2).toNat = descSize (k + 1) := by
        have hlt : descSize (k + 1) < 2 ^ 16 := by
          have hk6 : k < 7 := by omega
          interval_cases k <;> decide
        rw [descSize, pow_succ, ← mul_assoc, ← descSize] at hlt ⊢
        rw [UInt16.toNat_mul, hsize]
        exact Nat.mod_eq_of_lt hlt
      obtain ⟨hrest, hkeep⟩ := ih (k + 1) (size * 2) (putDesc m (descAt site.descs k) size)
        (by omega) hdouble
      rw [blockDescLoop]
      refine ⟨fun i hki hi => ?_, fun x hx => (hkeep x (by omega)).trans (hfront x hx)⟩
      rcases Nat.eq_or_lt_of_le hki with rfl | hlt
      · exact ⟨hdesc.congr hsite hi fun x _ hx => hkeep x (by omega),
          hlist.congr hsite hi (List.forall_mem_nil _) (fun x _ hx => hkeep x (by omega))
            (List.forall_mem_nil _)⟩
      · exact hrest i hlt hi

theorem HeapFresh.ok (h : HeapFresh site w) : site.Ok := by
  by_cases hc : site.owner = .kernel
  · obtain ⟨hpos, htop, -, -⟩ := h.kernel hc
    rw [kHeapStart] at htop
    exact ⟨hpos, by omega⟩
  · obtain ⟨hlow, htop, -, -⟩ := h.process hc
    rw [kHeapStart] at hlow
    exact ⟨by omega, htop⟩

/-- A memory before the first call shows a heap before the first call. -/
theorem HeapFresh.shown (h : HeapFresh site w) (hs : HeapReady site.owner s)
    (hv : w.vaddrs = s.vaddrs site.owner) (hpool : site.poolSize.toNat = s.poolSize site.owner.flag) :
    HeapWhole site w.vaddrs.Marked s w [] := by
  have hsite := h.ok
  obtain ⟨m, hm⟩ := h.descs
  have hinit := (blockDescLoop_spec hsite 7 0 16 m rfl rfl).1
  have hlists : ∀ i, s.lists site.owner i = [] := by
    intro i
    rw [Memory.lists, hs.descs i]
    simp [ZyOs.blockDescInit]
  have hnone : ∀ {p a}, ¬ s.arenas site.owner p = some a := by
    intro p a ha
    rw [hs.arenas p] at ha
    cases ha
  refine ⟨⟨hv, hpool, fun i hi => ?_, fun i hi => ?_, fun p a ha => absurd ha hnone,
    fun p a ha => absurd ha hnone, ?_⟩, fun q => ?_, fun p a i ha => absurd ha hnone⟩
  · rw [hm]
    exact (hinit i (Nat.zero_le i) hi).1
  · rw [hm, hlists]
    exact (hinit i (Nat.zero_le i) hi).2
  · by_cases hc : site.owner = .kernel
    · obtain ⟨-, htop, hstart, -⟩ := h.kernel hc
      omega
    · obtain ⟨hlow, -, hstart, hlen⟩ := h.process hc
      rw [hstart, hlen]
      rw [kHeapStart] at hlow
      refine .inr (Nat.le_trans ?_ hlow)
      decide
  · rw [hv]
    refine ⟨fun hq => ⟨hq, ?_⟩, And.left⟩
    rintro ⟨p, a, ha, -⟩
    exact hnone ha

/-! ### What a program writes -/

/-- A byte of an arena that is not of the heap's own making. -/
structure HeapSite.Clear (site : HeapSite) (s : Memory) (x : Nat) : Prop where
  descs : x < site.descs.toNat ∨ site.descs.toNat + 168 ≤ x
  headers : ∀ p a, s.arenas site.owner p = some a → x < p ∨ p + 12 ≤ x
  blocks : ∀ i < 7, ∀ b ∈ s.lists site.owner i, x < b ∨ b + 8 ≤ x

/-- A byte that is written in such a place changes nothing that is shown. -/
theorem Shown.store (h : Shown site s w) (hsite : site.Ok) (hlaid : HeapLaid site.owner s) {x : Nat}
    (hclear : site.Clear s x) (byte : UInt8) :
    Shown site s { w with bytes := Function.update w.bytes x byte } := by
  have hout : ∀ y, y ≠ x → Function.update w.bytes x byte y = w.bytes y :=
    fun y hy => Function.update_of_ne hy ..
  refine h.congr hsite hlaid (fun y hy hy' => hout y ?_) (fun p a ha y hy hy' => hout y ?_)
    fun i hi b hb y hy hy' => hout y ?_
  · have := hclear.descs
    omega
  · have := hclear.headers p a ha
    omega
  · have := hclear.blocks i hi b hb
    omega

/-- What is live is clear. -/
theorem HeapOk.clear_live (hok : HeapOk site.owner none s live) (h : Shown site s w)
    {y : Nat × Nat} (hy : y ∈ live) {x : Nat} (hlow : y.1 ≤ x) (hhigh : x < y.1 + y.2) :
    site.Clear s x := by
  have hlaid := hok.laid
  obtain ⟨a, ha, hcase⟩ := (hok.arenas.alive.place y hy).2.header hlaid.placed
  rcases hcase with ⟨i, hi, hd, hset, hsize, hnot⟩ | ⟨hd, hstart, hsize⟩
  · have hblock : BlockOf site.owner (s.arenas site.owner) i (block2arena y.1) y.1 :=
      ⟨⟨a, ha, hd⟩, mem_blockSet.mp hset⟩
    refine ⟨?_, fun p a' ha' => ?_, fun j hj b hb => ?_⟩
    · have := h.block_apart hlaid hblock
      omega
    · have := hblock.header hlaid.placed ha'
      omega
    · obtain ⟨q, hblock'⟩ := hlaid.block j hj b hb
      have hne : y.1 ≠ b := hok.arenas.ne_of_free hj hb hy
      have := hblock.apart hblock' hlaid.placed hne
      have := descSize_pos j
      omega
  · have hfar := h.apart _ a ha
    refine ⟨by omega, fun p a' ha' => ?_, fun j hj b hb => ?_⟩
    · have hpos := hlaid.placed.pages_pos ha'
      rcases Nat.lt_trichotomy (block2arena y.1) p with hlt | heq | hlt
      · have := hlaid.placed.apart _ a p a' ha ha' hlt
        omega
      · omega
      · have := hlaid.placed.apart p a' _ a ha' ha hlt
        omega
    · obtain ⟨q, hblock⟩ := hlaid.block j hj b hb
      have hrange := hblock.range hlaid.placed
      have hwide := descSize_pos j
      obtain ⟨a', ha', hd'⟩ := hblock.1
      have hpos := hlaid.placed.pages_pos ha'
      rcases Nat.lt_trichotomy (block2arena y.1) q with hlt | heq | hlt
      · have := hlaid.placed.apart _ a q a' ha ha' hlt
        omega
      · subst heq
        obtain rfl := Option.some.inj (ha.symm.trans ha')
        rw [hd] at hd'
        cases hd'
      · have := hlaid.placed.apart q a' _ a ha' ha hlt
        omega

/-- What is none of the heap's own bytes is clear. -/
theorem clear_of_not_owned (hlaid : HeapLaid site.owner s)
    (h : HeapWhole site r.before.Marked s r.mem r.live) {x : Nat} (hx : ¬ r.Owns site x) :
    site.Clear s x := by
  rw [HeapRun.Owns, not_or] at hx
  obtain ⟨hdescs, hpage⟩ := hx
  have hnone : ∀ q a, s.arenas site.owner q = some a → x < q ∨ q + 4096 * a.pages ≤ x := by
    intro q a ha
    obtain ⟨hal, -, -, hmarked⟩ := hlaid.placed.range q a ha
    by_contra hc
    have hfloor : q ≤ x / pageSize * pageSize ∧ x / pageSize * pageSize < q + 4096 * a.pages := by
      rw [show pageSize = 4096 from rfl]
      omega
    have hm := hmarked (x / pageSize * pageSize) (Nat.mul_mod_left _ _) hfloor.1 hfloor.2
    refine hpage ⟨h.shown.vaddrs ▸ hm, fun hb => ?_⟩
    exact ((h.accounted.pages _).mp hb).2 ⟨q, a, ha, hfloor⟩
  refine ⟨by omega, fun p a ha => ?_, fun i hi b hb => ?_⟩
  · have := hnone p a ha
    have := hlaid.placed.pages_pos ha
    omega
  · obtain ⟨q, hblock⟩ := hlaid.block i hi b hb
    have hrange := hblock.range hlaid.placed
    have hsize := descSize_pos i
    obtain ⟨a, ha, -⟩ := hblock.1
    have := hnone q a ha
    have := hlaid.placed.pages_pos ha
    omega

/-! ### Any sequence of calls -/

/-- What the memory of a heap is to be: it has headers and lists, these are in order, and no block
or page is lost. -/
structure HeapIntact (site : HeapSite) (r : HeapRun) (s : Memory) : Prop where
  shown : Shown site s r.mem
  sound : HeapSound site.owner s r.live
  accounted : Accounted site.owner r.before.Marked r.mem.vaddrs (s.arenas site.owner)
    (s.lists site.owner) r.live
  /-- Some block of each arena of small blocks is live. -/
  inUse : ∀ p a i, s.arenas site.owner p = some a → a.desc = some ⟨site.owner, i⟩ →
    ∃ x ∈ r.live, x.1 ∈ blockSet i p

/-- The run has got to a memory that shows `s`, and `s` is in order. -/
structure HeapRun.At (site : HeapSite) (r : HeapRun) (s : Memory) : Prop where
  located : site.Ok
  whole : HeapWhole site r.before.Marked s r.mem r.live
  ok : HeapOk site.owner none s r.live

theorem HeapRun.At.malloc (h : r.At site s) (size : UInt32) :
    Prog.wp Halt.PagesShort (InMemory.sysMalloc site size) (fun q m => ∃ s',
      HeapRun.At site ⟨m, r.before, if q = 0 then r.live else (q.toNat, size.toNat) :: r.live⟩ s' ∧
        (q ≠ 0 → ∀ k < size.toNat, m.bytes (q.toNat + k) = 0)) r.mem := by
  have href := sysMalloc_refines h.located h.whole h.ok size
  have hwp := wp_sysMalloc (fun e he => he) h.ok size.toNat
  cases hrun : InMemory.sysMalloc site size r.mem with
  | error e =>
      unfold Prog.wp
      rw [hrun]
      exact hwp.of_error (href.error_of hrun)
  | ok res =>
      obtain ⟨q, m⟩ := res
      refine Prog.wp_of_run hrun ?_
      obtain ⟨p, s', hrun', hans⟩ := href.run_of hrun
      have hok := hwp.of_run hrun'
      refine ⟨s', ?_⟩
      cases p with
      | none =>
          obtain rfl : q = 0 := hans.pointer
          rw [if_pos rfl]
          exact ⟨⟨h.located, hans.whole, hok⟩, fun hc => absurd rfl hc⟩
      | some p =>
          obtain ⟨hpos, hlt⟩ := hans.place p rfl
          obtain rfl : q = UInt32.ofNat p := hans.pointer
          rw [if_neg (ofNat_ne_zero hpos hlt), toNat_ofNat_lt hlt]
          exact ⟨⟨h.located, hans.whole, hok.1⟩, fun _ => hans.zero p rfl⟩

theorem HeapRun.At.free (h : r.At site s) {x : Nat × Nat} (hx : x ∈ r.live) :
    Prog.wp (fun _ => False) (InMemory.sysFree site (UInt32.ofNat x.1)) (fun _ m => ∃ s',
      HeapRun.At site ⟨m, r.before, r.live.filter (·.1 ≠ x.1)⟩ s') r.mem := by
  have hwp := wp_sysFree (E := fun _ => False) h.ok hx
  obtain ⟨⟨u, s'⟩, hrun⟩ := hwp.returns
  obtain ⟨u', m, hrun', hwhole⟩ := (sysFree_refines h.located h.whole h.ok hx).run hrun
  exact Prog.wp_of_run hrun' ⟨s', h.located, hwhole, hwp.of_run hrun⟩

/-- A store where it may be. -/
theorem HeapRun.At.store (h : r.At site s) {addr : Nat} (byte : UInt8)
    (hen : (∃ x ∈ r.live, x.1 ≤ addr ∧ addr < x.1 + x.2) ∨ ¬ r.Owns site addr) :
    HeapRun.At site { r with mem :=
      { r.mem with bytes := Function.update r.mem.bytes addr byte } } s := by
  have hlaid := h.ok.laid
  have hclear : site.Clear s addr := by
    rcases hen with ⟨x, hx, hlow, hhigh⟩ | hnot
    · exact h.ok.clear_live h.whole.shown hx hlow hhigh
    · exact clear_of_not_owned hlaid h.whole hnot
  exact ⟨h.located, ⟨h.whole.shown.store h.located hlaid hclear byte, h.whole.accounted⟩, h.ok⟩

/-- One step. -/
theorem HeapRun.At.step (h : r.At site s) {op : HeapOp} (hen : r.Enabled site op) :
    Prog.wp Halt.PagesShort (heapOpExec site op) (fun _ r' => ∃ s', r'.At site s') r := by
  cases op with
  | malloc size =>
      have hwp := h.malloc size
      cases hrun : InMemory.sysMalloc site size r.mem with
      | error e =>
          have hexec : heapOpExec site (.malloc size) r = .error e := by rw [heapOpExec, hrun]
          unfold Prog.wp
          rw [hexec]
          exact hwp.of_error hrun
      | ok res =>
          obtain ⟨s', hat, -⟩ := hwp.of_run hrun
          refine Prog.wp_of_run (a := ()) ?_ ⟨s', hat⟩
          rw [heapOpExec, hrun]
  | free ptr =>
      obtain ⟨x, hx, hptr⟩ := List.mem_map.mp hen
      have hwp := h.free hx
      rw [hptr, UInt32.ofNat_toNat] at hwp
      obtain ⟨⟨u, m⟩, hrun⟩ := hwp.returns
      refine Prog.wp_of_run (a := ()) ?_ (hwp.of_run hrun)
      rw [heapOpExec, hrun]
  | store addr byte => exact ⟨s, h.store byte hen⟩

/-- The heap before the first call, apart from its bytes. -/
def freshMemory (site : HeapSite) (w : HeapMem) : Memory :=
  ZyOs.blockDescInit site.owner
    { descs := fun _ => ⟨0, 0, []⟩
      vaddrs := fun _ => w.vaddrs
      arenas := fun _ _ => none
      bytes := fun _ => w.bytes
      poolSize := fun _ => site.poolSize.toNat }

theorem HeapFresh.ready (h : HeapFresh site w) : HeapReady site.owner (freshMemory site w) where
  descs _ := by simp [freshMemory, ZyOs.blockDescInit]
  arenas _ := rfl
  kernel hc := (h.kernel hc).2.2
  process hc := (h.process hc).2.2
  poolSize _ := h.poolSize

theorem HeapFresh.at (h : HeapFresh site w) :
    HeapRun.At site ⟨w, w.vaddrs, []⟩ (freshMemory site w) :=
  ⟨h.ok, h.shown h.ready rfl rfl, heapReady_ok h.ready⟩

theorem HeapRun.at_of_reach (h : (heapOps site).Reach (fun _ _ => True) r) :
    ∃ s, r.At site s := by
  induction h with
  | @start r h =>
      obtain ⟨mem, before, live⟩ := r
      obtain ⟨hfresh, hbefore, hlive⟩ := h
      change before = mem.vaddrs at hbefore
      change live = [] at hlive
      subst hbefore hlive
      exact ⟨_, hfresh.at⟩
  | next _ hen _ hrun ih =>
      obtain ⟨s, hat⟩ := ih
      exact (hat.step hen).of_run hrun

/-- An arena whose blocks are all on the list counts all of them. -/
theorem HeapOk.inUse (hok : HeapOk site.owner none s live)
    (h : Accounted site.owner B (s.vaddrs site.owner) (s.arenas site.owner) (s.lists site.owner)
      live) (ha : s.arenas site.owner p = some a) (hd : a.desc = some ⟨site.owner, i⟩) :
    ∃ x ∈ live, x.1 ∈ blockSet i p := by
  have hplaced := hok.arenas.placed
  obtain ⟨hi, -⟩ := hplaced.small ha hd
  have hlt := hok.arenas.used p a i nofun ha hd
  rw [hok.arenas.listed.counted p a i ha hd, ← card_blockSet i p,
    ← hok.arenas.listed.card_free hi] at hlt
  obtain ⟨b, hb, hnot⟩ := Finset.exists_mem_notMem_of_card_lt_card hlt
  rcases h.blocks p a i ha hd b hb with hfree | ⟨x, hx, rfl⟩
  · refine absurd (List.mem_toFinset.mpr (List.mem_filter.mpr ⟨hfree, decide_eq_true ?_⟩)) hnot
    exact page_of_blockSet (hplaced.range p a ha).1 hb
  · exact ⟨x, hx, hb⟩

theorem HeapRun.At.intact (h : r.At site s) : HeapIntact site r s where
  shown := h.whole.shown
  sound := h.ok.sound
  accounted := h.whole.shown.vaddrs ▸ h.whole.accounted
  inUse _ _ _ ha hd := h.ok.inUse h.whole.accounted ha hd

/-- **The heap stays in order** over any sequence of calls and of writes to what is live: the memory
has headers and lists that are in order, what `sys_malloc` returns is zero, `sys_free` of what is
live returns, and `sys_malloc` stops only where the pages are looked for. -/
theorem heap_sound (site : HeapSite) (r : HeapRun)
    (h : (heapOps site).Reach (fun _ _ => True) r) :
    (∃ s, HeapIntact site r s) ∧
    (∀ size p m, InMemory.sysMalloc site size r.mem = .ok (p, m) → p ≠ 0 →
      ∀ k < size.toNat, m.bytes (p.toNat + k) = 0) ∧
    (∀ size e, InMemory.sysMalloc site size r.mem = .error e → e.PagesShort) ∧
    (∀ x ∈ r.live, ∃ res, InMemory.sysFree site (UInt32.ofNat x.1) r.mem = .ok res) := by
  obtain ⟨s, hat⟩ := HeapRun.at_of_reach h
  refine ⟨⟨s, hat.intact⟩, fun size p m hrun hp => ?_, fun size e hrun => ?_, fun x hx => ?_⟩
  · obtain ⟨s', -, hzero⟩ := (hat.malloc size).of_run hrun
    exact hzero hp
  · exact (hat.malloc size).of_error hrun
  · exact (hat.free hx).returns

/-! ### A heap at work -/

/-- The kernel's heap. -/
def bootSite : HeapSite := ⟨.kernel, 0xc0008000, 0x80000⟩

/-- It before its first allocation, with 128 pages. -/
def bootHeap : HeapMem :=
  ⟨InMemory.blockDescInit bootSite.descs fun _ => 0xff, ⟨⟨16, fun _ => 0⟩, kHeapStart⟩⟩

theorem bootHeap_fresh : HeapFresh bootSite bootHeap where
  descs := ⟨_, rfl⟩
  kernel _ := ⟨by decide, by decide, rfl, by decide⟩
  process h := absurd rfl h
  poolSize := by decide

/-- One more call. -/
theorem HeapRun.reach_next {op : HeapOp} {r' : HeapRun}
    (h : (heapOps site).Reach (fun _ _ => True) r) (hrun : heapOpExec site op r = .ok ((), r'))
    (hen : r.Enabled site op) : (heapOps site).Reach (fun _ _ => True) r' :=
  h.next hen trivial hrun

/-- `sys_malloc` gets what it gets with the headers and lists apart. -/
theorem HeapRun.At.run_malloc (h : r.At site s) (size : UInt32) {s' : Memory}
    (hrun : ZyOs.sysMalloc site.owner size.toNat s = .ok (some p, s')) :
    ∃ r', heapOpExec site (.malloc size) r = .ok ((), r') ∧ r'.At site s' ∧
      r'.live = (p, size.toNat) :: r.live := by
  obtain ⟨q, m, hconc, hans⟩ := (sysMalloc_refines h.located h.whole h.ok size).run hrun
  obtain ⟨hpos, hlt⟩ := hans.place p rfl
  obtain rfl : q = UInt32.ofNat p := hans.pointer
  have hok := (wp_sysMalloc (fun e (he : Halt.PagesShort e) => he) h.ok size.toNat).of_run hrun
  refine ⟨⟨m, r.before, (p, size.toNat) :: r.live⟩, ?_, ⟨h.located, hans.whole, hok.1⟩, rfl⟩
  rw [heapOpExec, hconc]
  simp only
  rw [if_neg (ofNat_ne_zero hpos hlt), toNat_ofNat_lt hlt]

/-- `sys_free` frees what it frees with the headers and lists apart. -/
theorem HeapRun.At.run_free (h : r.At site s) {x : Nat × Nat} (hx : x ∈ r.live) {u : Unit}
    {s' : Memory} (hrun : ZyOs.sysFree site.owner x.1 s = .ok (u, s')) :
    ∃ r', heapOpExec site (.free (UInt32.ofNat x.1)) r = .ok ((), r') ∧ r'.At site s' ∧
      r'.live = r.live.filter (·.1 ≠ x.1) := by
  obtain ⟨u', m, hconc, hwhole⟩ := (sysFree_refines h.located h.whole h.ok hx).run hrun
  have hok := (wp_sysFree (E := fun _ => False) h.ok hx).of_run hrun
  obtain ⟨-, -, -, -, hlt, -⟩ := h.ok.live_at hx
  refine ⟨⟨m, r.before, r.live.filter (·.1 ≠ x.1)⟩, ?_, ⟨h.located, hwhole, hok⟩, rfl⟩
  rw [heapOpExec, hconc]
  simp only
  rw [toNat_ofNat_lt hlt]

/-- Three blocks fill an arena, 5000 bytes take two pages; the first block is freed and comes
first on the list, and the second one is written. -/
theorem heap_sound_four : ∃ r, (heapOps bootSite).Reach (fun _ _ => True) r ∧
    r.live = [(0xc010100c, 5000), (0xc010080c, 600), (0xc010040c, 600)] ∧
    r.mem.bytes 0xc0100410 = 0x41 ∧
    (InMemory.listPop r.mem.bytes (freeList (descAt bootSite.descs 6))).1 = 0xc010000c ∧
    (∃ s, HeapIntact bootSite r s) ∧
    ∀ x ∈ r.live, ∃ res, InMemory.sysFree bootSite (UInt32.ofNat x.1) r.mem = .ok res := by
  have hans : Prog.answer (do
      let a ← ZyOs.sysMalloc .kernel 600
      let b ← ZyOs.sysMalloc .kernel 600
      let c ← ZyOs.sysMalloc .kernel 600
      let d ← ZyOs.sysMalloc .kernel 5000
      ZyOs.sysFree .kernel 0xc010000c
      return (a, b, c, d, (← get).lists .kernel 6)) (freshMemory bootSite bootHeap)
      = some (some 0xc010000c, some 0xc010040c, some 0xc010080c, some 0xc010100c,
          [0xc010000c]) := by
    decide
  obtain ⟨a, s₁, h₁, hrest⟩ := Prog.bind_run.mp (Prog.run_of_answer hans)
  obtain ⟨b, s₂, h₂, hrest⟩ := Prog.bind_run.mp hrest
  obtain ⟨c, s₃, h₃, hrest⟩ := Prog.bind_run.mp hrest
  obtain ⟨d, s₄, h₄, hrest⟩ := Prog.bind_run.mp hrest
  obtain ⟨u, s₅, h₅, hrest⟩ := Prog.bind_run.mp hrest
  obtain ⟨t, s₆, h₆, hrest⟩ := Prog.bind_run.mp hrest
  obtain ⟨rfl, -⟩ := Prod.mk.inj (Except.ok.inj h₆)
  have hres := (Prod.mk.inj (Except.ok.inj hrest)).1
  simp only [Prod.mk.injEq] at hres
  obtain ⟨rfl, rfl, rfl, rfl, hlist⟩ := hres
  obtain ⟨r₁, hrun₁, hat₁, hlive₁⟩ := bootHeap_fresh.at.run_malloc (p := 0xc010000c) 600 h₁
  obtain ⟨r₂, hrun₂, hat₂, hlive₂⟩ := hat₁.run_malloc (p := 0xc010040c) 600 h₂
  obtain ⟨r₃, hrun₃, hat₃, hlive₃⟩ := hat₂.run_malloc (p := 0xc010080c) 600 h₃
  obtain ⟨r₄, hrun₄, hat₄, hlive₄⟩ := hat₃.run_malloc (p := 0xc010100c) 5000 h₄
  rw [hlive₃, hlive₂, hlive₁] at hlive₄
  obtain ⟨r₅, hrun₅, hat₅, hlive₅⟩ :=
    hat₄.run_free (x := (0xc010000c, 600)) (by rw [hlive₄]; simp) h₅
  rw [hlive₄] at hlive₅
  have hin : ∃ x ∈ r₅.live, x.1 ≤ 0xc0100410 ∧ 0xc0100410 < x.1 + x.2 := by
    rw [hlive₅]
    exact ⟨(0xc010040c, 600), by decide, by decide⟩
  have hstored := hat₅.store 0x41 (.inl hin)
  have hfree : r₄.Enabled bootSite (.free 0xc010000c) := by
    show _ ∈ r₄.live.map Prod.fst
    rw [hlive₄]
    simp
  have hstore : r₅.Enabled bootSite (.store 0xc0100410 0x41) := .inl hin
  have hreach := HeapRun.reach_next (.start ⟨bootHeap_fresh, rfl, rfl⟩) hrun₁ trivial
  replace hreach := HeapRun.reach_next hreach hrun₂ trivial
  replace hreach := HeapRun.reach_next hreach hrun₃ trivial
  replace hreach := HeapRun.reach_next hreach hrun₄ trivial
  replace hreach := HeapRun.reach_next hreach hrun₅ hfree
  replace hreach := HeapRun.reach_next hreach rfl hstore
  have hsound := heap_sound bootSite _ hreach
  refine ⟨_, hreach, hlive₅, rfl, ?_, hsound.1, hsound.2.2.2⟩
  have hshown := hstored.whole.shown.lists 6 (by decide)
  change s₅.lists bootSite.owner 6 = _ at hlist
  rw [hlist] at hshown
  rw [InMemory.listPop_first hshown]
  rfl

end ZyOs
