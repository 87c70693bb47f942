/-
Address spaces that come into being: `create_page_dir`, `create_user_vaddr_bitmap` and
`process_execute`.

`Keeps` compares two states for everybody who is already there: the pages of his process, what
stands in them and which of them are taken are the same, and so are the pages of the kernel that
are in use.  All functions that take pages have it (`Got.keeps`).
-/
import ZyOs.Proofs.AddressFree

namespace ZyOs.Paged

open Library Prog

variable {s s' s₁ s₂ : PagedMem} {dir dir' dir₁ dir₂ : Nat → Option Nat}
  {owner owner' owner₁ owner₂ : Nat → Owner} {a b c : Context} {pf : PoolFlag}
  {d f g i n p q t u lo : Nat} {vaddr : UInt32} {U U' H H' S : Nat → Prop}

/-! ### What the others notice -/

/-- The processes `U` and the kernel's pages but for `H` are as they were. -/
structure Keeps (U H : Nat → Prop) (s : PagedMem) (dir : Nat → Option Nat) (s' : PagedMem)
    (dir' : Nat → Option Nat) : Prop where
  dirs : ∀ u d, dir u = some d → dir' u = some d
  vaddr : ∀ u, U u → dir u ≠ none → s'.vaddrOf (.process u) = s.vaddrOf (.process u)
  maps : ∀ u p, U u → dir u ≠ none → (Context.process u).HasPage p →
    s'.map dir' (.process u) p = s.map dir (.process u) p
  words : ∀ u p f i, U u → (Context.process u).HasPage p → s.map dir (.process u) p = some f →
    i < 1024 → s'.phys.word f i = s.phys.word f i
  kernel : ∀ p f, Context.kernel.HeapPage p → ¬ H p → s.map dir .kernel p = some f →
    s'.map dir' .kernel p = some f
  heap : ∀ p f, Context.kernel.HeapPage p → ¬ H p → s.map dir .kernel p = some f →
    (∀ t, dir t ≠ some f) → (∀ t, dir' t ≠ some f) ∧
      ∀ i < 1024, s'.phys.word f i = s.phys.word f i

theorem dir_of_map (h : s.map dir (.process u) p = some f) : dir u ≠ none := by
  obtain ⟨d, hd, -⟩ := directory_of_mapping h
  rw [show dir u = some d from hd]
  exact Option.some_ne_none d

theorem Keeps.trans (h : Keeps U H s dir s₁ dir₁) (h' : Keeps U' H' s₁ dir₁ s₂ dir₂)
    (hU : ∀ u, U u → dir u ≠ none → U' u)
    (hH : ∀ p, ¬ H p → s.map dir .kernel p ≠ none → ¬ H' p) : Keeps U H s dir s₂ dir₂ := by
  have hsome : ∀ u, dir u ≠ none → dir₁ u ≠ none := by
    intro u hu
    obtain ⟨d, hd⟩ := Option.ne_none_iff_exists'.mp hu
    rw [h.dirs u d hd]
    exact Option.some_ne_none d
  refine ⟨fun u d hu => h'.dirs u d (h.dirs u d hu), ?_, ?_, ?_, ?_, ?_⟩
  · intro u hu hdir
    rw [h'.vaddr u (hU u hu hdir) (hsome u hdir), h.vaddr u hu hdir]
  · intro u p hu hdir hp
    rw [h'.maps u p (hU u hu hdir) (hsome u hdir) hp, h.maps u p hu hdir hp]
  · intro u p f i hu hp hmap hi
    have hdir := dir_of_map hmap
    rw [h'.words u p f i (hU u hu hdir) hp ((h.maps u p hu hdir hp).trans hmap) hi,
      h.words u p f i hu hp hmap hi]
  · intro p f hp hnot hmap
    exact h'.kernel p f hp (hH p hnot (by simp [hmap])) (h.kernel p f hp hnot hmap)
  · intro p f hp hnot hmap hdir
    obtain ⟨hdir₁, hwords₁⟩ := h.heap p f hp hnot hmap hdir
    obtain ⟨hdir₂, hwords₂⟩ :=
      h'.heap p f hp (hH p hnot (by simp [hmap])) (h.kernel p f hp hnot hmap) hdir₁
    exact ⟨hdir₂, fun i hi => (hwords₂ i hi).trans (hwords₁ i hi)⟩

theorem Keeps.refl : Keeps U H s dir s dir :=
  ⟨fun _ _ h => h, fun _ _ _ => rfl, fun _ _ _ _ _ => rfl, fun _ _ _ _ _ _ _ _ => rfl,
    fun _ _ _ _ hmap => hmap, fun _ _ _ _ _ hdir => ⟨hdir, fun _ _ => rfl⟩⟩

theorem Keeps.next (h : Keeps U H s dir s₁ dir₁) (h' : Keeps U H s₁ dir₁ s₂ dir₂) :
    Keeps U H s dir s₂ dir₂ :=
  h.trans h' (fun _ hu _ => hu) fun _ hp _ => hp

theorem Keeps.mono (h : Keeps U H s dir s' dir') (hU : ∀ u, U' u → U u) (hH : ∀ p, H p → H' p) :
    Keeps U' H' s dir s' dir' :=
  ⟨h.dirs, fun u hu => h.vaddr u (hU u hu), fun u p hu => h.maps u p (hU u hu),
    fun u p f i hu => h.words u p f i (hU u hu),
    fun p f hp hnot => h.kernel p f hp fun hc => hnot (hH p hc),
    fun p f hp hnot => h.heap p f hp fun hc => hnot (hH p hc)⟩

/-- Everybody but who takes the pages. -/
theorem Grow.keeps (h : Owned s dir owner) (hgrow : Grow dir a S s owner s' owner')
    (hnew : ∀ q, S q → s.map dir a q = none) :
    Keeps (fun u => a ≠ .process u) (fun _ => False) s dir s' dir where
  dirs _ _ hu := hu
  vaddr u hu _ := hgrow.vaddrs _ hu.symm
  maps u p hu _ hp := hgrow.maps _ p hp fun hc => hu hc.1.symm
  words u p f i hu hp hmap hi := by
    have hplain := h.plain_process hp hmap
    exact hgrow.words _ p f i (h.layout.page _ p f hp hmap) hplain.notDir (mapping_lt hmap) hi
  kernel p f hp _ hmap := by
    rw [hgrow.maps _ p hp.hasPage, hmap]
    rintro ⟨rfl, hS⟩
    rw [hnew p hS] at hmap
    cases hmap
  heap p f hp _ hmap hdir := ⟨hdir, fun i hi =>
    hgrow.words _ p f i (h.layout.page _ p f hp.hasPage hmap) hdir (mapping_lt hmap) hi⟩

theorem Got.keeps (h : Owned s dir owner) (hgot : Got dir a lo n s owner s' owner') :
    Keeps (fun u => a ≠ .process u) (fun _ => False) s dir s' dir :=
  hgot.grow.keeps h hgot.free

/-! ### All that is marked is mapped -/

/-- The pages that are marked as taken are there. -/
def Exact (s : PagedMem) (dir : Nat → Option Nat) : Prop :=
  ∀ (a : Context) p, a.directory dir ≠ none → a.HasPage p → (s.vaddrOf a).Holds p →
    s.map dir a p ≠ none

/-- Everybody but whose pages are given back. -/
theorem Lost.keeps (h : Owned s dir owner) (hlost : Lost dir a lo n s owner s' owner') :
    Keeps (fun u => a ≠ .process u) (fun q => a = .kernel ∧ From lo n q) s dir s' dir where
  dirs _ _ hu := hu
  vaddr u hu _ := hlost.shrink.vaddrs _ hu.symm
  maps u p hu _ hp := hlost.shrink.maps _ p hp fun hc => hu hc.1.symm
  words u p f i hu hp hmap hi := by
    have howner := h.layout.page _ p f hp hmap
    exact hlost.shrink.words f i (by simp [howner]) (mapping_lt hmap) hi
  kernel p f hp hnot hmap := by
    rw [hlost.shrink.maps _ p hp.hasPage fun hc => hnot ⟨hc.1.symm, hc.2⟩, hmap]
  heap p f hp _ hmap hdir := by
    have howner := h.layout.page _ p f hp.hasPage hmap
    exact ⟨hdir, fun i hi => hlost.shrink.words f i (by simp [howner]) (mapping_lt hmap) hi⟩

/-- Everybody but whose page is written to. -/
theorem Keeps.write (h : Owned s dir owner) (hp : a.HasPage p) (hmap : s.map dir a p = some f)
    (hplain : Layout.Plain dir owner f) (l m : Nat) (w : Nat → UInt32) :
    Keeps (fun u => a ≠ .process u) (fun q => a = .kernel ∧ q = p) s dir (s.write f l m w) dir := by
  have hmaps := (h.write hplain l m w).2
  refine ⟨fun _ _ hu => hu, fun u _ _ => rfl, fun u q _ _ hq => hmaps _ q hq, ?_,
    fun q g hq _ hg => (hmaps _ q hq.hasPage).trans hg, ?_⟩
  · intro u q g i hu hq hg hi
    refine PagedMem.word_write_ne (mapping_lt hg) hi ?_
    rintro rfl
    exact hu (h.layout.page_inj hp hq hmap hg).1
  · intro q g hq hnot hg hdir
    refine ⟨hdir, fun i hi => ?_⟩
    refine PagedMem.word_write_ne (mapping_lt hg) hi ?_
    rintro rfl
    obtain ⟨ha, hqp⟩ := h.layout.page_inj hp hq.hasPage hmap hg
    exact hnot ⟨ha, hqp.symm⟩

theorem Got.exact (hexact : Exact s dir) (hgot : Got dir a lo n s owner s' owner') : Exact s' dir := by
  intro b q hb hq hholds
  by_cases hnew : b = a ∧ From lo n q
  · obtain ⟨rfl, hin⟩ := hnew
    obtain ⟨f, hf, -⟩ := hgot.gained q hin
    rw [hf]
    exact Option.some_ne_none f
  · rw [hgot.grow.maps b q hq hnew]
    refine hexact b q hb hq ?_
    by_cases hba : b = a
    · subst hba
      have hmarked := (hgot.takes.marked _).mp hholds.marked
      refine ⟨hmarked.resolve_right fun hc => hnew ⟨rfl, by omega, by omega⟩, ?_⟩
      have hhigh := hholds.high
      rwa [hgot.takes.start, hgot.takes.len] at hhigh
    · rwa [hgot.grow.vaddrs b hba] at hholds

theorem Lost.exact (hexact : Exact s dir) (hlost : Lost dir a lo n s owner s' owner') :
    Exact s' dir := by
  intro b q hb hq hholds
  have hother : ¬ (b = a ∧ From lo n q) := by
    rintro ⟨rfl, hin⟩
    have hmarked := (hlost.marked _).mp hholds.marked
    exact hmarked.2 ⟨by omega, by omega⟩
  rw [hlost.shrink.maps b q hq hother]
  refine hexact b q hb hq ?_
  by_cases hba : b = a
  · subst hba
    have hhigh := hholds.high
    rw [hlost.start, hlost.len] at hhigh
    exact ⟨((hlost.marked _).mp hholds.marked).1, hhigh⟩
  · rwa [hlost.shrink.vaddrs b hba] at hholds

/-! ### Records of tasks -/

theorem task_withTask (s : PagedMem) (t : Nat) (p : PageTask) :
    (s.withTask t p).task t = p := if_pos rfl

theorem task_withTask_ne {p : PageTask} (h : u ≠ t) : (s.withTask t p).task u = s.task u := if_neg h

theorem vaddrOf_withTask_ne {p : PageTask} (h : a ≠ .process t) :
    (s.withTask t p).vaddrOf a = s.vaddrOf a := by
  cases a with
  | kernel => rfl
  | process u =>
      have hne : u ≠ t := by
        rintro rfl
        exact h rfl
      show ((s.withTask t p).task u).userProcessVaddr = _
      rw [task_withTask_ne hne]
      rfl

/-- A page of the heap that was free is nobody's PCB. -/
theorem Owned.no_task (h : Owned s dir owner) (hheap : Context.kernel.HeapPage lo)
    (hfree : s.map dir .kernel lo = none) : 4096 * lo ∉ s.tasks ∧ dir (4096 * lo) = none := by
  have hnot : ¬ (4096 * lo ∈ s.tasks ∨ dir (4096 * lo) ≠ none) := by
    intro ht
    rcases h.pcb _ ht with hmain | ⟨q, hq, -, hmap⟩
    · have hlow := hheap.1
      omega
    · rw [show q = lo by omega] at hmap
      exact hmap hfree
  exact ⟨fun hc => hnot (.inl hc), by_contra fun hc => hnot (.inr hc)⟩

/-- The record of a task that is not running yet. -/
theorem Owned.withTask (h : Owned s dir owner) (hdir : dir t = none) (hnew : t ∉ s.tasks)
    (r : PageTask) : Owned (s.withTask t r) dir owner := by
  have hvaddr : ∀ (b : Context) d, b.directory dir = some d →
      (s.withTask t r).vaddrOf b = s.vaddrOf b := by
    intro b d hb
    refine vaddrOf_withTask_ne ?_
    rintro rfl
    rw [show dir t = some d from hb] at hdir
    cases hdir
  refine ⟨h.layout, fun pf => ?_, h.low, h.apart, fun pf => ?_, fun b => ?_, ?_, ?_, ?_, ?_, h.pcb⟩
  · have hpool := h.pool pf
    cases pf <;> exact hpool
  · have hused := h.used pf
    cases pf <;> exact hused
  · have hhome := h.home b
    cases b <;> exact hhome
  · intro b d hb
    rw [hvaddr b d hb]
    exact h.covers b d hb
  · intro b q f hq hf
    obtain ⟨d, hd, -⟩ := directory_of_mapping hf
    rw [hvaddr b d hd]
    exact h.marked b q f hq hf
  · intro u d hu
    rw [task_withTask_ne (by rintro rfl; rw [hdir] at hu; cases hu)]
    exact h.pgDir u d hu
  · intro u hu hnone
    rw [task_withTask_ne (by rintro rfl; exact hnew hu)]
    exact h.thread u hu hnone

theorem Keeps.withTask (hdir : dir t = none) (r : PageTask) :
    Keeps U H s dir (s.withTask t r) dir := by
  refine ⟨fun _ _ hu => hu, fun u _ hu => ?_, fun _ _ _ _ _ => rfl, fun _ _ _ _ _ _ _ _ => rfl,
    fun _ _ _ _ hmap => hmap, fun _ _ _ _ _ hnot => ⟨hnot, fun _ _ => rfl⟩⟩
  refine vaddrOf_withTask_ne ?_
  rintro ⟨⟩
  exact hu hdir

theorem Exact.withTask (hexact : Exact s dir) (hdir : dir t = none) (r : PageTask) :
    Exact (s.withTask t r) dir := by
  intro b q hb hq hholds
  refine hexact b q hb hq ?_
  rwa [vaddrOf_withTask_ne] at hholds
  rintro rfl
  exact hb hdir

/-- A task that is ready to run. -/
theorem Owned.addTask (h : Owned s dir owner) (hthread : dir t = none → (s.task t).pgDir = 0)
    (hpcb : ∃ q, t = 4096 * q ∧ Context.kernel.HeapPage q ∧ s.map dir .kernel q ≠ none) :
    Owned { s with tasks := s.tasks ++ [t] } dir owner := by
  refine ⟨h.layout, fun pf => ?_, h.low, h.apart, fun pf => ?_, fun b => ?_, fun b => ?_, fun b => ?_,
    h.pgDir, ?_, ?_⟩
  · have hpool := h.pool pf
    cases pf <;> exact hpool
  · have hused := h.used pf
    cases pf <;> exact hused
  · have hhome := h.home b
    cases b <;> exact hhome
  · have hcovers := h.covers b
    cases b <;> exact hcovers
  · have hmarked := h.marked b
    cases b <;> exact hmarked
  · intro u hu hdir
    rcases List.mem_append.mp hu with hu | hu
    · exact h.thread u hu hdir
    · obtain rfl := List.mem_singleton.mp hu
      exact hthread hdir
  · intro u hu
    rcases hu with hu | hu
    · rcases List.mem_append.mp hu with hu | hu
      · exact h.pcb u (.inl hu)
      · obtain rfl := List.mem_singleton.mp hu
        exact .inr hpcb
    · exact h.pcb u (.inr hu)

/-! ### A directory -/

/-- A directory with the kernel's half and nothing in the user's. -/
structure NewDir (phys : PhysMem) (d : Nat) : Prop where
  self : IsDir phys d
  share : ∀ i, 768 ≤ i → i < 1023 → phys.word d i = phys.word 256 i
  empty : ∀ i < 768, ¬ isPresent (phys.word d i)

/-- A page that has just been got is written to. -/
theorem Got.write (hgot : Got dir a lo n s owner s' owner') (h : Owned s dir owner)
    (hin : From lo n p) (hmap : s'.map dir a p = some f) (l m : Nat) (w : Nat → UInt32) :
    Got dir a lo n s owner (s'.write f l m w) owner' ∧
      ∀ b q, b.HasPage q → (s'.write f l m w).map dir b q = s'.map dir b q := by
  obtain ⟨g, hg, hnobody⟩ := hgot.gained p hin
  rw [hmap] at hg
  cases hg
  have hplain : Layout.Plain dir owner' f :=
    hgot.owned.plain (hgot.heap p hin).hasPage hmap fun t ht =>
      h.layout.owner_directory (a := .process t) ht hnobody
  obtain ⟨howned, hmaps⟩ := hgot.owned.write hplain l m w
  refine ⟨⟨howned, hgot.grow.write hgot.owned hplain hnobody l m w, ?_, hgot.heap, hgot.free, ?_,
    fun F hF => (hgot.books F hF).congr fun pf => by cases pf <;> rfl⟩, hmaps⟩
  · have hvaddr : (s'.write f l m w).vaddrOf a = s'.vaddrOf a := by cases a <;> rfl
    rw [hvaddr]
    exact hgot.takes
  · intro q hq
    rw [hmaps a q (hgot.heap q hq).hasPage]
    exact hgot.gained q hq

/-- `create_page_dir` -/
theorem createPageDir_spec (h : Owned s dir owner) (hc : c.directory dir = some (frameNo s.cr3)) :
    wp Halt.PagesShort createPageDir (fun r s' => ∃ lo d owner', r = UInt32.ofNat (4096 * lo) ∧
      Got dir .kernel lo 1 s owner s' owner' ∧ s'.map dir .kernel lo = some d ∧ owner d = .nobody ∧
      NewDir s'.phys d) s := by
  refine wp_bind (wp_mono (getPages_spec (a := .kernel) (n := 1) h hc (.inl rfl) (.inl rfl)
    (.inl rfl)) ?_)
  rintro r s₁ ⟨lo, owner₁, rfl, hgot₁, -, hzero⟩
  have hin : From lo 1 lo := ⟨le_rfl, by omega⟩
  have hheap := hgot₁.heap lo hin
  have hpage := hheap.hasPage
  have hlt := hpage.lt
  obtain ⟨d, hmap₁, hnobody⟩ := hgot₁.gained lo hin
  have hdlt : d < 2 ^ 20 := mapping_lt hmap₁
  have hc₁ : c.directory dir = some (frameNo s₁.cr3) := by rw [hgot₁.grow.cr3, hc]
  have hdir₁ := hgot₁.owned.isDir hc₁
  have hplain : Layout.Plain dir owner₁ d := hgot₁.owned.plain hpage hmap₁ fun t ht =>
    h.layout.owner_directory (a := .process t) ht hnobody
  have hne := hplain.ne_directory hgot₁.owned.layout hc₁
  have hne256 := hplain.ne_directory hgot₁.owned.layout (a := .kernel) rfl
  have hv : (UInt32.ofNat (4096 * lo)).toNat = 4096 * lo := by
    rw [UInt32.toNat_ofNat']
    omega
  -- the upper quarter of the directory in use
  have hdst : (UInt32.ofNat (4096 * lo) + 0x300 * 4).toNat = 4096 * lo + 4 * 768 := by
    rw [UInt32.toNat_add, hv]
    simp only [UInt32.reduceToNat, UInt32.reduceMul]
    omega
  have hsrc : ((0xfffff000 : UInt32) + 0x300 * 4).toNat
      = 4096 * (1023 * 1024 + 1023) + 4 * 768 := rfl
  have htable : frameNo (s₁.phys.word (frameNo s₁.cr3) ((1023 * 1024 + 1023) / 1024)) ≠ d := by
    rw [show (1023 * 1024 + 1023) / 1024 = 1023 by omega, hdir₁.frame]
    exact hne
  have hcopy := copyWords_run (n := 256) (hgot₁.owned.writable hc₁ (.inl rfl) hpage hmap₁ hplain)
    (by omega) hdir₁.window_self hne htable hdst hsrc (by omega) (by omega)
  obtain ⟨hgot₂, hmaps₂⟩ := hgot₁.write h hin hmap₁ 768 (768 + 256)
    fun k => s₁.phys.word (frameNo s₁.cr3) (k - 768 + 768)
  set s₂ := s₁.write d 768 (768 + 256) fun k => s₁.phys.word (frameNo s₁.cr3) (k - 768 + 768)
    with hs₂
  have hmap₂ : s₂.map dir .kernel lo = some d := (hmaps₂ .kernel lo hpage).trans hmap₁
  have hc₂ : c.directory dir = some (frameNo s₂.cr3) := hc₁
  -- its last entry
  have hlast : (UInt32.ofNat (4096 * lo) + 1023 * 4).toNat = 4096 * lo + 4 * 1023 := by
    rw [UInt32.toNat_add, hv]
    simp only [UInt32.reduceToNat, UInt32.reduceMul]
    omega
  have hframe : s₂.frame ((UInt32.ofNat (4096 * lo) + 1023 * 4).toNat / 4096) = some d := by
    rw [hlast, show (4096 * lo + 4 * 1023) / 4096 = lo by omega, hgot₂.owned.frame hc₂ (.inl rfl) hpage]
    exact hmap₂
  have hstore := storeWord_run (u := tableEntry (4096 * d)) hframe (by rw [hlast]; omega)
  rw [hlast, show (4096 * lo + 4 * 1023) % 4096 / 4 = 1023 by omega] at hstore
  obtain ⟨hgot₃, hmaps₃⟩ := hgot₂.write h hin hmap₂ 1023 (1023 + 1) fun _ => tableEntry (4096 * d)
  refine wp_bind (wp_of_run hcopy ?_)
  refine wp_bind (wp_of_run (translate_run hgot₂.owned hc₂ (.inl rfl) hpage hv hmap₂) ?_)
  refine wp_bind (wp_of_run hstore (wp_pure ⟨lo, d, owner₁, rfl, hgot₃, ?_, hnobody, ?_⟩))
  · exact (hmaps₃ .kernel lo hpage).trans hmap₂
  -- what stands in it now
  have hword₂ : ∀ i < 1024, s₂.phys.word d i = if 768 ≤ i then s₁.phys.word (frameNo s₁.cr3) i else 0 := by
    intro i hi
    rw [hs₂, PagedMem.word_write hdlt hi]
    by_cases hupper : 768 ≤ i
    · rw [if_pos ⟨rfl, hupper, by omega⟩, if_pos hupper, show i - 768 + 768 = i by omega]
    · rw [if_neg fun hc => hupper hc.2.1, if_neg hupper]
      exact hzero lo d i hin hmap₁ hi
  have hword : ∀ i < 1024, (s₂.write d 1023 (1023 + 1) fun _ => tableEntry (4096 * d)).phys.word d i
      = if i = 1023 then tableEntry (4096 * d)
        else if 768 ≤ i then s₁.phys.word (frameNo s₁.cr3) i else 0 := by
    intro i hi
    rw [PagedMem.word_write hdlt hi, hword₂ i hi]
    refine if_congr ?_ rfl rfl
    omega
  have hword256 : ∀ i < 1024, (s₂.write d 1023 (1023 + 1) fun _ => tableEntry (4096 * d)).phys.word 256 i
      = s₁.phys.word 256 i := by
    intro i hi
    rw [PagedMem.word_write_ne (by omega) hi hne256, hs₂, PagedMem.word_write_ne (by omega) hi hne256]
  refine ⟨⟨?_, ?_⟩, fun i hi hi' => ?_, fun i hi => ?_⟩
  · rw [hword 1023 (by omega), if_pos rfl]
    exact isPresent_tableEntry _
  · rw [hword 1023 (by omega), if_pos rfl, frameNo_tableEntry hdlt]
  · rw [hword i (by omega), if_neg (by omega), if_pos hi, hword256 i (by omega)]
    exact hgot₁.owned.layout.word_seen hc₁ (.inl rfl) (a := .kernel) rfl ⟨hi, hi'⟩
  · rw [hword i (by omega), if_neg (by omega), if_neg (by omega)]
    exact Layout.not_present_zero

/-- The directory of a new process is entered in its PCB. -/
theorem Owned.register (h : Owned s dir owner) (hnew : dir t = none) (hnot : t ∉ s.tasks)
    (hheap : Context.kernel.HeapPage q) (hmap : s.map dir .kernel q = some d)
    (hother : ∀ u, dir u ≠ some d) (hd : NewDir s.phys d)
    (hcovers : (Context.process t).Covers (s.task t).userProcessVaddr)
    (hpcb : ∃ r, t = 4096 * r ∧ Context.kernel.HeapPage r ∧ s.map dir .kernel r ≠ none) :
    Owned (s.withTask t { s.task t with pgDir := UInt32.ofNat (4096 * q) })
      (Function.update dir t (some d)) owner := by
  have howner := h.layout.page .kernel q d hheap.hasPage hmap
  have hlt := hheap.hasPage.lt
  have hlayout := h.layout.addDir hnew howner hother hd.self hd.share hd.empty
  have hmaps : ∀ b p, b ≠ .process t →
      (s.withTask t { s.task t with pgDir := UInt32.ofNat (4096 * q) }).map
        (Function.update dir t (some d)) b p = s.map dir b p :=
    fun b p hb => Layout.mapping_addDir hb
  have hdirs : ∀ u e, Function.update dir t (some d) u = some e → u = t ∧ e = d ∨ u ≠ t ∧ dir u = some e := by
    intro u e hu
    by_cases hut : u = t
    · subst hut
      rw [Function.update_self] at hu
      exact .inl ⟨rfl, (Option.some.inj hu).symm⟩
    · rw [Function.update_of_ne hut] at hu
      exact .inr ⟨hut, hu⟩
  have hspaces : ∀ (b : Context) e, b.directory (Function.update dir t (some d)) = some e →
      b = .process t ∨ b ≠ .process t ∧ b.directory dir = some e := by
    intro b e hb
    cases b with
    | kernel => exact .inr ⟨by simp, hb⟩
    | process u =>
        rcases hdirs u e hb with ⟨rfl, -⟩ | ⟨hut, hu⟩
        · exact .inl rfl
        · exact .inr ⟨by simp [hut], hu⟩
  have hvaddr : ∀ b, b ≠ .process t →
      (s.withTask t { s.task t with pgDir := UInt32.ofNat (4096 * q) }).vaddrOf b = s.vaddrOf b :=
    fun b hb => vaddrOf_withTask_ne hb
  refine ⟨hlayout, fun pf => ?_, h.low, h.apart, fun pf => ?_, fun b => ?_, ?_, ?_, ?_, ?_, ?_⟩
  · have hpool := h.pool pf
    cases pf <;> exact hpool
  · have hused := h.used pf
    cases pf <;> exact hused
  · have hhome := h.home b
    cases b <;> exact hhome
  · intro b e hb
    rcases hspaces b e hb with rfl | ⟨hbt, hb⟩
    · show (Context.process t).Covers ((s.withTask t _).task t).userProcessVaddr
      rw [task_withTask]
      exact hcovers
    · rw [hvaddr b hbt]
      exact h.covers b e hb
  · intro b p f hp hf
    obtain ⟨e, he, hframe⟩ := directory_of_mapping hf
    rcases hspaces b e he with rfl | ⟨hbt, -⟩
    · rcases hdirs t e he with ⟨-, rfl⟩ | ⟨hc, -⟩
      · exact absurd (present_of_pageFrame hframe) (hd.empty _ hp.hasPage)
      · exact absurd rfl hc
    · rw [hmaps b p hbt] at hf
      rw [hvaddr b hbt]
      exact h.marked b p f hp hf
  · intro u e hu
    rcases hdirs u e hu with ⟨rfl, rfl⟩ | ⟨hut, hu⟩
    · rw [task_withTask]
      have hv : (UInt32.ofNat (4096 * q)).toNat = 4096 * q := by
        rw [UInt32.toNat_ofNat']
        omega
      refine ⟨fun hc => ?_, q, hv, hheap, hmap⟩
      have hzero : (UInt32.ofNat (4096 * q)).toNat = 0 := by
        rw [show UInt32.ofNat (4096 * q) = 0 from hc]
        rfl
      have hlow := hheap.1
      omega
    · rw [task_withTask_ne hut]
      exact h.pgDir u e hu
  · intro u hu hnone
    have hut : u ≠ t := by
      rintro rfl
      exact hnot hu
    rw [task_withTask_ne hut]
    rw [Function.update_of_ne hut] at hnone
    exact h.thread u hu hnone
  · intro u hu
    by_cases hut : u = t
    · subst hut
      exact .inr hpcb
    · rw [Function.update_of_ne hut] at hu
      exact h.pcb u hu

/-- Of the others only the page that becomes the directory is not what it was. -/
theorem Keeps.register (hnew : dir t = none) (hmap : s.map dir .kernel q = some d)
    (h : Owned s dir owner) (hheap : Context.kernel.HeapPage q) (r : PageTask) :
    Keeps U (· = q) s dir (s.withTask t r) (Function.update dir t (some d)) := by
  have hne : ∀ u, dir u ≠ none → u ≠ t := by
    rintro u hu rfl
    exact hu hnew
  refine ⟨fun u e hu => ?_, fun u _ hu => ?_, fun u p _ hu _ => ?_, fun _ _ _ _ _ _ _ _ => rfl,
    fun _ _ _ _ hpf => hpf, ?_⟩
  · rw [Function.update_of_ne (hne u (by simp [hu])), hu]
  · exact vaddrOf_withTask_ne (by simp [hne u hu])
  · exact Layout.mapping_addDir (by simp [hne u hu])
  · intro p f hp hnot hpf hdir
    refine ⟨fun u hu => ?_, fun _ _ => rfl⟩
    by_cases hut : u = t
    · subst hut
      rw [Function.update_self] at hu
      rw [← Option.some.inj hu] at hpf
      exact hnot (h.layout.page_inj hp.hasPage hheap.hasPage hpf hmap).2
    · rw [Function.update_of_ne hut] at hu
      exact hdir u hu

/-! ### `process_execute` -/

theorem marked_iff_bit {v : VirtualAddr} (hv : v.Fits) (hi : i < 8 * v.vaddrBitmap.bmapBytesLen) :
    v.Marked (4096 * (v.vaddrStart / 4096 + i)) ↔ v.vaddrBitmap.bitmapScanTest i = true := by
  have haligned := hv.aligned
  have htop := hv.top
  unfold VirtualAddr.Marked
  rw [show (4096 * (v.vaddrStart / 4096 + i) - v.vaddrStart) / 4096 = i by omega]
  exact ⟨fun h => h.2.2.2, fun h => ⟨by omega, by omega, by omega, h⟩⟩

/-- What is left of a run when the first free page is taken. -/
theorem hasRun_after_first {v v' : VirtualAddr} (hv : v.Fits) (hrun : v.vaddrBitmap.HasRun (n + 1))
    (htakes : TakesPages v v' (4096 * lo) 1) (hfull : FullBelow v lo) : v'.vaddrBitmap.HasRun n := by
  have haligned := hv.aligned
  obtain ⟨i, hi, hfree⟩ := hrun
  have hle : lo ≤ v.vaddrStart / 4096 + i := by
    by_contra hlt
    have hmarked := hfull (v.vaddrStart / 4096 + i) (by omega) (by omega)
    rw [marked_iff_bit hv (by omega)] at hmarked
    have hbit : v.vaddrBitmap.bitmapScanTest i = false := hfree 0 (by omega)
    rw [hbit] at hmarked
    cases hmarked
  refine ⟨i + 1, by rw [htakes.len]; omega, fun k hk => ?_⟩
  have hv' : v'.Fits := hv.congr htakes.start htakes.len
  have hbit : v.vaddrBitmap.bitmapScanTest (i + (1 + k)) = false := hfree (1 + k) (by omega)
  refine Bool.eq_false_iff.mpr fun hset => ?_
  have hmarked := (marked_iff_bit hv' (by rw [htakes.len]; omega)).mpr hset
  rw [htakes.start, htakes.marked] at hmarked
  rcases hmarked with hmarked | hin
  · rw [Nat.add_assoc, marked_iff_bit hv (by omega), hbit] at hmarked
    cases hmarked
  · omega

/-- The virtual addresses of a new process. -/
theorem covers_new (t : Nat) :
    (Context.process t).Covers ⟨⟨userBitmapLen, fun _ => 0⟩, userVaddrStart⟩ := by
  have hlen : userBitmapLen = 94199 := by decide
  have hstart : userVaddrStart = 0x8048000 := rfl
  refine ⟨⟨by simp only [hstart]; omega, by simp only [hstart], by simp only [hstart, hlen]; omega⟩, ?_⟩
  intro i hi
  simp only [hlen] at hi
  show userVaddrStart / 4096 + i < 768 * 1024
  rw [hstart]
  omega

/-- The task `t` is being made: it has a PCB and no directory. -/
structure Making (s : PagedMem) (dir : Nat → Option Nat) (t : Nat) (s' : PagedMem)
    (owner' : Nat → Owner) : Prop where
  owned : Owned s' dir owner'
  exact : Exact s' dir
  books : Books (fun _ => False) s' owner'
  new : dir t = none
  notTask : t ∉ s.tasks
  keeps : Keeps (fun _ => True) (fun _ => False) s dir s' dir
  pcb : ∃ q, t = 4096 * q ∧ Context.kernel.HeapPage q ∧ s'.map dir .kernel q ≠ none
  tasks : s'.tasks = s.tasks
  cur : s'.cur = s.cur
  cr3 : s'.cr3 = s.cr3

namespace Making

/-- A page for the PCB. -/
theorem start (h : Owned s dir owner) (hexact : Exact s dir)
    (hbooks : Books (fun _ => False) s owner) (hgot : Got dir .kernel lo 1 s owner s' owner') :
    Making s dir (4096 * lo) s' owner' := by
  have hin : From lo 1 lo := ⟨le_rfl, by omega⟩
  have hheap := hgot.heap lo hin
  obtain ⟨hnot, hnew⟩ := h.no_task hheap (hgot.free lo hin)
  obtain ⟨f, hf, -⟩ := hgot.gained lo hin
  refine ⟨hgot.owned, hgot.exact hexact, hgot.books _ hbooks, hnew, hnot, ?_,
    ⟨lo, rfl, hheap, by simp [hf]⟩, hgot.grow.tasks, hgot.grow.cur, hgot.grow.cr3⟩
  exact (hgot.keeps h).mono (fun _ _ => by simp) fun _ h => h

/-- More pages of the kernel. -/
theorem got (h : Making s dir t s₁ owner₁) (hgot : Got dir .kernel lo n s₁ owner₁ s₂ owner₂) :
    Making s dir t s₂ owner₂ := by
  obtain ⟨q, hq, hheap, hmap⟩ := h.pcb
  have hkeeps := hgot.keeps h.owned
  refine ⟨hgot.owned, hgot.exact h.exact, hgot.books _ h.books, h.new, h.notTask, ?_,
    ⟨q, hq, hheap, ?_⟩, hgot.grow.tasks.trans h.tasks, hgot.grow.cur.trans h.cur, hgot.grow.cr3.trans h.cr3⟩
  · exact h.keeps.trans hkeeps (fun _ _ _ => by simp) fun _ _ _ h => h
  · rw [hgot.grow.maps .kernel q hheap.hasPage fun hc => hmap (hgot.free q hc.2)]
    exact hmap

/-- Its record is written. -/
theorem withTask (h : Making s dir t s₁ owner₁) (r : PageTask) :
    Making s dir t (s₁.withTask t r) owner₁ := by
  have hnot : t ∉ s₁.tasks := by
    rw [h.tasks]
    exact h.notTask
  exact ⟨h.owned.withTask h.new hnot r, h.exact.withTask h.new r,
    h.books.congr fun pf => by cases pf <;> rfl, h.new, h.notTask,
    h.keeps.next (Keeps.withTask h.new r), h.pcb, h.tasks, h.cur, h.cr3⟩

/-- What was made so far is where it starts from. -/
theorem rebase (h : Making s dir t s₁ owner₁) : Making s₁ dir t s₁ owner₁ :=
  ⟨h.owned, h.exact, h.books, h.new, h.tasks.symm ▸ h.notTask, .refl, h.pcb, rfl, rfl, rfl⟩

theorem active (h : Making s dir t s₁ owner₁) (hc : c.directory dir = some (frameNo s.cr3)) :
    c.directory dir = some (frameNo s₁.cr3) := by
  rw [h.cr3]
  exact hc

end Making

/-- `t` has got a directory of its own and nothing in it; everybody else is as he was. -/
structure Joined (s : PagedMem) (dir : Nat → Option Nat) (t : Nat) (s' : PagedMem)
    (dir' : Nat → Option Nat) (owner' : Nat → Owner) : Prop where
  owned : Owned s' dir' owner'
  books : Books (fun _ => False) s' owner'
  new : dir t = none
  notTask : t ∉ s.tasks
  own : ∃ d, dir' = Function.update dir t (some d)
  keeps : Keeps (fun _ => True) (fun _ => False) s dir s' dir'
  pcb : ∃ q, t = 4096 * q ∧ Context.kernel.HeapPage q ∧ s'.map dir' .kernel q ≠ none
  empty : ∀ p, (Context.process t).HasPage p → s'.map dir' (.process t) p = none
  exact : ∀ (a : Context) p, a ≠ .process t → a.directory dir' ≠ none → a.HasPage p →
    (s'.vaddrOf a).Holds p → s'.map dir' a p ≠ none
  tasks : s'.tasks = s.tasks
  cur : s'.cur = s.cur
  cr3 : s'.cr3 = s.cr3

/-- `create_page_dir` for the task that is being made, whose record is written afterwards. -/
theorem createPageDir_join (h : Making s dir t s₁ owner₁)
    (hc : c.directory dir = some (frameNo s.cr3))
    (hcovers : (Context.process t).Covers (s₁.task t).userProcessVaddr) :
    wp Halt.PagesShort createPageDir (fun r s₂ => r ≠ 0 ∧ ∃ dir' owner',
      Joined s dir t (s₂.withTask t { s₂.task t with pgDir := r }) dir' owner' ∧
      (s₂.withTask t { s₂.task t with pgDir := r }).vaddrOf (.process t)
        = s₁.vaddrOf (.process t)) s₁ := by
  refine wp_mono (createPageDir_spec h.owned (h.active hc)) ?_
  rintro r s₂ ⟨l, d, owner₂, rfl, hgot, hmap, hnobody, hd⟩
  have hm := h.got hgot
  have hin : From l 1 l := ⟨le_rfl, by omega⟩
  have hheap := hgot.heap l hin
  have hlt := hheap.hasPage.lt
  have hnot₂ : t ∉ s₂.tasks := by
    rw [hm.tasks]
    exact h.notTask
  have hother : ∀ u, dir u ≠ some d := fun u hu =>
    h.owned.layout.owner_directory (a := .process u) hu hnobody
  have hvaddr₂ : s₂.vaddrOf (.process t) = s₁.vaddrOf (.process t) :=
    hgot.grow.vaddrs (.process t) (by simp)
  have hcovers₂ : (Context.process t).Covers (s₂.task t).userProcessVaddr := by
    rw [show (s₂.task t).userProcessVaddr = (s₁.task t).userProcessVaddr from hvaddr₂]
    exact hcovers
  have howned := hm.owned.register hm.new hnot₂ hheap hmap hother hd hcovers₂ hm.pcb
  have hself : ∀ r, (s₂.withTask t r).vaddrOf (.process t) = r.userProcessVaddr := by
    intro r
    show ((s₂.withTask t r).task t).userProcessVaddr = _
    rw [task_withTask]
  refine ⟨?_, Function.update dir t (some d), owner₂, ?_, ?_⟩
  · intro hzero
    have hv : (UInt32.ofNat (4096 * l)).toNat = 4096 * l := by
      rw [UInt32.toNat_ofNat']
      omega
    have hlow := hheap.1
    rw [hzero] at hv
    simp only [UInt32.reduceToNat] at hv
    omega
  · refine ⟨howned, hm.books.congr fun pf => by cases pf <;> rfl, hm.new, hm.notTask, ⟨d, rfl⟩, ?_, ?_,
      ?_, ?_, hm.tasks, hm.cur, hm.cr3⟩
    · have hregister : Keeps (fun _ => True) (· = l) s₂ dir
          (s₂.withTask t { s₂.task t with pgDir := UInt32.ofNat (4096 * l) })
          (Function.update dir t (some d)) := Keeps.register hm.new hmap hm.owned hheap _
      refine h.keeps.trans ((hgot.keeps h.owned).trans hregister ?_ ?_) ?_ ?_
      · exact fun _ _ _ => trivial
      · rintro p - hp rfl
        exact hp (hgot.free p hin)
      · exact fun _ _ _ => by simp
      · exact fun _ hp _ => hp
    · obtain ⟨q, hq, hqheap, hqmap⟩ := hm.pcb
      exact ⟨q, hq, hqheap, hqmap⟩
    · intro p hp
      have hdir : (Context.process t).directory (Function.update dir t (some d)) = some d :=
        Function.update_self _ _ _
      rw [PagedMem.map, mapping_of_directory hdir]
      exact pageFrame_of_absent (hd.empty _ hp)
    · intro b p hbt hb hp hholds
      have hdir : b.directory dir ≠ none := by
        cases b with
        | kernel => exact Option.some_ne_none 256
        | process u =>
            have hut : u ≠ t := by
              rintro rfl
              exact hbt rfl
            rwa [show (Context.process u).directory (Function.update dir t (some d)) = dir u from
              Function.update_of_ne hut _ _] at hb
      rw [vaddrOf_withTask_ne hbt] at hholds
      rw [PagedMem.map, show mapping (s₂.withTask t _).phys (Function.update dir t (some d)) b p
        = mapping s₂.phys dir b p from Layout.mapping_addDir hbt]
      exact hm.exact b p hdir hp hholds
  · rw [hself]
    exact hvaddr₂

theorem assertDst_some (x : UInt32) : assertDst (some x) s = .ok ((), s) :=
  assertPaged_pos rfl _ _

/-- `create_user_vaddr_bitmap` for the task that is being made. -/
theorem createUserVaddrBitmap_spec (h : Making s dir t s₁ owner₁)
    (hc : c.directory dir = some (frameNo s.cr3)) (hroom : s₁.kernelVaddr.vaddrBitmap.HasRun 23) :
    wp Halt.PagesShort (createUserVaddrBitmap t) (fun _ s' => ∃ owner', Making s dir t s' owner' ∧
      s'.vaddrOf (.process t) = ⟨⟨userBitmapLen, fun _ => 0⟩, userVaddrStart⟩) s₁ := by
  have hpages : bitmapPgCnt = 23 := by decide
  refine wp_bind (wp_mono (getPages_spec (a := .kernel) (n := bitmapPgCnt) h.owned (h.active hc)
    (.inl rfl) (.inl rfl) (.inr (hpages ▸ hroom))) ?_)
  rintro r s₂ ⟨l, owner₂, rfl, hgot, -, -⟩
  refine wp_bind (wp_of_run (assertDst_some _) (wp_modify ⟨owner₂, (h.got hgot).withTask _, ?_⟩))
  show ((s₂.withTask t _).task t).userProcessVaddr = _
  rw [task_withTask]

/-- `process_execute`: the new process has no pages. -/
theorem processExecute_spec (h : Owned s dir owner) (hexact : Exact s dir)
    (hbooks : Books (fun _ => False) s owner) (hc : c.directory dir = some (frameNo s.cr3))
    (hroom : s.kernelVaddr.vaddrBitmap.HasRun 24) :
    wp Halt.PagesShort processExecute (fun _ s' => ∃ t dir' owner' s₁, Joined s dir t s₁ dir' owner' ∧
      s' = { s₁ with tasks := s₁.tasks ++ [t] } ∧
      s₁.vaddrOf (.process t) = ⟨⟨userBitmapLen, fun _ => 0⟩, userVaddrStart⟩) s := by
  have hfits := (h.covers .kernel 256 rfl).fits
  refine wp_bind (wp_mono (getPages_spec (a := .kernel) (n := 1) h hc (.inl rfl) (.inl rfl)
    (.inl rfl)) ?_)
  rintro r s₁ ⟨l, owner₁, rfl, hgot, hfull, -⟩
  have hlt := (hgot.heap l ⟨le_rfl, by omega⟩).hasPage.lt
  have hv : (UInt32.ofNat (4096 * l)).toNat = 4096 * l := by
    rw [UInt32.toNat_ofNat']
    omega
  have hm := Making.start h hexact hbooks hgot
  have hroom₁ : s₁.kernelVaddr.vaddrBitmap.HasRun 23 :=
    hasRun_after_first hfits hroom hgot.takes (hfull rfl)
  refine wp_bind (wp_of_run (assertDst_some _) ?_)
  simp only [Option.getD_some, hv]
  refine wp_bind (wp_modify ?_)
  refine wp_bind (wp_mono (createUserVaddrBitmap_spec (hm.withTask _) hc hroom₁) ?_)
  rintro - s₂ ⟨owner₂, hm₂, hvaddr₂⟩
  have hcovers : (Context.process (4096 * l)).Covers (s₂.task (4096 * l)).userProcessVaddr := by
    rw [show (s₂.task (4096 * l)).userProcessVaddr = _ from hvaddr₂]
    exact covers_new _
  refine wp_bind (wp_mono (createPageDir_join hm₂ hc hcovers) ?_)
  rintro r s₃ ⟨-, dir', owner', hjoin, hvaddr₃⟩
  refine wp_bind (wp_modify (wp_modify ⟨_, dir', owner', _, hjoin, rfl, ?_⟩))
  rw [hvaddr₃, hvaddr₂]

end ZyOs.Paged
