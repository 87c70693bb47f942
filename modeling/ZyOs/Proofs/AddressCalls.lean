/-
What each function of `kernel/memory.c` does to the address spaces.

One lemma for each function that takes pages, from `palloc` up: it stops because the pages run
short, or it leaves the books right (`Owned`), adds what it was asked for and changes nothing else
(`Grow`).  In particular no access faults and no `ASSERT` about an entry fails.
-/
import ZyOs.Proofs.AddressSpace

namespace ZyOs.Paged

open Library Prog

variable {s s' s₁ s₂ : PagedMem} {dir : Nat → Option Nat} {owner owner' owner₁ owner₂ : Nat → Owner}
  {a b c : Context} {pf : PoolFlag} {d f g i n p q t : Nat} {vaddr : UInt32} {S S' : Nat → Prop}

/-! ### Frames -/

/-- A frame that has been taken and is nobody's yet. -/
structure Fresh (s : PagedMem) (owner : Nat → Owner) (pf : PoolFlag) (f : Nat) : Prop where
  lt : f < 2 ^ 20
  nobody : owner f = .nobody
  has : (s.pool pf).Has f
  taken : ∀ pf, (s.pool pf).Has f → (s.pool pf).Used f

theorem Owned.pools_disjoint (h : Owned s dir owner) {pf' : PoolFlag} (hf : (s.pool pf).Has f)
    (hf' : (s.pool pf').Has f) : pf' = pf := by
  have hapart : s.kernelPool.Has f → ¬ s.userPool.Has f := by
    intro hk hu
    have hlt := h.below_user hk
    have hge := hu.1
    omega
  cases pf with
  | kernel =>
      cases pf' with
      | kernel => rfl
      | user => exact absurd hf' (hapart hf)
  | user =>
      cases pf' with
      | kernel => exact absurd hf (hapart hf')
      | user => rfl

/-- What has grown is still right when the new entries are. -/
theorem Owned.grow (h : Owned s dir owner) (hg : Grow dir a S s owner s' owner')
    (hlayout : Layout s'.phys dir owner') (hnew : ∀ q, S q → s.map dir a q = none)
    (hpool : ∀ pf, FramePool (s'.pool pf))
    (hstart : ∀ pf, (s'.pool pf).phyAddrStart = (s.pool pf).phyAddrStart)
    (hlen : ∀ pf, (s'.pool pf).poolBitmap.bmapBytesLen = (s.pool pf).poolBitmap.bmapBytesLen)
    (hused : ∀ pf f, (s.pool pf).Has f → owner' f ≠ .nobody → (s'.pool pf).Used f)
    (hhome : ∀ b q f, owner' f = .page b q → b.HeapPage q → (s.pool b.flag).Has f)
    (hcovers : ∀ (b : Context) d, b.directory dir = some d → b.Covers (s'.vaddrOf b))
    (hmarked : ∀ (b : Context) q f, b.HeapPage q → s'.map dir b q = some f →
      (s'.vaddrOf b).Holds q) : Owned s' dir owner' := by
  have hhas : ∀ pf f, (s'.pool pf).Has f ↔ (s.pool pf).Has f := by
    intro pf f
    unfold Pool.Has
    rw [hstart, hlen]
  have hkept : ∀ q f, Context.kernel.HeapPage q → s.map dir .kernel q = some f →
      s'.map dir .kernel q = some f := by
    intro q f hq hf
    rw [hg.maps .kernel q hq.hasPage, hf]
    rintro ⟨rfl, hS⟩
    rw [hnew q hS] at hf
    cases hf
  refine ⟨hlayout, hpool, ?_, ?_, ?_, ?_, hcovers, hmarked, ?_, ?_, ?_⟩
  · exact (hstart .kernel).symm ▸ h.low
  · have hkernel := hstart .kernel
    have huser := hstart .user
    have hsize := hlen .kernel
    have hapart := h.apart
    simp only [PagedMem.pool] at hkernel huser hsize
    rw [hkernel, huser, hsize]
    exact hapart
  · intro pf f hf
    exact hused pf f ((hhas pf f).mp hf)
  · intro b q f hf hq
    exact (hhas b.flag f).mpr (hhome b q f hf hq)
  · intro t d ht
    obtain ⟨hne, q, hq, hheap, hmap⟩ := h.pgDir t d ht
    rw [hg.pgDir t]
    exact ⟨hne, q, hq, hheap, hkept q d hheap hmap⟩
  · intro t ht hdir
    rw [hg.pgDir t]
    exact h.thread t (hg.tasks ▸ ht) hdir
  · intro t ht
    rw [hg.tasks] at ht
    rcases h.pcb t ht with hmain | ⟨q, hq, hheap, hmap⟩
    · exact .inl hmain
    · obtain ⟨f, hf⟩ := Option.ne_none_iff_exists'.mp hmap
      exact .inr ⟨q, hq, hheap, by simp [hkept q f hheap hf]⟩

/-- Frame `f` of a pool is marked. -/
theorem Grow.mark : Grow dir a S s owner (s.withPool pool pf) owner := by
  refine ⟨⟨fun b q _ _ => ?_, fun b _ => ?_, fun t => ?_, ?_, ?_, ?_⟩, fun _ _ => rfl,
    fun b q f i _ _ _ _ => ?_⟩ <;> simp [PagedMem.map]

/-- `palloc`: the frame was nobody's. -/
theorem takeFrame_spec (h : Owned s dir owner) (a : Context) (S : Nat → Prop) :
    wp Halt.PagesShort (takeFrame pf) (fun r s' => ∃ f, r = some (4096 * f) ∧
      Fresh s' owner pf f ∧ Owned s' dir owner ∧ Grow dir a S s owner s' owner ∧
      s'.phys = s.phys ∧ (∀ b, s'.vaddrOf b = s.vaddrOf b) ∧
      (∀ pf' g, Fresh s owner pf' g → Fresh s' owner pf' g ∧ g ≠ f) ∧
      ∀ F, Books F s owner → Books (fun g => F g ∨ g = f) s' owner) s := by
  refine wp_get_bind (wp_bind (wp_lift ?_ ?_))
  · intro r hr
    rcases palloc_cases (h.pool pf) with ⟨e, herr, -⟩ | ⟨f, hlt, hhas, hunused, hok⟩
    · rw [herr] at hr
      cases hr
    rw [hok] at hr
    cases hr
    have hhas' : ∀ pf' g, ((s.withPool ((s.pool pf).mark f true) pf).pool pf').Has g ↔
        (s.pool pf').Has g := by
      intro pf' g
      by_cases hpf : pf' = pf
      · rw [hpf, PagedMem.pool_withPool, has_mark]
      · rw [PagedMem.pool_withPool_ne hpf]
    have hused : ∀ pf' g, (s.pool pf').Has g → (s.pool pf').Used g ∨ g = f →
        ((s.withPool ((s.pool pf).mark f true) pf).pool pf').Used g := by
      intro pf' g hg hor
      by_cases hpf : pf' = pf
      · subst hpf
        rw [PagedMem.pool_withPool, used_mark (h.pool pf') hhas hg]
        by_cases heq : g = f
        · rw [if_pos heq]
        · rw [if_neg heq]
          exact hor.resolve_right heq
      · rw [PagedMem.pool_withPool_ne hpf]
        refine hor.resolve_right ?_
        rintro rfl
        exact hpf (h.pools_disjoint hhas hg)
    have hnobody := h.nobody hhas hunused
    have hphys : (s.withPool ((s.pool pf).mark f true) pf).phys = s.phys := PagedMem.phys_withPool
    refine wp_bind (wp_set (wp_pure ⟨f, rfl, ?_, ?_, Grow.mark, hphys, ?_, ?_, ?_⟩))
    · exact ⟨hlt, hnobody, (hhas' pf f).mpr hhas,
        fun pf' hf => hused pf' f ((hhas' pf' f).mp hf) (.inr rfl)⟩
    · refine h.grow (a := a) (S := fun _ => False) Grow.mark ?_ (fun _ hS => hS.elim) ?_ ?_ ?_ ?_
        h.home ?_ ?_
      · rw [hphys]
        exact h.layout
      · intro pf'
        by_cases hpf : pf' = pf
        · rw [hpf, PagedMem.pool_withPool]
          exact (h.pool pf).mark
        · rw [PagedMem.pool_withPool_ne hpf]
          exact h.pool pf'
      · intro pf'
        by_cases hpf : pf' = pf
        · rw [hpf, PagedMem.pool_withPool]
          rfl
        · rw [PagedMem.pool_withPool_ne hpf]
      · intro pf'
        by_cases hpf : pf' = pf
        · rw [hpf, PagedMem.pool_withPool]
          rfl
        · rw [PagedMem.pool_withPool_ne hpf]
      · intro pf' g hg hne
        exact hused pf' g hg (.inl (h.used pf' g hg hne))
      · intro b d hb
        rw [PagedMem.vaddrOf_withPool]
        exact h.covers b d hb
      · intro b q g hq hmap
        rw [PagedMem.vaddrOf_withPool]
        rw [PagedMem.map, hphys] at hmap
        exact h.marked b q g hq hmap
    · intro b
      exact PagedMem.vaddrOf_withPool
    · intro pf' g hg
      refine ⟨⟨hg.lt, hg.nobody, (hhas' pf' g).mpr hg.has, fun pf'' hg' => ?_⟩, ?_⟩
      · rw [hhas'] at hg'
        exact hused pf'' g hg' (.inl (hg.taken pf'' hg'))
      · rintro rfl
        exact hunused (hg.taken pf hhas)
    · intro F hbooks pf' g hg hg'
      rw [hhas'] at hg
      by_cases hpf : pf' = pf
      · subst hpf
        rw [PagedMem.pool_withPool, used_mark (h.pool pf') hhas hg] at hg'
        by_cases hgf : g = f
        · exact .inr (.inr hgf)
        · rw [if_neg hgf] at hg'
          exact (hbooks pf' g hg hg').imp_right .inl
      · rw [PagedMem.pool_withPool_ne hpf] at hg'
        exact (hbooks pf' g hg hg').imp_right .inl
  · intro e he
    rcases palloc_cases (h.pool pf) with ⟨e', herr, hshort⟩ | ⟨f, -, -, -, hok⟩
    · rw [herr] at he
      cases he
      exact hshort
    · rw [hok] at he
      cases he

/-! ### Entries -/

/-- Only the memory has changed. -/
theorem Owned.memory (h : Owned s dir owner) {phys' : PhysMem}
    (hg : Grow dir a S s owner { s with phys := phys' } owner') (hlayout : Layout phys' dir owner')
    (hnew : ∀ q, S q → s.map dir a q = none)
    (hused : ∀ pf f, (s.pool pf).Has f → owner' f ≠ .nobody → (s.pool pf).Used f)
    (hhome : ∀ b q f, owner' f = .page b q → b.HeapPage q → (s.pool b.flag).Has f)
    (hmarked : ∀ q, S q → a.HeapPage q → (s.vaddrOf a).Holds q) :
    Owned { s with phys := phys' } dir owner' := by
  have hpools : ∀ pf, PagedMem.pool { s with phys := phys' } pf = s.pool pf := by
    intro pf
    cases pf <;> rfl
  have hvaddr : ∀ b, PagedMem.vaddrOf { s with phys := phys' } b = s.vaddrOf b := by
    intro b
    cases b <;> rfl
  refine h.grow hg hlayout hnew ?_ ?_ ?_ ?_ hhome ?_ ?_
  · intro pf
    rw [hpools]
    exact h.pool pf
  · intro pf
    rw [hpools]
  · intro pf
    rw [hpools]
  · intro pf
    rw [hpools]
    exact hused pf
  · intro b d hb
    rw [hvaddr]
    exact h.covers b d hb
  · intro b q f hq hmap
    rw [hvaddr]
    by_cases hS : b = a ∧ S q
    · obtain ⟨rfl, hS⟩ := hS
      exact hmarked q hS hq
    · rw [hg.maps b q hq.hasPage hS] at hmap
      exact h.marked b q f hq hmap

/-- The directory in use and the table for a page of a space that is seen. -/
theorem Owned.isDir (h : Owned s dir owner) (hc : c.directory dir = some (frameNo s.cr3)) :
    IsDir s.phys (frameNo s.cr3) :=
  h.layout.isDir c _ hc

/-- A frame becomes a page of a space, whose table is there. -/
theorem Owned.enter (h : Owned s dir owner) (hc : c.directory dir = some (frameNo s.cr3))
    (hseen : Seen c a) (hp : a.HeapPage p)
    (hpde : isPresent (s.phys.word (frameNo s.cr3) (p / 1024))) (hnone : s.map dir a p = none)
    (hf : Fresh s owner a.flag f) (hmarked : (s.vaddrOf a).Holds p) :
    ∃ owner', Owned (s.setWord (frameNo (s.phys.word (frameNo s.cr3) (p / 1024))) (p % 1024)
        (tableEntry (4096 * f))) dir owner' ∧
      Grow dir a (· = p) s owner (s.setWord (frameNo (s.phys.word (frameNo s.cr3) (p / 1024)))
        (p % 1024) (tableEntry (4096 * f))) owner' ∧
      (s.setWord (frameNo (s.phys.word (frameNo s.cr3) (p / 1024))) (p % 1024)
        (tableEntry (4096 * f))).map dir a p = some f ∧
      ∀ F, Books (fun g => F g ∨ g = f) s owner →
        Books F (s.setWord (frameNo (s.phys.word (frameNo s.cr3) (p / 1024))) (p % 1024)
          (tableEntry (4096 * f))) owner' := by
  have hlayout := h.layout
  have hpage := hp.hasPage
  obtain ⟨d, hd⟩ := directory_seen hc hseen
  have hword := hlayout.word_seen hc hseen hd hpage
  have hframe := frameNo_tableEntry hf.lt
  have hpresent := isPresent_tableEntry (4096 * f)
  rw [hword] at hpde ⊢
  have hnobody : owner (frameNo (tableEntry (4096 * f))) = .nobody := by rw [hframe, hf.nobody]
  have hnew := hlayout.enter hd hpage hpde hnone hpresent hnobody
  rw [hframe] at hnew
  have hgrow : Grow dir a (· = p) s owner
      (s.setWord (frameNo (s.phys.word d (p / 1024))) (p % 1024) (tableEntry (4096 * f)))
      (Function.update owner f (.page a p)) := by
    refine ⟨⟨?_, fun b _ => by cases b <;> rfl, fun _ => rfl, rfl, rfl, rfl⟩, ?_, ?_⟩
    · intro b q hb hne
      exact hlayout.mapping_setWord_ne hd hpage hpde hb hne
    · intro g hg
      refine Function.update_of_ne ?_ _ _
      rintro rfl
      exact hg hf.nobody
    · intro b q g i hg _ hlt hi
      show (setWord s.phys _ _ _).word g i = _
      refine PhysMem.word_write_ne hlt hi ?_
      rintro rfl
      rw [hlayout.table a d _ hd hpage hpde] at hg
      cases hg
  refine ⟨_, h.memory hgrow hnew ?_ ?_ ?_ ?_, hgrow, ?_,
    fun F hbooks => hbooks.update (by simp) fun pf => by cases pf <;> rfl⟩
  · rintro q rfl
    exact hnone
  · intro pf g hg hne
    by_cases heq : g = f
    · exact heq ▸ hf.taken pf (heq ▸ hg)
    · rw [Function.update_of_ne heq] at hne
      exact h.used pf g hg hne
  · intro b q g hg hq
    by_cases heq : g = f
    · rw [heq, Function.update_self] at hg
      cases hg
      exact heq ▸ hf.has
    · rw [Function.update_of_ne heq] at hg
      exact h.home b q g hg hq
  · rintro q rfl -
    exact hmarked
  · have hself := hlayout.mapping_setWord_self (e := tableEntry (4096 * f)) hd hpage hpde
    rw [if_pos hpresent, hframe] at hself
    exact hself

/-- A frame becomes a table of the process whose directory is in use. -/
theorem Owned.addTable (h : Owned s dir owner) (ht : dir t = some (frameNo s.cr3)) (hi : i < 768)
    (habsent : ¬ isPresent (s.phys.word (frameNo s.cr3) i)) (hf : Fresh s owner .kernel f) :
    Owned { s with phys := Layout.newTable s.phys (frameNo s.cr3) i (tableEntry (4096 * f)) } dir
        (Function.update owner f (.table (.process t) i)) ∧
      Grow dir a S s owner
        { s with phys := Layout.newTable s.phys (frameNo s.cr3) i (tableEntry (4096 * f)) }
        (Function.update owner f (.table (.process t) i)) ∧
      (∀ b q, b.HasPage q → PagedMem.map
        { s with phys := Layout.newTable s.phys (frameNo s.cr3) i (tableEntry (4096 * f)) } dir b q
          = s.map dir b q) ∧
      ∀ F, Books (fun g => F g ∨ g = f) s owner → Books F
        { s with phys := Layout.newTable s.phys (frameNo s.cr3) i (tableEntry (4096 * f)) }
        (Function.update owner f (.table (.process t) i)) := by
  have hframe := frameNo_tableEntry hf.lt
  have hnobody : owner (frameNo (tableEntry (4096 * f))) = .nobody := by rw [hframe, hf.nobody]
  have hnew := h.layout.addTable ht hi habsent (isPresent_tableEntry _) hnobody
  rw [hframe] at hnew
  have hmap : ∀ b q, b.HasPage q → PagedMem.map
      { s with phys := Layout.newTable s.phys (frameNo s.cr3) i (tableEntry (4096 * f)) } dir b q
        = s.map dir b q := fun b q hq => h.layout.mapping_newTable ht hi habsent hnobody hq
  have hgrow : ∀ a S, Grow dir a S s owner
      { s with phys := Layout.newTable s.phys (frameNo s.cr3) i (tableEntry (4096 * f)) }
      (Function.update owner f (.table (.process t) i)) := by
    intro a S
    refine ⟨⟨fun b q hb _ => hmap b q hb, fun b _ => by cases b <;> rfl, fun _ => rfl, rfl, rfl, rfl⟩,
      ?_, ?_⟩
    · intro g hg
      refine Function.update_of_ne ?_ _ _
      rintro rfl
      exact hg hf.nobody
    · intro b q g j hg hdir hlt hj
      rw [Layout.word_newTable hlt hj, hframe, if_neg, if_neg]
      · rintro ⟨rfl, -⟩
        exact hdir t ht
      · rintro rfl
        rw [hf.nobody] at hg
        cases hg
  refine ⟨h.memory (hgrow a fun _ => False) hnew ?_ ?_ ?_ ?_, hgrow a S, hmap,
    fun F hbooks => hbooks.update (by simp) fun pf => by cases pf <;> rfl⟩
  · exact fun _ hS => hS.elim
  · intro pf g hg hne
    by_cases heq : g = f
    · exact heq ▸ hf.taken pf (heq ▸ hg)
    · rw [Function.update_of_ne heq] at hne
      exact h.used pf g hg hne
  · intro b q g hg hq
    by_cases heq : g = f
    · rw [heq, Function.update_self] at hg
      cases hg
    · rw [Function.update_of_ne heq] at hg
      exact h.home b q g hg hq
  · exact fun _ hS => hS.elim

theorem assertPaged_pos {c : Prop} [Decidable c] (h : c) (func condition : String) :
    assertPaged c func condition s = .ok ((), s) := by
  unfold assertPaged
  rw [ASSERT_pos h]
  rfl

/-- The entry of a page that is not mapped. -/
theorem not_present_of_map (hpde : isPresent (s.phys.word d (p / 1024)))
    (ha : a.directory dir = some d) (hnone : s.map dir a p = none) :
    ¬ isPresent (s.phys.word (frameNo (s.phys.word d (p / 1024))) (p % 1024)) := by
  intro hpresent
  rw [PagedMem.map, mapping_of_directory ha, pageFrame_of_present hpde, if_pos hpresent] at hnone
  cases hnone

/-- A new table is in place once its entry has been written and it has been cleared. -/
theorem newTable_run (vaddr : UInt32) (hd : IsDir s.phys (frameNo s.cr3)) (hi : vaddr.toNat / 4096 / 1024 < 768)
    (hf : f < 2 ^ 20) (hne : frameNo s.cr3 ≠ f) :
    (do
      storeWord (pdePtr vaddr) (tableEntry (4096 * f))
      clearWords 1024 (ptePtr vaddr &&& 0xfffff000)) s = .ok ((), { s with
        phys := Layout.newTable s.phys (frameNo s.cr3) (vaddr.toNat / 4096 / 1024)
          (tableEntry (4096 * f)) }) := by
  set s₁ := s.setWord (frameNo s.cr3) (vaddr.toNat / 4096 / 1024) (tableEntry (4096 * f)) with hs₁
  have hword : s₁.phys.word (frameNo s₁.cr3) (vaddr.toNat / 4096 / 1024)
      = tableEntry (4096 * f) := by
    show (setWord s.phys _ _ _).word _ _ = _
    exact (word_setWord hd.lt (by omega)).trans (if_pos ⟨rfl, rfl⟩)
  have hlast : s₁.phys.word (frameNo s₁.cr3) 1023 = s.phys.word (frameNo s.cr3) 1023 := by
    show (setWord s.phys _ _ _).word _ _ = _
    exact (word_setWord hd.lt (by omega)).trans (if_neg (by omega))
  have hdir : IsDir s₁.phys (frameNo s₁.cr3) := ⟨hlast.symm ▸ hd.present, hlast.symm ▸ hd.frame⟩
  have hframe : frameNo (s₁.phys.word (frameNo s₁.cr3) (vaddr.toNat / 4096 / 1024)) = f := by
    rw [hword, frameNo_tableEntry hf]
  have hclear := clearTable vaddr hdir (by omega)
    (hword.symm ▸ isPresent_tableEntry (4096 * f)) (hframe.symm ▸ hne)
  rw [bind_of_run (storePde hd vaddr _), hclear, hword]
  rfl

/-- `page_table_add` -/
theorem pageTableAdd_spec (h : Owned s dir owner) (hc : c.directory dir = some (frameNo s.cr3))
    (hseen : Seen c a) (hp : a.HeapPage (vaddr.toNat / 4096))
    (hnone : s.map dir a (vaddr.toNat / 4096) = none) (hf : Fresh s owner a.flag f)
    (hmarked : (s.vaddrOf a).Holds (vaddr.toNat / 4096)) :
    wp Halt.PagesShort (pageTableAdd vaddr (4096 * f)) (fun _ s' => ∃ owner', Owned s' dir owner' ∧
      Grow dir a (· = vaddr.toNat / 4096) s owner s' owner' ∧
      s'.map dir a (vaddr.toNat / 4096) = some f ∧ (∀ b, s'.vaddrOf b = s.vaddrOf b) ∧
      ∀ F, Books (fun g => F g ∨ g = f) s owner → Books F s' owner') s := by
  have hdir := h.isDir hc
  have hpage := hp.hasPage
  obtain ⟨d, hd⟩ := directory_seen hc hseen
  have hword := h.layout.word_seen hc hseen hd hpage
  refine wp_bind (wp_of_run (loadPde hdir vaddr) (wp_ite (fun hpde => ?_) fun habsent => ?_))
  · have hpte : ¬ isPresent (s.phys.word (frameNo (s.phys.word (frameNo s.cr3)
        (vaddr.toNat / 4096 / 1024))) (vaddr.toNat / 4096 % 1024)) := by
      rw [hword] at hpde ⊢
      exact not_present_of_map hpde hd hnone
    obtain ⟨owner', howned, hgrow, hmap, hbooks⟩ := h.enter hc hseen hp hpde hnone hf hmarked
    refine wp_bind (wp_of_run (loadPte hdir hpde) ?_)
    refine wp_bind (wp_of_run (assertPaged_pos hpte _ _) ?_)
    exact wp_of_run (storePte hdir hpde _)
      ⟨owner', howned, hgrow, hmap, fun b => by cases b <;> rfl, hbooks⟩
  · -- the kernel has all its tables
    obtain ⟨t, rfl, rfl⟩ : ∃ t, a = .process t ∧ c = .process t := by
      cases a with
      | kernel =>
          cases hd
          exact absurd (hword.symm ▸ h.layout.kernelPde _ hpage.1 hpage.2) habsent
      | process t =>
          rcases hseen with hk | rfl
          · cases hk
          · exact ⟨t, rfl, rfl⟩
    have ht : dir t = some (frameNo s.cr3) := hc
    have hlt : vaddr.toNat / 4096 / 1024 < 768 := hpage
    refine wp_bind (wp_mono (takeFrame_spec h (.process t) (· = vaddr.toNat / 4096)) ?_)
    rintro r s₁ ⟨g, rfl, hg, howned₁, hgrow₁, hphys₁, hvaddr₁, hfresh, hbooks₁⟩
    obtain ⟨hf₁, hne⟩ := hfresh _ _ hf
    have hcr3 := hgrow₁.cr3
    have ht₁ : dir t = some (frameNo s₁.cr3) := by rw [hcr3, ht]
    have hdir₁ : IsDir s₁.phys (frameNo s₁.cr3) := howned₁.isDir (c := .process t) ht₁
    have habsent₁ : ¬ isPresent (s₁.phys.word (frameNo s₁.cr3) (vaddr.toNat / 4096 / 1024)) := by
      rw [hphys₁, hcr3]
      exact habsent
    have hdg : frameNo s₁.cr3 ≠ g := by
      rintro rfl
      exact howned₁.layout.owner_directory (a := .process t) ht₁ hg.nobody
    -- the state with the table in it
    obtain ⟨howned₂, hgrow₂, hmap₂, hbooks₂⟩ :=
      howned₁.addTable (a := .process t) (S := (· = vaddr.toNat / 4096)) ht₁ hlt habsent₁ hg
    have hrun := newTable_run vaddr hdir₁ hlt hg.lt hdg
    have hword₂ : (Layout.newTable s₁.phys (frameNo s₁.cr3) (vaddr.toNat / 4096 / 1024)
        (tableEntry (4096 * g))).word (frameNo s₁.cr3) (vaddr.toNat / 4096 / 1024)
        = tableEntry (4096 * g) := by
      rw [Layout.word_newTable hdir₁.lt (by omega), frameNo_tableEntry hg.lt, if_neg hdg,
        if_pos ⟨rfl, rfl⟩]
    have hmod : vaddr.toNat / 4096 % 1024 < 1024 := Nat.mod_lt _ (by decide)
    set s₂ : PagedMem := { s₁ with
      phys := Layout.newTable s₁.phys (frameNo s₁.cr3) (vaddr.toNat / 4096 / 1024)
        (tableEntry (4096 * g)) } with hs₂
    have hpde₂ : isPresent (s₂.phys.word (frameNo s₂.cr3) (vaddr.toNat / 4096 / 1024)) :=
      hword₂.symm ▸ isPresent_tableEntry _
    have hdir₂ : IsDir s₂.phys (frameNo s₂.cr3) := howned₂.isDir (c := .process t) ht₁
    have hnone₂ : s₂.map dir (.process t) (vaddr.toNat / 4096) = none := by
      rw [hmap₂ _ _ hpage, PagedMem.map, hphys₁]
      exact hnone
    have hpte₂ : ¬ isPresent (s₂.phys.word (frameNo (s₂.phys.word (frameNo s₂.cr3)
        (vaddr.toNat / 4096 / 1024))) (vaddr.toNat / 4096 % 1024)) :=
      not_present_of_map hpde₂ (a := .process t) ht₁ hnone₂
    have hf₂ : Fresh s₂ (Function.update owner g (.table (.process t) (vaddr.toNat / 4096 / 1024)))
        (Context.process t).flag f := by
      refine ⟨hf₁.lt, ?_, hf₁.has, fun pf hpf => ?_⟩
      · rw [Function.update_of_ne hne]
        exact hf₁.nobody
      · have htaken := hf₁.taken pf
        cases pf <;> exact htaken hpf
    have hmarked₂ : (s₂.vaddrOf (.process t)).Holds (vaddr.toNat / 4096) := by
      have hm := hvaddr₁ (.process t)
      show (s₁.vaddrOf (.process t)).Holds _
      rw [hm]
      exact hmarked
    obtain ⟨owner', howned, hgrow, hmap, hbooks⟩ :=
      howned₂.enter (c := .process t) ht₁ (.inr rfl) hp hpde₂ hnone₂ hf₂ hmarked₂
    rw [← bind_assoc]
    refine wp_bind (wp_of_run hrun ?_)
    refine wp_bind (wp_of_run (loadPte hdir₂ hpde₂) ?_)
    refine wp_bind (wp_of_run (assertPaged_pos hpte₂ _ _) ?_)
    refine wp_of_run (storePte hdir₂ hpde₂ _)
      ⟨owner', howned, (hgrow₁.trans hgrow₂).trans hgrow, hmap, fun b => ?_,
        fun F hF => hbooks F (hbooks₂ _ (hbooks₁ _ hF))⟩
    rw [← hvaddr₁ b]
    cases b <;> rfl

/-! ### Many pages -/

/-- The pages from `lo` on. -/
abbrev From (lo n : Nat) : Nat → Prop := fun q => lo ≤ q ∧ q < lo + n

/-- The pages are mapped now, to frames that were nobody's. -/
def Gained (dir : Nat → Option Nat) (a : Context) (S : Nat → Prop) (owner : Nat → Owner)
    (s' : PagedMem) : Prop :=
  ∀ q, S q → ∃ f, s'.map dir a q = some f ∧ owner f = .nobody

variable {lo : Nat}

/-- The loop of `malloc_page`. -/
theorem mallocPageLoop_spec (h : Owned s dir owner) (hc : c.directory dir = some (frameNo s.cr3))
    (hseen : Seen c a) (hv : vaddr.toNat = 4096 * lo) (hheap : ∀ q, From lo n q → a.HeapPage q)
    (hnone : ∀ q, From lo n q → s.map dir a q = none)
    (hmarked : ∀ q, From lo n q → (s.vaddrOf a).Holds q) :
    wp Halt.PagesShort (mallocPageLoop a.flag n vaddr) (fun r s' => r = true ∧ ∃ owner',
      Owned s' dir owner' ∧ Grow dir a (From lo n) s owner s' owner' ∧
      (∀ b, s'.vaddrOf b = s.vaddrOf b) ∧ Gained dir a (From lo n) owner s' ∧
      ∀ F, Books F s owner → Books F s' owner') s := by
  induction n generalizing s owner vaddr lo with
  | zero =>
      exact wp_pure ⟨rfl, owner, h, .refl, fun _ => rfl, fun q hq => absurd hq.2 (by omega),
        fun _ hF => hF⟩
  | succ n ih =>
      have hin : From lo (n + 1) lo := ⟨le_rfl, by omega⟩
      have hlast := (hheap _ ⟨show lo ≤ lo + n by omega, by omega⟩).hasPage.lt
      have hdiv : vaddr.toNat / 4096 = lo := by omega
      have hnext : n ≠ 0 → (vaddr + 4096).toNat = 4096 * (lo + 1) := by
        intro hn
        rw [UInt32.toNat_add, hv]
        simp only [UInt32.reduceToNat]
        omega
      refine wp_bind (wp_mono (takeFrame_spec h a (From lo (n + 1))) ?_)
      rintro r s₁ ⟨f, rfl, hf, howned₁, hgrow₁, hphys₁, hvaddr₁, -, hbooks₁⟩
      have hc₁ : c.directory dir = some (frameNo s₁.cr3) := by rw [hgrow₁.cr3, hc]
      have hnone₁ : ∀ q, From lo (n + 1) q → s₁.map dir a q = none := by
        intro q hq
        rw [PagedMem.map, hphys₁]
        exact hnone q hq
      have hmarked₁ : ∀ q, From lo (n + 1) q → (s₁.vaddrOf a).Holds q := by
        intro q hq
        rw [hvaddr₁]
        exact hmarked q hq
      refine wp_bind (wp_mono (pageTableAdd_spec howned₁ hc₁ hseen (hdiv.symm ▸ hheap lo hin)
        (hdiv.symm ▸ hnone₁ lo hin) hf (hdiv.symm ▸ hmarked₁ lo hin)) ?_)
      rintro - s₂ ⟨owner₂, howned₂, hgrow₂, hmap₂, hvaddr₂, hbooks₂⟩
      rw [hdiv] at hgrow₂ hmap₂
      have hgrow := hgrow₁.trans (hgrow₂.mono (From lo (n + 1)) (by rintro q rfl; exact hin))
      by_cases hn : n = 0
      · subst hn
        refine wp_pure ⟨rfl, owner₂, howned₂, hgrow, fun b => by rw [hvaddr₂, hvaddr₁], ?_,
          fun F hF => hbooks₂ F (hbooks₁ F hF)⟩
        intro q hq
        obtain rfl : q = lo := by omega
        exact ⟨f, hmap₂, hf.nobody⟩
      refine wp_mono (ih howned₂ (by rw [hgrow₂.cr3, hc₁]) (hnext hn)
        (fun q hq => hheap q ⟨by omega, by omega⟩) ?_ ?_) ?_
      · intro q hq
        have hin' : From lo (n + 1) q := ⟨by omega, by omega⟩
        rw [hgrow₂.maps a q (hheap q hin').hasPage (fun hc => by omega)]
        exact hnone₁ q hin'
      · intro q hq
        rw [hvaddr₂]
        exact hmarked₁ q ⟨by omega, by omega⟩
      rintro r s' ⟨rfl, owner', howned, hgrow', hvaddr, hgained, hbooks⟩
      have hgrow'' := hgrow'.mono (From lo (n + 1)) (fun q hq => ⟨by omega, by omega⟩)
      refine ⟨rfl, owner', howned, hgrow.trans hgrow'', fun b => by rw [hvaddr, hvaddr₂, hvaddr₁], ?_,
        fun F hF => hbooks F (hbooks₂ F (hbooks₁ F hF))⟩
      intro q hq
      by_cases hql : q = lo
      · subst hql
        refine ⟨f, ?_, hf.nobody⟩
        rw [hgrow'.maps a q (hheap q hin).hasPage (fun hc => by omega), hmap₂]
      · obtain ⟨g, hg, hnobody⟩ := hgained q ⟨by omega, by omega⟩
        refine ⟨g, hg, ?_⟩
        by_contra hsome
        exact hsome ((hgrow.kept g hsome).symm.trans hnobody)

/-! ### Writing to a page -/

/-- The frame of a page that is no directory. -/
theorem Owned.plain (h : Owned s dir owner) (hp : a.HasPage p) (hmap : s.map dir a p = some f)
    (hdir : ∀ t, dir t ≠ some f) : Layout.Plain dir owner f := by
  have howner := h.layout.page a p f hp hmap
  exact ⟨by simp [howner], by simp [howner], hdir⟩

theorem Owned.plain_process (h : Owned s dir owner) (hp : (Context.process t).HasPage p)
    (hmap : s.map dir (.process t) p = some f) : Layout.Plain dir owner f := by
  refine h.plain hp hmap fun u hu => ?_
  obtain ⟨q, hq⟩ := h.layout.dirOwner u f hu
  rw [h.layout.page _ p f hp hmap] at hq
  cases hq

theorem Owned.frame (h : Owned s dir owner) (hc : c.directory dir = some (frameNo s.cr3))
    (hseen : Seen c a) (hp : a.HasPage p) : s.frame p = s.map dir a p :=
  h.layout.pageFrame_seen hc hseen hp

theorem Owned.writable (h : Owned s dir owner) (hc : c.directory dir = some (frameNo s.cr3))
    (hseen : Seen c a) (hp : a.HasPage p) (hmap : s.map dir a p = some f)
    (hplain : Layout.Plain dir owner f) : s.Writable p f := by
  obtain ⟨d, hd⟩ := directory_seen hc hseen
  have hpde := hmap
  rw [PagedMem.map, mapping_of_directory hd] at hpde
  refine ⟨hp.lt, (h.frame hc hseen hp).trans hmap, hplain.ne_directory h.layout hc, ?_⟩
  rw [h.layout.word_seen hc hseen hd hp]
  intro heq
  exact hplain.notTable a _ (heq ▸ h.layout.table a d _ hd hp (present_of_pageFrame hpde))

/-- Such a frame is overwritten. -/
theorem Owned.write (h : Owned s dir owner) (hplain : Layout.Plain dir owner f) (lo hi : Nat)
    (w : Nat → UInt32) : Owned (s.write f lo hi w) dir owner ∧
      ∀ b q, b.HasPage q → (s.write f lo hi w).map dir b q = s.map dir b q := by
  obtain ⟨hlayout, hmap⟩ := h.layout.write hplain lo hi w
  have hgrow : Owned (s.write f lo hi w) dir owner := by
    have hvaddr : ∀ b, (s.write f lo hi w).vaddrOf b = s.vaddrOf b := by
      intro b
      cases b <;> rfl
    refine ⟨hlayout, ?_, h.low, h.apart, ?_, ?_, ?_, ?_, ?_, h.thread, ?_⟩
    · intro pf
      have hpf := h.pool pf
      cases pf <;> exact hpf
    · intro pf
      have hpf := h.used pf
      cases pf <;> exact hpf
    · intro b
      have hb := h.home b
      cases b <;> exact hb
    · intro b d hb
      rw [hvaddr]
      exact h.covers b d hb
    · intro b q g hq hg
      rw [hvaddr]
      exact h.marked b q g hq ((hmap b q hq.hasPage).symm.trans hg)
    · intro t d ht
      obtain ⟨hne, q, hq, hheap, hd⟩ := h.pgDir t d ht
      exact ⟨hne, q, hq, hheap, (hmap .kernel q hheap.hasPage).trans hd⟩
    · intro t ht
      rcases h.pcb t ht with hmain | ⟨q, hq, hheap, hd⟩
      · exact .inl hmain
      · refine .inr ⟨q, hq, hheap, ?_⟩
        rw [show (s.write f lo hi w).map dir .kernel q = s.map dir .kernel q from
          hmap .kernel q hheap.hasPage]
        exact hd
  exact ⟨hgrow, hmap⟩

/-- A frame that was nobody's may be written to. -/
theorem Grow.write (h : Grow dir a S s owner s' owner') (howned : Owned s' dir owner')
    (hplain : Layout.Plain dir owner' f) (hf : owner f = .nobody) (lo hi : Nat) (w : Nat → UInt32) :
    Grow dir a S s owner (s'.write f lo hi w) owner' where
  maps b q hb hne := ((howned.write hplain lo hi w).2 b q hb).trans (h.maps b q hb hne)
  kept := h.kept
  words b q g i hg hdir hlt hi := by
    rw [← h.words b q g i hg hdir hlt hi]
    refine PhysMem.word_write_ne hlt hi ?_
    rintro rfl
    rw [hf] at hg
    cases hg
  vaddrs b hb := by
    rw [← h.vaddrs b hb]
    cases b <;> rfl
  pgDir := h.pgDir
  tasks := h.tasks
  cur := h.cur
  cr3 := h.cr3

theorem clearWords_add (m n : Nat) (vaddr : UInt32) (s : PagedMem) :
    clearWords (m + n) vaddr s
      = (clearWords m vaddr >>= fun _ => clearWords n (vaddr + UInt32.ofNat (4 * m))) s := by
  induction m generalizing vaddr s with
  | zero =>
      rw [Nat.zero_add]
      show _ = clearWords n (vaddr + 0) s
      rw [UInt32.add_zero]
  | succ m ih =>
      have hnext : vaddr + 4 + UInt32.ofNat (4 * m) = vaddr + UInt32.ofNat (4 * (m + 1)) := by
        apply UInt32.toNat_inj.mp
        simp only [UInt32.toNat_add, UInt32.toNat_ofNat', UInt32.reduceToNat]
        omega
      rw [show m + 1 + n = (m + n) + 1 by omega, clearWords, clearWords, bind_assoc]
      cases hstore : storeWord vaddr 0 s with
      | error e => rw [bind_of_error hstore, bind_of_error hstore]
      | ok r =>
          rw [bind_of_run (show storeWord vaddr 0 s = .ok (r.1, r.2) from hstore),
            bind_of_run (show storeWord vaddr 0 s = .ok (r.1, r.2) from hstore), ih, hnext]

/-- The `memset` of pages that were nobody's in the state `s`, which has grown to `s₁`. -/
theorem clearPages_spec (h₀ : Owned s dir owner) (h : Owned s₁ dir owner₁)
    (hgrow : Grow dir a S s owner s₁ owner₁) (hc : c.directory dir = some (frameNo s₁.cr3))
    (hseen : Seen c a) (hv : vaddr.toNat = 4096 * lo) (hheap : ∀ q, From lo n q → a.HeapPage q)
    (hgained : Gained dir a (From lo n) owner s₁) :
    wp Halt.PagesShort (clearWords (1024 * n) vaddr) (fun _ s' => Owned s' dir owner₁ ∧
      Grow dir a S s owner s' owner₁ ∧ (∀ b q, b.HasPage q → s'.map dir b q = s₁.map dir b q) ∧
      (∀ b, s'.vaddrOf b = s₁.vaddrOf b) ∧ (∀ pf, s'.pool pf = s₁.pool pf) ∧
      (∀ q f i, From lo n q → s₁.map dir a q = some f → i < 1024 → s'.phys.word f i = 0) ∧
      ∀ f i, (∀ q, From lo n q → s₁.map dir a q ≠ some f) → f < 2 ^ 20 → i < 1024 →
        s'.phys.word f i = s₁.phys.word f i) s₁ := by
  induction n generalizing s₁ vaddr lo with
  | zero =>
      exact wp_pure ⟨h, hgrow, fun _ _ _ => rfl, fun _ => rfl, fun _ => rfl,
        fun q _ _ hq => absurd hq.2 (by omega), fun _ _ _ _ _ => rfl⟩
  | succ n ih =>
      have hin : From lo (n + 1) lo := ⟨le_rfl, by omega⟩
      have hpage := (hheap lo hin).hasPage
      have hlast := (hheap _ ⟨show lo ≤ lo + n by omega, by omega⟩).hasPage.lt
      obtain ⟨f, hmap, hnobody⟩ := hgained lo hin
      have hplain : Layout.Plain dir owner₁ f := h.plain hpage hmap fun t ht =>
        h₀.layout.owner_directory (a := .process t) ht hnobody
      have hrun := clearWords_run (h.writable hc hseen hpage hmap hplain)
        (show vaddr.toNat = 4096 * lo + 4 * 0 by omega) (show 0 + 1024 ≤ 1024 by omega)
      obtain ⟨howned₂, hmap₂⟩ := h.write hplain 0 (0 + 1024) fun _ => 0
      have hgrow₂ := hgrow.write h hplain hnobody 0 (0 + 1024) fun _ => 0
      have hlt := mapping_lt hmap
      have hwords : ∀ g i, g < 2 ^ 20 → i < 1024 → (s₁.write f 0 (0 + 1024) fun _ => 0).phys.word g i
          = if g = f then 0 else s₁.phys.word g i := by
        intro g i hg hi
        rw [PagedMem.word_write hg hi]
        exact if_congr (by omega) rfl rfl
      have hnext : n ≠ 0 → (vaddr + UInt32.ofNat (4 * 1024)).toNat = 4096 * (lo + 1) := by
        intro hn
        rw [UInt32.toNat_add, hv, UInt32.toNat_ofNat']
        omega
      have hne : ∀ q, From (lo + 1) n q → s₁.map dir a q ≠ some f := by
        intro q hq hqf
        have hinj := h.layout.page_inj (hheap q ⟨by omega, by omega⟩).hasPage hpage hqf hmap
        omega
      unfold wp
      rw [show 1024 * (n + 1) = 1024 + 1024 * n by omega, clearWords_add, bind_of_run hrun]
      by_cases hn : n = 0
      · subst hn
        refine ⟨howned₂, hgrow₂, hmap₂, fun b => by cases b <;> rfl, fun pf => by cases pf <;> rfl, ?_, ?_⟩
        · intro q g i hq hg hi
          obtain rfl : q = lo := by omega
          rw [hmap] at hg
          cases hg
          rw [hwords f i hlt hi, if_pos rfl]
        · intro g i hg hlt hi
          rw [hwords g i hlt hi, if_neg]
          rintro rfl
          exact hg lo hin hmap
      refine wp_mono (ih howned₂ hgrow₂ hc (hnext hn) (fun q hq => hheap q ⟨by omega, by omega⟩) ?_) ?_
      · intro q hq
        obtain ⟨g, hg, hg'⟩ := hgained q ⟨by omega, by omega⟩
        exact ⟨g, (hmap₂ a q (hheap q ⟨by omega, by omega⟩).hasPage).trans hg, hg'⟩
      rintro - s' ⟨howned, hgrow', hmap', hvaddr', hpool', hzero, hother⟩
      refine ⟨howned, hgrow', fun b q hb => (hmap' b q hb).trans (hmap₂ b q hb), ?_, ?_, ?_, ?_⟩
      · intro b
        rw [hvaddr']
        cases b <;> rfl
      · intro pf
        rw [hpool']
        cases pf <;> rfl
      · intro q g i hq hg hi
        by_cases hql : q = lo
        · subst hql
          rw [hmap] at hg
          cases hg
          rw [hother f i ?_ hlt hi, hwords f i hlt hi, if_pos rfl]
          intro r hr hrf
          rw [hmap₂ a r (hheap r ⟨by omega, by omega⟩).hasPage] at hrf
          exact hne r hr hrf
        · have hq' : From lo (n + 1) q := hq
          refine hzero q g i ⟨by omega, by omega⟩ ?_ hi
          rw [hmap₂ a q (hheap q hq').hasPage, hg]
      · intro g i hg hglt hi
        rw [hother g i ?_ hglt hi, hwords g i hglt hi, if_neg]
        · rintro rfl
          exact hg lo hin hmap
        · intro q hq hqg
          rw [hmap₂ a q (hheap q ⟨by omega, by omega⟩).hasPage] at hqg
          exact hg q ⟨by omega, by omega⟩ hqg

/-! ### Virtual addresses -/

/-- There is room for `n` pages one behind the other. -/
def Roomy (v : VirtualAddr) (n : Nat) : Prop := n = 1 ∨ v.vaddrBitmap.HasRun n

/-- All pages in front of `lo` are taken. -/
def FullBelow (v : VirtualAddr) (lo : Nat) : Prop :=
  ∀ q, v.vaddrStart / 4096 ≤ q → q < lo → v.Marked (4096 * q)

/-- Then `vaddr_get` finds it, inside of the bitmap; for one page it finds the first. -/
theorem vaddrGet_roomy {v v' : VirtualAddr} {r : Option Nat} (hv : v.Fits) (hn : 0 < n)
    (hroom : Roomy v n) (h : vaddrGet v pf n = .ok (v', r)) : ∃ lo, r = some (4096 * lo) ∧
      TakesPages v v' (4096 * lo) n ∧ v.vaddrStart / 4096 ≤ lo ∧
      lo + n ≤ v.vaddrStart / 4096 + 8 * v.vaddrBitmap.bmapBytesLen ∧ (n = 1 → FullBelow v lo) := by
  have hstart := hv.start
  have haligned := hv.aligned
  have htop := hv.top
  obtain ⟨idx, hscan, hidx, hbelow⟩ : ∃ idx : Nat, v.vaddrBitmap.bitmapScan n = .ok idx ∧
      idx + n ≤ 8 * v.vaddrBitmap.bmapBytesLen ∧
      (n = 1 → ∀ i < idx, v.vaddrBitmap.bitmapScanTest i = true) := by
    rcases hroom with rfl | hrun
    · cases hscan : v.vaddrBitmap.bitmapScan 1 with
      | error e =>
          rw [vaddrGet, hscan] at h
          cases h
      | ok i =>
          obtain ⟨idx, rfl, hlt, -, hbelow⟩ := Bitmap.scan_one (by omega) hscan
          exact ⟨idx, rfl, hlt, fun _ => hbelow⟩
    · obtain ⟨idx, hfirst⟩ := hrun.exists_first
      refine ⟨idx, hfirst.scan (by omega) hn, hfirst.inside, ?_⟩
      rintro rfl i hi
      exact Bitmap.not_free.mp fun hfree => hfirst.first i hi (IsRun.one.mpr hfree)
  have hres : r = some (v.vaddrStart + 4096 * idx) := by
    have haddr : (v.vaddrStart + idx * pageSize) % 2 ^ 32 = v.vaddrStart + 4096 * idx := by
      rw [show pageSize = 4096 from rfl]
      omega
    rw [vaddrGet, hscan, ok_bind, if_neg (by omega)] at h
    simp only [Int.toNat_natCast, haddr] at h
    split_ifs at h with hpf hzero hzero
    · omega
    · obtain ⟨u, -, h⟩ := bind_eq_ok.mp h
      exact (Prod.mk.inj (Except.ok.inj h)).2.symm
    · omega
    · exact (Prod.mk.inj (Except.ok.inj h)).2.symm
  rcases vaddrGet_ok hv hn h with ⟨hnone, -⟩ | ⟨p, hp, htakes⟩
  · rw [hres] at hnone
    cases hnone
  · rw [hres] at hp
    cases hp
    have hsplit : v.vaddrStart + 4096 * idx = 4096 * (v.vaddrStart / 4096 + idx) := by omega
    rw [hsplit] at hres htakes
    refine ⟨_, hres, htakes, by omega, by omega, fun hone q hq hlt => ?_⟩
    exact ⟨by omega, by omega, by omega, hbelow hone _ (by omega)⟩

/-- The virtual addresses of a space change, and what is mapped is still marked. -/
theorem Owned.withVaddrs (h : Owned s dir owner) (v' : VirtualAddr)
    (ha : a = .kernel ∨ a = .process s.cur) (hstart : v'.vaddrStart = (s.vaddrOf a).vaddrStart)
    (hlen : v'.vaddrBitmap.bmapBytesLen = (s.vaddrOf a).vaddrBitmap.bmapBytesLen)
    (hmarked : ∀ q f, a.HeapPage q → s.map dir a q = some f → v'.Holds q) :
    Owned (s.withVaddrs v' a.flag) dir owner ∧ Grow dir a S s owner (s.withVaddrs v' a.flag) owner ∧
      (s.withVaddrs v' a.flag).vaddrOf a = v' ∧ (s.withVaddrs v' a.flag).phys = s.phys ∧
      ∀ pf, (s.withVaddrs v' a.flag).pool pf = s.pool pf := by
  have hself : (s.withVaddrs v' a.flag).vaddrOf a = v' := by
    rcases ha with rfl | rfl
    · rfl
    · show (if s.cur = s.cur then _ else _ : PageTask).userProcessVaddr = v'
      rw [if_pos rfl]
  have hother : ∀ b, b ≠ a → (s.withVaddrs v' a.flag).vaddrOf b = s.vaddrOf b := by
    intro b hb
    rcases ha with rfl | rfl
    · cases b with
      | kernel => exact absurd rfl hb
      | process u => rfl
    · cases b with
      | kernel => rfl
      | process u =>
          have hne : u ≠ s.cur := by
            rintro rfl
            exact hb rfl
          show (if u = s.cur then _ else _ : PageTask).userProcessVaddr = _
          rw [if_neg hne]
          rfl
  have hpgDir : ∀ t, ((s.withVaddrs v' a.flag).task t).pgDir = (s.task t).pgDir := by
    intro t
    rcases ha with rfl | rfl
    · rfl
    · show (if t = s.cur then _ else _ : PageTask).pgDir = _
      by_cases ht : t = s.cur
      · rw [if_pos ht, ht]
      · rw [if_neg ht]
  have hphys : (s.withVaddrs v' a.flag).phys = s.phys := by rcases ha with rfl | rfl <;> rfl
  have htasks : (s.withVaddrs v' a.flag).tasks = s.tasks := by rcases ha with rfl | rfl <;> rfl
  have hmap : ∀ b q, (s.withVaddrs v' a.flag).map dir b q = s.map dir b q := by
    intro b q
    rw [PagedMem.map, hphys]
    rfl
  have hgrow : ∀ S, Grow dir a S s owner (s.withVaddrs v' a.flag) owner := by
    intro S
    refine ⟨⟨fun b q _ _ => hmap b q, hother, hpgDir, htasks, ?_, ?_⟩, fun _ _ => rfl,
      fun _ _ _ _ _ _ _ _ => ?_⟩
    · rcases ha with rfl | rfl <;> rfl
    · rcases ha with rfl | rfl <;> rfl
    · rw [hphys]
  have hpool : ∀ pf, (s.withVaddrs v' a.flag).pool pf = s.pool pf := by
    intro pf
    rcases ha with rfl | rfl <;> cases pf <;> rfl
  refine ⟨h.grow (hgrow fun _ => False) ?_ (fun _ hS => hS.elim) ?_ ?_ ?_ ?_ ?_ ?_ ?_, hgrow S, hself,
    hphys, hpool⟩
  · rw [hphys]
    exact h.layout
  · intro pf
    rw [hpool]
    exact h.pool pf
  · intro pf
    rw [hpool]
  · intro pf
    rw [hpool]
  · intro pf f
    rw [hpool]
    exact h.used pf f
  · exact h.home
  · intro b d hb
    by_cases hba : b = a
    · subst hba
      have hcovers := h.covers b d hb
      rw [hself]
      refine ⟨hcovers.fits.congr hstart hlen, fun i hi => ?_⟩
      rw [hstart]
      exact hcovers.pages i (hlen ▸ hi)
    · rw [hother b hba]
      exact h.covers b d hb
  · intro b q f hq hf
    rw [hmap] at hf
    by_cases hba : b = a
    · subst hba
      rw [hself]
      exact hmarked q f hq hf
    · rw [hother b hba]
      exact h.marked b q f hq hf

/-- Pages of a space are marked that were free. -/
theorem Owned.withTakes (h : Owned s dir owner) {v' : VirtualAddr} {m : Nat}
    (ha : a = .kernel ∨ a = .process s.cur) (htakes : TakesPages (s.vaddrOf a) v' m n) :
    Owned (s.withVaddrs v' a.flag) dir owner ∧ Grow dir a S s owner (s.withVaddrs v' a.flag) owner ∧
      (s.withVaddrs v' a.flag).vaddrOf a = v' ∧ (s.withVaddrs v' a.flag).phys = s.phys ∧
      ∀ pf, (s.withVaddrs v' a.flag).pool pf = s.pool pf :=
  h.withVaddrs v' ha htakes.start htakes.len fun q f hq hf =>
    have hholds := h.marked a q f hq hf
    ⟨(htakes.marked _).mpr (.inl hholds.marked), by rw [htakes.start, htakes.len]; exact hholds.high⟩

/-! ### Calls that take pages -/

/-- `n` pages from `lo` on were free and are there now. -/
structure Got (dir : Nat → Option Nat) (a : Context) (lo n : Nat) (s : PagedMem) (owner : Nat → Owner)
    (s' : PagedMem) (owner' : Nat → Owner) : Prop where
  owned : Owned s' dir owner'
  grow : Grow dir a (From lo n) s owner s' owner'
  takes : TakesPages (s.vaddrOf a) (s'.vaddrOf a) (4096 * lo) n
  heap : ∀ q, From lo n q → a.HeapPage q
  free : ∀ q, From lo n q → s.map dir a q = none
  gained : Gained dir a (From lo n) owner s'
  books : ∀ F, Books F s owner → Books F s' owner'

theorem vaddrs_flag (ha : a = .kernel ∨ a = .process s.cur) : s.vaddrs a.flag = s.vaddrOf a := by
  rcases ha with rfl | rfl <;> rfl

/-- The pages of the space that are found free. -/
theorem Owned.free_pages (h : Owned s dir owner) (hd : a.directory dir = some d) {v' : VirtualAddr}
    (htakes : TakesPages (s.vaddrOf a) v' (4096 * lo) n)
    (hlow : (s.vaddrOf a).vaddrStart / 4096 ≤ lo) (hhigh : lo + n ≤
      (s.vaddrOf a).vaddrStart / 4096 + 8 * (s.vaddrOf a).vaddrBitmap.bmapBytesLen)
    (hq : From lo n q) : a.HeapPage q ∧ s.map dir a q = none := by
  have hheap := (h.covers a d hd).pages (q - (s.vaddrOf a).vaddrStart / 4096) (by omega)
  rw [show (s.vaddrOf a).vaddrStart / 4096 + (q - (s.vaddrOf a).vaddrStart / 4096) = q by omega] at hheap
  refine ⟨hheap, ?_⟩
  by_contra hsome
  obtain ⟨f, hf⟩ := Option.ne_none_iff_exists'.mp hsome
  exact htakes.free (4096 * q) (by omega) (by omega) (h.marked a q f hheap hf).marked

/-- `malloc_page` -/
theorem mallocPage_spec (h : Owned s dir owner) (hc : c.directory dir = some (frameNo s.cr3))
    (hseen : Seen c a) (ha : a = .kernel ∨ a = .process s.cur) (hroom : Roomy (s.vaddrOf a) n) :
    wp Halt.PagesShort (mallocPage a.flag n) (fun r s' => ∃ lo owner',
      r = some (UInt32.ofNat (4096 * lo)) ∧ Got dir a lo n s owner s' owner' ∧
      (n = 1 → FullBelow (s.vaddrOf a) lo)) s := by
  obtain ⟨d, hd⟩ := directory_seen hc hseen
  have hcovers := h.covers a d hd
  refine wp_bind (wp_lift (fun u hassert => ?_) fun e he => ?_)
  · obtain ⟨hn, -⟩ := ASSERT_eq_ok.mp hassert
    refine wp_get_bind (wp_bind (wp_lift ?_ fun e he => vaddrGet_short he))
    rintro ⟨v', r⟩ hget
    rw [vaddrs_flag ha] at hget
    obtain ⟨lo, rfl, htakes, hlow, hhigh, hfirst⟩ := vaddrGet_roomy hcovers.fits hn hroom hget
    obtain ⟨howned₁, hgrow₁, hself, hphys, hpool₁⟩ := h.withTakes (S := From lo n) ha htakes
    have hfree := fun q hq => h.free_pages (q := q) hd htakes hlow hhigh hq
    have hlast := (hfree (lo + n - 1) ⟨by omega, by omega⟩).1.hasPage.lt
    have hv : (UInt32.ofNat (4096 * lo)).toNat = 4096 * lo := by
      rw [UInt32.toNat_ofNat']
      omega
    refine wp_bind (wp_set ?_)
    have hloop := mallocPageLoop_spec howned₁ (hgrow₁.cr3.symm ▸ hc) hseen hv
      (fun q hq => (hfree q hq).1) ?_ ?_
    · refine wp_bind (wp_mono hloop ?_)
      rintro r s' ⟨rfl, owner', howned, hgrow, hvaddr, hgained, hbooks⟩
      refine wp_pure ⟨lo, owner', rfl, ⟨howned, hgrow₁.trans hgrow, ?_, fun q hq => (hfree q hq).1,
        fun q hq => (hfree q hq).2, hgained, fun F hF => hbooks F (hF.congr hpool₁)⟩, hfirst⟩
      rw [hvaddr, hself]
      exact htakes
    · intro q hq
      rw [PagedMem.map, hphys]
      exact (hfree q hq).2
    · intro q hq
      rw [hself]
      exact htakes.holds hcovers.fits hhigh hq
  · rw [(ASSERT_eq_error he).2]
    exact .inl rfl

/-- `get_kernel_pages` and `get_user_pages`: the pages are full of zeros. -/
theorem getPages_spec (h : Owned s dir owner) (hc : c.directory dir = some (frameNo s.cr3))
    (hseen : Seen c a) (ha : a = .kernel ∨ a = .process s.cur) (hroom : Roomy (s.vaddrOf a) n) :
    wp Halt.PagesShort (getPages a.flag n) (fun r s' => ∃ lo owner',
      r = some (UInt32.ofNat (4096 * lo)) ∧ Got dir a lo n s owner s' owner' ∧
      (n = 1 → FullBelow (s.vaddrOf a) lo) ∧
      ∀ q f i, From lo n q → s'.map dir a q = some f → i < 1024 → s'.phys.word f i = 0) s := by
  refine wp_bind (wp_mono (mallocPage_spec h hc hseen ha hroom) ?_)
  rintro r s₁ ⟨lo, owner₁, rfl, hgot, hfirst⟩
  have hc₁ : c.directory dir = some (frameNo s₁.cr3) := by rw [hgot.grow.cr3, hc]
  by_cases hn : n = 0
  · subst hn
    exact wp_pure ⟨lo, owner₁, rfl, hgot, hfirst, fun q f i hq => absurd hq.2 (by omega)⟩
  have hlast := (hgot.heap lo ⟨le_rfl, by omega⟩).hasPage.lt
  have hv : (UInt32.ofNat (4096 * lo)).toNat = 4096 * lo := by
    rw [UInt32.toNat_ofNat']
    omega
  refine wp_bind (wp_mono (clearPages_spec h hgot.owned hgot.grow hc₁ hseen hv hgot.heap
    hgot.gained) ?_)
  rintro - s' ⟨howned, hgrow, hmap, hvaddr, hpool, hzero, -⟩
  refine wp_pure ⟨lo, owner₁, rfl, ⟨howned, hgrow, ?_, hgot.heap, hgot.free, ?_,
    fun F hF => (hgot.books F hF).congr hpool⟩, hfirst, ?_⟩
  · rw [hvaddr]
    exact hgot.takes
  · intro q hq
    rw [hmap a q (hgot.heap q hq).hasPage]
    exact hgot.gained q hq
  · intro q f i hq hf
    rw [hmap a q (hgot.heap q hq).hasPage] at hf
    exact hzero q f i hq hf

/-- One page is marked. -/
theorem takes_one {v : VirtualAddr} (hv : v.Fits) (hlow : v.vaddrStart / 4096 ≤ p) (hp : p < 2 ^ 20)
    (hfree : ¬ v.Marked (4096 * p)) :
    TakesPages v (v.withRun ((4096 * p - v.vaddrStart) / 4096) 1 true) (4096 * p) 1 := by
  have haligned := hv.aligned
  have hset := fun q => marked_withRun (n := 1) hv (p := 4096 * p) (by omega) (by omega) true q
  refine ⟨rfl, Bitmap.bmapBytesLen_setRun _ _ _ _, by omega, by omega, by omega, ?_, ?_⟩
  · intro q hq hq' hm
    have haligned' := hm.1
    rw [show q = 4096 * p by omega] at hm
    exact hfree hm
  · intro q
    rw [hset]
    by_cases hin : 4096 * p ≤ q ∧ q < 4096 * p + 4096 * 1
    · rw [if_pos hin]
      exact ⟨fun hm => .inr ⟨hm.1, hin⟩, fun hm => ⟨by rcases hm with hm | hm <;> exact hm.1,
        by omega, by omega, rfl⟩⟩
    · rw [if_neg hin]
      exact ⟨.inl, fun hm => hm.resolve_right fun hc => hin hc.2⟩

/-- What `get_a_page` asks of a page: it is in the space, none of the first, and nothing is there. -/
structure MayGet (s : PagedMem) (a : Context) (p : Nat) : Prop where
  low : (s.vaddrOf a).vaddrStart / 4096 < p
  high : p < (s.vaddrOf a).vaddrStart / 4096 + 8 * (s.vaddrOf a).vaddrBitmap.bmapBytesLen
  free : ¬ (s.vaddrOf a).Marked (4096 * p)

/-- `get_a_page` -/
theorem getAPage_spec (h : Owned s dir owner) (hc : c.directory dir = some (frameNo s.cr3))
    (hseen : Seen c a) (ha : a = .kernel ∨ a = .process s.cur)
    (hprocess : s.IsProcess s.cur ↔ a.flag = .user) (hv : vaddr.toNat = 4096 * p)
    (hget : MayGet s a p) (hnone : s.map dir a p = none) :
    wp Halt.PagesShort (getAPage a.flag vaddr) (fun r s' => r = some vaddr ∧ ∃ owner',
      Got dir a p 1 s owner s' owner') s := by
  obtain ⟨d, hd⟩ := directory_seen hc hseen
  have hfits := (h.covers a d hd).fits
  have hstart := hfits.start
  have haligned := hfits.aligned
  have htop := hfits.top
  have hlow := hget.low
  have hhigh := hget.high
  have hheap : a.HeapPage p := by
    have hin := (h.covers a d hd).pages (p - (s.vaddrOf a).vaddrStart / 4096) (by omega)
    rwa [show (s.vaddrOf a).vaddrStart / 4096 + (p - (s.vaddrOf a).vaddrStart / 4096) = p by omega] at hin
  have hlt := hheap.hasPage.lt
  have htakes := takes_one hfits (by omega) hlt hget.free
  have hidx : sub32 vaddr.toNat (s.vaddrOf a).vaddrStart / pageSize
      = (4096 * p - (s.vaddrOf a).vaddrStart) / 4096 := by
    rw [sub32, hv, show pageSize = 4096 from rfl]
    omega
  obtain ⟨howned₁, hgrow₁, hself, hphys, hpool₁⟩ := h.withTakes (S := From p 1) ha htakes
  refine wp_get_bind (wp_ite (fun _ => ?_) fun hno => absurd hprocess hno)
  rw [vaddrs_flag ha]
  simp only [hidx]
  refine wp_bind (wp_of_run (assertPaged_pos (by omega) _ _) (wp_bind (wp_set ?_)))
  refine wp_bind (wp_mono (takeFrame_spec howned₁ a (From p 1)) ?_)
  rintro r s₂ ⟨f, rfl, hf, howned₂, hgrow₂, hphys₂, hvaddr₂, -, hbooks₂⟩
  have hdiv : vaddr.toNat / 4096 = p := by omega
  refine wp_bind (wp_mono (pageTableAdd_spec howned₂ (c := c) ?_ hseen (hdiv.symm ▸ hheap) ?_ hf ?_) ?_)
  · rw [hgrow₂.cr3, hgrow₁.cr3, hc]
  · rw [PagedMem.map, hphys₂, hphys, hdiv]
    exact hnone
  · rw [hvaddr₂, hself, hdiv]
    exact htakes.holds hfits (show p + 1 ≤ _ by omega) ⟨le_rfl, by omega⟩
  rintro - s' ⟨owner', howned, hgrow, hmap, hvaddr, hbooks⟩
  rw [hdiv] at hgrow hmap
  have hin : ∀ q, From p 1 q → q = p := fun q hq => by omega
  refine wp_pure ⟨rfl, owner', howned,
    (hgrow₁.trans hgrow₂).trans (hgrow.mono _ (by rintro q rfl; exact ⟨le_rfl, by omega⟩)), ?_, ?_, ?_, ?_,
    fun F hF => hbooks F (hbooks₂ F (hF.congr hpool₁))⟩
  · rw [hvaddr, hvaddr₂, hself]
    exact htakes
  · intro q hq
    rw [hin q hq]
    exact hheap
  · intro q hq
    rw [hin q hq]
    exact hnone
  · intro q hq
    rw [hin q hq]
    exact ⟨f, hmap, hf.nobody⟩

/-- `get_a_page_without_opvaddrbitmap`: the page is marked already. -/
theorem getAPageWithoutOpvaddrbitmap_spec (h : Owned s dir owner)
    (hc : c.directory dir = some (frameNo s.cr3)) (hseen : Seen c a) (hv : vaddr.toNat = 4096 * p)
    (hp : a.HeapPage p) (hnone : s.map dir a p = none) (hmarked : (s.vaddrOf a).Holds p) :
    wp Halt.PagesShort (getAPageWithoutOpvaddrbitmap a.flag vaddr) (fun r s' => r = some vaddr ∧
      ∃ owner', Owned s' dir owner' ∧ Grow dir a (From p 1) s owner s' owner' ∧
        (∀ b, s'.vaddrOf b = s.vaddrOf b) ∧ Gained dir a (From p 1) owner s' ∧
        ∀ F, Books F s owner → Books F s' owner') s := by
  refine wp_bind (wp_mono (takeFrame_spec h a (From p 1)) ?_)
  rintro r s₁ ⟨f, rfl, hf, howned₁, hgrow₁, hphys₁, hvaddr₁, -, hbooks₁⟩
  have hdiv : vaddr.toNat / 4096 = p := by omega
  refine wp_bind (wp_mono (pageTableAdd_spec howned₁ (c := c) ?_ hseen (hdiv.symm ▸ hp) ?_ hf ?_) ?_)
  · rw [hgrow₁.cr3, hc]
  · rw [PagedMem.map, hphys₁, hdiv]
    exact hnone
  · rw [hvaddr₁, hdiv]
    exact hmarked
  rintro - s' ⟨owner', howned, hgrow, hmap, hvaddr, hbooks⟩
  rw [hdiv] at hgrow hmap
  refine wp_pure ⟨rfl, owner', howned,
    hgrow₁.trans (hgrow.mono _ (by rintro q rfl; exact ⟨le_rfl, by omega⟩)),
    fun b => by rw [hvaddr, hvaddr₁], fun q hq => ?_, fun F hF => hbooks F (hbooks₁ F hF)⟩
  obtain rfl : q = p := by omega
  exact ⟨f, hmap, hf.nobody⟩

end ZyOs.Paged
