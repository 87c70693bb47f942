/-
What `mfree_page` does to the address spaces.

A page that is mapped is unmapped and its frame is nobody's again; the frame stays as it is, and
so does everything else.  The pages of a directory or of a PCB are not given back this way, and
the kernel never does.
-/
import ZyOs.Proofs.AddressCalls

namespace ZyOs.Paged

open Library Prog

variable {s s' s₁ s₂ : PagedMem} {dir : Nat → Option Nat} {owner owner' owner₁ owner₂ : Nat → Owner}
  {a b c : Context} {pf : PoolFlag} {d f g i n p q t lo : Nat} {vaddr : UInt32} {S S' : Nat → Prop}

/-- Pages `S` of the space `a` have been taken away, and nothing else has changed. -/
structure Shrink (dir : Nat → Option Nat) (a : Context) (S : Nat → Prop) (s : PagedMem)
    (owner : Nat → Owner) (s' : PagedMem) (owner' : Nat → Owner) : Prop
    extends Elsewhere dir a S s s' where
  gone : ∀ q, S q → s'.map dir a q = none
  kept : ∀ f, (∀ q, S q → s.map dir a q ≠ some f) → owner' f = owner f
  words : ∀ f i, (∀ b k, owner f ≠ .table b k) → f < 2 ^ 20 → i < 1024 →
    s'.phys.word f i = s.phys.word f i

/-- A page that may be given back: a page of the heap, neither a directory nor a PCB. -/
structure MayFree (s : PagedMem) (dir : Nat → Option Nat) (a : Context) (p f : Nat) : Prop where
  heap : a.HeapPage p
  mapped : s.map dir a p = some f
  notDir : ∀ t, dir t ≠ some f
  notPcb : a = .kernel → ∀ t, t ∈ s.tasks ∨ dir t ≠ none → t ≠ 4096 * p

/-! ### One page -/

/-- `addr_v2p` of a page that is mapped. -/
theorem translate_run (h : Owned s dir owner) (hc : c.directory dir = some (frameNo s.cr3))
    (hseen : Seen c a) (hp : a.HasPage p) (hv : vaddr.toNat = 4096 * p)
    (hmap : s.map dir a p = some f) : translate vaddr s = .ok (UInt32.ofNat (4096 * f), s) := by
  have hdiv : vaddr.toNat / 4096 = p := by omega
  obtain ⟨d, hd⟩ := directory_seen hc hseen
  have hword := h.layout.word_seen hc hseen hd hp
  have hpde := hmap
  rw [PagedMem.map, mapping_of_directory hd] at hpde
  have hpresent := present_of_pageFrame hpde
  rw [pageFrame_of_present hpresent] at hpde
  split_ifs at hpde with hpte
  have hf : (s.phys.word (frameNo (s.phys.word d (p / 1024))) (p % 1024)).toNat / 4096 = f :=
    Option.some.inj hpde
  have hload : loadWord (ptePtr vaddr) s = _ :=
    loadPte (h.isDir hc) (by rw [hdiv, hword]; exact hpresent)
  rw [hdiv, hword] at hload
  have hwalk : pageLoad s.phys s.cr3 (ptePtr vaddr)
      = some (s.phys.word (frameNo (s.phys.word d (p / 1024))) (p % 1024)) := by
    rw [loadWord, bind_of_run (get_run s)] at hload
    unfold pageLoad
    cases hw : pageWalk s.phys s.cr3 (ptePtr vaddr) with
    | none =>
        rw [hw] at hload
        cases hload
    | some x =>
        rw [hw] at hload
        have hpair := Prod.mk.inj (Except.ok.inj hload)
        rw [Option.map_some, hpair.1]
  have haddr : (s.phys.word (frameNo (s.phys.word d (p / 1024))) (p % 1024) &&& 0xfffff000)
      + (vaddr &&& 0x00000fff) = UInt32.ofNat (4096 * f) := by
    have hlt := mapping_lt hmap
    apply UInt32.toNat_inj.mp
    rw [UInt32.toNat_add, toNat_and_high (k := 12) _ _ (by decide) rfl, toNat_and_low (k := 12) _ _ rfl,
      hv, UInt32.toNat_ofNat']
    omega
  have htrans : addrV2p s.phys s.cr3 vaddr = some (UInt32.ofNat (4096 * f)) := by
    rw [addrV2p, hwalk, ← haddr]
    rfl
  rw [translate, bind_of_run (get_run s), htrans]
  rfl

/-- `pfree` -/
theorem pfree_run (h : Owned s dir owner) (hf : (s.pool pf).Has f) (hlt : f < 2 ^ 20) :
    pfree (UInt32.ofNat (4096 * f)) s = .ok ((), s.withPool ((s.pool pf).mark f false) pf) := by
  have hv : (UInt32.ofNat (4096 * f)).toNat = 4096 * f := by
    rw [UInt32.toNat_ofNat']
    omega
  have hsub : ∀ pool : Pool, pool.Has f →
      sub32 (4096 * f) pool.phyAddrStart / pageSize = (4096 * f - pool.phyAddrStart) / 4096 := by
    intro pool hhas
    have hlow := hhas.1
    rw [sub32, show pageSize = 4096 from rfl]
    omega
  show Except.ok _ = _
  unfold pfreePools
  simp only [hv]
  cases pf with
  | kernel =>
      have hlow := h.below_user hf
      simp only [if_neg (show ¬ s.userPool.phyAddrStart ≤ 4096 * f by omega), hsub s.kernelPool hf]
      rfl
  | user =>
      have hlow : s.userPool.phyAddrStart ≤ 4096 * f := hf.1
      simp only [if_pos hlow, hsub s.userPool hf]
      rfl

/-- A frame that is free again leaves the books. -/
theorem Books.free {F : Nat → Prop} (h : Books F s owner) (howned : Owned s dir owner)
    (hf : (s.pool pf).Has f) (hself : s'.pool pf = (s.pool pf).mark f false)
    (hother : ∀ pf' ≠ pf, s'.pool pf' = s.pool pf') :
    Books F s' (Function.update owner f .nobody) := by
  intro pf' g hg hused
  have hgf : g ≠ f := by
    rintro rfl
    by_cases hpf : pf' = pf
    · subst hpf
      rw [hself] at hg hused
      rw [used_mark (howned.pool pf') hf hg, if_pos rfl] at hused
      exact Bool.false_ne_true hused
    · rw [hother pf' hpf] at hg
      exact hpf (howned.pools_disjoint hf hg)
  rw [Function.update_of_ne hgf]
  by_cases hpf : pf' = pf
  · subst hpf
    rw [hself] at hg hused
    rw [used_mark (howned.pool pf') hf hg, if_neg hgf] at hused
    exact h pf' g hg hused
  · rw [hother pf' hpf] at hg hused
    exact h pf' g hg hused

/-- `pfree` and `page_table_pte_remove`: the page is gone. -/
theorem freePage_run (h : Owned s dir owner) (hc : c.directory dir = some (frameNo s.cr3))
    (hseen : Seen c a) (hv : vaddr.toNat = 4096 * p) (hfree : MayFree s dir a p f) :
    ∃ s', (do pfree (UInt32.ofNat (4096 * f)); pageTablePteRemove vaddr) s = .ok ((), s') ∧
      Owned s' dir (Function.update owner f .nobody) ∧
      Shrink dir a (· = p) s owner s' (Function.update owner f .nobody) ∧
      (∀ b, s'.vaddrOf b = s.vaddrOf b) ∧
      s'.pool a.flag = (s.pool a.flag).mark f false ∧ (∀ pf ≠ a.flag, s'.pool pf = s.pool pf) ∧
      ∀ F, Books F s owner → Books F s' (Function.update owner f .nobody) := by
  have hlayout := h.layout
  have hpage := hfree.heap.hasPage
  have hlt := mapping_lt hfree.mapped
  have hdiv : vaddr.toNat / 4096 = p := by omega
  have howner := hlayout.page a p f hpage hfree.mapped
  have hhas := h.home a p f howner hfree.heap
  obtain ⟨d, hd⟩ := directory_seen hc hseen
  have hword := hlayout.word_seen hc hseen hd hpage
  have hmapped := hfree.mapped
  rw [PagedMem.map, mapping_of_directory hd] at hmapped
  have hpde := present_of_pageFrame hmapped
  set s₁ := s.withPool ((s.pool a.flag).mark f false) a.flag with hs₁
  have hphys : s₁.phys = s.phys := PagedMem.phys_withPool
  have hcr3 : s₁.cr3 = s.cr3 := PagedMem.cr3_withPool
  have hdir₁ : IsDir s₁.phys (frameNo s₁.cr3) := by
    rw [hphys, hcr3]
    exact h.isDir hc
  have hpde₁ : isPresent (s₁.phys.word (frameNo s₁.cr3) (vaddr.toNat / 4096 / 1024)) := by
    rw [hphys, hcr3, hdiv, hword]
    exact hpde
  have hload := loadPte hdir₁ hpde₁
  have hstore := fun e => storePte hdir₁ hpde₁ e
  rw [hphys, hcr3, hdiv, hword] at hload
  simp only [hphys, hcr3, hdiv, hword] at hstore
  -- the table, and its entry without the P bit
  have htable := hlayout.table a d _ hd hpage hpde
  obtain ⟨e, he, hclear⟩ : ∃ e, e = s.phys.word (frameNo (s.phys.word d (p / 1024))) (p % 1024)
      &&& ~~~ 1 ∧ ¬ isPresent e := ⟨_, rfl, not_isPresent_cleared _⟩
  have hnew := hlayout.clear hd hpage hfree.mapped hfree.notDir hclear
  have hmapOther := fun b q => hlayout.mapping_setWord_ne (b := b) (q := q) (e := e) hd hpage hpde
  have hmapSelf := hlayout.mapping_setWord_self (e := e) hd hpage hpde
  rw [if_neg hclear] at hmapSelf
  rw [bind_of_run (pfree_run h hhas hlt), pageTablePteRemove, bind_of_run hload, hstore, ← he]
  generalize frameNo (s.phys.word d (p / 1024)) = T at hnew hmapOther hmapSelf htable ⊢
  have hmap : ∀ b q, (s₁.setWord T (p % 1024) e).map dir b q
      = mapping (setWord s.phys T (p % 1024) e) dir b q := by
    intro b q
    rw [← hphys]
    rfl
  have hother : ∀ b q, b.HasPage q → ¬ (b = a ∧ q = p) →
      (s₁.setWord T (p % 1024) e).map dir b q = s.map dir b q := by
    intro b q hb hne
    exact (hmap b q).trans (hmapOther b q hb hne)
  have hgone : (s₁.setWord T (p % 1024) e).map dir a p = none := (hmap a p).trans hmapSelf
  have hvaddr : ∀ b, (s₁.setWord T (p % 1024) e).vaddrOf b = s.vaddrOf b := by
    intro b
    have hvaddr₁ : s₁.vaddrOf b = s.vaddrOf b := PagedMem.vaddrOf_withPool
    rw [← hvaddr₁]
    cases b <;> rfl
  have hpool : ∀ pf, (s₁.setWord T (p % 1024) e).pool pf = s₁.pool pf := by
    intro pf
    cases pf <;> rfl
  have hpoolSelf : s₁.pool a.flag = (s.pool a.flag).mark f false := PagedMem.pool_withPool
  have hpoolOther : ∀ pf, pf ≠ a.flag → s₁.pool pf = s.pool pf :=
    fun pf hpf => PagedMem.pool_withPool_ne hpf
  have hkeep : ∀ g, g ≠ f → Function.update owner f .nobody g = owner g :=
    fun g hg => Function.update_of_ne hg _ _
  have hkernel : ∀ q, Context.kernel.HeapPage q → ¬ (Context.kernel = a ∧ q = p) →
      (s₁.setWord T (p % 1024) e).map dir .kernel q = s.map dir .kernel q :=
    fun q hq hne => hother .kernel q hq.hasPage hne
  have hpoolSelf' : (s₁.setWord T (p % 1024) e).pool a.flag = (s.pool a.flag).mark f false :=
    (hpool a.flag).trans hpoolSelf
  have hpoolOther' : ∀ pf ≠ a.flag, (s₁.setWord T (p % 1024) e).pool pf = s.pool pf :=
    fun pf hpf => (hpool pf).trans (hpoolOther pf hpf)
  refine ⟨s₁.setWord T (p % 1024) e, rfl, ?_, ?_, hvaddr, hpoolSelf', hpoolOther',
    fun F hbooks => hbooks.free h hhas hpoolSelf' hpoolOther'⟩
  · refine ⟨?_, ?_, ?_, ?_, ?_, ?_, ?_, ?_, ?_, ?_, ?_⟩
    · show Layout (setWord s₁.phys _ _ _) dir _
      rw [hphys]
      exact hnew
    · intro pf
      rw [hpool]
      by_cases hpf : pf = a.flag
      · rw [hpf, hpoolSelf]
        exact (h.pool a.flag).mark
      · rw [hpoolOther pf hpf]
        exact h.pool pf
    · have hlow := h.low
      show 0x200000 ≤ (s₁.pool .kernel).phyAddrStart
      by_cases hpf : PoolFlag.kernel = a.flag
      · rw [hpf, hpoolSelf, ← hpf]
        exact hlow
      · rw [hpoolOther _ hpf]
        exact hlow
    · have hapart := h.apart
      show (s₁.pool .kernel).phyAddrStart
        + 4096 * (8 * (s₁.pool .kernel).poolBitmap.bmapBytesLen) ≤ (s₁.pool .user).phyAddrStart
      cases hflag : a.flag with
      | kernel =>
          rw [hpoolOther .user (by rw [hflag]; decide), ← hflag, hpoolSelf, hflag]
          exact hapart
      | user =>
          rw [hpoolOther .kernel (by rw [hflag]; decide), ← hflag, hpoolSelf, hflag]
          exact hapart
    · intro pf g hg hne
      rw [hpool] at hg ⊢
      have hgf : g ≠ f := by
        rintro rfl
        rw [Function.update_self] at hne
        exact hne rfl
      rw [hkeep g hgf] at hne
      by_cases hpf : pf = a.flag
      · subst hpf
        rw [hpoolSelf] at hg ⊢
        rw [used_mark (h.pool a.flag) hhas hg, if_neg hgf]
        exact h.used a.flag g hg hne
      · rw [hpoolOther pf hpf] at hg ⊢
        exact h.used pf g hg hne
    · intro b q g hg hq
      have hgf : g ≠ f := by
        rintro rfl
        rw [Function.update_self] at hg
        cases hg
      rw [hkeep g hgf] at hg
      have hhome := h.home b q g hg hq
      rw [hpool]
      by_cases hpf : b.flag = a.flag
      · rw [hpf] at hhome ⊢
        rw [hpoolSelf]
        exact hhome
      · rw [hpoolOther _ hpf]
        exact hhome
    · intro b d hb
      rw [hvaddr]
      exact h.covers b d hb
    · intro b q g hq hg
      rw [hvaddr]
      by_cases hsame : b = a ∧ q = p
      · obtain ⟨rfl, rfl⟩ := hsame
        rw [hgone] at hg
        cases hg
      · rw [hother b q hq.hasPage hsame] at hg
        exact h.marked b q g hq hg
    · intro t d' ht
      obtain ⟨hne, q, hq, hheap, hd'⟩ := h.pgDir t d' ht
      have htask : (s₁.setWord T (p % 1024) e).task = s.task := PagedMem.task_withPool
      rw [htask]
      refine ⟨hne, q, hq, hheap, ?_⟩
      rw [hkernel q hheap, hd']
      rintro ⟨rfl, rfl⟩
      rw [hfree.mapped] at hd'
      exact hfree.notDir t (ht.trans hd'.symm)
    · intro t ht hdir
      have htask : (s₁.setWord T (p % 1024) e).task = s.task := PagedMem.task_withPool
      have htasks : (s₁.setWord T (p % 1024) e).tasks = s.tasks := PagedMem.tasks_withPool
      rw [htask]
      exact h.thread t (htasks ▸ ht) hdir
    · intro t ht
      have htasks : (s₁.setWord T (p % 1024) e).tasks = s.tasks := PagedMem.tasks_withPool
      rw [htasks] at ht
      rcases h.pcb t ht with hmain | ⟨q, hq, hheap, hd'⟩
      · exact .inl hmain
      · refine .inr ⟨q, hq, hheap, ?_⟩
        rw [hkernel q hheap]
        · exact hd'
        · rintro ⟨rfl, rfl⟩
          exact hfree.notPcb rfl t ht hq
  · refine ⟨⟨hother, fun b _ => hvaddr b, fun t => ?_, ?_, ?_, ?_⟩, ?_, ?_, ?_⟩
    · exact congrArg (fun f => (f t).pgDir) (PagedMem.task_withPool (s := s))
    · exact PagedMem.tasks_withPool (s := s)
    · exact PagedMem.cur_withPool (s := s)
    · exact hcr3
    · rintro q rfl
      exact hgone
    · intro g hg
      refine hkeep g ?_
      rintro rfl
      exact hg p rfl hfree.mapped
    · intro g j hg hglt hj
      show (setWord s₁.phys T (p % 1024) e).word g j = _
      rw [hphys]
      refine PhysMem.word_write_ne hglt hj ?_
      rintro rfl
      exact hg a _ htable

theorem Shrink.refl (hS : ∀ q, ¬ S q) : Shrink dir a S s owner s owner :=
  ⟨.refl, fun q hq => absurd hq (hS q), fun _ _ => rfl, fun _ _ _ _ _ => rfl⟩

/-! ### Many pages -/

/-- What it asks of the frame. -/
theorem frameBelongs (h : Owned s dir owner) (hf : (s.pool a.flag).Has f) (hlt : f < 2 ^ 20) :
    FrameBelongs s a.flag (UInt32.ofNat (4096 * f)) := by
  have hv : (UInt32.ofNat (4096 * f)).toNat = 4096 * f := by
    rw [UInt32.toNat_ofNat']
    omega
  cases hflag : a.flag with
  | kernel =>
      rw [hflag] at hf
      refine ⟨?_, ?_, ?_⟩
      · rw [hv]
        exact Nat.mul_mod_right _ _
      · rw [hv]
        exact hf.1
      · rw [hv]
        exact h.below_user hf
  | user =>
      rw [hflag] at hf
      refine ⟨?_, ?_⟩
      · rw [hv]
        exact Nat.mul_mod_right _ _
      · rw [hv]
        exact hf.1

/-- The pages `lo` to `lo + n - 1` may all be given back. -/
def MayFreeAll (s : PagedMem) (dir : Nat → Option Nat) (a : Context) (lo n : Nat) : Prop :=
  ∀ q, From lo n q → ∃ f, MayFree s dir a q f

/-- The frames of these pages are free again, and no others. -/
def Freed (dir : Nat → Option Nat) (a : Context) (S : Nat → Prop) (s s' : PagedMem) : Prop :=
  (∀ f, (s'.pool a.flag).Has f ↔ (s.pool a.flag).Has f) ∧
    (∀ f, (s.pool a.flag).Has f → ((s'.pool a.flag).Used f ↔
      (s.pool a.flag).Used f ∧ ∀ q, S q → s.map dir a q ≠ some f)) ∧
    ∀ pf ≠ a.flag, s'.pool pf = s.pool pf

/-- The loops of `mfree_page`. -/
theorem mfreeLoop_spec (h : Owned s dir owner) (hc : c.directory dir = some (frameNo s.cr3))
    (hseen : Seen c a) (hv : vaddr.toNat = 4096 * lo) (hfree : MayFreeAll s dir a lo n) :
    wp (fun _ => False) (mfreeLoop a.flag n vaddr) (fun _ s' => ∃ owner', Owned s' dir owner' ∧
      Shrink dir a (From lo n) s owner s' owner' ∧ (∀ b, s'.vaddrOf b = s.vaddrOf b) ∧
      Freed dir a (From lo n) s s' ∧ ∀ F, Books F s owner → Books F s' owner') s := by
  induction n generalizing s owner vaddr lo with
  | zero =>
      have hno : ∀ q, ¬ From lo 0 q := fun q hq => by omega
      refine wp_pure ⟨owner, h, .refl hno, fun _ => rfl, ⟨fun _ => Iff.rfl, fun f _ => ?_,
        fun _ _ => rfl⟩, fun _ hbooks => hbooks⟩
      exact ⟨fun hused => ⟨hused, fun q hq => absurd hq (hno q)⟩, And.left⟩
  | succ n ih =>
      have hin : From lo (n + 1) lo := ⟨le_rfl, by omega⟩
      obtain ⟨f, hf⟩ := hfree lo hin
      have hpage := hf.heap.hasPage
      have hlt := mapping_lt hf.mapped
      have hhas := h.home a lo f (h.layout.page a lo f hpage hf.mapped) hf.heap
      obtain ⟨glast, hglast⟩ := hfree (lo + n) ⟨by omega, by omega⟩
      have hlast := hglast.heap.hasPage.lt
      have hnext : n ≠ 0 → (vaddr + 4096).toNat = 4096 * (lo + 1) := by
        intro hn
        rw [UInt32.toNat_add, hv]
        simp only [UInt32.reduceToNat]
        omega
      obtain ⟨s₁, hrun, howned₁, hshrink₁, hvaddr₁, hpool₁, hother₁, hbooks₁⟩ :=
        freePage_run h hc hseen hv hf
      have hused₁ : ∀ g, (s.pool a.flag).Has g →
          ((s₁.pool a.flag).Used g ↔ (s.pool a.flag).Used g ∧ g ≠ f) := by
        intro g hg
        rw [hpool₁, used_mark (h.pool a.flag) hhas hg]
        by_cases hgf : g = f
        · rw [if_pos hgf]
          exact ⟨fun hc => absurd hc Bool.false_ne_true, fun hc => absurd hgf hc.2⟩
        · rw [if_neg hgf]
          exact ⟨fun hu => ⟨hu, hgf⟩, And.left⟩
      refine wp_bind (wp_of_run (translate_run h hc hseen hpage hv hf.mapped) ?_)
      refine wp_bind (wp_of_run (get_run s) ?_)
      refine wp_bind (wp_of_run (assertPaged_pos (frameBelongs h hhas hlt) _ _) ?_)
      rw [← bind_assoc]
      refine wp_bind (wp_of_run hrun ?_)
      by_cases hn : n = 0
      · subst hn
        have hself : ∀ q, From lo (0 + 1) q → q = lo := fun q hq => by omega
        refine wp_pure ⟨_, howned₁, ⟨hshrink₁.toElsewhere.mono _ (by rintro q rfl; exact hin), ?_, ?_,
          hshrink₁.words⟩, hvaddr₁, ⟨?_, ?_, hother₁⟩, hbooks₁⟩
        · intro q hq
          exact hshrink₁.gone q (hself q hq)
        · intro g hg
          refine hshrink₁.kept g ?_
          rintro q rfl
          exact hg q hin
        · intro g
          rw [hpool₁]
          exact has_mark
        · intro g hg
          rw [hused₁ g hg]
          refine and_congr_right fun _ => ⟨fun hgf q hq hq' => ?_, fun hall hgf => ?_⟩
          · rw [hself q hq, hf.mapped] at hq'
            exact hgf (Option.some.inj hq').symm
          · exact hall lo hin (hgf ▸ hf.mapped)
      have hmaps : ∀ q, From (lo + 1) n q → s₁.map dir a q = s.map dir a q := by
        intro q hq
        obtain ⟨g, hg⟩ := hfree q ⟨by omega, by omega⟩
        exact hshrink₁.maps a q hg.heap.hasPage fun hc => by omega
      have hfree₁ : MayFreeAll s₁ dir a (lo + 1) n := by
        intro q hq
        obtain ⟨g, hg⟩ := hfree q ⟨by omega, by omega⟩
        refine ⟨g, hg.heap, (hmaps q hq).trans hg.mapped, hg.notDir, fun ha t ht => ?_⟩
        rw [hshrink₁.tasks] at ht
        exact hg.notPcb ha t ht
      refine wp_mono (ih howned₁ (hshrink₁.cr3.symm ▸ hc) (hnext hn) hfree₁) ?_
      rintro - s' ⟨owner', howned, hshrink, hvaddr, ⟨hhas', hused, hother⟩, hbooks⟩
      refine ⟨owner', howned, ⟨?_, ?_, ?_, ?_⟩, ?_, ⟨?_, ?_, ?_⟩,
        fun F hF => hbooks F (hbooks₁ F hF)⟩
      · exact (hshrink₁.toElsewhere.mono _ (by rintro q rfl; exact hin)).trans
          (hshrink.toElsewhere.mono _ fun q hq => ⟨by omega, by omega⟩)
      · intro q hq
        by_cases hql : q = lo
        · rw [hql, hshrink.maps a lo hpage fun hc => by omega]
          exact hshrink₁.gone lo rfl
        · exact hshrink.gone q ⟨by omega, by omega⟩
      · intro g hg
        rw [hshrink.kept g fun q hq => by rw [hmaps q hq]; exact hg q ⟨by omega, by omega⟩]
        refine hshrink₁.kept g ?_
        rintro q rfl
        exact hg q hin
      · intro g i hg hglt hi
        rw [hshrink.words g i ?_ hglt hi, hshrink₁.words g i hg hglt hi]
        intro b k htab
        by_cases hgf : g = f
        · rw [hgf, Function.update_self] at htab
          cases htab
        · rw [Function.update_of_ne hgf] at htab
          exact hg b k htab
      · intro b
        rw [hvaddr, hvaddr₁]
      · intro g
        rw [hhas', hpool₁]
        exact has_mark
      · intro g hg
        have hg₁ : (s₁.pool a.flag).Has g := by
          rw [hpool₁]
          exact hg
        rw [hused g hg₁, hused₁ g hg, and_assoc]
        refine and_congr_right fun _ => ⟨fun ⟨hgf, hall⟩ q hq hq' => ?_, fun hall => ⟨?_, ?_⟩⟩
        · by_cases hql : q = lo
          · rw [hql, hf.mapped] at hq'
            exact hgf (Option.some.inj hq').symm
          · have hq₁ : From (lo + 1) n q := ⟨by omega, by omega⟩
            exact hall q hq₁ ((hmaps q hq₁).trans hq')
        · rintro rfl
          exact hall lo hin hf.mapped
        · intro q hq hq'
          exact hall q ⟨by omega, by omega⟩ ((hmaps q hq).symm.trans hq')
      · intro pf hpf
        rw [hother pf hpf, hother₁ pf hpf]

/-- The pages are gone, and their addresses and frames are free again. -/
structure Lost (dir : Nat → Option Nat) (a : Context) (lo n : Nat) (s : PagedMem) (owner : Nat → Owner)
    (s' : PagedMem) (owner' : Nat → Owner) : Prop where
  owned : Owned s' dir owner'
  shrink : Shrink dir a (From lo n) s owner s' owner'
  start : (s'.vaddrOf a).vaddrStart = (s.vaddrOf a).vaddrStart
  len : (s'.vaddrOf a).vaddrBitmap.bmapBytesLen = (s.vaddrOf a).vaddrBitmap.bmapBytesLen
  marked : ∀ q, (s'.vaddrOf a).Marked q ↔
    (s.vaddrOf a).Marked q ∧ ¬ (4096 * lo ≤ q ∧ q < 4096 * lo + 4096 * n)
  freed : Freed dir a (From lo n) s s'
  books : ∀ F, Books F s owner → Books F s' owner'

/-- `mfree_page` goes through. -/
theorem mfreePage_spec (h : Owned s dir owner) (hc : c.directory dir = some (frameNo s.cr3))
    (hseen : Seen c a) (ha : a = .kernel ∨ a = .process s.cur) (hv : vaddr.toNat = 4096 * lo)
    (hn : 0 < n) (hfree : MayFreeAll s dir a lo n) :
    wp (fun _ => False) (mfreePage a.flag vaddr n) (fun _ s' => ∃ owner',
      Lost dir a lo n s owner s' owner') s := by
  obtain ⟨f, hf⟩ := hfree lo ⟨le_rfl, by omega⟩
  have hpage := hf.heap.hasPage
  have hlt := mapping_lt hf.mapped
  have hhas := h.home a lo f (h.layout.page a lo f hpage hf.mapped) hf.heap
  have hframe : (UInt32.ofNat (4096 * f)).toNat = 4096 * f := by
    rw [UInt32.toNat_ofNat']
    omega
  have hlow : 0x200000 ≤ 4096 * f := by
    have hkernel := h.low
    cases hflag : a.flag with
    | kernel =>
        rw [hflag] at hhas
        exact hkernel.trans hhas.1
    | user =>
        rw [hflag] at hhas
        have hge : s.userPool.phyAddrStart ≤ 4096 * f := hhas.1
        have hapart := h.apart
        omega
  have hzero : ∀ x, 4096 * x % pageSize = 0 := fun x => Nat.mul_mod_right 4096 x
  refine wp_bind (wp_of_run (assertPaged_pos ⟨hn, hv.symm ▸ hzero lo⟩ _ _) ?_)
  refine wp_bind (wp_of_run (translate_run h hc hseen hpage hv hf.mapped) ?_)
  refine wp_bind (wp_of_run (assertPaged_pos (by rw [hframe]; exact ⟨hzero f, by omega⟩) _ _) ?_)
  refine wp_bind (wp_of_run (get_run s) ?_)
  -- the first frame decides which of the loops it is, and it is that of the space
  have hloop := mfreeLoop_spec h hc hseen hv hfree
  have hrest : wp (fun _ => False) (do
      mfreeLoop a.flag n vaddr
      modify fun s => s.withVaddrs (vaddrRemove (s.vaddrs a.flag) vaddr.toNat n) a.flag)
      (fun _ s' => ∃ owner', Lost dir a lo n s owner s' owner') s := by
    refine wp_bind (wp_mono hloop ?_)
    rintro - s₁ ⟨owner₁, howned₁, hshrink₁, hvaddr₁, hfreed₁, hbooks₁⟩
    obtain ⟨d, hd⟩ := directory_seen hc hseen
    have hfits := (h.covers a d hd).fits
    obtain ⟨-, hstart, htop, -⟩ := (h.marked a lo f hf.heap hf.mapped).marked
    have hmarked := fun q => marked_remove (n := n) hfits (Nat.mul_mod_right 4096 lo) hstart htop q
    have ha₁ : a = .kernel ∨ a = .process s₁.cur := by
      rw [hshrink₁.cur]
      exact ha
    have hremove : s₁.withVaddrs (vaddrRemove (s₁.vaddrs a.flag) vaddr.toNat n) a.flag
        = s₁.withVaddrs (vaddrRemove (s.vaddrOf a) (4096 * lo) n) a.flag := by
      rw [vaddrs_flag ha₁, hvaddr₁, hv]
    have hlen : (vaddrRemove (s.vaddrOf a) (4096 * lo) n).vaddrBitmap.bmapBytesLen
        = (s.vaddrOf a).vaddrBitmap.bmapBytesLen := Bitmap.bmapBytesLen_setRun _ _ _ _
    obtain ⟨howned, hgrow, hself, hphys, hpool⟩ := howned₁.withVaddrs (S := From lo n)
      (vaddrRemove (s.vaddrOf a) (4096 * lo) n) ha₁ (by rw [hvaddr₁]; rfl) (by rw [hvaddr₁, hlen])
      (fun q g hq hg => by
        have hholds := howned₁.marked a q g hq hg
        rw [hvaddr₁] at hholds
        refine ⟨(hmarked _).mpr ⟨hholds.marked, fun hc => ?_⟩, by rw [hlen]; exact hholds.high⟩
        rw [hshrink₁.gone q ⟨by omega, by omega⟩] at hg
        cases hg)
    refine wp_modify ⟨owner₁, ?_⟩
    rw [hremove]
    refine ⟨howned, ⟨hshrink₁.toElsewhere.trans hgrow.toElsewhere, ?_, hshrink₁.kept, ?_⟩, ?_, ?_, ?_,
      ?_, fun F hF => (hbooks₁ F hF).congr hpool⟩
    · intro q hq
      rw [PagedMem.map, hphys]
      exact hshrink₁.gone q hq
    · intro g i hg hglt hi
      rw [hphys]
      exact hshrink₁.words g i hg hglt hi
    · rw [hself]
      rfl
    · rw [hself, hlen]
    · intro q
      rw [hself]
      exact hmarked q
    · unfold Freed
      rw [hpool]
      refine ⟨hfreed₁.1, hfreed₁.2.1, fun pf hpf => ?_⟩
      rw [hpool]
      exact hfreed₁.2.2 pf hpf
  rw [hframe]
  cases hflag : a.flag with
  | kernel =>
      rw [hflag] at hhas hrest
      rw [if_neg (by have hlt := h.below_user hhas; omega)]
      exact hrest
  | user =>
      rw [hflag] at hhas hrest
      rw [if_pos (show s.userPool.phyAddrStart ≤ 4096 * f from hhas.1)]
      exact hrest

end ZyOs.Paged
