/-
The paging of a running system, step by step.

`Running` is the invariant: there are a directory for every process and an owner for every frame
that agree with the tables (`Layout`), the bitmaps (`Owned`, `Exact`, `Books`) and the scheduler.
A step of the machine keeps it, or it stops because pages have run short, and nobody notices it
but the task that takes it (`step_spec`).
-/
import ZyOs.Kernel.Boot
import ZyOs.Proofs.ForkCopy

namespace ZyOs.Paged

open Library Prog

variable {s s' s₁ : PagedMem} {dir dir' : Nat → Option Nat} {owner owner' : Nat → Owner}
  {a c : Context} {act : PagingAct} {pf : PoolFlag} {d f g i n p q t u lo : Nat} {vaddr w : UInt32}
  {U H : Nat → Prop}

/-! ### The invariant -/

/-- The system is running: `dir` are the directories, `owner` is whose the frames are. -/
structure Runs (s : PagedMem) (dir : Nat → Option Nat) (owner : Nat → Owner) : Prop where
  owned : Owned s dir owner
  exact : Exact s dir
  books : Books (fun _ => False) s owner
  member : ∀ t, dir t ≠ none → t ∈ s.tasks
  main : mainThread ∈ s.tasks
  cur : s.cur ∈ s.tasks
  active : s.cr3 = UInt32.ofNat (4096 * (dir s.cur).getD 256)

def Running (s : PagedMem) : Prop := ∃ dir owner, Runs s dir owner

/-- The space whose directory is in use. -/
def curSpace (s : PagedMem) (dir : Nat → Option Nat) : Context :=
  match dir s.cur with
  | none => .kernel
  | some _ => .process s.cur

/-- The space a flag of the running task means. -/
def spaceOf (s : PagedMem) : PoolFlag → Context
  | .kernel => .kernel
  | .user => .process s.cur

@[simp] theorem flag_spaceOf : (spaceOf s pf).flag = pf := by cases pf <;> rfl

theorem vaddrOf_spaceOf : s.vaddrOf (spaceOf s pf) = s.vaddrs pf := by cases pf <;> rfl

theorem spaceOf_cases (s : PagedMem) (pf : PoolFlag) : spaceOf s pf = .kernel ∨ spaceOf s pf = .process s.cur := by
  cases pf with
  | kernel => exact .inl rfl
  | user => exact .inr rfl

namespace Runs

theorem isProcess_iff (h : Runs s dir owner) (ht : t ∈ s.tasks) : s.IsProcess t ↔ dir t ≠ none := by
  constructor
  · intro hprocess hnone
    exact hprocess (h.owned.thread t ht hnone)
  · intro hsome
    obtain ⟨d, hd⟩ := Option.ne_none_iff_exists'.mp hsome
    exact (h.owned.pgDir t d hd).1

theorem directory (h : Runs s dir owner) :
    (curSpace s dir).directory dir = some (frameNo s.cr3) := by
  have hlt : (dir s.cur).getD 256 < 2 ^ 20 := by
    cases hd : dir s.cur with
    | none => decide
    | some d => exact h.owned.layout.dir_lt (a := .process s.cur) hd
  rw [h.active, frameNo_ofNat hlt]
  unfold curSpace
  cases hd : dir s.cur with
  | none => rfl
  | some d => exact hd

theorem seen (h : Runs s dir owner) (huser : pf = .user → s.IsProcess s.cur) :
    Seen (curSpace s dir) (spaceOf s pf) := by
  cases pf with
  | kernel => exact .inl rfl
  | user =>
      have hsome := (h.isProcess_iff h.cur).mp (huser rfl)
      obtain ⟨d, hd⟩ := Option.ne_none_iff_exists'.mp hsome
      right
      rw [curSpace, hd]
      rfl

/-- What is not there is not marked. -/
theorem free_of_frame (h : Runs s dir owner) (huser : pf = .user → s.IsProcess s.cur)
    (hlow : (s.vaddrs pf).vaddrStart / 4096 ≤ p)
    (hhigh : p < (s.vaddrs pf).vaddrStart / 4096 + 8 * (s.vaddrs pf).vaddrBitmap.bmapBytesLen)
    (hnone : s.frame p = none) :
    s.map dir (spaceOf s pf) p = none ∧ ¬ (s.vaddrs pf).Marked (4096 * p) := by
  have hseen := h.seen huser
  obtain ⟨d, hd⟩ := directory_seen h.directory hseen
  have hcovers := h.owned.covers _ d hd
  have haligned := hcovers.fits.aligned
  rw [vaddrOf_spaceOf] at hcovers haligned
  have hheap : (spaceOf s pf).HeapPage p := by
    have hin := hcovers.pages (p - (s.vaddrs pf).vaddrStart / 4096) (by omega)
    rwa [Nat.add_sub_cancel' hlow] at hin
  have hmap : s.map dir (spaceOf s pf) p = none := by
    rw [← h.owned.frame h.directory hseen hheap.hasPage]
    exact hnone
  refine ⟨hmap, fun hmarked => ?_⟩
  refine h.exact (spaceOf s pf) p (by simp [hd]) hheap.hasPage ?_ hmap
  rw [vaddrOf_spaceOf]
  exact ⟨hmarked, by omega⟩

end Runs

/-! ### What a step may ask for -/

/-- What the callers see to: a process acts for itself, only free pages are taken and only pages
that are there are given back or written to; a directory is neither, and no PCB is given back. -/
def Proper (s : PagedMem) : PagingAct → Prop
  | .getPages pf pgCnt => (pf = .user → s.IsProcess s.cur) ∧ Roomy (s.vaddrs pf) pgCnt
  | .getAPage pf vaddr => (s.IsProcess s.cur ↔ pf = .user) ∧ vaddr.toNat % 4096 = 0 ∧
      (s.vaddrs pf).vaddrStart < vaddr.toNat ∧
      vaddr.toNat < (s.vaddrs pf).vaddrStart + 4096 * (8 * (s.vaddrs pf).vaddrBitmap.bmapBytesLen) ∧
      s.frame (vaddr.toNat / 4096) = none
  | .mfreePage pf vaddr pgCnt => (pf = .user → s.IsProcess s.cur) ∧ 0 < pgCnt ∧
      vaddr.toNat % 4096 = 0 ∧ ∀ q, From (vaddr.toNat / 4096) pgCnt q → (s.vaddrs pf).Holds q ∧
        (pf = .kernel → ∀ t ∈ s.tasks, t ≠ 4096 * q ∧ (s.task t).pgDir.toNat ≠ 4096 * q)
  | .threadStart => True
  | .processExecute => s.kernelVaddr.vaddrBitmap.HasRun 24
  | .fork => s.IsProcess s.cur ∧ s.kernelVaddr.vaddrBitmap.HasRun 25
  | .switchTask _ => True
  | .store vaddr _ => vaddr.toNat % 4 = 0 ∧ ∃ pf, (pf = .user → s.IsProcess s.cur) ∧
      (s.vaddrs pf).Holds (vaddr.toNat / 4096) ∧
      (pf = .kernel → ∀ t ∈ s.tasks, (s.task t).pgDir.toNat ≠ 4096 * (vaddr.toNat / 4096))

/-- After a step: the system runs on, and the other processes have not noticed it. -/
structure Stepped (s : PagedMem) (dir : Nat → Option Nat) (s' : PagedMem) (dir' : Nat → Option Nat)
    (owner' : Nat → Owner) : Prop where
  runs : Runs s' dir' owner'
  keeps : Keeps (· ≠ s.cur) (fun _ => True) s dir s' dir'

/-! ### The steps -/

section Steps

/-- The pages of the running task's space that are held are there. -/
theorem Runs.held (h : Runs s dir owner) (huser : pf = .user → s.IsProcess s.cur)
    (hholds : (s.vaddrs pf).Holds p) :
    (spaceOf s pf).HeapPage p ∧ ∃ f, s.map dir (spaceOf s pf) p = some f := by
  obtain ⟨d, hd⟩ := directory_seen h.directory (h.seen huser)
  rw [← vaddrOf_spaceOf] at hholds
  have hheap := h.owned.heapPage_of_holds hd hholds
  exact ⟨hheap, Option.ne_none_iff_exists'.mp (h.exact _ p (by simp [hd]) hheap.hasPage hholds)⟩

/-- A page of the kernel whose address is none of the directories' is none. -/
theorem Runs.not_directory (h : Runs s dir owner) (hheap : Context.kernel.HeapPage p)
    (hmap : s.map dir .kernel p = some f)
    (hnot : ∀ t ∈ s.tasks, (s.task t).pgDir.toNat ≠ 4096 * p) (t : Nat) : dir t ≠ some f := by
  intro ht
  obtain ⟨-, q, hq, hqheap, hqmap⟩ := h.owned.pgDir t f ht
  obtain ⟨-, rfl⟩ := h.owned.layout.page_inj hheap.hasPage hqheap.hasPage hmap hqmap
  exact hnot t (h.member t (by simp [ht])) hq

theorem Runs.plain_held (h : Runs s dir owner) (hheap : (spaceOf s pf).HeapPage p)
    (hmap : s.map dir (spaceOf s pf) p = some f)
    (hnot : pf = .kernel → ∀ t ∈ s.tasks, (s.task t).pgDir.toNat ≠ 4096 * p) (t : Nat) :
    dir t ≠ some f := by
  cases pf with
  | kernel => exact h.not_directory hheap hmap (hnot rfl) t
  | user => exact (h.owned.plain_process hheap.hasPage hmap).notDir t

/-- Pages have been taken. -/
theorem Got.stepped (h : Runs s dir owner) (hgot : Got dir (spaceOf s pf) lo n s owner s' owner') :
    Stepped s dir s' dir owner' := by
  refine ⟨⟨hgot.owned, hgot.exact h.exact, hgot.books _ h.books, ?_, ?_, ?_, ?_⟩, ?_⟩
  · intro t ht
    rw [hgot.grow.tasks]
    exact h.member t ht
  · rw [hgot.grow.tasks]
    exact h.main
  · rw [hgot.grow.cur, hgot.grow.tasks]
    exact h.cur
  · rw [hgot.grow.cr3, hgot.grow.cur]
    exact h.active
  · refine (hgot.keeps h.owned).mono (fun u hu => ?_) fun _ hp => hp.elim
    intro hcur
    rcases spaceOf_cases s pf with hs | hs
    · rw [hs] at hcur
      cases hcur
    · rw [hs] at hcur
      cases hcur
      exact hu rfl

/-- `get_kernel_pages` and `get_user_pages` -/
theorem getPages_step (h : Runs s dir owner) (huser : pf = .user → s.IsProcess s.cur)
    (hroom : Roomy (s.vaddrs pf) n) :
    wp Halt.PagesShort (getPages pf n) (fun _ s' => ∃ owner', Stepped s dir s' dir owner') s := by
  have hspec := getPages_spec (a := spaceOf s pf) (n := n) h.owned h.directory (h.seen huser)
    (spaceOf_cases s pf) (by rw [vaddrOf_spaceOf]; exact hroom)
  rw [flag_spaceOf] at hspec
  refine wp_mono hspec ?_
  rintro r s' ⟨lo, owner', rfl, hgot, -, -⟩
  exact ⟨owner', hgot.stepped h⟩

/-- `get_a_page` -/
theorem getAPage_step (h : Runs s dir owner) (hproper : Proper s (.getAPage pf vaddr)) :
    wp Halt.PagesShort (getAPage pf vaddr) (fun _ s' => ∃ owner', Stepped s dir s' dir owner') s := by
  obtain ⟨hprocess, haligned, hlow, hhigh, hframe⟩ := hproper
  obtain ⟨d, hd⟩ := directory_seen h.directory (h.seen fun hpf => hprocess.mpr hpf)
  have hstart := (h.owned.covers _ d hd).fits.aligned
  rw [vaddrOf_spaceOf] at hstart
  obtain ⟨hmap, hfree⟩ := h.free_of_frame (fun hpf => hprocess.mpr hpf) (p := vaddr.toNat / 4096)
    (by omega) (by omega) hframe
  have hget : MayGet s (spaceOf s pf) (vaddr.toNat / 4096) := by
    refine ⟨?_, ?_, ?_⟩ <;> rw [vaddrOf_spaceOf]
    · omega
    · omega
    · exact hfree
  have hspec := getAPage_spec (a := spaceOf s pf) h.owned h.directory
    (h.seen fun hpf => hprocess.mpr hpf) (spaceOf_cases s pf) (by rw [flag_spaceOf]; exact hprocess)
    (show vaddr.toNat = 4096 * (vaddr.toNat / 4096) by omega) hget hmap
  rw [flag_spaceOf] at hspec
  refine wp_mono hspec ?_
  rintro r s' ⟨rfl, owner', hgot⟩
  exact ⟨owner', hgot.stepped h⟩

/-- Pages have been given back. -/
theorem Lost.stepped (h : Runs s dir owner) (hlost : Lost dir (spaceOf s pf) lo n s owner s' owner') :
    Stepped s dir s' dir owner' := by
  refine ⟨⟨hlost.owned, hlost.exact h.exact, hlost.books _ h.books, ?_, ?_, ?_, ?_⟩, ?_⟩
  · intro t ht
    rw [hlost.shrink.tasks]
    exact h.member t ht
  · rw [hlost.shrink.tasks]
    exact h.main
  · rw [hlost.shrink.cur, hlost.shrink.tasks]
    exact h.cur
  · rw [hlost.shrink.cr3, hlost.shrink.cur]
    exact h.active
  · refine (hlost.keeps h.owned).mono (fun u hu => ?_) fun _ _ => trivial
    intro hcur
    rcases spaceOf_cases s pf with hs | hs
    · rw [hs] at hcur
      cases hcur
    · rw [hs] at hcur
      cases hcur
      exact hu rfl

/-- Such pages may be given back. -/
theorem Runs.mayFreeAll (h : Runs s dir owner) (huser : pf = .user → s.IsProcess s.cur)
    (hall : ∀ q, From lo n q → (s.vaddrs pf).Holds q ∧
      (pf = .kernel → ∀ t ∈ s.tasks, t ≠ 4096 * q ∧ (s.task t).pgDir.toNat ≠ 4096 * q)) :
    MayFreeAll s dir (spaceOf s pf) lo n := by
  intro q hq
  obtain ⟨hholds, hnot⟩ := hall q hq
  obtain ⟨hheap, f, hf⟩ := h.held huser hholds
  refine ⟨f, hheap, hf, h.plain_held hheap hf fun hpf t ht => (hnot hpf t ht).2, fun hkernel t ht => ?_⟩
  have hpf : pf = .kernel := by
    cases pf with
    | kernel => rfl
    | user => cases hkernel
  exact (hnot hpf t (ht.elim (fun ht => ht) (h.member t))).1

/-- `mfree_page` -/
theorem mfreePage_step (h : Runs s dir owner) (hproper : Proper s (.mfreePage pf vaddr n)) :
    wp (fun _ => False) (mfreePage pf vaddr n) (fun _ s' => ∃ owner',
      Lost dir (spaceOf s pf) (vaddr.toNat / 4096) n s owner s' owner') s := by
  obtain ⟨huser, hn, haligned, hall⟩ := hproper
  have hspec := mfreePage_spec h.owned h.directory (h.seen huser) (spaceOf_cases s pf)
    (show vaddr.toNat = 4096 * (vaddr.toNat / 4096) by omega) hn (h.mayFreeAll huser hall)
  rwa [flag_spaceOf] at hspec

/-- A word is written to a page that is there. -/
theorem storeWord_step (h : Runs s dir owner) (hproper : Proper s (.store vaddr w)) :
    wp (fun _ => False) (storeWord vaddr w) (fun _ s' => Stepped s dir s' dir owner) s := by
  obtain ⟨haligned, pf, huser, hholds, hnot⟩ := hproper
  obtain ⟨hheap, f, hf⟩ := h.held huser hholds
  have hplain := h.owned.plain hheap.hasPage hf (h.plain_held hheap hf hnot)
  have hframe := h.owned.frame h.directory (h.seen huser) hheap.hasPage
  refine wp_of_run (storeWord_run (hframe.trans hf) haligned) ?_
  obtain ⟨howned, hmaps⟩ := h.owned.write hplain (vaddr.toNat % 4096 / 4) (vaddr.toNat % 4096 / 4 + 1)
    fun _ => w
  refine ⟨⟨howned, ?_, h.books.congr fun pf => by cases pf <;> rfl, h.member, h.main,
    h.cur, h.active⟩, ?_⟩
  · intro b q hb hq hb'
    rw [hmaps b q hq]
    refine h.exact b q hb hq ?_
    cases b <;> exact hb'
  · refine (Keeps.write h.owned hheap.hasPage hf hplain _ _ _).mono (fun u hu => ?_) fun _ _ => trivial
    intro hcur
    rcases spaceOf_cases s pf with hs | hs
    · rw [hs] at hcur
      cases hcur
    · rw [hs] at hcur
      cases hcur
      exact hu rfl

/-- `process_activate`, and the next task runs. -/
theorem switchTask_step (h : Runs s dir owner) (ht : t ∈ s.tasks) :
    wp (fun _ => False) (switchTask t) (fun _ s' => s' = { s with
      cr3 := UInt32.ofNat (4096 * (dir t).getD 256), cur := t } ∧ Stepped s dir s' dir owner) s := by
  have hrun : pageDirActivate t s
      = .ok ((), { s with cr3 := UInt32.ofNat (4096 * (dir t).getD 256) }) := by
    cases hd : dir t with
    | none =>
        have hthread : ¬ s.IsProcess t := fun hc => (h.isProcess_iff ht).mp hc hd
        rw [pageDirActivate, bind_of_run (get_run s), if_neg hthread]
        rfl
    | some d => exact pageDirActivate_run h.owned h.directory hd
  refine wp_bind (wp_of_run hrun (wp_modify ⟨rfl, ⟨?_, ?_, ?_, h.member, h.main, ht, rfl⟩, ?_⟩))
  · exact h.owned.withCr3 _ t
  · intro b q hb hq hb'
    refine h.exact b q hb hq ?_
    cases b <;> exact hb'
  · exact h.books.congr fun pf => by cases pf <;> rfl
  · exact Keeps.withCr3 _ t

/-- A task has been added whose record and directory are there. -/
theorem Runs.addTask {owner₁ : Nat → Owner} (h : Runs s dir owner) (howned : Owned s₁ dir' owner₁)
    (hexact : Exact s₁ dir') (hbooks : Books (fun _ => False) s₁ owner₁)
    (hdirs : ∀ u, u ≠ t → dir' u = dir u) (hnew : t ∉ s.tasks)
    (hthread : dir' t = none → (s₁.task t).pgDir = 0)
    (hpcb : ∃ q, t = 4096 * q ∧ Context.kernel.HeapPage q ∧ s₁.map dir' .kernel q ≠ none)
    (htasks : s₁.tasks = s.tasks) (hcur : s₁.cur = s.cur) (hcr3 : s₁.cr3 = s.cr3) :
    Runs { s₁ with tasks := s₁.tasks ++ [t] } dir' owner₁ := by
  have hold : dir' s.cur = dir s.cur := by
    refine hdirs _ ?_
    rintro hc
    exact hnew (hc ▸ h.cur)
  refine ⟨howned.addTask hthread hpcb, ?_, hbooks.congr fun pf => by cases pf <;> rfl, ?_, ?_, ?_, ?_⟩
  · intro b q hb hq hb'
    refine hexact b q hb hq ?_
    cases b <;> exact hb'
  · intro u hu
    by_cases hut : u = t
    · exact List.mem_append_right _ (List.mem_singleton.mpr hut)
    · rw [hdirs u hut] at hu
      rw [htasks]
      exact List.mem_append_left _ (h.member u hu)
  · rw [htasks]
    exact List.mem_append_left _ h.main
  · rw [hcur, htasks]
    exact List.mem_append_left _ h.cur
  · show s₁.cr3 = UInt32.ofNat (4096 * (dir' s₁.cur).getD 256)
    rw [hcr3, hcur, hold]
    exact h.active

theorem Keeps.addTask (h : Keeps U H s dir s₁ dir') (ts : List Nat) :
    Keeps U H s dir { s₁ with tasks := ts } dir' :=
  ⟨h.dirs, h.vaddr, h.maps, h.words, h.kernel, h.heap⟩

/-- `thread_start` -/
theorem threadStart_step (h : Runs s dir owner) : wp Halt.PagesShort threadStart (fun _ s' =>
    ∃ owner', Stepped s dir s' dir owner') s := by
  refine wp_bind (wp_mono (getPages_spec (a := .kernel) (n := 1) h.owned h.directory (.inl rfl)
    (.inl rfl) (.inl rfl)) ?_)
  rintro r s₁ ⟨l, owner₁, rfl, hgot, -, -⟩
  have hlt := (hgot.heap l ⟨le_rfl, by omega⟩).hasPage.lt
  have hv : (UInt32.ofNat (4096 * l)).toNat = 4096 * l := by
    rw [UInt32.toNat_ofNat']
    omega
  have hm := (Making.start h.owned h.exact h.books hgot).withTask ⟨0, ⟨⟨0, fun _ => 0⟩, 0⟩⟩
  refine wp_bind (wp_of_run (assertDst_some _) ?_)
  simp only [Option.getD_some, hv]
  refine wp_bind (wp_modify (wp_modify ⟨owner₁, ?_, ?_⟩))
  · refine h.addTask hm.owned hm.exact hm.books (fun _ _ => rfl) hm.notTask (fun _ => ?_) hm.pcb hm.tasks
      hm.cur hm.cr3
    rw [task_withTask]
  · exact (hm.keeps.mono (fun _ _ => trivial) fun _ hp => hp.elim).addTask _

/-- `process_execute` -/
theorem processExecute_step (h : Runs s dir owner) (hroom : s.kernelVaddr.vaddrBitmap.HasRun 24) :
    wp Halt.PagesShort processExecute (fun _ s' => ∃ dir' owner', Stepped s dir s' dir' owner') s := by
  refine wp_mono (processExecute_spec h.owned h.exact h.books h.directory hroom) ?_
  rintro - s' ⟨t, dir', owner', s₁, hjoin, rfl, hvaddr⟩
  obtain ⟨d, hown⟩ := hjoin.own
  have hsome : dir' t = some d := by
    rw [hown, Function.update_self]
  refine ⟨dir', owner', ?_, ?_⟩
  · refine h.addTask hjoin.owned ?_ hjoin.books (fun u hu => ?_) hjoin.notTask (fun hnone => ?_)
      hjoin.pcb hjoin.tasks hjoin.cur hjoin.cr3
    · intro b q hb hq hholds
      by_cases hbt : b = .process t
      · subst hbt
        rw [hvaddr] at hholds
        have hbit := hholds.marked.2.2.2
        simp [Bitmap.bitmapScanTest] at hbit
      · exact hjoin.exact b q hbt hb hq hholds
    · rw [hown, Function.update_of_ne hu]
    · rw [hsome] at hnone
      cases hnone
  · exact (hjoin.keeps.mono (fun _ _ => trivial) fun _ hp => hp.elim).addTask _

/-- A process that has forked. -/
theorem Forked.stepped {child parent : Nat} (h : Runs s dir owner) (hnew : child ∉ s.tasks)
    (hfork : Forked s dir child parent s₁ dir' owner')
    (hpcb : ∃ q, child = 4096 * q ∧ Context.kernel.HeapPage q ∧ s₁.map dir' .kernel q ≠ none) :
    Stepped s dir { s₁ with tasks := s₁.tasks ++ [child] } dir' owner' := by
  obtain ⟨d, hown⟩ := hfork.own
  have hsome : dir' child = some d := by
    rw [hown, Function.update_self]
  refine ⟨?_, (hfork.keeps.mono (fun _ _ => trivial) fun _ hp => hp.elim).addTask _⟩
  refine h.addTask hfork.owned hfork.exact hfork.books (fun u hu => ?_) hnew (fun hnone => ?_) hpcb
    hfork.tasks hfork.cur hfork.cr3
  · rw [hown, Function.update_of_ne hu]
  · rw [hsome] at hnone
    cases hnone

/-- `sys_fork` -/
theorem sysFork_step (h : Runs s dir owner) (hprocess : s.IsProcess s.cur)
    (hroom : s.kernelVaddr.vaddrBitmap.HasRun 25) :
    wp Halt.PagesShort sysFork (fun r s' => ∃ child dir' owner' s₁, r = some child ∧
      child ∉ s.tasks ∧ Forked s dir child s.cur s₁ dir' owner' ∧
      s' = { s₁ with tasks := s₁.tasks ++ [child] } ∧ Stepped s dir s' dir' owner') s := by
  obtain ⟨d, hd⟩ := Option.ne_none_iff_exists'.mp ((h.isProcess_iff h.cur).mp hprocess)
  have hactive := h.active
  rw [hd, Option.getD_some] at hactive
  refine wp_mono (sysFork_spec h.owned h.exact h.books hd hactive hroom) ?_
  rintro r s' ⟨child, dir', owner', s₁, rfl, hnew, -, hfork, rfl⟩
  refine ⟨child, dir', owner', s₁, rfl, hnew, hfork, rfl, hfork.stepped h hnew ?_⟩
  obtain ⟨e, hown⟩ := hfork.own
  have hsome : dir' child ≠ none := by
    rw [hown, Function.update_self]
    exact Option.some_ne_none e
  rcases hfork.owned.pcb child (.inr hsome) with hmain | hpcb
  · rw [hmain] at hnew
    exact absurd h.main hnew
  · exact hpcb

end Steps

end ZyOs.Paged
