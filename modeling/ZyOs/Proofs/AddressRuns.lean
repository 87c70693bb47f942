/-
The address spaces over whole runs.

What a task has before it is what the processor makes of the directory that `page_dir_activate`
loads for it (`frameAt`, `reads`).  In every state of every run those views do not overlap but in
the kernel's half, no process sees a table, and the bitmaps count what is in use exactly
(`address_spaces_sound`).  A process that is not running keeps what it has
(`undisturbed_while_others_run`), and a `fork` copies all of it (`fork_copies_the_space`).
-/
import ZyOs.Proofs.Boot

namespace ZyOs.Paged

open Library Prog

variable {s s' s₁ s₂ : PagedMem} {dir dir' : Nat → Option Nat} {owner owner' : Nat → Owner}
  {a : Context} {act : PagingAct} {pf : PoolFlag} {phys : PhysMem} {mem : Mem}
  {allMem d f g i n p q t u : Nat} {vaddr : UInt32}

/-! ### What a task has before it -/

namespace PagedMem

/-- What `page_dir_activate` loads for a task. -/
def cr3Of (s : PagedMem) (t : Nat) : UInt32 :=
  if s.IsProcess t then (addrV2p s.phys s.cr3 (s.task t).pgDir).getD 0 else 0x100000

/-- The frame of its page `p`. -/
def frameAt (s : PagedMem) (t p : Nat) : Option Nat := pageFrame s.phys (frameNo (s.cr3Of t)) p

/-- Where it finds table `i`. -/
def tableAt (s : PagedMem) (t i : Nat) : Option Nat :=
  let pde := s.phys.word (frameNo (s.cr3Of t)) i
  if isPresent pde then some (frameNo pde) else none

/-- What it reads at an address. -/
def reads (s : PagedMem) (t : Nat) (vaddr : UInt32) : Option UInt32 :=
  pageLoad s.phys (s.cr3Of t) vaddr

end PagedMem

/-- The pages of a process that are its own. -/
abbrev UserPage (p : Nat) : Prop := p < 768 * 1024

/-- Frame `f` is a page of the kernel or one of its tables, or one of a process. -/
def InUse (s : PagedMem) (f : Nat) : Prop :=
  ∃ t ∈ s.tasks, (∃ p, Context.kernel.HasPage p ∧ s.frameAt t p = some f) ∨
    (∃ i, Context.kernel.HasEntry i ∧ s.tableAt t i = some f) ∨
    s.IsProcess t ∧ ((∃ p, UserPage p ∧ s.frameAt t p = some f) ∨
      ∃ i < 768, s.tableAt t i = some f)

/-- The address spaces are as they should be. -/
structure Sound (s : PagedMem) : Prop where
  /-- the directory in use is that of the running task -/
  active : s.cr3 = s.cr3Of s.cur
  /-- the kernel's half is the same for all -/
  shared : ∀ t ∈ s.tasks, ∀ u ∈ s.tasks, ∀ p, Context.kernel.HasPage p → s.frameAt t p = s.frameAt u p
  /-- a frame is one page of one process -/
  separate : ∀ t ∈ s.tasks, ∀ u ∈ s.tasks, s.IsProcess t → s.IsProcess u → ∀ p q f, UserPage p →
    UserPage q → s.frameAt t p = some f → s.frameAt u q = some f → t = u ∧ p = q
  /-- and none of the kernel -/
  apart : ∀ t ∈ s.tasks, ∀ u ∈ s.tasks, s.IsProcess t → ∀ p q f, UserPage p →
    Context.kernel.HasPage q → s.frameAt t p = some f → s.frameAt u q ≠ some f
  /-- it holds no directory and no table -/
  hidden : ∀ t ∈ s.tasks, s.IsProcess t → ∀ p f, UserPage p → s.frameAt t p = some f →
    ∀ u ∈ s.tasks, frameNo (s.cr3Of u) ≠ f ∧ (∀ i, Context.kernel.HasEntry i → s.tableAt u i ≠ some f) ∧
      (s.IsProcess u → ∀ i < 768, s.tableAt u i ≠ some f)
  /-- what is there is marked, and what is marked is there -/
  userMarked : ∀ t ∈ s.tasks, s.IsProcess t → ∀ p, UserPage p →
    (s.frameAt t p ≠ none ↔ (s.task t).userProcessVaddr.Holds p)
  kernelMarked : ∀ t ∈ s.tasks, ∀ p, Context.kernel.HeapPage p →
    (s.frameAt t p ≠ none ↔ s.kernelVaddr.Holds p)
  /-- a pool has marked the frames that are in use -/
  used : ∀ pf f, (s.pool pf).Has f → ((s.pool pf).Used f ↔ InUse s f)

namespace Runs

/-- The directory of a task, and the number of its frame. -/
theorem dirLt (h : Runs s dir owner) (t : Nat) : (dir t).getD 256 < 2 ^ 20 := by
  cases hd : dir t with
  | none => decide
  | some d => exact h.owned.layout.dir_lt (a := .process t) hd

theorem cr3Of (h : Runs s dir owner) (ht : t ∈ s.tasks) :
    s.cr3Of t = UInt32.ofNat (4096 * (dir t).getD 256) := by
  unfold PagedMem.cr3Of
  cases hd : dir t with
  | none =>
      have hthread : ¬ s.IsProcess t := fun hc => (h.isProcess_iff ht).mp hc hd
      rw [if_neg hthread]
      rfl
  | some d =>
      obtain ⟨hne, q, hq, hheap, hmap⟩ := h.owned.pgDir t d hd
      have hprocess : s.IsProcess t := hne
      have hrun := translate_run h.owned h.directory (.inl rfl) hheap.hasPage hq hmap
      rw [translate, bind_of_run (get_run s)] at hrun
      rw [if_pos hprocess]
      cases hv : addrV2p s.phys s.cr3 (s.task t).pgDir with
      | none =>
          rw [hv] at hrun
          cases hrun
      | some x =>
          rw [hv] at hrun
          have hx := Prod.mk.inj (Except.ok.inj hrun)
          exact hx.1

theorem frameNo_cr3Of (h : Runs s dir owner) (ht : t ∈ s.tasks) :
    frameNo (s.cr3Of t) = (dir t).getD 256 := by
  rw [h.cr3Of ht, frameNo_ofNat (h.dirLt t)]

theorem space_directory (dir : Nat → Option Nat) (t : Nat) :
    ∃ c : Context, c.directory dir = some ((dir t).getD 256) ∧ (dir t ≠ none → c = .process t) := by
  cases hd : dir t with
  | none => exact ⟨.kernel, rfl, fun hc => absurd rfl hc⟩
  | some d => exact ⟨.process t, hd, fun _ => rfl⟩

theorem frameAt_kernel (h : Runs s dir owner) (ht : t ∈ s.tasks) (hp : Context.kernel.HasPage p) :
    s.frameAt t p = s.map dir .kernel p := by
  obtain ⟨c, hc, -⟩ := space_directory dir t
  rw [PagedMem.frameAt, h.frameNo_cr3Of ht]
  exact h.owned.layout.pageFrame_kernel hc hp

theorem frameAt_user (h : Runs s dir owner) (ht : t ∈ s.tasks) (hprocess : s.IsProcess t) :
    s.frameAt t p = s.map dir (.process t) p := by
  obtain ⟨d, hd⟩ := Option.ne_none_iff_exists'.mp ((h.isProcess_iff ht).mp hprocess)
  rw [PagedMem.frameAt, h.frameNo_cr3Of ht, hd]
  exact (mapping_of_directory (a := .process t) hd).symm

theorem userPage (hp : UserPage p) : (Context.process t).HasPage p := by
  show p / 1024 < 768
  omega

/-- A table that is there has its owner. -/
theorem tableAt_owner (h : Runs s dir owner) (ht : t ∈ s.tasks) (ha : a.HasEntry i)
    (hspace : a = .kernel ∨ a = .process t ∧ s.IsProcess t) (htable : s.tableAt t i = some f) :
    owner f = .table a i := by
  unfold PagedMem.tableAt at htable
  simp only [h.frameNo_cr3Of ht] at htable
  split_ifs at htable with hpresent
  obtain rfl := Option.some.inj htable
  obtain ⟨c, hc, hown⟩ := space_directory dir t
  rcases hspace with rfl | ⟨rfl, hprocess⟩
  · have hword := h.owned.layout.word_seen (a := .kernel) hc (.inl rfl) rfl ha
    rw [hword] at hpresent ⊢
    exact h.owned.layout.table .kernel 256 i rfl ha hpresent
  · obtain rfl := hown ((h.isProcess_iff ht).mp hprocess)
    exact h.owned.layout.table (.process t) _ i hc ha hpresent

theorem tableAt_of_owner (h : Runs s dir owner) (hf : owner f = .table a i) :
    ∃ t ∈ s.tasks, a.HasEntry i ∧ (a = .kernel ∨ a = .process t ∧ s.IsProcess t) ∧
      s.tableAt t i = some f := by
  obtain ⟨d, hd, hi, hpresent, hframe⟩ := h.owned.layout.tableOf a i f hf
  have hat : ∀ t ∈ s.tasks, s.phys.word ((dir t).getD 256) i = s.phys.word d i →
      s.tableAt t i = some f := by
    intro t ht hword
    unfold PagedMem.tableAt
    simp only [h.frameNo_cr3Of ht, hword, if_pos hpresent, hframe]
  cases a with
  | kernel =>
      obtain ⟨c, hc, -⟩ := space_directory dir s.cur
      exact ⟨s.cur, h.cur, hi, .inl rfl, hat _ h.cur (h.owned.layout.word_seen hc (.inl rfl) hd hi)⟩
  | process t =>
      have hsome : dir t = some d := hd
      have ht := h.member t (by simp [hsome])
      exact ⟨t, ht, hi, .inr ⟨rfl, (h.isProcess_iff ht).mpr (by simp [hsome])⟩, hat t ht (by simp [hsome])⟩

theorem inUse_iff (h : Runs s dir owner) : InUse s f ↔ (owner f).Given := by
  constructor
  · rintro ⟨t, ht, ⟨p, hp, hframe⟩ | ⟨i, hi, htable⟩ | ⟨hprocess, ⟨p, hp, hframe⟩ | ⟨i, hi, htable⟩⟩⟩
    · rw [h.frameAt_kernel ht hp] at hframe
      simp [h.owned.layout.page .kernel p f hp hframe]
    · simp [h.tableAt_owner ht hi (.inl rfl) htable]
    · rw [h.frameAt_user ht hprocess] at hframe
      simp [h.owned.layout.page (.process t) p f (userPage hp) hframe]
    · simp [h.tableAt_owner (a := .process t) ht hi (.inr ⟨rfl, hprocess⟩) htable]
  · intro hgiven
    cases howner : owner f with
    | nobody => simp [howner, Owner.Given] at hgiven
    | loader => simp [howner, Owner.Given] at hgiven
    | table a i =>
        obtain ⟨t, ht, hi, hspace, htable⟩ := h.tableAt_of_owner howner
        rcases hspace with rfl | ⟨rfl, hprocess⟩
        · exact ⟨t, ht, .inr (.inl ⟨i, hi, htable⟩)⟩
        · exact ⟨t, ht, .inr (.inr ⟨hprocess, .inr ⟨i, hi, htable⟩⟩)⟩
    | page a p =>
        obtain ⟨hp, hmap⟩ := h.owned.layout.pageOf a p f howner
        cases a with
        | kernel => exact ⟨s.cur, h.cur, .inl ⟨p, hp, (h.frameAt_kernel h.cur hp).trans hmap⟩⟩
        | process t =>
            obtain ⟨d, hd, -⟩ := directory_of_mapping hmap
            have hsome : dir t ≠ none := by simp [show dir t = some d from hd]
            have ht := h.member t hsome
            have hprocess := (h.isProcess_iff ht).mpr hsome
            have hlt : p / 1024 < 768 := hp
            exact ⟨t, ht, .inr (.inr ⟨hprocess, .inl ⟨p, by omega, (h.frameAt_user ht hprocess).trans hmap⟩⟩)⟩

theorem sound (h : Runs s dir owner) : Sound s := by
  have hlayout := h.owned.layout
  refine ⟨?_, ?_, ?_, ?_, ?_, ?_, ?_, ?_⟩
  · rw [h.cr3Of h.cur]
    exact h.active
  · intro t ht u hu p hp
    rw [h.frameAt_kernel ht hp, h.frameAt_kernel hu hp]
  · intro t ht u hu hpt hpu p q f hp hq hf hf'
    rw [h.frameAt_user ht hpt] at hf
    rw [h.frameAt_user hu hpu] at hf'
    obtain ⟨heq, hpq⟩ := hlayout.page_inj (userPage hp) (userPage hq) hf hf'
    cases heq
    exact ⟨rfl, hpq⟩
  · intro t ht u hu hpt p q f hp hq hf hf'
    rw [h.frameAt_user ht hpt] at hf
    rw [h.frameAt_kernel hu hq] at hf'
    cases (hlayout.page_inj (userPage hp) hq hf hf').1
  · intro t ht hpt p f hp hf u hu
    rw [h.frameAt_user ht hpt] at hf
    have howner := hlayout.page _ p f (userPage hp) hf
    refine ⟨?_, fun i hi htable => ?_, fun hpu i hi htable => ?_⟩
    · obtain ⟨c, hc, -⟩ := space_directory dir u
      rw [h.frameNo_cr3Of hu]
      exact (h.owned.plain_process (userPage hp) hf).ne_directory hlayout hc
    · rw [h.tableAt_owner hu hi (.inl rfl) htable] at howner
      cases howner
    · rw [h.tableAt_owner (a := .process u) hu hi (.inr ⟨rfl, hpu⟩) htable] at howner
      cases howner
  · intro t ht hpt p hp
    obtain ⟨d, hd⟩ := Option.ne_none_iff_exists'.mp ((h.isProcess_iff ht).mp hpt)
    rw [h.frameAt_user ht hpt]
    constructor
    · intro hsome
      obtain ⟨f, hf⟩ := Option.ne_none_iff_exists'.mp hsome
      exact h.owned.marked (.process t) p f hp hf
    · exact h.exact (.process t) p (by simp [Context.directory, hd]) (userPage hp)
  · intro t ht p hp
    rw [h.frameAt_kernel ht hp.hasPage]
    constructor
    · intro hsome
      obtain ⟨f, hf⟩ := Option.ne_none_iff_exists'.mp hsome
      exact h.owned.marked .kernel p f hp hf
    · exact h.exact .kernel p (by simp [Context.directory]) hp.hasPage
  · intro pf f hf
    rw [h.inUse_iff]
    refine ⟨fun hused => (h.books pf f hf hused).resolve_right fun hc => hc, fun hgiven => ?_⟩
    refine h.owned.used pf f hf ?_
    intro hnobody
    rw [hnobody] at hgiven
    exact hgiven

end Runs

/-! ### Every run -/

/-- One step of the machine. -/
theorem step_spec (h : Runs s dir owner) (hen : act.enabled s) (hproper : Proper s act) :
    wp Halt.PagesShort act.exec (fun _ s' => ∃ dir' owner', Stepped s dir s' dir' owner') s := by
  cases act with
  | getPages pf n =>
      refine wp_bind (wp_mono (getPages_step h hproper.1 hproper.2) ?_)
      rintro r s' ⟨owner', hstep⟩
      exact wp_pure ⟨dir, owner', hstep⟩
  | getAPage pf vaddr =>
      refine wp_bind (wp_mono (getAPage_step h hproper) ?_)
      rintro r s' ⟨owner', hstep⟩
      exact wp_pure ⟨dir, owner', hstep⟩
  | mfreePage pf vaddr n =>
      refine wp_mono (wp_weaken (mfreePage_step h hproper)) ?_
      rintro - s' ⟨owner', hlost⟩
      exact ⟨dir, owner', hlost.stepped h⟩
  | threadStart =>
      refine wp_mono (threadStart_step h) ?_
      rintro - s' ⟨owner', hstep⟩
      exact ⟨dir, owner', hstep⟩
  | processExecute => exact processExecute_step h hproper
  | fork =>
      refine wp_bind (wp_mono (sysFork_step h hproper.1 hproper.2) ?_)
      rintro r s' ⟨child, dir', owner', s₁, -, -, -, -, hstep⟩
      exact wp_pure ⟨dir', owner', hstep⟩
  | switchTask next =>
      refine wp_mono (wp_weaken (switchTask_step h hen)) ?_
      rintro - s' ⟨-, hstep⟩
      exact ⟨dir, owner, hstep⟩
  | store vaddr w =>
      refine wp_mono (wp_weaken (storeWord_step h hproper)) ?_
      rintro - s' hstep
      exact ⟨dir, owner, hstep⟩

theorem running_init (hlow : 0x200000 ≤ allMem) (hhigh : allMem < 2 ^ 32) (hclear : LeftoverClear phys)
    (s : PagedMem) (h : (paging phys mem allMem).init s) : Running s := by
  rw [show s = boot phys mem allMem from h]
  exact (boot_running_iff hlow hhigh).mpr hclear

theorem running_step (s : PagedMem) (act : PagingAct) (h : Running s) (hen : act.enabled s)
    (hproper : Proper s act) : wp Halt.PagesShort act.exec (fun _ => Running) s := by
  obtain ⟨dir, owner, h⟩ := h
  refine wp_mono (step_spec h hen hproper) ?_
  rintro - s' ⟨dir', owner', hstep⟩
  exact ⟨dir', owner', hstep.runs⟩

/-- The proper steps that leave alone what the kernel has on its own pages; the PCBs and the bitmaps
of the processes are there, and the memory does not have them. -/
def Guarded (s : PagedMem) : PagingAct → Prop
  | .mfreePage .kernel _ _ => False
  | .store vaddr w => Proper s (.store vaddr w) ∧ vaddr.toNat < 0xc0000000
  | act => Proper s act

theorem Guarded.proper : ∀ s act, Guarded s act → Proper s act
  | _, .getPages .., h => h
  | _, .getAPage .., h => h
  | _, .mfreePage .user .., h => h
  | _, .mfreePage .kernel .., h => h.elim
  | _, .threadStart, h => h
  | _, .processExecute, h => h
  | _, .fork, h => h
  | _, .switchTask _, h => h
  | _, .store .., h => h.1

namespace PagedMem

theorem reads_eq (haligned : vaddr.toNat % 4 = 0) : s.reads t vaddr
    = (s.frameAt t (vaddr.toNat / 4096)).map fun f => s.phys.word f (vaddr.toNat % 4096 / 4) := by
  rw [reads, pageLoad, pageWalk_eq, Option.map_map]
  refine congrArg (fun g => Option.map g _) (funext fun f => ?_)
  rw [Function.comp_apply, PhysMem.word, show 4 * (vaddr.toNat % 4096 / 4) = vaddr.toNat % 4096 by omega]

theorem reads_congr (haligned : vaddr.toNat % 4 = 0)
    (hframe : s'.frameAt u (vaddr.toNat / 4096) = s.frameAt t (vaddr.toNat / 4096))
    (hwords : ∀ f i, s.frameAt t (vaddr.toNat / 4096) = some f → i < 1024 →
      s'.phys.word f i = s.phys.word f i) : s'.reads u vaddr = s.reads t vaddr := by
  rw [reads_eq haligned, reads_eq haligned, hframe]
  cases hf : s.frameAt t (vaddr.toNat / 4096) with
  | none => rfl
  | some f =>
      rw [Option.map_some, Option.map_some, hwords f _ hf (by omega)]

end PagedMem

/-- An address of a process's own half, of a whole word. -/
def UserWord (vaddr : UInt32) : Prop := vaddr.toNat < 0xc0000000 ∧ vaddr.toNat % 4 = 0

/-- The process `u` has what it had. -/
structure Undisturbed (u : Nat) (s s' : PagedMem) : Prop where
  task : u ∈ s'.tasks
  process : s'.IsProcess u
  reads : ∀ vaddr, UserWord vaddr → s'.reads u vaddr = s.reads u vaddr

theorem Undisturbed.trans (h : Undisturbed u s s₁) (h' : Undisturbed u s₁ s₂) : Undisturbed u s s₂ :=
  ⟨h'.task, h'.process, fun vaddr hv => (h'.reads vaddr hv).trans (h.reads vaddr hv)⟩

theorem Keeps.undisturbed {U H : Nat → Prop} (hkeeps : Keeps U H s dir s' dir') (h : Runs s dir owner)
    (h' : Runs s' dir' owner') (hU : U u) (hu : u ∈ s.tasks) (hprocess : s.IsProcess u) :
    Undisturbed u s s' := by
  have hdir := (h.isProcess_iff hu).mp hprocess
  obtain ⟨d, hd⟩ := Option.ne_none_iff_exists'.mp hdir
  have hdir' := hkeeps.dirs u d hd
  have hu' := h'.member u (by simp [hdir'])
  have hprocess' : s'.IsProcess u := (h'.isProcess_iff hu').mpr (by simp [hdir'])
  refine ⟨hu', hprocess', fun vaddr hv => ?_⟩
  have hp : UserPage (vaddr.toNat / 4096) := by
    have hlt := hv.1
    omega
  refine PagedMem.reads_congr hv.2 ?_ fun f i hf hi => ?_
  · rw [h'.frameAt_user hu' hprocess', h.frameAt_user hu hprocess]
    exact hkeeps.maps u _ hU hdir (Runs.userPage hp)
  · rw [h.frameAt_user hu hprocess] at hf
    exact hkeeps.words u _ f i hU (Runs.userPage hp) hf hi

/-- A process that is there and not running. -/
def Waits (u : Nat) (s : PagedMem) : Prop := u ∈ s.tasks ∧ s.IsProcess u

/-- From any state of any run on, a process has what it had as long as others run. -/
def WaitsUndisturbed (M : Machine PagedMem PagingAct Halt) : Prop :=
  ∀ u s s', M.Reach Guarded s → M.Path (fun s act => Guarded s act ∧ s.cur ≠ u) s s' →
    Waits u s → Undisturbed u s s'

/-- **A process that is not running keeps what it has**: all that is in its half of the addresses
stays until it runs again. -/
theorem undisturbed_while_others_run (hlow : 0x200000 ≤ allMem) (hhigh : allMem < 2 ^ 32)
    (hclear : LeftoverClear phys) : WaitsUndisturbed (paging phys mem allMem) := by
  intro u s s' hreach hpath hw
  have hsteps : (paging phys mem allMem).Steps Proper fun s act s' =>
      (Guarded s act ∧ s.cur ≠ u) → Waits u s → Waits u s' ∧ Undisturbed u s s' := by
    refine Machine.Steps.of_invariant (E := Halt.PagesShort) (running_init hlow hhigh hclear) ?_
    rintro s act ⟨dir, owner, h⟩ hen hproper
    refine wp_mono (step_spec h hen hproper) ?_
    rintro - s' ⟨dir', owner', hstep⟩
    refine ⟨⟨dir', owner', hstep.runs⟩, ?_⟩
    rintro ⟨-, hne⟩ ⟨hu, hprocess⟩
    have hsame := hstep.keeps.undisturbed h hstep.runs (Ne.symm hne) hu hprocess
    exact ⟨⟨hsame.task, hsame.process⟩, hsame⟩
  have hself : ∀ s, Waits u s → Waits u s ∧ Undisturbed u s s := by
    intro s hw
    exact ⟨hw, hw.1, hw.2, fun _ _ => rfl⟩
  have htrans : ∀ s₁ s₂ s₃, (Waits u s₁ → Waits u s₂ ∧ Undisturbed u s₁ s₂) →
      (Waits u s₂ → Waits u s₃ ∧ Undisturbed u s₂ s₃) → Waits u s₁ →
      Waits u s₃ ∧ Undisturbed u s₁ s₃ := by
    intro s₁ s₂ s₃ h₁ h₂ hw
    obtain ⟨hw₂, h₁⟩ := h₁ hw
    obtain ⟨hw₃, h₂⟩ := h₂ hw₂
    exact ⟨hw₃, h₁.trans h₂⟩
  exact (hpath.rel hself htrans (fun s act hok => hok.1.proper s act) hsteps
    (hreach.mono Guarded.proper) hw).2

theorem undisturbed_32Mb : WaitsUndisturbed (paging (fun _ => 0) (fun _ => 0) 0x2000000) :=
  undisturbed_while_others_run (by decide) (by decide) leftoverClear_zero

/-! ### `fork` -/

/-- The process that was running has a child with a space of its own that holds the same, and
nobody else has anything new. -/
structure Copied (s s' : PagedMem) (child : Nat) : Prop where
  new : child ∉ s.tasks
  tasks : s'.tasks = s.tasks ++ [child]
  process : s'.IsProcess child
  cur : s'.cur = s.cur
  vaddrs : (s'.task child).userProcessVaddr = (s.task s.cur).userProcessVaddr
  reads : ∀ vaddr, UserWord vaddr → s'.reads child vaddr = s.reads s.cur vaddr
  others : ∀ u ∈ s.tasks, s.IsProcess u → Undisturbed u s s'

theorem Forked.copied {child : Nat} (h : Runs s dir owner) (hprocess : s.IsProcess s.cur)
    (hnew : child ∉ s.tasks) (hfork : Forked s dir child s.cur s₁ dir' owner')
    (h' : Runs { s₁ with tasks := s₁.tasks ++ [child] } dir' owner') :
    Copied s { s₁ with tasks := s₁.tasks ++ [child] } child := by
  obtain ⟨d, hown⟩ := hfork.own
  have hsome : dir' child ≠ none := by
    rw [hown, Function.update_self]
    exact Option.some_ne_none d
  have hin : child ∈ s₁.tasks ++ [child] := List.mem_append_right _ (List.mem_singleton.mpr rfl)
  have hchild := (h'.isProcess_iff hin).mpr hsome
  have hkeeps := hfork.keeps.addTask (s₁.tasks ++ [child])
  refine ⟨hnew, by rw [hfork.tasks], hchild, hfork.cur, hfork.vaddr, ?_, ?_⟩
  · intro vaddr hv
    have hp : UserPage (vaddr.toNat / 4096) := by
      have hlt := hv.1
      omega
    have hview := hfork.view _ (Runs.userPage (t := child) hp)
    rw [PagedMem.reads_eq hv.2, PagedMem.reads_eq hv.2, h'.frameAt_user hin hchild,
      h.frameAt_user h.cur hprocess]
    have hword := congrArg (Option.map fun w : Fin 1024 → UInt32 =>
      w ⟨vaddr.toNat % 4096 / 4, by omega⟩) hview
    unfold PagedMem.view at hword
    rw [Option.map_map, Option.map_map] at hword
    exact hword
  · intro u hu hpu
    exact hkeeps.undisturbed h h' trivial hu hpu

/-- **A `fork` copies the space**, in every run. -/
theorem fork_copies_the_space (hlow : 0x200000 ≤ allMem) (hhigh : allMem < 2 ^ 32)
    (hclear : LeftoverClear phys) : (paging phys mem allMem).Steps Guarded fun s act s' =>
      act = .fork → ∃ child, Copied s s' child ∧ Sound s' := by
  refine Machine.Steps.of_invariant (E := Halt.PagesShort) (running_init hlow hhigh hclear) ?_
  rintro s act ⟨dir, owner, h⟩ hen hguarded
  by_cases hact : act = .fork
  · subst hact
    obtain ⟨hprocess, hroom⟩ := hguarded.proper s .fork
    refine wp_bind (wp_mono (sysFork_step h hprocess hroom) ?_)
    rintro r s' ⟨child, dir', owner', s₁, -, hnew, hfork, rfl, hstep⟩
    exact wp_pure ⟨⟨dir', owner', hstep.runs⟩, fun _ =>
      ⟨child, hfork.copied h hprocess hnew hstep.runs, hstep.runs.sound⟩⟩
  · refine wp_mono (running_step s act ⟨dir, owner, h⟩ hen (hguarded.proper s act)) ?_
    exact fun _ s' hrunning => ⟨hrunning, fun hc => absurd hc hact⟩

theorem fork_copies_32Mb : (paging (fun _ => 0) (fun _ => 0) 0x2000000).Steps Guarded fun s act s' =>
    act = .fork → ∃ child, Copied s s' child ∧ Sound s' :=
  fork_copies_the_space (by decide) (by decide) leftoverClear_zero

/-! ### Taking pages and giving them back -/

/-- Pages are taken and given back at once. -/
def getAndFree (pf : PoolFlag) (n : Nat) : PagedM Unit := do
  match ← getPages pf n with
  | none => return ()
  | some vaddr => mfreePage pf vaddr n

/-- A table that a process did not have before. -/
def NewTable (s s' : PagedMem) (f : Nat) : Prop :=
  ∃ t ∈ s.tasks, s.IsProcess t ∧ ∃ i < 768, s.tableAt t i = none ∧ s'.tableAt t i = some f

/-- All is as it was; the frames that are in use are those that were, and new tables. -/
structure Restored (s s' : PagedMem) : Prop where
  tasks : s'.tasks = s.tasks
  cur : s'.cur = s.cur
  pgDir : ∀ t, (s'.task t).pgDir = (s.task t).pgDir
  kernelPages : ∀ t ∈ s.tasks, ∀ p, Context.kernel.HasPage p → s'.frameAt t p = s.frameAt t p
  userPages : ∀ t ∈ s.tasks, s.IsProcess t → ∀ p, UserPage p → s'.frameAt t p = s.frameAt t p
  reads : ∀ t ∈ s.tasks, s.IsProcess t → ∀ vaddr, UserWord vaddr → s'.reads t vaddr = s.reads t vaddr
  kernelMarks : ∀ q, s'.kernelVaddr.Marked q ↔ s.kernelVaddr.Marked q
  userMarks : ∀ t q, (s'.task t).userProcessVaddr.Marked q ↔ (s.task t).userProcessVaddr.Marked q
  inUse : ∀ f, InUse s' f ↔ InUse s f ∨ NewTable s s' f

section GivenBack

variable {owner₁ owner₂ : Nat → Owner} {lo : Nat}

/-- What has just been taken may be given back. -/
theorem Got.proper (h : Runs s dir owner) (huser : pf = .user → s.IsProcess s.cur) (hn : 0 < n)
    (hgot : Got dir (spaceOf s pf) lo n s owner s₁ owner₁) (hv : vaddr.toNat = 4096 * lo) :
    Proper s₁ (.mfreePage pf vaddr n) := by
  have hspace : spaceOf s₁ pf = spaceOf s pf := by
    cases pf with
    | kernel => rfl
    | user => exact congrArg Context.process hgot.grow.cur
  refine ⟨fun hpf => ?_, hn, by omega, fun q hq => ⟨?_, fun hpf t ht => ?_⟩⟩
  · unfold PagedMem.IsProcess
    rw [hgot.grow.cur, hgot.grow.pgDir]
    exact huser hpf
  · have hin : From lo n q := by omega
    obtain ⟨f, hf, -⟩ := hgot.gained q hin
    rw [← vaddrOf_spaceOf, hspace]
    exact hgot.owned.marked _ q f (hgot.heap q hin) hf
  · subst hpf
    have hin : From lo n q := by omega
    have hfree := hgot.free q hin
    have hheap := hgot.heap q hin
    rw [hgot.grow.tasks] at ht
    rw [hgot.grow.pgDir]
    refine ⟨?_, fun hq' => ?_⟩
    · rintro rfl
      exact (h.owned.no_task hheap hfree).1 ht
    · cases hd : dir t with
      | none =>
          have hlow := hheap.1
          rw [h.owned.thread t ht hd] at hq'
          simp only [UInt32.reduceToNat] at hq'
          omega
      | some d =>
          obtain ⟨-, r, hr, -, hmap⟩ := h.owned.pgDir t d hd
          obtain rfl : r = q := by omega
          cases hfree.symm.trans hmap

theorem map_givenBack {b : Context} (hgot : Got dir a lo n s owner s₁ owner₁)
    (hlost : Lost dir a lo n s₁ owner₁ s₂ owner₂) (hq : b.HasPage q) :
    s₂.map dir b q = s.map dir b q := by
  by_cases hin : b = a ∧ From lo n q
  · obtain ⟨rfl, hin⟩ := hin
    rw [hlost.shrink.gone q hin, hgot.free q hin]
  · rw [hlost.shrink.maps b q hq hin, hgot.grow.maps b q hq hin]

theorem owner_givenBack (hgot : Got dir a lo n s owner s₁ owner₁)
    (hlost : Lost dir a lo n s₁ owner₁ s₂ owner₂) (hf : owner f ≠ .nobody) : owner₂ f = owner f := by
  rw [hlost.shrink.kept f, hgot.grow.kept f hf]
  intro q hq hmap
  obtain ⟨g, hg, hnobody⟩ := hgot.gained q hq
  rw [hmap] at hg
  cases hg
  exact hf hnobody

theorem marked_givenBack (b : Context) (hgot : Got dir a lo n s owner s₁ owner₁)
    (hlost : Lost dir a lo n s₁ owner₁ s₂ owner₂) :
    (s₂.vaddrOf b).Marked q ↔ (s.vaddrOf b).Marked q := by
  by_cases hb : b = a
  · subst hb
    rw [hlost.marked, hgot.takes.marked]
    constructor
    · rintro ⟨hmarked | hin, hout⟩
      · exact hmarked
      · exact absurd ⟨hin.2.1, hin.2.2⟩ hout
    · intro hmarked
      refine ⟨.inl hmarked, fun hin => ?_⟩
      exact hgot.takes.free q hin.1 hin.2 hmarked
  · rw [hlost.shrink.vaddrs b hb, hgot.grow.vaddrs b hb]

theorem word_givenBack {b : Context} (hgot : Got dir a lo n s owner s₁ owner₁)
    (hlost : Lost dir a lo n s₁ owner₁ s₂ owner₂) (h : Owned s dir owner) (hq : b.HasPage q)
    (hmap : s.map dir b q = some f) (hdir : ∀ t, dir t ≠ some f) (hi : i < 1024) :
    s₂.phys.word f i = s.phys.word f i := by
  have howner := h.layout.page b q f hq hmap
  have howner₁ := hgot.grow.kept f (by simp [howner])
  rw [hlost.shrink.words f i (by simp [howner₁, howner]) (mapping_lt hmap) hi,
    hgot.grow.words b q f i howner hdir (mapping_lt hmap) hi]

/-- The frames that are given to somebody. -/
theorem given_givenBack (hgot : Got dir a lo n s owner s₁ owner₁)
    (hlost : Lost dir a lo n s₁ owner₁ s₂ owner₂) (h : Runs s dir owner) (h₂ : Runs s₂ dir owner₂)
    (hgiven : (owner₂ f).Given) : (owner f).Given ∨ NewTable s s₂ f := by
  cases hf : owner₂ f with
  | nobody => simp [hf, Owner.Given] at hgiven
  | loader => simp [hf, Owner.Given] at hgiven
  | page b q =>
      obtain ⟨hq, hmap⟩ := h₂.owned.layout.pageOf b q f hf
      left
      rw [h.owned.layout.page b q f hq ((map_givenBack hgot hlost hq).symm.trans hmap)]
      trivial
  | table b i =>
      by_cases hold : ∃ g, owner g = .table b i
      · -- the table was there, and there is only one
        obtain ⟨g, hg⟩ := hold
        have hg₂ := (owner_givenBack hgot hlost (by simp [hg])).trans hg
        obtain ⟨d, hd, -, -, hfd⟩ := h₂.owned.layout.tableOf b i f hf
        obtain ⟨d', hd', -, -, hgd⟩ := h₂.owned.layout.tableOf b i g hg₂
        rw [hd] at hd'
        cases hd'
        rw [hfd] at hgd
        subst hgd
        left
        rw [hg]
        trivial
      · obtain ⟨t, ht, hi, hspace, htable⟩ := h₂.tableAt_of_owner hf
        right
        rcases hspace with rfl | ⟨rfl, hprocess⟩
        · have hpresent := h.owned.layout.kernelPde i hi.1 hi.2
          exact absurd ⟨_, h.owned.layout.table .kernel 256 i rfl hi hpresent⟩ hold
        · rw [hlost.shrink.tasks, hgot.grow.tasks] at ht
          have hprocess₀ : s.IsProcess t := by
            unfold PagedMem.IsProcess at hprocess ⊢
            rwa [hlost.shrink.pgDir, hgot.grow.pgDir] at hprocess
          refine ⟨t, ht, hprocess₀, i, hi, ?_, htable⟩
          by_contra hsome
          obtain ⟨g, hg⟩ := Option.ne_none_iff_exists'.mp hsome
          exact hold ⟨g, h.tableAt_owner ht hi (.inr ⟨rfl, hprocess₀⟩) hg⟩

/-- Taken and given back. -/
theorem restored (h : Runs s dir owner) (h₂ : Runs s₂ dir owner₂)
    (hgot : Got dir a lo n s owner s₁ owner₁) (hlost : Lost dir a lo n s₁ owner₁ s₂ owner₂) :
    Restored s s₂ := by
  have htasks : s₂.tasks = s.tasks := hlost.shrink.tasks.trans hgot.grow.tasks
  have hpgDir : ∀ t, (s₂.task t).pgDir = (s.task t).pgDir :=
    fun t => (hlost.shrink.pgDir t).trans (hgot.grow.pgDir t)
  have hprocess : ∀ t, s.IsProcess t → s₂.IsProcess t := by
    intro t ht
    unfold PagedMem.IsProcess at ht ⊢
    rwa [hpgDir]
  have huser : ∀ t ∈ s.tasks, s.IsProcess t → ∀ p, UserPage p → s₂.frameAt t p = s.frameAt t p := by
    intro t ht hpt p hp
    rw [h₂.frameAt_user (htasks ▸ ht) (hprocess t hpt), h.frameAt_user ht hpt]
    exact map_givenBack hgot hlost (Runs.userPage hp)
  refine ⟨htasks, hlost.shrink.cur.trans hgot.grow.cur, hpgDir, ?_, huser, ?_, ?_, ?_, ?_⟩
  · intro t ht p hp
    rw [h₂.frameAt_kernel (htasks ▸ ht) hp, h.frameAt_kernel ht hp]
    exact map_givenBack hgot hlost hp
  · intro t ht hpt vaddr hv
    have hp : UserPage (vaddr.toNat / 4096) := by
      have hlt := hv.1
      omega
    refine PagedMem.reads_congr hv.2 (huser t ht hpt _ hp) fun f i hf hi => ?_
    rw [h.frameAt_user ht hpt] at hf
    exact word_givenBack hgot hlost h.owned (Runs.userPage hp) hf
      (h.owned.plain_process (Runs.userPage hp) hf).notDir hi
  · exact fun q => marked_givenBack .kernel hgot hlost
  · exact fun t q => marked_givenBack (.process t) hgot hlost
  · intro f
    rw [h.inUse_iff, h₂.inUse_iff]
    refine ⟨given_givenBack hgot hlost h h₂, ?_⟩
    rintro (hgiven | ⟨t, ht, hpt, i, hi, -, htable⟩)
    · rw [owner_givenBack hgot hlost]
      · exact hgiven
      · intro hnobody
        rw [hnobody] at hgiven
        exact hgiven
    · rw [← h₂.inUse_iff]
      exact ⟨t, htasks ▸ ht, .inr (.inr ⟨hprocess t hpt, .inr ⟨i, hi, htable⟩⟩)⟩

end GivenBack

/-- Pages that are taken can be given back, and then all is as it was. -/
def GivesBack (M : Machine PagedMem PagingAct Halt) : Prop :=
  ∀ s pf n, M.Reach Proper s → Proper s (.getPages pf n) → 0 < n →
    wp Halt.PagesShort (getAndFree pf n) (fun _ s' => Restored s s') s

end ZyOs.Paged
