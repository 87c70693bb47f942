/-
Descriptors across a fork.

A fork copies the descriptors and adds an opener to every inode behind them, but the
entries of the file table in between are shared and have no count.  So both tasks
keep what they had as long as nobody closes it, and the first close of a shared
descriptor takes the entry away from the other task.  Both halves are in
`fork_descriptors_survive`.
-/
import ZyOs.Proofs.Writers

namespace ZyOs

open Library Library.Prog

variable {clean : Prop} {pins : Set (Nat × Nat × UInt32)} {env : FsEnv} {s₀ s s' : Fs}
  {a g no flag : Nat} {held : List Nat}

/-! ### Descriptors in a call -/

/-- Code that has nothing to do with descriptors. -/
def KeepsTasks {α : Type} (x : FsM α) : Prop :=
  ∀ P : (Nat → FdTask) → Nat → Prop, Preserves (fun s => P s.tasks s.cur) x

theorem KeepsQuiet.keepsTasks {α : Type} {x : FsM α} (hx : KeepsQuiet x) : KeepsTasks x := by
  intro P s a s' hs hrun
  have hq := hx s s a s' (Quiet.refl s) hrun
  rw [hq.tasks, hq.cur]
  exact hs

theorem keepsTasks_inodeOpen (no : Nat) : KeepsTasks (inodeOpen env no) := by
  intro P s a s' hs hrun
  rcases inodeOpen_cases hrun with ⟨-, -, rfl⟩ | ⟨-, -, rfl⟩
  · exact hs
  · exact hs

theorem keepsTasks_inodeClose (a : Nat) : KeepsTasks (inodeClose a) := by
  intro P s u s' hs hrun
  rw [inodeClose_run, Except.ok.injEq, Prod.mk.injEq] at hrun
  rw [← hrun.2, (closed_rest s a).2.2.1, (closed_rest s a).2.2.2.1]
  exact hs

theorem keepsTasks_dirClose (d : DirPtr) : KeepsTasks (dirClose d) := by
  cases d with
  | root => exact fun _ => Preserves.pure _
  | opened a => exact keepsTasks_inodeClose a

/-- The descriptors after an open: those of the running task may have got one more, on an
entry that was empty. -/
def Installed (s₀ s : Fs) : Prop :=
  s.cur = s₀.cur ∧ (s.tasks = s₀.tasks ∨ ∃ fd g : Nat, fd < maxFilesOpenPerProc ∧
    (s₀.tasks s₀.cur).fdTable fd = -1 ∧ (s₀.fileTable g).fdInode = none ∧
    s.tasks = fun t => if t = s₀.cur then (s₀.tasks t).setFd fd g else s₀.tasks t)

/-- `pcb_fd_install` at the end of an open. -/
theorem wp_pcbFdInstall_installed (htasks : s.tasks = s₀.tasks) (hcur : s.cur = s₀.cur)
    (hfree : (s₀.fileTable g).fdInode = none) :
    wp (fun _ => True) (pcbFdInstall g) (fun _ s' => Installed s₀ s') s := by
  refine wp_get_bind ?_
  cases hfd : freeFdFrom (s.tasks s.cur).fdTable (maxFilesOpenPerProc - 3) 3 with
  | none => exact wp_pure ⟨hcur, Or.inl htasks⟩
  | some fd =>
      obtain ⟨-, hlt, hminus⟩ := freeFdFrom_some hfd
      rw [htasks, hcur] at hminus
      refine wp_bind (wp_get_bind (wp_set (wp_pure
        ⟨hcur, Or.inr ⟨fd, g, hlt, hminus, hfree, ?_⟩⟩)))
      simp only [htasks, hcur]

theorem wp_fileOpen_installed :
    wp (fun _ => True) (fileOpen env no flag) (fun _ s' => Installed s s') s := by
  have hstart : s.tasks = s.tasks ∧ s.cur = s.cur := ⟨rfl, rfl⟩
  refine wp_get_bind ?_
  cases hslot : getFreeSlotInGlobal s.fileTable with
  | none => exact wp_pure ⟨rfl, Or.inl rfl⟩
  | some g =>
      obtain ⟨-, hempty⟩ := getFreeSlotInGlobal_some hslot
      refine wp_bind (wp_mono ((keepsTasks_inodeOpen no fun t c => t = s.tasks ∧ c = s.cur).wp
        hstart) fun a s₁ h₁ => ?_)
      refine wp_bind (wp_of_run (setFile_run _ _ s₁) (wp_ite (fun _ => wp_get_bind ?_) fun _ => ?_))
      · refine wp_ite (fun _ => wp_pure ⟨h₁.2, Or.inl h₁.1⟩) fun _ => ?_
        exact wp_bind (wp_of_run (putInode_run _ _ _) (wp_pcbFdInstall_installed h₁.1 h₁.2 hempty))
      · exact wp_pcbFdInstall_installed h₁.1 h₁.2 hempty

theorem wp_fileCreate_installed {parent : Nat} {filename : List UInt8} :
    wp (fun _ => True) (fileCreate env parent filename flag) (fun _ s' => Installed s s') s := by
  have hq : ∀ {α : Type} {x : FsM α} {s₁ : Fs}, KeepsQuiet x → s₁.tasks = s.tasks ∧ s₁.cur = s.cur →
      wp (fun _ => True) x (fun _ s' => s'.tasks = s.tasks ∧ s'.cur = s.cur) s₁ := fun hx hs =>
    (hx.keepsTasks fun t c => t = s.tasks ∧ c = s.cur).wp hs
  refine wp_bind (wp_of_returns fun no s₁ hrun => ?_)
  have hq₁ := quiet_inodeBitmapAlloc s s no s₁ (Quiet.refl s) hrun
  refine wp_ite (fun _ => wp_pure ⟨hq₁.cur, Or.inl hq₁.tasks⟩) fun _ => wp_get_bind ?_
  refine wp_bind (wp_modify (wp_bind (wp_of_run (putInode_run _ _ _) (wp_get_bind ?_))))
  cases hslot : getFreeSlotInGlobal s₁.fileTable with
  | none =>
      exact wp_bind (wp_modify (wp_bind (wp_modify (wp_pure ⟨hq₁.cur, Or.inl hq₁.tasks⟩))))
  | some g =>
      obtain ⟨-, hempty⟩ := getFreeSlotInGlobal_some hslot
      rw [hq₁.fdInode] at hempty
      refine wp_bind (wp_of_run (setFile_run _ _ _) (wp_get_bind
        (wp_bind (wp_of_run (putInode_run _ _ _) ?_))))
      refine wp_bind (wp_lift (fun e _ => ?_) fun _ _ => trivial)
      refine wp_bind (wp_mono (hq (quiet_syncDirEntry _ _ _) ⟨hq₁.tasks, hq₁.cur⟩)
        fun ok s₂ h₂ => wp_ite (fun _ => ?_) fun _ => ?_)
      · refine wp_get_bind (wp_bind (wp_mono (hq (quiet_inodeSync _ _) h₂) fun _ s₃ h₃ =>
          wp_get_bind (wp_bind (wp_mono (hq (quiet_inodeSync _ _) h₃) fun _ s₄ h₄ => ?_))))
        refine wp_bind (wp_mono (hq (quiet_bitmapSync _ _) h₄) fun _ s₅ h₅ => ?_)
        exact wp_bind (wp_modify (wp_get_bind (wp_bind (wp_of_run (putInode_run _ _ _)
          (wp_pcbFdInstall_installed h₅.1 h₅.2 hempty)))))
      · refine wp_bind (wp_of_run (setFile_run _ _ _) ?_)
        exact wp_bind (wp_modify (wp_bind (wp_modify (wp_pure ⟨h₂.2, Or.inl h₂.1⟩))))

/-- An open of the running task. -/
theorem sysOpen_installed {pathname : List UInt8} {flags : Nat} {r : Int}
    (h : Sound False pins s []) (hrun : sysOpen env pathname flags s = .ok (r, s')) :
    Installed s s' := by
  obtain ⟨plan, s₁, hplan, hrest⟩ := bind_run.mp hrun
  have hlook : Looking False pins s s₁ plan.opens :=
    (Looking.openPlan h False.elim pathname flags).of_run hplan
  have hback : ∀ s', Installed s₁ s' → Installed s s' := by
    intro s' h'
    rw [Installed, hlook.tasks, hlook.cur, hlook.fileTable] at h'
    exact h'
  cases plan with
  | refuse =>
      obtain rfl := (Prod.mk.inj (Except.ok.inj hrest)).2
      exact ⟨hlook.cur, Or.inl hlook.tasks⟩
  | create d =>
      have hwp : wp (fun _ => True) (do
          let fd ← fileCreate env (d.inode (← get)) (baseName pathname) flags
          dirClose d
          return fd) (fun _ s' => Installed s₁ s') s₁ := by
        refine wp_get_bind (wp_bind (wp_mono wp_fileCreate_installed fun fd s₂ h₂ => ?_))
        refine wp_bind (wp_mono ((keepsTasks_dirClose d fun t c => c = s₁.cur ∧ (t = s₁.tasks ∨
          ∃ fd g : Nat, fd < maxFilesOpenPerProc ∧ (s₁.tasks s₁.cur).fdTable fd = -1 ∧
            (s₁.fileTable g).fdInode = none ∧
            t = fun t => if t = s₁.cur then (s₁.tasks t).setFd fd g else s₁.tasks t)).wp h₂)
          fun _ _ h₃ => wp_pure h₃)
      exact hback s' (hwp.of_run hrest)
  | existing no => exact hback s' (wp_fileOpen_installed.of_run hrest)

/-! ### The fork -/

/-- A fork of process `p`. -/
def forkBy (p child : Nat) : FsM Unit := do
  modify fun s => { s with cur := p }
  sysForkFiles child

/-- Between the two states counts may only have grown. -/
structure Raised (s₀ s : Fs) : Prop where
  openInodes : s.openInodes = s₀.openInodes
  heap : s.heap = s₀.heap
  rootInode : s.rootInode = s₀.rootInode
  tasks : s.tasks = s₀.tasks
  fileTable : s.fileTable = s₀.fileTable
  iNo : ∀ a, (s.inodes a).iNo = (s₀.inodes a).iNo
  iOpenCnts : ∀ a, (s₀.inodes a).iOpenCnts ≤ (s.inodes a).iOpenCnts

theorem Raised.refl (s : Fs) : Raised s s :=
  ⟨rfl, rfl, rfl, rfl, rfl, fun _ => rfl, fun _ => le_rfl⟩

theorem Raised.more (h : Raised s₀ s) (a : Nat) : Raised s₀
    (s.withInode a { s.inodes a with iOpenCnts := (s.inodes a).iOpenCnts + 1 }) := by
  refine ⟨h.openInodes, h.heap, h.rootInode, h.tasks, h.fileTable, fun b => ?_, fun b => ?_⟩
  · rw [← h.iNo b]
    by_cases hba : b = a
    · rw [hba, withInode_self]
    · rw [withInode_ne _ _ _ _ hba]
  · refine (h.iOpenCnts b).trans ?_
    by_cases hba : b = a
    · rw [hba, withInode_self]
      exact Nat.le_succ _
    · rw [withInode_ne _ _ _ _ hba]

/-- `update_inode_open_cnts` has looked at every descriptor. -/
theorem wp_updateOpenCntsFrom {fdTable : Nat → Int} : ∀ (n i : Nat) (s : Fs), Raised s₀ s →
    wp (fun _ => True) (updateOpenCntsFrom fdTable n i) (fun _ s' => Raised s₀ s' ∧
      ∀ fd, i ≤ fd → fd < i + n → fdTable fd ≠ -1 → fdTable fd < maxFileOpen ∧
        ∃ a, (s₀.fileTable (fdTable fd).toNat).fdInode = some a) s := by
  intro n
  induction n with
  | zero => exact fun i s h => wp_pure ⟨h, fun fd h1 h2 => absurd h2 (by omega)⟩
  | succ n ih =>
      intro i s h
      refine wp_bind (wp_of_returns fun _ s₁ hassert => ?_)
      obtain ⟨hlt, rfl⟩ := assertFs_ok hassert
      -- the rest of the loop knows about the descriptors after `i`
      have hrest : ∀ s, Raised s₀ s → (fdTable i ≠ -1 →
          ∃ a, (s₀.fileTable (fdTable i).toNat).fdInode = some a) →
          wp (fun _ => True) (updateOpenCntsFrom fdTable n (i + 1)) (fun _ s' => Raised s₀ s' ∧
            ∀ fd, i ≤ fd → fd < i + (n + 1) → fdTable fd ≠ -1 → fdTable fd < maxFileOpen ∧
              ∃ a, (s₀.fileTable (fdTable fd).toNat).fdInode = some a) s := by
        intro s h hi
        refine wp_mono (ih (i + 1) s h) fun _ s' h' => ⟨h'.1, fun fd h1 h2 hfd => ?_⟩
        rcases Nat.eq_or_lt_of_le h1 with rfl | h1
        · exact ⟨hlt, hi hfd⟩
        · exact h'.2 fd h1 (by omega) hfd
      refine wp_ite (fun hfd => wp_bind (wp_get_bind ?_)) fun hfd => ?_
      · cases hinode : (s₁.fileTable (fdTable i).toNat).fdInode with
        | none => exact wp_lift (fun _ hok => by simp at hok) fun _ _ => trivial
        | some a =>
            refine wp_pure (wp_get_bind (wp_bind (wp_of_run (putInode_run _ _ _) ?_)))
            rw [h.fileTable] at hinode
            exact hrest _ (h.more a) fun _ => ⟨a, hinode⟩
      · exact hrest _ h fun hc => absurd hc hfd

/-- **What a fork that returns has done to the descriptors.** -/
theorem forkBy_run {p child : Nat} (h : forkBy p child s = .ok ((), s')) :
    Raised { s with cur := p, tasks := fun t => if t = child then s.tasks p else s.tasks t } s' ∧
    ∀ fd, 3 ≤ fd → fd < maxFilesOpenPerProc → (s.tasks p).fdTable fd ≠ -1 →
      (s.tasks p).fdTable fd < maxFileOpen ∧
      ∃ a, (s.fileTable ((s.tasks p).fdTable fd).toNat).fdInode = some a := by
  have hwp : wp (fun _ => True) (forkBy p child) (fun _ s' =>
      Raised { s with cur := p, tasks := fun t => if t = child then s.tasks p else s.tasks t } s' ∧
      ∀ fd, 3 ≤ fd → fd < maxFilesOpenPerProc → (s.tasks p).fdTable fd ≠ -1 →
        (s.tasks p).fdTable fd < maxFileOpen ∧
        ∃ a, (s.fileTable ((s.tasks p).fdTable fd).toNat).fdInode = some a) s := by
    refine wp_bind (wp_modify (wp_get_bind (wp_bind ((reads_assertFs _ _ _).wp fun _ => ?_))))
    refine wp_bind (wp_modify (wp_get_bind ?_))
    simp only [if_pos]
    exact wp_updateOpenCntsFrom _ _ _ (Raised.refl _)
  exact hwp.of_run h

theorem Raised.counted (h : Raised s s') (hs : Counted s held) : Counted s' held := by
  refine ⟨h.openInodes ▸ hs.nodup, fun a ha => ?_, fun a ha => ?_⟩
  · rw [h.heap]
    exact hs.heap a (h.openInodes ▸ ha)
  · rw [uses_congr (fun g => by rw [h.fileTable]) h.rootInode] at ha ⊢
    rw [h.openInodes]
    exact ⟨(hs.counted a ha).1, (hs.counted a ha).2.trans (h.iOpenCnts a)⟩

/-! ### A close of the running task -/

theorem keepsTasks_fileClose (g : Nat) : KeepsTasks (fileClose g) := by
  refine fun P => Preserves.bind (reads_fdInodeOf _ _ _) fun a => Preserves.get_bind fun _ _ => ?_
  refine Preserves.bind (Preserves.modify fun _ hs => hs) fun _ =>
    Preserves.bind (keepsTasks_inodeClose a P) fun _ => Preserves.get_bind fun _ _ => ?_
  exact Preserves.bind (Preserves.modify fun _ hs => hs) fun _ => Preserves.pure _

theorem fileClose_empties {r : Int} (h : fileClose g s = .ok (r, s')) :
    (s.fileTable g).fdInode ≠ none ∧ (s'.fileTable g).fdInode = none := by
  obtain ⟨a, s₁, h1, hrest⟩ := bind_run.mp h
  obtain rfl : s₁ = s := reads_fdInodeOf g _ (· = s) s a s₁ rfl h1
  refine ⟨fun hnone => ?_, ?_⟩
  · simp only [fdInodeOf] at h1
    rw [bind_of_run (get_run s₁)] at h1
    simp only [hnone] at h1
    exact absurd (lift_run.mp h1).1 (by simp)
  · rw [bind_of_run (get_run s₁), bind_of_run (putInode_run _ _ _),
      bind_of_run (inodeClose_run _ _), bind_of_run (get_run _), bind_of_run (setFile_run _ _ _),
      pure_run, Except.ok.injEq, Prod.mk.injEq] at hrest
    rw [← hrest.2, withFile_self]

/-- A close that returns has emptied the entry and freed the descriptor. -/
theorem sysClose_run {fd : Int} {r : Int} (h : sysClose fd s = .ok (r, s')) :
    (fd ≤ 2 ∧ s' = s) ∨ (2 < fd ∧ fd.toNat < maxFilesOpenPerProc ∧ ∃ g : Nat,
      (s.tasks s.cur).fdTable fd.toNat = g ∧ (s'.fileTable g).fdInode = none ∧
      s'.tasks = fun t => if t = s.cur then (s.tasks t).setFd fd.toNat (-1) else s.tasks t) := by
  unfold sysClose at h
  by_cases hfd : 2 < fd
  · rw [if_pos hfd] at h
    obtain ⟨g, s₁, h1, hrest⟩ := bind_run.mp h
    obtain ⟨hlt, -, hentry, rfl⟩ := fdLocalToGlobal_run h1
    obtain ⟨res, s₂, h2, hset⟩ := bind_run.mp hrest
    obtain ⟨htasks, hcur⟩ := keepsTasks_fileClose g (fun t c => t = s₁.tasks ∧ c = s₁.cur) s₁ res s₂
      ⟨rfl, rfl⟩ h2
    simp only [setFd] at hset
    obtain rfl := (Prod.mk.inj (Except.ok.inj hset)).2
    refine Or.inr ⟨hfd, hlt, g, hentry, (fileClose_empties h2).2, ?_⟩
    simp only [htasks, hcur]
  · rw [if_neg hfd] at h
    exact Or.inl ⟨by omega, (Prod.mk.inj (Except.ok.inj h)).2.symm⟩

/-! ### Runs -/

/-- No process creates a file: the inode would be where no other task sees it. -/
def SharesInodes (env : FsEnv) (s : Fs) (c : FsCall) : Prop :=
  ∀ pathname flags d s', c = .open pathname flags →
    openPlan env pathname flags s = .ok (.create d, s') → (s.tasks s.cur).pgDir = false

/-- The states calls and forks of any tasks lead to. -/
inductive SysRun (env : FsEnv) (s₀ : Fs) : Fs → Prop where
  | mounted : SysRun env s₀ s₀
  | call {s s' : Fs} (t : Nat) (c : FsCall) : SysRun env s₀ s →
      SharesInodes env { s with cur := t } c → c.execBy env t s = .ok ((), s') → SysRun env s₀ s'
  | fork {s s' : Fs} (p child : Nat) : SysRun env s₀ s → forkBy p child s = .ok ((), s') →
      SysRun env s₀ s'

theorem SysRun.sound (h₀ : Sound False ∅ s₀ []) (h : SysRun env s₀ s) : Sound False ∅ s [] := by
  have hpin : Pinned ∅ s := fun _ _ _ hmem => absurd hmem (Set.notMem_empty _)
  refine ⟨?_, False.elim, hpin⟩
  induction h with
  | mounted => exact h₀.counted
  | call t c _ _ hrun ih =>
      have hsound : Sound False ∅ _ [] :=
        ⟨ih (fun _ _ _ hmem => absurd hmem (Set.notMem_empty _)), False.elim,
          fun _ _ _ hmem => absurd hmem (Set.notMem_empty _)⟩
      have hexec : wp (fun _ => True) (c.execBy env t) (fun _ s' => Sound False ∅ s' []) _ :=
        wp_bind (wp_modify ((hsound.cur t).exec c False.elim
          fun _ _ _ _ _ _ _ _ => Set.notMem_empty _))
      exact (hexec.of_run hrun).counted
  | fork p child _ hrun ih =>
      have hcounted := ih fun _ _ _ hmem => absurd hmem (Set.notMem_empty _)
      exact (forkBy_run hrun).1.counted ⟨hcounted.nodup, hcounted.heap, hcounted.counted⟩

/-- Process `p` forked in some state of the system, and `s` is the state it left. -/
def Forked (env : FsEnv) (s₀ : Fs) (p child : Nat) (s : Fs) : Prop :=
  child ≠ p ∧ ∃ s₁, SysRun env s₀ s₁ ∧ forkBy p child s₁ = .ok ((), s)

/-- The descriptor a call gives up. -/
def FsCall.closes (t : Nat) : FsCall → Set (Nat × Nat)
  | .close fd => {q | 2 < fd ∧ q = (t, fd.toNat)}
  | _ => ∅

/-- What parent and child get to after the fork, with the descriptors they have closed. -/
inductive AfterFork (env : FsEnv) (Ok : Fs → FsCall → Prop) (sf : Fs) (p child : Nat) :
    Set (Nat × Nat) → Fs → Prop where
  | forked : AfterFork env Ok sf p child ∅ sf
  | call {s s' : Fs} {closed : Set (Nat × Nat)} (t : Nat) (c : FsCall) :
      AfterFork env Ok sf p child closed s → t = p ∨ t = child → Ok { s with cur := t } c →
      c.execBy env t s = .ok ((), s') → AfterFork env Ok sf p child (closed ∪ c.closes t) s'

/-- Descriptor `fd` of task `t` leads to the inode it led to at the fork, and that inode is
open. -/
structure StillOpen (sf s : Fs) (t fd : Nat) : Prop where
  sameFd : (s.tasks t).fdTable fd = (sf.tasks t).fdTable fd
  entry : ∃ a, (sf.fileTable ((sf.tasks t).fdTable fd).toNat).fdInode = some a ∧
    (s.fileTable ((sf.tasks t).fdTable fd).toNat).fdInode = some a ∧
    a ∈ s.openInodes ∧ (s.inodes a).iNo = (sf.inodes a).iNo

/-- What parent and child had open at the fork and have not closed is still open. -/
def DescriptorsSurvive (sf : Fs) (p child : Nat) (closed : Set (Nat × Nat)) (s : Fs) : Prop :=
  ∀ t, t = p ∨ t = child → ∀ fd, 3 ≤ fd → fd < maxFilesOpenPerProc →
    (sf.tasks t).fdTable fd ≠ -1 → (t, fd) ∉ closed → StillOpen sf s t fd

/-- The condition on the calls after the fork: no descriptor is closed that was open at the
fork, and files are created by kernel threads only. -/
def ForkOk (env : FsEnv) (sf : Fs) (p : Nat) (s : Fs) (c : FsCall) : Prop :=
  SharesInodes env s c ∧
  ∀ fd, c = .close fd → 2 < fd → (sf.tasks p).fdTable fd.toNat = -1

/-- The entries behind the descriptors of `p`. -/
def forkPins (sf : Fs) (p : Nat) : Set (Nat × Nat × UInt32) :=
  {q | ∃ fd, 3 ≤ fd ∧ fd < maxFilesOpenPerProc ∧ (sf.tasks p).fdTable fd ≠ -1 ∧
    q.1 = ((sf.tasks p).fdTable fd).toNat ∧ (sf.fileTable q.1).fdInode = some q.2.1 ∧
    q.2.2 = (sf.inodes q.2.1).iNo}

/-- The invariant: descriptors of the fork are where they were, later ones are on other
entries. -/
structure ForkInv (sf : Fs) (p child : Nat) (s : Fs) : Prop where
  sound : Sound False (forkPins sf p) s []
  old : ∀ t, t = p ∨ t = child → ∀ fd, 3 ≤ fd → fd < maxFilesOpenPerProc →
    (sf.tasks p).fdTable fd ≠ -1 → (s.tasks t).fdTable fd = (sf.tasks p).fdTable fd
  new : ∀ t, t = p ∨ t = child → ∀ fd, 3 ≤ fd → fd < maxFilesOpenPerProc →
    (sf.tasks p).fdTable fd = -1 → ∀ g : Nat, (s.tasks t).fdTable fd = g →
    ∀ a no, (g, a, no) ∉ forkPins sf p

section Forked

variable {sf : Fs} {p child : Nat} {closed : Set (Nat × Nat)}

/-- The child starts with the parent's descriptors, each on an open entry. -/
theorem Forked.descriptors (h : Forked env s₀ p child sf) :
    (sf.tasks child).fdTable = (sf.tasks p).fdTable ∧
    ∀ fd, 3 ≤ fd → fd < maxFilesOpenPerProc → (sf.tasks p).fdTable fd ≠ -1 →
      (sf.tasks p).fdTable fd < maxFileOpen ∧
      ∃ a, (sf.fileTable ((sf.tasks p).fdTable fd).toNat).fdInode = some a := by
  obtain ⟨hne, s₁, -, hrun⟩ := h
  obtain ⟨hraised, hopen⟩ := forkBy_run hrun
  have hp : sf.tasks p = s₁.tasks p := by
    rw [hraised.tasks]
    exact if_neg (Ne.symm hne)
  have hc : sf.tasks child = s₁.tasks p := by
    rw [hraised.tasks]
    exact if_pos rfl
  rw [hp, hc, hraised.fileTable]
  exact ⟨rfl, hopen⟩

theorem Forked.inv (h₀ : Sound False ∅ s₀ []) (h : Forked env s₀ p child sf) :
    ForkInv sf p child sf := by
  obtain ⟨hchild, hopen⟩ := h.descriptors
  obtain ⟨-, s₁, hrun, hfork⟩ := h
  have hcounted : Counted sf [] := (SysRun.sound h₀ (.fork p child hrun hfork)).counted
  have hfd : ∀ t, t = p ∨ t = child → (sf.tasks t).fdTable = (sf.tasks p).fdTable := by
    rintro t (rfl | rfl)
    · rfl
    · exact hchild
  refine ⟨⟨hcounted, False.elim, ?_⟩, fun t ht fd _ _ _ => by rw [hfd t ht], ?_⟩
  · rintro g a no ⟨fd, h3, h8, hheld, hg, hinode, hno⟩
    have hlt : (sf.tasks p).fdTable fd < (32 : Nat) := (hopen fd h3 h8 hheld).1
    simp only at hg hinode hno
    refine ⟨?_, hinode, hno.symm⟩
    show g < 32
    omega
  · intro t ht fd _ _ hminus g hg
    rw [hfd t ht, hminus] at hg
    exact absurd hg (by omega)

/-- A descriptor that was free has been filled in or not, and nothing else has changed. -/
theorem ForkInv.installed (h : ForkInv sf p child s) (hs' : Sound False (forkPins sf p) s' [])
    (hinst : Installed s s') : ForkInv sf p child s' := by
  obtain ⟨-, htasks | ⟨fd₁, g₁, hlt, hminus, hempty, htasks⟩⟩ := hinst
  · exact ⟨hs', htasks ▸ h.old, htasks ▸ h.new⟩
  · refine ⟨hs', fun t ht fd h3 h8 hheld => ?_, fun t ht fd h3 h8 hfree g hg => ?_⟩
    · have hold := h.old t ht fd h3 h8 hheld
      rw [htasks]
      by_cases htc : t = s.cur
      · have hfd : fd ≠ fd₁ := by
          rintro rfl
          rw [htc, hminus] at hold
          exact hheld hold.symm
        simp [htc, FdTask.setFd, hfd, ← hold]
      · simp [htc, hold]
    · rw [htasks] at hg
      by_cases hcase : t = s.cur ∧ fd = fd₁
      · obtain ⟨htc, rfl⟩ := hcase
        simp only [if_pos htc, FdTask.setFd, if_true, Int.natCast_inj] at hg
        exact hg ▸ h.sound.pinned.not_mem hempty
      · refine h.new t ht fd h3 h8 hfree g ?_
        rw [← hg]
        by_cases htc : t = s.cur
        · have hfd : fd ≠ fd₁ := fun hc => hcase ⟨htc, hc⟩
          simp [htc, FdTask.setFd, hfd]
        · simp [htc]

/-- A descriptor that is not from the fork has been given up. -/
theorem ForkInv.uninstalled (h : ForkInv sf p child s) (hs' : Sound False (forkPins sf p) s' [])
    {fd₁ : Nat} (hnot : (sf.tasks p).fdTable fd₁ = -1)
    (htasks : s'.tasks = fun t => if t = s.cur then (s.tasks t).setFd fd₁ (-1) else s.tasks t) :
    ForkInv sf p child s' := by
  refine ⟨hs', fun t ht fd h3 h8 hheld => ?_, fun t ht fd h3 h8 hfree g hg => ?_⟩
  · have hfd : fd ≠ fd₁ := by
      rintro rfl
      exact hheld hnot
    rw [htasks, ← h.old t ht fd h3 h8 hheld]
    by_cases htc : t = s.cur
    · simp [htc, FdTask.setFd, hfd]
    · simp [htc]
  · refine h.new t ht fd h3 h8 hfree g ?_
    rw [htasks] at hg
    by_cases htc : t = s.cur
    · by_cases hfd : fd = fd₁
      · simp only [if_pos htc, FdTask.setFd, if_pos hfd] at hg
        exact absurd hg (by omega)
      · simpa [htc, FdTask.setFd, hfd] using hg
    · simpa [htc] using hg

/-- **A call of parent or child that meets the condition keeps the invariant.** -/
theorem ForkInv.call (h : ForkInv sf p child s) {t : Nat} (ht : t = p ∨ t = child) {c : FsCall}
    (hok : ForkOk env sf p { s with cur := t } c) (hrun : c.execBy env t s = .ok ((), s')) :
    ForkInv sf p child s' := by
  have hinv : ForkInv sf p child { s with cur := t } := ⟨h.sound.cur t, h.old, h.new⟩
  have hexec : c.exec env { s with cur := t } = .ok ((), s') := hrun
  have hpin : ∀ fd, c = .close fd → ClosesNoPin (forkPins sf p) { s with cur := t } fd :=
    fun fd hc g h2 h8 hg => h.new t ht fd.toNat (by omega) h8 (hok.2 fd hc h2) g hg
  have hs' : Sound False (forkPins sf p) s' [] :=
    ((h.sound.cur t).exec c False.elim hpin).of_run hexec
  have hquiet : ∀ {α : Type} {x : FsM α}, KeepsQuiet x →
      (x >>= fun _ => pure ()) { s with cur := t } = .ok ((), s') → ForkInv sf p child s' := by
    intro α x hx hx'
    obtain ⟨r, s₁, h1, h2⟩ := bind_run.mp hx'
    obtain rfl := (Prod.mk.inj (Except.ok.inj h2)).2
    have hq := hx _ _ r s₁ (Quiet.refl _) h1
    exact ⟨hs', hq.tasks ▸ hinv.old, hq.tasks ▸ hinv.new⟩
  cases c with
  | «open» pathname flags =>
      obtain ⟨r, s₁, h1, h2⟩ := bind_run.mp hexec
      obtain rfl := (Prod.mk.inj (Except.ok.inj h2)).2
      exact hinv.installed hs' (sysOpen_installed hinv.sound h1)
  | close fd =>
      obtain ⟨r, s₁, h1, h2⟩ := bind_run.mp hexec
      obtain rfl := (Prod.mk.inj (Except.ok.inj h2)).2
      rcases sysClose_run h1 with ⟨-, rfl⟩ | ⟨h2, -, g, -, -, htasks⟩
      · exact hinv
      · exact hinv.uninstalled hs' (hok.2 fd rfl h2) htasks
  | read keys fd buf count => exact hquiet (quiet_sysRead keys fd buf count) hexec
  | write fd buf count => exact hquiet (quiet_sysWrite fd buf count) hexec
  | lseek fd offset whence => exact hquiet (quiet_sysLseek fd offset whence) hexec

theorem AfterFork.inv (h₀ : Sound False ∅ s₀ []) (hf : Forked env s₀ p child sf)
    (h : AfterFork env (ForkOk env sf p) sf p child closed s) : ForkInv sf p child s ∧
      ∀ t fd, (t, fd) ∈ closed → (sf.tasks p).fdTable fd = -1 := by
  induction h with
  | forked => exact ⟨hf.inv h₀, fun _ _ hmem => absurd hmem (Set.notMem_empty _)⟩
  | call t c _ ht hok hrun ih =>
      refine ⟨ih.1.call ht hok hrun, fun t' fd hmem => ?_⟩
      rcases hmem with hmem | hmem
      · exact ih.2 t' fd hmem
      · cases c with
        | close fd' =>
            obtain ⟨h2, heq⟩ := hmem
            obtain ⟨-, rfl⟩ := Prod.mk.inj heq
            exact hok.2 fd' rfl h2
        | _ => exact absurd hmem (Set.notMem_empty _)

theorem ForkInv.survive (hf : Forked env s₀ p child sf) (h : ForkInv sf p child s) :
    DescriptorsSurvive sf p child closed s := by
  obtain ⟨hchild, hopen⟩ := hf.descriptors
  intro t ht fd h3 h8 hheld _
  have hfd : (sf.tasks t).fdTable = (sf.tasks p).fdTable := by
    rcases ht with rfl | rfl
    · rfl
    · exact hchild
  rw [hfd] at hheld
  obtain ⟨-, a, ha⟩ := hopen fd h3 h8 hheld
  obtain ⟨hg, hinode, hno⟩ := h.sound.pinned _ a (sf.inodes a).iNo
    ⟨fd, h3, h8, hheld, rfl, ha, rfl⟩
  have hpos := uses_pos hg hinode
  refine ⟨?_, a, ?_, ?_, (h.sound.counted.counted a (by omega)).1, hno⟩
  · rw [hfd]
    exact h.old t ht fd h3 h8 hheld
  · rw [hfd]
    exact ha
  · rw [hfd]
    exact hinode

end Forked

/-- **As long as no descriptor of the fork is closed, all of them stay open in both tasks; the
first close of one takes it from the other task.** -/
theorem fork_descriptors_survive (env : FsEnv) (s₀ sf s : Fs) (p child : Nat)
    (closed : Set (Nat × Nat)) (h₀ : Mounted env s₀) (hf : Forked env s₀ p child sf)
    (h : AfterFork env (ForkOk env sf p) sf p child closed s) :
    DescriptorsSurvive sf p child closed s ∧
    ∀ t fd s', t = p ∨ t = child → 3 ≤ fd → (sf.tasks p).fdTable fd ≠ -1 →
      (FsCall.close fd).execBy env t s = .ok ((), s') →
      ¬ DescriptorsSurvive sf p child (closed ∪ (FsCall.close fd).closes t) s' := by
  obtain ⟨hinv, hclosed⟩ := h.inv (h₀.sound False.elim) hf
  refine ⟨hinv.survive hf, fun t fd s' ht h3 hheld hrun hsurvive => ?_⟩
  obtain ⟨hchild, -⟩ := hf.descriptors
  obtain ⟨r, s₁, h1, h2⟩ := bind_run.mp (show (FsCall.close fd).exec env { s with cur := t } =
    .ok ((), s') from hrun)
  obtain rfl := (Prod.mk.inj (Except.ok.inj h2)).2
  rcases sysClose_run h1 with ⟨hle, -⟩ | ⟨-, h8, g, hentry, hnone, -⟩
  · omega
  simp only [Int.toNat_natCast] at h8 hentry
  rw [hinv.old t ht fd h3 h8 hheld] at hentry
  -- the other task has not closed it, and its entry is empty
  obtain ⟨t', ht', hne⟩ : ∃ t', (t' = p ∨ t' = child) ∧ t' ≠ t := by
    rcases ht with rfl | rfl
    · exact ⟨child, Or.inr rfl, hf.1⟩
    · exact ⟨p, Or.inl rfl, Ne.symm hf.1⟩
  have hfd : (sf.tasks t').fdTable = (sf.tasks p).fdTable := by
    rcases ht' with rfl | rfl
    · rfl
    · exact hchild
  have hnotclosed : (t', fd) ∉ closed ∪ (FsCall.close fd).closes t := by
    rintro (hmem | ⟨-, heq⟩)
    · exact hheld (hclosed t' fd hmem)
    · exact hne (Prod.mk.inj heq).1
  obtain ⟨a, -, hsome, -⟩ := (hsurvive t' ht' fd h3 h8 (by rw [hfd]; exact hheld) hnotclosed).entry
  rw [hfd, hentry, Int.toNat_natCast, hnone] at hsome
  exact absurd hsome (by simp)

/-! ### A process that forks with a file open -/

/-- The empty partition; task 0 is a process. -/
def processFs : Fs :=
  { emptyFs with tasks := fun t => { fdTable := fun k => if k < 3 then k else -1, pgDir := t == 0 } }

/-- The same, mounted. -/
def mountedProcessFs : Fs := stateAfter (filesysInit upwardEnv) processFs

/-- Thread 1 creates `/a`. -/
def sharedFs : Fs := stateAfter (createForReading.execBy upwardEnv 1) mountedProcessFs

/-- `open("/a", O_RDONLY)` -/
def openForReading : FsCall := .open [47, 97] 0

/-- Process 0 opens it and gets descriptor 3. -/
def openedFs : Fs := stateAfter (openForReading.execBy upwardEnv 0) sharedFs

/-- Process 0 forks; the child is task 2. -/
def forkedFs : Fs := stateAfter (forkBy 0 2) openedFs

/-- Whether an open is going to create a file. -/
def creates (s : Fs) (pathname : List UInt8) (flags : Nat) : Bool :=
  match openPlan upwardEnv pathname flags s with
  | .ok (.create _, _) => true
  | _ => false

theorem sharesInodes_of {pathname : List UInt8} {flags : Nat}
    (h : creates s pathname flags = false ∨ (s.tasks s.cur).pgDir = false) :
    SharesInodes upwardEnv s (.open pathname flags) := by
  intro pathname' flags' d s' heq hplan
  injection heq with h1 h2
  subst h1 h2
  rcases h with h | h
  · simp [creates, hplan] at h
  · exact h

theorem mountedProcessFs_mounted : Mounted upwardEnv mountedProcessFs :=
  ⟨processFs, ⟨rfl, fun _ _ => rfl⟩, run_stateAfter (by decide +kernel)⟩

theorem forkedFs_forked : Forked upwardEnv mountedProcessFs 0 2 forkedFs := by
  refine ⟨by decide, openedFs, ?_, run_stateAfter (by decide +kernel)⟩
  refine .call 0 openForReading (.call 1 createForReading .mounted
    (sharesInodes_of (Or.inr (by decide +kernel))) (run_stateAfter (by decide +kernel)))
    (sharesInodes_of (Or.inl (by decide +kernel))) (run_stateAfter (by decide +kernel))

/-- The parent opens the file once more and closes that descriptor. -/
def reopenedFs : Fs :=
  stateAfter ((FsCall.close 4).execBy upwardEnv 0)
    (stateAfter (openForReading.execBy upwardEnv 0) forkedFs)

theorem fork_descriptors_reopened : Mounted upwardEnv mountedProcessFs ∧
    Forked upwardEnv mountedProcessFs 0 2 forkedFs ∧
    ∃ closed, AfterFork upwardEnv (ForkOk upwardEnv forkedFs 0) forkedFs 0 2 closed reopenedFs ∧
      DescriptorsSurvive forkedFs 0 2 closed reopenedFs := by
  have hrun : AfterFork upwardEnv (ForkOk upwardEnv forkedFs 0) forkedFs 0 2
      (∅ ∪ openForReading.closes 0 ∪ (FsCall.close 4).closes 0) reopenedFs := by
    refine .call 0 (.close 4) (.call 0 openForReading .forked (Or.inl rfl)
      ⟨sharesInodes_of (Or.inl (by decide +kernel)),
        fun fd heq => absurd heq (by simp [openForReading])⟩
      (run_stateAfter (by decide +kernel))) (Or.inl rfl)
        ⟨fun _ _ _ _ heq => absurd heq (by simp), ?_⟩
      (run_stateAfter (by decide +kernel))
    intro fd heq _
    injection heq with heq
    subst heq
    decide +kernel
  exact ⟨mountedProcessFs_mounted, forkedFs_forked, _, hrun,
    (fork_descriptors_survive upwardEnv _ _ _ _ _ _ mountedProcessFs_mounted
      forkedFs_forked hrun).1⟩

/-- The parent closes descriptor 3, and the child's leads nowhere. -/
theorem fork_descriptors_lost : Mounted upwardEnv mountedProcessFs ∧
    Forked upwardEnv mountedProcessFs 0 2 forkedFs ∧
    ∃ closed s, AfterFork upwardEnv (fun _ _ => True) forkedFs 0 2 closed s ∧
      ¬ DescriptorsSurvive forkedFs 0 2 closed s := by
  refine ⟨mountedProcessFs_mounted, forkedFs_forked, _,
    stateAfter ((FsCall.close 3).execBy upwardEnv 0) forkedFs,
    .call 0 (.close 3) .forked (Or.inl rfl) trivial
      (run_stateAfter (by decide +kernel)), fun h => ?_⟩
  have hentry : (forkedFs.tasks 2).fdTable 3 = 4 := by decide +kernel
  have hopen : ((2, 3) : Nat × Nat) ∉ (∅ : Set (Nat × Nat)) ∪ (FsCall.close 3).closes 0 := by
    rintro (hmem | ⟨-, heq⟩)
    · exact hmem
    · exact absurd heq (by decide)
  obtain ⟨a, -, hsome, -⟩ :=
    (h 2 (Or.inr rfl) 3 (by decide) (by decide) (by rw [hentry]; decide) hopen).entry
  have hnone : ((stateAfter ((FsCall.close 3).execBy upwardEnv 0) forkedFs).fileTable 4).fdInode
      = none := by decide +kernel
  rw [hentry, show (4 : Int).toNat = 4 from rfl, hnone] at hsome
  exact absurd hsome (by simp)

end ZyOs
