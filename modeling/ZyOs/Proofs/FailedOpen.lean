/-
What a failed open leaves behind.

An open that is refused for its path puts back what it has walked through.  Past that point
only the entry of the file table is looked for before anything is taken, and nothing that is
taken is put back: not when the file has a writer, and not when the task has no descriptor
left.  An open that finds the table full has the directory of an existing file still open.
-/
import ZyOs.Proofs.OpenCounts
import ZyOs.Proofs.Scarce
import ZyOs.Proofs.Synced

namespace ZyOs

open Library

variable {env : FsEnv} {s₀ s s' : Fs} {a b g no flag : Nat} {held : List Nat}
  {part : Partition} {handles : List DirPtr}

/-! ### States calls lead to -/

/-- Open inodes are allocated, each is listed once and has somebody who has opened it; the
partition is the one that was mounted. -/
structure Sane (part : Partition) (s : Fs) : Prop where
  nodup : s.openInodes.Nodup
  heap : ∀ a ∈ s.openInodes, a ∈ s.heap
  counts : ∀ a ∈ s.openInodes, 0 < (s.inodes a).iOpenCnts
  alike : part.Alike s.part

namespace Sane

theorem quiet (h : Sane part s) (hq : Quiet s s') : Sane part s' where
  nodup := hq.openInodes ▸ h.nodup
  heap := fun a ha => hq.heap ▸ h.heap a (hq.openInodes ▸ ha)
  counts := fun a ha => hq.iOpenCnts a ▸ h.counts a (hq.openInodes ▸ ha)
  alike := h.alike.trans hq.alike

theorem tasks (h : Sane part s) (f : Nat → FdTask) : Sane part { s with tasks := f } := { h with }

theorem cur (h : Sane part s) (t : Nat) : Sane part { s with cur := t } := { h with }

theorem withFile (h : Sane part s) (g : Nat) (f : File) : Sane part (s.withFile g f) := { h with }

theorem ne_of_fresh (h : Sane part s) (hfresh : a ∉ s.heap) (hb : b ∈ s.openInodes) : b ≠ a :=
  fun hba => hfresh (hba ▸ h.heap b hb)

/-- An inode may be written when somebody still has it open. -/
theorem withInode (h : Sane part s) {n : Inode} (hn : a ∈ s.openInodes → 0 < n.iOpenCnts) :
    Sane part (s.withInode a n) := by
  refine ⟨h.nodup, h.heap, fun b hb => ?_, h.alike⟩
  by_cases hba : b = a
  · rw [hba, withInode_self]
    exact hn (hba ▸ hb)
  · rw [withInode_ne _ _ _ _ hba]
    exact h.counts b hb

theorem loaded (h : Sane part s) (hfresh : a ∉ s.heap) (n : Inode) : Sane part (s.loaded a n) := by
  have hne : ∀ b ∈ s.openInodes, b ≠ a := fun b hb => h.ne_of_fresh hfresh hb
  refine ⟨List.nodup_cons.mpr ⟨fun ha => hne a ha rfl, h.nodup⟩, fun b hb => ?_, fun b hb => ?_,
    h.alike⟩
  · rcases List.mem_cons.mp hb with rfl | hb
    · exact Finset.mem_insert_self _ _
    · exact Finset.mem_insert_of_mem (h.heap b hb)
  · show 0 < ((s.withInode a _).inodes b).iOpenCnts
    rcases List.mem_cons.mp hb with rfl | hb
    · rw [withInode_self]
      exact Nat.one_pos
    · rw [withInode_ne _ _ _ _ (hne b hb)]
      exact h.counts b hb

theorem opened (h : Sane part s) (hrun : inodeOpen env no s = .ok (a, s')) : Sane part s' := by
  rcases inodeOpen_cases hrun with ⟨-, -, rfl⟩ | ⟨-, hfresh, rfl⟩
  · exact h.withInode fun _ => Nat.succ_pos _
  · exact h.loaded hfresh _

theorem closed (h : Sane part s) (a : Nat) : Sane part (s.closed a) := by
  unfold Fs.closed
  by_cases hz : decrOpenCnts (s.inodes a).iOpenCnts = 0
  · rw [if_pos hz]
    refine ⟨h.nodup.erase a, fun b hb => ?_, fun b hb => ?_, h.alike⟩
    · obtain ⟨hba, hb⟩ := h.nodup.mem_erase_iff.mp hb
      exact Finset.mem_erase.mpr ⟨hba, h.heap b hb⟩
    · obtain ⟨hba, hb⟩ := h.nodup.mem_erase_iff.mp hb
      show 0 < ((s.withInode a _).inodes b).iOpenCnts
      rw [withInode_ne _ _ _ _ hba]
      exact h.counts b hb
  · rw [if_neg hz]
    exact h.withInode fun _ => Nat.pos_of_ne_zero hz

theorem tracksCalls : TracksCalls env (fun _ s => Sane part s) where
  opened := fun h hrun => h.opened hrun
  closed := fun h => h.closed _
  perm := fun h _ => h
  quiet := fun h hq => h.quiet hq
  tasks := fun f h => h.tasks f

theorem wp_pcbFdInstall (h : Sane part s) (g : Nat) :
    Prog.wp (fun _ => True) (pcbFdInstall g) (fun _ s' => Sane part s') s := by
  refine Prog.wp_of_returns fun r s' hrun => ?_
  obtain ⟨t, rfl⟩ := pcbFdInstall_tasks hrun
  exact h.tasks t

theorem fileCreate (h : Sane part s) (parent : Nat) (filename : List UInt8) (flag : Nat) :
    Prog.wp (fun _ => True) (fileCreate env parent filename flag)
      (fun _ s' => Sane part s') s := by
  refine Prog.wp_mono (fileCreate_cases env parent filename flag s) fun fd s' hcases => ?_
  rcases hcases with ⟨-, a, n, hfresh, hq⟩ | ⟨a, g, no, s₁, hfresh, -, hq, hrun⟩
  · exact (h.withInode (n := n) fun ha => absurd (h.heap a ha) hfresh).quiet hq
  · have h₁ : Sane part s₁ := ((h.loaded hfresh (inodeInit no)).withFile g _).quiet hq
    exact (h₁.wp_pcbFdInstall g).of_run hrun

theorem fileOpen (h : Sane part s) (no flag : Nat) :
    Prog.wp (fun _ => True) (fileOpen env no flag) (fun _ s' => Sane part s') s := by
  refine Prog.wp_get_bind ?_
  cases getFreeSlotInGlobal s.fileTable with
  | none => exact Prog.wp_pure h
  | some g =>
      refine Prog.wp_bind (Prog.wp_of_returns fun a s₁ hrun => ?_)
      have h₁ := (h.opened hrun).withFile g ⟨0, flag, some a⟩
      refine Prog.wp_bind (Prog.wp_of_run (setFile_run g _ s₁) ?_)
      refine Prog.wp_ite (fun _ => Prog.wp_get_bind (Prog.wp_ite (fun _ => Prog.wp_pure h₁)
        fun _ => ?_)) fun _ => h₁.wp_pcbFdInstall g
      refine Prog.wp_bind (Prog.wp_of_run (putInode_run ..) (Sane.wp_pcbFdInstall ?_ g))
      exact h₁.withInode fun ha => h₁.counts a ha

theorem dirClose (h : Sane part s) (d : DirPtr) :
    Prog.wp (fun _ => True) (dirClose d) (fun _ s' => Sane part s') s := by
  cases d with
  | root => exact Prog.wp_pure h
  | opened a => exact Prog.wp_of_run (inodeClose_run a s) (h.closed a)

theorem sysOpen (h : Sane part s) (pathname : List UInt8) (flags : Nat) :
    Prog.wp (fun _ => True) (sysOpen env pathname flags) (fun _ s' => Sane part s') s := by
  have hP : Tracks env (fun _ s => Sane part s) := tracksCalls.toTracks
  have hplan : Prog.wp (fun _ => True) (openPlan env pathname flags)
      (fun _ s' => Sane part s') s :=
    Prog.wp_mono (@Tracks.openPlan _ _ _ [] hP h pathname flags) fun _ _ ⟨_, h₁, _⟩ => h₁
  refine Prog.wp_bind (Prog.wp_mono hplan fun plan s₁ h₁ => ?_)
  cases plan with
  | refuse => exact Prog.wp_pure h₁
  | create parentDir =>
      refine Prog.wp_get_bind (Prog.wp_bind (Prog.wp_mono (h₁.fileCreate _ _ _)
        fun fd s₂ h₂ => ?_))
      exact Prog.wp_bind (Prog.wp_mono (h₂.dirClose _) fun _ _ h₃ => Prog.wp_pure h₃)
  | existing no => exact h₁.fileOpen no flags

theorem sysClose (h : Sane part s) (fd : Int) :
    Prog.wp (fun _ => True) (sysClose fd) (fun _ s' => Sane part s') s := by
  refine Prog.wp_ite (fun _ => ?_) fun _ => Prog.wp_pure h
  refine Prog.wp_bind ((reads_fdLocalToGlobal _).wp fun g => Prog.wp_bind ?_)
  refine Prog.wp_of_returns fun r s₁ hrun => ?_
  obtain ⟨a, hentry⟩ : ∃ a, (s.fileTable g).fdInode = some a := by
    obtain ⟨a, _, hinode, -⟩ := Prog.bind_run.mp hrun
    exact ⟨a, (fdInodeOf_eq hinode).1⟩
  rw [fileClose_run hentry, Except.ok.injEq, Prod.mk.injEq] at hrun
  obtain ⟨rfl, rfl⟩ := hrun
  have h₁ : Sane part (s.withInode a { s.inodes a with writeDeny := false }) :=
    h.withInode fun ha => h.counts a ha
  exact Prog.wp_bind (Prog.wp_get_bind (((h₁.withFile g _).closed a).tasks _))

/-- A call on files. -/
theorem exec (h : Sane part s) (c : FsCall) :
    Prog.wp (fun _ => True) (c.exec env) (fun _ s' => Sane part s') s := by
  cases c with
  | «open» pathname flags =>
      exact Prog.wp_bind (Prog.wp_mono (h.sysOpen pathname flags) fun _ _ h' => Prog.wp_pure h')
  | close fd => exact Prog.wp_bind (Prog.wp_mono (h.sysClose fd) fun _ _ h' => Prog.wp_pure h')
  | read keys fd buf count =>
      exact Prog.wp_bind (Prog.wp_mono ((quiet_sysRead keys fd buf count s).wp (Quiet.refl s))
        fun _ _ hq => Prog.wp_pure (h.quiet hq))
  | write fd buf count =>
      exact Prog.wp_bind (Prog.wp_mono ((quiet_sysWrite fd buf count s).wp (Quiet.refl s))
        fun _ _ hq => Prog.wp_pure (h.quiet hq))
  | lseek fd offset whence =>
      exact Prog.wp_bind (Prog.wp_mono ((quiet_sysLseek fd offset whence s).wp (Quiet.refl s))
        fun _ _ hq => Prog.wp_pure (h.quiet hq))

/-- The child's descriptors are counted. -/
theorem updateOpenCntsFrom (fdTable : Nat → Int) : ∀ n localFd : Nat,
    Prog.Preserves (Sane part) (updateOpenCntsFrom fdTable n localFd) := by
  intro n
  induction n with
  | zero => exact fun _ => Prog.Preserves.pure _
  | succ n ih =>
      intro localFd
      refine Prog.Preserves.bind (reads_assertFs _ _ _ _) fun _ => ?_
      refine Prog.Preserves.ite (fun _ => ?_) fun _ => ih _
      refine Prog.Preserves.bind (reads_fdInodeOf _ _ _) fun a => Prog.Preserves.get_bind
        fun s h => Prog.Preserves.bind (fun s₁ r s₂ h₁ hrun => ?_) fun _ => ih _
      obtain rfl := (Prod.mk.inj (Except.ok.inj hrun)).2
      exact h₁.withInode fun _ => Nat.succ_pos _

theorem sysForkFiles (h : Sane part s) (child : Nat) :
    Prog.wp (fun _ => True) (sysForkFiles child) (fun _ s' => Sane part s') s := by
  refine Prog.wp_get_bind (Prog.wp_bind ((reads_assertFs _ _ _).wp fun _ => ?_))
  exact Prog.wp_bind (Prog.wp_modify (Prog.wp_get_bind
    ((updateOpenCntsFrom _ _ _).wp (h.tasks _))))

end Sane

/-- The states calls of any kind lead to from `s₀`, with the directories that are open. -/
inductive CallsRun (env : FsEnv) (s₀ : Fs) : Fs → List DirPtr → Prop where
  | mounted : CallsRun env s₀ s₀ []
  | file {s s' : Fs} {handles : List DirPtr} (t : Nat) (c : FsCall) : CallsRun env s₀ s handles →
      c.execBy env t s = .ok ((), s') → CallsRun env s₀ s' handles
  | dir {s s' : Fs} {handles handles' : List DirPtr} (t : Nat) (c : DirCall) :
      CallsRun env s₀ s handles → c.execBy env t handles s = .ok (handles', s') →
      CallsRun env s₀ s' handles'
  | fork {s s' : Fs} {handles : List DirPtr} (t child : Nat) : CallsRun env s₀ s handles →
      sysForkFiles child { s with cur := t } = .ok ((), s') → CallsRun env s₀ s' handles

theorem Mounted.sane (h : Mounted env s) : Sane s.part s := by
  obtain ⟨s₀, a, no, hboot, -, rfl⟩ := h.eq
  have hopen : (s₀.mounted a (diskInode s₀ no)).openInodes = [a] :=
    congrArg (a :: ·) hboot.openInodes
  refine ⟨by rw [hopen]; exact List.nodup_singleton a, fun b hb => ?_, fun b hb => ?_, .refl _⟩
  · rw [hopen, List.mem_singleton] at hb
    exact hb ▸ Finset.mem_insert_self _ _
  · rw [hopen, List.mem_singleton] at hb
    rw [hb, show ((s₀.mounted a (diskInode s₀ no)).inodes a).iOpenCnts = 1 from
      congrArg Inode.iOpenCnts (withInode_self ..)]
    exact Nat.one_pos

/-- **In every run the open inodes are in order.** -/
theorem CallsRun.sane (h₀ : Sane part s₀) (h : CallsRun env s₀ s handles) : Sane part s := by
  induction h with
  | mounted => exact h₀
  | file t c _ hrun ih =>
      obtain ⟨_, s₁, h1, h2⟩ := Prog.bind_run.mp hrun
      simp only [Prog.modify_run, Except.ok.injEq, Prod.mk.injEq, true_and] at h1
      subst h1
      exact ((ih.cur t).exec c).of_run h2
  | dir t c _ hrun ih =>
      obtain ⟨_, s₁, h1, h2⟩ := Prog.bind_run.mp hrun
      simp only [Prog.modify_run, Except.ok.injEq, Prod.mk.injEq, true_and] at h1
      subst h1
      exact (Sane.tracksCalls.exec (ih.cur t) c (fun pathname flags _ =>
        (ih.cur t).sysOpen pathname flags) fun fd _ => (ih.cur t).sysClose fd).of_run h2
  | fork t child _ hrun ih => exact ((ih.cur t).sysForkFiles child).of_run hrun

/-! ### Nothing has changed -/

/-- No entry, no descriptor, no open inode and no sector is another, and the bitmaps are the same;
with the sectors and the open inodes goes the directory tree. -/
structure Unchanged (s s' : Fs) : Prop where
  fileTable : s'.fileTable = s.fileTable
  tasks : s'.tasks = s.tasks
  openInodes : ∀ a, a ∈ s'.openInodes ↔ a ∈ s.openInodes
  inodes : ∀ a ∈ s.openInodes, s'.inodes a = s.inodes a
  bitmaps : s'.part = s.part
  disk : s'.disk = s.disk
  rootInode : s'.rootInode = s.rootInode

/-- Since `s₀` the inodes in `held` have been opened, each as often as it is there, and
nothing else has happened. -/
structure Walked (s₀ : Fs) (held : List Nat) (s : Fs) : Prop where
  sane : Sane s₀.part s
  mem : ∀ a, a ∈ s.openInodes ↔ a ∈ s₀.openInodes ∨ a ∈ held
  inodes : ∀ a ∈ s₀.openInodes, s.inodes a
    = { s₀.inodes a with iOpenCnts := (s₀.inodes a).iOpenCnts + held.count a }
  counts : ∀ a ∈ held, a ∉ s₀.openInodes → (s.inodes a).iOpenCnts = held.count a
  fileTable : s.fileTable = s₀.fileTable
  rootInode : s.rootInode = s₀.rootInode
  tasks : s.tasks = s₀.tasks
  disk : s.disk = s₀.disk
  part : s.part = s₀.part

namespace Walked

theorem refl (h : Sane s.part s) : Walked s [] s :=
  ⟨h, fun a => by simp, fun a _ => rfl, nofun, rfl, rfl, rfl, rfl, rfl⟩

theorem opened (h : Walked s₀ held s) (hrun : inodeOpen env no s = .ok (a, s')) :
    Walked s₀ (a :: held) s' := by
  have hsane := h.sane.opened hrun
  rcases inodeOpen_cases hrun with ⟨hmem, -, rfl⟩ | ⟨-, hfresh, rfl⟩
  · refine ⟨hsane, fun b => ?_, fun b hb => ?_, fun b hb hnew => ?_, h.fileTable, h.rootInode,
      h.tasks, h.disk, h.part⟩
    · show b ∈ s.openInodes ↔ _
      have ha := (h.mem a).mp hmem
      rw [h.mem, List.mem_cons]
      by_cases hba : b = a
      · rw [hba]
        simpa using ha
      · simp [hba]
    · by_cases hba : b = a
      · subst hba
        rw [withInode_self, h.inodes b hb, List.count_cons_self]
        rfl
      · rw [withInode_ne _ _ _ _ hba, h.inodes b hb, List.count_cons_of_ne (Ne.symm hba)]
    · by_cases hba : b = a
      · subst hba
        have hheld := ((h.mem b).mp hmem).resolve_left hnew
        rw [withInode_self, List.count_cons_self]
        exact congrArg (· + 1) (h.counts b hheld hnew)
      · rw [withInode_ne _ _ _ _ hba, List.count_cons_of_ne (Ne.symm hba)]
        exact h.counts b ((List.mem_cons.mp hb).resolve_left hba) hnew
  · have ha : a ∉ s.openInodes := fun hmem => hfresh (h.sane.heap a hmem)
    have hne : ∀ b, b ∈ s₀.openInodes ∨ b ∈ held → b ≠ a := fun b hb hba =>
      ha (hba ▸ (h.mem b).mpr hb)
    refine ⟨hsane, fun b => ?_, fun b hb => ?_, fun b hb hnew => ?_, h.fileTable, h.rootInode,
      h.tasks, h.disk, h.part⟩
    · show b ∈ a :: s.openInodes ↔ _
      rw [List.mem_cons, List.mem_cons, h.mem]
      exact or_left_comm
    · have hba := hne b (.inl hb)
      show (s.withInode a _).inodes b = _
      rw [withInode_ne _ _ _ _ hba, h.inodes b hb, List.count_cons_of_ne (Ne.symm hba)]
    · show ((s.withInode a _).inodes b).iOpenCnts = _
      rcases List.mem_cons.mp hb with rfl | hb
      · rw [withInode_self, List.count_cons_self,
          List.count_eq_zero_of_not_mem fun hmem => hne b (.inr hmem) rfl]
      · have hba := hne b (.inr hb)
        rw [withInode_ne _ _ _ _ hba, List.count_cons_of_ne (Ne.symm hba)]
        exact h.counts b hb hnew

/-- The last to close an inode takes it off the list. -/
theorem closed_mem (h : Walked s₀ (a :: held) s) (h₀ : Sane s₀.part s₀) (b : Nat) :
    b ∈ (s.closed a).openInodes ↔ b ∈ s₀.openInodes ∨ b ∈ held := by
  have hshared : 2 ≤ (s.inodes a).iOpenCnts → (a ∈ s₀.openInodes ∨ a ∈ held) →
      (b ∈ (s.closed a).openInodes ↔ b ∈ s₀.openInodes ∨ b ∈ held) := by
    intro htwo ha
    rw [closed_shared htwo]
    show b ∈ s.openInodes ↔ _
    rw [h.mem, List.mem_cons]
    by_cases hba : b = a
    · rw [hba]
      simpa using ha
    · simp [hba]
  by_cases hold : a ∈ s₀.openInodes
  · refine hshared ?_ (.inl hold)
    have hpos := h₀.counts a hold
    rw [h.inodes a hold, List.count_cons_self]
    show 2 ≤ (s₀.inodes a).iOpenCnts + (held.count a + 1)
    omega
  have hcount := h.counts a List.mem_cons_self hold
  rw [List.count_cons_self] at hcount
  by_cases ha : a ∈ held
  · have hpos := List.count_pos_iff.mpr ha
    exact hshared (by omega) (.inr ha)
  · rw [List.count_eq_zero_of_not_mem ha] at hcount
    rw [closed_last hcount]
    show b ∈ s.openInodes.erase a ↔ _
    rw [h.sane.nodup.mem_erase_iff, h.mem, List.mem_cons]
    by_cases hba : b = a
    · subst hba
      simp [hold, ha]
    · simp [hba]

theorem closed (h : Walked s₀ (a :: held) s) (h₀ : Sane s₀.part s₀) :
    Walked s₀ held (s.closed a) := by
  obtain ⟨h1, h2, h3, -, h5, h6⟩ := closed_rest s a
  have hinodes : ∀ b, b ≠ a → (s.closed a).inodes b = s.inodes b := by
    intro b hba
    rw [closed_inodes, withInode_ne _ _ _ _ hba]
  have hself : (s.closed a).inodes a
      = { s.inodes a with iOpenCnts := decrOpenCnts (s.inodes a).iOpenCnts } := by
    rw [closed_inodes, withInode_self]
  refine ⟨h.sane.closed a, h.closed_mem h₀, fun b hb => ?_, fun b hb hnew => ?_,
    h1.trans h.fileTable, h2.trans h.rootInode, h3.trans h.tasks, h5.trans h.disk,
    h6.trans h.part⟩
  · by_cases hba : b = a
    · subst hba
      rw [hself, h.inodes b hb, List.count_cons_self]
      rfl
    · rw [hinodes b hba, h.inodes b hb, List.count_cons_of_ne (Ne.symm hba)]
  · by_cases hba : b = a
    · subst hba
      rw [hself]
      show decrOpenCnts _ = _
      rw [h.counts b List.mem_cons_self hnew, List.count_cons_self]
      rfl
    · rw [hinodes b hba, h.counts b (List.mem_cons_of_mem _ hb) hnew,
        List.count_cons_of_ne (Ne.symm hba)]

theorem tracks (h₀ : Sane s₀.part s₀) : Tracks env (Walked s₀) :=
  ⟨fun h hrun => h.opened hrun, fun h => h.closed h₀⟩

theorem unchanged (h : Walked s₀ [] s) : Unchanged s₀ s :=
  ⟨h.fileTable, h.tasks, fun a => by simp [h.mem], fun a ha => h.inodes a ha, h.part, h.disk,
    h.rootInode⟩

/-- A directory that is still open shows. -/
theorem changed (h : Walked s₀ [a] s) : ¬ Unchanged s₀ s := by
  intro hun
  have ha : a ∈ s₀.openInodes := (hun.openInodes a).mp ((h.mem a).mpr (.inr (by simp)))
  have hcount := congrArg Inode.iOpenCnts ((h.inodes a ha).symm.trans (hun.inodes a ha))
  rw [List.count_cons_self] at hcount
  simp only [List.count_nil] at hcount
  omega

end Walked

/-! ### Creating a file -/

theorem Sane.ordered (h : Sane part s) (ho : part.Ordered) : s.part.Ordered := ho.alike h.alike

/-- An entry always finds its place, or the kernel stops. -/
theorem wp_syncNewBlock_true (hfit : s.part.DataFits) (pdir : Nat) (pDe : DirEntry) (ioBuf : Mem)
    (blocks : Nat → UInt32) (blockIdx : Nat) : Prog.wp (fun _ => True)
      (syncNewBlock pdir pDe ioBuf blocks blockIdx) (fun ok _ => ok = true) s := by
  have hwrite : ∀ (lba : Nat) (buf : Mem) (block : UInt32) (s : Fs), Prog.wp (fun _ => True) (do
      writeSectors lba buf 1
      syncFinish pdir pDe ioBuf block) (fun ok _ => ok = true) s := fun lba buf block s =>
    Prog.wp_bind (wp_writeSectors (fun _ _ => trivial) (wp_syncFinish_true _ _ _ fun _ => rfl))
  refine Prog.wp_bind (wp_allocSynced (fun _ _ => trivial) hfit fun n hn => ?_)
  refine Prog.wp_ite (fun h => absurd h (by omega)) fun _ => Prog.wp_get_bind ?_
  refine Prog.wp_ite (fun _ => ?_) fun _ => Prog.wp_ite (fun _ => ?_) fun _ => hwrite _ _ _ _
  · exact Prog.wp_bind (Prog.wp_of_run (putInode_run _ _ _)
      (wp_syncFinish_true _ _ _ fun _ => rfl))
  · refine Prog.wp_bind (Prog.wp_of_run (putInode_run _ _ _) (Prog.wp_bind ?_))
    refine wp_allocSynced (fun _ _ => trivial) (hfit.take n) fun m hm => ?_
    exact Prog.wp_get_bind (Prog.wp_ite (fun h => absurd h (by omega)) fun _ => hwrite _ _ _ _)

theorem wp_syncLoop_true (pdir : Nat) (pDe : DirEntry) {blocks : Nat → UInt32}
    (hblocks : ∀ k, 12 ≤ k → blocks k = 0) : ∀ (fuel blockIdx : Nat) (ioBuf : Mem) (s : Fs),
      s.part.DataFits → 13 ≤ fuel + blockIdx → blockIdx ≤ 12 → Prog.wp (fun _ => True)
        (syncLoop pdir pDe blocks fuel blockIdx ioBuf) (fun ok _ => ok = true) s := by
  intro fuel
  induction fuel with
  | zero => intro blockIdx ioBuf s _ hsum hle; omega
  | succ fuel ih =>
      intro blockIdx ioBuf s hfit hsum hle
      refine Prog.wp_get_bind (Prog.wp_ite (fun _ => wp_syncNewBlock_true hfit _ _ _ _ _)
        fun hne => ?_)
      have hlt : blockIdx < 12 := by
        by_contra hc
        exact hne (hblocks _ (by omega))
      refine Prog.wp_bind ((reads_readSectors _ _ _).wp fun buf => ?_)
      cases freeSlot buf (512 / s.part.sb.dirEntrySize) (512 / s.part.sb.dirEntrySize) 0 with
      | none => exact ih _ _ _ hfit (by omega) (by omega)
      | some k =>
          exact Prog.wp_bind (wp_writeSectors (fun _ _ => trivial) (Prog.wp_get_bind
            (Prog.wp_bind (Prog.wp_of_run (putInode_run _ _ _) (Prog.wp_pure rfl)))))

theorem wp_syncDirEntry_true (hfit : s.part.DataFits) (pdir : Nat) (pDe : DirEntry)
    (ioBuf : Mem) : Prog.wp (fun _ => True) (syncDirEntry pdir pDe ioBuf)
      (fun ok _ => ok = true) s := by
  refine Prog.wp_get_bind (Prog.wp_bind ((reads_assertFs _ _ _).wp fun _ => ?_))
  exact wp_syncLoop_true _ _ (fun k hk => if_neg (by omega)) _ _ _ _ hfit (by decide) (by decide)

/-- Without an entry in the file table nothing is created, and the number is given back. -/
theorem Walked.fileCreate_full (h : Walked s₀ held s) (ho : s₀.part.Ordered)
    (hheld : ∀ a ∈ held, a ∈ s.openInodes)
    (hslot : getFreeSlotInGlobal s.fileTable = none) (parent : Nat) (filename : List UInt8) :
    Prog.wp (fun _ => True) (fileCreate env parent filename flag)
      (fun _ s' => Walked s₀ held s') s := by
  have hlen : 8 * s.part.inodeBitmap.bmapBytesLen ≤ 2 ^ 31 := by
    rw [h.part, ho.inodeBytes]
    decide
  refine Prog.wp_bind (wp_inodeBitmapAlloc (fun _ _ => trivial) hlen fun n hn => ?_)
  refine Prog.wp_ite (fun hc => absurd hc (by omega)) fun _ => Prog.wp_get_bind ?_
  set a := env.newAddr s.heap
  have hfresh : a ∉ s.heap := env.newAddr_fresh s.heap
  refine Prog.wp_bind (Prog.wp_modify (Prog.wp_bind (Prog.wp_of_run (putInode_run _ _ _)
    (Prog.wp_get_bind ?_))))
  simp only [hslot]
  refine Prog.wp_bind (Prog.wp_modify (Prog.wp_bind (Prog.wp_modify (Prog.wp_pure ?_))))
  have hheap : (insert a s.heap).erase a = s.heap := Finset.erase_insert hfresh
  have hpart : { s.part with inodeBitmap :=
      (s.part.inodeBitmap.bitmapSet n true).bitmapSet n false } = s.part := by
    rw [Bitmap.set_clear hn.free]
  have hne : ∀ b ∈ s.openInodes, b ≠ a := fun b hb => h.sane.ne_of_fresh hfresh hb
  have hstate : Walked s₀ held (s.withInode a (inodeInit n)) := by
    refine ⟨h.sane.withInode fun ha => absurd rfl (hne a ha), h.mem, fun b hb => ?_,
      fun b hb hnew => ?_, h.fileTable, h.rootInode, h.tasks, h.disk, h.part⟩
    · rw [withInode_ne _ _ _ _ (hne b ((h.mem b).mpr (.inl hb)))]
      exact h.inodes b hb
    · rw [withInode_ne _ _ _ _ (hne b (hheld b hb))]
      exact h.counts b hb hnew
  have heq : ({ s.withInode a (inodeInit n) with
      heap := (insert a s.heap).erase a
      part := { s.part with inodeBitmap :=
        (s.part.inodeBitmap.bitmapSet n true).bitmapSet n false } } : Fs)
      = s.withInode a (inodeInit n) := by
    rw [hheap, hpart]
    rfl
  rw [← heq] at hstate
  exact hstate

/-- Entry `g` is in use. -/
def EntryUsed (g : Nat) (s : Fs) : Prop := (s.fileTable g).fdInode ≠ none

theorem entryUsed_withFile (s : Fs) (g a flag : Nat) :
    EntryUsed g (s.withFile g ⟨0, flag, some a⟩) := by
  rw [EntryUsed, withFile_self]
  nofun

theorem EntryUsed.quiet (h : EntryUsed g s) (hq : Quiet s s') : EntryUsed g s' := by
  rw [EntryUsed, hq.fdInode]
  exact h

/-- It stays in use when the task has no descriptor left. -/
theorem EntryUsed.wp_pcbFdInstall (h : EntryUsed g s) :
    Prog.wp (fun _ => True) (pcbFdInstall g) (fun _ s' => EntryUsed g s') s :=
  Prog.wp_of_returns fun _ _ hrun => by
    obtain ⟨t, rfl⟩ := pcbFdInstall_tasks hrun
    exact h

theorem fileCreate_entryUsed (ho : s.part.Ordered)
    (hslot : getFreeSlotInGlobal s.fileTable = some g) (parent : Nat) (filename : List UInt8) :
    Prog.wp (fun _ => True) (fileCreate env parent filename flag)
      (fun _ s' => EntryUsed g s') s := by
  have hlen : 8 * s.part.inodeBitmap.bmapBytesLen ≤ 2 ^ 31 := by
    rw [ho.inodeBytes]
    decide
  refine Prog.wp_bind (wp_inodeBitmapAlloc (fun _ _ => trivial) hlen fun n hn => ?_)
  refine Prog.wp_ite (fun hc => absurd hc (by omega)) fun _ => Prog.wp_get_bind ?_
  set a := env.newAddr s.heap
  refine Prog.wp_bind (Prog.wp_modify (Prog.wp_bind (Prog.wp_of_run (putInode_run _ _ _)
    (Prog.wp_get_bind ?_))))
  simp only [hslot]
  refine Prog.wp_bind (Prog.wp_of_run (setFile_run _ _ _) (Prog.wp_get_bind
    (Prog.wp_bind (Prog.wp_of_run (putInode_run _ _ _) ?_))))
  refine Prog.wp_bind (Prog.wp_lift (fun e _ => ?_) fun _ _ => trivial)
  -- a block for the entry is never missed, so the rollback is never reached
  have hfit : ({ s.part with inodeBitmap := s.part.inodeBitmap.bitmapSet n true } :
      Partition).DataFits := ⟨ho.dataFits.bitmap, ho.dataFits.int⟩
  refine Prog.wp_bind (Prog.wp_mono (Prog.wp_and (wp_syncDirEntry_true (by exact hfit) _ _ _)
    ((quiet_syncDirEntry _ _ _ _).wp (Quiet.refl _))) fun ok s₁ ⟨hok, hq⟩ => ?_)
  have h₁ : EntryUsed g s₁ := by
    rw [EntryUsed, hq.fdInode]
    exact entryUsed_withFile _ g a flag
  refine Prog.wp_ite (fun _ => Prog.wp_get_bind ?_) fun hne => absurd hok hne
  refine Prog.wp_bind (Prog.wp_mono ((quiet_inodeSync _ _ s₁).wp (Quiet.refl s₁))
    fun _ s₂ hq₂ => Prog.wp_get_bind ?_)
  refine Prog.wp_bind (Prog.wp_mono ((quiet_inodeSync _ _ s₁).wp hq₂) fun _ s₃ hq₃ => ?_)
  refine Prog.wp_bind (Prog.wp_mono ((quiet_bitmapSync _ _ s₁).wp hq₃) fun _ s₄ hq₄ => ?_)
  have h₄ : EntryUsed g s₄ := h₁.quiet hq₄
  refine Prog.wp_bind (Prog.wp_modify (Prog.wp_get_bind (Prog.wp_bind
    (Prog.wp_of_run (putInode_run _ _ _) (EntryUsed.wp_pcbFdInstall ?_)))))
  exact h₄

theorem fileOpen_entryUsed (hslot : getFreeSlotInGlobal s.fileTable = some g) (no flag : Nat) :
    Prog.wp (fun _ => True) (fileOpen env no flag) (fun _ s' => EntryUsed g s') s := by
  refine Prog.wp_get_bind ?_
  simp only [hslot]
  refine Prog.wp_bind (Prog.wp_of_returns fun a s₁ hrun => ?_)
  refine Prog.wp_bind (Prog.wp_of_run (setFile_run g _ s₁) ?_)
  have hentry := entryUsed_withFile s₁ g a flag
  refine Prog.wp_ite (fun _ => Prog.wp_get_bind (Prog.wp_ite (fun _ => Prog.wp_pure hentry)
    fun _ => ?_)) fun _ => hentry.wp_pcbFdInstall
  refine Prog.wp_bind (Prog.wp_of_run (putInode_run ..) (EntryUsed.wp_pcbFdInstall ?_))
  exact hentry

/-- An entry that was free and is in use is a change. -/
theorem EntryUsed.changed (h : EntryUsed g s') (hslot : getFreeSlotInGlobal s.fileTable = some g) :
    ¬ Unchanged s s' := fun hun => h (by rw [hun.fileTable, (getFreeSlotInGlobal_some hslot).2])

/-! ### What the path leads to -/

/-- `sys_open` refuses what the path leads to: it ends in a slash, is a directory, goes through
something that is none, is missing and not to be created, or is there and to be created. -/
def Refused (env : FsEnv) (s : Fs) (pathname : List UInt8) (flags : Nat) : Prop :=
  pathname.getLast? = some slash ∨
    ∃ inodeNo r s', searchFile env pathname s = .ok ((inodeNo, r), s') ∧
      (r.fileType = ftDirectory ∨ pathDepthCnt pathname ≠ pathDepthCnt r.searchedPath ∨
        inodeNo = -1 ∧ flags &&& oCreat = 0 ∨ inodeNo ≠ -1 ∧ flags &&& oCreat ≠ 0)

/-- The plan and the walk it comes from. -/
theorem openPlan_cases (pathname : List UInt8) (flags : Nat) :
    Prog.wp (fun _ => True) (openPlan env pathname flags) (fun plan s₁ =>
      plan = .refuse ∧ Refused env s pathname flags ∨
      pathname.getLast? ≠ some slash ∧ ∃ inodeNo r,
        searchFile env pathname s = .ok ((inodeNo, r), s₁) ∧ r.fileType ≠ ftDirectory ∧
        pathDepthCnt pathname = pathDepthCnt r.searchedPath ∧
        (plan = .create r.parentDir ∧ flags &&& oCreat ≠ 0 ∧ inodeNo = -1 ∨
          (∃ no, plan = .existing no) ∧ flags &&& oCreat = 0 ∧ inodeNo ≠ -1)) s := by
  have hrefuse : ∀ (d : DirPtr) {Q : OpenPlan → Fs → Prop} (s : Fs), (∀ s, Q .refuse s) →
      Prog.wp (fun _ => True) (do dirClose d; return OpenPlan.refuse) Q s := fun d Q s h =>
    Prog.wp_of_returns fun plan s' hrun => by
      obtain ⟨_, _, -, h2⟩ := Prog.bind_run.mp hrun
      obtain ⟨rfl, rfl⟩ := Prod.mk.inj (Except.ok.inj h2)
      exact h _
  refine Prog.wp_ite (fun _ => Prog.wp_lift (fun _ hok => by simp at hok) fun _ _ => trivial)
    fun _ => Prog.wp_ite (fun hlast => Prog.wp_pure (.inl ⟨rfl, .inl hlast⟩)) fun hlast => ?_
  refine Prog.wp_bind ((reads_assertFs _ _ _).wp fun _ => ?_)
  refine Prog.wp_bind (Prog.wp_lift (fun depth hdepth => ?_) fun _ _ => trivial)
  refine Prog.wp_bind (Prog.wp_of_returns fun ⟨inodeNo, r⟩ s₁ hrun => ?_)
  refine Prog.wp_ite (fun hdir => hrefuse _ _ fun _ =>
    .inl ⟨rfl, .inr ⟨inodeNo, r, s₁, hrun, .inl hdir⟩⟩) fun hty => ?_
  refine Prog.wp_bind (Prog.wp_lift (fun depth' hdepth' => ?_) fun _ _ => trivial)
  have hdepths : pathDepthCnt pathname = pathDepthCnt r.searchedPath ↔ depth = depth' := by
    rw [hdepth, hdepth']
    exact Except.ok.injEq .. |>.to_iff
  refine Prog.wp_ite (fun hne => hrefuse _ _ fun _ =>
    .inl ⟨rfl, .inr ⟨inodeNo, r, s₁, hrun, .inr (.inl fun hc => hne (hdepths.mp hc))⟩⟩) fun heq => ?_
  refine Prog.wp_ite (fun hnew => hrefuse _ _ fun _ =>
    .inl ⟨rfl, .inr ⟨inodeNo, r, s₁, hrun, .inr (.inr (.inl hnew))⟩⟩) fun hnew => ?_
  refine Prog.wp_ite (fun hold => hrefuse _ _ fun _ =>
    .inl ⟨rfl, .inr ⟨inodeNo, r, s₁, hrun, .inr (.inr (.inr hold))⟩⟩) fun hold => ?_
  have hsame := hdepths.mpr (not_ne_iff.mp heq)
  refine Prog.wp_ite (fun hcreat => Prog.wp_pure (.inr ?_)) fun hcreat => Prog.wp_pure (.inr ?_)
  · have hnone : inodeNo = -1 := not_ne_iff.mp fun hno => hold ⟨hno, hcreat⟩
    exact ⟨hlast, inodeNo, r, hrun, hty, hsame, .inl ⟨rfl, hcreat, hnone⟩⟩
  · have hzero : flags &&& oCreat = 0 := not_ne_iff.mp hcreat
    exact ⟨hlast, inodeNo, r, hrun, hty, hsame,
      .inr ⟨⟨_, rfl⟩, hzero, fun hno => hnew ⟨hno, hzero⟩⟩⟩

theorem refused_of_plan {pathname : List UInt8} {flags : Nat} {s₁ : Fs}
    (hrun : openPlan env pathname flags s = .ok (.refuse, s₁)) :
    Refused env s pathname flags := by
  obtain ⟨-, hrefused⟩ | ⟨-, _, _, -, -, -, ⟨hc, -⟩ | ⟨⟨_, hc⟩, -⟩⟩ :=
    (openPlan_cases pathname flags).of_run hrun
  · exact hrefused
  · cases hc
  · cases hc

/-- And another plan is not made of it. -/
theorem not_refused {pathname : List UInt8} {flags : Nat} {plan : OpenPlan} {s₁ : Fs}
    (hrun : openPlan env pathname flags s = .ok (plan, s₁)) (hplan : plan ≠ .refuse) :
    ¬ Refused env s pathname flags := by
  obtain ⟨hrefuse, -⟩ | ⟨hlast, inodeNo, r, hsearch, hty, hdepth, hkind⟩ :=
    (openPlan_cases pathname flags).of_run hrun
  · exact absurd hrefuse hplan
  rintro (hslash | ⟨inodeNo', r', s', hsearch', hrefuse⟩)
  · exact hlast hslash
  rw [hsearch] at hsearch'
  obtain ⟨⟨rfl, rfl⟩, -⟩ := Prod.mk.inj (Except.ok.inj hsearch') |>.imp_left Prod.mk.inj
  rcases hrefuse with hdir | hne | ⟨hnone, hzero⟩ | ⟨hsome, hcreat⟩
  · exact hty hdir
  · exact hne hdepth
  · rcases hkind with ⟨-, hcreat, -⟩ | ⟨-, -, hno⟩
    · exact hcreat hzero
    · exact hno hnone
  · rcases hkind with ⟨-, -, hno⟩ | ⟨-, hzero, -⟩
    · exact hsome hno
    · exact hcreat hzero

/-! ### The call -/

/-- `sys_open` gives up in front of everything it takes: the path is refused, or the file table
is full and it is not a file below the root that was to be opened. -/
def GivesUpEarly (env : FsEnv) (s : Fs) (pathname : List UInt8) (flags : Nat) : Prop :=
  Refused env s pathname flags ∨
    getFreeSlotInGlobal s.fileTable = none ∧ ¬ OpensBelowRoot env s pathname flags

/-- Past the plan only a full table may give it up. -/
theorem givesUpEarly_iff {pathname : List UInt8} {flags : Nat} {plan : OpenPlan} {s₁ : Fs}
    (hrun : openPlan env pathname flags s = .ok (plan, s₁)) (hplan : plan ≠ .refuse) :
    GivesUpEarly env s pathname flags ↔
      getFreeSlotInGlobal s.fileTable = none ∧ ¬ OpensBelowRoot env s pathname flags :=
  or_iff_right (not_refused hrun hplan)

theorem dirClose_fileTable {d : DirPtr} {u : Unit} (hrun : dirClose d s = .ok (u, s')) :
    s'.fileTable = s.fileTable := by
  cases d with
  | root => rw [(Prod.mk.inj (Except.ok.inj hrun)).2]
  | opened a =>
      rw [dirClose, inodeClose_run] at hrun
      rw [← (Prod.mk.inj (Except.ok.inj hrun)).2, (closed_rest s a).1]

variable {pathname : List UInt8} {flags : Nat}

theorem Walked.dirClose {d : DirPtr} (h : Walked s₀ d.opens s) (h₀ : Sane s₀.part s₀) :
    Prog.wp (fun _ => True) (dirClose d) (fun _ s' => Walked s₀ [] s') s := by
  cases d with
  | root => exact Prog.wp_pure h
  | opened a => exact Prog.wp_of_run (inodeClose_run a s) (h.closed h₀)

/-- The end of a creation: nothing has changed when there was no entry. -/
theorem Walked.create {d : DirPtr} (h : Walked s₀ d.opens s) (h₀ : Sane s₀.part s₀)
    (ho : s₀.part.Ordered) (filename : List UInt8) (flags : Nat) : Prog.wp (fun _ => True) (do
      let fd ← fileCreate env (d.inode s) filename flags
      ZyOs.dirClose d
      return fd) (fun _ s' => Unchanged s₀ s' ↔ getFreeSlotInGlobal s₀.fileTable = none) s := by
  rw [← h.fileTable]
  cases hslot : getFreeSlotInGlobal s.fileTable with
  | none =>
      have hheld : ∀ a ∈ d.opens, a ∈ s.openInodes := fun a ha => (h.mem a).mpr (.inr ha)
      refine Prog.wp_bind (Prog.wp_mono (h.fileCreate_full ho hheld hslot _ _) fun fd s₁ h₁ => ?_)
      exact Prog.wp_bind (Prog.wp_mono (h₁.dirClose h₀) fun _ s₂ h₂ =>
        Prog.wp_pure (iff_of_true h₂.unchanged rfl))
  | some g =>
      have hused : Prog.wp (fun _ => True) (fileCreate env (d.inode s) filename flags)
          (fun _ s' => EntryUsed g s') s :=
        fileCreate_entryUsed (by rw [h.part]; exact ho) hslot _ _
      refine Prog.wp_bind (Prog.wp_mono hused fun fd s₁ h₁ => ?_)
      refine Prog.wp_bind (Prog.wp_of_returns fun u s₂ hrun => Prog.wp_pure ?_)
      have h₂ : EntryUsed g s₂ := by
        rw [EntryUsed, dirClose_fileTable hrun]
        exact h₁
      rw [h.fileTable] at hslot
      exact iff_of_false (h₂.changed hslot) nofun

/-- The end of an open: nothing has changed when there was no entry and no directory to close. -/
theorem Walked.existing (h : Walked s₀ held s) (hheld : held.length ≤ 1) (no flags : Nat) :
    Prog.wp (fun _ => True) (fileOpen env no flags) (fun _ s' =>
      Unchanged s₀ s' ↔ getFreeSlotInGlobal s₀.fileTable = none ∧ held = []) s := by
  rw [← h.fileTable]
  cases hslot : getFreeSlotInGlobal s.fileTable with
  | none =>
      refine Prog.wp_get_bind ?_
      simp only [hslot]
      refine Prog.wp_pure ?_
      match held, hheld with
      | [], _ => exact iff_of_true h.unchanged ⟨trivial, rfl⟩
      | [a], _ => exact iff_of_false h.changed nofun
  | some g =>
      refine Prog.wp_mono (fileOpen_entryUsed hslot no flags) fun _ s' h' => ?_
      rw [h.fileTable] at hslot
      exact iff_of_false (h'.changed hslot) nofun

/-- The directory that stays open is the one the walk has ended in. -/
theorem opensBelowRoot_iff {no : Nat} {s₁ : Fs} (hrun : openPlan env pathname flags s
      = .ok (.existing no, s₁)) : ∃ inodeNo r,
    searchFile env pathname s = .ok ((inodeNo, r), s₁) ∧
      (OpensBelowRoot env s pathname flags ↔ r.parentDir ≠ .root) := by
  obtain ⟨hrefuse, -⟩ |
      ⟨hlast, inodeNo, r, hsearch, hty, hdepth, ⟨hcreate, -⟩ | ⟨-, hzero, hno⟩⟩ :=
    (openPlan_cases pathname flags).of_run hrun
  · cases hrefuse
  · cases hcreate
  refine ⟨inodeNo, r, hsearch, fun ⟨_, _, _, _, _, hsearch', _, _, _, hroot⟩ => ?_, fun hroot => ?_⟩
  · rw [hsearch] at hsearch'
    obtain ⟨⟨-, rfl⟩, -⟩ := Prod.mk.inj (Except.ok.inj hsearch') |>.imp_left Prod.mk.inj
    exact hroot
  · exact ⟨hlast, hzero, inodeNo, r, s₁, hsearch, hno, hty, hdepth, hroot⟩

/-- **What a call that fails leaves.** -/
theorem sysOpen_unchanged (h : Sane s.part s) (ho : s.part.Ordered) (pathname : List UInt8)
    (flags : Nat) : Prog.wp (fun _ => True) (sysOpen env pathname flags) (fun fd s' => fd = -1 →
      (Unchanged s s' ↔ GivesUpEarly env s pathname flags)) s := by
  have htracks : Tracks env (Walked s) := Walked.tracks h
  refine Prog.wp_bind (Prog.wp_of_returns fun plan s₁ hrun => ?_)
  obtain ⟨d, hd, hkeeps⟩ := (htracks.openPlan (Walked.refl h) pathname flags).of_run hrun
  rw [List.append_nil] at hd
  cases plan with
  | refuse =>
      obtain rfl : d = .root := hkeeps
      exact Prog.wp_pure fun _ => iff_of_true hd.unchanged (.inl (refused_of_plan hrun))
  | create parentDir =>
      obtain rfl : d = parentDir := hkeeps
      have hnew : ¬ OpensBelowRoot env s pathname flags := by
        intro hbelow
        obtain ⟨hc, -⟩ | ⟨-, _, _, -, -, -, ⟨-, hcreat, -⟩ | ⟨⟨_, hc⟩, -⟩⟩ :=
          (openPlan_cases pathname flags).of_run hrun
        · cases hc
        · exact hcreat hbelow.2.1
        · cases hc
      rw [givesUpEarly_iff hrun nofun, and_iff_left hnew]
      exact Prog.wp_get_bind (Prog.wp_mono (hd.create h ho _ _) fun _ _ hiff _ => hiff)
  | existing no =>
      obtain ⟨inodeNo, r, hsearch, hbelow⟩ := opensBelowRoot_iff hrun
      have hwalked := (htracks.searchFile (Walked.refl h) pathname).of_run hsearch
      rw [List.append_nil] at hwalked
      have hopens : r.parentDir.opens = [] ↔ ¬ OpensBelowRoot env s pathname flags := by
        rw [hbelow, not_not]
        cases r.parentDir with
        | root => exact iff_of_true rfl rfl
        | opened a => exact iff_of_false nofun nofun
      have hle : r.parentDir.opens.length ≤ 1 := by
        cases r.parentDir with
        | root => exact Nat.zero_le _
        | opened a => exact Nat.le_refl _
      rw [givesUpEarly_iff hrun nofun, ← hopens]
      exact Prog.wp_mono (hwalked.existing hle no flags) fun _ _ hiff _ => hiff

/-- **A failed open changes nothing exactly when it gives up in front of everything it takes.** -/
theorem failed_open_iff (env : FsEnv) (s₀ s s' : Fs) (handles : List DirPtr)
    (h₀ : Mounted env s₀) (ho : s₀.part.Ordered) (h : CallsRun env s₀ s handles) (t : Nat)
    (pathname : List UInt8) (flags : Nat)
    (hrun : sysOpen env pathname flags { s with cur := t } = .ok (-1, s')) :
    Unchanged { s with cur := t } s' ↔ GivesUpEarly env { s with cur := t } pathname flags := by
  have hsane : Sane s₀.part { s with cur := t } := (h.sane h₀.sane).cur t
  have hsame : Sane s.part { s with cur := t } := { hsane with alike := .refl _ }
  exact (sysOpen_unchanged hsame (hsane.ordered ho) pathname flags).of_run hrun rfl

/-! ### A missing file, and one that has a writer -/

theorem mountedFs_ordered : mountedFs.part.Ordered :=
  ⟨by decide +kernel, by decide +kernel, by decide +kernel, by decide +kernel, by decide +kernel,
    by decide +kernel, by decide +kernel, by decide +kernel⟩

/-- After `open("/a", O_RDONLY)` on the empty partition. -/
def missingFs : Fs := (sysOpen upwardEnv [47, 97] 0).after { mountedFs with cur := 0 }

/-- There is no such file, and nothing has changed. -/
theorem failed_open_missing :
    sysOpen upwardEnv [47, 97] 0 { mountedFs with cur := 0 } = .ok (-1, missingFs) ∧
    Unchanged { mountedFs with cur := 0 } missingFs := by
  have hrun : sysOpen upwardEnv [47, 97] 0 { mountedFs with cur := 0 } = .ok (-1, missingFs) :=
    Prog.run_of_answer (by decide +kernel)
  have hplan : openPlan upwardEnv [47, 97] 0 { mountedFs with cur := 0 }
      = .ok (.refuse, (openPlan upwardEnv [47, 97] 0).after { mountedFs with cur := 0 }) :=
    Prog.run_of_answer (by decide +kernel)
  exact ⟨hrun, (failed_open_iff upwardEnv mountedFs mountedFs _ [] mountedFs_mounted
    mountedFs_ordered .mounted 0 [47, 97] 0 hrun).mpr (.inl (refused_of_plan hplan))⟩

/-- `open("/a", O_WRONLY)` -/
def openForWriting : FsCall := .open [47, 97] 1

/-- The file has been created, and opened once more by a writer. -/
def writerFs : Fs := (openForWriting.execBy upwardEnv 0).after createdFs

/-- After another `open("/a", O_WRONLY)`. -/
def deniedFs : Fs := (sysOpen upwardEnv [47, 97] 1).after { writerFs with cur := 0 }

theorem writerFs_run : CallsRun upwardEnv mountedFs writerFs [] :=
  .file 0 openForWriting (.file 0 createForWriting .mounted createdFs_run)
    (Prog.run_of_answer (by decide +kernel))

/-- The second writer is turned away, and an entry of the file table stays with it. -/
theorem failed_open_leaves_entry : Mounted upwardEnv mountedFs ∧ mountedFs.part.Ordered ∧
    CallsRun upwardEnv mountedFs writerFs [] ∧
    sysOpen upwardEnv [47, 97] 1 { writerFs with cur := 0 } = .ok (-1, deniedFs) ∧
    ¬ Unchanged { writerFs with cur := 0 } deniedFs := by
  refine ⟨mountedFs_mounted, mountedFs_ordered, writerFs_run,
    Prog.run_of_answer (by decide +kernel), fun h => ?_⟩
  have hfree : ({ writerFs with cur := 0 }.fileTable 5).fdInode = none := by decide +kernel
  have hused : (deniedFs.fileTable 5).fdInode = some 2 := by decide +kernel
  rw [h.fileTable, hfree] at hused
  cases hused

end ZyOs
