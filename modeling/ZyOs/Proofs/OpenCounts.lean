/-
The open counts are exact.

`Counted` says that every user of an inode is counted.  Here nobody else is: the count is
the number of entries of the file table, of directory handles and of `root_dir` that refer
to the inode, and an inode nobody refers to is not on the list.  Each call puts the
directory it has walked to back, all but the `sys_open` of an existing file below the root.
-/
import ZyOs.Proofs.Cache
import ZyOs.Proofs.Writers

namespace ZyOs

open Library

/-- The users of an inode are counted, and nothing else is. -/
structure Exact (s : Fs) (held : List Nat) : Prop extends Counted s held where
  opened : ∀ a ∈ s.openInodes, 0 < (s.inodes a).iOpenCnts
  atMost : ∀ a ∈ s.openInodes, (s.inodes a).iOpenCnts ≤ s.uses a + held.count a

variable {env : FsEnv} {s₀ s s' : Fs} {a g no flag : Nat} {held held₀ : List Nat}

namespace Exact

theorem mem_iff (h : Exact s held) : a ∈ s.openInodes ↔ 0 < s.uses a + held.count a := by
  refine ⟨fun ha => ?_, fun hpos => (h.counted a hpos).1⟩
  have h1 := h.opened a ha
  have h2 := h.atMost a ha
  omega

theorem count_eq (h : Exact s held) (ha : a ∈ s.openInodes) :
    (s.inodes a).iOpenCnts = s.uses a + held.count a :=
  le_antisymm (h.atMost a ha) (h.counted a (h.mem_iff.mp ha)).2

/-- The invariant from its two statements about users. -/
theorem of_users (hnodup : s.openInodes.Nodup) (hheap : ∀ a ∈ s.openInodes, a ∈ s.heap)
    (hmem : ∀ a, a ∈ s.openInodes ↔ 0 < s.uses a + held.count a)
    (hcount : ∀ a ∈ s.openInodes, (s.inodes a).iOpenCnts = s.uses a + held.count a) :
    Exact s held where
  nodup := hnodup
  heap := hheap
  counted := fun a ha => ⟨(hmem a).mpr ha, (hcount a ((hmem a).mpr ha)).ge⟩
  opened := fun a ha => by rw [hcount a ha]; exact (hmem a).mp ha
  atMost := fun a ha => (hcount a ha).le

theorem perm {held' : List Nat} (h : Exact s held) (hp : held.Perm held') : Exact s held' :=
  of_users h.nodup h.heap (fun a => by rw [← hp.count_eq]; exact h.mem_iff)
    fun a ha => by rw [← hp.count_eq]; exact h.count_eq ha

theorem quiet (h : Exact s held) (hq : Quiet s s') : Exact s' held := by
  have huses : ∀ a, s'.uses a = s.uses a := fun a => uses_congr hq.fdInode hq.rootInode
  refine of_users (hq.openInodes ▸ h.nodup) ?_ (fun a => ?_) fun a ha => ?_
  · rw [hq.openInodes, hq.heap]
    exact h.heap
  · rw [hq.openInodes, huses]
    exact h.mem_iff
  · rw [hq.openInodes] at ha
    rw [hq.iOpenCnts, huses]
    exact h.count_eq ha

theorem tasks (h : Exact s held) (f : Nat → FdTask) : Exact { s with tasks := f } held := { h with }

theorem cur (h : Exact s held) (t : Nat) : Exact { s with cur := t } held := { h with }

/-- A place nobody allocated may be written. -/
theorem withUnused (h : Exact s held) (hfresh : a ∉ s.heap) (n : Inode) :
    Exact (s.withInode a n) held := by
  refine of_users h.nodup h.heap (fun b => h.mem_iff) fun b hb => ?_
  have hba : b ≠ a := fun hba => hfresh (hba ▸ h.heap b hb)
  rw [withInode_ne _ _ _ _ hba, uses_withInode]
  exact h.count_eq hb

theorem loaded (h : Exact s held) (hfresh : a ∉ s.heap) (n : Inode) :
    Exact (s.loaded a n) (a :: held) := by
  have hzero := h.toCounted.unused hfresh
  have hne : ∀ b ∈ s.openInodes, b ≠ a := fun b hb hba => hfresh (hba ▸ h.heap b hb)
  refine of_users (List.nodup_cons.mpr ⟨fun ha => hne a ha rfl, h.nodup⟩) ?_ ?_ ?_
  · intro b hb
    rcases List.mem_cons.mp hb with rfl | hb
    · exact Finset.mem_insert_self _ _
    · exact Finset.mem_insert_of_mem (h.heap b hb)
  · intro b
    show b ∈ a :: s.openInodes ↔ 0 < s.uses b + (a :: held).count b
    rw [List.mem_cons, h.mem_iff, List.count_cons]
    by_cases hba : b = a
    · simp [hba]
    · simp [hba, Ne.symm hba]
  · intro b hb
    show ((s.withInode a _).inodes b).iOpenCnts = s.uses b + (a :: held).count b
    rcases List.mem_cons.mp hb with rfl | hb
    · rw [withInode_self, List.count_cons_self]
      simp only
      omega
    · rw [withInode_ne _ _ _ _ (hne b hb), List.count_cons_of_ne (Ne.symm (hne b hb))]
      exact h.count_eq hb

theorem openInode (h : Exact s held) (hrun : inodeOpen env no s = .ok (a, s')) :
    Exact s' (a :: held) := by
  rcases inodeOpen_cases hrun with ⟨hmem, -, rfl⟩ | ⟨-, hfresh, rfl⟩
  · refine of_users h.nodup h.heap (fun b => ?_) fun b hb => ?_
    · show b ∈ s.openInodes ↔ 0 < s.uses b + (a :: held).count b
      rw [List.count_cons]
      by_cases hba : b = a
      · simp [hba, hmem]
      · simpa [hba, Ne.symm hba] using h.mem_iff (a := b)
    · rw [uses_withInode]
      by_cases hba : b = a
      · subst hba
        rw [withInode_self, List.count_cons_self, ← Nat.add_assoc]
        simp only [h.count_eq hmem]
      · rw [withInode_ne _ _ _ _ hba, List.count_cons_of_ne (Ne.symm hba)]
        exact h.count_eq hb
  · exact h.loaded hfresh _

theorem closeInode (h : Exact s (a :: held)) : Exact (s.closed a) held := by
  have hmem : a ∈ s.openInodes := h.mem_iff.mpr (by rw [List.count_cons_self]; omega)
  have hcnt := h.count_eq hmem
  rw [List.count_cons_self] at hcnt
  have hother : ∀ b, b ≠ a → s.uses b + (a :: held).count b = s.uses b + held.count b :=
    fun b hb => by rw [List.count_cons_of_ne (Ne.symm hb)]
  by_cases hone : (s.inodes a).iOpenCnts = 1
  · rw [closed_last hone]
    refine of_users (h.nodup.erase a) (fun b hb => ?_) (fun b => ?_) fun b hb => ?_
    · obtain ⟨hba, hb⟩ := h.nodup.mem_erase_iff.mp hb
      exact Finset.mem_erase.mpr ⟨hba, h.heap b hb⟩
    · show b ∈ s.openInodes.erase a ↔ 0 < s.uses b + held.count b
      rw [h.nodup.mem_erase_iff, h.mem_iff]
      by_cases hba : b = a
      · subst hba
        exact ⟨fun hc => absurd rfl hc.1, fun hc => by omega⟩
      · rw [hother b hba]
        simp [hba]
    · obtain ⟨hba, hb⟩ := h.nodup.mem_erase_iff.mp hb
      show ((s.withInode a _).inodes b).iOpenCnts = s.uses b + held.count b
      rw [withInode_ne _ _ _ _ hba, ← hother b hba]
      exact h.count_eq hb
  · rw [closed_shared (by omega)]
    refine of_users h.nodup h.heap (fun b => ?_) fun b hb => ?_
    · show b ∈ s.openInodes ↔ 0 < s.uses b + held.count b
      by_cases hba : b = a
      · subst hba
        simp only [hmem, true_iff]
        omega
      · rw [← hother b hba]
        exact h.mem_iff
    · show ((s.withInode a _).inodes b).iOpenCnts = s.uses b + held.count b
      by_cases hba : b = a
      · subst hba
        rw [withInode_self]
        simp only
        omega
      · rw [withInode_ne _ _ _ _ hba, ← hother b hba]
        exact h.count_eq hb

/-- An inode that was held goes into an empty entry. -/
theorem withFile (h : Exact s (a :: held)) (hg : g < maxFileOpen)
    (hfree : (s.fileTable g).fdInode = none) {f : File} (hf : f.fdInode = some a) :
    Exact (s.withFile g f) held := by
  refine of_users h.nodup h.heap (fun b => ?_) fun b hb => ?_
  · rw [uses_fill hg hfree hf]
    exact h.mem_iff
  · rw [uses_fill hg hfree hf]
    exact h.count_eq hb

/-- The inode of an entry that is emptied is held again. -/
theorem withoutFile (h : Exact s held) (hg : g < maxFileOpen)
    (hold : (s.fileTable g).fdInode = some a) {f : File} (hf : f.fdInode = none) :
    Exact (s.withFile g f) (a :: held) := by
  refine of_users h.nodup h.heap (fun b => ?_) fun b hb => ?_
  · rw [uses_empty hg hold hf]
    exact h.mem_iff
  · rw [uses_empty hg hold hf]
    exact h.count_eq hb

/-- Fields of an inode other than the count may be written. -/
theorem withInode (h : Exact s held) {n : Inode} (hn : n.iOpenCnts = (s.inodes a).iOpenCnts) :
    Exact (s.withInode a n) held := by
  refine of_users h.nodup h.heap (fun b => h.mem_iff) fun b hb => ?_
  rw [uses_withInode, ← h.count_eq hb]
  by_cases hba : b = a
  · rw [hba, withInode_self, hn]
  · rw [withInode_ne _ _ _ _ hba]

theorem tracksCalls : TracksCalls env (fun held s => Exact s held) where
  opened := fun h hrun => h.openInode hrun
  closed := fun h => h.closeInode
  perm := fun h hp => h.perm hp
  quiet := fun h hq => h.quiet hq
  tasks := fun f h => h.tasks f

end Exact

/-! ### From a state on -/

/-- Since `s₀`, where `held₀` was held, no entry but `g` of the file table has changed hands. -/
structure Since (s₀ : Fs) (held₀ : List Nat) (g : Option Nat) (held : List Nat) (s : Fs) :
    Prop where
  exact : Exact s (held ++ held₀)
  fdInode : ∀ i, some i ≠ g → (s.fileTable i).fdInode = (s₀.fileTable i).fdInode
  rootInode : s.rootInode = s₀.rootInode
  cur : s.cur = s₀.cur
  iNo : ∀ a ∈ s₀.openInodes, (s.inodes a).iNo = (s₀.inodes a).iNo

namespace Since

variable {i : Option Nat}

theorem refl (h : Exact s held₀) : Since s held₀ none [] s :=
  ⟨h, fun _ _ => rfl, rfl, rfl, fun _ _ => rfl⟩

/-- An entry that was free before does not matter. -/
theorem uses_le (h : Since s₀ held₀ i held s)
    (hfree : ∀ g, i = some g → (s₀.fileTable g).fdInode = none) (a : Nat) :
    s₀.uses a ≤ s.uses a := by
  unfold Fs.uses
  rw [h.rootInode]
  refine Nat.add_le_add_right (Finset.card_le_card fun g hg => ?_) _
  obtain ⟨hlt, hg'⟩ := mem_entriesOf.mp hg
  have hne : some g ≠ i := fun hi => by simp [hfree g hi.symm] at hg'
  exact mem_entriesOf.mpr ⟨hlt, by rw [h.fdInode g hne, hg']⟩

/-- What was open still is. -/
theorem still_open (h : Since s₀ held₀ i held s) (h₀ : Exact s₀ held₀)
    (hfree : ∀ g, i = some g → (s₀.fileTable g).fdInode = none) (ha : a ∈ s₀.openInodes) :
    a ∈ s.openInodes := by
  have h1 := h₀.mem_iff.mp ha
  have h2 := h.uses_le hfree a
  refine h.exact.mem_iff.mpr ?_
  rw [List.count_append]
  omega

theorem quiet (h : Since s₀ held₀ i held s) (hq : Quiet s s') : Since s₀ held₀ i held s' :=
  ⟨h.exact.quiet hq, fun j hj => (hq.fdInode j).trans (h.fdInode j hj),
    hq.rootInode.trans h.rootInode, hq.cur.trans h.cur, fun a ha => (hq.iNo a).trans (h.iNo a ha)⟩

theorem tasks (h : Since s₀ held₀ i held s) (f : Nat → FdTask) :
    Since s₀ held₀ i held { s with tasks := f } := { h with exact := h.exact.tasks f }

theorem loaded (h : Since s₀ held₀ i held s) (h₀ : Exact s₀ held₀)
    (hfree : ∀ g, i = some g → (s₀.fileTable g).fdInode = none) (hfresh : a ∉ s.heap)
    (n : Inode) : Since s₀ held₀ i (a :: held) (s.loaded a n) := by
  refine ⟨h.exact.loaded hfresh n, h.fdInode, h.rootInode, h.cur, fun b hb => ?_⟩
  have hba : b ≠ a := by
    rintro rfl
    exact hfresh (h.exact.heap b (h.still_open h₀ hfree hb))
  rw [← h.iNo b hb]
  exact congrArg Inode.iNo (withInode_ne _ _ _ _ hba)

theorem openInode (h : Since s₀ held₀ i held s) (h₀ : Exact s₀ held₀)
    (hfree : ∀ g, i = some g → (s₀.fileTable g).fdInode = none)
    (hrun : inodeOpen env no s = .ok (a, s')) : Since s₀ held₀ i (a :: held) s' := by
  have hexact := h.exact.openInode hrun
  rcases inodeOpen_cases hrun with ⟨-, -, rfl⟩ | ⟨-, hfresh, rfl⟩
  · refine ⟨hexact, h.fdInode, h.rootInode, h.cur, fun b hb => ?_⟩
    rw [← h.iNo b hb]
    by_cases hba : b = a
    · rw [hba, withInode_self]
    · rw [withInode_ne _ _ _ _ hba]
  · exact h.loaded h₀ hfree hfresh _

theorem closeInode (h : Since s₀ held₀ i (a :: held) s) : Since s₀ held₀ i held (s.closed a) := by
  obtain ⟨h1, h2, -, h4, -⟩ := closed_rest s a
  refine ⟨h.exact.closeInode, fun j hj => by rw [h1]; exact h.fdInode j hj, h2.trans h.rootInode,
    h4.trans h.cur, fun b hb => ?_⟩
  rw [← h.iNo b hb, closed_inodes]
  by_cases hba : b = a
  · rw [hba, withInode_self]
  · rw [withInode_ne _ _ _ _ hba]

theorem tracks (h₀ : Exact s₀ held₀) : Tracks env (Since s₀ held₀ none) :=
  ⟨fun h hrun => h.openInode h₀ (by simp) hrun, fun h => h.closeInode⟩

/-- An inode that is held goes into an entry that is free. -/
theorem withFile (h : Since s₀ held₀ none (a :: held) s) (hg : g < maxFileOpen)
    (hfree : (s.fileTable g).fdInode = none) {f : File} (hf : f.fdInode = some a) :
    Since s₀ held₀ (some g) held (s.withFile g f) := by
  refine ⟨h.exact.withFile hg hfree hf, fun j hj => ?_, h.rootInode, h.cur, h.iNo⟩
  have hjg : j ≠ g := fun hjg => hj (by rw [hjg])
  rw [withFile_ne _ _ _ _ hjg]
  exact h.fdInode j (by simp)

theorem withInode (h : Since s₀ held₀ i held s) {n : Inode}
    (hn : n.iOpenCnts = (s.inodes a).iOpenCnts) (hno : n.iNo = (s.inodes a).iNo) :
    Since s₀ held₀ i held (s.withInode a n) := by
  refine ⟨h.exact.withInode hn, h.fdInode, h.rootInode, h.cur, fun b hb => ?_⟩
  rw [← h.iNo b hb]
  by_cases hba : b = a
  · rw [hba, withInode_self, hno]
  · rw [withInode_ne _ _ _ _ hba]

/-- Once nothing is held and no entry has changed hands, everything is as it was. -/
theorem restored (h : Since s₀ held₀ none [] s) (h₀ : Exact s₀ held₀) :
    (∀ a, a ∈ s.openInodes ↔ a ∈ s₀.openInodes) ∧ ∀ a ∈ s₀.openInodes,
      (s.inodes a).iOpenCnts = (s₀.inodes a).iOpenCnts ∧
      (s.inodes a).iNo = (s₀.inodes a).iNo := by
  have huses : ∀ a, s.uses a = s₀.uses a :=
    fun a => uses_congr (fun g => h.fdInode g (by simp)) h.rootInode
  have hmem : ∀ a, a ∈ s.openInodes ↔ a ∈ s₀.openInodes := by
    intro a
    rw [h.exact.mem_iff, h₀.mem_iff, huses, List.nil_append]
  refine ⟨hmem, fun a ha => ⟨?_, h.iNo a ha⟩⟩
  rw [h.exact.count_eq ((hmem a).mpr ha), h₀.count_eq ha, huses, List.nil_append]

end Since

/-! ### A descriptor -/

/-- `pcb_fd_install`: there is no room, or a descriptor now leads to the entry. -/
theorem pcbFdInstall_cases {fd : Int} (h : pcbFdInstall g s = .ok (fd, s')) :
    (fd = -1 ∧ s' = s) ∨ (2 < fd ∧ fd < maxFilesOpenPerProc ∧
      (∃ t, s' = { s with tasks := t }) ∧ (s'.tasks s'.cur).fdTable fd.toNat = g) := by
  simp only [pcbFdInstall] at h
  rw [Prog.bind_of_run (Prog.get_run s)] at h
  cases hfree : freeFdFrom (s.tasks s.cur).fdTable (maxFilesOpenPerProc - 3) 3 with
  | none =>
      rw [hfree] at h
      simp only [Prog.pure_run, Except.ok.injEq, Prod.mk.injEq] at h
      exact .inl ⟨h.1.symm, h.2.symm⟩
  | some l =>
      rw [hfree] at h
      have hl := freeFdFrom_some hfree
      obtain ⟨_, s₁, h1, h2⟩ := Prog.bind_run.mp h
      simp only [Prog.pure_run, Except.ok.injEq, Prod.mk.injEq] at h2
      obtain ⟨rfl, rfl⟩ := h2
      simp only [setFd, Prog.bind_of_run (Prog.get_run s), Prog.set_run, Except.ok.injEq,
        Prod.mk.injEq, true_and] at h1
      subst h1
      refine .inr ⟨by omega, by omega, ⟨_, rfl⟩, ?_⟩
      simp [FdTask.setFd]

/-- Since `s₀` the running task got the descriptor `fd`, which leads to an entry that was free. -/
structure Grabbed (s₀ : Fs) (held₀ : List Nat) (fd : Int) (held : List Nat) (s : Fs) : Prop where
  range : 2 < fd ∧ fd < maxFilesOpenPerProc
  entry : ∃ g a, g < maxFileOpen ∧ (s₀.fileTable g).fdInode = none ∧
    Since s₀ held₀ (some g) held s ∧ (s.fileTable g).fdInode = some a ∧
    (s.tasks s.cur).fdTable fd.toNat = g

/-- What is left once the entry has been filled in: the count is exact, and a descriptor that
is returned leads to it. -/
def Handed (s₀ : Fs) (held₀ : List Nat) (fd : Int) (held : List Nat) (s : Fs) : Prop :=
  Exact s (held ++ held₀) ∧ (fd ≠ -1 → Grabbed s₀ held₀ fd held s)

theorem Handed.closeInode {fd : Int} (h : Handed s₀ held₀ fd (a :: held) s) :
    Handed s₀ held₀ fd held (s.closed a) := by
  obtain ⟨h1, -, h3, h4, -⟩ := closed_rest s a
  refine ⟨h.1.closeInode, fun hfd => ?_⟩
  obtain ⟨hrange, g, b, hg, hfree, hsince, hentry, htable⟩ := h.2 hfd
  refine ⟨hrange, g, b, hg, hfree, hsince.closeInode, ?_, ?_⟩
  · rw [h1, hentry]
  · rw [h3, h4, htable]

theorem Since.handed {fd : Int} (h : Since s₀ held₀ (some g) held s) (hg : g < maxFileOpen)
    (hfree : (s₀.fileTable g).fdInode = none) (hentry : (s.fileTable g).fdInode = some a)
    (hrun : pcbFdInstall g s = .ok (fd, s')) : Handed s₀ held₀ fd held s' := by
  rcases pcbFdInstall_cases hrun with ⟨rfl, rfl⟩ | ⟨hlo, hhi, ⟨t, rfl⟩, htable⟩
  · exact ⟨h.exact, fun hne => absurd rfl hne⟩
  · exact ⟨h.exact.tasks t, fun _ => ⟨⟨hlo, hhi⟩, g, a, hg, hfree, h.tasks t, hentry, htable⟩⟩

/-! ### `sys_open` -/

theorem Since.fileCreate (h : Since s₀ held₀ none held s) (h₀ : Exact s₀ held₀) (parent : Nat)
    (filename : List UInt8) : Prog.wp (fun _ => True) (fileCreate env parent filename flag)
      (fun fd s' => Handed s₀ held₀ fd held s') s := by
  refine Prog.wp_mono (fileCreate_cases env parent filename flag s) fun fd s' hcases => ?_
  rcases hcases with ⟨rfl, a, n, hfresh, hquiet⟩ | ⟨a, g, no, s₁, hfresh, hslot, hquiet, hrun⟩
  · exact ⟨(h.exact.withUnused hfresh n).quiet hquiet, fun hne => absurd rfl hne⟩
  · obtain ⟨hg, hfree⟩ := getFreeSlotInGlobal_some hslot
    have hnew := h.loaded h₀ (by simp) hfresh (inodeInit no)
    have hfile := (hnew.withFile hg hfree (f := ⟨0, flag, some a⟩) rfl).quiet hquiet
    refine hfile.handed (a := a) hg ((h.fdInode g (by simp)).symm.trans hfree) ?_ hrun
    rw [hquiet.fdInode, withFile_self]

theorem Since.fileOpen (h : Since s₀ held₀ none held s) (h₀ : Exact s₀ held₀) :
    Prog.wp (fun _ => True) (fileOpen env no flag)
      (fun fd s' => Handed s₀ held₀ fd held s') s := by
  refine Prog.wp_get_bind ?_
  cases hslot : getFreeSlotInGlobal s.fileTable with
  | none => exact Prog.wp_pure ⟨h.exact, fun hne => absurd rfl hne⟩
  | some g =>
      obtain ⟨hg, hfree⟩ := getFreeSlotInGlobal_some hslot
      have hfree₀ := (h.fdInode g (by simp)).symm.trans hfree
      refine Prog.wp_bind (Prog.wp_of_returns fun a s₁ hopen => ?_)
      have h₁ := h.openInode h₀ (by simp) hopen
      rw [← fileTable_of_inodeOpen hopen] at hfree
      have h₂ := h₁.withFile hg hfree (f := ⟨0, flag, some a⟩) rfl
      have hentry : ((s₁.withFile g ⟨0, flag, some a⟩).fileTable g).fdInode = some a := by
        rw [withFile_self]
      refine Prog.wp_bind (Prog.wp_of_run (setFile_run g _ s₁) ?_)
      refine Prog.wp_ite (fun _ => Prog.wp_get_bind (Prog.wp_ite (fun _ => ?_) fun _ => ?_))
        fun _ => ?_
      · exact Prog.wp_pure ⟨h₂.exact, fun hne => absurd rfl hne⟩
      · refine Prog.wp_bind (Prog.wp_of_run (putInode_run ..) ?_)
        have h₃ := h₂.withInode (a := a)
          (n := { (s₁.withFile g ⟨0, flag, some a⟩).inodes a with writeDeny := true }) rfl rfl
        exact Prog.wp_of_returns fun fd s' hrun => h₃.handed hg hfree₀ hentry hrun
      · exact Prog.wp_of_returns fun fd s' hrun => h₂.handed hg hfree₀ hentry hrun

/-- `sys_open` leaves one directory too many open, or none. -/
theorem Exact.sysOpen (h : Exact s held₀) (pathname : List UInt8) (flags : Nat) :
    Prog.wp (fun _ => True) (sysOpen env pathname flags) (fun fd s' => ∃ d : DirPtr,
      Handed s held₀ fd d.opens s' ∧
      (d = .root ∨ OpensBelowRoot env s pathname flags)) s := by
  refine Prog.wp_bind (Prog.wp_mono ((Since.tracks h).openPlan (Since.refl h) pathname flags)
    fun plan s₁ hplan => ?_)
  obtain ⟨d, hd, hkeeps⟩ := hplan
  rw [List.append_nil] at hd
  cases plan with
  | refuse =>
      refine Prog.wp_pure ⟨d, ⟨hd.exact, fun hne => absurd rfl hne⟩, .inl hkeeps⟩
  | create parentDir =>
      obtain rfl : d = parentDir := hkeeps
      refine Prog.wp_get_bind (Prog.wp_bind (Prog.wp_mono (hd.fileCreate h _ _)
        fun fd s₂ h₂ => Prog.wp_bind ?_))
      cases d with
      | root => exact Prog.wp_pure (Prog.wp_pure ⟨.root, h₂, .inl rfl⟩)
      | opened a =>
          exact Prog.wp_of_run (inodeClose_run a s₂)
            (Prog.wp_pure ⟨.root, h₂.closeInode, .inl rfl⟩)
  | existing no =>
      exact Prog.wp_mono (hd.fileOpen h) fun fd s' h' => ⟨d, h', hkeeps⟩

/-! ### `sys_close` -/

/-- Entry `g` has been given up and inode `a` closed. -/
def Fs.fileClosed (s : Fs) (g a : Nat) : Fs :=
  ((s.withInode a { s.inodes a with writeDeny := false }).withFile g
    { s.fileTable g with fdInode := none }).closed a

/-- `file_close` on an entry that is in use. -/
theorem fileClose_run (hentry : (s.fileTable g).fdInode = some a) :
    fileClose g s = .ok (0, s.fileClosed g a) := by
  rw [fileClose, Prog.bind_of_run (fdInodeOf_run hentry _), Prog.bind_of_run (Prog.get_run s),
    Prog.bind_of_run (putInode_run _ _ s), Prog.bind_of_run (inodeClose_run _ _),
    Prog.bind_of_run (Prog.get_run _), Prog.bind_of_run (setFile_run _ _ _), Prog.pure_run,
    (closed_rest _ _).1, withFile_closed]
  rfl

theorem fileClosed_rest (s : Fs) (g a : Nat) : (s.fileClosed g a).rootInode = s.rootInode ∧
    (s.fileClosed g a).tasks = s.tasks ∧ (s.fileClosed g a).cur = s.cur ∧
    ((s.fileClosed g a).fileTable g).fdInode = none ∧
    ∀ i, i ≠ g → (s.fileClosed g a).fileTable i = s.fileTable i := by
  obtain ⟨h1, h2, h3, h4, -⟩ := closed_rest
    ((s.withInode a { s.inodes a with writeDeny := false }).withFile g
      { s.fileTable g with fdInode := none }) a
  refine ⟨h2, h3, h4, ?_, fun i hi => ?_⟩
  · rw [Fs.fileClosed, h1, withFile_self]
  · rw [Fs.fileClosed, h1, withFile_ne _ _ _ _ hi]
    rfl

/-- The inode is held for a moment and then put back. -/
theorem Exact.fileClosed (h : Exact s held) (hg : g < maxFileOpen)
    (hentry : (s.fileTable g).fdInode = some a) : Exact (s.fileClosed g a) held := by
  have h₁ := h.withInode (a := a) (n := { s.inodes a with writeDeny := false }) rfl
  exact (h₁.withoutFile hg hentry (f := { s.fileTable g with fdInode := none }) rfl).closeInode

theorem fileClosed_iNo (s : Fs) (g a b : Nat) :
    ((s.fileClosed g a).inodes b).iNo = (s.inodes b).iNo := by
  rw [Fs.fileClosed, closed_inodes]
  by_cases hba : b = a
  · simp [hba, Fs.withInode, Fs.withFile]
  · simp [hba, Fs.withInode, Fs.withFile]

/-- `sys_close` of a descriptor that leads to an entry in use. -/
theorem sysClose_returns {fd : Int} (hfd : 2 < fd ∧ fd < maxFilesOpenPerProc) (hg : g < maxFileOpen)
    (htable : (s.tasks s.cur).fdTable fd.toNat = g) (hentry : (s.fileTable g).fdInode = some a) :
    ∃ t, sysClose fd s = .ok (0, { s.fileClosed g a with tasks := t }) := by
  have hlocal : fdLocalToGlobal fd.toNat s = .ok (g, s) := by
    rw [fdLocalToGlobal, Prog.bind_of_run (Prog.get_run s), if_pos (by omega), htable,
      Prog.bind_of_run (assertFs_run (by omega) _ _ s), Prog.pure_run]
    rfl
  rw [sysClose, if_pos hfd.1, Prog.bind_of_run hlocal, Prog.bind_of_run (fileClose_run hentry)]
  exact ⟨_, rfl⟩

theorem Exact.sysClose (h : Exact s held) (fd : Int) :
    Prog.wp (fun _ => True) (sysClose fd) (fun _ s' => Exact s' held) s := by
  refine Prog.wp_ite (fun _ => ?_) fun _ => Prog.wp_pure h
  refine Prog.wp_bind (Prog.wp_of_returns fun g s₁ hrun => ?_)
  obtain ⟨-, hg, -, rfl⟩ := fdLocalToGlobal_run hrun
  refine Prog.wp_bind ?_
  cases hentry : (s₁.fileTable g).fdInode with
  | none =>
      refine Prog.wp_bind (Prog.wp_get_bind ?_)
      rw [hentry]
      exact Prog.wp_lift (fun _ he => absurd he (by simp)) fun _ _ => trivial
  | some a =>
      exact Prog.wp_of_run (fileClose_run hentry) ((h.fileClosed hg hentry).tasks _)

/-- Closing the descriptor puts everything back. -/
theorem Grabbed.sysClose {fd : Int} (h : Grabbed s₀ held₀ fd [] s) : ∃ s',
    sysClose fd s = .ok (0, s') ∧ Since s₀ held₀ none [] s' := by
  obtain ⟨hfd, g, a, hg, hfree, hsince, hentry, htable⟩ := h
  obtain ⟨t, hrun⟩ := sysClose_returns hfd hg htable hentry
  obtain ⟨h1, -, h3, h4, h5⟩ := fileClosed_rest s g a
  refine ⟨_, hrun, (hsince.exact.fileClosed hg hentry).tasks t, fun i _ => ?_,
    h1.trans hsince.rootInode, h3.trans hsince.cur, fun b hb => ?_⟩
  · show ((s.fileClosed g a).fileTable i).fdInode = _
    by_cases hi : i = g
    · rw [hi, h4, hfree]
    · rw [h5 i hi]
      exact hsince.fdInode i (by simpa using hi)
  · exact (fileClosed_iNo s g a b).trans (hsince.iNo b hb)

/-! ### Runs -/

/-- The calls of any number of tasks, one after another. -/
inductive DirRun (env : FsEnv) (Ok : Fs → DirCall → Prop) (s₀ : Fs) : Fs → List DirPtr → Prop where
  | mounted : DirRun env Ok s₀ s₀ []
  | call {s s' : Fs} {handles handles' : List DirPtr} (t : Nat) (c : DirCall) :
      DirRun env Ok s₀ s handles → Ok { s with cur := t } c →
      c.execBy env t handles s = .ok (handles', s') → DirRun env Ok s₀ s' handles'

/-- The inodes the handles keep open. -/
def handleInodes (handles : List DirPtr) : List Nat := handles.flatMap DirPtr.opens

/-- The open list has the inodes somebody refers to, and `i_open_cnts` is how many do. -/
structure Balanced (s : Fs) (handles : List DirPtr) : Prop where
  opened : ∀ a, a ∈ s.openInodes ↔ 0 < s.uses a + (handleInodes handles).count a
  counts : ∀ a ∈ s.openInodes,
    (s.inodes a).iOpenCnts = s.uses a + (handleInodes handles).count a

/-- The same inodes are open, each as often as before. -/
def SameOpen (s s' : Fs) : Prop :=
  (∀ a, a ∈ s'.openInodes ↔ a ∈ s.openInodes) ∧ ∀ a ∈ s.openInodes,
    (s'.inodes a).iOpenCnts = (s.inodes a).iOpenCnts ∧ (s'.inodes a).iNo = (s.inodes a).iNo

/-- `sys_open` does not open an existing file below the root, and a file is created by a
kernel thread. -/
def PutsBack (env : FsEnv) (s : Fs) : DirCall → Prop
  | .open pathname flags => ¬ OpensBelowRoot env s pathname flags ∧
      ∀ d s', openPlan env pathname flags s = .ok (.create d, s') →
        (s.tasks s.cur).pgDir = false
  | _ => True

theorem Mounted.exact (h : Mounted env s) : Exact s [] := by
  obtain ⟨s₀, a, no, hboot, -, rfl⟩ := h.eq
  have hcounted := (show Sound False ∅ _ [] from h.sound False.elim).counted
  have hopen : (s₀.mounted a (diskInode s₀ no)).openInodes = [a] :=
    congrArg (a :: ·) hboot.openInodes
  have hcnt : ((s₀.mounted a (diskInode s₀ no)).inodes a).iOpenCnts = 1 :=
    congrArg Inode.iOpenCnts (withInode_self ..)
  refine ⟨hcounted, fun b hb => ?_, fun b hb => ?_⟩
  · rw [hopen, List.mem_singleton] at hb
    rw [hb, hcnt]
    exact Nat.one_pos
  · rw [hopen, List.mem_singleton] at hb
    rw [hb, hcnt]
    exact Nat.le_add_right_of_le (Nat.le_add_left_of_le (if_pos rfl).ge)

theorem perm_handleInodes {handles : List DirPtr} {d : DirPtr} (h : d ∈ handles) :
    (handleInodes handles).Perm (d.opens ++ handleInodes (handles.erase d)) :=
  (List.perm_cons_erase h).flatMap_right _

/-- A call keeps what is held open, when `sys_open` and `sys_close` do. -/
theorem TracksCalls.exec {P : List Nat → Fs → Prop} (hP : TracksCalls env P)
    {handles : List DirPtr} (h : P (handleInodes handles) s) (c : DirCall)
    (hopen : ∀ pathname flags, c = .open pathname flags → Prog.wp (fun _ => True)
      (sysOpen env pathname flags) (fun _ s' => P (handleInodes handles) s') s)
    (hclose : ∀ fd, c = .close fd → Prog.wp (fun _ => True) (sysClose fd)
      (fun _ s' => P (handleInodes handles) s') s) :
    Prog.wp (fun _ => True) (c.exec env handles)
      (fun handles' s' => P (handleInodes handles') s') s := by
  cases c with
  | «open» pathname flags =>
      exact Prog.wp_bind (Prog.wp_mono (hopen _ _ rfl) fun _ _ h' => Prog.wp_pure h')
  | close fd => exact Prog.wp_bind (Prog.wp_mono (hclose _ rfl) fun _ _ h' => Prog.wp_pure h')
  | opendir name =>
      refine Prog.wp_bind (Prog.wp_mono (hP.sysOpendir h name) fun d s' h' => ?_)
      cases d with
      | none => exact Prog.wp_pure h'
      | some d => exact Prog.wp_pure h'
  | closedir dir =>
      cases dir with
      | none => exact Prog.wp_bind (Prog.wp_pure (Prog.wp_pure h))
      | some d =>
          refine Prog.wp_ite (fun hd => ?_) fun _ => Prog.wp_pure h
          exact Prog.wp_bind (Prog.wp_mono (hP.sysClosedir (hP.perm h (perm_handleInodes hd)))
            fun _ _ h' => Prog.wp_pure h')
  | mkdir pathname =>
      exact Prog.wp_bind (Prog.wp_mono (hP.sysMkdir h _) fun _ _ h' => Prog.wp_pure h')
  | rmdir pathname =>
      exact Prog.wp_bind (Prog.wp_mono (hP.removals.sysRmdir h _) fun _ _ h' => Prog.wp_pure h')
  | unlink pathname =>
      exact Prog.wp_bind (Prog.wp_mono (hP.removals.sysUnlink h _) fun _ _ h' => Prog.wp_pure h')
  | stat path =>
      exact Prog.wp_bind (Prog.wp_mono (hP.sysStat h _) fun _ _ h' => Prog.wp_pure h')
  | chdir path =>
      exact Prog.wp_bind (Prog.wp_mono (hP.sysChdir h _) fun _ _ h' => Prog.wp_pure h')

theorem Exact.exec {handles : List DirPtr} (h : Exact s (handleInodes handles)) {c : DirCall}
    (hc : PutsBack env s c) : Prog.wp (fun _ => True) (c.exec env handles)
      (fun handles' s' => Exact s' (handleInodes handles')) s := by
  refine Exact.tracksCalls.exec h c (fun pathname flags hopen => ?_) fun fd _ => h.sysClose fd
  subst hopen
  refine Prog.wp_mono (h.sysOpen pathname flags) fun fd s' h' => ?_
  obtain ⟨d, hd, rfl | hbelow⟩ := h'
  · exact hd.1
  · exact absurd hbelow hc.1

theorem DirRun.exact {handles : List DirPtr} (h₀ : Exact s₀ [])
    (h : DirRun env (PutsBack env) s₀ s handles) : Exact s (handleInodes handles) := by
  induction h with
  | mounted => exact h₀
  | call t c _ hok hrun ih =>
      obtain ⟨_, s₁, h1, h2⟩ := Prog.bind_run.mp hrun
      simp only [Prog.modify_run, Except.ok.injEq, Prod.mk.injEq, true_and] at h1
      subst h1
      exact ((ih.cur t).exec hok).of_run h2

/-- In every run the counts are exact, and opening a file and closing it again changes
nothing. -/
theorem balanced_runs (env : FsEnv) (s₀ s : Fs) (handles : List DirPtr) (h₀ : Mounted env s₀)
    (h : DirRun env (PutsBack env) s₀ s handles) : Balanced s handles ∧
      ∀ t pathname flags fd s₁, PutsBack env { s with cur := t } (.open pathname flags) →
        sysOpen env pathname flags { s with cur := t } = .ok (fd, s₁) → fd ≠ -1 →
        ∃ s₂, sysClose fd s₁ = .ok (0, s₂) ∧ SameOpen s s₂ := by
  have hexact := h.exact h₀.exact
  refine ⟨⟨fun a => hexact.mem_iff, fun a ha => hexact.count_eq ha⟩, ?_⟩
  intro t pathname flags fd s₁ hok hrun hfd
  obtain ⟨d, ⟨-, hgrab⟩, rfl | hbelow⟩ := ((hexact.cur t).sysOpen pathname flags).of_run hrun
  · obtain ⟨s₂, hclose, hsince⟩ := (hgrab hfd).sysClose
    exact ⟨s₂, hclose, hsince.restored (hexact.cur t)⟩
  · exact absurd hbelow hok.1

/-! ### A file below the root -/

/-- `open("/d/f", flags)` -/
def openBelow (flags : Nat) : DirCall := .open [47, 100, 47, 102] flags

/-- After `mkdir("/d")`. -/
def dirMadeFs : Fs := ((DirCall.mkdir [47, 100]).execBy upwardEnv 0 []).after mountedFs

/-- After `open("/d/f", O_CREAT)`. -/
def belowCreatedFs : Fs := ((openBelow 4).execBy upwardEnv 0 []).after dirMadeFs

/-- After `close(3)`. -/
def belowClosedFs : Fs := ((DirCall.close 3).execBy upwardEnv 0 []).after belowCreatedFs

/-- After `open("/d/f", O_RDONLY)`. -/
def belowOpenedFs : Fs :=
  (sysOpen upwardEnv [47, 100, 47, 102] 0).after { belowClosedFs with cur := 0 }

theorem putsBack_create (hk : (s.tasks s.cur).pgDir = false) :
    PutsBack env s (openBelow 4) :=
  ⟨fun h => absurd h.2.1 (by decide), fun _ _ _ => hk⟩

theorem belowClosedFs_run {Ok : Fs → DirCall → Prop}
    (hmkdir : Ok { mountedFs with cur := 0 } (.mkdir [47, 100]))
    (hopen : Ok { dirMadeFs with cur := 0 } (openBelow 4))
    (hclose : Ok { belowCreatedFs with cur := 0 } (.close 3)) :
    DirRun upwardEnv Ok mountedFs belowClosedFs [] :=
  .call 0 _ (.call 0 _ (.call 0 _ .mounted hmkdir (Prog.run_of_answer (by decide +kernel)))
    hopen (Prog.run_of_answer (by decide +kernel))) hclose
    (Prog.run_of_answer (by decide +kernel))

/-- A file that is created below the root and closed again. -/
theorem balanced_belowClosedFs : Mounted upwardEnv mountedFs ∧
    DirRun upwardEnv (PutsBack upwardEnv) mountedFs belowClosedFs [] ∧
    Balanced belowClosedFs [] := by
  have hrun : DirRun upwardEnv (PutsBack upwardEnv) mountedFs belowClosedFs [] :=
    belowClosedFs_run trivial (putsBack_create (by decide +kernel)) trivial
  exact ⟨mountedFs_mounted, hrun, (balanced_runs upwardEnv _ _ _ mountedFs_mounted hrun).1⟩

/-- Opened once more, its directory stays open with nobody to refer to it, also when the file
is closed. -/
theorem not_balanced_below : Mounted upwardEnv mountedFs ∧
    DirRun upwardEnv (fun _ _ => True) mountedFs belowOpenedFs [] ∧
    ¬ Balanced belowOpenedFs [] ∧
    sysOpen upwardEnv [47, 100, 47, 102] 0 { belowClosedFs with cur := 0 }
      = .ok (3, belowOpenedFs) ∧
    ¬ SameOpen belowClosedFs ((sysClose 3).after belowOpenedFs) := by
  have hopened : sysOpen upwardEnv [47, 100, 47, 102] 0 { belowClosedFs with cur := 0 }
      = .ok (3, belowOpenedFs) := Prog.run_of_answer (by decide +kernel)
  have hcall : (openBelow 0).execBy upwardEnv 0 [] belowClosedFs = .ok ([], belowOpenedFs) := by
    rw [DirCall.execBy, Prog.bind_of_run (Prog.modify_run _ _), openBelow, DirCall.exec,
      Prog.bind_of_run hopened, Prog.pure_run]
  refine ⟨mountedFs_mounted, .call 0 (openBelow 0) (belowClosedFs_run trivial trivial trivial)
    trivial hcall, fun h => ?_, hopened, fun h => ?_⟩
  · have hmem : 2 ∈ belowOpenedFs.openInodes := by decide +kernel
    exact absurd ((h.opened 2).mp hmem) (by decide +kernel)
  · have hmem : 2 ∈ ((sysClose 3).after belowOpenedFs).openInodes := by decide +kernel
    exact absurd ((h.1 2).mp hmem) (by decide +kernel)

end ZyOs
