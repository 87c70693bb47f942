/-
The file table under the system calls.

`ExclusiveWriter` is what `write_deny` is there for.  `Sound` puts it beside the
count of users: the count holds in every run, the writers only as long as nothing
happens that the calls get wrong, so they are behind the proposition `clean`.  The
lemmas follow a call from the front: the walk along the path, then `file_open`,
`file_create` or `file_close`.
-/
import ZyOs.Proofs.Tracks

namespace ZyOs

open Library

/-! ### Writers -/

/-- Entry `g` is open for writing on the inode at `a`. -/
def Fs.IsWriter (s : Fs) (g a : Nat) : Prop :=
  g < maxFileOpen ∧ (s.fileTable g).fdInode = some a ∧ writes (s.fileTable g).fdFlag = true

/-- At most one entry writes to an inode, and `write_deny` says whether one does. -/
structure ExclusiveWriter (s : Fs) : Prop where
  unique : ∀ g g' a, s.IsWriter g a → s.IsWriter g' a → g = g'
  deny : ∀ a ∈ s.openInodes, ((s.inodes a).writeDeny = true ↔ ∃ g, s.IsWriter g a)

/-- Entries that have stayed where they are: the index, the inode's address and its number. -/
def Pinned (pins : Set (Nat × Nat × UInt32)) (s : Fs) : Prop :=
  ∀ g a no, (g, a, no) ∈ pins → g < maxFileOpen ∧
    (s.fileTable g).fdInode = some a ∧ (s.inodes a).iNo = no

/-- The invariant between calls, and within them with what the call holds open. -/
structure Sound (clean : Prop) (pins : Set (Nat × Nat × UInt32)) (s : Fs) (held : List Nat) :
    Prop where
  counted : Counted s held
  exclusive : clean → ExclusiveWriter s
  pinned : Pinned pins s

variable {clean : Prop} {pins : Set (Nat × Nat × UInt32)} {env : FsEnv} {s₀ s s' : Fs}
  {a b g no flag : Nat} {held : List Nat}

/-- An entry that is in use stays when its inode does and keeps its number. -/
theorem Pinned.mono (h : Pinned pins s) (hkeep : ∀ g a no, (g, a, no) ∈ pins →
    g < maxFileOpen → (s.fileTable g).fdInode = some a →
    (s'.fileTable g).fdInode = some a ∧ (s'.inodes a).iNo = (s.inodes a).iNo) :
    Pinned pins s' := by
  intro g a no hmem
  obtain ⟨hg, hinode, hno⟩ := h g a no hmem
  obtain ⟨hinode', hno'⟩ := hkeep g a no hmem hg hinode
  exact ⟨hg, hinode', hno'.trans hno⟩

theorem Pinned.withInode (h : Pinned pins s) {n : Inode} (hn : n.iNo = (s.inodes a).iNo) :
    Pinned pins (s.withInode a n) := by
  refine h.mono fun g b _ _ _ hb => ⟨hb, ?_⟩
  by_cases hba : b = a
  · rw [hba, withInode_self, hn]
  · rw [withInode_ne _ _ _ _ hba]

/-- An entry that is not pinned may be written. -/
theorem Pinned.withFile (h : Pinned pins s) {f : File} (hg : ∀ a no, (g, a, no) ∉ pins) :
    Pinned pins (s.withFile g f) := by
  refine h.mono fun i a no hmem _ hinode => ⟨?_, rfl⟩
  have hne : i ≠ g := by
    rintro rfl
    exact hg a no hmem
  rw [withFile_ne _ _ _ _ hne, hinode]

/-- An empty entry is not pinned. -/
theorem Pinned.not_mem (h : Pinned pins s) (hfree : (s.fileTable g).fdInode = none) (a : Nat)
    (no : UInt32) : (g, a, no) ∉ pins := by
  intro hmem
  have hsome := (h g a no hmem).2.1
  rw [hfree] at hsome
  exact absurd hsome (by simp)

/-- The writers are the same, and an inode that was not open before is written by nobody. -/
theorem ExclusiveWriter.of_writers (h : ExclusiveWriter s)
    (hw : ∀ g a, s'.IsWriter g a ↔ s.IsWriter g a)
    (hopen : ∀ a ∈ s'.openInodes,
      (a ∈ s.openInodes ∧ (s'.inodes a).writeDeny = (s.inodes a).writeDeny) ∨
      ((s'.inodes a).writeDeny = false ∧ ∀ g, ¬ s.IsWriter g a)) : ExclusiveWriter s' := by
  refine ⟨fun g g' a hg hg' => h.unique g g' a ((hw g a).mp hg) ((hw g' a).mp hg'), ?_⟩
  intro a ha
  simp only [hw]
  rcases hopen a ha with ⟨hold, hdeny⟩ | ⟨hdeny, hnone⟩
  · rw [hdeny]
    exact h.deny a hold
  · rw [hdeny]
    exact ⟨fun hc => absurd hc (by decide), fun ⟨g, hg⟩ => absurd hg (hnone g)⟩

theorem isWriter_congr (hinode : ∀ g, (s'.fileTable g).fdInode = (s.fileTable g).fdInode)
    (hflag : ∀ g, (s'.fileTable g).fdInode ≠ none →
      (s'.fileTable g).fdFlag = (s.fileTable g).fdFlag) (g a : Nat) :
    s'.IsWriter g a ↔ s.IsWriter g a := by
  rw [Fs.IsWriter, Fs.IsWriter, ← hinode]
  refine and_congr_right fun _ => and_congr_right fun hsome => ?_
  rw [hflag g (by simp [hsome])]

theorem Counted.quiet (h : Counted s held) (hq : Quiet s s') : Counted s' held := by
  refine ⟨hq.openInodes ▸ h.nodup, fun a ha => ?_, fun a ha => ?_⟩
  · rw [hq.heap]
    exact h.heap a (hq.openInodes ▸ ha)
  · rw [uses_congr hq.fdInode hq.rootInode] at ha ⊢
    rw [hq.openInodes, hq.iOpenCnts]
    exact h.counted a ha

theorem Counted.perm {held' : List Nat} (h : Counted s held) (hp : held.Perm held') :
    Counted s held' :=
  ⟨h.nodup, h.heap, fun a => by rw [← hp.count_eq]; exact h.counted a⟩

theorem Counted.closeInode (h : Counted s (a :: held)) : Counted (s.closed a) held := by
  have hclosed := h.closed (List.mem_cons_self (a := a) (l := held))
  rwa [List.erase_cons_head] at hclosed

theorem Counted.tracksCalls : TracksCalls env (fun held s => Counted s held) where
  opened := fun h hrun => h.opened hrun
  closed := fun h => h.closeInode
  perm := fun h hp => h.perm hp
  quiet := fun h hq => h.quiet hq
  tasks := fun _ h => ⟨h.nodup, h.heap, h.counted⟩

theorem Sound.quiet (h : Sound clean pins s held) (hq : Quiet s s') : Sound clean pins s' held := by
  refine ⟨h.counted.quiet hq, fun hc => (h.exclusive hc).of_writers
    (isWriter_congr hq.fdInode hq.fdFlag) fun a ha => Or.inl ⟨hq.openInodes ▸ ha, hq.writeDeny a⟩,
    h.pinned.mono fun g a _ _ _ hinode => ⟨(hq.fdInode g).trans hinode, hq.iNo a⟩⟩

/-- Descriptors are not part of it. -/
theorem Sound.tasks (h : Sound clean pins s held) (t : Nat → FdTask) :
    Sound clean pins { s with tasks := t } held :=
  ⟨⟨h.counted.nodup, h.counted.heap, h.counted.counted⟩,
    fun hc => ⟨(h.exclusive hc).unique, (h.exclusive hc).deny⟩, h.pinned⟩

theorem Sound.cur (h : Sound clean pins s held) (t : Nat) :
    Sound clean pins { s with cur := t } held :=
  ⟨⟨h.counted.nodup, h.counted.heap, h.counted.counted⟩,
    fun hc => ⟨(h.exclusive hc).unique, (h.exclusive hc).deny⟩, h.pinned⟩

/-- A call may forget what it has open. -/
theorem Sound.forget (h : Sound clean pins s held) : Sound clean pins s [] := by
  refine ⟨⟨h.counted.nodup, h.counted.heap, fun a ha => ?_⟩, h.exclusive, h.pinned⟩
  rw [List.count_nil, Nat.add_zero] at ha ⊢
  obtain ⟨h1, h2⟩ := h.counted.counted a (by omega)
  exact ⟨h1, by omega⟩

/-- An inode an entry refers to is used. -/
theorem uses_pos (hg : g < maxFileOpen) (h : (s.fileTable g).fdInode = some a) : 0 < s.uses a := by
  have : 0 < (s.entriesOf a).card := Finset.card_pos.mpr ⟨g, mem_entriesOf.mpr ⟨hg, h⟩⟩
  rw [Fs.uses]
  omega

/-- Nobody writes to an inode that is not allocated. -/
theorem Counted.not_isWriter (h : Counted s held) (ha : a ∉ s.heap) (g : Nat) :
    ¬ s.IsWriter g a := by
  rintro ⟨hg, hinode, -⟩
  have hpos := uses_pos hg hinode
  have hzero := h.unused ha
  omega

/-! ### The walk along a path -/

/-- No inode is stored on disk with `write_deny` set. -/
def DiskClean (s : Fs) : Prop := ∀ no < 4096, (diskInode s no).writeDeny = false

/-- Code that looks a path up from `s₀` has got to `s`. -/
structure Looking (clean : Prop) (pins : Set (Nat × Nat × UInt32)) (s₀ s : Fs)
    (held : List Nat) : Prop where
  sound : Sound clean pins s held
  fileTable : s.fileTable = s₀.fileTable
  rootInode : s.rootInode = s₀.rootInode
  tasks : s.tasks = s₀.tasks
  cur : s.cur = s₀.cur
  disk : s.disk = s₀.disk
  part : s.part = s₀.part
  iNo : ∀ a, 0 < s₀.uses a → (s.inodes a).iNo = (s₀.inodes a).iNo

theorem Looking.start (h : Sound clean pins s []) : Looking clean pins s s [] :=
  ⟨h, rfl, rfl, rfl, rfl, rfl, rfl, fun _ _ => rfl⟩

theorem Looking.uses (h : Looking clean pins s₀ s held) (a : Nat) : s.uses a = s₀.uses a :=
  uses_congr (fun g => by rw [h.fileTable]) h.rootInode

theorem Looking.forget (h : Looking clean pins s₀ s held) : Looking clean pins s₀ s [] :=
  { h with sound := h.sound.forget }

theorem Looking.diskClean (h : Looking clean pins s₀ s held) (hdisk : DiskClean s₀) :
    DiskClean s := by
  intro no hno
  have heq : diskInode s no = diskInode s₀ no := by rw [diskInode, diskInode, h.disk, h.part]
  rw [heq]
  exact hdisk no hno

/-- An inode an entry refers to is not at a place nobody allocated. -/
theorem Counted.ne_of_fdInode (h : Counted s held) (hfresh : a ∉ s.heap) (hg : g < maxFileOpen)
    (hb : (s.fileTable g).fdInode = some b) : b ≠ a := by
  rintro rfl
  have hpos := uses_pos hg hb
  have hzero := h.unused hfresh
  omega

theorem Sound.loaded (h : Sound clean pins s held) (hfresh : a ∉ s.heap) {n : Inode}
    (hn : clean → n.writeDeny = false) : Sound clean pins (s.loaded a n) (a :: held) := by
  refine ⟨h.counted.loaded hfresh n, fun hc => ?_, h.pinned.mono fun g b _ _ hg hb => ⟨hb, ?_⟩⟩
  · refine (h.exclusive hc).of_writers (fun _ _ => Iff.rfl) fun b hb => ?_
    by_cases hba : b = a
    · subst hba
      refine Or.inr ⟨?_, h.counted.not_isWriter hfresh⟩
      show ((s.withInode b _).inodes b).writeDeny = false
      rw [withInode_self]
      exact hn hc
    · refine Or.inl ⟨(List.mem_cons.mp hb).resolve_left hba, ?_⟩
      show ((s.withInode a _).inodes b).writeDeny = _
      rw [withInode_ne _ _ _ _ hba]
  · show ((s.withInode a _).inodes b).iNo = _
    rw [withInode_ne _ _ _ _ (h.counted.ne_of_fdInode hfresh hg hb)]

theorem Sound.opened (h : Sound clean pins s held) (hdisk : clean → DiskClean s)
    (hrun : inodeOpen env no s = .ok (a, s')) : Sound clean pins s' (a :: held) := by
  rcases inodeOpen_cases hrun with ⟨hmem, -, rfl⟩ | ⟨hno, hfresh, rfl⟩
  · refine ⟨h.counted.opened hrun, fun hc => ?_, h.pinned.withInode rfl⟩
    refine (h.exclusive hc).of_writers (fun _ _ => Iff.rfl) fun b hb => Or.inl ⟨hb, ?_⟩
    by_cases hba : b = a
    · rw [hba, withInode_self]
    · rw [withInode_ne _ _ _ _ hba]
  · exact h.loaded hfresh fun hc => hdisk hc no hno

theorem Sound.closed (h : Sound clean pins s held) (ha : a ∈ held) :
    Sound clean pins (s.closed a) (held.erase a) := by
  have hfields : ∀ b, ((s.closed a).inodes b).writeDeny = (s.inodes b).writeDeny ∧
      ((s.closed a).inodes b).iNo = (s.inodes b).iNo := by
    intro b
    rw [closed_inodes]
    by_cases hba : b = a
    · rw [hba, withInode_self]
      exact ⟨rfl, rfl⟩
    · rw [withInode_ne _ _ _ _ hba]
      exact ⟨rfl, rfl⟩
  have htable := (closed_rest s a).1
  refine ⟨h.counted.closed ha, fun hc => ?_, h.pinned.mono fun g b _ _ _ hb =>
    ⟨by rw [htable, hb], (hfields b).2⟩⟩
  exact (h.exclusive hc).of_writers (isWriter_congr (fun g => by rw [htable])
    fun g _ => by rw [htable]) fun b hb =>
      Or.inl ⟨closed_openInodes_subset s a hb, (hfields b).1⟩

theorem Looking.opened (h : Looking clean pins s₀ s held) (hdisk : clean → DiskClean s₀)
    (hrun : inodeOpen env no s = .ok (a, s')) : Looking clean pins s₀ s' (a :: held) := by
  have hsound := h.sound.opened (fun hc => h.diskClean (hdisk hc)) hrun
  rcases inodeOpen_cases hrun with ⟨-, -, rfl⟩ | ⟨-, hfresh, rfl⟩
  · refine ⟨hsound, h.fileTable, h.rootInode, h.tasks, h.cur, h.disk, h.part, fun b hb => ?_⟩
    rw [← h.iNo b hb]
    by_cases hba : b = a
    · rw [hba, withInode_self]
    · rw [withInode_ne _ _ _ _ hba]
  · refine ⟨hsound, h.fileTable, h.rootInode, h.tasks, h.cur, h.disk, h.part, fun b hb => ?_⟩
    have hba : b ≠ a := by
      rintro rfl
      have := h.sound.counted.unused hfresh
      rw [h.uses] at this
      omega
    rw [← h.iNo b hb]
    show ((s.withInode a _).inodes b).iNo = _
    rw [withInode_ne _ _ _ _ hba]

theorem Looking.closed (h : Looking clean pins s₀ s (a :: held)) :
    Looking clean pins s₀ (s.closed a) held := by
  have hsound := h.sound.closed (a := a) List.mem_cons_self
  obtain ⟨h1, h2, h3, h4, h5, h6⟩ := closed_rest s a
  refine ⟨?_, h1.trans h.fileTable, h2.trans h.rootInode, h3.trans h.tasks, h4.trans h.cur,
    h5.trans h.disk, h6.trans h.part, fun b hb => ?_⟩
  · rwa [List.erase_cons_head] at hsound
  · rw [← h.iNo b hb, closed_inodes]
    by_cases hba : b = a
    · rw [hba, withInode_self]
    · rw [withInode_ne _ _ _ _ hba]

theorem Looking.tracks (hdisk : clean → DiskClean s₀) :
    Tracks env (fun held s => Looking clean pins s₀ s held) :=
  ⟨fun h hrun => h.opened hdisk hrun, Looking.closed⟩

/-- The inodes `sys_open` still has open when it has made up its mind. -/
def OpenPlan.opens : OpenPlan → List Nat
  | .create parentDir => parentDir.opens
  | _ => []

theorem Looking.openPlan (h : Sound clean pins s []) (hdisk : clean → DiskClean s)
    (pathname : List UInt8) (flags : Nat) : Prog.wp (fun _ => True) (openPlan env pathname flags)
      (fun plan s' => Looking clean pins s s' plan.opens) s := by
  refine Prog.wp_mono ((Looking.tracks hdisk).openPlan (Looking.start h) pathname flags) ?_
  rintro plan s' ⟨d, h', hkeeps⟩
  cases plan with
  | refuse => exact h'.forget
  | create parentDir =>
      obtain rfl : d = parentDir := hkeeps
      simpa [OpenPlan.opens] using h'
  | existing no => exact h'.forget

/-! ### Entries -/

theorem freeSlotFrom_some {fileTable : Nat → File} : ∀ {n i : Nat},
    freeSlotFrom fileTable n i = some g →
    i ≤ g ∧ g < i + n ∧ (fileTable g).fdInode = none := by
  intro n
  induction n with
  | zero => exact fun h => absurd h (by simp [freeSlotFrom])
  | succ n ih =>
      intro i h
      simp only [freeSlotFrom] at h
      split at h
      · rename_i hfree
        obtain rfl := Option.some.inj h
        exact ⟨le_rfl, by omega, hfree⟩
      · obtain ⟨h1, h2, h3⟩ := ih h
        exact ⟨by omega, by omega, h3⟩

theorem freeSlotFrom_congr {fileTable fileTable' : Nat → File}
    (h : ∀ g, (fileTable' g).fdInode = (fileTable g).fdInode) :
    ∀ n i, freeSlotFrom fileTable' n i = freeSlotFrom fileTable n i := by
  intro n
  induction n with
  | zero => exact fun _ => rfl
  | succ n ih =>
      intro i
      simp only [freeSlotFrom, h, ih]

/-- A free slot is in the table. -/
theorem getFreeSlotInGlobal_some {fileTable : Nat → File}
    (h : getFreeSlotInGlobal fileTable = some g) :
    g < maxFileOpen ∧ (fileTable g).fdInode = none := by
  obtain ⟨-, h2, h3⟩ := freeSlotFrom_some h
  exact ⟨h2, h3⟩

theorem freeFdFrom_some {fdTable : Nat → Int} {fd : Nat} : ∀ {n i : Nat},
    freeFdFrom fdTable n i = some fd → i ≤ fd ∧ fd < i + n ∧ fdTable fd = -1 := by
  intro n
  induction n with
  | zero => exact fun h => absurd h (by simp [freeFdFrom])
  | succ n ih =>
      intro i h
      simp only [freeFdFrom] at h
      split at h
      · rename_i hfree
        obtain rfl := Option.some.inj h
        exact ⟨le_rfl, by omega, hfree⟩
      · obtain ⟨h1, h2, h3⟩ := ih h
        exact ⟨by omega, by omega, h3⟩

/-- `pcb_fd_install` only touches descriptors. -/
theorem pcbFdInstall_tasks {r : Int} (h : pcbFdInstall g s = .ok (r, s')) :
    ∃ t, s' = { s with tasks := t } := by
  simp only [pcbFdInstall] at h
  rw [Prog.bind_of_run (Prog.get_run s)] at h
  cases hfree : freeFdFrom (s.tasks s.cur).fdTable (maxFilesOpenPerProc - 3) 3 with
  | none =>
      simp only [hfree, Prog.pure_run, Except.ok.injEq, Prod.mk.injEq] at h
      exact ⟨s.tasks, h.2.symm⟩
  | some l =>
      simp only [hfree, setFd] at h
      exact ⟨_, (Prod.mk.inj (Except.ok.inj h)).2.symm⟩

theorem Sound.wp_pcbFdInstall (h : Sound clean pins s held) (g : Nat) :
    Prog.wp (fun _ => True) (pcbFdInstall g) (fun _ s' => Sound clean pins s' held) s := by
  refine Prog.wp_of_returns fun r s' hrun => ?_
  obtain ⟨t, rfl⟩ := pcbFdInstall_tasks hrun
  exact h.tasks t

/-- An inode that was held goes into an empty entry. -/
theorem Counted.withFile (h : Counted s (a :: held)) (hg : g < maxFileOpen)
    (hfree : (s.fileTable g).fdInode = none) {f : File} (hf : f.fdInode = some a) :
    Counted (s.withFile g f) held := by
  refine ⟨h.nodup, h.heap, fun b hb => ?_⟩
  rw [uses_fill hg hfree hf] at hb ⊢
  exact h.counted b hb

/-- The inode of an entry that is emptied is held again. -/
theorem Counted.withoutFile (h : Counted s held) (hg : g < maxFileOpen)
    (hold : (s.fileTable g).fdInode = some a) {f : File} (hf : f.fdInode = none) :
    Counted (s.withFile g f) (a :: held) := by
  refine ⟨h.nodup, h.heap, fun b hb => ?_⟩
  rw [uses_empty hg hold hf] at hb ⊢
  exact h.counted b hb

/-- Fields of an inode other than the count may be written. -/
theorem Counted.withInode (h : Counted s held) {n : Inode}
    (hn : n.iOpenCnts = (s.inodes a).iOpenCnts) : Counted (s.withInode a n) held := by
  refine ⟨h.nodup, h.heap, fun b hb => ?_⟩
  rw [uses_withInode] at hb ⊢
  obtain ⟨h1, h2⟩ := h.counted b hb
  refine ⟨h1, ?_⟩
  by_cases hba : b = a
  · rw [hba, withInode_self, hn]
    exact hba ▸ h2
  · rw [withInode_ne _ _ _ _ hba]
    exact h2

/-- Writers once entry `g`, empty before, has been filled in. -/
theorem isWriter_withFile (hg : g < maxFileOpen) (hfree : (s.fileTable g).fdInode = none)
    {f : File} (hf : f.fdInode = some a) (i b : Nat) : (s.withFile g f).IsWriter i b ↔
      s.IsWriter i b ∨ (i = g ∧ b = a ∧ writes f.fdFlag = true) := by
  by_cases hi : i = g
  · subst hi
    simp [Fs.IsWriter, hfree, hf, hg, @eq_comm _ b a]
  · simp [Fs.IsWriter, withFile_ne _ _ _ _ hi, hi]

theorem fdInodeOf_run (hentry : (s.fileTable g).fdInode = some a) (func : String) :
    fdInodeOf g func s = .ok (a, s) := by
  rw [fdInodeOf, Prog.bind_of_run (Prog.get_run s), hentry]
  rfl

theorem fdInodeOf_eq {func : String} (h : fdInodeOf g func s = .ok (a, s')) :
    (s.fileTable g).fdInode = some a ∧ s' = s := by
  cases hentry : (s.fileTable g).fdInode with
  | none =>
      rw [fdInodeOf, Prog.bind_of_run (Prog.get_run s), hentry] at h
      cases h
  | some b =>
      rw [fdInodeOf_run hentry] at h
      cases h
      exact ⟨rfl, rfl⟩

/-! ### `file_create` -/

theorem setFile_run (g : Nat) (f : File) (s : Fs) : setFile g f s = .ok ((), s.withFile g f) := rfl

/-- What `file_create` does to the open inodes: nothing but scribble on a free place, or the
new inode is in an empty entry before a descriptor is looked for. -/
theorem fileCreate_cases (env : FsEnv) (parent : Nat) (filename : List UInt8) (flag : Nat)
    (s : Fs) : Prog.wp (fun _ => True) (fileCreate env parent filename flag) (fun fd s' =>
      (fd = -1 ∧ ∃ a n, a ∉ s.heap ∧ Quiet (s.withInode a n) s') ∨
      ∃ a g no s₁, a ∉ s.heap ∧ getFreeSlotInGlobal s.fileTable = some g ∧
        Quiet ((s.loaded a (inodeInit no)).withFile g ⟨0, flag, some a⟩) s₁ ∧
        pcbFdInstall g s₁ = .ok (fd, s')) s := by
  refine Prog.wp_bind (Prog.wp_mono ((quiet_inodeBitmapAlloc s).wp (Quiet.refl s))
    fun no s₁ hq => ?_)
  have hfresh : env.newAddr s₁.heap ∉ s.heap := hq.heap ▸ env.newAddr_fresh s₁.heap
  refine Prog.wp_ite (fun _ => Prog.wp_pure (.inl ⟨rfl, _, s.inodes (env.newAddr s₁.heap), hfresh,
    ?_⟩)) fun _ => Prog.wp_get_bind ?_
  · have hsame : s.withInode (env.newAddr s₁.heap) (s.inodes (env.newAddr s₁.heap)) = s := by
      unfold Fs.withInode
      congr
      funext b
      by_cases hb : b = env.newAddr s₁.heap
      · rw [if_pos hb, hb]
      · rw [if_neg hb]
    rwa [hsame]
  set a := env.newAddr s₁.heap
  have hundo : (insert a s₁.heap).erase a = s.heap := by
    rw [hq.heap]
    exact Finset.erase_insert hfresh
  refine Prog.wp_bind (Prog.wp_modify (Prog.wp_bind (Prog.wp_of_run (putInode_run _ _ _)
    (Prog.wp_get_bind ?_))))
  -- the fields of the inodes, once one is written at `a` that has them
  have hfield : ∀ {β : Type} (f : Inode → β) (n m : Inode) (s₂ : Fs),
      (∀ b, f (s₂.inodes b) = f (if b = a then m else s₁.inodes b)) → f m = f n →
      (∀ b, f (s₁.inodes b) = f (s.inodes b)) →
      ∀ b, f (s₂.inodes b) = f ((s.withInode a n).inodes b) := by
    intro β f n m s₂ h1 h2 h3 b
    rw [h1]
    by_cases hb : b = a
    · rw [if_pos hb, hb, withInode_self, h2]
    · rw [if_neg hb, withInode_ne _ _ _ _ hb, h3]
  cases hslot : getFreeSlotInGlobal s₁.fileTable with
  | none =>
      -- no entry is left: the inode is given back
      refine Prog.wp_bind (Prog.wp_modify (Prog.wp_bind (Prog.wp_modify (Prog.wp_pure ?_))))
      refine .inl ⟨rfl, a, inodeInit no.toNat, hfresh, ?_⟩
      exact ⟨hq.openInodes, hundo, hq.rootInode, hq.tasks, hq.cur, hq.fdInode, hq.fdFlag,
        hfield Inode.iNo _ _ _ (fun _ => rfl) rfl hq.iNo,
        hfield Inode.iOpenCnts _ _ _ (fun _ => rfl) rfl hq.iOpenCnts,
        hfield Inode.writeDeny _ _ _ (fun _ => rfl) rfl hq.writeDeny,
        hq.alike.trans ⟨rfl, rfl, rfl⟩⟩
  | some g =>
      have hslot₀ : getFreeSlotInGlobal s.fileTable = some g :=
        (freeSlotFrom_congr hq.fdInode _ _).symm.trans hslot
      obtain ⟨hg, hempty⟩ := getFreeSlotInGlobal_some hslot₀
      refine Prog.wp_bind (Prog.wp_of_run (setFile_run _ _ _) (Prog.wp_get_bind
        (Prog.wp_bind (Prog.wp_of_run (putInode_run _ _ _) ?_))))
      refine Prog.wp_bind (Prog.wp_lift (fun e _ => ?_) fun _ _ => trivial)
      refine Prog.wp_bind (Prog.wp_mono ((quiet_syncDirEntry _ _ _
        { (s.withInode a (inodeInit no.toNat)).withFile g ⟨0, flag, some a⟩ with
          heap := insert a s.heap }).wp ?base)
        fun ok s₂ hq₂ => Prog.wp_ite (fun _ => ?_) fun _ => ?_)
      case base =>
        refine ⟨hq.openInodes, congrArg (insert a ·) hq.heap, hq.rootInode, hq.tasks, hq.cur,
          fun i => ?_, fun i hi => ?_, hfield Inode.iNo _ (inodeInit no.toNat) _ (fun b => ?_) rfl
            hq.iNo, hfield Inode.iOpenCnts _ (inodeInit no.toNat) _ (fun b => ?_) rfl hq.iOpenCnts,
          hfield Inode.writeDeny _ (inodeInit no.toNat) _ (fun b => ?_) rfl hq.writeDeny, hq.alike⟩
        · by_cases hi : i = g
          · simp [Fs.withFile, hi]
          · simpa [Fs.withFile, Fs.withInode, hi] using hq.fdInode i
        · by_cases hig : i = g
          · simp [Fs.withFile, hig]
          · simp only [Fs.withFile, hig, if_false] at hi ⊢
            exact hq.fdFlag i hi
        all_goals
          by_cases hb : b = a
          · simp [Fs.withFile, hb, inodeInit]
          · simp [Fs.withFile, hb]
      · -- the entry is in the directory: the new inode joins the open ones
        refine Prog.wp_get_bind (Prog.wp_bind (Prog.wp_mono ((quiet_inodeSync _ _ _).wp hq₂)
          fun _ s₃ hq₃ => Prog.wp_get_bind ?_))
        refine Prog.wp_bind (Prog.wp_mono ((quiet_inodeSync _ _ _).wp hq₃) fun _ s₄ hq₄ => ?_)
        refine Prog.wp_bind (Prog.wp_mono ((quiet_bitmapSync _ _ _).wp hq₄) fun _ s₅ hq₅ => ?_)
        refine Prog.wp_bind (Prog.wp_modify (Prog.wp_get_bind (Prog.wp_bind
          (Prog.wp_of_run (putInode_run _ _ _) (Prog.wp_of_returns fun fd s' hrun => ?_)))))
        refine .inr ⟨a, g, no.toNat, _, hfresh, hslot₀, ?_, hrun⟩
        refine ⟨congrArg (a :: ·) hq₅.openInodes, hq₅.heap, hq₅.rootInode, hq₅.tasks, hq₅.cur,
          hq₅.fdInode, hq₅.fdFlag, fun b => ?_, fun b => ?_, fun b => ?_, hq₅.alike⟩
        · have := hq₅.iNo b
          by_cases hb : b = a
          · subst hb
            simpa [Fs.loaded, Fs.withFile, Fs.withInode] using this
          · simpa [Fs.loaded, Fs.withFile, Fs.withInode, hb] using this
        · have := hq₅.iOpenCnts b
          by_cases hb : b = a
          · simp [Fs.loaded, Fs.withFile, Fs.withInode, hb]
          · simpa [Fs.loaded, Fs.withFile, Fs.withInode, hb] using this
        · have := hq₅.writeDeny b
          by_cases hb : b = a
          · subst hb
            simpa [Fs.loaded, Fs.withFile, Fs.withInode] using this
          · simpa [Fs.loaded, Fs.withFile, Fs.withInode, hb] using this
      · refine Prog.wp_bind (Prog.wp_of_run (setFile_run _ _ _) ?_)
        refine Prog.wp_bind (Prog.wp_modify (Prog.wp_bind (Prog.wp_modify (Prog.wp_pure ?_))))
        refine .inl ⟨rfl, a, inodeInit no.toNat, hfresh, ?_⟩
        refine ⟨hq₂.openInodes, ?_, hq₂.rootInode, hq₂.tasks, hq₂.cur, fun i => ?_, fun i hi => ?_,
          hq₂.iNo, hq₂.iOpenCnts, hq₂.writeDeny, hq₂.alike.trans ⟨rfl, rfl, rfl⟩⟩
        · show s₂.heap.erase a = s.heap
          rw [hq₂.heap]
          exact Finset.erase_insert hfresh
        · by_cases hig : i = g
          · simp [Fs.withFile, Fs.withInode, hig, hempty]
          · simpa [Fs.withFile, Fs.withInode, hig] using hq₂.fdInode i
        · by_cases hig : i = g
          · simp [Fs.withFile, hig] at hi
          · simp only [Fs.withFile, hig, if_false] at hi ⊢
            simpa [Fs.withFile, Fs.withInode, hig] using hq₂.fdFlag i hi

end ZyOs
