/-
One writer at a time.

The flag `write_deny` is right in every state that calls lead to from the mounted
file system, provided three things do not happen on the way: a file is created with
a write flag, a file that is being written is opened for writing again, a file that
is being written is closed by one of its readers.  After each of them the flag is
wrong, and the last theorems show runs where it is.
-/
import ZyOs.Proofs.Tree

namespace ZyOs

open Library

variable {clean : Prop} {pins : Set (Nat × Nat × UInt32)} {env : FsEnv} {s s' : Fs}
  {a g no flag : Nat} {held : List Nat}

/-! ### `file_open` -/

theorem fileTable_of_inodeOpen (hrun : inodeOpen env no s = .ok (a, s')) :
    s'.fileTable = s.fileTable := by
  rcases inodeOpen_cases hrun with ⟨-, -, rfl⟩ | ⟨-, -, rfl⟩
  · rfl
  · rfl

/-- The inode `file_open` gets is not marked when nobody writes to it. -/
theorem Sound.opened_writeDeny (h : Sound clean pins s held) (hdisk : DiskClean s) (hc : clean)
    (hfree : ∀ g a, s.IsWriter g a → (s.inodes a).iNo.toNat ≠ no)
    (hrun : inodeOpen env no s = .ok (a, s')) : (s'.inodes a).writeDeny = false := by
  rcases inodeOpen_cases hrun with ⟨hmem, hno, rfl⟩ | ⟨hno, -, rfl⟩
  · rw [withInode_self]
    show (s.inodes a).writeDeny = false
    rw [← Bool.not_eq_true]
    intro hdeny
    obtain ⟨g, hg⟩ := ((h.exclusive hc).deny a hmem).mp hdeny
    exact hfree g a hg hno
  · show ((s.withInode a _).inodes a).writeDeny = false
    rw [withInode_self]
    exact hdisk no hno

/-- An entry without a write flag changes no writers. -/
theorem Sound.withReader (h : Sound clean pins s (a :: held)) (hg : g < maxFileOpen)
    (hfree : (s.fileTable g).fdInode = none) {f : File} (hf : f.fdInode = some a)
    (hflag : clean → writes f.fdFlag = false) : Sound clean pins (s.withFile g f) held := by
  refine ⟨h.counted.withFile hg hfree hf, fun hc => ?_, h.pinned.withFile (h.pinned.not_mem hfree)⟩
  refine (h.exclusive hc).of_writers (fun i b => ?_) fun b hb => Or.inl ⟨hb, rfl⟩
  rw [isWriter_withFile hg hfree hf, hflag hc]
  simp

/-- An entry with a write flag on an inode that is marked for it. -/
theorem Sound.withWriter (h : Sound clean pins s (a :: held)) (hg : g < maxFileOpen)
    (hfree : (s.fileTable g).fdInode = none) {f : File} (hf : f.fdInode = some a)
    (hflag : writes f.fdFlag = true) (hdeny : (s.inodes a).writeDeny = false) :
    Sound clean pins ((s.withFile g f).withInode a { s.inodes a with writeDeny := true }) held := by
  refine ⟨(h.counted.withFile hg hfree hf).withInode rfl, fun hc => ?_,
    (h.pinned.withFile (h.pinned.not_mem hfree)).withInode rfl⟩
  have hex := h.exclusive hc
  have hopen : a ∈ s.openInodes := (h.counted.counted a (by simp)).1
  have hnone : ∀ i, ¬ s.IsWriter i a := fun i hi => by
    have := (hex.deny a hopen).mpr ⟨i, hi⟩
    rw [hdeny] at this
    exact absurd this (by decide)
  have hw : ∀ i b, ((s.withFile g f).withInode a { s.inodes a with writeDeny := true }).IsWriter i b
      ↔ s.IsWriter i b ∨ (i = g ∧ b = a) := by
    intro i b
    show (s.withFile g f).IsWriter i b ↔ _
    rw [isWriter_withFile hg hfree hf, hflag]
    simp
  refine ⟨fun i i' b hi hi' => ?_, fun b hb => ?_⟩
  · rcases (hw i b).mp hi with hold | ⟨rfl, rfl⟩
    · rcases (hw i' b).mp hi' with hold' | ⟨-, rfl⟩
      · exact hex.unique i i' b hold hold'
      · exact absurd hold (hnone i)
    · rcases (hw i' b).mp hi' with hold' | ⟨rfl, -⟩
      · exact absurd hold' (hnone i')
      · rfl
  · by_cases hba : b = a
    · subst hba
      rw [withInode_self]
      exact ⟨fun _ => ⟨g, (hw g b).mpr (Or.inr ⟨rfl, rfl⟩)⟩, fun _ => rfl⟩
    · rw [withInode_ne _ _ _ _ hba]
      refine (hex.deny b hb).trans (exists_congr fun i => ?_)
      rw [hw]
      simp [hba]

/-- **`file_open` is sound where nobody writes to the file yet.** -/
theorem Sound.fileOpen (h : Sound clean pins s []) (hdisk : clean → DiskClean s)
    (hfree : clean → writes flag = true → getFreeSlotInGlobal s.fileTable ≠ none →
      ∀ g a, s.IsWriter g a → (s.inodes a).iNo.toNat ≠ no) :
    Prog.wp (fun _ => True) (fileOpen env no flag) (fun _ s' => Sound clean pins s' []) s := by
  refine Prog.wp_get_bind ?_
  cases hslot : getFreeSlotInGlobal s.fileTable with
  | none => exact Prog.wp_pure h
  | some g =>
      obtain ⟨hg, hempty⟩ := getFreeSlotInGlobal_some hslot
      refine Prog.wp_bind (Prog.wp_of_returns fun a s₁ hrun => ?_)
      have hs₁ := h.opened hdisk hrun
      have hempty₁ : (s₁.fileTable g).fdInode = none := by rw [fileTable_of_inodeOpen hrun, hempty]
      refine Prog.wp_bind (Prog.wp_of_run (setFile_run _ _ s₁) ?_)
      refine Prog.wp_ite (fun hflag => Prog.wp_get_bind ?_) fun hflag => ?_
      · -- the writers: only a file nobody writes to gets marked
        have hdeny : clean → (s₁.inodes a).writeDeny = false := fun hc =>
          h.opened_writeDeny (hdisk hc) hc (hfree hc hflag (by simp [hslot])) hrun
        refine Prog.wp_ite (fun hset => Prog.wp_pure ?_) fun hset => ?_
        · refine ⟨hs₁.counted.withFile hg hempty₁ rfl, fun hc => ?_,
            hs₁.pinned.withFile (hs₁.pinned.not_mem hempty₁)⟩
          exact absurd (hdeny hc) (by rw [show (s₁.inodes a).writeDeny = true from hset]; decide)
        · refine Prog.wp_bind (Prog.wp_of_run (putInode_run _ _ _) (Sound.wp_pcbFdInstall ?_ g))
          exact hs₁.withWriter hg hempty₁ rfl hflag (Bool.not_eq_true _ ▸ hset)
      · exact (hs₁.withReader hg hempty₁ rfl fun _ => by simpa using hflag).wp_pcbFdInstall g

/-! ### `file_close` -/

/-- Emptying an entry has nothing to do with closing the inode. -/
theorem withFile_closed (s : Fs) (a g : Nat) (f : File) :
    (s.closed a).withFile g f = (s.withFile g f).closed a := by
  unfold Fs.closed
  split <;> simp_all [Fs.withFile, Fs.withInode]

/-- The mark is cleared and the entry emptied, and no other entry writes to the file. -/
theorem Sound.withoutEntry (h : Sound clean pins s held) (hg : g < maxFileOpen)
    (hinode : (s.fileTable g).fdInode = some a)
    (hother : clean → ∀ g', s.IsWriter g' a → g' = g) (hpin : ∀ a no, (g, a, no) ∉ pins)
    {n : Inode} {f : File} (hno : n.iNo = (s.inodes a).iNo)
    (hcnt : n.iOpenCnts = (s.inodes a).iOpenCnts) (hn : n.writeDeny = false)
    (hf : f.fdInode = none) : Sound clean pins ((s.withInode a n).withFile g f) (a :: held) := by
  refine ⟨(h.counted.withInode hcnt).withoutFile hg hinode hf, fun hc => ?_,
    (h.pinned.withInode hno).withFile hpin⟩
  have hex := h.exclusive hc
  have hw : ∀ i b, ((s.withInode a n).withFile g f).IsWriter i b ↔ s.IsWriter i b ∧ i ≠ g := by
    intro i b
    by_cases hi : i = g
    · subst hi
      simp [Fs.IsWriter, hf]
    · simp only [Fs.IsWriter, withFile_ne _ _ _ _ hi, ne_eq, hi, not_false_eq_true, and_true]
      rfl
  refine ⟨fun i i' b hi hi' => hex.unique i i' b ((hw i b).mp hi).1 ((hw i' b).mp hi').1, ?_⟩
  intro b hb
  by_cases hba : b = a
  · subst hba
    show ((s.withInode b n).inodes b).writeDeny = true ↔ _
    rw [withInode_self, hn]
    refine ⟨fun hc' => absurd hc' (by decide), fun hex' => ?_⟩
    obtain ⟨i, hi⟩ := hex'
    exact absurd (hother hc i ((hw i b).mp hi).1) ((hw i b).mp hi).2
  · show ((s.withInode a n).inodes b).writeDeny = true ↔ _
    rw [withInode_ne _ _ _ _ hba]
    refine (hex.deny b hb).trans (exists_congr fun i => ?_)
    rw [hw]
    refine ⟨fun hi => ⟨hi, ?_⟩, And.left⟩
    rintro rfl
    rw [Fs.IsWriter, hinode] at hi
    exact hba (Option.some.inj hi.2.1).symm

/-- **`file_close` is sound when no other entry writes to the file.** -/
theorem Sound.fileClose (h : Sound clean pins s []) (hg : g < maxFileOpen)
    (hother : clean → ∀ a g', (s.fileTable g).fdInode = some a → s.IsWriter g' a → g' = g)
    (hpin : ∀ a no, (g, a, no) ∉ pins) : Prog.wp (fun _ => True) (fileClose g)
      (fun _ s' => Sound clean pins s' []) s := by
  refine Prog.wp_bind (Prog.wp_get_bind ?_)
  cases hinode : (s.fileTable g).fdInode with
  | none => exact Prog.wp_lift (fun _ hok => by simp at hok) fun _ _ => trivial
  | some a =>
      refine Prog.wp_pure (Prog.wp_get_bind ?_)
      refine Prog.wp_bind (Prog.wp_of_run (putInode_run _ _ _) ?_)
      refine Prog.wp_bind (Prog.wp_of_run (inodeClose_run _ _) (Prog.wp_get_bind ?_))
      refine Prog.wp_bind (Prog.wp_of_run (setFile_run _ _ _) (Prog.wp_pure ?_))
      rw [withFile_closed]
      have hsound := h.withoutEntry hg hinode (fun hc g' => hother hc a g' hinode) hpin
        (n := { s.inodes a with writeDeny := false })
        (f := { ((s.withInode a { s.inodes a with writeDeny := false }).closed a).fileTable g with
          fdInode := none }) rfl rfl rfl rfl
      have hclosed := hsound.closed List.mem_cons_self
      rw [List.erase_cons_head] at hclosed
      exact hclosed

/-! ### `file_create` -/

/-- A place nobody allocated may be written. -/
theorem Sound.withUnused (h : Sound clean pins s held) (hfresh : a ∉ s.heap) (n : Inode) :
    Sound clean pins (s.withInode a n) held := by
  have hzero := h.counted.unused hfresh
  have hne : ∀ b ∈ s.openInodes, b ≠ a := by
    rintro b hb rfl
    exact hfresh (h.counted.heap b hb)
  refine ⟨⟨h.counted.nodup, h.counted.heap, fun b hb => ?_⟩, fun hc => ?_,
    h.pinned.mono fun g b _ _ hg hb => ⟨hb, ?_⟩⟩
  · rw [uses_withInode] at hb ⊢
    obtain ⟨h1, h2⟩ := h.counted.counted b hb
    rw [withInode_ne _ _ _ _ (hne b h1)]
    exact ⟨h1, h2⟩
  · refine (h.exclusive hc).of_writers (fun _ _ => Iff.rfl) fun b hb => Or.inl ⟨hb, ?_⟩
    rw [withInode_ne _ _ _ _ (hne b hb)]
  · rw [withInode_ne _ _ _ _ (h.counted.ne_of_fdInode hfresh hg hb)]

/-- **`file_create` is sound without a write flag.** -/
theorem Sound.fileCreate (h : Sound clean pins s held) {parent : Nat} {filename : List UInt8}
    (hflag : clean → getFreeSlotInGlobal s.fileTable ≠ none → writes flag = false) :
    Prog.wp (fun _ => True) (fileCreate env parent filename flag)
      (fun _ s' => Sound clean pins s' held) s := by
  refine Prog.wp_mono (fileCreate_cases env parent filename flag s) fun fd s' hcases => ?_
  rcases hcases with ⟨-, a, n, hfresh, hq⟩ | ⟨a, g, no, s₁, hfresh, hslot, hq, hrun⟩
  · exact (h.withUnused hfresh n).quiet hq
  · obtain ⟨hg, hempty⟩ := getFreeSlotInGlobal_some hslot
    have hsound := (h.loaded hfresh (n := inodeInit no) fun _ => rfl).withReader hg hempty
      (f := ⟨0, flag, some a⟩) rfl fun hc => hflag hc (by simp [hslot])
    exact ((hsound.quiet hq).wp_pcbFdInstall g).of_run hrun

/-! ### Calls -/

/-- An open that keeps the writers apart: no inode is stored with its mark set, a file is
created without a write flag and by a kernel thread, and a file opened for writing has no
writer. -/
structure OpenOk (env : FsEnv) (s : Fs) (pathname : List UInt8) (flags : Nat) : Prop where
  disk : DiskClean s
  create : ∀ d s', openPlan env pathname flags s = .ok (.create d, s') →
    getFreeSlotInGlobal s.fileTable ≠ none →
    writes flags = false ∧ (s.tasks s.cur).pgDir = false
  existing : ∀ no s', openPlan env pathname flags s = .ok (.existing no, s') →
    getFreeSlotInGlobal s.fileTable ≠ none → writes flags = true →
    ∀ g a, s.IsWriter g a → (s.inodes a).iNo.toNat ≠ no

/-- A close that keeps them apart: no entry but the one that is closed writes to the file. -/
def CloseOk (s : Fs) (fd : Int) : Prop :=
  ∀ g : Nat, 2 < fd → (s.tasks s.cur).fdTable fd.toNat = g →
    ∀ a g', (s.fileTable g).fdInode = some a → s.IsWriter g' a → g' = g

/-- The condition on a call of the running task. -/
def CallOk (env : FsEnv) (s : Fs) : FsCall → Prop
  | .open pathname flags => OpenOk env s pathname flags
  | .close fd => CloseOk s fd
  | _ => True

/-- The entry a close is about is not pinned. -/
def ClosesNoPin (pins : Set (Nat × Nat × UInt32)) (s : Fs) (fd : Int) : Prop :=
  ∀ g : Nat, 2 < fd → fd.toNat < maxFilesOpenPerProc → (s.tasks s.cur).fdTable fd.toNat = g →
    ∀ a no, (g, a, no) ∉ pins

theorem Sound.sysOpen (h : Sound clean pins s []) {pathname : List UInt8} {flags : Nat}
    (hok : clean → OpenOk env s pathname flags) :
    Prog.wp (fun _ => True) (sysOpen env pathname flags)
      (fun _ s' => Sound clean pins s' []) s := by
  have hdisk : clean → DiskClean s := fun hc => (hok hc).disk
  refine Prog.wp_bind (Prog.wp_of_returns fun plan s₁ hrun => ?_)
  have hlook : Looking clean pins s s₁ plan.opens :=
    (Looking.openPlan h hdisk pathname flags).of_run hrun
  cases plan with
  | refuse => exact Prog.wp_pure hlook.sound
  | create d =>
      have hflag : clean → getFreeSlotInGlobal s₁.fileTable ≠ none → writes flags = false := by
        rw [hlook.fileTable]
        exact fun hc hslot => ((hok hc).create d s₁ hrun hslot).1
      refine Prog.wp_get_bind (Prog.wp_bind (Prog.wp_mono (hlook.sound.fileCreate hflag)
        fun fd s₂ h₂ => ?_))
      refine Prog.wp_bind (Prog.wp_mono (Q := fun _ s' => Sound clean pins s' []) ?_
        fun _ _ h₃ => Prog.wp_pure h₃)
      cases d with
      | root => exact Prog.wp_pure h₂
      | opened a =>
          refine Prog.wp_of_run (inodeClose_run a s₂) ?_
          have hclosed := h₂.closed (show a ∈ OpenPlan.opens (.create (.opened a)) from
            List.mem_singleton_self a)
          rw [show (OpenPlan.opens (.create (.opened a))).erase a = [] from
            List.erase_cons_head ..] at hclosed
          exact hclosed
  | existing no =>
      refine Sound.fileOpen hlook.sound (fun hc => hlook.diskClean (hdisk hc)) ?_
      intro hc hflag hslot g a hg
      have hw : s.IsWriter g a := by
        rw [Fs.IsWriter, ← hlook.fileTable]
        exact hg
      rw [hlook.iNo a (uses_pos hw.1 hw.2.1)]
      rw [hlook.fileTable] at hslot
      exact (hok hc).existing no s₁ hrun hslot hflag g a hw

theorem reads_fdLocalToGlobal (fd : Nat) : ReadsOnly (fdLocalToGlobal fd) := by
  refine fun P => Prog.Preserves.get_bind fun _ _ => Prog.Preserves.ite (fun _ => ?_) fun _ => ?_
  · exact Prog.Preserves.bind (reads_assertFs _ _ _ P) fun _ => Prog.Preserves.pure _
  · exact Prog.Preserves.lift _

/-- The index of a descriptor's entry, when there is one. -/
theorem fdLocalToGlobal_run {fd : Nat} (h : fdLocalToGlobal fd s = .ok (g, s')) :
    fd < maxFilesOpenPerProc ∧ g < maxFileOpen ∧ (s.tasks s.cur).fdTable fd = g ∧ s' = s := by
  simp only [fdLocalToGlobal] at h
  rw [Prog.bind_of_run (Prog.get_run s)] at h
  by_cases hfd : fd < maxFilesOpenPerProc
  · rw [if_pos hfd] at h
    obtain ⟨_, s₁, h1, h2⟩ := Prog.bind_run.mp h
    obtain ⟨hrange, rfl⟩ := assertFs_ok h1
    rw [Prog.pure_run, Except.ok.injEq, Prod.mk.injEq] at h2
    obtain ⟨rfl, rfl⟩ := h2
    exact ⟨hfd, by omega, by omega, rfl⟩
  · rw [if_neg hfd] at h
    exact absurd (Prog.lift_run.mp h).1 (by simp)

theorem Sound.sysClose (h : Sound clean pins s []) {fd : Int} (hok : clean → CloseOk s fd)
    (hpin : ClosesNoPin pins s fd) :
    Prog.wp (fun _ => True) (sysClose fd) (fun _ s' => Sound clean pins s' []) s := by
  refine Prog.wp_ite (fun hfd => ?_) fun _ => Prog.wp_pure h
  refine Prog.wp_bind (Prog.wp_of_returns fun g s₁ hrun => ?_)
  obtain ⟨hlt, hg, hentry, rfl⟩ := fdLocalToGlobal_run hrun
  refine Prog.wp_bind (Prog.wp_mono (h.fileClose hg (fun hc => hok hc g hfd hentry)
    (hpin g hfd hlt hentry)) fun res s₂ h₂ => ?_)
  exact Prog.wp_bind (Prog.wp_get_bind (h₂.tasks _))

theorem quiet_sysWrite (fd : Int) (buf : Mem) (count : Nat) :
    KeepsQuiet (sysWrite fd buf count) := by
  refine fun s₀ => Prog.Preserves.ite (fun _ => Prog.Preserves.pure _) fun _ =>
    Prog.Preserves.ite (fun _ => ?_) fun _ => ?_
  · exact Prog.Preserves.ite (fun _ => Prog.Preserves.pure _) fun _ => Prog.Preserves.lift _
  · refine Prog.Preserves.bind (reads_fdLocalToGlobal _ _) fun _ =>
      Prog.Preserves.get_bind fun _ _ => Prog.Preserves.ite (fun _ => ?_) fun _ => ?_
    · exact quiet_fileWrite _ _ _ s₀
    · exact Prog.Preserves.pure _

theorem quiet_sysRead (keys : Mem) (fd : Int) (buf : Mem) (count : Nat) :
    KeepsQuiet (sysRead keys fd buf count) := by
  refine fun s₀ => Prog.Preserves.ite (fun _ => Prog.Preserves.pure _) fun _ =>
    Prog.Preserves.ite (fun _ => Prog.Preserves.pure _) fun _ => ?_
  exact Prog.Preserves.bind (reads_fdLocalToGlobal _ _) fun _ => quiet_fileRead _ _ _ s₀

theorem quiet_sysLseek (fd offset : Int) (whence : Nat) :
    KeepsQuiet (sysLseek fd offset whence) := by
  refine fun s₀ => Prog.Preserves.ite (fun _ => Prog.Preserves.pure _) fun _ => ?_
  refine Prog.Preserves.bind (reads_assertFs _ _ _ _) fun _ =>
    Prog.Preserves.bind (reads_fdLocalToGlobal _ _) fun _ =>
    Prog.Preserves.bind (reads_fdInodeOf _ _ _) fun _ => Prog.Preserves.get_bind fun _ _ => ?_
  refine Prog.Preserves.ite (fun _ => Prog.Preserves.pure _) fun _ => ?_
  exact Prog.Preserves.bind (quiet_setFdPos _ _ s₀) fun _ => Prog.Preserves.pure _

/-- **A call keeps the count, and under its condition the writers.** -/
theorem Sound.exec (h : Sound clean pins s []) (c : FsCall) (hok : clean → CallOk env s c)
    (hpin : ∀ fd, c = .close fd → ClosesNoPin pins s fd) :
    Prog.wp (fun _ => True) (c.exec env) (fun _ s' => Sound clean pins s' []) s := by
  cases c with
  | «open» pathname flags =>
      exact Prog.wp_bind (Prog.wp_mono (h.sysOpen hok) fun _ _ h' => Prog.wp_pure h')
  | close fd =>
      exact Prog.wp_bind (Prog.wp_mono (h.sysClose hok (hpin fd rfl)) fun _ _ h' => Prog.wp_pure h')
  | read keys fd buf count =>
      exact Prog.wp_bind (Prog.wp_mono ((quiet_sysRead keys fd buf count s).wp (Quiet.refl s))
        fun _ _ hq => Prog.wp_pure (h.quiet hq))
  | write fd buf count =>
      exact Prog.wp_bind (Prog.wp_mono ((quiet_sysWrite fd buf count s).wp (Quiet.refl s))
        fun _ _ hq => Prog.wp_pure (h.quiet hq))
  | lseek fd offset whence =>
      exact Prog.wp_bind (Prog.wp_mono ((quiet_sysLseek fd offset whence s).wp (Quiet.refl s))
        fun _ _ hq => Prog.wp_pure (h.quiet hq))

/-! ### The disk -/

/-- Opening a file only reads the disk. -/
theorem fileOpen_disk {flag : Nat} {fd : Int} (hrun : fileOpen env no flag s = .ok (fd, s')) :
    s'.disk = s.disk ∧ s'.part = s.part := by
  refine Prog.wp.of_run (E := fun _ => True) (Q := fun _ s' => s'.disk = s.disk ∧ s'.part = s.part)
    (Prog.wp_get_bind ?_) hrun
  cases getFreeSlotInGlobal s.fileTable with
  | none => exact Prog.wp_pure ⟨rfl, rfl⟩
  | some g =>
      refine Prog.wp_bind (Prog.wp_of_returns fun a s₁ hopen => ?_)
      have h₁ : s₁.disk = s.disk ∧ s₁.part = s.part := by
        rcases inodeOpen_cases hopen with ⟨-, -, rfl⟩ | ⟨-, -, rfl⟩
        · exact ⟨rfl, rfl⟩
        · exact ⟨rfl, rfl⟩
      have hinstall : ∀ s₂, s₂.disk = s.disk ∧ s₂.part = s.part → Prog.wp (fun _ => True)
          (pcbFdInstall g) (fun _ s' => s'.disk = s.disk ∧ s'.part = s.part) s₂ := by
        refine fun s₂ h₂ => Prog.wp_of_returns fun fd s₃ hrun => ?_
        obtain ⟨f, rfl⟩ := pcbFdInstall_tasks hrun
        exact h₂
      refine Prog.wp_bind (Prog.wp_of_run (setFile_run g _ s₁) ?_)
      refine Prog.wp_ite (fun _ => Prog.wp_get_bind (Prog.wp_ite (fun _ => ?_) fun _ => ?_))
        fun _ => hinstall _ h₁
      · exact Prog.wp_pure h₁
      · exact Prog.wp_bind (Prog.wp_of_run (putInode_run ..) (hinstall _ h₁))

/-- Opening a file that is there leaves the disk as it was. -/
theorem DiskClean.openExisting (h : DiskClean s) (hsound : Sound True pins s [])
    {pathname : List UInt8} {flags : Nat} {s₁ : Fs}
    (hplan : openPlan env pathname flags s = .ok (.existing no, s₁))
    (hrun : (FsCall.open pathname flags).exec env s = .ok ((), s')) : DiskClean s' := by
  have hlook : Looking True pins s s₁ _ :=
    (Looking.openPlan hsound (fun _ => h) pathname flags).of_run hplan
  obtain ⟨fd, s₂, hopen, hret⟩ := Prog.bind_run.mp hrun
  obtain rfl := (Prod.mk.inj (Except.ok.inj hret)).2
  rw [sysOpen, Prog.bind_of_run hplan] at hopen
  obtain ⟨hdisk, hpart⟩ := fileOpen_disk hopen
  intro n hn
  rw [diskInode, hdisk, hpart]
  exact hlook.diskClean h n hn

/-- What `inode_sync` puts in a slot has no mark. -/
theorem DiskClean.slot (h : DiskClean s) {m : Nat} (n : Inode) :
    DiskClean { s with disk := s.disk.splice (slotAddr s.part m) n.pureMem Inode.size } := by
  intro no hno
  have hold : (getWord s.disk (slotAddr s.part no + 12) != 0) = false := by
    rw [← getWord_drop]
    exact h no hno
  show (getWord ((s.disk.splice _ _ _).drop (slotAddr s.part no)) 12 != 0) = false
  rw [getWord_drop]
  by_cases hm : m = no
  · subst hm
    have hword : getWord (s.disk.splice (slotAddr s.part m) n.pureMem Inode.size)
        (slotAddr s.part m + 12) = getWord n.pureMem 12 := by
      refine getWord_congr fun j hj => ?_
      rw [Nat.add_assoc]
      exact Mem.splice_at (show 12 + j < 76 by omega)
    rw [hword, show getWord n.pureMem 12 = 0 from getWord_ofWords _ 3]
    rfl
  · have hsame : getWord (s.disk.splice (slotAddr s.part m) n.pureMem Inode.size)
        (slotAddr s.part no + 12) = getWord s.disk (slotAddr s.part no + 12) := by
      refine getWord_congr fun j hj => Mem.splice_out ?_
      unfold slotAddr Inode.size
      omega
    rw [hsame]
    exact hold

/-- Nor does a write behind the table make one. -/
theorem DiskClean.data (h : DiskClean s) {addr len : Nat} {src : Mem}
    (haddr : slotAddr s.part 4096 ≤ addr) :
    DiskClean { s with disk := s.disk.splice addr src len } := by
  intro no hno
  refine (congrArg Inode.writeDeny (Inode.ofMem_congr fun j hj => ?_)).trans (h no hno)
  refine Mem.splice_out (.inl ?_)
  unfold slotAddr at haddr ⊢
  have : j < 76 := hj
  show _ + Inode.size * no + j < addr
  simp only [Inode.size] at haddr ⊢
  omega

/-! ### Runs -/

/-- The tables before the file system is mounted: nothing is open. -/
structure Booted (s : Fs) : Prop where
  openInodes : s.openInodes = []
  fileTable : ∀ g < maxFileOpen, (s.fileTable g).fdInode = none

/-- The file system has just been mounted. -/
def Mounted (env : FsEnv) (s : Fs) : Prop := ∃ s₀, Booted s₀ ∧ filesysInit env s₀ = .ok ((), s)

/-- The states calls of any tasks lead to from `s₀`, each call meeting the condition. -/
inductive FsRun (env : FsEnv) (Ok : Fs → FsCall → Prop) (s₀ : Fs) : Fs → Prop where
  | mounted : FsRun env Ok s₀ s₀
  | call {s s' : Fs} (t : Nat) (c : FsCall) : FsRun env Ok s₀ s → Ok { s with cur := t } c →
      c.execBy env t s = .ok ((), s') → FsRun env Ok s₀ s'

/-- The state after the mount: the root directory's inode has been read to `a`. -/
def Fs.mounted (s : Fs) (a : Nat) (n : Inode) : Fs :=
  { s.loaded a n with rootInode := a, fileTable := clearTable s.fileTable }

theorem Mounted.eq (h : Mounted env s) :
    ∃ s₀ a no, Booted s₀ ∧ no < 4096 ∧ s = s₀.mounted a (diskInode s₀ no) := by
  obtain ⟨s₀, hboot, hrun⟩ := h
  obtain ⟨_, s₁, h1, h2⟩ := Prog.bind_run.mp hrun
  obtain rfl := (Prod.mk.inj (Except.ok.inj h2)).2
  simp only [openRootDir] at h1
  rw [Prog.bind_of_run (Prog.get_run s₀)] at h1
  obtain ⟨a, s₂, hopen, h3⟩ := Prog.bind_run.mp h1
  obtain rfl := (Prod.mk.inj (Except.ok.inj h3)).2
  rcases inodeOpen_cases hopen with ⟨hmem, -, -⟩ | ⟨hno, -, rfl⟩
  · rw [hboot.openInodes] at hmem
    exact absurd hmem (by simp)
  · exact ⟨s₀, a, _, hboot, hno, rfl⟩

theorem Booted.mounted_fdInode (h : Booted s) (a : Nat) (n : Inode) :
    ∀ g < maxFileOpen, ((s.mounted a n).fileTable g).fdInode = none := by
  intro g hg
  show (clearTable s.fileTable g).fdInode = none
  unfold clearTable
  split
  · rfl
  · exact h.fileTable g hg

/-- After the mount only the root directory is open. -/
theorem Mounted.sound (h : Mounted env s) (hdisk : clean → DiskClean s) : Sound clean ∅ s [] := by
  obtain ⟨s₀, a, no, hboot, hno, rfl⟩ := h.eq
  have hdeny : clean → (diskInode s₀ no).writeDeny = false := fun hc => hdisk hc no hno
  generalize diskInode s₀ no = n at hdeny ⊢
  have hnone := hboot.mounted_fdInode a n
  have hopen : (s₀.mounted a n).openInodes = [a] := congrArg (a :: ·) hboot.openInodes
  have hinode : (s₀.mounted a n).inodes a = { n with iOpenCnts := 1 } := withInode_self ..
  have hnowriter : ∀ g b, ¬ (s₀.mounted a n).IsWriter g b := by
    rintro g b ⟨hg, hsome, -⟩
    rw [hnone g hg] at hsome
    exact absurd hsome (by simp)
  have huses : ∀ b, (s₀.mounted a n).uses b = if a = b then 1 else 0 := by
    intro b
    rw [Fs.uses, Finset.card_eq_zero.mpr, Nat.zero_add]
    · rfl
    refine Finset.filter_eq_empty_iff.mpr fun g hg => ?_
    rw [hnone g (Finset.mem_range.mp hg)]
    simp
  refine ⟨⟨?_, fun b hb => ?_, fun b hb => ?_⟩, fun hc => ⟨?_, fun b hb => ?_⟩,
    fun _ _ _ hmem => absurd hmem (Set.notMem_empty _)⟩
  · rw [hopen]
    exact List.nodup_singleton a
  · rw [hopen, List.mem_singleton] at hb
    exact hb ▸ Finset.mem_insert_self _ _
  · -- the only user there is is the root directory
    rw [List.count_nil, Nat.add_zero, huses] at hb ⊢
    by_cases hba : a = b
    · subst hba
      rw [hopen, hinode, if_pos rfl]
      exact ⟨List.mem_singleton_self a, le_rfl⟩
    · rw [if_neg hba] at hb
      exact absurd hb (by decide)
  · exact fun g g' b hg => absurd hg (hnowriter g b)
  · rw [hopen, List.mem_singleton] at hb
    rw [hb, hinode]
    simp [hdeny hc, hnowriter]

/-- Every run keeps the count, and a run that meets the conditions the writers. -/
theorem FsRun.sound {Ok : Fs → FsCall → Prop} {s₀ : Fs} (h₀ : Sound clean ∅ s₀ [])
    (hok : ∀ s c, clean → Ok s c → CallOk env s c) (h : FsRun env Ok s₀ s) :
    Sound clean ∅ s [] := by
  induction h with
  | mounted => exact h₀
  | call t c _ hcond hrun ih =>
      have hexec : Prog.wp (fun _ => True) (c.execBy env t) (fun _ s' => Sound clean ∅ s' []) _ :=
        Prog.wp_bind (Prog.wp_modify ((ih.cur t).exec c (fun hc => hok _ _ hc hcond)
          fun _ _ _ _ _ _ _ _ => Set.notMem_empty _))
      exact hexec.of_run hrun

/-- **In every run whose calls meet the condition there is at most one writer, and `write_deny`
says whether there is one.**  The inodes it is said of are all that entries refer to. -/
theorem exclusive_writer_runs (env : FsEnv) (s₀ s : Fs) (h₀ : Mounted env s₀)
    (hdisk : DiskClean s₀) (h : FsRun env (CallOk env) s₀ s) : ExclusiveWriter s ∧
      ∀ g a, g < maxFileOpen → (s.fileTable g).fdInode = some a → a ∈ s.openInodes := by
  have hsound : Sound True ∅ s [] := h.sound (h₀.sound fun _ => hdisk) fun _ _ _ hok => hok
  refine ⟨hsound.exclusive trivial, fun g a hg hinode => ?_⟩
  have hpos := uses_pos hg hinode
  exact (hsound.counted.counted a (by omega)).1

/-! ### A run with a writer and a reader -/

/-- Where a program that returns ends. -/
def stateAfter (x : FsM Unit) (s : Fs) : Fs :=
  match x s with
  | .ok (_, s') => s'
  | .error _ => s

/-- Whether it returns. -/
def returns (x : FsM Unit) (s : Fs) : Bool :=
  match x s with
  | .ok _ => true
  | .error _ => false

theorem run_stateAfter {x : FsM Unit} (h : returns x s = true) :
    x s = .ok ((), stateAfter x s) := by
  unfold returns at h
  unfold stateAfter
  cases hx : x s with
  | error e => simp [hx] at h
  | ok r => rfl

theorem smallFs_diskClean : DiskClean smallFs := by
  have hclean : DiskClean emptyFs := fun _ _ => rfl
  have htable : DiskClean { emptyFs with disk := _ } :=
    ((hclean.slot (m := 0) (inodeWith 0 96 612)).slot (m := 1) (inodeWith 1 48 613)).slot
      (m := 2) (inodeInit 2)
  have hdata : DiskClean { emptyFs with disk := smallDisk } :=
    (((((htable.data (by decide)).data (by decide)).data (by decide)).data (by decide)).data
      (by decide)).data (by decide)
  exact hdata

/-- The small volume before the mount. -/
def unmountedFs : Fs := { smallFs with openInodes := [], heap := ∅ }

/-- And after it. -/
def smallMountedFs : Fs := stateAfter (filesysInit upwardEnv) unmountedFs

/-- `open("/f", flags)` -/
def openSmallFile (flags : Nat) : FsCall := .open [47, 102] flags

/-- Task 0 has opened the file for reading and writing. -/
def oneWriterFs : Fs := stateAfter ((openSmallFile 2).execBy upwardEnv 0) smallMountedFs

/-- And task 1 has opened it for reading. -/
def readerBesideFs : Fs := stateAfter ((openSmallFile 0).execBy upwardEnv 1) oneWriterFs

/-- The writer has closed it. -/
def writerGoneFs : Fs := stateAfter ((FsCall.close 3).execBy upwardEnv 0) readerBesideFs

/-- The path leads to a file that is there. -/
def leadsToFile (s : Fs) (flags : Nat) : Bool :=
  match openPlan upwardEnv [47, 102] flags s with
  | .ok (.existing _, _) => true
  | _ => false

theorem leadsToFile_plan {flags : Nat} (h : leadsToFile s flags = true) :
    ∃ no s', openPlan upwardEnv [47, 102] flags s = .ok (.existing no, s') := by
  unfold leadsToFile at h
  split at h
  · exact ⟨_, _, ‹_›⟩
  · cases h

theorem openOk_of_unwritten {flags : Nat} (hdisk : DiskClean s)
    (hplan : leadsToFile s flags = true)
    (hfree : writes flags = true → ∀ g < maxFileOpen, writes (s.fileTable g).fdFlag = false) :
    OpenOk upwardEnv s [47, 102] flags := by
  refine ⟨hdisk, fun d s' hrun _ => ?_, fun no s' _ _ hw g a hg => ?_⟩
  · obtain ⟨no, s₁, hexisting⟩ := leadsToFile_plan hplan
    cases hexisting.symm.trans hrun
  · exact absurd (hg.2.2.symm.trans (hfree hw g hg.1)) (by decide)

/-- A file is opened by a writer, then by a reader, and the writer closes it. -/
theorem exclusive_writer_reader_beside : Mounted upwardEnv smallMountedFs ∧
    DiskClean smallMountedFs ∧
    (FsRun upwardEnv (CallOk upwardEnv) smallMountedFs readerBesideFs ∧
      ExclusiveWriter readerBesideFs ∧ readerBesideFs.IsWriter 3 2 ∧
      (readerBesideFs.fileTable 4).fdInode = some 2 ∧ ¬ readerBesideFs.IsWriter 4 2 ∧
      (readerBesideFs.inodes 2).writeDeny = true) ∧
    FsRun upwardEnv (CallOk upwardEnv) smallMountedFs writerGoneFs ∧
      ExclusiveWriter writerGoneFs ∧ (writerGoneFs.fileTable 4).fdInode = some 2 ∧
      (writerGoneFs.inodes 2).writeDeny = false := by
  obtain ⟨hinit, hopen, hbeside, hclose, hplan, hplan', hnone, honly, hflags, hentries, hmarks⟩ :
      returns (filesysInit upwardEnv) unmountedFs = true ∧
      returns ((openSmallFile 2).execBy upwardEnv 0) smallMountedFs = true ∧
      returns ((openSmallFile 0).execBy upwardEnv 1) oneWriterFs = true ∧
      returns ((FsCall.close 3).execBy upwardEnv 0) readerBesideFs = true ∧
      leadsToFile { smallMountedFs with cur := 0 } 2 = true ∧
      leadsToFile { oneWriterFs with cur := 1 } 0 = true ∧
      (∀ g < maxFileOpen, writes (smallMountedFs.fileTable g).fdFlag = false) ∧
      (∀ g < maxFileOpen, writes (readerBesideFs.fileTable g).fdFlag = true → g = 3) ∧
      (writes (readerBesideFs.fileTable 3).fdFlag = true ∧ (readerBesideFs.tasks 0).fdTable 3 = 3) ∧
      ((readerBesideFs.fileTable 3).fdInode = some 2 ∧
        (readerBesideFs.fileTable 4).fdInode = some 2 ∧
        (writerGoneFs.fileTable 4).fdInode = some 2) ∧
      (readerBesideFs.inodes 2).writeDeny = true ∧ (writerGoneFs.inodes 2).writeDeny = false := by
    decide +kernel
  have hmounted : Mounted upwardEnv smallMountedFs :=
    ⟨unmountedFs, ⟨rfl, fun _ _ => rfl⟩, run_stateAfter hinit⟩
  have hclean : DiskClean smallMountedFs := smallFs_diskClean
  have hclean' : DiskClean oneWriterFs := by
    obtain ⟨no, s₁, hexisting⟩ := leadsToFile_plan hplan
    exact DiskClean.openExisting (s := { smallMountedFs with cur := 0 }) hclean
      ((hmounted.sound fun _ => hclean).cur 0) hexisting (run_stateAfter hopen)
  have hrun : FsRun upwardEnv (CallOk upwardEnv) smallMountedFs readerBesideFs := by
    refine .call 1 _ (.call 0 _ .mounted ?_ (run_stateAfter hopen)) ?_ (run_stateAfter hbeside)
    · exact openOk_of_unwritten hclean hplan fun _ => hnone
    · exact openOk_of_unwritten hclean' hplan' fun hw => absurd hw (by decide)
  have hgone : FsRun upwardEnv (CallOk upwardEnv) smallMountedFs writerGoneFs := by
    refine .call 0 (.close 3) hrun (fun g _ hg a g' _ hw => ?_) (run_stateAfter hclose)
    rw [honly g' hw.1 hw.2.2]
    exact Int.ofNat_inj.mp (hflags.2.symm.trans hg)
  refine ⟨hmounted, hclean, ⟨hrun, ?_, ⟨by decide, hentries.1, hflags.1⟩, hentries.2.1,
    fun hw => absurd (honly 4 hw.1 hw.2.2) (by decide), hmarks.1⟩, hgone, ?_, hentries.2.2,
    hmarks.2⟩
  · exact (exclusive_writer_runs upwardEnv _ _ hmounted hclean hrun).1
  · exact (exclusive_writer_runs upwardEnv _ _ hmounted hclean hgone).1

/-! ### A run with a mark that is missing -/

/-- The empty partition, mounted. -/
def mountedFs : Fs := stateAfter (filesysInit upwardEnv) emptyFs

theorem mountedFs_mounted : Mounted upwardEnv mountedFs :=
  ⟨emptyFs, ⟨rfl, fun _ _ => rfl⟩, run_stateAfter (by decide +kernel)⟩

theorem mountedFs_diskClean : DiskClean mountedFs := fun _ _ => rfl

/-- `open("/a", O_CREAT | O_RDWR)` -/
def createForWriting : FsCall := .open [47, 97] 6

/-- The state it leads to. -/
def createdFs : Fs := stateAfter (createForWriting.execBy upwardEnv 0) mountedFs

theorem createdFs_run : createForWriting.execBy upwardEnv 0 mountedFs = .ok ((), createdFs) :=
  run_stateAfter (by decide +kernel)

/-- `open("/a", O_CREAT)` -/
def createForReading : FsCall := .open [47, 97] 4

/-- A file that is created for writing has a writer and no mark. -/
theorem exclusive_writer_not_after_create : Mounted upwardEnv mountedFs ∧
    DiskClean mountedFs ∧ FsRun upwardEnv (fun _ _ => True) mountedFs createdFs ∧
    ¬ ExclusiveWriter createdFs := by
  refine ⟨mountedFs_mounted, mountedFs_diskClean,
    FsRun.call 0 _ FsRun.mounted trivial createdFs_run, fun h => ?_⟩
  have hopen : 2 ∈ createdFs.openInodes := by decide +kernel
  have hwriter : createdFs.IsWriter 3 2 := by
    refine ⟨by decide, ?_, ?_⟩
    · decide +kernel
    · decide +kernel
  have hdeny := (h.deny 2 hopen).mpr ⟨3, hwriter⟩
  exact absurd hdeny (by decide +kernel)

end ZyOs
