/-
What the calls on a descriptor do with one that is not open.

Three entries of the file table are set aside for the standard descriptors and have no inode.
`sys_write` gets to such an entry and sees in its flags that nothing may be written; that they
stay as they are is the invariant.  The other calls look at the inode at once.
-/
import ZyOs.Kernel.Format
import ZyOs.Proofs.FailedOpen

namespace ZyOs

open Library Library.Prog

variable {env : FsEnv} {s₀ s s' : Fs} {handles : List DirPtr}

/-! ### Code that leaves the tables alone -/

/-- A property of the file table and of the descriptors that knows nothing of the cursors. -/
structure OfTables (P : Fs → Prop) : Prop where
  congr : ∀ {s s' : Fs}, s'.fileTable = s.fileTable →
    (∀ t, (s'.tasks t).fdTable = (s.tasks t).fdTable) → P s → P s'
  pos : ∀ fd pos, Preserves P (setFdPos fd pos)

namespace OfTables

variable {P : Fs → Prop} (h : OfTables P)
include h

theorem transfers : Transfers P where
  disk := fun _ => h.congr rfl fun _ => rfl
  part := fun _ _ => h.congr rfl fun _ => rfl
  sector := fun _ _ _ _ => Preserves.modify fun _ => h.congr rfl fun _ => rfl
  inode := fun _ _ _ _ _ _ => Preserves.modify fun _ => h.congr rfl fun _ => rfl
  pos := h.pos

theorem modify {f : Fs → Fs} (hfile : ∀ s, (f s).fileTable = s.fileTable)
    (htasks : ∀ s t, ((f s).tasks t).fdTable = (s.tasks t).fdTable) :
    Preserves P (modify f : FsM Unit) :=
  Preserves.modify fun s => h.congr (hfile s) (htasks s)

theorem putInode (a : Nat) (n : Inode) : Preserves P (putInode a n) :=
  h.modify (fun _ => rfl) fun _ _ => rfl

theorem freeInode (a : Nat) : Preserves P (freeInode a) := h.modify (fun _ => rfl) fun _ _ => rfl

/-- Opening and closing inodes. -/
theorem tracks : Tracks env (fun _ => P) where
  opened := by
    intro _ s s' no a hs hrun
    rcases inodeOpen_cases hrun with ⟨-, -, rfl⟩ | ⟨-, -, rfl⟩
    · exact h.congr (s := s) rfl (fun _ => rfl) hs
    · exact h.congr (s := s) rfl (fun _ => rfl) hs
  closed := by
    intro _ s a hs
    obtain ⟨hfile, -, htasks, -⟩ := closed_rest s a
    exact h.congr hfile (fun t => by rw [htasks]) hs

theorem inodeOpen (no : Nat) : Preserves P (inodeOpen env no) :=
  fun _ _ _ hs hrun => @Tracks.opened env _ h.tracks [] _ _ _ _ hs hrun

theorem inodeClose (a : Nat) : Preserves P (inodeClose a) :=
  Preserves.of_wp fun s hs => wp_of_run (inodeClose_run a s)
    (@Tracks.closed upwardEnv _ h.tracks [] _ _ hs)

theorem dirOpen (no : Nat) : Preserves P (dirOpen env no) :=
  Preserves.of_wp fun _ hs => @Tracks.dirOpen env _ _ [] h.tracks hs no

theorem dirClose (d : DirPtr) : Preserves P (dirClose d) :=
  Preserves.of_wp fun _ hs => @Tracks.dirClose upwardEnv _ _ [] h.tracks _ hs

theorem searchFile (pathname : List UInt8) : Preserves P (searchFile env pathname) :=
  Preserves.of_wp fun _ hs => @Tracks.searchFile env _ _ [] h.tracks hs pathname

theorem openPlan (pathname : List UInt8) (flags : Nat) :
    Preserves P (openPlan env pathname flags) :=
  Preserves.of_wp fun _ hs => wp_mono (@Tracks.openPlan env _ _ [] h.tracks hs pathname flags)
    fun _ _ hplan => hplan.choose_spec.1

theorem inodeRelease (no : Nat) : Preserves P (inodeRelease env no) := by
  refine Preserves.bind (h.inodeOpen no) fun a => Preserves.get_bind fun _ _ => ?_
  refine Preserves.bind (reads_assertFs _ _ _ _) fun _ =>
    Preserves.bind (h.transfers.releaseBlocks a) fun _ => ?_
  refine Preserves.bind (h.transfers.setInodeBit _ _) fun _ =>
    Preserves.bind (h.transfers.bitmapSync _ _) fun _ => ?_
  exact Preserves.bind (h.transfers.inodeDelete _ _) fun _ => h.inodeClose a

theorem removals : TracksRemovals env (fun _ => P) where
  toTracks := h.tracks
  perm := fun hs _ => hs
  deleteDirEntry := fun no hs => (h.transfers.deleteDirEntry _ no).wp hs
  inodeRelease := fun no hs => (h.inodeRelease no).wp hs

theorem sysUnlink (pathname : List UInt8) : Preserves P (sysUnlink env pathname) :=
  Preserves.of_wp fun _ hs => @TracksRemovals.sysUnlink env _ _ [] h.removals hs pathname

theorem sysRmdir (pathname : List UInt8) : Preserves P (sysRmdir env pathname) :=
  Preserves.of_wp fun _ hs => @TracksRemovals.sysRmdir env _ _ [] h.removals hs pathname

/-- A way out of a call. -/
theorem close_return {β : Type} (d : DirPtr) (b : β) :
    Preserves P (do ZyOs.dirClose d; return b) :=
  Preserves.bind (h.dirClose d) fun _ => Preserves.pure b

theorem makeDir (d : DirPtr) (dirname : List UInt8) (no : Nat) :
    Preserves P (makeDir d dirname no) := by
  refine Preserves.bind h.transfers.blockBitmapAlloc fun lba => Preserves.ite (fun _ => ?_)
    fun _ => Preserves.get_bind fun _ _ => ?_
  · exact Preserves.bind (h.transfers.setInodeBit _ _) fun _ => h.close_return _ _
  refine Preserves.bind (reads_assertFs _ _ _ _) fun _ =>
    Preserves.bind (h.transfers.bitmapSync _ _) fun _ => Preserves.get_bind fun _ _ => ?_
  refine Preserves.bind (h.transfers.writeSectors _ _ _) fun _ =>
    Preserves.bind (Preserves.lift _) fun _ => Preserves.get_bind fun _ _ => ?_
  refine Preserves.bind (h.transfers.syncDirEntry _ _ _) fun ok => Preserves.ite (fun _ => ?_)
    fun _ => ?_
  · refine Preserves.get_bind fun _ _ => Preserves.bind (h.transfers.inodeSync _ _) fun _ =>
      Preserves.bind (h.transfers.inodeSync _ _) fun _ => ?_
    exact Preserves.bind (h.transfers.bitmapSync _ _) fun _ => h.close_return _ _
  · exact Preserves.bind (h.transfers.setInodeBit _ _) fun _ => h.close_return _ _

theorem sysMkdir (pathname : List UInt8) : Preserves P (sysMkdir env pathname) := by
  refine Preserves.bind (h.searchFile pathname) fun r => Preserves.ite (fun _ => h.close_return _ _)
    fun _ => ?_
  refine Preserves.bind (Preserves.lift _) fun _ => Preserves.bind (Preserves.lift _) fun _ => ?_
  refine Preserves.ite (fun _ => h.close_return _ _) fun _ => ?_
  refine Preserves.bind h.transfers.inodeBitmapAlloc fun _ => ?_
  exact Preserves.ite (fun _ => h.close_return _ _) fun _ => h.makeDir _ _ _

theorem sysOpendir (name : List UInt8) : Preserves P (sysOpendir env name) := by
  refine Preserves.bind (reads_assertFs _ _ _ _) fun _ =>
    Preserves.ite (fun _ => Preserves.pure _) fun _ => ?_
  refine Preserves.bind (h.searchFile name) fun r => Preserves.ite (fun _ => h.close_return _ _)
    fun _ => Preserves.ite (fun _ => ?_) fun _ => h.close_return _ _
  exact Preserves.bind (h.dirOpen _) fun _ => h.close_return _ _

theorem sysClosedir (dir : Option DirPtr) : Preserves P (sysClosedir dir) := by
  cases dir with
  | none => exact Preserves.pure _
  | some d => exact h.close_return d _

theorem sysStat (path : List UInt8) : Preserves P (sysStat env path) := by
  refine Preserves.ite (fun _ => Preserves.get_bind fun _ _ => Preserves.pure _) fun _ => ?_
  refine Preserves.bind (h.searchFile path) fun r => Preserves.ite (fun _ => h.close_return _ _)
    fun _ => ?_
  refine Preserves.bind (h.inodeOpen _) fun a => Preserves.get_bind fun _ _ => ?_
  exact Preserves.bind (h.inodeClose a) fun _ => h.close_return _ _

theorem sysChdir (path : List UInt8) : Preserves P (sysChdir env path) := by
  refine Preserves.bind (h.searchFile path) fun r => Preserves.ite (fun _ => ?_)
    fun _ => h.close_return _ _
  refine Preserves.bind (h.modify (fun _ => rfl) fun s t => ?_) fun _ => h.close_return _ _
  by_cases ht : t = s.cur
  · simp only [if_pos ht]
  · simp only [if_neg ht]

theorem sysWrite (fd : Int) (buf : Mem) (count : Nat) : Preserves P (sysWrite fd buf count) := by
  refine Preserves.ite (fun _ => Preserves.pure _) fun _ => Preserves.ite (fun _ => ?_) fun _ => ?_
  · exact Preserves.ite (fun _ => Preserves.pure _) fun _ => Preserves.lift _
  · exact Preserves.bind (reads_fdLocalToGlobal _ _) fun g => Preserves.get_bind fun _ _ =>
      Preserves.ite (fun _ => h.transfers.fileWrite g buf count) fun _ => Preserves.pure _

theorem sysRead (keys : Mem) (fd : Int) (buf : Mem) (count : Nat) :
    Preserves P (sysRead keys fd buf count) := by
  refine Preserves.ite (fun _ => Preserves.pure _) fun _ =>
    Preserves.ite (fun _ => Preserves.pure _) fun _ => ?_
  exact Preserves.bind (reads_fdLocalToGlobal _ _) fun g => h.transfers.fileRead g buf count

theorem sysLseek (fd offset : Int) (whence : Nat) : Preserves P (sysLseek fd offset whence) := by
  refine Preserves.ite (fun _ => Preserves.pure _) fun _ =>
    Preserves.bind (reads_assertFs _ _ _ _) fun _ =>
      Preserves.bind (reads_fdLocalToGlobal _ _) fun g => ?_
  refine Preserves.bind (reads_fdInodeOf _ _ _) fun _ => Preserves.get_bind fun _ _ =>
    Preserves.ite (fun _ => Preserves.pure _) fun _ => ?_
  exact Preserves.bind (h.pos _ _) fun _ => Preserves.pure _

/-- A fork raises counts, so what is left is to look at the copied descriptors. -/
theorem updateOpenCntsFrom (fdTable : Nat → Int) :
    ∀ n i, Preserves P (updateOpenCntsFrom fdTable n i) := by
  intro n
  induction n with
  | zero => exact fun _ => Preserves.pure _
  | succ n ih =>
      intro i
      refine Preserves.bind (reads_assertFs _ _ _ _) fun _ => Preserves.ite (fun _ => ?_)
        fun _ => ih _
      refine Preserves.bind (reads_fdInodeOf _ _ _) fun a => Preserves.get_bind fun _ _ => ?_
      exact Preserves.bind (h.putInode a _) fun _ => ih _

end OfTables

/-! ### The entries that are set aside -/

/-- The standard descriptors lead to entries without an inode that are not marked for writing;
the others are free or lead to an entry. -/
structure StdDescriptors (s : Fs) : Prop where
  inode : ∀ g < 3, (s.fileTable g).fdInode = none
  flag : ∀ g < 3, writes (s.fileTable g).fdFlag = false
  std : ∀ t, ∀ k < 3, (s.tasks t).fdTable k = k
  range : ∀ t k, 3 ≤ k → k < maxFilesOpenPerProc →
    (s.tasks t).fdTable k = -1 ∨ ∃ g : Nat, g < maxFileOpen ∧ (s.tasks t).fdTable k = g

namespace StdDescriptors

theorem ofTables : OfTables StdDescriptors where
  congr := by
    intro s s' hfile htasks h
    exact ⟨by rw [hfile]; exact h.inode, by rw [hfile]; exact h.flag,
      fun t => by rw [htasks]; exact h.std t, fun t => by rw [htasks]; exact h.range t⟩
  pos := by
    refine fun fd pos => Preserves.modify fun s h =>
      ⟨fun g hg => ?_, fun g hg => ?_, h.std, h.range⟩
    · by_cases hfd : g = fd
      · subst hfd
        simpa using h.inode g hg
      · simpa only [if_neg hfd] using h.inode g hg
    · by_cases hfd : g = fd
      · subst hfd
        simpa using h.flag g hg
      · simpa only [if_neg hfd] using h.flag g hg

/-- Files get other entries. -/
theorem setFile {g : Nat} (hg : 3 ≤ g) (f : File) : Preserves StdDescriptors (setFile g f) := by
  refine Preserves.modify fun s h => ⟨fun i hi => ?_, fun i hi => ?_, h.std, h.range⟩
  · simpa only [if_neg (show i ≠ g by omega)] using h.inode i hi
  · simpa only [if_neg (show i ≠ g by omega)] using h.flag i hi

/-- A descriptor behind the standard ones. -/
theorem setFd {fd : Nat} {g : Int} (hfd : 3 ≤ fd)
    (hg : g = -1 ∨ ∃ n : Nat, n < maxFileOpen ∧ g = n) : Preserves StdDescriptors (setFd fd g) := by
  refine Preserves.get_bind fun s h => Preserves.set ⟨h.inode, h.flag, fun t k hk => ?_,
    fun t k hk h8 => ?_⟩
  · by_cases ht : t = s.cur
    · simp only [if_pos ht, FdTask.setFd, if_neg (show k ≠ fd by omega)]
      exact h.std t k hk
    · simp only [if_neg ht]
      exact h.std t k hk
  · by_cases ht : t = s.cur
    · by_cases hkfd : k = fd
      · simpa only [if_pos ht, FdTask.setFd, if_pos hkfd] using hg
      · simpa only [if_pos ht, FdTask.setFd, if_neg hkfd] using h.range t k hk h8
    · simpa only [if_neg ht] using h.range t k hk h8

theorem pcbFdInstall {g : Nat} (hg : g < maxFileOpen) :
    Preserves StdDescriptors (pcbFdInstall g) := by
  refine Preserves.get_bind fun s _ => ?_
  cases hfd : freeFdFrom (s.tasks s.cur).fdTable (maxFilesOpenPerProc - 3) 3 with
  | none => exact Preserves.pure _
  | some fd =>
      exact Preserves.bind (setFd (freeFdFrom_some hfd).1 (.inr ⟨g, hg, rfl⟩)) fun _ =>
        Preserves.pure _

theorem fileCreate (parent : Nat) (filename : List UInt8) (flag : Nat) :
    Preserves StdDescriptors (fileCreate env parent filename flag) := by
  have hT := ofTables
  refine Preserves.bind hT.transfers.inodeBitmapAlloc fun no => Preserves.ite
    (fun _ => Preserves.pure _) fun _ => Preserves.get_bind fun _ _ => ?_
  refine Preserves.bind (hT.modify (fun _ => rfl) fun _ _ => rfl) fun _ =>
    Preserves.bind (hT.putInode _ _) fun _ => Preserves.get_bind fun s _ => ?_
  cases hslot : getFreeSlotInGlobal s.fileTable with
  | none =>
      exact Preserves.bind (hT.freeInode _) fun _ =>
        Preserves.bind (hT.transfers.setInodeBit _ _) fun _ => Preserves.pure _
  | some g =>
      obtain ⟨h3, h32, -⟩ := freeSlotFrom_some hslot
      refine Preserves.bind (setFile h3 _) fun _ => Preserves.get_bind fun _ _ =>
        Preserves.bind (hT.putInode _ _) fun _ => Preserves.bind (Preserves.lift _) fun _ => ?_
      refine Preserves.bind (hT.transfers.syncDirEntry _ _ _) fun ok =>
        Preserves.ite (fun _ => ?_) fun _ => ?_
      · refine Preserves.get_bind fun _ _ => Preserves.bind (hT.transfers.inodeSync _ _) fun _ =>
          Preserves.get_bind fun _ _ => Preserves.bind (hT.transfers.inodeSync _ _) fun _ => ?_
        refine Preserves.bind (hT.transfers.bitmapSync _ _) fun _ =>
          Preserves.bind (hT.modify (fun _ => rfl) fun _ _ => rfl) fun _ =>
            Preserves.get_bind fun _ _ => ?_
        exact Preserves.bind (hT.putInode _ _) fun _ => pcbFdInstall h32
      · refine Preserves.bind (setFile h3 _) fun _ => Preserves.bind (hT.freeInode _) fun _ => ?_
        exact Preserves.bind (hT.transfers.setInodeBit _ _) fun _ => Preserves.pure _

theorem fileOpen (no flag : Nat) : Preserves StdDescriptors (fileOpen env no flag) := by
  have hT := ofTables
  refine Preserves.get_bind fun s _ => ?_
  cases hslot : getFreeSlotInGlobal s.fileTable with
  | none => exact Preserves.pure _
  | some g =>
      obtain ⟨h3, h32, -⟩ := freeSlotFrom_some hslot
      refine Preserves.bind (hT.inodeOpen _) fun a => Preserves.bind (setFile h3 _) fun _ =>
        Preserves.ite (fun _ => ?_) fun _ => pcbFdInstall h32
      refine Preserves.get_bind fun _ _ => Preserves.ite (fun _ => Preserves.pure _) fun _ => ?_
      exact Preserves.bind (hT.putInode _ _) fun _ => pcbFdInstall h32

theorem sysOpen (pathname : List UInt8) (flags : Nat) :
    Preserves StdDescriptors (sysOpen env pathname flags) := by
  refine Preserves.bind (ofTables.openPlan pathname flags) fun plan => ?_
  cases plan with
  | refuse => exact Preserves.pure _
  | create d =>
      exact Preserves.get_bind fun _ _ => Preserves.bind (fileCreate _ _ _) fun _ =>
        ofTables.close_return _ _
  | existing no => exact fileOpen no flags

/-- Only an entry with an inode is closed, and the three have none. -/
theorem fileClose (g : Nat) : Preserves StdDescriptors (fileClose g) := by
  intro s r s' h hrun
  obtain ⟨a, s₁, h1, hrest⟩ := bind_run.mp hrun
  obtain ⟨hsome, rfl⟩ := fdInodeOf_eq h1
  have hg : 3 ≤ g := by
    by_contra hlt
    rw [h.inode g (by omega)] at hsome
    exact absurd hsome (by simp)
  refine Preserves.get_bind (fun _ _ => ?_) s₁ r s' h hrest
  refine Preserves.bind (ofTables.putInode _ _) fun _ => Preserves.bind (ofTables.inodeClose a)
    fun _ => Preserves.get_bind fun _ _ => ?_
  exact Preserves.bind (setFile hg _) fun _ => Preserves.pure _

theorem sysClose (fd : Int) : Preserves StdDescriptors (sysClose fd) := by
  refine Preserves.ite (fun hfd => ?_) fun _ => Preserves.pure _
  refine Preserves.bind (reads_fdLocalToGlobal _ _) fun g =>
    Preserves.bind (fileClose g) fun _ => ?_
  exact Preserves.bind (setFd (by omega) (.inl rfl)) fun _ => Preserves.pure _

/-- A fork copies descriptors. -/
theorem copied (h : StdDescriptors s) (parent child : Nat) :
    StdDescriptors { s with
      tasks := fun t => if t = child then s.tasks parent else s.tasks t } := by
  refine ⟨h.inode, h.flag, fun t => ?_, fun t => ?_⟩
  · by_cases ht : t = child
    · simpa only [if_pos ht] using h.std parent
    · simpa only [if_neg ht] using h.std t
  · by_cases ht : t = child
    · simpa only [if_pos ht] using h.range parent
    · simpa only [if_neg ht] using h.range t

theorem updateInodeOpenCnts (thread : Nat) :
    Preserves StdDescriptors (updateInodeOpenCnts thread) :=
  Preserves.get_bind fun _ _ => ofTables.updateOpenCntsFrom _ _ _

theorem sysForkFiles (child : Nat) : Preserves StdDescriptors (sysForkFiles child) := by
  refine Preserves.get_bind fun s _ => Preserves.bind (reads_assertFs _ _ _ _) fun _ => ?_
  exact Preserves.bind (Preserves.modify fun s₁ h => h.copied s₁.cur child) fun _ =>
    updateInodeOpenCnts child

theorem cur (h : StdDescriptors s) (t : Nat) : StdDescriptors { s with cur := t } :=
  ofTables.congr (s := s) rfl (fun _ => rfl) h

theorem fileExec (c : FsCall) : Preserves StdDescriptors (c.exec env) := by
  cases c with
  | «open» pathname flags =>
      exact Preserves.bind (sysOpen pathname flags) fun _ => Preserves.pure _
  | close fd => exact Preserves.bind (sysClose fd) fun _ => Preserves.pure _
  | read keys fd buf count =>
      exact Preserves.bind (ofTables.sysRead keys fd buf count) fun _ => Preserves.pure _
  | write fd buf count =>
      exact Preserves.bind (ofTables.sysWrite fd buf count) fun _ => Preserves.pure _
  | lseek fd offset whence =>
      exact Preserves.bind (ofTables.sysLseek fd offset whence) fun _ => Preserves.pure _

theorem dirExec (c : DirCall) : Preserves StdDescriptors (c.exec env handles) := by
  cases c with
  | «open» pathname flags =>
      exact Preserves.bind (sysOpen pathname flags) fun _ => Preserves.pure _
  | close fd => exact Preserves.bind (sysClose fd) fun _ => Preserves.pure _
  | opendir name =>
      refine Preserves.bind (ofTables.sysOpendir name) fun d => ?_
      cases d with
      | none => exact Preserves.pure _
      | some d => exact Preserves.pure _
  | closedir dir =>
      cases dir with
      | none => exact Preserves.bind (ofTables.sysClosedir none) fun _ => Preserves.pure _
      | some d =>
          exact Preserves.ite (fun _ => Preserves.bind (ofTables.sysClosedir (some d)) fun _ =>
            Preserves.pure _) fun _ => Preserves.pure _
  | mkdir pathname => exact Preserves.bind (ofTables.sysMkdir pathname) fun _ => Preserves.pure _
  | rmdir pathname => exact Preserves.bind (ofTables.sysRmdir pathname) fun _ => Preserves.pure _
  | unlink pathname => exact Preserves.bind (ofTables.sysUnlink pathname) fun _ => Preserves.pure _
  | stat path => exact Preserves.bind (ofTables.sysStat path) fun _ => Preserves.pure _
  | chdir path => exact Preserves.bind (ofTables.sysChdir path) fun _ => Preserves.pure _

/-- **Every run of calls and forks keeps it.** -/
theorem run (h₀ : StdDescriptors s₀) (h : CallsRun env s₀ s handles) : StdDescriptors s := by
  induction h with
  | mounted => exact h₀
  | file t c _ hrun ih => exact fileExec c _ _ _ (ih.cur t) hrun
  | dir t c _ hrun ih => exact dirExec c _ _ _ (ih.cur t) hrun
  | fork t child _ hrun ih => exact sysForkFiles child _ _ _ (ih.cur t) hrun

end StdDescriptors

/-- The tables as the kernel starts: no entry in use, and every task with the descriptors that
`init_thread` gives it. -/
structure FreshTables (s : Fs) : Prop where
  fileTable : ∀ g, s.fileTable g = ⟨0, 0, none⟩
  fdTable : ∀ t k, (s.tasks t).fdTable k = if k < 3 then (k : Int) else -1

/-- Mounting leaves them so. -/
theorem FreshTables.mounted (h : FreshTables s₀) (hrun : filesysInit env s₀ = .ok ((), s)) :
    FreshTables s := by
  obtain ⟨_, s₁, hopen, hclear⟩ := bind_run.mp hrun
  obtain rfl := (Prod.mk.inj (Except.ok.inj hclear)).2
  rw [openRootDir, bind_of_run (get_run s₀)] at hopen
  obtain ⟨a, s₂, hinode, hroot⟩ := bind_run.mp hopen
  obtain rfl := (Prod.mk.inj (Except.ok.inj hroot)).2
  have hsame : s₂.fileTable = s₀.fileTable ∧ s₂.tasks = s₀.tasks := by
    rcases inodeOpen_cases hinode with ⟨-, -, rfl⟩ | ⟨-, -, rfl⟩
    · exact ⟨rfl, rfl⟩
    · exact ⟨rfl, rfl⟩
  refine ⟨fun g => ?_, fun t k => by rw [hsame.2]; exact h.fdTable t k⟩
  simp only [clearTable, hsame.1, h.fileTable]
  split
  · rfl
  · rfl

theorem FreshTables.stdDescriptors (h : FreshTables s) : StdDescriptors s := by
  refine ⟨fun g _ => by rw [h.fileTable], fun g _ => by rw [h.fileTable]; rfl, fun t k hk => ?_,
    fun t k hk _ => .inl ?_⟩
  · rw [h.fdTable, if_pos hk]
  · rw [h.fdTable, if_neg (Nat.not_lt.mpr hk)]

/-! ### Calls on a descriptor -/

/-- A call on a descriptor. -/
inductive FdCall where
  | close
  | read (keys buf : Mem) (count : Nat)
  | write (buf : Mem) (count : Nat)
  | lseek (offset : Int) (whence : Nat)

namespace FdCall

/-- The call of the running task: what it returns, and the buffer it has read into. -/
def exec (fd : Int) : FdCall → FsM (Int × Option Mem)
  | close => do return (← sysClose fd, none)
  | read keys buf count => do
      let (res, buf) ← sysRead keys fd buf count
      return (res, some buf)
  | write buf count => do return (← sysWrite fd buf count, none)
  | lseek offset whence => do return (← sysLseek fd offset whence, none)

/-- The buffer that is read into, before the call. -/
def buffer : FdCall → Option Mem
  | read _ buf _ => some buf
  | _ => none

/-- The standard descriptor the call has something to do with. -/
def Supports (fd : Int) : FdCall → Prop
  | read _ _ _ => fd = 0
  | write _ _ => fd = 1
  | _ => False

/-- -1 is returned, and nothing has changed. -/
def Refused (fd : Int) (c : FdCall) (s : Fs) : Prop := c.exec fd s = .ok ((-1, c.buffer), s)

end FdCall

/-- The descriptor of the running task is open: it leads to an entry with an inode. -/
def Fs.FdOpen (s : Fs) (fd : Int) : Prop :=
  3 ≤ fd ∧ fd < maxFilesOpenPerProc ∧ ∃ g : Nat, g < maxFileOpen ∧
    (s.tasks s.cur).fdTable fd.toNat = g ∧ (s.fileTable g).fdInode ≠ none

/-- The descriptor is neither open nor one the call has something to do with. -/
def FdCall.NotFor (fd : Int) (c : FdCall) (s : Fs) : Prop := ¬ s.FdOpen fd ∧ ¬ c.Supports fd

/-- What saves the call: the descriptor is negative, or it is a standard one and the call is
not `sys_lseek`, or `sys_write` gets to an emptied entry that is not marked for writing. -/
def FdCall.Guarded (fd : Int) (c : FdCall) (s : Fs) : Prop :=
  fd < 0 ∨ (fd < 3 ∧ ∀ offset whence, c ≠ .lseek offset whence) ∨
    ∃ buf count, c = .write buf count ∧ 3 ≤ fd ∧ fd < maxFilesOpenPerProc ∧
      ∃ g : Nat, (s.tasks s.cur).fdTable fd.toNat = g ∧ writes (s.fileTable g).fdFlag = false

section Calls

variable {fd : Int} {c : FdCall} {r : Int} {g : Nat}

/-! ### What a call that returns has found -/

/-- The index leads to an entry with an inode. -/
theorem fdOpen_of (hfd : 3 ≤ fd) {a : Nat} {s₁ : Fs} {func : String}
    (hg : fdLocalToGlobal fd.toNat s = .ok (g, s₁)) (ha : fdInodeOf g func s₁ = .ok (a, s')) :
    s.FdOpen fd := by
  obtain ⟨h8, h32, hentry, rfl⟩ := fdLocalToGlobal_run hg
  obtain ⟨hsome, -⟩ := fdInodeOf_eq ha
  exact ⟨hfd, by omega, g, h32, hentry, by simp [hsome]⟩

theorem sysClose_fdOpen (hfd : 3 ≤ fd) (h : sysClose fd s = .ok (r, s')) : s.FdOpen fd := by
  rw [sysClose, if_pos (by omega)] at h
  obtain ⟨g, s₁, hg, hclose⟩ := bind_run.mp h
  obtain ⟨res, s₂, hfile, -⟩ := bind_run.mp hclose
  obtain ⟨a, s₃, ha, -⟩ := bind_run.mp hfile
  exact fdOpen_of hfd hg ha

theorem sysRead_fdOpen {keys buf buf' : Mem} {count : Nat} (hfd : 3 ≤ fd)
    (h : sysRead keys fd buf count s = .ok ((r, buf'), s')) : s.FdOpen fd := by
  rw [sysRead, if_neg (by omega), if_neg (by omega)] at h
  obtain ⟨g, s₁, hg, hfile⟩ := bind_run.mp h
  obtain ⟨a, s₂, ha, -⟩ := bind_run.mp hfile
  exact fdOpen_of hfd hg ha

/-- `sys_lseek` looks at the inode also behind a standard descriptor. -/
theorem sysLseek_inode {offset : Int} {whence : Nat} (hfd : 0 ≤ fd)
    (h : sysLseek fd offset whence s = .ok (r, s')) : fd < maxFilesOpenPerProc ∧
      ∃ g : Nat, g < maxFileOpen ∧ (s.tasks s.cur).fdTable fd.toNat = g ∧
        (s.fileTable g).fdInode ≠ none := by
  rw [sysLseek, if_neg (by omega)] at h
  obtain ⟨_, s₁, hwhence, hlocal⟩ := bind_run.mp h
  obtain ⟨-, rfl⟩ := assertFs_ok hwhence
  obtain ⟨g, s₂, hg, hinode⟩ := bind_run.mp hlocal
  obtain ⟨h8, h32, hentry, rfl⟩ := fdLocalToGlobal_run hg
  obtain ⟨a, s₃, ha, -⟩ := bind_run.mp hinode
  obtain ⟨hsome, -⟩ := fdInodeOf_eq ha
  exact ⟨by omega, g, h32, hentry, by simp [hsome]⟩

theorem sysWrite_fdOpen {buf : Mem} {count : Nat} (hfd : 3 ≤ fd)
    (h : sysWrite fd buf count s = .ok (r, s')) : s.FdOpen fd ∨
      fd < maxFilesOpenPerProc ∧ ∃ g : Nat, (s.tasks s.cur).fdTable fd.toNat = g ∧
        writes (s.fileTable g).fdFlag = false := by
  rw [sysWrite, if_neg (by omega), if_neg (by omega)] at h
  obtain ⟨g, s₁, hg, hwrite⟩ := bind_run.mp h
  obtain ⟨h8, h32, hentry, rfl⟩ := fdLocalToGlobal_run hg
  rw [bind_of_run (get_run s₁)] at hwrite
  by_cases hflag : writes (s₁.fileTable g).fdFlag = true
  · rw [if_pos hflag] at hwrite
    obtain ⟨a, s₂, ha, -⟩ := bind_run.mp hwrite
    exact .inl (fdOpen_of hfd hg ha)
  · exact .inr ⟨by omega, g, hentry, by simpa using hflag⟩

/-! ### The calls that are saved -/

theorem fdLocalToGlobal_of_entry {k : Nat} (hk : k < maxFilesOpenPerProc) (hg : g < maxFileOpen)
    (hentry : (s.tasks s.cur).fdTable k = g) : fdLocalToGlobal k s = .ok (g, s) := by
  have hrange : (0 : Int) ≤ (g : Int) ∧ (g : Int) < (maxFileOpen : Nat) := by omega
  rw [fdLocalToGlobal, bind_of_run (get_run s), if_pos hk, hentry,
    bind_of_run (assertFs_run hrange _ _ s)]
  rfl

/-- An entry that is not marked for writing is not written to. -/
theorem sysWrite_unmarked {buf : Mem} {count : Nat} (hfd : 0 ≤ fd) (h1 : fd ≠ 1)
    (h8 : fd < maxFilesOpenPerProc) (hg : g < maxFileOpen)
    (hentry : (s.tasks s.cur).fdTable fd.toNat = g)
    (hflag : writes (s.fileTable g).fdFlag = false) :
    sysWrite fd buf count s = .ok (-1, s) := by
  rw [sysWrite, if_neg (by omega), if_neg h1,
    bind_of_run (fdLocalToGlobal_of_entry (by omega) hg hentry), bind_of_run (get_run s), hflag]
  rfl

theorem FdCall.refused_neg (hfd : fd < 0) (c : FdCall) : c.Refused fd s := by
  cases c with
  | close =>
      have hcall : sysClose fd s = .ok (-1, s) := by rw [sysClose, if_neg (by omega)]; rfl
      exact bind_of_run hcall
  | read keys buf count =>
      have hcall : sysRead keys fd buf count s = .ok ((-1, buf), s) := by
        rw [sysRead, if_pos (.inl hfd)]; rfl
      exact bind_of_run hcall
  | write buf count =>
      have hcall : sysWrite fd buf count s = .ok (-1, s) := by rw [sysWrite, if_pos hfd]; rfl
      exact bind_of_run hcall
  | lseek offset whence =>
      have hcall : sysLseek fd offset whence s = .ok (-1, s) := by rw [sysLseek, if_pos hfd]; rfl
      exact bind_of_run hcall

/-- A standard descriptor the call has nothing to do with. -/
theorem FdCall.refused_std (h : StdDescriptors s) (hfd : 0 ≤ fd) (h3 : fd < 3)
    (hnot : ¬ c.Supports fd) (hseek : ∀ offset whence, c ≠ .lseek offset whence) :
    c.Refused fd s := by
  cases c with
  | close =>
      have hcall : sysClose fd s = .ok (-1, s) := by rw [sysClose, if_neg (by omega)]; rfl
      exact bind_of_run hcall
  | read keys buf count =>
      have hne : fd ≠ 0 := hnot
      have hcall : sysRead keys fd buf count s = .ok ((-1, buf), s) := by
        rw [sysRead, if_pos (by omega)]; rfl
      exact bind_of_run hcall
  | write buf count =>
      have hne : fd ≠ 1 := hnot
      have h8 : fd < maxFilesOpenPerProc := Int.lt_trans h3 (by decide)
      have hg : fd.toNat < maxFileOpen := by
        show fd.toNat < 32
        omega
      exact bind_of_run (sysWrite_unmarked hfd hne h8 hg (h.std s.cur fd.toNat (by omega))
        (h.flag fd.toNat (by omega)))
  | lseek offset whence => exact absurd rfl (hseek offset whence)

/-- **Exactly these calls are refused**, of those on a descriptor that is not for them. -/
theorem FdCall.refused_iff (h : StdDescriptors s) (hnot : c.NotFor fd s) :
    c.Refused fd s ↔ c.Guarded fd s := by
  constructor
  · intro hrun
    by_cases hneg : fd < 0
    · exact .inl hneg
    obtain ⟨hclosed, -⟩ := hnot
    cases c with
    | close =>
        obtain ⟨r, s₁, hcall, -⟩ := bind_run.mp hrun
        by_cases h3 : fd < 3
        · exact .inr (.inl ⟨h3, nofun⟩)
        · exact absurd (sysClose_fdOpen (by omega) hcall) hclosed
    | read keys buf count =>
        obtain ⟨⟨r, buf'⟩, s₁, hcall, -⟩ := bind_run.mp hrun
        by_cases h3 : fd < 3
        · exact .inr (.inl ⟨h3, nofun⟩)
        · exact absurd (sysRead_fdOpen (by omega) hcall) hclosed
    | write buf count =>
        obtain ⟨r, s₁, hcall, -⟩ := bind_run.mp hrun
        by_cases h3 : fd < 3
        · exact .inr (.inl ⟨h3, nofun⟩)
        rcases sysWrite_fdOpen (by omega) hcall with hopen | ⟨h8, hmark⟩
        · exact absurd hopen hclosed
        · exact .inr (.inr ⟨buf, count, rfl, by omega, h8, hmark⟩)
    | lseek offset whence =>
        obtain ⟨r, s₁, hcall, -⟩ := bind_run.mp hrun
        obtain ⟨h8, g, h32, hentry, hsome⟩ := sysLseek_inode (by omega) hcall
        by_cases h3 : fd < 3
        · -- the standard descriptors lead to entries without an inode
          have hstd := h.std s.cur fd.toNat (by omega)
          exact absurd (h.inode g (by omega)) hsome
        · exact absurd ⟨by omega, h8, g, h32, hentry, hsome⟩ hclosed
  · rintro (hneg | ⟨h3, hseek⟩ | ⟨buf, count, rfl, h3, h8, g, hentry, hflag⟩)
    · exact FdCall.refused_neg hneg c
    · by_cases hneg : fd < 0
      · exact FdCall.refused_neg hneg c
      · exact FdCall.refused_std h (by omega) h3 hnot.2 hseek
    · have hg : g < maxFileOpen := by
        rcases h.range s.cur fd.toNat (by omega) (by omega) with hfree | ⟨g', hg', hentry'⟩
        · omega
        · omega
      exact bind_of_run (sysWrite_unmarked (by omega) (by omega) h8 hg hentry hflag)

theorem sysWrite_stdout (buf : Mem) (count : Nat) :
    (∃ r s', sysWrite 1 buf count s = .ok (r, s')) ↔ count ≤ 1024 := by
  rw [sysWrite, if_neg (by decide), if_pos rfl]
  by_cases hcount : count ≤ 1024
  · rw [if_pos hcount]
    exact iff_of_true ⟨_, _, rfl⟩ hcount
  · rw [if_neg hcount]
    exact iff_of_false (fun ⟨_, _, h⟩ => nomatch h) hcount

end Calls

/-- **In every state of a run, a call on a descriptor that is not for it is refused** just when
one of the three things saves it, and `sys_write` to the console stays in its buffer just when
that is large enough. -/
theorem descriptor_args (env : FsEnv) (s₀ s₁ s : Fs) (handles : List DirPtr) (t : Nat)
    (h₀ : FreshTables s₀) (hmount : filesysInit env s₀ = .ok ((), s₁))
    (h : CallsRun env s₁ s handles) :
    (∀ (c : FdCall) (fd : Int), c.NotFor fd { s with cur := t } →
      (c.Refused fd { s with cur := t } ↔ c.Guarded fd { s with cur := t })) ∧
    ∀ (buf : Mem) (count : Nat),
      (∃ r s', sysWrite 1 buf count { s with cur := t } = .ok (r, s')) ↔ count ≤ 1024 := by
  have hstd := ((h₀.mounted hmount).stdDescriptors.run h).cur t
  exact ⟨fun _ _ hnot => FdCall.refused_iff hstd hnot, sysWrite_stdout⟩

theorem emptyFs_freshTables : FreshTables emptyFs := ⟨fun _ => rfl, fun _ _ => rfl⟩

theorem mountedFs_run : filesysInit upwardEnv emptyFs = .ok ((), mountedFs) :=
  run_stateAfter (by decide +kernel)

theorem descriptor_args_stdin : FdCall.close.Refused 0 { mountedFs with cur := 0 } :=
  ((descriptor_args upwardEnv emptyFs mountedFs mountedFs [] 0 emptyFs_freshTables mountedFs_run
    .mounted).1 .close 0 ⟨fun h => absurd h.1 (by decide), id⟩).mpr (.inr (.inl ⟨by decide, nofun⟩))

/-- Closing a descriptor that is free, moving the cursor of standard input, and 1025 bytes for
the console. -/
theorem descriptor_args_unchecked :
    FdCall.close.NotFor 3 mountedFs ∧ ¬ FdCall.close.Refused 3 mountedFs ∧
    (FdCall.lseek 0 1).NotFor 0 mountedFs ∧ ¬ (FdCall.lseek 0 1).Refused 0 mountedFs ∧
    ∀ r s', sysWrite 1 zeroMem 1025 mountedFs ≠ .ok (r, s') := by
  have hfresh := emptyFs_freshTables.mounted mountedFs_run
  have hstd := hfresh.stdDescriptors
  have hfree : FdCall.close.NotFor 3 mountedFs := by
    refine ⟨?_, id⟩
    rintro ⟨-, -, g, -, hentry, -⟩
    have hminus : (mountedFs.tasks mountedFs.cur).fdTable 3 = -1 := hfresh.fdTable _ 3
    rw [show (3 : Int).toNat = 3 from rfl, hminus] at hentry
    omega
  have hstdin : (FdCall.lseek 0 1).NotFor 0 mountedFs := ⟨fun h => absurd h.1 (by decide), id⟩
  refine ⟨hfree, fun h => ?_, hstdin, fun h => ?_, fun r s' h => ?_⟩
  · rcases (FdCall.refused_iff hstd hfree).mp h with h | ⟨h, -⟩ | ⟨_, _, h, -⟩
    · exact absurd h (by decide)
    · exact absurd h (by decide)
    · exact nomatch h
  · rcases (FdCall.refused_iff hstd hstdin).mp h with h | ⟨-, h⟩ | ⟨_, _, h, -⟩
    · exact absurd h (by decide)
    · exact h 0 1 rfl
    · exact nomatch h
  · exact absurd ((sysWrite_stdout zeroMem 1025).mp ⟨r, s', h⟩) (by decide)

end ZyOs
