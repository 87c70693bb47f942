/-
What a call holds open.

Most calls walk along a path, so they open directories and have to close them again.
A property that says what is held open, and that opening and closing an inode keep up,
holds after `search_file` with the directory of the record held on top.  The proofs
about open inodes differ only in that property.
-/
import ZyOs.Kernel.FsDirs
import ZyOs.Proofs.OpenInodes
import ZyOs.Proofs.Quiet

namespace ZyOs

open Library

/-- The inodes a directory pointer keeps open. -/
def DirPtr.opens : DirPtr → List Nat
  | .root => []
  | .opened a => [a]

/-- Opening an inode adds it to what is held, closing it takes it away. -/
structure Tracks (env : FsEnv) (P : List Nat → Fs → Prop) : Prop where
  opened : ∀ {held : List Nat} {s s' : Fs} {no a : Nat}, P held s →
    inodeOpen env no s = .ok (a, s') → P (a :: held) s'
  closed : ∀ {held : List Nat} {s : Fs} {a : Nat}, P (a :: held) s → P held (s.closed a)

/-- `sys_open` opens an existing file and its directory is not the static root: this is the
one that nobody closes. -/
def OpensBelowRoot (env : FsEnv) (s : Fs) (pathname : List UInt8) (flags : Nat) : Prop :=
  pathname.getLast? ≠ some slash ∧ flags &&& oCreat = 0 ∧
    ∃ inodeNo r s', searchFile env pathname s = .ok ((inodeNo, r), s') ∧ inodeNo ≠ -1 ∧
      r.fileType ≠ ftDirectory ∧ pathDepthCnt pathname = pathDepthCnt r.searchedPath ∧
      r.parentDir ≠ .root

namespace Tracks

variable {env : FsEnv} {P : List Nat → Fs → Prop} {s : Fs} {held : List Nat} (hP : Tracks env P)
include hP

theorem dirClose {d : DirPtr} (h : P (d.opens ++ held) s) :
    Prog.wp (fun _ => True) (dirClose d) (fun _ s' => P held s') s := by
  cases d with
  | root => exact Prog.wp_pure h
  | opened a => exact Prog.wp_of_run (inodeClose_run a s) (hP.closed h)

theorem dirOpen (h : P held s) (no : Nat) :
    Prog.wp (fun _ => True) (dirOpen env no) (fun d s' => P (d.opens ++ held) s') s :=
  Prog.wp_bind (Prog.wp_of_returns fun _ _ hrun => hP.opened h hrun)

/-- Closing one directory and opening the next. -/
theorem dirSwitch {d : DirPtr} {no : Nat} (h : P (d.opens ++ held) s) {β : Type}
    {f : DirPtr → FsM β} {Q : β → Fs → Prop}
    (hf : ∀ d' s', P (d'.opens ++ held) s' → Prog.wp (fun _ => True) (f d') Q s') :
    Prog.wp (fun _ => True) (do ZyOs.dirClose d; let d' ← ZyOs.dirOpen env no; f d') Q s :=
  Prog.wp_bind (Prog.wp_mono (hP.dirClose h) fun _ _ h' =>
    Prog.wp_bind (Prog.wp_mono (hP.dirOpen h' no) hf))

theorem searchLoop : ∀ (fuel : Nat) (subPath : Option (List UInt8)) (name : List UInt8)
    (r : PathSearchRecord) (parentInodeNo dirE : UInt32) (s : Fs),
    P (r.parentDir.opens ++ held) s →
    Prog.wp (fun _ => True) (searchLoop env fuel subPath name r parentInodeNo dirE)
      (fun res s' => P (res.2.parentDir.opens ++ held) s') s := by
  intro fuel
  induction fuel with
  | zero => exact fun _ _ _ _ _ _ h => Prog.wp_pure h
  | succ fuel ih =>
      intro subPath name r parentInodeNo dirE s h
      refine Prog.wp_ite (fun _ => ?_) fun _ => ?_
      · exact hP.dirSwitch h fun d' s' h' => Prog.wp_pure h'
      refine Prog.wp_bind ((reads_assertFs _ _ _).wp fun _ => ?_)
      refine Prog.wp_ite (fun _ => Prog.wp_lift (fun _ hok => by simp at hok) fun _ _ => trivial)
        fun _ => Prog.wp_get_bind ?_
      refine Prog.wp_bind ((reads_searchDirEntry _ _).wp fun e => ?_)
      cases e with
      | none => exact Prog.wp_pure h
      | some e =>
          have hnext : ∀ (name : List UInt8) (subPath : Option (List UInt8))
              (r : PathSearchRecord) (s : Fs), P (r.parentDir.opens ++ held) s →
              Prog.wp (fun _ => True) (do
                if e.fType = ftDirectory then
                  let s ← get
                  let parentInodeNo := (s.inodes (r.parentDir.inode s)).iNo
                  ZyOs.dirClose r.parentDir
                  let parentDir ← ZyOs.dirOpen env e.iNo.toNat
                  ZyOs.searchLoop env fuel subPath name { r with parentDir := parentDir }
                    parentInodeNo e.iNo
                else if e.fType = ftRegular then
                  return (int32 e.iNo.toNat, { r with fileType := ftRegular })
                else
                  ZyOs.searchLoop env fuel subPath name r parentInodeNo e.iNo)
                (fun res s' => P (res.2.parentDir.opens ++ held) s') s := by
            intro name subPath r s h
            refine Prog.wp_ite (fun _ => Prog.wp_get_bind ?_) fun _ => Prog.wp_ite (fun _ => ?_)
              fun _ => ?_
            · exact hP.dirSwitch h fun d' s' h' => ih _ _ _ _ _ _ h'
            · exact Prog.wp_pure h
            · exact ih _ _ _ _ _ _ h
          cases subPath with
          | none => exact Prog.wp_bind (Prog.wp_pure (hnext _ _ _ _ h))
          | some p =>
              exact Prog.wp_bind (Prog.wp_lift (fun _ _ => hnext _ _ _ _ h) fun _ _ => trivial)

/-- `search_file` leaves the directory of the record open. -/
theorem searchFile (h : P held s) (pathname : List UInt8) :
    Prog.wp (fun _ => True) (searchFile env pathname)
      (fun res s' => P (res.2.parentDir.opens ++ held) s') s := by
  refine Prog.wp_ite (fun _ => Prog.wp_pure h) fun _ => ?_
  refine Prog.wp_bind ((reads_assertFs _ _ _).wp fun _ => ?_)
  refine Prog.wp_bind (Prog.wp_lift (fun _ _ => ?_) fun _ _ => trivial)
  exact hP.searchLoop _ _ _ _ _ _ _ h

/-- A call that begins with `search_file`. -/
theorem search_bind (h : P held s) {pathname : List UInt8} {β : Type}
    {f : Int × PathSearchRecord → FsM β} {Q : β → Fs → Prop}
    (hf : ∀ inodeNo r s', ZyOs.searchFile env pathname s = .ok ((inodeNo, r), s') →
      P (r.parentDir.opens ++ held) s' → Prog.wp (fun _ => True) (f (inodeNo, r)) Q s') :
    Prog.wp (fun _ => True) (ZyOs.searchFile env pathname >>= f) Q s :=
  Prog.wp_bind (Prog.wp_of_returns fun _ _ hrun =>
    hf _ _ _ hrun ((hP.searchFile h pathname).of_run hrun))

/-- A way out of a call: the directory is closed. -/
theorem close_return {d : DirPtr} (h : P (d.opens ++ held) s) {β : Type} (b : β) :
    Prog.wp (fun _ => True) (do ZyOs.dirClose d; return b) (fun _ s' => P held s') s :=
  Prog.wp_bind (Prog.wp_mono (hP.dirClose h) fun _ _ h' => Prog.wp_pure h')

end Tracks

/-- What `sys_open` still has open when it has made up its mind. -/
def OpenPlan.Keeps (env : FsEnv) (s : Fs) (pathname : List UInt8) (flags : Nat) (d : DirPtr) :
    OpenPlan → Prop
  | .refuse => d = .root
  | .create parentDir => d = parentDir
  | .existing _ => d = .root ∨ OpensBelowRoot env s pathname flags

theorem Tracks.openPlan {env : FsEnv} {P : List Nat → Fs → Prop} {s : Fs} {held : List Nat}
    (hP : Tracks env P) (h : P held s) (pathname : List UInt8) (flags : Nat) :
    Prog.wp (fun _ => True) (openPlan env pathname flags)
      (fun plan s' => ∃ d : DirPtr, P (d.opens ++ held) s' ∧
        plan.Keeps env s pathname flags d) s := by
  have hrefuse : ∀ (d : DirPtr) (s' : Fs), P (d.opens ++ held) s' →
      Prog.wp (fun _ => True) (do ZyOs.dirClose d; return OpenPlan.refuse) (fun plan s' =>
        ∃ d : DirPtr, P (d.opens ++ held) s' ∧ plan.Keeps env s pathname flags d) s' :=
    fun d s' h' => Prog.wp_bind (Prog.wp_mono (hP.dirClose h') fun _ _ h'' =>
      Prog.wp_pure ⟨.root, h'', rfl⟩)
  refine Prog.wp_ite (fun _ => Prog.wp_lift (fun _ hok => by simp at hok) fun _ _ => trivial)
    fun _ => Prog.wp_ite (fun _ => Prog.wp_pure ⟨.root, h, rfl⟩) fun hlast => ?_
  refine Prog.wp_bind ((reads_assertFs _ _ _).wp fun _ => ?_)
  refine Prog.wp_bind (Prog.wp_lift (fun depth hdepth => ?_) fun _ _ => trivial)
  refine hP.search_bind h fun inodeNo r s' hrun h' => ?_
  refine Prog.wp_ite (fun _ => hrefuse _ _ h') fun hty => ?_
  refine Prog.wp_bind (Prog.wp_lift (fun depth' hdepth' => ?_) fun _ _ => trivial)
  refine Prog.wp_ite (fun _ => hrefuse _ _ h') fun heq => Prog.wp_ite (fun _ => hrefuse _ _ h')
    fun hnew => Prog.wp_ite (fun _ => hrefuse _ _ h') fun hold => Prog.wp_ite (fun _ => ?_)
      fun hcreat => ?_
  · exact Prog.wp_pure ⟨r.parentDir, h', rfl⟩
  · refine Prog.wp_pure ⟨r.parentDir, h', ?_⟩
    by_cases hroot : r.parentDir = .root
    · exact .inl hroot
    · have hzero : flags &&& oCreat = 0 := by simpa using hcreat
      refine .inr ⟨hlast, hzero, inodeNo, r, s', hrun, fun hno => hnew ⟨hno, hzero⟩, hty, ?_, hroot⟩
      rw [hdepth, hdepth', not_ne_iff.mp heq]

/-! ### The calls -/

/-- The property survives that an entry or an inode is removed. -/
structure TracksRemovals (env : FsEnv) (P : List Nat → Fs → Prop) : Prop extends
    Tracks env P where
  perm : ∀ {held held' : List Nat} {s : Fs}, P held s → held.Perm held' → P held' s
  deleteDirEntry : ∀ {held : List Nat} {s : Fs} {d : DirPtr} (no : Nat), P (d.opens ++ held) s →
    Prog.wp (fun _ => True) (deleteDirEntry (d.inode s) no)
      (fun _ s' => P (d.opens ++ held) s') s
  inodeRelease : ∀ {held : List Nat} {s : Fs} (no : Nat), P held s →
    Prog.wp (fun _ => True) (inodeRelease env no) (fun _ s' => P held s') s

namespace TracksRemovals

variable {env : FsEnv} {P : List Nat → Fs → Prop} {s : Fs} {held : List Nat}
  (hP : TracksRemovals env P)
include hP

theorem sysUnlink (h : P held s) (pathname : List UInt8) :
    Prog.wp (fun _ => True) (sysUnlink env pathname) (fun _ s' => P held s') s := by
  refine Prog.wp_bind ((reads_assertFs _ _ _).wp fun _ => ?_)
  refine hP.search_bind h fun inodeNo r s₁ _ h₁ => ?_
  refine Prog.wp_bind ((reads_assertFs _ _ _).wp fun _ => ?_)
  refine Prog.wp_ite (fun _ => hP.close_return h₁ _) fun _ =>
    Prog.wp_ite (fun _ => hP.close_return h₁ _) fun _ => Prog.wp_get_bind ?_
  refine Prog.wp_ite (fun _ => hP.close_return h₁ _) fun _ => Prog.wp_get_bind ?_
  refine Prog.wp_bind (Prog.wp_mono (hP.deleteDirEntry _ h₁) fun _ s₂ h₂ => ?_)
  exact Prog.wp_bind (Prog.wp_mono (hP.inodeRelease _ h₂) fun _ _ h₃ => hP.close_return h₃ _)

theorem dirRemove {d : DirPtr} (h : P (d.opens ++ held) s) (child : Nat) :
    Prog.wp (fun _ => True) (dirRemove env (d.inode s) child)
      (fun _ s' => P (d.opens ++ held) s') s := by
  refine Prog.wp_get_bind (Prog.wp_bind ((reads_checkFirstBlockOnly _ _ _).wp fun _ => ?_))
  refine Prog.wp_bind (Prog.wp_mono (hP.deleteDirEntry _ h) fun _ s₁ h₁ => ?_)
  exact Prog.wp_bind (Prog.wp_mono (hP.inodeRelease _ h₁) fun _ _ h₂ => Prog.wp_pure h₂)

theorem sysRmdir (h : P held s) (pathname : List UInt8) :
    Prog.wp (fun _ => True) (sysRmdir env pathname) (fun _ s' => P held s') s := by
  refine hP.search_bind h fun inodeNo r s₁ _ h₁ => ?_
  refine Prog.wp_bind ((reads_assertFs _ _ _).wp fun _ => ?_)
  refine Prog.wp_ite (fun _ => hP.close_return h₁ _) fun _ =>
    Prog.wp_ite (fun _ => hP.close_return h₁ _) fun _ => ?_
  refine Prog.wp_bind (Prog.wp_mono (hP.dirOpen h₁ _) fun d s₂ h₂ => Prog.wp_get_bind ?_)
  have hend : ∀ (v : Int) (s' : Fs), P (d.opens ++ (r.parentDir.opens ++ held)) s' →
      Prog.wp (fun _ => True) (do dirClose d; dirClose r.parentDir; return v)
        (fun _ s'' => P held s'') s' := fun v s' h' =>
    Prog.wp_bind (Prog.wp_mono (hP.dirClose h') fun _ _ h'' => hP.close_return h'' v)
  refine Prog.wp_ite (fun _ => ?_) fun _ => hend _ _ h₂
  -- the parent is the one whose entry goes
  have hswap : P (r.parentDir.opens ++ (d.opens ++ held)) s₂ :=
    hP.perm h₂ (List.perm_append_comm_assoc _ _ _)
  refine Prog.wp_bind (Prog.wp_mono (hP.dirRemove hswap _) fun v s₃ h₃ => hend v s₃ ?_)
  exact hP.perm h₃ (List.perm_append_comm_assoc _ _ _)

end TracksRemovals

/-- The property is about nothing but what is open. -/
structure TracksCalls (env : FsEnv) (P : List Nat → Fs → Prop) : Prop extends Tracks env P where
  perm : ∀ {held held' : List Nat} {s : Fs}, P held s → held.Perm held' → P held' s
  quiet : ∀ {held : List Nat} {s s' : Fs}, P held s → Quiet s s' → P held s'
  tasks : ∀ {held : List Nat} {s : Fs} (f : Nat → FdTask), P held s → P held { s with tasks := f }

namespace TracksCalls

variable {env : FsEnv} {P : List Nat → Fs → Prop} {s : Fs} {held : List Nat}
  (hP : TracksCalls env P)
include hP

/-- A step below the calls. -/
theorem quiet_bind (h : P held s) {β γ : Type} {x : FsM β} (hx : KeepsQuiet x) {f : β → FsM γ}
    {Q : γ → Fs → Prop} (hf : ∀ b s', P held s' → Prog.wp (fun _ => True) (f b) Q s') :
    Prog.wp (fun _ => True) (x >>= f) Q s :=
  Prog.wp_bind (Prog.wp_mono ((hx s).wp (Quiet.refl s)) fun b s' hq => hf b s' (hP.quiet h hq))

theorem inodeRelease (h : P held s) (no : Nat) :
    Prog.wp (fun _ => True) (inodeRelease env no) (fun _ s' => P held s') s := by
  refine Prog.wp_bind (Prog.wp_of_returns fun a s₁ hrun => Prog.wp_get_bind ?_)
  refine Prog.wp_bind ((reads_assertFs _ _ _).wp fun _ => ?_)
  refine hP.quiet_bind (hP.opened h hrun) (quiet_releaseBlocks a) fun _ s₂ h₂ => ?_
  refine hP.quiet_bind h₂ (quiet_setInodeBit _ _) fun _ s₃ h₃ => ?_
  refine hP.quiet_bind h₃ (quiet_bitmapSync _ _) fun _ s₄ h₄ => ?_
  refine hP.quiet_bind h₄ (quiet_inodeDelete _ _) fun _ s₅ h₅ => ?_
  exact Prog.wp_of_run (inodeClose_run a s₅) (hP.closed h₅)

theorem removals : TracksRemovals env P where
  opened := hP.opened
  closed := hP.closed
  perm := hP.perm
  deleteDirEntry := fun {_} {s} {_} no h =>
    Prog.wp_mono ((quiet_deleteDirEntry _ no s).wp (Quiet.refl s)) fun _ _ hq => hP.quiet h hq
  inodeRelease := fun no h => hP.inodeRelease h no

theorem makeDir {d : DirPtr} (h : P (d.opens ++ held) s) (dirname : List UInt8) (no : Nat) :
    Prog.wp (fun _ => True) (makeDir d dirname no) (fun _ s' => P held s') s := by
  refine hP.quiet_bind h quiet_blockBitmapAlloc fun lba s₁ h₁ => Prog.wp_ite (fun _ => ?_)
    fun _ => Prog.wp_get_bind ?_
  · exact hP.quiet_bind h₁ (quiet_setInodeBit _ _) fun _ s₂ h₂ => hP.close_return h₂ _
  refine Prog.wp_bind ((reads_assertFs _ _ _).wp fun _ => ?_)
  refine hP.quiet_bind h₁ (quiet_bitmapSync _ _) fun _ s₂ h₂ => Prog.wp_get_bind ?_
  refine hP.quiet_bind h₂ (quiet_writeSectors _ _ _) fun _ s₃ h₃ => ?_
  refine Prog.wp_bind (Prog.wp_lift (fun _ _ => Prog.wp_get_bind ?_) fun _ _ => trivial)
  refine hP.quiet_bind h₃ (quiet_syncDirEntry _ _ _) fun ok s₄ h₄ => Prog.wp_ite (fun _ => ?_)
    fun _ => ?_
  · refine Prog.wp_get_bind (hP.quiet_bind h₄ (quiet_inodeSync _ _) fun _ s₅ h₅ => ?_)
    refine hP.quiet_bind h₅ (quiet_inodeSync _ _) fun _ s₆ h₆ => ?_
    exact hP.quiet_bind h₆ (quiet_bitmapSync _ _) fun _ s₇ h₇ => hP.close_return h₇ _
  · exact hP.quiet_bind h₄ (quiet_setInodeBit _ _) fun _ s₅ h₅ => hP.close_return h₅ _

theorem sysMkdir (h : P held s) (pathname : List UInt8) :
    Prog.wp (fun _ => True) (sysMkdir env pathname) (fun _ s' => P held s') s := by
  refine hP.search_bind h fun inodeNo r s₁ _ h₁ => ?_
  refine Prog.wp_ite (fun _ => hP.close_return h₁ _) fun _ => ?_
  refine Prog.wp_bind (Prog.wp_lift (fun _ _ => ?_) fun _ _ => trivial)
  refine Prog.wp_bind (Prog.wp_lift (fun _ _ => ?_) fun _ _ => trivial)
  refine Prog.wp_ite (fun _ => hP.close_return h₁ _) fun _ => ?_
  refine hP.quiet_bind h₁ quiet_inodeBitmapAlloc fun no s₂ h₂ => ?_
  exact Prog.wp_ite (fun _ => hP.close_return h₂ _) fun _ => hP.makeDir h₂ _ _

/-- The handle `sys_opendir` returns is held on top. -/
theorem sysOpendir (h : P held s) (name : List UInt8) :
    Prog.wp (fun _ => True) (sysOpendir env name)
      (fun d s' => P ((d.map DirPtr.opens).getD [] ++ held) s') s := by
  refine Prog.wp_bind ((reads_assertFs _ _ _).wp fun _ => ?_)
  refine Prog.wp_ite (fun _ => Prog.wp_pure h) fun _ => ?_
  refine hP.search_bind h fun inodeNo r s₁ _ h₁ => ?_
  have hnone : Prog.wp (fun _ => True) (do dirClose r.parentDir; return none)
      (fun d s' => P ((d.map DirPtr.opens).getD [] ++ held) s') s₁ :=
    Prog.wp_bind (Prog.wp_mono (hP.dirClose h₁) fun _ _ h' => Prog.wp_pure h')
  refine Prog.wp_ite (fun _ => hnone) fun _ => Prog.wp_ite (fun _ => ?_) fun _ => hnone
  refine Prog.wp_bind (Prog.wp_mono (hP.dirOpen h₁ _) fun d s₂ h₂ => ?_)
  have hswap : P (r.parentDir.opens ++ (d.opens ++ held)) s₂ :=
    hP.perm h₂ (List.perm_append_comm_assoc _ _ _)
  exact Prog.wp_bind (Prog.wp_mono (hP.dirClose hswap) fun _ _ h' => Prog.wp_pure h')

theorem sysClosedir {d : DirPtr} (h : P (d.opens ++ held) s) :
    Prog.wp (fun _ => True) (sysClosedir (some d)) (fun _ s' => P held s') s :=
  hP.close_return h _

theorem sysChdir (h : P held s) (path : List UInt8) :
    Prog.wp (fun _ => True) (sysChdir env path) (fun _ s' => P held s') s := by
  refine hP.search_bind h fun inodeNo r s₁ _ h₁ => ?_
  refine Prog.wp_ite (fun _ => ?_) fun _ => hP.close_return h₁ _
  exact Prog.wp_bind (Prog.wp_modify (hP.close_return (hP.tasks _ h₁) _))

theorem sysStat (h : P held s) (path : List UInt8) :
    Prog.wp (fun _ => True) (sysStat env path) (fun _ s' => P held s') s := by
  refine Prog.wp_ite (fun _ => Prog.wp_get_bind (Prog.wp_pure h)) fun _ => ?_
  refine hP.search_bind h fun inodeNo r s₁ _ h₁ => ?_
  refine Prog.wp_ite (fun _ => hP.close_return h₁ none) fun _ => ?_
  refine Prog.wp_bind (Prog.wp_of_returns fun a s₂ hrun => Prog.wp_get_bind ?_)
  exact Prog.wp_bind (Prog.wp_of_run (inodeClose_run a s₂)
    (hP.close_return (hP.closed (hP.opened h₁ hrun)) _))

end TracksCalls

end ZyOs
