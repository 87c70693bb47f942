/-
Allocated memory goes back to the heap it came from: the system calls, in any order and by
any tasks.

It does as long as no process creates a file; when one does, its inode is in the kernel's
list and not in the kernel's heap, and `inode_close` later takes it for one of the
kernel's.
-/
import ZyOs.Kernel.HeapCalls
import ZyOs.Proofs.Heap

namespace ZyOs

open Library

variable {env : HeapEnv} {s s' s₀ : HeapFs} {c : Context}

/-! ### `search_file` -/

namespace HeapKept

theorem switch_bind (h : HeapKept env s₀ s) {d : Heaps.Dir} (hd : d.FitsIn env s₀.context)
    {no : Nat}
    {β : Type} {f : Heaps.Dir → HeapM β} {Q : β → HeapFs → Prop}
    (hf : ∀ d' s', HeapKept env s₀ s' → d'.FitsIn env s₀.context →
      Prog.wp HeapHalt.Elsewhere (f d') Q s') :
    Prog.wp HeapHalt.Elsewhere
      (do Heaps.dirClose env d; let d' ← Heaps.dirOpen env no; f d') Q s :=
  Prog.wp_bind (Prog.wp_mono (h.dirClose hd) fun _ _ h' =>
    Prog.wp_bind (Prog.wp_mono (h'.dirOpen no) fun d' s' hd' => hf d' s' hd'.1 hd'.2))

theorem searchLoop : ∀ (fuel : Nat) (subPath : Option (List UInt8)) (name : List UInt8)
    (r : Heaps.SearchRecord) (parentInodeNo dirE : UInt32) (s : HeapFs), HeapKept env s₀ s →
    r.parentDir.FitsIn env s₀.context →
    Prog.wp HeapHalt.Elsewhere (Heaps.searchLoop env fuel subPath name r parentInodeNo dirE)
      (fun res s' => HeapKept env s₀ s' ∧ res.2.parentDir.FitsIn env s₀.context) s := by
  have hP := undisturbed_heapKept env s₀
  intro fuel
  induction fuel with
  | zero => exact fun _ _ _ _ _ _ h hr => Prog.wp_pure ⟨h, hr⟩
  | succ fuel ih =>
      intro subPath name r parentInodeNo dirE s h hr
      refine Prog.wp_ite (fun _ => h.switch_bind hr fun d' s' h' hd' => Prog.wp_pure ⟨h', hd'⟩)
        fun _ => ?_
      refine hP.reads_bind h (reads_assertFs _ _ _) fun _ s₁ h₁ => ?_
      refine Prog.wp_ite (fun _ => ?_) fun _ => Prog.wp_get_bind ?_
      · exact wp_onFs (Prog.wp_lift (fun _ hok => by simp at hok) fun _ _ => trivial)
      refine Prog.wp_bind (Prog.wp_mono (h₁.searchDirEntry _ _) fun e s₂ h₂ => ?_)
      cases e with
      | none => exact Prog.wp_pure ⟨h₂, hr⟩
      | some e =>
          have hnext : ∀ (name : List UInt8) (subPath : Option (List UInt8))
              (r : Heaps.SearchRecord) (s : HeapFs), HeapKept env s₀ s →
              r.parentDir.FitsIn env s₀.context →
              Prog.wp HeapHalt.Elsewhere (do
                if e.fType = ftDirectory then
                  let s ← get
                  let parentInodeNo := (s.fs.inodes (r.parentDir.inode s)).iNo
                  Heaps.dirClose env r.parentDir
                  let parentDir ← Heaps.dirOpen env e.iNo.toNat
                  Heaps.searchLoop env fuel subPath name { r with parentDir := parentDir }
                    parentInodeNo e.iNo
                else if e.fType = ftRegular then
                  return (int32 e.iNo.toNat, { r with fileType := ftRegular })
                else
                  Heaps.searchLoop env fuel subPath name r parentInodeNo e.iNo)
                (fun res s' => HeapKept env s₀ s' ∧ res.2.parentDir.FitsIn env s₀.context) s := by
            intro name subPath r s h hr
            refine Prog.wp_ite (fun _ => Prog.wp_get_bind ?_) fun _ => Prog.wp_ite (fun _ => ?_)
              fun _ => ?_
            · exact h.switch_bind hr fun d' s' h' hd' => ih _ _ _ _ _ _ h' hd'
            · exact Prog.wp_pure ⟨h, hr⟩
            · exact ih _ _ _ _ _ _ h hr
          cases subPath with
          | none => exact Prog.wp_bind (Prog.wp_pure (hnext _ _ _ _ h₂ hr))
          | some p => exact hP.steady_bind h₂ (steady_lift _) fun _ s₃ h₃ => hnext _ _ _ _ h₃ hr

theorem searchFile (h : HeapKept env s₀ s) (pathname : List UInt8) :
    Prog.wp HeapHalt.Elsewhere (Heaps.searchFile env pathname)
      (fun res s' => HeapKept env s₀ s' ∧ res.2.parentDir.FitsIn env s₀.context) s := by
  have hP := undisturbed_heapKept env s₀
  refine Prog.wp_ite (fun _ => Prog.wp_pure ⟨h, trivial⟩) fun _ => ?_
  refine hP.reads_bind h (reads_assertFs _ _ _) fun _ s₁ h₁ => ?_
  exact hP.steady_bind h₁ (steady_lift _) fun _ s₂ h₂ => searchLoop _ _ _ _ _ _ _ h₂ trivial

/-- A call that begins with `search_file`. -/
theorem search_bind (h : HeapKept env s₀ s) {pathname : List UInt8} {β : Type}
    {f : Int × Heaps.SearchRecord → HeapM β} {Q : β → HeapFs → Prop}
    (hf : ∀ inodeNo r s', HeapKept env s₀ s' → r.parentDir.FitsIn env s₀.context →
      Prog.wp HeapHalt.Elsewhere (f (inodeNo, r)) Q s') :
    Prog.wp HeapHalt.Elsewhere (Heaps.searchFile env pathname >>= f) Q s :=
  Prog.wp_bind (Prog.wp_mono (h.searchFile pathname) fun r s' h' => hf r.1 r.2 s' h'.1 h'.2)

/-! ### `sys_open` -/

theorem openPlan (h : HeapKept env s₀ s) (pathname : List UInt8) (flags : Nat) :
    Prog.wp HeapHalt.Elsewhere (Heaps.openPlan env pathname flags)
      (fun plan s' => HeapKept env s₀ s' ∧
        ∀ d, plan = .create d → d.FitsIn env s₀.context) s := by
  have hP := undisturbed_heapKept env s₀
  refine Prog.wp_ite (fun _ => ?_) fun _ => Prog.wp_ite (fun _ => Prog.wp_pure ⟨h, nofun⟩)
    fun _ => ?_
  · exact wp_onFs (Prog.wp_lift (fun _ hok => by simp at hok) fun _ _ => trivial)
  refine hP.reads_bind h (reads_assertFs _ _ _) fun _ s₁ h₁ => ?_
  refine hP.steady_bind h₁ (steady_lift _) fun depth s₂ h₂ => ?_
  refine h₂.search_bind fun inodeNo r s₃ h₃ hr => ?_
  refine Prog.wp_ite (fun _ => h₃.close_then hr fun _ h' => ⟨h', nofun⟩) fun _ => ?_
  refine hP.steady_bind h₃ (steady_lift _) fun searched s₄ h₄ => ?_
  refine Prog.wp_ite (fun _ => h₄.close_then hr fun _ h' => ⟨h', nofun⟩) fun _ => ?_
  refine Prog.wp_ite (fun _ => h₄.close_then hr fun _ h' => ⟨h', nofun⟩) fun _ => ?_
  refine Prog.wp_ite (fun _ => h₄.close_then hr fun _ h' => ⟨h', nofun⟩) fun _ => ?_
  refine Prog.wp_ite (fun _ => Prog.wp_pure ⟨h₄, ?_⟩) fun _ => Prog.wp_pure ⟨h₄, nofun⟩
  intro d hd
  cases hd
  exact hr

end HeapKept

/-- The call creates a file. -/
def Heaps.Creates (env : HeapEnv) (s : HeapFs) : Heaps.Call → Prop
  | .open pathname flags => ∃ d s₁ fd s₂,
      Heaps.openPlan env pathname flags s = .ok (.create d, s₁) ∧
      Heaps.fileCreate env (d.inode s₁) (baseName pathname) flags s₁ = .ok (fd, s₂) ∧
      s₂.fs.openInodes ≠ s₁.fs.openInodes
  | _ => False

/-- The call creates a file, and the running task is a process. -/
def Heaps.ProcessCreates (env : HeapEnv) (s : HeapFs) (c : Heaps.Call) : Prop :=
  s.context ≠ .kernel ∧ Heaps.Creates env s c

/-- After a call: the heaps have been kept apart, but for the creation of a file by a
process. -/
def Heaps.Ends (env : HeapEnv) (s : HeapFs) (c : Heaps.Call) (s' : HeapFs) : Prop :=
  (¬ Heaps.ProcessCreates env s c → HeapKept env s s') ∧
    (Heaps.ProcessCreates env s c → Broken env s s')

theorem HeapKept.ends {call : Heaps.Call} (h : HeapKept env s s')
    (hno : ¬ Heaps.Creates env s call) :
    Heaps.Ends env s call s' :=
  ⟨fun _ => h, fun hc => absurd hc.2 hno⟩

theorem HeapKept.start (h : HeapsFit env none s) : HeapKept env s s := ⟨h, .refl s⟩

theorem HeapKept.sysOpen (h : HeapKept env s s) (pathname : List UInt8) (flags : Nat) :
    Prog.wp HeapHalt.Elsewhere (Heaps.sysOpen env pathname flags)
      (fun _ s' => Heaps.Ends env s (.open pathname flags) s') s := by
  refine Prog.wp_bind (Prog.wp_mono (Prog.wp_run (h.openPlan pathname flags)) ?_)
  rintro plan s₁ ⟨hplan, h₁, hd⟩
  cases plan with
  | refuse =>
      refine Prog.wp_pure (h₁.ends ?_)
      rintro ⟨d, s₂, fd, s₃, hplan', -⟩
      rw [hplan] at hplan'
      cases hplan'
  | existing no =>
      refine Prog.wp_mono (h₁.fileOpen no flags) fun _ s' h' => h'.ends ?_
      rintro ⟨d, s₂, fd, s₃, hplan', -⟩
      rw [hplan] at hplan'
      cases hplan'
  | create d =>
      have hd := hd d rfl
      have hstart : HeapKept env s₁ s₁ := .start h₁.fit
      refine Prog.wp_get_bind (Prog.wp_bind (Prog.wp_mono
        (Prog.wp_run (hstart.fileCreate (d.inode s₁) (baseName pathname) flags)) ?_))
      rintro fd s₂ ⟨hcreate, hnone | hsome⟩
      · -- the list is what it was
        have h₂ : HeapKept env s s₂ := ⟨hnone.fit, h₁.tasks.trans hnone.tasks⟩
        refine Prog.wp_mono (h₂.close_return hd fd) fun _ s' h' => h'.ends ?_
        rintro ⟨d', s₁', fd', s₂', hplan', hcreate', hne⟩
        rw [hplan] at hplan'
        cases hplan'
        rw [hcreate] at hcreate'
        cases hcreate'
        exact hne hnone.same
      · obtain ⟨a, ha, hpush⟩ := hsome.pushed
        have htasks := h₁.tasks.trans hsome.tasks
        by_cases hkernel : s.context = .kernel
        · have h₂ : HeapKept env s s₂ := ⟨hsome.fit (h₁.tasks.context.trans hkernel), htasks⟩
          exact Prog.wp_mono (h₂.close_return hd fd) fun _ s' h' =>
            ⟨fun _ => h', fun hc => absurd hkernel hc.1⟩
        · have hcreates : Heaps.ProcessCreates env s (.open pathname flags) := by
            refine ⟨hkernel, d, s₁, fd, s₂, hplan, hcreate, ?_⟩
            rw [hpush]
            exact List.cons_ne_self _ _
          have hbroken : Broken env s s₂ := by
            refine ⟨hsome.frees, htasks, a, ?_, ?_⟩
            · rw [hpush]
              exact List.mem_cons_self
            · rw [ha, h₁.tasks.context]
              exact hkernel
          exact Prog.wp_bind (Prog.wp_mono ((survives_broken env).dirClose hbroken hd)
            fun _ s' h' => Prog.wp_pure ⟨fun hc => absurd hcreates hc, fun _ => h'⟩)

namespace HeapKept

/-! ### The other calls -/

theorem sysClose (h : HeapKept env s₀ s) (fd : Int) :
    Prog.wp HeapHalt.Elsewhere (Heaps.sysClose env fd) (fun _ => HeapKept env s₀) s := by
  refine Prog.wp_ite (fun _ => ?_) fun _ => Prog.wp_pure h
  refine wp_onFs_bind fun g t hrun => ?_
  obtain ⟨-, hg, -, rfl⟩ := fdLocalToGlobal_run hrun
  refine Prog.wp_bind (Prog.wp_mono (h.fileClose hg) fun _ s₁ h₁ => ?_)
  exact (undisturbed_heapKept env s₀).steady_bind h₁ (steady_setFd _ _)
    fun _ _ h₂ => Prog.wp_pure h₂

theorem sysWrite (h : HeapKept env s₀ s) (fd : Int) (buf : Mem) (count : Nat) :
    Prog.wp HeapHalt.Elsewhere (Heaps.sysWrite env fd buf count) (fun _ => HeapKept env s₀) s := by
  refine Prog.wp_ite (fun _ => Prog.wp_pure h) fun _ => Prog.wp_ite (fun _ => ?_) fun _ => ?_
  · exact Prog.wp_ite (fun _ => Prog.wp_pure h) fun _ =>
      wp_onFs (Prog.wp_lift (fun _ hok => by simp at hok) fun _ _ => trivial)
  · refine (undisturbed_heapKept env s₀).reads_bind h (reads_fdLocalToGlobal _) fun g s₁ h₁ => ?_
    exact Prog.wp_get_bind (Prog.wp_ite (fun _ => h₁.fileWrite _ _ _) fun _ => Prog.wp_pure h₁)

theorem sysRead (h : HeapKept env s₀ s) (keys : Mem) (fd : Int) (buf : Mem) (count : Nat) :
    Prog.wp HeapHalt.Elsewhere (Heaps.sysRead env keys fd buf count)
      (fun _ => HeapKept env s₀) s := by
  refine Prog.wp_ite (fun _ => Prog.wp_pure h) fun _ => Prog.wp_ite (fun _ => Prog.wp_pure h)
    fun _ => ?_
  exact (undisturbed_heapKept env s₀).reads_bind h (reads_fdLocalToGlobal _) fun g s₁ h₁ =>
    h₁.fileRead _ _ _

theorem sysUnlink (h : HeapKept env s₀ s) (pathname : List UInt8) :
    Prog.wp HeapHalt.Elsewhere (Heaps.sysUnlink env pathname) (fun _ => HeapKept env s₀) s := by
  have hP := undisturbed_heapKept env s₀
  refine hP.reads_bind h (reads_assertFs _ _ _) fun _ s₁ h₁ => ?_
  refine h₁.search_bind fun inodeNo r s₂ h₂ hr => ?_
  refine hP.reads_bind h₂ (reads_assertFs _ _ _) fun _ s₃ h₃ => ?_
  refine Prog.wp_ite (fun _ => h₃.close_return hr _) fun _ => ?_
  refine Prog.wp_ite (fun _ => h₃.close_return hr _) fun _ => Prog.wp_get_bind ?_
  refine Prog.wp_ite (fun _ => h₃.close_return hr _) fun _ => ?_
  refine hP.malloc_bind h₃ fun p s₄ h₄ hown => ?_
  cases p with
  | none => exact h₄.close_return hr _
  | some ioBuf =>
      refine Prog.wp_get_bind (hP.quiet_bind h₄ (quiet_deleteDirEntry _ _) fun _ s₅ h₅ => ?_)
      refine Prog.wp_bind (Prog.wp_mono (h₅.inodeRelease _) fun _ s₆ h₆ => ?_)
      exact hP.free_bind h₆ (hown ioBuf rfl) fun s₇ h₇ => h₇.close_return hr _

theorem mkdirRollback (h : HeapKept env s₀ s) {d : Heaps.Dir} (hd : d.FitsIn env s₀.context)
    {ioBuf : Nat} (hown : env.owner ioBuf = s₀.context) :
    Prog.wp HeapHalt.Elsewhere (Heaps.mkdirRollback env d ioBuf) (fun _ => HeapKept env s₀) s :=
  Prog.wp_bind (Prog.wp_mono (h.dirClose hd) fun _ _ h₁ =>
    (undisturbed_heapKept env s₀).free_bind h₁ hown fun _ h₂ => Prog.wp_pure h₂)

theorem quiet_makeDir (parentInode : Nat) (dirname : List UInt8) (inodeNo : Nat) :
    KeepsQuiet (Heaps.makeDir parentInode dirname inodeNo) := by
  intro s₀
  refine Prog.Preserves.bind (quiet_blockBitmapAlloc s₀) fun _ => Prog.Preserves.ite (fun _ => ?_)
    fun _ => Prog.Preserves.get_bind fun _ _ => ?_
  · exact Prog.Preserves.bind (quiet_setInodeBit _ _ s₀) fun _ => Prog.Preserves.pure _
  refine Prog.Preserves.bind (reads_assertFs _ _ _ _) fun _ =>
    Prog.Preserves.bind (quiet_bitmapSync _ _ s₀) fun _ => Prog.Preserves.get_bind fun _ _ =>
    Prog.Preserves.bind (quiet_writeSectors _ _ _ s₀) fun _ =>
    Prog.Preserves.bind (Prog.Preserves.lift _) fun _ =>
    Prog.Preserves.bind (quiet_syncDirEntry _ _ _ s₀) fun _ => Prog.Preserves.ite (fun _ => ?_)
      fun _ => ?_
  · exact Prog.Preserves.get_bind fun _ _ => Prog.Preserves.bind (quiet_inodeSync _ _ s₀) fun _ =>
      Prog.Preserves.bind (quiet_inodeSync _ _ s₀) fun _ =>
      Prog.Preserves.bind (quiet_bitmapSync _ _ s₀) fun _ => Prog.Preserves.pure _
  · exact Prog.Preserves.bind (quiet_setInodeBit _ _ s₀) fun _ => Prog.Preserves.pure _

theorem sysMkdir (h : HeapKept env s₀ s) (pathname : List UInt8) :
    Prog.wp HeapHalt.Elsewhere (Heaps.sysMkdir env pathname) (fun _ => HeapKept env s₀) s := by
  have hP := undisturbed_heapKept env s₀
  refine hP.malloc_bind h fun p s₁ h₁ hown => ?_
  cases p with
  | none => exact Prog.wp_pure h₁
  | some ioBuf =>
      have hbuf := hown ioBuf rfl
      refine h₁.search_bind fun inodeNo r s₂ h₂ hr => ?_
      refine Prog.wp_ite (fun _ => h₂.mkdirRollback hr hbuf) fun _ => ?_
      refine hP.steady_bind h₂ (steady_lift _) fun depth s₃ h₃ => ?_
      refine hP.steady_bind h₃ (steady_lift _) fun searched s₄ h₄ => ?_
      refine Prog.wp_ite (fun _ => h₄.mkdirRollback hr hbuf) fun _ => ?_
      refine hP.quiet_bind h₄ quiet_inodeBitmapAlloc fun no s₅ h₅ => ?_
      refine Prog.wp_ite (fun _ => h₅.mkdirRollback hr hbuf) fun _ => Prog.wp_get_bind ?_
      refine hP.quiet_bind h₅ (quiet_makeDir _ _ _) fun done s₆ h₆ => ?_
      refine Prog.wp_ite (fun _ => ?_) fun _ => h₆.mkdirRollback hr hbuf
      exact hP.free_bind h₆ hbuf fun s₇ h₇ => h₇.close_return hr _

theorem sysOpendir (h : HeapKept env s₀ s) (name : List UInt8) :
    Prog.wp HeapHalt.Elsewhere (Heaps.sysOpendir env name) (fun res s' => HeapKept env s₀ s' ∧
      ∀ d, res = some d → d.FitsIn env s₀.context) s := by
  refine (undisturbed_heapKept env s₀).reads_bind h (reads_assertFs _ _ _) fun _ s₁ h₁ => ?_
  refine Prog.wp_ite (fun _ => Prog.wp_pure ⟨h₁, fun d hd => ?_⟩) fun _ => ?_
  · cases hd
    trivial
  refine h₁.search_bind fun inodeNo r s₂ h₂ hr => ?_
  refine Prog.wp_ite (fun _ => h₂.close_then hr fun _ h' => ⟨h', nofun⟩) fun _ =>
    Prog.wp_ite (fun _ => ?_) fun _ => h₂.close_then hr fun _ h' => ⟨h', nofun⟩
  refine Prog.wp_bind (Prog.wp_mono (h₂.dirOpen _) fun d s₃ h₃ => ?_)
  refine h₃.1.close_then hr fun _ h' => ⟨h', fun d' hd => ?_⟩
  cases hd
  exact h₃.2

theorem sysClosedir (h : HeapKept env s₀ s) {dir : Option Heaps.Dir}
    (hd : ∀ d, dir = some d → d.FitsIn env s₀.context) :
    Prog.wp HeapHalt.Elsewhere (Heaps.sysClosedir env dir) (fun _ => HeapKept env s₀) s := by
  cases dir with
  | none => exact Prog.wp_pure h
  | some d => exact h.close_return (hd d rfl) _

theorem sysRmdir (h : HeapKept env s₀ s) (pathname : List UInt8) :
    Prog.wp HeapHalt.Elsewhere (Heaps.sysRmdir env pathname) (fun _ => HeapKept env s₀) s := by
  refine h.search_bind fun inodeNo r s₁ h₁ hr => ?_
  refine (undisturbed_heapKept env s₀).reads_bind h₁ (reads_assertFs _ _ _) fun _ s₂ h₂ => ?_
  refine Prog.wp_ite (fun _ => h₂.close_return hr _) fun _ => ?_
  refine Prog.wp_ite (fun _ => h₂.close_return hr _) fun _ => ?_
  refine Prog.wp_bind (Prog.wp_mono (h₂.dirOpen _) fun d s₃ h₃ => Prog.wp_get_bind ?_)
  refine Prog.wp_ite (fun _ => ?_) fun _ => ?_
  · refine Prog.wp_bind (Prog.wp_mono (h₃.1.dirRemove _ _) fun _ s₄ h₄ => ?_)
    exact Prog.wp_bind (Prog.wp_mono (h₄.dirClose h₃.2) fun _ s₅ h₅ => h₅.close_return hr _)
  · exact Prog.wp_bind (Prog.wp_mono (h₃.1.dirClose h₃.2) fun _ s₄ h₄ => h₄.close_return hr _)

theorem sysStat (h : HeapKept env s₀ s) (path : List UInt8) :
    Prog.wp HeapHalt.Elsewhere (Heaps.sysStat env path) (fun _ => HeapKept env s₀) s := by
  refine Prog.wp_ite (fun _ => Prog.wp_get_bind (Prog.wp_pure h)) fun _ => ?_
  refine h.search_bind fun inodeNo r s₁ h₁ hr => ?_
  refine Prog.wp_ite (fun _ => h₁.close_return hr _) fun _ => ?_
  refine Prog.wp_bind (Prog.wp_mono (h₁.inodeOpen _) fun a s₂ h₂ => Prog.wp_get_bind ?_)
  exact Prog.wp_bind (Prog.wp_mono (h₂.1.inodeClose h₂.2) fun _ s₃ h₃ => h₃.close_return hr _)

end HeapKept

/-! ### Runs -/

/-- The heap of task `t`. -/
def HeapFs.contextOf (s : HeapFs) (t : Nat) : Context :=
  if (s.fs.tasks t).pgDir then .process t else .kernel

/-- The state in which task `t` is about to make a call. -/
def HeapFs.running (s : HeapFs) (t : Nat) : HeapFs := { s with fs := { s.fs with cur := t } }

/-- The heaps are apart: what has been freed has gone to its heap, the open inodes are in
the kernel's heap, and no call is going to pass to `sys_free` what is not in the kernel's heap
where that is asked for. -/
structure HeapsApart (env : HeapEnv) (s : HeapSys) : Prop where
  frees : ∀ x ∈ s.heaps.frees, env.owner x.1 = x.2
  opened : ∀ a ∈ s.heaps.fs.openInodes, env.owner a = .kernel
  asserts : ∀ a e, s.Enabled a → heapExec env a s = .error e → e.Elsewhere

/-- With it goes that the entries of the file table and the handles fit. -/
structure HeapInv (env : HeapEnv) (s : HeapSys) : Prop where
  fit : HeapsFit env none s.heaps
  handles : ∀ x ∈ s.handles, x.2.FitsIn env (s.heaps.contextOf x.1)

theorem SameTasks.contextOf (h : SameTasks s₀ s) (t : Nat) : s.contextOf t = s₀.contextOf t := by
  unfold HeapFs.contextOf
  rw [h.pgDir]

/-- What a call leaves, with the handles that are open then. -/
def Heaps.Leaves (env : HeapEnv) (s : HeapSys) (a : Nat × Heaps.Call) (s' : HeapSys) : Prop :=
  (¬ Heaps.ProcessCreates env (s.heaps.running a.1) a.2 → HeapInv env s') ∧
    (Heaps.ProcessCreates env (s.heaps.running a.1) a.2 →
      ∃ b ∈ s'.heaps.fs.openInodes, env.owner b ≠ .kernel)

theorem wp_heapExec {s : HeapSys} {a : Nat × Heaps.Call} {Q : Unit → HeapSys → Prop}
    (h : Prog.wp HeapHalt.Elsewhere (a.2.exec env s.handles)
      (fun handles heaps => Q () ⟨heaps, handles⟩) (s.heaps.running a.1)) :
    Prog.wp HeapHalt.Elsewhere (heapExec env a) Q s := by
  have hrun : a.2.execBy env a.1 s.handles s.heaps = a.2.exec env s.handles
      (s.heaps.running a.1) := Prog.bind_of_run (Prog.modify_run _ _)
  unfold Prog.wp heapExec
  rw [hrun]
  cases hexec : a.2.exec env s.handles (s.heaps.running a.1) with
  | ok r => exact h.of_run hexec
  | error e => exact h.of_error hexec

theorem HeapInv.start {s : HeapSys} (h : HeapInv env s) (t : Nat) :
    HeapKept env (s.heaps.running t) (s.heaps.running t) :=
  .start ⟨h.fit.frees, h.fit.opened, h.fit.table⟩

theorem HeapInv.keep {s : HeapSys} (h : HeapInv env s) {t : Nat}
    (hk : HeapKept env (s.heaps.running t) s') : HeapInv env ⟨s', s.handles⟩ where
  fit := hk.fit
  handles := by
    intro x hx
    show x.2.FitsIn env (s'.contextOf x.1)
    rw [hk.tasks.contextOf]
    exact h.handles x hx

/-- A task fits the handles it can use. -/
theorem HeapSys.Shares.context {s : HeapSys} {t u : Nat} (h : s.Shares t u) :
    (s.heaps.running t).context = s.heaps.contextOf u := by
  show s.heaps.contextOf t = _
  rcases h with rfl | ⟨ht, hu⟩
  · rfl
  · rw [HeapFs.contextOf, HeapFs.contextOf, ht, hu]
    rfl

/-- A call that creates nothing. -/
theorem HeapInv.leaves {s : HeapSys} {a : Nat × Heaps.Call} {s₁ : HeapSys} (h : HeapInv env s₁)
    (hno : ¬ Heaps.Creates env (s.heaps.running a.1) a.2) : Heaps.Leaves env s a s₁ :=
  ⟨fun _ => h, fun hc => absurd hc.2 hno⟩

/-- **One call**, of any task: it does not stop in `sys_free`, and it keeps the heaps apart
unless a process creates a file with it. -/
theorem HeapInv.step {s : HeapSys} (h : HeapInv env s) {a : Nat × Heaps.Call} (hen : s.Enabled a) :
    Prog.wp HeapHalt.Elsewhere (heapExec env a) (fun _ s' => Heaps.Leaves env s a s') s := by
  obtain ⟨t, call⟩ := a
  have hstart := h.start t
  -- what is left of a call after its system call
  have hreturn : ∀ {β : Type} {x : HeapM β}, ¬ Heaps.Creates env (s.heaps.running t) call →
      Prog.wp HeapHalt.Elsewhere x (fun _ => HeapKept env (s.heaps.running t)) (s.heaps.running t) →
      Prog.wp HeapHalt.Elsewhere (do let _ ← x; return s.handles)
        (fun handles heaps => Heaps.Leaves env s (t, call) ⟨heaps, handles⟩)
        (s.heaps.running t) := fun hno hx =>
    Prog.wp_bind (Prog.wp_mono hx fun _ s₁ h₁ => Prog.wp_pure ((h.keep h₁).leaves hno))
  refine wp_heapExec ?_
  cases call with
  | «open» pathname flags =>
      refine Prog.wp_bind (Prog.wp_mono (hstart.sysOpen pathname flags) fun _ s₁ h₁ => ?_)
      exact Prog.wp_pure ⟨fun hc => h.keep (h₁.1 hc), fun hc => (h₁.2 hc).broken⟩
  | read keys fd buf count => exact hreturn id (hstart.sysRead keys fd buf count)
  | write fd buf count => exact hreturn id (hstart.sysWrite fd buf count)
  | close fd => exact hreturn id (hstart.sysClose fd)
  | mkdir pathname => exact hreturn id (hstart.sysMkdir pathname)
  | opendir name =>
      refine Prog.wp_bind (Prog.wp_mono (hstart.sysOpendir name) fun res s₁ h₁ => ?_)
      have hkeep := h.keep h₁.1
      cases res with
      | none => exact Prog.wp_pure (hkeep.leaves id)
      | some dir =>
          have hnew : dir.FitsIn env (s₁.contextOf s₁.fs.cur) := by
            rw [show s₁.contextOf s₁.fs.cur = s₁.context from rfl, h₁.1.tasks.context]
            exact h₁.2 dir rfl
          have hinv : HeapInv env ⟨s₁, (s₁.fs.cur, dir) :: s.handles⟩ :=
            ⟨hkeep.fit, List.forall_mem_cons.mpr ⟨hnew, hkeep.handles⟩⟩
          exact Prog.wp_get_bind (Prog.wp_pure (hinv.leaves id))
  | closedir handle =>
      cases handle with
      | none => exact hreturn id (hstart.sysClosedir nofun)
      | some x =>
          obtain ⟨u, dir⟩ := x
          have hdir : dir.FitsIn env (s.heaps.running t).context :=
            hen.2.context ▸ h.handles (u, dir) hen.1
          refine Prog.wp_bind (Prog.wp_mono (hstart.sysClosedir fun d hd => ?_) fun _ s₁ h₁ => ?_)
          · cases hd
            exact hdir
          · have hkeep := h.keep h₁
            have hinv : HeapInv env ⟨s₁, s.handles.erase (u, dir)⟩ :=
              ⟨hkeep.fit, fun y hy => hkeep.handles y (List.mem_of_mem_erase hy)⟩
            exact Prog.wp_pure (hinv.leaves id)
  | unlink pathname => exact hreturn id (hstart.sysUnlink pathname)
  | rmdir pathname => exact hreturn id (hstart.sysRmdir pathname)
  | stat path => exact hreturn id (hstart.sysStat path)

theorem HeapInv.apart {s : HeapSys} (h : HeapInv env s) : HeapsApart env s :=
  ⟨h.fit.frees, h.fit.opened, fun _ _ hen hrun => (h.step hen).of_error hrun⟩

theorem heapMachine_init {s : HeapSys} (h : (heapMachine env).init s) : HeapInv env s := by
  obtain ⟨hhandles, s₀, hboot, hrun⟩ := h
  have hfit : HeapsFit env none s₀ := by
    refine ⟨fun x hx => ?_, fun a ha => ?_, fun g hg _ a ha => ?_⟩
    · rw [hboot.frees] at hx
      cases hx
    · rw [hboot.openInodes] at ha
      cases ha
    · rw [hboot.fileTable g hg] at ha
      cases ha
  have hwp : Prog.wp HeapHalt.Elsewhere (Heaps.filesysInit env)
      (fun _ s' => HeapsFit env none s') s₀ := by
    refine Prog.wp_get_bind (Prog.wp_bind (Prog.wp_mono ((HeapKept.start hfit).inodeOpen _)
      fun a s₁ h₁ => ?_))
    refine wp_onFs_bind fun _ t hrun => wp_onFs (Prog.wp_modify ?_)
    cases hrun
    refine ⟨h₁.1.fit.frees, h₁.1.fit.opened, fun g hg hne b hb => ?_⟩
    have hb : (clearTable s₁.fs.fileTable g).fdInode = some b := hb
    unfold clearTable at hb
    split_ifs at hb
    exact h₁.1.fit.table g hg hne b hb
  refine ⟨hwp.of_run hrun, fun x hx => ?_⟩
  rw [hhandles] at hx
  cases hx

variable {hist : List (HeapSys × (Nat × Heaps.Call))}

/-- No process has created a file in the run. -/
def NoneCreated (env : HeapEnv) (hist : List (HeapSys × (Nat × Heaps.Call))) : Prop :=
  ∀ p ∈ hist, ¬ Heaps.ProcessCreates env (p.1.heaps.running p.2.1) p.2.2

theorem heapInv_of_run {s : HeapSys} (h : (heapMachine env).Run hist s)
    (hno : NoneCreated env hist) : HeapInv env s := by
  induction h with
  | start h => exact heapMachine_init h
  | next _ hen hrun ih =>
      have hinv := ih fun p hp => hno p (List.mem_cons_of_mem _ hp)
      exact ((hinv.step hen).of_run hrun).1 (hno _ List.mem_cons_self)

/-- When the heaps have been kept apart, no process has created a file. -/
theorem noneCreated_of_apart {s : HeapSys} (h : (heapMachine env).Run hist s)
    (hs : HeapsApart env s) (hall : ∀ p ∈ hist, HeapsApart env p.1) : NoneCreated env hist := by
  induction h with
  | start h => exact fun p hp => by cases hp
  | next hr hen hrun ih =>
      have hbefore := List.forall_mem_cons.mp hall
      have hnone := ih hbefore.1 hbefore.2
      refine List.forall_mem_cons.mpr ⟨fun hc => ?_, hnone⟩
      obtain ⟨b, hb, hown⟩ := (((heapInv_of_run hr hnone).step hen).of_run hrun).2 hc
      exact hown (hs.opened b hb)

/-- **The heaps are kept apart** in every state of a run just when no process has created a
file in it. -/
theorem heaps_apart_iff (env : HeapEnv) (hist : List (HeapSys × (Nat × Heaps.Call))) (s : HeapSys)
    (h : (heapMachine env).Run hist s) :
    (HeapsApart env s ∧ ∀ p ∈ hist, HeapsApart env p.1) ↔ NoneCreated env hist := by
  refine ⟨fun hall => noneCreated_of_apart h hall.1 hall.2, fun hno => ?_⟩
  induction h with
  | start h => exact ⟨(heapMachine_init h).apart, fun p hp => by cases hp⟩
  | next hr hen hrun ih =>
      have hbefore := ih fun p hp => hno p (List.mem_cons_of_mem _ hp)
      have hafter := heapInv_of_run (hr.next hen hrun) hno
      exact ⟨hafter.apart, List.forall_mem_cons.mpr hbefore⟩

/-! ### A kernel thread and a process -/

/-- Even addresses are the kernel's, odd ones those of process 1; no other has memory. -/
def splitEnv : HeapEnv where
  newAddr c _ used := match c with
    | .kernel => some (2 * (used.sup id + 1))
    | .process 1 => some (2 * (used.sup id + 1) + 1)
    | .process _ => none
  owner a := if a % 2 = 0 then .kernel else .process 1
  newAddr_fresh := by
    intro c size used a h hmem
    have hle : a ≤ used.sup id := Finset.le_sup (f := id) hmem
    split at h <;> cases h <;> omega
  newAddr_owner := by
    intro c size used a h
    split at h <;> cases h
    · exact if_pos (by omega)
    · exact if_neg (by omega)

/-- Task 1 is a process, and task 0 is about to mount the partition. -/
def bootHeaps : HeapFs where
  fs := { emptyFs with tasks := fun t => { fdTable := fun _ => -1, pgDir := t == 1 } }
  frees := []

def mountedHeaps : HeapSys := ⟨(Heaps.filesysInit splitEnv).after bootHeaps, []⟩

theorem mountedHeaps_run : (heapMachine splitEnv).Run [] mountedHeaps :=
  .start ⟨rfl, bootHeaps, ⟨rfl, fun _ _ => rfl, rfl⟩, Prog.run_of_answer (by decide +kernel)⟩

/-- `open("/a", O_CREAT | O_RDWR)` -/
def createCall : Heaps.Call := .open [47, 97] 6

/-- The state it leads to when task `t` calls. -/
def createdHeaps (t : Nat) : HeapSys := (heapExec splitEnv (t, createCall)).after mountedHeaps

/-- The file is closed again. -/
def closedHeaps : HeapSys := (heapExec splitEnv (0, .close 3)).after (createdHeaps 0)

/-- A kernel thread may create files. -/
theorem heaps_apart_kernel : HeapsApart splitEnv closedHeaps ∧
    ∀ p ∈ [(createdHeaps 0, (0, Heaps.Call.close 3)), (mountedHeaps, (0, createCall))],
      HeapsApart splitEnv p.1 := by
  have hcreate : (heapMachine splitEnv).exec (0, createCall) mountedHeaps
      = .ok ((), createdHeaps 0) := Prog.run_of_answer (by decide +kernel)
  have hclose : (heapMachine splitEnv).exec (0, .close 3) (createdHeaps 0)
      = .ok ((), closedHeaps) := Prog.run_of_answer (by decide +kernel)
  have hopenable : (heapMachine splitEnv).enabled mountedHeaps (0, createCall) := trivial
  have hcloseable : (heapMachine splitEnv).enabled (createdHeaps 0) (0, .close 3) := trivial
  refine (heaps_apart_iff splitEnv _ closedHeaps
    ((mountedHeaps_run.next hopenable hcreate).next hcloseable hclose)).mpr ?_
  have hopen : (mountedHeaps.heaps.running 0).context = .kernel := by decide +kernel
  have hthen : ((createdHeaps 0).heaps.running 0).context = .kernel := by decide +kernel
  exact List.forall_mem_cons.mpr ⟨fun hc => hc.1 hthen, List.forall_mem_cons.mpr
    ⟨fun hc => hc.1 hopen, fun p hp => by cases hp⟩⟩

/-- The inode of a file that a process creates is in the kernel's list and in the heap of the
process; closing the file passes it to `sys_free` as one of the kernel's. -/
theorem heaps_mixed :
    (heapMachine splitEnv).Run [(mountedHeaps, (1, createCall))] (createdHeaps 1) ∧
    (∃ a ∈ (createdHeaps 1).heaps.fs.openInodes, splitEnv.owner a = .process 1) ∧
    ¬ HeapsApart splitEnv (createdHeaps 1) ∧
    heapExec splitEnv (1, .close 3) (createdHeaps 1)
      = .error (.inFree (.panic "sys_free" "(uint32_t)ptr >= K_HEAP_START")) := by
  have hcreate : (heapMachine splitEnv).exec (1, createCall) mountedHeaps
      = .ok ((), createdHeaps 1) := Prog.run_of_answer (by decide +kernel)
  have hopenable : (heapMachine splitEnv).enabled mountedHeaps (1, createCall) := trivial
  have hopen : ∃ a ∈ (createdHeaps 1).heaps.fs.openInodes, splitEnv.owner a = .process 1 := by
    decide +kernel
  have herror : (match heapExec splitEnv (1, .close 3) (createdHeaps 1) with
      | .error e => some e
      | .ok _ => none)
        = some (.inFree (.panic "sys_free" "(uint32_t)ptr >= K_HEAP_START")) := by decide +kernel
  refine ⟨mountedHeaps_run.next hopenable hcreate, hopen, fun h => ?_, ?_⟩
  · obtain ⟨a, ha, hown⟩ := hopen
    exact absurd ((h.opened a ha).symm.trans hown) nofun
  · cases hrun : heapExec splitEnv (1, .close 3) (createdHeaps 1) with
    | ok r => rw [hrun] at herror; cases herror
    | error e =>
        rw [hrun] at herror
        rw [Option.some.inj herror]

end ZyOs
