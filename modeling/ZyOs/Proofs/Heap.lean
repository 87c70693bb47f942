/-
Allocated memory goes back to the heap it came from: `fs/inode.c`, `fs/dir.c` and
`fs/file.c`.

A buffer is freed by the function that has allocated it, for the same task.  An inode is
allocated and freed with `pg_dir` put aside, but for the one `file_create` allocates: that
comes from the heap of whoever calls.  So a predicate about the heaps (`HeapKept`) is carried
along every path, and creation is the place where it can be lost.
-/
import ZyOs.Kernel.Heap
import ZyOs.Proofs.Writers

namespace ZyOs

open Library

/-- The kernel did not stop in `sys_free`. -/
def HeapHalt.Elsewhere : HeapHalt → Prop
  | .inFree _ => False
  | .elsewhere _ => True

/-! ### Steps that do not matter -/

/-- Between the two states nothing was opened, and no task has changed its heap. -/
structure Steady (s₀ s : Fs) : Prop where
  openInodes : s.openInodes = s₀.openInodes
  cur : s.cur = s₀.cur
  pgDir : ∀ t, (s.tasks t).pgDir = (s₀.tasks t).pgDir
  fdInode : ∀ g, (s.fileTable g).fdInode = (s₀.fileTable g).fdInode

def KeepsSteady {α : Type} (x : FsM α) : Prop := ∀ s₀, Prog.Preserves (Steady s₀) x

theorem Steady.refl (s : Fs) : Steady s s := ⟨rfl, rfl, fun _ => rfl, fun _ => rfl⟩

theorem Quiet.steady {s₀ s s' : Fs} (h : Steady s₀ s) (hq : Quiet s s') : Steady s₀ s' where
  openInodes := hq.openInodes.trans h.openInodes
  cur := hq.cur.trans h.cur
  pgDir := fun t => by rw [hq.tasks]; exact h.pgDir t
  fdInode := fun g => (hq.fdInode g).trans (h.fdInode g)

theorem KeepsQuiet.steady {α : Type} {x : FsM α} (hx : KeepsQuiet x) : KeepsSteady x :=
  fun _ s a s' h hrun => (hx s s a s' (Quiet.refl s) hrun).steady h

theorem ReadsOnly.steady {α : Type} {x : FsM α} (hx : ReadsOnly x) : KeepsSteady x :=
  fun s₀ => hx (Steady s₀)

theorem steady_lift {α : Type} (x : Kernel α) : KeepsSteady (Prog.lift x) :=
  fun _ => Prog.Preserves.lift x

theorem steady_putInode (a : Nat) (n : Inode) : KeepsSteady (putInode a n) :=
  fun _ => Prog.Preserves.modify fun _ h => ⟨h.openInodes, h.cur, h.pgDir, h.fdInode⟩

theorem steady_setFd (fd : Nat) (g : Int) : KeepsSteady (setFd fd g) := by
  refine fun _ => Prog.Preserves.get_bind fun s h => Prog.Preserves.set
    ⟨h.openInodes, h.cur, fun t => ?_, h.fdInode⟩
  rw [← h.pgDir t]
  show (if t = s.cur then (s.tasks t).setFd fd g else s.tasks t).pgDir = _
  split_ifs <;> rfl

theorem steady_pcbFdInstall (g : Nat) : KeepsSteady (pcbFdInstall g) := by
  refine fun s₀ => Prog.Preserves.get_bind fun s _ => ?_
  cases freeFdFrom (s.tasks s.cur).fdTable (maxFilesOpenPerProc - 3) 3 with
  | none => exact Prog.Preserves.pure _
  | some fd => exact Prog.Preserves.bind (steady_setFd _ _ s₀) fun _ => Prog.Preserves.pure _

/-! ### Rules -/

/-- A predicate about heaps: steps that do not matter keep it, and so does a pointer that is
freed for heap `c`, where it is from. -/
structure Undisturbed (env : HeapEnv) (c : Context) (P : HeapFs → Prop) : Prop where
  fs : ∀ {s : HeapFs} {t : Fs}, P s → Steady s.fs t → P { s with fs := t }
  freed : ∀ {s : HeapFs} {ptr : Nat}, P s → env.owner ptr = c →
    P { s with frees := (ptr, c) :: s.frees }
  context : ∀ {s : HeapFs}, P s → s.context = c

variable {α β : Type} {env : HeapEnv} {c : Context} {P : HeapFs → Prop} {s s' s₀ : HeapFs}
  {Q : β → HeapFs → Prop} {a ptr no size : Nat} {skip : Option Nat}

theorem wp_onFs {x : FsM α} {Q : α → HeapFs → Prop}
    (h : Prog.wp (fun _ => True) x (fun a t => Q a { s with fs := t }) s.fs) :
    Prog.wp HeapHalt.Elsewhere (onFs x) Q s := by
  unfold Prog.wp onFs
  cases hrun : x s.fs with
  | ok r => exact h.of_run hrun
  | error e => trivial

theorem wp_onFs_bind {x : FsM α} {f : α → HeapM β}
    (h : ∀ a t, x s.fs = .ok (a, t) →
      Prog.wp HeapHalt.Elsewhere (f a) Q { s with fs := t }) :
    Prog.wp HeapHalt.Elsewhere (onFs x >>= f) Q s :=
  Prog.wp_bind (wp_onFs (Prog.wp_of_returns h))

theorem sysMalloc_run
    (h : env.newAddr s.context size s.fs.heap = some a) : Heaps.sysMalloc env size s
      = .ok (some a, { s with fs := { s.fs with heap := insert a s.fs.heap } }) := by
  simp only [Heaps.sysMalloc]
  rw [Prog.bind_of_run (Prog.get_run s)]
  simp only [h]
  rfl

theorem onFs_run {x : FsM α} {r : α} {t : Fs} (h : x s.fs = .ok (r, t)) :
    onFs x s = .ok (r, { s with fs := t }) := by
  simp only [onFs, h]

/-- The file system's part of a step is known by its own rule. -/
theorem wp_onFs_returns {x : FsM α} {Q : α → HeapFs → Prop}
    (h : ∀ r t, x s.fs = .ok (r, t) → Q r { s with fs := t }) :
    Prog.wp (fun _ => True) (onFs x) Q s := by
  unfold Prog.wp onFs
  cases hrun : x s.fs with
  | ok r => exact h r.1 r.2 hrun
  | error e => trivial

theorem wp_onFs_run {x : FsM α} {f : α → HeapM β}
    (h : ∀ r t, x s.fs = .ok (r, t) →
      Prog.wp (fun _ => True) (f r) Q { s with fs := t }) :
    Prog.wp (fun _ => True) (onFs x >>= f) Q s :=
  Prog.wp_bind (wp_onFs_returns h)

namespace Undisturbed

variable (hP : Undisturbed env c P)
include hP

theorem wp_steady {x : FsM α} (h : P s) (hx : KeepsSteady x) :
    Prog.wp HeapHalt.Elsewhere (onFs x) (fun _ => P) s :=
  wp_onFs (Prog.wp_of_returns fun a t hrun => hP.fs h (hx s.fs s.fs a t (Steady.refl _) hrun))

theorem steady_bind {x : FsM α} (h : P s) (hx : KeepsSteady x) {f : α → HeapM β}
    (hf : ∀ a s', P s' → Prog.wp HeapHalt.Elsewhere (f a) Q s') :
    Prog.wp HeapHalt.Elsewhere (onFs x >>= f) Q s :=
  Prog.wp_bind (Prog.wp_mono (hP.wp_steady h hx) hf)

theorem quiet_bind {x : FsM α} (h : P s) (hx : KeepsQuiet x) {f : α → HeapM β}
    (hf : ∀ a s', P s' → Prog.wp HeapHalt.Elsewhere (f a) Q s') :
    Prog.wp HeapHalt.Elsewhere (onFs x >>= f) Q s :=
  hP.steady_bind h hx.steady hf

theorem reads_bind {x : FsM α} (h : P s) (hx : ReadsOnly x) {f : α → HeapM β}
    (hf : ∀ a s', P s' → Prog.wp HeapHalt.Elsewhere (f a) Q s') :
    Prog.wp HeapHalt.Elsewhere (onFs x >>= f) Q s :=
  hP.steady_bind h hx.steady hf

/-- What is allocated is from the heap of the running task. -/
theorem wp_malloc (h : P s) (size : Nat) :
    Prog.wp HeapHalt.Elsewhere (Heaps.sysMalloc env size)
      (fun p s' => P s' ∧ ∀ a, p = some a → env.owner a = c) s := by
  refine Prog.wp_get_bind ?_
  have hc := hP.context h
  cases hnew : env.newAddr s.context size s.fs.heap with
  | none => exact Prog.wp_pure ⟨h, fun _ ha => by cases ha⟩
  | some a =>
      refine Prog.wp_bind (Prog.wp_set (Prog.wp_pure ⟨?_, fun b hb => ?_⟩))
      · exact hP.fs h ⟨rfl, rfl, fun _ => rfl, fun _ => rfl⟩
      · cases hb
        rw [env.newAddr_owner hnew, hc]

theorem malloc_bind (h : P s) {f : Option Nat → HeapM β}
    (hf : ∀ p s', P s' → (∀ a, p = some a → env.owner a = c) →
      Prog.wp HeapHalt.Elsewhere (f p) Q s') :
    Prog.wp HeapHalt.Elsewhere (Heaps.sysMalloc env size >>= f) Q s :=
  Prog.wp_bind (Prog.wp_mono (hP.wp_malloc h size) fun p s' h' => hf p s' h'.1 h'.2)

/-- What is from that heap may be freed. -/
theorem wp_free (h : P s) (hown : env.owner ptr = c) :
    Prog.wp HeapHalt.Elsewhere (Heaps.sysFree env ptr) (fun _ => P) s := by
  have hc := hP.context h
  refine Prog.wp_get_bind (Prog.wp_bind (Prog.wp_set ?_))
  rw [hc]
  have hfreed := hP.freed h hown
  have hrest : Prog.wp HeapHalt.Elsewhere (modify fun s : HeapFs =>
      { s with fs := { s.fs with heap := s.fs.heap.erase ptr } }) (fun _ => P)
      { s with frees := (ptr, c) :: s.frees } :=
    Prog.wp_modify (hP.fs hfreed ⟨rfl, rfl, fun _ => rfl, fun _ => rfl⟩)
  refine Prog.wp_ite (fun hkernel => ?_) fun _ => hrest
  rw [Heaps.assertInHeap, if_pos (hown.trans hkernel)]
  exact hrest

theorem free_bind (h : P s) (hown : env.owner ptr = c) {f : Unit → HeapM β}
    (hf : ∀ s', P s' → Prog.wp HeapHalt.Elsewhere (f ()) Q s') :
    Prog.wp HeapHalt.Elsewhere (Heaps.sysFree env ptr >>= f) Q s :=
  Prog.wp_bind (Prog.wp_mono (hP.wp_free h hown) fun _ s' h' => hf s' h')

end Undisturbed

/-- A `NULL` that is used stops the kernel. -/
theorem wp_deref {func : String} {p : Option Nat} {Q : Nat → HeapFs → Prop}
    (h : ∀ a, p = some a → Q a s) : Prog.wp HeapHalt.Elsewhere (Heaps.deref func p) Q s := by
  cases p with
  | none => exact Prog.wp_lift (fun _ hok => by cases hok) fun e he => by cases he; trivial
  | some a => exact Prog.wp_pure (h a rfl)

/-! ### What is kept -/

/-- Everything freed has gone to its heap, and the inodes in the kernel's tables are in the
kernel's heap; entry `skip` of the file table may be another. -/
structure HeapsFit (env : HeapEnv) (skip : Option Nat) (s : HeapFs) : Prop where
  frees : ∀ x ∈ s.frees, env.owner x.1 = x.2
  opened : ∀ a ∈ s.fs.openInodes, env.owner a = .kernel
  table : ∀ g < maxFileOpen, some g ≠ skip → ∀ a, (s.fs.fileTable g).fdInode = some a →
    env.owner a = .kernel

/-- The same task runs, and all tasks have the heaps they had. -/
structure SameTasks (s₀ s : HeapFs) : Prop where
  cur : s.fs.cur = s₀.fs.cur
  pgDir : ∀ t, (s.fs.tasks t).pgDir = (s₀.fs.tasks t).pgDir

/-- Since `s₀` the heaps have been kept apart. -/
structure HeapKept (env : HeapEnv) (s₀ s : HeapFs) : Prop where
  fit : HeapsFit env none s
  tasks : SameTasks s₀ s

theorem SameTasks.refl (s : HeapFs) : SameTasks s s := ⟨rfl, fun _ => rfl⟩

theorem SameTasks.trans {s₁ : HeapFs} (h : SameTasks s₀ s₁) (h' : SameTasks s₁ s) :
    SameTasks s₀ s :=
  ⟨h'.cur.trans h.cur, fun t => (h'.pgDir t).trans (h.pgDir t)⟩

theorem SameTasks.context (h : SameTasks s₀ s) : s.context = s₀.context := by
  unfold HeapFs.context
  rw [h.cur, h.pgDir]

theorem SameTasks.steady (h : SameTasks s₀ s) {t : Fs} (hs : Steady s.fs t) :
    SameTasks s₀ { s with fs := t } :=
  ⟨hs.cur.trans h.cur, fun u => (hs.pgDir u).trans (h.pgDir u)⟩

theorem HeapsFit.steady (h : HeapsFit env skip s) {t : Fs} (hs : Steady s.fs t) :
    HeapsFit env skip { s with fs := t } where
  frees := h.frees
  opened := fun a (ha : a ∈ t.openInodes) => h.opened a (hs.openInodes ▸ ha)
  table := fun g hg hne a (ha : (t.fileTable g).fdInode = some a) =>
    h.table g hg hne a ((hs.fdInode g).symm.trans ha)

theorem HeapsFit.freed (h : HeapsFit env skip s) (hown : env.owner ptr = c) :
    HeapsFit env skip { s with frees := (ptr, c) :: s.frees } where
  frees := by
    intro x hx
    rcases List.mem_cons.mp hx with rfl | hx
    · exact hown
    · exact h.frees x hx
  opened := h.opened
  table := h.table

theorem undisturbed_heapKept (env : HeapEnv) (s₀ : HeapFs) :
    Undisturbed env s₀.context (HeapKept env s₀) where
  fs := fun h hs => ⟨h.fit.steady hs, h.tasks.steady hs⟩
  freed := fun h hown => ⟨h.fit.freed hown, ⟨h.tasks.cur, h.tasks.pgDir⟩⟩
  context := fun h => h.tasks.context

/-! ### `pg_dir` put aside -/

/-- The state when `pg_dir` of the running task is this. -/
def HeapFs.withPgDir (s : HeapFs) (pgDir : Bool) : HeapFs :=
  { s with fs := { s.fs with tasks := fun t =>
    if t = s.fs.cur then { s.fs.tasks t with pgDir := pgDir } else s.fs.tasks t } }

theorem withPgDir_pgDir (s : HeapFs) (b : Bool) (t : Nat) :
    ((s.withPgDir b).fs.tasks t).pgDir = if t = s.fs.cur then b else (s.fs.tasks t).pgDir := by
  show (if t = s.fs.cur then { s.fs.tasks t with pgDir := b } else s.fs.tasks t).pgDir = _
  split_ifs <;> rfl

theorem withPgDir_context (s : HeapFs) : (s.withPgDir false).context = .kernel := by
  have hb := withPgDir_pgDir s false s.fs.cur
  rw [if_pos rfl] at hb
  unfold HeapFs.context
  rw [show (s.withPgDir false).fs.cur = s.fs.cur from rfl, hb]
  rfl

theorem HeapsFit.withPgDir (h : HeapsFit env skip s) (b : Bool) :
    HeapsFit env skip (s.withPgDir b) :=
  ⟨h.frees, h.opened, h.table⟩

theorem SameTasks.aside (h : SameTasks s₀ s) :
    SameTasks (s₀.withPgDir false) (s.withPgDir false) := by
  refine ⟨h.cur, fun t => ?_⟩
  rw [withPgDir_pgDir, withPgDir_pgDir, h.cur, h.pgDir]

theorem SameTasks.back (h : SameTasks (s₀.withPgDir false) s) :
    SameTasks s₀ (s.withPgDir (s₀.fs.tasks s₀.fs.cur).pgDir) := by
  have hcur : s.fs.cur = s₀.fs.cur := h.cur
  refine ⟨hcur, fun t => ?_⟩
  rw [withPgDir_pgDir, h.pgDir, withPgDir_pgDir, hcur]
  split_ifs with ht
  · rw [ht]
  · rfl

theorem HeapKept.aside (h : HeapKept env s₀ s) :
    HeapKept env (s₀.withPgDir false) (s.withPgDir false) :=
  ⟨h.fit.withPgDir false, h.tasks.aside⟩

theorem HeapKept.back (h : HeapKept env (s₀.withPgDir false) s) :
    HeapKept env s₀ (s.withPgDir (s₀.fs.tasks s₀.fs.cur).pgDir) :=
  ⟨h.fit.withPgDir _, h.tasks.back⟩

theorem undisturbed_aside (env : HeapEnv) (s₀ : HeapFs) :
    Undisturbed env .kernel (HeapKept env (s₀.withPgDir false)) :=
  withPgDir_context s₀ ▸ undisturbed_heapKept env (s₀.withPgDir false)

/-! ### Closing -/

/-- A predicate that closing inodes of the kernel's heap keeps. -/
structure SurvivesClose (env : HeapEnv) (P : HeapFs → HeapFs → Prop) : Prop where
  undisturbed : ∀ s₀, Undisturbed env s₀.context (P s₀)
  tasks : ∀ {s₀ s}, P s₀ s → SameTasks s₀ s
  erase : ∀ {s₀ s : HeapFs} {a}, P s₀ s → env.owner a = .kernel →
    P s₀ { s with fs := { s.fs with openInodes := s.fs.openInodes.erase a } }
  aside : ∀ {s₀ s}, P s₀ s → P (s₀.withPgDir false) (s.withPgDir false)
  back : ∀ {s₀ s : HeapFs}, P (s₀.withPgDir false) s →
    P s₀ (s.withPgDir (s₀.fs.tasks s₀.fs.cur).pgDir)

theorem SurvivesClose.inodeClose {R : HeapFs → HeapFs → Prop} (hR : SurvivesClose env R)
    (h : R s₀ s) (ha : env.owner a = .kernel) :
    Prog.wp HeapHalt.Elsewhere (Heaps.inodeClose env a) (fun _ => R s₀) s := by
  have hP := hR.undisturbed s₀
  have hA : Undisturbed env .kernel (R (s₀.withPgDir false)) :=
    withPgDir_context s₀ ▸ hR.undisturbed (s₀.withPgDir false)
  have htasks := hR.tasks h
  refine Prog.wp_get_bind (hP.steady_bind h (steady_putInode _ _) fun _ s₁ h₁ => ?_)
  refine Prog.wp_ite (fun _ => ?_) fun _ => Prog.wp_pure h₁
  refine wp_onFs_bind fun _ t hrun => ?_
  cases hrun
  have h₂ := hR.erase h₁ ha
  refine Prog.wp_bind (Prog.wp_modify (hA.free_bind (hR.aside h₂) ha fun s₃ h₃ => ?_))
  refine Prog.wp_modify ?_
  have hbak : (s.fs.tasks s.fs.cur).pgDir = (s₀.fs.tasks s₀.fs.cur).pgDir := by
    rw [htasks.pgDir, htasks.cur]
  show R s₀ (s₃.withPgDir (s.fs.tasks s.fs.cur).pgDir)
  exact hbak ▸ hR.back h₃

theorem survives_kept (env : HeapEnv) : SurvivesClose env (HeapKept env) where
  undisturbed := undisturbed_heapKept env
  tasks := fun h => h.tasks
  erase := fun h _ => ⟨⟨h.fit.frees, fun b hb => h.fit.opened b (List.mem_of_mem_erase hb),
    h.fit.table⟩, ⟨h.tasks.cur, h.tasks.pgDir⟩⟩
  aside := HeapKept.aside
  back := HeapKept.back

/-- Everything freed has gone to its heap, but a process has an inode in the kernel's list. -/
structure Broken (env : HeapEnv) (s₀ s : HeapFs) : Prop where
  frees : ∀ x ∈ s.frees, env.owner x.1 = x.2
  tasks : SameTasks s₀ s
  broken : ∃ a ∈ s.fs.openInodes, env.owner a ≠ .kernel

theorem survives_broken (env : HeapEnv) : SurvivesClose env (Broken env) where
  undisturbed := fun s₀ =>
    ⟨fun h hs => ⟨h.frees, h.tasks.steady hs,
      h.broken.imp fun _ ha => ⟨hs.openInodes ▸ ha.1, ha.2⟩⟩,
      fun h hown => ⟨List.forall_mem_cons.mpr ⟨hown, h.frees⟩, ⟨h.tasks.cur, h.tasks.pgDir⟩,
        h.broken⟩,
      fun h => h.tasks.context⟩
  tasks := fun h => h.tasks
  erase := by
    intro s₀ s b h hb
    obtain ⟨a, hmem, ha⟩ := h.broken
    have hab : a ≠ b := fun hc => ha (hc ▸ hb)
    exact ⟨h.frees, ⟨h.tasks.cur, h.tasks.pgDir⟩, a, (List.mem_erase_of_ne hab).mpr hmem, ha⟩
  aside := fun h => ⟨h.frees, h.tasks.aside, h.broken⟩
  back := fun h => ⟨h.frees, h.tasks.back, h.broken⟩

namespace HeapKept

/-! ### `fs/inode.c` -/

theorem inodeClose (h : HeapKept env s₀ s) (ha : env.owner a = .kernel) :
    Prog.wp HeapHalt.Elsewhere (Heaps.inodeClose env a) (fun _ => HeapKept env s₀) s :=
  (survives_kept env).inodeClose h ha

theorem inodeOpen (h : HeapKept env s₀ s) (no : Nat) :
    Prog.wp HeapHalt.Elsewhere (Heaps.inodeOpen env no)
      (fun a s' => HeapKept env s₀ s' ∧ env.owner a = .kernel) s := by
  have hP := undisturbed_heapKept env s₀
  refine Prog.wp_get_bind ?_
  cases hfind : findOpen s.fs.inodes no s.fs.openInodes with
  | some a =>
      have hmem := (findOpen_some hfind).1
      exact hP.steady_bind h (steady_putInode _ _) fun _ s' h' =>
        Prog.wp_pure ⟨h', h.fit.opened a hmem⟩
  | none =>
      refine wp_onFs_bind fun inodePos t hrun => ?_
      obtain ⟨-, rfl⟩ := Prog.lift_run.mp hrun
      have hA := undisturbed_aside env s₀
      -- the inode comes from the kernel's heap, whoever runs
      refine Prog.wp_bind (Prog.wp_modify (hA.malloc_bind h.aside fun inodeFound s₁ h₁ hown => ?_))
      refine Prog.wp_bind (Prog.wp_modify ?_)
      have hbak : (s.fs.tasks s.fs.cur).pgDir = (s₀.fs.tasks s₀.fs.cur).pgDir := by
        rw [h.tasks.pgDir, h.tasks.cur]
      have h₂ : HeapKept env s₀ (s₁.withPgDir (s.fs.tasks s.fs.cur).pgDir) := hbak ▸ h₁.back
      refine hP.malloc_bind h₂ fun p s₃ h₃ hbuf => ?_
      refine Prog.wp_bind (wp_deref fun inodeBuf hp => ?_)
      refine hP.reads_bind h₃ (reads_readSectors _ _ _) fun buf s₄ h₄ => ?_
      refine Prog.wp_bind (wp_deref fun a ha => ?_)
      refine hP.steady_bind h₄ (steady_putInode _ _) fun _ s₅ h₅ => ?_
      refine wp_onFs_bind fun _ t hrun => ?_
      cases hrun
      have h₆ : HeapKept env s₀
          { s₅ with fs := { s₅.fs with openInodes := a :: s₅.fs.openInodes } } :=
        ⟨⟨h₅.fit.frees, List.forall_mem_cons.mpr ⟨hown a ha, h₅.fit.opened⟩, h₅.fit.table⟩,
          ⟨h₅.tasks.cur, h₅.tasks.pgDir⟩⟩
      exact hP.free_bind h₆ (hbuf inodeBuf hp) fun s₇ h₇ => Prog.wp_pure ⟨h₇, hown a ha⟩

theorem inodeRelease (h : HeapKept env s₀ s) (no : Nat) :
    Prog.wp HeapHalt.Elsewhere (Heaps.inodeRelease env no) (fun _ => HeapKept env s₀) s := by
  have hP := undisturbed_heapKept env s₀
  refine Prog.wp_bind (Prog.wp_mono (h.inodeOpen no) fun a s₁ h₁ => Prog.wp_get_bind ?_)
  obtain ⟨h₁, ha⟩ := h₁
  refine hP.reads_bind h₁ (reads_assertFs _ _ _) fun _ s₂ h₂ => ?_
  refine hP.quiet_bind h₂ (quiet_releaseBlocks _) fun _ s₃ h₃ => ?_
  refine hP.quiet_bind h₃ (quiet_setInodeBit _ _) fun _ s₄ h₄ => ?_
  refine hP.quiet_bind h₄ (quiet_bitmapSync _ _) fun _ s₅ h₅ => ?_
  refine hP.malloc_bind h₅ fun p s₆ h₆ hbuf => Prog.wp_bind (wp_deref fun ioBuf hp => ?_)
  refine hP.quiet_bind h₆ (quiet_inodeDelete _ _) fun _ s₇ h₇ => ?_
  exact hP.free_bind h₇ (hbuf ioBuf hp) fun s₈ h₈ => h₈.inodeClose ha

end HeapKept

/-! ### `fs/dir.c` -/

/-- The structure is in heap `c`, its inode in the kernel's. -/
def Heaps.Dir.FitsIn (env : HeapEnv) (c : Context) : Heaps.Dir → Prop
  | .root => True
  | .opened dir a => env.owner dir = c ∧ env.owner a = .kernel

theorem SurvivesClose.dirClose {R : HeapFs → HeapFs → Prop} (hR : SurvivesClose env R)
    (h : R s₀ s) {d : Heaps.Dir} (hd : d.FitsIn env s₀.context) :
    Prog.wp HeapHalt.Elsewhere (Heaps.dirClose env d) (fun _ => R s₀) s := by
  cases d with
  | root => exact Prog.wp_pure h
  | opened dir a =>
      exact Prog.wp_bind (Prog.wp_mono (hR.inodeClose h hd.2) fun _ s₁ h₁ =>
        (hR.undisturbed s₀).wp_free h₁ hd.1)

namespace HeapKept

theorem dirOpen (h : HeapKept env s₀ s) (no : Nat) :
    Prog.wp HeapHalt.Elsewhere (Heaps.dirOpen env no)
      (fun d s' => HeapKept env s₀ s' ∧ d.FitsIn env s₀.context) s := by
  refine (undisturbed_heapKept env s₀).malloc_bind h fun p s₁ h₁ hown => ?_
  refine Prog.wp_bind (Prog.wp_mono (h₁.inodeOpen no) fun a s₂ h₂ => ?_)
  exact Prog.wp_bind (wp_deref fun dir hp => Prog.wp_pure ⟨h₂.1, hown dir hp, h₂.2⟩)

theorem dirClose (h : HeapKept env s₀ s) {d : Heaps.Dir} (hd : d.FitsIn env s₀.context) :
    Prog.wp HeapHalt.Elsewhere (Heaps.dirClose env d) (fun _ => HeapKept env s₀) s :=
  (survives_kept env).dirClose h hd

/-- A way out of a call: the directory is closed. -/
theorem close_then (h : HeapKept env s₀ s) {d : Heaps.Dir} (hd : d.FitsIn env s₀.context) {b : β}
    (hQ : ∀ s', HeapKept env s₀ s' → Q b s') :
    Prog.wp HeapHalt.Elsewhere (do Heaps.dirClose env d; return b) Q s :=
  Prog.wp_bind (Prog.wp_mono (h.dirClose hd) fun _ s' h' => Prog.wp_pure (hQ s' h'))

theorem close_return (h : HeapKept env s₀ s) {d : Heaps.Dir} (hd : d.FitsIn env s₀.context)
    (b : β) :
    Prog.wp HeapHalt.Elsewhere (do Heaps.dirClose env d; return b)
      (fun _ => HeapKept env s₀) s :=
  h.close_then hd fun _ h' => h'

theorem searchDirEntry (h : HeapKept env s₀ s) (pdir : Nat) (name : List UInt8) :
    Prog.wp HeapHalt.Elsewhere (Heaps.searchDirEntry env pdir name)
      (fun _ => HeapKept env s₀) s := by
  have hP := undisturbed_heapKept env s₀
  refine hP.malloc_bind h fun p s₁ h₁ hall => ?_
  cases p with
  | none => exact Prog.wp_pure h₁
  | some allBlocks =>
      refine hP.malloc_bind h₁ fun p s₂ h₂ hbuf => Prog.wp_bind (wp_deref fun buf hp => ?_)
      refine hP.reads_bind h₂ (reads_searchDirEntry _ _) fun e s₃ h₃ => ?_
      refine hP.free_bind h₃ (hbuf buf hp) fun s₄ h₄ => ?_
      exact hP.free_bind h₄ (hall allBlocks rfl) fun s₅ h₅ => Prog.wp_pure h₅

theorem dirRemove (h : HeapKept env s₀ s) (parentDir childDir : Nat) :
    Prog.wp HeapHalt.Elsewhere (Heaps.dirRemove env parentDir childDir)
      (fun _ => HeapKept env s₀) s := by
  have hP := undisturbed_heapKept env s₀
  refine Prog.wp_get_bind (hP.reads_bind h (reads_checkFirstBlockOnly _ _ _) fun _ s₁ h₁ => ?_)
  refine hP.malloc_bind h₁ fun p s₂ h₂ hown => ?_
  cases p with
  | none => exact Prog.wp_pure h₂
  | some ioBuf =>
      refine hP.quiet_bind h₂ (quiet_deleteDirEntry _ _) fun _ s₃ h₃ => ?_
      refine Prog.wp_bind (Prog.wp_mono (h₃.inodeRelease _) fun _ s₄ h₄ => ?_)
      exact hP.free_bind h₄ (hown ioBuf rfl) fun s₅ h₅ => Prog.wp_pure h₅

end HeapKept

/-! ### Entries of the file table -/

theorem HeapsFit.allow (h : HeapsFit env none s) (g : Nat) : HeapsFit env (some g) s :=
  ⟨h.frees, h.opened, fun i hi _ => h.table i hi (by simp)⟩

theorem HeapsFit.withFile {g : Nat} (h : HeapsFit env (some g) s) (f : File) :
    HeapsFit env (some g) { s with fs := s.fs.withFile g f } where
  frees := h.frees
  opened := h.opened
  table := by
    intro i hi hne a ha
    have hig : i ≠ g := fun hc => hne (by rw [hc])
    rw [withFile_ne _ _ _ _ hig] at ha
    exact h.table i hi hne a ha

/-- An entry may refer to what is in the kernel's heap. -/
theorem HeapsFit.entry {g : Nat} {f : File} (h : HeapsFit env (some g) s)
    (hf : ∀ a, f.fdInode = some a → env.owner a = .kernel) :
    HeapsFit env none { s with fs := s.fs.withFile g f } where
  frees := h.frees
  opened := h.opened
  table := by
    intro i hi _ a ha
    by_cases hig : i = g
    · subst hig
      rw [withFile_self] at ha
      exact hf a ha
    · rw [withFile_ne _ _ _ _ hig] at ha
      exact h.table i hi (by simpa using hig) a ha

/-! ### `file_create` -/

/-- Nothing has been opened since `s₀`, and the heaps have been kept apart; in the kernel's
threads entry `skip` is no exception. -/
structure Creating (env : HeapEnv) (skip : Option Nat) (s₀ s : HeapFs) : Prop where
  fit : HeapsFit env skip s
  kernel : s₀.context = .kernel → HeapsFit env none s
  tasks : SameTasks s₀ s
  same : s.fs.openInodes = s₀.fs.openInodes

/-- A new inode is open, and it is in the heap of the running task. -/
structure Created (env : HeapEnv) (s₀ s : HeapFs) : Prop where
  fit : s₀.context = .kernel → HeapsFit env none s
  frees : ∀ x ∈ s.frees, env.owner x.1 = x.2
  tasks : SameTasks s₀ s
  pushed : ∃ a, env.owner a = s₀.context ∧ s.fs.openInodes = a :: s₀.fs.openInodes

theorem undisturbed_creating (env : HeapEnv) (skip : Option Nat) (s₀ : HeapFs) :
    Undisturbed env s₀.context (Creating env skip s₀) where
  fs := fun h hs => ⟨h.fit.steady hs, fun hc => (h.kernel hc).steady hs, h.tasks.steady hs,
    hs.openInodes.trans h.same⟩
  freed := fun h hown => ⟨h.fit.freed hown, fun hc => (h.kernel hc).freed hown,
    ⟨h.tasks.cur, h.tasks.pgDir⟩, h.same⟩
  context := fun h => h.tasks.context

theorem undisturbed_created (env : HeapEnv) (s₀ : HeapFs) :
    Undisturbed env s₀.context (Created env s₀) where
  fs := fun h hs => ⟨fun hc => (h.fit hc).steady hs, h.frees, h.tasks.steady hs,
    h.pushed.imp fun _ ha => ⟨ha.1, hs.openInodes.trans ha.2⟩⟩
  freed := fun h hown => ⟨fun hc => (h.fit hc).freed hown, List.forall_mem_cons.mpr ⟨hown, h.frees⟩,
    ⟨h.tasks.cur, h.tasks.pgDir⟩, h.pushed⟩
  context := fun h => h.tasks.context

/-- What `file_create` leaves: no new inode, or one that is in the heap of the caller. -/
theorem HeapKept.fileCreate (h : HeapKept env s₀ s) (parent : Nat) (filename : List UInt8)
    (flag : Nat) :
    Prog.wp HeapHalt.Elsewhere (Heaps.fileCreate env parent filename flag)
      (fun _ s' => Creating env none s s' ∨ Created env s s') s := by
  have hP := undisturbed_creating env none s
  have h₀ : Creating env none s s := ⟨h.fit, fun _ => h.fit, .refl s, rfl⟩
  refine hP.malloc_bind h₀ fun p s₁ h₁ hio => ?_
  cases p with
  | none => exact Prog.wp_pure (.inl h₁)
  | some ioBuf =>
      refine hP.quiet_bind h₁ quiet_inodeBitmapAlloc fun inodeNo s₂ h₂ => ?_
      refine Prog.wp_ite (fun _ => Prog.wp_pure (.inl h₂)) fun _ => ?_
      refine hP.malloc_bind h₂ fun p s₃ h₃ hnew => ?_
      cases p with
      | none =>
          refine hP.quiet_bind h₃ (quiet_setInodeBit _ _) fun _ s₄ h₄ => ?_
          exact hP.free_bind h₄ (hio ioBuf rfl) fun s₅ h₅ => Prog.wp_pure (.inl h₅)
      | some a =>
          have ha := hnew a rfl
          refine hP.steady_bind h₃ (steady_putInode _ _) fun _ s₄ h₄ => Prog.wp_get_bind ?_
          cases hslot : getFreeSlotInGlobal s₄.fs.fileTable with
          | none =>
              refine hP.free_bind h₄ ha fun s₅ h₅ => ?_
              refine hP.quiet_bind h₅ (quiet_setInodeBit _ _) fun _ s₆ h₆ => ?_
              exact hP.free_bind h₆ (hio ioBuf rfl) fun s₇ h₇ => Prog.wp_pure (.inl h₇)
          | some g =>
              have hG := undisturbed_creating env (some g) s
              -- from here on the entry refers to the new inode
              refine wp_onFs_bind fun _ t hrun => ?_
              cases hrun
              have h₅ :
                  Creating env (some g) s { s₄ with fs := s₄.fs.withFile g ⟨0, flag, some a⟩ } :=
                ⟨(h₄.fit.allow g).withFile _,
                  fun hc => (h₄.fit.allow g).entry fun _ hb => (Option.some.inj hb ▸ ha).trans hc,
                  ⟨h₄.tasks.cur, h₄.tasks.pgDir⟩, h₄.same⟩
              refine Prog.wp_get_bind (hG.steady_bind h₅ (steady_putInode _ _) fun _ s₆ h₆ => ?_)
              refine hG.steady_bind h₆ (steady_lift _) fun entry s₇ h₇ => ?_
              refine hG.quiet_bind h₇ (quiet_syncDirEntry _ _ _) fun done s₈ h₈ => ?_
              cases done with
              | true =>
                  refine Prog.wp_get_bind (hG.quiet_bind h₈ (quiet_inodeSync _ _) fun _ s₉ h₉ => ?_)
                  refine Prog.wp_get_bind (hG.quiet_bind h₉ (quiet_inodeSync _ _)
                    fun _ s₁₀ h₁₀ => ?_)
                  refine hG.quiet_bind h₁₀ (quiet_bitmapSync _ _) fun _ s₁₁ h₁₁ => ?_
                  refine wp_onFs_bind fun _ t hrun => ?_
                  cases hrun
                  have hC := undisturbed_created env s
                  have h₁₂ : Created env s
                      { s₁₁ with fs := { s₁₁.fs with openInodes := a :: s₁₁.fs.openInodes } } :=
                    ⟨fun hc => ⟨h₁₁.fit.frees,
                        List.forall_mem_cons.mpr ⟨ha.trans hc, h₁₁.fit.opened⟩,
                        (h₁₁.kernel hc).table⟩,
                      h₁₁.fit.frees, ⟨h₁₁.tasks.cur, h₁₁.tasks.pgDir⟩,
                      a, ha, congrArg (a :: ·) h₁₁.same⟩
                  refine Prog.wp_get_bind (hC.steady_bind h₁₂ (steady_putInode _ _)
                    fun _ s₁₃ h₁₃ => ?_)
                  refine hC.free_bind h₁₃ (hio ioBuf rfl) fun s₁₄ h₁₄ => ?_
                  exact Prog.wp_mono (hC.wp_steady h₁₄ (steady_pcbFdInstall g))
                    fun _ _ h' => .inr h'
              | false =>
                  refine wp_onFs_bind fun _ t hrun => ?_
                  cases hrun
                  have hfit : HeapsFit env none { s₈ with fs := s₈.fs.withFile g ⟨0, 0, none⟩ } :=
                    h₈.fit.entry nofun
                  have h₉ : Creating env none s { s₈ with fs := s₈.fs.withFile g ⟨0, 0, none⟩ } :=
                    ⟨hfit, fun _ => hfit, ⟨h₈.tasks.cur, h₈.tasks.pgDir⟩, h₈.same⟩
                  refine hP.free_bind h₉ ha fun s₁₀ h₁₀ => ?_
                  refine hP.quiet_bind h₁₀ (quiet_setInodeBit _ _) fun _ s₁₁ h₁₁ => ?_
                  exact hP.free_bind h₁₁ (hio ioBuf rfl) fun s₁₂ h₁₂ => Prog.wp_pure (.inl h₁₂)

namespace HeapKept

/-! ### The rest of `fs/file.c` -/

/-- An entry that refers to an inode in the kernel's heap, or to none. -/
theorem withFile (h : HeapKept env s₀ s) {f : File}
    (hf : ∀ a, f.fdInode = some a → env.owner a = .kernel) (g : Nat) :
    HeapKept env s₀ { s with fs := s.fs.withFile g f } :=
  ⟨(h.fit.allow g).entry hf, ⟨h.tasks.cur, h.tasks.pgDir⟩⟩

theorem fileOpen (h : HeapKept env s₀ s) (no flag : Nat) :
    Prog.wp HeapHalt.Elsewhere (Heaps.fileOpen env no flag) (fun _ => HeapKept env s₀) s := by
  have hP := undisturbed_heapKept env s₀
  refine Prog.wp_get_bind ?_
  cases hslot : getFreeSlotInGlobal s.fs.fileTable with
  | none => exact Prog.wp_pure h
  | some g =>
      refine Prog.wp_bind (Prog.wp_mono (h.inodeOpen no) fun a s₁ h₁ => ?_)
      refine wp_onFs_bind fun _ t hrun => ?_
      cases hrun
      have h₂ : HeapKept env s₀ { s₁ with fs := s₁.fs.withFile g ⟨0, flag, some a⟩ } :=
        h₁.1.withFile (f := ⟨0, flag, some a⟩) (fun _ hb => Option.some.inj hb ▸ h₁.2) g
      refine Prog.wp_ite (fun _ => Prog.wp_get_bind (Prog.wp_ite (fun _ => Prog.wp_pure h₂)
        fun _ => ?_)) fun _ => hP.wp_steady h₂ (steady_pcbFdInstall g)
      exact hP.steady_bind h₂ (steady_putInode _ _) fun _ s₃ h₃ =>
        hP.wp_steady h₃ (steady_pcbFdInstall g)

theorem fileClose (h : HeapKept env s₀ s) {g : Nat} (hg : g < maxFileOpen) :
    Prog.wp HeapHalt.Elsewhere (Heaps.fileClose env g) (fun _ => HeapKept env s₀) s := by
  refine wp_onFs_bind fun a t hrun => ?_
  obtain ⟨hentry, rfl⟩ := fdInodeOf_eq hrun
  have ha : env.owner a = .kernel := h.fit.table g hg (by simp) a hentry
  refine Prog.wp_get_bind ((undisturbed_heapKept env s₀).steady_bind h (steady_putInode _ _)
    fun _ s₁ h₁ => ?_)
  refine Prog.wp_bind (Prog.wp_mono (h₁.inodeClose ha) fun _ s₂ h₂ => Prog.wp_get_bind ?_)
  refine wp_onFs_bind fun _ t hrun => ?_
  cases hrun
  exact Prog.wp_pure (h₂.withFile (by exact nofun) g)

theorem fileWrite (h : HeapKept env s₀ s) (fd : Nat) (buf : Mem) (count : Nat) :
    Prog.wp HeapHalt.Elsewhere (Heaps.fileWrite env fd buf count) (fun _ => HeapKept env s₀) s := by
  have hP := undisturbed_heapKept env s₀
  refine hP.reads_bind h (reads_fdInodeOf _ _) fun a s₁ h₁ => Prog.wp_get_bind ?_
  refine Prog.wp_ite (fun _ => Prog.wp_pure h₁) fun _ => hP.malloc_bind h₁ fun p s₂ h₂ hio => ?_
  cases p with
  | none => exact Prog.wp_pure h₂
  | some ioBuf =>
      refine hP.malloc_bind h₂ fun p s₃ h₃ hall => ?_
      cases p with
      | none => exact Prog.wp_pure h₃
      | some allBlocks =>
          refine hP.quiet_bind h₃ (quiet_firstBlock _) fun first s₄ h₄ => ?_
          refine Prog.wp_ite (fun _ => ?_) fun _ => Prog.wp_pure h₄
          refine hP.reads_bind h₄ (reads_assertFs _ _ _) fun _ s₅ h₅ => ?_
          refine hP.quiet_bind h₅ (quiet_collectForWrite _ _ _) fun blocks s₆ h₆ => ?_
          cases blocks with
          | none => exact Prog.wp_pure h₆
          | some blocks =>
              refine hP.quiet_bind h₆ (quiet_setFdPos _ _) fun _ s₇ h₇ => ?_
              refine hP.quiet_bind h₇ (quiet_writeLoop _ _ _ _ _ _ _ _ _ _) fun r s₈ h₈ => ?_
              refine Prog.wp_get_bind (hP.quiet_bind h₈ (quiet_inodeSync _ _) fun _ s₉ h₉ => ?_)
              refine hP.free_bind h₉ (hall allBlocks rfl) fun s₁₀ h₁₀ => ?_
              exact hP.free_bind h₁₀ (hio ioBuf rfl) fun s₁₁ h₁₁ => Prog.wp_pure h₁₁

theorem readBytes (h : HeapKept env s₀ s) (fd a : Nat) (buf : Mem) (size : Nat) :
    Prog.wp HeapHalt.Elsewhere (Heaps.readBytes env fd a buf size)
      (fun _ => HeapKept env s₀) s := by
  have hP := undisturbed_heapKept env s₀
  refine hP.malloc_bind h fun p s₁ h₁ hio => hP.malloc_bind h₁ fun q s₂ h₂ hall => ?_
  cases q with
  | none => exact Prog.wp_pure h₂
  | some allBlocks =>
      refine Prog.wp_bind (wp_deref fun ioBuf hp => ?_)
      refine hP.quiet_bind h₂ (quiet_readBytes _ _ _ _) fun r s₃ h₃ => ?_
      refine hP.free_bind h₃ (hall allBlocks rfl) fun s₄ h₄ => ?_
      exact hP.free_bind h₄ (hio ioBuf hp) fun s₅ h₅ => Prog.wp_pure h₅

theorem fileRead (h : HeapKept env s₀ s) (fd : Nat) (buf : Mem) (count : Nat) :
    Prog.wp HeapHalt.Elsewhere (Heaps.fileRead env fd buf count) (fun _ => HeapKept env s₀) s := by
  refine (undisturbed_heapKept env s₀).reads_bind h (reads_fdInodeOf _ _) fun a s₁ h₁ => ?_
  refine Prog.wp_get_bind (Prog.wp_get_bind (Prog.wp_ite (fun _ => ?_) fun _ => ?_))
  · exact Prog.wp_ite (fun _ => Prog.wp_pure h₁) fun _ => h₁.readBytes _ _ _ _
  · exact h₁.readBytes _ _ _ _

end HeapKept

end ZyOs
