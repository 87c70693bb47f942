/-
The system calls give back what they take from the heap, or it is known which do not.

`sys_getcwd` in the root directory has a buffer that it does not use and does not free.
`file_write` and `file_read` ask for two buffers one after the other, and when there is
memory for the first one only, they return without freeing it.  Those are all the leaks of
the calls that open nothing.
-/
import ZyOs.Proofs.FileLimit
import ZyOs.Proofs.ForkFiles
import ZyOs.Proofs.Holding

namespace ZyOs

open Library

variable {env : HeapEnv} {Old : Others} {bufs held : List Nat} {s s' : HeapFs} {α β : Type}
  {a g p size no : Nat} {c : Context} {Q : β → HeapFs → Prop}

/-! ### Code that reads -/

theorem reads_childInBlocks (blocks : Nat → UInt32) (cInodeNr : Nat) : ∀ n blockIdx : Nat,
    ReadsOnly (childInBlocks blocks cInodeNr n blockIdx) := by
  intro n
  induction n with
  | zero => exact fun _ _ => Prog.Preserves.pure _
  | succ n ih =>
      intro blockIdx P
      refine Prog.Preserves.ite (fun _ => ih _ P) fun _ => Prog.Preserves.get_bind fun _ _ => ?_
      refine Prog.Preserves.bind (reads_readSectors _ _ _ P) fun ioBuf => ?_
      split
      · exact ih _ P
      · split
        · exact Prog.Preserves.pure _
        · exact Prog.Preserves.lift _

theorem reads_childName (blocks : Nat → UInt32) (blockCnt cInodeNr : Nat) (path : List UInt8) :
    ReadsOnly (Heaps.childName blocks blockCnt cInodeNr path) := by
  refine fun P => Prog.Preserves.bind (reads_childInBlocks _ _ _ _ P) fun res => ?_
  cases res with
  | none => exact Prog.Preserves.pure _
  | some filename =>
      exact Prog.Preserves.ite (fun _ => Prog.Preserves.pure _) fun _ => Prog.Preserves.lift _

/-! ### Blocks for a write -/

/-- The loop that takes blocks gets them, or a panic. -/
theorem wp_growLoop_some (a : Nat) : ∀ (n blockIdx : Nat) (blocks : Nat → UInt32) (s : Fs),
    s.part.DataFits → Prog.wp (fun _ => True) (growLoop a n blockIdx blocks)
      (fun r _ => ∃ blocks', r = some blocks') s := by
  intro n
  induction n with
  | zero => exact fun _ _ _ _ => Prog.wp_pure ⟨_, rfl⟩
  | succ n ih =>
      intro blockIdx blocks s hfit
      refine Prog.wp_bind (wp_blockBitmapAlloc (fun _ _ => trivial) hfit fun m hm _ => ?_)
      refine Prog.wp_ite (fun hc => absurd hc (by omega)) fun _ => ?_
      have hrest : ∀ (lba : Int) (t : Fs), t.part.DataFits → Prog.wp (fun _ => True) (do
            let blockBitmapIdx := (← get).part.blockBitmapIdx lba
            bitmapSync blockBitmapIdx .blockBitmap
            growLoop a n (blockIdx + 1) (storeBlock blocks blockIdx (u32 lba)))
          (fun r _ => ∃ blocks', r = some blocks') t := by
        intro lba t ht
        refine Prog.wp_get_bind (Prog.wp_bind (Prog.wp_of_returns fun _ t' hrun => ?_))
        exact ih _ _ _ ((quiet_bitmapSync _ _ t t _ t' (Quiet.refl t) hrun).alike.dataFits ht)
      refine Prog.wp_ite (fun _ => Prog.wp_get_bind ?_) fun _ => hrest _ _ (hfit.take m)
      refine Prog.wp_bind ((reads_assertFs _ _ _).wp fun _ => ?_)
      exact Prog.wp_bind (Prog.wp_of_run (putInode_run _ _ _) (hrest _ _ (hfit.take m)))

theorem wp_growTable_some {s : Fs} (hfit : s.part.DataFits) (a n blockIdx lba : Nat)
    (blocks : Nat → UInt32) :
    Prog.wp (fun _ => True) (do
      match ← growLoop a n blockIdx blocks with
      | none => return none
      | some blocks =>
          writeSectors lba (tableMem blocks) 1
          return some blocks) (fun r _ => ∃ blocks, r = some blocks) s := by
  refine Prog.wp_bind (Prog.wp_mono (wp_growLoop_some a n blockIdx blocks s hfit) ?_)
  rintro _ s' ⟨blocks', rfl⟩
  exact Prog.wp_bind (wp_writeSectors (fun _ _ => trivial) (Prog.wp_pure ⟨_, rfl⟩))

/-- The blocks a write needs are there, or a panic. -/
theorem wp_collect_some {s : Fs} (hfit : s.part.DataFits) (a has will : Nat) :
    Prog.wp (fun _ => True) (collectForWrite a has will)
      (fun r _ => ∃ blocks, r = some blocks) s := by
  refine Prog.wp_get_bind (Prog.wp_ite (fun _ => ?_) fun _ => Prog.wp_ite (fun _ => ?_) fun _ =>
    Prog.wp_ite (fun _ => ?_) fun _ => ?_)
  · refine Prog.wp_ite (fun _ => Prog.wp_pure ⟨_, rfl⟩) fun _ => ?_
    exact Prog.wp_bind ((reads_readTable _ _ _).wp fun _ => Prog.wp_pure ⟨_, rfl⟩)
  · exact Prog.wp_bind ((reads_assertFs _ _ _).wp fun _ => wp_growLoop_some _ _ _ _ _ hfit)
  · refine Prog.wp_bind (wp_blockBitmapAlloc (fun _ _ => trivial) hfit fun m hm _ => ?_)
    refine Prog.wp_ite (fun hc => absurd hc (by omega)) fun _ => ?_
    refine Prog.wp_bind ((reads_assertFs _ _ _).wp fun _ => ?_)
    exact Prog.wp_bind (Prog.wp_of_run (putInode_run _ _ _)
      (wp_growTable_some (hfit.take m) _ _ _ _ _))
  · exact Prog.wp_bind ((reads_readTable _ _ _).wp fun blocks =>
      wp_growTable_some hfit _ _ _ _ _)

namespace Holding

/-! ### Paths -/

section Paths

variable {d : Heaps.Dir} (hOld : Old.Stable)
include hOld

theorem sysUnlink (h : Holding Old bufs held s) (pathname : List UInt8) :
    Prog.wp (fun _ => True) (Heaps.sysUnlink env pathname) (fun _ => Holding Old bufs held) s := by
  refine h.reads_bind (reads_assertFs _ _ _) fun _ s₁ h₁ => ?_
  refine search_bind hOld h₁ fun inodeNo r s₂ h₂ => ?_
  refine h₂.reads_bind (reads_assertFs _ _ _) fun _ s₃ h₃ => ?_
  refine Prog.wp_ite (fun _ => close_return hOld h₃ _) fun _ => ?_
  refine Prog.wp_ite (fun _ => close_return hOld h₃ _) fun _ => Prog.wp_get_bind ?_
  refine Prog.wp_ite (fun _ => close_return hOld h₃ _) fun _ => ?_
  refine h₃.malloc_bind fun q s₄ h₄ => ?_
  cases q with
  | none => exact close_return hOld h₄ _
  | some ioBuf =>
      refine Prog.wp_get_bind (h₄.quiet_bind (quiet_deleteDirEntry _ _) fun _ s₅ h₅ => ?_)
      refine Prog.wp_bind (Prog.wp_mono (h₅.inodeRelease hOld _) fun _ s₆ h₆ => ?_)
      exact h₆.free_bind hOld fun s₇ h₇ => close_return hOld h₇ _

theorem mkdirRollback {ioBuf : Nat} (h : HoldingDir Old d (ioBuf :: bufs) held s) :
    Prog.wp (fun _ => True) (Heaps.mkdirRollback env d ioBuf) (fun _ => Holding Old bufs held) s :=
  Prog.wp_bind (Prog.wp_mono (dirClose hOld h) fun _ _ h₁ =>
    h₁.free_bind hOld fun _ h₂ => Prog.wp_pure h₂)

theorem sysMkdir (h : Holding Old bufs held s) (pathname : List UInt8) :
    Prog.wp (fun _ => True) (Heaps.sysMkdir env pathname) (fun _ => Holding Old bufs held) s := by
  refine h.malloc_bind fun q s₁ h₁ => ?_
  cases q with
  | none => exact Prog.wp_pure h₁
  | some ioBuf =>
      refine search_bind hOld h₁ fun inodeNo r s₂ h₂ => ?_
      refine Prog.wp_ite (fun _ => mkdirRollback hOld h₂) fun _ => ?_
      refine h₂.reads_bind (fun _ => Prog.Preserves.lift _) fun depth s₃ h₃ => ?_
      refine h₃.reads_bind (fun _ => Prog.Preserves.lift _) fun searched s₄ h₄ => ?_
      refine Prog.wp_ite (fun _ => mkdirRollback hOld h₄) fun _ => ?_
      refine h₄.quiet_bind quiet_inodeBitmapAlloc fun no s₅ h₅ => ?_
      refine Prog.wp_ite (fun _ => mkdirRollback hOld h₅) fun _ => Prog.wp_get_bind ?_
      refine h₅.quiet_bind (HeapKept.quiet_makeDir _ _ _) fun done s₆ h₆ => ?_
      refine Prog.wp_ite (fun _ => ?_) fun _ => mkdirRollback hOld h₆
      -- here the buffer goes first
      have h₇ := h₆.permBufs List.perm_middle
      exact h₇.free_bind hOld fun s₇ h₇ => close_return hOld h₇ _

theorem sysRmdir (h : Holding Old bufs held s) (pathname : List UInt8) :
    Prog.wp (fun _ => True) (Heaps.sysRmdir env pathname) (fun _ => Holding Old bufs held) s := by
  refine search_bind hOld h fun inodeNo r s₁ h₁ => ?_
  refine h₁.reads_bind (reads_assertFs _ _ _) fun _ s₂ h₂ => ?_
  refine Prog.wp_ite (fun _ => close_return hOld h₂ _) fun _ => ?_
  refine Prog.wp_ite (fun _ => close_return hOld h₂ _) fun _ => ?_
  refine Prog.wp_bind (Prog.wp_mono (h₂.dirOpen hOld _) fun d s₃ h₃ => Prog.wp_get_bind ?_)
  refine Prog.wp_ite (fun _ => ?_) fun _ => ?_
  · refine Prog.wp_bind (Prog.wp_mono (h₃.dirRemove hOld _ _) fun _ s₄ h₄ => ?_)
    exact Prog.wp_bind (Prog.wp_mono (dirClose hOld h₄) fun _ s₅ h₅ => close_return hOld h₅ _)
  · exact Prog.wp_bind (Prog.wp_mono (dirClose hOld h₃) fun _ s₄ h₄ => close_return hOld h₄ _)

theorem sysStat (h : Holding Old bufs held s) (path : List UInt8) :
    Prog.wp (fun _ => True) (Heaps.sysStat env path) (fun _ => Holding Old bufs held) s := by
  refine Prog.wp_ite (fun _ => Prog.wp_get_bind (Prog.wp_pure h)) fun _ => ?_
  refine search_bind hOld h fun inodeNo r s₁ h₁ => ?_
  refine Prog.wp_ite (fun _ => close_return hOld h₁ _) fun _ => ?_
  refine Prog.wp_bind (Prog.wp_mono (h₁.inodeOpen hOld _) fun a s₂ h₂ => Prog.wp_get_bind ?_)
  exact Prog.wp_bind (Prog.wp_mono (h₂.inodeClose hOld) fun _ s₃ h₃ => close_return hOld h₃ _)

theorem sysChdir (h : Holding Old bufs held s) (path : List UInt8) :
    Prog.wp (fun _ => True) (Heaps.sysChdir env path) (fun _ => Holding Old bufs held) s := by
  refine search_bind hOld h fun inodeNo r s₁ h₁ => ?_
  refine Prog.wp_ite (fun _ => wp_onFs_run fun _ t hrun => ?_) fun _ => close_return hOld h₁ _
  cases hrun
  exact close_return hOld (h₁.tasks _) _

/-- The directory that is returned is in the caller's hands. -/
theorem sysOpendir (h : Holding Old bufs held s) (name : List UInt8) :
    Prog.wp (fun _ => True) (Heaps.sysOpendir env name)
      (fun res s' => HoldingDir Old (res.getD .root) bufs held s') s := by
  refine h.reads_bind (reads_assertFs _ _ _) fun _ s₁ h₁ => ?_
  refine Prog.wp_ite (fun _ => Prog.wp_pure h₁) fun _ => ?_
  refine search_bind hOld h₁ fun inodeNo r s₂ h₂ => ?_
  refine Prog.wp_ite (fun _ => close_then hOld h₂ fun _ h' => h') fun _ =>
    Prog.wp_ite (fun _ => ?_) fun _ => close_then hOld h₂ fun _ h' => h'
  refine Prog.wp_bind (Prog.wp_mono (h₂.dirOpen hOld _) fun d s₃ h₃ => ?_)
  have hswap : HoldingDir Old r.parentDir (d.buf ++ bufs) (d.opens ++ held) s₃ :=
    h₃.perm (by
      rw [← List.append_assoc, ← List.append_assoc]
      exact List.perm_append_comm.append_right _)
      (by rw [← List.append_assoc, ← List.append_assoc]; exact List.perm_append_comm.append_right _)
  exact close_then hOld hswap fun _ h' => h'

/-! ### The working directory -/

theorem getParentDirInodeNr (h : Holding Old bufs held s) (no : Nat) :
    Prog.wp (fun _ => True) (Heaps.getParentDirInodeNr env no)
      (fun _ => Holding Old bufs held) s := by
  refine Prog.wp_bind (Prog.wp_mono (h.inodeOpen hOld no) fun a s₁ h₁ => Prog.wp_get_bind ?_)
  refine h₁.reads_bind (reads_assertFs _ _ _) fun _ s₂ h₂ => ?_
  refine Prog.wp_bind (Prog.wp_mono (h₂.inodeClose hOld) fun _ s₃ h₃ => ?_)
  refine h₃.reads_bind (reads_readSectors _ _ _) fun ioBuf s₄ h₄ => ?_
  exact h₄.reads_bind (reads_assertFs _ _ _) fun _ s₅ h₅ => Prog.wp_pure h₅

theorem getChildDirName (h : Holding Old bufs held s) (pInodeNr cInodeNr : Nat)
    (path : List UInt8) :
    Prog.wp (fun _ => True) (Heaps.getChildDirName env pInodeNr cInodeNr path)
      (fun _ => Holding Old bufs held) s := by
  refine Prog.wp_bind (Prog.wp_mono (h.inodeOpen hOld _) fun a s₁ h₁ => Prog.wp_get_bind ?_)
  refine h₁.reads_bind (fun P => Prog.Preserves.ite (fun _ => ?_) fun _ => Prog.Preserves.pure _)
    fun table s₂ h₂ => ?_
  · exact Prog.Preserves.bind (reads_readSectors _ _ _ P) fun _ => Prog.Preserves.pure _
  refine Prog.wp_bind (Prog.wp_mono (h₂.inodeClose hOld) fun _ s₃ h₃ => ?_)
  exact h₃.wp_reads (reads_childName _ _ _ _)

theorem climb : ∀ (fuel childInodeNr : Nat) (path : List UInt8) (s : HeapFs),
    Holding Old bufs held s → Prog.wp (fun _ => True) (Heaps.climb env fuel childInodeNr path)
      (fun _ => Holding Old bufs held) s := by
  intro fuel
  induction fuel with
  | zero => exact fun _ _ _ _ => wp_onFs_error
  | succ fuel ih =>
      intro childInodeNr path s h
      refine Prog.wp_ite (fun _ => Prog.wp_pure h) fun _ => ?_
      refine Prog.wp_bind (Prog.wp_mono (h.getParentDirInodeNr hOld _) fun no s₁ h₁ => ?_)
      refine Prog.wp_bind (Prog.wp_mono (h₁.getChildDirName hOld _ _ _) fun res s₂ h₂ => ?_)
      cases res with
      | none => exact Prog.wp_pure h₂
      | some path => exact ih _ _ _ h₂

end Paths

end Holding

/-! ### Leaks -/

/-- There is memory for the first of the two buffers only. -/
def HeapFs.OneBuffer (env : HeapEnv) (s : HeapFs) : Prop :=
  ∃ ioBuf, env.newAddr s.context 512 s.fs.heap = some ioBuf ∧
    env.newAddr s.context (512 + 48) (insert ioBuf s.fs.heap) = none

/-- There is memory for neither. -/
theorem HeapFs.not_oneBuffer_of_none (hnone : env.newAddr s.context 512 s.fs.heap = none) :
    ¬ s.OneBuffer env := by
  rintro ⟨ioBuf, hio, -⟩
  rw [hnone] at hio
  cases hio

/-- There is memory for both. -/
theorem HeapFs.not_oneBuffer_of_some {ioBuf allBlocks : Nat}
    (hio : env.newAddr s.context 512 s.fs.heap = some ioBuf)
    (hall : env.newAddr s.context (512 + 48) (insert ioBuf s.fs.heap) = some allBlocks) :
    ¬ s.OneBuffer env := by
  rintro ⟨b, hb, hnone⟩
  rw [hio] at hb
  cases hb
  rw [hall] at hnone
  cases hnone

/-- The entry of the file table that descriptor `fd` leads to. -/
def HeapFs.entryOf (s : HeapFs) (fd : Int) : File :=
  s.fs.fileTable ((s.fs.tasks s.fs.cur).fdTable fd.toNat).toNat

/-- After a call that began in `s`, running code has what it had and perhaps some new buffers;
it has new ones when `C` says so. -/
def Leaving (Old : Others) (bufs held : List Nat) (s : HeapFs) (C : Prop) (s' : HeapFs) : Prop :=
  ∃ lost, Holding Old (lost ++ bufs) held s' ∧ (∀ p ∈ lost, p ∉ s.fs.heap) ∧ (lost = [] ↔ ¬ C)

theorem Holding.leaving (h : Holding Old bufs held s') (C : Prop) (hC : ¬ C) :
    Leaving Old bufs held s C s' :=
  ⟨[], h, fun _ hp => (nomatch hp), fun _ => hC, fun _ => rfl⟩

theorem Holding.leavingOne {C : Prop} (h : Holding Old (p :: bufs) held s') (hp : p ∉ s.fs.heap)
    (hC : C) : Leaving Old bufs held s C s' :=
  ⟨[p], h, fun _ hq => List.mem_singleton.mp hq ▸ hp, fun hc => (nomatch hc),
    fun hc => absurd hC hc⟩

namespace Holding

variable (hOld : Old.Stable)
include hOld

/-- `sys_getcwd` in the root directory keeps its buffer. -/
theorem sysGetcwd (h : Holding Old bufs held s) (buf : Mem) (size : Nat) :
    Prog.wp (fun _ => True) (Heaps.sysGetcwd env buf size) (fun _ => Leaving Old bufs held s
      ((s.fs.tasks s.fs.cur).cwdInodeNr = 0 ∧
        (env.newAddr s.context sectorSize s.fs.heap).isSome)) s := by
  refine ZyOs.malloc_bind (fun hnone => ?_) fun ioBuf hsome => Prog.wp_get_bind ?_
  · exact Prog.wp_pure (h.leaving _ fun hc => by simp [hnone] at hc)
  have hfresh := env.newAddr_fresh hsome
  refine (h.allocated hfresh).reads_bind (reads_assertFs _ _ _) fun _ s₁ h₁ => ?_
  refine Prog.wp_ite (fun hroot => ?_) fun hroot => ?_
  · refine Prog.wp_ite (fun _ => Prog.wp_pure ?_) fun _ => wp_onFs_error
    exact h₁.leavingOne hfresh ⟨hroot, by simp [hsome]⟩
  have hkeep : ∀ s', Holding Old bufs held s' → Leaving Old bufs held s
      ((s.fs.tasks s.fs.cur).cwdInodeNr = 0 ∧
        (env.newAddr s.context sectorSize s.fs.heap).isSome) s' :=
    fun s' h' => h'.leaving _ fun hc => hroot hc.1
  refine Prog.wp_bind (Prog.wp_mono (climb hOld _ _ _ _ h₁) fun res s₂ h₂ => ?_)
  cases res with
  | none => exact h₂.free_bind hOld fun s₃ h₃ => Prog.wp_pure (hkeep s₃ h₃)
  | some path =>
      refine h₂.reads_bind (reads_assertFs _ _ _) fun _ s₃ h₃ => ?_
      refine h₃.reads_bind (fun _ => Prog.Preserves.lift _) fun _ s₄ h₄ => ?_
      exact h₄.free_bind hOld fun s₅ h₅ => Prog.wp_pure (hkeep s₅ h₅)

/-- `file_write` keeps its first buffer when it gets no second one. -/
theorem fileWrite (h : Holding Old bufs held s) (g : Nat) (buf : Mem) (count : Nat) :
    Prog.wp (fun _ => True) (Heaps.fileWrite env g buf count) (fun _ => Leaving Old bufs held s
      (s.OneBuffer env ∧ ∃ a, (s.fs.fileTable g).fdInode = some a ∧
        ((s.fs.inodes a).iSize.toNat + count) % 2 ^ 32 ≤ 512 * 140)) s := by
  refine wp_onFs_run fun a t hrun => Prog.wp_get_bind ?_
  obtain ⟨hentry, rfl⟩ := fdInodeOf_eq hrun
  have hsize : (∃ a, (s.fs.fileTable g).fdInode = some a ∧
      ((s.fs.inodes a).iSize.toNat + count) % 2 ^ 32 ≤ 512 * 140) ↔
      ((s.fs.inodes a).iSize.toNat + count) % 2 ^ 32 ≤ 512 * 140 := by
    simp [hentry]
  rw [hsize]
  refine Prog.wp_ite (fun hbig => ?_) fun hsmall => ?_
  · exact Prog.wp_pure (h.leaving _ fun hc => absurd hc.2 (Nat.not_le.mpr hbig))
  refine ZyOs.malloc_bind (fun hnone => ?_) fun ioBuf hio => ?_
  · exact Prog.wp_pure (h.leaving _ fun hc => HeapFs.not_oneBuffer_of_none hnone hc.1)
  have hfresh := env.newAddr_fresh hio
  have h₁ := h.allocated hfresh
  refine ZyOs.malloc_bind (fun hnone => ?_) fun allBlocks hall => ?_
  · exact Prog.wp_pure (h₁.leavingOne hfresh ⟨⟨ioBuf, hio, hnone⟩, Nat.not_lt.mp hsmall⟩)
  have hkeep : ∀ s', Holding Old bufs held s' → Leaving Old bufs held s
      (s.OneBuffer env ∧ ((s.fs.inodes a).iSize.toNat + count) % 2 ^ 32 ≤ 512 * 140) s' :=
    fun s' h' => h'.leaving _ fun hc => HeapFs.not_oneBuffer_of_some hio hall hc.1
  have h₂ := h₁.allocated (env.newAddr_fresh hall)
  refine wp_onFs_run fun ok t hrun => ?_
  have hok := (wp_firstBlock_size h₂.fits).of_run hrun
  obtain rfl : ok = true := hok.1
  have h₃ := h₂.quiet (quiet_firstBlock a _ _ _ t (Quiet.refl _) hrun)
  refine h₃.reads_bind (reads_assertFs _ _ _) fun _ s₄ h₄ => wp_onFs_run fun res t' hrun' => ?_
  obtain ⟨blocks, rfl⟩ := (wp_collect_some h₄.fits _ _ _).of_run hrun'
  have h₅ := h₄.quiet (quiet_collectForWrite _ _ _ _ _ _ t' (Quiet.refl _) hrun')
  refine h₅.quiet_bind (quiet_setFdPos _ _) fun _ s₆ h₆ => ?_
  refine h₆.quiet_bind (quiet_writeLoop _ _ _ _ _ _ _ _ _ _) fun r s₇ h₇ => ?_
  refine Prog.wp_get_bind (h₇.quiet_bind (quiet_inodeSync _ _) fun _ s₈ h₈ => ?_)
  exact h₈.free_bind hOld fun s₉ h₉ => h₉.free_bind hOld fun s₁₀ h₁₀ =>
    Prog.wp_pure (hkeep s₁₀ h₁₀)

/-- `file_read` likewise. -/
theorem readBytes (h : Holding Old bufs held s) (g a : Nat) (buf : Mem) (size : Nat) :
    Prog.wp (fun _ => True) (Heaps.readBytes env g a buf size)
      (fun _ => Leaving Old bufs held s (s.OneBuffer env)) s := by
  refine ZyOs.malloc_bind (fun hnone => ?_) fun ioBuf hio => ?_
  · have hno : ¬ s.OneBuffer env := HeapFs.not_oneBuffer_of_none hnone
    refine h.malloc_bind fun q s₁ h₁ => ?_
    cases q with
    | none => exact Prog.wp_pure (h₁.leaving _ hno)
    | some allBlocks => exact deref_bind fun a ha => nomatch ha
  have hfresh := env.newAddr_fresh hio
  have h₁ := h.allocated hfresh
  refine ZyOs.malloc_bind (fun hnone => ?_) fun allBlocks hall => deref_bind fun b hb => ?_
  · exact Prog.wp_pure (h₁.leavingOne hfresh ⟨ioBuf, hio, hnone⟩)
  cases hb
  have hno : ¬ s.OneBuffer env := HeapFs.not_oneBuffer_of_some hio hall
  have h₂ := h₁.allocated (env.newAddr_fresh hall)
  refine h₂.quiet_bind (quiet_readBytes _ _ _ _) fun res s₃ h₃ => ?_
  exact h₃.free_bind hOld fun s₄ h₄ => h₄.free_bind hOld fun s₅ h₅ =>
    Prog.wp_pure (h₅.leaving _ hno)

theorem fileRead (h : Holding Old bufs held s) (g : Nat) (buf : Mem) (count : Nat) :
    Prog.wp (fun _ => True) (Heaps.fileRead env g buf count) (fun _ => Leaving Old bufs held s
      (s.OneBuffer env ∧ ∃ a, (s.fs.fileTable g).fdInode = some a ∧
        ((s.fs.inodes a).iSize.toNat < ((s.fs.fileTable g).fdPos + count) % 2 ^ 32 →
          sub32 (s.fs.inodes a).iSize.toNat (s.fs.fileTable g).fdPos ≠ 0))) s := by
  refine wp_onFs_run fun a t hrun => Prog.wp_get_bind (Prog.wp_get_bind ?_)
  obtain ⟨hentry, rfl⟩ := fdInodeOf_eq hrun
  have hread : ∀ (size : Nat),
      ((s.fs.inodes a).iSize.toNat < ((s.fs.fileTable g).fdPos + count) % 2 ^ 32 →
        sub32 (s.fs.inodes a).iSize.toNat (s.fs.fileTable g).fdPos ≠ 0) →
      Prog.wp (fun _ => True) (Heaps.readBytes env g a buf size) (fun _ => Leaving Old bufs held s
        (s.OneBuffer env ∧ ∃ a, (s.fs.fileTable g).fdInode = some a ∧
          ((s.fs.inodes a).iSize.toNat < ((s.fs.fileTable g).fdPos + count) % 2 ^ 32 →
            sub32 (s.fs.inodes a).iSize.toNat (s.fs.fileTable g).fdPos ≠ 0))) s := by
    intro size hsome
    refine Prog.wp_mono (h.readBytes hOld g a buf size) fun _ s' ⟨lost, h', hnew, hiff⟩ =>
      ⟨lost, h', hnew, hiff.trans (not_congr ?_)⟩
    exact ⟨fun hone => ⟨hone, a, hentry, hsome⟩, fun hc => hc.1⟩
  refine Prog.wp_ite (fun hpast => ?_) fun hwithin => hread _ fun hc => absurd hc hwithin
  refine Prog.wp_ite (fun hend => Prog.wp_pure ?_) fun hsome => hread _ fun _ => hsome
  refine h.leaving _ fun ⟨_, b, hb, hc⟩ => ?_
  rw [hentry] at hb
  cases hb
  exact hc hpast hend

end Holding

/-! ### Descriptors -/

/-- The descriptor leads to a file that may be written, and there is room for what is written. -/
def HeapFs.Writable (s : HeapFs) (fd : Int) (count : Nat) : Prop :=
  writes (s.entryOf fd).fdFlag = true ∧ ∃ a, (s.entryOf fd).fdInode = some a ∧
    ((s.fs.inodes a).iSize.toNat + count) % 2 ^ 32 ≤ 512 * 140

/-- The descriptor leads to a file, and there is something left to be read. -/
def HeapFs.Readable (s : HeapFs) (fd : Int) (count : Nat) : Prop :=
  ∃ a, (s.entryOf fd).fdInode = some a ∧
    ((s.fs.inodes a).iSize.toNat < ((s.entryOf fd).fdPos + count) % 2 ^ 32 →
      sub32 (s.fs.inodes a).iSize.toNat (s.entryOf fd).fdPos ≠ 0)

/-- The call has a buffer when it returns. -/
def Heaps.Leaks (env : HeapEnv) (s : HeapFs) : Heaps.AnyCall → Prop
  | .getcwd _ _ => (s.fs.tasks s.fs.cur).cwdInodeNr = 0 ∧
      (env.newAddr s.context sectorSize s.fs.heap).isSome
  | .call (.write fd _ count) => 0 ≤ fd ∧ fd ≠ 1 ∧ s.Writable fd count ∧ s.OneBuffer env
  | .call (.read _ fd _ count) => 2 < fd ∧ s.Readable fd count ∧ s.OneBuffer env
  | _ => False

namespace Holding

section Descriptors

variable (hOld : Old.Stable)
include hOld

theorem sysWrite (h : Holding Old bufs held s) (fd : Int) (buf : Mem) (count : Nat) :
    Prog.wp (fun _ => True) (Heaps.sysWrite env fd buf count) (fun _ => Leaving Old bufs held s
      (Heaps.Leaks env s (.call (.write fd buf count)))) s := by
  refine Prog.wp_ite (fun hneg => Prog.wp_pure (h.leaving _ fun hc => ?_)) fun hfd => ?_
  · exact absurd hc.1 (not_le.mpr hneg)
  refine Prog.wp_ite (fun hout => ?_) fun hfd1 => wp_onFs_run fun g t hrun => ?_
  · exact Prog.wp_ite (fun _ => Prog.wp_pure (h.leaving _ fun hc => hc.2.1 hout)) fun _ =>
      wp_onFs_error
  obtain ⟨-, -, hg, rfl⟩ := fdLocalToGlobal_run hrun
  have hentry : s.entryOf fd = s.fs.fileTable g := by
    rw [HeapFs.entryOf, hg]
    rfl
  refine Prog.wp_get_bind (Prog.wp_ite (fun hflag => ?_) fun hflag => Prog.wp_pure ?_)
  · refine Prog.wp_mono (h.fileWrite hOld g buf count) fun _ s' ⟨lost, h', hnew, hiff⟩ =>
      ⟨lost, h', hnew, hiff.trans (not_congr ?_)⟩
    rw [Heaps.Leaks, HeapFs.Writable, hentry]
    exact ⟨fun hc => ⟨not_lt.mp hfd, hfd1, ⟨hflag, hc.2⟩, hc.1⟩, fun hc => ⟨hc.2.2.2, hc.2.2.1.2⟩⟩
  · refine h.leaving _ fun hc => hflag ?_
    rw [Heaps.Leaks, HeapFs.Writable, hentry] at hc
    exact hc.2.2.1.1

theorem sysRead (h : Holding Old bufs held s) (keys : Mem) (fd : Int) (buf : Mem) (count : Nat) :
    Prog.wp (fun _ => True) (Heaps.sysRead env keys fd buf count) (fun _ => Leaving Old bufs held s
      (Heaps.Leaks env s (.call (.read keys fd buf count)))) s := by
  refine Prog.wp_ite (fun hbad => Prog.wp_pure (h.leaving _ fun hc => ?_)) fun hfd => ?_
  · have := hc.1
    omega
  refine Prog.wp_ite (fun hzero => Prog.wp_pure (h.leaving _ fun hc => ?_)) fun hzero => ?_
  · have := hc.1
    omega
  have hlt : 2 < fd := by omega
  refine wp_onFs_run fun g t hrun => ?_
  obtain ⟨-, -, hg, rfl⟩ := fdLocalToGlobal_run hrun
  have hentry : s.entryOf fd = s.fs.fileTable g := by
    rw [HeapFs.entryOf, hg]
    rfl
  refine Prog.wp_mono (h.fileRead hOld g buf count) fun _ s' ⟨lost, h', hnew, hiff⟩ =>
    ⟨lost, h', hnew, hiff.trans (not_congr ?_)⟩
  rw [Heaps.Leaks, HeapFs.Readable, hentry]
  exact ⟨fun hc => ⟨hlt, hc.2, hc.1⟩, fun hc => ⟨hc.2.2, hc.2.1⟩⟩

theorem fileClose (h : Holding Old bufs held s) (hg : g < maxFileOpen) :
    Prog.wp (fun _ => True) (Heaps.fileClose env g) (fun _ => Holding Old bufs held) s := by
  refine wp_onFs_run fun a t hrun => Prog.wp_get_bind (wp_onFs_run fun _ t' hrun' => ?_)
  obtain ⟨hentry, rfl⟩ := fdInodeOf_eq hrun
  cases hrun'
  have h₁ := h.withInode (a := a) (n := { s.fs.inodes a with writeDeny := false }) rfl
  refine Prog.wp_bind (Prog.wp_mono (inodeClose_returns a) fun _ s₂ heq => ?_)
  refine Prog.wp_get_bind (wp_onFs_run fun _ t hrun => Prog.wp_pure ?_)
  cases hrun
  -- the entry might as well be emptied first
  have h₂ := h₁.emptied (f := { s₂.fs.fileTable g with fdInode := none }) hg hentry rfl
  have h₃ := h₂.inodeClosed hOld
  rw [inodeClosed_withFile] at h₃
  subst heq
  exact h₃

theorem sysClose (h : Holding Old bufs held s) (fd : Int) :
    Prog.wp (fun _ => True) (Heaps.sysClose env fd) (fun _ => Holding Old bufs held) s := by
  refine Prog.wp_ite (fun _ => ?_) fun _ => Prog.wp_pure h
  refine wp_onFs_run fun g t hrun => ?_
  obtain ⟨-, hg, -, rfl⟩ := fdLocalToGlobal_run hrun
  refine Prog.wp_bind (Prog.wp_mono (h.fileClose hOld hg) fun _ s₁ h₁ => ?_)
  refine wp_onFs_run fun _ t hrun => Prog.wp_pure ?_
  cases hrun
  exact h₁.tasks _

end Descriptors

end Holding

/-! ### Opening a file -/

/-- Anything may be in the heap. -/
def Others.all : Others := fun _ _ => True

theorem Others.all_stable : Others.all.Stable := fun _ _ _ _ _ _ => trivial

/-- The state with an empty entry `g`. -/
def HeapFs.without (s : HeapFs) (g : Nat) : HeapFs :=
  { s with fs := s.fs.withFile g ⟨0, 0, none⟩ }

theorem Quiet.without {s t : Fs} (h : Quiet s t) (g : Nat) (f : File) (hf : f.fdInode = none) :
    Quiet (s.withFile g f) (t.withFile g f) where
  openInodes := h.openInodes
  heap := h.heap
  rootInode := h.rootInode
  tasks := h.tasks
  cur := h.cur
  fdInode := by
    intro i
    by_cases hi : i = g
    · rw [hi, withFile_self, withFile_self]
    · rw [withFile_ne _ _ _ _ hi, withFile_ne _ _ _ _ hi, h.fdInode i]
  fdFlag := by
    intro i hi
    by_cases hig : i = g
    · rw [hig, withFile_self] at hi
      exact absurd hf hi
    · rw [withFile_ne _ _ _ _ hig] at hi ⊢
      rw [withFile_ne _ _ _ _ hig, h.fdFlag i hi]
  iNo := h.iNo
  iOpenCnts := h.iOpenCnts
  writeDeny := h.writeDeny
  alike := h.alike

theorem withFile_withFile (s : Fs) (g : Nat) (f f' : File) :
    (s.withFile g f).withFile g f' = s.withFile g f' := by
  unfold Fs.withFile
  congr 1
  funext i
  by_cases hi : i = g
  · rw [if_pos hi, if_pos hi]
  · rw [if_neg hi, if_neg hi]
    exact if_neg hi

theorem withFile_same (s : Fs) (g : Nat) : s.withFile g (s.fileTable g) = s := by
  unfold Fs.withFile
  congr 1
  funext i
  by_cases hi : i = g
  · rw [if_pos hi, hi]
  · rw [if_neg hi]

namespace Holding

/-- Where anything may be in the heap, what is held may be forgotten. -/
theorem forget {lost gone : List Nat} (h : Holding .all (lost ++ bufs) (gone ++ held) s) :
    Holding .all bufs held s where
  counted := by
    refine ⟨h.counted.nodup, h.counted.heap, fun b hb => ?_⟩
    have hle : held.count b ≤ (gone ++ held).count b := by
      rw [List.count_append]
      exact Nat.le_add_left _ _
    obtain ⟨h1, h2⟩ := h.counted.counted b (by omega)
    exact ⟨h1, by omega⟩
  fits := h.fits
  nodup := (List.nodup_append.mp h.nodup).2.1
  owned := fun q hq => h.owned q (List.mem_append_right lost hq)
  rest := fun _ _ => .inr (.inl trivial)

/-- An entry that nobody uses may as well be empty. -/
theorem without (h : Holding Old bufs held s) (hfree : (s.fs.fileTable g).fdInode = none) :
    Holding Old bufs held (s.without g) := by
  refine h.quiet ⟨rfl, rfl, rfl, rfl, rfl, fun i => ?_, fun i hi => ?_, fun _ => rfl, fun _ => rfl,
    fun _ => rfl, .refl _⟩
  · by_cases hig : i = g
    · rw [hig, withFile_self, hfree]
    · rw [withFile_ne _ _ _ _ hig]
  · by_cases hig : i = g
    · rw [hig, withFile_self] at hi
      exact absurd rfl hi
    · rw [withFile_ne _ _ _ _ hig]

/-- The inode that the entry refers to is no longer held. -/
theorem filled (h : Holding .all bufs (a :: held) (s.without g)) (hg : g < maxFileOpen)
    (hentry : (s.fs.fileTable g).fdInode = some a) : Holding .all bufs held s := by
  have hfree : ((s.without g).fs.fileTable g).fdInode = none :=
    congrArg File.fdInode (withFile_self ..)
  have hcounted := h.counted.withFile hg hfree hentry
  rw [HeapFs.without, withFile_withFile, withFile_same] at hcounted
  exact ⟨hcounted, h.fits, h.nodup, h.owned, fun _ _ => .inr (.inl trivial)⟩

/-- A descriptor does not matter. -/
theorem wp_install (h : Holding Old bufs held s) (g : Nat) :
    Prog.wp (fun _ => True) (onFs (pcbFdInstall g)) (fun _ => Holding Old bufs held) s := by
  refine wp_onFs_returns fun r t hrun => ?_
  obtain ⟨f, rfl⟩ := pcbFdInstall_tasks hrun
  exact h.tasks f

end Holding

/-- Entry `g` refers to the inode at `a`, which is no more than a buffer yet. -/
structure EntryAhead (g a : Nat) (bufs held : List Nat) (s : HeapFs) : Prop where
  holding : Holding .all (a :: bufs) held (s.without g)
  entry : (s.fs.fileTable g).fdInode = some a

namespace EntryAhead

theorem quiet_bind (h : EntryAhead g a bufs held s) {x : FsM α} (hx : KeepsQuiet x)
    {f : α → HeapM β} (hf : ∀ r s', EntryAhead g a bufs held s' →
      Prog.wp (fun _ => True) (f r) Q s') :
    Prog.wp (fun _ => True) (onFs x >>= f) Q s := by
  refine wp_onFs_run fun r t hrun => hf r _ ?_
  have hq := hx s.fs s.fs r t (Quiet.refl _) hrun
  exact ⟨h.holding.quiet (hq.without g _ rfl), (hq.fdInode g).trans h.entry⟩

theorem written (h : EntryAhead g a bufs held s) (n : Inode) :
    EntryAhead g a bufs held { s with fs := s.fs.withInode a n } :=
  ⟨h.holding.written List.mem_cons_self n, h.entry⟩

/-- The inode is put on the list, and is one that is open. -/
theorem pushed (h : EntryAhead g a bufs held s) (hg : g < maxFileOpen)
    (hone : (s.fs.inodes a).iOpenCnts = 1) :
    Holding .all bufs held { s with fs := { s.fs with openInodes := a :: s.fs.openInodes } } :=
  (h.holding.pushed hone).filled hg h.entry

end EntryAhead

namespace Holding

theorem fileCreate (h : Holding .all bufs held s) (parent : Nat) (filename : List UInt8)
    (flag : Nat) :
    Prog.wp (fun _ => True) (Heaps.fileCreate env parent filename flag)
      (fun _ => Holding .all bufs held) s := by
  have hOld : Others.all.Stable := Others.all_stable
  refine h.malloc_bind fun q s₁ h₁ => ?_
  cases q with
  | none => exact Prog.wp_pure h₁
  | some ioBuf =>
      refine h₁.quiet_bind quiet_inodeBitmapAlloc fun inodeNo s₂ h₂ => ?_
      refine Prog.wp_ite (fun _ => Prog.wp_pure (@forget bufs held _ [ioBuf] [] h₂))
        fun _ => ?_
      refine h₂.malloc_bind fun q s₃ h₃ => ?_
      cases q with
      | none =>
          refine h₃.quiet_bind (quiet_setInodeBit _ _) fun _ s₄ h₄ => ?_
          exact h₄.free_bind hOld fun s₅ h₅ => Prog.wp_pure h₅
      | some a =>
          refine wp_onFs_run fun _ t hrun => Prog.wp_get_bind ?_
          cases hrun
          have h₄ := h₃.written (p := a) List.mem_cons_self (inodeInit inodeNo.toNat)
          split
          · refine h₄.free_bind hOld fun s₅ h₅ => ?_
            refine h₅.quiet_bind (quiet_setInodeBit _ _) fun _ s₆ h₆ => ?_
            exact h₆.free_bind hOld fun s₇ h₇ => Prog.wp_pure h₇
          · rename_i g hslot
            obtain ⟨hg, hfree⟩ := getFreeSlotInGlobal_some hslot
            refine wp_onFs_run fun _ t hrun => Prog.wp_get_bind ?_
            cases hrun
            have h₅ : EntryAhead g a (ioBuf :: bufs) held
                { s₃ with
                  fs := (s₃.fs.withInode a (inodeInit inodeNo.toNat)).withFile g
                    ⟨0, flag, some a⟩ } := by
              refine ⟨?_, congrArg File.fdInode (withFile_self ..)⟩
              rw [HeapFs.without, withFile_withFile]
              exact h₄.without hfree
            refine wp_onFs_run fun _ t hrun => ?_
            cases hrun
            refine (h₅.written _).quiet_bind (fun _ => Prog.Preserves.lift _) fun entry s₆ h₆ => ?_
            refine h₆.quiet_bind (quiet_syncDirEntry _ _ _) fun done s₇ h₇ => ?_
            cases done with
            | true =>
                refine Prog.wp_get_bind (h₇.quiet_bind (quiet_inodeSync _ _) fun _ s₈ h₈ => ?_)
                refine Prog.wp_get_bind (h₈.quiet_bind (quiet_inodeSync _ _) fun _ s₉ h₉ => ?_)
                refine h₉.quiet_bind (quiet_bitmapSync _ _) fun _ s₁₀ h₁₀ => ?_
                refine wp_onFs_run fun _ t hrun => Prog.wp_get_bind ?_
                cases hrun
                refine wp_onFs_run fun _ t hrun => ?_
                cases hrun
                have hopen := (h₁₀.written { s₁₀.fs.inodes a with iOpenCnts := 1 }).pushed hg
                  (congrArg Inode.iOpenCnts (withInode_self ..))
                exact hopen.free_bind hOld fun s₁₁ h₁₁ => h₁₁.wp_install g
            | false =>
                refine wp_onFs_run fun _ t hrun => ?_
                cases hrun
                refine h₇.holding.free_bind hOld fun s₈ h₈ => ?_
                refine h₈.quiet_bind (quiet_setInodeBit _ _) fun _ s₉ h₉ => ?_
                exact h₉.free_bind hOld fun s₁₀ h₁₀ => Prog.wp_pure h₁₀

end Holding

/-! ### `file_open` -/

/-- Code that does not touch the file table. -/
def KeepsTable (x : HeapM α) : Prop :=
  ∀ table, Prog.Preserves (fun s : HeapFs => s.fs.fileTable = table) x

theorem keepsTable_onFs {x : FsM α} (hx : ∀ s r t, x s = .ok (r, t) → t.fileTable = s.fileTable) :
    KeepsTable (onFs x) := by
  intro table s r s' hs hrun
  unfold onFs at hrun
  cases hx' : x s.fs with
  | error e => rw [hx'] at hrun; cases hrun
  | ok q =>
      rw [hx'] at hrun
      cases hrun
      exact (hx s.fs _ _ hx').trans hs

theorem keepsTable_sysMalloc (env : HeapEnv) (size : Nat) :
    KeepsTable (Heaps.sysMalloc env size) := by
  refine fun table => Prog.Preserves.get_bind fun s hs => ?_
  cases env.newAddr s.context size s.fs.heap with
  | none => exact Prog.Preserves.pure _
  | some a => exact Prog.Preserves.bind (Prog.Preserves.set hs) fun _ => Prog.Preserves.pure _

theorem keepsTable_sysFree (env : HeapEnv) (p : Nat) : KeepsTable (Heaps.sysFree env p) := by
  refine fun table => Prog.Preserves.get_bind fun s hs =>
    Prog.Preserves.bind (Prog.Preserves.set hs) fun _ => ?_
  refine Prog.Preserves.ite (fun _ => Prog.Preserves.bind ?_ fun _ =>
    Prog.Preserves.modify fun _ h => h) fun _ => Prog.Preserves.modify fun _ h => h
  exact Prog.Preserves.ite (fun _ => Prog.Preserves.pure _) fun _ => Prog.Preserves.lift _

theorem keepsTable_deref (func : String) (q : Option Nat) : KeepsTable (Heaps.deref func q) := by
  cases q with
  | none => exact fun _ => Prog.Preserves.lift _
  | some a => exact fun _ => Prog.Preserves.pure _

/-- Opening an inode does not touch the file table. -/
theorem keepsTable_inodeOpen (env : HeapEnv) (no : Nat) :
    KeepsTable (Heaps.inodeOpen env no) := by
  intro table
  have hput : ∀ a n, Prog.Preserves (fun s : HeapFs => s.fs.fileTable = table)
      (onFs (putInode a n)) := fun a n =>
    keepsTable_onFs (fun s r t hrun => by cases hrun; rfl) table
  refine Prog.Preserves.get_bind fun s _ => ?_
  cases findOpen s.fs.inodes no s.fs.openInodes with
  | some a => exact Prog.Preserves.bind (hput _ _) fun _ => Prog.Preserves.pure _
  | none =>
      refine Prog.Preserves.bind (keepsTable_onFs (fun s r t hrun => ?_) table) fun inodePos => ?_
      · rw [(Prog.lift_run.mp hrun).2]
      refine Prog.Preserves.bind (Prog.Preserves.modify fun _ h => h) fun _ =>
        Prog.Preserves.bind (keepsTable_sysMalloc _ _ _) fun inodeFound =>
        Prog.Preserves.bind (Prog.Preserves.modify fun _ h => h) fun _ =>
        Prog.Preserves.bind (keepsTable_sysMalloc _ _ _) fun q =>
        Prog.Preserves.bind (keepsTable_deref _ _ _) fun inodeBuf => ?_
      refine Prog.Preserves.bind (keepsTable_onFs (fun s r t hrun => ?_) table) fun buf =>
        Prog.Preserves.bind (keepsTable_deref _ _ _) fun a =>
        Prog.Preserves.bind (hput _ _) fun _ => ?_
      · rw [(readSectors_ok hrun).2]
      refine Prog.Preserves.bind (keepsTable_onFs (fun s r t hrun => ?_) table) fun _ =>
        Prog.Preserves.bind (keepsTable_sysFree _ _ _) fun _ => Prog.Preserves.pure _
      cases hrun
      rfl

namespace Holding

theorem fileOpen (h : Holding .all bufs held s) (no flag : Nat) :
    Prog.wp (fun _ => True) (Heaps.fileOpen env no flag) (fun _ => Holding .all bufs held) s := by
  refine Prog.wp_get_bind ?_
  split
  · exact Prog.wp_pure h
  · rename_i g hslot
    obtain ⟨hg, hfree⟩ := getFreeSlotInGlobal_some hslot
    refine Prog.wp_bind (Prog.wp_mono (Prog.wp_and (h.inodeOpen Others.all_stable no)
      ((keepsTable_inodeOpen env no _).wp rfl)) fun a s₁ ⟨h₁, htable⟩ => ?_)
    refine wp_onFs_run fun _ t hrun => ?_
    cases hrun
    have h₂ : Holding .all bufs held { s₁ with fs := s₁.fs.withFile g ⟨0, flag, some a⟩ } := by
      refine Holding.filled (a := a) ?_ hg (congrArg File.fdInode (withFile_self ..))
      rw [HeapFs.without, withFile_withFile]
      exact h₁.without (htable ▸ hfree)
    refine Prog.wp_ite (fun _ => Prog.wp_get_bind (Prog.wp_ite (fun _ => Prog.wp_pure h₂)
      fun _ => wp_onFs_run fun _ t hrun => ?_)) fun _ => h₂.wp_install g
    cases hrun
    exact (h₂.withInode (a := a) (n := { s₁.fs.inodes a with writeDeny := true }) rfl).wp_install g

theorem openPlan (h : Holding .all bufs held s) (pathname : List UInt8) (flags : Nat) :
    Prog.wp (fun _ => True) (Heaps.openPlan env pathname flags) (fun plan s' => match plan with
      | .create d => HoldingDir .all d bufs held s'
      | _ => Holding .all bufs held s') s := by
  have hOld : Others.all.Stable := Others.all_stable
  refine Prog.wp_ite (fun _ => wp_onFs_error) fun _ => Prog.wp_ite (fun _ => Prog.wp_pure h)
    fun _ => ?_
  refine h.reads_bind (reads_assertFs _ _ _) fun _ s₁ h₁ => ?_
  refine h₁.reads_bind (fun _ => Prog.Preserves.lift _) fun depth s₂ h₂ => ?_
  refine search_bind hOld h₂ fun inodeNo r s₃ h₃ => ?_
  refine Prog.wp_ite (fun _ => close_then hOld h₃ fun _ h' => h') fun _ => ?_
  refine h₃.reads_bind (fun _ => Prog.Preserves.lift _) fun searched s₄ h₄ => ?_
  refine Prog.wp_ite (fun _ => close_then hOld h₄ fun _ h' => h') fun _ => ?_
  refine Prog.wp_ite (fun _ => close_then hOld h₄ fun _ h' => h') fun _ => ?_
  refine Prog.wp_ite (fun _ => close_then hOld h₄ fun _ h' => h') fun _ => ?_
  -- the directory of an existing file is not closed
  exact Prog.wp_ite (fun _ => Prog.wp_pure h₄) fun _ => Prog.wp_pure (forget h₄)

theorem sysOpen (h : Holding .all bufs held s) (pathname : List UInt8) (flags : Nat) :
    Prog.wp (fun _ => True) (Heaps.sysOpen env pathname flags)
      (fun _ => Holding .all bufs held) s := by
  refine Prog.wp_bind (Prog.wp_mono (h.openPlan pathname flags) fun plan s₁ h₁ => ?_)
  cases plan with
  | refuse => exact Prog.wp_pure h₁
  | existing no => exact h₁.fileOpen no flags
  | create d =>
      refine Prog.wp_get_bind (Prog.wp_bind (Prog.wp_mono
        (@fileCreate _ (d.buf ++ bufs) (d.opens ++ held) _ h₁ _ _ _) fun fd s₂ h₂ => ?_))
      exact close_return Others.all_stable h₂ fd

end Holding

/-! ### Directory handles and forks -/

/-- The buffers of the handles. -/
def handleBufs (handles : List (Nat × Heaps.Dir)) : List Nat := handles.flatMap fun x => x.2.buf

/-- The inodes the handles keep open. -/
def handleOpens (handles : List (Nat × Heaps.Dir)) : List Nat := handles.flatMap fun x => x.2.opens

theorem sysForkFiles_part (child : Nat) (part : Partition) :
    Prog.Preserves (fun s : Fs => s.part = part) (sysForkFiles child) := by
  have hloop : ∀ (fdTable : Nat → Int) (n i : Nat),
      Prog.Preserves (fun s : Fs => s.part = part) (updateOpenCntsFrom fdTable n i) := by
    intro fdTable n
    induction n with
    | zero => exact fun _ => Prog.Preserves.pure _
    | succ n ih =>
        refine fun i => Prog.Preserves.bind (Prog.Preserves.lift _) fun _ =>
          Prog.Preserves.ite (fun _ => ?_) fun _ => ih _
        refine Prog.Preserves.bind (reads_fdInodeOf _ _ _) fun _ =>
          Prog.Preserves.get_bind fun _ _ => ?_
        exact Prog.Preserves.bind (Prog.Preserves.modify fun _ h => h) fun _ => ih _
  refine Prog.Preserves.get_bind fun _ _ => Prog.Preserves.bind (Prog.Preserves.lift _) fun _ =>
    Prog.Preserves.bind (Prog.Preserves.modify fun _ h => h) fun _ => ?_
  exact Prog.Preserves.get_bind fun _ _ => hloop _ _ _

namespace Holding

theorem fork (h : Holding .all bufs held s) {child : Nat} {t : Fs}
    (hrun : sysForkFiles child s.fs = .ok ((), t)) : Holding .all bufs held { s with fs := t } := by
  have hraised := (@forkBy_run _ _ s.fs.cur child hrun).1
  have hpart := sysForkFiles_part child s.fs.part s.fs _ t rfl hrun
  refine ⟨hraised.counted (h.tasks _).counted, ?_, h.nodup, fun q hq => ?_,
    fun _ _ => .inr (.inl trivial)⟩
  · rw [hpart]
    exact h.fits
  · show q ∈ t.heap ∧ q ∉ t.openInodes
    rw [hraised.heap, hraised.openInodes]
    exact h.owned q hq

/-- **One call**, of any task: the users of every open inode are counted. -/
theorem exec {handles : List (Nat × Heaps.Dir)}
    (h : Holding .all (handleBufs handles) (handleOpens handles) s) {c : Heaps.AnyCall}
    (hen : ∀ x, c = .call (.closedir (some x)) → x ∈ handles) :
    Prog.wp (fun _ => True) (c.exec env handles) (fun handles' s' =>
      Holding .all (handleBufs handles') (handleOpens handles') s') s := by
  have hOld : Others.all.Stable := Others.all_stable
  -- a call that returns the handles as they were
  have hreturn : ∀ {β : Type} {x : HeapM β}, Prog.wp (fun _ => True) x
      (fun _ => Holding .all (handleBufs handles) (handleOpens handles)) s →
      Prog.wp (fun _ => True) (do let _ ← x; return handles) (fun handles' s' =>
        Holding .all (handleBufs handles') (handleOpens handles') s') s := fun hx =>
    Prog.wp_bind (Prog.wp_mono hx fun _ _ h' => Prog.wp_pure h')
  have hleaving : ∀ {C : Prop} {s' : HeapFs},
      Leaving .all (handleBufs handles) (handleOpens handles) s C s' →
      Holding .all (handleBufs handles) (handleOpens handles) s' := fun ⟨_, h', _⟩ =>
    @forget (handleBufs handles) (handleOpens handles) _ _ [] h'
  cases c with
  | lseek fd offset whence =>
      exact h.quiet_bind (quiet_sysLseek fd offset whence) fun _ _ h' => Prog.wp_pure h'
  | chdir path => exact hreturn (h.sysChdir hOld path)
  | getcwd buf size =>
      exact hreturn (Prog.wp_mono (h.sysGetcwd hOld buf size) fun _ _ h' => hleaving h')
  | fork child => exact wp_onFs_run fun _ t hrun => Prog.wp_pure (h.fork hrun)
  | call c =>
      cases c with
      | «open» pathname flags => exact hreturn (h.sysOpen pathname flags)
      | read keys fd buf count =>
          exact hreturn (Prog.wp_mono (h.sysRead hOld keys fd buf count) fun _ _ h' => hleaving h')
      | write fd buf count =>
          exact hreturn (Prog.wp_mono (h.sysWrite hOld fd buf count) fun _ _ h' => hleaving h')
      | close fd => exact hreturn (h.sysClose hOld fd)
      | mkdir pathname => exact hreturn (h.sysMkdir hOld pathname)
      | unlink pathname => exact hreturn (h.sysUnlink hOld pathname)
      | rmdir pathname => exact hreturn (h.sysRmdir hOld pathname)
      | stat path => exact hreturn (h.sysStat hOld path)
      | opendir name =>
          refine Prog.wp_bind (Prog.wp_mono (h.sysOpendir hOld name) fun res s₁ h₁ => ?_)
          cases res with
          | none => exact Prog.wp_pure h₁
          | some dir => exact Prog.wp_get_bind (Prog.wp_pure h₁)
      | closedir handle =>
          cases handle with
          | none => exact hreturn (Prog.wp_pure h)
          | some x =>
              have hperm := List.perm_cons_erase (hen x rfl)
              have hdir : HoldingDir .all x.2 (handleBufs (handles.erase x))
                  (handleOpens (handles.erase x)) s :=
                h.perm (hperm.flatMap_right _) (hperm.flatMap_right _)
              exact Prog.wp_bind (Prog.wp_bind (Prog.wp_mono (dirClose hOld hdir) fun _ _ h' =>
                Prog.wp_pure (Prog.wp_pure h')))

end Holding

/-! ### Runs -/

/-- The file system under all calls of all tasks, on a partition whose block bitmap lies in front
of its data. -/
def anyMachine (env : HeapEnv) : Machine HeapSys (Nat × Heaps.AnyCall) HeapHalt where
  init s := s.handles = [] ∧ ∃ s₀, HeapBooted s₀ ∧ s₀.fs.part.DataFits ∧
    Heaps.filesysInit env s₀ = .ok ((), s.heaps)
  enabled := HeapSys.Permits
  exec := anyExec env

/-- The first inode that is opened is the only one, and the file table is untouched. -/
theorem inodeOpen_first (h : HeapBooted s) (hfits : s.fs.part.DataFits) (no : Nat) :
    Prog.wp (fun _ => True) (Heaps.inodeOpen env no) (fun a s' => s'.fs.openInodes = [a] ∧
      a ∈ s'.fs.heap ∧ (s'.fs.inodes a).iOpenCnts = 1 ∧ s'.fs.part.DataFits) s := by
  refine Prog.wp_get_bind ?_
  rw [h.openInodes]
  refine wp_onFs_run fun inodePos t hrun => ?_
  obtain ⟨-, rfl⟩ := Prog.lift_run.mp hrun
  refine Prog.wp_bind (wp_setPgDir (malloc_bind (fun _ => ?_) fun a hnew => ?_))
  · -- without memory for the inode nothing is returned
    refine Prog.wp_bind (wp_setPgDir (Prog.wp_bind (Prog.wp_of_returns fun _ _ _ => ?_)))
    exact deref_bind fun _ _ => wp_onFs_run fun _ _ _ => deref_bind fun _ hc => nomatch hc
  refine Prog.wp_bind (wp_setPgDir (malloc_bind (fun _ => trivial) fun inodeBuf hbuf => ?_))
  refine deref_bind fun b hb => wp_onFs_run fun buf t hrun => deref_bind fun c hc => ?_
  cases hb
  cases hc
  obtain ⟨-, rfl⟩ := readSectors_ok hrun
  refine wp_onFs_run fun _ t hrun => wp_onFs_run fun _ t' hrun' => ?_
  cases hrun
  cases hrun'
  have hne : a ≠ inodeBuf := fun hc => env.newAddr_fresh hbuf (hc ▸ Finset.mem_insert_self _ _)
  refine Prog.wp_bind (wp_free_returns (Prog.wp_pure ⟨congrArg (a :: ·) h.openInodes, ?_,
    congrArg Inode.iOpenCnts (if_pos rfl), hfits⟩))
  exact Finset.mem_erase.mpr ⟨hne, Finset.mem_insert_of_mem (Finset.mem_insert_self _ _)⟩

/-- After the mount nothing is held, and the root directory is the only user of an inode. -/
theorem anyMachine_init {s : HeapSys} (h : (anyMachine env).init s) :
    Holding .all (handleBufs s.handles) (handleOpens s.handles) s.heaps := by
  obtain ⟨hhandles, s₀, hboot, hfits, hrun⟩ := h
  rw [hhandles]
  have hwp : Prog.wp (fun _ => True) (Heaps.filesysInit env)
      (fun _ s' => Holding .all [] [] s') s₀ := by
    refine Prog.wp_get_bind (Prog.wp_bind (Prog.wp_mono (Prog.wp_and
      (inodeOpen_first hboot hfits _) ((keepsTable_inodeOpen env _ _).wp rfl)) ?_))
    rintro a s₁ ⟨⟨hopen, hheap, hone, hfits₁⟩, htable⟩
    refine wp_onFs_run fun _ t hrun => ?_
    cases hrun
    refine wp_onFs_returns fun _ t hrun => ?_
    cases hrun
    have huses : ∀ b, Fs.uses { s₁.fs with rootInode := a, fileTable := clearTable s₁.fs.fileTable }
        b = if a = b then 1 else 0 := by
      intro b
      have hnone : Fs.entriesOf { s₁.fs with
          rootInode := a, fileTable := clearTable s₁.fs.fileTable } b = ∅ := by
        refine Finset.eq_empty_of_forall_notMem fun g hg => ?_
        obtain ⟨hlt, hg⟩ := mem_entriesOf.mp hg
        have hg : (clearTable s₁.fs.fileTable g).fdInode = some b := hg
        unfold clearTable at hg
        rw [htable] at hg
        split_ifs at hg
        rw [hboot.fileTable g hlt] at hg
        cases hg
      rw [Fs.uses, hnone, Finset.card_empty, Nat.zero_add]
    refine ⟨⟨?_, ?_, fun b hb => ?_⟩, hfits₁, List.nodup_nil,
      fun _ hp => absurd hp (List.not_mem_nil),
      fun _ _ => .inr (.inl trivial)⟩
    · show s₁.fs.openInodes.Nodup
      rw [hopen]
      exact List.nodup_singleton a
    · show ∀ b ∈ s₁.fs.openInodes, b ∈ s₁.fs.heap
      rw [hopen]
      exact List.forall_mem_singleton.mpr hheap
    · rw [huses] at hb ⊢
      by_cases hab : a = b
      · subst hab
        refine ⟨hopen ▸ List.mem_singleton_self a, ?_⟩
        rw [if_pos rfl]
        exact hone.ge
      · rw [if_neg hab] at hb
        exact absurd hb (Nat.lt_irrefl 0)
  exact hwp.of_run hrun

variable {hist : List (HeapSys × (Nat × Heaps.AnyCall))}

/-- The call of a step, and the state it leaves. -/
theorem anyExec_ok {s s' : HeapSys} {a : Nat × Heaps.AnyCall}
    (h : anyExec env a s = .ok ((), s')) :
    a.2.exec env s.handles (s.heaps.running a.1) = .ok (s'.handles, s'.heaps) := by
  unfold anyExec at h
  rw [Heaps.AnyCall.execBy, Prog.bind_of_run (Prog.modify_run _ _)] at h
  cases hexec : a.2.exec env s.handles (s.heaps.running a.1) with
  | error e =>
      rw [show a.2.exec env s.handles { s.heaps with fs := { s.heaps.fs with cur := a.1 } }
        = .error e from hexec] at h
      cases h
  | ok r =>
      rw [show a.2.exec env s.handles { s.heaps with fs := { s.heaps.fs with cur := a.1 } }
        = .ok r from hexec] at h
      cases h
      rfl

theorem holding_of_run {s : HeapSys} (h : (anyMachine env).Run hist s) :
    Holding .all (handleBufs s.handles) (handleOpens s.handles) s.heaps := by
  induction h with
  | start h => exact anyMachine_init h
  | @next hist s s' a _ hen hrun ih =>
      refine ((ih.cur a.1).exec fun x hx => ?_).of_run (anyExec_ok hrun)
      obtain ⟨t, c⟩ := a
      cases hx
      exact hen.1

/-- When a call begins, everything in the heap is old. -/
def Others.since (s₀ : HeapFs) : Others := fun frees a =>
  a ∈ s₀.fs.heap ∧ ∃ new, frees = new ++ s₀.frees ∧ ∀ x ∈ new, x.1 ≠ a

theorem Others.since_stable (s₀ : HeapFs) : (Others.since s₀).Stable := by
  rintro frees a p c ⟨hmem, new, hfrees, hnew⟩ hap
  exact ⟨hmem, (p, c) :: new, congrArg ((p, c) :: ·) hfrees,
    List.forall_mem_cons.mpr ⟨fun hpa => hap hpa.symm, hnew⟩⟩

theorem Holding.since (h : Holding .all bufs held s) : Holding (.since s) [] held s :=
  ⟨h.counted, h.fits, List.nodup_nil, nofun, fun _ ha =>
    .inr (.inl ⟨ha, [], rfl, nofun⟩)⟩

/-- The call has given back all it has taken: what is in the heap was there before and has not
been freed since, or is an inode on the open list that something refers to. -/
def NoLeak (s s' : HeapSys) : Prop :=
  ∀ a ∈ s'.heaps.fs.heap, Others.since s.heaps s'.heaps.frees a ∨
    (a ∈ s'.heaps.fs.openInodes ∧ 0 < s'.heaps.fs.uses a + (handleOpens s'.handles).count a)

/-- The calls that are not to leave anything open. -/
def Heaps.AnyCall.OpensNothing : Heaps.AnyCall → Prop
  | .getcwd _ _ => True
  | .chdir _ => True
  | .lseek _ _ _ => True
  | .fork _ => False
  | .call c => match c with
      | .open _ _ => False
      | .opendir _ => False
      | .closedir _ => False
      | _ => True

/-- A call that is to open nothing has given back all but what `Leaks` says. -/
theorem Holding.plain {handles : List (Nat × Heaps.Dir)} {c : Heaps.AnyCall} (hOld : Old.Stable)
    (h : Holding Old bufs held s) (hc : c.OpensNothing) :
    Prog.wp (fun _ => True) (c.exec env handles)
      (fun handles' s' => handles' = handles ∧ Leaving Old bufs held s (Heaps.Leaks env s c) s')
      s := by
  have hkeep : ∀ {β : Type} {x : HeapM β}, ¬ Heaps.Leaks env s c →
      Prog.wp (fun _ => True) x (fun _ => Holding Old bufs held) s →
      Prog.wp (fun _ => True) (do let _ ← x; return handles) (fun handles' s' =>
        handles' = handles ∧ Leaving Old bufs held s (Heaps.Leaks env s c) s') s := fun hno hx =>
    Prog.wp_bind (Prog.wp_mono hx fun _ _ h' => Prog.wp_pure ⟨rfl, h'.leaving _ hno⟩)
  have hleave : ∀ {β : Type} {x : HeapM β},
      Prog.wp (fun _ => True) x (fun _ => Leaving Old bufs held s (Heaps.Leaks env s c)) s →
      Prog.wp (fun _ => True) (do let _ ← x; return handles) (fun handles' s' =>
        handles' = handles ∧ Leaving Old bufs held s (Heaps.Leaks env s c) s') s := fun hx =>
    Prog.wp_bind (Prog.wp_mono hx fun _ _ h' => Prog.wp_pure ⟨rfl, h'⟩)
  cases c with
  | lseek fd offset whence =>
      exact h.quiet_bind (quiet_sysLseek fd offset whence) fun _ _ h' =>
        Prog.wp_pure ⟨rfl, h'.leaving _ id⟩
  | chdir path => exact hkeep id (h.sysChdir hOld path)
  | getcwd buf size => exact hleave (h.sysGetcwd hOld buf size)
  | fork child => exact hc.elim
  | call c =>
      cases c with
      | «open» pathname flags => exact hc.elim
      | opendir name => exact hc.elim
      | closedir handle => exact hc.elim
      | read keys fd buf count => exact hleave (h.sysRead hOld keys fd buf count)
      | write fd buf count => exact hleave (h.sysWrite hOld fd buf count)
      | close fd => exact hkeep id (h.sysClose hOld fd)
      | mkdir pathname => exact hkeep id (h.sysMkdir hOld pathname)
      | unlink pathname => exact hkeep id (h.sysUnlink hOld pathname)
      | rmdir pathname => exact hkeep id (h.sysRmdir hOld pathname)
      | stat path => exact hkeep id (h.sysStat hOld path)

/-- **Just the calls of `Leaks` leak**, in every state of every run. -/
theorem no_leak_iff (env : HeapEnv) (hist : List (HeapSys × (Nat × Heaps.AnyCall)))
    (s s' : HeapSys) (t : Nat) (c : Heaps.AnyCall) (h : (anyMachine env).Run hist s)
    (hc : c.OpensNothing) (hrun : anyExec env (t, c) s = .ok ((), s')) :
    NoLeak s s' ↔ ¬ Heaps.Leaks env (s.heaps.running t) c := by
  obtain ⟨hhandles, lost, hend, hnew, hiff⟩ :=
    (((holding_of_run h).cur t).since.plain (Others.since_stable _) hc).of_run (anyExec_ok hrun)
  rw [← hiff]
  constructor
  · intro hno
    rw [List.eq_nil_iff_forall_not_mem]
    intro p hp
    obtain ⟨hheap, hopen⟩ := hend.owned p (List.mem_append_left _ hp)
    rcases hno p hheap with hold | hused
    · exact hnew p hp hold.1
    · exact hopen hused.1
  · rintro rfl a ha
    rcases hend.rest a ha with hbuf | hold | href
    · cases hbuf
    · exact .inl hold
    · refine .inr ⟨href.opened, ?_⟩
      rw [hhandles]
      exact href.used

/-! ### A directory is made, and the root directory is asked for -/

theorem mountedHeaps_any : (anyMachine splitEnv).Run [] mountedHeaps :=
  .start ⟨rfl, bootHeaps, ⟨rfl, fun _ _ => rfl, rfl⟩, ⟨by decide, by decide⟩,
    Prog.run_of_answer (by decide +kernel)⟩

/-- After `mkdir("/d")`. -/
def madeHeaps : HeapSys := (anyExec splitEnv (0, .call (.mkdir [47, 100]))).after mountedHeaps

/-- After `getcwd(buf, 512)` in the root directory. -/
def askedHeaps : HeapSys := (anyExec splitEnv (0, .getcwd (fun _ => 0) 512)).after mountedHeaps

theorem no_leak_mkdir : NoLeak mountedHeaps madeHeaps :=
  (no_leak_iff splitEnv [] mountedHeaps madeHeaps 0 (.call (.mkdir [47, 100])) mountedHeaps_any
    trivial (Prog.run_of_answer (by decide +kernel))).mpr id

/-- The buffer is not freed when the path is known to be `/`. -/
theorem leak_getcwd : (anyMachine splitEnv).Run [] mountedHeaps ∧
    anyExec splitEnv (0, .getcwd (fun _ => 0) 512) mountedHeaps = .ok ((), askedHeaps) ∧
    ¬ NoLeak mountedHeaps askedHeaps := by
  have hlost : ∃ a ∈ askedHeaps.heaps.fs.heap, a ∉ mountedHeaps.heaps.fs.heap ∧
      a ∉ askedHeaps.heaps.fs.openInodes := by decide +kernel
  obtain ⟨a, ha, hnew, hclosed⟩ := hlost
  refine ⟨mountedHeaps_any, Prog.run_of_answer (by decide +kernel), fun hno => ?_⟩
  rcases hno a ha with hold | hused
  · exact hnew hold.1
  · exact hclosed hused.1

end ZyOs
