/-
What running code has taken from the heap and not given back yet.

`Holding` says of a call that is under way which buffers and which open inodes it has in its
hands.  Everything else in the heap was there when the call began, or is an inode that is on
the open list and has no more users than refer to it.  So a call that ends with nothing in
its hands has given everything back.
-/
import ZyOs.Kernel.HeapCwd
import ZyOs.Proofs.Block
import ZyOs.Proofs.HeapCalls
import ZyOs.Proofs.OpenCounts

namespace ZyOs

open Library

/-- The inode at `a` is open, and all users it has are counted. -/
structure Fs.Referred (s : Fs) (held : List Nat) (a : Nat) : Prop where
  opened : a ∈ s.openInodes
  pos : 0 < (s.inodes a).iOpenCnts
  atMost : (s.inodes a).iOpenCnts ≤ s.uses a + held.count a

/-- What may be in the heap besides, as far as the calls of `sys_free` tell. -/
abbrev Others := List (Nat × Context) → Nat → Prop

/-- Freeing something else does not matter. -/
def Others.Stable (Old : Others) : Prop :=
  ∀ ⦃frees : List (Nat × Context)⦄ ⦃a p : Nat⦄ ⦃c : Context⦄, Old frees a → a ≠ p →
    Old ((p, c) :: frees) a

/-- Running code has the buffers `bufs` and the open inodes `held`. -/
structure Holding (Old : Others) (bufs held : List Nat) (s : HeapFs) : Prop where
  counted : Counted s.fs held
  fits : s.fs.part.DataFits
  nodup : bufs.Nodup
  owned : ∀ p ∈ bufs, p ∈ s.fs.heap ∧ p ∉ s.fs.openInodes
  rest : ∀ a ∈ s.fs.heap, a ∈ bufs ∨ Old s.frees a ∨ s.fs.Referred held a

variable {env : HeapEnv} {Old : Others} {bufs held : List Nat} {s s' : HeapFs} {α β : Type}
  {a g p size no : Nat} {c : Context} {Q : β → HeapFs → Prop}

theorem Partition.Alike.dataFits {q p : Partition} (h : q.Alike p) (hq : q.DataFits) :
    p.DataFits := by
  obtain ⟨h1, h2⟩ := hq
  refine ⟨?_, ?_⟩
  · rw [h.sb, h.blockLen]
    exact h1
  · rw [h.sb, h.blockLen]
    exact h2

namespace Fs.Referred

theorem perm {s : Fs} {held' : List Nat} (h : s.Referred held a) (hp : held.Perm held') :
    s.Referred held' a := ⟨h.opened, h.pos, hp.count_eq a ▸ h.atMost⟩

theorem quiet {s s' : Fs} (h : s.Referred held a) (hq : Quiet s s') : s'.Referred held a where
  opened := hq.openInodes ▸ h.opened
  pos := hq.iOpenCnts a ▸ h.pos
  atMost := by
    rw [hq.iOpenCnts, uses_congr hq.fdInode hq.rootInode]
    exact h.atMost

/-- An inode somebody refers to besides what is held. -/
theorem used {s : Fs} (h : s.Referred held a) : 0 < s.uses a + held.count a :=
  Nat.lt_of_lt_of_le h.pos h.atMost

end Fs.Referred

namespace Holding

/-! ### Steps -/

theorem perm {bufs' held' : List Nat} (h : Holding Old bufs held s) (hb : bufs.Perm bufs')
    (hh : held.Perm held') : Holding Old bufs' held' s where
  counted := h.counted.perm hh
  fits := h.fits
  nodup := hb.nodup_iff.mp h.nodup
  owned := fun p hp => h.owned p (hb.mem_iff.mpr hp)
  rest := fun a ha => (h.rest a ha).imp hb.mem_iff.mp (Or.imp_right fun hr => hr.perm hh)

theorem permBufs {bufs' : List Nat} (h : Holding Old bufs held s) (hb : bufs.Perm bufs') :
    Holding Old bufs' held s := h.perm hb (.refl held)

theorem quiet (h : Holding Old bufs held s) {t : Fs} (hq : Quiet s.fs t) :
    Holding Old bufs held { s with fs := t } where
  counted := h.counted.quiet hq
  fits := hq.alike.dataFits h.fits
  nodup := h.nodup
  owned := fun p hp => by
    show p ∈ t.heap ∧ p ∉ t.openInodes
    rw [hq.heap, hq.openInodes]
    exact h.owned p hp
  rest := fun a ha => (h.rest a (hq.heap ▸ ha)).imp_right (Or.imp_right fun hr => hr.quiet hq)

/-- Descriptors, working directories and page directories are not part of it. -/
theorem tasks (h : Holding Old bufs held s) (f : Nat → FdTask) :
    Holding Old bufs held { s with fs := { s.fs with tasks := f } } :=
  ⟨⟨h.counted.nodup, h.counted.heap, h.counted.counted⟩, h.fits, h.nodup, h.owned,
    fun a ha => (h.rest a ha).imp_right (Or.imp_right fun hr => ⟨hr.opened, hr.pos, hr.atMost⟩)⟩

theorem cur (h : Holding Old bufs held s) (t : Nat) : Holding Old bufs held (s.running t) :=
  ⟨⟨h.counted.nodup, h.counted.heap, h.counted.counted⟩, h.fits, h.nodup, h.owned,
    fun a ha => (h.rest a ha).imp_right (Or.imp_right fun hr => ⟨hr.opened, hr.pos, hr.atMost⟩)⟩

/-- A new buffer. -/
theorem allocated (h : Holding Old bufs held s) (hfresh : a ∉ s.fs.heap) :
    Holding Old (a :: bufs) held { s with fs := { s.fs with heap := insert a s.fs.heap } } where
  counted := ⟨h.counted.nodup, fun b hb => Finset.mem_insert_of_mem (h.counted.heap b hb),
    h.counted.counted⟩
  fits := h.fits
  nodup := List.nodup_cons.mpr ⟨fun ha => hfresh (h.owned a ha).1, h.nodup⟩
  owned := List.forall_mem_cons.mpr ⟨⟨Finset.mem_insert_self _ _,
    fun ha => hfresh (h.counted.heap a ha)⟩,
    fun p hp => ⟨Finset.mem_insert_of_mem (h.owned p hp).1, (h.owned p hp).2⟩⟩
  rest := by
    intro b hb
    rcases Finset.mem_insert.mp hb with rfl | hb
    · exact .inl List.mem_cons_self
    · exact (h.rest b hb).imp (List.mem_cons_of_mem a)
        (Or.imp_right fun hr => ⟨hr.opened, hr.pos, hr.atMost⟩)

/-- A buffer is given back. -/
theorem freed (hOld : Old.Stable) (h : Holding Old (p :: bufs) held s) (c : Context) :
    Holding Old bufs held
      ⟨{ s.fs with heap := s.fs.heap.erase p }, (p, c) :: s.frees⟩ := by
  obtain ⟨hnot, hnodup⟩ := List.nodup_cons.mp h.nodup
  have hp := h.owned p List.mem_cons_self
  refine ⟨⟨h.counted.nodup, fun b hb => ?_, h.counted.counted⟩, h.fits, hnodup, fun q hq => ?_,
    fun b hb => ?_⟩
  · exact Finset.mem_erase.mpr ⟨fun hbp => hp.2 (hbp ▸ hb), h.counted.heap b hb⟩
  · have hq' := h.owned q (List.mem_cons_of_mem p hq)
    exact ⟨Finset.mem_erase.mpr ⟨fun hqp => hnot (hqp ▸ hq), hq'.1⟩, hq'.2⟩
  · obtain ⟨hbp, hb⟩ := Finset.mem_erase.mp hb
    rcases h.rest b hb with hbuf | hold | hr
    · exact .inl ((List.mem_cons.mp hbuf).resolve_left hbp)
    · exact .inr (.inl (hOld hold hbp))
    · exact .inr (.inr ⟨hr.opened, hr.pos, hr.atMost⟩)

/-- What is written into a buffer that is to be an inode does not matter yet. -/
theorem written (h : Holding Old bufs held s) (hp : p ∈ bufs) (n : Inode) :
    Holding Old bufs held { s with fs := s.fs.withInode p n } := by
  have hne : ∀ b ∈ s.fs.openInodes, b ≠ p := fun b hb hbp => (h.owned p hp).2 (hbp ▸ hb)
  refine ⟨⟨h.counted.nodup, h.counted.heap, fun b hb => ?_⟩, h.fits, h.nodup, h.owned,
    fun b hb => (h.rest b hb).imp_right (Or.imp_right fun hr => ?_)⟩
  · have hb' := h.counted.counted b hb
    rw [withInode_ne _ _ _ _ (hne b hb'.1)]
    exact hb'
  · refine ⟨hr.opened, ?_, ?_⟩
    · rw [withInode_ne _ _ _ _ (hne b hr.opened)]
      exact hr.pos
    · rw [withInode_ne _ _ _ _ (hne b hr.opened)]
      exact hr.atMost

/-- A buffer becomes an inode that is open once. -/
theorem pushed (h : Holding Old (p :: bufs) held s) (hone : (s.fs.inodes p).iOpenCnts = 1) :
    Holding Old bufs (p :: held)
      { s with fs := { s.fs with openInodes := p :: s.fs.openInodes } } := by
  obtain ⟨hnot, hnodup⟩ := List.nodup_cons.mp h.nodup
  obtain ⟨hheap, hclosed⟩ := h.owned p List.mem_cons_self
  have hzero : s.fs.uses p + held.count p = 0 := by
    by_contra hpos
    exact hclosed (h.counted.counted p (by omega)).1
  have hne : ∀ b ∈ s.fs.openInodes, b ≠ p := fun b hb hbp => hclosed (hbp ▸ hb)
  refine ⟨⟨List.nodup_cons.mpr ⟨hclosed, h.counted.nodup⟩, List.forall_mem_cons.mpr
    ⟨hheap, h.counted.heap⟩, fun b hb => ?_⟩, h.fits, hnodup, fun q hq => ?_, fun b hb => ?_⟩
  · show b ∈ p :: s.fs.openInodes ∧ s.fs.uses b + (p :: held).count b ≤ _
    have hb : 0 < s.fs.uses b + (p :: held).count b := hb
    by_cases hbp : b = p
    · subst hbp
      rw [List.count_cons_self]
      exact ⟨List.mem_cons_self, by rw [hone]; omega⟩
    · rw [List.count_cons_of_ne (Ne.symm hbp)] at hb ⊢
      have hb' := h.counted.counted b hb
      exact ⟨List.mem_cons_of_mem p hb'.1, hb'.2⟩
  · have hq' := h.owned q (List.mem_cons_of_mem p hq)
    exact ⟨hq'.1, fun hmem => (List.mem_cons.mp hmem).elim (fun hqp => hnot (hqp ▸ hq)) hq'.2⟩
  · by_cases hbp : b = p
    · subst hbp
      exact .inr (.inr ⟨List.mem_cons_self, by rw [hone]; exact Nat.one_pos, by
        rw [hone, List.count_cons_self]; omega⟩)
    · rcases h.rest b hb with hbuf | hold | hr
      · exact .inl ((List.mem_cons.mp hbuf).resolve_left hbp)
      · exact .inr (.inl hold)
      · refine .inr (.inr ⟨List.mem_cons_of_mem p hr.opened, hr.pos, ?_⟩)
        rw [List.count_cons_of_ne (Ne.symm hbp)]
        exact hr.atMost

/-- An inode that is open gets one more user. -/
theorem shared (h : Holding Old bufs held s) (hmem : a ∈ s.fs.openInodes) :
    Holding Old bufs (a :: held) { s with
      fs := s.fs.withInode a { s.fs.inodes a with iOpenCnts := (s.fs.inodes a).iOpenCnts + 1 } } := by
  refine ⟨h.counted.shared hmem, h.fits, h.nodup, h.owned,
    fun b hb => (h.rest b hb).imp_right (Or.imp_right fun hr => ⟨hr.opened, ?_, ?_⟩)⟩
  · by_cases hba : b = a
    · rw [hba, withInode_self]
      exact Nat.succ_pos _
    · rw [withInode_ne _ _ _ _ hba]
      exact hr.pos
  · rw [uses_withInode]
    by_cases hba : b = a
    · rw [hba, withInode_self, List.count_cons_self]
      exact Nat.add_le_add_right (hba ▸ hr.atMost) 1
    · rw [withInode_ne _ _ _ _ hba, List.count_cons_of_ne (Ne.symm hba)]
      exact hr.atMost

/-- The inode of an entry that is emptied is held again. -/
theorem emptied {f : File} (h : Holding Old bufs held s) (hg : g < maxFileOpen)
    (hentry : (s.fs.fileTable g).fdInode = some a) (hf : f.fdInode = none) :
    Holding Old bufs (a :: held) { s with fs := s.fs.withFile g f } where
  counted := h.counted.withoutFile hg hentry hf
  fits := h.fits
  nodup := h.nodup
  owned := h.owned
  rest := fun b hb => (h.rest b hb).imp_right (Or.imp_right fun hr =>
    ⟨hr.opened, hr.pos, (uses_empty hg hentry hf held).symm ▸ hr.atMost⟩)

theorem withInode {n : Inode} (h : Holding Old bufs held s)
    (hn : n.iOpenCnts = (s.fs.inodes a).iOpenCnts) :
    Holding Old bufs held { s with fs := s.fs.withInode a n } := by
  have hcnt : ∀ b, ((s.fs.withInode a n).inodes b).iOpenCnts = (s.fs.inodes b).iOpenCnts := by
    intro b
    by_cases hba : b = a
    · rw [hba, withInode_self, hn]
    · rw [withInode_ne _ _ _ _ hba]
  exact ⟨h.counted.withInode hn, h.fits, h.nodup, h.owned, fun b hb =>
    (h.rest b hb).imp_right (Or.imp_right fun hr =>
      ⟨hr.opened, (hcnt b).symm ▸ hr.pos, (hcnt b).symm ▸ hr.atMost⟩)⟩

end Holding

/-- The state after `inode_close`. -/
def HeapFs.inodeClosed (s : HeapFs) (a : Nat) : HeapFs where
  fs := s.fs.closed a
  frees := if decrOpenCnts (s.fs.inodes a).iOpenCnts = 0 then (a, .kernel) :: s.frees else s.frees

theorem inodeClosed_withFile (s : HeapFs) (a g : Nat) (f : File) :
    ({ s with fs := s.fs.withFile g f } : HeapFs).inodeClosed a
      = { s.inodeClosed a with fs := (s.inodeClosed a).fs.withFile g f } := by
  rw [HeapFs.inodeClosed, HeapFs.inodeClosed, ← withFile_closed]
  rfl

theorem Holding.inodeClosed (hOld : Old.Stable) (h : Holding Old bufs (a :: held) s) :
    Holding Old bufs held (s.inodeClosed a) := by
  obtain ⟨hmem, hle⟩ := h.counted.counted a (by rw [List.count_cons_self]; omega)
  rw [List.count_cons_self] at hle
  have hdecr : decrOpenCnts (s.fs.inodes a).iOpenCnts = (s.fs.inodes a).iOpenCnts - 1 :=
    if_neg (by omega)
  have hpart := (closed_rest s.fs a).2.2.2.2.2
  have huses : ∀ b, (s.fs.closed a).uses b = s.fs.uses b := fun b =>
    uses_congr (fun g => by rw [(closed_rest s.fs a).1]) (closed_rest s.fs a).2.1
  have hnotBuf : ∀ q ∈ bufs, q ≠ a := fun q hq hqa => (h.owned q hq).2 (hqa ▸ hmem)
  have hcounted : Counted (s.fs.closed a) held := h.counted.closeInode
  by_cases hone : (s.fs.inodes a).iOpenCnts = 1
  · -- the last user is gone, and the inode with it
    have hzero : decrOpenCnts (s.fs.inodes a).iOpenCnts = 0 := by omega
    have hclosed := closed_last hone
    refine ⟨hcounted, hpart ▸ h.fits, h.nodup, fun q hq => ?_, fun b hb => ?_⟩
    · show q ∈ (s.fs.closed a).heap ∧ q ∉ (s.fs.closed a).openInodes
      rw [hclosed]
      exact ⟨Finset.mem_erase.mpr ⟨hnotBuf q hq, (h.owned q hq).1⟩,
        fun hc => (h.owned q hq).2 (List.mem_of_mem_erase hc)⟩
    · have hb : b ∈ (s.fs.closed a).heap := hb
      rw [hclosed] at hb
      obtain ⟨hba, hb⟩ := Finset.mem_erase.mp hb
      have hfrees : (s.inodeClosed a).frees = (a, .kernel) :: s.frees := if_pos hzero
      rcases h.rest b hb with hbuf | hold | hr
      · exact .inl hbuf
      · exact .inr (.inl (hfrees ▸ hOld hold hba))
      · refine .inr (.inr ⟨?_, ?_, ?_⟩)
        · show b ∈ (s.fs.closed a).openInodes
          rw [hclosed]
          exact (List.mem_erase_of_ne hba).mpr hr.opened
        · show 0 < ((s.fs.closed a).inodes b).iOpenCnts
          rw [closed_inodes, withInode_ne _ _ _ _ hba]
          exact hr.pos
        · show ((s.fs.closed a).inodes b).iOpenCnts ≤ (s.fs.closed a).uses b + held.count b
          rw [huses, closed_inodes, withInode_ne _ _ _ _ hba]
          have hle := hr.atMost
          rwa [List.count_cons_of_ne (Ne.symm hba)] at hle
  · have hclosed := closed_shared (s := s.fs) (a := a) (by omega)
    have hfrees : (s.inodeClosed a).frees = s.frees := if_neg (by omega)
    refine ⟨hcounted, hpart ▸ h.fits, h.nodup, fun q hq => ?_, fun b hb => ?_⟩
    · show q ∈ (s.fs.closed a).heap ∧ q ∉ (s.fs.closed a).openInodes
      rw [hclosed]
      exact h.owned q hq
    · have hb : b ∈ (s.fs.closed a).heap := hb
      rw [hclosed] at hb
      rcases h.rest b hb with hbuf | hold | hr
      · exact .inl hbuf
      · exact .inr (.inl (hfrees ▸ hold))
      · refine .inr (.inr ⟨?_, ?_, ?_⟩)
        · show b ∈ (s.fs.closed a).openInodes
          rw [hclosed]
          exact hr.opened
        · show 0 < ((s.fs.closed a).inodes b).iOpenCnts
          rw [closed_inodes]
          by_cases hba : b = a
          · rw [hba, withInode_self]
            show 0 < decrOpenCnts (s.fs.inodes a).iOpenCnts
            omega
          · rw [withInode_ne _ _ _ _ hba]
            exact hr.pos
        · show ((s.fs.closed a).inodes b).iOpenCnts ≤ (s.fs.closed a).uses b + held.count b
          rw [huses, closed_inodes]
          have hle := hr.atMost
          by_cases hba : b = a
          · rw [hba, List.count_cons_self] at hle
            rw [hba, withInode_self]
            show decrOpenCnts (s.fs.inodes a).iOpenCnts ≤ _
            omega
          · rw [withInode_ne _ _ _ _ hba]
            rwa [List.count_cons_of_ne (Ne.symm hba)] at hle

theorem withPgDir_back (s : HeapFs) :
    (s.withPgDir false).withPgDir (s.fs.tasks s.fs.cur).pgDir = s := by
  have htasks : (fun t => if t = s.fs.cur then
      { (if t = s.fs.cur then { s.fs.tasks t with pgDir := false } else s.fs.tasks t) with
        pgDir := (s.fs.tasks s.fs.cur).pgDir }
      else if t = s.fs.cur then { s.fs.tasks t with pgDir := false } else s.fs.tasks t)
        = s.fs.tasks := by
    funext t
    by_cases ht : t = s.fs.cur
    · rw [if_pos ht, if_pos ht, ht]
    · rw [if_neg ht, if_neg ht]
  exact congrArg (fun f => (⟨{ s.fs with tasks := f }, s.frees⟩ : HeapFs)) htasks

/-! ### Rules -/

theorem wp_onFs_error {e : Halt} {Q : α → HeapFs → Prop} :
    Prog.wp (fun _ => True) (onFs (Prog.lift (.error e))) Q s := trivial

theorem deref_bind {func : String} {q : Option Nat} {f : Nat → HeapM β}
    (h : ∀ a, q = some a → Prog.wp (fun _ => True) (f a) Q s) :
    Prog.wp (fun _ => True) (Heaps.deref func q >>= f) Q s := by
  cases q with
  | none => trivial
  | some a => exact h a rfl

theorem wp_setPgDir {b : Bool} {Q : Unit → HeapFs → Prop} (h : Q () (s.withPgDir b)) :
    Prog.wp (fun _ => True) (Heaps.setPgDir b) Q s := h

/-- What `sys_malloc` answers, and the state after it. -/
theorem malloc_bind {f : Option Nat → HeapM β}
    (hnone : env.newAddr s.context size s.fs.heap = none →
      Prog.wp (fun _ => True) (f none) Q s)
    (hsome : ∀ a, env.newAddr s.context size s.fs.heap = some a → Prog.wp (fun _ => True)
      (f (some a)) Q { s with fs := { s.fs with heap := insert a s.fs.heap } }) :
    Prog.wp (fun _ => True) (Heaps.sysMalloc env size >>= f) Q s := by
  refine Prog.wp_bind (Prog.wp_get_bind ?_)
  cases hnew : env.newAddr s.context size s.fs.heap with
  | none => exact Prog.wp_pure (hnone hnew)
  | some a => exact Prog.wp_bind (Prog.wp_set (Prog.wp_pure (hsome a hnew)))

/-- When `sys_free` comes back, the memory is free. -/
theorem wp_free_returns {Q : Unit → HeapFs → Prop}
    (h : Q () ⟨{ s.fs with heap := s.fs.heap.erase p }, (p, s.context) :: s.frees⟩) :
    Prog.wp (fun _ => True) (Heaps.sysFree env p) Q s := by
  refine Prog.wp_get_bind (Prog.wp_bind (Prog.wp_set ?_))
  refine Prog.wp_ite (fun _ => Prog.wp_bind ?_) fun _ => Prog.wp_modify h
  exact Prog.wp_ite (fun _ => Prog.wp_modify h) fun _ => trivial

namespace Holding

theorem quiet_bind (h : Holding Old bufs held s) {x : FsM α} (hx : KeepsQuiet x) {f : α → HeapM β}
    (hf : ∀ a s', Holding Old bufs held s' → Prog.wp (fun _ => True) (f a) Q s') :
    Prog.wp (fun _ => True) (onFs x >>= f) Q s :=
  wp_onFs_run fun a t hrun => hf a _ (h.quiet (hx s.fs s.fs a t (Quiet.refl _) hrun))

theorem reads_bind (h : Holding Old bufs held s) {x : FsM α} (hx : ReadsOnly x) {f : α → HeapM β}
    (hf : ∀ a s', Holding Old bufs held s' → Prog.wp (fun _ => True) (f a) Q s') :
    Prog.wp (fun _ => True) (onFs x >>= f) Q s :=
  h.quiet_bind (fun s₀ => hx (Quiet s₀)) hf

theorem wp_reads (h : Holding Old bufs held s) {x : FsM α} (hx : ReadsOnly x) :
    Prog.wp (fun _ => True) (onFs x) (fun _ => Holding Old bufs held) s :=
  wp_onFs_returns fun a t hrun => h.quiet (hx (Quiet s.fs) s.fs a t (Quiet.refl _) hrun)

theorem malloc_bind (h : Holding Old bufs held s) {f : Option Nat → HeapM β}
    (hf : ∀ q s', Holding Old (q.toList ++ bufs) held s' → Prog.wp (fun _ => True) (f q) Q s') :
    Prog.wp (fun _ => True) (Heaps.sysMalloc env size >>= f) Q s :=
  ZyOs.malloc_bind (fun _ => hf none s h)
    fun a hnew => hf (some a) _ (h.allocated (env.newAddr_fresh hnew))

variable (hOld : Old.Stable)
include hOld

theorem free (h : Holding Old (p :: bufs) held s) :
    Prog.wp (fun _ => True) (Heaps.sysFree env p) (fun _ => Holding Old bufs held) s :=
  wp_free_returns (h.freed hOld s.context)

theorem free_bind (h : Holding Old (p :: bufs) held s) {f : Unit → HeapM β}
    (hf : ∀ s', Holding Old bufs held s' → Prog.wp (fun _ => True) (f ()) Q s') :
    Prog.wp (fun _ => True) (Heaps.sysFree env p >>= f) Q s :=
  Prog.wp_bind (Prog.wp_mono (h.free hOld) fun _ s' h' => hf s' h')

/-! ### `fs/inode.c` -/

omit hOld in
/-- Putting `pg_dir` aside and back. -/
theorem withPgDir (h : Holding Old bufs held s) (b : Bool) :
    Holding Old bufs held (s.withPgDir b) := h.tasks _

theorem inodeOpen (h : Holding Old bufs held s) (no : Nat) :
    Prog.wp (fun _ => True) (Heaps.inodeOpen env no)
      (fun a s' => Holding Old bufs (a :: held) s') s := by
  refine Prog.wp_get_bind ?_
  cases hfind : findOpen s.fs.inodes no s.fs.openInodes with
  | some a =>
      refine wp_onFs_run fun _ t hrun => ?_
      cases hrun
      exact Prog.wp_pure (h.shared (findOpen_some hfind).1)
  | none =>
      refine h.reads_bind (fun _ => Prog.Preserves.lift _) fun inodePos s₁ h₁ => ?_
      refine Prog.wp_bind (wp_setPgDir ((h₁.withPgDir false).malloc_bind
        fun inodeFound s₂ h₂ => Prog.wp_bind (wp_setPgDir ?_)))
      refine (h₂.withPgDir _).malloc_bind fun p s₃ h₃ => deref_bind fun inodeBuf hp => ?_
      subst hp
      refine h₃.reads_bind (reads_readSectors _ _ _) fun buf s₄ h₄ => deref_bind fun a ha => ?_
      subst ha
      refine wp_onFs_run fun _ t hrun => ?_
      cases hrun
      have h₅ := (h₄.permBufs (.swap a inodeBuf bufs)).written (p := a) List.mem_cons_self
        { Inode.ofMem (buf.drop inodePos.offSize) with iOpenCnts := 1 }
      refine wp_onFs_run fun _ t hrun => ?_
      cases hrun
      have hone : ((s₄.fs.withInode a
          { Inode.ofMem (buf.drop inodePos.offSize) with iOpenCnts := 1 }).inodes a).iOpenCnts
            = 1 := congrArg Inode.iOpenCnts (withInode_self ..)
      exact (h₅.pushed hone).free_bind hOld fun s₆ h₆ => Prog.wp_pure h₆

omit hOld in
/-- `inode_close` puts `pg_dir` back to what it was. -/
theorem inodeClose_returns (a : Nat) :
    Prog.wp (fun _ => True) (Heaps.inodeClose env a) (fun _ s' => s' = s.inodeClosed a) s := by
  refine Prog.wp_get_bind (wp_onFs_run fun _ t hrun => ?_)
  cases hrun
  refine Prog.wp_ite (fun hzero => ?_) fun hpos => Prog.wp_pure ?_
  · refine wp_onFs_run fun _ t hrun => ?_
    cases hrun
    -- the memory goes back to the kernel's heap
    refine Prog.wp_bind (wp_setPgDir (Prog.wp_bind (wp_free_returns (wp_setPgDir ?_))))
    rw [withPgDir_context]
    rw [HeapFs.inodeClosed, if_pos hzero, Fs.closed, if_pos hzero]
    exact withPgDir_back ⟨{ s.fs.withInode a { s.fs.inodes a with
      iOpenCnts := decrOpenCnts (s.fs.inodes a).iOpenCnts } with
      openInodes := s.fs.openInodes.erase a, heap := s.fs.heap.erase a },
      (a, .kernel) :: s.frees⟩
  · rw [HeapFs.inodeClosed, if_neg hpos, Fs.closed, if_neg hpos]
    rfl

theorem inodeClose (h : Holding Old bufs (a :: held) s) :
    Prog.wp (fun _ => True) (Heaps.inodeClose env a) (fun _ => Holding Old bufs held) s :=
  Prog.wp_mono (inodeClose_returns a) fun _ _ heq => heq ▸ h.inodeClosed hOld

theorem inodeRelease (h : Holding Old bufs held s) (no : Nat) :
    Prog.wp (fun _ => True) (Heaps.inodeRelease env no) (fun _ => Holding Old bufs held) s := by
  refine Prog.wp_bind (Prog.wp_mono (h.inodeOpen hOld no) fun a s₁ h₁ => Prog.wp_get_bind ?_)
  refine h₁.reads_bind (reads_assertFs _ _ _) fun _ s₂ h₂ => ?_
  refine h₂.quiet_bind (quiet_releaseBlocks _) fun _ s₃ h₃ => ?_
  refine h₃.quiet_bind (quiet_setInodeBit _ _) fun _ s₄ h₄ => ?_
  refine h₄.quiet_bind (quiet_bitmapSync _ _) fun _ s₅ h₅ => ?_
  refine h₅.malloc_bind fun q s₆ h₆ => deref_bind fun ioBuf hq => ?_
  subst hq
  refine h₆.quiet_bind (quiet_inodeDelete _ _) fun _ s₇ h₇ => ?_
  exact h₇.free_bind hOld fun s₈ h₈ => h₈.inodeClose hOld

end Holding

/-! ### `fs/dir.c` -/

/-- The buffer of a directory pointer. -/
def Heaps.Dir.buf : Heaps.Dir → List Nat
  | .root => []
  | .opened dir _ => [dir]

/-- The inode it keeps open. -/
def Heaps.Dir.opens : Heaps.Dir → List Nat
  | .root => []
  | .opened _ a => [a]

/-- Running code has the directory `d`, and what else it has. -/
abbrev HoldingDir (Old : Others) (d : Heaps.Dir) (bufs held : List Nat) (s : HeapFs) : Prop :=
  Holding Old (d.buf ++ bufs) (d.opens ++ held) s

namespace Holding

variable {d : Heaps.Dir} (hOld : Old.Stable)
include hOld

theorem dirOpen (h : Holding Old bufs held s) (no : Nat) :
    Prog.wp (fun _ => True) (Heaps.dirOpen env no)
      (fun d s' => HoldingDir Old d bufs held s') s := by
  refine h.malloc_bind fun pdir s₁ h₁ => ?_
  refine Prog.wp_bind (Prog.wp_mono (h₁.inodeOpen hOld no) fun a s₂ h₂ => ?_)
  refine Prog.wp_bind ?_
  cases pdir with
  | none => trivial
  | some dir => exact Prog.wp_pure (Prog.wp_pure h₂)

theorem dirClose (h : HoldingDir Old d bufs held s) :
    Prog.wp (fun _ => True) (Heaps.dirClose env d) (fun _ => Holding Old bufs held) s := by
  cases d with
  | root => exact Prog.wp_pure h
  | opened dir a =>
      exact Prog.wp_bind (Prog.wp_mono (h.inodeClose hOld) fun _ s₁ h₁ => h₁.free hOld)

/-- A way out of a call: the directory is closed. -/
theorem close_then (h : HoldingDir Old d bufs held s) {b : β}
    (hQ : ∀ s', Holding Old bufs held s' → Q b s') :
    Prog.wp (fun _ => True) (do Heaps.dirClose env d; return b) Q s :=
  Prog.wp_bind (Prog.wp_mono (h.dirClose hOld) fun _ s' h' => Prog.wp_pure (hQ s' h'))

theorem close_return (h : HoldingDir Old d bufs held s) (b : β) :
    Prog.wp (fun _ => True) (do Heaps.dirClose env d; return b)
      (fun _ => Holding Old bufs held) s :=
  close_then hOld h fun _ h' => h'

theorem searchDirEntry (h : Holding Old bufs held s) (pdir : Nat) (name : List UInt8) :
    Prog.wp (fun _ => True) (Heaps.searchDirEntry env pdir name)
      (fun _ => Holding Old bufs held) s := by
  refine h.malloc_bind fun q s₁ h₁ => ?_
  cases q with
  | none => exact Prog.wp_pure h₁
  | some allBlocks =>
      refine h₁.malloc_bind fun q s₂ h₂ => deref_bind fun buf hq => ?_
      subst hq
      refine h₂.reads_bind (reads_searchDirEntry _ _) fun e s₃ h₃ => ?_
      refine h₃.free_bind hOld fun s₄ h₄ => ?_
      exact h₄.free_bind hOld fun s₅ h₅ => Prog.wp_pure h₅

theorem dirRemove (h : Holding Old bufs held s) (parentDir childDir : Nat) :
    Prog.wp (fun _ => True) (Heaps.dirRemove env parentDir childDir)
      (fun _ => Holding Old bufs held) s := by
  refine Prog.wp_get_bind (h.reads_bind (reads_checkFirstBlockOnly _ _ _) fun _ s₁ h₁ => ?_)
  refine h₁.malloc_bind fun q s₂ h₂ => ?_
  cases q with
  | none => exact Prog.wp_pure h₂
  | some ioBuf =>
      refine h₂.quiet_bind (quiet_deleteDirEntry _ _) fun _ s₃ h₃ => ?_
      refine Prog.wp_bind (Prog.wp_mono (h₃.inodeRelease hOld _) fun _ s₄ h₄ => ?_)
      exact h₄.free_bind hOld fun s₅ h₅ => Prog.wp_pure h₅

/-! ### `search_file` -/

theorem switch_bind (h : HoldingDir Old d bufs held s) {f : Heaps.Dir → HeapM β}
    (hf : ∀ d' s', HoldingDir Old d' bufs held s' → Prog.wp (fun _ => True) (f d') Q s') :
    Prog.wp (fun _ => True) (do Heaps.dirClose env d; let d' ← Heaps.dirOpen env no; f d') Q s :=
  Prog.wp_bind (Prog.wp_mono (h.dirClose hOld) fun _ _ h' =>
    Prog.wp_bind (Prog.wp_mono (h'.dirOpen hOld no) hf))

theorem searchLoop : ∀ (fuel : Nat) (subPath : Option (List UInt8)) (name : List UInt8)
    (r : Heaps.SearchRecord) (parentInodeNo dirE : UInt32) (s : HeapFs),
    HoldingDir Old r.parentDir bufs held s →
    Prog.wp (fun _ => True) (Heaps.searchLoop env fuel subPath name r parentInodeNo dirE)
      (fun res s' => HoldingDir Old res.2.parentDir bufs held s') s := by
  intro fuel
  induction fuel with
  | zero => exact fun _ _ _ _ _ _ h => Prog.wp_pure h
  | succ fuel ih =>
      intro subPath name r parentInodeNo dirE s h
      refine Prog.wp_ite (fun _ => switch_bind hOld h fun d' s' h' => Prog.wp_pure h') fun _ => ?_
      refine h.reads_bind (reads_assertFs _ _ _) fun _ s₁ h₁ => ?_
      refine Prog.wp_ite (fun _ => wp_onFs_error) fun _ => Prog.wp_get_bind ?_
      refine Prog.wp_bind (Prog.wp_mono (h₁.searchDirEntry hOld _ _) fun e s₂ h₂ => ?_)
      cases e with
      | none => exact Prog.wp_pure h₂
      | some e =>
          have hnext : ∀ (name : List UInt8) (subPath : Option (List UInt8))
              (r : Heaps.SearchRecord) (s : HeapFs), HoldingDir Old r.parentDir bufs held s →
              Prog.wp (fun _ => True) (do
                if e.fType = ftDirectory then
                  let s ← get
                  let parentInodeNo := (s.fs.inodes (r.parentDir.inode s)).iNo
                  Heaps.dirClose env r.parentDir
                  let parentDir ← Heaps.dirOpen env e.iNo.toNat
                  Heaps.searchLoop env fuel subPath name { r with parentDir := parentDir }
                    parentInodeNo e.iNo
                else if e.fType = ftRegular then
                  return (int32 e.iNo.toNat, { r with fileType := ftRegular })
                else
                  Heaps.searchLoop env fuel subPath name r parentInodeNo e.iNo)
                (fun res s' => HoldingDir Old res.2.parentDir bufs held s') s := by
            intro name subPath r s h
            refine Prog.wp_ite (fun _ => Prog.wp_get_bind ?_) fun _ => Prog.wp_ite (fun _ => ?_)
              fun _ => ?_
            · exact switch_bind hOld h fun d' s' h' => ih _ _ _ _ _ _ h'
            · exact Prog.wp_pure h
            · exact ih _ _ _ _ _ _ h
          cases subPath with
          | none => exact Prog.wp_bind (Prog.wp_pure (hnext _ _ _ _ h₂))
          | some p =>
              exact h₂.reads_bind (fun _ => Prog.Preserves.lift _) fun _ s₃ h₃ => hnext _ _ _ _ h₃

/-- `search_file` leaves the directory of the record open. -/
theorem searchFile (h : Holding Old bufs held s) (pathname : List UInt8) :
    Prog.wp (fun _ => True) (Heaps.searchFile env pathname)
      (fun res s' => HoldingDir Old res.2.parentDir bufs held s') s := by
  refine Prog.wp_ite (fun _ => Prog.wp_pure h) fun _ => ?_
  refine h.reads_bind (reads_assertFs _ _ _) fun _ s₁ h₁ => ?_
  exact h₁.reads_bind (fun _ => Prog.Preserves.lift _) fun _ s₂ h₂ =>
    searchLoop hOld _ _ _ _ _ _ _ h₂

/-- A call that begins with `search_file`. -/
theorem search_bind (h : Holding Old bufs held s) {pathname : List UInt8}
    {f : Int × Heaps.SearchRecord → HeapM β}
    (hf : ∀ inodeNo r s', HoldingDir Old r.parentDir bufs held s' →
      Prog.wp (fun _ => True) (f (inodeNo, r)) Q s') :
    Prog.wp (fun _ => True) (Heaps.searchFile env pathname >>= f) Q s :=
  Prog.wp_bind (Prog.wp_mono (h.searchFile hOld pathname) fun r s' h' => hf r.1 r.2 s' h')

end Holding

end ZyOs
