/-
Who has which inode open.

An inode in memory is shared: entries of the file table point to it, the root
directory does, and so does code that is walking along a path.  `i_open_cnts` counts
the users, and the inode is freed when it gets to zero.  `Counted` is the invariant
of that scheme.  The count may be too large, because `sys_open` forgets to close the
parent directory of an existing file, but it is never too small.
-/
import ZyOs.Proofs.Inode
import ZyOs.Proofs.Quiet

namespace ZyOs

open Library

/-! ### Users of an inode -/

/-- The entries of the file table that refer to the inode at `a`. -/
def Fs.entriesOf (s : Fs) (a : Nat) : Finset Nat :=
  (Finset.range maxFileOpen).filter fun g => (s.fileTable g).fdInode = some a

/-- How often the kernel's tables refer to the inode at `a`. -/
def Fs.uses (s : Fs) (a : Nat) : Nat :=
  (s.entriesOf a).card + if s.rootInode = a then 1 else 0

/-- No user is missing from the count; `held` are the inodes that running code has open. -/
structure Counted (s : Fs) (held : List Nat) : Prop where
  nodup : s.openInodes.Nodup
  heap : ∀ a ∈ s.openInodes, a ∈ s.heap
  counted : ∀ a, 0 < s.uses a + held.count a →
    a ∈ s.openInodes ∧ s.uses a + held.count a ≤ (s.inodes a).iOpenCnts

/-- The state with the inode at `a` replaced. -/
def Fs.withInode (s : Fs) (a : Nat) (n : Inode) : Fs :=
  { s with inodes := fun b => if b = a then n else s.inodes b }

/-- The state with entry `g` replaced. -/
def Fs.withFile (s : Fs) (g : Nat) (f : File) : Fs :=
  { s with fileTable := fun i => if i = g then f else s.fileTable i }

section Lookup

variable (s : Fs) (a b g i : Nat) (n : Inode) (f : File)

@[simp] theorem withInode_self : (s.withInode a n).inodes a = n := if_pos rfl

@[simp] theorem uses_withInode : (s.withInode a n).uses b = s.uses b := rfl

theorem withInode_ne (h : b ≠ a) : (s.withInode a n).inodes b = s.inodes b := if_neg h

@[simp] theorem withFile_self : (s.withFile g f).fileTable g = f := if_pos rfl

theorem withFile_ne (h : i ≠ g) : (s.withFile g f).fileTable i = s.fileTable i := if_neg h

end Lookup

section Entries

variable {s s' : Fs} {a b g : Nat} {f : File}

theorem mem_entriesOf :
    g ∈ s.entriesOf a ↔ g < maxFileOpen ∧ (s.fileTable g).fdInode = some a := by
  simp only [Fs.entriesOf, Finset.mem_filter, Finset.mem_range]

theorem entriesOf_congr (h : ∀ g, (s'.fileTable g).fdInode = (s.fileTable g).fdInode) :
    s'.entriesOf a = s.entriesOf a := by
  ext g
  rw [mem_entriesOf, mem_entriesOf, h]

theorem uses_congr (h : ∀ g, (s'.fileTable g).fdInode = (s.fileTable g).fdInode)
    (hroot : s'.rootInode = s.rootInode) : s'.uses a = s.uses a := by
  rw [Fs.uses, Fs.uses, entriesOf_congr h, hroot]

theorem uses_withFile : (s.withFile g f).uses b
    = ((s.withFile g f).entriesOf b).card + if s.rootInode = b then 1 else 0 := rfl

/-- An empty slot that is filled in adds one user. -/
theorem uses_withFile_some (hg : g < maxFileOpen) (hfree : (s.fileTable g).fdInode = none)
    (hf : f.fdInode = some a) :
    (s.withFile g f).uses b = s.uses b + if b = a then 1 else 0 := by
  have hset : (s.withFile g f).entriesOf b = if b = a then insert g (s.entriesOf b)
      else s.entriesOf b := by
    ext i
    by_cases hi : i = g
    · subst hi
      by_cases hb : b = a
      · simp [mem_entriesOf, hb, hf, hg]
      · simp [mem_entriesOf, hb, hf, hfree, Ne.symm hb]
    · by_cases hb : b = a
      · simp [mem_entriesOf, hb, withFile_ne _ _ _ _ hi, hi]
      · simp [mem_entriesOf, hb, withFile_ne _ _ _ _ hi]
  have hnot : g ∉ s.entriesOf b := by simp [mem_entriesOf, hfree]
  rw [uses_withFile, hset, Fs.uses]
  by_cases hb : b = a
  · rw [if_pos hb, if_pos hb, Finset.card_insert_of_notMem hnot]
    omega
  · rw [if_neg hb, if_neg hb]
    rfl

/-- A slot that is emptied takes one away. -/
theorem uses_withFile_none (hg : g < maxFileOpen) (hold : (s.fileTable g).fdInode = some a)
    (hf : f.fdInode = none) :
    (s.withFile g f).uses b + (if b = a then 1 else 0) = s.uses b := by
  have hset : (s.withFile g f).entriesOf b = (s.entriesOf b).erase g := by
    ext i
    by_cases hi : i = g
    · simp [mem_entriesOf, hi, hf]
    · simp [mem_entriesOf, hi, withFile_ne _ _ _ _ hi]
  rw [uses_withFile, hset, Fs.uses]
  by_cases hb : b = a
  · have hmem : g ∈ s.entriesOf b := mem_entriesOf.mpr ⟨hg, hb ▸ hold⟩
    have hcard := Finset.card_erase_add_one hmem
    rw [if_pos hb]
    omega
  · have hmem : g ∉ s.entriesOf b := by
      rw [mem_entriesOf, hold]
      exact fun h => hb (Option.some.inj h.2).symm
    rw [if_neg hb, Finset.erase_eq_of_notMem hmem]
    rfl

/-- An inode that was held goes into an empty slot: no user more, no user less. -/
theorem uses_fill (hg : g < maxFileOpen) (hfree : (s.fileTable g).fdInode = none)
    (hf : f.fdInode = some a) (held : List Nat) :
    (s.withFile g f).uses b + held.count b = s.uses b + (a :: held).count b := by
  rw [uses_withFile_some hg hfree hf, List.count_cons]
  by_cases hba : b = a
  · simp [hba, Nat.add_assoc, Nat.add_comm]
  · simp [hba, Ne.symm hba]

/-- The inode of a slot that is emptied is held again. -/
theorem uses_empty (hg : g < maxFileOpen) (hold : (s.fileTable g).fdInode = some a)
    (hf : f.fdInode = none) (held : List Nat) :
    (s.withFile g f).uses b + (a :: held).count b = s.uses b + held.count b := by
  rw [← uses_withFile_none (b := b) hg hold hf, List.count_cons]
  by_cases hba : b = a
  · simp [hba, Nat.add_assoc, Nat.add_comm]
  · simp [hba, Ne.symm hba]

end Entries

/-! ### Opening an inode -/

/-- The inode stored in slot `no` of the table on disk. -/
def diskInode (s : Fs) (no : Nat) : Inode := Inode.ofMem (s.disk.drop (slotAddr s.part no))

/-- The state after a miss: the inode was read to `a`. -/
def Fs.loaded (s : Fs) (a : Nat) (n : Inode) : Fs :=
  { s.withInode a { n with iOpenCnts := 1 } with
    openInodes := a :: s.openInodes, heap := insert a s.heap }

variable {env : FsEnv} {s s' : Fs} {a no : Nat} {held : List Nat}

theorem findOpen_some {inodes : Nat → Inode} : ∀ {l : List Nat}, findOpen inodes no l = some a →
    a ∈ l ∧ (inodes a).iNo.toNat = no := by
  intro l
  induction l with
  | nil => exact fun h => absurd h (by simp [findOpen])
  | cons b l ih =>
      intro h
      simp only [findOpen] at h
      split at h
      · rename_i hb
        obtain rfl := Option.some.inj h
        exact ⟨List.mem_cons_self, hb⟩
      · exact ⟨List.mem_cons_of_mem _ (ih h).1, (ih h).2⟩

/-- `inode_open` finds the inode among the open ones, or reads its slot to a new place. -/
theorem inodeOpen_cases (h : inodeOpen env no s = .ok (a, s')) :
    (a ∈ s.openInodes ∧ (s.inodes a).iNo.toNat = no ∧
      s' = s.withInode a { s.inodes a with iOpenCnts := (s.inodes a).iOpenCnts + 1 }) ∨
    (no < 4096 ∧ a ∉ s.heap ∧ s' = s.loaded a (diskInode s no)) := by
  simp only [inodeOpen] at h
  rw [Prog.bind_of_run (Prog.get_run s)] at h
  cases hfind : findOpen s.inodes no s.openInodes with
  | some b =>
      simp only [hfind] at h
      obtain ⟨_, s₁, h1, h2⟩ := Prog.bind_run.mp h
      rw [putInode_run, Except.ok.injEq, Prod.mk.injEq] at h1
      rw [Prog.pure_run, Except.ok.injEq, Prod.mk.injEq] at h2
      obtain ⟨rfl, rfl⟩ := h2
      obtain ⟨hmem, hno⟩ := findOpen_some hfind
      exact Or.inl ⟨hmem, hno, h1.2.symm⟩
  | none =>
      simp only [hfind] at h
      obtain ⟨pos, s₁, h1, h⟩ := Prog.bind_run.mp h
      obtain ⟨hloc, rfl⟩ := Prog.lift_run.mp h1
      have hno : no < 4096 := by
        simp only [inodeLocate, bind_eq_ok] at hloc
        obtain ⟨_, hassert, _⟩ := hloc
        exact ASSERT_eq_ok.mp hassert
      rw [inodeLocate_run _ hno] at hloc
      obtain rfl := Except.ok.inj hloc
      obtain ⟨buf, s₂, h1, h⟩ := Prog.bind_run.mp h
      obtain ⟨rfl, rfl⟩ := readSectors_ok h1
      rw [Prog.bind_of_run (putInode_run _ _ _), Prog.bind_of_run (Prog.modify_run _ _),
        Prog.pure_run, Except.ok.injEq, Prod.mk.injEq] at h
      obtain ⟨rfl, rfl⟩ := h
      refine Or.inr ⟨hno, env.newAddr_fresh _, ?_⟩
      -- the buffer holds the whole slot, in one sector or in two
      have hslot : Inode.ofMem ((Mem.splice (fun _ => 0) 0
          (s₂.disk.drop (512 * (s₂.part.sb.inodeTableLba + no * 76 / 512)))
          ((if 512 - no * 76 % 512 < 76 then 2 else 1) * 512)).drop (no * 76 % 512))
          = diskInode s₂ no := by
        refine Inode.ofMem_congr fun k hk => ?_
        have hk : k < 76 := hk
        have hsize : Inode.size = 76 := rfl
        have hin : no * 76 % 512 + k < (if 512 - no * 76 % 512 < 76 then 2 else 1) * 512 := by
          split <;> omega
        have haddr : 512 * (s₂.part.sb.inodeTableLba + no * 76 / 512) + (no * 76 % 512 + k)
            = slotAddr s₂.part no + k := by
          simp only [slotAddr, hsize]
          omega
        simp only [Mem.drop, Mem.splice]
        rw [if_pos (by omega), Nat.sub_zero, haddr]
      simp only [decide_eq_true_eq] at hslot ⊢
      rw [hslot]
      rfl

/-- An inode nobody allocated has no user. -/
theorem Counted.unused (h : Counted s held) (ha : a ∉ s.heap) : s.uses a + held.count a = 0 := by
  by_contra hpos
  exact ha (h.heap a (h.counted a (by omega)).1)

/-- A new inode has one user. -/
theorem Counted.loaded (h : Counted s held) (hfresh : a ∉ s.heap) (n : Inode) :
    Counted (s.loaded a n) (a :: held) := by
  have hnot : a ∉ s.openInodes := fun hmem => hfresh (h.heap a hmem)
  have hzero := h.unused hfresh
  refine ⟨List.nodup_cons.mpr ⟨hnot, h.nodup⟩, fun b hb => ?_, fun b hb => ?_⟩
  · rcases List.mem_cons.mp hb with rfl | hb
    · exact Finset.mem_insert_self _ _
    · exact Finset.mem_insert_of_mem (h.heap b hb)
  · rw [List.count_cons] at hb ⊢
    have huses : (s.loaded a n).uses b = s.uses b := rfl
    by_cases hba : b = a
    · subst hba
      refine ⟨List.mem_cons_self, ?_⟩
      show _ ≤ ((s.withInode b _).inodes b).iOpenCnts
      simp only [withInode_self, beq_self_eq_true, if_true]
      omega
    · rw [if_neg (by simpa using Ne.symm hba), Nat.add_zero] at hb ⊢
      refine ⟨List.mem_cons_of_mem _ (h.counted b hb).1, ?_⟩
      show _ ≤ ((s.withInode a _).inodes b).iOpenCnts
      rw [withInode_ne _ _ _ _ hba]
      exact (h.counted b hb).2

/-- An inode that is open gets one more user. -/
theorem Counted.shared (h : Counted s held) (hmem : a ∈ s.openInodes) :
    Counted (s.withInode a { s.inodes a with iOpenCnts := (s.inodes a).iOpenCnts + 1 })
      (a :: held) := by
  refine ⟨h.nodup, h.heap, fun b hb => ?_⟩
  rw [List.count_cons] at hb ⊢
  by_cases hba : b = a
  · subst hba
    have hold := h.counted b
    simp only [withInode_self, uses_withInode, beq_self_eq_true, if_true]
    exact ⟨hmem, by omega⟩
  · rw [if_neg (by simpa using Ne.symm hba), Nat.add_zero] at hb ⊢
    rw [withInode_ne _ _ _ _ hba]
    exact h.counted b hb

theorem Counted.opened (h : Counted s held) (hrun : inodeOpen env no s = .ok (a, s')) :
    Counted s' (a :: held) := by
  rcases inodeOpen_cases hrun with ⟨hmem, -, rfl⟩ | ⟨-, hfresh, rfl⟩
  · exact h.shared hmem
  · exact h.loaded hfresh _

/-! ### Closing an inode -/

/-- The state after `inode_close`. -/
def Fs.closed (s : Fs) (a : Nat) : Fs :=
  let s' := s.withInode a { s.inodes a with iOpenCnts := decrOpenCnts (s.inodes a).iOpenCnts }
  if decrOpenCnts (s.inodes a).iOpenCnts = 0 then
    { s' with openInodes := s.openInodes.erase a, heap := s.heap.erase a }
  else s'

theorem inodeClose_run (a : Nat) (s : Fs) : inodeClose a s = .ok ((), s.closed a) := by
  simp only [inodeClose, Fs.closed]
  rw [Prog.bind_of_run (Prog.get_run s), Prog.bind_of_run (putInode_run _ _ _)]
  by_cases hz : decrOpenCnts (s.inodes a).iOpenCnts = 0
  · rw [if_pos hz, if_pos hz]
    rfl
  · rw [if_neg hz, if_neg hz]
    rfl

/-- What `inode_close` has nothing to do with. -/
theorem closed_rest (s : Fs) (a : Nat) : (s.closed a).fileTable = s.fileTable ∧
    (s.closed a).rootInode = s.rootInode ∧ (s.closed a).tasks = s.tasks ∧
    (s.closed a).cur = s.cur ∧ (s.closed a).disk = s.disk ∧ (s.closed a).part = s.part := by
  unfold Fs.closed
  split
  · exact ⟨rfl, rfl, rfl, rfl, rfl, rfl⟩
  · exact ⟨rfl, rfl, rfl, rfl, rfl, rfl⟩

theorem closed_inodes (s : Fs) (a : Nat) : (s.closed a).inodes
    = (s.withInode a { s.inodes a with
        iOpenCnts := decrOpenCnts (s.inodes a).iOpenCnts }).inodes := by
  unfold Fs.closed
  split <;> rfl

theorem closed_openInodes_subset (s : Fs) (a : Nat) : (s.closed a).openInodes ⊆ s.openInodes := by
  unfold Fs.closed
  split
  · exact List.erase_subset
  · exact fun _ h => h

/-- Giving up an inode that was held keeps the count. -/
theorem Counted.closed (h : Counted s held) (ha : a ∈ held) :
    Counted (s.closed a) (held.erase a) := by
  have hcount : 0 < held.count a := List.count_pos_iff.mpr ha
  obtain ⟨hmem, hle⟩ := h.counted a (by omega)
  have hdecr : decrOpenCnts (s.inodes a).iOpenCnts = (s.inodes a).iOpenCnts - 1 :=
    if_neg (by omega)
  obtain ⟨htable, hroot, -⟩ := closed_rest s a
  have huses : ∀ b, (s.closed a).uses b = s.uses b :=
    fun b => uses_congr (fun g => by rw [htable]) hroot
  have hcnt : ∀ b, 0 < s.uses b + (held.erase a).count b → b ∈ s.openInodes ∧
      s.uses b + (held.erase a).count b ≤ ((s.closed a).inodes b).iOpenCnts := by
    intro b hb
    rw [closed_inodes]
    by_cases hba : b = a
    · subst hba
      rw [List.count_erase_self] at hb ⊢
      simp only [withInode_self, hdecr]
      exact ⟨hmem, by omega⟩
    · rw [List.count_erase_of_ne hba] at hb ⊢
      rw [withInode_ne _ _ _ _ hba]
      exact h.counted b hb
  by_cases hz : decrOpenCnts (s.inodes a).iOpenCnts = 0
  · -- the last user is gone
    have hclosed : (s.closed a).openInodes = s.openInodes.erase a ∧
        (s.closed a).heap = s.heap.erase a := by
      simp only [Fs.closed, if_pos hz, and_self]
    refine ⟨?_, fun b hb => ?_, fun b hb => ?_⟩
    · rw [hclosed.1]
      exact h.nodup.erase a
    · rw [hclosed.1, h.nodup.mem_erase_iff] at hb
      rw [hclosed.2]
      exact Finset.mem_erase.mpr ⟨hb.1, h.heap b hb.2⟩
    · rw [huses] at hb ⊢
      obtain ⟨hbm, hble⟩ := hcnt b hb
      refine ⟨?_, hble⟩
      rw [hclosed.1, h.nodup.mem_erase_iff]
      refine ⟨fun hba => ?_, hbm⟩
      rw [hba, closed_inodes, withInode_self] at hble
      simp only [hz] at hble
      rw [hba] at hb
      omega
  · have hclosed : (s.closed a).openInodes = s.openInodes ∧ (s.closed a).heap = s.heap := by
      simp only [Fs.closed, if_neg hz]
      exact ⟨rfl, rfl⟩
    refine ⟨hclosed.1 ▸ h.nodup, fun b hb => ?_, fun b hb => ?_⟩
    · rw [hclosed.2]
      exact h.heap b (hclosed.1 ▸ hb)
    · rw [huses] at hb ⊢
      rw [hclosed.1]
      exact hcnt b hb

end ZyOs
