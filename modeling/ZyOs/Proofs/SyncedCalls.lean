/-
Which calls leave the bitmaps on disk as they are in memory.

A call that removes something keeps the pointers of all inodes in order on its way, since
it may only turn them into zeros (`Tidy`).  A call that creates or writes something goes by
the pointers of one inode.  All of them sync every bit they change but `file_write`, which
takes the block of the indirect table without a sync: the sync of the next block may do.
-/
import ZyOs.Proofs.Synced
import ZyOs.Proofs.Writers

namespace ZyOs

open Library

/-- The bitmaps are synced, and no pointer in memory or in the inode table leads astray. -/
structure Tidy (part : Partition) (s : Fs) : Prop where
  follows : Follows part s ∅
  opened : ∀ a ∈ s.openInodes, SafeInode part s.disk (s.inodes a)
  slots : ∀ no < 4096, SafeInode part s.disk (diskInode s no)

variable {env : FsEnv} {part : Partition} {s s' : Fs} {a no : Nat} {held : List Nat}
  {lag : Set (BitmapType × Nat)}

namespace Tidy

theorem slot_congr (hpart : s'.part.sb = s.part.sb) (hdisk : ∀ x,
    512 * s.part.sb.inodeTableLba ≤ x → x < 512 * (s.part.sb.inodeTableLba + 608) →
    s'.disk x = s.disk x) (hno : no < 4096) : diskInode s' no = diskInode s no := by
  have haddr : slotAddr s'.part no = slotAddr s.part no := by
    simp only [slotAddr, hpart]
  refine Inode.ofMem_congr fun k hk => ?_
  rw [Mem.drop_apply, Mem.drop_apply, haddr]
  simp only [slotAddr, Inode.size] at hk ⊢
  exact hdisk _ (by omega) (by omega)

/-- The disk changes outside the inode table, and pointers on it only turn into zeros. -/
theorem disk (h : Tidy part s) (hf : Follows part s' ∅) (hopen : s'.openInodes = s.openInodes)
    (hinodes : s'.inodes = s.inodes) (hwiped : Wiped part s.disk s'.disk)
    (htable : ∀ x, 512 * part.sb.inodeTableLba ≤ x → x < 512 * (part.sb.inodeTableLba + 608) →
      s'.disk x = s.disk x) : Tidy part s' := by
  refine ⟨hf, fun a ha => ?_, fun no hno => ?_⟩
  · rw [hopen] at ha
    rw [hinodes]
    exact (h.opened a ha).wiped hwiped
  · rw [← h.follows.sb] at htable
    rw [slot_congr (hf.sb.trans h.follows.sb.symm) htable hno]
    exact (h.slots no hno).wiped hwiped

theorem changeBlock (h : Tidy part s) (ho : part.Ordered) {n : Nat}
    (hn : n < 8 * part.blockBitmap.bmapBytesLen) (v : Bool) : Tidy part (s.changeBlock n v) := by
  have hf := h.follows.changeBlock ho hn v
  rw [Set.empty_sdiff] at hf
  have htable := ho.table
  have hdisk : ∀ x, 512 * part.sb.inodeTableLba ≤ x → (s.changeBlock n v).disk x = s.disk x :=
    fun x hx => h.follows.changeBlock_disk ho hn v hx
  exact h.disk hf rfl rfl (wiped_of_eq fun x hx => hdisk x (by omega)) fun x hx _ => hdisk x hx

/-- An open inode is written in memory. -/
theorem withInode (h : Tidy part s) {n : Inode} (hn : SafeInode part s.disk n) :
    Tidy part (s.withInode a n) := by
  refine ⟨h.follows.congr rfl rfl, fun b hb => ?_, h.slots⟩
  by_cases hba : b = a
  · rw [hba, withInode_self]
    exact hn
  · rw [withInode_ne _ _ _ _ hba]
    exact h.opened b hb

/-- A slot of the inode table is written. -/
theorem slot (h : Tidy part s) (ho : part.Ordered) {src : Mem} (hno : no < 4096)
    (hsrc : SafeInode part s.disk (Inode.ofMem src)) :
    Tidy part { s with disk := s.disk.splice (slotAddr s.part no) src Inode.size } := by
  have h1 := ho.inodes
  have h2 := ho.table
  have haddr : ∀ m, slotAddr s.part m = 512 * part.sb.inodeTableLba + 76 * m := by
    intro m
    simp only [slotAddr, h.follows.sb, Inode.size]
  have hsize : Inode.size = 76 := rfl
  have hwiped : Wiped part s.disk (s.disk.splice (slotAddr s.part no) src Inode.size) :=
    wiped_of_eq fun x hx => Mem.splice_out (.inr (by rw [haddr]; omega))
  have hclear : Clear part (slotAddr s.part no) Inode.size := .inr (by rw [haddr]; omega)
  refine ⟨h.follows.write ho hclear src, fun a ha => (h.opened a ha).wiped hwiped, fun m hm => ?_⟩
  by_cases hmn : m = no
  · subst hmn
    refine (hsrc.wiped hwiped).of_sectors fun k hk => ?_
    have hslot : diskInode { s with disk := s.disk.splice (slotAddr s.part m) src Inode.size } m
        = Inode.ofMem src := by
      refine Inode.ofMem_congr fun k hk => ?_
      exact Mem.splice_at hk
    rw [hslot]
  · have hslot : diskInode { s with disk := s.disk.splice (slotAddr s.part no) src Inode.size } m
        = diskInode s m := by
      refine Inode.ofMem_congr fun k hk => ?_
      refine Mem.splice_out ?_
      simp only [haddr]
      omega
    rw [hslot]
    exact (h.slots m hm).wiped hwiped

theorem inodeOpened (h : Tidy part s) (hrun : inodeOpen env no s = .ok (a, s')) :
    Tidy part s' := by
  rcases inodeOpen_cases hrun with ⟨hmem, -, rfl⟩ | ⟨hno, -, rfl⟩
  · exact h.withInode ((h.opened a hmem).of_sectors fun _ _ => rfl)
  · refine ⟨h.follows.congr rfl rfl, fun b hb => ?_, h.slots⟩
    rcases List.mem_cons.mp hb with rfl | hb
    · show SafeInode part s.disk ((s.withInode b _).inodes b)
      rw [withInode_self]
      exact (h.slots no hno).of_sectors fun _ _ => rfl
    · show SafeInode part s.disk ((s.withInode a _).inodes b)
      by_cases hba : b = a
      · rw [hba, withInode_self]
        exact (h.slots no hno).of_sectors fun _ _ => rfl
      · rw [withInode_ne _ _ _ _ hba]
        exact h.opened b hb

theorem closed (h : Tidy part s) (a : Nat) : Tidy part (s.closed a) := by
  obtain ⟨-, -, -, -, hdisk, hpart⟩ := closed_rest s a
  refine ⟨h.follows.congr hdisk hpart, fun b hb => ?_, fun no hno => ?_⟩
  · rw [hdisk, closed_inodes]
    refine (h.opened b (closed_openInodes_subset s a hb)).of_sectors fun k _ => ?_
    by_cases hba : b = a
    · rw [hba, withInode_self]
      rfl
    · rw [withInode_ne _ _ _ _ hba]
  · rw [hdisk, diskInode_congr hdisk hpart]
    exact h.slots no hno

end Tidy

/-! ### Removing -/

/-- Any stop is allowed. -/
theorem panic_allowed : ∀ e : Halt, e.IsPanic → (fun _ : Halt => True) e := fun _ _ => trivial

section Remove

variable (ho : part.Ordered)
include ho

theorem Follows.fits (h : Follows part s lag) : s.part.DataFits := (h.ordered ho).dataFits

omit ho in
theorem Follows.inData (h : Follows part s lag) {lba : Nat} (hlba : InData part lba) :
    InData s.part lba := by
  have hlen := h.len .blockBitmap
  simp only [Partition.bitmapOf] at hlen
  refine ⟨h.sb ▸ hlba.data, ?_⟩
  rw [h.sb, hlen]
  exact hlba.bit

theorem Tidy.freeBlock (h : Tidy part s) {lba : UInt32} (hlba : InData part lba.toNat) :
    Prog.wp (fun _ => True) (freeBlock lba) (fun _ s' => Tidy part s' ∧ s'.inodes = s.inodes ∧
      s'.openInodes = s.openInodes) s := by
  refine wp_freeBlock panic_allowed (h.follows.fits ho) (h.follows.inData hlba) ⟨?_, rfl, rfl⟩
  refine h.changeBlock ho ?_ false
  rw [h.follows.sb]
  exact hlba.bit

/-- The inode at `a` gets a new size and is written back. -/
theorem Tidy.resize (h : Tidy part s) (ha : a ∈ s.openInodes) (size : UInt32) :
    Prog.wp (fun _ => True) (do
      putInode a { s.inodes a with iSize := size }
      inodeSync ((← get).inodes a) (fun _ => 0)) (fun _ s' => Tidy part s') s := by
  have h₁ := h.withInode (a := a) (n := { s.inodes a with iSize := size })
    ((h.opened a ha).of_sectors fun _ _ => rfl)
  refine Prog.wp_bind (Prog.wp_of_run (putInode_run ..) (Prog.wp_get_bind ?_))
  refine wp_inodeSync panic_allowed (h₁.slot ho (by omega) ?_)
  refine (h₁.opened a ha).of_sectors fun k hk => ?_
  exact (Inode.same_pureMem _).sectors k hk

theorem Tidy.removeEntry (h : Tidy part s) (ha : a ∈ s.openInodes) {blocks : Nat → UInt32}
    {k : Nat} (hblock : SafePtr part (blocks k)) (hk : blocks k ≠ 0) (buf : Mem) (t : Tally)
    (i : Nat) : Prog.wp (fun _ => True) (removeEntry a blocks k
      (buf.splice 0 (s.disk.drop (512 * (blocks k).toNat)) 512) t i)
      (fun _ s' => Tidy part s') s := by
  have hin := hblock.resolve_left hk
  refine Prog.wp_get_bind (Prog.wp_bind (wp_assertFs panic_allowed fun _ => ?_))
  -- the rest is the same whether or not the block goes
  have hrest : ∀ s', Tidy part s' → a ∈ s'.openInodes → Prog.wp (fun _ => True) (do
      let inode := (← get).inodes a
      assertFs (s.part.sb.dirEntrySize ≤ inode.iSize.toNat) "delete_dir_entry"
        "dir_inode->i_size >= dir_entry_size"
      putInode a { inode with iSize := inode.iSize - UInt32.ofNat s.part.sb.dirEntrySize }
      inodeSync ((← get).inodes a) (fun _ => 0)) (fun _ s' => Tidy part s') s' := by
    intro s' h' ha'
    exact Prog.wp_get_bind (Prog.wp_bind (wp_assertFs panic_allowed fun _ =>
      h'.resize ho ha' _))
  refine Prog.wp_ite (fun _ => ?_) fun _ => ?_
  · refine Prog.wp_bind (Prog.wp_mono (h.freeBlock ho hin) fun _ s₁ h₁ => ?_)
    obtain ⟨h₁, hinodes, hopen⟩ := h₁
    rw [← hopen] at ha
    refine Prog.wp_ite (fun hlt => ?_) fun _ => ?_
    · refine Prog.wp_get_bind (Prog.wp_bind (Prog.wp_of_run (putInode_run ..) ?_))
      exact hrest _ (h₁.withInode ((h₁.opened a ha).setSector hlt (.inl rfl))) ha
    · exact Prog.wp_bind (Prog.wp_lift (fun _ he => absurd he (by simp)) fun _ _ => trivial)
  · refine Prog.wp_bind (wp_writeSectors panic_allowed (hrest _ ?_ ha))
    have h1 := hin.data
    have h2 := ho.table
    rw [h.follows.sb, ho.entrySize]
    refine h.disk (h.follows.write ho (hin.clear ho) _) rfl rfl (wiped_entry _ _ _ _)
      fun x hx hx' => ?_
    exact Mem.splice_out (.inl (by omega))

theorem Tidy.deleteLoop (h : Tidy part s) (ha : a ∈ s.openInodes) {blocks : Nat → UInt32}
    (hblocks : ∀ k, SafePtr part (blocks k)) (no : Nat) : ∀ (n k : Nat),
    Prog.wp (fun _ => True) (deleteLoop a no blocks n k) (fun _ s' => Tidy part s') s := by
  intro n
  induction n with
  | zero => exact fun k => Prog.wp_pure h
  | succ n ih =>
      intro k
      refine Prog.wp_ite (fun _ => ih (k + 1)) fun hk => ?_
      refine Prog.wp_get_bind (Prog.wp_bind (wp_readSectors panic_allowed (Prog.wp_bind ?_)))
      refine Prog.wp_lift (fun t _ => ?_) fun _ _ => trivial
      cases hfound : t.dirEntryFound with
      | none => exact ih (k + 1)
      | some i =>
          refine Prog.wp_bind (Prog.wp_mono (h.removeEntry ho ha (hblocks k) hk _ t i)
            fun _ s' h' => Prog.wp_pure h')

theorem Tidy.deleteDirEntry (h : Tidy part s) (ha : a ∈ s.openInodes) (no : Nat) :
    Prog.wp (fun _ => True) (deleteDirEntry a no) (fun _ s' => Tidy part s') s := by
  refine Prog.wp_get_bind (Prog.wp_ite (fun h12 => ?_) fun h12 => ?_)
  · refine Prog.wp_bind (wp_readSectors panic_allowed (h.deleteLoop ho ha (fun k => ?_) no 140 0))
    rw [Nat.one_mul, withTable_eq _ h12]
    exact (h.opened a ha).dirBlocks k
  · refine h.deleteLoop ho ha (fun k => ?_) no 140 0
    rw [directBlocks_eq_dirBlocks s.disk (not_not.mp h12)]
    exact (h.opened a ha).dirBlocks k

theorem Tidy.releaseBlock (h : Tidy part s) {lba : UInt32} (hlba : InData part lba.toNat) :
    Prog.wp (fun _ => True) (releaseBlock lba) (fun _ s' => Tidy part s') s := by
  refine Prog.wp_get_bind (Prog.wp_bind (wp_assertFs panic_allowed fun _ => ?_))
  exact Prog.wp_mono (h.freeBlock ho hlba) fun _ _ h' => h'.1

section Releases

variable {P : Fs → Prop} (hstep : ∀ {lba : UInt32} {s : Fs}, InData part lba.toNat → P s →
  Prog.wp (fun _ => True) (releaseBlock lba) (fun _ => P) s)
include hstep

omit ho in
/-- What giving one block back keeps, giving back all of them keeps. -/
theorem wp_releaseLoop_keeps {blocks : Nat → UInt32} : ∀ (m k : Nat) (s : Fs),
    (∀ j, k ≤ j → j < k + m → SafePtr part (blocks j)) → P s →
    Prog.wp (fun _ => True) (releaseLoop blocks m k) (fun _ => P) s := by
  intro m
  induction m with
  | zero => exact fun k s _ h => Prog.wp_pure h
  | succ m ih =>
      intro k s hall h
      have hrest : ∀ s', P s' → Prog.wp (fun _ => True) (releaseLoop blocks m (k + 1))
          (fun _ => P) s' := fun s' h' =>
        ih (k + 1) s' (fun j h1 h2 => hall j (by omega) (by omega)) h'
      refine Prog.wp_ite (fun hk => ?_) fun _ => hrest s h
      have hin := (hall k (by omega) (by omega)).resolve_left hk
      exact Prog.wp_bind (Prog.wp_mono (hstep hin h) fun _ s₁ h₁ => hrest s₁ h₁)

omit ho in
theorem wp_releaseBlocks_keeps (h : P s) (htable : SafePtr part ((s.inodes a).sector 12))
    (hall : ∀ k < 140, SafePtr part (dirBlocks s.disk (s.inodes a) k)) :
    Prog.wp (fun _ => True) (releaseBlocks a) (fun _ => P) s := by
  refine Prog.wp_get_bind (Prog.wp_ite (fun h12 => ?_) fun h12 => ?_)
  · refine Prog.wp_bind (wp_readSectors panic_allowed (Prog.wp_bind (Prog.wp_mono
      (hstep (htable.resolve_left h12) h) fun _ s₁ h₁ => ?_)))
    rw [Nat.one_mul, withTable_eq _ h12]
    exact wp_releaseLoop_keeps hstep 140 0 s₁ (fun k _ hk => hall k (by omega)) h₁
  · rw [directBlocks_eq_dirBlocks s.disk (not_not.mp h12)]
    exact wp_releaseLoop_keeps hstep 12 0 s (fun k _ hk => hall k (by omega)) h

end Releases

theorem Tidy.releaseBlocks (h : Tidy part s) (ha : a ∈ s.openInodes) :
    Prog.wp (fun _ => True) (releaseBlocks a) (fun _ s' => Tidy part s') s := by
  have hsafe := h.opened a ha
  exact wp_releaseBlocks_keeps (fun hlba h => h.releaseBlock ho hlba) h
    (hsafe.sectors 12 (by omega)) fun k _ => hsafe.dirBlocks k

/-- The number is given back in memory and on disk. -/
theorem Tidy.numberFreed (h : Tidy part s) (hno : no < 4096) :
    Tidy part ({ s with part := { s.part with
      inodeBitmap := s.part.inodeBitmap.bitmapSet no false } : Fs }.syncSector .inodeBitmap no) := by
  have h1 := ho.inodes
  have h2 := ho.table
  have h3 := ho.inodeBytes
  have hf := (h.follows.setInode no false).sync ho (t := .inodeBitmap) (n := no)
    (show no < 8 * part.inodeBitmap.bmapBytesLen by omega)
  rw [Set.insert_sdiff_of_mem _ (Set.mem_singleton _), Set.empty_sdiff] at hf
  have hdisk : ∀ x, 512 * part.sb.inodeTableLba ≤ x → ({ s with part := { s.part with
      inodeBitmap := s.part.inodeBitmap.bitmapSet no false } : Fs }.syncSector
        .inodeBitmap no).disk x = s.disk x := by
    intro x hx
    refine Mem.splice_out (.inr ?_)
    simp only [Partition.bitmapLba, h.follows.sb]
    omega
  exact h.disk hf rfl rfl (wiped_of_eq fun x hx => hdisk x (by omega)) fun x hx _ => hdisk x hx

omit ho in
theorem safeInode_zeros (d : Disk) : SafeInode part d (Inode.ofMem fun _ => 0) := by
  have hsec : ∀ k < 13, (Inode.ofMem fun _ => 0).sector k = 0 := by
    intro k hk
    rw [Inode.sector_eq _ hk]
    rfl
  exact ⟨fun k hk => .inl (hsec k hk), fun h12 => absurd (hsec 12 (by omega)) h12⟩

theorem Tidy.inodeRelease (h : Tidy part s) (no : Nat) :
    Prog.wp (fun _ => True) (inodeRelease env no) (fun _ s' => Tidy part s') s := by
  refine Prog.wp_bind (Prog.wp_of_returns fun a s₁ hrun => ?_)
  have h₁ := h.inodeOpened hrun
  have ha : a ∈ s₁.openInodes := by
    rcases inodeOpen_cases hrun with ⟨hmem, -, rfl⟩ | ⟨-, -, rfl⟩
    · exact hmem
    · exact List.mem_cons_self
  refine Prog.wp_get_bind (Prog.wp_bind (wp_assertFs panic_allowed fun _ => ?_))
  refine Prog.wp_bind (Prog.wp_mono (h₁.releaseBlocks ho ha) fun _ s₂ h₂ => ?_)
  refine Prog.wp_bind (Prog.wp_modify (Prog.wp_bind (wp_bitmapSync panic_allowed ?_)))
  refine Prog.wp_bind (wp_inodeDelete panic_allowed fun hno => ?_)
  refine Prog.wp_of_run (inodeClose_run a _) ?_
  exact ((h₂.numberFreed ho hno).slot ho hno (safeInode_zeros _)).closed a

end Remove

theorem Counted.dir_open {d : DirPtr} (h : Counted s (d.opens ++ held)) :
    d.inode s ∈ s.openInodes := by
  refine (h.counted _ ?_).1
  cases d with
  | root => exact Nat.add_pos_left (Nat.add_pos_right _ (by rw [DirPtr.inode, if_pos rfl]; omega)) _
  | opened a =>
      refine Nat.add_pos_right _ (List.count_pos_iff.mpr ?_)
      exact List.mem_append_left _ (List.mem_singleton_self a)

/-- A call that removes something keeps all pointers in order. -/
theorem Tidy.removals (ho : part.Ordered) :
    TracksRemovals env (fun held s => Counted s held ∧ Tidy part s) where
  opened := fun h hrun => ⟨h.1.opened hrun, h.2.inodeOpened hrun⟩
  closed := fun {_} {_} {a} h => ⟨h.1.closeInode, h.2.closed a⟩
  perm := fun h hp => ⟨h.1.perm hp, h.2⟩
  deleteDirEntry := fun no h =>
    Prog.wp_and ((Counted.tracksCalls : TracksCalls env _).removals.deleteDirEntry no h.1)
      (h.2.deleteDirEntry ho h.1.dir_open no)
  inodeRelease := fun no h =>
    Prog.wp_and (Counted.tracksCalls.inodeRelease h.1 no) (h.2.inodeRelease ho no)

/-! ### Creating -/

theorem Follows.withInode (h : Follows part s lag) (a : Nat) (n : Inode) :
    Follows part (s.withInode a n) lag := h.congr rfl rfl

section Create

variable (ho : part.Ordered)
include ho

/-- A block is taken and its bit written back. -/
theorem Follows.taken (h : Follows part s lag) {n : Nat} (hn : s.part.blockBitmap.LowestFree n) :
    Follows part (s.changeBlock n true) (lag \ {(.blockBitmap, n / 4096)}) ∧
      InData part (u32 (s.part.sb.dataStartLba + n : Nat)).toNat := by
  have hlen := h.len .blockBitmap
  simp only [Partition.bitmapOf] at hlen
  have hbit : n < 8 * part.blockBitmap.bmapBytesLen := by rw [← hlen]; exact hn.bit
  refine ⟨h.changeBlock ho hbit true, ?_⟩
  rw [h.sb]
  exact inData_new ho hbit

theorem Follows.syncFinish (h : Follows part s lag) {block : UInt32}
    (hblock : InData part block.toNat) (pDe : DirEntry) (buf : Mem) :
    Prog.wp (fun _ => True) (syncFinish a pDe buf block) (fun _ s' => Follows part s' lag) s := by
  refine Prog.wp_get_bind (Prog.wp_bind (wp_writeSectors panic_allowed (Prog.wp_get_bind ?_)))
  refine Prog.wp_bind (Prog.wp_of_run (putInode_run ..) (Prog.wp_pure ?_))
  exact (h.write ho (hblock.clear ho) _).congr rfl rfl

theorem Follows.syncNewBlock (h : Follows part s lag) (h12 : SafePtr part ((s.inodes a).sector 12))
    (pDe : DirEntry) (buf : Mem) (blocks : Nat → UInt32) (k : Nat) :
    Prog.wp (fun _ => True) (syncNewBlock a pDe buf blocks k)
      (fun _ s' => Follows part s' lag) s := by
  refine Prog.wp_bind (wp_allocSynced panic_allowed (h.fits ho) fun n hn => ?_)
  obtain ⟨h₁, hin⟩ := h.taken ho hn
  have h₁ := h₁.mono Set.sdiff_subset
  rw [if_neg (by omega)]
  refine Prog.wp_get_bind (Prog.wp_ite (fun _ => ?_) fun _ => Prog.wp_ite (fun _ => ?_) fun _ => ?_)
  · exact Prog.wp_bind (Prog.wp_of_run (putInode_run ..)
      ((h₁.withInode a _).syncFinish ho hin pDe buf))
  · refine Prog.wp_bind (Prog.wp_of_run (putInode_run ..) ?_)
    have h₂ := h₁.withInode a ((s.inodes a).setSector 12 (u32 (s.part.sb.dataStartLba + n : Nat)))
    refine Prog.wp_bind (wp_allocSynced panic_allowed (h₂.fits ho) fun m hm => ?_)
    obtain ⟨h₃, hin₃⟩ := h₂.taken ho hm
    refine Prog.wp_get_bind ?_
    rw [if_neg (by omega)]
    refine Prog.wp_bind (wp_writeSectors panic_allowed ?_)
    refine ((h₃.mono Set.sdiff_subset).write ho ?_ _).syncFinish ho hin₃ pDe buf
    show Clear part (512 * (((s.withInode a ((s.inodes a).setSector 12 _)).inodes a).sector
      12).toNat) 512
    rw [withInode_self, Inode.sector_setSector _ _ (by omega), if_pos rfl]
    exact hin.clear ho
  · refine Prog.wp_bind (wp_writeSectors panic_allowed ?_)
    exact (h₁.write ho (h12.clear ho) _).syncFinish ho hin pDe buf

theorem Follows.syncLoop (h : Follows part s lag)
    (hsec : ∀ k < 13, SafePtr part ((s.inodes a).sector k)) (pDe : DirEntry) :
    ∀ (n k : Nat) (buf : Mem),
    Prog.wp (fun _ => True) (syncLoop a pDe (directBlocks (s.inodes a)) n k buf)
      (fun _ s' => Follows part s' lag) s := by
  intro n
  induction n with
  | zero => exact fun k buf => Prog.wp_pure h
  | succ n ih =>
      intro k buf
      have hblock : SafePtr part (directBlocks (s.inodes a) k) := by
        unfold directBlocks
        by_cases hk : k < 12
        · rw [if_pos hk]
          exact hsec k (by omega)
        · rw [if_neg hk]
          exact .inl rfl
      refine Prog.wp_get_bind (Prog.wp_ite
        (fun _ => h.syncNewBlock ho (hsec 12 (by omega)) pDe buf _ k) fun _ => ?_)
      refine Prog.wp_bind (wp_readSectors panic_allowed ?_)
      split
      · refine Prog.wp_bind (wp_writeSectors panic_allowed (Prog.wp_get_bind ?_))
        refine Prog.wp_bind (Prog.wp_of_run (putInode_run ..) (Prog.wp_pure ?_))
        exact (h.write ho (hblock.clear ho) _).congr rfl rfl
      · exact ih (k + 1) _

theorem Follows.syncDirEntry (h : Follows part s lag)
    (hsec : ∀ k < 13, SafePtr part ((s.inodes a).sector k)) (pDe : DirEntry) (buf : Mem) :
    Prog.wp (fun _ => True) (syncDirEntry a pDe buf) (fun _ s' => Follows part s' lag) s :=
  Prog.wp_get_bind (Prog.wp_bind (wp_assertFs panic_allowed fun _ =>
    h.syncLoop ho hsec pDe 140 0 buf))

theorem Follows.inodeSync (h : Follows part s lag) (n : Inode) (buf : Mem) :
    Prog.wp (fun _ => True) (inodeSync n buf) (fun _ s' => Follows part s' lag) s := by
  have h1 := ho.inodes
  have h2 := ho.table
  refine wp_inodeSync panic_allowed (h.write ho (.inr ?_) _)
  simp only [slotAddr, h.sb]
  omega

omit ho in
theorem Follows.dirClose (h : Follows part s lag) (d : DirPtr) :
    Prog.wp (fun _ => True) (dirClose d) (fun _ s' => Follows part s' lag) s := by
  cases d with
  | root => exact Prog.wp_pure h
  | opened a =>
      obtain ⟨-, -, -, -, hdisk, hpart⟩ := closed_rest s a
      exact Prog.wp_of_run (inodeClose_run a s) (h.congr hdisk hpart)

/-- The number that was taken is written back at the end. -/
theorem Follows.numberSynced (h : Follows part s {(.inodeBitmap, no / 4096)}) (hno : no < 4096) :
    Follows part (s.syncSector .inodeBitmap no) ∅ := by
  have hlen := ho.inodeBytes
  have hsync := h.sync ho (t := .inodeBitmap) (n := no)
    (show no < 8 * part.inodeBitmap.bmapBytesLen by omega)
  rwa [Set.sdiff_self] at hsync

theorem Follows.makeDir {d : DirPtr} (h : Follows part s {(.inodeBitmap, no / 4096)})
    (hno : no < 4096) (hsec : ∀ k < 13, SafePtr part ((s.inodes (d.inode s)).sector k))
    (dirname : List UInt8) : Prog.wp (fun _ => True) (makeDir d dirname no)
      (fun r s' => r ≠ -1 → Follows part s' ∅) s := by
  refine Prog.wp_bind (wp_blockBitmapAlloc_lowest panic_allowed (h.fits ho) fun n hn => ?_)
  obtain ⟨h₁, hin⟩ := h.taken ho hn
  have h₁ := h₁.mono Set.sdiff_subset
  have hidx := Partition.blockBitmapIdx_eq ((h.fits ho).take n) (n := n) hn.bit
  simp only [Partition.take_sb] at hidx
  rw [if_neg (by omega)]
  refine Prog.wp_get_bind (Prog.wp_bind (wp_assertFs panic_allowed fun _ => ?_))
  rw [hidx]
  refine Prog.wp_bind (wp_bitmapSync panic_allowed (Prog.wp_get_bind ?_))
  have hblock : InData part (((inodeInit no).setSector 0
      (u32 (s.part.sb.dataStartLba + n : Nat))).sector 0).toNat := by
    rw [Inode.sector_setSector _ _ (by omega), if_pos rfl]
    exact hin
  refine Prog.wp_bind (wp_writeSectors panic_allowed ?_)
  have h₂ := h₁.write ho (hblock.clear ho)
    (dotBlock (UInt32.ofNat no) ((s.inodes (d.inode s)).iNo))
  refine Prog.wp_bind (Prog.wp_lift (fun pDe _ => Prog.wp_get_bind ?_) fun _ _ => trivial)
  have hdir := h₂.syncDirEntry ho (a := d.inode s) hsec pDe fun _ => 0
  refine Prog.wp_bind (Prog.wp_mono hdir fun ok s₃ h₃ => Prog.wp_ite (fun _ => ?_) fun _ => ?_)
  · refine Prog.wp_get_bind (Prog.wp_bind (Prog.wp_mono (h₃.inodeSync ho _ _) fun _ s₄ h₄ => ?_))
    refine Prog.wp_bind (Prog.wp_mono (h₄.inodeSync ho _ _) fun _ s₅ h₅ => ?_)
    refine Prog.wp_bind (wp_bitmapSync panic_allowed (Prog.wp_bind ?_))
    exact Prog.wp_mono ((h₅.numberSynced ho hno).dirClose d) fun _ _ h' => Prog.wp_pure fun _ => h'
  · refine Prog.wp_bind (Prog.wp_modify (Prog.wp_bind ?_))
    exact Prog.wp_of_returns fun _ _ _ => Prog.wp_pure fun hne => absurd rfl hne

/-- The lowest free number is taken. -/
theorem Follows.number (h : Follows part s ∅) {n : Nat} (hn : s.part.inodeBitmap.LowestFree n) :
    Follows part { s with part := { s.part with
      inodeBitmap := s.part.inodeBitmap.bitmapSet n true } } {(.inodeBitmap, n / 4096)} ∧
      n < 4096 := by
  have hlen := h.len .inodeBitmap
  simp only [Partition.bitmapOf, ho.inodeBytes] at hlen
  have hset := h.setInode n true
  rw [insert_empty_eq] at hset
  exact ⟨hset, by have := hn.bit; omega⟩

theorem Follows.inodeFits (h : Follows part s lag) :
    8 * s.part.inodeBitmap.bmapBytesLen ≤ 2 ^ 31 := by
  have hlen := h.len .inodeBitmap
  simp only [Partition.bitmapOf, ho.inodeBytes] at hlen
  omega

end Create

theorem Tidy.sysMkdir (ho : part.Ordered) (hc : Counted s []) (h : Tidy part s)
    (pathname : List UInt8) : Prog.wp (fun _ => True) (sysMkdir env pathname)
      (fun r s' => r ≠ -1 → Follows part s' ∅) s := by
  have htracks : TracksRemovals env (fun held s => Counted s held ∧ Tidy part s) :=
    Tidy.removals ho
  refine htracks.search_bind ⟨hc, h⟩ fun inodeNo r s₁ _ h₁ => ?_
  have hrefuse : ∀ s', Prog.wp (fun _ => True) (do dirClose r.parentDir; return -1)
      (fun (r : Int) s' => r ≠ -1 → Follows part s' ∅) s' := fun s' =>
    Prog.wp_bind (Prog.wp_of_returns fun _ _ _ => Prog.wp_pure fun hne => absurd rfl hne)
  refine Prog.wp_ite (fun _ => hrefuse s₁) fun _ => ?_
  refine Prog.wp_bind (Prog.wp_lift (fun _ _ => ?_) fun _ _ => trivial)
  refine Prog.wp_bind (Prog.wp_lift (fun _ _ => ?_) fun _ _ => trivial)
  refine Prog.wp_ite (fun _ => hrefuse s₁) fun _ => ?_
  refine Prog.wp_bind (wp_inodeBitmapAlloc panic_allowed (h₁.2.follows.inodeFits ho)
    fun n hn => ?_)
  obtain ⟨h₂, hlt⟩ := h₁.2.follows.number ho hn
  refine Prog.wp_ite (fun hno => absurd hno (by omega)) fun _ => ?_
  exact h₂.makeDir ho hlt (h₁.2.opened _ h₁.1.dir_open).sectors _

theorem Tidy.fileCreate (ho : part.Ordered) (h : Tidy part s) (hc : Counted s held) {parent : Nat}
    (hparent : parent ∈ s.openInodes) (filename : List UInt8) (flag : Nat) :
    Prog.wp (fun _ => True) (fileCreate env parent filename flag)
      (fun r s' => r ≠ -1 → Follows part s' ∅) s := by
  refine Prog.wp_bind (wp_inodeBitmapAlloc panic_allowed (h.follows.inodeFits ho) fun n hn => ?_)
  obtain ⟨h₁, hlt⟩ := h.follows.number ho hn
  refine Prog.wp_ite (fun hno => absurd hno (by omega)) fun _ => Prog.wp_get_bind ?_
  have hfresh : parent ≠ env.newAddr s.heap := fun heq =>
    env.newAddr_fresh s.heap (heq ▸ hc.heap parent hparent)
  refine Prog.wp_bind (Prog.wp_modify (Prog.wp_bind (Prog.wp_of_run (putInode_run ..) ?_)))
  refine Prog.wp_get_bind ?_
  cases hslot : getFreeSlotInGlobal s.fileTable with
  | none =>
      refine Prog.wp_bind (Prog.wp_modify (Prog.wp_bind (Prog.wp_modify (Prog.wp_pure ?_))))
      exact fun hne => absurd rfl hne
  | some g =>
      refine Prog.wp_bind (Prog.wp_modify (Prog.wp_get_bind ?_))
      refine Prog.wp_bind (Prog.wp_of_run (putInode_run ..) ?_)
      refine Prog.wp_bind (Prog.wp_lift (fun pDe _ => ?_) fun _ _ => trivial)
      refine Prog.wp_bind (Prog.wp_mono (Follows.syncDirEntry ho (h₁.congr (by rfl) (by rfl))
        (fun k hk => ?_) pDe _) fun ok s₂ h₂ => Prog.wp_ite (fun _ => ?_) fun _ => ?_)
      · simp only [if_neg hfresh]
        exact (h.opened parent hparent).sectors k hk
      · refine Prog.wp_get_bind (Prog.wp_bind (Prog.wp_mono (h₂.inodeSync ho _ _)
          fun _ s₃ h₃ => ?_))
        refine Prog.wp_get_bind (Prog.wp_bind (Prog.wp_mono (h₃.inodeSync ho _ _)
          fun _ s₄ h₄ => ?_))
        refine Prog.wp_bind (wp_bitmapSync panic_allowed (Prog.wp_bind (Prog.wp_modify ?_)))
        refine Prog.wp_get_bind (Prog.wp_bind (Prog.wp_of_run (putInode_run ..) ?_))
        refine Prog.wp_of_returns fun fd s₅ hrun _ => ?_
        obtain ⟨f, rfl⟩ := pcbFdInstall_tasks hrun
        exact (h₄.numberSynced ho hlt).congr rfl rfl
      · refine Prog.wp_bind (Prog.wp_modify (Prog.wp_bind (Prog.wp_modify (Prog.wp_bind
          (Prog.wp_modify (Prog.wp_pure ?_))))))
        exact fun hne => absurd rfl hne

theorem Tidy.sysOpen (ho : part.Ordered) (hc : Counted s []) (h : Tidy part s)
    (pathname : List UInt8) (flags : Nat) : Prog.wp (fun _ => True) (sysOpen env pathname flags)
      (fun r s' => r ≠ -1 → Follows part s' ∅) s := by
  have htracks : TracksRemovals env (fun held s => Counted s held ∧ Tidy part s) :=
    Tidy.removals ho
  refine Prog.wp_bind (Prog.wp_mono (htracks.openPlan ⟨hc, h⟩ pathname flags)
    fun plan s₁ hplan => ?_)
  obtain ⟨d, h₁, hkeeps⟩ := hplan
  cases plan with
  | refuse => exact Prog.wp_pure fun hne => absurd rfl hne
  | create parentDir =>
      obtain rfl : d = parentDir := hkeeps
      refine Prog.wp_get_bind (Prog.wp_bind (Prog.wp_mono
        (h₁.2.fileCreate ho h₁.1 h₁.1.dir_open _ _) fun fd s₂ h₂ => Prog.wp_bind ?_))
      refine Prog.wp_of_returns fun u s₃ hrun => Prog.wp_pure fun hfd => ?_
      exact ((h₂ hfd).dirClose d).of_run hrun
  | existing no =>
      refine Prog.wp_of_returns fun fd s₂ hrun _ => ?_
      obtain ⟨hdisk, hpart⟩ := fileOpen_disk hrun
      exact h₁.2.follows.congr hdisk hpart

end ZyOs
