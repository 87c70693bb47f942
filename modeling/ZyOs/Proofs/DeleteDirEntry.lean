/-
When `delete_dir_entry` returns.

The scan stops at the first block with an entry of the number.  From there it returns unless
an assertion stops it, the entry is there twice or the size is too small for it, or it comes
to the third loop, which never ends: that is when the entry is the only one of a block of the
indirect table.
-/
import ZyOs.Kernel.DeleteDirEntry
import ZyOs.Proofs.Takeout
import ZyOs.Proofs.FileLimit

namespace ZyOs

open Library

variable {E : Halt → Prop} {s : Fs} {a k i b no fuel : Nat} {d : Disk} {n : Inode}
  {blocks : Nat → UInt32}

/-! ### The third loop -/

/-- However many rounds there are, the loop has not ended. -/
theorem countIndirectBlocks_none (blocks : Nat → UInt32) {idx : Nat} (hidx : idx < 140)
    (fuel cnt : Nat) : countIndirectBlocks blocks fuel idx cnt = none := by
  induction fuel generalizing cnt with
  | zero => rfl
  | succ fuel ih =>
      rw [countIndirectBlocks, if_pos hidx]
      exact ih _

theorem eraseIndirect_eq (fuel pdir : Nat) (blocks : Nat → UInt32) (blockIdx : Nat) :
    eraseIndirect fuel pdir blocks blockIdx = Prog.lift (.error (.hang "delete_dir_entry")) := by
  rw [eraseIndirect, countIndirectBlocks_none blocks (by decide)]

theorem removeEntryIn_eq (fuel pdir : Nat) (blocks : Nat → UInt32) (blockIdx : Nat) (ioBuf : Mem)
    (t : Tally) (dirEntryIdx : Nat) : removeEntryIn fuel pdir blocks blockIdx ioBuf t dirEntryIdx
      = removeEntry pdir blocks blockIdx ioBuf t dirEntryIdx := by
  unfold removeEntryIn removeEntry
  rw [eraseIndirect_eq]

theorem deleteLoopIn_eq (fuel pdir inodeNo : Nat) (blocks : Nat → UInt32) (m k : Nat) :
    deleteLoopIn fuel pdir inodeNo blocks m k = deleteLoop pdir inodeNo blocks m k := by
  induction m generalizing k with
  | zero => rfl
  | succ m ih =>
      have hremove : removeEntryIn fuel = removeEntry := by
        funext pdir blocks blockIdx ioBuf t dirEntryIdx
        exact removeEntryIn_eq fuel pdir blocks blockIdx ioBuf t dirEntryIdx
      rw [deleteLoopIn, ih, hremove]
      rfl

/-- The rounds make no difference: whoever comes to the third loop stays there. -/
theorem deleteDirEntryIn_eq (fuel pdir inodeNo : Nat) :
    deleteDirEntryIn fuel pdir inodeNo = deleteDirEntry pdir inodeNo := by
  unfold deleteDirEntryIn deleteDirEntry
  simp only [deleteLoopIn_eq]

/-! ### The condition -/

/-- Block `k` of the inode has an entry with this number. -/
def BlockNames (d : Disk) (n : Inode) (no k : Nat) : Prop :=
  own d n k ≠ 0 ∧ ∃ i < 21, NamesAt d no (512 * own d n k + 24 * i)

instance decidableNamesAt (d : Disk) (no addr : Nat) : Decidable (NamesAt d no addr) :=
  inferInstanceAs (Decidable (InUse d addr ∧ Proper (nameAt d addr) ∧ _))

instance decidableBlockNames (d : Disk) (n : Inode) (no k : Nat) :
    Decidable (BlockNames d n no k) :=
  inferInstanceAs (Decidable (_ ∧ ∃ i < 21, NamesAt d no (512 * own d n k + 24 * i)))

instance decidableAloneAt (d : Disk) (b i : Nat) : Decidable (AloneAt d b i) :=
  inferInstanceAs (Decidable ((∀ j < 21, InUse d (512 * b + 24 * j) → _ ≠ _) ∧
    ∀ j < 21, InUse d (512 * b + 24 * j) → Proper (nameAt d (512 * b + 24 * j)) → j = i))

/-- An entry with this number can be taken out of block `k`: there is one, the size counts it,
and it is not the only one of a block of the table. -/
structure CanTake (d : Disk) (n : Inode) (no k : Nat) : Prop where
  size : 24 ≤ n.iSize.toNat
  once : ∀ i < 21, ∀ j < 21, NamesAt d no (512 * own d n k + 24 * i) →
    NamesAt d no (512 * own d n k + 24 * j) → i = j
  direct : ∀ i < 21, NamesAt d no (512 * own d n k + 24 * i) → AloneAt d (own d n k) i → k < 12

/-- The first block that has an entry with the number, if there is one, lets it be taken. -/
def Removable (d : Disk) (n : Inode) (no : Nat) : Prop :=
  ∀ k < 140, BlockNames d n no k → (∀ j < k, ¬ BlockNames d n no j) → CanTake d n no k

/-- The blocks of an inode and its table are in the data area and on the drive. -/
structure InArea (part : Partition) (d : Disk) (n : Inode) : Prop where
  data : ∀ k ≤ 140, own d n k ≠ 0 → InData part (own d n k)
  drive : ∀ k ≤ 140, own d n k ≠ 0 → own d n k ≤ maxLba

/-- The call comes back after some number of rounds. -/
def Returns (s : Fs) (a no : Nat) : Prop := ∃ fuel r, deleteDirEntryIn fuel a no s = .ok r

/-! ### A block without the number -/

/-- What the scan finds in block `k`. -/
theorem deleteLoop_at (no : Nat) (hs : OnDrive s.part)
    (hdrive : own s.disk (s.inodes a) k ≤ maxLba) (hk : k < 140)
    (hne : own s.disk (s.inodes a) k ≠ 0) (m : Nat) :
    (∃ t, Tallied s.disk (own s.disk (s.inodes a) k) no 21 t ∧
      deleteLoop a no (dirBlocks s.disk (s.inodes a)) (m + 1) k s =
        match t.dirEntryFound with
        | none => deleteLoop a no (dirBlocks s.disk (s.inodes a)) m (k + 1) s
        | some i => (do
            removeEntry a (dirBlocks s.disk (s.inodes a)) k
              (Mem.splice (fun _ => 0) 0 (s.disk.drop (512 * own s.disk (s.inodes a) k)) 512) t i
            return true : FsM Bool) s) ∨
    (∃ e, deleteLoop a no (dirBlocks s.disk (s.inodes a)) (m + 1) k s = .error e) ∧
      ∃ i < 21, ∃ j < 21, i ≠ j ∧ NamesAt s.disk no (512 * own s.disk (s.inodes a) k + 24 * i) ∧
        NamesAt s.disk no (512 * own s.disk (s.inodes a) k + 24 * j) := by
  have hzero : dirBlocks s.disk (s.inodes a) k ≠ 0 := (own_ne_zero hk).mp hne
  have hown := own_of_lt (d := s.disk) (n := s.inodes a) hk
  have hread := readSectors_run s (fun _ => 0) (show 0 < 1 by decide)
    (show own s.disk (s.inodes a) k + 1 ≤ maxLba + 1 by omega)
  rw [deleteLoop, if_neg hzero, Prog.bind_of_run (Prog.get_run s), hs.ordered.entrySize, ← hown,
    Prog.bind_of_run hread, Nat.one_mul, show sectorSize / 24 = 21 from rfl]
  rcases tallyBlock_cases (d := s.disk) (b := own s.disk (s.inodes a) k) (fun _ => 0) 21 0
      ⟨false, 0, none⟩ rfl (Tallied.start _ _ no) with ⟨t, hrun, ht⟩ |
    ⟨⟨e, hrun⟩, htwice⟩
  · refine .inl ⟨t, ht, ?_⟩
    rw [Prog.bind_of_run (Prog.lift_run.mpr ⟨hrun, rfl⟩)]
    cases t.dirEntryFound <;> rfl
  · refine .inr ⟨⟨e, Prog.bind_of_error ?_⟩, htwice⟩
    rw [hrun]
    rfl

/-- A block without the number is passed over. -/
theorem deleteLoop_skip (hs : OnDrive s.part) (ho : InArea s.part s.disk (s.inodes a))
    (hk : k < 140) (hnot : ¬ BlockNames s.disk (s.inodes a) no k) (m : Nat) :
    deleteLoop a no (dirBlocks s.disk (s.inodes a)) (m + 1) k s
      = deleteLoop a no (dirBlocks s.disk (s.inodes a)) m (k + 1) s := by
  by_cases hne : own s.disk (s.inodes a) k = 0
  · have hzero : dirBlocks s.disk (s.inodes a) k = 0 := by
      by_contra hc
      exact (own_ne_zero hk).mpr hc hne
    rw [deleteLoop, if_pos hzero]
  · have hnone : ∀ i < 21, ¬ NamesAt s.disk no (512 * own s.disk (s.inodes a) k + 24 * i) :=
      fun i hi hni => hnot ⟨hne, i, hi, hni⟩
    rcases deleteLoop_at no hs (ho.drive k (by omega) hne) hk hne m with
      ⟨t, ht, hrun⟩ | ⟨-, i, hi, -, -, -, hni, -⟩
    · rw [hrun]
      cases hf : t.dirEntryFound with
      | none => rfl
      | some i =>
          obtain ⟨hi, hni⟩ := (ht.found i).mp hf
          exact absurd hni (hnone i hi)
    · exact absurd hni (hnone i hi)

/-- The scan comes to the first block with the number. -/
theorem deleteLoop_from (hs : OnDrive s.part) (ho : InArea s.part s.disk (s.inodes a)) :
    ∀ k ≤ 140, (∀ j < k, ¬ BlockNames s.disk (s.inodes a) no j) →
      deleteLoop a no (dirBlocks s.disk (s.inodes a)) 140 0 s
        = deleteLoop a no (dirBlocks s.disk (s.inodes a)) (140 - k) k s := by
  intro k
  induction k with
  | zero =>
      intro _ _
      rfl
  | succ k ih =>
      intro hk hnot
      have hskip := deleteLoop_skip hs ho (show k < 140 by omega) (hnot k (by omega)) (139 - k)
      rw [ih (by omega) fun j hj => hnot j (by omega), show 140 - k = 139 - k + 1 by omega, hskip,
        show 139 - k = 140 - (k + 1) by omega]

/-! ### The block with the number -/

/-- What is not allowed to be taken stops the kernel, or keeps it. -/
theorem removeEntry_never (hs : OnDrive s.part) (hk : k < 140)
    (hdata : InData s.part (own s.disk (s.inodes a) k))
    (hdrive : own s.disk (s.inodes a) k ≤ maxLba) (hi : i < 21) {t : Tally}
    (ht : Tallied s.disk (own s.disk (s.inodes a) k) no 21 t)
    (hnames : NamesAt s.disk no (512 * own s.disk (s.inodes a) k + 24 * i))
    (hnot : (s.inodes a).iSize.toNat < 24 ∨
      AloneAt s.disk (own s.disk (s.inodes a) k) i ∧ 12 ≤ k) (buf : Mem) :
    Prog.wp (fun _ => True) (removeEntry a (dirBlocks s.disk (s.inodes a)) k buf t i)
      (fun _ _ => False) s := by
  have hown := own_of_lt (d := s.disk) (n := s.inodes a) hk
  refine Prog.wp_get_bind (Prog.wp_bind (wp_assert (ht.pos hi hnames) ?_))
  rw [hs.ordered.entrySize]
  refine Prog.wp_ite (fun halone => ?_) fun halone => ?_
  · refine Prog.wp_bind (wp_giveBlock hs (hown ▸ hdata) (hown ▸ hdrive) ?_)
    refine Prog.wp_ite (fun hlt => ?_) fun hge => ?_
    · refine Prog.wp_get_bind (Prog.wp_bind (wp_putInode (Prog.wp_get_bind ?_)))
      refine Prog.wp_bind (wp_assertFs (fun _ _ => trivial) fun hsize => ?_)
      rw [withInode_self] at hsize
      have hsize : 24 ≤ (s.inodes a).iSize.toNat := hsize
      omega
    · exact Prog.wp_bind (Prog.wp_lift (fun _ he => absurd he (by simp)) fun _ _ => trivial)
  · have hsmall := hnot.resolve_right fun hc => halone ((ht.alone_iff hi hnames).mpr hc.1)
    rw [← hown]
    refine Prog.wp_bind (wp_write hdrive (Prog.wp_get_bind ?_))
    refine Prog.wp_bind (wp_assertFs (fun _ _ => trivial) fun hsize => ?_)
    have hsize : 24 ≤ (s.inodes a).iSize.toNat := hsize
    omega

/-- From the first block with the number on, the scan returns just when the entry can be taken. -/
theorem deleteLoop_returns_iff (hs : OnDrive s.part) (ho : InArea s.part s.disk (s.inodes a))
    (hk : k < 140) (hnames : BlockNames s.disk (s.inodes a) no k) (m : Nat) :
    (∃ r, deleteLoop a no (dirBlocks s.disk (s.inodes a)) (m + 1) k s = .ok r) ↔
      CanTake s.disk (s.inodes a) no k := by
  obtain ⟨hne, i, hi, hni⟩ := hnames
  have hdata := ho.data k (by omega) hne
  have hdrive := ho.drive k (by omega) hne
  rcases deleteLoop_at no hs hdrive hk hne m with
    ⟨t, ht, hrun⟩ | ⟨⟨e, hrun⟩, j, hj, j', hj', hjj, hnj, hnj'⟩
  · have hfound := (ht.found i).mpr ⟨hi, hni⟩
    rw [hrun, hfound]
    have honly : ∀ j < 21,
        NamesAt s.disk no (512 * own s.disk (s.inodes a) k + 24 * j) → i = j := by
      intro j hj hnj
      have hj := (ht.found j).mpr ⟨hj, hnj⟩
      rw [hfound] at hj
      cases hj
      rfl
    constructor
    · rintro ⟨r, hr⟩
      obtain ⟨u, s', hr, -⟩ := Prog.bind_run.mp hr
      by_contra hc
      refine Prog.ne_ok_of_wp (removeEntry_never hs hk hdata hdrive hi ht hni ?_ _) hr
      by_contra hnot
      push Not at hnot
      refine hc ⟨hnot.1, fun j hj j' hj' hnj hnj' => ?_, fun j hj hnj halone => ?_⟩
      · rw [← honly j hj hnj, honly j' hj' hnj']
      · rw [← honly j hj hnj] at halone
        exact hnot.2 halone
    · intro hc
      have hwp := wp_removeEntry (E := fun _ => False) (Q := fun _ _ => True) hs hc.size hk hdata
        hdrive hne hi ht hni (.inl (hc.direct i hi hni)) (fun _ => 0)
        ⟨fun _ => trivial, fun _ _ _ _ _ _ _ => trivial, fun _ _ _ _ _ _ _ => trivial⟩
      exact (Prog.wp_bind (R := fun _ _ => True)
        (Prog.wp_mono hwp fun _ _ _ => Prog.wp_pure trivial)).returns
  · rw [hrun]
    refine ⟨fun hr => (by obtain ⟨_, hr⟩ := hr; cases hr), fun hc => ?_⟩
    exact absurd (hc.once j hj j' hj' hnj hnj') hjj

/-! ### Termination -/

/-- The scan is what is left once the table has been read. -/
theorem deleteDirEntry_run (ho : InArea s.part s.disk (s.inodes a)) (no : Nat) :
    deleteDirEntry a no s = deleteLoop a no (dirBlocks s.disk (s.inodes a)) 140 0 s := by
  unfold deleteDirEntry
  rw [Prog.bind_of_run (Prog.get_run s)]
  by_cases h12 : (s.inodes a).sector 12 = 0
  · rw [if_neg (by simpa using h12), directBlocks_eq_dirBlocks s.disk h12]
  · have hdrive := ho.drive 140 le_rfl (by rw [own_table]; exact toNat_ne_zero.mpr h12)
    rw [own_table] at hdrive
    have hread := readSectors_run s (fun _ => 0) (show 0 < 1 by decide)
      (show ((s.inodes a).sector 12).toNat + 1 ≤ maxLba + 1 from Nat.succ_le_succ hdrive)
    rw [if_pos h12, Prog.bind_of_run hread, Nat.one_mul, ← withTable_eq s.disk h12]

theorem returns_run (ho : InArea s.part s.disk (s.inodes a)) (no : Nat) : Returns s a no ↔
    ∃ r, deleteLoop a no (dirBlocks s.disk (s.inodes a)) 140 0 s = .ok r := by
  simp only [Returns, deleteDirEntryIn_eq, deleteDirEntry_run ho]
  exact ⟨fun ⟨_, h⟩ => h, fun h => ⟨0, h⟩⟩

/-- The first block with the number decides. -/
theorem returns_iff_canTake (hs : OnDrive s.part) (ho : InArea s.part s.disk (s.inodes a))
    (hk : k < 140) (hnames : BlockNames s.disk (s.inodes a) no k)
    (hfirst : ∀ j < k, ¬ BlockNames s.disk (s.inodes a) no j) :
    Returns s a no ↔ CanTake s.disk (s.inodes a) no k := by
  rw [returns_run ho, deleteLoop_from hs ho k (by omega) hfirst,
    show 140 - k = 139 - k + 1 by omega, deleteLoop_returns_iff hs ho hk hnames]

/-- **`delete_dir_entry` returns** just when the first block with the number lets the entry be
taken: it is there once, the size counts it and it is not the only one of a block of the table. -/
theorem delete_dir_entry_returns_iff (s : Fs) (a no : Nat) (hs : OnDrive s.part)
    (ho : InArea s.part s.disk (s.inodes a)) :
    Returns s a no ↔ Removable s.disk (s.inodes a) no := by
  by_cases hnames : ∃ k, k < 140 ∧ BlockNames s.disk (s.inodes a) no k
  · classical
    obtain ⟨hk, hk'⟩ := Nat.find_spec hnames
    have hfirst : ∀ j < Nat.find hnames, ¬ BlockNames s.disk (s.inodes a) no j := fun j hj hc =>
      Nat.find_min hnames hj ⟨by omega, hc⟩
    rw [returns_iff_canTake hs ho hk hk' hfirst]
    refine ⟨fun hc k hk hkn hkf => ?_, fun hc => hc _ hk hk' hfirst⟩
    rwa [← show Nat.find hnames = k from (Nat.find_eq_iff hnames).mpr
      ⟨⟨hk, hkn⟩, fun j hj hcj => hkf j hj hcj.2⟩]
  · have hnone : ∀ j < 140, ¬ BlockNames s.disk (s.inodes a) no j := fun j hj hc =>
      hnames ⟨j, hj, hc⟩
    rw [returns_run ho, deleteLoop_from hs ho 140 le_rfl hnone]
    exact ⟨fun _ k hk hkn => absurd hkn (hnone k hk), fun _ => ⟨(false, s), rfl⟩⟩

/-! ### A directory with a table -/

/-- `.` and `..` at 613, and one entry more, for inode 5, in the only block of the table. -/
def tableDirDisk : Disk :=
  let dot : DirEntry := ⟨cstr dotText, 1, ftDirectory⟩
  let dotdot : DirEntry := ⟨cstr dotdotText, 0, ftDirectory⟩
  let entry : DirEntry := ⟨cstr [97], 5, ftRegular⟩
  let dots : Mem := (Mem.splice (fun _ => 0) 0 dot.toMem 24).splice 24 dotdot.toMem 24
  let table : Mem := ofWords fun k => if k = 0 then 615 else 0
  ((Mem.splice (fun _ => 0) (512 * 613) dots 48).splice (512 * 614) table 512).splice
    (512 * 615) entry.toMem 24

def tableDir : Fs :=
  { openFs with
    disk := tableDirDisk
    inodes := fun _ => { ((inodeInit 1).setSector 0 613).setSector 12 614 with iSize := 72 } }

theorem tableDir_inArea : InArea tableDir.part tableDir.disk (tableDir.inodes 1) := by
  have hown : ∀ k ≤ 140, own tableDir.disk (tableDir.inodes 1) k = 0 ∨
      612 ≤ own tableDir.disk (tableDir.inodes 1) k ∧
        own tableDir.disk (tableDir.inodes 1) k ≤ 615 := by
    decide
  have hstart : tableDir.part.sb.dataStartLba = 612 := rfl
  have hlen : tableDir.part.blockBitmap.bmapBytesLen = 512 := rfl
  have hmax : maxLba = 163839 := rfl
  refine ⟨fun k hk hne => ?_, fun k hk hne => ?_⟩
  · obtain ⟨hlow, hhigh⟩ := (hown k hk).resolve_left hne
    exact ⟨by omega, by omega⟩
  · obtain ⟨hlow, hhigh⟩ := (hown k hk).resolve_left hne
    omega

theorem delete_returns_tableDir : Returns tableDir 1 0 ↔
    Removable tableDir.disk (tableDir.inodes 1) 0 :=
  delete_dir_entry_returns_iff tableDir 1 0 openFs_onDrive tableDir_inArea

/-- The entry for inode 5 is never taken out of it. -/
theorem delete_never_returns : OnDrive tableDir.part ∧
    InArea tableDir.part tableDir.disk (tableDir.inodes 1) ∧ ¬ Returns tableDir 1 5 := by
  refine ⟨openFs_onDrive, tableDir_inArea, fun hreturns => ?_⟩
  have hnames : BlockNames tableDir.disk (tableDir.inodes 1) 5 12 := by decide
  have hfirst : ∀ j < 12, ¬ BlockNames tableDir.disk (tableDir.inodes 1) 5 j := by decide
  have halone : AloneAt tableDir.disk (own tableDir.disk (tableDir.inodes 1) 12) 0 := by decide
  have hdrive : OnDrive tableDir.part := openFs_onDrive
  have htake := (returns_iff_canTake hdrive tableDir_inArea (by decide) hnames hfirst).mp hreturns
  exact absurd (htake.direct 0 (by decide) (by decide) halone) (by decide)

end ZyOs
