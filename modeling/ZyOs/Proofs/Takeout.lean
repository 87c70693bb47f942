/-
What `delete_dir_entry` takes out.

It counts the entries of a block while it looks for the number.  An entry that is alone in
a block without `.` goes with the block; any other has its slot cleared.  The inode is
written back in both cases, under the number it is cut down to.
-/
import ZyOs.Proofs.Place

namespace ZyOs

open Library

/-- The slot has an entry other than `.` and `..` with this number. -/
def NamesAt (d : Disk) (no addr : Nat) : Prop :=
  InUse d addr ∧ Proper (nameAt d addr) ∧ (getWord d (addr + 16)).toNat = no

/-- Slot `i` is the only one with an entry in a block that does not begin a directory. -/
def AloneAt (d : Disk) (b i : Nat) : Prop :=
  (∀ j < 21, InUse d (512 * b + 24 * j) → nameAt d (512 * b + 24 * j) ≠ dotText) ∧
  ∀ j < 21, InUse d (512 * b + 24 * j) → Proper (nameAt d (512 * b + 24 * j)) → j = i

/-- Block `k` of the directory at `a` has been given back. -/
def Fs.blockDropped (s : Fs) (a k : Nat) : Fs :=
  (s.changeBlock (own s.disk (s.inodes a) k - s.part.sb.dataStartLba) false).withInode a
    { (s.inodes a).setSector k 0 with iSize := (s.inodes a).iSize - 24 }

/-- The slot at `addr` of the directory at `a` has been cleared. -/
def Fs.slotCleared (s : Fs) (a addr : Nat) : Fs :=
  (s.withDisk (s.disk.splice addr (fun _ => 0) 24)).withInode a
    { s.inodes a with iSize := (s.inodes a).iSize - 24 }

/-- The inode at `a` has been written back. -/
def Fs.writtenBack (s : Fs) (a : Nat) : Fs := s.inodeSynced (s.inodes a)

variable {E : Halt → Prop} {s : Fs} {a k i b no : Nat} {d : Disk} {n : Inode}

/-! ### Counting -/

section Tally

/-- What counts in slot `j` of block `b`. -/
def CountsAt (d : Disk) (b j : Nat) : Prop :=
  InUse d (512 * b + 24 * j) ∧ Proper (nameAt d (512 * b + 24 * j))

instance (d : Disk) (b : Nat) : DecidablePred (CountsAt d b) := fun j =>
  inferInstanceAs (Decidable (InUse d (512 * b + 24 * j) ∧ Proper (nameAt d (512 * b + 24 * j))))

/-- The tally of the slots below `k`. -/
structure Tallied (d : Disk) (b no k : Nat) (t : Tally) : Prop where
  first : t.isDirFirstBlock = true ↔
    ∃ j < k, InUse d (512 * b + 24 * j) ∧ nameAt d (512 * b + 24 * j) = dotText
  cnt : t.dirEntryCnt = ((Finset.range k).filter (CountsAt d b)).card
  found : ∀ i, t.dirEntryFound = some i ↔ i < k ∧ NamesAt d no (512 * b + 24 * i)

theorem Tallied.start (d : Disk) (b no : Nat) : Tallied d b no 0 ⟨false, 0, none⟩ :=
  ⟨by simp, by simp, by simp⟩

/-- A slot that does not count. -/
theorem Tallied.skip {t : Tally} {first : Bool} (h : Tallied d b no k t)
    (hnot : ¬ CountsAt d b k)
    (hfirst : first = true ↔ t.isDirFirstBlock = true ∨
      InUse d (512 * b + 24 * k) ∧ nameAt d (512 * b + 24 * k) = dotText) :
    Tallied d b no (k + 1) { t with isDirFirstBlock := first } where
  first := by
    rw [hfirst, h.first]
    constructor
    · rintro (⟨j, hj, hd⟩ | hd)
      · exact ⟨j, by omega, hd⟩
      · exact ⟨k, by omega, hd⟩
    · rintro ⟨j, hj, hd⟩
      by_cases hjk : j = k
      · exact .inr (hjk ▸ hd)
      · exact .inl ⟨j, by omega, hd⟩
  cnt := by
    rw [Finset.range_add_one, Finset.filter_insert, if_neg hnot]
    exact h.cnt
  found := by
    intro i
    refine (h.found i).trans ⟨fun hi => ⟨by omega, hi.2⟩, fun hi => ⟨?_, hi.2⟩⟩
    have : i ≠ k := fun hik => hnot (hik ▸ ⟨hi.2.1, hi.2.2.1⟩)
    omega

/-- A slot that counts. -/
theorem Tallied.count {t : Tally} {found : Option Nat} (h : Tallied d b no k t)
    (hcounts : CountsAt d b k)
    (hfound : ∀ i, found = some i ↔ i < k + 1 ∧ NamesAt d no (512 * b + 24 * i)) :
    Tallied d b no (k + 1)
      { t with dirEntryCnt := t.dirEntryCnt + 1, dirEntryFound := found } where
  first := by
    refine h.first.trans ⟨fun ⟨j, hj, hd⟩ => ⟨j, by omega, hd⟩, fun ⟨j, hj, hd⟩ => ⟨j, ?_, hd⟩⟩
    have : j ≠ k := fun hjk => hcounts.2.1 (hjk ▸ hd.2)
    omega
  cnt := by
    rw [Finset.range_add_one, Finset.filter_insert, if_pos hcounts,
      Finset.card_insert_of_notMem (by simp)]
    exact congrArg (· + 1) h.cnt
  found := hfound

theorem nameAt_window (d : Disk) (b : Nat) (buf : Mem) (hk : k < 21) {name : List UInt8}
    (hfit : FitsName name) :
    strncmp ((buf.splice 0 (d.drop (512 * b)) 512).drop (24 * k)) (cstr name) name.length 0 = 0
      ↔ nameAt d (512 * b + 24 * k) = name := by
  rw [nameAt_eq_iff hfit]
  exact strncmp_window hfit.text hfit.short (by omega) buf

/-- The loop over the entries of a block: it is the tally, or the block has the number twice. -/
theorem tallyBlock_cases (buf : Mem) : ∀ (m k : Nat) (t : Tally), k + m = 21 → Tallied d b no k t →
    (∃ t', tallyBlock (buf.splice 0 (d.drop (512 * b)) 512) no m k t = .ok t' ∧
      Tallied d b no 21 t') ∨
    (∃ e, tallyBlock (buf.splice 0 (d.drop (512 * b)) 512) no m k t = .error e) ∧
      ∃ i < 21, ∃ j < 21, i ≠ j ∧ NamesAt d no (512 * b + 24 * i) ∧
        NamesAt d no (512 * b + 24 * j) := by
  intro m
  induction m with
  | zero =>
      intro k t hk h
      obtain rfl : k = 21 := by omega
      exact .inl ⟨t, rfl, h⟩
  | succ m ih =>
      intro k t hk h
      have hdotFit : FitsName dotText := ⟨by decide, by decide⟩
      have hddFit : FitsName dotdotText := ⟨by decide, by decide⟩
      have hdot : strncmp ((buf.splice 0 (d.drop (512 * b)) 512).drop (24 * k)) (cstr [46]) 1 0 = 0
          ↔ nameAt d (512 * b + 24 * k) = dotText := nameAt_window d b buf (by omega) hdotFit
      have hdd : strncmp ((buf.splice 0 (d.drop (512 * b)) 512).drop (24 * k)) (cstr [46, 46]) 2 0
          = 0 ↔ nameAt d (512 * b + 24 * k) = dotdotText :=
        nameAt_window d b buf (by omega) hddFit
      have hword : ∀ off, off + 4 ≤ 24 → getWord ((buf.splice 0 (d.drop (512 * b)) 512).drop
          (24 * k)) off = getWord d (512 * b + 24 * k + off) := by
        intro off hoff
        rw [getWord_drop, getWord_read _ _ _ (by omega), Nat.add_assoc]
      simp only [tallyBlock, DirEntry.size]
      rw [hword 20 (by omega), hword 16 (by omega)]
      by_cases hfree : getWord d (512 * b + 24 * k + 20) = ftUnknown
      · rw [if_pos hfree]
        refine ih (k + 1) t (by omega) (h.skip (fun hc => hc.1 hfree) ?_)
        exact ⟨.inl, fun hc => hc.elim id fun hc => absurd hfree hc.1⟩
      · rw [if_neg hfree]
        by_cases hn : nameAt d (512 * b + 24 * k) = dotText
        · rw [if_pos (hdot.mpr hn)]
          refine ih (k + 1) _ (by omega) (h.skip (fun hc => hc.2.1 hn) ?_)
          exact ⟨fun _ => .inr ⟨hfree, hn⟩, fun _ => rfl⟩
        · rw [if_neg fun hc => hn (hdot.mp hc)]
          by_cases hn2 : nameAt d (512 * b + 24 * k) = dotdotText
          · rw [if_pos (hdd.mpr hn2)]
            refine ih (k + 1) t (by omega) (h.skip (fun hc => hc.2.2 hn2) ?_)
            exact ⟨.inl, fun hc => hc.elim id fun hc => absurd hc.2 hn⟩
          · rw [if_neg fun hc => hn2 (hdd.mp hc)]
            have hcounts : CountsAt d b k := ⟨hfree, hn, hn2⟩
            by_cases hno : (getWord d (512 * b + 24 * k + 16)).toNat = no
            · have hnames : NamesAt d no (512 * b + 24 * k) := ⟨hfree, ⟨hn, hn2⟩, hno⟩
              rw [if_pos hno]
              cases hf : t.dirEntryFound with
              | none =>
                  rw [ASSERT_pos rfl, ok_bind]
                  refine ih (k + 1) _ (by omega) (h.count hcounts fun i => ?_)
                  rw [Option.some.injEq]
                  constructor
                  · rintro rfl
                    exact ⟨by omega, hnames⟩
                  · rintro ⟨hi, hni⟩
                    by_contra hne
                    have hfound := (h.found i).mpr ⟨by omega, hni⟩
                    rw [hf] at hfound
                    cases hfound
              | some i =>
                  obtain ⟨hi, hni⟩ := (h.found i).mp hf
                  exact .inr ⟨⟨_, rfl⟩, i, by omega, k, by omega, by omega, hni, hnames⟩
            · rw [if_neg hno]
              refine ih (k + 1) _ (by omega) (h.count hcounts fun i => (h.found i).trans ?_)
              refine ⟨fun hi => ⟨by omega, hi.2⟩, fun hi => ⟨?_, hi.2⟩⟩
              have : i ≠ k := fun hik => hno (hik ▸ hi.2.2.2)
              omega

/-- The test for giving the block back. -/
theorem Tallied.alone_iff {t : Tally} (h : Tallied d b no 21 t) (hi : i < 21)
    (hnames : NamesAt d no (512 * b + 24 * i)) :
    (t.dirEntryCnt = 1 ∧ t.isDirFirstBlock = false) ↔ AloneAt d b i := by
  have hcounts : CountsAt d b i := ⟨hnames.1, hnames.2.1⟩
  have hmem : i ∈ (Finset.range 21).filter (CountsAt d b) := by simp [hi, hcounts]
  have hfirst : t.isDirFirstBlock = false ↔
      ∀ j < 21, InUse d (512 * b + 24 * j) → nameAt d (512 * b + 24 * j) ≠ dotText := by
    rw [← Bool.not_eq_true, h.first]
    push Not
    rfl
  rw [AloneAt, hfirst, h.cnt, Finset.card_eq_one, and_comm]
  refine and_congr_right fun _ => ⟨?_, fun honly => ⟨i, ?_⟩⟩
  · rintro ⟨x, hx⟩ j hj huse hproper
    have hj' : j ∈ (Finset.range 21).filter (CountsAt d b) := by
      simp only [Finset.mem_filter, Finset.mem_range]
      exact ⟨hj, huse, hproper⟩
    rw [hx, Finset.mem_singleton] at hmem hj'
    rw [hj', hmem]
  · ext j
    simp only [Finset.mem_filter, Finset.mem_range, Finset.mem_singleton]
    exact ⟨fun hj => honly j hj.1 hj.2.1 hj.2.2, fun hj => hj ▸ ⟨hi, hcounts⟩⟩

theorem Tallied.pos {t : Tally} (h : Tallied d b no 21 t) (hi : i < 21)
    (hnames : NamesAt d no (512 * b + 24 * i)) : 1 ≤ t.dirEntryCnt := by
  rw [h.cnt]
  exact Finset.card_pos.mpr ⟨i, by simp [hi, CountsAt, hnames.1, hnames.2.1]⟩

end Tally

/-! ### `delete_dir_entry` -/

/-- A directory names a number at most once. -/
def NamesOnce (d : Disk) (n : Inode) (no : Nat) : Prop :=
  ∀ x ∈ slots d n, ∀ y ∈ slots d n, NamesAt d no x → NamesAt d no y → x = y

/-- What `delete_dir_entry` may do: nothing when no entry has the number, or take out the one
that has it. -/
structure TakesOut (s : Fs) (a no : Nat) (Q : Bool → Fs → Prop) : Prop where
  missing : (∀ x ∈ slots s.disk (s.inodes a), ¬ NamesAt s.disk no x) → Q false s
  clear : ∀ k i, k < 140 → own s.disk (s.inodes a) k ≠ 0 → i < 21 →
    NamesAt s.disk no (512 * own s.disk (s.inodes a) k + 24 * i) →
    ¬ AloneAt s.disk (own s.disk (s.inodes a) k) i →
    Q true ((s.slotCleared a (512 * own s.disk (s.inodes a) k + 24 * i)).writtenBack a)
  drop : ∀ k i, k < 12 → own s.disk (s.inodes a) k ≠ 0 → i < 21 →
    NamesAt s.disk no (512 * own s.disk (s.inodes a) k + 24 * i) →
    AloneAt s.disk (own s.disk (s.inodes a) k) i → Q true ((s.blockDropped a k).writtenBack a)

/-- The end of a removal: the size goes down and the inode is written back. -/
theorem wp_shrink {s₁ : Fs} (hpart : s₁.part.TableFits) {n : Inode} (hn : s₁.inodes a = n)
    (hsize : 24 ≤ n.iSize.toNat) {Q : Unit → Fs → Prop}
    (h : Q () ((s₁.withInode a { n with iSize := n.iSize - 24 }).writtenBack a)) :
    Prog.wp E (do
      let inode := (← (get : FsM Fs)).inodes a
      assertFs (24 ≤ inode.iSize.toNat) "delete_dir_entry" "dir_inode->i_size >= dir_entry_size"
      putInode a { inode with iSize := inode.iSize - UInt32.ofNat 24 }
      inodeSync ((← (get : FsM Fs)).inodes a) (fun _ => 0)) Q s₁ := by
  refine Prog.wp_get_bind (Prog.wp_bind (wp_assert (by rw [hn]; exact hsize)
    (Prog.wp_bind (wp_putInode (Prog.wp_get_bind (wp_syncInode (by exact hpart) ?_))))))
  rw [hn]
  exact h

/-- A slot of zeros that is written through its sector. -/
theorem fill_window (d : Disk) (base : Nat) (buf : Mem) (hi : i < 21) :
    d.splice base ((buf.splice 0 (d.drop base) 512).fill (24 * i) 0 24) 512
      = d.splice (base + 24 * i) (fun _ => 0) 24 :=
  Mem.splice_window d buf (fun _ => 0) (by omega)

/-- The entry of slot `i` goes.  Panics and worse are allowed where the third loop would be
reached. -/
theorem wp_removeEntry (hs : OnDrive s.part) (hsize : 24 ≤ (s.inodes a).iSize.toNat) {t : Tally}
    (hk : k < 140) (hdata : InData s.part (own s.disk (s.inodes a) k))
    (hdrive : own s.disk (s.inodes a) k ≤ maxLba) (hne : own s.disk (s.inodes a) k ≠ 0)
    (hi : i < 21) (ht : Tallied s.disk (own s.disk (s.inodes a) k) no 21 t)
    (hnames : NamesAt s.disk no (512 * own s.disk (s.inodes a) k + 24 * i))
    (hhang : (AloneAt s.disk (own s.disk (s.inodes a) k) i → k < 12) ∨ ∀ e, E e) (buf : Mem)
    {Q : Bool → Fs → Prop} (h : TakesOut s a no Q) :
    Prog.wp E (removeEntry a (dirBlocks s.disk (s.inodes a)) k
      (buf.splice 0 (s.disk.drop (512 * own s.disk (s.inodes a) k)) 512) t i)
      (fun _ s' => Q true s') s := by
  have hown := own_of_lt (d := s.disk) (n := s.inodes a) hk
  refine Prog.wp_get_bind (Prog.wp_bind (wp_assert (ht.pos hi hnames) ?_))
  rw [hs.ordered.entrySize]
  refine Prog.wp_ite (fun halone => ?_) fun halone => ?_
  · have halone := (ht.alone_iff hi hnames).mp halone
    refine Prog.wp_bind (wp_giveBlock hs (hown ▸ hdata) (hown ▸ hdrive) ?_)
    refine Prog.wp_ite (fun hlt => ?_) fun hge => ?_
    · refine Prog.wp_get_bind (Prog.wp_bind (wp_putInode ?_))
      refine wp_shrink (by exact ⟨hs.fits.table, hs.fits.drive⟩) (withInode_self ..)
        (by exact hsize) ?_
      rw [withInode_withInode, changeBlock_inodes, ← hown]
      exact h.drop k i hlt hne hi hnames halone
    · refine Prog.wp_bind (Prog.wp_lift (fun _ he => absurd he (by simp)) fun e _ => ?_)
      exact hhang.elim (fun h12 => absurd (h12 halone) hge) fun hE => hE e
  · have halone := fun hc => halone ((ht.alone_iff hi hnames).mpr hc)
    rw [← hown]
    refine Prog.wp_bind (wp_write hdrive ?_)
    refine wp_shrink (by exact hs.fits) (by rfl) (by exact hsize) ?_
    rw [DirEntry.size, fill_window _ _ _ hi]
    exact h.clear k i hk hne hi hnames halone

/-- Without a table all blocks are direct. -/
theorem lt_of_sector12 (h12 : n.sector 12 = 0) (hk : k < 140) (hne : own d n k ≠ 0) : k < 12 := by
  by_contra hge
  refine hne ?_
  rw [own_of_lt hk, dirBlocks, if_neg hge, if_neg fun hc => hc.2 h12]
  rfl

section Delete

variable (hs : OnDrive s.part) (ho : OwnBlocks s.part s.disk (s.inodes a))
  (hsize : 24 ≤ (s.inodes a).iSize.toNat)
include hs ho hsize

theorem wp_deleteLoop (honce : NamesOnce s.disk (s.inodes a) no)
    (hhang : (s.inodes a).sector 12 = 0 ∨ ∀ e, E e) {Q : Bool → Fs → Prop}
    (h : TakesOut s a no Q) : ∀ (m k : Nat), k + m = 140 →
      (∀ j < k, own s.disk (s.inodes a) j ≠ 0 → ∀ i < 21,
        ¬ NamesAt s.disk no (512 * own s.disk (s.inodes a) j + 24 * i)) →
      Prog.wp E (deleteLoop a no (dirBlocks s.disk (s.inodes a)) m k) Q s := by
  intro m
  induction m with
  | zero =>
      intro k hk hnone
      refine Prog.wp_pure (h.missing fun x hx => ?_)
      obtain ⟨j, i, hj, hne, hi, rfl⟩ := mem_slots_own.mp hx
      exact hnone j (by omega) hne i hi
  | succ m ih =>
      intro k hk hnone
      have hown := own_of_lt (d := s.disk) (n := s.inodes a) (k := k) (by omega)
      have hnext : (own s.disk (s.inodes a) k ≠ 0 → ∀ i < 21,
          ¬ NamesAt s.disk no (512 * own s.disk (s.inodes a) k + 24 * i)) →
          Prog.wp E (deleteLoop a no (dirBlocks s.disk (s.inodes a)) m (k + 1)) Q s := by
        intro hhere
        refine ih (k + 1) (by omega) fun j hj => ?_
        by_cases hjk : j = k
        · exact hjk ▸ hhere
        · exact hnone j (by omega)
      refine Prog.wp_ite (fun hzero => hnext fun hne => ?_) fun hzero => ?_
      · exact absurd hzero ((own_ne_zero (by omega)).mp hne)
      · have hne := (own_ne_zero (d := s.disk) (n := s.inodes a) (k := k) (by omega)).mpr hzero
        have hused := ho.used k (by omega) hne
        refine Prog.wp_get_bind ?_
        rw [hs.ordered.entrySize, ← hown]
        refine Prog.wp_bind (wp_read hused.drive (Prog.wp_bind ?_))
        rcases tallyBlock_cases (fun _ => 0) 21 0 ⟨false, 0, none⟩ rfl (Tallied.start _ _ _) with
          ⟨t, hrun, ht⟩ | ⟨-, i, hi, j, hj, hij, hni, hnj⟩
        swap
        · have := honce _ (mem_slots_own.mpr ⟨k, i, by omega, hne, hi, rfl⟩) _
            (mem_slots_own.mpr ⟨k, j, by omega, hne, hj, rfl⟩) hni hnj
          omega
        refine Prog.wp_of_run (Prog.lift_run.mpr ⟨hrun, rfl⟩) ?_
        cases hfound : t.dirEntryFound with
        | none =>
            refine hnext fun _ i hi hni => ?_
            have := (ht.found i).mpr ⟨hi, hni⟩
            rw [hfound] at this
            exact absurd this (by simp)
        | some i =>
            obtain ⟨hi, hnames⟩ := (ht.found i).mp hfound
            have hdirect : (AloneAt s.disk (own s.disk (s.inodes a) k) i → k < 12) ∨ ∀ e, E e :=
              hhang.imp_left fun h12 _ => lt_of_sector12 h12 (by omega) hne
            refine Prog.wp_bind (Prog.wp_mono (wp_removeEntry hs hsize (by omega)
              ⟨hused.data, hused.bit⟩ hused.drive hne hi ht hnames hdirect (fun _ => 0) h)
              fun _ s' hQ => Prog.wp_pure hQ)

/-- `delete_dir_entry` takes out the entry with the number, if there is one. -/
theorem wp_deleteDirEntry (honce : NamesOnce s.disk (s.inodes a) no)
    (hhang : (s.inodes a).sector 12 = 0 ∨ ∀ e, E e) {Q : Bool → Fs → Prop}
    (h : TakesOut s a no Q) : Prog.wp E (deleteDirEntry a no) Q s := by
  refine Prog.wp_get_bind ?_
  by_cases h12 : (s.inodes a).sector 12 = 0
  · rw [if_neg (by simpa using h12), directBlocks_eq_dirBlocks s.disk h12]
    exact wp_deleteLoop hs ho hsize honce hhang h 140 0 rfl fun j hj => absurd hj (by omega)
  · rw [if_pos h12]
    have hused := ho.used 140 le_rfl (by rw [own_table]; exact toNat_ne_zero.mpr h12)
    rw [own_table] at hused
    refine Prog.wp_bind (wp_read (show ((s.inodes a).sector 12).toNat ≤ maxLba from hused.drive) ?_)
    rw [withTable_eq s.disk h12]
    exact wp_deleteLoop hs ho hsize honce hhang h 140 0 rfl fun j hj => absurd hj (by omega)

end Delete

end ZyOs
