/-
`sys_rmdir` and the entry of the directory it removes.

The directory is found by walking along the path, and its entry is looked for, by number,
in the directory the walk came from.  For a path that ends in `.` that is the directory
itself, which does not name itself: the inode goes, and the entry in the parent stays.
For a path of slashes alone, more than one, the directory is the one whose number was on
the stack, and its entry is looked for in the root.  The last way to go wrong is in
`inode_sync`: a parent with a number from 256 on is written into a slot that is not its own.
-/
import ZyOs.Proofs.Release
import ZyOs.Proofs.Getcwd
import ZyOs.Proofs.SamePath

namespace ZyOs

open Library

/-- The directory `no` is gone: the entry that named it was taken out of its parent, every other
entry is still there, and what the entries name is allocated. -/
structure Unlinked (s s' : Fs) (t : Tree) (no : Nat) : Prop where
  dir : no ∈ t.dirs
  freed : s'.part.inodeBitmap.bitmapScanTest no = false
  entry : ∃ e ∈ dirEntries s (t.parent no), Proper e.name ∧ e.iNo = no ∧
    (dirEntries s (t.parent no)).Perm (e :: dirEntries s' (t.parent no))
  others : ∀ d ∈ t.dirs, d ≠ no → d ≠ t.parent no → (dirEntries s' d).Perm (dirEntries s d)
  live : ∀ d ∈ t.dirs, d ≠ no → ∀ e ∈ dirEntries s' d, Proper e.name →
    s'.part.inodeBitmap.bitmapScanTest e.iNo = true

/-- Writing the parent `p` back after `no` was taken out does no harm: it goes into its own slot,
or what is written elsewhere is not a directory's and the slot did not have to change. -/
def BackInPlace (s : Fs) (t : Tree) (p no : Nat) : Prop :=
  p < 256 ∨ (¬ AloneIn s.disk (diskInode s p) no ∧ (p % 256 ∉ t.dirs ∨ p % 256 = no))

variable {env : FsEnv} {s₀ s s' : Fs} {t : Tree} {p no a b : Nat} {e : Entry}

theorem Unlinked.congr {s'' : Fs} (h : Unlinked s s' t no) (hdisk : s''.disk = s'.disk)
    (hpart : s''.part = s'.part) : Unlinked s s'' t no := by
  have hent := dirEntries_congr hdisk hpart
  refine ⟨h.dir, by rw [hpart]; exact h.freed, ?_, ?_, ?_⟩
  · rw [hent]
    exact h.entry
  · intro d
    rw [hent]
    exact h.others d
  · intro d
    rw [hent, hpart]
    exact h.live d

/-! ### What a tree in order gives -/

theorem Orderly.congr (h : Orderly s t) (hdisk : s'.disk = s.disk) (hpart : s'.part = s.part)
    (htree : DirTree s' t) : Orderly s' t := by
  refine ⟨htree, h.volume.congr hdisk hpart, ?_, ?_⟩
  · intro d hd
    rw [diskInode_congr hdisk hpart, dirEntries_congr hdisk hpart]
    exact h.size d hd
  · rw [diskInode_congr hdisk hpart, hpart]
    exact h.rootBlock

theorem DirTree.parent_ne (h : DirTree s t) (hd : no ∈ t.dirs) (h0 : no ≠ 0) :
    t.parent no ≠ no := by
  intro heq
  have := (h.parents no hd h0).2
  rw [heq] at this
  omega

/-- A directory names a number at most once. -/
theorem DirTree.namesOnce (h : DirTree s t) (hp : p ∈ t.dirs) :
    NamesOnce s.disk (diskInode s p) no := by
  intro x hx y hy hnx hny
  have heq := (h.linked p hp p hp _ (hnx.mem_entries hx) _ (hny.mem_entries hy) hnx.2.1 hny.2.1
    (hnx.2.2.trans hny.2.2.symm)).2
  exact slot_of_name (h.nodup p hp) hx hy hnx.1 hny.1 (congrArg Entry.name heq)

/-- `.` and `..` alone make 48 bytes. -/
theorem Orderly.two_le (h : Orderly s t) (hd : p ∈ t.dirs) : 2 ≤ (dirEntries s p).length := by
  have hsub : [dotText, dotdotText] ⊆ (dirEntries s p).map Entry.name := by
    intro n hn
    simp only [List.mem_cons, List.not_mem_nil, or_false] at hn
    rcases hn with rfl | rfl
    · exact List.mem_map.mpr ⟨_, h.tree.mem_dot hd, rfl⟩
    · exact List.mem_map.mpr ⟨_, h.tree.mem_dotdot hd, rfl⟩
  have hlen := (List.subperm_of_subset (by decide : [dotText, dotdotText].Nodup) hsub).length_le
  simpa using hlen

theorem Orderly.size_le (h : Orderly s t) (hd : p ∈ t.dirs) :
    24 ≤ (diskInode s p).iSize.toNat := by
  rw [h.size p hd]
  have := h.two_le hd
  omega

/-- A directory of 48 bytes has no other entry. -/
theorem Orderly.no_entry (h : Orderly s t) (hd : no ∈ t.dirs) (hsize : (diskInode s no).iSize = 48)
    (he : e ∈ dirEntries s no) : ¬ Proper e.name := by
  intro hproper
  have hsub : [e.name, dotText, dotdotText] ⊆ (dirEntries s no).map Entry.name := by
    intro n hn
    simp only [List.mem_cons, List.not_mem_nil, or_false] at hn
    rcases hn with rfl | rfl | rfl
    · exact List.mem_map.mpr ⟨e, he, rfl⟩
    · exact List.mem_map.mpr ⟨_, h.tree.mem_dot hd, rfl⟩
    · exact List.mem_map.mpr ⟨_, h.tree.mem_dotdot hd, rfl⟩
  have hnd : [e.name, dotText, dotdotText].Nodup := by
    simp only [List.nodup_cons, List.mem_cons, List.not_mem_nil, or_false, not_or,
      not_false_eq_true, List.nodup_nil, and_true]
    exact ⟨hproper, by decide⟩
  have hlen := (List.subperm_of_subset hnd hsub).length_le
  have h48 := h.size no hd
  rw [hsize, show (48 : UInt32).toNat = 48 from rfl] at h48
  simp only [List.length_cons, List.length_nil, List.length_map] at hlen
  omega

/-- The blocks of anything but the root can be given back. -/
theorem Orderly.releasable (h : Orderly s t) (hno : no ∈ t.dirs ∪ t.files) (h0 : no ≠ 0)
    {n : Inode} (hn : Inode.Same n (diskInode s no)) {lba : Nat} (hown : OwnedBy s.disk n lba) :
    Releasable s.part lba := by
  obtain ⟨k, hk, hne, rfl⟩ := hown
  rw [own_congr hn] at hne ⊢
  have hused := (h.volume.owns no hno).used k hk hne
  have hdata := hused.data
  have hroot := h.volume.apart no hno 0 (Finset.mem_union_left _ h.tree.root) h0 k hk 0
    (by omega) hne
  rw [own_direct s.disk (diskInode s 0) (by omega), h.rootBlock] at hroot
  exact ⟨by omega, hused.bit, hused.drive⟩

theorem alone_congr {n n' : Inode} (hn : Inode.Same n n') {d : Disk} {m : Nat} :
    AloneIn d n m ↔ AloneIn d n' m := by
  unfold AloneIn
  rw [own_congr hn]

/-! ### After the release -/

section After

variable {s₁ s₂ s₃ : Fs} {n : Inode} (h : Orderly s t)
include h

/-- Only the number that was released has lost its bit. -/
theorem Orderly.unlinked_number (hbits : s'.part.inodeBitmap
      = s.part.inodeBitmap.bitmapSet no false) {m : Nat} (hu : Unlinked s s' t m) : m = no := by
  by_contra hne
  have hfreed := hu.freed
  rw [hbits, Bitmap.scanTest_set, if_neg hne,
    h.volume.bit m (Finset.mem_union_left _ hu.dir)] at hfreed
  exact absurd hfreed (by simp)

variable (hno : no ∈ t.dirs)
include hno

/-- When no entry was taken out, the one in the parent is left without its directory. -/
theorem Orderly.not_unlinked (h0 : no ≠ 0) (hdisk : s₁.disk = s.disk) (hpart : s₁.part = s.part)
    (hrel : Releases s₁ s₂ no n) (m : Nat) : ¬ Unlinked s s₂ t m := by
  intro hu
  have hbits : s₂.part.inodeBitmap = s.part.inodeBitmap.bitmapSet no false := by
    rw [hrel.inodeBitmap, hpart]
  obtain rfl := h.unlinked_number hbits hu
  have hparent := (h.tree.parents m hno h0).1
  have hpne := h.tree.parent_ne hno h0
  have hv₁ := h.volume.congr hdisk hpart
  have hkept := hrel.kept hv₁.drive.ordered (h.tree.isDir hno).1 hpne
    (hv₁.owns _ (Finset.mem_union_left _ hparent))
  obtain ⟨e, he, hproper, rfl⟩ := h.tree.named m hno h0
  have hlive := hu.live _ hparent hpne e
    (by rw [hkept.dirEntries, dirEntries_congr hdisk hpart]; exact he) hproper
  rw [hu.freed] at hlive
  exact absurd hlive (by simp)

/-- The entry is gone from the parent, and nothing else changed in the tree. -/
theorem Orderly.unlinked_of (hp : p ∈ t.dirs) (hpp : p = t.parent no) (hpne : p ≠ no)
    (he : e ∈ dirEntries s p) (hproper : Proper e.name) (heno : e.iNo = no)
    (hbits : s'.part.inodeBitmap = s.part.inodeBitmap.bitmapSet no false)
    (hperm : (dirEntries s p).Perm (e :: dirEntries s' p))
    (hkept : ∀ d ∈ t.dirs, d ≠ no → d ≠ p → dirEntries s' d = dirEntries s d) :
    Unlinked s s' t no := by
  refine ⟨hno, ?_, ?_, ?_, ?_⟩
  · rw [hbits, Bitmap.scanTest_set, if_pos rfl]
  · exact hpp ▸ ⟨e, he, hproper, heno, hperm⟩
  · intro d hd hdno hdp
    rw [hkept d hd hdno (hpp ▸ hdp)]
  · intro d hd hdno e' he' hproper'
    -- nothing that is left names the directory
    have hmem : e' ∈ dirEntries s d ∧ (d = p → e' ≠ e) := by
      by_cases hdp : d = p
      · subst hdp
        refine ⟨hperm.symm.subset (List.mem_cons_of_mem _ he'), fun _ heq => ?_⟩
        have hnd := (hperm.map Entry.name).nodup_iff.mp (h.tree.nodup d hd)
        rw [List.map_cons, List.nodup_cons] at hnd
        exact hnd.1 (List.mem_map.mpr ⟨e', he', by rw [heq]⟩)
      · exact ⟨hkept d hd hdno hdp ▸ he', fun hc => absurd hc hdp⟩
    have hne : e'.iNo ≠ no := by
      intro heq
      obtain ⟨hdp, hee⟩ := h.tree.linked d hd p hp e' hmem.1 e he hproper' hproper
        (heq.trans heno.symm)
      exact hmem.2 hdp hee
    rw [hbits, Bitmap.scanTest_set, if_neg hne]
    refine h.volume.bit _ ?_
    rcases h.tree.entry_cases hd hmem.1 with ⟨-, hin⟩ | ⟨-, hin⟩
    · exact Finset.mem_union_left _ hin
    · exact Finset.mem_union_right _ hin

/-- What the release does to a directory that stays. -/
theorem Orderly.dirEntries_released {w : Fs} (hdrive : OnDrive w.part) (hdisk : s₂.disk = w.disk)
    (hpart : s₂.part = w.part) (hrel : Releases s₂ s₃ no n) {d : Nat} (hd : d ≠ no)
    (howns : OwnBlocks w.part w.disk (diskInode w d)) :
    dirEntries s₃ d = dirEntries w d := by
  have hord : s₂.part.Ordered := by rw [hpart]; exact hdrive.ordered
  rw [(hrel.kept hord (h.tree.isDir hno).1 hd (by
    rw [hpart, hdisk, diskInode_congr hdisk hpart]; exact howns)).dirEntries,
    dirEntries_congr hdisk hpart]

omit h hno in
/-- The slot that was written back to holds the inode of the parent. -/
theorem Edited.slot_writtenBack {nos : Finset Nat} (h : Edited s s₁ nos p a)
    (hp : (s.inodes a).iNo.toNat = p) :
    Inode.Same (diskInode (s₁.writtenBack a) (p % 256)) (s₁.inodes a) := by
  have hslot := diskInode_slot s₁ (p % 256) (s₁.inodes a).pureMem
  rw [← hp, ← h.iNo] at hslot ⊢
  exact (show diskInode (s₁.writtenBack a) ((s₁.inodes a).iNo.toNat % 256) = _ from hslot) ▸
    (s₁.inodes a).same_pureMem

/-- A directory whose slot got the parent's inode shows the parent's entries. -/
theorem Orderly.copy_linked (hp : p ∈ t.dirs) (hpp : p = t.parent no) (h256 : ¬ p < 256)
    (hsame : Inode.Same (s.inodes a) (diskInode s p))
    (hout : TakenOut s s₁ (t.dirs ∪ t.files) p a e)
    (hdisk : s₂.disk = (s₁.writtenBack a).disk) (hpart : s₂.part = (s₁.writtenBack a).part)
    (hrel : Releases s₂ s₃ no n) (hq : p % 256 ∈ t.dirs) (hqno : p % 256 ≠ no) :
    ¬ Unlinked s s₃ t no := by
  intro hu
  have hedit := hout.edited
  have hpno := h.volume.iNo (Finset.mem_union_left _ hp) hsame
  have hqp : p % 256 ≠ p := by omega
  have hslot := hedit.slot_writtenBack hpno
  have huw := hedit.untouched hedit.owns
  have hbody := (hedit.body _ ((h.tree.body hp).congr hsame.symm)).untouched huw
  have hdot : (⟨dotText, p, ftDirectory⟩ : Entry) ∈ dirEntries s₃ (p % 256) := by
    rw [h.dirEntries_released (w := s₁.writtenBack a) hno hedit.drive hdisk hpart hrel hqno
      ((hedit.owns.untouched huw).congr hslot.symm), dirEntries, entries_congr hslot]
    exact mem_entries.mpr ⟨_, hbody.mem_first (i := 0) (by omega), hbody.inUse_dot, hbody.dot⟩
  have hold := (hu.others _ hq hqno (hpp ▸ hqp)).subset hdot
  have := (h.tree.look_eq hq hold).symm.trans (h.tree.look_dot hq)
  simp only [Option.some.injEq, Entry.mk.injEq, true_and, and_true] at this
  omega

/-- **The entry of a removed directory goes cleanly exactly when its parent is written back in
place.** -/
theorem Orderly.unlinked_iff (hpne : p ≠ no) (hp : p ∈ t.dirs) (hpp : p = t.parent no)
    (hsame : Inode.Same (s.inodes a) (diskInode s p))
    (hout : TakenOut s s₁ (t.dirs ∪ t.files) p a e) (heno : e.iNo = no)
    (hdisk : s₂.disk = (s₁.writtenBack a).disk) (hpart : s₂.part = (s₁.writtenBack a).part)
    (hrel : Releases s₂ s₃ no n) : (∃ m, Unlinked s s₃ t m) ↔ BackInPlace s t p no := by
  have hedit := hout.edited
  have hpin : p ∈ t.dirs ∪ t.files := Finset.mem_union_left _ hp
  have hpno := h.volume.iNo hpin hsame
  have hstep := fun {d : Nat} => h.dirEntries_released (w := s₁.writtenBack a) hno (d := d)
    hedit.drive hdisk hpart hrel
  have hbits : s₃.part.inodeBitmap = s.part.inodeBitmap.bitmapSet no false := by
    rw [hrel.inodeBitmap, hpart]
    exact congrArg (fun b : Bitmap => b.bitmapSet no false) hedit.inodeBitmap
  have hin : e ∈ dirEntries s p := by
    rw [dirEntries, ← entries_congr hsame]
    exact hout.mem
  have hperm : (dirEntries s p).Perm (e :: entries s₁.disk (s₁.inodes a)) := by
    rw [dirEntries, ← entries_congr hsame]
    exact hout.perm
  -- a directory that is neither the parent nor in the slot that was written
  have hkept : ∀ d ∈ t.dirs, d ≠ no → d ≠ p → d ≠ p % 256 → dirEntries s₃ d = dirEntries s d := by
    intro d hd hdno hdp hdq
    have hd' := Finset.mem_union_left t.files hd
    have hk := hedit.kept_writtenBack hpno hd' hdp hdq
    rw [hstep hdno, hk.dirEntries]
    have := (hedit.used d hd' hdp).untouched (hedit.untouched (hedit.used d hd' hdp))
    rwa [hk.inode, ← (hedit.kept d hd' hdp).inode]
  by_cases h256 : p < 256
  · refine ⟨fun _ => .inl h256, fun _ => ⟨no, ?_⟩⟩
    have hmod : p % 256 = p := Nat.mod_eq_of_lt h256
    refine h.unlinked_of hno hp hpp hpne hin hout.proper heno hbits ?_ fun d hd hdno hdp =>
      hkept d hd hdno hdp (by rwa [hmod])
    rw [hstep hpne ((hedit.volume h.volume hpno h256).owns p hpin), hedit.dirEntries hpno h256]
    exact hperm
  · -- the slot of the parent is as it was
    have hstale : diskInode (s₁.writtenBack a) p = diskInode s p :=
      (hedit.diskInode_writtenBack hpno (by omega)).trans hedit.slot
    have hcopy : p % 256 ∈ t.dirs → p % 256 ≠ no → ¬ Unlinked s s₃ t no :=
      fun hq hqno => h.copy_linked hno hp hpp h256 hsame hout hdisk hpart hrel hq hqno
    rcases hout.how with ⟨halone, -, addr, -, -, hs₁⟩ | ⟨halone, k, hk, hk0, hs₁⟩
    · rw [heno, alone_congr hsame] at halone
      constructor
      · rintro ⟨m, hu⟩
        obtain rfl := h.unlinked_number hbits hu
        refine .inr ⟨halone, ?_⟩
        by_contra hc
        push Not at hc
        exact hcopy hc.1 hc.2 hu
      · rintro (hlt | ⟨-, hq⟩)
        · exact absurd hlt h256
        refine ⟨no, h.unlinked_of hno hp hpp hpne hin hout.proper heno hbits ?_
          fun d hd hdno hdp => hkept d hd hdno hdp ?_⟩
        · have hinode : s₁.inodes a = { s.inodes a with iSize := (s.inodes a).iSize - 24 } := by
            rw [hs₁]
            exact withInode_self ..
          have howns : OwnBlocks s₁.part s₁.disk (diskInode s p) := by
            have := hedit.owns
            rw [hinode] at this
            exact OwnBlocks.congr (n := s.inodes a) ⟨this.used, this.inj⟩ hsame
          have hu := hedit.untouched howns
          have hent : dirEntries s₃ p = entries s₁.disk (s.inodes a) := by
            rw [hstep hpne (by rw [hstale]; exact howns.untouched hu), dirEntries, hstale,
              hu.entries, ← entries_congr hsame]
          rw [hent]
          rw [hinode] at hperm
          exact hperm
        · rintro rfl
          rcases hq with hq | hq
          · exact hq hd
          · exact hdno hq
    · rw [heno, alone_congr hsame] at halone
      refine ⟨fun hex => ?_, fun hb => ?_⟩
      · -- the block is free, but the slot still lists it
        obtain ⟨m, hu⟩ := hex
        obtain rfl := h.unlinked_number hbits hu
        have hord : s₂.part.Ordered := by rw [hpart]; exact hedit.drive.ordered
        have hsb : s₂.part.sb = s.part.sb := by rw [hpart]; exact hedit.sb
        have hbit : own s.disk (s.inodes a) k - s.part.sb.dataStartLba
            < 8 * s.part.blockBitmap.bmapBytesLen :=
          ((h.volume.ownBlocks hpin hsame).used k (by omega) hk0).bit
        have hdata : ∀ x, 512 * s.part.sb.dataStartLba ≤ x → s₃.disk x = s.disk x := by
          intro x hx
          have htable := h.volume.drive.ordered.table
          rw [hrel.data hord (h.tree.isDir hno).1 x (by rw [hsb]; exact hx), hdisk,
            writtenBack_data hedit.drive.ordered a x (by rw [hedit.sb]; exact hx), hs₁]
          exact changeBlock_front h.volume.drive.ordered hbit false x (by omega)
        have hinode : diskInode s₃ p = diskInode s p := by
          rw [hrel.diskInode_ne hpne, diskInode_congr hdisk hpart, hstale]
        have hsameEnt : dirEntries s₃ p = dirEntries s p := by
          rw [dirEntries, dirEntries, hinode, (Untouched.of_front hdata fun j hj hj0 =>
            (h.volume.owns p hpin).data hj hj0).entries]
        obtain ⟨e', -, -, -, hperm'⟩ := hu.entry
        have hlen := hperm'.length_eq
        rw [← hpp, hsameEnt, List.length_cons] at hlen
        omega
      · rcases hb with hlt | ⟨hnot, -⟩
        · exact absurd hlt h256
        · exact absurd halone hnot

end After

/-! ### `dir_remove` -/

theorem Unlinked.congr_before (h : Unlinked s s' t no) (hdisk : s₀.disk = s.disk)
    (hpart : s₀.part = s.part) : Unlinked s₀ s' t no := by
  have hent := dirEntries_congr hdisk hpart
  refine ⟨h.dir, h.freed, ?_, ?_, h.live⟩
  · rw [hent]
    exact h.entry
  · intro d
    rw [hent d]
    exact h.others d

/-- A directory that is held is open. -/
theorem Held.inode_mem {d : DirPtr} {held : List Nat} (h : Held s₀ s held)
    (hd : ∀ x ∈ d.opens, x ∈ held) (ht : DirTree s t) : d.inode s ∈ s.openInodes := by
  obtain ⟨_, h⟩ := h
  cases d with
  | root => exact ht.rootOpen
  | opened a => exact h.held a (hd a (List.mem_singleton.mpr rfl))

/-- `dir_close` leaves the drive alone. -/
theorem wp_dirClose {E : Halt → Prop} {d : DirPtr} {Q : Unit → Fs → Prop}
    (h : ∀ s', s'.disk = s.disk → s'.part = s.part → Q () s') : Prog.wp E (dirClose d) Q s := by
  cases d with
  | root => exact Prog.wp_pure (h s rfl rfl)
  | opened a =>
      obtain ⟨-, -, -, -, hdisk, hpart⟩ := closed_rest s a
      exact Prog.wp_of_run (inodeClose_run a s) (h _ hdisk hpart)

/-- An inode on `open_inodes` is found by its number. -/
theorem exists_findOpen {inodes : Nat → Inode} {l : List Nat} (hb : b ∈ l)
    (hno : (inodes b).iNo.toNat = no) : ∃ c, findOpen inodes no l = some c := by
  cases hfind : findOpen inodes no l with
  | some c => exact ⟨c, rfl⟩
  | none => exact absurd hno (findOpen_none hfind b hb)

/-- `inode_release` of a file or directory that is open. -/
theorem Orderly.wp_release (h : Orderly s t) (hno : no ∈ t.dirs ∪ t.files) (h0 : no ≠ 0)
    (hdrive : OnDrive s'.part) (hsb : s'.part.sb = s.part.sb)
    (hlen : s'.part.blockBitmap.bmapBytesLen = s.part.blockBitmap.bmapBytesLen)
    (hb : b ∈ s'.openInodes) (hbno : (s'.inodes b).iNo.toNat = no)
    (hsame : ∀ c ∈ s'.openInodes, (s'.inodes c).iNo.toNat = no →
      Inode.Same (s'.inodes c) (diskInode s no))
    (hown : own s'.disk (diskInode s no) = own s.disk (diskInode s no)) {Q : Unit → Fs → Prop}
    (hQ : ∀ s₁ s₂ s₃ n, s₁.disk = s'.disk → s₁.part = s'.part → Releases s₁ s₂ no n →
      s₃.disk = s₂.disk → s₃.part = s₂.part → Q () s₃) :
    Prog.wp (fun _ => True) (inodeRelease env no) Q s' := by
  obtain ⟨c, hfind⟩ := exists_findOpen hb hbno
  obtain ⟨hc, hcno⟩ := findOpen_some hfind
  have hcsame := hsame c hc hcno
  refine wp_inodeRelease hdrive (h.volume.number no hno).1 (inodeOpen_hit hfind)
    (by rw [withInode_self]; exact hcno) ?_ ?_
  · rintro lba ⟨k, hk, hne, rfl⟩
    have hs : Inode.Same ((s'.withInode c { s'.inodes c with
        iOpenCnts := (s'.inodes c).iOpenCnts + 1 }).inodes c) (diskInode s no) := by
      rw [withInode_self]
      exact hcsame.withCnts _
    rw [own_congr hs, hown] at hne ⊢
    exact (h.releasable hno h0 (Inode.Same.refl _) ⟨k, hk, hne, rfl⟩).congr hsb hlen
  · intro s₂ hrel
    obtain ⟨-, -, -, -, hdisk, hpart⟩ := closed_rest s₂ c
    exact hQ _ s₂ _ _ (by rfl) (by rfl) hrel hdisk hpart

theorem TakenOut.bmapBytesLen {nos : Finset Nat} (h : TakenOut s s' nos p a e) :
    s'.part.blockBitmap.bmapBytesLen = s.part.blockBitmap.bmapBytesLen := by
  rcases h.how with ⟨-, hpart, -⟩ | ⟨-, k, -, -, rfl⟩
  · rw [hpart]
  · rfl

/-- What `dir_remove` does to the open inode at `b` through the open directory at `a`: the entry
goes, if there is one, and then the inode. -/
theorem Orderly.wp_dirRemove_cases (h : Orderly s t) (hc : Cache s) (hp : p ∈ t.dirs)
    (hno : no ∈ t.dirs ∪ t.files) (h0 : no ≠ 0)
    (hsame : Inode.Same (s.inodes a) (diskInode s p)) (hb : b ∈ s.openInodes)
    (hbno : (s.inodes b).iNo.toNat = no) {Q : Int → Fs → Prop}
    (hmissing : ∀ s₁ s₂ s₃ n, (∀ e ∈ dirEntries s p, Proper e.name → e.iNo ≠ no) →
      s₁.disk = s.disk → s₁.part = s.part → Releases s₁ s₂ no n →
      s₃.disk = s₂.disk → s₃.part = s₂.part → Q 0 s₃)
    (htaken : ∀ s₁ s₂ s₃ s₄ e n, p ≠ no → TakenOut s s₁ (t.dirs ∪ t.files) p a e → e.iNo = no →
      e ∈ dirEntries s p → s₂.disk = (s₁.writtenBack a).disk →
      s₂.part = (s₁.writtenBack a).part → Releases s₂ s₃ no n →
      s₄.disk = s₃.disk → s₄.part = s₃.part → Q 0 s₄) :
    Prog.wp (fun _ => True) (dirRemove env a b) Q s := by
  have hpin : p ∈ t.dirs ∪ t.files := Finset.mem_union_left _ hp
  have hnd : ((entries s.disk (s.inodes a)).map Entry.name).Nodup := by
    rw [entries_congr hsame]
    exact h.tree.nodup p hp
  have honce : NamesOnce s.disk (s.inodes a) no := by
    have honce : NamesOnce s.disk (diskInode s p) no := h.tree.namesOnce hp
    rwa [NamesOnce, ← slots_congr hsame] at honce
  have hsize : 24 ≤ (s.inodes a).iSize.toNat := by
    rw [hsame.iSize]
    exact h.size_le hp
  refine Prog.wp_get_bind ?_
  refine Prog.wp_bind ((reads_checkFirstBlockOnly _ _ _).wp fun _ => ?_)
  rw [hbno]
  refine Prog.wp_bind (h.volume.wp_deleteDirEntry hpin hsame
    ((h.tree.body hp).congr hsame.symm) hnd honce hsize (.inr fun _ => trivial) ?_ ?_)
  · intro hnone
    rw [entries_congr hsame] at hnone
    refine Prog.wp_bind (h.wp_release hno h0 h.volume.drive rfl rfl hb hbno
      (fun c hcm hcno => hcno ▸ hc.same c hcm) rfl ?_)
    exact fun s₁ s₂ s₃ n hdisk hpart hrel hdisk₃ hpart₃ =>
      Prog.wp_pure (hmissing s₁ s₂ s₃ n hnone hdisk hpart hrel hdisk₃ hpart₃)
  · intro s₁ e hout heno
    have hedit := hout.edited
    have hin : e ∈ dirEntries s p := by
      rw [dirEntries, ← entries_congr hsame]
      exact hout.mem
    have hpne : p ≠ no := by
      rintro rfl
      rcases h.tree.kids p hp e hin hout.proper with hk | hk
      · exact h.tree.parent_ne hp h0 (heno ▸ hk.2.2.2)
      · exact Finset.disjoint_left.mp h.tree.apart hp (heno ▸ hk.2)
    have hpno := h.volume.iNo hpin hsame
    -- what is removed is where it was
    have hown : own (s₁.writtenBack a).disk (diskInode s no) = own s.disk (diskInode s no) := by
      have hkept := hedit.kept no hno (Ne.symm hpne)
      have hu := hkept.blocks.trans
        (hedit.untouched (hkept.inode ▸ hedit.used no hno (Ne.symm hpne)))
      exact hu.own
    have hinodes : ∀ c ∈ s₁.openInodes, (s₁.inodes c).iNo.toNat = no →
        Inode.Same (s₁.inodes c) (diskInode s no) := by
      intro c hcm hcno
      have hca : c ≠ a := by
        rintro rfl
        rw [hedit.iNo, hpno] at hcno
        exact hpne hcno
      rw [hedit.rest.inodes c hca] at hcno ⊢
      rw [hedit.rest.openInodes] at hcm
      exact hcno ▸ hc.same c hcm
    have hba : b ≠ a := by
      rintro rfl
      exact hpne (hpno.symm.trans hbno)
    have hbmem : b ∈ (s₁.writtenBack a).openInodes :=
      show b ∈ s₁.openInodes by rw [hedit.rest.openInodes]; exact hb
    have hbno₁ : ((s₁.writtenBack a).inodes b).iNo.toNat = no :=
      show (s₁.inodes b).iNo.toNat = no by rw [hedit.rest.inodes b hba]; exact hbno
    have hdrive : OnDrive (s₁.writtenBack a).part := hedit.drive
    refine Prog.wp_bind (h.wp_release hno h0 hdrive hedit.sb
      hout.bmapBytesLen hbmem hbno₁ hinodes hown ?_)
    exact fun s₂ s₃ s₄ n hdisk hpart hrel hdisk₄ hpart₄ => Prog.wp_pure
      (htaken s₁ s₂ s₃ s₄ e n hpne hout heno hin hdisk hpart hrel hdisk₄ hpart₄)

/-- `dir_remove` of the open directory at `b` through the open directory at `a`. -/
theorem Orderly.wp_dirRemove (h : Orderly s t) (hc : Cache s) (hp : p ∈ t.dirs) (hno : no ∈ t.dirs)
    (h0 : no ≠ 0) (hsame : Inode.Same (s.inodes a) (diskInode s p)) (hb : b ∈ s.openInodes)
    (hbno : (s.inodes b).iNo.toNat = no) :
    Prog.wp (fun _ => True) (dirRemove env a b) (fun r s' => r = 0 ∧
      ((∃ m, Unlinked s s' t m) ↔ p = t.parent no ∧ BackInPlace s t p no)) s := by
  refine h.wp_dirRemove_cases hc hp (Finset.mem_union_left _ hno) h0 hsame hb hbno ?_ ?_
  · -- the directory the walk came from does not name it
    intro s₁ s₂ s₃ n hnone hdisk hpart hrel hdisk₃ hpart₃
    refine ⟨rfl, ?_, ?_⟩
    · rintro ⟨m, hu⟩
      exact absurd (hu.congr hdisk₃.symm hpart₃.symm) (h.not_unlinked hno h0 hdisk hpart hrel m)
    · rintro ⟨rfl, -⟩
      obtain ⟨e, he, hproper, heno⟩ := h.tree.named no hno h0
      exact absurd heno (hnone e he hproper)
  · intro s₁ s₂ s₃ s₄ e n hpne hout heno hin hdisk hpart hrel hdisk₄ hpart₄
    obtain ⟨-, -, -, hparent⟩ := (h.tree.kids p hp e hin hout.proper).resolve_right fun hk =>
      Finset.disjoint_left.mp h.tree.apart hno (heno ▸ hk.2)
    rw [heno] at hparent
    have hiff := h.unlinked_iff hno hpne hp hparent.symm hsame hout heno hdisk hpart hrel
    refine ⟨rfl, ?_, ?_⟩
    · rintro ⟨m, hu⟩
      exact ⟨hparent.symm, hiff.mp ⟨m, hu.congr hdisk₄.symm hpart₄.symm⟩⟩
    · rintro ⟨-, hback⟩
      obtain ⟨m, hu⟩ := hiff.mpr hback
      exact ⟨m, hu.congr hdisk₄ hpart₄⟩

/-- `dir_remove` of a file frees no directory. -/
theorem Orderly.wp_dirRemove_file (h : Orderly s t) (hc : Cache s) (hp : p ∈ t.dirs)
    (hno : no ∈ t.files) (hsame : Inode.Same (s.inodes a) (diskInode s p)) (hb : b ∈ s.openInodes)
    (hbno : (s.inodes b).iNo.toNat = no) :
    Prog.wp (fun _ => True) (dirRemove env a b) (fun _ s' => ¬ ∃ m, Unlinked s s' t m) s := by
  have hfree : ∀ s', s'.part.inodeBitmap = s.part.inodeBitmap.bitmapSet no false →
      ¬ ∃ m, Unlinked s s' t m := by
    rintro s' hbits ⟨m, hu⟩
    obtain rfl := h.unlinked_number hbits hu
    exact Finset.disjoint_left.mp h.tree.apart hu.dir hno
  have h0 : no ≠ 0 := by
    rintro rfl
    exact Finset.disjoint_left.mp h.tree.apart h.tree.root hno
  refine h.wp_dirRemove_cases hc hp (Finset.mem_union_right _ hno) h0 hsame hb hbno ?_ ?_
  · intro s₁ s₂ s₃ n _ _ hpart hrel _ hpart₃
    exact hfree s₃ (by rw [hpart₃, hrel.inodeBitmap, hpart])
  · intro s₁ s₂ s₃ s₄ e n _ hout _ _ _ hpart hrel _ hpart₄
    refine hfree s₄ ?_
    rw [hpart₄, hrel.inodeBitmap, hpart]
    exact congrArg (fun b : Bitmap => b.bitmapSet no false) hout.edited.inodeBitmap

/-! ### `sys_rmdir` -/

/-- The last step of a walk that ended at a directory. -/
theorem walk_last {ns : List (List UInt8)} {name : List UInt8} {d : Nat}
    (h : walk s 0 0 (ns ++ [name]) = .directory no d) :
    LeadsTo s ns d ∧ ∃ e, look s d name = some e ∧ e.fType = ftDirectory ∧ e.iNo = no := by
  obtain ⟨d', e, ⟨q, hq⟩, hlook, hty, heno⟩ := leadsTo_snoc.mp ⟨d, h⟩
  rw [walk_append hq, walk] at h
  simp only [hlook, if_pos hty, walk, Walk.directory.injEq] at h
  exact h.2 ▸ ⟨⟨q, hq⟩, e, hlook, hty, heno⟩

/-- The walk came through the true parent, unless the path ends in `.` or the directory has the
one it came from in it. -/
theorem Orderly.walk_parent (h : Orderly s t) {path : List UInt8}
    (hw : walk s 0 0 (names path) = .directory no p) (h0 : no ≠ 0)
    (hempty : (diskInode s no).iSize = 48) :
    p ∈ t.dirs ∧ (p = t.parent no ↔ (names path).getLast? ≠ some dotText) := by
  rcases List.eq_nil_or_concat (names path) with hnil | ⟨ns, name, hns⟩
  · rw [hnil] at hw
    exact absurd (Walk.directory.inj hw).1.symm h0
  rw [List.concat_eq_append] at hns
  rw [hns] at hw ⊢
  have hne : ∀ n ∈ ns ++ [name], n ≠ [] := fun n hn => names_ne_nil (hns ▸ hn)
  obtain ⟨hleads, e, hlook, hty, rfl⟩ := walk_last hw
  have hp := h.tree.leadsTo_mem (fun n hn => hne n (by simp [hn])) hleads
  obtain ⟨he, hname⟩ := h.tree.look_sound hp (hne name (by simp)) hlook
  have hno : e.iNo ∈ t.dirs := by
    rcases h.tree.entry_cases hp he with hk | hk
    · exact hk.2
    · exact absurd (hty.symm.trans hk.1) (by decide)
  refine ⟨hp, ?_⟩
  rw [List.getLast?_append, List.getLast?_singleton, Option.some_or, Ne, Option.some.injEq]
  by_cases hdot : name = dotText
  · rw [hdot, h.tree.look_dot hp, Option.some.injEq] at hlook
    have hself : e.iNo = p := by rw [← hlook]
    rw [hself] at hno h0 ⊢
    simp only [hdot, not_true_eq_false, iff_false]
    exact fun hc => h.tree.parent_ne hno h0 hc.symm
  by_cases hdotdot : name = dotdotText
  · -- the directory above is not empty
    rw [hdotdot, h.tree.look_dotdot hp, Option.some.injEq] at hlook
    have hup : e.iNo = t.parent p := by rw [← hlook]
    have hp0 : p ≠ 0 := by
      rintro rfl
      exact h0 (hup.trans h.tree.rootParent)
    obtain ⟨e', he', hproper, -⟩ := h.tree.named p hp hp0
    exact absurd hproper (h.no_entry hno hempty (hup ▸ he'))
  · refine ⟨fun _ => hdot, fun _ => ?_⟩
    have hproper : Proper e.name := by rw [hname]; exact ⟨hdot, hdotdot⟩
    rcases h.tree.kids p hp e he hproper with hk | hk
    · exact hk.2.2.2.symm
    · exact absurd (hty.symm.trans hk.1) (by decide)

/-- Opening an inode changes none that is there but for its count. -/
theorem inodeOpen_same (h : inodeOpen env no s = .ok (a, s')) (hb : b ∈ s.heap) :
    Inode.Same (s'.inodes b) (s.inodes b) := by
  rcases inodeOpen_cases h with ⟨-, -, rfl⟩ | ⟨-, hfresh, rfl⟩
  · by_cases hba : b = a
    · rw [hba, withInode_self]
      exact (Inode.Same.refl _).withCnts _
    · rw [withInode_ne _ _ _ _ hba]
      exact Inode.Same.refl _
  · have hba : b ≠ a := fun hc => hfresh (hc ▸ hb)
    rw [show (s.loaded a (diskInode s no)).inodes b = s.inodes b from withInode_ne _ _ _ _ hba]
    exact Inode.Same.refl _

theorem inodeOpen_root (h : inodeOpen env no s = .ok (a, s')) : s'.rootInode = s.rootInode := by
  rcases inodeOpen_cases h with ⟨-, -, rfl⟩ | ⟨-, -, rfl⟩
  · rfl
  · rfl

/-- Opening an inode leaves the directory that is held as it is. -/
theorem Held.parent_opened {dir : DirPtr} (h : Held s₀ s dir.opens) (hc : Cache s₀)
    (ht : DirTree s₀ t) (hopen : ZyOs.inodeOpen env no s = .ok (b, s')) :
    Inode.Same (s'.inodes (dir.inode s')) (s.inodes (dir.inode s)) := by
  have hmem := h.inode_mem (fun _ hx => hx) (h.tree hc ht)
  have hroot : dir.inode s' = dir.inode s := by
    cases dir with
    | root => exact inodeOpen_root hopen
    | opened _ => rfl
  rw [hroot]
  exact inodeOpen_same hopen ((h.cache hc).heap _ hmem)

/-- `dir_close`, then -1. -/
theorem wp_closeFail {d : DirPtr} {P : Fs → Prop} :
    Prog.wp (fun _ => True) (do dirClose d; return (-1 : Int)) (fun r s' => r = 0 → P s') s :=
  Prog.wp_bind (wp_dirClose fun _ _ _ => Prog.wp_pure fun hc => absurd hc (by decide))

/-- What `sys_rmdir` does once it has found a number. -/
def rmdirFound (env : FsEnv) (no : Nat) (parentDir : DirPtr) : FsM Int := do
  let dir ← dirOpen env no
  let s ← get
  if dirIsEmpty s (dir.inode s) then
    let retval ← dirRemove env (parentDir.inode s) (dir.inode s)
    dirClose dir
    dirClose parentDir
    return retval
  else
    dirClose dir
    dirClose parentDir
    return -1

section Found

variable {P : Prop} {parentDir : DirPtr} (h : Orderly s₀ t) (hc : Cache s₀)
  (hheld : Held s₀ s parentDir.opens)
include h hc hheld

/-- The directory that was found is empty when 0 is returned, and `dir_remove` decides. -/
theorem Orderly.wp_rmdirFound_of (hno : no ∈ t.dirs ∪ t.files)
    (hsame : Inode.Same (s.inodes (parentDir.inode s)) (diskInode s₀ p))
    (hremove : ∀ s₁ b, Orderly s₁ t → Cache s₁ → s₁.disk = s₀.disk → s₁.part = s₀.part →
      (diskInode s₀ no).iSize = 48 → b ∈ s₁.openInodes → (s₁.inodes b).iNo.toNat = no →
      Inode.Same (s₁.inodes (parentDir.inode s₁)) (diskInode s₁ p) →
      Prog.wp (fun _ => True) (dirRemove env (parentDir.inode s₁) b)
        (fun _ s' => (∃ m, Unlinked s₁ s' t m) ↔ P) s₁) :
    Prog.wp (fun _ => True) (rmdirFound env no parentDir)
      (fun r s' => r = 0 → ((∃ m, Unlinked s₀ s' t m) ↔ P)) s := by
  obtain ⟨hlt, hnum⟩ := h.volume.number no hno
  obtain ⟨b, s₁, hopen, hheld₁, hsame₁⟩ := hheld.inodeOpen env hc h.tree.table hlt hnum
  have htree₁ := hheld₁.tree hc h.tree
  have hcache₁ := hheld₁.cache hc
  have hbmem : b ∈ s₁.openInodes := hheld₁.inode_mem (d := .opened b)
    (fun x hx => List.mem_cons.mpr (.inl (List.mem_singleton.mp hx))) htree₁
  have hparent : Inode.Same (s₁.inodes (parentDir.inode s₁)) (diskInode s₀ p) :=
    (hheld.parent_opened hc h.tree hopen).trans hsame
  obtain ⟨_, hop⟩ := hheld₁
  have hinode := diskInode_congr hop.disk hop.part
  refine Prog.wp_bind (Prog.wp_of_run (by rw [dirOpen, Prog.bind_of_run hopen]; rfl) ?_)
  refine Prog.wp_get_bind (Prog.wp_ite (fun hempty => ?_) fun _ =>
    Prog.wp_bind (wp_dirClose fun _ _ _ => wp_closeFail))
  have h48 : (diskInode s₀ no).iSize = 48 := by
    have := beq_iff_eq.mp hempty
    rw [hop.part, h.tree.entrySize] at this
    exact hsame₁.iSize.symm.trans this
  refine Prog.wp_bind (Prog.wp_mono (hremove s₁ b (h.congr hop.disk hop.part htree₁) hcache₁
    hop.disk hop.part h48 hbmem (hsame₁.iNo ▸ hnum) ((hinode p).symm ▸ hparent)) ?_)
  intro ret s₂ hq
  refine Prog.wp_bind (wp_dirClose fun s₃ hdisk₃ hpart₃ => ?_)
  refine Prog.wp_bind (wp_dirClose fun s₄ hdisk₄ hpart₄ => Prog.wp_pure fun _ => ?_)
  rw [← hq]
  constructor
  · rintro ⟨m, hu⟩
    exact ⟨m, (hu.congr (hdisk₄.trans hdisk₃).symm (hpart₄.trans hpart₃).symm).congr_before
      hop.disk hop.part⟩
  · rintro ⟨m, hu⟩
    exact ⟨m, (hu.congr (hdisk₄.trans hdisk₃) (hpart₄.trans hpart₃)).congr_before
      hop.disk.symm hop.part.symm⟩

/-- From where the directory `no` has been found through `p`. -/
theorem Orderly.wp_rmdirFound (h0 : no ≠ 0) (hno : no ∈ t.dirs) (hp : p ∈ t.dirs)
    (hsame : Inode.Same (s.inodes (parentDir.inode s)) (diskInode s₀ p))
    (hthrough : (diskInode s₀ no).iSize = 48 → (p = t.parent no ↔ P)) :
    Prog.wp (fun _ => True) (rmdirFound env no parentDir)
      (fun r s' => r = 0 → ((∃ m, Unlinked s₀ s' t m) ↔ P ∧ BackInPlace s₀ t p no)) s := by
  refine h.wp_rmdirFound_of hc hheld (Finset.mem_union_left _ hno) hsame ?_
  intro s₁ b horder hcache hdisk hpart h48 hb hbno hparent
  refine Prog.wp_mono (horder.wp_dirRemove hcache hp hno h0 hparent hb hbno) ?_
  rintro ret s' ⟨-, hq⟩
  have hback : BackInPlace s₁ t p no ↔ BackInPlace s₀ t p no := by
    unfold BackInPlace
    rw [diskInode_congr hdisk hpart, hdisk]
  rw [hq, hthrough h48, hback]

/-- A number that is neither a directory's nor a file's has a blank slot, so that what is opened
does not look like an empty directory. -/
theorem Orderly.wp_rmdirFound_blank {Q : Fs → Prop} (hno : no < 4096 → (diskInode s₀ no).iSize = 0) :
    Prog.wp (fun _ => True) (rmdirFound env no parentDir) (fun r s' => r = 0 → Q s') s := by
  have hcache := hheld.cache hc
  obtain ⟨_, hop⟩ := hheld
  have hinode := diskInode_congr hop.disk hop.part
  refine Prog.wp_bind (Prog.wp_of_returns fun d s₁ hrun => ?_)
  obtain ⟨b, s₂, hopen, hret⟩ := Prog.bind_run.mp hrun
  obtain ⟨rfl, rfl⟩ := Prod.mk.inj (Except.ok.inj hret)
  have hsize : (s₂.inodes b).iSize = 0 := by
    rcases inodeOpen_cases hopen with ⟨hmem, hnum, rfl⟩ | ⟨hlt, -, rfl⟩
    · rw [withInode_self]
      have hsame := (hcache.same b hmem).iSize
      rw [hnum, hinode] at hsame
      exact hsame.trans (hno (hnum ▸ hcache.number b hmem))
    · rw [show (s.loaded b (diskInode s no)).inodes b = _ from withInode_self ..]
      exact (congrArg Inode.iSize (hinode no)).trans (hno hlt)
  obtain ⟨-, hpart⟩ := inodeOpen_disk hopen
  refine Prog.wp_get_bind (Prog.wp_ite (fun hempty => ?_) fun _ =>
    Prog.wp_bind (wp_dirClose fun _ _ _ => wp_closeFail))
  have := beq_iff_eq.mp hempty
  rw [hpart, hop.part, h.tree.entrySize] at this
  exact absurd (hsize.symm.trans this) (by decide)

end Found

/-- The slots of the numbers nobody has are blank, as `partition_format` and `inode_delete` leave
them. -/
def BlankSlots (s : Fs) (t : Tree) : Prop :=
  ∀ no < 4096, no ∉ t.dirs ∪ t.files → (diskInode s no).iSize = 0

/-- The entry of the directory `no` is looked for where it is: the last name is not `.`, or there
is no name and the number, which was on the stack, is that of a directory in the root. -/
def FromParent (t : Tree) (path : List UInt8) (no : Nat) : Prop :=
  (names path ≠ [] ∧ (names path).getLast? ≠ some dotText) ∨
    (names path = [] ∧ no ∈ t.dirs ∧ t.parent no = 0)

/-- Whenever `sys_rmdir` returns 0, the walk along the path tells how it left the tree. -/
theorem Orderly.wp_sysRmdir (h : Orderly s t) (hc : Cache s) {path : List UInt8}
    (hpath : PathText path) (hblank : names path = [] → BlankSlots s t) :
    Prog.wp (fun _ => True) (sysRmdir env path) (fun r s' => r = 0 →
      ∃ no p, endsAt env s path = .directory no p ∧ ((∃ m, Unlinked s s' t m) ↔
        FromParent t path no ∧ BackInPlace s t p no)) s := by
  refine Prog.wp_bind (Prog.wp_mono (h.tree.wp_searchFile env hc hpath.text
    (.inr fun _ => trivial)) fun res s₁ hres => ?_)
  obtain ⟨-, hfound⟩ := hres
  obtain ⟨i, r⟩ := res
  refine Prog.wp_bind (wp_assertFs (fun _ _ => trivial) fun hi0 => ?_)
  refine Prog.wp_ite (fun _ => wp_closeFail) fun hmissing => ?_
  refine Prog.wp_ite (fun _ => wp_closeFail) fun hfile => ?_
  show Prog.wp _ (rmdirFound env (u32 i).toNat r.parentDir) _ s₁
  by_cases hslashes : names path = [] ∧ path ≠ [slash]
  · -- the number was on the stack, and its entry is looked for in the root
    obtain ⟨rfl, -, hheld, hsame⟩ := hfound.slashes hslashes.1 hslashes.2
    rw [u32_int32 env.junk.toNat_lt]
    have hends : endsAt env s path = .directory env.junk.toNat 0 := if_pos hslashes
    have h0 : env.junk.toNat ≠ 0 := fun hj => hi0 (by rw [hj]; rfl)
    refine Prog.wp_mono (Q := fun r s' => r = 0 → ((∃ m, Unlinked s s' t m) ↔
      (env.junk.toNat ∈ t.dirs ∧ t.parent env.junk.toNat = 0))) ?_ fun r s' hq hr => ?_
    · by_cases hdir : env.junk.toNat ∈ t.dirs
      · refine Prog.wp_mono (h.wp_rmdirFound (P := t.parent env.junk.toNat = 0) hc hheld h0 hdir
          h.tree.root hsame fun _ => eq_comm) fun r s' hq hr => (hq hr).trans ?_
        have hback : BackInPlace s t 0 env.junk.toNat := .inl (by decide)
        simp only [hback, hdir, and_true, true_and]
      by_cases hreg : env.junk.toNat ∈ t.files
      · refine h.wp_rmdirFound_of hc hheld (Finset.mem_union_right _ hreg) hsame ?_
        intro s₂ b horder hcache _ _ _ hb hbno hparent
        refine Prog.wp_mono (horder.wp_dirRemove_file hcache h.tree.root hreg hparent hb hbno) ?_
        exact fun _ _ hnot => ⟨fun hu => absurd hu hnot, fun hd => absurd hd.1 hdir⟩
      · exact h.wp_rmdirFound_blank hc hheld fun hlt => hblank hslashes.1 _ hlt fun hmem =>
          (Finset.mem_union.mp hmem).elim hdir hreg
    · refine ⟨_, _, hends, (hq hr).trans ⟨fun hd => ⟨.inr ⟨hslashes.1, hd⟩, .inl (by decide)⟩,
        fun hd => ?_⟩⟩
      exact (hd.1.resolve_left fun hn => hn.1 hslashes.1).2
  · have hnamed : names path ≠ [] ∨ path = [slash] := by
      by_contra hc
      push Not at hc
      exact hslashes hc
    have hrep := hfound.named hnamed
    have hends : endsAt env s path = walk s 0 0 (names path) := if_neg hslashes
    rw [hends]
    cases hw : walk s 0 0 (names path) with
    | missing d rest => exact absurd (hrep.result.trans (by rw [hw]; rfl)) hmissing
    | file no d rest => exact absurd (hrep.fileType.trans (by rw [hw]; rfl)) hfile
    | directory no p =>
        have hno := h.tree.leadsTo_mem (fun n hn => names_ne_nil hn) ⟨p, hw⟩
        have hi : i = (no : Int) := hrep.result.trans (by rw [hw]; rfl)
        have h0 : no ≠ 0 := fun hz => hi0 (by rw [hi, hz]; rfl)
        have hname : names path ≠ [] := by
          intro hnil
          rw [hnil] at hw
          exact h0 (Walk.directory.inj hw).1.symm
        have hparent := hrep.parent
        have hp := h.tree.walk_dir (fun (n : List UInt8) (hn : n ∈ names path) => names_ne_nil hn)
          h.tree.root h.tree.root
        rw [hw] at hparent hp
        rw [hi, toNat_u32 (by have := (h.tree.isDir hno).1; omega)]
        refine Prog.wp_mono (h.wp_rmdirFound hc hrep.held h0 hno hp hparent
          fun h48 => (h.walk_parent hw h0 h48).2) fun r s' hq hr => ?_
        refine ⟨no, p, rfl, (hq hr).trans (and_congr_left' ?_)⟩
        exact ⟨fun hlast => .inl ⟨hname, hlast⟩,
          fun hd => (hd.resolve_right fun hn => hname hn.1).2⟩

/-- **`sys_rmdir` takes out exactly the entry of the directory it removes, unless the path ends in
`.`, or is of slashes alone while the stack does not hold the number of a directory in the root,
or the parent is not written back in place.** -/
theorem sysRmdir_unlinked_iff (env : FsEnv) (s s' : Fs) (t : Tree) (path : List UInt8)
    (htree : Orderly s t) (hcache : Cache s) (hpath : PathText path)
    (hblank : names path = [] → BlankSlots s t) (hrun : sysRmdir env path s = .ok (0, s')) :
    ∃ no p, endsAt env s path = .directory no p ∧ ((∃ m, Unlinked s s' t m) ↔
      FromParent t path no ∧ BackInPlace s t p no) :=
  (htree.wp_sysRmdir hcache hpath hblank).of_run hrun rfl

theorem sysRmdir_unlinked_d : ∃ s', sysRmdir upwardEnv [47, 100] smallFs = .ok (0, s') ∧
    ∃ m, Unlinked smallFs s' smallTree m := by
  have hrun := Prog.run_of_answer (x := sysRmdir upwardEnv [47, 100]) (s := smallFs) (a := 0)
    (by decide +kernel)
  have hname : names [47, 100] ≠ [] := by decide
  obtain ⟨no, p, hw, hiff⟩ := sysRmdir_unlinked_iff upwardEnv smallFs _ smallTree [47, 100]
    smallFs_orderly smallFs_cache ⟨by decide, by decide⟩ (fun hnil => absurd hnil hname) hrun
  have hd : endsAt upwardEnv smallFs [47, 100] = .directory 1 0 := by decide +kernel
  obtain ⟨rfl, rfl⟩ := Walk.directory.inj (hd.symm.trans hw)
  exact ⟨_, hrun, hiff.mpr ⟨.inl ⟨hname, by decide +kernel⟩, .inl (by decide)⟩⟩

/-- `rmdir("/d/.")` frees the directory and leaves its entry in the root. -/
theorem sysRmdir_dangling : Orderly smallFs smallTree ∧ Cache smallFs ∧
    PathText [47, 100, 47, 46] ∧ ∃ s', sysRmdir upwardEnv [47, 100, 47, 46] smallFs = .ok (0, s') ∧
      ¬ ∃ m, Unlinked smallFs s' smallTree m := by
  have hpath : PathText [47, 100, 47, 46] := ⟨by decide, by decide⟩
  have hname : names [47, 100, 47, 46] ≠ [] := by decide
  have hrun := Prog.run_of_answer (x := sysRmdir upwardEnv [47, 100, 47, 46]) (s := smallFs)
    (a := 0) (by decide +kernel)
  refine ⟨smallFs_orderly, smallFs_cache, hpath, _, hrun, fun hu => ?_⟩
  obtain ⟨no, p, -, hiff⟩ := (smallFs_orderly.wp_sysRmdir smallFs_cache hpath
    fun hnil => absurd hnil hname).of_run hrun rfl
  rcases (hiff.mp hu).1 with hlast | hnil
  · exact hlast.2 (by decide +kernel)
  · exact hname hnil.1

end ZyOs
