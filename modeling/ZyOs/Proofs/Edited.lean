/-
A directory of a volume is edited.

The kernel changes the blocks of a directory and its inode in memory, and then writes the
inode back.  `Edited` is what holds in between: the other inodes are as they were, and the
inode in memory describes the directory.  Written back under a number below 256 it goes
into its own slot, and the volume is in order again.
-/
import ZyOs.Proofs.Volume

namespace ZyOs

open Library

/-- Nothing but the disk and the bitmaps changed. -/
structure OnlyDisk (s s' : Fs) : Prop where
  inodes : s'.inodes = s.inodes
  heap : s'.heap = s.heap
  openInodes : s'.openInodes = s.openInodes
  rootInode : s'.rootInode = s.rootInode
  fileTable : s'.fileTable = s.fileTable
  tasks : s'.tasks = s.tasks
  cur : s'.cur = s.cur

/-- Nothing but the disk, the bitmaps and the inode at `a` changed. -/
structure OnlyInode (s s' : Fs) (a : Nat) : Prop where
  inodes : ∀ b, b ≠ a → s'.inodes b = s.inodes b
  heap : s'.heap = s.heap
  openInodes : s'.openInodes = s.openInodes
  rootInode : s'.rootInode = s.rootInode
  fileTable : s'.fileTable = s.fileTable
  tasks : s'.tasks = s.tasks
  cur : s'.cur = s.cur

/-- The directory `p`, whose inode is at `a`, has been changed and not yet written back. -/
structure Edited (s s' : Fs) (nos : Finset Nat) (p a : Nat) : Prop where
  drive : OnDrive s'.part
  sb : s'.part.sb = s.part.sb
  inodeBitmap : s'.part.inodeBitmap = s.part.inodeBitmap
  rest : OnlyInode s s' a
  slot : diskInode s' p = diskInode s p
  kept : ∀ no ∈ nos, no ≠ p → Kept s s' no
  used : ∀ no ∈ nos, no ≠ p → OwnBlocks s'.part s'.disk (diskInode s' no)
  iNo : (s'.inodes a).iNo = (s.inodes a).iNo
  owns : OwnBlocks s'.part s'.disk (s'.inodes a)
  apart : ∀ no ∈ nos, no ≠ p → ∀ k ≤ 140, ∀ k' ≤ 140, own s'.disk (s'.inodes a) k ≠ 0 →
    own s'.disk (s'.inodes a) k ≠ own s.disk (diskInode s no) k'
  body : ∀ parent, DirBody s.part.sb.dataStartLba s.disk (s.inodes a) p parent →
    DirBody s.part.sb.dataStartLba s'.disk (s'.inodes a) p parent

variable {s s' : Fs} {nos : Finset Nat} {p a k i m no : Nat} {e : NewEntry}

theorem OnlyInode.withInode {s : Fs} {d : Disk} {part : Partition} (n : Inode) :
    OnlyInode s ({ s with disk := d, part := part : Fs }.withInode a n) a :=
  ⟨fun _ hb => withInode_ne _ _ _ _ hb, rfl, rfl, rfl, rfl, rfl, rfl⟩

theorem OnlyDisk.trans {s s' s'' : Fs} (h : OnlyDisk s s') (h' : OnlyDisk s' s'') :
    OnlyDisk s s'' :=
  ⟨h'.inodes.trans h.inodes, h'.heap.trans h.heap, h'.openInodes.trans h.openInodes,
    h'.rootInode.trans h.rootInode, h'.fileTable.trans h.fileTable, h'.tasks.trans h.tasks,
    h'.cur.trans h.cur⟩

/-! ### Written back -/

/-- The slots of the table that were not written. -/
theorem Edited.diskInode_writtenBack (h : Edited s s' nos p a) (hp : (s.inodes a).iNo.toNat = p)
    (hne : no ≠ p % 256) : diskInode (s'.writtenBack a) no = diskInode s' no := by
  have hno : (s'.inodes a).iNo.toNat % 256 = p % 256 := by rw [h.iNo, hp]
  exact ofMem_slot_splice_ne _ _ _ (by rw [hno]; exact hne)

theorem Edited.same_writtenBack (h : Edited s s' nos p a) (hp : (s.inodes a).iNo.toNat = p)
    (h256 : p < 256) : Inode.Same (diskInode (s'.writtenBack a) p) (s'.inodes a) :=
  diskInode_synced (by rw [h.iNo, hp]) h256

/-- A write-back stays in the table. -/
theorem writtenBack_data (ho : s.part.Ordered) (a : Nat) :
    ∀ x, 512 * s.part.sb.dataStartLba ≤ x → (s.writtenBack a).disk x = s.disk x := by
  intro x hx
  have hno : (s.inodes a).iNo.toNat % 256 < 4096 := by omega
  have := slotAddr_le ho hno
  exact Mem.splice_out (.inr (by omega))

theorem Edited.untouched (h : Edited s s' nos p a) {n : Inode}
    (hn : OwnBlocks s'.part s'.disk n) : Untouched s'.disk (s'.writtenBack a).disk n :=
  Untouched.of_front (writtenBack_data h.drive.ordered a) fun _ hk hne => (hn.used _ hk hne).data

theorem Edited.kept_writtenBack (h : Edited s s' nos p a) (hp : (s.inodes a).iNo.toNat = p)
    (hno : no ∈ nos) (hne : no ≠ p) (hne' : no ≠ p % 256) : Kept s (s'.writtenBack a) no :=
  (h.kept no hno hne).trans ⟨h.diskInode_writtenBack hp hne', h.untouched (h.used no hno hne)⟩

/-- The volume is in order again. -/
theorem Edited.volume (h : Edited s s' nos p a) (hv : Volume s nos)
    (hp : (s.inodes a).iNo.toNat = p) (h256 : p < 256) : Volume (s'.writtenBack a) nos := by
  have hmod : p % 256 = p := Nat.mod_eq_of_lt h256
  have hkept : ∀ no ∈ nos, no ≠ p → Kept s (s'.writtenBack a) no := fun no hno hne =>
    h.kept_writtenBack hp hno hne (by rwa [hmod])
  have hsame := h.same_writtenBack hp h256
  have hown : own (s'.writtenBack a).disk (diskInode (s'.writtenBack a) p)
      = own s'.disk (s'.inodes a) := by rw [own_congr hsame, (h.untouched h.owns).own]
  refine ⟨h.drive, fun no hno => ?_, fun no hno => ?_, fun no hno => ?_, ?_⟩
  · refine ⟨(hv.number no hno).1, ?_⟩
    by_cases hne : no = p
    · rw [hne, hsame.iNo, h.iNo, hp]
    · rw [(hkept no hno hne).inode]
      exact (hv.number no hno).2
  · show s'.part.inodeBitmap.bitmapScanTest no = true
    rw [h.inodeBitmap]
    exact hv.bit no hno
  · by_cases hne : no = p
    · rw [hne]
      exact (h.owns.untouched (h.untouched h.owns)).congr hsame.symm
    · have := (h.used no hno hne).untouched (h.untouched (h.used no hno hne))
      rwa [(hkept no hno hne).inode, ← (h.kept no hno hne).inode]
  · intro no hno no' hno' hne k hk k' hk' hk0
    by_cases hnp : no = p
    · rw [hnp, hown] at hk0 ⊢
      have hnp' : no' ≠ p := fun hc => hne (hnp.trans hc.symm)
      rw [(hkept no' hno' hnp').own]
      exact h.apart no' hno' hnp' k hk k' hk' hk0
    · rw [(hkept no hno hnp).own] at hk0 ⊢
      by_cases hnp' : no' = p
      · rw [hnp', hown]
        intro heq
        exact h.apart no hno hnp k' hk' k hk (heq ▸ hk0) heq.symm
      · rw [(hkept no' hno' hnp').own]
        exact hv.apart no hno no' hno' hne k hk k' hk' hk0

theorem Edited.dirEntries (h : Edited s s' nos p a) (hp : (s.inodes a).iNo.toNat = p)
    (h256 : p < 256) :
    ZyOs.dirEntries (s'.writtenBack a) p = entries s'.disk (s'.inodes a) := by
  rw [ZyOs.dirEntries, entries_congr (h.same_writtenBack hp h256), (h.untouched h.owns).entries]

/-! ### Blocks that stay marked -/

theorem UsedBlock.free {part : Partition} {lba b : Nat} (h : UsedBlock part lba)
    (hb : part.sb.dataStartLba ≤ b) (hne : lba ≠ b) : UsedBlock
      { part with blockBitmap := part.blockBitmap.bitmapSet (b - part.sb.dataStartLba) false }
      lba := by
  have hdata := h.data
  refine ⟨⟨h.data, h.bit, ?_⟩, h.drive⟩
  show (part.blockBitmap.bitmapSet (b - part.sb.dataStartLba) false).bitmapScanTest
    (lba - part.sb.dataStartLba) = true
  rw [Bitmap.scanTest_set, if_neg (by omega)]
  exact h.used

/-- A block that is free is nobody's. -/
theorem OwnBlocks.ne_free {part : Partition} {d : Disk} {n : Inode} (h : OwnBlocks part d n)
    (hm : part.blockBitmap.LowestFree m) {j : Nat} (hj : j ≤ 140) (hne : own d n j ≠ 0) :
    own d n j ≠ part.sb.dataStartLba + m :=
  (h.used j hj hne).ne_of_free hm.free

section Edits

variable (hv : Volume s nos) (hp : p ∈ nos) (hsame : Inode.Same (s.inodes a) (diskInode s p))
include hv hp hsame

theorem Volume.ownBlocks : OwnBlocks s.part s.disk (s.inodes a) := (hv.owns p hp).congr hsame.symm

theorem Volume.iNo : (s.inodes a).iNo.toNat = p := by
  rw [hsame.iNo]
  exact (hv.number p hp).2

theorem Volume.apart_mem (hno : no ∈ nos) (hne : no ≠ p) (hk : k ≤ 140) {k' : Nat} (hk' : k' ≤ 140)
    (hk0 : own s.disk (s.inodes a) k ≠ 0) :
    own s.disk (s.inodes a) k ≠ own s.disk (diskInode s no) k' := by
  rw [own_congr hsame] at hk0 ⊢
  exact hv.apart p hp no hno hne.symm k hk k' hk' hk0

/-- A slot of the directory is written. -/
theorem Volume.slotEdit {addr : Nat} {d : Disk} (haddr : addr ∈ slots s.disk (s.inodes a))
    (hd : ∀ y, y < addr ∨ addr + 24 ≤ y → d y = s.disk y)
    (hbody : ∀ parent, DirBody s.part.sb.dataStartLba s.disk (s.inodes a) p parent →
      DirBody s.part.sb.dataStartLba d (s.inodes a) p parent) (size : UInt32) :
    Edited s ((s.withDisk d).withInode a { s.inodes a with iSize := size }) nos p a := by
  have ho := hv.drive.ordered
  have howns := hv.ownBlocks hp hsame
  obtain ⟨hown, -, howns'⟩ := howns.slot hd haddr
  obtain ⟨k, i, hk, hne, hi, rfl⟩ := mem_slots_own.mp haddr
  have hdata := (howns.used k (by omega) hne).data
  have hfront : ∀ x, x < 512 * own s.disk (s.inodes a) k ∨
      512 * own s.disk (s.inodes a) k + 512 ≤ x → d x = s.disk x := fun x hx => hd x (by omega)
  have hkept : ∀ no ∈ nos, no ≠ p →
      Kept s ((s.withDisk d).withInode a { s.inodes a with iSize := size }) no := by
    intro no hno hnp
    refine Kept.block ho (hv.number no hno).1 rfl hdata (fun x _ => hfront x) (hv.owns no hno)
      fun j hj hj0 heq => ?_
    exact hv.apart_mem hp hsame hno hnp (by omega) hj hne heq.symm
  refine ⟨hv.drive, rfl, rfl, OnlyInode.withInode _, ?_, hkept, fun no hno hnp => ?_, ?_, ?_, ?_,
    fun parent hb => ?_⟩
  · exact diskInode_front ho (hv.number p hp).1 rfl fun x _ hx => hfront x (.inl (by omega))
  · exact (hkept no hno hnp).owns (hv.owns no hno) fun _ _ _ h => h
  · rw [withInode_self]
  · rw [withInode_self]
    exact howns'.resize size
  · rw [withInode_self]
    intro no hno hnp j hj j' hj' hj0
    change own d (s.inodes a) j ≠ 0 at hj0
    change own d (s.inodes a) j ≠ _
    rw [hown] at hj0 ⊢
    exact hv.apart_mem hp hsame hno hnp hj hj' hj0
  · rw [withInode_self]
    exact (hbody parent hb).resize size

/-- A block of the directory that has one entry is given back. -/
theorem Volume.dropEdit (hk : k < 12) (hk0 : k ≠ 0) (hne : own s.disk (s.inodes a) k ≠ 0)
    (hi : i < 21) (huse : InUse s.disk (512 * own s.disk (s.inodes a) k + 24 * i))
    (honly : ∀ j < 21, InUse s.disk (512 * own s.disk (s.inodes a) k + 24 * j) → j = i) :
    Edited s (s.blockDropped a k) nos p a ∧ (entries s.disk (s.inodes a)).Perm
      (entryAt s.disk (512 * own s.disk (s.inodes a) k + 24 * i) ::
        entries (s.blockDropped a k).disk ((s.blockDropped a k).inodes a)) := by
  have ho := hv.drive.ordered
  have howns := hv.ownBlocks hp hsame
  have hused := howns.used k (by omega) hne
  have hdata := hused.data
  have hdrive := hused.drive
  have hfront := changeBlock_front ho hused.bit false
  have hmono : ∀ lba, lba ≠ own s.disk (s.inodes a) k → UsedBlock s.part lba →
      UsedBlock (s.blockDropped a k).part lba := fun lba hlba h => h.free hdata hlba
  have hkept : ∀ no ∈ nos, no ≠ p → Kept s (s.blockDropped a k) no := fun no hno _ =>
    Kept.of_bitmaps rfl ho hfront (hv.owns no hno)
  have hu : Untouched s.disk (s.blockDropped a k).disk (s.inodes a) := by
    have htable := ho.table
    exact Untouched.of_front
      (fun x (hx : 512 * s.part.sb.dataStartLba ≤ x) => hfront x (by omega))
      fun j hj hj0 => (howns.used j hj hj0).data
  have howns' := howns.dropBlock hk hu hmono
  have hinode : (s.blockDropped a k).inodes a
      = { (s.inodes a).setSector k 0 with iSize := (s.inodes a).iSize - 24 } := withInode_self ..
  refine ⟨⟨hv.drive.set (.inr ⟨hused.bit, by omega⟩) false, rfl, rfl, OnlyInode.withInode _, ?_,
    hkept, fun no hno hnp => ?_, ?_, ?_, ?_, fun parent hb => ?_⟩, ?_⟩
  · exact diskInode_front ho (hv.number p hp).1 rfl fun x hx _ => hfront x hx
  · refine (hkept no hno hnp).owns (hv.owns no hno) fun j hj hj0 h => hmono _ (fun heq => ?_) h
    exact hv.apart_mem hp hsame hno hnp (by omega) hj hne heq.symm
  · rw [hinode]
    rfl
  · rw [hinode]
    exact howns'.resize _
  · rw [hinode]
    intro no hno hnp j hj j' hj' hj0
    change own (s.blockDropped a k).disk ((s.inodes a).setSector k 0) j ≠ 0 at hj0
    change own (s.blockDropped a k).disk ((s.inodes a).setSector k 0) j ≠ _
    rw [own_setSector _ _ hk, hu.own] at hj0 ⊢
    by_cases hjk : j = k
    · exact absurd (if_pos hjk) hj0
    · rw [if_neg hjk] at hj0 ⊢
      exact hv.apart_mem hp hsame hno hnp hj hj' hj0
  · rw [hinode]
    exact (hb.dropBlock howns hk hu hk0 howns').resize _
  · rw [hinode]
    exact howns.entries_dropBlock hk hu hne hi huse honly howns'

/-- An entry other than `.` and `..` is cleared. -/
theorem Volume.clearEdit {addr : Nat} (haddr : addr ∈ slots s.disk (s.inodes a))
    (huse : InUse s.disk addr) (hproper : Proper (entryAt s.disk addr).name) :
    Edited s (s.slotCleared a addr) nos p a ∧ (entries s.disk (s.inodes a)).Perm
      (entryAt s.disk addr ::
        entries (s.slotCleared a addr).disk ((s.slotCleared a addr).inodes a)) := by
  have howns := hv.ownBlocks hp hsame
  refine ⟨hv.slotEdit hp hsame haddr (splice_outside _ _ _)
    (fun parent hb => hb.clearSlot howns haddr hproper) _, ?_⟩
  have hinode : (s.slotCleared a addr).inodes a
      = { s.inodes a with iSize := (s.inodes a).iSize - 24 } := withInode_self ..
  rw [hinode]
  exact howns.clearSlot haddr huse

end Edits

/-! ### An entry that is alone -/

/-- Names that are used once belong to one slot. -/
theorem slot_of_name {d : Disk} {n : Inode} (hnd : ((entries d n).map Entry.name).Nodup)
    {x y : Nat} (hx : x ∈ slots d n) (hy : y ∈ slots d n) (hux : InUse d x) (huy : InUse d y)
    (heq : nameAt d x = nameAt d y) : x = y := by
  unfold entries at hnd
  rw [List.map_map] at hnd
  refine List.inj_on_of_nodup_map hnd ?_ ?_ heq
  · simp [hx, hux]
  · simp [hy, huy]

/-- A block in which an entry is alone has nothing else in it, and is not the first. -/
theorem AloneAt.only {d : Disk} {n : Inode} {start parent : Nat}
    (h : AloneAt d (own d n k) i) {part : Partition} (howns : OwnBlocks part d n)
    (hb : DirBody start d n p parent)
    (hnd : ((entries d n).map Entry.name).Nodup) (hk : k < 140) (hne : own d n k ≠ 0) :
    k ≠ 0 ∧ ∀ j < 21, InUse d (512 * own d n k + 24 * j) → j = i := by
  have h0 : k ≠ 0 := by
    rintro rfl
    rw [own_direct _ _ (by omega)] at h
    exact h.1 0 (by omega) hb.inUse_dot (congrArg Entry.name hb.dot)
  refine ⟨h0, fun j hj huse => ?_⟩
  by_cases hdd : nameAt d (512 * own d n k + 24 * j) = dotdotText
  · have hslot := slot_of_name hnd (mem_slots_own.mpr ⟨k, j, hk, hne, hj, rfl⟩)
      (hb.mem_first (i := 1) (by omega)) huse hb.inUse_dotdot
      (hdd.trans (congrArg Entry.name hb.dotdot).symm)
    refine absurd (howns.inj k (by omega) 0 (by omega) hne ?_) h0
    rw [own_direct d n (k := 0) (by omega)]
    omega
  · exact h.2 j hj huse ⟨h.1 j hj huse, hdd⟩

/-! ### `delete_dir_entry` on a volume -/

/-- The number is in an entry that is alone in its block. -/
def AloneIn (d : Disk) (n : Inode) (no : Nat) : Prop :=
  ∃ k < 140, ∃ i < 21, own d n k ≠ 0 ∧ NamesAt d no (512 * own d n k + 24 * i) ∧
    AloneAt d (own d n k) i

/-- The entry `e` has been taken out of the directory `p`, whose inode is at `a`. -/
structure TakenOut (s s' : Fs) (nos : Finset Nat) (p a : Nat) (e : Entry) : Prop where
  edited : Edited s s' nos p a
  mem : e ∈ entries s.disk (s.inodes a)
  proper : Proper e.name
  perm : (entries s.disk (s.inodes a)).Perm (e :: entries s'.disk (s'.inodes a))
  size : (s'.inodes a).iSize = (s.inodes a).iSize - 24
  how : (¬ AloneIn s.disk (s.inodes a) e.iNo ∧ s'.part = s.part ∧
      ∃ addr ∈ slots s.disk (s.inodes a), entryAt s.disk addr = e ∧
        s' = s.slotCleared a addr) ∨
    (AloneIn s.disk (s.inodes a) e.iNo ∧
      ∃ k < 12, own s.disk (s.inodes a) k ≠ 0 ∧ s' = s.blockDropped a k)

theorem NamesAt.mem_entries {d : Disk} {n : Inode} {x : Nat} (h : NamesAt d no x)
    (hx : x ∈ slots d n) : entryAt d x ∈ entries d n := ZyOs.mem_entries.mpr ⟨x, hx, h.1, rfl⟩

/-- A slot that names the number is the one. -/
theorem NamesOnce.alone_iff {d : Disk} {n : Inode} (h : NamesOnce d n no) {part : Partition}
    (howns : OwnBlocks part d n) (hk : k < 140)
    (hne : own d n k ≠ 0) (hi : i < 21) (hnames : NamesAt d no (512 * own d n k + 24 * i)) :
    AloneIn d n no ↔ AloneAt d (own d n k) i := by
  refine ⟨?_, fun halone => ⟨k, hk, i, hi, hne, hnames, halone⟩⟩
  rintro ⟨k', hk', i', hi', hne', hnames', halone⟩
  have heq := h _ (mem_slots_own.mpr ⟨k, i, hk, hne, hi, rfl⟩) _
    (mem_slots_own.mpr ⟨k', i', hk', hne', hi', rfl⟩) hnames hnames'
  have hblk : own d n k = own d n k' := by omega
  obtain rfl := howns.inj k (by omega) k' (by omega) hne hblk
  obtain rfl : i = i' := by omega
  exact halone

/-- `delete_dir_entry` in a directory of a volume. -/
theorem Volume.wp_deleteDirEntry {E : Halt → Prop} (hv : Volume s nos) (hp : p ∈ nos)
    (hsame : Inode.Same (s.inodes a) (diskInode s p)) {parent : Nat}
    (hbody : DirBody s.part.sb.dataStartLba s.disk (s.inodes a) p parent)
    (hnd : ((entries s.disk (s.inodes a)).map Entry.name).Nodup)
    (honce : NamesOnce s.disk (s.inodes a) no) (hsize : 24 ≤ (s.inodes a).iSize.toNat)
    (hhang : (s.inodes a).sector 12 = 0 ∨ ∀ e, E e) {Q : Bool → Fs → Prop}
    (hmissing : (∀ e ∈ entries s.disk (s.inodes a), Proper e.name → e.iNo ≠ no) → Q false s)
    (htaken : ∀ s' e, TakenOut s s' nos p a e → e.iNo = no → Q true (s'.writtenBack a)) :
    Prog.wp E (deleteDirEntry a no) Q s := by
  have howns := hv.ownBlocks hp hsame
  refine ZyOs.wp_deleteDirEntry hv.drive howns hsize honce hhang ⟨fun hnone => ?_, ?_, ?_⟩
  · refine hmissing fun e he hproper hno => ?_
    obtain ⟨x, hx, huse, rfl⟩ := ZyOs.mem_entries.mp he
    exact hnone x hx ⟨huse, hproper, hno⟩
  · intro k i hk hne hi hnames halone
    have hx := mem_slots_own.mpr ⟨k, i, hk, hne, hi, rfl⟩
    obtain ⟨hedit, hperm⟩ := hv.clearEdit hp hsame hx hnames.1 hnames.2.1
    have halone' : ¬ AloneIn s.disk (s.inodes a) no := fun hc =>
      halone ((honce.alone_iff howns hk hne hi hnames).mp hc)
    refine htaken _ _ ⟨hedit, hnames.mem_entries hx, hnames.2.1, hperm, ?_,
      .inl ⟨?_, rfl, _, hx, rfl, rfl⟩⟩ hnames.2.2
    · exact congrArg Inode.iSize (withInode_self ..)
    · rwa [show (entryAt s.disk _).iNo = no from hnames.2.2]
  · intro k i hk hne hi hnames halone
    have hx := mem_slots_own.mpr ⟨k, i, show k < 140 by omega, hne, hi, rfl⟩
    obtain ⟨hk0, honly⟩ := halone.only howns hbody hnd (by omega) hne
    obtain ⟨hedit, hperm⟩ := hv.dropEdit hp hsame hk hk0 hne hi hnames.1 honly
    refine htaken _ _ ⟨hedit, hnames.mem_entries hx, hnames.2.1, hperm, ?_,
      .inr ⟨?_, k, hk, hne, rfl⟩⟩ hnames.2.2
    · exact congrArg Inode.iSize (withInode_self ..)
    · rw [show (entryAt s.disk _).iNo = no from hnames.2.2]
      exact (honce.alone_iff howns (by omega) hne hi hnames).mpr halone

end ZyOs
