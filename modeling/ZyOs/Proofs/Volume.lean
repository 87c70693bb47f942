/-
A file system in good order.

`Volume s nos` speaks of the inodes with the numbers in `nos`: they are in their slots,
their numbers and blocks are marked, and no two of them share a block.  A directory tree on
a volume whose directories have the size of their entries is `Orderly`.  What a write
does not reach is `Kept`: the slot of an inode and its blocks are as they were, so the
directory with that number says what it said.
-/
import ZyOs.Proofs.Takeout

namespace ZyOs

open Library

/-- The inodes in `nos` have their slots, their bits and their blocks to themselves. -/
structure Volume (s : Fs) (nos : Finset Nat) : Prop where
  drive : OnDrive s.part
  number : ∀ no ∈ nos, no < 4096 ∧ (diskInode s no).iNo.toNat = no
  bit : ∀ no ∈ nos, s.part.inodeBitmap.bitmapScanTest no = true
  owns : ∀ no ∈ nos, OwnBlocks s.part s.disk (diskInode s no)
  apart : ∀ no ∈ nos, ∀ no' ∈ nos, no ≠ no' → ∀ k ≤ 140, ∀ k' ≤ 140,
    own s.disk (diskInode s no) k ≠ 0 →
    own s.disk (diskInode s no) k ≠ own s.disk (diskInode s no') k'

/-- The disk holds the tree `t`, and everything about it is in order. -/
structure Orderly (s : Fs) (t : Tree) : Prop where
  tree : DirTree s t
  volume : Volume s (t.dirs ∪ t.files)
  size : ∀ d ∈ t.dirs, (diskInode s d).iSize.toNat = 24 * (dirEntries s d).length
  rootBlock : (diskInode s 0).blk 0 = s.part.sb.dataStartLba

/-- The inode `no` and its blocks are as they were. -/
structure Kept (s s' : Fs) (no : Nat) : Prop where
  inode : diskInode s' no = diskInode s no
  blocks : Untouched s.disk s'.disk (diskInode s no)

variable {s s' s'' : Fs} {t : Tree} {nos : Finset Nat} {no no' k : Nat} {n : Inode}

/-- A volume is a matter of the disk and the bitmaps. -/
theorem Volume.congr (h : Volume s nos) (hdisk : s'.disk = s.disk) (hpart : s'.part = s.part) :
    Volume s' nos := by
  have hinode := fun no => diskInode_congr hdisk hpart no
  refine ⟨by rw [hpart]; exact h.drive, ?_, by rw [hpart]; exact h.bit, ?_, ?_⟩
  · intro no hno
    rw [hinode]
    exact h.number no hno
  · intro no hno
    rw [hinode, hdisk, hpart]
    exact h.owns no hno
  · intro no hno no' hno'
    rw [hinode, hinode, hdisk]
    exact h.apart no hno no' hno'

theorem dirEntries_congr (hdisk : s'.disk = s.disk) (hpart : s'.part = s.part) (no : Nat) :
    dirEntries s' no = dirEntries s no := by
  rw [dirEntries, dirEntries, diskInode_congr hdisk hpart, hdisk]

/-- What a tree says of one directory. -/
theorem DirTree.body (h : DirTree s t) {dir : Nat} (hd : dir ∈ t.dirs) :
    DirBody s.part.sb.dataStartLba s.disk (diskInode s dir) dir (t.parent dir) :=
  ⟨h.readable dir hd, h.cleared dir hd, h.first dir hd, h.dot dir hd, h.dotdot dir hd⟩

/-! ### What is kept -/

namespace Kept

theorem refl (s : Fs) (no : Nat) : Kept s s no := ⟨rfl, fun _ _ _ _ _ => rfl⟩

theorem trans (h : Kept s s' no) (h' : Kept s' s'' no) : Kept s s'' no :=
  ⟨h'.inode.trans h.inode, h.blocks.trans (h.inode ▸ h'.blocks)⟩

theorem own (h : Kept s s' no) :
    ZyOs.own s'.disk (diskInode s' no) = ZyOs.own s.disk (diskInode s no) := by
  rw [h.inode, h.blocks.own]

theorem dirEntries (h : Kept s s' no) : ZyOs.dirEntries s' no = ZyOs.dirEntries s no := by
  unfold ZyOs.dirEntries
  rw [h.inode, h.blocks.entries]

theorem body (h : Kept s s' no) {start p : Nat}
    (hb : DirBody start s.disk (diskInode s no) no p) :
    DirBody start s'.disk (diskInode s' no) no p := by
  rw [h.inode]
  exact hb.untouched h.blocks

theorem owns (h : Kept s s' no) (ho : OwnBlocks s.part s.disk (diskInode s no))
    (hpart : ∀ k ≤ 140, ZyOs.own s.disk (diskInode s no) k ≠ 0 →
      UsedBlock s.part (ZyOs.own s.disk (diskInode s no) k) →
      UsedBlock s'.part (ZyOs.own s.disk (diskInode s no) k)) :
    OwnBlocks s'.part s'.disk (diskInode s' no) := by
  rw [h.inode]
  exact (ho.mono hpart).untouched h.blocks

/-- Nothing of the disk behind the bitmaps changed. -/
theorem of_bitmaps (hsb : s'.part.sb = s.part.sb) (ho : s.part.Ordered)
    (hd : ∀ x, 512 * s.part.sb.inodeTableLba ≤ x → s'.disk x = s.disk x)
    (howns : OwnBlocks s.part s.disk (diskInode s no)) : Kept s s' no := by
  have htable := ho.table
  refine ⟨?_, Untouched.of_front
    (fun x (hx : 512 * s.part.sb.dataStartLba ≤ x) => hd x (by omega))
    fun k hk hne => (howns.used k hk hne).data⟩
  unfold diskInode
  refine Inode.ofMem_congr fun j _ => ?_
  rw [Mem.drop_apply, Mem.drop_apply, show slotAddr s'.part no = slotAddr s.part no by
    unfold slotAddr; rw [hsb]]
  exact hd _ (by unfold slotAddr; omega)

end Kept

/-! ### Slots of the inode table -/

theorem slotAddr_congr (hsb : s'.part.sb = s.part.sb) (no : Nat) :
    slotAddr s'.part no = slotAddr s.part no := by
  unfold slotAddr
  rw [hsb]

/-- The slot of a number that is in range lies in front of the data area. -/
theorem slotAddr_le (ho : s.part.Ordered) (hno : no < 4096) :
    slotAddr s.part no + Inode.size ≤ 512 * s.part.sb.dataStartLba := by
  have := ho.table
  simp only [slotAddr, Inode.size]
  omega

/-- Writing one slot leaves the other inodes alone. -/
theorem Kept.slot (ho : s.part.Ordered) (hno : no < 4096) (hne : no' ≠ no) (src : Mem)
    (howns : OwnBlocks s.part s.disk (diskInode s no')) :
    Kept s (s.withDisk (s.disk.splice (slotAddr s.part no) src Inode.size)) no' := by
  refine ⟨ofMem_slot_splice_ne _ _ _ hne, Untouched.of_front
    (fun x (hx : 512 * s.part.sb.dataStartLba ≤ x) => ?_)
    fun k hk hne => (howns.used k hk hne).data⟩
  have := slotAddr_le ho hno
  exact Mem.splice_out (.inr (by omega))

/-- The inode that is read from a slot that was written. -/
theorem diskInode_slot (s : Fs) (no : Nat) (src : Mem) :
    diskInode (s.withDisk (s.disk.splice (slotAddr s.part no) src Inode.size)) no
      = Inode.ofMem src := by
  unfold diskInode
  refine Inode.ofMem_congr fun j hj => ?_
  rw [Mem.drop_apply]
  exact Mem.splice_at hj

theorem diskInode_synced {n : Inode} (hno : n.iNo.toNat = no) (h256 : no < 256) :
    Inode.Same (diskInode (s.inodeSynced n) no) n := by
  have hmod : n.iNo.toNat % 256 = no := by rw [hno]; exact Nat.mod_eq_of_lt h256
  have := diskInode_slot s no n.pureMem
  rw [← hmod] at this ⊢
  exact (show diskInode (s.inodeSynced n) (n.iNo.toNat % 256) = _ from this) ▸ n.same_pureMem

/-- The inodes are in front of the data area. -/
theorem diskInode_front (ho : s.part.Ordered) (hno : no < 4096) (hsb : s'.part.sb = s.part.sb)
    (hd : ∀ x, 512 * s.part.sb.inodeTableLba ≤ x → x < 512 * s.part.sb.dataStartLba →
      s'.disk x = s.disk x) : diskInode s' no = diskInode s no := by
  have := slotAddr_le ho hno
  unfold diskInode
  refine Inode.ofMem_congr fun j hj => ?_
  rw [Mem.drop_apply, Mem.drop_apply, slotAddr_congr hsb]
  exact hd _ (by unfold slotAddr; omega) (by omega)

/-- Writing a block that is not the inode's. -/
theorem Kept.block (ho : s.part.Ordered) (hno : no < 4096) (hsb : s'.part.sb = s.part.sb) {b : Nat}
    (hb : s.part.sb.dataStartLba ≤ b)
    (hd : ∀ x, 512 * s.part.sb.inodeTableLba ≤ x → x < 512 * b ∨ 512 * b + 512 ≤ x →
      s'.disk x = s.disk x) (howns : OwnBlocks s.part s.disk (diskInode s no))
    (hne : ∀ k ≤ 140, ZyOs.own s.disk (diskInode s no) k ≠ 0 →
      ZyOs.own s.disk (diskInode s no) k ≠ b) : Kept s s' no := by
  refine ⟨diskInode_front ho hno hsb fun x hx hx' => hd x hx (.inl (by omega)), ?_⟩
  intro k hk hk0 j hj
  have h1 := hne k hk hk0
  have h2 := (howns.used k hk hk0).data
  have h3 := ho.table
  exact hd _ (by omega) (by omega)

/-! ### Bitmaps -/

theorem changeBlock_front (ho : s.part.Ordered) {m : Nat}
    (hm : m < 8 * s.part.blockBitmap.bmapBytesLen) (v : Bool) :
    ∀ x, 512 * s.part.sb.inodeTableLba ≤ x → (s.changeBlock m v).disk x = s.disk x := by
  intro x hx
  have h1 := ho.blocks
  have h2 := ho.inodes
  have h3 := ho.blockBytes
  refine Mem.splice_out (.inr ?_)
  show 512 * (s.part.sb.blockBitmapLba + m / 4096) + 512 ≤ x
  omega

theorem Kept.changeBlock (ho : s.part.Ordered) {m : Nat}
    (hm : m < 8 * s.part.blockBitmap.bmapBytesLen) (v : Bool)
    (howns : OwnBlocks s.part s.disk (diskInode s no)) : Kept s (s.changeBlock m v) no :=
  Kept.of_bitmaps rfl ho (changeBlock_front ho hm v) howns

/-! ### The small tree -/

theorem own_single {d : Disk} {n : Inode} (h : ∀ k, 1 ≤ k → k < 13 → n.sector k = 0) {k : Nat}
    (hne : own d n k ≠ 0) : k = 0 := by
  by_contra hk
  by_cases hk140 : k = 140
  · rw [hk140, own_table, Inode.blk, h 12 (by omega) (by omega)] at hne
    exact hne rfl
  · by_cases hk12 : k < 12
    · rw [own_direct d n hk12, Inode.blk, h k (by omega) (by omega)] at hne
      exact hne rfl
    · rw [own, if_neg hk140, dirBlocks, if_neg hk12,
        if_neg fun hc => hc.2 (h 12 (by omega) (by omega))] at hne
      exact hne rfl

theorem smallFs_own (hno : no ∈ smallTree.dirs ∪ smallTree.files)
    (hne : own smallFs.disk (diskInode smallFs no) k ≠ 0) :
    k = 0 ∧ no < 2 ∧ own smallFs.disk (diskInode smallFs no) k = 612 + no := by
  have hnos : ∀ no ∈ smallTree.dirs ∪ smallTree.files,
      (∀ k < 13, 1 ≤ k → (diskInode smallFs no).sector k = 0) ∧
      (no < 2 ∧ (diskInode smallFs no).blk 0 = 612 + no ∨ (diskInode smallFs no).blk 0 = 0) := by
    decide +kernel
  obtain ⟨hsec, hfirst⟩ := hnos no hno
  obtain rfl := own_single (fun k h1 h13 => hsec k h13 h1) hne
  rw [own_direct _ _ (by omega)] at hne ⊢
  rcases hfirst with hfirst | hfirst
  · exact ⟨rfl, hfirst⟩
  · exact absurd hfirst hne

theorem smallFs_volume : Volume smallFs (smallTree.dirs ∪ smallTree.files) where
  drive :=
    { ordered := ⟨by decide, rfl, by decide, rfl, by decide, by decide, by decide, rfl⟩
      fits := smallFs_tree.table
      free := fun n hn _ => by
        have : n < 4096 := hn
        show 612 + n ≤ maxLba
        unfold maxLba
        omega }
  number := smallFs_tree.number
  bit := by decide +kernel
  owns := by
    intro no hno
    refine ⟨fun k _ hne => ?_, fun j _ k _ hj heq => ?_⟩
    · obtain ⟨-, hlt, heq⟩ := smallFs_own hno hne
      rw [heq]
      have hblock : ∀ no < 2, smallFs.part.sb.dataStartLba ≤ 612 + no ∧
          612 + no - smallFs.part.sb.dataStartLba < 8 * smallFs.part.blockBitmap.bmapBytesLen ∧
          smallFs.part.blockBitmap.bitmapScanTest (612 + no - smallFs.part.sb.dataStartLba) ∧
          612 + no ≤ maxLba := by decide
      obtain ⟨hdata, hbit, hused, hdrive⟩ := hblock no hlt
      exact ⟨⟨hdata, hbit, hused⟩, hdrive⟩
    · have hk : own smallFs.disk (diskInode smallFs no) k ≠ 0 := heq ▸ hj
      rw [(smallFs_own hno hj).1, (smallFs_own hno hk).1]
  apart := by
    intro no hno no' hno' hne k _ k' _ hk heq
    have h1 := (smallFs_own hno hk).2.2
    have h2 := (smallFs_own hno' (heq ▸ hk)).2.2
    omega

theorem smallFs_orderly : Orderly smallFs smallTree where
  tree := smallFs_tree
  volume := smallFs_volume
  size := by decide +kernel
  rootBlock := by decide +kernel

end ZyOs
