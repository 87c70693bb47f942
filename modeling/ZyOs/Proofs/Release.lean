/-
What `inode_release` gives back.

It opens the inode, clears the bits of its blocks and of its table, clears the bit of its
number, wipes its slot and closes it again.  `Releases` is all of that but the opening and
closing, which leave who has what open as it was.
-/
import ZyOs.Proofs.Edited

namespace ZyOs

open Library

/-- The blocks in `B` are marked free; of the disk only the block bitmap changed. -/
structure GivesBack (s s' : Fs) (B : Nat → Prop) : Prop where
  rest : OnlyDisk s s'
  sb : s'.part.sb = s.part.sb
  inodeBitmap : s'.part.inodeBitmap = s.part.inodeBitmap
  len : s'.part.blockBitmap.bmapBytesLen = s.part.blockBitmap.bmapBytesLen
  bits : ∀ m, s'.part.blockBitmap.bitmapScanTest m = true ↔
    s.part.blockBitmap.bitmapScanTest m = true ∧ ¬ B (s.part.sb.dataStartLba + m)
  disk : ∀ x, 512 * s.part.sb.inodeTableLba ≤ x → s'.disk x = s.disk x
  drive : OnDrive s'.part

/-- A block that may be given back: `inode_release` asserts that it is not the first. -/
structure Releasable (part : Partition) (lba : Nat) : Prop where
  first : part.sb.dataStartLba < lba
  bit : lba - part.sb.dataStartLba < 8 * part.blockBitmap.bmapBytesLen
  drive : lba ≤ maxLba

variable {E : Halt → Prop} {s s' s'' : Fs} {a no : Nat} {n : Inode} {B B' : Nat → Prop}

namespace GivesBack

theorem none (hs : OnDrive s.part) (hB : ∀ lba, ¬ B lba) : GivesBack s s B :=
  ⟨⟨rfl, rfl, rfl, rfl, rfl, rfl, rfl⟩, rfl, rfl, rfl, fun m => by simp [hB], fun _ _ => rfl, hs⟩

theorem trans (h : GivesBack s s' B) (h' : GivesBack s' s'' B') :
    GivesBack s s'' (fun lba => B lba ∨ B' lba) := by
  refine ⟨h.rest.trans h'.rest, h'.sb.trans h.sb, h'.inodeBitmap.trans h.inodeBitmap,
    h'.len.trans h.len, fun m => ?_, fun x hx => ?_, h'.drive⟩
  · rw [h'.bits, h.bits, h.sb]
    tauto
  · rw [h'.disk x (by rw [h.sb]; exact hx), h.disk x hx]

theorem congr (h : GivesBack s s' B) (hB : ∀ lba, B lba ↔ B' lba) : GivesBack s s' B' :=
  ⟨h.rest, h.sb, h.inodeBitmap, h.len, fun m => by rw [h.bits, hB], h.disk, h.drive⟩

/-- One block. -/
theorem one (hs : OnDrive s.part) {lba : Nat} (hlba : Releasable s.part lba) :
    GivesBack s (s.changeBlock (lba - s.part.sb.dataStartLba) false) (· = lba) := by
  have hfirst := hlba.first
  have hdrive := hlba.drive
  refine ⟨⟨rfl, rfl, rfl, rfl, rfl, rfl, rfl⟩, rfl, rfl, rfl, fun m => ?_,
    changeBlock_front hs.ordered hlba.bit false,
    hs.set (.inr ⟨hlba.bit, by omega⟩) false⟩
  show (s.part.blockBitmap.bitmapSet _ false).bitmapScanTest m = true ↔ _
  rw [Bitmap.scanTest_set]
  by_cases hm : m = lba - s.part.sb.dataStartLba
  · rw [if_pos hm]
    exact ⟨fun h => absurd h (by simp), fun h => absurd (by omega) h.2⟩
  · rw [if_neg hm]
    exact ⟨fun h => ⟨h, by omega⟩, fun h => h.1⟩

end GivesBack

theorem Releasable.congr {part part' : Partition} {lba : Nat} (h : Releasable part lba)
    (hsb : part'.sb = part.sb)
    (hlen : part'.blockBitmap.bmapBytesLen = part.blockBitmap.bmapBytesLen) :
    Releasable part' lba :=
  ⟨by rw [hsb]; exact h.first, by rw [hsb, hlen]; exact h.bit, h.drive⟩

/-! ### Blocks -/

theorem wp_releaseBlock (hs : OnDrive s.part) {lba : UInt32} (hlba : Releasable s.part lba.toNat) :
    Prog.wp E (releaseBlock lba) (fun _ s' => GivesBack s s' (· = lba.toNat)) s := by
  have hin : InData s.part lba.toNat := ⟨hlba.first.le, hlba.bit⟩
  have hfirst := hlba.first
  refine Prog.wp_get_bind (Prog.wp_bind (wp_assert ?_ ?_))
  · rw [hin.blockBitmapIdx hs.dataFits]
    omega
  · exact wp_giveBlock hs hin hlba.drive (GivesBack.one hs hlba)

theorem wp_releaseLoop {blocks : Nat → UInt32} : ∀ (m k : Nat) (s : Fs), OnDrive s.part →
    (∀ j, k ≤ j → j < k + m → blocks j ≠ 0 → Releasable s.part (blocks j).toNat) →
    Prog.wp E (releaseLoop blocks m k) (fun _ s' => GivesBack s s'
      (fun lba => ∃ j, k ≤ j ∧ j < k + m ∧ blocks j ≠ 0 ∧ lba = (blocks j).toNat)) s := by
  intro m
  induction m with
  | zero =>
      intro k s hs _
      refine Prog.wp_pure (GivesBack.none hs ?_)
      rintro lba ⟨j, h1, h2, -⟩
      omega
  | succ m ih =>
      intro k s hs hall
      refine Prog.wp_ite (fun hk => ?_) fun hk => ?_
      · refine Prog.wp_bind (Prog.wp_mono (wp_releaseBlock hs (hall k (by omega) (by omega) hk))
          fun _ s₁ h₁ => ?_)
        refine Prog.wp_mono (ih (k + 1) s₁ h₁.drive fun j h1 h2 hj =>
          (hall j (by omega) (by omega) hj).congr h₁.sb h₁.len) fun _ s₂ h₂ => ?_
        refine (h₁.trans h₂).congr fun lba => ?_
        constructor
        · rintro (rfl | ⟨j, h1, h2, h3⟩)
          · exact ⟨k, by omega, by omega, hk, rfl⟩
          · exact ⟨j, by omega, by omega, h3⟩
        · rintro ⟨j, h1, h2, h3, rfl⟩
          by_cases hjk : j = k
          · exact .inl (by rw [hjk])
          · exact .inr ⟨j, by omega, by omega, h3, rfl⟩
      · refine Prog.wp_mono (ih (k + 1) s hs fun j h1 h2 hj => hall j (by omega) (by omega) hj)
          fun _ s₂ h₂ => h₂.congr fun lba => ?_
        constructor
        · rintro ⟨j, h1, h2, h3⟩
          exact ⟨j, by omega, by omega, h3⟩
        · rintro ⟨j, h1, h2, h3, rfl⟩
          have : j ≠ k := fun hjk => hk (by rw [← hjk]; exact h3)
          exact ⟨j, by omega, by omega, h3, rfl⟩

/-- The blocks of an inode, its table among them. -/
def OwnedBy (d : Disk) (n : Inode) (lba : Nat) : Prop := ∃ k ≤ 140, own d n k ≠ 0 ∧ lba = own d n k

theorem wp_releaseBlocks (hs : OnDrive s.part)
    (hown : ∀ lba, OwnedBy s.disk (s.inodes a) lba → Releasable s.part lba) :
    Prog.wp E (releaseBlocks a)
      (fun _ s' => GivesBack s s' (OwnedBy s.disk (s.inodes a))) s := by
  have hblock : ∀ j < 140, dirBlocks s.disk (s.inodes a) j ≠ 0 →
      OwnedBy s.disk (s.inodes a) (dirBlocks s.disk (s.inodes a) j).toNat := fun j hj hne =>
    ⟨j, by omega, (own_ne_zero hj).mpr hne, (own_of_lt hj).symm⟩
  refine Prog.wp_get_bind ?_
  by_cases h12 : (s.inodes a).sector 12 = 0
  · rw [if_neg (by simpa using h12), directBlocks_eq_dirBlocks s.disk h12]
    refine Prog.wp_mono (wp_releaseLoop 12 0 s hs fun j _ hj hne =>
      hown _ (hblock j (by omega) hne)) fun _ s₁ h₁ => h₁.congr fun lba => ?_
    constructor
    · rintro ⟨j, -, hj, hne, rfl⟩
      exact hblock j (by omega) hne
    · rintro ⟨k, hk, hne, rfl⟩
      have hk12 : k < 12 := by
        by_contra hge
        refine hne ?_
        by_cases h140 : k = 140
        · rw [h140, own_table, Inode.blk, h12]
          rfl
        · rw [own_of_lt (by omega), dirBlocks, if_neg hge, if_neg fun hc => hc.2 h12]
          rfl
      exact ⟨k, by omega, by omega, (own_ne_zero (by omega)).mp hne, own_of_lt (by omega)⟩
  · rw [if_pos h12]
    have h140 : OwnedBy s.disk (s.inodes a) ((s.inodes a).sector 12).toNat :=
      ⟨140, le_rfl, by rw [own_table]; exact toNat_ne_zero.mpr h12, (own_table _ _).symm⟩
    refine Prog.wp_bind (wp_read (hown _ h140).drive ?_)
    rw [withTable_eq s.disk h12]
    refine Prog.wp_bind (Prog.wp_mono (wp_releaseBlock hs (hown _ h140)) fun _ s₁ h₁ => ?_)
    refine Prog.wp_mono (wp_releaseLoop 140 0 s₁ h₁.drive fun j _ hj hne =>
      (hown _ (hblock j (by omega) hne)).congr h₁.sb h₁.len) fun _ s₂ h₂ => ?_
    refine (h₁.trans h₂).congr fun lba => ?_
    constructor
    · rintro (rfl | ⟨j, -, hj, hne, rfl⟩)
      · exact h140
      · exact hblock j (by omega) hne
    · rintro ⟨k, hk, hne, rfl⟩
      by_cases hk140 : k = 140
      · exact .inl (by rw [hk140, own_table]; rfl)
      · exact .inr ⟨k, by omega, by omega, (own_ne_zero (by omega)).mp hne, own_of_lt (by omega)⟩

/-! ### `inode_release` -/

/-- The inode `n` with the number `no` has been given back. -/
structure Releases (s s' : Fs) (no : Nat) (n : Inode) : Prop where
  rest : OnlyDisk s s'
  sb : s'.part.sb = s.part.sb
  inodeBitmap : s'.part.inodeBitmap = s.part.inodeBitmap.bitmapSet no false
  len : s'.part.blockBitmap.bmapBytesLen = s.part.blockBitmap.bmapBytesLen
  bits : ∀ m, s'.part.blockBitmap.bitmapScanTest m = true ↔
    s.part.blockBitmap.bitmapScanTest m = true ∧ ¬ OwnedBy s.disk n (s.part.sb.dataStartLba + m)
  disk : ∀ x, 512 * s.part.sb.inodeTableLba ≤ x →
    x < slotAddr s.part no ∨ slotAddr s.part no + Inode.size ≤ x → s'.disk x = s.disk x
  drive : OnDrive s'.part

theorem inodeOpen_disk {env : FsEnv} (h : inodeOpen env no s = .ok (a, s')) :
    s'.disk = s.disk ∧ s'.part = s.part := by
  rcases inodeOpen_cases h with ⟨-, -, rfl⟩ | ⟨-, -, rfl⟩
  · exact ⟨rfl, rfl⟩
  · exact ⟨rfl, rfl⟩

theorem syncSector_inode_front (ho : s.part.Ordered) (hno : no < 4096) :
    ∀ x, 512 * s.part.sb.inodeTableLba ≤ x →
      (s.syncSector .inodeBitmap no).disk x = s.disk x := by
  intro x hx
  have := ho.inodes
  refine Mem.splice_out (.inr ?_)
  show 512 * (s.part.sb.inodeBitmapLba + no / 4096) + 512 ≤ x
  omega

/-- `inode_release` of an inode that can be opened. -/
theorem wp_inodeRelease {env : FsEnv} (hs : OnDrive s.part) (hno : no < 4096)
    (hopen : inodeOpen env no s = .ok (a, s')) (hn : (s'.inodes a).iNo.toNat = no)
    (hown : ∀ lba, OwnedBy s.disk (s'.inodes a) lba → Releasable s.part lba)
    {Q : Unit → Fs → Prop}
    (h : ∀ s₂, Releases s' s₂ no (s'.inodes a) → Q () (s₂.closed a)) :
    Prog.wp E (inodeRelease env no) Q s := by
  obtain ⟨hdisk, hpart⟩ := inodeOpen_disk hopen
  rw [← hpart] at hs hown
  rw [← hdisk] at hown
  refine Prog.wp_bind (Prog.wp_of_run hopen (Prog.wp_get_bind (Prog.wp_bind (wp_assert hn ?_))))
  refine Prog.wp_bind (Prog.wp_mono (wp_releaseBlocks hs hown) fun _ s₁ h₁ => ?_)
  have hfits := h₁.drive.setInode no false
  refine Prog.wp_bind (Prog.wp_modify (Prog.wp_bind (wp_sync (by exact hfits) (by
    show no < 8 * s₁.part.inodeBitmap.bmapBytesLen
    rw [h₁.drive.ordered.inodeBytes]
    exact hno) (Prog.wp_bind (wp_wipeInode (by exact hfits.fits) hno ?_)))))
  refine Prog.wp_of_run (inodeClose_run ..) (h _ ?_)
  refine ⟨h₁.rest.trans ⟨rfl, rfl, rfl, rfl, rfl, rfl, rfl⟩, h₁.sb, ?_, h₁.len, h₁.bits,
    fun x hx hout => ?_, hfits⟩
  · exact congrArg (fun b : Bitmap => b.bitmapSet no false) h₁.inodeBitmap
  · have hsb := h₁.sb
    have hslot : slotAddr s₁.part no = slotAddr s'.part no := slotAddr_congr hsb no
    rw [← hslot] at hout
    rw [withDisk_disk, Mem.splice_out (by exact hout)]
    refine (syncSector_inode_front (s := { s₁ with part := { s₁.part with
      inodeBitmap := s₁.part.inodeBitmap.bitmapSet no false } }) hfits.ordered hno x ?_).trans ?_
    · show 512 * s₁.part.sb.inodeTableLba ≤ x
      rw [hsb]
      exact hx
    · exact h₁.disk x hx

/-! ### The volume afterwards -/

section Volume

variable {nos : Finset Nat} {no' : Nat} (h : Releases s s' no n)
include h

theorem Releases.diskInode_ne (hne : no' ≠ no) : diskInode s' no' = diskInode s no' := by
  unfold diskInode
  refine Inode.ofMem_congr fun j hj => ?_
  rw [Mem.drop_apply, Mem.drop_apply, slotAddr_congr h.sb]
  refine h.disk _ (by unfold slotAddr; omega) ?_
  simp only [slotAddr, Inode.size] at hj ⊢
  rcases Nat.lt_or_gt_of_ne hne with hlt | hgt
  · exact .inl (by omega)
  · exact .inr (by omega)

theorem Releases.data (ho : s.part.Ordered) (hno : no < 4096) :
    ∀ x, 512 * s.part.sb.dataStartLba ≤ x → s'.disk x = s.disk x := by
  intro x hx
  have hslot := slotAddr_le ho hno
  have htable := ho.table
  exact h.disk x (by omega) (.inr (by omega))

theorem Releases.kept (ho : s.part.Ordered) (hno : no < 4096) (hne : no' ≠ no)
    (howns : OwnBlocks s.part s.disk (diskInode s no')) : Kept s s' no' :=
  ⟨h.diskInode_ne hne, Untouched.of_front (h.data ho hno)
    fun _ hk hk0 => (howns.used _ hk hk0).data⟩

theorem Releases.volume (hv : Volume s nos) (hno : no ∈ nos)
    (hn : Inode.Same n (diskInode s no)) :
    (∀ m ∈ nos, m ≠ no → Kept s s' m) ∧ Volume s' (nos.erase no) := by
  have ho := hv.drive.ordered
  have hkept : ∀ m ∈ nos, m ≠ no → Kept s s' m := fun m hm hne =>
    h.kept ho (hv.number no hno).1 hne (hv.owns m hm)
  refine ⟨hkept, h.drive, fun m hm => ?_, fun m hm => ?_, fun m hm => ?_, ?_⟩
  · obtain ⟨hne, hm⟩ := Finset.mem_erase.mp hm
    rw [(hkept m hm hne).inode]
    exact hv.number m hm
  · obtain ⟨hne, hm⟩ := Finset.mem_erase.mp hm
    rw [h.inodeBitmap, Bitmap.scanTest_set, if_neg hne]
    exact hv.bit m hm
  · obtain ⟨hne, hm⟩ := Finset.mem_erase.mp hm
    refine (hkept m hm hne).owns (hv.owns m hm) fun k hk hk0 hused => ?_
    have hdata := hused.data
    refine ⟨⟨by rw [h.sb]; exact hused.data, by rw [h.sb, h.len]; exact hused.bit, ?_⟩,
      hused.drive⟩
    rw [h.sb, h.bits]
    refine ⟨hused.used, ?_⟩
    rintro ⟨k', hk', hk0', heq⟩
    rw [own_congr hn] at heq
    exact hv.apart m hm no hno hne k hk k' hk' hk0 (by omega)
  · intro m hm m' hm' hne k hk k' hk' hk0
    obtain ⟨hne1, hm⟩ := Finset.mem_erase.mp hm
    obtain ⟨hne2, hm'⟩ := Finset.mem_erase.mp hm'
    rw [(hkept m hm hne1).own] at hk0 ⊢
    rw [(hkept m' hm' hne2).own]
    exact hv.apart m hm m' hm' hne k hk k' hk' hk0

end Volume

end ZyOs
