/-
Where `sync_dir_entry` puts an entry.

It takes the first free slot of the direct blocks the directory has, up to the first
that is missing; that one becomes a new block.  When all twelve are full it takes a
table and a block.  `Spot` names the three outcomes and `Fs.placedAs` is the state each
of them leaves, so that the function is described by one lemma.
-/
import ZyOs.Proofs.DirEdit
import ZyOs.Proofs.Sure

namespace ZyOs

open Library

/-- Where an entry goes: slot `i` of block `k`, a new block `k` at bit `m`, or a new table at
bit `m` with a block at bit `m'`. -/
inductive Spot where
  | slot (k i : Nat)
  | block (k m : Nat)
  | table (m m' : Nat)

/-- Block `k` is there and has no free slot. -/
def FullBlock (d : Disk) (n : Inode) (k : Nat) : Prop :=
  n.sector k ≠ 0 ∧ ∀ i < 21, InUse d (512 * n.blk k + 24 * i)

/-- What `sync_dir_entry` has seen when it decides for a place. -/
def Spot.Fits (s : Fs) (n : Inode) : Spot → Prop
  | .slot k i => k < 12 ∧ (∀ j < k, FullBlock s.disk n j) ∧ n.sector k ≠ 0 ∧ i < 21 ∧
      ¬ InUse s.disk (512 * n.blk k + 24 * i)
  | .block k m => k < 12 ∧ (∀ j < k, FullBlock s.disk n j) ∧ n.sector k = 0 ∧
      s.part.blockBitmap.LowestFree m
  | .table m m' => (∀ j < 12, FullBlock s.disk n j) ∧ s.part.blockBitmap.LowestFree m ∧
      (s.part.take m).blockBitmap.LowestFree m'

/-- A block with an entry in front. -/
def blockWith (src : Mem) : Mem := Mem.splice (fun _ => 0) 0 src 24

/-- The 24 bytes of an entry have been put there, into the directory whose inode is at `a`. -/
def Fs.placedAs (s : Fs) (a : Nat) (src : Mem) : Spot → Fs
  | .slot k i =>
      (s.withDisk (s.disk.splice (512 * (s.inodes a).blk k + 24 * i) src 24)).withInode a
        { s.inodes a with iSize := (s.inodes a).iSize + 24 }
  | .block k m =>
      let lba := s.part.sb.dataStartLba + m
      let s₁ := s.changeBlock m true
      (s₁.withDisk (s₁.disk.splice (512 * lba) (blockWith src) 512)).withInode a
        { (s.inodes a).setSector k (u32 lba) with iSize := (s.inodes a).iSize + 24 }
  | .table m m' =>
      let lba := s.part.sb.dataStartLba + m
      let lba' := s.part.sb.dataStartLba + m'
      let s₁ := (s.changeBlock m true).changeBlock m' true
      let table := tableMem (storeBlock (directBlocks (s.inodes a)) 12 (u32 lba'))
      (s₁.withDisk ((s₁.disk.splice (512 * lba) table 512).splice (512 * lba')
        (blockWith src) 512)).withInode a
        { (s.inodes a).setSector 12 (u32 lba) with iSize := (s.inodes a).iSize + 24 }

/-- A direct block in front of the first missing one has a free slot. -/
def HasSlot (d : Disk) (n : Inode) : Prop :=
  ∃ k < 12, (∀ j ≤ k, n.sector j ≠ 0) ∧ ∃ i < 21, ¬ InUse d (512 * n.blk k + 24 * i)

open Classical in
/-- How many blocks an insertion takes. -/
noncomputable def blocksNeeded (d : Disk) (n : Inode) : Nat :=
  if HasSlot d n then 0 else if ∃ k < 12, n.sector k = 0 then 1 else 2

variable {E : Halt → Prop} {s : Fs} {a k m : Nat} {pDe : DirEntry} {d : Disk}
  {n : Inode}

/-! ### The loop over a block -/

theorem freeSlot_cases (d : Disk) (base : Nat) (buf : Mem) : ∀ (fuel k : Nat), k + fuel = 21 →
    (∃ i, freeSlot (buf.splice 0 (d.drop base) 512) 21 fuel k = some i ∧ i < 21 ∧
      ¬ InUse d (base + 24 * i)) ∨
    (freeSlot (buf.splice 0 (d.drop base) 512) 21 fuel k = none ∧
      ∀ i, k ≤ i → i < 21 → InUse d (base + 24 * i)) := by
  intro fuel
  induction fuel with
  | zero => exact fun k hk => .inr ⟨rfl, fun i h1 h2 => by omega⟩
  | succ fuel ih =>
      intro k hk
      have hword : getWord (buf.splice 0 (d.drop base) 512) (24 * k + 20)
          = getWord d (base + 24 * k + 20) := getWord_read d base buf (by omega)
      rw [freeSlot, if_pos (by omega), hword]
      by_cases hfree : getWord d (base + 24 * k + 20) = ftUnknown
      · rw [if_pos hfree]
        exact .inl ⟨k, rfl, by omega, fun huse => huse hfree⟩
      · rw [if_neg hfree]
        rcases ih (k + 1) (by omega) with hsome | ⟨hnone, hall⟩
        · exact .inl hsome
        refine .inr ⟨hnone, fun i h1 h2 => ?_⟩
        by_cases hik : i = k
        · exact hik ▸ hfree
        · exact hall i (by omega) h2

/-- What is left of a buffer that was cleared up to a sector does not get to the disk. -/
theorem splice_blockWith (d : Disk) (off : Nat) (buf src : Mem) :
    d.splice off ((buf.fill 0 0 512).splice 0 src 24) 512 = d.splice off (blockWith src) 512 := by
  funext x
  unfold Mem.splice
  by_cases hx : off ≤ x ∧ x < off + 512
  · rw [if_pos hx, if_pos hx, blockWith]
    by_cases h24 : x - off < 24
    · rw [Mem.splice, if_pos ⟨by omega, by omega⟩, if_pos ⟨by omega, by omega⟩]
    · rw [Mem.splice, if_neg (by omega), if_neg (by omega), Mem.fill_in (by omega) (by omega)]
  · rw [if_neg hx, if_neg hx]

section Records

variable (s : Fs) (a b m : Nat) (n n' : Inode) (d : Disk) (v : Bool)

theorem withInode_withInode : (s.withInode a n).withInode a n' = s.withInode a n' := by
  unfold Fs.withInode
  congr 1
  funext b
  by_cases hb : b = a
  · rw [if_pos hb, if_pos hb]
  · rw [if_neg hb, if_neg hb]
    exact if_neg hb

theorem changeBlock_withInode :
    (s.withInode a n).changeBlock m v = (s.changeBlock m v).withInode a n := rfl

@[simp] theorem changeBlock_inodes : (s.changeBlock m v).inodes = s.inodes := rfl

@[simp] theorem changeBlock_sb : (s.changeBlock m v).part.sb = s.part.sb := rfl

theorem withDisk_withInode :
    (s.withInode a n).withDisk d = (s.withDisk d).withInode a n := rfl

theorem withDisk_withDisk (d' : Disk) : (s.withDisk d).withDisk d' = s.withDisk d' := rfl

@[simp] theorem withDisk_inodes : (s.withDisk d).inodes = s.inodes := rfl

@[simp] theorem withDisk_disk : (s.withDisk d).disk = d := rfl

theorem withInode_disk : (s.withInode a n).disk = s.disk := rfl

theorem withInode_part : (s.withInode a n).part = s.part := rfl

end Records

theorem wp_putInode {n : Inode} {Q : Unit → Fs → Prop} (h : Q () (s.withInode a n)) :
    Prog.wp E (putInode a n) Q s := Prog.wp_of_run (putInode_run a n s) h

/-! ### A new block -/

section NewBlock

theorem wp_syncFinish (hsize : s.part.sb.dirEntrySize = 24) {block : UInt32}
    (hblock : block.toNat ≤ maxLba) {buf : Mem} {Q : Bool → Fs → Prop}
    (h : Q true ((s.withDisk (s.disk.splice (512 * block.toNat) (blockWith pDe.toMem) 512)).withInode
      a { s.inodes a with iSize := (s.inodes a).iSize + 24 })) :
    Prog.wp E (syncFinish a pDe buf block) Q s := by
  unfold syncFinish
  refine Prog.wp_get_bind (Prog.wp_bind (wp_write hblock (Prog.wp_get_bind
    (Prog.wp_bind (wp_putInode (Prog.wp_pure ?_))))))
  rw [hsize, splice_blockWith]
  exact h

theorem OnDrive.lba (hs : OnDrive s.part) (hm : s.part.blockBitmap.LowestFree m) :
    (u32 (s.part.sb.dataStartLba + m : Nat)).toNat = s.part.sb.dataStartLba + m ∧
      s.part.sb.dataStartLba + m ≤ maxLba := by
  have hint := hs.dataFits.int
  have hbit := hm.bit
  exact ⟨toNat_u32 (by omega), hs.free m hm.bit hm.free⟩

variable (hs : OnDrive s.part)
include hs

theorem wp_syncNewBlock_direct (hk : k < 12) (hsup : Supplies E s.part.blockBitmap 1)
    {blocks : Nat → UInt32} {buf : Mem} {Q : Bool → Fs → Prop}
    (h : ∀ m, s.part.blockBitmap.LowestFree m → Q true (s.placedAs a pDe.toMem (.block k m))) :
    Prog.wp E (syncNewBlock a pDe buf blocks k) Q s := by
  refine Prog.wp_bind (wp_takeSynced hs hsup fun m hm _ => ?_)
  obtain ⟨hlba, hdrive⟩ := OnDrive.lba hs hm
  rw [if_neg (by omega)]
  refine Prog.wp_get_bind ?_
  rw [if_pos hk]
  refine Prog.wp_bind (wp_putInode (wp_syncFinish (by exact hs.ordered.entrySize)
    (hlba.le.trans hdrive) ?_))
  rw [withInode_self, hlba, withInode_disk, withDisk_withInode, withInode_withInode,
    changeBlock_inodes]
  exact h m hm

theorem wp_syncNewBlock_table (hsup : Supplies E s.part.blockBitmap 2)
    {buf : Mem} {Q : Bool → Fs → Prop}
    (h : ∀ m m', s.part.blockBitmap.LowestFree m → (s.part.take m).blockBitmap.LowestFree m' →
      Q true (s.placedAs a pDe.toMem (.table m m'))) :
    Prog.wp E (syncNewBlock a pDe buf (directBlocks (s.inodes a)) 12) Q s := by
  refine Prog.wp_bind (wp_takeSynced hs hsup fun m hm hsup' => ?_)
  obtain ⟨hlba, hdrive⟩ := OnDrive.lba hs hm
  rw [if_neg (by omega)]
  refine Prog.wp_get_bind ?_
  rw [if_neg (by decide), if_pos rfl, changeBlock_inodes]
  refine Prog.wp_bind (wp_putInode (Prog.wp_bind ?_))
  have hs₁ : OnDrive ((s.changeBlock m true).withInode a ((s.inodes a).setSector 12
    (u32 (s.part.sb.dataStartLba + m : Nat)))).part := hs.set (.inl hm) true
  refine wp_takeSynced hs₁ hsup' fun m' hm' _ => ?_
  obtain ⟨hlba', hdrive'⟩ := OnDrive.lba hs₁ hm'
  rw [withInode_part, changeBlock_sb] at hlba' hdrive'
  refine Prog.wp_get_bind ?_
  rw [if_neg (by omega), changeBlock_withInode, withInode_self, withInode_part, changeBlock_sb,
    Inode.sector_setSector _ _ (by omega), if_pos rfl, hlba]
  refine Prog.wp_bind (wp_write hdrive (wp_syncFinish (by exact hs.ordered.entrySize)
    (hlba'.le.trans hdrive') ?_))
  rw [hlba', withDisk_withInode, withInode_self, withInode_disk, withInode_disk,
    withDisk_withInode, withInode_withInode, withDisk_withDisk, withDisk_disk]
  exact h m m' hm hm'

end NewBlock

/-! ### The loop over the blocks -/

theorem not_hasSlot (hfull : ∀ j < k, FullBlock d n j) (hzero : k < 12 → n.sector k = 0)
    (hk : k ≤ 12) : ¬ HasSlot d n := by
  rintro ⟨k', hk', hsome, i, hi, hfree⟩
  by_cases hlt : k' < k
  · exact hfree ((hfull k' hlt).2 i hi)
  · exact hsome k (by omega) (hzero (by omega))

theorem blocksNeeded_block (hfull : ∀ j < k, FullBlock d n j) (hk : k < 12)
    (hzero : n.sector k = 0) : blocksNeeded d n = 1 := by
  rw [blocksNeeded, if_neg (not_hasSlot hfull (fun _ => hzero) hk.le), if_pos ⟨k, hk, hzero⟩]

theorem blocksNeeded_table (hfull : ∀ j < 12, FullBlock d n j) : blocksNeeded d n = 2 := by
  rw [blocksNeeded, if_neg (not_hasSlot hfull (fun h => absurd h (by decide)) le_rfl), if_neg]
  rintro ⟨k, hk, hzero⟩
  exact (hfull k hk).1 hzero

section Loop

variable (hs : OnDrive s.part) (ho : OwnBlocks s.part s.disk (s.inodes a))
  (hsup : Supplies E s.part.blockBitmap (blocksNeeded s.disk (s.inodes a)))
include hs ho hsup

theorem wp_syncLoop {Q : Bool → Fs → Prop}
    (h : ∀ pl : Spot, pl.Fits s (s.inodes a) → Q true (s.placedAs a pDe.toMem pl)) :
    ∀ (fuel k : Nat) (buf : Mem), k ≤ 12 → fuel + k = 140 →
      (∀ j < k, FullBlock s.disk (s.inodes a) j) →
      Prog.wp E (syncLoop a pDe (directBlocks (s.inodes a)) fuel k buf) Q s := by
  intro fuel
  induction fuel with
  | zero => exact fun k buf hk hfuel => absurd hfuel (by omega)
  | succ fuel ih =>
      intro k buf hk hfuel hfull
      rw [syncLoop]
      refine Prog.wp_get_bind ?_
      rw [hs.ordered.entrySize]
      by_cases hk12 : k = 12
      · subst hk12
        rw [if_pos (by rfl)]
        rw [blocksNeeded_table hfull] at hsup
        exact wp_syncNewBlock_table hs hsup fun m m' hm hm' =>
          h (.table m m') ⟨hfull, hm, hm'⟩
      · have hlt : k < 12 := by omega
        rw [directBlocks_eq hlt]
        by_cases hzero : (s.inodes a).sector k = 0
        · rw [if_pos hzero]
          rw [blocksNeeded_block hfull hlt hzero] at hsup
          exact wp_syncNewBlock_direct hs hlt hsup fun m hm =>
            h (.block k m) ⟨hlt, hfull, hzero, hm⟩
        · rw [if_neg hzero]
          have hown := own_direct s.disk (s.inodes a) hlt
          have hused := ho.used k (by omega) (by rw [hown]; exact toNat_ne_zero.mpr hzero)
          rw [hown] at hused
          refine Prog.wp_bind (wp_read hused.drive ?_)
          rcases freeSlot_cases s.disk (512 * (s.inodes a).blk k) buf 21 0 rfl with
            ⟨i, hsome, hi, hfree⟩ | ⟨hnone, hall⟩
          · simp only [show 512 / 24 = 21 by rfl]
            rw [show ((s.inodes a).sector k).toNat = (s.inodes a).blk k from rfl, hsome]
            refine Prog.wp_bind (wp_write hused.drive (Prog.wp_get_bind (Prog.wp_bind
              (wp_putInode (Prog.wp_pure ?_)))))
            rw [Mem.splice_window _ _ _ (by simp only [DirEntry.size]; omega)]
            exact h (.slot k i) ⟨hlt, hfull, hzero, hi, hfree⟩
          · simp only [show 512 / 24 = 21 by rfl]
            rw [show ((s.inodes a).sector k).toNat = (s.inodes a).blk k from rfl, hnone]
            refine ih (k + 1) _ (by omega) (by omega) fun j hj => ?_
            by_cases hjk : j = k
            · exact hjk ▸ ⟨hzero, fun i hi => hall i (by omega) hi⟩
            · exact hfull j (by omega)

/-- `sync_dir_entry` puts the entry into the first place it finds. -/
theorem wp_syncDirEntryAs (hsize : (s.inodes a).iSize.toNat % 24 = 0) {buf : Mem}
    {Q : Bool → Fs → Prop}
    (h : ∀ pl : Spot, pl.Fits s (s.inodes a) → Q true (s.placedAs a pDe.toMem pl)) :
    Prog.wp E (syncDirEntry a pDe buf) Q s := by
  refine Prog.wp_get_bind (Prog.wp_bind (wp_assert ?_ ?_))
  · rw [hs.ordered.entrySize]
    exact hsize
  · exact wp_syncLoop hs ho hsup h 140 0 buf (by omega) rfl fun j hj => absurd hj (by omega)

end Loop

end ZyOs
