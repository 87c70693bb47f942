/-
A directory after an insertion, seen alone.

Whatever place `sync_dir_entry` finds, the directory's blocks are its own afterwards as
they were before, and each of its slots is the new one, one that it had, with the same
bytes, or a cleared one of a new block.  Nothing is asked of other directories, nor that
the inode is on the disk.
-/
import ZyOs.Proofs.Edited

namespace ZyOs

open Library

variable {s : Fs} {a k i m m' : Nat} {src : Mem} {d d' : Disk} {n n' : Inode}

/-- Slot `addr` has got the bytes `src`. -/
structure PutAt (s s' : Fs) (a addr : Nat) (src : Mem) : Prop where
  drive : OnDrive s'.part
  sb : s'.part.sb = s.part.sb
  owns : OwnBlocks s'.part s'.disk (s'.inodes a)
  size : (s'.inodes a).iSize = (s.inodes a).iSize + 24
  mem : addr ∈ slots s'.disk (s'.inodes a)
  holds : ∀ j < 24, s'.disk (addr + j) = src j
  rest : ∀ x ∈ slots s'.disk (s'.inodes a), x ≠ addr →
    (x ∈ slots s.disk (s.inodes a) ∧ ∀ j < 24, s'.disk (x + j) = s.disk (x + j)) ∨
      ∀ j < 24, s'.disk (x + j) = 0
  free : ¬ (addr ∈ slots s.disk (s.inodes a) ∧ InUse s.disk addr)

/-- The slots that were there still are, with the bytes they had. -/
def KeepsSlots (s s' : Fs) (a addr : Nat) : Prop :=
  ∀ x ∈ slots s.disk (s.inodes a), x ≠ addr →
    x ∈ slots s'.disk (s'.inodes a) ∧ ∀ j < 24, s'.disk (x + j) = s.disk (x + j)

/-! ### A block with an entry in front -/

theorem blockWith_front (src : Mem) {j : Nat} (hj : j < 24) : blockWith src j = src j := by
  rw [blockWith, Mem.splice_in (by omega) (by omega), Nat.sub_zero]

theorem blockWith_rest (src : Mem) {j : Nat} (hj : 24 ≤ j) : blockWith src j = 0 := by
  rw [blockWith, Mem.splice_out (.inr (by omega))]

/-- The slots of such a block, apart from the first, are cleared. -/
theorem blockWith_slot {b : Nat} (hd : ∀ j < 512, d' (512 * b + j) = blockWith src j)
    (hi0 : i ≠ 0) (hi : i < 21) : ∀ j < 24, d' (512 * b + 24 * i + j) = 0 := by
  intro j hj
  rw [Nat.add_assoc, hd _ (by omega), blockWith_rest src (by omega)]

/-! ### The three places -/

/-- Every block of the directory is where it was when the writes go in front of the data or
to blocks that were free. -/
theorem OwnBlocks.untouched_of {part : Partition} (ho : OwnBlocks part d n)
    (hd : ∀ x, 512 * part.sb.dataStartLba ≤ x →
      (∀ b, part.blockBitmap.bitmapScanTest b = false →
        x < 512 * (part.sb.dataStartLba + b) ∨ 512 * (part.sb.dataStartLba + b) + 512 ≤ x) →
      d' x = d x) : Untouched d d' n := by
  intro j hj hj0 x hx
  have hdata := (ho.used j hj hj0).data
  refine hd _ (by omega) fun b hfree => ?_
  have hne : own d n j ≠ part.sb.dataStartLba + b := (ho.used j hj hj0).ne_of_free hfree
  omega

/-- A block that is free has no slot of the directory. -/
theorem not_mem_of_fresh {part : Partition} (ho : OwnBlocks part d n)
    (hfree : part.blockBitmap.bitmapScanTest m = false) :
    512 * (part.sb.dataStartLba + m) ∉ slots d n := by
  intro hmem
  obtain ⟨j, i, hj, hj0, hi, heq⟩ := mem_slots_own.mp hmem
  have hne : own d n j ≠ part.sb.dataStartLba + m :=
    (ho.used j (by omega) hj0).ne_of_free hfree
  omega

section Places

variable (hs : OnDrive s.part) (ho : OwnBlocks s.part s.disk (s.inodes a))
include hs ho

theorem putAt_slot (hk : k < 12) (hne : (s.inodes a).sector k ≠ 0) (hi : i < 21)
    (hfree : ¬ InUse s.disk (512 * (s.inodes a).blk k + 24 * i)) (src : Mem) :
    PutAt s (s.placedAs a src (.slot k i)) a (512 * (s.inodes a).blk k + 24 * i) src ∧
      KeepsSlots s (s.placedAs a src (.slot k i)) a (512 * (s.inodes a).blk k + 24 * i) := by
  have hown : own s.disk (s.inodes a) k = (s.inodes a).blk k := own_direct _ _ hk
  have haddr : 512 * (s.inodes a).blk k + 24 * i ∈ slots s.disk (s.inodes a) :=
    mem_slots_own.mpr ⟨k, i, by omega, by rw [hown]; exact toNat_ne_zero.mpr hne, hi, by rw [hown]⟩
  have hd := splice_outside (d := s.disk) src (512 * (s.inodes a).blk k + 24 * i) 24
  obtain ⟨-, hslots, howns⟩ := ho.slot hd haddr
  have hinode : (s.placedAs a src (.slot k i)).inodes a
      = { s.inodes a with iSize := (s.inodes a).iSize + 24 } := withInode_self ..
  have hsame : ∀ x ∈ slots s.disk (s.inodes a), x ≠ 512 * (s.inodes a).blk k + 24 * i →
      ∀ j < 24, (s.placedAs a src (.slot k i)).disk (x + j) = s.disk (x + j) := by
    intro x hx hxa j hj
    obtain ⟨k₁, i₁, -, -, hi₁, rfl⟩ := mem_slots_own.mp hx
    obtain ⟨k₂, i₂, -, -, hi₂, heq⟩ := mem_slots_own.mp haddr
    refine hd _ ?_
    rw [heq] at hxa ⊢
    rcases Nat.lt_trichotomy (own s.disk (s.inodes a) k₁)
      (own s.disk (s.inodes a) k₂) with h | h | h
    · omega
    · rw [h] at hxa ⊢
      omega
    · omega
  refine ⟨⟨hs, rfl, ?_, ?_, ?_, fun j hj => Mem.splice_at hj, ?_, fun hc => hfree hc.2⟩, ?_⟩
  · rw [hinode]
    exact howns.resize _
  · rw [hinode]
  · rw [hinode]
    exact hslots.symm ▸ haddr
  · rw [hinode]
    intro x hx hxa
    have hx' : x ∈ slots s.disk (s.inodes a) := hslots ▸ hx
    exact .inl ⟨hx', hsame x hx' hxa⟩
  · rw [KeepsSlots, hinode]
    exact fun x hx hxa => ⟨hslots.symm ▸ hx, hsame x hx hxa⟩

theorem putAt_block (hk : k < 12) (hzero : (s.inodes a).sector k = 0)
    (hm : s.part.blockBitmap.LowestFree m) (src : Mem) :
    PutAt s (s.placedAs a src (.block k m)) a (512 * (s.part.sb.dataStartLba + m)) src ∧
      KeepsSlots s (s.placedAs a src (.block k m)) a (512 * (s.part.sb.dataStartLba + m)) := by
  obtain ⟨hlba, hdrive⟩ := hs.lba hm
  have hfront := changeBlock_front hs.ordered hm.bit true
  have htable := hs.ordered.table
  have hu : Untouched s.disk (s.placedAs a src (.block k m)).disk (s.inodes a) :=
    ho.untouched_of fun x hx hout => (Mem.splice_out (hout m hm.free)).trans (hfront x (by omega))
  have hnew : UsedBlock (s.placedAs a src (.block k m)).part
      (u32 (s.part.sb.dataStartLba + m : Nat)).toNat := by
    rw [hlba]
    exact ⟨Marked.taken hm.bit, hdrive⟩
  have hne : (u32 (s.part.sb.dataStartLba + m : Nat)).toNat ≠ 0 :=
    hnew.toMarked.ne_zero (hs.dataFits.take m)
  have hfresh : ∀ j ≤ 140, own s.disk (s.inodes a) j
      ≠ (u32 (s.part.sb.dataStartLba + m : Nat)).toNat := by
    intro j hj heq
    exact ho.ne_free hm hj (heq ▸ hne) (heq.trans hlba)
  have hblock : ∀ j < 512, (s.placedAs a src (.block k m)).disk
      (512 * (s.part.sb.dataStartLba + m) + j) = blockWith src j := fun j hj => Mem.splice_at hj
  have hinode : (s.placedAs a src (.block k m)).inodes a
      = { (s.inodes a).setSector k (u32 (s.part.sb.dataStartLba + m : Nat)) with
          iSize := (s.inodes a).iSize + 24 } := withInode_self ..
  have hsame : ∀ x ∈ slots s.disk (s.inodes a), ∀ j < 24,
      (s.placedAs a src (.block k m)).disk (x + j) = s.disk (x + j) := by
    intro x hx b hb
    obtain ⟨j, i, hj, hj0, hi, rfl⟩ := mem_slots_own.mp hx
    rw [Nat.add_assoc]
    exact hu j (by omega) hj0 _ (by omega)
  refine ⟨⟨hs.set (.inl hm) true, rfl, ?_, ?_, ?_, fun j hj => ?_, ?_, fun hc => ?_⟩, ?_⟩
  · rw [hinode]
    exact (ho.addBlock hk hu hfresh (fun lba h => h.take m) hnew).resize _
  · rw [hinode]
  · rw [hinode]
    exact (hu.mem_addBlock hk hzero hne).mpr (.inr ⟨0, by omega, by rw [hlba]; rfl⟩)
  · rw [hblock j (by omega), blockWith_front src hj]
  · rw [hinode]
    intro x hx hxa
    rcases (hu.mem_addBlock hk hzero hne).mp hx with hx | ⟨i, hi, rfl⟩
    · exact .inl ⟨hx, hsame x hx⟩
    · rw [hlba] at hxa ⊢
      exact .inr (blockWith_slot hblock (fun hi0 => hxa (by rw [hi0]; rfl)) hi)
  · exact not_mem_of_fresh ho hm.free hc.1
  · rw [KeepsSlots, hinode]
    exact fun x hx _ => ⟨(hu.mem_addBlock hk hzero hne).mpr (.inl hx), hsame x hx⟩

end Places

/-! ### A new table -/

/-- The blocks of a directory with a table that has only its first word set. -/
theorem dirBlocks_newTable {b : UInt32} (hsec : ∀ j < 12, n'.sector j = n.sector j)
    (h12 : n'.sector 12 ≠ 0) (htable : ∀ i < 512, d' (512 * n'.blk 12 + i)
      = tableMem (storeBlock (directBlocks n) 12 b) i) (k : Nat) :
    dirBlocks d' n' k = if k < 12 then n.sector k else if k = 12 then b else 0 := by
  unfold dirBlocks
  by_cases hk : k < 12
  · rw [if_pos hk, if_pos hk, hsec k hk]
  · rw [if_neg hk, if_neg hk]
    by_cases hk140 : k < 140
    · rw [if_pos ⟨hk140, h12⟩]
      have hword : getWord d' (512 * n'.blk 12 + 4 * (k - 12))
          = storeBlock (directBlocks n) 12 b (12 + (k - 12)) := by
        rw [← getWord_ofWords (fun k => storeBlock (directBlocks n) 12 b (12 + k)) (k - 12)]
        refine getWord_congr fun j hj => ?_
        rw [Nat.add_assoc, htable _ (by omega)]
        rfl
      rw [hword, show 12 + (k - 12) = k by omega, storeBlock, directBlocks, if_neg hk]
    · rw [if_neg fun hc => hk140 hc.1, if_neg (by omega)]

theorem own_newTable {b : UInt32} (hsec : ∀ j < 12, n'.sector j = n.sector j)
    (h12 : n'.sector 12 ≠ 0) (htable : ∀ i < 512, d' (512 * n'.blk 12 + i)
      = tableMem (storeBlock (directBlocks n) 12 b) i) (k : Nat) :
    own d' n' k = if k < 12 then own d n k else if k = 12 then b.toNat
      else if k = 140 then n'.blk 12 else 0 := by
  unfold own
  rw [dirBlocks_newTable hsec h12 htable]
  by_cases hk : k < 12
  · rw [if_neg (by omega), if_pos hk, if_pos hk, if_neg (by omega), dirBlocks, if_pos hk]
  · rw [if_neg hk, if_neg hk]
    by_cases hk12 : k = 12
    · rw [if_neg (by omega), if_pos hk12, if_pos hk12]
    · rw [if_neg hk12, if_neg hk12]
      rfl

/-- The block that is taken after another was free before. -/
theorem LowestFree.free_before {part : Partition}
    (hm' : (part.take m).blockBitmap.LowestFree m') :
    part.blockBitmap.bitmapScanTest m' = false ∧ m ≠ m' := by
  have hfree := hm'.free
  change (part.blockBitmap.bitmapSet m true).bitmapScanTest m' = false at hfree
  rw [Bitmap.scanTest_set] at hfree
  by_cases h : m' = m
  · rw [if_pos h] at hfree
    exact absurd hfree (by simp)
  · rw [if_neg h] at hfree
    exact ⟨hfree, fun hc => h hc.symm⟩

theorem putAt_table (hs : OnDrive s.part) (ho : OwnBlocks s.part s.disk (s.inodes a))
    (hm : s.part.blockBitmap.LowestFree m) (hm' : (s.part.take m).blockBitmap.LowestFree m')
    (src : Mem) :
    PutAt s (s.placedAs a src (.table m m')) a (512 * (s.part.sb.dataStartLba + m')) src := by
  have hs' : OnDrive (s.changeBlock m true).part := hs.set (.inl hm) true
  obtain ⟨hlba, hdrive⟩ := hs.lba hm
  obtain ⟨hlba', hdrive'⟩ := hs'.lba hm'
  rw [changeBlock_sb] at hlba' hdrive'
  have hfree' := LowestFree.free_before hm'
  have htable := hs.ordered.table
  set v := u32 (s.part.sb.dataStartLba + m : Nat) with hv
  set v' := u32 (s.part.sb.dataStartLba + m' : Nat) with hv'
  have hinode : (s.placedAs a src (.table m m')).inodes a
      = { (s.inodes a).setSector 12 v with iSize := (s.inodes a).iSize + 24 } := withInode_self ..
  have hpart : ∀ lba, UsedBlock s.part lba → UsedBlock (s.placedAs a src (.table m m')).part lba :=
    fun lba h => (h.take m).take m'
  have hused : UsedBlock (s.placedAs a src (.table m m')).part (s.part.sb.dataStartLba + m) :=
    UsedBlock.take ⟨Marked.taken hm.bit, hdrive⟩ m'
  have hused' : UsedBlock (s.placedAs a src (.table m m')).part (s.part.sb.dataStartLba + m') :=
    ⟨Marked.taken hm'.bit, hdrive'⟩
  have hfits : (s.placedAs a src (.table m m')).part.DataFits := (hs.dataFits.take m).take m'
  have hne : v ≠ 0 := toNat_ne_zero.mp (hlba ▸ hused.toMarked.ne_zero hfits)
  have hne' : v' ≠ 0 := toNat_ne_zero.mp (hlba' ▸ hused'.toMarked.ne_zero hfits)
  have hfront : ∀ x, 512 * s.part.sb.inodeTableLba ≤ x →
      ((s.changeBlock m true).changeBlock m' true).disk x = s.disk x := fun x hx =>
    (changeBlock_front hs'.ordered hm'.bit true x hx).trans
      (changeBlock_front hs.ordered hm.bit true x hx)
  have hu : Untouched s.disk (s.placedAs a src (.table m m')).disk (s.inodes a) :=
    ho.untouched_of fun x hx hout => (Mem.splice_out (hout m' hfree'.1)).trans
      ((Mem.splice_out (hout m hm.free)).trans (hfront x (by omega)))
  have hblock : ∀ j < 512, (s.placedAs a src (.table m m')).disk
      (512 * (s.part.sb.dataStartLba + m') + j) = blockWith src j := fun j hj => Mem.splice_at hj
  have hsec : ∀ j < 13, ((s.inodes a).setSector 12 v).sector j
      = if j = 12 then v else (s.inodes a).sector j :=
        fun j _ => Inode.sector_setSector _ _ (by omega)
  have hblk : ((s.inodes a).setSector 12 v).blk 12 = s.part.sb.dataStartLba + m := by
    rw [Inode.blk, hsec 12 (by omega), if_pos rfl, hlba]
  have hown : ∀ j, own (s.placedAs a src (.table m m')).disk ((s.inodes a).setSector 12 v) j
      = if j < 12 then own s.disk (s.inodes a) j else if j = 12 then s.part.sb.dataStartLba + m'
        else if j = 140 then s.part.sb.dataStartLba + m else 0 := by
    intro j
    rw [← hlba', ← hblk]
    refine own_newTable (fun j hj => ?_) ?_ (fun j hj => ?_) j
    · rw [hsec j (by omega), if_neg (by omega)]
    · rw [hsec 12 (by omega), if_pos rfl]
      exact hne
    · rw [hblk]
      exact (Mem.splice_out (by omega)).trans (Mem.splice_at hj)
  have hfresh : ∀ j ≤ 140, own s.disk (s.inodes a) j ≠ 0 →
      own s.disk (s.inodes a) j ≠ s.part.sb.dataStartLba + m ∧
        own s.disk (s.inodes a) j ≠ s.part.sb.dataStartLba + m' := fun j hj hj0 =>
    ⟨ho.ne_free hm hj hj0, (ho.used j hj hj0).ne_of_free hfree'.1⟩
  have howns : OwnBlocks (s.placedAs a src (.table m m')).part
      (s.placedAs a src (.table m m')).disk ((s.inodes a).setSector 12 v) := by
    constructor
    · intro j hj hj0
      rw [hown] at hj0 ⊢
      split_ifs at hj0 ⊢ with h1 h2 h3
      · exact hpart _ (ho.used j hj hj0)
      · exact hused'
      · exact hused
      · exact absurd rfl hj0
    · intro j hj j' hj' hj0 heq
      rw [hown] at hj0
      rw [hown, hown] at heq
      have h0 := hused.toMarked.ne_zero hfits
      have h0' := hused'.toMarked.ne_zero hfits
      have hj1 := hfresh j hj
      have hj2 := hfresh j' hj'
      have hinj := ho.inj j hj j' hj'
      split_ifs at hj0 heq <;> omega
  refine ⟨hs'.set (.inl hm') true, rfl, ?_, ?_, ?_, fun j hj => ?_, ?_, fun hc => ?_⟩
  · rw [hinode]
    exact howns.resize _
  · rw [hinode]
  · rw [hinode]
    refine mem_slots_own.mpr ⟨12, 0, by omega, ?_, by omega, ?_⟩
    · exact (hown 12).symm ▸ hused'.toMarked.ne_zero hfits
    · exact (congrArg (fun b => 512 * b + 24 * 0) (hown 12)).symm
  · rw [hblock j (by omega), blockWith_front src hj]
  · rw [hinode]
    intro x hx hxa
    obtain ⟨j, i, hj, hj0, hi, hx⟩ := mem_slots_own.mp
      (show x ∈ slots _ ((s.inodes a).setSector 12 v) from hx)
    rw [hown] at hj0 hx
    subst hx
    split_ifs at hj0 hxa ⊢ with h1 h2 h3
    · refine .inl ⟨mem_slots_own.mpr ⟨j, i, hj, hj0, hi, rfl⟩, fun b hb => ?_⟩
      rw [Nat.add_assoc]
      exact hu j (by omega) hj0 (24 * i + b) (by omega)
    · exact .inr (blockWith_slot hblock (fun hi0 => hxa (by rw [hi0]; rfl)) hi)
    · omega
    · exact absurd rfl hj0
  · exact not_mem_of_fresh ho hfree'.1 hc.1

/-- Whatever place was found. -/
theorem Spot.Fits.putAt (hs : OnDrive s.part) (ho : OwnBlocks s.part s.disk (s.inodes a))
    {pl : Spot} (hpl : pl.Fits s (s.inodes a)) (src : Mem) :
    ∃ addr, PutAt s (s.placedAs a src pl) a addr src := by
  cases pl with
  | slot k i =>
      exact ⟨_, (putAt_slot hs ho hpl.1 hpl.2.2.1 hpl.2.2.2.1 hpl.2.2.2.2 src).1⟩
  | block k m => exact ⟨_, (putAt_block hs ho hpl.1 hpl.2.2.1 hpl.2.2.2 src).1⟩
  | table m m' => exact ⟨_, putAt_table hs ho hpl.2.1 hpl.2.2 src⟩

end ZyOs
