/-
The shape of a directory that lives in its direct blocks.

Insertions fill the first hole, removals clear an entry or give a block back.  What holds
after any of them: the size counts the live entries, the first block is there, every other
block has a live entry, and there is no table.  An empty directory, which the kernel tells
by its size, has then no block but the first.
-/
import ZyOs.Proofs.DirMap
import ZyOs.Proofs.Placed

namespace ZyOs

open Library

/-- The slot at `x` is one of the directory's and has an entry. -/
def Live (d : Disk) (n : Inode) (x : Nat) : Prop := x ∈ slots d n ∧ InUse d x

/-- The first two slots of a block are `.` and `..`. -/
structure DotsAt (d : Disk) (base : Nat) : Prop where
  dot : InUse d base ∧ nameAt d base = dotText
  dotdot : InUse d (base + 24) ∧ nameAt d (base + 24) = dotdotText

/-- What holds of a directory between two calls. -/
structure DirShape (s : Fs) (a : Nat) : Prop where
  drive : OnDrive s.part
  owns : OwnBlocks s.part s.disk (s.inodes a)
  size : (s.inodes a).iSize.toNat = 24 * (entries s.disk (s.inodes a)).length
  first : (s.inodes a).sector 0 ≠ 0
  live : ∀ k, 1 ≤ k → k < 12 → (s.inodes a).sector k ≠ 0 →
    ∃ i < 21, InUse s.disk (512 * (s.inodes a).blk k + 24 * i)
  table : (s.inodes a).sector 12 = 0
  dots : DotsAt s.disk (512 * (s.inodes a).blk 0)
  proper : ∀ x, Live s.disk (s.inodes a) x → x ≠ 512 * (s.inodes a).blk 0 →
    x ≠ 512 * (s.inodes a).blk 0 + 24 → Proper (nameAt s.disk x)
  once : ∀ no, NamesOnce s.disk (s.inodes a) no

variable {s s' : Fs} {a addr k i no : Nat} {e : NewEntry} {d d' : Disk} {n n' : Inode}

theorem nameAt_congr (h : entryAt d' addr = entryAt d addr) : nameAt d' addr = nameAt d addr :=
  congrArg Entry.name h

theorem namesAt_congr (h : entryAt d' addr = entryAt d addr) :
    NamesAt d' no addr ↔ NamesAt d no addr := by
  have hno : (getWord d' (addr + 16)).toNat = (getWord d (addr + 16)).toNat := congrArg Entry.iNo h
  rw [NamesAt, NamesAt, inUse_congr h, nameAt_congr h, hno]

theorem DotsAt.congr {base : Nat} (h : DotsAt d base) (h0 : entryAt d' base = entryAt d base)
    (h24 : entryAt d' (base + 24) = entryAt d (base + 24)) : DotsAt d' base :=
  ⟨⟨(inUse_congr h0).mpr h.dot.1, (nameAt_congr h0).trans h.dot.2⟩,
    ⟨(inUse_congr h24).mpr h.dotdot.1, (nameAt_congr h24).trans h.dotdot.2⟩⟩

/-- A directory has room for 140 blocks of entries. -/
theorem entries_length_le (d : Disk) (n : Inode) : (entries d n).length ≤ 2940 := by
  have hfrom : ∀ (m k : Nat), (slotsFrom (dirBlocks d n) m k).length ≤ 21 * m := by
    intro m
    induction m with
    | zero => exact fun _ => Nat.zero_le _
    | succ m ih =>
        intro k
        have hm := ih (k + 1)
        rw [slotsFrom, List.length_append]
        by_cases hk : dirBlocks d n k = 0
        · rw [if_pos hk, List.length_nil]
          omega
        · rw [if_neg hk, blockSlots, List.length_map, List.length_range]
          omega
  rw [entries, List.length_map]
  exact (List.length_filter_le _ _).trans (hfrom 140 0)

theorem mem_slots_direct (d : Disk) (hk : k < 12) (hne : n.sector k ≠ 0) (hi : i < 21) :
    512 * n.blk k + 24 * i ∈ slots d n := by
  have hown := own_direct d n hk
  exact mem_slots_own.mpr ⟨k, i, by omega, hown ▸ toNat_ne_zero.mpr hne, hi, by rw [hown]⟩

namespace DirShape

variable (h : DirShape s a)
include h

theorem dot_live : Live s.disk (s.inodes a) (512 * (s.inodes a).blk 0) :=
  ⟨mem_slots_direct _ (Nat.succ_pos _) h.first (Nat.succ_pos 20), h.dots.dot.1⟩

theorem dotdot_live : Live s.disk (s.inodes a) (512 * (s.inodes a).blk 0 + 24) :=
  ⟨mem_slots_direct _ (i := 1) (Nat.succ_pos _) h.first (by omega), h.dots.dotdot.1⟩

theorem size_mod : (s.inodes a).iSize.toNat % 24 = 0 := by
  rw [h.size]
  omega

end DirShape

/-! ### An entry is put in -/

/-- An entry with a name and a number that the directory does not have. -/
structure NewIn (d : Disk) (n : Inode) (e : NewEntry) : Prop where
  name : ∀ x ∈ entries d n, x.name ≠ e.name
  number : ∀ x ∈ entries d n, x.iNo ≠ e.iNo.toNat

section Put

variable (hput : PutAt s s' a addr e.bytes) (hkeep : KeepsSlots s s' a addr)
include hput hkeep

theorem PutAt.entryAt_kept {x : Nat} (hx : Live s.disk (s.inodes a) x) :
    entryAt s'.disk x = entryAt s.disk x :=
  entryAt_congr (hkeep x hx.1 fun hxa => hput.free (hxa ▸ hx)).2

theorem PutAt.live_iff {x : Nat} : Live s'.disk (s'.inodes a) x ↔
    x = addr ∨ Live s.disk (s.inodes a) x := by
  constructor
  · rintro ⟨hx, huse⟩
    by_cases hxa : x = addr
    · exact .inl hxa
    · rcases hput.rest x hx hxa with ⟨hold, hsame⟩ | hzero
      · exact .inr ⟨hold, (inUse_congr (entryAt_congr hsame)).mp huse⟩
      · exact absurd huse (cleared_of_zeros hzero).1
  · rintro (rfl | hx)
    · exact ⟨hput.mem, HoldsAt.inUse hput.holds⟩
    · exact ⟨(hkeep x hx.1 fun hxa => hput.free (hxa ▸ hx)).1,
        (inUse_congr (hput.entryAt_kept hkeep hx)).mpr hx.2⟩

/-- One entry more. -/
theorem PutAt.entries (ho : OwnBlocks s.part s.disk (s.inodes a)) :
    (entries s'.disk (s'.inodes a)).Perm (e.entry :: ZyOs.entries s.disk (s.inodes a)) := by
  have hnew : ZyOs.entryAt s'.disk addr = e.entry := HoldsAt.entryAt hput.holds
  rw [← hnew]
  exact entries_add ho.nodup hput.owns.nodup hput.free (fun x => hput.live_iff hkeep)
    fun x hx huse => hput.entryAt_kept hkeep ⟨hx, huse⟩

end Put

/-- The blocks of a directory that an insertion has not given a table. -/
structure SameBlocks (n n' : Inode) (addr : Nat) : Prop where
  first : n'.sector 0 = n.sector 0
  direct : ∀ k, 1 ≤ k → k < 12 → n'.sector k ≠ 0 →
    n'.sector k = n.sector k ∨ addr = 512 * n'.blk k
  table : n'.sector 12 = n.sector 12

theorem DirShape.put (h : DirShape s a) (hput : PutAt s s' a addr e.bytes)
    (hkeep : KeepsSlots s s' a addr) (hblocks : SameBlocks (s.inodes a) (s'.inodes a) addr)
    (hnew : NewIn s.disk (s.inodes a) e) : DirShape s' a := by
  have hperm := hput.entries hkeep h.owns
  have hlive := fun x => hput.live_iff hkeep (x := x)
  have hold := fun x hx => hput.entryAt_kept hkeep (x := x) hx
  have hentry : entryAt s'.disk addr = e.entry := HoldsAt.entryAt hput.holds
  have hblk : (s'.inodes a).blk 0 = (s.inodes a).blk 0 := by
    rw [Inode.blk, hblocks.first, Inode.blk]
  have hmem : ∀ {x}, Live s.disk (s.inodes a) x → entryAt s.disk x ∈ entries s.disk (s.inodes a) :=
    fun hx => mem_entries.mpr ⟨_, hx.1, hx.2, rfl⟩
  have hdot := h.dot_live
  have hdotdot := h.dotdot_live
  -- the new names are neither `.` nor `..`
  have hproper : Proper e.name :=
    ⟨fun hc => hnew.name _ (hmem hdot) (h.dots.dot.2.trans hc.symm),
      fun hc => hnew.name _ (hmem hdotdot) (h.dots.dotdot.2.trans hc.symm)⟩
  refine ⟨hput.drive, hput.owns, ?_, ?_, ?_, ?_, ?_, ?_, ?_⟩
  · -- 140 blocks of entries are far from 2 ^ 32 bytes
    have hle := entries_length_le s.disk (s.inodes a)
    have hsize := h.size
    rw [hput.size, hperm.length_eq, List.length_cons, UInt32.toNat_add, hsize,
      show (24 : UInt32).toNat = 24 by rfl]
    omega
  · rw [hblocks.first]
    exact h.first
  · intro k h1 h12 hne
    rcases hblocks.direct k h1 h12 hne with hsame | haddr
    · rw [hsame] at hne
      obtain ⟨i, hi, huse⟩ := h.live k h1 h12 hne
      refine ⟨i, hi, ?_⟩
      rw [Inode.blk, hsame]
      exact ((hlive _).mpr (.inr ⟨mem_slots_direct _ h12 hne hi, huse⟩)).2
    · refine ⟨0, by omega, ?_⟩
      rw [Nat.mul_zero, Nat.add_zero, ← haddr]
      exact ((hlive addr).mpr (.inl rfl)).2
  · rw [hblocks.table]
    exact h.table
  · rw [hblk]
    exact h.dots.congr (hold _ hdot) (hold _ hdotdot)
  · rw [hblk]
    intro x hx h0 h24
    rcases (hlive x).mp hx with rfl | hx
    · rw [show nameAt s'.disk x = e.name from congrArg Entry.name hentry]
      exact hproper
    · rw [nameAt_congr (hold x hx)]
      exact h.proper x hx h0 h24
  · -- the new number is at the new slot only
    have hother : ∀ x, Live s.disk (s.inodes a) x → NamesAt s'.disk e.iNo.toNat x → False := by
      intro x hx hnames
      rw [namesAt_congr (hold x hx)] at hnames
      exact hnew.number _ (hmem hx) hnames.2.2
    have hnumber : ∀ {no}, NamesAt s'.disk no addr → no = e.iNo.toNat := fun hnames =>
      hnames.2.2.symm.trans (congrArg Entry.iNo hentry)
    intro no x hx y hy hnx hny
    rcases (hlive x).mp ⟨hx, hnx.1⟩ with rfl | hx <;> rcases (hlive y).mp ⟨hy, hny.1⟩ with rfl | hy
    · rfl
    · exact (hother y hy (hnumber hnx ▸ hny)).elim
    · exact (hother x hx (hnumber hny ▸ hnx)).elim
    · rw [namesAt_congr (hold x hx)] at hnx
      rw [namesAt_congr (hold y hy)] at hny
      exact h.once no x hx.1 y hy.1 hnx hny

/-- Every live entry lies in one of the 12 direct blocks. -/
def WithinDirect (d : Disk) (n : Inode) : Prop :=
  ∀ x, Live d n x → ∃ k < 12, ∃ i < 21, n.sector k ≠ 0 ∧ x = 512 * n.blk k + 24 * i

theorem withinDirect_of_table (d : Disk) (h12 : n.sector 12 = 0) : WithinDirect d n := by
  intro x hx
  obtain ⟨k, i, hk, hne, hi, rfl⟩ := mem_slots_own.mp hx.1
  have hk12 := lt_of_sector12 h12 hk hne
  rw [own_direct _ _ hk12] at hne ⊢
  exact ⟨k, hk12, i, hi, toNat_ne_zero.mp hne, rfl⟩

/-- `sync_dir_entry` with an entry that is new, unless it goes behind the direct blocks. -/
theorem DirShape.sync (h : DirShape s a) (hnew : NewIn s.disk (s.inodes a) e) {buf : Mem}
    {r : Bool} (hrun : syncDirEntry a e.toDirEntry buf s = .ok (r, s'))
    (hin : WithinDirect s'.disk (s'.inodes a)) : DirShape s' a := by
  have hwp : Prog.wp (fun _ => True) (syncDirEntry a e.toDirEntry buf) (fun _ s' =>
      ∃ pl : Spot, pl.Fits s (s.inodes a) ∧ s' = s.placedAs a e.bytes pl) s :=
    wp_syncDirEntryAs h.drive h.owns (supplies_any _ _) h.size_mod fun pl hpl => ⟨pl, hpl, rfl⟩
  obtain ⟨pl, hpl, rfl⟩ := hwp.of_run hrun
  cases pl with
  | slot k i =>
      obtain ⟨hput, hkeep⟩ := putAt_slot h.drive h.owns hpl.1 hpl.2.2.1 hpl.2.2.2.1 hpl.2.2.2.2
        e.bytes
      refine h.put hput hkeep ?_ hnew
      rw [show (s.placedAs a e.bytes (.slot k i)).inodes a
        = { s.inodes a with iSize := (s.inodes a).iSize + 24 } from withInode_self ..]
      exact ⟨rfl, fun _ _ _ _ => .inl rfl, rfl⟩
  | block k m =>
      obtain ⟨hk, -, hzero, hm⟩ := hpl
      obtain ⟨hput, hkeep⟩ := putAt_block h.drive h.owns hk hzero hm e.bytes
      refine h.put hput hkeep ?_ hnew
      have hsec : ∀ j, ((s.placedAs a e.bytes (.block k m)).inodes a).sector j
          = if j = k then u32 (s.part.sb.dataStartLba + m : Nat) else (s.inodes a).sector j := by
        intro j
        rw [show (s.placedAs a e.bytes (.block k m)).inodes a
          = { (s.inodes a).setSector k (u32 (s.part.sb.dataStartLba + m : Nat)) with
              iSize := (s.inodes a).iSize + 24 } from withInode_self ..]
        exact Inode.sector_setSector (s.inodes a) _ (by omega)
      have hk0 : k ≠ 0 := fun hc => h.first (hc ▸ hzero)
      refine ⟨by rw [hsec, if_neg hk0.symm], fun j _ _ _ => ?_, by rw [hsec, if_neg (by omega)]⟩
      by_cases hj : j = k
      · rw [Inode.blk, hsec, if_pos hj, (h.drive.lba hm).1]
        exact .inr rfl
      · rw [hsec, if_neg hj]
        exact .inl rfl
  | table m m' =>
      -- the entry lies behind the direct blocks
      obtain ⟨-, hm, hm'⟩ := hpl
      have hput := putAt_table h.drive h.owns hm hm' e.bytes
      obtain ⟨k, hk, i, hi, hne, heq⟩ := hin _ ⟨hput.mem, HoldsAt.inUse hput.holds⟩
      have hsec : ((s.placedAs a e.bytes (.table m m')).inodes a).sector k
          = (s.inodes a).sector k := by
        rw [show (s.placedAs a e.bytes (.table m m')).inodes a
          = { (s.inodes a).setSector 12 (u32 (s.part.sb.dataStartLba + m : Nat)) with
              iSize := (s.inodes a).iSize + 24 } from withInode_self ..]
        exact (Inode.sector_setSector (s.inodes a) _ (by omega)).trans (if_neg (by omega))
      rw [Inode.blk, hsec] at heq
      rw [hsec] at hne
      refine absurd ?_ (not_mem_of_fresh h.owns (LowestFree.free_before hm').1)
      rw [heq]
      exact mem_slots_direct _ hk hne hi

/-! ### An entry is taken out -/

/-- What a removal leaves of the directory. -/
structure CutAt (s s' : Fs) (a addr : Nat) : Prop where
  drive : OnDrive s'.part
  owns : OwnBlocks s'.part s'.disk (s'.inodes a)
  size : (s'.inodes a).iSize = (s.inodes a).iSize - 24
  live : ∀ x, Live s'.disk (s'.inodes a) x ↔ Live s.disk (s.inodes a) x ∧ x ≠ addr
  kept : ∀ x, Live s'.disk (s'.inodes a) x → entryAt s'.disk x = entryAt s.disk x
  sectors : ∀ k < 13, (s'.inodes a).sector k ≠ 0 → (s'.inodes a).sector k = (s.inodes a).sector k
  first : (s'.inodes a).sector 0 = (s.inodes a).sector 0

theorem DirShape.cut (h : DirShape s a) (hcut : CutAt s s' a addr)
    (hlive : Live s.disk (s.inodes a) addr) (hproper : Proper (nameAt s.disk addr))
    (hblocks : ∀ k, 1 ≤ k → k < 12 → (s'.inodes a).sector k ≠ 0 →
      ∃ i < 21, InUse s.disk (512 * (s.inodes a).blk k + 24 * i) ∧
        512 * (s.inodes a).blk k + 24 * i ≠ addr) : DirShape s' a := by
  have hperm : (entries s.disk (s.inodes a)).Perm
      (entryAt s.disk addr :: entries s'.disk (s'.inodes a)) := by
    refine entries_add hcut.owns.nodup h.owns.nodup (fun hc => ((hcut.live addr).mp hc).2 rfl)
      (fun x => ?_) fun x hx huse => (hcut.kept x ⟨hx, huse⟩).symm
    change Live s.disk (s.inodes a) x ↔ x = addr ∨ Live s'.disk (s'.inodes a) x
    rw [hcut.live]
    by_cases hxa : x = addr
    · exact ⟨fun _ => .inl hxa, fun _ => hxa ▸ hlive⟩
    · exact ⟨fun hx => .inr ⟨hx, hxa⟩, fun hx => (hx.resolve_left hxa).1⟩
  have hblk : (s'.inodes a).blk 0 = (s.inodes a).blk 0 := by
    rw [Inode.blk, hcut.first, Inode.blk]
  have hdot : Live s'.disk (s'.inodes a) (512 * (s.inodes a).blk 0) :=
    (hcut.live _).mpr ⟨h.dot_live, fun hc => hproper.1 (hc ▸ h.dots.dot.2)⟩
  have hdotdot : Live s'.disk (s'.inodes a) (512 * (s.inodes a).blk 0 + 24) :=
    (hcut.live _).mpr ⟨h.dotdot_live, fun hc => hproper.2 (hc ▸ h.dots.dotdot.2)⟩
  refine ⟨hcut.drive, hcut.owns, ?_, ?_, ?_, ?_, ?_, ?_, ?_⟩
  · have hsize := h.size
    have hlt := UInt32.toNat_lt_size (s.inodes a).iSize
    rw [hperm.length_eq, List.length_cons] at hsize
    have hle : (24 : UInt32) ≤ (s.inodes a).iSize := by
      rw [UInt32.le_iff_toNat_le, hsize, show (24 : UInt32).toNat = 24 by rfl]
      omega
    rw [hcut.size, UInt32.toNat_sub_of_le _ _ hle, hsize, show (24 : UInt32).toNat = 24 by rfl]
    omega
  · rw [hcut.first]
    exact h.first
  · intro k h1 h12 hne
    obtain ⟨i, hi, huse, hother⟩ := hblocks k h1 h12 hne
    have hsame := hcut.sectors k (by omega) hne
    refine ⟨i, hi, ?_⟩
    rw [Inode.blk, hsame]
    exact ((hcut.live _).mpr ⟨⟨mem_slots_direct _ h12 (hsame ▸ hne) hi, huse⟩, hother⟩).2
  · by_contra hne
    exact hne ((hcut.sectors 12 (by omega) hne).trans h.table)
  · rw [hblk]
    exact h.dots.congr (hcut.kept _ hdot) (hcut.kept _ hdotdot)
  · rw [hblk]
    intro x hx h0 h24
    rw [nameAt_congr (hcut.kept x hx)]
    exact h.proper x ((hcut.live x).mp hx).1 h0 h24
  · intro no x hx y hy hnx hny
    have hlx : Live s'.disk (s'.inodes a) x := ⟨hx, hnx.1⟩
    have hly : Live s'.disk (s'.inodes a) y := ⟨hy, hny.1⟩
    rw [namesAt_congr (hcut.kept x hlx)] at hnx
    rw [namesAt_congr (hcut.kept y hly)] at hny
    exact h.once no x ((hcut.live x).mp hlx).1.1 y ((hcut.live y).mp hly).1.1 hnx hny

theorem slotCleared_sector (s : Fs) (a addr k : Nat) :
    ((s.slotCleared a addr).inodes a).sector k = (s.inodes a).sector k := by
  rw [show (s.slotCleared a addr).inodes a
    = { s.inodes a with iSize := (s.inodes a).iSize - 24 } from withInode_self ..]
  rfl

theorem blockDropped_sector (s : Fs) (a : Nat) (hk : k < 12) (j : Nat) :
    ((s.blockDropped a k).inodes a).sector j = if j = k then 0 else (s.inodes a).sector j := by
  rw [show (s.blockDropped a k).inodes a
    = { (s.inodes a).setSector k 0 with iSize := (s.inodes a).iSize - 24 } from withInode_self ..]
  exact Inode.sector_setSector (s.inodes a) 0 (by omega)

theorem cutAt_clear (hs : OnDrive s.part) (ho : OwnBlocks s.part s.disk (s.inodes a))
    (haddr : addr ∈ slots s.disk (s.inodes a)) : CutAt s (s.slotCleared a addr) a addr := by
  have hd := splice_outside (d := s.disk) (fun _ => 0) addr 24
  obtain ⟨-, hslots, howns⟩ := ho.slot hd haddr
  have hzero : ¬ InUse (s.slotCleared a addr).disk addr :=
    (cleared_of_zeros fun j hj => Mem.splice_at hj).1
  have hinode : (s.slotCleared a addr).inodes a
      = { s.inodes a with iSize := (s.inodes a).iSize - 24 } := withInode_self ..
  have hmem : ∀ x, x ∈ slots (s.slotCleared a addr).disk ((s.slotCleared a addr).inodes a) ↔
      x ∈ slots s.disk (s.inodes a) := fun x => by
    rw [hinode]
    exact iff_of_eq (congrArg (x ∈ ·) hslots)
  have hsame : ∀ x ∈ slots s.disk (s.inodes a), x ≠ addr →
      entryAt (s.slotCleared a addr).disk x = entryAt s.disk x := fun x hx hxa =>
    entryAt_other hd haddr hx hxa
  refine ⟨hs, ?_, by rw [hinode], fun x => ?_, fun x hx => ?_,
    fun k _ _ => slotCleared_sector s a addr k, slotCleared_sector s a addr 0⟩
  · rw [hinode]
    exact howns.resize _
  · rw [Live, Live, hmem]
    constructor
    · rintro ⟨hx, huse⟩
      have hxa : x ≠ addr := fun hc => hzero (hc ▸ huse)
      exact ⟨⟨hx, (inUse_congr (hsame x hx hxa)).mp huse⟩, hxa⟩
    · rintro ⟨⟨hx, huse⟩, hxa⟩
      exact ⟨hx, (inUse_congr (hsame x hx hxa)).mpr huse⟩
  · exact hsame x ((hmem x).mp hx.1) fun hc => hzero (hc ▸ hx.2)

theorem cutAt_drop (hs : OnDrive s.part) (ho : OwnBlocks s.part s.disk (s.inodes a)) (hk : k < 12)
    (hk0 : k ≠ 0) (hne : own s.disk (s.inodes a) k ≠ 0)
    (honly : ∀ j < 21, InUse s.disk (512 * own s.disk (s.inodes a) k + 24 * j) → j = i)
    (hi : i < 21) :
    CutAt s (s.blockDropped a k) a (512 * own s.disk (s.inodes a) k + 24 * i) := by
  have hused := ho.used k (by omega) hne
  have hdata := hused.data
  have hdrive := hused.drive
  have hfront := changeBlock_front hs.ordered hused.bit false
  have htable := hs.ordered.table
  have hu : Untouched s.disk (s.blockDropped a k).disk (s.inodes a) :=
    Untouched.of_front (fun x (hx : 512 * s.part.sb.dataStartLba ≤ x) => hfront x (by omega))
      fun j hj hj0 => (ho.used j hj hj0).data
  have hmono : ∀ lba, lba ≠ own s.disk (s.inodes a) k → UsedBlock s.part lba →
      UsedBlock (s.blockDropped a k).part lba := fun lba hlba h => h.free hdata hlba
  have hinode : (s.blockDropped a k).inodes a
      = { (s.inodes a).setSector k 0 with iSize := (s.inodes a).iSize - 24 } := withInode_self ..
  have hsec := blockDropped_sector s a hk
  have hmem : ∀ x, x ∈ slots (s.blockDropped a k).disk ((s.blockDropped a k).inodes a) ↔
      x ∈ slots s.disk (s.inodes a) ∧ ∀ i < 21, x ≠ 512 * own s.disk (s.inodes a) k + 24 * i := by
    intro x
    rw [hinode]
    exact ho.mem_dropBlock hk hu
  have hsame := fun x (hx : x ∈ slots s.disk (s.inodes a)) => hu.entryAt hx
  refine ⟨hs.set (.inr ⟨hused.bit, by omega⟩) false, ?_, by rw [hinode], fun x => ?_,
    fun x hx => hsame x ((hmem x).mp hx.1).1, fun j hj hj0 => ?_, ?_⟩
  · rw [hinode]
    exact (ho.dropBlock hk hu hmono).resize _
  · rw [Live, Live, hmem]
    constructor
    · rintro ⟨⟨hx, hout⟩, huse⟩
      exact ⟨⟨hx, (inUse_congr (hsame x hx)).mp huse⟩, hout i hi⟩
    · rintro ⟨⟨hx, huse⟩, hxa⟩
      refine ⟨⟨hx, fun j hj hc => hxa ?_⟩, (inUse_congr (hsame x hx)).mpr huse⟩
      rw [hc, honly j hj (hc ▸ huse)]
  · rw [hsec] at hj0 ⊢
    by_cases hjk : j = k
    · exact absurd (if_pos hjk) hj0
    · rw [if_neg hjk]
  · rw [hsec, if_neg hk0.symm]

/-- Writing the inode back changes nothing of it. -/
theorem CutAt.writtenBack (h : CutAt s s' a addr) : CutAt s (s'.writtenBack a) a addr := by
  have hu : Untouched s'.disk (s'.writtenBack a).disk (s'.inodes a) :=
    Untouched.of_front (writtenBack_data h.drive.ordered a) fun j hj hj0 =>
      (h.owns.used j hj hj0).data
  have hlive : ∀ x, Live (s'.writtenBack a).disk (s'.inodes a) x ↔
      Live s'.disk (s'.inodes a) x := by
    intro x
    rw [Live, Live, hu.slots]
    exact and_congr_right fun hx => inUse_congr (hu.entryAt hx)
  exact ⟨h.drive, h.owns.untouched hu, h.size, fun x => (hlive x).trans (h.live x),
    fun x hx => (hu.entryAt ((hlive x).mp hx).1).trans (h.kept x ((hlive x).mp hx)), h.sectors,
    h.first⟩

/-- `delete_dir_entry`, with whatever number. -/
theorem DirShape.delete (h : DirShape s a) {r : Bool}
    (hrun : deleteDirEntry a no s = .ok (r, s')) : DirShape s' a := by
  have hsize : 24 ≤ (s.inodes a).iSize.toNat := by
    have hmem : entryAt s.disk (512 * (s.inodes a).blk 0) ∈ entries s.disk (s.inodes a) :=
      mem_entries.mpr ⟨_, h.dot_live.1, h.dot_live.2, rfl⟩
    have hpos := List.length_pos_of_mem hmem
    rw [h.size]
    omega
  have hdirect : ∀ {k}, k < 140 → own s.disk (s.inodes a) k ≠ 0 → k < 12 := fun hk hne =>
    lt_of_sector12 h.table hk hne
  -- outside the first block every entry has a name of its own
  have hproper : ∀ {k j}, k < 12 → own s.disk (s.inodes a) k ≠ 0 → k ≠ 0 → j < 21 →
      InUse s.disk (512 * own s.disk (s.inodes a) k + 24 * j) →
      Proper (nameAt s.disk (512 * own s.disk (s.inodes a) k + 24 * j)) := by
    intro k j hk hne hk0 hj huse
    have hblk : own s.disk (s.inodes a) k ≠ (s.inodes a).blk 0 := fun hc => hk0
      (h.owns.inj k (by omega) 0 (by omega) hne (hc.trans (own_direct _ _ (by omega)).symm))
    exact h.proper _ ⟨mem_slots_own.mpr ⟨k, j, by omega, hne, hj, rfl⟩, huse⟩ (by omega) (by omega)
  have hother : ∀ {k k' i}, k < 12 → own s.disk (s.inodes a) k ≠ 0 → i < 21 → k' ≠ k → 1 ≤ k' →
      k' < 12 → (s.inodes a).sector k' ≠ 0 →
      ∃ i' < 21, InUse s.disk (512 * (s.inodes a).blk k' + 24 * i') ∧
        512 * (s.inodes a).blk k' + 24 * i' ≠ 512 * own s.disk (s.inodes a) k + 24 * i := by
    intro k k' i hk hne hi hkk h1 h12 hne'
    obtain ⟨i', hi', huse⟩ := h.live k' h1 h12 hne'
    have hblk : own s.disk (s.inodes a) k ≠ (s.inodes a).blk k' := fun hc => hkk
      (h.owns.inj k (by omega) k' (by omega) hne (hc.trans (own_direct _ _ h12).symm)).symm
    exact ⟨i', hi', huse, by omega⟩
  have hwp := wp_deleteDirEntry (E := fun _ => True) h.drive h.owns hsize (h.once no) (.inl h.table)
    (Q := fun _ s' => DirShape s' a) ⟨fun _ => h, fun k i hk hne hi hnames halone => ?_,
      fun k i hk hne hi hnames halone => ?_⟩
  · exact hwp.of_run hrun
  · have haddr := mem_slots_own.mpr ⟨k, i, hk, hne, hi, rfl⟩
    have hk12 := hdirect hk hne
    refine h.cut (cutAt_clear h.drive h.owns haddr).writtenBack ⟨haddr, hnames.1⟩ hnames.2.1 ?_
    intro k' h1 h12 hne'
    have hne' := (slotCleared_sector s a _ k').symm.trans_ne hne'
    by_cases hkk : k' = k
    · -- the block has another entry, or it would have been given back
      subst hkk
      have hblk := own_direct s.disk (s.inodes a) h12
      rw [← hblk]
      by_contra hnone
      push Not at hnone
      refine halone ⟨fun j hj huse => (hproper h12 hne (by omega) hj huse).1, fun j hj huse _ => ?_⟩
      have := hnone j hj huse
      omega
    · exact hother hk12 hne hi hkk h1 h12 hne'
  · have hblk := own_direct s.disk (s.inodes a) hk
    have hk0 : k ≠ 0 := by
      rintro rfl
      rw [hblk] at halone
      exact halone.1 0 (by omega) h.dots.dot.1 h.dots.dot.2
    have haddr := mem_slots_own.mpr ⟨k, i, by omega, hne, hi, rfl⟩
    refine h.cut (cutAt_drop h.drive h.owns hk hk0 hne (fun j hj huse => halone.2 j hj huse
      (hproper hk hne hk0 hj huse)) hi).writtenBack ⟨haddr, hnames.1⟩ hnames.2.1 ?_
    intro k' h1 h12 hne'
    have hne' := (blockDropped_sector s a hk k').symm.trans_ne hne'
    by_cases hkk : k' = k
    · exact absurd (if_pos hkk) hne'
    · rw [if_neg hkk] at hne'
      exact hother hk hne hi hkk h1 h12 hne'

/-! ### Runs -/

/-- A directory that has only `.` and `..`. -/
structure OnlyDots (s : Fs) (a : Nat) : Prop where
  drive : OnDrive s.part
  first : UsedBlock s.part ((s.inodes a).blk 0)
  rest : ∀ k, 1 ≤ k → k < 13 → (s.inodes a).sector k = 0
  size : (s.inodes a).iSize = 48
  dots : DotsAt s.disk (512 * (s.inodes a).blk 0)
  free : ∀ i, 2 ≤ i → i < 21 → ¬ InUse s.disk (512 * (s.inodes a).blk 0 + 24 * i)

theorem OnlyDots.shape (h : OnlyDots s a) : DirShape s a := by
  have hfirst : (s.inodes a).sector 0 ≠ 0 :=
    toNat_ne_zero.mp (h.first.toMarked.ne_zero h.drive.dataFits)
  have hown : own s.disk (s.inodes a) 0 = (s.inodes a).blk 0 := own_direct _ _ (by omega)
  have howns : OwnBlocks s.part s.disk (s.inodes a) := by
    refine ⟨fun k _ hne => ?_, fun j _ k _ hne heq => ?_⟩
    · rw [own_single h.rest hne, hown]
      exact h.first
    · have hj : j = 0 := own_single h.rest hne
      have hk : k = 0 := own_single h.rest (by rwa [← heq])
      rw [hj, hk]
  have hlive : ∀ x, Live s.disk (s.inodes a) x ↔
      x ∈ [512 * (s.inodes a).blk 0, 512 * (s.inodes a).blk 0 + 24] := by
    intro x
    rw [List.mem_cons, List.mem_singleton]
    constructor
    · rintro ⟨hx, huse⟩
      obtain ⟨k, i, hk, hne, hi, rfl⟩ := mem_slots_own.mp hx
      obtain rfl := own_single h.rest hne
      rw [hown] at huse ⊢
      by_contra hc
      exact h.free i (by omega) hi huse
    · rintro (rfl | rfl)
      · exact ⟨mem_slots_direct _ (Nat.succ_pos _) hfirst (Nat.succ_pos 20), h.dots.dot.1⟩
      · exact ⟨mem_slots_direct _ (i := 1) (Nat.succ_pos _) hfirst (by omega), h.dots.dotdot.1⟩
  have hlen : (entries s.disk (s.inodes a)).length = 2 := by
    have hperm : ((slots s.disk (s.inodes a)).filter (InUse s.disk)).Perm
        [512 * (s.inodes a).blk 0, 512 * (s.inodes a).blk 0 + 24] := by
      refine (List.perm_ext_iff_of_nodup (howns.nodup.filter _) (by simp)).mpr fun x => ?_
      rw [← hlive, List.mem_filter, Live, decide_eq_true_eq]
    rw [entries, List.length_map, hperm.length_eq]
    rfl
  refine ⟨h.drive, howns, ?_, hfirst, ?_, h.rest 12 (by omega) (by omega), h.dots, ?_, ?_⟩
  · rw [hlen, h.size]
    rfl
  · intro k h1 h12 hne
    exact absurd (h.rest k h1 (by omega)) hne
  · intro x hx h0 h24
    have := (hlive x).mp hx
    simp only [List.mem_cons, List.not_mem_nil, or_false] at this
    exact absurd this (by simp [h0, h24])
  · -- `.` and `..` do not count
    intro no x hx y hy hnx hny
    have hx' := (hlive x).mp ⟨hx, hnx.1⟩
    simp only [List.mem_cons, List.not_mem_nil, or_false] at hx'
    rcases hx' with rfl | rfl
    · exact absurd h.dots.dot.2 hnx.2.1.1
    · exact absurd h.dots.dotdot.2 hnx.2.1.2

/-- Calls of `sync_dir_entry` with new entries and of `delete_dir_entry`, in any order, as long
as every live entry lies in the direct blocks. -/
inductive EntryRun (a : Nat) (s₀ : Fs) : Fs → Prop where
  | start : EntryRun a s₀ s₀
  | sync {s s' : Fs} {e : NewEntry} {ioBuf : Mem} {r : Bool} : EntryRun a s₀ s →
      NewIn s.disk (s.inodes a) e → syncDirEntry a e.toDirEntry ioBuf s = .ok (r, s') →
      WithinDirect s'.disk (s'.inodes a) → EntryRun a s₀ s'
  | delete {s s' : Fs} {inodeNo : Nat} {r : Bool} : EntryRun a s₀ s →
      deleteDirEntry a inodeNo s = .ok (r, s') → EntryRun a s₀ s'

theorem DirShape.run {s₀ : Fs} (h₀ : DirShape s₀ a) (h : EntryRun a s₀ s) : DirShape s a := by
  induction h with
  | start => exact h₀
  | sync _ hnew hrun hin ih => exact ih.sync hnew hrun hin
  | delete _ hrun ih => exact ih.delete hrun

/-- The shape as the kernel relies on it. -/
structure WellShaped (s : Fs) (a : Nat) : Prop where
  size : (s.inodes a).iSize.toNat = 24 * (entries s.disk (s.inodes a)).length
  first : (s.inodes a).sector 0 ≠ 0
  live : ∀ k, 1 ≤ k → k < 12 → (s.inodes a).sector k ≠ 0 →
    ∃ i < 21, InUse s.disk (512 * (s.inodes a).blk k + 24 * i)
  table : (s.inodes a).sector 12 = 0
  distinct : ∀ j < 13, ∀ k < 13, (s.inodes a).sector j ≠ 0 →
    (s.inodes a).sector j = (s.inodes a).sector k → j = k

/-- The directory has no block but the first, and `dir_remove` passes its assertions. -/
structure FirstBlockOnly (s : Fs) (a : Nat) : Prop where
  sectors : ∀ k, 1 ≤ k → k < 13 → (s.inodes a).sector k = 0
  asserts : checkFirstBlockOnly (s.inodes a) 12 1 s = .ok ((), s)

theorem DirShape.wellShaped (h : DirShape s a) : WellShaped s a := by
  refine ⟨h.size, h.first, h.live, h.table, fun j hj k hk hne heq => ?_⟩
  have hj12 : j ≠ 12 := fun hc => hne (hc ▸ h.table)
  have hk12 : k ≠ 12 := fun hc => hne (heq.trans (hc ▸ h.table))
  have hown : own s.disk (s.inodes a) j = own s.disk (s.inodes a) k := by
    rw [own_direct _ _ (by omega), own_direct _ _ (by omega), Inode.blk, heq, Inode.blk]
  refine h.owns.inj j (by omega) k (by omega) ?_ hown
  rw [own_direct _ _ (by omega)]
  exact toNat_ne_zero.mpr hne

/-- With two entries there are no others than `.` and `..`. -/
theorem DirShape.empty (h : DirShape s a) (hlen : (entries s.disk (s.inodes a)).length = 2)
    (hk : 1 ≤ k) (hk12 : k < 12) : (s.inodes a).sector k = 0 := by
  by_contra hne
  obtain ⟨i, hi, huse⟩ := h.live k hk hk12 hne
  have hx : Live s.disk (s.inodes a) (512 * (s.inodes a).blk k + 24 * i) :=
    ⟨mem_slots_direct _ hk12 hne hi, huse⟩
  have hblk : (s.inodes a).blk k ≠ (s.inodes a).blk 0 := fun hc => by
    have := h.wellShaped.distinct k (by omega) 0 (by omega) hne (UInt32.toNat_inj.mp hc)
    omega
  have hsub : [512 * (s.inodes a).blk 0, 512 * (s.inodes a).blk 0 + 24,
      512 * (s.inodes a).blk k + 24 * i] ⊆ (slots s.disk (s.inodes a)).filter (InUse s.disk) := by
    intro x hmem
    rw [List.mem_filter, decide_eq_true_eq]
    simp only [List.mem_cons, List.not_mem_nil, or_false] at hmem
    rcases hmem with rfl | rfl | rfl
    · exact h.dot_live
    · exact h.dotdot_live
    · exact hx
  have hnd : [512 * (s.inodes a).blk 0, 512 * (s.inodes a).blk 0 + 24,
      512 * (s.inodes a).blk k + 24 * i].Nodup := by
    simp only [List.nodup_cons, List.mem_cons, List.not_mem_nil, or_false, not_or,
      List.nodup_nil, and_true, not_false_eq_true]
    omega
  have := (hnd.subperm hsub).length_le
  rw [entries, List.length_map] at hlen
  rw [hlen] at this
  exact absurd this (by simp)

theorem checkFirstBlockOnly_run {n : Inode} (h : ∀ k, 1 ≤ k → k < 13 → n.sector k = 0) (s : Fs) :
    ∀ (m k : Nat), 1 ≤ k → k + m = 13 → checkFirstBlockOnly n m k s = .ok ((), s) := by
  intro m
  induction m with
  | zero => exact fun _ _ _ => rfl
  | succ m ih =>
      intro k h1 hk
      rw [checkFirstBlockOnly, Prog.bind_of_run (assertFs_run (h k h1 (by omega)) _ _ s)]
      exact ih (k + 1) (by omega) (by omega)

theorem DirShape.firstBlockOnly (h : DirShape s a) (hempty : dirIsEmpty s a = true) :
    FirstBlockOnly s a := by
  have hlen : (entries s.disk (s.inodes a)).length = 2 := by
    have hsize := h.size
    rw [dirIsEmpty, h.drive.ordered.entrySize, beq_iff_eq] at hempty
    rw [hempty, show (UInt32.ofNat (24 * 2)).toNat = 48 from rfl] at hsize
    omega
  have hsec : ∀ k, 1 ≤ k → k < 13 → (s.inodes a).sector k = 0 := by
    intro k h1 h13
    by_cases hk : k = 12
    · rw [hk]
      exact h.table
    · exact h.empty hlen h1 (by omega)
  exact ⟨hsec, checkFirstBlockOnly_run hsec s 12 1 le_rfl rfl⟩

/-- **Whatever is put into a directory and taken out of it, within its direct blocks, it keeps
its shape, and when it is empty it has its first block only.** -/
theorem dir_keeps_shape (s₀ s : Fs) (a : Nat) (h₀ : OnlyDots s₀ a) (hrun : EntryRun a s₀ s) :
    WellShaped s a ∧ (dirIsEmpty s a = true → FirstBlockOnly s a) :=
  ⟨(h₀.shape.run hrun).wellShaped, (h₀.shape.run hrun).firstBlockOnly⟩

theorem rootFs_onlyDots : OnlyDots rootFs 0 where
  drive :=
    { ordered := ⟨by decide, rfl, by decide, rfl, by decide, by decide, by decide, rfl⟩
      fits := emptyFs_tableFits
      free := by
        intro n hn _
        have : n < 4096 := hn
        show 612 + n ≤ maxLba
        unfold maxLba
        omega }
  first := ⟨⟨by decide, by decide, by decide⟩, by decide⟩
  rest := by decide
  size := rfl
  dots := ⟨by decide +kernel, by decide +kernel⟩
  free := by decide +kernel

/-- A file is put into the empty root, and taken out again. -/
theorem dir_keeps_shape_root : ∃ s s', syncDirEntry 0 (numbered 0).toDirEntry (fun _ => 0) rootFs
      = .ok (true, s) ∧ deleteDirEntry 0 1 s = .ok (true, s') ∧
    WellShaped s' 0 ∧ (dirIsEmpty s' 0 = true → FirstBlockOnly s' 0) := by
  have hsync := Prog.run_of_answer (x := syncDirEntry 0 (numbered 0).toDirEntry (fun _ => 0))
    (s := rootFs) (a := true) (by decide +kernel)
  have hdelete := Prog.run_of_answer (x := deleteDirEntry 0 1)
    (s := Prog.after (syncDirEntry 0 (numbered 0).toDirEntry (fun _ => 0)) rootFs) (a := true)
    (by decide +kernel)
  have h12 : ((Prog.after (syncDirEntry 0 (numbered 0).toDirEntry (fun _ => 0)) rootFs).inodes
      0).sector 12 = 0 := by decide +kernel
  have hnew : NewIn rootFs.disk (rootFs.inodes 0) (numbered 0) :=
    ⟨by decide +kernel, by decide +kernel⟩
  exact ⟨_, _, hsync, hdelete, dir_keeps_shape rootFs _ 0 rootFs_onlyDots
    ((EntryRun.start.sync hnew hsync (withinDirect_of_table _ h12)).delete hdelete)⟩

end ZyOs
