/-
A directory and its blocks.

An inode owns the blocks its entries point to and, as number 140, the block its table is
in.  What a directory holds depends on those blocks only, so a write anywhere else leaves
it as it was.  A write that puts an entry into a free slot, or into a block of its own,
adds one entry and changes no other; taking one out is the same read backwards.
-/
import ZyOs.Proofs.Tree

namespace ZyOs

open Library

/-- The blocks of an inode; number 140 is its table. -/
def own (d : Disk) (n : Inode) (k : Nat) : Nat :=
  if k = 140 then n.blk 12 else (dirBlocks d n k).toNat

/-- The blocks of an inode are marked, on the drive and not used twice. -/
structure OwnBlocks (part : Partition) (d : Disk) (n : Inode) : Prop where
  used : ∀ k ≤ 140, own d n k ≠ 0 → UsedBlock part (own d n k)
  inj : ∀ j ≤ 140, ∀ k ≤ 140, own d n j ≠ 0 → own d n j = own d n k → j = k

/-- The blocks of an inode hold what they held. -/
def Untouched (d d' : Disk) (n : Inode) : Prop :=
  ∀ k ≤ 140, own d n k ≠ 0 → ∀ i < 512, d' (512 * own d n k + i) = d (512 * own d n k + i)

/-- The blocks of the directory `no` below `parent`. -/
structure DirBody (start : Nat) (d : Disk) (n : Inode) (no parent : Nat) : Prop where
  readable : Readable d n
  cleared : ∀ addr ∈ slots d n, ¬ InUse d addr →
    nameAt d addr = [] ∧ getWord d (addr + 16) = 0
  first : n.sector 0 ≠ 0 ∧ start ≤ n.blk 0
  dot : entryAt d (512 * n.blk 0) = ⟨dotText, no, ftDirectory⟩
  dotdot : entryAt d (512 * n.blk 0 + 24) = ⟨dotdotText, parent, ftDirectory⟩

variable {part part' : Partition} {d d' : Disk} {n n' : Inode} {addr k i b : Nat}

theorem own_of_lt (hk : k < 140) : own d n k = (dirBlocks d n k).toNat := if_neg (by omega)

theorem own_direct (d : Disk) (n : Inode) (hk : k < 12) : own d n k = n.blk k := by
  rw [own_of_lt (by omega), dirBlocks, if_pos hk]
  rfl

theorem own_table (d : Disk) (n : Inode) : own d n 140 = n.blk 12 := if_pos rfl

theorem toNat_ne_zero {x : UInt32} : x.toNat ≠ 0 ↔ x ≠ 0 := by
  rw [ne_eq, ne_eq, ← UInt32.toNat_inj]
  rfl

theorem own_ne_zero (hk : k < 140) : own d n k ≠ 0 ↔ dirBlocks d n k ≠ 0 := by
  rw [own_of_lt hk, toNat_ne_zero]

theorem own_congr (h : Inode.Same n n') (d : Disk) : own d n = own d n' := by
  funext k
  unfold own Inode.blk
  rw [dirBlocks_congr h, h.sectors 12 (by omega)]

theorem mem_slots_own : addr ∈ slots d n ↔
    ∃ k i, k < 140 ∧ own d n k ≠ 0 ∧ i < 21 ∧ addr = 512 * own d n k + 24 * i := by
  rw [mem_slots]
  constructor
  · rintro ⟨k, i, hk, hne, hi, rfl⟩
    exact ⟨k, i, hk, (own_ne_zero hk).mpr hne, hi, by rw [own_of_lt hk]⟩
  · rintro ⟨k, i, hk, hne, hi, rfl⟩
    exact ⟨k, i, hk, (own_ne_zero hk).mp hne, hi, by rw [own_of_lt hk]⟩

theorem OwnBlocks.congr (h : OwnBlocks part d n) (hsame : Inode.Same n n') : OwnBlocks part d n' :=
  ⟨by rw [← own_congr hsame]; exact h.used, by rw [← own_congr hsame]; exact h.inj⟩

theorem OwnBlocks.data (h : OwnBlocks part d n) (hk : k ≤ 140) (hne : own d n k ≠ 0) :
    part.sb.dataStartLba ≤ own d n k := (h.used k hk hne).data

/-! ### Slots -/

theorem nodup_blockSlots (lba : Nat) : (blockSlots lba).Nodup :=
  List.nodup_range.map fun i j h => by simpa using h

theorem nodup_slotsFrom {blocks : Nat → UInt32} : ∀ (m k : Nat),
    (∀ i j, k ≤ i → i < j → j < k + m → blocks i ≠ 0 → blocks i ≠ blocks j) →
    (slotsFrom blocks m k).Nodup := by
  intro m
  induction m with
  | zero => intro k _; exact List.nodup_nil
  | succ m ih =>
      intro k h
      rw [slotsFrom, List.nodup_append]
      refine ⟨?_, ih (k + 1) fun i j h1 h2 h3 => h i j (by omega) h2 (by omega), ?_⟩
      · split
        · exact List.nodup_nil
        · exact nodup_blockSlots _
      · intro x hx y hy hxy
        obtain ⟨j, i', hj1, hj2, hne, hi', rfl⟩ := mem_slotsFrom.mp hy
        by_cases hk : blocks k = 0
        · simp [hk] at hx
        · rw [if_neg hk] at hx
          obtain ⟨i, hi, rfl⟩ := mem_blockSlots.mp hx
          exact h k j (by omega) (by omega) (by omega) hk
            (UInt32.toNat_inj.mp (by omega))

theorem OwnBlocks.nodup (h : OwnBlocks part d n) : (slots d n).Nodup := by
  refine nodup_slotsFrom 140 0 fun i j _ hij hj hne heq => ?_
  have := h.inj i (by omega) j (by omega) ((own_ne_zero (by omega)).mpr hne)
    (by rw [own_of_lt (by omega), own_of_lt (by omega), heq])
  omega

/-- Entries that are read from the same bytes. -/
theorem entryAt_congr (h : ∀ j < 24, d' (addr + j) = d (addr + j)) :
    entryAt d' addr = entryAt d addr := by
  have hword : ∀ k, k + 4 ≤ 24 → getWord d' (addr + k) = getWord d (addr + k) := by
    intro k hk
    refine getWord_congr fun j hj => ?_
    rw [Nat.add_assoc]
    exact h (k + j) (by omega)
  have hname : nameAt d' addr = nameAt d addr := by
    unfold nameAt
    congr 1
    refine List.map_congr_left fun j hj => h j ?_
    have := List.mem_range.mp hj
    omega
  unfold entryAt
  rw [hname, hword 16 (by omega), hword 20 (by omega)]

theorem inUse_congr (h : entryAt d' addr = entryAt d addr) : InUse d' addr ↔ InUse d addr := by
  have : getWord d' (addr + 20) = getWord d (addr + 20) := congrArg Entry.fType h
  unfold InUse
  rw [this]

/-- What clearing says of a slot, as an entry. -/
theorem cleared_congr (h : entryAt d' addr = entryAt d addr) :
    (nameAt d' addr = [] ∧ getWord d' (addr + 16) = 0) ↔
      (nameAt d addr = [] ∧ getWord d (addr + 16) = 0) := by
  have hname : nameAt d' addr = nameAt d addr := congrArg Entry.name h
  have hno : getWord d' (addr + 16) = getWord d (addr + 16) :=
    UInt32.toNat_inj.mp (congrArg Entry.iNo h)
  rw [hname, hno]

/-! ### Writes elsewhere -/

/-- The blocks are known from the inode and the block of the table. -/
theorem dirBlocks_of_table (h : own d n 140 ≠ 0 → ∀ i < 512,
    d' (512 * own d n 140 + i) = d (512 * own d n 140 + i)) : dirBlocks d' n = dirBlocks d n := by
  rw [own_table] at h
  funext k
  unfold dirBlocks
  by_cases hk : k < 12
  · rw [if_pos hk, if_pos hk]
  · rw [if_neg hk, if_neg hk]
    by_cases hk2 : k < 140 ∧ n.sector 12 ≠ 0
    · rw [if_pos hk2, if_pos hk2]
      refine getWord_congr fun j hj => ?_
      have := h (toNat_ne_zero.mpr hk2.2) (4 * (k - 12) + j) (by omega)
      rwa [← Nat.add_assoc] at this
    · rw [if_neg hk2, if_neg hk2]

namespace Untouched

theorem dirBlocks (h : Untouched d d' n) : ZyOs.dirBlocks d' n = ZyOs.dirBlocks d n :=
  dirBlocks_of_table (h 140 (by omega))

theorem own (h : Untouched d d' n) : ZyOs.own d' n = ZyOs.own d n := by
  funext k
  unfold ZyOs.own
  rw [h.dirBlocks]

theorem slots (h : Untouched d d' n) : ZyOs.slots d' n = ZyOs.slots d n := by
  unfold ZyOs.slots
  rw [h.dirBlocks]

theorem entryAt (h : Untouched d d' n) (haddr : addr ∈ ZyOs.slots d n) :
    ZyOs.entryAt d' addr = ZyOs.entryAt d addr := by
  obtain ⟨k, i, hk, hne, hi, rfl⟩ := mem_slots_own.mp haddr
  refine entryAt_congr fun j hj => ?_
  rw [Nat.add_assoc]
  exact h k (by omega) hne (24 * i + j) (by omega)

theorem entries (h : Untouched d d' n) : ZyOs.entries d' n = ZyOs.entries d n := by
  unfold ZyOs.entries
  rw [h.slots, List.filter_congr fun addr haddr =>
    decide_eq_decide.mpr (inUse_congr (h.entryAt haddr))]
  exact List.map_congr_left fun addr haddr => h.entryAt (List.mem_filter.mp haddr).1

theorem trans {d'' : Disk} (h : Untouched d d' n) (h' : Untouched d' d'' n) :
    Untouched d d'' n := by
  intro k hk hne i hi
  have h2 := h' k hk (by rwa [h.own]) i hi
  rw [h.own] at h2
  rw [h2, h k hk hne i hi]

theorem congr (h : Untouched d d' n) (hsame : Inode.Same n n') : Untouched d d' n' := by
  unfold Untouched
  rw [← own_congr hsame]
  exact h

/-- A write in front of the data area. -/
theorem of_front {start : Nat} (hd : ∀ x, 512 * start ≤ x → d' x = d x)
    (hdata : ∀ k ≤ 140, ZyOs.own d n k ≠ 0 → start ≤ ZyOs.own d n k) : Untouched d d' n := by
  intro k hk hne i _
  have := hdata k hk hne
  exact hd _ (by omega)

end Untouched

theorem OwnBlocks.untouched (h : OwnBlocks part d n) (hu : Untouched d d' n) :
    OwnBlocks part d' n :=
  ⟨by rw [hu.own]; exact h.used, by rw [hu.own]; exact h.inj⟩

theorem OwnBlocks.mono (h : OwnBlocks part d n) (hpart : ∀ k ≤ 140, own d n k ≠ 0 →
    UsedBlock part (own d n k) → UsedBlock part' (own d n k)) : OwnBlocks part' d n :=
  ⟨fun k hk hne => hpart k hk hne (h.used k hk hne), h.inj⟩

theorem DirBody.mem_first {start no parent : Nat} (h : DirBody start d n no parent) (hi : i < 21) :
    512 * n.blk 0 + 24 * i ∈ slots d n :=
  mem_slots_own.mpr ⟨0, i, by omega, by rw [own_direct _ _ (by omega)]
                                        exact toNat_ne_zero.mpr h.first.1, hi,
    by rw [own_direct _ _ (by omega)]⟩

theorem DirBody.untouched {start no parent : Nat} (h : DirBody start d n no parent)
    (hu : Untouched d d' n) : DirBody start d' n no parent where
  readable := ⟨h.readable.table, by rw [hu.dirBlocks]; exact h.readable.blocks⟩
  cleared := by
    intro addr haddr hfree
    rw [hu.slots] at haddr
    have heq := hu.entryAt haddr
    rw [inUse_congr heq] at hfree
    exact (cleared_congr heq).mpr (h.cleared addr haddr hfree)
  first := h.first
  dot := (hu.entryAt (h.mem_first (i := 0) (by omega))).trans h.dot
  dotdot := (hu.entryAt (h.mem_first (i := 1) (by omega))).trans h.dotdot

theorem DirBody.congr {start no parent : Nat} (h : DirBody start d n no parent)
    (hsame : Inode.Same n n') : DirBody start d n' no parent := by
  have hblk : n'.blk 0 = n.blk 0 := by rw [Inode.blk, Inode.blk, hsame.sectors 0 (by omega)]
  refine ⟨h.readable.congr hsame, by rw [← slots_congr hsame]; exact h.cleared, ?_, ?_, ?_⟩
  · rw [← hsame.sectors 0 (by omega), hblk]
    exact h.first
  · rw [hblk]; exact h.dot
  · rw [hblk]; exact h.dotdot

/-- The size of an inode says nothing of its blocks. -/
theorem OwnBlocks.resize (h : OwnBlocks part d n) (size : UInt32) :
    OwnBlocks part d { n with iSize := size } := ⟨h.used, h.inj⟩

theorem DirBody.resize {start no parent : Nat} (h : DirBody start d n no parent) (size : UInt32) :
    DirBody start d { n with iSize := size } no parent :=
  ⟨⟨h.readable.table, h.readable.blocks⟩, h.cleared, h.first, h.dot, h.dotdot⟩

theorem entries_congr (h : Inode.Same n n') (d : Disk) : entries d n = entries d n' := by
  unfold entries
  rw [slots_congr h]

end ZyOs
