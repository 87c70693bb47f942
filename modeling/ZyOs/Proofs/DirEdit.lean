/-
Changing one entry of a directory.

There are four ways the kernel does it: it fills a free slot, gives the entry a block of
its own, clears a slot, or gives a block back.  A fifth, a new table in front of a new
block, drops what an older table had.  Each is a write to a few bytes and a change to the
inode; what they come to is one entry more, or one less, and everything else as it was.
-/
import ZyOs.Proofs.DirBody

namespace ZyOs

open Library

/-- The entry a slot shows when `e` has been written into it. -/
def NewEntry.entry (e : NewEntry) : Entry := ⟨e.name, e.iNo.toNat, e.fType⟩

variable {part : Partition} {d d' : Disk} {n n' : Inode} {addr k i b : Nat} {e : NewEntry}
  {start no parent : Nat}

theorem HoldsAt.entryAt (h : HoldsAt d addr e) : entryAt d addr = e.entry := by
  have hfit : FitsName e.name := ⟨e.text, e.short⟩
  have hname : nameAt d addr = e.name :=
    (nameAt_eq_iff hfit).mpr ((holds_match h e.short e.text).mpr rfl)
  rw [ZyOs.entryAt, hname, h.iNo, h.fType]
  rfl

theorem HoldsAt.inUse (h : HoldsAt d addr e) : InUse d addr := by
  rw [InUse, h.fType]
  exact e.typed

/-! ### One entry more -/

/-- One slot more is in use, and those that were say what they said. -/
theorem entries_add (hnd : (slots d n).Nodup) (hnd' : (slots d' n').Nodup)
    (hnew : ¬ (addr ∈ slots d n ∧ InUse d addr))
    (hmem : ∀ x, x ∈ slots d' n' ∧ InUse d' x ↔ x = addr ∨ (x ∈ slots d n ∧ InUse d x))
    (hkeep : ∀ x ∈ slots d n, InUse d x → entryAt d' x = entryAt d x) :
    (entries d' n').Perm (entryAt d' addr :: entries d n) := by
  have hperm : ((slots d' n').filter (InUse d')).Perm (addr :: (slots d n).filter (InUse d)) := by
    refine (List.perm_ext_iff_of_nodup (hnd'.filter _) ?_).mpr fun x => ?_
    · rw [List.nodup_cons]
      exact ⟨by simpa using hnew, hnd.filter _⟩
    · simpa using hmem x
  refine (hperm.map _).trans (List.Perm.of_eq ?_)
  rw [List.map_cons]
  congr 1
  refine List.map_congr_left fun x hx => ?_
  obtain ⟨hx1, hx2⟩ := List.mem_filter.mp hx
  exact hkeep x hx1 (by simpa using hx2)

/-! ### A slot -/

/-- Slots do not overlap. -/
theorem entryAt_other {x : Nat} (hd : ∀ y, y < addr ∨ addr + 24 ≤ y → d' y = d y)
    (haddr : addr ∈ slots d n) (hx : x ∈ slots d n) (hne : x ≠ addr) :
    entryAt d' x = entryAt d x := by
  obtain ⟨k, i, -, -, hi, rfl⟩ := mem_slots_own.mp haddr
  obtain ⟨k', i', -, -, hi', rfl⟩ := mem_slots_own.mp hx
  refine entryAt_congr fun j hj => hd _ ?_
  rcases Nat.lt_trichotomy (own d n k) (own d n k') with hlt | heq | hlt
  · omega
  · rw [heq] at hne ⊢
    omega
  · omega

/-- The table of a directory is in none of its slots. -/
theorem OwnBlocks.dirBlocks_slot (h : OwnBlocks part d n)
    (hd : ∀ y, y < addr ∨ addr + 24 ≤ y → d' y = d y) (haddr : addr ∈ slots d n) :
    dirBlocks d' n = dirBlocks d n := by
  obtain ⟨k, i, hk, hne, hi, rfl⟩ := mem_slots_own.mp haddr
  refine dirBlocks_of_table fun h140 j hj => hd _ ?_
  have : own d n k ≠ own d n 140 := fun heq => by
    have := h.inj k (by omega) 140 (by omega) hne heq
    omega
  omega

theorem OwnBlocks.slot (h : OwnBlocks part d n)
    (hd : ∀ y, y < addr ∨ addr + 24 ≤ y → d' y = d y) (haddr : addr ∈ slots d n) :
    own d' n = own d n ∧ slots d' n = slots d n ∧ OwnBlocks part d' n := by
  have hblocks := h.dirBlocks_slot hd haddr
  have hown : own d' n = own d n := by
    funext k
    unfold own
    rw [hblocks]
  refine ⟨hown, by unfold slots; rw [hblocks], ⟨?_, ?_⟩⟩
  · rw [hown]; exact h.used
  · rw [hown]; exact h.inj

/-- A free slot is filled, or one in use cleared: the rest of the directory stays. -/
theorem DirBody.slot (h : DirBody start d n no parent) (ho : OwnBlocks part d n)
    (hd : ∀ y, y < addr ∨ addr + 24 ≤ y → d' y = d y) (haddr : addr ∈ slots d n)
    (hdot : addr ≠ 512 * n.blk 0) (hdotdot : addr ≠ 512 * n.blk 0 + 24)
    (hcleared : ¬ InUse d' addr → nameAt d' addr = [] ∧ getWord d' (addr + 16) = 0) :
    DirBody start d' n no parent := by
  have hslots := (ho.slot hd haddr).2.1
  refine ⟨⟨h.readable.table, ?_⟩, ?_, h.first, ?_, ?_⟩
  · rw [ho.dirBlocks_slot hd haddr]
    exact h.readable.blocks
  · intro x hx hfree
    rw [hslots] at hx
    by_cases hxa : x = addr
    · subst hxa
      exact hcleared hfree
    · have heq := entryAt_other hd haddr hx hxa
      rw [inUse_congr heq] at hfree
      exact (cleared_congr heq).mpr (h.cleared x hx hfree)
  · exact (entryAt_other hd haddr (h.mem_first (i := 0) (by omega)) hdot.symm).trans h.dot
  · exact (entryAt_other hd haddr (h.mem_first (i := 1) (by omega)) hdotdot.symm).trans h.dotdot

theorem DirBody.inUse_dot (h : DirBody start d n no parent) : InUse d (512 * n.blk 0) := by
  have : getWord d (512 * n.blk 0 + 20) = ftDirectory := congrArg Entry.fType h.dot
  rw [InUse, this]
  decide

theorem DirBody.inUse_dotdot (h : DirBody start d n no parent) : InUse d (512 * n.blk 0 + 24) := by
  have : getWord d (512 * n.blk 0 + 24 + 20) = ftDirectory := congrArg Entry.fType h.dotdot
  rw [InUse, this]
  decide

theorem splice_outside (src : Mem) (off m : Nat) : ∀ y, y < off ∨ off + m ≤ y →
    d.splice off src m y = d y := fun _ hy => Mem.splice_out hy

/-- An entry goes into a free slot. -/
theorem OwnBlocks.fillSlot (ho : OwnBlocks part d n) (haddr : addr ∈ slots d n)
    (hfree : ¬ InUse d addr) (e : NewEntry) :
    (entries (d.splice addr e.bytes 24) n).Perm (e.entry :: entries d n) := by
  have hd := splice_outside (d := d) e.bytes addr 24
  have hholds : HoldsAt (d.splice addr e.bytes 24) addr e := fun k hk => Mem.splice_at hk
  obtain ⟨-, hslots, ho'⟩ := ho.slot hd haddr
  rw [← hholds.entryAt]
  refine entries_add ho.nodup ho'.nodup (fun hc => hfree hc.2) (fun x => ?_) fun x hx huse => ?_
  · rw [hslots]
    by_cases hxa : x = addr
    · subst hxa
      exact ⟨fun _ => .inl rfl, fun _ => ⟨haddr, hholds.inUse⟩⟩
    · constructor
      · rintro ⟨hx, huse⟩
        exact .inr ⟨hx, (inUse_congr (entryAt_other hd haddr hx hxa)).mp huse⟩
      · rintro (hx | ⟨hx, huse⟩)
        · exact absurd hx hxa
        · exact ⟨hx, (inUse_congr (entryAt_other hd haddr hx hxa)).mpr huse⟩
  · exact entryAt_other hd haddr hx fun hxa => hfree (hxa ▸ huse)

theorem DirBody.fillSlot (h : DirBody start d n no parent) (ho : OwnBlocks part d n)
    (haddr : addr ∈ slots d n) (hfree : ¬ InUse d addr) (e : NewEntry) :
    DirBody start (d.splice addr e.bytes 24) n no parent := by
  have hholds : HoldsAt (d.splice addr e.bytes 24) addr e := fun k hk => Mem.splice_at hk
  exact h.slot ho (splice_outside _ _ _) haddr (fun hc => hfree (hc ▸ h.inUse_dot))
    (fun hc => hfree (hc ▸ h.inUse_dotdot)) fun hc => absurd hholds.inUse hc

/-! ### Clearing a slot -/

theorem getWord_zeros {off : Nat} (h : ∀ j < 4, d (off + j) = 0) : getWord d off = 0 := by
  rw [show getWord d off = getWord (fun _ => 0) 0 from
    getWord_congr fun j hj => by rw [h j hj]]
  rfl

/-- A slot of zeros is free and cleared. -/
theorem cleared_of_zeros (h : ∀ j < 24, d (addr + j) = 0) :
    ¬ InUse d addr ∧ nameAt d addr = [] ∧ getWord d (addr + 16) = 0 := by
  have hword : ∀ k, k + 4 ≤ 24 → getWord d (addr + k) = 0 := fun k hk =>
    getWord_zeros fun j hj => by rw [Nat.add_assoc]; exact h (k + j) (by omega)
  refine ⟨fun huse => huse (hword 20 (by omega)), ?_, hword 16 (by omega)⟩
  have h0 := h 0 (by omega)
  rw [nameAt, List.range_succ_eq_map, List.map_cons]
  exact List.takeWhile_cons_of_neg (by simpa using h0)

/-- A slot in use is cleared. -/
theorem OwnBlocks.clearSlot (ho : OwnBlocks part d n) (haddr : addr ∈ slots d n)
    (huse : InUse d addr) :
    (entries d n).Perm (entryAt d addr :: entries (d.splice addr (fun _ => 0) 24) n) := by
  have hd := splice_outside (d := d) (fun _ => 0) addr 24
  obtain ⟨-, hslots, ho'⟩ := ho.slot hd haddr
  have hzero : ¬ InUse (d.splice addr (fun _ => 0) 24) addr :=
    (cleared_of_zeros fun j hj => Mem.splice_at hj).1
  refine entries_add ho'.nodup ho.nodup (fun hc => hzero hc.2) (fun x => ?_) fun x hx hux => ?_
  · rw [hslots]
    by_cases hxa : x = addr
    · subst hxa
      exact ⟨fun _ => .inl rfl, fun _ => ⟨haddr, huse⟩⟩
    · constructor
      · rintro ⟨hx, hux⟩
        exact .inr ⟨hx, (inUse_congr (entryAt_other hd haddr hx hxa)).mpr hux⟩
      · rintro (hx | ⟨hx, hux⟩)
        · exact absurd hx hxa
        · exact ⟨hx, (inUse_congr (entryAt_other hd haddr hx hxa)).mp hux⟩
  · rw [hslots] at hx
    exact (entryAt_other hd haddr hx fun hxa => hzero (hxa ▸ hux)).symm

theorem DirBody.clearSlot (h : DirBody start d n no parent) (ho : OwnBlocks part d n)
    (haddr : addr ∈ slots d n) (hproper : Proper (entryAt d addr).name) :
    DirBody start (d.splice addr (fun _ => 0) 24) n no parent := by
  refine h.slot ho (splice_outside _ _ _) haddr (fun hc => ?_) (fun hc => ?_) fun _ =>
    (cleared_of_zeros fun j hj => Mem.splice_at hj).2
  · rw [hc, h.dot] at hproper
    exact hproper.1 rfl
  · rw [hc, h.dotdot] at hproper
    exact hproper.2 rfl

/-! ### A block of its own -/

theorem own_setSector (d : Disk) (n : Inode) (hk : k < 12) (v : UInt32) (j : Nat) :
    own d (n.setSector k v) j = if j = k then v.toNat else own d n j := by
  have hsec : ∀ j, (n.setSector k v).sector j = if j = k then v else n.sector j := fun j =>
    Inode.sector_setSector n v (by omega)
  have h12 : (n.setSector k v).sector 12 = n.sector 12 := by rw [hsec, if_neg (by omega)]
  unfold own dirBlocks Inode.blk
  rw [h12]
  by_cases hj : j = k
  · subst hj
    rw [if_neg (by omega), if_pos hk, if_pos rfl, hsec, if_pos rfl]
  · rw [if_neg hj, hsec, if_neg hj]

theorem OwnBlocks.readable (h : OwnBlocks part d n) : Readable d n := by
  refine ⟨fun h12 => ?_, fun k hk hne => ?_⟩
  · have := h.used 140 (by omega) (by rw [own_table]; exact toNat_ne_zero.mpr h12)
    rw [own_table] at this
    exact this.drive
  · have := h.used k (by omega) ((own_ne_zero hk).mpr hne)
    rw [own_of_lt hk] at this
    exact this.drive

/-- A block becomes the directory's: it has the entry in front and nothing else. -/
structure NewBlock (d' : Disk) (b : Nat) (e : NewEntry) : Prop where
  holds : HoldsAt d' (512 * b) e
  zeros : ∀ j, 24 ≤ j → j < 512 → d' (512 * b + j) = 0

theorem NewBlock.cleared (h : NewBlock d' b e) (hi0 : i ≠ 0) (hi : i < 21) :
    ¬ InUse d' (512 * b + 24 * i) ∧ nameAt d' (512 * b + 24 * i) = [] ∧
      getWord d' (512 * b + 24 * i + 16) = 0 :=
  cleared_of_zeros fun j hj => by
    rw [Nat.add_assoc]
    exact h.zeros _ (by omega) (by omega)

section AddBlock

variable {part' : Partition} {v : UInt32}

theorem Untouched.mem_addBlock (hu : Untouched d d' n) (hk : k < 12) (hzero : n.sector k = 0)
    (hv : v.toNat ≠ 0) {x : Nat} : x ∈ ZyOs.slots d' (n.setSector k v) ↔
      x ∈ ZyOs.slots d n ∨ ∃ i < 21, x = 512 * v.toNat + 24 * i := by
  have hown := own_setSector d' n hk v
  rw [mem_slots_own, mem_slots_own]
  have hnone : ZyOs.own d n k = 0 := by
    rw [own_direct _ _ hk, Inode.blk, hzero]
    rfl
  constructor
  · rintro ⟨j, i, hj, hne, hi, rfl⟩
    rw [hown] at hne ⊢
    by_cases hjk : j = k
    · rw [if_pos hjk]
      exact .inr ⟨i, hi, rfl⟩
    · rw [if_neg hjk, hu.own] at hne ⊢
      exact .inl ⟨j, i, hj, hne, hi, rfl⟩
  · rintro (⟨j, i, hj, hne, hi, rfl⟩ | ⟨i, hi, rfl⟩)
    · have hjk : j ≠ k := fun h => hne (h ▸ hnone)
      exact ⟨j, i, hj, by rwa [hown, if_neg hjk, hu.own], hi, by rw [hown, if_neg hjk, hu.own]⟩
    · exact ⟨k, i, by omega, by rwa [hown, if_pos rfl], hi, by rw [hown, if_pos rfl]⟩

section

variable (ho : OwnBlocks part d n) (hk : k < 12) (hu : Untouched d d' n)
include ho hk hu

theorem OwnBlocks.addBlock (hfresh : ∀ j ≤ 140, own d n j ≠ v.toNat)
    (hpart : ∀ lba, UsedBlock part lba → UsedBlock part' lba)
    (hv : UsedBlock part' v.toNat) : OwnBlocks part' d' (n.setSector k v) := by
  have hown := own_setSector d' n hk v
  constructor
  · intro j hj hne
    rw [hown] at hne ⊢
    by_cases hjk : j = k
    · rwa [if_pos hjk]
    · rw [if_neg hjk, hu.own] at hne ⊢
      exact hpart _ (ho.used j hj hne)
  · intro j hj j' hj' hne heq
    rw [hown, hown] at heq
    rw [hown] at hne
    by_cases hjk : j = k <;> by_cases hjk' : j' = k
    · rw [hjk, hjk']
    · rw [if_pos hjk, if_neg hjk', hu.own] at heq
      exact absurd heq.symm (hfresh j' hj')
    · rw [if_neg hjk, if_pos hjk', hu.own] at heq
      exact absurd heq (hfresh j hj)
    · rw [if_neg hjk, if_neg hjk', hu.own] at heq
      rw [if_neg hjk, hu.own] at hne
      exact ho.inj j hj j' hj' hne heq

end

theorem DirBody.addBlock (h : DirBody start d n no parent) (hu : Untouched d d' n) (hk : k < 12)
    (hzero : n.sector k = 0) (hv : v.toNat ≠ 0)
    (ho' : OwnBlocks part' d' (n.setSector k v)) (hb : NewBlock d' v.toNat e) :
    DirBody start d' (n.setSector k v) no parent := by
  have hbody := h.untouched hu
  have h0 : k ≠ 0 := fun hk0 => h.first.1 (hk0 ▸ hzero)
  have hsec : (n.setSector k v).sector 0 = n.sector 0 := by
    rw [Inode.sector_setSector n v (by omega), if_neg h0.symm]
  have hblk : (n.setSector k v).blk 0 = n.blk 0 := by rw [Inode.blk, hsec, Inode.blk]
  refine ⟨ho'.readable, fun x hx hfree => ?_, ?_, ?_, ?_⟩
  · rcases (hu.mem_addBlock hk hzero hv).mp hx with hx | ⟨i, hi, rfl⟩
    · exact hbody.cleared x (by rw [hu.slots]; exact hx) hfree
    · by_cases hi0 : i = 0
      · rw [hi0] at hfree
        exact absurd hb.holds.inUse hfree
      · exact (hb.cleared hi0 hi).2
  · rw [hsec, hblk]; exact h.first
  · rw [hblk]; exact hbody.dot
  · rw [hblk]; exact hbody.dotdot

end AddBlock

/-! ### Giving a block back -/

section DropBlock

variable (ho : OwnBlocks part d n) (hk : k < 12) (hu : Untouched d d' n)
include ho hk hu

theorem OwnBlocks.mem_dropBlock {x : Nat} : x ∈ slots d' (n.setSector k 0) ↔
    x ∈ slots d n ∧ ∀ i < 21, x ≠ 512 * own d n k + 24 * i := by
  have hown := own_setSector d' n hk 0
  rw [mem_slots_own, mem_slots_own]
  constructor
  · rintro ⟨j, i, hj, hnej, hi, rfl⟩
    rw [hown] at hnej ⊢
    by_cases hjk : j = k
    · exact absurd (if_pos hjk) hnej
    · rw [if_neg hjk, hu.own] at hnej ⊢
      refine ⟨⟨j, i, hj, hnej, hi, rfl⟩, fun i' hi' heq => hjk ?_⟩
      exact ho.inj j (by omega) k (by omega) hnej (by omega)
  · rintro ⟨⟨j, i, hj, hnej, hi, rfl⟩, hout⟩
    have hjk : j ≠ k := fun hjk => hout i hi (by rw [hjk])
    exact ⟨j, i, hj, by rwa [hown, if_neg hjk, hu.own], hi, by rw [hown, if_neg hjk, hu.own]⟩

theorem OwnBlocks.dropBlock {part' : Partition} (hpart : ∀ lba, lba ≠ own d n k →
    UsedBlock part lba → UsedBlock part' lba) : OwnBlocks part' d' (n.setSector k 0) := by
  have hown := own_setSector d' n hk 0
  constructor
  · intro j hj hnej
    rw [hown] at hnej ⊢
    by_cases hjk : j = k
    · exact absurd (if_pos hjk) hnej
    · rw [if_neg hjk, hu.own] at hnej ⊢
      exact hpart _ (fun heq => hjk (ho.inj j hj k (by omega) hnej heq)) (ho.used j hj hnej)
  · intro j hj j' hj' hnej heq
    rw [hown, hown] at heq
    rw [hown] at hnej
    by_cases hjk : j = k
    · exact absurd (if_pos hjk) hnej
    · rw [if_neg hjk, hu.own] at hnej heq
      by_cases hjk' : j' = k
      · rw [if_pos hjk'] at heq
        exact absurd heq hnej
      · rw [if_neg hjk'] at heq
        exact ho.inj j hj j' hj' hnej heq

/-- The block had one entry. -/
theorem OwnBlocks.entries_dropBlock (hne : own d n k ≠ 0) (hi : i < 21)
    (huse : InUse d (512 * own d n k + 24 * i))
    (honly : ∀ j < 21, InUse d (512 * own d n k + 24 * j) → j = i) {part' : Partition}
    (ho' : OwnBlocks part' d' (n.setSector k 0)) :
    (entries d n).Perm
      (entryAt d (512 * own d n k + 24 * i) :: entries d' (n.setSector k 0)) := by
  have hmem := fun x => ho.mem_dropBlock hk hu (x := x)
  have hin : 512 * own d n k + 24 * i ∈ slots d n :=
    mem_slots_own.mpr ⟨k, i, by omega, hne, hi, rfl⟩
  refine entries_add ho'.nodup ho.nodup (fun hc => ?_) (fun x => ?_) fun x hx _ => ?_
  · exact ((hmem _).mp hc.1).2 i hi rfl
  · rw [hmem]
    constructor
    · rintro ⟨hx, hux⟩
      by_cases hout : ∀ j < 21, x ≠ 512 * own d n k + 24 * j
      · exact .inr ⟨⟨hx, hout⟩, (inUse_congr (hu.entryAt hx)).mpr hux⟩
      · push Not at hout
        obtain ⟨j, hj, rfl⟩ := hout
        exact .inl (by rw [honly j hj hux])
    · rintro (rfl | ⟨⟨hx, -⟩, hux⟩)
      · exact ⟨hin, huse⟩
      · exact ⟨hx, (inUse_congr (hu.entryAt hx)).mp hux⟩
  · exact (hu.entryAt ((hmem x).mp hx).1).symm

theorem DirBody.dropBlock (h : DirBody start d n no parent) (h0 : k ≠ 0) {part' : Partition}
    (ho' : OwnBlocks part' d' (n.setSector k 0)) :
    DirBody start d' (n.setSector k 0) no parent := by
  have hbody := h.untouched hu
  have hsec : (n.setSector k 0).sector 0 = n.sector 0 := by
    rw [Inode.sector_setSector n 0 (by omega), if_neg h0.symm]
  have hblk : (n.setSector k 0).blk 0 = n.blk 0 := by rw [Inode.blk, hsec, Inode.blk]
  refine ⟨ho'.readable, fun x hx hfree => ?_, ?_, ?_, ?_⟩
  · have hx' := ((ho.mem_dropBlock hk hu).mp hx).1
    exact hbody.cleared x (by rw [hu.slots]; exact hx') hfree
  · rw [hsec, hblk]; exact h.first
  · rw [hblk]; exact hbody.dot
  · rw [hblk]; exact hbody.dotdot

end DropBlock

end ZyOs
