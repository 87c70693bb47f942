/-
Directories as maps from names to entries.

As long as a directory lives in its direct blocks its entries fill the slots of the
blocks from the front, one behind the other, and `DirHolds` says just that.  The
lookup walks the blocks in the same order, so every entry is found.

An insertion into a directory whose 12 direct blocks are full does not look at the
indirect table.  It finds `all_blocks[12]` empty, takes a new table and a new block,
and the entry that was in the old table's block is gone: after any number of such
insertions the table holds one block with one entry, the last.
-/
import ZyOs.Proofs.Block
import ZyOs.Proofs.DirEntry
import ZyOs.Proofs.Inode

namespace ZyOs

open Library

/-! ### The blocks of a directory -/

/-- The sector number of block `k`. -/
def Inode.blk (n : Inode) (k : Nat) : Nat := (n.sector k).toNat

/-- Where slot `i` of a directory lies on the disk. -/
def slotPos (inode : Inode) (i : Nat) : Nat := 512 * inode.blk (i / 21) + 24 * (i % 21)

/-- A sector of the data area that is marked as used and that the drive has. -/
structure UsedBlock (part : Partition) (lba : Nat) : Prop extends Marked part lba where
  drive : lba ≤ maxLba

/-- A directory in its direct blocks: the entries fill the slots from the front. -/
structure DirHolds (part : Partition) (d : Disk) (inode : Inode) (es : List NewEntry) :
    Prop where
  room : es.length ≤ 252
  block : ∀ k, 21 * k < es.length → UsedBlock part (inode.blk k)
  unused : ∀ k < 12, es.length ≤ 21 * k → inode.sector k = 0
  inj : ∀ j k, 21 * j < es.length → 21 * k < es.length → inode.blk j = inode.blk k → j = k
  holds : ∀ i (h : i < es.length), HoldsAt d (slotPos inode i) (es.get ⟨i, h⟩)
  free : ∀ i, es.length ≤ i → 21 * (i / 21) < es.length →
    getWord d (slotPos inode i + 20) = ftUnknown

theorem UsedBlock.take {part : Partition} {lba : Nat} (h : UsedBlock part lba) (n : Nat) :
    UsedBlock (part.take n) lba :=
  ⟨h.toMarked.take n, h.drive⟩

theorem HoldsAt.frame {d d' : Disk} {addr : Nat} {e : NewEntry} (h : HoldsAt d addr e)
    (hd : ∀ k < 24, d' (addr + k) = d (addr + k)) : HoldsAt d' addr e :=
  fun k hk => by rw [hd k hk, h k hk]

namespace DirHolds

variable {part part' : Partition} {d d' : Disk} {inode inode' : Inode} {es : List NewEntry}

theorem sector_ne_zero (h : DirHolds part d inode es) (hfit : part.DataFits) {k : Nat}
    (hk : 21 * k < es.length) : inode.sector k ≠ 0 := by
  intro hc
  refine (h.block k hk).toMarked.ne_zero hfit ?_
  rw [Inode.blk, hc]
  rfl

/-- Different slots do not overlap. -/
theorem slots_apart (h : DirHolds part d inode es) {i j : Nat} (hi : 21 * (i / 21) < es.length)
    (hj : 21 * (j / 21) < es.length) (hne : i ≠ j) :
    slotPos inode i + 24 ≤ slotPos inode j ∨ slotPos inode j + 24 ≤ slotPos inode i := by
  unfold slotPos
  by_cases hb : i / 21 = j / 21
  · rw [hb]
    omega
  · have hblk : inode.blk (i / 21) ≠ inode.blk (j / 21) := fun hc => hb (h.inj _ _ hi hj hc)
    omega

/-- What the directory does not occupy may change. -/
theorem frame (h : DirHolds part d inode es)
    (hpart : ∀ lba, UsedBlock part lba → UsedBlock part' lba)
    (hinode : ∀ k < 12, inode'.sector k = inode.sector k)
    (hd : ∀ k, 21 * k < es.length → ∀ x, 512 * inode.blk k ≤ x → x < 512 * inode.blk k + 512 →
      d' x = d x) : DirHolds part' d' inode' es := by
  have hroom := h.room
  have hblk : ∀ k < 12, inode'.blk k = inode.blk k := fun k hk => by
    rw [Inode.blk, hinode k hk, Inode.blk]
  have hpos : ∀ i, i / 21 < 12 → slotPos inode' i = slotPos inode i := fun i hi => by
    rw [slotPos, hblk _ hi, slotPos]
  refine ⟨h.room, ?_, ?_, ?_, ?_, ?_⟩
  · intro k hk
    rw [hblk k (by omega)]
    exact hpart _ (h.block k hk)
  · intro k hk hge
    rw [hinode k hk]
    exact h.unused k hk hge
  · intro j k hj hk heq
    rw [hblk j (by omega), hblk k (by omega)] at heq
    exact h.inj j k hj hk heq
  · intro i hi
    rw [hpos i (by omega)]
    refine (h.holds i hi).frame fun k hk => ?_
    exact hd (i / 21) (by omega) _ (by unfold slotPos; omega) (by unfold slotPos; omega)
  · intro i hge hi
    rw [hpos i (by omega), ← h.free i hge hi]
    refine getWord_congr fun j hj => ?_
    exact hd (i / 21) hi _ (by unfold slotPos; omega) (by unfold slotPos; omega)

/-- An entry goes into the next slot of the last block. -/
theorem addSlot (h : DirHolds part d inode es) (hmod : es.length % 21 ≠ 0) (e : NewEntry)
    (sz : UInt32) : DirHolds part (d.splice (slotPos inode es.length) e.bytes 24)
      { inode with iSize := sz } (es ++ [e]) := by
  have hroom := h.room
  have hlen : (es ++ [e]).length = es.length + 1 := by simp
  have hlast : 21 * (es.length / 21) < es.length := by omega
  refine ⟨by omega, ?_, ?_, ?_, ?_, ?_⟩
  · intro k hk
    exact h.block k (by omega)
  · intro k hk hge
    exact h.unused k hk (by omega)
  · intro j k hj hk heq
    exact h.inj j k (by omega) (by omega) heq
  · intro i hi
    show HoldsAt _ (slotPos inode i) _
    by_cases hie : i = es.length
    · subst hie
      intro k hk
      rw [Mem.splice_at hk]
      simp
    · have hi' : i < es.length := by omega
      have hget : (es ++ [e]).get ⟨i, hi⟩ = es.get ⟨i, hi'⟩ := by
        simp [List.getElem_append_left hi']
      rw [hget]
      refine (h.holds i hi').frame fun k hk => Mem.splice_out ?_
      have := h.slots_apart (i := i) (j := es.length) (by omega) hlast hie
      omega
  · intro i hge hi
    show getWord _ (slotPos inode i + 20) = _
    rw [← h.free i (by omega) (by omega)]
    refine getWord_congr fun j hj => Mem.splice_out ?_
    have := h.slots_apart (i := i) (j := es.length) (by omega) hlast (by omega)
    omega

/-- An entry goes into the first slot of a block that was free. -/
theorem addBlock (h : DirHolds part d inode es) (hfit : part.DataFits)
    (hmod : es.length % 21 = 0) (hroom : es.length < 252) {n : Nat}
    (hn : n < 8 * part.blockBitmap.bmapBytesLen)
    (hfree : part.blockBitmap.bitmapScanTest n = false)
    (hdrive : part.sb.dataStartLba + n ≤ maxLba)
    (hd : ∀ x, 512 * part.sb.dataStartLba ≤ x → d' x = d x) (e : NewEntry) (sz : UInt32)
    (buf : Mem) :
    DirHolds (part.take n)
      (d'.splice (512 * (part.sb.dataStartLba + n)) ((buf.fill 0 0 512).splice 0 e.bytes 24) 512)
      { inode.setSector (es.length / 21) (u32 (part.sb.dataStartLba + n : Nat)) with iSize := sz }
      (es ++ [e]) := by
  have hint := hfit.int
  set lba := part.sb.dataStartLba + n with hlba
  set inode' : Inode := { inode.setSector (es.length / 21) (u32 (lba : Nat)) with iSize := sz }
  have hlen : (es ++ [e]).length = es.length + 1 := by simp
  have hsec : ∀ k, inode'.sector k
      = if k = es.length / 21 then u32 (lba : Nat) else inode.sector k :=
    fun k => Inode.sector_setSector inode _ (by omega)
  have hblkNew : inode'.blk (es.length / 21) = lba := by
    rw [Inode.blk, hsec, if_pos rfl, toNat_u32 (by omega)]
  have hblkOld : ∀ k, 21 * k < es.length → inode'.blk k = inode.blk k := fun k hk => by
    rw [Inode.blk, hsec, if_neg (by omega), Inode.blk]
  have hne : ∀ k, 21 * k < es.length → inode.blk k ≠ lba := fun k hk =>
    (h.block k hk).toMarked.ne_of_free hfree
  -- the blocks that were there are in the data area, away from the new one
  have hold : ∀ k, 21 * k < es.length → ∀ x, 512 * inode.blk k ≤ x → x < 512 * inode.blk k + 512 →
      d'.splice (512 * lba) ((buf.fill 0 0 512).splice 0 e.bytes 24) 512 x = d x := by
    intro k hk x h1 h2
    have hdata := (h.block k hk).data
    have := hne k hk
    rw [Mem.splice_out (by omega), hd x (by omega)]
  refine ⟨by omega, ?_, ?_, ?_, ?_, ?_⟩
  · intro k hk
    by_cases hke : k = es.length / 21
    · rw [hke, hblkNew]
      exact ⟨Marked.taken hn, hdrive⟩
    · rw [hblkOld k (by omega)]
      exact (h.block k (by omega)).take n
  · intro k hk hge
    rw [hsec, if_neg (by omega)]
    exact h.unused k hk (by omega)
  · intro j k hj hk heq
    by_cases hje : j = es.length / 21
    · by_cases hke : k = es.length / 21
      · rw [hje, hke]
      · rw [hje, hblkNew, hblkOld k (by omega)] at heq
        exact absurd heq.symm (hne k (by omega))
    · rw [hblkOld j (by omega)] at heq
      by_cases hke : k = es.length / 21
      · rw [hke, hblkNew] at heq
        exact absurd heq (hne j (by omega))
      · rw [hblkOld k (by omega)] at heq
        exact h.inj j k (by omega) (by omega) heq
  · intro i hi
    by_cases hie : i = es.length
    · subst hie
      have hpos : slotPos inode' es.length = 512 * lba := by
        rw [slotPos, hblkNew, hmod]
        omega
      rw [hpos]
      intro k hk
      simp only [DirEntry.size] at hk
      rw [Mem.splice_at (by omega), Mem.splice_in (by omega) (by omega), Nat.sub_zero]
      simp
    · have hi' : i < es.length := by omega
      have hpos : slotPos inode' i = slotPos inode i := by
        rw [slotPos, hblkOld _ (by omega), slotPos]
      have hget : (es ++ [e]).get ⟨i, hi⟩ = es.get ⟨i, hi'⟩ := by
        simp [List.getElem_append_left hi']
      rw [hget, hpos]
      refine (h.holds i hi').frame fun k hk => ?_
      exact hold (i / 21) (by omega) _ (by unfold slotPos; omega) (by unfold slotPos; omega)
  · intro i hge hi
    -- the slots behind the entry are in the new block and were cleared with it
    have hdiv : i / 21 = es.length / 21 := by omega
    have hpos : slotPos inode' i = 512 * lba + 24 * (i % 21) := by
      rw [slotPos, hdiv, hblkNew]
    rw [hpos]
    refine getWord_byteOf fun j hj => ?_
    rw [Mem.splice_in (by omega) (by omega), Mem.splice_out (by omega),
      Mem.fill_in (by omega) (by omega)]
    match j, hj with
    | 0, _ | 1, _ | 2, _ | 3, _ => rfl

end DirHolds

/-! ### One insertion -/

/-- `create_dir_entry` and `sync_dir_entry`, as every creation of a file does. -/
def insertEntry (pdir : Nat) (e : NewEntry) (ioBuf : Mem) : FsM Bool := do
  let pDe ← Prog.lift (createDirEntry e.name e.iNo e.fType DirEntry.zero)
  syncDirEntry pdir pDe ioBuf

section Sync

variable {s : Fs} {a : Nat} {es : List NewEntry} {e : NewEntry}

theorem directBlocks_eq {inode : Inode} {k : Nat} (hk : k < 12) :
    directBlocks inode k = inode.sector k := if_pos hk

/-- The loop passes over blocks without a free slot. -/
theorem syncLoop_skip (h : DirHolds s.part s.disk (s.inodes a) es) (hfit : s.part.DataFits)
    (hsize : s.part.sb.dirEntrySize = 24) (pDe : DirEntry) {K : Nat} (hK : 21 * K ≤ es.length)
    (fuel : Nat) : ∀ (m j : Nat) (buf : Mem), j + m = K →
      ∃ buf', syncLoop a pDe (directBlocks (s.inodes a)) (fuel + m) j buf s
        = syncLoop a pDe (directBlocks (s.inodes a)) fuel K buf' s := by
  have hroom := h.room
  intro m
  induction m with
  | zero =>
      intro j buf hj
      exact ⟨buf, by rw [show j = K by omega, Nat.add_zero]⟩
  | succ m ih =>
      intro j buf hj
      have hfull : ∀ i, 0 ≤ i → i < 21 →
          getWord s.disk (512 * (s.inodes a).blk j + 24 * i + 20) ≠ ftUnknown := by
        intro i _ hi
        have hheld := h.holds (21 * j + i) (by omega)
        have hpos : slotPos (s.inodes a) (21 * j + i) = 512 * (s.inodes a).blk j + 24 * i := by
          rw [slotPos, show (21 * j + i) / 21 = j by omega, show (21 * j + i) % 21 = i by omega]
        rw [hpos] at hheld
        rw [hheld.fType]
        exact NewEntry.typed _
      have hdrive := (h.block j (by omega)).drive
      obtain ⟨buf', hrec⟩ := ih (j + 1) (buf.splice 0 (s.disk.drop (512 * (s.inodes a).blk j)) 512)
        (by omega)
      refine ⟨buf', ?_⟩
      rw [← hrec, ← Nat.add_assoc, syncLoop, Prog.bind_of_run (Prog.get_run s),
        directBlocks_eq (by omega), if_neg (h.sector_ne_zero hfit (by omega)),
        Prog.bind_of_run (readSectors_run s buf (by decide)
          (by rw [Inode.blk] at hdrive; omega))]
      simp only [hsize, Nat.one_mul]
      rw [show 512 / 24 = 21 from rfl]
      have hnone := freeSlot_none s.disk (512 * (s.inodes a).blk j) buf 21 0 hfull
      rw [Inode.blk] at hnone
      rw [hnone]
      rfl

/-- Two free blocks on the drive. -/
def FreeBlocks (part : Partition) : Prop :=
  ∃ i j, i < j ∧ j < 8 * part.blockBitmap.bmapBytesLen ∧
    part.blockBitmap.bitmapScanTest i = false ∧ part.blockBitmap.bitmapScanTest j = false ∧
    part.sb.dataStartLba + j ≤ maxLba

/-- `n` is the first free block, and the drive has it. -/
structure FirstFree (part : Partition) (n : Nat) : Prop where
  bit : n < 8 * part.blockBitmap.bmapBytesLen
  free : part.blockBitmap.bitmapScanTest n = false
  below : ∀ m < n, part.blockBitmap.bitmapScanTest m = true
  drive : part.sb.dataStartLba + n ≤ maxLba

theorem syncFinish_run (hsize : s.part.sb.dirEntrySize = 24) (pDe : DirEntry) (buf : Mem)
    (block : UInt32) (hdrive : block.toNat ≤ maxLba) {inode : Inode} (hinode : s.inodes a = inode) :
    ∃ s', syncFinish a pDe buf block s = .ok (true, s') ∧ s'.part = s.part ∧
      s'.disk = s.disk.splice (512 * block.toNat) ((buf.fill 0 0 512).splice 0 pDe.toMem 24) 512 ∧
      s'.inodes a = { inode with iSize := inode.iSize + 24 } := by
  subst hinode
  unfold syncFinish
  rw [Prog.bind_of_run (Prog.get_run s), hsize,
    Prog.bind_of_run (writeSectors_run s _ (by decide) (by omega)),
    Prog.bind_of_run (Prog.get_run _), Prog.bind_of_run (putInode_run _ _ _), Prog.pure_run]
  exact ⟨_, rfl, rfl, rfl, if_pos rfl⟩

/-- The new block is a direct one. -/
theorem syncNewBlock_direct (hfit : s.part.DataFits) (hsize : s.part.sb.dirEntrySize = 24)
    (hfree : FreeBlocks s.part) (pDe : DirEntry) (buf : Mem) (blocks : Nat → UInt32) {k : Nat}
    (hk : k < 12) :
    ∃ (n : Nat) (d : Disk), FirstFree s.part n ∧
      (∀ x, 512 * s.part.sb.dataStartLba ≤ x → d x = s.disk x) ∧
      ∃ s', syncNewBlock a pDe buf blocks k s = .ok (true, s') ∧
        s'.part = s.part.take n ∧
        s'.disk = d.splice (512 * (s.part.sb.dataStartLba + n))
          ((buf.fill 0 0 512).splice 0 pDe.toMem 24) 512 ∧
        s'.inodes a = { (s.inodes a).setSector k (u32 (s.part.sb.dataStartLba + n : Nat)) with
          iSize := (s.inodes a).iSize + 24 } := by
  have hint := hfit.int
  obtain ⟨i, j, hij, hj, hci, -, hdr⟩ := hfree
  obtain ⟨n, hni, d, hnfree, hbelow, halloc, hdata⟩ :=
    allocSynced_run hfit "sync_dir_entry" (by omega) hci (by omega)
  have hlba : (u32 ((s.part.sb.dataStartLba + n : Nat) : Int)).toNat
      = s.part.sb.dataStartLba + n := toNat_u32 (by omega)
  refine ⟨n, d, ⟨by omega, hnfree, hbelow, by omega⟩, hdata, ?_⟩
  unfold syncNewBlock
  rw [Prog.bind_of_run halloc, if_neg (by omega), Prog.bind_of_run (Prog.get_run _), if_pos hk,
    Prog.bind_of_run (putInode_run _ _ _)]
  obtain ⟨s', hrun, hpart, hdisk, hinode⟩ := syncFinish_run (a := a)
    (s := { s with part := s.part.take n, disk := d, inodes := fun b =>
      if b = a then (s.inodes a).setSector k (u32 ((s.part.sb.dataStartLba + n : Nat) : Int))
      else s.inodes b }) hsize pDe buf
    (u32 ((s.part.sb.dataStartLba + n : Nat) : Int)) (by omega) (if_pos rfl)
  exact ⟨s', hrun, hpart, by rw [hdisk, hlba], hinode⟩

/-- The indirect table: one block, and one entry in it. -/
structure TableHolds (d : Disk) (inode : Inode) (e : NewEntry) : Prop where
  some : inode.sector 12 ≠ 0
  drive : inode.blk 12 ≤ maxLba
  block : getWord d (512 * inode.blk 12) ≠ 0
  blockDrive : (getWord d (512 * inode.blk 12)).toNat ≤ maxLba
  rest : ∀ k, 1 ≤ k → k < 128 → getWord d (512 * inode.blk 12 + 4 * k) = 0
  holds : HoldsAt d (512 * (getWord d (512 * inode.blk 12)).toNat) e
  free : ∀ i, 1 ≤ i → i < 21 →
    getWord d (512 * (getWord d (512 * inode.blk 12)).toNat + 24 * i + 20) = ftUnknown

/-- The new block is the first of a new table. -/
theorem syncNewBlock_table (hfit : s.part.DataFits) (hsize : s.part.sb.dirEntrySize = 24)
    (hfree : FreeBlocks s.part) (pDe : DirEntry) (buf : Mem) (blocks : Nat → UInt32) :
    ∃ (n m : Nat) (d : Disk), FirstFree s.part n ∧ FirstFree (s.part.take n) m ∧
      (∀ x, 512 * s.part.sb.dataStartLba ≤ x → d x = s.disk x) ∧
      ∃ s', syncNewBlock a pDe buf blocks 12 s = .ok (true, s') ∧
        s'.part = (s.part.take n).take m ∧
        s'.disk = (d.splice (512 * (s.part.sb.dataStartLba + n)) (tableMem
            (storeBlock blocks 12 (u32 (s.part.sb.dataStartLba + m : Nat)))) 512).splice
          (512 * (s.part.sb.dataStartLba + m)) ((buf.fill 0 0 512).splice 0 pDe.toMem 24) 512 ∧
        s'.inodes a = { (s.inodes a).setSector 12 (u32 (s.part.sb.dataStartLba + n : Nat)) with
          iSize := (s.inodes a).iSize + 24 } := by
  have hint := hfit.int
  obtain ⟨i, j, hij, hj, hci, hcj, hdr⟩ := hfree
  obtain ⟨n, hni, d, hnfree, hbelow, halloc, hdata⟩ :=
    allocSynced_run hfit "sync_dir_entry" (by omega) hci (by omega)
  have hlba : ∀ x, x ≤ j → (u32 ((s.part.sb.dataStartLba + x : Nat) : Int)).toNat
      = s.part.sb.dataStartLba + x := fun x hx => toNat_u32 (by omega)
  -- the state in which the second block is taken
  set inode₁ := (s.inodes a).setSector 12 (u32 ((s.part.sb.dataStartLba + n : Nat) : Int))
    with hinode₁
  set s₁ : Fs := { s with part := s.part.take n, disk := d, inodes := fun b =>
    if b = a then inode₁ else s.inodes b } with hs₁
  have hcj' : s₁.part.blockBitmap.bitmapScanTest j = false := by
    show (s.part.take n).blockBitmap.bitmapScanTest j = false
    rw [Partition.take_test, if_neg (by omega), hcj]
  obtain ⟨m, hmj, d₂, hmfree, hmbelow, halloc₂, hdata₂⟩ :=
    allocSynced_run (s := s₁) (hfit.take n) "sync_dir_entry" (i := j) hj hcj' hdr
  have hsb : s₁.part.sb = s.part.sb := rfl
  rw [hsb] at halloc₂ hdata₂
  have hsec : (s₁.inodes a).sector 12 = u32 ((s.part.sb.dataStartLba + n : Nat) : Int) := by
    show (if a = a then inode₁ else s.inodes a).sector 12 = _
    rw [if_pos rfl, Inode.sector_setSector _ _ (by decide), if_pos rfl]
  refine ⟨n, m, d₂, ⟨by omega, hnfree, hbelow, by omega⟩,
    ⟨show m < 8 * s.part.blockBitmap.bmapBytesLen by omega, hmfree, hmbelow,
      show s.part.sb.dataStartLba + m ≤ maxLba by omega⟩,
    fun x hx => by rw [hdata₂ x hx]; exact hdata x hx, ?_⟩
  unfold syncNewBlock
  rw [Prog.bind_of_run halloc, if_neg (by omega), Prog.bind_of_run (Prog.get_run _),
    if_neg (by decide), if_pos rfl, Prog.bind_of_run (putInode_run _ _ _),
    Prog.bind_of_run halloc₂, Prog.bind_of_run (Prog.get_run _), if_neg (by omega)]
  simp only [hsec, hlba n (by omega)]
  rw [Prog.bind_of_run (writeSectors_run _ _ (by decide) (by omega))]
  set d₃ : Disk := d₂.splice (512 * (s.part.sb.dataStartLba + n)) (tableMem
    (storeBlock blocks 12 (u32 (s.part.sb.dataStartLba + m : Nat)))) (1 * 512) with hd₃
  obtain ⟨s', hrun, hpart, hdisk, hinode⟩ := syncFinish_run (a := a)
    (s := { s₁ with part := s₁.part.take m, disk := d₃ })
    hsize pDe buf (u32 ((s.part.sb.dataStartLba + m : Nat) : Int))
    (by rw [hlba m hmj]; omega) (if_pos rfl)
  exact ⟨s', hrun, hpart, by rw [hdisk, hlba m hmj], hinode⟩

/-- What the table step leaves in the two new blocks. -/
theorem tableHolds_new (d : Disk) (inode : Inode) (e : NewEntry) (buf : Mem)
    (blocks : Nat → UInt32) (hblocks : ∀ k, 12 < k → blocks k = 0) {t b : Nat} (ht0 : t ≠ 0)
    (hb0 : b ≠ 0) (hne : t ≠ b) (ht : t ≤ maxLba) (hb : b ≤ maxLba)
    (hsec : inode.sector 12 = u32 (t : Nat)) :
    TableHolds ((d.splice (512 * t) (tableMem (storeBlock blocks 12 (u32 (b : Nat)))) 512).splice
      (512 * b) ((buf.fill 0 0 512).splice 0 e.bytes 24) 512) inode e := by
  have hmax : maxLba = 163839 := rfl
  have htn : (u32 (t : Nat)).toNat = t := toNat_u32 (by omega)
  have hbn : (u32 (b : Nat)).toNat = b := toNat_u32 (by omega)
  have hblk : inode.blk 12 = t := by rw [Inode.blk, hsec, htn]
  set d' := (d.splice (512 * t) (tableMem (storeBlock blocks 12 (u32 (b : Nat)))) 512).splice
    (512 * b) ((buf.fill 0 0 512).splice 0 e.bytes 24) 512 with hd'
  have hword : ∀ k < 128, getWord d' (512 * t + 4 * k)
      = storeBlock blocks 12 (u32 (b : Nat)) (12 + k) := by
    intro k hk
    rw [← getWord_ofWords (fun k => storeBlock blocks 12 (u32 (b : Nat)) (12 + k)) k]
    refine getWord_congr fun j hj => ?_
    rw [hd', Mem.splice_out (by omega), Mem.splice_in (by omega) (by omega)]
    show tableMem _ _ = _
    congr 1
    omega
  have hfirst : getWord d' (512 * t) = u32 (b : Nat) := by
    have := hword 0 (by omega)
    simpa [storeBlock] using this
  have hu : ∀ x : Nat, x ≠ 0 → x ≤ maxLba → u32 (x : Nat) ≠ 0 := by
    intro x hx hle hc
    have := toNat_u32 (n := x) (by omega)
    rw [hc] at this
    exact hx this.symm
  refine ⟨by rw [hsec]; exact hu t ht0 ht, by rw [hblk]; exact ht, ?_, ?_, ?_, ?_, ?_⟩
  · rw [hblk, hfirst]
    exact hu b hb0 hb
  · rw [hblk, hfirst, hbn]
    exact hb
  · intro k h1 h2
    rw [hblk, hword k h2, storeBlock, if_neg (by omega), hblocks _ (by omega)]
  · rw [hblk, hfirst, hbn]
    intro k hk
    simp only [DirEntry.size] at hk
    rw [hd', Mem.splice_at (by omega), Mem.splice_in (by omega) (by omega), Nat.sub_zero]
  · intro i h1 h2
    rw [hblk, hfirst, hbn]
    refine getWord_byteOf fun j hj => ?_
    rw [hd', Mem.splice_in (by omega) (by omega), Mem.splice_out (by omega),
      Mem.fill_in (by omega) (by omega)]
    match j, hj with
    | 0, _ | 1, _ | 2, _ | 3, _ => rfl

/-- A directory into which `all` was inserted, its first two entries included. -/
structure DirState (s : Fs) (a : Nat) (all : List NewEntry) : Prop where
  fits : s.part.DataFits
  entrySize : s.part.sb.dirEntrySize = 24
  size : (s.inodes a).iSize.toNat = 24 * all.length
  direct : DirHolds s.part s.disk (s.inodes a) (all.take 252)
  noTable : all.length ≤ 252 → (s.inodes a).sector 12 = 0
  table : 252 < all.length → ∀ e, all.getLast? = some e → TableHolds s.disk (s.inodes a) e

/-- What insertions do to the bitmap: at most two more blocks, the first free ones. -/
structure Grown (part part' : Partition) : Prop where
  sb : part'.sb = part.sb
  len : part'.blockBitmap.bmapBytesLen = part.blockBitmap.bmapBytesLen
  free : ∀ m, (∀ i, m ≤ i → part.blockBitmap.bitmapScanTest i = false) →
    ∀ i, m + 2 ≤ i → part'.blockBitmap.bitmapScanTest i = false

theorem FirstFree.le {part : Partition} {n m : Nat} (h : FirstFree part n)
    (hm : part.blockBitmap.bitmapScanTest m = false) : n ≤ m := by
  by_contra hlt
  rw [h.below m (by omega)] at hm
  exact absurd hm (by decide)

theorem grown_refl (part : Partition) : Grown part part :=
  ⟨rfl, rfl, fun _ h i hi => h i (by omega)⟩

theorem grown_take {part : Partition} {n : Nat} (hn : FirstFree part n) :
    Grown part (part.take n) := by
  refine ⟨rfl, rfl, fun m h i hi => ?_⟩
  have := hn.le (h m (Nat.le_refl m))
  rw [Partition.take_test, if_neg (by omega), h i (by omega)]

theorem grown_take_take {part : Partition} {n m : Nat} (hn : FirstFree part n)
    (hm : FirstFree (part.take n) m) : Grown part ((part.take n).take m) := by
  refine ⟨rfl, rfl, fun k h i hi => ?_⟩
  have hnk := hn.le (h k (Nat.le_refl k))
  have hmk : m ≤ k + 1 := by
    refine hm.le ?_
    rw [Partition.take_test, if_neg (by omega), h (k + 1) (by omega)]
  rw [Partition.take_test, if_neg (by omega), Partition.take_test, if_neg (by omega),
    h i (by omega)]

variable {all : List NewEntry}

/-- An insertion comes down to the loop, started behind the full blocks. -/
theorem insertEntry_loop (h : DirState s a all) (e : NewEntry) (buf : Mem) {K : Nat}
    (hK : 21 * K ≤ (all.take 252).length) :
    ∃ buf', insertEntry a e buf s
      = syncLoop a e.toDirEntry (directBlocks (s.inodes a)) (139 - K + 1) K buf' s := by
  have hroom := h.direct.room
  obtain ⟨buf', hskip⟩ := syncLoop_skip h.direct h.fits h.entrySize e.toDirEntry hK (139 - K + 1)
    K 0 buf (by omega)
  refine ⟨buf', ?_⟩
  rw [← hskip, show 139 - K + 1 + K = 140 by omega, insertEntry,
    Prog.bind_of_run (Prog.lift_run.mpr ⟨e.createDirEntry_run, rfl⟩), syncDirEntry,
    Prog.bind_of_run (Prog.get_run s), Prog.bind_of_run (assertFs_run
      (by rw [h.entrySize, h.size]; omega) _ _ s)]

theorem size_add {n : UInt32} {k : Nat} (hn : n.toNat = 24 * k) (hk : k < 2 ^ 20) :
    (n + 24).toNat = 24 * (k + 1) := by
  rw [UInt32.toNat_add, hn]
  have : UInt32.toNat 24 = 24 := rfl
  omega

/-- The last block has room. -/
theorem insertEntry_slot (h : DirState s a all) (hlen : all.length < 252)
    (hmod : all.length % 21 ≠ 0) (e : NewEntry) (buf : Mem) :
    ∃ s', insertEntry a e buf s = .ok (true, s') ∧ DirState s' a (all ++ [e]) ∧
      Grown s.part s'.part := by
  have htake : all.take 252 = all := List.take_of_length_le (by omega)
  have hd := h.direct
  rw [htake] at hd
  obtain ⟨buf', hloop⟩ := insertEntry_loop h e buf (K := all.length / 21) (by rw [htake]; omega)
  have hused := hd.block (all.length / 21) (by omega)
  have hdrive := hused.drive
  set inode := s.inodes a with hinode
  have hslot : freeSlot (buf'.splice 0 (s.disk.drop (512 * inode.blk (all.length / 21))) 512)
      21 21 0 = some (all.length % 21) := by
    refine freeSlot_first buf' (Nat.mod_lt _ (by decide)) ?_ 21 0 (by omega) (by omega) ?_
    · exact hd.free all.length (Nat.le_refl _) (by omega)
    · intro j _ hj
      have hheld := hd.holds (21 * (all.length / 21) + j) (by omega)
      have hpos : slotPos inode (21 * (all.length / 21) + j)
          = 512 * inode.blk (all.length / 21) + 24 * j := by
        rw [slotPos, show (21 * (all.length / 21) + j) / 21 = all.length / 21 by omega,
          show (21 * (all.length / 21) + j) % 21 = j by omega]
      rw [hpos] at hheld
      rw [hheld.fType]
      exact NewEntry.typed _
  rw [hloop, syncLoop, Prog.bind_of_run (Prog.get_run s), directBlocks_eq (by omega),
    if_neg (hd.sector_ne_zero h.fits (by omega)),
    Prog.bind_of_run (readSectors_run s buf' (by decide) (by rw [Inode.blk] at hdrive; omega)),
    h.entrySize, Nat.one_mul]
  simp only [Inode.blk] at hslot
  simp only [Nat.reduceDiv, hslot]
  rw [Prog.bind_of_run (writeSectors_run s _ (by decide) (by rw [Inode.blk] at hdrive; omega)),
    Prog.bind_of_run (Prog.get_run _), Prog.bind_of_run (putInode_run _ _ _), Prog.pure_run,
    Nat.one_mul, Mem.splice_window _ _ _ (by simp only [DirEntry.size]; omega)]
  refine ⟨_, rfl, ⟨h.fits, h.entrySize, ?_, ?_, ?_, ?_⟩, grown_refl _⟩
  · simp only [if_true]
    rw [List.length_append]
    exact size_add h.size (by omega)
  · rw [List.take_of_length_le (by simp; omega)]
    simp only [if_true]
    exact hd.addSlot hmod e _
  · intro _
    simp only [if_true]
    exact h.noTable (by omega)
  · intro hlt
    simp at hlt
    omega

/-- The blocks are full and there is room for another direct one. -/
theorem insertEntry_block (h : DirState s a all) (hlen : all.length < 252)
    (hmod : all.length % 21 = 0) (hfree : FreeBlocks s.part) (e : NewEntry) (buf : Mem) :
    ∃ s', insertEntry a e buf s = .ok (true, s') ∧ DirState s' a (all ++ [e]) ∧
      Grown s.part s'.part := by
  have htake : all.take 252 = all := List.take_of_length_le (by omega)
  have hd := h.direct
  rw [htake] at hd
  obtain ⟨buf', hloop⟩ := insertEntry_loop h e buf (K := all.length / 21) (by rw [htake]; omega)
  obtain ⟨n, d, hn, hdata, s', hrun, hpart, hdisk, hinode⟩ :=
    syncNewBlock_direct (a := a) h.fits h.entrySize hfree e.toDirEntry buf'
      (directBlocks (s.inodes a)) (k := all.length / 21) (by omega)
  refine ⟨s', ?_, ⟨?_, ?_, ?_, ?_, ?_, ?_⟩, ?_⟩
  · rw [hloop, syncLoop, Prog.bind_of_run (Prog.get_run s), directBlocks_eq (by omega),
      if_pos (hd.unused _ (by omega) (by omega)), hrun]
  · rw [hpart]
    exact h.fits.take n
  · rw [hpart]
    exact h.entrySize
  · rw [hinode, List.length_append]
    exact size_add h.size (by omega)
  · rw [List.take_of_length_le (by simp; omega), hpart, hdisk, hinode]
    exact hd.addBlock h.fits hmod hlen hn.bit hn.free hn.drive hdata e _ buf'
  · intro _
    rw [hinode]
    show ((s.inodes a).setSector _ _).sector 12 = 0
    rw [Inode.sector_setSector _ _ (by omega), if_neg (by omega), h.noTable (by omega)]
  · intro hlt
    simp at hlt
    omega
  · rw [hpart]
    exact grown_take hn

/-- The direct blocks are full: whatever the table held before, it is a new one now. -/
theorem insertEntry_table (h : DirState s a all) (hlen : 252 ≤ all.length)
    (hbound : all.length < 2 ^ 20) (hfree : FreeBlocks s.part) (e : NewEntry) (buf : Mem) :
    ∃ s', insertEntry a e buf s = .ok (true, s') ∧ DirState s' a (all ++ [e]) ∧
      Grown s.part s'.part := by
  have htlen : (all.take 252).length = 252 := by
    rw [List.length_take]
    omega
  have hd := h.direct
  have hbm := h.fits.bitmap
  obtain ⟨buf', hloop⟩ := insertEntry_loop h e buf (K := 12) (by omega)
  obtain ⟨n, m, d, hn, hm, hdata, s', hrun, hpart, hdisk, hinode⟩ :=
    syncNewBlock_table (a := a) h.fits h.entrySize hfree e.toDirEntry buf'
      (directBlocks (s.inodes a))
  have hnm : n ≠ m := by
    intro hc
    have := hm.free
    rw [Partition.take_test, if_pos hc.symm] at this
    exact absurd this (by decide)
  have hnbit := hn.bit
  have hmfree : s.part.blockBitmap.bitmapScanTest m = false := by
    have := hm.free
    rwa [Partition.take_test, if_neg (Ne.symm hnm)] at this
  have hsec : ∀ k < 12, (s'.inodes a).sector k = (s.inodes a).sector k := by
    intro k hk
    rw [hinode]
    show ((s.inodes a).setSector _ _).sector k = _
    rw [Inode.sector_setSector _ _ (by omega), if_neg (by omega)]
  refine ⟨s', ?_, ⟨?_, ?_, ?_, ?_, ?_, ?_⟩, ?_⟩
  · have h12 : directBlocks (s.inodes a) 12 = 0 := if_neg (by decide)
    rw [hloop, syncLoop, Prog.bind_of_run (Prog.get_run s), if_pos h12, hrun]
  · rw [hpart]
    exact (h.fits.take n).take m
  · rw [hpart]
    exact h.entrySize
  · rw [hinode, List.length_append]
    exact size_add h.size hbound
  · rw [List.take_append_of_le_length (by omega), hpart, hdisk]
    refine hd.frame (fun lba hu => (hu.take n).take m) hsec fun k hk x h1 h2 => ?_
    -- the direct blocks were in use, the two new ones free
    have hu := hd.block k hk
    have h3 := hu.toMarked.ne_of_free hn.free
    have h4 := hu.toMarked.ne_of_free hmfree
    have h5 := hu.data
    rw [Mem.splice_out (by omega), Mem.splice_out (by omega), hdata x (by omega)]
  · intro hle
    simp at hle
    omega
  · intro _ e' he'
    simp only [List.getLast?_append, List.getLast?_singleton, Option.some_or,
      Option.some.injEq] at he'
    subst he'
    rw [hdisk]
    refine tableHolds_new d _ e buf' _ ?_ ?_ ?_ ?_ hn.drive hm.drive ?_
    · intro k hk
      exact if_neg (by omega)
    · omega
    · omega
    · omega
    · have hset := Inode.sector_setSector (s.inodes a) (j := 12)
        (u32 (s.part.sb.dataStartLba + n : Nat)) (by decide : 12 < 13)
      rw [if_pos rfl] at hset
      rw [hinode]
      exact hset
  · rw [hpart]
    exact grown_take_take hn hm

/-- **One insertion**, with blocks to spare: it succeeds, and the directory holds one more
entry as long as there was room in the direct blocks. -/
theorem insertEntry_run (h : DirState s a all) (hbound : all.length < 2 ^ 20)
    (hfree : FreeBlocks s.part) (e : NewEntry) (buf : Mem) :
    ∃ s', insertEntry a e buf s = .ok (true, s') ∧ DirState s' a (all ++ [e]) ∧
      Grown s.part s'.part := by
  by_cases hlen : all.length < 252
  · by_cases hmod : all.length % 21 = 0
    · exact insertEntry_block h hlen hmod hfree e buf
    · exact insertEntry_slot h hlen hmod e buf
  · exact insertEntry_table h (by omega) hbound hfree e buf

end Sync

end ZyOs
