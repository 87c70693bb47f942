/-
The bitmaps on disk and the bitmaps in memory.

`bitmap_sync` writes back one sector, so in the middle of a call some sectors on disk
lag behind the memory.  `Follows` says that only those in a given set do: taking or
freeing a bit puts its sector into the set, a sync takes it out, and a write elsewhere
changes nothing.  That the other writes are elsewhere is what the pointers in the inodes
are for.
-/
import ZyOs.Proofs.Effects
import ZyOs.Proofs.Entries
import ZyOs.Proofs.Cache

namespace ZyOs

open Library

/-! ### The partition on the disk -/

/-- The two bitmaps, the inode table and the data area follow each other on the disk. -/
structure Partition.Ordered (part : Partition) : Prop where
  boot : 0 < part.sb.blockBitmapLba
  blockBytes : part.blockBitmap.bmapBytesLen = 512 * part.sb.blockBitmapSects
  blocks : part.sb.blockBitmapLba + part.sb.blockBitmapSects ≤ part.sb.inodeBitmapLba
  inodeBytes : part.inodeBitmap.bmapBytesLen = 512
  inodes : part.sb.inodeBitmapLba + 1 ≤ part.sb.inodeTableLba
  table : part.sb.inodeTableLba + 608 ≤ part.sb.dataStartLba
  int : part.sb.dataStartLba + 8 * part.blockBitmap.bmapBytesLen < 2 ^ 31
  entrySize : part.sb.dirEntrySize = 24

/-- What is in the bitmaps does not count. -/
theorem Partition.Ordered.alike {p q : Partition} (ho : q.Ordered) (h : q.Alike p) : p.Ordered := by
  obtain ⟨hsb, hblocks, hinodes⟩ := h
  refine ⟨?_, ?_, ?_, ?_, ?_, ?_, ?_, ?_⟩
  · rw [hsb]; exact ho.boot
  · rw [hblocks, hsb]; exact ho.blockBytes
  · rw [hsb]; exact ho.blocks
  · rw [hinodes]; exact ho.inodeBytes
  · rw [hsb]; exact ho.inodes
  · rw [hsb]; exact ho.table
  · rw [hblocks, hsb]; exact ho.int
  · rw [hsb]; exact ho.entrySize

/-- Both bitmaps are on disk as they are in memory. -/
def Synced (s : Fs) : Prop :=
  ∀ t, ∀ i < (s.part.bitmapOf t).bmapBytesLen,
    s.disk (512 * s.part.bitmapLba t + i) = (s.part.bitmapOf t).bits i

/-- Only the sectors in `lag` may differ; the rest of the partition is as in `part`. -/
structure Follows (part : Partition) (s : Fs) (lag : Set (BitmapType × Nat)) : Prop where
  sb : s.part.sb = part.sb
  len : ∀ t, (s.part.bitmapOf t).bmapBytesLen = (part.bitmapOf t).bmapBytesLen
  eq : ∀ t, ∀ i < (part.bitmapOf t).bmapBytesLen, (t, i / 512) ∉ lag →
    s.disk (512 * part.bitmapLba t + i) = (s.part.bitmapOf t).bits i

variable {part : Partition} {s s' : Fs} {lag lag' : Set (BitmapType × Nat)}

theorem follows_start (h : Synced s) : Follows s.part s ∅ :=
  ⟨rfl, fun _ => rfl, fun t i hi _ => h t i hi⟩

namespace Follows

theorem bitmapLba (h : Follows part s lag) (t : BitmapType) :
    s.part.bitmapLba t = part.bitmapLba t := by
  cases t with
  | inodeBitmap => exact congrArg SuperBlock.inodeBitmapLba h.sb
  | blockBitmap => exact congrArg SuperBlock.blockBitmapLba h.sb

theorem synced (h : Follows part s ∅) : Synced s := by
  intro t i hi
  rw [h.bitmapLba]
  exact h.eq t i (by rw [← h.len]; exact hi) (Set.notMem_empty _)

theorem mono (h : Follows part s lag) (hle : lag ⊆ lag') : Follows part s lag' :=
  ⟨h.sb, h.len, fun t i hi hlag => h.eq t i hi fun hmem => hlag (hle hmem)⟩

/-- Only the disk and the partition count. -/
theorem congr (h : Follows part s lag) (hdisk : s'.disk = s.disk) (hpart : s'.part = s.part) :
    Follows part s' lag := by
  refine ⟨hpart ▸ h.sb, fun t => hpart ▸ h.len t, fun t i hi hlag => ?_⟩
  rw [hdisk, hpart]
  exact h.eq t i hi hlag

theorem alike (h : Follows part s lag) : part.Alike s.part :=
  ⟨h.sb, h.len .blockBitmap, h.len .inodeBitmap⟩

theorem ordered (h : Follows part s lag) (ho : part.Ordered) : s.part.Ordered :=
  ho.alike h.alike

end Follows

theorem Partition.Ordered.dataFits (ho : part.Ordered) : part.DataFits := by
  refine ⟨?_, ho.int⟩
  have h1 := ho.blockBytes
  have h2 := ho.blocks
  have h3 := ho.inodes
  have h4 := ho.table
  omega

/-! ### Steps -/

/-- The `n` bytes from `off` on are outside both bitmaps. -/
def Clear (part : Partition) (off n : Nat) : Prop :=
  off + n ≤ 512 * part.sb.blockBitmapLba ∨ 512 * (part.sb.inodeBitmapLba + 1) ≤ off

namespace Follows

theorem write (h : Follows part s lag) (ho : part.Ordered) {off n : Nat}
    (hclear : Clear part off n) (buf : Mem) :
    Follows part { s with disk := s.disk.splice off buf n } lag := by
  refine ⟨h.sb, h.len, fun t i hi hlag => ?_⟩
  rw [← h.eq t i hi hlag]
  refine Mem.splice_out ?_
  have h1 := ho.blocks
  have h2 := ho.blockBytes
  have h3 := ho.inodeBytes
  cases t with
  | inodeBitmap =>
      simp only [Partition.bitmapOf, Partition.bitmapLba] at hi ⊢
      rcases hclear with hc | hc <;> omega
  | blockBitmap =>
      simp only [Partition.bitmapOf, Partition.bitmapLba] at hi ⊢
      rcases hclear with hc | hc <;> omega

theorem sync (h : Follows part s lag) (ho : part.Ordered) {t : BitmapType} {n : Nat}
    (hn : n < 8 * (part.bitmapOf t).bmapBytesLen) :
    Follows part (s.syncSector t n) (lag \ {(t, n / 4096)}) := by
  refine ⟨h.sb, h.len, fun t' i hi hlag => ?_⟩
  simp only [Fs.syncSector, h.bitmapLba]
  have h1 := ho.blocks
  have h2 := ho.blockBytes
  have h3 := ho.inodeBytes
  by_cases hsec : t' = t ∧ i / 512 = n / 4096
  · obtain ⟨rfl, hsec⟩ := hsec
    rw [Mem.splice_in (by omega) (by omega), Mem.drop_apply]
    congr 1
    omega
  · have hold : (t', i / 512) ∉ lag := fun hmem => hlag ⟨hmem, fun heq => hsec (by simpa using heq)⟩
    rw [← h.eq t' i hi hold]
    refine Mem.splice_out ?_
    cases t with
    | inodeBitmap =>
        cases t' with
        | inodeBitmap =>
            simp only [Partition.bitmapOf, Partition.bitmapLba, true_and] at hi hn hsec ⊢
            omega
        | blockBitmap =>
            simp only [Partition.bitmapOf, Partition.bitmapLba] at hi hn ⊢
            omega
    | blockBitmap =>
        cases t' with
        | inodeBitmap =>
            simp only [Partition.bitmapOf, Partition.bitmapLba] at hi hn ⊢
            omega
        | blockBitmap =>
            simp only [Partition.bitmapOf, Partition.bitmapLba, true_and] at hi hn hsec ⊢
            omega

/-- A bit of the block bitmap changes in memory. -/
theorem setBlock (h : Follows part s lag) (n : Nat) (v : Bool) :
    Follows part { s with part := { s.part with blockBitmap := s.part.blockBitmap.bitmapSet n v } }
      (insert (.blockBitmap, n / 4096) lag) := by
  refine ⟨h.sb, fun t => ?_, fun t i hi hlag => ?_⟩
  · cases t with
    | inodeBitmap => exact h.len .inodeBitmap
    | blockBitmap => exact h.len .blockBitmap
  · obtain ⟨hne, hold⟩ := not_or.mp hlag
    rw [h.eq t i hi hold]
    cases t with
    | inodeBitmap => rfl
    | blockBitmap =>
        refine (Bitmap.bits_set_of_ne _ v fun hi' => hne ?_).symm
        rw [hi', Nat.div_div_eq_div_mul]

/-- A bit of the inode bitmap changes in memory. -/
theorem setInode (h : Follows part s lag) (n : Nat) (v : Bool) :
    Follows part { s with part := { s.part with inodeBitmap := s.part.inodeBitmap.bitmapSet n v } }
      (insert (.inodeBitmap, n / 4096) lag) := by
  refine ⟨h.sb, fun t => ?_, fun t i hi hlag => ?_⟩
  · cases t with
    | inodeBitmap => exact h.len .inodeBitmap
    | blockBitmap => exact h.len .blockBitmap
  · obtain ⟨hne, hold⟩ := not_or.mp hlag
    rw [h.eq t i hi hold]
    cases t with
    | blockBitmap => rfl
    | inodeBitmap =>
        refine (Bitmap.bits_set_of_ne _ v fun hi' => hne ?_).symm
        rw [hi', Nat.div_div_eq_div_mul]

/-- A bit that is changed and written back takes its sector off the list. -/
theorem changeBlock (h : Follows part s lag) (ho : part.Ordered) {n : Nat}
    (hn : n < 8 * part.blockBitmap.bmapBytesLen) (v : Bool) :
    Follows part (s.changeBlock n v) (lag \ {(.blockBitmap, n / 4096)}) := by
  have hsync := (h.setBlock n v).sync ho (t := .blockBitmap) hn
  rwa [Set.insert_sdiff_of_mem _ (Set.mem_singleton _)] at hsync

/-- The inode table and the data are not touched by that. -/
theorem changeBlock_disk (h : Follows part s lag) (ho : part.Ordered) {n : Nat}
    (hn : n < 8 * part.blockBitmap.bmapBytesLen) (v : Bool) {x : Nat}
    (hx : 512 * part.sb.inodeTableLba ≤ x) : (s.changeBlock n v).disk x = s.disk x := by
  have h1 := ho.blocks
  have h2 := ho.blockBytes
  have h3 := ho.inodes
  refine Mem.splice_out (.inr ?_)
  simp only [Partition.bitmapLba, h.sb]
  omega

end Follows

/-! ### Pointers -/

/-- A block pointer: there is none, or it leads into the data area. -/
def SafePtr (part : Partition) (p : UInt32) : Prop := p = 0 ∨ InData part p.toNat

/-- All pointers of an inode, those in its table included. -/
structure SafeInode (part : Partition) (d : Disk) (n : Inode) : Prop where
  sectors : ∀ k < 13, SafePtr part (n.sector k)
  table : n.sector 12 ≠ 0 → ∀ j < 128, SafePtr part (getWord d (512 * n.blk 12 + 4 * j))

theorem InData.clear (ho : part.Ordered) {lba : Nat} (h : InData part lba) :
    Clear part (512 * lba) 512 := by
  have h1 := h.data
  have h2 := ho.inodes
  have h3 := ho.table
  exact .inr (by omega)

/-- Where a pointer leads there is no bitmap; the first sector of the disk has none either. -/
theorem SafePtr.clear (ho : part.Ordered) {p : UInt32} (h : SafePtr part p) :
    Clear part (512 * p.toNat) 512 := by
  rcases h with rfl | h
  · have := ho.boot
    exact .inl (by simp; omega)
  · exact h.clear ho

theorem inData_new (ho : part.Ordered) {n : Nat} (hn : n < 8 * part.blockBitmap.bmapBytesLen) :
    InData part (u32 (part.sb.dataStartLba + n : Nat)).toNat := by
  have hint := ho.int
  rw [toNat_u32 (by omega)]
  exact ⟨by omega, by omega⟩

/-- Words of the data area stay or become zero. -/
def Wiped (part : Partition) (d d' : Disk) : Prop :=
  ∀ lba, InData part lba → ∀ j < 128,
    getWord d' (512 * lba + 4 * j) = getWord d (512 * lba + 4 * j) ∨
    getWord d' (512 * lba + 4 * j) = 0

theorem wiped_of_eq {d d' : Disk} (h : ∀ x, 512 * part.sb.dataStartLba ≤ x → d' x = d x) :
    Wiped part d d' := by
  intro lba hlba j hj
  have hdata := hlba.data
  exact .inl (getWord_congr fun i hi => h _ (by omega))

/-- One entry of a block is cleared. -/
theorem wiped_entry (d : Disk) (lba i : Nat) (buf : Mem) :
    Wiped part d (d.splice (512 * lba)
      ((buf.splice 0 (d.drop (512 * lba)) 512).fill (24 * i) 0 24) 512) := by
  intro lba' hlba' j hj
  by_cases heq : lba' = lba
  · subst heq
    by_cases hin : 24 * i ≤ 4 * j ∧ 4 * j < 24 * i + 24
    · refine .inr (getWord_byteOf fun k hk => ?_)
      rw [Mem.splice_in (by omega) (by omega), Mem.fill_in (by omega) (by omega)]
      unfold byteOf
      split <;> rfl
    · refine .inl (getWord_congr fun k hk => ?_)
      rw [Mem.splice_in (by omega) (by omega), Mem.fill_out (by omega),
        Mem.splice_in (by omega) (by omega), Mem.drop_apply]
      congr 1
      omega
  · refine .inl (getWord_congr fun k hk => Mem.splice_out (by omega))

theorem SafeInode.wiped {d d' : Disk} {n : Inode} (h : SafeInode part d n) (hd : Wiped part d d') :
    SafeInode part d' n := by
  refine ⟨h.sectors, fun h12 j hj => ?_⟩
  have hin : InData part (n.blk 12) := (h.sectors 12 (by omega)).resolve_left h12
  rcases hd _ hin j hj with heq | hzero
  · rw [heq]
    exact h.table h12 j hj
  · exact .inl hzero

theorem SafeInode.of_sectors {d : Disk} {n n' : Inode} (h : SafeInode part d n)
    (hsec : ∀ k < 13, n'.sector k = n.sector k) : SafeInode part d n' := by
  refine ⟨fun k hk => hsec k hk ▸ h.sectors k hk, fun h12 j hj => ?_⟩
  have heq := hsec 12 (by omega)
  rw [Inode.blk, heq]
  exact h.table (heq ▸ h12) j hj

theorem SafeInode.setSector {d : Disk} {n : Inode} (h : SafeInode part d n) {k : Nat}
    (hk : k < 12) {p : UInt32} (hp : SafePtr part p) : SafeInode part d (n.setSector k p) := by
  have hsec : ∀ j, (n.setSector k p).sector j = if j = k then p else n.sector j :=
    fun j => Inode.sector_setSector n p (by omega)
  refine ⟨fun j hj => ?_, fun h12 j hj => ?_⟩
  · rw [hsec]
    by_cases hjk : j = k
    · rw [if_pos hjk]
      exact hp
    · rw [if_neg hjk]
      exact h.sectors j hj
  · rw [hsec, if_neg (by omega)] at h12
    rw [Inode.blk, hsec, if_neg (by omega)]
    exact h.table h12 j hj

theorem SafeInode.dirBlocks {d : Disk} {n : Inode} (h : SafeInode part d n) (k : Nat) :
    SafePtr part (dirBlocks d n k) := by
  unfold ZyOs.dirBlocks
  by_cases hk : k < 12
  · rw [if_pos hk]
    exact h.sectors k (by omega)
  · rw [if_neg hk]
    by_cases h12 : k < 140 ∧ n.sector 12 ≠ 0
    · rw [if_pos h12]
      exact h.table h12.2 _ (by omega)
    · rw [if_neg h12]
      exact .inl rfl

end ZyOs
