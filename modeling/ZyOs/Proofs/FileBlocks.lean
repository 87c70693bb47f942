/-
The blocks of a file and how a write comes by them.

`Laid` describes a file of `nb` blocks: the block numbers stand in the inode and in
the indirect table, they are marked in the bitmap, they are all different, and none
of them was in use when the file was created (`part₀`).  A write first makes room:
whichever of the four cases of `file_write` applies, `wp_collectForWrite` says that
the file is laid out with the blocks the data is going to need, that the blocks it
had are where they were, and that the array holds exactly the addresses the transfer
loop is going to look up.
-/
import ZyOs.Kernel.FileData
import ZyOs.Proofs.Block
import ZyOs.Proofs.DirEntry
import ZyOs.Proofs.Inode
import ZyOs.Proofs.Dir

namespace ZyOs

open Library

/-! ### Owned blocks -/

/-- The superblock's areas lie one behind the other. -/
structure Partition.Layout (part : Partition) : Prop where
  data : part.DataFits
  table : part.TableFits
  below : part.sb.inodeTableLba + 608 ≤ part.sb.dataStartLba

theorem Partition.Layout.take {part : Partition} (h : part.Layout) (n : Nat) :
    (part.take n).Layout :=
  ⟨h.data.take n, ⟨h.table.table, h.table.drive⟩, h.below⟩

/-- The sector number of block `k` of a file. -/
def fileBlk (d : Disk) (inode : Inode) (k : Nat) : UInt32 :=
  if k < 12 then inode.sector k else getWord d (512 * inode.blk 12 + 4 * (k - 12))

/-- Sectors that belong to one file: `nb` blocks and perhaps a table, all marked, all
different, none in use at the time of `part₀`. -/
structure Owns (part₀ part : Partition) (own : Nat → Nat) (nb : Nat) (table : Option Nat) :
    Prop where
  marked : ∀ k < nb, Marked part (own k)
  fresh : ∀ k < nb, ¬ Marked part₀ (own k)
  inj : ∀ j k, j < nb → k < nb → own j = own k → j = k
  table : ∀ t ∈ table, Marked part t ∧ ¬ Marked part₀ t ∧ ∀ k < nb, own k ≠ t

namespace Owns

variable {part₀ part : Partition} {own own' : Nat → Nat} {nb : Nat} {table : Option Nat}

theorem congr (h : Owns part₀ part own nb table) (heq : ∀ k < nb, own' k = own k) :
    Owns part₀ part own' nb table := by
  refine ⟨?_, ?_, ?_, ?_⟩
  · intro k hk
    rw [heq k hk]
    exact h.marked k hk
  · intro k hk
    rw [heq k hk]
    exact h.fresh k hk
  · intro j k hj hk hjk
    rw [heq j hj, heq k hk] at hjk
    exact h.inj j k hj hk hjk
  · intro t ht
    obtain ⟨h1, h2, h3⟩ := h.table t ht
    refine ⟨h1, h2, fun k hk => ?_⟩
    rw [heq k hk]
    exact h3 k hk

/-- A free block is new to the file and to everyone else. -/
theorem add (h : Owns part₀ part own nb table) (hmono : ∀ lba, Marked part₀ lba → Marked part lba)
    {n : Nat} (hn : n < 8 * part.blockBitmap.bmapBytesLen)
    (hfree : part.blockBitmap.bitmapScanTest n = false) (hnew : own' nb = part.sb.dataStartLba + n)
    (hold : ∀ k < nb, own' k = own k) : Owns part₀ (part.take n) own' (nb + 1) table := by
  have hne : ∀ lba, Marked part lba → lba ≠ own' nb := fun lba hm => by
    rw [hnew]
    exact hm.ne_of_free hfree
  refine ⟨?_, ?_, ?_, ?_⟩
  · intro k hk
    by_cases hkn : k = nb
    · rw [hkn, hnew]
      exact Marked.taken hn
    · rw [hold k (by omega)]
      exact (h.marked k (by omega)).take n
  · intro k hk
    by_cases hkn : k = nb
    · intro hm
      rw [hkn] at hm
      exact hne _ (hmono _ hm) rfl
    · rw [hold k (by omega)]
      exact h.fresh k (by omega)
  · intro j k hj hk hjk
    by_cases hjn : j = nb
    · by_cases hkn : k = nb
      · rw [hjn, hkn]
      · rw [hjn, hold k (by omega)] at hjk
        exact absurd hjk.symm (hne _ (h.marked k (by omega)))
    · rw [hold j (by omega)] at hjk
      by_cases hkn : k = nb
      · rw [hkn] at hjk
        exact absurd hjk (hne _ (h.marked j (by omega)))
      · rw [hold k (by omega)] at hjk
        exact h.inj j k (by omega) (by omega) hjk
  · intro t ht
    obtain ⟨h1, h2, h3⟩ := h.table t ht
    refine ⟨h1.take n, h2, fun k hk => ?_⟩
    by_cases hkn : k = nb
    · rw [hkn]
      exact (hne t h1).symm
    · rw [hold k (by omega)]
      exact h3 k (by omega)

/-- The table is a block like any other. -/
theorem addTable (h : Owns part₀ part own nb none)
    (hmono : ∀ lba, Marked part₀ lba → Marked part lba) {n : Nat}
    (hn : n < 8 * part.blockBitmap.bmapBytesLen)
    (hfree : part.blockBitmap.bitmapScanTest n = false) :
    Owns part₀ (part.take n) own nb (some (part.sb.dataStartLba + n)) := by
  refine ⟨fun k hk => (h.marked k hk).take n, h.fresh, h.inj, ?_⟩
  intro t ht
  rw [Option.mem_some_iff] at ht
  subst ht
  exact ⟨Marked.taken hn, fun hm => (hmono _ hm).ne_of_free hfree rfl,
    fun k hk => (h.marked k hk).ne_of_free hfree⟩

end Owns

/-- A file of `nb` blocks. -/
structure Laid (part₀ part : Partition) (d : Disk) (inode : Inode) (nb : Nat) : Prop where
  le : nb ≤ 140
  free : ∀ k < 12, nb ≤ k → inode.sector k = 0
  noTable : nb ≤ 12 → inode.sector 12 = 0
  owns : Owns part₀ part (fun k => (fileBlk d inode k).toNat) nb
    (if 12 < nb then some (inode.blk 12) else none)

/-! ### Growing -/

/-- What the blocks are during the growth: the old ones, and behind them those in the array. -/
def ownOf (old : Nat → UInt32) (has : Nat) (blocks : Nat → UInt32) (k : Nat) : Nat :=
  if k < has then (old k).toNat else (blocks k).toNat

/-- A write that found `s₁` with `has` blocks has taken the blocks up to `idx`; the inode's
table entry is `w`. -/
structure Grow (part₀ : Partition) (s₁ : Fs) (a has lo : Nat) (old : Nat → UInt32)
    (w : UInt32) (table : Option Nat) (idx : Nat) (blocks : Nat → UInt32) (s : Fs) : Prop where
  layout : s.part.Layout
  sb : s.part.sb = s₁.part.sb
  mono : ∀ lba, Marked part₀ lba → Marked s.part lba
  owns : Owns part₀ s.part (ownOf old has blocks) idx table
  array : ∀ k, lo ≤ k → k < has → blocks k = old k
  sectors : ∀ k < 12, (s.inodes a).sector k
    = if has ≤ k ∧ k < idx then blocks k else (s₁.inodes a).sector k
  sector12 : (s.inodes a).sector 12 = w
  size : (s.inodes a).iSize = (s₁.inodes a).iSize
  data : ∀ x, 512 * s₁.part.sb.dataStartLba ≤ x → s.disk x = s₁.disk x
  files : s.fileTable = s₁.fileTable

section Growth

variable {E : Halt → Prop} (hE : ∀ e : Halt, e.IsPanic → E e)
variable {part₀ : Partition} {s₁ : Fs} {a has lo : Nat} {old : Nat → UInt32} {w : UInt32}
  {table : Option Nat}

/-- One more block, for the array and, while it is a direct one, for the inode. -/
theorem Grow.step {idx n : Nat} {blocks : Nat → UInt32} {s s' : Fs}
    (h : Grow part₀ s₁ a has lo old w table idx blocks s) (hidx : has ≤ idx)
    (hn : n < 8 * s.part.blockBitmap.bmapBytesLen)
    (hfree : s.part.blockBitmap.bitmapScanTest n = false) (hpart : s'.part = s.part.take n)
    (hinode : s'.inodes a = if idx < 12
      then (s.inodes a).setSector idx (u32 (s.part.sb.dataStartLba + n : Nat)) else s.inodes a)
    (hd : ∀ x, 512 * s.part.sb.dataStartLba ≤ x → s'.disk x = s.disk x)
    (hfiles : s'.fileTable = s.fileTable) :
    Grow part₀ s₁ a has lo old w table (idx + 1)
      (storeBlock blocks idx (u32 (s.part.sb.dataStartLba + n : Nat))) s' := by
  have hint := h.layout.data.int
  have hnat : (u32 ((s.part.sb.dataStartLba + n : Nat) : Int)).toNat = s.part.sb.dataStartLba + n :=
    toNat_u32 (by omega)
  refine ⟨by rw [hpart]; exact h.layout.take n, by rw [hpart]; exact h.sb,
    fun lba hm => by rw [hpart]; exact (h.mono lba hm).take n, ?_, ?_, ?_, ?_, ?_, ?_,
    by rw [hfiles, h.files]⟩
  · rw [hpart]
    refine h.owns.add h.mono hn hfree ?_ ?_
    · rw [ownOf, if_neg (by omega), storeBlock, if_pos rfl, hnat]
    · intro k hk
      unfold ownOf storeBlock
      by_cases hlt : k < has
      · rw [if_pos hlt, if_pos hlt]
      · rw [if_neg hlt, if_neg hlt, if_neg (by omega)]
  · intro k h1 h2
    rw [storeBlock, if_neg (by omega), h.array k h1 h2]
  · intro k hk
    rw [hinode]
    by_cases hlt : idx < 12
    · rw [if_pos hlt, Inode.sector_setSector _ _ (by omega), storeBlock]
      by_cases hki : k = idx
      · rw [if_pos hki, if_pos (by omega), if_pos hki]
      · rw [if_neg hki, if_neg hki, h.sectors k hk]
        by_cases hin : has ≤ k ∧ k < idx
        · rw [if_pos hin, if_pos (by omega)]
        · rw [if_neg hin, if_neg (by omega)]
    · rw [if_neg hlt, h.sectors k hk, storeBlock]
      by_cases hin : has ≤ k ∧ k < idx
      · rw [if_pos hin, if_pos (by omega), if_neg (by omega)]
      · rw [if_neg hin, if_neg (by omega)]
  · rw [hinode, ← h.sector12]
    by_cases hlt : idx < 12
    · rw [if_pos hlt, Inode.sector_setSector _ _ (by omega), if_neg (by omega)]
    · rw [if_neg hlt]
  · rw [hinode, ← h.size]
    split <;> rfl
  · intro x hx
    rw [hd x (by rw [h.sb]; exact hx), h.data x hx]

section Wp
include hE

/-- The loop takes the blocks it is asked for. -/
theorem wp_growLoop : ∀ (n idx : Nat) (blocks : Nat → UInt32) (s : Fs),
    has ≤ idx → Grow part₀ s₁ a has lo old w table idx blocks s →
    Prog.wp E (growLoop a n idx blocks) (fun r s' => ∃ blocks', r = some blocks' ∧
      Grow part₀ s₁ a has lo old w table (idx + n) blocks' s') s := by
  intro n
  induction n with
  | zero =>
      intro idx blocks s _ h
      exact Prog.wp_pure ⟨blocks, rfl, h⟩
  | succ n ih =>
      intro idx blocks s hidx h
      have hfit := h.layout.data
      rw [growLoop]
      refine Prog.wp_bind (wp_blockBitmapAlloc hE hfit fun m hm hfree => ?_)
      rw [if_neg (by omega)]
      have hbit := Partition.blockBitmapIdx_eq (hfit.take m) (n := m) hm
      rw [Partition.take_sb] at hbit
      -- the inode is updated while the block is a direct one
      by_cases hlt : idx < 12
      · rw [if_pos hlt]
        refine Prog.wp_get_bind (Prog.wp_bind (wp_assertFs hE fun _ => ?_))
        refine Prog.wp_bind (Prog.wp_of_run (putInode_run _ _ _) (Prog.wp_get_bind ?_))
        simp only [hbit]
        refine Prog.wp_bind (wp_bitmapSync_block hE (hfit.take m) ?_ fun d hd => ?_)
        · exact hm
        rw [show idx + (n + 1) = idx + 1 + n by omega]
        exact ih (idx + 1) _ _ (by omega)
          (h.step hidx hm hfree rfl (by rw [if_pos hlt]; exact if_pos rfl) hd rfl)
      · rw [if_neg hlt]
        refine Prog.wp_get_bind ?_
        simp only [hbit]
        refine Prog.wp_bind (wp_bitmapSync_block hE (hfit.take m) ?_ fun d hd => ?_)
        · exact hm
        rw [show idx + (n + 1) = idx + 1 + n by omega]
        exact ih (idx + 1) _ _ (by omega)
          (h.step hidx hm hfree rfl (by rw [if_neg hlt]) hd rfl)

end Wp

end Growth

/-! ### Making room -/

/-- What a write has when it starts to move data: the file has the blocks it will need, the
ones it had are where they were, and the array holds them from the last one on. -/
structure Ready (part₀ : Partition) (s₁ : Fs) (a has will : Nat) (blocks : Nat → UInt32)
    (s : Fs) : Prop where
  layout : s.part.Layout
  sb : s.part.sb = s₁.part.sb
  mono : ∀ lba, Marked part₀ lba → Marked s.part lba
  laid : Laid part₀ s.part s.disk (s.inodes a) will
  array : ∀ k, has ≤ k + 1 → k < will → blocks k = fileBlk s.disk (s.inodes a) k
  kept : ∀ k < has, fileBlk s.disk (s.inodes a) k = fileBlk s₁.disk (s₁.inodes a) k
  data : ∀ lba, (Marked part₀ lba ∨ ∃ k < has, lba = (fileBlk s₁.disk (s₁.inodes a) k).toNat) →
    ∀ y < 512, s.disk (512 * lba + y) = s₁.disk (512 * lba + y)
  size : (s.inodes a).iSize = (s₁.inodes a).iSize
  files : s.fileTable = s₁.fileTable

section Room

variable {E : Halt → Prop} (hE : ∀ e : Halt, e.IsPanic → E e)
variable {part₀ : Partition} {s₁ s : Fs} {a has will lo t : Nat} {w : UInt32}
  {blocks : Nat → UInt32}

theorem fileBlk_direct {d : Disk} {inode : Inode} {k : Nat} (hk : k < 12) :
    fileBlk d inode k = inode.sector k := if_pos hk

theorem fileBlk_indirect {d : Disk} {inode : Inode} {k : Nat} (hk : 12 ≤ k) :
    fileBlk d inode k = getWord d (512 * inode.blk 12 + 4 * (k - 12)) := if_neg (by omega)

/-- All blocks lie in the data area. -/
theorem Laid.data {part : Partition} {d : Disk} {inode : Inode} {nb : Nat}
    (h : Laid part₀ part d inode nb) {k : Nat} (hk : k < nb) :
    part.sb.dataStartLba ≤ (fileBlk d inode k).toNat := (h.owns.marked k hk).data

/-- Growth within the direct blocks. -/
theorem Grow.ready_direct (h : Grow part₀ s₁ a has lo (fileBlk s₁.disk (s₁.inodes a)) w none will
      blocks s) (hsb : part₀.sb = s₁.part.sb) (hl : Laid part₀ s₁.part s₁.disk (s₁.inodes a) has)
    (hlo : lo + 1 ≤ has) (hw : w = (s₁.inodes a).sector 12) (hwill : will ≤ 12)
    (hle : has ≤ will) : Ready part₀ s₁ a has will blocks s := by
  have hblk : ∀ k < will, fileBlk s.disk (s.inodes a) k
      = if has ≤ k then blocks k else fileBlk s₁.disk (s₁.inodes a) k := by
    intro k hk
    rw [fileBlk_direct (by omega), h.sectors k (by omega), fileBlk_direct (by omega)]
    by_cases hh : has ≤ k
    · rw [if_pos ⟨hh, hk⟩, if_pos hh]
    · rw [if_neg (by omega), if_neg hh]
  refine ⟨h.layout, h.sb, h.mono, ⟨by omega, ?_, ?_, ?_⟩, ?_, ?_, ?_, h.size, h.files⟩
  · intro k hk hge
    rw [h.sectors k hk, if_neg (by omega)]
    exact hl.free k hk (by omega)
  · intro _
    rw [h.sector12, hw]
    exact hl.noTable (by omega)
  · rw [if_neg (by omega)]
    refine h.owns.congr fun k hk => ?_
    rw [hblk k hk, ownOf]
    by_cases hh : has ≤ k
    · rw [if_pos hh, if_neg (by omega)]
    · rw [if_neg hh, if_pos (by omega)]
  · intro k h1 h2
    rw [hblk k h2]
    by_cases hh : has ≤ k
    · rw [if_pos hh]
    · rw [if_neg hh]
      exact h.array k (by omega) (by omega)
  · intro k hk
    rw [hblk k (by omega), if_neg (by omega)]
  · intro lba hlba y hy
    have hge : s₁.part.sb.dataStartLba ≤ lba := by
      rcases hlba with hm | ⟨k, hk, rfl⟩
      · rw [← hsb]
        exact hm.data
      · exact hl.data hk
    exact h.data _ (by omega)

/-- Growth into the indirect blocks: the table goes to its sector `t`. -/
theorem Grow.ready_table (h : Grow part₀ s₁ a has lo (fileBlk s₁.disk (s₁.inodes a)) w (some t)
      will blocks s) (hsb : part₀.sb = s₁.part.sb)
    (hl : Laid part₀ s₁.part s₁.disk (s₁.inodes a) has) (hw : w.toNat = t)
    (hlo : lo + 1 ≤ has) (hlo12 : 12 < has → lo ≤ 12) (hwill : 12 < will) (h140 : will ≤ 140)
    (hle : has ≤ will) : Ready part₀ s₁ a has will blocks
      { s with disk := s.disk.splice (512 * t) (tableMem blocks) 512 } := by
  obtain ⟨-, htfresh, htne⟩ := h.owns.table t rfl
  have ht : (s.inodes a).blk 12 = t := by rw [Inode.blk, h.sector12, hw]
  set d' := s.disk.splice (512 * t) (tableMem blocks) 512 with hd'
  have hblk : ∀ k < will, fileBlk d' (s.inodes a) k
      = if has ≤ k then blocks k else fileBlk s₁.disk (s₁.inodes a) k := by
    intro k hk
    by_cases hk12 : k < 12
    · rw [fileBlk_direct hk12, h.sectors k hk12, fileBlk_direct hk12]
      by_cases hh : has ≤ k
      · rw [if_pos ⟨hh, hk⟩, if_pos hh]
      · rw [if_neg (by omega), if_neg hh]
    · have hword : fileBlk d' (s.inodes a) k = blocks k := by
        rw [fileBlk_indirect (by omega), ht]
        refine (getWord_congr fun j hj => ?_).trans
          (getWord_ofWords (fun k => blocks (12 + k)) (k - 12) |>.trans ?_)
        · rw [hd', Mem.splice_in (by omega) (by omega)]
          show tableMem blocks _ = _
          congr 1
          omega
        · show blocks (12 + (k - 12)) = blocks k
          congr 1
          omega
      rw [hword]
      by_cases hh : has ≤ k
      · rw [if_pos hh]
      · rw [if_neg hh]
        exact h.array k (by omega) (by omega)
  refine ⟨h.layout, h.sb, h.mono, ⟨h140, ?_, fun hc => absurd hc (by omega), ?_⟩, ?_, ?_, ?_,
    h.size, h.files⟩
  · intro k hk hge
    omega
  · rw [if_pos hwill]
    show Owns part₀ s.part (fun k => (fileBlk d' (s.inodes a) k).toNat) will
      (some ((s.inodes a).blk 12))
    rw [ht]
    refine h.owns.congr fun k hk => ?_
    rw [hblk k hk, ownOf]
    by_cases hh : has ≤ k
    · rw [if_pos hh, if_neg (by omega)]
    · rw [if_neg hh, if_pos (by omega)]
  · intro k h1 h2
    show blocks k = fileBlk d' (s.inodes a) k
    rw [hblk k h2]
    by_cases hh : has ≤ k
    · rw [if_pos hh]
    · rw [if_neg hh]
      exact h.array k (by omega) (by omega)
  · intro k hk
    show fileBlk d' (s.inodes a) k = _
    rw [hblk k (by omega), if_neg (by omega)]
  · intro lba hlba y hy
    have hge : s₁.part.sb.dataStartLba ≤ lba ∧ lba ≠ t := by
      rcases hlba with hm | ⟨k, hk, rfl⟩
      · refine ⟨by rw [← hsb]; exact hm.data, fun hc => htfresh (hc ▸ hm)⟩
      · refine ⟨hl.data hk, ?_⟩
        have := htne k (by omega)
        rwa [ownOf, if_pos hk] at this
    show d' (512 * lba + y) = _
    rw [hd', Mem.splice_out (by omega), h.data _ (by omega)]

/-- Where the growth starts: nothing taken yet. -/
theorem Grow.start {table : Option Nat} (hlayout : s.part.Layout)
    (hsb : s.part.sb = s₁.part.sb) (hmono : ∀ lba, Marked part₀ lba → Marked s.part lba)
    (howns : Owns part₀ s.part (fun k => (fileBlk s₁.disk (s₁.inodes a) k).toNat) has table)
    (harr : ∀ k, lo ≤ k → k < has → blocks k = fileBlk s₁.disk (s₁.inodes a) k)
    (hsec : ∀ k < 12, (s.inodes a).sector k = (s₁.inodes a).sector k)
    (h12 : (s.inodes a).sector 12 = w) (hsize : (s.inodes a).iSize = (s₁.inodes a).iSize)
    (hd : ∀ x, 512 * s₁.part.sb.dataStartLba ≤ x → s.disk x = s₁.disk x)
    (hfiles : s.fileTable = s₁.fileTable) :
    Grow part₀ s₁ a has lo (fileBlk s₁.disk (s₁.inodes a)) w table has blocks s := by
  refine ⟨hlayout, hsb, hmono, howns.congr fun k hk => if_pos hk, harr, fun k hk => ?_, h12, hsize,
    hd, hfiles⟩
  rw [if_neg (by omega), hsec k hk]

theorem lastBlock_eq {inode : Inode} {d : Disk} (hhas : has ≤ 12) {k : Nat} (h1 : has ≤ k + 1)
    (h2 : k < has) : lastBlock inode has k = fileBlk d inode k := by
  rw [lastBlock, storeBlock, if_pos (by omega), show has - 1 = k by omega,
    fileBlk_direct (by omega)]

include hE

theorem wp_readTable {func : String} {Q : (Nat → UInt32) → Fs → Prop}
    (h : ∀ table : Nat → UInt32, (∀ k, 12 ≤ k → k < 140 →
      table k = fileBlk s.disk (s.inodes a) k) → (∀ k < 12, table k = blocks k) →
      (s.inodes a).sector 12 ≠ 0 → Q table s) :
    Prog.wp E (readTable a func blocks) Q s := by
  refine Prog.wp_get_bind (Prog.wp_bind (wp_assertFs hE fun hne => ?_))
  refine Prog.wp_bind (wp_readSectors hE (Prog.wp_pure (h _ ?_ ?_ hne)))
  · intro k h1 h2
    rw [withTable, if_pos ⟨h1, h2⟩, Nat.one_mul, getWord_read _ _ _ (by omega),
      fileBlk_indirect h1, Inode.blk]
  · intro k hk
    rw [withTable, if_neg (by omega)]

/-- **A write makes room.**  In each of the four cases the array holds the addresses of the
blocks from the last one on. -/
theorem wp_collectForWrite (hlayout : s₁.part.Layout) (hsb : part₀.sb = s₁.part.sb)
    (hmono : ∀ lba, Marked part₀ lba → Marked s₁.part lba)
    (hl : Laid part₀ s₁.part s₁.disk (s₁.inodes a) has) (hpos : 1 ≤ has) (hle : has ≤ will)
    (h140 : will ≤ 140) :
    Prog.wp E (collectForWrite a has will)
      (fun r s => ∃ blocks, r = some blocks ∧ Ready part₀ s₁ a has will blocks s) s₁ := by
  have hready : ∀ blocks, (∀ k, has ≤ k + 1 → k < has → blocks k
      = fileBlk s₁.disk (s₁.inodes a) k) → Ready part₀ s₁ a has has blocks s₁ := fun blocks harr =>
    ⟨hlayout, rfl, hmono, hl, harr, fun _ _ => rfl, fun _ _ _ _ => rfl, rfl, rfl⟩
  unfold collectForWrite
  refine Prog.wp_get_bind (Prog.wp_ite (fun heq => ?_) fun hne => ?_)
  · -- no new block is needed
    subst heq
    refine Prog.wp_ite (fun hdir => Prog.wp_pure ⟨_, rfl, hready _ fun k h1 h2 =>
      lastBlock_eq hdir h1 h2⟩) fun hind => ?_
    refine Prog.wp_bind (wp_readTable hE fun table htab _ _ => Prog.wp_pure ⟨_, rfl, hready _ ?_⟩)
    intro k h1 h2
    exact htab k (by omega) (by omega)
  refine Prog.wp_ite (fun hdir => ?_) fun hind => ?_
  · -- situation 1: the direct blocks suffice
    refine Prog.wp_bind (wp_assertFs hE fun _ => ?_)
    have hown : Owns part₀ s₁.part (fun k => (fileBlk s₁.disk (s₁.inodes a) k).toNat) has none := by
      have := hl.owns
      rwa [if_neg (by omega)] at this
    have hstart : Grow part₀ s₁ a has (has - 1) (fileBlk s₁.disk (s₁.inodes a))
        ((s₁.inodes a).sector 12) none has (lastBlock (s₁.inodes a) has) s₁ :=
      Grow.start hlayout rfl hmono hown (fun k h1 h2 => lastBlock_eq (by omega) (by omega) h2)
        (fun _ _ => rfl) rfl rfl (fun _ _ => rfl) rfl
    refine Prog.wp_mono (wp_growLoop hE (will - has) has _ s₁ (Nat.le_refl has) hstart) ?_
    rintro r s ⟨blocks, rfl, hgrow⟩
    rw [Nat.add_sub_cancel' hle] at hgrow
    exact ⟨blocks, rfl, hgrow.ready_direct hsb hl (by omega) rfl hdir hle⟩
  refine Prog.wp_ite (fun hdir => ?_) fun hall => ?_
  · -- situation 2: the table is new
    have hown : Owns part₀ s₁.part (fun k => (fileBlk s₁.disk (s₁.inodes a) k).toNat) has none := by
      have := hl.owns
      rwa [if_neg (by omega)] at this
    refine Prog.wp_bind (wp_blockBitmapAlloc hE hlayout.data fun n hn hfree => ?_)
    have hint := hlayout.data.int
    have hnat : (u32 ((s₁.part.sb.dataStartLba + n : Nat) : Int)).toNat
        = s₁.part.sb.dataStartLba + n := toNat_u32 (by omega)
    rw [if_neg (by omega)]
    refine Prog.wp_bind (wp_assertFs hE fun _ => ?_)
    refine Prog.wp_bind (Prog.wp_of_run (putInode_run _ _ _) ?_)
    set inode := (s₁.inodes a).setSector 12 (u32 ((s₁.part.sb.dataStartLba + n : Nat) : Int))
      with hinode
    set s₂ : Fs := { s₁ with part := s₁.part.take n, inodes := fun b =>
      if b = a then inode else s₁.inodes b } with hs₂
    have hin : s₂.inodes a = inode := if_pos rfl
    have hstart : Grow part₀ s₁ a has (has - 1) (fileBlk s₁.disk (s₁.inodes a))
        (u32 ((s₁.part.sb.dataStartLba + n : Nat) : Int)) (some (s₁.part.sb.dataStartLba + n)) has
        (lastBlock (s₁.inodes a) has) s₂ := by
      refine Grow.start (hlayout.take n) rfl (fun lba hm => (hmono lba hm).take n)
        (hown.addTable hmono hn hfree) (fun k h1 h2 => lastBlock_eq hdir (by omega) h2)
        (fun k hk => ?_) ?_ (by rw [hin]; rfl) (fun _ _ => rfl) rfl
      · rw [hin, hinode, Inode.sector_setSector _ _ (by omega), if_neg (by omega)]
      · rw [hin, hinode, Inode.sector_setSector _ _ (by omega), if_pos rfl]
    refine Prog.wp_bind (Prog.wp_mono (wp_growLoop hE (will - has) has _ _ (Nat.le_refl has)
      hstart) ?_)
    rintro r s ⟨blocks, rfl, hgrow⟩
    rw [Nat.add_sub_cancel' hle] at hgrow
    rw [hnat]
    refine Prog.wp_bind (wp_writeSectors hE (Prog.wp_pure ⟨blocks, rfl, ?_⟩))
    exact hgrow.ready_table hsb hl hnat (by omega) (fun h => absurd h (by omega)) (by omega)
      h140 hle
  · -- situation 3: the table is there
    have hown : Owns part₀ s₁.part (fun k => (fileBlk s₁.disk (s₁.inodes a) k).toNat) has
        (some ((s₁.inodes a).blk 12)) := by
      have := hl.owns
      rwa [if_pos (by omega)] at this
    refine Prog.wp_bind (wp_readTable hE fun table htab _ _ => ?_)
    have hstart : Grow part₀ s₁ a has 12 (fileBlk s₁.disk (s₁.inodes a))
        ((s₁.inodes a).sector 12) (some ((s₁.inodes a).blk 12)) has table s₁ :=
      Grow.start hlayout rfl hmono hown (fun k h1 h2 => htab k h1 (by omega))
        (fun _ _ => rfl) rfl rfl (fun _ _ => rfl) rfl
    refine Prog.wp_bind (Prog.wp_mono (wp_growLoop hE (will - has) has _ s₁ (Nat.le_refl has)
      hstart) ?_)
    rintro r s ⟨blocks, rfl, hgrow⟩
    rw [Nat.add_sub_cancel' hle] at hgrow
    refine Prog.wp_bind (wp_writeSectors hE (Prog.wp_pure ⟨blocks, rfl, ?_⟩))
    exact hgrow.ready_table hsb hl rfl (by omega) (fun _ => Nat.le_refl 12) (by omega) h140 hle

end Room

end ZyOs
