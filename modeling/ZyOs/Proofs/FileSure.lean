/-
`file_write` and `file_read` with nothing to stop them.

`wp_fileWrite` and `wp_fileRead` say what the two do when they return.  On a partition that
lies on its drive, with enough free blocks, no assertion on the way fails either: what the
two look at is what `FileInv` says of the file.  `Stocked` carries the supplies along, so
that the same steps also serve where a panic is accepted instead.
-/
import ZyOs.Proofs.FileRuns
import ZyOs.Proofs.Sure

namespace ZyOs

open Library

variable {E : Halt → Prop} {s₀ s s' : Fs} {fd a k n has will lba : Nat} {c : List UInt8}
  {blocks : Nat → UInt32}

theorem OnDrive.layout (h : OnDrive s.part) : s.part.Layout :=
  ⟨h.dataFits, h.fits, h.ordered.table⟩

/-- The partition of `s` is that of `s₀` with other blocks in use. -/
structure SamePart (s₀ s : Fs) : Prop where
  drive : OnDrive s.part
  sb : s.part.sb = s₀.part.sb
  len : s.part.blockBitmap.bmapBytesLen = s₀.part.blockBitmap.bmapBytesLen

namespace SamePart

/-- A block that has been taken is on the drive. -/
theorem onDrive (h : SamePart s₀ s) (h₀ : OnDrive s₀.part) (hm : Marked s.part lba)
    (hnot : ¬ Marked s₀.part lba) : lba ≤ maxLba := by
  have hdata := hm.data
  have hbit := hm.bit
  rw [h.sb] at hdata hbit
  rw [h.len] at hbit
  have hclear : s₀.part.blockBitmap.bitmapScanTest (lba - s₀.part.sb.dataStartLba) = false := by
    by_contra hc
    exact hnot ⟨hdata, hbit, by simpa using hc⟩
  have := h₀.free _ hbit hclear
  omega

/-- So are the blocks of a file and its table. -/
theorem blk_onDrive (h : SamePart s₀ s) (h₀ : OnDrive s₀.part)
    (hl : Laid s₀.part s.part s.disk (s.inodes a) has) {j : Nat} (hj : j < has) :
    (fileBlk s.disk (s.inodes a) j).toNat ≤ maxLba :=
  h.onDrive h₀ (hl.owns.marked j hj) (hl.owns.fresh j hj)

theorem table_onDrive (h : SamePart s₀ s) (h₀ : OnDrive s₀.part)
    (hl : Laid s₀.part s.part s.disk (s.inodes a) has) (hhas : 12 < has) :
    (s.inodes a).sector 12 ≠ 0 ∧ ((s.inodes a).sector 12).toNat ≤ maxLba := by
  have hown := hl.owns
  rw [if_pos hhas] at hown
  obtain ⟨hm, hnot, -⟩ := hown.table _ rfl
  refine ⟨fun hzero => hm.ne_zero h.drive.dataFits ?_, h.onDrive h₀ hm hnot⟩
  rw [Inode.blk, hzero]
  rfl

end SamePart

/-- Besides, `k` blocks are free, and the first block, the root directory's, is not. -/
structure Stocked (E : Halt → Prop) (s₀ s : Fs) (k : Nat) : Prop extends SamePart s₀ s where
  supplies : Supplies E s.part.blockBitmap k
  first : s.part.blockBitmap.bitmapScanTest 0 = true ∨ ∀ e : Halt, e.IsPanic → E e

namespace Stocked

theorem congr (h : Stocked E s₀ s k) (hpart : s'.part = s.part) : Stocked E s₀ s' k where
  drive := hpart ▸ h.drive
  sb := hpart ▸ h.sb
  len := hpart ▸ h.len
  supplies := hpart ▸ h.supplies
  first := hpart ▸ h.first

theorem mono {j : Nat} (h : Stocked E s₀ s k) (hj : j ≤ k) : Stocked E s₀ s j :=
  { h with supplies := h.supplies.mono hj }

theorem take (h : Stocked E s₀ s (k + 1)) (hn : s.part.blockBitmap.LowestFree n)
    (hpart : s'.part = s.part.take n) : Stocked E s₀ s' k where
  drive := hpart ▸ h.drive.set (.inl hn) true
  sb := hpart ▸ h.sb
  len := hpart ▸ h.len
  supplies := hpart ▸ h.supplies.set n
  first := by
    refine h.first.imp_left fun hfirst => ?_
    rw [hpart, Partition.take_test, hfirst]
    exact ite_self true

/-- Where panics are accepted nothing has to be there. -/
theorem any (h : SamePart s₀ s) (k : Nat) : Stocked (fun _ => True) s₀ s k :=
  { h with supplies := supplies_any _ k, first := .inr fun _ _ => trivial }

/-! ### Writing -/

/-- The first block. -/
theorem firstBlock (h : Stocked E s₀ s ((if (s.inodes a).sector 0 = 0 then 1 else 0) + k)) :
    Prog.wp E (ZyOs.firstBlock a) (fun _ s' => Stocked E s₀ s' k) s := by
  refine Prog.wp_get_bind (Prog.wp_ite (fun hzero => ?_) fun hne => ?_)
  · rw [if_pos hzero, Nat.add_comm] at h
    refine Prog.wp_bind (wp_takeBlock h.drive h.supplies fun n hn _ => ?_)
    have hint := h.drive.ordered.int
    have hbit := Partition.blockBitmapIdx_eq (h.drive.dataFits.take n) (n := n) hn.bit
    rw [Partition.take_sb] at hbit
    rw [if_neg (by omega)]
    refine Prog.wp_bind (Prog.wp_of_run (putInode_run _ _ _) (Prog.wp_get_bind ?_))
    simp only [hbit]
    have hafter : Stocked E s₀ { s with part := s.part.take n } k := h.take hn rfl
    have hsync : Prog.wp E (do
        bitmapSync n .blockBitmap
        return true) (fun _ s' => Stocked E s₀ s' k) { s with
          part := s.part.take n
          inodes := fun b => if b = a then
            (s.inodes a).setSector 0 (u32 ((s.part.sb.dataStartLba + n : Nat) : Int))
            else s.inodes b } :=
      Prog.wp_bind (wp_sync (by exact hafter.drive) (by exact hn.bit)
        (Prog.wp_pure (hafter.congr rfl)))
    rcases h.first with hfirst | hE
    · -- block 0 is in use, so another one was taken
      have hn0 : n ≠ 0 := by
        rintro rfl
        rw [hn.free] at hfirst
        cases hfirst
      exact Prog.wp_bind (wp_assert (by rw [hbit]; exact hn0) hsync)
    · exact Prog.wp_bind (wp_assertFs hE fun _ => hsync)
  · rw [if_neg hne, Nat.zero_add] at h
    exact Prog.wp_pure h

theorem growLoop : ∀ (n idx : Nat) (blocks : Nat → UInt32) (s : Fs), Stocked E s₀ s (n + k) →
    (∀ j, idx ≤ j → j < 12 → (s.inodes a).sector j = 0) →
    Prog.wp E (ZyOs.growLoop a n idx blocks) (fun _ s' => Stocked E s₀ s' k) s := by
  intro n
  induction n with
  | zero =>
      intro idx blocks s h _
      exact Prog.wp_pure (h.mono (by omega))
  | succ n ih =>
      intro idx blocks s h hzero
      rw [show n + 1 + k = n + k + 1 by omega] at h
      rw [ZyOs.growLoop]
      refine Prog.wp_bind (wp_takeBlock h.drive h.supplies fun m hm _ => ?_)
      have hint := h.drive.ordered.int
      have hbit := Partition.blockBitmapIdx_eq (h.drive.dataFits.take m) (n := m) hm.bit
      rw [Partition.take_sb] at hbit
      have hafter : Stocked E s₀ { s with part := s.part.take m } (n + k) := h.take hm rfl
      rw [if_neg (by omega)]
      by_cases hlt : idx < 12
      · rw [if_pos hlt]
        refine Prog.wp_get_bind (Prog.wp_bind (wp_assert (hzero idx (Nat.le_refl _) hlt) ?_))
        refine Prog.wp_bind (Prog.wp_of_run (putInode_run _ _ _) (Prog.wp_get_bind ?_))
        simp only [hbit]
        refine Prog.wp_bind (wp_sync (by exact hafter.drive) (by exact hm.bit) ?_)
        refine ih (idx + 1) _ _ (hafter.congr rfl) fun j hj hj12 => ?_
        show (if a = a then (s.inodes a).setSector idx _ else s.inodes a).sector j = 0
        rw [if_pos rfl, Inode.sector_setSector _ _ (by omega), if_neg (by omega)]
        exact hzero j (by omega) hj12
      · rw [if_neg hlt]
        refine Prog.wp_get_bind ?_
        simp only [hbit]
        refine Prog.wp_bind (wp_sync (by exact hafter.drive) (by exact hm.bit) ?_)
        exact ih (idx + 1) _ _ (hafter.congr rfl) fun j hj hj12 => absurd hj12 (by omega)

theorem readTable (hne : (s.inodes a).sector 12 ≠ 0)
    (hdrive : ((s.inodes a).sector 12).toNat ≤ maxLba) (func : String) :
    Prog.wp E (ZyOs.readTable a func blocks) (fun _ s' => s' = s) s :=
  Prog.wp_get_bind (Prog.wp_bind (wp_assert hne
    (Prog.wp_bind (wp_read hdrive (Prog.wp_pure rfl)))))

end Stocked

/-- The blocks a file needs to grow from `has` blocks to `will`, with the table. -/
def newBlocks (has will : Nat) : Nat := will - has + if has ≤ 12 ∧ 12 < will then 1 else 0

theorem Stocked.collect (h : Stocked E s₀ s (newBlocks has will + k)) (h₀ : OnDrive s₀.part)
    (hl : Laid s₀.part s.part s.disk (s.inodes a) has) (hpos : 1 ≤ has) (hle : has ≤ will) :
    Prog.wp E (collectForWrite a has will) (fun _ s' => Stocked E s₀ s' k) s := by
  have htable := h.toSamePart.table_onDrive h₀ (a := a) hl
  refine Prog.wp_get_bind (Prog.wp_ite (fun heq => ?_) fun hne => ?_)
  · refine Prog.wp_ite (fun _ => Prog.wp_pure (h.mono (by omega))) fun hind => ?_
    obtain ⟨hne, hdrive⟩ := htable (by omega)
    refine Prog.wp_bind (Prog.wp_mono (Stocked.readTable hne hdrive _) ?_)
    rintro _ _ rfl
    exact Prog.wp_pure (h.mono (by omega))
  refine Prog.wp_ite (fun hdir => ?_) fun hind => ?_
  · -- situation 1
    have hlast : (s.inodes a).sector (has - 1) ≠ 0 := by
      intro hzero
      have := (hl.owns.marked (has - 1) (by omega)).ne_zero h.drive.dataFits
      rw [fileBlk_direct (by omega), hzero] at this
      exact this rfl
    rw [newBlocks, if_neg (by omega), Nat.add_zero] at h
    refine Prog.wp_bind (wp_assert hlast ?_)
    exact Stocked.growLoop _ has _ s h fun j hj hj12 => hl.free j hj12 hj
  refine Prog.wp_ite (fun hdir => ?_) fun hall => ?_
  · -- situation 2
    rw [newBlocks, if_pos (by omega), show will - has + 1 + k = will - has + k + 1 by omega] at h
    refine Prog.wp_bind (wp_takeBlock h.drive h.supplies fun n hn _ => ?_)
    have hint := h.drive.ordered.int
    have hbit := hn.bit
    have hfree := h.drive.free n hbit hn.free
    have hnat :
        (u32 ((s.part.sb.dataStartLba + n : Nat) : Int)).toNat = s.part.sb.dataStartLba + n :=
      toNat_u32 (by omega)
    rw [if_neg (by omega)]
    refine Prog.wp_bind (wp_assert (hl.noTable hdir) ?_)
    refine Prog.wp_bind (Prog.wp_of_run (putInode_run _ _ _) ?_)
    refine Prog.wp_bind (Prog.wp_mono (Stocked.growLoop _ has _ _ (h.take hn rfl)
      fun j hj hj12 => ?_) ?_)
    · show (if a = a then (s.inodes a).setSector 12 _ else s.inodes a).sector j = 0
      rw [if_pos rfl, Inode.sector_setSector _ _ (by omega), if_neg (by omega)]
      exact hl.free j hj12 hj
    · rintro (_ | blocks) s' hs'
      · exact Prog.wp_pure hs'
      · exact Prog.wp_bind (wp_write (by rw [hnat]; exact hfree) (Prog.wp_pure (hs'.congr rfl)))
  · -- situation 3
    obtain ⟨hne, hdrive⟩ := htable (by omega)
    rw [newBlocks, if_neg (by omega), Nat.add_zero] at h
    refine Prog.wp_bind (Prog.wp_mono (Stocked.readTable hne hdrive _) ?_)
    rintro table _ rfl
    refine Prog.wp_bind (Prog.wp_mono (Stocked.growLoop _ has _ _ h
      fun j hj hj12 => absurd hj12 (by omega)) ?_)
    rintro (_ | blocks) s' hs'
    · exact Prog.wp_pure hs'
    · exact Prog.wp_bind (wp_write hdrive (Prog.wp_pure (hs'.congr rfl)))

/-- The transfer stays within the array, and with it on the drive. -/
theorem sure_writeLoop {count : Nat} (h140 : will ≤ 140)
    (hdrive : ∀ j, has ≤ j + 1 → j < will → (blocks j).toNat ≤ maxLba) :
    ∀ (fuel : Nat) (src : Mem) (written left : Nat) (first : Bool) (buf : Mem) (s : Fs),
      has ≤ (s.inodes a).iSize.toNat / 512 + 1 → (s.inodes a).iSize.toNat + left < 512 * will →
      Prog.wp E (writeLoop fd a blocks count fuel src written left first buf)
        (fun _ s' => s'.part = s.part) s := by
  intro fuel
  induction fuel with
  | zero =>
      intro src written left first buf s _ _
      exact Prog.wp_pure rfl
  | succ fuel ih =>
      intro src written left first buf s hlow hfit
      rw [writeLoop]
      refine Prog.wp_ite (fun _ => Prog.wp_get_bind ?_) fun _ => Prog.wp_pure rfl
      set m := (s.inodes a).iSize.toNat with hm
      set chunk := if left < 512 - m % 512 then left else 512 - m % 512 with hchunk
      have hc : chunk ≤ left := by
        rw [hchunk]
        split_ifs <;> omega
      have hlba := hdrive (m / 512) hlow (by omega)
      refine Prog.wp_bind (wp_blockAt (by omega) ?_)
      -- what follows the first sector's read, for any buffer
      have hrest : ∀ io : Mem, Prog.wp E (do
          writeSectors (blocks (m / 512)).toNat (io.splice (m % 512) src chunk) 1
          putInode a { s.inodes a with iSize := (s.inodes a).iSize + UInt32.ofNat chunk }
          setFdPos fd ((((← get).fileTable fd).fdPos + chunk) % 2 ^ 32)
          writeLoop fd a blocks count fuel (src.drop chunk) (written + chunk) (left - chunk)
            false (io.splice (m % 512) src chunk)) (fun _ s' => s'.part = s.part) s := by
        intro io
        refine Prog.wp_bind (wp_write hlba ?_)
        refine Prog.wp_bind (Prog.wp_of_run (putInode_run _ _ _) (Prog.wp_get_bind ?_))
        refine Prog.wp_bind (Prog.wp_modify ?_)
        have hsize : ((s.inodes a).iSize + UInt32.ofNat chunk).toNat = m + chunk := by
          rw [UInt32.toNat_add, UInt32.toNat_ofNat_of_lt' (show chunk < 2 ^ 32 by omega), ← hm,
            Nat.mod_eq_of_lt (by omega)]
        refine ih _ _ _ _ _ _ ?_ ?_
        · show has ≤ (if a = a then { s.inodes a with
            iSize := (s.inodes a).iSize + UInt32.ofNat chunk } else s.inodes a).iSize.toNat / 512 + 1
          rw [if_pos rfl, hsize]
          omega
        · show (if a = a then { s.inodes a with
            iSize := (s.inodes a).iSize + UInt32.ofNat chunk } else s.inodes a).iSize.toNat
              + (left - chunk) < 512 * will
          rw [if_pos rfl, hsize]
          omega
      cases first with
      | true =>
          rw [if_pos rfl]
          exact Prog.wp_bind (wp_read hlba (hrest _))
      | false =>
          rw [if_neg (by decide)]
          exact Prog.wp_bind (Prog.wp_pure (hrest _))

/-- The blocks a write of `count` bytes takes. -/
def writeBlocks (inode : Inode) (count : Nat) : Nat :=
  (if inode.sector 0 = 0 then 1 else 0) +
    newBlocks (inode.iSize.toNat / 512 + 1) ((inode.iSize.toNat + count) / 512 + 1)

/-- **A write within the limit returns**, when the blocks it takes are there. -/
theorem Stocked.fileWrite {data : List UInt8} (h : FileInv s₀ s fd a c) (h₀ : OnDrive s₀.part)
    (hs : Stocked E s₀ s (writeBlocks (s.inodes a) data.length + k))
    (hlen : c.length + data.length < 71680) :
    Prog.wp E (ZyOs.fileWrite fd (cstr data) data.length) (fun _ s' => Stocked E s₀ s' k) s := by
  have hmod : (c.length + data.length) % 2 ^ 32 = c.length + data.length :=
    Nat.mod_eq_of_lt (by omega)
  rw [writeBlocks, h.size, Nat.add_assoc] at hs
  unfold ZyOs.fileWrite
  refine Prog.wp_bind (Prog.wp_get_bind ?_)
  rw [h.entry]
  refine Prog.wp_pure (Prog.wp_get_bind ?_)
  simp only [h.size, hmod]
  rw [if_neg (by omega)]
  have hfirst := Prog.wp_and_returns hs.firstBlock (wp_firstBlock (fun _ _ => trivial) h)
  refine Prog.wp_bind (Prog.wp_mono hfirst ?_)
  rintro r s₁ ⟨hs₁, rfl, h₁, hl₁⟩
  rw [if_pos rfl]
  refine Prog.wp_bind (wp_assert (by rw [h.size, hmod]; omega) ?_)
  have hcollect := Prog.wp_and_returns (hs₁.collect h₀ hl₁ (by omega) (by omega))
    (wp_collectForWrite (fun _ _ => trivial) h₁.layout h₁.sb.symm h₁.mono hl₁ (by omega)
      (by omega) (by omega))
  refine Prog.wp_bind (Prog.wp_mono hcollect ?_)
  rintro r s₂ ⟨hs₂, blocks, rfl, hr⟩
  refine Prog.wp_bind (Prog.wp_modify ?_)
  have hsize : (s₂.inodes a).iSize.toNat = c.length := by
    rw [hr.size]
    exact h₁.size
  refine Prog.wp_bind (Prog.wp_mono (sure_writeLoop
    (show (c.length + data.length) / 512 + 1 ≤ 140 by omega)
    (fun j (hj : c.length / 512 + 1 ≤ j + 1) hw => ?_) _ _ _ _ _ _ _ ?_ ?_) ?_)
  · rw [hr.array j hj hw]
    exact hs₂.toSamePart.blk_onDrive h₀ hr.laid hw
  · show _ ≤ (s₂.inodes a).iSize.toNat / 512 + 1
    rw [hsize]
  · show (s₂.inodes a).iSize.toNat + data.length < _
    rw [hsize]
    omega
  rintro ⟨written, io⟩ s₃ hpart
  have hs₃ : Stocked E s₀ s₃ k := hs₂.congr hpart
  exact Prog.wp_get_bind (Prog.wp_bind (wp_syncInode hs₃.drive.fits
    (Prog.wp_pure (hs₃.congr rfl))))

/-! ### Reading -/

theorem sure_collectForRead {startIdx endIdx : Nat} (htable : 12 ≤ endIdx →
    (s.inodes a).sector 12 ≠ 0 ∧ ((s.inodes a).sector 12).toNat ≤ maxLba) :
    Prog.wp E (collectForRead a startIdx endIdx) (fun _ s' => s' = s) s := by
  refine Prog.wp_get_bind (Prog.wp_ite (fun _ => ?_) fun _ => ?_)
  · refine Prog.wp_ite (fun _ => Prog.wp_pure rfl) fun hind => ?_
    exact Prog.wp_bind (wp_read (htable (by omega)).2 (Prog.wp_pure rfl))
  · refine Prog.wp_ite (fun _ => Prog.wp_pure rfl) fun hind => ?_
    obtain ⟨hne, hdrive⟩ := htable (by omega)
    exact Prog.wp_ite (fun _ => Stocked.readTable hne hdrive _)
      fun _ => Stocked.readTable hne hdrive _

theorem sure_readLoop {size p q : Nat} (hq : q ≤ 512 * 140)
    (hdrive : ∀ j, p / 512 ≤ j → 512 * j < q → (blocks j).toNat ≤ maxLba) :
    ∀ (fuel : Nat) (buf : Mem) (done left : Nat) (s : Fs), p ≤ (s.fileTable fd).fdPos →
      (s.fileTable fd).fdPos + left = q → done + left = size →
      Prog.wp E (readLoop fd blocks size fuel buf done left) (fun _ _ => True) s := by
  intro fuel
  induction fuel with
  | zero =>
      intro buf done left s _ _ _
      exact Prog.wp_pure trivial
  | succ fuel ih =>
      intro buf done left s hp hend hsum
      rw [readLoop]
      refine Prog.wp_ite (fun hlt => Prog.wp_get_bind ?_) fun _ => Prog.wp_pure trivial
      set pos := (s.fileTable fd).fdPos with hpos
      set chunk := if left < 512 - pos % 512 then left else 512 - pos % 512 with hchunk
      have hc : chunk ≤ left := by
        rw [hchunk]
        split_ifs <;> omega
      refine Prog.wp_bind (wp_blockAt (by omega) ?_)
      refine Prog.wp_bind (wp_read (hdrive (pos / 512) (by omega) (by omega)) ?_)
      refine Prog.wp_bind (Prog.wp_of_run (setFdPos_run _ _ _) ?_)
      rw [Nat.mod_eq_of_lt (show pos + chunk < 2 ^ 32 by omega)]
      refine ih _ (done + chunk) (left - chunk) _ ?_ ?_ (by omega)
      · rw [atPos_fdPos]
        omega
      · rw [atPos_fdPos]
        omega

/-- The reads that stay clear of the last two blocks of the largest file, and whose sum does not
wrap. -/
def ReadLimit (size p n : Nat) : Prop :=
  p + n < 2 ^ 32 ∧ (p + min n (size - p) < 71168 ∨ p = size ∧ 1 ≤ n)

instance (size p n : Nat) : Decidable (ReadLimit size p n) := inferInstanceAs (Decidable (_ ∧ _))

/-- **A read within the limit returns.** -/
theorem SamePart.fileRead (h : FileInv s₀ s fd a c) (h₀ : OnDrive s₀.part) (hs : SamePart s₀ s)
    {p : Nat} (hp : p ≤ c.length) (hlimit : ReadLimit c.length p n) (buf : Mem) :
    Prog.wp E (ZyOs.fileRead fd buf n) (fun _ _ => True) (s.atPos fd p) := by
  obtain ⟨hwrap, hlimit⟩ := hlimit
  have hbytes : ∀ size, size = min n (c.length - p) → p + size < 71168 →
      Prog.wp E (readBytes fd a buf size) (fun _ _ => True) (s.atPos fd p) := by
    intro size hsize hlt
    unfold readBytes
    refine Prog.wp_get_bind ?_
    simp only [atPos_fdPos]
    rw [Nat.mod_eq_of_lt (show p + size < 2 ^ 32 by omega)]
    refine Prog.wp_bind (wp_assert ?_ ?_)
    · rw [atPos_fdPos, Nat.mod_eq_of_lt (show p + size < 2 ^ 32 by omega)]
      omega
    have hlaid : 1 ≤ p + size →
        Laid s₀.part s.part s.disk (s.inodes a) (c.length / 512 + 1) := fun hpos =>
      h.blocks.resolve_left fun hz => by
        rw [hz.1, List.length_nil] at hp hsize
        omega
    have hsure : Prog.wp E (collectForRead a (p / 512) ((p + size) / 512))
        (fun _ s' => s' = s.atPos fd p) (s.atPos fd p) :=
      sure_collectForRead fun h12 => hs.table_onDrive h₀ (hlaid (by omega)) (by omega)
    have hcollect := Prog.wp_and_returns hsure
      (wp_collectForRead (fun _ _ => trivial) (by omega))
    refine Prog.wp_bind (Prog.wp_mono hcollect ?_)
    rintro blocks _ ⟨rfl, -, harr⟩
    refine Prog.wp_bind (Prog.wp_mono (sure_readLoop (p := p) (q := p + size) (by omega)
      (fun j hj hlt => ?_) size buf 0 size _ ?_ ?_ (by omega)) fun _ _ _ => Prog.wp_pure trivial)
    · rw [harr j hj (by omega)]
      exact hs.blk_onDrive h₀ (hlaid (by omega)) (by omega)
    · rw [atPos_fdPos]
    · rw [atPos_fdPos]
  unfold ZyOs.fileRead
  refine Prog.wp_bind (Prog.wp_get_bind ?_)
  rw [atPos_fdInode, h.entry]
  refine Prog.wp_pure (Prog.wp_get_bind (Prog.wp_get_bind ?_))
  have hsz : ((s.atPos fd p).inodes a).iSize.toNat = c.length := h.size
  simp only [atPos_fdPos, hsz]
  rw [Nat.mod_eq_of_lt hwrap]
  have hsmall := (s.inodes a).iSize.toNat_lt
  rw [h.size] at hsmall
  have hsub : sub32 c.length p = c.length - p := by
    unfold sub32
    omega
  rw [hsub]
  refine Prog.wp_ite (fun hlt => Prog.wp_ite (fun _ => Prog.wp_pure trivial) fun h0 => ?_)
    fun hge => ?_
  · exact hbytes _ (by omega) (by omega)
  · exact hbytes _ (by omega) (by omega)

end ZyOs
