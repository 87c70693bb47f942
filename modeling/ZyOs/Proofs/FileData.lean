/-
A file as a byte string.

`FileInv` ties an open file to the bytes written to it so far: the inode's size is
their number, byte `i` stands in block `i / 512` at offset `i % 512`, and no sector
that was in use when the file was opened has changed.  A write appends, a read
returns a piece.  The one condition is on reads: `file_read` compares
`fd_pos + count` with the size in 32 bits, so a count that makes the sum wrap passes
the comparison and the transfer runs out of the array of block addresses.
-/
import ZyOs.Proofs.FileBlocks

namespace ZyOs

open Library

/-! ### Content -/

/-- The first `n` bytes of the file are those of `f`. -/
def Content (d : Disk) (inode : Inode) (f : Mem) (n : Nat) : Prop :=
  ∀ i < n, d (512 * (fileBlk d inode (i / 512)).toNat + i % 512) = f i

namespace Laid

variable {part₀ part : Partition} {d d' : Disk} {inode inode' : Inode} {nb : Nat}

/-- Block addresses depend on the inode's sectors and on the table only. -/
theorem fileBlk_eq (h : Laid part₀ part d inode nb)
    (hsec : ∀ k < 13, inode'.sector k = inode.sector k)
    (hd : 12 < nb → ∀ y < 512, d' (512 * inode.blk 12 + y) = d (512 * inode.blk 12 + y)) {k : Nat}
    (hk : k < nb) : fileBlk d' inode' k = fileBlk d inode k := by
  have hblk : inode'.blk 12 = inode.blk 12 := by rw [Inode.blk, hsec 12 (by omega), Inode.blk]
  by_cases h12 : k < 12
  · rw [fileBlk_direct h12, fileBlk_direct h12, hsec k (by omega)]
  · have hle := h.le
    rw [fileBlk_indirect (by omega), fileBlk_indirect (by omega), hblk]
    refine getWord_congr fun j hj => ?_
    rw [Nat.add_assoc, hd (by omega) _ (by omega)]

/-- The layout survives whatever leaves the table alone. -/
theorem frame (h : Laid part₀ part d inode nb)
    (hsec : ∀ k < 13, inode'.sector k = inode.sector k)
    (hd : 12 < nb → ∀ y < 512, d' (512 * inode.blk 12 + y) = d (512 * inode.blk 12 + y)) :
    Laid part₀ part d' inode' nb := by
  have hblk : inode'.blk 12 = inode.blk 12 := by rw [Inode.blk, hsec 12 (by omega), Inode.blk]
  refine ⟨h.le, ?_, ?_, ?_⟩
  · intro k hk hge
    rw [hsec k (by omega)]
    exact h.free k hk hge
  · intro hle
    rw [hsec 12 (by omega)]
    exact h.noTable hle
  · rw [hblk]
    exact h.owns.congr fun k hk => by rw [h.fileBlk_eq hsec hd hk]

/-- The table is none of the file's data blocks. -/
theorem table_ne (h : Laid part₀ part d inode nb) (hnb : 12 < nb) {k : Nat} (hk : k < nb) :
    (fileBlk d inode k).toNat ≠ inode.blk 12 := by
  have hown := h.owns
  rw [if_pos hnb] at hown
  exact (hown.table _ rfl).2.2 k hk

end Laid

/-! ### Writing -/

/-- The transfer loop has brought the file to `m` bytes, the first `m` of `f`. -/
structure WriteInv (s₀ : Fs) (fd a will m : Nat) (f : Mem) (blocks : Nat → UInt32) (s : Fs) :
    Prop where
  entry : (s.fileTable fd).fdInode = some a
  layout : s.part.Layout
  sb : s.part.sb = s₀.part.sb
  mono : ∀ lba, Marked s₀.part lba → Marked s.part lba
  laid : Laid s₀.part s.part s.disk (s.inodes a) will
  array : ∀ k, m / 512 ≤ k → k < will → blocks k = fileBlk s.disk (s.inodes a) k
  content : Content s.disk (s.inodes a) f m
  size : (s.inodes a).iSize.toNat = m
  untouched : ∀ lba, Marked s₀.part lba →
    ∀ y < 512, s.disk (512 * lba + y) = s₀.disk (512 * lba + y)

section Write

variable {s₀ s s' : Fs} {fd a will m : Nat} {f : Mem} {blocks : Nat → UInt32}

/-- One sector of the transfer: `chunk` bytes go behind the first `m`. -/
theorem WriteInv.chunk (h : WriteInv s₀ fd a will m f blocks s) {chunk : Nat} {buf : Mem}
    (hin : m < 512 * will) (hchunk : m % 512 + chunk ≤ 512)
    (hfit : m + chunk < 2 ^ 32)
    (hfront : ∀ y < m % 512,
      buf y = s.disk (512 * (fileBlk s.disk (s.inodes a) (m / 512)).toNat + y))
    (hnew : ∀ y < chunk, buf (m % 512 + y) = f (m + y))
    (hpart : s'.part = s.part)
    (hdisk : s'.disk = s.disk.splice (512 * (fileBlk s.disk (s.inodes a) (m / 512)).toNat) buf 512)
    (hinode : s'.inodes a = { s.inodes a with
      iSize := (s.inodes a).iSize + UInt32.ofNat chunk })
    (hentry : (s'.fileTable fd).fdInode = some a) :
    WriteInv s₀ fd a will (m + chunk) f blocks s' := by
  have hk : m / 512 < will := by omega
  set lba := (fileBlk s.disk (s.inodes a) (m / 512)).toNat with hlba
  have hsec : ∀ k < 13, (s'.inodes a).sector k = (s.inodes a).sector k := by
    intro k _
    rw [hinode]
    rfl
  have htab : 12 < will → ∀ y < 512,
      s'.disk (512 * (s.inodes a).blk 12 + y) = s.disk (512 * (s.inodes a).blk 12 + y) := by
    intro h12 y hy
    have := h.laid.table_ne h12 hk
    rw [hdisk, Mem.splice_out (by omega)]
  have hblk : ∀ k < will, fileBlk s'.disk (s'.inodes a) k = fileBlk s.disk (s.inodes a) k :=
    fun k hk => h.laid.fileBlk_eq hsec htab hk
  refine ⟨hentry, by rw [hpart]; exact h.layout, by rw [hpart]; exact h.sb,
    by rw [hpart]; exact h.mono, by rw [hpart]; exact h.laid.frame hsec htab, ?_, ?_, ?_, ?_⟩
  · intro k h1 h2
    rw [hblk k h2]
    exact h.array k (by omega) h2
  · intro i hi
    rw [hblk (i / 512) (by omega), hdisk]
    by_cases hsame : i / 512 = m / 512
    · rw [hsame, ← hlba, Mem.splice_at (Nat.mod_lt _ (by decide))]
      by_cases hlt : i < m
      · -- in front of the new bytes the sector is as it was
        rw [hfront _ (by omega), hlba, ← hsame]
        exact h.content i hlt
      · have hy := hnew (i - m) (by omega)
        rw [show m % 512 + (i - m) = i % 512 by omega, show m + (i - m) = i by omega] at hy
        exact hy
    · have hlt : i < m := by omega
      have hne : (fileBlk s.disk (s.inodes a) (i / 512)).toNat ≠ lba := fun hc =>
        hsame (h.laid.owns.inj _ _ (by omega) hk hc)
      rw [Mem.splice_out (by omega)]
      exact h.content i hlt
  · have hs := h.size
    rw [hinode]
    show ((s.inodes a).iSize + UInt32.ofNat chunk).toNat = m + chunk
    rw [UInt32.toNat_add, hs, UInt32.toNat_ofNat_of_lt' (show chunk < 2 ^ 32 by omega),
      Nat.mod_eq_of_lt hfit]
  · intro l hl y hy
    have hne : l ≠ lba := by
      intro hc
      rw [hc, hlba] at hl
      exact h.laid.owns.fresh _ hk hl
    rw [hdisk, Mem.splice_out (by omega)]
    exact h.untouched l hl y hy

theorem fdPos_entry (s : Fs) (fd pos : Nat) :
    ((if fd = fd then { s.fileTable fd with fdPos := pos } else s.fileTable fd) : File).fdInode
      = (s.fileTable fd).fdInode := by
  rw [if_pos rfl]

/-- An open file, the bytes written to it so far, and the rest of the data area as it was
in `s₀`. -/
structure FileInv (s₀ s : Fs) (fd a : Nat) (c : List UInt8) : Prop where
  entry : (s.fileTable fd).fdInode = some a
  layout : s.part.Layout
  sb : s.part.sb = s₀.part.sb
  mono : ∀ lba, Marked s₀.part lba → Marked s.part lba
  untouched : ∀ lba, Marked s₀.part lba →
    ∀ y < 512, s.disk (512 * lba + y) = s₀.disk (512 * lba + y)
  size : (s.inodes a).iSize.toNat = c.length
  blocks : (c = [] ∧ ∀ k < 13, (s.inodes a).sector k = 0) ∨
    Laid s₀.part s.part s.disk (s.inodes a) (c.length / 512 + 1)
  content : Content s.disk (s.inodes a) (cstr c) c.length

/-- Its size is below the limit. -/
theorem FileInv.length_lt {c : List UInt8} (h : FileInv s₀ s fd a c) : c.length < 71680 := by
  rcases h.blocks with hz | hl
  · rw [hz.1]
    decide
  · have := hl.le
    omega

theorem cstr_append (c data : List UInt8) (i : Nat) : cstr (c ++ data) i
    = if i < c.length then cstr c i else cstr data (i - c.length) := by
  unfold cstr
  by_cases hi : i < c.length
  · rw [if_pos hi, List.getD_append _ _ _ _ hi]
  · rw [if_neg hi, List.getD_append_right _ _ _ _ (by omega)]

section Wp

variable {E : Halt → Prop} (hE : ∀ e : Halt, e.IsPanic → E e)

theorem wp_blockAt {k : Nat} {func : String} {Q : UInt32 → Fs → Prop} (hk : k < 140)
    (h : Q (blocks k) s) : Prog.wp E (blockAt blocks k func) Q s := by
  rw [blockAt, if_pos hk]
  exact Prog.wp_pure h

include hE

/-- The whole transfer. -/
theorem wp_writeLoop {count : Nat} (h140 : will ≤ 140) :
    ∀ (fuel : Nat) (s : Fs) (src : Mem) (m written left : Nat) (first : Bool) (buf : Mem),
      WriteInv s₀ fd a will m f blocks s → m + left < 512 * will →
      (left = 0 ∨ first = true ∨ m % 512 = 0) → (∀ i < left, src i = f (m + i)) →
      written + left = count →
      left ≤ fuel →
      Prog.wp E (writeLoop fd a blocks count fuel src written left first buf)
        (fun r s' => r.1 = count ∧ WriteInv s₀ fd a will (m + left) f blocks s') s := by
  intro fuel
  induction fuel with
  | zero =>
      intro s src m written left first buf h _ _ _ hcount hfuel
      obtain rfl : left = 0 := by omega
      exact Prog.wp_pure ⟨by simpa using hcount, h⟩
  | succ fuel ih =>
      intro s src m written left first buf h hroom hfirst hsrc hcount hfuel
      rw [writeLoop]
      refine Prog.wp_ite (fun hlt => ?_) fun hge => ?_
      · have hsize := h.size
        refine Prog.wp_get_bind ?_
        simp only [hsize]
        set chunk := if left < 512 - m % 512 then left else 512 - m % 512 with hchunk
        have hc1 : m % 512 + chunk ≤ 512 := by
          rw [hchunk]
          split_ifs <;> omega
        have hc2 : chunk ≤ left ∧ 1 ≤ chunk := by
          rw [hchunk]
          split_ifs <;> omega
        have hc3 : chunk = left ∨ (m + chunk) % 512 = 0 := by
          rw [hchunk]
          split_ifs <;> omega
        refine Prog.wp_bind (wp_blockAt (by omega) ?_)
        rw [h.array (m / 512) (Nat.le_refl _) (by omega)]
        -- the rest of the iteration, for any buffer that agrees in front of the new bytes
        have hrest : ∀ io : Mem, (∀ y < m % 512, io y
              = s.disk (512 * (fileBlk s.disk (s.inodes a) (m / 512)).toNat + y)) →
            Prog.wp E (do
              writeSectors (fileBlk s.disk (s.inodes a) (m / 512)).toNat
                (io.splice (m % 512) src chunk) 1
              putInode a { s.inodes a with iSize := (s.inodes a).iSize + UInt32.ofNat chunk }
              setFdPos fd ((((← get).fileTable fd).fdPos + chunk) % 2 ^ 32)
              writeLoop fd a blocks count fuel (src.drop chunk) (written + chunk) (left - chunk)
                false (io.splice (m % 512) src chunk))
              (fun r s' => r.1 = count ∧ WriteInv s₀ fd a will (m + left) f blocks s') s := by
          intro io hio
          refine Prog.wp_bind (wp_writeSectors hE ?_)
          refine Prog.wp_bind (Prog.wp_of_run (putInode_run _ _ _) (Prog.wp_get_bind ?_))
          refine Prog.wp_bind (Prog.wp_modify ?_)
          rw [show m + left = m + chunk + (left - chunk) by omega]
          refine ih _ (src.drop chunk) (m + chunk) _ _ false _ ?_ (by omega) ?_ ?_ (by omega)
            (by omega)
          · refine h.chunk (by omega) hc1 (by omega) ?_ ?_ rfl rfl (if_pos rfl)
              ((fdPos_entry _ _ _).trans h.entry)
            · intro y hy
              rw [Mem.splice_out (by omega), hio y hy]
            · intro y hy
              rw [Mem.splice_at hy, hsrc y (by omega)]
          · rcases hc3 with hc | hc
            · exact Or.inl (by omega)
            · exact Or.inr (Or.inr hc)
          · intro i hi
            rw [Mem.drop_apply, hsrc _ (by omega), Nat.add_assoc]
        cases first with
        | true =>
            rw [if_pos rfl]
            refine Prog.wp_bind (wp_readSectors hE (hrest _ fun y hy => ?_))
            rw [Mem.splice_in (by omega) (by omega), Mem.drop_apply, Nat.sub_zero]
        | false =>
            rw [if_neg (by decide)]
            have hm0 : m % 512 = 0 := (hfirst.resolve_left (by omega)).resolve_left (by decide)
            exact Prog.wp_bind (Prog.wp_pure (hrest _ fun y hy => absurd hy (by omega)))
      · obtain rfl : left = 0 := by omega
        exact Prog.wp_pure ⟨by simpa using hcount, h⟩

/-- The first write takes the first block. -/
theorem wp_firstBlock {c : List UInt8} (h : FileInv s₀ s fd a c) :
    Prog.wp E (firstBlock a) (fun r s' => r = true ∧ FileInv s₀ s' fd a c ∧
      Laid s₀.part s'.part s'.disk (s'.inodes a) (c.length / 512 + 1)) s := by
  have hint := h.layout.data.int
  unfold firstBlock
  refine Prog.wp_get_bind (Prog.wp_ite (fun h0 => ?_) fun hne => ?_)
  · obtain ⟨rfl, hzero⟩ : c = [] ∧ ∀ k < 13, (s.inodes a).sector k = 0 := by
      refine h.blocks.resolve_right fun hl => ?_
      have := (hl.owns.marked 0 (by omega)).ne_zero h.layout.data
      rw [fileBlk_direct (by omega), h0] at this
      exact this rfl
    refine Prog.wp_bind (wp_blockBitmapAlloc hE h.layout.data fun n hn hfree => ?_)
    rw [if_neg (by omega)]
    refine Prog.wp_bind (Prog.wp_of_run (putInode_run _ _ _) (Prog.wp_get_bind ?_))
    have hbit := Partition.blockBitmapIdx_eq (h.layout.data.take n) (n := n) hn
    rw [Partition.take_sb] at hbit
    simp only [hbit]
    refine Prog.wp_bind (wp_assertFs hE fun _ => ?_)
    refine Prog.wp_bind (wp_bitmapSync_block hE (h.layout.data.take n) ?_ fun d hd => ?_)
    · exact hn
    have hnat : (u32 ((s.part.sb.dataStartLba + n : Nat) : Int)).toNat
        = s.part.sb.dataStartLba + n := toNat_u32 (by omega)
    set inode := (s.inodes a).setSector 0 (u32 ((s.part.sb.dataStartLba + n : Nat) : Int))
      with hinode
    have hsec : ∀ k < 13, inode.sector k
        = if k = 0 then u32 ((s.part.sb.dataStartLba + n : Nat) : Int) else 0 := by
      intro k hk
      rw [hinode, Inode.sector_setSector _ _ (by omega)]
      by_cases hk0 : k = 0
      · rw [if_pos hk0, if_pos hk0]
      · rw [if_neg hk0, if_neg hk0, hzero k hk]
    have hlaid : Laid s₀.part (s.part.take n) d inode 1 := by
      refine ⟨by omega, ?_, ?_, ?_⟩
      · intro k hk hge
        rw [hsec k (by omega), if_neg (by omega)]
      · intro _
        rw [hsec 12 (by omega), if_neg (by omega)]
      · have hnone : Owns s₀.part s.part (fun _ => 0) 0 none :=
          ⟨fun k hk => absurd hk (by omega), fun k hk => absurd hk (by omega),
            fun j k hj => absurd hj (by omega), fun t ht => absurd ht (by simp)⟩
        rw [if_neg (by omega)]
        refine hnone.add h.mono hn hfree ?_ fun k hk => absurd hk (by omega)
        show (fileBlk d inode 0).toNat = _
        rw [fileBlk_direct (by omega), hsec 0 (by omega), if_pos rfl, hnat]
    have hself : (if a = a then inode else s.inodes a) = inode := if_pos rfl
    refine Prog.wp_pure ⟨rfl, ⟨h.entry, h.layout.take n, h.sb,
      fun lba hm => (h.mono lba hm).take n, ?_, ?_, Or.inr ?_, fun i hi => absurd hi (by simp)⟩, ?_⟩
    · intro lba hm y hy
      have hge := (h.mono lba hm).data
      show d _ = _
      rw [hd _ (show 512 * s.part.sb.dataStartLba ≤ 512 * lba + y by omega)]
      exact h.untouched lba hm y hy
    · show (if a = a then inode else s.inodes a).iSize.toNat = _
      rw [hself]
      exact h.size
    · show Laid _ _ _ (if a = a then inode else s.inodes a) 1
      rw [hself]
      exact hlaid
    · show Laid _ _ _ (if a = a then inode else s.inodes a) 1
      rw [hself]
      exact hlaid
  · refine Prog.wp_pure ⟨rfl, h, h.blocks.resolve_left fun hz => ?_⟩
    exact hne (hz.2 0 (by omega))

/-- **A write appends its bytes** and returns their number, unless an assertion stops it. -/
theorem wp_fileWrite {c data : List UInt8} (h : FileInv s₀ s fd a c)
    (hlen : c.length + data.length ≤ 71680) :
    Prog.wp E (fileWrite fd (cstr data) data.length)
      (fun r s' => r = data.length ∧ FileInv s₀ s' fd a (c ++ data)) s := by
  have hmod : (c.length + data.length) % 2 ^ 32 = c.length + data.length :=
    Nat.mod_eq_of_lt (by omega)
  unfold fileWrite
  refine Prog.wp_bind (Prog.wp_get_bind ?_)
  rw [h.entry]
  refine Prog.wp_pure (Prog.wp_get_bind ?_)
  simp only [h.size, hmod]
  rw [if_neg (by omega)]
  refine Prog.wp_bind (Prog.wp_mono (wp_firstBlock hE h) ?_)
  rintro r s₁ ⟨rfl, h₁, hl₁⟩
  rw [if_pos rfl]
  refine Prog.wp_bind (wp_assertFs hE fun h140 => ?_)
  rw [h.size, hmod] at h140
  refine Prog.wp_bind (Prog.wp_mono (wp_collectForWrite hE h₁.layout h₁.sb.symm h₁.mono hl₁
    (by omega) (by omega) h140) ?_)
  rintro r s₂ ⟨blocks, rfl, hr⟩
  refine Prog.wp_bind (Prog.wp_modify ?_)
  -- the state in which the transfer starts
  have hstart : WriteInv s₀ fd a ((c.length + data.length) / 512 + 1) c.length
      (cstr (c ++ data)) blocks { s₂ with fileTable := fun g =>
        if g = fd then { s₂.fileTable fd with fdPos := sub32 c.length 1 } else s₂.fileTable g } := by
    refine ⟨(fdPos_entry _ _ _).trans ?_, hr.layout, hr.sb.trans h₁.sb, hr.mono, hr.laid, ?_, ?_,
      ?_, ?_⟩
    · rw [hr.files]
      exact h₁.entry
    · intro k h1 h2
      exact hr.array k (by omega) h2
    · intro i hi
      show s₂.disk (512 * (fileBlk s₂.disk (s₂.inodes a) (i / 512)).toNat + i % 512) = _
      rw [hr.kept _ (by omega), hr.data _ (Or.inr ⟨i / 512, by omega, rfl⟩) _
        (Nat.mod_lt _ (by decide)), h₁.content i hi, cstr_append, if_pos hi]
    · show (s₂.inodes a).iSize.toNat = _
      rw [hr.size]
      exact h₁.size
    · intro lba hm y hy
      show s₂.disk _ = _
      rw [hr.data lba (Or.inl hm) y hy]
      exact h₁.untouched lba hm y hy
  refine Prog.wp_bind (Prog.wp_mono (wp_writeLoop hE h140 data.length _ (cstr data) c.length 0
    data.length true (fun _ => 0) hstart (by omega) (Or.inr (Or.inl rfl)) ?_ (by omega)
    (Nat.le_refl _)) ?_)
  · intro i hi
    rw [cstr_append, if_neg (by omega), Nat.add_sub_cancel_left]
  rintro ⟨written, io⟩ s₃ ⟨rfl, hw⟩
  refine Prog.wp_get_bind (Prog.wp_bind (Prog.wp_of_run (inodeSync_run hw.layout.table _ io)
    (Prog.wp_pure ⟨Bitmap.int32_of_lt (by omega), ?_⟩)))
  -- the inode table lies in front of the data area
  have hbelow := hw.layout.below
  have hno : (s₃.inodes a).iNo.toNat % 256 < 256 := Nat.mod_lt _ (by decide)
  set d := s₃.disk.splice (slotAddr s₃.part ((s₃.inodes a).iNo.toNat % 256))
    (s₃.inodes a).pureMem Inode.size with hd
  have hdata : ∀ x, 512 * s₃.part.sb.dataStartLba ≤ x → d x = s₃.disk x := by
    intro x hx
    refine Mem.splice_out (Or.inr ?_)
    simp only [slotAddr, Inode.size]
    omega
  have htab : 12 < (c.length + data.length) / 512 + 1 → ∀ y < 512,
      d (512 * (s₃.inodes a).blk 12 + y) = s₃.disk (512 * (s₃.inodes a).blk 12 + y) := by
    intro h12 y _
    have hown := hw.laid.owns
    rw [if_pos h12] at hown
    have := (hown.table _ rfl).1.data
    exact hdata _ (by omega)
  have hblk : ∀ k < (c.length + data.length) / 512 + 1,
      fileBlk d (s₃.inodes a) k = fileBlk s₃.disk (s₃.inodes a) k := fun k hk =>
    hw.laid.fileBlk_eq (fun _ _ => rfl) htab hk
  have hlen' : (c ++ data).length = c.length + data.length := List.length_append
  refine ⟨hw.entry, hw.layout, hw.sb, hw.mono, ?_, ?_, Or.inr ?_, ?_⟩
  · intro lba hm y hy
    have := (hw.mono lba hm).data
    show d _ = _
    rw [hdata _ (by omega)]
    exact hw.untouched lba hm y hy
  · rw [hlen']
    exact hw.size
  · rw [hlen']
    exact hw.laid.frame (fun _ _ => rfl) htab
  · rw [hlen']
    intro i hi
    have := hw.laid.data (k := i / 512) (by omega)
    show d (512 * (fileBlk d (s₃.inodes a) (i / 512)).toNat + i % 512) = _
    rw [hblk _ (by omega), hdata _ (by omega)]
    exact hw.content i hi

end Wp

end Write

end ZyOs
