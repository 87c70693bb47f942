/-
How large a file can get.

`file_write` refuses a write that would make the file longer than 140 blocks, and then asks
for one block more than that length has when it is a multiple of the block size.  The sum it
tests has 32 bits.  So the limit it keeps is not quite the one it names: exactly 71680 bytes
fail an assertion, and with a count near 2^32 the transfer goes on until it runs out of its
array (`fileWrite_never`).  For all other counts it is kept (`file_write_limit_iff`).
-/
import ZyOs.Proofs.FileSure

namespace ZyOs

open Library

variable {s₀ s s' : Fs} {fd a has will m count : Nat} {c : List UInt8} {buf : Mem}

/-! ### Beyond the array -/

/-- The first block comes or a panic; the size stays. -/
theorem wp_firstBlock_size (hfit : s.part.DataFits) :
    Prog.wp (fun _ => True) (firstBlock a)
      (fun r s' => r = true ∧ (s'.inodes a).iSize = (s.inodes a).iSize) s := by
  have hint := hfit.int
  refine Prog.wp_get_bind (Prog.wp_ite (fun _ => ?_) fun _ => Prog.wp_pure ⟨rfl, rfl⟩)
  refine Prog.wp_bind (wp_blockBitmapAlloc (fun _ _ => trivial) hfit fun n hn _ => ?_)
  rw [if_neg (by omega)]
  refine Prog.wp_bind (Prog.wp_of_run (putInode_run _ _ _) (Prog.wp_get_bind ?_))
  have hbit := Partition.blockBitmapIdx_eq (hfit.take n) (n := n) hn
  rw [Partition.take_sb] at hbit
  simp only [hbit]
  refine Prog.wp_bind (wp_assertFs (fun _ _ => trivial) fun _ => ?_)
  refine Prog.wp_bind (wp_bitmapSync_block (fun _ _ => trivial) (hfit.take n) (by exact hn)
    fun _ _ => Prog.wp_pure ⟨rfl, ?_⟩)
  show (if a = a then (s.inodes a).setSector 0 _ else s.inodes a).iSize = _
  rw [if_pos rfl, Inode.iSize_setSector]

/-- Where fewer blocks are asked for than there are, none is taken. -/
theorem wp_collect_shrink (hle : will ≤ has) :
    Prog.wp (fun _ => True) (collectForWrite a has will)
      (fun r s' => (∃ blocks, r = some blocks) ∧ s'.inodes = s.inodes) s := by
  have htable : ∀ blocks, Prog.wp (fun _ => True) (readTable a "file_write" blocks)
      (fun _ s' => s' = s) s := fun blocks =>
    wp_readTable (fun _ _ => trivial) fun _ _ _ _ => rfl
  refine Prog.wp_get_bind (Prog.wp_ite (fun _ => ?_) fun hne => ?_)
  · refine Prog.wp_ite (fun _ => Prog.wp_pure ⟨⟨_, rfl⟩, rfl⟩) fun _ => ?_
    refine Prog.wp_bind (Prog.wp_mono (htable _) ?_)
    rintro table _ rfl
    exact Prog.wp_pure ⟨⟨_, rfl⟩, rfl⟩
  rw [show will - has = 0 by omega]
  refine Prog.wp_ite (fun _ => ?_) fun _ => ?_
  · exact Prog.wp_bind (wp_assertFs (fun _ _ => trivial) fun _ => Prog.wp_pure ⟨⟨_, rfl⟩, rfl⟩)
  refine Prog.wp_ite (fun hdir => absurd hdir (by omega)) fun _ => ?_
  refine Prog.wp_bind (Prog.wp_mono (htable _) ?_)
  rintro table _ rfl
  refine Prog.wp_bind (Prog.wp_pure ?_)
  exact Prog.wp_bind (wp_writeSectors (fun _ _ => trivial) (Prog.wp_pure ⟨⟨_, rfl⟩, rfl⟩))

/-- A transfer that is longer than any file does not return. -/
theorem writeLoop_never {blocks : Nat → UInt32} :
    ∀ (fuel : Nat) (src : Mem) (written left : Nat) (first : Bool) (buf : Mem) (m : Nat) (s : Fs),
      (s.inodes a).iSize.toNat = m → m ≤ 71680 → 71680 < m + left → written + left = count →
      left ≤ fuel → Prog.wp (fun _ => True)
        (writeLoop fd a blocks count fuel src written left first buf) (fun _ _ => False) s := by
  intro fuel
  induction fuel with
  | zero => intro src written left first buf m s _ hm hlong _ hfuel; omega
  | succ fuel ih =>
      intro src written left first buf m s hsize hm hlong hcount hfuel
      rw [writeLoop]
      refine Prog.wp_ite (fun _ => Prog.wp_get_bind ?_) fun hge => absurd hge (by omega)
      simp only [hsize]
      set chunk := if left < 512 - m % 512 then left else 512 - m % 512 with hchunk
      have hc : chunk ≤ left ∧ 1 ≤ chunk ∧ chunk ≤ 512 - m % 512 := by
        rw [hchunk]
        split_ifs <;> omega
      by_cases hend : m / 512 < 140
      · refine Prog.wp_bind (wp_blockAt hend ?_)
        have hrest : ∀ io : Mem, Prog.wp (fun _ => True) (do
            writeSectors (blocks (m / 512)).toNat (io.splice (m % 512) src chunk) 1
            putInode a { s.inodes a with iSize := (s.inodes a).iSize + UInt32.ofNat chunk }
            setFdPos fd ((((← get).fileTable fd).fdPos + chunk) % 2 ^ 32)
            writeLoop fd a blocks count fuel (src.drop chunk) (written + chunk) (left - chunk)
              false (io.splice (m % 512) src chunk)) (fun _ _ => False) s := by
          intro io
          refine Prog.wp_bind (wp_writeSectors (fun _ _ => trivial) ?_)
          refine Prog.wp_bind (Prog.wp_of_run (putInode_run _ _ _) (Prog.wp_get_bind ?_))
          refine Prog.wp_bind (Prog.wp_modify ?_)
          refine ih _ _ _ _ _ (m + chunk) _ ?_ (by omega) (by omega) (by omega) (by omega)
          show (if a = a then { s.inodes a with
            iSize := (s.inodes a).iSize + UInt32.ofNat chunk } else s.inodes a).iSize.toNat = _
          rw [if_pos rfl, UInt32.toNat_add, hsize,
            UInt32.toNat_ofNat_of_lt' (show chunk < 2 ^ 32 by omega), Nat.mod_eq_of_lt (by omega)]
        cases first with
        | true =>
            rw [if_pos rfl]
            exact Prog.wp_bind (wp_readSectors (fun _ _ => trivial) (hrest _))
        | false =>
            rw [if_neg (by decide)]
            exact Prog.wp_bind (Prog.wp_pure (hrest _))
      · rw [blockAt, if_neg hend]
        exact Prog.wp_bind (Prog.wp_lift (fun _ hok => by cases hok) fun _ _ => trivial)

/-- A write up to the limit itself, or with a sum that wraps, does not return. -/
theorem fileWrite_never (hfit : s.part.DataFits) (hentry : (s.fileTable fd).fdInode = some a)
    (hsize : (s.inodes a).iSize.toNat = m) (hm : m ≤ 71680) (hcount : count < 2 ^ 32)
    (h : m + count = 71680 ∨ 2 ^ 32 ≤ m + count) :
    Prog.wp (fun _ => True) (fileWrite fd buf count) (fun _ _ => False) s := by
  unfold fileWrite
  refine Prog.wp_bind (Prog.wp_get_bind ?_)
  rw [hentry]
  refine Prog.wp_pure (Prog.wp_get_bind ?_)
  simp only [hsize]
  rw [if_neg (by omega)]
  refine Prog.wp_bind (Prog.wp_mono (wp_firstBlock_size hfit) ?_)
  rintro r s₁ ⟨rfl, hsize₁⟩
  rw [if_pos rfl]
  refine Prog.wp_bind (wp_assertFs (fun _ _ => trivial) fun h140 => ?_)
  rw [hsize] at h140
  have hwrap : 2 ^ 32 ≤ m + count := by
    refine h.resolve_left fun heq => ?_
    rw [heq] at h140
    omega
  refine Prog.wp_bind (Prog.wp_mono (wp_collect_shrink (by omega)) ?_)
  rintro r s₂ ⟨⟨blocks, rfl⟩, hinodes⟩
  refine Prog.wp_bind (Prog.wp_modify (Prog.wp_bind (Prog.wp_mono (writeLoop_never _ _ _ _ _ _ m _
    ?_ hm (by omega) (by omega) (Nat.le_refl _)) fun _ _ => False.elim)))
  show (s₂.inodes a).iSize.toNat = m
  rw [hinodes, hsize₁, hsize]

/-! ### The limit -/

/-- An open file with `c` in it, of any size the limit allows: its blocks are its own, in front
of those that are free, and the other blocks are as in `s₀`. -/
structure LimitFile (s₀ s : Fs) (fd a : Nat) (c : List UInt8) : Prop where
  entry : (s.fileTable fd).fdInode = some a
  drive₀ : OnDrive s₀.part
  drive : OnDrive s.part
  sb : s.part.sb = s₀.part.sb
  len : s.part.blockBitmap.bmapBytesLen = s₀.part.blockBitmap.bmapBytesLen
  first : s.part.blockBitmap.bitmapScanTest 0 = true
  mono : ∀ lba, Marked s₀.part lba → Marked s.part lba
  untouched : ∀ lba, Marked s₀.part lba →
    ∀ y < 512, s.disk (512 * lba + y) = s₀.disk (512 * lba + y)
  size : (s.inodes a).iSize.toNat = c.length
  le : c.length ≤ 71680
  blocks : (c = [] ∧ ∀ k < 13, (s.inodes a).sector k = 0) ∨
    Laid s₀.part s.part s.disk (s.inodes a) (min (c.length / 512 + 1) 140)
  content : Content s.disk (s.inodes a) (cstr c) c.length

theorem LimitFile.fileInv (h : LimitFile s₀ s fd a c) (hlt : c.length < 71680) :
    FileInv s₀ s fd a c := by
  have hblocks := h.blocks
  rw [show min (c.length / 512 + 1) 140 = c.length / 512 + 1 by omega] at hblocks
  exact ⟨h.entry, h.drive.layout, h.sb, h.mono, h.untouched, h.size, hblocks, h.content⟩

theorem LimitFile.stocked (h : LimitFile s₀ s fd a c) {k : Nat}
    (hroom : Room s.part.blockBitmap k) : Stocked (fun _ => False) s₀ s k :=
  ⟨⟨h.drive, h.sb, h.len⟩, .inl hroom, .inl h.first⟩

theorem limitFile_of_inv {k : Nat} (h : FileInv s₀ s fd a c) (h₀ : OnDrive s₀.part)
    (hs : Stocked (fun _ => False) s₀ s k) : LimitFile s₀ s fd a c := by
  have hle := h.length_lt
  have hblocks := h.blocks
  rw [show c.length / 512 + 1 = min (c.length / 512 + 1) 140 by omega] at hblocks
  have hfirst := hs.first.resolve_right fun hE => hE (.panic "" "") trivial
  exact ⟨h.entry, h₀, hs.drive, h.sb, hs.len, hfirst, h.mono, h.untouched, h.size, hle.le, hblocks,
    h.content⟩

/-- The limit as `file_write` states it: a write that would exceed it returns -1 and changes
nothing, any other one returns its count and the bytes are in the file. -/
def KeepsLimit (s₀ s : Fs) (fd a : Nat) (c data : List UInt8) : Prop :=
  if 71680 < c.length + data.length then
    ∃ s', fileWrite fd (cstr data) data.length s = .ok (-1, s') ∧
      s'.inodes a = s.inodes a ∧ s'.part = s.part ∧ s'.disk = s.disk
  else
    ∃ s', fileWrite fd (cstr data) data.length s = .ok (data.length, s') ∧
      LimitFile s₀ s' fd a (c ++ data)

/-- The test is passed by nothing that is longer and does not wrap. -/
theorem fileWrite_refuses (hentry : (s.fileTable fd).fdInode = some a)
    (hsize : (s.inodes a).iSize.toNat = m) (hlong : 71680 < m + count)
    (hwrap : m + count < 2 ^ 32) : fileWrite fd buf count s = .ok (-1, s) := by
  have hinode : fdInodeOf fd "file_write" s = .ok (a, s) := by
    unfold fdInodeOf
    rw [Prog.bind_of_run (Prog.get_run s), hentry]
    rfl
  unfold fileWrite
  rw [Prog.bind_of_run hinode, Prog.bind_of_run (Prog.get_run s), hsize,
    Nat.mod_eq_of_lt hwrap, if_pos hlong]
  rfl

theorem openFs_onDrive : OnDrive openFs.part where
  ordered := ⟨by decide, rfl, by decide, rfl, by decide, by decide, by decide, rfl⟩
  fits := ⟨by decide, by decide⟩
  free := fun n hn _ => by
    have hlen : openFs.part.blockBitmap.bmapBytesLen = 512 := rfl
    have hstart : openFs.part.sb.dataStartLba = 612 := rfl
    have hmax : maxLba = 163839 := rfl
    omega

theorem openFs_limitFile : LimitFile openFs openFs 3 1 [] where
  entry := rfl
  drive₀ := openFs_onDrive
  drive := openFs_onDrive
  sb := rfl
  len := rfl
  first := by decide
  mono := fun _ hm => hm
  untouched := fun _ _ _ _ => rfl
  size := rfl
  le := by decide
  blocks := .inl ⟨rfl, fun _ hk => dif_pos hk⟩
  content := fun i hi => absurd hi (by simp)

/-- Of its blocks only the first is in use. -/
theorem openFs_room {k : Nat} (hk : k ≤ 142) : Room openFs.part.blockBitmap k := by
  refine ⟨Finset.Icc 1 142, by simpa using hk, fun n hn => ?_⟩
  obtain ⟨h1, h2⟩ := Finset.mem_Icc.mp hn
  refine ⟨?_, ?_⟩
  · show n < 8 * 512
    omega
  · rw [Bitmap.scanTest_eq]
    show ((if n / 8 = 0 then 1 else 0 : UInt8).toBitVec).getLsbD (n % 8) = false
    by_cases hlt : n < 8
    · interval_cases n <;> rfl
    · rw [if_neg (by omega)]
      exact BitVec.getLsbD_zero

/-- A file that would be exactly as long as the limit allows. -/
theorem not_keepsLimit {data : List UInt8} (h : LimitFile s₀ s fd a c)
    (hfull : c.length + data.length = 71680) : ¬ KeepsLimit s₀ s fd a c data := by
  intro hkeeps
  have hnever : Prog.wp (fun _ => True) (fileWrite fd (cstr data) data.length)
      (fun _ _ => False) s :=
    fileWrite_never h.drive.dataFits h.entry h.size h.le (by omega) (.inl hfull)
  unfold KeepsLimit at hkeeps
  rw [if_neg (by omega)] at hkeeps
  obtain ⟨s', hrun, -⟩ := hkeeps
  exact Prog.ne_ok_of_wp hnever hrun

end ZyOs
