/-
`file_write` and the bitmaps.

The block for the indirect table is taken without a sync.  The block taken after it is
synced, and when its bit is in the same sector of the bitmap the table's bit goes to disk
with it.  So the table's bit is lost exactly when it was the last free one of its sector.
-/
import ZyOs.Proofs.SyncedCalls

namespace ZyOs

open Library

/-! ### What a write cannot break -/

/-- A property that blocks taken with a sync and writes outside the bitmaps leave alone. -/
structure Survives (part : Partition) (I : Fs → Prop) : Prop where
  follows : ∀ {s}, I s → ∃ lag, Follows part s lag
  congr : ∀ {s s'}, I s → s'.disk = s.disk → s'.part = s.part → I s'
  take : ∀ {s n}, I s → s.part.blockBitmap.LowestFree n → I (s.changeBlock n true)
  write : ∀ {s off n}, I s → Clear part off n → ∀ buf,
    I { s with disk := s.disk.splice off buf n }

variable {part : Partition} {s s' : Fs} {a g t : Nat} {I : Fs → Prop}

theorem follows_survives (ho : part.Ordered) (lag : Set (BitmapType × Nat)) :
    Survives part (fun s => Follows part s lag) where
  follows := fun h => ⟨_, h⟩
  congr := fun h hdisk hpart => h.congr hdisk hpart
  take := fun h hn => (h.taken ho hn).1.mono Set.sdiff_subset
  write := fun h hclear buf => h.write ho hclear buf

/-- One round of the loop that takes blocks. -/
theorem wp_growLoop_succ (hfit : s.part.DataFits) {n k : Nat} {blocks : Nat → UInt32}
    {Q : Option (Nat → UInt32) → Fs → Prop}
    (h : ∀ m s', s.part.blockBitmap.LowestFree m → s'.disk = (s.changeBlock m true).disk →
      s'.part = (s.changeBlock m true).part → Prog.wp (fun _ => True) (growLoop a n (k + 1)
        (storeBlock blocks k (u32 (s.part.sb.dataStartLba + m : Nat)))) Q s') :
    Prog.wp (fun _ => True) (growLoop a (n + 1) k blocks) Q s := by
  refine Prog.wp_bind (wp_blockBitmapAlloc_lowest panic_allowed hfit fun m hm => ?_)
  have hidx := Partition.blockBitmapIdx_eq (hfit.take m) (n := m) hm.bit
  simp only [Partition.take_sb] at hidx
  rw [if_neg (by omega)]
  refine Prog.wp_ite (fun _ => ?_) fun _ => ?_
  · refine Prog.wp_get_bind (Prog.wp_bind (wp_assertFs panic_allowed fun _ => ?_))
    refine Prog.wp_bind (Prog.wp_of_run (putInode_run ..) (Prog.wp_get_bind ?_))
    rw [hidx]
    exact Prog.wp_bind (wp_bitmapSync panic_allowed (h m _ hm rfl rfl))
  · refine Prog.wp_get_bind ?_
    rw [hidx]
    exact Prog.wp_bind (wp_bitmapSync panic_allowed (h m _ hm rfl rfl))

section Loops

variable (ho : part.Ordered) (hI : Survives part I)
include ho hI

theorem Survives.growLoop : ∀ (n k : Nat) (blocks : Nat → UInt32) (s : Fs),
    (∀ j, SafePtr part (blocks j)) → I s → Prog.wp (fun _ => True) (growLoop a n k blocks)
      (fun r s' => ∀ b, r = some b → I s' ∧ ∀ j, SafePtr part (b j)) s := by
  intro n
  induction n with
  | zero =>
      intro k blocks s hsafe hs
      refine Prog.wp_pure fun b hb => ?_
      obtain rfl := Option.some.inj hb
      exact ⟨hs, hsafe⟩
  | succ n ih =>
      intro k blocks s hsafe hs
      obtain ⟨lag, hf⟩ := hI.follows hs
      refine wp_growLoop_succ (hf.fits ho) fun m s' hm hdisk hpart => ?_
      refine ih (k + 1) _ s' (fun j => ?_) (hI.congr (hI.take hs hm) hdisk hpart)
      unfold storeBlock
      by_cases hj : j = k
      · rw [if_pos hj]
        exact .inr (hf.taken ho hm).2
      · rw [if_neg hj]
        exact hsafe j

theorem Survives.writeLoop {blocks : Nat → UInt32} (hsafe : ∀ j, SafePtr part (blocks j))
    (count : Nat) :
    ∀ (fuel : Nat) (src : Mem) (done left : Nat) (first : Bool) (buf : Mem) (s : Fs),
    I s → Prog.wp (fun _ => True) (writeLoop g a blocks count fuel src done left first buf)
      (fun _ s' => I s') s := by
  intro fuel
  induction fuel with
  | zero => exact fun _ _ _ _ _ s hs => Prog.wp_pure hs
  | succ fuel ih =>
      intro src done left first buf s hs
      refine Prog.wp_ite (fun _ => Prog.wp_get_bind ?_) fun _ => Prog.wp_pure hs
      refine Prog.wp_bind (Prog.wp_ite (fun _ => Prog.wp_pure ?_) fun _ =>
        Prog.wp_lift (fun _ he => absurd he (by simp)) fun _ _ => trivial)
      have hwrite : ∀ (io : Mem) (chunk : Nat), Prog.wp (fun _ => True) (do
          writeSectors (blocks ((s.inodes a).iSize.toNat / 512)).toNat io 1
          putInode a { s.inodes a with iSize := (s.inodes a).iSize + UInt32.ofNat chunk }
          setFdPos g ((((← get).fileTable g).fdPos + chunk) % 2 ^ 32)
          ZyOs.writeLoop g a blocks count fuel (src.drop chunk) (done + chunk) (left - chunk)
            false io) (fun _ s' => I s') s := by
        intro io chunk
        refine Prog.wp_bind (wp_writeSectors panic_allowed ?_)
        refine Prog.wp_bind (Prog.wp_of_run (putInode_run ..) (Prog.wp_get_bind ?_))
        refine Prog.wp_bind (Prog.wp_modify (ih _ _ _ _ _ _ ?_))
        exact hI.congr (hI.write hs ((hsafe _).clear ho) _) rfl rfl
      cases first with
      | true => exact Prog.wp_bind (wp_readSectors panic_allowed (hwrite _ _))
      | false => exact Prog.wp_bind (Prog.wp_pure (hwrite _ _))

end Loops

/-! ### A bit that is not written back -/

/-- Bit `t` is the last free one of its sector. -/
structure Bitmap.LastFree (b : Bitmap) (t : Nat) : Prop extends b.LowestFree t where
  rest : ∀ m < 8 * b.bmapBytesLen, m / 4096 = t / 4096 → m ≠ t → b.bitmapScanTest m = true

/-- Bit `t` is set in memory and clear on disk, and nobody takes another bit of its sector. -/
structure Stale (part : Partition) (t : Nat) (s : Fs) : Prop where
  bit : t < 8 * part.blockBitmap.bmapBytesLen
  disk : (s.disk (512 * part.sb.blockBitmapLba + t / 8)).toBitVec.getLsbD (t % 8) = false
  full : ∀ m < 8 * part.blockBitmap.bmapBytesLen, m / 4096 = t / 4096 →
    s.part.blockBitmap.bitmapScanTest m = true
  follows : ∃ lag, Follows part s lag

theorem Stale.not_synced (h : Stale part t s) : ¬ Synced s := by
  obtain ⟨lag, hf⟩ := h.follows
  intro hs
  have hbit := h.bit
  have hbyte := hs .blockBitmap (t / 8) (by rw [hf.len]; simp only [Partition.bitmapOf]; omega)
  have htest := h.full t hbit rfl
  rw [Bitmap.scanTest_eq] at htest
  rw [hf.bitmapLba] at hbyte
  simp only [Partition.bitmapOf, Partition.bitmapLba] at hbyte
  rw [← hbyte, h.disk] at htest
  exact absurd htest (by decide)

theorem stale_survives (ho : part.Ordered) (t : Nat) : Survives part (Stale part t) where
  follows := fun h => h.follows
  congr := by
    intro s s' h hdisk hpart
    obtain ⟨lag, hf⟩ := h.follows
    exact ⟨h.bit, hdisk ▸ h.disk, hpart ▸ h.full, lag, hf.congr hdisk hpart⟩
  take := by
    intro s n h hn
    obtain ⟨lag, hf⟩ := h.follows
    have hlen := hf.len .blockBitmap
    simp only [Partition.bitmapOf] at hlen
    have hsec : n / 4096 ≠ t / 4096 := by
      intro heq
      have hfull := h.full n (by rw [← hlen]; exact hn.bit) heq
      rw [hn.free] at hfull
      exact absurd hfull (by decide)
    refine ⟨h.bit, ?_, fun m hm hmt => ?_, _, (hf.taken ho hn).1⟩
    · rw [show (s.changeBlock n true).disk (512 * part.sb.blockBitmapLba + t / 8)
          = s.disk (512 * part.sb.blockBitmapLba + t / 8) from Mem.splice_out ?_]
      · exact h.disk
      · simp only [Partition.bitmapLba, hf.sb]
        omega
    · show (s.part.blockBitmap.bitmapSet n true).bitmapScanTest m = true
      rw [Bitmap.scanTest_set]
      by_cases hmn : m = n
      · exact if_pos hmn
      · rw [if_neg hmn]
        exact h.full m hm hmt
  write := by
    intro s off n h hclear buf
    obtain ⟨lag, hf⟩ := h.follows
    have hbit := h.bit
    have h1 := ho.blocks
    have h2 := ho.blockBytes
    refine ⟨h.bit, ?_, h.full, lag, hf.write ho hclear buf⟩
    simp only
    rw [show (s.disk.splice off buf n) (512 * part.sb.blockBitmapLba + t / 8)
        = s.disk (512 * part.sb.blockBitmapLba + t / 8) from Mem.splice_out ?_]
    · exact h.disk
    · rcases hclear with hc | hc <;> omega

/-! ### `file_write` -/

/-- The partition when the block for the table is taken: a file without a first block gets
that one before. -/
def BeforeTable (s : Fs) (a : Nat) (part : Partition) : Prop :=
  if (s.inodes a).sector 0 = 0 then ∃ n, s.part.blockBitmap.LowestFree n ∧ part = s.part.take n
  else part = s.part

/-- The write makes the file grow past its direct blocks, and the bit for the table is the last
free one of its sector. -/
def LosesTable (s : Fs) (g count : Nat) : Prop :=
  ∃ a, (s.fileTable g).fdInode = some a ∧ (s.inodes a).iSize.toNat / 512 + 1 ≤ 12 ∧
    12 < ((s.inodes a).iSize.toNat + count) % 2 ^ 32 / 512 + 1 ∧
    ∃ part t, BeforeTable s a part ∧ part.blockBitmap.LastFree t

theorem BeforeTable.unique {p p' : Partition} (h : BeforeTable s a p) (h' : BeforeTable s a p') :
    p = p' := by
  unfold BeforeTable at h h'
  by_cases h0 : (s.inodes a).sector 0 = 0
  · rw [if_pos h0] at h h'
    obtain ⟨n, hn, rfl⟩ := h
    obtain ⟨m, hm, rfl⟩ := h'
    rw [hn.unique hm]
  · rw [if_neg h0] at h h'
    rw [h, h']

theorem SafeInode.sector {d : Disk} {n : Inode} (h : SafeInode part d n) (k : Nat) :
    SafePtr part (n.sector k) := by
  by_cases hk : k < 13
  · exact h.sectors k hk
  · exact .inl (dif_neg hk)

theorem SafeInode.lastBlock {d : Disk} {n : Inode} (h : SafeInode part d n) (has j : Nat) :
    SafePtr part (lastBlock n has j) := by
  unfold ZyOs.lastBlock storeBlock
  by_cases hj : j = has - 1
  · rw [if_pos hj]
    exact h.sector _
  · rw [if_neg hj]
    exact .inl rfl

section Write

variable (ho : part.Ordered)
include ho

theorem wp_firstBlock_follows (h : Follows part s ∅) (hsafe : SafeInode part s.disk (s.inodes a)) :
    Prog.wp (fun _ => True) (firstBlock a) (fun ok s₁ => ok = true → BeforeTable s a s₁.part ∧
      Follows part s₁ ∅ ∧ SafeInode part s₁.disk (s₁.inodes a)) s := by
  refine Prog.wp_get_bind (Prog.wp_ite (fun h0 => ?_) fun h0 => ?_)
  · refine Prog.wp_bind (wp_blockBitmapAlloc_lowest panic_allowed (h.fits ho) fun n hn => ?_)
    obtain ⟨h₁, hin⟩ := h.taken ho hn
    rw [Set.empty_sdiff] at h₁
    have htable := ho.table
    have hlen := h.len .blockBitmap
    simp only [Partition.bitmapOf] at hlen
    have hbit : n < 8 * part.blockBitmap.bmapBytesLen := by rw [← hlen]; exact hn.bit
    have hidx := Partition.blockBitmapIdx_eq ((h.fits ho).take n) (n := n) hn.bit
    simp only [Partition.take_sb] at hidx
    rw [if_neg (by omega)]
    refine Prog.wp_bind (Prog.wp_of_run (putInode_run ..) (Prog.wp_get_bind ?_))
    refine Prog.wp_bind (wp_assertFs panic_allowed fun _ => ?_)
    rw [hidx]
    refine Prog.wp_bind (wp_bitmapSync panic_allowed (Prog.wp_pure fun _ => ⟨?_, ?_, ?_⟩))
    · rw [BeforeTable, if_pos h0]
      exact ⟨n, hn, rfl⟩
    · exact h₁.congr rfl rfl
    · have hnew : SafeInode part (s.changeBlock n true).disk
          ((s.inodes a).setSector 0 (u32 (s.part.sb.dataStartLba + n : Nat))) := by
        refine (hsafe.wiped (wiped_of_eq fun x hx => ?_)).setSector (by decide) (.inr hin)
        exact h.changeBlock_disk ho hbit true (by omega)
      show SafeInode part (s.changeBlock n true).disk ((s.withInode a _).inodes a)
      rw [withInode_self]
      exact hnew
  · refine Prog.wp_pure fun _ => ⟨?_, h, hsafe⟩
    rw [BeforeTable, if_neg h0]

omit ho in
/-- The pointers that are read from the table. -/
theorem wp_readTable_safe (hsafe : SafeInode part s.disk (s.inodes a)) (func : String) :
    Prog.wp (fun _ => True) (readTable a func (fun _ => 0))
      (fun b s' => s' = s ∧ ∀ j, SafePtr part (b j)) s := by
  refine Prog.wp_get_bind (Prog.wp_bind (wp_assertFs panic_allowed fun h12 => ?_))
  refine Prog.wp_bind (wp_readSectors panic_allowed (Prog.wp_pure ⟨rfl, fun j => ?_⟩))
  unfold withTable
  by_cases hj : 12 ≤ j ∧ j < 140
  · rw [if_pos hj, Nat.one_mul, getWord_read _ _ _ (by omega)]
    exact hsafe.table h12 _ (by omega)
  · rw [if_neg hj]
    exact .inl rfl

/-- The file stays on its side of the table. -/
theorem Survives.collect (hI : Survives part I) (hs : I s)
    (hsafe : SafeInode part s.disk (s.inodes a)) {has will : Nat}
    (hside : ¬ (has ≤ 12 ∧ 12 < will)) : Prog.wp (fun _ => True) (collectForWrite a has will)
      (fun r s' => ∀ b, r = some b → I s' ∧ ∀ j, SafePtr part (b j)) s := by
  refine Prog.wp_get_bind (Prog.wp_ite (fun _ => Prog.wp_ite (fun _ => ?_) fun _ => ?_) fun _ =>
    Prog.wp_ite (fun _ => ?_) fun hwill => Prog.wp_ite (fun hhas => ?_) fun _ => ?_)
  · refine Prog.wp_pure fun b hb => ?_
    obtain rfl := Option.some.inj hb
    exact ⟨hs, hsafe.lastBlock has⟩
  · refine Prog.wp_bind (Prog.wp_mono (wp_readTable_safe hsafe _) fun b s₁ h₁ => ?_)
    obtain ⟨rfl, hb⟩ := h₁
    refine Prog.wp_pure fun b' hb' => ?_
    obtain rfl := Option.some.inj hb'
    exact ⟨hs, hb⟩
  · refine Prog.wp_bind (wp_assertFs panic_allowed fun _ => ?_)
    exact hI.growLoop ho _ _ _ s (hsafe.lastBlock has) hs
  · exact absurd ⟨hhas, by omega⟩ hside
  · refine Prog.wp_bind (Prog.wp_mono (wp_readTable_safe hsafe _) fun b s₁ h₁ => ?_)
    obtain ⟨rfl, hb⟩ := h₁
    refine Prog.wp_bind (Prog.wp_mono (hI.growLoop ho _ _ _ s₁ hb hs) fun r s₂ h₂ => ?_)
    cases r with
    | none => exact Prog.wp_pure fun b hb => absurd hb (by simp)
    | some b =>
        obtain ⟨hs₂, hb₂⟩ := h₂ b rfl
        refine Prog.wp_bind (wp_writeSectors panic_allowed (Prog.wp_pure fun b' hb' => ?_))
        obtain rfl := Option.some.inj hb'
        exact ⟨hI.write hs₂ ((hsafe.sector 12).clear ho) _, hb₂⟩

/-- The file gets a table: what is left are the blocks that are taken after it. -/
theorem Survives.collectTable (hI : Survives part I) (hf : Follows part s ∅) {has will : Nat}
    (hhas : has ≤ 12) (hwill : 12 < will)
    (h : ∀ t s', s.part.blockBitmap.LowestFree t → s'.disk = s.disk → s'.part = s.part.take t →
      Prog.wp (fun _ => True) (ZyOs.growLoop a (will - has) has (lastBlock (s.inodes a) has))
        (fun r s' => ∀ b, r = some b → I s' ∧ ∀ j, SafePtr part (b j)) s') :
    Prog.wp (fun _ => True) (collectForWrite a has will)
      (fun r s' => ∀ b, r = some b → I s' ∧ ∀ j, SafePtr part (b j)) s := by
  refine Prog.wp_get_bind (Prog.wp_ite (fun heq => absurd heq (by omega)) fun _ =>
    Prog.wp_ite (fun hle => absurd hle (by omega)) fun _ => Prog.wp_ite (fun _ => ?_)
      fun hgt => absurd hhas hgt)
  refine Prog.wp_bind (wp_blockBitmapAlloc_lowest panic_allowed (hf.fits ho) fun t ht => ?_)
  rw [if_neg (by omega)]
  refine Prog.wp_bind (wp_assertFs panic_allowed fun _ => ?_)
  refine Prog.wp_bind (Prog.wp_of_run (putInode_run ..) (Prog.wp_bind ?_))
  refine Prog.wp_mono (h t _ ht rfl rfl) fun r s₂ h₂ => ?_
  cases r with
  | none => exact Prog.wp_pure fun b hb => absurd hb (by simp)
  | some b =>
      obtain ⟨hs₂, hb₂⟩ := h₂ b rfl
      refine Prog.wp_bind (wp_writeSectors panic_allowed (Prog.wp_pure fun b' hb' => ?_))
      obtain rfl := Option.some.inj hb'
      exact ⟨hI.write hs₂ ((hf.taken ho ht).2.clear ho) _, hb₂⟩

omit ho in
/-- After the table the next block comes from the same sector when there is one. -/
theorem next_in_sector {p : Partition} {m : Nat} (ht : p.blockBitmap.LowestFree t)
    (hlast : ¬ p.blockBitmap.LastFree t) (hm : (p.take t).blockBitmap.LowestFree m) :
    m / 4096 = t / 4096 := by
  have htest := Partition.take_test p t
  obtain ⟨m', hbit, hsec, hne, hfree⟩ : ∃ m' < 8 * p.blockBitmap.bmapBytesLen,
      m' / 4096 = t / 4096 ∧ m' ≠ t ∧ p.blockBitmap.bitmapScanTest m' ≠ true := by
    by_contra hno
    push Not at hno
    exact hlast ⟨ht, hno⟩
  have hle : m ≤ m' := by
    by_contra hlt
    have hset := hm.below m' (by omega)
    rw [htest, if_neg hne] at hset
    exact hfree hset
  have hlt : t < m := by
    by_contra hge
    have hclear := hm.free
    rw [htest] at hclear
    by_cases hmt : m = t
    · simp [hmt] at hclear
    · rw [if_neg hmt, ht.below m (by omega)] at hclear
      exact absurd hclear (by decide)
  omega

omit ho in
/-- The block for the table is taken, and its bit stays behind. -/
theorem Follows.tableTaken (hf : Follows part s ∅) (t : Nat) (hdisk : s'.disk = s.disk)
    (hpart : s'.part = s.part.take t) : Follows part s' {(.blockBitmap, t / 4096)} := by
  have hset := hf.setBlock t true
  rw [insert_empty_eq] at hset
  exact hset.congr hdisk hpart

theorem collect_follows (hf : Follows part s ∅) (hsafe : SafeInode part s.disk (s.inodes a))
    {has will : Nat}
    (hlast : has ≤ 12 → 12 < will → ∀ t, ¬ s.part.blockBitmap.LastFree t) :
    Prog.wp (fun _ => True) (collectForWrite a has will)
      (fun r s' => ∀ b, r = some b → Follows part s' ∅ ∧ ∀ j, SafePtr part (b j)) s := by
  have hI := follows_survives ho ∅
  by_cases hside : has ≤ 12 ∧ 12 < will
  · refine hI.collectTable ho hf hside.1 hside.2 fun t s' ht hdisk hpart => ?_
    have hs' := hf.tableTaken t hdisk hpart
    obtain ⟨k, hk⟩ : ∃ k, will - has = k + 1 := ⟨will - has - 1, by omega⟩
    rw [hk]
    refine wp_growLoop_succ (hs'.fits ho) fun m s₁ hm hdisk₁ hpart₁ => ?_
    have hsec := next_in_sector ht (hlast hside.1 hside.2 t) (hpart ▸ hm)
    obtain ⟨h₁, hin⟩ := hs'.taken ho hm
    rw [hsec, Set.sdiff_self] at h₁
    refine hI.growLoop ho _ _ _ s₁ (fun j => ?_) (h₁.congr hdisk₁ hpart₁)
    unfold storeBlock
    by_cases hj : j = has
    · rw [if_pos hj]
      exact .inr hin
    · rw [if_neg hj]
      exact hsafe.lastBlock has j
  · exact hI.collect ho hf hsafe hside

theorem collect_stale (hf : Follows part s ∅) (hsafe : SafeInode part s.disk (s.inodes a))
    {has will t : Nat} (hhas : has ≤ 12) (hwill : 12 < will)
    (hlast : s.part.blockBitmap.LastFree t) : Prog.wp (fun _ => True) (collectForWrite a has will)
      (fun r s' => ∀ b, r = some b → Stale part t s' ∧ ∀ j, SafePtr part (b j)) s := by
  have hI := stale_survives ho t
  refine hI.collectTable ho hf hhas hwill fun t' s' ht hdisk hpart => ?_
  obtain rfl := ht.unique hlast.toLowestFree
  refine hI.growLoop ho _ _ _ s' (hsafe.lastBlock has) ?_
  have hlen := hf.len .blockBitmap
  simp only [Partition.bitmapOf] at hlen
  have hbit : t' < 8 * part.blockBitmap.bmapBytesLen := by rw [← hlen]; exact ht.bit
  refine ⟨hbit, ?_, fun m hm hsec => ?_, _, hf.tableTaken t' hdisk hpart⟩
  · have hbyte := hf.eq .blockBitmap (t' / 8) (by simp only [Partition.bitmapOf]; omega)
      (Set.notMem_empty _)
    simp only [Partition.bitmapOf, Partition.bitmapLba] at hbyte
    rw [hdisk, hbyte, ← Bitmap.scanTest_eq]
    exact ht.free
  · rw [hpart, Partition.take_test]
    by_cases hmt : m = t'
    · exact if_pos hmt
    · rw [if_neg hmt]
      exact hlast.rest m (by rw [hlen]; exact hm) hsec hmt

/-- The rest of `file_write` breaks nothing. -/
theorem Survives.fileWrite (hI : Survives part I) (hentry : (s.fileTable g).fdInode = some a)
    (buf : Mem) (count : Nat) (h : Prog.wp (fun _ => True) (firstBlock a) (fun ok s₁ => ok = true →
      Prog.wp (fun _ => True) (collectForWrite a ((s.inodes a).iSize.toNat / 512 + 1)
        (((s.inodes a).iSize.toNat + count) % 2 ^ 32 / 512 + 1))
        (fun r s' => ∀ b, r = some b → I s' ∧ ∀ j, SafePtr part (b j)) s₁) s) :
    Prog.wp (fun _ => True) (fileWrite g buf count) (fun r s' => r ≠ -1 → I s') s := by
  have hfail : ∀ s', Prog.wp (fun _ => True) (pure (-1) : FsM Int) (fun r s' => r ≠ -1 → I s') s' :=
    fun s' => Prog.wp_pure fun hne => absurd rfl hne
  refine Prog.wp_bind (Prog.wp_of_run (fdInodeOf_run hentry _) (Prog.wp_get_bind ?_))
  refine Prog.wp_ite (fun _ => hfail s) fun _ => ?_
  refine Prog.wp_bind (Prog.wp_mono h fun ok s₁ h₁ => Prog.wp_ite (fun hok => ?_) fun _ => hfail s₁)
  refine Prog.wp_bind (wp_assertFs panic_allowed fun _ => ?_)
  refine Prog.wp_bind (Prog.wp_mono (h₁ hok) fun r s₂ h₂ => ?_)
  cases r with
  | none => exact hfail s₂
  | some blocks =>
      obtain ⟨hs₂, hsafe⟩ := h₂ blocks rfl
      refine Prog.wp_bind (Prog.wp_modify (Prog.wp_bind (Prog.wp_mono
        (hI.writeLoop ho hsafe count _ _ _ _ _ _ _ (hI.congr hs₂ rfl rfl)) fun r s₃ hs₃ => ?_)))
      refine Prog.wp_get_bind (Prog.wp_bind (wp_inodeSync panic_allowed (Prog.wp_pure fun _ => ?_)))
      obtain ⟨lag, hf⟩ := hI.follows hs₃
      have h1 := ho.inodes
      have h2 := ho.table
      refine hI.write hs₃ (.inr ?_) _
      simp only [slotAddr, hf.sb]
      omega

/-- `file_write` leaves the bitmaps synced unless it loses the table's bit. -/
theorem fileWrite_synced (h : Tidy part s) (hentry : (s.fileTable g).fdInode = some a)
    (ha : a ∈ s.openInodes) (buf : Mem) (count : Nat) :
    Prog.wp (fun _ => True) (fileWrite g buf count)
      (fun r s' => r ≠ -1 → (Synced s' ↔ ¬ LosesTable s g count)) s := by
  have hsafe := h.opened a ha
  by_cases hloses : LosesTable s g count
  · obtain ⟨b, hb, hhas, hwill, p, t, hbefore, hlast⟩ := hloses
    obtain rfl : a = b := Option.some.inj (hentry.symm.trans hb)
    refine Prog.wp_mono ((stale_survives ho t).fileWrite ho hentry buf count ?_)
      fun r s' h' hr => ?_
    · refine Prog.wp_mono (wp_firstBlock_follows ho h.follows hsafe) fun ok s₁ h₁ hok => ?_
      obtain ⟨hpart, hf, hsafe₁⟩ := h₁ hok
      exact collect_stale ho hf hsafe₁ hhas hwill (hpart.unique hbefore ▸ hlast)
    · exact iff_of_false (h' hr).not_synced
        (not_not.mpr ⟨a, hentry, hhas, hwill, p, t, hbefore, hlast⟩)
  · refine Prog.wp_mono ((follows_survives ho ∅).fileWrite ho hentry buf count ?_)
      fun r s' h' hr => iff_of_true (h' hr).synced hloses
    refine Prog.wp_mono (wp_firstBlock_follows ho h.follows hsafe) fun ok s₁ h₁ hok => ?_
    obtain ⟨hpart, hf, hsafe₁⟩ := h₁ hok
    refine collect_follows ho hf hsafe₁ fun hhas hwill t ht => hloses ?_
    exact ⟨a, hentry, hhas, hwill, s₁.part, t, hpart, ht⟩

end Write

/-! ### The calls -/

/-- The calls that change a bitmap. -/
inductive SyncCall where
  | «open» (pathname : List UInt8) (flags : Nat)
  | write (fd : Int) (buf : Mem) (count : Nat)
  | mkdir (pathname : List UInt8)
  | rmdir (pathname : List UInt8)
  | unlink (pathname : List UInt8)

def SyncCall.exec (env : FsEnv) : SyncCall → FsM Int
  | .open pathname flags => sysOpen env pathname flags
  | .write fd buf count => sysWrite fd buf count
  | .mkdir pathname => sysMkdir env pathname
  | .rmdir pathname => sysRmdir env pathname
  | .unlink pathname => sysUnlink env pathname

/-- The parts of the partition are in order, every user of an inode is counted, and the block
pointers of every inode lead into the data area. -/
structure WellLaid (s : Fs) : Prop extends Counted s [] where
  ordered : s.part.Ordered
  opened : ∀ a ∈ s.openInodes, SafeInode s.part s.disk (s.inodes a)
  slots : ∀ no < 4096, SafeInode s.part s.disk (diskInode s no)

/-- `sys_write` of a file that gets its indirect table, whose bit is the last free one of its
sector. -/
def LosesBit (s : Fs) : SyncCall → Prop
  | .write fd _ count => fd ≠ 1 ∧ LosesTable s ((s.tasks s.cur).fdTable fd.toNat).toNat count
  | _ => False

theorem WellLaid.tidy (h : WellLaid s) (hs : Synced s) : Tidy s.part s :=
  ⟨follows_start hs, h.opened, h.slots⟩

theorem WellLaid.sysWrite (h : WellLaid s) (hs : Synced s) (fd : Int) (buf : Mem) (count : Nat) :
    Prog.wp (fun _ => True) (sysWrite fd buf count)
      (fun r s' => r ≠ -1 → (Synced s' ↔ ¬ LosesBit s (.write fd buf count))) s := by
  refine Prog.wp_ite (fun _ => Prog.wp_pure fun hne => absurd rfl hne) fun _ =>
    Prog.wp_ite (fun h1 => ?_) fun h1 => ?_
  · refine Prog.wp_ite (fun _ => Prog.wp_pure fun _ => ?_) fun _ =>
      Prog.wp_lift (fun _ he => absurd he (by simp)) fun _ _ => trivial
    exact iff_of_true hs fun hl => hl.1 h1
  · refine Prog.wp_bind (Prog.wp_of_returns fun g s₁ hrun => ?_)
    obtain ⟨-, hg, htable, rfl⟩ := fdLocalToGlobal_run hrun
    have hiff : LosesBit s₁ (.write fd buf count) ↔ LosesTable s₁ g count := by
      simp only [LosesBit, htable, Int.toNat_natCast]
      exact ⟨fun hl => hl.2, fun hl => ⟨h1, hl⟩⟩
    rw [hiff]
    refine Prog.wp_get_bind (Prog.wp_ite (fun _ => ?_) fun _ =>
      Prog.wp_pure fun hne => absurd rfl hne)
    cases hentry : (s₁.fileTable g).fdInode with
    | none =>
        refine Prog.wp_bind (Prog.wp_get_bind ?_)
        rw [hentry]
        exact Prog.wp_lift (fun _ he => absurd he (by simp)) fun _ _ => trivial
    | some a =>
        have ha := (h.counted a (Nat.add_pos_left (uses_pos hg hentry) _)).1
        exact fileWrite_synced h.ordered (h.tidy hs) hentry ha buf count

/-- A successful call leaves the bitmaps on disk as they are in memory exactly when it does not
lose the bit of a table. -/
theorem synced_call_iff (env : FsEnv) (s s' : Fs) (c : SyncCall) (r : Int) (h : WellLaid s)
    (hs : Synced s) (hrun : c.exec env s = .ok (r, s')) (hr : r ≠ -1) :
    Synced s' ↔ ¬ LosesBit s c := by
  have htidy := h.tidy hs
  have hremove : TracksRemovals env (fun held s₁ => Counted s₁ held ∧ Tidy s.part s₁) :=
    Tidy.removals h.ordered
  cases c with
  | «open» pathname flags =>
      have hf := (htidy.sysOpen h.ordered h.toCounted pathname flags).of_run hrun hr
      exact iff_of_true hf.synced id
  | write fd buf count => exact (h.sysWrite hs fd buf count).of_run hrun hr
  | mkdir pathname =>
      have hf := (htidy.sysMkdir h.ordered h.toCounted pathname).of_run hrun hr
      exact iff_of_true hf.synced id
  | rmdir pathname =>
      have hf := (hremove.sysRmdir ⟨h.toCounted, htidy⟩ pathname).of_run hrun
      exact iff_of_true hf.2.follows.synced id
  | unlink pathname =>
      have hf := (hremove.sysUnlink ⟨h.toCounted, htidy⟩ pathname).of_run hrun
      exact iff_of_true hf.2.follows.synced id

/-! ### A table that gets the last bit of a sector -/

/-- A block bitmap of two sectors, the first full but for its last bit. -/
def tightBits (i : Nat) : UInt8 := if i < 511 then 255 else if i = 511 then 127 else 0

/-- The root and a file of 6143 bytes in twelve blocks, open as descriptor 3. -/
def tightFs : Fs where
  disk := fun x =>
    if 1024 ≤ x ∧ x < 2048 then tightBits (x - 1024) else if x = 2048 then 3 else 0
  part :=
    { startLba := 0
      secCnt := 10000
      sb := { magic := 0x19970719, secCnt := 10000, inodeCnt := 4096, partLbaBase := 0,
              blockBitmapLba := 2, blockBitmapSects := 2, inodeBitmapLba := 4,
              inodeBitmapSects := 1, inodeTableLba := 5, inodeTableSects := 608,
              dataStartLba := 613, rootInodeNo := 0, dirEntrySize := 24 }
      blockBitmap := { bmapBytesLen := 1024, bits := tightBits }
      inodeBitmap := { bmapBytesLen := 512, bits := fun i => if i = 0 then 3 else 0 } }
  inodes := fun a =>
    if a = 2 then { iNo := 1, iSize := 6143, iOpenCnts := 1, writeDeny := true,
                    iSectors := fun k => if k.val < 12 then 614 + UInt32.ofNat k.val else 0 }
    else { inodeInit 0 with iOpenCnts := 1 }
  heap := {1, 2}
  openInodes := [2, 1]
  rootInode := 1
  fileTable := fun g => { fdPos := 0, fdFlag := 2, fdInode := if g = 3 then some 2 else none }
  tasks := fun _ => { fdTable := fun k => if k < 4 then k else -1, pgDir := false }
  cur := 0

theorem tightFs_synced : Synced tightFs := by
  intro t i hi
  cases t with
  | inodeBitmap =>
      simp only [tightFs, Partition.bitmapOf] at hi
      simp only [tightFs, Partition.bitmapOf, Partition.bitmapLba]
      rw [if_neg (by omega)]
      by_cases hi0 : i = 0
      · simp [hi0]
      · rw [if_neg (by omega), if_neg hi0]
  | blockBitmap =>
      simp only [tightFs, Partition.bitmapOf] at hi
      simp only [tightFs, Partition.bitmapOf, Partition.bitmapLba]
      rw [if_pos (by omega), show 512 * 2 + i - 1024 = i by omega]

theorem tightFs_wellLaid : WellLaid tightFs := by
  have huses : ∀ a, tightFs.uses a
      = (if a = 2 then 1 else 0) + if 1 = a then 1 else 0 := by
    intro a
    have hentries : tightFs.entriesOf a = if a = 2 then {3} else ∅ := by
      ext g
      rw [mem_entriesOf]
      by_cases hg : g = 3
      · by_cases ha : a = 2
        · simp [tightFs, maxFileOpen, hg, ha]
        · simp [tightFs, hg, ha, Ne.symm ha]
      · by_cases ha : a = 2
        · simp [tightFs, hg, ha]
        · simp [tightFs, hg, ha]
    rw [Fs.uses, hentries]
    by_cases ha : a = 2
    · simp [tightFs, ha]
    · simp [tightFs, ha]
  have hzero : ∀ no, diskInode tightFs no = Inode.ofMem fun _ => 0 := by
    refine fun no => Inode.ofMem_congr fun k _ => ?_
    have haddr : slotAddr tightFs.part no = 2560 + 76 * no := rfl
    rw [Mem.drop_apply, haddr]
    simp only [tightFs]
    rw [if_neg (by omega), if_neg (by omega)]
  refine ⟨⟨by decide, by decide, fun a ha => ?_⟩, ⟨by decide, rfl, by decide, rfl, by decide,
    by decide, by decide, rfl⟩, fun a ha => ?_, fun no _ => hzero no ▸ safeInode_zeros _⟩
  · rw [huses, List.count_nil, Nat.add_zero] at ha ⊢
    by_cases ha2 : a = 2
    · subst ha2
      exact ⟨by decide, by decide⟩
    · by_cases ha1 : a = 1
      · subst ha1
        exact ⟨by decide, by decide⟩
      · simp [ha2, Ne.symm ha1] at ha
  · rcases List.mem_cons.mp ha with rfl | ha
    · refine ⟨fun k hk => ?_, fun h12 => absurd (show _ = _ by decide) h12⟩
      by_cases hk12 : k = 12
      · exact .inl (by subst hk12; decide)
      · refine .inr ?_
        interval_cases k <;> first | exact ⟨by decide, by decide⟩ | exact absurd rfl hk12
    · obtain rfl := List.mem_singleton.mp ha
      have hsec : ∀ k < 13, (tightFs.inodes 1).sector k = 0 := by decide
      exact ⟨fun k hk => .inl (hsec k hk), fun h12 => absurd (hsec 12 (by decide)) h12⟩

/-- A new directory on the same disk: all bits it takes are written back. -/
theorem synced_after_mkdir : WellLaid tightFs ∧ Synced tightFs ∧
    Synced (((SyncCall.mkdir [47, 100]).exec upwardEnv).after tightFs) := by
  have hrun : (SyncCall.mkdir [47, 100]).exec upwardEnv tightFs
      = .ok (0, ((SyncCall.mkdir [47, 100]).exec upwardEnv).after tightFs) :=
    Prog.run_of_answer (by decide +kernel)
  exact ⟨tightFs_wellLaid, tightFs_synced, (synced_call_iff upwardEnv tightFs _ _ 0
    tightFs_wellLaid tightFs_synced hrun (by decide)).mpr id⟩

/-- The thirteenth block of a file: the table's bit does not get to the disk. -/
theorem not_synced_after_write : WellLaid tightFs ∧ Synced tightFs ∧
    (SyncCall.write 3 (fun _ => 7) 1).exec upwardEnv tightFs
      = .ok (1, ((SyncCall.write 3 (fun _ => 7) 1).exec upwardEnv).after tightFs) ∧
    ¬ Synced (((SyncCall.write 3 (fun _ => 7) 1).exec upwardEnv).after tightFs) := by
  refine ⟨tightFs_wellLaid, tightFs_synced, Prog.run_of_answer (by decide +kernel), fun h => ?_⟩
  exact absurd (h .blockBitmap 511 (by decide +kernel)) (by decide +kernel)

end ZyOs
