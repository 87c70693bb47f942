/-
The file position stays inside the file, but for one write.

A write leaves the position one below the size, a read and a seek keep it below, and
sizes only grow.  The one below the size of an empty file is 2 ^ 32 - 1, and a write of
no bytes leaves it there.
-/
import ZyOs.Proofs.FileReads
import ZyOs.Proofs.Writers

namespace ZyOs

open Library Library.Prog

/-- Every entry in use has its position within the file. -/
def Inside (s : Fs) : Prop :=
  ∀ g a, g < maxFileOpen → (s.fileTable g).fdInode = some a →
    0 ≤ (s.fileTable g).fdPos ∧ (s.fileTable g).fdPos ≤ (s.inodes a).iSize.toNat

/-- No size and no entry is another. -/
structure SameSizes (s₀ s : Fs) : Prop where
  sizes : ∀ a, (s.inodes a).iSize = (s₀.inodes a).iSize
  files : s.fileTable = s₀.fileTable
  heap : s.heap = s₀.heap
  sb : s.part.sb = s₀.part.sb

variable {s₀ s s' : Fs} {a b g p fd count : Nat} {held : List Nat} {env : FsEnv} {buf : Mem}

namespace SameSizes

theorem refl (s : Fs) : SameSizes s s := ⟨fun _ => rfl, rfl, rfl, rfl⟩

theorem trans {s'' : Fs} (h : SameSizes s s') (h' : SameSizes s' s'') : SameSizes s s'' :=
  ⟨fun a => (h'.sizes a).trans (h.sizes a), h'.files.trans h.files, h'.heap.trans h.heap,
    h'.sb.trans h.sb⟩

theorem putInode (h : SameSizes s₀ s) {n : Inode} (hn : n.iSize = (s.inodes a).iSize) :
    Preserves (SameSizes s₀) (putInode a n) := by
  refine Preserves.modify fun t ht => ⟨fun b => ?_, ht.files, ht.heap, ht.sb⟩
  by_cases hb : b = a
  · simp only [hb, if_pos, hn, h.sizes]
  · simp only [if_neg hb, ht.sizes]

theorem ignores (s₀ : Fs) : Ignores (SameSizes s₀) where
  disk := fun _ h => ⟨h.sizes, h.files, h.heap, h.sb⟩
  part := fun _ hp h => ⟨h.sizes, h.files, h.heap, hp.sb.trans h.sb⟩
  sector := fun _ _ _ h => h.putInode rfl

theorem inside (h : SameSizes s s') (hin : Inside s) : Inside s' := by
  intro g a hg ha
  rw [h.files] at ha ⊢
  rw [h.sizes]
  exact hin g a hg ha

end SameSizes

/-! ### Writing -/

/-- `count` bytes have been appended through entry `fd` to the file at `a`. -/
structure Appended (s₀ s : Fs) (fd a count : Nat) : Prop where
  size : (s.inodes a).iSize.toNat = (s₀.inodes a).iSize.toNat + count
  sizes : ∀ b, b ≠ a → (s.inodes b).iSize = (s₀.inodes b).iSize
  pos : (s.fileTable fd).fdPos = ((s₀.fileTable fd).fdPos + count) % 2 ^ 32
  fdInode : (s.fileTable fd).fdInode = (s₀.fileTable fd).fdInode
  files : ∀ g, g ≠ fd → s.fileTable g = s₀.fileTable g

theorem Appended.sameSizes (h : Appended s₀ s fd a count) (h' : SameSizes s s') :
    Appended s₀ s' fd a count :=
  ⟨by rw [h'.sizes]; exact h.size, fun b hb => (h'.sizes b).trans (h.sizes b hb),
    by rw [h'.files]; exact h.pos, by rw [h'.files]; exact h.fdInode,
    fun g hg => by rw [h'.files]; exact h.files g hg⟩

theorem Appended.of_sameSizes (h : Appended s s' fd a count) (h₀ : SameSizes s₀ s) :
    Appended s₀ s' fd a count :=
  ⟨by rw [← h₀.sizes]; exact h.size, fun b hb => (h.sizes b hb).trans (h₀.sizes b),
    by rw [← h₀.files]; exact h.pos, by rw [← h₀.files]; exact h.fdInode,
    fun g hg => by rw [← h₀.files]; exact h.files g hg⟩

/-- Two pieces one after the other. -/
theorem Appended.trans {s'' : Fs} {m : Nat} (h : Appended s₀ s' fd a m)
    (h' : Appended s' s'' fd a count) : Appended s₀ s'' fd a (m + count) := by
  refine ⟨?_, fun b hb => (h'.sizes b hb).trans (h.sizes b hb), ?_, h'.fdInode.trans h.fdInode,
    fun g hg => (h'.files g hg).trans (h.files g hg)⟩
  · rw [h'.size, h.size, Nat.add_assoc]
  · rw [h'.pos, h.pos, Nat.mod_add_mod, Nat.add_assoc]

/-- A sector's worth of data: the size and the position grow by it. -/
theorem appended_chunk {d : Disk} {chunk : Nat} (h : (s.inodes a).iSize.toNat + chunk < 2 ^ 32) :
    Appended s ((({ s with disk := d } : Fs).withInode a { s.inodes a with
      iSize := (s.inodes a).iSize + UInt32.ofNat chunk }).atPos fd
        (((s.fileTable fd).fdPos + chunk) % 2 ^ 32)) fd a chunk := by
  refine ⟨?_, fun b hb => ?_, atPos_fdPos .., atPos_fdInode .., fun g hg => if_neg hg⟩
  · show (if a = a then _ else _ : Inode).iSize.toNat = _
    rw [if_pos rfl, UInt32.toNat_add, UInt32.toNat_ofNat_of_lt' (show chunk < 2 ^ 32 by omega),
      Nat.mod_eq_of_lt h]
  · show (if b = a then _ else _ : Inode).iSize = _
    rw [if_neg hb]

/-- The loop that moves the data returns only when all of it has gone into the 140 blocks. -/
theorem wp_writeLoop_sizes {blocks : Nat → UInt32} :
    ∀ (fuel : Nat) (src : Mem) (written left : Nat) (first : Bool) (buf : Mem) (s : Fs),
      written + left = count → left ≤ fuel → (s.fileTable fd).fdPos < 2 ^ 32 →
      Prog.wp (fun _ => True) (writeLoop fd a blocks count fuel src written left first buf)
        (fun r s' => r.1 = count ∧ Appended s s' fd a left) s := by
  intro fuel
  induction fuel with
  | zero =>
      intro src written left first buf s hsum hfuel hpos
      obtain rfl : left = 0 := by omega
      exact Prog.wp_pure ⟨hsum, rfl, fun _ _ => rfl, (Nat.mod_eq_of_lt hpos).symm, rfl,
        fun _ _ => rfl⟩
  | succ fuel ih =>
      intro src written left first buf s hsum hfuel hpos
      rw [writeLoop]
      refine Prog.wp_ite (fun hlt => Prog.wp_get_bind ?_) fun hge => ?_
      · set m := (s.inodes a).iSize.toNat with hm
        set chunk := if left < 512 - m % 512 then left else 512 - m % 512 with hchunk
        have hc : chunk ≤ left ∧ 1 ≤ chunk ∧ chunk ≤ 512 := by
          rw [hchunk]
          split_ifs <;> omega
        by_cases hend : m / 512 < 140
        · refine Prog.wp_bind (wp_blockAt hend ?_)
          have hrest : ∀ io : Mem, Prog.wp (fun _ => True) (do
              writeSectors (blocks (m / 512)).toNat (io.splice (m % 512) src chunk) 1
              putInode a { s.inodes a with iSize := (s.inodes a).iSize + UInt32.ofNat chunk }
              setFdPos fd ((((← get).fileTable fd).fdPos + chunk) % 2 ^ 32)
              writeLoop fd a blocks count fuel (src.drop chunk) (written + chunk) (left - chunk)
                false (io.splice (m % 512) src chunk))
              (fun r s' => r.1 = count ∧ Appended s s' fd a left) s := by
            intro io
            refine Prog.wp_bind (wp_writeSectors (fun _ _ => trivial) ?_)
            refine Prog.wp_bind (Prog.wp_of_run (putInode_run _ _ _) (Prog.wp_get_bind ?_))
            refine Prog.wp_bind (Prog.wp_of_run (setFdPos_run _ _ _) ?_)
            refine Prog.wp_mono (ih _ _ (left - chunk) _ _ _ (by omega) (by omega) ?_)
              fun _ s' h => ⟨h.1, ?_⟩
            · rw [atPos_fdPos]
              exact Nat.mod_lt _ (by decide)
            · have hall := (appended_chunk (show _ < _ by omega)).trans h.2
              rwa [show chunk + (left - chunk) = left by omega] at hall
          cases first with
          | true =>
              rw [if_pos rfl]
              exact Prog.wp_bind (wp_readSectors (fun _ _ => trivial) (hrest _))
          | false =>
              rw [if_neg (by decide)]
              exact Prog.wp_bind (Prog.wp_pure (hrest _))
        · refine Prog.wp_bind ?_
          rw [blockAt, if_neg hend]
          exact (Prog.wp_lift (fun _ hok => by cases hok) fun _ _ => trivial)
      · obtain rfl : left = 0 := by omega
        exact Prog.wp_pure ⟨hsum, rfl, fun _ _ => rfl, (Nat.mod_eq_of_lt hpos).symm, rfl,
          fun _ _ => rfl⟩

/-- A write changes no size and no entry, or appends all of it, with the position put one below
the size first. -/
theorem wp_fileWrite_sizes (hentry : (s.fileTable fd).fdInode = some a) :
    Prog.wp (fun _ => True) (fileWrite fd buf count) (fun _ s' => SameSizes s s' ∨
      Appended (s.atPos fd (sub32 (s.inodes a).iSize.toNat 1)) s' fd a count) s := by
  have hkeep := SameSizes.ignores s
  unfold fileWrite
  refine Prog.wp_bind (Prog.wp_of_run (fdInodeOf_run hentry _) (Prog.wp_get_bind ?_))
  refine Prog.wp_ite (fun _ => Prog.wp_pure (.inl (.refl s))) fun _ => ?_
  refine Prog.wp_bind (Prog.wp_mono ((hkeep.firstBlock a).wp (.refl s)) fun r s₁ h₁ => ?_)
  refine Prog.wp_ite (fun _ => ?_) fun _ => Prog.wp_pure (.inl h₁)
  refine Prog.wp_bind ((reads_assertFs _ _ _).wp fun _ => ?_)
  refine Prog.wp_bind (Prog.wp_mono ((hkeep.collectForWrite a _ _).wp h₁) fun r s₂ h₂ => ?_)
  cases r with
  | none => exact Prog.wp_pure (.inl h₂)
  | some blocks =>
      refine Prog.wp_bind (Prog.wp_of_run (setFdPos_run _ _ _) ?_)
      refine Prog.wp_bind (Prog.wp_mono (wp_writeLoop_sizes count buf 0 count true _ _
        (Nat.zero_add _) (Nat.le_refl _) ?_) fun r s₃ ⟨_, h₃⟩ => Prog.wp_get_bind ?_)
      · rw [atPos_fdPos]
        exact Nat.mod_lt _ (by decide)
      have hall : Appended (s.atPos fd (sub32 (s.inodes a).iSize.toNat 1)) s₃ fd a count := by
        refine h₃.of_sameSizes ⟨h₂.sizes, funext fun g => ?_, h₂.heap, h₂.sb⟩
        by_cases hg : g = fd
        · simp [Fs.atPos, hg, h₂.files]
        · simp [Fs.atPos, hg, h₂.files]
      exact Prog.wp_bind (Prog.wp_mono (((SameSizes.ignores s₃).inodeSync _ _).wp (.refl s₃))
        fun _ s₄ h₄ => Prog.wp_pure (.inr (hall.sameSizes h₄)))

/-- What has to be shown of a step that moves entry `fd` only. -/
theorem Inside.moved (h : Inside s) (fd : Nat)
    (hfd : ∀ a, (s'.fileTable fd).fdInode = some a →
      (s'.fileTable fd).fdPos ≤ (s'.inodes a).iSize.toNat)
    (hfiles : ∀ g, g ≠ fd → s'.fileTable g = s.fileTable g)
    (hsizes : ∀ g a, g < maxFileOpen → (s.fileTable g).fdInode = some a →
      (s.inodes a).iSize.toNat ≤ (s'.inodes a).iSize.toNat) : Inside s' := by
  intro g a hg ha
  refine ⟨Nat.zero_le _, ?_⟩
  by_cases hgd : g = fd
  · rw [hgd] at ha ⊢
    exact hfd a ha
  · rw [hfiles g hgd] at ha ⊢
    exact (h g a hg ha).2.trans (hsizes g a hg ha)

/-- After a write the position is one below the size, or no byte has been written to an empty
file. -/
theorem Inside.fileWrite (h : Inside s) (hentry : (s.fileTable fd).fdInode = some a)
    (hcount : ¬ (count = 0 ∧ (s.inodes a).iSize = 0)) :
    Prog.wp (fun _ => True) (fileWrite fd buf count) (fun _ s' => Inside s') s := by
  refine Prog.wp_mono (wp_fileWrite_sizes hentry) fun r s' hs' => ?_
  rcases hs' with hsame | happ
  · exact hsame.inside h
  · have hsize : (s'.inodes a).iSize.toNat = (s.inodes a).iSize.toNat + count := happ.size
    have hlt := (s'.inodes a).iSize.toNat_lt
    refine h.moved fd (fun b hb => ?_) (fun g hg => ?_) fun g b hg hb => ?_
    · rw [happ.fdInode, atPos_fdInode, hentry, Option.some.injEq] at hb
      subst hb
      have hpos := happ.pos
      rw [atPos_fdPos, sub32] at hpos
      rw [hpos, hsize]
      have hzero : (s.inodes a).iSize.toNat = 0 → count ≠ 0 := fun h0 hc =>
        hcount ⟨hc, UInt32.toNat_inj.mp h0⟩
      omega
    · rw [happ.files g hg]
      exact if_neg hg
    · by_cases hba : b = a
      · rw [hba, hsize]
        exact Nat.le_add_right _ _
      · rw [happ.sizes b hba]
        exact Nat.le_refl _

/-! ### Reading and seeking -/

/-- A loop that does not leave the 140 blocks moves the position by what it reads. -/
theorem wp_readLoop_pos {blocks : Nat → UInt32} :
    ∀ (fuel : Nat) (buf : Mem) (p done left : Nat), p + left ≤ 71680 → done + left = count →
      left ≤ fuel → Prog.wp (fun _ => True) (readLoop fd blocks count fuel buf done left)
        (fun _ s' => s' = s.atPos fd (p + left)) (s.atPos fd p) := by
  intro fuel
  induction fuel with
  | zero =>
      intro buf p done left hp hsum hfuel
      obtain rfl : left = 0 := by omega
      exact Prog.wp_pure rfl
  | succ fuel ih =>
      intro buf p done left hp hsum hfuel
      rw [readLoop]
      refine Prog.wp_ite (fun _ => Prog.wp_get_bind ?_) fun hge => ?_
      · simp only [atPos_fdPos]
        set chunk := if left < 512 - p % 512 then left else 512 - p % 512 with hchunk
        have hc : chunk ≤ left ∧ 1 ≤ chunk := by
          rw [hchunk]
          split_ifs <;> omega
        refine Prog.wp_bind (wp_blockAt (by omega) ?_)
        refine Prog.wp_bind (wp_readSectors (fun _ _ => trivial) ?_)
        refine Prog.wp_bind (Prog.wp_of_run (setFdPos_run _ _ _) ?_)
        rw [atPos_atPos, Nat.mod_eq_of_lt (show p + chunk < 2 ^ 32 by omega)]
        have hrest := ih (buf.splice done ((Mem.splice (fun _ => 0) 0 (s.disk.drop
          (512 * (blocks (p / 512)).toNat)) (1 * 512)).drop (p % 512)) chunk)
          (p + chunk) (done + chunk) (left - chunk) (by omega) (by omega) (by omega)
        rwa [show p + chunk + (left - chunk) = p + left by omega] at hrest
      · obtain rfl : left = 0 := by omega
        exact Prog.wp_pure rfl

theorem atPos_self (s : Fs) (fd : Nat) : s.atPos fd (s.fileTable fd).fdPos = s := by
  unfold Fs.atPos
  congr 1
  funext g
  by_cases hg : g = fd
  · rw [if_pos hg, hg]
  · rw [if_neg hg]

/-- A read that stays in the 139 blocks moves the position to the end of what it reads. -/
theorem wp_readBytes_pos (hsize : (s.fileTable fd).fdPos + count < 2 ^ 32) :
    Prog.wp (fun _ => True) (readBytes fd a buf count)
      (fun _ s' => s' = s.atPos fd ((s.fileTable fd).fdPos + count)) s := by
  refine Prog.wp_get_bind (Prog.wp_bind (wp_assertFs (fun _ _ => trivial) fun hidx => ?_))
  refine Prog.wp_bind ((reads_collectForRead _ _ _).wp fun blocks => ?_)
  have hloop : Prog.wp (fun _ => True) (readLoop fd blocks count count buf 0 count)
      (fun _ s' => s' = s.atPos fd ((s.fileTable fd).fdPos + count))
      (s.atPos fd (s.fileTable fd).fdPos) :=
    wp_readLoop_pos count buf _ 0 count (by omega) (Nat.zero_add _) (Nat.le_refl _)
  rw [atPos_self] at hloop
  exact Prog.wp_bind (Prog.wp_mono hloop fun _ _ h => Prog.wp_pure h)

/-- With a sum that wraps the loop runs out of the 140 blocks. -/
theorem readBytes_never (hwrap : 2 ^ 32 ≤ (s.fileTable fd).fdPos + count) :
    Prog.wp (fun _ => True) (readBytes fd a buf count) (fun _ _ => False) s := by
  refine Prog.wp_get_bind (Prog.wp_bind (wp_assertFs (fun _ _ => trivial) fun hidx => ?_))
  refine Prog.wp_bind ((reads_collectForRead _ _ _).wp fun blocks => ?_)
  exact Prog.wp_bind (Prog.wp_mono (readLoop_never count buf (s.fileTable fd).fdPos 0 count s rfl
    (by omega) (by omega) (Nat.zero_add _) (Nat.le_refl _)) fun _ _ => False.elim)

theorem Inside.atPos (h : Inside s) (hp : ∀ a, (s.fileTable fd).fdInode = some a →
    p ≤ (s.inodes a).iSize.toNat) : Inside (s.atPos fd p) := by
  refine h.moved fd (fun a ha => ?_) (fun g hg => if_neg hg) fun g a _ _ => Nat.le_refl _
  rw [atPos_fdInode] at ha
  rw [atPos_fdPos]
  exact hp a ha

/-- A read goes to the end of the file at most. -/
theorem Inside.fileRead (h : Inside s) (hfd : fd < maxFileOpen) :
    Prog.wp (fun _ => True) (fileRead fd buf count) (fun _ s' => Inside s') s := by
  refine Prog.wp_bind (Prog.wp_of_returns fun a s₁ hrun => ?_)
  obtain ⟨hentry, rfl⟩ := fdInodeOf_eq hrun
  have hle := (h fd a hfd hentry).2
  have hlt := (s₁.inodes a).iSize.toNat_lt
  have hread : ∀ size, (s₁.fileTable fd).fdPos + size ≤ (s₁.inodes a).iSize.toNat →
      Prog.wp (fun _ => True) (readBytes fd a buf size) (fun _ s' => Inside s') s₁ := by
    intro size hsize
    refine Prog.wp_mono (wp_readBytes_pos (by omega)) ?_
    rintro r s' rfl
    refine h.atPos fun b hb => ?_
    rw [hentry, Option.some.injEq] at hb
    exact hb ▸ hsize
  refine Prog.wp_get_bind (Prog.wp_get_bind (Prog.wp_ite (fun _ => ?_) fun hfit => ?_))
  · refine Prog.wp_ite (fun _ => Prog.wp_pure h) fun _ => hread _ ?_
    rw [sub32]
    omega
  · by_cases hwrap : 2 ^ 32 ≤ (s₁.fileTable fd).fdPos + count
    · exact Prog.wp_mono (readBytes_never hwrap) fun _ _ => False.elim
    · exact hread count (by omega)

theorem int32_le (n : Nat) : int32 n ≤ n := by
  unfold int32
  split_ifs <;> omega

/-- A seek stays below the size. -/
theorem Inside.sysLseek (h : Inside s) (fd offset : Int) (whence : Nat) :
    Prog.wp (fun _ => True) (sysLseek fd offset whence) (fun _ s' => Inside s') s := by
  refine Prog.wp_ite (fun _ => Prog.wp_pure h) fun _ => ?_
  refine Prog.wp_bind ((reads_assertFs _ _ _).wp fun _ => ?_)
  refine Prog.wp_bind ((reads_fdLocalToGlobal _).wp fun g => ?_)
  refine Prog.wp_bind (Prog.wp_of_returns fun a s₁ hrun => Prog.wp_get_bind ?_)
  obtain ⟨hentry, rfl⟩ := fdInodeOf_eq hrun
  refine Prog.wp_ite (fun _ => Prog.wp_pure h) fun hrange => ?_
  refine Prog.wp_bind (Prog.wp_of_run (setFdPos_run _ _ _) (Prog.wp_pure (h.atPos fun b hb => ?_)))
  rw [hentry, Option.some.injEq] at hb
  subst hb
  have hsize := int32_le (s₁.inodes a).iSize.toNat
  omega

/-! ### Entries of a directory -/

/-- No size is another, but the directory may have grown by an entry. -/
structure DirGrown (s₀ s : Fs) (parent : Nat) : Prop where
  sizes : ∀ b, b ≠ parent → (s.inodes b).iSize = (s₀.inodes b).iSize
  parent : (s.inodes parent).iSize = (s₀.inodes parent).iSize ∨ (s.inodes parent).iSize
    = (s₀.inodes parent).iSize + UInt32.ofNat s₀.part.sb.dirEntrySize
  files : s.fileTable = s₀.fileTable
  heap : s.heap = s₀.heap

theorem SameSizes.grown (h : SameSizes s₀ s) (parent : Nat) : DirGrown s₀ s parent :=
  ⟨fun b _ => h.sizes b, .inl (h.sizes parent), h.files, h.heap⟩

/-- The size of the directory is written at the end. -/
theorem SameSizes.grow (h : SameSizes s₀ s) (parent : Nat) :
    DirGrown s₀ (s.withInode parent { s.inodes parent with
      iSize := (s.inodes parent).iSize + UInt32.ofNat s.part.sb.dirEntrySize }) parent := by
  refine ⟨fun b hb => ?_, .inr ?_, h.files, h.heap⟩
  · rw [withInode_ne _ _ _ _ hb, h.sizes]
  · rw [withInode_self, h.sizes, h.sb]

theorem wp_syncFinish_sizes (h : SameSizes s₀ s) (parent : Nat) (pDe : DirEntry) (ioBuf : Mem)
    (block : UInt32) : Prog.wp (fun _ => True) (syncFinish parent pDe ioBuf block)
      (fun _ s' => DirGrown s₀ s' parent) s := by
  refine Prog.wp_get_bind (Prog.wp_bind (Prog.wp_mono
    (((SameSizes.ignores s).writeSectors _ _ _).wp (.refl s)) fun _ s₁ h₁ => Prog.wp_get_bind ?_))
  refine Prog.wp_bind (Prog.wp_of_run (putInode_run _ _ _) (Prog.wp_pure ?_))
  rw [← h₁.sb]
  exact (h.trans h₁).grow parent

theorem wp_syncNewBlock_sizes (h : SameSizes s₀ s) (parent : Nat) (pDe : DirEntry) (ioBuf : Mem)
    (blocks : Nat → UInt32) (blockIdx : Nat) : Prog.wp (fun _ => True)
      (syncNewBlock parent pDe ioBuf blocks blockIdx) (fun _ s' => DirGrown s₀ s' parent) s := by
  have hkeep := SameSizes.ignores s₀
  have halloc := hkeep.allocSynced "sync_dir_entry"
  refine Prog.wp_bind (Prog.wp_mono (halloc.wp h) fun lba s₁ h₁ => ?_)
  refine Prog.wp_ite (fun _ => Prog.wp_pure (h₁.grown parent)) fun _ => ?_
  have hsector : ∀ (s : Fs) (k : Nat) (v : UInt32), SameSizes s₀ s →
      SameSizes s₀ (s.withInode parent ((s.inodes parent).setSector k v)) :=
    fun s k v h => hkeep.sector parent k v h s ⟨⟩ _ h rfl
  have hwrite : ∀ (lba : Nat) (buf : Mem) (block : UInt32) (s : Fs), SameSizes s₀ s →
      Prog.wp (fun _ => True) (do
        writeSectors lba buf 1
        syncFinish parent pDe ioBuf block) (fun _ s' => DirGrown s₀ s' parent) s :=
    fun lba buf block s h => Prog.wp_bind (Prog.wp_mono ((hkeep.writeSectors lba 1 buf).wp h)
      fun _ _ h' => wp_syncFinish_sizes h' parent pDe ioBuf block)
  refine Prog.wp_get_bind (Prog.wp_ite (fun _ => ?_) fun _ => Prog.wp_ite (fun _ => ?_) fun _ => ?_)
  · exact Prog.wp_bind (Prog.wp_of_run (putInode_run _ _ _)
      (wp_syncFinish_sizes (hsector _ _ _ h₁) parent pDe ioBuf _))
  · refine Prog.wp_bind (Prog.wp_of_run (putInode_run _ _ _) ?_)
    refine Prog.wp_bind (Prog.wp_mono (halloc.wp (hsector _ _ _ h₁)) fun lba s₂ h₂ => ?_)
    refine Prog.wp_get_bind (Prog.wp_ite (fun _ => Prog.wp_get_bind ?_) fun _ => ?_)
    · refine Prog.wp_bind (Prog.wp_mono ((hkeep.setBlockBit _ _).wp h₂) fun _ s₃ h₃ => ?_)
      have hsize : (((s₂.inodes parent).setSector 12 0).iSize) = (s₃.inodes parent).iSize := by
        rw [Inode.iSize_setSector, h₂.sizes, h₃.sizes]
      exact Prog.wp_bind (Prog.wp_mono ((h₃.putInode hsize).wp h₃) fun _ _ h₄ =>
        Prog.wp_pure (h₄.grown parent))
    · exact hwrite _ _ _ _ h₂
  · exact hwrite _ _ _ _ h₁

theorem wp_syncLoop_sizes (parent : Nat) (pDe : DirEntry) (blocks : Nat → UInt32) :
    ∀ (fuel blockIdx : Nat) (ioBuf : Mem) (s : Fs), SameSizes s₀ s →
      Prog.wp (fun _ => True) (syncLoop parent pDe blocks fuel blockIdx ioBuf)
        (fun _ s' => DirGrown s₀ s' parent) s := by
  intro fuel
  induction fuel with
  | zero => exact fun _ _ s h => Prog.wp_pure (h.grown parent)
  | succ fuel ih =>
      intro blockIdx ioBuf s h
      refine Prog.wp_get_bind (Prog.wp_ite (fun _ => ?_) fun _ => ?_)
      · exact wp_syncNewBlock_sizes h parent pDe ioBuf blocks blockIdx
      refine Prog.wp_bind ((reads_readSectors _ _ _).wp fun buf => ?_)
      cases freeSlot buf (512 / s.part.sb.dirEntrySize) (512 / s.part.sb.dirEntrySize) 0 with
      | none => exact ih _ _ _ h
      | some k =>
          refine Prog.wp_bind (Prog.wp_mono
            (((SameSizes.ignores s).writeSectors _ _ _).wp (.refl s)) fun _ s₁ h₁ => ?_)
          refine Prog.wp_get_bind (Prog.wp_bind (Prog.wp_of_run (putInode_run _ _ _)
            (Prog.wp_pure ?_)))
          rw [← h₁.sb]
          exact (h.trans h₁).grow parent

/-- An entry makes its directory larger by its size, or not at all. -/
theorem wp_syncDirEntry_sizes (parent : Nat) (pDe : DirEntry) (ioBuf : Mem) :
    Prog.wp (fun _ => True) (syncDirEntry parent pDe ioBuf) (fun _ s' => DirGrown s s' parent) s :=
  Prog.wp_get_bind (Prog.wp_bind ((reads_assertFs _ _ _).wp fun _ =>
    wp_syncLoop_sizes parent pDe _ _ _ _ s (.refl s)))

/-! ### Opening and closing -/

/-- While a path is walked the entries stay, and so do the sizes of their files. -/
structure EntriesKept (s₀ : Fs) (held : List Nat) (s : Fs) : Prop where
  counted : Counted s held
  files : s.fileTable = s₀.fileTable
  sizes : ∀ g a, g < maxFileOpen → (s₀.fileTable g).fdInode = some a →
    (s.inodes a).iSize = (s₀.inodes a).iSize

namespace EntriesKept

theorem refl (h : Counted s held) : EntriesKept s held s := ⟨h, rfl, fun _ _ _ _ => rfl⟩

theorem inside (h : EntriesKept s₀ held s) (hin : Inside s₀) : Inside s := by
  intro g a hg ha
  rw [h.files] at ha ⊢
  rw [h.sizes g a hg ha]
  exact hin g a hg ha

theorem opened {no : Nat} (h : EntriesKept s₀ held s) (hrun : inodeOpen env no s = .ok (a, s')) :
    EntriesKept s₀ (a :: held) s' := by
  refine ⟨h.counted.opened hrun, (fileTable_of_inodeOpen hrun).trans h.files,
    fun g b hg hb => ?_⟩
  rw [← h.sizes g b hg hb]
  rcases inodeOpen_cases hrun with ⟨-, -, rfl⟩ | ⟨-, hfresh, rfl⟩
  · by_cases hba : b = a
    · rw [hba, withInode_self]
    · rw [withInode_ne _ _ _ _ hba]
  · -- what is in use is not where a new inode comes
    rw [← h.files] at hb
    exact congrArg Inode.iSize (withInode_ne _ _ _ _ (h.counted.ne_of_fdInode hfresh hg hb))

theorem closed (h : EntriesKept s₀ (a :: held) s) : EntriesKept s₀ held (s.closed a) := by
  refine ⟨h.counted.closeInode, (closed_rest s a).1.trans h.files, fun g b hg hb => ?_⟩
  rw [← h.sizes g b hg hb, closed_inodes]
  by_cases hba : b = a
  · rw [hba, withInode_self]
  · rw [withInode_ne _ _ _ _ hba]

theorem tracks : Tracks env (EntriesKept s₀) := ⟨fun h hrun => h.opened hrun, fun h => h.closed⟩

end EntriesKept

theorem Inside.tasks (h : Inside s) (t : Nat → FdTask) : Inside { s with tasks := t } := h

theorem Inside.pcbFdInstall (h : Inside s) (g : Nat) :
    Prog.wp (fun _ => True) (pcbFdInstall g) (fun _ s' => Inside s') s := by
  refine Prog.wp_of_returns fun r s' hrun => ?_
  obtain ⟨t, rfl⟩ := pcbFdInstall_tasks hrun
  exact h.tasks t

/-- Fields of an inode other than the size do not matter. -/
theorem Inside.withInode (h : Inside s) {n : Inode} (hn : n.iSize = (s.inodes a).iSize) :
    Inside (s.withInode a n) := by
  intro g b hg hb
  by_cases hba : b = a
  · rw [hba, withInode_self, hn]
    exact h g a hg (hba ▸ hb)
  · rw [withInode_ne _ _ _ _ hba]
    exact h g b hg hb

/-- The position of a new entry is the beginning. -/
theorem Inside.withFile (h : Inside s) {f : File} (hf : f.fdPos = 0) :
    Inside (s.withFile g f) := by
  refine h.moved g (fun b _ => ?_) (fun i hi => withFile_ne _ _ _ _ hi)
    fun _ _ _ _ => Nat.le_refl _
  rw [withFile_self, hf]
  exact Nat.zero_le _

theorem Inside.fileOpen (h : Inside s) (hcounted : Counted s held) (no flag : Nat) :
    Prog.wp (fun _ => True) (fileOpen env no flag) (fun _ s' => Inside s') s := by
  refine Prog.wp_get_bind ?_
  cases hslot : getFreeSlotInGlobal s.fileTable with
  | none => exact Prog.wp_pure h
  | some g =>
      refine Prog.wp_bind (Prog.wp_of_returns fun a s₁ hrun => ?_)
      have h₁ : Inside (s₁.withFile g ⟨0, flag, some a⟩) :=
        (((EntriesKept.refl hcounted).opened hrun).inside h).withFile rfl
      refine Prog.wp_bind (Prog.wp_of_run (setFile_run _ _ s₁) ?_)
      refine Prog.wp_ite (fun _ => Prog.wp_get_bind ?_) fun _ => h₁.pcbFdInstall g
      refine Prog.wp_ite (fun _ => Prog.wp_pure h₁) fun _ => ?_
      refine Prog.wp_bind (Prog.wp_of_run (putInode_run _ _ _) (Inside.pcbFdInstall ?_ g))
      exact h₁.withInode rfl

/-- An entry is removed. -/
theorem Inside.without (h : Inside s) {f : File} (hf : f.fdInode = none) :
    Inside (s.withFile g f) := by
  refine h.moved g (fun b hb => ?_) (fun i hi => withFile_ne _ _ _ _ hi)
    fun _ _ _ _ => Nat.le_refl _
  rw [withFile_self, hf] at hb
  cases hb

theorem Inside.closed (h : Inside s) (a : Nat) : Inside (s.closed a) := by
  intro g b hg hb
  rw [(closed_rest s a).1] at hb ⊢
  rw [closed_inodes]
  exact h.withInode (a := a) (n := { s.inodes a with
    iOpenCnts := decrOpenCnts (s.inodes a).iOpenCnts }) rfl g b hg hb

theorem Inside.dirClose (h : Inside s) (d : DirPtr) :
    Prog.wp (fun _ => True) (dirClose d) (fun _ s' => Inside s') s := by
  cases d with
  | root => exact Prog.wp_pure h
  | opened a => exact Prog.wp_of_run (inodeClose_run a s) (h.closed a)

theorem Inside.fileClose (h : Inside s) (g : Nat) :
    Prog.wp (fun _ => True) (fileClose g) (fun _ s' => Inside s') s := by
  refine Prog.wp_bind (Prog.wp_of_returns fun a s₁ hrun => Prog.wp_get_bind ?_)
  obtain ⟨-, rfl⟩ := fdInodeOf_eq hrun
  refine Prog.wp_bind (Prog.wp_of_run (putInode_run _ _ _) ?_)
  refine Prog.wp_bind (Prog.wp_of_run (inodeClose_run _ _) (Prog.wp_get_bind ?_))
  refine Prog.wp_bind (Prog.wp_of_run (setFile_run _ _ _) (Prog.wp_pure ?_))
  have h₁ : Inside (s₁.withInode a { s₁.inodes a with writeDeny := false }) := h.withInode rfl
  exact (h₁.closed a).without rfl

theorem Inside.sysClose (h : Inside s) (fd : Int) :
    Prog.wp (fun _ => True) (sysClose fd) (fun _ s' => Inside s') s := by
  refine Prog.wp_ite (fun _ => ?_) fun _ => Prog.wp_pure h
  refine Prog.wp_bind ((reads_fdLocalToGlobal _).wp fun g => ?_)
  refine Prog.wp_bind (Prog.wp_mono (h.fileClose g) fun _ s₁ h₁ => ?_)
  exact Prog.wp_bind (Prog.wp_get_bind (h₁.tasks _))

/-- No file in use is the directory at `parent`, or one more entry does not make its size wrap. -/
def EntryFits (s : Fs) (parent : Nat) : Prop :=
  ∀ g, g < maxFileOpen → (s.fileTable g).fdInode = some parent →
    (s.inodes parent).iSize.toNat + s.part.sb.dirEntrySize < 2 ^ 32

/-- A directory that grows loses no position. -/
theorem Inside.dirGrown {parent : Nat} (h : Inside s) (hs : DirGrown s s' parent)
    (hfit : ∀ g, g < maxFileOpen → (s.fileTable g).fdInode = some parent →
      (s.fileTable g).fdPos = 0 ∨
        (s.inodes parent).iSize.toNat + s.part.sb.dirEntrySize < 2 ^ 32) : Inside s' := by
  intro g a hg ha
  refine ⟨Nat.zero_le _, ?_⟩
  rw [hs.files] at ha ⊢
  have hle := (h g a hg ha).2
  by_cases hap : a = parent
  · subst hap
    rcases hfit g hg ha with h0 | hlt
    · rw [h0]
      exact Nat.zero_le _
    · rcases hs.parent with heq | heq
      · rwa [heq]
      · rw [heq, UInt32.toNat_add, UInt32.toNat_ofNat_of_lt'
          (show s.part.sb.dirEntrySize < 2 ^ 32 by omega), Nat.mod_eq_of_lt hlt]
        omega
  · rwa [hs.sizes a hap]

theorem Inside.fileCreate {parent flag : Nat} {filename : List UInt8} (h : Inside s)
    (hcounted : Counted s held) (hfit : EntryFits s parent) :
    Prog.wp (fun _ => True) (fileCreate env parent filename flag) (fun _ s' => Inside s') s := by
  refine Prog.wp_bind (Prog.wp_mono ((SameSizes.ignores s).inodeBitmapAlloc.wp (.refl s))
    fun no s₁ h₁ => ?_)
  refine Prog.wp_ite (fun _ => Prog.wp_pure (h₁.inside h)) fun _ => Prog.wp_get_bind ?_
  set a := env.newAddr s₁.heap
  have hfresh : a ∉ s.heap := h₁.heap ▸ env.newAddr_fresh s₁.heap
  refine Prog.wp_bind (Prog.wp_modify (Prog.wp_bind (Prog.wp_of_run (putInode_run _ _ _)
    (Prog.wp_get_bind ?_))))
  -- the new inode is not one that is in use
  have hne : ∀ g b, g < maxFileOpen → (s₁.fileTable g).fdInode = some b → b ≠ a := by
    intro g b hg hb
    rw [h₁.files] at hb
    exact hcounted.ne_of_fdInode hfresh hg hb
  set s₂ : Fs := { s₁ with
    heap := insert a s₁.heap
    inodes := fun b => if b = a then inodeInit no.toNat else s₁.inodes b } with hs₂
  have h₂ : Inside s₂ := by
    intro g b hg hb
    show _ ∧ _ ≤ (if b = a then _ else s₁.inodes b : Inode).iSize.toNat
    rw [if_neg (hne g b hg hb)]
    exact h₁.inside h g b hg hb
  cases hslot : getFreeSlotInGlobal s₂.fileTable with
  | none => exact Prog.wp_bind (Prog.wp_modify (Prog.wp_bind (Prog.wp_modify (Prog.wp_pure h₂))))
  | some g =>
      refine Prog.wp_bind (Prog.wp_of_run (setFile_run _ _ _) (Prog.wp_get_bind
        (Prog.wp_bind (Prog.wp_of_run (putInode_run _ _ _) ?_))))
      refine Prog.wp_bind (Prog.wp_lift (fun e _ => ?_) fun _ _ => trivial)
      have h₃ : Inside (s₂.withFile g ⟨0, flag, some a⟩) := h₂.withFile rfl
      have h₄ : Inside ((s₂.withFile g ⟨0, flag, some a⟩).withInode a
          { (s₂.withFile g ⟨0, flag, some a⟩).inodes a with writeDeny := false }) :=
        h₃.withInode rfl
      refine Prog.wp_bind (Prog.wp_mono (wp_syncDirEntry_sizes _ _ _) fun ok s₅ hgrown => ?_)
      have h₅ : Inside s₅ := h₄.dirGrown hgrown ?_
      · refine Prog.wp_ite (fun _ => ?_) fun _ => ?_
        · have hkeep := SameSizes.ignores s₅
          refine Prog.wp_get_bind (Prog.wp_bind (Prog.wp_mono
            ((hkeep.inodeSync _ _).wp (.refl s₅)) fun _ s₆ h₆ => ?_))
          refine Prog.wp_get_bind (Prog.wp_bind (Prog.wp_mono
            ((hkeep.inodeSync _ _).wp h₆) fun _ s₇ h₇ => ?_))
          refine Prog.wp_bind (Prog.wp_mono ((hkeep.bitmapSync _ _).wp h₇) fun _ s₈ h₈ => ?_)
          refine Prog.wp_bind (Prog.wp_modify (Prog.wp_get_bind
            (Prog.wp_bind (Prog.wp_of_run (putInode_run _ _ _) (Inside.pcbFdInstall ?_ g)))))
          have h₉ : Inside { s₈ with openInodes := a :: s₈.openInodes } := h₈.inside h₅
          exact h₉.withInode rfl
        · refine Prog.wp_bind (Prog.wp_of_run (setFile_run _ _ _) ?_)
          have h₆ : Inside (s₅.withFile g ⟨0, 0, none⟩) := h₅.without rfl
          exact Prog.wp_bind (Prog.wp_modify (Prog.wp_bind (Prog.wp_modify (Prog.wp_pure h₆))))
      · intro i hi hparent
        by_cases hig : i = g
        · exact .inl (by rw [hig]; exact congrArg File.fdPos (withFile_self ..))
        · have hold : (s₁.fileTable i).fdInode = some parent := by
            rw [← hparent]
            exact (congrArg File.fdInode (withFile_ne s₂ g _ _ hig)).symm
          have hpa := hne i parent hi hold
          refine .inr ?_
          rw [withInode_ne _ _ _ _ hpa]
          show (if parent = a then _ else s₁.inodes parent : Inode).iSize.toNat
            + s₁.part.sb.dirEntrySize < _
          rw [if_neg hpa, h₁.sizes, h₁.sb]
          exact hfit i hi (h₁.files ▸ hold)

/-! ### Runs -/

/-- The condition on a call: no bytes are not written to an empty file, and a file is not
created in a directory of nearly 2 ^ 32 bytes that a descriptor leads to. -/
def PositionOk (env : FsEnv) (s : Fs) : FsCall → Prop
  | .open pathname flags => ∀ d s', openPlan env pathname flags s = .ok (.create d, s') →
      EntryFits s' (d.inode s')
  | .write fd _ count => ∀ g a : Nat, 0 ≤ fd → fd ≠ 1 →
      (s.tasks s.cur).fdTable fd.toNat = g → writes (s.fileTable g).fdFlag = true →
      (s.fileTable g).fdInode = some a → ¬ (count = 0 ∧ (s.inodes a).iSize = 0)
  | _ => True

theorem Inside.sysOpen {pathname : List UInt8} {flags : Nat} (h : Inside s)
    (hcounted : Counted s held) (hok : PositionOk env s (.open pathname flags)) :
    Prog.wp (fun _ => True) (sysOpen env pathname flags) (fun _ s' => Inside s') s := by
  have htracks : Tracks env (EntriesKept s) := EntriesKept.tracks
  have hplan := htracks.openPlan (EntriesKept.refl hcounted) pathname flags
  refine Prog.wp_bind (Prog.wp_of_returns fun plan s₁ hrun => ?_)
  obtain ⟨d, hkept, hkeeps⟩ := hplan.of_run hrun
  have h₁ : Inside s₁ := hkept.inside h
  cases plan with
  | refuse => exact Prog.wp_pure h₁
  | create parentDir =>
      refine Prog.wp_get_bind (Prog.wp_bind (Prog.wp_mono
        (h₁.fileCreate hkept.counted (hok _ _ hrun)) fun fd s₂ h₂ => ?_))
      exact Prog.wp_bind (Prog.wp_mono (h₂.dirClose _) fun _ _ h₃ => Prog.wp_pure h₃)
  | existing no => exact h₁.fileOpen hkept.counted no flags

theorem Inside.sysWrite {fd : Int} (h : Inside s) (hok : PositionOk env s (.write fd buf count)) :
    Prog.wp (fun _ => True) (sysWrite fd buf count) (fun _ s' => Inside s') s := by
  refine Prog.wp_ite (fun _ => Prog.wp_pure h) fun hneg => Prog.wp_ite (fun _ => ?_) fun hne => ?_
  · exact Prog.wp_ite (fun _ => Prog.wp_pure h) fun _ =>
      Prog.wp_lift (fun _ hok => by cases hok) fun _ _ => trivial
  refine Prog.wp_bind (Prog.wp_of_returns fun g s₁ hrun => Prog.wp_get_bind ?_)
  obtain ⟨-, -, htable, rfl⟩ := fdLocalToGlobal_run hrun
  refine Prog.wp_ite (fun hflag => ?_) fun _ => Prog.wp_pure h
  cases hentry : (s₁.fileTable g).fdInode with
  | none =>
      refine Prog.wp_bind (Prog.wp_of_returns fun a s₂ hrun => ?_)
      rw [(fdInodeOf_eq hrun).1] at hentry
      cases hentry
  | some a => exact h.fileWrite hentry (hok g a (by omega) hne htable hflag hentry)

theorem Inside.sysRead {keys : Mem} {fd : Int} (h : Inside s) :
    Prog.wp (fun _ => True) (sysRead keys fd buf count) (fun _ s' => Inside s') s := by
  refine Prog.wp_ite (fun _ => Prog.wp_pure h) fun _ =>
    Prog.wp_ite (fun _ => Prog.wp_pure h) fun _ => ?_
  refine Prog.wp_bind (Prog.wp_of_returns fun g s₁ hrun => ?_)
  obtain ⟨-, hg, -, rfl⟩ := fdLocalToGlobal_run hrun
  exact h.fileRead hg

/-- **A call keeps the positions inside the files.** -/
theorem Inside.exec (h : Inside s) (hcounted : Counted s held) {c : FsCall}
    (hok : PositionOk env s c) :
    Prog.wp (fun _ => True) (c.exec env) (fun _ s' => Inside s') s := by
  cases c with
  | «open» pathname flags =>
      exact Prog.wp_bind (Prog.wp_mono (h.sysOpen hcounted hok) fun _ _ h' => Prog.wp_pure h')
  | close fd => exact Prog.wp_bind (Prog.wp_mono (h.sysClose fd) fun _ _ h' => Prog.wp_pure h')
  | read keys fd buf count =>
      exact Prog.wp_bind (Prog.wp_mono h.sysRead fun _ _ h' => Prog.wp_pure h')
  | write fd buf count =>
      exact Prog.wp_bind (Prog.wp_mono (h.sysWrite hok) fun _ _ h' => Prog.wp_pure h')
  | lseek fd offset whence =>
      exact Prog.wp_bind (Prog.wp_mono (h.sysLseek fd offset whence) fun _ _ h' => Prog.wp_pure h')

theorem Mounted.inside (h : Mounted env s) : Inside s := by
  obtain ⟨s₀, a, no, hboot, -, rfl⟩ := h.eq
  intro g b hg hb
  rw [hboot.mounted_fdInode a _ g hg] at hb
  cases hb

/-- **In every run whose calls meet the condition every position is inside its file.** -/
theorem file_position_runs (env : FsEnv) (s₀ s : Fs) (h₀ : Mounted env s₀)
    (h : FsRun env (PositionOk env) s₀ s) : Inside s := by
  induction h with
  | mounted => exact h₀.inside
  | @call s _ t c hrun hok hcall ih =>
      have hsound : Sound False ∅ _ [] := hrun.sound (h₀.sound False.elim) fun _ _ hf => hf.elim
      obtain ⟨_, s₁, h1, h2⟩ := Prog.bind_run.mp hcall
      simp only [Prog.modify_run, Except.ok.injEq, Prod.mk.injEq, true_and] at h1
      subst h1
      have hin : Inside { s with cur := t } := ih
      exact (hin.exec (hsound.cur t).counted hok).of_run h2

/-! ### A file without a byte -/

/-- `write(3, buf, count)` -/
def writeCount (count : Nat) : FsCall := .write 3 (fun _ => 65) count

/-- After creating a file, `write(3, buf, count)`. -/
def countWritten (count : Nat) : Fs := ((writeCount count).execBy upwardEnv 0).after createdFs

theorem countWritten_run {Ok : Fs → FsCall → Prop} {count : Nat}
    (hcreate : Ok { mountedFs with cur := 0 } createForWriting)
    (hwrite : Ok { createdFs with cur := 0 } (writeCount count))
    (hrun : ((writeCount count).execBy upwardEnv 0).answer createdFs = some ()) :
    FsRun upwardEnv Ok mountedFs (countWritten count) :=
  .call 0 _ (.call 0 _ .mounted hcreate createdFs_run) hwrite (Prog.run_of_answer hrun)

/-- One byte in a new file. -/
theorem file_position_one : Mounted upwardEnv mountedFs ∧
    FsRun upwardEnv (PositionOk upwardEnv) mountedFs (countWritten 1) ∧
    Inside (countWritten 1) := by
  have hfree : ∀ g < maxFileOpen, (mountedFs.fileTable g).fdInode = none := by decide +kernel
  have hrun : FsRun upwardEnv (PositionOk upwardEnv) mountedFs (countWritten 1) := by
    refine countWritten_run (fun d s' hplan g hg hentry => ?_) ?_ (by decide +kernel)
    · have hsound : Sound False ∅ mountedFs [] := mountedFs_mounted.sound False.elim
      obtain ⟨_, hkept, -⟩ := (EntriesKept.tracks.openPlan
        (EntriesKept.refl (hsound.cur 0).counted) [47, 97] 6).of_run hplan
      rw [hkept.files] at hentry
      exact absurd ((hfree g hg).symm.trans hentry) nofun
    · exact fun _ _ _ _ _ _ _ hc => absurd hc.1 (by decide)
  exact ⟨mountedFs_mounted, hrun, file_position_runs upwardEnv _ _ mountedFs_mounted hrun⟩

/-- No byte in a new file leaves the position at 2 ^ 32 - 1. -/
theorem file_position_none : Mounted upwardEnv mountedFs ∧
    FsRun upwardEnv (fun _ _ => True) mountedFs (countWritten 0) ∧ ¬ Inside (countWritten 0) := by
  refine ⟨mountedFs_mounted, countWritten_run trivial trivial (by decide +kernel), fun h => ?_⟩
  have hentry : ((countWritten 0).fileTable 3).fdInode = some 2 := by decide +kernel
  have hpos : ¬ ((countWritten 0).fileTable 3).fdPos ≤ ((countWritten 0).inodes 2).iSize.toNat := by
    decide +kernel
  exact hpos (h 3 2 (by decide) hentry).2

end ZyOs
