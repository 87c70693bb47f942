/-
What a write that runs out of blocks leaves behind.

Blocks are taken one by one, and each is marked and entered before the next is looked for.  A
write that finds no block at once has changed nothing in the file system; any other has taken
at least one block, and that bit stays set.  In both cases the two buffers are still allocated,
because the ways out in the middle do not pass the end of the function.
-/
import ZyOs.Proofs.FilePosition
import ZyOs.Proofs.HeapCalls
import ZyOs.Proofs.Scarce

namespace ZyOs

open Library

variable {s s' : Fs} {a n fd count : Nat} {buf : Mem}

/-! ### What is undone -/

/-- The block bitmap and the blocks and the size of the inode at `a`, in memory and on disk. -/
structure BlocksUndone (a : Nat) (s s' : Fs) : Prop where
  bitmap : s'.part.blockBitmap = s.part.blockBitmap
  bitmapDisk : ∀ i < s.part.blockBitmap.bmapBytesLen,
    s'.disk (512 * s.part.sb.blockBitmapLba + i) = s.disk (512 * s.part.sb.blockBitmapLba + i)
  size : (s'.inodes a).iSize = (s.inodes a).iSize
  sectors : (s'.inodes a).iSectors = (s.inodes a).iSectors
  sizeDisk : (diskInode s' (s.inodes a).iNo.toNat).iSize
    = (diskInode s (s.inodes a).iNo.toNat).iSize
  sectorsDisk : (diskInode s' (s.inodes a).iNo.toNat).iSectors
    = (diskInode s (s.inodes a).iNo.toNat).iSectors

/-- With that the buffers. -/
structure WriteUndone (a : Nat) (s s' : HeapFs) : Prop where
  blocks : BlocksUndone a s.fs s'.fs
  heap : s'.fs.heap = s.fs.heap

/-! ### Blocks are only taken -/

/-- No block has been given back. -/
structure OnlyTakes (s s' : Fs) : Prop where
  fits : s'.part.DataFits
  keeps : ∀ n, s.part.blockBitmap.bitmapScanTest n = true →
    s'.part.blockBitmap.bitmapScanTest n = true

/-- A block that was free is in use. -/
def TakesBlock (s s' : Fs) : Prop :=
  ∃ n, s.part.blockBitmap.LowestFree n ∧ s'.part.blockBitmap.bitmapScanTest n = true

/-- An allocation has failed: the first one, or one after a block had been taken. -/
def OutOfBlocks (s s' : Fs) : Prop := s.part.blockBitmap.Full ∧ s' = s ∨ TakesBlock s s'

theorem OnlyTakes.refl (h : s.part.DataFits) : OnlyTakes s s := ⟨h, fun _ hn => hn⟩

/-- After block `n` has been taken. -/
theorem OnlyTakes.taken {t : Fs} (h : OnlyTakes t s') (ht : t.part = s.part.take n)
    (hn : s.part.blockBitmap.LowestFree n) : OnlyTakes s s' ∧ TakesBlock s s' := by
  refine ⟨⟨h.fits, fun m hm => h.keeps m ?_⟩, n, hn, h.keeps n ?_⟩
  · rw [ht, Partition.take_test, hm, ite_self]
  · rw [ht, Partition.take_test, if_pos rfl]

theorem TakesBlock.bitmap_ne (h : TakesBlock s s') :
    s'.part.blockBitmap ≠ s.part.blockBitmap := by
  obtain ⟨n, hn, hset⟩ := h
  intro heq
  rw [heq, hn.free] at hset
  cases hset

theorem wp_firstBlockWith (hfit : s.part.DataFits) (a : Nat) : Prog.wp (fun _ => True)
    (firstBlockWith scanOrFail a) (fun ok s' =>
      if ok then s' = s ∨ s'.part.DataFits ∧ TakesBlock s s'
      else s.part.blockBitmap.Full ∧ s' = s) s := by
  refine Prog.wp_get_bind (Prog.wp_ite (fun _ => ?_) fun _ => Prog.wp_pure (.inl rfl))
  refine Prog.wp_bind (wp_blockBitmapAllocWith hfit (fun hfull => ?_) fun n hn => ?_)
  · exact Prog.wp_pure ⟨hfull, rfl⟩
  refine Prog.wp_ite (fun hc => absurd hc (by omega)) fun _ => ?_
  refine Prog.wp_bind (Prog.wp_of_run (putInode_run _ _ _) (Prog.wp_get_bind ?_))
  refine Prog.wp_bind ((reads_assertFs _ _ _).wp fun _ => Prog.wp_bind ?_)
  refine wp_bitmapSync (fun _ _ => trivial) (Prog.wp_pure (.inr ⟨hfit.take n, n, hn, ?_⟩))
  show (s.part.take n).blockBitmap.bitmapScanTest n = true
  rw [Partition.take_test, if_pos rfl]

theorem wp_growLoopWith (a : Nat) : ∀ (n blockIdx : Nat) (blocks : Nat → UInt32) (s : Fs),
    s.part.DataFits → Prog.wp (fun _ => True) (growLoopWith scanOrFail a n blockIdx blocks)
      (fun r s' => OnlyTakes s s' ∧ (r = none → OutOfBlocks s s')) s := by
  intro n
  induction n with
  | zero => exact fun _ _ s hfit => Prog.wp_pure ⟨.refl hfit, nofun⟩
  | succ n ih =>
      intro blockIdx blocks s hfit
      refine Prog.wp_bind (wp_blockBitmapAllocWith hfit (fun hfull => ?_) fun k hk => ?_)
      · exact Prog.wp_pure ⟨.refl hfit, fun _ => .inl ⟨hfull, rfl⟩⟩
      refine Prog.wp_ite (fun hc => absurd hc (by omega)) fun _ => ?_
      have hrest : ∀ (lba : Int) (t : Fs), t.part = s.part.take k →
          Prog.wp (fun _ => True) (do
            let blockBitmapIdx := (← get).part.blockBitmapIdx lba
            bitmapSync blockBitmapIdx .blockBitmap
            growLoopWith scanOrFail a n (blockIdx + 1) (storeBlock blocks blockIdx (u32 lba)))
          (fun r s' => OnlyTakes s s' ∧ (r = none → OutOfBlocks s s')) t := by
        intro lba t ht
        refine Prog.wp_get_bind (Prog.wp_bind (wp_bitmapSync (fun _ _ => trivial) ?_))
        have hfit' : (t.syncSector .blockBitmap (t.part.blockBitmapIdx lba)).part.DataFits := by
          show t.part.DataFits
          rw [ht]
          exact hfit.take k
        refine Prog.wp_mono (ih _ _ _ hfit') fun r s' ⟨htakes, _⟩ => ?_
        obtain ⟨h1, h2⟩ := htakes.taken (s := s) ht hk
        exact ⟨h1, fun _ => .inr h2⟩
      refine Prog.wp_ite (fun _ => Prog.wp_get_bind ?_) fun _ => hrest _ _ rfl
      refine Prog.wp_bind ((reads_assertFs _ _ _).wp fun _ => ?_)
      exact Prog.wp_bind (Prog.wp_of_run (putInode_run _ _ _) (hrest _ _ rfl))

theorem wp_growTableWith (hfit : s.part.DataFits) (a n blockIdx lba : Nat)
    (blocks : Nat → UInt32) :
    Prog.wp (fun _ => True) (do
      match ← growLoopWith scanOrFail a n blockIdx blocks with
      | none => return none
      | some blocks =>
          writeSectors lba (tableMem blocks) 1
          return some blocks)
      (fun r s' => OnlyTakes s s' ∧ (r = none → OutOfBlocks s s')) s := by
  refine Prog.wp_bind (Prog.wp_mono (wp_growLoopWith a n blockIdx blocks s hfit) ?_)
  rintro r s' ⟨h1, h2⟩
  cases r with
  | none => exact Prog.wp_pure ⟨h1, fun _ => h2 rfl⟩
  | some blocks =>
      exact Prog.wp_bind (wp_writeSectors (fun _ _ => trivial)
        (Prog.wp_pure ⟨⟨h1.fits, h1.keeps⟩, fun hr => absurd hr (Option.some_ne_none _)⟩))

theorem wp_collectForWriteWith (hfit : s.part.DataFits) (a hasUsed willUse : Nat) :
    Prog.wp (fun _ => True) (collectForWriteWith scanOrFail a hasUsed willUse)
      (fun r s' => OnlyTakes s s' ∧ (r = none → OutOfBlocks s s')) s := by
  have hdone : ∀ (blocks : Nat → UInt32) (t : Fs), t = s →
      OnlyTakes s t ∧ (some blocks = none → OutOfBlocks s t) := by
    rintro blocks _ rfl
    exact ⟨.refl hfit, fun hr => absurd hr (Option.some_ne_none _)⟩
  refine Prog.wp_get_bind (Prog.wp_ite (fun _ => ?_) fun _ => Prog.wp_ite (fun _ => ?_) fun _ =>
    Prog.wp_ite (fun _ => ?_) fun _ => ?_)
  · refine Prog.wp_ite (fun _ => Prog.wp_pure (hdone _ s rfl)) fun _ => ?_
    exact Prog.wp_bind ((reads_readTable _ _ _).wp fun _ => Prog.wp_pure (hdone _ s rfl))
  · exact Prog.wp_bind ((reads_assertFs _ _ _).wp fun _ => wp_growLoopWith _ _ _ _ _ hfit)
  · refine Prog.wp_bind (wp_blockBitmapAllocWith hfit (fun hfull => ?_) fun n hn => ?_)
    · exact Prog.wp_pure ⟨.refl hfit, fun _ => .inl ⟨hfull, rfl⟩⟩
    refine Prog.wp_ite (fun hc => absurd hc (by omega)) fun _ => ?_
    refine Prog.wp_bind ((reads_assertFs _ _ _).wp fun _ => ?_)
    refine Prog.wp_bind (Prog.wp_of_run (putInode_run _ _ _) ?_)
    refine Prog.wp_mono (wp_growTableWith (hfit.take n) _ _ _ _ _) ?_
    rintro r s' ⟨h1, -⟩
    obtain ⟨h2, h3⟩ := h1.taken (s := s) rfl hn
    exact ⟨h2, fun _ => .inr h3⟩
  · exact Prog.wp_bind ((reads_readTable _ _ _).wp fun blocks =>
      wp_growTableWith hfit _ _ _ _ _)

/-! ### The call -/

/-- How much a write has written is never -1 to the caller. -/
theorem int32_ne_of_fits {size : Nat} (hsize : (size + count) % 2 ^ 32 ≤ 512 * 140)
    (hlt : size + count < 2 ^ 32) : int32 count ≠ -1 := by
  rw [Nat.mod_eq_of_lt hlt] at hsize
  rw [Bitmap.int32_of_lt (by omega)]
  omega

/-- The blocks have been found, and the write goes through. -/
theorem wp_writeBytes {env : HeapEnv} {s : HeapFs} {iSize : Nat} {blocks : Nat → UInt32}
    {allBlocks ioBuf : Nat} {Q : HeapFs → Prop} (hs : (s.fs.inodes a).iSize.toNat = iSize)
    (hsize : (iSize + count) % 2 ^ 32 ≤ 512 * 140) :
    Prog.wp (fun _ => True) (do
      onFs (setFdPos fd (sub32 iSize 1))
      let (bytesWritten, io) ←
        onFs (writeLoop fd a blocks count count buf 0 count true (fun _ => 0))
      onFs (inodeSync ((← get).fs.inodes a) io)
      Heaps.sysFree env allBlocks
      Heaps.sysFree env ioBuf
      return int32 bytesWritten : HeapM Int) (fun r s' => r = -1 → Q s') s := by
  refine Prog.wp_bind (Prog.wp_of_run (onFs_run (setFdPos_run _ _ _)) ?_)
  refine wp_onFs_run fun r s₂ hloop => Prog.wp_get_bind ?_
  have hpos : ((s.fs.atPos fd (sub32 iSize 1)).fileTable fd).fdPos < 2 ^ 32 := by
    rw [atPos_fdPos]
    exact Nat.mod_lt _ (by decide)
  obtain ⟨hcount, happ⟩ := (wp_writeLoop_sizes count buf 0 count true _ _ (Nat.zero_add _)
    (Nat.le_refl _) hpos).of_run hloop
  have hsum : (s₂.inodes a).iSize.toNat = iSize + count := by
    rw [happ.size, ← hs]
    rfl
  have hlt := (s₂.inodes a).iSize.toNat_lt
  refine wp_onFs_run fun _ s₃ _ => ?_
  refine Prog.wp_bind (Prog.wp_of_returns fun _ s₄ _ => ?_)
  refine Prog.wp_bind (Prog.wp_of_returns fun _ s₅ _ => Prog.wp_pure fun hc => ?_)
  rw [hcount] at hc
  exact absurd hc (int32_ne_of_fits hsize (by omega))

/-- What a write has left when it returns -1 although there were both buffers: they are there,
and an allocation has failed. -/
theorem wp_fileWriteWith {env : HeapEnv} {s : HeapFs} {ioBuf allBlocks : Nat}
    (hentry : (s.fs.fileTable fd).fdInode = some a)
    (hsize : ((s.fs.inodes a).iSize.toNat + count) % 2 ^ 32 ≤ 512 * 140)
    (hio : env.newAddr s.context 512 s.fs.heap = some ioBuf)
    (hall : env.newAddr s.context (512 + 48) (insert ioBuf s.fs.heap) = some allBlocks) :
    Prog.wp (fun _ => True) (Heaps.fileWriteWith scanOrFail env fd buf count) (fun r s' =>
      r = -1 → s'.fs.heap = insert allBlocks (insert ioBuf s.fs.heap) ∧
        (s.fs.part.DataFits → OutOfBlocks { s.fs with heap := s'.fs.heap } s'.fs)) s := by
  set t : Fs := { s.fs with heap := insert allBlocks (insert ioBuf s.fs.heap) } with ht
  -- apart from the two buffers only the file system's part of the state has to be looked at
  have hend : ∀ u : HeapFs, u.fs.heap = t.heap → (t.part.DataFits → OutOfBlocks t u.fs) →
      u.fs.heap = insert allBlocks (insert ioBuf s.fs.heap) ∧
        (s.fs.part.DataFits → OutOfBlocks { s.fs with heap := u.fs.heap } u.fs) := by
    intro u hu hout
    rw [hu]
    exact ⟨rfl, hout⟩
  refine Prog.wp_bind (Prog.wp_of_run (onFs_run (fdInodeOf_run hentry _)) (Prog.wp_get_bind ?_))
  refine Prog.wp_ite (fun hc => absurd hsize (Nat.not_le.mpr hc)) fun _ => ?_
  refine Prog.wp_bind (Prog.wp_of_run (sysMalloc_run hio) ?_)
  refine Prog.wp_bind (Prog.wp_of_run (sysMalloc_run hall) ?_)
  refine wp_onFs_run fun ok s₁ hfirst => ?_
  have hq₁ : Quiet t s₁ := (((Quiet.ignores t).firstBlockWith _ a).wp (.refl t)).of_run hfirst
  have hs₁ : SameSizes t s₁ :=
    (((SameSizes.ignores t).firstBlockWith _ a).wp (.refl t)).of_run hfirst
  cases ok with
  | false =>
      exact Prog.wp_pure fun _ => hend _ hq₁.heap fun hfit =>
        .inl ((wp_firstBlockWith (s := t) hfit a).of_run hfirst)
  | true =>
      have htook := fun hfit => (wp_firstBlockWith (s := t) hfit a).of_run hfirst
      refine wp_onFs_run fun _ s₁' hassert => ?_
      obtain rfl : s₁ = s₁' := ((reads_assertFs _ _ _ (s₁ = ·)) _ _ _ rfl hassert)
      refine wp_onFs_run fun r s₂ hcollect => ?_
      have hq₂ : Quiet t s₂ :=
        (((Quiet.ignores t).collectForWriteWith _ a _ _).wp hq₁).of_run hcollect
      have hs₂ : SameSizes t s₂ :=
        (((SameSizes.ignores t).collectForWriteWith _ a _ _).wp hs₁).of_run hcollect
      cases r with
      | none =>
          refine Prog.wp_pure fun _ => hend _ hq₂.heap fun hfit => ?_
          rcases htook hfit with rfl | ⟨hfit₁, n, hn, hset⟩
          · exact ((wp_collectForWriteWith hfit _ _ _).of_run hcollect).2 rfl
          · have htakes := ((wp_collectForWriteWith hfit₁ _ _ _).of_run hcollect).1
            exact .inr ⟨n, hn, htakes.keeps n hset⟩
      | some blocks => exact wp_writeBytes (congrArg UInt32.toNat (hs₂.sizes a)) hsize

/-- **A write that runs out of blocks is never undone**: the buffers are still allocated, and the
rest is as it was only when there was no block to begin with. -/
theorem file_write_out_of_blocks (env : HeapEnv) (s s' : HeapFs) (fd a : Nat) (buf : Mem)
    (count ioBuf allBlocks : Nat) (hentry : (s.fs.fileTable fd).fdInode = some a)
    (hsize : ((s.fs.inodes a).iSize.toNat + count) % 2 ^ 32 ≤ 512 * 140)
    (hio : env.newAddr s.context 512 s.fs.heap = some ioBuf)
    (hall : env.newAddr s.context (512 + 48) (insert ioBuf s.fs.heap) = some allBlocks)
    (hrun : Heaps.fileWriteWith scanOrFail env fd buf count s = .ok (-1, s')) :
    ¬ WriteUndone a s s' ∧
      (s.fs.part.DataFits → (BlocksUndone a s.fs s'.fs ↔ s.fs.part.blockBitmap.Full)) := by
  obtain ⟨hheap, hout⟩ := (wp_fileWriteWith hentry hsize hio hall).of_run hrun rfl
  refine ⟨fun h => ?_, fun hfit => ⟨fun h => ?_, fun hfull => ?_⟩⟩
  · have hmem : ioBuf ∈ s'.fs.heap := by
      rw [hheap]
      exact Finset.mem_insert_of_mem (Finset.mem_insert_self _ _)
    rw [h.heap] at hmem
    exact env.newAddr_fresh hio hmem
  · rcases hout hfit with ⟨hfull, -⟩ | htakes
    · exact hfull
    · exact absurd h.bitmap htakes.bitmap_ne
  · rcases hout hfit with ⟨-, heq⟩ | ⟨n, hn, -⟩
    · rw [heq]
      exact ⟨rfl, fun _ _ => rfl, rfl, rfl, rfl, rfl⟩
    · exact absurd hfull hn.not_full

/-! ### A new file on a partition with few blocks left -/

/-- A file has been created; its entry has taken a block. -/
def scarceHeaps (bits : UInt8) : HeapFs where
  fs := (createForWriting.execBy upwardEnv 0).after (scarceMounted bits)
  frees := []

/-- `file_write` of `count` bytes. -/
def scarceWrite (count : Nat) : HeapM Int :=
  Heaps.fileWriteWith scanOrFail splitEnv 3 (fun _ => 1) count

/-- There is no block left for the file: the file system is as it was, the buffers are not. -/
theorem file_write_none_left :
    scarceWrite 2 (scarceHeaps 0xfd) = .ok (-1, (scarceWrite 2).after (scarceHeaps 0xfd)) ∧
    ¬ WriteUndone 2 (scarceHeaps 0xfd) ((scarceWrite 2).after (scarceHeaps 0xfd)) ∧
    ((scarceHeaps 0xfd).fs.part.DataFits →
      (BlocksUndone 2 (scarceHeaps 0xfd).fs ((scarceWrite 2).after (scarceHeaps 0xfd)).fs ↔
        (scarceHeaps 0xfd).fs.part.blockBitmap.Full)) := by
  have hrun : scarceWrite 2 (scarceHeaps 0xfd)
      = .ok (-1, (scarceWrite 2).after (scarceHeaps 0xfd)) :=
    Prog.run_of_answer (by decide +kernel)
  exact ⟨hrun, file_write_out_of_blocks splitEnv _ _ 3 2 _ 2 6 14 (by decide +kernel)
    (by decide +kernel) (by decide +kernel) (by decide +kernel) hrun⟩

/-- There is one block left and the file needs two: the one that was taken stays taken. -/
theorem file_write_keeps_block :
    scarceWrite 600 (scarceHeaps 0xf9) = .ok (-1, (scarceWrite 600).after (scarceHeaps 0xf9)) ∧
    ¬ WriteUndone 2 (scarceHeaps 0xf9) ((scarceWrite 600).after (scarceHeaps 0xf9)) := by
  refine ⟨Prog.run_of_answer (by decide +kernel), fun h => ?_⟩
  have hfree : (scarceHeaps 0xf9).fs.part.blockBitmap.bitmapScanTest 2 = false := by
    decide +kernel
  have hset : ((scarceWrite 600).after (scarceHeaps 0xf9)).fs.part.blockBitmap.bitmapScanTest 2
      = true := by
    decide +kernel
  rw [h.blocks.bitmap, hfree] at hset
  cases hset

end ZyOs
