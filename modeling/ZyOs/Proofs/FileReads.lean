/-
Reading what was written.

`file_read` has bounds of its own: its last block index must stay below 139, and it adds
position and count in 32 bits.  Within these bounds it returns, touches nothing of the buffer
beyond the bytes it is to read, and depends on no sector but those of the file; outside of
them it never returns (`read_safe_iff`).
-/
import ZyOs.Proofs.FileLimit

namespace ZyOs

open Library

variable {s₀ s s' : Fs} {fd a p n : Nat} {c : List UInt8} {buf : Mem} {d : Disk}

/-! ### Files that have been written -/

/-- The states successful writes lead to, with what was written. -/
inductive Written (fd : Nat) (s₀ : Fs) : List UInt8 → Fs → Prop where
  | opened : Written fd s₀ [] s₀
  | write {c data : List UInt8} {s s' : Fs} {r : Int} : Written fd s₀ c s → data.length < 2 ^ 32 →
      fileWrite fd (cstr data) data.length s = .ok (r, s') → r ≠ -1 → Written fd s₀ (c ++ data) s'

/-- A write that succeeds stays below the limit. -/
theorem lt_of_fileWrite {data : List UInt8} {r : Int} (h : FileInv s₀ s fd a c)
    (hcount : data.length < 2 ^ 32) (hrun : fileWrite fd (cstr data) data.length s = .ok (r, s'))
    (hr : r ≠ -1) : c.length + data.length < 71680 := by
  have hle : c.length < 71680 := h.length_lt
  by_contra hc
  by_cases hmid : 71680 < c.length + data.length ∧ c.length + data.length < 2 ^ 32
  · rw [fileWrite_refuses h.entry h.size hmid.1 hmid.2] at hrun
    exact hr (Prod.mk.inj (Except.ok.inj hrun)).1.symm
  · exact Prog.ne_ok_of_wp (fileWrite_never h.layout.data h.entry h.size hle.le hcount (by omega))
      hrun

theorem Written.inv (h₀ : EmptyFile s₀ fd a) (hdrive : OnDrive s₀.part) (h : Written fd s₀ c s) :
    FileInv s₀ s fd a c ∧ SamePart s₀ s := by
  induction h with
  | opened => exact ⟨fileInv_of_empty h₀, hdrive, rfl, rfl⟩
  | write _ hcount hrun hr ih =>
      obtain ⟨hinv, hpart⟩ := ih
      have hlt := lt_of_fileWrite hinv hcount hrun hr
      have hs' := (Stocked.fileWrite (k := 0) hinv hdrive (.any hpart _) hlt).of_run hrun
      exact ⟨((wp_fileWrite (fun _ _ => trivial) hinv hlt.le).of_run hrun).2, hs'.toSamePart⟩

/-! ### The sectors of a file -/

/-- Sector `lba` is recorded in the inode or in its table. -/
def InFile (d : Disk) (inode : Inode) (lba : Nat) : Prop :=
  lba ≠ 0 ∧ ((∃ k < 13, lba = (inode.sector k).toNat) ∨
    inode.sector 12 ≠ 0 ∧ ∃ k, 12 ≤ k ∧ k < 140 ∧ lba = (fileBlk d inode k).toNat)

/-- `d` has in the sectors of the file what the disk has. -/
def SameInFile (s : Fs) (a : Nat) (d : Disk) : Prop :=
  ∀ lba, InFile s.disk (s.inodes a) lba → ∀ y < 512, d (512 * lba + y) = s.disk (512 * lba + y)

/-- The file is there on every disk with the same recorded sectors. -/
theorem FileInv.withDisk (h : FileInv s₀ s fd a c) (hd : SameInFile s a d) :
    FileInv (s₀.withDisk d) (s.withDisk d) fd a c := by
  rcases h.blocks with ⟨rfl, hzero⟩ | hl
  · exact ⟨h.entry, h.layout, h.sb, h.mono, fun _ _ _ _ => rfl, h.size, .inl ⟨rfl, hzero⟩,
      fun i hi => absurd hi (by simp)⟩
  · have hfit := h.layout.data
    have htable : 12 < c.length / 512 + 1 → (s.inodes a).sector 12 ≠ 0 ∧ ∀ y < 512,
        d (512 * (s.inodes a).blk 12 + y) = s.disk (512 * (s.inodes a).blk 12 + y) := by
      intro h12
      have hown := hl.owns
      rw [if_pos h12] at hown
      have hne := (hown.table _ rfl).1.ne_zero hfit
      refine ⟨fun hzero => hne ?_, hd _ ⟨hne, .inl ⟨12, by omega, rfl⟩⟩⟩
      rw [Inode.blk, hzero]
      rfl
    have hblk : ∀ k < c.length / 512 + 1,
        fileBlk d (s.inodes a) k = fileBlk s.disk (s.inodes a) k := fun k hk =>
      hl.fileBlk_eq (fun _ _ => rfl) (fun h12 => (htable h12).2) hk
    refine ⟨h.entry, h.layout, h.sb, h.mono, fun _ _ _ _ => rfl, h.size,
      .inr (hl.frame (fun _ _ => rfl) fun h12 => (htable h12).2), fun i hi => ?_⟩
    have hk : i / 512 < c.length / 512 + 1 := by omega
    have hle := hl.le
    have hrec : InFile s.disk (s.inodes a) (fileBlk s.disk (s.inodes a) (i / 512)).toNat := by
      refine ⟨(hl.owns.marked _ hk).ne_zero hfit, ?_⟩
      by_cases hdir : i / 512 < 12
      · exact .inl ⟨i / 512, by omega, by rw [fileBlk_direct hdir]⟩
      · exact .inr ⟨(htable (by omega)).1, i / 512, by omega, by omega, rfl⟩
    show d (512 * (fileBlk d (s.inodes a) (i / 512)).toNat + i % 512) = _
    rw [hblk _ hk, hd _ hrec _ (Nat.mod_lt _ (by decide))]
    exact h.content i hi

/-! ### Reads that do not return -/

theorem readLoop_never {size : Nat} {blocks : Nat → UInt32} :
    ∀ (fuel : Nat) (buf : Mem) (pos done left : Nat) (s : Fs), (s.fileTable fd).fdPos = pos →
      pos ≤ 71680 → 71680 < pos + left → done + left = size → left ≤ fuel →
      Prog.wp (fun _ => True) (readLoop fd blocks size fuel buf done left)
        (fun _ _ => False) s := by
  intro fuel
  induction fuel with
  | zero => intro buf pos done left s _ hpos hlong _ hfuel; omega
  | succ fuel ih =>
      intro buf pos done left s hp hpos hlong hsum hfuel
      rw [readLoop]
      refine Prog.wp_ite (fun _ => Prog.wp_get_bind ?_) fun hge => absurd hge (by omega)
      simp only [hp]
      set chunk := if left < 512 - pos % 512 then left else 512 - pos % 512 with hchunk
      have hc : chunk ≤ 512 - pos % 512 ∧ chunk ≤ left ∧ 1 ≤ chunk := by
        rw [hchunk]
        split_ifs <;> omega
      by_cases hend : pos / 512 < 140
      · refine Prog.wp_bind (wp_blockAt hend (Prog.wp_bind
          (wp_readSectors (fun _ _ => trivial) ?_)))
        refine Prog.wp_bind (Prog.wp_of_run (setFdPos_run _ _ _) ?_)
        refine ih _ (pos + chunk) _ _ _ ?_ (by omega) (by omega) (by omega) (by omega)
        rw [atPos_fdPos, Nat.mod_eq_of_lt (show pos + chunk < 2 ^ 32 by omega)]
      · rw [blockAt, if_neg hend]
        exact Prog.wp_bind (Prog.wp_lift (fun _ hok => by cases hok) fun _ _ => trivial)

/-- A read outside of the limit. -/
theorem fileRead_never (h : FileInv s₀ s fd a c) (hp : p ≤ c.length) (hn : n < 2 ^ 32)
    (hlimit : ¬ ReadLimit c.length p n) :
    Prog.wp (fun _ => True) (fileRead fd buf n) (fun _ _ => False) (s.atPos fd p) := by
  have hlt := h.length_lt
  unfold fileRead
  refine Prog.wp_bind (Prog.wp_get_bind ?_)
  rw [atPos_fdInode, h.entry]
  refine Prog.wp_pure (Prog.wp_get_bind (Prog.wp_get_bind ?_))
  have hsz : ((s.atPos fd p).inodes a).iSize.toNat = c.length := h.size
  simp only [atPos_fdPos, hsz]
  by_cases hwrap : p + n < 2 ^ 32
  · -- the assertion fails
    have hbytes : ∀ size, 71168 ≤ p + size → p + size < 2 ^ 32 →
        Prog.wp (fun _ => True) (readBytes fd a buf size) (fun _ _ => False) (s.atPos fd p) := by
      intro size hlong hsize
      unfold readBytes
      refine Prog.wp_get_bind ?_
      simp only [atPos_fdPos]
      rw [Nat.mod_eq_of_lt hsize]
      refine Prog.wp_bind (wp_assertFs (fun _ _ => trivial) fun hidx => ?_)
      rw [atPos_fdPos, Nat.mod_eq_of_lt hsize] at hidx
      omega
    have hlong : 71168 ≤ p + min n (c.length - p) ∧ ¬ (p = c.length ∧ 1 ≤ n) := by
      by_contra hc
      exact hlimit ⟨hwrap, by omega⟩
    have hsub : sub32 c.length p = c.length - p := by
      unfold sub32
      omega
    rw [Nat.mod_eq_of_lt hwrap, hsub]
    refine Prog.wp_ite (fun _ => Prog.wp_ite (fun h0 => absurd h0 (by omega)) fun _ => ?_)
      fun _ => ?_
    · exact hbytes _ (by omega) (by omega)
    · exact hbytes _ (by omega) (by omega)
  · -- the sum wraps and the count is kept
    rw [if_neg (by omega)]
    unfold readBytes
    refine Prog.wp_get_bind ?_
    simp only [atPos_fdPos]
    refine Prog.wp_bind (wp_assertFs (fun _ _ => trivial) fun _ => ?_)
    refine Prog.wp_bind (Prog.wp_mono (wp_collectForRead (fun _ _ => trivial) (by omega)) ?_)
    rintro blocks _ ⟨rfl, -⟩
    exact Prog.wp_bind (Prog.wp_mono (readLoop_never _ _ p _ _ _ (atPos_fdPos _ _ _) (by omega)
      (by omega) (by omega) (Nat.le_refl _)) fun _ _ => False.elim)

/-! ### Reads that do -/

/-- A read of `n` bytes from `p` is safe: it returns, leaves the buffer beyond the bytes of the
file alone, and does the same on every disk with the same recorded sectors. -/
def ReadsSafely (s : Fs) (fd a p n : Nat) : Prop :=
  ∀ buf : Mem, ∃ r s', readAt fd p buf n s = .ok (r, s') ∧
    (∀ i, min n ((s.inodes a).iSize.toNat - p) ≤ i → r.2 i = buf i) ∧
    ∀ d, SameInFile s a d → readAt fd p buf n (s.withDisk d) = .ok (r, s'.withDisk d)

theorem readAt_run (buf : Mem) : readAt fd p buf n s = fileRead fd buf n (s.atPos fd p) :=
  Prog.bind_of_run (setFdPos_run s fd p)

theorem readAt_returns (h : FileInv s₀ s fd a c) (h₀ : OnDrive s₀.part) (hs : SamePart s₀ s)
    (hp : p ≤ c.length) (hlimit : ReadLimit c.length p n) (buf : Mem) :
    readAt fd p buf n s = .ok (readResult c p n buf, s.atPos fd (p + min n (c.length - p))) := by
  have hboth := Prog.wp_and_returns
    (SamePart.fileRead (E := fun _ => False) h h₀ hs hp hlimit buf)
    (wp_fileRead (fun _ _ => trivial) h hp hlimit.1 buf)
  rw [readAt_run]
  cases hrun : fileRead fd buf n (s.atPos fd p) with
  | error e => exact (hboth.of_error hrun).elim
  | ok r =>
      obtain ⟨-, hr, hs'⟩ := hboth.of_run hrun
      exact congrArg Except.ok (Prod.ext hr hs')

theorem not_readsSafely (h : FileInv s₀ s fd a c) (hp : p ≤ c.length) (hn : n < 2 ^ 32)
    (hlimit : ¬ ReadLimit c.length p n) : ¬ ReadsSafely s fd a p n := by
  intro hsafe
  obtain ⟨r, s', hrun, -⟩ := hsafe fun _ => 0
  rw [readAt_run] at hrun
  exact Prog.ne_ok_of_wp (fileRead_never h hp hn hlimit) hrun

/-- **What has been written can be read** from every position within the file, if the sum does
not wrap and the read stays clear of the blocks from 139 on; otherwise the read does not
return. -/
theorem read_safe_iff (s₀ s : Fs) (fd a : Nat) (c : List UInt8) (h₀ : EmptyFile s₀ fd a)
    (hdrive : OnDrive s₀.part) (h : Written fd s₀ c s) (p n : Nat)
    (hp : p ≤ (s.inodes a).iSize.toNat) (hn : n < 2 ^ 32) :
    ReadsSafely s fd a p n ↔ ReadLimit (s.inodes a).iSize.toNat p n := by
  obtain ⟨hinv, hpart⟩ := h.inv h₀ hdrive
  rw [hinv.size] at hp ⊢
  constructor
  · intro hsafe
    by_contra hlimit
    exact not_readsSafely hinv hp hn hlimit hsafe
  · intro hlimit buf
    refine ⟨_, _, readAt_returns hinv hdrive hpart hp hlimit buf, fun i hi => ?_, fun d hd => ?_⟩
    · rw [hinv.size] at hi
      exact if_neg (by omega)
    · have hother : SamePart (s₀.withDisk d) (s.withDisk d) :=
        ⟨hpart.drive, hpart.sb, hpart.len⟩
      exact readAt_returns (hinv.withDisk hd) hdrive hother hp hlimit buf

/-! ### Two files -/

theorem oneByteFs_written : Written 3 openFs [65] oneByteFs := by
  obtain ⟨r, hrun⟩ := oneByteFs_run
  have hr : r = 1 := ((wp_fileWrite (E := fun _ => True) (fun _ _ => trivial)
    (fileInv_of_empty openFs_empty)
    (show [].length + [(65 : UInt8)].length ≤ 71680 by decide)).of_run
      hrun).1
  have hwritten : Written 3 openFs ([] ++ [65]) oneByteFs :=
    .write .opened (by decide) hrun (by rw [hr]; decide)
  exact hwritten

theorem read_safe_one : ReadsSafely oneByteFs 3 1 0 1 ↔
    ReadLimit (oneByteFs.inodes 1).iSize.toNat 0 1 :=
  read_safe_iff openFs oneByteFs 3 1 [65] openFs_empty openFs_onDrive oneByteFs_written 0 1
    (Nat.zero_le _) (by decide)

theorem newBlocks_le (has will : Nat) : newBlocks has will ≤ will - has + 1 := by
  unfold newBlocks
  split_ifs <;> omega

/-- All that the limit allows can be written to the empty file. -/
theorem written_of_length {data : List UInt8} (hlen : data.length < 71680) :
    ∃ s, Written 3 openFs data s := by
  have hinv := fileInv_of_empty openFs_empty
  have hblocks : writeBlocks (openFs.inodes 1) data.length ≤ 142 := by
    have hnew := newBlocks_le 1 ((0 + data.length) / 512 + 1)
    show 1 + newBlocks 1 ((0 + data.length) / 512 + 1) ≤ 142
    omega
  have hsum : ([] : List UInt8).length + data.length < 71680 := by simpa using hlen
  have hboth := Prog.wp_and_returns
    (Stocked.fileWrite (k := 0) hinv openFs_onDrive
      (openFs_limitFile.stocked (openFs_room hblocks)) hsum)
    (wp_fileWrite (fun _ _ => trivial) hinv hsum.le)
  cases hrun : fileWrite 3 (cstr data) data.length openFs with
  | error e => exact (hboth.of_error hrun).elim
  | ok r =>
      obtain ⟨-, hr, -⟩ := hboth.of_run hrun
      have hwritten : Written 3 openFs ([] ++ data) r.2 :=
        .write (r := r.1) .opened (by omega) hrun (by omega)
      exact ⟨r.2, hwritten⟩

/-- A file of 139 blocks cannot be read as a whole, and a read from the end of a file of one
byte wraps. -/
theorem read_not_safe : (∃ s, Written 3 openFs (List.replicate 71168 0) s ∧
      ¬ ReadsSafely s 3 1 0 71168) ∧
    Written 3 openFs [65] oneByteFs ∧ ¬ ReadsSafely oneByteFs 3 1 1 (2 ^ 32 - 1) := by
  have hlen : (List.replicate 71168 (0 : UInt8)).length = 71168 := List.length_replicate
  generalize List.replicate 71168 (0 : UInt8) = data at hlen
  obtain ⟨s, hs⟩ := written_of_length (show data.length < 71680 by omega)
  refine ⟨⟨s, hs, ?_⟩, oneByteFs_written, ?_⟩
  · refine not_readsSafely (hs.inv openFs_empty openFs_onDrive).1 (Nat.zero_le _) (by decide) ?_
    rw [hlen]
    decide
  · exact not_readsSafely (oneByteFs_written.inv openFs_empty openFs_onDrive).1 (by decide)
      (by decide) (by decide)

end ZyOs
