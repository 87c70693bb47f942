/-
Reading a file, and whole runs of writes and reads.

`file_read_write_refines` is the statement about runs: in every state that writes
and reads lead to from an empty file, the file is the byte string that was written.
The condition on the reads is needed: `fileRead_wraps` is what happens without it.
-/
import ZyOs.Proofs.FileData

namespace ZyOs

open Library

/-! ### Reading -/

/-- The state with the file's cursor somewhere else. -/
def Fs.atPos (s : Fs) (fd pos : Nat) : Fs :=
  { s with fileTable := fun g =>
      if g = fd then { s.fileTable fd with fdPos := pos } else s.fileTable g }

section Pos

variable (s : Fs) (fd pos pos' : Nat)

theorem setFdPos_run : setFdPos fd pos s = .ok ((), s.atPos fd pos) := rfl

@[simp] theorem atPos_fdPos : ((s.atPos fd pos).fileTable fd).fdPos = pos := by
  simp [Fs.atPos]

@[simp] theorem atPos_fdInode :
    ((s.atPos fd pos).fileTable fd).fdInode = (s.fileTable fd).fdInode := by
  simp [Fs.atPos]

@[simp] theorem atPos_atPos : (s.atPos fd pos).atPos fd pos' = s.atPos fd pos' := by
  unfold Fs.atPos
  congr 1
  funext g
  by_cases hg : g = fd <;> simp [hg]

end Pos

theorem FileInv.atPos {s₀ s : Fs} {fd a : Nat} {c : List UInt8} (h : FileInv s₀ s fd a c)
    (pos : Nat) : FileInv s₀ (s.atPos fd pos) fd a c :=
  ⟨(atPos_fdInode s fd pos).trans h.entry, h.layout, h.sb, h.mono, h.untouched, h.size, h.blocks,
    h.content⟩

section Read

variable {E : Halt → Prop} (hE : ∀ e : Halt, e.IsPanic → E e)
variable {s₀ s : Fs} {fd a : Nat} {c : List UInt8} {blocks : Nat → UInt32}

include hE

/-- The array holds the addresses of the blocks that are read. -/
theorem wp_collectForRead {startIdx endIdx : Nat} (h140 : endIdx < 140) :
    Prog.wp E (collectForRead a startIdx endIdx) (fun blocks s' => s' = s ∧
      ∀ k, startIdx ≤ k → k ≤ endIdx → blocks k = fileBlk s.disk (s.inodes a) k) s := by
  have hdirect : ∀ lo hi k, lo ≤ k → k ≤ hi → hi < 12 →
      directRange (s.inodes a) lo hi k = fileBlk s.disk (s.inodes a) k := by
    intro lo hi k h1 h2 h3
    rw [directRange, if_pos ⟨h1, h2⟩, fileBlk_direct (by omega)]
  unfold collectForRead
  refine Prog.wp_get_bind (Prog.wp_ite (fun heq => ?_) fun hne => ?_)
  · refine Prog.wp_ite (fun hdir => ?_) fun hind => ?_
    · exact Prog.wp_pure ⟨rfl, fun k h1 h2 => hdirect _ _ k (by omega) h2 hdir⟩
    · refine Prog.wp_bind (wp_readSectors hE (Prog.wp_pure ⟨rfl, fun k h1 h2 => ?_⟩))
      rw [withTable, if_pos (by omega), Nat.one_mul, getWord_read _ _ _ (by omega),
        fileBlk_indirect (by omega), Inode.blk]
  · refine Prog.wp_ite (fun hdir => ?_) fun hind => ?_
    · exact Prog.wp_pure ⟨rfl, fun k h1 h2 => hdirect _ _ k h1 h2 hdir⟩
    refine Prog.wp_ite (fun hmix => ?_) fun hall => ?_
    · refine wp_readTable hE fun table htab hlow _ => ⟨rfl, fun k h1 h2 => ?_⟩
      by_cases hk : k < 12
      · rw [hlow k hk]
        exact hdirect _ _ k h1 (by omega) (by omega)
      · exact htab k (by omega) (by omega)
    · exact wp_readTable hE fun table htab _ _ => ⟨rfl, fun k h1 h2 => htab k (by omega) (by omega)⟩

/-- The transfer loop fills the buffer from the file. -/
theorem wp_readLoop {p size : Nat} {f buf₀ : Mem}
    (hc : Content s.disk (s.inodes a) f (p + size)) (h140 : p + size ≤ 512 * 140)
    (harr : ∀ k, p / 512 ≤ k → k ≤ (p + size) / 512 → blocks k = fileBlk s.disk (s.inodes a) k) :
    ∀ (fuel : Nat) (buf : Mem) (done left : Nat), done + left = size → left ≤ fuel →
      (∀ i, buf i = if i < done then f (p + i) else buf₀ i) →
      Prog.wp E (readLoop fd blocks size fuel buf done left) (fun r s' => r.1 = size ∧
        (∀ i, r.2 i = if i < size then f (p + i) else buf₀ i) ∧ s' = s.atPos fd (p + size))
        (s.atPos fd (p + done)) := by
  intro fuel
  induction fuel with
  | zero =>
      intro buf done left hsum hfuel hbuf
      obtain rfl : done = size := by omega
      exact Prog.wp_pure ⟨rfl, hbuf, rfl⟩
  | succ fuel ih =>
      intro buf done left hsum hfuel hbuf
      rw [readLoop]
      refine Prog.wp_ite (fun hlt => ?_) fun hge => ?_
      · refine Prog.wp_get_bind ?_
        simp only [atPos_fdPos]
        set chunk := if left < 512 - (p + done) % 512 then left else 512 - (p + done) % 512
          with hchunk
        have hc1 : (p + done) % 512 + chunk ≤ 512 := by
          rw [hchunk]
          split_ifs <;> omega
        have hc2 : chunk ≤ left ∧ 1 ≤ chunk := by
          rw [hchunk]
          split_ifs <;> omega
        refine Prog.wp_bind (wp_blockAt (by omega) ?_)
        rw [harr _ (by omega) (by omega)]
        refine Prog.wp_bind (wp_readSectors hE ?_)
        refine Prog.wp_bind (Prog.wp_of_run (setFdPos_run _ _ _) ?_)
        rw [atPos_atPos, Nat.mod_eq_of_lt (show p + done + chunk < 2 ^ 32 by omega), Nat.add_assoc]
        refine ih _ (done + chunk) (left - chunk) (by omega) (by omega) fun i => ?_
        by_cases hid : done ≤ i ∧ i < done + chunk
        · -- byte `i` of the buffer is byte `p + i` of the file
          rw [if_pos hid.2, Mem.splice_in hid.1 hid.2, Mem.drop_window _ _ (by omega),
            ← hc (p + i) (by omega), show (p + i) / 512 = (p + done) / 512 by omega]
          show s.disk _ = _
          congr 1
          omega
        · rw [Mem.splice_out (by omega), hbuf i]
          by_cases hi : i < done
          · rw [if_pos hi, if_pos (by omega)]
          · rw [if_neg hi, if_neg (by omega)]
      · obtain rfl : done = size := by omega
        exact Prog.wp_pure ⟨rfl, hbuf, rfl⟩

omit hE in
/-- What a read of `n` bytes from `p` leaves in the buffer, and what it returns. -/
def readResult (c : List UInt8) (p n : Nat) (buf : Mem) : Int × Mem :=
  (if p = c.length ∧ 1 ≤ n then -1 else (min n (c.length - p) : Nat),
    fun i => if i < min n (c.length - p) then cstr c (p + i) else buf i)

/-- **A read returns a piece of the file**, or -1 at its end, when `fd_pos + count` does not
wrap and no assertion stops it. -/
theorem wp_fileRead (h : FileInv s₀ s fd a c) {p n : Nat} (hp : p ≤ c.length)
    (hwrap : p + n < 2 ^ 32) (buf : Mem) :
    Prog.wp E (fileRead fd buf n) (fun r s' => r = readResult c p n buf ∧
      s' = s.atPos fd (p + min n (c.length - p))) (s.atPos fd p) := by
  have hle := h.length_lt
  -- the part behind the two tests, for the size they settle on
  have hbytes : ∀ size, size = min n (c.length - p) → ¬ (p = c.length ∧ 1 ≤ n) →
      Prog.wp E (readBytes fd a buf size) (fun r s' => r = readResult c p n buf ∧
        s' = s.atPos fd (p + min n (c.length - p))) (s.atPos fd p) := by
    intro size hsize hend
    unfold readBytes
    refine Prog.wp_get_bind ?_
    simp only [atPos_fdPos]
    rw [Nat.mod_eq_of_lt (show p + size < 2 ^ 32 by omega)]
    refine Prog.wp_bind (wp_assertFs hE fun _ => ?_)
    refine Prog.wp_bind (Prog.wp_mono (wp_collectForRead hE (by omega)) ?_)
    rintro blocks s' ⟨rfl, harr⟩
    have hloop : Prog.wp E (readLoop fd blocks size size buf 0 size) (fun r s' => r.1 = size ∧
        (∀ i, r.2 i = if i < size then cstr c (p + i) else buf i) ∧ s' = s.atPos fd (p + size))
        (s.atPos fd (p + 0)) :=
      wp_readLoop hE (fun i hi => h.content i (by omega)) (by omega) harr size buf 0
        size (by omega) (Nat.le_refl _) (fun i => (if_neg (by omega)).symm)
    refine Prog.wp_bind (Prog.wp_mono hloop ?_)
    rintro ⟨bytes, buf'⟩ s' ⟨rfl, hbuf, rfl⟩
    refine Prog.wp_pure ⟨?_, by rw [← hsize]⟩
    rw [readResult, if_neg hend, ← hsize, Bitmap.int32_of_lt (by omega)]
    exact Prod.ext rfl (funext hbuf)
  unfold fileRead
  refine Prog.wp_bind (Prog.wp_get_bind ?_)
  rw [atPos_fdInode, h.entry]
  refine Prog.wp_pure (Prog.wp_get_bind (Prog.wp_get_bind ?_))
  have hsz : ((s.atPos fd p).inodes a).iSize.toNat = c.length := h.size
  simp only [atPos_fdPos, hsz]
  rw [Nat.mod_eq_of_lt hwrap]
  have hsub : sub32 c.length p = c.length - p := by
    unfold sub32
    omega
  rw [hsub]
  refine Prog.wp_ite (fun hlt => Prog.wp_ite (fun h0 => ?_) fun h0 => ?_) fun hge => ?_
  · refine Prog.wp_pure ⟨?_, ?_⟩
    · rw [readResult, if_pos ⟨by omega, by omega⟩, show min n (c.length - p) = 0 by omega]
      refine Prod.ext rfl (funext fun i => ?_)
      show buf i = if i < 0 then cstr c (p + i) else buf i
      rw [if_neg (by omega)]
    · rw [show min n (c.length - p) = 0 by omega]
      rfl
  · exact hbytes _ (by omega) (by omega)
  · exact hbytes _ (by omega) (by omega)

end Read

/-! ### Runs -/

/-- A read from position `pos`: the cursor is set and `file_read` called. -/
def readAt (fd pos : Nat) (buf : Mem) (count : Nat) : FsM (Int × Mem) := do
  setFdPos fd pos
  fileRead fd buf count

/-- What an open file that nothing was written to looks like. -/
structure EmptyFile (s : Fs) (fd a : Nat) : Prop where
  entry : (s.fileTable fd).fdInode = some a
  layout : s.part.Layout
  size : (s.inodes a).iSize = 0
  sectors : ∀ k < 13, (s.inodes a).sector k = 0

/-- The states writes and reads lead to, with what was written: each call returned, each write
stays within the maximal size, each read starts inside the file and asks for at least one byte.
`Ok` is a further condition on position and count of the reads. -/
inductive FileRun (Ok : Nat → Nat → Prop) (fd : Nat) (s₀ : Fs) : List UInt8 → Fs → Prop where
  | opened : FileRun Ok fd s₀ [] s₀
  | write {c data : List UInt8} {s s' : Fs} {r : Int} :
      FileRun Ok fd s₀ c s → c.length + data.length ≤ 71680 →
      fileWrite fd (cstr data) data.length s = .ok (r, s') → FileRun Ok fd s₀ (c ++ data) s'
  | read {c : List UInt8} {s s' : Fs} {p n : Nat} {buf : Mem} {r : Int × Mem} :
      FileRun Ok fd s₀ c s → p ≤ c.length → 1 ≤ n → n < 2 ^ 32 → Ok p n →
      readAt fd p buf n s = .ok (r, s') → FileRun Ok fd s₀ c s'

/-- Every assertion in the run of `x` from `s` holds. -/
def NoAssertFires {α : Type} (x : FsM α) (s : Fs) : Prop := ∀ e, x s = .error e → ¬ e.IsPanic

/-- What a read from `p` should return of the file `c`. -/
def ReadsPiece (c : List UInt8) (p n : Nat) (r : Int × Mem) (fdPos : Nat) : Prop :=
  (p = c.length ∧ r.1 = -1 ∧ fdPos = p) ∨
  (p < c.length ∧ r.1 = (min n (c.length - p) : Nat) ∧
    (∀ i < min n (c.length - p), r.2 i = cstr c (p + i)) ∧
    fdPos = p + min n (c.length - p))

/-- The file in `s` is the byte string `c`: it has its length, the next write returns its
count, the next read returns a piece, and nobody else's sectors have changed. -/
structure IsBytes (Ok : Nat → Nat → Prop) (fd a : Nat) (s₀ s : Fs) (c : List UInt8) : Prop where
  size : (s.inodes a).iSize.toNat = c.length
  write : ∀ data : List UInt8, c.length + data.length ≤ 71680 →
    NoAssertFires (fileWrite fd (cstr data) data.length) s →
    ∃ s', fileWrite fd (cstr data) data.length s = .ok (data.length, s')
  read : ∀ p n buf, p ≤ c.length → 1 ≤ n → n < 2 ^ 32 → Ok p n →
    NoAssertFires (readAt fd p buf n) s →
    ∃ r s', readAt fd p buf n s = .ok (r, s') ∧ ReadsPiece c p n r (s'.fileTable fd).fdPos
  others : ∀ lba, Marked s₀.part lba →
    ∀ y < 512, s.disk (512 * lba + y) = s₀.disk (512 * lba + y)

/-- The sum of position and count fits in 32 bits. -/
def SumFits (p n : Nat) : Prop := p + n < 2 ^ 32

section Runs

variable {s₀ s : Fs} {fd a : Nat} {c : List UInt8}

theorem fileInv_of_empty (h : EmptyFile s₀ fd a) : FileInv s₀ s₀ fd a [] :=
  ⟨h.entry, h.layout, rfl, fun _ hm => hm, fun _ _ _ _ => rfl, by rw [h.size]; rfl,
    Or.inl ⟨rfl, h.sectors⟩, fun i hi => absurd hi (by simp)⟩

/-- A read, run from any cursor. -/
theorem wp_readAt (h : FileInv s₀ s fd a c) {p n : Nat} (hp : p ≤ c.length) (hn : 1 ≤ n)
    (hwrap : SumFits p n) (buf : Mem) :
    Prog.wp Halt.IsPanic (readAt fd p buf n) (fun r s' =>
      ReadsPiece c p n r (s'.fileTable fd).fdPos ∧ FileInv s₀ s' fd a c) s := by
  refine Prog.wp_bind (Prog.wp_of_run (setFdPos_run s fd p) ?_)
  refine Prog.wp_mono (wp_fileRead (fun _ he => he) h hp hwrap buf) ?_
  rintro r s' ⟨rfl, rfl⟩
  refine ⟨?_, h.atPos _⟩
  by_cases hend : p = c.length
  · refine Or.inl ⟨hend, if_pos ⟨hend, hn⟩, ?_⟩
    rw [atPos_fdPos]
    omega
  · refine Or.inr ⟨by omega, if_neg fun hc => hend hc.1, fun i hi => if_pos hi, ?_⟩
    rw [atPos_fdPos]

theorem fileInv_of_run (h₀ : EmptyFile s₀ fd a) (h : FileRun SumFits fd s₀ c s) :
    FileInv s₀ s fd a c := by
  induction h with
  | opened => exact fileInv_of_empty h₀
  | write _ hlen hrun ih =>
      exact ((wp_fileWrite (E := Halt.IsPanic) (fun _ he => he) ih hlen).of_run hrun).2
  | read _ hp hn _ hok hrun ih => exact ((wp_readAt ih hp hn hok _).of_run hrun).2

/-- A call none of whose assertions fires and that cannot fault returns. -/
theorem returns_of_wp {α : Type} {x : FsM α} {Q : α → Fs → Prop}
    (h : Prog.wp Halt.IsPanic x Q s) (hno : NoAssertFires x s) :
    ∃ r s', x s = .ok (r, s') ∧ Q r s' := by
  cases hx : x s with
  | error e => exact absurd (h.of_error hx) (hno e hx)
  | ok r => exact ⟨r.1, r.2, rfl, h.of_run hx⟩

end Runs

/-- **The file data path refines an append-only byte string with a cursor**, in every run whose
reads do not make `fd_pos + count` wrap. -/
theorem file_read_write_refines (s₀ s : Fs) (fd a : Nat) (c : List UInt8)
    (h₀ : EmptyFile s₀ fd a) (h : FileRun SumFits fd s₀ c s) : IsBytes SumFits fd a s₀ s c := by
  have hinv := fileInv_of_run h₀ h
  refine ⟨hinv.size, ?_, ?_, hinv.untouched⟩
  · intro data hlen hno
    obtain ⟨r, s', hrun, rfl, -⟩ := returns_of_wp (wp_fileWrite (fun _ he => he) hinv hlen) hno
    exact ⟨s', hrun⟩
  · intro p n buf hp hn _ hok hno
    obtain ⟨r, s', hrun, hr, -⟩ := returns_of_wp (wp_readAt hinv hp hn hok buf) hno
    exact ⟨r, s', hrun, hr⟩

/-! ### A read that wraps -/

/-- A transfer that is longer than any file runs out of the array. -/
theorem readLoop_faults {fd size : Nat} {blocks : Nat → UInt32}
    (hdrive : ∀ k < 140, (blocks k).toNat ≤ maxLba) :
    ∀ (fuel : Nat) (s : Fs) (buf : Mem) (pos done left : Nat), (s.fileTable fd).fdPos = pos →
      pos ≤ 71680 → 71680 < pos + left → done + left = size → left ≤ fuel →
      readLoop fd blocks size fuel buf done left s = .error (.fault "file_read") := by
  intro fuel
  induction fuel with
  | zero => intro s buf pos done left _ hpos hlong _ hfuel; omega
  | succ fuel ih =>
      intro s buf pos done left hp hpos hlong hsum hfuel
      rw [readLoop, if_pos (by omega), Prog.bind_of_run (Prog.get_run s), hp]
      simp only [blockAt]
      by_cases hend : pos / 512 < 140
      · have := hdrive _ hend
        rw [if_pos hend, Prog.bind_of_run (Prog.pure_run _ s),
          Prog.bind_of_run (readSectors_run s _ (by decide) (by omega)),
          Prog.bind_of_run (setFdPos_run s _ _)]
        set chunk := if left < 512 - pos % 512 then left else 512 - pos % 512 with hchunk
        have hc : chunk ≤ 512 - pos % 512 ∧ chunk ≤ left ∧ 1 ≤ chunk := by
          rw [hchunk]
          split_ifs <;> omega
        exact ih _ _ (pos + chunk) _ _
          (by rw [atPos_fdPos, Nat.mod_eq_of_lt (show pos + chunk < 2 ^ 32 by omega)])
          (by omega) (by omega) (by omega) (by omega)
      · rw [if_neg hend]
        rfl

/-- An empty file, open in entry 3. -/
def openFs : Fs :=
  { emptyFs with
    inodes := fun _ => inodeInit 1
    fileTable := fun _ => { fdPos := 0, fdFlag := 2, fdInode := some 1 } }

theorem openFs_empty : EmptyFile openFs 3 1 := by
  refine ⟨rfl, ⟨⟨by decide, by decide⟩, ⟨by decide, by decide⟩, by decide⟩, rfl, fun k hk => ?_⟩
  exact dif_pos hk

/-- The same with one byte in it. -/
def oneByteFs : Fs :=
  match fileWrite 3 (cstr [65]) 1 openFs with
  | .ok (_, s) => s
  | .error _ => openFs

theorem oneByteFs_run : ∃ r, fileWrite 3 (cstr [65]) 1 openFs = .ok (r, oneByteFs) := by
  have hok : (fileWrite 3 (cstr [65]) 1 openFs).isOk = true := by decide
  unfold oneByteFs
  cases h : fileWrite 3 (cstr [65]) 1 openFs with
  | error e =>
      rw [h] at hok
      exact absurd hok Bool.false_ne_true
  | ok r => exact ⟨r.1, rfl⟩

theorem oneByteFs_fileRun (Ok : Nat → Nat → Prop) : FileRun Ok 3 openFs [65] oneByteFs := by
  obtain ⟨r, hr⟩ := oneByteFs_run
  have hrun : FileRun Ok 3 openFs ([] ++ [65]) oneByteFs := .write .opened (by decide) hr
  exact hrun

theorem file_one_byte : EmptyFile openFs 3 1 ∧ FileRun SumFits 3 openFs [65] oneByteFs ∧
    IsBytes SumFits 3 1 openFs oneByteFs [65] :=
  ⟨openFs_empty, oneByteFs_fileRun SumFits,
    file_read_write_refines openFs oneByteFs 3 1 [65] openFs_empty (oneByteFs_fileRun SumFits)⟩

/-- At the end of a file of one byte, a read of `2 ^ 32 - 1` bytes does not return -1. -/
theorem fileRead_wraps (buf : Mem) :
    readAt 3 1 buf (2 ^ 32 - 1) oneByteFs = .error (.fault "file_read") := by
  have hinv := fileInv_of_run openFs_empty (oneByteFs_fileRun SumFits)
  have hsize : ((oneByteFs.atPos 3 1).inodes 1).iSize.toNat = 1 := hinv.size
  have hblock : ((oneByteFs.inodes 1).sector 0).toNat ≤ maxLba := by decide
  unfold readAt
  rw [Prog.bind_of_run (setFdPos_run _ _ _)]
  have hinode : fdInodeOf 3 "file_read" (oneByteFs.atPos 3 1) = .ok (1, oneByteFs.atPos 3 1) := by
    unfold fdInodeOf
    rw [Prog.bind_of_run (Prog.get_run _), atPos_fdInode, hinv.entry]
    rfl
  unfold fileRead
  rw [Prog.bind_of_run hinode, Prog.bind_of_run (Prog.get_run _),
    Prog.bind_of_run (Prog.get_run _), atPos_fdPos, hsize, if_neg (by decide)]
  unfold readBytes
  rw [Prog.bind_of_run (Prog.get_run _), atPos_fdPos,
    Prog.bind_of_run (assertFs_run (by decide) _ _ _)]
  have hcollect : collectForRead 1 (1 / 512) ((1 + (2 ^ 32 - 1)) % 2 ^ 32 / 512)
      (oneByteFs.atPos 3 1)
      = .ok (directRange (oneByteFs.inodes 1) 0 0, oneByteFs.atPos 3 1) := rfl
  rw [Prog.bind_of_run hcollect]
  refine Prog.bind_of_error (readLoop_faults ?_ _ _ _ 1 0 _ (atPos_fdPos _ _ _) (by decide)
    (by decide) (by decide) (by decide))
  intro k _
  unfold directRange
  split
  · rename_i hk
    rw [show k = 0 by omega]
    exact hblock
  · decide

/-- Without the condition on the reads the statement is false. -/
theorem file_read_not_bytes : EmptyFile openFs 3 1 ∧
    FileRun (fun _ _ => True) 3 openFs [65] oneByteFs ∧
    ¬ IsBytes (fun _ _ => True) 3 1 openFs oneByteFs [65] := by
  refine ⟨openFs_empty, oneByteFs_fileRun _, fun h => ?_⟩
  have hno : NoAssertFires (readAt 3 1 (fun _ => 0) (2 ^ 32 - 1)) oneByteFs := by
    intro e he
    rw [fileRead_wraps] at he
    rw [← Except.error.inj he]
    exact fun hc => hc
  obtain ⟨r, s', hrun, -⟩ := h.read 1 (2 ^ 32 - 1) (fun _ => 0) (by decide) (by decide)
    (by decide) trivial hno
  rw [fileRead_wraps] at hrun
  exact absurd hrun (by simp)

end ZyOs
