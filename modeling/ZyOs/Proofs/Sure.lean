/-
Steps that cannot fail.

On a partition that lies on its drive the transfers of a call return, and so do its
assertions.  What can stop it is a bitmap without a free bit: `bitmap_scan` asserts that
there is one.  `Supplies` says either that there are free bits or that a panic is
acceptable, so that one proof covers the calls that return and those that may not.
-/
import ZyOs.Proofs.Synced

namespace ZyOs

open Library

/-- The partition, and every block that is still free, is on the drive. -/
structure OnDrive (part : Partition) : Prop where
  ordered : part.Ordered
  fits : part.TableFits
  free : ∀ n < 8 * part.blockBitmap.bmapBytesLen, part.blockBitmap.bitmapScanTest n = false →
    part.sb.dataStartLba + n ≤ maxLba

/-- There are `k` free bits, or panics are allowed. -/
def Supplies (E : Halt → Prop) (b : Bitmap) (k : Nat) : Prop :=
  Room b k ∨ ∀ e : Halt, e.IsPanic → E e

variable {E : Halt → Prop} {b : Bitmap} {part : Partition} {s : Fs} {k n : Nat}

theorem Supplies.set (h : Supplies E b (k + 1)) (n : Nat) : Supplies E (b.bitmapSet n true) k :=
  h.imp_left fun hr => hr.set n

theorem Supplies.mono {j : Nat} (h : Supplies E b k) (hj : j ≤ k) : Supplies E b j :=
  h.imp_left fun ⟨free, hcard, hfree⟩ => ⟨free, hj.trans hcard, hfree⟩

/-- Panics are allowed when nothing is said of errors. -/
theorem supplies_any (b : Bitmap) (k : Nat) : Supplies (fun _ => True) b k :=
  .inr fun _ _ => trivial

/-! ### The partition -/

theorem OnDrive.set (h : OnDrive part) (hn : part.blockBitmap.LowestFree n ∨
    n < 8 * part.blockBitmap.bmapBytesLen ∧ part.sb.dataStartLba + n ≤ maxLba) (v : Bool) :
    OnDrive { part with blockBitmap := part.blockBitmap.bitmapSet n v } where
  ordered := { h.ordered with }
  fits := ⟨h.fits.table, h.fits.drive⟩
  free := by
    intro m hm hfree
    change (part.blockBitmap.bitmapSet n v).bitmapScanTest m = false at hfree
    rw [Bitmap.scanTest_set] at hfree
    by_cases hmn : m = n
    · subst hmn
      rcases hn with hn | hn
      · exact h.free m hn.bit hn.free
      · exact hn.2
    · rw [if_neg hmn] at hfree
      exact h.free m hm hfree

theorem OnDrive.setInode (h : OnDrive part) (n : Nat) (v : Bool) :
    OnDrive { part with inodeBitmap := part.inodeBitmap.bitmapSet n v } :=
  ⟨{ h.ordered with }, ⟨h.fits.table, h.fits.drive⟩, h.free⟩

theorem OnDrive.dataFits (h : OnDrive part) : part.DataFits := h.ordered.dataFits

/-- The sector with bit `n` of a bitmap is on the drive. -/
theorem OnDrive.bitmapSector (h : OnDrive part) {t : BitmapType}
    (hn : n < 8 * (part.bitmapOf t).bmapBytesLen) : part.bitmapLba t + n / 4096 ≤ maxLba := by
  have ho := h.ordered
  have hdrive := h.fits.drive
  have htable := h.fits.table
  have h1 := ho.blocks
  have h2 := ho.inodes
  cases t with
  | inodeBitmap =>
      have h3 := ho.inodeBytes
      simp only [Partition.bitmapOf] at hn
      simp only [Partition.bitmapLba]
      omega
  | blockBitmap =>
      have h3 := ho.blockBytes
      simp only [Partition.bitmapOf] at hn
      simp only [Partition.bitmapLba]
      omega

/-! ### Transfers -/

/-- The state with the disk replaced. -/
def Fs.withDisk (s : Fs) (d : Disk) : Fs := { s with disk := d }

theorem wp_read {lba : Nat} (hlba : lba ≤ maxLba) {buf : Mem} {Q : Mem → Fs → Prop}
    (h : Q (buf.splice 0 (s.disk.drop (512 * lba)) 512) s) :
    Prog.wp E (readSectors lba buf 1) Q s :=
  Prog.wp_of_run (readSectors_run s buf (by decide) (by omega)) (by simpa using h)

theorem wp_write {lba : Nat} (hlba : lba ≤ maxLba) {buf : Mem} {Q : Unit → Fs → Prop}
    (h : Q () (s.withDisk (s.disk.splice (512 * lba) buf 512))) :
    Prog.wp E (writeSectors lba buf 1) Q s :=
  Prog.wp_of_run (writeSectors_run s buf (by decide) (by omega)) (by simpa [Fs.withDisk] using h)

theorem wp_assert {c : Prop} [Decidable c] (hc : c) {func condition : String}
    {Q : Unit → Fs → Prop} (h : Q () s) : Prog.wp E (assertFs c func condition) Q s :=
  Prog.wp_of_run (assertFs_run hc func condition s) h

theorem wp_sync (hs : OnDrive s.part) {t : BitmapType}
    (hn : n < 8 * (s.part.bitmapOf t).bmapBytesLen) {Q : Unit → Fs → Prop}
    (h : Q () (s.syncSector t n)) : Prog.wp E (bitmapSync n t) Q s := by
  have hlba := hs.bitmapSector hn
  refine Prog.wp_get_bind ?_
  cases t with
  | inodeBitmap => exact wp_write hlba h
  | blockBitmap => exact wp_write hlba h

theorem wp_syncInode (hs : s.part.TableFits) {inode : Inode} {ioBuf : Mem} {Q : Unit → Fs → Prop}
    (h : Q () (s.inodeSynced inode)) : Prog.wp E (inodeSync inode ioBuf) Q s :=
  Prog.wp_of_run (inodeSync_run hs inode ioBuf) h

theorem wp_wipeInode (hs : s.part.TableFits) {no : Nat} (hno : no < 4096) {ioBuf : Mem}
    {Q : Unit → Fs → Prop}
    (h : Q () (s.withDisk (s.disk.splice (slotAddr s.part no) (fun _ => 0) Inode.size))) :
    Prog.wp E (inodeDelete no ioBuf) Q s := by
  have htab := hs.table
  have hdrv := hs.drive
  -- it returns, and then `wp_inodeDelete` says what it did
  have hret : ∃ r s', inodeDelete no ioBuf s = .ok (r, s') := by
    rw [inodeDelete, Prog.bind_of_run (assertFs_run hno _ _ s), Prog.bind_of_run (Prog.get_run s),
      Prog.bind_of_run (Prog.lift_run.mpr ⟨inodeLocate_run s.part hno, rfl⟩),
      Prog.bind_of_run (assertFs_run (by simp only; omega) _ _ s)]
    simp only [decide_eq_true_eq]
    by_cases htwo : 512 - no * 76 % 512 < 76
    · rw [if_pos htwo, Prog.bind_of_run (readSectors_run s _ (by decide) (by omega))]
      exact ⟨_, _, writeSectors_run s _ (by decide) (by omega)⟩
    · rw [if_neg htwo, Prog.bind_of_run (readSectors_run s _ (by decide) (by omega))]
      exact ⟨_, _, writeSectors_run s _ (by decide) (by omega)⟩
  obtain ⟨r, s', hrun⟩ := hret
  exact Prog.wp_of_run hrun ((wp_inodeDelete (E := fun _ => True) (fun _ _ => trivial)
    fun _ => h).of_run hrun)

/-! ### Allocation -/

/-- A scan that finds a bit, or is allowed to panic. -/
theorem wp_scan {α : Type} {x : FsM α} {Q : α → Fs → Prop} (hs : Supplies E b (k + 1))
    (hrun : ∀ n < 8 * b.bmapBytesLen, b.bitmapScanTest n = false → ∃ r s', x s = .ok (r, s'))
    (h : ∀ E' : Halt → Prop, (∀ e : Halt, e.IsPanic → E' e) → Prog.wp E' x Q s) :
    Prog.wp E x Q s := by
  rcases hs with hroom | hE
  · obtain ⟨n, hn, hfree⟩ := hroom.exists
    obtain ⟨r, s', hok⟩ := hrun n hn hfree
    exact Prog.wp_of_run hok ((h (fun _ => True) fun _ _ => trivial).of_run hok)
  · exact h E hE

/-- The lowest free block is taken; the bitmap on disk does not know yet. -/
theorem wp_takeBlock (hs : OnDrive s.part) (hsup : Supplies E s.part.blockBitmap (k + 1))
    {Q : Int → Fs → Prop} (h : ∀ n, s.part.blockBitmap.LowestFree n →
      Supplies E (s.part.take n).blockBitmap k →
      Q (s.part.sb.dataStartLba + n : Nat) { s with part := s.part.take n }) :
    Prog.wp E blockBitmapAlloc Q s := by
  refine wp_scan hsup (fun n hn hfree => ?_) fun E' hE' =>
    wp_blockBitmapAlloc_lowest hE' hs.dataFits fun n hn => h n hn (hsup.set n)
  obtain ⟨m, -, -, -, hok⟩ := Partition.blockBitmapAlloc_run hs.dataFits hn hfree
  exact ⟨_, _, blockBitmapAlloc_lift hok⟩

/-- The lowest free block is taken and its bit written back. -/
theorem wp_takeSynced {func : String} (hs : OnDrive s.part)
    (hsup : Supplies E s.part.blockBitmap (k + 1)) {Q : Int → Fs → Prop}
    (h : ∀ n, s.part.blockBitmap.LowestFree n → Supplies E (s.part.take n).blockBitmap k →
      Q (s.part.sb.dataStartLba + n : Nat) (s.changeBlock n true)) :
    Prog.wp E (allocSynced func) Q s := by
  refine wp_scan hsup (fun n hn hfree => ?_) fun E' hE' =>
    wp_allocSynced hE' hs.dataFits fun n hn => h n hn (hsup.set n)
  obtain ⟨m, -, d, -, -, hok, -⟩ := allocSynced_run hs.dataFits func hn hfree (hs.free n hn hfree)
  exact ⟨_, _, hok⟩

/-- A block of the data area is given back. -/
theorem wp_giveBlock (hs : OnDrive s.part) {lba : UInt32} (hlba : InData s.part lba.toNat)
    (hdrive : lba.toNat ≤ maxLba) {Q : Unit → Fs → Prop}
    (h : Q () (s.changeBlock (lba.toNat - s.part.sb.dataStartLba) false)) :
    Prog.wp E (freeBlock lba) Q s := by
  refine Prog.wp_get_bind (Prog.wp_bind (Prog.wp_modify ?_))
  rw [hlba.blockBitmapIdx hs.dataFits]
  have hbit := hlba.bit
  have hdata := hlba.data
  exact wp_sync (hs.set (.inr ⟨hbit, by omega⟩) false) hbit h

end ZyOs
