/-
Inode write-back.

The inode table is an array of 76-byte slots packed across sectors.  Whether a
slot straddles two sectors or not, `inode_sync` turns out to overwrite exactly one
slot, and `inode_open` to read exactly one: `inodeSync_run` and `inodeOpen_run`
say which.  They are not the same one.  `inode_open` uses the inode number and
`inode_sync` the number cut to a byte, so the two agree up to 255 and an inode
from 256 on is written over somebody else's slot.
-/
import ZyOs.Kernel.Inode
import ZyOs.Proofs.FsState

namespace ZyOs

open Library

/-! ### The structure in memory -/

namespace Inode

theorem sector_eq (n : Inode) {k : Nat} (h : k < 13) : n.sector k = n.iSectors ⟨k, h⟩ :=
  dif_pos h

theorem sector_setSector (n : Inode) {k j : Nat} (v : UInt32) (hk : k < 13) :
    (n.setSector k v).sector j = if j = k then v else n.sector j := by
  unfold sector setSector
  by_cases hj : j < 13
  · rw [dif_pos hj, dif_pos hj]
  · rw [dif_neg hj, dif_neg hj, if_neg (by omega)]

@[simp] theorem iSize_setSector (n : Inode) (k : Nat) (v : UInt32) :
    (n.setSector k v).iSize = n.iSize := rfl

@[simp] theorem iNo_setSector (n : Inode) (k : Nat) (v : UInt32) :
    (n.setSector k v).iNo = n.iNo := rfl

/-- Two views of the same 76 bytes are the same inode. -/
theorem ofMem_congr {m m' : Mem} (h : ∀ k < size, m k = m' k) : ofMem m = ofMem m' := by
  have hword : ∀ a, a + 4 ≤ 76 → getWord m a = getWord m' a :=
    fun a ha => getWord_congr fun j hj => h _ (show a + j < 76 by omega)
  unfold ofMem
  rw [hword 0 (by omega), hword 4 (by omega), hword 8 (by omega), hword 12 (by omega)]
  congr 1
  funext k
  exact hword _ (by omega)

/-- What survives the way to the disk and back: the number, the size and the blocks. -/
structure Same (n n' : Inode) : Prop where
  iNo : n.iNo = n'.iNo
  iSize : n.iSize = n'.iSize
  sectors : ∀ k < 13, n.sector k = n'.sector k

theorem same_ofMem_toMem (n : Inode) : Same (ofMem n.toMem) n := by
  refine ⟨getWord_ofWords n.words 0, getWord_ofWords n.words 1, fun k hk => ?_⟩
  rw [sector_eq _ hk]
  show getWord (ofWords n.words) (16 + 4 * k) = n.sector k
  rw [show 16 + 4 * k = 4 * (k + 4) by omega, getWord_ofWords]
  rfl

end Inode

/-! ### Slots of the table -/

/-- The inode table lies in the partition and the partition on the drive. -/
structure Partition.TableFits (part : Partition) : Prop where
  table : part.sb.inodeTableLba + 608 ≤ part.startLba + part.secCnt
  drive : part.startLba + part.secCnt ≤ maxLba + 1

/-- Where slot `m` of the inode table starts on the disk. -/
def slotAddr (part : Partition) (m : Nat) : Nat := 512 * part.sb.inodeTableLba + Inode.size * m

theorem inodeLocate_run (part : Partition) {no : Nat} (h : no < 4096) :
    inodeLocate part no = .ok
      { twoSec := 512 - no * 76 % 512 < 76
        secLba := part.sb.inodeTableLba + no * 76 / 512
        offSize := no * 76 % 512 } := by
  simp only [inodeLocate, ASSERT_pos h, ok_bind, pure_eq_ok]

/-- The bytes `inode_sync` puts on disk. -/
def Inode.pureMem (n : Inode) : Mem := { n with iOpenCnts := 0, writeDeny := false : Inode }.toMem

theorem Inode.same_pureMem (n : Inode) : Inode.Same (Inode.ofMem n.pureMem) n := by
  have h := Inode.same_ofMem_toMem { n with iOpenCnts := 0, writeDeny := false }
  exact ⟨h.iNo, h.iSize, h.sectors⟩

/-- **`inode_sync` overwrites the slot whose number is the inode number cut to a byte.** -/
theorem inodeSync_run {s : Fs} (hfit : s.part.TableFits) (n : Inode) (ioBuf : Mem) :
    inodeSync n ioBuf s = .ok ((), { s with
      disk := s.disk.splice (slotAddr s.part (n.iNo.toNat % 256)) n.pureMem Inode.size }) := by
  have hno : n.iNo.toNat % 256 < 256 := Nat.mod_lt _ (by decide)
  generalize hi : n.iNo.toNat % 256 = i at hno
  have htab := hfit.table
  have hdrv := hfit.drive
  have hsize : Inode.size = 76 := rfl
  have haddr : slotAddr s.part i
      = 512 * (s.part.sb.inodeTableLba + i * 76 / 512) + i * 76 % 512 := by
    simp only [slotAddr, hsize]
    omega
  have hpure : ({ n with iOpenCnts := 0, writeDeny := false : Inode }.toMem) = n.pureMem := rfl
  simp only [inodeSync, hi, hpure]
  rw [Prog.bind_of_run (Prog.get_run s),
    Prog.bind_of_run (Prog.lift_run.mpr ⟨inodeLocate_run s.part (by omega : i < 4096), rfl⟩),
    Prog.bind_of_run (assertFs_run (by simp only; omega) _ _ s)]
  -- one sector or two, the buffer holds the whole slot
  split
  · rename_i htwo
    rw [Prog.bind_of_run (readSectors_run s _ (by decide) (by simp only; omega)),
      writeSectors_run s _ (by decide) (by simp only; omega),
      Mem.splice_window _ _ _ (by simp only; omega), haddr]
  · rename_i hone
    simp only [decide_eq_true_eq] at hone
    rw [Prog.bind_of_run (readSectors_run s _ (by decide) (by simp only; omega)),
      writeSectors_run s _ (by decide) (by simp only; omega),
      Mem.splice_window _ _ _ (by simp only; omega), haddr]

theorem putInode_run (a : Nat) (n : Inode) (s : Fs) : putInode a n s
    = .ok ((), { s with inodes := fun b => if b = a then n else s.inodes b }) := rfl

/-- **An `inode_open` that misses the open inodes reads the slot of its number.** -/
theorem inodeOpen_run (env : FsEnv) {s : Fs} (hfit : s.part.TableFits) {no : Nat}
    (hno : no < 4096) (hmiss : findOpen s.inodes no s.openInodes = none) :
    ∃ s', inodeOpen env no s = .ok (env.newAddr s.heap, s') ∧
      s'.inodes (env.newAddr s.heap)
        = { Inode.ofMem (s.disk.drop (slotAddr s.part no)) with iOpenCnts := 1 } := by
  have htab := hfit.table
  have hdrv := hfit.drive
  have haddr : slotAddr s.part no
      = 512 * (s.part.sb.inodeTableLba + no * 76 / 512) + no * 76 % 512 := by
    simp only [slotAddr, Inode.size]
    omega
  have hread : Inode.ofMem ((Mem.splice (fun _ => 0) 0
      (s.disk.drop (512 * (s.part.sb.inodeTableLba + no * 76 / 512)))
      ((if decide (512 - no * 76 % 512 < 76) = true then 2 else 1) * 512)).drop (no * 76 % 512))
      = Inode.ofMem (s.disk.drop (slotAddr s.part no)) := by
    refine Inode.ofMem_congr fun k hk => ?_
    simp only [Inode.size] at hk
    rw [Mem.drop_window _ _ (by simp only [decide_eq_true_eq]; split <;> omega),
      Mem.drop_apply, haddr]
  simp only [inodeOpen]
  rw [Prog.bind_of_run (Prog.get_run s)]
  simp only [hmiss]
  rw [Prog.bind_of_run (Prog.lift_run.mpr ⟨inodeLocate_run s.part hno, rfl⟩),
    Prog.bind_of_run (readSectors_run s _ (by split <;> decide)
      (by simp only [decide_eq_true_eq]; split <;> omega)), hread,
    Prog.bind_of_run (putInode_run _ _ s), Prog.bind_of_run (Prog.modify_run _ _), Prog.pure_run]
  exact ⟨_, rfl, if_pos rfl⟩

/-! ### When write-back is exact -/

/-- What write-back of an inode should do: the inode can be read back, and every
other slot of the table is as before. -/
def WriteBackExact (env : FsEnv) (s : Fs) (n : Inode) (ioBuf : Mem) : Prop :=
  ∃ s', inodeSync n ioBuf s = .ok ((), s') ∧
    (∃ a s'', inodeOpen env n.iNo.toNat s' = .ok (a, s'') ∧ Inode.Same (s''.inodes a) n) ∧
    ∀ m < 4096, m ≠ n.iNo.toNat → ∀ k < Inode.size,
      s'.disk (slotAddr s.part m + k) = s.disk (slotAddr s.part m + k)

/-- The disk already holds what write-back of `n` should achieve, and in the slot
write-back uses as well. -/
structure AlreadyWritten (s : Fs) (n : Inode) : Prop where
  readBack : Inode.Same (Inode.ofMem (s.disk.drop (slotAddr s.part n.iNo.toNat))) n
  truncated : ∀ k < Inode.size,
    s.disk (slotAddr s.part (n.iNo.toNat % 256) + k) = n.pureMem k

section WriteBack

variable {env : FsEnv} {s : Fs} {n : Inode} {ioBuf : Mem}

/-- Write-back is exact when the disk it leaves reads back and differs nowhere else. -/
theorem writeBackExact_iff (hfit : s.part.TableFits) (hno : n.iNo.toNat < 4096)
    (hmiss : findOpen s.inodes n.iNo.toNat s.openInodes = none) :
    WriteBackExact env s n ioBuf ↔
      Inode.Same (Inode.ofMem ((s.disk.splice (slotAddr s.part (n.iNo.toNat % 256)) n.pureMem
        Inode.size).drop (slotAddr s.part n.iNo.toNat))) n ∧
      ∀ m < 4096, m ≠ n.iNo.toNat → ∀ k < Inode.size,
        s.disk.splice (slotAddr s.part (n.iNo.toNat % 256)) n.pureMem Inode.size
          (slotAddr s.part m + k) = s.disk (slotAddr s.part m + k) := by
  set d := s.disk.splice (slotAddr s.part (n.iNo.toNat % 256)) n.pureMem Inode.size with hd
  have hsync : inodeSync n ioBuf s = .ok ((), { s with disk := d }) := inodeSync_run hfit n ioBuf
  obtain ⟨s₂, hopen, hval⟩ := inodeOpen_run env (s := { s with disk := d }) hfit hno hmiss
  constructor
  · rintro ⟨s', hs', ⟨a, s'', ho, hsame⟩, hrest⟩
    rw [hsync] at hs'
    simp only [Except.ok.injEq, Prod.mk.injEq, true_and] at hs'
    subst hs'
    rw [hopen] at ho
    simp only [Except.ok.injEq, Prod.mk.injEq] at ho
    obtain ⟨rfl, rfl⟩ := ho
    rw [hval] at hsame
    exact ⟨⟨hsame.iNo, hsame.iSize, hsame.sectors⟩, hrest⟩
  · rintro ⟨hsame, hrest⟩
    refine ⟨_, hsync, ⟨_, s₂, hopen, ?_⟩, hrest⟩
    rw [hval]
    exact ⟨hsame.iNo, hsame.iSize, hsame.sectors⟩

/-- Slots do not overlap. -/
theorem slot_splice_ne (d : Disk) (part : Partition) (src : Mem) {i m k : Nat} (hne : m ≠ i)
    (hk : k < Inode.size) :
    d.splice (slotAddr part i) src Inode.size (slotAddr part m + k) = d (slotAddr part m + k) := by
  refine Mem.splice_out ?_
  simp only [slotAddr, Inode.size] at hk ⊢
  omega

/-- A slot reads the same after another one was overwritten. -/
theorem ofMem_slot_splice_ne (d : Disk) (part : Partition) (src : Mem) {i m : Nat} (hne : m ≠ i) :
    Inode.ofMem ((d.splice (slotAddr part i) src Inode.size).drop (slotAddr part m))
      = Inode.ofMem (d.drop (slotAddr part m)) :=
  Inode.ofMem_congr fun _ hk => slot_splice_ne d part src hne hk

/-- Past 255 another slot is overwritten, so its old content must already be the new one. -/
theorem alreadyWritten_of_exact (hfit : s.part.TableFits) (hno : n.iNo.toNat < 4096)
    (hmiss : findOpen s.inodes n.iNo.toNat s.openInodes = none) (hge : 256 ≤ n.iNo.toNat)
    (h : WriteBackExact env s n ioBuf) : AlreadyWritten s n := by
  obtain ⟨hsame, hrest⟩ := (writeBackExact_iff hfit hno hmiss).mp h
  have hne : n.iNo.toNat ≠ n.iNo.toNat % 256 := by omega
  constructor
  · rwa [ofMem_slot_splice_ne s.disk s.part n.pureMem hne] at hsame
  · intro k hk
    rw [← hrest _ (by omega) (Ne.symm hne) k hk, Mem.splice_at hk]

end WriteBack

/-- **Inode write-back is exact up to inode 255.**  From 256 on it is exact only on a
disk where there was nothing left to write. -/
theorem inodeSync_exact_iff (env : FsEnv) (s : Fs) (n : Inode) (ioBuf : Mem)
    (hfit : s.part.TableFits) (hno : n.iNo.toNat < 4096)
    (hmiss : findOpen s.inodes n.iNo.toNat s.openInodes = none) :
    WriteBackExact env s n ioBuf ↔ n.iNo.toNat < 256 ∨ AlreadyWritten s n := by
  constructor
  · intro h
    by_cases hlt : n.iNo.toNat < 256
    · exact Or.inl hlt
    · exact Or.inr (alreadyWritten_of_exact hfit hno hmiss (by omega) h)
  · intro h
    rw [writeBackExact_iff hfit hno hmiss]
    by_cases hlt : n.iNo.toNat < 256
    · rw [Nat.mod_eq_of_lt hlt]
      refine ⟨?_, fun m _ hne k hk => slot_splice_ne s.disk s.part n.pureMem hne hk⟩
      have hread : Inode.ofMem ((s.disk.splice (slotAddr s.part n.iNo.toNat) n.pureMem
          Inode.size).drop (slotAddr s.part n.iNo.toNat)) = Inode.ofMem n.pureMem :=
        Inode.ofMem_congr fun k hk => Mem.splice_at hk
      rw [hread]
      exact n.same_pureMem
    · obtain ⟨hback, htrunc⟩ := h.resolve_left hlt
      have hne : n.iNo.toNat ≠ n.iNo.toNat % 256 := by omega
      constructor
      · rwa [ofMem_slot_splice_ne s.disk s.part n.pureMem hne]
      · intro m hm hmne k hk
        by_cases hmi : m = n.iNo.toNat % 256
        · rw [hmi, Mem.splice_at hk, htrunc k hk]
        · exact slot_splice_ne s.disk s.part n.pureMem hmi hk

/-! ### A partition with an empty table -/

/-- `sys_malloc` handing out addresses upwards. -/
def upwardEnv : FsEnv where
  newAddr := fun used => used.sup id + 1
  newAddr_fresh := fun used hmem => by
    have := Finset.le_sup (f := id) hmem
    simp only [id_eq] at this
    omega

/-- A mounted partition of 2000 sectors on a disk of zeros. -/
def emptyFs : Fs where
  disk := fun _ => 0
  part :=
    { startLba := 0
      secCnt := 2000
      sb := { magic := 0x19970719, secCnt := 2000, inodeCnt := 4096, partLbaBase := 0,
              blockBitmapLba := 2, blockBitmapSects := 1, inodeBitmapLba := 3,
              inodeBitmapSects := 1, inodeTableLba := 4, inodeTableSects := 608,
              dataStartLba := 612, rootInodeNo := 0, dirEntrySize := 24 }
      blockBitmap := { bmapBytesLen := 512, bits := fun i => if i = 0 then 1 else 0 }
      inodeBitmap := { bmapBytesLen := 512, bits := fun i => if i = 0 then 1 else 0 } }
  inodes := fun _ => inodeInit 0
  heap := ∅
  openInodes := []
  rootInode := 0
  fileTable := fun _ => { fdPos := 0, fdFlag := 0, fdInode := none }
  tasks := fun _ => { fdTable := fun k => if k < 3 then k else -1, pgDir := false }
  cur := 0

theorem emptyFs_tableFits : emptyFs.part.TableFits := ⟨by decide, by decide⟩

theorem inodeSync_exact_seven : (inodeInit 7).iNo.toNat < 4096 ∧
    WriteBackExact upwardEnv emptyFs (inodeInit 7) (fun _ => 0) :=
  ⟨by decide, (inodeSync_exact_iff upwardEnv emptyFs (inodeInit 7) _ emptyFs_tableFits
    (by decide) rfl).mpr (Or.inl (by decide))⟩

/-- Inode 256 lands in slot 0, the slot of the root directory. -/
theorem inodeSync_overwrites_root : emptyFs.part.TableFits ∧ (inodeInit 256).iNo.toNat < 4096 ∧
    findOpen emptyFs.inodes (inodeInit 256).iNo.toNat emptyFs.openInodes = none ∧
    ¬ WriteBackExact upwardEnv emptyFs (inodeInit 256) (fun _ => 0) := by
  refine ⟨emptyFs_tableFits, by decide, rfl, fun h => ?_⟩
  have hal := alreadyWritten_of_exact emptyFs_tableFits (by decide) rfl (by decide) h
  -- byte 1 of the slot holds the second byte of the number 256
  exact absurd (hal.truncated 1 (by decide)) (by decide)

end ZyOs
