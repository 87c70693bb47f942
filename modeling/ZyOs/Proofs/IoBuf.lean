/-
Which inodes fit into the buffer they are written back through.

All callers but one have room for two sectors.  `file_write` has one sector, so a file whose slot
lies in two is written back past the end of the buffer.
-/
import ZyOs.Proofs.FailedWrite
import ZyOs.Proofs.HeapCalls
import ZyOs.Proofs.InodeSlots

namespace ZyOs

open Library

variable {bytes no : Nat}

/-- Every transfer for inode `no` fits, whoever makes it: a check for it is never noticed. -/
def TransfersFit (no : UInt32) : Prop :=
  ∀ (env : HeapEnv) (call : IoCall) (s : HeapFs),
    call.exec (.checking no.toNat) env s = call.exec .code env s

/-! ### Two sectors are enough -/

theorem checking_sync (no : Nat) (h : 1024 ≤ bytes) :
    (InodeIo.checking no).sync bytes = InodeIo.code.sync bytes := by
  funext inode ioBuf
  have hle := inodeSectors_le (inode.iNo.toNat % 256)
  exact if_neg fun hc => by omega

theorem checking_delete (no : Nat) (h : 1024 ≤ bytes) :
    (InodeIo.checking no).delete bytes = InodeIo.code.delete bytes := by
  funext inodeNo ioBuf
  have hle := inodeSectors_le inodeNo
  exact if_neg fun hc => by omega

theorem deleteLoopIo_checking (no : Nat) (h : 1024 ≤ bytes) (pdir inodeNo : Nat)
    (blocks : Nat → UInt32) : ∀ n blockIdx,
    deleteLoopIo (.checking no) bytes pdir inodeNo blocks n blockIdx
      = deleteLoopIo .code bytes pdir inodeNo blocks n blockIdx := by
  intro n
  induction n with
  | zero => exact fun _ => rfl
  | succ n ih =>
      intro blockIdx
      simp only [deleteLoopIo, ih, removeEntryIo, checking_sync no h]

theorem deleteDirEntryIo_checking (no : Nat) (h : 1024 ≤ bytes) (pdir inodeNo : Nat) :
    deleteDirEntryIo (.checking no) bytes pdir inodeNo
      = deleteDirEntryIo .code bytes pdir inodeNo := by
  simp only [deleteDirEntryIo, deleteLoopIo_checking no h]

/-- All calls but `file_write` have room for two sectors. -/
theorem exec_checking (no : Nat) (env : HeapEnv) {call : IoCall}
    (h : ∀ fd buf count, call ≠ .fileWrite fd buf count) :
    call.exec (.checking no) env = call.exec .code env := by
  cases call with
  | fileCreate parent filename flag =>
      simp only [IoCall.exec, Heaps.fileCreateIo, checking_sync no (Nat.le_refl 1024)]
  | fileWrite fd buf count => exact absurd rfl (h fd buf count)
  | mkdir pathname =>
      have hroom : 1024 ≤ sectorSize * 2 := Nat.le_refl _
      simp only [IoCall.exec, Heaps.sysMkdirIo, Heaps.makeDirIo, checking_sync no hroom]
  | unlink pathname =>
      have hroom : 1024 ≤ sectorSize + sectorSize := Nat.le_refl _
      simp only [IoCall.exec, Heaps.sysUnlinkIo, deleteDirEntryIo_checking no hroom,
        Heaps.inodeReleaseIo, checking_delete no (Nat.le_refl 1024)]
  | dirRemove parentDir childDir =>
      have hroom : 1024 ≤ sectorSize * 2 := Nat.le_refl _
      simp only [IoCall.exec, Heaps.dirRemoveIo, deleteDirEntryIo_checking no hroom,
        Heaps.inodeReleaseIo, checking_delete no (Nat.le_refl 1024)]

/-! ### One sector -/

theorem inodeSectors_eq_one : inodeSectors no = 1 ↔ no * 76 % 512 ≤ 436 := by
  unfold inodeSectors
  split <;> omega

/-- `file_write` has room for a slot that lies in one. -/
theorem fileWrite_checking (h : inodeSectors (no % 256) = 1) (env : HeapEnv) (fd : Nat)
    (buf : Mem) (count : Nat) : Heaps.fileWriteIo (.checking no) env fd buf count
      = Heaps.fileWriteIo .code env fd buf count := by
  have hsync : (InodeIo.checking no).sync 512 = InodeIo.code.sync 512 := by
    funext inode ioBuf
    refine if_neg ?_
    rintro ⟨hno, hlt⟩
    rw [hno, h] at hlt
    exact absurd hlt (by decide)
  simp only [Heaps.fileWriteIo, hsync]

/-- File descriptor 3 is open on an empty file with this inode number. -/
def openedFile (no : UInt32) : HeapFs where
  fs := { emptyFs with
    inodes := fun _ => { inodeInit 0 with iNo := no, iSectors := fun _ => 700 }
    fileTable := fun g => if g = 3 then ⟨0, 1, some 2⟩ else ⟨0, 0, none⟩
    heap := {2} }
  frees := []

/-- A write of no bytes to an empty file with a block: all that is left to do is to write the inode
back. -/
theorem fileWriteIo_nothing (io : InodeIo) {env : HeapEnv} {s : HeapFs} {fd a p q : Nat}
    (hentry : (s.fs.fileTable fd).fdInode = some a) (hsize : (s.fs.inodes a).iSize = 0)
    (hblock : (s.fs.inodes a).sector 0 ≠ 0)
    (hp : env.newAddr s.context 512 s.fs.heap = some p)
    (hq : env.newAddr s.context (512 + 48) (insert p s.fs.heap) = some q) (buf : Mem) :
    ∃ t : HeapFs, t.fs.part = s.fs.part ∧
      Heaps.fileWriteIo io env fd buf 0 s
        = (do
            onFs (io.sync 512 (s.fs.inodes a) (fun _ => 0))
            Heaps.sysFree env q
            Heaps.sysFree env p
            return 0) t := by
  have hfirst : firstBlock a { s.fs with heap := insert q (insert p s.fs.heap) }
      = .ok (true, { s.fs with heap := insert q (insert p s.fs.heap) }) := by
    rw [firstBlock, Prog.bind_of_run (Prog.get_run _), if_neg hblock]
    rfl
  have hcollect : collectForWrite a 1 1 { s.fs with heap := insert q (insert p s.fs.heap) }
      = .ok (some (lastBlock (s.fs.inodes a) 1),
        { s.fs with heap := insert q (insert p s.fs.heap) }) := by
    rw [collectForWrite, Prog.bind_of_run (Prog.get_run _), if_pos rfl, if_pos (by decide)]
    rfl
  refine ⟨{ s with fs := { s.fs with
    heap := insert q (insert p s.fs.heap)
    fileTable := fun g => if g = fd then { s.fs.fileTable fd with fdPos := sub32 0 1 }
      else s.fs.fileTable g } }, rfl, ?_⟩
  have hzero : (s.fs.inodes a).iSize.toNat = 0 := by
    rw [hsize]
    rfl
  rw [Heaps.fileWriteIo, Prog.bind_of_run (onFs_run (fdInodeOf_run hentry _)),
    Prog.bind_of_run (Prog.get_run _)]
  simp only [hzero]
  rw [if_neg (by decide), Prog.bind_of_run (sysMalloc_run hp)]
  simp only
  rw [Prog.bind_of_run (sysMalloc_run hq)]
  simp only
  rw [Prog.bind_of_run (onFs_run hfirst), if_pos rfl,
    Prog.bind_of_run (onFs_run (assertFs_run (by rw [hzero]; decide) _ _ _)),
    Prog.bind_of_run (onFs_run hcollect)]
  rfl

theorem sysFree_kernel {env : HeapEnv} {ptr : Nat} (h : env.owner ptr = .kernel) (s : HeapFs) :
    ∃ t, Heaps.sysFree env ptr s = .ok ((), t) := by
  have hassert : Heaps.assertInHeap env ptr = pure () := if_pos h
  rw [Heaps.sysFree, Prog.bind_of_run (Prog.get_run s), Prog.bind_of_run (Prog.set_run _ s),
    hassert]
  by_cases hc : s.context = .kernel
  · rw [if_pos hc]
    exact ⟨_, rfl⟩
  · rw [if_neg hc]
    exact ⟨_, rfl⟩

/-- So a slot in two sectors goes past the end of the buffer, and nobody notices. -/
theorem fileWrite_overruns {no : UInt32} (h : inodeSectors (no.toNat % 256) ≠ 1) :
    Heaps.fileWriteIo (.checking no.toNat) splitEnv 3 (fun _ => 0) 0 (openedFile no)
      = .error (.elsewhere ioOverrun) ∧
    ∃ r, Heaps.fileWriteIo .code splitEnv 3 (fun _ => 0) 0 (openedFile no) = .ok r := by
  have htwo : 512 < 512 * inodeSectors (no.toNat % 256) := by
    have := inodeSectors_pos (no.toNat % 256)
    omega
  have hblock : ((openedFile no).fs.inodes 2).sector 0 ≠ 0 := show (700 : UInt32) ≠ 0 by decide
  have hrun := fun io => @fileWriteIo_nothing io splitEnv (openedFile no) 3 2 6 14
    rfl rfl hblock rfl rfl (fun _ => 0)
  constructor
  · obtain ⟨t, -, hcheck⟩ := hrun (.checking no.toNat)
    have hsync : onFs ((InodeIo.checking no.toNat).sync 512 ((openedFile no).fs.inodes 2)
        (fun _ => 0)) t = .error (.elsewhere ioOverrun) := by
      rw [onFs, show (InodeIo.checking no.toNat).sync 512 ((openedFile no).fs.inodes 2)
        (fun _ => 0) t.fs = .error ioOverrun from congrFun (if_pos ⟨rfl, htwo⟩) t.fs]
    rw [hcheck, Prog.bind_of_error hsync]
  · obtain ⟨t, hpart, hcode⟩ := hrun .code
    have hfits : t.fs.part.TableFits := by
      rw [hpart]
      exact emptyFs_tableFits
    have hsync : onFs (InodeIo.code.sync 512 ((openedFile no).fs.inodes 2) (fun _ => 0)) t
        = .ok ((), _) := onFs_run (inodeSync_run hfits _ _)
    obtain ⟨t₁, hq⟩ := @sysFree_kernel splitEnv 14 rfl _
    obtain ⟨t₂, hp⟩ := @sysFree_kernel splitEnv 6 rfl t₁
    rw [hcode, Prog.bind_of_run hsync, Prog.bind_of_run hq, Prog.bind_of_run hp]
    exact ⟨_, rfl⟩

theorem not_transfersFit {no : UInt32} (h : inodeSectors (no.toNat % 256) ≠ 1) :
    ¬ TransfersFit no := by
  intro hfit
  obtain ⟨hstop, r, hreturn⟩ := fileWrite_overruns h
  have hsame := hfit splitEnv (.fileWrite 3 (fun _ => 0) 0) (openedFile no)
  rw [IoCall.exec, IoCall.exec, hstop, hreturn] at hsame
  cases hsame

/-- **An inode fits into the buffers it goes through** just when the slot `inode_sync` uses for it
lies in one sector; of the callers it is only `file_write` whose buffer may be too small. -/
theorem transfersFit_iff (no : UInt32) :
    (∀ (env : HeapEnv) (call : IoCall), (∀ fd buf count, call ≠ .fileWrite fd buf count) →
      call.exec (.checking no.toNat) env = call.exec .code env) ∧
    (TransfersFit no ↔ no.toNat % 256 * 76 % 512 ≤ 436) := by
  refine ⟨fun env call h => exec_checking no.toNat env h, ?_⟩
  rw [← inodeSectors_eq_one]
  constructor
  · intro hfit
    by_contra htwo
    exact not_transfersFit htwo hfit
  · intro hone env call s
    by_cases hwrite : ∃ fd buf count, call = .fileWrite fd buf count
    · obtain ⟨fd, buf, count, rfl⟩ := hwrite
      rw [IoCall.exec, IoCall.exec, fileWrite_checking hone]
    · rw [exec_checking no.toNat env fun fd buf count hc => hwrite ⟨fd, buf, count, hc⟩]

/-- Inode 6 lies in two sectors, and `file_write` writes it back through a buffer of 512 bytes. -/
theorem fileWrite_overruns_six : inodeSectors 6 = 2 ∧
    Heaps.fileWriteIo (.checking 6) splitEnv 3 (fun _ => 0) 0 (openedFile 6)
      = .error (.elsewhere ioOverrun) ∧ ¬ TransfersFit 6 :=
  ⟨by decide, (@fileWrite_overruns 6 (by decide)).1, not_transfersFit (by decide)⟩

end ZyOs
