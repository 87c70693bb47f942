/-
A transfer through the ports is the transfer of `Kernel/Ide`.

The registers hold what a command is about in pieces, and `Selected` says that the drive puts
them together again: the disk, the sector and the count, where 256 has become 0 on the way and
both sides make 256 of it.  With it one round of a loop moves its sectors to their place, and
the rounds add up as they do in `Proofs/Ide`.
-/
import ZyOs.Kernel.IdePorts
import ZyOs.Proofs.Ide

namespace ZyOs

open Library

variable {p p' : IdePorts} {devNo : UInt8} {lba secCnt secsDone : UInt32} {bus buf : Mem}

namespace CommandBlock

/-- A command for `n` sectors from `lba` of disk `slave`. -/
structure Selected (r : CommandBlock) (slave : Bool) (lba n : Nat) : Prop where
  usesLba : r.usesLba = true
  slave : r.slave = slave
  lba : r.lba = lba
  count : r.count = n

end CommandBlock

namespace Ports

/-! ### Selecting -/

theorem toNat_toUInt8 {n : UInt32} (hpos : 0 < n.toNat) (hle : n.toNat ≤ 256) :
    (if n.toUInt8 = 0 then 256 else n.toUInt8.toNat) = n.toNat := by
  have hcut : n.toUInt8.toNat = n.toNat % 256 := UInt32.toNat_toUInt8 n
  by_cases h0 : n.toUInt8 = 0
  · have : n.toUInt8.toNat = 0 := by rw [h0]; rfl
    rw [if_pos h0]
    omega
  · have : n.toUInt8.toNat ≠ 0 := fun hc => h0 (UInt8.toNat_inj.mp hc)
    rw [if_neg h0]
    omega

/-- The helpers find the bytes the drive moves. -/
theorem sizeInByte_eq {n : UInt32} (hpos : 0 < n.toNat) (hle : n.toNat ≤ 256) :
    2 * (sizeInByte n.toUInt8 / 2) = n.toNat * 512 := by
  have h := toNat_toUInt8 hpos hle
  unfold sizeInByte
  split_ifs at h ⊢ <;> omega

/-- The registers after `select_sector`. -/
def selectedRegs (devNo : UInt8) (lba : UInt32) (secCnt : UInt8) : CommandBlock where
  sectCnt := secCnt
  lbaL := lba.toUInt8
  lbaM := (lba >>> 8).toUInt8
  lbaH := (lba >>> 16).toUInt8
  dev := bitDevMbs ||| bitDevLba ||| devBit devNo ||| (lba >>> 24).toUInt8

theorem selectSector_run (hlba : lba.toNat ≤ maxLba) (n : UInt8) :
    selectSector devNo lba n p = .ok ((), { p with regs := selectedRegs devNo lba n }) := by
  unfold selectSector
  rw [ASSERT_pos hlba]
  rfl

/-- No LBA below the limit reaches the device register. -/
theorem selectedRegs_dev (hlba : lba.toNat ≤ maxLba) (n : UInt8) :
    (selectedRegs devNo lba n).dev = if devNo = 1 then 0xf0 else 0xe0 := by
  have hhigh : (lba >>> 24).toUInt8 = 0 := by
    apply UInt8.toNat_inj.mp
    rw [UInt32.toNat_toUInt8, UInt32.toNat_shiftRight, Nat.shiftRight_eq_div_pow]
    simp only [maxLba] at hlba
    simp only [UInt32.reduceToNat, Nat.reduceMod, UInt8.toNat_zero]
    omega
  simp only [selectedRegs, hhigh, devBit]
  split_ifs <;> rfl

theorem selected (devNo : UInt8) (hlba : lba.toNat ≤ maxLba) {n : UInt32} (hpos : 0 < n.toNat)
    (hle : n.toNat ≤ 256) :
    (selectedRegs devNo lba n.toUInt8).Selected (devNo == 1) lba.toNat n.toNat where
  usesLba := by
    rw [CommandBlock.usesLba, selectedRegs_dev hlba]
    split_ifs <;> rfl
  slave := by
    rw [CommandBlock.slave, selectedRegs_dev hlba]
    by_cases hdev : devNo = 1
    · rw [if_pos hdev, hdev]
      rfl
    · rw [if_neg hdev, beq_false_of_ne hdev]
      rfl
  lba := by
    have hdev : (selectedRegs devNo lba n.toUInt8).dev.toNat % 16 = 0 := by
      rw [selectedRegs_dev hlba]
      split_ifs <;> rfl
    have hmid : (lba >>> 8).toUInt8.toNat = lba.toNat / 0x100 % 256 := by
      rw [UInt32.toNat_toUInt8, UInt32.toNat_shiftRight, Nat.shiftRight_eq_div_pow]
      rfl
    have hhigh : (lba >>> 16).toUInt8.toNat = lba.toNat / 0x10000 % 256 := by
      rw [UInt32.toNat_toUInt8, UInt32.toNat_shiftRight, Nat.shiftRight_eq_div_pow]
      rfl
    have hlow : lba.toUInt8.toNat = lba.toNat % 256 := UInt32.toNat_toUInt8 lba
    rw [CommandBlock.lba, hdev]
    simp only [selectedRegs, hlow, hmid, hhigh]
    simp only [maxLba] at hlba
    omega
  count := toNat_toUInt8 hpos hle

/-! ### One command -/

variable {slave : Bool} {n m : Nat}

/-- What a read command of `n` sectors puts in the buffer. -/
theorem splice_dataIn (hsel : p.regs.Selected slave m n) (buf : Mem) (off : Nat) :
    buf.splice off (p.dataIn bus) (n * 512)
      = buf.splice off ((p.disk slave).drop (512 * m)) (n * 512) := by
  funext i
  by_cases hi : off ≤ i ∧ i < off + n * 512
  · rw [Mem.splice_in hi.1 hi.2, Mem.splice_in hi.1 hi.2, IdePorts.dataIn, hsel.slave, hsel.lba,
      hsel.count, if_pos ⟨hsel.usesLba, by omega⟩, Mem.drop_apply]
  · rw [Mem.splice_out (by omega), Mem.splice_out (by omega)]

/-- What a write command of `n` sectors leaves on the disks. -/
theorem dataOut_disk (hsel : p.regs.Selected slave m n) (data : Mem) :
    (p.dataOut data (n * 512)).disk
      = fun k => if k = slave then (p.disk k).splice (512 * m) data (n * 512) else p.disk k := by
  rw [IdePorts.dataOut, if_pos hsel.usesLba, hsel.slave, hsel.lba, hsel.count, min_self]

/-! ### The rounds -/

theorem secsOp_toNat (hcnt : secCnt.toNat ≤ maxLba + 1) (hlt : secsDone < secCnt) :
    (secsOp secCnt secsDone).toNat = ZyOs.secsOp secCnt.toNat secsDone.toNat := by
  simp only [maxLba] at hcnt
  have hlt : secsDone.toNat < secCnt.toNat := hlt
  have hadd : (secsDone + 256).toNat = secsDone.toNat + 256 := by
    rw [UInt32.toNat_add, show (256 : UInt32).toNat = 256 from rfl, Nat.mod_eq_of_lt (by omega)]
  have hsub : (secCnt - secsDone).toNat = secCnt.toNat - secsDone.toNat :=
    UInt32.toNat_sub_of_le _ _ (UInt32.le_of_lt hlt)
  have hle : secsDone + 256 ≤ secCnt ↔ secsDone.toNat + 256 ≤ secCnt.toNat := by
    rw [UInt32.le_iff_toNat_le, hadd]
  unfold secsOp ZyOs.secsOp
  by_cases hfull : secsDone + 256 ≤ secCnt
  · rw [if_pos hfull, if_pos (hle.mp hfull)]
    rfl
  · rw [if_neg hfull, if_neg (fun hc => hfull (hle.mpr hc)), hsub]

/-- What a round works with, in numbers. -/
structure Round (lba secCnt secsDone : UInt32) (n : Nat) : Prop where
  pos : 0 < n
  le : n ≤ 256
  last : secsDone.toNat + n ≤ secCnt.toNat
  op : (secsOp secCnt secsDone).toNat = n
  start : (lba + secsDone).toNat = lba.toNat + secsDone.toNat
  inside : (lba + secsDone).toNat ≤ maxLba
  off : (secsDone * 512).toNat = secsDone.toNat * 512
  next : (secsDone + secsOp secCnt secsDone).toNat = secsDone.toNat + n

theorem round (hend : lba.toNat + secCnt.toNat ≤ maxLba + 1) (hlt : secsDone < secCnt) :
    Round lba secCnt secsDone (ZyOs.secsOp secCnt.toNat secsDone.toNat) := by
  have hop := secsOp_toNat (by omega) hlt
  have hlt' : secsDone.toNat < secCnt.toNat := hlt
  have hpos := secsOp_pos hlt'
  have hlast := secsOp_le hlt'
  have hmax : maxLba = 163839 := rfl
  have hle : ZyOs.secsOp secCnt.toNat secsDone.toNat ≤ 256 := by
    unfold ZyOs.secsOp
    split_ifs <;> omega
  have hlba : (lba + secsDone).toNat = lba.toNat + secsDone.toNat := by
    rw [UInt32.toNat_add, Nat.mod_eq_of_lt (by omega)]
  refine ⟨hpos, hle, hlast, hop, hlba, by omega, ?_, ?_⟩
  · rw [UInt32.toNat_mul, show (512 : UInt32).toNat = 512 from rfl, Nat.mod_eq_of_lt (by omega)]
  · rw [UInt32.toNat_add, hop, Nat.mod_eq_of_lt (by omega)]

/-! ### Reading -/

theorem ideReadLoop_run (devNo : UInt8) (buf bus : Mem)
    (hend : lba.toNat + secCnt.toNat ≤ maxLba + 1) :
    ∀ (fuel : Nat) (secsDone : UInt32) (p : IdePorts) (m : Mem),
      secsDone.toNat ≤ secCnt.toNat → secCnt.toNat ≤ secsDone.toNat + fuel →
      m = buf.splice 0 ((p.disk (devNo == 1)).drop (512 * lba.toNat)) (secsDone.toNat * 512) →
      ∃ p', ideReadLoop devNo lba secCnt bus fuel secsDone m p
          = .ok (buf.splice 0 ((p.disk (devNo == 1)).drop (512 * lba.toNat)) (secCnt.toNat * 512),
            p') ∧
        p'.disk = p.disk := by
  intro fuel
  induction fuel with
  | zero =>
      intro secsDone p m hle hfuel hm
      have hdone : secsDone.toNat = secCnt.toNat := by omega
      refine ⟨p, ?_, rfl⟩
      rw [ideReadLoop, hm, hdone]
      rfl
  | succ fuel ih =>
      intro secsDone p m hle hfuel hm
      by_cases hlt : secsDone < secCnt
      · have hr := round hend hlt
        set n := ZyOs.secsOp secCnt.toNat secsDone.toNat
        have hpos := hr.pos
        have hlast := hr.last
        have hsel := selected devNo hr.inside (hr.op ▸ hr.pos) (hr.op ▸ hr.le)
        rw [hr.op, hr.start] at hsel
        set q : IdePorts := { p with
          regs := selectedRegs devNo (lba + secsDone) (secsOp secCnt secsDone).toUInt8 }
        have hbuf : m.splice (secsDone * 512).toNat (q.dataIn bus)
              (2 * (sizeInByte (secsOp secCnt secsDone).toUInt8 / 2))
            = buf.splice 0 ((q.disk (devNo == 1)).drop (512 * lba.toNat))
              ((secsDone + secsOp secCnt secsDone).toNat * 512) := by
          rw [sizeInByte_eq (hr.op ▸ hr.pos) (hr.op ▸ hr.le), hr.op,
            splice_dataIn (p := q) hsel, hr.off, hr.next, hm, Nat.add_mul,
            ← Mem.splice_append buf _ 0 (secsDone.toNat * 512), Mem.drop_drop]
          congr 2
          · omega
          · omega
        obtain ⟨p', hrun, hdisk⟩ := ih (secsDone + secsOp secCnt secsDone) q _
          (by rw [hr.next]; exact hr.last) (by rw [hr.next]; omega) hbuf
        refine ⟨p', ?_, hdisk⟩
        unfold ideReadLoop
        rw [if_pos hlt]
        refine (Prog.bind_of_run (selectSector_run hr.inside _)).trans ?_
        exact hrun
      · have hdone : secsDone.toNat = secCnt.toNat :=
          Nat.le_antisymm hle (UInt32.le_iff_toNat_le.mp (UInt32.not_lt.mp hlt))
        refine ⟨p, ?_, rfl⟩
        unfold ideReadLoop
        rw [if_neg hlt, hm, hdone]
        rfl

/-- **What a read through the ports puts in the buffer.** -/
theorem ideRead_run (devNo : UInt8) (hpos : 1 ≤ secCnt.toNat)
    (hend : lba.toNat + secCnt.toNat ≤ maxLba + 1) (buf bus : Mem) (p : IdePorts) :
    ∃ p', ideRead devNo lba buf secCnt bus p
        = .ok (buf.splice 0 ((p.disk (devNo == 1)).drop (512 * lba.toNat)) (secCnt.toNat * 512),
          p') ∧
      p'.disk = p.disk := by
  have hcnt : 0 < secCnt := UInt32.lt_iff_toNat_lt.mpr hpos
  have hlba : lba.toNat ≤ maxLba := by omega
  obtain ⟨p', hrun, hdisk⟩ := ideReadLoop_run devNo buf bus hend
    secCnt.toNat 0
    { p with regs := { p.regs with dev := bitDevMbs ||| bitDevLba ||| devBit devNo } }
    buf (Nat.zero_le _) (by simp) (by simp)
  refine ⟨p', ?_, hdisk⟩
  unfold ideRead
  rw [ASSERT_pos hlba, ASSERT_pos hcnt]
  exact hrun

/-! ### Writing -/

/-- The disks with `k` bytes of `buf` written to one of them. -/
def written (disk : Bool → Disk) (slave : Bool) (lba : Nat) (buf : Mem) (k : Nat) : Bool → Disk :=
  fun i => if i = slave then (disk i).splice (512 * lba) buf k else disk i

theorem ideWriteLoop_run (devNo : UInt8) (buf : Mem) (disk : Bool → Disk)
    (hend : lba.toNat + secCnt.toNat ≤ maxLba + 1) :
    ∀ (fuel : Nat) (secsDone : UInt32) (p : IdePorts),
      secsDone.toNat ≤ secCnt.toNat → secCnt.toNat ≤ secsDone.toNat + fuel →
      p.disk = written disk (devNo == 1) lba.toNat buf (secsDone.toNat * 512) →
      ∃ p', ideWriteLoop devNo lba buf secCnt fuel secsDone p = .ok ((), p') ∧
        p'.disk = written disk (devNo == 1) lba.toNat buf (secCnt.toNat * 512) := by
  intro fuel
  induction fuel with
  | zero =>
      intro secsDone p hle hfuel hp
      have hdone : secsDone.toNat = secCnt.toNat := by omega
      exact ⟨p, rfl, hdone ▸ hp⟩
  | succ fuel ih =>
      intro secsDone p hle hfuel hp
      by_cases hlt : secsDone < secCnt
      · have hr := round hend hlt
        set n := ZyOs.secsOp secCnt.toNat secsDone.toNat
        have hpos := hr.pos
        have hlast := hr.last
        have hsel := selected devNo hr.inside (hr.op ▸ hr.pos) (hr.op ▸ hr.le)
        rw [hr.op, hr.start] at hsel
        set q : IdePorts := { p with
          regs := selectedRegs devNo (lba + secsDone) (secsOp secCnt secsDone).toUInt8 }
        have hdisk : (q.dataOut (buf.drop (secsDone * 512).toNat)
              (2 * (sizeInByte (secsOp secCnt secsDone).toUInt8 / 2))).disk
            = written disk (devNo == 1) lba.toNat buf
              ((secsDone + secsOp secCnt secsDone).toNat * 512) := by
          rw [sizeInByte_eq (hr.op ▸ hr.pos) (hr.op ▸ hr.le), hr.op, dataOut_disk (p := q) hsel,
            hr.off, hr.next]
          funext k
          show (if k = (devNo == 1) then _ else p.disk k) = _
          rw [hp]
          by_cases hk : k = (devNo == 1)
          · simp only [written, if_pos hk]
            rw [Nat.add_mul, ← Mem.splice_append (disk k) _ (512 * lba.toNat)]
            congr 1
            omega
          · simp only [written, if_neg hk]
        obtain ⟨p', hrun, hdone⟩ := ih (secsDone + secsOp secCnt secsDone) _
          (by rw [hr.next]; exact hr.last) (by rw [hr.next]; omega) hdisk
        refine ⟨p', ?_, hdone⟩
        unfold ideWriteLoop
        rw [if_pos hlt]
        refine (Prog.bind_of_run (selectSector_run hr.inside _)).trans ?_
        exact hrun
      · have hdone : secsDone.toNat = secCnt.toNat :=
          Nat.le_antisymm hle (UInt32.le_iff_toNat_le.mp (UInt32.not_lt.mp hlt))
        refine ⟨p, ?_, hdone ▸ hp⟩
        unfold ideWriteLoop
        rw [if_neg hlt]
        rfl

/-- **What a write through the ports leaves on the disks.** -/
theorem ideWrite_run (devNo : UInt8) (hpos : 1 ≤ secCnt.toNat)
    (hend : lba.toNat + secCnt.toNat ≤ maxLba + 1) (buf : Mem) (p : IdePorts) :
    ∃ p', ideWrite devNo lba buf secCnt p = .ok ((), p') ∧
      p'.disk = written p.disk (devNo == 1) lba.toNat buf (secCnt.toNat * 512) := by
  have hcnt : 0 < secCnt := UInt32.lt_iff_toNat_lt.mpr hpos
  have hlba : lba.toNat ≤ maxLba := by omega
  obtain ⟨p', hrun, hdisk⟩ := ideWriteLoop_run devNo buf p.disk hend
    secCnt.toNat 0
    { p with regs := { p.regs with dev := bitDevMbs ||| bitDevLba ||| devBit devNo } }
    (Nat.zero_le _) (by simp) (by funext k; simp [written])
  refine ⟨p', ?_, hdisk⟩
  unfold ideWrite
  rw [ASSERT_pos hlba, ASSERT_pos hcnt]
  exact hrun

/-! ### Against `Kernel/Ide` -/

/-- The calls of `Kernel/Ide` are those at the ports of a channel. -/
theorem ideRead_ports (hpos : 1 ≤ secCnt.toNat) (hend : lba.toNat + secCnt.toNat ≤ maxLba + 1)
    (buf bus : Mem) (p : IdePorts) :
    ∃ r p', ideRead devNo lba buf secCnt bus p = .ok (r, p') ∧ p'.disk = p.disk ∧
      ZyOs.ideRead (p.disk (devNo == 1)) lba.toNat buf secCnt.toNat = .ok r := by
  obtain ⟨p', hrun, hdisk⟩ := ideRead_run devNo hpos hend buf bus p
  exact ⟨_, p', hrun, hdisk, ideRead_returns _ buf hpos hend⟩

theorem ideWrite_ports (hpos : 1 ≤ secCnt.toNat) (hend : lba.toNat + secCnt.toNat ≤ maxLba + 1)
    (buf : Mem) (p : IdePorts) :
    ∃ p', ideWrite devNo lba buf secCnt p = .ok ((), p') ∧
      ZyOs.ideWrite (p.disk (devNo == 1)) lba.toNat buf secCnt.toNat
        = .ok (p'.disk (devNo == 1)) ∧
      p'.disk (!(devNo == 1)) = p.disk (!(devNo == 1)) := by
  obtain ⟨p', hrun, hdisk⟩ := ideWrite_run devNo hpos hend buf p
  refine ⟨p', hrun, ?_, ?_⟩
  · rw [ideWrite_returns _ buf hpos hend, hdisk, written, if_pos rfl]
  · rw [hdisk, written, if_neg (by simp)]

end Ports

/-! ### Sectors -/

/-- Sector `k` of one memory is sector `k'` of another. -/
def SameSector (m : Mem) (k : Nat) (m' : Mem) (k' : Nat) : Prop :=
  ∀ i < 512, m (512 * k + i) = m' (512 * k' + i)

namespace SameSector

variable {m m' src : Mem} {lba n k j : Nat}

theorem splice_in (m src : Mem) (lba : Nat) (h : k < n) :
    SameSector (m.splice (512 * lba) src (n * 512)) (lba + k) src k := by
  intro i hi
  rw [Mem.splice_in (by omega) (by omega)]
  congr 1
  omega

theorem splice_out (h : k < lba ∨ lba + n ≤ k) :
    SameSector (m.splice (512 * lba) src (n * 512)) k m k := by
  intro i hi
  rw [Mem.splice_out (by omega)]

theorem drop (h : SameSector m j (m'.drop (512 * lba)) k) :
    SameSector m j m' (lba + k) := by
  intro i hi
  rw [h i hi, Mem.drop_apply]
  congr 1
  omega

end SameSector

/-- **Transfers are split without loss.**  A write stores the buffer's sectors one behind the
other and touches nothing else, a read fills the buffer's sectors and nothing behind them, and
what was written is read again. -/
theorem transfer_split (devNo : UInt8) (lba secCnt : UInt32) (hpos : 1 ≤ secCnt.toNat)
    (hend : lba.toNat + secCnt.toNat - 1 ≤ maxLba) (buf bus : Mem) (p : IdePorts) :
    (∃ p', Ports.ideWrite devNo lba buf secCnt p = .ok ((), p') ∧
      (∀ k < secCnt.toNat, SameSector (p'.disk (devNo == 1)) (lba.toNat + k) buf k) ∧
      (∀ l, l < lba.toNat ∨ lba.toNat + secCnt.toNat ≤ l →
        SameSector (p'.disk (devNo == 1)) l (p.disk (devNo == 1)) l) ∧
      p'.disk (!(devNo == 1)) = p.disk (!(devNo == 1)) ∧
      ∀ buf', ∃ r p'', Ports.ideRead devNo lba buf' secCnt bus p' = .ok (r, p'') ∧
        ∀ k < secCnt.toNat, SameSector r k buf k) ∧
    ∃ r p', Ports.ideRead devNo lba buf secCnt bus p = .ok (r, p') ∧ p'.disk = p.disk ∧
      (∀ k < secCnt.toNat, SameSector r k (p.disk (devNo == 1)) (lba.toNat + k)) ∧
      ∀ i, 512 * secCnt.toNat ≤ i → r i = buf i := by
  have hend' : lba.toNat + secCnt.toNat ≤ maxLba + 1 := by omega
  refine ⟨?_, ?_⟩
  · obtain ⟨p', hrun, hdisk⟩ := Ports.ideWrite_run devNo hpos hend' buf p
    have hself : p'.disk (devNo == 1)
        = (p.disk (devNo == 1)).splice (512 * lba.toNat) buf (secCnt.toNat * 512) := by
      rw [hdisk, Ports.written, if_pos rfl]
    have hin : ∀ k < secCnt.toNat, SameSector (p'.disk (devNo == 1)) (lba.toNat + k) buf k := by
      intro k hk
      rw [hself]
      exact SameSector.splice_in _ _ _ hk
    refine ⟨p', hrun, hin, fun l hl => ?_, ?_, fun buf' => ?_⟩
    · rw [hself]
      exact SameSector.splice_out hl
    · rw [hdisk, Ports.written, if_neg (by simp)]
    · obtain ⟨p'', hread, -⟩ := Ports.ideRead_run devNo hpos hend' buf' bus p'
      refine ⟨_, p'', hread, fun k hk i hi => ?_⟩
      have hfilled := SameSector.splice_in buf'
        ((p'.disk (devNo == 1)).drop (512 * lba.toNat)) 0 hk
      rw [Nat.zero_add] at hfilled
      rw [hfilled.drop i hi, hin k hk i hi]
  · obtain ⟨p', hrun, hdisk⟩ := Ports.ideRead_run devNo hpos hend' buf bus p
    refine ⟨_, p', hrun, hdisk, fun k hk => ?_, fun i hi => Mem.splice_out (by omega)⟩
    have hfilled := SameSector.splice_in buf
      ((p.disk (devNo == 1)).drop (512 * lba.toNat)) 0 hk
    rw [Nat.zero_add] at hfilled
    exact hfilled.drop

/-- Two commands, the first with a count byte of 0. -/
theorem transfer_split_257 : ∃ p', Ports.ideWrite 0 100 (fun i => UInt8.ofNat (i / 512)) 257
      ⟨⟨0, 0, 0, 0, 0⟩, fun _ _ => 7⟩ = .ok ((), p') ∧
    SameSector (p'.disk false) 356 (fun i => UInt8.ofNat (i / 512)) 256 := by
  obtain ⟨⟨p', hrun, hin, -⟩, -⟩ := transfer_split 0 100 257 (by decide) (by decide)
    (fun i => UInt8.ofNat (i / 512)) (fun _ => 0) ⟨⟨0, 0, 0, 0, 0⟩, fun _ _ => 7⟩
  exact ⟨p', hrun, hin 256 (by decide)⟩

end ZyOs
