/-
Which partitions `filesys_init` looks at.

The index over the partitions of a disk is set to zero once, in front of all loops.  The slave
disk of the first channel is gone through from the first primary to the last logical partition;
for every disk behind it the index is at its end already, and nothing is done.
-/
import ZyOs.Kernel.FilesysInit
import ZyOs.Proofs.Format

namespace ZyOs

open Library Prog

/-! ### Partitions and what is done to them -/

/-- Every place for a partition, in the order of `part_idx`. -/
def partSlots : List PartSlot :=
  [.prim 0, .prim 1, .prim 2, .prim 3, .logic 0, .logic 1, .logic 2, .logic 3, .logic 4, .logic 5,
    .logic 6, .logic 7]

/-- What is in a slot. -/
def DiskParts.info (hd : DiskParts) : PartSlot → PartInfo
  | .prim idx => hd.primParts idx
  | .logic idx => hd.logicParts idx

/-- There is a partition in the slot. -/
def DiskParts.Present (hd : DiskParts) (part : PartSlot) : Prop :=
  part ∈ partSlots ∧ (hd.info part).secCnt ≠ 0

namespace ScanEvent

/-- The disk of the partition. -/
def no : ScanEvent → Nat
  | read no _ _ => no
  | format no _ => no

/-- Where the partition is on it. -/
def part : ScanEvent → PartSlot
  | read _ part _ => part
  | format _ part => part

end ScanEvent

/-- Every partition on a slave disk had its superblock read, those with a wrong magic and no
others were formatted, and nothing else was touched. -/
structure Served (parts : Nat → DiskParts) (channelCnt : Nat) (log : List ScanEvent) : Prop where
  read : ∀ channelNo part, channelNo < channelCnt → (parts (channelNo * 2 + 1)).Present part →
    ∃ magic, ScanEvent.read (channelNo * 2 + 1) part magic ∈ log
  formatted : ∀ channelNo part, channelNo < channelCnt →
    (parts (channelNo * 2 + 1)).Present part →
    (ScanEvent.format (channelNo * 2 + 1) part ∈ log ↔
      ∃ magic, magic ≠ superBlockMagic ∧ ScanEvent.read (channelNo * 2 + 1) part magic ∈ log)
  untouched : ∀ e ∈ log, (parts e.no).Present e.part

/-- What is done to the partitions in these slots of a disk, one after the other. -/
inductive Rounds (hd : DiskParts) (no : Nat) : List PartSlot → List ScanEvent → Prop where
  | nil : Rounds hd no [] []
  | absent {part : PartSlot} {rest : List PartSlot} {log : List ScanEvent}
      (hnone : (hd.info part).secCnt = 0) (hrest : Rounds hd no rest log) :
      Rounds hd no (part :: rest) log
  | kept {part : PartSlot} {rest : List PartSlot} {log : List ScanEvent}
      (hthere : (hd.info part).secCnt ≠ 0) (hrest : Rounds hd no rest log) :
      Rounds hd no (part :: rest) (.read no part superBlockMagic :: log)
  | formatted {part : PartSlot} {rest : List PartSlot} {log : List ScanEvent} {magic : Nat}
      (hthere : (hd.info part).secCnt ≠ 0) (hmagic : magic ≠ superBlockMagic)
      (hrest : Rounds hd no rest log) :
      Rounds hd no (part :: rest) (.read no part magic :: .format no part :: log)

namespace Rounds

variable {hd : DiskParts} {no : Nat} {slots : List PartSlot} {log : List ScanEvent}

/-- Only partitions that are there are touched. -/
theorem touched (h : Rounds hd no slots log) :
    ∀ e ∈ log, e.no = no ∧ e.part ∈ slots ∧ (hd.info e.part).secCnt ≠ 0 := by
  induction h with
  | nil => exact fun e he => absurd he List.not_mem_nil
  | absent _ _ ih =>
      intro e he
      obtain ⟨hno, hmem, hthere⟩ := ih e he
      exact ⟨hno, List.mem_cons_of_mem _ hmem, hthere⟩
  | kept hthere _ ih =>
      intro e he
      rcases List.mem_cons.mp he with rfl | he
      · exact ⟨rfl, List.mem_cons_self, hthere⟩
      · obtain ⟨hno, hmem, hpart⟩ := ih e he
        exact ⟨hno, List.mem_cons_of_mem _ hmem, hpart⟩
  | formatted hthere _ _ ih =>
      intro e he
      rcases List.mem_cons.mp he with rfl | he
      · exact ⟨rfl, List.mem_cons_self, hthere⟩
      rcases List.mem_cons.mp he with rfl | he
      · exact ⟨rfl, List.mem_cons_self, hthere⟩
      · obtain ⟨hno, hmem, hpart⟩ := ih e he
        exact ⟨hno, List.mem_cons_of_mem _ hmem, hpart⟩

/-- Every one that is there has its superblock read. -/
theorem read (h : Rounds hd no slots log) :
    ∀ part ∈ slots, (hd.info part).secCnt ≠ 0 → ∃ magic, ScanEvent.read no part magic ∈ log := by
  induction h with
  | nil => exact fun part hmem => absurd hmem List.not_mem_nil
  | absent hnone _ ih =>
      intro part hmem hthere
      rcases List.mem_cons.mp hmem with rfl | hmem
      · exact absurd hnone hthere
      · exact ih part hmem hthere
  | kept _ _ ih =>
      intro part hmem hthere
      rcases List.mem_cons.mp hmem with rfl | hmem
      · exact ⟨_, List.mem_cons_self⟩
      · obtain ⟨magic, hread⟩ := ih part hmem hthere
        exact ⟨magic, List.mem_cons_of_mem _ hread⟩
  | formatted _ _ _ ih =>
      intro part hmem hthere
      rcases List.mem_cons.mp hmem with rfl | hmem
      · exact ⟨_, List.mem_cons_self⟩
      · obtain ⟨magic, hread⟩ := ih part hmem hthere
        exact ⟨magic, List.mem_cons_of_mem _ (List.mem_cons_of_mem _ hread)⟩

/-- Formatted are those whose superblock had a wrong magic. -/
theorem format_iff (h : Rounds hd no slots log) (part : PartSlot) :
    ScanEvent.format no part ∈ log ↔
      ∃ magic, magic ≠ superBlockMagic ∧ ScanEvent.read no part magic ∈ log := by
  induction h with
  | nil => simp
  | absent _ _ ih => exact ih
  | kept _ _ ih =>
      rw [List.mem_cons, ih]
      constructor
      · rintro (h | ⟨magic, hmagic, hread⟩)
        · exact absurd h (by simp)
        · exact ⟨magic, hmagic, List.mem_cons_of_mem _ hread⟩
      · rintro ⟨magic, hmagic, hread⟩
        rcases List.mem_cons.mp hread with heq | hread
        · exact absurd (ScanEvent.read.inj heq).2.2 hmagic
        · exact .inr ⟨magic, hmagic, hread⟩
  | @formatted slot rest log wrong _ hwrong _ ih =>
      rw [List.mem_cons, List.mem_cons, ih]
      constructor
      · rintro (h | h | ⟨magic, hmagic, hread⟩)
        · exact absurd h (by simp)
        · obtain ⟨-, rfl⟩ := ScanEvent.format.inj h
          exact ⟨wrong, hwrong, List.mem_cons_self⟩
        · exact ⟨magic, hmagic, List.mem_cons_of_mem _ (List.mem_cons_of_mem _ hread)⟩
      · rintro ⟨magic, hmagic, hread⟩
        rcases List.mem_cons.mp hread with heq | hread
        · obtain ⟨-, rfl, -⟩ := ScanEvent.read.inj heq
          exact .inr (.inl rfl)
        · rcases List.mem_cons.mp hread with heq | hread
          · exact absurd heq (by simp)
          · exact .inr (.inr ⟨magic, hmagic, hread⟩)

/-- Slots gone through one after the other. -/
theorem append {slots' : List PartSlot} {log' : List ScanEvent} (h : Rounds hd no slots log)
    (h' : Rounds hd no slots' log') : Rounds hd no (slots ++ slots') (log ++ log') := by
  induction h with
  | nil => exact h'
  | absent hnone _ ih => exact .absent hnone ih
  | kept hthere _ ih => exact .kept hthere ih
  | formatted hthere hmagic _ ih => exact .formatted hthere hmagic ih

end Rounds

/-! ### The loops -/

variable {E : Halt → Prop} {format : PartInfo → Disk → Kernel Disk} {parts : Nat → DiskParts}
  {s s' : FsScan} {no partIdx channelCnt : Nat} {part : PartSlot}

/-- Reading the superblocks of these partitions and formatting them stops with `E` if at all. -/
def StopsWith (E : Halt → Prop) (format : PartInfo → Disk → Kernel Disk) (hd : DiskParts) : Prop :=
  ∀ part, hd.Present part → ∀ d e,
    (ideRead d ((hd.info part).startLba + 1).toNat zeroMem 1 = .error e → E e) ∧
    (format (hd.info part) d = .error e → E e)

/-- What went through these slots goes at the end of the log. -/
def LogsRounds (hd : DiskParts) (no : Nat) (slots : List PartSlot) (s s' : FsScan) : Prop :=
  ∃ log, s'.log = s.log ++ log ∧ Rounds hd no slots log

theorem wp_probePart {hd : DiskParts} (hstop : StopsWith E format hd) (hthere : hd.Present part) :
    wp E (probePart format no part (hd.info part))
      (fun _ s' => LogsRounds hd no [part] s s') s := by
  unfold probePart
  refine wp_get_bind (wp_bind (wp_lift (fun sbBuf _ => ?_)
    fun e herr => (hstop part hthere _ e).1 herr))
  refine wp_bind (wp_set (wp_ite (fun hmagic => ?_) fun hmagic => ?_))
  · refine wp_pure ⟨[.read no part (SuperBlock.ofMem sbBuf).magic], rfl, ?_⟩
    rw [hmagic]
    exact .kept hthere.2 .nil
  · refine wp_bind (wp_lift (fun d _ => wp_modify ?_) fun e herr => (hstop part hthere _ e).2 herr)
    refine ⟨_, List.append_assoc _ _ _, ?_⟩
    exact .formatted hthere.2 hmagic .nil

/-- The pointer when `part_idx` has come this far; at the first logical partition it is set. -/
def AtSlot (partIdx : Nat) (part : PartSlot) : Prop := partIdx = 4 ∨ partSlots[partIdx]? = some part

/-- The partition that a round is about. -/
theorem AtSlot.deref (h : AtSlot partIdx part) (hlt : partIdx < 12) :
    ∃ slot, (if partIdx = 4 then PartSlot.logic 0 else part) = slot ∧ slot ∈ partSlots ∧
      partSlots.drop partIdx = slot :: partSlots.drop (partIdx + 1) ∧
      (∀ hd : DiskParts, hd.deref slot = .ok (hd.info slot)) ∧
      (partIdx + 1 < 12 → AtSlot (partIdx + 1) slot.next) := by
  obtain rfl | hslot := h
  · exact ⟨.logic 0, rfl, by decide, rfl, fun _ => rfl, fun _ => .inr rfl⟩
  · interval_cases partIdx <;> cases hslot <;>
      exact ⟨_, rfl, by decide, rfl, fun _ => rfl, by simp [AtSlot, partSlots, PartSlot.next]⟩

/-- From `part_idx` on the partitions of the disk are gone through, and `part_idx` is at the end
then. -/
theorem wp_scanPartIdx (hstop : StopsWith E format (parts no)) :
    ∀ (n partIdx : Nat) (part : PartSlot) (s : FsScan), partIdx + n = 12 →
      (partIdx < 12 → AtSlot partIdx part) →
      wp E (scanPartIdx format parts no partIdx part)
        (fun r s' => r = 12 ∧ LogsRounds (parts no) no (partSlots.drop partIdx) s s') s := by
  intro n
  induction n with
  | zero =>
      intro partIdx part s hn _
      obtain rfl : partIdx = 12 := hn
      rw [scanPartIdx, if_neg (by decide)]
      exact wp_pure ⟨rfl, [], (List.append_nil _).symm, .nil⟩
  | succ n ih =>
      intro partIdx part s hn hat
      have hlt : partIdx < 12 := by omega
      obtain ⟨slot, hslot, hmem, hdrop, hderef, hnext⟩ := (hat hlt).deref hlt
      rw [scanPartIdx, if_pos hlt, hslot, hdrop]
      show wp E (Prog.lift ((parts no).deref slot) >>= _) _ s
      rw [hderef]
      refine wp_bind (wp_lift (fun p hp => ?_) fun e herr => nomatch herr)
      obtain rfl : (parts no).info slot = p := by injection hp
      -- the rounds that follow, after this one
      have hrest : ∀ log s₁, s₁.log = s.log ++ log → Rounds (parts no) no [slot] log →
          wp E (scanPartIdx format parts no (partIdx + 1) slot.next) (fun r s' => r = 12 ∧
            LogsRounds (parts no) no (slot :: partSlots.drop (partIdx + 1)) s s') s₁ := by
        intro log s₁ hlog hround
        refine wp_mono (ih (partIdx + 1) slot.next s₁ (by omega) hnext) ?_
        rintro r s' ⟨hr, rest, hlog', hrounds⟩
        exact ⟨hr, log ++ rest, by rw [hlog', hlog, List.append_assoc], hround.append hrounds⟩
      by_cases hnone : ((parts no).info slot).secCnt = 0
      · rw [if_neg (not_not_intro hnone)]
        exact wp_bind (wp_pure (hrest [] s (List.append_nil _).symm (.absent hnone .nil)))
      · rw [if_pos hnone]
        refine wp_bind (wp_mono (wp_probePart hstop ⟨hmem, hnone⟩) ?_)
        rintro - s₁ ⟨log, hlog, hround⟩
        exact hrest log s₁ hlog hround

/-- A channel: its slave disk is gone through from `part_idx` on. -/
theorem wp_scanDevNo {channelNo : Nat} (hstop : StopsWith E format (parts (channelNo * 2 + 1))) :
    wp E (scanDevNo format parts channelNo 2 0 0) (fun r s' => r = 12 ∧
      LogsRounds (parts (channelNo * 2 + 1)) (channelNo * 2 + 1) partSlots s s') s := by
  simp only [scanDevNo, if_pos, Nat.zero_add, Nat.one_ne_zero, if_false, bind_pure]
  exact wp_scanPartIdx hstop 12 0 (.prim 0) s rfl fun _ => .inr rfl

/-- Once `part_idx` is at its end, no channel is looked at. -/
theorem scanChannelNo_end (n : Nat) : ∀ channelNo s,
    scanChannelNo format parts n channelNo 12 s = .ok (12, s) := by
  induction n with
  | zero => exact fun _ _ => rfl
  | succ n ih =>
      intro channelNo s
      have hdev : scanDevNo format parts channelNo 2 0 12 s = .ok (12, s) := by
        simp only [scanDevNo, if_pos, Nat.zero_add, Nat.one_ne_zero, if_false, bind_pure]
        rw [scanPartIdx, if_neg (by decide)]
        rfl
      rw [scanChannelNo, bind_of_run hdev]
      exact ih _ s

/-- **Only the slave disk of the first channel is gone through.** -/
theorem wp_filesysScan (hstop : StopsWith E format (parts 1)) :
    wp E (filesysScan format parts channelCnt) (fun _ s' =>
      if channelCnt = 0 then s' = s else LogsRounds (parts 1) 1 partSlots s s') s := by
  cases channelCnt with
  | zero => exact rfl
  | succ n =>
      rw [filesysScan, scanChannelNo]
      refine wp_bind (wp_bind (wp_mono (wp_scanDevNo (by simpa using hstop)) ?_))
      rintro r s₁ ⟨rfl, hlog⟩
      refine wp_of_run (scanChannelNo_end n _ s₁) (wp_pure ?_)
      rw [if_neg (Nat.succ_ne_zero n)]
      simpa using hlog

/-! ### What is left out -/

/-- No partition is on a slave disk behind the first one. -/
def OnlyFirstSlave (parts : Nat → DiskParts) (channelCnt : Nat) : Prop :=
  ∀ channelNo part, 0 < channelNo → channelNo < channelCnt →
    ¬ (parts (channelNo * 2 + 1)).Present part

/-- What went through the first slave disk serves the partitions on it and no others. -/
theorem Rounds.served_iff {log : List ScanEvent} (h : Rounds (parts 1) 1 partSlots log) :
    Served parts channelCnt log ↔ OnlyFirstSlave parts channelCnt := by
  constructor
  · intro hserved channelNo part hpos hlt hthere
    obtain ⟨magic, hread⟩ := hserved.read channelNo part hlt hthere
    have hno : channelNo * 2 + 1 = 1 := (h.touched _ hread).1
    omega
  · intro honly
    have hfirst : ∀ channelNo part, channelNo < channelCnt →
        (parts (channelNo * 2 + 1)).Present part → channelNo = 0 := by
      intro channelNo part hlt hthere
      by_contra hne
      exact honly channelNo part (Nat.pos_of_ne_zero hne) hlt hthere
    refine ⟨fun channelNo part hlt hthere => ?_, fun channelNo part hlt hthere => ?_, ?_⟩
    · obtain rfl := hfirst channelNo part hlt hthere
      exact h.read part hthere.1 hthere.2
    · obtain rfl := hfirst channelNo part hlt hthere
      exact h.format_iff part
    · intro e he
      obtain ⟨hno, hmem, hthere⟩ := h.touched e he
      rw [hno]
      exact ⟨hmem, hthere⟩

theorem served_nil : Served parts 0 [] :=
  ⟨fun _ _ hlt => absurd hlt (Nat.not_lt_zero _), fun _ _ hlt => absurd hlt (Nat.not_lt_zero _),
    fun _ he => absurd he List.not_mem_nil⟩

/-- The globals when the loops begin. -/
def FsScan.start (disks : Nat → Disk) : FsScan := ⟨disks, zeroMem, []⟩

/-- `format` is `partition_format` where sector numbers have 32 bits. -/
def IsPartitionFormat (format : PartInfo → Disk → Kernel Disk) (pad : Mem) : Prop :=
  ∀ (p : PartInfo) (h : p.startLba.toNat + p.secCnt.toNat < 2 ^ 32),
    format p = partitionFormat ⟨p.startLba.toNat, p.secCnt.toNat, h⟩ pad

/-- A partition that is large enough to be formatted, and on the drive. -/
def PartInfo.OnDrive (p : PartInfo) : Prop :=
  613 ≤ p.secCnt.toNat ∧ p.startLba.toNat + p.secCnt.toNat ≤ maxLba + 1

theorem PartInfo.OnDrive.stopsNot {p : PartInfo} {pad : Mem} {d : Disk} {e : Halt}
    (h : p.OnDrive) (hformat : IsPartitionFormat format pad) :
    ideRead d (p.startLba + 1).toNat zeroMem 1 ≠ .error e ∧ format p d ≠ .error e := by
  obtain ⟨hmin, hmax⟩ := h
  have hdrive : maxLba = 163839 := rfl
  constructor
  · have hlba : (p.startLba + 1).toNat = p.startLba.toNat + 1 := by
      rw [UInt32.toNat_add]
      exact Nat.mod_eq_of_lt (show p.startLba.toNat + 1 < 2 ^ 32 by omega)
    rw [hlba, ideRead_returns d zeroMem (by decide) (by omega)]
    exact nofun
  · rw [hformat p (by omega)]
    obtain ⟨d', hd'⟩ := partitionFormat_returns ⟨p.startLba.toNat, p.secCnt.toNat,
      by omega⟩ pad d hmin hmax
    rw [hd']
    exact nofun

theorem filesysScan_returns {pad : Mem} {disks : Nat → Disk}
    (hformat : IsPartitionFormat format pad)
    (hdrive : ∀ part, (parts 1).Present part → ((parts 1).info part).OnDrive) :
    ∃ s', filesysScan format parts channelCnt (.start disks) = .ok ((), s') := by
  have hstop : StopsWith (fun _ => False) format (parts 1) := by
    intro part hthere d e
    obtain ⟨hread, hwrite⟩ := (hdrive part hthere).stopsNot (d := d) (e := e) hformat
    exact ⟨hread, hwrite⟩
  obtain ⟨⟨_, s'⟩, hrun⟩ := (wp_filesysScan hstop).returns
  exact ⟨s', hrun⟩

theorem filesysScan_served_iff {disks : Nat → Disk}
    (hrun : filesysScan format parts channelCnt (.start disks) = .ok ((), s')) :
    Served parts channelCnt s'.log ↔ OnlyFirstSlave parts channelCnt := by
  have hstop : StopsWith (fun _ => True) format (parts 1) :=
    fun _ _ _ _ => ⟨fun _ => trivial, fun _ => trivial⟩
  have hscan := (wp_filesysScan hstop).of_run hrun
  by_cases hcnt : channelCnt = 0
  · subst hcnt
    obtain rfl : s' = .start disks := by simpa using hscan
    exact iff_of_true served_nil fun _ _ _ hlt => absurd hlt (Nat.not_lt_zero _)
  · rw [if_neg hcnt] at hscan
    obtain ⟨log, hlog, hrounds⟩ := hscan
    obtain rfl : s'.log = log := hlog
    exact hrounds.served_iff

/-- **After the loops of `filesys_init` every partition has been seen to** just when none is on
the slave disk of another channel than the first.  The loops end when the partitions of that
first one can be read and formatted. -/
theorem filesysInit_serves (format : PartInfo → Disk → Kernel Disk) (parts : Nat → DiskParts)
    (channelCnt : Nat) (disks : Nat → Disk) :
    (∀ s', filesysScan format parts channelCnt (.start disks) = .ok ((), s') →
      (Served parts channelCnt s'.log ↔ OnlyFirstSlave parts channelCnt)) ∧
    (∀ pad, IsPartitionFormat format pad →
      (∀ part, (parts 1).Present part → ((parts 1).info part).OnDrive) →
      ∃ s', filesysScan format parts channelCnt (.start disks) = .ok ((), s')) :=
  ⟨fun _ hrun => filesysScan_served_iff hrun, fun _ => filesysScan_returns⟩

/-- `partition_format` on the partitions it is modelled for. -/
def partInfoFormat (pad : Mem) (p : PartInfo) (d : Disk) : Kernel Disk :=
  if h : p.startLba.toNat + p.secCnt.toNat < 2 ^ 32 then
    partitionFormat ⟨p.startLba.toNat, p.secCnt.toNat, h⟩ pad d
  else
    .error (.fault "partition_format")

theorem partInfoFormat_is (pad : Mem) : IsPartitionFormat (partInfoFormat pad) pad := by
  intro p h
  funext d
  exact dif_pos h

/-- A disk with one primary partition. -/
def oneDiskParts : DiskParts :=
  ⟨fun idx => if idx = 0 then ⟨2048, 4709, "sdb1"⟩ else .zero, fun _ => .zero⟩

/-- One slave disk with one partition, on one of these disks. -/
def onePartOn (no : Nat) : Nat → DiskParts :=
  fun k => if k = no then oneDiskParts else ⟨fun _ => .zero, fun _ => .zero⟩

theorem onePartOn_present {no k : Nat} :
    (onePartOn no k).Present part ↔ k = no ∧ part = .prim 0 := by
  unfold onePartOn
  by_cases hk : k = no
  · rw [if_pos hk]
    constructor
    · rintro ⟨hmem, hthere⟩
      refine ⟨hk, ?_⟩
      revert hthere
      fin_cases hmem <;> decide
    · rintro ⟨-, rfl⟩
      exact ⟨by decide, by decide⟩
  · rw [if_neg hk]
    refine iff_of_false ?_ fun h => hk h.1
    rintro ⟨-, hthere⟩
    cases part <;> exact hthere rfl

theorem onePartOn_onDrive {no k : Nat} (h : (onePartOn no k).Present part) :
    ((onePartOn no k).info part).OnDrive := by
  obtain ⟨rfl, rfl⟩ := onePartOn_present.mp h
  rw [onePartOn, if_pos rfl]
  exact ⟨by decide, by decide⟩

theorem filesysInit_serves_first : ∃ s',
    filesysScan (partInfoFormat zeroMem) (onePartOn 1) 2 (.start fun _ => zeroMem) = .ok ((), s') ∧
    Served (onePartOn 1) 2 s'.log := by
  have h := filesysInit_serves (partInfoFormat zeroMem) (onePartOn 1) 2 fun _ => zeroMem
  obtain ⟨s', hrun⟩ := h.2 zeroMem (partInfoFormat_is _) fun _ => onePartOn_onDrive
  refine ⟨s', hrun, (h.1 s' hrun).mpr fun channelNo part hpos _ hthere => ?_⟩
  have hno := (onePartOn_present.mp hthere).1
  omega

/-- Two channels, and a partition on the slave disk of the second: its superblock is not read. -/
theorem filesysInit_skips_second : ∃ s',
    filesysScan (partInfoFormat zeroMem) (onePartOn 3) 2 (.start fun _ => zeroMem) = .ok ((), s') ∧
    ¬ Served (onePartOn 3) 2 s'.log := by
  obtain ⟨s', hrun⟩ := @filesysScan_returns (partInfoFormat zeroMem) (onePartOn 3) 2 zeroMem
    (fun _ => zeroMem) (partInfoFormat_is zeroMem) fun _ => onePartOn_onDrive
  refine ⟨s', hrun, fun hserved => ?_⟩
  have honly := (filesysScan_served_iff hrun).mp hserved
  exact honly 1 (.prim 0) (by decide) (by decide) (onePartOn_present.mpr ⟨rfl, rfl⟩)

end ZyOs
