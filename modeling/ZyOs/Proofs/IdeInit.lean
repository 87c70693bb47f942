/-
What the disks have to do with each other when `ide_init` scans one after the other.

The loop sets the two indices back between the disks, but not the base for extended partitions.
So a disk with an extended partition leaves its sector behind, and the next disk's tables are
looked for relative to it.
-/
import ZyOs.Proofs.PartitionTable

namespace ZyOs

open Library

/-! ### Two disks and the loop -/

/-- What is recorded of a disk: the first sector and the size in every slot. -/
def DiskParts.extents (d : DiskParts) : PartSlot → UInt32 × UInt32
  | .prim i => ((d.primParts i).startLba, (d.primParts i).secCnt)
  | .logic i => ((d.logicParts i).startLba, (d.logicParts i).secCnt)

/-- The loop of `ide_init` over `n` channels returns, and this is recorded of disk `no`. -/
def InitRecords (disks : Nat → Disk) (n no : Nat) (x : PartSlot → UInt32 × UInt32) : Prop :=
  ∃ fuel s', ideInitChannels disks fuel n 0 .start = .ok ((), s') ∧ (s'.parts no).extents = x

/-- Alone, the disk is scanned to the end. -/
def ReadsAlone (A : Disk) : Prop := ∃ x, InitRecords (fun _ => A) 1 1 x

/-- Scanned behind `A`, the same is recorded of `B` as when it is alone. -/
def IndependentOf (A B : Disk) : Prop :=
  ∀ x, InitRecords (fun no => if no = 1 then A else B) 2 3 x ↔ InitRecords (fun _ => B) 1 1 x

/-- The master boot record has an extended entry. -/
def HasExtended (data : Disk) : Prop := ∃ p ∈ tableAt data 0, p.fsType = 5

/-- Where the first of these extended entries leads to. -/
def firstLink (es : List PartitionTableEntry) : UInt32 :=
  (es.find? fun p => p.fsType = 5).elim 0 PartitionTableEntry.startLba

/-- The slots that are filled when these partitions come up. -/
def slotsOf (fs : List FoundEntry) : PartSlot → UInt32 × UInt32
  | .prim i => (primsOf fs)[i]?.getD (0, 0)
  | .logic i => (logicsOf fs)[i]?.getD (0, 0)

/-- What the tables on the disk say when they are looked for relative to `base`. -/
def SlotsFrom (data : Disk) (base : UInt32) (x : PartSlot → UInt32 × UInt32) : Prop :=
  ∃ fs base', x = slotsOf fs ∧ (primsOf fs).length ≤ 3 ∧
    (Lists data base 0 (tableAt data 0) fs base' ∧ (logicsOf fs).length < 8 ∨
      Cut data base 0 (tableAt data 0) fs base' ∧ (logicsOf fs).length = 8)

variable {data A B : Disk} {hd : HardDisk} {base base' ext : UInt32} {p : PartitionTableEntry}
  {rest es : List PartitionTableEntry} {fs : List FoundEntry} {s s' : IdeGlobals}
  {x : PartSlot → UInt32 × UInt32}

/-! ### What one scan leaves -/

/-- The words in the slots of an array. -/
theorem slot_words {slots : Nat → PartInfo} {ws : List (UInt32 × UInt32)}
    (h : List.Forall₂ PartInfo.Holds
      ((List.range (ws.map fun w => Extent.ofWords w.1 w.2).length).map slots)
      (ws.map fun w => .ofWords w.1 w.2))
    (hrest : ∀ i, (ws.map fun w => Extent.ofWords w.1 w.2).length ≤ i → slots i = .zero) (i : Nat) :
    ((slots i).startLba, (slots i).secCnt) = ws[i]?.getD (0, 0) := by
  rw [List.length_map] at h hrest
  by_cases hi : i < ws.length
  · have hat := List.Forall₂.get h (i := i) (by simpa using hi) (by simpa using hi)
    simp only [List.get_eq_getElem, List.getElem_map, List.getElem_range] at hat
    rw [List.getElem?_eq_getElem hi, Option.getD_some]
    exact Prod.ext (UInt32.toNat_inj.mp hat.1) (UInt32.toNat_inj.mp hat.2)
  · rw [hrest i (by omega), List.getElem?_eq_none (by omega)]
    rfl

theorem extents_addAll (hp : s.pNo = 0) (hl : s.lNo = 0)
    (hzero : s.parts hd.no = ⟨fun _ => .zero, fun _ => .zero⟩) :
    ((s.addAll hd fs).parts hd.no).extents = slotsOf fs := by
  have hrec := @RecordedParts.addAll hd _ hp hl fs
  funext slot
  cases slot with
  | prim i => exact slot_words hrec.prim (fun k hk => by rw [hrec.primRest k hk, hzero]) i
  | logic i => exact slot_words hrec.logic (fun k hk => by rw [hrec.logicRest k hk, hzero]) i

/-- A scan records what the tables say from the base it begins with. -/
theorem scansTo_slots (hp : s.pNo = 0) (hl : s.lNo = 0)
    (hzero : s.parts hd.no = ⟨fun _ => .zero, fun _ => .zero⟩) :
    (∃ s', ScansTo hd s s' ∧ (s'.parts hd.no).extents = x) ↔
      SlotsFrom hd.data s.extLbaBase x := by
  constructor
  · rintro ⟨s', hscan, rfl⟩
    obtain ⟨fs, base', rfl, hthree, hway⟩ := (scansTo_iff hp hl).mp hscan
    exact ⟨fs, base', extents_addAll hp hl hzero, hthree, hway⟩
  · rintro ⟨fs, base', rfl, hthree, hway⟩
    exact ⟨_, (scansTo_iff hp hl).mpr ⟨fs, base', rfl, hthree, hway⟩, extents_addAll hp hl hzero⟩

/-- With more fuel a scan comes to the same. -/
theorem ScansTo.eventually (h : ScansTo hd s s') (hp : s.pNo = 0) (hl : s.lNo = 0) :
    ∃ n, ∀ fuel, n ≤ fuel → partitionScan hd fuel 0 s = .ok ((), s') := by
  obtain ⟨fs, base', rfl, hthree, hway⟩ := (scansTo_iff hp hl).mp h
  exact scan_eventually hp hl hthree hway

/-! ### The base that is left behind -/

/-- A base that is set stays. -/
theorem Lists.base_of_ne (h : Lists data base ext es fs base') (hb : base ≠ 0) : base' = base := by
  induction h with
  | nil => rfl
  | unused _ _ ih => exact ih hb
  | part _ _ ih => exact ih hb
  | @link base base₁ base' ext p _ _ _ _ _ _ _ ihb ihr =>
      have hafter : p.baseAfter base = base := if_pos hb
      rw [hafter] at ihb
      obtain rfl := ihb hb
      exact ihr hb

theorem Cut.base_of_ne (h : Cut data base ext es fs base') (hb : base ≠ 0) : base' = base := by
  induction h with
  | here => rfl
  | unused _ _ ih => exact ih hb
  | part _ _ ih => exact ih hb
  | @past base base₁ base' ext p _ _ _ _ _ hbehind _ ih =>
      have hafter : p.baseAfter base = base := if_pos hb
      rw [hafter] at hbehind
      obtain rfl := hbehind.base_of_ne hb
      exact ih hb
  | @into base base₁ base' ext p _ _ _ _ _ _ hrest _ ih =>
      have hafter : p.baseAfter base = base := if_pos hb
      rw [hafter] at ih
      obtain rfl := ih hb
      exact hrest.base_of_ne hb

theorem firstLink_of_ne (h : p.fsType ≠ 5) : firstLink (p :: rest) = firstLink rest := by
  rw [firstLink, List.find?_cons_of_neg (by simpa using h), firstLink]

theorem firstLink_of_eq (h : p.fsType = 5) : firstLink (p :: rest) = p.startLba := by
  rw [firstLink, List.find?_cons_of_pos (by simpa using h)]
  rfl

/-- While no base is set, an entry counts from the beginning of the disk and sets it. -/
theorem link_first (hb : base = 0) : p.target base = p.startLba ∧ p.baseAfter base = p.startLba :=
  ⟨if_neg (not_not.mpr hb), if_neg (not_not.mpr hb)⟩

/-- The sector an extended entry leads to is counted from the base. -/
theorem target_eq (p : PartitionTableEntry) (base : UInt32) :
    p.target base = p.startLba + base := by
  by_cases hb : base = 0
  · rw [(link_first hb).1, hb, UInt32.add_zero]
  · exact if_pos hb

/-- An extended entry that leads to the master boot record itself is followed for ever. -/
theorem Lists.firstLink_ne (h : Lists data base ext es fs base') (hb : base = 0)
    (hlink : ∃ p ∈ es, p.fsType = 5) (hself : firstLink es = 0 → HasExtended data ∧
      firstLink (tableAt data 0) = 0) : firstLink es ≠ 0 := by
  induction h with
  | nil =>
      obtain ⟨p, hp, -⟩ := hlink
      cases hp
  | @unused _ _ _ p rest _ hp hrest ih =>
      have hne : p.fsType ≠ 5 := by rw [hp]; decide
      rw [firstLink_of_ne hne] at hself ⊢
      exact ih hb (by simpa [hne] using hlink) hself
  | @part _ _ _ p rest _ hp hrest ih =>
      rw [firstLink_of_ne hp.2] at hself ⊢
      exact ih hb (by simpa [hp.2] using hlink) hself
  | link hp _ _ _ ihb _ =>
      intro hzero
      obtain ⟨hext, hmbr⟩ := hself hzero
      rw [firstLink_of_eq hp] at hzero
      rw [(link_first hb).1, (link_first hb).2, hzero] at ihb
      exact ihb rfl hext (fun _ => ⟨hext, hmbr⟩) hmbr

theorem Cut.firstLink_ne (h : Cut data base ext es fs base') (hb : base = 0) (hmbr : ext = 0)
    (hlink : ∃ p ∈ es, p.fsType = 5) (hself : firstLink es = 0 → HasExtended data ∧
      firstLink (tableAt data 0) = 0) : firstLink es ≠ 0 := by
  induction h with
  | here _ hne => exact absurd hmbr hne
  | @unused _ _ _ p rest _ hp hrest ih =>
      have hne : p.fsType ≠ 5 := by rw [hp]; decide
      rw [firstLink_of_ne hne] at hself ⊢
      exact ih hb hmbr (by simpa [hne] using hlink) hself
  | @part _ _ _ p rest _ hp hrest ih =>
      rw [firstLink_of_ne hp.2] at hself ⊢
      exact ih hb hmbr (by simpa [hp.2] using hlink) hself
  | past hp _ hbehind _ _ =>
      intro hzero
      obtain ⟨hext, hfirst⟩ := hself hzero
      rw [firstLink_of_eq hp] at hzero
      rw [(link_first hb).1, (link_first hb).2, hzero] at hbehind
      exact hbehind.firstLink_ne rfl hext (fun _ => ⟨hext, hfirst⟩) hfirst
  | into hp _ _ _ _ ihb =>
      intro hzero
      obtain ⟨hext, hfirst⟩ := hself hzero
      rw [firstLink_of_eq hp] at hzero
      rw [(link_first hb).1, (link_first hb).2, hzero] at ihb
      exact ihb rfl rfl hext (fun _ => ⟨hext, hfirst⟩) hfirst

/-- The first extended entry sets the base, and nothing does after it. -/
theorem Lists.base_eq (h : Lists data base ext es fs base') (hb : base = 0)
    (hne : (∃ p ∈ es, p.fsType = 5) → firstLink es ≠ 0) : base' = firstLink es := by
  induction h with
  | nil => exact hb
  | @unused _ _ _ p rest _ hp hrest ih =>
      have hno : p.fsType ≠ 5 := by rw [hp]; decide
      rw [firstLink_of_ne hno] at hne ⊢
      exact ih hb fun hlink => hne (by simpa [hno] using hlink)
  | @part _ _ _ p rest _ hp hrest ih =>
      rw [firstLink_of_ne hp.2] at hne ⊢
      exact ih hb fun hlink => hne (by simpa [hp.2] using hlink)
  | @link _ _ _ _ p _ _ _ hp _ hbehind hrest _ _ =>
      have hset := hne ⟨p, List.mem_cons_self, hp⟩
      rw [firstLink_of_eq hp] at hset ⊢
      rw [(link_first hb).2] at hbehind
      obtain rfl := hbehind.base_of_ne hset
      exact hrest.base_of_ne hset

theorem Cut.base_eq (h : Cut data base ext es fs base') (hb : base = 0) (hmbr : ext = 0)
    (hne : (∃ p ∈ es, p.fsType = 5) → firstLink es ≠ 0) : base' = firstLink es := by
  induction h with
  | here _ hext => exact absurd hmbr hext
  | @unused _ _ _ p rest _ hp hrest ih =>
      have hno : p.fsType ≠ 5 := by rw [hp]; decide
      rw [firstLink_of_ne hno] at hne ⊢
      exact ih hb hmbr fun hlink => hne (by simpa [hno] using hlink)
  | @part _ _ _ p rest _ hp hrest ih =>
      rw [firstLink_of_ne hp.2] at hne ⊢
      exact ih hb hmbr fun hlink => hne (by simpa [hp.2] using hlink)
  | @past _ _ _ _ p _ _ _ hp _ hbehind hrest _ =>
      have hset := hne ⟨p, List.mem_cons_self, hp⟩
      rw [firstLink_of_eq hp] at hset ⊢
      rw [(link_first hb).2] at hbehind
      obtain rfl := hbehind.base_of_ne hset
      exact hrest.base_of_ne hset
  | @into _ _ _ _ p _ _ _ hp _ hbehind hrest _ _ =>
      have hset := hne ⟨p, List.mem_cons_self, hp⟩
      rw [firstLink_of_eq hp] at hset ⊢
      rw [(link_first hb).2] at hbehind
      obtain rfl := hbehind.base_of_ne hset
      exact hrest.base_of_ne hset

/-- The base a scan leaves that began with none. -/
theorem ScansTo.base_eq (h : ScansTo hd s s') (hbase : s.extLbaBase = 0) (hp : s.pNo = 0)
    (hl : s.lNo = 0) : s'.extLbaBase = firstLink (tableAt hd.data 0) ∧
      (HasExtended hd.data → firstLink (tableAt hd.data 0) ≠ 0) := by
  obtain ⟨fs, base', rfl, -, hway⟩ := (scansTo_iff hp hl).mp h
  rw [hbase] at hway
  have hne : HasExtended hd.data → firstLink (tableAt hd.data 0) ≠ 0 := by
    intro hext
    rcases hway with ⟨h, -⟩ | ⟨h, -⟩
    · exact h.firstLink_ne rfl hext fun hzero => ⟨hext, hzero⟩
    · exact h.firstLink_ne rfl rfl hext fun hzero => ⟨hext, hzero⟩
  refine ⟨?_, hne⟩
  rcases hway with ⟨h, -⟩ | ⟨h, -⟩
  · exact h.base_eq rfl hne
  · exact h.base_eq rfl rfl hne

/-! ### What the base changes -/

/-- The first extended entry is counted from the base, and leads to a sector in reach. -/
theorem Lists.link_reach (h : Lists data base ext es fs base') (hlink : ∃ p ∈ es, p.fsType = 5) :
    (firstLink es + base).toNat ≤ maxLba := by
  induction h with
  | nil =>
      obtain ⟨p, hp, -⟩ := hlink
      cases hp
  | @unused _ _ _ p rest _ hp hrest ih =>
      have hno : p.fsType ≠ 5 := by rw [hp]; decide
      rw [firstLink_of_ne hno]
      exact ih (by simpa [hno] using hlink)
  | @part _ _ _ p rest _ hp hrest ih =>
      rw [firstLink_of_ne hp.2]
      exact ih (by simpa [hp.2] using hlink)
  | @link base _ _ _ p _ _ _ hp hlba _ _ _ _ =>
      rw [firstLink_of_eq hp]
      rwa [target_eq] at hlba

theorem Cut.link_reach (h : Cut data base ext es fs base') (hmbr : ext = 0)
    (hlink : ∃ p ∈ es, p.fsType = 5) : (firstLink es + base).toNat ≤ maxLba := by
  induction h with
  | here _ hext => exact absurd hmbr hext
  | @unused _ _ _ p rest _ hp hrest ih =>
      have hno : p.fsType ≠ 5 := by rw [hp]; decide
      rw [firstLink_of_ne hno]
      exact ih hmbr (by simpa [hno] using hlink)
  | @part _ _ _ p rest _ hp hrest ih =>
      rw [firstLink_of_ne hp.2]
      exact ih hmbr (by simpa [hp.2] using hlink)
  | @past base _ _ _ p _ _ _ hp hlba _ _ _ =>
      rw [firstLink_of_eq hp]
      rwa [target_eq] at hlba
  | @into base _ _ _ p _ _ _ hp hlba _ _ _ _ =>
      rw [firstLink_of_eq hp]
      rwa [target_eq] at hlba

theorem SlotsFrom.link_reach (h : SlotsFrom data base x) (hext : HasExtended data) :
    (firstLink (tableAt data 0) + base).toNat ≤ maxLba := by
  obtain ⟨fs, base', -, -, ⟨hway, -⟩ | ⟨hway, -⟩⟩ := h
  · exact hway.link_reach hext
  · exact hway.link_reach rfl hext

/-- Where nothing leads on, the base does not matter. -/
theorem Lists.rebase (h : Lists data base ext es fs base') (hno : ∀ p ∈ es, p.fsType ≠ 5)
    (b : UInt32) : Lists data b ext es fs b := by
  induction h with
  | nil => exact .nil
  | unused hp _ ih => exact .unused hp (ih (List.forall_mem_cons.mp hno).2)
  | part hp _ ih => exact .part hp (ih (List.forall_mem_cons.mp hno).2)
  | link hp _ _ _ _ _ => exact absurd hp (hno _ List.mem_cons_self)

theorem Cut.rebase (h : Cut data base ext es fs base') (hno : ∀ p ∈ es, p.fsType ≠ 5)
    (b : UInt32) : Cut data b ext es fs b := by
  induction h with
  | here hp hext => exact .here hp hext
  | unused hp _ ih => exact .unused hp (ih (List.forall_mem_cons.mp hno).2)
  | part hp _ ih => exact .part hp (ih (List.forall_mem_cons.mp hno).2)
  | past hp _ _ _ _ => exact absurd hp (hno _ List.mem_cons_self)
  | into hp _ _ _ _ _ => exact absurd hp (hno _ List.mem_cons_self)

theorem SlotsFrom.rebase (h : SlotsFrom data base x) (hno : ¬ HasExtended data) (b : UInt32) :
    SlotsFrom data b x := by
  have hplain : ∀ p ∈ tableAt data 0, p.fsType ≠ 5 := fun p hp hlink => hno ⟨p, hp, hlink⟩
  obtain ⟨fs, base', hx, hthree, hway⟩ := h
  exact ⟨fs, b, hx, hthree, hway.imp (fun h => ⟨h.1.rebase hplain b, h.2⟩)
    fun h => ⟨h.1.rebase hplain b, h.2⟩⟩

/-! ### The loop -/

/-- `p_no = 0, l_no = 0` -/
def IdeGlobals.reset (s : IdeGlobals) : IdeGlobals := { s with pNo := 0, lNo := 0 }

/-- The slave disk of a channel. -/
def slaveDisk (disks : Nat → Disk) (channelNo : Nat) : HardDisk where
  no := channelNo * 2 + 1
  name := "sd" ++ (Char.ofNat (97 + (channelNo * 2 + 1))).toString
  data := disks (channelNo * 2 + 1)

/-- Of a channel only the slave disk is scanned. -/
theorem ideInitDevices_run {disks : Nat → Disk} {fuel channelNo : Nat} {u : Unit} :
    ideInitDevices disks fuel channelNo 2 0 s = .ok (u, s') ↔
      ∃ s₁, partitionScan (slaveDisk disks channelNo) fuel 0 s.reset = .ok ((), s₁) ∧
        s' = s₁.reset := by
  constructor
  · intro h
    obtain ⟨_, s₀, hreset, hslave⟩ := Prog.bind_run.mp h
    cases hreset
    obtain ⟨_, s₁, hscan, hend⟩ := Prog.bind_run.mp hslave
    cases hend
    exact ⟨s₁, hscan, rfl⟩
  · rintro ⟨s₁, hscan, rfl⟩
    exact Prog.bind_run.mpr ⟨(), s.reset, rfl, Prog.bind_run.mpr ⟨(), s₁, hscan, rfl⟩⟩

theorem ideInitChannels_one {disks : Nat → Disk} {fuel : Nat} {u : Unit} :
    ideInitChannels disks fuel 1 0 .start = .ok (u, s') ↔
      ∃ s₁, partitionScan (slaveDisk disks 0) fuel 0 .start = .ok ((), s₁) ∧ s' = s₁.reset := by
  constructor
  · intro h
    obtain ⟨_, s₁, hchannel, hend⟩ := Prog.bind_run.mp h
    cases hend
    exact ideInitDevices_run.mp hchannel
  · intro h
    exact Prog.bind_run.mpr ⟨(), s', ideInitDevices_run.mpr h, rfl⟩

theorem ideInitChannels_two {disks : Nat → Disk} {fuel : Nat} {u : Unit} :
    ideInitChannels disks fuel 2 0 .start = .ok (u, s') ↔
      ∃ s₁ s₂, partitionScan (slaveDisk disks 0) fuel 0 .start = .ok ((), s₁) ∧
        partitionScan (slaveDisk disks 1) fuel 0 s₁.reset = .ok ((), s₂) ∧ s' = s₂.reset := by
  constructor
  · intro h
    obtain ⟨_, s₀, hfirst, hrest⟩ := Prog.bind_run.mp h
    obtain ⟨s₁, hscan, rfl⟩ := ideInitDevices_run.mp hfirst
    obtain ⟨_, s₂', hsecond, hend⟩ := Prog.bind_run.mp hrest
    cases hend
    obtain ⟨s₂, hscan', rfl⟩ := ideInitDevices_run.mp hsecond
    exact ⟨s₁, s₂, hscan, hscan', rfl⟩
  · rintro ⟨s₁, s₂, hscan, hscan', rfl⟩
    exact Prog.bind_run.mpr ⟨(), s₁.reset, ideInitDevices_run.mpr ⟨s₁, hscan, rfl⟩,
      Prog.bind_run.mpr ⟨(), s₂.reset, ideInitDevices_run.mpr ⟨s₂, hscan', rfl⟩, rfl⟩⟩

/-- Alone, what the tables say by themselves is recorded. -/
theorem initRecords_alone : InitRecords (fun _ => B) 1 1 x ↔ SlotsFrom B 0 x := by
  refine Iff.trans ?_ (@scansTo_slots (slaveDisk (fun _ => B) 0) .start _ rfl rfl rfl)
  constructor
  · rintro ⟨fuel, s', hrun, rfl⟩
    obtain ⟨s₁, hscan, rfl⟩ := ideInitChannels_one.mp hrun
    exact ⟨s₁, ⟨fuel, hscan⟩, rfl⟩
  · rintro ⟨s₁, ⟨fuel, hscan⟩, rfl⟩
    exact ⟨fuel, s₁.reset, ideInitChannels_one.mpr ⟨s₁, hscan, rfl⟩, rfl⟩

/-- Other disks keep what is recorded of them. -/
theorem ScansTo.others (h : ScansTo hd s s') (hp : s.pNo = 0) (hl : s.lNo = 0) {no : Nat}
    (hno : no ≠ hd.no) : s'.parts no = s.parts no := by
  obtain ⟨fs, base', rfl, -⟩ := (scansTo_iff hp hl).mp h
  exact (@RecordedParts.addAll hd _ hp hl fs).others no hno

/-- The second disk is read from the base the first one leaves. -/
theorem second_slots {s₁ : IdeGlobals}
    (hfirst : ScansTo (slaveDisk (fun no => if no = 1 then A else B) 0) .start s₁) :
    (∃ s', ScansTo (slaveDisk (fun no => if no = 1 then A else B) 1) s₁.reset s' ∧
      (s'.parts 3).extents = x) ↔ SlotsFrom B (firstLink (tableAt A 0)) x := by
  have hbase : s₁.reset.extLbaBase = firstLink (tableAt A 0) := (hfirst.base_eq rfl rfl rfl).1
  rw [← hbase]
  exact @scansTo_slots (slaveDisk (fun no => if no = 1 then A else B) 1) s₁.reset _ rfl rfl
    (hfirst.others rfl rfl (show 3 ≠ 1 by decide))

/-- Behind `A`, it is what they say from where `A` has its extended partition. -/
theorem initRecords_behind (hA : ReadsAlone A) :
    InitRecords (fun no => if no = 1 then A else B) 2 3 x ↔
      SlotsFrom B (firstLink (tableAt A 0)) x := by
  constructor
  · rintro ⟨fuel, s', hrun, rfl⟩
    obtain ⟨s₁, s₂, hscan, hscan', rfl⟩ := ideInitChannels_two.mp hrun
    exact (second_slots ⟨fuel, hscan⟩).mp ⟨s₂, ⟨fuel, hscan'⟩, rfl⟩
  · intro h
    obtain ⟨_, fuel, _, hrun, -⟩ := hA
    obtain ⟨s₁, hscan, -⟩ := ideInitChannels_one.mp hrun
    have hfirst : ScansTo (slaveDisk (fun no => if no = 1 then A else B) 0) .start s₁ :=
      ⟨fuel, hscan⟩
    obtain ⟨s₂, hsecond, rfl⟩ := (second_slots hfirst).mpr h
    obtain ⟨n, hn⟩ := hfirst.eventually rfl rfl
    obtain ⟨m, hm⟩ := hsecond.eventually rfl rfl
    exact ⟨n + m, s₂.reset, ideInitChannels_two.mpr ⟨s₁, s₂, hn _ (by omega), hm _ (by omega), rfl⟩,
      rfl⟩

/-- Behind `A` the same is recorded of `B` just when its tables say the same from there. -/
theorem independentOf_iff (hA : ReadsAlone A) :
    IndependentOf A B ↔ ∀ x, SlotsFrom B (firstLink (tableAt A 0)) x ↔ SlotsFrom B 0 x :=
  forall_congr' fun _ => by rw [initRecords_behind hA, initRecords_alone]

/-- Where the extended partition of a disk is that can be scanned. -/
theorem ReadsAlone.firstLink (h : ReadsAlone A) (hext : HasExtended A) :
    0 < (ZyOs.firstLink (tableAt A 0)).toNat ∧ (ZyOs.firstLink (tableAt A 0)).toNat ≤ maxLba := by
  obtain ⟨x, hx⟩ := h
  have hreach := (initRecords_alone.mp hx).link_reach hext
  rw [UInt32.add_zero] at hreach
  obtain ⟨fuel, _, hrun, -⟩ := hx
  obtain ⟨s₁, hscan, -⟩ := ideInitChannels_one.mp hrun
  have hfirst : ScansTo (slaveDisk (fun _ => A) 0) .start s₁ := ⟨fuel, hscan⟩
  refine ⟨Nat.pos_of_ne_zero fun h0 => ?_, hreach⟩
  exact (hfirst.base_eq rfl rfl rfl).2 hext (UInt32.toNat_inj.mp h0)

/-! ### A disk whose extended partition is at the very end -/

/-- It has no other partition, and the table there is empty. -/
def farDisk : Disk := diskWith fun lba k =>
  if lba = 0 ∧ k = 0 then ⟨5, UInt32.ofNat maxLba, 0⟩ else .zero

theorem farDisk_mbr :
    tableAt farDisk 0 = [⟨5, UInt32.ofNat maxLba, 0⟩, .zero, .zero, .zero] := by
  rw [farDisk, tableAt_diskWith]
  simp [List.range_succ]

theorem farDisk_behind :
    tableAt farDisk (UInt32.ofNat maxLba) = [.zero, .zero, .zero, .zero] := by
  rw [farDisk, tableAt_diskWith]
  simp [List.range_succ, maxLba]

theorem farDisk_hasExtended : HasExtended farDisk :=
  ⟨_, by rw [farDisk_mbr]; exact List.mem_cons_self, rfl⟩

theorem farDisk_firstLink : firstLink (tableAt farDisk 0) = UInt32.ofNat maxLba := by
  rw [farDisk_mbr]
  rfl

/-- An empty table. -/
theorem lists_empty : Lists data base ext [.zero, .zero, .zero, .zero] [] base :=
  .unused rfl (.unused rfl (.unused rfl (.unused rfl .nil)))

theorem farDisk_scans : ReadsAlone farDisk := by
  refine ⟨slotsOf [], initRecords_alone.mpr ⟨[], UInt32.ofNat maxLba, rfl, by decide,
    .inl ⟨?_, by decide⟩⟩⟩
  rw [farDisk_mbr]
  have hbehind : Lists farDisk (UInt32.ofNat maxLba) (UInt32.ofNat maxLba)
      (tableAt farDisk (UInt32.ofNat maxLba)) [] (UInt32.ofNat maxLba) := by
    rw [farDisk_behind]
    exact lists_empty
  exact @Lists.link _ _ _ _ _ _ _ [] _ rfl (by decide) hbehind
    (.unused rfl (.unused rfl (.unused rfl .nil)))

/-- Counted from any other extended partition, its own is out of reach. -/
theorem far_sum {a : UInt32} (hpos : 0 < a.toNat) (hle : a.toNat ≤ maxLba) :
    maxLba < (UInt32.ofNat maxLba + a).toNat := by
  have hmax : (UInt32.ofNat maxLba).toNat = maxLba := by decide
  have hsmall : maxLba + maxLba < 2 ^ 32 := by decide
  rw [UInt32.toNat_add, hmax, Nat.mod_eq_of_lt (by omega)]
  omega

/-! ### Independence -/

theorem firstLink_of_not (h : ¬ HasExtended A) : firstLink (tableAt A 0) = 0 := by
  rw [firstLink, List.find?_eq_none.mpr fun p hp hlink => h ⟨p, hp, of_decide_eq_true hlink⟩]
  rfl

theorem independentOf_of_not (hA : ReadsAlone A) (h : ¬ HasExtended A ∨ ¬ HasExtended B) :
    IndependentOf A B := by
  rw [independentOf_iff hA]
  intro x
  rcases h with h | h
  · rw [firstLink_of_not h]
  · exact ⟨fun hx => hx.rebase h 0, fun hx => hx.rebase h _⟩

/-- A disk with an extended partition is not found again behind `farDisk`. -/
theorem not_independentOf_far (hB : ReadsAlone B) (hext : HasExtended B) :
    ¬ IndependentOf farDisk B := by
  intro h
  obtain ⟨hpos, hle⟩ := hB.firstLink hext
  obtain ⟨x, hx⟩ := hB
  have hbehind := ((independentOf_iff farDisk_scans).mp h x).mpr (initRecords_alone.mp hx)
  have hreach := hbehind.link_reach hext
  rw [farDisk_firstLink, UInt32.add_comm] at hreach
  exact absurd hreach (Nat.not_le.mpr (far_sum hpos hle))

/-- Behind such a disk `farDisk` is not found again. -/
theorem not_independentOf_before_far (hA : ReadsAlone A) (hext : HasExtended A) :
    ¬ IndependentOf A farDisk := by
  intro h
  obtain ⟨hpos, hle⟩ := hA.firstLink hext
  obtain ⟨x, hx⟩ := farDisk_scans
  have hbehind := ((independentOf_iff hA).mp h x).mpr (initRecords_alone.mp hx)
  have hreach := hbehind.link_reach farDisk_hasExtended
  rw [farDisk_firstLink] at hreach
  exact absurd hreach (Nat.not_le.mpr (far_sum hpos hle))

/-- **What is recorded of `B` behind `A` is what is recorded of it alone** just when its tables
say the same counted from the extended partition of `A`.  That is so when one of the two has no
extended partition, and it is only these disks that every other disk leaves alone, and that leave
every other disk alone. -/
theorem disks_independent (A B : Disk) (hA : ReadsAlone A) (hB : ReadsAlone B) :
    (IndependentOf A B ↔ ∀ x, SlotsFrom B (firstLink (tableAt A 0)) x ↔ SlotsFrom B 0 x) ∧
    (¬ HasExtended A ∨ ¬ HasExtended B → IndependentOf A B) ∧
    ((∀ A', ReadsAlone A' → IndependentOf A' B) ↔ ¬ HasExtended B) ∧
    ((∀ B', ReadsAlone B' → IndependentOf A B') ↔ ¬ HasExtended A) := by
  refine ⟨independentOf_iff hA, independentOf_of_not hA, ?_, ?_⟩
  · constructor
    · exact fun h hext => not_independentOf_far hB hext (h farDisk farDisk_scans)
    · exact fun hno A' hA' => independentOf_of_not hA' (.inr hno)
  · constructor
    · exact fun h hext => not_independentOf_before_far hA hext (h farDisk farDisk_scans)
    · exact fun hno B' _ => independentOf_of_not hA (.inl hno)

/-- A disk with one primary partition and no other. -/
def onePrimDisk : Disk := diskWith fun lba k =>
  if lba = 0 ∧ k = 0 then ⟨0x83, 100, 1000⟩ else .zero

theorem onePrimDisk_mbr : tableAt onePrimDisk 0 = [⟨0x83, 100, 1000⟩, .zero, .zero, .zero] := by
  rw [onePrimDisk, tableAt_diskWith]
  simp [List.range_succ]

theorem onePrimDisk_scans : ReadsAlone onePrimDisk := by
  refine ⟨slotsOf [.prim 100 1000], initRecords_alone.mpr ⟨_, 0, rfl, by decide,
    .inl ⟨?_, by decide⟩⟩⟩
  rw [onePrimDisk_mbr]
  exact .part (by decide) (.unused rfl (.unused rfl (.unused rfl .nil)))

theorem disks_independent_onePrim : IndependentOf farDisk onePrimDisk := by
  refine (disks_independent farDisk onePrimDisk farDisk_scans onePrimDisk_scans).2.1 (.inr ?_)
  rintro ⟨p, hp, hlink⟩
  rw [onePrimDisk_mbr] at hp
  revert hlink
  fin_cases hp <;> decide

/-- `plainDisk` alone: its logical partition is found. -/
theorem plainDisk_alone :
    ReadsAlone plainDisk.data ∧ ∀ x, SlotsFrom plainDisk.data 0 x → x (.logic 0) = (2063, 900) := by
  obtain ⟨ps, qs, hps, hway⟩ := plainTable_onDisk.way
  have hprims : ps.length + qs.length = 1 := by
    rw [← List.length_append, ← hps]
    rfl
  constructor
  · obtain ⟨base', hend⟩ := (hway _).mpr ⟨by decide, rfl⟩
    refine ⟨_, initRecords_alone.mpr ⟨_, base', rfl, ?_, hend⟩⟩
    rw [primsOf_append, primsOf_append, primsOf_map_asLogic, List.append_nil, List.length_append,
      primsOf_map_asPrim, primsOf_map_asPrim]
    omega
  · rintro x ⟨fs, base', rfl, -, hend⟩
    obtain ⟨-, rfl⟩ := (hway fs).mp ⟨base', hend⟩
    rw [slotsOf, logicsOf_append, logicsOf_append, logicsOf_map_asPrim, logicsOf_map_asPrim]
    rfl

/-- Counted from sector 2000, there is nothing behind its extended entry. -/
theorem plainDisk_behind : SlotsFrom plainDisk.data 2000 (slotsOf [.prim 100 1000]) := by
  have hmbr : tableAt plainDisk.data 0 = [⟨0x83, 100, 1000⟩, ⟨5, 2000, 1000⟩, .zero, .zero] := by
    rw [plainDisk, tableAt_diskWith]
    simp [List.range_succ]
  have hbehind : Lists plainDisk.data 2000 4000 (tableAt plainDisk.data 4000) [] 2000 := by
    rw [plainDisk, tableAt_diskWith]
    simpa [List.range_succ] using lists_empty
  refine ⟨_, 2000, rfl, by decide, .inl ⟨?_, by decide⟩⟩
  rw [hmbr]
  exact .part (by decide)
    (@Lists.link _ _ _ _ _ _ _ [] _ rfl (by decide) hbehind (.unused rfl (.unused rfl .nil)))

/-- Two disks with the same tables, each with a logical partition: behind the other one it is not
found. -/
theorem disks_interfere : ReadsAlone plainDisk.data ∧
    ¬ IndependentOf plainDisk.data plainDisk.data := by
  obtain ⟨hscans, halone⟩ := plainDisk_alone
  refine ⟨hscans, fun h => ?_⟩
  have hfirst : firstLink (tableAt plainDisk.data 0) = 2000 := by
    rw [plainDisk, tableAt_diskWith]
    simp [List.range_succ, firstLink]
  have hsame := (independentOf_iff hscans).mp h (slotsOf [.prim 100 1000])
  rw [hfirst] at hsame
  exact absurd (halone _ (hsame.mp plainDisk_behind)) (by decide)

end ZyOs
