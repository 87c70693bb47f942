/-
What a scan of a partition table comes to.

The tables of a disk hang together by the sectors their entries name, and nothing says that
this ends.  Two relations say what is there to be found, with no word about the arrays it goes
to: `Lists` when going through the entries comes to an end by itself, `Cut` when it ends with
a logical partition after which nothing else comes up on the way back.  A scan that returns
has found what one of the two says (`scan_found`), and each of the two gives a scan that returns
(`Lists.run`, `Cut.run`).  So whether a scan ends well is a question about the disk.
-/
import ZyOs.Kernel.PartitionScan
import ZyOs.Proofs.Ide

namespace ZyOs

open Library

variable {data : Disk} {hd : HardDisk} {scan : UInt32 → IdeM Unit} {base base' ext : UInt32}
  {p : PartitionTableEntry} {rest es : List PartitionTableEntry} {s s' : IdeGlobals}

/-! ### What is on the disk -/

/-- The table in a sector. -/
def tableAt (data : Disk) (lba : UInt32) : List PartitionTableEntry :=
  partitionTable (data.drop (512 * lba.toNat))

/-- An entry that is a partition, neither unused nor a way to another table. -/
def PartitionTableEntry.IsPart (p : PartitionTableEntry) : Prop := p.fsType ≠ 0 ∧ p.fsType ≠ 5

instance (p : PartitionTableEntry) : Decidable p.IsPart := inferInstanceAs (Decidable (_ ∧ _))

/-- A partition that has been found, with its first sector and its size. -/
inductive FoundEntry where
  | prim (startLba secCnt : UInt32)
  | logic (startLba secCnt : UInt32)

/-- The partition an entry of the table in sector `ext` is. -/
def PartitionTableEntry.found (ext : UInt32) (p : PartitionTableEntry) : FoundEntry :=
  if ext = 0 then .prim (ext + p.startLba) p.secCnt else .logic (ext + p.startLba) p.secCnt

/-- The primary partitions among them. -/
def primsOf (fs : List FoundEntry) : List (UInt32 × UInt32) :=
  fs.filterMap fun
    | .prim lba cnt => some (lba, cnt)
    | .logic _ _ => none

/-- The logical partitions among them. -/
def logicsOf (fs : List FoundEntry) : List (UInt32 × UInt32) :=
  fs.filterMap fun
    | .prim _ _ => none
    | .logic lba cnt => some (lba, cnt)

/-- The base for what is behind an extended entry: the first one that is met. -/
def PartitionTableEntry.baseAfter (base : UInt32) (p : PartitionTableEntry) : UInt32 :=
  if base ≠ 0 then base else p.startLba

/-- The sector an extended entry leads to. -/
def PartitionTableEntry.target (base : UInt32) (p : PartitionTableEntry) : UInt32 :=
  if base ≠ 0 then p.startLba + base else p.startLba

/-- Going through the entries of the table in sector `ext`, and through the tables behind them,
comes to an end; on the way these partitions come up. -/
inductive Lists (data : Disk) :
    UInt32 → UInt32 → List PartitionTableEntry → List FoundEntry → UInt32 → Prop where
  | nil {base ext : UInt32} : Lists data base ext [] [] base
  | unused {base base' ext : UInt32} {p : PartitionTableEntry} {rest : List PartitionTableEntry}
      {fs : List FoundEntry} (h : p.fsType = 0) (hrest : Lists data base ext rest fs base') :
      Lists data base ext (p :: rest) fs base'
  | part {base base' ext : UInt32} {p : PartitionTableEntry} {rest : List PartitionTableEntry}
      {fs : List FoundEntry} (h : p.IsPart) (hrest : Lists data base ext rest fs base') :
      Lists data base ext (p :: rest) (p.found ext :: fs) base'
  | link {base base₁ base' ext : UInt32} {p : PartitionTableEntry}
      {rest : List PartitionTableEntry} {fs fs' : List FoundEntry} (h : p.fsType = 5)
      (hlba : (p.target base).toNat ≤ maxLba)
      (hbehind : Lists data (p.baseAfter base) (p.target base) (tableAt data (p.target base)) fs
        base₁)
      (hrest : Lists data base₁ ext rest fs' base') :
      Lists data base ext (p :: rest) (fs ++ fs') base'

/-- Going through the entries ends with a logical partition: what stands behind it in its table is
not looked at, and in the tables on the way back no other logical partition comes up. -/
inductive Cut (data : Disk) :
    UInt32 → UInt32 → List PartitionTableEntry → List FoundEntry → UInt32 → Prop where
  | here {base ext : UInt32} {p : PartitionTableEntry} {rest : List PartitionTableEntry}
      (h : p.IsPart) (hext : ext ≠ 0) : Cut data base ext (p :: rest) [p.found ext] base
  | unused {base base' ext : UInt32} {p : PartitionTableEntry} {rest : List PartitionTableEntry}
      {fs : List FoundEntry} (h : p.fsType = 0) (hrest : Cut data base ext rest fs base') :
      Cut data base ext (p :: rest) fs base'
  | part {base base' ext : UInt32} {p : PartitionTableEntry} {rest : List PartitionTableEntry}
      {fs : List FoundEntry} (h : p.IsPart) (hrest : Cut data base ext rest fs base') :
      Cut data base ext (p :: rest) (p.found ext :: fs) base'
  | past {base base₁ base' ext : UInt32} {p : PartitionTableEntry}
      {rest : List PartitionTableEntry} {fs fs' : List FoundEntry} (h : p.fsType = 5)
      (hlba : (p.target base).toNat ≤ maxLba)
      (hbehind : Lists data (p.baseAfter base) (p.target base) (tableAt data (p.target base)) fs
        base₁)
      (hrest : Cut data base₁ ext rest fs' base') : Cut data base ext (p :: rest) (fs ++ fs') base'
  | into {base base₁ base' ext : UInt32} {p : PartitionTableEntry}
      {rest : List PartitionTableEntry} {fs fs' : List FoundEntry} (h : p.fsType = 5)
      (hlba : (p.target base).toNat ≤ maxLba)
      (hbehind : Cut data (p.baseAfter base) (p.target base) (tableAt data (p.target base)) fs
        base₁)
      (hrest : Lists data base₁ ext rest fs' base') (hnone : logicsOf fs' = []) :
      Cut data base ext (p :: rest) (fs ++ fs') base'

/-- From the master boot record on, at most three primary partitions come up, and either fewer
than eight logical ones or the eighth is the last. -/
def EndsWell (data : Disk) : Prop :=
  ∃ fs base, (primsOf fs).length ≤ 3 ∧
    (Lists data 0 0 (tableAt data 0) fs base ∧ (logicsOf fs).length < 8 ∨
      Cut data 0 0 (tableAt data 0) fs base ∧ (logicsOf fs).length = 8)

@[simp] theorem primsOf_nil : primsOf [] = [] := rfl
@[simp] theorem logicsOf_nil : logicsOf [] = [] := rfl

@[simp] theorem primsOf_append (fs fs' : List FoundEntry) :
    primsOf (fs ++ fs') = primsOf fs ++ primsOf fs' := List.filterMap_append

@[simp] theorem logicsOf_append (fs fs' : List FoundEntry) :
    logicsOf (fs ++ fs') = logicsOf fs ++ logicsOf fs' := List.filterMap_append

@[simp] theorem primsOf_prim (lba cnt : UInt32) (fs : List FoundEntry) :
    primsOf (.prim lba cnt :: fs) = (lba, cnt) :: primsOf fs := rfl

@[simp] theorem primsOf_logic (lba cnt : UInt32) (fs : List FoundEntry) :
    primsOf (.logic lba cnt :: fs) = primsOf fs := rfl

@[simp] theorem logicsOf_prim (lba cnt : UInt32) (fs : List FoundEntry) :
    logicsOf (.prim lba cnt :: fs) = logicsOf fs := rfl

@[simp] theorem logicsOf_logic (lba cnt : UInt32) (fs : List FoundEntry) :
    logicsOf (.logic lba cnt :: fs) = (lba, cnt) :: logicsOf fs := rfl

/-- What ends with a logical partition has one. -/
theorem Cut.logics_pos {fs : List FoundEntry} (h : Cut data base ext es fs base') :
    0 < (logicsOf fs).length := by
  induction h with
  | here h hext => simp [PartitionTableEntry.found, hext]
  | unused _ _ ih => exact ih
  | @part _ _ ext p _ fs _ _ ih =>
      show 0 < (logicsOf ([p.found ext] ++ fs)).length
      rw [logicsOf_append, List.length_append]
      exact Nat.add_pos_right _ ih
  | past _ _ _ _ ih =>
      rw [logicsOf_append, List.length_append]
      exact Nat.add_pos_right _ ih
  | into _ _ _ _ _ ih =>
      rw [logicsOf_append, List.length_append]
      exact Nat.add_pos_left ih _

/-! ### What goes into the arrays -/

namespace IdeGlobals

/-- `ext_lba_base = base` -/
def based (s : IdeGlobals) (base : UInt32) : IdeGlobals := { s with extLbaBase := base }

/-- A partition of `hd` is recorded. -/
def add (hd : HardDisk) (s : IdeGlobals) : FoundEntry → IdeGlobals
  | .prim lba cnt => s.addPrim hd lba cnt
  | .logic lba cnt => s.addLogic hd lba cnt

/-- Several are, one after the other. -/
def addAll (hd : HardDisk) (s : IdeGlobals) (fs : List FoundEntry) : IdeGlobals :=
  fs.foldl (add hd) s

variable {fs fs' : List FoundEntry}

@[simp] theorem based_based (b b' : UInt32) : (s.based b).based b' = s.based b' := rfl

@[simp] theorem based_self : s.based s.extLbaBase = s := rfl

@[simp] theorem based_extLbaBase (b : UInt32) : (s.based b).extLbaBase = b := rfl

@[simp] theorem based_pNo (b : UInt32) : (s.based b).pNo = s.pNo := rfl

@[simp] theorem based_lNo (b : UInt32) : (s.based b).lNo = s.lNo := rfl

theorem add_based (b : UInt32) (f : FoundEntry) : (s.based b).add hd f = (s.add hd f).based b := by
  cases f <;> rfl

theorem addAll_cons (f : FoundEntry) : s.addAll hd (f :: fs) = (s.add hd f).addAll hd fs := rfl

@[simp] theorem addAll_nil : s.addAll hd [] = s := rfl

theorem addAll_append : s.addAll hd (fs ++ fs') = (s.addAll hd fs).addAll hd fs' :=
  List.foldl_append

theorem addAll_based (b : UInt32) : ∀ {fs : List FoundEntry} {s : IdeGlobals},
    (s.based b).addAll hd fs = (s.addAll hd fs).based b := by
  intro fs
  induction fs with
  | nil => exact rfl
  | cons f fs ih =>
      intro s
      rw [addAll_cons, add_based, ih, addAll_cons]

theorem add_pNo (f : FoundEntry) : (s.add hd f).pNo = s.pNo + (primsOf [f]).length := by
  cases f <;> rfl

theorem add_lNo (f : FoundEntry) : (s.add hd f).lNo = s.lNo + (logicsOf [f]).length := by
  cases f <;> rfl

theorem addAll_pNo : ∀ {fs : List FoundEntry} {s : IdeGlobals},
    (s.addAll hd fs).pNo = s.pNo + (primsOf fs).length := by
  intro fs
  induction fs with
  | nil => exact rfl
  | cons f fs ih =>
      intro s
      rw [addAll_cons, ih, add_pNo, Nat.add_assoc, ← List.length_append, ← primsOf_append]
      rfl

theorem addAll_lNo : ∀ {fs : List FoundEntry} {s : IdeGlobals},
    (s.addAll hd fs).lNo = s.lNo + (logicsOf fs).length := by
  intro fs
  induction fs with
  | nil => exact rfl
  | cons f fs ih =>
      intro s
      rw [addAll_cons, ih, add_lNo, Nat.add_assoc, ← List.length_append, ← logicsOf_append]
      rfl

end IdeGlobals

/-! ### One table, one entry -/

/-- The entries of the sector that was read. -/
theorem partitionTable_read (data : Disk) (lba : UInt32) :
    partitionTable (Mem.splice (fun _ => 0) 0 (data.drop (512 * lba.toNat)) (1 * 512))
      = tableAt data lba := by
  unfold tableAt partitionTable
  refine List.map_congr_left fun k hk => ?_
  have hk4 : k < 4 := List.mem_range.mp hk
  have hin : ∀ i < 16, (Mem.drop (Mem.splice (fun _ => 0) 0 (data.drop (512 * lba.toNat))
      (1 * 512)) (446 + 16 * k)) i = ((data.drop (512 * lba.toNat)).drop (446 + 16 * k)) i := by
    intro i hi
    rw [Mem.drop_apply, Mem.splice_in (by omega) (by omega), Nat.sub_zero, Mem.drop_apply]
    rfl
  simp only [PartitionTableEntry.ofMem, PartitionTableEntry.mk.injEq]
  exact ⟨hin 4 (by omega), getWord_congr fun j hj => hin _ (by omega),
    getWord_congr fun j hj => hin _ (by omega)⟩

/-- A table in reach of the driver is read and gone through. -/
theorem partitionScan_succ {fuel : Nat} (h : ext.toNat ≤ maxLba) :
    partitionScan hd (fuel + 1) ext s
      = scanEntries hd (partitionScan hd fuel) ext (tableAt hd.data ext) s := by
  rw [partitionScan, Prog.bind_of_run (Prog.lift_run.mpr
    ⟨ideRead_returns hd.data _ Nat.one_pos (by omega), rfl⟩), partitionTable_read]

/-- Any other stops the kernel. -/
theorem partitionScan_ok {fuel : Nat} {u : Unit} (h : partitionScan hd fuel ext s = .ok (u, s')) :
    ∃ n, fuel = n + 1 ∧ ext.toNat ≤ maxLba ∧
      scanEntries hd (partitionScan hd n) ext (tableAt hd.data ext) s = .ok (u, s') := by
  cases fuel with
  | zero => cases h
  | succ n =>
      obtain ⟨bs, s₁, hread, -⟩ := Prog.bind_run.mp h
      have hlba : ext.toNat ≤ maxLba := by
        have hok := (Prog.lift_run.mp hread).1
        simp only [ideRead, bind_eq_ok, ASSERT_eq_ok] at hok
        obtain ⟨-, hlba, -⟩ := hok
        exact hlba
      exact ⟨n, rfl, hlba, partitionScan_succ hlba ▸ h⟩

theorem scanEntries_unused (h : p.fsType = 0) :
    scanEntries hd scan ext (p :: rest) = scanEntries hd scan ext rest := by
  rw [scanEntries, if_neg (by rw [h]; decide), if_neg (by simp [h])]

/-- An extended entry: the base is set if it has not been, and the table behind comes first. -/
theorem scanEntries_link (h : p.fsType = 5) :
    scanEntries hd scan ext (p :: rest) s
      = (do scan (p.target s.extLbaBase); scanEntries hd scan ext rest)
          (s.based (p.baseAfter s.extLbaBase)) := by
  rw [scanEntries, if_pos h, Prog.bind_of_run (Prog.get_run s)]
  unfold PartitionTableEntry.target PartitionTableEntry.baseAfter
  by_cases hb : s.extLbaBase ≠ 0
  · simp only [if_pos hb]
    rfl
  · simp only [if_neg hb]
    rfl

/-- A partition of the master boot record. -/
theorem scanEntries_prim (h : p.IsPart) :
    scanEntries hd scan 0 (p :: rest) s
      = (do scanPrim hd (0 + p.startLba) p.secCnt; scanEntries hd scan 0 rest) s := by
  rw [scanEntries, if_neg h.2, if_pos h.1, if_pos rfl]

/-- A partition of another table. -/
theorem scanEntries_logic (h : p.IsPart) (hext : ext ≠ 0) :
    scanEntries hd scan ext (p :: rest) s
      = (do
          if ← scanLogic hd (ext + p.startLba) p.secCnt then scanEntries hd scan ext rest
          else return ()) s := by
  rw [scanEntries, if_neg h.2, if_pos h.1, if_neg hext]

theorem scanPrim_run {lba cnt : UInt32} (h : s.pNo + 1 < 4) :
    scanPrim hd lba cnt s = .ok ((), s.addPrim hd lba cnt) := by
  rw [scanPrim, Prog.bind_of_run (Prog.get_run s), if_pos (by omega),
    Prog.bind_of_run (Prog.set_run _ _)]
  exact Prog.lift_run.mpr ⟨ASSERT_pos h _ _, rfl⟩

theorem scanPrim_ok {lba cnt : UInt32} {u : Unit} (h : scanPrim hd lba cnt s = .ok (u, s')) :
    s.pNo + 1 < 4 ∧ s' = s.addPrim hd lba cnt := by
  rw [scanPrim, Prog.bind_of_run (Prog.get_run s)] at h
  split_ifs at h
  · rw [Prog.bind_of_run (Prog.set_run _ _)] at h
    obtain ⟨hlt, rfl⟩ := Prog.lift_run.mp h
    exact ⟨ASSERT_eq_ok.mp hlt, rfl⟩
  · cases h

theorem scanLogic_run {lba cnt : UInt32} (h : s.lNo < 8) :
    scanLogic hd lba cnt s = .ok (decide (s.lNo + 1 < 8), s.addLogic hd lba cnt) := by
  rw [scanLogic, Prog.bind_of_run (Prog.get_run s), if_pos h, Prog.bind_of_run (Prog.set_run _ _)]
  rfl

theorem scanLogic_ok {lba cnt : UInt32} {more : Bool}
    (h : scanLogic hd lba cnt s = .ok (more, s')) :
    s.lNo < 8 ∧ more = decide (s.lNo + 1 < 8) ∧ s' = s.addLogic hd lba cnt := by
  by_cases hlt : s.lNo < 8
  · rw [scanLogic_run hlt] at h
    cases h
    exact ⟨hlt, rfl, rfl⟩
  · rw [scanLogic, Prog.bind_of_run (Prog.get_run s), if_neg hlt] at h
    cases h

/-! ### A way to the end gives a scan that returns -/

namespace PartitionTableEntry

theorem found_zero (p : PartitionTableEntry) :
    p.found 0 = .prim (0 + p.startLba) p.secCnt := if_pos rfl

theorem found_of_ne (p : PartitionTableEntry) (h : ext ≠ 0) :
    p.found ext = .logic (ext + p.startLba) p.secCnt := if_neg h

end PartitionTableEntry

/-- A partition that is neither the fourth primary one nor the eighth logical one. -/
theorem scanEntries_part (h : p.IsPart) (hprims : s.pNo + (primsOf [p.found ext]).length < 4)
    (hlogics : s.lNo + (logicsOf [p.found ext]).length < 8 ∨ logicsOf [p.found ext] = []) :
    scanEntries hd scan ext (p :: rest) s
      = scanEntries hd scan ext rest (s.add hd (p.found ext)) := by
  by_cases hext : ext = 0
  · subst hext
    rw [p.found_zero] at hprims ⊢
    rw [scanEntries_prim h, Prog.bind_of_run (scanPrim_run hprims)]
    rfl
  · rw [p.found_of_ne hext] at hlogics ⊢
    have hlt : s.lNo + 1 < 8 := by simpa using hlogics
    rw [scanEntries_logic h hext, Prog.bind_of_run (scanLogic_run (by omega)),
      if_pos (decide_eq_true hlt)]
    rfl

/-- An extended entry, once it is known what the table behind it and what comes after it do. -/
theorem link_run {base base₁ : UInt32} {fs fs' : List FoundEntry} {n m : Nat} (h : p.fsType = 5)
    (hbase : s.extLbaBase = base) (hlba : (p.target base).toNat ≤ maxLba)
    (hrun : ∀ fuel, n ≤ fuel → scanEntries hd (partitionScan hd fuel) (p.target base)
      (tableAt hd.data (p.target base)) (s.based (p.baseAfter base))
        = .ok ((), ((s.based (p.baseAfter base)).addAll hd fs).based base₁))
    (hthen : ∀ fuel, m ≤ fuel → scanEntries hd (partitionScan hd fuel) ext rest
      ((s.addAll hd fs).based base₁)
        = .ok ((), (((s.addAll hd fs).based base₁).addAll hd fs').based base')) :
    ∀ fuel, n + m + 1 ≤ fuel → scanEntries hd (partitionScan hd fuel) ext (p :: rest) s
      = .ok ((), (s.addAll hd (fs ++ fs')).based base') := by
  intro fuel hn
  obtain ⟨k, rfl⟩ : ∃ k, fuel = k + 1 := ⟨fuel - 1, by omega⟩
  have hscan : partitionScan hd (k + 1) (p.target base) (s.based (p.baseAfter base))
      = .ok ((), (s.addAll hd fs).based base₁) := by
    rw [partitionScan_succ hlba, hrun k (by omega), IdeGlobals.addAll_based,
      IdeGlobals.based_based]
  rw [scanEntries_link h, hbase, Prog.bind_of_run hscan, hthen _ (by omega),
    IdeGlobals.addAll_based, IdeGlobals.based_based, IdeGlobals.addAll_append]

theorem Lists.run {fs : List FoundEntry} (h : Lists hd.data base ext es fs base') :
    ∀ {s : IdeGlobals}, s.extLbaBase = base → s.pNo + (primsOf fs).length < 4 →
      (s.lNo + (logicsOf fs).length < 8 ∨ logicsOf fs = []) →
      ∃ n, ∀ fuel, n ≤ fuel → scanEntries hd (partitionScan hd fuel) ext es s
        = .ok ((), (s.addAll hd fs).based base') := by
  induction h with
  | nil =>
      intro s hbase hprims hlogics
      exact ⟨0, fun fuel _ => by rw [← hbase]; rfl⟩
  | unused h hrest ih =>
      intro s hbase hprims hlogics
      obtain ⟨n, hrun⟩ := ih hbase hprims hlogics
      exact ⟨n, fun fuel hn => by rw [scanEntries_unused h, hrun fuel hn]⟩
  | @part _ _ ext p rest fs h hrest ih =>
      intro s hbase hprims hlogics
      rw [← List.singleton_append, primsOf_append, List.length_append] at hprims
      rw [← List.singleton_append, logicsOf_append, List.length_append,
        List.append_eq_nil_iff] at hlogics
      obtain ⟨n, hrun⟩ := ih (s := s.add hd (p.found ext)) (by cases p.found ext <;> exact hbase)
        (by rw [IdeGlobals.add_pNo]; omega)
        (by rw [IdeGlobals.add_lNo]; exact hlogics.imp (fun h => by omega) (fun h => h.2))
      refine ⟨n, fun fuel hn => ?_⟩
      rw [scanEntries_part h (by omega) (hlogics.imp (fun h => by omega) (fun h => h.1)),
        hrun fuel hn]
      rfl
  | @link base base₁ base' ext p rest fs fs' h hlba hbehind hrest ihb ihr =>
      intro s hbase hprims hlogics
      rw [primsOf_append, List.length_append] at hprims
      rw [logicsOf_append, List.length_append, List.append_eq_nil_iff] at hlogics
      obtain ⟨n, hrun⟩ := ihb (s := s.based (p.baseAfter base)) rfl
        (by rw [IdeGlobals.based_pNo]; omega)
        (by rw [IdeGlobals.based_lNo]; exact hlogics.imp (fun h => by omega) (fun h => h.1))
      obtain ⟨m, hthen⟩ := ihr (s := (s.addAll hd fs).based base₁) rfl
        (by rw [IdeGlobals.based_pNo, IdeGlobals.addAll_pNo]; omega)
        (by
          rw [IdeGlobals.based_lNo, IdeGlobals.addAll_lNo]
          exact hlogics.imp (fun h => by omega) (fun h => h.2))
      exact ⟨n + m + 1, link_run h hbase hlba hrun hthen⟩

/-- A way that is cut short at the eighth logical partition. -/
theorem Cut.run {fs : List FoundEntry} (h : Cut hd.data base ext es fs base') :
    ∀ {s : IdeGlobals}, s.extLbaBase = base → s.pNo + (primsOf fs).length < 4 →
      s.lNo + (logicsOf fs).length = 8 →
      ∃ n, ∀ fuel, n ≤ fuel → scanEntries hd (partitionScan hd fuel) ext es s
        = .ok ((), (s.addAll hd fs).based base') := by
  induction h with
  | @here _ ext p rest h hext =>
      intro s hbase hprims hlogics
      rw [p.found_of_ne hext] at hlogics ⊢
      have hlast : s.lNo = 7 := by simpa using hlogics
      refine ⟨0, fun fuel _ => ?_⟩
      rw [scanEntries_logic h hext, Prog.bind_of_run (scanLogic_run (by omega)),
        if_neg (by simp [hlast]), ← hbase]
      rfl
  | unused h hrest ih =>
      intro s hbase hprims hlogics
      obtain ⟨n, hrun⟩ := ih hbase hprims hlogics
      exact ⟨n, fun fuel hn => by rw [scanEntries_unused h, hrun fuel hn]⟩
  | @part _ _ ext p rest fs h hrest ih =>
      intro s hbase hprims hlogics
      have hmore := hrest.logics_pos
      rw [← List.singleton_append, primsOf_append, List.length_append] at hprims
      rw [← List.singleton_append, logicsOf_append, List.length_append] at hlogics
      obtain ⟨n, hrun⟩ := ih (s := s.add hd (p.found ext)) (by cases p.found ext <;> exact hbase)
        (by rw [IdeGlobals.add_pNo]; omega) (by rw [IdeGlobals.add_lNo]; omega)
      refine ⟨n, fun fuel hn => ?_⟩
      rw [scanEntries_part h (by omega) (.inl (by omega)), hrun fuel hn]
      rfl
  | @past base base₁ base' ext p rest fs fs' h hlba hbehind hrest ihr =>
      intro s hbase hprims hlogics
      have hmore := hrest.logics_pos
      rw [primsOf_append, List.length_append] at hprims
      rw [logicsOf_append, List.length_append] at hlogics
      obtain ⟨n, hrun⟩ := hbehind.run (s := s.based (p.baseAfter base)) rfl
        (by rw [IdeGlobals.based_pNo]; omega) (.inl (by rw [IdeGlobals.based_lNo]; omega))
      obtain ⟨m, hthen⟩ := ihr (s := (s.addAll hd fs).based base₁) rfl
        (by rw [IdeGlobals.based_pNo, IdeGlobals.addAll_pNo]; omega)
        (by rw [IdeGlobals.based_lNo, IdeGlobals.addAll_lNo]; omega)
      exact ⟨n + m + 1, link_run h hbase hlba hrun hthen⟩
  | @into base base₁ base' ext p rest fs fs' h hlba hbehind hrest hnone ihb =>
      intro s hbase hprims hlogics
      rw [primsOf_append, List.length_append] at hprims
      rw [logicsOf_append, List.length_append, hnone] at hlogics
      obtain ⟨n, hrun⟩ := ihb (s := s.based (p.baseAfter base)) rfl
        (by rw [IdeGlobals.based_pNo]; omega) (by rw [IdeGlobals.based_lNo]; exact hlogics)
      obtain ⟨m, hthen⟩ := hrest.run (s := (s.addAll hd fs).based base₁) rfl
        (by rw [IdeGlobals.based_pNo, IdeGlobals.addAll_pNo]; omega) (.inr hnone)
      exact ⟨n + m + 1, link_run h hbase hlba hrun hthen⟩

/-! ### A scan that returns has gone one of the ways -/

/-- What a scan of these entries has found on its way from `s` to `s'`. -/
def Went (hd : HardDisk) (ext : UInt32) (es : List PartitionTableEntry) (s s' : IdeGlobals) :
    Prop :=
  ∃ fs base', s' = (s.addAll hd fs).based base' ∧ s.pNo + (primsOf fs).length < 4 ∧
    (Lists hd.data s.extLbaBase ext es fs base' ∧
        (s.lNo + (logicsOf fs).length < 8 ∨ logicsOf fs = []) ∨
      Cut hd.data s.extLbaBase ext es fs base' ∧ s.lNo + (logicsOf fs).length = 8)

theorem Went.unused (h : Went hd ext rest s s') (hp : p.fsType = 0) :
    Went hd ext (p :: rest) s s' := by
  obtain ⟨fs, base', hs', hprims, hway⟩ := h
  exact ⟨fs, base', hs', hprims, hway.imp (fun h => ⟨h.1.unused hp, h.2⟩)
    fun h => ⟨h.1.unused hp, h.2⟩⟩

theorem Went.part (h : Went hd ext rest (s.add hd (p.found ext)) s') (hp : p.IsPart)
    (hlogics : s.lNo + (logicsOf [p.found ext]).length < 8 ∨ logicsOf [p.found ext] = []) :
    Went hd ext (p :: rest) s s' := by
  obtain ⟨fs, base', hs', hprims, hway⟩ := h
  have hbase : (s.add hd (p.found ext)).extLbaBase = s.extLbaBase := by
    cases p.found ext <;> rfl
  rw [IdeGlobals.add_pNo] at hprims
  rw [IdeGlobals.add_lNo, hbase] at hway
  refine ⟨p.found ext :: fs, base', hs', ?_, ?_⟩
  · rw [← List.singleton_append, primsOf_append, List.length_append]
    omega
  · rw [show p.found ext :: fs = [p.found ext] ++ fs from rfl, logicsOf_append,
      List.length_append, List.append_eq_nil_iff]
    rcases hway with ⟨hr, hlt | hnil⟩ | ⟨hr, heq⟩
    · exact .inl ⟨.part hp hr, .inl (by omega)⟩
    · refine .inl ⟨.part hp hr, hlogics.imp (fun hlt => ?_) fun hnone => ⟨hnone, hnil⟩⟩
      rw [hnil, List.length_nil]
      omega
    · exact .inr ⟨.part hp hr, by omega⟩

theorem Went.link (hp : p.fsType = 5) (hlba : (p.target s.extLbaBase).toNat ≤ maxLba)
    {s₁ : IdeGlobals}
    (hb : Went hd (p.target s.extLbaBase) (tableAt hd.data (p.target s.extLbaBase))
      (s.based (p.baseAfter s.extLbaBase)) s₁)
    (hr : Went hd ext rest s₁ s') : Went hd ext (p :: rest) s s' := by
  obtain ⟨fs, base₁, rfl, hprims, hway⟩ := hb
  obtain ⟨fs', base', rfl, hprims', hway'⟩ := hr
  rw [IdeGlobals.addAll_based] at hprims' hway' ⊢
  rw [IdeGlobals.based_based, IdeGlobals.based_pNo, IdeGlobals.addAll_pNo] at hprims'
  rw [IdeGlobals.based_lNo, IdeGlobals.based_extLbaBase] at hway
  rw [IdeGlobals.based_based, IdeGlobals.based_lNo, IdeGlobals.addAll_lNo,
    IdeGlobals.based_extLbaBase] at hway'
  refine ⟨fs ++ fs', base', ?_, ?_, ?_⟩
  · rw [IdeGlobals.addAll_based, IdeGlobals.based_based, IdeGlobals.addAll_based,
      IdeGlobals.based_based, IdeGlobals.addAll_append]
  · rw [primsOf_append, List.length_append]
    omega
  · rw [logicsOf_append, List.length_append, List.append_eq_nil_iff]
    rcases hway with ⟨hb, hlt⟩ | ⟨hb, heq⟩
    · rcases hway' with ⟨hr, hlt' | hnil'⟩ | ⟨hr, heq'⟩
      · exact .inl ⟨.link hp hlba hb hr, .inl (by omega)⟩
      · refine .inl ⟨.link hp hlba hb hr, hlt.imp (fun hlt => ?_) fun hnil => ⟨hnil, hnil'⟩⟩
        rw [hnil', List.length_nil]
        omega
      · exact .inr ⟨.past hp hlba hb hr, by omega⟩
    · rcases hway' with ⟨hr, hlt'⟩ | ⟨hr, heq'⟩
      · -- eight have been found, so nothing more came up on the way back
        have hnil' : logicsOf fs' = [] := hlt'.resolve_left (by omega)
        exact .inr ⟨.into hp hlba hb hr hnil', by rw [hnil', List.length_nil]; omega⟩
      · have hpos := hr.logics_pos
        omega

/-- **What a scan has found when it returned.** -/
theorem scan_found : ∀ (fuel : Nat) (es : List PartitionTableEntry) (ext : UInt32)
    (s s' : IdeGlobals) (u : Unit), s.pNo < 4 →
    scanEntries hd (partitionScan hd fuel) ext es s = .ok (u, s') → Went hd ext es s s' := by
  intro fuel
  induction fuel using Nat.strong_induction_on with
  | _ fuel ih =>
      intro es
      induction es with
      | nil =>
          intro ext s s' u hprims hrun
          cases hrun
          exact ⟨[], s.extLbaBase, rfl, hprims, .inl ⟨.nil, .inr rfl⟩⟩
      | cons p rest ihr =>
          intro ext s s' u hprims hrun
          by_cases hunused : p.fsType = 0
          · rw [scanEntries_unused hunused] at hrun
            exact (ihr ext s s' u hprims hrun).unused hunused
          by_cases hlink : p.fsType = 5
          · rw [scanEntries_link hlink] at hrun
            obtain ⟨_, s₁, hscan, hrest⟩ := Prog.bind_run.mp hrun
            obtain ⟨n, rfl, hlba, hbehind⟩ := partitionScan_ok hscan
            have hway := ih n (by omega) _ _ (s.based (p.baseAfter s.extLbaBase)) _ _ hprims hbehind
            have hprims₁ : s₁.pNo < 4 := by
              obtain ⟨fs, base₁, rfl, hp, -⟩ := hway
              rw [IdeGlobals.based_pNo, IdeGlobals.addAll_pNo]
              exact hp
            exact .link hlink hlba hway (ihr ext s₁ s' u hprims₁ hrest)
          -- what is left is a partition
          have hpart : p.IsPart := ⟨hunused, hlink⟩
          by_cases hext : ext = 0
          · subst hext
            rw [scanEntries_prim hpart] at hrun
            obtain ⟨_, s₁, hprim, hrest⟩ := Prog.bind_run.mp hrun
            obtain ⟨hlt, rfl⟩ := scanPrim_ok hprim
            have hway := ihr 0 _ s' u hlt hrest
            rw [← show s.add hd (p.found 0) = s.addPrim hd (0 + p.startLba) p.secCnt by
              rw [p.found_zero]; rfl] at hway
            exact hway.part hpart (.inr (by rw [p.found_zero]; rfl))
          · rw [scanEntries_logic hpart hext] at hrun
            obtain ⟨more, s₁, hlogic, hrest⟩ := Prog.bind_run.mp hrun
            obtain ⟨hroom, rfl, rfl⟩ := scanLogic_ok hlogic
            have hadd : s.add hd (p.found ext) = s.addLogic hd (ext + p.startLba) p.secCnt := by
              rw [p.found_of_ne hext]
              rfl
            by_cases hlt : s.lNo + 1 < 8
            · rw [if_pos (decide_eq_true hlt)] at hrest
              have hway := ihr ext (s.addLogic hd _ _) s' u hprims hrest
              rw [← hadd] at hway
              exact hway.part hpart (.inl (by rw [p.found_of_ne hext]; exact hlt))
            · rw [if_neg (by simpa using Nat.le_of_not_lt hlt)] at hrest
              cases hrest
              refine ⟨[p.found ext], s.extLbaBase, ?_, ?_, .inr ⟨.here hpart hext, ?_⟩⟩
              · rw [IdeGlobals.addAll_cons, hadd]
                rfl
              · rw [p.found_of_ne hext]
                exact hprims
              · rw [p.found_of_ne hext]
                show s.lNo + 1 = 8
                omega

/-! ### Scanning ends well or it does not -/

/-- `partition_scan(hd, 0)` returns with these globals. -/
def ScansTo (hd : HardDisk) (s s' : IdeGlobals) : Prop :=
  ∃ fuel, partitionScan hd fuel 0 s = .ok ((), s')

/-- `partition_scan(hd, 0)` returns: it does not go on for ever, stores nothing outside the
arrays, and no `ASSERT` fails. -/
def ScanReturns (hd : HardDisk) (s : IdeGlobals) : Prop :=
  ∃ fuel s', partitionScan hd fuel 0 s = .ok ((), s')

/-- What the tables say from the base on is what any scan with enough fuel records. -/
theorem scan_eventually {fs : List FoundEntry} (hprims : s.pNo = 0) (hlogics : s.lNo = 0)
    (hp : (primsOf fs).length ≤ 3)
    (hway : Lists hd.data s.extLbaBase 0 (tableAt hd.data 0) fs base' ∧ (logicsOf fs).length < 8 ∨
      Cut hd.data s.extLbaBase 0 (tableAt hd.data 0) fs base' ∧ (logicsOf fs).length = 8) :
    ∃ n, ∀ fuel, n ≤ fuel →
      partitionScan hd fuel 0 s = .ok ((), (s.addAll hd fs).based base') := by
  have hrun : ∃ n, ∀ fuel, n ≤ fuel → scanEntries hd (partitionScan hd fuel) 0
      (tableAt hd.data 0) s = .ok ((), (s.addAll hd fs).based base') := by
    rcases hway with ⟨h, hlt⟩ | ⟨h, heq⟩
    · exact h.run rfl (by omega) (.inl (by omega))
    · exact h.run rfl (by omega) (by omega)
  obtain ⟨n, hrun⟩ := hrun
  refine ⟨n + 1, fun fuel hn => ?_⟩
  obtain ⟨k, rfl⟩ : ∃ k, fuel = k + 1 := ⟨fuel - 1, by omega⟩
  rw [partitionScan_succ (by decide), hrun k (by omega)]

/-- What a scan that begins with no partition of the disk has recorded when it returns. -/
theorem scansTo_iff (hprims : s.pNo = 0) (hlogics : s.lNo = 0) :
    ScansTo hd s s' ↔ ∃ fs base', s' = (s.addAll hd fs).based base' ∧ (primsOf fs).length ≤ 3 ∧
      (Lists hd.data s.extLbaBase 0 (tableAt hd.data 0) fs base' ∧ (logicsOf fs).length < 8 ∨
        Cut hd.data s.extLbaBase 0 (tableAt hd.data 0) fs base' ∧ (logicsOf fs).length = 8) := by
  constructor
  · rintro ⟨fuel, hrun⟩
    obtain ⟨n, -, -, hscan⟩ := partitionScan_ok hrun
    obtain ⟨fs, base', hs', hp, hway⟩ := scan_found n _ _ s _ _ (by omega) hscan
    rw [hlogics, Nat.zero_add] at hway
    refine ⟨fs, base', hs', by omega, hway.imp (fun h => ⟨h.1, ?_⟩) id⟩
    exact h.2.elim id fun hnil => by rw [hnil]; decide
  · rintro ⟨fs, base', rfl, hp, hway⟩
    obtain ⟨n, hrun⟩ := scan_eventually hprims hlogics hp hway
    exact ⟨n, hrun n (Nat.le_refl n)⟩

/-- **A scan ends well** just when what it can find on the disk does. -/
theorem scan_ends_iff (hd : HardDisk) (s : IdeGlobals) (hbase : s.extLbaBase = 0)
    (hprims : s.pNo = 0) (hlogics : s.lNo = 0) : ScanReturns hd s ↔ EndsWell hd.data := by
  constructor
  · rintro ⟨fuel, s', hrun⟩
    obtain ⟨fs, base', -, hp, hway⟩ := (scansTo_iff hprims hlogics).mp ⟨fuel, hrun⟩
    rw [hbase] at hway
    exact ⟨fs, base', hp, hway⟩
  · rintro ⟨fs, base', hp, hway⟩
    obtain ⟨fuel, hrun⟩ := (@scansTo_iff hd _ _ hprims hlogics).mpr
      ⟨fs, base', rfl, hp, by rw [hbase]; exact hway⟩
    exact ⟨fuel, _, hrun⟩

/-! ### Disks with given tables -/

/-- The bytes of an entry. -/
def PartitionTableEntry.toMem (p : PartitionTableEntry) : Mem := fun j =>
  if j = 4 then p.fsType
  else if 8 ≤ j ∧ j < 12 then byteOf p.startLba (j - 8)
  else if 12 ≤ j ∧ j < 16 then byteOf p.secCnt (j - 12)
  else 0

/-- The disk whose sectors hold these tables, four entries each. -/
def diskWith (tables : Nat → Nat → PartitionTableEntry) : Disk := fun i =>
  if 446 ≤ i % 512 ∧ i % 512 < 510 then
    (tables (i / 512) ((i % 512 - 446) / 16)).toMem ((i % 512 - 446) % 16)
  else 0

theorem diskWith_entry (tables : Nat → Nat → PartitionTableEntry) {lba k j : Nat} (hk : k < 4)
    (hj : j < 16) :
    diskWith tables (512 * lba + (446 + 16 * k + j)) = (tables lba k).toMem j := by
  have hmod : (512 * lba + (446 + 16 * k + j)) % 512 = 446 + 16 * k + j := by omega
  have hdiv : (512 * lba + (446 + 16 * k + j)) / 512 = lba := by omega
  have hidx : (446 + 16 * k + j - 446) / 16 = k := by omega
  have hoff : (446 + 16 * k + j - 446) % 16 = j := by omega
  rw [diskWith, hmod, if_pos (by omega), hdiv, hidx, hoff]

/-- The tables are there to be read. -/
theorem tableAt_diskWith (tables : Nat → Nat → PartitionTableEntry) (lba : UInt32) :
    tableAt (diskWith tables) lba = (List.range 4).map (tables lba.toNat) := by
  refine List.map_congr_left fun k hk => ?_
  have hk4 : k < 4 := List.mem_range.mp hk
  have hbyte : ∀ j < 16, ((diskWith tables).drop (512 * lba.toNat)).drop (446 + 16 * k) j
      = (tables lba.toNat k).toMem j := fun j hj => diskWith_entry tables hk4 hj
  have hword : ∀ (a : Nat) (w : UInt32), a + 4 ≤ 16 →
      (∀ j < 4, (tables lba.toNat k).toMem (a + j) = byteOf w j) →
      getWord (((diskWith tables).drop (512 * lba.toNat)).drop (446 + 16 * k)) a = w :=
    fun a w ha hw => getWord_byteOf fun j hj => by rw [hbyte _ (by omega), hw j hj]
  have hstart := hword 8 (tables lba.toNat k).startLba (by decide) fun j hj => by
    interval_cases j <;> rfl
  have hcnt := hword 12 (tables lba.toNat k).secCnt (by decide) fun j hj => by
    interval_cases j <;> rfl
  rw [PartitionTableEntry.ofMem, hbyte 4 (by decide), hstart, hcnt]
  rfl

/-- An unused entry. -/
def PartitionTableEntry.zero : PartitionTableEntry := ⟨0, 0, 0⟩

/-- Behind the master boot record is a table whose first entry leads to the table itself. -/
def cyclicDisk : HardDisk where
  no := 1
  name := "sdb"
  data := diskWith fun lba k =>
    if lba = 0 ∧ k = 0 then ⟨5, 1, 0⟩
    else if lba = 1 ∧ k = 0 then ⟨5, 0, 0⟩
    else .zero

/-- Four tables one behind the other, each with partitions after the way to the next; there are
eleven in all. -/
def overfullDisk : HardDisk where
  no := 1
  name := "sdb"
  data := diskWith fun lba k =>
    if lba = 0 then if k = 0 then ⟨5, 1, 0⟩ else .zero
    else if lba ≤ 3 then if k = 0 then ⟨5, UInt32.ofNat lba, 0⟩ else ⟨0x83, 1, 1⟩
    else if lba = 4 then ⟨0x83, 1, 1⟩
    else .zero

/-- One primary partition, and an extended one with one logical partition in it. -/
def plainDisk : HardDisk where
  no := 1
  name := "sdb"
  data := diskWith fun lba k =>
    if lba = 0 ∧ k = 0 then ⟨0x83, 100, 1000⟩
    else if lba = 0 ∧ k = 1 then ⟨5, 2000, 1000⟩
    else if lba = 2000 ∧ k = 0 then ⟨0x83, 63, 900⟩
    else .zero

theorem cyclicDisk_one : tableAt cyclicDisk.data 1 = [⟨5, 0, 0⟩, .zero, .zero, .zero] := by
  rw [cyclicDisk, tableAt_diskWith]
  simp [List.range_succ]

theorem cyclicDisk_zero : tableAt cyclicDisk.data 0 = [⟨5, 1, 0⟩, .zero, .zero, .zero] := by
  rw [cyclicDisk, tableAt_diskWith]
  simp [List.range_succ]

theorem scan_ends_plain : ScanReturns plainDisk .start ∧ EndsWell plainDisk.data := by
  have hscan : ScanReturns plainDisk .start :=
    ⟨4, _, Prog.run_of_answer (by decide +kernel)⟩
  exact ⟨hscan, (scan_ends_iff plainDisk .start rfl rfl rfl).mp hscan⟩

theorem cyclicDisk_goes_on : ∀ (fuel : Nat) (s : IdeGlobals) (r : Unit × IdeGlobals),
    s.extLbaBase = 1 → partitionScan cyclicDisk fuel 1 s ≠ .ok r := by
  intro fuel
  induction fuel with
  | zero => intro s r _ h; cases h
  | succ n ih =>
      intro s r hbase h
      obtain ⟨m, hm, -, hscan⟩ := @partitionScan_ok _ _ _ r.2 _ r.1 h
      obtain rfl : n = m := Nat.succ.inj hm
      rw [cyclicDisk_one, scanEntries_link rfl, hbase] at hscan
      obtain ⟨_, s₁, hagain, -⟩ := Prog.bind_run.mp hscan
      exact ih _ _ rfl hagain

/-- A table that leads to itself is followed for ever, and when there are more than eight logical
partitions one is stored behind the array. -/
theorem scan_unsafe : ¬ ScanReturns cyclicDisk .start ∧
    ∃ fuel, partitionScan overfullDisk fuel 0 .start = .error (.fault "partition_scan") := by
  refine ⟨?_, 6, ?_⟩
  · rintro ⟨fuel, s', hrun⟩
    obtain ⟨n, -, -, hscan⟩ := partitionScan_ok hrun
    rw [cyclicDisk_zero, scanEntries_link rfl] at hscan
    obtain ⟨_, s₁, hagain, -⟩ := Prog.bind_run.mp hscan
    exact cyclicDisk_goes_on n _ _ rfl hagain
  · have herror : (match partitionScan overfullDisk 6 0 .start with
        | .error e => some e
        | .ok _ => none) = some (.fault "partition_scan") := by decide +kernel
    cases hrun : partitionScan overfullDisk 6 0 .start with
    | ok r => rw [hrun] at herror; cases herror
    | error e => rw [hrun] at herror; rw [Option.some.inj herror]

end ZyOs
