/-
What a scan makes of a well-formed partition table.

The tables of a well-formed disk are described the way the format has it: the master boot
record names primary partitions and at most one extended one, and from there each table names
one logical partition and the next table, the one relative to itself and the other to the
beginning of the whole extended partition.  Sectors are counted from the beginning of the disk.
The scan decodes just this, as long as there is no fourth primary partition and every table it
looks at is in reach of the driver.
-/
import ZyOs.Proofs.PartitionScan

namespace ZyOs

open Library

/-! ### The format -/

/-- A partition: its first sector, from the beginning of the disk, and its size. -/
structure Extent where
  lba : Nat
  cnt : Nat

/-- What an entry of the master boot record says. -/
inductive MbrEntry where
  | unused
  | primary (e : Extent)
  | extended (lba : Nat)

/-- A table behind the master boot record: its sector, and the logical partition in it. -/
structure Ebr where
  lba : Nat
  logical : Option Extent

/-- What a disk is divided into. -/
structure PartitionTable where
  mbr : List MbrEntry
  chain : List Ebr

/-- The entry is that of this partition, counted from sector `rel`. -/
def PartitionTableEntry.IsExtent (p : PartitionTableEntry) (rel : Nat) (e : Extent) : Prop :=
  p.IsPart ∧ rel + p.startLba.toNat = e.lba ∧ e.lba < 2 ^ 32 ∧ p.secCnt.toNat = e.cnt

/-- The entry leads to this sector, counted from sector `rel`. -/
def PartitionTableEntry.IsLink (p : PartitionTableEntry) (rel lba : Nat) : Prop :=
  p.fsType = 5 ∧ rel + p.startLba.toNat = lba ∧ lba < 2 ^ 32

/-- An entry of the master boot record. -/
def MbrEntry.Is : MbrEntry → PartitionTableEntry → Prop
  | .unused, p => p.fsType = 0
  | .primary e, p => p.IsExtent 0 e
  | .extended lba, p => p.IsLink 0 lba

def MbrEntry.prim? : MbrEntry → Option Extent
  | .primary e => some e
  | _ => none

def MbrEntry.ext? : MbrEntry → Option Nat
  | .extended lba => some lba
  | _ => none

/-- The table `e` is in its sector, with `next` behind it; `base` is where the whole extended
partition begins. -/
def Ebr.IsAt (data : Disk) (base : Nat) (e : Ebr) (next : Option Ebr) : Prop :=
  ∃ p q r t, tableAt data (UInt32.ofNat e.lba) = [p, q, r, t] ∧
    (match e.logical with
      | none => p.fsType = 0
      | some x => p.IsExtent e.lba x) ∧
    (match next with
      | none => q.fsType = 0
      | some n => q.IsLink base n.lba) ∧ r.fsType = 0 ∧ t.fsType = 0

/-- These tables are on the disk, each leading to the next. -/
def IsChain (data : Disk) (base : Nat) : List Ebr → Prop
  | [] => True
  | e :: rest => e.IsAt data base rest.head? ∧ IsChain data base rest

namespace PartitionTable

/-- The primary partitions, as they stand in the master boot record. -/
def prims (t : PartitionTable) : List Extent := t.mbr.filterMap MbrEntry.prim?

/-- Where there is an extended one. -/
def extendeds (t : PartitionTable) : List Nat := t.mbr.filterMap MbrEntry.ext?

/-- The logical partitions, in chain order. -/
def logics (t : PartitionTable) : List Extent := t.chain.filterMap Ebr.logical

/-- **A well-formed partition table.**  There is at most one extended partition, the chain begins
there, and it has at most eight logical partitions. -/
structure OnDisk (t : PartitionTable) (data : Disk) : Prop where
  entries : List.Forall₂ MbrEntry.Is t.mbr (tableAt data 0)
  one : t.extendeds = t.chain.head?.toList.map Ebr.lba
  start : ∀ lba ∈ t.extendeds, 0 < lba ∧ IsChain data lba t.chain
  eight : t.logics.length ≤ 8

end PartitionTable

/-- The tables on the way when there is room for `n` logical partitions: the one that takes the
last place is the last that is looked at. -/
def ebrsRead : Nat → List Ebr → List Ebr
  | _, [] => []
  | n, e :: rest =>
      e :: if e.logical.isSome then if n ≤ 1 then [] else ebrsRead (n - 1) rest
        else ebrsRead n rest

/-- A slot holds this partition. -/
def PartInfo.Holds (i : PartInfo) (e : Extent) : Prop :=
  i.startLba.toNat = e.lba ∧ i.secCnt.toNat = e.cnt

/-- **From `s` to `s'` these partitions of `hd` have been recorded**, each in its place and each
once in the list. -/
structure RecordedParts (hd : HardDisk) (prims logics : List Extent) (s s' : IdeGlobals) : Prop where
  prim : List.Forall₂ PartInfo.Holds
    ((List.range prims.length).map (s'.parts hd.no).primParts) prims
  logic : List.Forall₂ PartInfo.Holds
    ((List.range logics.length).map (s'.parts hd.no).logicParts) logics
  primRest : ∀ i, prims.length ≤ i → (s'.parts hd.no).primParts i = (s.parts hd.no).primParts i
  logicRest : ∀ i, logics.length ≤ i →
    (s'.parts hd.no).logicParts i = (s.parts hd.no).logicParts i
  others : ∀ no, no ≠ hd.no → s'.parts no = s.parts no
  listed : ∃ tags, s'.partitionList = s.partitionList ++ tags ∧
    tags.Perm ((List.range prims.length).map (fun i => (hd.no, .prim i)) ++
      (List.range logics.length).map (fun i => (hd.no, .logic i)))

variable {data : Disk} {hd : HardDisk} {base base' ext : UInt32} {p : PartitionTableEntry}
  {rest es : List PartitionTableEntry} {fs : List FoundEntry} {s s' : IdeGlobals}

/-! ### Taking a way apart -/

namespace Lists

@[simp] theorem nil_iff : Lists data base ext [] fs base' ↔ fs = [] ∧ base' = base := by
  constructor
  · intro h
    cases h
    exact ⟨rfl, rfl⟩
  · rintro ⟨rfl, rfl⟩
    exact .nil

theorem unused_iff (hp : p.fsType = 0) :
    Lists data base ext (p :: rest) fs base' ↔ Lists data base ext rest fs base' := by
  constructor
  · intro h
    cases h with
    | unused _ hrest => exact hrest
    | part hpart _ => exact absurd hp hpart.1
    | link hlink _ _ _ => rw [hp] at hlink; cases hlink
  · exact .unused hp

theorem part_iff (hp : p.IsPart) :
    Lists data base ext (p :: rest) fs base' ↔
      ∃ fs', fs = p.found ext :: fs' ∧ Lists data base ext rest fs' base' := by
  constructor
  · intro h
    cases h with
    | unused hnone _ => exact absurd hnone hp.1
    | part _ hrest => exact ⟨_, rfl, hrest⟩
    | link hlink _ _ _ => exact absurd hlink hp.2
  · rintro ⟨fs', rfl, hrest⟩
    exact .part hp hrest

theorem link_iff (hp : p.fsType = 5) :
    Lists data base ext (p :: rest) fs base' ↔ (p.target base).toNat ≤ maxLba ∧
      ∃ fs₁ fs₂ base₁, fs = fs₁ ++ fs₂ ∧ Lists data (p.baseAfter base) (p.target base)
        (tableAt data (p.target base)) fs₁ base₁ ∧ Lists data base₁ ext rest fs₂ base' := by
  constructor
  · intro h
    cases h with
    | unused hnone _ => rw [hp] at hnone; cases hnone
    | part hpart _ => exact absurd hp hpart.2
    | link _ hlba hbehind hrest => exact ⟨hlba, _, _, _, rfl, hbehind, hrest⟩
  · rintro ⟨hlba, fs₁, fs₂, base₁, rfl, hbehind, hrest⟩
    exact .link hp hlba hbehind hrest

end Lists

namespace Cut

@[simp] theorem nil_iff : ¬ Cut data base ext [] fs base' := nofun

theorem unused_iff (hp : p.fsType = 0) :
    Cut data base ext (p :: rest) fs base' ↔ Cut data base ext rest fs base' := by
  constructor
  · intro h
    cases h with
    | here hpart _ => exact absurd hp hpart.1
    | unused _ hrest => exact hrest
    | part hpart _ => exact absurd hp hpart.1
    | past hlink _ _ _ => rw [hp] at hlink; cases hlink
    | into hlink _ _ _ _ => rw [hp] at hlink; cases hlink
  · exact .unused hp

theorem part_iff (hp : p.IsPart) :
    Cut data base ext (p :: rest) fs base' ↔
      (ext ≠ 0 ∧ fs = [p.found ext] ∧ base' = base) ∨
        ∃ fs', fs = p.found ext :: fs' ∧ Cut data base ext rest fs' base' := by
  constructor
  · intro h
    cases h with
    | here _ hext => exact .inl ⟨hext, rfl, rfl⟩
    | unused hnone _ => exact absurd hnone hp.1
    | part _ hrest => exact .inr ⟨_, rfl, hrest⟩
    | past hlink _ _ _ => exact absurd hlink hp.2
    | into hlink _ _ _ _ => exact absurd hlink hp.2
  · rintro (⟨hext, rfl, rfl⟩ | ⟨fs', rfl, hrest⟩)
    · exact .here hp hext
    · exact .part hp hrest

theorem link_iff (hp : p.fsType = 5) :
    Cut data base ext (p :: rest) fs base' ↔ (p.target base).toNat ≤ maxLba ∧
      ∃ fs₁ fs₂ base₁, fs = fs₁ ++ fs₂ ∧
        (Lists data (p.baseAfter base) (p.target base) (tableAt data (p.target base)) fs₁ base₁ ∧
            Cut data base₁ ext rest fs₂ base' ∨
          Cut data (p.baseAfter base) (p.target base) (tableAt data (p.target base)) fs₁ base₁ ∧
            Lists data base₁ ext rest fs₂ base' ∧ logicsOf fs₂ = []) := by
  constructor
  · intro h
    cases h with
    | here hpart _ => exact absurd hp hpart.2
    | unused hnone _ => rw [hp] at hnone; cases hnone
    | part hpart _ => exact absurd hp hpart.2
    | past _ hlba hbehind hrest => exact ⟨hlba, _, _, _, rfl, .inl ⟨hbehind, hrest⟩⟩
    | into _ hlba hbehind hrest hnone =>
        exact ⟨hlba, _, _, _, rfl, .inr ⟨hbehind, hrest, hnone⟩⟩
  · rintro ⟨hlba, fs₁, fs₂, base₁, rfl, ⟨hbehind, hrest⟩ | ⟨hbehind, hrest, hnone⟩⟩
    · exact .past hp hlba hbehind hrest
    · exact .into hp hlba hbehind hrest hnone

end Cut

/-! ### The words on the disk -/

/-- What comes up when a logical partition does. -/
def Extent.asLogic (e : Extent) : FoundEntry := .logic (.ofNat e.lba) (.ofNat e.cnt)

/-- What comes up when a primary one does. -/
def Extent.asPrim (e : Extent) : FoundEntry := .prim (.ofNat e.lba) (.ofNat e.cnt)

theorem add_eq_ofNat {w : UInt32} {rel n : Nat} (h : rel + w.toNat = n) (hlt : n < 2 ^ 32) :
    UInt32.ofNat rel + w = UInt32.ofNat n := by
  refine UInt32.toNat_inj.mp ?_
  rw [UInt32.toNat_add, UInt32.toNat_ofNat_of_lt' (show rel < 2 ^ 32 by omega),
    UInt32.toNat_ofNat_of_lt' hlt, h, Nat.mod_eq_of_lt hlt]

namespace PartitionTableEntry

theorem IsExtent.found_logic {rel : Nat} {e : Extent} (h : p.IsExtent rel e) (hrel : 0 < rel) :
    p.found (UInt32.ofNat rel) = e.asLogic := by
  obtain ⟨-, hlba, hlt, hcnt⟩ := h
  rw [found_of_ne p (ofNat_ne_zero hrel (by omega)), add_eq_ofNat hlba hlt, Extent.asLogic, ← hcnt,
    UInt32.ofNat_toNat]

theorem IsExtent.found_prim {e : Extent} (h : p.IsExtent 0 e) : p.found 0 = e.asPrim := by
  obtain ⟨-, hlba, hlt, hcnt⟩ := h
  rw [found_zero, show (0 : UInt32) = UInt32.ofNat 0 from rfl, add_eq_ofNat hlba hlt,
    Extent.asPrim, ← hcnt, UInt32.ofNat_toNat]

/-- A table behind: the entry leads on from where the whole extended partition begins. -/
theorem IsLink.target {b lba : Nat} (h : p.IsLink b lba) (hb : 0 < b) :
    p.target (UInt32.ofNat b) = UInt32.ofNat lba ∧
      p.baseAfter (UInt32.ofNat b) = UInt32.ofNat b := by
  obtain ⟨-, hlba, hlt⟩ := h
  have hne : UInt32.ofNat b ≠ 0 := ofNat_ne_zero hb (by omega)
  rw [PartitionTableEntry.target, baseAfter, if_pos hne, if_pos hne, UInt32.add_comm,
    add_eq_ofNat hlba hlt]
  exact ⟨rfl, rfl⟩

/-- The extended entry of the master boot record: it sets the base. -/
theorem IsLink.target_zero {lba : Nat} (h : p.IsLink 0 lba) :
    p.target 0 = UInt32.ofNat lba ∧ p.baseAfter 0 = UInt32.ofNat lba := by
  obtain ⟨-, hlba, -⟩ := h
  have hstart : p.startLba = UInt32.ofNat lba := by
    rw [← hlba, Nat.zero_add, UInt32.ofNat_toNat]
  exact ⟨hstart, hstart⟩

end PartitionTableEntry

/-! ### The chain -/

variable {e n : Ebr} {ebrs : List Ebr} {b : Nat}

/-- The table of `e`, when it is the last. -/
theorem lists_last (hat : e.IsAt data b none) (he : 0 < e.lba) :
    Lists data base (.ofNat e.lba) (tableAt data (.ofNat e.lba)) fs base' ↔
      fs = e.logical.toList.map Extent.asLogic ∧ base' = base := by
  obtain ⟨p, q, r, t, htable, hp, hq, hr, ht⟩ := hat
  rw [htable]
  cases hlogical : e.logical with
  | none =>
      rw [hlogical] at hp
      rw [Lists.unused_iff hp, Lists.unused_iff hq, Lists.unused_iff hr, Lists.unused_iff ht,
        Lists.nil_iff]
      rfl
  | some x =>
      rw [hlogical] at hp
      simp only [Lists.part_iff hp.1, Lists.unused_iff hq, Lists.unused_iff hr,
        Lists.unused_iff ht, Lists.nil_iff, hp.found_logic he]
      constructor
      · rintro ⟨fs', rfl, rfl, rfl⟩
        exact ⟨rfl, rfl⟩
      · rintro ⟨rfl, rfl⟩
        exact ⟨[], rfl, rfl, rfl⟩

/-- The table of `e`, with another behind it. -/
theorem lists_next (hat : e.IsAt data b (some n)) (he : 0 < e.lba) (hb : 0 < b) :
    Lists data (.ofNat b) (.ofNat e.lba) (tableAt data (.ofNat e.lba)) fs base' ↔
      n.lba ≤ maxLba ∧ ∃ fs', fs = e.logical.toList.map Extent.asLogic ++ fs' ∧
        Lists data (.ofNat b) (.ofNat n.lba) (tableAt data (.ofNat n.lba)) fs' base' := by
  obtain ⟨p, q, r, t, htable, hp, hq, hr, ht⟩ := hat
  have hlba : (UInt32.ofNat n.lba).toNat = n.lba := UInt32.toNat_ofNat_of_lt' hq.2.2
  have hlink : ∀ {fs}, Lists data (.ofNat b) (.ofNat e.lba) [q, r, t] fs base' ↔ n.lba ≤ maxLba ∧
      Lists data (.ofNat b) (.ofNat n.lba) (tableAt data (.ofNat n.lba)) fs base' := by
    intro fs
    simp only [Lists.link_iff hq.1, (hq.target hb).1, (hq.target hb).2, hlba, Lists.unused_iff hr,
      Lists.unused_iff ht, Lists.nil_iff]
    refine and_congr_right fun _ => ?_
    constructor
    · rintro ⟨fs₁, fs₂, base₁, rfl, hbehind, rfl, rfl⟩
      rwa [List.append_nil]
    · intro hbehind
      exact ⟨fs, [], base', (List.append_nil fs).symm, hbehind, rfl, rfl⟩
  rw [htable]
  cases hlogical : e.logical with
  | none =>
      rw [hlogical] at hp
      rw [Lists.unused_iff hp, hlink]
      simp
  | some x =>
      rw [hlogical] at hp
      simp only [Lists.part_iff hp.1, hlink, hp.found_logic he]
      constructor
      · rintro ⟨fs', rfl, hle, hbehind⟩
        exact ⟨hle, fs', rfl, hbehind⟩
      · rintro ⟨hle, fs', rfl, hbehind⟩
        exact ⟨fs', rfl, hle, hbehind⟩

theorem cut_last (hat : e.IsAt data b none) (he : 0 < e.lba) :
    Cut data base (.ofNat e.lba) (tableAt data (.ofNat e.lba)) fs base' ↔
      ∃ x, e.logical = some x ∧ fs = [x.asLogic] ∧ base' = base := by
  obtain ⟨p, q, r, t, htable, hp, hq, hr, ht⟩ := hat
  rw [htable]
  cases hlogical : e.logical with
  | none =>
      rw [hlogical] at hp
      simp [Cut.unused_iff hp, Cut.unused_iff hq, Cut.unused_iff hr, Cut.unused_iff ht]
  | some x =>
      rw [hlogical] at hp
      have hne : UInt32.ofNat e.lba ≠ 0 := ofNat_ne_zero he (by have := hp.2; omega)
      simp [Cut.part_iff hp.1, Cut.unused_iff hq, Cut.unused_iff hr, Cut.unused_iff ht,
        hp.found_logic he, hne]

/-- Going through a table ends at its logical partition or behind it. -/
theorem cut_next (hat : e.IsAt data b (some n)) (he : 0 < e.lba) (hb : 0 < b) :
    Cut data (.ofNat b) (.ofNat e.lba) (tableAt data (.ofNat e.lba)) fs base' ↔
      (∃ x, e.logical = some x ∧ fs = [x.asLogic] ∧ base' = .ofNat b) ∨
        n.lba ≤ maxLba ∧ ∃ fs', fs = e.logical.toList.map Extent.asLogic ++ fs' ∧
          Cut data (.ofNat b) (.ofNat n.lba) (tableAt data (.ofNat n.lba)) fs' base' := by
  obtain ⟨p, q, r, t, htable, hp, hq, hr, ht⟩ := hat
  have hlba : (UInt32.ofNat n.lba).toNat = n.lba := UInt32.toNat_ofNat_of_lt' hq.2.2
  have hlink : ∀ {fs}, Cut data (.ofNat b) (.ofNat e.lba) [q, r, t] fs base' ↔ n.lba ≤ maxLba ∧
      Cut data (.ofNat b) (.ofNat n.lba) (tableAt data (.ofNat n.lba)) fs base' := by
    intro fs
    simp only [Cut.link_iff hq.1, (hq.target hb).1, (hq.target hb).2, hlba, Cut.unused_iff hr,
      Cut.unused_iff ht, Cut.nil_iff, Lists.unused_iff hr, Lists.unused_iff ht, Lists.nil_iff]
    refine and_congr_right fun _ => ?_
    constructor
    · rintro ⟨fs₁, fs₂, base₁, rfl, ⟨-, hnil⟩ | ⟨hbehind, ⟨rfl, rfl⟩, -⟩⟩
      · exact hnil.elim
      · rwa [List.append_nil]
    · intro hbehind
      exact ⟨fs, [], base', (List.append_nil fs).symm, .inr ⟨hbehind, ⟨rfl, rfl⟩, rfl⟩⟩
  rw [htable]
  cases hlogical : e.logical with
  | none =>
      rw [hlogical] at hp
      rw [Cut.unused_iff hp, hlink]
      simp
  | some x =>
      rw [hlogical] at hp
      have hne : UInt32.ofNat e.lba ≠ 0 := ofNat_ne_zero he (by have := hp.2; omega)
      simp only [Cut.part_iff hp.1, hlink, hp.found_logic he]
      constructor
      · rintro (⟨-, hfs, hbase⟩ | ⟨fs', rfl, hle, hbehind⟩)
        · exact .inl ⟨x, rfl, hfs, hbase⟩
        · exact .inr ⟨hle, fs', rfl, hbehind⟩
      · rintro (⟨x', hx', hfs, hbase⟩ | ⟨hle, fs', rfl, hbehind⟩)
        · cases hx'
          exact .inl ⟨hne, hfs, hbase⟩
        · exact .inr ⟨fs', rfl, hle, hbehind⟩

theorem Ebr.IsAt.next_pos (hat : e.IsAt data b (some n)) (hb : 0 < b) : 0 < n.lba := by
  obtain ⟨p, q, r, t, -, -, hq, -⟩ := hat
  have := hq.2.1
  omega

theorem logics_cons (e : Ebr) (ebrs : List Ebr) :
    (e :: ebrs).filterMap Ebr.logical = e.logical.toList ++ ebrs.filterMap Ebr.logical := by
  cases h : e.logical <;> simp [h]

/-- Going through a chain to its end: every table has to be in reach. -/
theorem chain_lists (hb : 0 < b) : ∀ {ebrs : List Ebr} {e : Ebr} {fs : List FoundEntry}
    {base' : UInt32}, IsChain data b (e :: ebrs) → 0 < e.lba →
    (Lists data (.ofNat b) (.ofNat e.lba) (tableAt data (.ofNat e.lba)) fs base' ↔
      (∀ x ∈ ebrs, x.lba ≤ maxLba) ∧
        fs = ((e :: ebrs).filterMap Ebr.logical).map Extent.asLogic ∧ base' = .ofNat b) := by
  intro ebrs
  induction ebrs with
  | nil =>
      intro e fs base' hchain he
      rw [lists_last hchain.1 he, logics_cons]
      simp
  | cons n rest ih =>
      intro e fs base' hchain he
      rw [lists_next hchain.1 he hb, logics_cons, List.forall_mem_cons, and_assoc]
      refine and_congr_right fun _ => ?_
      simp only [ih hchain.2 (hchain.1.next_pos hb), List.map_append]
      constructor
      · rintro ⟨fs', rfl, hreach, rfl, rfl⟩
        exact ⟨hreach, rfl, rfl⟩
      · rintro ⟨hreach, rfl, rfl⟩
        exact ⟨_, rfl, hreach, rfl, rfl⟩

/-- The tables that are read after the first. -/
theorem ebrsRead_cons (k : Nat) (e : Ebr) (ebrs : List Ebr) :
    ebrsRead k (e :: ebrs) = e :: (ebrsRead k (e :: ebrs)).tail := by
  rw [ebrsRead]
  rfl

@[simp] theorem logicsOf_map_asLogic (es : List Extent) :
    (logicsOf (es.map Extent.asLogic)).length = es.length := by
  induction es with
  | nil => rfl
  | cons x es ih => exact congrArg (· + 1) ih

/-- Going through a chain as far as the `k`-th logical partition. -/
theorem chain_cut (hb : 0 < b) : ∀ {ebrs : List Ebr} {e : Ebr} {k : Nat} {fs : List FoundEntry}
    {base' : UInt32}, IsChain data b (e :: ebrs) → 0 < e.lba → 0 < k →
    (Cut data (.ofNat b) (.ofNat e.lba) (tableAt data (.ofNat e.lba)) fs base' ∧
        (logicsOf fs).length = k ↔
      k ≤ ((e :: ebrs).filterMap Ebr.logical).length ∧
        (∀ x ∈ (ebrsRead k (e :: ebrs)).tail, x.lba ≤ maxLba) ∧
        fs = (((e :: ebrs).filterMap Ebr.logical).take k).map Extent.asLogic ∧
          base' = .ofNat b) := by
  intro ebrs
  induction ebrs with
  | nil =>
      intro e k fs base' hchain he hk
      rw [cut_last hchain.1 he, logics_cons]
      cases hlogical : e.logical with
      | none =>
          simp
          omega
      | some x =>
          constructor
          · rintro ⟨⟨x', hx', rfl, rfl⟩, rfl⟩
            cases hx'
            exact ⟨le_rfl, by simp [ebrsRead], rfl, rfl⟩
          · rintro ⟨hle, -, rfl, rfl⟩
            obtain rfl : k = 1 := by
              have : k ≤ 1 := by simpa using hle
              omega
            exact ⟨⟨x, rfl, rfl, rfl⟩, rfl⟩
  | cons n rest ih =>
      intro e k fs base' hchain he hk
      rw [cut_next hchain.1 he hb, logics_cons]
      have hn : 0 < n.lba := hchain.1.next_pos hb
      cases hlogical : e.logical with
      | none =>
          have hread : (ebrsRead k (e :: n :: rest)).tail
              = n :: (ebrsRead k (n :: rest)).tail := by
            rw [← ebrsRead_cons, ebrsRead, hlogical]
            rfl
          rw [hread, List.forall_mem_cons]
          have := @ih n k fs base' hchain.2 hn hk
          simp only [Option.toList_none, List.map_nil, List.nil_append, reduceCtorEq, false_and,
            exists_false, false_or, exists_eq_left']
          rw [and_assoc, this, and_assoc]
          exact and_left_comm
      | some x =>
          simp only [Option.toList_some, List.map_cons, List.map_nil, List.singleton_append,
            List.length_cons, Option.some.injEq, exists_eq_left']
          obtain rfl | ⟨k, rfl⟩ : k = 1 ∨ ∃ m, k = m + 2 := by
            rcases k with _ | _ | m
            · omega
            · exact .inl rfl
            · exact .inr ⟨m, rfl⟩
          · -- the first one is the last
            have hread : (ebrsRead 1 (e :: n :: rest)).tail = [] := by
              rw [ebrsRead, hlogical]
              rfl
            rw [hread]
            constructor
            · rintro ⟨⟨rfl, rfl⟩ | ⟨-, fs', rfl, hcut⟩, hone⟩
              · exact ⟨by omega, nofun, rfl, rfl⟩
              · have hpos := hcut.logics_pos
                have hmore : (logicsOf fs').length + 1 = 1 := hone
                omega
            · rintro ⟨-, -, rfl, rfl⟩
              exact ⟨.inl ⟨rfl, rfl⟩, rfl⟩
          · have hread : (ebrsRead (k + 2) (e :: n :: rest)).tail
                = n :: (ebrsRead (k + 1) (n :: rest)).tail := by
              rw [← ebrsRead_cons, ebrsRead, hlogical]
              rfl
            rw [hread, List.forall_mem_cons, Nat.succ_le_succ_iff, List.take_succ_cons,
              List.map_cons]
            constructor
            · rintro ⟨⟨rfl, rfl⟩ | ⟨hle, fs', rfl, hcut⟩, hlen⟩
              · cases hlen
              · have hlen' : (logicsOf fs').length = k + 1 := Nat.succ.inj hlen
                obtain ⟨hroom, hreach, rfl, rfl⟩ := (ih hchain.2 hn k.succ_pos).mp ⟨hcut, hlen'⟩
                exact ⟨hroom, ⟨hle, hreach⟩, rfl, rfl⟩
            · rintro ⟨hroom, ⟨hle, hreach⟩, rfl, rfl⟩
              obtain ⟨hcut, hlen⟩ := (ih hchain.2 hn k.succ_pos).mpr ⟨hroom, hreach, rfl, rfl⟩
              exact ⟨.inr ⟨hle, _, rfl, hcut⟩, congrArg (· + 1) hlen⟩

/-! ### The master boot record -/

variable {ms ms' : List MbrEntry} {m : MbrEntry}

theorem lists_plain (h : List.Forall₂ MbrEntry.Is ms es)
    (hplain : ms.filterMap MbrEntry.ext? = []) :
    Lists data base 0 (es ++ rest) fs base' ↔
      ∃ fs', fs = (ms.filterMap MbrEntry.prim?).map Extent.asPrim ++ fs' ∧
        Lists data base 0 rest fs' base' := by
  induction h generalizing fs with
  | nil => simp
  | @cons m p ms es hm hms ih =>
      cases m with
      | unused =>
          rw [List.cons_append, Lists.unused_iff hm, ih hplain]
          rfl
      | primary e =>
          simp only [List.cons_append, Lists.part_iff hm.1, ih hplain, hm.found_prim]
          constructor
          · rintro ⟨_, rfl, fs', rfl, hrest⟩
            exact ⟨fs', rfl, hrest⟩
          · rintro ⟨fs', rfl, hrest⟩
            exact ⟨_, rfl, fs', rfl, hrest⟩
      | extended lba => cases hplain

theorem cut_plain (h : List.Forall₂ MbrEntry.Is ms es) (hplain : ms.filterMap MbrEntry.ext? = []) :
    Cut data base 0 (es ++ rest) fs base' ↔
      ∃ fs', fs = (ms.filterMap MbrEntry.prim?).map Extent.asPrim ++ fs' ∧
        Cut data base 0 rest fs' base' := by
  induction h generalizing fs with
  | nil => simp
  | @cons m p ms es hm hms ih =>
      cases m with
      | unused =>
          rw [List.cons_append, Cut.unused_iff hm, ih hplain]
          rfl
      | primary e =>
          simp only [List.cons_append, Cut.part_iff hm.1, ih hplain, hm.found_prim, ne_eq,
            not_true_eq_false, false_and, false_or]
          constructor
          · rintro ⟨_, rfl, fs', rfl, hrest⟩
            exact ⟨fs', rfl, hrest⟩
          · rintro ⟨fs', rfl, hrest⟩
            exact ⟨_, rfl, fs', rfl, hrest⟩
      | extended lba => cases hplain

theorem logicsOf_map_asPrim (es : List Extent) : logicsOf (es.map Extent.asPrim) = [] := by
  induction es with
  | nil => rfl
  | cons x es ih => exact ih

/-- The entries before the extended one, and those behind it. -/
theorem mbr_split (h : List.Forall₂ MbrEntry.Is ms es) {lba : Nat}
    (hone : ms.filterMap MbrEntry.ext? = [lba]) :
    ∃ ms₁ ms₂ es₁ p es₂, es = es₁ ++ p :: es₂ ∧ p.IsLink 0 lba ∧
      List.Forall₂ MbrEntry.Is ms₁ es₁ ∧ ms₁.filterMap MbrEntry.ext? = [] ∧
      List.Forall₂ MbrEntry.Is ms₂ es₂ ∧ ms₂.filterMap MbrEntry.ext? = [] ∧
      ms.filterMap MbrEntry.prim?
        = ms₁.filterMap MbrEntry.prim? ++ ms₂.filterMap MbrEntry.prim? := by
  induction h with
  | nil => cases hone
  | @cons m p ms es hm hms ih =>
      cases m with
      | unused =>
          obtain ⟨ms₁, ms₂, es₁, p', es₂, rfl, hlink, h₁, hp₁, h₂, hp₂, hprims⟩ := ih hone
          exact ⟨.unused :: ms₁, ms₂, p :: es₁, p', es₂, rfl, hlink, .cons hm h₁, hp₁, h₂, hp₂,
            hprims⟩
      | primary e =>
          obtain ⟨ms₁, ms₂, es₁, p', es₂, rfl, hlink, h₁, hp₁, h₂, hp₂, hprims⟩ := ih hone
          exact ⟨.primary e :: ms₁, ms₂, p :: es₁, p', es₂, rfl, hlink, .cons hm h₁, hp₁, h₂, hp₂,
            congrArg (e :: ·) hprims⟩
      | extended lba' =>
          obtain ⟨rfl, hnone⟩ : lba' = lba ∧ ms.filterMap MbrEntry.ext? = [] := by
            simpa [List.filterMap_cons, MbrEntry.ext?] using hone
          exact ⟨[], ms, [], p, es, rfl, hm, .nil, rfl, hms, hnone, rfl⟩

theorem plain_end (h : List.Forall₂ MbrEntry.Is ms es) (hplain : ms.filterMap MbrEntry.ext? = []) :
    (Lists data base 0 es fs base' ↔
      fs = (ms.filterMap MbrEntry.prim?).map Extent.asPrim ∧ base' = base) ∧
    ¬ Cut data base 0 es fs base' := by
  constructor
  · rw [← List.append_nil es, lists_plain h hplain]
    simp
  · rw [← List.append_nil es, cut_plain h hplain]
    simp

section Extended

variable {ms₁ ms₂ : List MbrEntry} {es₁ es₂ : List PartitionTableEntry} {lba : Nat}
  (h₁ : List.Forall₂ MbrEntry.Is ms₁ es₁) (hp₁ : ms₁.filterMap MbrEntry.ext? = [])
  (h₂ : List.Forall₂ MbrEntry.Is ms₂ es₂) (hp₂ : ms₂.filterMap MbrEntry.ext? = [])
  (hlink : p.IsLink 0 lba)

include h₁ hp₁ h₂ hp₂ hlink

theorem lists_mbr :
    Lists data 0 0 (es₁ ++ p :: es₂) fs base' ↔ lba ≤ maxLba ∧
      ∃ fs₁, fs = (ms₁.filterMap MbrEntry.prim?).map Extent.asPrim ++ fs₁
          ++ (ms₂.filterMap MbrEntry.prim?).map Extent.asPrim ∧
        Lists data (.ofNat lba) (.ofNat lba) (tableAt data (.ofNat lba)) fs₁ base' := by
  simp only [lists_plain h₁ hp₁, Lists.link_iff hlink.1, hlink.target_zero.1, hlink.target_zero.2,
    (plain_end h₂ hp₂).1, UInt32.toNat_ofNat_of_lt' hlink.2.2]
  constructor
  · rintro ⟨_, rfl, hle, fs₁, _, base₁, rfl, hbehind, rfl, rfl⟩
    exact ⟨hle, fs₁, by rw [List.append_assoc], hbehind⟩
  · rintro ⟨hle, fs₁, rfl, hbehind⟩
    exact ⟨_, List.append_assoc _ _ _, hle, fs₁, _, base', rfl, hbehind, rfl, rfl⟩

theorem cut_mbr :
    Cut data 0 0 (es₁ ++ p :: es₂) fs base' ↔ lba ≤ maxLba ∧
      ∃ fs₁, fs = (ms₁.filterMap MbrEntry.prim?).map Extent.asPrim ++ fs₁
          ++ (ms₂.filterMap MbrEntry.prim?).map Extent.asPrim ∧
        Cut data (.ofNat lba) (.ofNat lba) (tableAt data (.ofNat lba)) fs₁ base' := by
  simp only [cut_plain h₁ hp₁, Cut.link_iff hlink.1, hlink.target_zero.1, hlink.target_zero.2,
    (plain_end h₂ hp₂).1, (plain_end h₂ hp₂).2, UInt32.toNat_ofNat_of_lt' hlink.2.2, and_false,
    false_or]
  constructor
  · rintro ⟨_, rfl, hle, fs₁, _, base₁, rfl, hbehind, ⟨rfl, rfl⟩, -⟩
    exact ⟨hle, fs₁, by rw [List.append_assoc], hbehind⟩
  · rintro ⟨hle, fs₁, rfl, hbehind⟩
    exact ⟨_, List.append_assoc _ _ _, hle, fs₁, _, base', rfl, hbehind, ⟨rfl, rfl⟩,
      logicsOf_map_asPrim _⟩

end Extended

/-! ### The whole disk -/

/-- While there is room for all logical partitions, every table is read. -/
theorem ebrsRead_all : ∀ {k : Nat} {ebrs : List Ebr},
    (ebrs.filterMap Ebr.logical).length < k → ebrsRead k ebrs = ebrs := by
  intro k ebrs
  induction ebrs generalizing k with
  | nil => intro _; rfl
  | cons e rest ih =>
      intro h
      rw [logics_cons, List.length_append] at h
      rw [ebrsRead]
      cases hlogical : e.logical with
      | none =>
          rw [hlogical] at h
          rw [if_neg (by simp), ih (by simpa using h)]
      | some x =>
          rw [hlogical, Option.toList_some, List.length_singleton] at h
          rw [if_pos (by simp), if_neg (by omega), ih (by omega)]

namespace PartitionTable.OnDisk

variable {t : PartitionTable}

/-- **What a scan of a well-formed disk comes to**: the logical partitions are found where the
extended entry stands among the primary ones, if every table on the way is in reach. -/
theorem way (h : t.OnDisk data) :
    ∃ ps qs, t.prims = ps ++ qs ∧ ∀ fs,
      (∃ base', Lists data 0 0 (tableAt data 0) fs base' ∧ (logicsOf fs).length < 8 ∨
          Cut data 0 0 (tableAt data 0) fs base' ∧ (logicsOf fs).length = 8) ↔
        (∀ e ∈ ebrsRead 8 t.chain, e.lba ≤ maxLba) ∧
          fs = ps.map Extent.asPrim ++ t.logics.map Extent.asLogic ++ qs.map Extent.asPrim := by
  obtain ⟨mbr, chain⟩ := t
  obtain ⟨hentries, hone, hstart, height⟩ := h
  cases chain with
  | nil =>
      have hplain : mbr.filterMap MbrEntry.ext? = [] := hone
      refine ⟨mbr.filterMap MbrEntry.prim?, [], (List.append_nil _).symm, fun fs => ?_⟩
      simp only [(plain_end hentries hplain).1, (plain_end hentries hplain).2, false_and, or_false]
      constructor
      · rintro ⟨_, ⟨rfl, rfl⟩, -⟩
        exact ⟨nofun, by simp [logics]⟩
      · rintro ⟨-, hfs⟩
        obtain rfl : fs = (mbr.filterMap MbrEntry.prim?).map Extent.asPrim := by
          simpa [logics] using hfs
        exact ⟨0, ⟨rfl, rfl⟩, by rw [logicsOf_map_asPrim]; decide⟩
  | cons e rest =>
      have hone' : mbr.filterMap MbrEntry.ext? = [e.lba] := hone
      have height : ((e :: rest).filterMap Ebr.logical).length ≤ 8 := height
      obtain ⟨hpos, hchain⟩ := hstart e.lba (hone ▸ List.mem_singleton_self _)
      obtain ⟨ms₁, ms₂, es₁, p, es₂, hes, hlink, h₁, hp₁, h₂, hp₂, hprims⟩ :=
        mbr_split hentries hone'
      refine ⟨_, _, hprims, fun fs => ?_⟩
      rw [hes]
      simp only [lists_mbr h₁ hp₁ h₂ hp₂ hlink, cut_mbr h₁ hp₁ h₂ hp₂ hlink]
      have hcount : ∀ fs₁, (logicsOf ((ms₁.filterMap MbrEntry.prim?).map Extent.asPrim ++ fs₁
          ++ (ms₂.filterMap MbrEntry.prim?).map Extent.asPrim)).length = (logicsOf fs₁).length := by
        intro fs₁
        rw [logicsOf_append, logicsOf_append, logicsOf_map_asPrim, logicsOf_map_asPrim,
          List.nil_append, List.append_nil]
      constructor
      · rintro ⟨base', ⟨⟨hle, fs₁, rfl, hlists⟩, hlt⟩ | ⟨⟨hle, fs₁, rfl, hcut⟩, heq⟩⟩
        · obtain ⟨hreach, rfl, rfl⟩ := (chain_lists hpos hchain hpos).mp hlists
          rw [hcount, logicsOf_map_asLogic] at hlt
          refine ⟨?_, rfl⟩
          rw [ebrsRead_all hlt]
          exact List.forall_mem_cons.mpr ⟨hle, hreach⟩
        · rw [hcount] at heq
          obtain ⟨-, hreach, rfl, rfl⟩ := (chain_cut hpos hchain hpos (by decide)).mp ⟨hcut, heq⟩
          rw [List.take_of_length_le height]
          refine ⟨?_, rfl⟩
          rw [ebrsRead_cons]
          exact List.forall_mem_cons.mpr ⟨hle, hreach⟩
      · rintro ⟨hreach, rfl⟩
        refine ⟨.ofNat e.lba, ?_⟩
        rcases Nat.lt_or_eq_of_le height with hlt | heq
        · rw [ebrsRead_all hlt, List.forall_mem_cons] at hreach
          refine .inl ⟨⟨hreach.1, _, rfl, ?_⟩, by rw [hcount, logicsOf_map_asLogic]; exact hlt⟩
          exact (chain_lists hpos hchain hpos).mpr ⟨hreach.2, rfl, rfl⟩
        · rw [ebrsRead_cons, List.forall_mem_cons] at hreach
          have hcut := (chain_cut (k := 8) hpos hchain hpos (by decide)).mpr
            ⟨heq.ge, hreach.2, rfl, rfl⟩
          rw [List.take_of_length_le height] at hcut
          exact .inr ⟨⟨hreach.1, _, rfl, hcut.1⟩, by rw [hcount]; exact hcut.2⟩

end PartitionTable.OnDisk

/-! ### What has been recorded -/

/-- A partition whose words hold its numbers. -/
def Extent.Fits (e : Extent) : Prop := e.lba < 2 ^ 32 ∧ e.cnt < 2 ^ 32

/-- The partition two words say. -/
def Extent.ofWords (lba cnt : UInt32) : Extent := ⟨lba.toNat, cnt.toNat⟩

/-- One more slot of an array is filled. -/
theorem filled_succ {slots : Nat → PartInfo} {es : List Extent} {i : PartInfo} {e : Extent}
    (h : List.Forall₂ PartInfo.Holds ((List.range es.length).map slots) es) (hi : i.Holds e) :
    List.Forall₂ PartInfo.Holds ((List.range (es ++ [e]).length).map
      (Function.update slots es.length i)) (es ++ [e]) := by
  have hkeep : (List.range es.length).map (Function.update slots es.length i)
      = (List.range es.length).map slots := by
    refine List.map_congr_left fun k hk => Function.update_of_ne ?_ _ _
    exact Nat.ne_of_lt (List.mem_range.mp hk)
  rw [List.length_append, List.length_singleton, List.range_succ, List.map_append, hkeep,
    List.map_singleton, Function.update_self]
  exact List.rel_append h (.cons hi .nil)

/-- The list of slots grows by one. -/
theorem tags_succ {f : Nat → Nat × PartSlot} {tags rest rest' : List (Nat × PartSlot)} {n : Nat}
    (h : tags.Perm (rest ++ (List.range n).map f ++ rest')) :
    (tags ++ [f n]).Perm (rest ++ (List.range (n + 1)).map f ++ rest') := by
  rw [List.range_succ, List.map_append, List.map_singleton, ← List.append_assoc]
  refine (h.append_right _).trans ?_
  rw [List.append_assoc, List.append_assoc _ [f n]]
  exact List.Perm.append_left _ List.perm_append_comm

namespace RecordedParts

variable {prims logics : List Extent} {x : Extent}

theorem refl (hd : HardDisk) (s : IdeGlobals) : RecordedParts hd [] [] s s where
  prim := .nil
  logic := .nil
  primRest := fun _ _ => rfl
  logicRest := fun _ _ => rfl
  others := fun _ _ => rfl
  listed := ⟨[], (List.append_nil _).symm, .nil⟩

/-- A primary partition more. -/
theorem add_prim (h : RecordedParts hd prims logics s s') (hno : s'.pNo = prims.length)
    (lba cnt : UInt32) :
    RecordedParts hd (prims ++ [.ofWords lba cnt]) logics s (s'.addPrim hd lba cnt) := by
  obtain ⟨tags, hlist, hperm⟩ := h.listed
  constructor
  case prim =>
    simp only [IdeGlobals.addPrim, Function.update_self, hno]
    exact filled_succ h.prim ⟨rfl, rfl⟩
  case logic =>
    simp only [IdeGlobals.addPrim, Function.update_self]
    exact h.logic
  case primRest =>
    intro i hi
    rw [List.length_append, List.length_singleton] at hi
    simp only [IdeGlobals.addPrim, Function.update_self, hno]
    rw [Function.update_of_ne (by omega), h.primRest i (by omega)]
  case logicRest =>
    simp only [IdeGlobals.addPrim, Function.update_self]
    exact h.logicRest
  case others =>
    intro no hne
    exact (Function.update_of_ne hne _ _).trans (h.others no hne)
  case listed =>
    refine ⟨tags ++ [(hd.no, .prim prims.length)], ?_, ?_⟩
    · rw [← List.append_assoc, ← hlist, ← hno]
      rfl
    · rw [List.length_append, List.length_singleton]
      exact @tags_succ (fun i => (hd.no, .prim i)) _ [] _ _ hperm

/-- A logical one. -/
theorem add_logic (h : RecordedParts hd prims logics s s') (hno : s'.lNo = logics.length)
    (lba cnt : UInt32) :
    RecordedParts hd prims (logics ++ [.ofWords lba cnt]) s (s'.addLogic hd lba cnt) := by
  obtain ⟨tags, hlist, hperm⟩ := h.listed
  constructor
  case prim =>
    simp only [IdeGlobals.addLogic, Function.update_self]
    exact h.prim
  case logic =>
    simp only [IdeGlobals.addLogic, Function.update_self, hno]
    exact filled_succ h.logic ⟨rfl, rfl⟩
  case primRest =>
    simp only [IdeGlobals.addLogic, Function.update_self]
    exact h.primRest
  case logicRest =>
    intro i hi
    rw [List.length_append, List.length_singleton] at hi
    simp only [IdeGlobals.addLogic, Function.update_self, hno]
    rw [Function.update_of_ne (by omega), h.logicRest i (by omega)]
  case others =>
    intro no hne
    exact (Function.update_of_ne hne _ _).trans (h.others no hne)
  case listed =>
    refine ⟨tags ++ [(hd.no, .logic logics.length)], ?_, ?_⟩
    · rw [← List.append_assoc, ← hlist, ← hno]
      rfl
    · rw [List.length_append, List.length_singleton]
      rw [← List.append_nil (_ ++ _)] at hperm
      have hmore := tags_succ (f := fun i => (hd.no, PartSlot.logic i)) hperm
      rwa [List.append_nil] at hmore

/-- Several more. -/
theorem addAll_more (h : RecordedParts hd prims logics s s') (hp : s'.pNo = prims.length)
    (hl : s'.lNo = logics.length) (fs : List FoundEntry) :
    RecordedParts hd (prims ++ (primsOf fs).map fun w => .ofWords w.1 w.2)
      (logics ++ (logicsOf fs).map fun w => .ofWords w.1 w.2) s (s'.addAll hd fs) := by
  induction fs generalizing s' prims logics with
  | nil => simpa using h
  | cons f fs ih =>
      rw [IdeGlobals.addAll_cons]
      cases f with
      | prim lba cnt =>
          rw [primsOf_prim, logicsOf_prim, List.map_cons, List.append_cons]
          exact ih (h.add_prim hp lba cnt)
            (by rw [IdeGlobals.add_pNo, hp, List.length_append]; rfl) hl
      | logic lba cnt =>
          rw [primsOf_logic, logicsOf_logic, List.map_cons, List.append_cons logics]
          exact ih (h.add_logic hl lba cnt) hp
            (by rw [IdeGlobals.add_lNo, hl, List.length_append]; rfl)

/-- What comes up on a way is what is recorded. -/
theorem addAll (hp : s.pNo = 0) (hl : s.lNo = 0) (fs : List FoundEntry) :
    RecordedParts hd ((primsOf fs).map fun w => .ofWords w.1 w.2)
      ((logicsOf fs).map fun w => .ofWords w.1 w.2) s (s.addAll hd fs) :=
  (refl hd s).addAll_more hp hl fs

theorem based (h : RecordedParts hd prims logics s s') (b : UInt32) :
    RecordedParts hd prims logics s (s'.based b) := ⟨h.1, h.2, h.3, h.4, h.5, h.6⟩

end RecordedParts

/-! ### Decoding a well-formed table -/

theorem PartitionTableEntry.IsExtent.fits {rel : Nat} {e : Extent} (h : p.IsExtent rel e) :
    e.Fits := ⟨h.2.2.1, h.2.2.2 ▸ UInt32.toNat_lt _⟩

theorem mbr_fits (h : List.Forall₂ MbrEntry.Is ms es) :
    ∀ x ∈ ms.filterMap MbrEntry.prim?, x.Fits := by
  induction h with
  | nil => exact nofun
  | @cons m p ms es hm _ ih =>
      cases m with
      | unused => exact ih
      | primary e => exact List.forall_mem_cons.mpr ⟨hm.fits, ih⟩
      | extended lba => exact ih

theorem Ebr.IsAt.fits {next : Option Ebr} (h : e.IsAt data b next) :
    ∀ x ∈ e.logical.toList, x.Fits := by
  obtain ⟨p, q, r, t, -, hp, -⟩ := h
  intro x hx
  rw [Option.mem_toList] at hx
  rw [hx] at hp
  exact hp.fits

theorem chain_fits : ∀ {ebrs : List Ebr}, IsChain data b ebrs →
    ∀ x ∈ ebrs.filterMap Ebr.logical, x.Fits := by
  intro ebrs
  induction ebrs with
  | nil => exact fun _ => nofun
  | cons e rest ih =>
      intro h
      rw [logics_cons]
      exact List.forall_mem_append.mpr ⟨h.1.fits, ih h.2⟩

namespace PartitionTable.OnDisk

variable {t : PartitionTable}

theorem prims_fit (h : t.OnDisk data) : ∀ x ∈ t.prims, x.Fits := mbr_fits h.entries

theorem logics_fit (h : t.OnDisk data) : ∀ x ∈ t.logics, x.Fits := by
  obtain ⟨mbr, _ | ⟨e, rest⟩⟩ := t
  · exact nofun
  · exact chain_fits (h.start e.lba (h.one ▸ List.mem_singleton_self _)).2

end PartitionTable.OnDisk

theorem primsOf_map_asLogic (es : List Extent) : primsOf (es.map Extent.asLogic) = [] := by
  induction es with
  | nil => rfl
  | cons x es ih => exact ih

theorem Extent.Fits.ofWords {x : Extent} (h : x.Fits) :
    Extent.ofWords (.ofNat x.lba) (.ofNat x.cnt) = x := by
  rw [Extent.ofWords, UInt32.toNat_ofNat_of_lt' h.1, UInt32.toNat_ofNat_of_lt' h.2]

theorem primsOf_words {es : List Extent} (h : ∀ x ∈ es, x.Fits) :
    (primsOf (es.map Extent.asPrim)).map (fun w => Extent.ofWords w.1 w.2) = es := by
  induction es with
  | nil => rfl
  | cons x es ih =>
      obtain ⟨hx, hes⟩ := List.forall_mem_cons.mp h
      exact congrArg₂ List.cons hx.ofWords (ih hes)

theorem logicsOf_words {es : List Extent} (h : ∀ x ∈ es, x.Fits) :
    (logicsOf (es.map Extent.asLogic)).map (fun w => Extent.ofWords w.1 w.2) = es := by
  induction es with
  | nil => rfl
  | cons x es ih =>
      obtain ⟨hx, hes⟩ := List.forall_mem_cons.mp h
      exact congrArg₂ List.cons hx.ofWords (ih hes)

theorem primsOf_map_asPrim (es : List Extent) :
    (primsOf (es.map Extent.asPrim)).length = es.length := by
  induction es with
  | nil => rfl
  | cons x es ih => exact congrArg (· + 1) ih

namespace PartitionTable.OnDisk

variable {t : PartitionTable}

/-- A scan that returns has had room for the primary partitions and has reached the tables. -/
theorem of_scansTo (h : t.OnDisk hd.data) (hbase : s.extLbaBase = 0) (hprims : s.pNo = 0)
    (hlogics : s.lNo = 0) (hscan : ScansTo hd s s') :
    t.prims.length ≤ 3 ∧ ∀ e ∈ ebrsRead 8 t.chain, e.lba ≤ maxLba := by
  obtain ⟨ps, qs, hps, hway⟩ := h.way
  obtain ⟨fs, base', -, hthree, hend⟩ := (scansTo_iff hprims hlogics).mp hscan
  rw [hbase] at hend
  obtain ⟨hreach, rfl⟩ := (hway fs).mp ⟨base', hend⟩
  refine ⟨?_, hreach⟩
  rw [primsOf_append, primsOf_append, primsOf_map_asLogic, List.append_nil, List.length_append,
    primsOf_map_asPrim, primsOf_map_asPrim, ← List.length_append, ← hps] at hthree
  exact hthree

/-- Where there is room and all is in reach, the scan returns and has recorded the partitions. -/
theorem scansTo_recorded (h : t.OnDisk hd.data) (hbase : s.extLbaBase = 0) (hprims : s.pNo = 0)
    (hlogics : s.lNo = 0) (hthree : t.prims.length ≤ 3)
    (hreach : ∀ e ∈ ebrsRead 8 t.chain, e.lba ≤ maxLba) :
    ∃ s', ScansTo hd s s' ∧ RecordedParts hd t.prims t.logics s s' := by
  obtain ⟨ps, qs, hps, hway⟩ := h.way
  obtain ⟨base', hend⟩ := (hway _).mpr ⟨hreach, rfl⟩
  have hfit : ∀ x ∈ ps ++ qs, x.Fits := hps ▸ h.prims_fit
  rw [List.forall_mem_append] at hfit
  rw [hps, List.length_append] at hthree
  refine ⟨_, (scansTo_iff hprims hlogics).mpr ⟨_, base', rfl, ?_, by rw [hbase]; exact hend⟩,
    .based ?_ base'⟩
  · rwa [primsOf_append, primsOf_append, primsOf_map_asLogic, List.append_nil, List.length_append,
      primsOf_map_asPrim, primsOf_map_asPrim]
  · have hrec := @RecordedParts.addAll hd _ hprims hlogics
      (ps.map Extent.asPrim ++ t.logics.map Extent.asLogic ++ qs.map Extent.asPrim)
    simp only [primsOf_append, logicsOf_append, primsOf_map_asLogic, logicsOf_map_asPrim,
      List.append_nil, List.nil_append, List.map_append, primsOf_words hfit.1,
      primsOf_words hfit.2, logicsOf_words h.logics_fit] at hrec
    rwa [hps]

end PartitionTable.OnDisk

/-- **A well-formed partition table is decoded** just when there are at most three primary
partitions and every table on the way to the eighth logical one is in reach of the driver. -/
theorem table_decoded_iff (hd : HardDisk) (t : PartitionTable) (s : IdeGlobals)
    (htable : t.OnDisk hd.data) (hbase : s.extLbaBase = 0) (hprims : s.pNo = 0)
    (hlogics : s.lNo = 0) :
    (∃ s', ScansTo hd s s' ∧ RecordedParts hd t.prims t.logics s s') ↔
      t.prims.length ≤ 3 ∧ ∀ e ∈ ebrsRead 8 t.chain, e.lba ≤ maxLba := by
  constructor
  · rintro ⟨s', hscan, -⟩
    exact htable.of_scansTo hbase hprims hlogics hscan
  · rintro ⟨hthree, hreach⟩
    exact htable.scansTo_recorded hbase hprims hlogics hthree hreach

/-- What `plainDisk` is divided into. -/
def plainTable : PartitionTable where
  mbr := [.primary ⟨100, 1000⟩, .extended 2000, .unused, .unused]
  chain := [⟨2000, some ⟨2063, 900⟩⟩]

theorem plainTable_onDisk : plainTable.OnDisk plainDisk.data := by
  have hzero : tableAt plainDisk.data 0 = [⟨0x83, 100, 1000⟩, ⟨5, 2000, 1000⟩, .zero, .zero] := by
    rw [plainDisk, tableAt_diskWith]
    simp [List.range_succ]
  have hbehind : tableAt plainDisk.data (.ofNat 2000)
      = [⟨0x83, 63, 900⟩, .zero, .zero, .zero] := by
    rw [plainDisk, tableAt_diskWith]
    simp [List.range_succ]
  constructor
  case entries =>
    rw [hzero]
    exact .cons ⟨by decide, rfl, by decide, rfl⟩ (.cons ⟨rfl, rfl, by decide⟩
      (.cons rfl (.cons rfl .nil)))
  case one => rfl
  case start =>
    intro lba hlba
    obtain rfl : lba = 2000 := List.mem_singleton.mp hlba
    refine ⟨by decide, ⟨_, _, _, _, hbehind, ?_, rfl, rfl, rfl⟩, trivial⟩
    exact ⟨by decide, rfl, by decide, rfl⟩
  case eight => decide

theorem table_decoded_plain :
    ∃ s', ScansTo plainDisk .start s' ∧ RecordedParts plainDisk plainTable.prims plainTable.logics
      .start s' :=
  (table_decoded_iff plainDisk plainTable .start plainTable_onDisk rfl rfl rfl).mpr
    ⟨by decide, by decide⟩

/-- A master boot record with four primary partitions. -/
def fourPrimsDisk : HardDisk where
  no := 1
  name := "sdb"
  data := diskWith fun lba k => if lba = 0 then ⟨0x83, UInt32.ofNat (100 * k + 100), 100⟩ else .zero

def fourPrimsTable : PartitionTable where
  mbr := [.primary ⟨100, 100⟩, .primary ⟨200, 100⟩, .primary ⟨300, 100⟩, .primary ⟨400, 100⟩]
  chain := []

/-- All four entries of a master boot record may be primary partitions, but the fourth one stops
the kernel. -/
theorem table_fourth_stops : fourPrimsTable.OnDisk fourPrimsDisk.data ∧
    ¬ ∃ s', ScansTo fourPrimsDisk .start s' ∧
      RecordedParts fourPrimsDisk fourPrimsTable.prims fourPrimsTable.logics .start s' := by
  have htable : tableAt fourPrimsDisk.data 0
      = [⟨0x83, 100, 100⟩, ⟨0x83, 200, 100⟩, ⟨0x83, 300, 100⟩, ⟨0x83, 400, 100⟩] := by
    rw [fourPrimsDisk, tableAt_diskWith]
    simp [List.range_succ]
  have hon : fourPrimsTable.OnDisk fourPrimsDisk.data := by
    constructor
    case entries =>
      rw [htable]
      exact .cons ⟨by decide, rfl, by decide, rfl⟩ (.cons ⟨by decide, rfl, by decide, rfl⟩
        (.cons ⟨by decide, rfl, by decide, rfl⟩ (.cons ⟨by decide, rfl, by decide, rfl⟩ .nil)))
    case one => rfl
    case start => exact fun _ => nofun
    case eight => decide
  refine ⟨hon, ?_⟩
  rintro ⟨s', hscan, -⟩
  exact absurd (hon.of_scansTo rfl rfl rfl hscan).1 (by decide)

end ZyOs
