/-
Names of every length that `create_dir_entry` accepts.

It takes 16 characters, which fill the field: the byte behind them is the low byte of the
inode number.  `strncmp` compares one byte more than it is asked for, so the lookup of
such a name wants a zero there.
-/
import ZyOs.Proofs.Placed

namespace ZyOs

open Library

/-- The names that `create_dir_entry` accepts. -/
structure Accepted (name : List UInt8) : Prop where
  some : name ≠ []
  text : 0 ∉ name
  short : name.length ≤ maxFileNameLen

/-- `create_dir_entry` and `sync_dir_entry`, as the callers put them together. -/
def enterName (pdir : Nat) (name : List UInt8) (inodeNo fileType : UInt32) (ioBuf : Mem) :
    FsM Bool := do
  let pDe ← Prog.lift (createDirEntry name inodeNo fileType DirEntry.zero)
  syncDirEntry pdir pDe ioBuf

/-- The name is found with its number, and no other name that was absent. -/
structure LooksUp (s s' : Fs) (pdir : Nat) (name : List UInt8) (inodeNo : UInt32) : Prop where
  found : ∃ e, searchDirEntry pdir name s' = .ok (some e, s') ∧ e.iNo = inodeNo
  others : ∀ other, Accepted other → other ≠ name →
    searchDirEntry pdir other s = .ok (none, s) → searchDirEntry pdir other s' = .ok (none, s')

variable {s s' : Fs} {a addr : Nat} {name other : List UInt8} {no ty : UInt32} {d d' : Disk}
  {n n' : Inode}

theorem createDirEntry_accepted (h : Accepted name) (no ty : UInt32) :
    createDirEntry name no ty DirEntry.zero = .ok (namedEntry name no ty) := by
  rw [createDirEntry, ASSERT_pos h.short]
  rfl

/-! ### The bytes of the entry -/

theorem namedEntry_low : (namedEntry name no ty).toMem 16 = UInt8.ofNat no.toNat := by
  rw [DirEntry.toMem, if_neg (by omega), if_pos (by omega)]
  rfl

/-- The slot of the new entry answers to its name when a zero follows it, and to no other. -/
theorem matches_named (hname : Accepted name) (hother : Accepted other)
    (hd : ∀ j < 24, d (addr + j) = (namedEntry name no ty).toMem j) :
    Matches d addr other ↔ other = name ∧ (name.length ≤ 15 ∨ no.toNat % 256 = 0) := by
  have hshort := hname.short
  have hshort' := hother.short
  simp only [maxFileNameLen] at hshort hshort'
  have hbyte : ∀ j < 16, d (addr + j) = cstr name j := fun j hj => by
    rw [hd j (by omega), namedEntry_name _ _ _ hj]
  have hlow : d (addr + 16) = 0 ↔ no.toNat % 256 = 0 := by
    rw [hd 16 (by omega), namedEntry_low, ← UInt8.toNat_inj, UInt8.toNat_ofNat']
    rfl
  constructor
  · intro hm
    have heq : other = name := by
      refine (eq_of_cstr hname.text hother.text fun j hj => ?_).symm
      by_cases hj16 : j < 16
      · rw [← hbyte j hj16, hm j hj]
      · -- both names end here at the latest
        rw [cstr_of_ge (by omega), cstr_of_ge (by omega)]
    refine ⟨heq, ?_⟩
    by_cases hlen : name.length ≤ 15
    · exact .inl hlen
    · have h16 : other.length = 16 := by rw [heq]; omega
      refine .inr (hlow.mp ?_)
      rw [hm 16 (by omega), cstr_of_ge (by omega)]
  · rintro ⟨rfl, hfit⟩ j hj
    by_cases hj16 : j < 16
    · exact hbyte j hj16
    · obtain rfl : j = 16 := by omega
      rw [cstr_of_ge (by omega)]
      exact hlow.mpr (hfit.resolve_left (by omega))

/-- A cleared slot answers to no name. -/
theorem not_matches_zeros (hother : Accepted other) (hd : ∀ j < 24, d (addr + j) = 0) :
    ¬ Matches d addr other := by
  intro hm
  have h0 : 0 < other.length := List.length_pos_iff.mpr hother.some
  have := hm 0 (by omega)
  rw [hd 0 (by omega)] at this
  exact cstr_ne_zero hother.text h0 this.symm

theorem matches_congr (hother : Accepted other)
    (hd : ∀ j < 24, d' (addr + j) = d (addr + j)) :
    Matches d' addr other ↔ Matches d addr other := by
  have hshort := hother.short
  simp only [maxFileNameLen] at hshort
  exact forall₂_congr fun j hj => by rw [hd j (by omega)]

/-! ### The lookup -/

theorem findName_none : findName d n name = none ↔ ∀ x ∈ slots d n, ¬ Matches d x name := by
  simp [findName]

/-- What a directory with the new entry answers to a name that was absent. -/
theorem PutAt.matches_iff (h : PutAt s s' a addr (namedEntry name no ty).toMem)
    (hname : Accepted name) (hother : Accepted other)
    (habsent : findName s.disk (s.inodes a) other = none) {x : Nat}
    (hx : x ∈ slots s'.disk (s'.inodes a)) : Matches s'.disk x other ↔
      x = addr ∧ other = name ∧ (name.length ≤ 15 ∨ no.toNat % 256 = 0) := by
  by_cases hxa : x = addr
  · subst hxa
    rw [matches_named hname hother h.holds]
    exact ⟨fun hm => ⟨rfl, hm⟩, fun hm => hm.2⟩
  · refine ⟨fun hm => absurd hm ?_, fun hm => absurd hm.1 hxa⟩
    rcases h.rest x hx hxa with ⟨hold, hsame⟩ | hzero
    · rw [matches_congr hother hsame]
      exact findName_none.mp habsent x hold
    · exact not_matches_zeros hother hzero

section Search

variable (hsize : s.part.sb.dirEntrySize = 24)
  (h : PutAt s s' a addr (namedEntry name no ty).toMem)
include hsize h

theorem PutAt.search (hother : Accepted other) : searchDirEntry a other s'
    = .ok ((findName s'.disk (s'.inodes a) other).map (dirEntryAt s'.disk), s') :=
  searchDirEntry_find hother.text hother.short (h.sb ▸ hsize) h.owns.readable

variable (hname : Accepted name)
include hname

/-- Absent names stay absent, and so does the new one when it does not end in front of the
number. -/
theorem PutAt.lost (hother : Accepted other)
    (habsent : findName s.disk (s.inodes a) other = none)
    (hno : ¬ (other = name ∧ (name.length ≤ 15 ∨ no.toNat % 256 = 0))) :
    searchDirEntry a other s' = .ok (none, s') := by
  have hnone : findName s'.disk (s'.inodes a) other = none := findName_none.mpr fun x hx hm =>
    hno ((h.matches_iff hname hother habsent hx).mp hm).2
  rw [h.search hsize hother, hnone]
  rfl

theorem PutAt.found (habsent : findName s.disk (s.inodes a) name = none)
    (hfit : name.length ≤ 15 ∨ no.toNat % 256 = 0) :
    ∃ e, searchDirEntry a name s' = .ok (some e, s') ∧ e.iNo = no := by
  have hmem : (findName s'.disk (s'.inodes a) name).isSome :=
    List.find?_isSome.mpr ⟨addr, h.mem, by
      simpa using (h.matches_iff hname hname habsent h.mem).mpr ⟨rfl, rfl, hfit⟩⟩
  obtain ⟨x, hx⟩ := Option.isSome_iff_exists.mp hmem
  have hxa : x = addr := by
    have hm : Matches s'.disk x name := by simpa using List.find?_some hx
    exact ((h.matches_iff hname hname habsent (List.mem_of_find?_eq_some hx)).mp hm).1
  have hno : (dirEntryAt s'.disk addr).iNo = no :=
    (getWord_drop s'.disk addr 16).trans (namedEntry_iNo h.holds)
  refine ⟨dirEntryAt s'.disk addr, ?_, hno⟩
  rw [h.search hsize hname, hx, hxa]
  rfl

end Search

/-! ### A name is entered -/

theorem absent_iff (hs : OnDrive s.part) (ho : OwnBlocks s.part s.disk (s.inodes a))
    (hother : Accepted other) : searchDirEntry a other s = .ok (none, s) ↔
      findName s.disk (s.inodes a) other = none := by
  rw [searchDirEntry_find hother.text hother.short hs.ordered.entrySize ho.readable]
  simp

theorem wp_enterName {E : Halt → Prop} (hs : OnDrive s.part)
    (ho : OwnBlocks s.part s.disk (s.inodes a))
    (hsup : Supplies E s.part.blockBitmap (blocksNeeded s.disk (s.inodes a)))
    (hsize : (s.inodes a).iSize.toNat % 24 = 0) (hname : Accepted name) (no ty : UInt32)
    (buf : Mem) : Prog.wp E (enterName a name no ty buf) (fun r s' => r = true ∧
      ∃ addr, PutAt s s' a addr (namedEntry name no ty).toMem) s := by
  rw [enterName, createDirEntry_accepted hname]
  exact wp_syncDirEntryAs hs ho hsup hsize fun pl hpl => ⟨rfl, hpl.putAt hs ho _⟩

/-- **A name that has been entered is looked up with its number, and no other absent name is,
exactly when it has at most 15 characters or the low byte of the number is zero.** -/
theorem entered_name_iff (s s' : Fs) (a : Nat) (name : List UInt8) (no ty : UInt32) (buf : Mem)
    (hs : OnDrive s.part) (ho : OwnBlocks s.part s.disk (s.inodes a)) (hname : Accepted name)
    (habsent : searchDirEntry a name s = .ok (none, s))
    (hrun : enterName a name no ty buf s = .ok (true, s')) :
    LooksUp s s' a name no ↔ name.length ≤ 15 ∨ no.toNat % 256 = 0 := by
  have hsize : (s.inodes a).iSize.toNat % 24 = 0 := by
    rw [enterName, createDirEntry_accepted hname] at hrun
    obtain ⟨s₁, s₂, hget, hrun⟩ := Prog.bind_run.mp (show syncDirEntry a _ buf s = _ from hrun)
    simp only [Prog.get_run, Except.ok.injEq, Prod.mk.injEq] at hget
    obtain ⟨rfl, rfl⟩ := hget
    obtain ⟨_, _, hassert, -⟩ := Prog.bind_run.mp hrun
    have hmod := (assertFs_ok hassert).1
    rwa [hs.ordered.entrySize] at hmod
  obtain ⟨-, addr, hput⟩ := (wp_enterName (E := fun _ => True) hs ho (supplies_any _ _) hsize
    hname no ty buf).of_run hrun
  have h24 := hs.ordered.entrySize
  have hnone := (absent_iff hs ho hname).mp habsent
  constructor
  · rintro ⟨⟨e, hfound, -⟩, -⟩
    by_contra hbad
    rw [hput.lost h24 hname hname hnone fun hc => hbad hc.2] at hfound
    cases hfound
  · refine fun hfit => ⟨hput.found h24 hname hnone hfit, fun other hother hne habs => ?_⟩
    exact hput.lost h24 hname hother ((absent_iff hs ho hother).mp habs) fun hc => hne hc.1

/-- Sixteen characters. -/
def longName : List UInt8 := List.replicate 16 97

theorem longName_accepted : Accepted longName := ⟨by decide, by decide, by decide⟩

theorem smallFs_root : OnDrive smallFs.part ∧
    OwnBlocks smallFs.part smallFs.disk (smallFs.inodes 1) := by
  have hsame := smallFs_cache.same 1 (List.mem_singleton.mpr rfl)
  exact ⟨smallFs_volume.drive, smallFs_volume.ownBlocks (p := 0) (by decide) hsame⟩

/-- The root of the small tree has room. -/
theorem smallFs_enters {name : List UInt8} (hname : Accepted name) (no ty : UInt32) (buf : Mem) :
    ∃ s' addr, enterName 1 name no ty buf smallFs = .ok (true, s') ∧
      PutAt smallFs s' 1 addr (namedEntry name no ty).toMem := by
  have hslot : HasSlot smallFs.disk (smallFs.inodes 1) :=
    ⟨0, by decide, by decide +kernel, 4, by decide, by decide +kernel⟩
  have hneed : blocksNeeded smallFs.disk (smallFs.inodes 1) = 0 := if_pos hslot
  have hsup : Supplies (fun _ => False) smallFs.part.blockBitmap
      (blocksNeeded smallFs.disk (smallFs.inodes 1)) := by
    rw [hneed]
    exact .inl ⟨∅, le_rfl, fun m hm => absurd hm (by simp)⟩
  have hwp := wp_enterName smallFs_root.1 smallFs_root.2 hsup (by decide) hname no ty buf
  obtain ⟨⟨r, s'⟩, hrun⟩ := hwp.returns
  obtain ⟨rfl, addr, hput⟩ := hwp.of_run hrun
  exact ⟨s', addr, hrun, hput⟩

/-- In the root of the small tree the 16 characters are found when the number is 256. -/
theorem entered_name_256 : ∃ s', enterName 1 longName 256 ftRegular (fun _ => 0) smallFs
    = .ok (true, s') ∧ LooksUp smallFs s' 1 longName 256 := by
  have habsent : searchDirEntry 1 longName smallFs = .ok (none, smallFs) :=
    (absent_iff smallFs_root.1 smallFs_root.2 longName_accepted).mpr (by decide +kernel)
  obtain ⟨s', -, hrun, -⟩ := smallFs_enters longName_accepted 256 ftRegular (fun _ => 0)
  exact ⟨s', hrun, (entered_name_iff smallFs s' 1 longName 256 ftRegular _ smallFs_root.1
    smallFs_root.2 longName_accepted habsent hrun).mpr (.inr rfl)⟩

/-- A file whose name has 16 characters and whose number is 5 is not found again. -/
theorem entered_name_lost : Accepted longName ∧
    searchDirEntry 1 longName smallFs = .ok (none, smallFs) ∧
    ∃ s', enterName 1 longName 5 ftRegular (fun _ => 0) smallFs = .ok (true, s') ∧
      searchDirEntry 1 longName s' = .ok (none, s') := by
  have hnone : findName smallFs.disk (smallFs.inodes 1) longName = none := by decide +kernel
  obtain ⟨s', addr, hrun, hput⟩ := smallFs_enters longName_accepted 5 ftRegular (fun _ => 0)
  exact ⟨longName_accepted,
    (absent_iff smallFs_root.1 smallFs_root.2 longName_accepted).mpr hnone, s', hrun,
    hput.lost rfl longName_accepted longName_accepted hnone (by decide)⟩

end ZyOs
