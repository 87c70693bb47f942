/-
Directory trees.

A tree is the numbers of its directories and files, with the parent of each directory
and how deep it lies.  `DirTree s t` says that the disk of `s` holds it: a directory
begins with `.` and `..`, its other entries name its files and the directories it is
the parent of, no two entries share a name or a number, and a slot that is free has been
cleared.
-/
import ZyOs.Proofs.Cache
import ZyOs.Proofs.Entries
import ZyOs.Proofs.Path

namespace ZyOs

open Library

/-- `.` -/
def dotText : List UInt8 := [46]
/-- `..` -/
def dotdotText : List UInt8 := [46, 46]

/-- The shape of a tree, in inode numbers. -/
structure Tree where
  dirs : Finset Nat
  files : Finset Nat
  parent : Nat → Nat
  depth : Nat → Nat

/-- The entries of the directory with this number. -/
def dirEntries (s : Fs) (dir : Nat) : List Entry := entries s.disk (diskInode s dir)

/-- The slots of the directory with this number. -/
def dirSlots (s : Fs) (dir : Nat) : List Nat := slots s.disk (diskInode s dir)

/-- A name other than `.` and `..`. -/
def Proper (name : List UInt8) : Prop := name ≠ dotText ∧ name ≠ dotdotText

/-- A name as a path can have it. -/
structure GoodName (name : List UInt8) : Prop extends FitsName name where
  ne_nil : name ≠ []
  noSlash : slash ∉ name

/-- The disk of `s` holds the tree `t`. -/
structure DirTree (s : Fs) (t : Tree) : Prop where
  entrySize : s.part.sb.dirEntrySize = 24
  table : s.part.TableFits
  root : 0 ∈ t.dirs
  rootParent : t.parent 0 = 0
  rootOpen : s.rootInode ∈ s.openInodes
  rootNo : (s.inodes s.rootInode).iNo = 0
  apart : Disjoint t.dirs t.files
  number : ∀ no ∈ t.dirs ∪ t.files, no < 4096 ∧ (diskInode s no).iNo.toNat = no
  readable : ∀ d ∈ t.dirs, Readable s.disk (diskInode s d)
  cleared : ∀ d ∈ t.dirs, ∀ addr ∈ dirSlots s d, ¬ InUse s.disk addr →
    nameAt s.disk addr = [] ∧ getWord s.disk (addr + 16) = 0
  first : ∀ d ∈ t.dirs, (diskInode s d).sector 0 ≠ 0 ∧
    s.part.sb.dataStartLba ≤ (diskInode s d).blk 0
  dot : ∀ d ∈ t.dirs, entryAt s.disk (512 * (diskInode s d).blk 0) = ⟨dotText, d, ftDirectory⟩
  dotdot : ∀ d ∈ t.dirs, entryAt s.disk (512 * (diskInode s d).blk 0 + 24)
    = ⟨dotdotText, t.parent d, ftDirectory⟩
  good : ∀ d ∈ t.dirs, ∀ e ∈ dirEntries s d, GoodName e.name
  nodup : ∀ d ∈ t.dirs, ((dirEntries s d).map Entry.name).Nodup
  kids : ∀ d ∈ t.dirs, ∀ e ∈ dirEntries s d, Proper e.name →
    (e.fType = ftDirectory ∧ e.iNo ∈ t.dirs ∧ e.iNo ≠ 0 ∧ t.parent e.iNo = d) ∨
    (e.fType = ftRegular ∧ e.iNo ∈ t.files)
  linked : ∀ d ∈ t.dirs, ∀ d' ∈ t.dirs, ∀ e ∈ dirEntries s d, ∀ e' ∈ dirEntries s d',
    Proper e.name → Proper e'.name → e.iNo = e'.iNo → d = d' ∧ e = e'
  parents : ∀ d ∈ t.dirs, d ≠ 0 → t.parent d ∈ t.dirs ∧ t.depth d = t.depth (t.parent d) + 1
  named : ∀ d ∈ t.dirs, d ≠ 0 → ∃ e ∈ dirEntries s (t.parent d), Proper e.name ∧ e.iNo = d

instance (name : List UInt8) : Decidable (Proper name) :=
  inferInstanceAs (Decidable (name ≠ dotText ∧ name ≠ dotdotText))

variable {s s' : Fs} {t : Tree} {dir : Nat} {name : List UInt8} {e : Entry}

/-! ### Inodes with the same blocks -/

theorem dirBlocks_congr {n n' : Inode} (h : Inode.Same n n') (d : Disk) :
    dirBlocks d n = dirBlocks d n' := by
  funext k
  unfold dirBlocks Inode.blk
  rw [h.sectors 12 (by omega)]
  by_cases hk : k < 12
  · rw [if_pos hk, if_pos hk, h.sectors k (by omega)]
  · rw [if_neg hk, if_neg hk]

theorem slots_congr {n n' : Inode} (h : Inode.Same n n') (d : Disk) : slots d n = slots d n' := by
  unfold slots
  rw [dirBlocks_congr h]

theorem lookup_congr {n n' : Inode} (h : Inode.Same n n') (d : Disk) (name : List UInt8) :
    lookup d n name = lookup d n' name := by
  unfold lookup
  rw [slots_congr h]

theorem Readable.congr {n n' : Inode} {d : Disk} (hr : Readable d n) (h : Inode.Same n n') :
    Readable d n' := by
  refine ⟨fun h12 => ?_, fun k hk hne => ?_⟩
  · have heq := h.sectors 12 (by omega)
    have := hr.table (by rwa [heq])
    rwa [Inode.blk, heq] at this
  · rw [← dirBlocks_congr h] at hne ⊢
    exact hr.blocks k hk hne

/-! ### Looking a name up -/

/-- What a lookup of `name` in the directory `dir` finds. -/
def look (s : Fs) (dir : Nat) (name : List UInt8) : Option Entry :=
  (lookup s.disk (diskInode s dir) name).map (entryAt s.disk)

theorem DirTree.isDir (h : DirTree s t) (hd : dir ∈ t.dirs) :
    dir < 4096 ∧ (diskInode s dir).iNo.toNat = dir := h.number dir (Finset.mem_union_left _ hd)

/-- A lookup finds an entry of the directory. -/
theorem DirTree.look_sound (h : DirTree s t) (hd : dir ∈ t.dirs) (hne : name ≠ [])
    (hlook : look s dir name = some e) : e ∈ dirEntries s dir ∧ e.name = name := by
  obtain ⟨addr, hfind, rfl⟩ := Option.map_eq_some_iff.mp hlook
  have hname : nameAt s.disk addr = name := by simpa using List.find?_some hfind
  have hmem : addr ∈ dirSlots s dir := List.mem_of_find?_eq_some hfind
  refine ⟨mem_entries.mpr ⟨addr, hmem, ?_, rfl⟩, hname⟩
  by_contra hfree
  exact hne (hname ▸ (h.cleared dir hd addr hmem hfree).1)

/-- A lookup finds the entry with the name. -/
theorem DirTree.look_eq (h : DirTree s t) (hd : dir ∈ t.dirs) (he : e ∈ dirEntries s dir) :
    look s dir e.name = some e := by
  obtain ⟨addr, hmem, -, hat⟩ := mem_entries.mp he
  have hname : nameAt s.disk addr = e.name := by rw [← hat]; rfl
  cases hlook : look s dir e.name with
  | none =>
      rw [look, Option.map_eq_none_iff, lookup, List.find?_eq_none] at hlook
      exact absurd hname (by simpa using hlook addr hmem)
  | some e' =>
      obtain ⟨hmem', hname'⟩ := h.look_sound hd (h.good dir hd e he).ne_nil hlook
      rw [List.inj_on_of_nodup_map (h.nodup dir hd) hmem' he hname']

/-! ### `.` and `..` -/

theorem mem_dirSlots_first (hne : (diskInode s dir).sector 0 ≠ 0) {i : Nat} (hi : i < 21) :
    512 * (diskInode s dir).blk 0 + 24 * i ∈ dirSlots s dir :=
  mem_slots.mpr ⟨0, i, by omega, by simpa [dirBlocks] using hne, hi, by simp [dirBlocks, Inode.blk]⟩

theorem mem_dirEntries_first (hne : (diskInode s dir).sector 0 ≠ 0) {i : Nat} (hi : i < 21)
    (hat : entryAt s.disk (512 * (diskInode s dir).blk 0 + 24 * i) = e)
    (hty : e.fType ≠ ftUnknown) : e ∈ dirEntries s dir :=
  mem_entries.mpr ⟨_, mem_dirSlots_first hne hi, by rw [← hat] at hty; exact hty, hat⟩

theorem DirTree.mem_dot (h : DirTree s t) (hd : dir ∈ t.dirs) :
    ⟨dotText, dir, ftDirectory⟩ ∈ dirEntries s dir :=
  mem_dirEntries_first (i := 0) (h.first dir hd).1 (by omega) (h.dot dir hd)
    (show ftDirectory ≠ ftUnknown by decide)

theorem DirTree.mem_dotdot (h : DirTree s t) (hd : dir ∈ t.dirs) :
    ⟨dotdotText, t.parent dir, ftDirectory⟩ ∈ dirEntries s dir :=
  mem_dirEntries_first (i := 1) (h.first dir hd).1 (by omega) (h.dotdot dir hd)
    (show ftDirectory ≠ ftUnknown by decide)

theorem DirTree.look_dot (h : DirTree s t) (hd : dir ∈ t.dirs) :
    look s dir dotText = some ⟨dotText, dir, ftDirectory⟩ := h.look_eq hd (h.mem_dot hd)

theorem DirTree.look_dotdot (h : DirTree s t) (hd : dir ∈ t.dirs) :
    look s dir dotdotText = some ⟨dotdotText, t.parent dir, ftDirectory⟩ :=
  h.look_eq hd (h.mem_dotdot hd)

theorem DirTree.parent_mem (h : DirTree s t) (hd : dir ∈ t.dirs) : t.parent dir ∈ t.dirs := by
  by_cases h0 : dir = 0
  · rw [h0, h.rootParent]
    exact h.root
  · exact (h.parents dir hd h0).1

/-- What a directory of a tree holds. -/
theorem DirTree.entry_cases (h : DirTree s t) (hd : dir ∈ t.dirs) (he : e ∈ dirEntries s dir) :
    (e.fType = ftDirectory ∧ e.iNo ∈ t.dirs) ∨ (e.fType = ftRegular ∧ e.iNo ∈ t.files) := by
  have hlook := h.look_eq hd he
  by_cases hdot : e.name = dotText
  · rw [hdot, h.look_dot hd] at hlook
    obtain rfl := Option.some.inj hlook
    exact .inl ⟨rfl, hd⟩
  · by_cases hdd : e.name = dotdotText
    · rw [hdd, h.look_dotdot hd] at hlook
      obtain rfl := Option.some.inj hlook
      exact .inl ⟨rfl, h.parent_mem hd⟩
    · exact (h.kids dir hd e he ⟨hdot, hdd⟩).imp_left fun hk => ⟨hk.1, hk.2.1⟩

theorem DirTree.isFile (h : DirTree s t) {no : Nat} (hno : no ∈ t.files) :
    no < 4096 ∧ (diskInode s no).iNo.toNat = no := h.number no (Finset.mem_union_right _ hno)

/-! ### A small tree -/

/-- An inode with one block. -/
def inodeWith (no size block : UInt32) : Inode :=
  { inodeInit no.toNat with iSize := size }.setSector 0 block

/-- An entry written at `addr`. -/
def putEntry (d : Disk) (addr : Nat) (name : List UInt8) (iNo fType : UInt32) : Disk :=
  d.splice addr (DirEntry.toMem ⟨cstr name, iNo, fType⟩) DirEntry.size

/-- The root with a directory `d`, which is empty, and a file `f`, which is too. -/
def smallDisk : Disk :=
  let d := emptyFs.disk.splice (slotAddr emptyFs.part 0) (inodeWith 0 96 612).pureMem Inode.size
  let d := d.splice (slotAddr emptyFs.part 1) (inodeWith 1 48 613).pureMem Inode.size
  let d := d.splice (slotAddr emptyFs.part 2) (inodeInit 2).pureMem Inode.size
  let d := putEntry (putEntry d 313344 dotText 0 ftDirectory) 313368 dotdotText 0 ftDirectory
  let d := putEntry (putEntry d 313392 [100] 1 ftDirectory) 313416 [102] 2 ftRegular
  putEntry (putEntry d 313856 dotText 1 ftDirectory) 313880 dotdotText 0 ftDirectory

/-- It is mounted, and only the root is open. -/
def smallFs : Fs :=
  { emptyFs with
    disk := smallDisk
    part := { emptyFs.part with
      blockBitmap := { bmapBytesLen := 512, bits := fun i => if i = 0 then 3 else 0 }
      inodeBitmap := { bmapBytesLen := 512, bits := fun i => if i = 0 then 7 else 0 } }
    inodes := fun _ => { inodeWith 0 96 612 with iOpenCnts := 1 }
    heap := {1}
    openInodes := [1]
    rootInode := 1 }

def smallTree : Tree where
  dirs := {0, 1}
  files := {2}
  parent := fun _ => 0
  depth := fun d => d

theorem smallFs_cache : Cache smallFs where
  nodup := by decide
  heap := by decide
  opened := by decide
  number := by decide
  same := by
    intro a ha
    obtain rfl : a = 1 := List.mem_singleton.mp ha
    exact ⟨by decide +kernel, by decide +kernel, by decide +kernel⟩
  unique := by decide
  files := fun _ _ _ h => absurd h (by simp [smallFs, emptyFs])

theorem smallFs_tree : DirTree smallFs smallTree where
  entrySize := rfl
  table := ⟨by decide, by decide⟩
  root := by decide
  rootParent := rfl
  rootOpen := by decide
  rootNo := by decide
  apart := by decide
  number := by decide +kernel
  readable := fun d hd => ⟨by revert d; decide +kernel, by revert d; decide +kernel⟩
  cleared := by decide +kernel
  first := by decide +kernel
  dot := by decide +kernel
  dotdot := by decide +kernel
  good := fun d hd e he => ⟨⟨by revert d e; decide +kernel, by revert d e; decide +kernel⟩,
    by revert d e; decide +kernel, by revert d e; decide +kernel⟩
  nodup := by decide +kernel
  kids := by decide +kernel
  linked := by decide +kernel
  parents := by decide +kernel
  named := by decide +kernel

end ZyOs
