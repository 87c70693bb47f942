/-
A directory as the list of its entries.

`slots` are the addresses of the entries in the blocks a directory has, in the order
the kernel looks at them, and `entries` what is stored in those that are in use.  The
lookup returns the first slot that has the name, so in a directory whose free slots
are cleared it is a search in that list.
-/
import ZyOs.Proofs.Dir

namespace ZyOs

open Library

/-! ### Slots -/

/-- What a slot says. -/
structure Entry where
  name : List UInt8
  iNo : Nat
  fType : UInt32
deriving DecidableEq

/-- The name in the slot at `addr`. -/
def nameAt (d : Disk) (addr : Nat) : List UInt8 :=
  ((List.range 16).map fun i => d (addr + i)).takeWhile (· ≠ 0)

/-- The slot at `addr`. -/
def entryAt (d : Disk) (addr : Nat) : Entry :=
  ⟨nameAt d addr, (getWord d (addr + 16)).toNat, getWord d (addr + 20)⟩

/-- The slots of the block at `lba`. -/
def blockSlots (lba : Nat) : List Nat := (List.range 21).map fun i => 512 * lba + 24 * i

/-- The slots of the `n` blocks from number `k` on. -/
def slotsFrom (blocks : Nat → UInt32) : Nat → Nat → List Nat
  | 0, _ => []
  | n + 1, k => (if blocks k = 0 then [] else blockSlots (blocks k).toNat) ++
      slotsFrom blocks n (k + 1)

/-- The blocks of an inode: 12 of its own and, with a table, 128 from there. -/
def dirBlocks (d : Disk) (n : Inode) (k : Nat) : UInt32 :=
  if k < 12 then n.sector k
  else if k < 140 ∧ n.sector 12 ≠ 0 then getWord d (512 * n.blk 12 + 4 * (k - 12)) else 0

/-- The slots of a directory. -/
def slots (d : Disk) (n : Inode) : List Nat := slotsFrom (dirBlocks d n) 140 0

/-- The slot is in use. -/
def InUse (d : Disk) (addr : Nat) : Prop := getWord d (addr + 20) ≠ ftUnknown

instance (d : Disk) : DecidablePred (InUse d) :=
  fun addr => inferInstanceAs (Decidable (getWord d (addr + 20) ≠ ftUnknown))

/-- The entries of a directory. -/
def entries (d : Disk) (n : Inode) : List Entry :=
  ((slots d n).filter (InUse d)).map (entryAt d)

/-- The first slot with a name, in use or not. -/
def lookup (d : Disk) (n : Inode) (name : List UInt8) : Option Nat :=
  (slots d n).find? fun addr => nameAt d addr = name

/-- The first slot that `strncmp` accepts for a name. -/
def findName (d : Disk) (n : Inode) (name : List UInt8) : Option Nat :=
  (slots d n).find? fun addr => Matches d addr name

theorem mem_blockSlots {lba addr : Nat} :
    addr ∈ blockSlots lba ↔ ∃ i < 21, addr = 512 * lba + 24 * i := by
  simp [blockSlots, eq_comm]

theorem mem_slotsFrom {blocks : Nat → UInt32} {addr : Nat} : ∀ {n k : Nat},
    addr ∈ slotsFrom blocks n k ↔ ∃ j i, k ≤ j ∧ j < k + n ∧ blocks j ≠ 0 ∧ i < 21 ∧
      addr = 512 * (blocks j).toNat + 24 * i := by
  intro n
  induction n with
  | zero =>
      intro k
      simp only [slotsFrom, List.not_mem_nil, false_iff]
      rintro ⟨j, i, h1, h2, -⟩
      omega
  | succ n ih =>
      intro k
      rw [slotsFrom, List.mem_append, ih]
      constructor
      · rintro (h | ⟨j, i, h1, h2, h3⟩)
        · by_cases hk : blocks k = 0
          · simp [hk] at h
          · rw [if_neg hk] at h
            obtain ⟨i, hi, rfl⟩ := mem_blockSlots.mp h
            exact ⟨k, i, by omega, by omega, hk, hi, rfl⟩
        · exact ⟨j, i, by omega, by omega, h3⟩
      · rintro ⟨j, i, h1, h2, h3, h4, rfl⟩
        by_cases hj : j = k
        · subst hj
          left
          rw [if_neg h3]
          exact mem_blockSlots.mpr ⟨i, h4, rfl⟩
        · exact .inr ⟨j, i, by omega, by omega, h3, h4, rfl⟩

theorem mem_slots {d : Disk} {n : Inode} {addr : Nat} : addr ∈ slots d n ↔
    ∃ k i, k < 140 ∧ dirBlocks d n k ≠ 0 ∧ i < 21 ∧
      addr = 512 * (dirBlocks d n k).toNat + 24 * i := by
  rw [slots, mem_slotsFrom]
  constructor
  · rintro ⟨k, i, -, h2, h3⟩
    exact ⟨k, i, by omega, h3⟩
  · rintro ⟨k, i, h2, h3⟩
    exact ⟨k, i, by omega, by omega, h3⟩

theorem slotsFrom_append (blocks : Nat → UInt32) : ∀ (m n k : Nat),
    slotsFrom blocks (m + n) k = slotsFrom blocks m k ++ slotsFrom blocks n (k + m) := by
  intro m
  induction m with
  | zero => intro n k; simp [slotsFrom]
  | succ m ih =>
      intro n k
      rw [show m + 1 + n = m + n + 1 by omega, slotsFrom, slotsFrom, ih, List.append_assoc,
        show k + 1 + m = k + (m + 1) by omega]

theorem slotsFrom_zero {blocks : Nat → UInt32} : ∀ {n k : Nat},
    (∀ j, k ≤ j → j < k + n → blocks j = 0) → slotsFrom blocks n k = [] := by
  intro n k h
  refine List.eq_nil_iff_forall_not_mem.mpr fun addr hmem => ?_
  obtain ⟨j, _, h1, h2, hne, -⟩ := mem_slotsFrom.mp hmem
  exact hne (h j h1 h2)

/-- Without a table there is nothing behind the direct blocks. -/
theorem slots_direct {d : Disk} {n : Inode} (h12 : n.sector 12 = 0) :
    slots d n = slotsFrom (dirBlocks d n) 12 0 := by
  rw [slots, show 140 = 12 + 128 by rfl, slotsFrom_append, slotsFrom_zero (n := 128),
    List.append_nil]
  intro j hj _
  simp [dirBlocks, show ¬ j < 12 by omega, h12]

theorem mem_entries {d : Disk} {n : Inode} {e : Entry} : e ∈ entries d n ↔
    ∃ addr ∈ slots d n, InUse d addr ∧ entryAt d addr = e := by
  simp [entries, and_assoc]

/-! ### Names -/

/-- A name that fits a slot with its terminator. -/
structure FitsName (name : List UInt8) : Prop where
  text : 0 ∉ name
  short : name.length ≤ 15

/-- The text in front of the first zero, when there is room for it. -/
theorem takeWhile_range_eq : ∀ {l : List UInt8} {f : Nat → UInt8} {n : Nat}, 0 ∉ l → l.length < n →
    (((List.range n).map f).takeWhile (· ≠ 0) = l ↔ ∀ j ≤ l.length, f j = cstr l j) := by
  intro l
  induction l with
  | nil =>
      intro f n _ hn
      obtain ⟨m, rfl⟩ : ∃ m, n = m + 1 := ⟨n - 1, by simp at hn; omega⟩
      by_cases h0 : f 0 = 0
      · simp [List.range_succ_eq_map, cstr, h0]
      · simp [List.range_succ_eq_map, cstr, h0]
  | cons x l ih =>
      intro f n htext hn
      obtain ⟨m, rfl⟩ : ∃ m, n = m + 1 := ⟨n - 1, by simp at hn; omega⟩
      have hx : x ≠ 0 := fun h => htext (by simp [h])
      have hl := ih (f := fun i => f (i + 1)) (n := m) (fun h => htext (by simp [h]))
        (by simpa using hn)
      rw [List.range_succ_eq_map, List.map_cons, List.map_map]
      constructor
      · intro h j hj
        have h0 : f 0 ≠ 0 := fun h0 => by simp [h0] at h
        rw [List.takeWhile_cons_of_pos (by simpa using h0), List.cons.injEq] at h
        cases j with
        | zero => simpa [cstr] using h.1
        | succ j => simpa [cstr] using hl.mp h.2 j (by simpa using hj)
      · intro h
        have h0 : f 0 = x := by simpa [cstr] using h 0 (by omega)
        rw [List.takeWhile_cons_of_pos (by simpa [h0] using hx), h0]
        congr 1
        exact hl.mpr fun j hj => by simpa [cstr] using h (j + 1) (by simpa using hj)

/-- A slot has a name exactly when the bytes and the terminator are there. -/
theorem nameAt_eq_iff {d : Disk} {addr : Nat} {name : List UInt8} (h : FitsName name) :
    nameAt d addr = name ↔ Matches d addr name :=
  takeWhile_range_eq h.text (by have := h.short; omega)

/-! ### The lookup -/

section Search

variable {s s' : Fs} {a : Nat} {name : List UInt8} {blocks : Nat → UInt32}

/-- The entry that is copied out of the slot at `addr`. -/
def dirEntryAt (d : Disk) (addr : Nat) : DirEntry := DirEntry.ofMem (d.drop addr)

theorem dirEntryAt_window (d : Disk) (base : Nat) {off : Nat} (hoff : off + 24 ≤ 512) (buf : Mem) :
    DirEntry.ofMem ((buf.splice 0 (d.drop base) 512).drop off) = dirEntryAt d (base + off) := by
  have hword : ∀ k, k + 4 ≤ 24 → getWord ((buf.splice 0 (d.drop base) 512).drop off) k
      = getWord (d.drop (base + off)) k := by
    intro k hk
    refine getWord_congr fun j hj => ?_
    rw [Mem.drop_window _ _ (by omega), Mem.drop_apply]
  unfold dirEntryAt DirEntry.ofMem
  rw [hword 16 (by omega), hword 20 (by omega)]
  congr 1
  funext k
  by_cases hk : k < 16
  · simp only [hk, if_true]
    rw [Mem.drop_window _ _ (by omega), Mem.drop_apply]
  · simp only [hk, if_false]

theorem searchBlock_match (htext : 0 ∉ name) (hlen : name.length ≤ 16) (d : Disk) (lba : Nat)
    (buf : Mem) : ∀ (fuel k : Nat), k + fuel = 21 →
      searchBlock (buf.splice 0 (d.drop (512 * lba)) 512) name 21 fuel k
        = (((List.range' k fuel).map fun i => 512 * lba + 24 * i).find?
            fun addr => Matches d addr name).map (dirEntryAt d) := by
  intro fuel
  induction fuel with
  | zero => intro k _; rfl
  | succ fuel ih =>
      intro k hk
      rw [searchBlock, if_pos (by omega), List.range'_succ, List.map_cons]
      simp only [DirEntry.size]
      have hiff : strncmp ((buf.splice 0 (d.drop (512 * lba)) 512).drop (24 * k)) (cstr name)
          name.length 0 = 0 ↔ Matches d (512 * lba + 24 * k) name :=
        strncmp_read htext (by omega) buf
      by_cases hm : Matches d (512 * lba + 24 * k) name
      · rw [if_pos (hiff.mpr hm), List.find?_cons_of_pos (by simpa using hm), Option.map_some,
          dirEntryAt_window _ _ (by omega)]
      · rw [if_neg fun hc => hm (hiff.mp hc), List.find?_cons_of_neg (by simpa using hm)]
        exact ih (k + 1) (by omega)

/-- The loop over the blocks, if it returns, has found the first slot with the name. -/
theorem searchBlocks_match (htext : 0 ∉ name) (hlen : name.length ≤ 16) {r : Option DirEntry} :
    ∀ (fuel k : Nat), searchBlocks blocks name 21 fuel k s = .ok (r, s') →
      s' = s ∧ r = ((slotsFrom blocks fuel k).find?
        fun addr => Matches s.disk addr name).map (dirEntryAt s.disk) := by
  intro fuel
  induction fuel with
  | zero =>
      intro k hrun
      simp only [searchBlocks, Prog.pure_run, Except.ok.injEq, Prod.mk.injEq] at hrun
      exact ⟨hrun.2.symm, hrun.1.symm⟩
  | succ fuel ih =>
      intro k hrun
      rw [searchBlocks] at hrun
      rw [slotsFrom]
      by_cases hk : blocks k = 0
      · rw [if_pos hk] at hrun
        rw [if_pos hk, List.nil_append]
        exact ih (k + 1) hrun
      · rw [if_neg hk] at hrun
        rw [if_neg hk, List.find?_append]
        obtain ⟨buf, s₁, hread, hrest⟩ := Prog.bind_run.mp hrun
        obtain ⟨rfl, rfl⟩ := readSectors_ok hread
        rw [Nat.one_mul, searchBlock_match htext hlen _ _ _ 21 0 rfl] at hrest
        simp only [blockSlots, List.range_eq_range'] at *
        cases hf : ((List.range' 0 21).map fun i => 512 * (blocks k).toNat + 24 * i).find?
            fun addr => Matches s₁.disk addr name with
        | none =>
            simp only [hf, Option.map_none] at hrest
            rw [Option.none_or]
            exact ih (k + 1) hrest
        | some addr =>
            simp only [hf, Option.map_some, Prog.pure_run, Except.ok.injEq, Prod.mk.injEq] at hrest
            exact ⟨hrest.2.symm, hrest.1.symm⟩

theorem searchBlocks_returns (s : Fs) (name : List UInt8) (cnt : Nat) : ∀ (fuel k : Nat),
    (∀ j, k ≤ j → j < k + fuel → blocks j ≠ 0 → (blocks j).toNat ≤ maxLba) →
    ∃ r, searchBlocks blocks name cnt fuel k s = .ok (r, s) := by
  intro fuel
  induction fuel with
  | zero => intro k _; exact ⟨none, rfl⟩
  | succ fuel ih =>
      intro k hread
      rw [searchBlocks]
      by_cases hk : blocks k = 0
      · rw [if_pos hk]
        exact ih (k + 1) fun j h1 h2 => hread j (by omega) (by omega)
      · have hdrive := hread k (by omega) (by omega) hk
        rw [if_neg hk, Prog.bind_of_run (readSectors_run s _ (by decide) (by omega))]
        cases searchBlock _ name cnt cnt 0 with
        | some e => exact ⟨some e, rfl⟩
        | none => exact ih (k + 1) fun j h1 h2 => hread j (by omega) (by omega)

/-- What is collected from an inode and the sector of its table. -/
theorem withTable_eq (d : Disk) {n : Inode} (h12 : n.sector 12 ≠ 0) (buf : Mem) :
    withTable (directBlocks n) (buf.splice 0 (d.drop (512 * (n.sector 12).toNat)) 512)
      = dirBlocks d n := by
  funext k
  unfold withTable dirBlocks directBlocks
  by_cases hk : k < 12
  · simp [hk, show ¬ 12 ≤ k by omega]
  · by_cases hk2 : k < 140
    · simp only [hk, hk2, h12, show 12 ≤ k by omega, if_false, if_true, true_and, ne_eq,
        not_false_eq_true]
      exact getWord_read _ _ _ (by omega)
    · simp [hk, hk2]

theorem directBlocks_eq_dirBlocks (d : Disk) {n : Inode} (h12 : n.sector 12 = 0) :
    directBlocks n = dirBlocks d n := by
  funext k
  unfold dirBlocks directBlocks
  by_cases hk : k < 12
  · simp [hk]
  · simp [hk, h12]

/-- `search_dir_entry`, if it returns, has found the first slot that answers to the name. -/
theorem searchDirEntry_match (htext : 0 ∉ name) (hlen : name.length ≤ 16)
    (hsize : s.part.sb.dirEntrySize = 24) {r : Option DirEntry}
    (hrun : searchDirEntry a name s = .ok (r, s')) :
    s' = s ∧ r = (findName s.disk (s.inodes a) name).map (dirEntryAt s.disk) := by
  unfold searchDirEntry at hrun
  obtain ⟨s₁, s₂, hget, hrun⟩ := Prog.bind_run.mp hrun
  simp only [Prog.get_run, Except.ok.injEq, Prod.mk.injEq] at hget
  obtain ⟨rfl, rfl⟩ := hget
  simp only [hsize, sectorSize, show 512 / 24 = 21 by rfl] at hrun
  by_cases h12 : (s.inodes a).sector 12 = 0
  · rw [if_neg (by simp [h12]), directBlocks_eq_dirBlocks s.disk h12] at hrun
    exact searchBlocks_match htext hlen 140 0 hrun
  · rw [if_pos h12] at hrun
    obtain ⟨buf, s₁, hread, hrun⟩ := Prog.bind_run.mp hrun
    obtain ⟨rfl, rfl⟩ := readSectors_ok hread
    rw [Nat.one_mul, withTable_eq s₁.disk h12] at hrun
    exact searchBlocks_match htext hlen 140 0 hrun

/-- For a name with its terminator these are the slots that have it. -/
theorem lookup_eq_findName (h : FitsName name) (d : Disk) (n : Inode) :
    lookup d n name = findName d n name := by
  refine congrArg (fun p => (slots d n).find? p) (funext fun addr => ?_)
  exact decide_eq_decide.mpr (nameAt_eq_iff h)

/-- The blocks of a directory, and its table, are on the drive. -/
structure Readable (d : Disk) (n : Inode) : Prop where
  table : n.sector 12 ≠ 0 → n.blk 12 ≤ maxLba
  blocks : ∀ k < 140, dirBlocks d n k ≠ 0 → (dirBlocks d n k).toNat ≤ maxLba

theorem searchDirEntry_returns (name : List UInt8) (hread : Readable s.disk (s.inodes a)) :
    ∃ r, searchDirEntry a name s = .ok (r, s) := by
  unfold searchDirEntry
  rw [Prog.bind_of_run (Prog.get_run s)]
  by_cases h12 : (s.inodes a).sector 12 = 0
  · rw [if_neg (by simp [h12]), directBlocks_eq_dirBlocks s.disk h12]
    exact searchBlocks_returns s name _ 140 0 fun j _ hj => hread.blocks j (by omega)
  · have hdrive := hread.table h12
    rw [if_pos h12, Prog.bind_of_run (readSectors_run s _ (by decide) (by
      unfold Inode.blk at hdrive; omega)), Nat.one_mul, withTable_eq s.disk h12]
    exact searchBlocks_returns s name _ 140 0 fun j _ hj => hread.blocks j (by omega)

theorem searchDirEntry_find (htext : 0 ∉ name) (hlen : name.length ≤ 16)
    (hsize : s.part.sb.dirEntrySize = 24) (hread : Readable s.disk (s.inodes a)) :
    searchDirEntry a name s
      = .ok ((findName s.disk (s.inodes a) name).map (dirEntryAt s.disk), s) := by
  obtain ⟨r, hr⟩ := searchDirEntry_returns name hread
  rw [hr, (searchDirEntry_match htext hlen hsize hr).2]

/-- `search_dir_entry` on a directory that is on the drive. -/
theorem searchDirEntry_run (h : FitsName name) (hsize : s.part.sb.dirEntrySize = 24)
    (hread : Readable s.disk (s.inodes a)) : searchDirEntry a name s
      = .ok ((lookup s.disk (s.inodes a) name).map (dirEntryAt s.disk), s) := by
  rw [lookup_eq_findName h]
  exact searchDirEntry_find h.text (h.short.trans (by decide)) hsize hread

end Search

end ZyOs
