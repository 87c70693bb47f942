/-
A directory is listed completely and without repeats.

`liveSlots` are the slots of a directory that hold an entry, in the order of blocks and slots.
A call with `dir_pos` at `k` entries returns the entry in the `k`-th of them and moves
`dir_pos` on by one, or returns `NULL` and leaves it when there are no more; so the calls that
follow each other walk along that list.
-/
import ZyOs.Kernel.DirRead
import ZyOs.Proofs.Tree

namespace ZyOs

open Library

/-- The slots in use, in the order of blocks and slots. -/
def liveSlots (d : Disk) (n : Inode) : List Nat := (slots d n).filter (InUse d)

/-- `dir_pos` after `k` entries. -/
def entryPos (k : Nat) : UInt32 := UInt32.ofNat (24 * k)

variable {s : Fs} {a : Nat} {d : Disk} {n : Inode} {blocks : Nat → UInt32}

theorem entryPos_toNat {k : Nat} (hk : 24 * k < 2 ^ 32) : (entryPos k).toNat = 24 * k :=
  UInt32.toNat_ofNat_of_lt' hk

theorem entryPos_succ (k : Nat) : entryPos k + 24 = entryPos (k + 1) := by
  rw [entryPos, entryPos, show 24 * (k + 1) = 24 * k + 24 by omega, UInt32.ofNat_add]
  rfl

theorem entryPos_lt {j k : Nat} (hj : 24 * j < 2 ^ 32) (hk : 24 * k < 2 ^ 32) :
    entryPos j < entryPos k ↔ j < k := by
  rw [UInt32.lt_iff_toNat_lt, entryPos_toNat hj, entryPos_toNat hk]
  omega

/-! ### One block -/

/-- The slots from `k` on of the block at `lba` that are in use. -/
def liveFrom (d : Disk) (lba k m : Nat) : List Nat :=
  ((List.range' k m).map fun i => 512 * lba + 24 * i).filter (InUse d)

theorem liveFrom_succ (d : Disk) (lba k m : Nat) : liveFrom d lba k (m + 1) =
    if InUse d (512 * lba + 24 * k) then (512 * lba + 24 * k) :: liveFrom d lba (k + 1) m
    else liveFrom d lba (k + 1) m := by
  rw [liveFrom, List.range'_succ, List.map_cons, List.filter_cons]
  simp only [decide_eq_true_eq]
  rfl

theorem liveFrom_block (d : Disk) (lba : Nat) :
    liveFrom d lba 0 21 = (blockSlots lba).filter (InUse d) := by
  rw [liveFrom, blockSlots, List.range_eq_range']

/-- The loop over a block lets as many live entries pass as are missing to `dir_pos`. -/
theorem readEntries_run (d : Disk) (lba : Nat) (buf : Mem) {p : Nat} (hp : 24 * p < 2 ^ 32) :
    ∀ (m k c : Nat), k + m = 21 → c ≤ p →
      (∃ i < 21, (liveFrom d lba k m)[p - c]? = some (512 * lba + 24 * i) ∧
        readEntries (buf.splice 0 (d.drop (512 * lba)) 512) (entryPos p) 24 m k (entryPos c)
          = .ok (some i, entryPos p)) ∨
      ((liveFrom d lba k m).length ≤ p - c ∧
        readEntries (buf.splice 0 (d.drop (512 * lba)) 512) (entryPos p) 24 m k (entryPos c)
          = .ok (none, entryPos (c + (liveFrom d lba k m).length))) := by
  intro m
  induction m with
  | zero =>
      intro k c _ _
      exact .inr ⟨Nat.zero_le _, rfl⟩
  | succ m ih =>
      intro k c hk hc
      have hword : getWord (buf.splice 0 (d.drop (512 * lba)) 512) (24 * k + 20)
          = getWord d (512 * lba + 24 * k + 20) := by
        rw [getWord_read _ _ _ (by omega), Nat.add_assoc]
      rw [readEntries, liveFrom_succ]
      simp only [DirEntry.size, hword]
      by_cases huse : InUse d (512 * lba + 24 * k)
      · rw [if_pos huse, if_pos (show getWord d _ ≠ ftUnknown from huse)]
        rcases Nat.lt_or_ge c p with hlt | hge
        · -- an entry of an earlier call
          rw [if_pos ((entryPos_lt (by omega) hp).mpr hlt), entryPos_succ]
          rw [show p - c = p - (c + 1) + 1 by omega]
          rcases ih (k + 1) (c + 1) (by omega) (by omega) with ⟨i, hi, hget, hrun⟩ | ⟨hlen, hrun⟩
          · exact .inl ⟨i, hi, by simpa using hget, hrun⟩
          · refine .inr ⟨by simpa using hlen, ?_⟩
            rw [hrun, List.length_cons, show c + 1 + (liveFrom d lba (k + 1) m).length
              = c + ((liveFrom d lba (k + 1) m).length + 1) by omega]
        · obtain rfl : c = p := by omega
          rw [if_neg fun h => absurd ((entryPos_lt hp hp).mp h) (by omega)]
          refine .inl ⟨k, by omega, by rw [Nat.sub_self]; rfl, ?_⟩
          rw [ASSERT, if_pos rfl]
          rfl
      · rw [if_neg huse, if_neg (show ¬ getWord d _ ≠ ftUnknown from huse)]
        exact ih (k + 1) c (by omega) hc

/-! ### All blocks -/

/-- The live slots of the blocks from `k` on. -/
theorem live_slotsFrom (d : Disk) (blocks : Nat → UInt32) (m k : Nat) :
    (slotsFrom blocks (m + 1) k).filter (InUse d) =
      (if blocks k = 0 then [] else liveFrom d (blocks k).toNat 0 21) ++
        (slotsFrom blocks m (k + 1)).filter (InUse d) := by
  rw [slotsFrom, List.filter_append, liveFrom_block]
  by_cases hk : blocks k = 0
  · rw [if_pos hk, if_pos hk]
    rfl
  · rw [if_neg hk, if_neg hk]

/-- The end test never stops a call that has an entry to return. -/
theorem readBlocks_run (blocks : Nat → UInt32) (hsize : s.part.sb.dirEntrySize = 24) {p : Nat}
    (hp : 24 * p < 2 ^ 32) {dirSize : UInt32} (hmore : ¬ dirSize ≤ entryPos p) :
      ∀ (m k c : Nat), c ≤ p →
      (∀ j, k ≤ j → j < k + m → blocks j ≠ 0 → (blocks j).toNat ≤ maxLba) →
      p - c < ((slotsFrom blocks m k).filter (InUse s.disk)).length →
      ∃ addr, ((slotsFrom blocks m k).filter (InUse s.disk))[p - c]? = some addr ∧
        readBlocks blocks dirSize (entryPos p) m k (entryPos c) s
          = .ok ((some (dirEntryAt s.disk addr), entryPos (p + 1)), s) := by
  intro m
  induction m with
  | zero =>
      intro k c _ _ hlen
      exact absurd hlen (Nat.not_lt_zero _)
  | succ m ih =>
      intro k c hc hread hlen
      rw [live_slotsFrom] at hlen ⊢
      rw [readBlocks, if_neg hmore]
      by_cases hk : blocks k = 0
      · rw [if_pos hk] at hlen ⊢
        rw [if_pos hk]
        exact ih (k + 1) c hc (fun j h1 h2 => hread j (by omega) (by omega)) hlen
      · have hdrive := hread k (by omega) (by omega) hk
        rw [if_neg hk] at hlen ⊢
        rw [if_neg hk, Prog.bind_of_run (Prog.get_run s),
          Prog.bind_of_run (readSectors_run s _ (by decide) (by omega)), Nat.one_mul, hsize]
        rcases readEntries_run s.disk (blocks k).toNat (fun _ => 0) hp 21 0 c rfl hc with
          ⟨i, hi, hget, hrun⟩ | ⟨hle, hrun⟩
        · rw [show sectorSize / 24 = 21 from rfl, show UInt32.ofNat 24 = 24 from rfl, hrun]
          obtain ⟨hlt, -⟩ := List.getElem?_eq_some_iff.mp hget
          refine ⟨_, by rw [List.getElem?_append_left hlt]; exact hget, ?_⟩
          rw [Prog.bind_of_run (Prog.lift_ok _ s), ← dirEntryAt_window _ _ (by omega) (fun _ => 0),
            ← entryPos_succ]
          rfl
        · rw [show sectorSize / 24 = 21 from rfl, show UInt32.ofNat 24 = 24 from rfl, hrun,
            Prog.bind_of_run (Prog.lift_ok _ s)]
          rw [List.length_append] at hlen
          obtain ⟨addr, hget, hrest⟩ :=
            ih (k + 1) (c + (liveFrom s.disk (blocks k).toNat 0 21).length)
            (by omega) (fun j h1 h2 => hread j (by omega) (by omega)) (by omega)
          refine ⟨addr, ?_, hrest⟩
          rw [List.getElem?_append_right hle, Nat.sub_sub]
          exact hget

/-- A listing that has come to the end stays there. -/
theorem readBlocks_end (blocks : Nat → UInt32) {dirSize dirPos : UInt32} (hend : dirSize ≤ dirPos)
    (m k : Nat) (c : UInt32) (s : Fs) :
    readBlocks blocks dirSize dirPos m k c s = .ok ((none, dirPos), s) := by
  cases m with
  | zero => rfl
  | succ m =>
      rw [readBlocks, if_pos hend]
      rfl

/-! ### A call -/

/-- The size of a directory counts its live entries. -/
def SizeCounts (d : Disk) (n : Inode) : Prop := n.iSize.toNat = 24 * (liveSlots d n).length

/-- One call: the entry that is next, or `NULL` and no step forward. -/
theorem dirRead_run (hsize : s.part.sb.dirEntrySize = 24) (hread : Readable s.disk (s.inodes a))
    (hcount : SizeCounts s.disk (s.inodes a)) {p : Nat}
    (hp : p ≤ (liveSlots s.disk (s.inodes a)).length) :
    dirRead a (entryPos p) s = .ok ((((liveSlots s.disk (s.inodes a))[p]?).map (dirEntryAt s.disk),
      entryPos (min (p + 1) (liveSlots s.disk (s.inodes a)).length)), s) := by
  have hbig : 24 * (liveSlots s.disk (s.inodes a)).length < 2 ^ 32 := by
    rw [← hcount]
    exact UInt32.toNat_lt_size _
  have hend : (s.inodes a).iSize ≤ entryPos p ↔
      (liveSlots s.disk (s.inodes a)).length ≤ p := by
    rw [UInt32.le_iff_toNat_le, entryPos_toNat (by omega), hcount]
    omega
  have hall : ∀ j, j < 140 → dirBlocks s.disk (s.inodes a) j ≠ 0 →
      (dirBlocks s.disk (s.inodes a) j).toNat ≤ maxLba := hread.blocks
  rw [dirRead, Prog.bind_of_run (Prog.get_run s)]
  rcases Nat.lt_or_ge p (liveSlots s.disk (s.inodes a)).length with hlt | hge
  · have hmore : ¬ (s.inodes a).iSize ≤ entryPos p := fun h => by
      have := hend.mp h
      omega
    rw [Nat.min_eq_left hlt]
    by_cases h12 : (s.inodes a).sector 12 = 0
    · obtain ⟨addr, hget, hrun⟩ := readBlocks_run (directBlocks (s.inodes a)) hsize
        (by omega) hmore 12 0 0 (Nat.zero_le p) (fun j _ h2 hj => by
          rw [directBlocks_eq_dirBlocks s.disk h12] at hj ⊢
          exact hall j (by omega) hj) (by
          rw [directBlocks_eq_dirBlocks s.disk h12, ← slots_direct h12]
          exact hlt)
      rw [directBlocks_eq_dirBlocks s.disk h12, ← slots_direct h12] at hget
      have hnext : (liveSlots s.disk (s.inodes a))[p]? = some addr := hget
      rw [if_neg (by simp [h12]), hnext]
      exact hrun
    · have hdrive := hread.table h12
      rw [if_pos h12, Prog.bind_of_run (readSectors_run s _ (by decide) (by
        unfold Inode.blk at hdrive; omega)), Nat.one_mul, withTable_eq s.disk h12]
      obtain ⟨addr, hget, hrun⟩ := readBlocks_run (dirBlocks s.disk (s.inodes a)) hsize
        (by omega) hmore 140 0 0 (Nat.zero_le p) (fun j _ h2 hj => hall j (by omega) hj) hlt
      have hnext : (liveSlots s.disk (s.inodes a))[p]? = some addr := hget
      rw [hnext]
      exact hrun
  · have hstop := hend.mpr hge
    rw [List.getElem?_eq_none hge, Nat.min_eq_right (by omega),
      show (liveSlots s.disk (s.inodes a)).length = p by omega]
    by_cases h12 : (s.inodes a).sector 12 = 0
    · rw [if_neg (by simp [h12])]
      exact readBlocks_end _ hstop 12 0 0 s
    · have hdrive := hread.table h12
      rw [if_pos h12, Prog.bind_of_run (readSectors_run s _ (by decide) (by
        unfold Inode.blk at hdrive; omega))]
      exact readBlocks_end _ hstop 140 0 0 s

/-- What the calls from the `k`-th on return. -/
theorem dirReads_run (hsize : s.part.sb.dirEntrySize = 24) (hread : Readable s.disk (s.inodes a))
    (hcount : SizeCounts s.disk (s.inodes a)) : ∀ (m p : Nat),
      p ≤ (liveSlots s.disk (s.inodes a)).length →
      dirReads a m (entryPos p) s = .ok ((List.range' p m).map fun k =>
        ((liveSlots s.disk (s.inodes a))[k]?).map (dirEntryAt s.disk), s) := by
  intro m
  induction m with
  | zero => intro p _; rfl
  | succ m ih =>
      intro p hp
      have hnext := ih (min (p + 1) (liveSlots s.disk (s.inodes a)).length) (Nat.min_le_right ..)
      rw [dirReads, Prog.bind_of_run (dirRead_run hsize hread hcount hp)]
      refine (Prog.bind_of_run hnext).trans ?_
      rw [List.range'_succ, List.map_cons]
      rcases Nat.lt_or_ge p (liveSlots s.disk (s.inodes a)).length with hlt | hge
      · rw [Nat.min_eq_left hlt]
        rfl
      · -- from the end on every call returns `NULL`
        refine congrArg (fun l => Except.ok (_ :: l, s))
          (List.ext_getElem (by simp) fun i h1 h2 => ?_)
        simp only [List.getElem_map, List.getElem_range']
        rw [List.getElem?_eq_none (by omega), List.getElem?_eq_none (by omega)]

/-- **Calling `dir_read` again and again lists every live entry once, in the order of blocks and
slots, and then returns `NULL` for good.** -/
theorem dir_read_lists (s : Fs) (a : Nat) (hsize : s.part.sb.dirEntrySize = 24)
    (hread : Readable s.disk (s.inodes a)) (hcount : SizeCounts s.disk (s.inodes a)) (m : Nat) :
    dirReads a ((liveSlots s.disk (s.inodes a)).length + m) 0 s
      = .ok ((liveSlots s.disk (s.inodes a)).map (fun addr => some (dirEntryAt s.disk addr)) ++
          List.replicate m none, s) := by
  refine (dirReads_run hsize hread hcount _ 0 (Nat.zero_le _)).trans ?_
  refine congrArg (fun l => Except.ok (l, s)) (List.ext_getElem (by simp) fun i h1 h2 => ?_)
  simp only [List.getElem_map, List.getElem_range', Nat.zero_add, Nat.one_mul]
  rcases Nat.lt_or_ge i (liveSlots s.disk (s.inodes a)).length with hlt | hge
  · rw [List.getElem?_eq_getElem hlt, List.getElem_append_left (by simpa using hlt),
      List.getElem_map]
    rfl
  · rw [List.getElem?_eq_none hge, List.getElem_append_right (by simpa using hge),
      List.getElem_replicate]
    rfl

/-- The root of the small tree: `.`, `..`, a directory, a file, and no more. -/
theorem dir_read_lists_root : dirReads 1 5 0 smallFs
    = .ok ([313344, 313368, 313392, 313416].map (fun addr => some (dirEntryAt smallFs.disk addr)) ++
        [none], smallFs) := by
  have hlive : liveSlots smallFs.disk (smallFs.inodes 1) = [313344, 313368, 313392, 313416] := by
    decide +kernel
  have hcount : SizeCounts smallFs.disk (smallFs.inodes 1) := by
    rw [SizeCounts, hlive]
    rfl
  have hlist := dir_read_lists smallFs 1 rfl ⟨by decide +kernel, by decide +kernel⟩ hcount 1
  rw [hlive] at hlist
  exact hlist

end ZyOs
