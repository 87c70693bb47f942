/-
Looking entries up, and how long a directory keeps what was inserted.

The lookup returns the first slot that answers to a name, so it finds every entry
`DirHolds` speaks of and the one entry of the indirect table.  With 250 insertions
the direct blocks are full and the next goes to the table; the one after it throws
the table away.  `dir_keeps_entries_iff` puts the two together.
-/
import ZyOs.Proofs.Dir

namespace ZyOs

open Library

/-! ### Lookups -/

section Search

variable {s : Fs} {a : Nat} {name : List UInt8} {blocks : Nat → UInt32}

/-- Where slot `i` of block `k` lies, for any collection of blocks. -/
def cellPos (blocks : Nat → UInt32) (k i : Nat) : Nat := 512 * (blocks k).toNat + 24 * i

theorem searchBlocks_step (htext : 0 ∉ name) (hlen : name.length ≤ 15) {k fuel : Nat}
    (hk : blocks k = 0 ∨ (blocks k).toNat ≤ maxLba ∧
      ∀ i < 21, ¬ Matches s.disk (cellPos blocks k i) name) :
    searchBlocks blocks name 21 (fuel + 1) k s = searchBlocks blocks name 21 fuel (k + 1) s := by
  rw [searchBlocks]
  by_cases h0 : blocks k = 0
  · rw [if_pos h0]
  · obtain ⟨hdrive, hno⟩ := hk.resolve_left h0
    rw [if_neg h0, Prog.bind_of_run (readSectors_run s _ (by decide) (by omega)), Nat.one_mul,
      searchBlock_none htext hlen _ hno]

/-- The lookup returns the first matching slot, in the order of the blocks. -/
theorem searchBlocks_first (blocks : Nat → UInt32) (htext : 0 ∉ name) (hlen : name.length ≤ 15)
    {K i : Nat} (hi : i < 21)
    (hK : blocks K ≠ 0) (hdrive : (blocks K).toNat ≤ maxLba)
    (hmatch : Matches s.disk (cellPos blocks K i) name)
    (hfirst : ∀ j < i, ¬ Matches s.disk (cellPos blocks K j) name) :
    ∀ (m k fuel : Nat), k + m = K →
      (∀ j, k ≤ j → j < K → blocks j = 0 ∨ (blocks j).toNat ≤ maxLba ∧
        ∀ i < 21, ¬ Matches s.disk (cellPos blocks j i) name) →
      ∃ r, searchBlocks blocks name 21 (fuel + 1 + m) k s = .ok (some r, s) ∧
        r.iNo = getWord s.disk (cellPos blocks K i + 16) ∧
        r.fType = getWord s.disk (cellPos blocks K i + 20) := by
  intro m
  induction m with
  | zero =>
      intro k fuel hk _
      rw [show k = K by omega, Nat.add_zero, searchBlocks, if_neg hK,
        Prog.bind_of_run (readSectors_run s _ (by decide) (by omega)), Nat.one_mul,
        searchBlock_first htext hlen _ hi hmatch 21 0 (by omega) (by omega)
          fun j _ hj => hfirst j hj]
      obtain ⟨h1, h2⟩ := ofMem_window s.disk (512 * (blocks K).toNat)
        (show 24 * i + 24 ≤ 512 by omega) (fun _ => 0)
      exact ⟨_, rfl, h1, h2⟩
  | succ m ih =>
      intro k fuel hk hskip
      rw [← Nat.add_assoc, searchBlocks_step htext hlen (hskip k (by omega) (by omega))]
      exact ih (k + 1) fuel (by omega) fun j h1 h2 => hskip j (by omega) h2

/-- Whatever the lookup returns is a matching slot of one of the blocks. -/
theorem searchBlocks_sound (htext : 0 ∉ name) (hlen : name.length ≤ 15) {r : DirEntry} {s' : Fs} :
    ∀ (fuel k : Nat), searchBlocks blocks name 21 fuel k s = .ok (some r, s') →
      ∃ j i, k ≤ j ∧ j < k + fuel ∧ i < 21 ∧ blocks j ≠ 0 ∧
        Matches s.disk (cellPos blocks j i) name ∧
        r.fType = getWord s.disk (cellPos blocks j i + 20) := by
  intro fuel
  induction fuel with
  | zero =>
      intro k h
      simp [searchBlocks] at h
  | succ fuel ih =>
      intro k h
      rw [searchBlocks] at h
      split at h
      · obtain ⟨j, i, h1, h2, hrest⟩ := ih (k + 1) h
        exact ⟨j, i, by omega, by omega, hrest⟩
      · rename_i h0
        obtain ⟨buf, s₁, hread, h⟩ := Prog.bind_run.mp h
        obtain ⟨rfl, rfl⟩ := readSectors_ok hread
        simp only [Nat.one_mul] at h
        cases he : searchBlock (Mem.splice (fun _ => 0) 0
            (s₁.disk.drop (512 * (blocks k).toNat)) 512) name 21 21 0 with
        | some e =>
            rw [he] at h
            simp only [Prog.pure_run, Except.ok.injEq, Prod.mk.injEq, Option.some.injEq] at h
            obtain ⟨rfl, -⟩ := h
            obtain ⟨i, hi, hm, rfl⟩ := searchBlock_sound htext hlen _ 21 0 he
            exact ⟨k, i, by omega, by omega, hi, h0, hm, (ofMem_window _ _ (by omega) _).2⟩
        | none =>
            rw [he] at h
            obtain ⟨j, i, h1, h2, hrest⟩ := ih (k + 1) h
            exact ⟨j, i, by omega, by omega, hrest⟩

end Search

/-- An entry is found with its inode number and its type. -/
def Found (s : Fs) (a : Nat) (e : NewEntry) : Prop :=
  ∃ r s', searchDirEntry a e.name s = .ok (some r, s') ∧ r.iNo = e.iNo ∧ r.fType = e.fType

section Found

variable {s : Fs} {a : Nat} {all : List NewEntry}

/-- The blocks a lookup collects. -/
structure Collected (s : Fs) (a : Nat) (all : List NewEntry) (blocks : Nat → UInt32) : Prop where
  search : ∀ name, searchDirEntry a name s = searchBlocks blocks name 21 140 0 s
  direct : ∀ k < 12, blocks k = (s.inodes a).sector k
  noTable : all.length ≤ 252 → ∀ k, 12 ≤ k → blocks k = 0
  table : 252 < all.length → blocks 12 = getWord s.disk (512 * (s.inodes a).blk 12)
  rest : ∀ k, 12 < k → k < 140 → blocks k = 0

theorem searchDirEntry_collects (h : DirState s a all) : ∃ blocks, Collected s a all blocks := by
  have hcnt : sectorSize / s.part.sb.dirEntrySize = 21 := by
    rw [h.entrySize]
    rfl
  by_cases hlen : all.length ≤ 252
  · refine ⟨directBlocks (s.inodes a), ?_, fun k hk => if_pos hk, fun _ k hk => if_neg (by omega),
      fun hlt => absurd hlen (by omega), fun k hk _ => if_neg (by omega)⟩
    intro name
    have h12 : ¬ (s.inodes a).sector 12 ≠ 0 := not_not_intro (h.noTable hlen)
    simp only [searchDirEntry]
    rw [Prog.bind_of_run (Prog.get_run s), hcnt, if_neg h12]
  · obtain ⟨e, he⟩ : ∃ e, all.getLast? = some e := by
      cases hl : all.getLast? with
      | none =>
          rw [List.getLast?_eq_none_iff] at hl
          rw [hl] at hlen
          exact absurd (Nat.zero_le _) hlen
      | some e => exact ⟨e, rfl⟩
    have ht := h.table (by omega) e he
    have hdrive := ht.drive
    have hword : ∀ k, 12 ≤ k → k < 140 → withTable (directBlocks (s.inodes a))
        (Mem.splice (fun _ => 0) 0 (s.disk.drop (512 * (s.inodes a).blk 12)) 512) k
        = getWord s.disk (512 * (s.inodes a).blk 12 + 4 * (k - 12)) := by
      intro k h1 h2
      rw [withTable, if_pos ⟨h1, h2⟩, getWord_read _ _ _ (by omega)]
    refine ⟨withTable (directBlocks (s.inodes a)) (Mem.splice (fun _ => 0) 0
      (s.disk.drop (512 * (s.inodes a).blk 12)) 512), ?_, ?_, fun hle => absurd hle hlen, ?_, ?_⟩
    · intro name
      simp only [searchDirEntry]
      rw [Prog.bind_of_run (Prog.get_run s), hcnt, if_pos ht.some,
        Prog.bind_of_run (readSectors_run s _ (by decide) (by rw [Inode.blk] at hdrive; omega)),
        Nat.one_mul]
      rfl
    · intro k hk
      rw [withTable, if_neg (by omega)]
      exact if_pos hk
    · intro _
      rw [hword 12 (by omega) (by omega)]
      rfl
    · intro k h1 h2
      rw [hword k (by omega) h2]
      exact ht.rest (k - 12) (by omega) (by omega)

/-- Slot `i` of block `k` as the lookup sees it is slot `21 k + i` of the directory. -/
theorem cellPos_direct {blocks : Nat → UInt32} (hb : Collected s a all blocks) {k i : Nat}
    (hk : k < 12) (hi : i < 21) : cellPos blocks k i = slotPos (s.inodes a) (21 * k + i) := by
  rw [cellPos, hb.direct k hk, slotPos, show (21 * k + i) / 21 = k by omega,
    show (21 * k + i) % 21 = i by omega, Inode.blk]

/-- A direct slot answers to the name of the entry it holds. -/
theorem direct_match (h : DirState s a all) {blocks : Nat → UInt32}
    (hb : Collected s a all blocks) {k i : Nat} (hk : k < 12) (hi : i < 21)
    (hin : 21 * k + i < all.length) (name : NewEntry) :
    Matches s.disk (cellPos blocks k i) name.name
      ↔ (all.get ⟨21 * k + i, hin⟩).name = name.name := by
  have htl : 21 * k + i < (all.take 252).length := by
    rw [List.length_take]
    omega
  have hheld := h.direct.holds _ htl
  have hget : (all.take 252).get ⟨21 * k + i, htl⟩ = all.get ⟨21 * k + i, hin⟩ := by
    simp [List.getElem_take]
  rw [hget] at hheld
  rw [cellPos_direct hb hk hi]
  exact holds_match hheld name.short name.text

theorem names_ne (hnames : (all.map NewEntry.name).Nodup) {i j : Nat} (hi : i < all.length)
    (hj : j < all.length) (hne : i ≠ j) :
    (all.get ⟨i, hi⟩).name ≠ (all.get ⟨j, hj⟩).name := by
  intro hc
  have hinj : (⟨i, by simpa using hi⟩ : Fin (all.map NewEntry.name).length)
      = ⟨j, by simpa using hj⟩ := List.nodup_iff_injective_get.mp hnames (by simpa using hc)
  exact hne (by simpa using hinj)

/-- A full or partly full direct block is read without complaint. -/
theorem direct_drive (h : DirState s a all) {blocks : Nat → UInt32}
    (hb : Collected s a all blocks) {k : Nat} (hk : k < 12) (hin : 21 * k < all.length) :
    blocks k ≠ 0 ∧ (blocks k).toNat ≤ maxLba := by
  have htl : 21 * k < (all.take 252).length := by
    rw [List.length_take]
    omega
  rw [hb.direct k hk]
  exact ⟨h.direct.sector_ne_zero h.fits htl, (h.direct.block k htl).drive⟩

/-- Entries in direct blocks are found. -/
theorem found_direct (h : DirState s a all) (hnames : (all.map NewEntry.name).Nodup) {i : Nat}
    (hi : i < all.length) (h252 : i < 252) : Found s a (all.get ⟨i, hi⟩) := by
  obtain ⟨blocks, hb⟩ := searchDirEntry_collects h
  set e := all.get ⟨i, hi⟩ with he
  have hcell : cellPos blocks (i / 21) (i % 21) = slotPos (s.inodes a) i := by
    rw [cellPos_direct hb (by omega) (Nat.mod_lt _ (by decide)), Nat.div_add_mod]
  have hheld : HoldsAt s.disk (slotPos (s.inodes a) i) e := by
    have htl : i < (all.take 252).length := by
      rw [List.length_take]
      omega
    have := h.direct.holds i htl
    simpa [he, List.getElem_take] using this
  obtain ⟨hne0, hdrive⟩ := direct_drive h hb (k := i / 21) (by omega) (by omega)
  have hother : ∀ k j, k < 12 → j < 21 → 21 * k + j < i →
      ¬ Matches s.disk (cellPos blocks k j) e.name := by
    intro k j hk hj hlt hm
    exact names_ne hnames (by omega) hi (by omega)
      ((direct_match h hb hk hj (by omega) e).mp hm)
  obtain ⟨r, hrun, hino, htype⟩ := searchBlocks_first (s := s) blocks e.text e.short
    (Nat.mod_lt i (by decide : 21 > 0)) hne0 hdrive
    (by rw [hcell]; exact (holds_match hheld e.short e.text).mpr rfl)
    (fun j hj => hother (i / 21) j (by omega) (by omega) (by omega)) (i / 21) 0 (139 - i / 21)
    (by omega) (fun k _ hk => Or.inr ⟨(direct_drive h hb (by omega) (by omega)).2,
      fun j hj => hother k j (by omega) hj (by omega)⟩)
  refine ⟨r, s, ?_, ?_, ?_⟩
  · rw [hb.search, ← hrun, show 139 - i / 21 + 1 + i / 21 = 140 by omega]
  · rw [hino, hcell, hheld.iNo]
  · rw [htype, hcell, hheld.fType]

/-- The last entry is found, also when it went to the indirect table. -/
theorem found_table (h : DirState s a all) (hnames : (all.map NewEntry.name).Nodup)
    (hlen : all.length = 253) : Found s a (all.get ⟨252, by omega⟩) := by
  obtain ⟨blocks, hb⟩ := searchDirEntry_collects h
  set e := all.get ⟨252, by omega⟩ with he
  have hlast : all.getLast? = some e := by
    rw [List.getLast?_eq_getElem?, hlen]
    simp [he]
  have ht := h.table (by omega) e hlast
  have h12 := hb.table (by omega)
  have hcell : cellPos blocks 12 0
      = 512 * (getWord s.disk (512 * (s.inodes a).blk 12)).toNat := by
    rw [cellPos, h12]
    rfl
  have hother : ∀ k j, k < 12 → j < 21 → ¬ Matches s.disk (cellPos blocks k j) e.name := by
    intro k j hk hj hm
    exact names_ne hnames (by omega) (by omega) (by omega)
      ((direct_match h hb hk hj (by omega) e).mp hm)
  obtain ⟨r, hrun, hino, htype⟩ := searchBlocks_first (s := s) blocks (K := 12)
    (i := 0) e.text e.short (by decide) (by rw [h12]; exact ht.block)
    (by rw [h12]; exact ht.blockDrive)
    (by rw [hcell]; exact (holds_match ht.holds e.short e.text).mpr rfl)
    (fun j hj => absurd hj (by omega)) 12 0 127 (by omega)
    (fun k _ hk => Or.inr ⟨(direct_drive h hb hk (by omega)).2, fun j hj => hother k j hk hj⟩)
  refine ⟨r, s, ?_, ?_, ?_⟩
  · rw [hb.search, ← hrun]
  · rw [hino, hcell, ht.holds.iNo]
  · rw [htype, hcell, ht.holds.fType]

/-- The first entry that went to the indirect table is gone after the second. -/
theorem lost_table (h : DirState s a all) (hnames : (all.map NewEntry.name).Nodup)
    (hlen : all.length = 254) : ¬ Found s a (all.get ⟨252, by omega⟩) := by
  obtain ⟨blocks, hb⟩ := searchDirEntry_collects h
  set e := all.get ⟨252, by omega⟩ with he
  rintro ⟨r, s', hrun, -, htype⟩
  have hlast : all.getLast? = some (all.get ⟨253, by omega⟩) := by
    rw [List.getLast?_eq_getElem?]
    simp [hlen]
  have ht := h.table (by omega) _ hlast
  rw [hb.search] at hrun
  obtain ⟨k, i, -, hk, hi, hk0, hm, hr⟩ := searchBlocks_sound e.text e.short 140 0 hrun
  rcases Nat.lt_trichotomy k 12 with hlt | rfl | hgt
  · -- a direct block: its entries have other names
    exact names_ne hnames (by omega) (by omega) (by omega)
      ((direct_match h hb hlt hi (by omega) e).mp hm)
  · have hcell : cellPos blocks 12 i
        = 512 * (getWord s.disk (512 * (s.inodes a).blk 12)).toNat + 24 * i := by
      rw [cellPos, hb.table (by omega)]
    rw [hcell] at hm hr
    by_cases hi0 : i = 0
    · -- the one entry of the table is a later one
      rw [hi0] at hm
      exact names_ne hnames (by omega) (by omega) (by omega)
        ((holds_match ht.holds e.short e.text).mp hm)
    · rw [ht.free i (by omega) hi] at hr
      exact e.typed (by rw [← htype, hr])
  · exact hk0 (hb.rest k hgt (by omega))

end Found

/-! ### Runs -/

/-- A directory with nothing but `.` and `..` in it. -/
structure FreshDir (s : Fs) (a : Nat) (dot dotdot : NewEntry) : Prop where
  dotName : dot.name = [46]
  dotdotName : dotdot.name = [46, 46]
  state : DirState s a [dot, dotdot]

/-- A sequence of insertions that all returned true, with blocks to spare at each. -/
inductive Inserts (a : Nat) (s₀ : Fs) : List NewEntry → Fs → Prop where
  | nil : Inserts a s₀ [] s₀
  | snoc {es : List NewEntry} {s s' : Fs} {e : NewEntry} {ioBuf : Mem} :
      Inserts a s₀ es s → FreeBlocks s.part → insertEntry a e ioBuf s = .ok (true, s') →
      Inserts a s₀ (es ++ [e]) s'

/-- After every insertion everything inserted so far is found. -/
def KeepsEntries (a : Nat) (s₀ : Fs) (es : List NewEntry) : Prop :=
  ∀ pre s, pre <+: es → Inserts a s₀ pre s → ∀ e ∈ pre, Found s a e

section Runs

variable {a : Nat} {s₀ s : Fs} {dot dotdot : NewEntry} {es : List NewEntry}

/-- What the directory looks like after a run. -/
theorem dirState_of_inserts (h₀ : DirState s₀ a [dot, dotdot]) (h : Inserts a s₀ es s)
    (hlen : es.length < 2 ^ 20 - 2) : DirState s a (dot :: dotdot :: es) := by
  induction h with
  | nil => exact h₀
  | snoc _ hfree hrun ih =>
      rename_i es s s' e ioBuf _
      rw [List.length_append] at hlen
      simp only [List.length_cons, List.length_nil] at hlen
      obtain ⟨s₁, hrun₁, hst, -⟩ := insertEntry_run (ih (by omega)) (by simp; omega) hfree e ioBuf
      rw [hrun] at hrun₁
      simp only [Except.ok.injEq, Prod.mk.injEq, true_and] at hrun₁
      rw [hrun₁]
      simpa using hst

theorem inserts_prefix (h : Inserts a s₀ es s) {pre : List NewEntry} (hpre : pre <+: es) :
    ∃ s', Inserts a s₀ pre s' := by
  induction h with
  | nil =>
      rw [List.prefix_nil.mp hpre]
      exact ⟨s₀, .nil⟩
  | snoc hins hfree hrun ih =>
      rcases List.prefix_concat_iff.mp hpre with rfl | hpre
      · exact ⟨_, hins.snoc hfree hrun⟩
      · exact ih hpre

/-- Up to 251 insertions everything is found. -/
theorem keepsEntries_of_le (hfresh : FreshDir s₀ a dot dotdot)
    (hnames : ((dot :: dotdot :: es).map NewEntry.name).Nodup) (hlen : es.length ≤ 251) :
    KeepsEntries a s₀ es := by
  intro pre s hpre hins e he
  have hpl := hpre.length_le
  have hst := dirState_of_inserts hfresh.state hins (by omega)
  have hnames' : ((dot :: dotdot :: pre).map NewEntry.name).Nodup := by
    refine hnames.sublist (List.Sublist.map _ ?_)
    exact (hpre.sublist.cons_cons dotdot).cons_cons dot
  obtain ⟨i, hi, rfl⟩ := List.getElem_of_mem he
  have hin : i + 2 < (dot :: dotdot :: pre).length := by simpa using hi
  have hget : (dot :: dotdot :: pre).get ⟨i + 2, hin⟩ = pre[i] := by simp
  rw [← hget]
  by_cases h252 : i + 2 < 252
  · exact found_direct hst hnames' hin h252
  · simp only [List.length_cons] at hin
    have hlen' : (dot :: dotdot :: pre).length = 253 := by
      simp only [List.length_cons]
      omega
    have := found_table hst hnames' hlen'
    simpa [show i = 250 by omega] using this

/-- The 252nd insertion loses the entry of the 251st. -/
theorem not_keepsEntries (hfresh : FreshDir s₀ a dot dotdot)
    (hnames : ((dot :: dotdot :: es).map NewEntry.name).Nodup) (hins : Inserts a s₀ es s)
    (hlen : 251 < es.length) : ¬ KeepsEntries a s₀ es := by
  intro hkeep
  have hpre : es.take 252 <+: es := List.take_prefix 252 es
  have hpl : (es.take 252).length = 252 := by
    rw [List.length_take]
    omega
  obtain ⟨s', hins'⟩ := inserts_prefix hins hpre
  have hst := dirState_of_inserts hfresh.state hins' (by omega)
  have hnames' : ((dot :: dotdot :: es.take 252).map NewEntry.name).Nodup := by
    refine hnames.sublist (List.Sublist.map _ ?_)
    exact (hpre.sublist.cons_cons dotdot).cons_cons dot
  have hlen' : (dot :: dotdot :: es.take 252).length = 254 := by
    simp only [List.length_cons, hpl]
  refine lost_table hst hnames' hlen' ?_
  have hget : (dot :: dotdot :: es.take 252).get ⟨252, by omega⟩
      = (es.take 252).get ⟨250, by omega⟩ := by
    simp
  rw [hget]
  exact hkeep _ s' hpre hins' _ (List.get_mem _ _)

end Runs

/-- **A directory keeps what is inserted exactly as long as at most one entry goes to its
indirect blocks**: up to 251 insertions, and no further. -/
theorem dir_keeps_entries_iff (s₀ s : Fs) (a : Nat) (dot dotdot : NewEntry) (es : List NewEntry)
    (hfresh : FreshDir s₀ a dot dotdot)
    (hnames : ((dot :: dotdot :: es).map NewEntry.name).Nodup) (hrun : Inserts a s₀ es s) :
    KeepsEntries a s₀ es ↔ es.length ≤ 251 := by
  constructor
  · intro hkeep
    by_contra hlen
    exact not_keepsEntries hfresh hnames hrun (by omega) hkeep
  · exact keepsEntries_of_le hfresh hnames

/-! ### A directory that is filled -/

/-- With all blocks from `m` on free there is a run for every sequence that fits. -/
theorem inserts_exist {a m : Nat} {s₀ : Fs} {dot dotdot : NewEntry}
    (h₀ : DirState s₀ a [dot, dotdot])
    (hclear : ∀ i, m ≤ i → s₀.part.blockBitmap.bitmapScanTest i = false) (es : List NewEntry)
    (hlen : es.length < 2 ^ 20 - 2)
    (hbits : m + 2 * es.length < 8 * s₀.part.blockBitmap.bmapBytesLen)
    (hdrive : s₀.part.sb.dataStartLba + m + 2 * es.length ≤ maxLba) :
    ∃ s, Inserts a s₀ es s ∧ DirState s a (dot :: dotdot :: es) ∧
      s.part.sb = s₀.part.sb ∧
      s.part.blockBitmap.bmapBytesLen = s₀.part.blockBitmap.bmapBytesLen ∧
      ∀ i, m + 2 * es.length ≤ i → s.part.blockBitmap.bitmapScanTest i = false := by
  induction es using List.reverseRecOn with
  | nil => exact ⟨s₀, .nil, h₀, rfl, rfl, fun i hi => hclear i (by simpa using hi)⟩
  | append_singleton es e ih =>
      simp only [List.length_append, List.length_cons, List.length_nil] at hlen hbits hdrive
      obtain ⟨s, hins, hst, hsb, hbytes, hfree⟩ := ih (by omega) (by omega) (by omega)
      have hblocks : FreeBlocks s.part :=
        ⟨m + 2 * es.length, m + 2 * es.length + 1, by omega, by omega, hfree _ (by omega),
          hfree _ (by omega), by rw [hsb]; omega⟩
      obtain ⟨s', hrun, hst', hgrown⟩ :=
        insertEntry_run hst (by simp; omega) hblocks e (fun _ => 0)
      refine ⟨s', hins.snoc hblocks hrun, by simpa using hst', ?_, ?_, ?_⟩
      · rw [hgrown.sb, hsb]
      · rw [hgrown.len, hbytes]
      · intro i hi
        simp only [List.length_append, List.length_cons, List.length_nil] at hi
        exact hgrown.free _ hfree i (by omega)

/-- An entry of the given name for the root directory. -/
def dotEntry (name : List UInt8) (short : name.length ≤ 15) (text : 0 ∉ name) : NewEntry :=
  ⟨name, 0, ftDirectory, short, text, by decide⟩

/-- `.` -/
def dot : NewEntry := dotEntry [46] (by decide) (by decide)
/-- `..` -/
def dotdot : NewEntry := dotEntry [46, 46] (by decide) (by decide)

/-- A partition whose root directory is empty. -/
def rootFs : Fs :=
  { emptyFs with
    disk := (emptyFs.disk.splice 313344 dot.bytes 24).splice 313368 dotdot.bytes 24
    inodes := fun _ => { inodeInit 0 with iSize := 48 }.setSector 0 612 }

theorem rootFs_fresh : FreshDir rootFs 0 dot dotdot := by
  have hsec : ∀ k, (rootFs.inodes 0).sector k = if k = 0 then 612 else 0 := by
    intro k
    show (Inode.setSector _ 0 612).sector k = _
    rw [Inode.sector_setSector _ _ (by decide)]
    by_cases hk : k = 0
    · rw [if_pos hk, if_pos hk]
    · rw [if_neg hk, if_neg hk, Inode.sector]
      split <;> rfl
  have hblk : (rootFs.inodes 0).blk 0 = 612 := by rw [Inode.blk, hsec, if_pos rfl]; rfl
  have hpos : ∀ i < 21, slotPos (rootFs.inodes 0) i = 313344 + 24 * i := by
    intro i hi
    rw [slotPos, Nat.div_eq_of_lt hi, Nat.mod_eq_of_lt hi, hblk]
  refine ⟨rfl, rfl, ⟨by decide, by decide⟩, rfl, rfl, ?_, ?_, fun hlt => absurd hlt (by decide)⟩
  · refine ⟨by decide, ?_, ?_, ?_, ?_, ?_⟩
    · intro k hk
      have hk0 : k = 0 := by simp at hk; omega
      rw [hk0, hblk]
      exact ⟨⟨by decide, by decide, by decide⟩, by decide⟩
    · intro k hk hge
      have hk0 : k ≠ 0 := by simp at hge; omega
      rw [hsec, if_neg hk0]
    · intro j k hj hk _
      simp at hj hk
      omega
    · intro i hi
      have hi2 : i < 2 := by simpa using hi
      rw [hpos i (by omega)]
      intro k hk
      simp only [DirEntry.size] at hk
      obtain rfl | rfl : i = 0 ∨ i = 1 := by omega
      · show Mem.splice _ _ _ _ _ = dot.bytes k
        rw [Mem.splice_out (by omega), Mem.splice_in (by omega) (by omega),
          show 313344 + 24 * 0 + k - 313344 = k by omega]
      · show Mem.splice _ _ _ _ _ = dotdot.bytes k
        rw [Mem.splice_in (by omega) (by omega),
          show 313344 + 24 * 1 + k - 313368 = k by omega]
    · intro i hge hi
      simp at hge hi
      rw [hpos i (by omega)]
      refine getWord_byteOf fun j hj => ?_
      show Mem.splice _ _ _ _ _ = _
      rw [Mem.splice_out (by omega), Mem.splice_out (by omega)]
      interval_cases j <;> rfl
  · intro _
    rw [hsec, if_neg (by decide)]

/-- Files with two-byte names. -/
def numbered (k : Fin 252) : NewEntry where
  name := [UInt8.ofNat (k.val / 200 + 1), UInt8.ofNat (k.val % 200 + 1)]
  iNo := UInt32.ofNat (k.val + 1)
  fType := ftRegular
  short := by simp
  text := by
    have hne : ∀ x, 0 < x → x < 256 → (0 : UInt8) ≠ UInt8.ofNat x := by
      intro x h0 h1 hc
      have := congrArg UInt8.toNat hc
      rw [UInt8.toNat_ofNat_of_lt' h1] at this
      exact absurd this (by simp; omega)
    simp only [List.mem_cons, List.not_mem_nil, or_false, not_or]
    exact ⟨hne _ (by omega) (by omega), hne _ (by omega) (by omega)⟩
  typed := by decide

/-- The first `n` of them. -/
def numberedEntries (n : Nat) : List NewEntry := ((List.finRange 252).take n).map numbered

theorem numbered_inj {j k : Fin 252} (h : (numbered j).name = (numbered k).name) : j = k := by
  have hj := j.isLt
  have hk := k.isLt
  simp only [numbered, List.cons.injEq, and_true] at h
  have h1 := congrArg UInt8.toNat h.1
  have h2 := congrArg UInt8.toNat h.2
  simp only [UInt8.toNat_ofNat'] at h1 h2
  refine Fin.ext ?_
  omega

theorem numberedEntries_nodup (n : Nat) :
    ((dot :: dotdot :: numberedEntries n).map NewEntry.name).Nodup := by
  have hhead : ∀ k : Fin 252, (numbered k).name.head? ≠ some 46 := by
    intro k hc
    simp only [numbered, List.head?_cons, Option.some.injEq] at hc
    have := congrArg UInt8.toNat hc
    rw [UInt8.toNat_ofNat_of_lt' (show k.val / 200 + 1 < 256 by omega)] at this
    exact absurd this (by simp; omega)
  have hnot : ∀ x : List UInt8, x.head? = some 46 →
      x ∉ (numberedEntries n).map NewEntry.name := by
    intro x hx hmem
    simp only [numberedEntries, List.map_map, List.mem_map] at hmem
    obtain ⟨k, -, rfl⟩ := hmem
    exact hhead k hx
  have hnum : ((numberedEntries n).map NewEntry.name).Nodup := by
    rw [numberedEntries, List.map_map]
    exact List.Nodup.map (fun j k h => numbered_inj h)
      ((List.nodup_finRange 252).sublist (List.take_sublist _ _))
  simp only [List.map_cons, List.nodup_cons, List.mem_cons, not_or]
  exact ⟨⟨by decide, hnot _ rfl⟩, hnot _ rfl, hnum⟩

theorem numberedEntries_length {n : Nat} (hn : n ≤ 252) : (numberedEntries n).length = n := by
  simp [numberedEntries, hn]

theorem rootFs_run {n : Nat} (hn : n ≤ 252) : ∃ s, Inserts 0 rootFs (numberedEntries n) s := by
  have hlen := numberedEntries_length hn
  have hbytes : rootFs.part.blockBitmap.bmapBytesLen = 512 := rfl
  have hdata : rootFs.part.sb.dataStartLba = 612 := rfl
  have hmax : maxLba = 163839 := rfl
  obtain ⟨s, hins, -⟩ := inserts_exist (m := 8) rootFs_fresh.state (fun i hi => by
    rw [Bitmap.scanTest_eq]
    show (if i / 8 = 0 then (1 : UInt8) else 0).toBitVec.getLsbD _ = false
    rw [if_neg (by omega)]
    simp) (numberedEntries n) (by omega) (by omega) (by omega)
  exact ⟨s, hins⟩

theorem dir_keeps_251 : (∃ s, Inserts 0 rootFs (numberedEntries 251) s) ∧
    KeepsEntries 0 rootFs (numberedEntries 251) := by
  obtain ⟨s, hins⟩ := rootFs_run (n := 251) (by decide)
  exact ⟨⟨s, hins⟩, (dir_keeps_entries_iff rootFs s 0 dot dotdot _ rootFs_fresh
    (numberedEntries_nodup 251) hins).mpr (Nat.le_of_eq (numberedEntries_length (by decide)))⟩

/-- With 252 files in the root directory the 251st is no longer found. -/
theorem dir_loses_at_252 : FreshDir rootFs 0 dot dotdot ∧
    ((dot :: dotdot :: numberedEntries 252).map NewEntry.name).Nodup ∧
    (∃ s, Inserts 0 rootFs (numberedEntries 252) s) ∧
    ¬ KeepsEntries 0 rootFs (numberedEntries 252) := by
  obtain ⟨s, hins⟩ := rootFs_run (n := 252) (by decide)
  exact ⟨rootFs_fresh, numberedEntries_nodup 252, ⟨s, hins⟩, not_keepsEntries rootFs_fresh
    (numberedEntries_nodup 252) hins (by rw [numberedEntries_length (by decide)]; decide)⟩

end ZyOs
