/-
Directory entries as bytes.

An entry that is inserted has a name of at most 15 bytes and a type other than
`FT_UNKNOWN`, and its 24 bytes are laid out by `create_dir_entry` over zeros.
`holds_match` is what the lookup comes down to: in a slot that holds an entry,
`strncmp` over the length of a name accepts exactly that name.  The rest of the
file says what the loops over one block find.
-/
import Mathlib.Data.List.GetD
import ZyOs.Kernel.Dir
import ZyOs.Proofs.FsState
import ZyOs.Proofs.Text

namespace ZyOs

open Library

/-! ### Names -/

/-- An entry to be inserted. -/
structure NewEntry where
  name : List UInt8
  iNo : UInt32
  fType : UInt32
  short : name.length ≤ 15
  text : 0 ∉ name
  typed : fType ≠ ftUnknown

theorem cstr_of_ge {l : List UInt8} {k : Nat} (h : l.length ≤ k) : cstr l k = 0 := by
  simp [cstr, h]

theorem cstr_ne_zero {l : List UInt8} (h : 0 ∉ l) {k : Nat} (hk : k < l.length) :
    cstr l k ≠ 0 := by
  intro hc
  rw [cstr, List.getD_eq_getElem _ _ hk] at hc
  exact h (hc ▸ List.getElem_mem hk)

/-- Two strings that agree up to the end of the second are equal. -/
theorem eq_of_cstr {l l' : List UInt8} (hl : 0 ∉ l) (hl' : 0 ∉ l')
    (h : ∀ j ≤ l'.length, cstr l j = cstr l' j) : l = l' := by
  have hlen : l.length = l'.length := by
    rcases Nat.lt_trichotomy l.length l'.length with hlt | heq | hgt
    · have := h l.length (by omega)
      rw [cstr_of_ge (Nat.le_refl _)] at this
      exact absurd this.symm (cstr_ne_zero hl' hlt)
    · exact heq
    · have := h l'.length (Nat.le_refl _)
      rw [cstr_of_ge (l := l') (Nat.le_refl _)] at this
      exact absurd this (cstr_ne_zero hl hgt)
  refine List.ext_getElem hlen fun j h1 h2 => ?_
  have := h j (by omega)
  rwa [cstr, cstr, List.getD_eq_getElem _ _ h1, List.getD_eq_getElem _ _ h2] at this

/-- The entry that `create_dir_entry` makes. -/
def namedEntry (name : List UInt8) (inodeNo fileType : UInt32) : DirEntry where
  filename := DirEntry.zero.filename.splice 0 (cstr name) name.length
  iNo := inodeNo
  fType := fileType

theorem namedEntry_name (name : List UInt8) (no ty : UInt32) {k : Nat} (hk : k < 16) :
    (namedEntry name no ty).toMem k = cstr name k := by
  rw [DirEntry.toMem, if_pos hk]
  show Mem.splice _ 0 (cstr name) name.length k = _
  by_cases hlt : k < name.length
  · rw [Mem.splice_in (by omega) (by omega), Nat.sub_zero]
  · rw [Mem.splice_out (by omega), cstr_of_ge (by omega)]
    rfl

theorem namedEntry_iNo {d : Disk} {addr : Nat} {name : List UInt8} {no ty : UInt32}
    (hd : ∀ j < 24, d (addr + j) = (namedEntry name no ty).toMem j) :
    getWord d (addr + 16) = no := by
  refine getWord_byteOf fun j hj => ?_
  rw [Nat.add_assoc, hd _ (by omega), DirEntry.toMem, if_neg (by omega), if_pos (by omega),
    Nat.add_sub_cancel_left]
  rfl

namespace NewEntry

/-- The entry as `create_dir_entry` lays it out. -/
def toDirEntry (e : NewEntry) : DirEntry where
  filename := DirEntry.zero.filename.splice 0 (cstr e.name) e.name.length
  iNo := e.iNo
  fType := e.fType

theorem createDirEntry_run (e : NewEntry) :
    createDirEntry e.name e.iNo e.fType DirEntry.zero = .ok e.toDirEntry := by
  have hlen : e.name.length ≤ maxFileNameLen := by
    have := e.short
    unfold maxFileNameLen
    omega
  rw [createDirEntry, ASSERT_pos hlen]
  rfl

/-- The bytes of the entry. -/
def bytes (e : NewEntry) : Mem := e.toDirEntry.toMem

theorem bytes_name (e : NewEntry) {k : Nat} (hk : k < 16) : e.bytes k = cstr e.name k :=
  namedEntry_name e.name e.iNo e.fType hk

end NewEntry

/-! ### A slot -/

/-- The 24 bytes from `addr` on are the entry's. -/
def HoldsAt (d : Disk) (addr : Nat) (e : NewEntry) : Prop :=
  ∀ k < DirEntry.size, d (addr + k) = e.bytes k

section Slot

variable {d : Disk} {addr : Nat} {e : NewEntry}

theorem HoldsAt.fType (h : HoldsAt d addr e) : getWord d (addr + 20) = e.fType := by
  refine getWord_byteOf fun j hj => ?_
  rw [Nat.add_assoc, h _ (show 20 + j < 24 by omega)]
  show DirEntry.toMem _ (20 + j) = _
  rw [DirEntry.toMem, if_neg (by omega), if_neg (by omega), Nat.add_sub_cancel_left]
  rfl

theorem HoldsAt.iNo (h : HoldsAt d addr e) : getWord d (addr + 16) = e.iNo := namedEntry_iNo h

/-- What the lookup asks of a slot. -/
def Matches (d : Disk) (addr : Nat) (name : List UInt8) : Prop :=
  ∀ j ≤ name.length, d (addr + j) = cstr name j

/-- A slot that holds an entry answers to the entry's name and to no other. -/
theorem holds_match (h : HoldsAt d addr e) {name : List UInt8} (hlen : name.length ≤ 15)
    (htext : 0 ∉ name) : Matches d addr name ↔ e.name = name := by
  have hbyte : ∀ j < 16, d (addr + j) = cstr e.name j := fun j hj => by
    rw [h j (show j < 24 by omega), e.bytes_name hj]
  constructor
  · intro hm
    refine eq_of_cstr e.text htext fun j hj => ?_
    rw [← hbyte j (by omega), hm j hj]
  · rintro rfl j hj
    exact hbyte j (by omega)

instance (d : Disk) (name : List UInt8) : DecidablePred (Matches d · name) :=
  fun addr => inferInstanceAs (Decidable (∀ j ≤ name.length, d (addr + j) = cstr name j))

/-- The lookup's comparison, on a window that was read. -/
theorem strncmp_read {base off : Nat} {name : List UInt8} (htext : 0 ∉ name)
    (hoff : off + name.length < 512) (buf : Mem) :
    strncmp ((buf.splice 0 (d.drop base) 512).drop off) (cstr name) name.length 0 = 0
      ↔ Matches d (base + off) name := by
  rw [strncmp_eq_zero fun j _ hj => cstr_ne_zero htext (by omega)]
  constructor
  · intro h j hj
    rw [← h j (by omega) (by omega), Mem.drop_window _ _ (by omega)]
  · intro h j _ hj
    rw [Mem.drop_window _ _ (by omega), h j (by omega)]

theorem strncmp_window {base off : Nat} {name : List UInt8} (htext : 0 ∉ name)
    (hlen : name.length ≤ 15) (hoff : off + 16 ≤ 512) (buf : Mem) :
    strncmp ((buf.splice 0 (d.drop base) 512).drop off) (cstr name) name.length 0 = 0
      ↔ Matches d (base + off) name :=
  strncmp_read htext (by omega) buf

/-- The entry the lookup copies out. -/
theorem ofMem_window (d : Disk) (base : Nat) {off : Nat} (hoff : off + 24 ≤ 512) (buf : Mem) :
    (DirEntry.ofMem ((buf.splice 0 (d.drop base) 512).drop off)).iNo = getWord d (base + off + 16) ∧
    (DirEntry.ofMem ((buf.splice 0 (d.drop base) 512).drop off)).fType
      = getWord d (base + off + 20) := by
  have hword : ∀ k, k + 4 ≤ 24 → getWord ((buf.splice 0 (d.drop base) 512).drop off) k
      = getWord d (base + off + k) := by
    intro k hk
    refine getWord_congr fun j hj => ?_
    rw [Mem.drop_window _ _ (by omega)]
    simp only [Nat.add_assoc]
  exact ⟨hword 16 (by omega), hword 20 (by omega)⟩

end Slot

/-! ### One block -/

section Block

variable {d : Disk} {base : Nat} {name : List UInt8}

/-- The loop over a block that was read returns its first matching slot. -/
theorem searchBlock_first (htext : 0 ∉ name) (hlen : name.length ≤ 15) (buf : Mem) {i : Nat}
    (hi : i < 21) (hmatch : Matches d (base + 24 * i) name) :
    ∀ (fuel k : Nat), k ≤ i → i < k + fuel →
      (∀ j, k ≤ j → j < i → ¬ Matches d (base + 24 * j) name) →
      searchBlock (buf.splice 0 (d.drop base) 512) name 21 fuel k
        = some (DirEntry.ofMem ((buf.splice 0 (d.drop base) 512).drop (24 * i))) := by
  intro fuel
  induction fuel with
  | zero => intro k hk hfuel; omega
  | succ fuel ih =>
      intro k hk hfuel hfirst
      rw [searchBlock, if_pos (by omega)]
      simp only [DirEntry.size]
      by_cases hki : k = i
      · rw [hki, if_pos ((strncmp_window htext hlen (by omega) buf).mpr hmatch)]
      · rw [if_neg fun hc => hfirst k (Nat.le_refl k) (by omega)
            ((strncmp_window htext hlen (by omega) buf).mp hc)]
        exact ih (k + 1) (by omega) (by omega) fun j h1 h2 => hfirst j (by omega) h2

/-- Whatever the loop returns is a matching slot. -/
theorem searchBlock_sound (htext : 0 ∉ name) (hlen : name.length ≤ 15) (buf : Mem)
    {r : DirEntry} : ∀ (fuel k : Nat),
      searchBlock (buf.splice 0 (d.drop base) 512) name 21 fuel k = some r →
      ∃ i < 21, Matches d (base + 24 * i) name ∧
        r = DirEntry.ofMem ((buf.splice 0 (d.drop base) 512).drop (24 * i)) := by
  intro fuel
  induction fuel with
  | zero => intro k h; simp [searchBlock] at h
  | succ fuel ih =>
      intro k h
      rw [searchBlock] at h
      simp only [DirEntry.size] at h
      split_ifs at h with hk hm
      · exact ⟨k, hk, (strncmp_window htext hlen (by omega) buf).mp hm,
          (Option.some.inj h).symm⟩
      · exact ih (k + 1) h

/-- A block none of whose slots matches is passed over. -/
theorem searchBlock_none (htext : 0 ∉ name) (hlen : name.length ≤ 15) (buf : Mem)
    (hno : ∀ i < 21, ¬ Matches d (base + 24 * i) name) :
    searchBlock (buf.splice 0 (d.drop base) 512) name 21 21 0 = none := by
  cases h : searchBlock (buf.splice 0 (d.drop base) 512) name 21 21 0 with
  | none => rfl
  | some r =>
      obtain ⟨i, hi, hm, -⟩ := searchBlock_sound htext hlen buf 21 0 h
      exact absurd hm (hno i hi)

theorem getWord_read (d : Disk) (base : Nat) (buf : Mem) {off : Nat} (h : off + 4 ≤ 512) :
    getWord (buf.splice 0 (d.drop base) 512) off = getWord d (base + off) := by
  refine getWord_congr fun j hj => ?_
  rw [Mem.splice_in (by omega) (by omega), Mem.drop_apply]
  congr 1
  omega

/-- The first slot of type `FT_UNKNOWN`. -/
theorem freeSlot_first (buf : Mem) {i : Nat} (hi : i < 21)
    (hfree : getWord d (base + 24 * i + 20) = ftUnknown) :
    ∀ (fuel k : Nat), k ≤ i → i < k + fuel →
      (∀ j, k ≤ j → j < i → getWord d (base + 24 * j + 20) ≠ ftUnknown) →
      freeSlot (buf.splice 0 (d.drop base) 512) 21 fuel k = some i := by
  intro fuel
  induction fuel with
  | zero => intro k hk hfuel; omega
  | succ fuel ih =>
      intro k hk hfuel hused
      rw [freeSlot, if_pos (by omega)]
      simp only [DirEntry.size]
      rw [getWord_read _ _ _ (by omega), ← Nat.add_assoc]
      by_cases hki : k = i
      · rw [hki, if_pos hfree]
      · rw [if_neg (hused k (Nat.le_refl k) (by omega))]
        exact ih (k + 1) (by omega) (by omega) fun j h1 h2 => hused j (by omega) h2

theorem freeSlot_none (d : Disk) (base : Nat) (buf : Mem) : ∀ (fuel k : Nat),
    (∀ j, k ≤ j → j < 21 → getWord d (base + 24 * j + 20) ≠ ftUnknown) →
    freeSlot (buf.splice 0 (d.drop base) 512) 21 fuel k = none := by
  intro fuel
  induction fuel with
  | zero => intro k _; rfl
  | succ fuel ih =>
      intro k hused
      rw [freeSlot]
      split_ifs with hk hfree
      · simp only [DirEntry.size] at hfree
        rw [getWord_read _ _ _ (by omega), ← Nat.add_assoc] at hfree
        exact absurd hfree (hused k (Nat.le_refl k) hk)
      · exact ih (k + 1) fun j h1 h2 => hused j (by omega) h2
      · rfl

end Block

end ZyOs
