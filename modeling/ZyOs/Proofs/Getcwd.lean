/-
`sys_getcwd` undoes `sys_chdir`.

The climb to the root goes by numbers: the second entry of a directory is its parent,
and the name comes from the slot of the parent that has the child's number.  In a tree
that slot is the entry the way down went through: the slots that are free have number
0, and `.` and `..` lie above the child.
-/
import ZyOs.Kernel.FsDirs
import ZyOs.Proofs.WashPath

namespace ZyOs

open Library

variable {env : FsEnv} {s₀ s s' : Fs} {t : Tree} {dir : Nat} {held : List Nat}

/-! ### Trees in states that differ elsewhere -/

/-- What a tree is does not depend on what else is open. -/
theorem DirTree.congr (h : DirTree s t) (hdisk : s'.disk = s.disk) (hpart : s'.part = s.part)
    (hroot : s'.rootInode ∈ s'.openInodes) (hno : (s'.inodes s'.rootInode).iNo = 0) :
    DirTree s' t := by
  have hd : ∀ no, diskInode s' no = diskInode s no := diskInode_congr hdisk hpart
  have hslots : ∀ d, dirSlots s' d = dirSlots s d := fun d => by simp only [dirSlots, hd, hdisk]
  have hentries : ∀ d, dirEntries s' d = dirEntries s d :=
    fun d => by simp only [dirEntries, hd, hdisk]
  refine { root := h.root, rootParent := h.rootParent, rootOpen := hroot, rootNo := hno
           apart := h.apart, entrySize := hpart ▸ h.entrySize, table := hpart ▸ h.table
           number := ?_, readable := ?_, cleared := ?_, first := ?_, dot := ?_, dotdot := ?_
           good := ?_, nodup := ?_, kids := ?_, linked := ?_, parents := h.parents, named := ?_ }
  all_goals simp only [hd, hslots, hentries, hdisk, hpart]
  · exact h.number
  · exact h.readable
  · exact h.cleared
  · exact h.first
  · exact h.dot
  · exact h.dotdot
  · exact h.good
  · exact h.nodup
  · exact h.kids
  · exact h.linked
  · exact h.named

theorem Held.tree (h : Held s₀ s held) (hc : Cache s₀) (ht : DirTree s₀ t) : DirTree s t := by
  obtain ⟨new, h⟩ := h
  refine ht.congr h.disk h.part ?_ ?_
  · rw [h.rootInode, h.openInodes]
    exact List.mem_append_right _ ht.rootOpen
  · rw [h.rootInode, h.kept _ (hc.heap _ ht.rootOpen)]
    exact ht.rootNo

/-- Another task's data does not matter. -/
theorem Held.tasks (h : Held s₀ s held) (f : Nat → FdTask) :
    Held { s₀ with tasks := f } { s with tasks := f } held := by
  obtain ⟨new, h⟩ := h
  exact ⟨new, { h with tasks := rfl }⟩

theorem Cache.tasks (h : Cache s) (f : Nat → FdTask) : Cache { s with tasks := f } :=
  { h with }

/-! ### One step up -/

variable (env) in
/-- The second entry of a directory. -/
theorem DirTree.getParent_run (h : DirTree s₀ t) (hc : Cache s₀) (hheld : Held s₀ s [])
    (hd : dir ∈ t.dirs) : ∃ s', getParentDirInodeNr env dir s = .ok (t.parent dir, s') ∧
      Held s₀ s' [] := by
  obtain ⟨a, s₁, hopen, hheld₁, hsame⟩ := hheld.inodeOpen env hc h.table
    (h.isDir hd).1 (h.isDir hd).2
  have hsec : (s₁.inodes a).sector 0 = (diskInode s₀ dir).sector 0 := hsame.sectors 0 (by omega)
  have hclose := hheld₁.closed hc (a := a) (by simp)
  rw [List.erase_cons_head] at hclose
  obtain ⟨_, hop⟩ := hheld₁
  obtain ⟨hsome, hdata⟩ := h.first dir hd
  have hdrive : ((diskInode s₀ dir).sector 0).toNat ≤ maxLba := by
    have := (h.readable dir hd).blocks 0 (by omega)
    simpa [dirBlocks, hsome] using this
  have hdot := h.dotdot dir hd
  obtain ⟨_, hcl⟩ := hclose
  have hword : ∀ k, k + 4 ≤ 24 → getWord ((Mem.splice (fun _ => 0) 0 ((s₁.closed a).disk.drop
      (512 * ((diskInode s₀ dir).sector 0).toNat)) (1 * 512))) (24 + k)
        = getWord s₀.disk (512 * (diskInode s₀ dir).blk 0 + 24 + k) := by
    intro k hk
    rw [Nat.one_mul, getWord_read _ _ _ (by omega), hcl.disk, Nat.add_assoc]
    rfl
  refine ⟨_, ?_, ⟨_, hcl⟩⟩
  rw [getParentDirInodeNr, Prog.bind_of_run hopen, Prog.bind_of_run (Prog.get_run s₁), hsec,
    Prog.bind_of_run (assertFs_run (by rw [hop.part]; exact hdata) _ _ s₁),
    Prog.bind_of_run (inodeClose_run a s₁),
    Prog.bind_of_run (readSectors_run _ _ (by decide) (by omega))]
  have h16 := hword 16 (by omega)
  have h20 := hword 20 (by omega)
  have hno : (getWord s₀.disk (512 * (diskInode s₀ dir).blk 0 + 24 + 16)).toNat = t.parent dir :=
    congrArg Entry.iNo hdot
  have hty : getWord s₀.disk (512 * (diskInode s₀ dir).blk 0 + 24 + 20) = ftDirectory :=
    congrArg Entry.fType hdot
  simp only [DirEntry.size]
  rw [h16, h20, hno, hty,
    Prog.bind_of_run (assertFs_run ⟨(h.isDir (h.parent_mem hd)).1, rfl⟩ _ _ _), Prog.pure_run]

/-! ### The name of a child -/

/-- A C string is read back up to its terminator. -/
theorem cString_eq {m : Mem} {l : List UInt8} {limit : Nat} (htext : 0 ∉ l)
    (hlimit : l.length < limit) (h : ∀ j ≤ l.length, m j = cstr l j) :
    cString m limit = some l := by
  have hfind : (List.range limit).find? (fun i => m i == 0) = some l.length := by
    rw [List.find?_range_eq_some]
    refine ⟨?_, List.mem_range.mpr hlimit, fun j hj => ?_⟩
    · rw [h _ le_rfl, cstr_of_ge le_rfl]
      rfl
    · rw [h j (by omega)]
      simpa using cstr_ne_zero htext hj
  rw [cString, hfind, Option.map_some, Option.some.injEq]
  refine List.ext_getElem (by simp) fun j h1 h2 => ?_
  rw [List.getElem_map, List.getElem_range, h j (by omega), cstr, List.getD_eq_getElem _ _ h2]

theorem fitsName_nameAt {d : Disk} {addr : Nat} (h : (nameAt d addr).length ≤ 15) :
    FitsName (nameAt d addr) :=
  ⟨fun h0 => by simpa using List.all_eq_true.mp List.all_takeWhile 0 h0, h⟩

theorem cString_window {d : Disk} {lba i : Nat} (hi : i < 21) (buf : Mem)
    (hshort : (nameAt d (512 * lba + 24 * i)).length ≤ 15) :
    cString ((buf.splice 0 (d.drop (512 * lba)) 512).drop (24 * i)) (512 - 24 * i)
      = some (nameAt d (512 * lba + 24 * i)) := by
  have hfit := fitsName_nameAt hshort
  have hmatch := (nameAt_eq_iff hfit).mp rfl
  refine cString_eq hfit.text (by omega) fun j hj => ?_
  rw [Mem.drop_window _ _ (by omega)]
  exact hmatch j hj

/-- The slot has this inode number. -/
def HasNo (d : Disk) (no addr : Nat) : Prop := (getWord d (addr + 16)).toNat = no

instance (d : Disk) (no : Nat) : DecidablePred (HasNo d no) :=
  fun addr => inferInstanceAs (Decidable ((getWord d (addr + 16)).toNat = no))

theorem childInBlock_eq (d : Disk) (lba no : Nat) (buf : Mem) : ∀ (n k : Nat), k + n = 21 →
    (childInBlock (buf.splice 0 (d.drop (512 * lba)) 512) no n k).map (fun i => 512 * lba + 24 * i)
      = ((List.range' k n).map fun i => 512 * lba + 24 * i).find? (HasNo d no) := by
  intro n
  induction n with
  | zero => intro k _; rfl
  | succ n ih =>
      intro k hk
      rw [childInBlock, List.range'_succ, List.map_cons]
      simp only [DirEntry.size]
      rw [getWord_read _ _ _ (by omega)]
      have hiff : HasNo d no (512 * lba + 24 * k) ↔
          (getWord d (512 * lba + (24 * k + 16))).toNat = no := by
        rw [HasNo, Nat.add_assoc]
      by_cases hm : HasNo d no (512 * lba + 24 * k)
      · rw [if_pos (hiff.mp hm), List.find?_cons_of_pos (by simpa using hm), Option.map_some]
      · rw [if_neg fun hc => hm (hiff.mpr hc), List.find?_cons_of_neg (by simpa using hm)]
        exact ih (k + 1) (by omega)

/-- The loop over the blocks returns the name in the first slot with the number. -/
theorem childInBlocks_run (blocks : Nat → UInt32) (no : Nat) {addr : Nat}
    (hsize : s.part.sb.dirEntrySize = 24) (hshort : (nameAt s.disk addr).length ≤ 15) :
    ∀ (n k : Nat), (∀ j, k ≤ j → j < k + n → blocks j ≠ 0 → (blocks j).toNat ≤ maxLba) →
      (slotsFrom blocks n k).find? (HasNo s.disk no) = some addr →
      childInBlocks blocks no n k s = .ok (some (nameAt s.disk addr), s) := by
  intro n
  induction n with
  | zero => intro k _ h; simp [slotsFrom] at h
  | succ n ih =>
      intro k hread hfind
      rw [slotsFrom] at hfind
      rw [childInBlocks]
      by_cases hk : blocks k = 0
      · rw [if_pos hk, List.nil_append] at hfind
        rw [if_pos hk]
        exact ih (k + 1) (fun j h1 h2 => hread j (by omega) (by omega)) hfind
      · have hdrive := hread k (by omega) (by omega) hk
        rw [if_neg hk, List.find?_append, blockSlots, List.range_eq_range'] at hfind
        rw [if_neg hk, Prog.bind_of_run (Prog.get_run s), hsize,
          Prog.bind_of_run (readSectors_run s _ (by decide) (by omega)), Nat.one_mul]
        have hblock := childInBlock_eq s.disk (blocks k).toNat no (fun _ => 0) 21 0 rfl
        rw [← hblock] at hfind
        simp only [show 512 / 24 = 21 by rfl]
        cases hc : childInBlock (Mem.splice (fun _ => 0) 0
            (s.disk.drop (512 * (blocks k).toNat)) 512) no 21 0 with
        | none =>
            rw [hc, Option.map_none, Option.none_or] at hfind
            exact ih (k + 1) (fun j h1 h2 => hread j (by omega) (by omega)) hfind
        | some i =>
            rw [hc, Option.map_some, Option.some_or, Option.some.injEq] at hfind
            have hi : i < 21 := by
              rw [hc, Option.map_some] at hblock
              obtain ⟨j, hj, heq⟩ := List.mem_map.mp (List.mem_of_find?_eq_some hblock.symm)
              have := List.mem_range'_1.mp hj
              omega
            subst hfind
            simp only [DirEntry.size]
            rw [cString_window hi _ hshort]
            rfl

/-- A directory below another is neither that one nor above it. -/
theorem DirTree.child_ne (h : DirTree s t) {c : Nat} (hc : c ∈ t.dirs) (h0 : c ≠ 0) :
    t.parent c ≠ c ∧ t.parent (t.parent c) ≠ c := by
  obtain ⟨hmem, hdepth⟩ := h.parents c hc h0
  have hne : t.parent c ≠ c := fun heq => by rw [heq] at hdepth; omega
  refine ⟨hne, fun heq => ?_⟩
  by_cases hp0 : t.parent c = 0
  · rw [hp0, h.rootParent] at heq
    exact h0 heq.symm
  · have := (h.parents _ hmem hp0).2
    rw [heq] at this
    omega

/-- The only slot of a directory with the number of a directory below it is its entry. -/
theorem DirTree.find_child (h : DirTree s t) {e : Entry} (hd : dir ∈ t.dirs)
    (he : e ∈ dirEntries s dir) (hproper : Proper e.name) (hty : e.fType = ftDirectory) :
    ∃ addr, (dirSlots s dir).find? (HasNo s.disk e.iNo) = some addr ∧
      nameAt s.disk addr = e.name := by
  obtain ⟨-, hc, h0, hparent⟩ := (h.kids dir hd e he hproper).resolve_right fun hk =>
    absurd (hty.symm.trans hk.1) (by decide)
  obtain ⟨addr, hmem, -, hat⟩ := mem_entries.mp he
  cases hfind : (dirSlots s dir).find? (HasNo s.disk e.iNo) with
  | none =>
      have := List.find?_eq_none.mp hfind addr hmem
      exact absurd (show HasNo s.disk e.iNo addr from hat ▸ rfl) (by simpa using this)
  | some addr' =>
      refine ⟨addr', rfl, ?_⟩
      have hno : HasNo s.disk e.iNo addr' := by simpa using List.find?_some hfind
      have hmem' : addr' ∈ dirSlots s dir := List.mem_of_find?_eq_some hfind
      have hused : InUse s.disk addr' := by
        by_contra hfree
        have hz := (h.cleared dir hd addr' hmem' hfree).2
        rw [HasNo, hz] at hno
        exact h0 hno.symm
      have he' : entryAt s.disk addr' ∈ dirEntries s dir :=
        mem_entries.mpr ⟨addr', hmem', hused, rfl⟩
      have hno' : (entryAt s.disk addr').iNo = e.iNo := hno
      obtain ⟨hself, habove⟩ := h.child_ne hc h0
      rw [hparent] at hself habove
      -- `.` and `..` have the numbers of this directory and of the one above
      have hproper' : Proper (entryAt s.disk addr').name := by
        have hlook := h.look_eq hd he'
        constructor
        · intro hn
          rw [hn, h.look_dot hd, Option.some.injEq] at hlook
          exact hself (by rw [← hno', ← hlook])
        · intro hn
          rw [hn, h.look_dotdot hd, Option.some.injEq] at hlook
          exact habove (by rw [← hno', ← hlook])
      exact congrArg Entry.name (h.linked dir hd dir hd _ he' e he hproper' hproper hno').2

variable (env) in
/-- `get_child_dir_name` finds the entry. -/
theorem DirTree.getChild_run (h : DirTree s₀ t) (hc : Cache s₀) (hheld : Held s₀ s [])
    {e : Entry} (hd : dir ∈ t.dirs) (he : e ∈ dirEntries s₀ dir) (hproper : Proper e.name)
    (hty : e.fType = ftDirectory) (path : List UInt8)
    (hlen : (path ++ slash :: e.name).length < 512) :
    ∃ s', getChildDirName env dir e.iNo path s = .ok (some (path ++ slash :: e.name), s') ∧
      Held s₀ s' [] := by
  obtain ⟨a, s₁, hopen, hheld₁, hsame⟩ := hheld.inodeOpen env hc h.table
    (h.isDir hd).1 (h.isDir hd).2
  have hclose := hheld₁.closed hc (a := a) (by simp)
  rw [List.erase_cons_head] at hclose
  obtain ⟨_, hop⟩ := hheld₁
  obtain ⟨addr, hfind, hname⟩ := h.find_child hd he hproper hty
  have hread : Readable s₁.disk (s₁.inodes a) := hop.disk ▸ (h.readable dir hd).congr hsame.symm
  rw [dirSlots, ← slots_congr hsame] at hfind
  obtain ⟨_, hcl⟩ := hclose
  refine ⟨s₁.closed a, ?_, ⟨_, hcl⟩⟩
  have hshort : (nameAt (s₁.closed a).disk addr).length ≤ 15 := by
    rw [hcl.disk, hname]
    exact (h.good dir hd e he).short
  have hfind' : ∀ {blocks : Nat → UInt32} {cnt : Nat},
      slotsFrom blocks cnt 0 = slots s₀.disk (s₁.inodes a) →
      (∀ j < cnt, blocks j ≠ 0 → (blocks j).toNat ≤ maxLba) →
      childInBlocks blocks e.iNo cnt 0 (s₁.closed a) = .ok (some e.name, s₁.closed a) := by
    intro blocks cnt hslots hdrive
    have := childInBlocks_run (s := s₁.closed a) blocks e.iNo
      (by rw [hcl.part]; exact h.entrySize) hshort cnt 0 (fun j _ hj => hdrive j (by omega))
      (by rw [hslots, hcl.disk]; exact hfind)
    rwa [hcl.disk, hname] at this
  rw [getChildDirName, Prog.bind_of_run hopen, Prog.bind_of_run (Prog.get_run s₁)]
  by_cases h12 : (s₁.inodes a).sector 12 = 0
  · have hblocks := directBlocks_eq_dirBlocks s₀.disk h12
    rw [if_neg (by simp [h12]), Prog.bind_of_run (Prog.pure_run _ _)]
    simp only []
    rw [Prog.bind_of_run (inodeClose_run a s₁), Prog.bind_of_run (hfind'
      (by rw [hblocks, slots_direct h12]) fun j hj hne => ?_)]
    · exact congrFun (if_pos hlen) _
    · rw [hblocks] at hne ⊢
      rw [hop.disk] at hread
      exact hread.blocks j (by omega) hne
  · have hdrive := hread.table h12
    have hblocks := withTable_eq s₁.disk h12 (fun _ => 0)
    rw [if_pos h12, Prog.bind_of_run (readSectors_run s₁ _ (by decide) (by
      unfold Inode.blk at hdrive; omega)), Nat.one_mul, Prog.bind_of_run (Prog.pure_run _ _)]
    simp only []
    rw [hblocks, Prog.bind_of_run (inodeClose_run a s₁), Prog.bind_of_run (hfind'
      (by rw [hop.disk]; rfl) fun j hj hne => hread.blocks j hj hne)]
    exact congrFun (if_pos hlen) _

/-! ### The climb -/

variable (env) in
/-- The names on the way down come back in reverse. -/
theorem DirTree.climb_run (h : DirTree s₀ t) (hc : Cache s₀) : ∀ (ns : List (List UInt8))
    (fuel dir : Nat) (path : List UInt8) (s : Fs), ns.length < fuel → Held s₀ s [] →
    (∀ n ∈ ns, n ≠ [] ∧ Proper n) → LeadsTo s₀ ns dir →
    (path ++ joined slash ns.reverse).length < 512 →
    ∃ s', climb env fuel dir path s = .ok (some (path ++ joined slash ns.reverse), s') ∧
      Held s₀ s' [] := by
  intro ns
  induction ns using List.reverseRecOn with
  | nil =>
      intro fuel dir path s hfuel hheld _ hl _
      obtain ⟨fuel, rfl⟩ : ∃ n, fuel = n + 1 := ⟨fuel - 1, by simp at hfuel; omega⟩
      obtain ⟨p, hw⟩ := hl
      obtain ⟨rfl, -⟩ := Walk.directory.inj hw
      exact ⟨s, by simp [climb, joined], hheld⟩
  | append_singleton ns n ih =>
      intro fuel dir path s hfuel hheld hgood hl hlen
      obtain ⟨fuel, rfl⟩ : ∃ n, fuel = n + 1 := ⟨fuel - 1, by simp at hfuel; omega⟩
      obtain ⟨d, e, hd, hlook, hty, rfl⟩ := leadsTo_snoc.mp hl
      have hns : ∀ m ∈ ns, m ≠ [] ∧ Proper m := fun m hm => hgood m (by simp [hm])
      obtain ⟨hne, hproper⟩ := hgood n (by simp)
      have hmem := h.leadsTo_mem (fun m hm => (hns m hm).1) hd
      obtain ⟨he, rfl⟩ := h.look_sound hmem hne hlook
      obtain ⟨-, hcmem, h0, hparent⟩ := (h.kids d hmem e he hproper).resolve_right fun hk =>
        absurd (hty.symm.trans hk.1) (by decide)
      rw [List.reverse_append, List.reverse_cons, List.reverse_nil, List.nil_append,
        List.singleton_append, joined_cons] at hlen ⊢
      obtain ⟨s₁, hup, hheld₁⟩ := h.getParent_run env hc hheld hcmem
      rw [hparent] at hup
      obtain ⟨s₂, hname, hheld₂⟩ := h.getChild_run env hc hheld₁ hmem he hproper hty
        path (by simp only [List.length_append, List.length_cons] at hlen ⊢; omega)
      obtain ⟨s₃, hrest, hheld₃⟩ := ih fuel d (path ++ slash :: e.name) s₂ (by simpa using hfuel)
        hheld₂ hns hd (by simpa using hlen)
      refine ⟨s₃, ?_, hheld₃⟩
      rw [climb, if_neg h0, Prog.bind_of_run hup, Prog.bind_of_run hname]
      simpa using hrest

/-! ### Turning the path around -/

/-- The first `size` bytes of the buffer are the text and zeros behind it. -/
def Spells (buf : Mem) (size : Nat) (text : List UInt8) : Prop :=
  text.length < size ∧ ∀ i < size, buf i = cstr text i

theorem Spells.cString {buf : Mem} {size : Nat} {text : List UInt8} (h : Spells buf size text)
    (htext : 0 ∉ text) : cString buf size = some text :=
  cString_eq htext h.1 fun j hj => h.2 j (by have := h.1; omega)

theorem Spells.append {buf : Mem} {size : Nat} {text more : List UInt8} (h : Spells buf size text)
    (hlen : (text ++ more).length < size) :
    Spells (buf.splice text.length (cstr more) more.length) size (text ++ more) := by
  refine ⟨hlen, fun i hi => ?_⟩
  rw [List.length_append] at hlen
  by_cases h1 : i < text.length
  · rw [Mem.splice_out (by omega), h.2 i hi]
    rw [cstr, cstr, List.getD_append _ _ _ _ h1]
  · by_cases h2 : i < text.length + more.length
    · rw [Mem.splice_in (by omega) h2, cstr, cstr, List.getD_append_right _ _ _ _ (by omega)]
    · rw [Mem.splice_out (by omega), h.2 i hi, cstr_of_ge (by omega),
        cstr_of_ge (by rw [List.length_append]; omega)]

theorem reversePath_run (size : Nat) : ∀ (ns done : List (List UInt8)) (fuel : Nat) (buf : Mem),
    ns.length < fuel → (∀ n ∈ done ++ ns.reverse, GoodName n) →
    Spells buf size (joined slash done) →
    (joined slash (done ++ ns.reverse)).length < size →
    ∃ buf', reversePath size fuel (joined slash ns) buf = .ok buf' ∧
      Spells buf' size (joined slash (done ++ ns.reverse)) := by
  intro ns
  induction ns using List.reverseRecOn with
  | nil =>
      intro done fuel buf hfuel _ hs _
      obtain ⟨fuel, rfl⟩ : ∃ n, fuel = n + 1 := ⟨fuel - 1, by simp at hfuel; omega⟩
      exact ⟨buf, by simp [reversePath, joined], by simpa using hs⟩
  | append_singleton ns n ih =>
      intro done fuel buf hfuel hgood hs hlen
      obtain ⟨fuel, rfl⟩ : ∃ n, fuel = n + 1 := ⟨fuel - 1, by simp at hfuel; omega⟩
      have hrev : done ++ (ns ++ [n]).reverse = done ++ [n] ++ ns.reverse := by simp
      rw [hrev] at hgood hlen ⊢
      have hn : GoodName n := hgood n (by simp)
      have htext : 0 ∉ joined slash done := by
        have : 0 ∉ spell done := spell_text fun m hm => hgood m (by simp [hm])
        by_cases hd : done = []
        · simp [hd, joined]
        · simpa [spell, hd] using this
      have hjoin : joined slash (ns ++ [n]) = joined slash ns ++ slash :: n := by
        simp [joined]
      have hlong : (joined slash done ++ slash :: n).length < size := by
        have hone : joined slash [n] = slash :: n := by simp [joined]
        rw [joined_append, joined_append, hone, List.length_append] at hlen
        omega
      obtain ⟨buf', hrun, hs'⟩ := ih (done ++ [n]) fuel _ (by simpa using hfuel) hgood
        (by simpa [joined_append, joined] using hs.append hlong) hlen
      refine ⟨buf', ?_, hs'⟩
      rw [reversePath, hjoin, if_pos (by simp), baseName_snoc hn.noSlash]
      simp only [hs.cString htext]
      rw [if_pos (by simp only [List.length_append] at hlong; omega)]
      have htake : (joined slash ns ++ slash :: n).take
          ((joined slash ns ++ slash :: n).length - (slash :: n).length) = joined slash ns := by
        rw [List.length_append, Nat.add_sub_cancel, List.take_left]
      rw [htake]
      simpa [joined] using hrun

/-! ### There and back -/

/-- A canonical path: its text is that of its names, and none of them is `.` or `..`. -/
structure Canonical (path : List UInt8) : Prop extends AbsPath path where
  spelled : path = spell (names path)
  proper : ∀ n ∈ names path, Proper n

variable (env) in
/-- `sys_chdir` to a directory. -/
theorem DirTree.chdir_run (h : DirTree s t) (hc : Cache s) {path : List UInt8}
    (hp : AbsPath path) (hl : LeadsTo s (names path) dir) :
    ∃ s', sysChdir env path s = .ok (0, s') ∧ DirTree s' t ∧ Cache s' ∧
      s'.disk = s.disk ∧ s'.part = s.part ∧ s'.cur = s.cur ∧
      (s'.tasks s.cur).cwdInodeNr = dir := by
  obtain ⟨no, r, s₁, hrun, hrep⟩ := h.searchFile_run env hc hp
  have hdir := h.leadsTo_mem (fun n hn => names_ne_nil hn) hl
  obtain ⟨p, hw⟩ := hl
  obtain rfl : no = (dir : Int) := by rw [hrep.result, hw]; rfl
  have hty : r.fileType = ftDirectory := by rw [hrep.fileType, hw]; rfl
  obtain ⟨_, hop⟩ := hrep.held
  set f : Nat → FdTask := fun t => if t = s₁.cur then
    { s₁.tasks t with cwdInodeNr := (u32 (dir : Int)).toNat } else s₁.tasks t with hf
  have hheld := hrep.held.tasks f
  have hc' : Cache { s with tasks := f } := hc.tasks f
  obtain ⟨s₂, hclose, hheld₂⟩ :=
    Held.dirClose ((List.append_nil r.parentDir.opens).symm ▸ hheld) hc'
  have htree : DirTree { s with tasks := f } t := h.congr rfl rfl h.rootOpen h.rootNo
  have htree₂ := hheld₂.tree hc' htree
  have hcache₂ := hheld₂.cache hc'
  obtain ⟨_, hop₂⟩ := hheld₂
  refine ⟨s₂, ?_, htree₂, hcache₂, hop₂.disk, hop₂.part, hop₂.cur, ?_⟩
  · rw [sysChdir, Prog.bind_of_run hrun]
    simp only []
    rw [if_pos ⟨by omega, hty⟩, Prog.bind_of_run (Prog.modify_run _ s₁), Prog.bind_of_run hclose]
    rfl
  · rw [hop₂.tasks]
    simp only [hf, hop.cur, if_true]
    exact toNat_u32 (by have := (h.isDir hdir).1; omega)

/-- `sys_getcwd` in a directory below the root. -/
theorem DirTree.getcwd_run (h : DirTree s t) (hc : Cache s) {path : List UInt8}
    (hp : Canonical path) (hl : LeadsTo s (names path) dir)
    (hcwd : (s.tasks s.cur).cwdInodeNr = dir) (buf : Mem) {size : Nat}
    (hsize : path.length < size) :
    ∃ buf' s', sysGetcwd env buf size s = .ok (some buf', s') ∧
      ∀ i ≤ path.length, buf' i = cstr path i := by
  have hdir := h.leadsTo_mem (fun n hn => names_ne_nil hn) hl
  have hnum := (h.isDir hdir).1
  have hgood : ∀ n ∈ names path, GoodName n := fun n hn => hp.goodName hn
  rw [sysGetcwd, Prog.bind_of_run (Prog.get_run s), hcwd,
    Prog.bind_of_run (assertFs_run hnum _ _ s)]
  by_cases hn : names path = []
  · have hpath : path = [slash] := by rw [hp.spelled, hn]; rfl
    rw [hn] at hl
    obtain ⟨p, hw⟩ := hl
    obtain ⟨rfl, -⟩ := Walk.directory.inj hw
    subst hpath
    have h2 : 2 ≤ size := hsize
    rw [if_pos rfl, if_pos h2]
    refine ⟨_, s, rfl, fun i hi => ?_⟩
    rw [Mem.splice_in (by omega) (by simp at hi; omega), Nat.sub_zero]
  · have hjoin : path = joined slash (names path) := by
      conv_lhs => rw [hp.spelled, spell, if_neg hn]
    have h0 : dir ≠ 0 := by
      have hsnoc := (List.dropLast_append_getLast hn).symm
      rw [hsnoc] at hl
      obtain ⟨d, e, hd, hlook, hty, rfl⟩ := leadsTo_snoc.mp hl
      have hmem := h.leadsTo_mem (fun m hm => names_ne_nil (List.mem_of_mem_dropLast hm)) hd
      have hlast := List.getLast_mem hn
      obtain ⟨he, hename⟩ := h.look_sound hmem (names_ne_nil hlast) hlook
      rcases h.kids d hmem e he (hename ▸ hp.proper _ hlast) with hk | hk
      · exact hk.2.2.1
      · exact absurd (hty.symm.trans hk.1) (by decide)
    have hshort := hp.length
    have hlen : (joined slash (names path)).length = path.length :=
      (congrArg List.length hjoin).symm
    have hrev := length_joined_reverse slash (names path)
    have hcount := length_le_joined slash (names path)
    obtain ⟨s', hclimb, -⟩ := h.climb_run env hc (names path) (maxPathLen + 1) dir [] s
      (by simp only [maxPathLen]; omega) (Held.refl hc)
      (fun n hn => ⟨names_ne_nil hn, hp.proper n hn⟩) hl
      (by rw [List.nil_append]; omega)
    obtain ⟨buf', hturn, hspell⟩ := reversePath_run size (names path).reverse []
      (maxPathLen + 1) (buf.fill 0 0 size)
      (by rw [List.length_reverse]; simp only [maxPathLen]; omega) (by simpa using hgood)
      ⟨by simp [joined]; omega, fun i hi => by
        rw [Mem.fill_in (by omega) (by omega)]
        simp [joined, cstr]⟩
      (by rw [List.nil_append, List.reverse_reverse]; omega)
    rw [List.nil_append, List.reverse_reverse, ← hjoin] at hspell
    rw [List.nil_append] at hclimb
    refine ⟨buf', s', ?_, fun i hi => hspell.2 i (by omega)⟩
    rw [if_neg h0, Prog.bind_of_run hclimb]
    simp only []
    rw [Prog.bind_of_run (assertFs_run (by omega) _ _ s'),
      Prog.bind_of_run (Prog.lift_run.mpr ⟨hturn, rfl⟩), Prog.pure_run]

/-- After `sys_chdir` to a canonical path `sys_getcwd` returns that path. -/
theorem sysGetcwd_sysChdir (env : FsEnv) (s : Fs) (t : Tree) (path : List UInt8)
    (htree : DirTree s t) (hcache : Cache s) (hpath : Canonical path)
    (hdir : ∃ dir, LeadsTo s (names path) dir) :
    ∃ s₁, sysChdir env path s = .ok (0, s₁) ∧
      ∀ (buf : Mem) (size : Nat), path.length < size →
        ∃ buf' s₂, sysGetcwd env buf size s₁ = .ok (some buf', s₂) ∧
          ∀ i ≤ path.length, buf' i = cstr path i := by
  obtain ⟨dir, hl⟩ := hdir
  obtain ⟨s₁, hrun, htree₁, hcache₁, hdisk, hpart, hcur, hcwd⟩ :=
    htree.chdir_run env hcache hpath.toAbsPath hl
  have hl₁ : LeadsTo s₁ (names path) dir := by
    obtain ⟨p, hw⟩ := hl
    exact ⟨p, (walk_congr hdisk hpart _ _ _).trans hw⟩
  exact ⟨s₁, hrun, fun buf size hsize =>
    htree₁.getcwd_run hcache₁ hpath hl₁ (hcur ▸ hcwd) buf hsize⟩

/-- `/d` -/
theorem sysGetcwd_sysChdir_d : ∃ s₁, sysChdir upwardEnv [47, 100] smallFs = .ok (0, s₁) ∧
    ∀ (buf : Mem) (size : Nat), 2 < size →
      ∃ buf' s₂, sysGetcwd upwardEnv buf size s₁ = .ok (some buf', s₂) ∧
        ∀ i ≤ 2, buf' i = cstr [47, 100] i :=
  sysGetcwd_sysChdir upwardEnv smallFs smallTree [47, 100] smallFs_tree smallFs_cache
    ⟨⟨rfl, by decide, by decide, by decide, by decide⟩, by decide, by decide⟩
    ⟨1, 0, by decide +kernel⟩

end ZyOs
