/-
Where a path ends, and what the calls do from there.

`search_file` ends where the walk along the names ends, or, for slashes and nothing else, at the
root with the number that was on the stack.  The calls go on with that number as it is: they open
the inode under it, or look for it in the directory the walk came from.
-/
import Mathlib.Data.List.TakeWhile
import ZyOs.Proofs.Creates
import ZyOs.Proofs.ThroughFile
import ZyOs.Proofs.ReleaseExact
import ZyOs.Proofs.DeleteDirEntry

namespace ZyOs

open Library

/-- The slot of the file `no` is not written when an entry is taken out of the directory `d`, or
is not read. -/
def SlotSafe (s : Fs) (d no : Nat) : Prop :=
  d < 256 ∨ d % 256 ≠ no ∨ (findOpen s.inodes no s.openInodes).isSome = true

instance (s : Fs) (d no : Nat) : Decidable (SlotSafe s d no) :=
  inferInstanceAs (Decidable (_ ∨ _ ∨ _))

variable {E : Halt → Prop} {env : FsEnv} {s₀ s s' : Fs} {t : Tree} {path : List UInt8}
  {a d no p : Nat} {rest : List (List UInt8)}

/-! ### `path_depth_cnt` -/

theorem parseName_long (func : String) {name : List UInt8} {ns : List (List UInt8)}
    (h : names path = name :: ns) (hlen : ¬ name.length ≤ 16) :
    parseName func path = .error (.fault func) := by
  obtain ⟨u, hparse, -⟩ := pathParse_cons h
  unfold parseName
  rw [hparse, if_neg (by simpa [maxFileNameLen] using hlen)]

theorem depthLoop_ok : ∀ (fuel : Nat) (u : Option (List UInt8)) (depth k : Nat),
    depthLoop fuel u depth = .ok k → (u.getD []).length < fuel →
    ∀ n ∈ namesLeft u, n.length ≤ 16 := by
  intro fuel
  induction fuel with
  | zero => intro u depth k _ hfuel; omega
  | succ fuel ih =>
      intro u depth k hok hfuel
      cases u with
      | none => simp [namesLeft_none]
      | some p =>
          show ∀ n ∈ names p, n.length ≤ 16
          cases hn : names p with
          | nil => simp
          | cons n ns =>
              have hne : n ≠ [] := names_ne_nil (hn ▸ List.mem_cons_self)
              by_cases hlen : n.length ≤ 16
              · obtain ⟨u', hparse, hns, hlt⟩ := parseName_cons "path_depth_cnt" hn hlen
                simp only [depthLoop, hparse, ok_bind, hne, if_false] at hok
                have hrest := ih u' (depth + 1) k hok
                  (by simp only [Option.getD_some] at hfuel; omega)
                rw [hns] at hrest
                simpa using ⟨hlen, hrest⟩
              · rw [depthLoop, parseName_long _ hn hlen] at hok
                cases hok

/-- `path_depth_cnt` returns when there is a name and all of them fit. -/
theorem pathDepthCnt_ok {k : Nat} (h : pathDepthCnt path = .ok k) :
    names path ≠ [] ∧ ∀ n ∈ names path, n.length ≤ 16 := by
  cases hn : names path with
  | nil =>
      rw [pathDepthCnt, parseName_nil hn] at h
      cases h
  | cons n ns =>
      refine ⟨by simp, ?_⟩
      by_cases hlen : n.length ≤ 16
      · obtain ⟨u, hparse, hns, hlt⟩ := parseName_cons "path_depth_cnt" hn hlen
        have hne : n ≠ [] := names_ne_nil (hn ▸ List.mem_cons_self)
        simp only [pathDepthCnt, hparse, ok_bind, hne, if_false] at h
        have hrest := depthLoop_ok _ u 0 k h (by omega)
        rw [hns] at hrest
        simpa using ⟨hlen, hrest⟩
      · rw [pathDepthCnt, parseName_long _ hn hlen] at h
        cases h

theorem wp_pathDepthCnt (hE : Prog.Granted E (names path ≠ [] ∧ ∀ n ∈ names path, n.length ≤ 16))
    {Q : Nat → Fs → Prop} (h : (names path ≠ [] ∧ ∀ n ∈ names path, n.length ≤ 16) →
      Q (names path).length s) : Prog.wp E (Prog.lift (pathDepthCnt path)) Q s := by
  by_cases hfit : names path ≠ [] ∧ ∀ n ∈ names path, n.length ≤ 16
  · rw [pathDepthCnt_run hfit.1 hfit.2]
    exact h hfit
  · refine Prog.wp_lift (fun k hok => absurd (pathDepthCnt_ok hok) hfit) fun e _ => hE.any hfit e

/-! ### The last name -/

theorem baseName_append (w l : List UInt8) : baseName (w ++ slash :: l) = baseName l := by
  unfold baseName
  rw [List.reverse_append, List.reverse_cons, List.append_assoc, List.takeWhile_append]
  split
  · rename_i hall
    rw [(List.takeWhile_prefix _).eq_of_length hall]
    simp
  · rfl

/-- What follows the last slash is a name of the path, if it is anything. -/
theorem baseName_mem (path : List UInt8) : baseName path = [] ∨ baseName path ∈ names path := by
  unfold names
  induction path using parts_induction slash with
  | nil => exact .inl rfl
  | skip l ih =>
      rw [parts_sep_cons, show baseName (slash :: l) = baseName l from baseName_append [] l]
      exact ih
  | word w l hw hsep hl ih =>
      rw [parts_word_append hw hsep hl]
      rcases hl with rfl | hl
      · right
        have hbase : baseName (w ++ []) = w := by
          unfold baseName
          rw [List.append_nil, List.takeWhile_eq_self_iff.mpr, List.reverse_reverse]
          intro x hx
          simpa using fun hs : x = slash => hsep (hs ▸ List.mem_reverse.mp hx)
        rw [hbase]
        exact List.mem_cons_self
      · obtain ⟨l', rfl⟩ := List.head?_eq_some_iff.mp hl
        rw [baseName_append, ← baseName_append [] l', List.nil_append]
        exact ih.imp_right fun h => List.mem_cons_of_mem _ h

theorem baseName_length (h : ∀ n ∈ names path, n.length ≤ 16) : (baseName path).length ≤ 16 := by
  rcases baseName_mem path with hnil | hmem
  · rw [hnil]
    simp
  · exact h _ hmem

/-- A path that does not end in a slash has a name. -/
theorem named_of_last (hne : path ≠ []) (hlast : path.getLast? ≠ some slash) : names path ≠ [] := by
  intro hnil
  rcases baseName_mem path with hbase | hmem
  · obtain ⟨l, x, rfl⟩ := (List.eq_nil_or_concat path).resolve_left hne
    have hx : x ≠ slash := fun hc => hlast (by simp [hc])
    simp [baseName, hx] at hbase
  · rw [hnil] at hmem
    cases hmem

/-! ### Where the search ends -/

theorem endsAt_named (h : names path ≠ []) : endsAt env s path = walk s 0 0 (names path) :=
  if_neg fun hc => h hc.1

/-- A walk that does not end at a directory went along a name. -/
theorem named_of_ends (h : (endsAt env s path).fileType ≠ ftDirectory) : names path ≠ [] := by
  intro hnil
  unfold endsAt at h
  split at h
  · exact h rfl
  · rw [hnil] at h
    exact h rfl

/-! ### Where the walk ends -/

/-- A walk that ends at a file found its entry. -/
theorem DirTree.walk_entry (h : DirTree s t) : ∀ {ns : List (List UInt8)} {d p no dir : Nat}
    {rest : List (List UInt8)}, (∀ n ∈ ns, n ≠ []) → d ∈ t.dirs →
    walk s d p ns = .file no dir rest →
      ∃ e ∈ dirEntries s dir, Proper e.name ∧ e.iNo = no := by
  intro ns
  induction ns with
  | nil => intro d p no dir rest _ _ hw; cases hw
  | cons n ns ih =>
      intro d p no dir rest hne hd hw
      rw [walk] at hw
      cases hlook : look s d n with
      | none => simp [hlook] at hw
      | some e =>
          simp only [hlook] at hw
          obtain ⟨he, hname⟩ := h.look_sound hd (hne n (by simp)) hlook
          rcases h.entry_cases hd he with hk | hk
          · rw [if_pos hk.1] at hw
            exact ih (fun m hm => hne m (by simp [hm])) hk.2 hw
          · rw [if_neg (by rw [hk.1]; decide), Walk.file.injEq] at hw
            obtain ⟨rfl, rfl, -⟩ := hw
            refine ⟨e, he, ⟨fun hdot => ?_, fun hdotdot => ?_⟩, rfl⟩
            · rw [← hname, hdot, h.look_dot hd, Option.some.injEq] at hlook
              rw [← hlook] at hk
              exact absurd hk.1 (show ftDirectory ≠ ftRegular by decide)
            · rw [← hname, hdotdot, h.look_dotdot hd, Option.some.injEq] at hlook
              rw [← hlook] at hk
              exact absurd hk.1 (show ftDirectory ≠ ftRegular by decide)

/-- Where the calls end up, in terms of the walk. -/
theorem ends_cases (env : FsEnv) (s : Fs) (path : List UInt8) :
    endsAt env s path = walk s 0 0 (names path) ∨
    names path = [] ∧ endsAt env s path = .directory env.junk.toNat 0 := by
  unfold endsAt
  split
  · rename_i h
    exact .inr ⟨h.1, rfl⟩
  · exact .inl rfl

theorem walk_of_directory (h : endsAt env s path = .directory no p) :
    ∃ no p, walk s 0 0 (names path) = .directory no p := by
  rcases ends_cases env s path with hw | ⟨hnil, -⟩
  · exact ⟨no, p, hw ▸ h⟩
  · exact ⟨0, 0, by rw [hnil]; rfl⟩

theorem walk_of_file (h : endsAt env s path = .file no d rest) :
    walk s 0 0 (names path) = .file no d rest := by
  rcases ends_cases env s path with hw | ⟨-, hw⟩
  · exact hw ▸ h
  · rw [h] at hw
    cases hw

theorem walk_of_missing (h : endsAt env s path = .missing d rest) :
    walk s 0 0 (names path) = .missing d rest := by
  rcases ends_cases env s path with hw | ⟨-, hw⟩
  · exact hw ▸ h
  · rw [h] at hw
    cases hw

theorem DirTree.ends_dir (h : DirTree s t) (env : FsEnv) (path : List UInt8) :
    (endsAt env s path).dir ∈ t.dirs := by
  rcases ends_cases env s path with hw | ⟨-, hw⟩
  · rw [hw]
    exact h.walk_dir (fun _ hn => names_ne_nil hn) h.root h.root
  · rw [hw]
    exact h.root

variable (env) in
/-- The root has its number, however it is spelt. -/
theorem DirTree.ends_shortcut (h : DirTree s t) (hs : IsShortcut path) :
    endsAt env s path = .directory 0 0 := by
  rcases hs with rfl | rfl | rfl
  · rfl
  · rw [endsAt_named (by rw [names_dot]; simp), names_dot, walk, h.look_dot h.root]
    rfl
  · rw [endsAt_named (by rw [names_dotdot]; simp), names_dotdot, walk, h.look_dotdot h.root,
      h.rootParent]
    rfl

theorem Searchable.absolute (h : Searchable s path) :
    path.head? = some slash ∧ path.length < maxPathLen := by
  rcases h with (rfl | rfl | rfl) | ⟨hhead, hlen, -⟩
  · exact ⟨rfl, by decide⟩
  · exact ⟨rfl, by decide⟩
  · exact ⟨rfl, by decide⟩
  · exact ⟨hhead, hlen⟩

/-- What the calls go by after the search. -/
structure Ended (s₀ : Fs) (path : List UInt8) (w : Walk) (no : Int) (r : PathSearchRecord)
    (s : Fs) : Prop where
  fileType : r.fileType = w.fileType
  held : Held s₀ s r.parentDir.opens
  parent : Inode.Same (s.inodes (r.parentDir.inode s)) (diskInode s₀ w.dir)
  missing : ∀ d rest, w = .missing d rest → no = -1
  file : ∀ n d rest, w = .file n d rest → no = n
  directory : ∀ n p, w = .directory n p → no = int32 n ∧ n < 2 ^ 32
  depth : w.fileType ≠ ftDirectory → (∀ n ∈ names path, n.length ≤ 16) →
    pathDepthCnt r.searchedPath = .ok ((names path).length - w.rest.length)

theorem DirTree.ended (h : DirTree s₀ t) {no : Int} {r : PathSearchRecord}
    (hs : Searched env s₀ path no r s) : Ended s₀ path (endsAt env s₀ path) no r s := by
  by_cases hslash : names path = [] ∧ path ≠ [slash]
  · obtain ⟨hno, hty, hheld, hsame⟩ := hs.slashes hslash.1 hslash.2
    rw [endsAt, if_pos hslash]
    refine ⟨hty, hheld, hsame, by simp, by simp, ?_, fun hc => absurd rfl hc⟩
    rintro n p hw
    obtain ⟨rfl, -⟩ := Walk.directory.inj hw
    exact ⟨hno, UInt32.toNat_lt _⟩
  · have hnamed : names path ≠ [] ∨ path = [slash] := by
      by_cases hnil : names path = []
      · exact .inr (by_contra fun hc => hslash ⟨hnil, hc⟩)
      · exact .inl hnil
    have hrep := hs.named hnamed
    rw [endsAt, if_neg hslash]
    refine ⟨hrep.fileType, hrep.held, hrep.parent, ?_, ?_, ?_, fun hty hlen => hrep.depth hlen hty⟩
    · rintro d rest hw
      exact hrep.result.trans (by rw [hw]; rfl)
    · rintro n d rest hw
      exact hrep.result.trans (by rw [hw]; rfl)
    · rintro n p hw
      have hn := (h.isDir (h.leadsTo_mem (fun n hn => names_ne_nil hn) ⟨p, hw⟩)).1
      exact ⟨(hrep.result.trans (by rw [hw]; rfl)).trans (Bitmap.int32_of_lt (by omega)).symm,
        by omega⟩

variable (env) in
/-- `search_file` for the calls. -/
theorem DirTree.wp_search (h : DirTree s t) (hc : Cache s) (htext : 0 ∉ path)
    (hE : Prog.Granted E (Searchable s path)) {Q : Int × PathSearchRecord → Fs → Prop}
    (hQ : Searchable s path → ∀ no r s', Ended s path (endsAt env s path) no r s' → Q (no, r) s') :
    Prog.wp E (searchFile env path) Q s :=
  Prog.wp_mono (h.wp_searchFile env hc htext hE) fun res s' hpost =>
    hQ hpost.1 res.1 res.2 s' (h.ended hpost.2)

/-! ### The state after the search -/

theorem isOpen_iff {inodes : Nat → Inode} {l : List Nat} :
    (findOpen inodes no l).isSome = true ↔ ∃ c ∈ l, (inodes c).iNo.toNat = no := by
  constructor
  · intro hsome
    obtain ⟨c, hfind⟩ := Option.isSome_iff_exists.mp hsome
    exact ⟨c, findOpen_some hfind⟩
  · rintro ⟨c, hmem, hno⟩
    exact Option.isSome_iff_exists.mpr (exists_findOpen hmem hno)

/-- The search opens nothing but the directory it ends in. -/
theorem Held.slotSafe {held : List Nat} (h : Held s s' held) (hc : Cache s)
    (hne : ∀ c ∈ held, (s'.inodes c).iNo.toNat ≠ no) (d : Nat) :
    SlotSafe s' d no ↔ SlotSafe s d no := by
  obtain ⟨new, hop⟩ := h
  unfold SlotSafe
  rw [isOpen_iff, isOpen_iff]
  refine or_congr_right (or_congr_right ⟨?_, ?_⟩)
  · rintro ⟨c, hmem, hno⟩
    rw [hop.openInodes, List.mem_append] at hmem
    rcases hmem with hnew | hold
    · exact absurd hno (hne c (hop.fresh c hnew).2)
    · rw [hop.kept c (hc.heap c hold)] at hno
      exact ⟨c, hold, hno⟩
  · rintro ⟨c, hmem, hno⟩
    refine ⟨c, ?_, ?_⟩
    · rw [hop.openInodes]
      exact List.mem_append_right _ hmem
    · rw [hop.kept c (hc.heap c hmem)]
      exact hno

/-- The tree is in order after the search. -/
theorem Held.orderly {held : List Nat} (h : Held s s' held) (hc : Cache s) (ho : Orderly s t) :
    Orderly s' t :=
  ho.congr (h.elim fun _ hop => hop.disk) (h.elim fun _ hop => hop.part) (h.tree hc ho.tree)

theorem Held.diskInode {held : List Nat} (h : Held s s' held) (n : Nat) :
    diskInode s' n = diskInode s n :=
  h.elim fun _ hop => diskInode_congr hop.disk hop.part n

/-! ### Opening -/

/-- The inode that is open under a number is the one on disk. -/
theorem Cache.theInode_same (hc : Cache s) (no : Nat) :
    Inode.Same (theInode s no) (diskInode s no) := by
  unfold theInode
  cases hfind : findOpen s.inodes no s.openInodes with
  | none => exact Inode.Same.refl _
  | some a =>
      obtain ⟨hmem, hno⟩ := findOpen_some hfind
      have hsame := hc.same a hmem
      rwa [hno] at hsame

variable (env) in
/-- `inode_open` of any number. -/
theorem Cache.wp_inodeOpen (hc : Cache s) (hfit : s.part.TableFits)
    (hE : Prog.Granted E (no < 4096)) {Q : Nat → Fs → Prop}
    (h : ∀ a s', no < 4096 → inodeOpen env no s = .ok (a, s') →
      Inode.Same (s'.inodes a) (diskInode s no) → Q a s') :
    Prog.wp E (inodeOpen env no) Q s := by
  by_cases hno : no < 4096
  · obtain ⟨a, s', hrun, hsame⟩ := inodeOpen_theInode env hfit hno
    exact Prog.wp_of_run hrun (h a s' hno hrun (hsame.trans (hc.theInode_same no)))
  · refine hE.wp_of_not hno fun a s' hrun => absurd ?_ hno
    rcases inodeOpen_cases hrun with ⟨hmem, rfl, -⟩ | ⟨hlt, -⟩
    · exact hc.number a hmem
    · exact hlt

/-- `file_open` of a file always answers. -/
theorem Cache.wp_fileOpen (hc : Cache s) (hfit : s.part.TableFits) (hno : no < 4096) {flag : Nat}
    {Q : Int → Fs → Prop} (h : ∀ r s', Q r s') : Prog.wp E (fileOpen env no flag) Q s := by
  refine Prog.wp_get_bind ?_
  cases getFreeSlotInGlobal s.fileTable with
  | none => exact Prog.wp_pure (h _ _)
  | some g =>
      refine Prog.wp_bind (hc.wp_inodeOpen env hfit (.of hno) fun a s' _ _ _ => ?_)
      refine Prog.wp_bind (Prog.wp_modify (Prog.wp_ite (fun _ => ?_) fun _ => wp_pcbFdInstall h))
      refine Prog.wp_get_bind (Prog.wp_ite (fun _ => Prog.wp_pure (h _ _)) fun _ => ?_)
      exact Prog.wp_bind (wp_putInode (wp_pcbFdInstall h))

/-! ### Releasing -/

/-- `inode_release` of an inode that can be opened as it was on disk. -/
theorem Orderly.wp_releaseAs (h : Orderly s t) (hno : no ∈ t.dirs ∪ t.files) (h0 : no ≠ 0)
    (hdrive : OnDrive s'.part) (hsb : s'.part.sb = s.part.sb)
    (hlen : s'.part.blockBitmap.bmapBytesLen = s.part.blockBitmap.bmapBytesLen)
    (hsame : Inode.Same (theInode s' no) (diskInode s no))
    (hown : own s'.disk (diskInode s no) = own s.disk (diskInode s no)) {Q : Unit → Fs → Prop}
    (hQ : ∀ s₁, Q () s₁) : Prog.wp E (inodeRelease env no) Q s' := by
  have hnumber := h.volume.number no hno
  obtain ⟨a, s₁, hopen, hopened⟩ := inodeOpen_theInode env hdrive.fits hnumber.1
  have hn := hopened.trans hsame
  refine wp_inodeRelease hdrive hnumber.1 hopen (by rw [hn.iNo]; exact hnumber.2) ?_
    fun s₂ _ => hQ _
  rintro lba ⟨k, hk, hne, rfl⟩
  rw [own_congr hn, hown] at hne ⊢
  exact (h.releasable hno h0 (Inode.Same.refl _) ⟨k, hk, hne, rfl⟩).congr hsb hlen

theorem Removable.of_same {n n' : Inode} {d : Disk} (hn : Inode.Same n n') (h : Removable d n no) :
    Removable d n' no := by
  have hown := own_congr hn (d := d)
  intro k hk hnames hfirst
  unfold BlockNames at hnames hfirst
  rw [← hown] at hnames hfirst
  obtain ⟨hsize, honce, hdirect⟩ := h k hk hnames hfirst
  rw [hown] at honce hdirect
  exact ⟨hn.iSize ▸ hsize, honce, hdirect⟩

/-- `delete_dir_entry` in a directory of the tree. -/
theorem Orderly.wp_deleteEntry (h : Orderly s t) (hp : p ∈ t.dirs)
    (hsame : Inode.Same (s.inodes a) (diskInode s p))
    (hE : Prog.Granted E (Removable s.disk (diskInode s p) no)) {Q : Bool → Fs → Prop}
    (hmissing : (∀ e ∈ dirEntries s p, Proper e.name → e.iNo ≠ no) →
      Removable s.disk (diskInode s p) no → Q false s)
    (htaken : ∀ s' e, TakenOut s s' (t.dirs ∪ t.files) p a e → e.iNo = no →
      Removable s.disk (diskInode s p) no → Q true (s'.writtenBack a)) :
    Prog.wp E (deleteDirEntry a no) Q s := by
  have hpin : p ∈ t.dirs ∪ t.files := Finset.mem_union_left _ hp
  have howns : OwnBlocks s.part s.disk (s.inodes a) := h.volume.ownBlocks hpin hsame
  have harea : InArea s.part s.disk (s.inodes a) :=
    ⟨fun k hk hne => ⟨(howns.used k hk hne).data, (howns.used k hk hne).bit⟩,
      fun k hk hne => (howns.used k hk hne).drive⟩
  have hremovable : Removable s.disk (s.inodes a) no ↔ Removable s.disk (diskInode s p) no :=
    ⟨Removable.of_same hsame, Removable.of_same hsame.symm⟩
  have hiff : (∃ r, deleteDirEntry a no s = .ok r) ↔ Removable s.disk (diskInode s p) no := by
    rw [deleteDirEntry_run harea, ← returns_run harea,
      delete_dir_entry_returns_iff s a no h.volume.drive harea, hremovable]
  have hnd : ((entries s.disk (s.inodes a)).map Entry.name).Nodup := by
    rw [entries_congr hsame]
    exact h.tree.nodup p hp
  have honce : NamesOnce s.disk (s.inodes a) no := by
    have honce : NamesOnce s.disk (diskInode s p) no := h.tree.namesOnce hp
    rwa [NamesOnce, ← slots_congr hsame] at honce
  have hsize : 24 ≤ (s.inodes a).iSize.toNat := by
    rw [hsame.iSize]
    exact h.size_le hp
  refine Prog.wp_mono (hE.wp_of_iff (Q := fun r s' => Removable s.disk (diskInode s p) no → Q r s')
    hiff (h.volume.wp_deleteDirEntry hpin hsame ((h.tree.body hp).congr hsame.symm) hnd honce hsize
      (.inr fun _ => trivial) (fun hnone hrem => hmissing ?_ hrem)
      fun s' e hout he hrem => htaken s' e hout he hrem)) fun _ _ hpost => hpost.2 hpost.1
  rw [dirEntries, ← entries_congr hsame]
  exact hnone

section Taken

variable {s₁ : Fs} {e : Entry} (h : Orderly s t) (hc : Cache s) (hp : p ∈ t.dirs)
  (hsame : Inode.Same (s.inodes a) (diskInode s p))
  (hout : TakenOut s s₁ (t.dirs ∪ t.files) p a e) (hno : no ∈ t.dirs ∪ t.files) (hne : p ≠ no)
include h hc hp hsame hout hno hne

omit hno in
/-- What is open under another number is as it was. -/
theorem Orderly.findOpen_taken :
    (∀ c, findOpen s₁.inodes no s₁.openInodes = some c →
      Inode.Same (s₁.inodes c) (diskInode s no)) ∧
    ((findOpen s₁.inodes no s₁.openInodes).isSome = true ↔
      (findOpen s.inodes no s.openInodes).isSome = true) := by
  have hedit := hout.edited
  have hpno := h.volume.iNo (Finset.mem_union_left _ hp) hsame
  have hrest : ∀ c, c ≠ a → s₁.inodes c = s.inodes c := hedit.rest.inodes
  have hopen : s₁.openInodes = s.openInodes := hedit.rest.openInodes
  have hold : ∀ c, (s₁.inodes c).iNo.toNat = no ↔ (s.inodes c).iNo.toNat = no := by
    intro c
    by_cases hca : c = a
    · rw [hca, hedit.iNo]
    · rw [hrest c hca]
  refine ⟨fun c hfind => ?_, ?_⟩
  · obtain ⟨hmem, hnum⟩ := findOpen_some hfind
    have hca : c ≠ a := by
      rintro rfl
      exact hne (hpno.symm.trans ((hold c).mp hnum))
    rw [hrest c hca] at hnum ⊢
    rw [hopen] at hmem
    exact hnum ▸ hc.same c hmem
  · rw [isOpen_iff, isOpen_iff, hopen]
    exact exists_congr fun c => and_congr_right fun _ => hold c

/-- `inode_release` once the entry is taken out: the slot must not have been overwritten. -/
theorem Orderly.wp_releaseTaken (h0 : no ≠ 0) (hE : Prog.Granted E (SlotSafe s p no))
    {Q : Unit → Fs → Prop} (hQ : SlotSafe s p no → ∀ s', Q () s') :
    Prog.wp E (inodeRelease env no) Q (s₁.writtenBack a) := by
  have hedit := hout.edited
  have hpno := h.volume.iNo (Finset.mem_union_left _ hp) hsame
  obtain ⟨hopened, hiff⟩ := h.findOpen_taken hc hp hsame hout hne
  have hkept := hedit.kept no hno (Ne.symm hne)
  have hdrive : OnDrive (s₁.writtenBack a).part := hedit.drive
  by_cases hslot : SlotSafe s p no
  · refine h.wp_releaseAs hno h0 hdrive hedit.sb hout.bmapBytesLen ?_ ?_ (hQ hslot)
    · have hsame₁ : findOpen (s₁.writtenBack a).inodes no (s₁.writtenBack a).openInodes
          = findOpen s₁.inodes no s₁.openInodes := rfl
      rw [theInode, hsame₁]
      cases hfind : findOpen s₁.inodes no s₁.openInodes with
      | some c => exact hopened c hfind
      | none =>
          have hother : no ≠ p % 256 := by
            rintro rfl
            rcases hslot with hlt | hmod | hsome
            · exact hne (Nat.mod_eq_of_lt hlt).symm
            · exact hmod rfl
            · rw [← hiff, hfind] at hsome
              exact absurd hsome (by simp)
          show Inode.Same (diskInode (s₁.writtenBack a) no) _
          rw [hedit.diskInode_writtenBack hpno hother, hkept.inode]
          exact Inode.Same.refl _
    · exact (hkept.blocks.trans (hedit.untouched (hkept.inode ▸ hedit.used no hno
        (Ne.symm hne)))).own
  · refine hE.wp_of_not hslot fun u s' hrun => ?_
    obtain ⟨c, s₂, hopen, hrun₁⟩ := Prog.bind_run.mp hrun
    rw [Prog.bind_of_run (Prog.get_run s₂)] at hrun₁
    obtain ⟨_, s₃, hassert, -⟩ := Prog.bind_run.mp hrun₁
    obtain ⟨hnum, -⟩ := assertFs_ok hassert
    unfold SlotSafe at hslot
    rcases inodeOpen_cases hopen with ⟨hmem, hcno, -⟩ | ⟨-, -, rfl⟩
    · have hsome : (findOpen s₁.inodes no s₁.openInodes).isSome = true :=
        isOpen_iff.mpr ⟨c, hmem, hcno⟩
      exact absurd (Or.inr (Or.inr (hiff.mp hsome))) hslot
    · rw [show ((s₁.writtenBack a).loaded c (diskInode (s₁.writtenBack a) no)).inodes c
        = { diskInode (s₁.writtenBack a) no with iOpenCnts := 1 } from withInode_self _ _ _] at hnum
      have hmod : p % 256 = no := by
        by_contra hmod
        exact hslot (.inr (.inl hmod))
      have hback := (hedit.slot_writtenBack hpno).iNo
      rw [hmod, hedit.iNo] at hback
      exact absurd (hpno.symm.trans ((congrArg UInt32.toNat hback).symm.trans hnum)) hne

end Taken

end ZyOs
