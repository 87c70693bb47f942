/-
A path is looked up by its names alone.

What `search_file` reports is where the walk along the names ends, so two texts with the same
names give the same number and type, as long as the text and the names the walk comes to fit
their buffers.  What is left are the texts answered in front of the loop: `/.` and `/..` mean
the root in the loop as well, but for a text of slashes alone the loop ends before anything was
looked up, and what it returns was on the stack.
-/
import ZyOs.Proofs.Walk

namespace ZyOs

open Library

variable {env : FsEnv} {s : Fs} {t : Tree} {path path' : List UInt8}

/-- An absolute path, as a string. -/
structure PathText (path : List UInt8) : Prop where
  head : path.head? = some slash
  text : 0 ∉ path

/-- What `search_file` reports of a path: the inode number and the file type, or what it
stopped with. -/
def lookupResult (env : FsEnv) (path : List UInt8) (s : Fs) : Except Halt (Int × UInt32) :=
  (searchFile env path s).map fun r => (r.1.1, r.1.2.fileType)

theorem lookupResult_of_run {no : Int} {r : PathSearchRecord} {s' : Fs}
    (hrun : searchFile env path s = .ok ((no, r), s')) :
    lookupResult env path s = .ok (no, r.fileType) := by
  rw [lookupResult, hrun]
  rfl

/-- The text is shorter than `MAX_PATH_LEN` and the names the walk comes to fit. -/
structure WalkFits (s : Fs) (path : List UInt8) : Prop where
  length : path.length < 512
  names : NamesFit s 0 (names path)

theorem WalkFits.searchable (h : WalkFits s path) (hp : PathText path) : Searchable s path :=
  .inr ⟨hp.head, h.length, h.names⟩

theorem Searchable.walkFits (h : Searchable s path) : WalkFits s path := by
  rcases h with (rfl | rfl | rfl) | ⟨-, hlen, hfit⟩
  · exact ⟨by decide, trivial⟩
  · exact ⟨by decide, namesFit_of_short (by decide)⟩
  · exact ⟨by decide, namesFit_of_short (by decide)⟩
  · exact ⟨hlen, hfit⟩

section Tree

variable (h : DirTree s t) (hc : Cache s) (hp : PathText path)
include h hc hp

/-- What does not fit is not looked up. -/
theorem DirTree.lookup_fits {res : Int × UInt32} (hres : lookupResult env path s = .ok res) :
    WalkFits s path := by
  cases hrun : searchFile env path s with
  | error e =>
      rw [lookupResult, hrun] at hres
      cases hres
  | ok r =>
      have hwp : Prog.wp (fun _ => True) _ _ _ :=
        h.wp_searchFile env hc hp.text (.inr fun _ => trivial)
      exact (hwp.of_run hrun).1.walkFits

/-- A path with a name, or `/`, leads to where the walk along its names ends. -/
theorem DirTree.lookup_walk (env : FsEnv) (hfit : WalkFits s path)
    (hnamed : names path ≠ [] ∨ path = [slash]) : lookupResult env path s =
      .ok ((walk s 0 0 (names path)).result, (walk s 0 0 (names path)).fileType) := by
  obtain ⟨no, r, s', hrun, hfound⟩ := h.searchFile_found env hc hp.text (hfit.searchable hp)
  have hrep := hfound.named hnamed
  rw [lookupResult_of_run hrun, hrep.result, hrep.fileType]

/-- A text of slashes alone: one slash is the root, and for more the loop ends at once. -/
theorem DirTree.lookup_slashes (env : FsEnv) (hfit : WalkFits s path) (hnames : names path = []) :
    lookupResult env path s = .ok (if path = [slash] then 0 else int32 env.junk.toNat,
      ftDirectory) := by
  by_cases hroot : path = [slash]
  · rw [h.lookup_walk hc hp env hfit (.inr hroot), if_pos hroot, hnames]
    rfl
  · obtain ⟨no, r, s', hrun, hfound⟩ := h.searchFile_found env hc hp.text (hfit.searchable hp)
    obtain ⟨hno, hty, -⟩ := hfound.slashes hnames hroot
    rw [lookupResult_of_run hrun, if_neg hroot, hno, hty]

end Tree

/-- Two paths are both looked up, with the same answer, and a path without a name is the root. -/
structure SameLookup (env : FsEnv) (path path' : List UInt8) (s : Fs) : Prop where
  same : ∃ no fileType, lookupResult env path s = .ok (no, fileType) ∧
    lookupResult env path' s = .ok (no, fileType)
  root : names path = [] → lookupResult env path s = .ok (0, ftDirectory)

theorem int32_junk {junk : UInt32} : int32 junk.toNat = 0 ↔ junk = 0 := by
  rw [← UInt32.toNat_inj, UInt32.toNat_zero]
  exact Bitmap.int32_eq_zero junk.toNat_lt

/-- When a text of slashes alone is the root. -/
theorem slashes_root {junk : UInt32} :
    (if path = [slash] then 0 else int32 junk.toNat) = 0 ↔ path = [slash] ∨ junk = 0 := by
  by_cases hp : path = [slash]
  · simp [hp]
  · simp [hp, int32_junk]

/-- **Two paths with the same names are looked up alike, and a path without a name as the root,
if and only if both fit and neither is of slashes alone, more than one, while the stack holds a
number other than 0.** -/
theorem path_lookup_iff (env : FsEnv) (s : Fs) (t : Tree) (path path' : List UInt8)
    (h : DirTree s t) (hc : Cache s) (hp : PathText path) (hp' : PathText path')
    (hnames : names path = names path') : SameLookup env path path' s ↔
      (WalkFits s path ∧ WalkFits s path') ∧
      (names path ≠ [] ∨ (path = [slash] ∧ path' = [slash]) ∨ env.junk = 0) := by
  have hfits : SameLookup env path path' s → WalkFits s path ∧ WalkFits s path' := by
    rintro ⟨⟨no, ty, hres, hres'⟩, -⟩
    exact ⟨h.lookup_fits hc hp hres, h.lookup_fits hc hp' hres'⟩
  suffices hsame : WalkFits s path → WalkFits s path' → (SameLookup env path path' s ↔
      names path ≠ [] ∨ (path = [slash] ∧ path' = [slash]) ∨ env.junk = 0) from
    ⟨fun hlook => ⟨hfits hlook, (hsame (hfits hlook).1 (hfits hlook).2).mp hlook⟩,
      fun hcond => (hsame hcond.1.1 hcond.1.2).mpr hcond.2⟩
  intro hfit hfit'
  by_cases hnil : names path = []
  · have hres := h.lookup_slashes hc hp env hfit hnil
    have hres' := h.lookup_slashes hc hp' env hfit' (hnames ▸ hnil)
    constructor
    · rintro ⟨⟨no, ty, hsame, hsame'⟩, hroot⟩
      have hno : no = 0 := congrArg Prod.fst (Except.ok.inj (hsame.symm.trans (hroot hnil)))
      have hone := congrArg Prod.fst (Except.ok.inj (hres.symm.trans hsame))
      have hone' := congrArg Prod.fst (Except.ok.inj (hres'.symm.trans hsame'))
      rcases slashes_root.mp (hone.trans hno) with hp | hj
      · rcases slashes_root.mp (hone'.trans hno) with hp' | hj
        · exact .inr (.inl ⟨hp, hp'⟩)
        · exact .inr (.inr hj)
      · exact .inr (.inr hj)
    · intro hcond
      have hcond := hcond.resolve_left fun hne => hne hnil
      rw [slashes_root.mpr (hcond.imp_left And.left)] at hres
      rw [slashes_root.mpr (hcond.imp_left And.right)] at hres'
      exact ⟨⟨0, ftDirectory, hres, hres'⟩, fun _ => hres⟩
  · have hres := h.lookup_walk hc hp env hfit (.inl hnil)
    have hres' := h.lookup_walk hc hp' env hfit' (.inl (hnames ▸ hnil))
    rw [← hnames] at hres'
    exact ⟨fun _ => .inl hnil, fun _ => ⟨⟨_, _, hres, hres'⟩, fun hn => absurd hn hnil⟩⟩

/-- `/f` and `//f/` in the small tree. -/
theorem path_lookup_small : SameLookup upwardEnv [47, 102] [47, 47, 102, 47] smallFs := by
  have hshort : ∀ n ∈ names [47, 102], n.length ≤ 15 := by decide
  exact (path_lookup_iff upwardEnv smallFs smallTree [47, 102] [47, 47, 102, 47] smallFs_tree
    smallFs_cache ⟨by decide, by decide⟩ ⟨by decide, by decide⟩ (by decide)).mpr
    ⟨⟨⟨by decide, namesFit_of_short hshort⟩, ⟨by decide, namesFit_of_short hshort⟩⟩,
      .inl (by decide)⟩

/-- A stack that held a 7. -/
def junkEnv : FsEnv := { upwardEnv with junk := 7 }

/-- `/` is the root, `//` is inode 7. -/
theorem path_lookup_slashes : DirTree smallFs smallTree ∧ Cache smallFs ∧
    PathText [47] ∧ PathText [47, 47] ∧ names [47] = names [47, 47] ∧
    ¬ SameLookup junkEnv [47] [47, 47] smallFs ∧
    lookupResult junkEnv [47, 47] smallFs = .ok (7, ftDirectory) := by
  have hp : PathText [47] := ⟨by decide, by decide⟩
  have hp' : PathText [47, 47] := ⟨by decide, by decide⟩
  have hn : names [47, 47] = [] := by decide
  have hfit : ∀ p, names p = [] → p.length < 512 → WalkFits smallFs p :=
    fun p hnames hlen => ⟨hlen, by rw [hnames]; trivial⟩
  have hres := smallFs_tree.lookup_slashes smallFs_cache hp junkEnv (hfit _ rfl (by decide)) rfl
  have hres' := smallFs_tree.lookup_slashes smallFs_cache hp' junkEnv (hfit _ hn (by decide)) hn
  refine ⟨smallFs_tree, smallFs_cache, hp, hp', hn.symm, fun hsame => ?_, hres'⟩
  obtain ⟨⟨no, ty, hone, htwo⟩, -⟩ := hsame
  have hzero := congrArg Prod.fst (Except.ok.inj (hres.symm.trans hone))
  have hseven := congrArg Prod.fst (Except.ok.inj (hres'.symm.trans htwo))
  exact absurd (hzero.trans hseven.symm) (by decide)

end ZyOs
