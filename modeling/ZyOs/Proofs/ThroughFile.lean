/-
Paths that go through a regular file.

`search_file` stops at the first regular file and says that it found it.  The calls that
create something compare the depths and the calls for directories look at the type, so
they refuse.  `sys_stat` takes the file for the one that was asked for, and so does
`sys_unlink`, which removes it unless somebody has it open.
-/
import ZyOs.Proofs.Getcwd

namespace ZyOs

open Library

/-- The calls that take a path. -/
inductive PathCall where
  | unlink
  | stat
  | chdir
  | rmdir
  | opendir
  | mkdir
  | «open» (flags : Nat)

/-- The call returns its failure value, in state `s'`. -/
def PathCall.Fails (env : FsEnv) (path : List UInt8) (s s' : Fs) : PathCall → Prop
  | .unlink => sysUnlink env path s = .ok (-1, s')
  | .stat => ∃ r, sysStat env path s = .ok (r, s') ∧ r.isNone
  | .chdir => sysChdir env path s = .ok (-1, s')
  | .rmdir => sysRmdir env path s = .ok (-1, s')
  | .opendir => sysOpendir env path s = .ok (none, s')
  | .mkdir => sysMkdir env path s = .ok (-1, s')
  | .open flags => sysOpen env path flags s = .ok (-1, s')

/-- The call fails and changes neither the disk nor the bitmaps, so neither the tree. -/
def PathCall.Refused (env : FsEnv) (path : List UInt8) (s : Fs) (c : PathCall) : Prop :=
  ∃ s', c.Fails env path s s' ∧ s'.disk = s.disk ∧
    s'.part.blockBitmap = s.part.blockBitmap ∧ s'.part.inodeBitmap = s.part.inodeBitmap ∧
    ∀ d, dirEntries s' d = dirEntries s d

/-- When a call refuses a path that goes through the file `no`. -/
def PathCall.Guarded (path : List UInt8) (s : Fs) (no : Nat) : PathCall → Prop
  | .unlink => path.length < 512 ∧ fileInUse s no = true
  | .stat => False
  | .open flags => path.getLast? = some slash ∨ (flags ≤ 7 ∧ path.length < 512)
  | _ => path.length < 512

variable {α : Type} {env : FsEnv} {s s₁ : Fs} {t : Tree} {path : List UInt8}

/-! ### Walks that stop -/

/-- The names a walk does not get to are the last ones. -/
theorem walk_rest (s : Fs) : ∀ (ns : List (List UInt8)) (d p : Nat),
    ∃ pre, ns = pre ++ (walk s d p ns).rest ∧
      ((walk s d p ns).fileType ≠ ftDirectory → pre ≠ []) := by
  intro ns
  induction ns with
  | nil => exact fun d p => ⟨[], rfl, fun h => absurd rfl h⟩
  | cons n ns ih =>
      intro d p
      rw [walk]
      cases look s d n with
      | none => exact ⟨[n], rfl, by simp⟩
      | some e =>
          by_cases hty : e.fType = ftDirectory
          · obtain ⟨pre, hpre, -⟩ := ih e.iNo d
            refine ⟨n :: pre, ?_, by simp⟩
            simp only [hty, if_true, List.cons_append]
            rw [← hpre]
          · exact ⟨[n], by simp [hty, Walk.rest], by simp⟩

/-- The depth of the path that was searched. -/
theorem Reports.depth {no : Int} {r : PathSearchRecord} (hp : ∀ n ∈ names path, n.length ≤ 16)
    (h : Reports s (joined slash (names path)) (walk s 0 0 (names path)) no r s₁)
    (hty : (walk s 0 0 (names path)).fileType ≠ ftDirectory) :
    pathDepthCnt r.searchedPath
      = .ok ((names path).length - (walk s 0 0 (names path)).rest.length) := by
  obtain ⟨pre, hpre, hne⟩ := walk_rest s (names path) 0 0
  have hmem : ∀ n ∈ pre, n ∈ names path := fun n hn => by rw [hpre]; simp [hn]
  have hsearched := h.searched hty
  have hjoin : r.searchedPath = joined slash pre := by
    have hsplit : joined slash (names path)
        = joined slash pre ++ joined slash (walk s 0 0 (names path)).rest := by
      rw [← joined_append, ← hpre]
    exact List.append_cancel_right (hsearched.trans hsplit)
  have hnames : names r.searchedPath = pre := by
    rw [hjoin]
    exact parts_joined fun n hn => ⟨names_ne_nil (hmem n hn),
      fun hs => (mem_of_mem_parts path n slash (hmem n hn) hs).2 rfl⟩
  rw [pathDepthCnt_run (by rw [hnames]; exact hne hty) (by
    rw [hnames]
    exact fun n hn => hp n (hmem n hn)), hnames]
  congr 1
  have := congrArg List.length hpre
  rw [List.length_append] at this
  omega

/-- The path goes through the regular file `no`, which lies in `dir`. -/
structure ThroughFile (s : Fs) (path : List UInt8) (no dir : Nat) (rest : List (List UInt8)) :
    Prop where
  head : path.head? = some slash
  text : 0 ∉ path
  short : ∀ n ∈ names path, n.length ≤ 15
  walk : walk s 0 0 (names path) = .file no dir rest
  more : rest ≠ []

variable {no dir : Nat} {rest : List (List UInt8)}

namespace ThroughFile

theorem named (h : ThroughFile s path no dir rest) : names path ≠ [] := fun hn => by
  have := h.walk
  rw [hn] at this
  cases this

theorem absPath (h : ThroughFile s path no dir rest) (hlen : path.length < 512) : AbsPath path :=
  ⟨h.head, h.text, hlen, h.short, .inl h.named⟩

theorem two_names (h : ThroughFile s path no dir rest) : 2 ≤ (names path).length := by
  obtain ⟨pre, hpre, hne⟩ := walk_rest s (names path) 0 0
  rw [h.walk] at hpre hne
  have h1 := List.length_pos_of_ne_nil (hne (Walk.file_ne _ _ _))
  have h2 := List.length_pos_of_ne_nil h.more
  have := congrArg List.length hpre
  rw [List.length_append] at this
  simp only [Walk.rest] at this
  omega

theorem not_root (h : ThroughFile s path no dir rest) :
    ¬ (path = [slash] ∨ path = [slash, 46] ∨ path = [slash, 46, 46]) := by
  have := h.two_names
  rintro (rfl | rfl | rfl)
  · simp [names_root] at this
  · simp [names_dot] at this
  · simp [names_dotdot] at this

/-- The number is one of a file. -/
theorem file_mem (h : ThroughFile s path no dir rest) (ht : DirTree s t) : no ∈ t.files :=
  ht.walk_file (fun _ hn => names_ne_nil hn) ht.root h.walk

variable (env) in
/-- `search_file` finds the file. -/
theorem search (h : ThroughFile s path no dir rest) (ht : DirTree s t) (hc : Cache s)
    (hlen : path.length < 512) : ∃ r s₁, searchFile env path s = .ok ((no, r), s₁) ∧
      r.fileType = ftRegular ∧ Held s s₁ r.parentDir.opens ∧
      pathDepthCnt r.searchedPath = .ok ((names path).length - rest.length) := by
  have hp := h.absPath hlen
  obtain ⟨i, r, s₁, hrun, hrep⟩ := ht.searchFile_run env hc hp
  have hdepth := hrep.depth (fun n hn => (hp.short n hn).trans (by omega))
    (by rw [h.walk]; exact Walk.file_ne _ _ _)
  have hno := hrep.result
  have hty := hrep.fileType
  rw [h.walk] at hdepth hno hty
  rw [hno] at hrun
  exact ⟨r, s₁, hrun, hty, hrep.held, hdepth⟩

variable (env) in
/-- `search_file` does not return for a path that is too long. -/
theorem search_long (h : ThroughFile s path no dir rest) (hlen : ¬ path.length < 512) :
    ∃ e, searchFile env path s = .error e := by
  rw [searchFile, if_neg (fun hcmp => h.not_root ((isRootPath h.text).mp hcmp))]
  refine ⟨_, Prog.bind_of_error (e := ?_) ?_⟩
  · exact .panic "search_file" "pathname[0] == '/' && path_len > 1 && path_len < MAX_PATH_LEN"
  · rw [assertFs, ASSERT_neg (fun hc => hlen hc.2.2)]
    rfl

theorem number (h : ThroughFile s path no dir rest) (ht : DirTree s t) :
    (no : Int) ≠ 0 ∧ (no : Int) ≠ -1 ∧ (u32 (no : Int)).toNat = no := by
  have hmem := h.file_mem ht
  refine ⟨fun h0 => ?_, by omega, toNat_u32 (by have := (ht.isFile hmem).1; omega)⟩
  have h0 : no = 0 := by omega
  exact Finset.disjoint_left.mp ht.apart ht.root (h0 ▸ hmem)

end ThroughFile

/-! ### The calls -/

/-- Closing the directory of the record undoes the search. -/
theorem Held.finish {r : PathSearchRecord} (h : Held s s₁ r.parentDir.opens) (hc : Cache s) :
    ∃ s', ZyOs.dirClose r.parentDir s₁ = .ok ((), s') ∧ s'.disk = s.disk ∧
      s'.part.blockBitmap = s.part.blockBitmap ∧ s'.part.inodeBitmap = s.part.inodeBitmap ∧
      ∀ d, dirEntries s' d = dirEntries s d := by
  obtain ⟨s', hclose, _, hop⟩ := Held.dirClose ((List.append_nil r.parentDir.opens).symm ▸ h) hc
  refine ⟨s', hclose, hop.disk, by rw [hop.part], by rw [hop.part], fun d => ?_⟩
  rw [dirEntries, dirEntries, diskInode_congr hop.disk hop.part, hop.disk]

/-- Who has which file open does not change. -/
theorem Held.fileInUse {held : List Nat} (h : Held s s₁ held) (hc : Cache s) (no : Nat) :
    fileInUse s₁ no = fileInUse s no := by
  obtain ⟨new, hop⟩ := h
  unfold ZyOs.fileInUse
  rw [Bool.eq_iff_iff, List.any_eq_true, List.any_eq_true]
  refine exists_congr fun g => and_congr_right fun hg => ?_
  rw [hop.fileTable]
  cases hf : (s.fileTable g).fdInode with
  | none => exact Iff.rfl
  | some a =>
      have := hop.kept a (hc.heap a (hc.files g (List.mem_range.mp hg) a hf))
      simp only [this]

section Calls

variable (h : ThroughFile s path no dir rest) (ht : DirTree s t) (hc : Cache s)
include h ht hc

theorem unlink_refused (hg : PathCall.unlink.Guarded path s no) :
    PathCall.unlink.Refused env path s := by
  obtain ⟨hlen, huse⟩ := hg
  obtain ⟨r, s₁, hrun, hty, hheld, -⟩ := h.search env ht hc hlen
  obtain ⟨h0, h1, hu⟩ := h.number ht
  obtain ⟨s', hclose, hkeep⟩ := hheld.finish hc
  refine ⟨s', ?_, hkeep⟩
  show sysUnlink env path s = .ok (-1, s')
  rw [sysUnlink, Prog.bind_of_run (assertFs_run (show path.length < maxPathLen from hlen) _ _ s),
    Prog.bind_of_run hrun]
  simp only [hty]
  rw [Prog.bind_of_run (assertFs_run h0 _ _ s₁), if_neg h1, if_neg (by decide),
    Prog.bind_of_run (Prog.get_run s₁), hu, if_pos (by rw [hheld.fileInUse hc]; exact huse),
    Prog.bind_of_run hclose, Prog.pure_run]

theorem chdir_refused (hlen : path.length < 512) : PathCall.chdir.Refused env path s := by
  obtain ⟨r, s₁, hrun, hty, hheld, -⟩ := h.search env ht hc hlen
  obtain ⟨s', hclose, hkeep⟩ := hheld.finish hc
  refine ⟨s', ?_, hkeep⟩
  show sysChdir env path s = .ok (-1, s')
  rw [sysChdir, Prog.bind_of_run hrun]
  simp only [hty]
  rw [if_neg (by rintro ⟨-, hd⟩; exact absurd hd (by decide)), Prog.bind_of_run hclose,
    Prog.pure_run]

theorem rmdir_refused (hlen : path.length < 512) : PathCall.rmdir.Refused env path s := by
  obtain ⟨r, s₁, hrun, hty, hheld, -⟩ := h.search env ht hc hlen
  obtain ⟨h0, h1, -⟩ := h.number ht
  obtain ⟨s', hclose, hkeep⟩ := hheld.finish hc
  refine ⟨s', ?_, hkeep⟩
  show sysRmdir env path s = .ok (-1, s')
  rw [sysRmdir, Prog.bind_of_run hrun]
  simp only [hty]
  rw [Prog.bind_of_run (assertFs_run h0 _ _ s₁), if_neg h1, if_pos trivial, Prog.bind_of_run hclose,
    Prog.pure_run]

theorem opendir_refused (hlen : path.length < 512) : PathCall.opendir.Refused env path s := by
  obtain ⟨r, s₁, hrun, hty, hheld, -⟩ := h.search env ht hc hlen
  obtain ⟨-, h1, -⟩ := h.number ht
  obtain ⟨s', hclose, hkeep⟩ := hheld.finish hc
  have hlong : ¬ (path.head? = some slash ∧ (path.length = 1 ∨ path.head? = some 46)) := by
    rintro ⟨hhead, hone | hdot⟩
    · exact h.not_root (.inl (by
        obtain ⟨x, rfl⟩ := List.length_eq_one_iff.mp hone
        simpa using hhead))
    · rw [hhead] at hdot
      exact absurd hdot (by decide)
  refine ⟨s', ?_, hkeep⟩
  show sysOpendir env path s = .ok (none, s')
  rw [sysOpendir, Prog.bind_of_run (assertFs_run (show path.length < maxPathLen from hlen) _ _ s),
    if_neg hlong, Prog.bind_of_run hrun]
  simp only [hty]
  rw [if_neg h1, if_neg (by decide), Prog.bind_of_run hclose, Prog.pure_run]

theorem mkdir_refused (hlen : path.length < 512) : PathCall.mkdir.Refused env path s := by
  obtain ⟨r, s₁, hrun, hty, hheld, -⟩ := h.search env ht hc hlen
  obtain ⟨-, h1, -⟩ := h.number ht
  obtain ⟨s', hclose, hkeep⟩ := hheld.finish hc
  refine ⟨s', ?_, hkeep⟩
  show sysMkdir env path s = .ok (-1, s')
  rw [sysMkdir, Prog.bind_of_run hrun]
  simp only []
  rw [if_pos h1, Prog.bind_of_run hclose, Prog.pure_run]

theorem open_refused {flags : Nat} (hg : (PathCall.open flags).Guarded path s no) :
    (PathCall.open flags).Refused env path s := by
  have hne : path ≠ [] := fun hn => by simpa [hn] using h.head
  have hplan : ∃ s', openPlan env path flags s = .ok (.refuse, s') ∧ s'.disk = s.disk ∧
      s'.part.blockBitmap = s.part.blockBitmap ∧ s'.part.inodeBitmap = s.part.inodeBitmap ∧
      ∀ d, dirEntries s' d = dirEntries s d := by
    rw [openPlan, if_neg hne]
    by_cases hlast : path.getLast? = some slash
    · exact ⟨s, by rw [if_pos hlast, Prog.pure_run], rfl, rfl, rfl, fun _ => rfl⟩
    · obtain ⟨hflags, hlen⟩ := hg.resolve_left hlast
      obtain ⟨r, s₁, hrun, hty, hheld, hdepth⟩ := h.search env ht hc hlen
      obtain ⟨s', hclose, hkeep⟩ := hheld.finish hc
      refine ⟨s', ?_, hkeep⟩
      have hcount : pathDepthCnt path = .ok (names path).length :=
        pathDepthCnt_run h.named fun n hn => by have := h.short n hn; omega
      have hless : (names path).length ≠ (names path).length - rest.length := by
        have := h.two_names
        have := List.length_pos_of_ne_nil h.more
        omega
      rw [if_neg hlast, Prog.bind_of_run (assertFs_run hflags _ _ s),
        Prog.bind_of_run (Prog.lift_run.mpr ⟨hcount, rfl⟩), Prog.bind_of_run hrun]
      simp only [hty]
      rw [if_neg (by decide), Prog.bind_of_run (Prog.lift_run.mpr ⟨hdepth, rfl⟩), if_pos hless,
        Prog.bind_of_run hclose, Prog.pure_run]
  obtain ⟨s', hrun, hkeep⟩ := hplan
  refine ⟨s', ?_, hkeep⟩
  show sysOpen env path flags s = .ok (-1, s')
  rw [sysOpen, Prog.bind_of_run hrun]
  rfl

/-- `sys_unlink` does not fail when nobody has the file open. -/
theorem unlink_succeeds (huse : ¬ fileInUse s no = true) {s' : Fs} :
    sysUnlink env path s ≠ .ok (-1, s') := by
  intro hcall
  obtain ⟨_, s₀, hassert, hrun⟩ := Prog.bind_run.mp hcall
  clear hcall
  obtain ⟨hlen, rfl⟩ := assertFs_ok hassert
  obtain ⟨r, s₁, hsearch, hty, hheld, -⟩ := h.search env ht hc hlen
  obtain ⟨h0, h1, hu⟩ := h.number ht
  rw [Prog.bind_of_run hsearch] at hrun
  simp only [hty] at hrun
  rw [Prog.bind_of_run (assertFs_run h0 _ _ s₁), if_neg h1, if_neg (by decide),
    Prog.bind_of_run (Prog.get_run s₁), hu, if_neg (by rw [hheld.fileInUse hc]; exact huse),
    Prog.bind_of_run (Prog.get_run s₁)] at hrun
  obtain ⟨_, s₂, -, hrun⟩ := Prog.bind_run.mp hrun
  obtain ⟨_, s₃, -, hrun⟩ := Prog.bind_run.mp hrun
  obtain ⟨_, s₄, -, hrun⟩ := Prog.bind_run.mp hrun
  simp at hrun

/-- `sys_stat` does not fail. -/
theorem stat_succeeds : ¬ PathCall.stat.Refused env path s := by
  rintro ⟨s', ⟨x, hrun, hx⟩, -⟩
  rw [sysStat, if_neg (fun hcmp => h.not_root ((isRootPath h.text).mp hcmp))] at hrun
  by_cases hlen : path.length < 512
  · obtain ⟨r, s₁, hsearch, -⟩ := h.search env ht hc hlen
    obtain ⟨-, h1, -⟩ := h.number ht
    rw [Prog.bind_of_run hsearch] at hrun
    simp only [] at hrun
    rw [if_neg h1] at hrun
    obtain ⟨_, s₂, -, hrun⟩ := Prog.bind_run.mp hrun
    obtain ⟨_, s₃, -, hrun⟩ := Prog.bind_run.mp hrun
    obtain ⟨_, s₄, -, hrun⟩ := Prog.bind_run.mp hrun
    obtain ⟨_, s₅, -, hrun⟩ := Prog.bind_run.mp hrun
    rw [Prog.pure_run, Except.ok.injEq, Prod.mk.injEq] at hrun
    rw [← hrun.1] at hx
    cases hx
  · obtain ⟨e, herr⟩ := h.search_long env hlen
    rw [Prog.bind_of_error herr] at hrun
    cases hrun

end Calls

/-- A call that is refused was short enough for `search_file`. -/
theorem short_of_search {x : Int × PathSearchRecord → FsM α} (h : ThroughFile s path no dir rest)
    {r : α × Fs} (hrun : (searchFile env path >>= x) s = .ok r) : path.length < 512 := by
  by_contra hlen
  obtain ⟨e, herr⟩ := h.search_long env hlen
  rw [Prog.bind_of_error herr] at hrun
  cases hrun

theorem smallFs_through : ThroughFile smallFs [47, 102, 47, 120] 2 0 [[120]] where
  head := rfl
  text := by decide
  short := by decide
  walk := by decide +kernel
  more := by decide

end ZyOs
