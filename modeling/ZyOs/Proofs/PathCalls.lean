/-
Paths as a user passes them, in the seven calls that take one.

A call must come back, and with its failure value unless the path names what the call is for.
`Safe` is when it does: the search comes to an end, the number it ends with is one the call can go
on with, and what the call then takes out or puts in can be taken out or put in.
-/
import ZyOs.Proofs.PathEnds

namespace ZyOs

open Library

/-- The call; the answer is whether it succeeds. -/
def PathCall.run (env : FsEnv) (path : List UInt8) : PathCall → FsM Bool
  | .unlink => do return (← sysUnlink env path) ≠ -1
  | .stat => do return (← sysStat env path).isSome
  | .chdir => do return (← sysChdir env path) ≠ -1
  | .rmdir => do return (← sysRmdir env path) ≠ -1
  | .opendir => do return (← sysOpendir env path).isSome
  | .mkdir => do return (← sysMkdir env path) ≠ -1
  | .open flags => do return (← sysOpen env path flags) ≠ -1

/-- The call is for what is at the end of the walk. -/
def PathCall.Takes (s : Fs) : PathCall → Walk → Prop
  | .unlink, .file no _ rest => rest = [] ∧ fileInUse s no = false
  | .stat, .file _ _ rest => rest = []
  | .stat, .directory _ _ | .chdir, .directory _ _ | .opendir, .directory _ _ => True
  | .rmdir, .directory no _ => no ≠ 0 ∧ (diskInode s no).iSize = 48
  | .mkdir, .missing _ rest => rest = []
  | .open flags, .file _ _ rest => rest = [] ∧ flags &&& oCreat = 0
  | .open flags, .missing _ rest => rest = [] ∧ flags &&& oCreat ≠ 0
  | _, _ => False

/-- An absolute path of something the call is for. -/
structure PathCall.Usable (s : Fs) (path : List UInt8) (c : PathCall) : Prop where
  absolute : path.head? = some slash
  short : path.length < maxPathLen
  object : c.Takes s (walk s 0 0 (names path))

/-- A directory with its first block only. -/
def OneBlock (n : Inode) : Prop := ∀ k, 1 ≤ k → k < 13 → n.sector k = 0

/-- The call can go on from where the search ended. -/
def PathCall.SafeAt (s : Fs) (path : List UInt8) : PathCall → Walk → Prop
  | .stat, .file _ _ rest => rest = []
  | .stat, .directory no _ | .opendir, .directory no _ => no < 4096 ∨ no = 2 ^ 32 - 1
  | .unlink, .file no d rest => fileInUse s no = true ∨
      rest = [] ∧ Removable s.disk (diskInode s d) no ∧ SlotSafe s d no
  | .unlink, .directory no _ => no ≠ 0
  | .rmdir, .directory no p => no = 2 ^ 32 - 1 ∨ no ≠ 0 ∧ no < 4096 ∧
      ((diskInode s no).iSize ≠ 48 ∨
        names path ≠ [] ∧ OneBlock (diskInode s no) ∧ Removable s.disk (diskInode s p) no)
  | .mkdir, .missing d rest => (∀ n ∈ names path, n.length ≤ 16) ∧
      (rest = [] → RoomForDir s (diskInode s d))
  | .mkdir, .directory no _ => no ≠ 2 ^ 32 - 1
  | .open flags, .missing d rest => rest = [] → flags &&& oCreat ≠ 0 →
      RoomForFile s (diskInode s d)
  | _, _ => True

/-- The call comes back as it should. -/
def PathCall.Safe (env : FsEnv) (s : Fs) (path : List UInt8) : PathCall → Prop
  | .open flags => path ≠ [] ∧ (path.getLast? = some slash ∨ flags ≤ 7 ∧
      (∀ n ∈ names path, n.length ≤ 16) ∧ Searchable s path ∧
      (PathCall.open flags).SafeAt s path (endsAt env s path))
  | c => Searchable s path ∧ c.SafeAt s path (endsAt env s path)

/-- The answer is no success on an unusable path, and that is so when the call is safe. -/
def PathCall.Fair (env : FsEnv) (s : Fs) (path : List UInt8) (c : PathCall) (ok : Bool) : Prop :=
  (ok = true → c.Usable s path) ↔ c.Safe env s path

variable {E : Halt → Prop} {env : FsEnv} {s s' : Fs} {t : Tree} {path : List UInt8}
  {a d no p : Nat} {rest : List (List UInt8)} {c : PathCall}

theorem PathCall.fair_failed (h : c.Safe env s path) : c.Fair env s path false :=
  ⟨fun _ => h, fun _ hc => absurd hc (by simp)⟩

theorem PathCall.fair_done {ok : Bool} (h : c.Safe env s path) (hu : c.Usable s path) :
    c.Fair env s path ok := ⟨fun _ => h, fun _ _ => hu⟩

theorem PathCall.fair_wrong (h : ¬ c.Safe env s path) (hu : ¬ c.Usable s path) :
    c.Fair env s path true := ⟨fun hc => absurd (hc rfl) hu, fun hc => absurd hc h⟩

theorem Searchable.usable (hs : Searchable s path) (h : c.Takes s (walk s 0 0 (names path))) :
    c.Usable s path := ⟨hs.absolute.1, hs.absolute.2, h⟩

/-- `dir_close`, then the answer. -/
theorem wp_closed {α : Type} {dir : DirPtr} {x : α} {Q : α → Fs → Prop} (h : ∀ s', Q x s') :
    Prog.wp E (do dirClose dir; return x) Q s :=
  Prog.wp_bind (wp_dirClose fun _ _ _ => Prog.wp_pure (h _))

theorem wp_assertGranted {b : Prop} [Decidable b] {func condition : String}
    (hE : Prog.Granted E b) {Q : Unit → Fs → Prop} (h : b → Q () s) :
    Prog.wp E (assertFs b func condition) Q s := by
  by_cases hb : b
  · exact wp_assert hb (h hb)
  · exact hE.wp_of_not hb fun _ _ hrun => absurd (assertFs_ok hrun).1 hb

section Calls

variable (h : Orderly s t) (hc : Cache s) (htext : 0 ∉ path)
include h hc htext

/-! ### Calls that only look -/

theorem Orderly.wp_chdir (hE : Prog.Granted E (PathCall.chdir.Safe env s path)) :
    Prog.wp E (sysChdir env path)
      (fun r _ => PathCall.chdir.Fair env s path (r ≠ -1)) s := by
  refine Prog.wp_bind (h.tree.wp_search env hc htext (hE.imp And.left) fun hs no r s' hend => ?_)
  cases hw : endsAt env s path with
  | missing d rest =>
      rw [hw] at hend
      have hsafe : PathCall.chdir.Safe env s path := ⟨hs, by rw [hw]; trivial⟩
      refine Prog.wp_ite (fun hd => absurd (hend.missing d rest rfl) hd.1) fun _ => ?_
      exact wp_closed fun _ => PathCall.fair_failed hsafe
  | file n d rest =>
      rw [hw] at hend
      have hsafe : PathCall.chdir.Safe env s path := ⟨hs, by rw [hw]; trivial⟩
      refine Prog.wp_ite (fun hd => absurd (hend.fileType.symm.trans hd.2)
        (Walk.file_ne n d rest)) fun _ => ?_
      exact wp_closed fun _ => PathCall.fair_failed hsafe
  | directory n p =>
      have hsafe : PathCall.chdir.Safe env s path := ⟨hs, by rw [hw]; trivial⟩
      refine Prog.wp_ite (fun _ => ?_) fun _ => wp_closed fun _ => PathCall.fair_failed hsafe
      refine Prog.wp_bind (Prog.wp_modify (wp_closed fun _ => ?_))
      obtain ⟨n', p', hwalk⟩ := walk_of_directory hw
      exact PathCall.fair_done hsafe (hs.usable (by rw [hwalk]; trivial))

theorem Orderly.wp_stat (hE : Prog.Granted E (PathCall.stat.Safe env s path)) :
    Prog.wp E (sysStat env path) (fun r _ => PathCall.stat.Fair env s path r.isSome) s := by
  rw [sysStat]
  by_cases hshort : IsShortcut path
  · have hw := h.tree.ends_shortcut env hshort
    have hs : Searchable s path := .inl hshort
    have hsafe : PathCall.stat.Safe env s path := ⟨hs, by rw [hw]; exact .inl (by decide)⟩
    obtain ⟨n', p', hwalk⟩ := walk_of_directory hw
    rw [if_pos ((isRootPath htext).mpr hshort)]
    exact Prog.wp_get_bind (Prog.wp_pure
      (PathCall.fair_done hsafe (hs.usable (by rw [hwalk]; trivial))))
  rw [if_neg fun hcmp => hshort ((isRootPath htext).mp hcmp)]
  refine Prog.wp_bind (h.tree.wp_search env hc htext (hE.imp And.left) fun hs no r s' hend => ?_)
  have hcache := hend.held.cache hc
  have hfit := (hend.held.tree hc h.tree).table
  cases hw : endsAt env s path with
  | missing d rest =>
      rw [hw] at hend
      refine Prog.wp_ite (fun _ => ?_) fun hn => absurd (hend.missing d rest rfl) hn
      exact wp_closed fun _ => PathCall.fair_failed ⟨hs, by rw [hw]; trivial⟩
  | file n d rest =>
      rw [hw] at hend
      have hno := hend.file n d rest rfl
      have hn := h.tree.isFile (h.tree.walk_file (fun _ hn => names_ne_nil hn) h.tree.root
        (walk_of_file hw))
      refine Prog.wp_ite (fun hneg => absurd hneg (by omega)) fun _ => ?_
      rw [hno, toNat_u32 (by have := hn.1; omega)]
      refine Prog.wp_bind (hcache.wp_inodeOpen env hfit (.of hn.1) fun a s₁ _ _ _ => ?_)
      refine Prog.wp_get_bind (Prog.wp_bind (Prog.wp_of_run (inodeClose_run a s₁)
        (wp_closed fun _ => ?_)))
      by_cases hrest : rest = []
      · exact PathCall.fair_done ⟨hs, by rw [hw]; exact hrest⟩
          (hs.usable (by rw [walk_of_file hw]; exact hrest))
      · refine PathCall.fair_wrong (fun hsafe => hrest ?_) fun hu => hrest ?_
        · have := hsafe.2
          rwa [hw] at this
        · have := hu.object
          rwa [walk_of_file hw] at this
  | directory n p =>
      rw [hw] at hend
      obtain ⟨hno, hn⟩ := hend.directory n p rfl
      obtain ⟨n', p', hwalk⟩ := walk_of_directory hw
      rw [hno]
      refine Prog.wp_ite (fun hneg => ?_) fun hneg => ?_
      · have hlast : n = 2 ^ 32 - 1 := (Bitmap.int32_eq_neg hn).mp hneg
        exact wp_closed fun _ => PathCall.fair_failed ⟨hs, by rw [hw]; exact .inr hlast⟩
      · have hlast : n ≠ 2 ^ 32 - 1 := fun hc => hneg ((Bitmap.int32_eq_neg hn).mpr hc)
        rw [u32_int32 hn]
        refine Prog.wp_bind (hcache.wp_inodeOpen env hfit (hE.imp fun hsafe => ?_)
          fun a s₁ hlt _ _ => ?_)
        · have := hsafe.2
          rw [hw] at this
          exact this.resolve_right hlast
        · refine Prog.wp_get_bind (Prog.wp_bind (Prog.wp_of_run (inodeClose_run a s₁)
            (wp_closed fun _ => ?_)))
          exact PathCall.fair_done ⟨hs, by rw [hw]; exact .inl hlt⟩
            (hs.usable (by rw [hwalk]; trivial))

theorem Orderly.wp_opendir (hE : Prog.Granted E (PathCall.opendir.Safe env s path)) :
    Prog.wp E (sysOpendir env path) (fun r _ => PathCall.opendir.Fair env s path r.isSome) s := by
  refine Prog.wp_bind (wp_assertGranted (hE.imp fun hsafe => hsafe.1.absolute.2) fun _ => ?_)
  refine Prog.wp_ite (fun hroot => Prog.wp_pure ?_) fun _ => ?_
  · obtain ⟨hhead, hone | hdot⟩ := hroot
    · obtain ⟨x, rfl⟩ := List.length_eq_one_iff.mp hone
      obtain rfl : x = slash := by simpa using hhead
      have hs : Searchable s [slash] := .inl (.inl rfl)
      exact PathCall.fair_done ⟨hs, .inl (by decide)⟩ (hs.usable trivial)
    · rw [hhead] at hdot
      exact absurd hdot (by decide)
  refine Prog.wp_bind (h.tree.wp_search env hc htext (hE.imp And.left) fun hs no r s' hend => ?_)
  have hcache := hend.held.cache hc
  have hfit := (hend.held.tree hc h.tree).table
  cases hw : endsAt env s path with
  | missing d rest =>
      rw [hw] at hend
      refine Prog.wp_ite (fun _ => ?_) fun hn => absurd (hend.missing d rest rfl) hn
      exact wp_closed fun _ => PathCall.fair_failed ⟨hs, by rw [hw]; trivial⟩
  | file n d rest =>
      rw [hw] at hend
      have hno := hend.file n d rest rfl
      refine Prog.wp_ite (fun hneg => absurd hneg (by omega)) fun _ => ?_
      refine Prog.wp_ite (fun hd => absurd (hend.fileType.symm.trans hd) (Walk.file_ne n d rest))
        fun _ => ?_
      exact wp_closed fun _ => PathCall.fair_failed ⟨hs, by rw [hw]; trivial⟩
  | directory n p =>
      rw [hw] at hend
      obtain ⟨hno, hn⟩ := hend.directory n p rfl
      obtain ⟨n', p', hwalk⟩ := walk_of_directory hw
      rw [hno]
      refine Prog.wp_ite (fun hneg => ?_) fun hneg => ?_
      · have hlast : n = 2 ^ 32 - 1 := (Bitmap.int32_eq_neg hn).mp hneg
        exact wp_closed fun _ => PathCall.fair_failed ⟨hs, by rw [hw]; exact .inr hlast⟩
      · have hlast : n ≠ 2 ^ 32 - 1 := fun hc => hneg ((Bitmap.int32_eq_neg hn).mpr hc)
        refine Prog.wp_ite (fun _ => ?_) fun hd => absurd hend.fileType hd
        rw [u32_int32 hn]
        refine Prog.wp_bind (Prog.wp_bind (hcache.wp_inodeOpen env hfit
          (hE.imp fun hsafe => ?_) fun a s₁ hlt _ _ => Prog.wp_pure (wp_closed fun _ => ?_)))
        · have := hsafe.2
          rw [hw] at this
          exact this.resolve_right hlast
        · exact PathCall.fair_done ⟨hs, by rw [hw]; exact .inl hlt⟩
            (hs.usable (by rw [hwalk]; trivial))

/-! ### `sys_unlink` -/

omit htext in
/-- `sys_unlink` from where the file `no` was found in the directory `d`. -/
theorem Orderly.wp_unlinkFound {dir : DirPtr} (hheld : Held s s' dir.opens) (hd : d ∈ t.dirs)
    (hsame : Inode.Same (s'.inodes (dir.inode s')) (diskInode s d)) (hno : no ∈ t.files)
    (hin : ∃ e ∈ dirEntries s d, Proper e.name ∧ e.iNo = no)
    (hE : Prog.Granted E (Removable s.disk (diskInode s d) no ∧ SlotSafe s d no))
    {Q : Int → Fs → Prop}
    (hQ : Removable s.disk (diskInode s d) no → SlotSafe s d no → ∀ s₁, Q 0 s₁) :
    Prog.wp E (do
      let _ ← deleteDirEntry (dir.inode (← get)) no
      inodeRelease env no
      dirClose dir
      return 0) Q s' := by
  have hcache := hheld.cache hc
  have horder := hheld.orderly hc h
  have hinode := hheld.diskInode
  have hfile : no ∈ t.dirs ∪ t.files := Finset.mem_union_right _ hno
  have hne : d ≠ no := fun heq => Finset.disjoint_left.mp h.tree.apart hd (heq ▸ hno)
  have h0 : no ≠ 0 := fun heq => Finset.disjoint_left.mp h.tree.apart h.tree.root (heq ▸ hno)
  rw [← hinode d] at hsame
  have hslot : SlotSafe s' d no ↔ SlotSafe s d no := by
    refine hheld.slotSafe hc (fun c hcm hcno => ?_) d
    cases dir with
    | root => cases hcm
    | opened b =>
        obtain rfl := List.mem_singleton.mp hcm
        exact hne ((horder.volume.iNo (Finset.mem_union_left _ hd) hsame).symm.trans hcno)
  have hent : dirEntries s' d = dirEntries s d :=
    hheld.elim fun _ hop => dirEntries_congr hop.disk hop.part d
  have hdisk : s'.disk = s.disk := hheld.elim fun _ hop => hop.disk
  have hrem : Removable s'.disk (diskInode s' d) no ↔ Removable s.disk (diskInode s d) no := by
    rw [hdisk, hinode]
  refine Prog.wp_get_bind (Prog.wp_bind (horder.wp_deleteEntry hd hsame
    (hE.imp fun hall => hrem.mpr hall.1) (fun hnone _ => ?_) fun s₁ e hout _ hr => ?_))
  · obtain ⟨e, he, hproper, heno⟩ := hin
    exact absurd heno (hnone e (hent ▸ he) hproper)
  · refine Prog.wp_bind (horder.wp_releaseTaken hcache hd hsame hout hfile hne h0
      (hE.imp fun hall => hslot.mpr hall.2) fun hs s₂ => ?_)
    exact wp_closed fun s₃ => hQ (hrem.mp hr) (hslot.mp hs) s₃

theorem Orderly.wp_unlink (hE : Prog.Granted E (PathCall.unlink.Safe env s path)) :
    Prog.wp E (sysUnlink env path) (fun r _ => PathCall.unlink.Fair env s path (r ≠ -1)) s := by
  refine Prog.wp_bind (wp_assertGranted (hE.imp fun hsafe => hsafe.1.absolute.2) fun _ => ?_)
  refine Prog.wp_bind (h.tree.wp_search env hc htext (hE.imp And.left) fun hs no r s' hend => ?_)
  cases hw : endsAt env s path with
  | missing d rest =>
      rw [hw] at hend
      have hno := hend.missing d rest rfl
      refine Prog.wp_bind (wp_assert (by omega) (Prog.wp_ite (fun _ => ?_) fun hn => absurd hno hn))
      exact wp_closed fun _ => PathCall.fair_failed ⟨hs, by rw [hw]; trivial⟩
  | directory n p =>
      rw [hw] at hend
      obtain ⟨hno, hn⟩ := hend.directory n p rfl
      have hgranted : Prog.Granted E (no ≠ 0) := hE.imp fun hsafe => by
        have := hsafe.2
        rw [hw] at this
        exact fun h0 => this ((Bitmap.int32_eq_zero hn).mp (hno ▸ h0))
      refine Prog.wp_bind (wp_assertGranted hgranted fun h0 => ?_)
      have hsafe : PathCall.unlink.Safe env s path :=
        ⟨hs, by rw [hw]; exact fun hc => h0 (hno ▸ (Bitmap.int32_eq_zero hn).mpr hc)⟩
      refine Prog.wp_ite (fun _ => wp_closed fun _ => PathCall.fair_failed hsafe) fun _ => ?_
      refine Prog.wp_ite (fun _ => wp_closed fun _ => PathCall.fair_failed hsafe) fun hd => ?_
      exact absurd hend.fileType hd
  | file n d rest =>
      rw [hw] at hend
      obtain rfl := hend.file n d rest rfl
      have hwalk := walk_of_file hw
      have hmem := h.tree.walk_file (fun _ hn => names_ne_nil hn) h.tree.root hwalk
      have h0 : n ≠ 0 := fun heq => Finset.disjoint_left.mp h.tree.apart h.tree.root (heq ▸ hmem)
      refine Prog.wp_bind (wp_assert (by omega) ?_)
      refine Prog.wp_ite (fun hneg => absurd hneg (by omega)) fun _ => ?_
      refine Prog.wp_ite (fun hd => absurd (hend.fileType.symm.trans hd) (Walk.file_ne n d rest))
        fun _ => Prog.wp_get_bind ?_
      rw [toNat_u32 (by have := (h.tree.isFile hmem).1; omega)]
      refine Prog.wp_ite (fun huse => ?_) fun huse => ?_
      · rw [hend.held.fileInUse hc] at huse
        exact wp_closed fun _ => PathCall.fair_failed ⟨hs, by rw [hw]; exact .inl huse⟩
      rw [hend.held.fileInUse hc] at huse
      by_cases hrest : rest = []
      swap
      · -- the file is taken for what was asked for
        have hunsafe : ¬ PathCall.unlink.Safe env s path := fun hsafe => by
          have := hsafe.2
          rw [hw] at this
          exact hrest (this.resolve_left huse).1
        refine hE.wp_of_not hunsafe fun ret s₁ hrun => ?_
        rw [Prog.bind_of_run (Prog.get_run s')] at hrun
        obtain ⟨_, s₂, -, hrun⟩ := Prog.bind_run.mp hrun
        obtain ⟨_, s₃, -, hrun⟩ := Prog.bind_run.mp hrun
        obtain ⟨_, s₄, -, hrun⟩ := Prog.bind_run.mp hrun
        rw [Prog.pure_run, Except.ok.injEq, Prod.mk.injEq] at hrun
        rw [← hrun.1]
        refine PathCall.fair_wrong hunsafe fun hu => hrest ?_
        have := hu.object
        rw [hwalk] at this
        exact this.1
      have hdir : d ∈ t.dirs := by
        have := h.tree.ends_dir env path
        rwa [hw] at this
      refine h.wp_unlinkFound hc hend.held hdir hend.parent hmem
        (h.tree.walk_entry (fun _ hn => names_ne_nil hn) h.tree.root hwalk)
        (hE.imp fun hsafe => ?_) fun hrem hslot _ => ?_
      · have := hsafe.2
        rw [hw] at this
        exact (this.resolve_left huse).2
      · exact PathCall.fair_done ⟨hs, by rw [hw]; exact .inr ⟨hrest, hrem, hslot⟩⟩
          (hs.usable (by rw [hwalk]; exact ⟨hrest, by simpa using huse⟩))

/-! ### `sys_rmdir` -/

omit h hc htext in
theorem wp_checkFirstBlockOnly {n : Inode} : ∀ (m k : Nat) {Q : Unit → Fs → Prop},
    Prog.Granted E (∀ j, k ≤ j → j < k + m → n.sector j = 0) →
    ((∀ j, k ≤ j → j < k + m → n.sector j = 0) → Q () s) →
    Prog.wp E (checkFirstBlockOnly n m k) Q s := by
  intro m
  induction m with
  | zero => exact fun k Q _ hQ => Prog.wp_pure (hQ fun j hj hlt => by omega)
  | succ m ih =>
      intro k Q hE hQ
      refine Prog.wp_bind (wp_assertGranted (hE.imp fun hall => hall k le_rfl (by omega))
        fun hk => ?_)
      refine ih (k + 1) (hE.imp fun hall j hj hlt => hall j (by omega) (by omega)) fun hrest => ?_
      refine hQ fun j hj hlt => ?_
      by_cases hjk : j = k
      · rw [hjk]
        exact hk
      · exact hrest j (by omega) (by omega)

omit h hc htext in
theorem dirRemove_zero {b : Nat} {ret : Int} (hrun : dirRemove env a b s = .ok (ret, s')) :
    ret = 0 := by
  obtain ⟨_, s₁, -, hrun⟩ := Prog.bind_run.mp hrun
  obtain ⟨_, s₂, -, hrun⟩ := Prog.bind_run.mp hrun
  obtain ⟨_, s₃, -, hrun⟩ := Prog.bind_run.mp hrun
  obtain ⟨_, s₄, -, hrun⟩ := Prog.bind_run.mp hrun
  rw [Prog.pure_run, Except.ok.injEq, Prod.mk.injEq] at hrun
  exact hrun.1.symm

omit htext in
/-- `dir_remove` of a directory that is open, through the one it was reached from. -/
theorem Orderly.wp_removeFound {b : Nat} (hp : p ∈ t.dirs) (hno : no ∈ t.dirs) (h0 : no ≠ 0)
    (hsame : Inode.Same (s.inodes a) (diskInode s p)) (hb : b ∈ s.openInodes)
    (hbno : (s.inodes b).iNo.toNat = no)
    (hE : Prog.Granted E (OneBlock (diskInode s no) ∧ Removable s.disk (diskInode s p) no))
    {Q : Int → Fs → Prop}
    (hQ : OneBlock (diskInode s no) → Removable s.disk (diskInode s p) no → ∀ s₁, Q 0 s₁) :
    Prog.wp E (dirRemove env a b) Q s := by
  have hnoin : no ∈ t.dirs ∪ t.files := Finset.mem_union_left _ hno
  have hblock : OneBlock (diskInode s no) ↔
      ∀ j, 1 ≤ j → j < 1 + 12 → (s.inodes b).sector j = 0 := by
    have hopen := hc.same b hb
    rw [hbno] at hopen
    exact forall_congr' fun k => forall₂_congr fun _ hk => by
      rw [hopen.sectors k (by omega)]
  refine Prog.wp_get_bind (Prog.wp_bind (wp_checkFirstBlockOnly 12 1
    (hE.imp fun hall => hblock.mp hall.1) fun hone => ?_))
  rw [← hblock] at hone
  rw [hbno]
  refine Prog.wp_bind (h.wp_deleteEntry hp hsame (hE.imp And.right) (fun _ hrem => ?_)
    fun s₁ e hout heno hrem => ?_)
  · exact Prog.wp_bind (h.wp_releaseAs hnoin h0 h.volume.drive rfl rfl (hc.theInode_same no) rfl
      fun s₁ => Prog.wp_pure (hQ hone hrem s₁))
  · have hin : e ∈ dirEntries s p := by
      rw [dirEntries, ← entries_congr hsame]
      exact hout.mem
    obtain ⟨-, -, -, hparent⟩ := (h.tree.kids p hp e hin hout.proper).resolve_right fun hk =>
      Finset.disjoint_left.mp h.tree.apart hno (heno ▸ hk.2)
    have hpne : p ≠ no := by
      rw [← hparent, heno]
      exact h.tree.parent_ne hno h0
    have hslot : SlotSafe s p no := .inr (.inr (isOpen_iff.mpr ⟨b, hb, hbno⟩))
    exact Prog.wp_bind (h.wp_releaseTaken hc hp hsame hout hnoin hpne h0 (.of hslot)
      fun _ s₂ => Prog.wp_pure (hQ hone hrem s₂))

theorem Orderly.wp_rmdir (hE : Prog.Granted E (PathCall.rmdir.Safe env s path)) :
    Prog.wp E (sysRmdir env path) (fun r _ => PathCall.rmdir.Fair env s path (r ≠ -1)) s := by
  refine Prog.wp_bind (h.tree.wp_search env hc htext (hE.imp And.left) fun hs no r s' hend => ?_)
  cases hw : endsAt env s path with
  | missing d rest =>
      rw [hw] at hend
      have hno := hend.missing d rest rfl
      refine Prog.wp_bind (wp_assert (by omega) (Prog.wp_ite (fun _ => ?_) fun hn => absurd hno hn))
      exact wp_closed fun _ => PathCall.fair_failed ⟨hs, by rw [hw]; trivial⟩
  | file n d rest =>
      rw [hw] at hend
      obtain rfl := hend.file n d rest rfl
      have hmem := h.tree.walk_file (fun _ hn => names_ne_nil hn) h.tree.root (walk_of_file hw)
      have h0 : n ≠ 0 := fun heq => Finset.disjoint_left.mp h.tree.apart h.tree.root (heq ▸ hmem)
      refine Prog.wp_bind (wp_assert (by omega) ?_)
      refine Prog.wp_ite (fun hneg => absurd hneg (by omega)) fun _ => ?_
      refine Prog.wp_ite (fun _ => ?_) fun hr => absurd hend.fileType hr
      exact wp_closed fun _ => PathCall.fair_failed ⟨hs, by rw [hw]; trivial⟩
  | directory n p =>
      rw [hw] at hend
      obtain ⟨hno, hn⟩ := hend.directory n p rfl
      have hgranted : Prog.Granted E (PathCall.rmdir.SafeAt s path (.directory n p)) :=
        hE.imp fun hsafe => hw ▸ hsafe.2
      refine Prog.wp_bind (wp_assertGranted (hgranted.imp fun hsafe h0 => ?_) fun h0 => ?_)
      · have hn0 := (Bitmap.int32_eq_zero hn).mp (hno ▸ h0)
        rcases hsafe with hlast | hsafe
        · omega
        · exact hsafe.1 hn0
      have hn0 : n ≠ 0 := fun hc => h0 (hno ▸ (Bitmap.int32_eq_zero hn).mpr hc)
      rw [hno]
      refine Prog.wp_ite (fun hneg => ?_) fun hneg => ?_
      · have hlast : n = 2 ^ 32 - 1 := (Bitmap.int32_eq_neg hn).mp hneg
        exact wp_closed fun _ => PathCall.fair_failed ⟨hs, by rw [hw]; exact .inl hlast⟩
      have hlast : n ≠ 2 ^ 32 - 1 := fun hc => hneg ((Bitmap.int32_eq_neg hn).mpr hc)
      refine Prog.wp_ite (fun hr => absurd (hend.fileType.symm.trans hr)
        (show ftDirectory ≠ ftRegular by decide)) fun _ => ?_
      rw [u32_int32 hn]
      have hcache := hend.held.cache hc
      have hfit := (hend.held.tree hc h.tree).table
      refine Prog.wp_bind (Prog.wp_bind (hcache.wp_inodeOpen env hfit
        (hgranted.imp fun hsafe => (hsafe.resolve_left hlast).2.1) fun b s₁ hlt hopen hsame =>
        Prog.wp_pure (Prog.wp_get_bind ?_)))
      obtain ⟨hdisk₁, hpart₁⟩ := inodeOpen_disk hopen
      have hempty : dirIsEmpty s₁ b = true ↔ (diskInode s n).iSize = 48 := by
        rw [dirIsEmpty, beq_iff_eq, hpart₁, (hend.held.tree hc h.tree).entrySize, hsame.iSize,
          hend.held.diskInode]
        rfl
      refine Prog.wp_ite (fun h48 => ?_) fun hfull => ?_
      swap
      · have hsize : (diskInode s n).iSize ≠ 48 := fun hc => hfull (hempty.mpr hc)
        exact Prog.wp_bind (wp_dirClose fun _ _ _ => wp_closed fun _ =>
          PathCall.fair_failed ⟨hs, by rw [hw]; exact .inr ⟨hn0, hlt, .inl hsize⟩⟩)
      rw [DirPtr.inode, hempty] at h48
      by_cases hnil : names path = []
      · -- slashes only: what was on the stack is removed
        have hunsafe : ¬ PathCall.rmdir.Safe env s path := fun hsafe => by
          have := hsafe.2
          rw [hw] at this
          rcases (this.resolve_left hlast).2.2 with hsize | hsafe
          · exact hsize h48
          · exact hsafe.1 hnil
        refine hE.wp_of_not hunsafe fun ret s₂ hrun => ?_
        obtain ⟨_, s₃, hremove, hrun⟩ := Prog.bind_run.mp hrun
        obtain rfl := dirRemove_zero hremove
        obtain ⟨_, s₄, -, hrun⟩ := Prog.bind_run.mp hrun
        obtain ⟨_, s₅, -, hrun⟩ := Prog.bind_run.mp hrun
        rw [Prog.pure_run, Except.ok.injEq, Prod.mk.injEq] at hrun
        rw [← hrun.1]
        refine PathCall.fair_wrong hunsafe fun hu => ?_
        have := hu.object
        rw [hnil] at this
        exact this.1 rfl
      have hwalk : walk s 0 0 (names path) = .directory n p := by
        rw [← endsAt_named hnil]
        exact hw
      have hnmem := h.tree.leadsTo_mem (fun _ hn => names_ne_nil hn) ⟨p, hwalk⟩
      obtain ⟨hp, -⟩ := h.walk_parent hwalk hn0 h48
      obtain ⟨b', s₂, hopen', hheld₁, hsame₁⟩ := hend.held.inodeOpen env hc h.tree.table hlt
        (h.tree.isDir hnmem).2
      obtain ⟨rfl, rfl⟩ : b = b' ∧ s₁ = s₂ := by simpa [hopen] using hopen'
      have hinode := hheld₁.diskInode
      have hdisk : s₁.disk = s.disk := hheld₁.elim fun _ hop => hop.disk
      have hparent := (hend.held.parent_opened hc h.tree hopen).trans hend.parent
      have hbmem : b ∈ s₁.openInodes := hheld₁.elim fun _ hop => hop.held b List.mem_cons_self
      refine Prog.wp_bind ((hheld₁.orderly hc h).wp_removeFound (hheld₁.cache hc) hp hnmem hn0
        ((hinode p).symm ▸ hparent) hbmem (hsame₁.iNo ▸ (h.tree.isDir hnmem).2)
        (hgranted.imp fun hsafe => ?_) fun hone hrem s₃ => ?_)
      · rw [hinode, hinode, hdisk]
        exact (((hsafe.resolve_left hlast).2.2).resolve_left (not_not_intro h48)).2
      · rw [hinode] at hone
        rw [hinode, hdisk] at hrem
        refine Prog.wp_bind (wp_dirClose fun _ _ _ => wp_closed fun _ => ?_)
        exact PathCall.fair_done
          ⟨hs, by rw [hw]; exact .inr ⟨hn0, hlt, .inr ⟨hnil, hone, hrem⟩⟩⟩
          (hs.usable (by rw [hwalk]; exact ⟨hn0, h48⟩))

/-! ### Calls that create -/

omit h hc htext in
theorem Held.roomForFile {held : List Nat} (hheld : Held s s' held) {n n' : Inode}
    (hsame : Inode.Same n n') : RoomForFile s' n ↔ RoomForFile s n' := by
  obtain ⟨new, hop⟩ := hheld
  constructor
  · rintro ⟨hnumber, hblocks⟩
    rw [hop.fileTable, hop.part, hop.disk, blocksNeeded_congr hsame] at hblocks
    exact ⟨hop.part ▸ hnumber, hblocks⟩
  · rintro ⟨hnumber, hblocks⟩
    rw [← hop.fileTable, ← hop.part, ← hop.disk, ← blocksNeeded_congr hsame] at hblocks
    exact ⟨hop.part ▸ hnumber, hblocks⟩

omit hc htext in
/-- The blocks of a directory of the tree, by an inode that is open. -/
theorem Orderly.owns_open (hd : d ∈ t.dirs) (hsame : Inode.Same (s.inodes a) (diskInode s d)) :
    OwnBlocks s.part s.disk (s.inodes a) ∧ (s.inodes a).iSize.toNat % 24 = 0 := by
  refine ⟨h.volume.ownBlocks (Finset.mem_union_left _ hd) hsame, ?_⟩
  rw [hsame.iSize, h.size d hd]
  omega

omit hc htext in
/-- The block of the root is in use. -/
theorem Orderly.first_used : s.part.blockBitmap.bitmapScanTest 0 = true := by
  have hne := (h.tree.first 0 h.tree.root).1
  have hused := (h.volume.owns 0 (Finset.mem_union_left _ h.tree.root)).used 0 (by omega)
    (by rw [own_direct _ _ (by omega)]; exact toNat_ne_zero.mpr hne)
  have hbit := hused.used
  rwa [own_direct _ _ (by omega), h.rootBlock, Nat.sub_self] at hbit

theorem Orderly.wp_mkdir (hE : Prog.Granted E (PathCall.mkdir.Safe env s path)) :
    Prog.wp E (sysMkdir env path) (fun r _ => PathCall.mkdir.Fair env s path (r ≠ -1)) s := by
  refine Prog.wp_bind (h.tree.wp_search env hc htext (hE.imp And.left) fun hs no r s' hend => ?_)
  cases hw : endsAt env s path with
  | file n d rest =>
      rw [hw] at hend
      have hno := hend.file n d rest rfl
      refine Prog.wp_ite (fun _ => ?_) fun hneg => absurd (show no ≠ -1 by omega) hneg
      exact wp_closed fun _ => PathCall.fair_failed ⟨hs, by rw [hw]; trivial⟩
  | directory n p =>
      rw [hw] at hend
      obtain ⟨hno, hn⟩ := hend.directory n p rfl
      refine Prog.wp_ite (fun hneg => ?_) fun hneg => ?_
      · have hlast : n ≠ 2 ^ 32 - 1 := fun hc => hneg (hno ▸ (Bitmap.int32_eq_neg hn).mpr hc)
        exact wp_closed fun _ => PathCall.fair_failed ⟨hs, by rw [hw]; exact hlast⟩
      · -- there is no name to make a directory of
        have hlast : n = 2 ^ 32 - 1 := (Bitmap.int32_eq_neg hn).mp (hno ▸ not_not.mp hneg)
        have hunsafe : ¬ PathCall.mkdir.Safe env s path := fun hsafe => by
          have := hsafe.2
          rw [hw] at this
          exact this hlast
        refine hE.wp_of_not hunsafe fun ret s₁ hrun => ?_
        obtain ⟨k, s₂, hdepth, -⟩ := Prog.bind_run.mp hrun
        obtain ⟨hdepth, -⟩ := Prog.lift_run.mp hdepth
        rw [endsAt_named (pathDepthCnt_ok hdepth).1] at hw
        have := (h.tree.isDir (h.tree.leadsTo_mem (fun _ hn => names_ne_nil hn) ⟨p, hw⟩)).1
        omega
  | missing d rest =>
      rw [hw] at hend
      have hno := hend.missing d rest rfl
      have hnamed : names path ≠ [] := named_of_ends (by rw [hw]; exact Walk.missing_ne d rest)
      have hgranted : Prog.Granted E (PathCall.mkdir.SafeAt s path (.missing d rest)) :=
        hE.imp fun hsafe => hw ▸ hsafe.2
      refine Prog.wp_ite (fun hn => absurd hno hn) fun _ => ?_
      refine Prog.wp_bind (wp_pathDepthCnt (hgranted.imp fun hsafe => ⟨hnamed, hsafe.1⟩)
        fun hfit => ?_)
      refine Prog.wp_bind (Prog.wp_of_run (Prog.lift_run.mpr
        ⟨hend.depth (Walk.missing_ne d rest) hfit.2, rfl⟩) ?_)
      have hpos := List.length_pos_of_ne_nil hnamed
      refine Prog.wp_ite (fun hdepth => ?_) fun hdepth => ?_
      · have hrest : rest ≠ [] := by
          rintro rfl
          exact hdepth rfl
        exact wp_closed fun _ => PathCall.fair_failed
          ⟨hs, by rw [hw]; exact ⟨hfit.2, fun hnil => absurd hnil hrest⟩⟩
      have hrest : rest = [] := by
        simp only [Walk.rest, not_not] at hdepth
        exact List.length_eq_zero_iff.mp (by omega)
      have hroom := hgranted.imp fun hsafe => hsafe.2 hrest
      have hd : d ∈ t.dirs := by
        have := h.tree.ends_dir env path
        rwa [hw] at this
      have hpart : s'.part = s.part := hend.held.elim fun _ hop => hop.part
      have hdisk : s'.disk = s.disk := hend.held.elim fun _ hop => hop.disk
      have horder := hend.held.orderly hc h
      have hinode : Inode.Same (s'.inodes (r.parentDir.inode s')) (diskInode s' d) :=
        (hend.held.diskInode d).symm ▸ hend.parent
      obtain ⟨howns, hsize⟩ := horder.owns_open hd hinode
      refine Prog.wp_bind (wp_takeInode horder.volume.drive
        (hroom.imp fun hall => hpart ▸ hall.number) fun m hm => ?_)
      rw [if_neg (by omega), Int.toNat_natCast]
      have hneeded : blocksNeeded s'.disk (s'.inodes (r.parentDir.inode s'))
          = blocksNeeded s.disk (diskInode s d) := by
        rw [hdisk]
        exact blocksNeeded_congr hend.parent _
      have hm4096 : m < 4096 := by
        have hbit := hm.bit
        rw [horder.volume.drive.ordered.inodeBytes] at hbit
        exact hbit
      have hlast := baseName_length
        (pathDepthCnt_ok (hend.depth (Walk.missing_ne d rest) hfit.2)).2
      refine Prog.wp_mono ((unentered_takeInode horder.volume.drive m _).wp_makeDir howns hsize ?_
        horder.first_used hm4096 hlast ?_) fun ret s₁ hpost => ?_
      · cases r.parentDir <;> rfl
      · rw [hneeded, hpart]
        exact hroom.imp fun hall => hall.blocks
      · rw [hneeded, hpart] at hpost
        have hnumber : Room s.part.inodeBitmap 1 := hpart ▸ hm.room (room_zero _)
        exact PathCall.fair_done
          ⟨hs, by rw [hw]; exact ⟨hfit.2, fun _ => ⟨hnumber, hpost⟩⟩⟩
          (hs.usable (by rw [walk_of_missing hw]; exact hrest))

theorem Orderly.wp_open {flags : Nat}
    (hE : Prog.Granted E ((PathCall.open flags).Safe env s path)) :
    Prog.wp E (sysOpen env path flags)
      (fun r _ => (PathCall.open flags).Fair env s path (r ≠ -1)) s := by
  refine Prog.wp_bind ?_
  rw [openPlan]
  refine Prog.wp_ite (fun hnil => ?_) fun hne => ?_
  · exact Prog.wp_lift (fun _ hok => absurd hok (by simp)) fun e _ =>
      hE.any (fun hsafe => hsafe.1 hnil) e
  refine Prog.wp_ite (fun hlast => Prog.wp_pure (Prog.wp_pure
    (PathCall.fair_failed ⟨hne, .inl hlast⟩))) fun hlast => ?_
  have hE := hE.imp fun hsafe => hsafe.2.resolve_left hlast
  have hnamed := named_of_last hne hlast
  refine Prog.wp_bind (wp_assertGranted (hE.imp And.left) fun hflags => ?_)
  refine Prog.wp_bind (wp_pathDepthCnt (hE.imp fun hsafe => ⟨hnamed, hsafe.2.1⟩) fun hfit => ?_)
  refine Prog.wp_bind (h.tree.wp_search env hc htext (hE.imp fun hsafe => hsafe.2.2.1)
    fun hs no r s' hend => ?_)
  have hsafe : ∀ w, endsAt env s path = w → (PathCall.open flags).SafeAt s path w →
      (PathCall.open flags).Safe env s path := fun w hw hat =>
    ⟨hne, .inr ⟨hflags, hfit.2, hs, by rw [hw]; exact hat⟩⟩
  have hpos := List.length_pos_of_ne_nil hnamed
  cases hw : endsAt env s path with
  | directory n p =>
      rw [hw] at hend
      refine Prog.wp_ite (fun _ => ?_) fun hd => absurd hend.fileType hd
      exact wp_closed fun _ => Prog.wp_pure (PathCall.fair_failed (hsafe _ hw trivial))
  | file n d rest =>
      rw [hw] at hend
      have hno := hend.file n d rest rfl
      have hwalk := walk_of_file hw
      have hmem := h.tree.walk_file (fun _ hn => names_ne_nil hn) h.tree.root hwalk
      have hat := hsafe _ hw trivial
      refine Prog.wp_ite (fun hd => absurd (hend.fileType.symm.trans hd) (Walk.file_ne n d rest))
        fun _ => ?_
      refine Prog.wp_bind (Prog.wp_of_run (Prog.lift_run.mpr
        ⟨hend.depth (Walk.file_ne n d rest) hfit.2, rfl⟩) ?_)
      refine Prog.wp_ite (fun _ => wp_closed fun _ => Prog.wp_pure (PathCall.fair_failed hat))
        fun hdepth => ?_
      refine Prog.wp_ite (fun hneg => absurd hneg.1 (by omega)) fun _ => ?_
      refine Prog.wp_ite (fun _ => wp_closed fun _ => Prog.wp_pure (PathCall.fair_failed hat))
        fun hcreat => ?_
      have hrest : rest = [] := by
        simp only [Walk.rest, not_not] at hdepth
        exact List.length_eq_zero_iff.mp (by omega)
      have hzero : flags &&& oCreat = 0 := by
        by_contra hc
        exact hcreat ⟨by omega, hc⟩
      refine Prog.wp_ite (fun hc => absurd hzero hc) fun _ => Prog.wp_pure ?_
      rw [hno, toNat_u32 (by have := (h.tree.isFile hmem).1; omega)]
      refine (hend.held.cache hc).wp_fileOpen (hend.held.tree hc h.tree).table
        (h.tree.isFile hmem).1 fun _ _ => ?_
      exact PathCall.fair_done hat (hs.usable (by rw [hwalk]; exact ⟨hrest, hzero⟩))
  | missing d rest =>
      rw [hw] at hend
      have hno := hend.missing d rest rfl
      refine Prog.wp_ite (fun hd => absurd (hend.fileType.symm.trans hd) (Walk.missing_ne d rest))
        fun _ => ?_
      refine Prog.wp_bind (Prog.wp_of_run (Prog.lift_run.mpr
        ⟨hend.depth (Walk.missing_ne d rest) hfit.2, rfl⟩) ?_)
      refine Prog.wp_ite (fun hdepth => ?_) fun hdepth => ?_
      · have hrest : rest ≠ [] := by
          rintro rfl
          exact hdepth rfl
        exact wp_closed fun _ => Prog.wp_pure (PathCall.fair_failed
          (hsafe _ hw fun hnil => absurd hnil hrest))
      have hrest : rest = [] := by
        simp only [Walk.rest, not_not] at hdepth
        exact List.length_eq_zero_iff.mp (by omega)
      refine Prog.wp_ite (fun hzero => ?_) fun hzero => ?_
      · exact wp_closed fun _ => Prog.wp_pure (PathCall.fair_failed
          (hsafe _ hw fun _ hc => absurd hzero.2 hc))
      have hcreat : flags &&& oCreat ≠ 0 := fun hc => hzero ⟨hno, hc⟩
      refine Prog.wp_ite (fun hfound => absurd hno hfound.1) fun _ => ?_
      refine Prog.wp_ite (fun _ => Prog.wp_pure ?_) fun hc => absurd hcreat hc
      have hgranted : Prog.Granted E (RoomForFile s (diskInode s d)) := hE.imp fun hall => by
        have hat := hall.2.2.2
        rw [hw] at hat
        exact hat hrest hcreat
      have hd : d ∈ t.dirs := by
        have := h.tree.ends_dir env path
        rwa [hw] at this
      have horder := hend.held.orderly hc h
      obtain ⟨howns, hsize⟩ := horder.owns_open hd ((hend.held.diskInode d).symm ▸ hend.parent)
      have hmem := hend.held.inode_mem (fun _ hx => hx) horder.tree
      have hroom := hend.held.roomForFile hend.parent
      refine Prog.wp_get_bind (Prog.wp_bind (Prog.wp_mono (wp_fileCreate horder.volume.drive howns
        hsize ((hend.held.cache hc).heap _ hmem) (baseName_length hfit.2)
        (hgranted.imp hroom.mpr)) fun fd s₁ hpost => ?_))
      refine wp_closed fun _ => PathCall.fair_done (hsafe _ hw fun _ _ => hroom.mp hpost)
        (hs.usable (by rw [walk_of_missing hw]; exact ⟨hrest, hcreat⟩))

end Calls

/-! ### The calls -/

theorem Orderly.wp_pathCall (h : Orderly s t) (hc : Cache s) (htext : 0 ∉ path) (c : PathCall)
    (hE : Prog.Granted E (c.Safe env s path)) :
    Prog.wp E (c.run env path) (fun ok _ => c.Fair env s path ok) s := by
  cases c with
  | unlink => exact Prog.wp_bind (Prog.wp_mono (h.wp_unlink hc htext hE) fun _ _ hq => hq)
  | stat => exact Prog.wp_bind (Prog.wp_mono (h.wp_stat hc htext hE) fun _ _ hq => hq)
  | chdir => exact Prog.wp_bind (Prog.wp_mono (h.wp_chdir hc htext hE) fun _ _ hq => hq)
  | rmdir => exact Prog.wp_bind (Prog.wp_mono (h.wp_rmdir hc htext hE) fun _ _ hq => hq)
  | opendir => exact Prog.wp_bind (Prog.wp_mono (h.wp_opendir hc htext hE) fun _ _ hq => hq)
  | mkdir => exact Prog.wp_bind (Prog.wp_mono (h.wp_mkdir hc htext hE) fun _ _ hq => hq)
  | «open» flags => exact Prog.wp_bind (Prog.wp_mono (h.wp_open hc htext hE) fun _ _ hq => hq)

end ZyOs
