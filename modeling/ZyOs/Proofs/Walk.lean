/-
`search_file` as a walk over a tree.

`walk` follows the names of a path from directory to directory, in inode numbers and
on the disk alone.  In a tree `search_file` does the same with open directories: it
returns what the walk ends at, with the directory of the last step held open and
everything else as it was.  A name that does not fit into the buffer stops it, but only when the
walk gets that far.
-/
import ZyOs.Library.Exact
import ZyOs.Proofs.Tree

namespace ZyOs

open Library

/-- Where a walk ends: at a name that is missing in `dir`, at a file in `dir`, or at a
directory that was entered from `parent`.  `rest` are the names it did not get to. -/
inductive Walk where
  | missing (dir : Nat) (rest : List (List UInt8))
  | file (no dir : Nat) (rest : List (List UInt8))
  | directory (no parent : Nat)
deriving DecidableEq

/-- The walk along `names` from the directory `dir`, which was entered from `parent`. -/
def walk (s : Fs) : Nat → Nat → List (List UInt8) → Walk
  | dir, parent, [] => .directory dir parent
  | dir, _, n :: ns =>
      match look s dir n with
      | none => .missing dir ns
      | some e => if e.fType = ftDirectory then walk s e.iNo dir ns else .file e.iNo dir ns

namespace Walk

/-- The names that are left. -/
def rest : Walk → List (List UInt8)
  | missing _ rest => rest
  | file _ _ rest => rest
  | directory _ _ => []

/-- The number `search_file` returns. -/
def result : Walk → Int
  | missing _ _ => -1
  | file no _ _ => no
  | directory no _ => no

/-- The type in the record. -/
def fileType : Walk → UInt32
  | missing _ _ => ftUnknown
  | file _ _ _ => ftRegular
  | directory _ _ => ftDirectory

/-- The directory that is left open. -/
def dir : Walk → Nat
  | missing dir _ => dir
  | file _ dir _ => dir
  | directory _ parent => parent

theorem missing_ne (dir : Nat) (rest : List (List UInt8)) :
    (missing dir rest).fileType ≠ ftDirectory := show ftUnknown ≠ ftDirectory by decide

theorem file_ne (no dir : Nat) (rest : List (List UInt8)) :
    (file no dir rest).fileType ≠ ftDirectory := show ftRegular ≠ ftDirectory by decide

end Walk

/-- What `search_file` returns when the walk along the names in `text` ends at `w`. -/
structure Reports (s₀ : Fs) (text : List UInt8) (w : Walk) (no : Int) (r : PathSearchRecord)
    (s : Fs) : Prop where
  result : no = w.result
  fileType : r.fileType = w.fileType
  searched : w.fileType ≠ ftDirectory → r.searchedPath ++ joined slash w.rest = text
  held : Held s₀ s r.parentDir.opens
  parent : Inode.Same (s.inodes (r.parentDir.inode s)) (diskInode s₀ w.dir)

variable {env : FsEnv} {s₀ s : Fs} {t : Tree} {dir : Nat}

/-- The names the walk comes to fit: those that are looked up with their terminator, and the one
behind a file without. -/
def NamesFit (s : Fs) : Nat → List (List UInt8) → Prop
  | _, [] => True
  | dir, n :: ns => n.length ≤ 15 ∧
      match look s dir n with
      | none => True
      | some e => if e.fType = ftDirectory then NamesFit s e.iNo ns
          else ∀ m ∈ ns.head?, m.length ≤ 16

theorem NamesFit.head {ns : List (List UInt8)} (h : NamesFit s dir ns) :
    ∀ m ∈ ns.head?, m.length ≤ 15 := by
  cases ns with
  | nil => simp
  | cons n ns => simpa using h.1

theorem namesFit_of_short : ∀ {ns : List (List UInt8)} {dir : Nat}, (∀ n ∈ ns, n.length ≤ 15) →
    NamesFit s dir ns := by
  intro ns
  induction ns with
  | nil => exact fun _ => trivial
  | cons n ns ih =>
      intro dir hshort
      refine ⟨hshort n (by simp), ?_⟩
      cases look s dir n with
      | none => trivial
      | some e =>
          by_cases hty : e.fType = ftDirectory
          · simp only [if_pos hty]
            exact ih fun m hm => hshort m (by simp [hm])
          · simp only [if_neg hty]
            exact fun m hm => by
              have := hshort m (by simp [List.mem_of_mem_head? hm])
              omega

/-! ### The step to the next name -/

/-- The step to the next name goes by the names that are left: the name is put into the buffer,
or it is too long for it. -/
theorem next_run {β : Type} : ∀ (sub : Option (List UInt8))
    (k : List UInt8 × Option (List UInt8) → FsM β),
    ((∀ n ∈ (namesLeft sub).head?, n.length ≤ 16) ∧ ∃ name u, Buffered name u (namesLeft sub) ∧
      (match sub with
        | some p => (Prog.lift (parseName "search_file" p) : FsM _) >>= k
        | none => pure ([], none) >>= k) = k (name, u)) ∨
    ((∃ n ∈ (namesLeft sub).head?, 16 < n.length) ∧
      (match sub with
        | some p => (Prog.lift (parseName "search_file" p) : FsM _) >>= k
        | none => pure ([], none) >>= k) = Prog.lift (.error (.fault "search_file"))) := by
  intro sub k
  cases sub with
  | none => exact .inl ⟨by simp, [], none, .inl ⟨rfl, namesLeft_none⟩, rfl⟩
  | some p =>
      have hleft : namesLeft (some p) = names p := rfl
      rw [hleft]
      cases hn : names p with
      | nil =>
          refine .inl ⟨by simp, [], none, .inl ⟨rfl, rfl⟩, ?_⟩
          simp only [parseName_nil hn]
          rfl
      | cons n ns =>
          by_cases hlong : n.length ≤ 16
          · obtain ⟨u, hparse, hns, -⟩ := parseName_cons "search_file" hn hlong
            refine .inl ⟨by simpa using hlong, n, u,
              .inr ⟨names_ne_nil (hn ▸ List.mem_cons_self), by rw [hns]⟩, ?_⟩
            simp only [hparse]
            rfl
          · obtain ⟨u, hparse, -⟩ := pathParse_cons hn
            refine .inr ⟨⟨n, by simp, by omega⟩, ?_⟩
            have hfault : parseName "search_file" p = .error (.fault "search_file") := by
              unfold parseName
              rw [hparse, if_neg (by simpa [maxFileNameLen] using hlong)]
            simp only [hfault]
            rfl

/-- The next name, when it fits. -/
theorem wp_next {E : Halt → Prop} {β : Type} (sub : Option (List UInt8))
    {k : List UInt8 × Option (List UInt8) → FsM β} {Q : β → Fs → Prop}
    (hE : Prog.Granted E (∀ n ∈ (namesLeft sub).head?, n.length ≤ 16))
    (h : (∀ n ∈ (namesLeft sub).head?, n.length ≤ 16) → ∀ name u,
      Buffered name u (namesLeft sub) → Prog.wp E (k (name, u)) Q s) :
    Prog.wp E (match sub with
      | some p => (Prog.lift (parseName "search_file" p) : FsM _) >>= k
      | none => pure ([], none) >>= k) Q s := by
  rcases next_run sub k with ⟨hfit, name, u, hbuf, hrun⟩ | ⟨⟨n, hn, hlong⟩, hrun⟩
  · rw [hrun]
    exact h hfit name u hbuf
  · rw [hrun]
    refine Prog.wp_lift (fun _ hok => absurd hok (by simp)) fun e _ => hE.any (fun hfit => ?_) e
    have := hfit n hn
    omega

/-! ### The walk -/

/-- `search_dir_entry` in a directory of the tree. -/
theorem DirTree.search_run (h : DirTree s₀ t) (hd : dir ∈ t.dirs) {a : Nat}
    (hdisk : s.disk = s₀.disk) (hpart : s.part = s₀.part)
    (hsame : Inode.Same (s.inodes a) (diskInode s₀ dir)) {name : List UInt8}
    (hfit : FitsName name) :
    ∃ r, searchDirEntry a name s = .ok (r, s) ∧
      r.map (fun e => (e.iNo.toNat, e.fType))
        = (look s₀ dir name).map (fun e => (e.iNo, e.fType)) := by
  have hread : Readable s.disk (s.inodes a) :=
    hdisk ▸ (h.readable dir hd).congr hsame.symm
  refine ⟨_, searchDirEntry_run hfit (hpart ▸ h.entrySize) hread, ?_⟩
  rw [lookup_congr hsame, hdisk, look, Option.map_map, Option.map_map]
  congr 1

theorem DirTree.inode_number (h : DirTree s₀ t) (hd : dir ∈ t.dirs) {n : Inode}
    (hsame : Inode.Same n (diskInode s₀ dir)) : n.iNo.toNat = dir := by
  rw [hsame.iNo]
  exact (h.isDir hd).2

variable (env) in
/-- From one directory to another: the first is closed and the second opened. -/
theorem DirTree.step_run (h : DirTree s₀ t) (hc : Cache s₀) {d : DirPtr}
    (hheld : Held s₀ s d.opens) (hd : dir ∈ t.dirs) : ∃ s₁ d' s', dirClose d s = .ok ((), s₁) ∧
      dirOpen env dir s₁ = .ok (d', s') ∧ Held s₀ s' d'.opens ∧
      Inode.Same (s'.inodes (d'.inode s')) (diskInode s₀ dir) := by
  obtain ⟨s₁, hclose, hheld₁⟩ := Held.dirClose ((List.append_nil d.opens).symm ▸ hheld) hc
  obtain ⟨d', s', hopen, hheld', hsame⟩ := hheld₁.dirOpen env hc h.table
    (h.isDir hd).1 (h.isDir hd).2
  exact ⟨s₁, d', s', hclose, hopen, by simpa using hheld', hsame⟩

theorem DirTree.wp_searchLoop {E : Halt → Prop} (h : DirTree s₀ t) (hc : Cache s₀) :
    ∀ (ns : List (List UInt8)) (fuel : Nat) (sub : Option (List UInt8)) (name : List UInt8)
    (r : PathSearchRecord) (pno dirE : UInt32) (s : Fs) (dir : Nat),
    ns.length < fuel → Buffered name sub ns → (∀ n ∈ ns, 0 ∉ n) →
    r.searchedPath.length + (joined slash ns).length < 512 → r.fileType = ftUnknown →
    Held s₀ s r.parentDir.opens → dir ∈ t.dirs →
    Inode.Same (s.inodes (r.parentDir.inode s)) (diskInode s₀ dir) → pno.toNat ∈ t.dirs →
    (ns = [] → dirE.toNat = dir) → Prog.Granted E (NamesFit s₀ dir ns) →
    Prog.wp E (searchLoop env fuel sub name r pno dirE) (fun res s' => NamesFit s₀ dir ns ∧
      Reports s₀ (r.searchedPath ++ joined slash ns) (walk s₀ dir pno.toNat ns) res.1 res.2 s')
      s := by
  intro ns
  induction ns with
  | nil =>
      intro fuel sub name r pno dirE s dir hfuel hbuf _ _ _ hheld hdir _ hpno hlast _
      obtain ⟨fuel, rfl⟩ : ∃ n, fuel = n + 1 := ⟨fuel - 1, by simp at hfuel; omega⟩
      obtain rfl : name = [] := by
        rcases hbuf with hb | hb
        · exact hb.1
        · exact absurd hb.2 (by simp)
      obtain ⟨s₁, d', s', hclose, hopen, hheld', hsame'⟩ := h.step_run env hc hheld hpno
      have hno : int32 dirE.toNat = (dir : Int) := by
        rw [hlast rfl]
        exact Bitmap.int32_of_lt (by have := (h.isDir hdir).1; omega)
      rw [searchLoop, if_pos rfl]
      refine Prog.wp_bind (Prog.wp_of_run hclose (Prog.wp_bind (Prog.wp_of_run hopen ?_)))
      exact Prog.wp_pure ⟨trivial, hno, rfl, fun hne => absurd rfl hne, hheld', hsame'⟩
  | cons n ns ih =>
      intro fuel sub name r pno dirE s dir hfuel hbuf htexts htext htype hheld hdir hsame hpno _ hE
      obtain ⟨fuel, rfl⟩ : ∃ n, fuel = n + 1 := ⟨fuel - 1, by simp at hfuel; omega⟩
      obtain ⟨hne, hname⟩ := hbuf.resolve_left (by simp)
      obtain ⟨rfl, hns⟩ := List.cons.inj hname
      rw [joined_cons, List.length_cons, List.length_append] at htext
      rw [searchLoop, if_neg hne]
      refine Prog.wp_bind (Prog.wp_of_run (assertFs_run (by omega) _ _ s) ?_)
      refine Prog.wp_ite (fun hlong => ?_) fun hlong => ?_
      · -- the name does not fit with its terminator
        refine Prog.wp_lift (fun _ hok => absurd hok (by simp)) fun e _ => hE.any (fun hfit => ?_) e
        have := hfit.1
        simp only [maxFileNameLen] at hlong
        omega
      have hshort : n.length ≤ 15 := by simp only [maxFileNameLen] at hlong; omega
      have hfit : FitsName n := ⟨htexts n (by simp), hshort⟩
      obtain ⟨new, hop⟩ := hheld
      obtain ⟨res, hsearch, hres⟩ := h.search_run hdir hop.disk hop.part hsame hfit
      refine Prog.wp_get_bind (Prog.wp_bind (Prog.wp_of_run hsearch ?_))
      rw [walk, NamesFit]
      cases res with
      | none =>
          have hlook : look s₀ dir n = none := by simpa using hres.symm
          rw [hlook]
          exact Prog.wp_pure ⟨⟨hshort, trivial⟩, rfl, htype,
            fun _ => by simp [Walk.rest, joined_cons], ⟨new, hop⟩, hsame⟩
      | some e =>
          obtain ⟨e', hlook, he⟩ : ∃ e', look s₀ dir n = some e' ∧
              (e'.iNo, e'.fType) = (e.iNo.toNat, e.fType) := by
            simpa using hres.symm
          obtain ⟨hino, htyp⟩ := Prod.mk.inj he
          rw [NamesFit] at hE
          simp only [hlook] at hE ⊢
          rcases h.entry_cases hdir (h.look_sound hdir hne hlook).1 with ⟨hty, hmem⟩ | ⟨hty, hmem⟩
          · rw [hino] at hmem
            rw [if_pos hty, hino] at hE ⊢
            rw [if_pos hty]
            refine wp_next _ (hE.imp fun hall m hm => ?_) fun _ name' sub' hbuf' => ?_
            · have := hall.2.head m (by rwa [← hns] at hm)
              omega
            refine Prog.wp_ite (fun _ => ?_) fun hndir => absurd (htyp ▸ hty) hndir
            obtain ⟨s₁, d', s', hclose, hopen, hheld', hsame'⟩ := h.step_run env hc
              ⟨new, hop⟩ hmem
            have hno := h.inode_number hdir hsame
            refine Prog.wp_get_bind (Prog.wp_bind (Prog.wp_of_run hclose
              (Prog.wp_bind (Prog.wp_of_run hopen ?_))))
            refine Prog.wp_mono (ih fuel sub' name'
              { r with searchedPath := r.searchedPath ++ slash :: n, parentDir := d' }
              (s.inodes (r.parentDir.inode s)).iNo e.iNo s' e.iNo.toNat (by simpa using hfuel)
              (hns ▸ hbuf') (fun m hm => htexts m (by simp [hm]))
              (by simp only [List.length_append, List.length_cons]; omega) htype hheld' hmem hsame'
              (by rwa [hno]) (fun _ => rfl) (hE.imp fun hall => hall.2)) fun res s'' hpost => ?_
            obtain ⟨hfits, hrep⟩ := hpost
            rw [hno] at hrep
            exact ⟨⟨hshort, hfits⟩, by simpa [joined_cons] using hrep⟩
          · have hno : int32 e.iNo.toNat = ((e'.iNo : Nat) : Int) := by
              rw [hino]
              exact Bitmap.int32_of_lt (by have := (h.isFile hmem).1; omega)
            have hndir : ¬ e'.fType = ftDirectory := by rw [hty]; decide
            rw [if_neg hndir] at hE ⊢
            rw [if_neg hndir]
            refine wp_next _ (hE.imp fun hall m hm => hall.2 m (by rwa [← hns] at hm))
              fun hnext name' sub' _ => ?_
            refine Prog.wp_ite (fun hdir => absurd (htyp ▸ hdir) hndir) fun _ => ?_
            refine Prog.wp_ite (fun _ => ?_) fun hnfile => absurd (htyp ▸ hty) hnfile
            refine Prog.wp_pure ⟨⟨hshort, fun m hm => hnext m (by rwa [← hns])⟩, hno, rfl,
              fun _ => ?_, ⟨new, hop⟩, hsame⟩
            simp [Walk.rest, joined_cons]

/-- The directory a walk is left in is one of the tree. -/
theorem DirTree.walk_dir (h : DirTree s t) : ∀ {ns : List (List UInt8)} {d p : Nat},
    (∀ n ∈ ns, n ≠ []) → d ∈ t.dirs → p ∈ t.dirs → (walk s d p ns).dir ∈ t.dirs := by
  intro ns
  induction ns with
  | nil => exact fun _ _ hp => hp
  | cons n ns ih =>
      intro d p hne hd _
      rw [walk]
      cases hlook : look s d n with
      | none => exact hd
      | some e =>
          rcases h.entry_cases hd (h.look_sound hd (hne n (by simp)) hlook).1 with hk | hk
          · simp only [if_pos hk.1]
            exact ih (fun m hm => hne m (by simp [hm])) hk.2 hd
          · have hndir : ¬ e.fType = ftDirectory := by rw [hk.1]; decide
            simp only [if_neg hndir]
            exact hd

/-! ### `search_file` -/

/-- A path the calls are made for: absolute, shorter than `MAX_PATH_LEN`, with names that
fit, and either with a name or the root itself. -/
structure AbsPath (path : List UInt8) : Prop where
  head : path.head? = some slash
  text : 0 ∉ path
  length : path.length < 512
  short : ∀ n ∈ names path, n.length ≤ 15
  named : names path ≠ [] ∨ path = [slash]

theorem AbsPath.goodName {path : List UInt8} (h : AbsPath path) {n : List UInt8}
    (hn : n ∈ names path) : GoodName n where
  text := fun h0 => h.text (mem_of_mem_parts path n 0 hn h0).1
  short := h.short n hn
  ne_nil := names_ne_nil hn
  noSlash := fun hs => (mem_of_mem_parts path n slash hn hs).2 rfl

theorem strncmp_cstr {p q : List UInt8} (hp : 0 ∉ p) (hq : 0 ∉ q) :
    strncmp (cstr p) (cstr q) q.length 0 = 0 ↔ p = q := by
  rw [strncmp_eq_zero fun j _ hj => cstr_ne_zero hq (by omega)]
  refine ⟨fun h => eq_of_cstr hp hq fun j hj => h j (by omega) (by omega), ?_⟩
  rintro rfl j _ _
  rfl

/-- The paths `search_file` answers without looking at the disk. -/
theorem isRootPath {path : List UInt8} (htext : 0 ∉ path) :
    (strncmp (cstr path) (cstr [slash]) 1 0 = 0 ∨
      strncmp (cstr path) (cstr [slash, 46]) 2 0 = 0 ∨
      strncmp (cstr path) (cstr [slash, 46, 46]) 3 0 = 0) ↔
    (path = [slash] ∨ path = [slash, 46] ∨ path = [slash, 46, 46]) := by
  rw [← strncmp_cstr htext (q := [slash]) (by decide),
    ← strncmp_cstr htext (q := [slash, 46]) (by decide),
    ← strncmp_cstr htext (q := [slash, 46, 46]) (by decide)]
  rfl

theorem names_root : names [slash] = [] := rfl

theorem names_dot : names [slash, 46] = [dotText] := rfl

theorem names_dotdot : names [slash, 46, 46] = [dotdotText] := rfl

/-- The texts `search_file` answers in front of the loop. -/
def IsShortcut (path : List UInt8) : Prop :=
  path = [slash] ∨ path = [slash, 46] ∨ path = [slash, 46, 46]

/-- A path `search_file` comes back for. -/
def Searchable (s : Fs) (path : List UInt8) : Prop :=
  IsShortcut path ∨ path.head? = some slash ∧ path.length < 512 ∧ NamesFit s 0 (names path)

/-- What `search_file` reports: where the walk ended or, for more than one slash and nothing else,
the root with a number that was on the stack. -/
structure Searched (env : FsEnv) (s₀ : Fs) (path : List UInt8) (no : Int) (r : PathSearchRecord)
    (s : Fs) : Prop where
  named : names path ≠ [] ∨ path = [slash] →
    Reports s₀ (joined slash (names path)) (walk s₀ 0 0 (names path)) no r s
  slashes : names path = [] → path ≠ [slash] → no = int32 env.junk.toNat ∧
    r.fileType = ftDirectory ∧ Held s₀ s r.parentDir.opens ∧
    Inode.Same (s.inodes (r.parentDir.inode s)) (diskInode s₀ 0)

/-- Where `search_file` ends. -/
def endsAt (env : FsEnv) (s : Fs) (path : List UInt8) : Walk :=
  if names path = [] ∧ path ≠ [slash] then .directory env.junk.toNat 0
  else walk s 0 0 (names path)

theorem u32_int32 {n : Nat} (h : n < 2 ^ 32) : (u32 (int32 n)).toNat = n := by
  unfold u32 int32
  rw [Nat.mod_eq_of_lt h, UInt32.toNat_ofNat']
  by_cases hlt : n < 2 ^ 31
  · rw [if_pos hlt]
    omega
  · rw [if_neg hlt]
    omega

theorem one_lt_length {path : List UInt8} (hhead : path.head? = some slash)
    (hne : path ≠ [slash]) : 1 < path.length := by
  obtain ⟨p, rfl⟩ := List.head?_eq_some_iff.mp hhead
  cases p with
  | nil => exact absurd rfl hne
  | cons x p => simp

theorem not_mem_names {path : List UInt8} (htext : 0 ∉ path) {n : List UInt8}
    (hn : n ∈ names path) : 0 ∉ n := fun h0 => htext (mem_of_mem_parts path n 0 hn h0).1

section Search

variable (h : DirTree s₀ t) (hc : Cache s₀) {path : List UInt8} (htext : 0 ∉ path)
include h hc htext

variable (env) in
/-- The root is not looked up. -/
theorem DirTree.searchFile_shortcut (hs : IsShortcut path) : ∃ no r,
    searchFile env path s₀ = .ok ((no, r), s₀) ∧ Searched env s₀ path no r s₀ := by
  have hrootSame : Inode.Same (s₀.inodes s₀.rootInode) (diskInode s₀ 0) := by
    have := hc.same _ h.rootOpen
    rwa [h.rootNo] at this
  have hwalk : walk s₀ 0 0 (names path) = .directory 0 0 := by
    rcases hs with rfl | rfl | rfl
    · rfl
    · simp [names_dot, walk, h.look_dot h.root]
    · simp [names_dotdot, walk, h.look_dotdot h.root, h.rootParent]
  refine ⟨0, { searchedPath := [], parentDir := .root, fileType := ftDirectory }, ?_,
    fun _ => ?_, fun hnil hne => ?_⟩
  · rw [searchFile, if_pos ((isRootPath htext).mpr hs), Prog.pure_run]
  · rw [hwalk]
    exact ⟨rfl, rfl, fun hc => absurd rfl hc, Held.refl hc, hrootSame⟩
  · rcases hs with rfl | rfl | rfl
    · exact absurd rfl hne
    · exact absurd hnil (by decide)
    · exact absurd hnil (by decide)

variable (env) in
/-- `search_file` walks. -/
theorem DirTree.wp_searchFile {E : Halt → Prop} (hE : Prog.Granted E (Searchable s₀ path)) :
    Prog.wp E (searchFile env path) (fun res s' => Searchable s₀ path ∧
      Searched env s₀ path res.1 res.2 s') s₀ := by
  by_cases hs : IsShortcut path
  · obtain ⟨no, r, hrun, hfound⟩ := h.searchFile_shortcut env hc htext hs
    exact Prog.wp_of_run hrun ⟨.inl hs, hfound⟩
  have hE' := hE.imp fun hall => hall.resolve_left hs
  rw [searchFile, if_neg fun hcmp => hs ((isRootPath htext).mp hcmp)]
  by_cases habs : path.head? = some slash ∧ path.length < 512
  swap
  · exact hE'.wp_of_not (fun hall => habs ⟨hall.1, hall.2.1⟩) fun r s' hrun => by
      obtain ⟨_, _, hassert, -⟩ := Prog.bind_run.mp hrun
      obtain ⟨⟨hhead, -, hlen⟩, -⟩ := assertFs_ok hassert
      exact absurd ⟨hhead, hlen⟩ habs
  obtain ⟨hhead, hlen⟩ := habs
  have hne : path ≠ [slash] := fun hc => hs (.inl hc)
  refine Prog.wp_bind (Prog.wp_of_run
    (assertFs_run ⟨hhead, one_lt_length hhead hne, hlen⟩ _ _ s₀) ?_)
  have hjoin := (length_joined_parts slash path).2 (.inr hhead)
  have hcount := length_le_joined slash (names path)
  have hrootSame : Inode.Same (s₀.inodes s₀.rootInode) (diskInode s₀ 0) := by
    have := hc.same _ h.rootOpen
    rwa [h.rootNo] at this
  have hE'' := hE'.imp fun hall => hall.2.2
  have hstart : Prog.Granted E (∀ n ∈ (namesLeft (some path)).head?, n.length ≤ 16) :=
    hE''.imp fun hfits n hn => by
      have := hfits.head n hn
      omega
  refine wp_next (some path) hstart fun _ name u hbuf => ?_
  by_cases hnil : names path = []
  · -- the loop ends before anything was looked up
    obtain rfl : name = [] := (hbuf.resolve_right fun hc => absurd (hnil.symm.trans hc.2)
      (by simp)).1
    obtain ⟨s₁, d, s', hclose, hopen, hheld, hsame⟩ :=
      h.step_run env hc (d := .root) (Held.refl hc) h.root
    simp only []
    rw [searchLoop, if_pos rfl]
    refine Prog.wp_bind (Prog.wp_of_run hclose (Prog.wp_bind (Prog.wp_of_run hopen
      (Prog.wp_pure ⟨.inr ⟨hhead, hlen, ?_⟩, fun hc => ?_, fun _ _ => ⟨rfl, rfl, hheld, hsame⟩⟩))))
    · rw [hnil]
      trivial
    · exact absurd hc (by simp [hnil, hne])
  · refine Prog.wp_mono (h.wp_searchLoop hc (names path) (path.length + 1) u name
      ⟨[], .root, ftUnknown⟩ 0 env.junk s₀ 0 (by unfold names at hcount ⊢; omega) hbuf
      (fun n hn => not_mem_names htext hn) (by unfold names; simp; omega) rfl (Held.refl hc) h.root
      hrootSame (by simpa using h.root) (fun hc => absurd hc hnil) hE'') fun res s' hpost => ?_
    exact ⟨.inr ⟨hhead, hlen, hpost.1⟩, fun _ => by simpa using hpost.2, fun hc => absurd hc hnil⟩

variable (env) in
theorem DirTree.searchFile_found (hs : Searchable s₀ path) : ∃ no r s',
    searchFile env path s₀ = .ok ((no, r), s') ∧ Searched env s₀ path no r s' := by
  have hwp : Prog.wp (fun _ => False) _ _ _ := h.wp_searchFile env hc htext (.of hs)
  obtain ⟨⟨⟨no, r⟩, s'⟩, hrun⟩ := hwp.returns
  exact ⟨no, r, s', hrun, (hwp.of_run hrun).2⟩

end Search

theorem AbsPath.searchable {path : List UInt8} (h : AbsPath path) (s : Fs) : Searchable s path :=
  .inr ⟨h.head, h.length, namesFit_of_short h.short⟩

variable (env) in
/-- `search_file` on a path the calls are made for. -/
theorem DirTree.searchFile_run (h : DirTree s₀ t) (hc : Cache s₀) {path : List UInt8}
    (hp : AbsPath path) : ∃ no r s', searchFile env path s₀ = .ok ((no, r), s') ∧
      Reports s₀ (joined slash (names path)) (walk s₀ 0 0 (names path)) no r s' := by
  obtain ⟨no, r, s', hrun, hfound⟩ := h.searchFile_found env hc hp.text (hp.searchable s₀)
  exact ⟨no, r, s', hrun, hfound.named hp.named⟩

end ZyOs
