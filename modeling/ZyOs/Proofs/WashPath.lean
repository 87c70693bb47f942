/-
The shell and the kernel agree on a path.

The text `wash_path` builds spells a stack of names: a proper name is pushed, `..` pops
one and `.` does nothing.  The kernel follows the links on disk.  As long as the names
lead from directory to directory the stack is a way from the root to where the kernel
is, because `..` in a directory is the directory the last name was found in.
-/
import ZyOs.Kernel.Shell
import ZyOs.Proofs.Walk

namespace ZyOs

open Library

/-! ### The text -/

/-- The path that has the names of a stack. -/
def spell (stack : List (List UInt8)) : List UInt8 :=
  if stack = [] then [slash] else joined slash stack

/-- The stack after one more name. -/
def pushName (stack : List (List UInt8)) (name : List UInt8) : List (List UInt8) :=
  if name = dotdotText then stack.dropLast else if name = dotText then stack else stack ++ [name]

variable {stack ns : List (List UInt8)} {name : List UInt8}

theorem baseName_snoc {l : List UInt8} (h : slash ∉ name) :
    baseName (l ++ slash :: name) = name := by
  unfold baseName
  rw [List.reverse_append, List.reverse_cons, List.append_assoc, List.takeWhile_append_of_pos]
  · simp
  · intro x hx
    simpa using fun hs : x = slash => h (hs ▸ List.mem_reverse.mp hx)

theorem spell_snoc (stack : List (List UInt8)) (name : List UInt8) :
    spell (stack ++ [name]) = joined slash stack ++ slash :: name := by
  simp [spell, joined]

theorem cutLast_spell (h : ∀ n ∈ stack, slash ∉ n) :
    cutLast (spell stack) = spell stack.dropLast := by
  cases hs : stack using List.reverseRecOn with
  | nil => rfl
  | append_singleton l n =>
      rw [List.dropLast_concat, spell_snoc, cutLast, baseName_snoc (h n (by simp [hs]))]
      have hlen :
          (joined slash l ++ slash :: n).length - n.length - 1 = (joined slash l).length := by
        simp only [List.length_append, List.length_cons]
        omega
      simp only [hlen]
      by_cases hl : l = []
      · subst hl
        rfl
      · have hpos := length_le_joined slash l
        have := List.length_pos_of_ne_nil hl
        rw [if_pos (by omega), List.take_left, spell, if_neg hl]

theorem joined_ne_root (h : ∀ n ∈ stack, n ≠ []) (hne : stack ≠ []) :
    joined slash stack ≠ [slash] := by
  obtain ⟨n, l, rfl⟩ := List.exists_cons_of_ne_nil hne
  rw [joined_cons]
  simp [h n (by simp)]

theorem spell_text (h : ∀ n ∈ stack, GoodName n) : 0 ∉ spell stack := by
  unfold spell
  split
  · decide
  · intro h0
    obtain ⟨n, hn, hx⟩ := List.mem_flatMap.mp h0
    rcases List.mem_cons.mp hx with hx | hx
    · exact absurd hx (by decide)
    · exact (h n hn).text hx

/-- One round of `wash_path`. -/
theorem washName_spell (h : ∀ n ∈ stack, GoodName n) (hname : GoodName name) :
    washName (spell stack) name = spell (pushName stack name) := by
  have hdd : strncmp (cstr [46, 46]) (cstr name) 2 0 = 0 ↔ name = dotdotText :=
    (strncmp_comm _ _ _ _).trans (strncmp_cstr hname.text (q := dotdotText) (by decide))
  have hd : strncmp (cstr [46]) (cstr name) 1 0 = 0 ↔ name = dotText :=
    (strncmp_comm _ _ _ _).trans (strncmp_cstr hname.text (q := dotText) (by decide))
  unfold washName pushName
  by_cases h1 : name = dotdotText
  · rw [if_pos (hdd.mpr h1), if_pos h1, cutLast_spell fun n hn => (h n hn).noSlash]
  · rw [if_neg (fun hc => h1 (hdd.mp hc)), if_neg h1]
    by_cases h2 : name = dotText
    · rw [if_neg (fun hc => hc (hd.mpr h2)), if_pos h2]
    · rw [if_pos (fun hc => h2 (hd.mp hc)), if_neg h2, spell_snoc]
      have hroot := strncmp_cstr (spell_text h) (q := [slash]) (by decide)
      by_cases hs : stack = []
      · rw [if_neg (fun hc => hc (hroot.mpr (by simp [spell, hs])))]
        simp [spell, hs, joined]
      · rw [if_pos fun hc => joined_ne_root (fun n hn => (h n hn).ne_nil) hs
          (by simpa [spell, hs] using hroot.mp hc)]
        simp [spell, hs]

/-! ### The walk -/

/-- The names of `ns` lead from the root to the directory `dir`. -/
def LeadsTo (s : Fs) (ns : List (List UInt8)) (dir : Nat) : Prop :=
  ∃ parent, walk s 0 0 ns = .directory dir parent

variable {s : Fs} {t : Tree} {dir : Nat}

theorem walk_congr {s' : Fs} (hdisk : s'.disk = s.disk) (hpart : s'.part = s.part) :
    ∀ (ns : List (List UInt8)) (d p : Nat), walk s' d p ns = walk s d p ns := by
  intro ns
  have hlook : ∀ d n, look s' d n = look s d n := fun d n => by
    simp only [look, diskInode_congr hdisk hpart, hdisk]
  induction ns with
  | nil => intro d p; rfl
  | cons n ns ih => intro d p; simp only [walk, hlook, ih]

theorem walk_append {s : Fs} : ∀ {ns ms : List (List UInt8)} {d p d' p' : Nat},
    walk s d p ns = .directory d' p' → walk s d p (ns ++ ms) = walk s d' p' ms := by
  intro ns
  induction ns with
  | nil =>
      intro ms d p d' p' h
      obtain ⟨rfl, rfl⟩ := Walk.directory.inj h
      rfl
  | cons n ns ih =>
      intro ms d p d' p' h
      rw [List.cons_append, walk]
      rw [walk] at h
      cases hl : look s d n with
      | none => simp [hl] at h
      | some e =>
          simp only [hl] at h ⊢
          by_cases hty : e.fType = ftDirectory
          · rw [if_pos hty] at h ⊢
            exact ih h
          · simp [hty] at h

/-- A walk that does not end at a directory does not go on. -/
theorem walk_stop {s : Fs} : ∀ (ns ms : List (List UInt8)) {d p : Nat},
    (walk s d p ns).fileType ≠ ftDirectory → (walk s d p (ns ++ ms)).fileType ≠ ftDirectory := by
  intro ns
  induction ns with
  | nil => intro ms d p h; exact absurd rfl h
  | cons n ns ih =>
      intro ms d p h
      rw [List.cons_append, walk]
      rw [walk] at h
      cases hl : look s d n with
      | none => exact Walk.missing_ne _ _
      | some e =>
          simp only [hl] at h ⊢
          by_cases hty : e.fType = ftDirectory
          · rw [if_pos hty] at h ⊢
            exact ih ms h
          · rw [if_neg hty]
            exact Walk.file_ne _ _ _

/-- A way to a directory with one name more leads on from a directory. -/
theorem leadsTo_snoc : LeadsTo s (ns ++ [name]) dir ↔
    ∃ d e, LeadsTo s ns d ∧ look s d name = some e ∧ e.fType = ftDirectory ∧ e.iNo = dir := by
  constructor
  · rintro ⟨p, h⟩
    cases hw : walk s 0 0 ns with
    | missing d rest =>
        exact absurd (by rw [h]; rfl) (walk_stop ns [name] (hw ▸ Walk.missing_ne d rest))
    | file no d rest =>
        exact absurd (by rw [h]; rfl) (walk_stop ns [name] (hw ▸ Walk.file_ne no d rest))
    | directory d p' =>
        rw [walk_append hw, walk] at h
        cases hl : look s d name with
        | none => simp [hl] at h
        | some e =>
            simp only [hl] at h
            by_cases hty : e.fType = ftDirectory
            · rw [if_pos hty] at h
              exact ⟨d, e, ⟨p', hw⟩, hl, hty, (Walk.directory.inj h).1⟩
            · simp [hty] at h
  · rintro ⟨d, e, ⟨p, hw⟩, hl, hty, rfl⟩
    refine ⟨d, ?_⟩
    rw [walk_append hw, walk]
    simp [hl, hty, walk]

/-- A way to a directory stays inside the tree. -/
theorem DirTree.leadsTo_mem (h : DirTree s t) : ∀ {ns : List (List UInt8)} {dir : Nat},
    (∀ n ∈ ns, n ≠ []) → LeadsTo s ns dir → dir ∈ t.dirs := by
  intro ns
  induction ns using List.reverseRecOn with
  | nil =>
      rintro dir - ⟨p, hw⟩
      obtain ⟨rfl, -⟩ := Walk.directory.inj hw
      exact h.root
  | append_singleton ns n ih =>
      intro dir hne hl
      obtain ⟨d, e, hd, hlook, hty, rfl⟩ := leadsTo_snoc.mp hl
      have hmem := ih (fun m hm => hne m (by simp [hm])) hd
      rcases h.entry_cases hmem (h.look_sound hmem (hne n (by simp)) hlook).1 with hk | hk
      · exact hk.2
      · exact absurd (hty.symm.trans hk.1) (by decide)

/-- A walk that ends at a file ends at one of the tree. -/
theorem DirTree.walk_file (h : DirTree s t) : ∀ {ns : List (List UInt8)} {d p no dir : Nat}
    {rest : List (List UInt8)}, (∀ n ∈ ns, n ≠ []) → d ∈ t.dirs →
    walk s d p ns = .file no dir rest → no ∈ t.files := by
  intro ns
  induction ns with
  | nil => intro d p no dir rest _ _ hw; cases hw
  | cons n ns ih =>
      intro d p no dir rest hne hd hw
      rw [walk] at hw
      cases hlook : look s d n with
      | none => simp [hlook] at hw
      | some e =>
          simp only [hlook] at hw
          rcases h.entry_cases hd (h.look_sound hd (hne n (by simp)) hlook).1 with hk | hk
          · rw [if_pos hk.1] at hw
            exact ih (fun m hm => hne m (by simp [hm])) hk.2 hw
          · rw [if_neg (by rw [hk.1]; decide), Walk.file.injEq] at hw
            exact hw.1 ▸ hk.2

/-- The step of the simulation: a name that leads on to a directory does so for the stack. -/
theorem DirTree.push_leadsTo (h : DirTree s t) (hproper : ∀ n ∈ stack, n ≠ [] ∧ Proper n)
    (hl : LeadsTo s stack dir) {e : Entry} (hlook : look s dir name = some e)
    (hty : e.fType = ftDirectory) : LeadsTo s (pushName stack name) e.iNo := by
  have hdir := h.leadsTo_mem (fun n hn => (hproper n hn).1) hl
  unfold pushName
  by_cases h1 : name = dotdotText
  · rw [if_pos h1]
    rw [h1, h.look_dotdot hdir] at hlook
    obtain rfl := Option.some.inj hlook
    cases hs : stack using List.reverseRecOn with
    | nil =>
        subst hs
        obtain ⟨p, hw⟩ := hl
        obtain ⟨rfl, -⟩ := Walk.directory.inj hw
        exact ⟨0, by simp [h.rootParent, walk]⟩
    | append_singleton l n =>
        subst hs
        obtain ⟨d, e', hd, hlook', hty', rfl⟩ := leadsTo_snoc.mp hl
        have hmem := h.leadsTo_mem (fun m hm => (hproper m (by simp [hm])).1) hd
        have he := h.look_sound hmem (hproper n (by simp)).1 hlook'
        rcases h.kids d hmem e' he.1 (he.2 ▸ (hproper n (by simp)).2) with hk | hk
        · rw [List.dropLast_concat, hk.2.2.2]
          exact hd
        · exact absurd (hty'.symm.trans hk.1) (by decide)
  · rw [if_neg h1]
    by_cases h2 : name = dotText
    · rw [if_pos h2]
      rw [h2, h.look_dot hdir] at hlook
      obtain rfl := Option.some.inj hlook
      exact hl
    · rw [if_neg h2]
      exact leadsTo_snoc.mpr ⟨dir, e, hl, hlook, hty, rfl⟩

/-! ### Whole paths -/

theorem pushName_mem {n : List UInt8} (hn : n ∈ pushName stack name) :
    n ∈ stack ∨ (n = name ∧ Proper n) := by
  unfold pushName at hn
  by_cases h1 : name = dotdotText
  · rw [if_pos h1] at hn
    exact .inl (List.mem_of_mem_dropLast hn)
  · rw [if_neg h1] at hn
    by_cases h2 : name = dotText
    · rw [if_pos h2] at hn
      exact .inl hn
    · rw [if_neg h2, List.mem_append, List.mem_singleton] at hn
      exact hn.imp_right fun hn => ⟨hn, by rw [hn]; exact ⟨h2, h1⟩⟩

/-- Only proper names of the path get on the stack. -/
theorem stack_mem : ∀ {ns : List (List UInt8)} {n : List UInt8}, n ∈ ns.foldl pushName [] →
    n ∈ ns ∧ Proper n := by
  intro ns
  induction ns using List.reverseRecOn with
  | nil => simp
  | append_singleton ns m ih =>
      intro n hn
      rw [List.foldl_append, List.foldl_cons, List.foldl_nil] at hn
      rcases pushName_mem hn with hn | ⟨rfl, hp⟩
      · exact ⟨by simp [(ih hn).1], (ih hn).2⟩
      · exact ⟨by simp, hp⟩

theorem length_pushName (stack : List (List UInt8)) (name : List UInt8) :
    (joined slash (pushName stack name)).length
      ≤ (joined slash stack).length + (joined slash [name]).length := by
  unfold pushName
  by_cases h1 : name = dotdotText
  · rw [if_pos h1]
    cases stack using List.reverseRecOn with
    | nil => simp [joined]
    | append_singleton l n =>
        rw [List.dropLast_concat, joined_append, List.length_append]
        omega
  · rw [if_neg h1]
    by_cases h2 : name = dotText
    · rw [if_pos h2]
      omega
    · rw [if_neg h2, joined_append, List.length_append]

theorem length_stack (ns : List (List UInt8)) :
    (joined slash (ns.foldl pushName [])).length ≤ (joined slash ns).length := by
  induction ns using List.reverseRecOn with
  | nil => simp
  | append_singleton ns n ih =>
      rw [List.foldl_append, List.foldl_cons, List.foldl_nil, joined_append, List.length_append]
      have := length_pushName (ns.foldl pushName []) n
      omega

theorem washLoop_run : ∀ (ns : List (List UInt8)) (fuel : Nat) (sub : Option (List UInt8))
    (name : List UInt8) (stack : List (List UInt8)), ns.length < fuel → Buffered name sub ns →
    (∀ n ∈ ns, GoodName n) → (∀ n ∈ stack, GoodName n) →
    washLoop fuel sub name (spell stack) = .ok (spell (ns.foldl pushName stack)) := by
  intro ns
  induction ns with
  | nil =>
      intro fuel sub name stack hfuel hbuf _ _
      obtain ⟨fuel, rfl⟩ : ∃ n, fuel = n + 1 := ⟨fuel - 1, by simp at hfuel; omega⟩
      obtain rfl : name = [] := by
        rcases hbuf with hb | hb
        · exact hb.1
        · exact absurd hb.2 (by simp)
      simp [washLoop]
  | cons n ns ih =>
      intro fuel sub name stack hfuel hbuf hgood hstack
      obtain ⟨fuel, rfl⟩ : ∃ n, fuel = n + 1 := ⟨fuel - 1, by simp at hfuel; omega⟩
      obtain ⟨hne, hname⟩ := hbuf.resolve_left (by simp)
      obtain ⟨rfl, hns⟩ := List.cons.inj hname
      have hn := hgood n (by simp)
      have hshort := hn.short
      obtain ⟨name', sub', hbuf', hsome, hnone⟩ := parseName_next "wash_path" sub
        (fun m hm => by have := (hgood m (by simp [hns, hm])).short; omega)
      rw [List.foldl_cons, washLoop, if_neg hne, if_neg (by simp only [maxFileNameLen]; omega),
        washName_spell hstack hn]
      refine Eq.trans ?_ (ih fuel sub' name' _ (by simpa using hfuel) (hns ▸ hbuf')
        (fun m hm => hgood m (by simp [hm])) fun m hm => ?_)
      · cases sub with
        | none =>
            obtain ⟨rfl, rfl⟩ := hnone rfl
            rfl
        | some p => simp only [hsome p rfl, ok_bind]
      · rcases pushName_mem hm with hm | ⟨rfl, -⟩
        · exact hstack m hm
        · exact hn

theorem names_spell (h : ∀ n ∈ stack, GoodName n) : names (spell stack) = stack := by
  by_cases hs : stack = []
  · subst hs
    rfl
  · rw [spell, if_neg hs]
    exact parts_joined fun n hn => ⟨(h n hn).ne_nil, (h n hn).noSlash⟩

variable {path : List UInt8}

theorem stack_good (hgood : ∀ n ∈ names path, GoodName n) :
    ∀ n ∈ (names path).foldl pushName [], GoodName n :=
  fun n hn => hgood n (stack_mem hn).1

/-- `wash_path` spells the stack of the path. -/
theorem washPath_run (hhead : path.head? = some slash) (hgood : ∀ n ∈ names path, GoodName n) :
    washPath path = .ok (spell ((names path).foldl pushName [])) := by
  have hlen := (length_joined_parts slash path).2 (.inr hhead)
  have hcount := length_le_joined slash (names path)
  rw [washPath, ASSERT_pos hhead, ok_bind]
  cases hn : names path with
  | nil => simp [parseName_nil hn, spell]
  | cons n ns =>
      have hfirst := hgood n (by simp [hn])
      obtain ⟨rest, hparse, hns, -⟩ := parseName_cons "wash_path" hn
        (by have := hfirst.short; omega)
      rw [hparse, ok_bind]
      simp only [hfirst.ne_nil, if_false]
      have := washLoop_run (n :: ns) (path.length + 1) rest n [] (by
        rw [hn] at hcount; unfold names at hn; rw [hn] at hlen; omega)
        (.inr ⟨hfirst.ne_nil, by rw [hns]⟩) (fun m hm => hgood m (hn ▸ hm)) (by simp)
      simpa [spell] using this

/-- The clean path is one as well. -/
theorem AbsPath.spell (hp : AbsPath path) :
    AbsPath (ZyOs.spell ((names path).foldl pushName [])) := by
  have hgood := stack_good fun n hn => hp.goodName (n := n) hn
  set stack := (names path).foldl pushName [] with hstack
  have hlen : (joined slash stack).length ≤ path.length :=
    (length_stack _).trans ((length_joined_parts slash path).2 (.inr hp.head))
  have hpath := hp.length
  refine ⟨?_, ?_, ?_, fun n hn => (hgood n (by rwa [names_spell hgood] at hn)).short, ?_⟩
  · unfold ZyOs.spell
    split
    · rfl
    · rename_i hne
      obtain ⟨n, l, hl⟩ := List.exists_cons_of_ne_nil hne
      rw [hl, joined_cons, List.head?_cons]
  · exact spell_text hgood
  · unfold ZyOs.spell
    split
    · simp
    · omega
  · rw [names_spell hgood]
    by_cases hs : stack = []
    · exact .inr (by rw [ZyOs.spell, if_pos hs])
    · exact .inl hs

/-- Names that lead to a directory lead there when they are cleaned. -/
theorem DirTree.stack_leadsTo (h : DirTree s t) : ∀ {ns : List (List UInt8)} {dir : Nat},
    (∀ n ∈ ns, n ≠ []) → LeadsTo s ns dir → LeadsTo s (ns.foldl pushName []) dir := by
  intro ns
  induction ns using List.reverseRecOn with
  | nil => exact fun _ hl => hl
  | append_singleton ns n ih =>
      intro dir hne hl
      obtain ⟨d, e, hd, hlook, hty, rfl⟩ := leadsTo_snoc.mp hl
      rw [List.foldl_append, List.foldl_cons, List.foldl_nil]
      have hns : ∀ m ∈ ns, m ≠ [] := fun m hm => hne m (by simp [hm])
      exact h.push_leadsTo (fun m hm => ⟨hns m (stack_mem hm).1, (stack_mem hm).2⟩)
        (ih hns hd) hlook hty

/-- The last name may name a file as well. -/
theorem DirTree.walk_stack (h : DirTree s t) (name : List UInt8) (hne : ∀ m ∈ ns ++ [name], m ≠ [])
    (hl : LeadsTo s ns dir) (hfound : (walk s 0 0 (ns ++ [name])).result ≠ -1) :
    (walk s 0 0 ((ns ++ [name]).foldl pushName [])).result
        = (walk s 0 0 (ns ++ [name])).result ∧
      (walk s 0 0 ((ns ++ [name]).foldl pushName [])).fileType
        = (walk s 0 0 (ns ++ [name])).fileType := by
  have hns : ∀ m ∈ ns, m ≠ [] := fun m hm => hne m (by simp [hm])
  have hdir := h.leadsTo_mem hns hl
  obtain ⟨p, hp⟩ := hl
  have hwalk : walk s 0 0 (ns ++ [name]) = walk s dir p [name] := walk_append hp
  cases hlook : look s dir name with
  | none =>
      rw [hwalk, walk, hlook] at hfound
      exact absurd rfl hfound
  | some e =>
      by_cases hty : e.fType = ftDirectory
      · have hl' := leadsTo_snoc.mpr ⟨dir, e, ⟨p, hp⟩, hlook, hty, rfl⟩
        obtain ⟨q, hq⟩ := h.stack_leadsTo hne hl'
        obtain ⟨q', hq'⟩ := hl'
        rw [hq, hq']
        exact ⟨rfl, rfl⟩
      · obtain ⟨q, hq⟩ := h.stack_leadsTo hns ⟨p, hp⟩
        have hpush : pushName (ns.foldl pushName []) name = ns.foldl pushName [] ++ [name] := by
          unfold pushName
          rw [if_neg, if_neg]
          · rintro rfl
            rw [h.look_dot hdir] at hlook
            exact hty (Option.some.inj hlook ▸ rfl)
          · rintro rfl
            rw [h.look_dotdot hdir] at hlook
            exact hty (Option.some.inj hlook ▸ rfl)
        rw [List.foldl_append, List.foldl_cons, List.foldl_nil, hpush, walk_append hq, hwalk]
        simp [walk, hlook, hty]

/-- The path the shell passes on names what the kernel finds under the path that was typed. -/
theorem searchFile_washPath (env : FsEnv) (s s₁ : Fs) (t : Tree) (path : List UInt8) (no : Int)
    (r : PathSearchRecord) (htree : DirTree s t) (hcache : Cache s) (hpath : AbsPath path)
    (hnamed : names path ≠ []) (hrun : searchFile env path s = .ok ((no, r), s₁))
    (hfound : no ≠ -1) (hdirs : ∃ dir, LeadsTo s (names path).dropLast dir) :
    ∃ clean r' s₂, washPath path = .ok clean ∧
      searchFile env clean s = .ok ((no, r'), s₂) ∧ r'.fileType = r.fileType := by
  obtain ⟨dir, hl⟩ := hdirs
  obtain ⟨no₁, r₁, s₁', hrun₁, hrep⟩ := htree.searchFile_run env hcache hpath
  rw [hrun] at hrun₁
  obtain ⟨hres, rfl⟩ := Prod.mk.inj (Except.ok.inj hrun₁)
  obtain ⟨rfl, rfl⟩ := Prod.mk.inj hres
  obtain ⟨no₂, r₂, s₂, hrun₂, hrep₂⟩ := htree.searchFile_run env hcache hpath.spell
  have hsnoc : names path = (names path).dropLast ++ [(names path).getLast hnamed] :=
    (List.dropLast_append_getLast hnamed).symm
  have hne : ∀ m ∈ names path, m ≠ [] := fun m hm => names_ne_nil hm
  have hwalk := htree.walk_stack ((names path).getLast hnamed) (hsnoc ▸ hne) hl
    (by rw [← hsnoc, ← hrep.result]; exact hfound)
  have hgood : ∀ n ∈ names path, GoodName n := fun n hn => hpath.goodName hn
  rw [← hsnoc, ← names_spell (stack_good hgood)] at hwalk
  refine ⟨_, r₂, s₂, washPath_run hpath.head hgood, ?_, ?_⟩
  · rw [hrun₂, hrep₂.result, hwalk.1, ← hrep.result]
  · rw [hrep₂.fileType, hwalk.2, ← hrep.fileType]

/-- `/d/../d/.` -/
def windingPath : List UInt8 := [47, 100, 47, 46, 46, 47, 100, 47, 46]

theorem windingPath_abs : AbsPath windingPath where
  head := rfl
  text := by decide
  length := by decide
  short := by decide
  named := by decide

theorem searchFile_washPath_winding : ∃ clean r' s₂, washPath windingPath = .ok clean ∧
    searchFile upwardEnv clean smallFs = .ok ((1, r'), s₂) ∧ r'.fileType = ftDirectory := by
  obtain ⟨no, r, s₁, hrun, hrep⟩ := smallFs_tree.searchFile_run upwardEnv smallFs_cache
    windingPath_abs
  have hwalk : walk smallFs 0 0 (names windingPath) = .directory 1 1 := by decide +kernel
  have hno : no = 1 := by rw [hrep.result, hwalk]; rfl
  have hty : r.fileType = ftDirectory := by rw [hrep.fileType, hwalk]; rfl
  rw [hno] at hrun
  obtain ⟨clean, r', s₂, h⟩ := searchFile_washPath upwardEnv smallFs s₁ smallTree windingPath 1 r
    smallFs_tree smallFs_cache windingPath_abs (by decide) hrun (by decide)
    ⟨1, 0, by decide +kernel⟩
  exact ⟨clean, r', s₂, h.1, h.2.1, h.2.2.trans hty⟩

end ZyOs
