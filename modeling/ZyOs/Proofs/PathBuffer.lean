/-
When the names of a path fit the buffers they are copied into.

`path_depth_cnt` parses every name of the path it is given, and the two others parse names of
the path and nothing else.  So all calls leave room for a terminator exactly when every name
has at most 15 characters, and then no buffer is read without one.
-/
import ZyOs.Kernel.PathBuffer
import ZyOs.Proofs.SamePath

namespace ZyOs

open Library

variable {env : FsEnv} {path : List UInt8} {ns : List (List UInt8)} {parse : PathParse}

/-! ### The functions as they are -/

theorem pathDepthCntWith_eq : pathDepthCntWith (parseName "path_depth_cnt") = pathDepthCnt := by
  have hloop : ∀ fuel p depth, depthLoopWith (parseName "path_depth_cnt") fuel p depth
      = depthLoop fuel p depth := by
    intro fuel
    induction fuel with
    | zero => intro p depth; rfl
    | succ fuel ih =>
        intro p depth
        cases p with
        | none => rfl
        | some p =>
            rw [depthLoopWith, depthLoop]
            simp only [nextName, ih]
  funext path
  rw [pathDepthCntWith, pathDepthCnt]
  simp only [hloop]

theorem washPathWith_eq : washPathWith (parseName "wash_path") = washPath := by
  have hloop : ∀ fuel p name new, washLoopWith (parseName "wash_path") fuel p name new
      = washLoop fuel p name new := by
    intro fuel
    induction fuel with
    | zero => intro p name new; rfl
    | succ fuel ih =>
        intro p name new
        rw [washLoopWith, washLoop]
        cases p with
        | none => simp only [nextName, ih]
        | some p => simp only [nextName, ih]
  funext path
  rw [washPathWith, washPath]
  simp only [hloop]

theorem searchFileWith_eq : searchFileWith (parseName "search_file") = searchFile := by
  have hloop : ∀ env fuel, searchLoopWith (parseName "search_file") env fuel
      = searchLoop env fuel := by
    intro env fuel
    induction fuel with
    | zero => rfl
    | succ fuel ih =>
        funext p name r pno dirE
        unfold searchLoopWith searchLoop
        rewrite [ih]
        cases p with
        | none => rfl
        | some p => rfl
  funext env path
  unfold searchFileWith searchFile
  rewrite [hloop]
  rfl

/-! ### Names that fit -/

/-- A parser that takes names of up to 15 characters off a path. -/
def Copies (parse : PathParse) : Prop :=
  ∀ p, (∀ n ∈ (names p).head?, n.length ≤ 15) → parse p = .ok (pathParse p)

theorem pathParse_buffered (p : List UInt8) :
    ∃ name u, pathParse p = (name, u) ∧ Buffered name u (names p) := by
  cases hn : names p with
  | nil => exact ⟨[], none, pathParse_nil hn, .inl ⟨rfl, rfl⟩⟩
  | cons n ns =>
      obtain ⟨u, hparse, hns, -⟩ := pathParse_cons hn
      exact ⟨n, u, hparse, .inr ⟨names_ne_nil (hn ▸ List.mem_cons_self), by rw [hns]⟩⟩

theorem pathParse_length (p : List UInt8) {m : Nat} :
    (pathParse p).1.length ≤ m ↔ ∀ n ∈ (names p).head?, n.length ≤ m := by
  cases hn : names p with
  | nil => simp [pathParse_nil hn]
  | cons n ns =>
      obtain ⟨u, hparse, -⟩ := pathParse_cons hn
      simp [hparse]

theorem copies_parseChecked : Copies parseChecked := by
  intro p hp
  exact if_pos ((pathParse_length p).mpr hp)

theorem copies_parseName (func : String) : Copies (parseName func) := by
  intro p hp
  have hlen := (pathParse_length p).mpr hp
  rw [parseName, if_pos (by simp only [maxFileNameLen]; omega)]

/-- The step to the next name, when it fits. -/
theorem Copies.next (h : Copies parse) (sub : Option (List UInt8))
    (hfit : ∀ n ∈ namesLeft sub, n.length ≤ 15) :
    ∃ name u, nextName parse sub = .ok (name, u) ∧ Buffered name u (namesLeft sub) := by
  cases sub with
  | none => exact ⟨[], none, rfl, .inl ⟨rfl, namesLeft_none⟩⟩
  | some p =>
      obtain ⟨name, u, hparse, hbuf⟩ := pathParse_buffered p
      refine ⟨name, u, ?_, hbuf⟩
      rw [← hparse]
      exact h p fun n hn => hfit n (List.mem_of_mem_head? hn)

theorem Copies.start (h : Copies parse) {p : List UInt8}
    (hfit : ∀ n ∈ names p, n.length ≤ 15) :
    ∃ name u, parse p = .ok (name, u) ∧ Buffered name u (names p) :=
  h.next (some p) hfit

theorem Buffered.fits {name : List UInt8} {u : Option (List UInt8)} (h : Buffered name u ns)
    (hfit : ∀ n ∈ ns, n.length ≤ 15) :
    name.length ≤ 15 ∧ ∀ n ∈ namesLeft u, name ≠ [] → n.length ≤ 15 := by
  rcases h with ⟨rfl, -⟩ | ⟨-, rfl⟩
  · exact ⟨by simp, fun _ _ hne => absurd rfl hne⟩
  · exact ⟨hfit name (by simp), fun n hn _ => hfit n (by simp [hn])⟩

/-- `path_depth_cnt` counts them. -/
theorem Copies.depthLoop (h : Copies parse) : ∀ (ns : List (List UInt8)) (fuel : Nat)
    (sub : Option (List UInt8)) (depth : Nat), ns.length < fuel → namesLeft sub = ns →
    (∀ n ∈ ns, n.length ≤ 15) → ∃ k, depthLoopWith parse fuel sub depth = .ok k := by
  intro ns
  induction ns with
  | nil =>
      intro fuel sub depth hfuel hsub hfit
      obtain ⟨fuel, rfl⟩ : ∃ n, fuel = n + 1 := ⟨fuel - 1, by simp at hfuel; omega⟩
      obtain ⟨name, u, hnext, hbuf⟩ := h.next sub (hsub.symm ▸ hfit)
      rw [hsub] at hbuf
      obtain rfl : name = [] := (hbuf.resolve_right fun hc => absurd hc.2 (by simp)).1
      exact ⟨depth + 1, by rw [depthLoopWith, hnext]; rfl⟩
  | cons n ns ih =>
      intro fuel sub depth hfuel hsub hfit
      obtain ⟨fuel, rfl⟩ : ∃ n, fuel = n + 1 := ⟨fuel - 1, by simp at hfuel; omega⟩
      obtain ⟨name, u, hnext, hbuf⟩ := h.next sub (hsub.symm ▸ hfit)
      rw [hsub] at hbuf
      obtain ⟨hne, hns⟩ := hbuf.resolve_left (by simp)
      obtain ⟨rfl, hrest⟩ := List.cons.inj hns
      rw [List.length_cons] at hfuel
      obtain ⟨k, hk⟩ := ih fuel u (depth + 1) (by omega) hrest.symm
        fun m hm => hfit m (by simp [hm])
      refine ⟨k, ?_⟩
      rw [depthLoopWith, hnext, ok_bind]
      simp only [if_neg hne]
      exact hk

/-- A name that does not fit stops the check of `path_depth_cnt`. -/
theorem depthLoop_overrun : ∀ (ns : List (List UInt8)) (fuel : Nat)
    (sub : Option (List UInt8)) (depth : Nat), ns.length < fuel → namesLeft sub = ns →
    (∃ n ∈ ns, 15 < n.length) → depthLoopWith parseChecked fuel sub depth = .error overrun := by
  intro ns
  induction ns with
  | nil => intro fuel sub depth _ _ hlong; simp at hlong
  | cons n ns ih =>
      intro fuel sub depth hfuel hsub hlong
      obtain ⟨fuel, rfl⟩ : ∃ n, fuel = n + 1 := ⟨fuel - 1, by simp at hfuel; omega⟩
      rw [List.length_cons] at hfuel
      cases sub with
      | none => exact absurd hsub (by simp)
      | some p =>
          have hn : names p = n :: ns := hsub
          obtain ⟨u, hparse, hns, -⟩ := pathParse_cons hn
          have hne : n ≠ [] := names_ne_nil (hn ▸ List.mem_cons_self)
          rw [depthLoopWith, nextName, parseChecked, hparse]
          by_cases hfit : n.length ≤ maxFileNameLen - 1
          · obtain ⟨m, hm, hm15⟩ := hlong
            have hmem : m ∈ ns := by
              refine (List.mem_cons.mp hm).resolve_left fun heq => ?_
              rw [heq] at hm15
              simp only [maxFileNameLen] at hfit
              omega
            rw [if_pos hfit, ok_bind]
            simp only [if_neg hne]
            exact ih fuel u (depth + 1) (by omega) hns ⟨m, hmem, hm15⟩
          · rw [if_neg hfit]
            rfl

/-- `wash_path` gets to the end. -/
theorem Copies.washLoop (h : Copies parse) : ∀ (ns : List (List UInt8)) (fuel : Nat)
    (sub : Option (List UInt8)) (name new : List UInt8), ns.length < fuel →
    Buffered name sub ns → (∀ n ∈ ns, n.length ≤ 15) →
    ∃ r, washLoopWith parse fuel sub name new = .ok r := by
  intro ns
  induction ns with
  | nil =>
      intro fuel sub name new hfuel hbuf _
      obtain ⟨fuel, rfl⟩ : ∃ n, fuel = n + 1 := ⟨fuel - 1, by simp at hfuel; omega⟩
      obtain rfl : name = [] := (hbuf.resolve_right fun hc => absurd hc.2 (by simp)).1
      exact ⟨new, if_pos rfl⟩
  | cons n ns ih =>
      intro fuel sub name new hfuel hbuf hfit
      obtain ⟨fuel, rfl⟩ : ∃ n, fuel = n + 1 := ⟨fuel - 1, by simp at hfuel; omega⟩
      obtain ⟨hne, hns⟩ := hbuf.resolve_left (by simp)
      obtain ⟨rfl, hrest⟩ := List.cons.inj hns
      have hshort := hfit n (by simp)
      rw [List.length_cons] at hfuel
      obtain ⟨name', u, hnext, hbuf'⟩ := h.next sub fun m hm => hfit m (by simp [hrest, hm])
      rw [← hrest] at hbuf'
      obtain ⟨r, hr⟩ := ih fuel u name' (washName new n) (by omega) hbuf' fun m hm =>
        hfit m (by simp [hm])
      refine ⟨r, ?_⟩
      rw [washLoopWith, if_neg hne, if_neg (by simp only [maxFileNameLen]; omega), hnext, ok_bind]
      exact hr

/-! ### `search_file` in any state -/

section Search

variable {s : Fs}

/-- What `search_file` may stop with when the names fit: a failed assertion. -/
theorem stops_searchBlocks {blocks : Nat → UInt32} {name : List UInt8} {cnt : Nat} :
    ∀ (fuel k : Nat),
    Prog.wp Halt.IsPanic (searchBlocks blocks name cnt fuel k) (fun _ _ => True) s := by
  intro fuel
  induction fuel with
  | zero => intro k; exact Prog.wp_pure trivial
  | succ fuel ih =>
      intro k
      refine Prog.wp_ite (fun _ => ih (k + 1)) fun _ => ?_
      refine Prog.wp_bind (wp_readSectors (fun _ he => he) ?_)
      cases searchBlock _ name cnt cnt 0 with
      | some e => exact Prog.wp_pure trivial
      | none => exact ih (k + 1)

theorem stops_searchDirEntry {a : Nat} {name : List UInt8} :
    Prog.wp Halt.IsPanic (searchDirEntry a name) (fun _ _ => True) s := by
  refine Prog.wp_get_bind (Prog.wp_ite (fun _ => ?_) fun _ => stops_searchBlocks 140 0)
  exact Prog.wp_bind (wp_readSectors (fun _ he => he) (stops_searchBlocks 140 0))

theorem stops_inodeOpen {no : Nat} :
    Prog.wp Halt.IsPanic (inodeOpen env no) (fun _ _ => True) s := by
  refine Prog.wp_get_bind ?_
  cases findOpen s.inodes no s.openInodes with
  | some a => exact Prog.wp_bind (Prog.wp_of_run (putInode_run ..) (Prog.wp_pure trivial))
  | none =>
      refine Prog.wp_bind (Prog.wp_lift (fun pos _ => ?_) fun e he => ?_)
      · refine Prog.wp_bind (wp_readSectors (fun _ he => he) ?_)
        exact Prog.wp_bind (Prog.wp_of_run (putInode_run ..)
          (Prog.wp_bind (Prog.wp_modify (Prog.wp_pure trivial))))
      · rcases bind_eq_error.mp he with he | ⟨_, _, he⟩
        · exact ASSERT_error he
        · exact absurd he (by simp)

theorem stops_dirClose (d : DirPtr) : Prog.wp Halt.IsPanic (dirClose d) (fun _ _ => True) s := by
  cases d with
  | root => exact Prog.wp_pure trivial
  | opened a => exact Prog.wp_of_run (inodeClose_run a s) trivial

theorem Copies.searchLoop (h : Copies parse) : ∀ (ns : List (List UInt8)) (fuel : Nat)
    (sub : Option (List UInt8)) (name : List UInt8) (r : PathSearchRecord) (pno dirE : UInt32)
    (s : Fs), ns.length < fuel → Buffered name sub ns → (∀ n ∈ ns, n.length ≤ 15) →
    Prog.wp Halt.IsPanic (searchLoopWith parse env fuel sub name r pno dirE)
      (fun _ _ => True) s := by
  intro ns
  induction ns with
  | nil =>
      intro fuel sub name r pno dirE s hfuel hbuf _
      obtain ⟨fuel, rfl⟩ : ∃ n, fuel = n + 1 := ⟨fuel - 1, by simp at hfuel; omega⟩
      obtain rfl : name = [] := (hbuf.resolve_right fun hc => absurd hc.2 (by simp)).1
      rw [searchLoopWith, if_pos rfl]
      refine Prog.wp_bind (Prog.wp_mono (stops_dirClose _) fun _ s₁ _ => ?_)
      refine Prog.wp_bind (Prog.wp_bind (Prog.wp_mono stops_inodeOpen fun _ s₂ _ => ?_))
      exact Prog.wp_pure (Prog.wp_pure trivial)
  | cons n ns ih =>
      intro fuel sub name r pno dirE s hfuel hbuf hfit
      obtain ⟨fuel, rfl⟩ : ∃ n, fuel = n + 1 := ⟨fuel - 1, by simp at hfuel; omega⟩
      obtain ⟨hne, hns⟩ := hbuf.resolve_left (by simp)
      obtain ⟨rfl, hrest⟩ := List.cons.inj hns
      have hshort := hfit n (by simp)
      rw [List.length_cons] at hfuel
      obtain ⟨name', u, hnext, hbuf'⟩ := h.next sub fun m hm => hfit m (by simp [hrest, hm])
      rw [← hrest] at hbuf'
      have hagain := fun r pno dirE s => ih fuel u name' r pno dirE s (by omega) hbuf' fun m hm =>
        hfit m (by simp [hm])
      rw [searchLoopWith, if_neg hne]
      refine Prog.wp_bind (wp_assertFs (fun _ he => he) fun _ => ?_)
      rw [if_neg (by simp only [maxFileNameLen]; omega)]
      refine Prog.wp_get_bind (Prog.wp_bind (Prog.wp_mono stops_searchDirEntry
        fun found s₁ _ => ?_))
      cases found with
      | none => exact Prog.wp_pure trivial
      | some e =>
          refine Prog.wp_bind (Prog.wp_of_run (Prog.lift_run.mpr ⟨hnext, rfl⟩) ?_)
          refine Prog.wp_ite (fun _ => ?_) fun _ => ?_
          · refine Prog.wp_get_bind (Prog.wp_bind (Prog.wp_mono (stops_dirClose _)
            fun _ s₂ _ => ?_))
            refine Prog.wp_bind (Prog.wp_bind (Prog.wp_mono stops_inodeOpen fun _ s₃ _ => ?_))
            exact Prog.wp_pure (hagain _ _ _ _)
          · exact Prog.wp_ite (fun _ => Prog.wp_pure trivial) fun _ => hagain _ _ _ _

/-- `search_file` on names that fit. -/
theorem Copies.searchFile (h : Copies parse) (hfit : ∀ n ∈ names path, n.length ≤ 15) :
    Prog.wp Halt.IsPanic (searchFileWith parse env path) (fun _ _ => True) s := by
  refine Prog.wp_ite (fun _ => Prog.wp_pure trivial) fun _ => ?_
  refine Prog.wp_bind (wp_assertFs (fun _ he => he) fun habs => ?_)
  obtain ⟨name, u, hparse, hbuf⟩ := h.start hfit
  have hlen := (length_joined_parts slash path).2 (.inr habs.1)
  have hcount := length_le_joined slash (names path)
  refine Prog.wp_bind (Prog.wp_of_run (Prog.lift_run.mpr ⟨hparse, rfl⟩) ?_)
  exact h.searchLoop (names path) _ u name _ _ _ s (by unfold names at hcount ⊢; omega) hbuf hfit

end Search

/-! ### All calls -/

/-- Every call of `path_parse` that `path_depth_cnt`, `wash_path` and `search_file` make for a path
leaves room for a terminator, and no buffer is read without one. -/
structure PathFits (env : FsEnv) (path : List UInt8) : Prop where
  depth : pathDepthCntWith parseChecked path ≠ .error overrun
  wash : washPathWith parseChecked path ≠ .error overrun
  washTerminated : washPath path ≠ .error (.fault "wash_path")
  search : ∀ s, searchFileWith parseChecked env path s ≠ .error overrun
  searchTerminated : ∀ s, searchFile env path s ≠ .error (.fault "search_file")

theorem names_length_le (p : List UInt8) : (names p).length ≤ p.length + 1 := by
  have hlen := (length_joined_parts slash p).1
  have hcount := length_le_joined slash (names p)
  unfold names at hcount ⊢
  omega

theorem Copies.pathDepthCnt (h : Copies parse) (hfit : ∀ n ∈ names path, n.length ≤ 15) :
    pathDepthCntWith parse path = .error (.fault "path_depth_cnt") ∨
      ∃ k, pathDepthCntWith parse path = .ok k := by
  obtain ⟨name, u, hparse, hbuf⟩ := h.start hfit
  have hlen := names_length_le path
  rw [pathDepthCntWith, hparse, ok_bind]
  rcases hbuf with ⟨rfl, -⟩ | ⟨hne, hns⟩
  · exact .inl (if_pos rfl)
  · refine .inr ?_
    rw [hns, List.length_cons] at hlen
    obtain ⟨k, hk⟩ := h.depthLoop (namesLeft u) (path.length + 1) u 0 (by omega) rfl fun n hn =>
      hfit n (by simp [hns, hn])
    exact ⟨k, (if_neg hne).trans hk⟩

theorem Copies.washPath (h : Copies parse) (hfit : ∀ n ∈ names path, n.length ≤ 15) :
    (∃ e : Halt, e.IsPanic ∧ washPathWith parse path = .error e) ∨
      ∃ r, washPathWith parse path = .ok r := by
  rw [washPathWith]
  by_cases habs : path.head? = some slash
  · refine .inr ?_
    obtain ⟨name, u, hparse, hbuf⟩ := h.start hfit
    have hlen := (length_joined_parts slash path).2 (.inr habs)
    have hcount := length_le_joined slash (names path)
    obtain ⟨r, hr⟩ := h.washLoop (names path) (path.length + 1) u name [slash]
      (by unfold names at hcount ⊢; omega) hbuf hfit
    rw [ASSERT_pos habs, ok_bind, hparse, ok_bind]
    by_cases hne : name = []
    · exact ⟨[slash], if_pos hne⟩
    · exact ⟨r, (if_neg hne).trans hr⟩
  · refine .inl ⟨.panic "wash_path" "old_abs_path[0] == '/'", trivial, ?_⟩
    rw [ASSERT_neg habs]
    rfl

/-- **All calls fit exactly when no name of the path is longer than 15 characters.** -/
theorem path_fits_iff (env : FsEnv) (path : List UInt8) :
    PathFits env path ↔ ∀ n ∈ names path, n.length ≤ 15 := by
  have hoverrun : ¬ overrun.IsPanic := fun h => h
  constructor
  · intro h n hn
    by_contra hlong
    refine h.depth ?_
    cases hns : names path with
    | nil => simp [hns] at hn
    | cons m ns =>
        obtain ⟨u, hparse, hrest, -⟩ := pathParse_cons hns
        have hlen := names_length_le path
        rw [hns, List.length_cons] at hlen
        rw [pathDepthCntWith, parseChecked, hparse]
        by_cases hm : m.length ≤ maxFileNameLen - 1
        · have hmem : n ∈ ns := by
            rw [hns] at hn
            refine (List.mem_cons.mp hn).resolve_left fun heq => ?_
            rw [heq] at hlong
            exact hlong hm
          rw [if_pos hm, ok_bind]
          refine (if_neg (names_ne_nil (hns ▸ List.mem_cons_self))).trans ?_
          exact depthLoop_overrun ns _ u 0 (by omega) hrest ⟨n, hmem, by omega⟩
        · rw [if_neg hm]
          rfl
  · intro hfit
    refine ⟨fun hrun => ?_, fun hrun => ?_, fun hrun => ?_, fun s hrun => ?_, fun s hrun => ?_⟩
    · rcases copies_parseChecked.pathDepthCnt hfit with hres | ⟨k, hres⟩
      · exact absurd (Except.error.inj (hres.symm.trans hrun)) (by decide)
      · exact absurd (hres.symm.trans hrun) (by simp)
    · rcases copies_parseChecked.washPath hfit with ⟨e, he, hres⟩ | ⟨r, hres⟩
      · exact hoverrun (Except.error.inj (hres.symm.trans hrun) ▸ he)
      · exact absurd (hres.symm.trans hrun) (by simp)
    · rw [← washPathWith_eq] at hrun
      rcases (copies_parseName "wash_path").washPath hfit with ⟨e, he, hres⟩ | ⟨r, hres⟩
      · exact (Except.error.inj (hres.symm.trans hrun) ▸ he : (Halt.fault "wash_path").IsPanic)
      · exact absurd (hres.symm.trans hrun) (by simp)
    · exact hoverrun ((copies_parseChecked.searchFile hfit).of_error hrun)
    · rw [← searchFileWith_eq] at hrun
      exact ((copies_parseName "search_file").searchFile hfit).of_error hrun

/-- `/` and 16 characters. -/
def longPath : List UInt8 := slash :: List.replicate 16 97

/-- The buffer is full without a terminator, and `wash_path` reads on behind it. -/
theorem path_fits_long : longPath.length < 512 ∧ ¬ PathFits upwardEnv longPath ∧
    washPath longPath = .error (.fault "wash_path") :=
  ⟨by decide, fun h => h.depth (by decide), by decide⟩

end ZyOs
