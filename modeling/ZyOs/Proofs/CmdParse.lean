/-
What `cmd_parse` makes of a line.

A round of its loop takes one word off the rest of the line, stores where it begins and puts a
zero behind it (`parse_word`).  The count is looked at behind the store, and for 17 words not at
all.
-/
import ZyOs.Kernel.CommandLine
import ZyOs.Library.CString
import ZyOs.Library.Words

namespace ZyOs

open Library

variable {token : UInt8} {cmdStr : Mem} {argv : Nat → Option Nat} {line rest w : List UInt8}
  {ws : List (List UInt8)} {next : Nat}

/-! ### The inner loops -/

theorem skipToken_run : ∀ n left next, n < left → (∀ j < n, cmdStr (next + j) = token) →
    cmdStr (next + n) ≠ token → skipToken cmdStr token left next = .ok (next + n) := by
  intro n
  induction n with
  | zero =>
      intro left next hleft _ hstop
      obtain ⟨left, rfl⟩ : ∃ k, left = k + 1 := ⟨left - 1, by omega⟩
      rw [skipToken, if_neg (by simpa using hstop)]
      rfl
  | succ n ih =>
      intro left next hleft hskip hstop
      obtain ⟨left, rfl⟩ : ∃ k, left = k + 1 := ⟨left - 1, by omega⟩
      have hfirst : cmdStr next = token := hskip 0 (by omega)
      have hshift : ∀ j, next + 1 + j = next + (j + 1) := fun j => by omega
      rw [skipToken, if_pos hfirst, ih left (next + 1) (by omega)
        (fun j hj => by rw [hshift]; exact hskip (j + 1) (by omega)) (by rwa [hshift]), hshift]

theorem skipWord_run : ∀ n left next, n < left →
    (∀ j < n, cmdStr (next + j) ≠ 0 ∧ cmdStr (next + j) ≠ token) →
    (cmdStr (next + n) = 0 ∨ cmdStr (next + n) = token) →
    skipWord cmdStr token left next = .ok (next + n) := by
  intro n
  induction n with
  | zero =>
      intro left next hleft _ hstop
      obtain ⟨left, rfl⟩ : ∃ k, left = k + 1 := ⟨left - 1, by omega⟩
      have hnext : ¬ (cmdStr next ≠ 0 ∧ cmdStr next ≠ token) := fun hc => hstop.elim hc.1 hc.2
      rw [skipWord, if_neg hnext]
      rfl
  | succ n ih =>
      intro left next hleft hword hstop
      obtain ⟨left, rfl⟩ : ∃ k, left = k + 1 := ⟨left - 1, by omega⟩
      have hfirst : cmdStr next ≠ 0 ∧ cmdStr next ≠ token := hword 0 (by omega)
      have hshift : ∀ j, next + 1 + j = next + (j + 1) := fun j => by omega
      rw [skipWord, if_pos hfirst, ih left (next + 1) (by omega)
        (fun j hj => by rw [hshift]; exact hword (j + 1) (by omega)) (by rwa [hshift]), hshift]

/-- Tokens in front of a word are skipped. -/
theorem skipToken_text {pre post : List UInt8} (h : Spells (cmdStr.drop next) (pre ++ (w ++ post)))
    (hlen : (pre ++ (w ++ post)).length < addrSpace) (hpre : ∀ x ∈ pre, x = token) (hw : w ≠ [])
    (hfree : token ∉ w) : skipToken cmdStr token addrSpace next = .ok (next + pre.length) := by
  have hpos := List.length_pos_of_ne_nil hw
  rw [List.length_append, List.length_append] at hlen
  refine skipToken_run pre.length addrSpace next (by omega) (fun j hj => ?_) fun hc => hfree ?_
  · have hbyte : cmdStr (next + j) = _ := h.bytes j (by rw [List.length_append]; omega)
    rw [hbyte, List.getD_append _ _ _ _ hj, List.getD_eq_getElem _ _ hj]
    exact hpre _ (List.getElem_mem hj)
  · have hbyte : cmdStr (next + pre.length) = _ := h.bytes pre.length (by simp)
    rw [← hc, hbyte, List.getD_append_right _ _ _ _ (le_refl _), Nat.sub_self,
      List.getD_append _ _ _ _ hpos, List.getD_eq_getElem _ _ hpos]
    exact List.getElem_mem hpos

/-- A word is skipped up to the token or the end behind it. -/
theorem skipWord_text {post : List UInt8} (h : Spells (cmdStr.drop next) (w ++ post))
    (hlen : (w ++ post).length < addrSpace) (hfree : token ∉ w)
    (hpost : post = [] ∨ post.head? = some token) :
    skipWord cmdStr token addrSpace next = .ok (next + w.length) := by
  rw [List.length_append] at hlen
  refine skipWord_run w.length addrSpace next (by omega) (fun j hj => ⟨?_, fun hc => hfree ?_⟩) ?_
  · exact h.ne_zero (i := j) (by rw [List.length_append]; omega)
  · have hbyte : cmdStr (next + j) = _ := h.bytes j (by rw [List.length_append]; omega)
    rw [← hc, hbyte, List.getD_append _ _ _ _ hj, List.getD_eq_getElem _ _ hj]
    exact List.getElem_mem hj
  · have hbyte : cmdStr (next + w.length) = _ := h.bytes w.length (by simp)
    rw [hbyte, List.getD_append_right _ _ _ _ (le_refl _), Nat.sub_self]
    rcases hpost with rfl | hpost
    · exact .inl rfl
    · obtain ⟨rest, rfl⟩ := List.head?_eq_some_iff.mp hpost
      exact .inr rfl

/-! ### A round -/

/-- What a round does to a rest with a word in it. -/
structure Round (token : UInt8) (rest w : List UInt8) (ws : List (List UInt8)) (cmdStr : Mem)
    (next : Nat) (pre gap rest' : List UInt8) (cmdStr' : Mem) (next' : Nat) : Prop where
  text : rest = pre ++ (w ++ (gap ++ rest'))
  skipped : ∀ x ∈ pre, x = token
  cut : gap = [token] ∨ gap = [] ∧ rest' = []
  word : w ≠ [] ∧ token ∉ w
  left : parts token rest' = ws
  goes : next' = next + pre.length + w.length + gap.length
  spellsRest : Spells (cmdStr'.drop next') rest'
  spellsWord : Spells (cmdStr'.drop (next + pre.length)) w
  same : ∀ i, i < next + pre.length + w.length ∨ next' ≤ i → cmdStr' i = cmdStr i

/-- A word is taken off the rest. -/
theorem parse_word (h : Spells (cmdStr.drop next) rest) (hlen : rest.length < addrSpace)
    (hparts : parts token rest = w :: ws) : ∃ pre gap rest' cmdStr' next',
    Round token rest w ws cmdStr next pre gap rest' cmdStr' next' ∧
      ∀ rounds argv argc, parseLoop token (rounds + 1) cmdStr argv argc next
        = if maxArgNr < argc then
            .ok (-1, cmdStr', Function.update argv argc (some (next + pre.length)))
          else parseLoop token rounds cmdStr'
            (Function.update argv argc (some (next + pre.length))) (argc + 1) next' := by
  obtain ⟨pre, post, rfl, hpre, hw, hfree, hpost, hleft⟩ := parts_first hparts
  have hpos := List.length_pos_of_ne_nil hw
  have hword : Spells (cmdStr.drop (next + pre.length)) (w ++ post) := by
    have := h.drop
    rwa [Mem.drop_drop] at this
  have hrest : Spells (cmdStr.drop (next + pre.length + w.length)) post := by
    have := hword.drop
    rwa [Mem.drop_drop] at this
  have hskip := skipToken_text h hlen hpre hw hfree
  have hend := skipWord_text hword (by rw [List.length_append] at hlen; omega) hfree hpost
  have hfirst : cmdStr next ≠ 0 := h.ne_zero (i := 0) (by simp; omega)
  have hstart : cmdStr (next + pre.length) ≠ 0 := hword.ne_zero (i := 0) (by simp; omega)
  have hwtext : 0 ∉ w := fun h0 => hword.text (List.mem_append_left _ h0)
  rcases hpost with rfl | hpost
  · -- the last word ends with the line
    have h0 : cmdStr (next + pre.length + w.length) = 0 := hrest.at_end
    rw [List.append_nil] at hword
    refine ⟨pre, [], [], cmdStr, _, ⟨rfl, hpre, .inr ⟨rfl, rfl⟩, ⟨hw, hfree⟩, hleft, rfl, hrest,
      hword, fun _ _ => rfl⟩, fun rounds argv argc => ?_⟩
    rw [parseLoop, if_neg hfirst, hskip, ok_bind, if_neg hstart, hend, ok_bind]
    simp only [h0, ne_eq, not_true_eq_false, if_false]
    rfl
  · obtain ⟨rest', rfl⟩ := List.head?_eq_some_iff.mp hpost
    have h0 : cmdStr (next + pre.length + w.length) ≠ 0 := hrest.ne_zero (i := 0) (by simp)
    rw [parts_sep_cons] at hleft
    have hbehind : Spells (cmdStr.drop (next + pre.length + w.length + 1)) rest' := by
      have := Spells.drop (p := [token]) hrest
      rwa [Mem.drop_drop] at this
    refine ⟨pre, [token], rest', Function.update cmdStr (next + pre.length + w.length) 0, _,
      ⟨rfl, hpre, .inl rfl, ⟨hw, hfree⟩, hleft, rfl, hbehind.congr fun i _ => ?_,
        ⟨hwtext, fun i hi => ?_⟩, fun i hi => ?_⟩, fun rounds argv argc => ?_⟩
    · rw [Mem.drop_apply, Mem.drop_apply, Function.update_of_ne (by simp; omega)]
      rfl
    · rw [Mem.drop_apply]
      rcases Nat.lt_or_eq_of_le hi with hlt | rfl
      · have hbyte : cmdStr (next + pre.length + i) = _ := hword.bytes i (by simp; omega)
        rw [Function.update_of_ne (by omega), hbyte, List.getD_append _ _ _ _ hlt]
      · rw [Function.update_self, List.getD_eq_default _ _ (le_refl _)]
    · rw [Function.update_of_ne]
      simp only [List.length_singleton] at hi
      omega
    · rw [parseLoop, if_neg hfirst, hskip, ok_bind, if_neg hstart, hend, ok_bind]
      simp only [h0, ne_eq, not_false_eq_true, if_true]
      rfl

/-! ### The loop -/

/-- `ptr` points to word `k` of the text at `start`, which has a zero behind it. -/
def PointsToWord (token : UInt8) (text : List UInt8) (start k : Nat) (cmdStr : Mem)
    (ptr : Option Nat) : Prop :=
  ∃ pre w post, text = pre ++ (w ++ post) ∧ parts token pre = (parts token text).take k ∧
    (parts token text)[k]? = some w ∧ ptr = some (start + pre.length) ∧
    Spells (cmdStr.drop (start + pre.length)) w

section Round

variable {pre gap rest' : List UInt8} {cmdStr' cmdStr'' : Mem} {next' : Nat}

/-- The word of the round is the first one of the rest. -/
theorem Round.first (h : Round token rest w ws cmdStr next pre gap rest' cmdStr' next')
    (hparts : parts token rest = w :: ws)
    (hsame : ∀ i, i < next' ∨ next' + rest'.length ≤ i → cmdStr'' i = cmdStr' i) :
    PointsToWord token rest next 0 cmdStr'' (some (next + pre.length)) := by
  refine ⟨pre, w, gap ++ rest', h.text, ?_, by rw [hparts]; rfl, rfl,
    h.spellsWord.congr fun i hi => hsame _ ?_⟩
  · have := parts_seps_append h.skipped []
    rwa [List.append_nil, parts_nil] at this
  · have hgoes := h.goes
    rcases h.cut with hgap | ⟨hgap, hnil⟩
    · rw [hgap, List.length_singleton] at hgoes
      omega
    · rw [hgap, List.length_nil] at hgoes
      rw [hnil, List.length_nil]
      omega

/-- The words behind it are those of the new rest. -/
theorem Round.later (h : Round token rest w ws cmdStr next pre gap rest' cmdStr' next')
    (hparts : parts token rest = w :: ws) {k : Nat} {ptr : Option Nat}
    (hk : PointsToWord token rest' next' k cmdStr'' ptr) :
    PointsToWord token rest next (k + 1) cmdStr'' ptr := by
  obtain ⟨pre', w', post', htext', htake, hget, hptr, hspells⟩ := hk
  have hgap : gap = [token] := by
    refine h.cut.resolve_right fun hc => ?_
    rw [hc.2, parts_nil] at hget
    exact absurd hget (by simp)
  have hstart : next + (pre ++ (w ++ (gap ++ pre'))).length = next' + pre'.length := by
    rw [h.goes]
    simp only [List.length_append]
    omega
  refine ⟨pre ++ (w ++ (gap ++ pre')), w', post', ?_, ?_, ?_, by rw [hstart]; exact hptr,
    by rw [hstart]; exact hspells⟩
  · rw [h.text, htext']
    simp only [List.append_assoc]
  · rw [hparts, List.take_succ_cons, parts_seps_append h.skipped, hgap, List.singleton_append,
      parts_append h.word.1 h.word.2, htake, h.left]
  · rw [hparts, List.getElem?_cons_succ, ← h.left]
    exact hget

end Round

/-- What is left when only tokens are left. -/
theorem parseLoop_tokens (h : Spells (cmdStr.drop next) rest) (hlen : rest.length < addrSpace)
    (hparts : parts token rest = []) (rounds argc : Nat) (argv : Nat → Option Nat) :
    parseLoop token (rounds + 1) cmdStr argv argc next = .ok (argc, cmdStr, argv) := by
  have htokens := eq_sep_of_parts_nil hparts
  rw [parseLoop]
  by_cases h0 : cmdStr next = 0
  · rw [if_pos h0]
    rfl
  · have hend : cmdStr (next + rest.length) = 0 := h.at_end
    have hinRest : ∀ j < rest.length, cmdStr (next + j) = token := by
      intro j hj
      have hbyte : cmdStr (next + j) = _ := h.bytes j hj.le
      rw [hbyte, List.getD_eq_getElem _ _ hj]
      exact htokens _ (List.getElem_mem hj)
    have hpos : 0 < rest.length := by
      by_contra hc
      rw [show rest.length = 0 by omega] at hend
      exact h0 hend
    have hskip := skipToken_run rest.length addrSpace next hlen hinRest
      (by rw [hend, ← hinRest 0 hpos]; exact fun hc => h0 hc.symm)
    rw [if_neg h0, hskip, ok_bind, if_pos hend]
    rfl

/-- Up to 17 words are taken one by one. -/
theorem parseLoop_run : ∀ (ws : List (List UInt8)) (rest : List UInt8) (rounds argc next : Nat)
    (cmdStr : Mem) (argv : Nat → Option Nat), parts token rest = ws →
    Spells (cmdStr.drop next) rest → rest.length < addrSpace → ws.length < rounds →
    argc + ws.length ≤ maxArgNr + 1 → ∃ cmdStr' argv',
      parseLoop token rounds cmdStr argv argc next
        = .ok (((argc + ws.length : Nat) : Int), cmdStr', argv') ∧
      (∀ k < ws.length, PointsToWord token rest next k cmdStr' (argv' (argc + k))) ∧
      (∀ k, k < argc ∨ argc + ws.length ≤ k → argv' k = argv k) ∧
      ∀ i, i < next ∨ next + rest.length ≤ i → cmdStr' i = cmdStr i := by
  intro ws
  induction ws with
  | nil =>
      intro rest rounds argc next cmdStr argv hparts h hlen hrounds _
      obtain ⟨rounds, rfl⟩ : ∃ k, rounds = k + 1 := ⟨rounds - 1, by simp at hrounds; omega⟩
      exact ⟨cmdStr, argv, parseLoop_tokens h hlen hparts rounds argc argv,
        fun k hk => absurd hk (by simp), fun _ _ => rfl, fun _ _ => rfl⟩
  | cons w ws ih =>
      intro rest rounds argc next cmdStr argv hparts h hlen hrounds hargc
      rw [List.length_cons] at hrounds hargc
      obtain ⟨rounds, rfl⟩ : ∃ k, rounds = k + 1 := ⟨rounds - 1, by omega⟩
      obtain ⟨pre, gap, rest', cmdStr₁, next', hround, hloop⟩ := parse_word h hlen hparts
      have hgoes := hround.goes
      have hlens : rest.length = pre.length + (w.length + (gap.length + rest'.length)) := by
        rw [hround.text]
        simp only [List.length_append]
      obtain ⟨cmdStr', argv', hrun, hwords, hargv, hsame⟩ := ih rest' rounds (argc + 1) next'
        cmdStr₁ (Function.update argv argc (some (next + pre.length))) hround.left
        hround.spellsRest (by omega) (by omega) (by omega)
      refine ⟨cmdStr', argv', ?_, fun k hk => ?_, fun k hk => ?_, fun i hi => ?_⟩
      · rw [hloop, if_neg (by omega), hrun, List.length_cons]
        congr 3
        omega
      · cases k with
        | zero =>
            rw [Nat.add_zero, hargv argc (.inl (by omega)), Function.update_self]
            exact hround.first hparts hsame
        | succ k =>
            have := hround.later hparts (hwords k (by simpa using hk))
            rwa [Nat.add_assoc, Nat.add_comm 1] at this
      · rw [List.length_cons] at hk
        rw [hargv k (by omega), Function.update_of_ne (by omega)]
      · rw [hsame i (by omega), hround.same i (by omega)]

/-- Words that have been stored stay. -/
theorem parseLoop_keeps : ∀ (rounds argc next : Nat) (cmdStr : Mem) (argv : Nat → Option Nat)
    {r : Int} {cmdStr' : Mem} {argv' : Nat → Option Nat},
    parseLoop token rounds cmdStr argv argc next = .ok (r, cmdStr', argv') →
    ∀ k < argc, argv' k = argv k := by
  intro rounds
  induction rounds with
  | zero => intro argc next cmdStr argv r cmdStr' argv' h; cases h
  | succ rounds ih =>
      intro argc next cmdStr argv r cmdStr' argv' h k hk
      rw [parseLoop] at h
      by_cases h0 : cmdStr next = 0
      · rw [if_pos h0] at h
        cases h
        rfl
      rw [if_neg h0] at h
      obtain ⟨next₁, -, h⟩ := bind_eq_ok.mp h
      by_cases h1 : cmdStr next₁ = 0
      · rw [if_pos h1] at h
        cases h
        rfl
      rw [if_neg h1] at h
      obtain ⟨next₂, -, h⟩ := bind_eq_ok.mp h
      generalize (if cmdStr next₂ ≠ 0 then _ else _ : Mem × Nat) = cut at h
      obtain ⟨cmdStr₁, next₃⟩ := cut
      simp only at h
      by_cases h2 : maxArgNr < argc
      · rw [if_pos h2] at h
        cases h
        exact Function.update_of_ne (by omega) _ _
      · rw [if_neg h2] at h
        rw [ih _ _ _ _ h k (by omega), Function.update_of_ne (by omega)]

/-- A seventeenth word is stored behind the array. -/
theorem parseLoop_store : ∀ (ws : List (List UInt8)) (rest : List UInt8) (rounds argc next : Nat)
    (cmdStr : Mem) (argv : Nat → Option Nat) {r : Int} {cmdStr' : Mem} {argv' : Nat → Option Nat},
    parts token rest = ws → Spells (cmdStr.drop next) rest → rest.length < addrSpace →
    argc ≤ maxArgNr → maxArgNr < argc + ws.length →
    parseLoop token rounds cmdStr argv argc next = .ok (r, cmdStr', argv') →
    argv' maxArgNr ≠ none := by
  intro ws
  induction ws with
  | nil =>
      intro rest rounds argc next cmdStr argv r cmdStr' argv' _ _ _ hle hlt
      exact absurd hlt (by simp only [List.length_nil]; omega)
  | cons w ws ih =>
      intro rest rounds argc next cmdStr argv r cmdStr' argv' hparts h hlen hle hlt hrun
      rw [List.length_cons] at hlt
      cases rounds with
      | zero => cases hrun
      | succ rounds =>
          obtain ⟨pre, gap, rest', cmdStr₁, next', hround, hloop⟩ := parse_word h hlen hparts
          rw [hloop, if_neg (by omega)] at hrun
          rcases Nat.lt_or_eq_of_le hle with hmore | rfl
          · refine ih rest' rounds _ _ _ _ hround.left hround.spellsRest ?_ hmore (by omega) hrun
            have := congrArg List.length hround.text
            simp only [List.length_append] at this
            omega
          · rw [parseLoop_keeps _ _ _ _ _ hrun _ (Nat.lt_succ_self _), Function.update_self]
            simp

/-! ### `cmd_parse` -/

/-- `cmd_parse` splits the line: up to 16 words are counted and pointed to, more are refused, and
in any case only `argv` and the line are written. -/
def SplitsLine (token : UInt8) (line : List UInt8) : Prop :=
  ∀ cmdStr argv, Spells cmdStr line → ∃ r cmdStr' argv',
    cmdParse cmdStr argv token = .ok (r, cmdStr', argv') ∧
    ((parts token line).length ≤ maxArgNr → r = (parts token line).length ∧
      (∀ k < (parts token line).length, PointsToWord token line 0 k cmdStr' (argv' k)) ∧
      ∀ k, (parts token line).length ≤ k → k < maxArgNr → argv' k = none) ∧
    (maxArgNr < (parts token line).length → r = -1) ∧
    (∀ k, maxArgNr ≤ k → argv' k = argv k) ∧
    ∀ i, line.length < i → cmdStr' i = cmdStr i

/-- **The lines `cmd_parse` splits as it should are those of at most 16 words.** -/
theorem cmdParse_iff (token : UInt8) (line : List UInt8) (htext : 0 ∉ line)
    (hlen : line.length < addrSpace) :
    SplitsLine token line ↔ (parts token line).length ≤ maxArgNr := by
  constructor
  · intro h
    by_contra hmore
    have hcstr : Spells (cstr line) line := ⟨htext, fun _ _ => rfl⟩
    obtain ⟨r, cmdStr', argv', hrun, -, -, hframe, -⟩ := h (cstr line) (fun _ => none) hcstr
    refine parseLoop_store _ line _ 0 0 (cstr line) _ rfl (by rwa [Mem.drop_zero]) hlen (by decide)
      (by omega) hrun ?_
    exact hframe _ (le_refl _)
  · intro hfew cmdStr argv h
    obtain ⟨cmdStr', argv', hrun, hwords, hargv, hsame⟩ := parseLoop_run (parts token line) line
      (maxArgNr + 3) 0 0 cmdStr (fun k => if k < maxArgNr then none else argv k) rfl
      (by rwa [Mem.drop_zero]) hlen (by omega) (by omega)
    refine ⟨_, cmdStr', argv', hrun, fun _ => ⟨by rw [Nat.zero_add], fun k hk => ?_,
      fun k hk hlt => ?_⟩, fun hmore => absurd hfew (by omega), fun k hk => ?_,
      fun i hi => hsame i (by omega)⟩
    · have := hwords k hk
      rwa [Nat.zero_add] at this
    · rw [hargv k (by omega), if_pos hlt]
    · rw [hargv k (by omega), if_neg (by omega)]

/-- Three words between blanks. -/
theorem cmdParse_three :
    SplitsLine 32 [32, 108, 115, 32, 32, 45, 108, 32, 47, 32] ↔
      (parts 32 [32, 108, 115, 32, 32, 45, 108, 32, 47, 32]).length ≤ maxArgNr :=
  cmdParse_iff 32 _ (by decide) (by decide)

/-- `a a a a a a a a a a a a a a a a a`, seventeen words -/
def seventeenWords : List UInt8 := (List.replicate 17 [97]).flatMap ([32] ++ ·)

/-- They are counted as 17. -/
theorem cmdParse_seventeen : ¬ SplitsLine 32 seventeenWords := by
  intro h
  have hcstr : Spells (cstr seventeenWords) seventeenWords := ⟨by decide, fun _ _ => rfl⟩
  obtain ⟨r, cmdStr', argv', hrun, -, hrefused, -, -⟩ :=
    h (cstr seventeenWords) (fun _ => none) hcstr
  have hcount : (cmdParse (cstr seventeenWords) (fun _ => none) 32).toOption.map (·.1)
      = some 17 := by
    decide +kernel
  rw [hrun] at hcount
  have hr : r = 17 := Option.some.inj hcount
  exact absurd (hrefused (by decide +kernel)) (by rw [hr]; decide)

end ZyOs
