/-
What `readline` leaves in the line.

Every byte is read to where the next character would go before anybody looks at it, also when the
line is full.  As long as that does not happen the bytes in front of `pos` are the text that has
been typed and edited, and a backspace in the first byte of the buffer is one that has just been
read into an empty line.
-/
import Mathlib.Data.List.GetD
import Mathlib.Data.List.TakeWhile
import Mathlib.Tactic
import ZyOs.Kernel.CommandLine

namespace ZyOs

open Library

namespace Readline

/-- What one byte other than an Enter means for the text of the line. -/
def editText (text : List UInt8) (byte : UInt8) : List UInt8 :=
  if byte = 8 then text.dropLast
  else if byte = 11 then text
  else if byte = 20 then []
  else text ++ [byte]

/-- `'\n'` or `'\r'` -/
def IsEnter (byte : UInt8) : Prop := byte = 10 ∨ byte = 13

instance (byte : UInt8) : Decidable (IsEnter byte) := inferInstanceAs (Decidable (_ ∨ _))

/-- The text that has been typed in front of the first Enter. -/
def lineText (typed : List UInt8) : List UInt8 :=
  (typed.takeWhile fun byte => ¬ IsEnter byte).foldl editText []

/-- The line does its work: nothing is stored outside the buffer, the position is not in front
of it, and an Enter leaves the text. -/
structure EditsLine (buf : Int → UInt8) (count : Nat) (typed : List UInt8) (s : Readline) :
    Prop where
  inside : ∀ i : Int, i < 0 ∨ count ≤ i → s.buf i = buf i
  pos : 0 ≤ s.pos
  text : s.done = some .enter →
    ∀ i ≤ (lineText typed).length, s.buf i = (lineText typed).getD i 0

/-- No byte is read while the line is full. -/
def NeverFull (count : Nat) (typed : List UInt8) : Prop :=
  ∀ p byte, p ++ [byte] <+: typed → (∀ x ∈ p, ¬ IsEnter x) → (lineText p).length < count

/-! ### One byte -/

variable {buf : Int → UInt8} {count : Nat} {typed p text : List UInt8} {s : Readline} {byte : UInt8}

/-- `readline` waits for the next byte, and the line has this text. -/
structure Waiting (buf : Int → UInt8) (count : Nat) (text : List UInt8) (s : Readline) : Prop where
  done : s.done = none
  pos : s.pos = text.length
  fits : text.length ≤ count
  bytes : ∀ i < text.length, s.buf i = text.getD i 0
  inside : ∀ i : Int, i < 0 ∨ count ≤ i → s.buf i = buf i
  noBackspace : 8 ∉ text

/-- The byte that is read is the only one that changes. -/
theorem Waiting.read (h : Waiting buf count text s) (hroom : text.length < count) (byte : UInt8) :
    (∀ i < text.length, Function.update s.buf s.pos byte i = text.getD i 0) ∧
      ∀ i : Int, i < 0 ∨ count ≤ i → Function.update s.buf s.pos byte i = buf i := by
  have hpos := h.pos
  constructor
  · intro i hi
    rw [Function.update_of_ne (by omega), h.bytes i hi]
  · intro i hi
    rw [Function.update_of_ne (by omega), h.inside i hi]

theorem clearDown_spec : ∀ (n : Nat) (buf : Int → UInt8) (i : Int), i < 1 ∨ n < i →
    clearDown n buf i = buf i := by
  intro n
  induction n with
  | zero => exact fun buf i _ => rfl
  | succ n ih =>
      intro buf i hi
      rw [clearDown, ih _ i (by omega), Function.update_of_ne (by omega)]

/-- A backspace in the first byte of the buffer has been read into an empty line. -/
theorem Waiting.backspace (h : Waiting buf count text s) (hroom : text.length < count) :
    Waiting buf count text.dropLast
      { s with
        buf := Function.update s.buf s.pos 8
        pos := if Function.update s.buf s.pos 8 0 ≠ 8 then s.pos - 1 else s.pos } := by
  obtain ⟨hbytes, hinside⟩ := h.read hroom 8
  have hpos := h.pos
  cases hlast : text using List.reverseRecOn with
  | nil =>
      have h0 : s.pos = 0 := by rw [hpos, hlast]; rfl
      rw [hlast] at hbytes
      refine ⟨h.done, ?_, Nat.zero_le _, hbytes, hinside, by simp⟩
      rw [if_neg (not_not_intro (by rw [h0, Function.update_self]))]
      exact h0
  | append_singleton front x =>
      have hlen : text.length = front.length + 1 := by rw [hlast, List.length_append]; rfl
      have hfirst : Function.update s.buf s.pos 8 0 ≠ 8 := by
        have h0 := hbytes 0 (by omega)
        rw [Nat.cast_zero, List.getD_eq_getElem _ _ (by omega)] at h0
        exact fun hc => h.noBackspace (by rw [← hc, h0]; exact List.getElem_mem _)
      rw [List.dropLast_concat]
      refine ⟨h.done, ?_, by have := h.fits; omega, fun i hi => ?_, hinside, fun hc => ?_⟩
      · rw [if_pos hfirst]
        show s.pos - 1 = _
        omega
      · show Function.update s.buf s.pos 8 i = _
        rw [hbytes i (by omega), hlast, List.getD_append _ _ _ _ hi]
      · exact h.noBackspace (by rw [hlast]; exact List.mem_append_left _ hc)

theorem Waiting.append (h : Waiting buf count text s) (hroom : text.length < count)
    (hbyte : byte ≠ 8) : Waiting buf count (text ++ [byte])
      { s with buf := Function.update s.buf s.pos byte, pos := s.pos + 1 } := by
  obtain ⟨hbytes, hinside⟩ := h.read hroom byte
  have hlen : (text ++ [byte]).length = text.length + 1 := by rw [List.length_append]; rfl
  refine ⟨h.done, ?_, by omega, fun i hi => ?_, hinside, fun hc => ?_⟩
  · rw [hlen, h.pos]
    rfl
  · rcases Nat.lt_succ_iff_lt_or_eq.mp (hlen ▸ hi) with hlt | rfl
    · rw [List.getD_append _ _ _ _ hlt]
      exact hbytes i hlt
    · show Function.update s.buf s.pos byte _ = _
      rw [← h.pos, Function.update_self, List.getD_append_right _ _ _ _ (le_refl _), Nat.sub_self]
      rfl
  · rw [List.mem_append, List.mem_singleton] at hc
    exact hc.elim h.noBackspace fun hc => hbyte hc.symm

/-- The step of the loop: as long as there is room, a byte edits the text. -/
theorem Waiting.readByte (h : Waiting buf count text s) (hroom : text.length < count)
    (hbyte : ¬ IsEnter byte) : Waiting buf count (editText text byte) (s.readByte count byte) := by
  have hlt : s.pos < count := by have := h.pos; omega
  unfold Readline.readByte editText
  rw [if_pos h.done]
  simp only [if_pos hlt]
  rw [if_neg (show ¬ (byte = 10 ∨ byte = 13) from hbyte)]
  by_cases h8 : byte = 8
  · subst h8
    exact h.backspace hroom
  rw [if_neg h8, if_neg h8]
  by_cases h11 : byte = 11
  · rw [if_pos h11, if_pos h11, Function.update_idem]
    obtain ⟨hbytes, hinside⟩ := h.read hroom 0
    exact ⟨h.done, h.pos, h.fits, hbytes, hinside, h.noBackspace⟩
  rw [if_neg h11, if_neg h11]
  by_cases h20 : byte = 20
  · rw [if_pos h20, if_pos h20]
    have hinside := (h.read hroom byte).2
    have hpos := h.pos
    refine ⟨h.done, rfl, Nat.zero_le _, fun i hi => absurd hi (by simp), fun i hi => ?_, by simp⟩
    show clearDown _ _ _ = _
    rw [clearDown_spec _ _ _ (by omega)]
    exact hinside i hi
  · rw [if_neg h20, if_neg h20]
    exact h.append hroom h8

/-- An Enter ends the text. -/
theorem Waiting.enter (h : Waiting buf count text s) (hroom : text.length < count)
    (hbyte : IsEnter byte) :
    s.readByte count byte
      = { s with buf := Function.update s.buf s.pos 0, done := some .enter } := by
  have hlt : s.pos < count := by have := h.pos; omega
  unfold Readline.readByte
  rw [if_pos h.done]
  simp only [if_pos hlt, Function.update_idem]
  rw [if_pos (show byte = 10 ∨ byte = 13 from hbyte)]

/-- A byte that finds the line full is stored behind the buffer. -/
theorem Waiting.full (h : Waiting buf count text s) (hfull : count ≤ text.length) :
    (s.readByte count byte).buf count = byte := by
  have hpos : s.pos = count := by
    have := h.fits
    rw [h.pos]
    omega
  unfold Readline.readByte
  rw [if_pos h.done]
  simp only [hpos, lt_irrefl, if_false, Function.update_self]

theorem readByte_done (h : s.done ≠ none) : s.readByte count byte = s := if_neg h

/-! ### Runs -/

theorem lineText_of_noEnter (h : ∀ x ∈ p, ¬ IsEnter x) : lineText p = p.foldl editText [] := by
  rw [lineText, List.takeWhile_eq_self_iff.mpr fun x hx => by simpa using h x hx]

theorem lineText_snoc (h : ∀ x ∈ p, ¬ IsEnter x) (hbyte : ¬ IsEnter byte) :
    lineText (p ++ [byte]) = editText (lineText p) byte := by
  rw [lineText_of_noEnter h, lineText_of_noEnter, List.foldl_append]
  · rfl
  · intro x hx
    rw [List.mem_append, List.mem_singleton] at hx
    exact hx.elim (h x) fun hx => hx ▸ hbyte

theorem NeverFull.of_prefix {q : List UInt8} (h : NeverFull count q) (hp : p <+: q) :
    NeverFull count p := fun q' byte hq' => h q' byte (hq'.trans hp)

/-- Up to the Enter the line has the text that has been typed. -/
theorem waiting_readline (h : NeverFull count p) (hp : ∀ x ∈ p, ¬ IsEnter x) :
    Waiting buf count (lineText p) (readline buf count p) := by
  induction p using List.reverseRecOn with
  | nil =>
      exact ⟨rfl, rfl, Nat.zero_le _, fun i hi => absurd hi (by simp [lineText]), fun _ _ => rfl,
        by simp [lineText]⟩
  | append_singleton p byte ih =>
      have hp' : ∀ x ∈ p, ¬ IsEnter x := fun x hx => hp x (List.mem_append_left _ hx)
      have hbyte := hp byte (by simp)
      rw [readline, List.foldl_append, lineText_snoc hp' hbyte]
      exact (ih (h.of_prefix (List.prefix_append p [byte])) hp').readByte
        (h p byte (List.prefix_refl _) hp') hbyte

/-- Behind the Enter nothing changes. -/
theorem foldl_readByte_done (h : s.done ≠ none) : typed.foldl (Readline.readByte count) s = s := by
  induction typed with
  | nil => rfl
  | cons byte typed ih => rw [List.foldl_cons, readByte_done h, ih]

/-- A stream with an Enter in it. -/
theorem exists_enter (h : ¬ ∀ x ∈ typed, ¬ IsEnter x) : ∃ p byte rest,
    typed = p ++ byte :: rest ∧ (∀ x ∈ p, ¬ IsEnter x) ∧ IsEnter byte := by
  induction typed with
  | nil => exact absurd (by simp) h
  | cons x typed ih =>
      by_cases hx : IsEnter x
      · exact ⟨[], x, typed, rfl, by simp, hx⟩
      · obtain ⟨p, byte, rest, rfl, hp, hbyte⟩ := ih fun hall => h fun y hy => by
          rcases List.mem_cons.mp hy with rfl | hy
          · exact hx
          · exact hall y hy
        refine ⟨x :: p, byte, rest, rfl, fun y hy => ?_, hbyte⟩
        rcases List.mem_cons.mp hy with rfl | hy
        · exact hx
        · exact hp y hy

theorem lineText_enter {rest : List UInt8} (h : ∀ x ∈ p, ¬ IsEnter x) (hbyte : IsEnter byte) :
    lineText (p ++ byte :: rest) = lineText p := by
  unfold lineText
  rw [List.takeWhile_append_of_pos fun x hx => by simpa using h x hx,
    List.takeWhile_cons_of_neg (by simpa using hbyte), List.append_nil,
    List.takeWhile_eq_self_iff.mpr fun x hx => by simpa using h x hx]

theorem NeverFull.editsLine (h : NeverFull count typed) (buf : Int → UInt8) :
    EditsLine buf count typed (readline buf count typed) := by
  by_cases hall : ∀ x ∈ typed, ¬ IsEnter x
  · have hw : Waiting buf count _ _ := waiting_readline h hall
    exact ⟨hw.inside, by rw [hw.pos]; omega, fun hdone => by rw [hw.done] at hdone; cases hdone⟩
  · obtain ⟨p, byte, rest, rfl, hp, hbyte⟩ := exists_enter hall
    have hbegin : p ++ [byte] <+: p ++ byte :: rest := ⟨rest, by simp⟩
    have hroom := h p byte hbegin hp
    have hw : Waiting buf count _ _ :=
      waiting_readline (h.of_prefix ((List.prefix_append p [byte]).trans hbegin)) hp
    obtain ⟨hbytes, hinside⟩ := hw.read hroom 0
    rw [readline, List.foldl_append, List.foldl_cons]
    rw [show p.foldl (Readline.readByte count) ⟨buf, 0, none⟩ = readline buf count p from rfl,
      hw.enter hroom hbyte, foldl_readByte_done (by simp)]
    refine ⟨hinside, ?_, fun _ i hi => ?_⟩
    · show 0 ≤ (readline buf count p).pos
      rw [hw.pos]
      omega
    · rw [lineText_enter hp hbyte] at hi ⊢
      rcases Nat.lt_or_eq_of_le hi with hlt | rfl
      · exact hbytes i hlt
      · show Function.update _ _ _ _ = _
        rw [← hw.pos, Function.update_self, List.getD_eq_default _ _ (le_refl _)]

/-- **When `readline` edits the line**: exactly as long as no byte is read while the line is
full. -/
theorem readline_edits_iff (count : Nat) (typed : List UInt8) :
    (∀ p, p <+: typed → ∀ buf, EditsLine buf count p (readline buf count p)) ↔
      NeverFull count typed := by
  constructor
  · intro hedits p
    induction hn : p.length using Nat.strongRecOn generalizing p with
    | _ n ih =>
      intro byte hbegin hp
      by_contra hfull
      have hbefore : NeverFull count p := by
        intro q x hq hq'
        refine ih q.length ?_ q rfl x (hq.trans ((List.prefix_append p [byte]).trans hbegin)) hq'
        have := hq.length_le
        rw [List.length_append, List.length_singleton] at this
        omega
      let buf : Int → UInt8 := fun _ => if byte = 0 then 1 else 0
      have hw : Waiting buf count _ _ := waiting_readline hbefore hp
      have hstored : (Readline.readByte count _ byte).buf count = byte := hw.full (by omega)
      have hframe := (hedits _ hbegin buf).inside count (.inr (le_refl _))
      rw [readline, List.foldl_append] at hframe
      have hsame : byte = if byte = 0 then 1 else 0 := hstored.symm.trans hframe
      split_ifs at hsame with h0
      · exact absurd (h0.symm.trans hsame) (by decide)
      · exact h0 hsame
  · exact fun h p hp buf => (h.of_prefix hp).editsLine buf

/-- Five letters for a buffer of four bytes. -/
theorem readline_edits_five :
    let typed : List UInt8 := [97, 97, 97, 97, 97]
    ¬ EditsLine (fun _ => 0) 4 typed (readline (fun _ => 0) 4 typed) := by
  intro typed h
  have hstored : (readline (fun _ => 0) 4 typed).buf 4 = 97 := by decide
  have hframe := h.inside 4 (.inr (by decide))
  rw [hstored] at hframe
  exact absurd hframe (by decide)

end Readline

end ZyOs
