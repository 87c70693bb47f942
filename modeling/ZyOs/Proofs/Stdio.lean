/-
What `vsprintf` leaves in the buffer.

A format and its arguments are taken apart into pieces, and `expansion` is the text they stand
for.  The loop writes this text and nothing else: the zero behind it is whatever the buffer held
there, and `strlen` stops at it or goes on.
-/
import ZyOs.Kernel.Stdio
import ZyOs.Proofs.Numeral
import ZyOs.Proofs.Text

namespace ZyOs

open Library

/-! ### Formats -/

/-- A piece of a format, with the argument it takes. -/
inductive Piece where
  | ordinary (c : UInt8)
  | str (s : Mem) (l : List UInt8)
  | chr (v : UInt32)
  | dec (v : UInt32)
  | hex (v : UInt32)

namespace Piece

/-- What stands in the format. -/
def text : Piece → List UInt8
  | .ordinary c => [c]
  | .str _ _ => [37, 115]
  | .chr _ => [37, 99]
  | .dec _ => [37, 100]
  | .hex _ => [37, 120]

def args : Piece → List VaArg
  | .ordinary _ => []
  | .str s _ => [.str s]
  | .chr v | .dec v | .hex v => [.int v]

/-- What it stands for. -/
def expansion : Piece → List UInt8
  | .ordinary c => [c]
  | .str _ l => l
  | .chr v => [UInt8.ofNat v.toNat]
  | .dec v => (if int32 v.toNat < 0 then [45] else []) ++ numeral 10 (int32 v.toNat).natAbs
  | .hex v => numeral 16 v.toNat

/-- Ordinary characters are no conversions, and arguments match. -/
def Ok : Piece → Prop
  | .ordinary c => c ≠ 0 ∧ c ≠ 37
  | .str s l => Spells s l ∧ l.length < addrSpace
  | .chr v => UInt8.ofNat v.toNat ≠ 0
  | .dec _ | .hex _ => True

end Piece

/-- The format the pieces make. -/
def formatText (pieces : List Piece) : List UInt8 := pieces.flatMap Piece.text

def formatArgs (pieces : List Piece) : List VaArg := pieces.flatMap Piece.args

/-- The expansion of a format. -/
def expansion (pieces : List Piece) : List UInt8 := pieces.flatMap Piece.expansion

/-- The absolute value, as `%d` computes it. -/
theorem natAbs_int32 (v : UInt32) : (int32 v.toNat).natAbs
    = if int32 v.toNat < 0 then (0 - v).toNat else v.toNat := by
  have hlt := v.toNat_lt
  have hneg : (0 - v).toNat = (2 ^ 32 - v.toNat) % 2 ^ 32 := by
    rw [UInt32.toNat_sub]
    rfl
  unfold int32
  rw [Nat.mod_eq_of_lt hlt, hneg]
  split_ifs <;> omega

theorem vsprintfSwitch_str {s : Mem} {l : List UInt8} (h : Spells s l) (hlen : l.length < addrSpace)
    (ap : List VaArg) (out : Output) :
    vsprintfSwitch 115 (.str s :: ap) out = .ok (some (ap, out.puts l)) := by
  have hcopy := @strncpy_run s l.length 0 (out.buf.drop out.ptr) fun j hj => by
    rw [Nat.zero_add]
    exact h.ne_zero hj
  have hbuf : out.buf.splice out.ptr ((out.buf.drop out.ptr).splice 0 (s.drop 0) l.length) l.length
      = out.buf.splice out.ptr (cstr l) l.length :=
    Mem.splice_congr fun i hi => by
      rw [Mem.splice_in (by omega) (by omega), Mem.drop_zero, Nat.sub_zero, h.bytes i hi.le]
      rfl
  unfold vsprintfSwitch
  rw [if_pos rfl]
  simp only [vaArgStr, ok_bind, strlen_run h hlen, hcopy, hbuf]
  rfl

theorem vsprintfSwitch_chr (v : UInt32) (ap : List VaArg) (out : Output) :
    vsprintfSwitch 99 (.int v :: ap) out
      = .ok (some (ap, out.puts [UInt8.ofNat v.toNat])) := by
  rw [← Output.put_eq]
  rfl

theorem vsprintfSwitch_dec (v : UInt32) (ap : List VaArg) (out : Output) :
    vsprintfSwitch 100 (.int v :: ap) out
      = .ok (some (ap, out.puts (Piece.dec v).expansion)) := by
  have habs := natAbs_int32 v
  unfold vsprintfSwitch
  rw [if_neg (by decide), if_neg (by decide), if_pos rfl]
  simp only [vaArgInt, ok_bind, Piece.expansion]
  by_cases hneg : int32 v.toNat < 0
  · rw [if_pos hneg] at habs
    rw [if_pos hneg, if_pos hneg, itoa_word (by decide), ok_bind, habs, Output.puts_append,
      ← Output.put_eq]
    rfl
  · rw [if_neg hneg] at habs
    rw [if_neg hneg, if_neg hneg, itoa_word (by decide), ok_bind, habs, List.nil_append]
    rfl

theorem vsprintfSwitch_hex (v : UInt32) (ap : List VaArg) (out : Output) :
    vsprintfSwitch 120 (.int v :: ap) out
      = .ok (some (ap, out.puts (numeral 16 v.toNat))) := by
  unfold vsprintfSwitch
  rw [if_neg (by decide), if_neg (by decide), if_neg (by decide), if_pos rfl]
  simp only [vaArgInt, ok_bind, itoa_word (show 2 ≤ 16 by decide)]
  rfl

variable {format : Mem} {pieces : List Piece} {indexPtr : Nat}

/-- A conversion in the format. -/
theorem vsprintfLoop_switch {c : UInt8} {rest : List UInt8} {args ap : List VaArg}
    {out out' : Output}
    (h : Spells (format.drop indexPtr) ([37, c] ++ rest))
    (hswitch : vsprintfSwitch c args out = .ok (some (ap, out'))) (left : Nat) :
    vsprintfLoop format (left + 1) indexPtr args out
      = vsprintfLoop format left (indexPtr + 2) ap out' := by
  have h0 : format indexPtr = 37 := h.bytes 0 (by simp)
  have h1 : format (indexPtr + 1) = c := h.bytes 1 (by simp)
  rw [vsprintfLoop, h0, if_neg (by decide), if_neg (by simp), h1, hswitch, ok_bind]

/-- The loop writes one piece. -/
theorem vsprintfLoop_piece {p : Piece} (hp : p.Ok)
    (h : Spells (format.drop indexPtr) (p.text ++ formatText pieces)) (left : Nat) (out : Output) :
    vsprintfLoop format (left + 1) indexPtr (p.args ++ formatArgs pieces) out
      = vsprintfLoop format left (indexPtr + p.text.length) (formatArgs pieces)
        (out.puts p.expansion) := by
  cases p with
  | ordinary c =>
      have h0 : format indexPtr = c := h.bytes 0 (Nat.zero_le _)
      rw [vsprintfLoop, h0, if_neg hp.1, if_pos hp.2, Output.put_eq]
      rfl
  | str s l => exact vsprintfLoop_switch h (vsprintfSwitch_str hp.1 hp.2 _ out) left
  | chr v => exact vsprintfLoop_switch h (vsprintfSwitch_chr v _ out) left
  | dec v => exact vsprintfLoop_switch h (vsprintfSwitch_dec v _ out) left
  | hex v => exact vsprintfLoop_switch h (vsprintfSwitch_hex v _ out) left

/-- The loop writes the expansion. -/
theorem vsprintfLoop_run : ∀ (pieces : List Piece) (left indexPtr : Nat) (out : Output),
    (∀ p ∈ pieces, p.Ok) → Spells (format.drop indexPtr) (formatText pieces) →
    (formatText pieces).length < left →
    vsprintfLoop format left indexPtr (formatArgs pieces) out
      = .ok (out.puts (expansion pieces)) := by
  intro pieces
  induction pieces with
  | nil =>
      intro left indexPtr out _ h hleft
      obtain ⟨left, rfl⟩ : ∃ k, left = k + 1 := ⟨left - 1, by omega⟩
      have h0 : format indexPtr = 0 := h.at_end
      rw [vsprintfLoop, if_pos h0, expansion, List.flatMap_nil, Output.puts_nil]
      rfl
  | cons p pieces ih =>
      intro left indexPtr out hok h hleft
      have htext : formatText (p :: pieces) = p.text ++ formatText pieces := List.flatMap_cons
      rw [htext] at h hleft
      rw [List.length_append] at hleft
      have hpos : 0 < p.text.length := by cases p <;> simp [Piece.text]
      obtain ⟨left, rfl⟩ : ∃ k, left = k + 1 := ⟨left - 1, by omega⟩
      have hrest := h.drop
      rw [Mem.drop_drop] at hrest
      rw [show formatArgs (p :: pieces) = p.args ++ formatArgs pieces from List.flatMap_cons,
        vsprintfLoop_piece (hok p (by simp)) h,
        ih left _ _ (fun q hq => hok q (List.mem_cons_of_mem _ hq)) hrest (by omega),
        ← Output.puts_append]
      rfl

/-! ### `vsprintf` -/

theorem zero_notMem_numeral {base : Nat} (hbase : 2 ≤ base) (hle : base ≤ 16) (n : Nat) :
    0 ∉ numeral base n := by
  have hdigit : ∀ d < 16, digitChar d ≠ 0 := by decide
  unfold numeral
  by_cases hn : n = 0
  · rw [if_pos hn]
    decide
  · rw [if_neg hn, List.mem_reverse, List.mem_map]
    rintro ⟨d, hd, h0⟩
    exact hdigit d ((Nat.digits_lt_base hbase hd).trans_le hle) h0

theorem Piece.Ok.text {p : Piece} (h : p.Ok) : 0 ∉ p.expansion := by
  cases p with
  | ordinary c => simpa [expansion] using h.1.symm
  | str s l => exact h.1.text
  | chr v => simpa [expansion] using Ne.symm h
  | dec v =>
      have := @zero_notMem_numeral 10 (by decide) (by decide) (int32 v.toNat).natAbs
      simp only [expansion]
      split_ifs <;> simpa using this
  | hex v => exact zero_notMem_numeral (by decide) (by decide) _

/-- `vsprintf` leaves the expansion and returns its length. -/
def Expands (str format : Mem) (pieces : List Piece) : Prop :=
  ∃ buf, vsprintf str format (formatArgs pieces) = .ok ((expansion pieces).length, buf) ∧
    Spells buf (expansion pieces)

/-- **When `vsprintf` expands its format**: exactly when the buffer already holds a zero where the
expansion ends. -/
theorem vsprintf_iff (str format : Mem) (pieces : List Piece) (hok : ∀ p ∈ pieces, p.Ok)
    (hformat : Spells format (formatText pieces))
    (hfits : (formatText pieces).length < addrSpace ∧ (expansion pieces).length < addrSpace) :
    Expands str format pieces ↔ str (expansion pieces).length = 0 := by
  have hrun := vsprintfLoop_run pieces addrSpace 0 ⟨str, 0⟩ hok (by rwa [Mem.drop_zero]) hfits.1
  have htext : 0 ∉ expansion pieces := fun h0 => by
    obtain ⟨p, hp, hx⟩ := List.mem_flatMap.mp h0
    exact (hok p hp).text hx
  set buf := str.splice 0 (cstr (expansion pieces)) (expansion pieces).length with hbuf
  have hput : (Output.puts ⟨str, 0⟩ (expansion pieces)).buf = buf := rfl
  have hend : buf (expansion pieces).length = str (expansion pieces).length :=
    Mem.splice_out (by omega)
  constructor
  · rintro ⟨buf', h, hspells⟩
    rw [vsprintf, hrun, ok_bind, hput] at h
    obtain ⟨n, -, h⟩ := bind_eq_ok.mp h
    cases h
    rw [← hend]
    exact hspells.at_end
  · intro h0
    have hspells : Spells buf (expansion pieces) := by
      refine ⟨htext, fun i hi => ?_⟩
      rcases Nat.lt_or_eq_of_le hi with hlt | rfl
      · rw [hbuf, Mem.splice_in (by omega) (by omega)]
        rfl
      · rw [hend, h0, List.getD_eq_default _ _ (le_refl _)]
    refine ⟨buf, ?_, hspells⟩
    rw [vsprintf, hrun, ok_bind, hput, strlen_run hspells hfits.2]
    rfl

/-- `x`, `%d` and `%s` for a number and a string. -/
def mixedPieces : List Piece := [.ordinary 120, .dec 0xffffffd6, .str (cstr [97, 98]) [97, 98]]

theorem vsprintf_iff_mixed : Expands (fun _ => 0) (cstr (formatText mixedPieces)) mixedPieces ↔
    (0 : UInt8) = 0 :=
  vsprintf_iff (fun _ => 0) (cstr (formatText mixedPieces)) mixedPieces
    (by
      intro p hp
      simp only [mixedPieces, List.mem_cons, List.not_mem_nil, or_false] at hp
      rcases hp with rfl | rfl | rfl
      · exact ⟨by decide, by decide⟩
      · trivial
      · exact ⟨spells_cstr (by decide), by decide⟩)
    (spells_cstr (by decide)) (by decide +kernel)

/-- The message `ide_read` formats: `%s read sector %d failed` for `sda` and 7. -/
def readFailed : List Piece :=
  .str (cstr [115, 100, 97]) [115, 100, 97]
    :: ([32, 114, 101, 97, 100, 32, 115, 101, 99, 116, 111, 114, 32] : List UInt8).map .ordinary
    ++ .dec 7 :: ([32, 102, 97, 105, 108, 101, 100] : List UInt8).map .ordinary

/-- Its buffer has 64 bytes of whatever was on the stack. -/
def errorBuffer : Mem := fun i => if i < 64 then 0xcc else 0

/-- The rest of the buffer is taken for a part of the message. -/
theorem vsprintf_uninitialised :
    ¬ Expands errorBuffer (cstr (formatText readFailed)) readFailed := by
  rintro ⟨buf, hrun, -⟩
  have hlen : (vsprintf errorBuffer (cstr (formatText readFailed))
      (formatArgs readFailed)).toOption.map (·.1) = some 64 := by
    decide +kernel
  rw [hrun] at hlen
  have hsame : (expansion readFailed).length = 64 := Option.some.inj hlen
  exact absurd hsame (by decide +kernel)

end ZyOs
