/-
What `itoa` writes.

`numeral` is the text of a number in a base, by the digits Mathlib has.  `itoa` divides first and
writes when the call for the quotient is back, so what it writes is the numeral of the quotient
with the last digit behind it, and that is how a numeral comes apart (`numeral_eq`,
`isNumeral_snoc`).  There are as many calls as digits.
-/
import Mathlib.Data.Nat.Digits.Lemmas
import ZyOs.Library.CString
import ZyOs.Library.Numeral
import ZyOs.Kernel.Stdio
import ZyOs.Proofs.Text

namespace ZyOs

open Library

/-! ### Numerals -/

/-- `'0'` to `'9'`, `'A'` to `'F'` -/
def digitChar (d : Nat) : UInt8 :=
  if d < 10 then UInt8.ofNat (d + 48) else UInt8.ofNat (d - 10 + 65)

/-- A number written in a base. -/
def numeral (base n : Nat) : List UInt8 :=
  if n = 0 then [digitChar 0] else ((Nat.digits base n).map digitChar).reverse

/-- The last digit stands behind the numeral of the rest. -/
theorem numeral_eq {base n : Nat} (hbase : 2 ≤ base) : numeral base n
    = (if n / base = 0 then [] else numeral base (n / base)) ++ [digitChar (n % base)] := by
  by_cases hn : n = 0
  · subst hn
    simp [numeral]
  · rw [numeral, if_neg hn, Nat.digits_def' (by omega) (by omega), List.map_cons,
      List.reverse_cons]
    congr 1
    by_cases hi : n / base = 0
    · rw [if_pos hi, hi]
      simp
    · rw [if_neg hi, numeral, if_neg hi]

theorem numeral_ne_nil (base n : Nat) : numeral base n ≠ [] := by
  unfold numeral
  by_cases hn : n = 0
  · simp [hn]
  · simp [hn, Nat.digits_ne_nil_iff_ne_zero]

/-- How many digits there are. -/
theorem numeral_length_le_iff {base n k : Nat} (hbase : 2 ≤ base) :
    (numeral base n).length ≤ k + 1 ↔ n < base ^ (k + 1) := by
  unfold numeral
  by_cases hn : n = 0
  · have hpos : 0 < base ^ (k + 1) := Nat.pow_pos (by omega)
    simp [hn, hpos]
  · rw [if_neg hn, List.length_reverse, List.length_map, Nat.digits_length_le_iff hbase]

/-! ### Digits -/

/-- What a character stands for. -/
def digitValue (c : UInt8) : Option Nat :=
  if 48 ≤ c ∧ c ≤ 57 then some (c.toNat - 48)
  else if 65 ≤ c ∧ c ≤ 70 then some (c.toNat - 65 + 10)
  else none

theorem digitValue_digitChar : ∀ d < 16, digitValue (digitChar d) = some d := by
  decide

/-- Different digits stand for different values. -/
theorem digitValue_inj (a b : UInt8) (d : Nat) (ha : digitValue a = some d)
    (hb : digitValue b = some d) : a = b := by
  unfold digitValue at ha hb
  rw [← UInt8.toNat_inj]
  simp only [UInt8.le_iff_toNat_le] at ha hb
  grind

/-- `numeral` is the one numeral there is. -/
theorem isNumeral_iff {base n : Nat} {l : List UInt8} (hbase : 2 ≤ base) (hle : base ≤ 16) :
    IsNumeral digitValue base n l ↔ l = numeral base n := by
  have hnumeral : ∀ n, IsNumeral digitValue base n (numeral base n) := by
    intro n
    induction n using Nat.strongRecOn with
    | _ n ih =>
        have hlast : n % base < 16 := (Nat.mod_lt n (by omega)).trans_le hle
        rw [numeral_eq hbase, isNumeral_snoc (by omega)]
        refine ⟨digitValue_digitChar _ hlast, ?_⟩
        by_cases hi : n / base = 0
        · exact .inl ⟨hi, if_pos hi⟩
        · have hn : n ≠ 0 := fun h0 => hi (by rw [h0, Nat.zero_div])
          rw [if_neg hi]
          exact .inr ⟨hi, ih _ (Nat.div_lt_self (by omega) hbase)⟩
  constructor
  · exact fun h => h.unique hbase digitValue_inj (hnumeral n)
  · rintro rfl
    exact hnumeral n

/-! ### The output -/

namespace Output

variable {out : Output} {l l' : List UInt8} {c : UInt8}

/-- A text is written. -/
def puts (out : Output) (l : List UInt8) : Output :=
  ⟨out.buf.splice out.ptr (cstr l) l.length, out.ptr + l.length⟩

theorem puts_nil (out : Output) : out.puts [] = out := by
  simp [puts]

theorem puts_append (out : Output) (l l' : List UInt8) :
    out.puts (l ++ l') = (out.puts l).puts l' := by
  have hfirst : out.buf.splice out.ptr (cstr (l ++ l')) l.length
      = out.buf.splice out.ptr (cstr l) l.length :=
    Mem.splice_congr fun i hi => List.getD_append _ _ _ _ hi
  have hrest : (cstr (l ++ l')).drop l.length = cstr l' := by
    funext i
    rw [Mem.drop_apply, cstr, List.getD_append_right _ _ _ _ (by omega), Nat.add_sub_cancel_left]
    rfl
  unfold puts
  rw [List.length_append, ← Nat.add_assoc, ← hfirst, ← hrest, Mem.splice_append]

theorem put_eq (out : Output) (c : UInt8) : out.put c = out.puts [c] := by
  unfold put puts
  rw [List.length_singleton, ← Mem.update_eq_splice]
  rfl

end Output

variable {out : Output}

theorem itoa_succ {base : Nat} (hbase : base ≠ 0) (depth value : Nat) (out : Output) :
    itoa base (depth + 1) value out = (do
      let out ← if value / base ≠ 0 then itoa base depth (value / base) out else pure out
      return out.put (digitChar (value % base))) := by
  have hput : ∀ o : Output, (if value % base < 10 then
      (return o.put (UInt8.ofNat (value % base + 48)) : Kernel Output)
      else return o.put (UInt8.ofNat (value % base - 10 + 65)))
        = return o.put (digitChar (value % base)) := by
    intro o
    unfold digitChar
    split_ifs <;> rfl
  rw [itoa, if_neg hbase]
  simp only [hput]

/-- `itoa` writes the numeral, with one call for each digit. -/
theorem itoa_calls {base : Nat} (hbase : 2 ≤ base) : ∀ depth value (out : Output),
    itoa base depth value out = if (numeral base value).length ≤ depth
      then .ok (out.puts (numeral base value)) else .error (.hang "itoa") := by
  intro depth
  induction depth with
  | zero =>
      intro value out
      have hpos := List.length_pos_iff.mpr (numeral_ne_nil base value)
      rw [if_neg (by omega)]
      rfl
  | succ depth ih =>
      intro value out
      rw [itoa_succ (by omega), numeral_eq hbase, List.length_append, List.length_singleton]
      by_cases hi : value / base = 0
      · rw [if_neg (not_not_intro hi), if_pos hi, List.nil_append, ← Output.put_eq,
          if_pos (by simp)]
        rfl
      · rw [if_pos hi, if_neg hi, ih]
        by_cases hdepth : (numeral base (value / base)).length ≤ depth
        · rw [if_pos hdepth, if_pos (by omega), ok_bind, Output.puts_append, ← Output.put_eq]
          rfl
        · rw [if_neg hdepth, if_neg (by omega)]
          rfl

/-- 32 bits have at most as many digits. -/
theorem numeral_length_le {base : Nat} (hbase : 2 ≤ base) (v : UInt32) :
    (numeral base v.toNat).length ≤ itoaDepth :=
  (numeral_length_le_iff hbase).mpr (v.toNat_lt.trans_le (Nat.pow_le_pow_left hbase 32))

/-- 32 bits fit on the stack in any base. -/
theorem itoa_word {base : Nat} (hbase : 2 ≤ base) (v : UInt32) (out : Output) :
    itoa base itoaDepth v.toNat out = .ok (out.puts (numeral base v.toNat)) := by
  rw [itoa_calls hbase, if_pos (numeral_length_le hbase v)]

/-! ### `itoa` -/

/-- The text has been appended, and nothing else was written. -/
structure Output.Appends (out : Output) (l : List UInt8) (out' : Output) : Prop where
  text : ∀ i (h : i < l.length), out'.buf (out.ptr + i) = l[i]
  rest : ∀ a, a < out.ptr ∨ out.ptr + l.length ≤ a → out'.buf a = out.buf a
  ptr : out'.ptr = out.ptr + l.length

theorem Output.appends_puts (out : Output) (l : List UInt8) : out.Appends l (out.puts l) where
  text i hi := by
    show out.buf.splice out.ptr (cstr l) l.length (out.ptr + i) = l[i]
    rw [Mem.splice_in (by omega) (by omega), Nat.add_sub_cancel_left, cstr,
      List.getD_eq_getElem _ _ hi]
  rest _ ha := Mem.splice_out ha
  ptr := rfl

/-- **`itoa` is faithful**: it appends the numeral of the value, however many calls more than its
digits there may be on the stack. -/
theorem itoa_faithful (base : Nat) (hbase : 2 ≤ base) (hle : base ≤ 16) (value : UInt32) :
    ∃ l, IsNumeral digitValue base value.toNat l ∧ l.length ≤ itoaDepth ∧
      ∀ (out : Output) (depth : Nat), l.length ≤ depth →
        ∃ out', itoa base depth value.toNat out = .ok out' ∧ out.Appends l out' := by
  refine ⟨numeral base value.toNat, (isNumeral_iff hbase hle).mpr rfl,
    numeral_length_le hbase value, fun out depth hdepth => ⟨_, ?_, out.appends_puts _⟩⟩
  rw [itoa_calls hbase, if_pos hdepth]

theorem itoa_faithful_hex : ∃ l, IsNumeral digitValue 16 255 l ∧ l.length ≤ itoaDepth ∧
    ∀ (out : Output) (depth : Nat), l.length ≤ depth →
      ∃ out', itoa 16 depth 255 out = .ok out' ∧ out.Appends l out' :=
  itoa_faithful 16 (by decide) (by decide) 255

end ZyOs
