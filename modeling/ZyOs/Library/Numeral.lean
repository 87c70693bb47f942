/-
Numerals in a positional system.

A text is read from the left: what has been read is multiplied by the base and the next digit is
added.  The characters are any; `value` says which of them are digits and what these stand for.
`IsNumeral` says that a text is the numeral of a number.  A numeral comes apart at its last digit
(`isNumeral_snoc`), and by induction from there a number has only one.
-/
import Mathlib.Data.List.Induction
import Mathlib.Tactic

namespace Library

section

variable {α : Type*} (value : α → Option Nat) (base : Nat)

/-- One more character is read; `n` is what has been read before. -/
def readDigit (n : Nat) (c : α) : Option Nat := do
  let d ← value c
  if d < base then some (n * base + d) else none

/-- What a text stands for; nothing if there is a character in it that is no digit. -/
def readNumeral (l : List α) : Option Nat := l.foldlM (readDigit value base) 0

/-- The text is the numeral of a number: digits below the base without a leading zero, which read
as the number. -/
structure IsNumeral (n : Nat) (l : List α) : Prop where
  nonempty : l ≠ []
  digits : ∀ c ∈ l, ∃ d < base, value c = some d
  leading : n ≠ 0 → ∀ c, l.head? = some c → value c ≠ some 0
  zero : n = 0 → l.length = 1
  reads : readNumeral value base l = some n

end

variable {α : Type*} {value : α → Option Nat} {base n m k d : Nat} {l l' : List α} {c : α}

/-! ### Reading -/

theorem readDigit_eq_some :
    readDigit value base n c = some m ↔ ∃ d < base, value c = some d ∧ m = n * base + d := by
  unfold readDigit
  cases hc : value c with
  | none => simp
  | some d =>
      by_cases hd : d < base
      · simp [hd, eq_comm]
      · simp [hd]

theorem readNumeral_snoc (l : List α) (c : α) : readNumeral value base (l ++ [c])
    = (readNumeral value base l).bind fun n => readDigit value base n c := by
  unfold readNumeral
  rw [List.foldlM_append]
  simp only [List.foldlM_cons, List.foldlM_nil, bind_pure]
  rfl

theorem readNumeral_snoc_eq_some : readNumeral value base (l ++ [c]) = some n ↔
    ∃ k d, readNumeral value base l = some k ∧ d < base ∧ value c = some d ∧
      n = k * base + d := by
  rw [readNumeral_snoc, Option.bind_eq_some_iff]
  simp only [readDigit_eq_some]
  exact ⟨fun ⟨k, hk, d, h⟩ => ⟨k, d, hk, h⟩, fun ⟨k, d, hk, h⟩ => ⟨k, hk, d, h⟩⟩

/-- A text that does not begin with a zero does not stand for it. -/
theorem readNumeral_ne_zero (hbase : 0 < base) : ∀ (l : List α) (n : Nat), l ≠ [] →
    (∀ c, l.head? = some c → value c ≠ some 0) → readNumeral value base l = some n → n ≠ 0 := by
  intro l
  induction l using List.reverseRecOn with
  | nil => exact fun _ hne => absurd rfl hne
  | append_singleton l c ih =>
      intro n _ hhead hreads
      obtain ⟨k, d, hk, -, hc, rfl⟩ := readNumeral_snoc_eq_some.mp hreads
      cases l with
      | nil =>
          have hd : d ≠ 0 := fun h0 => hhead c rfl (by rw [hc, h0])
          omega
      | cons a l =>
          have hpos := ih k (List.cons_ne_nil _ _) (fun x hx => hhead x (by simpa using hx)) hk
          have hmul : k * base ≠ 0 := Nat.mul_ne_zero hpos (by omega)
          omega

/-! ### The last digit -/

theorem IsNumeral.single (hn : n < base) (hc : value c = some n) :
    IsNumeral value base n [c] where
  nonempty := List.cons_ne_nil _ _
  digits x hx := by
    rw [List.mem_singleton.mp hx]
    exact ⟨n, hn, hc⟩
  leading h x hx := by
    obtain rfl := Option.some.inj hx
    rw [hc]
    exact fun h0 => h (Option.some.inj h0)
  zero _ := rfl
  reads := by
    have hzero : n = 0 * base + n := by omega
    rw [← List.nil_append [c]]
    exact readNumeral_snoc_eq_some.mpr ⟨0, n, rfl, hn, hc, hzero⟩

theorem IsNumeral.snoc (h : IsNumeral value base k l) (hk : k ≠ 0) (hd : d < base)
    (hc : value c = some d) : IsNumeral value base (k * base + d) (l ++ [c]) where
  nonempty := by simp
  digits x hx := by
    rcases List.mem_append.mp hx with hx | hx
    · exact h.digits x hx
    · rw [List.mem_singleton.mp hx]
      exact ⟨d, hd, hc⟩
  leading _ x hx := by
    obtain ⟨a, l, rfl⟩ := List.exists_cons_of_ne_nil h.nonempty
    exact h.leading hk x (by simpa using hx)
  zero h0 := by
    have hmul : k * base ≠ 0 := Nat.mul_ne_zero hk (by omega)
    omega
  reads := readNumeral_snoc_eq_some.mpr ⟨k, d, h.reads, hd, hc, rfl⟩

theorem IsNumeral.cases_snoc (h : IsNumeral value base n (l ++ [c])) :
    ∃ k d, d < base ∧ value c = some d ∧ n = k * base + d ∧
      (k = 0 ∧ l = [] ∨ k ≠ 0 ∧ IsNumeral value base k l) := by
  obtain ⟨k, d, hk, hd, hc, hn⟩ := readNumeral_snoc_eq_some.mp h.reads
  refine ⟨k, d, hd, hc, hn, ?_⟩
  by_cases hl : l = []
  · subst hl
    cases hk
    exact .inl ⟨rfl, rfl⟩
  -- with more than one digit the number is not zero, so the first one is not
  have hne : n ≠ 0 := fun h0 => by
    have hlen := h.zero h0
    rw [List.length_append, List.length_singleton] at hlen
    exact hl (List.length_eq_zero_iff.mp (by omega))
  have hhead : ∀ x, l.head? = some x → value x ≠ some 0 := fun x hx =>
    h.leading hne x (by rw [List.head?_append, hx]; rfl)
  have hpos := readNumeral_ne_zero (Nat.zero_lt_of_lt hd) l k hl hhead hk
  exact .inr ⟨hpos, hl, fun x hx => h.digits x (List.mem_append_left _ hx), fun _ => hhead,
    fun h0 => absurd h0 hpos, hk⟩

/-- **A numeral comes apart at its last digit**: what stands in front of it is the numeral of the
quotient, or nothing. -/
theorem isNumeral_snoc (hbase : 0 < base) : IsNumeral value base n (l ++ [c]) ↔
    value c = some (n % base) ∧
      (n / base = 0 ∧ l = [] ∨ n / base ≠ 0 ∧ IsNumeral value base (n / base) l) := by
  have hsum : n / base * base + n % base = n := Nat.div_add_mod' n base
  have hlt : n % base < base := Nat.mod_lt n hbase
  constructor
  · intro h
    obtain ⟨k, d, hd, hc, rfl, hfront⟩ := h.cases_snoc
    have hdiv : (k * base + d) / base = k := by
      rw [Nat.mul_comm, Nat.mul_add_div hbase, Nat.div_eq_of_lt hd, Nat.add_zero]
    have hmod : (k * base + d) % base = d := by
      rw [Nat.mul_comm, Nat.mul_add_mod, Nat.mod_eq_of_lt hd]
    rw [hdiv, hmod]
    exact ⟨hc, hfront⟩
  · rintro ⟨hc, ⟨hzero, rfl⟩ | ⟨hne, h⟩⟩
    · rw [hzero, Nat.zero_mul, Nat.zero_add] at hsum
      rw [hsum] at hc hlt
      exact .single hlt hc
    · have hnumeral := h.snoc hne hlt hc
      rwa [hsum] at hnumeral

namespace IsNumeral

/-- A numeral has a last digit. -/
theorem exists_snoc (h : IsNumeral value base n l) : ∃ l' c, l = l' ++ [c] := by
  obtain hnil | ⟨l', c, hl⟩ := List.eq_nil_or_concat' l
  · exact absurd hnil h.nonempty
  · exact ⟨l', c, hl⟩

/-- **A number has only one numeral**, where different digits stand for different values. -/
theorem unique (hbase : 2 ≤ base) (hvalue : ∀ a b d, value a = some d → value b = some d → a = b)
    (h : IsNumeral value base n l) (h' : IsNumeral value base n l') : l = l' := by
  induction n using Nat.strongRecOn generalizing l l' with
  | _ n ih =>
      obtain ⟨l, c, rfl⟩ := h.exists_snoc
      obtain ⟨l', c', rfl⟩ := h'.exists_snoc
      obtain ⟨hc, h⟩ := (isNumeral_snoc (by omega)).mp h
      obtain ⟨hc', h'⟩ := (isNumeral_snoc (by omega)).mp h'
      rw [hvalue c c' _ hc hc']
      rcases h with ⟨hzero, rfl⟩ | ⟨hne, h⟩
      · rcases h' with ⟨-, rfl⟩ | ⟨hne, -⟩
        · rfl
        · exact absurd hzero hne
      · rcases h' with ⟨hzero, -⟩ | ⟨-, h'⟩
        · exact absurd hzero hne
        · have hn : n ≠ 0 := fun h0 => hne (by rw [h0, Nat.zero_div])
          rw [ih _ (Nat.div_lt_self (by omega) hbase) h h']

end IsNumeral

end Library
