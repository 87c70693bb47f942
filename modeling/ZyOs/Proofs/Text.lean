/-
What `lib/string.c` makes of zero-terminated strings.

`strncmp` looks at one byte more than its count, so it still sees the end of the shorter string
when the count is just its length.  From then on it tells all strings apart.
-/
import ZyOs.Kernel.String
import ZyOs.Library.CString
import ZyOs.Library.Outcome

namespace ZyOs

open Library

variable {a b m m' dst src : Mem} {l p q : List UInt8}

theorem spells_cstr (h : 0 ∉ l) : Spells (cstr l) l := ⟨h, fun _ _ => rfl⟩

/-! ### `strncmp` -/

theorem charVal_inj {x y : UInt8} : charVal x = charVal y ↔ x = y := by
  constructor
  · intro h
    have h8 : x.toInt8 = y.toInt8 := Int8.toInt_inj.mp h
    rw [← UInt8.toUInt8_toInt8 x, ← UInt8.toUInt8_toInt8 y, h8]
  · rintro rfl
    rfl

theorem strncmp_end (a b : Mem) (i : Nat) : strncmp a b 0 i = 0 ↔ a i = b i := by
  rw [← charVal_inj (x := a i)]
  unfold strncmp
  split_ifs with h1 h2
  · exact ⟨fun h => absurd h (by decide), fun h => absurd h (by omega)⟩
  · exact ⟨fun h => absurd h (by decide), fun h => absurd h (by omega)⟩
  · exact ⟨fun _ => by omega, fun _ => rfl⟩

theorem strncmp_succ (a b : Mem) (n i : Nat) : strncmp a b (n + 1) i
    = if a i ≠ 0 ∧ a i = b i then strncmp a b n (i + 1) else strncmp a b 0 i := by
  conv_lhs => rw [strncmp]

/-- Exchanging the strings exchanges the answers. -/
theorem strncmp_swap (a b : Mem) : ∀ n i, strncmp b a n i = -strncmp a b n i := by
  have hend : ∀ i, strncmp b a 0 i = -strncmp a b 0 i := by
    intro i
    unfold strncmp
    split_ifs <;> omega
  intro n
  induction n with
  | zero => exact hend
  | succ n ih =>
      intro i
      rw [strncmp_succ, strncmp_succ a b]
      by_cases heq : a i ≠ 0 ∧ a i = b i
      · rw [if_pos heq, if_pos ⟨heq.2 ▸ heq.1, heq.2.symm⟩, ih]
      · rw [if_neg heq, if_neg fun hc : b i ≠ 0 ∧ b i = a i => heq ⟨hc.2 ▸ hc.1, hc.2.symm⟩, hend]

theorem strncmp_comm (a b : Mem) (n i : Nat) : strncmp a b n i = 0 ↔ strncmp b a n i = 0 := by
  rw [strncmp_swap a b, neg_eq_zero]

/-- All bytes agree up to the terminator, or up to the byte behind the count. -/
theorem strncmp_zero_iff (a b : Mem) : ∀ n i, strncmp a b n i = 0 ↔
    ∀ j, i ≤ j → j ≤ i + n → (∀ k, i ≤ k → k < j → a k ≠ 0) → a j = b j := by
  intro n
  induction n with
  | zero =>
      intro i
      rw [strncmp_end]
      constructor
      · intro h j hij hj _
        rwa [show j = i by omega]
      · exact fun h => h i (le_refl i) (le_refl i) fun k hik hk => absurd hk (by omega)
  | succ n ih =>
      intro i
      rw [strncmp_succ]
      by_cases heq : a i ≠ 0 ∧ a i = b i
      · rw [if_pos heq, ih]
        constructor
        · intro h j hij hj hk
          rcases Nat.eq_or_lt_of_le hij with rfl | hlt
          · exact heq.2
          · exact h j hlt (by omega) fun k hik => hk k (by omega)
        · intro h j hij hj hk
          refine h j (by omega) (by omega) fun k hik hkj => ?_
          rcases Nat.eq_or_lt_of_le hik with rfl | hlt
          · exact heq.1
          · exact hk k hlt hkj
      · rw [if_neg heq, strncmp_end]
        constructor
        · intro h j hij hj hk
          rcases Nat.eq_or_lt_of_le hij with rfl | hlt
          · exact h
          · exact absurd ⟨hk i (le_refl i) hlt, h⟩ heq
        · exact fun h => h i (le_refl i) (by omega) fun k hik hk => absurd hk (by omega)

/-- Against bytes other than zero all of them are compared, and the one behind. -/
theorem strncmp_eq_zero {n i : Nat} (hb : ∀ j, i ≤ j → j < i + n → b j ≠ 0) :
    strncmp a b n i = 0 ↔ ∀ j, i ≤ j → j ≤ i + n → a j = b j := by
  rw [strncmp_comm, strncmp_zero_iff]
  constructor
  · exact fun h j hij hj => (h j hij hj fun k hik hk => hb k hik (by omega)).symm
  · exact fun h j hij hj _ => (h j hij hj).symm

/-- **`strncmp` with a count that reaches the end of the shorter string tells strings apart**,
and says the opposite of two strings that are exchanged. -/
theorem strncmp_decides {size : Nat} (ha : Spells a p) (hb : Spells b q)
    (hsize : min p.length q.length ≤ size) :
    (strncmp a b size 0 = 0 ↔ p = q) ∧ strncmp b a size 0 = -strncmp a b size 0 := by
  refine ⟨?_, strncmp_swap a b size 0⟩
  rw [strncmp_zero_iff]
  constructor
  · intro h
    have hsame : ∀ j ≤ min p.length q.length, a j = b j := fun j hj =>
      h j (Nat.zero_le j) (by omega) fun k _ hk => ha.ne_zero (by omega)
    rcases Nat.le_total p.length q.length with hle | hle
    · exact ha.eq_of_bytes hb hle fun i hi => hsame i (by omega)
    · exact (hb.eq_of_bytes ha hle fun i hi => (hsame i (by omega)).symm).symm
  · rintro rfl j - - hk
    have hj : j ≤ p.length := by
      by_contra hlt
      exact hk p.length (Nat.zero_le _) (by omega) ha.at_end
    rw [ha.bytes j hj, hb.bytes j hj]

/-- `"ab"` and `"abc"` with the length of the shorter one. -/
theorem strncmp_decides_prefix :
    (strncmp (cstr [97, 98]) (cstr [97, 98, 99]) 2 0 = 0 ↔ [97, 98] = ([97, 98, 99] : List UInt8)) ∧
      strncmp (cstr [97, 98, 99]) (cstr [97, 98]) 2 0
        = -strncmp (cstr [97, 98]) (cstr [97, 98, 99]) 2 0 :=
  strncmp_decides (spells_cstr (by decide)) (spells_cstr (by decide)) (by decide)

/-! ### Lengths and copies -/

theorem strlenLoop_run : ∀ n left p, n < left → (∀ j < n, m (p + j) ≠ 0) → m (p + n) = 0 →
    strlenLoop m left p = .ok (p + n) := by
  intro n
  induction n with
  | zero =>
      intro left p hleft _ h0
      obtain ⟨left, rfl⟩ : ∃ k, left = k + 1 := ⟨left - 1, by omega⟩
      rw [strlenLoop, if_pos (by simpa using h0)]
      rfl
  | succ n ih =>
      intro left p hleft hne h0
      obtain ⟨left, rfl⟩ : ∃ k, left = k + 1 := ⟨left - 1, by omega⟩
      have hp : m p ≠ 0 := hne 0 (by omega)
      have hshift : ∀ j, p + 1 + j = p + (j + 1) := fun j => by omega
      rw [strlenLoop, if_neg hp, ih left (p + 1) (by omega)
        (fun j hj => by rw [hshift]; exact hne (j + 1) (by omega)) (by rwa [hshift]), hshift]

theorem strlen_run (h : Spells m l) (hlen : l.length < addrSpace) : strlen m = .ok l.length := by
  have := strlenLoop_run (m := m) l.length addrSpace 0 hlen
    (fun j hj => by rw [Nat.zero_add]; exact h.ne_zero hj) (by rw [Nat.zero_add]; exact h.at_end)
  rwa [Nat.zero_add] at this

/-- A copy of a string without its terminator. -/
theorem strncpy_run : ∀ n i dst, (∀ j < n, src (i + j) ≠ 0) →
    strncpy dst src n i = dst.splice i (src.drop i) n := by
  intro n
  induction n with
  | zero => exact fun i dst _ => (Mem.splice_zero dst _ i).symm
  | succ n ih =>
      intro i dst hne
      have hi : src i ≠ 0 := hne 0 (by omega)
      have hrest : ∀ j < n, src (i + 1 + j) ≠ 0 := fun j hj => by
        rw [show i + 1 + j = i + (j + 1) by omega]
        exact hne (j + 1) (by omega)
      rw [strncpy, if_neg hi, ih (i + 1) _ hrest, ← Mem.splice_update dst (src.drop i),
        Mem.drop_drop]
      rfl

theorem strcatLoop_run : ∀ n left p i dst, n < left → (∀ j < n, src (i + j) ≠ 0) →
    src (i + n) = 0 → strcatLoop src left p i dst = .ok (dst.splice p (src.drop i) (n + 1)) := by
  intro n
  induction n with
  | zero =>
      intro left p i dst hleft _ h0
      obtain ⟨left, rfl⟩ : ∃ k, left = k + 1 := ⟨left - 1, by omega⟩
      have hi : src i = 0 := h0
      rw [strcatLoop, if_pos hi, ← Mem.update_eq_splice, Mem.drop_apply, Nat.add_zero, hi]
      rfl
  | succ n ih =>
      intro left p i dst hleft hne h0
      obtain ⟨left, rfl⟩ : ∃ k, left = k + 1 := ⟨left - 1, by omega⟩
      have hi : src i ≠ 0 := hne 0 (by omega)
      have hrest : ∀ j < n, src (i + 1 + j) ≠ 0 := fun j hj => by
        rw [show i + 1 + j = i + (j + 1) by omega]
        exact hne (j + 1) (by omega)
      rw [strcatLoop, if_neg hi, ih left (p + 1) (i + 1) _ (by omega) hrest
        (by rwa [show i + 1 + n = i + (n + 1) by omega]), ← Mem.splice_update dst (src.drop i),
        Mem.drop_drop]
      rfl

/-- `strcat` puts the one string behind the other and changes nothing behind that. -/
theorem strcat_run (hdst : Spells dst p) (hsrc : Spells src q) (hp : p.length < addrSpace)
    (hq : q.length < addrSpace) :
    strcat dst src = .ok (dst.splice p.length src (q.length + 1)) := by
  have hlen := strlen_run hdst hp
  unfold strlen at hlen
  have hcopy := @strcatLoop_run src q.length addrSpace p.length 0 dst hq
    (fun j hj => by rw [Nat.zero_add]; exact hsrc.ne_zero hj)
    (by rw [Nat.zero_add]; exact hsrc.at_end)
  rw [Mem.drop_zero] at hcopy
  rw [strcat, hlen, ok_bind, hcopy]

end ZyOs
