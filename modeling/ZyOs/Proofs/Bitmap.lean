/-
What a bitmap's operations mean bit by bit.

`bitmap_set` and `bitmap_scan_test` work on bytes and masks; above this file a
bitmap is only a function from bit numbers to booleans.  `scan_one` is the form
in which every allocator uses `bitmap_scan`: with a count of one it returns the
first clear bit, and nothing past the bitmap is looked at.
-/
import ZyOs.Kernel.Bitmap

namespace ZyOs

open Library

/-! ### Masks -/

theorem toBitVec_bitMask {k : Nat} (hk : k < 8) : (bitMask k).toBitVec = BitVec.twoPow 8 k := by
  interval_cases k <;> rfl

/-- Masking a byte with `1 << k` asks for its bit `k`. -/
theorem and_bitMask (x : UInt8) {k : Nat} (hk : k < 8) :
    (x &&& bitMask k != 0) = x.toBitVec.getLsbD k := by
  have hand : (x &&& bitMask k).toBitVec = x.toBitVec &&& BitVec.twoPow 8 k := by
    rw [UInt8.toBitVec_and, toBitVec_bitMask hk]
  have hne : BitVec.twoPow 8 k ≠ 0#8 := by interval_cases k <;> decide
  rw [BitVec.and_twoPow] at hand
  cases hbit : x.toBitVec.getLsbD k with
  | true =>
      have hx : x &&& bitMask k ≠ 0 := by
        intro hc
        rw [hc, hbit, if_pos rfl] at hand
        exact hne hand.symm
      simpa using hx
  | false =>
      have hx : x &&& bitMask k = 0 := by
        apply UInt8.toBitVec_inj.mp
        rw [hand, hbit]
        rfl
      simp [hx]

theorem getLsbD_or_bitMask (x : UInt8) {k j : Nat} (hk : k < 8) :
    (x ||| bitMask k).toBitVec.getLsbD j = (x.toBitVec.getLsbD j || decide (k = j)) := by
  rw [UInt8.toBitVec_or, toBitVec_bitMask hk, BitVec.getLsbD_or, BitVec.getLsbD_twoPow]
  simp [hk]

theorem getLsbD_and_not_bitMask (x : UInt8) {k j : Nat} (hk : k < 8) (hj : j < 8) :
    (x &&& ~~~ bitMask k).toBitVec.getLsbD j = (x.toBitVec.getLsbD j && !decide (k = j)) := by
  rw [UInt8.toBitVec_and, UInt8.toBitVec_not, toBitVec_bitMask hk, BitVec.getLsbD_and,
    BitVec.getLsbD_not, BitVec.getLsbD_twoPow]
  simp [hk, hj]

/-- A byte with every bit set is `0xff`. -/
theorem eq_ff_of_bits {x : UInt8} (h : ∀ k < 8, x.toBitVec.getLsbD k = true) : x = 0xff := by
  apply UInt8.toBitVec_inj.mp
  refine BitVec.eq_of_getLsbD_eq fun i hi => ?_
  rw [h i hi]
  interval_cases i <;> rfl

namespace Bitmap

variable {b : Bitmap}

theorem scanTest_eq (b : Bitmap) (i : Nat) :
    b.bitmapScanTest i = (b.bits (i / 8)).toBitVec.getLsbD (i % 8) :=
  and_bitMask _ (Nat.mod_lt _ (by decide))

/-! ### `bitmap_set` -/

@[simp] theorem bmapBytesLen_set (b : Bitmap) (i : Nat) (v : Bool) :
    (b.bitmapSet i v).bmapBytesLen = b.bmapBytesLen := rfl

/-- `bitmap_set` changes the one bit it names. -/
theorem scanTest_set (b : Bitmap) (i j : Nat) (v : Bool) :
    (b.bitmapSet i v).bitmapScanTest j = if j = i then v else b.bitmapScanTest j := by
  have hi : i % 8 < 8 := Nat.mod_lt _ (by decide)
  have hj : j % 8 < 8 := Nat.mod_lt _ (by decide)
  rw [scanTest_eq, scanTest_eq]
  simp only [bitmapSet]
  by_cases hbyte : j / 8 = i / 8
  · rw [if_pos hbyte, ← hbyte]
    cases v with
    | true =>
        rw [if_pos rfl, getLsbD_or_bitMask _ hi]
        by_cases hij : j = i
        · simp [hij]
        · rw [if_neg hij]
          have hne : ¬ i % 8 = j % 8 := by omega
          simp [hne]
    | false =>
        rw [if_neg (by decide), getLsbD_and_not_bitMask _ hi hj]
        by_cases hij : j = i
        · simp [hij]
        · rw [if_neg hij]
          have hne : ¬ i % 8 = j % 8 := by omega
          simp [hne]
  · rw [if_neg hbyte, if_neg (fun hc => hbyte (by rw [hc]))]

/-- `bitmap_set` leaves every byte but the one that holds the bit. -/
theorem bits_set_of_ne (b : Bitmap) {i k : Nat} (v : Bool) (h : k ≠ i / 8) :
    (b.bitmapSet i v).bits k = b.bits k := by
  simp [bitmapSet, h]

/-- A bitmap is its length and its bits. -/
theorem ext_scanTest {b b' : Bitmap} (hlen : b.bmapBytesLen = b'.bmapBytesLen)
    (h : ∀ i, b.bitmapScanTest i = b'.bitmapScanTest i) : b = b' := by
  obtain ⟨len, bits⟩ := b
  obtain ⟨len', bits'⟩ := b'
  obtain rfl : len = len' := hlen
  congr 1
  funext k
  apply UInt8.toBitVec_inj.mp
  refine BitVec.eq_of_getLsbD_eq fun j hj => ?_
  have hbit := h (8 * k + j)
  rw [scanTest_eq, scanTest_eq] at hbit
  rwa [show (8 * k + j) / 8 = k by omega, show (8 * k + j) % 8 = j by omega] at hbit

/-- A free bit that is set and cleared. -/
theorem set_clear {i : Nat} (h : b.bitmapScanTest i = false) :
    (b.bitmapSet i true).bitmapSet i false = b := by
  refine ext_scanTest rfl fun j => ?_
  rw [scanTest_set, scanTest_set]
  by_cases hj : j = i
  · rw [if_pos hj, hj, h]
  · rw [if_neg hj, if_neg hj]

/-! ### `bitmap_scan` for one bit -/

theorem skipFull_spec (b : Bitmap) :
    ∀ (fuel i : Nat), i + fuel = b.bmapBytesLen → (∀ k < i, b.bits k = 0xff) →
      b.skipFull fuel i ≤ b.bmapBytesLen ∧ (∀ k < b.skipFull fuel i, b.bits k = 0xff) ∧
        (b.skipFull fuel i < b.bmapBytesLen → b.bits (b.skipFull fuel i) ≠ 0xff) := by
  intro fuel
  induction fuel with
  | zero =>
      intro i hi hall
      refine ⟨by simp only [skipFull]; omega, hall, fun hlt => ?_⟩
      simp only [skipFull] at hlt
      omega
  | succ fuel ih =>
      intro i hi hall
      unfold skipFull
      split
      · rename_i h
        refine ih (i + 1) (by omega) fun k hk => ?_
        rcases Nat.lt_succ_iff_lt_or_eq.mp hk with hlt | heq
        · exact hall k hlt
        · rw [heq]; exact h.1
      · rename_i h
        refine ⟨by omega, hall, fun hlt hff => h ⟨hff, hlt⟩⟩

theorem firstFree_spec (byte : UInt8) (hne : byte ≠ 0xff) :
    ∀ (fuel k : Nat), k + fuel = 8 → (∀ j < k, byte.toBitVec.getLsbD j = true) →
      firstFree byte fuel k < 8 ∧ byte.toBitVec.getLsbD (firstFree byte fuel k) = false ∧
        ∀ j < firstFree byte fuel k, byte.toBitVec.getLsbD j = true := by
  intro fuel
  induction fuel with
  | zero =>
      intro k hk hall
      exact absurd (eq_ff_of_bits fun j hj => hall j (by omega)) hne
  | succ fuel ih =>
      intro k hk hall
      have hmask : (bitMask k &&& byte ≠ 0) ↔ byte.toBitVec.getLsbD k = true := by
        rw [← and_bitMask byte (by omega : k < 8), UInt8.and_comm, bne_iff_ne]
      unfold firstFree
      split
      · rename_i h
        refine ih (k + 1) (by omega) fun j hj => ?_
        rcases Nat.lt_succ_iff_lt_or_eq.mp hj with hlt | heq
        · exact hall j hlt
        · rw [heq]; exact hmask.mp h
      · rename_i h
        refine ⟨by omega, ?_, hall⟩
        simpa using fun hc => h (hmask.mpr hc)

theorem int32_of_lt {n : Nat} (h : n < 2 ^ 31) : int32 n = n := by
  unfold int32
  rw [Nat.mod_eq_of_lt (by omega), if_pos h]

theorem int32_eq_zero {n : Nat} (h : n < 2 ^ 32) : int32 n = 0 ↔ n = 0 := by
  unfold int32
  rw [Nat.mod_eq_of_lt h]
  by_cases hlt : n < 2 ^ 31
  · rw [if_pos hlt]
    omega
  · rw [if_neg hlt]
    omega

theorem int32_eq_neg {n : Nat} (h : n < 2 ^ 32) : int32 n = -1 ↔ n = 2 ^ 32 - 1 := by
  unfold int32
  rw [Nat.mod_eq_of_lt h]
  by_cases hlt : n < 2 ^ 31
  · rw [if_pos hlt]
    omega
  · rw [if_neg hlt]
    omega

/-- **`bitmap_scan(b, 1)` returns the first clear bit of the bitmap.** -/
theorem scan_one {i : Int} (hlen : 8 * b.bmapBytesLen ≤ 2 ^ 31)
    (h : b.bitmapScan 1 = .ok i) :
    ∃ n : Nat, i = n ∧ n < 8 * b.bmapBytesLen ∧ b.bitmapScanTest n = false ∧
      ∀ m < n, b.bitmapScanTest m = true := by
  simp only [bitmapScan, bind_eq_ok, ASSERT_eq_ok] at h
  obtain ⟨-, hlt, h⟩ := h
  obtain ⟨-, hfull, hfree⟩ := b.skipFull_spec b.bmapBytesLen 0 (by omega) (by simp)
  set y := b.skipFull b.bmapBytesLen 0 with hy
  obtain ⟨hz8, hzf, hzt⟩ := firstFree_spec (b.bits y) (hfree hlt) 8 0 (by omega) (by simp)
  set z := firstFree (b.bits y) 8 0 with hz
  rw [if_neg (by omega)] at h
  simp only [if_true, pure_eq_ok, Except.ok.injEq] at h
  refine ⟨y * 8 + z, ?_, by omega, ?_, ?_⟩
  · rw [← h, Nat.mod_eq_of_lt (by omega), int32_of_lt (by omega)]
  · rw [scanTest_eq, show (y * 8 + z) / 8 = y by omega, show (y * 8 + z) % 8 = z by omega]
    exact hzf
  · intro m hm
    rw [scanTest_eq]
    by_cases hmy : m / 8 = y
    · rw [hmy]
      exact hzt _ (by omega)
    · rw [hfull (m / 8) (by omega)]
      have : m % 8 < 8 := Nat.mod_lt _ (by decide)
      interval_cases m % 8 <;> rfl

/-- With a clear bit inside the bitmap the scan does return. -/
theorem scan_one_returns {n : Nat} (hn : n < 8 * b.bmapBytesLen)
    (hclear : b.bitmapScanTest n = false) : ∃ i, b.bitmapScan 1 = .ok i := by
  obtain ⟨hle, hfull, -⟩ := b.skipFull_spec b.bmapBytesLen 0 (by omega) (by simp)
  have hlt : b.skipFull b.bmapBytesLen 0 < b.bmapBytesLen := by
    rcases Nat.lt_or_ge (n / 8) (b.skipFull b.bmapBytesLen 0) with hc | hc
    · rw [scanTest_eq, hfull _ hc] at hclear
      have : n % 8 < 8 := Nat.mod_lt _ (by decide)
      exfalso
      revert hclear
      interval_cases n % 8 <;> decide
    · omega
  simp only [bitmapScan, ASSERT_pos hlt, ok_bind, if_neg (Nat.ne_of_lt hlt), if_true]
  exact ⟨_, rfl⟩

end Bitmap

end ZyOs
