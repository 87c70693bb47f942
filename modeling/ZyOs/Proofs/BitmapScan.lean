/-
`bitmap_scan` for any number of bits.

The scan goes to the first clear bit and from there counts: `count` is the length of the run that
ends in front of `next_bit`, a `Streak`.  It looks at one bit more than it should, the one behind
the bitmap, so what it returns is the first run among one bit more than the bitmap has.  Numbers
of bits are `uint32_t` and what is returned is an `int`; a bitmap of more bits than that is
scanned as well, and only then can the count of bits that are left come round.
-/
import ZyOs.Library.Runs
import ZyOs.Proofs.Bitmap

namespace ZyOs

open Library

theorem int32_mod (n : Nat) : int32 (n % 2 ^ 32) = int32 n := by
  unfold int32
  rw [Nat.mod_mod]

/-- An `int` that is not negative. -/
theorem int32_nonneg {n : Nat} :
    0 ≤ int32 n ↔ n % 2 ^ 32 < 2 ^ 31 ∧ int32 n = (n % 2 ^ 32 : Nat) := by
  unfold int32
  split_ifs with hlt <;> omega

namespace Bitmap

/-- Bit `i` is 0. -/
def Free (b : Bitmap) (i : Nat) : Prop := b.bitmapScanTest i = false

instance (b : Bitmap) (i : Nat) : Decidable (b.Free i) := inferInstanceAs (Decidable (_ = _))

theorem not_free {b : Bitmap} {i : Nat} : ¬ b.Free i ↔ b.bitmapScanTest i = true := by
  simp [Free]

/-- The bit `bitmap_scan` finds. -/
structure LowestFree (b : Bitmap) (n : Nat) : Prop where
  bit : n < 8 * b.bmapBytesLen
  free : b.bitmapScanTest n = false
  below : ∀ m < n, b.bitmapScanTest m = true

theorem LowestFree.unique {b : Bitmap} {n m : Nat} (hn : b.LowestFree n)
    (hm : b.LowestFree m) : n = m := by
  rcases Nat.lt_trichotomy n m with hlt | heq | hlt
  · exact absurd (hm.below n hlt) (by simp [hn.free])
  · exact heq
  · exact absurd (hn.below m hlt) (by simp [hm.free])

/-- Every bit is set. -/
def Full (b : Bitmap) : Prop := ∀ i < 8 * b.bmapBytesLen, b.bitmapScanTest i = true

theorem full_of_bytes {b : Bitmap} (h : ∀ k < b.bmapBytesLen, b.bits k = 0xff) : b.Full := by
  intro i hi
  have hbit : i % 8 < 8 := Nat.mod_lt _ (by decide)
  rw [scanTest_eq, h (i / 8) (by omega)]
  interval_cases i % 8 <;> rfl

theorem LowestFree.not_full {b : Bitmap} {n : Nat} (h : b.LowestFree n) : ¬ b.Full := by
  intro hfull
  have hset := hfull n h.bit
  rw [h.free] at hset
  cases hset

/-- `cnt` bits of the bitmap one after the other are 0. -/
def HasRun (b : Bitmap) (cnt : Nat) : Prop :=
  ∃ i, i + cnt ≤ 8 * b.bmapBytesLen ∧ IsRun b.Free i cnt

variable {b : Bitmap} {cnt p : Nat}

theorem full_or_lowestFree (b : Bitmap) : b.Full ∨ ∃ p, b.LowestFree p := by
  by_cases h : ∃ i, i + 1 ≤ 8 * b.bmapBytesLen ∧ IsRun b.Free i 1
  · obtain ⟨p, hp, hfree, hbelow⟩ := IsRun.exists_first h
    exact .inr ⟨p, hp, IsRun.one.mp hfree, fun k hk =>
      not_free.mp fun hc => hbelow k hk (IsRun.one.mpr hc)⟩
  · exact .inl fun i hi => not_free.mp fun hfree => h ⟨i, hi, IsRun.one.mpr hfree⟩

theorem Full.not_hasRun (h : b.Full) (hcnt : 1 ≤ cnt) : ¬ b.HasRun cnt := by
  rintro ⟨i, hi, hrun⟩
  exact not_free.mpr (h i (by omega)) (hrun 0 (by omega))

/-! ### The two loops in front -/

/-- The byte the first loop stops at and the bit the second one does. -/
theorem LowestFree.found (h : b.LowestFree p) :
    b.skipFull b.bmapBytesLen 0 = p / 8 ∧ firstFree (b.bits (p / 8)) 8 0 = p % 8 := by
  obtain ⟨hle, hfull, hbyte⟩ := b.skipFull_spec b.bmapBytesLen 0 (by omega) (by simp)
  have hinside := h.bit
  have hge : b.skipFull b.bmapBytesLen 0 ≤ p / 8 := by
    by_contra hc
    have hff := hfull (p / 8) (by omega)
    have hfree := h.free
    rw [scanTest_eq, hff] at hfree
    have : p % 8 < 8 := Nat.mod_lt _ (by decide)
    revert hfree
    interval_cases p % 8 <;> decide
  set y := b.skipFull b.bmapBytesLen 0
  obtain ⟨hz, hclear, hset⟩ := firstFree_spec (b.bits y) (hbyte (by omega)) 8 0 (by omega) (by simp)
  set z := firstFree (b.bits y) 8 0
  have hbit : ∀ k < 8, b.bitmapScanTest (8 * y + k) = (b.bits y).toBitVec.getLsbD k := by
    intro k hk
    rw [scanTest_eq, show (8 * y + k) / 8 = y by omega, show (8 * y + k) % 8 = k by omega]
  have hp : p = 8 * y + z := by
    rcases Nat.lt_trichotomy p (8 * y + z) with hlt | heq | hlt
    · have hfree := h.free
      rw [show p = 8 * y + (p - 8 * y) by omega, hbit _ (by omega), hset _ (by omega)] at hfree
      cases hfree
    · exact heq
    · exact absurd ((hbit z hz).trans hclear) (not_free.mpr (h.below _ hlt))
  have hy : p / 8 = y := by omega
  rw [hy]
  exact ⟨rfl, by omega⟩

/-- On a full bitmap the `ASSERT` stops the kernel. -/
theorem Full.scan (h : b.Full) (cnt : Nat) :
    b.bitmapScan cnt = .error (.panic "bitmap_scan" "idx_byte < bmap->bmap_bytes_len") := by
  have hge : ¬ b.skipFull b.bmapBytesLen 0 < b.bmapBytesLen := by
    intro hlt
    obtain ⟨-, -, hbyte⟩ := b.skipFull_spec b.bmapBytesLen 0 (by omega) (by simp)
    set y := b.skipFull b.bmapBytesLen 0
    obtain ⟨hz, hclear, -⟩ := firstFree_spec (b.bits y) (hbyte hlt) 8 0 (by omega) (by simp)
    set z := firstFree (b.bits y) 8 0
    refine not_free.mpr (h (8 * y + z) (by omega)) ?_
    rw [Free, scanTest_eq, show (8 * y + z) / 8 = y by omega, show (8 * y + z) % 8 = z by omega]
    exact hclear
  simp only [bitmapScan, ASSERT_neg hge, error_bind]

/-- Elsewhere the scan goes on from the first clear bit. -/
theorem LowestFree.scan (h : b.LowestFree p) (cnt : Nat) :
    b.bitmapScan cnt = .ok (if cnt = 1 then int32 p else
      b.scanRun cnt ((8 * b.bmapBytesLen + 2 ^ 32 - p % 2 ^ 32) % 2 ^ 32) ((p + 1) % 2 ^ 32) 1) := by
  obtain ⟨hbyte, hbit⟩ := h.found
  have hlt : p / 8 < b.bmapBytesLen := by
    have := h.bit
    omega
  have hsum : p / 8 * 8 + p % 8 = p := by omega
  unfold bitmapScan
  simp only [hbyte, hbit, hsum, ASSERT_pos hlt, ok_bind, if_neg (Nat.ne_of_lt hlt), int32_mod,
    Nat.mod_add_mod, Nat.mul_comm b.bmapBytesLen 8]
  split_ifs <;> rfl

/-! ### The third loop -/

/-- Bits that are all 1 lead to nothing. -/
theorem scanRun_occupied (hcnt : 1 ≤ cnt) : ∀ (left next count : Nat),
    (∀ k < left, ¬ b.Free ((next + k) % 2 ^ 32)) →
      b.scanRun cnt left (next % 2 ^ 32) count = -1 := by
  intro left
  induction left with
  | zero => exact fun _ _ _ => rfl
  | succ left ih =>
      intro next count hocc
      have htest : b.bitmapScanTest (next % 2 ^ 32) = true := by
        simpa [Free] using hocc 0 (by omega)
      rw [scanRun, if_pos htest, if_neg (by omega), Nat.mod_add_mod]
      refine ih (next + 1) 0 fun k hk => ?_
      rw [Nat.add_assoc, Nat.add_comm 1 k]
      exact hocc (k + 1) (by omega)

/-- `left` bits without an overflow: the first run that ends among them is returned, or the loop
goes on behind them. -/
theorem scanRun_segment (rest : Nat) : ∀ (left next count : Nat), next + left ≤ 2 ^ 32 →
    Streak b.Free next count → count < cnt → (∀ k, k + cnt ≤ next → ¬ IsRun b.Free k cnt) →
    (∃ i, i + cnt ≤ next + left ∧ IsRun b.Free i cnt ∧ (∀ k < i, ¬ IsRun b.Free k cnt) ∧
      b.scanRun cnt (left + rest) (next % 2 ^ 32) count = int32 i) ∨
    ((∀ k, k + cnt ≤ next + left → ¬ IsRun b.Free k cnt) ∧ ∃ count',
      b.scanRun cnt (left + rest) (next % 2 ^ 32) count
        = b.scanRun cnt rest ((next + left) % 2 ^ 32) count') := by
  intro left
  induction left with
  | zero =>
      intro next count _ _ _ hnone
      exact .inr ⟨hnone, count, by rw [Nat.zero_add, Nat.add_zero]⟩
  | succ left ih =>
      intro next count hle hstreak hlt hnone
      have hmod : next % 2 ^ 32 = next := Nat.mod_eq_of_lt (by omega)
      rw [hmod, Nat.add_right_comm left 1 rest, scanRun, ← Nat.add_assoc next left 1,
        Nat.add_right_comm next left 1]
      by_cases htest : b.bitmapScanTest next = true
      · rw [if_pos htest, if_neg (by omega)]
        have hstop : Streak b.Free (next + 1) 0 := .stop (by simpa [Free] using htest)
        refine ih (next + 1) 0 (by omega) hstop (by omega) fun k hk => ?_
        rcases Nat.lt_succ_iff_lt_or_eq.mp (Nat.lt_succ_of_le hk) with hlow | heq
        · exact hnone k (by omega)
        · rw [hstop.isRun_iff heq]
          omega
      · rw [if_neg htest]
        have hgrow : Streak b.Free (next + 1) (count + 1) :=
          hstreak.grow (by simpa [Free] using htest)
        by_cases hfull : count + 1 = cnt
        · rw [if_pos hfull]
          have hcount := hstreak.le
          refine .inl ⟨next + 1 - cnt, by omega, ?_, fun k hk => hnone k (by omega), ?_⟩
          · exact (hgrow.isRun_iff (by omega)).mpr hfull.ge
          · rw [← int32_mod, ← int32_mod (next + 1 - cnt)]
            congr 1
            omega
        · rw [if_neg hfull]
          refine ih (next + 1) (count + 1) (by omega) hgrow (by omega) fun k hk => ?_
          rcases Nat.lt_succ_iff_lt_or_eq.mp (Nat.lt_succ_of_le hk) with hlow | heq
          · exact hnone k (by omega)
          · rw [hgrow.isRun_iff heq]
            omega

theorem LowestFree.streak (h : b.LowestFree p) : Streak b.Free (p + 1) 1 :=
  .start h.free fun k hk => not_free.mpr (h.below k hk)

/-- No run of two bits and more ends before the first clear bit does. -/
theorem LowestFree.none (h : b.LowestFree p) (h2 : 2 ≤ cnt) :
    ∀ k, k + cnt ≤ p + 1 → ¬ IsRun b.Free k cnt :=
  fun k hk hrun => not_free.mpr (h.below k (by omega)) (hrun 0 (by omega))

/-- **What `bitmap_scan` returns for more than one bit**: the first run there is among the bits of
the bitmap and the one behind it. -/
theorem LowestFree.scan_run (h : b.LowestFree p) (hlen : 8 * b.bmapBytesLen < 2 ^ 32)
    (h2 : 2 ≤ cnt) :
    (∃ i, i + cnt ≤ 8 * b.bmapBytesLen + 1 ∧ IsRun b.Free i cnt ∧
      (∀ k < i, ¬ IsRun b.Free k cnt) ∧ b.bitmapScan cnt = .ok (int32 i)) ∨
    ((∀ k, k + cnt ≤ 8 * b.bmapBytesLen + 1 → ¬ IsRun b.Free k cnt) ∧
      b.bitmapScan cnt = .ok (-1)) := by
  have hinside := h.bit
  have hleft : (8 * b.bmapBytesLen + 2 ^ 32 - p % 2 ^ 32) % 2 ^ 32 = 8 * b.bmapBytesLen - p := by
    omega
  have hend : p + 1 + (8 * b.bmapBytesLen - p) = 8 * b.bmapBytesLen + 1 := by omega
  rw [h.scan, if_neg (by omega), hleft]
  rcases scanRun_segment 0 (8 * b.bmapBytesLen - p) (p + 1) 1 (by omega)
      h.streak (by omega) (h.none h2) with
    ⟨i, hi, hrun, hfirst, heq⟩ | ⟨hnone, count, heq⟩
  · exact .inl ⟨i, hend ▸ hi, hrun, hfirst, congrArg _ heq⟩
  · exact .inr ⟨hend ▸ hnone, congrArg _ heq⟩

/-! ### What is returned is free -/

variable (b) in
/-- A run that ends with the bit behind the bitmap is what the scan comes to first. -/
def Overruns (cnt : Nat) : Prop :=
  2 ≤ cnt ∧ 8 * b.bmapBytesLen < 2 ^ 32 ∧ ¬ b.HasRun cnt ∧
    ∃ i < 2 ^ 31, i + cnt = 8 * b.bmapBytesLen + 1 ∧ IsRun b.Free i cnt

variable (b) in
/-- The number of the only bit that is asked for overflows and looks like that of another one. -/
def Wraps (cnt : Nat) : Prop :=
  cnt = 1 ∧ ∃ p, b.LowestFree p ∧ 2 ^ 32 ≤ p ∧ p % 2 ^ 32 < 2 ^ 31

variable (b) in
/-- Whatever the scan returns are `cnt` free bits of the bitmap. -/
def ScanGrants (cnt : Nat) : Prop :=
  ∀ i : Int, b.bitmapScan cnt = .ok i → 0 ≤ i →
    i.toNat + cnt ≤ 8 * b.bmapBytesLen ∧ IsRun b.Free i.toNat cnt

theorem LowestFree.scanGrants_one_iff (h : b.LowestFree p) : b.ScanGrants 1 ↔ ¬ b.Wraps 1 := by
  have hscan : b.bitmapScan 1 = .ok (int32 p) := by rw [h.scan, if_pos rfl]
  have hbit := h.bit
  constructor
  · rintro hg ⟨-, q, hq, hbig, hsmall⟩
    obtain rfl := hq.unique h
    obtain ⟨-, hrun⟩ := hg _ hscan (int32_nonneg.mpr ⟨hsmall, by rw [int32, if_pos hsmall]⟩)
    rw [int32, if_pos hsmall, Int.toNat_natCast, IsRun.one] at hrun
    exact not_free.mpr (h.below _ (by omega)) hrun
  · intro hw i hi hnonneg
    obtain rfl := Except.ok.inj (hscan.symm.trans hi)
    obtain ⟨hsmall, heq⟩ := int32_nonneg.mp hnonneg
    have hlow : p < 2 ^ 32 := by
      by_contra hc
      exact hw ⟨rfl, p, h, by omega, hsmall⟩
    rw [heq, Int.toNat_natCast, Nat.mod_eq_of_lt hlow, IsRun.one]
    exact ⟨by omega, h.free⟩

/-- A bitmap with as many bits as there are numbers or more: no run is left inside. -/
theorem LowestFree.scanGrants_huge (h : b.LowestFree p) (hlen : 2 ^ 32 ≤ 8 * b.bmapBytesLen)
    (h2 : 2 ≤ cnt) : b.ScanGrants cnt := by
  have hbit := h.bit
  have hocc : ∀ k < p, ¬ b.Free k := fun k hk => not_free.mpr (h.below k hk)
  have hnot : ¬ cnt = 1 := by omega
  -- a run that ends below `2 ^ 32`
  have hin : ∀ i last, i + cnt ≤ last → last ≤ 2 ^ 32 → IsRun b.Free i cnt → 0 ≤ int32 i →
      (int32 i).toNat + cnt ≤ 8 * b.bmapBytesLen ∧ IsRun b.Free (int32 i).toNat cnt := by
    intro i last hi hlast hrun hnonneg
    obtain ⟨-, heq⟩ := int32_nonneg.mp hnonneg
    rw [heq, Int.toNat_natCast, Nat.mod_eq_of_lt (by omega)]
    exact ⟨by omega, hrun⟩
  intro r hr hnonneg
  rw [h.scan, if_neg hnot] at hr
  obtain rfl := Except.ok.inj hr
  by_cases hp : 2 ^ 32 ≤ p
  · rw [scanRun_occupied (by omega) _ _ _ fun k _ => hocc _ (by omega)] at hnonneg
    cases hnonneg
  set last := 8 * b.bmapBytesLen % 2 ^ 32
  by_cases hle : p ≤ last
  · have hleft : (8 * b.bmapBytesLen + 2 ^ 32 - p % 2 ^ 32) % 2 ^ 32 = last - p := by omega
    rw [hleft] at hnonneg ⊢
    rcases scanRun_segment 0 (last - p) (p + 1) 1 (by omega) h.streak (by omega) (h.none h2) with
      ⟨i, hi, hrun, -, heq⟩ | ⟨-, count, heq⟩
    · rw [Nat.add_zero] at heq
      rw [heq] at hnonneg ⊢
      exact hin i _ hi (by omega) hrun hnonneg
    · rw [Nat.add_zero] at heq
      rw [heq] at hnonneg
      cases hnonneg
  · -- the numbers come round, to bits below the first free one
    have hleft : (8 * b.bmapBytesLen + 2 ^ 32 - p % 2 ^ 32) % 2 ^ 32
        = 2 ^ 32 - (p + 1) + (last + 1) := by omega
    rw [hleft] at hnonneg ⊢
    rcases scanRun_segment (last + 1) (2 ^ 32 - (p + 1)) (p + 1) 1 (by omega) h.streak (by omega)
        (h.none h2) with ⟨i, hi, hrun, -, heq⟩ | ⟨-, count, heq⟩
    · rw [heq] at hnonneg ⊢
      exact hin i _ hi (by omega) hrun hnonneg
    · rw [heq, scanRun_occupied (by omega) _ _ _ fun k _ => hocc _ (by omega)] at hnonneg
      cases hnonneg

theorem LowestFree.scanGrants_iff (h : b.LowestFree p) (hlen : 8 * b.bmapBytesLen < 2 ^ 32)
    (h2 : 2 ≤ cnt) : b.ScanGrants cnt ↔ ¬ b.Overruns cnt := by
  rcases h.scan_run hlen h2 with ⟨i, hi, hrun, hfirst, hscan⟩ | ⟨hnone, hscan⟩
  · constructor
    · rintro hg ⟨-, -, hno, j, hj, hend, hrunj⟩
      have hji : i = j := by
        rcases Nat.lt_trichotomy i j with hlt | heq | hlt
        · exact absurd ⟨i, by omega, hrun⟩ hno
        · exact heq
        · exact absurd hrunj (hfirst j hlt)
      have hint := int32_of_lt hj
      obtain ⟨hle, -⟩ := hg _ hscan (by rw [hji, hint]; omega)
      rw [hji, hint, Int.toNat_natCast] at hle
      omega
    · intro hno r hr hnonneg
      obtain rfl := Except.ok.inj (hscan.symm.trans hr)
      obtain ⟨hsmall, heq⟩ := int32_nonneg.mp hnonneg
      rw [Nat.mod_eq_of_lt (by omega)] at hsmall heq
      rw [heq, Int.toNat_natCast]
      refine ⟨?_, hrun⟩
      by_contra hc
      refine hno ⟨h2, hlen, ?_, i, hsmall, by omega, hrun⟩
      rintro ⟨k, hk, hrunk⟩
      exact hfirst k (by omega) hrunk
  · refine ⟨?_, fun _ r hr hnonneg => ?_⟩
    · rintro - ⟨-, -, -, j, -, hend, hrunj⟩
      exact hnone j hend.le hrunj
    · rw [← Except.ok.inj (hscan.symm.trans hr)] at hnonneg
      cases hnonneg

/-- **When `bitmap_scan` keeps to the free bits of the bitmap.** -/
theorem scan_grants_iff (b : Bitmap) (cnt : UInt32) (hcnt : 1 ≤ cnt.toNat) :
    (∀ i : Int, b.bitmapScan cnt.toNat = .ok i → 0 ≤ i →
      i.toNat + cnt.toNat ≤ 8 * b.bmapBytesLen ∧
        ∀ j < cnt.toNat, b.bitmapScanTest (i.toNat + j) = false) ↔
    ¬ b.Overruns cnt.toNat ∧ ¬ b.Wraps cnt.toNat := by
  show b.ScanGrants cnt.toNat ↔ _
  rcases b.full_or_lowestFree with hfull | ⟨p, hp⟩
  · refine ⟨fun _ => ⟨?_, ?_⟩, fun _ i hi => ?_⟩
    · rintro ⟨h2, -, -, i, -, hend, hrun⟩
      exact not_free.mpr (hfull i (by omega)) (hrun 0 (by omega))
    · rintro ⟨-, p, hp, -⟩
      exact hp.not_full hfull
    · rw [hfull.scan] at hi
      cases hi
  by_cases hone : cnt.toNat = 1
  · rw [hone, hp.scanGrants_one_iff]
    exact ⟨fun hw => ⟨fun ho => absurd ho.1 (by decide), hw⟩, fun h => h.2⟩
  have h2 : 2 ≤ cnt.toNat := by omega
  have hwraps : ¬ b.Wraps cnt.toNat := fun hw => hone hw.1
  by_cases hlen : 8 * b.bmapBytesLen < 2 ^ 32
  · rw [hp.scanGrants_iff hlen h2]
    exact ⟨fun ho => ⟨ho, hwraps⟩, fun h => h.1⟩
  · exact ⟨fun _ => ⟨fun ho => hlen ho.2.1, hwraps⟩,
      fun _ => hp.scanGrants_huge (by omega) h2⟩

/-- Seven used bits, and the next byte of the memory has its first bit clear. -/
def endsFree : Bitmap := ⟨1, fun i => if i = 0 then 0x7f else 0⟩

/-- The run that is returned ends outside. -/
theorem scan_grants_endsFree : endsFree.bitmapScan 2 = .ok 7 ∧
    ¬ (7 + 2 ≤ 8 * endsFree.bmapBytesLen) := by
  decide

/-- Two bits in the middle of a byte. -/
theorem scan_grants_middle : (⟨1, fun _ => 0xc3⟩ : Bitmap).bitmapScan 2 = .ok 2 ∧
    ∀ i : Int, (⟨1, fun _ => 0xc3⟩ : Bitmap).bitmapScan 2 = .ok i → 0 ≤ i →
      i.toNat + 2 ≤ 8 ∧
        ∀ j < 2, (⟨1, fun _ => 0xc3⟩ : Bitmap).bitmapScanTest (i.toNat + j) = false := by
  refine ⟨by decide, (scan_grants_iff ⟨1, fun _ => 0xc3⟩ 2 (by decide)).mpr
    ⟨fun ho => ?_, fun hw => ?_⟩⟩
  · exact ho.2.2.1 ⟨2, by decide, by decide⟩
  · exact absurd hw.1 (by decide)

/-! ### The first run that fits -/

/-- The run of `cnt` free bits of the bitmap that begins first. -/
structure FirstRun (b : Bitmap) (cnt i : Nat) : Prop where
  inside : i + cnt ≤ 8 * b.bmapBytesLen
  run : IsRun b.Free i cnt
  first : ∀ k < i, ¬ IsRun b.Free k cnt

theorem HasRun.exists_first (h : b.HasRun cnt) : ∃ i, b.FirstRun cnt i := by
  obtain ⟨i, hi, hrun, hfirst⟩ := IsRun.exists_first h
  exact ⟨i, hi, hrun, hfirst⟩

theorem FirstRun.hasRun {i : Nat} (h : b.FirstRun cnt i) : b.HasRun cnt := ⟨i, h.inside, h.run⟩

/-- The scan returns it. -/
theorem FirstRun.scan {i : Nat} (h : b.FirstRun cnt i) (hlen : 8 * b.bmapBytesLen < 2 ^ 31)
    (hcnt : 1 ≤ cnt) : b.bitmapScan cnt = .ok i := by
  have hinside := h.inside
  rcases b.full_or_lowestFree with hfull | ⟨p, hp⟩
  · exact absurd h.hasRun (hfull.not_hasRun hcnt)
  by_cases hone : cnt = 1
  · subst hone
    have hbit := hp.bit
    have hpi : p = i := by
      rcases Nat.lt_trichotomy p i with hlt | heq | hlt
      · exact absurd (IsRun.one.mpr hp.free) (h.first p hlt)
      · exact heq
      · exact absurd (IsRun.one.mp h.run) (not_free.mpr (hp.below i hlt))
    rw [hp.scan, if_pos rfl, hpi, int32_of_lt (by omega)]
  have h2 : 2 ≤ cnt := by omega
  rcases hp.scan_run (by omega) h2 with ⟨j, hj, hrun, hfirst, hscan⟩ | ⟨hnone, -⟩
  · have hji : j = i := by
      rcases Nat.lt_trichotomy j i with hlt | heq | hlt
      · exact absurd hrun (h.first j hlt)
      · exact heq
      · exact absurd h.run (hfirst i hlt)
    rw [hscan, hji, int32_of_lt (by omega)]
  · exact absurd h.run (hnone i (by omega))

/-- **`bitmap_scan` is complete and first-fit.** -/
theorem scan_first_fit (b : Bitmap) (hlen : 8 * b.bmapBytesLen < 2 ^ 31) (cnt : UInt32)
    (hcnt : 1 ≤ cnt.toNat)
    (h : ∃ i, i + cnt.toNat ≤ 8 * b.bmapBytesLen ∧
      ∀ j < cnt.toNat, b.bitmapScanTest (i + j) = false) :
    ∃ i : Nat, b.bitmapScan cnt.toNat = .ok i ∧ i + cnt.toNat ≤ 8 * b.bmapBytesLen ∧
      (∀ j < cnt.toNat, b.bitmapScanTest (i + j) = false) ∧
      ∀ k < i, ¬ ∀ j < cnt.toNat, b.bitmapScanTest (k + j) = false := by
  obtain ⟨i, hfirst⟩ := HasRun.exists_first h
  exact ⟨i, hfirst.scan hlen hcnt, hfirst.inside, hfirst.run, hfirst.first⟩

/-- A run from the middle of the first byte to the last bit. -/
theorem scan_first_fit_end : ∃ i : Nat,
    (⟨2, fun i => if i = 0 then 0x1d else 0⟩ : Bitmap).bitmapScan 11
    = .ok i ∧ i + 11 ≤ 16 := by
  obtain ⟨i, hscan, hend, -⟩ := scan_first_fit ⟨2, fun i => if i = 0 then 0x1d else 0⟩ (by decide)
    11 (by decide) ⟨5, by decide, by decide⟩
  exact ⟨i, hscan, hend⟩

end Bitmap

/-! ### Free bits -/

/-- At least `k` bits are free. -/
def Room (b : Bitmap) (k : Nat) : Prop :=
  ∃ free : Finset Nat, k ≤ free.card ∧
    ∀ n ∈ free, n < 8 * b.bmapBytesLen ∧ b.bitmapScanTest n = false

section Room

variable {b : Bitmap} {k m : Nat}

theorem Room.exists (h : Room b (k + 1)) :
    ∃ n < 8 * b.bmapBytesLen, b.bitmapScanTest n = false := by
  obtain ⟨free, hcard, hfree⟩ := h
  obtain ⟨n, hn⟩ := Finset.card_pos.mp (Nat.lt_of_lt_of_le (Nat.succ_pos k) hcard)
  exact ⟨n, hfree n hn⟩

theorem Room.set (h : Room b (k + 1)) (n : Nat) : Room (b.bitmapSet n true) k := by
  obtain ⟨free, hcard, hfree⟩ := h
  refine ⟨free.erase n, ?_, fun m hm => ?_⟩
  · have := Finset.pred_card_le_card_erase (s := free) (a := n)
    omega
  · obtain ⟨hne, hmem⟩ := Finset.mem_erase.mp hm
    refine ⟨(hfree m hmem).1, ?_⟩
    rw [Bitmap.scanTest_set, if_neg hne]
    exact (hfree m hmem).2

/-- A free bit and what is free besides. -/
theorem Room.of_set (hm : m < 8 * b.bmapBytesLen) (hclear : b.bitmapScanTest m = false)
    (h : Room (b.bitmapSet m true) k) : Room b (k + 1) := by
  obtain ⟨free, hcard, hfree⟩ := h
  have hother : ∀ i ∈ free, i ≠ m ∧ b.bitmapScanTest i = false := by
    intro i hi
    have htest := (hfree i hi).2
    rw [Bitmap.scanTest_set] at htest
    by_cases him : i = m
    · rw [if_pos him] at htest
      cases htest
    · rw [if_neg him] at htest
      exact ⟨him, htest⟩
  refine ⟨insert m free, ?_, fun i hi => ?_⟩
  · rw [Finset.card_insert_of_notMem fun hm => (hother m hm).1 rfl]
    omega
  · rcases Finset.mem_insert.mp hi with rfl | hi
    · exact ⟨hm, hclear⟩
    · exact ⟨(hfree i hi).1, (hother i hi).2⟩

theorem Bitmap.LowestFree.room (h : b.LowestFree m) (hrest : Room (b.bitmapSet m true) k) :
    Room b (k + 1) :=
  .of_set h.bit h.free hrest

theorem room_zero (b : Bitmap) : Room b 0 := ⟨∅, le_rfl, fun i hi => absurd hi (by simp)⟩

theorem Room.mono (h : Room b k) (hle : m ≤ k) : Room b m :=
  h.imp fun _ hfree => ⟨hle.trans hfree.1, hfree.2⟩

theorem Bitmap.Full.not_room (h : b.Full) : ¬ Room b (k + 1) := by
  intro hroom
  obtain ⟨n, hn, hclear⟩ := hroom.exists
  rw [h n hn] at hclear
  cases hclear

theorem Room.exists_lowestFree (h : Room b 1) : ∃ m, b.LowestFree m :=
  b.full_or_lowestFree.resolve_left fun hfull => hfull.not_room h

end Room

end ZyOs
