/-
Virtual addresses: `vaddr_get` and `vaddr_remove`, for any number of pages.

What `bitmap_scan` returns for more than one bit is a run of clear bits, of which the last
may be the bit behind the bitmap.  `vaddr_get` sets the bits of the run it was given and
`vaddr_remove` clears those of the pages it is given, so a set of pages that is marked stays
apart from what is handed out next.
-/
import ZyOs.Proofs.BitmapScan
import ZyOs.Kernel.Arena

namespace ZyOs

open Library

namespace Bitmap

variable {b : Bitmap}

/-- `bitmap_scan` returns the start of a run of clear bits. -/
theorem scan_clear (hlen : 8 * b.bmapBytesLen < 2 ^ 31) {cnt : Nat} (hcnt : 0 < cnt) {r : Int}
    (h : b.bitmapScan cnt = .ok r) (hne : r ≠ -1) :
    ∃ n : Nat, r = n ∧ n + cnt ≤ 8 * b.bmapBytesLen + 1 ∧
      ∀ i < cnt, b.bitmapScanTest (n + i) = false := by
  rcases b.full_or_lowestFree with hfull | ⟨p, hp⟩
  · rw [hfull.scan] at h
    cases h
  by_cases hone : cnt = 1
  · subst hone
    have hbit := hp.bit
    rw [hp.scan, if_pos rfl, int32_of_lt (by omega)] at h
    refine ⟨p, (Except.ok.inj h).symm, by omega, fun i hi => ?_⟩
    rw [show p + i = p by omega]
    exact hp.free
  · rcases hp.scan_run (by omega) (show 2 ≤ cnt by omega) with
      ⟨n, hn, hrun, -, hscan⟩ | ⟨-, hscan⟩
    · refine ⟨n, ?_, hn, hrun⟩
      rw [← int32_of_lt (show n < 2 ^ 31 by omega)]
      exact (Except.ok.inj (hscan.symm.trans h)).symm
    · exact absurd (Except.ok.inj (hscan.symm.trans h)).symm hne

/-! ### Runs of bits -/

/-- The loop that sets or clears `n` bits. -/
theorem scanTest_setRun (v : Bool) (start n : Nat) (b : Bitmap) (j : Nat) :
    ((List.range n).foldl (fun b i => b.bitmapSet (start + i) v) b).bitmapScanTest j
      = if start ≤ j ∧ j < start + n then v else b.bitmapScanTest j := by
  induction n with
  | zero => simp
  | succ n ih =>
      rw [List.range_succ, List.foldl_append, List.foldl_cons, List.foldl_nil, scanTest_set, ih]
      by_cases hj : j = start + n
      · rw [if_pos hj, if_pos (by omega)]
      · rw [if_neg hj]
        by_cases hin : start ≤ j ∧ j < start + n
        · rw [if_pos hin, if_pos (by omega)]
        · rw [if_neg hin, if_neg (by omega)]

theorem bmapBytesLen_setRun (v : Bool) (start n : Nat) (b : Bitmap) :
    ((List.range n).foldl (fun b i => b.bitmapSet (start + i) v) b).bmapBytesLen
      = b.bmapBytesLen := by
  induction n with
  | zero => rfl
  | succ n ih => rw [List.range_succ, List.foldl_append, List.foldl_cons, List.foldl_nil,
      bmapBytesLen_set, ih]

end Bitmap

/-! ### Pages of a heap -/

/-- The addresses of the pages, with the one behind the bitmap, are 32-bit ones. -/
structure VirtualAddr.Fits (v : VirtualAddr) : Prop where
  start : 0 < v.vaddrStart
  aligned : v.vaddrStart % 4096 = 0
  top : v.vaddrStart + 4096 * (8 * v.vaddrBitmap.bmapBytesLen + 1) ≤ 2 ^ 32

/-- `n` pages from `p` on, which were free, are taken. -/
structure TakesPages (v v' : VirtualAddr) (p n : Nat) : Prop where
  start : v'.vaddrStart = v.vaddrStart
  len : v'.vaddrBitmap.bmapBytesLen = v.vaddrBitmap.bmapBytesLen
  aligned : p % 4096 = 0
  low : v.vaddrStart ≤ p
  top : p + 4096 * n ≤ 2 ^ 32
  free : ∀ q, p ≤ q → q < p + 4096 * n → ¬ v.Marked q
  marked : ∀ q, v'.Marked q ↔ v.Marked q ∨ q % 4096 = 0 ∧ p ≤ q ∧ q < p + 4096 * n

variable {v v' : VirtualAddr} {pf : PoolFlag} {n p : Nat}

theorem VirtualAddr.Fits.congr (hv : v.Fits) (hstart : v'.vaddrStart = v.vaddrStart)
    (hlen : v'.vaddrBitmap.bmapBytesLen = v.vaddrBitmap.bmapBytesLen) : v'.Fits :=
  ⟨hstart ▸ hv.start, hstart ▸ hv.aligned, by rw [hstart, hlen]; exact hv.top⟩

/-- `n` bits from `idx` on are set or cleared. -/
def VirtualAddr.withRun (v : VirtualAddr) (idx n : Nat) (b : Bool) : VirtualAddr :=
  ⟨(List.range n).foldl (fun m i => m.bitmapSet (idx + i) b) v.vaddrBitmap, v.vaddrStart⟩

theorem marked_withRun (hv : v.Fits) (hp : p % 4096 = 0) (hlow : v.vaddrStart ≤ p) (b : Bool)
    (q : Nat) :
    (v.withRun ((p - v.vaddrStart) / 4096) n b).Marked q ↔
      q % 4096 = 0 ∧ v.vaddrStart ≤ q ∧ q < 2 ^ 32 ∧
        if p ≤ q ∧ q < p + 4096 * n then b = true
        else v.vaddrBitmap.bitmapScanTest ((q - v.vaddrStart) / 4096) = true := by
  have haligned := hv.aligned
  unfold VirtualAddr.Marked VirtualAddr.withRun
  refine and_congr_right fun hq => and_congr_right fun hlow' => and_congr_right fun _ => ?_
  have hlow'' : v.vaddrStart ≤ q := hlow'
  rw [Bitmap.scanTest_setRun]
  have hrange : (p - v.vaddrStart) / 4096 ≤ (q - v.vaddrStart) / 4096 ∧
      (q - v.vaddrStart) / 4096 < (p - v.vaddrStart) / 4096 + n ↔ p ≤ q ∧ q < p + 4096 * n := by
    omega
  by_cases hin : p ≤ q ∧ q < p + 4096 * n
  · rw [if_pos hin, if_pos (hrange.mpr hin)]
  · rw [if_neg hin, if_neg (mt hrange.mp hin)]

/-- `vaddr_get`: nothing changes, or a run of clear bits is set. -/
theorem vaddrGet_cases {r : Option Nat} (hv : v.Fits) (hn : 0 < n)
    (h : vaddrGet v pf n = .ok (v', r)) :
    (r = none ∧ v' = v) ∨ ∃ idx, r = some (v.vaddrStart + 4096 * idx) ∧
      v' = v.withRun idx n true ∧ idx + n ≤ 8 * v.vaddrBitmap.bmapBytesLen + 1 ∧
        ∀ i < n, v.vaddrBitmap.bitmapScanTest (idx + i) = false := by
  have hstart := hv.start
  have htop := hv.top
  unfold vaddrGet at h
  obtain ⟨bitIdx, hscan, h⟩ := bind_eq_ok.mp h
  by_cases hnone : bitIdx = -1
  · rw [if_pos hnone] at h
    have hpair := Prod.mk.inj (Except.ok.inj h)
    exact .inl ⟨hpair.2.symm, hpair.1.symm⟩
  rw [if_neg hnone] at h
  obtain ⟨idx, rfl, hle, hclear⟩ := Bitmap.scan_clear (by omega) hn hscan hnone
  have haddr : (v.vaddrStart + idx * pageSize) % 2 ^ 32 = v.vaddrStart + 4096 * idx := by
    rw [show pageSize = 4096 from rfl]
    omega
  simp only [Int.toNat_natCast, haddr] at h
  suffices hres : v' = v.withRun idx n true ∧ r = some (v.vaddrStart + 4096 * idx) from
    .inr ⟨idx, hres.2, hres.1, hle, hclear⟩
  by_cases hpf : pf = .user
  · rw [if_pos hpf] at h
    obtain ⟨u, -, h⟩ := bind_eq_ok.mp h
    rw [if_neg (by omega)] at h
    have hpair := Prod.mk.inj (Except.ok.inj h)
    exact ⟨hpair.1.symm, hpair.2.symm⟩
  · rw [if_neg hpf, if_neg (by omega)] at h
    have hpair := Prod.mk.inj (Except.ok.inj h)
    exact ⟨hpair.1.symm, hpair.2.symm⟩

/-- What `vaddr_get` takes ends with the page behind the bitmap. -/
theorem vaddrGet_top (hv : v.Fits) (hn : 0 < n) (h : vaddrGet v pf n = .ok (v', some p)) :
    p + 4096 * n ≤ v.vaddrStart + 4096 * (8 * v.vaddrBitmap.bmapBytesLen + 1) := by
  rcases vaddrGet_cases hv hn h with ⟨hnone, -⟩ | ⟨idx, hp, -, hle, -⟩
  · cases hnone
  · have hp := Option.some.inj hp
    omega

/-- `vaddr_get`: nothing changes, or it takes pages that were free. -/
theorem vaddrGet_ok {r : Option Nat} (hv : v.Fits) (hn : 0 < n)
    (h : vaddrGet v pf n = .ok (v', r)) :
    (r = none ∧ v' = v) ∨ ∃ p, r = some p ∧ TakesPages v v' p n := by
  have haligned := hv.aligned
  have htop := hv.top
  refine (vaddrGet_cases hv hn h).imp_right ?_
  rintro ⟨idx, rfl, rfl, hle, hclear⟩
  have hidx : (v.vaddrStart + 4096 * idx - v.vaddrStart) / 4096 = idx := by omega
  have hset := fun q => marked_withRun (n := n) hv (p := v.vaddrStart + 4096 * idx)
    (by omega) (by omega) true q
  rw [hidx] at hset
  refine ⟨_, rfl, rfl, Bitmap.bmapBytesLen_setRun _ _ _ _, by omega, by omega, by omega,
    fun q hq hq' hm => ?_, fun q => ?_⟩
  · obtain ⟨hq0, hlow, -, hbit⟩ := hm
    have hfalse := hclear ((q - v.vaddrStart) / 4096 - idx) (by omega)
    rw [show idx + ((q - v.vaddrStart) / 4096 - idx) = (q - v.vaddrStart) / 4096 by omega,
      hbit] at hfalse
    cases hfalse
  · rw [hset]
    unfold VirtualAddr.Marked
    by_cases hin : v.vaddrStart + 4096 * idx ≤ q ∧ q < v.vaddrStart + 4096 * idx + 4096 * n
    · rw [if_pos hin]
      exact ⟨fun h => .inr ⟨h.1, hin⟩, fun h => by
        have hq : q % 4096 = 0 := by rcases h with h | h <;> exact h.1
        exact ⟨hq, by omega, by omega, rfl⟩⟩
    · rw [if_neg hin]
      exact ⟨.inl, fun h => h.resolve_right fun hc => hin hc.2⟩

/-- `vaddr_remove` -/
theorem marked_remove (hv : v.Fits) (hp : p % 4096 = 0) (hlow : v.vaddrStart ≤ p)
    (htop : p < 2 ^ 32) (q : Nat) :
    (vaddrRemove v p n).Marked q ↔ v.Marked q ∧ ¬ (p ≤ q ∧ q < p + 4096 * n) := by
  have hsub : sub32 p v.vaddrStart / pageSize = (p - v.vaddrStart) / 4096 := by
    rw [sub32, show pageSize = 4096 from rfl,
      show (p + 2 ^ 32 - v.vaddrStart) % 2 ^ 32 = p - v.vaddrStart by omega]
  rw [show vaddrRemove v p n = v.withRun (sub32 p v.vaddrStart / pageSize) n false from rfl, hsub,
    marked_withRun hv hp hlow]
  unfold VirtualAddr.Marked
  by_cases hin : p ≤ q ∧ q < p + 4096 * n
  · rw [if_pos hin]
    exact ⟨fun h => absurd h.2.2.2 Bool.false_ne_true, fun h => absurd hin h.2⟩
  · rw [if_neg hin]
    exact ⟨fun h => ⟨h, hin⟩, fun h => h.1⟩

theorem fits_remove (hv : v.Fits) : (vaddrRemove v p n).Fits :=
  hv.congr rfl (Bitmap.bmapBytesLen_setRun _ _ _ _)

/-! ### When there are no pages -/

/-- The pages ran out: an `ASSERT` of `malloc_page`, `vaddr_get` or `bitmap_scan`. -/
def Halt.PagesShort : Halt → Prop
  | .panic func _ => func = "malloc_page" ∨ func = "vaddr_get" ∨ func = "bitmap_scan"
  | .fault _ => False
  | .hang _ => False

theorem ASSERT_eq_error {c : Prop} [Decidable c] {func condition : String} {e : Halt}
    (h : ASSERT c func condition = .error e) : ¬ c ∧ e = .panic func condition := by
  by_cases hc : c
  · rw [ASSERT_pos hc] at h
    cases h
  · rw [ASSERT_neg hc] at h
    exact ⟨hc, (Except.error.inj h).symm⟩

theorem bitmapScan_short {b : Bitmap} {e : Halt} (h : b.bitmapScan n = .error e) :
    e.PagesShort := by
  unfold Bitmap.bitmapScan at h
  rcases bind_eq_error.mp h with hassert | ⟨u, -, h⟩
  · rw [(ASSERT_eq_error hassert).2]
    exact .inr (.inr rfl)
  · split_ifs at h <;> cases h

theorem vaddrGet_short {e : Halt} (h : vaddrGet v pf n = .error e) : e.PagesShort := by
  unfold vaddrGet at h
  rcases bind_eq_error.mp h with hscan | ⟨bitIdx, -, h⟩
  · exact bitmapScan_short hscan
  · split_ifs at h
    · cases h
    · rcases bind_eq_error.mp h with hassert | ⟨u, -, h⟩
      · rw [(ASSERT_eq_error hassert).2]
        exact .inr (.inl rfl)
      · cases h
    · cases h

end ZyOs
