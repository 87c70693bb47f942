/-
When there is nothing left to allocate.

Every allocator asks `bitmap_scan` and is prepared for -1.  It never gets one for a single bit:
on a full bitmap the `ASSERT` in front of the -1 stops the kernel, and the loop has read the byte
behind the bitmap by then.  For more bits than there are in a row the -1 does come, after the bit
behind the bitmap has been tested.
-/
import ZyOs.Kernel.BitmapReads
import ZyOs.Kernel.PageAlloc
import ZyOs.Proofs.Vaddr

namespace ZyOs

open Library

namespace Bitmap

variable {b : Bitmap} {cnt p i : Nat}

/-! ### Reads -/

theorem skipFullReads_le : ∀ (fuel i : Nat), ∀ k ∈ b.skipFullReads fuel i,
    k ≤ b.skipFull fuel i := by
  intro fuel
  induction fuel with
  | zero =>
      intro i k hk
      rw [skipFullReads, List.mem_singleton] at hk
      exact hk.le
  | succ fuel ih =>
      intro i k hk
      have hle : ∀ fuel j, j ≤ b.skipFull fuel j := by
        intro fuel
        induction fuel with
        | zero => exact fun j => le_refl j
        | succ fuel ih =>
            intro j
            rw [skipFull]
            split_ifs
            · exact (Nat.le_succ j).trans (ih (j + 1))
            · exact le_refl j
      rw [skipFullReads, List.mem_cons] at hk
      rw [skipFull]
      by_cases h : b.bits i = 0xff ∧ i < b.bmapBytesLen
      · rw [if_pos h] at hk ⊢
        rcases hk with rfl | hk
        · exact (Nat.le_succ k).trans (hle fuel _)
        · exact ih (i + 1) k hk
      · rw [if_neg h] at hk ⊢
        rcases hk with rfl | hk
        · exact le_refl k
        · cases hk

/-- On the way to a run nothing is read behind it. -/
theorem scanRunReads_le (hrun : IsRun b.Free i cnt) (hend : i + cnt ≤ 2 ^ 32) :
    ∀ (left next count : Nat), next < i + cnt → Streak b.Free next count → count < cnt →
      ∀ k ∈ b.scanRunReads cnt left next count, k ≤ (i + cnt - 1) / 8 := by
  intro left
  induction left with
  | zero =>
      intro next count _ _ _ k hk
      cases hk
  | succ left ih =>
      intro next count hnext hstreak hlt k hk
      rw [scanRunReads, List.mem_cons] at hk
      rcases hk with rfl | hk
      · exact Nat.div_le_div_right (by omega)
      by_cases hlast : next + 1 = i + cnt
      · -- the run ends here
        have hfree : b.Free next := hrun.mem (by omega) (by omega)
        have hgrow := hstreak.grow hfree
        have hlong := (hgrow.isRun_iff hlast.symm).mp hrun
        have hfull : count + 1 = cnt := by omega
        rw [Free] at hfree
        simp only [hfree, Bool.false_eq_true, if_false, hfull, if_true] at hk
        cases hk
      · rw [Nat.mod_eq_of_lt (show next + 1 < 2 ^ 32 by omega)] at hk
        by_cases htest : b.bitmapScanTest next = true
        · simp only [htest, if_true] at hk
          rw [if_neg (by omega)] at hk
          exact ih (next + 1) 0 (by omega) (.stop (not_free.mpr htest)) (by omega) k hk
        · have hfree : b.Free next := by simpa [Free] using htest
          rw [if_neg htest] at hk
          by_cases hfull : count + 1 = cnt
          · rw [if_pos hfull] at hk
            cases hk
          · rw [if_neg hfull] at hk
            exact ih (next + 1) (count + 1) (by omega) (hstreak.grow hfree) (by omega) k hk

/-- Without a run the loop goes on to the end. -/
theorem scanRunReads_last : ∀ (left next count : Nat), 0 < left → next + left ≤ 2 ^ 32 →
    Streak b.Free next count → count < cnt →
    (∀ k, k + cnt < next + left → ¬ IsRun b.Free k cnt) →
    (next + left - 1) / 8 ∈ b.scanRunReads cnt left next count := by
  intro left
  induction left with
  | zero => exact fun _ _ h => absurd h (lt_irrefl 0)
  | succ left ih =>
      intro next count _ hle hstreak hlt hnone
      rw [scanRunReads, List.mem_cons]
      by_cases hlast : left = 0
      · subst hlast
        exact .inl rfl
      refine .inr ?_
      rw [Nat.mod_eq_of_lt (show next + 1 < 2 ^ 32 by omega),
        show next + (left + 1) - 1 = next + 1 + left - 1 by omega]
      by_cases htest : b.bitmapScanTest next = true
      · simp only [htest, if_true]
        rw [if_neg (by omega)]
        exact ih (next + 1) 0 (by omega) (by omega) (.stop (not_free.mpr htest)) (by omega)
          fun k hk => hnone k (by omega)
      · have hfree : b.Free next := by simpa [Free] using htest
        have hgrow := hstreak.grow hfree
        have hcount := hstreak.le
        have hshort : ¬ count + 1 = cnt := by
          intro hfull
          refine hnone (next + 1 - cnt) (by omega) ((hgrow.isRun_iff (by omega)).mpr hfull.ge)
        rw [if_neg htest, if_neg hshort]
        exact ih (next + 1) (count + 1) (by omega) (by omega) hgrow (by omega)
          fun k hk => hnone k (by omega)

theorem LowestFree.reads (h : b.LowestFree p) (cnt : Nat) : b.bitmapScanReads cnt
    = b.skipFullReads b.bmapBytesLen 0 ++ p / 8 :: if cnt = 1 then [] else
      b.scanRunReads cnt ((8 * b.bmapBytesLen + 2 ^ 32 - p % 2 ^ 32) % 2 ^ 32)
        ((p + 1) % 2 ^ 32) 1 := by
  obtain ⟨hbyte, hbit⟩ := h.found
  have hlt : p / 8 < b.bmapBytesLen := by
    have := h.bit
    omega
  have hsum : p / 8 * 8 + p % 8 = p := by omega
  unfold bitmapScanReads
  simp only [hbyte, hbit, hsum, if_pos hlt, Nat.mod_add_mod, Nat.mul_comm b.bmapBytesLen 8]

/-- The scan for one bit stays inside when there is one. -/
theorem LowestFree.reads_one (h : b.LowestFree p) :
    ∀ k ∈ b.bitmapScanReads 1, k < b.bmapBytesLen := by
  intro k hk
  have hbit := h.bit
  rw [h.reads, if_pos rfl, List.mem_append, List.mem_singleton] at hk
  rcases hk with hk | rfl
  · have := skipFullReads_le _ _ k hk
    rw [h.found.1] at this
    omega
  · omega

/-- So does the scan for a run. -/
theorem FirstRun.reads (h : b.FirstRun cnt i) (hlen : 8 * b.bmapBytesLen < 2 ^ 31)
    (hcnt : 1 ≤ cnt) :
    ∀ k ∈ b.bitmapScanReads cnt, k < b.bmapBytesLen := by
  have hinside := h.inside
  rcases b.full_or_lowestFree with hfull | ⟨p, hp⟩
  · exact absurd h.hasRun (hfull.not_hasRun hcnt)
  by_cases hone : cnt = 1
  · subst hone
    exact hp.reads_one
  intro k hk
  have hbit := hp.bit
  have hpi : p ≤ i := by
    by_contra hc
    exact not_free.mpr (hp.below i (by omega)) (h.run 0 (by omega))
  rw [hp.reads, if_neg hone, List.mem_append, List.mem_cons,
    Nat.mod_eq_of_lt (show p + 1 < 2 ^ 32 by omega)] at hk
  rcases hk with hk | rfl | hk
  · have := skipFullReads_le _ _ k hk
    rw [hp.found.1] at this
    omega
  · omega
  · have := scanRunReads_le h.run (by omega) _ _ _ (by omega) hp.streak (by omega) k hk
    omega

/-- Without a run the byte behind the bitmap is read. -/
theorem LowestFree.reads_past (h : b.LowestFree p) (hlen : 8 * b.bmapBytesLen < 2 ^ 31)
    (h2 : 2 ≤ cnt) (hno : ¬ b.HasRun cnt) : b.bmapBytesLen ∈ b.bitmapScanReads cnt := by
  have hbit := h.bit
  have hleft : (8 * b.bmapBytesLen + 2 ^ 32 - p % 2 ^ 32) % 2 ^ 32 = 8 * b.bmapBytesLen - p := by
    omega
  have hmem := scanRunReads_last (8 * b.bmapBytesLen - p) (p + 1) 1 (by omega) (by omega) h.streak
    (show 1 < cnt by omega) fun k hk hrun => hno ⟨k, by omega, hrun⟩
  rw [show (p + 1 + (8 * b.bmapBytesLen - p) - 1) / 8 = b.bmapBytesLen by omega] at hmem
  rw [h.reads, if_neg (by omega), hleft, Nat.mod_eq_of_lt (show p + 1 < 2 ^ 32 by omega)]
  exact List.mem_append_right _ (List.mem_cons_of_mem _ hmem)

end Bitmap

/-! ### The allocators -/

/-- An allocator that asks for `cnt` bits of `b`: without them it returns one of the results
`failed`, and in no case does an `ASSERT` fail or a byte behind the bitmap get read. -/
structure ReportsNone {α : Type} (b : Bitmap) (cnt : Nat) (x : Kernel α) (failed : α → Prop) :
    Prop where
  failed : ¬ b.HasRun cnt → ∃ a, x = .ok a ∧ failed a
  returns : ∃ a, x = .ok a
  inside : ∀ k ∈ b.bitmapScanReads cnt, k < b.bmapBytesLen

variable {α : Type} {b : Bitmap}

theorem hasRun_one_iff : b.HasRun 1 ↔ ¬ b.Full := by
  rcases b.full_or_lowestFree with hfull | ⟨p, hp⟩
  · exact ⟨fun h => absurd h (hfull.not_hasRun (le_refl 1)), fun h => absurd hfull h⟩
  · exact ⟨fun _ => hp.not_full, fun _ => ⟨p, hp.bit, IsRun.one.mpr hp.free⟩⟩

/-- What asks for a single bit and goes on with it. -/
theorem reports_one_iff {f : Int → Kernel α} {failed : α → Prop} (hf : ∀ i, ∃ a, f i = .ok a) :
    ReportsNone b 1 (b.bitmapScan 1 >>= f) failed ↔ ¬ b.Full := by
  rcases b.full_or_lowestFree with hfull | ⟨p, hp⟩
  · refine ⟨fun h => ?_, fun h => absurd hfull h⟩
    obtain ⟨a, ha⟩ := h.returns
    rw [hfull.scan] at ha
    cases ha
  · refine ⟨fun _ => hp.not_full, fun hfree => ⟨fun hno => ?_, ?_, hp.reads_one⟩⟩
    · exact absurd (hasRun_one_iff.mpr hfree) hno
    · rw [hp.scan, ok_bind]
      exact hf _

theorem palloc_reports_iff (pool : Pool) :
    ReportsNone pool.poolBitmap 1 (palloc pool) (· = (pool, none)) ↔ ¬ pool.poolBitmap.Full :=
  reports_one_iff fun i => by split_ifs <;> exact ⟨_, rfl⟩

theorem blockBitmapAlloc_reports_iff (part : Partition) :
    ReportsNone part.blockBitmap 1 part.blockBitmapAlloc (· = (-1, part)) ↔
      ¬ part.blockBitmap.Full :=
  reports_one_iff fun i => by split_ifs <;> exact ⟨_, rfl⟩

theorem inodeBitmapAlloc_reports_iff (part : Partition) :
    ReportsNone part.inodeBitmap 1 part.inodeBitmapAlloc (· = (-1, part)) ↔
      ¬ part.inodeBitmap.Full :=
  reports_one_iff fun i => by split_ifs <;> exact ⟨_, rfl⟩

/-- The addresses `vaddr_get` may return: for a process those in front of its stack. -/
def VirtualAddr.Allows (v : VirtualAddr) (pf : PoolFlag) (i : Nat) : Prop :=
  pf = .user → v.vaddrStart + 4096 * i < 0xc0000000 - 4096

theorem vaddrGet_reports_iff {v : VirtualAddr} (hv : v.Fits) (pf : PoolFlag) {n : Nat} (hn : 1 ≤ n) :
    ReportsNone v.vaddrBitmap n (vaddrGet v pf n) (· = (v, none)) ↔
      ∃ i, v.vaddrBitmap.FirstRun n i ∧ v.Allows pf i := by
  have hstart := hv.start
  have htop := hv.top
  have hlen : 8 * v.vaddrBitmap.bmapBytesLen < 2 ^ 31 := by omega
  by_cases hhas : v.vaddrBitmap.HasRun n
  · obtain ⟨i, hi⟩ := hhas.exists_first
    have hinside := hi.inside
    have haddr : (v.vaddrStart + i * pageSize) % 2 ^ 32 = v.vaddrStart + 4096 * i := by
      rw [show pageSize = 4096 from rfl]
      omega
    have hget : (∃ a, vaddrGet v pf n = .ok a) ↔ v.Allows pf i := by
      rw [vaddrGet, hi.scan hlen hn, ok_bind, if_neg (by omega)]
      simp only [Int.toNat_natCast, haddr]
      by_cases hpf : pf = .user
      · rw [if_pos hpf, show pageSize = 4096 from rfl]
        by_cases hlow : v.vaddrStart + 4096 * i < 0xc0000000 - 4096
        · rw [ASSERT_pos hlow]
          exact ⟨fun _ _ => hlow, fun _ => ⟨_, rfl⟩⟩
        · rw [ASSERT_neg hlow]
          refine ⟨fun hrun => ?_, fun h => absurd (h hpf) hlow⟩
          obtain ⟨_, h⟩ := hrun
          cases h
      · rw [if_neg hpf]
        exact ⟨fun _ h => absurd h hpf, fun _ => ⟨_, rfl⟩⟩
    constructor
    · exact fun h => ⟨i, hi, hget.mp h.returns⟩
    · rintro ⟨j, hj, hallows⟩
      have hij : i = j := by
        rcases Nat.lt_trichotomy i j with hlt | heq | hlt
        · exact absurd hi.run (hj.first i hlt)
        · exact heq
        · exact absurd hj.run (hi.first j hlt)
      exact ⟨fun hno => absurd hhas hno, hget.mpr (hij ▸ hallows), hi.reads hlen hn⟩
  · refine ⟨fun h => ?_, fun hfirst => ?_⟩
    swap
    · obtain ⟨i, hi, -⟩ := hfirst
      exact absurd hi.hasRun hhas
    rcases v.vaddrBitmap.full_or_lowestFree with hfull | ⟨p, hp⟩
    · obtain ⟨a, ha⟩ := h.returns
      rw [vaddrGet, hfull.scan] at ha
      cases ha
    · by_cases hone : n = 1
      · subst hone
        exact absurd (hasRun_one_iff.mpr hp.not_full) hhas
      · exact absurd (h.inside _ (hp.reads_past hlen (by omega) hhas)) (lt_irrefl _)

/-- **When running out is reported**: never when it happens.  An allocator does what its callers
expect exactly when the bits it asks for are there. -/
theorem exhaustion_reported_iff (pool : Pool) (part : Partition) (v : VirtualAddr) (hv : v.Fits)
    (pf : PoolFlag) (n : Nat) (hn : 1 ≤ n) :
    (ReportsNone pool.poolBitmap 1 (palloc pool) (· = (pool, none)) ↔ ¬ pool.poolBitmap.Full) ∧
    (ReportsNone part.blockBitmap 1 part.blockBitmapAlloc (· = (-1, part)) ↔
      ¬ part.blockBitmap.Full) ∧
    (ReportsNone part.inodeBitmap 1 part.inodeBitmapAlloc (· = (-1, part)) ↔
      ¬ part.inodeBitmap.Full) ∧
    (ReportsNone v.vaddrBitmap n (vaddrGet v pf n) (· = (v, none)) ↔
      ∃ i, v.vaddrBitmap.FirstRun n i ∧ v.Allows pf i) :=
  ⟨palloc_reports_iff pool, blockBitmapAlloc_reports_iff part, inodeBitmapAlloc_reports_iff part,
    vaddrGet_reports_iff hv pf hn⟩

/-- The last frame is gone: the next request stops the kernel after a look at the byte behind the
bitmap.  Two addresses where one is left: the answer is -1, after the same look. -/
theorem exhaustion_reported_full :
    palloc ⟨⟨1, fun i => if i = 0 then 0xff else 0⟩, 0x200000, 0x8000, .free⟩
      = .error (.panic "bitmap_scan" "idx_byte < bmap->bmap_bytes_len") ∧
    1 ∈ (⟨1, fun i => if i = 0 then 0xff else 0⟩ : Bitmap).bitmapScanReads 1 ∧
    1 ∈ (⟨1, fun _ => 0x7f⟩ : Bitmap).bitmapScanReads 2 := by
  refine ⟨?_, by decide, by decide⟩
  have hfull : (⟨1, fun i => if i = 0 then 0xff else 0⟩ : Bitmap).Full := by
    intro k hk
    interval_cases k <;> rfl
  rw [palloc, pallocWith, hfull.scan]
  rfl

/-- Three pages behind one that is taken. -/
theorem exhaustion_reported_three :
    ReportsNone ⟨2, fun i => if i = 0 then 1 else 0⟩ 3
      (vaddrGet ⟨⟨2, fun i => if i = 0 then 1 else 0⟩, 0xc0100000⟩ .kernel 3)
      (· = (⟨⟨2, fun i => if i = 0 then 1 else 0⟩, 0xc0100000⟩, none)) :=
  (exhaustion_reported_iff ⟨⟨1, fun _ => 0⟩, 0x200000, 0x8000, .free⟩
    ⟨2048, 8192, ⟨0x19590318, 8192, 4096, 2048, 2050, 2, 2052, 1, 2053, 608, 2661, 0, 24⟩,
      ⟨1024, fun _ => 0⟩, ⟨512, fun _ => 0⟩⟩
    ⟨⟨2, fun i => if i = 0 then 1 else 0⟩, 0xc0100000⟩ ⟨by decide, by decide, by decide⟩ .kernel 3
    (by decide)).2.2.2.mpr ⟨1, ⟨by decide, fun k hk => by interval_cases k <;> rfl, by decide⟩,
      fun h => by cases h⟩

end ZyOs
