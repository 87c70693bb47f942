/-
Byte memories.

A region of memory is a function from offsets to bytes: what a C pointer sees
when it is indexed.  Copying and filling are `splice` and `fill`, both total, so
a proof about a buffer never carries a length; the one question left is which
range an offset lies in, and `omega` answers that.

The second half reads and writes 32-bit little-endian words in such a memory.
A record whose members are all words is the sequence of its words, `ofWords`
lays the sequence out as bytes and `getWord` reads one back.
-/
import Mathlib.Tactic

namespace Library

/-- Memory as a pointer sees it: offset to byte. -/
abbrev Mem := Nat → UInt8

namespace Mem

/-- The memory a pointer `a` bytes further on sees. -/
def drop (m : Mem) (a : Nat) : Mem := fun i => m (a + i)

/-- Overwrite `n` bytes from offset `off` with the first `n` bytes of `src`. -/
def splice (m : Mem) (off : Nat) (src : Mem) (n : Nat) : Mem :=
  fun i => if off ≤ i ∧ i < off + n then src (i - off) else m i

/-- Overwrite `n` bytes from offset `off` with the byte `v`. -/
def fill (m : Mem) (off : Nat) (v : UInt8) (n : Nat) : Mem :=
  fun i => if off ≤ i ∧ i < off + n then v else m i

@[simp] theorem drop_apply (m : Mem) (a i : Nat) : m.drop a i = m (a + i) := rfl

theorem drop_drop (m : Mem) (a b : Nat) : (m.drop a).drop b = m.drop (a + b) := by
  funext i
  simp [Nat.add_assoc]

/-! ### Reading through a splice -/

theorem splice_in {m src : Mem} {off n i : Nat} (h1 : off ≤ i) (h2 : i < off + n) :
    m.splice off src n i = src (i - off) := by
  simp [splice, h1, h2]

theorem splice_at {m src : Mem} {off n i : Nat} (h : i < n) :
    m.splice off src n (off + i) = src i := by
  rw [splice_in (by omega) (by omega), Nat.add_sub_cancel_left]

theorem splice_out {m src : Mem} {off n i : Nat} (h : i < off ∨ off + n ≤ i) :
    m.splice off src n i = m i := by
  unfold splice
  rw [if_neg (by omega)]

theorem fill_in {m : Mem} {off n i : Nat} {v : UInt8} (h1 : off ≤ i) (h2 : i < off + n) :
    m.fill off v n i = v := by
  simp [fill, h1, h2]

theorem fill_out {m : Mem} {off n i : Nat} {v : UInt8} (h : i < off ∨ off + n ≤ i) :
    m.fill off v n i = m i := by
  unfold fill
  rw [if_neg (by omega)]

/-- Two adjacent splices from one source are one splice. -/
theorem splice_append (m src : Mem) (off n k : Nat) :
    (m.splice off src n).splice (off + n) (src.drop n) k = m.splice off src (n + k) := by
  funext i
  by_cases h1 : off ≤ i ∧ i < off + n
  · rw [splice_out (by omega), splice_in h1.1 h1.2, splice_in h1.1 (by omega)]
  by_cases h2 : off + n ≤ i ∧ i < off + (n + k)
  · rw [splice_in h2.1 (by omega), splice_in (by omega) (by omega), drop_apply]
    congr 1
    omega
  · rw [splice_out (by omega), splice_out (by omega), splice_out (by omega)]

/-- Reading a window, changing part of it and writing it back changes only that part. -/
theorem splice_window (d buf src : Mem) {base len off n : Nat} (h : off + n ≤ len) :
    d.splice base ((buf.splice 0 (d.drop base) len).splice off src n) len
      = d.splice (base + off) src n := by
  funext i
  by_cases hw : base ≤ i ∧ i < base + len
  · rw [splice_in hw.1 hw.2]
    by_cases hs : base + off ≤ i ∧ i < base + off + n
    · rw [splice_in (by omega) (by omega), splice_in hs.1 hs.2]
      congr 1
      omega
    · rw [splice_out (by omega), splice_in (by omega) (by omega), splice_out (by omega),
        drop_apply]
      congr 1
      omega
  · rw [splice_out (by omega), splice_out (by omega)]

/-- Part of a window that was read is what the memory itself holds there. -/
theorem drop_window (d buf : Mem) {base len off i : Nat} (h : off + i < len) :
    ((buf.splice 0 (d.drop base) len).drop off) i = d (base + off + i) := by
  rw [drop_apply, splice_in (by omega) (by omega), drop_apply]
  congr 1
  omega

@[simp] theorem splice_zero (m src : Mem) (off : Nat) : m.splice off src 0 = m := by
  funext i
  exact splice_out (by omega)

end Mem

/-! ### Little-endian words -/

theorem ofNat_ne_zero {n : Nat} (h : 0 < n) (hlt : n < 2 ^ 32) : UInt32.ofNat n ≠ 0 := fun h0 => by
  have := congrArg UInt32.toNat h0
  rw [UInt32.toNat_ofNat_of_lt' hlt] at this
  exact absurd this (Nat.ne_of_gt h)

/-- Byte `j` of a 32-bit word, least significant first. -/
def byteOf (w : UInt32) (j : Nat) : UInt8 :=
  match j with
  | 0 => UInt8.ofNat w.toNat
  | 1 => UInt8.ofNat (w.toNat / 256)
  | 2 => UInt8.ofNat (w.toNat / 65536)
  | _ => UInt8.ofNat (w.toNat / 16777216)

/-- The word stored in the four bytes from offset `a`. -/
def getWord (m : Mem) (a : Nat) : UInt32 :=
  UInt32.ofNat ((m a).toNat + 256 * (m (a + 1)).toNat + 65536 * (m (a + 2)).toNat
    + 16777216 * (m (a + 3)).toNat)

/-- A sequence of words laid out as bytes. -/
def ofWords (w : Nat → UInt32) : Mem := fun k => byteOf (w (k / 4)) (k % 4)

/-- A word is determined by the four bytes that hold it. -/
theorem getWord_congr {m m' : Mem} {a b : Nat} (h : ∀ j < 4, m (a + j) = m' (b + j)) :
    getWord m a = getWord m' b := by
  have h0 := h 0 (by omega)
  have h1 := h 1 (by omega)
  have h2 := h 2 (by omega)
  have h3 := h 3 (by omega)
  simp only [Nat.add_zero] at h0
  simp only [getWord, h0, h1, h2, h3]

/-- The four bytes of a word put together give the word back. -/
theorem getWord_byteOf {m : Mem} {a : Nat} {w : UInt32} (h : ∀ j < 4, m (a + j) = byteOf w j) :
    getWord m a = w := by
  have h0 := h 0 (by omega)
  have h1 := h 1 (by omega)
  have h2 := h 2 (by omega)
  have h3 := h 3 (by omega)
  simp only [Nat.add_zero] at h0
  have hw := w.toNat_lt
  simp only [getWord, h0, h1, h2, h3, byteOf]
  apply UInt32.toNat_inj.mp
  simp only [UInt32.toNat_ofNat', UInt8.toNat_ofNat']
  omega

/-- Reading word `i` of a laid-out sequence. -/
theorem getWord_ofWords (w : Nat → UInt32) (i : Nat) : getWord (ofWords w) (4 * i) = w i := by
  refine getWord_byteOf fun j hj => ?_
  simp only [ofWords]
  rw [show (4 * i + j) / 4 = i by omega, show (4 * i + j) % 4 = j by omega]

/-- The bytes read off four at a time are the words they were laid out from. -/
theorem getWord_drop (m : Mem) (a b : Nat) : getWord (m.drop a) b = getWord m (a + b) := by
  refine getWord_congr fun j _ => ?_
  simp [Nat.add_assoc]

end Library
