/-
`lib/kernel/bitmap.c`.

`bits` is a bare pointer in the source, so here it is the memory that pointer
sees: the bitmap's own bytes are the first `bmapBytesLen` of it, and whatever
follows them in memory is there too, because `bitmap_scan` can look at it.
-/
import ZyOs.Kernel.Debug
import ZyOs.Library.Bytes

namespace ZyOs

open Library

/-- `struct bitmap`. -/
structure Bitmap where
  bmapBytesLen : Nat
  bits : Mem

/-- A 32-bit pattern read as a C `int`. -/
def int32 (n : Nat) : Int :=
  if n % 2 ^ 32 < 2 ^ 31 then (n % 2 ^ 32 : Nat) else (n % 2 ^ 32 : Nat) - 2 ^ 32

/-- `a - b` on `uint32_t`. -/
def sub32 (a b : Nat) : Nat := (a + 2 ^ 32 - b) % 2 ^ 32

/-- `BITMAP_MASK << k`, as a byte. -/
def bitMask (k : Nat) : UInt8 := 1 <<< UInt8.ofNat k

namespace Bitmap

/-- `bitmap_init` -/
def bitmapInit (b : Bitmap) : Bitmap :=
  { b with bits := b.bits.fill 0 0 b.bmapBytesLen }

/-- `bitmap_scan_test` -/
def bitmapScanTest (b : Bitmap) (bitIdx : Nat) : Bool :=
  b.bits (bitIdx / 8) &&& bitMask (bitIdx % 8) != 0

/-- `bitmap_set` -/
def bitmapSet (b : Bitmap) (bitIdx : Nat) (value : Bool) : Bitmap :=
  let byteIdx := bitIdx / 8
  let bitOdd := bitIdx % 8
  let byte := if value then b.bits byteIdx ||| bitMask bitOdd
    else b.bits byteIdx &&& ~~~ bitMask bitOdd
  { b with bits := fun i => if i = byteIdx then byte else b.bits i }

/-- The first loop of `bitmap_scan`: skip bytes that have no free bit. -/
def skipFull (b : Bitmap) : Nat → Nat → Nat
  | 0, idxByte => idxByte
  | fuel + 1, idxByte =>
      if b.bits idxByte = 0xff ∧ idxByte < b.bmapBytesLen then skipFull b fuel (idxByte + 1)
      else idxByte

/-- The second loop: the first free bit of a byte.  `(uint8_t)(1 << 8)` is 0, so it ends at 8. -/
def firstFree (byte : UInt8) : Nat → Nat → Nat
  | 0, idxBit => idxBit
  | fuel + 1, idxBit =>
      if bitMask idxBit &&& byte ≠ 0 then firstFree byte fuel (idxBit + 1) else idxBit

/-- The last loop: `bitLeft` more bits to look at, `count` free ones just before `nextBit`. -/
def scanRun (b : Bitmap) (cnt : Nat) : Nat → Nat → Nat → Int
  | 0, _, _ => -1
  | bitLeft + 1, nextBit, count =>
      let count' := if b.bitmapScanTest nextBit then 0 else count + 1
      if count' = cnt then int32 (nextBit + 2 ^ 32 - cnt + 1)
      else scanRun b cnt bitLeft ((nextBit + 1) % 2 ^ 32) count'

/-- `bitmap_scan`: `-1` when there is no run of `cnt` free bits. -/
def bitmapScan (b : Bitmap) (cnt : Nat) : Kernel Int := do
  let idxByte := b.skipFull b.bmapBytesLen 0
  ASSERT (idxByte < b.bmapBytesLen) "bitmap_scan" "idx_byte < bmap->bmap_bytes_len"
  if idxByte = b.bmapBytesLen then
    return -1
  let idxBit := firstFree (b.bits idxByte) 8 0
  let bitIdxStart := (idxByte * 8 + idxBit) % 2 ^ 32
  if cnt = 1 then
    return int32 bitIdxStart
  let bitLeft := (b.bmapBytesLen * 8 + 2 ^ 32 - bitIdxStart) % 2 ^ 32
  return b.scanRun cnt bitLeft ((bitIdxStart + 1) % 2 ^ 32) 1

end Bitmap

end ZyOs
