/-
The bytes `bitmap_scan` looks at.

Each loop of `bitmap_scan` once more, with the numbers of the bytes it reads instead of what it
finds there.
-/
import ZyOs.Kernel.Bitmap

namespace ZyOs

namespace Bitmap

/-- The first loop reads a byte before it asks whether it is one of the bitmap's. -/
def skipFullReads (b : Bitmap) : Nat → Nat → List Nat
  | 0, idxByte => [idxByte]
  | fuel + 1, idxByte =>
      idxByte :: if b.bits idxByte = 0xff ∧ idxByte < b.bmapBytesLen then
        skipFullReads b fuel (idxByte + 1)
      else []

/-- The last loop reads the byte of each bit it tests. -/
def scanRunReads (b : Bitmap) (cnt : Nat) : Nat → Nat → Nat → List Nat
  | 0, _, _ => []
  | bitLeft + 1, nextBit, count =>
      let count' := if b.bitmapScanTest nextBit then 0 else count + 1
      nextBit / 8 :: if count' = cnt then []
        else scanRunReads b cnt bitLeft ((nextBit + 1) % 2 ^ 32) count'

/-- `bitmap_scan`; the second loop stays on the byte the first one has found. -/
def bitmapScanReads (b : Bitmap) (cnt : Nat) : List Nat :=
  let idxByte := b.skipFull b.bmapBytesLen 0
  b.skipFullReads b.bmapBytesLen 0 ++
    if idxByte < b.bmapBytesLen then
      let bitIdxStart := (idxByte * 8 + firstFree (b.bits idxByte) 8 0) % 2 ^ 32
      let bitLeft := (b.bmapBytesLen * 8 + 2 ^ 32 - bitIdxStart) % 2 ^ 32
      idxByte :: if cnt = 1 then []
        else b.scanRunReads cnt bitLeft ((bitIdxStart + 1) % 2 ^ 32) 1
    else []

end Bitmap

end ZyOs
