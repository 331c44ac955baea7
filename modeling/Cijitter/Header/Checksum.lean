import Cijitter.Lib.OnesComplement
import Cijitter.Tcpip.VectorisedView

/-! The Internet checksum (`pkg/tcpip/header/checksum.go`, RFC 1071). Both
`calculateChecksum` and its unrolled twin add the big-endian 16-bit words of
a slice to a 32-bit sum, the first byte after an odd number of bytes as the
low byte of its word and the last byte of a slice of odd length as the high
byte of its own, and fold the sum to 16 bits with `ChecksumCombine`. The
unrolled one adds its words in blocks of 64, 32, 16, 8, 4 and 2 bytes.
`ChecksumVVWithOffset` runs the unrolled one over the views of a
`VectorisedView`, from an offset and for a size, folding the sum after each
view and passing on whether the bytes so far were odd in number. -/

set_option autoImplicit false

namespace Cijitter.Header

open TcpipBuffer (VectorisedView)

/-- `ChecksumCombine`: the two halves added, and the carry added back in. -/
def checksumCombine (a b : UInt16) : UInt16 :=
  let v := a.toUInt32 + b.toUInt32
  (v + (v >>> 16)).toUInt16

/-- `(uint32(hi) << 8) + uint32(lo)`: a big-endian word. -/
def word (hi lo : UInt8) : UInt32 := (hi.toUInt32 <<< 8) + lo.toUInt32

/-- The words of a slice of even length added to `v` two bytes at a time:
the loop of `calculateChecksum`, and each block of the unrolled loop. -/
def sumWords (v : UInt32) : List UInt8 → UInt32
  | hi :: lo :: buf => sumWords (v + word hi lo) buf
  | _ => v

/-- The start of both checksum functions: a byte after an odd number of
bytes is the low byte of its word. -/
def addOddStart (buf : List UInt8) (odd : Bool) (v : UInt32) : UInt32 × List UInt8 :=
  -- `buf[0]` panics on an empty slice, which no caller passes with `odd` set.
  if odd then (v + (buf.headD 0).toUInt32, buf.drop 1) else (v, buf)

/-- The last byte of a slice of odd length is the high byte of its own word.
The sum, the slice, the number of its bytes that make whole words, and
whether the slice ended within a word. -/
def addOddEnd (v : UInt32) (buf : List UInt8) : UInt32 × List UInt8 × Nat × Bool :=
  let l := buf.length
  let odd := l &&& 1 != 0
  if odd then (v + ((buf.getD (l - 1) 0).toUInt32 <<< 8), buf, l - 1, odd) else (v, buf, l, odd)

/-- What both checksum functions do before their loops. -/
def checksumPrologue (buf : List UInt8) (odd : Bool) (initial : UInt32) : UInt32 × List UInt8 × Nat × Bool :=
  let (v, buf) := addOddStart buf odd initial
  addOddEnd v buf

/-- `calculateChecksum`. -/
def calculateChecksum (buf : List UInt8) (odd : Bool) (initial : UInt32) : UInt16 × Bool :=
  let (v, buf, l, odd) := checksumPrologue buf odd initial
  let v := sumWords v (buf.take l)
  (checksumCombine v.toUInt16 (v >>> 16).toUInt16, odd)

/-- The loop of `unrolledCalculateChecksum` over blocks of 64 bytes, each
added as its 32 words. -/
def sumBlocks64 (v : UInt32) (buf : List UInt8) (l : Nat) : UInt32 × List UInt8 × Nat :=
  if 64 ≤ l then sumBlocks64 (sumWords v (buf.take 64)) (buf.drop 64) (l - 64) else (v, buf, l)
termination_by l

/-- A block of `size` bytes after the loop, added as its words when that
many bytes are left. -/
def sumBlock (size : Nat) (v : UInt32) (buf : List UInt8) (l : Nat) : UInt32 × List UInt8 × Nat :=
  if size ≤ l then (sumWords v (buf.take size), buf.drop size, l - size) else (v, buf, l)

/-- `unrolledCalculateChecksum`. -/
def unrolledCalculateChecksum (buf : List UInt8) (odd : Bool) (initial : UInt32) : UInt16 × Bool :=
  let (v, buf, l, odd) := checksumPrologue buf odd initial
  let (v, buf, l) := sumBlocks64 v buf l
  let (v, buf, l) := sumBlock 32 v buf l
  let (v, buf, l) := sumBlock 16 v buf l
  let (v, buf, l) := sumBlock 8 v buf l
  let (v, buf, l) := sumBlock 4 v buf l
  -- `l` was even, so at most one word is left.
  let v := if l ≠ 0 then v + word (buf.getD 0 0) (buf.getD 1 0) else v
  (checksumCombine v.toUInt16 (v >>> 16).toUInt16, odd)

/-- `ChecksumOld`. -/
def checksumOld (buf : List UInt8) (initial : UInt16) : UInt16 :=
  (calculateChecksum buf false initial.toUInt32).1

/-- `Checksum`. -/
def checksum (buf : List UInt8) (initial : UInt16) : UInt16 :=
  (unrolledCalculateChecksum buf false initial.toUInt32).1

/-- The loop of `ChecksumVVWithOffset` over the views: empty views are
skipped, views before the offset are skipped, and each other view is cut to
what is left of the size and added to the sum. -/
def checksumVVWithOffsetLoop (odd : Bool) (sum : UInt16) (off size : Nat) : List (List UInt8) → UInt16
  | [] => sum
  | v :: views =>
    if v.length = 0 then checksumVVWithOffsetLoop odd sum off size views
    else if off ≥ v.length then checksumVVWithOffsetLoop odd sum (off - v.length) size views
    else
      let v := v.drop off
      let l := if v.length > size then size else v.length
      let v := v.take l
      let (sum, odd) := unrolledCalculateChecksum v odd sum.toUInt32
      let size := size - v.length
      if size = 0 then sum else checksumVVWithOffsetLoop odd sum 0 size views

/-- `ChecksumVVWithOffset`. -/
def checksumVVWithOffset (vv : VectorisedView) (initial : UInt16) (off size : Nat) : UInt16 :=
  checksumVVWithOffsetLoop false initial off size vv.views

/-- `ChecksumVV`. -/
def checksumVV (vv : VectorisedView) (initial : UInt16) : UInt16 :=
  checksumVVWithOffset vv initial 0 vv.size

end Cijitter.Header
