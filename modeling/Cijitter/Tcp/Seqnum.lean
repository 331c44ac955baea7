import Mathlib

/-! TCP sequence numbers (`pkg/tcpip/seqnum`): 32-bit values compared
through the sign of their difference, so that the order works across the
wrap of the sequence space. `Header.acceptable` is `header.Acceptable`, the segment
acceptability test of RFC 793. -/

set_option autoImplicit false

namespace Cijitter.Tcp

/-- `seqnum.Value`. -/
abbrev SeqValue := UInt32

/-- `seqnum.Size`. -/
abbrev SeqSize := UInt32

/-- `v.LessThan(w)`: `int32(v - w) < 0`, the top bit of the difference. -/
def lessThan (v w : SeqValue) : Bool :=
  decide (2 ^ 31 ≤ (v - w).toNat)

def lessThanEq (v w : SeqValue) : Bool :=
  v == w || lessThan v w

/-- `v.InRange(a, b)`: `a <= v < b`, on the circle. -/
def inRange (v a b : SeqValue) : Bool :=
  decide (v - a < b - a)

/-- `v.InWindow(first, size)`. -/
def inWindow (v first : SeqValue) (size : SeqSize) : Bool :=
  inRange v first (first + size)

/-- `header.Acceptable`: a segment is acceptable when some of it falls in
the window `[rcvNxt, rcvAcc]`; with a closed window only an empty segment at
`rcvNxt` is. -/
def Header.acceptable (segSeq : SeqValue) (segLen : SeqSize) (rcvNxt rcvAcc : SeqValue) : Bool :=
  if rcvNxt = rcvAcc then segLen == 0 && segSeq == rcvNxt
  else if segLen = 0 then inRange segSeq rcvNxt (rcvAcc + 1)
  else lessThan rcvNxt (segSeq + segLen) && lessThanEq segSeq rcvAcc

/-- Go's `x >> n` on a `uint32`: a count of 32 or more gives 0. -/
def goShiftRight (x : UInt32) (n : UInt8) : UInt32 :=
  if n.toNat < 32 then x >>> n.toUInt32 else 0

/-- Go's `x << n` on a `uint32`. -/
def goShiftLeft (x : UInt32) (n : UInt8) : UInt32 :=
  if n.toNat < 32 then x <<< n.toUInt32 else 0

end Cijitter.Tcp
