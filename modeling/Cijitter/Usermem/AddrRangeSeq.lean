import Cijitter.Usermem.Access

/-! `usermem.AddrRangeSeq`, an immutable sequence of address ranges limited
to a number of bytes, and the loops of `CopyOutVec`, `CopyInVec` and
`ZeroOutVec` that walk one. The sequence has three shapes: empty, a single
range held inline (`offset` and `limit` are its start and length), and a
window on an array of two or more ranges that starts `offset` bytes into the
first and ends after `limit` bytes. The array at `data` is the list `data`,
empty for a nil pointer. A panic of the source is `none`. Arithmetic on
`Addr`, a `uintptr`, wraps at `2 ^ 64` here as it does in the source, and
`Length` of a range whose end is below its start is the wrapped difference. -/

set_option autoImplicit false

namespace Cijitter.Usermem

structure AddrRangeSeq where
  data : List AddrRange
  length : Nat
  offset : Nat
  limit : Nat
  deriving DecidableEq, Repr

namespace AddrRangeSeq

/-- The zero value `AddrRangeSeq{}`. -/
def empty : AddrRangeSeq := ⟨[], 0, 0, 0⟩

def addrRangeSeqOf (ar : AddrRange) : AddrRangeSeq :=
  ⟨[], 1, ar.start, addrLength ar⟩

def addrRangeSeqFromSliceLimited (slice : List AddrRange) (limit : Nat) : AddrRangeSeq :=
  match slice with
  | [] => empty
  | [ar] => ⟨[], 1, ar.start, limit⟩
  | _ => ⟨slice, slice.length, 0, limit⟩

/-- The `int64` sum of the lengths; a length or a sum that overflows panics. -/
def sumLengths (slice : List AddrRange) : Option Nat :=
  slice.foldlM (fun limit ar =>
    if 2 ^ 63 ≤ addrLength ar then none
    else if 2 ^ 63 ≤ limit + addrLength ar then none
    else some (limit + addrLength ar)) 0

def addrRangeSeqFromSlice (slice : List AddrRange) : Option AddrRangeSeq :=
  (sumLengths slice).map (addrRangeSeqFromSliceLimited slice)

def isEmpty (ars : AddrRangeSeq) : Bool := ars.length == 0

def numRanges (ars : AddrRangeSeq) : Nat := ars.length

def numBytes (ars : AddrRangeSeq) : Nat := ars.limit

/-- `*(*AddrRange)(ars.data)`: the first range of the array; nil panics. -/
def rawHead (ars : AddrRangeSeq) : Option AddrRange := ars.data.head?

def head (ars : AddrRangeSeq) : Option AddrRange :=
  if ars.length = 0 then none
  else if ars.length = 1 then some ⟨ars.offset, addrAdd ars.offset ars.limit⟩
  else
    ars.rawHead.map fun raw =>
      let ar : AddrRange := ⟨addrAdd raw.start ars.offset, raw.stop⟩
      if addrLength ar > ars.limit then ⟨ar.start, addrAdd ar.start ars.limit⟩ else ar

def externalTail (ars : AddrRangeSeq) : Option AddrRangeSeq :=
  ars.rawHead.map fun raw =>
    let headLen := addrSub (addrLength raw) ars.offset
    let tailLimit := if ars.limit > headLen then ars.limit - headLen else 0
    addrRangeSeqFromSliceLimited (ars.data.take ars.length).tail tailLimit

def tail (ars : AddrRangeSeq) : Option AddrRangeSeq :=
  if ars.length = 0 then none
  else if ars.length = 1 then some empty
  else ars.externalTail

/-- The loop of `DropFirst64`: each turn drops the head or ends inside it.
`Tail` shortens the sequence, so a fuel of its length and one more is never
used up. -/
def dropFirstLoop : Nat → Nat → AddrRangeSeq → Option AddrRangeSeq
  | 0, _, ars => some ars
  | fuel + 1, n, ars =>
    if n = 0 then some ars
    else
      let headLen :=
        if ars.length = 1 then some ars.limit
        else ars.rawHead.map fun raw => addrSub (addrLength raw) ars.offset
      match headLen with
      | none => none
      | some headLen =>
        -- Dropping ends partway through the head range.
        if n < headLen then some { ars with offset := addrAdd ars.offset n, limit := addrSub ars.limit n }
        else
          match ars.tail with
          | none => none
          | some rest => dropFirstLoop fuel (n - headLen) rest

/-- `DropFirst64`; its negative counts, which panic, are not in `Nat`. Only
an initial head that is empty in the array (`offset` at its end) is skipped
before the loop. -/
def dropFirst64 (ars : AddrRangeSeq) (n : Nat) : Option AddrRangeSeq :=
  if n > ars.limit then some empty
  else if ars.length = 0 then some empty
  else if ars.length = 1 ∧ ars.limit = 0 then some empty
  else
    let skipped :=
      if ars.length = 1 then some ars
      else
        match ars.rawHead with
        | none => none
        | some raw => if ars.offset = addrLength raw then ars.externalTail else some ars
    match skipped with
    | none => none
    | some ars => dropFirstLoop (ars.length + 1) n ars

/-- `DropFirst`, for a count that is not negative. -/
def dropFirst (ars : AddrRangeSeq) (n : Nat) : Option AddrRangeSeq :=
  ars.dropFirst64 n

def takeFirst64 (ars : AddrRangeSeq) (n : Nat) : AddrRangeSeq :=
  if ars.limit > n then { ars with limit := n } else ars

def takeFirst (ars : AddrRangeSeq) (n : Nat) : AddrRangeSeq :=
  ars.takeFirst64 n

end AddrRangeSeq

open AddrRangeSeq

section Vec

variable {ε : Type}

/-- The loop shared by `CopyOutVec`, `CopyInVec` and `ZeroOutVec`: `io addr
done count` moves `count` bytes at `addr`, the `done`-th onwards of the
caller's buffer, and returns how many it moved and its error; `total` is the
buffer's length. `none` is a panic, or a loop that has not ended within the
fuel. -/
def ioVecLoop (io : Nat → Nat → Nat → Nat × Option ε) (total : Nat) :
    Nat → AddrRangeSeq → Nat → Option (Nat × Option ε)
  | 0, _, _ => none
  | fuel + 1, ars, done =>
    if !ars.isEmpty && done < total then
      match ars.head with
      | none => none
      | some ar =>
        let cplen := if total - done ≥ addrLength ar then addrLength ar else total - done
        let (n, err) := io ar.start done cplen
        let done := done + n
        match err with
        | some err => some (done, some err)
        | none =>
          match ars.dropFirst64 n with
          | none => none
          | some ars => ioVecLoop io total fuel ars done
    else some (done, none)

theorem ioVecLoop_of_stuck {io : Nat → Nat → Nat → Nat × Option ε} {total : Nat}
    {ars : AddrRangeSeq} {done : Nat} {ar : AddrRange} (nonempty : ars.isEmpty = false)
    (below : done < total) (head : ars.head = some ar) (emptyHead : addrLength ar = 0)
    (movesNothing : io ar.start done 0 = (0, none)) (kept : ars.dropFirst64 0 = some ars) :
    ∀ fuel, ioVecLoop io total fuel ars done = none := by
  intro fuel
  induction fuel with
  | zero => rfl
  | succ fuel ih =>
    have cplen : (if total - done ≥ addrLength ar then addrLength ar else total - done) = 0 := by
      rw [emptyHead, if_pos (Nat.zero_le _)]
    rw [ioVecLoop, nonempty, if_pos (by simpa using below), head]
    simp only [cplen, movesNothing, Nat.add_zero, kept, ih]

/-- `CopyOutVec`: `copyOut addr bytes` is `uio.CopyOut`. -/
def copyOutVec (copyOut : Nat → List UInt8 → Nat × Option ε) (fuel : Nat) (ars : AddrRangeSeq)
    (src : List UInt8) : Option (Nat × Option ε) :=
  ioVecLoop (fun addr done cplen => copyOut addr ((src.drop done).take cplen)) src.length fuel ars 0

/-- `CopyOutVec` of ten bytes to three ranges of five bytes limited to their
first five (`TakeFirst(5)`), with an IO that copies every byte it is given.
The first turn copies five bytes and its `DropFirst(5)` leaves the two other
ranges with a limit of 0: their head is empty but not at the end of its array
range, so `DropFirst(0)` keeps it, and every later turn copies nothing and
keeps the same sequence. The call never returns. -/
theorem copyOutVec_never_returns :
    addrRangeSeqFromSlice [⟨0, 5⟩, ⟨5, 10⟩, ⟨10, 15⟩] = some ⟨[⟨0, 5⟩, ⟨5, 10⟩, ⟨10, 15⟩], 3, 0, 15⟩ ∧
      ∀ fuel, copyOutVec (fun _ bytes => (bytes.length, (none : Option Unit))) fuel
        (takeFirst ⟨[⟨0, 5⟩, ⟨5, 10⟩, ⟨10, 15⟩], 3, 0, 15⟩ 5) (List.replicate 10 0) = none := by
  refine ⟨rfl, ?_⟩
  intro fuel
  cases fuel with
  | zero => rfl
  | succ fuel =>
    -- The first turn copies five bytes and reaches the stuck state.
    have first : copyOutVec (fun _ bytes => (bytes.length, (none : Option Unit))) (fuel + 1)
        (takeFirst ⟨[⟨0, 5⟩, ⟨5, 10⟩, ⟨10, 15⟩], 3, 0, 15⟩ 5) (List.replicate 10 0) =
        ioVecLoop (fun _ done cplen => ((((List.replicate 10 (0 : UInt8)).drop done).take cplen).length,
          (none : Option Unit))) 10 fuel ⟨[⟨5, 10⟩, ⟨10, 15⟩], 2, 0, 0⟩ 5 := rfl
    rw [first]
    have head : AddrRangeSeq.head ⟨[⟨5, 10⟩, ⟨10, 15⟩], 2, 0, 0⟩ = some ⟨5, 5⟩ := rfl
    exact ioVecLoop_of_stuck rfl (by decide) head rfl rfl rfl fuel

/-- `CopyInVec`: `copyIn addr count` is `uio.CopyIn` into `count` bytes of
`dst`, whose contents are not followed here. -/
def copyInVec (copyIn : Nat → Nat → Nat × Option ε) (fuel : Nat) (ars : AddrRangeSeq)
    (dstLength : Nat) : Option (Nat × Option ε) :=
  ioVecLoop (fun addr _ cplen => copyIn addr cplen) dstLength fuel ars 0

/-- `ZeroOutVec`: `zeroOut addr count` is `uio.ZeroOut`. -/
def zeroOutVec (zeroOut : Nat → Nat → Nat × Option ε) (fuel : Nat) (ars : AddrRangeSeq)
    (toZero : Nat) : Option (Nat × Option ε) :=
  ioVecLoop (fun addr _ cplen => zeroOut addr cplen) toZero fuel ars 0

end Vec

end Cijitter.Usermem
