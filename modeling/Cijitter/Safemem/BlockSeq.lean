import Cijitter.Lib.Memory

/-! `safemem` (`pkg/safemem/block_unsafe.go`, `seq_unsafe.go`). A `Block` is
a range of memory, given by its start address and its length, with a flag
that says whether it must be accessed with safecopy. A `BlockSeq` is a
sequence of blocks, stored in one of three forms that the source tells apart
by its `length` field: empty (0), a single block inline (-1, or -2 when the
block needs safecopy), or a window of `limit` bytes into an array of blocks,
starting `offset` bytes into the first. Memory is a function from addresses
to bytes. A copy that faults is not modelled: `Copy` copies what it is asked
to. A Go panic is `none`. -/

set_option autoImplicit false

namespace Cijitter.Safemem

structure Block where
  start : Nat
  length : Nat
  needSafecopy : Bool
  /-- The length is a Go `int`. -/
  length_lt : length < 2 ^ 63
  deriving DecidableEq, Repr

namespace Block

/-- The zero `Block`. -/
def zero : Block := ⟨0, 0, false, by decide⟩

/-- `Block.DropFirst64`. -/
def dropFirst64 (b : Block) (n : Nat) : Block :=
  if n ≥ b.length then zero
  else ⟨b.start + n, b.length - n, b.needSafecopy, Nat.lt_of_le_of_lt (Nat.sub_le _ _) b.length_lt⟩

/-- `Block.TakeFirst64`. -/
def takeFirst64 (b : Block) (n : Nat) : Block :=
  if n = 0 then zero
  else if h : n ≥ b.length then b
  else ⟨b.start, n, b.needSafecopy, Nat.lt_trans (Nat.lt_of_not_ge h) b.length_lt⟩

end Block

/-- `Copy`, when it does not fault: the first `min dst.Len() src.Len()` bytes
of `src` written over `dst`, all of them read before any is written, as Go's
`copy` moves overlapping slices. -/
def copy (mem : Nat → UInt8) (dst src : Block) : Nat × (Nat → UInt8) :=
  let n := if dst.length > src.length then src.length else dst.length
  (n, Memory.write mem dst.start (Memory.read mem src.start n))

/-- `BlockSeq`, by the three forms its `length` field tells apart. -/
inductive BlockSeq where
  /-- `length == 0`. -/
  | empty
  /-- `length == -1` or `-2`: the single block `Block{data, limit, length == -2}`. -/
  | inline (block : Block)
  /-- `length >= 2`: the `length` blocks of the array at `data`, from `offset`
  bytes into the first, for `limit` bytes. -/
  | window (first : Block) (rest : List Block) (offset limit : Nat)
  deriving DecidableEq, Repr

namespace BlockSeq

/-- `BlockSeqOf`. -/
def blockSeqOf (b : Block) : BlockSeq :=
  if b.length = 0 then empty else inline b

/-- `skipEmpty`: the slice from its first block that is not empty. -/
def skipEmpty : List Block → List Block
  | [] => []
  | b :: rest => if b.length ≠ 0 then b :: rest else skipEmpty rest

/-- `blockSeqFromSliceLimited`. -/
def blockSeqFromSliceLimited : List Block → Nat → BlockSeq
  | [], _ => empty
  | [b], limit => blockSeqOf (b.takeFirst64 limit)
  | first :: second :: rest, limit => window first (second :: rest) 0 limit

/-- The loop of `BlockSeqFromSlice` that adds up the lengths in a `uint64`;
`none` where the sum wraps and the source panics. -/
def sumLengths (limit : Nat) : List Block → Option Nat
  | [] => some limit
  | b :: rest =>
    let sum := (limit + b.length) % 2 ^ 64
    if sum < limit then none else sumLengths sum rest

/-- `BlockSeqFromSlice`. -/
def blockSeqFromSlice (slice : List Block) : Option BlockSeq :=
  let slice := skipEmpty slice
  (sumLengths 0 slice).map (blockSeqFromSliceLimited slice)

/-- `IsEmpty`. -/
def isEmpty : BlockSeq → Bool
  | empty => true
  | _ => false

/-- `NumBytes`: the `limit` field, which the empty form keeps at zero. -/
def numBytes : BlockSeq → Nat
  | empty => 0
  | inline block => block.length
  | window _ _ _ limit => limit

/-- `Head`. -/
def head : BlockSeq → Option Block
  | empty => none
  | inline block => some block
  | window first _ offset limit => some ((first.dropFirst64 offset).takeFirst64 limit)

/-- `Tail` of the window form. -/
def windowTail (first : Block) (rest : List Block) (offset limit : Nat) : BlockSeq :=
  let headLen := (first.dropFirst64 offset).length
  -- the head exhausts the limit, so the tail is empty
  if headLen ≥ limit then empty
  else blockSeqFromSliceLimited (skipEmpty rest) (limit - headLen)

/-- `Tail`. -/
def tail : BlockSeq → Option BlockSeq
  | empty => none
  | inline _ => some empty
  | window first rest offset limit => some (windowTail first rest offset limit)

/-- How many blocks a sequence holds at most: what each round of the loops
over `Head` and `Tail` takes one off. -/
def blockCount : BlockSeq → Nat
  | empty => 0
  | inline _ => 1
  | window _ rest _ _ => rest.length + 1

theorem length_skipEmpty_le : ∀ slice : List Block, (skipEmpty slice).length ≤ slice.length
  | [] => Nat.le_refl _
  | b :: rest => by
    unfold skipEmpty
    split
    · exact Nat.le_refl _
    · exact Nat.le_succ_of_le (length_skipEmpty_le rest)

theorem blockCount_blockSeqFromSliceLimited_le (slice : List Block) (limit : Nat) :
    (blockSeqFromSliceLimited slice limit).blockCount ≤ slice.length := by
  match slice with
  | [] => exact Nat.le_refl _
  | [b] =>
    simp only [blockSeqFromSliceLimited, blockSeqOf]
    split <;> simp [blockCount]
  | _ :: _ :: rest => simp [blockSeqFromSliceLimited, blockCount]

theorem blockCount_windowTail_lt (first : Block) (rest : List Block) (offset limit : Nat) :
    (windowTail first rest offset limit).blockCount < rest.length + 1 := by
  unfold windowTail
  dsimp only
  split
  · simp [blockCount]
  · have := blockCount_blockSeqFromSliceLimited_le (skipEmpty rest) (limit - (first.dropFirst64 offset).length)
    have := length_skipEmpty_le rest
    omega

theorem blockCount_lt_of_tail {bs rest : BlockSeq} (found : bs.tail = some rest) : rest.blockCount < bs.blockCount := by
  cases bs with
  | empty => cases found
  | inline => cases found; simp [blockCount]
  | window first rest' offset limit =>
    cases found
    exact blockCount_windowTail_lt first rest' offset limit

/-- The loop of `DropFirst64`, once `n` is below the limit. -/
def dropFirst64Loop (n : Nat) (bs : BlockSeq) : Option BlockSeq :=
  match bs with
  -- the next round reads the head of the empty sequence through a nil pointer
  | empty => none
  | inline block =>
    if n < block.length then some (blockSeqOf (block.dropFirst64 n))
    else dropFirst64Loop (n - block.length) empty
  | window first rest offset limit =>
    let headLen := first.length - offset
    if n < headLen then some (window first rest (offset + n) (limit - n))
    else dropFirst64Loop (n - headLen) (windowTail first rest offset limit)
termination_by bs.blockCount
decreasing_by
  · simp [blockCount]
  · exact blockCount_windowTail_lt first rest offset limit

/-- `DropFirst64`. -/
def dropFirst64 (bs : BlockSeq) (n : Nat) : Option BlockSeq :=
  if n ≥ bs.numBytes then some empty else dropFirst64Loop n bs

/-- The sequence with its `limit` field set to `n`, where the source writes
`bs.limit = n`. -/
def withLimit (bs : BlockSeq) (n : Nat) (below : n < bs.numBytes) : BlockSeq :=
  match bs, below with
  | empty, below => absurd below (Nat.not_lt_zero n)
  | inline block, below => inline ⟨block.start, n, block.needSafecopy, Nat.lt_trans below block.length_lt⟩
  | window first rest offset _, _ => window first rest offset n

/-- `TakeFirst64`. -/
def takeFirst64 (bs : BlockSeq) (n : Nat) : BlockSeq :=
  if n = 0 then empty
  else if h : bs.numBytes > n then bs.withLimit n h
  else bs

/-- `IovecsFromBlockSeq`: the address and length of each block that `Head`
and `Tail` go through; `&b.ToSlice()[0]` panics on an empty head. -/
def iovecsFromBlockSeq (bs : BlockSeq) : Option (List (Nat × Nat)) :=
  if bs.isEmpty then some []
  else
    match bs.head with
    | some b =>
      if b.length = 0 then none
      else
        match _found : bs.tail with
        | some rest => (iovecsFromBlockSeq rest).map ((b.start, b.length) :: ·)
        | none => none
    | none => none
termination_by bs.blockCount
decreasing_by exact blockCount_lt_of_tail _found

/-- `NumBlocks`. -/
def numBlocks (bs : BlockSeq) : Option Nat :=
  if bs.isEmpty then some 0
  else
    match found : bs.tail with
    | some rest => (numBlocks rest).map (· + 1)
    | none => none
termination_by bs.blockCount
decreasing_by exact blockCount_lt_of_tail found

/-- The loop of `CopySeq`, for at most `fuel` rounds: the bytes copied and
the memory after them, or `none` when a `Head` or `DropFirst` panics or the
rounds run out. -/
def copySeqLoop (mem : Nat → UInt8) (done : Nat) (dsts srcs : BlockSeq) : Nat → Option (Nat × (Nat → UInt8))
  | 0 => none
  | fuel + 1 =>
    if !dsts.isEmpty && !srcs.isEmpty then
      match dsts.head, srcs.head with
      | some dst, some src =>
        let (n, mem) := copy mem dst src
        match dsts.dropFirst64 n, srcs.dropFirst64 n with
        | some dsts, some srcs => copySeqLoop mem (done + n) dsts srcs fuel
        | _, _ => none
      | _, _ => none
    else some (done, mem)

/-- `CopySeq` when no copy faults. Each round copies at least one byte of
`dsts`, so its length and one more round are enough. -/
def copySeq (mem : Nat → UInt8) (dsts srcs : BlockSeq) : Option (Nat × (Nat → UInt8)) :=
  copySeqLoop mem 0 dsts srcs (dsts.numBytes + 1)

end BlockSeq

end Cijitter.Safemem
