import Cijitter.Lib.SegmentGaps

/-! `findAvailableRange` (`pkg/sentry/pgalloc/pgalloc.go`): where
`MemoryFile.Allocate` places a new allocation in the backing file. The usage
set is its list of segments in key order, a gap iterator the index of its
gap, and `PrevLargeEnoughGap` the scan of `SegmentGaps`. The search first
walks the gaps back from the last one, taking the highest aligned range that
ends in a gap and within the file; failing that it doubles the file size
until a range aligned at the new end starts after the last segment. Keys and
lengths are `uint64` and the file size is `int64`, each with its wrapping
arithmetic. -/

set_option autoImplicit false

namespace Cijitter.Pgalloc

open SegmentList

/-- `platform.FileRange`, the range `[start, End)`. -/
structure FileRange where
  start : UInt64
  stop : UInt64
  deriving DecidableEq, Repr

def chunkShift : Nat := 30

/-- `chunkSize = 1 << chunkShift`, as the `int64` it is used as. -/
def chunkSize : Int64 :=
  Int64.ofNat (1 <<< chunkShift)

/-- `usageSetFunctions.MinKey`. -/
def usageMinKey : Nat := 0

/-- `usageSetFunctions.MaxKey`: `math.MaxUint64`. -/
def usageMaxKey : Nat := 2 ^ 64 - 1

/-- The backward loop over the gaps, from `gap`: `none` is its `break`. -/
def scanGaps {V : Type} (usage : List (Seg V)) (fileSize : Int64) (length alignmentMask : UInt64) (gap : Nat) :
    Option FileRange :=
  let stop := UInt64.ofNat (gapEnd usageMaxKey usage gap)
  let stop := if stop > fileSize.toUInt64 then fileSize.toUInt64 else stop
  -- try to allocate from the end of this gap, the start aligned down
  let unalignedStart := stop - length
  if unalignedStart > stop then none
  else
    let start := unalignedStart &&& ~~~alignmentMask
    if start ≥ UInt64.ofNat (gapStart usageMinKey usage gap) then some ⟨start, start + length⟩
    else
      match _found : prevLargeEnoughGap usageMinKey usageMaxKey usage length.toNat gap with
      | some prev => scanGaps usage fileSize length alignmentMask prev
      | none => none
termination_by gap
decreasing_by exact prevLargeEnoughGap_lt usageMinKey usageMaxKey _found

/-- The measure the file-growth loop decreases: a negative size is left at
once, and a positive one doubles towards `2 ^ 63`. -/
def growMeasure (fileSize : Int64) : Nat :=
  if fileSize.toInt < 0 then 2 ^ 64 else (2 ^ 63 - fileSize.toInt).toNat

theorem toInt_two_mul (x : Int64) :
    (2 * x).toInt =
      if x.toInt < -2 ^ 62 then 2 * x.toInt + 2 ^ 64 else if x.toInt < 2 ^ 62 then 2 * x.toInt else 2 * x.toInt - 2 ^ 64 := by
  have low := Int64.le_toInt x
  have high := Int64.toInt_lt x
  have two : (2 : Int64).toInt = 2 := rfl
  rw [Int64.toInt_mul, two, Int.bmod_def]
  by_cases veryLow : x.toInt < -2 ^ 62
  · rw [if_pos veryLow]
    split <;> omega
  · rw [if_neg veryLow]
    by_cases small : x.toInt < 2 ^ 62
    · rw [if_pos small]
      split <;> omega
    · rw [if_neg small]
      split <;> omega

theorem toInt_chunkSize : chunkSize.toInt = 2 ^ 30 := rfl

theorem growMeasure_next {fileSize : Int64} (grows : ¬(2 * fileSize ≤ fileSize ∧ fileSize ≠ 0)) :
    growMeasure (if 2 * fileSize ≤ fileSize then chunkSize else 2 * fileSize) < growMeasure fileSize := by
  unfold growMeasure
  have doubled := toInt_two_mul fileSize
  have low := Int64.le_toInt fileSize
  have high := Int64.toInt_lt fileSize
  split
  · rename_i notGrown
    have zero : fileSize = 0 := Classical.byContradiction fun nonzero => grows ⟨notGrown, nonzero⟩
    subst zero
    rw [toInt_chunkSize]
    decide
  · rename_i grown
    rw [Int64.le_iff_toInt_le] at grown
    split <;> split <;> split at doubled <;> (try split at doubled) <;> omega

/-- The file-growth loop: double the size (from `chunkSize` if it is zero)
until a range of `length` aligned down from the end starts at or after
`min`; `none` when doubling overflows `int64`. -/
def growFile (length alignmentMask min : UInt64) (fileSize : Int64) : Option FileRange :=
  let newFileSize := 2 * fileSize
  if _overflow : newFileSize ≤ fileSize ∧ fileSize ≠ 0 then none
  else
    let fileSize' := if newFileSize ≤ fileSize then chunkSize else newFileSize
    let unalignedStart := fileSize'.toUInt64 - length
    -- a size still below `length` wraps the subtraction: grow again
    if unalignedStart > fileSize'.toUInt64 then growFile length alignmentMask min fileSize'
    else
      let start := unalignedStart &&& ~~~alignmentMask
      if start ≥ min then some ⟨start, start + length⟩ else growFile length alignmentMask min fileSize'
termination_by growMeasure fileSize
decreasing_by
  all_goals exact growMeasure_next _overflow

/-- `findAvailableRange`: `none` is its `false`. -/
def findAvailableRange {V : Type} (usage : List (Seg V)) (fileSize : Int64) (length alignment : UInt64) :
    Option FileRange :=
  let alignmentMask := alignment - 1
  let lastGap := usage.length
  match scanGaps usage fileSize length alignmentMask lastGap with
  | some fr => some fr
  | none =>
      let min := UInt64.ofNat (gapStart usageMinKey usage lastGap)
      let min := (min + alignmentMask) &&& ~~~alignmentMask
      -- the allocation would exceed the range of `uint64`
      if min + length < min then none
      else growFile length alignmentMask min fileSize

end Cijitter.Pgalloc
