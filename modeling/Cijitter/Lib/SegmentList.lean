import Mathlib

/-! Sorted lists of segments: half-open key ranges, each with a value. A
segment set is such a list read in key order; the operations below are the
in-order effects of its splitting and merging operations, with the value
functions `split` and `merge` of the instantiation taken as parameters. -/

set_option autoImplicit false

namespace SegmentList

/-- A segment: the keys `[start, stop)` and the value they map to. -/
structure Seg (V : Type) where
  start : Nat
  stop : Nat
  value : V
  deriving DecidableEq, Repr

variable {V : Type}

namespace Seg

def Contains (seg : Seg V) (key : Nat) : Prop :=
  seg.start ≤ key ∧ key < seg.stop

instance (seg : Seg V) (key : Nat) : Decidable (seg.Contains key) :=
  inferInstanceAs (Decidable (_ ∧ _))

/-- `Range.CanSplitAt`: the key lies strictly inside the range. -/
def CanSplitAt (seg : Seg V) (key : Nat) : Prop :=
  seg.start < key ∧ key < seg.stop

instance (seg : Seg V) (key : Nat) : Decidable (seg.CanSplitAt key) :=
  inferInstanceAs (Decidable (_ ∧ _))

end Seg

/-- Segments in strictly increasing key order, each non-empty, none
overlapping the next. -/
def Sorted : List (Seg V) → Prop
  | [] => True
  | [seg] => seg.start < seg.stop
  | seg :: next :: rest => seg.start < seg.stop ∧ seg.stop ≤ next.start ∧ Sorted (next :: rest)

section Operations

variable (split : Seg V → Nat → V × V) (merge : Seg V → Seg V → Option V)

/-- `Set.SplitUnchecked`: the two segments replacing `seg` at `key`. -/
def splitSeg (seg : Seg V) (key : Nat) : Seg V × Seg V :=
  (⟨seg.start, key, (split seg key).1⟩, ⟨key, seg.stop, (split seg key).2⟩)

/-- `Set.Isolate`: split `seg` at `low` and then at `high` where either lies
strictly inside it, giving the pieces before, inside and after `[low, high)`. -/
def isolate (seg : Seg V) (low high : Nat) : List (Seg V) × Seg V × List (Seg V) :=
  let (before, middle) :=
    if seg.CanSplitAt low then ([(splitSeg split seg low).1], (splitSeg split seg low).2)
    else ([], seg)
  if middle.CanSplitAt high then (before, (splitSeg split middle high).1,
    [(splitSeg split middle high).2])
  else (before, middle, [])

/-- `Set.MergeUnchecked`: the merged segment, when the two touch and their
values merge. -/
def tryMerge (first second : Seg V) : Option (Seg V) :=
  if first.stop = second.start then
    (merge first second).map fun value => ⟨first.start, second.stop, value⟩
  else none

/-- The loop of `Set.MergeRange` from the segment `current` on: each
following segment that starts before `high` is merged into `current` when
possible and otherwise becomes the new `current`. -/
def mergeFrom (high : Nat) (current : Seg V) : List (Seg V) → List (Seg V)
  | [] => [current]
  | next :: rest =>
    if next.start < high then
      match tryMerge merge current next with
      | some merged => mergeFrom high merged rest
      | none => current :: mergeFrom high next rest
    else current :: next :: rest

/-- `Set.MergeRange`: start at the lower-bound segment of `low`. -/
def mergeRange (low high : Nat) (segs : List (Seg V)) : List (Seg V) :=
  match segs.span (fun seg => decide (seg.stop ≤ low)) with
  | (before, current :: rest) => before ++ mergeFrom merge high current rest
  | (before, []) => before

/-- The first half of `Set.MergeAdjacent`: merge the segment containing
`key` into its predecessor. -/
def mergeWithPrev (key : Nat) : List (Seg V) → List (Seg V)
  | [] => []
  | [seg] => [seg]
  | previous :: seg :: rest =>
    if previous.Contains key then previous :: seg :: rest
    else if seg.Contains key then
      match tryMerge merge previous seg with
      | some merged => merged :: rest
      | none => previous :: seg :: rest
    else previous :: mergeWithPrev key (seg :: rest)

/-- The second half of `Set.MergeAdjacent`: merge the segment containing
`key` with its successor. -/
def mergeWithNext (key : Nat) : List (Seg V) → List (Seg V)
  | [] => []
  | seg :: rest =>
    if seg.Contains key then
      match rest with
      | next :: after =>
        match tryMerge merge seg next with
        | some merged => merged :: after
        | none => seg :: next :: after
      | [] => [seg]
    else seg :: mergeWithNext key rest

def mergeAdjacent (low high : Nat) (segs : List (Seg V)) : List (Seg V) :=
  mergeWithNext merge (high - 1) (mergeWithPrev merge low segs)

/-- `Set.Insert` of `seg` into the gap between the nearest segment of
`before` (kept in reverse, nearest first) and the first of `after`: `seg` is
merged into its predecessor when their values merge, and the result into its
successor when those merge. The result is again split in two: the first list
starts with the segment `Insert` returns, the second with that segment's
`NextSegment`. -/
def insert (before : List (Seg V)) (seg : Seg V) (after : List (Seg V)) :
    List (Seg V) × List (Seg V) :=
  let withNext (first : Seg V) (earlier : List (Seg V)) :=
    match after with
    | next :: later =>
      match tryMerge merge first next with
      | some merged => (merged :: earlier, later)
      | none => (first :: earlier, after)
    | [] => (first :: earlier, [])
  match before with
  | prev :: earlier =>
    match tryMerge merge prev seg with
    | some merged => withNext merged earlier
    | none => withNext seg before
  | [] => withNext seg []

end Operations

def lookup (key : Nat) : List (Seg V) → Option V
  | [] => none
  | seg :: rest => if seg.Contains key then some seg.value else lookup key rest

end SegmentList
