import Cijitter.Lib.SegmentList
import Mathlib

/-! POSIX record locks (`pkg/sentry/fs/lock`). A `LockSet` is a segment set
over file offsets whose values are `Lock`s: a set of readers and at most one
writer. `lock` first checks the whole range (`canLock`) and then walks it,
splitting the segments at its ends, taking the lock on each segment and
filling each gap with a fresh lock through `Set.Insert`, which merges what it
inserts with equal neighbours. `unlock` walks the range and takes `uid` off
each segment that it holds, isolating the part inside the range first.

A position in the set is the pair of the segments before it, nearest first,
and those from it on: the head of the second list is the iterator the loops
hold. A panic of the source is `none`. -/

set_option autoImplicit false

namespace Cijitter.FileLock

open SegmentList

inductive LockType
  | readLock
  | writeLock
  deriving DecidableEq, Repr

/-- `Lock`: the readers, and the writer (`nil` when there is none). -/
structure Lock (UniqueID : Type) where
  readers : Finset UniqueID
  writer : Option UniqueID
  deriving DecidableEq

/-- `LockRange`: the offsets `[Start, End)`. -/
structure LockRange where
  start : Nat
  stop : Nat
  deriving DecidableEq, Repr

/-- `LockSet`, its segments in key order. -/
abbrev LockSet (UniqueID : Type) := List (Seg (Lock UniqueID))

/-- `lockSetFunctions.MaxKey`: `math.MaxUint64`; `MinKey` is 0. -/
def maxKey : Nat := 2 ^ 64 - 1

/-- `Range.Length`. -/
def LockRange.length (r : LockRange) : Nat := r.stop - r.start

/-- `Range.Intersect`. -/
def LockRange.intersect (r r2 : LockRange) : LockRange :=
  let start := if r.start < r2.start then r2.start else r.start
  let stop := if r.stop > r2.stop then r2.stop else r.stop
  ⟨start, if stop < start then start else stop⟩

variable {UniqueID : Type} [DecidableEq UniqueID]

def makeLock (uid : UniqueID) : LockType → Lock UniqueID
  | .readLock => ⟨{uid}, none⟩
  | .writeLock => ⟨∅, some uid⟩

def Lock.isHeld (l : Lock UniqueID) (uid : UniqueID) : Bool :=
  l.writer == some uid || decide (uid ∈ l.readers)

/-- `Lock.lock`: a read lock drops `uid`'s write lock, a write lock replaces
`uid`'s read lock; either panics on another holder. -/
def Lock.lock (l : Lock UniqueID) (uid : UniqueID) : LockType → Option (Lock UniqueID)
  | .readLock =>
    if uid ∈ l.readers then some l
    else
      match l.writer with
      | some writer => if writer ≠ uid then none else some ⟨{uid}, none⟩
      | none => some ⟨insert uid l.readers, none⟩
  | .writeLock =>
    if l.writer = some uid then some l
    else if 0 < l.readers.card ∧ (l.readers.card ≠ 1 ∨ uid ∉ l.readers) then none
    else some ⟨∅, some uid⟩

/-- `Set.LowerBoundSegment(key)` and what follows it: the segments after
those that end at or before `key`. -/
def lowerBound (key : Nat) (segs : LockSet UniqueID) : LockSet UniqueID :=
  segs.dropWhile fun seg => decide (seg.stop ≤ key)

/-- The loop of `lockable` from the lower-bound segment of `r.Start`. -/
def lockableFrom (r : LockRange) (check : Lock UniqueID → Bool) : LockSet UniqueID → Bool
  | [] => true
  | seg :: rest => if seg.start < r.stop then check seg.value && lockableFrom r check rest else true

def lockable (segs : LockSet UniqueID) (r : LockRange) (check : Lock UniqueID → Bool) : Bool :=
  lockableFrom r check (lowerBound r.start segs)

def canLock (segs : LockSet UniqueID) (uid : UniqueID) : LockType → LockRange → Bool
  | .readLock, r =>
    lockable segs r fun value =>
      match value.writer with
      | none => true
      | some writer => writer == uid
  | .writeLock, r =>
    lockable segs r fun value =>
      match value.writer with
      | none => value.readers.card == 1 && decide (uid ∈ value.readers)
      | some writer => writer == uid

/-- `lockSetFunctions.Merge`: only locks with the same readers and writer
merge, into the first value. -/
def lockMerge (first second : Seg (Lock UniqueID)) : Option (Lock UniqueID) :=
  if first.value.readers.card ≠ second.value.readers.card then none
  else if ¬ first.value.readers ⊆ second.value.readers then none
  else if first.value.writer ≠ second.value.writer then none
  else some first.value

/-- `lockSetFunctions.Split`: both halves keep the lock, the second in a
copy of the readers map. -/
def lockSplit (seg : Seg (Lock UniqueID)) (_ : Nat) : Lock UniqueID × Lock UniqueID :=
  (seg.value, seg.value)

/-- `GapIterator.Range` of the gap between the nearest segment of `before`
and the first of `after`. -/
def gapRange (before after : LockSet UniqueID) : LockRange :=
  ⟨(before.head?.map (·.stop)).getD 0, (after.head?.map (·.start)).getD maxKey⟩

/-- The lock at `offset`: that of the segment containing it, and no holder
in a gap. -/
def lockAt (segs : LockSet UniqueID) (offset : Nat) : Lock UniqueID :=
  (lookup offset segs).getD ⟨∅, none⟩

/-- The loop of `LockSet.lock`. Every turn takes the segment it holds off
`after`, except a turn that splits it at `r.End`, after which the loop stops
at the second half: the fuel `lock` gives is never used up. -/
def lockLoop (uid : UniqueID) (t : LockType) (r : LockRange) :
    Nat → LockSet UniqueID → LockSet UniqueID → Option (LockSet UniqueID)
  | 0, before, after => some (before.reverse ++ after)
  | _ + 1, before, [] => some before.reverse
  | fuel + 1, before, seg :: after =>
    if seg.start < r.stop then
      -- Split the last one if necessary.
      let (seg, after) :=
        if seg.stop > r.stop then
          ((splitSeg lockSplit seg r.stop).1, (splitSeg lockSplit seg r.stop).2 :: after)
        else (seg, after)
      match seg.value.lock uid t with
      | none => none
      | some value =>
        let seg : Seg (Lock UniqueID) := ⟨seg.start, seg.stop, value⟩
        -- Fill the gap after `seg`; `Insert(...).NextSegment()` is the head
        -- of the second list `insert` returns.
        let gr := (gapRange [seg] after).intersect r
        if 0 < gr.length then
          let (before, after) := insert lockMerge (seg :: before) ⟨gr.start, gr.stop, makeLock uid t⟩ after
          lockLoop uid t r fuel before after
        else lockLoop uid t r fuel (seg :: before) after
    else some (before.reverse ++ seg :: after)

/-- `LockSet.lock`: whether `uid` took the lock, and the set after. -/
def LockSet.lock (segs : LockSet UniqueID) (uid : UniqueID) (t : LockType) (r : LockRange) :
    Option (Bool × LockSet UniqueID) :=
  if r.start > r.stop then none
  else if r.length = 0 then some (true, segs)
  else if !canLock segs uid t r then some (false, segs)
  else
    -- `Find(r.Start)`: the segments before `r.Start`, and the segment or
    -- gap holding it.
    let before := (segs.takeWhile fun seg => decide (seg.stop ≤ r.start)).reverse
    let after := lowerBound r.start segs
    let fill :=
      let gr := (gapRange before after).intersect r
      insert lockMerge before ⟨gr.start, gr.stop, makeLock uid t⟩ after
    let (before, after) :=
      match after with
      | seg :: later =>
        if seg.start ≤ r.start then
          if seg.start < r.start then
            ((splitSeg lockSplit seg r.start).1 :: before, (splitSeg lockSplit seg r.start).2 :: later)
          else (before, after)
        else fill
      | [] => fill
    (lockLoop uid t r (segs.length + 2) before after).map fun segs => (true, segs)

/-- A read lock on `[10, 20)` and then one on `[0, 30)` by the same holder:
the second fills the gap `[0, 10)`, which `Insert` merges with the segment
`[10, 20)` holding the same lock, and its `NextSegment` skips the gap
`[20, 30)`. The call reports success while offset 25 is left unlocked. -/
theorem lock_skips_gap_after_merge :
    LockSet.lock ([] : LockSet Nat) 1 .readLock ⟨10, 20⟩ = some (true, [⟨10, 20, ⟨{1}, none⟩⟩]) ∧
      LockSet.lock [⟨10, 20, ⟨{1}, none⟩⟩] 1 .readLock ⟨0, 30⟩ = some (true, [⟨0, 20, ⟨{1}, none⟩⟩]) ∧
      1 ∉ (lockAt [⟨0, 20, ⟨{1}, none⟩⟩] 25).readers := by
  decide

/-- The loop of `LockSet.unlock`. A turn that isolates its segment leaves
the part after `r.End` at the head of `after`, where the loop stops. -/
def unlockLoop (uid : UniqueID) (r : LockRange) :
    Nat → LockSet UniqueID → LockSet UniqueID → LockSet UniqueID
  | 0, before, after => before.reverse ++ after
  | _ + 1, before, [] => before.reverse
  | fuel + 1, before, seg :: after =>
    if seg.start < r.stop then
      if !seg.value.isHeld uid then unlockLoop uid r fuel (seg :: before) after
      else
        let (pre, seg, post) := isolate lockSplit seg r.start r.stop
        let before := pre.reverse ++ before
        let after := post ++ after
        let value := seg.value
        if value.writer = some uid then unlockLoop uid r fuel before after
        else if uid ∈ value.readers then
          -- The last reader takes the segment with it.
          if value.readers.card = 1 then unlockLoop uid r fuel before after
          else unlockLoop uid r fuel (⟨seg.start, seg.stop, ⟨value.readers.erase uid, none⟩⟩ :: before) after
        else unlockLoop uid r fuel (seg :: before) after
    else before.reverse ++ seg :: after

def LockSet.unlock (segs : LockSet UniqueID) (uid : UniqueID) (r : LockRange) : Option (LockSet UniqueID) :=
  if r.start > r.stop then none
  else if r.length = 0 then some segs
  else
    let before := (segs.takeWhile fun seg => decide (seg.stop ≤ r.start)).reverse
    some (unlockLoop uid r (segs.length + 1) before (lowerBound r.start segs))

end Cijitter.FileLock
