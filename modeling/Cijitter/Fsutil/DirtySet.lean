import Cijitter.Lib.SegmentWalk

/-! The page-cache dirty tracker (`pkg/sentry/fs/fsutil/dirty_set.go`). A
`DirtySet` is a segment set over `memmap.Mappable` offsets whose value says
whether the offset is kept dirty; an offset in no segment is clean. The
segment set is its list of segments in key order, and a loop over it holds
the segments passed, nearest first, and those from its iterator on.
`SyncDirty` writes the dirty offsets back from a `FileRangeSet` cache,
whose values are the offsets in the backing file where each range starts.
`MapInternal` gives the bytes of a file range; here a byte is named by its
offset in the file. `writeAt` is a function of the bytes and the offset it
is given, and its calls are returned in order. Go panics (in `Insert`) and
its loops that never end are `none`. -/

set_option autoImplicit false

namespace Cijitter.Fsutil

open SegmentList

/-- `memmap.MappableRange`, the offsets `[Start, End)`. -/
structure MappableRange where
  start : Nat
  stop : Nat
  deriving DecidableEq, Repr

/-- `platform.FileRange`. -/
structure FileRange where
  start : Nat
  stop : Nat
  deriving DecidableEq, Repr

namespace MappableRange

/-- `Range.Length`. -/
def length (r : MappableRange) : Nat := r.stop - r.start

def Contains (r : MappableRange) (x : Nat) : Prop := r.start ≤ x ∧ x < r.stop

instance (r : MappableRange) (x : Nat) : Decidable (r.Contains x) :=
  inferInstanceAs (Decidable (_ ∧ _))

/-- `Range.Intersect`. -/
def intersect (r r2 : MappableRange) : MappableRange :=
  let start := if r.start < r2.start then r2.start else r.start
  let stop := if r.stop > r2.stop then r2.stop else r.stop
  ⟨start, if stop < start then start else stop⟩

@[simp] theorem intersect_start (r r2 : MappableRange) : (r.intersect r2).start = max r.start r2.start := by
  unfold intersect
  dsimp only
  split <;> omega

@[simp] theorem intersect_stop (r r2 : MappableRange) :
    (r.intersect r2).stop = max (max r.start r2.start) (min r.stop r2.stop) := by
  unfold intersect
  dsimp only
  split_ifs <;> omega

end MappableRange

/-- `DirtyInfo`: whether the offset is kept dirty (`Keep`). -/
structure DirtyInfo where
  keep : Bool
  deriving DecidableEq, Repr

abbrev DirtySet := List (Seg DirtyInfo)

/-- `FileRangeSet`: each segment's value is the file offset of its start. -/
abbrev FileRangeSet := List (Seg Nat)

/-- `dirtySetFunctions.MaxKey`, `math.MaxUint64`; `MinKey` is 0. -/
def maxKey : Nat := 2 ^ 64 - 1

/-- `dirtySetFunctions.Merge`: only equal values merge. -/
def dirtyMerge (first second : Seg DirtyInfo) : Option DirtyInfo :=
  if first.value ≠ second.value then none else some first.value

/-- `dirtySetFunctions.Split`: both halves keep the value. -/
def dirtySplit (seg : Seg DirtyInfo) (_ : Nat) : DirtyInfo × DirtyInfo :=
  (seg.value, seg.value)

/-- `Iterator.Range` of a segment. -/
def segRange {V : Type} (seg : Seg V) : MappableRange := ⟨seg.start, seg.stop⟩

theorem segRange_intersect {V : Type} {seg : Seg V} {r : MappableRange}
    (meets : max seg.start r.start ≤ min seg.stop r.stop) :
    (segRange seg).intersect r = ⟨max seg.start r.start, min seg.stop r.stop⟩ := by
  show MappableRange.mk ((segRange seg).intersect r).start ((segRange seg).intersect r).stop = _
  rw [MappableRange.mk.injEq, MappableRange.intersect_start, MappableRange.intersect_stop]
  simp only [segRange, true_and]
  omega

/-! ## Marking offsets clean -/

/-- `MarkClean`: every segment in `mr` that is not kept is isolated and
removed. -/
def markClean (ds : DirtySet) (mr : MappableRange) : DirtySet :=
  walkRange dirtySplit mr.start mr.stop (fun value => if value.keep then none else some none) ds

/-- `Set.RemoveRange`: the segment holding `mr.Start` is isolated and
removed, and then each one that starts before `mr.End`. -/
def removeRange (ds : DirtySet) (mr : MappableRange) : DirtySet :=
  match segmentsFrom mr.start ds with
  | seg :: after =>
    if seg.start ≤ mr.start then
      let (pre, _, post) := isolate dirtySplit seg mr.start mr.stop
      isolateWalk dirtySplit mr.start mr.stop (fun _ => some none) ds.length
        (pre.reverse ++ segmentsBefore mr.start ds) (post ++ after)
    else
      isolateWalk dirtySplit mr.start mr.stop (fun _ => some none) (ds.length + 1) (segmentsBefore mr.start ds)
        (seg :: after)
  | [] => (segmentsBefore mr.start ds).reverse

/-- `KeepClean`. -/
def keepClean (ds : DirtySet) (mr : MappableRange) : DirtySet :=
  removeRange ds mr

/-- Whether a loop over the segments from `LowerBoundSegment(mr.Start)`
that acts on the segments `acts` picks sets `changedAny`. -/
def changesAny (ds : DirtySet) (mr : MappableRange) (acts : DirtyInfo → Bool) : Bool :=
  ((segmentsFrom mr.start ds).takeWhile fun seg => decide (seg.start < mr.stop)).any fun seg => acts seg.value

/-- `AllowClean`: every kept segment in `mr` is isolated and made not kept;
the segments are merged again over `mr` when any was. -/
def allowClean (ds : DirtySet) (mr : MappableRange) : DirtySet :=
  let walked := walkRange dirtySplit mr.start mr.stop (fun value => if value.keep then some (some ⟨false⟩) else none) ds
  if changesAny ds mr (·.keep) then mergeRange dirtyMerge mr.start mr.stop walked else walked

/-! ## Marking offsets dirty -/

/-- `Iterator.NextNonEmpty` from the segment just passed, `passed`: whether
it lands on the gap after it, that gap not being empty, rather than on the
segment heading `after`. -/
def atNonEmptyGap (passed : Seg DirtyInfo) (after : DirtySet) : Bool :=
  ((after.head?.map (·.start)).getD maxKey) - passed.stop != 0

/-- The loop of `setDirty`. The iterator is the head of `after`, or the gap
before it when `atGap`. A segment in `mr` that is not kept is isolated and
kept when `keep`; a gap in `mr` gets a segment over its part in `mr`,
which `Insert` merges with equal neighbours. Each turn passes a segment or
a gap, so `2 * ds.length + 3` turns are enough. `Insert` panics on an empty
range: the part of the gap in `mr` lies inside the gap, so it overlaps no
neighbour. -/
def setDirtyLoop (mr : MappableRange) (keep : Bool) :
    Nat → Bool → DirtySet → DirtySet → Bool → Option (DirtySet × Bool)
  | 0, _, before, after, changed => some (before.reverse ++ after, changed)
  | _ + 1, false, before, [], changed => some (before.reverse, changed)
  | fuel + 1, false, before, seg :: after, changed =>
    if seg.start < mr.stop then
      if keep && !seg.value.keep then
        let (pre, mid, post) := isolate dirtySplit seg mr.start mr.stop
        let mid : Seg DirtyInfo := ⟨mid.start, mid.stop, ⟨true⟩⟩
        setDirtyLoop mr keep fuel (atNonEmptyGap mid (post ++ after)) (mid :: pre.reverse ++ before)
          (post ++ after) true
      else setDirtyLoop mr keep fuel (atNonEmptyGap seg after) (seg :: before) after changed
    else some (before.reverse ++ seg :: after, changed)
  | fuel + 1, true, before, after, changed =>
    let gap : MappableRange := ⟨(before.head?.map (·.stop)).getD 0, (after.head?.map (·.start)).getD maxKey⟩
    if gap.start < mr.stop then
      let gr := gap.intersect mr
      if gr.length = 0 then none
      else
        match insert dirtyMerge before ⟨gr.start, gr.stop, ⟨keep⟩⟩ after with
        | (seg :: before, after) => setDirtyLoop mr keep fuel (atNonEmptyGap seg after) (seg :: before) after true
        | ([], after) => some (after, true)
    else some (before.reverse ++ after, changed)

/-- `setDirty`: from `Find(mr.Start)`, the segment holding it or the gap
holding it; the segments are merged again over `mr` when any changed. -/
def setDirty (ds : DirtySet) (mr : MappableRange) (keep : Bool) : Option DirtySet :=
  let after := segmentsFrom mr.start ds
  let atGap := match after with
    | seg :: _ => decide (mr.start < seg.start)
    | [] => true
  (setDirtyLoop mr keep (2 * ds.length + 3) atGap (segmentsBefore mr.start ds) after false).map
    fun (ds, changedAny) => if changedAny then mergeRange dirtyMerge mr.start mr.stop ds else ds

/-- `MarkDirty`. -/
def markDirty (ds : DirtySet) (mr : MappableRange) : Option DirtySet :=
  setDirty ds mr false

/-- `KeepDirty`. -/
def keepDirty (ds : DirtySet) (mr : MappableRange) : Option DirtySet :=
  setDirty ds mr true

/-! ## Writing back -/

section Sync

variable {E : Type} (mapInternal : FileRange → Except E (List Nat)) (writeAt : List Nat → Nat → Except E Nat)

/-- The calls of `writeAt`: the bytes, named by their file offsets, and the
`Mappable` offset of the first. -/
abbrev Calls := List (List Nat × Nat)

/-- The inner loop of `syncDirtyRange`: `writeAt` until `ims` is empty,
dropping what each call wrote. A call that writes nothing without an error
is made again with the same bytes, and again: Go loops forever. -/
def writeAll (ims : List Nat) (offset : Nat) : Option (Calls × Except E Unit) :=
  if ims.isEmpty then some ([], .ok ())
  else
    match writeAt ims offset with
    | .error err => some ([(ims, offset)], .error err)
    | .ok n =>
      if n = 0 then none
      else (writeAll (ims.drop n) (offset + n)).map fun (calls, result) => ((ims, offset) :: calls, result)
termination_by ims.length
decreasing_by
  have : ims ≠ [] := by simpa using ‹¬ims.isEmpty = true›
  have := List.length_pos_of_ne_nil this
  rw [List.length_drop]
  omega

/-- `FileRangeIterator.FileRangeOf`. -/
def fileRangeOf (cseg : Seg Nat) (mr : MappableRange) : FileRange :=
  let frstart := cseg.value + (mr.start - cseg.start)
  ⟨frstart, frstart + mr.length⟩

/-- The loop of `syncDirtyRange` over the cache segments from
`LowerBoundSegment(mr.Start)`: each one's part in `mr`, cut at `max`, is
mapped and written at its offset; `break` past `max`. -/
def syncDirtyRangeLoop (mr : MappableRange) (max : Nat) : FileRangeSet → Option (Calls × Except E Unit)
  | [] => some ([], .ok ())
  | cseg :: rest =>
    if cseg.start < mr.stop then
      let wbr := (segRange cseg).intersect mr
      if max < wbr.start then some ([], .ok ())
      else
        match mapInternal (fileRangeOf cseg wbr) with
        | .error err => some ([], .error err)
        | .ok ims =>
          let ims := if max < wbr.stop then ims.take (max - wbr.start) else ims
          match writeAll writeAt ims wbr.start with
          | none => none
          | some (calls, .error err) => some (calls, .error err)
          | some (calls, .ok ()) =>
            (syncDirtyRangeLoop mr max rest).map fun (more, result) => (calls ++ more, result)
    else some ([], .ok ())

/-- `syncDirtyRange`. -/
def syncDirtyRange (mr : MappableRange) (cache : FileRangeSet) (max : Nat) : Option (Calls × Except E Unit) :=
  syncDirtyRangeLoop mapInternal writeAt mr max (segmentsFrom mr.start cache)

/-- The loop of `SyncDirty` over the dirty segments from
`LowerBoundSegment(mr.Start)`: a kept segment is written back over its part
in `mr` and stays; any other is isolated to `mr`, written back, and removed.
On an error the loop returns with the set as it is. -/
def syncDirtyLoop (mr : MappableRange) (cache : FileRangeSet) (max : Nat) :
    Nat → DirtySet → DirtySet → Bool → Option (DirtySet × Calls × Except E Unit × Bool)
  | 0, before, after, changed => some (before.reverse ++ after, [], .ok (), changed)
  | _ + 1, before, [], changed => some (before.reverse, [], .ok (), changed)
  | fuel + 1, before, dseg :: after, changed =>
    if dseg.start < mr.stop then
      if dseg.value.keep then
        match syncDirtyRange mapInternal writeAt ((segRange dseg).intersect mr) cache max with
        | none => none
        | some (calls, .error err) => some (before.reverse ++ dseg :: after, calls, .error err, changed)
        | some (calls, .ok ()) =>
          (syncDirtyLoop mr cache max fuel (dseg :: before) after changed).map
            fun (ds, more, result, changed) => (ds, calls ++ more, result, changed)
      else
        let (pre, mid, post) := isolate dirtySplit dseg mr.start mr.stop
        match syncDirtyRange mapInternal writeAt (segRange mid) cache max with
        | none => none
        | some (calls, .error err) => some ((mid :: pre.reverse ++ before).reverse ++ post ++ after, calls, .error err, true)
        | some (calls, .ok ()) =>
          (syncDirtyLoop mr cache max fuel (pre.reverse ++ before) (post ++ after) true).map
            fun (ds, more, result, changed) => (ds, calls ++ more, result, changed)
    else some (before.reverse ++ dseg :: after, [], .ok (), changed)

/-- `SyncDirty`: its error, the dirty set after, merged again over `mr` when
a segment was isolated, and the calls of `writeAt`. -/
def syncDirty (mr : MappableRange) (cache : FileRangeSet) (dirty : DirtySet) (max : Nat) :
    Option (Except E Unit × DirtySet × Calls) :=
  (syncDirtyLoop mapInternal writeAt mr cache max (dirty.length + 1) (segmentsBefore mr.start dirty)
      (segmentsFrom mr.start dirty) false).map
    fun (ds, calls, result, changedDirty) =>
      (result, if changedDirty then mergeRange dirtyMerge mr.start mr.stop ds else ds, calls)

/-- The loop of `SyncDirtyAll`: every segment is written back, and removed
unless kept. -/
def syncDirtyAllLoop (cache : FileRangeSet) (max : Nat) :
    DirtySet → DirtySet → Option (DirtySet × Calls × Except E Unit)
  | before, [] => some (before.reverse, [], .ok ())
  | before, dseg :: after =>
    match syncDirtyRange mapInternal writeAt (segRange dseg) cache max with
    | none => none
    | some (calls, .error err) => some (before.reverse ++ dseg :: after, calls, .error err)
    | some (calls, .ok ()) =>
      let before := if dseg.value.keep then dseg :: before else before
      (syncDirtyAllLoop cache max before after).map fun (ds, more, result) => (ds, calls ++ more, result)

/-- `SyncDirtyAll`: its error, the dirty set after, and the calls. -/
def syncDirtyAll (cache : FileRangeSet) (dirty : DirtySet) (max : Nat) :
    Option (Except E Unit × DirtySet × Calls) :=
  (syncDirtyAllLoop mapInternal writeAt cache max [] dirty).map fun (ds, calls, result) => (result, ds, calls)

end Sync

end Cijitter.Fsutil
