import Cijitter.Fsutil.DirtySet

/-! What the dirty tracker means: each offset is clean, dirty, or kept
dirty, as the segment holding it says. Each operation on a range changes
the state of the offsets in the range by a function of their state, and
leaves the others; every operation keeps the set sorted. -/

set_option autoImplicit false

namespace Cijitter.Fsutil

open SegmentList

/-- The state of an offset. -/
inductive OffsetState
  | clean
  | dirty
  | keptDirty
  deriving DecidableEq, Repr

namespace OffsetState

/-- The state a segment value (or none) gives its offsets. -/
def ofInfo : Option DirtyInfo → OffsetState
  | none => .clean
  | some ⟨false⟩ => .dirty
  | some ⟨true⟩ => .keptDirty

/-- `MarkDirty` on one offset: dirty unless kept. -/
def markDirty : OffsetState → OffsetState
  | .keptDirty => .keptDirty
  | _ => .dirty

/-- `MarkClean` on one offset: a dirty offset becomes clean. -/
def markClean : OffsetState → OffsetState
  | .dirty => .clean
  | state => state

/-- `AllowClean` on one offset: a kept offset becomes dirty. -/
def allowClean : OffsetState → OffsetState
  | .keptDirty => .dirty
  | state => state

end OffsetState

/-- The state of offset `o` in `ds`. -/
def stateAt (ds : DirtySet) (o : Nat) : OffsetState :=
  .ofInfo (lookup o ds)

/-- `after` is `before` with the state of each offset of `mr` passed
through `change`, and every other offset as it was. -/
def Updates (before after : DirtySet) (mr : MappableRange) (change : OffsetState → OffsetState) : Prop :=
  ∀ o, stateAt after o = if mr.Contains o then change (stateAt before o) else stateAt before o

theorem dirtySplit_keeps : SplitKeeps dirtySplit id :=
  fun _ _ => ⟨rfl, rfl⟩

theorem dirtyMerge_keeps : MergeKeeps dirtyMerge id := by
  intro first second value merged
  unfold dirtyMerge at merged
  split at merged
  · cases merged
  · next same =>
    cases merged
    exact ⟨rfl, not_not.mp same⟩

theorem mergeRange_dirty {ds : DirtySet} (sorted : Sorted ds) (low high : Nat) :
    Sorted (mergeRange dirtyMerge low high ds) ∧ ∀ o, lookup o (mergeRange dirtyMerge low high ds) = lookup o ds := by
  obtain ⟨nonempty, ordered⟩ := (sorted_iff ds).mp sorted
  refine ⟨(sorted_iff _).mpr ⟨allNonempty_mergeRange low high ds nonempty, ordered_mergeRange low high ds ordered⟩,
    fun o => ?_⟩
  simpa using map_lookup_mergeRange dirtyMerge_keeps low high o ds nonempty

/-! ## Walks over a range -/

theorem removeRange_eq_walkRange (ds : DirtySet) {mr : MappableRange} (nonempty : mr.start < mr.stop) :
    removeRange ds mr = walkRange dirtySplit mr.start mr.stop (fun _ => some none) ds := by
  rw [removeRange, walkRange]
  cases found : segmentsFrom mr.start ds with
  | nil => simp [isolateWalk]
  | cons seg after =>
      dsimp only
      split
      · next holds => rw [isolateWalk, if_pos (by omega)]
      · rfl

section Walks

variable {ds : DirtySet} (sorted : Sorted ds) {mr : MappableRange} (nonempty : mr.start < mr.stop)
include sorted nonempty

theorem stateAt_walkRange {step : DirtyInfo → Option (Option DirtyInfo)} {change : OffsetState → OffsetState}
    (steps : ∀ info, OffsetState.ofInfo (stepped step info) = change (OffsetState.ofInfo info)) :
    Sorted (walkRange dirtySplit mr.start mr.stop step ds) ∧
      Updates ds (walkRange dirtySplit mr.start mr.stop step ds) mr change := by
  refine ⟨sorted_walkRange dirtySplit_keeps nonempty sorted, fun o => ?_⟩
  rw [stateAt, lookup_walkRange dirtySplit_keeps nonempty sorted o]
  by_cases inside : mr.Contains o
  · rw [if_pos inside, if_pos (show mr.start ≤ o ∧ o < mr.stop from inside), steps]
    rfl
  · rw [if_neg inside, if_neg (show ¬(mr.start ≤ o ∧ o < mr.stop) from inside)]
    rfl

theorem markClean_updates : Sorted (markClean ds mr) ∧ Updates ds (markClean ds mr) mr OffsetState.markClean :=
  stateAt_walkRange sorted nonempty fun info => by
    rcases info with _ | ⟨_ | _⟩ <;> rfl

theorem allowClean_updates : Sorted (allowClean ds mr) ∧ Updates ds (allowClean ds mr) mr OffsetState.allowClean := by
  let step : DirtyInfo → Option (Option DirtyInfo) := fun value => if value.keep then some (some ⟨false⟩) else none
  obtain ⟨walkedSorted, walked⟩ : Sorted (walkRange dirtySplit mr.start mr.stop step ds) ∧
      Updates ds (walkRange dirtySplit mr.start mr.stop step ds) mr OffsetState.allowClean :=
    stateAt_walkRange sorted nonempty fun info => by
      rcases info with _ | ⟨_ | _⟩ <;> rfl
  unfold allowClean
  dsimp only
  split
  · obtain ⟨mergedSorted, merged⟩ := mergeRange_dirty walkedSorted mr.start mr.stop
    exact ⟨mergedSorted, fun o => by rw [← walked o, stateAt, stateAt, merged]⟩
  · exact ⟨walkedSorted, walked⟩

theorem keepClean_updates : Sorted (keepClean ds mr) ∧ Updates ds (keepClean ds mr) mr fun _ => .clean := by
  rw [keepClean, removeRange_eq_walkRange ds nonempty]
  exact stateAt_walkRange sorted nonempty fun info => by
    rcases info with _ | ⟨_ | _⟩ <;> rfl

end Walks

/-! ## Marking offsets dirty -/

/-- What `setDirty` leaves at an offset of its range: a clean offset becomes
dirty, kept when `keep`, and a dirty one becomes kept when `keep`. -/
def dirtied (keep : Bool) : Option DirtyInfo → Option DirtyInfo
  | none => some ⟨keep⟩
  | some info => some ⟨keep || info.keep⟩

theorem dirtied_of_unchanged {keep : Bool} {info : DirtyInfo} (unchanged : (keep && !info.keep) = false) :
    dirtied keep (some info) = some info := by
  obtain ⟨kept⟩ := info
  cases keep <;> cases kept <;> simp_all [dirtied]

theorem ofInfo_dirtied_false (info : Option DirtyInfo) :
    OffsetState.ofInfo (dirtied false info) = (OffsetState.ofInfo info).markDirty := by
  rcases info with _ | ⟨_ | _⟩ <;> rfl

theorem ofInfo_dirtied_true (info : Option DirtyInfo) : OffsetState.ofInfo (dirtied true info) = .keptDirty := by
  rcases info with _ | ⟨_ | _⟩ <;> rfl

/-- The end of the last segment a loop has passed. -/
def frontier (before : DirtySet) : Nat := (before.head?.map (·.stop)).getD 0

/-- The end of the gap before `after`: its first segment's start, or `MaxKey`. -/
def gapEnd (after : DirtySet) : Nat := (after.head?.map (·.start)).getD maxKey

theorem atNonEmptyGap_eq (passed : Seg DirtyInfo) (after : DirtySet) :
    atNonEmptyGap passed after = decide (passed.stop < gapEnd after) := by
  unfold atNonEmptyGap gapEnd
  by_cases gap : passed.stop < (after.head?.map (·.start)).getD maxKey
  · rw [decide_eq_true gap, bne_iff_ne]
    omega
  · rw [decide_eq_false gap, Bool.eq_false_iff, ne_eq, bne_iff_ne, not_not]
    omega

section Frontier

variable {before after : DirtySet} (sorted : Sorted (before.reverse ++ after))
include sorted

theorem stop_le_frontier : ∀ s ∈ before, s.stop ≤ frontier before := by
  cases before with
  | nil => simp
  | cons last earlier =>
      intro s member
      rw [List.reverse_cons, List.append_assoc, sorted_append_iff] at sorted
      obtain ⟨_, lastSorted, across⟩ := sorted
      rcases List.mem_cons.mp member with rfl | earlierMember
      · exact Nat.le_refl _
      · have ordered := across s (List.mem_reverse.mpr earlierMember) last (by simp)
        have nonempty := (sorted_cons_iff.mp lastSorted).1
        show s.stop ≤ last.stop
        omega

theorem frontier_le_start : ∀ s ∈ after, frontier before ≤ s.start := by
  cases before with
  | nil => exact fun _ _ => Nat.zero_le _
  | cons last earlier =>
      intro s member
      rw [List.reverse_cons, List.append_assoc, sorted_append_iff] at sorted
      exact (sorted_cons_iff.mp sorted.2.1).2.1 s member

theorem lookup_passed_eq_none {o : Nat} (above : frontier before ≤ o) : lookup o before.reverse = none :=
  lookup_eq_none_iff.mpr fun s member inside => by
    have := stop_le_frontier sorted s (List.mem_reverse.mp member)
    simp only [Seg.Contains] at inside
    omega

theorem lookup_in_gap {o : Nat} (above : frontier before ≤ o) (inGap : o < gapEnd after) :
    lookup o (before.reverse ++ after) = none := by
  rw [lookup_append, lookup_passed_eq_none sorted above, Option.none_or]
  cases after with
  | nil => rfl
  | cons next rest =>
      have nextSorted := (sorted_append_iff.mp sorted).2.1
      exact lookup_eq_none_of_lt
        (show ∀ s ∈ next :: rest, next.start ≤ s.start from fun s member => by
          rcases List.mem_cons.mp member with rfl | later
          · exact Nat.le_refl _
          · have := (sorted_cons_iff.mp nextSorted).2.1 s later
            have := (sorted_cons_iff.mp nextSorted).1
            omega)
        inGap

end Frontier

theorem gapEnd_le_start {after : DirtySet} (sorted : Sorted after) : ∀ t ∈ after, gapEnd after ≤ t.start := by
  cases after with
  | nil => simp
  | cons next rest =>
      obtain ⟨nonempty, ordered, _⟩ := sorted_cons_iff.mp sorted
      intro t member
      rcases List.mem_cons.mp member with rfl | later
      · exact Nat.le_refl _
      · have := ordered t later
        show next.start ≤ t.start
        omega

theorem frontier_segmentsBefore_le (key : Nat) (segs : DirtySet) : frontier (segmentsBefore key segs) ≤ key := by
  cases found : segmentsBefore key segs with
  | nil => exact Nat.zero_le _
  | cons last earlier => exact stop_le_of_mem_segmentsBefore (found ▸ List.mem_cons_self)

theorem sorted_splice_isolatePieces {mr : MappableRange} (nonempty : mr.start < mr.stop) {first rest : DirtySet}
    {seg : Seg DirtyInfo} (sorted : Sorted (first ++ seg :: rest)) (meets : seg.start < mr.stop ∧ mr.start < seg.stop)
    (middle : Option DirtyInfo) : Sorted (first ++ (isolatePieces dirtySplit seg mr.start mr.stop middle ++ rest)) := by
  obtain ⟨segNonempty, -, -⟩ := sorted_cons_iff.mp (sorted_append_iff.mp sorted).2.1
  obtain ⟨piecesSorted, within⟩ := sorted_isolatePieces dirtySplit_keeps segNonempty meets nonempty middle
  rw [← List.append_assoc]
  exact sorted_splice_within sorted piecesSorted within

theorem lookup_splice_isolatePieces {mr : MappableRange} (nonempty : mr.start < mr.stop) {first rest : DirtySet} {seg : Seg DirtyInfo}
    (sorted : Sorted (first ++ seg :: rest)) (meets : seg.start < mr.stop ∧ mr.start < seg.stop)
    (middle : Option DirtyInfo) (o : Nat) :
    lookup o (first ++ (isolatePieces dirtySplit seg mr.start mr.stop middle ++ rest)) =
      if seg.Contains o ∧ mr.Contains o then middle else lookup o (first ++ seg :: rest) := by
  obtain ⟨-, segSorted, across⟩ := sorted_append_iff.mp sorted
  obtain ⟨-, restAfter, -⟩ := sorted_cons_iff.mp segSorted
  rw [lookup_append, lookup_isolatePieces dirtySplit_keeps meets nonempty middle
    (fun k inside => lookup_eq_none_of_lt restAfter inside.2) o, lookup_append, lookup_cons]
  by_cases inSeg : seg.Contains o
  · -- no segment before `seg` reaches into it
    have firstNone : lookup o first = none := lookup_eq_none_iff.mpr fun s member inside => by
      have := across s member seg List.mem_cons_self
      have := inside.2
      have := inSeg.1
      omega
    rw [firstNone, Option.none_or, Option.none_or, if_pos inSeg, if_pos inSeg]
    by_cases inRange : mr.Contains o
    · rw [if_pos (show mr.start ≤ o ∧ o < mr.stop from inRange), if_pos ⟨inSeg, inRange⟩]
    · rw [if_neg (show ¬(mr.start ≤ o ∧ o < mr.stop) from inRange), if_neg fun both => inRange both.2]
  · rw [if_neg inSeg, if_neg inSeg, if_neg fun both => inSeg both.1]

theorem sorted_fill {before after : DirtySet} {g : Seg DirtyInfo} (sorted : Sorted (before.reverse ++ after))
    (start : frontier before ≤ g.start) (nonempty : g.start < g.stop) (stop : g.stop ≤ gapEnd after) :
    Sorted (before.reverse ++ g :: after) := by
  obtain ⟨beforeSorted, afterSorted, across⟩ := sorted_append_iff.mp sorted
  refine sorted_append_iff.mpr ⟨beforeSorted, sorted_cons_iff.mpr ⟨nonempty, fun t later => ?_, afterSorted⟩,
    fun s passed t member => ?_⟩
  · have := gapEnd_le_start afterSorted t later
    omega
  · have := stop_le_frontier sorted s (List.mem_reverse.mp passed)
    rcases List.mem_cons.mp member with rfl | later
    · omega
    · exact across s passed t later

section SetDirty

variable (mr : MappableRange) (keep : Bool) (ds : DirtySet)

/-- What holds at each turn of the loop of `setDirty` on `ds`: the list the
loop holds is sorted, has the offsets of `mr` below the frontier dirtied
and every other offset as in `ds`; the loop stands on a segment reached
with no gap of `mr` skipped, on a non-empty gap that ends past `mr.Start`,
or past the last segment with `mr` behind it. -/
structure SetDirtyInvariant (atGap : Bool) (before after : DirtySet) : Prop where
  sorted : Sorted (before.reverse ++ after)
  reads : ∀ o, lookup o (before.reverse ++ after) =
    if mr.Contains o ∧ o < frontier before then dirtied keep (lookup o ds) else lookup o ds
  atSegment : atGap = false → ∀ seg rest, after = seg :: rest →
    (∀ k, frontier before ≤ k → k < seg.start → k < mr.start) ∧ mr.start < seg.stop
  atEnd : atGap = false → after = [] → mr.stop ≤ frontier before
  inGap : atGap = true → frontier before < gapEnd after ∧ mr.start < gapEnd after

/-- How much of the loop is left: two turns for each segment ahead that
starts in `mr`, and one for the gap it stands on. -/
def setDirtyMeasure (atGap : Bool) (before after : DirtySet) : Nat :=
  2 * after.countP (fun seg => decide (seg.start < mr.stop)) +
    if atGap = true ∧ frontier before < mr.stop then 1 else 0

variable {mr keep ds}

theorem setDirtyMeasure_le (mr : MappableRange) (atGap : Bool) (before after : DirtySet) :
    setDirtyMeasure mr atGap before after ≤ 2 * after.countP (fun seg => decide (seg.start < mr.stop)) + 1 := by
  unfold setDirtyMeasure
  split <;> omega

theorem SetDirtyInvariant.done {atGap : Bool} {before after : DirtySet}
    (inv : SetDirtyInvariant mr keep ds atGap before after) (covered : ∀ o, mr.Contains o → o < frontier before) :
    ∀ o, lookup o (before.reverse ++ after) = if mr.Contains o then dirtied keep (lookup o ds) else lookup o ds := by
  intro o
  rw [inv.reads o]
  by_cases inside : mr.Contains o
  · rw [if_pos ⟨inside, covered o inside⟩, if_pos inside]
  · rw [if_neg fun both => inside both.1, if_neg inside]

@[simp] theorem frontier_cons (seg : Seg DirtyInfo) (before : DirtySet) : frontier (seg :: before) = seg.stop := rfl

@[simp] theorem frontier_cons_append (seg : Seg DirtyInfo) (pre before : DirtySet) :
    frontier (seg :: pre ++ before) = seg.stop := rfl

theorem dirtied_true (info : Option DirtyInfo) : dirtied true info = some ⟨true⟩ := by
  rcases info with _ | ⟨_ | _⟩ <;> rfl

/-! The turns of the loop of `setDirty`, one equation each. -/

theorem setDirtyLoop_pass (fuel : Nat) (before rest : DirtySet) (seg : Seg DirtyInfo) (changed : Bool)
    (starts : seg.start < mr.stop) (unchanged : (keep && !seg.value.keep) = false) :
    setDirtyLoop mr keep (fuel + 1) false before (seg :: rest) changed =
      setDirtyLoop mr keep fuel (atNonEmptyGap seg rest) (seg :: before) rest changed := by
  show (if seg.start < mr.stop then (if (keep && !seg.value.keep) = true then _ else _) else _) = _
  rw [if_pos starts, if_neg (by rw [unchanged]; decide)]

theorem setDirtyLoop_keepSegment (fuel : Nat) (before rest : DirtySet) (seg : Seg DirtyInfo) (changed : Bool)
    {pre post : DirtySet} {mid : Seg DirtyInfo} (starts : seg.start < mr.stop)
    (changes : (keep && !seg.value.keep) = true) (pieces : isolate dirtySplit seg mr.start mr.stop = (pre, mid, post)) :
    setDirtyLoop mr keep (fuel + 1) false before (seg :: rest) changed =
      setDirtyLoop mr keep fuel (atNonEmptyGap ⟨mid.start, mid.stop, ⟨true⟩⟩ (post ++ rest))
        (⟨mid.start, mid.stop, ⟨true⟩⟩ :: pre.reverse ++ before) (post ++ rest) true := by
  show (if seg.start < mr.stop then (if (keep && !seg.value.keep) = true then _ else _) else _) = _
  rw [if_pos starts, if_pos changes, pieces]

theorem setDirtyLoop_beyond (fuel : Nat) (before rest : DirtySet) (seg : Seg DirtyInfo) (changed : Bool)
    (beyond : ¬seg.start < mr.stop) :
    setDirtyLoop mr keep (fuel + 1) false before (seg :: rest) changed = some (before.reverse ++ seg :: rest, changed) := by
  show (if seg.start < mr.stop then _ else _) = _
  rw [if_neg beyond]

theorem setDirtyLoop_fill (fuel : Nat) (before after earlier rest : DirtySet) (head : Seg DirtyInfo) (changed : Bool)
    (fits : max (frontier before) mr.start < min (gapEnd after) mr.stop) (starts : frontier before < mr.stop)
    (inserted : insert dirtyMerge before ⟨max (frontier before) mr.start, min (gapEnd after) mr.stop, ⟨keep⟩⟩ after =
      (head :: earlier, rest)) :
    setDirtyLoop mr keep (fuel + 1) true before after changed =
      setDirtyLoop mr keep fuel (atNonEmptyGap head rest) (head :: earlier) rest true := by
  have grStart : ((⟨frontier before, gapEnd after⟩ : MappableRange).intersect mr).start = max (frontier before) mr.start :=
    MappableRange.intersect_start _ _
  have grStop : ((⟨frontier before, gapEnd after⟩ : MappableRange).intersect mr).stop = min (gapEnd after) mr.stop := by
    rw [MappableRange.intersect_stop]
    exact Nat.max_eq_right (Nat.le_of_lt fits)
  have grLength : ((⟨frontier before, gapEnd after⟩ : MappableRange).intersect mr).length ≠ 0 := by
    rw [MappableRange.length, grStart, grStop]
    omega
  show (if frontier before < mr.stop then _ else _) = _
  rw [if_pos starts]
  show (if ((⟨frontier before, gapEnd after⟩ : MappableRange).intersect mr).length = 0 then none else _) = _
  -- the branch holds the gap as the source writes it, `frontier` and `gapEnd` unfolded
  erw [if_neg grLength, grStart, grStop, inserted]

theorem setDirtyLoop_past (fuel : Nat) (before after : DirtySet) (changed : Bool) (beyond : ¬frontier before < mr.stop) :
    setDirtyLoop mr keep (fuel + 1) true before after changed = some (before.reverse ++ after, changed) := by
  show (if frontier before < mr.stop then _ else _) = _
  rw [if_neg beyond]

variable (bounded : mr.stop ≤ maxKey)
include bounded

theorem SetDirtyInvariant.pass {before rest : DirtySet} {seg : Seg DirtyInfo}
    (inv : SetDirtyInvariant mr keep ds false before (seg :: rest)) (starts : seg.start < mr.stop)
    (unchanged : (keep && !seg.value.keep) = false) :
    SetDirtyInvariant mr keep ds (atNonEmptyGap seg rest) (seg :: before) rest ∧
      setDirtyMeasure mr (atNonEmptyGap seg rest) (seg :: before) rest <
        setDirtyMeasure mr false before (seg :: rest) := by
  obtain ⟨below, reaches⟩ := inv.atSegment rfl seg rest rfl
  have joined : (seg :: before).reverse ++ rest = before.reverse ++ seg :: rest := by simp
  obtain ⟨segNonempty, restAfter, restSorted⟩ := sorted_cons_iff.mp (sorted_append_iff.mp inv.sorted).2.1
  have segFrontier := frontier_le_start inv.sorted seg List.mem_cons_self
  refine ⟨⟨joined ▸ inv.sorted, fun o => ?_, fun notGap next later restEq => ?_, fun notGap restNil => ?_,
    fun gap => ?_⟩, ?_⟩
  · rw [joined, inv.reads o, frontier_cons]
    by_cases reached : mr.Contains o ∧ frontier before ≤ o ∧ o < seg.stop
    · -- the offset lies in `seg`, whose value setDirty leaves as it is
      obtain ⟨inside, above, within⟩ := reached
      have inSeg : seg.Contains o :=
        ⟨Nat.le_of_not_lt fun early => absurd inside.1 (Nat.not_le.mpr (below o above early)), within⟩
      have found : lookup o ds = some seg.value := by
        have same := inv.reads o
        rw [if_neg fun passed => absurd passed.2 (Nat.not_lt.mpr above), lookup_of_mem inv.sorted (by simp) inSeg]
          at same
        exact same.symm
      rw [if_neg fun passed => absurd passed.2 (Nat.not_lt.mpr above), if_pos ⟨inside, within⟩, found,
        dirtied_of_unchanged unchanged]
    · have same : (mr.Contains o ∧ o < frontier before) ↔ (mr.Contains o ∧ o < seg.stop) :=
        ⟨fun ⟨inside, passed⟩ => ⟨inside, by omega⟩,
          fun ⟨inside, within⟩ => ⟨inside, Nat.lt_of_not_le fun above => reached ⟨inside, above, within⟩⟩⟩
      simp only [same]
  · rw [restEq, atNonEmptyGap_eq, decide_eq_false_iff_not] at notGap
    have nextNonempty := (sorted_cons_iff.mp (restEq ▸ restSorted)).1
    have touching : next.start ≤ seg.stop := Nat.le_of_not_lt notGap
    have := restAfter next (by simp [restEq])
    exact ⟨fun k above early => by rw [frontier_cons] at above; omega, by omega⟩
  · rw [restNil, atNonEmptyGap_eq, decide_eq_false_iff_not] at notGap
    have ends : maxKey ≤ seg.stop := Nat.le_of_not_lt notGap
    show mr.stop ≤ seg.stop
    omega
  · rw [atNonEmptyGap_eq, decide_eq_true_iff] at gap
    exact ⟨gap, by omega⟩
  · unfold setDirtyMeasure
    rw [List.countP_cons_of_pos (by simpa using starts)]
    split <;> omega

theorem SetDirtyInvariant.keepSegment (nonempty : mr.start < mr.stop) {before rest pre post : DirtySet}
    {seg mid : Seg DirtyInfo} (inv : SetDirtyInvariant mr keep ds false before (seg :: rest))
    (starts : seg.start < mr.stop) (changes : (keep && !seg.value.keep) = true)
    (pieces : isolate dirtySplit seg mr.start mr.stop = (pre, mid, post)) :
    SetDirtyInvariant mr keep ds (atNonEmptyGap ⟨mid.start, mid.stop, ⟨true⟩⟩ (post ++ rest))
        (⟨mid.start, mid.stop, ⟨true⟩⟩ :: pre.reverse ++ before) (post ++ rest) ∧
      setDirtyMeasure mr (atNonEmptyGap ⟨mid.start, mid.stop, ⟨true⟩⟩ (post ++ rest))
          (⟨mid.start, mid.stop, ⟨true⟩⟩ :: pre.reverse ++ before) (post ++ rest) <
        setDirtyMeasure mr false before (seg :: rest) := by
  obtain ⟨below, reaches⟩ := inv.atSegment rfl seg rest rfl
  obtain ⟨segNonempty, restAfter, restSorted⟩ := sorted_cons_iff.mp (sorted_append_iff.mp inv.sorted).2.1
  have segFrontier := frontier_le_start inv.sorted seg List.mem_cons_self
  have keepTrue : keep = true := by
    cases keep
    · cases changes
    · rfl
  have meets : seg.start < mr.stop ∧ mr.start < seg.stop := ⟨starts, reaches⟩
  have spliced : (⟨mid.start, mid.stop, ⟨true⟩⟩ :: pre.reverse ++ before).reverse ++ (post ++ rest) =
      before.reverse ++ (isolatePieces dirtySplit seg mr.start mr.stop (some ⟨true⟩) ++ rest) := by
    rw [isolatePieces, pieces]
    simp
  -- the pieces, as `Isolate` cuts them
  have cut := pieces
  rw [isolate_eq dirtySplit_keeps meets nonempty, Prod.mk.injEq, Prod.mk.injEq] at cut
  obtain ⟨-, midEq, postEq⟩ := cut
  have midStop : mid.stop = min seg.stop mr.stop := by rw [← midEq]
  have sorted : Sorted ((⟨mid.start, mid.stop, ⟨true⟩⟩ :: pre.reverse ++ before).reverse ++ (post ++ rest)) :=
    spliced ▸ sorted_splice_isolatePieces nonempty inv.sorted meets _
  refine ⟨⟨sorted, fun o => ?_, fun notGap next later restEq => ?_, fun notGap restNil => ?_, fun gap => ?_⟩, ?_⟩
  · rw [spliced, lookup_splice_isolatePieces nonempty inv.sorted meets _ o, frontier_cons_append, midStop, inv.reads o]
    by_cases cut : seg.Contains o ∧ mr.Contains o
    · -- the part of `seg` in `mr` is now kept
      rw [if_pos cut, if_pos ⟨cut.2, Nat.lt_min.mpr ⟨cut.1.2, cut.2.2⟩⟩, keepTrue, dirtied_true]
    · -- elsewhere the offsets passed are the same as before
      have same : (mr.Contains o ∧ o < frontier before) ↔ (mr.Contains o ∧ o < min seg.stop mr.stop) := by
        constructor
        · rintro ⟨inside, passed⟩
          exact ⟨inside, Nat.lt_min.mpr ⟨by omega, inside.2⟩⟩
        · rintro ⟨inside, within⟩
          refine ⟨inside, Nat.lt_of_not_le fun above => ?_⟩
          have early : o < seg.start := Nat.lt_of_not_le fun late => cut ⟨⟨late, (Nat.lt_min.mp within).1⟩, inside⟩
          exact absurd inside.1 (Nat.not_le.mpr (below o above early))
      rw [if_neg cut]
      simp only [same]
  · -- the loop moves on to the segment right after the kept part
    rw [restEq, atNonEmptyGap_eq, decide_eq_false_iff_not] at notGap
    have touching : next.start ≤ mid.stop := Nat.le_of_not_lt notGap
    have nextAfter := frontier_le_start sorted next (by simp [restEq])
    have nextNonempty := ((sorted_iff _).mp sorted).1 next (by simp [restEq])
    simp only [frontier_cons_append] at nextAfter ⊢
    refine ⟨fun k above early => by omega, ?_⟩
    rw [midStop] at nextAfter
    omega
  · rw [restNil, atNonEmptyGap_eq, decide_eq_false_iff_not] at notGap
    have ends : maxKey ≤ mid.stop := Nat.le_of_not_lt notGap
    rw [frontier_cons_append, midStop]
    rw [midStop] at ends
    omega
  · rw [atNonEmptyGap_eq, decide_eq_true_iff] at gap
    refine ⟨gap, ?_⟩
    rw [midStop] at gap
    omega
  · -- the part past `mr` starts at its end, so no segment ahead is left in `mr`
    have postOut : post.countP (fun seg => decide (seg.start < mr.stop)) = 0 := by
      rw [← postEq]
      split <;> simp
    unfold setDirtyMeasure
    rw [List.countP_append, postOut, List.countP_cons_of_pos (by simpa using starts)]
    split <;> omega

theorem SetDirtyInvariant.fill (nonempty : mr.start < mr.stop) {before after earlier rest : DirtySet}
    {head : Seg DirtyInfo} (inv : SetDirtyInvariant mr keep ds true before after) (starts : frontier before < mr.stop)
    (inserted : insert dirtyMerge before ⟨max (frontier before) mr.start, min (gapEnd after) mr.stop, ⟨keep⟩⟩ after =
      (head :: earlier, rest)) :
    SetDirtyInvariant mr keep ds (atNonEmptyGap head rest) (head :: earlier) rest ∧
      setDirtyMeasure mr (atNonEmptyGap head rest) (head :: earlier) rest < setDirtyMeasure mr true before after := by
  obtain ⟨gapNonempty, reachesGap⟩ := inv.inGap rfl
  obtain ⟨g, gEq⟩ : ∃ g : Seg DirtyInfo, g = ⟨max (frontier before) mr.start, min (gapEnd after) mr.stop, ⟨keep⟩⟩ :=
    ⟨_, rfl⟩
  rw [← gEq] at inserted
  have gStart : g.start = max (frontier before) mr.start := by rw [gEq]
  have gStop : g.stop = min (gapEnd after) mr.stop := by rw [gEq]
  have gValue : g.value = ⟨keep⟩ := by rw [gEq]
  have gSorted : Sorted (before.reverse ++ g :: after) :=
    sorted_fill inv.sorted (by omega) (by omega) (by omega)
  obtain ⟨head', earlier', first, sorted, same, headValue, ends⟩ := insert_spec dirtyMerge_keeps gSorted
  simp only [inserted, List.cons.injEq] at first sorted same ends
  obtain ⟨rfl, rfl⟩ := first
  have afterSorted := (sorted_append_iff.mp inv.sorted).2.1
  -- the new segment ends where `g` does, or where the next one it merged with does
  have gStopLe : g.stop ≤ head.stop := by
    rcases ends with ⟨-, headStop⟩ | ⟨next, afterEq, headStop, -⟩
    · omega
    · have := gapEnd_le_start afterSorted next (by simp [afterEq])
      have := ((sorted_iff _).mp afterSorted).1 next (by simp [afterEq])
      omega
  refine ⟨⟨sorted, fun o => ?_, fun notGap next later restEq => ?_, fun notGap restNil => ?_, fun gap => ?_⟩, ?_⟩
  · have whole := inv.reads o
    rw [lookup_append] at whole
    rw [same o, lookup_append, lookup_cons, frontier_cons]
    by_cases hit : g.Contains o
    · -- the offset lies in the gap that `g` fills: `ds` has nothing there
      have above : frontier before ≤ o := by
        have := hit.1
        omega
      have dsNone : lookup o ds = none := by
        have inGap := lookup_in_gap inv.sorted above (by have := hit.2; omega)
        rwa [inv.reads o, if_neg fun passed => absurd passed.2 (Nat.not_lt.mpr above)] at inGap
      rw [lookup_passed_eq_none inv.sorted above, Option.none_or, if_pos hit,
        if_pos ⟨⟨by have := hit.1; omega, by have := hit.2; omega⟩, by have := hit.2; omega⟩, dsNone, gValue]
      rfl
    · rw [if_neg hit, whole]
      by_cases early : mr.Contains o ∧ o < frontier before
      · rw [if_pos early, if_pos ⟨early.1, by have := early.2; omega⟩]
      · rw [if_neg early]
        by_cases late : mr.Contains o ∧ o < head.stop
        · -- past `g` and before the end of the new segment: the segment `g` merged with
          rw [if_pos late]
          have above : frontier before ≤ o := Nat.le_of_not_lt fun passed => early ⟨late.1, passed⟩
          have past : g.stop ≤ o := by
            have := late.1.1
            by_contra within
            exact hit ⟨by omega, by omega⟩
          rcases ends with ⟨-, headStop⟩ | ⟨next, afterEq, headStop, nextValue⟩
          · have := late.2
            omega
          · have gapIsNext : gapEnd after = next.start := by
              rw [afterEq]
              rfl
            have inNext : next.Contains o := by
              have := late.1.2
              have := late.2
              exact ⟨by omega, by omega⟩
            have found : lookup o ds = some next.value := by
              have same := inv.reads o
              rw [if_neg early, lookup_of_mem inv.sorted (by simp [afterEq]) inNext] at same
              exact same.symm
            rw [found, nextValue, gValue]
            cases keep <;> rfl
        · rw [if_neg late]
  · rw [restEq, atNonEmptyGap_eq, decide_eq_false_iff_not] at notGap
    have touching : next.start ≤ head.stop := Nat.le_of_not_lt notGap
    have nextAfter := frontier_le_start sorted next (by simp [restEq])
    have nextNonempty := ((sorted_iff _).mp sorted).1 next (by simp [restEq])
    rw [frontier_cons] at nextAfter ⊢
    exact ⟨fun k above early => by omega, by omega⟩
  · rw [restNil, atNonEmptyGap_eq, decide_eq_false_iff_not] at notGap
    have ends : maxKey ≤ head.stop := Nat.le_of_not_lt notGap
    rw [frontier_cons]
    omega
  · rw [atNonEmptyGap_eq, decide_eq_true_iff] at gap
    exact ⟨gap, by omega⟩
  · unfold setDirtyMeasure
    rw [if_pos (show true = true ∧ frontier before < mr.stop from ⟨rfl, starts⟩), frontier_cons]
    rcases ends with ⟨restEq, headStop⟩ | ⟨next, afterEq, headStop, -⟩
    · -- no merge: the loop stands next on the segment after the gap, or past `mr`
      have noGap : ¬(atNonEmptyGap head rest = true ∧ head.stop < mr.stop) := by
        rintro ⟨gap, inside⟩
        rw [atNonEmptyGap_eq, decide_eq_true_iff, restEq] at gap
        omega
      rw [if_neg noGap, restEq]
      omega
    · have nextNonempty := ((sorted_iff _).mp afterSorted).1 next (by simp [afterEq])
      rw [afterEq]
      by_cases nextIn : next.start < mr.stop
      · rw [List.countP_cons_of_pos (by simpa using nextIn)]
        split <;> omega
      · have noGap : ¬(atNonEmptyGap head rest = true ∧ head.stop < mr.stop) := fun ⟨_, inside⟩ => by omega
        rw [if_neg noGap, List.countP_cons_of_neg (by simpa using nextIn)]
        omega

theorem setDirtyLoop_spec (nonempty : mr.start < mr.stop) : ∀ (fuel : Nat) (atGap : Bool) (before after : DirtySet)
    (changed : Bool), SetDirtyInvariant mr keep ds atGap before after → setDirtyMeasure mr atGap before after < fuel →
    ∃ result changedAny, setDirtyLoop mr keep fuel atGap before after changed = some (result, changedAny) ∧
      Sorted result ∧ ∀ o, lookup o result = if mr.Contains o then dirtied keep (lookup o ds) else lookup o ds
  | 0, _, _, _, _, _, bound => absurd bound (Nat.not_lt_zero _)
  | fuel + 1, false, before, [], changed, inv, _ => by
      refine ⟨before.reverse, changed, rfl, by simpa using inv.sorted, ?_⟩
      simpa using inv.done fun o inside => Nat.lt_of_lt_of_le inside.2 (inv.atEnd rfl rfl)
  | fuel + 1, false, before, seg :: rest, changed, inv, bound => by
      by_cases starts : seg.start < mr.stop
      · cases changes : (keep && !seg.value.keep) with
        | false =>
            obtain ⟨next, smaller⟩ := inv.pass bounded starts changes
            rw [setDirtyLoop_pass fuel before rest seg changed starts changes]
            exact setDirtyLoop_spec nonempty fuel _ _ _ _ next (by omega)
        | true =>
            rcases pieces : isolate dirtySplit seg mr.start mr.stop with ⟨pre, mid, post⟩
            obtain ⟨next, smaller⟩ := inv.keepSegment bounded nonempty starts changes pieces
            rw [setDirtyLoop_keepSegment fuel before rest seg changed starts changes pieces]
            exact setDirtyLoop_spec nonempty fuel _ _ _ _ next (by omega)
      · -- the loop stops on a segment past `mr`, with every offset of `mr` behind it
        rw [setDirtyLoop_beyond fuel before rest seg changed starts]
        refine ⟨_, changed, rfl, inv.sorted, inv.done fun o inside => Nat.lt_of_not_le fun above => ?_⟩
        have := (inv.atSegment rfl seg rest rfl).1 o above (by have := inside.2; omega)
        exact absurd inside.1 (by omega)
  | fuel + 1, true, before, after, changed, inv, bound => by
      by_cases starts : frontier before < mr.stop
      · obtain ⟨gapNonempty, reachesGap⟩ := inv.inGap rfl
        have fits : max (frontier before) mr.start < min (gapEnd after) mr.stop := by omega
        have gSorted : Sorted (before.reverse ++
            ⟨max (frontier before) mr.start, min (gapEnd after) mr.stop, ⟨keep⟩⟩ :: after) :=
          sorted_fill inv.sorted (Nat.le_max_left _ _) fits (Nat.min_le_left _ _)
        obtain ⟨head, earlier, first, -⟩ := insert_spec dirtyMerge_keeps gSorted
        rcases inserted : insert dirtyMerge before
          ⟨max (frontier before) mr.start, min (gapEnd after) mr.stop, ⟨keep⟩⟩ after with ⟨firstPart, rest⟩
        rw [inserted] at first
        dsimp only at first
        subst first
        obtain ⟨next, smaller⟩ := inv.fill bounded nonempty starts inserted
        rw [setDirtyLoop_fill fuel before after earlier rest head changed fits starts inserted]
        exact setDirtyLoop_spec nonempty fuel _ _ _ _ next (by omega)
      · rw [setDirtyLoop_past fuel before after changed starts]
        exact ⟨_, changed, rfl, inv.sorted, inv.done fun o inside => by have := inside.2; omega⟩

theorem setDirtyInvariant_start (sorted : Sorted ds) (nonempty : mr.start < mr.stop) {atGap : Bool}
    (atSegment : ∀ seg rest, segmentsFrom mr.start ds = seg :: rest → atGap = decide (mr.start < seg.start))
    (atEnd : segmentsFrom mr.start ds = [] → atGap = true) :
    SetDirtyInvariant mr keep ds atGap (segmentsBefore mr.start ds) (segmentsFrom mr.start ds) := by
  have whole := segmentsBefore_append_segmentsFrom mr.start ds
  have passed := frontier_segmentsBefore_le mr.start ds
  have reaches : ∀ seg ∈ segmentsFrom mr.start ds, mr.start < seg.stop := lt_stop_of_mem_segmentsFrom sorted
  refine ⟨by rw [whole]; exact sorted, fun o => ?_, fun notGap seg rest found => ?_, fun notGap found => ?_,
    fun gap => ?_⟩
  · rw [whole, if_neg fun early => absurd early.1.1 (by have := early.2; omega)]
  · -- `Find` stands on the segment that holds `mr.Start`
    rw [atSegment seg rest found] at notGap
    have holds : seg.start ≤ mr.start := by simpa using notGap
    exact ⟨fun k _ early => by omega, reaches seg (by simp [found])⟩
  · rw [atEnd found] at notGap
    cases notGap
  · -- or on the gap that holds it
    cases found : segmentsFrom mr.start ds with
    | nil =>
        show frontier _ < maxKey ∧ mr.start < maxKey
        omega
    | cons seg rest =>
        rw [atSegment seg rest found] at gap
        have early : mr.start < seg.start := by simpa using gap
        show frontier _ < seg.start ∧ mr.start < seg.start
        omega

theorem setDirty_spec (sorted : Sorted ds) (nonempty : mr.start < mr.stop) :
    ∃ result, setDirty ds mr keep = some result ∧ Sorted result ∧
      ∀ o, lookup o result = if mr.Contains o then dirtied keep (lookup o ds) else lookup o ds := by
  have finish : ∀ atGap : Bool,
      (∀ seg rest, segmentsFrom mr.start ds = seg :: rest → atGap = decide (mr.start < seg.start)) →
      (segmentsFrom mr.start ds = [] → atGap = true) →
      ∃ result, ((setDirtyLoop mr keep (2 * ds.length + 3) atGap (segmentsBefore mr.start ds)
          (segmentsFrom mr.start ds) false).map fun ran =>
            if ran.2 then mergeRange dirtyMerge mr.start mr.stop ran.1 else ran.1) = some result ∧
        Sorted result ∧ ∀ o, lookup o result = if mr.Contains o then dirtied keep (lookup o ds) else lookup o ds := by
    intro atGap atSegment atEnd
    have counted : (segmentsFrom mr.start ds).countP (fun seg => decide (seg.start < mr.stop)) ≤
        (segmentsFrom mr.start ds).length := List.countP_le_length
    have shorter : (segmentsFrom mr.start ds).length ≤ ds.length := (List.dropWhile_sublist _).length_le
    have := setDirtyMeasure_le mr atGap (segmentsBefore mr.start ds) (segmentsFrom mr.start ds)
    obtain ⟨result, changedAny, ran, resultSorted, reads⟩ :=
      setDirtyLoop_spec bounded nonempty (2 * ds.length + 3) _ _ _ false
        (setDirtyInvariant_start bounded sorted nonempty atSegment atEnd) (by omega)
    rw [ran, Option.map_some]
    cases changedAny with
    | false => exact ⟨result, rfl, resultSorted, reads⟩
    | true =>
        obtain ⟨mergedSorted, merged⟩ := mergeRange_dirty resultSorted mr.start mr.stop
        exact ⟨mergeRange dirtyMerge mr.start mr.stop result, rfl, mergedSorted, fun o => by rw [merged, reads]⟩
  unfold setDirty
  dsimp only
  split
  · next seg rest found =>
      exact finish _ (fun seg' rest' found' => by rw [found] at found'; cases found'; rfl)
        (fun found' => by rw [found] at found'; cases found')
  · next found => exact finish true (fun _ _ found' => by rw [found] at found'; cases found') fun _ => rfl

end SetDirty

section Dirty

variable {ds : DirtySet} (sorted : Sorted ds) {mr : MappableRange} (nonempty : mr.start < mr.stop)
  (bounded : mr.stop ≤ maxKey)
include sorted nonempty bounded

theorem markDirty_updates :
    ∃ result, markDirty ds mr = some result ∧ Sorted result ∧ Updates ds result mr OffsetState.markDirty := by
  obtain ⟨result, ran, resultSorted, reads⟩ := @setDirty_spec mr false ds bounded sorted nonempty
  refine ⟨result, ran, resultSorted, fun o => ?_⟩
  rw [stateAt, reads o]
  split
  · rw [ofInfo_dirtied_false]
    rfl
  · rfl

theorem keepDirty_updates :
    ∃ result, keepDirty ds mr = some result ∧ Sorted result ∧ Updates ds result mr fun _ => .keptDirty := by
  obtain ⟨result, ran, resultSorted, reads⟩ := @setDirty_spec mr true ds bounded sorted nonempty
  refine ⟨result, ran, resultSorted, fun o => ?_⟩
  rw [stateAt, reads o]
  split
  · exact ofInfo_dirtied_true _
  · rfl

end Dirty

end Cijitter.Fsutil
