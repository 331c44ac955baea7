import Cijitter.Lib.SegmentAdd

/-! Walks over the segments of a range `[low, high)`, as the loops of the
segment-set clients write them: from `Set.LowerBoundSegment(low)` on, while
the segments start before `high`, each segment is kept as it is, or isolated
to the range and then removed or given a new value. For splits that copy the
value, what a walk leaves at a key inside the range is the old value there
passed through `stepped`, and outside the range the old value. -/

set_option autoImplicit false

namespace SegmentList

variable {V : Type}

/-- `Set.LowerBoundSegment(key)` and the segments after it. -/
def segmentsFrom (key : Nat) (segs : List (Seg V)) : List (Seg V) :=
  segs.dropWhile fun seg => decide (seg.stop ≤ key)

/-- The segments before `Set.LowerBoundSegment(key)`, nearest first. -/
def segmentsBefore (key : Nat) (segs : List (Seg V)) : List (Seg V) :=
  (segs.takeWhile fun seg => decide (seg.stop ≤ key)).reverse

section Walk

variable (split : Seg V → Nat → V × V) (low high : Nat) (step : V → Option (Option V))

/-- The loop of a walk over `[low, high)` from the segments `after`, with
those already passed in `before`, nearest first. `step` says what becomes of
a segment's value: `none` keeps the segment, `some none` isolates and removes
it, `some (some value)` isolates it and sets its value. A turn that isolates
leaves the part past `high` at the head of `after`, where the walk stops, so
`after.length + 1` turns are enough. -/
def isolateWalk : Nat → List (Seg V) → List (Seg V) → List (Seg V)
  | 0, before, after => before.reverse ++ after
  | _ + 1, before, [] => before.reverse
  | fuel + 1, before, seg :: after =>
    if seg.start < high then
      match step seg.value with
      | none => isolateWalk fuel (seg :: before) after
      | some update =>
        let (pre, mid, post) := isolate split seg low high
        match update with
        | none => isolateWalk fuel (pre.reverse ++ before) (post ++ after)
        | some value => isolateWalk fuel (⟨mid.start, mid.stop, value⟩ :: pre.reverse ++ before) (post ++ after)
    else before.reverse ++ seg :: after

/-- A walk over `[low, high)` from `Set.LowerBoundSegment(low)`. -/
def walkRange (segs : List (Seg V)) : List (Seg V) :=
  isolateWalk split low high step (segs.length + 1) (segmentsBefore low segs) (segmentsFrom low segs)

end Walk

/-- The pieces `Isolate` cuts from `seg`, with `middle` in place of the part
inside the range: what a turn of a walk that isolates leaves of `seg`. -/
def isolatePieces (split : Seg V → Nat → V × V) (seg : Seg V) (low high : Nat) (middle : Option V) :
    List (Seg V) :=
  (isolate split seg low high).1 ++
    ((middle.map fun value => ⟨(isolate split seg low high).2.1.start, (isolate split seg low high).2.1.stop, value⟩).toList ++
      (isolate split seg low high).2.2)

/-- Every segment of `inner` lies inside a segment of `outer`. -/
def WithinSegments (inner outer : List (Seg V)) : Prop :=
  ∀ s ∈ inner, ∃ t ∈ outer, t.start ≤ s.start ∧ s.stop ≤ t.stop

/-- The value a walk leaves at a key of its range. -/
def stepped (step : V → Option (Option V)) : Option V → Option V
  | none => none
  | some value => (step value).getD (some value)

/-! ## Sorted lists -/

theorem sorted_iff_pairwise (segs : List (Seg V)) :
    Sorted segs ↔ AllNonempty segs ∧ segs.Pairwise fun first second => first.stop ≤ second.start :=
  ⟨fun sorted => ⟨((sorted_iff segs).mp sorted).1, sorted.pairwise⟩,
    fun ⟨nonempty, pairwise⟩ => (sorted_iff segs).mpr ⟨nonempty, pairwise.isChain⟩⟩

theorem sorted_cons_iff {seg : Seg V} {rest : List (Seg V)} :
    Sorted (seg :: rest) ↔ seg.start < seg.stop ∧ (∀ later ∈ rest, seg.stop ≤ later.start) ∧ Sorted rest := by
  rw [sorted_iff_pairwise, sorted_iff_pairwise, allNonempty_cons, List.pairwise_cons]
  exact ⟨fun ⟨⟨nonempty, restNonempty⟩, before, restPairwise⟩ => ⟨nonempty, before, restNonempty, restPairwise⟩,
    fun ⟨nonempty, before, restNonempty, restPairwise⟩ => ⟨⟨nonempty, restNonempty⟩, before, restPairwise⟩⟩

theorem sorted_append_iff {first second : List (Seg V)} :
    Sorted (first ++ second) ↔
      Sorted first ∧ Sorted second ∧ ∀ s ∈ first, ∀ t ∈ second, s.stop ≤ t.start := by
  rw [sorted_iff_pairwise, sorted_iff_pairwise, sorted_iff_pairwise, allNonempty_append, List.pairwise_append]
  exact ⟨fun ⟨⟨firstNonempty, secondNonempty⟩, firstPairwise, secondPairwise, across⟩ =>
      ⟨⟨firstNonempty, firstPairwise⟩, ⟨secondNonempty, secondPairwise⟩, across⟩,
    fun ⟨⟨firstNonempty, firstPairwise⟩, ⟨secondNonempty, secondPairwise⟩, across⟩ =>
      ⟨⟨firstNonempty, secondNonempty⟩, firstPairwise, secondPairwise, across⟩⟩

theorem lookup_eq_none_iff {key : Nat} {segs : List (Seg V)} :
    lookup key segs = none ↔ ∀ seg ∈ segs, ¬seg.Contains key := by
  induction segs with
  | nil => simp
  | cons seg rest ih =>
      rw [lookup_cons]
      split
      · next inside =>
        exact ⟨fun found => (by cases found), fun outside => absurd inside (outside seg List.mem_cons_self)⟩
      · next outside => simpa [outside] using ih

theorem lookup_eq_none_of_lt {key bound : Nat} {segs : List (Seg V)} (after : ∀ s ∈ segs, bound ≤ s.start)
    (below : key < bound) : lookup key segs = none :=
  lookup_eq_none_iff.mpr fun s member inside => by
    have := after s member
    simp only [Seg.Contains] at inside
    omega

theorem lookup_of_mem {key : Nat} {segs : List (Seg V)} {seg : Seg V} (sorted : Sorted segs) (member : seg ∈ segs)
    (inside : seg.Contains key) : lookup key segs = some seg.value := by
  induction segs with
  | nil => cases member
  | cons first rest ih =>
      obtain ⟨_, ordered, sortedRest⟩ := sorted_cons_iff.mp sorted
      rw [lookup_cons]
      rcases List.mem_cons.mp member with rfl | later
      · rw [if_pos inside]
      · have firstOutside : ¬first.Contains key := by
          have := ordered seg later
          simp only [Seg.Contains] at inside ⊢
          omega
        rw [if_neg firstOutside]
        exact ih sortedRest later

/-! ## Isolating a segment -/

section Isolate

variable {split : Seg V → Nat → V × V}

theorem isolate_eq (keeps : SplitKeeps split id) {seg : Seg V} {low high : Nat}
    (meets : seg.start < high ∧ low < seg.stop) (range : low < high) :
    isolate split seg low high =
      ((if seg.start < low then [⟨seg.start, low, seg.value⟩] else []),
        ⟨max seg.start low, min seg.stop high, seg.value⟩,
        (if high < seg.stop then [⟨high, seg.stop, seg.value⟩] else [])) := by
  obtain ⟨first, second⟩ := keeps seg low
  simp only [id] at first second
  unfold isolate
  by_cases atLow : seg.start < low
  · have middle := keeps (splitSeg split seg low).2 high
    simp only [id, splitSeg, second] at middle
    rw [if_pos (show seg.CanSplitAt low from ⟨atLow, meets.2⟩), if_pos atLow]
    dsimp only
    by_cases atHigh : high < seg.stop
    · rw [if_pos (show (splitSeg split seg low).2.CanSplitAt high from ⟨by simp only [splitSeg]; omega, atHigh⟩),
        if_pos atHigh]
      simp only [splitSeg, first, second, middle, Prod.mk.injEq, Seg.mk.injEq, true_and, and_true]
      omega
    · rw [if_neg (show ¬(splitSeg split seg low).2.CanSplitAt high from fun inside => atHigh inside.2), if_neg atHigh]
      simp only [splitSeg, first, second, Prod.mk.injEq, Seg.mk.injEq, true_and, and_true]
      omega
  · rw [if_neg (show ¬seg.CanSplitAt low from fun inside => atLow inside.1), if_neg atLow]
    dsimp only
    by_cases atHigh : high < seg.stop
    · obtain ⟨highFirst, highSecond⟩ := keeps seg high
      simp only [id] at highFirst highSecond
      rw [if_pos (show seg.CanSplitAt high from ⟨meets.1, atHigh⟩), if_pos atHigh]
      simp only [splitSeg, highFirst, highSecond, Prod.mk.injEq, Seg.mk.injEq, true_and, and_true]
      omega
    · rw [if_neg (show ¬seg.CanSplitAt high from fun inside => atHigh inside.2), if_neg atHigh]
      have starts : max seg.start low = seg.start := by omega
      have stops : min seg.stop high = seg.stop := by omega
      rw [starts, stops]

end Isolate


theorem sorted_splice_within {first second pieces : List (Seg V)} {seg : Seg V}
    (sorted : Sorted (first ++ seg :: second)) (piecesSorted : Sorted pieces) (within : WithinSegments pieces [seg]) :
    Sorted (first ++ pieces ++ second) := by
  obtain ⟨firstSorted, segSorted, across⟩ := sorted_append_iff.mp sorted
  obtain ⟨nonempty, segBefore, secondSorted⟩ := sorted_cons_iff.mp segSorted
  have inside : ∀ s ∈ pieces, seg.start ≤ s.start ∧ s.stop ≤ seg.stop := fun s member => by
    obtain ⟨t, tMember, start, stop⟩ := within s member
    rw [List.mem_singleton.mp tMember] at start stop
    exact ⟨start, stop⟩
  rw [List.append_assoc]
  refine sorted_append_iff.mpr ⟨firstSorted, sorted_append_iff.mpr ⟨piecesSorted, secondSorted, fun s member t later => ?_⟩,
    fun s member t later => ?_⟩
  · have := (inside s member).2
    have := segBefore t later
    omega
  · have := across s member seg List.mem_cons_self
    rcases List.mem_append.mp later with piece | rest
    · have := (inside t piece).1
      omega
    · have := segBefore t rest
      omega

/-! ## Walks -/

section Walks

variable {split : Seg V → Nat → V × V} {low high : Nat} {step : V → Option (Option V)}

@[simp] theorem isolateWalk_zero (before after : List (Seg V)) :
    isolateWalk split low high step 0 before after = before.reverse ++ after := rfl

@[simp] theorem isolateWalk_nil (fuel : Nat) (before : List (Seg V)) :
    isolateWalk split low high step (fuel + 1) before [] = before.reverse := rfl

theorem isolateWalk_before : ∀ (fuel : Nat) (before after : List (Seg V)),
    isolateWalk split low high step fuel before after =
      before.reverse ++ isolateWalk split low high step fuel [] after
  | 0, before, after => by simp
  | fuel + 1, before, [] => by simp
  | fuel + 1, before, seg :: after => by
      show (if seg.start < high then _ else _) = before.reverse ++ (if seg.start < high then _ else _)
      by_cases start : seg.start < high
      · rw [if_pos start, if_pos start]
        cases step seg.value with
        | none =>
            rw [isolateWalk_before fuel (seg :: before) after, isolateWalk_before fuel [seg] after]
            simp
        | some update =>
            cases update with
            | none =>
                dsimp only
                rw [isolateWalk_before fuel _ _, isolateWalk_before fuel (_ ++ []) _]
                simp
            | some value =>
                dsimp only
                rw [isolateWalk_before fuel _ _, isolateWalk_before fuel (_ :: _ ++ []) _]
                simp
      · rw [if_neg start, if_neg start, List.reverse_nil, List.nil_append]

theorem isolateWalk_keep {seg : Seg V} (start : seg.start < high) (kept : step seg.value = none) (fuel : Nat)
    (rest : List (Seg V)) :
    isolateWalk split low high step (fuel + 1) [] (seg :: rest) = seg :: isolateWalk split low high step fuel [] rest := by
  show (if seg.start < high then _ else _) = _
  rw [if_pos start]
  simp only [kept]
  rw [isolateWalk_before, List.reverse_singleton, List.singleton_append]

theorem isolateWalk_stop {seg : Seg V} (beyond : ¬seg.start < high) (fuel : Nat) (rest : List (Seg V)) :
    isolateWalk split low high step (fuel + 1) [] (seg :: rest) = seg :: rest := by
  show (if seg.start < high then _ else _) = _
  rw [if_neg beyond, List.reverse_nil, List.nil_append]

theorem isolateWalk_isolate (keeps : SplitKeeps split id) (range : low < high) {seg : Seg V}
    (meets : seg.start < high ∧ low < seg.stop) {middle : Option V} (isolated : step seg.value = some middle)
    (fuel : Nat) (rest : List (Seg V)) :
    isolateWalk split low high step (fuel + 1) [] (seg :: rest) =
      isolatePieces split seg low high middle ++
        (if high < seg.stop then rest else isolateWalk split low high step fuel [] rest) := by
  -- the part past the range starts at `high`, where the walk stops
  have past : isolateWalk split low high step fuel [] ((isolate split seg low high).2.2 ++ rest) =
      (isolate split seg low high).2.2 ++ (if high < seg.stop then rest else isolateWalk split low high step fuel [] rest) := by
    rw [isolate_eq keeps meets range]
    by_cases beyond : high < seg.stop
    · cases fuel with
      | zero => simp [beyond]
      | succ fuel => simp [isolateWalk_stop, beyond]
    · simp [beyond]
  show (if seg.start < high then _ else _) = _
  rw [if_pos meets.1]
  simp only [isolated]
  cases middle with
  | none =>
      dsimp only
      rw [isolateWalk_before, past, List.append_nil, List.reverse_reverse, isolatePieces, Option.map_none,
        Option.toList_none, List.nil_append, List.append_assoc]
  | some value =>
      dsimp only
      rw [isolateWalk_before, past, List.append_nil, List.reverse_cons, List.reverse_reverse, isolatePieces,
        Option.map_some, Option.toList_some]
      simp only [List.append_assoc, List.cons_append]

theorem lookup_isolatePieces (keeps : SplitKeeps split id) {seg : Seg V} (meets : seg.start < high ∧ low < seg.stop)
    (range : low < high) (middle : Option V) {rest : List (Seg V)}
    (clear : ∀ k, seg.Contains k → lookup k rest = none) (key : Nat) :
    lookup key (isolatePieces split seg low high middle ++ rest) =
      if seg.Contains key then (if low ≤ key ∧ key < high then middle else some seg.value) else lookup key rest := by
  rw [isolatePieces, isolate_eq keeps meets range, List.append_assoc, List.append_assoc, lookup_append,
    lookup_append, lookup_append]
  -- what each piece holds at `key`
  have before : lookup key (if seg.start < low then [⟨seg.start, low, seg.value⟩] else []) =
      if seg.start ≤ key ∧ key < low then some seg.value else none := by
    by_cases cut : seg.start < low
    · rw [if_pos cut]
      rfl
    · rw [if_neg cut, lookup_nil, if_neg (by omega)]
  have after : lookup key (if high < seg.stop then [⟨high, seg.stop, seg.value⟩] else []) =
      if high ≤ key ∧ key < seg.stop then some seg.value else none := by
    by_cases cut : high < seg.stop
    · rw [if_pos cut]
      rfl
    · rw [if_neg cut, lookup_nil, if_neg (by omega)]
  have inside : lookup key (middle.map fun value => (⟨max seg.start low, min seg.stop high, value⟩ : Seg V)).toList =
      if max seg.start low ≤ key ∧ key < min seg.stop high then middle else none := by
    cases middle with
    | none => simp
    | some value => rfl
  dsimp only
  rw [before, after, inside]
  by_cases contains : seg.Contains key
  · have range' := contains
    simp only [Seg.Contains] at range'
    rw [if_pos contains]
    by_cases below : key < low
    · rw [if_pos ⟨range'.1, below⟩, if_neg (by omega : ¬(low ≤ key ∧ key < high))]
      rfl
    · by_cases above : high ≤ key
      · rw [if_neg (by omega), if_neg (by omega), if_pos ⟨above, range'.2⟩, if_neg (by omega)]
        rfl
      · rw [if_neg (by omega), if_pos (by omega), if_neg (by omega), if_pos (by omega), clear key contains]
        cases middle <;> rfl
  · simp only [Seg.Contains] at contains
    rw [if_neg (by omega), if_neg (by omega), if_neg (by omega), if_neg (by simpa [Seg.Contains] using contains)]
    rfl


theorem lookup_isolateWalk (keeps : SplitKeeps split id) (range : low < high) :
    ∀ (fuel : Nat) (after : List (Seg V)), after.length < fuel → Sorted after → (∀ s ∈ after, low < s.stop) →
      ∀ key, lookup key (isolateWalk split low high step fuel [] after) =
        if low ≤ key ∧ key < high then stepped step (lookup key after) else lookup key after
  | 0, _, enough, _, _ => absurd enough (Nat.not_lt_zero _)
  | fuel + 1, [], _, _, _ => by simp [stepped]
  | fuel + 1, seg :: rest, enough, sorted, ends => by
      obtain ⟨nonempty, ordered, sortedRest⟩ := sorted_cons_iff.mp sorted
      have restLength : rest.length < fuel := by simp only [List.length_cons] at enough; omega
      have tail := lookup_isolateWalk keeps range fuel rest restLength sortedRest
        fun s member => ends s (List.mem_cons_of_mem seg member)
      -- the segments after `seg` hold no key below its end
      have restBelow : ∀ {k}, k < seg.stop → lookup k rest = none := fun below => lookup_eq_none_of_lt ordered below
      intro key
      by_cases start : seg.start < high
      · cases stepEq : step seg.value with
        | none =>
            rw [isolateWalk_keep start stepEq, lookup_cons, lookup_cons, tail]
            by_cases inside : seg.Contains key
            · rw [if_pos inside, if_pos inside]
              split <;> simp [stepped, stepEq]
            · rw [if_neg inside, if_neg inside]
        | some middle =>
            have meets : seg.start < high ∧ low < seg.stop := ⟨start, ends seg List.mem_cons_self⟩
            have clear : ∀ k, seg.Contains k →
                lookup k (if high < seg.stop then rest else isolateWalk split low high step fuel [] rest) = none := by
              intro k inside
              have below : k < seg.stop := inside.2
              split
              · exact restBelow below
              · rw [tail k, restBelow below]
                split <;> rfl
            rw [isolateWalk_isolate keeps range meets stepEq, lookup_isolatePieces keeps meets range middle clear key,
              lookup_cons]
            by_cases inside : seg.Contains key
            · rw [if_pos inside, if_pos inside]
              simp [stepped, stepEq]
            · rw [if_neg inside, if_neg inside]
              split
              · next beyond =>
                -- keys of the range are all below the end of `seg`
                split
                · next inRange => rw [restBelow (by omega), stepped]
                · rfl
              · exact tail key
      · rw [isolateWalk_stop start]
        split
        · next inRange =>
          -- the range ends before `seg` starts, and so before every later segment
          have none : lookup key (seg :: rest) = none :=
            lookup_eq_none_of_lt
              (show ∀ s ∈ seg :: rest, seg.start ≤ s.start from fun s member => by
                rcases List.mem_cons.mp member with rfl | member
                · exact Nat.le_refl _
                · have := ordered s member
                  omega)
              (by omega)
          rw [none, stepped]
        · rfl

theorem sorted_isolatePieces (keeps : SplitKeeps split id) {seg : Seg V} (nonempty : seg.start < seg.stop)
    (meets : seg.start < high ∧ low < seg.stop) (range : low < high) (middle : Option V) :
    Sorted (isolatePieces split seg low high middle) ∧ WithinSegments (isolatePieces split seg low high middle) [seg] := by
  rw [isolatePieces, isolate_eq keeps meets range]
  -- the pieces: before the range, the middle if it stays, after the range
  have before : ∀ s ∈ (if seg.start < low then [(⟨seg.start, low, seg.value⟩ : Seg V)] else []),
      seg.start = s.start ∧ s.start < s.stop ∧ s.stop = low := by
    intro s member
    split at member
    · next cut => rw [List.mem_singleton.mp member]; exact ⟨rfl, cut, rfl⟩
    · cases member
  have inside : ∀ s ∈ (middle.map fun value => (⟨max seg.start low, min seg.stop high, value⟩ : Seg V)).toList,
      s.start = max seg.start low ∧ s.start < s.stop ∧ s.stop = min seg.stop high := by
    intro s member
    cases middle with
    | none => cases member
    | some value =>
        rw [Option.map_some, Option.toList_some, List.mem_singleton] at member
        rw [member]
        exact ⟨rfl, show max seg.start low < min seg.stop high by omega, rfl⟩
  have after : ∀ s ∈ (if high < seg.stop then [(⟨high, seg.stop, seg.value⟩ : Seg V)] else []),
      s.start = high ∧ s.start < s.stop ∧ s.stop = seg.stop := by
    intro s member
    split at member
    · next cut => rw [List.mem_singleton.mp member]; exact ⟨rfl, cut, rfl⟩
    · cases member
  -- a list of at most one non-empty segment is sorted
  have single : ∀ {pieces : List (Seg V)}, pieces.length ≤ 1 → (∀ s ∈ pieces, s.start < s.stop) → Sorted pieces := by
    intro pieces short nonempty
    match pieces, short with
    | [], _ => trivial
    | [s], _ => exact nonempty s List.mem_cons_self
  refine ⟨sorted_append_iff.mpr ⟨single ?_ fun s member => (before s member).2.1, sorted_append_iff.mpr
    ⟨single ?_ fun s member => (inside s member).2.1, single ?_ fun s member => (after s member).2.1, ?_⟩, ?_⟩, ?_⟩
  · split_ifs <;> simp
  · cases middle <;> simp
  · split_ifs <;> simp
  · intro s first t second
    have := (inside s first).2.2
    have := (after t second).1
    omega
  · intro s first t second
    have := (before s first).2.2
    rcases List.mem_append.mp second with second | second
    · have := (inside t second).1
      omega
    · have := (after t second).1
      omega
  · intro s member
    refine ⟨seg, List.mem_singleton_self seg, ?_⟩
    rcases List.mem_append.mp member with member | member
    · have := before s member
      omega
    · rcases List.mem_append.mp member with member | member
      · have := inside s member
        omega
      · have := after s member
        omega

theorem sorted_isolateWalk (keeps : SplitKeeps split id) (range : low < high) :
    ∀ (fuel : Nat) (after : List (Seg V)), Sorted after → (∀ s ∈ after, low < s.stop) →
      Sorted (isolateWalk split low high step fuel [] after) ∧
        WithinSegments (isolateWalk split low high step fuel [] after) after
  | 0, after, sorted, _ => by
      rw [isolateWalk_zero, List.reverse_nil, List.nil_append]
      exact ⟨sorted, fun s member => ⟨s, member, Nat.le_refl _, Nat.le_refl _⟩⟩
  | fuel + 1, [], _, _ => ⟨trivial, fun s member => by simp at member⟩
  | fuel + 1, seg :: rest, sorted, ends => by
      obtain ⟨nonempty, ordered, sortedRest⟩ := sorted_cons_iff.mp sorted
      obtain ⟨walkSorted, walkWithin⟩ := sorted_isolateWalk keeps range fuel rest sortedRest
        fun s member => ends s (List.mem_cons_of_mem seg member)
      -- what is left of `rest` starts after `seg` ends
      have restAfter : ∀ t ∈ rest, seg.stop ≤ t.start := ordered
      have walkAfter : ∀ t ∈ isolateWalk split low high step fuel [] rest, seg.stop ≤ t.start := by
        intro t member
        obtain ⟨u, inRest, inside, -⟩ := walkWithin t member
        have := ordered u inRest
        omega
      have withinRest : ∀ {inner : List (Seg V)}, WithinSegments inner rest → WithinSegments inner (seg :: rest) :=
        fun within s member => by
          obtain ⟨t, inRest, bounds⟩ := within s member
          exact ⟨t, List.mem_cons_of_mem seg inRest, bounds⟩
      by_cases start : seg.start < high
      · cases stepEq : step seg.value with
        | none =>
            rw [isolateWalk_keep start stepEq]
            refine ⟨sorted_cons_iff.mpr ⟨nonempty, walkAfter, walkSorted⟩, fun s member => ?_⟩
            rcases List.mem_cons.mp member with rfl | member
            · exact ⟨s, List.mem_cons_self, Nat.le_refl _, Nat.le_refl _⟩
            · exact withinRest walkWithin s member
        | some middle =>
            have meets : seg.start < high ∧ low < seg.stop := ⟨start, ends seg List.mem_cons_self⟩
            obtain ⟨piecesSorted, piecesWithin⟩ : Sorted (isolatePieces split seg low high middle) ∧
                WithinSegments (isolatePieces split seg low high middle) [seg] :=
              sorted_isolatePieces keeps nonempty meets range middle
            rw [isolateWalk_isolate keeps range meets stepEq]
            -- the pieces lie inside `seg`, before whatever follows
            have piecesBefore : ∀ s ∈ isolatePieces split seg low high middle, s.stop ≤ seg.stop := by
              intro s member
              obtain ⟨t, single, -, inside⟩ := piecesWithin s member
              rw [List.mem_singleton.mp single] at inside
              exact inside
            split
            · refine ⟨sorted_append_iff.mpr ⟨piecesSorted, sortedRest, fun s first t second => ?_⟩, fun s member => ?_⟩
              · have := piecesBefore s first
                have := restAfter t second
                omega
              · rcases List.mem_append.mp member with member | member
                · obtain ⟨t, single, bounds⟩ := piecesWithin s member
                  exact ⟨t, by rw [List.mem_singleton.mp single]; exact List.mem_cons_self, bounds⟩
                · exact ⟨s, List.mem_cons_of_mem seg member, Nat.le_refl _, Nat.le_refl _⟩
            · refine ⟨sorted_append_iff.mpr ⟨piecesSorted, walkSorted, fun s first t second => ?_⟩, fun s member => ?_⟩
              · have := piecesBefore s first
                have := walkAfter t second
                omega
              · rcases List.mem_append.mp member with member | member
                · obtain ⟨t, single, bounds⟩ := piecesWithin s member
                  exact ⟨t, by rw [List.mem_singleton.mp single]; exact List.mem_cons_self, bounds⟩
                · exact withinRest walkWithin s member
      · rw [isolateWalk_stop start]
        exact ⟨sorted, fun s member => ⟨s, member, Nat.le_refl _, Nat.le_refl _⟩⟩

end Walks

/-! ## Walks over a range -/

theorem segmentsBefore_append_segmentsFrom (key : Nat) (segs : List (Seg V)) :
    (segmentsBefore key segs).reverse ++ segmentsFrom key segs = segs := by
  rw [segmentsBefore, segmentsFrom, List.reverse_reverse]
  exact List.takeWhile_append_dropWhile

theorem stop_le_of_mem_segmentsBefore {key : Nat} {segs : List (Seg V)} {seg : Seg V}
    (member : seg ∈ segmentsBefore key segs) : seg.stop ≤ key := by
  rw [segmentsBefore, List.mem_reverse] at member
  simpa using List.mem_takeWhile_imp member

theorem lt_stop_of_mem_segmentsFrom {key : Nat} :
    ∀ {segs : List (Seg V)}, Sorted segs → ∀ seg ∈ segmentsFrom key segs, key < seg.stop
  | [], _, seg, member => by simp [segmentsFrom] at member
  | first :: rest, sorted, seg, member => by
      obtain ⟨nonempty, ordered, sortedRest⟩ := sorted_cons_iff.mp sorted
      simp only [segmentsFrom, List.dropWhile_cons, decide_eq_true_eq] at member
      split at member
      · exact lt_stop_of_mem_segmentsFrom sortedRest seg member
      · next kept =>
        rcases List.mem_cons.mp member with rfl | later
        · omega
        · have := ordered seg later
          have := ((sorted_iff_pairwise rest).mp sortedRest).1 seg later
          omega

theorem sorted_segmentsFrom {key : Nat} {segs : List (Seg V)} (sorted : Sorted segs) :
    Sorted (segmentsFrom key segs) := by
  rw [← segmentsBefore_append_segmentsFrom key segs] at sorted
  exact (sorted_append_iff.mp sorted).2.1

section WalkRange

variable {split : Seg V → Nat → V × V} {low high : Nat} {step : V → Option (Option V)} {segs : List (Seg V)}

theorem walkRange_eq : walkRange split low high step segs =
    (segmentsBefore low segs).reverse ++ isolateWalk split low high step (segs.length + 1) [] (segmentsFrom low segs) := by
  rw [walkRange, isolateWalk_before]

theorem lookup_walkRange (keeps : SplitKeeps split id) (range : low < high) (sorted : Sorted segs) (key : Nat) :
    lookup key (walkRange split low high step segs) =
      if low ≤ key ∧ key < high then stepped step (lookup key segs) else lookup key segs := by
  have enough : (segmentsFrom low segs).length < segs.length + 1 := by
    rw [segmentsFrom]
    exact Nat.lt_succ_of_le (List.length_dropWhile_le _ _)
  conv => rhs; rw [← segmentsBefore_append_segmentsFrom low segs]
  rw [walkRange_eq, lookup_append, lookup_append,
    lookup_isolateWalk keeps range _ _ enough (sorted_segmentsFrom sorted) (lt_stop_of_mem_segmentsFrom sorted) key]
  split
  · next inRange =>
    -- the segments before the lower bound end at or before `low`
    have before : lookup key (segmentsBefore low segs).reverse = none :=
      lookup_eq_none_iff.mpr fun s member inside => by
        have := stop_le_of_mem_segmentsBefore (List.mem_reverse.mp member)
        simp only [Seg.Contains] at inside
        omega
    rw [before]
    rfl
  · rfl

theorem sorted_walkRange (keeps : SplitKeeps split id) (range : low < high) (sorted : Sorted segs) :
    Sorted (walkRange split low high step segs) := by
  have whole := sorted
  rw [← segmentsBefore_append_segmentsFrom low segs] at whole
  obtain ⟨beforeSorted, _, across⟩ := sorted_append_iff.mp whole
  obtain ⟨walkSorted, walkWithin⟩ : Sorted (isolateWalk split low high step (segs.length + 1) [] (segmentsFrom low segs)) ∧
      WithinSegments (isolateWalk split low high step (segs.length + 1) [] (segmentsFrom low segs)) (segmentsFrom low segs) :=
    sorted_isolateWalk keeps range (segs.length + 1) (segmentsFrom low segs)
      (sorted_segmentsFrom sorted) (lt_stop_of_mem_segmentsFrom sorted)
  rw [walkRange_eq]
  refine sorted_append_iff.mpr ⟨beforeSorted, walkSorted, fun s first t second => ?_⟩
  obtain ⟨u, inAfter, inside, -⟩ := walkWithin t second
  have := across s first u inAfter
  omega

end WalkRange

/-! ## Inserting into a gap -/

section Insert

variable {merge : Seg V → Seg V → Option V}

theorem tryMerge_splice (keeps : MergeKeeps merge id) {pre post : List (Seg V)} {first second merged : Seg V}
    (merged_eq : tryMerge merge first second = some merged) (sorted : Sorted (pre ++ first :: second :: post)) :
    Sorted (pre ++ merged :: post) ∧
      (∀ key, lookup key (pre ++ merged :: post) = lookup key (pre ++ first :: second :: post)) ∧
      merged.stop = second.stop ∧ merged.value = first.value := by
  obtain ⟨_, _, stopEq, value⟩ := tryMerge_eq_some merged_eq
  obtain ⟨nonempty, ordered⟩ := (sorted_iff _).mp sorted
  rw [allNonempty_append, allNonempty_cons, allNonempty_cons] at nonempty
  obtain ⟨preNonempty, firstNonempty, secondNonempty, postNonempty⟩ := nonempty
  refine ⟨(sorted_iff _).mpr ⟨?_, ordered_tryMerge merged_eq ordered⟩, fun key => ?_, stopEq,
    (keeps first second merged.value value).1⟩
  · exact allNonempty_append.mpr ⟨preNonempty, allNonempty_cons.mpr
      ⟨tryMerge_nonempty firstNonempty secondNonempty merged_eq, postNonempty⟩⟩
  · have same := map_lookup_tryMerge keeps firstNonempty secondNonempty merged_eq key post
    simp only [Option.map_id, id_eq] at same
    rw [lookup_append, lookup_append, same]

private theorem insert_withNext_spec (keeps : MergeKeeps merge id) (earlier : List (Seg V)) (current : Seg V)
    (after : List (Seg V)) {result : List (Seg V) × List (Seg V)}
    (result_eq : result = match after with
      | next :: later =>
        match tryMerge merge current next with
        | some merged => (merged :: earlier, later)
        | none => (current :: earlier, after)
      | [] => (current :: earlier, []))
    (sorted : Sorted (earlier.reverse ++ current :: after)) :
    ∃ head, result.1 = head :: earlier ∧ Sorted ((head :: earlier).reverse ++ result.2) ∧
      (∀ key, lookup key ((head :: earlier).reverse ++ result.2) = lookup key (earlier.reverse ++ current :: after)) ∧
      head.value = current.value ∧
      ((result.2 = after ∧ head.stop = current.stop) ∨
        ∃ next, after = next :: result.2 ∧ head.stop = next.stop ∧ next.value = current.value) := by
  subst result_eq
  cases after with
  | nil => exact ⟨current, rfl, by simpa using sorted, fun key => by simp, rfl, .inl ⟨rfl, rfl⟩⟩
  | cons next later =>
      cases merged_eq : tryMerge merge current next with
      | none =>
          simp only [merged_eq]
          exact ⟨current, rfl, by simpa using sorted, fun key => by simp, rfl, .inl (by simp)⟩
      | some merged =>
          simp only [merged_eq]
          obtain ⟨mergedSorted, same, stopEq, value⟩ := tryMerge_splice keeps merged_eq sorted
          have nextValue : next.value = current.value := by
            rw [← value]
            exact ((keeps current next merged.value (tryMerge_eq_some merged_eq).2.2.2).2).symm
          refine ⟨merged, rfl, by simpa using mergedSorted, fun key => ?_, value, .inr ⟨next, rfl, stopEq, nextValue⟩⟩
          simpa using same key

theorem insert_spec (keeps : MergeKeeps merge id) {before after : List (Seg V)} {seg : Seg V}
    (sorted : Sorted (before.reverse ++ seg :: after)) :
    ∃ head earlier, (insert merge before seg after).1 = head :: earlier ∧
      Sorted ((head :: earlier).reverse ++ (insert merge before seg after).2) ∧
      (∀ key, lookup key ((head :: earlier).reverse ++ (insert merge before seg after).2) =
        lookup key (before.reverse ++ seg :: after)) ∧
      head.value = seg.value ∧
      (((insert merge before seg after).2 = after ∧ head.stop = seg.stop) ∨
        ∃ next, after = next :: (insert merge before seg after).2 ∧ head.stop = next.stop ∧
          next.value = seg.value) := by
  cases before with
  | nil =>
      obtain ⟨head, first, rest⟩ :=
        insert_withNext_spec keeps [] seg after (show insert merge [] seg after = _ from rfl) sorted
      exact ⟨head, [], first, rest⟩
  | cons prev earlier =>
      cases merged_eq : tryMerge merge prev seg with
      | none =>
          -- `insert` is unfolded in the goal, which the helper's statement
          -- then matches by definition
          simp only [insert, merged_eq]
          obtain ⟨head, first, rest⟩ := insert_withNext_spec keeps (prev :: earlier) seg after rfl sorted
          exact ⟨head, prev :: earlier, first, rest⟩
      | some merged =>
          -- the new segment first merges into the one before the gap
          obtain ⟨mergedSorted, same, stopEq, value⟩ :=
            tryMerge_splice keeps merged_eq (show Sorted (earlier.reverse ++ prev :: seg :: after) by simpa using sorted)
          simp only [insert, merged_eq]
          obtain ⟨head, first, headSorted, headSame, headValue, ends⟩ :=
            insert_withNext_spec keeps earlier merged after rfl mergedSorted
          have mergedValue : merged.value = seg.value := (keeps prev seg merged.value (tryMerge_eq_some merged_eq).2.2.2).2
          refine ⟨head, earlier, first, headSorted, fun key => ?_, ?_, ?_⟩
          · refine (headSame key).trans ?_
            rw [same key]
            simp
          · rw [headValue, mergedValue]
          · rw [stopEq, mergedValue] at ends
            exact ends

end Insert

end SegmentList
