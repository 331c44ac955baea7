import Cijitter.Lib.SegmentList

/-! The gaps of a segment set read in key order. With `n` segments there are
`n + 1` gaps: gap `i` lies between segment `i - 1` and segment `i`, the
first starting at the set's least key and the last ending at its greatest.
A gap iterator is its index; `PrevLargeEnoughGap` is the scan back over the
gaps before it for the first one of at least a given length. Sorted
segments give ordered gaps, each disjoint from every segment. -/

set_option autoImplicit false

namespace SegmentList

variable {V : Type}

section Gaps

variable (minKey maxKey : Nat)

/-- `GapIterator.PrevSegment`. -/
def prevSegment (segs : List (Seg V)) (i : Nat) : Option (Seg V) :=
  if i = 0 then none else segs[i - 1]?

/-- `GapIterator.NextSegment`. -/
def nextSegment (segs : List (Seg V)) (i : Nat) : Option (Seg V) :=
  segs[i]?

/-- `GapIterator.Start`. -/
def gapStart (segs : List (Seg V)) (i : Nat) : Nat :=
  match prevSegment segs i with
  | some seg => seg.stop
  | none => minKey

/-- `GapIterator.End`. -/
def gapEnd (segs : List (Seg V)) (i : Nat) : Nat :=
  match nextSegment segs i with
  | some seg => seg.start
  | none => maxKey

/-- `GapIterator.Range().Length()`. -/
def gapLength (segs : List (Seg V)) (i : Nat) : Nat :=
  gapEnd maxKey segs i - gapStart minKey segs i

/-- `GapIterator.PrevLargeEnoughGap`: the last gap before gap `i` whose
length is at least `minSize`. -/
def prevLargeEnoughGap (segs : List (Seg V)) (minSize : Nat) : Nat → Option Nat
  | 0 => none
  | i + 1 => if minSize ≤ gapLength minKey maxKey segs i then some i else prevLargeEnoughGap segs minSize i

theorem prevLargeEnoughGap_spec (segs : List (Seg V)) (minSize : Nat) :
    ∀ i, (∀ j, prevLargeEnoughGap minKey maxKey segs minSize i = some j →
        j < i ∧ minSize ≤ gapLength minKey maxKey segs j ∧
          ∀ m, j < m → m < i → gapLength minKey maxKey segs m < minSize) ∧
      (prevLargeEnoughGap minKey maxKey segs minSize i = none → ∀ m < i, gapLength minKey maxKey segs m < minSize)
  | 0 => ⟨fun _ found => (by cases found), fun _ m below => absurd below (Nat.not_lt_zero m)⟩
  | i + 1 => by
      obtain ⟨someEarlier, noneEarlier⟩ := prevLargeEnoughGap_spec segs minSize i
      unfold prevLargeEnoughGap
      by_cases large : minSize ≤ gapLength minKey maxKey segs i
      · rw [if_pos large]
        refine ⟨fun j found => ?_, fun found => by cases found⟩
        obtain rfl := Option.some.inj found
        exact ⟨Nat.lt_succ_self _, large, fun m above below => absurd below (by omega)⟩
      · rw [if_neg large]
        refine ⟨fun j found => ?_, fun found m below => ?_⟩
        · obtain ⟨before, largeJ, skipped⟩ := someEarlier j found
          refine ⟨Nat.lt_succ_of_lt before, largeJ, fun m above below => ?_⟩
          rcases Nat.lt_succ_iff_lt_or_eq.mp below with earlier | rfl
          · exact skipped m above earlier
          · exact Nat.lt_of_not_le large
        · rcases Nat.lt_succ_iff_lt_or_eq.mp below with earlier | rfl
          · exact noneEarlier found m earlier
          · exact Nat.lt_of_not_le large

theorem prevLargeEnoughGap_lt {segs : List (Seg V)} {minSize i j : Nat}
    (found : prevLargeEnoughGap minKey maxKey segs minSize i = some j) : j < i :=
  ((prevLargeEnoughGap_spec minKey maxKey segs minSize i).1 j found).1

end Gaps

/-! ### Gaps of sorted segments -/

section Sorted

instance Sorted.decidable : ∀ segs : List (Seg V), Decidable (Sorted segs)
  | [] => isTrue trivial
  | [seg] => inferInstanceAs (Decidable (seg.start < seg.stop))
  | _ :: next :: rest =>
      @instDecidableAnd _ _ _ (@instDecidableAnd _ _ _ (Sorted.decidable (next :: rest)))

theorem Sorted.nonempty : ∀ {segs : List (Seg V)}, Sorted segs → ∀ {i : Nat} {seg : Seg V},
    segs[i]? = some seg → seg.start < seg.stop
  | [], _, _, _, found => by cases found
  | [only], sorted, i, seg, found => by
      cases i with
      | zero =>
          obtain rfl := Option.some.inj found
          exact sorted
      | succ i => cases found
  | first :: next :: rest, sorted, i, seg, found => by
      cases i with
      | zero =>
          obtain rfl := Option.some.inj found
          exact sorted.1
      | succ i => exact Sorted.nonempty sorted.2.2 found

theorem Sorted.stop_le_start : ∀ {segs : List (Seg V)}, Sorted segs → ∀ {i j : Nat} {first second : Seg V},
    i < j → segs[i]? = some first → segs[j]? = some second → first.stop ≤ second.start
  | [], _, _, _, _, _, _, found, _ => by cases found
  | [_], _, i, j, _, _, before, _, found => by
      cases j with
      | zero => exact absurd before (Nat.not_lt_zero i)
      | succ j => cases found
  | seg :: next :: rest, sorted, i, j, first, second, before, foundFirst, foundSecond => by
      cases i with
      | zero =>
          obtain rfl := Option.some.inj foundFirst
          cases j with
          | zero => exact absurd before (Nat.lt_irrefl 0)
          | succ j =>
              cases j with
              | zero =>
                  obtain rfl := Option.some.inj foundSecond
                  exact sorted.2.1
              | succ j =>
                  have nextFits : next.start < next.stop := Sorted.nonempty sorted.2.2 (i := 0) rfl
                  have later := Sorted.stop_le_start sorted.2.2 (i := 0) (Nat.zero_lt_succ j) rfl foundSecond
                  have := sorted.2.1
                  omega
      | succ i =>
          cases j with
          | zero => exact absurd before (Nat.not_lt_zero _)
          | succ j => exact Sorted.stop_le_start sorted.2.2 (Nat.lt_of_succ_lt_succ before) foundFirst foundSecond

variable {minKey maxKey : Nat} {segs : List (Seg V)}

/-- The keys of the segments lie between the set's least and greatest key. -/
def Bounded (minKey maxKey : Nat) (segs : List (Seg V)) : Prop :=
  ∀ seg ∈ segs, minKey ≤ seg.start ∧ seg.stop ≤ maxKey

theorem gapStart_le_gapEnd (sorted : Sorted segs) (bounded : Bounded minKey maxKey segs) (minMax : minKey ≤ maxKey)
    (i : Nat) : gapStart minKey segs i ≤ gapEnd maxKey segs i := by
  unfold gapStart gapEnd prevSegment nextSegment
  by_cases first : i = 0
  · rw [if_pos first]
    cases next : segs[i]? with
    | none => exact minMax
    | some seg => exact (bounded seg (List.mem_of_getElem? next)).1
  · rw [if_neg first]
    cases prev : segs[i - 1]? with
    | none =>
        cases next : segs[i]? with
        | none => exact minMax
        | some seg => exact (bounded seg (List.mem_of_getElem? next)).1
    | some before =>
        cases next : segs[i]? with
        | none => exact (bounded before (List.mem_of_getElem? prev)).2
        | some seg => exact sorted.stop_le_start (by omega) prev next

theorem gapEnd_le_gapStart (sorted : Sorted segs) {i j : Nat} (before : i < j) (inside : j ≤ segs.length) :
    gapEnd maxKey segs i ≤ gapStart minKey segs j := by
  have iInside : i < segs.length := by omega
  have jPrev : j - 1 < segs.length := by omega
  unfold gapStart gapEnd prevSegment nextSegment
  rw [if_neg (by omega), List.getElem?_eq_getElem iInside, List.getElem?_eq_getElem jPrev]
  dsimp only
  by_cases same : i = j - 1
  · subst same
    exact Nat.le_of_lt (sorted.nonempty (List.getElem?_eq_getElem iInside))
  · have := sorted.stop_le_start (show i < j - 1 by omega) (List.getElem?_eq_getElem iInside)
      (List.getElem?_eq_getElem jPrev)
    have := sorted.nonempty (List.getElem?_eq_getElem iInside)
    have := sorted.nonempty (List.getElem?_eq_getElem jPrev)
    omega

theorem disjoint_of_within_gap (sorted : Sorted segs) {i : Nat} (inside : i ≤ segs.length) {low high : Nat}
    (above : gapStart minKey segs i ≤ low) (below : high ≤ gapEnd maxKey segs i) :
    ∀ seg ∈ segs, high ≤ seg.start ∨ seg.stop ≤ low := by
  intro seg member
  obtain ⟨k, kInside, rfl⟩ := List.getElem_of_mem member
  by_cases later : i ≤ k
  · -- the segment starts at or after the gap's end
    left
    refine Nat.le_trans below ?_
    unfold gapEnd nextSegment
    rw [List.getElem?_eq_getElem (show i < segs.length by omega)]
    dsimp only
    by_cases same : i = k
    · subst same
      exact Nat.le_refl _
    · exact Nat.le_of_lt (Nat.lt_of_lt_of_le
        (sorted.nonempty (List.getElem?_eq_getElem (show i < segs.length by omega)))
        (sorted.stop_le_start (show i < k by omega) (List.getElem?_eq_getElem _) (List.getElem?_eq_getElem kInside)))
  · -- the segment ends at or before the gap's start
    right
    refine Nat.le_trans ?_ above
    unfold gapStart prevSegment
    rw [if_neg (by omega), List.getElem?_eq_getElem (show i - 1 < segs.length by omega)]
    dsimp only
    by_cases same : k = i - 1
    · subst same
      exact Nat.le_refl _
    · have := sorted.stop_le_start (show k < i - 1 by omega) (List.getElem?_eq_getElem kInside)
        (List.getElem?_eq_getElem (show i - 1 < segs.length by omega))
      have := sorted.nonempty (List.getElem?_eq_getElem (show i - 1 < segs.length by omega))
      omega

theorem gapEnd_length (segs : List (Seg V)) : gapEnd maxKey segs segs.length = maxKey := by
  simp [gapEnd, nextSegment]

theorem lastGapStart_le {key : Nat} (atLeast : minKey ≤ key) (all : ∀ seg ∈ segs, seg.stop ≤ key) :
    gapStart minKey segs segs.length ≤ key := by
  unfold gapStart prevSegment
  split
  · rename_i seg found
    split at found
    · cases found
    · exact all seg (List.mem_of_getElem? found)
  · exact atLeast

theorem stop_le_lastGapStart (sorted : Sorted segs) : ∀ seg ∈ segs, seg.stop ≤ gapStart minKey segs segs.length := by
  intro seg member
  obtain ⟨k, kInside, rfl⟩ := List.getElem_of_mem member
  unfold gapStart prevSegment
  rw [if_neg (by omega), List.getElem?_eq_getElem (show segs.length - 1 < segs.length by omega)]
  dsimp only
  by_cases same : k = segs.length - 1
  · subst same
    exact Nat.le_refl _
  · have := sorted.stop_le_start (show k < segs.length - 1 by omega) (List.getElem?_eq_getElem kInside)
      (List.getElem?_eq_getElem (show segs.length - 1 < segs.length by omega))
    have := sorted.nonempty (List.getElem?_eq_getElem (show segs.length - 1 < segs.length by omega))
    omega

end Sorted

end SegmentList
