import Cijitter.Lib.SegmentListProperties
import Mathlib

/-! `Set.Add` on sorted segment lists: `FindGap` finds the gap that holds the
start of the new segment, and `Insert` puts the segment there, merging it
with its neighbours. What a segment means at a key is given by a function
`read` of the segment and the key, so that a value that depends on the
position inside the segment (the start of a range it maps onto) is covered:
a merge that `read` cannot tell apart changes no key's reading, and `Add`
changes only the keys of the new segment. `Set.SpanRange` adds up how much
of a range the segments cover. -/

set_option autoImplicit false

namespace SegmentList

variable {V W : Type}

/-- `Set.FindSegment`: the segment containing `key`. -/
def findSegment (key : Nat) : List (Seg V) → Option (Seg V)
  | [] => none
  | seg :: rest => if seg.Contains key then some seg else findSegment key rest

/-- What the segment containing `key` reads at `key`. -/
def readAt (read : Seg V → Nat → W) (key : Nat) (segs : List (Seg V)) : Option W :=
  (findSegment key segs).map fun seg => read seg key

/-- `Set.FindGap(key)` with the end of the gap: the segments before the gap,
nearest first, and those after it; `none` when a segment holds `key`. The
last gap ends at `maxKey`. -/
def findGap (maxKey key : Nat) (segs : List (Seg V)) : Option (List (Seg V) × List (Seg V) × Nat) :=
  let before := (segs.takeWhile fun seg => decide (seg.stop ≤ key)).reverse
  match segs.dropWhile fun seg => decide (seg.stop ≤ key) with
  | next :: later => if next.start ≤ key then none else some (before, next :: later, next.start)
  | [] => some (before, [], maxKey)

/-- `Set.Add`: `none` where the source returns false, and on an empty range,
where it panics. -/
def add (merge : Seg V → Seg V → Option V) (maxKey : Nat) (segs : List (Seg V)) (seg : Seg V) :
    Option (List (Seg V)) :=
  if seg.stop ≤ seg.start then none
  else
    match findGap maxKey seg.start segs with
    | none => none
    | some (before, after, gapEnd) =>
      if seg.stop > gapEnd then none
      else
        let (first, second) := insert merge before seg after
        some (first.reverse ++ second)

/-- `Set.SpanRange` of `[low, high)`: from the first segment that ends after
`low`, while segments start before `high`, the length of each one's
intersection with the range (`Range.Intersect`, which clamps an empty
intersection to length zero). -/
def spanRange (low high : Nat) (segs : List (Seg V)) : Nat :=
  if high ≤ low then 0
  else
    (((segs.dropWhile fun seg => decide (seg.stop ≤ low)).takeWhile fun seg => decide (seg.start < high)).map
      fun seg => min seg.stop high - max seg.start low).sum

/-! ## Finding segments -/

@[simp] theorem findSegment_nil (key : Nat) : findSegment key ([] : List (Seg V)) = none := rfl

theorem findSegment_cons (key : Nat) (seg : Seg V) (rest : List (Seg V)) :
    findSegment key (seg :: rest) = if seg.Contains key then some seg else findSegment key rest := rfl

theorem findSegment_append (key : Nat) (first second : List (Seg V)) :
    findSegment key (first ++ second) = (findSegment key first).or (findSegment key second) := by
  induction first with
  | nil => rfl
  | cons seg rest ih =>
    rw [List.cons_append, findSegment_cons, findSegment_cons, ih]
    split <;> rfl

theorem findSegment_eq_none {key : Nat} {segs : List (Seg V)} :
    findSegment key segs = none ↔ ∀ seg ∈ segs, ¬seg.Contains key := by
  induction segs with
  | nil => simp
  | cons seg rest ih =>
    rw [findSegment_cons]
    split
    · next inside =>
      exact ⟨fun found => (by cases found), fun outside => absurd inside (outside seg List.mem_cons_self)⟩
    · next outside => simpa [outside] using ih

theorem findSegment_eq_some {key : Nat} {segs : List (Seg V)} {seg : Seg V}
    (found : findSegment key segs = some seg) : seg ∈ segs ∧ seg.Contains key := by
  induction segs with
  | nil => cases found
  | cons first rest ih =>
    rw [findSegment_cons] at found
    split at found
    · next inside =>
      cases found
      exact ⟨List.mem_cons_self, inside⟩
    · exact ⟨List.mem_cons_of_mem first (ih found).1, (ih found).2⟩

theorem readAt_append (read : Seg V → Nat → W) (key : Nat) (first second : List (Seg V)) :
    readAt read key (first ++ second) = (readAt read key first).or (readAt read key second) := by
  unfold readAt
  rw [findSegment_append]
  cases findSegment key first <;> rfl

theorem readAt_cons (read : Seg V → Nat → W) (key : Nat) (seg : Seg V) (rest : List (Seg V)) :
    readAt read key (seg :: rest) = if seg.Contains key then some (read seg key) else readAt read key rest := by
  unfold readAt
  rw [findSegment_cons]
  split <;> rfl

theorem readAt_eq_none {read : Seg V → Nat → W} {key : Nat} {segs : List (Seg V)} :
    readAt read key segs = none ↔ ∀ seg ∈ segs, ¬seg.Contains key := by
  rw [readAt, Option.map_eq_none_iff, findSegment_eq_none]

/-! ## Order -/

theorem Sorted.stop_le_of_mem {seg : Seg V} {rest : List (Seg V)} (sorted : Sorted (seg :: rest)) :
    ∀ later ∈ rest, seg.stop ≤ later.start := by
  induction rest generalizing seg with
  | nil => simp
  | cons next rest ih =>
    obtain ⟨_, before_next, sorted_rest⟩ := sorted
    have next_nonempty : next.start < next.stop := ((sorted_iff _).mp sorted_rest).1 next List.mem_cons_self
    intro later member
    rcases List.mem_cons.mp member with rfl | member
    · exact before_next
    · have := ih sorted_rest later member
      omega

theorem Sorted.pairwise {segs : List (Seg V)} (sorted : Sorted segs) :
    segs.Pairwise fun first second => first.stop ≤ second.start := by
  induction segs with
  | nil => exact List.Pairwise.nil
  | cons seg rest ih =>
    have sorted_rest : Sorted rest := by
      cases rest with
      | nil => trivial
      | cons next rest => exact sorted.2.2
    exact List.Pairwise.cons sorted.stop_le_of_mem (ih sorted_rest)

theorem findSegment_of_mem {key : Nat} {segs : List (Seg V)} {seg : Seg V} (sorted : Sorted segs)
    (member : seg ∈ segs) (inside : seg.Contains key) : findSegment key segs = some seg := by
  induction segs with
  | nil => cases member
  | cons first rest ih =>
    rw [findSegment_cons]
    rcases List.mem_cons.mp member with rfl | later
    · rw [if_pos inside]
    · have first_before := sorted.stop_le_of_mem seg later
      have first_outside : ¬first.Contains key := by
        simp only [Seg.Contains] at inside ⊢
        omega
      have sorted_rest : Sorted rest := by
        cases rest with
        | nil => trivial
        | cons next rest => exact sorted.2.2
      rw [if_neg first_outside]
      exact ih sorted_rest later

/-! ## Merging neighbours -/

section Merge

/-- A merge that `read` cannot tell apart and that keeps `good`: the merged
segment reads at each key of either part what that part reads there. -/
def MergeReads (merge : Seg V → Seg V → Option V) (read : Seg V → Nat → W) (good : Seg V → Prop) : Prop :=
  ∀ first second merged, good first → good second → tryMerge merge first second = some merged →
    good merged ∧ (∀ key, first.Contains key → read merged key = read first key) ∧
      ∀ key, second.Contains key → read merged key = read second key

variable {merge : Seg V → Seg V → Option V} {read : Seg V → Nat → W} {good : Seg V → Prop}

theorem readAt_tryMerge (reads : MergeReads merge read good) {first second merged : Seg V}
    (first_nonempty : first.start < first.stop) (second_nonempty : second.start < second.stop)
    (first_good : good first) (second_good : good second)
    (merged_eq : tryMerge merge first second = some merged) (key : Nat) (rest : List (Seg V)) :
    readAt read key (merged :: rest) = readAt read key (first :: second :: rest) := by
  obtain ⟨touching, start_eq, stop_eq, _⟩ := tryMerge_eq_some merged_eq
  obtain ⟨_, reads_first, reads_second⟩ := reads first second merged first_good second_good merged_eq
  rw [readAt_cons, readAt_cons, readAt_cons]
  by_cases in_first : first.Contains key
  · have in_merged : merged.Contains key := by
      simp only [Seg.Contains] at in_first ⊢
      omega
    rw [if_pos in_merged, if_pos in_first, reads_first key in_first]
  · rw [if_neg in_first]
    by_cases in_second : second.Contains key
    · have in_merged : merged.Contains key := by
        simp only [Seg.Contains] at in_second ⊢
        omega
      rw [if_pos in_merged, if_pos in_second, reads_second key in_second]
    · have not_merged : ¬merged.Contains key := by
        simp only [Seg.Contains] at in_first in_second ⊢
        omega
      rw [if_neg not_merged, if_neg in_second]

private theorem insert_withNext_invariant (P : List (Seg V) → Prop)
    (merge_step : ∀ pre first second post merged, tryMerge merge first second = some merged →
      P (pre ++ first :: second :: post) → P (pre ++ merged :: post))
    (earlier : List (Seg V)) (current : Seg V) (after : List (Seg V))
    (holds : P (earlier.reverse ++ current :: after)) :
    P ((match after with
        | next :: later =>
          match tryMerge merge current next with
          | some merged => (merged :: earlier, later)
          | none => (current :: earlier, after)
        | [] => (current :: earlier, [])).1.reverse ++
      (match after with
        | next :: later =>
          match tryMerge merge current next with
          | some merged => (merged :: earlier, later)
          | none => (current :: earlier, after)
        | [] => (current :: earlier, [])).2) := by
  cases after with
  | nil => simpa using holds
  | cons next later =>
    cases merged_eq : tryMerge merge current next with
    | none =>
      simp only [merged_eq]
      simpa using holds
    | some merged =>
      simp only [merged_eq]
      simpa using merge_step earlier.reverse current next later merged merged_eq holds

theorem insert_invariant (P : List (Seg V) → Prop)
    (merge_step : ∀ pre first second post merged, tryMerge merge first second = some merged →
      P (pre ++ first :: second :: post) → P (pre ++ merged :: post))
    (before : List (Seg V)) (seg : Seg V) (after : List (Seg V))
    (holds : P (before.reverse ++ seg :: after)) :
    P ((insert merge before seg after).1.reverse ++ (insert merge before seg after).2) := by
  cases before with
  | nil =>
    dsimp only [insert]
    exact insert_withNext_invariant P merge_step [] seg after holds
  | cons prev earlier =>
    dsimp only [insert]
    cases merged_eq : tryMerge merge prev seg with
    | none => exact insert_withNext_invariant P merge_step (prev :: earlier) seg after holds
    | some merged =>
      have merged_holds : P (earlier.reverse ++ merged :: after) :=
        merge_step earlier.reverse prev seg after merged merged_eq (by simpa using holds)
      exact insert_withNext_invariant P merge_step earlier merged after merged_holds

end Merge

/-! ## Adding a segment -/

theorem findGap_spec {maxKey key gapEnd : Nat} {segs before after : List (Seg V)}
    (found : findGap maxKey key segs = some (before, after, gapEnd)) :
    before.reverse ++ after = segs ∧ (∀ seg ∈ before, seg.stop ≤ key) ∧
      ((after = [] ∧ gapEnd = maxKey) ∨ ∃ next later, after = next :: later ∧ gapEnd = next.start ∧ key < next.start) := by
  have whole := List.takeWhile_append_dropWhile (p := fun seg : Seg V => decide (seg.stop ≤ key)) (l := segs)
  have ends_before : ∀ seg ∈ segs.takeWhile (fun seg : Seg V => decide (seg.stop ≤ key)), seg.stop ≤ key :=
    fun seg member => by simpa using List.mem_takeWhile_imp member
  unfold findGap at found
  split at found
  · next next later dropped =>
    split at found
    · cases found
    · next beyond =>
      simp only [Option.some.injEq, Prod.mk.injEq] at found
      obtain ⟨rfl, rfl, rfl⟩ := found
      rw [dropped] at whole
      exact ⟨by simpa using whole, fun seg member => ends_before seg (List.mem_reverse.mp member),
        .inr ⟨next, later, rfl, rfl, by omega⟩⟩
  · next dropped =>
    simp only [Option.some.injEq, Prod.mk.injEq] at found
    obtain ⟨rfl, rfl, rfl⟩ := found
    rw [dropped] at whole
    exact ⟨by simpa using whole, fun seg member => ends_before seg (List.mem_reverse.mp member), .inl ⟨rfl, rfl⟩⟩

section Add

variable {merge : Seg V → Seg V → Option V} {read : Seg V → Nat → W} {good : Seg V → Prop} {maxKey : Nat}

private theorem sorted_spliced {before after : List (Seg V)} {seg : Seg V}
    (sorted : Sorted (before.reverse ++ after)) (nonempty : seg.start < seg.stop)
    (ends_before : ∀ s ∈ before, s.stop ≤ seg.start) (starts_after : ∀ s ∈ after, seg.stop ≤ s.start) :
    Sorted (before.reverse ++ seg :: after) := by
  rw [sorted_iff] at sorted ⊢
  obtain ⟨nonempty_all, ordered⟩ := sorted
  rw [allNonempty_append] at nonempty_all
  unfold Ordered at ordered
  rw [List.isChain_append] at ordered
  refine ⟨allNonempty_append.mpr ⟨nonempty_all.1, allNonempty_cons.mpr ⟨nonempty, nonempty_all.2⟩⟩, ?_⟩
  unfold Ordered
  rw [List.isChain_append, List.isChain_cons]
  refine ⟨ordered.1, ⟨fun next next_eq => starts_after next (List.mem_of_mem_head? next_eq), ordered.2.1⟩, ?_⟩
  intro last last_eq first first_eq
  simp only [List.head?_cons, Option.mem_def, Option.some.injEq] at first_eq
  subst first_eq
  exact ends_before last (List.mem_reverse.mp (List.mem_of_mem_getLast? last_eq))

theorem add_spec (reads : MergeReads merge read good) {segs segs' : List (Seg V)} {seg : Seg V}
    (sorted : Sorted segs) (all_good : ∀ s ∈ segs, good s) (seg_good : good seg)
    (added : add merge maxKey segs seg = some segs') :
    (∀ key, seg.Contains key → findSegment key segs = none) ∧ Sorted segs' ∧ (∀ s ∈ segs', good s) ∧
      ∀ key, readAt read key segs' = if seg.Contains key then some (read seg key) else readAt read key segs := by
  unfold add at added
  split at added
  · cases added
  · next nonempty =>
    split at added
    · cases added
    · next before after gapEnd found =>
      split at added
      · cases added
      · next fits =>
        obtain ⟨whole, ends_before, gap⟩ := findGap_spec found
        subst whole
        -- the new segment ends before every segment after the gap starts
        have starts_after : ∀ s ∈ after, seg.stop ≤ s.start := by
          rcases gap with ⟨rfl, _⟩ | ⟨next, later, rfl, rfl, _⟩
          · simp
          · have sorted_after : Sorted (next :: later) := by
              rw [sorted_iff] at sorted ⊢
              exact ⟨(allNonempty_append.mp sorted.1).2, (List.isChain_append.mp sorted.2).2.1⟩
            have next_nonempty := ((sorted_iff _).mp sorted_after).1 next List.mem_cons_self
            intro s member
            rcases List.mem_cons.mp member with rfl | later_member
            · omega
            · have := sorted_after.stop_le_of_mem s later_member
              omega
        have free : ∀ key, seg.Contains key → ∀ s ∈ before.reverse ++ after, ¬s.Contains key := by
          intro key inside s member
          simp only [Seg.Contains] at inside ⊢
          rcases List.mem_append.mp member with member | member
          · have := ends_before s (List.mem_reverse.mp member)
            omega
          · have := starts_after s member
            omega
        have spliced := sorted_spliced sorted (Nat.lt_of_not_le nonempty) ends_before starts_after
        let P : List (Seg V) → Prop := fun segs =>
          AllNonempty segs ∧ Ordered segs ∧ (∀ s ∈ segs, good s) ∧
            ∀ key, readAt read key segs = readAt read key (before.reverse ++ seg :: after)
        have kept : P ((insert merge before seg after).1.reverse ++ (insert merge before seg after).2) := by
          refine insert_invariant P ?_ before seg after ⟨((sorted_iff _).mp spliced).1,
            ((sorted_iff _).mp spliced).2, ?_, fun _ => rfl⟩
          · intro pre first second post merged merged_eq holds
            obtain ⟨nonempty_all, ordered, goods, reading⟩ := holds
            rw [allNonempty_append, allNonempty_cons, allNonempty_cons] at nonempty_all
            have first_good := goods first (by simp)
            have second_good := goods second (by simp)
            obtain ⟨merged_good, _, _⟩ := reads first second merged first_good second_good merged_eq
            refine ⟨?_, ordered_tryMerge merged_eq ordered, ?_, fun key => ?_⟩
            · exact allNonempty_append.mpr ⟨nonempty_all.1, allNonempty_cons.mpr
                ⟨tryMerge_nonempty nonempty_all.2.1 nonempty_all.2.2.1 merged_eq, nonempty_all.2.2.2⟩⟩
            · intro s member
              rcases List.mem_append.mp member with member | member
              · exact goods s (List.mem_append_left _ member)
              · rcases List.mem_cons.mp member with rfl | member
                · exact merged_good
                · exact goods s (by simp [member])
            · rw [← reading key, readAt_append, readAt_append,
                readAt_tryMerge reads nonempty_all.2.1 nonempty_all.2.2.1 first_good second_good merged_eq]
          · intro s member
            rcases List.mem_append.mp member with member | member
            · exact all_good s (List.mem_append_left _ member)
            · rcases List.mem_cons.mp member with rfl | member
              · exact seg_good
              · exact all_good s (List.mem_append_right _ member)
        simp only [Option.some.injEq] at added
        rw [added] at kept
        obtain ⟨nonempty_all, ordered, goods, reading⟩ := kept
        refine ⟨fun key inside => findSegment_eq_none.mpr (free key inside),
          (sorted_iff _).mpr ⟨nonempty_all, ordered⟩, goods, fun key => ?_⟩
        rw [reading key, readAt_append, readAt_cons]
        by_cases inside : seg.Contains key
        · have before_none : readAt read key before.reverse = none :=
            readAt_eq_none.mpr fun s member => free key inside s (List.mem_append_left _ member)
          rw [if_pos inside, if_pos inside, before_none]
          rfl
        · rw [if_neg inside, if_neg inside, readAt_append]

end Add

end SegmentList
