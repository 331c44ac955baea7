import Cijitter.Lib.SegmentList
import Mathlib

/-! What splitting and merging keep. The value at a key is compared through
a projection `f`: a merge whose result agrees under `f` with both merged
values leaves `f` of the value at every key unchanged, and isolating a
segment changes nothing but the boundaries. Both keep the segments in order,
each ending at or before the next starts; `Sorted` is that order with every
segment non-empty. -/

set_option autoImplicit false

namespace SegmentList

variable {V W : Type}

def AllNonempty (segs : List (Seg V)) : Prop :=
  ∀ seg ∈ segs, seg.start < seg.stop

@[simp] theorem lookup_nil (key : Nat) : lookup key ([] : List (Seg V)) = none := rfl

theorem lookup_cons (key : Nat) (seg : Seg V) (rest : List (Seg V)) :
    lookup key (seg :: rest) = if seg.Contains key then some seg.value else lookup key rest := rfl

theorem lookup_append (key : Nat) (first second : List (Seg V)) :
    lookup key (first ++ second) = (lookup key first).or (lookup key second) := by
  induction first with
  | nil => rfl
  | cons seg rest ih =>
    rw [List.cons_append, lookup_cons, lookup_cons, ih]
    split <;> rfl

theorem span_split {α : Type} (p : α → Bool) (items : List α) :
    ∃ before after, items.span p = (before, after) ∧ before ++ after = items := by
  refine ⟨(items.span p).1, (items.span p).2, rfl, ?_⟩
  rw [List.span_eq_takeWhile_dropWhile]
  exact List.takeWhile_append_dropWhile

theorem allNonempty_cons {seg : Seg V} {rest : List (Seg V)} :
    AllNonempty (seg :: rest) ↔ seg.start < seg.stop ∧ AllNonempty rest := by
  simp [AllNonempty]

theorem allNonempty_append {first second : List (Seg V)} :
    AllNonempty (first ++ second) ↔ AllNonempty first ∧ AllNonempty second := by
  simp only [AllNonempty, List.mem_append]
  exact ⟨fun all => ⟨fun seg member => all seg (.inl member), fun seg member => all seg (.inr member)⟩,
    fun ⟨left, right⟩ seg member => member.elim (left seg) (right seg)⟩

section Merge

variable (merge : Seg V → Seg V → Option V) (f : V → W)

/-- A successful merge agrees under `f` with both merged values. -/
def MergeKeeps : Prop :=
  ∀ first second value, merge first second = some value →
    f value = f first.value ∧ f value = f second.value

variable {merge f}

theorem tryMerge_eq_some {first second merged : Seg V}
    (merged_eq : tryMerge merge first second = some merged) :
    first.stop = second.start ∧ merged.start = first.start ∧ merged.stop = second.stop ∧
      merge first second = some merged.value := by
  unfold tryMerge at merged_eq
  split at merged_eq
  · next touching =>
    cases result : merge first second with
    | none => simp [result] at merged_eq
    | some value =>
      simp only [result, Option.map_some, Option.some.injEq] at merged_eq
      subst merged_eq
      exact ⟨touching, rfl, rfl, rfl⟩
  · cases merged_eq

theorem map_lookup_tryMerge (keeps : MergeKeeps merge f) {first second merged : Seg V}
    (first_nonempty : first.start < first.stop) (second_nonempty : second.start < second.stop)
    (merged_eq : tryMerge merge first second = some merged) (key : Nat) (rest : List (Seg V)) :
    (lookup key (merged :: rest)).map f = (lookup key (first :: second :: rest)).map f := by
  obtain ⟨touching, start_eq, stop_eq, merged_value⟩ := tryMerge_eq_some merged_eq
  obtain ⟨same_first, same_second⟩ := keeps first second merged.value merged_value
  rw [lookup_cons, lookup_cons, lookup_cons]
  by_cases in_first : first.Contains key
  · have in_merged : merged.Contains key := by
      simp only [Seg.Contains] at in_first ⊢
      omega
    rw [if_pos in_merged, if_pos in_first]
    simp [same_first]
  · rw [if_neg in_first]
    by_cases in_second : second.Contains key
    · have in_merged : merged.Contains key := by
        simp only [Seg.Contains] at in_second ⊢
        omega
      rw [if_pos in_merged, if_pos in_second]
      simp [same_second]
    · have not_merged : ¬merged.Contains key := by
        simp only [Seg.Contains] at in_first in_second ⊢
        omega
      rw [if_neg not_merged, if_neg in_second]

theorem tryMerge_nonempty {first second merged : Seg V}
    (first_nonempty : first.start < first.stop) (second_nonempty : second.start < second.stop)
    (merged_eq : tryMerge merge first second = some merged) : merged.start < merged.stop := by
  obtain ⟨touching, start_eq, stop_eq, _⟩ := tryMerge_eq_some merged_eq
  omega

theorem map_lookup_mergeFrom (keeps : MergeKeeps merge f) (high : Nat) (key : Nat) :
    ∀ (current : Seg V) (rest : List (Seg V)), AllNonempty (current :: rest) →
      (lookup key (mergeFrom merge high current rest)).map f =
        (lookup key (current :: rest)).map f := by
  intro current rest
  induction rest generalizing current with
  | nil => intro _; rfl
  | cons next rest ih =>
    intro nonempty
    obtain ⟨current_nonempty, next_nonempty, rest_nonempty⟩ :
        current.start < current.stop ∧ next.start < next.stop ∧ AllNonempty rest := by
      simp only [allNonempty_cons] at nonempty
      exact ⟨nonempty.1, nonempty.2.1, nonempty.2.2⟩
    unfold mergeFrom
    split
    · split
      · next merged merged_eq =>
        have merged_nonempty := tryMerge_nonempty current_nonempty next_nonempty merged_eq
        rw [ih merged (allNonempty_cons.mpr ⟨merged_nonempty, rest_nonempty⟩)]
        exact map_lookup_tryMerge keeps current_nonempty next_nonempty merged_eq key rest
      · rw [lookup_cons key current, lookup_cons key current]
        split
        · rfl
        · exact ih next (allNonempty_cons.mpr ⟨next_nonempty, rest_nonempty⟩)
    · rfl

theorem allNonempty_mergeFrom (high : Nat) :
    ∀ (current : Seg V) (rest : List (Seg V)), AllNonempty (current :: rest) →
      AllNonempty (mergeFrom merge high current rest) := by
  intro current rest
  induction rest generalizing current with
  | nil => exact id
  | cons next rest ih =>
    intro nonempty
    obtain ⟨current_nonempty, next_nonempty, rest_nonempty⟩ :
        current.start < current.stop ∧ next.start < next.stop ∧ AllNonempty rest := by
      simp only [allNonempty_cons] at nonempty
      exact ⟨nonempty.1, nonempty.2.1, nonempty.2.2⟩
    unfold mergeFrom
    split
    · split
      · next merged merged_eq =>
        exact ih merged (allNonempty_cons.mpr
          ⟨tryMerge_nonempty current_nonempty next_nonempty merged_eq, rest_nonempty⟩)
      · exact allNonempty_cons.mpr ⟨current_nonempty,
          ih next (allNonempty_cons.mpr ⟨next_nonempty, rest_nonempty⟩)⟩
    · exact nonempty

theorem map_lookup_mergeRange (keeps : MergeKeeps merge f) (low high key : Nat)
    (segs : List (Seg V)) (nonempty : AllNonempty segs) :
    (lookup key (mergeRange merge low high segs)).map f = (lookup key segs).map f := by
  obtain ⟨before, after, span_eq, rfl⟩ := span_split (fun seg : Seg V => decide (seg.stop ≤ low)) segs
  unfold mergeRange
  rw [span_eq]
  cases after with
  | nil =>
    dsimp only
    rw [List.append_nil]
  | cons current rest =>
    dsimp only
    rw [lookup_append, lookup_append]
    cases lookup key before with
    | some value => rfl
    | none =>
      exact map_lookup_mergeFrom keeps high key current rest (allNonempty_append.mp nonempty).2

theorem allNonempty_mergeRange (low high : Nat) (segs : List (Seg V))
    (nonempty : AllNonempty segs) : AllNonempty (mergeRange merge low high segs) := by
  obtain ⟨before, after, span_eq, rfl⟩ := span_split (fun seg : Seg V => decide (seg.stop ≤ low)) segs
  unfold mergeRange
  rw [span_eq]
  cases after with
  | nil => exact (allNonempty_append.mp nonempty).1
  | cons current rest =>
    obtain ⟨before_nonempty, after_nonempty⟩ := allNonempty_append.mp nonempty
    exact allNonempty_append.mpr ⟨before_nonempty, allNonempty_mergeFrom high current rest after_nonempty⟩

end Merge

section Adjacent

variable {merge : Seg V → Seg V → Option V} {f : V → W}

theorem map_lookup_mergeWithPrev (keeps : MergeKeeps merge f) (key query : Nat) :
    ∀ segs : List (Seg V), AllNonempty segs →
      (lookup query (mergeWithPrev merge key segs)).map f = (lookup query segs).map f
  | [], _ => rfl
  | [_], _ => rfl
  | previous :: seg :: rest, nonempty => by
    obtain ⟨previous_nonempty, seg_nonempty, rest_nonempty⟩ :
        previous.start < previous.stop ∧ seg.start < seg.stop ∧ AllNonempty rest := by
      simp only [allNonempty_cons] at nonempty
      exact ⟨nonempty.1, nonempty.2.1, nonempty.2.2⟩
    dsimp only [mergeWithPrev]
    split
    · rfl
    · split
      · split
        · next merged merged_eq =>
          exact map_lookup_tryMerge keeps previous_nonempty seg_nonempty merged_eq query rest
        · rfl
      · rw [lookup_cons query previous, lookup_cons query previous]
        split
        · rfl
        · exact map_lookup_mergeWithPrev keeps key query (seg :: rest)
            (allNonempty_cons.mpr ⟨seg_nonempty, rest_nonempty⟩)

theorem allNonempty_mergeWithPrev (key : Nat) :
    ∀ segs : List (Seg V), AllNonempty segs → AllNonempty (mergeWithPrev merge key segs)
  | [], nonempty => nonempty
  | [_], nonempty => nonempty
  | previous :: seg :: rest, nonempty => by
    obtain ⟨previous_nonempty, seg_nonempty, rest_nonempty⟩ :
        previous.start < previous.stop ∧ seg.start < seg.stop ∧ AllNonempty rest := by
      simp only [allNonempty_cons] at nonempty
      exact ⟨nonempty.1, nonempty.2.1, nonempty.2.2⟩
    dsimp only [mergeWithPrev]
    split
    · exact nonempty
    · split
      · split
        · next merged merged_eq =>
          exact allNonempty_cons.mpr
            ⟨tryMerge_nonempty previous_nonempty seg_nonempty merged_eq, rest_nonempty⟩
        · exact nonempty
      · exact allNonempty_cons.mpr ⟨previous_nonempty,
          allNonempty_mergeWithPrev key (seg :: rest) (allNonempty_cons.mpr ⟨seg_nonempty, rest_nonempty⟩)⟩

theorem map_lookup_mergeWithNext (keeps : MergeKeeps merge f) (key query : Nat) :
    ∀ segs : List (Seg V), AllNonempty segs →
      (lookup query (mergeWithNext merge key segs)).map f = (lookup query segs).map f
  | [], _ => rfl
  | seg :: rest, nonempty => by
    obtain ⟨seg_nonempty, rest_nonempty⟩ := allNonempty_cons.mp nonempty
    dsimp only [mergeWithNext]
    split
    · split
      · next next after =>
        split
        · next merged merged_eq =>
          exact map_lookup_tryMerge keeps seg_nonempty (rest_nonempty next (by simp))
            merged_eq query after
        · rfl
      · rfl
    · rw [lookup_cons query seg, lookup_cons query seg]
      split
      · rfl
      · exact map_lookup_mergeWithNext keeps key query rest rest_nonempty

theorem allNonempty_mergeWithNext (key : Nat) :
    ∀ segs : List (Seg V), AllNonempty segs → AllNonempty (mergeWithNext merge key segs)
  | [], nonempty => nonempty
  | seg :: rest, nonempty => by
    obtain ⟨seg_nonempty, rest_nonempty⟩ := allNonempty_cons.mp nonempty
    dsimp only [mergeWithNext]
    split
    · split
      · next next after =>
        split
        · next merged merged_eq =>
          have next_nonempty := rest_nonempty next (by simp)
          exact allNonempty_cons.mpr ⟨tryMerge_nonempty seg_nonempty next_nonempty merged_eq,
            fun other member => rest_nonempty other (by simp [member])⟩
        · exact nonempty
      · exact nonempty
    · exact allNonempty_cons.mpr ⟨seg_nonempty, allNonempty_mergeWithNext key rest rest_nonempty⟩

theorem map_lookup_mergeAdjacent (keeps : MergeKeeps merge f) (low high query : Nat)
    (segs : List (Seg V)) (nonempty : AllNonempty segs) :
    (lookup query (mergeAdjacent merge low high segs)).map f = (lookup query segs).map f := by
  unfold mergeAdjacent
  rw [map_lookup_mergeWithNext keeps _ query _ (allNonempty_mergeWithPrev low segs nonempty),
    map_lookup_mergeWithPrev keeps low query segs nonempty]

theorem allNonempty_mergeAdjacent (low high : Nat) (segs : List (Seg V))
    (nonempty : AllNonempty segs) : AllNonempty (mergeAdjacent merge low high segs) :=
  allNonempty_mergeWithNext _ _ (allNonempty_mergeWithPrev low segs nonempty)

end Adjacent

section Isolate

variable {split : Seg V → Nat → V × V} {f : V → W}

/-- Splitting agrees under `f` with the value split. -/
def SplitKeeps (split : Seg V → Nat → V × V) (f : V → W) : Prop :=
  ∀ seg key, f (split seg key).1 = f seg.value ∧ f (split seg key).2 = f seg.value

theorem map_lookup_cons_congr (key : Nat) (seg : Seg V) {first second : List (Seg V)}
    (same : (lookup key first).map f = (lookup key second).map f) :
    (lookup key (seg :: first)).map f = (lookup key (seg :: second)).map f := by
  rw [lookup_cons, lookup_cons]
  split
  · rfl
  · exact same

theorem map_lookup_splitSeg (keeps : SplitKeeps split f) (seg : Seg V) {at_key : Nat}
    (inside : seg.CanSplitAt at_key) (key : Nat) (rest : List (Seg V)) :
    (lookup key ((splitSeg split seg at_key).1 :: (splitSeg split seg at_key).2 :: rest)).map f =
      (lookup key (seg :: rest)).map f := by
  obtain ⟨same_first, same_second⟩ := keeps seg at_key
  simp only [Seg.CanSplitAt] at inside
  rw [lookup_cons, lookup_cons, lookup_cons]
  by_cases in_first : (splitSeg split seg at_key).1.Contains key
  · have in_seg : seg.Contains key := by
      simp only [splitSeg, Seg.Contains] at in_first ⊢
      omega
    rw [if_pos in_first, if_pos in_seg]
    simp [splitSeg, same_first]
  · rw [if_neg in_first]
    by_cases in_second : (splitSeg split seg at_key).2.Contains key
    · have in_seg : seg.Contains key := by
        simp only [splitSeg, Seg.Contains] at in_second ⊢
        omega
      rw [if_pos in_second, if_pos in_seg]
      simp [splitSeg, same_second]
    · have not_seg : ¬seg.Contains key := by
        simp only [splitSeg, Seg.Contains] at in_first in_second ⊢
        omega
      rw [if_neg in_second, if_neg not_seg]

theorem splitSeg_nonempty (seg : Seg V) {at_key : Nat} (inside : seg.CanSplitAt at_key) :
    (splitSeg split seg at_key).1.start < (splitSeg split seg at_key).1.stop ∧
      (splitSeg split seg at_key).2.start < (splitSeg split seg at_key).2.stop := by
  simp only [Seg.CanSplitAt] at inside
  simp only [splitSeg]
  omega

theorem map_lookup_isolate (keeps : SplitKeeps split f) (seg : Seg V) (low high key : Nat)
    (rest : List (Seg V)) :
    (lookup key ((isolate split seg low high).1 ++ (isolate split seg low high).2.1 ::
      (isolate split seg low high).2.2 ++ rest)).map f = (lookup key (seg :: rest)).map f := by
  unfold isolate
  by_cases at_low : seg.CanSplitAt low
  · simp only [if_pos at_low]
    by_cases at_high : (splitSeg split seg low).2.CanSplitAt high
    · simp only [if_pos at_high, List.cons_append, List.nil_append]
      rw [map_lookup_cons_congr key _ (map_lookup_splitSeg keeps _ at_high key rest)]
      exact map_lookup_splitSeg keeps seg at_low key rest
    · simp only [if_neg at_high, List.cons_append, List.nil_append]
      exact map_lookup_splitSeg keeps seg at_low key rest
  · simp only [if_neg at_low]
    by_cases at_high : seg.CanSplitAt high
    · simp only [if_pos at_high, List.nil_append, List.cons_append]
      exact map_lookup_splitSeg keeps seg at_high key rest
    · simp only [if_neg at_high, List.nil_append, List.cons_append]

theorem allNonempty_isolate (seg : Seg V) (low high : Nat) (nonempty : seg.start < seg.stop) :
    AllNonempty ((isolate split seg low high).1 ++ (isolate split seg low high).2.1 ::
      (isolate split seg low high).2.2) := by
  unfold isolate
  by_cases at_low : seg.CanSplitAt low
  · have low_pieces := @splitSeg_nonempty _ split seg low at_low
    simp only [if_pos at_low]
    by_cases at_high : (splitSeg split seg low).2.CanSplitAt high
    · have high_pieces := @splitSeg_nonempty _ split _ high at_high
      simp only [if_pos at_high, List.singleton_append, allNonempty_cons]
      exact ⟨low_pieces.1, high_pieces.1, high_pieces.2, fun _ member => by simp at member⟩
    · simp only [if_neg at_high, List.singleton_append, allNonempty_cons]
      exact ⟨low_pieces.1, low_pieces.2, fun _ member => by simp at member⟩
  · simp only [if_neg at_low]
    by_cases at_high : seg.CanSplitAt high
    · have high_pieces := @splitSeg_nonempty _ split seg high at_high
      simp only [if_pos at_high, List.nil_append, allNonempty_cons]
      exact ⟨high_pieces.1, high_pieces.2, fun _ member => by simp at member⟩
    · simp only [if_neg at_high, List.nil_append, allNonempty_cons]
      exact ⟨nonempty, fun _ member => by simp at member⟩

theorem lookup_replace (key : Nat) (first second : List (Seg V)) (old new : Seg V)
    (same_start : new.start = old.start) (same_stop : new.stop = old.stop) :
    lookup key (first ++ new :: second) = lookup key (first ++ old :: second) ∨
      lookup key (first ++ new :: second) = some new.value := by
  induction first with
  | nil =>
    have same_range : new.Contains key ↔ old.Contains key := by
      simp only [Seg.Contains, same_start, same_stop]
    simp only [List.nil_append, lookup_cons]
    by_cases inside : old.Contains key
    · exact .inr (if_pos (same_range.mpr inside))
    · rw [if_neg (fun within => inside (same_range.mp within)), if_neg inside]
      exact .inl rfl
  | cons seg first ih =>
    simp only [List.cons_append, lookup_cons]
    split
    · exact .inl rfl
    · exact ih

end Isolate

section Order

/-- Each segment ends at or before the next one starts. -/
def Ordered (segs : List (Seg V)) : Prop :=
  segs.IsChain fun first second => first.stop ≤ second.start

theorem sorted_iff : ∀ segs : List (Seg V), Sorted segs ↔ AllNonempty segs ∧ Ordered segs
  | [] => by simp [Sorted, AllNonempty, Ordered]
  | [seg] => by simp [Sorted, AllNonempty, Ordered]
  | seg :: next :: rest => by
      rw [Sorted, sorted_iff (next :: rest), @allNonempty_cons _ seg (next :: rest)]
      unfold Ordered
      rw [List.isChain_cons_cons]
      exact ⟨fun ⟨nonempty, before, rest_nonempty, rest_ordered⟩ =>
          ⟨⟨nonempty, rest_nonempty⟩, before, rest_ordered⟩,
        fun ⟨⟨nonempty, rest_nonempty⟩, before, rest_ordered⟩ =>
          ⟨nonempty, before, rest_nonempty, rest_ordered⟩⟩

theorem ordered_replace {pre old new post : List (Seg V)} (ordered : Ordered (pre ++ old ++ post))
    (old_nonempty : old ≠ []) (new_nonempty : new ≠ []) (new_ordered : Ordered new)
    (starts : (old.head old_nonempty).start ≤ (new.head new_nonempty).start)
    (stops : (new.getLast new_nonempty).stop ≤ (old.getLast old_nonempty).stop) :
    Ordered (pre ++ new ++ post) := by
  unfold Ordered at *
  rw [List.append_assoc, List.isChain_append, List.isChain_append,
    List.head?_append_of_ne_nil _ old_nonempty] at ordered
  obtain ⟨pre_ordered, ⟨_, post_ordered, old_post⟩, pre_old⟩ := ordered
  rw [List.append_assoc, List.isChain_append, List.isChain_append,
    List.head?_append_of_ne_nil _ new_nonempty]
  refine ⟨pre_ordered, ⟨new_ordered, post_ordered, ?_⟩, ?_⟩
  · intro last last_eq next next_eq
    rw [List.getLast?_eq_some_getLast new_nonempty, Option.mem_some_iff] at last_eq
    subst last_eq
    have old_before := old_post _ (List.getLast?_eq_some_getLast old_nonempty) next next_eq
    omega
  · intro last last_eq first first_eq
    rw [List.head?_eq_some_head new_nonempty, Option.mem_some_iff] at first_eq
    subst first_eq
    have before_old := pre_old last last_eq _ (List.head?_eq_some_head old_nonempty)
    omega

section Operations

variable {merge : Seg V → Seg V → Option V} {split : Seg V → Nat → V × V}

theorem ordered_tryMerge {pre post : List (Seg V)} {first second merged : Seg V}
    (merged_eq : tryMerge merge first second = some merged)
    (ordered : Ordered (pre ++ first :: second :: post)) : Ordered (pre ++ merged :: post) := by
  obtain ⟨_, start_eq, stop_eq, _⟩ := tryMerge_eq_some merged_eq
  have replaced := @ordered_replace _ pre [first, second] [merged] post (by simpa using ordered)
    (List.cons_ne_nil _ _) (List.cons_ne_nil _ _) (List.isChain_singleton merged)
    (by simp [start_eq]) (by simp [stop_eq])
  simpa using replaced

theorem ordered_mergeFrom (high : Nat) :
    ∀ (current : Seg V) (rest pre : List (Seg V)), Ordered (pre ++ current :: rest) →
      Ordered (pre ++ mergeFrom merge high current rest) := by
  intro current rest
  induction rest generalizing current with
  | nil => intro _ ordered; exact ordered
  | cons next rest ih =>
    intro pre ordered
    unfold mergeFrom
    split
    · split
      · next merged merged_eq => exact ih merged pre (ordered_tryMerge merged_eq ordered)
      · simpa using ih next (pre ++ [current]) (by simpa using ordered)
    · exact ordered

theorem ordered_mergeRange (low high : Nat) (segs : List (Seg V)) (ordered : Ordered segs) :
    Ordered (mergeRange merge low high segs) := by
  obtain ⟨before, after, span_eq, rfl⟩ := span_split (fun seg : Seg V => decide (seg.stop ≤ low)) segs
  unfold mergeRange
  rw [span_eq]
  cases after with
  | nil => simpa using ordered
  | cons current rest => exact ordered_mergeFrom high current rest before ordered

theorem ordered_mergeWithPrev (key : Nat) :
    ∀ segs pre : List (Seg V), Ordered (pre ++ segs) → Ordered (pre ++ mergeWithPrev merge key segs)
  | [], _, ordered => ordered
  | [_], _, ordered => ordered
  | previous :: seg :: rest, pre, ordered => by
    dsimp only [mergeWithPrev]
    split
    · exact ordered
    · split
      · split
        · next merged merged_eq => exact ordered_tryMerge merged_eq ordered
        · exact ordered
      · simpa using ordered_mergeWithPrev key (seg :: rest) (pre ++ [previous]) (by simpa using ordered)

theorem ordered_mergeWithNext (key : Nat) :
    ∀ segs pre : List (Seg V), Ordered (pre ++ segs) → Ordered (pre ++ mergeWithNext merge key segs)
  | [], _, ordered => ordered
  | seg :: rest, pre, ordered => by
    dsimp only [mergeWithNext]
    split
    · split
      · next next after =>
        split
        · next merged merged_eq => exact ordered_tryMerge merged_eq ordered
        · exact ordered
      · exact ordered
    · simpa using ordered_mergeWithNext key rest (pre ++ [seg]) (by simpa using ordered)

theorem ordered_mergeAdjacent (low high : Nat) (segs : List (Seg V)) (ordered : Ordered segs) :
    Ordered (mergeAdjacent merge low high segs) := by
  unfold mergeAdjacent
  exact ordered_mergeWithNext _ _ [] (ordered_mergeWithPrev low segs [] ordered)

theorem ordered_isolate (update : Seg V → Seg V) (same_start : ∀ seg, (update seg).start = seg.start)
    (same_stop : ∀ seg, (update seg).stop = seg.stop) (seg : Seg V) (low high : Nat)
    {pre post : List (Seg V)} (ordered : Ordered (pre ++ seg :: post)) :
    Ordered (pre ++ ((isolate split seg low high).1 ++ update (isolate split seg low high).2.1 ::
      (isolate split seg low high).2.2) ++ post) := by
  refine @ordered_replace _ pre [seg] _ post (by simpa using ordered) (List.cons_ne_nil _ _)
    (by simp) ?_ ?_ ?_
  all_goals
    unfold isolate
    by_cases at_low : seg.CanSplitAt low
    · simp only [if_pos at_low]
      by_cases at_high : (splitSeg split seg low).2.CanSplitAt high
      · simp only [if_pos at_high]
        simp [Ordered, splitSeg, same_start, same_stop]
      · simp only [if_neg at_high]
        simp [Ordered, splitSeg, same_start, same_stop]
    · simp only [if_neg at_low]
      by_cases at_high : seg.CanSplitAt high
      · simp only [if_pos at_high]
        simp [Ordered, splitSeg, same_start, same_stop]
      · simp only [if_neg at_high]
        simp [Ordered, same_start, same_stop]

end Operations

end Order

end SegmentList
