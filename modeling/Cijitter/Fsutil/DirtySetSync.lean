import Cijitter.Fsutil.DirtySetProperties

/-! What `SyncDirty` writes back and what it leaves dirty. Bytes are named
by their offsets in the file, as `MapInternal` gives them; the bytes meant
for write-back are those the cache holds at the offsets of `mr` below
`max` whose state is dirty or kept dirty, each paired with the offset it
belongs at. Every call of `writeAt` in one run is at an offset past the
ones before it, so `writeAt` as a function of its arguments can answer
each call as any `writeAt` would. -/

set_option autoImplicit false

namespace Cijitter.Fsutil

open SegmentList

/-- The offsets `[low, high)`, in order. -/
def offsetsIn (low high : Nat) : List Nat := List.range' low (high - low)

theorem mem_offsetsIn {o low high : Nat} : o ∈ offsetsIn low high ↔ low ≤ o ∧ o < high := by
  rw [offsetsIn, List.mem_range'_1]
  omega

theorem offsetsIn_split {low mid high : Nat} (first : low ≤ mid) (second : mid ≤ high) :
    offsetsIn low high = offsetsIn low mid ++ offsetsIn mid high := by
  have joined := List.range'_append_1 (s := low) (m := mid - low) (n := high - mid)
  rw [Nat.add_sub_cancel' first] at joined
  rw [offsetsIn, offsetsIn, offsetsIn, joined]
  congr 1
  omega

/-- `bytes` placed one after another from `offset`. -/
def placed : Nat → List Nat → List (Nat × Nat)
  | _, [] => []
  | offset, byte :: rest => (offset, byte) :: placed (offset + 1) rest

theorem placed_append (offset : Nat) (first second : List Nat) :
    placed offset (first ++ second) = placed offset first ++ placed (offset + first.length) second := by
  induction first generalizing offset with
  | nil => rfl
  | cons byte rest ih =>
      rw [List.cons_append, placed, placed, ih, List.length_cons, List.cons_append, Nat.add_assoc, Nat.add_comm 1]

theorem placed_range' (offset fileStart count : Nat) :
    placed offset (List.range' fileStart count) =
      (offsetsIn offset (offset + count)).map fun o => (o, fileStart + (o - offset)) := by
  induction count generalizing offset fileStart with
  | zero => simp [placed, offsetsIn]
  | succ count ih =>
      rw [List.range'_succ, placed, ih, offsetsIn, offsetsIn, show offset + (count + 1) - offset = count + 1 by omega,
        List.range'_succ, List.map_cons, show offset + 1 + count - (offset + 1) = count by omega]
      congr 1
      · simp
      · apply List.map_congr_left
        intro o member
        rw [List.mem_range'_1] at member
        congr 1
        omega

/-- The file byte the cache holds at a `Mappable` offset. -/
def cachedByte (cache : FileRangeSet) (o : Nat) : Option Nat :=
  readAt (fun seg o => seg.value + (o - seg.start)) o cache

/-- The byte meant for write-back at `o`, if any: the one the cache holds,
below `max`, at an offset that is dirty or kept dirty. -/
def syncedAt (cache : FileRangeSet) (dirty : DirtySet) (max o : Nat) : Option (Nat × Nat) :=
  if o < max ∧ stateAt dirty o ≠ .clean then (cachedByte cache o).map (o, ·) else none

/-- What `SyncDirty` is meant to write back: the bytes meant for write-back
at the offsets of `mr`, in order. -/
def syncedBytes (cache : FileRangeSet) (dirty : DirtySet) (mr : MappableRange) (max : Nat) : List (Nat × Nat) :=
  (offsetsIn mr.start mr.stop).filterMap (syncedAt cache dirty max)

section Sync

variable {E : Type} (mapInternal : FileRange → Except E (List Nat)) (writeAt : List Nat → Nat → Except E Nat)

/-- The bytes one call of `writeAt` wrote, each with the offset it went to:
as many as the call says it wrote. -/
def writtenBy (call : List Nat × Nat) : List (Nat × Nat) :=
  match writeAt call.1 call.2 with
  | .ok n => placed call.2 (call.1.take n)
  | .error _ => []

/-- The bytes a run of calls wrote, in order. -/
def written (calls : Calls) : List (Nat × Nat) :=
  calls.flatMap (writtenBy writeAt)

@[simp] theorem written_nil : written writeAt [] = [] := rfl

@[simp] theorem written_cons (call : List Nat × Nat) (calls : Calls) :
    written writeAt (call :: calls) = writtenBy writeAt call ++ written writeAt calls := rfl

@[simp] theorem written_append (first second : Calls) :
    written writeAt (first ++ second) = written writeAt first ++ written writeAt second := by
  simp [written]

/-- Every successful call of `writeAt` on bytes writes at least one of them:
the condition under which the loops that call it end. -/
def WritesSome : Prop :=
  ∀ ims offset n, ims ≠ [] → writeAt ims offset = .ok n → 0 < n

/-! ## `writeAll` -/

variable {writeAt}

theorem writeAll_spec (ims : List Nat) (offset : Nat) : ∀ {calls : Calls} {result : Except E Unit},
    writeAll writeAt ims offset = some (calls, result) →
    (result = .ok () → written writeAt calls = placed offset ims) ∧ written writeAt calls <+: placed offset ims := by
  fun_induction writeAll writeAt ims offset with
  | case1 ims offset empty =>
      intro calls result ran
      rw [List.isEmpty_iff.mp empty]
      simp only [Option.some.injEq, Prod.mk.injEq] at ran
      obtain ⟨rfl, rfl⟩ := ran
      exact ⟨fun _ => rfl, List.nil_prefix⟩
  | case2 ims offset _ err failed =>
      intro calls result ran
      simp only [Option.some.injEq, Prod.mk.injEq] at ran
      obtain ⟨rfl, rfl⟩ := ran
      refine ⟨fun ok => (by cases ok), ?_⟩
      simp [writtenBy, failed]
  | case3 =>
      intro calls result ran
      cases ran
  | case4 ims offset _ n wrote _ ih =>
      intro calls result ran
      obtain ⟨⟨more, rest⟩, ranRest, same⟩ := Option.map_eq_some_iff.mp ran
      simp only [Prod.mk.injEq] at same
      obtain ⟨rfl, rfl⟩ := same
      obtain ⟨restOk, restPrefix⟩ := ih ranRest
      -- the call wrote the first `n` bytes; the rest are written from where they end
      have split : placed offset ims = placed offset (ims.take n) ++ placed (offset + n) (ims.drop n) := by
        by_cases fits : n ≤ ims.length
        · have joined := placed_append offset (ims.take n) (ims.drop n)
          rwa [List.take_append_drop, List.length_take_of_le fits] at joined
        · rw [List.drop_eq_nil_of_le (by omega), List.take_of_length_le (by omega)]
          simp [placed]
      rw [written_cons, writtenBy]
      simp only [wrote]
      rw [split]
      exact ⟨fun ok => by rw [restOk ok], (List.prefix_append_right_inj _).mpr restPrefix⟩

theorem writeAll_isSome (progress : WritesSome writeAt) (ims : List Nat) (offset : Nat) :
    (writeAll writeAt ims offset).isSome := by
  fun_induction writeAll writeAt ims offset with
  | case1 => rfl
  | case2 => rfl
  | case3 ims offset nonempty wrote =>
      exact absurd (progress ims offset 0 (by simpa using nonempty) wrote) (Nat.lt_irrefl 0)
  | case4 ims offset _ n wrote _ ih => simpa using ih

/-! ## `syncDirtyRange` -/

/-- The bytes meant for write-back at the offsets `[low, high)`: those below
`max` that the cache holds. -/
def rangeBytes (cache : FileRangeSet) (max low high : Nat) : List (Nat × Nat) :=
  (offsetsIn low high).filterMap fun o => if o < max then (cachedByte cache o).map (o, ·) else none

theorem rangeBytes_eq_nil {cache : FileRangeSet} {max low high : Nat}
    (none : ∀ o, low ≤ o → o < high → o < max → cachedByte cache o = Option.none) : rangeBytes cache max low high = [] := by
  refine List.filterMap_eq_nil_iff.mpr fun o member => ?_
  obtain ⟨above, below⟩ := mem_offsetsIn.mp member
  split
  · next small => rw [none o above below small, Option.map_none]
  · rfl

theorem rangeBytes_split {cache : FileRangeSet} {max low mid high : Nat} (first : low ≤ mid) (second : mid ≤ high) :
    rangeBytes cache max low high = rangeBytes cache max low mid ++ rangeBytes cache max mid high := by
  rw [rangeBytes, offsetsIn_split first second, List.filterMap_append]
  rfl

theorem rangeBytes_congr {cache other : FileRangeSet} {max low high : Nat}
    (same : ∀ o, low ≤ o → o < high → cachedByte cache o = cachedByte other o) :
    rangeBytes cache max low high = rangeBytes other max low high :=
  List.filterMap_congr fun o member => by
    obtain ⟨above, below⟩ := mem_offsetsIn.mp member
    rw [same o above below]

theorem rangeBytes_segment {seg : Seg Nat} {rest : FileRangeSet} {max low high : Nat} (inside : seg.start ≤ low)
    (within : high ≤ seg.stop) (reaches : low ≤ max) :
    rangeBytes (seg :: rest) max low high =
      placed low (if max < high then (List.range' (seg.value + (low - seg.start)) (high - low)).take (max - low)
        else List.range' (seg.value + (low - seg.start)) (high - low)) := by
  have cutAt : ∀ bytes : List Nat, bytes.length = high - low →
      (if max < high then bytes.take (max - low) else bytes) = bytes.take (if max < high then max - low else high - low) :=
    fun bytes counted => by split <;> simp [counted]
  rw [cutAt _ List.length_range']
  by_cases ordered : low ≤ high
  · -- the bytes are cut at `low + count`: at `max` when it falls inside, else at `high`
    obtain ⟨count, countEq⟩ : ∃ count, count = if max < high then max - low else high - low := ⟨_, rfl⟩
    rw [← countEq]
    have cut : low + count ≤ high ∧ ∀ o, o < high → (o < max ↔ o < low + count) := by
      rw [countEq]
      split <;> exact ⟨by omega, fun o _ => by omega⟩
    rw [List.take_range'_of_length_ge (by omega), placed_range', rangeBytes, offsetsIn_split (Nat.le_add_right low _) cut.1,
      List.filterMap_append]
    have past : (offsetsIn (low + count) high).filterMap
        (fun o => if o < max then (cachedByte (seg :: rest) o).map (o, ·) else none) = [] :=
      List.filterMap_eq_nil_iff.mpr fun o member => by
        obtain ⟨above, below⟩ := mem_offsetsIn.mp member
        rw [if_neg fun small => absurd ((cut.2 o below).mp small) (by omega)]
    rw [past, List.append_nil]
    refine List.filterMap_eq_map_iff_forall_eq_some.mpr fun o member => ?_
    obtain ⟨above, below⟩ := mem_offsetsIn.mp member
    rw [if_pos ((cut.2 o (by omega)).mpr below), cachedByte, readAt_cons,
      if_pos (show seg.Contains o from ⟨by omega, by omega⟩)]
    simp only [Option.map_some, Option.some.injEq, Prod.mk.injEq, true_and]
    omega
  · have empty : high - low = 0 := by omega
    simp [rangeBytes, offsetsIn, empty, placed]

theorem syncDirtyRangeLoop_isSome (progress : WritesSome writeAt) (r : MappableRange) (limit : Nat) :
    ∀ segs : FileRangeSet, (syncDirtyRangeLoop mapInternal writeAt r limit segs).isSome
  | [] => rfl
  | seg :: rest => by
      unfold syncDirtyRangeLoop
      split
      · dsimp only
        split
        · rfl
        · split
          · rfl
          · next ims _ =>
            obtain ⟨⟨calls, result⟩, wrote⟩ := Option.isSome_iff_exists.mp (writeAll_isSome progress
              (if limit < ((segRange seg).intersect r).stop then
                ims.take (limit - ((segRange seg).intersect r).start) else ims) ((segRange seg).intersect r).start)
            rw [wrote]
            cases result with
            | error => rfl
            | ok => simpa using syncDirtyRangeLoop_isSome progress r limit rest
      · rfl

theorem syncDirtyRange_isSome (progress : WritesSome writeAt) (r : MappableRange) (cache : FileRangeSet) (limit : Nat) :
    (syncDirtyRange mapInternal writeAt r cache limit).isSome :=
  syncDirtyRangeLoop_isSome mapInternal progress r limit _

/-! ## The loop of `SyncDirty` -/

/-- What `SyncDirty` leaves at an offset of `mr` it has passed: a dirty
offset is cleaned, a kept one stays. -/
def cleaned : Option DirtyInfo → Option DirtyInfo
  | some ⟨false⟩ => none
  | info => info

theorem ofInfo_cleaned (info : Option DirtyInfo) :
    OffsetState.ofInfo (cleaned info) = (OffsetState.ofInfo info).markClean := by
  rcases info with _ | ⟨_ | _⟩ <;> rfl

theorem eq_dirty_of_cleaned_ne {info : Option DirtyInfo}
    (changed : OffsetState.ofInfo (cleaned info) ≠ OffsetState.ofInfo info) : info = some ⟨false⟩ := by
  rcases info with _ | ⟨_ | _⟩
  · exact absurd rfl changed
  · rfl
  · exact absurd rfl changed

theorem syncedBytes_split (cache : FileRangeSet) (dirty : DirtySet) (limit : Nat) {low mid high : Nat}
    (first : low ≤ mid) (second : mid ≤ high) :
    syncedBytes cache dirty ⟨low, high⟩ limit =
      syncedBytes cache dirty ⟨low, mid⟩ limit ++ (offsetsIn mid high).filterMap (syncedAt cache dirty limit) := by
  rw [syncedBytes, syncedBytes, offsetsIn_split first second, List.filterMap_append]

theorem syncedBytes_eq (cache : FileRangeSet) (dirty : DirtySet) (mr : MappableRange) (limit : Nat) :
    syncedBytes cache dirty ⟨mr.start, mr.stop⟩ limit = syncedBytes cache dirty mr limit := rfl

variable (cache : FileRangeSet) (dirty : DirtySet) (mr : MappableRange) (limit : Nat)

/-- What holds at each turn of the loop of `SyncDirty`: its list is sorted
and cleaned over `mr` below `passed`, and `sent` is what is meant for
write-back there. -/
structure SyncInvariant (passed : Nat) (before after : DirtySet) (sent : List (Nat × Nat)) : Prop where
  sorted : Sorted (before.reverse ++ after)
  reads : ∀ o, lookup o (before.reverse ++ after) =
    if mr.Contains o ∧ o < passed then cleaned (lookup o dirty) else lookup o dirty
  wrote : sent = syncedBytes cache dirty ⟨mr.start, min passed mr.stop⟩ limit
  start : mr.start ≤ passed
  behind : ∀ s ∈ before, s.stop ≤ passed
  ahead : ∀ s ∈ after, passed ≤ max s.start mr.start ∧ mr.start < s.stop

variable (writeAt) in
/-- What a run of the loop of `SyncDirty` from `sent` ends with: its list
is cleaned over `mr` below some bound, all meant for write-back below the
bound is written and no more than is meant for `mr`; on success the bound
covers `mr`. -/
def SyncOutcome (sent : List (Nat × Nat)) (ds : DirtySet) (calls : Calls) (result : Except E Unit) : Prop :=
  Sorted ds ∧ sent ++ written writeAt calls <+: syncedBytes cache dirty mr limit ∧
    ∃ passed, (∀ o, lookup o ds = if mr.Contains o ∧ o < passed then cleaned (lookup o dirty) else lookup o dirty) ∧
      syncedBytes cache dirty ⟨mr.start, min passed mr.stop⟩ limit <+: sent ++ written writeAt calls ∧
      (result = .ok () → (∀ o, mr.Contains o → o < passed) ∧ sent ++ written writeAt calls = syncedBytes cache dirty mr limit)

variable {cache dirty mr limit}

theorem syncedBytes_initial (ordered : mr.start ≤ mr.stop) {bound : Nat} (start : mr.start ≤ bound) :
    syncedBytes cache dirty ⟨mr.start, min bound mr.stop⟩ limit <+: syncedBytes cache dirty mr limit := by
  rw [← syncedBytes_eq, syncedBytes_split cache dirty limit (Nat.le_min.mpr ⟨start, ordered⟩) (Nat.min_le_right _ _)]
  exact List.prefix_append _ _

theorem syncedAt_eq_nil {low high : Nat} (clean : ∀ o, low ≤ o → o < high → lookup o dirty = none) :
    (offsetsIn low high).filterMap (syncedAt cache dirty limit) = [] :=
  List.filterMap_eq_nil_iff.mpr fun o member => by
    obtain ⟨above, below⟩ := mem_offsetsIn.mp member
    have isClean : stateAt dirty o = .clean := by
      rw [stateAt, clean o above below]
      rfl
    rw [syncedAt, if_neg fun sent => sent.2 isClean]

theorem cleaned_of_keep {info : DirtyInfo} (kept : info.keep = true) : cleaned (some info) = some info := by
  rcases info with ⟨_ | _⟩
  · cases kept
  · rfl

theorem cleaned_of_drop {info : DirtyInfo} (dropped : info.keep = false) : cleaned (some info) = none := by
  rcases info with ⟨_ | _⟩
  · rfl
  · cases dropped

theorem isolate_splice (nonempty : mr.start < mr.stop) {seg : Seg DirtyInfo} (meets : seg.start < mr.stop ∧ mr.start < seg.stop)
    {pre post : DirtySet} {mid : Seg DirtyInfo} (pieces : isolate dirtySplit seg mr.start mr.stop = (pre, mid, post))
    (before rest : DirtySet) :
    (pre.reverse ++ before).reverse ++ (post ++ rest) = before.reverse ++ (isolatePieces dirtySplit seg mr.start mr.stop none ++ rest) ∧
      (mid :: pre.reverse ++ before).reverse ++ post ++ rest =
        before.reverse ++ (isolatePieces dirtySplit seg mr.start mr.stop (some seg.value) ++ rest) := by
  have cut := isolate_eq dirtySplit_keeps meets nonempty
  rw [pieces, Prod.mk.injEq, Prod.mk.injEq] at cut
  obtain ⟨rfl, rfl, rfl⟩ := cut
  constructor <;> simp [isolatePieces, isolate_eq dirtySplit_keeps meets nonempty]

theorem syncOutcome_append {sent : List (Nat × Nat)} {ds : DirtySet} {calls more : Calls} {result : Except E Unit}
    (outcome : SyncOutcome writeAt cache dirty mr limit (sent ++ written writeAt calls) ds more result) :
    SyncOutcome writeAt cache dirty mr limit sent ds (calls ++ more) result := by
  simpa only [SyncOutcome, written_append, List.append_assoc] using outcome

section Turn

variable {passed : Nat} {before : DirtySet} {sent : List (Nat × Nat)}

section Anywhere

variable {after : DirtySet} (inv : SyncInvariant cache dirty mr limit passed before after sent)
include inv

theorem SyncInvariant.reads_ahead {o : Nat} (outside : passed ≤ o ∨ o < mr.start) :
    lookup o dirty = lookup o (before.reverse ++ after) := by
  rw [inv.reads o, if_neg fun early => by have := early.1.1; have := early.2; omega]

theorem SyncInvariant.passed_none {o : Nat} (above : passed ≤ o) :
    lookup o before.reverse = none :=
  lookup_eq_none_iff.mpr fun s member inside => by
    have := inv.behind s (List.mem_reverse.mp member)
    have := inside.2
    omega

theorem SyncInvariant.finish (ordered : mr.start ≤ mr.stop)
    (clear : ∀ o, mr.Contains o → passed ≤ o → lookup o (before.reverse ++ after) = none) :
    SyncOutcome writeAt cache dirty mr limit sent (before.reverse ++ after) [] (.ok ()) := by
  have untouched : ∀ o, mr.Contains o → passed ≤ o → lookup o dirty = none := fun o inside above => by
    rw [inv.reads_ahead (.inl above), clear o inside above]
  -- past `passed` nothing in `mr` is dirty, so all was sent
  have whole : sent ++ written writeAt [] = syncedBytes cache dirty mr limit := by
    rw [written_nil, List.append_nil, inv.wrote, ← syncedBytes_eq,
      syncedBytes_split cache dirty limit (Nat.le_min.mpr ⟨inv.start, ordered⟩) (Nat.min_le_right _ _),
      syncedAt_eq_nil fun o above below => untouched o ⟨by have := inv.start; omega, below⟩ (by omega), List.append_nil]
  have covered : syncedBytes cache dirty ⟨mr.start, min mr.stop mr.stop⟩ limit = sent ++ written writeAt [] := by
    rw [Nat.min_self, syncedBytes_eq, whole]
  refine ⟨inv.sorted, whole ▸ List.prefix_refl _, mr.stop, fun o => ?_, covered ▸ List.prefix_refl _,
    fun _ => ⟨fun o inside => inside.2, whole⟩⟩
  rw [inv.reads o]
  by_cases inside : mr.Contains o
  · by_cases early : o < passed
    · rw [if_pos ⟨inside, early⟩, if_pos ⟨inside, inside.2⟩]
    · rw [if_neg fun both => early both.2, if_pos ⟨inside, inside.2⟩, untouched o inside (by omega)]
      rfl
  · rw [if_neg fun both => inside both.1, if_neg fun both => inside both.1]

end Anywhere

variable {rest : DirtySet} {seg : Seg DirtyInfo} (inv : SyncInvariant cache dirty mr limit passed before (seg :: rest) sent)
include inv

theorem SyncInvariant.segment :
    (∀ o, passed ≤ o → o < seg.start → lookup o dirty = none) ∧
      ∀ o, seg.Contains o → lookup o dirty = some seg.value := by
  obtain ⟨segNonempty, restAfter, -⟩ := sorted_cons_iff.mp (sorted_append_iff.mp inv.sorted).2.1
  have reaches := inv.ahead seg List.mem_cons_self
  refine ⟨fun o above early => ?_, fun o inside => ?_⟩
  · rw [inv.reads_ahead (.inl above), lookup_append, inv.passed_none above, Option.none_or, lookup_cons,
      if_neg fun inside => by have := inside.1; omega]
    exact lookup_eq_none_of_lt restAfter (by omega)
  · -- an offset of `seg` below `passed` lies below `mr`
    rw [inv.reads_ahead (by have := inside.1; omega), lookup_of_mem inv.sorted (by simp) inside]

theorem SyncInvariant.turnBytes (ordered : mr.start ≤ mr.stop) (starts : seg.start < mr.stop) :
    syncedBytes cache dirty ⟨mr.start, min seg.stop mr.stop⟩ limit =
      sent ++ rangeBytes cache limit (max seg.start mr.start) (min seg.stop mr.stop) := by
  obtain ⟨gap, inSeg⟩ := inv.segment
  obtain ⟨passedBelow, reaches⟩ := inv.ahead seg List.mem_cons_self
  have segNonempty := (sorted_cons_iff.mp (sorted_append_iff.mp inv.sorted).2.1).1
  have start := inv.start
  rw [syncedBytes_split cache dirty limit (show mr.start ≤ min passed mr.stop by omega)
      (show min passed mr.stop ≤ min seg.stop mr.stop by omega), ← inv.wrote,
    offsetsIn_split (show min passed mr.stop ≤ max seg.start mr.start by omega)
      (show max seg.start mr.start ≤ min seg.stop mr.stop by omega), List.filterMap_append]
  rw [syncedAt_eq_nil fun o above below => gap o (by omega) (by omega), List.nil_append]
  refine congrArg (sent ++ ·) (List.filterMap_congr fun o member => ?_)
  obtain ⟨above, below⟩ := mem_offsetsIn.mp member
  have dirtyHere : stateAt dirty o ≠ .clean := by
    rw [stateAt, inSeg o ⟨by omega, by omega⟩]
    rcases seg.value with ⟨_ | _⟩ <;> exact fun same => by cases same
  by_cases small : o < limit
  · rw [syncedAt, if_pos ⟨small, dirtyHere⟩, if_pos small]
  · rw [syncedAt, if_neg fun both => small both.1, if_neg small]

theorem SyncInvariant.cleaned_ahead {o : Nat} (above : passed ≤ o) (below : o < seg.stop)
    (notDirty : o < seg.start ∨ seg.value.keep = true) :
    cleaned (lookup o dirty) = lookup o dirty := by
  obtain ⟨gap, inSeg⟩ := inv.segment
  by_cases early : o < seg.start
  · rw [gap o above early]
    rfl
  · rw [inSeg o ⟨Nat.le_of_not_lt early, below⟩, cleaned_of_keep (notDirty.resolve_left early)]

theorem SyncInvariant.passKept (ordered : mr.start ≤ mr.stop) (starts : seg.start < mr.stop)
    (kept : seg.value.keep = true) :
    SyncInvariant cache dirty mr limit seg.stop (seg :: before) rest
      (sent ++ rangeBytes cache limit (max seg.start mr.start) (min seg.stop mr.stop)) := by
  obtain ⟨passedBelow, reaches⟩ := inv.ahead seg List.mem_cons_self
  obtain ⟨segNonempty, restAfter, -⟩ := sorted_cons_iff.mp (sorted_append_iff.mp inv.sorted).2.1
  have same : (seg :: before).reverse ++ rest = before.reverse ++ seg :: rest := by simp
  refine ⟨same ▸ inv.sorted, fun o => ?_, (inv.turnBytes ordered starts).symm, by omega, fun s member => ?_,
    fun s later => ?_⟩
  · rw [same, inv.reads o]
    by_cases passing : mr.Contains o ∧ o < seg.stop
    · rw [if_pos passing]
      by_cases early : o < passed
      · rw [if_pos ⟨passing.1, early⟩]
      · rw [if_neg fun both => early both.2, inv.cleaned_ahead (by omega) passing.2 (.inr kept)]
    · rw [if_neg passing, if_neg fun both => passing ⟨both.1, by omega⟩]
  · rcases List.mem_cons.mp member with rfl | earlier
    · exact Nat.le_refl _
    · have := inv.behind s earlier
      omega
  · have := restAfter s later
    exact ⟨by omega, (inv.ahead s (List.mem_cons_of_mem seg later)).2⟩

theorem SyncInvariant.passRemoved (nonempty : mr.start < mr.stop) (starts : seg.start < mr.stop)
    (dropped : seg.value.keep = false) {pre post : DirtySet} {mid : Seg DirtyInfo}
    (pieces : isolate dirtySplit seg mr.start mr.stop = (pre, mid, post)) :
    SyncInvariant cache dirty mr limit (min seg.stop mr.stop) (pre.reverse ++ before) (post ++ rest)
      (sent ++ rangeBytes cache limit (max seg.start mr.start) (min seg.stop mr.stop)) := by
  obtain ⟨passedBelow, reaches⟩ := inv.ahead seg List.mem_cons_self
  obtain ⟨segNonempty, restAfter, -⟩ := sorted_cons_iff.mp (sorted_append_iff.mp inv.sorted).2.1
  have spliced := (isolate_splice nonempty ⟨starts, reaches⟩ pieces before rest).1
  have cut := isolate_eq dirtySplit_keeps ⟨starts, reaches⟩ nonempty
  rw [pieces, Prod.mk.injEq, Prod.mk.injEq] at cut
  obtain ⟨rfl, -, rfl⟩ := cut
  refine ⟨spliced ▸ sorted_splice_isolatePieces nonempty inv.sorted ⟨starts, reaches⟩ none, fun o => ?_, ?_, by omega, fun s member => ?_,
    fun s later => ?_⟩
  · rw [spliced, lookup_splice_isolatePieces nonempty inv.sorted ⟨starts, reaches⟩ none o]
    by_cases cleared : seg.Contains o ∧ mr.Contains o
    · have below : o < min seg.stop mr.stop := Nat.lt_min.mpr ⟨cleared.1.2, cleared.2.2⟩
      rw [if_pos cleared, if_pos ⟨cleared.2, below⟩, inv.segment.2 o cleared.1, cleaned_of_drop dropped]
    · rw [if_neg cleared, inv.reads o]
      by_cases passing : mr.Contains o ∧ o < min seg.stop mr.stop
      · rw [if_pos passing]
        by_cases early : o < passed
        · rw [if_pos ⟨passing.1, early⟩]
        · -- past `passed` and outside `seg`: in the gap before it
          have gap : o < seg.start := Nat.lt_of_not_le fun above => cleared ⟨⟨above, by omega⟩, passing.1⟩
          rw [if_neg fun both => early both.2, inv.cleaned_ahead (by omega) (by omega) (.inl gap)]
      · rw [if_neg passing, if_neg fun both => passing ⟨both.1, by omega⟩]
  · rw [Nat.min_assoc, Nat.min_self]
    exact (inv.turnBytes (Nat.le_of_lt nonempty) starts).symm
  · rcases List.mem_append.mp member with piece | earlier
    · rw [List.mem_reverse] at piece
      split at piece
      · rw [List.mem_singleton.mp piece]
        dsimp only
        omega
      · cases piece
    · have := inv.behind s earlier
      omega
  · rcases List.mem_append.mp later with piece | later
    · split at piece
      · rw [List.mem_singleton.mp piece]
        exact ⟨by dsimp only; omega, by dsimp only; omega⟩
      · cases piece
    · have := restAfter s later
      exact ⟨by omega, (inv.ahead s (List.mem_cons_of_mem seg later)).2⟩

theorem SyncInvariant.failed (ordered : mr.start ≤ mr.stop) (starts : seg.start < mr.stop) {ds : DirtySet} (sorted : Sorted ds)
    (same : ∀ o, lookup o ds = lookup o (before.reverse ++ seg :: rest)) {calls : Calls} {err : E}
    (wrote : written writeAt calls <+: rangeBytes cache limit (max seg.start mr.start) (min seg.stop mr.stop)) :
    SyncOutcome writeAt cache dirty mr limit sent ds calls (.error err) := by
  have within : sent ++ written writeAt calls <+: syncedBytes cache dirty ⟨mr.start, min seg.stop mr.stop⟩ limit := by
    rw [inv.turnBytes ordered starts]
    exact (List.prefix_append_right_inj sent).mpr wrote
  have reaches := (inv.ahead seg List.mem_cons_self).2
  refine ⟨sorted, within.trans (syncedBytes_initial ordered (by omega)), passed, fun o => by rw [same, inv.reads],
    ?_, fun ok => by cases ok⟩
  rw [← inv.wrote]
  exact List.prefix_append _ _

end Turn

variable (maps : ∀ fr ims, mapInternal fr = .ok ims → ims = List.range' fr.start (fr.stop - fr.start))
include maps

/-- The loop of `syncDirtyRange` over sorted cache segments writes, when it
succeeds, the bytes they hold at the offsets of `r` below `max`, in order;
when it fails, a prefix of them. -/
theorem syncDirtyRangeLoop_spec (r : MappableRange) (limit : Nat) (ordered : r.start ≤ r.stop) :
    ∀ (segs : FileRangeSet), Sorted segs → (∀ s ∈ segs, r.start < s.stop) → ∀ {calls : Calls} {result : Except E Unit},
      syncDirtyRangeLoop mapInternal writeAt r limit segs = some (calls, result) →
      (result = .ok () → written writeAt calls = rangeBytes segs limit r.start r.stop) ∧
        written writeAt calls <+: rangeBytes segs limit r.start r.stop
  | [], _, _, calls, result, ran => by
      simp only [syncDirtyRangeLoop, Option.some.injEq, Prod.mk.injEq] at ran
      obtain ⟨rfl, rfl⟩ := ran
      rw [rangeBytes_eq_nil fun o _ _ _ => rfl]
      exact ⟨fun _ => rfl, List.nil_prefix⟩
  | seg :: rest, sorted, reaches, calls, result, ran => by
      obtain ⟨nonempty, restAfter, restSorted⟩ := sorted_cons_iff.mp sorted
      have segReaches := reaches seg List.mem_cons_self
      have restNone : ∀ o, o < seg.stop → cachedByte rest o = none := fun o below =>
        readAt_eq_none.mpr fun t member inside => by
          have := restAfter t member
          have := inside.1
          omega
      -- before `seg` no cache segment holds a byte
      have early : ∀ high, high ≤ max seg.start r.start → rangeBytes (seg :: rest) limit r.start high = [] :=
        fun high bound => rangeBytes_eq_nil fun o above below _ => by
          rw [cachedByte, readAt_cons, if_neg fun inside => by have := inside.1; omega]
          exact restNone o (by omega)
      unfold syncDirtyRangeLoop at ran
      split at ran
      · next starts =>
        rw [segRange_intersect (by omega)] at ran
        dsimp only at ran
        split at ran
        · next beyond =>
          simp only [Option.some.injEq, Prod.mk.injEq] at ran
          obtain ⟨rfl, rfl⟩ := ran
          rw [rangeBytes_split (Nat.le_max_right seg.start r.start) (show max seg.start r.start ≤ r.stop by omega),
            early _ (Nat.le_refl _), List.nil_append, rangeBytes_eq_nil fun o above _ small => by omega]
          exact ⟨fun _ => rfl, List.nil_prefix⟩
        · next reached =>
          -- the cache bytes of `seg` in `r`, and then those of the segments after it
          have whole : rangeBytes (seg :: rest) limit r.start r.stop =
              rangeBytes (seg :: rest) limit (max seg.start r.start) (min seg.stop r.stop) ++
                rangeBytes rest limit r.start r.stop := by
            rw [rangeBytes_split (Nat.le_max_right seg.start r.start) (show max seg.start r.start ≤ r.stop by omega),
              early _ (Nat.le_refl _), List.nil_append,
              rangeBytes_split (show max seg.start r.start ≤ min seg.stop r.stop by omega) (Nat.min_le_right _ _),
              rangeBytes_split (Nat.le_max_right seg.start r.start) (show max seg.start r.start ≤ r.stop by omega),
              (rangeBytes_eq_nil fun o _ below _ => restNone o (by omega) :
                rangeBytes rest limit r.start (max seg.start r.start) = []),
              rangeBytes_split (show max seg.start r.start ≤ min seg.stop r.stop by omega) (Nat.min_le_right _ _),
              (rangeBytes_eq_nil fun o _ below _ => restNone o (by omega) :
                rangeBytes rest limit (max seg.start r.start) (min seg.stop r.stop) = []),
              List.nil_append, List.nil_append]
            congr 1
            exact rangeBytes_congr fun o above _ => by
              rw [cachedByte, readAt_cons, if_neg fun inside => by have := inside.2; omega]
              rfl
          have piece : rangeBytes (seg :: rest) limit (max seg.start r.start) (min seg.stop r.stop) = _ :=
            rangeBytes_segment (Nat.le_max_left seg.start r.start) (Nat.min_le_left _ _)
              (show max seg.start r.start ≤ limit by omega)
          rw [whole, piece]
          split at ran
          · simp only [Option.some.injEq, Prod.mk.injEq] at ran
            obtain ⟨rfl, rfl⟩ := ran
            exact ⟨fun ok => (by cases ok), List.nil_prefix⟩
          · next ims mapped =>
            rw [maps _ ims mapped] at ran
            simp only [fileRangeOf, MappableRange.length] at ran
            rw [show seg.value + (max seg.start r.start - seg.start) + (min seg.stop r.stop - max seg.start r.start) -
                (seg.value + (max seg.start r.start - seg.start)) = min seg.stop r.stop - max seg.start r.start by omega]
              at ran
            split at ran
            · cases ran
            · next wrote =>
              simp only [Option.some.injEq, Prod.mk.injEq] at ran
              obtain ⟨rfl, rfl⟩ := ran
              exact ⟨fun ok => (by cases ok), (writeAll_spec _ _ wrote).2.trans (List.prefix_append _ _)⟩
            · next wrote =>
              obtain ⟨⟨more, moreResult⟩, ranRest, same⟩ := Option.map_eq_some_iff.mp ran
              simp only [Prod.mk.injEq] at same
              obtain ⟨rfl, rfl⟩ := same
              have rest := syncDirtyRangeLoop_spec r limit ordered rest restSorted
                (fun s member => reaches s (List.mem_cons_of_mem seg member)) ranRest
              rw [written_append, (writeAll_spec _ _ wrote).1 rfl]
              exact ⟨fun ok => by rw [rest.1 ok], (List.prefix_append_right_inj _).mpr rest.2⟩
      · next beyond =>
        simp only [Option.some.injEq, Prod.mk.injEq] at ran
        obtain ⟨rfl, rfl⟩ := ran
        rw [early r.stop (by omega)]
        exact ⟨fun _ => rfl, List.nil_prefix⟩

theorem syncDirtyRange_spec {cache : FileRangeSet} (sorted : Sorted cache) {r : MappableRange}
    (ordered : r.start ≤ r.stop) (limit : Nat) {calls : Calls} {result : Except E Unit}
    (ran : syncDirtyRange mapInternal writeAt r cache limit = some (calls, result)) :
    (result = .ok () → written writeAt calls = rangeBytes cache limit r.start r.stop) ∧
      written writeAt calls <+: rangeBytes cache limit r.start r.stop := by
  have same : rangeBytes (segmentsFrom r.start cache) limit r.start r.stop = rangeBytes cache limit r.start r.stop :=
    rangeBytes_congr fun o above _ => by
      have beforeNone : readAt (fun seg o => seg.value + (o - seg.start)) o (segmentsBefore r.start cache).reverse =
          none := readAt_eq_none.mpr fun s member inside => by
        have := stop_le_of_mem_segmentsBefore (List.mem_reverse.mp member)
        have := inside.2
        omega
      conv_rhs => rw [← segmentsBefore_append_segmentsFrom r.start cache]
      rw [cachedByte, cachedByte, readAt_append, beforeNone, Option.none_or]
  rw [← same]
  exact syncDirtyRangeLoop_spec mapInternal maps r limit ordered _ (sorted_segmentsFrom sorted)
    (lt_stop_of_mem_segmentsFrom sorted) ran

/-- From any turn where `SyncInvariant` holds, the loop of `SyncDirty` ends
with what `SyncOutcome` says; the fuel outlasts the segments of `mr`
ahead, each turn passing one. -/
theorem syncDirtyLoop_spec (cacheSorted : Sorted cache) (progress : WritesSome writeAt) (nonempty : mr.start < mr.stop) :
    ∀ (fuel : Nat) {passed : Nat} {before after : DirtySet} {sent : List (Nat × Nat)} (changed : Bool),
      SyncInvariant cache dirty mr limit passed before after sent → after.countP (·.start < mr.stop) < fuel →
      ∃ ds calls result changed', syncDirtyLoop mapInternal writeAt mr cache limit fuel before after changed =
        some (ds, calls, result, changed') ∧ SyncOutcome writeAt cache dirty mr limit sent ds calls result
  | 0, _, _, _, _, _, _, enough => absurd enough (Nat.not_lt_zero _)
  | fuel + 1, passed, before, [], sent, changed, inv, _ =>
      ⟨_, _, _, _, rfl, by
        simpa only [List.append_nil] using inv.finish (Nat.le_of_lt nonempty) fun o _ above => by
          rw [List.append_nil, inv.passed_none above]⟩
  | fuel + 1, passed, before, seg :: rest, sent, changed, inv, enough => by
      have reaches := (inv.ahead seg List.mem_cons_self).2
      obtain ⟨segNonempty, restAfter, -⟩ := sorted_cons_iff.mp (sorted_append_iff.mp inv.sorted).2.1
      unfold syncDirtyLoop
      by_cases starts : seg.start < mr.stop
      · rw [if_pos starts]
        have fewer : rest.countP (·.start < mr.stop) < fuel := by
          rw [List.countP_cons_of_pos (by simpa using starts)] at enough
          omega
        have ordered : max seg.start mr.start ≤ min seg.stop mr.stop := by omega
        -- either way the turn writes back the segment's part in `mr`
        obtain ⟨⟨calls, result⟩, ranRange⟩ := Option.isSome_iff_exists.mp
          (syncDirtyRange_isSome mapInternal progress ⟨max seg.start mr.start, min seg.stop mr.stop⟩ cache limit)
        have spec := syncDirtyRange_spec mapInternal maps cacheSorted ordered limit ranRange
        cases kept : seg.value.keep
        · -- not kept: its part in `mr` is isolated, written back and removed
          rw [if_neg Bool.false_ne_true]
          have cut := isolate_eq dirtySplit_keeps ⟨starts, reaches⟩ nonempty
          generalize pieces : isolate dirtySplit seg mr.start mr.stop = triple at cut ⊢
          obtain ⟨pre, mid, post⟩ := triple
          obtain ⟨rfl, postEq⟩ := Prod.mk.inj (Prod.mk.inj cut).2
          dsimp only
          rw [show segRange (⟨max seg.start mr.start, min seg.stop mr.stop, seg.value⟩ : Seg DirtyInfo) =
            ⟨max seg.start mr.start, min seg.stop mr.stop⟩ from rfl, ranRange]
          cases result with
          | error err =>
              have spliced := (isolate_splice nonempty ⟨starts, reaches⟩ pieces before rest).2
              refine ⟨_, _, _, _, rfl, inv.failed (Nat.le_of_lt nonempty) starts
                (spliced ▸ sorted_splice_isolatePieces nonempty inv.sorted ⟨starts, reaches⟩ _) (fun o => ?_) spec.2⟩
              rw [spliced, lookup_splice_isolatePieces nonempty inv.sorted ⟨starts, reaches⟩ _ o]
              split
              · next inside => rw [lookup_of_mem inv.sorted (by simp) inside.1]
              · rfl
          | ok u =>
              -- the piece after `mr` starts at its end, where the next turn stops
              have pastEnd : (post ++ rest).countP (·.start < mr.stop) < fuel := by
                rw [List.countP_append, postEq]
                split <;> simpa using fewer
              obtain ⟨ds, more, result, changed', ranRest, outcome⟩ := syncDirtyLoop_spec cacheSorted progress nonempty
                fuel true (inv.passRemoved nonempty starts kept pieces) pastEnd
              refine ⟨ds, calls ++ more, result, changed', by rw [ranRest]; rfl, syncOutcome_append ?_⟩
              rwa [spec.1 rfl]
        · -- kept: written back over its part in `mr`, and left as it is
          rw [if_pos rfl, segRange_intersect ordered, ranRange]
          cases result with
          | error err => exact ⟨_, _, _, _, rfl, inv.failed (Nat.le_of_lt nonempty) starts inv.sorted (fun _ => rfl) spec.2⟩
          | ok u =>
              obtain ⟨ds, more, result, changed', ranRest, outcome⟩ := syncDirtyLoop_spec cacheSorted progress nonempty
                fuel changed (inv.passKept (Nat.le_of_lt nonempty) starts kept) fewer
              refine ⟨ds, calls ++ more, result, changed', by rw [ranRest]; rfl, syncOutcome_append ?_⟩
              rwa [spec.1 rfl]
      · -- the segment lies past `mr`, and so do all after it
        rw [if_neg starts]
        refine ⟨_, _, _, _, rfl, inv.finish (Nat.le_of_lt nonempty) fun o inside above => ?_⟩
        rw [lookup_append, inv.passed_none above, Option.none_or]
        refine lookup_eq_none_of_lt (fun s member => ?_) inside.2
        rcases List.mem_cons.mp member with rfl | later
        · omega
        · have := restAfter s later
          omega

/-- `SyncDirty` over sorted sets ends, with what `SyncOutcome` says from
nothing written. -/
theorem syncDirty_spec (sorted : Sorted dirty) (cacheSorted : Sorted cache) (progress : WritesSome writeAt)
    (nonempty : mr.start < mr.stop) :
    ∃ result after calls, syncDirty mapInternal writeAt mr cache dirty limit = some (result, after, calls) ∧
      SyncOutcome writeAt cache dirty mr limit [] after calls result := by
  have start : SyncInvariant cache dirty mr limit mr.start (segmentsBefore mr.start dirty) (segmentsFrom mr.start dirty) [] := by
    refine ⟨(segmentsBefore_append_segmentsFrom mr.start dirty).symm ▸ sorted, fun o => ?_, ?_, Nat.le_refl _,
      fun s member => stop_le_of_mem_segmentsBefore member,
      fun s member => ⟨Nat.le_max_right _ _, lt_stop_of_mem_segmentsFrom sorted s member⟩⟩
    · rw [segmentsBefore_append_segmentsFrom, if_neg fun early => Nat.lt_irrefl _ (Nat.lt_of_le_of_lt early.1.1 early.2)]
    · rw [Nat.min_eq_left (Nat.le_of_lt nonempty)]
      simp [syncedBytes, offsetsIn]
  have enough : (segmentsFrom mr.start dirty).countP (·.start < mr.stop) < dirty.length + 1 := by
    have whole := congrArg List.length (segmentsBefore_append_segmentsFrom mr.start dirty)
    have bound : (segmentsFrom mr.start dirty).countP (·.start < mr.stop) ≤ (segmentsFrom mr.start dirty).length :=
      List.countP_le_length
    rw [List.length_append] at whole
    omega
  obtain ⟨ds, calls, result, changed, ran, sortedDs, bytes, passed, reads, covered, ok⟩ :=
    syncDirtyLoop_spec mapInternal maps cacheSorted progress nonempty _ false start enough
  -- the merge over `mr` after an isolation changes no offset
  have merged : Sorted (if changed then mergeRange dirtyMerge mr.start mr.stop ds else ds) ∧
      ∀ o, lookup o (if changed then mergeRange dirtyMerge mr.start mr.stop ds else ds) = lookup o ds := by
    split
    · exact mergeRange_dirty sortedDs _ _
    · exact ⟨sortedDs, fun _ => rfl⟩
  exact ⟨result, _, calls, by rw [syncDirty, ran]; rfl, merged.1, bytes, passed, fun o => by rw [merged.2, reads],
    covered, ok⟩

end Sync

section Refinement

variable {E : Type} (mapInternal : FileRange → Except E (List Nat)) (writeAt : List Nat → Nat → Except E Nat)

theorem dirtySet_refines_offsetStates
    (maps : ∀ fr ims, mapInternal fr = .ok ims → ims = List.range' fr.start (fr.stop - fr.start))
    (progress : WritesSome writeAt) {ds : DirtySet} (sorted : Sorted ds) {mr : MappableRange}
    (nonempty : mr.start < mr.stop) (bounded : mr.stop ≤ maxKey) :
    (∃ result, markDirty ds mr = some result ∧ Sorted result ∧ Updates ds result mr OffsetState.markDirty) ∧
    (∃ result, keepDirty ds mr = some result ∧ Sorted result ∧ Updates ds result mr fun _ => .keptDirty) ∧
    (Sorted (markClean ds mr) ∧ Updates ds (markClean ds mr) mr OffsetState.markClean) ∧
    (Sorted (keepClean ds mr) ∧ Updates ds (keepClean ds mr) mr fun _ => .clean) ∧
    (Sorted (allowClean ds mr) ∧ Updates ds (allowClean ds mr) mr OffsetState.allowClean) ∧
    ∀ cache : FileRangeSet, Sorted cache → ∀ limit, ∃ result after calls,
      syncDirty mapInternal writeAt mr cache ds limit = some (result, after, calls) ∧ Sorted after ∧
      written writeAt calls <+: syncedBytes cache ds mr limit ∧
      (result = .ok () → written writeAt calls = syncedBytes cache ds mr limit ∧ Updates ds after mr OffsetState.markClean) ∧
      ∀ o, stateAt after o ≠ stateAt ds o → mr.Contains o ∧ stateAt ds o = .dirty ∧ stateAt after o = .clean ∧
        (limit ≤ o ∨ cachedByte cache o = none ∨ ∃ byte, (o, byte) ∈ written writeAt calls) := by
  refine ⟨markDirty_updates sorted nonempty bounded, keepDirty_updates sorted nonempty bounded,
    markClean_updates sorted nonempty, keepClean_updates sorted nonempty, allowClean_updates sorted nonempty,
    fun cache cacheSorted limit => ?_⟩
  obtain ⟨result, after, calls, ran, afterSorted, bytes, passed, reads, covered, ok⟩ :=
    syncDirty_spec mapInternal maps sorted cacheSorted progress nonempty
  rw [List.nil_append] at bytes covered ok
  refine ⟨result, after, calls, ran, afterSorted, bytes, fun success => ?_, fun o changed => ?_⟩
  · obtain ⟨all, same⟩ := ok success
    refine ⟨same, fun o => ?_⟩
    rw [stateAt, reads o, stateAt]
    by_cases inside : mr.Contains o
    · rw [if_pos ⟨inside, all o inside⟩, if_pos inside, ofInfo_cleaned]
    · rw [if_neg fun both => inside both.1, if_neg inside]
  · -- only the offsets `SyncDirty` passed change, and only dirty ones
    by_cases passing : mr.Contains o ∧ o < passed
    · rw [stateAt, reads o, if_pos passing, stateAt] at changed
      have dirtyHere := eq_dirty_of_cleaned_ne changed
      refine ⟨passing.1, by rw [stateAt, dirtyHere]; rfl, by rw [stateAt, reads o, if_pos passing, dirtyHere]; rfl, ?_⟩
      by_cases small : o < limit
      · cases cached : cachedByte cache o with
        | none => exact .inr (.inl rfl)
        | some byte =>
            -- a byte meant for write-back below `passed`, so written
            refine .inr (.inr ⟨byte, covered.subset (List.mem_filterMap.mpr ⟨o, ?_, ?_⟩)⟩)
            · exact mem_offsetsIn.mpr ⟨passing.1.1, Nat.lt_min.mpr ⟨passing.2, passing.1.2⟩⟩
            · rw [syncedAt, if_pos ⟨small, by rw [stateAt, dirtyHere]; decide⟩, cached]
              rfl
      · exact .inl (Nat.le_of_not_lt small)
    · rw [stateAt, reads o, if_neg passing] at changed
      exact absurd rfl changed

theorem dirtySet_refines_offsetStates_sample :
    Updates [⟨0, 4, ⟨false⟩⟩] (markClean [⟨0, 4, ⟨false⟩⟩] ⟨1, 3⟩) ⟨1, 3⟩ OffsetState.markClean :=
  (@dirtySet_refines_offsetStates Unit (fun fr => .ok (List.range' fr.start (fr.stop - fr.start))) (fun _ _ => .error ())
    (fun _ _ mapped => (Except.ok.inj mapped).symm) (fun _ _ _ _ wrote => by cases wrote) [⟨0, 4, ⟨false⟩⟩]
    (show 0 < 4 by decide) ⟨1, 3⟩ (show 1 < 3 by decide) (by decide)).2.2.1.2

/-- `MarkClean` of the empty range `[5, 5)` inside a dirty segment cleans
`[5, 10)`: `Isolate` cuts the segment at 5 only. A `SyncDirty` whose
`writeAt` fails still cleans the dirty offsets it has passed that the cache
does not hold, with nothing written for them. -/
theorem dirtySet_cleans_unwritten_offsets :
    (stateAt [⟨0, 10, ⟨false⟩⟩] 5 = .dirty ∧ stateAt (markClean [⟨0, 10, ⟨false⟩⟩] ⟨5, 5⟩) 5 = .clean ∧
      ¬(⟨5, 5⟩ : MappableRange).Contains 5) ∧
    syncDirty (fun fr => (.ok (List.range' fr.start (fr.stop - fr.start)) : Except Unit (List Nat)))
        (fun _ _ => .error ()) ⟨0, 4⟩ [⟨3, 4, 1⟩] [⟨0, 2, ⟨false⟩⟩, ⟨3, 4, ⟨false⟩⟩] 10 =
      some (.error (), [⟨3, 4, ⟨false⟩⟩], [([1], 3)]) ∧
    stateAt [⟨0, 2, ⟨false⟩⟩, ⟨3, 4, ⟨false⟩⟩] 1 = .dirty ∧ stateAt [⟨3, 4, ⟨false⟩⟩] 1 = .clean ∧
    written (fun _ _ => (.error () : Except Unit Nat)) [([1], 3)] = [] :=
  ⟨by decide, by decide +kernel⟩

end Refinement

end Cijitter.Fsutil
