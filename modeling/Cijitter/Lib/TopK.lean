import Mathlib

/-! Keeping the `k` largest items of a stream, largest first: each item is
inserted before the first item of smaller value, after those of its own
value, and the list is cut back to `k`. Starting from `k` copies of a padding
item, the kept list holds the largest items seen above the padding's value;
every item above the padding that is not kept is no larger than any kept
item. -/

set_option autoImplicit false

namespace TopK

variable {α β : Type} [LinearOrder β] (val : α → β)

/-- Largest first. -/
def Descending (l : List α) : Prop :=
  l.Pairwise fun x y => val y ≤ val x

/-- Insert `a` before the first item of smaller value. -/
def insertBefore (a : α) : List α → List α
  | [] => [a]
  | b :: l => if val b < val a then a :: b :: l else b :: insertBefore a l

/-- Insert `a` and keep the first `k`. -/
def insertTop (k : Nat) (l : List α) (a : α) : List α :=
  (insertBefore val a l).take k

variable {val}

theorem insertBefore_perm (a : α) (l : List α) : (insertBefore val a l).Perm (a :: l) := by
  induction l with
  | nil => rfl
  | cons b l ih =>
    dsimp only [insertBefore]
    split
    · exact List.Perm.refl _
    · exact (ih.cons b).trans (List.Perm.swap a b l)

theorem mem_insertBefore {a x : α} {l : List α} : x ∈ insertBefore val a l ↔ x = a ∨ x ∈ l := by
  rw [(insertBefore_perm a l).mem_iff, List.mem_cons]

theorem length_insertBefore (a : α) (l : List α) :
    (insertBefore val a l).length = l.length + 1 := by
  rw [(insertBefore_perm a l).length_eq, List.length_cons]

theorem insertBefore_eq (a : α) (l : List α) :
    insertBefore val a l =
      l.take (l.findIdx fun b => val b < val a) ++
        a :: l.drop (l.findIdx fun b => val b < val a) := by
  induction l with
  | nil => rfl
  | cons b l ih =>
    dsimp only [insertBefore]
    by_cases smaller : val b < val a
    · simp [smaller, List.findIdx_cons]
    · simp [smaller, ih, List.findIdx_cons]

theorem Descending.insertBefore {l : List α} (sorted : Descending val l) (a : α) :
    Descending val (insertBefore val a l) := by
  induction l with
  | nil => exact List.pairwise_singleton _ a
  | cons b l ih =>
    have tail := List.pairwise_cons.1 sorted
    dsimp only [TopK.insertBefore]
    split
    · rename_i smaller
      refine List.pairwise_cons.2 ⟨fun x mem => ?_, sorted⟩
      rcases List.mem_cons.1 mem with rfl | later
      · exact le_of_lt smaller
      · exact le_trans (tail.1 x later) (le_of_lt smaller)
    · rename_i notSmaller
      refine List.pairwise_cons.2 ⟨fun x mem => ?_, ih tail.2⟩
      rcases mem_insertBefore.1 mem with rfl | later
      · exact le_of_not_gt notSmaller
      · exact tail.1 x later

theorem Descending.take {l : List α} (sorted : Descending val l) (k : Nat) :
    Descending val (l.take k) :=
  sorted.sublist (List.take_sublist k l)

theorem Descending.le_of_mem_drop {l : List α} (sorted : Descending val l) {k : Nat} {x y : α}
    (dropped : x ∈ l.drop k) (kept : y ∈ l.take k) : val x ≤ val y := by
  rw [← List.take_append_drop k l] at sorted
  exact (List.pairwise_append.1 sorted).2.2 y kept x dropped

theorem getElem?_insertBefore (a : α) (l : List α) (j : Nat) :
    (insertBefore val a l)[j]? =
      if j < l.findIdx (fun b => val b < val a) then l[j]?
      else if j = l.findIdx (fun b => val b < val a) then some a
      else l[j - 1]? := by
  have bound : l.findIdx (fun b => val b < val a) ≤ l.length := List.findIdx_le_length
  rw [insertBefore_eq, List.getElem?_append, List.length_take, Nat.min_eq_left bound]
  split_ifs with before same
  · rw [List.getElem?_take, if_pos before]
  · subst same
    simp
  · -- past the inserted item, every index moves up by one
    rw [List.getElem?_cons]
    split_ifs with zero
    · omega
    · rw [List.getElem?_drop]
      congr 1
      omega

theorem insertBefore_of_le {a : α} {l : List α} (small : ∀ b ∈ l, val a ≤ val b) :
    insertBefore val a l = l ++ [a] := by
  induction l with
  | nil => rfl
  | cons b l ih =>
    dsimp only [insertBefore]
    rw [if_neg (not_lt.2 (small b (List.mem_cons_self ..))),
      ih fun c mem => small c (List.mem_cons_of_mem b mem), List.cons_append]

theorem exists_lt_of_mem_take {a : α} {l : List α} {k : Nat} (short : k ≤ l.length)
    (fresh : a ∉ l) (kept : a ∈ (insertBefore val a l).take k) : ∃ b ∈ l, val b < val a := by
  by_contra none
  push Not at none
  rw [insertBefore_of_le none, List.take_append_of_le_length short] at kept
  exact fresh (List.mem_of_mem_take kept)

/-! ## A stream of items -/

section Stream

variable [DecidableEq α] (val) (pad : α) (k : Nat)

/-- What the kept list says of the items seen: `k` items, largest first, each
the padding or a seen item above it, none twice but the padding, and every
seen item above the padding that is not kept no larger than any kept item. -/
structure KeepsTop (seen kept : List α) : Prop where
  length : kept.length = k
  descending : Descending val kept
  members : ∀ x ∈ kept, x = pad ∨ x ∈ seen ∧ val pad < val x
  nodup : (kept.filter (· ≠ pad)).Nodup
  dropped : ∀ x ∈ seen, val pad < val x → x ∉ kept → ∀ y ∈ kept, val x ≤ val y

variable {val pad k}

theorem keepsTop_replicate : KeepsTop val pad k [] (List.replicate k pad) where
  length := List.length_replicate
  descending := List.pairwise_replicate.2 (.inr (le_refl _))
  members x mem := .inl (List.eq_of_mem_replicate mem)
  nodup := by simp
  dropped x mem := absurd mem List.not_mem_nil

theorem KeepsTop.insertTop_of_le {seen kept : List α} (keeps : KeepsTop val pad k seen kept)
    {a : α} (small : val a ≤ val pad) : TopK.insertTop val k kept a = kept := by
  have aboveAll : ∀ b ∈ kept, val a ≤ val b := fun b mem => by
    rcases keeps.members b mem with rfl | ⟨-, above⟩
    · exact small
    · exact le_trans small (le_of_lt above)
  unfold TopK.insertTop
  rw [insertBefore_of_le aboveAll, List.take_append_of_le_length (Nat.le_of_eq keeps.length.symm),
    List.take_of_length_le (Nat.le_of_eq keeps.length)]

theorem KeepsTop.insertTop {seen kept : List α} (keeps : KeepsTop val pad k seen kept) {a : α}
    (fresh : a ∉ seen) : KeepsTop val pad k (seen ++ [a]) (TopK.insertTop val k kept a) := by
  by_cases above : val pad < val a
  case neg =>
    -- nothing changes, and `a` is not an item above the padding
    rw [keeps.insertTop_of_le (le_of_not_gt above)]
    refine ⟨keeps.length, keeps.descending, fun x mem => ?_, keeps.nodup, fun x mem xAbove => ?_⟩
    · rcases keeps.members x mem with isPad | ⟨seenX, xAbove⟩
      · exact .inl isPad
      · exact .inr ⟨List.mem_append_left _ seenX, xAbove⟩
    · rcases List.mem_append.1 mem with old | new
      · exact keeps.dropped x old xAbove
      · rw [List.mem_singleton.1 new] at xAbove
        exact absurd xAbove above
  case pos =>
  have notPad : a ≠ pad := fun isPad => lt_irrefl _ (isPad ▸ above)
  have notKept : a ∉ kept := fun mem => by
    rcases keeps.members a mem with isPad | ⟨seenA, -⟩
    · exact notPad isPad
    · exact fresh seenA
  have sorted := keeps.descending.insertBefore a
  have longEnough : k ≤ (insertBefore val a kept).length := by
    rw [length_insertBefore, keeps.length]
    exact Nat.le_succ k
  unfold TopK.insertTop
  refine ⟨List.length_take_of_le longEnough, sorted.take k, fun x mem => ?_, ?_, ?_⟩
  · rcases mem_insertBefore.1 (List.mem_of_mem_take mem) with rfl | old
    · exact .inr ⟨List.mem_append_right _ (List.mem_singleton_self x), above⟩
    · rcases keeps.members x old with isPad | ⟨seenX, xAbove⟩
      · exact .inl isPad
      · exact .inr ⟨List.mem_append_left _ seenX, xAbove⟩
  · -- the items other than the padding are those of `a :: kept`, cut down
    have whole : ((insertBefore val a kept).filter (· ≠ pad)).Nodup := by
      rw [((insertBefore_perm a kept).filter _).nodup_iff, List.filter_cons_of_pos (by simpa using notPad)]
      exact List.nodup_cons.2 ⟨fun mem => notKept (List.mem_of_mem_filter mem), keeps.nodup⟩
    exact whole.sublist ((List.take_sublist k _).filter _)
  · intro x mem xAbove notKept' y kept'
    have cutOff : x ∈ (insertBefore val a kept).drop k ∨ x ∉ insertBefore val a kept := by
      by_cases inserted : x ∈ insertBefore val a kept
      · rw [← List.take_append_drop k (insertBefore val a kept)] at inserted
        rcases List.mem_append.1 inserted with early | late
        · exact absurd early notKept'
        · exact .inl late
      · exact .inr inserted
    rcases cutOff with late | missing
    · exact sorted.le_of_mem_drop late kept'
    · -- `x` was dropped before; the kept items are old ones or `a`, which beat an old one
      have seenX : x ∈ seen := by
        rcases List.mem_append.1 mem with old | new
        · exact old
        · exact absurd (mem_insertBefore.2 (.inl (List.mem_singleton.1 new))) missing
      have oldDropped : x ∉ kept := fun inKept => missing (mem_insertBefore.2 (.inr inKept))
      have belowKept := keeps.dropped x seenX xAbove oldDropped
      rcases mem_insertBefore.1 (List.mem_of_mem_take kept') with rfl | old
      · obtain ⟨b, bKept, smaller⟩ :=
          exists_lt_of_mem_take (Nat.le_of_eq keeps.length.symm) notKept kept'
        exact le_trans (belowKept b bKept) (le_of_lt smaller)
      · exact belowKept y old

theorem KeepsTop.foldl {seen kept : List α} (keeps : KeepsTop val pad k seen kept)
    {items : List α} (distinct : (seen ++ items).Nodup) :
    KeepsTop val pad k (seen ++ items) (items.foldl (TopK.insertTop val k) kept) := by
  induction items generalizing seen kept with
  | nil => simpa using keeps
  | cons a items ih =>
    have fresh : a ∉ seen := fun mem =>
      (List.nodup_append.1 distinct).2.2 a mem a (List.mem_cons_self ..) rfl
    have next := ih (keeps.insertTop fresh) (by simpa using distinct)
    simpa using next

theorem KeepsTop.of_mem_iff {seen seen' kept : List α} (keeps : KeepsTop val pad k seen kept)
    (same : ∀ x, x ∈ seen ↔ x ∈ seen') : KeepsTop val pad k seen' kept where
  length := keeps.length
  descending := keeps.descending
  members x mem := (keeps.members x mem).imp_right fun ⟨seenX, above⟩ => ⟨(same x).1 seenX, above⟩
  nodup := keeps.nodup
  dropped x mem := keeps.dropped x ((same x).2 mem)

theorem foldl_insertTop_replicate {items : List α} (small : ∀ a ∈ items, val a ≤ val pad) :
    items.foldl (insertTop val k) (List.replicate k pad) = List.replicate k pad := by
  induction items with
  | nil => rfl
  | cons a items ih =>
    rw [List.foldl_cons, keepsTop_replicate.insertTop_of_le (small a (List.mem_cons_self ..))]
    exact ih fun b mem => small b (List.mem_cons_of_mem a mem)

theorem KeepsTop.map {γ : Type} [DecidableEq γ] {val' : γ → β} {f : α → γ}
    (inj : Function.Injective f) (values : ∀ x, val' (f x) = val x) {seen kept : List α}
    (keeps : KeepsTop val pad k seen kept) : KeepsTop val' (f pad) k (seen.map f) (kept.map f) where
  length := by rw [List.length_map, keeps.length]
  descending := List.pairwise_map.2 (keeps.descending.imp fun {x y} le => by rwa [values, values])
  members y mem := by
    obtain ⟨x, kept, rfl⟩ := List.mem_map.1 mem
    rcases keeps.members x kept with rfl | ⟨seenX, above⟩
    · exact .inl rfl
    · exact .inr ⟨List.mem_map_of_mem seenX, by rwa [values, values]⟩
  nodup := by
    have renamed : (kept.map f).filter (· ≠ f pad) = (kept.filter (· ≠ pad)).map f := by
      rw [List.filter_map]
      congr 1
      exact List.filter_congr fun x _ => by simp [Function.comp, inj.ne_iff]
    rw [renamed]
    exact List.Nodup.map inj keeps.nodup
  dropped y mem above notKept z keptZ := by
    obtain ⟨x, seenX, rfl⟩ := List.mem_map.1 mem
    obtain ⟨w, keptW, rfl⟩ := List.mem_map.1 keptZ
    rw [values, values] at above ⊢
    exact keeps.dropped x seenX above (fun kept => notKept (List.mem_map_of_mem kept)) w keptW

end Stream

end TopK
