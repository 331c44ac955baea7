import Cijitter.Tcp.SackScoreboard

/-! What the SACK scoreboard holds. Inside a window of fewer than `2 ^ 31`
sequence numbers from a `base`, `lessThan` is the order of the distances from
`base`, so the scoreboard's ranges are intervals of those distances. They are
kept `Canonical`: each non-empty and inside the window, in ascending order
with a hole between neighbours, which the B-tree's order by start needs and
which makes the count of bytes the sum of their lengths. `Insert` and
`Delete` keep that form, `Insert` adding its block to the sequence numbers
held and `Delete` removing those before its point. -/

set_option autoImplicit false

namespace Cijitter.Tcp

/-! ### Sequence numbers inside a window -/

section Window

variable (base : SeqValue)

/-- The distance of `v` from `base`, going up. -/
def offset (v : SeqValue) : Nat :=
  (v - base).toNat

theorem offset_lt (v : SeqValue) : offset base v < 2 ^ 32 :=
  (v - base).toNat_lt

theorem toNat_sub_eq_offset (v w : SeqValue) :
    (v - w).toNat = (2 ^ 32 - offset base w + offset base v) % 2 ^ 32 := by
  unfold offset
  rw [UInt32.toNat_sub, UInt32.toNat_sub, UInt32.toNat_sub]
  have := v.toNat_lt
  have := w.toNat_lt
  have := base.toNat_lt
  omega

variable {base}

theorem lessThan_eq_decide {v w : SeqValue} (hv : offset base v < 2 ^ 31) (hw : offset base w < 2 ^ 31) :
    lessThan v w = decide (offset base v < offset base w) := by
  rw [lessThan, toNat_sub_eq_offset base]
  apply decide_eq_decide.mpr
  omega

theorem offset_inj {v w : SeqValue} (same : offset base v = offset base w) : v = w := by
  unfold offset at same
  rw [UInt32.toNat_sub, UInt32.toNat_sub] at same
  have := v.toNat_lt
  have := w.toNat_lt
  have := base.toNat_lt
  exact UInt32.toNat_inj.mp (by omega)

theorem lessThanEq_eq_decide {v w : SeqValue} (hv : offset base v < 2 ^ 31) (hw : offset base w < 2 ^ 31) :
    lessThanEq v w = decide (offset base v ≤ offset base w) := by
  rw [lessThanEq, lessThan_eq_decide hv hw]
  by_cases same : v = w
  · subst same
    simp
  · have apart : offset base v ≠ offset base w := fun equal => same (offset_inj equal)
    rw [beq_eq_false_iff_ne.mpr same, Bool.false_or]
    apply decide_eq_decide.mpr
    omega

theorem toNat_seqSize {v w : SeqValue} (ordered : offset base v ≤ offset base w) :
    (seqSize v w).toNat = offset base w - offset base v := by
  rw [seqSize, toNat_sub_eq_offset base]
  have := offset_lt base w
  omega

end Window

/-! ### Blocks as intervals of distances -/

namespace SACKBlock

variable (base : SeqValue)

def lo (b : SACKBlock) : Nat :=
  offset base b.start

def hi (b : SACKBlock) : Nat :=
  offset base b.end

/-- A non-empty block inside the window. -/
def Valid (b : SACKBlock) : Prop :=
  b.lo base < b.hi base ∧ b.hi base < 2 ^ 31

/-- The distances the block holds. -/
def Holds (b : SACKBlock) (n : Nat) : Prop :=
  b.lo base ≤ n ∧ n < b.hi base

/-- One block ends, with a hole, before the other starts. -/
def Before (a b : SACKBlock) : Prop :=
  a.hi base < b.lo base

variable {base}

theorem Valid.lo_lt {b : SACKBlock} (valid : b.Valid base) : b.lo base < 2 ^ 31 :=
  Nat.lt_trans valid.1 valid.2

end SACKBlock

open SACKBlock

namespace SACKScoreboard

variable {base : SeqValue} {T : Type} {tree : OrderedTree.Ops SACKBlock T}

/-- The scoreboard's ranges in the form its operations keep. -/
structure Canonical (base : SeqValue) (ranges : List SACKBlock) : Prop where
  valid : ∀ b ∈ ranges, b.Valid base
  apart : ranges.Pairwise (Before base)

/-- The distances the ranges hold. -/
def Covers (base : SeqValue) (ranges : List SACKBlock) (n : Nat) : Prop :=
  ∃ b ∈ ranges, b.Holds base n

/-- The number of sequence numbers the ranges hold. -/
def total (base : SeqValue) (ranges : List SACKBlock) : Nat :=
  (ranges.map fun b => b.hi base - b.lo base).sum

theorem total_cons (b : SACKBlock) (ranges : List SACKBlock) :
    total base (b :: ranges) = (b.hi base - b.lo base) + total base ranges := by
  simp [total]

theorem Canonical.nil : Canonical base [] :=
  ⟨fun _ absent => absurd absent List.not_mem_nil, List.Pairwise.nil⟩

theorem Canonical.cons_iff {b : SACKBlock} {ranges : List SACKBlock} :
    Canonical base (b :: ranges) ↔ b.Valid base ∧ (∀ c ∈ ranges, Before base b c) ∧ Canonical base ranges := by
  constructor
  · intro canonical
    obtain ⟨below, restApart⟩ := List.pairwise_cons.mp canonical.apart
    exact ⟨canonical.valid b List.mem_cons_self, below,
      ⟨fun c member => canonical.valid c (List.mem_cons_of_mem b member), restApart⟩⟩
  · rintro ⟨valid, below, canonical⟩
    refine ⟨fun c member => ?_, List.pairwise_cons.mpr ⟨below, canonical.apart⟩⟩
    rcases List.mem_cons.mp member with rfl | later
    · exact valid
    · exact canonical.valid c later

theorem Canonical.sublist {ranges ranges' : List SACKBlock} (canonical : Canonical base ranges)
    (sub : ranges'.Sublist ranges) : Canonical base ranges' :=
  ⟨fun b member => canonical.valid b (sub.subset member), canonical.apart.sublist sub⟩

theorem Canonical.before_or_before {ranges : List SACKBlock} (canonical : Canonical base ranges) {a b : SACKBlock}
    (ha : a ∈ ranges) (hb : b ∈ ranges) (differ : a ≠ b) : Before base a b ∨ Before base b a := by
  induction ranges with
  | nil => exact absurd ha List.not_mem_nil
  | cons c rest ih =>
      obtain ⟨_, below, restCanonical⟩ := Canonical.cons_iff.mp canonical
      rcases List.mem_cons.mp ha with rfl | aLater <;> rcases List.mem_cons.mp hb with rfl | bLater
      · exact absurd rfl differ
      · exact Or.inl (below b bLater)
      · exact Or.inr (below a aLater)
      · exact ih restCanonical aLater bLater

theorem Canonical.eq_of_lo {ranges : List SACKBlock} (canonical : Canonical base ranges) {a b : SACKBlock}
    (ha : a ∈ ranges) (hb : b ∈ ranges) (sameLo : a.lo base = b.lo base) : a = b := by
  by_contra differ
  have validA := canonical.valid a ha
  have validB := canonical.valid b hb
  rcases canonical.before_or_before ha hb differ with before | before
  · exact absurd before (by unfold Before; have := validA.1; omega)
  · exact absurd before (by unfold Before; have := validB.1; omega)

theorem Canonical.total_le {ranges : List SACKBlock} (canonical : Canonical base ranges) {lower : Nat}
    (above : ∀ b ∈ ranges, lower ≤ b.lo base) : total base ranges ≤ 2 ^ 31 - lower := by
  induction ranges generalizing lower with
  | nil => exact Nat.zero_le _
  | cons b rest ih =>
      obtain ⟨valid, below, restCanonical⟩ := Canonical.cons_iff.mp canonical
      have first := above b List.mem_cons_self
      have later := ih restCanonical fun c member => Nat.le_of_lt (below c member)
      rw [total_cons]
      have := valid.1
      have := valid.2
      omega

theorem Canonical.eq_of_mem_iff :
    ∀ {a b : List SACKBlock}, Canonical base a → Canonical base b → (∀ z, z ∈ a ↔ z ∈ b) → a = b
  | [], [], _, _, _ => rfl
  | [], y :: _, _, _, same => absurd ((same y).mpr List.mem_cons_self) List.not_mem_nil
  | x :: _, [], _, _, same => absurd ((same x).mp List.mem_cons_self) List.not_mem_nil
  | x :: as, y :: bs, canonicalA, canonicalB, same => by
      obtain ⟨hx, belowX, restA⟩ := Canonical.cons_iff.mp canonicalA
      obtain ⟨hy, belowY, restB⟩ := Canonical.cons_iff.mp canonicalB
      -- the first ranges are the least of each list, so they are one range
      have heads : x = y := by
        by_contra differ
        have xInB := (same x).mp List.mem_cons_self
        have yInA := (same y).mpr List.mem_cons_self
        rcases List.mem_cons.mp xInB with rfl | xLater
        · exact differ rfl
        rcases List.mem_cons.mp yInA with rfl | yLater
        · exact differ rfl
        have xy := belowX y yLater
        have yx := belowY x xLater
        unfold Before at xy yx
        have := hx.1
        have := hy.1
        omega
      subst heads
      have tails : ∀ z, z ∈ as ↔ z ∈ bs := by
        intro z
        have notHeadA : z ∈ as → z ≠ x := fun member same => by
          have := belowX z member
          subst same
          unfold Before at this
          have := hx.1
          omega
        have notHeadB : z ∈ bs → z ≠ x := fun member same => by
          have := belowY z member
          subst same
          unfold Before at this
          have := hx.1
          omega
        constructor
        · intro member
          rcases List.mem_cons.mp ((same z).mp (List.mem_cons_of_mem x member)) with head | later
          · exact absurd head (notHeadA member)
          · exact later
        · intro member
          rcases List.mem_cons.mp ((same z).mpr (List.mem_cons_of_mem x member)) with head | later
          · exact absurd head (notHeadB member)
          · exact later
      rw [Canonical.eq_of_mem_iff restA restB tails]

/-! ### A lawful tree on canonical ranges

Inside the window `Less` is the order of the starts' distances from `base`,
and canonical ranges are ascending in it, so the tree's contract applies
with those distances as the key. -/

section Tree

theorem less_eq_decide {a b : SACKBlock} (ha : a.lo base < 2 ^ 31) (hb : b.lo base < 2 ^ 31) :
    a.less b = decide (a.lo base < b.lo base) :=
  lessThan_eq_decide ha hb

theorem Canonical.ascending {ranges : List SACKBlock} (canonical : Canonical base ranges) :
    ranges.Pairwise (fun a b => a.lo base < b.lo base) :=
  canonical.apart.imp_of_mem fun {a _} ha _ before => Nat.lt_trans (canonical.valid a ha).1 before

theorem Canonical.nodup {ranges : List SACKBlock} (canonical : Canonical base ranges) : ranges.Nodup :=
  canonical.ascending.imp fun {a _} below same => by
    subst same
    exact Nat.lt_irrefl (a.lo base) below

/-- The ranges and an argument inside the window are ordered by `lo`. -/
theorem orderedBy_cons {ranges : List SACKBlock} (canonical : Canonical base ranges) {x : SACKBlock}
    (hx : x.lo base < 2 ^ 31) : OrderedTree.OrderedBy SACKBlock.less (SACKBlock.lo base) (x :: ranges) := by
  have inside : ∀ b ∈ x :: ranges, b.lo base < 2 ^ 31 := fun b member => by
    rcases List.mem_cons.mp member with rfl | later
    · exact hx
    · exact (canonical.valid b later).lo_lt
  exact fun a ha b hb => less_eq_decide (inside a ha) (inside b hb)

theorem total_filter_of_find?_eq_some {ranges : List SACKBlock} {x y : SACKBlock} (canonical : Canonical base ranges)
    (found : (ranges.find? fun c => decide (c.lo base = x.lo base)) = some y) :
    total base ranges = total base (ranges.filter fun c => decide (c.lo base ≠ x.lo base)) + (y.hi base - y.lo base) := by
  induction ranges with
  | nil => cases found
  | cons c rest ih =>
      obtain ⟨valid, below, restCanonical⟩ := Canonical.cons_iff.mp canonical
      by_cases here : c.lo base = x.lo base
      · rw [List.find?_cons_of_pos (by simp [here])] at found
        cases found
        have others : (rest.filter fun c => decide (c.lo base ≠ x.lo base)) = rest := by
          apply List.filter_eq_self.mpr
          intro d member
          have := below d member
          have := valid.1
          unfold Before at *
          simp only [ne_eq, decide_not, Bool.not_eq_eq_eq_not, Bool.not_true, decide_eq_false_iff_not]
          omega
        rw [List.filter_cons_of_neg (by simp [here]), others, total_cons]
        omega
      · rw [List.find?_cons_of_neg (by simp [here])] at found
        rw [List.filter_cons_of_pos (by simp [here]), total_cons, total_cons, ih restCanonical found]
        omega

theorem filter_of_find?_eq_none {ranges : List SACKBlock} {x : SACKBlock}
    (absent : (ranges.find? fun c => decide (c.lo base = x.lo base)) = none) :
    (ranges.filter fun c => decide (c.lo base ≠ x.lo base)) = ranges := by
  apply List.filter_eq_self.mpr
  intro c member
  have := List.find?_eq_none.mp absent c member
  simpa using this

variable (lawful : OrderedTree.Lawful SACKBlock.less tree) {t : T}
include lawful

theorem ascendGreaterOrEqual_eq (canonical : Canonical base (tree.items t)) {pivot : SACKBlock}
    (hp : pivot.lo base < 2 ^ 31) :
    tree.ascendGreaterOrEqual t pivot = (tree.items t).filter fun i => decide (pivot.lo base ≤ i.lo base) :=
  lawful.ascend _ t pivot (orderedBy_cons canonical hp) canonical.ascending

theorem descendLessOrEqual_eq (canonical : Canonical base (tree.items t)) {pivot : SACKBlock}
    (hp : pivot.lo base < 2 ^ 31) :
    tree.descendLessOrEqual t pivot = ((tree.items t).filter fun i => decide (i.lo base ≤ pivot.lo base)).reverse :=
  lawful.descend _ t pivot (orderedBy_cons canonical hp) canonical.ascending

theorem delete_eq (canonical : Canonical base (tree.items t)) {x : SACKBlock} (hx : x.lo base < 2 ^ 31) :
    tree.items (tree.delete t x).1 = (tree.items t).filter (fun y => decide (y.lo base ≠ x.lo base)) ∧
      (tree.delete t x).2 = (tree.items t).find? fun y => decide (y.lo base = x.lo base) :=
  lawful.delete _ t x (orderedBy_cons canonical hx) canonical.ascending

omit lawful in
/-- Of two ranges apart, the one starting first is the one before. -/
theorem before_of_lo_lt {a b : SACKBlock} (hb : b.Valid base) (lower : a.lo base < b.lo base)
    (apart : Before base a b ∨ Before base b a) : Before base a b :=
  apart.resolve_right fun before => by unfold Before at before; have := hb.1; omega

theorem replaceOrInsert_spec (canonical : Canonical base (tree.items t)) {x : SACKBlock} (hx : x.Valid base)
    (fits : ∀ y ∈ tree.items t, y.lo base ≠ x.lo base → Before base x y ∨ Before base y x) :
    let inserted := tree.replaceOrInsert t x
    Canonical base (tree.items inserted.1) ∧
      (∀ z, z ∈ tree.items inserted.1 ↔ z = x ∨ z ∈ tree.items t ∧ z.lo base ≠ x.lo base) ∧
      inserted.2 = ((tree.items t).find? fun y => decide (y.lo base = x.lo base)) ∧
      total base (tree.items inserted.1) = total base ((tree.items t).filter fun y => decide (y.lo base ≠ x.lo base)) +
        (x.hi base - x.lo base) := by
  intro inserted
  obtain ⟨ascending, members, found⟩ := lawful.replaceOrInsert _ t x (orderedBy_cons canonical hx.lo_lt)
    canonical.ascending
  have valid : ∀ z ∈ tree.items inserted.1, z.Valid base := fun z member => by
    rcases (members z).mp member with rfl | ⟨kept, _⟩
    · exact hx
    · exact canonical.valid z kept
  -- ascending and each pair apart: the new range fits between the others
  have apart : ∀ {a b}, a ∈ tree.items inserted.1 → b ∈ tree.items inserted.1 → a.lo base < b.lo base →
      Before base a b := by
    intro a b ha hb lower
    refine before_of_lo_lt (valid b hb) lower ?_
    rcases (members a).mp ha with rfl | ⟨aKept, aDiffer⟩ <;> rcases (members b).mp hb with rfl | ⟨bKept, bDiffer⟩
    · omega
    · exact fits b bKept bDiffer
    · exact (fits a aKept aDiffer).symm
    · exact canonical.before_or_before aKept bKept fun same => by rw [same] at lower; omega
  refine ⟨⟨valid, ascending.imp_of_mem apart⟩, members, found, ?_⟩
  -- the new ranges are a permutation of the block and the others
  have kept : ((tree.items t).filter fun y => decide (y.lo base ≠ x.lo base)).Nodup :=
    canonical.nodup.filter _
  have permuted : (tree.items inserted.1).Perm (x :: (tree.items t).filter fun y => decide (y.lo base ≠ x.lo base)) := by
    refine (List.perm_ext_iff_of_nodup (Canonical.nodup ⟨valid, ascending.imp_of_mem apart⟩)
      (List.nodup_cons.mpr ⟨fun member => by simp at member, kept⟩)).mpr fun z => ?_
    rw [members z, List.mem_cons, List.mem_filter, decide_eq_true_iff]
  unfold total
  rw [(permuted.map _).sum_eq, List.map_cons, List.sum_cons]
  omega

end Tree

/-! ### `Insert` -/

section Insert

theorem holds_withEnd {g i : SACKBlock} (n : Nat) :
    ({ g with «end» := i.end } : SACKBlock).Holds base n ↔ g.lo base ≤ n ∧ n < i.hi base :=
  Iff.rfl

theorem covers_cons (b : SACKBlock) (rest : List SACKBlock) (n : Nat) :
    Covers base (b :: rest) n ↔ b.Holds base n ∨ Covers base rest n := by
  simp [Covers]

theorem covers_append (front back : List SACKBlock) (n : Nat) :
    Covers base (front ++ back) n ↔ Covers base front n ∨ Covers base back n := by
  simp only [Covers, List.mem_append]
  constructor
  · rintro ⟨b, member | member, holds⟩
    · exact Or.inl ⟨b, member, holds⟩
    · exact Or.inr ⟨b, member, holds⟩
  · rintro (⟨b, member, holds⟩ | ⟨b, member, holds⟩)
    · exact ⟨b, Or.inl member, holds⟩
    · exact ⟨b, Or.inr member, holds⟩

/-! The four ways `Insert`'s ascending visit takes a range. -/

theorem iterate_insertAscend_same {i g : SACKBlock} (rest m : List SACKBlock) (same : i = g) :
    OrderedTree.iterate insertAscend (i :: rest) (g, m) = OrderedTree.iterate insertAscend rest (g, m) := by
  rw [OrderedTree.iterate_cons]
  simp [insertAscend, same]

theorem iterate_insertAscend_hole {i g : SACKBlock} (rest m : List SACKBlock) (differ : i ≠ g)
    (hole : lessThan g.end i.start = true) : OrderedTree.iterate insertAscend (i :: rest) (g, m) = (g, m) := by
  rw [OrderedTree.iterate_cons]
  simp [insertAscend, differ, hole]

theorem iterate_insertAscend_inside {i g : SACKBlock} (rest m : List SACKBlock) (differ : i ≠ g)
    (meets : lessThan g.end i.start = false) (inside : lessThan i.end g.end = true) :
    OrderedTree.iterate insertAscend (i :: rest) (g, m) = OrderedTree.iterate insertAscend rest (g, m ++ [i]) := by
  rw [OrderedTree.iterate_cons]
  simp [insertAscend, differ, meets, inside]

theorem iterate_insertAscend_extend {i g : SACKBlock} (rest m : List SACKBlock) (differ : i ≠ g)
    (meets : lessThan g.end i.start = false) (longer : lessThan i.end g.end = false) :
    OrderedTree.iterate insertAscend (i :: rest) (g, m) =
      OrderedTree.iterate insertAscend rest ({ g with «end» := i.end }, m ++ [i]) := by
  rw [OrderedTree.iterate_cons]
  simp [insertAscend, differ, meets, longer]

theorem iterate_insertAscend_of_before {g : SACKBlock} (m : List SACKBlock) (hg : g.Valid base) :
    ∀ (L : List SACKBlock), (∀ y ∈ L, y.Valid base) → (∀ y ∈ L, Before base g y) →
      OrderedTree.iterate insertAscend L (g, m) = (g, m)
  | [], _, _ => rfl
  | i :: rest, valid, after => by
      have hole := after i List.mem_cons_self
      have hi := valid i List.mem_cons_self
      have differ : i ≠ g := by
        rintro rfl
        unfold Before at hole
        have := hg.1
        omega
      have stops : lessThan g.end i.start = true := by
        rw [lessThan_eq_decide hg.2 hi.lo_lt]
        exact decide_eq_true hole
      exact iterate_insertAscend_hole rest m differ stops

/-- What the ascending visit leaves: the block, its start kept, grown up to
the end of the last range it met, the ranges met, and every range visited
either met, equal to the block, or after it. -/
def AscendResult (base : SeqValue) (L : List SACKBlock) (g : SACKBlock) (m : List SACKBlock)
    (up : SACKBlock × List SACKBlock) : Prop :=
  up.1.start = g.start ∧ g.hi base ≤ up.1.hi base ∧ up.1.Valid base ∧
    (∃ new, up.2 = m ++ new ∧ (∀ y ∈ new, y ∈ L) ∧ ∀ n, up.1.Holds base n ↔ g.Holds base n ∨ Covers base new n) ∧
    ∀ y ∈ L, y ∈ up.2 ∨ y = up.1 ∨ Before base up.1 y

theorem AscendResult.unchanged {L : List SACKBlock} {g : SACKBlock} (m : List SACKBlock) (hg : g.Valid base)
    (placed : ∀ y ∈ L, y = g ∨ Before base g y) : AscendResult base L g m (g, m) :=
  ⟨rfl, le_rfl, hg, ⟨[], (List.append_nil m).symm, fun _ absent => absurd absent List.not_mem_nil,
    fun n => by simp [Covers]⟩, fun y member => Or.inr (placed y member)⟩

theorem AscendResult.cons {i g g' : SACKBlock} {rest m : List SACKBlock} {up : SACKBlock × List SACKBlock}
    (later : AscendResult base rest g' (m ++ [i]) up) (start : g'.start = g.start) (grows : g.hi base ≤ g'.hi base)
    (joins : ∀ n, g'.Holds base n ↔ g.Holds base n ∨ i.Holds base n) : AscendResult base (i :: rest) g m up := by
  obtain ⟨start', grows', valid, ⟨new, collected, fromL, holds⟩, placed⟩ := later
  refine ⟨start'.trans start, Nat.le_trans grows grows', valid,
    ⟨i :: new, by rw [collected]; simp, fun y member => ?_, fun n => ?_⟩, fun y member => ?_⟩
  · rcases List.mem_cons.mp member with rfl | later
    · exact List.mem_cons_self
    · exact List.mem_cons_of_mem i (fromL y later)
  · rw [holds, joins, covers_cons, or_assoc]
  · rcases List.mem_cons.mp member with rfl | later
    · rw [collected]
      exact Or.inl (by simp)
    · exact placed y later

theorem iterate_insertAscend :
    ∀ (L : List SACKBlock) (g : SACKBlock) (m : List SACKBlock), Canonical base L → g.Valid base →
      (∀ y ∈ L, g.lo base ≤ y.lo base) → AscendResult base L g m (OrderedTree.iterate insertAscend L (g, m))
  | [], g, m, _, hg, _ => AscendResult.unchanged m hg fun _ absent => absurd absent List.not_mem_nil
  | i :: rest, g, m, canonical, hg, above => by
      obtain ⟨hi, below, restCanonical⟩ := Canonical.cons_iff.mp canonical
      have first := above i List.mem_cons_self
      have restAbove : ∀ y ∈ rest, g.lo base ≤ y.lo base := fun y member =>
        above y (List.mem_cons_of_mem i member)
      by_cases same : i = g
      · -- the block is already a range: the next range is after it
        subst same
        rw [iterate_insertAscend_same rest m rfl,
          iterate_insertAscend_of_before m hg rest restCanonical.valid below]
        refine AscendResult.unchanged m hg fun y member => ?_
        rcases List.mem_cons.mp member with rfl | later
        · exact Or.inl rfl
        · exact Or.inr (below y later)
      · by_cases hole : g.hi base < i.lo base
        · rw [iterate_insertAscend_hole rest m same (by rw [lessThan_eq_decide hg.2 hi.lo_lt]; exact decide_eq_true hole)]
          refine AscendResult.unchanged m hg fun y member => Or.inr ?_
          rcases List.mem_cons.mp member with rfl | later
          · exact hole
          · have := below y later
            have := hi.1
            unfold Before at *
            omega
        · have meets : lessThan g.end i.start = false := by
            rw [lessThan_eq_decide hg.2 hi.lo_lt]
            exact decide_eq_false hole
          by_cases inside : i.hi base < g.hi base
          · -- `i` lies inside the block
            rw [iterate_insertAscend_inside rest m same meets
              (by rw [lessThan_eq_decide hi.2 hg.2]; exact decide_eq_true inside)]
            refine (iterate_insertAscend rest g (m ++ [i]) restCanonical hg restAbove).cons rfl le_rfl
              fun n => ⟨Or.inl, fun holds => ?_⟩
            rcases holds with within | ⟨atLeast, before⟩
            · exact within
            · exact ⟨by omega, by omega⟩
          · -- `i` reaches past the block's end, which moves to its end
            rw [iterate_insertAscend_extend rest m same meets
              (by rw [lessThan_eq_decide hi.2 hg.2]; exact decide_eq_false inside)]
            have grown : ({ g with «end» := i.end } : SACKBlock).Valid base := by
              refine ⟨?_, hi.2⟩
              show g.lo base < i.hi base
              have := hg.1
              omega
            refine (iterate_insertAscend rest _ (m ++ [i]) restCanonical grown restAbove).cons rfl
              (by show g.hi base ≤ i.hi base; omega) fun n => ?_
            rw [holds_withEnd]
            unfold Holds
            constructor
            · rintro ⟨atLeast, before⟩
              by_cases early : n < g.hi base
              · exact Or.inl ⟨atLeast, early⟩
              · exact Or.inr ⟨by omega, before⟩
            · rintro (⟨atLeast, before⟩ | ⟨atLeast, before⟩)
              · exact ⟨atLeast, by omega⟩
              · exact ⟨by omega, before⟩

/-! The three ways `Insert`'s descending visit takes a range. -/

theorem iterate_insertDescend_same {i g : SACKBlock} (rest m : List SACKBlock) (same : i = g) :
    OrderedTree.iterate insertDescend (i :: rest) (g, m) = OrderedTree.iterate insertDescend rest (g, m) := by
  rw [OrderedTree.iterate_cons]
  simp [insertDescend, same]

theorem iterate_insertDescend_hole {i g : SACKBlock} (rest m : List SACKBlock) (differ : i ≠ g)
    (hole : lessThan i.end g.start = true) : OrderedTree.iterate insertDescend (i :: rest) (g, m) = (g, m) := by
  rw [OrderedTree.iterate_cons]
  simp [insertDescend, differ, hole]

theorem iterate_insertDescend_merge {i g : SACKBlock} (rest m : List SACKBlock) (differ : i ≠ g)
    (meets : lessThan i.end g.start = false) :
    OrderedTree.iterate insertDescend (i :: rest) (g, m) =
      OrderedTree.iterate insertDescend rest
        ((if lessThan g.end i.end then ⟨i.start, i.end⟩ else ⟨i.start, g.end⟩ : SACKBlock), m ++ [i]) := by
  rw [OrderedTree.iterate_cons]
  simp only [insertDescend, differ, meets, if_false, Bool.false_eq_true]
  by_cases longer : lessThan g.end i.end <;> simp [longer]

/-- A list of valid ranges in descending order, with holes between them. -/
structure Descending (base : SeqValue) (L : List SACKBlock) : Prop where
  valid : ∀ b ∈ L, b.Valid base
  apart : L.Pairwise fun a b => Before base b a

theorem Descending.cons_iff {b : SACKBlock} {L : List SACKBlock} :
    Descending base (b :: L) ↔ b.Valid base ∧ (∀ c ∈ L, Before base c b) ∧ Descending base L := by
  constructor
  · intro descending
    obtain ⟨below, restApart⟩ := List.pairwise_cons.mp descending.apart
    exact ⟨descending.valid b List.mem_cons_self, below,
      ⟨fun c member => descending.valid c (List.mem_cons_of_mem b member), restApart⟩⟩
  · rintro ⟨valid, below, descending⟩
    refine ⟨fun c member => ?_, List.pairwise_cons.mpr ⟨below, descending.apart⟩⟩
    rcases List.mem_cons.mp member with rfl | later
    · exact valid
    · exact descending.valid c later

theorem Canonical.descending_reverse {L : List SACKBlock} (canonical : Canonical base L) :
    Descending base L.reverse :=
  ⟨fun b member => canonical.valid b (List.mem_reverse.mp member), List.pairwise_reverse.mpr canonical.apart⟩

theorem iterate_insertDescend_of_before {g : SACKBlock} (m : List SACKBlock) (hg : g.Valid base) :
    ∀ (L : List SACKBlock), (∀ y ∈ L, y.Valid base) → (∀ y ∈ L, Before base y g) →
      OrderedTree.iterate insertDescend L (g, m) = (g, m)
  | [], _, _ => rfl
  | i :: rest, valid, before => by
      have hole := before i List.mem_cons_self
      have hi := valid i List.mem_cons_self
      have differ : i ≠ g := by
        rintro rfl
        unfold Before at hole
        have := hg.1
        omega
      exact iterate_insertDescend_hole rest m differ
        (by rw [lessThan_eq_decide hi.2 hg.lo_lt]; exact decide_eq_true hole)

/-- What the descending visit leaves: the block grown down to the start of
the ranges it met and up to their ends, the ranges met, and every range
visited either met, equal to the block, or before it. -/
def DescendResult (base : SeqValue) (L : List SACKBlock) (g : SACKBlock) (m : List SACKBlock)
    (down : SACKBlock × List SACKBlock) : Prop :=
  down.1.lo base ≤ g.lo base ∧ g.hi base ≤ down.1.hi base ∧ down.1.Valid base ∧
    (∃ new, down.2 = m ++ new ∧ (∀ y ∈ new, y ∈ L) ∧
      ∀ n, down.1.Holds base n ↔ g.Holds base n ∨ Covers base new n) ∧
    ∀ y ∈ L, y ∈ down.2 ∨ y = down.1 ∨ Before base y down.1

theorem DescendResult.unchanged {L : List SACKBlock} {g : SACKBlock} (m : List SACKBlock) (hg : g.Valid base)
    (placed : ∀ y ∈ L, y = g ∨ Before base y g) : DescendResult base L g m (g, m) :=
  ⟨le_rfl, le_rfl, hg, ⟨[], (List.append_nil m).symm, fun _ absent => absurd absent List.not_mem_nil,
    fun n => by simp [Covers]⟩, fun y member => Or.inr (placed y member)⟩

theorem iterate_insertDescend :
    ∀ (L : List SACKBlock) (g : SACKBlock) (m : List SACKBlock), Descending base L → g.Valid base →
      (∀ y ∈ L, y.lo base ≤ g.lo base) → DescendResult base L g m (OrderedTree.iterate insertDescend L (g, m))
  | [], g, m, _, hg, _ => DescendResult.unchanged m hg fun _ absent => absurd absent List.not_mem_nil
  | i :: rest, g, m, descending, hg, below => by
      obtain ⟨hi, lower, restDescending⟩ := Descending.cons_iff.mp descending
      have first := below i List.mem_cons_self
      by_cases same : i = g
      · -- the block is already a range: the next range is before it
        subst same
        rw [iterate_insertDescend_same rest m rfl,
          iterate_insertDescend_of_before m hg rest restDescending.valid lower]
        refine DescendResult.unchanged m hg fun y member => ?_
        rcases List.mem_cons.mp member with rfl | later
        · exact Or.inl rfl
        · exact Or.inr (lower y later)
      · by_cases hole : i.hi base < g.lo base
        · rw [iterate_insertDescend_hole rest m same (by rw [lessThan_eq_decide hi.2 hg.lo_lt]; exact decide_eq_true hole)]
          refine DescendResult.unchanged m hg fun y member => Or.inr ?_
          rcases List.mem_cons.mp member with rfl | later
          · exact hole
          · have := lower y later
            have := hi.1
            unfold Before at *
            omega
        · -- `i` reaches into the block: the block starts at `i`'s start
          rw [iterate_insertDescend_merge rest m same
            (by rw [lessThan_eq_decide hi.2 hg.lo_lt]; exact decide_eq_false hole)]
          have longer := lessThan_eq_decide (v := g.end) (w := i.end) hg.2 hi.2
          -- what the merged block holds, whichever end it takes
          have merged : ∀ (e : SeqValue), offset base e = max (g.hi base) (i.hi base) →
              (⟨i.start, e⟩ : SACKBlock).Valid base ∧
                (∀ n, (⟨i.start, e⟩ : SACKBlock).Holds base n ↔ g.Holds base n ∨ i.Holds base n) := by
            intro e atMax
            have := hi.1
            have := hi.2
            have := hg.2
            refine ⟨⟨?_, ?_⟩, fun n => ?_⟩
            · show i.lo base < offset base e
              omega
            · show offset base e < 2 ^ 31
              omega
            · show i.lo base ≤ n ∧ n < offset base e ↔ _
              unfold Holds
              omega
          have restBelow : ∀ y ∈ rest, y.lo base ≤ i.lo base := fun y member => by
            have := lower y member
            have := (restDescending.valid y member).1
            unfold Before at *
            omega
          obtain ⟨mergedValid, mergedHolds⟩ :
              (if lessThan g.end i.end then ⟨i.start, i.end⟩ else ⟨i.start, g.end⟩ : SACKBlock).Valid base ∧
                ∀ n, (if lessThan g.end i.end then ⟨i.start, i.end⟩ else ⟨i.start, g.end⟩ : SACKBlock).Holds base n ↔
                  g.Holds base n ∨ i.Holds base n := by
            by_cases reaches : g.hi base < i.hi base
            · rw [if_pos (by rw [longer]; exact decide_eq_true reaches)]
              exact merged i.end (by show i.hi base = _; omega)
            · rw [if_neg (by rw [longer]; exact Bool.eq_false_iff.mp (decide_eq_false reaches))]
              exact merged g.end (by show g.hi base = _; omega)
          obtain ⟨low, grows, valid, ⟨new, collected, fromL, holds⟩, placed⟩ :=
            iterate_insertDescend rest _ (m ++ [i]) restDescending mergedValid
              (fun y member => by
                have := restBelow y member
                split
                · exact this
                · exact this)
          have mergedLo : (if lessThan g.end i.end then ⟨i.start, i.end⟩ else ⟨i.start, g.end⟩ : SACKBlock).lo base =
              i.lo base := by
            split <;> rfl
          have mergedHi : g.hi base ≤
              (if lessThan g.end i.end then ⟨i.start, i.end⟩ else ⟨i.start, g.end⟩ : SACKBlock).hi base := by
            have atG := (mergedHolds (g.hi base - 1)).mpr (Or.inl ⟨by have := hg.1; omega, by have := hg.1; omega⟩)
            unfold Holds at atG
            omega
          refine ⟨by omega, Nat.le_trans mergedHi grows, valid,
            ⟨i :: new, by rw [collected]; simp, fun y member => ?_, fun n => ?_⟩, fun y member => ?_⟩
          · rcases List.mem_cons.mp member with rfl | later
            · exact List.mem_cons_self
            · exact List.mem_cons_of_mem i (fromL y later)
          · rw [holds, mergedHolds, covers_cons, or_assoc]
          · rcases List.mem_cons.mp member with rfl | later
            · rw [collected]
              exact Or.inl (by simp)
            · exact placed y later

/-- One turn of the deletions of `Insert`: the tree loses `x` if it still
holds it, and the count the size of what it lost. -/
theorem deleteRange_step (lawful : OrderedTree.Lawful SACKBlock.less tree) {ranges : List SACKBlock}
    (canonical : Canonical base ranges) {x : SACKBlock} (inRanges : x ∈ ranges) {t : T} {c : SeqSize}
    (sub : (tree.items t).Sublist ranges) (counted : c.toNat = total base (tree.items t)) :
    ∃ t' c', deleteRange tree (t, c) x = (t', c') ∧ (tree.items t').Sublist (tree.items t) ∧
      (∀ y, y ∈ tree.items t' ↔ y ∈ tree.items t ∧ y ≠ x) ∧ c'.toNat = total base (tree.items t') := by
  have hx := (canonical.valid x inRanges).lo_lt
  have canonicalL := canonical.sublist sub
  obtain ⟨itemsEq, foundEq⟩ := delete_eq lawful canonicalL hx
  unfold deleteRange
  dsimp only
  rw [foundEq]
  cases found : (tree.items t).find? fun y => decide (y.lo base = x.lo base) with
  | none =>
      rw [filter_of_find?_eq_none found] at itemsEq
      refine ⟨_, _, rfl, by rw [itemsEq], fun y => ?_, by rw [itemsEq]; exact counted⟩
      rw [itemsEq]
      constructor
      · intro member
        refine ⟨member, fun same => ?_⟩
        have := List.find?_eq_none.mp found y member
        simp [same] at this
      · exact fun ⟨member, _⟩ => member
  | some y0 =>
      have y0Mem := List.mem_of_find?_eq_some found
      have y0Lo : y0.lo base = x.lo base := by simpa using List.find?_some found
      have y0Eq : y0 = x := canonical.eq_of_lo (sub.subset y0Mem) inRanges y0Lo
      subst y0Eq
      have remaining := total_filter_of_find?_eq_some canonicalL found
      have size := @toNat_seqSize base y0.start y0.end
        (Nat.le_of_lt (canonical.valid y0 inRanges).1)
      refine ⟨_, _, rfl, by rw [itemsEq]; exact List.filter_sublist, fun y => ?_, ?_⟩
      · rw [itemsEq, List.mem_filter, decide_eq_true_iff]
        constructor
        · rintro ⟨member, differ⟩
          exact ⟨member, fun same => differ (same ▸ rfl)⟩
        · rintro ⟨member, differ⟩
          exact ⟨member, fun same => differ (canonical.eq_of_lo (sub.subset member) inRanges same)⟩
      · have fits : seqSize y0.start y0.end ≤ c := by
          rw [UInt32.le_iff_toNat_le, size, counted, remaining]
          unfold SACKBlock.lo SACKBlock.hi
          omega
        rw [itemsEq, UInt32.toNat_sub_of_le _ _ fits, size, counted, remaining]
        unfold SACKBlock.lo SACKBlock.hi
        omega

theorem foldl_deleteRange (lawful : OrderedTree.Lawful SACKBlock.less tree) {ranges : List SACKBlock}
    (canonical : Canonical base ranges) :
    ∀ (M : List SACKBlock) (t : T) (c : SeqSize), (∀ x ∈ M, x ∈ ranges) → (tree.items t).Sublist ranges →
      c.toNat = total base (tree.items t) →
      (tree.items (M.foldl (deleteRange tree) (t, c)).1).Sublist (tree.items t) ∧
        (∀ y, y ∈ tree.items (M.foldl (deleteRange tree) (t, c)).1 ↔ y ∈ tree.items t ∧ y ∉ M) ∧
        (M.foldl (deleteRange tree) (t, c)).2.toNat = total base (tree.items (M.foldl (deleteRange tree) (t, c)).1)
  | [], t, c, _, _, counted => ⟨List.Sublist.refl _, fun y => by simp, counted⟩
  | x :: rest, t, c, fromRanges, sub, counted => by
      obtain ⟨t', c', stepEq, stepSub, stepMem, stepCounted⟩ :=
        deleteRange_step lawful canonical (fromRanges x List.mem_cons_self) sub counted
      rw [List.foldl_cons, stepEq]
      obtain ⟨laterSub, laterMem, laterCounted⟩ :=
        foldl_deleteRange lawful canonical rest t' c' (fun y member => fromRanges y (List.mem_cons_of_mem x member))
          (stepSub.trans sub) stepCounted
      refine ⟨laterSub.trans stepSub, fun y => ?_, laterCounted⟩
      rw [laterMem, stepMem, List.mem_cons, not_or]
      constructor
      · rintro ⟨⟨member, differ⟩, notLater⟩
        exact ⟨member, differ, notLater⟩
      · rintro ⟨member, differ, notLater⟩
        exact ⟨⟨member, differ⟩, notLater⟩

theorem insert_visits (lawful : OrderedTree.Lawful SACKBlock.less tree) {t : T}
    (canonical : Canonical base (tree.items t)) {r : SACKBlock} (hr : r.Valid base) :
    let up := OrderedTree.iterate insertAscend (tree.ascendGreaterOrEqual t r) (r, [])
    let down := OrderedTree.iterate insertDescend (tree.descendLessOrEqual t up.1) up
    down.1.Valid base ∧ (∀ x ∈ down.2, x ∈ tree.items t) ∧
      (∀ n, down.1.Holds base n ↔ r.Holds base n ∨ Covers base down.2 n) ∧
      ∀ y ∈ tree.items t, y ∈ down.2 ∨ y = down.1 ∨ Before base y down.1 ∨ Before base down.1 y := by
  intro up down
  generalize itemsEq : tree.items t = ranges at canonical ⊢
  -- the ascending visit, over the ranges starting at the block or after
  have ascending : AscendResult base (ranges.filter fun i => decide (r.lo base ≤ i.lo base)) r [] up := by
    show AscendResult base _ r [] (OrderedTree.iterate insertAscend (tree.ascendGreaterOrEqual t r) (r, []))
    rw [ascendGreaterOrEqual_eq lawful (itemsEq ▸ canonical) hr.lo_lt, itemsEq]
    exact iterate_insertAscend _ r [] (canonical.sublist List.filter_sublist) hr fun y member => by
      simpa using (List.mem_filter.mp member).2
  obtain ⟨upStart, upGrows, upValid, ⟨upNew, upCollected, upFrom, upHolds⟩, upPlaced⟩ := ascending
  have upLo : up.1.lo base = r.lo base := by
    unfold SACKBlock.lo
    rw [upStart]
  -- the descending visit, over the ranges starting at it or before
  have descending :
      DescendResult base (ranges.filter fun i => decide (i.lo base ≤ up.1.lo base)).reverse up.1 up.2 down := by
    show DescendResult base _ up.1 up.2 (OrderedTree.iterate insertDescend (tree.descendLessOrEqual t up.1) (up.1, up.2))
    rw [descendLessOrEqual_eq lawful (itemsEq ▸ canonical) upValid.lo_lt, itemsEq]
    exact iterate_insertDescend _ up.1 up.2 (canonical.sublist List.filter_sublist).descending_reverse upValid
      fun y member => by simpa using (List.mem_filter.mp (List.mem_reverse.mp member)).2
  obtain ⟨downLow, downGrows, downValid, ⟨downNew, downCollected, downFrom, downHolds⟩, downPlaced⟩ := descending
  have collected : down.2 = upNew ++ downNew := by
    rw [downCollected, upCollected, List.nil_append]
  have fromRanges : ∀ x ∈ down.2, x ∈ ranges := by
    intro x member
    rw [collected] at member
    rcases List.mem_append.mp member with early | late
    · exact (List.mem_filter.mp (upFrom x early)).1
    · exact (List.mem_filter.mp (List.mem_reverse.mp (downFrom x late))).1
  refine ⟨downValid, fromRanges, fun n => ?_, fun y member => ?_⟩
  · rw [downHolds, upHolds, collected, covers_append, or_assoc]
  · by_cases later : r.lo base ≤ y.lo base
    · rcases upPlaced y (List.mem_filter.mpr ⟨member, by simpa using later⟩) with met | same | after
      · exact Or.inl (by rw [downCollected]; exact List.mem_append_left _ met)
      · -- the range equal to the block is also visited going down
        have visited : y ∈ (ranges.filter fun i => decide (i.lo base ≤ up.1.lo base)).reverse :=
          List.mem_reverse.mpr (List.mem_filter.mpr ⟨member, by simp [same]⟩)
        rcases downPlaced y visited with met | same' | before
        · exact Or.inl met
        · exact Or.inr (Or.inl same')
        · exact Or.inr (Or.inr (Or.inl before))
      · -- the block's final end is an end it had or one of a range met going down
        have hy := canonical.valid y member
        have atEnd := (downHolds (down.1.hi base - 1)).mp ⟨by have := downValid.1; omega, by
          have := downValid.1; omega⟩
        rcases atEnd with ⟨_, belowUp⟩ | ⟨x, xMet, ⟨_, belowX⟩⟩
        · unfold Before at after ⊢
          exact Or.inr (Or.inr (Or.inr (by omega)))
        · have xMem := (List.mem_filter.mp (List.mem_reverse.mp (downFrom x xMet))).1
          have xLow : x.lo base ≤ up.1.lo base := by
            simpa using (List.mem_filter.mp (List.mem_reverse.mp (downFrom x xMet))).2
          by_cases same : x = y
          · subst same
            exact Or.inl (by rw [downCollected]; exact List.mem_append_right _ xMet)
          · rcases canonical.before_or_before xMem member same with xBefore | yBefore
            · unfold Before at xBefore ⊢
              exact Or.inr (Or.inr (Or.inr (by omega)))
            · unfold Before at yBefore after
              have := hy.1
              omega
    · have visited : y ∈ (ranges.filter fun i => decide (i.lo base ≤ up.1.lo base)).reverse :=
        List.mem_reverse.mpr (List.mem_filter.mpr ⟨member, by simp only [upLo, decide_eq_true_eq]; omega⟩)
      rcases downPlaced y visited with met | same | before
      · exact Or.inl met
      · exact Or.inr (Or.inl same)
      · exact Or.inr (Or.inr (Or.inl before))

theorem insert_spec (lawful : OrderedTree.Lawful SACKBlock.less tree) {s : SACKScoreboard T}
    (canonical : Canonical base (tree.items s.ranges)) {r : SACKBlock} (hr : r.Valid base)
    (counted : s.sacked.toNat = total base (tree.items s.ranges)) (room : tree.len s.ranges < maxSACKBlocks) :
    Canonical base (tree.items (s.insert tree r).ranges) ∧
      (∀ n, Covers base (tree.items (s.insert tree r).ranges) n ↔ Covers base (tree.items s.ranges) n ∨ r.Holds base n) ∧
      (s.insert tree r).sacked.toNat = total base (tree.items (s.insert tree r).ranges) := by
  obtain ⟨gValid, fromRanges, gHolds, placed⟩ := insert_visits lawful canonical hr
  unfold SACKScoreboard.insert
  rw [if_neg (Nat.not_le.mpr room)]
  dsimp only
  generalize OrderedTree.iterate insertDescend _ _ = down at gValid fromRanges gHolds placed ⊢
  obtain ⟨g, M⟩ := down
  dsimp only at gValid fromRanges gHolds placed ⊢
  obtain ⟨deletedSub, deletedMem, deletedCounted⟩ :=
    foldl_deleteRange lawful canonical M s.ranges s.sacked fromRanges (List.Sublist.refl _) counted
  generalize M.foldl (deleteRange tree) (s.ranges, s.sacked) = deleted at deletedSub deletedMem deletedCounted ⊢
  have deletedCanonical := canonical.sublist deletedSub
  -- a range left with the block's start is the block itself
  have leftSame : ∀ y ∈ tree.items deleted.1, y.lo base = g.lo base → y = g := by
    intro y member sameLo
    obtain ⟨inRanges, notMet⟩ := (deletedMem y).mp member
    have hy := canonical.valid y inRanges
    rcases placed y inRanges with met | same | before | after
    · exact absurd met notMet
    · exact same
    · unfold Before at before
      have := hy.1
      omega
    · unfold Before at after
      have := gValid.1
      omega
  have fits : ∀ y ∈ tree.items deleted.1, y.lo base ≠ g.lo base → Before base g y ∨ Before base y g := by
    intro y member differ
    obtain ⟨inRanges, notMet⟩ := (deletedMem y).mp member
    rcases placed y inRanges with met | same | before | after
    · exact absurd met notMet
    · exact absurd (same ▸ rfl) differ
    · exact Or.inr before
    · exact Or.inl after
  obtain ⟨insertedCanonical, insertedMem, insertedFound, insertedTotal⟩ :=
    replaceOrInsert_spec lawful deletedCanonical gValid fits
  generalize tree.replaceOrInsert deleted.1 g = inserted at insertedCanonical insertedMem insertedFound insertedTotal ⊢
  refine ⟨insertedCanonical, fun n => ?_, ?_⟩
  · -- what the ranges hold: the block, which holds `r` and the ranges met, and the others
    simp only [Covers, insertedMem]
    constructor
    · rintro ⟨z, rfl | ⟨member, _⟩, holds⟩
      · rcases (gHolds n).mp holds with inR | ⟨x, met, holdsX⟩
        · exact Or.inr inR
        · exact Or.inl ⟨x, fromRanges x met, holdsX⟩
      · exact Or.inl ⟨z, ((deletedMem z).mp member).1, holds⟩
    · rintro (⟨z, member, holds⟩ | inR)
      · by_cases met : z ∈ M
        · exact ⟨g, Or.inl rfl, (gHolds n).mpr (Or.inr ⟨z, met, holds⟩)⟩
        · have left := (deletedMem z).mpr ⟨member, met⟩
          by_cases sameLo : z.lo base = g.lo base
          · exact ⟨g, Or.inl rfl, leftSame z left sameLo ▸ holds⟩
          · exact ⟨z, Or.inr ⟨left, sameLo⟩, holds⟩
      · exact ⟨g, Or.inl rfl, (gHolds n).mpr (Or.inl inR)⟩
  · -- the count: the block's size is added only when no range had its start
    have bound := insertedCanonical.total_le fun _ _ => Nat.zero_le _
    have size := @toNat_seqSize base g.start g.end (Nat.le_of_lt gValid.1)
    cases found : (tree.items deleted.1).find? fun y => decide (y.lo base = g.lo base) with
    | none =>
        rw [found] at insertedFound
        rw [insertedFound, Option.isNone_none, if_pos rfl, UInt32.toNat_add, size, deletedCounted, insertedTotal,
          filter_of_find?_eq_none found]
        rw [insertedTotal, filter_of_find?_eq_none found] at bound
        unfold SACKBlock.lo SACKBlock.hi at *
        omega
    | some y =>
        rw [found] at insertedFound
        have yMem := List.mem_of_find?_eq_some found
        have yLo : y.lo base = g.lo base := by simpa using List.find?_some found
        have yEq := leftSame y yMem yLo
        subst yEq
        rw [insertedFound, Option.isNone_some, if_neg Bool.false_ne_true, deletedCounted, insertedTotal,
          total_filter_of_find?_eq_some deletedCanonical found]

end Insert

/-! ### `Delete` -/

section Delete

variable (base) in
/-- A range with what comes before `seq` cut off, as `Delete` leaves it. -/
def cutBefore (seq : SeqValue) (y : SACKBlock) : Option SACKBlock :=
  if y.hi base ≤ offset base seq then none
  else if y.lo base < offset base seq then some ⟨seq, y.end⟩
  else some y

variable (base) in
/-- How much of a range comes before `seq`. -/
def cut (seq : SeqValue) (y : SACKBlock) : Nat :=
  if y.hi base ≤ offset base seq then y.hi base - y.lo base else offset base seq - y.lo base

theorem cutBefore_eq_some {seq : SeqValue} {y z : SACKBlock} (hy : y.Valid base)
    (cutTo : cutBefore base seq y = some z) :
    z.Valid base ∧ z.hi base = y.hi base ∧ y.lo base ≤ z.lo base ∧ offset base seq ≤ z.lo base ∧
      (∀ n, z.Holds base n ↔ y.Holds base n ∧ offset base seq ≤ n) ∧
      z.hi base - z.lo base + cut base seq y = y.hi base - y.lo base := by
  unfold cutBefore at cutTo
  have := hy.1
  have := hy.2
  split at cutTo
  · cases cutTo
  · rename_i after
    unfold cut
    rw [if_neg after]
    split at cutTo
    · rename_i straddles
      cases cutTo
      refine ⟨⟨?_, hy.2⟩, rfl, ?_, le_rfl, fun n => ?_, ?_⟩
      · show offset base seq < y.hi base
        omega
      · show y.lo base ≤ offset base seq
        omega
      · show offset base seq ≤ n ∧ n < y.hi base ↔ (y.lo base ≤ n ∧ n < y.hi base) ∧ offset base seq ≤ n
        omega
      · show y.hi base - offset base seq + (offset base seq - y.lo base) = y.hi base - y.lo base
        omega
    · rename_i inside
      cases cutTo
      refine ⟨hy, rfl, le_rfl, by omega, fun n => ?_, by omega⟩
      unfold Holds
      omega

theorem cutBefore_eq_none {seq : SeqValue} {y : SACKBlock} (cutAway : cutBefore base seq y = none) :
    y.hi base ≤ offset base seq ∧ cut base seq y = y.hi base - y.lo base := by
  unfold cutBefore at cutAway
  split at cutAway
  · rename_i before
    exact ⟨before, by unfold cut; rw [if_pos before]⟩
  · split at cutAway <;> cases cutAway

/-- A range that starts after `seq` is kept whole. -/
theorem cutBefore_of_lt {seq : SeqValue} {z : SACKBlock} (hz : z.Valid base) (after : offset base seq < z.lo base) :
    cutBefore base seq z = some z := by
  have := hz.1
  unfold cutBefore
  rw [if_neg (by omega), if_neg (by omega)]

/-- A range that reaches past `seq` from before it keeps its part from `seq`. -/
theorem cutBefore_of_reaching {seq : SeqValue} {y : SACKBlock} (low : y.lo base ≤ offset base seq)
    (reaches : offset base seq < y.hi base) : cutBefore base seq y = some ⟨seq, y.end⟩ := by
  unfold cutBefore
  rw [if_neg (by omega)]
  by_cases early : y.lo base < offset base seq
  · rw [if_pos early]
  · -- a range starting at `seq` is its own part from `seq`
    rw [if_neg early]
    have starts : y.start = seq := @offset_inj base _ _ (by unfold SACKBlock.lo at early low; omega)
    rw [← starts]

/-- A range that is not cut away reaches past `seq`. -/
theorem lt_hi_of_cutBefore {seq : SeqValue} {y z : SACKBlock} (cutTo : cutBefore base seq y = some z) :
    offset base seq < y.hi base := by
  by_contra before
  unfold cutBefore at cutTo
  rw [if_pos (by omega)] at cutTo
  cases cutTo

theorem canonical_filterMap_cutBefore (seq : SeqValue) :
    ∀ {ranges : List SACKBlock}, Canonical base ranges → Canonical base (ranges.filterMap (cutBefore base seq))
  | [], _ => Canonical.nil
  | y :: rest, canonical => by
      obtain ⟨hy, below, restCanonical⟩ := Canonical.cons_iff.mp canonical
      have later := canonical_filterMap_cutBefore seq restCanonical
      cases cutTo : cutBefore base seq y with
      | none =>
          rw [List.filterMap_cons_none cutTo]
          exact later
      | some z =>
          rw [List.filterMap_cons_some cutTo]
          obtain ⟨hz, sameHi, _⟩ := cutBefore_eq_some hy cutTo
          refine Canonical.cons_iff.mpr ⟨hz, fun c member => ?_, later⟩
          obtain ⟨y', member', cutTo'⟩ := List.mem_filterMap.mp member
          obtain ⟨_, _, lower, _⟩ := cutBefore_eq_some (restCanonical.valid y' member') cutTo'
          have := below y' member'
          unfold Before at *
          omega

theorem covers_filterMap_cutBefore (seq : SeqValue) {ranges : List SACKBlock} (canonical : Canonical base ranges)
    (n : Nat) : Covers base (ranges.filterMap (cutBefore base seq)) n ↔ Covers base ranges n ∧ offset base seq ≤ n := by
  constructor
  · rintro ⟨z, member, holds⟩
    obtain ⟨y, yMem, cutTo⟩ := List.mem_filterMap.mp member
    obtain ⟨_, _, _, _, zHolds, _⟩ := cutBefore_eq_some (canonical.valid y yMem) cutTo
    obtain ⟨yHolds, after⟩ := (zHolds n).mp holds
    exact ⟨⟨y, yMem, yHolds⟩, after⟩
  · rintro ⟨⟨y, yMem, holds⟩, after⟩
    cases cutTo : cutBefore base seq y with
    | none =>
        have := (cutBefore_eq_none cutTo).1
        unfold Holds at holds
        omega
    | some z =>
        obtain ⟨_, _, _, _, zHolds, _⟩ := cutBefore_eq_some (canonical.valid y yMem) cutTo
        exact ⟨z, List.mem_filterMap.mpr ⟨y, yMem, cutTo⟩, (zHolds n).mpr ⟨holds, after⟩⟩

theorem total_filterMap_cutBefore (seq : SeqValue) :
    ∀ {ranges : List SACKBlock}, Canonical base ranges →
      total base ranges = total base (ranges.filterMap (cutBefore base seq)) + (ranges.map (cut base seq)).sum
  | [], _ => rfl
  | y :: rest, canonical => by
      obtain ⟨hy, _, restCanonical⟩ := Canonical.cons_iff.mp canonical
      have later := total_filterMap_cutBefore seq restCanonical
      rw [total_cons, List.map_cons, List.sum_cons, later]
      cases cutTo : cutBefore base seq y with
      | none =>
          rw [List.filterMap_cons_none cutTo, (cutBefore_eq_none cutTo).2]
          omega
      | some z =>
          rw [List.filterMap_cons_some cutTo, total_cons]
          have := (cutBefore_eq_some hy cutTo).2.2.2.2.2
          omega

theorem foldl_deleteTurn {seq : SeqValue} (hseq : offset base seq < 2 ^ 31) :
    ∀ (D ts ins : List SACKBlock) (c : SeqSize), (∀ y ∈ D, y.Valid base ∧ y.lo base ≤ offset base seq) →
      (D.map (cut base seq)).sum ≤ c.toNat →
      (D.foldl (deleteTurn seq) (ts, ins, c)).1 = ts ++ D.filter (fun y => decide (y ≠ ⟨seq, seq + 1⟩)) ∧
        (D.foldl (deleteTurn seq) (ts, ins, c)).2.1 =
          ins ++ ((D.filter fun y => decide (y ≠ ⟨seq, seq + 1⟩ ∧ offset base seq < y.hi base)).map
            fun y => ⟨seq, y.end⟩) ∧
        (D.foldl (deleteTurn seq) (ts, ins, c)).2.2.toNat = c.toNat - (D.map (cut base seq)).sum
  | [], ts, ins, c, _, _ => ⟨by simp, by simp, by simp⟩
  | y :: rest, ts, ins, c, visited, enough => by
      obtain ⟨hy, low⟩ := visited y List.mem_cons_self
      have restVisited := fun z member => visited z (List.mem_cons_of_mem y member)
      rw [List.map_cons, List.sum_cons] at enough
      rw [List.foldl_cons]
      by_cases pivot : y = ⟨seq, seq + 1⟩
      · -- the range `[seq, seq + 1)` is left alone, and nothing of it is cut
        have nothingCut : cut base seq y = 0 := by
          have starts : y.lo base = offset base seq := by rw [pivot]; rfl
          unfold cut
          have := hy.1
          rw [if_neg (by omega)]
          omega
        have stays : deleteTurn seq (ts, ins, c) y = (ts, ins, c) := by
          simp [deleteTurn, pivot]
        obtain ⟨deletes, puts, counts⟩ := foldl_deleteTurn hseq rest ts ins c restVisited (by omega)
        rw [stays]
        refine ⟨?_, ?_, ?_⟩
        · rw [deletes, List.filter_cons_of_neg (by simp [pivot])]
        · rw [puts, List.filter_cons_of_neg (by simp [pivot])]
        · rw [counts, List.map_cons, List.sum_cons, nothingCut, Nat.zero_add]
      · by_cases before : y.hi base ≤ offset base seq
        · -- the whole range is before `seq`
          have wholly : lessThanEq y.end seq = true := by
            rw [lessThanEq_eq_decide hy.2 hseq]
            exact decide_eq_true before
          have turn : deleteTurn seq (ts, ins, c) y = (ts ++ [y], ins, c - seqSize y.start y.end) := by
            simp [deleteTurn, pivot, wholly]
          have size := @toNat_seqSize base y.start y.end (Nat.le_of_lt hy.1)
          have cutAll : cut base seq y = y.hi base - y.lo base := by
            unfold cut
            rw [if_pos before]
          have fits : seqSize y.start y.end ≤ c := by
            rw [UInt32.le_iff_toNat_le, size]
            unfold SACKBlock.lo SACKBlock.hi at cutAll
            omega
          obtain ⟨deletes, puts, counts⟩ :=
            foldl_deleteTurn hseq rest (ts ++ [y]) ins _ restVisited
              (by rw [UInt32.toNat_sub_of_le _ _ fits, size]; unfold SACKBlock.lo SACKBlock.hi at cutAll; omega)
          rw [turn]
          refine ⟨?_, ?_, ?_⟩
          · rw [deletes, List.filter_cons_of_pos (by simp [pivot])]
            simp
          · rw [puts, List.filter_cons_of_neg (by simp [pivot, before])]
          · rw [counts, UInt32.toNat_sub_of_le _ _ fits, size, List.map_cons, List.sum_cons, cutAll]
            unfold SACKBlock.lo SACKBlock.hi
            omega
        · -- the range reaches past `seq`: its rest from `seq` goes back
          have reaches : lessThanEq y.end seq = false := by
            rw [lessThanEq_eq_decide hy.2 hseq]
            exact decide_eq_false before
          have turn : deleteTurn seq (ts, ins, c) y =
              (ts ++ [y], ins ++ [⟨seq, y.end⟩], c - seqSize y.start seq) := by
            simp [deleteTurn, pivot, reaches]
          have size := @toNat_seqSize base y.start seq low
          have cutFront : cut base seq y = offset base seq - y.lo base := by
            unfold cut
            rw [if_neg before]
          have fits : seqSize y.start seq ≤ c := by
            rw [UInt32.le_iff_toNat_le, size]
            unfold SACKBlock.lo at cutFront
            omega
          obtain ⟨deletes, puts, counts⟩ :=
            foldl_deleteTurn hseq rest (ts ++ [y]) (ins ++ [⟨seq, y.end⟩]) _ restVisited
              (by rw [UInt32.toNat_sub_of_le _ _ fits, size]; unfold SACKBlock.lo at cutFront; omega)
          rw [turn]
          refine ⟨?_, ?_, ?_⟩
          · rw [deletes, List.filter_cons_of_pos (by simp [pivot])]
            simp
          · rw [puts, List.filter_cons_of_pos (by simp [pivot]; omega)]
            simp
          · rw [counts, UInt32.toNat_sub_of_le _ _ fits, size, List.map_cons, List.sum_cons, cutFront]
            unfold SACKBlock.lo
            omega

theorem foldl_delete (lawful : OrderedTree.Lawful SACKBlock.less tree) {ranges : List SACKBlock}
    (canonical : Canonical base ranges) :
    ∀ (Ds : List SACKBlock) (t : T), (∀ x ∈ Ds, x ∈ ranges) → (tree.items t).Sublist ranges →
      (tree.items (Ds.foldl (fun t sb => (tree.delete t sb).1) t)).Sublist (tree.items t) ∧
        ∀ y, y ∈ tree.items (Ds.foldl (fun t sb => (tree.delete t sb).1) t) ↔ y ∈ tree.items t ∧ y ∉ Ds
  | [], t, _, _ => ⟨List.Sublist.refl _, fun y => by simp⟩
  | x :: rest, t, fromRanges, sub => by
      have inRanges := fromRanges x List.mem_cons_self
      have itemsEq := (delete_eq lawful (canonical.sublist sub) (canonical.valid x inRanges).lo_lt).1
      rw [List.foldl_cons]
      obtain ⟨laterSub, laterMem⟩ :=
        foldl_delete lawful canonical rest (tree.delete t x).1 (fun y member => fromRanges y (List.mem_cons_of_mem x member))
          (by rw [itemsEq]; exact List.filter_sublist.trans sub)
      rw [itemsEq] at laterSub laterMem
      refine ⟨laterSub.trans List.filter_sublist, fun y => ?_⟩
      rw [laterMem, List.mem_filter, decide_eq_true_iff, List.mem_cons, not_or]
      constructor
      · rintro ⟨⟨member, differ⟩, notLater⟩
        exact ⟨member, fun same => differ (same ▸ rfl), notLater⟩
      · rintro ⟨member, differ, notLater⟩
        exact ⟨⟨member, fun same => differ (canonical.eq_of_lo (sub.subset member) inRanges same)⟩, notLater⟩

theorem sum_cut_descend {ranges : List SACKBlock} (canonical : Canonical base ranges) (seq : SeqValue) :
    (((ranges.filter fun i => decide (i.lo base ≤ offset base seq)).reverse).map (cut base seq)).sum =
      (ranges.map (cut base seq)).sum := by
  rw [List.map_reverse, List.sum_reverse]
  induction ranges with
  | nil => rfl
  | cons y rest ih =>
      obtain ⟨hy, _, restCanonical⟩ := Canonical.cons_iff.mp canonical
      by_cases low : y.lo base ≤ offset base seq
      · rw [List.filter_cons_of_pos (by simpa using low), List.map_cons, List.sum_cons, List.map_cons, List.sum_cons,
          ih restCanonical]
      · have nothing : cut base seq y = 0 := by
          unfold cut
          have := hy.1
          rw [if_neg (by omega)]
          omega
        rw [List.filter_cons_of_neg (by simpa using low), List.map_cons, List.sum_cons, nothing, Nat.zero_add,
          ih restCanonical]

theorem Descending.sublist {L L' : List SACKBlock} (descending : Descending base L) (sub : L'.Sublist L) :
    Descending base L' :=
  ⟨fun b member => descending.valid b (sub.subset member), descending.apart.sublist sub⟩

theorem Canonical.eq_of_holds {ranges : List SACKBlock} (canonical : Canonical base ranges) {a b : SACKBlock}
    (ha : a ∈ ranges) (hb : b ∈ ranges) {n : Nat} (inA : a.Holds base n) (inB : b.Holds base n) : a = b := by
  by_contra differ
  rcases canonical.before_or_before ha hb differ with before | before
  · unfold Before Holds at *
    omega
  · unfold Before Holds at *
    omega

theorem delete_spec (lawful : OrderedTree.Lawful SACKBlock.less tree) {s : SACKScoreboard T}
    (canonical : Canonical base (tree.items s.ranges)) {seq : SeqValue}
    (hseq : offset base seq < 2 ^ 31) (counted : s.sacked.toNat = total base (tree.items s.ranges)) :
    Canonical base (tree.items (s.delete tree seq).ranges) ∧
      (∀ n, Covers base (tree.items (s.delete tree seq).ranges) n ↔
        Covers base (tree.items s.ranges) n ∧ offset base seq ≤ n) ∧
      (s.delete tree seq).sacked.toNat = total base (tree.items (s.delete tree seq).ranges) := by
  unfold SACKScoreboard.delete
  by_cases isEmpty : s.empty tree = true
  · have noRanges : tree.items s.ranges = [] :=
      List.eq_nil_of_length_eq_zero (by simpa [empty, lawful.len_items] using isEmpty)
    rw [if_pos isEmpty]
    refine ⟨canonical, fun n => ?_, counted⟩
    simp [Covers, noRanges]
  rw [if_neg isEmpty]
  dsimp only
  have pivotLo : (⟨seq, seq + 1⟩ : SACKBlock).lo base = offset base seq := rfl
  rw [descendLessOrEqual_eq lawful canonical (show (⟨seq, seq + 1⟩ : SACKBlock).lo base < 2 ^ 31 from hseq), pivotLo]
  -- the ranges `Delete` visits: those starting at `seq` or before, going down
  have visited : ∀ y ∈ ((tree.items s.ranges).filter fun i => decide (i.lo base ≤ offset base seq)).reverse,
      y ∈ tree.items s.ranges ∧ y.lo base ≤ offset base seq := by
    intro y member
    have inFilter := List.mem_filter.mp (List.mem_reverse.mp member)
    exact ⟨inFilter.1, by simpa using inFilter.2⟩
  have descending : Descending base ((tree.items s.ranges).filter fun i => decide (i.lo base ≤ offset base seq)).reverse :=
    (canonical.sublist List.filter_sublist).descending_reverse
  have remaining := total_filterMap_cutBefore seq canonical
  obtain ⟨deletes, puts, counts⟩ :=
    foldl_deleteTurn hseq _ [] [] s.sacked (fun y member => ⟨canonical.valid y (visited y member).1, (visited y member).2⟩)
      (by rw [sum_cut_descend canonical seq, counted, remaining]; omega)
  generalize List.foldl (deleteTurn seq) ([], [], s.sacked) _ = visit at deletes puts counts ⊢
  rw [deletes, puts, List.nil_append, List.nil_append]
  -- the ranges left after the deletions: those after `seq`, and `[seq, seq + 1)`
  obtain ⟨keptSub, keptMem⟩ := foldl_delete lawful canonical
    (((tree.items s.ranges).filter fun i => decide (i.lo base ≤ offset base seq)).reverse.filter
      fun y => decide (y ≠ ⟨seq, seq + 1⟩)) s.ranges
    (fun y member => (visited y (List.mem_filter.mp member).1).1) (List.Sublist.refl _)
  have keptIff : ∀ z, z ∈ tree.items (List.foldl (fun L sb => (tree.delete L sb).1) s.ranges
      (((tree.items s.ranges).filter fun i => decide (i.lo base ≤ offset base seq)).reverse.filter
        fun y => decide (y ≠ ⟨seq, seq + 1⟩))) ↔
        z ∈ tree.items s.ranges ∧ (offset base seq < z.lo base ∨ z = ⟨seq, seq + 1⟩) := by
    intro z
    rw [keptMem, List.mem_filter, List.mem_reverse, List.mem_filter]
    constructor
    · rintro ⟨member, notVisited⟩
      refine ⟨member, ?_⟩
      by_cases low : z.lo base ≤ offset base seq
      · exact Or.inr (by by_contra differ; exact notVisited ⟨⟨member, by simpa using low⟩, by simpa using differ⟩)
      · exact Or.inl (by omega)
    · rintro ⟨member, after | rfl⟩
      · exact ⟨member, fun ⟨⟨_, low⟩, _⟩ => by simp at low; omega⟩
      · exact ⟨member, fun ⟨_, differ⟩ => by simp at differ⟩
  generalize List.foldl (fun L sb => (tree.delete L sb).1) s.ranges _ = kept at keptSub keptIff ⊢
  have keptCanonical := canonical.sublist keptSub
  -- the ranges starting before `seq` and reaching past it, but `[seq, seq + 1)`
  have reachingIn : ∀ y ∈ ((tree.items s.ranges).filter fun i => decide (i.lo base ≤ offset base seq)).reverse.filter
      (fun y => decide (y ≠ ⟨seq, seq + 1⟩ ∧ offset base seq < y.hi base)),
      y ∈ tree.items s.ranges ∧ y.lo base ≤ offset base seq ∧ y ≠ ⟨seq, seq + 1⟩ ∧ offset base seq < y.hi base := by
    intro y member
    obtain ⟨visitedY, reachingY⟩ := List.mem_filter.mp member
    obtain ⟨differ, reaches⟩ := of_decide_eq_true reachingY
    exact ⟨(visited y visitedY).1, (visited y visitedY).2, differ, reaches⟩
  have reachingAll : ∀ y ∈ tree.items s.ranges, y.lo base ≤ offset base seq → offset base seq < y.hi base →
      y ≠ ⟨seq, seq + 1⟩ → y ∈ ((tree.items s.ranges).filter fun i => decide (i.lo base ≤ offset base seq)).reverse.filter
        (fun y => decide (y ≠ ⟨seq, seq + 1⟩ ∧ offset base seq < y.hi base)) := by
    intro y member low reaches differ
    exact List.mem_filter.mpr ⟨List.mem_reverse.mpr (List.mem_filter.mpr ⟨member, by simpa using low⟩),
      decide_eq_true ⟨differ, reaches⟩⟩
  have reachingDescending := descending.sublist (List.filter_sublist (l := ((tree.items s.ranges).filter fun i =>
    decide (i.lo base ≤ offset base seq)).reverse) (p := fun y => decide (y ≠ ⟨seq, seq + 1⟩ ∧
      offset base seq < y.hi base)))
  have final : tree.items (List.foldl (fun L sb => (tree.replaceOrInsert L sb).1) kept
      ((((tree.items s.ranges).filter fun i => decide (i.lo base ≤ offset base seq)).reverse.filter
        (fun y => decide (y ≠ ⟨seq, seq + 1⟩ ∧ offset base seq < y.hi base))).map fun y => ⟨seq, y.end⟩)) =
      (tree.items s.ranges).filterMap (cutBefore base seq) := by
    generalize ((tree.items s.ranges).filter fun i => decide (i.lo base ≤ offset base seq)).reverse.filter
      (fun y => decide (y ≠ ⟨seq, seq + 1⟩ ∧ offset base seq < y.hi base)) = reaching
      at reachingIn reachingAll reachingDescending ⊢
    rcases reaching with _ | ⟨y0, _ | ⟨y2, rest⟩⟩
    · -- nothing reaches past `seq` from before it: the deletions leave the cut ranges
      apply Canonical.eq_of_mem_iff keptCanonical (canonical_filterMap_cutBefore seq canonical)
      intro z
      rw [keptIff, List.mem_filterMap]
      constructor
      · rintro ⟨member, after | rfl⟩
        · exact ⟨z, member, cutBefore_of_lt (canonical.valid z member) after⟩
        · have := (canonical.valid _ member).1
          exact ⟨_, member, cutBefore_of_reaching (le_of_eq pivotLo) (by rw [← pivotLo]; exact this)⟩
      · rintro ⟨y, member, cutTo⟩
        by_cases after : offset base seq < y.lo base
        · rw [cutBefore_of_lt (canonical.valid y member) after] at cutTo
          cases cutTo
          exact ⟨member, Or.inl after⟩
        · have reaches := lt_hi_of_cutBefore cutTo
          by_cases pivot : y = ⟨seq, seq + 1⟩
          · rw [cutBefore_of_reaching (by omega) reaches, pivot] at cutTo
            cases cutTo
            exact ⟨pivot ▸ member, Or.inr rfl⟩
          · exact absurd (reachingAll y member (by omega) reaches pivot) List.not_mem_nil
    · -- one range reaches past `seq`: its rest from `seq` goes in
      obtain ⟨y0Mem, y0Low, y0Differ, y0Reaches⟩ := reachingIn y0 List.mem_cons_self
      have y0Valid := canonical.valid y0 y0Mem
      have noPivot : (⟨seq, seq + 1⟩ : SACKBlock) ∉ tree.items s.ranges := by
        intro pivotMem
        have pivotValid := canonical.valid _ pivotMem
        exact y0Differ (canonical.eq_of_holds y0Mem pivotMem (n := offset base seq) ⟨y0Low, y0Reaches⟩
          ⟨le_of_eq pivotLo, by rw [← pivotLo]; exact pivotValid.1⟩)
      have keptAfter : ∀ z ∈ tree.items kept, z ∈ tree.items s.ranges ∧ offset base seq < z.lo base := by
        intro z member
        obtain ⟨inRanges, after | rfl⟩ := (keptIff z).mp member
        · exact ⟨inRanges, after⟩
        · exact absurd inRanges noPivot
      have restValid : (⟨seq, y0.end⟩ : SACKBlock).Valid base := ⟨y0Reaches, y0Valid.2⟩
      have fits : ∀ z ∈ tree.items kept, z.lo base ≠ (⟨seq, y0.end⟩ : SACKBlock).lo base →
          Before base ⟨seq, y0.end⟩ z ∨ Before base z ⟨seq, y0.end⟩ := by
        intro z member _
        obtain ⟨inRanges, after⟩ := keptAfter z member
        have differ : y0 ≠ z := by
          rintro rfl
          omega
        rcases canonical.before_or_before y0Mem inRanges differ with before | before
        · exact Or.inl before
        · unfold Before at before
          have := (canonical.valid z inRanges).1
          omega
      obtain ⟨insertedCanonical, insertedMem, _, _⟩ := replaceOrInsert_spec lawful keptCanonical restValid fits
      rw [List.map_cons, List.map_nil, List.foldl_cons, List.foldl_nil]
      apply Canonical.eq_of_mem_iff insertedCanonical (canonical_filterMap_cutBefore seq canonical)
      intro z
      rw [insertedMem, List.mem_filterMap]
      constructor
      · rintro (rfl | ⟨member, _⟩)
        · exact ⟨y0, y0Mem, cutBefore_of_reaching y0Low y0Reaches⟩
        · obtain ⟨inRanges, after⟩ := keptAfter z member
          exact ⟨z, inRanges, cutBefore_of_lt (canonical.valid z inRanges) after⟩
      · rintro ⟨y, member, cutTo⟩
        by_cases after : offset base seq < y.lo base
        · rw [cutBefore_of_lt (canonical.valid y member) after] at cutTo
          obtain rfl := Option.some.inj cutTo
          refine Or.inr ⟨(keptIff y).mpr ⟨member, Or.inl after⟩, ?_⟩
          show y.lo base ≠ offset base seq
          omega
        · have reaches := lt_hi_of_cutBefore cutTo
          have differ : y ≠ ⟨seq, seq + 1⟩ := fun same => noPivot (same ▸ member)
          have isY0 := List.mem_singleton.mp (reachingAll y member (by omega) reaches differ)
          subst isY0
          rw [cutBefore_of_reaching (by omega) reaches] at cutTo
          cases cutTo
          exact Or.inl rfl
    · -- two ranges cannot both reach past `seq` from before it
      obtain ⟨_, y0Low, _, _⟩ := reachingIn y0 List.mem_cons_self
      obtain ⟨_, _, _, y2Reaches⟩ := reachingIn y2 (List.mem_cons_of_mem y0 List.mem_cons_self)
      obtain ⟨_, below, _⟩ := Descending.cons_iff.mp reachingDescending
      have := below y2 List.mem_cons_self
      unfold Before at this
      omega
  rw [final]
  refine ⟨canonical_filterMap_cutBefore seq canonical, covers_filterMap_cutBefore seq canonical, ?_⟩
  rw [counts, sum_cut_descend canonical seq, counted, remaining]
  omega

end Delete

end SACKScoreboard

end Cijitter.Tcp
