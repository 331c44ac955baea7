import Cijitter.Tcp.SackScoreboardProperties
import Cijitter.Lib.Run
import Mathlib

/-! The scoreboard over the sender's calls. What it is for: a set of sequence
numbers the peer has acknowledged selectively, which each `Insert` adds a
block to and each `Delete` cuts below its point. From a new scoreboard, and
for calls inside one window of fewer than `2 ^ 31` sequence numbers, it keeps
that set in canonical ranges, `Sacked` is their size, and `IsSACKED` asks
whether one range holds a block. -/

set_option autoImplicit false

namespace Cijitter.Tcp

open SACKBlock

instance (base : SeqValue) (b : SACKBlock) : Decidable (b.Valid base) :=
  inferInstanceAs (Decidable (_ ∧ _))

namespace SACKScoreboard

variable {base : SeqValue}

/-! ### `IsSACKED` -/

theorem contains_eq_decide {b r : SACKBlock} (hb : b.Valid base) (ordered : r.lo base ≤ r.hi base)
    (hr : r.hi base < 2 ^ 31) :
    b.contains r = decide (b.lo base ≤ r.lo base ∧ r.hi base ≤ b.hi base) := by
  unfold SACKBlock.contains
  rw [lessThanEq_eq_decide hb.lo_lt (Nat.lt_of_le_of_lt ordered hr), lessThanEq_eq_decide hr hb.2]
  exact Bool.decide_and _ _ |>.symm

theorem iterate_isSACKEDTurn_gap {r y : SACKBlock} (rest : List SACKBlock) (gap : lessThan y.end r.start = true) :
    OrderedTree.iterate (isSACKEDTurn r) (y :: rest) false = false := by
  simp [OrderedTree.iterate_cons, isSACKEDTurn, gap]

theorem iterate_isSACKEDTurn_found {r y : SACKBlock} (rest : List SACKBlock) (meets : lessThan y.end r.start = false)
    (inside : y.contains r = true) :
    OrderedTree.iterate (isSACKEDTurn r) (y :: rest) false = true := by
  simp [OrderedTree.iterate_cons, isSACKEDTurn, meets, inside]

theorem iterate_isSACKEDTurn_next {r y : SACKBlock} (rest : List SACKBlock) (meets : lessThan y.end r.start = false)
    (outside : y.contains r = false) :
    OrderedTree.iterate (isSACKEDTurn r) (y :: rest) false = OrderedTree.iterate (isSACKEDTurn r) rest false := by
  simp [OrderedTree.iterate_cons, isSACKEDTurn, meets, outside]

theorem iterate_isSACKEDTurn {r : SACKBlock} (ordered : r.lo base ≤ r.hi base) (hr : r.hi base < 2 ^ 31) :
    ∀ {L : List SACKBlock}, Descending base L → (∀ y ∈ L, y.lo base ≤ r.lo base) →
      (OrderedTree.iterate (isSACKEDTurn r) L false = true ↔ ∃ b ∈ L, b.contains r = true)
  | [], _, _ => by simp [OrderedTree.iterate_nil]
  | y :: rest, descending, low => by
      obtain ⟨yValid, below, restDescending⟩ := Descending.cons_iff.mp descending
      have rStart : offset base r.start < 2 ^ 31 := by unfold SACKBlock.lo SACKBlock.hi at *; omega
      by_cases gap : y.hi base < r.lo base
      · -- the first range visited ends before the block: nothing here holds it
        rw [iterate_isSACKEDTurn_gap rest ((lessThan_eq_decide yValid.2 rStart).trans (decide_eq_true gap))]
        simp only [Bool.false_eq_true, false_iff, not_exists, not_and]
        intro b member inside
        have bValid : b.Valid base := descending.valid b member
        rw [contains_eq_decide bValid ordered hr, decide_eq_true_iff] at inside
        have bEnds : b.hi base ≤ y.hi base := by
          rcases List.mem_cons.mp member with rfl | later
          · exact le_refl _
          · have bBelow := below b later
            have := yValid.1
            unfold Before at bBelow
            omega
        omega
      · have meets : lessThan y.end r.start = false :=
          (lessThan_eq_decide yValid.2 rStart).trans (decide_eq_false gap)
        cases inside : y.contains r
        · rw [iterate_isSACKEDTurn_next rest meets inside,
            iterate_isSACKEDTurn ordered hr restDescending fun z member => low z (List.mem_cons_of_mem y member)]
          constructor
          · rintro ⟨b, member, holds⟩
            exact ⟨b, List.mem_cons_of_mem y member, holds⟩
          · rintro ⟨b, member, holds⟩
            rcases List.mem_cons.mp member with rfl | later
            · rw [inside] at holds
              cases holds
            · exact ⟨b, later, holds⟩
        · rw [iterate_isSACKEDTurn_found rest meets inside]
          exact iff_of_true rfl ⟨y, List.mem_cons_self, inside⟩

theorem isSACKED_iff {T : Type} {tree : OrderedTree.Ops SACKBlock T} (lawful : OrderedTree.Lawful SACKBlock.less tree)
    {s : SACKScoreboard T} (canonical : Canonical base (tree.items s.ranges)) {r : SACKBlock}
    (ordered : r.lo base ≤ r.hi base) (hr : r.hi base < 2 ^ 31) :
    s.isSACKED tree r = true ↔ ∃ b ∈ tree.items s.ranges, b.contains r = true := by
  unfold isSACKED
  by_cases isEmpty : s.empty tree = true
  · have noRanges : tree.items s.ranges = [] :=
      List.eq_nil_of_length_eq_zero (by simpa [empty, lawful.len_items] using isEmpty)
    simp [isEmpty, noRanges]
  rw [if_neg isEmpty, descendLessOrEqual_eq lawful canonical (Nat.lt_of_le_of_lt ordered hr)]
  rw [iterate_isSACKEDTurn ordered hr (canonical.sublist List.filter_sublist).descending_reverse
    fun y member => by simpa using (List.mem_filter.mp (List.mem_reverse.mp member)).2]
  constructor
  · rintro ⟨b, member, inside⟩
    exact ⟨b, (List.mem_filter.mp (List.mem_reverse.mp member)).1, inside⟩
  · rintro ⟨b, member, inside⟩
    have low := inside
    rw [contains_eq_decide (canonical.valid b member) ordered hr, decide_eq_true_iff] at low
    exact ⟨b, List.mem_reverse.mpr (List.mem_filter.mpr ⟨member, decide_eq_true low.1⟩), inside⟩

/-! ### Runs of calls -/

/-- A call the sender makes on its scoreboard. -/
inductive Call where
  | insert (r : SACKBlock)
  | delete (seq : SeqValue)
  deriving DecidableEq, Repr

section Runs

variable {T : Type} (tree : OrderedTree.Ops SACKBlock T)

def Call.apply (s : SACKScoreboard T) : Call → SACKScoreboard T
  | .insert r => s.insert tree r
  | .delete seq => s.delete tree seq

/-- What the sender asks of a call: a non-empty block inside the window and
room for one more range, or a point inside the window. -/
def Call.Admissible (base : SeqValue) (s : SACKScoreboard T) : Call → Prop
  | .insert r => r.Valid base ∧ tree.len s.ranges < maxSACKBlocks
  | .delete seq => offset base seq < 2 ^ 31

instance (s : SACKScoreboard T) (c : Call) : Decidable (c.Admissible tree base s) := by
  cases c <;> unfold Call.Admissible <;> infer_instance

/-- Each call admissible in the state it is made in. -/
def Admits (base : SeqValue) (s : SACKScoreboard T) (calls : List Call) : Prop :=
  StepRun.Allowed (Call.Admissible tree base) (Call.apply tree) s calls

instance (s : SACKScoreboard T) (calls : List Call) : Decidable (Admits tree base s calls) :=
  inferInstanceAs (Decidable (StepRun.Allowed _ _ _ _))

end Runs

/-- The set of distances from `base` the calls leave acknowledged. -/
def Call.update (base : SeqValue) (held : Set Nat) : Call → Set Nat
  | .insert r => held ∪ {n | r.Holds base n}
  | .delete seq => held ∩ {n | offset base seq ≤ n}

def held (base : SeqValue) (calls : List Call) : Set Nat :=
  StepRun.run (Call.update base) ∅ calls

section Represents

variable {T : Type} {tree : OrderedTree.Ops SACKBlock T}

variable (tree) in
/-- The scoreboard's tree holds `held` in canonical ranges, and `sacked`
counts them. -/
structure Represents (base : SeqValue) (s : SACKScoreboard T) (held : Set Nat) : Prop where
  canonical : Canonical base (tree.items s.ranges)
  covers : ∀ n, Covers base (tree.items s.ranges) n ↔ n ∈ held
  counted : s.sacked.toNat = total base (tree.items s.ranges)

variable (lawful : OrderedTree.Lawful SACKBlock.less tree)
include lawful

theorem Represents.new (smss : UInt16) (iss : SeqValue) :
    Represents tree base (newSACKScoreboard tree smss iss) ∅ := by
  have empty : tree.items (newSACKScoreboard tree smss iss).ranges = [] := lawful.items_new
  refine ⟨empty ▸ Canonical.nil, fun n => ?_, by rw [empty]; rfl⟩
  rw [empty]
  exact ⟨fun ⟨_, absent, _⟩ => absurd absent List.not_mem_nil, fun absent => absurd absent (Set.notMem_empty n)⟩

theorem Represents.apply {s : SACKScoreboard T} {held : Set Nat} (represents : Represents tree base s held) :
    ∀ {c : Call}, c.Admissible tree base s → Represents tree base (c.apply tree s) (c.update base held)
  | .insert r, ⟨valid, room⟩ => by
      show Represents tree base (s.insert tree r) (held ∪ {n | r.Holds base n})
      obtain ⟨canonical, covers, counted⟩ := insert_spec lawful represents.canonical valid represents.counted room
      refine ⟨canonical, fun n => ?_, counted⟩
      rw [covers, represents.covers, Set.mem_union, Set.mem_ofPred_eq]
  | .delete seq, inside => by
      show Represents tree base (s.delete tree seq) (held ∩ {n | offset base seq ≤ n})
      obtain ⟨canonical, covers, counted⟩ := delete_spec lawful represents.canonical inside represents.counted
      refine ⟨canonical, fun n => ?_, counted⟩
      rw [covers, represents.covers, Set.mem_inter_iff, Set.mem_ofPred_eq]

theorem Represents.run {s : SACKScoreboard T} {held : Set Nat} {calls : List Call}
    (represents : Represents tree base s held) (admits : Admits tree base s calls) :
    Represents tree base (StepRun.run (Call.apply tree) s calls) (StepRun.run (Call.update base) held calls) :=
  @StepRun.run_simulation _ _ _ (Call.apply tree) (Call.update base) (Call.Admissible tree base) (Represents tree base)
    (fun _ _ _ represents admissible => represents.apply lawful admissible) _ _ _ represents admits

end Represents

/-- For a tree that keeps the B-tree's contract, from a new scoreboard and
over calls inside one window, the ranges are non-empty, ordered and apart,
they hold the set the calls leave, `Sacked` is their size, and `IsSACKED` of
a block is whether one range holds it. -/
theorem run_represents_held {T : Type} (tree : OrderedTree.Ops SACKBlock T)
    (lawful : OrderedTree.Lawful SACKBlock.less tree) (base : SeqValue) (smss : UInt16) (iss : SeqValue)
    (calls : List Call) (admits : Admits tree base (newSACKScoreboard tree smss iss) calls) :
    let s := StepRun.run (Call.apply tree) (newSACKScoreboard tree smss iss) calls
    (∀ b ∈ tree.items s.ranges, b.Valid base) ∧ (tree.items s.ranges).Pairwise (Before base) ∧
      (∀ n, Covers base (tree.items s.ranges) n ↔ n ∈ held base calls) ∧
      s.sacked.toNat = total base (tree.items s.ranges) ∧
      ∀ r : SACKBlock, r.lo base ≤ r.hi base → r.hi base < 2 ^ 31 →
        (s.isSACKED tree r = true ↔ ∃ b ∈ tree.items s.ranges, b.contains r = true) := by
  obtain ⟨canonical, covers, counted⟩ := (Represents.new lawful smss iss).run lawful admits
  exact ⟨canonical.valid, canonical.apart, covers, counted, fun r ordered hr => isSACKED_iff lawful canonical ordered hr⟩

/-- The sorted list, a tree that keeps the contract. -/
def sortedList : OrderedTree.Ops SACKBlock (List SACKBlock) :=
  OrderedTree.SortedList.ops SACKBlock.less

theorem run_represents_held_after_delete :
    OrderedTree.Lawful SACKBlock.less sortedList ∧
      Admits sortedList 0 (newSACKScoreboard sortedList 1460 0) [.insert ⟨10, 20⟩, .delete 15, .insert ⟨5, 8⟩] ∧
      let s := StepRun.run (Call.apply sortedList) (newSACKScoreboard sortedList 1460 0)
        [.insert ⟨10, 20⟩, .delete 15, .insert ⟨5, 8⟩]
      (∀ b ∈ sortedList.items s.ranges, b.Valid 0) ∧ (sortedList.items s.ranges).Pairwise (Before 0) ∧
        (∀ n, Covers 0 (sortedList.items s.ranges) n ↔ n ∈ held 0 [.insert ⟨10, 20⟩, .delete 15, .insert ⟨5, 8⟩]) ∧
        s.sacked.toNat = total 0 (sortedList.items s.ranges) ∧
        ∀ r : SACKBlock, r.lo 0 ≤ r.hi 0 → r.hi 0 < 2 ^ 31 →
          (s.isSACKED sortedList r = true ↔ ∃ b ∈ sortedList.items s.ranges, b.contains r = true) :=
  ⟨OrderedTree.SortedList.lawful SACKBlock.less, by decide,
    run_represents_held sortedList (OrderedTree.SortedList.lawful SACKBlock.less) 0 1460 0 _ (by decide)⟩

/-- A block inserted after a `Delete`, below its point, stays: the set is
not the blocks inserted less what lies before the last `Delete` point. -/
theorem run_holds_below_last_delete :
    let s := StepRun.run (Call.apply sortedList) (newSACKScoreboard sortedList 1460 0)
      [.insert ⟨10, 20⟩, .delete 15, .insert ⟨5, 8⟩]
    s.ranges = [⟨5, 8⟩, ⟨15, 20⟩] ∧ s.isSACKED sortedList ⟨5, 8⟩ = true ∧ lessThan 5 15 = true := by
  decide

end SACKScoreboard

end Cijitter.Tcp
