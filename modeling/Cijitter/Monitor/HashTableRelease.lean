import Cijitter.Monitor.HashTable
import Cijitter.Lib.TopK
import Mathlib

/-! `hash_table_release` (`monitor/kernel/daptrace.c`): the walk over every
chain of the table that sorts the nodes into the ten target slots
`targets_addr` / `nr_targets_addr`, largest count first. Each node goes
before the first slot of smaller count, the slots after it move up by one
and the last falls off: the insertion of `TopK`, on a list of ten pairs. The
memory the walk frees is not modelled. -/

set_option autoImplicit false

namespace Cijitter.Monitor

/-- `targets_addr[i]` and `nr_targets_addr[i]`, slot by slot. -/
structure Targets where
  entries : List (UInt64 × Int32)
  length : entries.length = 10

/-- `hash_table_init`. -/
def hashTableInit : Targets :=
  ⟨List.replicate 10 (0, 0), rfl⟩

/-- `nr_targets_addr[i + 1] = nr_targets_addr[i]; targets_addr[i+1] = targets_addr[i];` -/
def Targets.moveUp (t : Targets) (i : Nat) : Targets :=
  ⟨t.entries.set (i + 1) (t.entries.getD i (0, 0)), by rw [List.length_set, t.length]⟩

/-- The loop `for (i=8; i>=flag; i--)` with `n` turns left: the next turn is
`i = flag + n - 1`. -/
def shiftTargets (flag : Nat) : Nat → Targets → Targets
  | 0, t => t
  | n + 1, t => shiftTargets flag n (t.moveUp (flag + n))

/-- The body of the chain walk for one node: the first slot whose count is
below the node's, then the shift and the store; no slot, no change. -/
def releaseNode (t : Targets) (node : HashNode) : Targets :=
  match (List.range 10).find? fun i => (t.entries.getD i (0, 0)).2 < node.nValue with
  | none => t
  | some flag =>
    let t := shiftTargets flag (9 - flag) t
    ⟨t.entries.set flag (node.sKey, node.nValue), by rw [List.length_set, t.length]⟩

/-- `hash_table_release`: every chain of every bucket, in order. -/
def hashTableRelease (table : HashTable) (t : Targets) : Targets :=
  (List.range hashTableMaxSize).foldl (fun t i => (table.buckets i).foldl releaseNode t) t

/-! ## The slots as a top-ten list -/

/-- The count of a slot, as the comparisons read it. -/
def slotCount (entry : UInt64 × Int32) : Int :=
  entry.2.toInt

theorem Targets.ext {t u : Targets} (same : t.entries = u.entries) : t = u := by
  cases t
  cases u
  cases same
  rfl

theorem getElem?_moveUp (t : Targets) {i : Nat} (inside : i + 1 < 10) (j : Nat) :
    (t.moveUp i).entries[j]? = if j = i + 1 then t.entries[i]? else t.entries[j]? := by
  have read : t.entries[i]? = some (t.entries.getD i (0, 0)) := by
    rw [List.getD_eq_getElem?_getD, List.getElem?_eq_getElem (by rw [t.length]; omega)]
    rfl
  rw [Targets.moveUp, List.getElem?_set, t.length, read]
  by_cases here : j = i + 1
  · rw [if_pos here.symm, if_pos inside, if_pos here]
  · rw [if_neg (Ne.symm here), if_neg here]

theorem getElem?_shiftTargets {flag : Nat} {n : Nat} (t : Targets) (fits : flag + n ≤ 9) (j : Nat) :
    (shiftTargets flag n t).entries[j]? =
      if flag < j ∧ j ≤ flag + n then t.entries[j - 1]? else t.entries[j]? := by
  induction n generalizing t with
  | zero =>
    rw [shiftTargets, if_neg (by omega)]
  | succ n ih =>
    -- the turn for `flag + n` runs first, then the `n` turns below it
    rw [shiftTargets, ih _ (by omega), getElem?_moveUp _ (by omega), getElem?_moveUp _ (by omega)]
    by_cases moved : flag < j ∧ j ≤ flag + n
    · rw [if_pos moved, if_neg (by omega), if_pos (by omega)]
    · rw [if_neg moved]
      by_cases top : j = flag + n + 1
      · rw [if_pos top, if_pos (by omega), top, Nat.add_sub_cancel]
      · rw [if_neg top, if_neg (by omega)]

theorem find?_range_getD {γ : Type} (l : List γ) (d : γ) (p : γ → Bool) :
    (List.range l.length).find? (fun i => p (l.getD i d)) =
      if l.findIdx p < l.length then some (l.findIdx p) else none := by
  induction l with
  | nil => rfl
  | cons x l ih =>
    rw [List.length_cons, List.range_succ_eq_map, List.find?_cons, List.findIdx_cons]
    by_cases first : p x = true
    · simp [first]
    · -- the later slots are the slots of the tail, one further on
      have later : (List.map Nat.succ (List.range l.length)).find? (fun i => p ((x :: l).getD i d)) =
          ((List.range l.length).find? fun i => p (l.getD i d)).map Nat.succ := by
        rw [List.find?_map]
        rfl
      simp only [List.getD_cons_zero, first, later, ih, cond_false]
      split_ifs with inside inside'
      · rfl
      · omega
      · omega
      · rfl

theorem entries_releaseNode (t : Targets) (node : HashNode) :
    (releaseNode t node).entries = TopK.insertTop slotCount 10 t.entries (node.sKey, node.nValue) := by
  have search : (List.range 10).find? (fun i => (t.entries.getD i (0, 0)).2 < node.nValue) =
      if t.entries.findIdx (fun b => slotCount b < slotCount (node.sKey, node.nValue)) < 10
      then some (t.entries.findIdx fun b => slotCount b < slotCount (node.sKey, node.nValue)) else none := by
    have read := find?_range_getD t.entries (0, 0) fun b => slotCount b < slotCount (node.sKey, node.nValue)
    rw [t.length] at read
    rw [← read]
    simp [slotCount, Int32.lt_iff_toInt_lt]
  unfold releaseNode TopK.insertTop
  rw [search]
  apply List.ext_getElem?
  intro j
  rw [List.getElem?_take, TopK.getElem?_insertBefore]
  have outside : 10 ≤ j → t.entries[j]? = none := fun beyond =>
    List.getElem?_eq_none (by rw [t.length]; exact beyond)
  by_cases found : t.entries.findIdx (fun b => slotCount b < slotCount (node.sKey, node.nValue)) < 10
  · -- a slot of smaller count: the shift, then the store
    rw [if_pos found]
    dsimp only
    rw [List.getElem?_set, getElem?_shiftTargets _ (by omega), (shiftTargets _ _ t).length]
    split_ifs <;> first | rfl | omega | exact outside (by omega)
  · -- every slot holds at least the node's count
    rw [if_neg found]
    split_ifs <;> first | rfl | omega | exact outside (by omega)

/-! ## The whole walk -/

/-- The pair a node is listed with. -/
def HashNode.toPair (node : HashNode) : UInt64 × Int32 :=
  (node.sKey, node.nValue)

theorem hashTableRelease_eq (table : HashTable) (t : Targets) :
    hashTableRelease table t = table.entries.foldl releaseNode t := by
  rw [hashTableRelease, HashTable.entries, List.foldl_flatMap]

theorem entries_foldl_releaseNode (nodes : List HashNode) (t : Targets) :
    (nodes.foldl releaseNode t).entries =
      (nodes.map HashNode.toPair).foldl (TopK.insertTop slotCount 10) t.entries := by
  induction nodes generalizing t with
  | nil => rfl
  | cons node nodes ih =>
    rw [List.foldl_cons, ih, entries_releaseNode]
    rfl

theorem keepsTop_hashTableRelease {table : HashTable} (distinct : (table.entries.map (·.sKey)).Nodup) :
    TopK.KeepsTop slotCount (0, 0) 10 (table.entries.map HashNode.toPair)
      (hashTableRelease table hashTableInit).entries := by
  have pairs : ([] ++ table.entries.map HashNode.toPair).Nodup := by
    rw [List.nil_append]
    apply List.Nodup.of_map Prod.fst
    rw [List.map_map]
    exact distinct
  have start : hashTableInit.entries = List.replicate 10 (0, 0) := rfl
  have empty : TopK.KeepsTop slotCount (0, 0) 10 [] (List.replicate 10 (0, 0)) :=
    TopK.keepsTop_replicate
  have fed := empty.foldl pairs
  rw [List.nil_append] at fed
  rw [hashTableRelease_eq, entries_foldl_releaseNode, start]
  exact fed

theorem hashTableRelease_of_nonpos {table : HashTable}
    (small : ∀ node ∈ table.entries, node.nValue.toInt ≤ 0) :
    hashTableRelease table hashTableInit = hashTableInit := by
  apply Targets.ext
  rw [hashTableRelease_eq, entries_foldl_releaseNode]
  refine TopK.foldl_insertTop_replicate fun a mem => ?_
  obtain ⟨node, inTable, rfl⟩ := List.mem_map.1 mem
  exact small node inTable

/-! ## Pages and their totals -/

/-- The distinct pages of the rounds. -/
def pageKeys (rounds : List (List MapiaTask)) : List UInt64 :=
  ((aggregatedRegions rounds).map pageKey).dedup

/-- Each page of the rounds with its total number of accesses. -/
def pageTotals (rounds : List (List MapiaTask)) : List (UInt64 × Int) :=
  (pageKeys rounds).map fun k => (k, pageTotal (aggregatedRegions rounds) k)

theorem mem_of_hashTableLookup {table : HashTable} {k : UInt64} {node : HashNode}
    (found : hashTableLookup table k = some (some node)) : ∃ i, node ∈ table.buckets i := by
  obtain ⟨pos, -, first⟩ := Option.map_eq_some_iff.1 found
  exact ⟨pos, List.mem_of_find?_eq_some first⟩

/-- The slots read as integers. -/
def slotPair (entry : UInt64 × Int32) : UInt64 × Int :=
  (entry.1, entry.2.toInt)

theorem slotPair_injective : Function.Injective slotPair := by
  intro x y same
  simp only [slotPair, Prod.mk.injEq, Int32.toInt_inj] at same
  exact Prod.ext same.1 same.2

theorem hashTableRelease_keeps_top_ten (rounds : List (List MapiaTask))
    (fewPages : (pageKeys rounds).length ≤ hashTableMaxSize)
    (small : ∀ k ∈ pageKeys rounds, pageTotal (aggregatedRegions rounds) k < 2 ^ 31) :
    ∃ table, StepRun.run aggregateStep (some HashTable.empty) rounds = some table ∧
      (∀ k ∈ pageKeys rounds, ∃ node, hashTableLookup table k = some (some node) ∧ node.sKey = k ∧
        node.nValue.toInt = pageTotal (aggregatedRegions rounds) k) ∧
      (table.entries.map (·.sKey)).Nodup ∧
      TopK.KeepsTop Prod.snd (0, 0) 10 (pageTotals rounds)
        ((hashTableRelease table hashTableInit).entries.map slotPair) := by
  obtain ⟨table, ran, tallies⟩ : ∃ table, StepRun.run aggregateStep (some HashTable.empty) rounds = some table ∧
      Tallies table ([] ++ aggregatedRegions rounds) :=
    tallies_empty.run (by rw [List.nil_append]; exact fewPages)
  rw [List.nil_append] at tallies
  -- below `2^31` a stored count reads back as the page's total
  have total : ∀ node, Stored (aggregatedRegions rounds) node →
      node.nValue.toInt = pageTotal (aggregatedRegions rounds) node.sKey := fun node stored => by
    rw [stored.2, toInt_wrapCount (small _ (List.mem_dedup.2 stored.1))]
  refine ⟨table, ran, fun k mem => ?_, tallies.entries_nodup, ?_⟩
  · obtain ⟨node, found, key, stored⟩ := tallies.lookup (List.mem_dedup.1 mem)
    exact ⟨node, found, key, key ▸ total node stored⟩
  · have keeps : TopK.KeepsTop Prod.snd (slotPair (0, 0)) 10
        ((table.entries.map HashNode.toPair).map slotPair)
        ((hashTableRelease table hashTableInit).entries.map slotPair) :=
      (keepsTop_hashTableRelease tallies.entries_nodup).map slotPair_injective fun _ => rfl
    refine keeps.of_mem_iff fun x => ?_
    -- the table's pairs are the pages with their totals
    simp only [List.map_map, List.mem_map, Function.comp, pageTotals]
    constructor
    · rintro ⟨node, inTable, rfl⟩
      obtain ⟨i, inBucket⟩ := tallies.mem_entries.1 inTable
      have stored := tallies.stored i node inBucket
      exact ⟨node.sKey, List.mem_dedup.2 stored.1, by rw [← total node stored]; rfl⟩
    · rintro ⟨k, mem, rfl⟩
      obtain ⟨node, found, rfl, stored⟩ := tallies.lookup (List.mem_dedup.1 mem)
      refine ⟨node, tallies.mem_entries.2 (mem_of_hashTableLookup found), ?_⟩
      rw [← total node stored]
      rfl

/-- Two rounds over two pages: `0x1000` is sampled in both. -/
def twoRounds : List (List MapiaTask) :=
  [[⟨1, [⟨0x1000, 0x2000, 0x1234, 5⟩, ⟨0x3000, 0x4000, 0x3010, 3⟩]⟩], [⟨1, [⟨0x1000, 0x4000, 0x1fff, 7⟩]⟩]]

theorem twoRounds_keep_top_ten :
    (pageKeys twoRounds).length ≤ hashTableMaxSize ∧
      (∀ k ∈ pageKeys twoRounds, pageTotal (aggregatedRegions twoRounds) k < 2 ^ 31) ∧
      ∃ table, StepRun.run aggregateStep (some HashTable.empty) twoRounds = some table ∧
        (∀ k ∈ pageKeys twoRounds, ∃ node, hashTableLookup table k = some (some node) ∧ node.sKey = k ∧
          node.nValue.toInt = pageTotal (aggregatedRegions twoRounds) k) ∧
        (table.entries.map (·.sKey)).Nodup ∧
        TopK.KeepsTop Prod.snd (0, 0) 10 (pageTotals twoRounds)
          ((hashTableRelease table hashTableInit).entries.map slotPair) := by
  have two : (pageKeys twoRounds).length = 2 := by decide
  have few : (pageKeys twoRounds).length ≤ hashTableMaxSize := by
    rw [two, hashTableMaxSize]
    omega
  have small : ∀ k ∈ pageKeys twoRounds, pageTotal (aggregatedRegions twoRounds) k < 2 ^ 31 := by
    have keys : pageKeys twoRounds = [0x3000, 0x1000] := by decide
    rw [keys]
    intro k mem
    simp only [List.mem_cons, List.not_mem_nil, or_false] at mem
    rcases mem with rfl | rfl <;> decide
  exact ⟨few, small, hashTableRelease_keeps_top_ten twoRounds few small⟩

/-- One region with `2^31` accesses: the page's total does not fit in an `int`. -/
def wrappedRound : List (List MapiaTask) :=
  [[⟨1, [⟨0x1000, 0x2000, 0x1000, 0x80000000⟩]⟩]]

/-- The page's total is positive, yet it reads as `-2^31` and is not listed. -/
theorem hashTableRelease_drops_wrapped_page :
    ∃ table, StepRun.run aggregateStep (some HashTable.empty) wrappedRound = some table ∧
      pageTotals wrappedRound = [(0x1000, 2 ^ 31)] ∧
      hashTableRelease table hashTableInit = hashTableInit := by
  have ran : StepRun.run aggregateStep (some HashTable.empty) wrappedRound =
      some { HashTable.empty.setBucket 0 [⟨0x1000, -2147483648⟩] with size := 1 } :=
    rfl
  refine ⟨_, ran, by decide, hashTableRelease_of_nonpos fun node mem => ?_⟩
  obtain ⟨i, -, inBucket⟩ := List.mem_flatMap.1 mem
  simp only [buckets_setBucket] at inBucket
  split_ifs at inBucket
  · rw [List.mem_singleton.1 inBucket]
    decide
  · exact absurd inBucket List.not_mem_nil

end Cijitter.Monitor
