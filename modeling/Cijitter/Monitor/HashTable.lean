import Mathlib
import Cijitter.Monitor.Mapia
import Cijitter.Lib.Run

/-! daptrace's table of access counts per page (`monitor/kernel/daptrace.c`):
a chained hash table of `HASH_TABLE_MAX_SIZE` buckets keyed by the page of a
region's sampled address, filled by `aggregate` after each aggregation
interval. A key is hashed as a C string over its own eight bytes: the walk
stops at the first zero byte, so a walk that finds none reads past the key
(`none` below). Counts are `int`, and `aggregate` adds the `unsigned int`
count of a region to them, which wraps modulo `2^32`. -/

set_option autoImplicit false

namespace Cijitter.Monitor

/-- `HASH_TABLE_MAX_SIZE`. -/
def hashTableMaxSize : Nat := 10000

/-- `HashNode` without its link: the chains are lists, head first. -/
structure HashNode where
  sKey : UInt64
  nValue : Int32
  deriving DecidableEq, Repr

/-- `hashTable` and `hash_table_size`. -/
structure HashTable where
  buckets : Nat → List HashNode
  size : Nat

/-- The table before the first insertion: static storage is zero. -/
def HashTable.empty : HashTable :=
  ⟨fun _ => [], 0⟩

/-- The bytes of an `unsigned long` read through `const signed char *`, on a
little-endian machine. -/
def keyBytes (skey : UInt64) : List Int8 :=
  (List.range 8).map fun n => (skey >>> (8 * n).toUInt64).toUInt8.toInt8

/-- The loop of `hash_table_hash_str` over the bytes after the first, with
`*p` promoted to `int` and then to `unsigned int`; `none` once it has walked
past the key. -/
def hashBytes : UInt32 → List Int8 → Option UInt32
  | _, [] => none
  | h, b :: rest => if b = 0 then some h else hashBytes ((h <<< 5) - h + b.toInt32.toUInt32) rest

/-- `hash_table_hash_str`. -/
def hashTableHashStr (skey : UInt64) : Option UInt32 :=
  match keyBytes skey with
  | [] => none
  | b :: rest =>
    let h := b.toInt32.toUInt32
    if h = 0 then some h else hashBytes h rest

/-- `hash_table_hash_str(skey) % HASH_TABLE_MAX_SIZE`, the bucket of a key. -/
def bucketOf (skey : UInt64) : Option Nat :=
  (hashTableHashStr skey).map fun hash => hash.toNat % hashTableMaxSize

/-- The table with bucket `pos` replaced. -/
def HashTable.setBucket (t : HashTable) (pos : Nat) (chain : List HashNode) : HashTable :=
  { t with buckets := Function.update t.buckets pos chain }

/-- `hash_table_insert`: the table after it, and what it returns. -/
def hashTableInsert (t : HashTable) (skey : UInt64) (nvalue : Int32) : Option (HashTable × Int) :=
  if t.size ≥ hashTableMaxSize then some (t, -1)
  else
    (bucketOf skey).map fun pos =>
      if (t.buckets pos).any (·.sKey == skey) then (t, 0)
      else ({ t.setBucket pos (⟨skey, nvalue⟩ :: t.buckets pos) with size := t.size + 1 }, 1)

/-- `hash_table_lookup`: the first node of the key's chain that holds the key. -/
def hashTableLookup (t : HashTable) (skey : UInt64) : Option (Option HashNode) :=
  (bucketOf skey).map fun pos => (t.buckets pos).find? (·.sKey == skey)

/-- `pNode->nValue += r->nr_accesses` on the node `hash_table_lookup` found,
the first of its chain with the key: the sum is taken in `unsigned int` and
stored back into the `int`. -/
def addAccesses (skey : UInt64) (nr : UInt32) : List HashNode → List HashNode
  | [] => []
  | node :: rest =>
    if node.sKey = skey then { node with nValue := (node.nValue.toUInt32 + nr).toInt32 } :: rest
    else node :: addAccesses skey nr rest

/-- `r->sampling_addr / 4096 * 4096`: the page a region is counted under. -/
def pageKey (r : MapiaRegion) : UInt64 :=
  r.samplingAddr / 4096 * 4096

/-- The body of `aggregate` for one region. A failed insertion (the table is
full) is ignored, as the source ignores what `hash_table_insert` returns. -/
def aggregateRegion (t : HashTable) (r : MapiaRegion) : Option HashTable :=
  let startAddr := pageKey r
  match hashTableLookup t startAddr with
  | none => none
  | some none => (hashTableInsert t startAddr r.nrAccesses.toInt32).map Prod.fst
  | some (some _) =>
    (bucketOf startAddr).map fun pos => t.setBucket pos (addAccesses startAddr r.nrAccesses (t.buckets pos))

/-- The regions of the tasks, in the order `aggregate` visits them. -/
def taskRegions (tasks : List MapiaTask) : List MapiaRegion :=
  tasks.flatMap (·.regions)

/-- `aggregate`: the table after every region of every task, and the tasks
with every `nr_accesses` reset. -/
def aggregate (t : HashTable) (tasks : List MapiaTask) : Option (HashTable × List MapiaTask) :=
  ((taskRegions tasks).foldlM aggregateRegion t).map fun t =>
    (t, tasks.map fun task => { task with regions := task.regions.map ({ · with nrAccesses := 0 }) })

/-- The aggregations of one run of the tracer: each round sees the tasks as
`check_access` and the region updates left them. -/
def aggregateStep : Option HashTable → List MapiaTask → Option HashTable
  | none, _ => none
  | some t, tasks => (aggregate t tasks).map Prod.fst

/-! ## Hashing page keys -/

theorem pageKey_toNat_mod (r : MapiaRegion) : (pageKey r).toNat % 4096 = 0 := by
  simp [pageKey, UInt64.toNat_mul, UInt64.toNat_div]

theorem hashTableHashStr_of_page {skey : UInt64} (page : skey.toNat % 4096 = 0) :
    hashTableHashStr skey = some 0 := by
  have low : skey.toUInt8 = 0 :=
    UInt8.toNat_inj.1 (by rw [UInt64.toNat_toUInt8, UInt8.toNat_zero]; omega)
  rw [hashTableHashStr, keyBytes, List.range_succ_eq_map, List.map_cons]
  simp [low, show Int32.toUInt32 0 = 0 from rfl]

theorem bucketOf_pageKey (r : MapiaRegion) : bucketOf (pageKey r) = some 0 := by
  rw [bucketOf, hashTableHashStr_of_page (pageKey_toNat_mod r)]
  rfl

theorem bucketOf_lt {skey : UInt64} {pos : Nat} (bucket : bucketOf skey = some pos) :
    pos < hashTableMaxSize := by
  obtain ⟨hash, -, rfl⟩ := Option.map_eq_some_iff.1 bucket
  exact Nat.mod_lt _ (by decide)

@[simp] theorem buckets_setBucket (t : HashTable) (pos : Nat) (chain : List HashNode) (i : Nat) :
    (t.setBucket pos chain).buckets i = if i = pos then chain else t.buckets i :=
  Function.update_apply t.buckets pos chain i

@[simp] theorem size_setBucket (t : HashTable) (pos : Nat) (chain : List HashNode) :
    (t.setBucket pos chain).size = t.size := rfl

/-! ## One region -/

theorem map_sKey_addAccesses (skey : UInt64) (nr : UInt32) (chain : List HashNode) :
    (addAccesses skey nr chain).map (·.sKey) = chain.map (·.sKey) := by
  induction chain with
  | nil => rfl
  | cons node rest ih =>
    unfold addAccesses
    split <;> simp [ih]

theorem mem_addAccesses {skey : UInt64} {nr : UInt32} {chain : List HashNode}
    (distinct : (chain.map (·.sKey)).Nodup) {node : HashNode} :
    node ∈ addAccesses skey nr chain ↔
      node ∈ chain ∧ node.sKey ≠ skey ∨
        ∃ old ∈ chain, old.sKey = skey ∧ node = { old with nValue := (old.nValue.toUInt32 + nr).toInt32 } := by
  induction chain with
  | nil => simp [addAccesses]
  | cons first rest ih =>
    rw [List.map_cons, List.nodup_cons] at distinct
    unfold addAccesses
    by_cases here : first.sKey = skey
    · -- the node found; the rest holds other keys only
      have others : ∀ x ∈ rest, x.sKey ≠ skey := fun x mem same =>
        distinct.1 (here ▸ same ▸ List.mem_map_of_mem mem)
      rw [if_pos here]
      simp only [List.mem_cons]
      constructor
      · rintro (rfl | later)
        · exact .inr ⟨first, .inl rfl, here, rfl⟩
        · exact .inl ⟨.inr later, others node later⟩
      · rintro (⟨rfl | later, other⟩ | ⟨old, rfl | later, key, rfl⟩)
        · exact absurd here other
        · exact .inr later
        · exact .inl rfl
        · exact absurd key (others old later)
    · rw [if_neg here]
      simp only [List.mem_cons, ih distinct.2]
      constructor
      · rintro (rfl | ⟨later, other⟩ | ⟨old, later, key, rfl⟩)
        · exact .inl ⟨.inl rfl, here⟩
        · exact .inl ⟨.inr later, other⟩
        · exact .inr ⟨old, .inr later, key, rfl⟩
      · rintro (⟨rfl | later, other⟩ | ⟨old, rfl | later, key, rfl⟩)
        · exact .inl rfl
        · exact .inr (.inl ⟨later, other⟩)
        · exact absurd key here
        · exact .inr (.inr ⟨old, later, key, rfl⟩)

theorem aggregateRegion_eq (t : HashTable) (r : MapiaRegion) {pos : Nat}
    (bucket : bucketOf (pageKey r) = some pos) :
    aggregateRegion t r =
      some (if ∃ node ∈ t.buckets pos, node.sKey = pageKey r then
          t.setBucket pos (addAccesses (pageKey r) r.nrAccesses (t.buckets pos))
        else if t.size < hashTableMaxSize then
          { t.setBucket pos (⟨pageKey r, r.nrAccesses.toInt32⟩ :: t.buckets pos) with size := t.size + 1 }
        else t) := by
  have lookup : hashTableLookup t (pageKey r) =
      some ((t.buckets pos).find? (·.sKey == pageKey r)) := by
    rw [hashTableLookup, bucket]
    rfl
  unfold aggregateRegion
  dsimp only
  rw [lookup]
  cases found : (t.buckets pos).find? (·.sKey == pageKey r) with
  | some node =>
    have present : ∃ node ∈ t.buckets pos, node.sKey = pageKey r :=
      ⟨node, List.mem_of_find?_eq_some found, by simpa using List.find?_some found⟩
    simp only [bucket, Option.map_some, if_pos present]
  | none =>
    have absent : ¬ ∃ node ∈ t.buckets pos, node.sKey = pageKey r := fun ⟨node, mem, key⟩ =>
      List.find?_eq_none.1 found node mem (by simpa using key)
    have noKey : (t.buckets pos).any (·.sKey == pageKey r) = false := by
      simpa using absent
    rw [if_neg absent]
    unfold hashTableInsert
    by_cases full : t.size ≥ hashTableMaxSize
    · rw [if_pos full, if_neg (Nat.not_lt.2 full)]
      rfl
    · rw [if_neg full, if_pos (Nat.lt_of_not_le full), bucket]
      simp only [Option.map_some, noKey, Bool.false_eq_true, if_false]

/-! ## What the table counts -/

/-- The accesses counted under page `k` in the regions. -/
def pageTotal (regions : List MapiaRegion) (k : UInt64) : Nat :=
  ((regions.filter fun r => pageKey r = k).map (·.nrAccesses.toNat)).sum

/-- The `int` that a sum of `unsigned int` counts leaves. -/
def wrapCount (total : Nat) : Int32 :=
  (UInt32.ofNat total).toInt32

theorem pageTotal_append_singleton (done : List MapiaRegion) (r : MapiaRegion) (k : UInt64) :
    pageTotal (done ++ [r]) k = pageTotal done k + if pageKey r = k then r.nrAccesses.toNat else 0 := by
  unfold pageTotal
  by_cases same : pageKey r = k <;> simp [List.filter_append, same]

theorem pageTotal_of_not_mem {done : List MapiaRegion} {k : UInt64} (unseen : k ∉ done.map pageKey) :
    pageTotal done k = 0 := by
  have none : done.filter (fun r => pageKey r = k) = [] :=
    List.filter_eq_nil_iff.2 fun r mem same => unseen (List.mem_map.2 ⟨r, mem, by simpa using same⟩)
  rw [pageTotal, none]
  rfl

theorem wrapCount_add (total : Nat) (nr : UInt32) :
    ((wrapCount total).toUInt32 + nr).toInt32 = wrapCount (total + nr.toNat) := by
  have sum : UInt32.ofNat total + nr = UInt32.ofNat (total + nr.toNat) :=
    UInt32.toNat_inj.1 (by simp [UInt32.toNat_add])
  rw [wrapCount, UInt32.toUInt32_toInt32, sum, wrapCount]

theorem toInt32_eq_wrapCount (nr : UInt32) : nr.toInt32 = wrapCount nr.toNat := by
  rw [wrapCount, UInt32.ofNat_toNat]

theorem toInt_wrapCount {total : Nat} (small : total < 2 ^ 31) : (wrapCount total).toInt = total := by
  have fits : (UInt32.ofNat total).toNat = total := by
    rw [UInt32.toNat_ofNat']
    omega
  rw [wrapCount, Int32.toInt, UInt32.toBitVec_toInt32, BitVec.toInt_eq_toNat_cond, if_pos]
  · exact congrArg Nat.cast fits
  · rw [UInt32.toNat_toBitVec, fits]
    omega

theorem dedup_length_le_append {α : Type} [DecidableEq α] (l₁ l₂ : List α) :
    l₁.dedup.length ≤ (l₁ ++ l₂).dedup.length :=
  (List.Nodup.subperm (List.nodup_dedup l₁) fun x mem => by
    rw [List.mem_dedup] at mem ⊢
    exact List.mem_append_left l₂ mem).length_le

theorem dedup_length_append_of_mem {α : Type} [DecidableEq α] {l : List α} {a : α} (seen : a ∈ l) :
    (l ++ [a]).dedup.length = l.dedup.length := by
  rw [((List.perm_append_singleton a l).dedup).length_eq, List.dedup_cons_of_mem seen]

theorem dedup_length_append_of_not_mem {α : Type} [DecidableEq α] {l : List α} {a : α} (fresh : a ∉ l) :
    (l ++ [a]).dedup.length = l.dedup.length + 1 := by
  rw [((List.perm_append_singleton a l).dedup).length_eq, List.dedup_cons_of_notMem fresh,
    List.length_cons]

/-- A node holds a page seen in `done`, with the page's total. -/
def Stored (done : List MapiaRegion) (node : HashNode) : Prop :=
  node.sKey ∈ done.map pageKey ∧ node.nValue = wrapCount (pageTotal done node.sKey)

theorem Stored.append_other {done : List MapiaRegion} {node : HashNode} (stored : Stored done node)
    {r : MapiaRegion} (other : node.sKey ≠ pageKey r) : Stored (done ++ [r]) node := by
  refine ⟨by rw [List.map_append]; exact List.mem_append_left _ stored.1, ?_⟩
  rw [stored.2, pageTotal_append_singleton, if_neg (Ne.symm other), Nat.add_zero]

/-- What the table holds after `aggregate` has seen the regions `done`: every
node sits in its key's bucket, no chain holds a key twice, the size counts
the distinct pages, and the stored keys are exactly the pages seen, each with
its total. -/
structure Tallies (t : HashTable) (done : List MapiaRegion) : Prop where
  placed : ∀ i, ∀ node ∈ t.buckets i, bucketOf node.sKey = some i
  distinct : ∀ i, ((t.buckets i).map (·.sKey)).Nodup
  size : t.size = (done.map pageKey).dedup.length
  stored : ∀ i, ∀ node ∈ t.buckets i, Stored done node
  complete : ∀ k ∈ done.map pageKey, ∃ i, k ∈ (t.buckets i).map (·.sKey)

theorem tallies_empty : Tallies HashTable.empty [] where
  placed _ _ mem := absurd mem List.not_mem_nil
  distinct _ := List.nodup_nil
  size := rfl
  stored _ _ mem := absurd mem List.not_mem_nil
  complete _ mem := absurd mem List.not_mem_nil

theorem Tallies.mem_bucket {t : HashTable} {done : List MapiaRegion} (tallies : Tallies t done)
    {k : UInt64} {pos : Nat} (bucket : bucketOf k = some pos) :
    k ∈ done.map pageKey ↔ k ∈ (t.buckets pos).map (·.sKey) := by
  constructor
  · intro seen
    obtain ⟨i, mem⟩ := tallies.complete k seen
    obtain ⟨node, inBucket, rfl⟩ := List.mem_map.1 mem
    have same : i = pos := Option.some.inj ((tallies.placed i node inBucket).symm.trans bucket)
    exact same ▸ mem
  · intro mem
    obtain ⟨node, inBucket, rfl⟩ := List.mem_map.1 mem
    exact (tallies.stored pos node inBucket).1

theorem Tallies.addAccesses {t : HashTable} {done : List MapiaRegion} (tallies : Tallies t done)
    {r : MapiaRegion} {pos : Nat} (bucket : bucketOf (pageKey r) = some pos)
    (found : ∃ node ∈ t.buckets pos, node.sKey = pageKey r) :
    Tallies (t.setBucket pos (Cijitter.Monitor.addAccesses (pageKey r) r.nrAccesses (t.buckets pos)))
      (done ++ [r]) := by
  have seen : pageKey r ∈ done.map pageKey := by
    obtain ⟨node, mem, key⟩ := found
    exact key ▸ (tallies.stored pos node mem).1
  -- a node of another bucket holds another page
  have elsewhere : ∀ i ≠ pos, ∀ node ∈ t.buckets i, node.sKey ≠ pageKey r := fun i other node mem key =>
    other (Option.some.inj ((tallies.placed i node mem).symm.trans (key ▸ bucket)))
  refine ⟨fun i node mem => ?_, fun i => ?_, ?_, fun i node mem => ?_, fun k mem => ?_⟩
  · rw [buckets_setBucket] at mem
    split_ifs at mem with here
    · rcases (mem_addAccesses (tallies.distinct pos)).1 mem with ⟨old, -⟩ | ⟨old, oldMem, -, rfl⟩
      · exact here ▸ tallies.placed pos node old
      · exact here ▸ tallies.placed pos old oldMem
    · exact tallies.placed i node mem
  · rw [buckets_setBucket]
    split_ifs with here
    · rw [map_sKey_addAccesses]
      exact tallies.distinct pos
    · exact tallies.distinct i
  · rw [size_setBucket, tallies.size, List.map_append, List.map_singleton,
      dedup_length_append_of_mem seen]
  · rw [buckets_setBucket] at mem
    split_ifs at mem with here
    · rcases (mem_addAccesses (tallies.distinct pos)).1 mem with ⟨old, other⟩ | ⟨old, oldMem, key, rfl⟩
      · exact (tallies.stored pos node old).append_other other
      · -- the node of the page: its count grows by the region's
        have before := (tallies.stored pos old oldMem).2
        refine ⟨by simp [key], ?_⟩
        show (old.nValue.toUInt32 + r.nrAccesses).toInt32 = wrapCount (pageTotal (done ++ [r]) old.sKey)
        rw [before, key, wrapCount_add, pageTotal_append_singleton, if_pos rfl]
    · exact (tallies.stored i node mem).append_other (elsewhere i here node mem)
  · rw [List.map_append, List.map_singleton, List.mem_append, List.mem_singleton] at mem
    have inPos : k ∈ (t.buckets pos).map (·.sKey) → ∃ i,
        k ∈ ((t.setBucket pos (Cijitter.Monitor.addAccesses (pageKey r) r.nrAccesses
          (t.buckets pos))).buckets i).map (·.sKey) := fun inChain =>
      ⟨pos, by rw [buckets_setBucket, if_pos rfl, map_sKey_addAccesses]; exact inChain⟩
    rcases mem with old | rfl
    · obtain ⟨i, inChain⟩ := tallies.complete k old
      by_cases here : i = pos
      · exact inPos (here ▸ inChain)
      · exact ⟨i, by rwa [buckets_setBucket, if_neg here]⟩
    · exact inPos ((tallies.mem_bucket bucket).1 seen)

theorem Tallies.insert {t : HashTable} {done : List MapiaRegion} (tallies : Tallies t done)
    {r : MapiaRegion} {pos : Nat} (bucket : bucketOf (pageKey r) = some pos)
    (absent : ¬ ∃ node ∈ t.buckets pos, node.sKey = pageKey r) :
    Tallies { t.setBucket pos (⟨pageKey r, r.nrAccesses.toInt32⟩ :: t.buckets pos) with size := t.size + 1 }
      (done ++ [r]) := by
  have notInChain : pageKey r ∉ (t.buckets pos).map (·.sKey) := fun mem => by
    obtain ⟨node, inChain, key⟩ := List.mem_map.1 mem
    exact absent ⟨node, inChain, key⟩
  have unseen : pageKey r ∉ done.map pageKey := fun seen =>
    notInChain ((tallies.mem_bucket bucket).1 seen)
  have others : ∀ i, ∀ node ∈ t.buckets i, node.sKey ≠ pageKey r := fun i node mem key =>
    unseen (key ▸ (tallies.stored i node mem).1)
  refine ⟨fun i node mem => ?_, fun i => ?_, ?_, fun i node mem => ?_, fun k mem => ?_⟩
  · simp only [buckets_setBucket] at mem
    split_ifs at mem with here
    · rcases List.mem_cons.1 mem with rfl | old
      · exact here ▸ bucket
      · exact here ▸ tallies.placed pos node old
    · exact tallies.placed i node mem
  · simp only [buckets_setBucket]
    split_ifs with here
    · exact List.nodup_cons.2 ⟨notInChain, tallies.distinct pos⟩
    · exact tallies.distinct i
  · rw [tallies.size, List.map_append, List.map_singleton, dedup_length_append_of_not_mem unseen]
  · simp only [buckets_setBucket] at mem
    split_ifs at mem with here
    · rcases List.mem_cons.1 mem with rfl | old
      · -- the new node holds the region's count, the first of its page
        refine ⟨by simp, ?_⟩
        rw [pageTotal_append_singleton, pageTotal_of_not_mem unseen, if_pos rfl, Nat.zero_add,
          toInt32_eq_wrapCount]
      · exact (tallies.stored pos node old).append_other (others pos node old)
    · exact (tallies.stored i node mem).append_other (others i node mem)
  · rw [List.map_append, List.map_singleton, List.mem_append, List.mem_singleton] at mem
    rcases mem with old | rfl
    · obtain ⟨i, inChain⟩ := tallies.complete k old
      refine ⟨i, ?_⟩
      simp only [buckets_setBucket]
      split_ifs with here
      · exact List.mem_cons_of_mem _ (here ▸ inChain)
      · exact inChain
    · exact ⟨pos, by simp⟩

section Runs

variable {t : HashTable} {done : List MapiaRegion}

theorem Tallies.aggregateRegion (tallies : Tallies t done) {r : MapiaRegion}
    (room : ((done ++ [r]).map pageKey).dedup.length ≤ hashTableMaxSize) :
    ∃ t', Cijitter.Monitor.aggregateRegion t r = some t' ∧ Tallies t' (done ++ [r]) := by
  obtain ⟨pos, bucket⟩ : ∃ pos, bucketOf (pageKey r) = some pos := ⟨0, bucketOf_pageKey r⟩
  rw [aggregateRegion_eq t r bucket]
  by_cases found : ∃ node ∈ t.buckets pos, node.sKey = pageKey r
  · exact ⟨_, by rw [if_pos found], tallies.addAccesses bucket found⟩
  · -- a new page: the table has room for it
    have unseen : pageKey r ∉ done.map pageKey := fun seen => by
      obtain ⟨node, inChain, key⟩ := List.mem_map.1 ((tallies.mem_bucket bucket).1 seen)
      exact found ⟨node, inChain, key⟩
    have notFull : t.size < hashTableMaxSize := by
      rw [List.map_append, List.map_singleton, dedup_length_append_of_not_mem unseen] at room
      rw [tallies.size]
      exact room
    exact ⟨_, by rw [if_neg found, if_pos notFull], tallies.insert bucket found⟩

theorem Tallies.foldlM (tallies : Tallies t done) {regions : List MapiaRegion}
    (room : ((done ++ regions).map pageKey).dedup.length ≤ hashTableMaxSize) :
    ∃ t', regions.foldlM Cijitter.Monitor.aggregateRegion t = some t' ∧ Tallies t' (done ++ regions) := by
  induction regions generalizing t done with
  | nil => exact ⟨t, rfl, by simpa using tallies⟩
  | cons r rest ih =>
    have split : done ++ r :: rest = (done ++ [r]) ++ rest := by simp
    rw [split] at room ⊢
    have firstRoom : ((done ++ [r]).map pageKey).dedup.length ≤ hashTableMaxSize := by
      have prefixLe := dedup_length_le_append ((done ++ [r]).map pageKey) (rest.map pageKey)
      rw [← List.map_append] at prefixLe
      exact Nat.le_trans prefixLe room
    obtain ⟨t', stepped, next⟩ := tallies.aggregateRegion firstRoom
    obtain ⟨t'', ran, last⟩ := ih next room
    exact ⟨t'', by rw [List.foldlM_cons, stepped]; exact ran, last⟩

/-- The regions of all the rounds, in the order they are aggregated. -/
def aggregatedRegions (rounds : List (List MapiaTask)) : List MapiaRegion :=
  rounds.flatMap taskRegions

theorem Tallies.run (tallies : Tallies t done) {rounds : List (List MapiaTask)}
    (room : ((done ++ aggregatedRegions rounds).map pageKey).dedup.length ≤ hashTableMaxSize) :
    ∃ t', StepRun.run aggregateStep (some t) rounds = some t' ∧
      Tallies t' (done ++ aggregatedRegions rounds) := by
  induction rounds generalizing t done with
  | nil => exact ⟨t, rfl, by simpa [aggregatedRegions] using tallies⟩
  | cons tasks rounds ih =>
    have split : done ++ aggregatedRegions (tasks :: rounds) =
        (done ++ taskRegions tasks) ++ aggregatedRegions rounds := by
      simp [aggregatedRegions]
    rw [split] at room ⊢
    have firstRoom : ((done ++ taskRegions tasks).map pageKey).dedup.length ≤ hashTableMaxSize := by
      have prefixLe := dedup_length_le_append ((done ++ taskRegions tasks).map pageKey)
        ((aggregatedRegions rounds).map pageKey)
      rw [← List.map_append] at prefixLe
      exact Nat.le_trans prefixLe room
    obtain ⟨t', aggregated, next⟩ := tallies.foldlM firstRoom
    obtain ⟨t'', ran, last⟩ := ih next room
    refine ⟨t'', ?_, last⟩
    rw [StepRun.run_cons]
    simpa [aggregateStep, aggregate, aggregated] using ran

end Runs

/-! ## Reading the table -/

/-- The nodes in the order `hash_table_release` visits them: bucket by
bucket, each chain from its head. -/
def HashTable.entries (t : HashTable) : List HashNode :=
  (List.range hashTableMaxSize).flatMap t.buckets

section Reading

variable {t : HashTable} {done : List MapiaRegion}

theorem Tallies.lookup (tallies : Tallies t done) {k : UInt64} (seen : k ∈ done.map pageKey) :
    ∃ node, hashTableLookup t k = some (some node) ∧ node.sKey = k ∧ Stored done node := by
  obtain ⟨r, -, rfl⟩ := List.mem_map.1 seen
  have bucket := bucketOf_pageKey r
  have inChain : ∃ node ∈ t.buckets 0, (node.sKey == pageKey r) = true := by
    obtain ⟨node, inChain, key⟩ := List.mem_map.1 ((tallies.mem_bucket bucket).1 seen)
    exact ⟨node, inChain, by simpa using key⟩
  obtain ⟨node, found⟩ := Option.isSome_iff_exists.1 (List.find?_isSome.2 inChain)
  have key : node.sKey = pageKey r := by simpa using List.find?_some found
  refine ⟨node, by rw [hashTableLookup, bucket, Option.map_some, found], key, ?_⟩
  exact tallies.stored 0 node (List.mem_of_find?_eq_some found)

theorem Tallies.mem_entries (tallies : Tallies t done) {node : HashNode} :
    node ∈ t.entries ↔ ∃ i, node ∈ t.buckets i := by
  rw [HashTable.entries, List.mem_flatMap]
  constructor
  · rintro ⟨i, -, mem⟩
    exact ⟨i, mem⟩
  · rintro ⟨i, mem⟩
    exact ⟨i, List.mem_range.2 (bucketOf_lt (tallies.placed i node mem)), mem⟩

theorem Tallies.entries_nodup (tallies : Tallies t done) : (t.entries.map (·.sKey)).Nodup := by
  rw [HashTable.entries, List.map_flatMap, List.nodup_flatMap]
  refine ⟨fun i _ => tallies.distinct i, ?_⟩
  -- the keys of two buckets differ, since each key has one bucket
  refine List.Pairwise.imp_of_mem (fun {i j} _ _ differ => ?_) (List.nodup_range)
  intro k inI inJ
  obtain ⟨node, memI, rfl⟩ := List.mem_map.1 inI
  obtain ⟨other, memJ, key⟩ := List.mem_map.1 inJ
  have atI := tallies.placed i node memI
  have atJ := tallies.placed j other memJ
  rw [key] at atJ
  exact differ (Option.some.inj (atI.symm.trans atJ))

end Reading

end Cijitter.Monitor
