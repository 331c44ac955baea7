import Mathlib

/-! An ordered set of items in the manner of `github.com/google/btree`, given
by its contract rather than by its nodes. The tree's `Less` must be a strict
weak order; two items of which neither is less than the other are the same
item, and the tree holds one of them. `items t` lists the items in the
ascending order `Ascend` visits them. On the items an operation concerns,
the order is that of a `key` into the natural numbers (any strict weak order
on finitely many items is one), and then the documentation pins each
operation down by the items: `AscendGreaterOrEqual` visits those not less
than the pivot, in order; `DescendLessOrEqual` those the pivot is not less
than, in reverse order; `Delete` removes the item the same as its argument
and returns it; `ReplaceOrInsert` puts its argument in the place of that
item and returns the item replaced. A visitor that returns false ends a
visit. A sorted list with these operations is a tree that keeps the
contract. -/

set_option autoImplicit false

namespace OrderedTree

variable {α : Type}

/-- A visit of items that stops when the visitor returns false. -/
def iterate {σ : Type} (visit : σ → α → Bool × σ) : List α → σ → σ
  | [], st => st
  | i :: rest, st =>
      let visited := visit st i
      if visited.1 then iterate visit rest visited.2 else visited.2

theorem iterate_nil {σ : Type} (visit : σ → α → Bool × σ) (st : σ) : iterate visit [] st = st := rfl

theorem iterate_cons {σ : Type} (visit : σ → α → Bool × σ) (i : α) (rest : List α) (st : σ) :
    iterate visit (i :: rest) st = if (visit st i).1 then iterate visit rest (visit st i).2 else (visit st i).2 :=
  rfl

/-- The operations of a tree `T` of items `α`: `New`, `Len`, the two visits
as the items they visit, `Delete` and `ReplaceOrInsert`. -/
structure Ops (α T : Type) where
  items : T → List α
  new : T
  len : T → Nat
  ascendGreaterOrEqual : T → α → List α
  descendLessOrEqual : T → α → List α
  delete : T → α → T × Option α
  replaceOrInsert : T → α → T × Option α

/-- `less` is the order of `key` on the items of `xs`. -/
def OrderedBy (less : α → α → Bool) (key : α → Nat) (xs : List α) : Prop :=
  ∀ a ∈ xs, ∀ b ∈ xs, less a b = decide (key a < key b)

theorem OrderedBy.subset {less : α → α → Bool} {key : α → Nat} {xs ys : List α} (ordered : OrderedBy less key xs)
    (sub : ys ⊆ xs) : OrderedBy less key ys :=
  fun a ha b hb => ordered a (sub ha) b (sub hb)

variable {T : Type}

/-- The contract of the tree for `less`: for any key that orders the items
and the argument of an operation, with the items ascending by that key. -/
structure Lawful (less : α → α → Bool) (tree : Ops α T) : Prop where
  items_new : tree.items tree.new = []
  len_items : ∀ t, tree.len t = (tree.items t).length
  ascend : ∀ (key : α → Nat) t x, OrderedBy less key (x :: tree.items t) →
    (tree.items t).Pairwise (key · < key ·) →
    tree.ascendGreaterOrEqual t x = (tree.items t).filter fun i => decide (key x ≤ key i)
  descend : ∀ (key : α → Nat) t x, OrderedBy less key (x :: tree.items t) →
    (tree.items t).Pairwise (key · < key ·) →
    tree.descendLessOrEqual t x = ((tree.items t).filter fun i => decide (key i ≤ key x)).reverse
  delete : ∀ (key : α → Nat) t x, OrderedBy less key (x :: tree.items t) →
    (tree.items t).Pairwise (key · < key ·) →
    tree.items (tree.delete t x).1 = (tree.items t).filter (fun i => decide (key i ≠ key x)) ∧
      (tree.delete t x).2 = (tree.items t).find? fun i => decide (key i = key x)
  replaceOrInsert : ∀ (key : α → Nat) t x, OrderedBy less key (x :: tree.items t) →
    (tree.items t).Pairwise (key · < key ·) →
    (tree.items (tree.replaceOrInsert t x).1).Pairwise (key · < key ·) ∧
      (∀ z, z ∈ tree.items (tree.replaceOrInsert t x).1 ↔ z = x ∨ z ∈ tree.items t ∧ key z ≠ key x) ∧
      (tree.replaceOrInsert t x).2 = (tree.items t).find? fun i => decide (key i = key x)

/-! ### A sorted list as a tree -/

namespace SortedList

variable (less : α → α → Bool)

/-- Neither item is less than the other. -/
def same (a b : α) : Bool :=
  !less a b && !less b a

/-- `Delete`: the list without the item the same as `item`, and that item. -/
def delete : List α → α → List α × Option α
  | [], _ => ([], none)
  | x :: rest, item =>
      if same less x item then (rest, some x)
      else
        let deleted := delete rest item
        (x :: deleted.1, deleted.2)

/-- `ReplaceOrInsert`: the item in place of the one the same as it, which is
returned, or in order among the others. -/
def replaceOrInsert : List α → α → List α × Option α
  | [], item => ([item], none)
  | x :: rest, item =>
      if same less x item then (item :: rest, some x)
      else if less item x then (item :: x :: rest, none)
      else
        let inserted := replaceOrInsert rest item
        (x :: inserted.1, inserted.2)

def ops : Ops α (List α) where
  items := id
  new := []
  len := List.length
  ascendGreaterOrEqual items pivot := items.filter fun i => !less i pivot
  descendLessOrEqual items pivot := (items.filter fun i => !less pivot i).reverse
  delete := delete less
  replaceOrInsert := replaceOrInsert less

variable {less} {key : α → Nat}

theorem same_eq_decide {xs : List α} (ordered : OrderedBy less key xs) {a b : α} (ha : a ∈ xs) (hb : b ∈ xs) :
    same less a b = decide (key a = key b) := by
  rw [same, ordered a ha b hb, ordered b hb a ha]
  by_cases equal : key a = key b
  · simp [equal]
  · rcases Nat.lt_or_gt_of_ne equal with below | above
    · simp [below, equal]
    · simp [above, equal]

/-- The items after the head of an ascending list are not the same as it. -/
theorem filter_ne_of_lt {x : α} {rest : List α} (above : ∀ c ∈ rest, key x < key c) :
    (rest.filter fun c => decide (key c ≠ key x)) = rest :=
  List.filter_eq_self.mpr fun c member => by simpa using Nat.ne_of_gt (above c member)

theorem delete_spec (x : α) :
    ∀ {xs : List α}, OrderedBy less key (x :: xs) → xs.Pairwise (key · < key ·) →
      delete less xs x = (xs.filter fun i => decide (key i ≠ key x), xs.find? fun i => decide (key i = key x))
  | [], _, _ => rfl
  | y :: rest, ordered, sorted => by
      obtain ⟨above, restSorted⟩ := List.pairwise_cons.mp sorted
      rw [delete, same_eq_decide ordered (List.mem_cons_of_mem x List.mem_cons_self) List.mem_cons_self]
      by_cases found : key y = key x
      · rw [if_pos (decide_eq_true found), List.filter_cons_of_neg (by simp [found]),
          filter_ne_of_lt (found ▸ above), List.find?_cons_of_pos (by simp [found])]
      · rw [if_neg (by simp [found]), delete_spec x (ordered.subset (List.cons_subset_cons x (List.subset_cons_self y rest)))
          restSorted, List.filter_cons_of_pos (by simp [found]), List.find?_cons_of_neg (by simp [found])]

theorem replaceOrInsert_spec (x : α) :
    ∀ {xs : List α}, OrderedBy less key (x :: xs) → xs.Pairwise (key · < key ·) →
      (replaceOrInsert less xs x).1.Pairwise (key · < key ·) ∧
        (∀ z, z ∈ (replaceOrInsert less xs x).1 ↔ z = x ∨ z ∈ xs ∧ key z ≠ key x) ∧
        (replaceOrInsert less xs x).2 = xs.find? fun i => decide (key i = key x)
  | [], _, _ => ⟨List.pairwise_singleton _ x, fun z => by simp [replaceOrInsert], rfl⟩
  | y :: rest, ordered, sorted => by
      obtain ⟨above, restSorted⟩ := List.pairwise_cons.mp sorted
      have yMem : y ∈ x :: y :: rest := List.mem_cons_of_mem x List.mem_cons_self
      rw [replaceOrInsert, same_eq_decide ordered yMem List.mem_cons_self, ordered x List.mem_cons_self y yMem]
      by_cases found : key y = key x
      · -- `x` takes `y`'s place
        simp only [found, decide_true, if_true]
        refine ⟨List.pairwise_cons.mpr ⟨found ▸ above, restSorted⟩, fun z => ?_, by simp [found]⟩
        constructor
        · intro member
          rcases List.mem_cons.mp member with rfl | later
          · exact Or.inl rfl
          · exact Or.inr ⟨List.mem_cons_of_mem y later, by have := above z later; omega⟩
        · rintro (rfl | ⟨member, differ⟩)
          · exact List.mem_cons_self
          · rcases List.mem_cons.mp member with rfl | later
            · exact absurd found differ
            · exact List.mem_cons_of_mem x later
      by_cases first : key x < key y
      · -- `x` goes in front
        have absent : ((y :: rest).find? fun i => decide (key i = key x)) = none := by
          refine List.find?_eq_none.mpr fun c member => ?_
          rcases List.mem_cons.mp member with rfl | later
          · simp [found]
          · have := above c later
            simp only [decide_eq_true_eq]
            omega
        simp only [found, decide_false, first, decide_true, Bool.false_eq_true, if_false, if_true]
        refine ⟨List.pairwise_cons.mpr ⟨fun c member => ?_, sorted⟩, fun z => ?_, absent.symm⟩
        · rcases List.mem_cons.mp member with rfl | later
          · exact first
          · have := above c later
            omega
        · constructor
          · intro member
            rcases List.mem_cons.mp member with rfl | later
            · exact Or.inl rfl
            · refine Or.inr ⟨later, ?_⟩
              rcases List.mem_cons.mp later with rfl | evenLater
              · exact found
              · have := above z evenLater
                omega
          · rintro (rfl | ⟨member, _⟩)
            · exact List.mem_cons_self
            · exact List.mem_cons_of_mem x member
      · -- `x` goes after `y`
        obtain ⟨insertedSorted, insertedMem, insertedFound⟩ := replaceOrInsert_spec x
          (ordered.subset (List.cons_subset_cons x (List.subset_cons_self y rest))) restSorted
        simp only [found, decide_false, first, Bool.false_eq_true, if_false]
        refine ⟨List.pairwise_cons.mpr ⟨fun c member => ?_, insertedSorted⟩, fun z => ?_, ?_⟩
        · rcases (insertedMem c).mp member with rfl | ⟨later, _⟩
          · omega
          · exact above c later
        · rw [List.mem_cons, insertedMem z, List.mem_cons]
          constructor
          · rintro (rfl | rfl | ⟨later, differ⟩)
            · exact Or.inr ⟨Or.inl rfl, found⟩
            · exact Or.inl rfl
            · exact Or.inr ⟨Or.inr later, differ⟩
          · rintro (rfl | ⟨rfl | later, differ⟩)
            · exact Or.inr (Or.inl rfl)
            · exact Or.inl rfl
            · exact Or.inr (Or.inr ⟨later, differ⟩)
        · rw [List.find?_cons_of_neg (by simp [found])]
          exact insertedFound

theorem lawful (less : α → α → Bool) : Lawful less (ops less) where
  items_new := rfl
  len_items _ := rfl
  ascend key t x ordered _ := List.filter_congr fun i member => by
    rw [ordered i (List.mem_cons_of_mem x member) x List.mem_cons_self, ← decide_not]
    exact decide_eq_decide.mpr Nat.not_lt
  descend key t x ordered _ := congrArg List.reverse <| List.filter_congr fun i member => by
    rw [ordered x List.mem_cons_self i (List.mem_cons_of_mem x member), ← decide_not]
    exact decide_eq_decide.mpr Nat.not_lt
  delete key t x ordered sorted := Prod.ext_iff.mp (delete_spec x ordered sorted)
  replaceOrInsert key t x ordered sorted := replaceOrInsert_spec x ordered sorted

end SortedList

end OrderedTree
