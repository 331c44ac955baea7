import Mathlib

/-! The binary heap of Go's `container/heap` over a list, with its `Less`
as a parameter: `push` appends and sifts up, `pop` swaps the front with the
last element, sifts it down over the others and removes the last. The loops
run on fuel that their indices bound: `up` moves towards the root, `down`
away from it. -/

set_option autoImplicit false

namespace BinaryHeap

variable {α : Type} (less : α → α → Bool)

/-- `h.Swap(i, j)`. -/
def swap (h : List α) (i j : Nat) : List α :=
  match h[i]?, h[j]? with
  | some a, some b => (h.set i b).set j a
  | _, _ => h

/-- `h.Less(i, j)`. -/
def lessAt (h : List α) (i j : Nat) : Bool :=
  match h[i]?, h[j]? with
  | some a, some b => less a b
  | _, _ => false

/-- `up(h, j)`. -/
def up : Nat → List α → Nat → List α
  | 0, h, _ => h
  | fuel + 1, h, j =>
      let i := (j - 1) / 2
      if i = j ∨ !lessAt less h j i then h
      else up fuel (swap h i j) i

/-- `down(h, i, n)`. -/
def down (n : Nat) : Nat → List α → Nat → List α
  | 0, h, _ => h
  | fuel + 1, h, i =>
      let j1 := 2 * i + 1
      if n ≤ j1 then h
      else
        let j := if j1 + 1 < n ∧ lessAt less h (j1 + 1) j1 then j1 + 1 else j1
        if !lessAt less h j i then h
        else down n fuel (swap h i j) j

/-- `heap.Push(h, x)`. -/
def push (h : List α) (x : α) : List α :=
  up less (h.length + 1) (h ++ [x]) h.length

/-- `heap.Pop(h)`: the front, and what is left. -/
def pop (h : List α) : Option (α × List α) :=
  let n := h.length - 1
  let swapped := down less n (n + 1) (swap h 0 n) 0
  match swapped.getLast? with
  | some x => some (x, swapped.dropLast)
  | none => none

@[simp] theorem length_swap (h : List α) (i j : Nat) : (swap h i j).length = h.length := by
  unfold swap
  split <;> simp

@[simp] theorem length_up : ∀ (fuel : Nat) (h : List α) (j : Nat), (up less fuel h j).length = h.length
  | 0, _, _ => rfl
  | fuel + 1, h, j => by
      rw [up]
      split
      · rfl
      · rw [length_up fuel, length_swap]

@[simp] theorem length_down (n : Nat) :
    ∀ (fuel : Nat) (h : List α) (i : Nat), (down less n fuel h i).length = h.length
  | 0, _, _ => rfl
  | fuel + 1, h, i => by
      rw [down]
      dsimp only
      split_ifs <;> simp only [length_down n fuel, length_swap]

theorem length_pop {h : List α} {x : α} {rest : List α} (popped : pop less h = some (x, rest)) :
    rest.length + 1 = h.length := by
  dsimp only [pop] at popped
  split at popped
  · rename_i last
    simp only [Option.some.injEq, Prod.mk.injEq] at popped
    rw [← popped.2, List.length_dropLast, length_down, length_swap]
    have nonempty : h.length ≠ 0 := by
      intro empty
      rw [List.getLast?_eq_some_iff] at last
      obtain ⟨ys, split⟩ := last
      have := congrArg List.length split
      simp [empty] at this
    omega
  · nomatch popped

theorem pop_of_ne_nil {h : List α} (nonempty : h ≠ []) : ∃ x rest, pop less h = some (x, rest) := by
  dsimp only [pop]
  split
  · rename_i x _
    exact ⟨x, _, rfl⟩
  · rename_i none
    rw [List.getLast?_eq_none_iff, ← List.length_eq_zero_iff, length_down, length_swap,
      List.length_eq_zero_iff] at none
    exact absurd none nonempty

end BinaryHeap
