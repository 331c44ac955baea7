import Cijitter.Lib.BinaryHeap

/-! The order a `container/heap` keeps. When `less` is a strict weak order,
"not less" is a total preorder, and a heap is `Ordered` when no element is
less than its parent. `push` and `pop` keep a heap ordered and hold the same
elements, and `pop` returns an element no other is less than. The sifts are
proved with invariants that except the position being moved, `UpOrder` and
`DownOrder`, each with a lemma for one swap and one for the stop. -/

set_option autoImplicit false

namespace BinaryHeap

variable {α : Type} {less : α → α → Bool}

/-- `less` is irreflexive and transitive, and so is not being less. -/
structure StrictWeakOrder (less : α → α → Bool) : Prop where
  irrefl : ∀ a, less a a = false
  trans : ∀ a b c, less a b = true → less b c = true → less a c = true
  negTrans : ∀ a b c, less a b = false → less b c = false → less a c = false

theorem StrictWeakOrder.asymm (order : StrictWeakOrder less) {a b : α} (ab : less a b = true) :
    less b a = false := by
  cases ba : less b a
  · rfl
  · have aa := order.trans a b a ab ba
    rw [order.irrefl] at aa
    cases aa

/-- No element among the first `n` is less than its parent. -/
def OrderedBelow (less : α → α → Bool) (h : List α) (n : Nat) : Prop :=
  ∀ k a b, 0 < k → k < n → h[k]? = some a → h[(k - 1) / 2]? = some b → less a b = false

/-- No element is less than its parent. -/
def Ordered (less : α → α → Bool) (h : List α) : Prop :=
  OrderedBelow less h h.length

theorem ordered_nil : Ordered less ([] : List α) :=
  fun _ _ _ _ below => absurd below (Nat.not_lt_zero _)

/-! ### `Swap` -/

theorem swap_of_lt {h : List α} {i j : Nat} (hi : i < h.length) (hj : j < h.length) :
    swap h i j = (h.set i h[j]).set j h[i] := by
  unfold swap
  rw [List.getElem?_eq_getElem hi, List.getElem?_eq_getElem hj]

theorem getElem?_swap {h : List α} {i j : Nat} (hi : i < h.length) (hj : j < h.length) (k : Nat) :
    (swap h i j)[k]? = if k = j then h[i]? else if k = i then h[j]? else h[k]? := by
  rw [swap_of_lt hi hj, List.getElem?_set, List.getElem?_set]
  by_cases kj : k = j
  · subst kj
    simp [hj, List.getElem?_eq_getElem hi]
  · by_cases ki : k = i
    · subst ki
      simp [Ne.symm kj, hi, List.getElem?_eq_getElem hj, kj]
    · simp [Ne.symm kj, Ne.symm ki, kj, ki]

theorem getElem?_swap_of_ne (h : List α) {i j k : Nat} (ki : k ≠ i) (kj : k ≠ j) :
    (swap h i j)[k]? = h[k]? := by
  unfold swap
  split
  · rw [List.getElem?_set_ne (Ne.symm kj), List.getElem?_set_ne (Ne.symm ki)]
  · rfl

theorem swap_perm (h : List α) (i j : Nat) : (swap h i j).Perm h := by
  by_cases inside : i < h.length ∧ j < h.length
  · rw [swap_of_lt inside.1 inside.2]
    exact List.set_set_perm inside.1 inside.2
  · unfold swap
    split
    · rename_i a b found found'
      exact absurd ⟨(List.getElem?_eq_some_iff.mp found).1, (List.getElem?_eq_some_iff.mp found').1⟩ inside
    · exact List.Perm.refl h

theorem lessAt_of_getElem? {h : List α} {i j : Nat} {a b : α} (ha : h[i]? = some a) (hb : h[j]? = some b) :
    lessAt less h i j = less a b := by
  rw [lessAt, ha, hb]

/-! ### The root -/

section Order

variable (order : StrictWeakOrder less)
include order

theorem Ordered.root_least {h : List α} (ordered : Ordered less h) {r : α} (root : h[0]? = some r) :
    ∀ (k : Nat) (y : α), h[k]? = some y → less y r = false := by
  intro k
  induction k using Nat.strongRecOn with
  | ind k ih =>
      intro y found
      rcases Nat.eq_zero_or_pos k with rfl | positive
      · rw [root] at found
        cases found
        exact order.irrefl _
      · have below := (List.getElem?_eq_some_iff.mp found).1
        have parentInside : (k - 1) / 2 < h.length := by omega
        obtain ⟨z, parent⟩ : ∃ z, h[(k - 1) / 2]? = some z := ⟨h[(k - 1) / 2], List.getElem?_eq_getElem parentInside⟩
        exact order.negTrans y z r (ordered k y z positive below found parent)
          (ih _ (by omega) z parent)

theorem Ordered.least {h : List α} (ordered : Ordered less h) {r : α} (root : h[0]? = some r) :
    ∀ y ∈ h, less y r = false := by
  intro y member
  obtain ⟨k, found⟩ := List.mem_iff_getElem?.mp member
  exact Ordered.root_least order ordered root k y found

end Order

/-! ### Sifting up -/

/-- Ordered but for the edge from `j` to its parent, and `j`'s children are
not less than that parent. -/
structure UpOrder (less : α → α → Bool) (h : List α) (j : Nat) : Prop where
  except : ∀ k a b, 0 < k → k ≠ j → h[k]? = some a → h[(k - 1) / 2]? = some b → less a b = false
  grand : ∀ c a b, 0 < j → 0 < c → (c - 1) / 2 = j → h[c]? = some a → h[(j - 1) / 2]? = some b →
    less a b = false

theorem UpOrder.finish {h : List α} {j : Nat} (up : UpOrder less h j)
    (stop : ∀ a b, 0 < j → h[j]? = some a → h[(j - 1) / 2]? = some b → less a b = false) :
    Ordered less h := by
  intro k a b positive _ found parent
  by_cases at_j : k = j
  · subst at_j
    exact stop a b positive found parent
  · exact up.except k a b positive at_j found parent

section Order

variable (order : StrictWeakOrder less)
include order

theorem UpOrder.move {h : List α} {j : Nat} (up : UpOrder less h j) (positive : 0 < j) (inside : j < h.length)
    {a b : α} (ha : h[j]? = some a) (hb : h[(j - 1) / 2]? = some b) (moved : less a b = true) :
    UpOrder less (swap h ((j - 1) / 2) j) ((j - 1) / 2) := by
  have parentInside : (j - 1) / 2 < h.length := by omega
  have swapped := getElem?_swap parentInside inside
  constructor
  · intro k x y kPositive notParent hx hy
    rw [swapped] at hx hy
    by_cases at_j : k = j
    · -- the edge that was swapped
      subst at_j
      rw [if_pos rfl] at hx
      rw [if_neg (by omega), if_pos rfl] at hy
      rw [hb] at hx
      rw [ha] at hy
      cases hx
      cases hy
      exact order.asymm moved
    rw [if_neg at_j, if_neg notParent] at hx
    by_cases child : (k - 1) / 2 = j
    · -- a child of `j`, now below the old parent
      rw [child, if_pos rfl, hb] at hy
      cases hy
      exact up.grand k x b positive kPositive child hx hb
    by_cases sibling : (k - 1) / 2 = (j - 1) / 2
    · -- a sibling of `j`, now below `j`'s element
      rw [sibling, if_neg (by omega), if_pos rfl, ha] at hy
      cases hy
      have belowParent := up.except k x b kPositive at_j hx (sibling ▸ hb)
      cases xa : less x a
      · rfl
      · rw [order.trans x a b xa moved] at belowParent
        cases belowParent
    · rw [if_neg child, if_neg sibling] at hy
      exact up.except k x y kPositive at_j hx hy
  · intro c x y parentPositive cPositive child hx hy
    rw [swapped] at hx hy
    rw [if_neg (by omega), if_neg (by omega)] at hy
    by_cases at_j : c = j
    · subst at_j
      rw [if_pos rfl, hb] at hx
      cases hx
      exact up.except _ b y parentPositive (by omega) hb hy
    · rw [if_neg at_j, if_neg (by omega)] at hx
      have xb := up.except c x b cPositive at_j hx (child ▸ hb)
      have by' := up.except _ b y parentPositive (by omega) hb hy
      exact order.negTrans x b y xb by'

theorem up_ordered : ∀ (fuel : Nat) (h : List α) (j : Nat), j < h.length → UpOrder less h j →
    (j < fuel ∨ j = 0) → Ordered less (up less fuel h j)
  | 0, h, j, _, upOrder, fuel => by
      have root : j = 0 := by omega
      exact upOrder.finish fun _ _ positive => absurd positive (by omega)
  | fuel + 1, h, j, inside, upOrder, enough => by
      rw [up]
      have parentInside : (j - 1) / 2 < h.length := by omega
      obtain ⟨a, ha⟩ : ∃ a, h[j]? = some a := ⟨h[j], List.getElem?_eq_getElem inside⟩
      obtain ⟨b, hb⟩ : ∃ b, h[(j - 1) / 2]? = some b := ⟨h[(j - 1) / 2], List.getElem?_eq_getElem parentInside⟩
      rw [lessAt_of_getElem? ha hb]
      split
      · rename_i stop
        refine upOrder.finish fun x y positive hx hy => ?_
        rw [ha] at hx
        rw [hb] at hy
        cases hx
        cases hy
        rcases stop with same | notLess
        · omega
        · simpa using notLess
      · rename_i moving
        obtain ⟨notRoot, notStop⟩ := not_or.mp moving
        have ab : less a b = true := by simpa using notStop
        have positive : 0 < j := by omega
        exact up_ordered fuel _ _ (by rw [length_swap]; omega) (upOrder.move order positive inside ha hb ab)
          (by omega)

end Order

theorem up_perm : ∀ (fuel : Nat) (h : List α) (j : Nat), (up less fuel h j).Perm h
  | 0, _, _ => List.Perm.refl _
  | fuel + 1, h, j => by
      rw [up]
      split
      · exact List.Perm.refl h
      · exact (up_perm fuel _ _).trans (swap_perm h _ _)

/-! ### Sifting down -/

/-- Among the first `n`, ordered but for the edges from `i` to its children,
which are not less than `i`'s parent. -/
structure DownOrder (less : α → α → Bool) (h : List α) (n i : Nat) : Prop where
  except : ∀ k a b, 0 < k → k < n → (k - 1) / 2 ≠ i → h[k]? = some a → h[(k - 1) / 2]? = some b →
    less a b = false
  grand : ∀ c a b, 0 < i → 0 < c → c < n → (c - 1) / 2 = i → h[c]? = some a → h[(i - 1) / 2]? = some b →
    less a b = false

/-- The child `down` picks is not above any child of `i`. -/
def LeastChild (less : α → α → Bool) (h : List α) (n i j : Nat) : Prop :=
  ∀ c x y, 0 < c → c < n → (c - 1) / 2 = i → h[c]? = some x → h[j]? = some y → less x y = false

section Order

variable (order : StrictWeakOrder less)
include order

omit order in
theorem DownOrder.finish {h : List α} {n i : Nat} (down : DownOrder less h n i)
    (stop : ∀ c x y, 0 < c → c < n → (c - 1) / 2 = i → h[c]? = some x → h[i]? = some y → less x y = false) :
    OrderedBelow less h n := by
  intro k a b positive below found parent
  by_cases child : (k - 1) / 2 = i
  · rw [child] at parent
    exact stop k a b positive below child found parent
  · exact down.except k a b positive below child found parent

theorem DownOrder.move {h : List α} {n i j : Nat} (down : DownOrder less h n i) (childOf : (j - 1) / 2 = i)
    (jPositive : 0 < j) (jBelow : j < n) (least : LeastChild less h n i j) {a b : α} (ha : h[j]? = some a)
    (hb : h[i]? = some b) (moved : less a b = true) : DownOrder less (swap h i j) n j := by
  have jInside := (List.getElem?_eq_some_iff.mp ha).1
  have iInside := (List.getElem?_eq_some_iff.mp hb).1
  have swapped := getElem?_swap iInside jInside
  constructor
  · intro k x y kPositive kBelow notChild hx hy
    rw [swapped] at hx hy
    by_cases at_j : k = j
    · -- the edge that was swapped
      subst at_j
      rw [if_pos rfl, hb] at hx
      rw [childOf, if_neg (by omega), if_pos rfl, ha] at hy
      cases hx
      cases hy
      exact order.asymm moved
    rw [if_neg at_j] at hx
    by_cases sibling : (k - 1) / 2 = i
    · -- a sibling of `j`, now below `j`'s element
      rw [if_neg (by omega)] at hx
      rw [sibling, if_neg (by omega), if_pos rfl, ha] at hy
      cases hy
      exact least k x a kPositive kBelow sibling hx ha
    by_cases at_i : k = i
    · -- `i` itself, holding `j`'s element below `i`'s parent
      subst at_i
      rw [if_pos rfl, ha] at hx
      cases hx
      rw [if_neg (by omega), if_neg (by omega)] at hy
      exact down.grand j a y kPositive jPositive jBelow childOf ha hy
    · rw [if_neg at_i] at hx
      rw [if_neg notChild, if_neg sibling] at hy
      exact down.except k x y kPositive kBelow sibling hx hy
  · intro c x y _ cPositive cBelow child hx hy
    rw [swapped] at hx hy
    rw [if_neg (by omega), if_neg (by omega)] at hx
    rw [childOf, if_neg (by omega), if_pos rfl, ha] at hy
    cases hy
    exact down.except c x a cPositive cBelow (by omega) hx (child ▸ ha)

end Order

theorem leastChild_pick (order : StrictWeakOrder less) {h : List α} {n i : Nat} (inside : n ≤ h.length)
    (below : 2 * i + 1 < n) :
    LeastChild less h n i
      (if 2 * i + 1 + 1 < n ∧ lessAt less h (2 * i + 1 + 1) (2 * i + 1) = true then 2 * i + 1 + 1 else 2 * i + 1) := by
  have leftInside : 2 * i + 1 < h.length := by omega
  obtain ⟨left, hl⟩ : ∃ x, h[2 * i + 1]? = some x := ⟨h[2 * i + 1], List.getElem?_eq_getElem leftInside⟩
  intro c x y cPositive cBelow child hx hy
  have twoChildren : c = 2 * i + 1 ∨ c = 2 * i + 1 + 1 := by omega
  split at hy
  · rename_i right
    obtain ⟨rightBelow, rightLess⟩ := right
    have rightInside : 2 * i + 1 + 1 < h.length := by omega
    obtain ⟨r, hr⟩ : ∃ x, h[2 * i + 1 + 1]? = some x := ⟨h[2 * i + 1 + 1], List.getElem?_eq_getElem rightInside⟩
    rw [hr] at hy
    cases hy
    rw [lessAt_of_getElem? hr hl] at rightLess
    rcases twoChildren with rfl | rfl
    · rw [hl] at hx
      cases hx
      exact order.asymm rightLess
    · rw [hr] at hx
      cases hx
      exact order.irrefl _
  · rename_i notRight
    rw [hl] at hy
    cases hy
    rcases twoChildren with rfl | rfl
    · rw [hl] at hx
      cases hx
      exact order.irrefl _
    · rw [lessAt_of_getElem? hx hl] at notRight
      simpa [cBelow] using notRight

theorem down_ordered (order : StrictWeakOrder less) {n : Nat} :
    ∀ (fuel : Nat) (h : List α) (i : Nat), n ≤ h.length → DownOrder less h n i → n ≤ fuel + i →
      OrderedBelow less (down less n fuel h i) n
  | 0, h, i, _, downOrder, enough => by
      refine downOrder.finish fun c _ _ _ cBelow child => absurd cBelow (by omega)
  | fuel + 1, h, i, inside, downOrder, enough => by
      rw [down]
      dsimp only
      split
      · rename_i bottom
        exact downOrder.finish fun c _ _ _ cBelow child => absurd cBelow (by omega)
      · rename_i notBottom
        have least := leastChild_pick order (i := i) inside (by omega)
        have picked : let j := if 2 * i + 1 + 1 < n ∧ lessAt less h (2 * i + 1 + 1) (2 * i + 1) = true then
            2 * i + 1 + 1 else 2 * i + 1
          (j - 1) / 2 = i ∧ 0 < j ∧ j < n ∧ 2 * i + 1 ≤ j := by
          dsimp only
          split <;> omega
        generalize (if 2 * i + 1 + 1 < n ∧ lessAt less h (2 * i + 1 + 1) (2 * i + 1) = true then 2 * i + 1 + 1
          else 2 * i + 1) = j at least picked ⊢
        obtain ⟨childOf, jPositive, jBelow, jAfter⟩ := picked
        have jInside : j < h.length := by omega
        have iInside : i < h.length := by omega
        obtain ⟨a, ha⟩ : ∃ a, h[j]? = some a := ⟨h[j], List.getElem?_eq_getElem jInside⟩
        obtain ⟨b, hb⟩ : ∃ b, h[i]? = some b := ⟨h[i], List.getElem?_eq_getElem iInside⟩
        rw [lessAt_of_getElem? ha hb]
        split
        · rename_i stop
          refine downOrder.finish fun c x y cPositive cBelow child hx hy => ?_
          rw [hb] at hy
          cases hy
          exact order.negTrans x a b (least c x a cPositive cBelow child hx ha) (by simpa using stop)
        · rename_i moving
          exact down_ordered order fuel _ _ (by rw [length_swap]; exact inside)
            (downOrder.move order childOf jPositive jBelow least ha hb (by simpa using moving)) (by omega)

theorem down_perm (n : Nat) : ∀ (fuel : Nat) (h : List α) (i : Nat), (down less n fuel h i).Perm h
  | 0, _, _ => List.Perm.refl _
  | fuel + 1, h, i => by
      rw [down]
      dsimp only
      split_ifs <;> first | exact List.Perm.refl h | exact (down_perm n fuel _ _).trans (swap_perm h _ _)

theorem getElem?_down {n : Nat} : ∀ (fuel : Nat) (h : List α) (i k : Nat), n ≤ k →
    (down less n fuel h i)[k]? = h[k]?
  | 0, _, _, _, _ => rfl
  | fuel + 1, h, i, k, after => by
      rw [down]
      dsimp only
      split_ifs <;> first
        | rfl
        | rw [getElem?_down fuel _ _ k after]
          exact getElem?_swap_of_ne h (by omega) (by omega)

/-! ### `Push` and `Pop` -/

theorem push_perm (h : List α) (x : α) : (push less h x).Perm (h ++ [x]) :=
  up_perm _ _ _

theorem Ordered.upOrder_append {h : List α} (ordered : Ordered less h) (x : α) :
    UpOrder less (h ++ [x]) h.length := by
  constructor
  · intro k a b positive notLast ha hb
    have kInside := (List.getElem?_eq_some_iff.mp ha).1
    rw [List.length_append, List.length_singleton] at kInside
    have kBelow : k < h.length := by omega
    rw [List.getElem?_append_left kBelow] at ha
    rw [List.getElem?_append_left (by omega)] at hb
    exact ordered k a b positive kBelow ha hb
  · intro c a b _ _ child ha _
    have cInside := (List.getElem?_eq_some_iff.mp ha).1
    rw [List.length_append, List.length_singleton] at cInside
    omega

theorem Ordered.push (order : StrictWeakOrder less) {h : List α} (ordered : Ordered less h) (x : α) :
    Ordered less (push less h x) :=
  up_ordered order _ _ _ (by simp) (ordered.upOrder_append x) (Or.inl (by omega))

theorem Ordered.downOrder_swap {h : List α} (ordered : Ordered less h) (last : h.length - 1 < h.length) :
    DownOrder less (swap h 0 (h.length - 1)) (h.length - 1) 0 := by
  have swapped := getElem?_swap (Nat.zero_lt_of_lt last) last
  constructor
  · intro k a b positive below notRoot ha hb
    rw [swapped, if_neg (by omega), if_neg (by omega)] at ha
    rw [swapped, if_neg (by omega), if_neg notRoot] at hb
    exact ordered k a b positive (by omega) ha hb
  · intro _ _ _ rootPositive
    exact absurd rootPositive (Nat.lt_irrefl 0)

theorem pop_spec (order : StrictWeakOrder less) {h : List α} (ordered : Ordered less h) {x : α}
    {rest : List α} (popped : pop less h = some (x, rest)) :
    (x :: rest).Perm h ∧ (∀ y ∈ h, less y x = false) ∧ Ordered less rest := by
  have sizes := length_pop less popped
  have last : h.length - 1 < h.length := by omega
  unfold pop at popped
  dsimp only at popped
  have sifted := down_ordered order (h.length - 1 + 1) (swap h 0 (h.length - 1)) 0 (by rw [length_swap]; omega)
    (ordered.downOrder_swap last) (by omega)
  have rootKept : (down less (h.length - 1) (h.length - 1 + 1) (swap h 0 (h.length - 1)) 0)[h.length - 1]? = h[0]? := by
    rw [getElem?_down _ _ _ _ (Nat.le_refl _), getElem?_swap (Nat.zero_lt_of_lt last) last, if_pos rfl]
  have sorted := (@down_perm _ less (h.length - 1) (h.length - 1 + 1) (swap h 0 (h.length - 1)) 0).trans
    (swap_perm h 0 (h.length - 1))
  have siftedLength := length_down less (h.length - 1) (h.length - 1 + 1) (swap h 0 (h.length - 1)) 0
  generalize down less (h.length - 1) (h.length - 1 + 1) (swap h 0 (h.length - 1)) 0 = s
    at popped sifted rootKept sorted siftedLength
  rw [length_swap] at siftedLength
  split at popped
  · rename_i top found
    obtain ⟨topEq, restEq⟩ := Prod.mk.inj (Option.some.inj popped)
    subst topEq restEq
    obtain ⟨front, split⟩ := List.getLast?_eq_some_iff.mp found
    have root : h[0]? = some top := by
      rw [← rootKept, List.getLast?_eq_getElem?, siftedLength] at *
      exact found
    refine ⟨?_, ordered.least order root, ?_⟩
    · have glued : s.dropLast ++ [top] = s := by rw [split, List.dropLast_concat]
      exact (List.perm_append_singleton top s.dropLast).symm.trans (by rw [glued]; exact sorted)
    · intro k a b positive below ha hb
      rw [List.length_dropLast] at below
      rw [List.getElem?_dropLast, if_pos below] at ha
      rw [List.getElem?_dropLast, if_pos (by omega)] at hb
      exact sifted k a b positive (by omega) ha hb
  · cases popped

end BinaryHeap
