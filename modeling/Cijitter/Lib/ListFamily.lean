import Mathlib

/-! Families of lists indexed by a type, such as the intrusive lists an object
is linked into. A family is separated when every element sits in at most one
list, at most once; removing an element and appending one that sits nowhere
keep it separated, and moving an element from its list to the back of another
is the two in turn. -/

set_option autoImplicit false

namespace ListFamily

variable {ι α : Type} [DecidableEq ι]

/-- Every element sits in at most one list of the family, at most once. -/
structure Separated (lists : ι → List α) : Prop where
  nodup : ∀ i, (lists i).Nodup
  unique : ∀ a i j, a ∈ lists i → a ∈ lists j → i = j

/-- Link `a` at the back of list `i`. -/
def pushBack (lists : ι → List α) (i : ι) (a : α) : ι → List α :=
  Function.update lists i (lists i ++ [a])

/-- Link the elements of `more` at the back of list `i`, in order. -/
def pushBackList (lists : ι → List α) (i : ι) (more : List α) : ι → List α :=
  Function.update lists i (lists i ++ more)

section

variable {lists : ι → List α}

theorem mem_pushBack {i j : ι} {a b : α} :
    b ∈ pushBack lists i a j ↔ b ∈ lists j ∨ (j = i ∧ b = a) := by
  unfold pushBack
  by_cases same : j = i
  · subst same
    simp
  · simp [same]

theorem mem_pushBack_of_ne {i j : ι} {a b : α} (ne : b ≠ a) :
    b ∈ pushBack lists i a j ↔ b ∈ lists j := by
  rw [mem_pushBack]
  exact ⟨fun mem => mem.resolve_right fun ⟨_, eq⟩ => ne eq, .inl⟩

@[simp] theorem pushBackList_nil (i : ι) : pushBackList lists i [] = lists := by
  simp [pushBackList]

theorem mem_pushBackList {i j : ι} {b : α} {more : List α} :
    b ∈ pushBackList lists i more j ↔ b ∈ lists j ∨ (j = i ∧ b ∈ more) := by
  unfold pushBackList
  by_cases same : j = i
  · subst same
    simp
  · simp [same]

theorem Separated.pushBack (separated : Separated lists) (i : ι) {a : α}
    (nowhere : ∀ j, a ∉ lists j) : Separated (pushBack lists i a) where
  nodup j := by
    unfold ListFamily.pushBack
    by_cases same : j = i
    · subst same
      rw [Function.update_self]
      exact (separated.nodup j).append (List.nodup_singleton a)
        (List.disjoint_singleton.2 (nowhere j))
    · rw [Function.update_of_ne same]
      exact separated.nodup j
  unique b j k inJ inK := by
    rcases mem_pushBack.1 inJ with oldJ | ⟨rfl, rfl⟩ <;>
      rcases mem_pushBack.1 inK with oldK | ⟨rfl, same⟩
    · exact separated.unique b j k oldJ oldK
    · exact absurd (same ▸ oldJ) (nowhere j)
    · exact absurd oldK (nowhere k)
    · rfl

end

variable [DecidableEq α]

/-- Unlink `a` from list `i`. -/
def remove (lists : ι → List α) (i : ι) (a : α) : ι → List α :=
  Function.update lists i ((lists i).erase a)

section

variable {lists : ι → List α}

theorem mem_remove (separated : Separated lists) {i j : ι} {a b : α} :
    b ∈ remove lists i a j ↔ b ∈ lists j ∧ (j = i → b ≠ a) := by
  unfold remove
  by_cases same : j = i
  · subst same
    rw [Function.update_self, (separated.nodup j).mem_erase_iff]
    constructor
    · rintro ⟨ne, mem⟩
      exact ⟨mem, fun _ => ne⟩
    · rintro ⟨mem, ne⟩
      exact ⟨ne rfl, mem⟩
  · rw [Function.update_of_ne same]
    exact ⟨fun mem => ⟨mem, fun eq => absurd eq same⟩, fun ⟨mem, _⟩ => mem⟩

theorem mem_remove_of_ne {i j : ι} {a b : α} (ne : b ≠ a) :
    b ∈ remove lists i a j ↔ b ∈ lists j := by
  unfold remove
  by_cases same : j = i
  · subst same
    rw [Function.update_self]
    exact List.mem_erase_of_ne ne
  · rw [Function.update_of_ne same]

theorem not_mem_remove (separated : Separated lists) {i : ι} {a : α} (mem : a ∈ lists i)
    (j : ι) : a ∉ remove lists i a j := by
  rw [mem_remove separated]
  rintro ⟨other, ne⟩
  exact ne (separated.unique a j i other mem) rfl

theorem Separated.remove (separated : Separated lists) (i : ι) (a : α) :
    Separated (remove lists i a) where
  nodup j := by
    unfold ListFamily.remove
    by_cases same : j = i
    · subst same
      rw [Function.update_self]
      exact (separated.nodup j).erase a
    · rw [Function.update_of_ne same]
      exact separated.nodup j
  unique b j k inJ inK :=
    separated.unique b j k ((mem_remove separated).1 inJ).1 ((mem_remove separated).1 inK).1

theorem Separated.move (separated : Separated lists) {i : ι} {a : α} (mem : a ∈ lists i)
    (j : ι) : Separated (ListFamily.pushBack (ListFamily.remove lists i a) j a) :=
  (separated.remove i a).pushBack j (not_mem_remove separated mem)

theorem mem_move (separated : Separated lists) {i : ι} {a : α} (mem : a ∈ lists i)
    {j k : ι} {b : α} :
    b ∈ pushBack (remove lists i a) j a k ↔ (b ≠ a ∧ b ∈ lists k) ∨ (b = a ∧ k = j) := by
  rw [mem_pushBack, mem_remove separated]
  by_cases same : b = a
  · subst same
    have onlyI : ∀ k, b ∈ lists k → k = i := fun k inK => separated.unique b k i inK mem
    constructor
    · rintro (⟨inK, ne⟩ | ⟨eq, -⟩)
      · exact absurd rfl (ne (onlyI k inK))
      · exact .inr ⟨rfl, eq⟩
    · rintro (⟨ne, -⟩ | ⟨-, eq⟩)
      · exact absurd rfl ne
      · exact .inr ⟨eq, rfl⟩
  · constructor
    · rintro (⟨inK, -⟩ | ⟨-, eq⟩)
      · exact .inl ⟨same, inK⟩
      · exact absurd eq same
    · rintro (⟨-, inK⟩ | ⟨eq, -⟩)
      · exact .inl ⟨inK, fun _ => same⟩
      · exact absurd eq same

theorem pushBackList_move {i j : ι} (ne : j ≠ i) {a : α} (mem : a ∈ lists i) (more : List α) :
    pushBackList (pushBack (remove lists i a) j a) i more =
      pushBack (remove (pushBackList lists i more) i a) j a := by
  funext k
  by_cases atI : k = i
  · subst atI
    simp [pushBackList, pushBack, remove, Function.update_of_ne (Ne.symm ne),
      List.erase_append_left more mem]
  · by_cases atJ : k = j
    · subst atJ
      simp [pushBackList, pushBack, remove, Function.update_of_ne atI]
    · simp [pushBackList, pushBack, remove, Function.update_of_ne atI, Function.update_of_ne atJ]

theorem pushBackList_remove_append {i : ι} {a : α} (mem : a ∈ lists i) (more : List α) :
    pushBackList (remove lists i a) i (more ++ [a]) =
      pushBack (remove (pushBackList lists i more) i a) i a := by
  funext k
  by_cases atI : k = i
  · subst atI
    simp [pushBackList, pushBack, remove, List.erase_append_left more mem]
  · simp [pushBackList, pushBack, remove, Function.update_of_ne atI]

end

end ListFamily
