import Mathlib

/-! Arenas: a list of records addressed by their index, changed in place with
`List.modify` and extended at the end, as a heap of objects that outlive
their removal from the maps that index them. What holds of every record
holds after one of them changes, or one is appended, when it holds of the
new record; a sum over the records moves by the difference of the changed
one. The maps that index an arena are `Finmap`s, whose size moves by one
when a fresh key is added or a present one erased. -/

set_option autoImplicit false

namespace Arena

variable {α : Type}

theorem sum_map_modify (g : α → Nat) (f : α → α) :
    ∀ (l : List α) (p : Nat) (a : α), l[p]? = some a → ((l.modify p f).map g).sum + g a = (l.map g).sum + g (f a)
  | [], _, _, found => by cases found
  | x :: l, 0, a, found => by
    cases found
    simp only [List.modify_zero_cons, List.map_cons, List.sum_cons]
    omega
  | x :: l, p + 1, a, found => by
    have shifted := sum_map_modify g f l p a found
    simp only [List.modify_succ_cons, List.map_cons, List.sum_cons]
    omega

theorem forall_modify {P Q : Nat → α → Prop} {l : List α} {p : Nat} {a : α} {f : α → α}
    (all : ∀ q b, l[q]? = some b → P q b) (found : l[p]? = some a)
    (others : ∀ q b, q ≠ p → P q b → Q q b) (changed : Q p (f a)) :
    ∀ q b, (l.modify p f)[q]? = some b → Q q b := by
  intro q b at_q
  by_cases same : p = q
  · subst same
    rw [List.getElem?_modify_eq, found, Option.map_eq_map, Option.map_some, Option.some.injEq] at at_q
    rw [← at_q]
    exact changed
  · rw [List.getElem?_modify_ne f l same] at at_q
    exact others q b (Ne.symm same) (all q b at_q)

theorem getElem?_append_singleton (l : List α) (a : α) (q : Nat) :
    (l ++ [a])[q]? = if q < l.length then l[q]? else if q = l.length then some a else none := by
  rcases Nat.lt_or_ge q l.length with before | after
  · rw [List.getElem?_append_left before, if_pos before]
  · rw [List.getElem?_append_right after, List.getElem?_singleton, if_neg (Nat.not_lt.mpr after)]
    by_cases last : q = l.length
    · rw [if_pos (by omega), if_pos last]
    · rw [if_neg (by omega), if_neg last]

theorem forall_append {P : Nat → α → Prop} {l : List α} {a : α}
    (all : ∀ q b, l[q]? = some b → P q b) (new : P l.length a) :
    ∀ q b, (l ++ [a])[q]? = some b → P q b := by
  intro q b at_q
  rcases Nat.lt_or_ge q l.length with before | after
  · rw [List.getElem?_append_left before] at at_q
    exact all q b at_q
  · rw [List.getElem?_append_right after, List.getElem?_singleton] at at_q
    split at at_q
    · cases at_q
      have last : q = l.length := by omega
      rw [last]
      exact new
    · cases at_q

variable {κ β : Type} [DecidableEq κ]

theorem card_keys_insert {m : Finmap fun _ : κ => β} {k : κ} (fresh : m.lookup k = none) (v : β) :
    (m.insert k v).keys.card = m.keys.card + 1 := by
  have keys : (m.insert k v).keys = insert k m.keys := by
    ext x
    simp [Finmap.mem_keys]
  rw [keys, Finset.card_insert_of_notMem (by rwa [Finmap.mem_keys, ← Finmap.lookup_eq_none])]

theorem card_keys_erase {m : Finmap fun _ : κ => β} {k : κ} {v : β} (present : m.lookup k = some v) :
    (m.erase k).keys.card + 1 = m.keys.card := by
  have mem : k ∈ m.keys := Finmap.mem_keys.mpr (Finmap.lookup_isSome.mp (by rw [present]; rfl))
  rw [Finmap.keys_erase, Finset.card_erase_of_mem mem]
  have positive := Finset.card_pos.mpr ⟨k, mem⟩
  omega

end Arena
