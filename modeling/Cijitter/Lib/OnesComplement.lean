import Mathlib

/-! One's complement arithmetic on 16-bit words (RFC 1071): words are added
with the carry out of the top bit added back in. A sum of words that did not
overflow its register is folded to 16 bits the same way; the folded value
is 0 only for 0, and otherwise the value in `1 … 0xFFFF` congruent to the
sum modulo `0xFFFF`, so it does not matter in which order, or after how many
partial folds, the words are added. -/

set_option autoImplicit false

namespace OnesComplement

/-- One's complement addition: the carry out of the top bit is added back
in. -/
def add (a b : Nat) : Nat := if a + b < 65536 then a + b else a + b - 65535

/-- A sum folded to 16 bits by adding its carries back in. -/
def fold (x : Nat) : Nat := if x = 0 then 0 else (x - 1) % 65535 + 1

/-- The one's complement sum of words, from an initial value. -/
def sum (initial : Nat) (words : List Nat) : Nat := words.foldl add initial

theorem fold_lt (x : Nat) : fold x < 65536 := by
  unfold fold
  split <;> omega

theorem fold_of_lt {x : Nat} (small : x < 65536) : fold x = x := by
  unfold fold
  split <;> omega

theorem add_eq_fold {a b : Nat} (ha : a < 65536) (hb : b < 65536) : add a b = fold (a + b) := by
  unfold add fold
  split <;> split <;> omega

theorem fold_fold_add (x y : Nat) : fold (fold x + y) = fold (x + y) := by
  unfold fold
  by_cases zero : x = 0
  · simp [zero]
  · rw [if_neg zero, if_neg (by omega), if_neg (by omega)]
    omega

theorem fold_low_add_high (x : Nat) : fold (x % 65536 + x / 65536) = fold x := by
  unfold fold
  by_cases zero : x = 0
  · simp [zero]
  · rw [if_neg zero, if_neg (by omega)]
    omega

theorem sum_eq_fold {initial : Nat} (small : initial < 65536) :
    ∀ {words : List Nat}, (∀ w ∈ words, w < 65536) → sum initial words = fold (initial + words.sum)
  | [], _ => by simp [sum, fold_of_lt small]
  | w :: words, sixteenBit => by
    have head := sixteenBit w (List.mem_cons_self ..)
    have later := @sum_eq_fold (add initial w) (by rw [add_eq_fold small head]; exact fold_lt _) words
      fun w' member => sixteenBit w' (List.mem_cons_of_mem _ member)
    rw [sum, List.foldl_cons, ← sum, later, add_eq_fold small head, fold_fold_add, List.sum_cons,
      Nat.add_assoc]

theorem fold_add_complement (x : Nat) : fold (x + (65535 - fold x)) = 65535 := by
  unfold fold
  by_cases zero : x = 0
  · simp [zero]
  · rw [if_neg zero, if_neg (by omega)]
    omega

end OnesComplement
