import Mathlib

/-! Decoders that read a value from the front of a list and return what is
left; `none` is where the reader they model stops with an error. The rules
here compose round trips: when a decoder reads back each value from what an
encoder wrote for it, followed by anything, it reads back a sequence. -/

set_option autoImplicit false

namespace Decoder

variable {β α γ : Type}

/-- The next element. -/
def readOne : List β → Option (β × List β)
  | [] => none
  | b :: rest => some (b, rest)

/-- Exactly `n` elements. -/
def readFull (n : Nat) (input : List β) : Option (List β × List β) :=
  if n ≤ input.length then some (input.take n, input.drop n) else none

/-- `load` run `n` times, each run on what the one before left. -/
def repeatLoad (load : List β → Option (α × List β)) : Nat → List β → Option (List α × List β)
  | 0, input => some ([], input)
  | n + 1, input => do
      let (x, rest) ← load input
      let (xs, rest) ← repeatLoad load n rest
      pure (x :: xs, rest)

theorem bind_eq_some {x : Option α} {f : α → Option γ} {y : γ} :
    x >>= f = some y ↔ ∃ a, x = some a ∧ f a = some y := by
  cases x <;> simp

@[simp] theorem readOne_cons (b : β) (rest : List β) : readOne (b :: rest) = some (b, rest) := rfl

@[simp] theorem readFull_append (bytes rest : List β) :
    readFull bytes.length (bytes ++ rest) = some (bytes, rest) := by
  simp [readFull]

theorem readFull_length {n : Nat} {input read rest : List β} (h : readFull n input = some (read, rest)) :
    read.length = n := by
  simp only [readFull] at h
  split at h
  · rename_i enough
    simp only [Option.some.injEq, Prod.mk.injEq] at h
    rw [← h.1, List.length_take, Nat.min_eq_left enough]
  · nomatch h

@[simp] theorem repeatLoad_zero (load : List β → Option (α × List β)) (input : List β) :
    repeatLoad load 0 input = some ([], input) := rfl

theorem repeatLoad_succ {load : List β → Option (α × List β)} {n : Nat} {input rest : List β} {x : α}
    (first : load input = some (x, rest)) :
    repeatLoad load (n + 1) input = (repeatLoad load n rest).map fun r => (x :: r.1, r.2) := by
  simp only [repeatLoad, first, Option.bind_eq_bind, Option.bind_some]
  cases repeatLoad load n rest <;> rfl

/-- Two decoders one after the other. -/
def readPair {γ : Type} (loadFirst : List β → Option (α × List β)) (loadSecond : List β → Option (γ × List β))
    (input : List β) : Option ((α × γ) × List β) := do
  let (a, rest) ← loadFirst input
  let (c, rest) ← loadSecond rest
  pure ((a, c), rest)

theorem forall₂_zip_zip {δ : Type} {R : α → β → Prop} {S : γ → δ → Prop} {xs : List α} {bs : List β}
    {ys : List γ} {ds : List δ} (first : List.Forall₂ R xs bs) (second : List.Forall₂ S ys ds) :
    List.Forall₂ (fun p q => R p.1 q.1 ∧ S p.2 q.2) (xs.zip ys) (bs.zip ds) := by
  induction first generalizing ys ds with
  | nil => exact .nil
  | cons head _ ih =>
      cases second with
      | nil => exact .nil
      | cons head' tail' => exact .cons ⟨head, head'⟩ (ih tail')

theorem length_flatten_zip {firsts seconds : List (List β)} (same : firsts.length = seconds.length) :
    ((firsts.zip seconds).map fun pair => pair.1 ++ pair.2).flatten.length =
      firsts.flatten.length + seconds.flatten.length := by
  induction firsts generalizing seconds with
  | nil =>
      cases seconds with
      | nil => rfl
      | cons _ _ => nomatch same
  | cons first firsts ih =>
      cases seconds with
      | nil => nomatch same
      | cons second seconds =>
          simp only [List.zip_cons_cons, List.map_cons, List.flatten_cons, List.length_append,
            ih (Nat.succ.inj same)]
          omega

section Encoded

variable {load : List β → Option (α × List β)}

theorem repeatLoad_flatten {xs : List α} {encodings : List (List β)}
    (back : List.Forall₂ (fun x bytes => ∀ rest, load (bytes ++ rest) = some (x, rest)) xs encodings)
    (rest : List β) : repeatLoad load xs.length (encodings.flatten ++ rest) = some (xs, rest) := by
  induction back generalizing rest with
  | nil => rfl
  | @cons x bytes xs encodings first _ ih =>
      rw [List.flatten_cons, List.append_assoc, List.length_cons, repeatLoad_succ (first _), ih]
      rfl

theorem readPair_append {loadSecond : List β → Option (γ × List β)} {a : α} {c : γ}
    {first second : List β} (firstBack : ∀ rest, load (first ++ rest) = some (a, rest))
    (secondBack : ∀ rest, loadSecond (second ++ rest) = some (c, rest)) (rest : List β) :
    readPair load loadSecond (first ++ second ++ rest) = some ((a, c), rest) := by
  simp only [readPair, List.append_assoc, firstBack, secondBack, Option.bind_eq_bind, Option.bind_some]
  rfl

theorem repeatLoad_readPair {loadSecond : List β → Option (γ × List β)} {xs : List α} {ys : List γ}
    {firsts seconds : List (List β)}
    (firstBack : List.Forall₂ (fun x bytes => ∀ rest, load (bytes ++ rest) = some (x, rest)) xs firsts)
    (secondBack : List.Forall₂ (fun y bytes => ∀ rest, loadSecond (bytes ++ rest) = some (y, rest)) ys seconds)
    (rest : List β) :
    repeatLoad (readPair load loadSecond) (xs.zip ys).length
      (((firsts.zip seconds).map fun pair => pair.1 ++ pair.2).flatten ++ rest) = some (xs.zip ys, rest) := by
  apply repeatLoad_flatten
  rw [List.forall₂_map_right_iff]
  exact (forall₂_zip_zip firstBack secondBack).imp fun _ _ back => readPair_append back.1 back.2

end Encoded

theorem forall₂_length_le_flatten {R : α → List β → Prop} {xs : List α} {encodings : List (List β)}
    (related : List.Forall₂ R xs encodings) :
    List.Forall₂ (fun x bytes => R x bytes ∧ bytes.length ≤ encodings.flatten.length) xs encodings := by
  induction related with
  | nil => exact .nil
  | @cons x bytes xs encodings head _ ih =>
      refine .cons ⟨head, by simp⟩ (ih.imp fun _ _ tail => ⟨tail.1, ?_⟩)
      rw [List.flatten_cons, List.length_append]
      omega

end Decoder
