import Mathlib

/-! Files as byte lists: little-endian encoding of numbers, positional writes
that leave zero-filled holes, and reads of a fixed size that cut a file into
pieces with a shorter last one. -/

set_option autoImplicit false

namespace Bytes

/-- The `width` low bytes of `value`, least significant first. -/
def leBytes : Nat → Nat → List UInt8
  | 0, _ => []
  | width + 1, value => UInt8.ofNat (value % 256) :: leBytes width (value / 256)

def leValue : List UInt8 → Nat
  | [] => 0
  | byte :: rest => byte.toNat + 256 * leValue rest

theorem leBytes_zero (value : Nat) : leBytes 0 value = [] := rfl

theorem leBytes_succ (width value : Nat) :
    leBytes (width + 1) value = UInt8.ofNat (value % 256) :: leBytes width (value / 256) := rfl

theorem leValue_nil : leValue [] = 0 := rfl

theorem leValue_cons (byte : UInt8) (rest : List UInt8) :
    leValue (byte :: rest) = byte.toNat + 256 * leValue rest := rfl

/-- A two's complement reading of a `bits`-wide unsigned value. -/
def signedValue (bits value : Nat) : Int :=
  if value < 2 ^ (bits - 1) then value else (value : Int) - 2 ^ bits

@[simp] theorem length_leBytes (width value : Nat) : (leBytes width value).length = width := by
  induction width generalizing value with
  | zero => rfl
  | succ width ih => rw [leBytes_succ, List.length_cons, ih]

theorem leValue_leBytes (width value : Nat) : leValue (leBytes width value) = value % 256 ^ width := by
  induction width generalizing value with
  | zero => rw [leBytes_zero, leValue_nil, Nat.pow_zero, Nat.mod_one]
  | succ width ih =>
      have low : (UInt8.ofNat (value % 256)).toNat = value % 256 := by
        rw [UInt8.toNat_ofNat']
        omega
      rw [leBytes_succ, leValue_cons, ih, low, Nat.pow_succ', Nat.mod_mul]

theorem leValue_append (first second : List UInt8) :
    leValue (first ++ second) = leValue first + 256 ^ first.length * leValue second := by
  induction first with
  | nil => rw [List.nil_append, leValue_nil, List.length_nil, Nat.pow_zero, Nat.one_mul, Nat.zero_add]
  | cons byte rest ih =>
      rw [List.cons_append, leValue_cons, leValue_cons, ih, List.length_cons, Nat.pow_succ', Nat.mul_add,
        Nat.mul_assoc, Nat.add_assoc]

theorem leValue_zeros (count : Nat) : leValue (List.replicate count 0) = 0 := by
  induction count with
  | zero => rfl
  | succ count ih => rw [List.replicate_succ, leValue_cons, ih]; rfl

theorem signedValue_of_lt {bits value : Nat} (small : value < 2 ^ (bits - 1)) :
    signedValue bits value = value := by
  simp [signedValue, small]

/-- Writing `bytes` at offset `pos`: a file shorter than `pos` is first
extended with zero bytes, which later reads return for the hole. -/
def writeAt (file : List UInt8) (pos : Nat) (bytes : List UInt8) : List UInt8 :=
  let padded := file ++ List.replicate (pos - file.length) 0
  padded.take pos ++ bytes ++ padded.drop (pos + bytes.length)

theorem writeAt_of_le {file : List UInt8} {pos : Nat} (bytes : List UInt8) (past : file.length ≤ pos) :
    writeAt file pos bytes = file ++ List.replicate (pos - file.length) 0 ++ bytes := by
  have padded_length : (file ++ List.replicate (pos - file.length) 0).length = pos := by
    simp only [List.length_append, List.length_replicate]
    omega
  unfold writeAt
  dsimp only
  rw [List.take_of_length_le (Nat.le_of_eq padded_length),
    List.drop_of_length_le (by omega), List.append_nil]

section Pieces

variable {α : Type}

/-- What successive reads of `size` elements return, `current` holding what
the read in progress has collected: full pieces, then a shorter last piece. -/
def readPieces (size : Nat) (current : List α) : List α → List (List α)
  | [] => if current = [] then [] else [current]
  | item :: rest =>
      if current.length + 1 = size then (current ++ [item]) :: readPieces size [] rest
      else readPieces size (current ++ [item]) rest

theorem readPieces_nil (size : Nat) (current : List α) :
    readPieces size current [] = if current = [] then [] else [current] := rfl

theorem readPieces_cons (size : Nat) (current : List α) (item : α) (rest : List α) :
    readPieces size current (item :: rest) =
      if current.length + 1 = size then (current ++ [item]) :: readPieces size [] rest
      else readPieces size (current ++ [item]) rest := rfl

theorem readPieces_append (size : Nat) (current piece rest : List α)
    (full : current.length + piece.length = size) (nonempty : piece ≠ []) :
    readPieces size current (piece ++ rest) = (current ++ piece) :: readPieces size [] rest := by
  induction piece generalizing current with
  | nil => exact absurd rfl nonempty
  | cons item more ih =>
      cases more with
      | nil =>
          simp only [List.length_cons, List.length_nil] at full
          rw [List.singleton_append, readPieces_cons, if_pos full]
      | cons next others =>
          simp only [List.length_cons] at full
          have not_full : current.length + 1 ≠ size := by omega
          rw [List.cons_append, readPieces_cons, if_neg not_full,
            ih (current ++ [item]) (by simp only [List.length_append, List.length_cons,
              List.length_nil, List.length_cons] at full ⊢; omega) (List.cons_ne_nil _ _)]
          simp

theorem readPieces_short (size : Nat) (current piece : List α)
    (short : current.length + piece.length < size) (nonempty : current ++ piece ≠ []) :
    readPieces size current piece = [current ++ piece] := by
  induction piece generalizing current with
  | nil =>
      rw [List.append_nil] at nonempty ⊢
      rw [readPieces_nil, if_neg nonempty]
  | cons item more ih =>
      simp only [List.length_cons] at short
      have not_full : current.length + 1 ≠ size := by omega
      rw [readPieces_cons, if_neg not_full, ih (current ++ [item]) (by simp; omega) (by simp)]
      simp

theorem readPieces_of_le {size : Nat} {items : List α} (fits : items.length ≤ size) :
    readPieces size [] items = if items = [] then [] else [items] := by
  by_cases empty : items = []
  · subst empty
    rfl
  · rw [if_neg empty]
    rcases Nat.lt_or_ge items.length size with short | full
    · exact readPieces_short size [] items (by simpa using short) (by simpa using empty)
    · have whole := readPieces_append size [] items [] (by simp only [List.length_nil]; omega) empty
      rw [List.append_nil, readPieces_nil, if_pos rfl] at whole
      simpa using whole

theorem flatten_readPieces (size : Nat) (current items : List α) :
    (readPieces size current items).flatten = current ++ items := by
  induction items generalizing current with
  | nil =>
      rw [readPieces_nil]
      split
      · simp [*]
      · simp
  | cons item rest ih =>
      rw [readPieces_cons]
      split
      · rw [List.flatten_cons, ih]
        simp
      · rw [ih]
        simp

end Pieces

end Bytes
