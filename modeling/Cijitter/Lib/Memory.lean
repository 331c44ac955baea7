import Cijitter.Lib.Bytes
import Mathlib

/-! Byte-addressed memory as a function from addresses to bytes: writes of a
byte string at an address, reads of a range, and little-endian 64-bit words
over them. A read of a range that a write does not touch returns what it
returned before the write; that frame rule and the read-back rule are all the
proofs over such a memory use. -/

set_option autoImplicit false

namespace Memory

def write (mem : Nat → UInt8) (addr : Nat) (bytes : List UInt8) : Nat → UInt8 :=
  fun i => if addr ≤ i ∧ i < addr + bytes.length then bytes.getD (i - addr) 0 else mem i

def read (mem : Nat → UInt8) (addr len : Nat) : List UInt8 :=
  (List.range len).map fun i => mem (addr + i)

@[simp] theorem length_read (mem : Nat → UInt8) (addr len : Nat) : (read mem addr len).length = len := by
  simp [read]

theorem write_of_not_mem {mem : Nat → UInt8} {addr : Nat} {bytes : List UInt8} {i : Nat}
    (outside : i < addr ∨ addr + bytes.length ≤ i) : write mem addr bytes i = mem i := by
  unfold write
  rw [if_neg (by omega)]

/-- `mem'` holds at the addresses `dsts` the bytes `mem` holds at `srcs`, one
for one, and at every other address what `mem` holds: a copy from `srcs` to
`dsts`. -/
structure Copied (mem mem' : Nat → UInt8) (dsts srcs : List Nat) : Prop where
  copied : dsts.map mem' = srcs.map mem
  frame : ∀ a, a ∉ dsts → mem' a = mem a

theorem Copied.nil (mem : Nat → UInt8) : Copied mem mem [] [] :=
  ⟨rfl, fun _ _ => rfl⟩

theorem Copied.append {mem mid mem' : Nat → UInt8} {dsts srcs dsts' srcs' : List Nat}
    (first : Copied mem mid dsts srcs) (second : Copied mid mem' dsts' srcs')
    (apart : ∀ a ∈ dsts, a ∉ dsts') (unread : ∀ a ∈ srcs', a ∉ dsts) :
    Copied mem mem' (dsts ++ dsts') (srcs ++ srcs') := by
  constructor
  · -- the first copy's bytes stay, and the second one read what the first left alone
    have kept : dsts.map mem' = dsts.map mid := List.map_congr_left fun a member => second.frame a (apart a member)
    have read : srcs'.map mid = srcs'.map mem := List.map_congr_left fun a member => first.frame a (unread a member)
    rw [List.map_append, List.map_append, kept, first.copied, second.copied, read]
  · intro a outside
    rw [List.mem_append, not_or] at outside
    rw [second.frame a outside.2, first.frame a outside.1]

theorem copied_write_read (mem : Nat → UInt8) (dst src n : Nat) :
    Copied mem (write mem dst (read mem src n)) (List.range' dst n) (List.range' src n) := by
  constructor
  · apply List.ext_getElem (by simp)
    intro i inside _
    simp only [List.getElem_map, List.getElem_range', Nat.one_mul, List.length_map, List.length_range'] at inside ⊢
    rw [write, if_pos (by simp; omega), Nat.add_sub_cancel_left, List.getD_eq_getElem _ _ (by simpa using inside)]
    simp [read]
  · intro a outside
    rw [List.mem_range'_1] at outside
    exact write_of_not_mem (by simp; omega)

/-- The little-endian 64-bit word at `addr`. -/
def readWord (mem : Nat → UInt8) (addr : Nat) : Nat :=
  Bytes.leValue (read mem addr 8)

def writeWord (mem : Nat → UInt8) (addr value : Nat) : Nat → UInt8 :=
  write mem addr (Bytes.leBytes 8 value)

end Memory
