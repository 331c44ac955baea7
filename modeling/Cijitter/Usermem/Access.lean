import Mathlib

/-! Access types and application addresses (`pkg/usermem`). A `usermem.Addr`
is a natural number below `2 ^ 64`; the helpers that wrap around in the
source report the wrap as a failed `Option`, as the source reports it
through `ok`. -/

set_option autoImplicit false

namespace Cijitter.Usermem

/-- `usermem.AccessType`: the permissions of a mapping, or the kind of a
faulting access. -/
structure AccessType where
  read : Bool
  write : Bool
  execute : Bool
  deriving DecidableEq, Repr

namespace AccessType

/-- `AccessType.Any`. -/
def any (a : AccessType) : Bool :=
  a.read || a.write || a.execute

/-- `AccessType.SupersetOf`, with its three early returns. -/
def supersetOf (a other : AccessType) : Bool :=
  if !a.read && other.read then false
  else if !a.write && other.write then false
  else if !a.execute && other.execute then false
  else true

/-- `AccessType.Intersect`. -/
def intersect (a other : AccessType) : AccessType :=
  ⟨a.read && other.read, a.write && other.write, a.execute && other.execute⟩

/-- `AccessType.Union`. -/
def union (a other : AccessType) : AccessType :=
  ⟨a.read || other.read, a.write || other.write, a.execute || other.execute⟩

/-- `AccessType.Effective`: write and execute access imply read access. -/
def effective (a : AccessType) : AccessType :=
  if a.write || a.execute then { a with read := true } else a

/-- Inclusion of permission sets, the order `supersetOf` decides. -/
def Subset (a b : AccessType) : Prop :=
  (a.read → b.read) ∧ (a.write → b.write) ∧ (a.execute → b.execute)

instance (a b : AccessType) : Decidable (Subset a b) :=
  inferInstanceAs (Decidable ((_ → _) ∧ (_ → _) ∧ (_ → _)))

theorem Subset.refl (a : AccessType) : Subset a a :=
  ⟨id, id, id⟩

theorem Subset.trans {a b c : AccessType} (first : Subset a b) (second : Subset b c) :
    Subset a c :=
  ⟨second.1 ∘ first.1, second.2.1 ∘ first.2.1, second.2.2 ∘ first.2.2⟩

theorem subset_union_left (a b : AccessType) : Subset a (a.union b) := by
  refine ⟨?_, ?_, ?_⟩ <;> intro held <;> simp [union, held]

theorem subset_union_right (a b : AccessType) : Subset b (a.union b) := by
  refine ⟨?_, ?_, ?_⟩ <;> intro held <;> simp [union, held]

theorem union_subset {a b c : AccessType} (left : Subset a c) (right : Subset b c) :
    Subset (a.union b) c := by
  refine ⟨?_, ?_, ?_⟩ <;> intro held <;> simp only [union, Bool.or_eq_true] at held
  · exact held.elim left.1 right.1
  · exact held.elim left.2.1 right.2.1
  · exact held.elim left.2.2 right.2.2

end AccessType

/-- `usermem.NoAccess`. -/
def noAccess : AccessType := ⟨false, false, false⟩

theorem noAccess_supersetOf (access : AccessType) : noAccess.supersetOf access = !access.any := by
  obtain ⟨read, write, execute⟩ := access
  cases read <;> cases write <;> cases execute <;> rfl

/-- `usermem.ReadWrite`. -/
def readWrite : AccessType := ⟨true, true, false⟩

/-- `usermem.PageSize` on amd64. -/
def pageSize : Nat := 4096

/-- One past the largest value of a 64-bit address. -/
def addrLimit : Nat := 2 ^ 64

/-- `Addr.RoundDown`. -/
def roundDown (v : Nat) : Nat := v - v % pageSize

/-- `Addr.RoundUp`: `none` when rounding up wraps around. -/
def roundUp (v : Nat) : Option Nat :=
  if v + pageSize - 1 < addrLimit then some (roundDown (v + pageSize - 1)) else none

/-- `usermem.AddrRange`: the half-open range `[start, stop)`. -/
structure AddrRange where
  start : Nat
  stop : Nat
  deriving DecidableEq, Repr

/-- `AddrRange.Length`. -/
def AddrRange.length (ar : AddrRange) : Nat := ar.stop - ar.start

/-- `a + b` on `Addr`, a `uintptr`. -/
def addrAdd (a b : Nat) : Nat := (a + b) % addrLimit

/-- `a - b` on `Addr`. -/
def addrSub (a b : Nat) : Nat := (a + (addrLimit - b % addrLimit)) % addrLimit

/-- `AddrRange.Length` as the `Addr` difference `End - Start`, which wraps
when `End` is below `Start`; on a well-formed range it is `length`. -/
def addrLength (ar : AddrRange) : Nat := addrSub ar.stop ar.start

@[simp] theorem addrSub_self (a : Nat) : addrSub a a = 0 := by
  have whole : a + (addrLimit - a % addrLimit) = addrLimit * (a / addrLimit + 1) := by
    have split := Nat.mod_add_div a addrLimit
    have below := Nat.mod_lt a (show 0 < addrLimit by decide)
    rw [Nat.mul_add, Nat.mul_one]
    omega
  rw [addrSub, whole, Nat.mul_mod_right]

theorem addrAdd_zero {a : Nat} (bound : a < addrLimit) : addrAdd a 0 = a := by
  rw [addrAdd, Nat.add_zero, Nat.mod_eq_of_lt bound]

/-- `Addr.ToRange`: `none` when `v + length` wraps around. -/
def toRange (v : Nat) (length : Nat) : Option AddrRange :=
  if v + length < addrLimit then some ⟨v, v + length⟩ else none

/-- `Addr.AddLength`: `none` when `v + length` wraps around. -/
def addLength (v : Nat) (length : Nat) : Option Nat :=
  if v + length < addrLimit then some (v + length) else none

end Cijitter.Usermem
