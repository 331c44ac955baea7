import Cijitter.Usermem.Access
import Cijitter.Lib.SegmentList

/-! Virtual memory areas of a `MemoryManager` (`pkg/sentry/mm/vma.go`). The
vma set is modelled by the sorted list of its segments; a vma keeps the
fields that the modelled operations read or that `vmaSetFunctions.Merge`
compares for anonymous mappings. -/

set_option autoImplicit false

namespace Cijitter.Syserror

inductive Errno where
  | EINVAL
  | ENOMEM
  | EACCES
  | EFAULT
  | EPERM
  | EMFILE
  | EBADF
  deriving DecidableEq, Repr

end Cijitter.Syserror

namespace Cijitter.Mm

open Usermem SegmentList Syserror

/-- `mm.vma`, restricted to its permission and layout fields. -/
structure Vma where
  realPerms : AccessType
  effectivePerms : AccessType
  maxPerms : AccessType
  isPrivate : Bool
  growsDown : Bool
  deriving DecidableEq, Repr

/-- `vma.isPrivateDataLocked`: the vma counts towards `dataAS`. -/
def Vma.isPrivateDataLocked (vma : Vma) : Bool :=
  vma.realPerms.write && vma.isPrivate && !vma.growsDown

abbrev VmaSeg := Seg Vma

/-- `vmaSetFunctions.Split`: an anonymous vma keeps its fields on both sides. -/
def vmaSplit (seg : VmaSeg) (_ : Nat) : Vma × Vma := (seg.value, seg.value)

/-- `vmaSetFunctions.Merge` for anonymous vmas: the compared fields agree. -/
def vmaMerge (first second : VmaSeg) : Option Vma :=
  if first.value.realPerms = second.value.realPerms ∧ first.value.maxPerms = second.value.maxPerms ∧
      first.value.isPrivate = second.value.isPrivate ∧
      first.value.growsDown = second.value.growsDown then some first.value
  else none

/-- The state of a `MemoryManager` that the modelled operations use: its vma
set, the `dataAS` counter (a `uint64`), and `layout.MaxAddr`. -/
structure MemoryManager where
  vmas : List VmaSeg
  dataAS : UInt64
  maxAddr : Nat

/-- The result of `getVMAsLocked`: the vma segment at or after `ar.Start`
(`vbegin`), the start of the returned gap (`vend.Start()`), and the error. -/
structure VmaLookup where
  vbegin : Option VmaSeg
  vendStart : Nat
  err : Option Errno
  deriving DecidableEq, Repr

/-- The permissions `getVMAsLocked` checks against. -/
def checkedPerms (vma : Vma) (ignorePermissions : Bool) : AccessType :=
  if ignorePermissions then vma.maxPerms else vma.effectivePerms

/-- The loop of `getVMAsLocked`: `gapStart` is `vgap.Start()` and `addr`
the first address of `ar` not yet known to be mapped. -/
def getVMAsLoop (ar : AddrRange) (access : AccessType) (ignorePermissions : Bool) :
    Nat → Nat → List VmaSeg → Nat × Option Errno
  | gapStart, _, [] => (gapStart, some .EFAULT)
  | gapStart, addr, vseg :: rest =>
    if addr < vseg.start then (gapStart, some .EFAULT)
    else if !(checkedPerms vseg.value ignorePermissions).supersetOf access then
      (gapStart, some .EPERM)
    else if ar.stop ≤ vseg.stop then (vseg.stop, none)
    else getVMAsLoop ar access ignorePermissions vseg.stop vseg.stop rest

/-- The segments ending at or before `key`, and the rest: `rest.head?` is
`LowerBoundSegment(key)`. -/
def lowerBound (key : Nat) (vmas : List VmaSeg) : List VmaSeg × List VmaSeg :=
  vmas.span fun vseg => decide (vseg.stop ≤ key)

/-- `MemoryManager.getVMAsLocked`: checks that vmas map all of `ar` and allow
`access`, stopping at the first hole or refused vma. -/
def MemoryManager.getVMAsLocked (mm : MemoryManager) (ar : AddrRange) (access : AccessType)
    (ignorePermissions : Bool) : VmaLookup :=
  let (before, after) := lowerBound ar.start mm.vmas
  let (vendStart, err) := getVMAsLoop ar access ignorePermissions
    ((before.getLast?.map Seg.stop).getD 0) ar.start after
  ⟨after.head?, vendStart, err⟩

end Cijitter.Mm
