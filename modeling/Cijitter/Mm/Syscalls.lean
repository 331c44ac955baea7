import Cijitter.Mm.Vma

/-! `MemoryManager.MProtect`, `GetAddrPerms` and `HandleUserFault`
(`pkg/sentry/mm/syscalls.go`) over the vma segment list. The pma layer below
the vmas is a parameter: `HandleUserFault` asks it for the faulting page once
the vmas allow the access. -/

set_option autoImplicit false

namespace Cijitter.Mm

open Usermem SegmentList Syserror

def withPerms (seg : VmaSeg) (realPerms : AccessType) : VmaSeg :=
  { seg with value := { seg.value with realPerms, effectivePerms := realPerms.effective } }

/-- `dataAS` after replacing the vma of `seg` by `updated`: subtract the
length if the old vma counted, add it back if the new one does. -/
def adjustDataAS (dataAS : UInt64) (seg updated : VmaSeg) : UInt64 :=
  let length := UInt64.ofNat (seg.stop - seg.start)
  let removed := if seg.value.isPrivateDataLocked then dataAS - length else dataAS
  if updated.value.isPrivateDataLocked then removed + length else removed

/-- The loop of `MProtect` from the vma segment `vseg` on: check `maxPerms`,
isolate `vseg` to `ar`, update its permissions, and continue into the next
segment while `ar` extends past it and no gap intervenes. Returns the
segments from `vseg` on, the new `dataAS` and the error. -/
def mprotectLoop (ar : AddrRange) (realPerms : AccessType) :
    UInt64 → VmaSeg → List VmaSeg → List VmaSeg × UInt64 × Option Errno
  | dataAS, vseg, rest =>
    if !vseg.value.maxPerms.supersetOf realPerms.effective then
      (vseg :: rest, dataAS, some .EACCES)
    else
      let (before, middle, after) := isolate vmaSplit vseg ar.start ar.stop
      let updated := withPerms middle realPerms
      let dataAS := adjustDataAS dataAS middle updated
      if ar.stop ≤ updated.stop then (before ++ updated :: after ++ rest, dataAS, none)
      else
        match rest with
        | next :: rest =>
          -- `NextNonEmpty`: the next segment, if no gap separates it.
          if next.start = updated.stop then
            let (segs, dataAS, err) := mprotectLoop ar realPerms dataAS next rest
            (before ++ updated :: after ++ segs, dataAS, err)
          else (before ++ updated :: after ++ next :: rest, dataAS, some .ENOMEM)
        | [] => (before ++ updated :: after, dataAS, some .ENOMEM)

/-- The deferred `vmas.MergeRange(ar)` and `vmas.MergeAdjacent(ar)`. -/
def mergeVmas (ar : AddrRange) (vmas : List VmaSeg) : List VmaSeg :=
  mergeAdjacent vmaMerge ar.start ar.stop (mergeRange vmaMerge ar.start ar.stop vmas)

/-- `MProtect` once `ar` and the first vma are known: run the loop, then
merge around the (possibly extended) range. -/
def mprotectFrom (mm : MemoryManager) (ar : AddrRange) (realPerms : AccessType)
    (before : List VmaSeg) (vseg : VmaSeg) (rest : List VmaSeg) : MemoryManager × Option Errno :=
  let (segs, dataAS, err) := mprotectLoop ar realPerms mm.dataAS vseg rest
  ({ mm with vmas := mergeVmas ar (before ++ segs), dataAS }, err)

/-- `MemoryManager.MProtect`: the semantics of Linux's `mprotect(2)`. -/
def MemoryManager.mProtect (mm : MemoryManager) (addr length : Nat) (realPerms : AccessType)
    (growsDown : Bool) : MemoryManager × Option Errno :=
  if roundDown addr ≠ addr then (mm, some .EINVAL)
  else if length = 0 then (mm, none)
  else
    match roundUp length with
    | none => (mm, some .ENOMEM)
    | some rlength =>
      match toRange addr rlength with
      | none => (mm, some .ENOMEM)
      | some ar =>
        match lowerBound ar.start mm.vmas with
        | (_, []) => (mm, some .ENOMEM)
        | (before, vseg :: rest) =>
          if growsDown then
            if !vseg.value.growsDown then (mm, some .EINVAL)
            else if ar.stop ≤ vseg.start then (mm, some .ENOMEM)
            else mprotectFrom mm ⟨vseg.start, ar.stop⟩ realPerms before vseg rest
          else if ar.start < vseg.start then (mm, some .ENOMEM)
          else mprotectFrom mm ar realPerms before vseg rest

/-- `MemoryManager.GetAddrPerms` (added by Cijitter): the `realPerms` of the
vma mapping the page of `addr`, provided the vmas allow `access` there. -/
def MemoryManager.getAddrPerms (mm : MemoryManager) (addr : Nat) (access : AccessType) :
    Except Errno AccessType :=
  match toRange (roundDown addr) pageSize with
  | none => .error .EFAULT
  | some ar =>
    let lookup := mm.getVMAsLocked ar access false
    match lookup.err, lookup.vbegin with
    | some err, _ => .error err
    | none, some vseg => .ok vseg.value.realPerms
    | none, none => .error .EFAULT

/-- The part of the pma layer that a page fault uses: `getPMAsLocked`
followed by `mapASLocked` for one page the vmas allow, reporting the error
if either fails. -/
abbrev FaultBacking := AddrRange → AccessType → Option Errno

/-- `MemoryManager.HandleUserFault`: the vmas must map the faulting page and
allow the access; the pma layer then backs and maps it. -/
def MemoryManager.handleUserFault (backing : FaultBacking) (mm : MemoryManager) (addr : Nat)
    (access : AccessType) : Option Errno :=
  match toRange (roundDown addr) pageSize with
  | none => some .EFAULT
  | some ar =>
    match (mm.getVMAsLocked ar access false).err with
    | some err => some err
    | none => backing ar access

end Cijitter.Mm
