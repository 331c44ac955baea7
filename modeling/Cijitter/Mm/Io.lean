import Cijitter.Mm.Syscalls

/-! Copies between the sentry and application memory (`pkg/sentry/mm/io.go`):
`CopyIn` and `CopyOut` through internal mappings. The pma layer is a
parameter reporting how far into a range it obtained pmas and internal
mappings; memory contents are not modelled, so a copy is described by the
number of bytes it transfers and its error. -/

set_option autoImplicit false

namespace Cijitter.Mm

open Usermem Syserror

structure IOOpts where
  ignorePermissions : Bool
  addressSpaceActive : Bool

/-- What `withInternalMappings` asks of the pma layer: whether existing pmas
already allow the access over the range (`existingPMAsLocked`), and for a
range whose vmas exist, the end of the prefix that got pmas
(`getPMAsLocked`) and internal mappings (`getPMAInternalMappingsLocked`),
with the error for the rest. -/
structure PmaLayer where
  existing : AddrRange → AccessType → Bool → Bool
  getPMAs : AddrRange → AccessType → Nat × Option Errno
  getInternalMappings : AddrRange → Nat × Option Errno

/-- `translateIOError`: every I/O error becomes `EFAULT`. -/
def translateIOError (err : Option Errno) : Option Errno :=
  err.map fun _ => .EFAULT

/-- `copyMapMinBytes`: copies this long or longer use internal mappings. -/
def copyMapMinBytes : Nat := 32 * 1024

/-- `MemoryManager.CheckIORange`: the range, if it neither wraps nor ends
beyond `layout.MaxAddr`. -/
def MemoryManager.checkIORange (mm : MemoryManager) (addr length : Nat) : Option AddrRange :=
  match toRange addr length with
  | some ar => if ar.stop ≤ mm.maxAddr then some ar else none
  | none => none

/-- One cut of `withInternalMappings`: a layer that reached only `reached`
shortens the range, or ends the copy with nothing done if it reached no
address of it. -/
def cutRange (ar : AddrRange) (reached : Nat) (err : Option Errno) :
    Except (Option Errno) AddrRange :=
  if reached < ar.stop then
    if reached ≤ ar.start then .error (translateIOError err) else .ok ⟨ar.start, reached⟩
  else .ok ar

/-- `MemoryManager.withInternalMappings` with an `f` that transfers every
byte it is given: the number of bytes transferred and the first error in
order of progress through `ar`. -/
def MemoryManager.withInternalMappings (pmas : PmaLayer) (mm : MemoryManager) (ar : AddrRange)
    (access : AccessType) (ignorePermissions : Bool) : Nat × Option Errno :=
  if pmas.existing ar access ignorePermissions then (ar.length, none)
  else
    let lookup := mm.getVMAsLocked ar access ignorePermissions
    match cutRange ar lookup.vendStart lookup.err with
    | .error err => (0, err)
    | .ok ar =>
      let (pend, perr) := pmas.getPMAs ar access
      match cutRange ar pend perr with
      | .error err => (0, err)
      | .ok ar =>
        let (imend, imerr) := pmas.getInternalMappings ar
        match cutRange ar imend imerr with
        | .error err => (0, err)
        | .ok ar =>
          if imerr.isSome then (ar.length, translateIOError imerr)
          else if perr.isSome then (ar.length, translateIOError perr)
          else (ar.length, translateIOError lookup.err)

/-- `MemoryManager.asioEnabled`; `asioSupported` is `mm.haveASIO`. -/
def MemoryManager.asioEnabled (asioSupported : Bool) (opts : IOOpts) : Bool :=
  asioSupported && !opts.ignorePermissions && opts.addressSpaceActive

/-- The shared body of `CopyIn` and `CopyOut`, which differ only in the
access they need (`Read` to copy in, `Write` to copy out). Short copies
with AddressSpace I/O go to `asCopy`, a parameter for `asCopyIn` and
`asCopyOut`. -/
def MemoryManager.copy (access : AccessType) (asCopy : Nat → Nat → Nat × Option Errno)
    (asioSupported : Bool) (pmas : PmaLayer) (mm : MemoryManager) (addr length : Nat)
    (opts : IOOpts) : Nat × Option Errno :=
  match mm.checkIORange addr length with
  | none => (0, some .EFAULT)
  | some ar =>
    if length = 0 then (0, none)
    else if MemoryManager.asioEnabled asioSupported opts && length < copyMapMinBytes then
      asCopy addr length
    else mm.withInternalMappings pmas ar access opts.ignorePermissions

def MemoryManager.copyIn (asCopy : Nat → Nat → Nat × Option Errno) (asioSupported : Bool)
    (pmas : PmaLayer) (mm : MemoryManager) (addr length : Nat) (opts : IOOpts) :
    Nat × Option Errno :=
  mm.copy ⟨true, false, false⟩ asCopy asioSupported pmas addr length opts

def MemoryManager.copyOut (asCopy : Nat → Nat → Nat × Option Errno) (asioSupported : Bool)
    (pmas : PmaLayer) (mm : MemoryManager) (addr length : Nat) (opts : IOOpts) :
    Nat × Option Errno :=
  mm.copy ⟨false, true, false⟩ asCopy asioSupported pmas addr length opts

end Cijitter.Mm
