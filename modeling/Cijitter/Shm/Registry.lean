import Mathlib
import Cijitter.Usermem.Access
import Cijitter.Lib.Run

/-! System V shared memory (`pkg/sentry/kernel/shm`): the registry of an IPC
namespace, which finds segments by key and by ID and accounts their pages,
and the life of a segment, held by a reference of its own until
`MarkDestroyed` and by the references of its users.

A `*Shm` is an index into `segments`, the arena of every segment the
registry has created, so that a pointer outlives the segment's removal from
the maps as it does in Go. A Go panic is `none`. Whether the caller may
access a segment (`checkPermissions` of its credentials for the requested
mode) and whether the memory file can allocate the segment's pages are
given with each call. -/

set_option autoImplicit false

namespace Cijitter.SysVShm

/-- `shm.ID`. -/
abbrev ID := Int32

/-- `shm.Key`. -/
abbrev Key := Int32

/-- `linux.IPC_PRIVATE`. -/
def ipcPrivate : Key := 0

def shmMin : UInt64 := 1

def shmMni : Nat := 4096

def shmMax : UInt64 := 18446744073709551615 - 16777216

def shmAll : UInt64 := 18446744073709551615 - 16777216

def pageSize : UInt64 := 4096

inductive Errno where
  | EINVAL
  | ENOSPC
  | EACCES
  | EEXIST
  | ENOENT
  | ENOMEM
  deriving DecidableEq, Repr

/-- `Shm`: what the registry and the reference count read of a segment.
`refs` is `ReadRefs`, and `releases` counts the times `destroy` returned its
memory to the memory file. -/
structure Shm where
  id : ID
  key : Key
  size : UInt64
  effectiveSize : UInt64
  refs : Int
  pendingDestruction : Bool
  releases : Nat
  deriving DecidableEq, Repr

/-- `Registry`. -/
structure Registry where
  segments : List Shm
  shms : Finmap fun _ : ID => Nat
  keysToShms : Finmap fun _ : Key => Nat
  totalPages : UInt64
  lastIDUsed : ID

/-- `NewRegistry`. -/
def newRegistry : Registry := ⟨[], ∅, ∅, 0, 0⟩

namespace Registry

variable (r : Registry)

/-- The registry with the segment at `p` changed. -/
def modify (p : Nat) (f : Shm → Shm) : Registry := { r with segments := r.segments.modify p f }

/-- `AtomicRefCount.IncRef`: it panics on a segment whose count has
reached zero. -/
def incRef (p : Nat) : Option Registry :=
  match r.segments[p]? with
  | some s => if s.refs ≤ 0 then none else some (r.modify p fun s => { s with refs := s.refs + 1 })
  | none => none

/-- `Registry.remove`: it panics on a segment whose key is still
associated. -/
def remove (p : Nat) : Option Registry :=
  match r.segments[p]? with
  | some s =>
    if s.key ≠ ipcPrivate then none
    else some { r with shms := r.shms.erase s.id, totalPages := r.totalPages - s.effectiveSize / pageSize }
  | none => none

/-- `Shm.destroy`: the memory goes back to the memory file, then the
segment leaves the registry. -/
def destroy (p : Nat) : Option Registry :=
  (r.modify p fun s => { s with releases := s.releases + 1 }).remove p

/-- `Shm.DecRef`: `DecRefWithDestructor(s.destroy)`. -/
def decRef (p : Nat) : Option Registry :=
  match r.segments[p]? with
  | some s =>
    if s.refs - 1 < 0 then none
    else
      let dropped := r.modify p fun s => { s with refs := s.refs - 1 }
      if s.refs - 1 = 0 then dropped.destroy p else some dropped
  | none => none

/-- `FindByID`: a new reference on the segment with ID `id`, unless it has
reached its last `DecRef`. -/
def findByID (id : ID) : Registry × Option Nat :=
  match r.shms.lookup id with
  | some p =>
    match r.segments[p]? with
    | some s => if 0 < s.refs then (r.modify p fun s => { s with refs := s.refs + 1 }, some p) else (r, none)
    | none => (r, none)
  | none => (r, none)

/-- `dissociateKey`. -/
def dissociateKey (p : Nat) : Registry :=
  match r.segments[p]? with
  | some s =>
    if s.key ≠ ipcPrivate then
      { r.modify p (fun s => { s with key := ipcPrivate }) with keysToShms := r.keysToShms.erase s.key }
    else r
  | none => r

/-- `Shm.MarkDestroyed`: the first call drops the segment's reference to
itself. -/
def markDestroyed (p : Nat) : Option Registry :=
  let dissociated := r.dissociateKey p
  match dissociated.segments[p]? with
  | some s =>
    if !s.pendingDestruction then
      (dissociated.modify p fun s => { s with pendingDestruction := true }).decRef p
    else some dissociated
  | none => none

end Registry

/-- The loop of `newShm` over the IDs after `lastIDUsed`, in at most `fuel`
turns: past the largest ID it goes on at `1`, since `continue` runs the
loop's `id++` after `id = 0`. -/
def findUnusedID (shms : Finmap fun _ : ID => Nat) (lastIDUsed : ID) : Nat → ID → Option ID
  | 0, _ => none
  | fuel + 1, id =>
    if id = lastIDUsed then none
    else if id < 0 then findUnusedID shms lastIDUsed fuel (0 + 1)
    else if shms.lookup id = none then some id
    else findUnusedID shms lastIDUsed fuel (id + 1)

namespace Registry

variable (r : Registry)

/-- `newShm`, after the memory file's `Allocate` answered `allocated`. The
new segment holds the reference to itself. -/
def newShm (allocated : Bool) (key : Key) (size : UInt64) : Option (Registry × Except Errno Nat) :=
  match Usermem.roundUp size.toNat with
  | none => none
  | some rounded =>
    let effectiveSize := UInt64.ofNat rounded
    if !allocated then some (r, .error .ENOMEM)
    else
      match findUnusedID r.shms r.lastIDUsed (2 ^ 32) (r.lastIDUsed + 1) with
      | none => some (r, .error .ENOSPC)
      | some id =>
        let p := r.segments.length
        some (⟨r.segments ++ [⟨id, key, size, effectiveSize, 1, false, 0⟩], r.shms.insert id p,
          r.keysToShms.insert key p, r.totalPages + effectiveSize / pageSize, id⟩, .ok p)

/-- `FindOrCreate`: a reference on the segment for `key`, found or created.
`permitted` is `checkPermissions` of the caller for the requested mode. -/
def findOrCreate (permitted : Shm → Bool) (allocated : Bool) (key : Key) (size : UInt64)
    (isPrivate create exclusive : Bool) : Option (Registry × Except Errno Nat) :=
  if (create || isPrivate) && (size < shmMin || shmMax < size) then some (r, .error .EINVAL)
  else if shmMni ≤ r.shms.keys.card then some (r, .error .ENOSPC)
  else
    match (if isPrivate then none else r.keysToShms.lookup key) with
    | some p =>
      -- an existing segment for the key
      match r.segments[p]? with
      | some s =>
        if !permitted s then some (r, .error .EACCES)
        else if s.size < size then some (r, .error .EINVAL)
        else if create && exclusive then some (r, .error .EEXIST)
        else (r.incRef p).map fun r => (r, .ok p)
      | none => none
    | none =>
      if !isPrivate && !create then some (r, .error .ENOENT)
      else
        match Usermem.roundUp size.toNat with
        | none => some (r, .error .EINVAL)
        | some sizeAligned =>
          if shmAll < r.totalPages + UInt64.ofNat sizeAligned / pageSize then some (r, .error .ENOSPC)
          else
            match r.newShm allocated key size with
            | some (created, .ok p) => (created.incRef p).map fun r => (r, .ok p)
            | other => other

end Registry

/-! ## Runs

The references the users of the segments hold are the other half of the
state: `FindOrCreate` and `FindByID` give one, an attach takes another (the
mapping's `IncRef`), and a user drops only one it holds. `IPC_RMID` is
`MarkDestroyed` by a user holding a reference. -/

structure System where
  registry : Registry
  held : List Nat

inductive Action where
  | findOrCreate (permitted : Shm → Bool) (allocated : Bool) (key : Key) (size : UInt64)
      (isPrivate create exclusive : Bool)
  | findByID (id : ID)
  | attach (p : Nat)
  | decRef (p : Nat)
  | markDestroyed (p : Nat)

/-- One operation; a panic, or an operation on a reference the user does not
hold, leaves the system as it is. -/
def step (t : System) : Action → System
  | .findOrCreate permitted allocated key size isPrivate create exclusive =>
    match t.registry.findOrCreate permitted allocated key size isPrivate create exclusive with
    | some (r, .ok p) => ⟨r, p :: t.held⟩
    | some (r, .error _) => ⟨r, t.held⟩
    | none => t
  | .findByID id =>
    match t.registry.findByID id with
    | (r, some p) => ⟨r, p :: t.held⟩
    | (r, none) => ⟨r, t.held⟩
  | .attach p =>
    if p ∈ t.held then
      match t.registry.incRef p with
      | some r => ⟨r, p :: t.held⟩
      | none => t
    else t
  | .decRef p =>
    if p ∈ t.held then
      match t.registry.decRef p with
      | some r => ⟨r, t.held.erase p⟩
      | none => t
    else t
  | .markDestroyed p =>
    if p ∈ t.held then
      match t.registry.markDestroyed p with
      | some r => ⟨r, t.held⟩
      | none => t
    else t

def System.initial : System := ⟨newRegistry, []⟩

def Reachable (t : System) : Prop := StepRun.Reachable step System.initial t

end Cijitter.SysVShm
