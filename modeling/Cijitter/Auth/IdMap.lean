import Cijitter.Lib.SegmentAdd
import Cijitter.Lib.Run

/-! User namespaces and their ID maps (`pkg/sentry/kernel/auth`: `id_map.go`,
`id_map_functions.go`, `user_namespace.go`, and `HasCapabilityIn` of
`credentials.go`). An ID map is a segment set over 32-bit IDs whose value is
the ID that the first ID of a segment maps to. Each namespace has four, from
and to its parent for UIDs and for GIDs; the UID and GID functions of the
source are one function of the kind of ID.

The namespaces of a system are an arena in which every namespace comes after
its parent, and a pointer to a namespace is its index there. A namespace
pointer that names no namespace, and a Go panic, are `none`. -/

set_option autoImplicit false

namespace Cijitter.Auth

open SegmentList

inductive Errno where
  | EPERM
  | EINVAL
  | EUSERS
  deriving DecidableEq, Repr

/-- `NoID`: `math.MaxUint32`. -/
def noID : UInt32 := 4294967295

/-- `idMapSet`: ranges of IDs, each with the ID its first ID maps to. -/
abbrev IdMapSet := List (Seg UInt32)

/-- `idMapFunctions.Merge`: mapped ranges have to be contiguous. -/
def idMapMerge (first second : Seg UInt32) : Option UInt32 :=
  if first.value + (UInt32.ofNat first.stop - UInt32.ofNat first.start) ≠ second.value then none
  else some first.value

/-- `idMapSet.Add` of `[start, stop)`; `MaxKey` is `NoID`. -/
def idMapAdd (m : IdMapSet) (start stop value : UInt32) : Option IdMapSet :=
  add idMapMerge noID.toNat m ⟨start.toNat, stop.toNat, value⟩

/-- `UserNamespace.mapID`. -/
def mapID (m : IdMapSet) (id : UInt32) : UInt32 :=
  if id = noID then noID
  else
    match findSegment id.toNat m with
    | some seg => seg.value + (id - UInt32.ofNat seg.start)
    | none => noID

/-- `UserNamespace.allIDsMapped`; `SpanRange` adds in `uint32`. -/
def allIDsMapped (m : IdMapSet) (start stop : UInt32) : Bool :=
  UInt32.ofNat (spanRange start.toNat stop.toNat m) == stop - start

structure IDMapEntry where
  firstID : UInt32
  firstParentID : UInt32
  length : UInt32
  deriving DecidableEq, Repr

/-- `UserNamespace.getIDMap`: one entry per segment, in order. -/
def getIDMap (m : IdMapSet) : List IDMapEntry :=
  m.map fun seg => ⟨UInt32.ofNat seg.start, seg.value, UInt32.ofNat seg.stop - UInt32.ofNat seg.start⟩

/-- `UserNamespace`; `parent` is the index of the parent, `none` for a root. -/
structure UserNamespace where
  parent : Option Nat
  owner : UInt32
  uidMapFromParent : IdMapSet
  uidMapToParent : IdMapSet
  gidMapFromParent : IdMapSet
  gidMapToParent : IdMapSet
  deriving DecidableEq, Repr

inductive IdKind where
  | uid
  | gid
  deriving DecidableEq, Repr

namespace UserNamespace

def mapFromParent (ns : UserNamespace) : IdKind → IdMapSet
  | .uid => ns.uidMapFromParent
  | .gid => ns.gidMapFromParent

def mapToParent (ns : UserNamespace) : IdKind → IdMapSet
  | .uid => ns.uidMapToParent
  | .gid => ns.gidMapToParent

/-- The namespace with its maps of one kind replaced. -/
def setMaps (ns : UserNamespace) : IdKind → IdMapSet → IdMapSet → UserNamespace
  | .uid, fromParent, toParent => { ns with uidMapFromParent := fromParent, uidMapToParent := toParent }
  | .gid, fromParent, toParent => { ns with gidMapFromParent := fromParent, gidMapToParent := toParent }

@[simp] theorem parent_setMaps (ns : UserNamespace) (kind : IdKind) (fromParent toParent : IdMapSet) :
    (ns.setMaps kind fromParent toParent).parent = ns.parent := by
  cases kind <;> rfl

theorem mapFromParent_setMaps (ns : UserNamespace) (kind kind' : IdKind) (fromParent toParent : IdMapSet) :
    (ns.setMaps kind fromParent toParent).mapFromParent kind' =
      if kind' = kind then fromParent else ns.mapFromParent kind' := by
  cases kind <;> cases kind' <;> rfl

theorem mapToParent_setMaps (ns : UserNamespace) (kind kind' : IdKind) (fromParent toParent : IdMapSet) :
    (ns.setMaps kind fromParent toParent).mapToParent kind' =
      if kind' = kind then toParent else ns.mapToParent kind' := by
  cases kind <;> cases kind' <;> rfl

end UserNamespace

/-- The user namespaces of a system, each after its parent. -/
structure Namespaces where
  namespaces : List UserNamespace
  parent_lt : ∀ {i : Nat} {ns : UserNamespace} {p : Nat}, namespaces[i]? = some ns → ns.parent = some p → p < i

namespace Namespaces

/-- Two arenas are equal when their namespaces are. -/
instance : DecidableEq Namespaces := fun first second =>
  decidable_of_iff (first.namespaces = second.namespaces) ⟨fun same => by
    cases first
    cases second
    cases same
    rfl, fun same => same ▸ rfl⟩

def empty : Namespaces := ⟨[], fun found => by cases found⟩

/-- A new namespace, whose parent is already there. -/
def push (t : Namespaces) (ns : UserNamespace) (parent_ok : ∀ p, ns.parent = some p → p < t.namespaces.length) :
    Namespaces :=
  ⟨t.namespaces ++ [ns], fun {i} {found} {p} found_eq parent_eq => by
    rcases Nat.lt_or_ge i t.namespaces.length with inside | outside
    · rw [List.getElem?_append_left inside] at found_eq
      exact t.parent_lt found_eq parent_eq
    · rw [List.getElem?_append_right outside] at found_eq
      have last : i - t.namespaces.length = 0 := by
        by_contra beyond
        rw [List.getElem?_eq_none (by simp; omega)] at found_eq
        cases found_eq
      rw [last] at found_eq
      cases found_eq
      have := parent_ok p parent_eq
      omega⟩

/-- The namespace at `i` with its maps of one kind replaced. -/
def setMaps (t : Namespaces) (i : Nat) (kind : IdKind) (fromParent toParent : IdMapSet) : Namespaces :=
  ⟨t.namespaces.modify i (·.setMaps kind fromParent toParent), fun {j} {ns} {p} found parent_eq => by
    rw [List.getElem?_modify] at found
    cases old : t.namespaces[j]? with
    | none => simp [old] at found
    | some old_ns =>
      rw [old] at found
      have same_parent : ns.parent = old_ns.parent := by
        simp only [Option.map_eq_map, Option.map_some, Option.some.injEq] at found
        rw [← found]
        split <;> simp
      exact t.parent_lt old (same_parent ▸ parent_eq)⟩

theorem getElem?_push (t : Namespaces) (ns : UserNamespace) (parent_ok : ∀ p, ns.parent = some p → p < t.namespaces.length)
    (j : Nat) : (t.push ns parent_ok).namespaces[j]? = if j = t.namespaces.length then some ns else t.namespaces[j]? := by
  simp only [push]
  split
  · next last => rw [last, List.getElem?_concat_length]
  · next not_last =>
    rcases Nat.lt_or_ge j t.namespaces.length with inside | outside
    · rw [List.getElem?_append_left inside]
    · rw [List.getElem?_eq_none (by simp; omega), List.getElem?_eq_none outside]

theorem getElem?_setMaps (t : Namespaces) (i : Nat) (kind : IdKind) (fromParent toParent : IdMapSet) (j : Nat) :
    (t.setMaps i kind fromParent toParent).namespaces[j]? =
      if i = j then t.namespaces[j]?.map (·.setMaps kind fromParent toParent) else t.namespaces[j]? := by
  simp only [setMaps, List.getElem?_modify]
  split <;> simp

end Namespaces

/-! ## Translating IDs along the parent chain -/

/-- `MapFromKUID` and `MapFromKGID`: a kernel ID translated into the
namespace at `i`. -/
def mapFromK (t : Namespaces) (kind : IdKind) (i : Nat) (kid : UInt32) : UInt32 :=
  match _found : t.namespaces[i]? with
  | none => noID
  | some ns =>
    match _parent_eq : ns.parent with
    | none => kid
    | some p => mapID (ns.mapFromParent kind) (mapFromK t kind p kid)
termination_by i
decreasing_by exact t.parent_lt _found _parent_eq

/-- `MapToKUID` and `MapToKGID`: an ID of the namespace at `i` translated to
a kernel ID. -/
def mapToK (t : Namespaces) (kind : IdKind) (i : Nat) (id : UInt32) : UInt32 :=
  match _found : t.namespaces[i]? with
  | none => noID
  | some ns =>
    match _parent_eq : ns.parent with
    | none => id
    | some p => mapToK t kind p (mapID (ns.mapToParent kind) id)
termination_by i
decreasing_by exact t.parent_lt _found _parent_eq

section Unfolding

variable {t : Namespaces} {kind : IdKind} {i p : Nat} {ns : UserNamespace}

theorem mapFromK_of_none (kid : UInt32) (found : t.namespaces[i]? = none) : mapFromK t kind i kid = noID := by
  rw [mapFromK]
  split
  · rfl
  · next ns' found' =>
    rw [found] at found'
    cases found'

theorem mapFromK_of_root (kid : UInt32) (found : t.namespaces[i]? = some ns) (root : ns.parent = none) :
    mapFromK t kind i kid = kid := by
  rw [mapFromK]
  split
  · next none_found =>
    rw [found] at none_found
    cases none_found
  · next ns' found' =>
    rw [found] at found'
    cases found'
    split
    · rfl
    · next p' parent_eq =>
      rw [root] at parent_eq
      cases parent_eq

theorem mapFromK_of_parent (kid : UInt32) (found : t.namespaces[i]? = some ns) (parent_eq : ns.parent = some p) :
    mapFromK t kind i kid = mapID (ns.mapFromParent kind) (mapFromK t kind p kid) := by
  rw [mapFromK]
  split
  · next none_found =>
    rw [found] at none_found
    cases none_found
  · next ns' found' =>
    rw [found] at found'
    cases found'
    split
    · next root =>
      rw [parent_eq] at root
      cases root
    · next p' parent_eq' =>
      rw [parent_eq] at parent_eq'
      cases parent_eq'
      rfl

theorem mapToK_of_none (id : UInt32) (found : t.namespaces[i]? = none) : mapToK t kind i id = noID := by
  rw [mapToK]
  split
  · rfl
  · next ns' found' =>
    rw [found] at found'
    cases found'

theorem mapToK_of_root (id : UInt32) (found : t.namespaces[i]? = some ns) (root : ns.parent = none) :
    mapToK t kind i id = id := by
  rw [mapToK]
  split
  · next none_found =>
    rw [found] at none_found
    cases none_found
  · next ns' found' =>
    rw [found] at found'
    cases found'
    split
    · rfl
    · next p' parent_eq =>
      rw [root] at parent_eq
      cases parent_eq

theorem mapToK_of_parent (id : UInt32) (found : t.namespaces[i]? = some ns) (parent_eq : ns.parent = some p) :
    mapToK t kind i id = mapToK t kind p (mapID (ns.mapToParent kind) id) := by
  rw [mapToK]
  split
  · next none_found =>
    rw [found] at none_found
    cases none_found
  · next ns' found' =>
    rw [found] at found'
    cases found'
    split
    · next root =>
      rw [parent_eq] at root
      cases root
    · next p' parent_eq' =>
      rw [parent_eq] at parent_eq'
      cases parent_eq'
      rfl

end Unfolding

def mapFromKUID (t : Namespaces) (i : Nat) (kuid : UInt32) : UInt32 := mapFromK t .uid i kuid

def mapFromKGID (t : Namespaces) (i : Nat) (kgid : UInt32) : UInt32 := mapFromK t .gid i kgid

def mapToKUID (t : Namespaces) (i : Nat) (uid : UInt32) : UInt32 := mapToK t .uid i uid

def mapToKGID (t : Namespaces) (i : Nat) (gid : UInt32) : UInt32 := mapToK t .gid i gid

/-- `UserNamespace.depth`: the namespaces from `i` up to its root. -/
def depth (t : Namespaces) (i : Nat) : Nat :=
  match _found : t.namespaces[i]? with
  | none => 0
  | some ns =>
    match _parent_eq : ns.parent with
    | none => 1
    | some p => depth t p + 1
termination_by i
decreasing_by exact t.parent_lt _found _parent_eq

/-! ## Credentials and capabilities -/

/-- The fields of `Credentials` that the ID maps read. -/
structure Credentials where
  effectiveKUID : UInt32
  effectiveKGID : UInt32
  effectiveCaps : UInt64
  userNamespace : Nat
  deriving DecidableEq, Repr

def Credentials.effectiveK (c : Credentials) : IdKind → UInt32
  | .uid => c.effectiveKUID
  | .gid => c.effectiveKGID

/-- `linux.CAP_SETGID`. -/
def capSetGID : Nat := 6

/-- `linux.CAP_SETUID`. -/
def capSetUID : Nat := 7

/-- The capability that writing a map of each kind needs. -/
def IdKind.capability : IdKind → Nat
  | .uid => capSetUID
  | .gid => capSetGID

/-- `CapabilitySetOf`: `bits.MaskOf64(cp)`. -/
def capabilitySetOf (cp : Nat) : UInt64 := 1 <<< cp.toUInt64

/-- `Credentials.HasCapabilityIn`, walking up from the namespace at `i`. -/
def hasCapabilityIn (t : Namespaces) (c : Credentials) (cp : Nat) (i : Nat) : Bool :=
  if c.userNamespace = i then capabilitySetOf cp &&& c.effectiveCaps != 0
  else
    match _found : t.namespaces[i]? with
    | none => false
    | some ns =>
      if ns.parent = some c.userNamespace ∧ c.effectiveKUID = ns.owner then true
      else
        match _parent_eq : ns.parent with
        | none => false
        | some p => hasCapabilityIn t c cp p
termination_by i
decreasing_by exact t.parent_lt _found _parent_eq

/-! ## Setting a namespace's maps -/

/-- The loop of `trySetUIDMap` and `trySetGIDMap` over the entries, adding
each to the maps from and to the parent; `parentToParent` is the parent's
own map to its parent, which must map every parent ID of an entry. -/
def trySetIDMapLoop (parentToParent : IdMapSet) :
    IdMapSet → IdMapSet → List IDMapEntry → Except Errno (IdMapSet × IdMapSet)
  | fromParent, toParent, [] => .ok (fromParent, toParent)
  | fromParent, toParent, e :: entries =>
    -- the overflow checks also rule out `NoID`
    let lastID := e.firstID + e.length
    if lastID ≤ e.firstID then .error .EINVAL
    else
      let lastParentID := e.firstParentID + e.length
      if lastParentID ≤ e.firstParentID then .error .EINVAL
      else if !allIDsMapped parentToParent e.firstParentID lastParentID then .error .EPERM
      else
        match idMapAdd fromParent e.firstParentID lastParentID e.firstID with
        | none => .error .EINVAL
        | some fromParent =>
          match idMapAdd toParent e.firstID lastID e.firstParentID with
          | none => .error .EINVAL
          | some toParent => trySetIDMapLoop parentToParent fromParent toParent entries

/-- `trySetUIDMap` and `trySetGIDMap` on `ns`, whose parent is `parent`: the
maps after every entry, or the error of the first entry that fails, whose
partial maps the caller throws away. -/
def trySetIDMap (kind : IdKind) (ns parent : UserNamespace) (entries : List IDMapEntry) :
    Except Errno (IdMapSet × IdMapSet) :=
  trySetIDMapLoop (parent.mapToParent kind) (ns.mapFromParent kind) (ns.mapToParent kind) entries

def trySetUIDMap (ns parent : UserNamespace) (entries : List IDMapEntry) : Except Errno (IdMapSet × IdMapSet) :=
  trySetIDMap .uid ns parent entries

def trySetGIDMap (ns parent : UserNamespace) (entries : List IDMapEntry) : Except Errno (IdMapSet × IdMapSet) :=
  trySetIDMap .gid ns parent entries

/-- The checks of `SetUIDMap` and `SetGIDMap` for a writer without the
capability in the parent namespace `p`: a single entry of length one that
maps the writer's effective ID in the parent, written by the namespace's
creator. -/
def restrictedMapError (t : Namespaces) (kind : IdKind) (c : Credentials) (ns : UserNamespace) (p : Nat) :
    List IDMapEntry → Option Errno
  | [e] =>
    if mapToK t kind p e.firstParentID ≠ c.effectiveK kind ∨ e.length ≠ 1 then some .EPERM
    -- the owner is a KUID for both kinds
    else if c.effectiveKUID ≠ ns.owner then some .EPERM
    else none
  | _ => some .EPERM

/-- `SetUIDMap` and `SetGIDMap` on the namespace at `i`: the namespaces after
the call and the error it returns. A root namespace that gets as far as the
capability check in its parent panics on the nil parent. -/
def setIDMap (kind : IdKind) (t : Namespaces) (c : Credentials) (i : Nat) (entries : List IDMapEntry) :
    Option (Namespaces × Option Errno) :=
  match t.namespaces[i]? with
  | none => none
  | some ns =>
    -- a map may be written once
    if !(ns.mapFromParent kind).isEmpty then some (t, some .EPERM)
    else if entries.isEmpty then some (t, some .EINVAL)
    else if !hasCapabilityIn t c kind.capability i then some (t, some .EPERM)
    else if c.userNamespace ≠ i ∧ ns.parent ≠ some c.userNamespace then some (t, some .EPERM)
    else
      match ns.parent with
      | none => none
      | some p =>
        match t.namespaces[p]? with
        | none => none
        | some parent =>
          let restricted := if hasCapabilityIn t c kind.capability p then none
            else restrictedMapError t kind c ns p entries
          match restricted with
          | some err => some (t, some err)
          | none =>
            -- `trySetUIDMap` leaves data in the maps if it fails
            match trySetIDMap kind ns parent entries with
            | .ok (fromParent, toParent) => some (t.setMaps i kind fromParent toParent, none)
            | .error err => some (t.setMaps i kind [] [], some err)

def setUIDMap (t : Namespaces) (c : Credentials) (i : Nat) (entries : List IDMapEntry) :
    Option (Namespaces × Option Errno) :=
  setIDMap .uid t c i entries

def setGIDMap (t : Namespaces) (c : Credentials) (i : Nat) (entries : List IDMapEntry) :
    Option (Namespaces × Option Errno) :=
  setIDMap .gid t c i entries

/-- `UIDMap`. -/
def uidMap (ns : UserNamespace) : List IDMapEntry := getIDMap ns.uidMapToParent

/-- `GIDMap`. -/
def gidMap (ns : UserNamespace) : List IDMapEntry := getIDMap ns.gidMapToParent

/-! ## Creating namespaces -/

/-- The map of each kind of a root namespace: `[0, math.MaxUint32)` to itself. -/
def rootIDMap : Option IdMapSet := idMapAdd [] 0 4294967295 0

/-- `NewRootUserNamespace`; it panics if an add to an empty map fails. -/
def newRootUserNamespace : Option UserNamespace :=
  match rootIDMap with
  | some m => some ⟨none, 0, m, m, m, m⟩
  | none => none

/-- `maxUserNamespaceDepth`. -/
def maxUserNamespaceDepth : Nat := 32

/-- `Credentials.NewChildUserNamespace`. -/
def newChildUserNamespace (t : Namespaces) (c : Credentials) : Except Errno UserNamespace :=
  if depth t c.userNamespace ≥ maxUserNamespaceDepth then .error .EUSERS
  -- the caller's IDs must be mapped in its own namespace
  else if mapFromKUID t c.userNamespace c.effectiveKUID = noID then .error .EPERM
  else if mapFromKGID t c.userNamespace c.effectiveKGID = noID then .error .EPERM
  else .ok ⟨some c.userNamespace, c.effectiveKUID, [], [], [], []⟩

theorem parent_newChildUserNamespace {t : Namespaces} {c : Credentials} {ns : UserNamespace}
    (created : newChildUserNamespace t c = .ok ns) : ns.parent = some c.userNamespace := by
  unfold newChildUserNamespace at created
  split at created
  · cases created
  · split at created
    · cases created
    · split at created
      · cases created
      · cases created
        rfl

/-! ## Runs -/

inductive Action where
  | newRoot
  | newChild (c : Credentials)
  | setUIDMap (c : Credentials) (i : Nat) (entries : List IDMapEntry)
  | setGIDMap (c : Credentials) (i : Nat) (entries : List IDMapEntry)

/-- One call. A failed namespace creation adds nothing; credentials that name
no namespace, and a call that panics, leave the namespaces as they are. -/
def step (t : Namespaces) : Action → Namespaces
  | .newRoot =>
    match found : newRootUserNamespace with
    | some ns => t.push ns fun p parent_eq => by
        unfold newRootUserNamespace at found
        split at found
        · cases found
          cases parent_eq
        · cases found
    | none => t
  | .newChild c =>
    if inside : c.userNamespace < t.namespaces.length then
      match created : newChildUserNamespace t c with
      | .ok ns => t.push ns fun p parent_eq => by
          rw [parent_newChildUserNamespace created, Option.some.injEq] at parent_eq
          exact parent_eq ▸ inside
      | .error _ => t
    else t
  | .setUIDMap c i entries => ((setUIDMap t c i entries).map Prod.fst).getD t
  | .setGIDMap c i entries => ((setGIDMap t c i entries).map Prod.fst).getD t

/-- The namespaces some run of calls creates from none. -/
def Reachable (t : Namespaces) : Prop := StepRun.Reachable step Namespaces.empty t

end Cijitter.Auth
