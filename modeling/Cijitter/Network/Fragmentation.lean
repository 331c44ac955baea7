import Cijitter.Network.Reassembler
import Cijitter.Lib.Run

/-! `Fragmentation` (`fragmentation.go`): the reassemblers of the packets
being reassembled, by id in a map and, newest first, in an intrusive list
whose back is evicted first, with the count of bytes they hold. The map and
the list point to reassembler objects; here the objects live in `objects`,
allocated in order, and the map and the list hold their indices. `Process`
runs one call at a time: its unlocked section in the middle does not
interleave with another call. -/

set_option autoImplicit false

namespace Cijitter.Network

structure Fragmentation where
  highLimit : Int
  lowLimit : Int
  reassemblers : List (UInt32 × Nat)
  rList : List Nat
  size : Int
  timeout : Int
  objects : Nat → Reassembler
  allocated : Nat
  -- the counters `release` prints as an accounting bug
  logged : List Int

/-- `NewFragmentation`. -/
def newFragmentation (highMemoryLimit lowMemoryLimit reassemblingTimeout : Int) : Fragmentation :=
  let lowMemoryLimit := if lowMemoryLimit ≥ highMemoryLimit then highMemoryLimit else lowMemoryLimit
  let lowMemoryLimit := if lowMemoryLimit < 0 then 0 else lowMemoryLimit
  { highLimit := highMemoryLimit, lowLimit := lowMemoryLimit, reassemblers := [], rList := [], size := 0,
    timeout := reassemblingTimeout, objects := fun _ => newReassembler 0 0, allocated := 0, logged := [] }

namespace Fragmentation

/-- `release`: a reassembler not yet done leaves the map and the list, and
its bytes leave the count. `Remove` of a list member is `erase`. -/
def release (f : Fragmentation) (ref : Nat) : Fragmentation :=
  let marked := (f.objects ref).checkDoneOrMark
  let f := { f with objects := Function.update f.objects ref marked.2 }
  if marked.1 then f
  else
    let r := marked.2
    let f := { f with
      reassemblers := f.reassemblers.filter fun entry => entry.1 != r.id
      rList := f.rList.erase ref
      size := f.size - r.size }
    if f.size < 0 then { f with logged := f.logged ++ [f.size], size := 0 } else f

/-- A new reassembler for `id`, in the map and at the front of the list. -/
def create (f : Fragmentation) (id : UInt32) (now : Int) : Fragmentation × Nat :=
  let ref := f.allocated
  ({ f with
      objects := Function.update f.objects ref (newReassembler id now)
      allocated := ref + 1
      reassemblers := (id, ref) :: f.reassemblers.filter fun entry => entry.1 != id
      rList := ref :: f.rList }, ref)

/-- The eviction loop: release the list's back while the count is above
`lowLimit`. Each release of a member shortens the list, so its length is
fuel enough. -/
def evict : Nat → Fragmentation → Fragmentation
  | 0, f => f
  | fuel + 1, f =>
      if f.size > f.lowLimit then
        match f.rList.getLast? with
        | none => f
        | some tail => evict fuel (f.release tail)
      else f

/-- `Fragmentation.Process`, at time `now`: the packet and whether it is
complete, or the reassembly's error. -/
def process (f : Fragmentation) (id : UInt32) (first last : UInt16) (more : Bool) (vv : List UInt8)
    (now : Int) : Fragmentation × Except ReassembleError (List UInt8 × Bool) :=
  -- a reassembler past the timeout is released and replaced
  let found : Fragmentation × Option Nat :=
    match f.reassemblers.lookup id with
    | some ref => if (f.objects ref).tooOld now f.timeout then (f.release ref, none) else (f, some ref)
    | none => (f, none)
  let located : Fragmentation × Nat :=
    match found.2 with
    | some ref => (found.1, ref)
    | none => found.1.create id now
  let f := located.1
  let ref := located.2
  let processed := (f.objects ref).process first last more vv
  let f := { f with objects := Function.update f.objects ref processed.1 }
  match processed.2.err with
  | some e => (f.release ref, .error e)
  | none =>
      let f := { f with size := f.size + processed.2.consumed }
      let f := if processed.2.done then f.release ref else f
      let f := if f.size > f.highLimit then evict f.rList.length f else f
      (f, .ok (processed.2.res, processed.2.done))

end Fragmentation

/-- One call of `Process`. -/
structure Arrival where
  id : UInt32
  first : UInt16
  last : UInt16
  more : Bool
  vv : List UInt8
  now : Int

/-- The state after one call of `Process`. -/
def Fragmentation.step (f : Fragmentation) (a : Arrival) : Fragmentation :=
  (f.process a.id a.first a.last a.more a.vv a.now).1

end Cijitter.Network
