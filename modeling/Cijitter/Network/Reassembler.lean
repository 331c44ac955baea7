import Cijitter.Lib.BinaryHeap

/-! IP fragment reassembly (`pkg/tcpip/network/fragmentation/reassembler.go`
and `frag_heap.go`). A reassembler keeps the RFC 815 list of holes, a hole
being marked deleted once a fragment fills part of it, and keeps the
fragments that filled some hole in a heap ordered by offset. When every hole
is deleted the heap is popped in order and the fragments are glued, each
trimmed of what the ones before it gave. Views are flat byte lists, so
`TrimFront` is `drop` and `Size` is `length`. Offsets are `uint16` and never
wrap: `first - 1` is taken only when `first` is above a hole's start, and
`last + 1` only when `last` is below a hole's end. -/

set_option autoImplicit false

namespace Cijitter.Network

structure Hole where
  first : UInt16
  last : UInt16
  deleted : Bool
  deriving DecidableEq, Repr

structure Fragment where
  offset : UInt16
  vv : List UInt8
  deriving DecidableEq, Repr

/-- `fragHeap.Less`. -/
def fragmentLess (a b : Fragment) : Bool :=
  a.offset < b.offset

/-- The errors of `fragHeap.reassemble`. -/
inductive ReassembleError where
  | firstOffset (offset : UInt16)
  | hole (expected : Nat) (got : UInt16)
  -- `heap.Pop` of an empty heap, which panics in Go
  | emptyHeap
  deriving DecidableEq, Repr

/-- The error texts, as `process` and `Process` wrap them. -/
def ReassembleError.message : ReassembleError → String
  | .firstOffset offset => s!"offset of the first packet is != 0 ({offset})"
  | .hole expected got => s!"packet has a hole, expected offset {expected}, got {got}"
  | .emptyHeap => "heap.Pop of an empty heap"

/-- `reassemble`'s loop over the rest of the heap, whose length is its fuel:
`size` is the length of what is glued so far. -/
def reassembleLoop : Nat → List Fragment → Nat → List UInt8 → Except ReassembleError (List UInt8)
  | 0, _, _, views => .ok views
  | fuel + 1, h, size, views =>
      match BinaryHeap.pop fragmentLess h with
      | none => .ok views
      | some (curr, rest) =>
          if curr.offset.toNat < size then
            let vv := curr.vv.drop (size - curr.offset.toNat)
            reassembleLoop fuel rest (size + vv.length) (views ++ vv)
          else if curr.offset.toNat > size then .error (.hole size curr.offset)
          else reassembleLoop fuel rest (size + curr.vv.length) (views ++ curr.vv)

/-- `fragHeap.reassemble`. -/
def reassemble (h : List Fragment) : Except ReassembleError (List UInt8) :=
  match BinaryHeap.pop fragmentLess h with
  | none => .error .emptyHeap
  | some (curr, rest) =>
      if curr.offset ≠ 0 then .error (.firstOffset curr.offset)
      else reassembleLoop rest.length rest curr.vv.length curr.vv

/-- `reassembler`: the fields its methods read and write. -/
structure Reassembler where
  id : UInt32
  size : Int
  holes : List Hole
  deleted : Nat
  heap : List Fragment
  done : Bool
  creationTime : Int
  deriving Repr

def newReassembler (id : UInt32) (now : Int) : Reassembler :=
  { id := id, size := 0, holes := [⟨0, 65535, false⟩], deleted := 0, heap := [], done := false,
    creationTime := now }

/-- One turn of `updateHoles`'s loop, at index `i`: the holes, `deleted` and
`used`. -/
def updateHole (first last : UInt16) (more : Bool) (st : List Hole × Nat × Bool) (i : Nat) :
    List Hole × Nat × Bool :=
  match st.1[i]? with
  | none => st
  | some h =>
      if h.deleted || first > h.last || last < h.first then st
      else
        let holes := st.1.set i { h with deleted := true }
        let holes := if first > h.first then holes ++ [⟨h.first, first - 1, false⟩] else holes
        let holes := if last < h.last && more then holes ++ [⟨last + 1, h.last, false⟩] else holes
        (holes, st.2.1 + 1, true)

/-- `updateHoles`: `range r.holes` visits the holes there were when the loop
began, not those it appends. -/
def Reassembler.updateHoles (r : Reassembler) (first last : UInt16) (more : Bool) : Reassembler × Bool :=
  let st := (List.range r.holes.length).foldl (updateHole first last more) (r.holes, r.deleted, false)
  ({ r with holes := st.1, deleted := st.2.1 }, st.2.2)

/-- What `process` returns: the packet, whether it is done, the bytes
consumed and the error. -/
structure Processed where
  res : List UInt8
  done : Bool
  consumed : Int
  err : Option ReassembleError
  deriving Repr

/-- `reassembler.process`. After a reassembly, done or failed, `Process`
releases the reassembler and its heap is not read again; the model empties it
only when the reassembly succeeds. -/
def Reassembler.process (r : Reassembler) (first last : UInt16) (more : Bool) (vv : List UInt8) :
    Reassembler × Processed :=
  if r.done then (r, ⟨[], false, 0, none⟩)
  else
    let updated := r.updateHoles first last more
    -- only a fragment that filled some hole is stored
    let stored : Reassembler × Int :=
      if updated.2 then
        let pushed : Fragment := ⟨first, vv⟩
        ({ updated.1 with
            heap := BinaryHeap.push fragmentLess updated.1.heap pushed
            size := updated.1.size + vv.length }, vv.length)
      else (updated.1, 0)
    let r := stored.1
    if r.deleted < r.holes.length then (r, ⟨[], false, stored.2, none⟩)
    else
      match reassemble r.heap with
      | .error e => (r, ⟨[], false, stored.2, some e⟩)
      | .ok res => ({ r with heap := [] }, ⟨res, true, stored.2, none⟩)

/-- `tooOld`: `now - creationTime > timeout`. -/
def Reassembler.tooOld (r : Reassembler) (now timeout : Int) : Bool :=
  now - r.creationTime > timeout

/-- `checkDoneOrMark`: whether it was done, and the reassembler marked done. -/
def Reassembler.checkDoneOrMark (r : Reassembler) : Bool × Reassembler :=
  (r.done, { r with done := true })

end Cijitter.Network
