import Cijitter.Lib.Memory

/-! The shared memory ring pipe of the sharedmem link endpoint
(`pkg/tcpip/link/sharedmem/pipe`): a buffer of slots, each an 8-byte header
and a payload, that one transmitter pushes records into and one receiver
pulls them from. Indices are 64-bit: the low 32 bits are an offset in the
buffer, the high 32 bits count revolutions. The two ends share the buffer's
bytes, which the model passes to each call and takes back from it; a panic
of the source (a reslice out of range) is `none`. Headers are stored as
little-endian words, as on the platforms the code runs on. -/

set_option autoImplicit false

namespace Cijitter.Sharedmem

def jump : UInt64 := 4294967296

def offsetMask : UInt64 := 4294967295

def revolutionMask : UInt64 := ~~~offsetMask

def sizeOfSlotHeader : UInt64 := 8

def slotFree : UInt64 := (1 : UInt64) <<< 63

def slotSizeMask : UInt64 := 4294967295

/-- Go's `int64(x)` of an unsigned 64-bit value. -/
def signed (x : UInt64) : Int :=
  Bytes.signedValue 64 x.toNat

def payloadToSlotSize (payloadSize : UInt64) : UInt64 :=
  let s := sizeOfSlotHeader + payloadSize
  (s + sizeOfSlotHeader - 1) &&& ~~~(sizeOfSlotHeader - 1)

def slotToPayloadSize (offset : UInt64) : UInt64 :=
  offset - sizeOfSlotHeader

/-- `pipe.buffer`: the slice both ends work on. A reslice may reach past its
length up to its capacity. -/
structure Buffer where
  length : Nat
  capacity : Nat
  bytes : Nat → UInt8

/-- A slice of the buffer, as `pipe.data` returns it. -/
structure Slice where
  start : Nat
  size : Nat
  deriving DecidableEq, Repr

namespace Buffer

/-- `pipe.init`: the given bytes cut down to a multiple of the header size. -/
def init (length capacity : Nat) (bytes : Nat → UInt8) : Buffer :=
  ⟨length - length % 8, capacity, bytes⟩

/-- Where `p.buffer[idx&offsetMask:][:8]` starts, when the reslice is in
range. -/
def wordAt (b : Buffer) (idx : UInt64) : Option Nat :=
  let off := (idx &&& offsetMask).toNat
  if off ≤ b.length ∧ 8 ≤ b.capacity - off then some off else none

def write (b : Buffer) (idx v : UInt64) : Option Buffer :=
  (b.wordAt idx).map fun off => { b with bytes := Memory.writeWord b.bytes off v.toNat }

/-- An atomic store: in a sequentially consistent run the same as `write`. -/
def writeAtomic (b : Buffer) (idx v : UInt64) : Option Buffer :=
  b.write idx v

def readAtomic (b : Buffer) (idx : UInt64) : Option UInt64 :=
  (b.wordAt idx).map fun off => UInt64.ofNat (Memory.readWord b.bytes off)

def data (b : Buffer) (idx size : UInt64) : Option Slice :=
  let start := ((idx &&& offsetMask) + sizeOfSlotHeader).toNat
  if start ≤ b.length ∧ size.toNat ≤ b.capacity - start then some ⟨start, size.toNat⟩ else none

end Buffer

structure Tx where
  maxPayloadSize : UInt64
  head : UInt64
  tail : UInt64
  next : UInt64
  tailHeader : UInt64
  deriving DecidableEq, Repr

structure Rx where
  tail : UInt64
  head : UInt64
  deriving DecidableEq, Repr

/-- Where both ends start: the revolution two before the 64-bit indices wrap. -/
def firstIndex : UInt64 := 0xfffffffe * jump

namespace Tx

/-- `Tx.Init` on a buffer `pipe.init` has cut; `tailHeader` keeps its zero
value. -/
def init (b : Buffer) : Option (Tx × Buffer) :=
  let t : Tx := ⟨UInt64.ofNat b.length - 2 * sizeOfSlotHeader, firstIndex + jump, firstIndex, firstIndex, 0⟩
  (b.write t.tail slotFree).map (t, ·)

/-- The loop of `reclaim`. A turn that goes on moves `head` by at least 8
toward `newNext`, which starts less than 2^63 ahead, so 2^61 turns of fuel
cover every run of the loop. -/
def reclaimLoop (b : Buffer) (newNext : UInt64) : Nat → Tx → Option (Tx × Bool)
  | 0, _ => none
  | fuel + 1, t =>
    if signed (newNext - t.head) > 0 then
      match b.readAtomic t.head with
      | none => none
      | some header =>
        if header &&& slotFree = 0 then some (t, false)
        else
          let payloadSize := header &&& slotSizeMask
          let newHead := t.head + payloadToSlotSize payloadSize
          if signed (newHead - t.tail) > signed jump ∨ (newHead &&& offsetMask).toNat ≥ b.length then
            some (t, false)
          else reclaimLoop b newNext fuel { t with head := newHead }
    else some (t, true)

def reclaim (t : Tx) (b : Buffer) (newNext : UInt64) : Option (Tx × Bool) :=
  reclaimLoop b newNext (2 ^ 61) t

def abort (t : Tx) : Tx :=
  { t with next := t.tail }

def flush (t : Tx) (b : Buffer) : Option (Tx × Buffer) :=
  if t.next = t.tail then some (t, b)
  else do
    -- the receiver spins at `next`, so it must read a free slot there
    let b ← if t.next ≠ t.head then b.write t.next slotFree else pure b
    let b ← b.writeAtomic t.tail t.tailHeader
    pure ({ t with tail := t.next }, b)

/-- The wrapping branch of `Push`: a wrapping slot fills the rest of the
revolution and the record moves to the start of the next. It gives the end
of the record's slot there, or no end when `reclaim` fails and `Push`
returns nil. -/
def wrap (t : Tx) (b : Buffer) (newNext totalLen : UInt64) : Option (Tx × Buffer × Option UInt64) :=
  let newNext := (newNext &&& revolutionMask) + jump
  let wrappingPayloadSize := slotToPayloadSize (newNext - t.next)
  match t.reclaim b newNext with
  | none => none
  | some (t, false) => some (t, b, none)
  | some (t, true) =>
    let oldNext := t.next
    let t := { t with next := newNext }
    if oldNext ≠ t.tail then
      (b.write oldNext wrappingPayloadSize).map fun b => (t, b, some (newNext + totalLen))
    else
      ({ t with tailHeader := wrappingPayloadSize }.flush b).map fun (t, b) => (t, b, some (newNext + totalLen))

/-- The end of `Push` once the end `newNext` of the record's slot is known:
reclaim room up to it, write the header (the first record after a flush
keeps it in `tailHeader`) and hand out the payload. -/
def place (t : Tx) (b : Buffer) (payloadSize newNext : UInt64) : Option (Tx × Buffer × Option Slice) :=
  match t.reclaim b newNext with
  | none => none
  | some (t, false) => some (t, b, none)
  | some (t, true) => do
    let (t, b) ← if t.next ≠ t.tail then (b.write t.next payloadSize).map (t, ·)
      else pure ({ t with tailHeader := payloadSize }, b)
    let slice ← b.data t.next payloadSize
    pure ({ t with next := newNext }, b, some slice)

/-- `Push`: a slice of `payloadSize` bytes for the caller to fill, or nil
(`none` inside) when there is no room. -/
def push (t : Tx) (b : Buffer) (payloadSize : UInt64) : Option (Tx × Buffer × Option Slice) :=
  if payloadSize > t.maxPayloadSize then some (t, b, none)
  else
    let totalLen := payloadToSlotSize payloadSize
    let newNext := t.next + totalLen
    let nextWrap := (t.next &&& revolutionMask) ||| UInt64.ofNat b.length
    if signed (newNext - nextWrap) ≥ 0 then
      match t.wrap b newNext totalLen with
      | none => none
      | some (t, b, none) => some (t, b, none)
      | some (t, b, some newNext) => t.place b payloadSize newNext
    else t.place b payloadSize newNext

end Tx

namespace Rx

def init : Rx :=
  ⟨firstIndex, firstIndex⟩

/-- `Pull`, which calls itself again after a wrapping slot. Go bounds that
recursion only by the stack; `fuel` bounds its depth. -/
def pullLoop (b : Buffer) : Nat → Rx → Option (Rx × Buffer × Option Slice)
  | 0, _ => none
  | fuel + 1, r =>
    if r.head = r.tail + jump then some (r, b, none)
    else
      match b.readAtomic r.head with
      | none => none
      | some header =>
        if header &&& slotFree ≠ 0 then some (r, b, none)
        else
          let payloadSize := header &&& slotSizeMask
          let newHead := r.head + payloadToSlotSize payloadSize
          let headWrap := (r.head &&& revolutionMask) ||| UInt64.ofNat b.length
          if signed (newHead - headWrap) ≥ 0 then
            -- a wrapping slot carries no data: skip it, and free it at once
            -- when nothing is pulled since the last flush
            if signed (newHead - headWrap) > signed jump ∨ newHead &&& offsetMask ≠ 0 then some (r, b, none)
            else if r.tail = r.head then
              match b.writeAtomic r.head (slotFree ||| slotToPayloadSize (newHead - r.head)) with
              | none => none
              | some b => pullLoop b fuel ⟨newHead, newHead⟩
            else pullLoop b fuel { r with head := newHead }
          else (b.data r.head payloadSize).map fun slice => ({ r with head := newHead }, b, some slice)

/-- `Pull`, with room for a chain of 2^32 wrapping slots. -/
def pull (r : Rx) (b : Buffer) : Option (Rx × Buffer × Option Slice) :=
  pullLoop b (2 ^ 32) r

def flush (r : Rx) (b : Buffer) : Option (Rx × Buffer) :=
  if r.head = r.tail then some (r, b)
  else (b.writeAtomic r.tail (slotFree ||| slotToPayloadSize (r.head - r.tail))).map fun b => ({ r with tail := r.head }, b)

end Rx

end Cijitter.Sharedmem
