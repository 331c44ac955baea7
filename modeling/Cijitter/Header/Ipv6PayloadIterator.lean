import Cijitter.Lib.GoIo
import Cijitter.Tcpip.VectorisedView

/-! `IPv6PayloadIterator` (`pkg/tcpip/header/ipv6_extension_headers.go`):
the headers of an IPv6 payload, one per call of `Next`. The iterator keeps
two cursors over the payload: a `bufio.Reader` over an `io.MultiReader` of
the payload's views, which `nextHeaderData` reads from, and a copy of the
payload that it trims by what each read took, which `AsRawHeader` returns.
A Fragment header whose offset is not zero makes the next call return the
rest as it is. -/

set_option autoImplicit false

namespace Cijitter.Header

open GoIo
open TcpipBuffer (VectorisedView)

/-- `IPv6HopByHopOptionsExtHdrIdentifier`. -/
def ipv6HopByHopOptionsExtHdrIdentifier : UInt8 := 0

/-- `IPv6RoutingExtHdrIdentifier`. -/
def ipv6RoutingExtHdrIdentifier : UInt8 := 43

/-- `IPv6FragmentExtHdrIdentifier`. -/
def ipv6FragmentExtHdrIdentifier : UInt8 := 44

/-- `IPv6DestinationOptionsExtHdrIdentifier`. -/
def ipv6DestinationOptionsExtHdrIdentifier : UInt8 := 60

/-- `IPv6NoNextHeaderIdentifier`. -/
def ipv6NoNextHeaderIdentifier : UInt8 := 59

def ipv6ExtHdrLenBytesPerUnit : Nat := 8

def ipv6ExtHdrLenBytesExcluded : Nat := 6

def ipv6FragmentExtHdrFragmentOffsetShift : Nat := 3

structure IPv6RawPayloadHeader where
  identifier : UInt8
  buf : VectorisedView

/-- The headers `Next` returns, each with the bytes it holds. -/
inductive IPv6PayloadHeader where
  /-- `IPv6HopByHopOptionsExtHdr`. -/
  | hopByHop (options : List UInt8)
  /-- `IPv6RoutingExtHdr`. -/
  | routing (data : List UInt8)
  /-- `IPv6FragmentExtHdr`, its six bytes after the Next Header and Reserved fields. -/
  | fragment (data : List UInt8)
  /-- `IPv6DestinationOptionsExtHdr`. -/
  | destinationOptions (options : List UInt8)
  /-- `IPv6RawPayloadHeader`. -/
  | raw (header : IPv6RawPayloadHeader)

/-- `IPv6FragmentExtHdr.FragmentOffset`: the first two bytes, big endian,
without their three low bits. -/
def fragmentOffset (data : List UInt8) : Nat :=
  ((data.getD 0 0).toNat * 256 + (data.getD 1 0).toNat) >>> ipv6FragmentExtHdrFragmentOffsetShift

/-- The errors of `Next`, with what their messages report and the error they
wrap. -/
inductive PayloadIterError where
  /-- `error when reading the Next Header field for extension header with id = %d: %w`. -/
  | nextHeaderField (id : UInt8) (err : IoError)
  /-- `error when reading the Length field for extension header with id = %d: %w`. -/
  | lengthField (id : UInt8) (err : IoError)
  /-- `error when reading the Reserved field for extension header with id = %d: %w`. -/
  | reservedField (id : UInt8) (err : IoError)
  /-- `read %d out of %d extension header data bytes (length = %d) for header with id = %d: %w`. -/
  | headerData (read bytesLen : Nat) (length id : UInt8) (err : IoError)

structure IPv6PayloadIterator where
  /-- The identifier of the next header to parse. -/
  nextHdrIdentifier : UInt8
  reader : BufReader UInt8
  payload : VectorisedView
  /-- Return the rest of the payload as it is on the next call. -/
  forceRaw : Bool

/-- `MakeIPv6PayloadIterator`: a reader over the payload's views with a
buffer of size 1 asked for, and a clone of the payload. -/
def makeIPv6PayloadIterator (nextHdrIdentifier : UInt8) (payload : VectorisedView) : IPv6PayloadIterator where
  nextHdrIdentifier := nextHdrIdentifier
  payload := payload.clone
  reader := BufReader.newReaderSize payload.views 1
  forceRaw := false

namespace IPv6PayloadIterator

/-- `AsRawHeader(true)`: the payload left, under the identifier of the next
header, and the iterator reset to one that is done. -/
def asRawHeader (i : IPv6PayloadIterator) : IPv6RawPayloadHeader × IPv6PayloadIterator :=
  (⟨i.nextHdrIdentifier, i.payload⟩,
    { nextHdrIdentifier := ipv6NoNextHeaderIdentifier, reader := ⟨[], [], none, 0⟩, payload := ⟨[], 0⟩,
      forceRaw := false })

/-- `nextHeaderData`: the Next Header field and the header's data, or the
error. After each read of the reader the payload copy is trimmed by what the
read took; a byte that `ReadByte` did not return is still trimmed. -/
def nextHeaderData (i : IPv6PayloadIterator) (fragmentHdr : Bool) :
    Except PayloadIterError (UInt8 × List UInt8) × IPv6PayloadIterator :=
  match i.reader.readByte with
  | (_, some err, reader) =>
    (.error (.nextHeaderField i.nextHdrIdentifier err), { i with reader, payload := i.payload.trimFront 1 })
  | (nextHdrIdentifier, none, reader) =>
    let i := { i with reader, payload := i.payload.trimFront 1 }
    match i.reader.readByte with
    | (_, some err, reader) =>
      (.error (if fragmentHdr then .lengthField i.nextHdrIdentifier err else .reservedField i.nextHdrIdentifier err),
        { i with reader, payload := i.payload.trimFront 1 })
    | (length, none, reader) =>
      let i := { i with reader, payload := i.payload.trimFront 1 }
      -- The Fragment header's second byte is Reserved, not a Length.
      let length := if fragmentHdr then 0 else length.getD 0
      let bytesLen := length.toNat * ipv6ExtHdrLenBytesPerUnit + ipv6ExtHdrLenBytesExcluded
      match i.reader.readFull bytesLen with
      | (bytes, some err, reader) =>
        (.error (.headerData bytes.length bytesLen length i.nextHdrIdentifier err),
          { i with reader, payload := i.payload.trimFront bytes.length })
      | (bytes, none, reader) =>
        (.ok (nextHdrIdentifier.getD 0, bytes), { i with reader, payload := i.payload.trimFront bytes.length })

/-- The branch of `Next` for a Hop-by-Hop Options, Routing or Destination
Options header, which returns the header's data as it was read. -/
def nextWithData (i : IPv6PayloadIterator) (header : List UInt8 → IPv6PayloadHeader) :
    (Option IPv6PayloadHeader × Bool × Option PayloadIterError) × IPv6PayloadIterator :=
  match i.nextHeaderData false with
  | (.error err, i) => ((none, true, some err), i)
  | (.ok (nextHdrIdentifier, bytes), i) => ((some (header bytes), false, none), { i with nextHdrIdentifier })

/-- `Next`: the header, whether the iterator is done, and the error. -/
def next (i : IPv6PayloadIterator) :
    (Option IPv6PayloadHeader × Bool × Option PayloadIterError) × IPv6PayloadIterator :=
  if i.forceRaw then
    let (raw, i) := i.asRawHeader
    ((some (.raw raw), false, none), i)
  else if i.nextHdrIdentifier = ipv6HopByHopOptionsExtHdrIdentifier then i.nextWithData .hopByHop
  else if i.nextHdrIdentifier = ipv6RoutingExtHdrIdentifier then i.nextWithData .routing
  else if i.nextHdrIdentifier = ipv6FragmentExtHdrIdentifier then
    match i.nextHeaderData true with
    | (.error err, i) => ((none, true, some err), i)
    | (.ok (nextHdrIdentifier, data), i) =>
      -- Only the first fragment holds the headers that follow.
      let i := if fragmentOffset data ≠ 0 then { i with forceRaw := true } else i
      ((some (.fragment data), false, none), { i with nextHdrIdentifier })
  else if i.nextHdrIdentifier = ipv6DestinationOptionsExtHdrIdentifier then i.nextWithData .destinationOptions
  else if i.nextHdrIdentifier = ipv6NoNextHeaderIdentifier then ((none, true, none), i)
  else
    let (raw, i) := i.asRawHeader
    ((some (.raw raw), false, none), i)

/-- `Next` called until it is done, at most `calls` times: what each call
returned. -/
def run : Nat → IPv6PayloadIterator → List (Option IPv6PayloadHeader × Bool × Option PayloadIterError)
  | 0, _ => []
  | calls + 1, i =>
    match i.next with
    | (result, i) => if result.2.1 then [result] else result :: run calls i

end IPv6PayloadIterator

end Cijitter.Header
