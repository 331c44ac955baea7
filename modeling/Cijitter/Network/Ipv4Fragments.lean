import Cijitter.Header.Ipv4
import Cijitter.Network.Fragmentation
import Cijitter.Tcpip.VectorisedView

/-! IPv4 output fragmentation, `endpoint.writePacketFragments`
(`pkg/tcpip/network/ipv4/ipv4.go`), over `buffer.Prependable`
(`pkg/tcpip/buffer/prependable.go`) and `VectorisedView`, and what the
receiving side passes `Fragmentation.Process` for each fragment (`Parse`
and `HandlePacket`).

Go slices alias: `ip` is a view of the caller's header buffer, and the
first fragment's header `h` is `ip` itself, so the fields set for it are
written into that buffer, from which later fragments copy the header. Here
the buffer's bytes are state, and `FragmentState.ip` holds what `ip` sees.
The link endpoint is a function from a packet to its error. Go panics
where an integer divides by zero or a slice bound is negative; the model
returns `none` there. -/

set_option autoImplicit false

namespace Cijitter.TcpipBuffer

/-- `Prependable`: a buffer that grows to the front; its used part starts
at `usedIdx`. -/
structure Prependable where
  buf : View
  usedIdx : Nat
  deriving DecidableEq, Repr

namespace Prependable

/-- `NewPrependable`: `size` zero bytes, none used. -/
def new (size : Nat) : Prependable :=
  ⟨List.replicate size 0, size⟩

/-- `View`: the used part. -/
def view (p : Prependable) : View :=
  p.buf.drop p.usedIdx

/-- `UsedLength`. -/
def usedLength (p : Prependable) : Nat :=
  p.buf.length - p.usedIdx

/-- `AvailableLength`. -/
def availableLength (p : Prependable) : Nat :=
  p.usedIdx

/-- `TrimBack`. -/
def trimBack (p : Prependable) (size : Nat) : Prependable :=
  { p with buf := p.buf.take (p.buf.length - size) }

/-- `Prepend`: the buffer with `size` more bytes used, and those bytes;
`none` where Go returns `nil`. -/
def prepend (p : Prependable) (size : Nat) : Option (Prependable × View) :=
  if size > p.usedIdx then none
  else
    let p := { p with usedIdx := p.usedIdx - size }
    some (p, p.view.take size)

/-- Bytes written through a slice that starts the used part. -/
def writeFront (p : Prependable) (bytes : View) : Prependable :=
  { p with buf := p.buf.take p.usedIdx ++ bytes ++ p.buf.drop (p.usedIdx + bytes.length) }

theorem length_view (p : Prependable) : p.view.length = p.usedLength :=
  List.length_drop

theorem view_writeFront (p : Prependable) {bytes : View} (whole : bytes.length = p.usedLength)
    (used : p.usedIdx ≤ p.buf.length) : (p.writeFront bytes).view = bytes := by
  have rest : p.buf.drop (p.usedIdx + bytes.length) = [] := List.drop_eq_nil_of_le (by rw [whole, usedLength]; omega)
  have kept : (p.buf.take p.usedIdx).length = p.usedIdx := by rw [List.length_take]; omega
  simp only [view, writeFront, rest, List.append_nil]
  rw [List.drop_append_of_le_length (Nat.le_of_eq kept.symm), List.drop_eq_nil_of_le (Nat.le_of_eq kept),
    List.nil_append]

theorem usedLength_writeFront (p : Prependable) {bytes : View} (whole : bytes.length = p.usedLength)
    (used : p.usedIdx ≤ p.buf.length) : (p.writeFront bytes).usedLength = p.usedLength := by
  rw [← length_view, view_writeFront p whole used, whole]

theorem view_trimBack (p : Prependable) (size : Nat) : (p.trimBack size).view = p.view.take (p.usedLength - size) := by
  simp only [view, trimBack, usedLength, List.drop_take]
  congr 1
  omega

theorem prepend_new (size available : Nat) :
    (new (size + available)).prepend size =
      some (⟨List.replicate (size + available) 0, available⟩, List.replicate size 0) := by
  rw [prepend, new, if_neg (show ¬size > size + available by omega)]
  simp only [view, List.drop_replicate, List.take_replicate, Option.some.injEq, Prod.mk.injEq]
  exact ⟨by congr 1; omega, by congr 1; omega⟩

end Prependable

/-- `copy(dst, src)`: as many bytes as both hold. -/
def copyBytes (dst src : View) : View :=
  src.take dst.length ++ dst.drop src.length

theorem copyBytes_of_length {dst src : View} (same : dst.length = src.length) : copyBytes dst src = src := by
  rw [copyBytes, same, List.take_length, List.drop_eq_nil_of_le (by omega), List.append_nil]

end Cijitter.TcpipBuffer

namespace Cijitter.Network

open TcpipBuffer Header

/-- What `writePacketFragments` passes the link endpoint: a
`stack.PacketBuffer` with the fields it sets. -/
structure PacketBuffer where
  header : Prependable
  data : VectorisedView
  networkHeader : View

/-- The bytes a link endpoint sends: the header's used part, then the data. -/
def PacketBuffer.bytes (pkt : PacketBuffer) : List UInt8 :=
  pkt.header.view ++ pkt.data.views.flatten

/-- What the loop of `writePacketFragments` reads and writes: the bytes
`ip` sees, `pkt.Header`, `pkt.Data` and `offset`. -/
structure FragmentState where
  ip : IPv4
  header : Prependable
  data : VectorisedView
  offset : UInt16

/-- `uint16(x)` of a Go `int`: its low 16 bits. -/
def goUint16 (x : Int) : UInt16 :=
  UInt16.ofInt x

/-- The fields of fragment `i` of `n` set through `h`: the total length, the
flags with `MoreFragments` unless it is the last, the offset, then the
checksum. -/
def fillHeader (h : IPv4) (n : Int) (i : Nat) (flags : UInt8) (outerMTU : Int) (dataSize : Nat) (offset : UInt16) :
    IPv4 :=
  let h :=
    if (i : Int) ≠ n - 1 then
      (h.setTotalLength (goUint16 outerMTU)).setFlagsFragmentOffset (flags ||| ipv4FlagMoreFragments) offset
    else
      (h.setTotalLength (h.headerLength.toUInt16 + dataSize.toUInt16)).setFlagsFragmentOffset flags offset
  let h := h.setChecksum 0
  h.setChecksum (~~~h.calculateChecksum)

/-- One pass of the loop of `writePacketFragments`: the packet for fragment
`i` and the state after it. The first fragment reuses `pkt.Header`, and
carries only its first `outerMTU` bytes if it holds more, the rest moving
to the front of `pkt.Data`; a later one gets a fresh header. -/
def writeFragment (n : Int) (flags : UInt8) (innerMTU outerMTU : Int) (originalAvailableLength : Nat) (i : Nat)
    (s : FragmentState) : Option (PacketBuffer × FragmentState) := do
  let ihl := s.ip.headerLength.toNat
  let (header, h) ←
    if i > 0 then do
      let (header, h) ← (Prependable.new (ihl + originalAvailableLength)).prepend ihl
      pure (header, TcpipBuffer.copyBytes h (s.ip.take ihl))
    else pure (s.header, s.ip)
  let h := fillHeader h n i flags outerMTU s.data.size s.offset
  -- `h` aliases the front of the used part of `header`
  let header := header.writeFront h
  let offset := s.offset + goUint16 innerMTU
  if i > 0 then
    let newPayload := s.data.clone.capLength innerMTU
    pure (⟨header, newPayload, h⟩, ⟨s.ip, header, s.data.trimFront newPayload.size, offset⟩)
  else if outerMTU ≥ s.header.usedLength then
    let newPayloadLength := outerMTU - s.header.usedLength
    let newPayload := s.data.clone.capLength newPayloadLength
    pure (⟨header, newPayload, h⟩, ⟨h, header, s.data.trimFront newPayloadLength.toNat, offset⟩)
  else if outerMTU < 0 then none
  else
    let startOfHdr := header.trimBack (s.header.usedLength - outerMTU).toNat
    let restOfHdr := header.view.drop outerMTU.toNat
    let tmp := (VectorisedView.new restOfHdr.length [restOfHdr]).append s.data
    pure (⟨startOfHdr, VectorisedView.new 0 [], h⟩, ⟨h, header, tmp, offset⟩)

/-- The loop of `writePacketFragments` from fragment `i`, with `left` passes
to go: the packets passed to the link endpoint, and its error if one
failed. -/
def writeFragments {E : Type} (linkWrite : PacketBuffer → Option E) (n : Int) (flags : UInt8) (innerMTU outerMTU : Int)
    (originalAvailableLength : Nat) : Nat → Nat → FragmentState → Option (List PacketBuffer × Option E)
  | 0, _, _ => some ([], none)
  | left + 1, i, s =>
      match writeFragment n flags innerMTU outerMTU originalAvailableLength i s with
      | none => none
      | some (pkt, s) =>
          match linkWrite pkt with
          | some err => some ([pkt], some err)
          | none =>
              (writeFragments linkWrite n flags innerMTU outerMTU originalAvailableLength left (i + 1) s).map
                fun sent => (pkt :: sent.1, sent.2)

/-- `writePacketFragments` with the link endpoint `linkWrite` and an `mtu`
that counts the IP header. -/
def writePacketFragments {E : Type} (linkWrite : PacketBuffer → Option E) (mtu : Int) (pkt : PacketBuffer) :
    Option (List PacketBuffer × Option E) :=
  let ip : IPv4 := pkt.header.view
  let flags := ip.flags
  let innerMTU := mtu - ip.headerLength.toNat
  -- `innerMTU &^= 7` rounds down to a multiple of eight, in two's complement also below zero
  let innerMTU := innerMTU - innerMTU % 8
  if innerMTU = 0 then none
  else
    let n := (ip.payloadLength.toNat + innerMTU - 1).tdiv innerMTU
    let outerMTU := innerMTU + ip.headerLength.toNat
    writeFragments linkWrite n flags innerMTU outerMTU pkt.header.availableLength n.toNat 0
      ⟨ip, pkt.header, pkt.data, ip.fragmentOffset⟩

/-- What `Parse` and `HandlePacket` pass `Process` for a fragment received
as `bytes` at `now`: `Parse` pulls up the header, with its options when the
bytes hold them, and cuts the payload to the total length; `HandlePacket`
keys the fragment by its hash and gives the range of its payload. -/
def fragmentArrival (hashIV : UInt32) (now : Int) (bytes : List UInt8) : Arrival :=
  let headerLen := (IPv4.headerLength bytes).toNat
  let hdrLen := if headerLen > ipv4MinimumSize ∧ headerLen ≤ bytes.length then headerLen else ipv4MinimumSize
  let hdr : IPv4 := bytes.take hdrLen
  let data := (bytes.drop hdrLen).take (hdr.totalLength.toNat - hdr.length)
  ⟨ipv4FragmentHash hashIV hdr, hdr.fragmentOffset, hdr.fragmentOffset + data.length.toUInt16 - 1, hdr.more, data,
    now⟩

end Cijitter.Network
