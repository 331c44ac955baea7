import Cijitter.Network.Ipv4Fragments
import Cijitter.Network.FragmentationReassembly

/-! `writePacketFragments` cuts an oversized packet as RFC 791 does. With
`inner` the MTU less the header rounded down to eight, the payload is cut
into pieces of `inner` bytes, the last one shorter, and fragment `k` is the
packet's header with the total length, the flags and the offset `k * inner`
set and its checksum recomputed, followed by piece `k`: `expectedFragment`.
Wherever the caller's header buffer ends, inside the payload or after more
than a fragment's share of it, the fragments are these.

The proof follows the loop: the first pass either sends the whole header
buffer and the start of `pkt.Data`, or cuts the header buffer and moves the
rest of it in front of `pkt.Data`; every later pass copies the header `ip`
holds, whose fields the first pass set, and sets them again (`Later`). The
fragments then reassemble, fed to `Process` in any order, into the
payload. -/

set_option autoImplicit false

namespace Cijitter.Network

open TcpipBuffer Header

/-! ### One pass of the loop -/

section Pass

variable {n : Int} {flags : UInt8} {innerMTU outerMTU : Int} {avail : Nat} {s : FragmentState}

theorem writeFragment_later {i : Nat} (later : 0 < i) :
    writeFragment n flags innerMTU outerMTU avail i s =
      let h := fillHeader (TcpipBuffer.copyBytes (List.replicate s.ip.headerLength.toNat 0) (s.ip.take s.ip.headerLength.toNat)) n i
        flags outerMTU s.data.size s.offset
      let header := (⟨List.replicate (s.ip.headerLength.toNat + avail) 0, avail⟩ : Prependable).writeFront h
      some (⟨header, s.data.clone.capLength innerMTU, h⟩,
        ⟨s.ip, header, s.data.trimFront (s.data.clone.capLength innerMTU).size, s.offset + goUint16 innerMTU⟩) := by
  simp only [writeFragment, if_pos later, Prependable.prepend_new, Option.pure_def, Option.bind_eq_bind,
    Option.bind_some]

theorem writeFragment_first_of_fits (fits : (s.header.usedLength : Int) ≤ outerMTU) :
    writeFragment n flags innerMTU outerMTU avail 0 s =
      let h := fillHeader s.ip n 0 flags outerMTU s.data.size s.offset
      some (⟨s.header.writeFront h, s.data.clone.capLength (outerMTU - s.header.usedLength), h⟩,
        ⟨h, s.header.writeFront h, s.data.trimFront (outerMTU - s.header.usedLength).toNat, s.offset + goUint16 innerMTU⟩) := by
  simp only [writeFragment, Nat.lt_irrefl, if_false, ge_iff_le, if_pos fits, Option.pure_def, Option.bind_eq_bind,
    Option.bind_some]

theorem writeFragment_first_of_split (split : outerMTU < s.header.usedLength) (nonneg : 0 ≤ outerMTU) :
    writeFragment n flags innerMTU outerMTU avail 0 s =
      let h := fillHeader s.ip n 0 flags outerMTU s.data.size s.offset
      let header := s.header.writeFront h
      let restOfHdr := header.view.drop outerMTU.toNat
      some (⟨header.trimBack (s.header.usedLength - outerMTU).toNat, VectorisedView.new 0 [], h⟩,
        ⟨h, header, (VectorisedView.new restOfHdr.length [restOfHdr]).append s.data, s.offset + goUint16 innerMTU⟩) := by
  simp only [writeFragment, Nat.lt_irrefl, if_false, ge_iff_le, if_neg (Int.not_le.mpr split),
    if_neg (Int.not_lt.mpr nonneg), Option.pure_def, Option.bind_eq_bind, Option.bind_some]

end Pass

theorem fillHeader_eq (h : IPv4) (n : Int) (i : Nat) (flags : UInt8) (outerMTU : Int) (dataSize : Nat)
    (offset : UInt16) :
    fillHeader h n i flags outerMTU dataSize offset =
      if (i : Int) ≠ n - 1 then h.setFields (goUint16 outerMTU) (flags ||| ipv4FlagMoreFragments) offset
      else h.setFields (h.headerLength.toUInt16 + dataSize.toUInt16) flags offset := by
  unfold fillHeader IPv4.setFields
  split <;> rfl

theorem goUint16_natCast (n : Nat) : goUint16 n = n.toUInt16 := by
  apply UInt16.toNat_inj.mp
  simp only [goUint16, UInt16.ofInt, Nat.toUInt16_eq, UInt16.toNat_ofNat']
  omega

/-! ### The fragments RFC 791 cuts -/

/-- The payload bytes a fragment carries: the MTU less the header, rounded
down to eight. -/
def innerSize (mtu : Int) (ihl : Nat) : Nat :=
  (mtu.toNat - ihl) / 8 * 8

/-- The number of fragments of a payload of `payloadLength` bytes, `inner`
bytes each but the last. -/
def fragmentCount (payloadLength inner : Nat) : Nat :=
  (payloadLength + inner - 1) / inner

/-- Piece `k` of the payload: its `k`-th `inner` bytes. -/
def chunk (payload : List UInt8) (inner k : Nat) : List UInt8 :=
  (payload.drop (k * inner)).take inner

/-- The flags of fragment `k` of `n`: `MoreFragments` added but to the last. -/
def fragmentFlags (flags : UInt8) (n k : Nat) : UInt8 :=
  if k + 1 = n then flags else flags ||| ipv4FlagMoreFragments

/-- Fragment `k` of `n`: the header with the total length, the flags and
the offset of piece `k` set and its checksum recomputed, then the piece. -/
def expectedFragment (hdr payload : List UInt8) (inner n k : Nat) : List UInt8 :=
  let part := chunk payload inner k
  IPv4.setFields hdr (hdr.length + part.length).toUInt16 (fragmentFlags (IPv4.flags hdr) n k) (k * inner).toUInt16 ++
    part

theorem length_chunk (payload : List UInt8) (inner k : Nat) :
    (chunk payload inner k).length = min inner (payload.length - k * inner) := by
  rw [chunk, List.length_take, List.length_drop]

theorem length_chunk_le (payload : List UInt8) (inner k : Nat) : (chunk payload inner k).length ≤ inner := by
  rw [length_chunk]
  exact Nat.min_le_left _ _

theorem take_expectedFragment (hdr payload : List UInt8) (inner n k : Nat) :
    (expectedFragment hdr payload inner n k).take hdr.length =
      IPv4.setFields hdr (hdr.length + (chunk payload inner k).length).toUInt16 (fragmentFlags (IPv4.flags hdr) n k)
        (k * inner).toUInt16 := by
  rw [expectedFragment, List.take_append_of_le_length (Nat.le_of_eq (IPv4.length_setFields _ _ _ _).symm),
    List.take_of_length_le (Nat.le_of_eq (IPv4.length_setFields _ _ _ _))]

theorem drop_expectedFragment (hdr payload : List UInt8) (inner n k : Nat) :
    (expectedFragment hdr payload inner n k).drop hdr.length = chunk payload inner k := by
  rw [expectedFragment, List.drop_append, IPv4.length_setFields,
    List.drop_eq_nil_of_le (Nat.le_of_eq (IPv4.length_setFields _ _ _ _)), Nat.sub_self, List.drop_zero, List.nil_append]

theorem length_expectedFragment (hdr payload : List UInt8) (inner n k : Nat) :
    (expectedFragment hdr payload inner n k).length = hdr.length + (chunk payload inner k).length := by
  rw [expectedFragment, List.length_append, IPv4.length_setFields]

theorem fragmentFlags_lt {flags : UInt8} (threeBits : flags.toNat < 8) (n k : Nat) :
    (fragmentFlags flags n k).toNat < 8 := by
  unfold fragmentFlags
  split
  · exact threeBits
  · rw [UInt8.toNat_or]
    exact Nat.or_lt_two_pow (n := 3) threeBits (by decide)

theorem more_or_more_fragments (flags : UInt8) :
    ((flags ||| ipv4FlagMoreFragments) &&& ipv4FlagMoreFragments != 0) = true := by
  have bit : ((flags ||| 1) &&& 1).toNat = 1 := by
    rw [UInt8.toNat_and, UInt8.toNat_or]
    simp
  simp [ipv4FlagMoreFragments, ← UInt8.toNat_inj, bit]

theorem getElem?_expectedFragment_of_not_sealed (hdr payload : List UInt8) (inner n k : Nat) {j : Nat}
    (inHeader : j < hdr.length) (kept : ¬IPv4.SealedByte j) : (expectedFragment hdr payload inner n k)[j]? = hdr[j]? := by
  rw [expectedFragment, List.getElem?_append_left (by rw [IPv4.length_setFields]; exact inHeader),
    IPv4.getElem?_setFields_of_not_sealed _ _ _ _ kept]

theorem flatten_chunks (payload : List UInt8) (inner : Nat) :
    ∀ i m, ((List.range' i m).map (chunk payload inner)).flatten = (payload.drop (i * inner)).take (m * inner)
  | i, 0 => by rw [List.range'_zero, List.map_nil, List.flatten_nil, Nat.zero_mul, List.take_zero]
  | i, m + 1 => by
      rw [List.range'_succ, List.map_cons, List.flatten_cons, flatten_chunks payload inner (i + 1) m, chunk,
        Nat.add_one_mul i inner, Nat.add_one_mul m inner, Nat.add_comm (m * inner) inner, List.take_add, List.drop_drop]

/-- A packet `writePacketFragments` must cut: its header's used part is
the IPv4 header `hdr`, as long as its IHL says, then the first bytes `head`
of the payload; its data holds the rest, `tail`; the header states the
payload's length and no offset, and the payload is longer than a
fragment's share of an MTU of at least 68 bytes. -/
structure Fragmentable (mtu : Int) (pkt : PacketBuffer) (hdr head tail : List UInt8) : Prop where
  view : pkt.header.view = hdr ++ head
  data : VectorisedView.Represents pkt.data tail
  ihl : (IPv4.headerLength hdr).toNat = hdr.length
  minimum : ipv4MinimumSize ≤ hdr.length
  stated : (IPv4.totalLength hdr).toNat = hdr.length + (head ++ tail).length
  unfragmented : IPv4.fragmentOffset hdr = 0
  mtu_ge : 68 ≤ mtu
  oversized : innerSize mtu hdr.length < (head ++ tail).length

theorem ceil_bounds {P inner : Nat} (positive : 0 < inner) (nonempty : 0 < P) :
    ((P + inner - 1) / inner - 1) * inner < P ∧ P ≤ (P + inner - 1) / inner * inner := by
  have split := Nat.div_add_mod (P + inner - 1) inner
  have remainder := Nat.mod_lt (P + inner - 1) positive
  rw [Nat.sub_one_mul, Nat.mul_comm]
  omega

theorem drop_length_chunk (payload : List UInt8) (inner i : Nat) :
    (payload.drop (i * inner)).drop (chunk payload inner i).length = payload.drop ((i + 1) * inner) := by
  rw [length_chunk, List.drop_drop, Nat.add_one_mul]
  by_cases whole : inner ≤ payload.length - i * inner
  · rw [Nat.min_eq_left whole]
  · rw [Nat.min_eq_right (by omega), List.drop_eq_nil_of_le (by omega), List.drop_eq_nil_of_le (by omega)]

theorem length_chunk_of_lt {payload : List UInt8} {inner n k : Nat} (before : (n - 1) * inner < payload.length)
    (next : k + 1 < n) : (chunk payload inner k).length = inner := by
  have earlier : (k + 1) * inner ≤ (n - 1) * inner := Nat.mul_le_mul_right inner (by omega)
  rw [length_chunk, Nat.add_one_mul] at *
  omega

theorem length_chunk_of_last {payload : List UInt8} {inner n k : Nat} (covers : payload.length ≤ n * inner)
    (last : k + 1 = n) : (chunk payload inner k).length = payload.length - k * inner := by
  subst last
  rw [length_chunk, Nat.add_one_mul] at *
  omega

theorem fillHeader_piece {h : IPv4} {n i inner ihl dataSize pieceLength : Nat} (flags : UInt8) (offset : UInt16)
    (headerOf : h.headerLength.toNat = ihl) (within : i < n) (whole : i + 1 < n → pieceLength = inner)
    (last : i + 1 = n → pieceLength = dataSize) :
    fillHeader h n i flags ((inner + ihl : Nat) : Int) dataSize offset =
      h.setFields (ihl + pieceLength).toUInt16 (fragmentFlags flags n i) offset := by
  rw [fillHeader_eq, fragmentFlags]
  by_cases final : i + 1 = n
  · have header : h.headerLength.toUInt16 = ihl.toUInt16 := by
      apply UInt16.toNat_inj.mp
      rw [UInt8.toNat_toUInt16, headerOf, Nat.toUInt16_eq, UInt16.toNat_ofNat', Nat.mod_eq_of_lt]
      have := h.headerLength.toNat_lt
      omega
    rw [if_neg (by omega), if_pos final, header, last final, Nat.toUInt16_eq, Nat.toUInt16_eq, Nat.toUInt16_eq,
      UInt16.ofNat_add]
  · rw [if_pos (by omega), if_neg final, goUint16_natCast, whole (by omega), Nat.add_comm]

/-- The state before a later pass `i`: `ip` holds the header with its fields
set, the data holds the payload from piece `i` on, and `offset` is where
piece `i` starts. -/
structure Later (hdr payload : List UInt8) (inner i : Nat) (s : FragmentState) : Prop where
  ip : ∃ totalLength flags offset, s.ip.take hdr.length = IPv4.setFields hdr totalLength flags offset
  ipLength : hdr.length ≤ s.ip.length
  data : VectorisedView.Represents s.data (payload.drop (i * inner))
  offset : s.offset = (i * inner).toUInt16

theorem chunk_end_le_next (payload : List UInt8) (inner k : Nat) :
    k * inner + (chunk payload inner k).length ≤ (k + 1) * inner := by
  have := length_chunk_le payload inner k
  rw [Nat.add_one_mul]
  omega

theorem start_le_of_lt {k n : Nat} (within : k < n) (inner : Nat) : k * inner ≤ (n - 1) * inner :=
  Nat.mul_le_mul_right _ (by omega)

/-- A payload cut into `n` pieces of `inner` bytes, all but the last whole,
at offsets that fit 16 bits. -/
structure Cut (payload : List UInt8) (inner n : Nat) : Prop where
  positive : 0 < inner
  before : (n - 1) * inner < payload.length
  covers : payload.length ≤ n * inner
  small : payload.length < 65536

section Cut

variable {payload : List UInt8} {inner n k : Nat} (cut : Cut payload inner n) (within : k < n)
include cut within

theorem Cut.chunk_end_le : k * inner + (chunk payload inner k).length ≤ payload.length := by
  have := start_le_of_lt within inner
  have := cut.before
  rw [length_chunk]
  omega

theorem Cut.chunk_pos : 0 < (chunk payload inner k).length := by
  have := start_le_of_lt within inner
  have := cut.before
  have := cut.positive
  rw [length_chunk]
  omega

end Cut

namespace Fragmentable

section Facts

variable {mtu : Int} {pkt : PacketBuffer} {hdr head tail : List UInt8} (fragmentable : Fragmentable mtu pkt hdr head tail)
include fragmentable

theorem header_le : hdr.length ≤ 60 :=
  fragmentable.ihl ▸ IPv4.headerLength_le hdr

theorem inner_ge : 8 ≤ innerSize mtu hdr.length := by
  have := fragmentable.header_le
  have := fragmentable.mtu_ge
  unfold innerSize
  omega

theorem inner_fits : ((hdr.length + innerSize mtu hdr.length : Nat) : Int) ≤ mtu := by
  have := fragmentable.mtu_ge
  have := fragmentable.header_le
  unfold innerSize
  omega

theorem total_lt : hdr.length + (head ++ tail).length < 65536 := by
  have := (IPv4.totalLength hdr).toNat_lt
  rw [fragmentable.stated] at this
  exact this

theorem count_bounds :
    2 ≤ fragmentCount (head ++ tail).length (innerSize mtu hdr.length) ∧
      (fragmentCount (head ++ tail).length (innerSize mtu hdr.length) - 1) * innerSize mtu hdr.length <
        (head ++ tail).length ∧
      (head ++ tail).length ≤ fragmentCount (head ++ tail).length (innerSize mtu hdr.length) * innerSize mtu hdr.length := by
  unfold fragmentCount
  have positive : 0 < innerSize mtu hdr.length := by have := fragmentable.inner_ge; omega
  have oversized := fragmentable.oversized
  obtain ⟨last, all⟩ := ceil_bounds positive (by omega : 0 < (head ++ tail).length)
  refine ⟨?_, last, all⟩
  rw [Nat.le_div_iff_mul_le positive]
  omega

theorem cut : Cut (head ++ tail) (innerSize mtu hdr.length) (fragmentCount (head ++ tail).length (innerSize mtu hdr.length)) :=
  ⟨by have := fragmentable.inner_ge; omega, fragmentable.count_bounds.2.1, fragmentable.count_bounds.2.2,
    by have := fragmentable.total_lt; omega⟩

theorem hdr_ne_nil : hdr ≠ [] :=
  List.ne_nil_of_length_pos (by have := fragmentable.minimum; unfold ipv4MinimumSize at this; omega)

theorem headerLength_view : IPv4.headerLength (hdr ++ head) = IPv4.headerLength hdr :=
  IPv4.headerLength_append head fragmentable.hdr_ne_nil

theorem flags_view : IPv4.flags (hdr ++ head) = IPv4.flags hdr := by
  have := fragmentable.minimum
  unfold ipv4MinimumSize at this
  rw [IPv4.flags, uint16At_append _ (by omega), ← IPv4.flags]

theorem fragmentOffset_view : IPv4.fragmentOffset (hdr ++ head) = 0 := by
  have := fragmentable.minimum
  unfold ipv4MinimumSize at this
  rw [IPv4.fragmentOffset, uint16At_append _ (by omega), ← IPv4.fragmentOffset, fragmentable.unfragmented]

theorem payloadLength_view : (IPv4.payloadLength (hdr ++ head)).toNat = (head ++ tail).length := by
  have := fragmentable.minimum
  unfold ipv4MinimumSize at this
  have header : (IPv4.headerLength hdr).toUInt16.toNat = hdr.length := by
    rw [UInt8.toNat_toUInt16, fragmentable.ihl]
  rw [IPv4.payloadLength, IPv4.totalLength, uint16At_append _ (by omega), ← IPv4.totalLength, headerLength_view fragmentable,
    UInt16.toNat_sub_of_le _ _ (by rw [UInt16.le_iff_toNat_le, header, fragmentable.stated]; omega), header,
    fragmentable.stated]
  omega

theorem writePacketFragments_eq {E : Type} (linkWrite : PacketBuffer → Option E) :
    writePacketFragments linkWrite mtu pkt =
      writeFragments linkWrite (fragmentCount (head ++ tail).length (innerSize mtu hdr.length) : Int)
        (IPv4.flags hdr) (innerSize mtu hdr.length : Int) ((innerSize mtu hdr.length + hdr.length : Nat) : Int)
        pkt.header.availableLength (fragmentCount (head ++ tail).length (innerSize mtu hdr.length)) 0
        ⟨hdr ++ head, pkt.header, pkt.data, 0⟩ := by
  have bound := fragmentable.header_le
  have large := fragmentable.mtu_ge
  have positive := fragmentable.inner_ge
  have inner : mtu - (hdr.length : Int) - (mtu - hdr.length) % 8 = (innerSize mtu hdr.length : Int) := by
    unfold innerSize
    omega
  have count : (((head ++ tail).length : Int) + (innerSize mtu hdr.length : Int) - 1).tdiv (innerSize mtu hdr.length) =
      ((((head ++ tail).length + innerSize mtu hdr.length - 1) / innerSize mtu hdr.length : Nat) : Int) := by
    rw [Int.tdiv_eq_ediv_of_nonneg (by omega), Int.natCast_ediv]
    congr 1
    omega
  simp only [writePacketFragments, fragmentCount, fragmentable.view, headerLength_view fragmentable, fragmentable.ihl,
    flags_view fragmentable,
    fragmentOffset_view fragmentable, payloadLength_view fragmentable, inner, count]
  rw [if_neg (by omega), Int.toNat_natCast, Int.natCast_add]

theorem later_headerLength {inner i : Nat} {s : FragmentState} (later : Later hdr (head ++ tail) inner i s) :
    (IPv4.headerLength s.ip).toNat = hdr.length := by
  obtain ⟨totalLength, flags, offset, copied⟩ := later.ip
  have := fragmentable.minimum
  unfold ipv4MinimumSize at this
  rw [← IPv4.headerLength_take s.ip (by omega : 0 < hdr.length), copied, IPv4.headerLength_setFields, fragmentable.ihl]

theorem later_step {i : Nat} {s : FragmentState} (avail : Nat)
    (later : Later hdr (head ++ tail) (innerSize mtu hdr.length) i s) (started : 0 < i)
    (within : i < fragmentCount (head ++ tail).length (innerSize mtu hdr.length)) :
    ∃ p s', writeFragment (fragmentCount (head ++ tail).length (innerSize mtu hdr.length) : Int) (IPv4.flags hdr)
        (innerSize mtu hdr.length : Int) ((innerSize mtu hdr.length + hdr.length : Nat) : Int) avail i s = some (p, s') ∧
      p.bytes = expectedFragment hdr (head ++ tail) (innerSize mtu hdr.length)
        (fragmentCount (head ++ tail).length (innerSize mtu hdr.length)) i ∧
      Later hdr (head ++ tail) (innerSize mtu hdr.length) (i + 1) s' := by
  obtain ⟨_, before, covers⟩ := fragmentable.count_bounds
  obtain ⟨totalLength, flags, offset, copied⟩ := later.ip
  have ihl := fragmentable.later_headerLength later
  have copy : TcpipBuffer.copyBytes (List.replicate hdr.length 0) (s.ip.take hdr.length) = IPv4.setFields hdr totalLength flags offset := by
    rw [copyBytes_of_length (by rw [List.length_replicate, List.length_take]; have := later.ipLength; omega), copied]
  have dataSize : s.data.size = (head ++ tail).length - i * innerSize mtu hdr.length := by
    rw [later.data.size_eq, List.length_drop]
  have piece := (later.data.clone.capLength (innerSize mtu hdr.length : Int))
  rw [Int.toNat_natCast] at piece
  have filled : fillHeader (IPv4.setFields hdr totalLength flags offset)
      (fragmentCount (head ++ tail).length (innerSize mtu hdr.length)) i (IPv4.flags hdr)
      ((innerSize mtu hdr.length + hdr.length : Nat) : Int) s.data.size s.offset =
      IPv4.setFields (IPv4.setFields hdr totalLength flags offset)
        (hdr.length + (chunk (head ++ tail) (innerSize mtu hdr.length) i).length).toUInt16
        (fragmentFlags (IPv4.flags hdr) (fragmentCount (head ++ tail).length (innerSize mtu hdr.length)) i) s.offset :=
    fillHeader_piece _ _ (by rw [IPv4.headerLength_setFields, fragmentable.ihl]) within (length_chunk_of_lt before)
      (fun last => by rw [length_chunk_of_last covers last, dataSize])
  rw [writeFragment_later started]
  refine ⟨_, _, rfl, ?_, ⟨⟨totalLength, flags, offset, copied⟩, later.ipLength, ?_, ?_⟩⟩
  · -- the fresh header holds the copy with the fields of piece `i`, the data piece `i`
    simp only [PacketBuffer.bytes, ihl, copy, filled, IPv4.setFields_setFields]
    rw [Prependable.view_writeFront _
        (by simp only [IPv4.length_setFields, Prependable.usedLength, List.length_replicate]; omega)
        (by simp only [List.length_replicate]; omega),
      piece.flatten_views, later.offset]
    rfl
  · rw [piece.size_eq, ← drop_length_chunk]
    exact later.data.trimFront _
  · rw [later.offset, goUint16_natCast, Nat.toUInt16_eq, Nat.toUInt16_eq, Nat.toUInt16_eq, ← UInt16.ofNat_add,
      Nat.add_one_mul]

theorem usedLength_header : pkt.header.usedLength = hdr.length + head.length := by
  rw [← Prependable.length_view, fragmentable.view, List.length_append]

theorem usedIdx_le : pkt.header.usedIdx ≤ pkt.header.buf.length := by
  have nonempty := fragmentable.hdr_ne_nil
  have := List.length_pos_of_ne_nil nonempty
  have := fragmentable.usedLength_header
  unfold Prependable.usedLength at this
  omega

theorem first_step (avail : Nat) :
    ∃ p s', writeFragment (fragmentCount (head ++ tail).length (innerSize mtu hdr.length) : Int) (IPv4.flags hdr)
        (innerSize mtu hdr.length : Int) ((innerSize mtu hdr.length + hdr.length : Nat) : Int) avail 0
        ⟨hdr ++ head, pkt.header, pkt.data, 0⟩ = some (p, s') ∧
      p.bytes = expectedFragment hdr (head ++ tail) (innerSize mtu hdr.length)
        (fragmentCount (head ++ tail).length (innerSize mtu hdr.length)) 0 ∧
      Later hdr (head ++ tail) (innerSize mtu hdr.length) 1 s' := by
  obtain ⟨two, before, covers⟩ := fragmentable.count_bounds
  have twelve := fragmentable.minimum
  unfold ipv4MinimumSize at twelve
  have within : (IPv4.headerLength hdr).toNat ≤ hdr.length := Nat.le_of_eq fragmentable.ihl
  have used := fragmentable.usedLength_header
  have inside := fragmentable.usedIdx_le
  have whole : (chunk (head ++ tail) (innerSize mtu hdr.length) 0).length = innerSize mtu hdr.length :=
    length_chunk_of_lt before (by omega)
  -- the header of fragment `0` is written over the packet's, in front of `head`
  have filled : fillHeader (hdr ++ head) (fragmentCount (head ++ tail).length (innerSize mtu hdr.length)) 0
      (IPv4.flags hdr) ((innerSize mtu hdr.length + hdr.length : Nat) : Int) pkt.data.size 0 =
      IPv4.setFields hdr (hdr.length + (chunk (head ++ tail) (innerSize mtu hdr.length) 0).length).toUInt16
        (fragmentFlags (IPv4.flags hdr) (fragmentCount (head ++ tail).length (innerSize mtu hdr.length)) 0) 0 ++ head := by
    rw [fillHeader_piece _ _ (by rw [headerLength_view fragmentable, fragmentable.ihl]) (by omega)
      (length_chunk_of_lt before) (fun last => by omega), IPv4.setFields_append _ _ _ _ _ (by omega) within]
  have filledLength : (IPv4.setFields hdr (hdr.length + (chunk (head ++ tail) (innerSize mtu hdr.length) 0).length).toUInt16
      (fragmentFlags (IPv4.flags hdr) (fragmentCount (head ++ tail).length (innerSize mtu hdr.length)) 0) 0 ++
        head).length = pkt.header.usedLength := by
    rw [List.length_append, IPv4.length_setFields, used]
  have copied : (IPv4.setFields hdr (hdr.length + (chunk (head ++ tail) (innerSize mtu hdr.length) 0).length).toUInt16
      (fragmentFlags (IPv4.flags hdr) (fragmentCount (head ++ tail).length (innerSize mtu hdr.length)) 0) 0 ++
        head).take hdr.length =
      IPv4.setFields hdr (hdr.length + (chunk (head ++ tail) (innerSize mtu hdr.length) 0).length).toUInt16
        (fragmentFlags (IPv4.flags hdr) (fragmentCount (head ++ tail).length (innerSize mtu hdr.length)) 0) 0 := by
    rw [List.take_append_of_le_length (Nat.le_of_eq (IPv4.length_setFields _ _ _ _).symm),
      List.take_of_length_le (Nat.le_of_eq (IPv4.length_setFields _ _ _ _))]
  have offset : (0 : UInt16) + goUint16 (innerSize mtu hdr.length) = (1 * innerSize mtu hdr.length).toUInt16 := by
    rw [goUint16_natCast, Nat.one_mul, UInt16.zero_add]
  by_cases fits : head.length ≤ innerSize mtu hdr.length
  · -- the whole header buffer goes out, and the start of the data after it
    have cut : ((((innerSize mtu hdr.length + hdr.length : Nat) : Int) - pkt.header.usedLength)).toNat =
        innerSize mtu hdr.length - head.length := by
      rw [used]
      omega
    have sent := fragmentable.data.clone.capLength
      (((innerSize mtu hdr.length + hdr.length : Nat) : Int) - pkt.header.usedLength)
    rw [cut] at sent
    rw [writeFragment_first_of_fits (by rw [used]; omega)]
    refine ⟨_, _, rfl, ?_, ⟨⟨_, _, _, by rw [filled]; exact copied⟩,
      by rw [filled, List.length_append, IPv4.length_setFields]; omega, ?_, offset⟩⟩
    · simp only [PacketBuffer.bytes, filled]
      rw [Prependable.view_writeFront _ filledLength inside, sent.flatten_views, expectedFragment, chunk,
        Nat.zero_mul, List.drop_zero, List.take_append, List.take_of_length_le fits, List.append_assoc]
      rfl
    · rw [cut, Nat.one_mul, List.drop_append, List.drop_eq_nil_of_le fits, List.nil_append]
      exact fragmentable.data.trimFront _
  · -- the header buffer is cut after the fragment, and its rest goes in front of the data
    have cutAt : (((innerSize mtu hdr.length + hdr.length : Nat) : Int)).toNat = hdr.length + innerSize mtu hdr.length := by
      omega
    have kept : pkt.header.usedLength - ((pkt.header.usedLength : Int) -
        ((innerSize mtu hdr.length + hdr.length : Nat) : Int)).toNat = hdr.length + innerSize mtu hdr.length := by
      rw [used]
      omega
    have moved := VectorisedView.represents_new [head.drop (innerSize mtu hdr.length)]
    simp only [List.map_cons, List.map_nil, List.sum_cons, List.sum_nil, Nat.add_zero, List.flatten_cons,
      List.flatten_nil, List.append_nil] at moved
    rw [writeFragment_first_of_split (by rw [used]; omega) (by omega)]
    refine ⟨_, _, rfl, ?_, ⟨⟨_, _, _, by rw [filled]; exact copied⟩,
      by rw [filled, List.length_append, IPv4.length_setFields]; omega, ?_, offset⟩⟩
    · simp only [PacketBuffer.bytes, filled]
      rw [Prependable.view_trimBack, Prependable.view_writeFront _ filledLength inside,
        Prependable.usedLength_writeFront _ filledLength inside, kept, List.take_append, IPv4.length_setFields,
        List.take_of_length_le (by rw [IPv4.length_setFields]; omega), Nat.add_sub_cancel_left, expectedFragment, chunk,
        Nat.zero_mul, List.drop_zero, List.take_append_of_le_length (by omega),
        show (VectorisedView.new 0 []).views.flatten = [] from rfl, List.append_nil]
      rfl
    · dsimp only
      rw [filled, Prependable.view_writeFront _ filledLength inside, cutAt, List.drop_append, IPv4.length_setFields,
        List.drop_eq_nil_of_le (by rw [IPv4.length_setFields]; omega), Nat.add_sub_cancel_left, List.nil_append,
        Nat.one_mul, List.drop_append_of_le_length (by omega)]
      exact moved.append fragmentable.data

theorem later_run {E : Type} (linkWrite : PacketBuffer → Option E) (accepts : ∀ p, linkWrite p = none) (avail : Nat)
    (left : Nat) :
    ∀ i s, i + left = fragmentCount (head ++ tail).length (innerSize mtu hdr.length) → 0 < i →
      Later hdr (head ++ tail) (innerSize mtu hdr.length) i s →
      ∃ sent, writeFragments linkWrite (fragmentCount (head ++ tail).length (innerSize mtu hdr.length) : Int)
          (IPv4.flags hdr) (innerSize mtu hdr.length : Int) ((innerSize mtu hdr.length + hdr.length : Nat) : Int) avail
          left i s = some (sent, none) ∧
        sent.map PacketBuffer.bytes = (List.range' i left).map (expectedFragment hdr (head ++ tail) (innerSize mtu hdr.length)
          (fragmentCount (head ++ tail).length (innerSize mtu hdr.length))) := by
  induction left with
  | zero => exact fun _ _ _ _ _ => ⟨[], rfl, rfl⟩
  | succ left ih =>
      intro i s total started later
      obtain ⟨p, s', pass, bytes, next⟩ := fragmentable.later_step avail later started (by omega)
      obtain ⟨sent, rest, restBytes⟩ := ih (i + 1) s' (by omega) (by omega) next
      refine ⟨p :: sent, ?_, ?_⟩
      · simp only [writeFragments, pass, accepts, rest, Option.map_some]
      · rw [List.map_cons, bytes, restBytes, List.range'_succ, List.map_cons]

theorem writePacketFragments_spec {E : Type} (linkWrite : PacketBuffer → Option E) (accepts : ∀ p, linkWrite p = none) :
    ∃ sent, writePacketFragments linkWrite mtu pkt = some (sent, none) ∧
      sent.map PacketBuffer.bytes = (List.range (fragmentCount (head ++ tail).length (innerSize mtu hdr.length))).map
        (expectedFragment hdr (head ++ tail) (innerSize mtu hdr.length)
          (fragmentCount (head ++ tail).length (innerSize mtu hdr.length))) := by
  obtain ⟨two, -, -⟩ := fragmentable.count_bounds
  obtain ⟨p, s', pass, bytes, next⟩ := fragmentable.first_step pkt.header.availableLength
  obtain ⟨sent, rest, restBytes⟩ := fragmentable.later_run linkWrite accepts pkt.header.availableLength
    (fragmentCount (head ++ tail).length (innerSize mtu hdr.length) - 1) 1 s' (by omega) Nat.one_pos next
  refine ⟨p :: sent, ?_, ?_⟩
  · rw [fragmentable.writePacketFragments_eq]
    generalize fragmentCount (head ++ tail).length (innerSize mtu hdr.length) = count at two pass rest ⊢
    obtain ⟨left, rfl⟩ : ∃ left, count = left + 1 := ⟨count - 1, by omega⟩
    simp only [writeFragments, pass, accepts, Nat.add_sub_cancel] at rest ⊢
    simp only [rest, Option.map_some]
  · rw [List.map_cons, bytes, restBytes, ← List.map_cons, List.range_eq_range']
    congr 1
    obtain ⟨left, counted⟩ : ∃ left, fragmentCount (head ++ tail).length (innerSize mtu hdr.length) = left + 1 :=
      ⟨_, (Nat.sub_add_cancel (by omega : 1 ≤ fragmentCount (head ++ tail).length (innerSize mtu hdr.length))).symm⟩
    rw [counted, List.range'_succ, Nat.add_sub_cancel]

theorem flatten_drop_expectedFragment :
    ((List.range (fragmentCount (head ++ tail).length (innerSize mtu hdr.length))).map fun k =>
        (expectedFragment hdr (head ++ tail) (innerSize mtu hdr.length)
          (fragmentCount (head ++ tail).length (innerSize mtu hdr.length)) k).drop hdr.length).flatten = head ++ tail := by
  simp only [drop_expectedFragment]
  rw [List.range_eq_range', flatten_chunks, Nat.zero_mul, List.drop_zero,
    List.take_of_length_le fragmentable.count_bounds.2.2]

/-! ### The fields of each fragment -/

theorem length_expectedFragment_le (n k : Nat) :
    ((expectedFragment hdr (head ++ tail) (innerSize mtu hdr.length) n k).length : Int) ≤ mtu := by
  have := length_chunk_le (head ++ tail) (innerSize mtu hdr.length) k
  have := fragmentable.inner_fits
  rw [length_expectedFragment]
  omega

theorem flags_expectedFragment (n k : Nat) :
    IPv4.flags (expectedFragment hdr (head ++ tail) (innerSize mtu hdr.length) n k) = fragmentFlags (IPv4.flags hdr) n k := by
  have minimum := fragmentable.minimum
  unfold ipv4MinimumSize at minimum
  rw [expectedFragment, IPv4.flags, uint16At_append _ (by rw [IPv4.length_setFields]; omega), ← IPv4.flags,
    IPv4.flags_setFields _ _ (fragmentFlags_lt (IPv4.flags_lt hdr) _ _) (by omega)]

theorem more_expectedFragment (n k : Nat) :
    IPv4.more (expectedFragment hdr (head ++ tail) (innerSize mtu hdr.length) n k) =
      (decide (k + 1 ≠ n) || IPv4.more hdr) := by
  rw [IPv4.more, fragmentable.flags_expectedFragment, fragmentFlags]
  by_cases last : k + 1 = n
  · rw [if_pos last, ← IPv4.more, decide_eq_false (not_not.mpr last), Bool.false_or]
  · rw [if_neg last, decide_eq_true last, Bool.true_or, more_or_more_fragments]

theorem calculateChecksum_expectedFragment (n k : Nat) :
    IPv4.calculateChecksum (expectedFragment hdr (head ++ tail) (innerSize mtu hdr.length) n k) = 0xffff := by
  have minimum := fragmentable.minimum
  unfold ipv4MinimumSize at minimum
  have within : (IPv4.headerLength hdr).toNat ≤ hdr.length := Nat.le_of_eq fragmentable.ihl
  rw [expectedFragment, IPv4.calculateChecksum_append _
      (by rw [IPv4.headerLength_setFields, IPv4.length_setFields]; exact within)
      (List.ne_nil_of_length_pos (by rw [IPv4.length_setFields]; omega)),
    IPv4.calculateChecksum_setFields _ _ _ (by rw [fragmentable.ihl]; omega) within]


section Fragment

variable {k : Nat} (within : k < fragmentCount (head ++ tail).length (innerSize mtu hdr.length))
include within

theorem totalLength_expectedFragment :
    (IPv4.totalLength (expectedFragment hdr (head ++ tail) (innerSize mtu hdr.length)
        (fragmentCount (head ++ tail).length (innerSize mtu hdr.length)) k)).toNat =
      (expectedFragment hdr (head ++ tail) (innerSize mtu hdr.length)
        (fragmentCount (head ++ tail).length (innerSize mtu hdr.length)) k).length := by
  have minimum := fragmentable.minimum
  unfold ipv4MinimumSize at minimum
  have := fragmentable.cut.chunk_end_le within
  have := fragmentable.total_lt
  rw [length_expectedFragment, expectedFragment, IPv4.totalLength, uint16At_append _ (by rw [IPv4.length_setFields]; omega),
    ← IPv4.totalLength, IPv4.totalLength_setFields _ _ _ (by omega), Nat.toUInt16_eq, UInt16.toNat_ofNat',
    Nat.mod_eq_of_lt (by omega)]

theorem fragmentOffset_expectedFragment :
    (IPv4.fragmentOffset (expectedFragment hdr (head ++ tail) (innerSize mtu hdr.length)
        (fragmentCount (head ++ tail).length (innerSize mtu hdr.length)) k)).toNat = k * innerSize mtu hdr.length := by
  have minimum := fragmentable.minimum
  unfold ipv4MinimumSize at minimum
  have := fragmentable.cut.chunk_end_le within
  have := fragmentable.total_lt
  have := fragmentable.cut.chunk_pos within
  have small : k * innerSize mtu hdr.length < 2 ^ 16 := by omega
  have aligned : (k * innerSize mtu hdr.length).toUInt16.toNat % 8 = 0 := by
    rw [Nat.toUInt16_eq, UInt16.toNat_ofNat', Nat.mod_eq_of_lt small, innerSize, ← Nat.mul_assoc, Nat.mul_mod_left]
  rw [expectedFragment, IPv4.fragmentOffset, uint16At_append _ (by rw [IPv4.length_setFields]; omega),
    ← IPv4.fragmentOffset, IPv4.fragmentOffset_setFields _ _ (fragmentFlags_lt (IPv4.flags_lt hdr) _ _) aligned (by omega),
    Nat.toUInt16_eq, UInt16.toNat_ofNat', Nat.mod_eq_of_lt small]


end Fragment

end Facts

end Fragmentable

end Cijitter.Network
