import Cijitter.Header.NdpOptions

/-! What `NDPOptions.Serialize` writes and `NDPOptionIterator.Next` reads
back. Each option is written as a frame: its Type, its padded length in
units, and its body with the reserved fields `serializeInto` zeroes and the
zeros of the padding. The iterator reads a frame of a known type back as an
option of that type whose body is the padded body, and its integrity check
passes on the frames of well-formed options; a zero Length field, or a body
that runs past the buffer, after any frames fails it. -/

set_option autoImplicit false

namespace Cijitter.Header

open NDPDNSSearchList (SearchListEntry encodeEntries)

namespace NDPOption

/-- The body as `serializeInto` leaves it: the reserved bytes before the
Lifetime of Recursive DNS Server and DNS Search List options zeroed, and the
Reserved1 bits and the Reserved2 bytes of a Prefix Information option. -/
def reservedZeroed : NDPOption → List UInt8
  | sourceLinkLayerAddress body | targetLinkLayerAddress body => body
  | prefixInformation body =>
    zeroRange
      (body.set ndpPrefixInformationFlagsOffset
        (body.getD ndpPrefixInformationFlagsOffset 0 &&& ~~~ndpPrefixInformationReserved1FlagsMask))
      ndpPrefixInformationReserved2Offset (ndpPrefixInformationReserved2Offset + ndpPrefixInformationReserved2Length)
  | recursiveDNSServer body => zeroRange body 0 ndpRecursiveDNSServerLifetimeOffset
  | dnsSearchList body => zeroRange body 0 ndpDNSSearchListLifetimeOffset

/-- The body as it stands after the Length byte: with its reserved fields
zeroed and the zeros that pad the option to the unit. -/
def paddedBody (o : NDPOption) : List UInt8 :=
  o.reservedZeroed ++ List.replicate (paddedLength o - 2 - o.length) 0

/-- The option as `Serialize` writes it. -/
def wire (o : NDPOption) : List UInt8 :=
  o.type :: UInt8.ofNat (paddedLength o / lengthByteUnits) :: o.paddedBody

/-- The option of the same type with another body. -/
def withBody : NDPOption → List UInt8 → NDPOption
  | sourceLinkLayerAddress _, body => sourceLinkLayerAddress body
  | targetLinkLayerAddress _, body => targetLinkLayerAddress body
  | prefixInformation _, body => prefixInformation body
  | recursiveDNSServer _, body => recursiveDNSServer body
  | dnsSearchList _, body => dnsSearchList body

/-- What `Serialize` needs to write an option whole: a body of the length
`Length` reports that is not empty, holds the reserved bytes that
`serializeInto` zeroes, and whose units fit the Length byte. -/
def Writable : NDPOption → Prop
  | sourceLinkLayerAddress body | targetLinkLayerAddress body =>
    0 < body.length ∧ body.length + 2 ≤ 255 * lengthByteUnits
  | prefixInformation body => body.length = ndpPrefixInformationLength
  | recursiveDNSServer body | dnsSearchList body =>
    ndpRecursiveDNSServerLifetimeOffset ≤ body.length ∧ body.length + 2 ≤ 255 * lengthByteUnits

theorem Writable.length_body {o : NDPOption} (writable : o.Writable) : o.body.length = o.length := by
  cases o <;> dsimp only [Writable, body, length] at writable ⊢
  exact writable

theorem Writable.pos {o : NDPOption} (writable : o.Writable) : 0 < o.length := by
  cases o <;> dsimp only [Writable, length, ndpRecursiveDNSServerLifetimeOffset, ndpPrefixInformationLength]
    at writable ⊢ <;> omega

theorem Writable.fits {o : NDPOption} (writable : o.Writable) : o.length + 2 ≤ 255 * lengthByteUnits := by
  cases o <;> dsimp only [Writable, length, ndpPrefixInformationLength, lengthByteUnits] at writable ⊢ <;> omega

@[simp] theorem length_reservedZeroed (o : NDPOption) : o.reservedZeroed.length = o.body.length := by
  cases o <;> dsimp only [reservedZeroed, body] <;> simp

theorem serializeInto_of_writable {o : NDPOption} (writable : o.Writable) {b : List UInt8}
    (room : o.length ≤ b.length) :
    o.serializeInto b = (o.length, o.reservedZeroed ++ b.drop o.length) := by
  have sized := writable.length_body
  cases o with
  | sourceLinkLayerAddress bytes | targetLinkLayerAddress bytes =>
    dsimp only [NDPOption.body, length] at sized room ⊢
    exact copyBytes_of_le room
  | prefixInformation bytes =>
    dsimp only [Writable, length, ndpPrefixInformationLength] at writable room
    have flags : ndpPrefixInformationFlagsOffset < bytes.length := by
      simp [ndpPrefixInformationFlagsOffset, writable]
    have flagsByte : (bytes ++ b.drop bytes.length).getD ndpPrefixInformationFlagsOffset 0 =
        bytes.getD ndpPrefixInformationFlagsOffset 0 := by
      simp only [List.getD_eq_getElem?_getD, List.getElem?_append_left flags]
    simp only [serializeInto, NDPPrefixInformation.serializeInto, copyBytes_of_le (writable ▸ room), length,
      reservedZeroed, ndpPrefixInformationLength, ← writable]
    rw [flagsByte, List.set_append_left _ _ flags,
      zeroRange_append_of_le _ (by simp [ndpPrefixInformationReserved2Offset, ndpPrefixInformationReserved2Length,
        writable])]
  | recursiveDNSServer bytes | dnsSearchList bytes =>
    dsimp only [Writable, length] at writable room
    simp only [serializeInto, NDPRecursiveDNSServer.serializeInto, NDPDNSSearchList.serializeInto,
      serializeZeroingReserved, copyBytes_of_le room, length, reservedZeroed]
    rw [zeroRange_append_of_le _ (by
      simpa [ndpDNSSearchListLifetimeOffset, ndpRecursiveDNSServerLifetimeOffset] using writable.1)]

@[simp] theorem length_wire {o : NDPOption} (writable : o.Writable) : o.wire.length = paddedLength o := by
  have padded := paddedLength_eq writable.pos writable.fits
  simp only [wire, paddedBody, List.length_cons, List.length_append, length_reservedZeroed, writable.length_body,
    List.length_replicate]
  rw [padded]
  simp only [lengthByteUnits]
  omega

end NDPOption

/-! ### Writing -/

theorem serialize_writable :
    ∀ (s : List NDPOption) (b : List UInt8), (∀ o ∈ s, o.Writable) → NDPOptionsSerializer.length s ≤ b.length →
      NDPOptions.serialize s b =
        some (NDPOptionsSerializer.length s, s.flatMap NDPOption.wire ++ b.drop (NDPOptionsSerializer.length s))
  | [], b, _, _ => by simp [NDPOptions.serialize, NDPOptionsSerializer.length]
  | o :: s, b, writable, room => by
    have writableHead := writable o (List.mem_cons_self ..)
    have padded := paddedLength_eq writableHead.pos writableHead.fits
    have bodyRoom : o.length + 2 ≤ paddedLength o := by rw [padded]; simp only [lengthByteUnits]; omega
    simp only [NDPOptionsSerializer.length, List.map_cons, List.sum_cons] at room ⊢
    -- the slice holds at least the Type and Length bytes
    obtain ⟨first, second, rest, rfl⟩ : ∃ first second rest, b = first :: second :: rest := by
      rcases b with _ | ⟨first, _ | ⟨second, rest⟩⟩
      · simp at room; omega
      · simp at room; omega
      · exact ⟨first, second, rest, rfl⟩
    simp only [List.length_cons] at room
    -- the frame takes the Type and Length bytes, the body and its padding
    have written : zeroRange ([o.type, UInt8.ofNat (paddedLength o / lengthByteUnits)] ++
        (o.reservedZeroed ++ rest.drop o.length)) (o.length + 2) (paddedLength o) =
        o.wire ++ rest.drop (paddedLength o - 2) := by
      have front : ([o.type, UInt8.ofNat (paddedLength o / lengthByteUnits)] ++ o.reservedZeroed).length =
          o.length + 2 := by
        simp only [List.length_append, List.length_cons, List.length_nil, NDPOption.length_reservedZeroed,
          writableHead.length_body]
        omega
      rw [← List.append_assoc, zeroRange_append_of_ge _ _ (Nat.le_of_eq front), front, Nat.sub_self,
        zeroRange_zero (by simp only [List.length_drop]; omega), List.drop_drop]
      simp only [NDPOption.wire, NDPOption.paddedBody, List.cons_append, List.nil_append, List.append_assoc,
        show paddedLength o - 2 - o.length = paddedLength o - (o.length + 2) by omega,
        show o.length + (paddedLength o - (o.length + 2)) = paddedLength o - 2 by omega]
    have later := serialize_writable s (rest.drop (paddedLength o - 2)) (fun o' member => writable o' (by simp [member]))
      (by simp only [NDPOptionsSerializer.length, List.length_drop]; omega)
    rw [NDPOptions.serialize, if_neg (by omega), if_neg (by simp only [List.length_cons]; omega)]
    simp only [List.set_cons_zero, List.set_cons_succ, List.drop_succ_cons, List.drop_zero, List.take_succ_cons,
      List.take_zero]
    rw [NDPOption.serializeInto_of_writable writableHead (by omega)]
    dsimp only
    rw [written, List.drop_left' (NDPOption.length_wire writableHead), later,
      List.take_left' (NDPOption.length_wire writableHead)]
    -- the Type and Length bytes are the first two of the slice
    have skipped : (first :: second :: rest).drop (paddedLength o + (s.map paddedLength).sum) =
        rest.drop (paddedLength o - 2 + (s.map paddedLength).sum) := by
      rw [show paddedLength o + (s.map paddedLength).sum = paddedLength o - 2 + (s.map paddedLength).sum + 1 + 1
        by omega]
      rfl
    simp only [NDPOptionsSerializer.length, List.flatMap_cons, List.append_assoc, List.drop_drop, skipped]

/-! ### Reading -/

namespace NDPOption

/-- The options of RFC 4861 section 4.6 and RFC 8106 section 5 in the form
`Next` accepts: a body that is not empty and whose padded length fits the
Length byte; a Prefix Information body of `ndpPrefixInformationLength` bytes;
at least one address after the reserved bytes and the Lifetime of a
Recursive DNS Server option, each a unicast address; and at least one entry
after those of a DNS Search List option, each a name of RFC 1035 or padding. -/
inductive WellFormed : NDPOption → Prop
  | sourceLinkLayerAddress {body : List UInt8} (nonempty : body ≠ [])
      (fits : body.length + 2 ≤ 255 * lengthByteUnits) :
      WellFormed (.sourceLinkLayerAddress body)
  | targetLinkLayerAddress {body : List UInt8} (nonempty : body ≠ [])
      (fits : body.length + 2 ≤ 255 * lengthByteUnits) :
      WellFormed (.targetLinkLayerAddress body)
  | prefixInformation {body : List UInt8} (sized : body.length = ndpPrefixInformationLength) :
      WellFormed (.prefixInformation body)
  | recursiveDNSServer {reserved lifetime : List UInt8} {addresses : List (List UInt8)}
      (reservedSized : reserved.length = 2) (lifetimeSized : lifetime.length = 4) (nonempty : addresses ≠ [])
      (unicast : ∀ addr ∈ addresses, isV6UnicastAddress addr = true)
      (fits : (reserved ++ lifetime ++ addresses.flatten).length + 2 ≤ 255 * lengthByteUnits) :
      WellFormed (.recursiveDNSServer (reserved ++ lifetime ++ addresses.flatten))
  | dnsSearchList {reserved lifetime : List UInt8} {entries : List SearchListEntry}
      (reservedSized : reserved.length = 2) (lifetimeSized : lifetime.length = 4) (nonempty : entries ≠ [])
      (fits : (reserved ++ lifetime ++ encodeEntries entries).length + 2 ≤ 255 * lengthByteUnits) :
      WellFormed (.dnsSearchList (reserved ++ lifetime ++ encodeEntries entries))

theorem WellFormed.writable {o : NDPOption} (wellFormed : o.WellFormed) : o.Writable := by
  cases wellFormed with
  | sourceLinkLayerAddress nonempty fits | targetLinkLayerAddress nonempty fits =>
    exact ⟨List.length_pos_iff.mpr nonempty, fits⟩
  | prefixInformation sized => exact sized
  | recursiveDNSServer reservedSized _ _ _ fits | dnsSearchList reservedSized _ _ fits =>
    exact ⟨by simp [reservedSized, ndpRecursiveDNSServerLifetimeOffset], fits⟩

theorem zeroRange_reserved {reserved lifetime : List UInt8} (rest : List UInt8) (reservedSized : reserved.length = 2) :
    zeroRange (reserved ++ lifetime ++ rest) 0 2 = List.replicate 2 0 ++ lifetime ++ rest := by
  rw [List.append_assoc, zeroRange_append_of_le _ (Nat.le_of_eq reservedSized.symm),
    zeroRange_zero (Nat.le_of_eq reservedSized.symm), List.drop_of_length_le (Nat.le_of_eq reservedSized),
    List.append_nil, List.append_assoc]

theorem optionOfBody_paddedBody {o : NDPOption} (wellFormed : o.WellFormed) :
    NDPOptionIterator.optionOfBody o.type (paddedLength o - 2) o.paddedBody = some (.ok (o.withBody o.paddedBody)) := by
  have padded := paddedLength_eq wellFormed.writable.pos wellFormed.writable.fits
  cases wellFormed with
  | sourceLinkLayerAddress | targetLinkLayerAddress => rfl
  | @prefixInformation body sized =>
    -- thirty bytes and the two before them are four units
    have thirty : paddedLength (.prefixInformation body) - 2 = ndpPrefixInformationLength := by
      rw [padded]
      simp [length, ndpPrefixInformationLength, lengthByteUnits]
    simp only [NDPOptionIterator.optionOfBody, type, thirty]
    rfl
  | @recursiveDNSServer reserved lifetime addresses reservedSized lifetimeSized nonempty unicast _ =>
    -- the Lifetime and the addresses fill whole units: no padding
    have flattened := length_flatten_of_unicast unicast
    have unpadded : paddedLength (.recursiveDNSServer (reserved ++ lifetime ++ addresses.flatten)) - 2 -
        (reserved ++ lifetime ++ addresses.flatten).length = 0 := by
      rw [padded]
      simp only [length, List.length_append, reservedSized, lifetimeSized, flattened, ipv6AddressSize,
        lengthByteUnits]
      omega
    have checked : NDPRecursiveDNSServer.checkAddresses
        (paddedBody (.recursiveDNSServer (reserved ++ lifetime ++ addresses.flatten))) = none := by
      rw [paddedBody, reservedZeroed, length, unpadded, List.replicate_zero, List.append_nil,
        ndpRecursiveDNSServerLifetimeOffset, zeroRange_reserved _ reservedSized, NDPRecursiveDNSServer.checkAddresses,
        NDPRecursiveDNSServer.iterAddresses_of_unicast (by simp [lifetimeSized, ndpRecursiveDNSServerAddressesOffset])
          nonempty unicast]
    simp only [NDPOptionIterator.optionOfBody, type, checked]
    rfl
  | @dnsSearchList reserved lifetime entries reservedSized lifetimeSized nonempty _ =>
    -- at least one entry after the Lifetime takes the body to two units
    have entered := NDPDNSSearchList.length_encodeEntries_pos nonempty
    have long : minNDPDNSSearchListBodySize ≤
        (List.replicate 2 0 ++ lifetime ++ encodeEntries entries ++
          List.replicate (paddedLength (.dnsSearchList (reserved ++ lifetime ++ encodeEntries entries)) - 2 -
            (reserved ++ lifetime ++ encodeEntries entries).length) 0).length := by
      rw [padded]
      simp only [length, List.length_append, List.length_replicate, reservedSized, lifetimeSized,
        minNDPDNSSearchListBodySize, lengthByteUnits]
      omega
    have checked : NDPDNSSearchList.checkDomainNames
        (paddedBody (.dnsSearchList (reserved ++ lifetime ++ encodeEntries entries))) = none := by
      rw [paddedBody, reservedZeroed, ndpDNSSearchListLifetimeOffset, zeroRange_reserved _ reservedSized]
      exact NDPDNSSearchList.domainNames_of_entries entries _
        (by simp [lifetimeSized, ndpDNSSearchListDomainNamesOffset]) long
    simp only [NDPOptionIterator.optionOfBody, type, checked]
    rfl

theorem next_wire {o : NDPOption} (wellFormed : o.WellFormed) (tail : List UInt8) :
    NDPOptionIterator.next (o.wire ++ tail) = ((some (o.withBody o.paddedBody), false, none), tail) := by
  have writable := wellFormed.writable
  have padded := paddedLength_eq writable.pos writable.fits
  have fits := writable.fits
  -- the Length byte holds the padded length in units
  have units : (UInt8.ofNat (paddedLength o / lengthByteUnits)).toNat = paddedLength o / lengthByteUnits :=
    UInt8.toNat_ofNat_of_lt' (by rw [padded]; simp only [lengthByteUnits, UInt8.size] at fits ⊢; omega)
  have nonzero : UInt8.ofNat (paddedLength o / lengthByteUnits) ≠ 0 := by
    intro zero
    have emptied := congrArg UInt8.toNat zero
    rw [units, padded] at emptied
    simp only [lengthByteUnits, UInt8.toNat_zero] at emptied
    omega
  have bodyBytes : (UInt8.ofNat (paddedLength o / lengthByteUnits)).toNat * lengthByteUnits - 2 =
      paddedLength o - 2 := by
    rw [units, padded]
    simp only [lengthByteUnits]
    omega
  have sized : o.paddedBody.length = (UInt8.ofNat (paddedLength o / lengthByteUnits)).toNat * lengthByteUnits - 2 := by
    rw [bodyBytes, paddedBody, List.length_append, length_reservedZeroed, writable.length_body,
      List.length_replicate, padded]
    simp only [lengthByteUnits]
    omega
  rw [wire, List.cons_append, List.cons_append, NDPOptionIterator.next_sized nonzero sized, bodyBytes,
    optionOfBody_paddedBody wellFormed]

end NDPOption

namespace NDPOptionIterator

theorem options_wires :
    ∀ (s : List NDPOption), (∀ o ∈ s, o.WellFormed) → ∀ tail : List UInt8,
      options (s.flatMap NDPOption.wire ++ tail) =
        (s.map (fun o => o.withBody o.paddedBody) ++ (options tail).1, (options tail).2)
  | [], _, tail => by simp
  | o :: s, wellFormed, tail => by
    have read := NDPOption.next_wire (wellFormed o (List.mem_cons_self ..)) (s.flatMap NDPOption.wire ++ tail)
    have later := options_wires s (fun o' member => wellFormed o' (List.mem_cons_of_mem _ member)) tail
    rw [List.flatMap_cons, List.append_assoc, options_eq, read]
    simp [later]

theorem checkOptions_wires :
    ∀ (s : List NDPOption), (∀ o ∈ s, o.WellFormed) → ∀ tail : List UInt8,
      checkOptions (s.flatMap NDPOption.wire ++ tail) = checkOptions tail
  | [], _, tail => by simp
  | o :: s, wellFormed, tail => by
    have read := NDPOption.next_wire (wellFormed o (List.mem_cons_self ..)) (s.flatMap NDPOption.wire ++ tail)
    have later := checkOptions_wires s (fun o' member => wellFormed o' (List.mem_cons_of_mem _ member)) tail
    rw [List.flatMap_cons, List.append_assoc, checkOptions_eq, read]
    simpa using later

theorem next_nil : next [] = ((none, true, none), []) := by
  rw [next]

theorem checkOptions_nil : checkOptions [] = none := by
  rw [checkOptions_eq, next_nil]
  rfl

theorem options_nil : options [] = ([], none) := by
  rw [options_eq, next_nil]
  rfl

end NDPOptionIterator

/-! ### Refusing -/

/-- An option as it stands in a buffer: a Type byte, a Length byte that is
not zero, and a body as long as the Length's units less those two bytes. -/
structure Frame where
  kind : UInt8
  length : UInt8
  nonzero : length ≠ 0
  body : List UInt8
  sized : body.length = length.toNat * lengthByteUnits - 2

def Frame.encode (f : Frame) : List UInt8 := f.kind :: f.length :: f.body

namespace NDPOptionIterator

theorem checkOptions_frame (f : Frame) (tail : List UInt8) :
    checkOptions (f.encode ++ tail) =
      match optionOfBody f.kind (f.length.toNat * lengthByteUnits - 2) f.body with
      | some (.error err) => some err
      | _ => checkOptions tail := by
  have read := @next_sized f.kind f.length f.body f.nonzero f.sized tail
  rw [Frame.encode, List.cons_append, List.cons_append]
  cases found : optionOfBody f.kind (f.length.toNat * lengthByteUnits - 2) f.body with
  | none =>
    rw [found] at read
    exact checkOptions_congr read
  | some result =>
    rw [found] at read
    cases result with
    | ok opt => rw [checkOptions_eq, read]; rfl
    | error err => rw [checkOptions_eq, read]; rfl

theorem checkOptions_frames_isSome :
    ∀ (frames : List Frame) (tail : List UInt8), (checkOptions tail).isSome →
      (checkOptions (frames.flatMap Frame.encode ++ tail)).isSome
  | [], _, failed => failed
  | f :: frames, tail, failed => by
    rw [List.flatMap_cons, List.append_assoc, checkOptions_frame]
    split
    · rfl
    · exact checkOptions_frames_isSome frames tail failed

theorem checkOptions_zeroLength (kind : UInt8) (rest : List UInt8) :
    checkOptions (kind :: 0 :: rest) = some (.zeroLength kind) := by
  rw [checkOptions_eq, next_zeroLength]
  rfl

theorem checkOptions_bodyShort {kind length : UInt8} {rest : List UInt8} (nonzero : length ≠ 0)
    (short : rest.length < length.toNat * lengthByteUnits - 2) :
    checkOptions (kind :: length :: rest) = some (.bodyShort kind) := by
  rw [checkOptions_eq, next_bodyShort nonzero short]
  rfl

end NDPOptionIterator

open NDPOptionIterator in
/-- `Serialize` writes well-formed options whole into a buffer of the
serializer's `Length`; `Iter(true)` accepts what it wrote, and a caller of
`Next` reads back each option in order, of the same type, with its body with
its reserved fields zeroed and padded with zeros to the unit. After any
frames, a zero Length field or a body that runs past the buffer makes
`Iter(true)` fail. -/
theorem serialize_iter_round_trip :
    (∀ (s : List NDPOption), (∀ o ∈ s, o.WellFormed) → ∀ b : List UInt8, b.length = NDPOptionsSerializer.length s →
      ∃ written, NDPOptions.serialize s b = some (NDPOptionsSerializer.length s, written) ∧
        NDPOptions.iter written true = (written, none) ∧
        options written = (s.map fun o => o.withBody o.paddedBody, none)) ∧
    (∀ (frames : List Frame) (kind : UInt8) (rest : List UInt8),
      (NDPOptions.iter (frames.flatMap Frame.encode ++ kind :: 0 :: rest) true).2.isSome) ∧
    (∀ (frames : List Frame) (kind length : UInt8) (rest : List UInt8), length ≠ 0 →
      rest.length < length.toNat * lengthByteUnits - 2 →
      (NDPOptions.iter (frames.flatMap Frame.encode ++ kind :: length :: rest) true).2.isSome) := by
  refine ⟨fun s wellFormed b sized => ?_, fun frames kind rest => ?_, fun frames kind length rest nonzero short => ?_⟩
  · have checked := checkOptions_wires s wellFormed []
    have read := options_wires s wellFormed []
    rw [List.append_nil] at checked read
    refine ⟨s.flatMap NDPOption.wire, ?_, ?_, ?_⟩
    · rw [serialize_writable s b (fun o member => (wellFormed o member).writable) (Nat.le_of_eq sized.symm),
        ← sized, List.drop_length, List.append_nil]
    · rw [NDPOptions.iter, if_pos rfl, checked, checkOptions_nil]
    · rw [read, options_nil, List.append_nil]
  · rw [NDPOptions.iter, if_pos rfl]
    exact checkOptions_frames_isSome frames _ (by rw [checkOptions_zeroLength]; rfl)
  · rw [NDPOptions.iter, if_pos rfl]
    exact checkOptions_frames_isSome frames _ (by rw [checkOptions_bodyShort nonzero short]; rfl)

theorem serialize_iter_round_trip_source_address :
    ∃ written, NDPOptions.serialize [.sourceLinkLayerAddress [2, 0, 0, 0, 0, 1]] (List.replicate 8 0) =
        some (8, written) ∧ NDPOptions.iter written true = (written, none) ∧
      NDPOptionIterator.options written = ([.sourceLinkLayerAddress [2, 0, 0, 0, 0, 1]], none) := by
  have sized : NDPOptionsSerializer.length [.sourceLinkLayerAddress [2, 0, 0, 0, 0, 1]] = 8 := by decide
  have padded : [NDPOption.sourceLinkLayerAddress [2, 0, 0, 0, 0, 1]].map (fun o => o.withBody o.paddedBody) =
      [.sourceLinkLayerAddress [2, 0, 0, 0, 0, 1]] := by decide
  obtain ⟨written, serialized, checked, read⟩ := serialize_iter_round_trip.1 [.sourceLinkLayerAddress [2, 0, 0, 0, 0, 1]]
    (by simp only [List.mem_singleton, forall_eq]; exact .sourceLinkLayerAddress (by simp) (by decide))
    (List.replicate 8 0) (by rw [sized]; rfl)
  exact ⟨written, sized ▸ serialized, checked, padded ▸ read⟩

/-- A Prefix Information option whose reserved bits and bytes are set is read
back with them cleared, and a Recursive DNS Server option with no address,
once written, fails the integrity check. -/
theorem serialize_clears_prefix_reserved_refuses_addressless_server :
    (∃ written, NDPOptions.serialize [.prefixInformation (List.replicate 30 255)] (List.replicate 32 0) =
        some (32, written) ∧ NDPOptions.iter written true = (written, none) ∧
      NDPOptionIterator.options written =
        ([.prefixInformation (255 :: 192 :: List.replicate 8 255 ++ List.replicate 4 0 ++ List.replicate 16 255)],
          none)) ∧
    (∃ written, NDPOptions.serialize [.recursiveDNSServer (List.replicate 6 0)] (List.replicate 8 0) =
        some (8, written) ∧
      (NDPOptions.iter written true).2 = some (.recursiveDNSServer (.bodyTooShort 6))) := by
  constructor
  · have wellFormed : ∀ o ∈ [NDPOption.prefixInformation (List.replicate 30 255)], o.WellFormed := by
      simp only [List.mem_singleton, forall_eq]
      exact .prefixInformation (by simp [ndpPrefixInformationLength])
    have checked := NDPOptionIterator.checkOptions_wires _ wellFormed []
    have read := NDPOptionIterator.options_wires _ wellFormed []
    have serialized := serialize_writable _ (List.replicate 32 0) (fun o member => (wellFormed o member).writable)
      (by decide)
    have sized : NDPOptionsSerializer.length [.prefixInformation (List.replicate 30 255)] = 32 := by decide
    -- the flags byte keeps its two flags, and Reserved2 is zeroed
    have cleared : [NDPOption.prefixInformation (List.replicate 30 255)].map (fun o => o.withBody o.paddedBody) =
        [.prefixInformation (255 :: 192 :: List.replicate 8 255 ++ List.replicate 4 0 ++ List.replicate 16 255)] := by
      decide
    rw [List.append_nil, NDPOptionIterator.checkOptions_nil] at checked
    rw [List.append_nil, NDPOptionIterator.options_nil, List.append_nil, cleared] at read
    rw [sized, List.drop_of_length_le (by decide), List.append_nil] at serialized
    exact ⟨_, serialized, by rw [NDPOptions.iter, if_pos rfl, checked], read⟩
  · have serialized := serialize_writable [.recursiveDNSServer (List.replicate 6 0)] (List.replicate 8 0)
      (by simp only [List.mem_singleton, forall_eq]; exact ⟨by decide, by decide⟩) (by decide)
    have sized : NDPOptionsSerializer.length [.recursiveDNSServer (List.replicate 6 0)] = 8 := by decide
    have framed : [NDPOption.recursiveDNSServer (List.replicate 6 0)].flatMap NDPOption.wire =
        Frame.encode ⟨25, 1, by decide, List.replicate 6 0, by decide⟩ ++ [] := by
      decide
    -- six bytes hold the reserved bytes and the Lifetime, and no address
    have refused : NDPOptionIterator.optionOfBody 25 (UInt8.toNat 1 * lengthByteUnits - 2) (List.replicate 6 0) =
        some (.error (.recursiveDNSServer (.bodyTooShort 6))) := by
      decide
    rw [sized, List.drop_of_length_le (by decide), List.append_nil] at serialized
    refine ⟨_, serialized, ?_⟩
    rw [NDPOptions.iter, if_pos rfl, framed, NDPOptionIterator.checkOptions_frame]
    dsimp only
    rw [refused]

end Cijitter.Header
