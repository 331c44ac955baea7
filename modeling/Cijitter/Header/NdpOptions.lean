import Cijitter.Header.NdpDnsSearchList

/-! NDP options (`pkg/tcpip/header/ndp_options.go`, RFC 4861 section 4.6).
`NDPOptions.Serialize` writes each option of a serializer as a Type byte, a
Length byte counting units of 8 bytes, and the body padded with zeros to the
unit; `NDPOptionIterator.Next` reads them back off a `bytes.Buffer`, checks
the bodies of Prefix Information, Recursive DNS Server and DNS Search List
options, and skips options of the types it does not know.

`Serialize` writes through slices of one buffer. A slice here is the list of
bytes from its start to the end of the buffer, and a slicing or an index that
Go would panic on makes `serialize` return `none`. -/

set_option autoImplicit false

namespace Cijitter.Header

/-- `NDPSourceLinkLayerAddressOptionType`. -/
def ndpSourceLinkLayerAddressOptionType : UInt8 := 1

/-- `NDPTargetLinkLayerAddressOptionType`. -/
def ndpTargetLinkLayerAddressOptionType : UInt8 := 2

/-- `NDPPrefixInformationType`. -/
def ndpPrefixInformationType : UInt8 := 3

/-- `NDPRecursiveDNSServerOptionType`. -/
def ndpRecursiveDNSServerOptionType : UInt8 := 25

/-- `NDPDNSSearchListOptionType`. -/
def ndpDNSSearchListOptionType : UInt8 := 31

def ndpPrefixInformationLength : Nat := 30

def ndpPrefixInformationFlagsOffset : Nat := 1

def ndpPrefixInformationReserved1FlagsMask : UInt8 := 63

def ndpPrefixInformationReserved2Offset : Nat := 10

def ndpPrefixInformationReserved2Length : Nat := 4

def ndpRecursiveDNSServerLifetimeOffset : Nat := 2

def ndpRecursiveDNSServerAddressesOffset : Nat := 6

def minNDPRecursiveDNSServerBodySize : Nat := 22

def ndpDNSSearchListLifetimeOffset : Nat := 2

def lengthByteUnits : Nat := 8

def ipv6AddressSize : Nat := 16

/-- `IPv6Any`, the unspecified address. -/
def ipv6Any : List UInt8 := List.replicate ipv6AddressSize 0

/-- `IsV6UnicastAddress`: an address of `IPv6AddressSize` bytes that is
neither the unspecified address nor a multicast one. -/
def isV6UnicastAddress (addr : List UInt8) : Bool :=
  if addr.length ≠ ipv6AddressSize then false
  else if addr = ipv6Any then false
  else addr.getD 0 0 != 0xff

/-- The options `Next` returns and `Serialize` writes, each with its body. -/
inductive NDPOption where
  /-- `NDPSourceLinkLayerAddressOption`. -/
  | sourceLinkLayerAddress (body : List UInt8)
  /-- `NDPTargetLinkLayerAddressOption`. -/
  | targetLinkLayerAddress (body : List UInt8)
  /-- `NDPPrefixInformation`. -/
  | prefixInformation (body : List UInt8)
  /-- `NDPRecursiveDNSServer`. -/
  | recursiveDNSServer (body : List UInt8)
  /-- `NDPDNSSearchList`. -/
  | dnsSearchList (body : List UInt8)
  deriving DecidableEq, Repr

/-- The errors of `NDPRecursiveDNSServer.iterAddresses`, with what their
messages report. -/
inductive RecursiveDNSServerError where
  /-- `got %d bytes for NDP Recursive DNS Server option's body, expected at least %d bytes: %w`. -/
  | bodyTooShort (length : Nat)
  /-- `NDP Recursive DNS Server option's body ends in the middle of an IPv6 address (addresses body size = %d bytes): %w`. -/
  | partialAddress (length : Nat)
  /-- `%d-th address (%s) in NDP Recursive DNS Server option is not a valid unicast IPv6 address: %w`. -/
  | notUnicast (index : Nat) (addr : List UInt8)
  deriving DecidableEq, Repr

/-- The errors of `Next`, with what their messages report. -/
inductive NDPOptionError where
  /-- `unexpectedly exhausted buffer when reading the option's Length field for %s: %w`. -/
  | lengthFieldMissing (kind : UInt8)
  /-- `zero valued Length field for %s: %w`. -/
  | zeroLength (kind : UInt8)
  /-- `unexpectedly exhausted buffer when reading the option's Body for %s: %w`. -/
  | bodyShort (kind : UInt8)
  /-- `got %d bytes for NDP Prefix Information option's body, expected %d bytes: %w`. -/
  | prefixInformationSize (numBodyBytes : Nat)
  | recursiveDNSServer (err : RecursiveDNSServerError)
  | dnsSearchList (err : SearchListError)
  deriving DecidableEq, Repr

/-- The sentinel error each error wraps. -/
def RecursiveDNSServerError.unwrap : RecursiveDNSServerError → NDPOptErr
  | .bodyTooShort _ => .unexpectedEOF
  | .partialAddress _ | .notUnicast _ _ => .malformedBody

def NDPOptionError.unwrap : NDPOptionError → NDPOptErr
  | .lengthFieldMissing _ | .bodyShort _ => .unexpectedEOF
  | .zeroLength _ => .malformedHeader
  | .prefixInformationSize _ => .malformedBody
  | .recursiveDNSServer err => err.unwrap
  | .dnsSearchList err => err.unwrap

/-! ### The bodies of Recursive DNS Server and DNS Search List options -/

/-- The loop of `iterAddresses` over the addresses from the `i`-th on: the
addresses it passes to its function, and its error. -/
def NDPRecursiveDNSServer.iterAddressesLoop (i : Nat) (o : List UInt8) :
    List (List UInt8) × Option RecursiveDNSServerError :=
  if o.length ≠ 0 then
    let addr := o.take ipv6AddressSize
    if !isV6UnicastAddress addr then ([], some (.notUnicast i addr))
    else
      let (addrs, err) := iterAddressesLoop (i + 1) (o.drop ipv6AddressSize)
      (addr :: addrs, err)
  else ([], none)
termination_by o.length
decreasing_by simp only [List.length_drop, ipv6AddressSize]; omega

/-- `NDPRecursiveDNSServer.iterAddresses`. -/
def NDPRecursiveDNSServer.iterAddresses (o : List UInt8) : List (List UInt8) × Option RecursiveDNSServerError :=
  if o.length < minNDPRecursiveDNSServerBodySize then ([], some (.bodyTooShort o.length))
  else
    let o := o.drop ndpRecursiveDNSServerAddressesOffset
    if o.length % ipv6AddressSize ≠ 0 then ([], some (.partialAddress o.length))
    else iterAddressesLoop 0 o

theorem length_of_isV6UnicastAddress {addr : List UInt8} (unicast : isV6UnicastAddress addr = true) :
    addr.length = ipv6AddressSize := by
  unfold isV6UnicastAddress at unicast
  by_contra other
  rw [if_pos other] at unicast
  exact Bool.false_ne_true unicast

theorem length_flatten_of_unicast :
    ∀ {addresses : List (List UInt8)}, (∀ addr ∈ addresses, isV6UnicastAddress addr = true) →
      addresses.flatten.length = ipv6AddressSize * addresses.length
  | [], _ => rfl
  | addr :: addresses, unicast => by
    have sized := length_of_isV6UnicastAddress (unicast addr (List.mem_cons_self ..))
    have later := length_flatten_of_unicast fun a member => unicast a (List.mem_cons_of_mem _ member)
    rw [List.flatten_cons, List.length_append, sized, later, List.length_cons, Nat.mul_succ, Nat.add_comm]

theorem NDPRecursiveDNSServer.iterAddressesLoop_flatten :
    ∀ (i : Nat) (addresses : List (List UInt8)), (∀ addr ∈ addresses, isV6UnicastAddress addr = true) →
      iterAddressesLoop i addresses.flatten = (addresses, none)
  | i, [], _ => by rw [iterAddressesLoop]; simp
  | i, addr :: addresses, unicast => by
    have head := unicast addr (List.mem_cons_self ..)
    have sized := length_of_isV6UnicastAddress head
    have later := iterAddressesLoop_flatten (i + 1) addresses
      fun a member => unicast a (List.mem_cons_of_mem _ member)
    rw [iterAddressesLoop, List.flatten_cons, if_pos (by simp [sized, ipv6AddressSize]), List.take_left' sized,
      if_neg (by simp [head]), List.drop_left' sized, later]

theorem NDPRecursiveDNSServer.iterAddresses_of_unicast {front : List UInt8} {addresses : List (List UInt8)}
    (sized : front.length = ndpRecursiveDNSServerAddressesOffset) (nonempty : addresses ≠ [])
    (unicast : ∀ addr ∈ addresses, isV6UnicastAddress addr = true) :
    iterAddresses (front ++ addresses.flatten) = (addresses, none) := by
  have flattened := length_flatten_of_unicast unicast
  have positive : 0 < addresses.length := List.length_pos_iff.mpr nonempty
  have long : ¬(front ++ addresses.flatten).length < minNDPRecursiveDNSServerBodySize := by
    simp only [List.length_append, minNDPRecursiveDNSServerBodySize, sized, flattened, ndpRecursiveDNSServerAddressesOffset,
      ipv6AddressSize]
    omega
  rw [iterAddresses, if_neg long]
  dsimp only
  rw [List.drop_left' sized, if_neg (by simp [flattened]), iterAddressesLoop_flatten 0 addresses unicast]

/-- `NDPRecursiveDNSServer.Addresses`: the addresses passed on before the
error, and the error. -/
def NDPRecursiveDNSServer.addresses (o : List UInt8) : List (List UInt8) × Option RecursiveDNSServerError :=
  iterAddresses o

/-- `NDPRecursiveDNSServer.checkAddresses`. -/
def NDPRecursiveDNSServer.checkAddresses (o : List UInt8) : Option RecursiveDNSServerError :=
  (iterAddresses o).2

/-- `NDPDNSSearchList.checkDomainNames`: `iterDomainNames` with no function,
which fails as `DomainNames` does. -/
def NDPDNSSearchList.checkDomainNames (o : List UInt8) : Option SearchListError :=
  (domainNames o).2

/-! ### Reading options -/

namespace NDPOptionIterator

/-- The `switch kind` of `Next`: the option a body of a known type makes, or
the error of its check; `none` for a type that `Next` skips. -/
def optionOfBody (kind : UInt8) (numBodyBytes : Nat) (body : List UInt8) : Option (Except NDPOptionError NDPOption) :=
  if kind = ndpSourceLinkLayerAddressOptionType then some (.ok (.sourceLinkLayerAddress body))
  else if kind = ndpTargetLinkLayerAddressOptionType then some (.ok (.targetLinkLayerAddress body))
  else if kind = ndpPrefixInformationType then
    if numBodyBytes ≠ ndpPrefixInformationLength then some (.error (.prefixInformationSize numBodyBytes))
    else some (.ok (.prefixInformation body))
  else if kind = ndpRecursiveDNSServerOptionType then
    match NDPRecursiveDNSServer.checkAddresses body with
    | some err => some (.error (.recursiveDNSServer err))
    | none => some (.ok (.recursiveDNSServer body))
  else if kind = ndpDNSSearchListOptionType then
    match NDPDNSSearchList.checkDomainNames body with
    | some err => some (.error (.dnsSearchList err))
    | none => some (.ok (.dnsSearchList body))
  else none

/-- `Next` on the bytes left in the buffer: the option, whether the iterator
is done, the error, and the bytes left after. The Type byte is read only
from a buffer that is not empty, so reading it does not fail. -/
def next : List UInt8 → (Option NDPOption × Bool × Option NDPOptionError) × List UInt8
  | [] => ((none, true, none), [])
  | [kind] => ((none, true, some (.lengthFieldMissing kind)), [])
  | kind :: length :: opts =>
    if length = 0 then ((none, true, some (.zeroLength kind)), opts)
    else
      let numBytes := length.toNat * lengthByteUnits
      let numBodyBytes := numBytes - 2
      -- `bytes.Buffer.Next` returns what is left when it is shorter.
      let body := opts.take numBodyBytes
      if body.length < numBodyBytes then ((none, true, some (.bodyShort kind)), opts.drop numBodyBytes)
      else
        match optionOfBody kind numBodyBytes body with
        | some (.ok opt) => ((some opt, false, none), opts.drop numBodyBytes)
        | some (.error err) => ((none, true, some err), opts.drop numBodyBytes)
        -- An option of a type `Next` does not know is skipped.
        | none => next (opts.drop numBodyBytes)
termination_by opts => opts.length

theorem next_shortens (opts : List UInt8) (more : (next opts).1.2.1 = false) :
    (next opts).2.length < opts.length := by
  fun_induction next opts with
  | case1 => simp at more
  | case2 => simp
  | case3 | case4 | case5 => simp only [List.length_drop, List.length_cons]; omega
  | case6 => simp at more
  | case7 _ _ _ _ _ _ _ _ _ ih =>
    have := ih more
    simp only [List.length_drop, List.length_cons] at this ⊢
    omega

/-- The integrity check of `Iter(true)`: `Next` on a second iterator until
it fails or is done. -/
def checkOptions (opts : List UInt8) : Option NDPOptionError :=
  match found : next opts with
  | ((_, done, err), rest) =>
    if stop : err.isSome || done then err
    else
      have := next_shortens opts (by simp at stop; rw [found]; exact stop.2)
      checkOptions rest
termination_by opts.length
decreasing_by rw [found] at this; exact this

/-- What a caller that calls `Next` until it fails or is done sees: the
options, in order, and the error. -/
def options (opts : List UInt8) : List NDPOption × Option NDPOptionError :=
  match found : next opts with
  | ((opt, done, err), rest) =>
    if stop : err.isSome || done then ([], err)
    else
      have := next_shortens opts (by simp at stop; rw [found]; exact stop.2)
      let (opts, err) := options rest
      (opt.toList ++ opts, err)
termination_by opts.length
decreasing_by rw [found] at this; exact this

/-! The loops of `Iter(true)` and of a caller depend on the bytes left only
through what `Next` returns for them. -/

theorem checkOptions_eq (opts : List UInt8) :
    checkOptions opts =
      if (next opts).1.2.2.isSome || (next opts).1.2.1 then (next opts).1.2.2 else checkOptions (next opts).2 := by
  rw [checkOptions]
  split
  rename_i found
  simp only [found]
  split <;> rfl

theorem checkOptions_congr {opts opts' : List UInt8} (same : next opts = next opts') :
    checkOptions opts = checkOptions opts' := by
  rw [checkOptions_eq, same, ← checkOptions_eq]

theorem options_eq (opts : List UInt8) :
    options opts =
      if (next opts).1.2.2.isSome || (next opts).1.2.1 then ([], (next opts).1.2.2)
      else ((next opts).1.1.toList ++ (options (next opts).2).1, (options (next opts).2).2) := by
  rw [options]
  split
  rename_i found
  simp only [found]
  split <;> rfl

theorem options_congr {opts opts' : List UInt8} (same : next opts = next opts') :
    options opts = options opts' := by
  rw [options_eq, same, ← options_eq]

/-! ### One option -/

theorem next_zeroLength (kind : UInt8) (opts : List UInt8) :
    next (kind :: 0 :: opts) = ((none, true, some (.zeroLength kind)), opts) := by
  rw [next, if_pos rfl]

theorem next_bodyShort {kind length : UInt8} {opts : List UInt8} (nonzero : length ≠ 0)
    (short : opts.length < length.toNat * lengthByteUnits - 2) :
    next (kind :: length :: opts) = ((none, true, some (.bodyShort kind)), []) := by
  rw [next, if_neg nonzero]
  dsimp only
  rw [List.length_take, if_pos (by omega), List.drop_eq_nil_of_le (by omega)]

theorem next_sized {kind length : UInt8} {body : List UInt8} (nonzero : length ≠ 0)
    (sized : body.length = length.toNat * lengthByteUnits - 2) (tail : List UInt8) :
    next (kind :: length :: (body ++ tail)) =
      match optionOfBody kind (length.toNat * lengthByteUnits - 2) body with
      | some (.ok opt) => ((some opt, false, none), tail)
      | some (.error err) => ((none, true, some err), tail)
      | none => next tail := by
  rw [next, if_neg nonzero]
  dsimp only
  rw [← sized, List.take_left, List.drop_left, if_neg (Nat.lt_irrefl _)]

end NDPOptionIterator

/-- `NDPOptions.Iter`: an iterator over the buffer, and the error of the
integrity check when `check` is set. -/
def NDPOptions.iter (b : List UInt8) (check : Bool) : List UInt8 × Option NDPOptionError :=
  if check then (b, NDPOptionIterator.checkOptions b) else (b, none)

/-! ### Writing options -/

/-- `copy(dst, src)`: as many bytes as both hold, and `dst` after. -/
def copyBytes (dst src : List UInt8) : Nat × List UInt8 :=
  (min dst.length src.length, src.take dst.length ++ dst.drop src.length)

/-- `b[i] = 0` for each `i` from `start` up to `stop`. -/
def zeroRange (b : List UInt8) (start stop : Nat) : List UInt8 :=
  b.mapIdx fun i x => if start ≤ i ∧ i < stop then 0 else x

theorem copyBytes_of_le {dst src : List UInt8} (room : src.length ≤ dst.length) :
    copyBytes dst src = (src.length, src ++ dst.drop src.length) := by
  rw [copyBytes, Nat.min_eq_right room, List.take_of_length_le room]

@[simp] theorem length_zeroRange (b : List UInt8) (start stop : Nat) :
    (zeroRange b start stop).length = b.length := by
  simp [zeroRange]

theorem zeroRange_append_of_le {front : List UInt8} (back : List UInt8) {start stop : Nat}
    (inside : stop ≤ front.length) :
    zeroRange (front ++ back) start stop = zeroRange front start stop ++ back := by
  simp only [zeroRange, List.mapIdx_append]
  congr 1
  apply List.ext_getElem (by simp)
  intro i _ _
  rw [List.getElem_mapIdx, if_neg (by omega)]

theorem zeroRange_append_of_ge (front back : List UInt8) {start stop : Nat} (past : front.length ≤ start) :
    zeroRange (front ++ back) start stop = front ++ zeroRange back (start - front.length) (stop - front.length) := by
  simp only [zeroRange, List.mapIdx_append]
  congr 1
  · apply List.ext_getElem (by simp)
    intro i _ _
    rw [List.getElem_mapIdx, if_neg (by omega)]
  · apply List.ext_getElem (by simp)
    intro i _ _
    simp only [List.getElem_mapIdx]
    by_cases zeroed : start - front.length ≤ i ∧ i < stop - front.length
    · rw [if_pos (by omega), if_pos zeroed]
    · rw [if_neg (by omega), if_neg zeroed]

theorem zeroRange_zero {b : List UInt8} {count : Nat} (inside : count ≤ b.length) :
    zeroRange b 0 count = List.replicate count 0 ++ b.drop count := by
  apply List.ext_getElem (by simp; omega)
  intro i _ _
  simp only [zeroRange, List.getElem_mapIdx, List.getElem_append, List.length_replicate, List.getElem_replicate,
    List.getElem_drop]
  by_cases zeroed : i < count
  · rw [if_pos ⟨Nat.zero_le _, zeroed⟩, dif_pos zeroed]
  · rw [if_neg (by omega), dif_neg zeroed]
    congr 1
    omega

namespace NDPOption

/-- `Type`. -/
def type : NDPOption → UInt8
  | sourceLinkLayerAddress _ => ndpSourceLinkLayerAddressOptionType
  | targetLinkLayerAddress _ => ndpTargetLinkLayerAddressOptionType
  | prefixInformation _ => ndpPrefixInformationType
  | recursiveDNSServer _ => ndpRecursiveDNSServerOptionType
  | dnsSearchList _ => ndpDNSSearchListOptionType

def body : NDPOption → List UInt8
  | sourceLinkLayerAddress body | targetLinkLayerAddress body | prefixInformation body
  | recursiveDNSServer body | dnsSearchList body => body

/-- `Length`: the length of the body, but always `ndpPrefixInformationLength`
for a Prefix Information option. -/
def length : NDPOption → Nat
  | sourceLinkLayerAddress body | targetLinkLayerAddress body => body.length
  | prefixInformation _ => ndpPrefixInformationLength
  | recursiveDNSServer body | dnsSearchList body => body.length

end NDPOption

/-- The `serializeInto` of the link-layer address options: a copy. -/
def NDPSourceLinkLayerAddressOption.serializeInto (o b : List UInt8) : Nat × List UInt8 := copyBytes b o

def NDPTargetLinkLayerAddressOption.serializeInto (o b : List UInt8) : Nat × List UInt8 := copyBytes b o

/-- `NDPPrefixInformation.serializeInto`: a copy with the Reserved1 bits of
the flags byte and the Reserved2 bytes zeroed. -/
def NDPPrefixInformation.serializeInto (o b : List UInt8) : Nat × List UInt8 :=
  let (used, b) := copyBytes b o
  let b := b.set ndpPrefixInformationFlagsOffset
    (b.getD ndpPrefixInformationFlagsOffset 0 &&& ~~~ndpPrefixInformationReserved1FlagsMask)
  (used, zeroRange b ndpPrefixInformationReserved2Offset
    (ndpPrefixInformationReserved2Offset + ndpPrefixInformationReserved2Length))

/-- The `serializeInto` of the options with reserved bytes before their
Lifetime: a copy with the bytes before `lifetimeOffset` zeroed. -/
def serializeZeroingReserved (lifetimeOffset : Nat) (o b : List UInt8) : Nat × List UInt8 :=
  let (used, b) := copyBytes b o
  (used, zeroRange b 0 lifetimeOffset)

def NDPRecursiveDNSServer.serializeInto (o b : List UInt8) : Nat × List UInt8 :=
  serializeZeroingReserved ndpRecursiveDNSServerLifetimeOffset o b

def NDPDNSSearchList.serializeInto (o b : List UInt8) : Nat × List UInt8 :=
  serializeZeroingReserved ndpDNSSearchListLifetimeOffset o b

namespace NDPOption

def serializeInto : NDPOption → List UInt8 → Nat × List UInt8
  | sourceLinkLayerAddress o => NDPSourceLinkLayerAddressOption.serializeInto o
  | targetLinkLayerAddress o => NDPTargetLinkLayerAddressOption.serializeInto o
  | prefixInformation o => NDPPrefixInformation.serializeInto o
  | recursiveDNSServer o => NDPRecursiveDNSServer.serializeInto o
  | dnsSearchList o => NDPDNSSearchList.serializeInto o

end NDPOption

/-- `paddedLength`: the length of the option with its Type and Length bytes,
rounded up to the 8-byte unit by adding the mask and clearing its bits, or
0 for an empty body or one whose units do not fit the Length byte. -/
def paddedLength (o : NDPOption) : Nat :=
  let l := o.length
  if l = 0 then 0
  else
    let l := l + 2
    let mask := lengthByteUnits - 1
    let l := l + mask
    -- `l &^= mask`
    let l := l - (l &&& mask)
    if l / lengthByteUnits > 255 then 0 else l

theorem paddedLength_eq {o : NDPOption} (nonempty : 0 < o.length) (fits : o.length + 2 ≤ 255 * lengthByteUnits) :
    paddedLength o = (o.length + 2 + (lengthByteUnits - 1)) / lengthByteUnits * lengthByteUnits := by
  have cleared : ∀ l : Nat, l - (l &&& (lengthByteUnits - 1)) = l / lengthByteUnits * lengthByteUnits := by
    intro l
    rw [show lengthByteUnits - 1 = 2 ^ 3 - 1 from rfl, Nat.and_two_pow_sub_one_eq_mod]
    simp only [lengthByteUnits]
    omega
  unfold paddedLength
  dsimp only
  rw [if_neg (by omega), cleared, if_neg (by simp only [lengthByteUnits] at fits ⊢; omega)]

/-- `NDPOptionsSerializer.Length`. -/
def NDPOptionsSerializer.length (s : List NDPOption) : Nat :=
  (s.map paddedLength).sum

/-- `NDPOptions.Serialize` of the options `s` into the slice `b`: the bytes
written, and the slice after. -/
def NDPOptions.serialize : List NDPOption → List UInt8 → Option (Nat × List UInt8)
  | [], b => some (0, b)
  | o :: s, b =>
    let l := paddedLength o
    if l = 0 then serialize s b
    -- `b = b[l:]` panics on a slice shorter than the option, as the writes
    -- before it do on one shorter than their index.
    else if b.length < l then none
    else
      let b := (b.set 0 o.type).set 1 (UInt8.ofNat (l / lengthByteUnits))
      let (used, rest) := o.serializeInto (b.drop 2)
      -- Zero out the padding.
      let b := zeroRange (b.take 2 ++ rest) (used + 2) l
      match serialize s (b.drop l) with
      | none => none
      | some (done, rest) => some (l + done, b.take l ++ rest)

end Cijitter.Header
