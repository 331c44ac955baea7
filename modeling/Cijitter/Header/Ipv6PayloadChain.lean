import Cijitter.Header.Ipv6PayloadIterator

/-! The payload iterator against the header chain of RFC 8200 section 4.

Bottom: the buffered reader reads as one cursor over the bytes it has not
returned (`Lib/GoIo`), and the payload copy is trimmed by exactly what each
read took, so `nextHeaderData` is a read of one list (`readHeaderData`) and
the two cursors keep agreeing (`Live`).

Top: `Chain id bytes calls` says which calls of `Next` a payload should give
when its first header has identifier `id`: a Hop-by-Hop Options, Routing or
Destination Options header takes `8 * (Length + 1)` bytes, a Fragment header
8, the raw payload is what the headers before it left under the Next Header
field of the last of them, nothing is parsed after a Fragment header with a
non-zero offset, and a call fails exactly at a header cut short. The chain of
a payload is unique, and the iterator's calls are it, within
`size / 8 + 2` calls. -/

set_option autoImplicit false

namespace Cijitter.Header

open GoIo
open TcpipBuffer (VectorisedView)
open TcpipBuffer.VectorisedView (Represents)

namespace IPv6PayloadIterator

/-! ### `nextHeaderData` on one cursor -/

/-- `nextHeaderData` on the bytes the reader has not returned, read as one
list. -/
def readHeaderData (id : UInt8) (fragmentHdr : Bool) :
    List UInt8 → Except PayloadIterError (UInt8 × List UInt8) × List UInt8
  | [] => (.error (.nextHeaderField id .eof), [])
  | [_] => (.error (if fragmentHdr then .lengthField id .eof else .reservedField id .eof), [])
  | nextHdrIdentifier :: length :: rest =>
    let length := if fragmentHdr then 0 else length
    let bytesLen := length.toNat * ipv6ExtHdrLenBytesPerUnit + ipv6ExtHdrLenBytesExcluded
    match readFull rest bytesLen with
    | (bytes, some err, left) => (.error (.headerData bytes.length bytesLen length id err), left)
    | (bytes, none, left) => (.ok (nextHdrIdentifier, bytes), left)

/-- The reader can read, and the payload copy holds exactly the bytes the
reader has not returned: the two cursors are at the same place. -/
structure Live (i : IPv6PayloadIterator) : Prop where
  sound : i.reader.Sound
  position : Represents i.payload i.reader.contents

theorem live_make (id : UInt8) {payload : VectorisedView} {bytes : List UInt8} (holds : Represents payload bytes) :
    Live (makeIPv6PayloadIterator id payload) ∧ (makeIPv6PayloadIterator id payload).reader.contents = bytes := by
  have contents : (makeIPv6PayloadIterator id payload).reader.contents = bytes := holds.flatten_views
  exact ⟨⟨BufReader.sound_newReaderSize _ _, by rw [contents]; exact holds.clone⟩, contents⟩

theorem nextHeaderData_spec {i : IPv6PayloadIterator} (live : Live i) (fragmentHdr : Bool) :
    (i.nextHeaderData fragmentHdr).1 = (readHeaderData i.nextHdrIdentifier fragmentHdr i.reader.contents).1 ∧
      (i.nextHeaderData fragmentHdr).2.reader.contents =
        (readHeaderData i.nextHdrIdentifier fragmentHdr i.reader.contents).2 ∧
      Live (i.nextHeaderData fragmentHdr).2 ∧
      (i.nextHeaderData fragmentHdr).2.nextHdrIdentifier = i.nextHdrIdentifier ∧
      (i.nextHeaderData fragmentHdr).2.forceRaw = i.forceRaw := by
  have trimmed := live.position.trimFront 1
  cases front : i.reader.contents with
  | nil =>
      obtain ⟨reader, read, left, sound⟩ := BufReader.readByte_of_nil live.sound front
      rw [front] at trimmed
      simp only [nextHeaderData, read]
      exact ⟨rfl, left, ⟨sound, by rw [left]; exact trimmed⟩, trivial, trivial⟩
  | cons nextHdrIdentifier rest =>
      obtain ⟨reader, read, left, sound⟩ := BufReader.readByte_of_cons live.sound front
      rw [front] at trimmed
      have trimmedTwice := trimmed.trimFront 1
      cases second : rest with
      | nil =>
          obtain ⟨reader', read', left', sound'⟩ := BufReader.readByte_of_nil sound (left.trans second)
          rw [second] at trimmedTwice
          simp only [nextHeaderData, read, read']
          exact ⟨rfl, left', ⟨sound', by rw [left']; exact trimmedTwice⟩, trivial, trivial⟩
      | cons length rest =>
          obtain ⟨reader', read', left', sound'⟩ := BufReader.readByte_of_cons sound (left.trans second)
          rw [second] at trimmedTwice
          -- the header's data is one `io.ReadFull` of the bytes after the two fields
          obtain ⟨reader'', full, left'', sound''⟩ := BufReader.readFull_of_sound sound'
            ((if fragmentHdr then 0 else length).toNat * ipv6ExtHdrLenBytesPerUnit + ipv6ExtHdrLenBytesExcluded)
          have trimmedData := trimmedTwice.trimFront
            (readFull rest ((if fragmentHdr then 0 else length).toNat * ipv6ExtHdrLenBytesPerUnit +
              ipv6ExtHdrLenBytesExcluded)).1.length
          rw [List.drop_one, List.drop_one, List.tail_cons, List.tail_cons, drop_length_readFull] at trimmedData
          rw [left'] at full left''
          simp only [nextHeaderData, readHeaderData, read, read', Option.getD_some, full]
          generalize readFull rest ((if fragmentHdr then 0 else length).toNat * ipv6ExtHdrLenBytesPerUnit +
            ipv6ExtHdrLenBytesExcluded) = result at left'' trimmedData ⊢
          obtain ⟨bytes, _ | err, leftBytes⟩ := result
          all_goals exact ⟨rfl, left'', ⟨sound'', by rw [left'']; exact trimmedData⟩, rfl, rfl⟩

theorem readHeaderData_ok (id : UInt8) (fragmentHdr : Bool) (next field : UInt8) {body : List UInt8}
    (sized : body.length = (if fragmentHdr then 0 else field).toNat * 8 + 6) (rest : List UInt8) :
    readHeaderData id fragmentHdr (next :: field :: (body ++ rest)) = (.ok (next, body), rest) := by
  have bytesLen : (if fragmentHdr then 0 else field).toNat * ipv6ExtHdrLenBytesPerUnit + ipv6ExtHdrLenBytesExcluded =
      body.length := sized.symm
  simp only [readHeaderData, bytesLen, readFull_append]

theorem readHeaderData_error (id : UInt8) (fragmentHdr : Bool) {bytes : List UInt8}
    (short : bytes.length < ((if fragmentHdr then 0 else bytes.getD 1 0).toNat + 1) * 8) :
    ∃ err, (readHeaderData id fragmentHdr bytes).1 = .error err := by
  match bytes, short with
  | [], _ => exact ⟨_, rfl⟩
  | [_], _ => exact ⟨_, rfl⟩
  | next :: field :: rest, short =>
      simp only [List.length_cons, List.getD_cons_succ, List.getD_cons_zero] at short
      obtain ⟨err, read⟩ := @readFull_of_lt UInt8 rest
        ((if fragmentHdr then 0 else field).toNat * ipv6ExtHdrLenBytesPerUnit + ipv6ExtHdrLenBytesExcluded)
        (by simp only [ipv6ExtHdrLenBytesPerUnit, ipv6ExtHdrLenBytesExcluded]; omega)
      simp only [readHeaderData, read]
      exact ⟨_, rfl⟩

/-! ### What `Next` does in each case -/

/-- The headers whose data `Next` returns as it was read, under their
identifiers. -/
inductive DataHeader : UInt8 → (List UInt8 → IPv6PayloadHeader) → Prop where
  | hopByHop : DataHeader ipv6HopByHopOptionsExtHdrIdentifier .hopByHop
  | routing : DataHeader ipv6RoutingExtHdrIdentifier .routing
  | destinationOptions : DataHeader ipv6DestinationOptionsExtHdrIdentifier .destinationOptions

/-- An identifier of no extension header the iterator parses and not the end
of the payload: that of an upper-layer protocol. -/
def IsUpperLayer (id : UInt8) : Prop :=
  id ≠ ipv6HopByHopOptionsExtHdrIdentifier ∧ id ≠ ipv6RoutingExtHdrIdentifier ∧ id ≠ ipv6FragmentExtHdrIdentifier ∧
    id ≠ ipv6DestinationOptionsExtHdrIdentifier ∧ id ≠ ipv6NoNextHeaderIdentifier

theorem identifier_cases (id : UInt8) :
    id = ipv6NoNextHeaderIdentifier ∨ (∃ header, DataHeader id header) ∨ id = ipv6FragmentExtHdrIdentifier ∨
      IsUpperLayer id := by
  by_cases none : id = ipv6NoNextHeaderIdentifier
  · exact .inl none
  by_cases hopByHop : id = ipv6HopByHopOptionsExtHdrIdentifier
  · exact .inr (.inl ⟨.hopByHop, by rw [hopByHop]; exact .hopByHop⟩)
  by_cases routing : id = ipv6RoutingExtHdrIdentifier
  · exact .inr (.inl ⟨.routing, by rw [routing]; exact .routing⟩)
  by_cases destination : id = ipv6DestinationOptionsExtHdrIdentifier
  · exact .inr (.inl ⟨.destinationOptions, by rw [destination]; exact .destinationOptions⟩)
  by_cases fragment : id = ipv6FragmentExtHdrIdentifier
  · exact .inr (.inr (.inl fragment))
  · exact .inr (.inr (.inr ⟨hopByHop, routing, fragment, destination, none⟩))

section Step

variable {i : IPv6PayloadIterator}

theorem next_of_forceRaw (forced : i.forceRaw = true) :
    i.next = ((some (.raw ⟨i.nextHdrIdentifier, i.payload⟩), false, none), i.asRawHeader.2) := by
  simp only [next, forced, if_true]
  rfl

theorem next_of_noNextHeader (notForced : i.forceRaw = false) (ends : i.nextHdrIdentifier = ipv6NoNextHeaderIdentifier) :
    i.next = ((none, true, none), i) := by
  simp only [next, notForced, ends, ipv6NoNextHeaderIdentifier, ipv6HopByHopOptionsExtHdrIdentifier, ipv6RoutingExtHdrIdentifier, ipv6FragmentExtHdrIdentifier, ipv6DestinationOptionsExtHdrIdentifier]
  rfl

theorem next_of_upperLayer (notForced : i.forceRaw = false) (upper : IsUpperLayer i.nextHdrIdentifier) :
    i.next = ((some (.raw ⟨i.nextHdrIdentifier, i.payload⟩), false, none), i.asRawHeader.2) := by
  obtain ⟨hopByHop, routing, fragment, destination, none⟩ := upper
  simp only [next, notForced, hopByHop, routing, fragment, destination, none, if_false, Bool.false_eq_true]
  rfl

theorem next_of_dataHeader (notForced : i.forceRaw = false) {header : List UInt8 → IPv6PayloadHeader}
    (kind : DataHeader i.nextHdrIdentifier header) : i.next = i.nextWithData header := by
  generalize named : i.nextHdrIdentifier = id at kind
  cases kind <;> simp only [next, notForced, named, ipv6NoNextHeaderIdentifier, ipv6HopByHopOptionsExtHdrIdentifier, ipv6RoutingExtHdrIdentifier, ipv6FragmentExtHdrIdentifier, ipv6DestinationOptionsExtHdrIdentifier] <;> rfl

theorem next_of_fragment (notForced : i.forceRaw = false) (fragment : i.nextHdrIdentifier = ipv6FragmentExtHdrIdentifier) :
    i.next =
      match i.nextHeaderData true with
      | (.error err, i) => ((none, true, some err), i)
      | (.ok (nextHdrIdentifier, data), i) =>
        let i := if fragmentOffset data ≠ 0 then { i with forceRaw := true } else i
        ((some (.fragment data), false, none), { i with nextHdrIdentifier }) := by
  simp only [next, notForced, fragment, ipv6NoNextHeaderIdentifier, ipv6HopByHopOptionsExtHdrIdentifier, ipv6RoutingExtHdrIdentifier, ipv6FragmentExtHdrIdentifier, ipv6DestinationOptionsExtHdrIdentifier]
  rfl

variable (live : Live i)
include live

theorem nextWithData_of_sized (header : List UInt8 → IPv6PayloadHeader) {next length : UInt8} {body rest : List UInt8}
    (contents : i.reader.contents = next :: length :: (body ++ rest)) (sized : body.length + 2 = 8 * (length.toNat + 1)) :
    (i.nextWithData header).1 = (some (header body), false, none) ∧ Live (i.nextWithData header).2 ∧
      (i.nextWithData header).2.reader.contents = rest ∧ (i.nextWithData header).2.nextHdrIdentifier = next ∧
      (i.nextWithData header).2.forceRaw = i.forceRaw := by
  obtain ⟨data, left, live', -, forced⟩ := nextHeaderData_spec live false
  rw [contents, readHeaderData_ok i.nextHdrIdentifier false next length (by simp; omega) rest] at data left
  unfold nextWithData
  generalize i.nextHeaderData false = result at data left live' forced
  obtain ⟨result, i'⟩ := result
  dsimp only at data left live' forced
  subst data
  exact ⟨rfl, ⟨live'.sound, live'.position⟩, left, rfl, forced⟩

theorem nextWithData_of_short (header : List UInt8 → IPv6PayloadHeader)
    (short : i.reader.contents.length < 8 * ((i.reader.contents.getD 1 0).toNat + 1)) :
    ∃ err, (i.nextWithData header).1 = (none, true, some err) := by
  obtain ⟨data, -, -, -, -⟩ := nextHeaderData_spec live false
  obtain ⟨err, failed⟩ := @readHeaderData_error i.nextHdrIdentifier false i.reader.contents
    (by simp only [Bool.false_eq_true, if_false]; omega)
  rw [failed] at data
  unfold nextWithData
  generalize i.nextHeaderData false = result at data
  obtain ⟨result, i'⟩ := result
  dsimp only at data
  subst data
  exact ⟨err, rfl⟩

theorem next_of_fragment_sized (notForced : i.forceRaw = false)
    (fragment : i.nextHdrIdentifier = ipv6FragmentExtHdrIdentifier) {next reserved : UInt8} {data rest : List UInt8}
    (contents : i.reader.contents = next :: reserved :: (data ++ rest)) (sized : data.length + 2 = 8) :
    i.next.1 = (some (.fragment data), false, none) ∧ Live i.next.2 ∧ i.next.2.reader.contents = rest ∧
      i.next.2.nextHdrIdentifier = next ∧ i.next.2.forceRaw = decide (fragmentOffset data ≠ 0) := by
  obtain ⟨read, left, live', -, forced⟩ := nextHeaderData_spec live true
  rw [contents, readHeaderData_ok i.nextHdrIdentifier true next reserved (by simp; omega) rest] at read left
  -- the header moves the iterator past it, and sets `forceRaw` for a later fragment
  have step : i.next = ((some (.fragment data), false, none),
      { nextHdrIdentifier := next, reader := (i.nextHeaderData true).2.reader,
        payload := (i.nextHeaderData true).2.payload, forceRaw := decide (fragmentOffset data ≠ 0) }) := by
    rw [next_of_fragment notForced fragment]
    generalize i.nextHeaderData true = result at read forced
    obtain ⟨result, i'⟩ := result
    dsimp only at read forced
    subst read
    by_cases later : fragmentOffset data ≠ 0 <;> simp [later, forced, notForced]
  rw [step]
  exact ⟨rfl, ⟨live'.sound, live'.position⟩, left, rfl, rfl⟩

theorem next_of_fragment_short (notForced : i.forceRaw = false)
    (fragment : i.nextHdrIdentifier = ipv6FragmentExtHdrIdentifier) (short : i.reader.contents.length < 8) :
    ∃ err, i.next.1 = (none, true, some err) := by
  obtain ⟨read, -, -, -, -⟩ := nextHeaderData_spec live true
  obtain ⟨err, failed⟩ := @readHeaderData_error i.nextHdrIdentifier true i.reader.contents
    (by simp only [if_true, UInt8.toNat_zero]; omega)
  rw [failed] at read
  rw [next_of_fragment notForced fragment]
  generalize i.nextHeaderData true = result at read
  obtain ⟨result, i'⟩ := result
  dsimp only at read
  subst read
  exact ⟨err, rfl⟩

end Step

/-! ### The header chain -/

/-- What a call of `Next` gives, on the bytes of the payload. -/
inductive Parsed where
  | header (header : IPv6PayloadHeader)
  | raw (identifier : UInt8) (bytes : List UInt8)
  | done
  | failed

/-- A call's result gives that on the bytes: the view of a raw payload holds
them. -/
inductive Matches : Option IPv6PayloadHeader × Bool × Option PayloadIterError → Parsed → Prop where
  | header (header : IPv6PayloadHeader) : Matches (some header, false, none) (.header header)
  | raw (header : IPv6RawPayloadHeader) {bytes : List UInt8} (holds : Represents header.buf bytes) :
      Matches (some (.raw header), false, none) (.raw header.identifier bytes)
  | done : Matches (none, true, none) .done
  | failed (err : PayloadIterError) : Matches (none, true, some err) .failed

/-- The calls of `Next` a payload should give, as RFC 8200 section 4 lays out
its headers, when its first header has identifier `id` and its bytes are
`bytes`. -/
inductive Chain : UInt8 → List UInt8 → List Parsed → Prop where
  /-- No Next Header ends the payload; what follows is not looked at. -/
  | noNextHeader (bytes : List UInt8) : Chain ipv6NoNextHeaderIdentifier bytes [.done]
  /-- An upper-layer header: the rest of the payload, as it is. -/
  | upperLayer {id : UInt8} (upper : IsUpperLayer id) (bytes : List UInt8) : Chain id bytes [.raw id bytes, .done]
  /-- A Hop-by-Hop Options, Routing or Destination Options header of
  `8 * (Length + 1)` bytes, its two fields included. -/
  | withData {id : UInt8} {header : List UInt8 → IPv6PayloadHeader} (kind : DataHeader id header)
      (next length : UInt8) {body : List UInt8} (sized : body.length + 2 = 8 * (length.toNat + 1))
      {rest : List UInt8} {calls : List Parsed} (chain : Chain next rest calls) :
      Chain id (next :: length :: (body ++ rest)) (.header (header body) :: calls)
  /-- The Fragment header of a first fragment, 8 bytes: the headers after it
  are parsed. -/
  | firstFragment (next reserved : UInt8) {data : List UInt8} (sized : data.length + 2 = 8)
      (first : fragmentOffset data = 0) {rest : List UInt8} {calls : List Parsed} (chain : Chain next rest calls) :
      Chain ipv6FragmentExtHdrIdentifier (next :: reserved :: (data ++ rest)) (.header (.fragment data) :: calls)
  /-- The Fragment header of a later fragment: what follows it is returned as
  it is. -/
  | laterFragment (next reserved : UInt8) {data : List UInt8} (sized : data.length + 2 = 8)
      (later : fragmentOffset data ≠ 0) (rest : List UInt8) :
      Chain ipv6FragmentExtHdrIdentifier (next :: reserved :: (data ++ rest))
        [.header (.fragment data), .raw next rest, .done]
  /-- A Hop-by-Hop Options, Routing or Destination Options header cut short. -/
  | truncated {id : UInt8} {header : List UInt8 → IPv6PayloadHeader} (kind : DataHeader id header)
      {bytes : List UInt8} (short : bytes.length < 8 * ((bytes.getD 1 0).toNat + 1)) : Chain id bytes [.failed]
  /-- A Fragment header cut short. -/
  | truncatedFragment {bytes : List UInt8} (short : bytes.length < 8) :
      Chain ipv6FragmentExtHdrIdentifier bytes [.failed]

/-! ### Runs of `Next` -/

theorem run_of_done {calls : Nat} {i i' : IPv6PayloadIterator}
    {result : Option IPv6PayloadHeader × Bool × Option PayloadIterError} (step : i.next = (result, i'))
    (done : result.2.1 = true) : run (calls + 1) i = [result] := by
  simp only [run, step, done, if_true]

theorem run_of_more {calls : Nat} {i i' : IPv6PayloadIterator}
    {result : Option IPv6PayloadHeader × Bool × Option PayloadIterError} (step : i.next = (result, i'))
    (more : result.2.1 = false) : run (calls + 1) i = result :: run calls i' := by
  simp only [run, step, more, Bool.false_eq_true, if_false]

theorem run_asRawHeader (calls : Nat) (i : IPv6PayloadIterator) :
    run (calls + 1) i.asRawHeader.2 = [(none, true, none)] :=
  run_of_done (next_of_noNextHeader rfl rfl) rfl

theorem run_raw {calls : Nat} {i : IPv6PayloadIterator} (live : Live i)
    (step : i.next = ((some (.raw ⟨i.nextHdrIdentifier, i.payload⟩), false, none), i.asRawHeader.2)) :
    List.Forall₂ Matches (run (calls + 2) i) [.raw i.nextHdrIdentifier i.reader.contents, .done] := by
  rw [run_of_more step rfl, run_asRawHeader]
  exact .cons (.raw ⟨i.nextHdrIdentifier, i.payload⟩ live.position) (.cons .done .nil)

theorem split_header {bytes : List UInt8} (dataLength : UInt8 → Nat)
    (long : dataLength (bytes.getD 1 0) + 2 ≤ bytes.length) :
    ∃ next field body rest, bytes = next :: field :: (body ++ rest) ∧ body.length = dataLength field := by
  match bytes, long with
  | next :: field :: tail, long =>
      simp only [List.getD_cons_succ, List.getD_cons_zero, List.length_cons] at long
      exact ⟨next, field, tail.take (dataLength field), tail.drop (dataLength field),
        by rw [List.take_append_drop], by rw [List.length_take]; omega⟩

theorem run_follows_chain (calls : Nat) :
    ∀ i : IPv6PayloadIterator, Live i → i.forceRaw = false → i.reader.contents.length / 8 + 2 ≤ calls →
      ∃ parsed, Chain i.nextHdrIdentifier i.reader.contents parsed ∧ List.Forall₂ Matches (run calls i) parsed := by
  induction calls with
  | zero => exact fun _ _ _ bound => absurd bound (by omega)
  | succ calls ih =>
    intro i live notForced bound
    rcases identifier_cases i.nextHdrIdentifier with none | ⟨header, kind⟩ | fragment | upper
    · -- No Next Header: the end
      refine ⟨[.done], by rw [none]; exact .noNextHeader _, ?_⟩
      rw [run_of_done (next_of_noNextHeader notForced none) rfl]
      exact .cons .done .nil
    · by_cases short : i.reader.contents.length < 8 * ((i.reader.contents.getD 1 0).toNat + 1)
      · -- a header cut short fails
        obtain ⟨err, failed⟩ := nextWithData_of_short live header short
        have step : i.next = ((none, true, some err), (i.nextWithData header).2) := by
          rw [next_of_dataHeader notForced kind, ← failed]
        refine ⟨[.failed], .truncated kind short, ?_⟩
        rw [run_of_done step rfl]
        exact .cons (.failed err) .nil
      · -- a whole header is returned, and the chain goes on after it
        obtain ⟨next, length, body, rest, contents, sized⟩ :=
          @split_header i.reader.contents (fun field => 8 * field.toNat + 6) (by omega)
        have sized' : body.length + 2 = 8 * (length.toNat + 1) := by omega
        obtain ⟨result, live', left, named, forced⟩ := nextWithData_of_sized live header contents sized'
        have step : i.next = ((some (header body), false, none), (i.nextWithData header).2) := by
          rw [next_of_dataHeader notForced kind, ← result]
        have fewer : (i.nextWithData header).2.reader.contents.length / 8 + 2 ≤ calls := by
          rw [left]
          have : i.reader.contents.length = rest.length + 8 * (length.toNat + 1) := by
            rw [contents]
            simp only [List.length_cons, List.length_append]
            omega
          omega
        obtain ⟨parsed, chain, matched⟩ := ih _ live' (forced.trans notForced) fewer
        rw [named, left] at chain
        refine ⟨.header (header body) :: parsed, by rw [contents]; exact .withData kind next length sized' chain, ?_⟩
        rw [run_of_more step rfl]
        exact .cons (.header _) matched
    · by_cases short : i.reader.contents.length < 8
      · -- a Fragment header cut short fails
        obtain ⟨err, failed⟩ := next_of_fragment_short live notForced fragment short
        refine ⟨[.failed], by rw [fragment]; exact .truncatedFragment short, ?_⟩
        have step : i.next = ((none, true, some err), i.next.2) := by rw [← failed]
        rw [run_of_done step rfl]
        exact .cons (.failed err) .nil
      · obtain ⟨next, reserved, data, rest, contents, sized⟩ := @split_header i.reader.contents (fun _ => 6) (by omega)
        obtain ⟨result, live', left, named, forced⟩ :=
          next_of_fragment_sized live notForced fragment contents (by omega)
        have step : i.next = ((some (.fragment data), false, none), i.next.2) := by rw [← result]
        have length : i.reader.contents.length = rest.length + 8 := by
          rw [contents]
          simp only [List.length_cons, List.length_append]
          omega
        by_cases later : fragmentOffset data ≠ 0
        · -- a later fragment: the rest, as it is, then the end
          obtain ⟨calls, rfl⟩ : ∃ fewer, calls = fewer + 2 := ⟨calls - 2, by omega⟩
          have forced' : i.next.2.forceRaw = true := by rw [forced, decide_eq_true later]
          have raw := @run_raw calls i.next.2 live' (next_of_forceRaw forced')
          rw [named, left] at raw
          refine ⟨[.header (.fragment data), .raw next rest, .done], ?_, ?_⟩
          · rw [fragment, contents]
            exact .laterFragment next reserved (by omega) later rest
          · rw [run_of_more step rfl]
            exact .cons (.header _) raw
        · -- a first fragment: the chain goes on after it
          have first : fragmentOffset data = 0 := not_not.mp later
          have notForced' : i.next.2.forceRaw = false := by rw [forced, decide_eq_false later]
          obtain ⟨parsed, chain, matched⟩ := ih i.next.2 live' notForced' (by rw [left]; omega)
          rw [named, left] at chain
          refine ⟨.header (.fragment data) :: parsed, ?_, ?_⟩
          · rw [fragment, contents]
            exact .firstFragment next reserved (by omega) first chain
          · rw [run_of_more step rfl]
            exact .cons (.header _) matched
    · -- an upper-layer header: the rest, as it is, then the end
      obtain ⟨calls, rfl⟩ : ∃ fewer, calls = fewer + 1 := ⟨calls - 1, by omega⟩
      exact ⟨_, .upperLayer upper _, run_raw live (next_of_upperLayer notForced upper)⟩

/-! ### The chain of a payload is unique -/

theorem DataHeader.not_upperLayer {id : UInt8} {header : List UInt8 → IPv6PayloadHeader} (kind : DataHeader id header) :
    ¬IsUpperLayer id := by
  intro upper
  cases kind
  · exact upper.1 rfl
  · exact upper.2.1 rfl
  · exact upper.2.2.2.1 rfl

theorem DataHeader.unique {id : UInt8} {header header' : List UInt8 → IPv6PayloadHeader} (kind : DataHeader id header)
    (kind' : DataHeader id header') : header = header' := by
  cases kind <;> cases kind' <;> rfl

theorem split_unique {next next' field field' : UInt8} {body body' rest rest' : List UInt8}
    (same : next :: field :: (body ++ rest) = next' :: field' :: (body' ++ rest')) (dataLength : UInt8 → Nat)
    (sized : body.length = dataLength field) (sized' : body'.length = dataLength field') :
    next = next' ∧ field = field' ∧ body = body' ∧ rest = rest' := by
  simp only [List.cons.injEq] at same
  obtain ⟨rfl, rfl, data⟩ := same
  obtain ⟨body_eq, rest_eq⟩ := List.append_inj data (by omega)
  exact ⟨rfl, rfl, body_eq, rest_eq⟩

theorem not_short_of_sized {next length : UInt8} {body rest : List UInt8} (sized : body.length + 2 = 8 * (length.toNat + 1)) :
    ¬(next :: length :: (body ++ rest)).length < 8 * (((next :: length :: (body ++ rest)).getD 1 0).toNat + 1) := by
  simp only [List.length_cons, List.length_append, List.getD_cons_succ, List.getD_cons_zero]
  omega

theorem Chain.unique {id : UInt8} {bytes : List UInt8} {calls calls' : List Parsed} (chain : Chain id bytes calls)
    (other : Chain id bytes calls') : calls = calls' := by
  induction chain generalizing calls' with
  | noNextHeader bytes =>
      cases other with
      | noNextHeader => rfl
      | upperLayer upper => exact absurd rfl upper.2.2.2.2
      | withData kind => cases kind
      | truncated kind => cases kind
  | upperLayer upper bytes =>
      cases other with
      | noNextHeader => exact absurd rfl upper.2.2.2.2
      | upperLayer => rfl
      | withData kind => exact absurd upper kind.not_upperLayer
      | firstFragment => exact absurd rfl upper.2.2.1
      | laterFragment => exact absurd rfl upper.2.2.1
      | truncated kind => exact absurd upper kind.not_upperLayer
      | truncatedFragment => exact absurd rfl upper.2.2.1
  | withData kind next length sized chain ih =>
      generalize same : next :: length :: _ = bytes at other
      cases other with
      | noNextHeader => cases kind
      | upperLayer upper => exact absurd upper kind.not_upperLayer
      | withData kind' next' length' sized' chain' =>
          obtain ⟨rfl, rfl, rfl, rfl⟩ := split_unique same (fun length => 8 * length.toNat + 6) (by omega) (by omega)
          rw [kind.unique kind', ih chain']
      | firstFragment => cases kind
      | laterFragment => cases kind
      | truncated kind' short =>
          subst same
          exact absurd short (not_short_of_sized sized)
      | truncatedFragment => cases kind
  | firstFragment next reserved sized first chain ih =>
      generalize same : next :: reserved :: _ = bytes at other
      cases other with
      | upperLayer upper => exact absurd rfl upper.2.2.1
      | withData kind => cases kind
      | firstFragment next' reserved' sized' first' chain' =>
          obtain ⟨rfl, -, rfl, rfl⟩ := split_unique same (fun _ => 6) (by omega) (by omega)
          rw [ih chain']
      | laterFragment next' reserved' sized' later' =>
          obtain ⟨-, -, rfl, -⟩ := split_unique same (fun _ => 6) (by omega) (by omega)
          exact absurd first later'
      | truncated kind => cases kind
      | truncatedFragment short =>
          subst same
          simp only [List.length_cons, List.length_append] at short
          omega
  | laterFragment next reserved sized later rest =>
      generalize same : next :: reserved :: _ = bytes at other
      cases other with
      | upperLayer upper => exact absurd rfl upper.2.2.1
      | withData kind => cases kind
      | firstFragment next' reserved' sized' first' =>
          obtain ⟨-, -, rfl, -⟩ := split_unique same (fun _ => 6) (by omega) (by omega)
          exact absurd first' later
      | laterFragment next' reserved' sized' later' =>
          obtain ⟨rfl, -, rfl, rfl⟩ := split_unique same (fun _ => 6) (by omega) (by omega)
          rfl
      | truncated kind => cases kind
      | truncatedFragment short =>
          subst same
          simp only [List.length_cons, List.length_append] at short
          omega
  | truncated kind short =>
      cases other with
      | noNextHeader => cases kind
      | upperLayer upper => exact absurd upper kind.not_upperLayer
      | withData kind' next' length' sized' =>
          exact absurd short (not_short_of_sized sized')
      | firstFragment => cases kind
      | laterFragment => cases kind
      | truncated => rfl
      | truncatedFragment => cases kind
  | truncatedFragment short =>
      cases other with
      | upperLayer upper => exact absurd rfl upper.2.2.1
      | withData kind => cases kind
      | firstFragment next' reserved' sized' =>
          simp only [List.length_cons, List.length_append] at short
          omega
      | laterFragment next' reserved' sized' =>
          simp only [List.length_cons, List.length_append] at short
          omega
      | truncated kind => cases kind
      | truncatedFragment => rfl

/-! ### The two cursors over every run -/

/-- What every state of the iterator keeps: the payload copy holds exactly the
bytes the reader has not returned, and the reader can read unless the
iterator has been consumed by `AsRawHeader`. -/
structure Synced (i : IPv6PayloadIterator) : Prop where
  position : Represents i.payload i.reader.contents
  readable : i.reader.Sound ∨ (i.nextHdrIdentifier = ipv6NoNextHeaderIdentifier ∧ i.forceRaw = false)

theorem Live.synced {i : IPv6PayloadIterator} (live : Live i) : Synced i :=
  ⟨live.position, .inl live.sound⟩

theorem synced_asRawHeader (i : IPv6PayloadIterator) : Synced i.asRawHeader.2 :=
  ⟨⟨rfl, rfl⟩, .inr ⟨rfl, rfl⟩⟩

theorem live_nextWithData {i : IPv6PayloadIterator} (live : Live i) (header : List UInt8 → IPv6PayloadHeader) :
    Live (i.nextWithData header).2 := by
  obtain ⟨-, -, live', -, -⟩ := nextHeaderData_spec live false
  unfold nextWithData
  generalize i.nextHeaderData false = result at live'
  obtain ⟨_ | ⟨next, bytes⟩, i'⟩ := result
  · exact live'
  · exact ⟨live'.sound, live'.position⟩

theorem live_next_of_fragment {i : IPv6PayloadIterator} (live : Live i) (notForced : i.forceRaw = false)
    (fragment : i.nextHdrIdentifier = ipv6FragmentExtHdrIdentifier) : Live i.next.2 := by
  obtain ⟨-, -, live', -, -⟩ := nextHeaderData_spec live true
  rw [next_of_fragment notForced fragment]
  generalize i.nextHeaderData true = result at live'
  obtain ⟨_ | ⟨next, data⟩, i'⟩ := result
  · exact live'
  · dsimp only
    split <;> exact ⟨live'.sound, live'.position⟩

theorem Synced.next {i : IPv6PayloadIterator} (synced : Synced i) : Synced i.next.2 := by
  rcases synced.readable with sound | ⟨none, notForced⟩
  · have live : Live i := ⟨sound, synced.position⟩
    cases forced : i.forceRaw
    · rcases identifier_cases i.nextHdrIdentifier with none | ⟨header, kind⟩ | fragment | upper
      · rw [next_of_noNextHeader forced none]
        exact synced
      · rw [next_of_dataHeader forced kind]
        exact (live_nextWithData live header).synced
      · exact (live_next_of_fragment live forced fragment).synced
      · rw [next_of_upperLayer forced upper]
        exact synced_asRawHeader i
    · rw [next_of_forceRaw forced]
      exact synced_asRawHeader i
  · rw [next_of_noNextHeader notForced none]
    exact synced

/-! ### Every run ends -/

theorem Chain.getLast? {id : UInt8} {bytes : List UInt8} {calls : List Parsed} (chain : Chain id bytes calls) :
    calls.getLast? = some .done ∨ calls.getLast? = some .failed := by
  induction chain with
  | noNextHeader | upperLayer | laterFragment => exact .inl rfl
  | truncated | truncatedFragment => exact .inr rfl
  | withData _ _ _ _ _ ih | firstFragment _ _ _ _ _ ih =>
      rw [List.getLast?_cons]
      rcases ih with last | last <;> simp [last]

theorem forall₂_getLast? {α β : Type} {R : α → β → Prop} {xs : List α} {ys : List β} (related : List.Forall₂ R xs ys)
    {y : β} (last : ys.getLast? = some y) : ∃ x, xs.getLast? = some x ∧ R x y := by
  induction related with
  | nil => nomatch last
  | @cons x y' xs ys head tail ih =>
      cases tail with
      | nil =>
          simp only [List.getLast?_singleton, Option.some.injEq] at last
          exact ⟨x, rfl, last ▸ head⟩
      | cons head' tail' =>
          obtain ⟨x', last', related'⟩ := ih (by simpa [List.getLast?_cons_cons] using last)
          exact ⟨x', by simpa [List.getLast?_cons_cons] using last', related'⟩

theorem Matches.done_of_end {result : Option IPv6PayloadHeader × Bool × Option PayloadIterError} {parsed : Parsed}
    (matched : Matches result parsed) (ends : parsed = .done ∨ parsed = .failed) : result.2.1 = true := by
  cases matched with
  | done | failed => rfl
  | header | raw => simp at ends

/-! ### The iterator parses the header chain -/

/-- For every first identifier and every view of the payload, however it is
split: the calls of `Next` from `MakeIPv6PayloadIterator`, at most
`size / 8 + 2` of them, are those of the one header chain of the payload's
bytes and end with a call that is done; and every call keeps the reader and
the trimmed payload copy at the same place. -/
theorem payloadIterator_follows_header_chain (id : UInt8) {payload : VectorisedView} {bytes : List UInt8}
    (holds : Represents payload bytes) :
    (∃ parsed, Chain id bytes parsed ∧
      List.Forall₂ Matches (run (bytes.length / 8 + 2) (makeIPv6PayloadIterator id payload)) parsed ∧
      ∀ parsed', Chain id bytes parsed' → parsed' = parsed) ∧
    (∃ last, (run (bytes.length / 8 + 2) (makeIPv6PayloadIterator id payload)).getLast? = some last ∧
      last.2.1 = true) ∧
    Synced (makeIPv6PayloadIterator id payload) ∧ ∀ i : IPv6PayloadIterator, Synced i → Synced i.next.2 := by
  obtain ⟨live, contents⟩ := live_make id holds
  obtain ⟨parsed, chain, matched⟩ :=
    run_follows_chain (bytes.length / 8 + 2) (makeIPv6PayloadIterator id payload) live rfl (Nat.le_of_eq (by rw [contents]))
  rw [contents] at chain
  have ends : ∃ last, (run (bytes.length / 8 + 2) (makeIPv6PayloadIterator id payload)).getLast? = some last ∧
      last.2.1 = true := by
    rcases chain.getLast? with last | last
    · obtain ⟨result, resultLast, matchedLast⟩ := forall₂_getLast? matched last
      exact ⟨result, resultLast, matchedLast.done_of_end (.inl rfl)⟩
    · obtain ⟨result, resultLast, matchedLast⟩ := forall₂_getLast? matched last
      exact ⟨result, resultLast, matchedLast.done_of_end (.inr rfl)⟩
  exact ⟨⟨parsed, chain, matched, fun parsed' other => (chain.unique other).symm⟩, ends, live.synced,
    fun _ synced => synced.next⟩

/-- A Hop-by-Hop Options header of 8 bytes followed by No Next Header, split
across two views in the middle of the header. -/
theorem payloadIterator_follows_header_chain_split_views :
    Represents ⟨[[59, 0, 1, 2], [3, 4, 5, 6]], 8⟩ [59, 0, 1, 2, 3, 4, 5, 6] ∧
    ((∃ parsed, Chain 0 [59, 0, 1, 2, 3, 4, 5, 6] parsed ∧
      List.Forall₂ Matches (run (8 / 8 + 2) (makeIPv6PayloadIterator 0 ⟨[[59, 0, 1, 2], [3, 4, 5, 6]], 8⟩)) parsed ∧
      ∀ parsed', Chain 0 [59, 0, 1, 2, 3, 4, 5, 6] parsed' → parsed' = parsed) ∧
    (∃ last, (run (8 / 8 + 2) (makeIPv6PayloadIterator 0 ⟨[[59, 0, 1, 2], [3, 4, 5, 6]], 8⟩)).getLast? = some last ∧
      last.2.1 = true) ∧
    Synced (makeIPv6PayloadIterator 0 ⟨[[59, 0, 1, 2], [3, 4, 5, 6]], 8⟩) ∧
    ∀ i : IPv6PayloadIterator, Synced i → Synced i.next.2) :=
  ⟨⟨rfl, rfl⟩, payloadIterator_follows_header_chain 0 ⟨rfl, rfl⟩⟩

end IPv6PayloadIterator

end Cijitter.Header
