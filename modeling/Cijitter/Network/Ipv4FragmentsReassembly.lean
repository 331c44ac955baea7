import Cijitter.Network.Ipv4FragmentsProperties

/-! The fragments `writePacketFragments` sends reassemble into the packet's
payload, whatever the order they arrive in. `Process` receives piece `k`
as the range `[k * inner, k * inner + length - 1]` with its bytes, more to
come for every piece but the last (`expectedPiece`). The pieces are
distinct and cover the payload once each, so the pieces received complete
the packet exactly when all of them are in, and each byte reassembled is
the payload's byte at its offset. -/

set_option autoImplicit false

namespace Cijitter.Network

open TcpipBuffer Header

/-- Piece `k` of `n` as `Process` receives it. -/
def expectedPiece (payload : List UInt8) (inner n k : Nat) : Piece :=
  ⟨(k * inner).toUInt16, (k * inner).toUInt16 + (chunk payload inner k).length.toUInt16 - 1, decide (k + 1 ≠ n),
    chunk payload inner k⟩

/-- The pieces received are among the `n` pieces of the payload. -/
def Received (payload : List UInt8) (inner n : Nat) (received : List Piece) : Prop :=
  ∀ p ∈ received, ∃ k < n, p = expectedPiece payload inner n k

theorem nodup_map_range' {α : Type} (f : Nat → α) (n : Nat) :
    ∀ start, (∀ a b, start ≤ a → a < start + n → start ≤ b → b < start + n → f a = f b → a = b) →
      ((List.range' start n).map f).Nodup := by
  induction n with
  | zero => exact fun _ _ => List.nodup_nil
  | succ n ih =>
      intro start injective
      rw [List.range'_succ, List.map_cons, List.nodup_cons]
      refine ⟨fun member => ?_, ih (start + 1) fun a b ha ha' hb hb' same => injective a b (by omega) (by omega) (by omega)
        (by omega) same⟩
      obtain ⟨b, inRange, same⟩ := List.mem_map.mp member
      obtain ⟨i, below, rfl⟩ := List.mem_range'.mp inRange
      have := injective _ _ (Nat.le_refl start) (by omega) (by omega) (by omega) same.symm
      omega

section Pieces

variable {payload : List UInt8} {inner n : Nat} (cut : Cut payload inner n)
include cut

theorem Cut.count_pos : 0 < n :=
  Nat.pos_of_ne_zero fun zero => by
    have covers := cut.covers
    have := cut.before
    rw [zero, Nat.zero_mul] at covers
    omega

section Piece

variable {k : Nat} (within : k < n)
include within

theorem Cut.toNat_first : (expectedPiece payload inner n k).first.toNat = k * inner := by
  have := cut.chunk_end_le within
  have := cut.small
  have := cut.chunk_pos within
  simp only [expectedPiece, Nat.toUInt16_eq, UInt16.toNat_ofNat']
  omega

theorem Cut.toNat_last :
    (expectedPiece payload inner n k).last.toNat = k * inner + (chunk payload inner k).length - 1 := by
  have := cut.chunk_end_le within
  have := cut.small
  have := cut.chunk_pos within
  have sum : ((k * inner).toUInt16 + (chunk payload inner k).length.toUInt16).toNat =
      k * inner + (chunk payload inner k).length := by
    rw [UInt16.toNat_add, Nat.toUInt16_eq, Nat.toUInt16_eq, UInt16.toNat_ofNat', UInt16.toNat_ofNat']
    omega
  have one : (1 : UInt16) ≤ (k * inner).toUInt16 + (chunk payload inner k).length.toUInt16 := by
    rw [UInt16.le_iff_toNat_le, sum]
    exact Nat.le_trans this (Nat.le_add_left _ _)
  show ((k * inner).toUInt16 + (chunk payload inner k).length.toUInt16 - 1).toNat = _
  rw [UInt16.toNat_sub_of_le _ _ one, sum]
  rfl

theorem Cut.fits : (expectedPiece payload inner n k).Fits (payload.length - 1) := by
  have first := cut.toNat_first within
  have last := cut.toNat_last within
  have := cut.chunk_pos within
  have := cut.chunk_end_le within
  refine ⟨by omega, ?_, fun more => ?_, fun more => ?_⟩
  · rw [last, first]
    show (chunk payload inner k).length = _
    omega
  · have next : k + 1 < n := by simp only [expectedPiece, decide_eq_true_eq] at more; omega
    have whole := length_chunk_of_lt cut.before next
    have start := start_le_of_lt next inner
    have := cut.before
    rw [last, whole]
    rw [Nat.add_one_mul] at start
    omega
  · have final : k + 1 = n := by simp only [expectedPiece, decide_eq_false_iff_not, not_not] at more; exact more
    rw [last, length_chunk_of_last cut.covers final]
    omega

theorem Cut.covers_iff (x : Nat) :
    (expectedPiece payload inner n k).Covers x ↔ k * inner ≤ x ∧ x < k * inner + (chunk payload inner k).length := by
  have := cut.chunk_pos within
  rw [Piece.Covers, cut.toNat_first within, cut.toNat_last within]
  omega

theorem Cut.div_of_covers {x : Nat} (covers : (expectedPiece payload inner n k).Covers x) : x / inner = k := by
  obtain ⟨low, high⟩ := (cut.covers_iff within x).mp covers
  have := chunk_end_le_next payload inner k
  exact Nat.div_eq_of_lt_le low (by omega)

theorem Cut.byte_of_covers {x : Nat} (covers : (expectedPiece payload inner n k).Covers x) :
    (expectedPiece payload inner n k).vv[x - (expectedPiece payload inner n k).first.toNat]? = payload[x]? := by
  obtain ⟨low, high⟩ := (cut.covers_iff within x).mp covers
  have := length_chunk_le payload inner k
  rw [cut.toNat_first within]
  simp only [expectedPiece, chunk]
  rw [List.getElem?_take, if_pos (by omega), List.getElem?_drop, Nat.add_sub_cancel' low]

end Piece

theorem Cut.covered {x : Nat} (inside : x < payload.length) :
    x / inner < n ∧ (expectedPiece payload inner n (x / inner)).Covers x := by
  have within : x / inner < n := (Nat.div_lt_iff_lt_mul cut.positive).mpr (Nat.lt_of_lt_of_le inside cut.covers)
  refine ⟨within, (cut.covers_iff within x).mpr ⟨Nat.div_mul_le_self x inner, ?_⟩⟩
  have := Nat.mod_add_div x inner
  have := Nat.mod_lt x cut.positive
  rw [length_chunk, Nat.mul_comm]
  omega

theorem Cut.nodup : ((List.range n).map (expectedPiece payload inner n)).Nodup := by
  rw [List.range_eq_range']
  refine nodup_map_range' _ n 0 fun a b _ ha _ hb same => ?_
  have firsts := congrArg (fun p => p.first.toNat) same
  rw [cut.toNat_first (by omega), cut.toNat_first (by omega)] at firsts
  exact Nat.eq_of_mul_eq_mul_right cut.positive firsts

theorem Cut.complete_iff {received : List Piece} (among : Received payload inner n received) :
    Complete (payload.length - 1) received ↔ ∀ k < n, expectedPiece payload inner n k ∈ received := by
  have nonempty : 0 < payload.length := by have := cut.before; omega
  have last : n - 1 < n := by have := cut.count_pos; omega
  constructor
  · rintro ⟨-, covered⟩ k within
    -- the first offset of piece `k` is covered by piece `k` alone
    have := cut.chunk_end_le within
    have := cut.chunk_pos within
    obtain ⟨p, member, covers⟩ := covered (k * inner) (by omega)
    obtain ⟨k', within', rfl⟩ := among p member
    have same := cut.div_of_covers within' covers
    rw [Nat.mul_div_cancel _ cut.positive] at same
    rw [same]
    exact member
  · intro all
    refine ⟨⟨_, all (n - 1) last, by simp only [expectedPiece, decide_eq_false_iff_not, not_not]; omega⟩,
      fun x below => ?_⟩
    obtain ⟨within, covers⟩ := cut.covered (by omega : x < payload.length)
    exact ⟨_, all _ within, covers⟩

theorem Cut.incomplete_of_short {received : List Piece} (among : Received payload inner n received)
    (short : received.length < n) : ¬Complete (payload.length - 1) received := by
  intro complete
  have all := (cut.complete_iff among).mp complete
  have included : (List.range n).map (expectedPiece payload inner n) ⊆ received := by
    intro p member
    obtain ⟨k, inRange, rfl⟩ := List.mem_map.mp member
    exact all k (List.mem_range.mp inRange)
  have := cut.nodup.length_le_of_subset included
  rw [List.length_map, List.length_range] at this
  omega

theorem Cut.flatten_range_chunks : ((List.range n).map (chunk payload inner)).flatten = payload := by
  rw [List.range_eq_range', flatten_chunks, Nat.zero_mul, List.drop_zero, List.take_of_length_le cut.covers]

end Pieces

section Arrivals

variable {payload : List UInt8} {inner n : Nat} {arrivals : List Arrival}
  (pieces : (arrivals.map Arrival.piece).Perm ((List.range n).map (expectedPiece payload inner n)))
include pieces

theorem length_of_pieces : arrivals.length = n := by
  have := pieces.length_eq
  rwa [List.length_map, List.length_map, List.length_range] at this

theorem received_of_pieces {l : List Arrival} (sub : ∀ b ∈ l, b ∈ arrivals) :
    Received payload inner n (l.map Arrival.piece) := by
  intro p member
  obtain ⟨b, inL, rfl⟩ := List.mem_map.mp member
  obtain ⟨k, inRange, same⟩ := List.mem_map.mp (pieces.subset (List.mem_map_of_mem (sub b inL)))
  exact ⟨k, List.mem_range.mp inRange, same.symm⟩

variable (cut : Cut payload inner n)
include cut

theorem Cut.fits_arrival {b : Arrival} (member : b ∈ arrivals) : b.piece.Fits (payload.length - 1) := by
  obtain ⟨k, inRange, same⟩ := List.mem_map.mp (pieces.subset (List.mem_map_of_mem member))
  rw [← same]
  exact cut.fits (List.mem_range.mp inRange)

theorem Cut.arrivedBytes_arrivals : arrivedBytes arrivals = payload.length := by
  have lengths := (pieces.map fun p => p.vv.length).sum_nat
  rw [List.map_map, List.map_map] at lengths
  rw [arrivedBytes_eq_sum]
  congr 1
  calc (arrivals.map fun a => a.vv.length).sum
      = ((List.range n).map ((fun p => p.vv.length) ∘ expectedPiece payload inner n)).sum := lengths
    _ = ((List.range n).map (chunk payload inner)).flatten.length := by rw [List.length_flatten, List.map_map]; rfl
    _ = payload.length := by rw [cut.flatten_range_chunks]

theorem Cut.arrivedBytes_take_le (m : Nat) : arrivedBytes (arrivals.take m) ≤ payload.length := by
  have whole := cut.arrivedBytes_arrivals pieces
  rw [← List.take_append_drop m arrivals, arrivedBytes_append] at whole
  have := arrivedBytes_nonneg (arrivals.drop m)
  omega

theorem Cut.process_arrivals (high low timeout : Int) (id : UInt32) (sameId : ∀ b ∈ arrivals, b.id = id)
    (inTime : ∀ b ∈ arrivals, ∀ c ∈ arrivals, c.now - b.now ≤ timeout) (room : (payload.length : Int) ≤ high)
    {j : Nat} {a : Arrival} (arrived : arrivals[j]? = some a) :
    ((StepRun.run Fragmentation.step (newFragmentation high low timeout) (arrivals.take j)).process a.id a.first
        a.last a.more a.vv a.now).2 =
      if j + 1 < n then .ok ([], false) else .ok (payload, true) := by
  have member : a ∈ arrivals := List.mem_of_getElem? arrived
  have below : j < n := length_of_pieces pieces ▸ (List.getElem?_eq_some_iff.mp arrived).1
  have took : arrivals.take (j + 1) = arrivals.take j ++ [a] := by rw [List.take_add_one, arrived]; rfl
  have earlier : ∀ b ∈ arrivals.take j, b ∈ arrivals := fun b => List.mem_of_mem_take
  have upTo : ∀ b ∈ arrivals.take j ++ [a], b ∈ arrivals := fun b inTake => List.mem_of_mem_take (took ▸ inTake)
  have bound : payload.length - 1 ≤ 65535 := by have := cut.small; omega
  have room' : arrivedBytes (arrivals.take j ++ [a]) ≤ high := by
    rw [← took]
    exact Int.le_trans (cut.arrivedBytes_take_le pieces _) room
  have aInTime : ∀ b ∈ arrivals.take j, a.now - b.now ≤ timeout := fun b m => inTime b (earlier b m) a member
  -- the arrivals before `a` are fewer than the pieces, so they leave the packet incomplete
  have reassembling := reassembling_of_run bound high low timeout id (arrivals.take j)
    (fun b m => sameId b (earlier b m)) (fun b m => cut.fits_arrival pieces (earlier b m))
    (fun b mb c mc => inTime b (earlier b mb) c (earlier c mc)) (Int.le_trans (cut.arrivedBytes_take_le pieces j) room)
    (cut.incomplete_of_short (received_of_pieces pieces earlier) (by rw [List.length_map, List.length_take]; omega))
  by_cases more : j + 1 < n
  · rw [if_pos more]
    have incomplete := cut.incomplete_of_short (received_of_pieces pieces upTo)
      (by rw [List.length_map, List.length_append, List.length_take, List.length_singleton]; omega)
    exact (reassembling.process_of_incomplete (sameId a member) (cut.fits_arrival pieces member) bound aInTime room'
      incomplete).1
  · rw [if_neg more]
    have all : arrivals.take j ++ [a] = arrivals := by
      rw [← took]
      exact List.take_of_length_le (by rw [length_of_pieces pieces]; omega)
    have complete : Complete (payload.length - 1) ((arrivals.take j ++ [a]).map Arrival.piece) :=
      (cut.complete_iff (received_of_pieces pieces upTo)).mpr fun k within => by
        rw [all]
        exact pieces.symm.subset (List.mem_map_of_mem (List.mem_range.mpr within))
    obtain ⟨res, result, length, bytes⟩ :=
      reassembling.process_of_complete (sameId a member) (cut.fits_arrival pieces member) bound aInTime complete
    -- each byte reassembled comes from a piece covering its offset, which holds the payload's byte there
    have same : res = payload := List.ext_getElem? fun x => by
      by_cases inside : x < payload.length
      · obtain ⟨b, received, covers, byte⟩ := bytes x (by omega)
        obtain ⟨k, within, piece⟩ := received_of_pieces pieces upTo b.piece (List.mem_map_of_mem received)
        rw [byte]
        have payloadByte := cut.byte_of_covers within (piece ▸ covers)
        rw [← piece] at payloadByte
        exact payloadByte
      · have := cut.before
        rw [List.getElem?_eq_none (show res.length ≤ x by omega), List.getElem?_eq_none (show payload.length ≤ x by omega)]
    rw [result, same]

end Arrivals

section Zip

variable {α β γ δ : Type} {f : α → β → γ} {g : γ → δ}

theorem map_zipWith_of_left {h : α → δ} (ignores : ∀ a b, g (f a b) = h a) :
    ∀ (as : List α) (bs : List β), as.length ≤ bs.length → (List.zipWith f as bs).map g = as.map h
  | [], _, _ => rfl
  | _ :: _, [], long => absurd long (by simp)
  | a :: as, b :: bs, long => by
      rw [List.zipWith_cons_cons, List.map_cons, List.map_cons, ignores,
        map_zipWith_of_left ignores as bs (by simpa using long)]

theorem map_zipWith_of_right {h : β → δ} (ignores : ∀ a b, g (f a b) = h b) (as : List α) (bs : List β)
    (long : bs.length ≤ as.length) : (List.zipWith f as bs).map g = bs.map h := by
  rw [List.zipWith_comm]
  exact map_zipWith_of_left (fun b a => ignores a b) bs as long

end Zip

namespace Fragmentable

section Arrival

variable {mtu : Int} {pkt : PacketBuffer} {hdr head tail : List UInt8} (fragmentable : Fragmentable mtu pkt hdr head tail)
  {k : Nat} (within : k < fragmentCount (head ++ tail).length (innerSize mtu hdr.length))
include fragmentable within

theorem fragmentArrival_expectedFragment (hashIV : UInt32) (now : Int) :
    fragmentArrival hashIV now (expectedFragment hdr (head ++ tail) (innerSize mtu hdr.length)
        (fragmentCount (head ++ tail).length (innerSize mtu hdr.length)) k) =
      ⟨ipv4FragmentHash hashIV hdr, (k * innerSize mtu hdr.length).toUInt16,
        (k * innerSize mtu hdr.length).toUInt16 + (chunk (head ++ tail) (innerSize mtu hdr.length) k).length.toUInt16 - 1,
        decide (k + 1 ≠ fragmentCount (head ++ tail).length (innerSize mtu hdr.length)) || IPv4.more hdr,
        chunk (head ++ tail) (innerSize mtu hdr.length) k, now⟩ := by
  have minimum := fragmentable.minimum
  unfold ipv4MinimumSize at minimum
  have small := fragmentable.total_lt
  have := fragmentable.cut.chunk_end_le within
  have offset := fragmentable.fragmentOffset_expectedFragment within
  have total := fragmentable.totalLength_expectedFragment within
  have more := fragmentable.more_expectedFragment (fragmentCount (head ++ tail).length (innerSize mtu hdr.length)) k
  generalize fragmentCount (head ++ tail).length (innerSize mtu hdr.length) = n at within offset total more ⊢
  set bytes := expectedFragment hdr (head ++ tail) (innerSize mtu hdr.length) n k with bytesDef
  have length : bytes.length = hdr.length + (chunk (head ++ tail) (innerSize mtu hdr.length) k).length :=
    length_expectedFragment hdr (head ++ tail) (innerSize mtu hdr.length) n k
  have headerLen : (IPv4.headerLength bytes).toNat = hdr.length := by
    rw [bytesDef, expectedFragment,
      IPv4.headerLength_append _ (List.ne_nil_of_length_pos (by rw [IPv4.length_setFields]; omega)),
      IPv4.headerLength_setFields, fragmentable.ihl]
  -- `Parse` pulls up the whole header, options included, and reads its fields from it
  have hdrLen : (if hdr.length > ipv4MinimumSize ∧ hdr.length ≤ bytes.length then hdr.length else ipv4MinimumSize) =
      hdr.length := by
    unfold ipv4MinimumSize
    split <;> omega
  have readId : ipv4FragmentHash hashIV (bytes.take hdr.length) = ipv4FragmentHash hashIV hdr := by
    rw [bytesDef, take_expectedFragment]
    exact ipv4FragmentHash_congr hashIV fun j kept => IPv4.getElem?_setFields_of_not_sealed _ _ _ _ kept
  have readOffset : IPv4.fragmentOffset (bytes.take hdr.length) = (k * innerSize mtu hdr.length).toUInt16 := by
    apply UInt16.toNat_inj.mp
    rw [IPv4.fragmentOffset, uint16At_take _ (by omega), ← IPv4.fragmentOffset, offset, Nat.toUInt16_eq,
      UInt16.toNat_ofNat', Nat.mod_eq_of_lt (by omega)]
  have readMore : IPv4.more (bytes.take hdr.length) = (decide (k + 1 ≠ n) || IPv4.more hdr) := by
    rw [IPv4.more, IPv4.flags, uint16At_take _ (by omega), ← IPv4.flags, ← IPv4.more, more]
  -- the total length is the fragment's, so `Parse` keeps all of its piece
  have readData : (bytes.drop hdr.length).take ((IPv4.totalLength (bytes.take hdr.length)).toNat -
      (bytes.take hdr.length).length) = chunk (head ++ tail) (innerSize mtu hdr.length) k := by
    rw [IPv4.totalLength, uint16At_take _ (by omega), ← IPv4.totalLength, total, List.length_take, length,
      Nat.min_eq_left (by omega), Nat.add_sub_cancel_left, bytesDef, drop_expectedFragment, List.take_length]
  simp only [fragmentArrival, headerLen, hdrLen, readId, readOffset, readMore, readData]

theorem id_fragmentArrival (hashIV : UInt32) (now : Int) :
    (fragmentArrival hashIV now (expectedFragment hdr (head ++ tail) (innerSize mtu hdr.length)
      (fragmentCount (head ++ tail).length (innerSize mtu hdr.length)) k)).id = ipv4FragmentHash hashIV hdr := by
  rw [fragmentable.fragmentArrival_expectedFragment within]

theorem piece_fragmentArrival (alone : IPv4.more hdr = false) (hashIV : UInt32) (now : Int) :
    (fragmentArrival hashIV now (expectedFragment hdr (head ++ tail) (innerSize mtu hdr.length)
        (fragmentCount (head ++ tail).length (innerSize mtu hdr.length)) k)).piece =
      expectedPiece (head ++ tail) (innerSize mtu hdr.length) (fragmentCount (head ++ tail).length (innerSize mtu hdr.length))
        k := by
  rw [fragmentable.fragmentArrival_expectedFragment within, alone, Bool.or_false]
  rfl

end Arrival

section Delivery

variable {mtu : Int} {pkt : PacketBuffer} {hdr head tail : List UInt8} (fragmentable : Fragmentable mtu pkt hdr head tail)
include fragmentable

theorem process_fragments (alone : IPv4.more hdr = false) (hashIV : UInt32) (high low timeout : Int)
    {order : List (List UInt8)}
    (permuted : order.Perm ((List.range (fragmentCount (head ++ tail).length (innerSize mtu hdr.length))).map
      (expectedFragment hdr (head ++ tail) (innerSize mtu hdr.length)
        (fragmentCount (head ++ tail).length (innerSize mtu hdr.length)))))
    {times : List Int} (timed : times.length = order.length) (inTime : ∀ s ∈ times, ∀ t ∈ times, t - s ≤ timeout)
    (room : ((head ++ tail).length : Int) ≤ high) {j : Nat} {a : Arrival}
    (arrived : (List.zipWith (fun bytes t => fragmentArrival hashIV t bytes) order times)[j]? = some a) :
    ((StepRun.run Fragmentation.step (newFragmentation high low timeout)
        ((List.zipWith (fun bytes t => fragmentArrival hashIV t bytes) order times).take j)).process a.id a.first a.last
        a.more a.vv a.now).2 =
      if j + 1 < fragmentCount (head ++ tail).length (innerSize mtu hdr.length) then .ok ([], false)
      else .ok (head ++ tail, true) := by
  -- what `Process` receives of a fragment does not depend on when it arrives
  have pieces : ((List.zipWith (fun bytes t => fragmentArrival hashIV t bytes) order times).map Arrival.piece).Perm
      ((List.range (fragmentCount (head ++ tail).length (innerSize mtu hdr.length))).map
        (expectedPiece (head ++ tail) (innerSize mtu hdr.length)
          (fragmentCount (head ++ tail).length (innerSize mtu hdr.length)))) := by
    rw [map_zipWith_of_left (f := fun bytes t => fragmentArrival hashIV t bytes)
      (h := fun bytes => (fragmentArrival hashIV 0 bytes).piece) (fun _ _ => rfl) order times
      (Nat.le_of_eq timed.symm)]
    refine (permuted.map _).trans (List.Perm.of_eq ?_)
    rw [List.map_map]
    exact List.map_congr_left fun k inRange =>
      fragmentable.piece_fragmentArrival (List.mem_range.mp inRange) alone hashIV 0
  have ids : ∀ b ∈ List.zipWith (fun bytes t => fragmentArrival hashIV t bytes) order times,
      b.id = ipv4FragmentHash hashIV hdr := by
    intro b member
    have named := List.mem_map_of_mem (f := Arrival.id) member
    rw [map_zipWith_of_left (f := fun bytes t => fragmentArrival hashIV t bytes)
      (h := fun bytes => (fragmentArrival hashIV 0 bytes).id) (fun _ _ => rfl) order times
      (Nat.le_of_eq timed.symm)] at named
    obtain ⟨bytes, sentOne, same⟩ := List.mem_map.mp named
    obtain ⟨k, inRange, rfl⟩ := List.mem_map.mp (permuted.subset sentOne)
    rw [← same, fragmentable.id_fragmentArrival (List.mem_range.mp inRange)]
  have nows : ∀ b ∈ List.zipWith (fun bytes t => fragmentArrival hashIV t bytes) order times, b.now ∈ times := by
    intro b member
    have timedOne := List.mem_map_of_mem (f := Arrival.now) member
    rwa [map_zipWith_of_right (f := fun bytes t => fragmentArrival hashIV t bytes) (h := fun t => t)
      (fun _ _ => rfl) order times (Nat.le_of_eq timed), List.map_id'] at timedOne
  exact fragmentable.cut.process_arrivals pieces high low timeout (ipv4FragmentHash hashIV hdr) ids
    (fun b mb c mc => inTime _ (nows b mb) _ (nows c mc)) room arrived

end Delivery

end Fragmentable

/-- `writePacketFragments` splits a packet faithfully: it sends one
fragment per `innerMTU` bytes of payload, each at most `mtu` bytes, with the
packet's header but for the total length, flags, offset and checksum; the
total length is the fragment's, the offset its piece's, `MoreFragments` set
but on the last unless the packet had it set, and the checksum verifies.
The pieces make up the payload, and from a packet without `MoreFragments`
they reassemble into it in any order. -/
theorem writePacketFragments_splits_faithfully {E : Type} {mtu : Int} {pkt : PacketBuffer} {hdr head tail : List UInt8}
    (fragmentable : Fragmentable mtu pkt hdr head tail) (linkWrite : PacketBuffer → Option E)
    (accepts : ∀ p, linkWrite p = none) :
    ∃ sent, writePacketFragments linkWrite mtu pkt = some (sent, none) ∧
      sent.length = fragmentCount (head ++ tail).length (innerSize mtu hdr.length) ∧
      (∀ k (bytes : List UInt8), (sent.map PacketBuffer.bytes)[k]? = some bytes →
        (bytes.length : Int) ≤ mtu ∧
        (∀ j < hdr.length, ¬IPv4.SealedByte j → bytes[j]? = hdr[j]?) ∧
        IPv4.flags bytes = fragmentFlags (IPv4.flags hdr) sent.length k ∧
        IPv4.more bytes = (decide (k + 1 ≠ sent.length) || IPv4.more hdr) ∧
        (IPv4.fragmentOffset bytes).toNat = k * innerSize mtu hdr.length ∧
        (IPv4.totalLength bytes).toNat = bytes.length ∧
        IPv4.calculateChecksum bytes = 0xffff) ∧
      (sent.map fun p => p.bytes.drop hdr.length).flatten = head ++ tail ∧
      (IPv4.more hdr = false → ∀ (hashIV : UInt32) (high low timeout : Int) (order : List PacketBuffer)
        (times : List Int), order.Perm sent → times.length = order.length →
        (∀ s ∈ times, ∀ t ∈ times, t - s ≤ timeout) → ((head ++ tail).length : Int) ≤ high →
        ∀ j a, (List.zipWith (fun p t => fragmentArrival hashIV t p.bytes) order times)[j]? = some a →
          ((StepRun.run Fragmentation.step (newFragmentation high low timeout)
              ((List.zipWith (fun p t => fragmentArrival hashIV t p.bytes) order times).take j)).process a.id a.first
              a.last a.more a.vv a.now).2 =
            if j + 1 < sent.length then .ok ([], false) else .ok (head ++ tail, true)) := by
  obtain ⟨sent, written, bytes⟩ := fragmentable.writePacketFragments_spec linkWrite accepts
  have counted : sent.length = fragmentCount (head ++ tail).length (innerSize mtu hdr.length) := by
    rw [← List.length_map (f := PacketBuffer.bytes), bytes, List.length_map, List.length_range]
  refine ⟨sent, written, counted, fun k fragment sentOne => ?_, ?_, fun alone hashIV high low timeout order times
    permuted timed inTime room j a arrived => ?_⟩
  · -- fragment `k` is the `k`-th expected one
    rw [bytes] at sentOne
    have within : k < fragmentCount (head ++ tail).length (innerSize mtu hdr.length) := by
      have := (List.getElem?_eq_some_iff.mp sentOne).1
      rwa [List.length_map, List.length_range] at this
    rw [List.getElem?_map, List.getElem?_range within, Option.map_some, Option.some.injEq] at sentOne
    subst sentOne
    rw [counted]
    exact ⟨fragmentable.length_expectedFragment_le _ _,
      fun j inHeader kept => getElem?_expectedFragment_of_not_sealed _ _ _ _ _ inHeader kept,
      fragmentable.flags_expectedFragment _ _, fragmentable.more_expectedFragment _ _,
      fragmentable.fragmentOffset_expectedFragment within, fragmentable.totalLength_expectedFragment within,
      fragmentable.calculateChecksum_expectedFragment _ _⟩
  · have dropped : sent.map (fun p => p.bytes.drop hdr.length) = (sent.map PacketBuffer.bytes).map (List.drop hdr.length) := by
      rw [List.map_map]
      rfl
    rw [dropped, bytes, List.map_map]
    exact fragmentable.flatten_drop_expectedFragment
  · have zipped : List.zipWith (fun p t => fragmentArrival hashIV t p.bytes) order times =
        List.zipWith (fun bytes t => fragmentArrival hashIV t bytes) (order.map PacketBuffer.bytes) times :=
      (List.zipWith_map_left (f := PacketBuffer.bytes) (g := fun bytes t => fragmentArrival hashIV t bytes)).symm
    have sentPermuted := permuted.map PacketBuffer.bytes
    rw [bytes] at sentPermuted
    rw [zipped] at arrived ⊢
    rw [counted]
    exact fragmentable.process_fragments alone hashIV high low timeout sentPermuted
      (by rw [List.length_map]; exact timed) inTime room arrived

/-- A 20-byte header, of a packet with 49 bytes of payload, with the
`MoreFragments` flag given. -/
def sampleHeader (more : Bool) : List UInt8 :=
  [0x45, 0, 0, 69, 0, 1, if more then 0x20 else 0, 0, 64, 17, 0, 0, 10, 0, 0, 1, 10, 0, 0, 2]

/-- The packet of `sampleHeader`, with its payload all in `pkt.Data`. -/
def samplePacket (more : Bool) : PacketBuffer :=
  ⟨⟨sampleHeader more, 0⟩, VectorisedView.new 49 [List.replicate 49 7], []⟩

theorem fragmentable_samplePacket (more : Bool) :
    Fragmentable 68 (samplePacket more) (sampleHeader more) [] (List.replicate 49 7) := by
  have data : VectorisedView.Represents (samplePacket more).data (List.replicate 49 7) :=
    ⟨by simp [samplePacket, VectorisedView.new], by simp [samplePacket, VectorisedView.new]⟩
  cases more <;> exact ⟨rfl, data, by decide, by decide, by decide, by decide, by decide, by decide⟩

theorem writePacketFragments_splits_faithfully_sample :
    Fragmentable 68 (samplePacket false) (sampleHeader false) [] (List.replicate 49 7) ∧
      ∃ sent, writePacketFragments (fun _ => (none : Option Unit)) 68 (samplePacket false) = some (sent, none) ∧
        sent.length = 2 := by
  obtain ⟨sent, written, counted, -⟩ :=
    writePacketFragments_splits_faithfully (fragmentable_samplePacket false) (fun _ => (none : Option Unit))
      (fun _ => rfl)
  exact ⟨fragmentable_samplePacket false, sent, written, counted.trans (by decide)⟩

/-- From a packet with `MoreFragments` set, the last fragment has it set
too. -/
theorem writePacketFragments_keeps_more_fragments :
    ∃ sent, writePacketFragments (fun _ => (none : Option Unit)) 68 (samplePacket true) = some (sent, none) ∧
      sent.length = 2 ∧ ∃ last, (sent.map PacketBuffer.bytes)[1]? = some last ∧ IPv4.more last = true := by
  have fragmentable := fragmentable_samplePacket true
  obtain ⟨sent, written, bytes⟩ := fragmentable.writePacketFragments_spec (fun _ => (none : Option Unit)) (fun _ => rfl)
  have count : fragmentCount ([] ++ List.replicate 49 7 : List UInt8).length
      (innerSize 68 (sampleHeader true).length) = 2 := by decide
  rw [count] at bytes
  refine ⟨sent, written, by rw [← List.length_map (f := PacketBuffer.bytes), bytes]; rfl, _, by rw [bytes]; rfl, ?_⟩
  rw [fragmentable.more_expectedFragment]
  decide

end Cijitter.Network
