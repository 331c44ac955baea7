import Cijitter.Tcp.Seqnum
import Cijitter.Lib.BinaryHeap

/-! The receive side of a TCP endpoint (`pkg/tcpip/transport/tcp/rcv.go`).
A segment the receiver cannot consume yet is parked in a heap ordered by
sequence number (`pendingRcvdSegments`); after each segment it consumes, the
receiver drains the heap from its front. The endpoint keeps only what the
receiver reads and writes: its state, the segments handed to readers, the
receive buffer's counters and the ACKs the receiver has the sender send,
each with the `rcvNxt` and the window of `getSendParams`. -/

set_option autoImplicit false

namespace Cijitter.Tcp

def tcpFlagFin : UInt8 := 1
def tcpFlagSyn : UInt8 := 2
def tcpFlagRst : UInt8 := 4
def tcpFlagPsh : UInt8 := 8
def tcpFlagAck : UInt8 := 16

/-- The fields of a `segment` the receiver reads. -/
structure Segment where
  sequenceNumber : SeqValue
  ackNumber : SeqValue
  flags : UInt8
  data : List UInt8
  deriving DecidableEq, Repr

def Segment.flagIsSet (s : Segment) (flags : UInt8) : Bool :=
  s.flags &&& flags != 0

/-- The sequence space a segment takes: its data, and one for a SYN and one
for a FIN. -/
def Segment.logicalLen (s : Segment) : SeqSize :=
  let l : SeqSize := UInt32.ofNat s.data.length
  let l := if s.flagIsSet tcpFlagSyn then l + 1 else l
  if s.flagIsSet tcpFlagFin then l + 1 else l

/-- `segmentHeap.Less`. -/
def segmentLess (a b : Segment) : Bool :=
  lessThan a.sequenceNumber b.sequenceNumber

inductive EndpointState where
  | initial
  | bound
  | connecting
  | error
  | established
  | synSent
  | synRecv
  | finWait1
  | finWait2
  | timeWait
  | close
  | closeWait
  | lastAck
  | listen
  | closing
  deriving DecidableEq, Repr

/-- The errors `handleRcvdSegment` returns. -/
inductive TcpError where
  | connectionAborted
  deriving DecidableEq, Repr

structure Receiver where
  rcvNxt : SeqValue
  rcvAcc : SeqValue
  rcvWnd : SeqSize
  rcvWndScale : UInt8
  closed : Bool
  pendingRcvdSegments : List Segment
  pendingBufUsed : SeqSize
  pendingBufSize : SeqSize
  deriving DecidableEq, Repr

def newReceiver (irs : SeqValue) (rcvWnd : SeqSize) (rcvWndScale : UInt8) (pendingBufSize : SeqSize) : Receiver where
  rcvNxt := irs + 1
  rcvAcc := irs + (rcvWnd + 1)
  rcvWnd := rcvWnd
  rcvWndScale := rcvWndScale
  closed := false
  pendingRcvdSegments := []
  pendingBufUsed := 0
  pendingBufSize := pendingBufSize

/-- The endpoint as its receiver sees it. `rcvList` holds the segments
`readyToRead` has handed to readers, in order; `sentAcks` the `rcvNxt` and
the scaled window of each ACK sent. -/
structure Endpoint where
  state : EndpointState
  closed : Bool
  rcvClosed : Bool
  rcvList : List Segment
  rcvBufSize : Nat
  rcvBufUsed : Nat
  sndNxt : SeqValue
  sentAcks : List (SeqValue × SeqSize)
  rcv : Receiver
  deriving DecidableEq, Repr

namespace Endpoint

def receiveBufferAvailable (ep : Endpoint) : Nat :=
  if ep.rcvBufSize ≤ ep.rcvBufUsed then 0 else ep.rcvBufSize - ep.rcvBufUsed

/-- `receiver.acceptable`: the window tested is the one advertised, the
window field being 16 bits wide. -/
def acceptable (ep : Endpoint) (segSeq : SeqValue) (segLen : SeqSize) : Bool :=
  let r := ep.rcv
  let scaledWindowSize := goShiftRight r.rcvWnd r.rcvWndScale
  let scaledWindowSize : SeqSize := if scaledWindowSize > 0xffff then 0xffff else scaledWindowSize
  let advertisedWindowSize := goShiftLeft scaledWindowSize r.rcvWndScale
  Header.acceptable segSeq segLen r.rcvNxt (r.rcvNxt + advertisedWindowSize)

/-- `receiver.getSendParams`: `rcvAcc` moves up to what the buffer can take,
never back. -/
def getSendParams (ep : Endpoint) : Endpoint × (SeqValue × SeqSize) :=
  let r := ep.rcv
  let acc := r.rcvNxt + UInt32.ofNat ep.receiveBufferAvailable
  let rcvAcc := if lessThan r.rcvAcc acc then acc else r.rcvAcc
  let rcvWnd := rcvAcc - r.rcvNxt
  ({ ep with rcv := { r with rcvAcc := rcvAcc, rcvWnd := rcvWnd } }, (r.rcvNxt, goShiftRight rcvWnd r.rcvWndScale))

/-- `sender.sendAck`, for what the receiver sees of it. -/
def sendAck (ep : Endpoint) : Endpoint :=
  let (ep, params) := ep.getSendParams
  { ep with sentAcks := ep.sentAcks ++ [params] }

/-- `endpoint.readyToRead`: a segment for readers, or `nil` for the end of
the stream. -/
def readyToRead (ep : Endpoint) : Option Segment → Endpoint
  | some s => { ep with rcvBufUsed := ep.rcvBufUsed + s.data.length, rcvList := ep.rcvList ++ [s] }
  | none => { ep with rcvClosed := true }

/-- The state a received FIN moves the endpoint to. -/
def finState (s : Segment) : EndpointState → EndpointState
  | .established => .closeWait
  | .finWait1 => if s.flagIsSet tcpFlagAck then .timeWait else .closing
  | .finWait2 => .timeWait
  | state => state

/-- The state an ACK of everything sent moves a closing endpoint to. -/
def ackState : EndpointState → EndpointState
  | .finWait1 => .finWait2
  | .closing => .timeWait
  | .lastAck => .close
  | state => state

/-- What `consumeSegment` does once the segment starts at `rcvNxt`: move
`rcvNxt` past it, then handle a FIN, or an ACK in a closing state. A FIN
flushes the pending segments, but for the front one when the segment being
consumed is it (`atFront`: Go compares the pointers). -/
def consumeAt (ep : Endpoint) (s : Segment) (segSeq : SeqValue) (segLen : SeqSize) (atFront : Bool) :
    Endpoint :=
  let rcvNxt := segSeq + segLen
  let rcvAcc := if lessThan ep.rcv.rcvAcc rcvNxt then rcvNxt else ep.rcv.rcvAcc
  let ep := { ep with rcv := { ep.rcv with rcvNxt := rcvNxt, rcvAcc := rcvAcc } }
  if s.flagIsSet tcpFlagFin then
    let ep := { ep with rcv := { ep.rcv with rcvNxt := ep.rcv.rcvNxt + 1 } }
    let ep := ep.sendAck
    let ep := { ep with rcv := { ep.rcv with closed := true } }
    let ep := ep.readyToRead none
    let ep := { ep with state := finState s ep.state }
    let first := if ep.rcv.pendingRcvdSegments ≠ [] ∧ atFront then 1 else 0
    { ep with rcv := { ep.rcv with pendingRcvdSegments := ep.rcv.pendingRcvdSegments.take first } }
  else if s.flagIsSet tcpFlagAck ∧ s.ackNumber = ep.sndNxt then { ep with state := ackState ep.state }
  else ep

/-- `receiver.consumeSegment`: whether the segment was consumed, the segment
as trimmed of what was already received, and the endpoint. -/
def consumeSegment (ep : Endpoint) (s : Segment) (segSeq : SeqValue) (segLen : SeqSize) (atFront : Bool) :
    Bool × Segment × Endpoint :=
  if segLen > 0 then
    if !inWindow ep.rcv.rcvNxt segSeq segLen then (false, s, ep)
    else if lessThan segSeq ep.rcv.rcvNxt then
      -- trim the segment to eliminate already acknowledged data
      let diff := ep.rcv.rcvNxt - segSeq
      let s := { s with sequenceNumber := s.sequenceNumber + diff, data := s.data.drop diff.toNat }
      (true, s, (ep.readyToRead (some s)).consumeAt s (segSeq + diff) (segLen - diff) atFront)
    else (true, s, (ep.readyToRead (some s)).consumeAt s segSeq segLen atFront)
  else if segSeq ≠ ep.rcv.rcvNxt then (false, s, ep)
  else (true, s, ep.consumeAt s segSeq segLen atFront)

/-- `receiver.handleRcvdSegmentClosing`: whether to drop the segment, and the
error, in the states after a FIN was sent or received. Go's switch falls
through from `StateCloseWait` to the closing states and from those to the
`FIN-WAIT` ones; a `break` goes to the test after the switch. -/
def handleRcvdSegmentClosing (ep : Endpoint) (s : Segment) (state : EndpointState) (closed : Bool) :
    (Bool × Option TcpError) × Endpoint :=
  let rcvClosed := ep.rcvClosed || ep.rcv.closed
  let rcvNxt := ep.rcv.rcvNxt
  let segEnd := s.sequenceNumber + UInt32.ofNat s.data.length
  let afterSwitch := if rcvClosed && !lessThanEq segEnd rcvNxt then (true, none) else (false, none)
  let finWait :=
    if state ≠ .closeWait ∧ rcvClosed ∧ lessThan rcvNxt segEnd then (true, some .connectionAborted)
    else if state = .finWait1 then afterSwitch
    else if lessThanEq (s.sequenceNumber + s.logicalLen) rcvNxt || s.logicalLen == 0 then afterSwitch
    else if closed ∧ (!s.flagIsSet tcpFlagFin || s.sequenceNumber + s.logicalLen != rcvNxt + 1) then
      (true, some .connectionAborted)
    else afterSwitch
  let closing := if !lessThanEq s.sequenceNumber rcvNxt then (true, none) else finWait
  match state with
  | .closeWait => if lessThan ep.sndNxt s.ackNumber then ((true, none), ep.sendAck) else (closing, ep)
  | .closing | .lastAck => (closing, ep)
  | .finWait1 | .finWait2 => (finWait, ep)
  | _ => (afterSwitch, ep)

/-- The skip test of the drain loop, then the consumption of the front
segment `s` when the test fails. -/
def consumeFront (ep : Endpoint) (s : Segment) : Bool × Segment × Endpoint :=
  let segLen : SeqSize := UInt32.ofNat s.data.length
  let segSeq := s.sequenceNumber
  -- skip segment altogether if it has already been acknowledged
  if lessThan (segSeq + (segLen - 1)) ep.rcv.rcvNxt then (true, s, ep)
  else ep.consumeSegment s segSeq segLen true

/-- One turn of the loop at the end of `handleRcvdSegment`, `none` where the
loop stops: consume the segment at the front of the heap and pop it. A
segment whose last sequence number is before `rcvNxt` is popped without
being consumed; one that cannot be consumed yet stops the loop. -/
def drainTurn (ep : Endpoint) : Option Endpoint :=
  match ep.rcv.closed, ep.rcv.pendingRcvdSegments with
  | false, s :: _ =>
      let (proceed, s, ep) := ep.consumeFront s
      if !proceed then none
      else
        match BinaryHeap.pop segmentLess ep.rcv.pendingRcvdSegments with
        | some (_, rest) =>
            let used := ep.rcv.pendingBufUsed - s.logicalLen
            some { ep with rcv := { ep.rcv with pendingRcvdSegments := rest, pendingBufUsed := used } }
        | none => none
  | _, _ => none

/-- The loop at the end of `handleRcvdSegment`. Each turn pops a segment, so
the heap's length is fuel enough. -/
def drainPending : Nat → Endpoint → Endpoint
  | 0, ep => ep
  | fuel + 1, ep =>
      match ep.drainTurn with
      | some next => drainPending fuel next
      | none => ep

/-- `handleRcvdSegment` once the segment has passed the acceptability test
and the checks of the closing states. -/
def receiveSegment (ep : Endpoint) (s : Segment) (segSeq : SeqValue) (segLen : SeqSize) :
    (Bool × Option TcpError) × Endpoint :=
  let (consumed, _, ep) := ep.consumeSegment s segSeq segLen false
  if !consumed then
    if segLen > 0 || s.flagIsSet tcpFlagFin then
      -- park the segment when the pending buffer is not yet full
      let ep :=
        if ep.rcv.pendingBufUsed < ep.rcv.pendingBufSize then
          let pending := BinaryHeap.push segmentLess ep.rcv.pendingRcvdSegments s
          let used := ep.rcv.pendingBufUsed + s.logicalLen
          { ep with rcv := { ep.rcv with pendingBufUsed := used, pendingRcvdSegments := pending } }
        else ep
      ((false, none), ep.sendAck)
    else ((false, none), ep)
  else ((false, none), drainPending ep.rcv.pendingRcvdSegments.length ep)

/-- `receiver.handleRcvdSegment`: whether the segment was dropped, the error,
and the endpoint after it. -/
def handleRcvdSegment (ep : Endpoint) (s : Segment) : (Bool × Option TcpError) × Endpoint :=
  let state := ep.state
  let closed := ep.closed
  let segLen : SeqSize := UInt32.ofNat s.data.length
  let segSeq := s.sequenceNumber
  if !ep.acceptable segSeq segLen then ((true, none), ep.sendAck)
  else if state ≠ .established then
    let ((drop, err), ep) := ep.handleRcvdSegmentClosing s state closed
    if drop || err.isSome then ((drop, err), ep) else ep.receiveSegment s segSeq segLen
  else ep.receiveSegment s segSeq segLen

/-- A bare FIN that arrives ahead of the last byte of data is parked; the
data then fills the gap and is delivered, but the drain loop drops the FIN:
its skip test reads the last sequence number `segSeq + (segLen - 1)`, which
for a segment without data wraps to `segSeq - 1`, before `rcvNxt`, so the FIN
is popped unconsumed. The connection stays established, `rcvNxt` stops
at the FIN instead of passing it and readers never see the end of the
stream. In order, the same two segments close the stream. -/
theorem out_of_order_fin_dropped :
    let ep : Endpoint :=
      { state := .established, closed := false, rcvClosed := false, rcvList := [], rcvBufSize := 1000,
        rcvBufUsed := 0, sndNxt := 0, sentAcks := [], rcv := newReceiver 0 1000 0 1000 }
    let fin : Segment := ⟨2, 0, tcpFlagFin ||| tcpFlagAck, []⟩
    let data : Segment := ⟨1, 0, tcpFlagAck, [0x61]⟩
    let reordered := ((ep.handleRcvdSegment fin).2.handleRcvdSegment data).2
    let inOrder := ((ep.handleRcvdSegment data).2.handleRcvdSegment fin).2
    reordered.rcvList = [data] ∧ reordered.rcv.rcvNxt = 2 ∧ reordered.rcv.pendingRcvdSegments = [] ∧
      reordered.rcv.closed = false ∧ reordered.rcvClosed = false ∧ reordered.state = .established ∧
      inOrder.rcvList = [data] ∧ inOrder.rcv.rcvNxt = 3 ∧ inOrder.rcvClosed = true ∧ inOrder.state = .closeWait := by
  decide

/-- `pendingBufUsed` grows by a segment's logical length when the segment is
parked, and the drain loop lowers it by the length of the same segment after
`consumeSegment` has trimmed what was already received; a FIN flushes the heap
without lowering it at all. Either way the heap ends empty with one byte still
counted. -/
theorem pending_accounting_leaks :
    let ep : Endpoint :=
      { state := .established, closed := false, rcvClosed := false, rcvList := [], rcvBufSize := 1000,
        rcvBufUsed := 0, sndNxt := 0, sentAcks := [], rcv := newReceiver 0 1000 0 1000 }
    let parked : Segment := ⟨2, 0, tcpFlagAck, [0x62, 0x63, 0x64]⟩
    let overlapping : Segment := ⟨1, 0, tcpFlagAck, [0x61, 0x62]⟩
    let trimmed := ((ep.handleRcvdSegment parked).2.handleRcvdSegment overlapping).2
    let later : Segment := ⟨3, 0, tcpFlagAck, [0x63]⟩
    let fin : Segment := ⟨1, 0, tcpFlagFin ||| tcpFlagAck, [0x61]⟩
    let flushed := ((ep.handleRcvdSegment later).2.handleRcvdSegment fin).2
    trimmed.rcv.pendingRcvdSegments = [] ∧ trimmed.rcv.pendingBufUsed = 1 ∧
      flushed.rcv.pendingRcvdSegments = [] ∧ flushed.rcv.pendingBufUsed = 1 := by
  decide

end Endpoint

end Cijitter.Tcp
