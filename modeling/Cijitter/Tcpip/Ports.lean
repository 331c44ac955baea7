import Cijitter.Lib.CountMap

/-! The port manager (`pkg/tcpip/ports`). Reservations are kept in four
levels of Go maps: from a port descriptor (network, transport, port) to the
bound address, then to the device, then to the destination, where a
`FlagCounter` counts them by their flag bits. The maps are `Finmap`s: Go maps
are compared and iterated without an order, and each loop over one below
computes what every iteration order gives. -/

set_option autoImplicit false

namespace Cijitter.Ports

abbrev NetworkProtocolNumber := UInt32

abbrev TransportProtocolNumber := UInt32

/-- `tcpip.Address`: the bytes of an address as a string. -/
abbrev Address := String

abbrev NICID := Int

def firstEphemeral : Nat := 16000

def numEphemeralPorts : Nat := 65535 - firstEphemeral + 1

def anyIPAddress : Address := ""

structure PortDescriptor where
  network : NetworkProtocolNumber
  transport : TransportProtocolNumber
  port : UInt16
  deriving DecidableEq, Repr

structure Flags where
  mostRecent : Bool
  loadBalanced : Bool
  tupleOnly : Bool
  deriving DecidableEq, Repr

abbrev BitFlags := UInt32

def mostRecentFlag : BitFlags := 1

def loadBalancedFlag : BitFlags := 2

def tupleOnlyFlag : BitFlags := 4

abbrev nextFlag : Nat := 8

def flagMask : BitFlags := 7

def Flags.bits (f : Flags) : BitFlags :=
  (if f.mostRecent then mostRecentFlag else 0) ||| (if f.loadBalanced then loadBalancedFlag else 0) |||
    (if f.tupleOnly then tupleOnlyFlag else 0)

/-- The index `refs[flags]`: the flags of `Flags.Bits` are all below `nextFlag`. -/
def slot (flags : BitFlags) : Fin nextFlag :=
  ⟨flags.toNat % nextFlag, Nat.mod_lt _ (by decide)⟩

/-- `FlagCounter`: how many reservations hold each value of the flag bits. -/
structure FlagCounter where
  refs : Fin nextFlag → Int

namespace FlagCounter

/-- The zero value, which a missing map entry reads as. -/
def zero : FlagCounter := ⟨fun _ => 0⟩

def addRef (c : FlagCounter) (flags : BitFlags) : FlagCounter :=
  ⟨Function.update c.refs (slot flags) (c.refs (slot flags) + 1)⟩

def dropRef (c : FlagCounter) (flags : BitFlags) : FlagCounter :=
  ⟨Function.update c.refs (slot flags) (c.refs (slot flags) - 1)⟩

def totalRefs (c : FlagCounter) : Int :=
  (List.finRange nextFlag).foldl (fun total i => total + c.refs i) 0

/-- `IntersectionRefs`: the bits that every held value of the flags has. -/
def intersectionRefs (c : FlagCounter) : BitFlags :=
  (List.finRange nextFlag).foldl
    (fun intersection i => if c.refs i > 0 then intersection &&& i.val.toUInt32 else intersection) flagMask

end FlagCounter

structure Destination where
  addr : Address
  port : UInt16
  deriving DecidableEq, Repr

/-- `tcpip.FullAddress`. -/
structure FullAddress where
  nic : NICID
  addr : Address
  port : UInt16
  deriving DecidableEq, Repr

def makeDestination (a : FullAddress) : Destination := ⟨a.addr, a.port⟩

abbrev PortNode := Finmap fun _ : Destination => FlagCounter

abbrev DeviceNode := Finmap fun _ : NICID => PortNode

abbrev BindAddresses := Finmap fun _ : Address => DeviceNode

/-- `PortManager`, its `allocatedPorts`. -/
structure PortManager where
  allocatedPorts : Finmap fun _ : PortDescriptor => BindAddresses

def newPortManager : PortManager := ⟨∅⟩

/-- One entry's turn of `portNode.intersectionRefs`: the destination itself,
and a wildcard on either side, narrow the intersection. -/
def intersectionStep (dst : Destination) (acc : BitFlags × Nat) (d : Destination) (f : FlagCounter) :
    BitFlags × Nat :=
  if d = dst then (acc.1 &&& f.intersectionRefs, acc.2 + 1)
  else if d.addr = anyIPAddress ∨ dst.addr = anyIPAddress then
    (acc.1 &&& (~~~tupleOnlyFlag ||| f.intersectionRefs), acc.2 + 1)
  else acc

theorem and_and_swap (a b c : BitFlags) : a &&& b &&& c = a &&& c &&& b := by
  rw [UInt32.and_assoc, UInt32.and_comm b c, ← UInt32.and_assoc]

theorem intersectionStep_swap (dst : Destination) (acc : BitFlags × Nat) (d₁ : Destination) (f₁ : FlagCounter)
    (d₂ : Destination) (f₂ : FlagCounter) :
    intersectionStep dst (intersectionStep dst acc d₁ f₁) d₂ f₂ =
      intersectionStep dst (intersectionStep dst acc d₂ f₂) d₁ f₁ := by
  unfold intersectionStep
  split_ifs <;> simp only [and_and_swap]

def PortNode.intersectionRefs (p : PortNode) (dst : Destination) : BitFlags × Nat :=
  p.foldl (intersectionStep dst) (intersectionStep_swap dst) (flagMask, 0)

/-- One node's turn of the loop of `deviceNode.isAvailable` over every
device: nodes with reservations toward `dst` narrow the intersection. -/
def availableStep (dst : Destination) (acc : BitFlags × Bool) (_ : NICID) (p : PortNode) : BitFlags × Bool :=
  if (p.intersectionRefs dst).2 = 0 then acc else (acc.1 &&& (p.intersectionRefs dst).1, true)

theorem availableStep_swap (dst : Destination) (acc : BitFlags × Bool) (n₁ : NICID) (p₁ : PortNode)
    (n₂ : NICID) (p₂ : PortNode) :
    availableStep dst (availableStep dst acc n₁ p₁) n₂ p₂ = availableStep dst (availableStep dst acc n₂ p₂) n₁ p₁ := by
  unfold availableStep
  split_ifs <;> simp only [and_and_swap]

/-- `deviceNode.isAvailable`. Without a device, the source returns false at
the first node with reservations after which the intersection shares no bit
with the flags; the intersection only loses bits, so that happens in some
order exactly when it happens in every order, at the end. -/
def DeviceNode.isAvailable (d : DeviceNode) (flags : Flags) (bindToDevice : NICID) (dst : Destination) : Bool :=
  let flagBits := flags.bits
  if bindToDevice = 0 then
    let (intersection, seen) := d.foldl (availableStep dst) (availableStep_swap dst) (flagMask, false)
    !(seen && intersection &&& flagBits == 0)
  else
    let (intersection, refused) :=
      match d.lookup 0 with
      | some p => ((p.intersectionRefs dst).1,
          (p.intersectionRefs dst).2 > 0 && (p.intersectionRefs dst).1 &&& flagBits == 0)
      | none => (flagMask, false)
    if refused then false
    else
      match d.lookup bindToDevice with
      | some p =>
        let intersection := intersection &&& (p.intersectionRefs dst).1
        !((p.intersectionRefs dst).2 > 0 && intersection &&& flagBits == 0)
      | none => true

def BindAddresses.isAvailable (b : BindAddresses) (addr : Address) (flags : Flags) (bindToDevice : NICID)
    (dst : Destination) : Bool :=
  if addr = anyIPAddress then b.all fun _ d => d.isAvailable flags bindToDevice dst
  else
    (match b.lookup anyIPAddress with
      | some d => d.isAvailable flags bindToDevice dst
      | none => true) &&
    (match b.lookup addr with
      | some d => d.isAvailable flags bindToDevice dst
      | none => true)

inductive PortError where
  | portInUse
  | noPortAvailable
  deriving DecidableEq, Repr

namespace PortManager

def isPortAvailableLocked (s : PortManager) (networks : List NetworkProtocolNumber)
    (transport : TransportProtocolNumber) (addr : Address) (port : UInt16) (flags : Flags) (bindToDevice : NICID)
    (dst : Destination) : Bool :=
  networks.all fun network =>
    match s.allocatedPorts.lookup ⟨network, transport, port⟩ with
    | some addrs => addrs.isAvailable addr flags bindToDevice dst
    | none => true

/-- The counter at the end of the four lookups, zero where a level is
missing. -/
def counterAt (s : PortManager) (desc : PortDescriptor) (addr : Address) (bindToDevice : NICID)
    (dst : Destination) : FlagCounter :=
  let m := (s.allocatedPorts.lookup desc).getD ∅
  let d := (m.lookup addr).getD ∅
  let p := (d.lookup bindToDevice).getD ∅
  (p.lookup dst).getD .zero

/-- One network's turn of the loops of `reserveSpecificPort` and
`ReserveTuple`: each level is made where it is missing, and the counter at
the end takes one more reference. -/
def addRef (s : PortManager) (desc : PortDescriptor) (addr : Address) (bindToDevice : NICID)
    (dst : Destination) (flagBits : BitFlags) : PortManager :=
  let m := (s.allocatedPorts.lookup desc).getD ∅
  let d := (m.lookup addr).getD ∅
  let p := (d.lookup bindToDevice).getD ∅
  let n := ((p.lookup dst).getD .zero).addRef flagBits
  ⟨s.allocatedPorts.insert desc (m.insert addr (d.insert bindToDevice (p.insert dst n)))⟩

/-- One network's turn of `releasePortLocked`: a missing level skips the
network, and a level left empty is deleted from the one above. -/
def dropRef (s : PortManager) (desc : PortDescriptor) (addr : Address) (bindToDevice : NICID)
    (dst : Destination) (flags : BitFlags) : PortManager :=
  match s.allocatedPorts.lookup desc with
  | none => s
  | some m =>
    match m.lookup addr with
    | none => s
    | some d =>
      match d.lookup bindToDevice with
      | none => s
      | some p =>
        match p.lookup dst with
        | none => s
        | some n =>
          let n := n.dropRef flags
          if n.totalRefs > 0 then
            ⟨s.allocatedPorts.insert desc (m.insert addr (d.insert bindToDevice (p.insert dst n)))⟩
          else
            let p := p.erase dst
            if p.keys.card > 0 then ⟨s.allocatedPorts.insert desc (m.insert addr (d.insert bindToDevice p))⟩
            else
              let d := d.erase bindToDevice
              if d.keys.card > 0 then ⟨s.allocatedPorts.insert desc (m.insert addr d)⟩
              else
                let m := m.erase addr
                if m.keys.card > 0 then ⟨s.allocatedPorts.insert desc m⟩
                else ⟨s.allocatedPorts.erase desc⟩

def releasePortLocked (s : PortManager) (networks : List NetworkProtocolNumber)
    (transport : TransportProtocolNumber) (addr : Address) (port : UInt16) (flags : BitFlags) (bindToDevice : NICID)
    (dst : Destination) : PortManager :=
  networks.foldl (fun s network => s.dropRef ⟨network, transport, port⟩ addr bindToDevice dst flags) s

def releasePort (s : PortManager) (networks : List NetworkProtocolNumber) (transport : TransportProtocolNumber)
    (addr : Address) (port : UInt16) (flags : Flags) (bindToDevice : NICID) (dest : FullAddress) : PortManager :=
  s.releasePortLocked networks transport addr port flags.bits bindToDevice (makeDestination dest)

def reserveSpecificPort (s : PortManager) (networks : List NetworkProtocolNumber)
    (transport : TransportProtocolNumber) (addr : Address) (port : UInt16) (flags : Flags) (bindToDevice : NICID)
    (dst : Destination) : PortManager × Bool :=
  if !s.isPortAvailableLocked networks transport addr port flags bindToDevice dst then (s, false)
  else
    (networks.foldl (fun s network => s.addRef ⟨network, transport, port⟩ addr bindToDevice dst flags.bits) s,
      true)

/-- The loop of `pickEphemeralPort` over the offsets `i` still to try. -/
def pickEphemeralPortLoop {σ : Type} (offset count : Nat) (testPort : σ → UInt16 → σ × Except PortError Bool) :
    List Nat → σ → σ × Except PortError UInt16
  | [], s => (s, .error .noPortAvailable)
  | i :: rest, s =>
    let port := (firstEphemeral + (offset + i) % count).toUInt16
    match testPort s port with
    | (s, .error err) => (s, .error err)
    | (s, .ok true) => (s, .ok port)
    | (s, .ok false) => pickEphemeralPortLoop offset count testPort rest s

/-- The port `pickEphemeralPort` tries at turn `i`: `FirstEphemeral +
(offset+i)%count`, summed in `uint32` and cut to `uint16`. -/
def ephemeralCandidate (offset count i : UInt32) : UInt16 :=
  (UInt32.ofNat firstEphemeral + (offset + i) % count).toUInt16

/-- The ports of the turns `i = 0 .. count-1`, in order. -/
def ephemeralCandidates (offset count : UInt32) : List UInt16 :=
  (List.range count.toNat).map fun i => ephemeralCandidate offset count (UInt32.ofNat i)

/-- The loop body of `pickEphemeralPort` over the ports still to try: the
first error ends it, and so does the first port accepted. -/
def tryPorts {σ : Type} (testPort : σ → UInt16 → σ × Except PortError Bool) :
    List UInt16 → σ → σ × Except PortError UInt16
  | [], s => (s, .error .noPortAvailable)
  | port :: rest, s =>
    match testPort s port with
    | (s, .error err) => (s, .error err)
    | (s, .ok true) => (s, .ok port)
    | (s, .ok false) => tryPorts testPort rest s

/-- `pickEphemeralPort`, with its `uint32` counter and offset. -/
def pickEphemeralPort {σ : Type} (offset count : UInt32) (testPort : σ → UInt16 → σ × Except PortError Bool)
    (s : σ) : σ × Except PortError UInt16 :=
  tryPorts testPort (ephemeralCandidates offset count) s

/-- `PickEphemeralPortStable`: the manager's port hint `hint` is added to
`offset`, and incremented after a success. -/
def pickEphemeralPortStable {σ : Type} (hint offset : UInt32)
    (testPort : σ → UInt16 → σ × Except PortError Bool) (s : σ) : (UInt32 × σ) × Except PortError UInt16 :=
  match pickEphemeralPort (hint + offset) (UInt32.ofNat numEphemeralPorts) testPort s with
  | (s, .ok port) => ((hint + 1, s), .ok port)
  | (s, .error err) => ((hint, s), .error err)

/-- `ReservePort`; `offset` is the draw of `rand.Int31n(numEphemeralPorts)`
that `PickEphemeralPort` starts from. -/
def reservePort (s : PortManager) (networks : List NetworkProtocolNumber) (transport : TransportProtocolNumber)
    (addr : Address) (port : UInt16) (flags : Flags) (bindToDevice : NICID) (dest : FullAddress) (offset : Nat) :
    PortManager × Except PortError UInt16 :=
  let dst := makeDestination dest
  if port ≠ 0 then
    match s.reserveSpecificPort networks transport addr port flags bindToDevice dst with
    | (s, false) => (s, .error .portInUse)
    | (s, true) => (s, .ok port)
  else
    pickEphemeralPortLoop offset numEphemeralPorts
      (fun s p => let (s, ok) := s.reserveSpecificPort networks transport addr p flags bindToDevice dst; (s, .ok ok))
      (List.range numEphemeralPorts) s

/-- `ReserveTuple`: every level is counted first; a conflict at any network
is undone through `releasePortLocked`. -/
def reserveTuple (s : PortManager) (networks : List NetworkProtocolNumber) (transport : TransportProtocolNumber)
    (addr : Address) (port : UInt16) (flags : Flags) (bindToDevice : NICID) (dest : FullAddress) :
    PortManager × Bool :=
  let flagBits := flags.bits
  let dst := makeDestination dest
  let (reserved, undo) :=
    networks.foldl (fun (s, undo) network =>
      let desc : PortDescriptor := ⟨network, transport, port⟩
      let n := s.counterAt desc addr bindToDevice dst
      (s.addRef desc addr bindToDevice dst flagBits,
        undo || (n.totalRefs ≠ 0 && n.intersectionRefs &&& flagBits == 0))) (s, false)
  if undo then (reserved.releasePortLocked networks transport addr port flagBits bindToDevice dst, false)
  else (reserved, true)

end PortManager

end Cijitter.Ports
