import Mathlib

/-! Receiving 9P messages (`pkg/p9`): the decoding `buffer`, the message
registry, and the two receive paths, `recv` over a socket and `channel.recv`
over a flipcall packet. A message is its type; what its own `decode` reads
is the argument `decode`, which takes the message's buffer to the buffer
after decoding. The socket is the stream of bytes the peer sends, and the
flipcall packet window is a list of bytes. A panic of the source is `none`.
File descriptors sent along are left out. -/

set_option autoImplicit false

namespace Cijitter.P9

abbrev MsgType := UInt8

/-- `buffer`: the bytes left to decode, and whether a read ran past them. -/
structure Buffer where
  data : List UInt8
  overflow : Bool
  deriving DecidableEq, Repr

namespace Buffer

/-- `consume`: the first `n` bytes, or none and the overflow mark. -/
def consume (b : Buffer) (n : Nat) : Option (List UInt8) × Buffer :=
  if n ≤ b.data.length then (some (b.data.take n), { b with data := b.data.drop n })
  else (none, { b with overflow := true })

def read8 (b : Buffer) : UInt8 × Buffer :=
  match b.consume 1 with
  | (some [v], b) => (v, b)
  | (_, b) => (0, b)

/-- `Read16`, little-endian. -/
def read16 (b : Buffer) : UInt16 × Buffer :=
  match b.consume 2 with
  | (some [v0, v1], b) => (v0.toUInt16 ||| (v1.toUInt16 <<< 8), b)
  | (_, b) => (0, b)

/-- `Read32`, little-endian. -/
def read32 (b : Buffer) : UInt32 × Buffer :=
  match b.consume 4 with
  | (some [v0, v1, v2, v3], b) =>
    (v0.toUInt32 ||| (v1.toUInt32 <<< 8) ||| (v2.toUInt32 <<< 16) ||| (v3.toUInt32 <<< 24), b)
  | (_, b) => (0, b)

def readMsgType (b : Buffer) : MsgType × Buffer :=
  b.read8

def readTag (b : Buffer) : UInt16 × Buffer :=
  b.read16

end Buffer

/-- `MsgRlerror`. -/
def msgRlerror : MsgType := 7

/-- The types `init` registers: every `MsgType` constant but `MsgTlerror`. -/
def registered (t : MsgType) : Bool :=
  t = 7 ∨ (8 ≤ t ∧ t ≤ 9) ∨ (12 ≤ t ∧ t ≤ 41) ∨ (50 ≤ t ∧ t ≤ 51) ∨ (70 ≤ t ∧ t ≤ 77) ∨
    (100 ≤ t ∧ t ≤ 105) ∨ (108 ≤ t ∧ t ≤ 111) ∨ (116 ≤ t ∧ t ≤ 139) ∨ (250 ≤ t ∧ t ≤ 251)

/-- `FixedSize` of the messages that are `payloader`s: `Rreaddir`, `Rread`
and `Twrite`. -/
def fixedSize (t : MsgType) : Option Nat :=
  if t = 41 then some 4 else if t = 117 then some 4 else if t = 118 then some 16 else none

/-- `math.MaxUint8`, the length of `registry.factories`. -/
def maxUint8 : Nat := 255

inductive Error where
  | ErrInvalidMsgType (t : MsgType)
  | ErrNoValidMessage
  | ErrMessageTooLarge (size msize : UInt32)
  | ErrBadResponse (got want : MsgType)
  /-- `ErrSocket`, around the error of the socket or of the header. -/
  | ErrSocket (inner : Error)
  /-- The socket ends before the bytes a read waits for. -/
  | EOF
  deriving DecidableEq, Repr

/-- `registry.get`: `factories[t]` panics past the array's end. -/
def registryGet (t : MsgType) : Option (Except Error MsgType) :=
  if t.toNat ≥ maxUint8 then none
  else if registered t then some (.ok t)
  else some (.error (.ErrInvalidMsgType t))

def headerLength : UInt32 := 7

def maximumLength : UInt32 := 1048576

/-- `recv` over a socket. `lookup` finds the message for a tag and a type,
as the server's `msgRegistry.get` or the client's table of pending calls
does. The header is seven bytes; the rest of the message is read only once
its type is known. -/
def recv (msize : UInt32) (lookup : UInt16 → MsgType → Option (Except Error MsgType))
    (decode : MsgType → Buffer → Buffer) (stream : List UInt8) : Option (Except Error (UInt16 × MsgType)) :=
  if stream.length < 7 then some (.error (.ErrSocket .EOF))
  else
    let header : Buffer := ⟨stream.take 7, false⟩
    let (size, header) := header.read32
    let (t, header) := header.readMsgType
    let (tag, _) := header.readTag
    if size < headerLength then some (.error (.ErrSocket .ErrNoValidMessage))
    else if size > maximumLength ∨ size > msize then some (.error (.ErrSocket (.ErrMessageTooLarge size msize)))
    else
      let remaining := (size - headerLength).toNat
      match lookup tag t with
      | none => none
      | some (.error e) => some (.error e)
      | some (.ok m) =>
        let body := (stream.drop 7).take remaining
        -- a payloader decodes its fixed part; the rest is its payload
        let dataLength := (fixedSize m).getD remaining
        if dataLength > remaining then some (.error .ErrNoValidMessage)
        else if body.length < remaining then some (.error (.ErrSocket .EOF))
        else if (decode m ⟨body.take dataLength, false⟩).overflow then some (.error .ErrNoValidMessage)
        else some (.ok (tag, m))

/-- `channel.recv`: decodes the `rsz` bytes the peer left at the start of the
packet window. `expected` is the message the caller waits for, or none on the
server, where the registry makes one. -/
def channelRecv (expected : Option MsgType) (rsz : Nat) (window : List UInt8)
    (decode : MsgType → Buffer → Buffer) : Option (Except Error MsgType) :=
  -- `ch.data.Data()[:sz]`
  if rsz > window.length then none
  else
    let buf : Buffer := ⟨window.take rsz, false⟩
    let (t, buf) := buf.readMsgType
    let (_, buf) := buf.read8
    let found : Option (Except Error MsgType) :=
      if t = msgRlerror then some (.ok msgRlerror)
      else match expected with
        | none => registryGet t
        | some r => if t ≠ r then some (.error (.ErrBadResponse t r)) else some (.ok r)
    match found with
    | none => none
    | some (.error e) => some (.error e)
    | some (.ok r) =>
      -- `ch.buf.data[fs:]` slices past the end when the fixed part is not there
      match fixedSize r with
      | some fs =>
        if fs > buf.data.length then none
        else if (decode r { buf with data := buf.data.take fs }).overflow then some (.error .ErrNoValidMessage)
        else some (.ok r)
      | none =>
        if (decode r buf).overflow then some (.error .ErrNoValidMessage) else some (.ok r)

/-! ## Input a peer can send that makes a receive path panic -/

theorem registryGet_maxUint8 : registryGet 255 = none := by
  decide

theorem registryGet_of_fixedSize {t : MsgType} {fs : Nat} (payloader : fixedSize t = some fs) :
    registryGet t = some (.ok t) ∧ t ≠ msgRlerror := by
  unfold fixedSize at payloader
  split_ifs at payloader with readdir read write
  · subst readdir
    decide
  · subst read
    decide
  · subst write
    decide

namespace Buffer

@[simp] theorem read8_cons (v : UInt8) (rest : List UInt8) (overflow : Bool) :
    read8 ⟨v :: rest, overflow⟩ = (v, ⟨rest, overflow⟩) := by
  simp [read8, consume]

@[simp] theorem read16_cons (v0 v1 : UInt8) (rest : List UInt8) (overflow : Bool) :
    read16 ⟨v0 :: v1 :: rest, overflow⟩ = (v0.toUInt16 ||| (v1.toUInt16 <<< 8), ⟨rest, overflow⟩) := by
  simp [read16, consume]

@[simp] theorem read32_cons (v0 v1 v2 v3 : UInt8) (rest : List UInt8) (overflow : Bool) :
    read32 ⟨v0 :: v1 :: v2 :: v3 :: rest, overflow⟩ =
      (v0.toUInt32 ||| (v1.toUInt32 <<< 8) ||| (v2.toUInt32 <<< 16) ||| (v3.toUInt32 <<< 24), ⟨rest, overflow⟩) := by
  simp [read32, consume]

end Buffer

theorem recv_type_maxUint8 (msize : UInt32) (enough : 7 ≤ msize) (lookup : UInt16 → MsgType → Option (Except Error MsgType))
    (decode : MsgType → Buffer → Buffer) (tag0 tag1 : UInt8) (rest : List UInt8)
    (panics : ∀ tag, lookup tag 255 = none) :
    recv msize lookup decode ([7, 0, 0, 0, 255, tag0, tag1] ++ rest) = none := by
  have header : ([7, 0, 0, 0, 255, tag0, tag1] ++ rest).take 7 = [7, 0, 0, 0, 255, tag0, tag1] := by simp
  have size : (7 : UInt8).toUInt32 ||| ((0 : UInt8).toUInt32 <<< 8) ||| ((0 : UInt8).toUInt32 <<< 16) |||
      ((0 : UInt8).toUInt32 <<< 24) = 7 := by decide
  have fits : ¬ (7 > maximumLength ∨ 7 > msize) := by
    rintro (tooLarge | tooLarge)
    · exact absurd tooLarge (by decide)
    · exact absurd enough (UInt32.not_le.mpr tooLarge)
  unfold recv
  rw [if_neg (by simp), header]
  simp only [Buffer.read32_cons, Buffer.readMsgType, Buffer.read8_cons, Buffer.readTag, Buffer.read16_cons, size]
  rw [if_neg (by decide), if_neg fits, panics]

theorem channelRecv_short_payloader (expected : Option MsgType) (rsz : Nat) (t fd : UInt8) (rest : List UInt8)
    (decode : MsgType → Buffer → Buffer) (fs : Nat) (payloader : fixedSize t = some fs)
    (asked : expected = none ∨ expected = some t) (header : 2 ≤ rsz) (short : rsz < 2 + fs)
    (inside : rsz ≤ rest.length + 2) : channelRecv expected rsz (t :: fd :: rest) decode = none := by
  obtain ⟨registeredT, notError⟩ := registryGet_of_fixedSize payloader
  obtain ⟨body, rfl⟩ : ∃ body, rsz = body + 2 := ⟨rsz - 2, by omega⟩
  have found : (if t = msgRlerror then some (.ok msgRlerror)
      else match expected with
        | none => registryGet t
        | some r => if t ≠ r then some (.error (.ErrBadResponse t r)) else some (.ok r)) =
      some (Except.ok t : Except Error MsgType) := by
    rw [if_neg notError]
    rcases asked with rfl | rfl
    · exact registeredT
    · simp
  have tooShort : fs > (rest.take body).length := by
    rw [List.length_take]
    omega
  unfold channelRecv
  rw [if_neg (by simp; omega), List.take_succ_cons, List.take_succ_cons]
  simp only [Buffer.readMsgType, Buffer.read8_cons]
  rw [found]
  simp only [payloader, tooShort, if_true]

/-- Input a peer sends makes both receive paths of a 9P server panic,
whatever the messages' decoders do. Over a socket, a seven-byte header of
type 255 reaches `msgRegistry.get`, which indexes its 255-entry `factories`
array with 255. Over flipcall, a payloader type (`Twrite`, `Rread`,
`Rreaddir`) followed by fewer bytes than its fixed part makes
`ch.buf.data[fs:]` slice past the end. -/
theorem recv_panics_on_peer_input (decode : MsgType → Buffer → Buffer) :
    (∀ (msize : UInt32) (tag0 tag1 : UInt8) (rest : List UInt8), 7 ≤ msize →
      recv msize (fun _ t => registryGet t) decode ([7, 0, 0, 0, 255, tag0, tag1] ++ rest) = none) ∧
    (∀ (rsz : Nat) (t fd : UInt8) (rest : List UInt8) (fs : Nat), fixedSize t = some fs →
      2 ≤ rsz → rsz < 2 + fs → rsz ≤ rest.length + 2 → channelRecv none rsz (t :: fd :: rest) decode = none) := by
  constructor
  · intro msize tag0 tag1 rest enough
    exact recv_type_maxUint8 msize enough _ decode tag0 tag1 rest fun _ => registryGet_maxUint8
  · intro rsz t fd rest fs payloader header short inside
    exact channelRecv_short_payloader none rsz t fd rest decode fs payloader (.inl rfl) header short inside

theorem recv_panics_on_type_255_and_empty_twrite :
    7 ≤ (8192 : UInt32) ∧ fixedSize 118 = some 16 ∧
      recv 8192 (fun _ t => registryGet t) (fun _ b => b) ([7, 0, 0, 0, 255, 1, 0] ++ []) = none ∧
      channelRecv none 2 (118 :: 0 :: List.replicate 16 0) (fun _ b => b) = none := by
  have panics := recv_panics_on_peer_input fun _ b => b
  exact ⟨by decide, rfl, panics.1 8192 1 0 [] (by decide),
    panics.2 2 118 0 (List.replicate 16 0) 16 rfl (by decide) (by decide) (by simp)⟩

end Cijitter.P9
