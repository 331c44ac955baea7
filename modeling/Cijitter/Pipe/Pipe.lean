import Cijitter.Buffer.View

/-! The sentry pipe (`pkg/sentry/kernel/pipe`): a `buffer.View` of queued
bytes bounded by `max`, with the counts of reader and writer ends. `read`
and `write` take the caller's operations as in the source's `readOps` and
`writeOps`: closures over the caller's state, here a state threaded through
them. `ReadFrom` and `WriteTo` are the callers of those with an `io.Reader`
and an `io.Writer`. A panic of the source, or a loop of it that never ends,
is `none`. -/

set_option autoImplicit false

namespace Cijitter.SentryPipe

open BufferView

inductive PipeError where
  | errWouldBlock
  | EPIPE
  | EINVAL
  | EPERM
  | EBUSY
  | io (err : IoError)
  deriving DecidableEq, Repr

def minimumPipeSize : Nat := 64 * 2 ^ 10

def maximumPipeSize : Nat := 8 * 2 ^ 20

structure Pipe where
  isNamed : Bool
  atomicIOBytes : Nat
  readers : Nat
  writers : Nat
  view : View
  max : Nat
  hadWriter : Bool
  deriving DecidableEq, Repr

/-- `readOps`: how much the caller still wants, how to lower that, and the
read itself, from the view to the caller. -/
structure ReadOps (σ : Type) where
  left : σ → Nat
  limit : Nat → σ → σ
  read : σ → View → Option (View × σ × Nat × Option PipeError)

/-- `writeOps`, from the caller to the view. -/
structure WriteOps (σ : Type) where
  left : σ → Nat
  limit : Nat → σ → σ
  write : σ → View → Option (View × σ × Nat × Option PipeError)

/-- `initPipe`, with the sizes clamped as `NewPipe` clamps them. -/
def newPipe (isNamed : Bool) (sizeBytes atomicIOBytes : Int) : Pipe :=
  let sizeBytes : Int := if sizeBytes < minimumPipeSize then minimumPipeSize else sizeBytes
  let sizeBytes : Int := if sizeBytes > maximumPipeSize then maximumPipeSize else sizeBytes
  let atomicIOBytes : Int := if atomicIOBytes ≤ 0 then 1 else atomicIOBytes
  let atomicIOBytes : Int := if atomicIOBytes > sizeBytes then sizeBytes else atomicIOBytes
  ⟨isNamed, atomicIOBytes.toNat, 0, 0, ⟨[], 0⟩, sizeBytes.toNat, false⟩

namespace Pipe

def hasReaders (p : Pipe) : Bool := p.readers > 0

def hasWriters (p : Pipe) : Bool := p.writers > 0

def rOpen (p : Pipe) : Pipe := { p with readers := p.readers + 1 }

def wOpen (p : Pipe) : Pipe := { p with writers := p.writers + 1, hadWriter := true }

/-- `rClose`: a negative count of readers panics. -/
def rClose (p : Pipe) : Option Pipe :=
  if p.readers = 0 then none else some { p with readers := p.readers - 1 }

def wClose (p : Pipe) : Option Pipe :=
  if p.writers = 0 then none else some { p with writers := p.writers - 1 }

variable {σ : Type}

def readLocked (p : Pipe) (ops : ReadOps σ) (env : σ) : Option (Pipe × σ × Nat × Option PipeError) :=
  -- Is the pipe empty? End of file only without writers.
  if p.view.size = 0 then
    if !p.hasWriters then some (p, env, 0, none) else some (p, env, 0, some .errWouldBlock)
  else
    -- Limit how much is consumed.
    let env := if ops.left env > p.view.size then ops.limit p.view.size env else env
    (ops.read env p.view).map fun (view, env, done, err) => ({ p with view }, env, done, err)

def read (p : Pipe) (ops : ReadOps σ) (env : σ) : Option (Pipe × σ × Nat × Option PipeError) :=
  if ops.left env = 0 then some (p, env, 0, none) else p.readLocked ops env

/-- `writeLocked`: a write that does not fit is refused whole when it is
small enough to be atomic, and otherwise cut to the space left. -/
def writeLocked (p : Pipe) (ops : WriteOps σ) (env : σ) : Option (Pipe × σ × Nat × Option PipeError) :=
  if !p.hasReaders then some (p, env, 0, some .EPIPE)
  else
    let wanted : Int := ops.left env
    let avail : Int := (p.max : Int) - p.view.size
    if wanted > avail ∧ wanted ≤ p.atomicIOBytes then some (p, env, 0, some .errWouldBlock)
    else
      let env := if wanted > avail then ops.limit avail.toNat env else env
      (ops.write env p.view).map fun (view, env, done, err) =>
        let p := { p with view }
        if err.isSome then (p, env, done, err)
        else if (done : Int) < avail then (p, env, done, none)
        else if (done : Int) < wanted then (p, env, done, some .errWouldBlock)
        else (p, env, done, none)

def write (p : Pipe) (ops : WriteOps σ) (env : σ) : Option (Pipe × σ × Nat × Option PipeError) :=
  p.writeLocked ops env

/-- `SetFifoSize`. -/
def setFifoSize (p : Pipe) (size : Int) : Pipe × Except PipeError Nat :=
  if size < 0 then (p, .error .EINVAL)
  else
    let size := if size < minimumPipeSize then (minimumPipeSize : Int) else size
    if size > maximumPipeSize then (p, .error .EPERM)
    else if size < p.view.size then (p, .error .EBUSY)
    else ({ p with max := size.toNat }, .ok size.toNat)

section Io

variable {ρ ω : Type}

/-- `ReadFrom`: up to `count` bytes from the reader `r` into the pipe. -/
def readFrom (p : Pipe) (read : ρ → Nat → ρ × List UInt8 × Option IoError) (r : ρ) (count : Nat) :
    Option (Pipe × ρ × Nat × Option PipeError) :=
  let ops : WriteOps (ρ × Nat) :=
    ⟨fun env => env.2, fun l env => (env.1, l), fun (r, count) view =>
      (view.writeFromReader read r count).map fun (view, r, n, err) => (view, (r, count - n), n, err.map .io)⟩
  (p.write ops (r, count)).map fun (p, (r, _), n, err) => (p, r, n, err)

/-- `WriteTo`: up to `count` bytes of the pipe to the writer `w`, which
`dup` leaves in the pipe. -/
def writeTo (p : Pipe) (write : ω → List UInt8 → ω × Nat × Option IoError) (w : ω) (count : Nat)
    (dup : Bool) : Option (Pipe × ω × Nat × Option PipeError) :=
  let ops : ReadOps (ω × Nat) :=
    ⟨fun env => env.2, fun l env => (env.1, l), fun (w, count) view =>
      let (w, n, err) := view.readToWriter write w count
      let trimmed := if dup then some view else view.trimFront n
      trimmed.map fun view => (view, (w, count - n), n, err.map .io)⟩
  (p.read ops (w, count)).map fun (p, (w, _), n, err) => (p, w, n, err)

/-- A reader over the bytes it has left, as `bytes.Reader` reads: `io.EOF`
once they are used up. -/
def sliceRead (r : List UInt8) (n : Nat) : List UInt8 × List UInt8 × Option IoError :=
  if r = [] then ([], [], some .eof) else (r.drop n, r.take n, none)

/-- A writer that takes bytes while it has room, collecting them, and fails
on what does not fit. -/
def roomWrite (w : List UInt8 × Nat) (bytes : List UInt8) : (List UInt8 × Nat) × Nat × Option IoError :=
  let taken := bytes.take w.2
  ((w.1 ++ taken, w.2 - taken.length), taken.length,
    if taken.length < bytes.length then some (.failed 0) else none)

set_option maxRecDepth 100000 in
/-- A pipe with a reader and a writer end takes 8148 bytes; a first
`WriteTo` passes 8140 of them on, leaving 4 bytes at the end of the first
buffer and 4 in the second. A `WriteTo` of 8 bytes to a writer with no room
then takes the batched path of `ReadToWriter`, which drops the writer's
failure: it reports 8 bytes and trims them, though the writer took none.
After one more byte, what the pipe's readers got is not a prefix of what its
writers put in. -/
theorem writeTo_drops_batched_bytes :
    ∃ p1 p2 p3 p4 p5 r1,
      ((newPipe false 65536 4096).rOpen.wOpen).readFrom sliceRead (List.replicate 8148 0) 8148 =
        some (p1, r1, 8148, none) ∧
      p1.writeTo roomWrite ([], 8140) 8140 false = some (p2, (List.replicate 8140 0, 0), 8140, none) ∧
      p2.writeTo roomWrite ([], 0) 8 false = some (p3, ([], 0), 8, some (.io .eof)) ∧
      p3.view.size = 0 ∧
      p3.readFrom sliceRead [1] 1 = some (p4, [], 1, none) ∧
      p4.writeTo roomWrite ([], 1) 1 false = some (p5, ([1], 0), 1, none) ∧
      ¬ (List.replicate 8140 0 ++ [1]) <+: (List.replicate 8148 (0 : UInt8) ++ [1]) := by
  refine ⟨_, _, _, _, _, _, rfl, rfl, rfl, rfl, rfl, rfl, ?_⟩
  decide

end Io

end Pipe

end Cijitter.SentryPipe
