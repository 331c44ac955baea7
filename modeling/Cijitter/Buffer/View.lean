import Mathlib

/-! `buffer.View` (`pkg/buffer`): a list of fixed-size buffers, each read
from its read index up to its write index, and the total `size` of what can
be read. A buffer keeps only the bytes between its two indexes: what lies
before the read index is never read again. Readers and writers passed in
are functions threading their own state: a reader yields bytes for a
requested count, a writer takes bytes and says how many it took. A panic of
the source is `none`. -/

set_option autoImplicit false

namespace Cijitter.BufferView

/-- The `io` errors that the view's loops pass on. -/
inductive IoError where
  /-- `io.EOF`. -/
  | eof
  /-- An error of a caller's reader or writer. -/
  | failed (code : Nat)
  deriving DecidableEq, Repr

def bufferSize : Nat := 8144

/-- `minBatch`: `unsafe.Sizeof(uintptr(0))` on amd64. -/
def minBatch : Nat := 8

structure Buffer where
  bytes : List UInt8
  read : Nat
  write : Nat
  deriving DecidableEq, Repr

namespace Buffer

/-- A buffer from `bufferPool`, which holds only `Reset` buffers. -/
def fresh : Buffer := ⟨[], 0, 0⟩

def full (b : Buffer) : Bool := b.write == bufferSize

def readSize (b : Buffer) : Nat := b.write - b.read

def writeSize (b : Buffer) : Nat := bufferSize - b.write

def readMove (b : Buffer) (n : Nat) : Buffer := ⟨b.bytes.drop n, b.read + n, b.write⟩

/-- Copying `data` into `WriteSlice()` and then `WriteMove(len(data))`. -/
def writeBytes (b : Buffer) (data : List UInt8) : Buffer :=
  ⟨b.bytes ++ data, b.read, b.write + data.length⟩

end Buffer

structure View where
  data : List Buffer
  size : Nat
  deriving DecidableEq, Repr

namespace View

/-- What the view holds, in order. -/
def contents (v : View) : List UInt8 := (v.data.map Buffer.bytes).flatten

/-- The loop of `advanceRead` over the buffers from the front. -/
def advanceReadLoop : List Buffer → Nat → Nat → Option View
  | [], size, count => if count > 0 then none else some ⟨[], size⟩
  | buf :: rest, size, count =>
    if count = 0 then some ⟨buf :: rest, size⟩
    else if buf.readSize > count then some ⟨buf.readMove count :: rest, size - count⟩
    -- Consume the whole buffer.
    else advanceReadLoop rest (size - buf.readSize) (count - buf.readSize)

def advanceRead (v : View) (count : Nat) : Option View :=
  advanceReadLoop v.data v.size count

def trimFront (v : View) (count : Nat) : Option View :=
  if count ≥ v.size then v.advanceRead v.size else v.advanceRead count

/-- The copy loop of `ReadAt` into a slice of `length` bytes: the bytes
copied so far are `out`. -/
def readAtLoop (length offset : Nat) : List Buffer → Nat → List UInt8 → List UInt8
  | [], _, out => out
  | buf :: rest, skipped, out =>
    if out.length < length then
      let needToSkip := offset - skipped
      if buf.readSize ≤ needToSkip then readAtLoop length offset rest (skipped + buf.readSize) out
      else
        readAtLoop length offset rest (skipped + needToSkip)
          (out ++ (buf.bytes.drop needToSkip).take (length - out.length))
    else out

/-- `ReadAt` into a slice of `length` bytes at `offset`. -/
def readAt (v : View) (length offset : Nat) : List UInt8 × Option IoError :=
  let out := readAtLoop length offset v.data 0 []
  (out, if out.length < length ∨ offset + out.length = v.size then some .eof else none)

/-- The back buffer and the buffers before it, a fresh one pushed back when
there is none or it is full. -/
def backWithSpace (v : View) : List Buffer × Buffer :=
  match v.data.getLast? with
  | some buf => if buf.full then (v.data, .fresh) else (v.data.dropLast, buf)
  | none => ([], .fresh)

/-- The loop of `Append`: each turn fills the back buffer as far as it goes. -/
def appendLoop : Nat → View → List UInt8 → View
  | 0, v, _ => v
  | fuel + 1, v, data =>
    if data = [] then v
    else
      let (before, buf) := v.backWithSpace
      let n := min buf.writeSize data.length
      appendLoop fuel ⟨before ++ [buf.writeBytes (data.take n)], v.size + n⟩ (data.drop n)

def append (v : View) (data : List UInt8) : View :=
  appendLoop (data.length + 1) v data

/-- The loop of `Truncate` over the buffers from the back, which `back`
lists last first. The buffer the length falls in keeps its first bytes. -/
def truncateLoop (length : Nat) : List Buffer → Nat → View
  | [], size => ⟨[], size⟩
  | buf :: before, size =>
    if size > length then
      if size - buf.readSize < length then
        -- Truncate the buffer locally.
        let left := length - (size - buf.readSize)
        ⟨before.reverse ++ [⟨buf.bytes.take left, buf.read, buf.read + left⟩], length⟩
      -- Drop the buffer completely.
      else truncateLoop length before (size - buf.readSize)
    else ⟨(buf :: before).reverse, size⟩

/-- `Truncate` to a length that is not negative. -/
def truncate (v : View) (length : Nat) : View :=
  if length ≥ v.size then v else truncateLoop length v.data.reverse v.size

/-- The loop of `Grow` with `zero` set: each turn fills the back buffer with
zeros as far as it goes. -/
def growLoop (length : Nat) : Nat → View → View
  | 0, v => v
  | fuel + 1, v =>
    if v.size < length then
      let (before, buf) := v.backWithSpace
      let sz := min buf.writeSize (length - v.size)
      growLoop length fuel ⟨before ++ [buf.writeBytes (List.replicate sz 0)], v.size + sz⟩
    else v

/-- `Grow(length, true)`. -/
def grow (v : View) (length : Nat) : View :=
  growLoop length (length - v.size + 1) v

/-- The loop of `Prepend`: each turn pushes a fresh buffer to the front and
fills it from its end with the last of the bytes still to prepend. -/
def prependLoop : Nat → View → List UInt8 → View
  | 0, v, _ => v
  | fuel + 1, v, data =>
    if data = [] then v
    else
      let n := min bufferSize data.length
      let dStart := data.length - n
      prependLoop fuel ⟨⟨data.drop dStart, bufferSize - n, bufferSize⟩ :: v.data, v.size + n⟩ (data.take dStart)

/-- `Prepend`: the room before the front buffer's read index is filled first,
from its end, then fresh buffers go in front. -/
def prepend (v : View) (data : List UInt8) : View :=
  match v.data with
  | buf :: rest =>
    if buf.read > 0 then
      let n := min buf.read data.length
      let dStart := data.length - n
      prependLoop (data.length + 1) ⟨⟨data.drop dStart ++ buf.bytes, buf.read - n, buf.write⟩ :: rest, v.size + n⟩
        (data.take dStart)
    else prependLoop (data.length + 1) v data
  | [] => prependLoop (data.length + 1) v data

/-- `Merge`: the buffers of `other` move to the back of this view, and `other`
is left empty. -/
def merge (v other : View) : View × View :=
  (⟨v.data ++ other.data, v.size + other.size⟩, ⟨[], 0⟩)

/-- `Copy`: a new view, with each buffer's bytes appended in turn. -/
def copy (v : View) : View :=
  v.data.foldl (fun other buf => other.append buf.bytes) ⟨[], 0⟩

/-- `Flatten`: a single buffer's bytes as they are, or all of them gathered. -/
def flatten (v : View) : List UInt8 :=
  match v.data with
  | [] => []
  | [buf] => buf.bytes
  | data => data.foldl (fun out buf => out ++ buf.bytes) []

section Reader

variable {ρ : Type} (read : ρ → Nat → ρ × List UInt8 × Option IoError)

/-- The loop of `WriteFromReader`. On a reader that returns no bytes and no
error Go's loop never ends, and running out of fuel (`none`) stands for
that; a turn of any other reader reads at least one byte or ends the loop,
so a fuel of `count + 1` is enough for it. -/
def writeFromReaderLoop (count : Nat) : Nat → View → ρ → Nat → Option (View × ρ × Nat × Option IoError)
  | 0, _, _, _ => none
  | fuel + 1, v, r, done =>
    if done < count then
      let (before, buf) := v.backWithSpace
      let v : View := ⟨before ++ [buf], v.size⟩
      -- Batch small writes: read into a temporary slice and append it.
      if buf.writeSize < minBatch ∧ count - done ≥ minBatch then
        let (r, tmp, err) := read r minBatch
        let v := v.append tmp
        let done := done + tmp.length
        if err.isSome then some (v, r, done, err)
        else writeFromReaderLoop count fuel v r done
      else
        let sz := min buf.writeSize (count - done)
        let (r, got, err) := read r sz
        let v : View := ⟨before ++ [buf.writeBytes got], v.size + got.length⟩
        let done := done + got.length
        match err with
        -- Short write allowed.
        | some .eof => some (v, r, done, none)
        | some err => some (v, r, done, some err)
        | none => writeFromReaderLoop count fuel v r done
    else some (v, r, done, none)

def writeFromReader (v : View) (r : ρ) (count : Nat) : Option (View × ρ × Nat × Option IoError) :=
  writeFromReaderLoop read count (count + 1) v r 0

end Reader

section Writer

variable {ω : Type} (write : ω → List UInt8 → ω × Nat × Option IoError)

/-- The loop of `ReadToWriter` over the buffers from the front; `offset` is
the spill-over of a batched read into the buffers after it. -/
def readToWriterLoop (v : View) (count : Nat) : List Buffer → ω → Nat → Nat → ω × Nat × Option IoError
  | [], w, done, _ => (w, done, none)
  | buf :: rest, w, done, offset =>
    if done < count then
      if buf.readSize ≤ offset then readToWriterLoop v count rest w done (offset - buf.readSize)
      else
        let sz := buf.readSize - offset
        let left := count - done
        if sz < minBatch ∧ left ≥ minBatch ∧ v.size - done ≥ minBatch then
          -- Batch small reads: the write's count and error are dropped.
          let (tmp, err) := v.readAt minBatch done
          let (w, _, _) := write w tmp
          let done := done + tmp.length
          if err.isSome then (w, done, err)
          else readToWriterLoop v count rest w done (tmp.length - sz)
        else
          let sz := if sz ≥ left then left else sz
          let (w, n, err) := write w ((buf.bytes.drop offset).take sz)
          let done := done + n
          if err.isSome then (w, done, err)
          else readToWriterLoop v count rest w done 0
    else (w, done, none)

/-- `ReadToWriter`: writes up to `count` bytes of the view to `w`, without
consuming them. -/
def readToWriter (v : View) (w : ω) (count : Nat) : ω × Nat × Option IoError :=
  readToWriterLoop write v count v.data w 0 0

end Writer

end View

end Cijitter.BufferView
