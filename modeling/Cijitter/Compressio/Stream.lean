import Cijitter.Lib.Bytes

/-! The compressed stream of `pkg/compressio`: `NewWriter`, `Write` and
`Close` produce it, `NewReader` and the `Read` calls consume it.

The stream is the chunk size, then with a key the HMAC of the chunk size,
then for each chunk its compressed length, the compressed bytes and with a
key the HMAC of the compressed bytes, their length and the previous HMAC.
HMAC-SHA256 under the key and flate at the writer's level are the fields of
a `Codec`. The workers compress and decompress the chunks in parallel and
hand them back in order; the model takes the chunks in that order. The
inline buffers of `Write` and `Read` (a chunk encoded straight from, or
decoded straight into, the caller's slice) hold the same bytes as the pooled
ones and are not modelled apart. -/

set_option autoImplicit false

namespace Cijitter.Compressio

/-- The errors the stream functions return: `io.EOF`,
`io.ErrUnexpectedEOF`, `ErrHashMismatch`, and an error of flate's reader. -/
inductive Error where
  | eof
  | unexpectedEOF
  | hashMismatch
  | flate
  deriving DecidableEq, Repr

/-- HMAC-SHA256 of a message under a key, flate's compression at a level,
and flate's decompression. -/
structure Codec where
  hmac : List UInt8 → List UInt8 → List UInt8
  compress : Int → List UInt8 → List UInt8
  decompress : List UInt8 → Except Error (List UInt8)

/-- `binary.WriteUint32(w, binary.BigEndian, v)`. -/
def beBytes32 (v : UInt32) : List UInt8 := (Bytes.leBytes 4 v.toNat).reverse

/-- `io.ReadFull(r, buf)` with `len(buf) = n`: `io.EOF` on an empty input,
`io.ErrUnexpectedEOF` on one that ends early. -/
def readFull (n : Nat) (input : List UInt8) : Except Error (List UInt8 × List UInt8) :=
  if n ≤ input.length then .ok (input.take n, input.drop n)
  else if input = [] then .error .eof
  else .error .unexpectedEOF

/-- `binary.ReadUint32(r, binary.BigEndian)`. -/
def readUint32 (input : List UInt8) : Except Error (UInt32 × List UInt8) :=
  match readFull 4 input with
  | .ok (bytes, rest) => .ok (UInt32.ofNat (Bytes.leValue bytes.reverse), rest)
  | .error e => .error e

/-- `io.CopyN(dst, r, n)` from the input: an input that ends early gives
`io.EOF`, which the reader reports as `io.ErrUnexpectedEOF`. -/
def copyN (n : Nat) (input : List UInt8) : Except Error (List UInt8 × List UInt8) :=
  if n ≤ input.length then .ok (input.take n, input.drop n) else .error .eof

/-! ## Writer -/

structure Writer where
  chunkSize : UInt32
  key : Option (List UInt8)
  level : Int
  buf : List UInt8
  out : List UInt8
  lastSum : List UInt8
  closed : Bool

/-- `NewWriter`: the chunk size, then with a key its HMAC, which starts the
chain of sums. -/
def newWriter (codec : Codec) (key : Option (List UInt8)) (chunkSize : UInt32) (level : Int) : Writer :=
  match key with
  | none => ⟨chunkSize, none, level, [], beBytes32 chunkSize, [], false⟩
  | some k =>
    let sum := codec.hmac k (beBytes32 chunkSize)
    ⟨chunkSize, some k, level, [], beBytes32 chunkSize ++ sum, sum, false⟩

namespace Writer

variable (codec : Codec)

/-- The worker's compression of one chunk (the hash takes the compressed
bytes and their length), then `flush`: the length, the compressed bytes, and
the sum once the previous sum is hashed in. -/
def flush (w : Writer) (uncompressed : List UInt8) : Writer :=
  let compressed := codec.compress w.level uncompressed
  let l := UInt32.ofNat compressed.length
  match w.key with
  | none => { w with out := w.out ++ beBytes32 l ++ compressed }
  | some k =>
    let sum := codec.hmac k (compressed ++ beBytes32 l ++ w.lastSum)
    { w with out := w.out ++ beBytes32 l ++ compressed ++ sum, lastSum := sum }

@[simp] theorem flush_chunkSize (w : Writer) (uncompressed : List UInt8) :
    (w.flush codec uncompressed).chunkSize = w.chunkSize := by
  unfold flush
  cases w.key <;> rfl

/-- The loop of `Write` over what is left of `p`: a full `buf` is scheduled
and replaced by an empty one, otherwise `buf` takes what fits. With a chunk
size of zero the loop schedules empty chunks for ever and never returns:
`none`. -/
def writeLoop (w : Writer) (p : List UInt8) : Option Writer :=
  if p = [] then some w
  else if w.chunkSize.toNat = 0 then none
  else
    let left := w.chunkSize.toNat - w.buf.length
    if left = 0 then writeLoop { w.flush codec w.buf with buf := [] } p
    else
      let toWrite := min p.length left
      writeLoop { w with buf := w.buf ++ p.take toWrite } (p.drop toWrite)
termination_by 2 * p.length + (if w.chunkSize.toNat ≤ w.buf.length then 1 else 0)
decreasing_by
  · have positive : 0 < w.chunkSize.toNat := Nat.pos_of_ne_zero ‹_›
    simp only [flush_chunkSize, List.length_nil, Nat.le_zero, Nat.ne_of_gt positive, if_false]
    split <;> omega
  · have nonempty : 0 < p.length := List.length_pos_iff.mpr ‹_›
    simp only [List.length_drop, List.length_append, List.length_take]
    split <;> split <;> omega

/-- `Write`. -/
def write (w : Writer) (p : List UInt8) : Option (Except Error Writer) :=
  if w.closed then some (.error .unexpectedEOF) else (w.writeLoop codec p).map .ok

/-- `Close`: the partial buffer left is flushed last. -/
def close (w : Writer) : Except Error Writer :=
  if w.closed then .error .unexpectedEOF
  else
    let w := { w with closed := true }
    .ok (if 0 < w.buf.length then w.flush codec w.buf else w)

end Writer

/-- The stream `NewWriter`, `Write` and `Close` produce from the chunks
`writes` of the data, one `Write` call each; `none` where a `Write` never
returns. -/
def writeStream (codec : Codec) (key : Option (List UInt8)) (chunkSize : UInt32) (level : Int)
    (writes : List (List UInt8)) : Option (Except Error (List UInt8)) :=
  let written := writes.foldl (fun w p => w.bind fun w => (w.writeLoop codec p)) (some (newWriter codec key chunkSize level))
  written.map fun w => (w.close codec).map (·.out)

/-! ## Reader -/

structure Reader where
  key : Option (List UInt8)
  chunkSize : UInt32
  lastSum : List UInt8
  input : List UInt8

/-- `NewReader`: the chunk size, and with a key its HMAC, checked. -/
def newReader (codec : Codec) (input : List UInt8) (key : Option (List UInt8)) : Except Error Reader :=
  match readUint32 input with
  | .error e => .error e
  | .ok (chunkSize, rest) =>
    match key with
    | none => .ok ⟨none, chunkSize, [], rest⟩
    | some k =>
      let lastSum := codec.hmac k (beBytes32 chunkSize)
      match readFull lastSum.length rest with
      | .error e => .error e
      | .ok (sum, rest) => if lastSum ≠ sum then .error .hashMismatch else .ok ⟨some k, chunkSize, lastSum, rest⟩

namespace Reader

variable (codec : Codec)

/-- The worker's decoding of one chunk: with a key the sum of the
compressed bytes, their length and the previous sum is checked first. -/
def decode (key : Option (List UInt8)) (lastSum sum compressed : List UInt8) : Except Error (List UInt8) :=
  match key with
  | some k =>
    if sum ≠ codec.hmac k (compressed ++ beBytes32 (UInt32.ofNat compressed.length) ++ lastSum) then
      .error .hashMismatch
    else codec.decompress compressed
  | none => codec.decompress compressed

/-- The sum that follows a chunk's compressed bytes in a stream with a key;
an input that ends before it gives `io.ErrUnexpectedEOF`. -/
def readSum (key : Option (List UInt8)) (lastSum input : List UInt8) : Except Error (List UInt8 × List UInt8) :=
  match key with
  | some _ =>
    match readFull lastSum.length input with
    | .ok read => .ok read
    | .error _ => .error .unexpectedEOF
  | none => .ok ([], input)

theorem readFull_length {n : Nat} {input read rest : List UInt8} (ok : readFull n input = .ok (read, rest)) :
    rest.length ≤ input.length := by
  unfold readFull at ok
  split at ok
  · cases ok
    simp
  · split at ok <;> cases ok

theorem readUint32_length {input rest : List UInt8} {v : UInt32} (ok : readUint32 input = .ok (v, rest)) :
    rest.length + 4 = input.length := by
  unfold readUint32 readFull at ok
  split at ok
  · rename_i bytes rest' read
    split at read
    · cases read
      cases ok
      simp only [List.length_drop]
      omega
    · split at read <;> cases read
  · cases ok

theorem copyN_length {n : Nat} {input read rest : List UInt8} (ok : copyN n input = .ok (read, rest)) :
    rest.length ≤ input.length := by
  unfold copyN at ok
  split at ok
  · cases ok
    simp
  · cases ok

theorem readSum_length {key : Option (List UInt8)} {lastSum input sum rest : List UInt8}
    (ok : readSum key lastSum input = .ok (sum, rest)) : rest.length ≤ input.length := by
  unfold readSum at ok
  split at ok
  · split at ok
    · cases ok
      exact readFull_length ‹_›
    · cases ok
  · cases ok
    exact Nat.le_refl _

-- `hl`, `hc` and `hs` are read by `decreasing_by` only.
set_option linter.unusedVariables false in
/-- What the `Read` calls on `r` return together until one returns an
error: the decoded chunks in order, then `io.EOF` (`.ok`) once the length of
a next chunk cannot be read, whatever that read's error; or the first error
of a chunk. -/
def readAll (r : Reader) : Except Error (List UInt8) :=
  match hl : readUint32 r.input with
  | .error _ => .ok []
  | .ok (l, rest) =>
    match hc : copyN l.toNat rest with
    | .error _ => .error .unexpectedEOF
    | .ok (compressed, rest) =>
      match hs : readSum r.key r.lastSum rest with
      | .error e => .error e
      | .ok (sum, rest) =>
        match decode codec r.key r.lastSum sum compressed with
        | .error e => .error e
        | .ok data =>
          match readAll { r with lastSum := sum, input := rest } with
          | .error e => .error e
          | .ok more => .ok (data ++ more)
termination_by r.input.length
decreasing_by
  have first := readUint32_length hl
  have second := copyN_length hc
  have third := readSum_length hs
  omega

theorem readAll_eq (r : Reader) :
    readAll codec r =
      match readUint32 r.input with
      | .error _ => .ok []
      | .ok (l, rest) =>
        match copyN l.toNat rest with
        | .error _ => .error .unexpectedEOF
        | .ok (compressed, rest) =>
          match readSum r.key r.lastSum rest with
          | .error e => .error e
          | .ok (sum, rest) =>
            match decode codec r.key r.lastSum sum compressed with
            | .error e => .error e
            | .ok data => (readAll codec { r with lastSum := sum, input := rest }).map (data ++ ·) := by
  rw [readAll]
  split
  · rename_i hl
    rw [hl]
  · rename_i l rest hl
    rw [hl]
    dsimp only
    split
    · rename_i hc
      rw [hc]
    · rename_i compressed rest hc
      rw [hc]
      dsimp only
      split
      · rename_i hs
        rw [hs]
      · rename_i sum rest hs
        rw [hs]
        dsimp only
        split
        · rfl
        · split <;> rename_i more <;> rw [more] <;> rfl

end Reader

end Cijitter.Compressio
