import Mathlib

/-! Go's `io` reads over a stream, given by the bytes not yet read from it.
`io.ReadFull` into a buffer of `n` bytes reads `n` of them when there are as
many, and otherwise all that are left, with `io.EOF` when there were none
and `io.ErrUnexpectedEOF` when there were some.

The second part models a `bufio.Reader` over an `io.MultiReader` of
`bytes.Reader`s, with its buffer, the readers under it and the error it
keeps, and proves that it reads as a single cursor over the bytes it has not
returned: its buffer followed by what the readers hold. -/

set_option autoImplicit false

namespace GoIo

/-- The two errors of `io` that a read can end with. -/
inductive IoError where
  /-- `io.EOF`. -/
  | eof
  /-- `io.ErrUnexpectedEOF`. -/
  | unexpectedEOF
  deriving DecidableEq, Repr

variable {α : Type}

/-- `io.ReadFull` on a reader whose unread bytes are `stream`: what it read,
its error, and the unread bytes after. -/
def readFull (stream : List α) (n : Nat) : List α × Option IoError × List α :=
  (stream.take n,
    if n ≤ stream.length then none else if stream = [] then some .eof else some .unexpectedEOF,
    stream.drop n)

theorem readFull_of_lt {stream : List α} {n : Nat} (short : stream.length < n) :
    ∃ err, readFull stream n = (stream, some err, []) := by
  refine ⟨if stream = [] then .eof else .unexpectedEOF, ?_⟩
  simp only [readFull, List.take_of_length_le (Nat.le_of_lt short), List.drop_of_length_le (Nat.le_of_lt short),
    if_neg (Nat.not_le_of_lt short)]
  split <;> rfl

theorem drop_length_readFull (stream : List α) (n : Nat) :
    stream.drop (readFull stream n).1.length = (readFull stream n).2.2 := by
  simp only [readFull, List.length_take]
  by_cases enough : n ≤ stream.length
  · rw [Nat.min_eq_left enough]
  · rw [Nat.min_eq_right (by omega), List.drop_length, List.drop_of_length_le (by omega)]

@[simp] theorem readFull_append (bytes rest : List α) :
    readFull (bytes ++ rest) bytes.length = (bytes, none, rest) := by
  simp [readFull]

/-- A read of at most `n` bytes from a stream holding `stream` that returned
`got`, ended with `err` and left `left`: it returned the first bytes, some
when any were left, and `io.EOF` exactly when none were. -/
structure ReadsFront (stream : List α) (n : Nat) (got : List α) (err : Option IoError) (left : List α) : Prop where
  split : got ++ left = stream
  bounded : got.length ≤ n
  progress : stream ≠ [] → got ≠ []
  eof : err = if stream = [] then some .eof else none

theorem ReadsFront.of_nil (n : Nat) : ReadsFront ([] : List α) n [] (some .eof) [] :=
  ⟨rfl, Nat.zero_le _, fun nonempty => absurd rfl nonempty, rfl⟩

theorem ReadsFront.of_prefix {buf : List α} (rest : List α) (nonempty : buf ≠ []) {n : Nat} (positive : 0 < n) :
    ReadsFront (buf ++ rest) n (buf.take n) none (buf.drop n ++ rest) := by
  refine ⟨by rw [← List.append_assoc, List.take_append_drop], List.length_take_le _ _, fun _ => ?_, ?_⟩
  · rw [Ne, List.take_eq_nil_iff, not_or]
    exact ⟨Nat.pos_iff_ne_zero.mp positive, nonempty⟩
  · rw [if_neg (by simp [nonempty])]

/-! ### `bufio.Reader` over an `io.MultiReader` of `bytes.Reader`s -/

/-- `Read` of `n` bytes from an `io.MultiReader` of `bytes.Reader`s, each
given by its unread bytes: it reads from the first reader that is not at its
end, dropping those that are, and returns `io.EOF` when all are. -/
def multiRead : List (List α) → Nat → List α × Option IoError × List (List α)
  | [], _ => ([], some .eof, [])
  | [] :: readers, n => multiRead readers n
  | reader :: readers, n => (reader.take n, none, reader.drop n :: readers)

theorem multiRead_reads_front {n : Nat} (positive : 0 < n) :
    ∀ readers : List (List α),
      ReadsFront readers.flatten n (multiRead readers n).1 (multiRead readers n).2.1
        (multiRead readers n).2.2.flatten
  | [] => ⟨rfl, Nat.zero_le _, fun nonempty => absurd rfl nonempty, rfl⟩
  | [] :: readers => by
      simpa [multiRead] using multiRead_reads_front positive readers
  | (x :: reader) :: readers => by
      refine ⟨?_, ?_, fun _ => by simp [multiRead]; omega, by simp [multiRead]⟩
      · simp only [multiRead, List.flatten_cons]
        rw [← List.append_assoc, List.take_append_drop]
      · simp only [multiRead, List.length_take]
        exact Nat.min_le_left _ _

/-- `minReadBufferSize`. -/
def minReadBufferSize : Nat := 16

/-- A `bufio.Reader` over an `io.MultiReader` of `bytes.Reader`s. -/
structure BufReader (α : Type) where
  /-- `buf[r:w]`: the bytes read from the readers and not yet returned. -/
  buf : List α
  /-- The unread bytes of each reader under the `io.MultiReader`. -/
  rd : List (List α)
  /-- `err`, kept until it is returned. -/
  err : Option IoError
  /-- `len(buf)`. -/
  size : Nat

namespace BufReader

/-- `bufio.NewReaderSize(io.MultiReader(readers...), size)`. -/
def newReaderSize (readers : List (List α)) (size : Nat) : BufReader α :=
  ⟨[], readers, none, max size minReadBufferSize⟩

/-- `fill` on an empty buffer. One read of the `io.MultiReader` into a
buffer that is not empty returns bytes or `io.EOF`, so the retries of
`fill` never come round. -/
def fill (b : BufReader α) : BufReader α :=
  let (got, err, rd) := multiRead b.rd b.size
  { b with buf := got, rd, err }

/-- `ReadByte`: the loop `for b.r == b.w` returns the error kept, or fills
the buffer once. -/
def readByte (b : BufReader α) : Option α × Option IoError × BufReader α :=
  match b.buf with
  | c :: rest => (some c, none, { b with buf := rest })
  | [] =>
    match b.err with
    | some err => (none, some err, { b with err := none })
    | none =>
      let b := b.fill
      match b.buf with
      | c :: rest => (some c, none, { b with buf := rest })
      | [] => (none, b.err, { b with err := none })

/-- `Read` into a slice of `n` bytes. -/
def read (b : BufReader α) (n : Nat) : List α × Option IoError × BufReader α :=
  if n = 0 then
    if b.buf = [] then ([], b.err, { b with err := none }) else ([], none, b)
  else
    match b.buf with
    | [] =>
      match b.err with
      | some err => ([], some err, { b with err := none })
      | none =>
        if b.size ≤ n then
          -- Large read, empty buffer: read directly into the slice.
          let (got, err, rd) := multiRead b.rd n
          (got, err, { b with rd })
        else
          -- One read into the buffer.
          let (got, err, rd) := multiRead b.rd b.size
          match got with
          | [] => ([], err, { b with rd, err := none })
          | got => (got.take n, none, { b with buf := got.drop n, rd, err })
    | buf => (buf.take n, none, { b with buf := buf.drop n })

/-- The loop of `io.ReadAtLeast(b, buf, len(buf))` for a slice of `n` bytes,
`got` holding those read so far; a turn that reads nothing ends it with an
error, so `n + 1` turns are enough. -/
def readAtLeastLoop (n : Nat) : Nat → BufReader α → List α → List α × Option IoError × BufReader α
  | 0, b, got => (got, none, b)
  | fuel + 1, b, got =>
    if got.length < n then
      match b.read (n - got.length) with
      | (more, none, b) => readAtLeastLoop n fuel b (got ++ more)
      | (more, some err, b) => (got ++ more, some err, b)
    else (got, none, b)

/-- `io.ReadFull` into a slice of `n` bytes. -/
def readFull (b : BufReader α) (n : Nat) : List α × Option IoError × BufReader α :=
  match readAtLeastLoop n (n + 1) b [] with
  | (got, err, b) =>
    (got, if n ≤ got.length then none else if got ≠ [] ∧ err = some .eof then some .unexpectedEOF else err, b)

/-! ### The reader as a cursor -/

/-- The bytes the reader has not returned: its buffer, then the readers'. -/
def contents (b : BufReader α) : List α := b.buf ++ b.rd.flatten

/-- The buffer has room, and the only error kept is the `io.EOF` of readers
that are all at their end, with nothing buffered. -/
def Sound (b : BufReader α) : Prop :=
  0 < b.size ∧ (b.err = none ∨ (b.err = some .eof ∧ b.buf = [] ∧ b.rd.flatten = []))

theorem sound_newReaderSize (readers : List (List α)) (size : Nat) : (newReaderSize readers size).Sound :=
  ⟨Nat.lt_of_lt_of_le (by decide) (Nat.le_max_right _ _), .inl rfl⟩

@[simp] theorem contents_newReaderSize (readers : List (List α)) (size : Nat) :
    (newReaderSize readers size).contents = readers.flatten := rfl

variable {b : BufReader α}

theorem Sound.contents_of_err {err : IoError} (sound : b.Sound) (kept : b.err = some err) :
    err = .eof ∧ b.buf = [] ∧ b.contents = [] := by
  rcases sound.2 with none | ⟨eof, empty, readers⟩
  · rw [none] at kept
    nomatch kept
  · rw [eof, Option.some.injEq] at kept
    exact ⟨kept.symm, empty, by rw [contents, empty, readers, List.append_nil]⟩

theorem Sound.err_of_buf {c : α} {rest : List α} (sound : b.Sound) (buffered : b.buf = c :: rest) :
    b.err = none := by
  rcases sound.2 with none | ⟨-, empty, -⟩
  · exact none
  · rw [buffered] at empty
    nomatch empty

theorem read_reads_front (sound : b.Sound) {n : Nat} (positive : 0 < n) :
    ReadsFront b.contents n (b.read n).1 (b.read n).2.1 (b.read n).2.2.contents ∧ (b.read n).2.2.Sound := by
  obtain ⟨buf, rd, err, size⟩ := b
  have room : 0 < size := sound.1
  simp only [read, if_neg (Nat.pos_iff_ne_zero.mp positive)]
  cases buf with
  | cons c buf =>
      -- the buffered bytes come first
      have none : err = none := sound.err_of_buf rfl
      subst none
      exact ⟨ReadsFront.of_prefix rd.flatten (List.cons_ne_nil c buf) positive, ⟨room, .inl rfl⟩⟩
  | nil =>
      cases err with
      | some err =>
          obtain ⟨eof, -, empty⟩ := sound.contents_of_err rfl
          subst eof
          refine ⟨?_, ⟨room, .inl rfl⟩⟩
          simp only [contents, List.nil_append] at empty ⊢
          rw [empty]
          exact ReadsFront.of_nil n
      | none =>
          by_cases large : size ≤ n
          · -- a large read goes to the readers directly
            simp only [if_pos large]
            exact ⟨multiRead_reads_front positive rd, ⟨room, .inl rfl⟩⟩
          · simp only [if_neg large]
            have reads := multiRead_reads_front room rd
            generalize multiRead rd size = result at reads
            obtain ⟨got, err, rest⟩ := result
            dsimp only at reads
            cases got with
            | nil =>
                have empty : rd.flatten = [] := by
                  by_contra nonempty
                  exact reads.progress nonempty rfl
                have left : rest.flatten = [] := by rw [← List.nil_append rest.flatten, reads.split, empty]
                have eof : err = some .eof := by rw [reads.eof, if_pos empty]
                refine ⟨?_, ⟨room, .inl rfl⟩⟩
                simp only [contents, List.nil_append, empty, left, eof]
                exact ReadsFront.of_nil n
            | cons c got =>
                have none : err = none := by
                  rw [reads.eof, if_neg]
                  rw [← reads.split]
                  exact List.cons_ne_nil _ _
                subst none
                refine ⟨?_, ⟨room, .inl rfl⟩⟩
                simp only [contents, List.nil_append]
                rw [← reads.split]
                exact ReadsFront.of_prefix rest.flatten (List.cons_ne_nil c got) positive

theorem readByte_spec (sound : b.Sound) :
    b.readByte.1 = b.contents.head? ∧ b.readByte.2.1 = (if b.contents = [] then some .eof else none) ∧
      b.readByte.2.2.contents = b.contents.tail ∧ b.readByte.2.2.Sound := by
  obtain ⟨buf, rd, err, size⟩ := b
  have room : 0 < size := sound.1
  cases buf with
  | cons c buf =>
      have none : err = none := sound.err_of_buf rfl
      subst none
      exact ⟨rfl, by simp [readByte, contents], rfl, ⟨room, .inl rfl⟩⟩
  | nil =>
      cases err with
      | some err =>
          obtain ⟨eof, -, empty⟩ := sound.contents_of_err rfl
          subst eof
          simp only [contents, List.nil_append] at empty
          exact ⟨by simp [readByte, contents, empty], by simp [readByte, contents, empty],
            by simp [readByte, contents, empty], ⟨room, .inl rfl⟩⟩
      | none =>
          -- the buffer is filled once
          have reads := multiRead_reads_front room rd
          simp only [readByte, fill]
          generalize multiRead rd size = result at reads
          obtain ⟨got, err, rest⟩ := result
          dsimp only at reads
          cases got with
          | nil =>
              have empty : rd.flatten = [] := by
                by_contra nonempty
                exact reads.progress nonempty rfl
              have left : rest.flatten = [] := by rw [← List.nil_append rest.flatten, reads.split, empty]
              have eof : err = some .eof := by rw [reads.eof, if_pos empty]
              exact ⟨by simp [contents, empty], by simp [contents, empty, eof], by simp [contents, empty, left],
                ⟨room, .inl rfl⟩⟩
          | cons c got =>
              have nonempty : rd.flatten ≠ [] := by
                rw [← reads.split]
                exact List.cons_ne_nil _ _
              have none : err = none := by rw [reads.eof, if_neg nonempty]
              subst none
              refine ⟨?_, by simp [contents, nonempty], ?_, ⟨room, .inl rfl⟩⟩
              · simp only [contents, List.nil_append, ← reads.split, List.cons_append, List.head?_cons]
              · simp only [contents, List.nil_append, ← reads.split, List.cons_append, List.tail_cons]

theorem readAtLeastLoop_spec {n : Nat} (fuel : Nat) :
    ∀ (b : BufReader α) (got : List α), b.Sound → got.length ≤ n → n - got.length < fuel →
      (readAtLeastLoop n fuel b got).1 = got ++ b.contents.take (n - got.length) ∧
        (readAtLeastLoop n fuel b got).2.1 = (if n - got.length ≤ b.contents.length then none else some .eof) ∧
        (readAtLeastLoop n fuel b got).2.2.contents = b.contents.drop (n - got.length) ∧
        (readAtLeastLoop n fuel b got).2.2.Sound := by
  induction fuel with
  | zero => exact fun _ _ _ _ enough => absurd enough (Nat.not_lt_zero _)
  | succ fuel ih =>
    intro b got sound bounded enough
    by_cases short : got.length < n
    · have positive : 0 < n - got.length := by omega
      obtain ⟨reads, sound'⟩ := read_reads_front sound positive
      simp only [readAtLeastLoop, if_pos short]
      generalize b.read (n - got.length) = result at reads sound'
      obtain ⟨more, err, b'⟩ := result
      dsimp only at reads sound'
      have taken : more.length ≤ n - got.length := reads.bounded
      cases err with
      | none =>
          -- a turn without an error read at least one byte
          have nonempty : b.contents ≠ [] := by
            intro empty
            have eof := reads.eof
            rw [if_pos empty] at eof
            nomatch eof
          have progress : 0 < more.length := List.length_pos_iff.mpr (reads.progress nonempty)
          have bounded' : (got ++ more).length ≤ n := by
            rw [List.length_append]
            omega
          have enough' : n - (got ++ more).length < fuel := by
            rw [List.length_append]
            omega
          have need : n - (got ++ more).length = n - got.length - more.length := by
            rw [List.length_append]
            omega
          obtain ⟨read, err, left, sound''⟩ := ih b' (got ++ more) sound' bounded' enough'
          refine ⟨?_, ?_, ?_, sound''⟩
          · rw [read, ← reads.split, List.take_append, List.take_of_length_le taken, List.append_assoc, need]
          · rw [err, need, ← reads.split, List.length_append]
            congr 1
            apply propext
            omega
          · rw [left, ← reads.split, List.drop_append, List.drop_of_length_le taken, List.nil_append, need]
      | some err =>
          -- an error ends the loop, and only at the end of the bytes
          have empty : b.contents = [] := by
            by_contra nonempty
            have eof := reads.eof
            rw [if_neg nonempty] at eof
            nomatch eof
          have split := reads.split
          rw [empty, List.append_eq_nil_iff] at split
          have eof : err = .eof := by
            have := reads.eof
            rw [if_pos empty, Option.some.injEq] at this
            exact this
          subst eof
          refine ⟨by simp [split.1, empty], ?_, by simp [split.2, empty], sound'⟩
          simp only [empty, List.length_nil]
          rw [if_neg (by omega)]
    · have done : n - got.length = 0 := by omega
      simp only [readAtLeastLoop, if_neg short, done]
      exact ⟨by simp, by simp, by simp, sound⟩

theorem readFull_spec (sound : b.Sound) (n : Nat) :
    (b.readFull n).1 = (GoIo.readFull b.contents n).1 ∧ (b.readFull n).2.1 = (GoIo.readFull b.contents n).2.1 ∧
      (b.readFull n).2.2.contents = (GoIo.readFull b.contents n).2.2 ∧ (b.readFull n).2.2.Sound := by
  obtain ⟨read, err, left, sound'⟩ := readAtLeastLoop_spec (n + 1) b [] sound (Nat.zero_le n) (by simp)
  unfold readFull
  generalize readAtLeastLoop n (n + 1) b [] = result at read err left sound'
  obtain ⟨got, err', b'⟩ := result
  dsimp only at read err left sound' ⊢
  simp only [List.length_nil, Nat.sub_zero, List.nil_append] at read err left
  subst read err
  refine ⟨rfl, ?_, left, sound'⟩
  simp only [GoIo.readFull, List.length_take]
  by_cases enough : n ≤ b.contents.length
  · simp [enough]
  · have short : b.contents.length < n := by omega
    rw [Nat.min_eq_right (Nat.le_of_lt short), if_neg enough, if_neg enough, if_neg enough,
      List.take_of_length_le (Nat.le_of_lt short)]
    by_cases empty : b.contents = [] <;> simp [empty]

theorem readByte_eq (sound : b.Sound) :
    b.readByte = (b.contents.head?, if b.contents = [] then some .eof else none, b.readByte.2.2) := by
  obtain ⟨first, err, -, -⟩ := readByte_spec sound
  rw [← first, ← err]

theorem readFull_eq (sound : b.Sound) (n : Nat) :
    b.readFull n = ((GoIo.readFull b.contents n).1, (GoIo.readFull b.contents n).2.1, (b.readFull n).2.2) := by
  obtain ⟨read, err, -, -⟩ := readFull_spec sound n
  rw [← read, ← err]

theorem readByte_of_nil (sound : b.Sound) (empty : b.contents = []) :
    ∃ b', b.readByte = (none, some .eof, b') ∧ b'.contents = [] ∧ b'.Sound := by
  obtain ⟨-, -, left, sound'⟩ := readByte_spec sound
  refine ⟨b.readByte.2.2, ?_, by rw [left, empty, List.tail_nil], sound'⟩
  rw [readByte_eq sound, empty]
  rfl

theorem readByte_of_cons (sound : b.Sound) {c : α} {rest : List α} (front : b.contents = c :: rest) :
    ∃ b', b.readByte = (some c, none, b') ∧ b'.contents = rest ∧ b'.Sound := by
  obtain ⟨-, -, left, sound'⟩ := readByte_spec sound
  refine ⟨b.readByte.2.2, ?_, by rw [left, front, List.tail_cons], sound'⟩
  rw [readByte_eq sound, front]
  rfl

theorem readFull_of_sound (sound : b.Sound) (n : Nat) :
    ∃ b', b.readFull n = ((GoIo.readFull b.contents n).1, (GoIo.readFull b.contents n).2.1, b') ∧
      b'.contents = (GoIo.readFull b.contents n).2.2 ∧ b'.Sound := by
  obtain ⟨-, -, left, sound'⟩ := readFull_spec sound n
  exact ⟨(b.readFull n).2.2, readFull_eq sound n, left, sound'⟩

end BufReader

end GoIo
