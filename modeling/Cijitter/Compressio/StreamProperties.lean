import Cijitter.Compressio.Stream

/-! What the compressed stream is. One `Write` of `d` on a new writer and
`Close` produce the header and one frame for each piece of `d` of
`chunkSize` bytes, the last one shorter (`Writer.writeLoop_close`). The
reader decodes those frames back (`Reader.readAll_frames`), and it stops
with a clean `io.EOF` wherever a length cannot be read: a stream cut right
after a frame reads as the chunks before the cut. -/

set_option autoImplicit false

namespace Cijitter.Compressio

open Bytes

variable (codec : Codec)

/-! ## Frames -/

/-- The bytes `flush` appends for one chunk after the sum `lastSum`, and the
sum that follows them. -/
def frame (key : Option (List UInt8)) (level : Int) (lastSum chunk : List UInt8) : List UInt8 × List UInt8 :=
  let compressed := codec.compress level chunk
  let l := UInt32.ofNat compressed.length
  match key with
  | none => (beBytes32 l ++ compressed, lastSum)
  | some k =>
    let sum := codec.hmac k (compressed ++ beBytes32 l ++ lastSum)
    (beBytes32 l ++ compressed ++ sum, sum)

/-- The frames of `chunks`, chained from the sum `lastSum`. -/
def frames (key : Option (List UInt8)) (level : Int) : List UInt8 → List (List UInt8) → List UInt8
  | _, [] => []
  | lastSum, chunk :: chunks =>
    (frame codec key level lastSum chunk).1 ++ frames key level (frame codec key level lastSum chunk).2 chunks

namespace Writer

/-- Flushing the chunks in turn. -/
def flushAll (w : Writer) (chunks : List (List UInt8)) : Writer :=
  chunks.foldl (fun w chunk => w.flush codec chunk) w

theorem flush_eq (w : Writer) (chunk : List UInt8) :
    w.flush codec chunk =
      { w with
        out := w.out ++ (frame codec w.key w.level w.lastSum chunk).fst
        lastSum := (frame codec w.key w.level w.lastSum chunk).snd } := by
  unfold flush frame
  cases w.key <;> simp

@[simp] theorem flush_key (w : Writer) (chunk : List UInt8) : (w.flush codec chunk).key = w.key := by
  rw [flush_eq]

@[simp] theorem flush_level (w : Writer) (chunk : List UInt8) : (w.flush codec chunk).level = w.level := by
  rw [flush_eq]

@[simp] theorem flush_buf (w : Writer) (chunk : List UInt8) : (w.flush codec chunk).buf = w.buf := by
  rw [flush_eq]

@[simp] theorem flush_closed (w : Writer) (chunk : List UInt8) : (w.flush codec chunk).closed = w.closed := by
  rw [flush_eq]

theorem flushAll_out (w : Writer) (chunks : List (List UInt8)) :
    (w.flushAll codec chunks).out = w.out ++ frames codec w.key w.level w.lastSum chunks := by
  induction chunks generalizing w with
  | nil => simp [flushAll, frames]
  | cons chunk chunks ih =>
    have shifted := ih (w.flush codec chunk)
    simp only [flushAll, List.foldl_cons] at shifted ⊢
    rw [shifted, flush_key, flush_level, flush_eq, frames, List.append_assoc]

/-- The output if `Close` came now: the partial buffer is flushed last. -/
def closeOut (w : Writer) : List UInt8 := (if 0 < w.buf.length then w.flush codec w.buf else w).out

theorem writeLoop_spec (w : Writer) (p : List UInt8) (positive : w.chunkSize.toNat ≠ 0)
    (fits : w.buf.length ≤ w.chunkSize.toNat) :
    ∃ w', w.writeLoop codec p = some w' ∧ w'.key = w.key ∧ w'.level = w.level ∧ w'.closed = w.closed ∧
      w'.closeOut codec =
        w.out ++ frames codec w.key w.level w.lastSum (readPieces w.chunkSize.toNat [] (w.buf ++ p)) := by
  fun_induction writeLoop codec w p with
  | case1 w =>
    refine ⟨w, rfl, rfl, rfl, rfl, ?_⟩
    rw [List.append_nil, readPieces_of_le fits, closeOut]
    by_cases empty : w.buf = []
    · simp [empty, frames]
    · simp [empty, List.length_pos_iff.mpr empty, flush_eq, frames]
  | case2 w p nonempty zero => exact absurd zero positive
  | case3 w p nonempty nonzero left full ih =>
    -- `buf` holds a whole chunk: it is the first piece
    have whole : w.buf.length = w.chunkSize.toNat := by omega
    have nonempty_buf : w.buf ≠ [] := List.ne_nil_of_length_pos (by omega)
    obtain ⟨w', ran, key, level, closed, out⟩ := ih (by simpa using positive) (by simp)
    refine ⟨w', ran, by simpa using key, by simpa using level, by simpa using closed, ?_⟩
    rw [out, readPieces_append _ [] w.buf p (by simpa using whole) nonempty_buf]
    simp [flush_eq, frames]
  | case4 w p nonempty nonzero left room toWrite ih =>
    have taken : (w.buf ++ p.take toWrite).length ≤ w.chunkSize.toNat := by
      simp only [List.length_append, List.length_take]
      omega
    obtain ⟨w', ran, key, level, closed, out⟩ := ih (by simpa using positive) taken
    refine ⟨w', ran, key, level, closed, ?_⟩
    rw [out]
    simp only [List.append_assoc, List.take_append_drop]

end Writer

theorem Writer.close_out (w : Writer) (open_ : w.closed = false) :
    (w.close codec).map (·.out) = .ok (w.closeOut codec) := by
  unfold Writer.close Writer.closeOut
  rw [open_, if_neg Bool.false_ne_true]
  by_cases filled : 0 < w.buf.length
  · simp [filled, Writer.flush_eq, Except.map]
  · simp [filled, Except.map]

theorem writeStream_single (key : Option (List UInt8)) (chunkSize : UInt32) (level : Int) (d : List UInt8)
    (positive : chunkSize.toNat ≠ 0) :
    writeStream codec key chunkSize level [d] =
      some (.ok ((newWriter codec key chunkSize level).out ++
        frames codec key level (newWriter codec key chunkSize level).lastSum (readPieces chunkSize.toNat [] d))) := by
  have fresh : (newWriter codec key chunkSize level).buf = [] ∧ (newWriter codec key chunkSize level).closed = false ∧
      (newWriter codec key chunkSize level).chunkSize = chunkSize ∧ (newWriter codec key chunkSize level).key = key ∧
      (newWriter codec key chunkSize level).level = level := by
    unfold newWriter
    cases key <;> simp
  obtain ⟨empty, open_, sized, keyed, leveled⟩ := fresh
  obtain ⟨w', ran, key', _, closed, out⟩ := Writer.writeLoop_spec codec (newWriter codec key chunkSize level) d
    (by rwa [sized]) (by simp [empty])
  rw [empty, List.nil_append, sized, keyed, leveled] at out
  simp only [writeStream, List.foldl_cons, List.foldl_nil, Option.bind_some, ran, Option.map_some]
  rw [Writer.close_out codec w' (by rw [closed, open_]), out]

/-! ## Reader -/

@[simp] theorem length_beBytes32 (v : UInt32) : (beBytes32 v).length = 4 := by
  simp [beBytes32]

theorem readFull_append (xs rest : List UInt8) : readFull xs.length (xs ++ rest) = .ok (xs, rest) := by
  simp [readFull]

theorem readUint32_beBytes32 (v : UInt32) (rest : List UInt8) : readUint32 (beBytes32 v ++ rest) = .ok (v, rest) := by
  unfold readUint32
  rw [← length_beBytes32 v, readFull_append]
  simp only [beBytes32, List.reverse_reverse, leValue_leBytes]
  rw [Nat.mod_eq_of_lt (by have := v.toNat_lt; omega)]
  simp

theorem copyN_append (xs rest : List UInt8) : copyN xs.length (xs ++ rest) = .ok (xs, rest) := by
  simp [copyN]

theorem newReader_newWriter (key : Option (List UInt8)) (chunkSize : UInt32) (level : Int) (rest : List UInt8) :
    newReader codec ((newWriter codec key chunkSize level).out ++ rest) key =
      .ok ⟨key, chunkSize, (newWriter codec key chunkSize level).lastSum, rest⟩ := by
  cases key with
  | none => simp [newWriter, newReader, readUint32_beBytes32]
  | some k =>
    simp only [newWriter, newReader, List.append_assoc, readUint32_beBytes32, readFull_append]
    simp

theorem readAll_nil (key : Option (List UInt8)) (chunkSize : UInt32) (lastSum : List UInt8) :
    Reader.readAll codec ⟨key, chunkSize, lastSum, []⟩ = .ok [] := by
  rw [Reader.readAll_eq]
  simp [readUint32, readFull]

/-- What flate and HMAC-SHA256 give the stream: decompression undoes
compression at the writer's level, and every sum has one length. -/
structure Codec.RoundTrips (level : Int) : Prop where
  decompress_compress : ∀ chunk, codec.decompress (codec.compress level chunk) = .ok chunk
  hmac_length : ∀ k message message', (codec.hmac k message).length = (codec.hmac k message').length

theorem frame_snd_length {level : Int} (roundTrips : codec.RoundTrips level) (k lastSum chunk : List UInt8)
    (chained : ∃ message, lastSum = codec.hmac k message) :
    (frame codec (some k) level lastSum chunk).snd.length = lastSum.length := by
  obtain ⟨message, rfl⟩ := chained
  exact roundTrips.hmac_length k _ message

theorem frame_fst_some (k : List UInt8) (level : Int) (lastSum chunk : List UInt8) :
    (frame codec (some k) level lastSum chunk).fst =
      beBytes32 (UInt32.ofNat (codec.compress level chunk).length) ++
        (codec.compress level chunk ++ (frame codec (some k) level lastSum chunk).snd) := by
  simp [frame]

theorem decode_frame (k : List UInt8) (level : Int) (lastSum chunk : List UInt8) :
    Reader.decode codec (some k) lastSum (frame codec (some k) level lastSum chunk).snd (codec.compress level chunk) =
      codec.decompress (codec.compress level chunk) := by
  simp [Reader.decode, frame]

theorem readAll_frame {level : Int} (roundTrips : codec.RoundTrips level) (key : Option (List UInt8))
    (chunkSize : UInt32) (lastSum chunk rest : List UInt8) (fits : (codec.compress level chunk).length < 2 ^ 32)
    (chained : ∀ k, key = some k → ∃ message, lastSum = codec.hmac k message)
    (unkeyed : key = none → lastSum = []) :
    Reader.readAll codec ⟨key, chunkSize, lastSum, (frame codec key level lastSum chunk).fst ++ rest⟩ =
      (Reader.readAll codec ⟨key, chunkSize, (frame codec key level lastSum chunk).snd, rest⟩).map (chunk ++ ·) := by
  have length : (UInt32.ofNat (codec.compress level chunk).length).toNat = (codec.compress level chunk).length :=
    UInt32.toNat_ofNat_of_lt' fits
  cases key with
  | none =>
    have empty := unkeyed rfl
    subst empty
    rw [Reader.readAll_eq]
    simp only [frame, List.append_assoc, readUint32_beBytes32, length, copyN_append, Reader.readSum,
      Reader.decode, roundTrips.decompress_compress]
  | some k =>
    have sum_length := frame_snd_length codec roundTrips k lastSum chunk (chained k rfl)
    rw [Reader.readAll_eq, frame_fst_some, List.append_assoc, List.append_assoc]
    simp only [readUint32_beBytes32, length, copyN_append, Reader.readSum]
    rw [← sum_length, readFull_append]
    simp only [decode_frame, roundTrips.decompress_compress]

theorem readAll_frames {level : Int} (roundTrips : codec.RoundTrips level) (key : Option (List UInt8))
    (chunkSize : UInt32) (rest : List UInt8) :
    ∀ (chunks : List (List UInt8)) (lastSum : List UInt8), (∀ chunk ∈ chunks, (codec.compress level chunk).length < 2 ^ 32) →
      (∀ k, key = some k → ∃ message, lastSum = codec.hmac k message) → (key = none → lastSum = []) →
      ∃ sum, Reader.readAll codec ⟨key, chunkSize, lastSum, frames codec key level lastSum chunks ++ rest⟩ =
        (Reader.readAll codec ⟨key, chunkSize, sum, rest⟩).map (chunks.flatten ++ ·)
  | [], lastSum, _, _, _ => by
    refine ⟨lastSum, ?_⟩
    simp only [frames, List.nil_append, List.flatten_nil]
    cases Reader.readAll codec ⟨key, chunkSize, lastSum, rest⟩ <;> rfl
  | chunk :: chunks, lastSum, fits, chained, unkeyed => by
    -- the sum after the first frame chains the same way
    have chained' : ∀ k, key = some k → ∃ message, (frame codec key level lastSum chunk).snd = codec.hmac k message := by
      rintro k rfl
      exact ⟨_, rfl⟩
    have unkeyed' : key = none → (frame codec key level lastSum chunk).snd = [] := by
      rintro rfl
      exact unkeyed rfl
    obtain ⟨sum, tail⟩ := readAll_frames roundTrips key chunkSize rest chunks (frame codec key level lastSum chunk).snd
      (fun c mem => fits c (List.mem_cons_of_mem chunk mem)) chained' unkeyed'
    refine ⟨sum, ?_⟩
    rw [frames, List.append_assoc, readAll_frame codec roundTrips key chunkSize lastSum chunk _
      (fits chunk List.mem_cons_self) chained unkeyed, tail]
    cases Reader.readAll codec ⟨key, chunkSize, sum, rest⟩ <;> simp [Except.map]

theorem newWriter_chained (key : Option (List UInt8)) (chunkSize : UInt32) (level : Int) :
    (∀ k, key = some k → ∃ message, (newWriter codec key chunkSize level).lastSum = codec.hmac k message) ∧
      (key = none → (newWriter codec key chunkSize level).lastSum = []) := by
  cases key with
  | none => exact ⟨nofun, fun _ => rfl⟩
  | some k =>
    refine ⟨?_, nofun⟩
    rintro k' ⟨⟩
    exact ⟨_, rfl⟩

theorem readAll_writeStream {level : Int} (roundTrips : codec.RoundTrips level) (key : Option (List UInt8))
    (chunkSize : UInt32) (d : List UInt8) (positive : chunkSize.toNat ≠ 0)
    (fits : ∀ chunk ∈ readPieces chunkSize.toNat [] d, (codec.compress level chunk).length < 2 ^ 32) :
    (writeStream codec key chunkSize level [d]).map (fun s => s.bind fun s =>
      (newReader codec s key).bind (Reader.readAll codec)) = some (.ok d) := by
  obtain ⟨chained, unkeyed⟩ := newWriter_chained codec key chunkSize level
  obtain ⟨sum, read⟩ := readAll_frames codec roundTrips key chunkSize [] _ _ fits chained unkeyed
  rw [List.append_nil] at read
  rw [writeStream_single codec key chunkSize level d positive]
  simp only [Option.map_some, Except.bind, newReader_newWriter, read, readAll_nil, flatten_readPieces,
    List.nil_append]
  simp [Except.map]

theorem frames_take_begins (key : Option (List UInt8)) (level : Int) :
    ∀ (chunks : List (List UInt8)) (lastSum : List UInt8) (k : Nat),
      frames codec key level lastSum (chunks.take k) <+: frames codec key level lastSum chunks
  | [], _, k => by simp [frames]
  | _ :: _, _, 0 => by simp [frames]
  | chunk :: chunks, lastSum, k + 1 => by
    rw [List.take_succ_cons, frames, frames]
    exact (List.prefix_append_right_inj _).mpr (frames_take_begins key level chunks _ k)

theorem readAll_cut {level : Int} (roundTrips : codec.RoundTrips level) (key : Option (List UInt8))
    (chunkSize : UInt32) (d : List UInt8)
    (fits : ∀ chunk ∈ readPieces chunkSize.toNat [] d, (codec.compress level chunk).length < 2 ^ 32) (k : Nat) :
    (newReader codec ((newWriter codec key chunkSize level).out ++ frames codec key level
        (newWriter codec key chunkSize level).lastSum ((readPieces chunkSize.toNat [] d).take k)) key).bind
      (Reader.readAll codec) = .ok ((readPieces chunkSize.toNat [] d).take k).flatten := by
  obtain ⟨chained, unkeyed⟩ := newWriter_chained codec key chunkSize level
  obtain ⟨sum, read⟩ := readAll_frames codec roundTrips key chunkSize []
    ((readPieces chunkSize.toNat [] d).take k) (newWriter codec key chunkSize level).lastSum
    (fun chunk mem => fits chunk (List.mem_of_mem_take mem)) chained unkeyed
  rw [List.append_nil] at read
  simp only [Except.bind, newReader_newWriter, read, readAll_nil]
  simp [Except.map]

/-- A stream with a key cut right after its header: `NewReader` accepts it,
and the reads end with a clean `io.EOF` and no bytes, whatever the data. -/
theorem stream_cut_after_header_reads_clean (key : List UInt8) (chunkSize : UInt32) (level : Int) (d : List UInt8)
    (positive : chunkSize.toNat ≠ 0) (nonempty : d ≠ []) :
    ∃ s, writeStream codec (some key) chunkSize level [d] = some (.ok s) ∧
      (beBytes32 chunkSize ++ codec.hmac key (beBytes32 chunkSize)) <+: s ∧
      beBytes32 chunkSize ++ codec.hmac key (beBytes32 chunkSize) ≠ s ∧
      (newReader codec (beBytes32 chunkSize ++ codec.hmac key (beBytes32 chunkSize)) (some key)).bind
        (Reader.readAll codec) = .ok [] := by
  have header : (newWriter codec (some key) chunkSize level).out = beBytes32 chunkSize ++ codec.hmac key (beBytes32 chunkSize) :=
    rfl
  have pieces : readPieces chunkSize.toNat [] d ≠ [] := by
    intro none_read
    have whole := flatten_readPieces chunkSize.toNat [] d
    rw [none_read] at whole
    exact nonempty (by simpa using whole.symm)
  obtain ⟨chunk, chunks, split⟩ := List.exists_cons_of_ne_nil pieces
  have framed : frames codec (some key) level (newWriter codec (some key) chunkSize level).lastSum
      (readPieces chunkSize.toNat [] d) ≠ [] := by
    rw [split, frames, frame_fst_some]
    intro empty
    have lengths := congrArg List.length empty
    simp only [List.length_append, length_beBytes32, List.length_nil] at lengths
    omega
  refine ⟨_, writeStream_single codec (some key) chunkSize level d positive, ?_, ?_, ?_⟩
  · rw [header]
    exact List.prefix_append _ _
  · rw [header]
    intro same
    have lengths := congrArg List.length same
    simp only [List.length_append] at lengths
    exact framed (List.eq_nil_of_length_eq_zero (by omega))
  · have read := newReader_newWriter codec (some key) chunkSize level []
    rw [List.append_nil, header] at read
    rw [read]
    exact readAll_nil codec _ _ _

/-- A codec that stores chunks as they are and sums by concatenation. -/
def storedCodec : Codec := ⟨fun key message => key ++ message, fun _ chunk => chunk, .ok⟩

theorem stream_cut_after_header_reads_clean_byte :
    (1 : UInt32).toNat ≠ 0 ∧ [7] ≠ ([] : List UInt8) ∧
      ∃ s, writeStream storedCodec (some [1]) 1 0 [[7]] = some (.ok s) ∧
        (beBytes32 1 ++ storedCodec.hmac [1] (beBytes32 1)) <+: s ∧
        beBytes32 1 ++ storedCodec.hmac [1] (beBytes32 1) ≠ s ∧
        (newReader storedCodec (beBytes32 1 ++ storedCodec.hmac [1] (beBytes32 1)) (some [1])).bind
          (Reader.readAll storedCodec) = .ok [] :=
  ⟨by decide, by decide, stream_cut_after_header_reads_clean storedCodec [1] 1 0 [7] (by decide) (by decide)⟩

end Cijitter.Compressio
