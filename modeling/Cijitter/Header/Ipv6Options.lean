import Cijitter.Lib.GoIo

/-! `IPv6OptionsExtHdrOptionsIterator` (`pkg/tcpip/header/ipv6_extension_headers.go`):
the options of a Hop-by-Hop or Destination Options header, read off a
`bytes.Reader` over the header's data, which is its unread bytes here. Pad1
and PadN options are skipped; any other option is returned with its data.

Against the option grammar of RFC 8200 section 4.2: any byte string is a run
of complete options, possibly followed by one option cut short. Called until
it is done, the iterator returns the non-padding options of the run, in
order, and stops with an `io.ErrUnexpectedEOF` exactly when the last option
was cut short. -/

set_option autoImplicit false

namespace Cijitter.Header

open GoIo

/-- `ipv6Pad1ExtHdrOptionIdentifier`. -/
def ipv6Pad1ExtHdrOptionIdentifier : UInt8 := 0

/-- `ipv6PadNExtHdrOptionIdentifier`. -/
def ipv6PadNExtHdrOptionIdentifier : UInt8 := 1

structure IPv6UnknownExtHdrOption where
  identifier : UInt8
  data : List UInt8
  deriving DecidableEq, Repr

/-- The errors of `Next`, with what their messages report and the error they
wrap. -/
inductive OptionsIterError where
  /-- `error when reading the option's Length field for option with id = %d: %w`. -/
  | lengthField (id : UInt8) (err : IoError)
  /-- `read %d out of %d option data bytes for option with id = %d: %w`. -/
  | optionData (read length : Nat) (id : UInt8) (err : IoError)
  deriving DecidableEq, Repr

/-- The error an error of `Next` wraps, which `errors.Is` finds. -/
def OptionsIterError.unwrap : OptionsIterError → IoError
  | .lengthField _ err => err
  | .optionData _ _ _ err => err

namespace IPv6OptionsExtHdrOptionsIterator

/-- `Next` on a reader whose unread bytes are `reader`: the option, whether
the iterator is done and the error, and the unread bytes after. -/
def next (reader : List UInt8) :
    (Option IPv6UnknownExtHdrOption × Bool × Option OptionsIterError) × List UInt8 :=
  match reader with
  -- The options buffer is exhausted: done iterating.
  | [] => ((none, true, none), [])
  | id :: reader =>
    if id = ipv6Pad1ExtHdrOptionIdentifier then next reader
    else
      match reader with
      | [] => ((none, true, some (.lengthField id .unexpectedEOF)), [])
      | length :: reader =>
        if id = ipv6PadNExtHdrOptionIdentifier then
          -- `Reset(nil)` consumes what is left of the buffer.
          if reader.length < length.toNat then
            ((none, true, some (.optionData reader.length length.toNat id .unexpectedEOF)), [])
          else next (reader.drop length.toNat)
        else
          match readFull reader length.toNat with
          | (bytes, some err, reader) =>
            ((none, true, some (.optionData bytes.length length.toNat id
              (if err = .eof then .unexpectedEOF else err))), reader)
          | (bytes, none, reader) => ((some ⟨id, bytes⟩, false, none), reader)
termination_by reader.length
decreasing_by
  all_goals simp only [List.length_cons, List.length_drop]
  all_goals omega

theorem next_shortens {reader rest : List UInt8} {option : Option IPv6UnknownExtHdrOption}
    {err : Option OptionsIterError} (notDone : next reader = ((option, false, err), rest)) :
    rest.length < reader.length := by
  fun_induction next reader with
  | case1 | case3 | case4 | case6 => simp at notDone
  | case2 reader ih => exact Nat.lt_succ_of_lt (ih notDone)
  | case5 length reader long _ ih =>
      have := ih notDone
      simp only [List.length_drop, List.length_cons] at this ⊢
      omega
  | case7 id _ length reader _ bytes reader' read =>
      simp only [Prod.mk.injEq] at notDone
      obtain ⟨-, rfl⟩ := notDone
      simp only [readFull, Prod.mk.injEq] at read
      rw [← read.2.2, List.length_drop, List.length_cons, List.length_cons]
      omega

/-- `Next` called until it is done: the options it returned, in order, and
the error it stopped with. -/
def options (reader : List UInt8) : List IPv6UnknownExtHdrOption × Option OptionsIterError :=
  match found : next reader with
  | ((some option, false, _), rest) =>
    have := next_shortens found
    let (rest, err) := options rest
    (option :: rest, err)
  | ((_, _, err), _) => ([], err)
termination_by reader.length

theorem options_unfold (reader : List UInt8) :
    options reader =
      match next reader with
      | ((some option, false, _), rest) => (option :: (options rest).1, (options rest).2)
      | ((_, _, err), _) => ([], err) := by
  rw [options]
  split
  · rename_i option err rest found
    conv_rhs => rw [found]
  · rename_i option done err rest notFound found
    conv_rhs => rw [found]
    rcases option with _ | option
    · rfl
    · cases done
      · exact absurd rfl (notFound option rfl)
      · rfl

theorem options_congr {reader reader' : List UInt8} (same : next reader = next reader') :
    options reader = options reader' := by
  rw [options_unfold reader, options_unfold reader', same]

theorem options_of_found {reader rest : List UInt8} {option : IPv6UnknownExtHdrOption}
    {err : Option OptionsIterError} (found : next reader = ((some option, false, err), rest)) :
    options reader = (option :: (options rest).1, (options rest).2) := by
  rw [options_unfold, found]

theorem options_of_done {reader rest : List UInt8} {option : Option IPv6UnknownExtHdrOption}
    {err : Option OptionsIterError} (done : next reader = ((option, true, err), rest)) :
    options reader = ([], err) := by
  rw [options_unfold, done]
  rcases option with _ | option <;> rfl

@[simp] theorem options_nil : options [] = ([], none) :=
  options_of_done (by rw [next])

theorem next_pad1 (rest : List UInt8) : next (ipv6Pad1ExtHdrOptionIdentifier :: rest) = next rest := by
  rw [next.eq_def]
  dsimp only
  rw [if_pos rfl]

theorem next_padN {data : List UInt8} (fits : data.length < 256) (rest : List UInt8) :
    next (ipv6PadNExtHdrOptionIdentifier :: UInt8.ofNat data.length :: (data ++ rest)) = next rest := by
  have length : (UInt8.ofNat data.length).toNat = data.length := UInt8.toNat_ofNat_of_lt fits
  rw [next, if_neg (by decide), if_pos rfl, length, if_neg (by simp), List.drop_left]

theorem next_other {id : UInt8} (notPad1 : id ≠ ipv6Pad1ExtHdrOptionIdentifier)
    (notPadN : id ≠ ipv6PadNExtHdrOptionIdentifier) {data : List UInt8} (fits : data.length < 256) (rest : List UInt8) :
    next (id :: UInt8.ofNat data.length :: (data ++ rest)) = ((some ⟨id, data⟩, false, none), rest) := by
  have length : (UInt8.ofNat data.length).toNat = data.length := UInt8.toNat_ofNat_of_lt fits
  rw [next, if_neg notPad1, if_neg notPadN, length, readFull_append]

/-! ### The option grammar -/

/-- An option as RFC 8200 section 4.2 lays it out, with no more data than a
Length byte counts. -/
inductive ExtHdrOption where
  | pad1
  | padN (data : List UInt8) (fits : data.length < 256)
  | other (identifier : UInt8) (notPadding : 1 < identifier) (data : List UInt8) (fits : data.length < 256)

namespace ExtHdrOption

/-- The option's bytes: its identifier, then for all but Pad1 its Length byte and its data. -/
def encode : ExtHdrOption → List UInt8
  | pad1 => [ipv6Pad1ExtHdrOptionIdentifier]
  | padN data _ => ipv6PadNExtHdrOptionIdentifier :: UInt8.ofNat data.length :: data
  | other identifier _ data _ => identifier :: UInt8.ofNat data.length :: data

/-- What the iterator returns for the option: nothing for padding. -/
def unknown : ExtHdrOption → Option IPv6UnknownExtHdrOption
  | other identifier _ data _ => some ⟨identifier, data⟩
  | _ => none

end ExtHdrOption

/-- The options one after the other. -/
def encodeAll (opts : List ExtHdrOption) : List UInt8 :=
  opts.flatMap ExtHdrOption.encode

@[simp] theorem encodeAll_nil : encodeAll [] = [] := rfl

@[simp] theorem encodeAll_cons (o : ExtHdrOption) (opts : List ExtHdrOption) :
    encodeAll (o :: opts) = o.encode ++ encodeAll opts := rfl

/-- The last bytes of a run when its last option is cut short: an identifier
with no Length byte after it, or a Length byte with fewer data bytes after it
than it counts. -/
inductive Truncated : List UInt8 → Prop where
  | lengthMissing (id : UInt8) (notPad1 : id ≠ ipv6Pad1ExtHdrOptionIdentifier) : Truncated [id]
  | dataShort (id length : UInt8) (data : List UInt8) (notPad1 : id ≠ ipv6Pad1ExtHdrOptionIdentifier)
      (short : data.length < length.toNat) : Truncated (id :: length :: data)

theorem ne_of_one_lt {identifier : UInt8} (notPadding : 1 < identifier) :
    identifier ≠ ipv6Pad1ExtHdrOptionIdentifier ∧ identifier ≠ ipv6PadNExtHdrOptionIdentifier := by
  rw [UInt8.lt_iff_toNat_lt] at notPadding
  constructor <;> intro same <;> subst same <;> simp [ipv6Pad1ExtHdrOptionIdentifier, ipv6PadNExtHdrOptionIdentifier] at notPadding

theorem next_encode (o : ExtHdrOption) (rest : List UInt8) :
    next (o.encode ++ rest) =
      match o.unknown with
      | some option => ((some option, false, none), rest)
      | none => next rest := by
  cases o with
  | pad1 => exact next_pad1 rest
  | padN data fits => exact next_padN fits rest
  | other identifier notPadding data fits =>
      exact next_other (ne_of_one_lt notPadding).1 (ne_of_one_lt notPadding).2 fits rest

theorem options_encode_append (o : ExtHdrOption) (rest : List UInt8) :
    options (o.encode ++ rest) = (o.unknown.toList ++ (options rest).1, (options rest).2) := by
  have step := next_encode o rest
  cases unknown : o.unknown with
  | some option =>
      rw [unknown] at step
      exact options_of_found step
  | none =>
      rw [unknown] at step
      rw [options_congr step]
      rfl

theorem options_encodeAll_append (opts : List ExtHdrOption) (rest : List UInt8) :
    options (encodeAll opts ++ rest) =
      (opts.filterMap ExtHdrOption.unknown ++ (options rest).1, (options rest).2) := by
  induction opts with
  | nil => rfl
  | cons o opts ih =>
      rw [encodeAll_cons, List.append_assoc, options_encode_append, ih, List.filterMap_cons]
      rcases o.unknown with _ | option <;> simp

theorem next_truncated {cut : List UInt8} (truncated : Truncated cut) :
    ∃ err, next cut = ((none, true, some err), []) ∧ err.unwrap = .unexpectedEOF := by
  cases truncated with
  | lengthMissing id notPad1 =>
      refine ⟨.lengthField id .unexpectedEOF, ?_, rfl⟩
      rw [next.eq_def]
      dsimp only
      rw [if_neg notPad1]
  | dataShort id length data notPad1 short =>
      by_cases padN : id = ipv6PadNExtHdrOptionIdentifier
      · refine ⟨.optionData data.length length.toNat id .unexpectedEOF, ?_, rfl⟩
        rw [next, if_neg notPad1, if_pos padN, if_pos short]
      · obtain ⟨err, read⟩ := readFull_of_lt short
        refine ⟨.optionData data.length length.toNat id (if err = .eof then .unexpectedEOF else err), ?_, ?_⟩
        · rw [next, if_neg notPad1, if_neg padN, read]
        · cases err <;> rfl

theorem options_encodeAll_truncated (opts : List ExtHdrOption) {cut : List UInt8} (truncated : Truncated cut) :
    ∃ err, options (encodeAll opts ++ cut) = (opts.filterMap ExtHdrOption.unknown, some err) ∧
      err.unwrap = .unexpectedEOF := by
  obtain ⟨err, stops, wrapped⟩ := next_truncated truncated
  refine ⟨err, ?_, wrapped⟩
  rw [options_encodeAll_append, options_of_done stops, List.append_nil]

theorem options_encodeAll (opts : List ExtHdrOption) :
    options (encodeAll opts) = (opts.filterMap ExtHdrOption.unknown, none) := by
  rw [← List.append_nil (encodeAll opts), options_encodeAll_append, options_nil, List.append_nil]

/-- The bytes are a run of complete options, possibly followed by one cut short. -/
def Decomposes (bytes : List UInt8) : Prop :=
  (∃ opts, bytes = encodeAll opts) ∨ ∃ opts cut, Truncated cut ∧ bytes = encodeAll opts ++ cut

theorem Decomposes.encode_append (o : ExtHdrOption) {rest : List UInt8} (decomposes : Decomposes rest) :
    Decomposes (o.encode ++ rest) := by
  rcases decomposes with ⟨opts, rfl⟩ | ⟨opts, cut, truncated, rfl⟩
  · exact .inl ⟨o :: opts, rfl⟩
  · exact .inr ⟨o :: opts, cut, truncated, by rw [encodeAll_cons, List.append_assoc]⟩

theorem encode_of_length {id length : UInt8} (notPad1 : id ≠ ipv6Pad1ExtHdrOptionIdentifier) {rest : List UInt8}
    (long : length.toNat ≤ rest.length) :
    ∃ o : ExtHdrOption, id :: length :: rest = o.encode ++ rest.drop length.toNat := by
  have fits : (rest.take length.toNat).length < 256 := by
    rw [List.length_take]
    exact Nat.lt_of_le_of_lt (Nat.min_le_left _ _) length.toNat_lt
  have counted : UInt8.ofNat (rest.take length.toNat).length = length := by
    rw [List.length_take, Nat.min_eq_left long, UInt8.ofNat_toNat]
  by_cases padN : id = ipv6PadNExtHdrOptionIdentifier
  · refine ⟨.padN (rest.take length.toNat) fits, ?_⟩
    rw [ExtHdrOption.encode, counted, padN, List.cons_append, List.cons_append, List.take_append_drop]
  · have notPadding : 1 < id := by
      rw [UInt8.lt_iff_toNat_lt]
      have zero : id.toNat ≠ 0 := fun same => notPad1 (UInt8.toNat_inj.mp same)
      have one : id.toNat ≠ 1 := fun same => padN (UInt8.toNat_inj.mp same)
      simp only [UInt8.reduceToNat]
      omega
    refine ⟨.other id notPadding (rest.take length.toNat) fits, ?_⟩
    rw [ExtHdrOption.encode, counted, List.cons_append, List.cons_append, List.take_append_drop]

theorem decomposes : ∀ bytes : List UInt8, Decomposes bytes
  | [] => .inl ⟨[], rfl⟩
  | id :: rest =>
    if pad1 : id = ipv6Pad1ExtHdrOptionIdentifier then by
      subst pad1
      exact (decomposes rest).encode_append .pad1
    else
      match rest with
      | [] => .inr ⟨[], [id], .lengthMissing id pad1, rfl⟩
      | length :: rest =>
        if short : rest.length < length.toNat then
          .inr ⟨[], id :: length :: rest, .dataShort id length rest pad1 short, rfl⟩
        else by
          obtain ⟨o, split⟩ := encode_of_length pad1 (Nat.le_of_not_lt short)
          rw [split]
          exact (decomposes (rest.drop length.toNat)).encode_append o
termination_by bytes => bytes.length
decreasing_by
  all_goals simp only [List.length_cons, List.length_drop]
  all_goals omega

/-- The iterator reads exactly the option grammar: over a run of complete
options it returns those that are not padding, in order, and stops without
an error; after a last option cut short it stops with an error that wraps
`io.ErrUnexpectedEOF`; and these are the only two ways it stops, the first
exactly for runs of complete options. -/
theorem options_follow_option_grammar :
    (∀ opts : List ExtHdrOption, options (encodeAll opts) = (opts.filterMap ExtHdrOption.unknown, none)) ∧
    (∀ (opts : List ExtHdrOption) (cut : List UInt8), Truncated cut →
      ∃ err, options (encodeAll opts ++ cut) = (opts.filterMap ExtHdrOption.unknown, some err) ∧
        err.unwrap = .unexpectedEOF) ∧
    (∀ bytes : List UInt8, (options bytes).2 = none ↔ ∃ opts, bytes = encodeAll opts) ∧
    (∀ bytes : List UInt8, (∃ err, (options bytes).2 = some err) ↔
      ∃ opts cut, Truncated cut ∧ bytes = encodeAll opts ++ cut) := by
  refine ⟨options_encodeAll, fun opts _ truncated => options_encodeAll_truncated opts truncated,
    fun bytes => ⟨fun complete => ?_, ?_⟩, fun bytes => ⟨fun ⟨err, stopped⟩ => ?_, ?_⟩⟩
  · rcases decomposes bytes with run | ⟨opts, cut, truncated, rfl⟩
    · exact run
    · obtain ⟨err, result, -⟩ := options_encodeAll_truncated opts truncated
      rw [result] at complete
      nomatch complete
  · rintro ⟨opts, rfl⟩
    rw [options_encodeAll]
  · rcases decomposes bytes with ⟨opts, rfl⟩ | cutShort
    · rw [options_encodeAll] at stopped
      nomatch stopped
    · exact cutShort
  · rintro ⟨opts, cut, truncated, rfl⟩
    obtain ⟨err, result, -⟩ := options_encodeAll_truncated opts truncated
    exact ⟨err, by rw [result]⟩

end IPv6OptionsExtHdrOptionsIterator

end Cijitter.Header
