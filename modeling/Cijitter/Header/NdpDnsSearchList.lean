import Mathlib

/-! `NDPDNSSearchList.DomainNames` (`pkg/tcpip/header/ndp_options.go`): the
domain names of an NDP DNS Search List option (RFC 8106 section 5.2), read
off a `bytes.Reader` over the option body after its Lifetime, as RFC 1035
section 3.1 encodes them: labels each after a length byte, a name ended by a
zero byte, and zero bytes as padding between names. Each byte of a label is
checked as RFC 1035 section 2.3.1 asks and lower-cased, and each label is
written with a period after it to a buffer over a scratch array of
`maxDomainNameLength` bytes, which a name may not outgrow. Text is bytes. -/

set_option autoImplicit false

namespace Cijitter.Header

/-- The sentinel errors that the errors of NDP options wrap. -/
inductive NDPOptErr where
  /-- `io.ErrUnexpectedEOF`. -/
  | unexpectedEOF
  /-- `ErrNDPOptMalformedBody`. -/
  | malformedBody
  /-- `ErrNDPOptMalformedHeader`. -/
  | malformedHeader
  deriving DecidableEq, Repr

def ndpDNSSearchListDomainNamesOffset : Nat := 6

def minNDPDNSSearchListBodySize : Nat := 14

def maxDomainNameLabelLength : Nat := 63

def maxDomainNameLength : Nat := 255

-- 'A' to 'Z'
def isUpperLetter (b : UInt8) : Bool := b ≥ 65 && b ≤ 90

-- 'a' to 'z', or an upper-case letter
def isLetter (b : UInt8) : Bool := (b ≥ 97 && b ≤ 122) || isUpperLetter b

-- '0' to '9'
def isDigit (b : UInt8) : Bool := b ≥ 48 && b ≤ 57

/-- The errors of `iterDomainNames`, with what their messages report. -/
inductive SearchListError where
  /-- `got %d bytes for NDP DNS Search List  option's body, expected at least %d bytes: %w`. -/
  | bodyTooShort (length : Nat)
  /-- `unexpected exhausted buffer while parsing a new label for a domain from NDP Search List option: %w`. -/
  | labelLengthMissing
  /-- `label length of %d bytes is greater than the max label length of %d bytes for an NDP Search List option: %w`. -/
  | labelTooLong (labelLen : Nat)
  /-- `label would make an NDP Search List option's domain name longer than the max domain name length of %d bytes: %w`. -/
  | nameTooLong
  /-- `read %d out of %d bytes for a domain name's label from NDP Search List option: %w`. -/
  | labelTruncated (read labelLen : Nat)
  /-- `first character of a domain name's label in an NDP Search List option must be a letter, got character code = %d: %w`. -/
  | firstNotLetter (b : UInt8)
  /-- `last character of a domain name's label in an NDP Search List option must not be a hyphen (-): %w`. -/
  | lastHyphen
  /-- `domain name's label in an NDP Search List option may only contain letters, digits and hyphens, got character code = %d: %w`. -/
  | notLetterDigitHyphen (b : UInt8)
  deriving DecidableEq, Repr

/-- The sentinel error each error wraps. -/
def SearchListError.unwrap : SearchListError → NDPOptErr
  | .bodyTooShort _ | .labelLengthMissing | .labelTruncated _ _ => .unexpectedEOF
  | .labelTooLong _ | .nameTooLong | .firstNotLetter _ | .lastHyphen | .notLetterDigitHyphen _ => .malformedBody

namespace NDPDNSSearchList

/-- The checks of byte `i` of a label of `labelLen` bytes: RFC 1035 section
2.3.1 wants a letter first, letters, digits and hyphens, and no hyphen last. -/
def labelByteError (labelLen i : Nat) (b : UInt8) : Option SearchListError :=
  if !isLetter b then
    if i = 0 then some (.firstNotLetter b)
    -- '-'
    else if b = 45 then
      if i = labelLen - 1 then some .lastHyphen else none
    else if !isDigit b then some (.notLetterDigitHyphen b)
    else none
  else none

/-- An upper-case letter made lower case. -/
def toLower (b : UInt8) : UInt8 := if isUpperLetter b then b - 65 + 97 else b

/-- The copy loop of a label of `labelLen` bytes, from its byte `i` on: each
byte is checked, lower-cased and written after `domainName`. -/
def readLabel (labelLen : Nat) : Nat → List UInt8 → List UInt8 → Except SearchListError (List UInt8 × List UInt8)
  | i, [], _ => .error (.labelTruncated i labelLen)
  | i, b :: searchList, domainName =>
    match labelByteError labelLen i b with
    | some err => .error err
    | none =>
      if i + 1 < labelLen then readLabel labelLen (i + 1) searchList (domainName ++ [toLower b])
      else .ok (domainName ++ [toLower b], searchList)

theorem readLabel_shortens {labelLen : Nat} :
    ∀ {i : Nat} {searchList domainName domainName' rest : List UInt8},
      readLabel labelLen i searchList domainName = .ok (domainName', rest) → rest.length < searchList.length
  | _, [], _, _, _, read => by simp [readLabel] at read
  | i, b :: searchList, domainName, domainName', rest, read => by
      simp only [readLabel] at read
      split at read
      · nomatch read
      · split at read
        · exact Nat.lt_succ_of_lt (readLabel_shortens read)
        · simp only [Except.ok.injEq, Prod.mk.injEq] at read
          rw [← read.2]
          exact Nat.lt_succ_self _

/-- The loop over the labels of one domain name, each written with a period
after it after `domainName`, up to the zero-length label that ends the name. -/
def readName (searchList domainName : List UInt8) : Except SearchListError (List UInt8 × List UInt8) :=
  match searchList with
  | [] => .error .labelLengthMissing
  | labelLenByte :: searchList =>
    let labelLen := labelLenByte.toNat
    if labelLen = 0 then .ok (domainName, searchList)
    else if labelLen > maxDomainNameLabelLength then .error (.labelTooLong labelLen)
    -- The label and its period must fit in what is left of the scratch buffer.
    else if labelLen + 1 > maxDomainNameLength - domainName.length then .error .nameTooLong
    else
      match read : readLabel labelLen 0 searchList domainName with
      | .ok (domainName, rest) =>
        have := readLabel_shortens read
        readName rest (domainName ++ [46])
      | .error err => .error err
termination_by searchList.length

theorem readName_shortens {searchList domainName domainName' rest : List UInt8}
    (read : readName searchList domainName = .ok (domainName', rest)) : rest.length < searchList.length := by
  fun_induction readName searchList domainName with
  | case1 => simp at read
  | case2 => simp only [Except.ok.injEq, Prod.mk.injEq] at read; rw [← read.2]; exact Nat.lt_succ_self _
  | case3 | case4 | case6 => simp at read
  | case5 =>
      rename_i _ _ _ _ _ _ _ _ _ found _ ih
      exact Nat.lt_succ_of_lt (Nat.lt_trans (ih read) (readLabel_shortens found))

/-- The loop over the names of the search list: the function is called with
each name that is not empty, without its last period, in order. -/
def iterNames (searchList : List UInt8) : List (List UInt8) × Option SearchListError :=
  match searchList with
  | [] => ([], none)
  | b :: rest =>
    match read : readName (b :: rest) [] with
    | .error err => ([], some err)
    | .ok (domainName, left) =>
      have := readName_shortens read
      let (names, err) := iterNames left
      (if domainName.length = 0 then names else domainName.dropLast :: names, err)
termination_by searchList.length
decreasing_by exact this

theorem readName_cons (labelLenByte : UInt8) (searchList domainName : List UInt8) :
    readName (labelLenByte :: searchList) domainName =
      if labelLenByte.toNat = 0 then .ok (domainName, searchList)
      else if labelLenByte.toNat > maxDomainNameLabelLength then .error (.labelTooLong labelLenByte.toNat)
      else if labelLenByte.toNat + 1 > maxDomainNameLength - domainName.length then .error .nameTooLong
      else
        match readLabel labelLenByte.toNat 0 searchList domainName with
        | .ok (domainName, rest) => readName rest (domainName ++ [46])
        | .error err => .error err := by
  rw [readName]
  split_ifs
  all_goals try rfl
  split
  · rename_i read
    conv_rhs => rw [read]
  · rename_i read
    conv_rhs => rw [read]

theorem iterNames_cons (b : UInt8) (rest : List UInt8) :
    iterNames (b :: rest) =
      match readName (b :: rest) [] with
      | .error err => ([], some err)
      | .ok (domainName, left) =>
        ((if domainName.length = 0 then (iterNames left).1 else domainName.dropLast :: (iterNames left).1),
          (iterNames left).2) := by
  rw [iterNames]
  split
  · rename_i read
    conv_rhs => rw [read]
  · rename_i read
    conv_rhs => rw [read]

/-! ### One label -/

theorem labelByteError_eq_none {labelLen i : Nat} {b : UInt8} :
    labelByteError labelLen i b = none ↔
      isLetter b = true ∨ (i ≠ 0 ∧ ((b = 45 ∧ i ≠ labelLen - 1) ∨ isDigit b = true)) := by
  unfold labelByteError
  by_cases letter : isLetter b = true
  · simp [letter]
  · by_cases first : i = 0
    · simp [letter, first]
    · by_cases hyphen : b = 45
      · subst hyphen
        by_cases last : i = labelLen - 1
        · rw [if_neg first, if_pos rfl, if_pos last]
          simp [letter, last, isDigit]
        · rw [if_neg first, if_pos rfl, if_neg last]
          simp [letter, first, last]
      · by_cases digit : isDigit b = true <;> simp [letter, first, hyphen, digit]

theorem readLabel_of_valid {labelLen : Nat} :
    ∀ (bytes : List UInt8) (i : Nat) (domainName rest : List UInt8), bytes ≠ [] → i + bytes.length = labelLen →
      (∀ j (h : j < bytes.length), labelByteError labelLen (i + j) bytes[j] = none) →
      readLabel labelLen i (bytes ++ rest) domainName = .ok (domainName ++ bytes.map toLower, rest)
  | [b], i, domainName, rest, _, sized, valid => by
      have checked := valid 0 (by simp)
      simp only [List.length_singleton] at sized
      simp only [Nat.add_zero, List.getElem_cons_zero] at checked
      simp only [List.cons_append, List.nil_append, readLabel, checked, List.map_cons, List.map_nil]
      rw [if_neg (by omega)]
  | b :: c :: bytes, i, domainName, rest, _, sized, valid => by
      have checked := valid 0 (by simp)
      simp only [Nat.add_zero, List.getElem_cons_zero] at checked
      simp only [List.length_cons] at sized
      have later := @readLabel_of_valid labelLen (c :: bytes) (i + 1) (domainName ++ [toLower b]) rest
        (List.cons_ne_nil _ _)
        (by simp only [List.length_cons]; omega)
        (fun j h => by
          have checkedLater := valid (j + 1) (by simp only [List.length_cons] at h ⊢; omega)
          rw [List.getElem_cons_succ] at checkedLater
          rw [show i + 1 + j = i + (j + 1) by omega]
          exact checkedLater)
      rw [List.cons_append, readLabel, checked]
      dsimp only
      rw [if_pos (by omega), later]
      simp only [List.map_cons, List.append_assoc, List.singleton_append]

theorem readLabel_ok {labelLen : Nat} :
    ∀ {i : Nat} {searchList domainName domainName' rest : List UInt8}, i < labelLen →
      readLabel labelLen i searchList domainName = .ok (domainName', rest) →
      ∃ bytes, searchList = bytes ++ rest ∧ i + bytes.length = labelLen ∧ domainName' = domainName ++ bytes.map toLower ∧
        ∀ j (h : j < bytes.length), labelByteError labelLen (i + j) bytes[j] = none
  | _, [], _, _, _, _, read => by simp [readLabel] at read
  | i, b :: searchList, domainName, domainName', rest, inside, read => by
      simp only [readLabel] at read
      split at read
      · nomatch read
      · rename_i checked
        split at read
        · obtain ⟨bytes, split, sized, written, valid⟩ := readLabel_ok (by omega) read
          refine ⟨b :: bytes, by rw [split, List.cons_append], by simp only [List.length_cons]; omega,
            by rw [written, List.map_cons, List.append_assoc, List.singleton_append], fun j h => ?_⟩
          cases j with
          | zero => simpa using checked
          | succ j => simpa [Nat.add_assoc, Nat.add_comm 1 j] using valid j (by simp at h; omega)
        · simp only [Except.ok.injEq, Prod.mk.injEq] at read
          obtain ⟨rfl, rfl⟩ := read
          refine ⟨[b], rfl, by simp only [List.length_singleton]; omega, rfl, fun j h => ?_⟩
          simp only [List.length_singleton, Nat.lt_one_iff] at h
          subst h
          simpa using checked

/-! ### The names of RFC 1035 -/

/-- A label as RFC 1035 section 2.3.1 allows it: one to 63 bytes, a letter
first, only letters, digits and hyphens, and no hyphen last. -/
structure Label where
  bytes : List UInt8
  nonempty : bytes ≠ []
  short : bytes.length ≤ maxDomainNameLabelLength
  startsWithLetter : ∀ b ∈ bytes.head?, isLetter b = true
  lettersDigitsHyphens : ∀ b ∈ bytes, isLetter b = true ∨ isDigit b = true ∨ b = 45
  notEndingInHyphen : ∀ b ∈ bytes.getLast?, b ≠ 45

theorem Label.checked (l : Label) (j : Nat) (h : j < l.bytes.length) :
    labelByteError l.bytes.length (0 + j) l.bytes[j] = none := by
  rw [labelByteError_eq_none, Nat.zero_add]
  by_cases letter : isLetter l.bytes[j] = true
  · exact .inl letter
  · -- a byte that is not a letter is not the first, and a hyphen is not the last
    have notFirst : j ≠ 0 := by
      rintro rfl
      exact letter (l.startsWithLetter _ (by rw [List.head?_eq_getElem?, List.getElem?_eq_getElem h]; rfl))
    refine .inr ⟨notFirst, ?_⟩
    rcases l.lettersDigitsHyphens _ (List.getElem_mem h) with letter' | digit | hyphen
    · exact absurd letter' letter
    · exact .inr digit
    · refine .inl ⟨hyphen, fun last => ?_⟩
      subst last
      refine l.notEndingInHyphen _ ?_ hyphen
      rw [List.getLast?_eq_getElem?, List.getElem?_eq_getElem h]
      rfl

/-- Bytes that pass the checks of the label loop make a label. -/
def Label.ofChecked (bytes : List UInt8) (nonempty : bytes ≠ []) (short : bytes.length ≤ maxDomainNameLabelLength)
    (checked : ∀ j (h : j < bytes.length), labelByteError bytes.length (0 + j) bytes[j] = none) : Label where
  bytes := bytes
  nonempty := nonempty
  short := short
  startsWithLetter b first := by
    have positive : 0 < bytes.length := List.length_pos_iff.mpr nonempty
    rw [List.head?_eq_getElem?, List.getElem?_eq_getElem positive, Option.mem_some_iff] at first
    have passes := labelByteError_eq_none.mp (checked 0 positive)
    rw [first] at passes
    simpa using passes
  lettersDigitsHyphens b member := by
    obtain ⟨j, h, rfl⟩ := List.getElem_of_mem member
    rcases labelByteError_eq_none.mp (checked j h) with letter | ⟨-, ⟨hyphen, -⟩ | digit⟩
    · exact .inl letter
    · exact .inr (.inr hyphen)
    · exact .inr (.inl digit)
  notEndingInHyphen b last hyphen := by
    have inside : bytes.length - 1 < bytes.length := by
      have := List.length_pos_iff.mpr nonempty
      omega
    rw [List.getLast?_eq_getElem?, List.getElem?_eq_getElem inside, Option.mem_some_iff] at last
    have passes := labelByteError_eq_none.mp (checked _ inside)
    rw [last, hyphen] at passes
    simp [isLetter, isUpperLetter, isDigit] at passes

/-- Labels after their length bytes. -/
def encodeLabels (labels : List Label) : List UInt8 :=
  labels.flatMap fun l => UInt8.ofNat l.bytes.length :: l.bytes

@[simp] theorem length_encodeLabels (labels : List Label) :
    (encodeLabels labels).length = (labels.map fun l => l.bytes.length + 1).sum := by
  induction labels with
  | nil => rfl
  | cons l labels ih =>
    simp only [encodeLabels, List.flatMap_cons, List.length_append, List.length_cons, List.map_cons,
      List.sum_cons] at *
    omega

/-- What the label loop writes for the labels: each lower-cased, with a
period after it. -/
def writtenLabels (labels : List Label) : List UInt8 :=
  labels.flatMap fun l => l.bytes.map toLower ++ [46]

@[simp] theorem length_writtenLabels (labels : List Label) :
    (writtenLabels labels).length = (labels.map fun l => l.bytes.length + 1).sum := by
  induction labels with
  | nil => rfl
  | cons l labels ih =>
    simp only [writtenLabels, List.flatMap_cons, List.length_append, List.length_map, List.length_singleton,
      List.map_cons, List.sum_cons] at *
    omega

@[simp] theorem toNat_lengthByte (l : Label) : (UInt8.ofNat l.bytes.length).toNat = l.bytes.length :=
  UInt8.toNat_ofNat_of_lt' (Nat.lt_of_le_of_lt l.short (by decide))

theorem writtenLabels_eq_intercalate :
    ∀ labels : List Label, labels ≠ [] →
      writtenLabels labels = [46].intercalate (labels.map fun l => l.bytes.map toLower) ++ [46]
  | [], nonempty => absurd rfl nonempty
  | [l], _ => by simp [writtenLabels]
  | l :: l' :: labels, _ => by
      have later := writtenLabels_eq_intercalate (l' :: labels) (List.cons_ne_nil _ _)
      rw [writtenLabels, List.flatMap_cons, ← writtenLabels, later]
      simp only [List.map_cons, List.intercalate_cons_cons, List.append_assoc]

/-! ### One name -/

theorem readName_encode (labels : List Label) (rest : List UInt8) :
    ∀ domainName : List UInt8,
      domainName.length + (labels.map fun l => l.bytes.length + 1).sum ≤ maxDomainNameLength →
      readName (encodeLabels labels ++ 0 :: rest) domainName = .ok (domainName ++ writtenLabels labels, rest) := by
  induction labels with
  | nil => intro domainName _; simp [encodeLabels, writtenLabels, readName_cons]
  | cons l labels ih =>
    intro domainName fits
    simp only [List.map_cons, List.sum_cons] at fits
    have positive : 0 < l.bytes.length := List.length_pos_iff.mpr l.nonempty
    have read := @readLabel_of_valid l.bytes.length l.bytes 0 domainName (encodeLabels labels ++ 0 :: rest)
      l.nonempty (Nat.zero_add _) l.checked
    have later := ih (domainName ++ l.bytes.map toLower ++ [46])
      (by simp only [List.length_append, List.length_map, List.length_singleton]; omega)
    rw [encodeLabels, List.flatMap_cons, ← encodeLabels, List.cons_append, List.cons_append, readName_cons, toNat_lengthByte,
      if_neg (by omega), if_neg (by have := l.short; omega), if_neg (by omega), List.append_assoc, read]
    dsimp only
    rw [later]
    simp only [writtenLabels, List.flatMap_cons, List.append_assoc]

theorem readName_encode_long (labels : List Label) (rest : List UInt8) :
    ∀ domainName : List UInt8, domainName.length ≤ maxDomainNameLength →
      maxDomainNameLength < domainName.length + (labels.map fun l => l.bytes.length + 1).sum →
      readName (encodeLabels labels ++ rest) domainName = .error .nameTooLong := by
  induction labels with
  | nil => intro domainName short long; simp at long; omega
  | cons l labels ih =>
    intro domainName short long
    simp only [List.map_cons, List.sum_cons] at long
    have positive : 0 < l.bytes.length := List.length_pos_iff.mpr l.nonempty
    rw [encodeLabels, List.flatMap_cons, ← encodeLabels, List.cons_append, List.cons_append, readName_cons, toNat_lengthByte,
      if_neg (by omega), if_neg (by have := l.short; omega)]
    by_cases overflows : l.bytes.length + 1 > maxDomainNameLength - domainName.length
    · rw [if_pos overflows]
    · -- the label fits, so the name overflows at a later one
      have read := @readLabel_of_valid l.bytes.length l.bytes 0 domainName (encodeLabels labels ++ rest)
        l.nonempty (Nat.zero_add _) l.checked
      rw [if_neg overflows, List.append_assoc, read]
      dsimp only
      exact ih _ (by simp only [List.length_append, List.length_map, List.length_singleton]; omega)
        (by simp only [List.length_append, List.length_map, List.length_singleton]; omega)

theorem readName_ok {searchList domainName domainName' rest : List UInt8}
    (short : domainName.length ≤ maxDomainNameLength)
    (read : readName searchList domainName = .ok (domainName', rest)) :
    ∃ labels : List Label, searchList = encodeLabels labels ++ 0 :: rest ∧
      domainName' = domainName ++ writtenLabels labels ∧
      domainName.length + (labels.map fun l => l.bytes.length + 1).sum ≤ maxDomainNameLength := by
  fun_induction readName searchList domainName with
  | case1 => simp at read
  | case2 domainName labelLenByte searchList _ ended =>
    simp only [Except.ok.injEq, Prod.mk.injEq] at read
    obtain ⟨rfl, rfl⟩ := read
    refine ⟨[], ?_, by simp [writtenLabels], by simpa using short⟩
    simp [encodeLabels, UInt8.toNat_inj.mp (ended.trans UInt8.toNat_zero.symm)]
  | case3 | case4 | case6 => simp at read
  | case5 =>
    rename_i domainName labelLenByte searchList _ nonzero short' fits domainName₁ rest₁ found _ ih
    obtain ⟨bytes, splitLabel, sized, writtenLabel, checked⟩ := readLabel_ok (by omega) found
    rw [Nat.zero_add] at sized
    obtain ⟨labels, split, written, fitsLater⟩ :=
      ih (by simp only [writtenLabel, List.length_append, List.length_map, List.length_singleton]; omega) read
    let l := Label.ofChecked bytes (by rintro rfl; simp at sized; omega) (by omega)
      (fun j h => by rw [sized]; exact checked j h)
    refine ⟨l :: labels, ?_, ?_, ?_⟩
    · rw [splitLabel, split]
      simp +zetaDelta only [encodeLabels, List.flatMap_cons, Label.ofChecked, sized, UInt8.ofNat_toNat,
        List.cons_append, List.append_assoc]
    · rw [written, writtenLabel]
      simp only [writtenLabels, List.flatMap_cons, l, Label.ofChecked, List.append_assoc]
    · simp only [List.length_append, List.length_singleton, List.length_map, writtenLabel] at fitsLater
      simp only [List.map_cons, List.sum_cons, l, Label.ofChecked]
      omega

/-- A domain name: labels that, each with its period, fit in the
`maxDomainNameLength` bytes of the scratch buffer, so that its dotted form
has at most 254 bytes. -/
structure DomainName where
  labels : List Label
  nonempty : labels ≠ []
  fits : (labels.map fun l => l.bytes.length + 1).sum ≤ maxDomainNameLength

/-- What a search list holds after the Lifetime: padding bytes and names,
each name ended by a zero-length label. -/
inductive SearchListEntry where
  | padding
  | name (domainName : DomainName)

namespace SearchListEntry

def encode : SearchListEntry → List UInt8
  | padding => [0]
  | name domainName => encodeLabels domainName.labels ++ [0]

/-- The name as `DomainNames` should return it: its labels lower-cased and
joined by periods. -/
def dotted? : SearchListEntry → Option (List UInt8)
  | padding => none
  | name domainName => some ([46].intercalate (domainName.labels.map fun l => l.bytes.map toLower))

end SearchListEntry

def encodeEntries (entries : List SearchListEntry) : List UInt8 :=
  entries.flatMap SearchListEntry.encode

theorem encodeEntries_append (entries entries' : List SearchListEntry) :
    encodeEntries (entries ++ entries') = encodeEntries entries ++ encodeEntries entries' :=
  List.flatMap_append

theorem encodeEntries_padding (count : Nat) :
    encodeEntries (List.replicate count .padding) = List.replicate count 0 := by
  induction count with
  | zero => rfl
  | succ count ih =>
    rw [List.replicate_succ, encodeEntries, List.flatMap_cons, ← encodeEntries, ih]
    rfl

theorem length_encodeEntries_pos {entries : List SearchListEntry} (nonempty : entries ≠ []) :
    0 < (encodeEntries entries).length := by
  obtain ⟨entry, entries, rfl⟩ := List.exists_cons_of_ne_nil nonempty
  -- every entry ends in a zero byte
  cases entry <;> simp only [encodeEntries, List.flatMap_cons, SearchListEntry.encode, List.length_append,
    List.length_singleton] <;> omega

/-! ### The names of a search list -/

theorem iterNames_of_readName {searchList domainName left : List UInt8} (nonempty : searchList ≠ [])
    (read : readName searchList [] = .ok (domainName, left)) :
    iterNames searchList =
      ((if domainName.length = 0 then (iterNames left).1 else domainName.dropLast :: (iterNames left).1),
        (iterNames left).2) := by
  obtain ⟨b, rest, rfl⟩ := List.exists_cons_of_ne_nil nonempty
  rw [iterNames_cons, read]

theorem iterNames_of_readName_error {searchList : List UInt8} {err : SearchListError} (nonempty : searchList ≠ [])
    (read : readName searchList [] = .error err) :
    iterNames searchList = ([], some err) := by
  obtain ⟨b, rest, rfl⟩ := List.exists_cons_of_ne_nil nonempty
  rw [iterNames_cons, read]

theorem iterNames_encodeEntries (entries : List SearchListEntry) :
    iterNames (encodeEntries entries) = (entries.filterMap SearchListEntry.dotted?, none) := by
  induction entries with
  | nil => simp [encodeEntries, iterNames]
  | cons entry entries ih =>
    cases entry with
    | padding =>
      have read : readName (0 :: encodeEntries entries) [] = .ok ([], encodeEntries entries) := by
        simp [readName_cons]
      have unfolded : encodeEntries (.padding :: entries) = 0 :: encodeEntries entries := by
        simp [encodeEntries, SearchListEntry.encode]
      rw [unfolded, iterNames_of_readName (List.cons_ne_nil _ _) read, ih]
      simp [List.filterMap_cons, SearchListEntry.dotted?]
    | name domainName =>
      have read := readName_encode domainName.labels (encodeEntries entries) [] (by simpa using domainName.fits)
      have unfolded : encodeEntries (.name domainName :: entries) =
          encodeLabels domainName.labels ++ 0 :: encodeEntries entries := by
        simp [encodeEntries, SearchListEntry.encode]
      rw [unfolded, iterNames_of_readName (by simp) read, ih, List.nil_append,
        writtenLabels_eq_intercalate _ domainName.nonempty, if_neg (by simp), List.dropLast_concat]
      simp [SearchListEntry.dotted?]

theorem iterNames_ok : ∀ searchList : List UInt8, (iterNames searchList).2 = none →
    ∃ entries, searchList = encodeEntries entries ∧
      (iterNames searchList).1 = entries.filterMap SearchListEntry.dotted?
  | [], _ => ⟨[], rfl, by simp [iterNames]⟩
  | b :: rest, ended => by
    rw [iterNames_cons] at ended
    split at ended
    · simp at ended
    · rename_i domainName left read
      have := readName_shortens read
      obtain ⟨entries, split, named⟩ := iterNames_ok left ended
      obtain ⟨labels, readAll, written, fits⟩ := readName_ok (Nat.zero_le _) read
      simp only [List.nil_append, List.length_nil, Nat.zero_add] at written fits
      rw [iterNames_of_readName (List.cons_ne_nil _ _) read, named]
      cases labels with
      | nil =>
        refine ⟨.padding :: entries, ?_, ?_⟩
        · rw [readAll, split]
          rfl
        · simp [written, writtenLabels, List.filterMap_cons, SearchListEntry.dotted?]
      | cons l labels =>
        refine ⟨.name ⟨l :: labels, List.cons_ne_nil _ _, fits⟩ :: entries, ?_, ?_⟩
        · rw [readAll, split]
          simp [encodeEntries, SearchListEntry.encode]
        · rw [written, writtenLabels_eq_intercalate _ (List.cons_ne_nil _ _), if_neg (by simp),
            List.dropLast_concat]
          rfl
termination_by searchList => searchList.length
decreasing_by exact this

end NDPDNSSearchList

/-- `NDPDNSSearchList.DomainNames`: the names that `iterDomainNames` passed
to its function, in order, and its error. The names are read after the
call, as Go's compilers evaluate `return domainNames, o.iterDomainNames(...)`. -/
def NDPDNSSearchList.domainNames (o : List UInt8) : List (List UInt8) × Option SearchListError :=
  if o.length < minNDPDNSSearchListBodySize then ([], some (.bodyTooShort o.length))
  else iterNames (o.drop ndpDNSSearchListDomainNamesOffset)

namespace NDPDNSSearchList

theorem domainNames_of_long {o : List UInt8} (long : minNDPDNSSearchListBodySize ≤ o.length) :
    domainNames o = iterNames (o.drop ndpDNSSearchListDomainNamesOffset) := by
  rw [domainNames, if_neg (by omega)]

/-- On a body of at least the minimum size, `DomainNames` succeeds exactly
when what follows the Lifetime is a sequence of padding bytes and names
whose labels, each with its period, fit in `maxDomainNameLength` bytes; it
then returns the names, lower-cased and joined by periods, in order. -/
theorem domainNames_reads_search_list (o : List UInt8) (long : minNDPDNSSearchListBodySize ≤ o.length) :
    (∀ entries, o.drop ndpDNSSearchListDomainNamesOffset = encodeEntries entries →
      domainNames o = (entries.filterMap SearchListEntry.dotted?, none)) ∧
    ((domainNames o).2 = none →
      ∃ entries, o.drop ndpDNSSearchListDomainNamesOffset = encodeEntries entries ∧
        (domainNames o).1 = entries.filterMap SearchListEntry.dotted?) := by
  rw [domainNames_of_long long]
  refine ⟨fun entries split => ?_, iterNames_ok _⟩
  rw [split, iterNames_encodeEntries]

theorem domainNames_reads_search_list_of_one_name :
    minNDPDNSSearchListBodySize ≤ ([0, 0, 0, 0, 0, 0, 3, 65, 98, 99, 0, 0, 0, 0] : List UInt8).length ∧
      ((∀ entries, ([0, 0, 0, 0, 0, 0, 3, 65, 98, 99, 0, 0, 0, 0] : List UInt8).drop
          ndpDNSSearchListDomainNamesOffset = encodeEntries entries →
        domainNames [0, 0, 0, 0, 0, 0, 3, 65, 98, 99, 0, 0, 0, 0] = (entries.filterMap SearchListEntry.dotted?, none)) ∧
      ((domainNames [0, 0, 0, 0, 0, 0, 3, 65, 98, 99, 0, 0, 0, 0]).2 = none →
        ∃ entries, ([0, 0, 0, 0, 0, 0, 3, 65, 98, 99, 0, 0, 0, 0] : List UInt8).drop
            ndpDNSSearchListDomainNamesOffset = encodeEntries entries ∧
          (domainNames [0, 0, 0, 0, 0, 0, 3, 65, 98, 99, 0, 0, 0, 0]).1 = entries.filterMap SearchListEntry.dotted?)) :=
  ⟨by decide, domainNames_reads_search_list _ (by decide)⟩

theorem domainNames_of_entries {front : List UInt8} (entries : List SearchListEntry) (count : Nat)
    (sized : front.length = ndpDNSSearchListDomainNamesOffset)
    (long : minNDPDNSSearchListBodySize ≤ (front ++ encodeEntries entries ++ List.replicate count 0).length) :
    (domainNames (front ++ encodeEntries entries ++ List.replicate count 0)).2 = none := by
  rw [domainNames_of_long long, List.append_assoc, List.drop_left' sized, ← encodeEntries_padding,
    ← encodeEntries_append, iterNames_encodeEntries]

/-- Sixty-three `a`s: the longest label. -/
def longestLabel : Label where
  bytes := List.replicate 63 97
  nonempty := by simp
  short := by simp [maxDomainNameLabelLength]
  startsWithLetter := by decide +kernel
  lettersDigitsHyphens := by decide +kernel
  notEndingInHyphen := by decide +kernel

/-- Four labels of 63 letters make a dotted name of 255 bytes, which the
buffer of `maxDomainNameLength` bytes cannot hold with its last period. -/
theorem domainNames_refuses_dotted_name_of_255_bytes :
    ([46].intercalate ((List.replicate 4 longestLabel).map Label.bytes)).length = maxDomainNameLength ∧
      (domainNames (List.replicate 6 0 ++ encodeLabels (List.replicate 4 longestLabel) ++ [0, 0])).2 =
        some .nameTooLong := by
  refine ⟨by decide +kernel, ?_⟩
  have refused := readName_encode_long (List.replicate 4 longestLabel) [0, 0] [] (Nat.zero_le _)
    (by decide +kernel)
  rw [domainNames_of_long (by simp [minNDPDNSSearchListBodySize, longestLabel]), List.append_assoc,
    ndpDNSSearchListDomainNamesOffset, List.drop_left' List.length_replicate,
    iterNames_of_readName_error (by simp) refused]

end NDPDNSSearchList

end Cijitter.Header
