import Mathlib

/-! Go's `encoding/json` for one value at a time, over text as a list of
characters: `Encoder.Encode` of a string, and the scan `Decoder.Decode` runs
over its buffer to find the first value. The scanner is a pushdown automaton
like Go's: a stack of open arrays and objects and a mode for the token in
progress. The end of a top-level value is only known at the next character
(or at the end of the input), as in Go, where `scanEnd` comes one byte late.
Only a top-level string's text is kept; other values are `other`. -/

set_option autoImplicit false

namespace GoJson

/-- A decoded top-level value: a string, or a number, literal, array or object. -/
inductive Value where
  | string (text : List Char)
  | other
  deriving DecidableEq, Repr

inductive Frame where
  | array
  | objectKey
  | objectValue
  deriving DecidableEq, Repr

inductive Mode where
  | beginValue
  | beginValueOrEnd
  | beginKeyOrEnd
  | beginKey
  | string (acc : List Char)
  | escape (acc : List Char)
  | unicode (acc : List Char) (digits : List Nat)
  | minus
  | zero
  | digits
  | dot
  | fraction
  | exponent
  | exponentSign
  | exponentDigits
  | literal (remaining : List Char)
  | endValue
  deriving DecidableEq, Repr

/-- How a scan ends: a complete value and the input after it, the input
running out inside a value (with the value it would be if no more input
came), or a syntax error. -/
inductive Scan where
  | done (value : Value) (rest : List Char)
  | unfinished (atEnd : Option Value)
  | invalid
  deriving DecidableEq, Repr

def isSpace (c : Char) : Bool :=
  c == ' ' || c == '\t' || c == '\n' || c == '\r'

def isDigit (c : Char) : Bool :=
  '0' ≤ c && c ≤ '9'

/-- The value of a hexadecimal digit of a `\u` escape. -/
def hexValue (c : Char) : Option Nat :=
  if '0' ≤ c ∧ c ≤ '9' then some (c.toNat - '0'.toNat)
  else if 'a' ≤ c ∧ c ≤ 'f' then some (c.toNat - 'a'.toNat + 10)
  else if 'A' ≤ c ∧ c ≤ 'F' then some (c.toNat - 'A'.toNat + 10)
  else none

/-- The character of a `\uXXXX` escape; a lone UTF-16 surrogate becomes
U+FFFD. -/
def unicodeChar (digits : List Nat) : Char :=
  let code := digits.foldl (fun acc d => acc * 16 + d) 0
  if 0xD800 ≤ code ∧ code < 0xE000 then Char.ofNat 0xFFFD else Char.ofNat code

/-- What follows a complete value inside the open containers: `none` for a
syntax error, `some none` when the top-level value has ended. -/
def endStep (stack : List Frame) (c : Char) : Option (Option (List Frame × Mode)) :=
  match stack with
  | [] => some none
  | .array :: outer =>
      if c = ',' then some (some (stack, .beginValue))
      else if c = ']' then some (some (outer, .endValue))
      else if isSpace c then some (some (stack, .endValue))
      else none
  | .objectKey :: outer =>
      if c = ':' then some (some (.objectValue :: outer, .beginValue))
      else if isSpace c then some (some (stack, .endValue))
      else none
  | .objectValue :: outer =>
      if c = ',' then some (some (.objectKey :: outer, .beginKey))
      else if c = '}' then some (some (outer, .endValue))
      else if isSpace c then some (some (stack, .endValue))
      else none

def beginStep (stack : List Frame) (c : Char) : Option (List Frame × Mode) :=
  if isSpace c then some (stack, .beginValue)
  else if c = '{' then some (.objectKey :: stack, .beginKeyOrEnd)
  else if c = '[' then some (.array :: stack, .beginValueOrEnd)
  else if c = '"' then some (stack, .string [])
  else if c = '-' then some (stack, .minus)
  else if c = '0' then some (stack, .zero)
  else if isDigit c then some (stack, .digits)
  else if c = 't' then some (stack, .literal ['r', 'u', 'e'])
  else if c = 'f' then some (stack, .literal ['a', 'l', 's', 'e'])
  else if c = 'n' then some (stack, .literal ['u', 'l', 'l'])
  else none

/-- The value a scan that stops here has, if the input ends: a finished
top-level value, or a top-level number in a final state. -/
def atEnd (result : Value) (stack : List Frame) (mode : Mode) : Option Value :=
  match stack, mode with
  | [], .endValue | [], .zero | [], .digits | [], .fraction | [], .exponentDigits => some result
  | _, _ => none

/-- The scan of `input` from a stack and mode; `result` is the top-level
value as far as it is known. -/
def scan (result : Value) (stack : List Frame) (mode : Mode) : List Char → Scan
  | [] => .unfinished (atEnd result stack mode)
  | c :: rest =>
      -- A number ends at the first character that cannot continue it, which
      -- is then read as what follows the value.
      -- A bracket that closes the top-level value ends the scan at once:
      -- `Decoder.readValue` invents the space it would otherwise wait for.
      let closed (outer : List Frame) : Scan :=
        if outer = [] then .done result rest else scan result outer .endValue rest
      let finish : Scan :=
        match endStep stack c with
        | none => .invalid
        | some none => .done result (c :: rest)
        | some (some (stack, mode)) => if stack = [] then .done result rest else scan result stack mode rest
      let begin : Scan :=
        match beginStep stack c with
        | none => .invalid
        | some (stack, mode) => scan result stack mode rest
      match mode with
      | .beginValue => begin
      | .beginValueOrEnd =>
          match stack with
          | .array :: outer => if c = ']' then closed outer else begin
          | _ => begin
      | .beginKeyOrEnd =>
          match stack with
          | .objectKey :: outer =>
              if c = '}' then closed outer
              else if c = '"' then scan result stack (.string []) rest
              else if isSpace c then scan result stack .beginKeyOrEnd rest
              else .invalid
          | _ => .invalid
      | .beginKey =>
          if c = '"' then scan result stack (.string []) rest
          else if isSpace c then scan result stack .beginKey rest
          else .invalid
      | .string acc =>
          if c = '"' then
            scan (if stack = [] then .string acc.reverse else result) stack .endValue rest
          else if c = '\\' then scan result stack (.escape acc) rest
          else if c.toNat < 0x20 then .invalid
          else scan result stack (.string (c :: acc)) rest
      | .escape acc =>
          if c = '"' ∨ c = '\\' ∨ c = '/' then scan result stack (.string (c :: acc)) rest
          else if c = 'b' then scan result stack (.string ('\x08' :: acc)) rest
          else if c = 'f' then scan result stack (.string ('\x0c' :: acc)) rest
          else if c = 'n' then scan result stack (.string ('\n' :: acc)) rest
          else if c = 'r' then scan result stack (.string ('\r' :: acc)) rest
          else if c = 't' then scan result stack (.string ('\t' :: acc)) rest
          else if c = 'u' then scan result stack (.unicode acc []) rest
          else .invalid
      | .unicode acc digits =>
          match hexValue c with
          | none => .invalid
          | some d =>
              if digits.length = 3 then
                scan result stack (.string (unicodeChar (digits ++ [d]) :: acc)) rest
              else scan result stack (.unicode acc (digits ++ [d])) rest
      | .minus =>
          if c = '0' then scan result stack .zero rest
          else if isDigit c then scan result stack .digits rest
          else .invalid
      | .zero =>
          if c = '.' then scan result stack .dot rest
          else if c = 'e' ∨ c = 'E' then scan result stack .exponent rest
          else finish
      | .digits =>
          if isDigit c then scan result stack .digits rest
          else if c = '.' then scan result stack .dot rest
          else if c = 'e' ∨ c = 'E' then scan result stack .exponent rest
          else finish
      | .dot => if isDigit c then scan result stack .fraction rest else .invalid
      | .fraction =>
          if isDigit c then scan result stack .fraction rest
          else if c = 'e' ∨ c = 'E' then scan result stack .exponent rest
          else finish
      | .exponent =>
          if c = '+' ∨ c = '-' then scan result stack .exponentSign rest
          else if isDigit c then scan result stack .exponentDigits rest
          else .invalid
      | .exponentSign => if isDigit c then scan result stack .exponentDigits rest else .invalid
      | .exponentDigits => if isDigit c then scan result stack .exponentDigits rest else finish
      | .literal [] => finish
      | .literal (expected :: remaining) =>
          if c = expected then
            scan result stack (if remaining = [] then .endValue else .literal remaining) rest
          else .invalid
      | .endValue => finish

/-- What `Decoder.Decode` makes of its buffer: a value, a failure (a syntax
error, or `io.EOF` and `io.ErrUnexpectedEOF` once the input has ended), or
the need to read more. -/
inductive Decoded where
  | value (value : Value)
  | failed
  | needMore
  deriving DecidableEq, Repr

/-- `Decoder.Decode` on the bytes buffered so far; `eof` says the reader has
returned `io.EOF`. -/
def decode (eof : Bool) (buffer : List Char) : Decoded :=
  match scan .other [] .beginValue buffer with
  | .done value _ => .value value
  | .unfinished (some value) => if eof then .value value else .needMore
  | .unfinished none => if eof then .failed else .needMore
  | .invalid => .failed

/-- The hexadecimal digit `Encoder` writes in a `\u00XX` escape. -/
def hexDigit (n : Nat) : Char :=
  if n < 10 then Char.ofNat (n + '0'.toNat) else Char.ofNat (n - 10 + 'a'.toNat)

/-- How `Encoder.Encode` (with HTML escaping, its default) writes one
character of a string. -/
def escapeChar (c : Char) : List Char :=
  if c = '"' then ['\\', '"']
  else if c = '\\' then ['\\', '\\']
  else if c = '\n' then ['\\', 'n']
  else if c = '\r' then ['\\', 'r']
  else if c = '\t' then ['\\', 't']
  else if c.toNat < 0x20 ∨ c = '<' ∨ c = '>' ∨ c = '&' then
    ['\\', 'u', '0', '0', hexDigit (c.toNat / 16), hexDigit (c.toNat % 16)]
  else if c.toNat = 0x2028 then ['\\', 'u', '2', '0', '2', '8']
  else if c.toNat = 0x2029 then ['\\', 'u', '2', '0', '2', '9']
  else [c]

/-- `json.NewEncoder(w).Encode(s)` for a string `s`: the quoted, escaped
text and a newline, written with one `Write`. -/
def encodeString (s : List Char) : List Char :=
  '"' :: s.flatMap escapeChar ++ ['"', '\n']

@[simp] theorem atEnd_string (result : Value) (stack : List Frame) (acc : List Char) :
    atEnd result stack (.string acc) = none := by
  cases stack <;> rfl

@[simp] theorem atEnd_escape (result : Value) (stack : List Frame) (acc : List Char) :
    atEnd result stack (.escape acc) = none := by
  cases stack <;> rfl

@[simp] theorem atEnd_unicode (result : Value) (stack : List Frame) (acc : List Char)
    (digits : List Nat) :
    atEnd result stack (.unicode acc digits) = none := by
  cases stack <;> rfl

theorem scan_nil (result : Value) (stack : List Frame) (mode : Mode) :
    scan result stack mode [] = .unfinished (atEnd result stack mode) :=
  rfl

/-! One lemma for each mode that the proofs below read, true by unfolding
`scan` once; the proofs cite them instead of unfolding `scan`. -/

theorem scan_string_cons (result : Value) (stack : List Frame) (acc : List Char) (c : Char)
    (rest : List Char) :
    scan result stack (.string acc) (c :: rest) =
      if c = '"' then scan (if stack = [] then .string acc.reverse else result) stack .endValue rest
      else if c = '\\' then scan result stack (.escape acc) rest
      else if c.toNat < 0x20 then .invalid
      else scan result stack (.string (c :: acc)) rest :=
  rfl

theorem scan_unicode_cons (result : Value) (stack : List Frame) (acc : List Char) (digits : List Nat)
    (c : Char) (rest : List Char) :
    scan result stack (.unicode acc digits) (c :: rest) =
      match hexValue c with
      | none => .invalid
      | some d =>
          if digits.length = 3 then
            scan result stack (.string (unicodeChar (digits ++ [d]) :: acc)) rest
          else scan result stack (.unicode acc (digits ++ [d])) rest :=
  rfl

theorem hexValue_hexDigit (n : Nat) (small : n < 16) : hexValue (hexDigit n) = some n := by
  have all : ∀ m : Fin 16, hexValue (hexDigit m) = some m := by decide
  exact all ⟨n, small⟩

theorem unicodeChar_eq (c : Char) (digits : List Nat)
    (value : digits.foldl (fun acc d => acc * 16 + d) 0 = c.toNat) (small : c.toNat < 0xD800) :
    unicodeChar digits = c := by
  have notSurrogate : ¬(0xD800 ≤ c.toNat ∧ c.toNat < 0xE000) := by omega
  simp only [unicodeChar, value, notSurrogate, if_false, Char.ofNat_toNat]

theorem scan_unicode (result : Value) (stack : List Frame) (acc : List Char) (digits : List Nat)
    {c : Char} {d : Nat} (hex : hexValue c = some d) (rest : List Char) :
    scan result stack (.unicode acc digits) (c :: rest) =
      if digits.length = 3 then scan result stack (.string (unicodeChar (digits ++ [d]) :: acc)) rest
      else scan result stack (.unicode acc (digits ++ [d])) rest := by
  rw [scan_unicode_cons, hex]

theorem scan_string_plain (result : Value) (stack : List Frame) (acc : List Char) {c : Char}
    (notQuote : c ≠ '"') (notBackslash : c ≠ '\\') (printable : ¬c.toNat < 0x20) (rest : List Char) :
    scan result stack (.string acc) (c :: rest) = scan result stack (.string (c :: acc)) rest := by
  rw [scan_string_cons, if_neg notQuote, if_neg notBackslash, if_neg printable]

theorem scan_unicodeEscape (result : Value) (stack : List Frame) (acc : List Char)
    {a b c d : Char} {da db dc dd : Nat} (ha : hexValue a = some da) (hb : hexValue b = some db)
    (hc : hexValue c = some dc) (hd : hexValue d = some dd) (rest : List Char) :
    scan result stack (.string acc) (['\\', 'u', a, b, c, d] ++ rest) =
      scan result stack (.string (unicodeChar [da, db, dc, dd] :: acc)) rest := by
  have escape : scan result stack (.string acc) (['\\', 'u', a, b, c, d] ++ rest) =
      scan result stack (.unicode acc []) (a :: b :: c :: d :: rest) := rfl
  rw [escape]
  simp only [scan_unicode _ _ _ _ ha, scan_unicode _ _ _ _ hb, scan_unicode _ _ _ _ hc,
    scan_unicode _ _ _ _ hd, List.nil_append, List.cons_append, List.length_cons, List.length_nil]
  rfl

theorem scan_escapeChar (result : Value) (stack : List Frame) (acc : List Char) (c : Char)
    (rest : List Char) :
    scan result stack (.string acc) (escapeChar c ++ rest) =
      scan result stack (.string (c :: acc)) rest := by
  unfold escapeChar
  split_ifs with quote backslash newline ret tab control u2028 u2029
  · subst quote; rfl
  · subst backslash; rfl
  · subst newline; rfl
  · subst ret; rfl
  · subst tab; rfl
  · have code : c.toNat < 0x40 := by
      rcases control with low | rfl | rfl | rfl
      · omega
      all_goals decide
    rw [scan_unicodeEscape result stack acc rfl rfl (hexValue_hexDigit _ (by omega))
        (hexValue_hexDigit _ (by omega)),
      unicodeChar_eq c _ (by simp only [List.foldl]; omega) (by omega)]
  · rw [scan_unicodeEscape result stack acc (rfl : hexValue '2' = some 2) (rfl : hexValue '0' = some 0)
        (rfl : hexValue '2' = some 2) (rfl : hexValue '8' = some 8),
      unicodeChar_eq c _ (by rw [u2028]; decide) (by omega)]
  · rw [scan_unicodeEscape result stack acc (rfl : hexValue '2' = some 2) (rfl : hexValue '0' = some 0)
        (rfl : hexValue '2' = some 2) (rfl : hexValue '9' = some 9),
      unicodeChar_eq c _ (by rw [u2029]; decide) (by omega)]
  · rw [List.cons_append, List.nil_append]
    simp only [not_or] at control
    exact scan_string_plain result stack acc quote backslash control.1 rest

theorem scan_escaped (result : Value) (stack : List Frame) (acc s rest : List Char) :
    scan result stack (.string acc) (s.flatMap escapeChar ++ rest) =
      scan result stack (.string (s.reverse ++ acc)) rest := by
  induction s generalizing acc with
  | nil => rfl
  | cons c s ih =>
      rw [List.flatMap_cons, List.append_assoc, scan_escapeChar, ih, List.reverse_cons,
        List.append_assoc, List.singleton_append]

theorem decode_encodeString (eof : Bool) (s rest : List Char) :
    decode eof (encodeString s ++ rest) = .value (.string s) := by
  have opened : scan .other [] .beginValue (encodeString s ++ rest) =
      scan .other [] (.string []) (s.flatMap escapeChar ++ ('"' :: '\n' :: rest)) := by
    simp only [encodeString, List.cons_append, List.append_assoc, List.nil_append]
    rfl
  have closed : scan .other [] (.string s.reverse) ('"' :: '\n' :: rest) =
      .done (.string s) ('\n' :: rest) := by
    have quote : scan .other [] (.string s.reverse) ('"' :: '\n' :: rest) =
        scan (.string s.reverse.reverse) [] .endValue ('\n' :: rest) := rfl
    rw [quote, List.reverse_reverse]
    rfl
  rw [decode, opened, scan_escaped, List.append_nil, closed]

theorem scan_take_unicodeEscape (result : Value) (stack : List Frame) (acc : List Char)
    {a b c d : Char} {da db dc : Nat} (ha : hexValue a = some da) (hb : hexValue b = some db)
    (hc : hexValue c = some dc) (k : Nat) (short : k < 6) :
    scan result stack (.string acc) ((['\\', 'u', a, b, c, d]).take k) = .unfinished none := by
  have opened : ∀ rest, scan result stack (.string acc) ('\\' :: 'u' :: rest) =
      scan result stack (.unicode acc []) rest := fun _ => rfl
  match k, short with
  | 0, _ => simp [scan_nil]
  | 1, _ => simp [scan_string_cons, scan_nil]
  | 2, _ => simp [opened, scan_nil]
  | 3, _ => simp [opened, scan_unicode _ _ _ _ ha, scan_nil]
  | 4, _ => simp [opened, scan_unicode _ _ _ _ ha, scan_unicode _ _ _ _ hb, scan_nil]
  | 5, _ =>
      simp [opened, scan_unicode _ _ _ _ ha, scan_unicode _ _ _ _ hb, scan_unicode _ _ _ _ hc,
        scan_nil]

theorem scan_take_shortEscape (result : Value) (stack : List Frame) (acc : List Char) (x : Char)
    (k : Nat) (short : k < 2) :
    scan result stack (.string acc) ((['\\', x]).take k) = .unfinished none := by
  match k, short with
  | 0, _ => simp [scan_nil]
  | 1, _ => simp [scan_string_cons, scan_nil]

theorem scan_take_escapeChar (result : Value) (stack : List Frame) (acc : List Char) (c : Char)
    (k : Nat) (short : k < (escapeChar c).length) :
    scan result stack (.string acc) ((escapeChar c).take k) = .unfinished none := by
  unfold escapeChar at short ⊢
  split_ifs at short ⊢ with quote backslash newline ret tab control u2028 u2029
  all_goals simp only [List.length_cons, List.length_nil] at short
  iterate 5 exact scan_take_shortEscape result stack acc _ k short
  · have code : c.toNat < 0x40 := by
      rcases control with low | rfl | rfl | rfl
      · omega
      all_goals decide
    exact scan_take_unicodeEscape result stack acc rfl rfl (hexValue_hexDigit _ (by omega)) k short
  · exact scan_take_unicodeEscape result stack acc rfl rfl rfl k short
  · exact scan_take_unicodeEscape result stack acc rfl rfl rfl k short
  · obtain rfl : k = 0 := by omega
    simp [scan_nil]

theorem scan_take_escaped (result : Value) (stack : List Frame) (s : List Char) :
    ∀ (acc : List Char) (j : Nat), j ≤ (s.flatMap escapeChar).length →
      scan result stack (.string acc) ((s.flatMap escapeChar).take j) = .unfinished none := by
  induction s with
  | nil => intro acc j _; simp [scan_nil]
  | cons c s ih =>
      intro acc j short
      rw [List.flatMap_cons, List.length_append] at short
      rw [List.flatMap_cons, List.take_append]
      by_cases inside : j < (escapeChar c).length
      · have none_after : j - (escapeChar c).length = 0 := by omega
        rw [none_after, List.take_zero, List.append_nil]
        exact scan_take_escapeChar result stack acc c j inside
      · rw [List.take_of_length_le (by omega), scan_escapeChar]
        exact ih (c :: acc) _ (by omega)

theorem decode_take_encodeString (msg : List Char) (k : Nat) (short : k < (encodeString msg).length) :
    decode false ((encodeString msg).take k) = .needMore := by
  cases k with
  | zero => rfl
  | succ j =>
      have opened : scan .other [] .beginValue ((encodeString msg).take (j + 1)) =
          scan .other [] (.string []) ((msg.flatMap escapeChar ++ ['"', '\n']).take j) := by
        simp only [encodeString]
        rfl
      simp only [encodeString, List.length_cons, List.length_append, List.length_nil] at short
      rw [decode, opened]
      by_cases inText : j ≤ (msg.flatMap escapeChar).length
      · rw [List.take_append_of_le_length inText, scan_take_escaped .other [] msg [] j inText]
        rfl
      · have closing : j - (msg.flatMap escapeChar).length = 1 := by omega
        have quoted : scan .other [] (.string msg.reverse) ['"'] =
            .unfinished (some (.string msg)) := by
          simp [scan, atEnd]
        rw [List.take_append, List.take_of_length_le (by omega), closing,
          List.take_succ_cons, List.take_zero, scan_escaped, List.append_nil, quoted]
        rfl

end GoJson
