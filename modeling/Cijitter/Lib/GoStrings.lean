import Mathlib
import Cijitter.Lib.Bytes

/-! The Go standard-library functions that the modelled code calls, over
strings as lists of (ASCII) characters, following their documented
behaviour: `strings.Split`, `strings.Replace` with `n = -1`, `strings.Contains`,
`strconv.ParseUint` for base 16, `strconv.Atoi`, `strconv.Itoa`, `fmt.Sprintf` with `%x`
and `binary.Read` of a little-endian `int64`. Every definition is
structurally recursive, so concrete calls evaluate by `decide`. -/

set_option autoImplicit false

namespace GoStrings

/-- `strings.Split(s, sep)` for a one-character separator: the pieces between
every occurrence, empty pieces included. -/
def split (s : List Char) (sep : Char) : List (List Char) :=
  s.splitOn sep

/-- `strings.Replace(s, old, new, -1)` for a non-empty `old`: every
non-overlapping occurrence, scanned from the left, is replaced. `fuel`
bounds the scan; the length of `s` always suffices. -/
def replaceAllAux (old new : List Char) : Nat → List Char → List Char
  | 0, s => s
  | _ + 1, [] => []
  | fuel + 1, c :: rest =>
    if old ≠ [] ∧ old.isPrefixOf (c :: rest) then
      new ++ replaceAllAux old new fuel ((c :: rest).drop old.length)
    else c :: replaceAllAux old new fuel rest

/-- `strings.Replace(s, old, new, -1)`. -/
def replaceAll (s old new : List Char) : List Char :=
  replaceAllAux old new s.length s

def hexDigit (c : Char) : Option Nat :=
  if '0' ≤ c ∧ c ≤ '9' then some (c.toNat - '0'.toNat)
  else if 'a' ≤ c ∧ c ≤ 'f' then some (c.toNat - 'a'.toNat + 10)
  else if 'A' ≤ c ∧ c ≤ 'F' then some (c.toNat - 'A'.toNat + 10)
  else none

def decDigit (c : Char) : Option Nat :=
  if '0' ≤ c ∧ c ≤ '9' then some (c.toNat - '0'.toNat) else none

/-- The digits of `s` read in `base`, most significant first, after the
value `acc` already read. -/
def digitsValue (digit : Char → Option Nat) (base : Nat) : Nat → List Char → Option Nat
  | acc, [] => some acc
  | acc, c :: rest =>
    match digit c with
    | some d => digitsValue digit base (acc * base + d) rest
    | none => none

/-- `strconv.ParseUint(s, 16, 64)`: a non-empty string of hexadecimal
digits whose value fits in 64 bits. -/
def parseUint16 (s : List Char) : Option Nat :=
  if s = [] then none
  else
    match digitsValue hexDigit 16 0 s with
    | some value => if value < 2 ^ 64 then some value else none
    | none => none

/-- `strconv.Atoi(s)` on a 64-bit platform: an optional sign and a non-empty
string of decimal digits whose value fits in an `int`. -/
def atoi (s : List Char) : Option Int :=
  let (negative, digits) :=
    match s with
    | '-' :: rest => (true, rest)
    | '+' :: rest => (false, rest)
    | _ => (false, s)
  if digits = [] then none
  else
    match digitsValue decDigit 10 0 digits with
    | some value =>
      let signed : Int := if negative then -value else value
      if -2 ^ 63 ≤ signed ∧ signed < 2 ^ 63 then some signed else none
    | none => none

/-- `strconv.Itoa(k)`: the decimal digits of the magnitude, after a minus
sign for a negative `k`. -/
def itoa (k : Int) : List Char :=
  if k < 0 then '-' :: Nat.toDigits 10 k.natAbs else Nat.toDigits 10 k.toNat

/-- `strings.Contains(s, substr)`. -/
def contains (s substr : List Char) : Bool :=
  decide (substr <:+: s)

/-- `fmt.Sprintf("0x%x", k)` for an integer `k`: lower-case hexadecimal
digits of the magnitude, with a minus sign for a negative `k`. -/
def sprintfHex (k : Int) : List Char :=
  ['0', 'x'] ++ if k < 0 then '-' :: Nat.toDigits 16 k.natAbs else Nat.toDigits 16 k.toNat

/-- `fmt.Sprintf("%x", s)` for a string `s` of ASCII characters: two
lower-case hexadecimal digits for each byte. -/
def sprintfHexString (s : List Char) : List Char :=
  s.flatMap fun c => Nat.toDigits 16 (c.toNat / 16) ++ Nat.toDigits 16 (c.toNat % 16)

/-- `binary.Read(bytes.NewBuffer(data), binary.LittleEndian, &k)` for an
`int64 k`: the value of the first eight bytes, or `none` when fewer are
there, in which case `binary.Read` fails and leaves `k` as it was. -/
def binaryReadInt64 (data : List UInt8) : Option Int :=
  if data.length < 8 then none else some (Bytes.signedValue 64 (Bytes.leValue (data.take 8)))

end GoStrings
