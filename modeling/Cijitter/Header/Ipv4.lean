import Cijitter.Header.ChecksumProperties

/-! The IPv4 header (`pkg/tcpip/header/ipv4.go`) as the bytes of its slice,
and `IPv4FragmentHash` (`pkg/tcpip/network/hash/hash.go`). The accessors
read and write big-endian 16-bit fields in place. Go panics on a slice
shorter than the field it touches; here a missing byte reads as zero and a
write past the end is dropped, and no caller modelled passes a header
shorter than `IPv4MinimumSize`.

`setFields` is what a sender does to a header it has built: set the total
length, the flags and the fragment offset, then the checksum over the
rest. A sealed header's checksum verifies, sealing it again is sealing the
original, and every other byte is the original's. -/

set_option autoImplicit false

namespace Cijitter.Header

/-- `binary.BigEndian.Uint16(b[i:])`. -/
def uint16At (b : List UInt8) (i : Nat) : UInt16 :=
  ((b.getD i 0).toUInt16 <<< 8) ||| (b.getD (i + 1) 0).toUInt16

/-- `binary.BigEndian.PutUint16(b[i:], v)`. -/
def putUint16At (b : List UInt8) (i : Nat) (v : UInt16) : List UInt8 :=
  (b.set i (v >>> 8).toUInt8).set (i + 1) v.toUInt8

/-- `IPv4MinimumSize`. -/
def ipv4MinimumSize : Nat := 20

/-- `IPv4FlagMoreFragments`. -/
def ipv4FlagMoreFragments : UInt8 := 1

/-- `IPv4`: a header stored in a byte slice. -/
abbrev IPv4 := List UInt8

namespace IPv4

/-- `HeaderLength`: the IHL field, in bytes. -/
def headerLength (b : IPv4) : UInt8 := ((b.getD 0 0) &&& 0xf) * 4

/-- `ID`. -/
def id (b : IPv4) : UInt16 := uint16At b 4

/-- `Protocol`. -/
def protocol (b : IPv4) : UInt8 := b.getD 9 0

/-- `Flags`: the top three bits of the flags and fragment offset word. -/
def flags (b : IPv4) : UInt8 := (uint16At b 6 >>> 13).toUInt8

/-- `More`. -/
def more (b : IPv4) : Bool := b.flags &&& ipv4FlagMoreFragments != 0

/-- `FragmentOffset`, in bytes. -/
def fragmentOffset (b : IPv4) : UInt16 := uint16At b 6 <<< 3

/-- `TotalLength`. -/
def totalLength (b : IPv4) : UInt16 := uint16At b 2

/-- `SourceAddress`. -/
def sourceAddress (b : IPv4) : List UInt8 := (b.drop 12).take 4

/-- `DestinationAddress`. -/
def destinationAddress (b : IPv4) : List UInt8 := (b.drop 16).take 4

/-- `PayloadLength`. -/
def payloadLength (b : IPv4) : UInt16 := b.totalLength - b.headerLength.toUInt16

/-- `SetTotalLength`. -/
def setTotalLength (b : IPv4) (totalLength : UInt16) : IPv4 := putUint16At b 2 totalLength

/-- `SetChecksum`. -/
def setChecksum (b : IPv4) (v : UInt16) : IPv4 := putUint16At b 10 v

/-- `SetFlagsFragmentOffset`. -/
def setFlagsFragmentOffset (b : IPv4) (flags : UInt8) (offset : UInt16) : IPv4 :=
  putUint16At b 6 ((flags.toUInt16 <<< 13) ||| (offset >>> 3))

/-- `CalculateChecksum`: the checksum of the header's bytes. -/
def calculateChecksum (b : IPv4) : UInt16 := checksum (b.take b.headerLength.toNat) 0

/-- The total length, flags and fragment offset set, and the checksum set
to the complement of the header's checksum with a zero field. -/
def setFields (b : IPv4) (totalLength : UInt16) (flags : UInt8) (offset : UInt16) : IPv4 :=
  let b := (b.setTotalLength totalLength).setFlagsFragmentOffset flags offset
  let b := b.setChecksum 0
  b.setChecksum (~~~b.calculateChecksum)

/-- The bytes `setFields` writes: the total length, the flags and fragment
offset, and the checksum. -/
def SealedByte (j : Nat) : Prop := j = 2 ∨ j = 3 ∨ j = 6 ∨ j = 7 ∨ j = 10 ∨ j = 11

instance (j : Nat) : Decidable (SealedByte j) :=
  inferInstanceAs (Decidable (_ ∨ _))

end IPv4

/-- `rol32`. Go shifts a `uint32` by 32 or more to zero, Lean modulo 32;
every call shifts by less. -/
def rol32 (v shift : UInt32) : UInt32 := (v <<< shift) ||| (v >>> ((0 - shift) &&& 31))

/-- `Hash3Words`: Jenkins' hash of three words. -/
def hash3Words (a b c initval : UInt32) : UInt32 :=
  let initval := initval + ((0xdeadbeef : UInt32) + ((3 : UInt32) <<< (2 : UInt32)))
  let a := a + initval
  let b := b + initval
  let c := c + initval
  let c := c ^^^ b
  let c := c - rol32 b 14
  let a := a ^^^ c
  let a := a - rol32 c 11
  let b := b ^^^ a
  let b := b - rol32 a 25
  let c := c ^^^ b
  let c := c - rol32 b 16
  let a := a ^^^ c
  let a := a - rol32 c 4
  let b := b ^^^ a
  let b := b - rol32 a 14
  let c := c ^^^ b
  c - rol32 b 24

/-- An address's four bytes as a little-endian word. -/
def addressWord (t : List UInt8) : UInt32 :=
  (t.getD 0 0).toUInt32 ||| ((t.getD 1 0).toUInt32 <<< 8) ||| ((t.getD 2 0).toUInt32 <<< 16) |||
    ((t.getD 3 0).toUInt32 <<< 24)

/-- `IPv4FragmentHash`, under the random `hashIV` the package draws once. -/
def ipv4FragmentHash (hashIV : UInt32) (h : IPv4) : UInt32 :=
  let x := (h.id.toUInt32 <<< 16) ||| h.protocol.toUInt32
  hash3Words x (addressWord h.sourceAddress) (addressWord h.destinationAddress) hashIV

/-! ### Fields in place -/

@[simp] theorem length_putUint16At (b : List UInt8) (i : Nat) (v : UInt16) :
    (putUint16At b i v).length = b.length := by
  simp [putUint16At]

theorem getElem?_putUint16At (b : List UInt8) (i : Nat) (v : UInt16) (j : Nat) :
    (putUint16At b i v)[j]? =
      if j = i + 1 then b[j]?.map fun _ => v.toUInt8
      else if j = i then b[j]?.map fun _ => (v >>> 8).toUInt8 else b[j]? := by
  unfold putUint16At
  rw [List.getElem?_set, List.getElem?_set, List.length_set]
  by_cases second : j = i + 1
  · subst second
    rw [if_pos rfl, if_pos rfl]
    by_cases inside : i + 1 < b.length
    · rw [if_pos inside, List.getElem?_eq_getElem inside, Option.map_some]
    · rw [if_neg inside, List.getElem?_eq_none (by omega), Option.map_none]
  · rw [if_neg (Ne.symm second), if_neg second]
    by_cases first : j = i
    · subst first
      rw [if_pos rfl, if_pos rfl]
      by_cases inside : j < b.length
      · rw [if_pos inside, List.getElem?_eq_getElem inside, Option.map_some]
      · rw [if_neg inside, List.getElem?_eq_none (by omega), Option.map_none]
    · rw [if_neg (Ne.symm first), if_neg first]

theorem getElem?_putUint16At_of_ne {b : List UInt8} {i j : Nat} (v : UInt16) (high : j ≠ i) (low : j ≠ i + 1) :
    (putUint16At b i v)[j]? = b[j]? := by
  rw [getElem?_putUint16At, if_neg low, if_neg high]

theorem toNat_highByte (v : UInt16) : (v >>> 8).toUInt8.toNat = v.toNat / 256 := by
  have := v.toNat_lt
  rw [UInt16.toNat_toUInt8, UInt16.toNat_shiftRight]
  simp only [UInt16.reduceToNat, Nat.reduceMod, Nat.shiftRight_eq_div_pow, Nat.reducePow]
  omega

theorem toNat_lowByte (v : UInt16) : v.toUInt8.toNat = v.toNat % 256 :=
  UInt16.toNat_toUInt8 v

theorem uint16_of_bytes (v : UInt16) : ((v >>> 8).toUInt8.toUInt16 <<< 8) ||| v.toUInt8.toUInt16 = v := by
  apply UInt16.toNat_inj.mp
  have small := v.toNat_lt
  have high : ((v >>> 8).toUInt8.toUInt16 <<< 8).toNat = (v.toNat / 256) <<< 8 := by
    rw [UInt16.toNat_shiftLeft, UInt8.toNat_toUInt16, toNat_highByte]
    simp only [UInt16.reduceToNat, Nat.reduceMod, Nat.shiftLeft_eq, Nat.reducePow]
    omega
  have lowSmall : v.toNat % 256 < 2 ^ 8 := Nat.mod_lt _ (by decide)
  rw [UInt16.toNat_or, high, UInt8.toNat_toUInt16, toNat_lowByte, ← Nat.shiftLeft_add_eq_or_of_lt lowSmall,
    Nat.shiftLeft_eq]
  omega

theorem uint16At_putUint16At_self {b : List UInt8} {i : Nat} (v : UInt16) (inside : i + 1 < b.length) :
    uint16At (putUint16At b i v) i = v := by
  have high : (putUint16At b i v)[i]? = some (v >>> 8).toUInt8 := by
    rw [getElem?_putUint16At, if_neg (by omega), if_pos rfl, List.getElem?_eq_getElem (by omega), Option.map_some]
  have low : (putUint16At b i v)[i + 1]? = some v.toUInt8 := by
    rw [getElem?_putUint16At, if_pos rfl, List.getElem?_eq_getElem inside, Option.map_some]
  rw [uint16At, List.getD_eq_getElem?_getD, List.getD_eq_getElem?_getD, high, low, Option.getD_some,
    Option.getD_some, uint16_of_bytes]

theorem uint16At_congr {b b' : List UInt8} {i : Nat} (high : b[i]? = b'[i]?) (low : b[i + 1]? = b'[i + 1]?) :
    uint16At b i = uint16At b' i := by
  rw [uint16At, uint16At, List.getD_eq_getElem?_getD, List.getD_eq_getElem?_getD, high, low,
    ← List.getD_eq_getElem?_getD, ← List.getD_eq_getElem?_getD]

theorem uint16At_append {b : List UInt8} {i : Nat} (rest : List UInt8) (inside : i + 1 < b.length) :
    uint16At (b ++ rest) i = uint16At b i :=
  uint16At_congr (List.getElem?_append_left (by omega)) (List.getElem?_append_left inside)

theorem uint16At_take (b : List UInt8) {i k : Nat} (inside : i + 1 < k) : uint16At (b.take k) i = uint16At b i :=
  uint16At_congr (by rw [List.getElem?_take, if_pos (by omega)]) (by rw [List.getElem?_take, if_pos inside])

theorem putUint16At_append {b : List UInt8} {i : Nat} (rest : List UInt8) (v : UInt16) (inside : i + 1 < b.length) :
    putUint16At (b ++ rest) i v = putUint16At b i v ++ rest := by
  rw [putUint16At, List.set_append_left _ _ (by omega), List.set_append_left _ _ (by rw [List.length_set]; exact inside),
    putUint16At]

theorem take_putUint16At (b : List UInt8) (i : Nat) (v : UInt16) (k : Nat) :
    (putUint16At b i v).take k = putUint16At (b.take k) i v := by
  rw [putUint16At, List.take_set, List.take_set, putUint16At]

theorem putUint16At_putUint16At_self (b : List UInt8) (i : Nat) (v w : UInt16) :
    putUint16At (putUint16At b i v) i w = putUint16At b i w := by
  apply List.ext_getElem?
  intro j
  simp only [getElem?_putUint16At]
  split_ifs <;> simp [Option.map_map, Function.comp_def]

theorem putUint16At_comm (b : List UInt8) {i j : Nat} (v w : UInt16) (before : i + 1 < j) :
    putUint16At (putUint16At b j v) i w = putUint16At (putUint16At b i w) j v := by
  apply List.ext_getElem?
  intro k
  simp only [getElem?_putUint16At]
  split_ifs <;> first | omega | simp

theorem sum_words_putUint16At (v : UInt16) :
    ∀ (j : Nat) (b : List UInt8), 2 * j + 1 < b.length →
      (words (putUint16At b (2 * j) v)).sum = (words (putUint16At b (2 * j) 0)).sum + v.toNat
  | 0, hi :: lo :: rest, _ => by
      have split : (v >>> 8).toUInt8.toNat * 256 + v.toUInt8.toNat = v.toNat := by
        rw [toNat_highByte, toNat_lowByte]
        omega
      have zero : ((0 : UInt16) >>> 8).toUInt8.toNat = 0 ∧ (0 : UInt16).toUInt8.toNat = 0 := by decide
      simp only [putUint16At, Nat.mul_zero, List.set_cons_zero, List.set_cons_succ, words, List.sum_cons,
        zero.1, zero.2]
      rw [split, Nat.zero_mul, Nat.zero_add, Nat.add_comm]
  | j + 1, hi :: lo :: rest, inside => by
      have later := sum_words_putUint16At v j rest (by simp only [List.length_cons] at inside; omega)
      have shifted (w : UInt16) :
          putUint16At (hi :: lo :: rest) (2 * (j + 1)) w = hi :: lo :: putUint16At rest (2 * j) w := by
        rw [show 2 * (j + 1) = 2 * j + 1 + 1 by omega]
        simp only [putUint16At, List.set_cons_succ]
      rw [shifted, shifted, words, words, List.sum_cons, List.sum_cons, later]
      omega
  | _, [], inside => absurd inside (by simp)
  | _, [_], inside => absurd inside (by simp)

namespace IPv4

/-! ### Fields read and written -/

theorem toNat_headerLength (b : IPv4) : b.headerLength.toNat = ((b.getD 0 0).toNat % 16) * 4 := by
  have nibble : (b.getD 0 0 &&& 0xf).toNat = (b.getD 0 0).toNat % 16 := by
    rw [UInt8.toNat_and]
    exact Nat.and_two_pow_sub_one_eq_mod _ 4
  rw [headerLength, UInt8.toNat_mul, nibble]
  have := Nat.mod_lt (b.getD 0 0).toNat (show 0 < 16 by decide)
  simp only [UInt8.reduceToNat]
  omega

theorem headerLength_le (b : IPv4) : b.headerLength.toNat ≤ 60 := by
  have := Nat.mod_lt (b.getD 0 0).toNat (show 0 < 16 by decide)
  rw [toNat_headerLength]
  omega

theorem headerLength_putUint16At (b : IPv4) {i : Nat} (v : UInt16) (later : 0 < i) :
    headerLength (putUint16At b i v) = headerLength b := by
  rw [headerLength, headerLength, List.getD_eq_getElem?_getD, List.getD_eq_getElem?_getD,
    getElem?_putUint16At_of_ne v (by omega) (by omega)]

theorem headerLength_append {b : IPv4} (rest : List UInt8) (nonempty : b ≠ []) :
    headerLength (b ++ rest) = headerLength b := by
  obtain ⟨x, tail, rfl⟩ := List.exists_cons_of_ne_nil nonempty
  rfl

theorem headerLength_take (b : IPv4) {k : Nat} (positive : 0 < k) : headerLength (b.take k) = headerLength b := by
  cases b with
  | nil => rw [List.take_nil]
  | cons x tail =>
      obtain ⟨k, rfl⟩ := Nat.exists_eq_add_of_lt positive
      rfl

@[simp] theorem length_setTotalLength (b : IPv4) (v : UInt16) : (b.setTotalLength v).length = b.length :=
  length_putUint16At b 2 v

@[simp] theorem length_setChecksum (b : IPv4) (v : UInt16) : (b.setChecksum v).length = b.length :=
  length_putUint16At b 10 v

@[simp] theorem length_setFlagsFragmentOffset (b : IPv4) (flags : UInt8) (offset : UInt16) :
    (b.setFlagsFragmentOffset flags offset).length = b.length :=
  length_putUint16At b 6 _

theorem toNat_flagsFragmentOffset {flags : UInt8} (threeBits : flags.toNat < 8) (offset : UInt16) :
    ((flags.toUInt16 <<< 13) ||| (offset >>> 3)).toNat = flags.toNat * 8192 + offset.toNat / 8 := by
  have low : offset.toNat / 8 < 2 ^ 13 := by have := offset.toNat_lt; omega
  rw [UInt16.toNat_or, UInt16.toNat_shiftLeft, UInt16.toNat_shiftRight, UInt8.toNat_toUInt16]
  simp only [UInt16.reduceToNat, Nat.reduceMod, Nat.shiftRight_eq_div_pow, Nat.reducePow]
  rw [Nat.mod_eq_of_lt (by rw [Nat.shiftLeft_eq]; omega), ← Nat.shiftLeft_add_eq_or_of_lt low, Nat.shiftLeft_eq]

theorem flags_setFlagsFragmentOffset {b : IPv4} {flags : UInt8} (threeBits : flags.toNat < 8) (offset : UInt16)
    (inside : 7 < b.length) : (b.setFlagsFragmentOffset flags offset).flags = flags := by
  apply UInt8.toNat_inj.mp
  have word := toNat_flagsFragmentOffset threeBits offset
  have small : offset.toNat / 8 < 8192 := by have := offset.toNat_lt; omega
  rw [IPv4.flags, setFlagsFragmentOffset, uint16At_putUint16At_self _ inside, UInt16.toNat_toUInt8,
    UInt16.toNat_shiftRight, word]
  simp only [UInt16.reduceToNat, Nat.reduceMod, Nat.shiftRight_eq_div_pow, Nat.reducePow]
  omega

theorem fragmentOffset_setFlagsFragmentOffset {b : IPv4} {flags : UInt8} (threeBits : flags.toNat < 8)
    {offset : UInt16} (aligned : offset.toNat % 8 = 0) (inside : 7 < b.length) :
    (b.setFlagsFragmentOffset flags offset).fragmentOffset = offset := by
  apply UInt16.toNat_inj.mp
  have word := toNat_flagsFragmentOffset threeBits offset
  have small := offset.toNat_lt
  rw [fragmentOffset, setFlagsFragmentOffset, uint16At_putUint16At_self _ inside, UInt16.toNat_shiftLeft, word]
  simp only [UInt16.reduceToNat, Nat.reduceMod, Nat.shiftLeft_eq, Nat.reducePow]
  omega

theorem flags_lt (b : IPv4) : b.flags.toNat < 8 := by
  have := (uint16At b 6).toNat_lt
  rw [IPv4.flags, UInt16.toNat_toUInt8, UInt16.toNat_shiftRight]
  simp only [UInt16.reduceToNat, Nat.reduceMod, Nat.shiftRight_eq_div_pow, Nat.reducePow]
  omega

theorem calculateChecksum_append {b : IPv4} (rest : List UInt8) (within : b.headerLength.toNat ≤ b.length)
    (nonempty : b ≠ []) : calculateChecksum (b ++ rest) = b.calculateChecksum := by
  rw [calculateChecksum, calculateChecksum, headerLength_append rest nonempty, List.take_append_of_le_length within]

/-! ### Sealing the fields -/

section SetFields

variable (b : IPv4) (totalLength : UInt16) (flags : UInt8) (offset : UInt16)

@[simp] theorem length_setFields : (b.setFields totalLength flags offset).length = b.length := by
  simp [setFields]

theorem headerLength_setFields : (b.setFields totalLength flags offset).headerLength = b.headerLength := by
  simp only [setFields, setChecksum, setFlagsFragmentOffset, setTotalLength]
  rw [headerLength_putUint16At _ _ (by decide), headerLength_putUint16At _ _ (by decide),
    headerLength_putUint16At _ _ (by decide), headerLength_putUint16At _ _ (by decide)]

theorem getElem?_setFields_of_not_sealed {j : Nat} (kept : ¬SealedByte j) :
    (b.setFields totalLength flags offset)[j]? = b[j]? := by
  simp only [SealedByte, not_or] at kept
  obtain ⟨two, three, six, seven, ten, eleven⟩ := kept
  simp only [setFields, setChecksum, setFlagsFragmentOffset, setTotalLength]
  rw [getElem?_putUint16At_of_ne _ ten eleven, getElem?_putUint16At_of_ne _ ten eleven,
    getElem?_putUint16At_of_ne _ six seven, getElem?_putUint16At_of_ne _ two three]

theorem uint16At_setFields {i : Nat} (before : i + 1 < 10) :
    uint16At (b.setFields totalLength flags offset) i =
      uint16At ((b.setTotalLength totalLength).setFlagsFragmentOffset flags offset) i := by
  simp only [setFields, setChecksum]
  apply uint16At_congr
  · rw [getElem?_putUint16At_of_ne _ (by omega) (by omega), getElem?_putUint16At_of_ne _ (by omega) (by omega)]
  · rw [getElem?_putUint16At_of_ne _ (by omega) (by omega), getElem?_putUint16At_of_ne _ (by omega) (by omega)]

variable {b}

theorem totalLength_setFields (inside : 11 < b.length) :
    (b.setFields totalLength flags offset).totalLength = totalLength := by
  rw [IPv4.totalLength, uint16At_setFields _ _ _ _ (by decide), setFlagsFragmentOffset]
  have kept : uint16At (putUint16At (b.setTotalLength totalLength) 6 ((flags.toUInt16 <<< 13) ||| (offset >>> 3))) 2 =
      uint16At (b.setTotalLength totalLength) 2 :=
    uint16At_congr (getElem?_putUint16At_of_ne _ (by decide) (by decide))
      (getElem?_putUint16At_of_ne _ (by decide) (by decide))
  rw [kept, setTotalLength, uint16At_putUint16At_self _ (by omega)]

variable {flags}

theorem flags_setFields (threeBits : flags.toNat < 8) (inside : 11 < b.length) :
    (b.setFields totalLength flags offset).flags = flags := by
  rw [IPv4.flags, uint16At_setFields _ _ _ _ (by decide), ← IPv4.flags,
    flags_setFlagsFragmentOffset threeBits offset (by rw [length_setTotalLength]; omega)]

theorem fragmentOffset_setFields (threeBits : flags.toNat < 8) (aligned : offset.toNat % 8 = 0)
    (inside : 11 < b.length) : (b.setFields totalLength flags offset).fragmentOffset = offset := by
  rw [fragmentOffset, uint16At_setFields _ _ _ _ (by decide), ← fragmentOffset,
    fragmentOffset_setFlagsFragmentOffset threeBits aligned (by rw [length_setTotalLength]; omega)]

variable (flags)

theorem calculateChecksum_setFields (twelve : 12 ≤ b.headerLength.toNat) (within : b.headerLength.toNat ≤ b.length) :
    (b.setFields totalLength flags offset).calculateChecksum = 0xffff := by
  generalize fieldsSet : (b.setTotalLength totalLength).setFlagsFragmentOffset flags offset = y
  have sameLength : y.length = b.length := by rw [← fieldsSet, length_setFlagsFragmentOffset, length_setTotalLength]
  have sameHeader : y.headerLength = b.headerLength := by
    rw [← fieldsSet, setFlagsFragmentOffset, headerLength_putUint16At _ _ (by decide), setTotalLength,
      headerLength_putUint16At _ _ (by decide)]
  -- the header's bytes, with a checksum field `v`
  have bytes (v : UInt16) : ((y.setChecksum 0).setChecksum v).take b.headerLength.toNat =
      putUint16At (y.take b.headerLength.toNat) (2 * 5) v := by
    rw [setChecksum, setChecksum, putUint16At_putUint16At_self, take_putUint16At]
  have short (v : UInt16) : (putUint16At (y.take b.headerLength.toNat) (2 * 5) v).length < 2 ^ 17 := by
    have := headerLength_le b
    rw [length_putUint16At, List.length_take]
    omega
  have headerOf (v : UInt16) : ((y.setChecksum 0).setChecksum v).headerLength = b.headerLength := by
    rw [setChecksum, setChecksum, headerLength_putUint16At _ _ (by decide), headerLength_putUint16At _ _ (by decide),
      sameHeader]
  have inside : 2 * 5 + 1 < (y.take b.headerLength.toNat).length := by
    rw [List.length_take]
    omega
  have cleared : (y.setChecksum 0).calculateChecksum.toNat =
      OnesComplement.fold (words (putUint16At (y.take b.headerLength.toNat) (2 * 5) 0)).sum := by
    have header : (y.setChecksum 0).headerLength = b.headerLength := by
      rw [setChecksum, headerLength_putUint16At _ _ (by decide), sameHeader]
    rw [calculateChecksum, header, setChecksum, take_putUint16At, toNat_checksum_of_short _ (short 0), rfc1071Checksum,
      OnesComplement.sum_eq_fold (by decide) words_lt, UInt16.toNat_zero, Nat.zero_add]
  simp only [setFields]
  rw [fieldsSet]
  apply UInt16.toNat_inj.mp
  rw [calculateChecksum, headerOf, bytes, toNat_checksum_of_short _ (short _), rfc1071Checksum,
    OnesComplement.sum_eq_fold (by decide) words_lt, sum_words_putUint16At _ 5 _ inside, UInt16.toNat_not, cleared,
    UInt16.toNat_zero, Nat.zero_add]
  exact OnesComplement.fold_add_complement _

theorem setFields_setFields (b : IPv4) (totalLength' : UInt16) (flags' : UInt8) (offset' : UInt16) :
    (b.setFields totalLength flags offset).setFields totalLength' flags' offset' =
      b.setFields totalLength' flags' offset' := by
  have cleared : (((b.setFields totalLength flags offset).setTotalLength totalLength').setFlagsFragmentOffset
      flags' offset').setChecksum 0 = ((b.setTotalLength totalLength').setFlagsFragmentOffset flags' offset').setChecksum 0 := by
    -- each field written later overwrites the same field written earlier
    simp only [setFields, setChecksum, setFlagsFragmentOffset, setTotalLength]
    rw [putUint16At_putUint16At_self, putUint16At_comm _ _ _ (show 2 + 1 < 10 by decide),
      putUint16At_comm _ _ _ (show 6 + 1 < 10 by decide), putUint16At_putUint16At_self,
      putUint16At_comm _ _ _ (show 2 + 1 < 6 by decide), putUint16At_putUint16At_self, putUint16At_putUint16At_self]
  generalize b.setFields totalLength flags offset = w at cleared
  simp only [setFields]
  rw [cleared]

theorem setFields_append (b : IPv4) (rest : List UInt8) (inside : 11 < b.length)
    (within : b.headerLength.toNat ≤ b.length) :
    (b ++ rest).setFields totalLength flags offset = b.setFields totalLength flags offset ++ rest := by
  have nonempty : b ≠ [] := List.ne_nil_of_length_pos (by omega)
  have cleared : (((b ++ rest).setTotalLength totalLength).setFlagsFragmentOffset flags offset).setChecksum 0 =
      (((b.setTotalLength totalLength).setFlagsFragmentOffset flags offset).setChecksum 0) ++ rest := by
    simp only [setChecksum, setFlagsFragmentOffset, setTotalLength]
    rw [putUint16At_append _ _ (by omega), putUint16At_append _ _ (by simp; omega),
      putUint16At_append _ _ (by simp; omega)]
  have sameHeader : (((b.setTotalLength totalLength).setFlagsFragmentOffset flags offset).setChecksum 0).headerLength =
      b.headerLength := by
    simp only [setChecksum, setFlagsFragmentOffset, setTotalLength]
    rw [headerLength_putUint16At _ _ (by decide), headerLength_putUint16At _ _ (by decide),
      headerLength_putUint16At _ _ (by decide)]
  simp only [setFields]
  rw [cleared, calculateChecksum_append _
      (by rw [sameHeader, length_setChecksum, length_setFlagsFragmentOffset, length_setTotalLength]; exact within)
      (List.ne_nil_of_length_pos (by simp; omega)),
    setChecksum, putUint16At_append _ _ (by simp; omega)]
  rfl

end SetFields

end IPv4

theorem ipv4FragmentHash_congr (hashIV : UInt32) {b b' : IPv4} (agree : ∀ j, ¬IPv4.SealedByte j → b[j]? = b'[j]?) :
    ipv4FragmentHash hashIV b = ipv4FragmentHash hashIV b' := by
  have field (j : Nat) (kept : ¬IPv4.SealedByte j) : b.getD j 0 = b'.getD j 0 := by
    rw [List.getD_eq_getElem?_getD, List.getD_eq_getElem?_getD, agree j kept]
  have address (start : Nat) (after : 12 ≤ start) : (b.drop start).take 4 = (b'.drop start).take 4 := by
    apply List.ext_getElem?
    intro i
    rw [List.getElem?_take, List.getElem?_take, List.getElem?_drop, List.getElem?_drop,
      agree _ (by simp only [IPv4.SealedByte]; omega)]
  simp only [ipv4FragmentHash, IPv4.id, IPv4.protocol, IPv4.sourceAddress, IPv4.destinationAddress]
  rw [uint16At_congr (agree 4 (by decide)) (agree 5 (by decide)), field 9 (by decide), address 12 (Nat.le_refl 12),
    address 16 (by decide)]

end Cijitter.Header
