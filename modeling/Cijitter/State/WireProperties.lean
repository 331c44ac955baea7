import Cijitter.State.Wire
import Mathlib

/-! Round trips of the state wire format: `Load` reads back what `Save`
wrote, followed by anything, and leaves exactly what followed. The integer
codecs round-trip on every value; objects round-trip under the invariants
the encoder keeps (`Object.WellFormed`). -/

set_option autoImplicit false

namespace Cijitter.Wire

open Decoder

/-! ## The varint codec -/

theorem toNat_or_shiftLeft {u x : UInt64} {s : Nat} (low : u.toNat < 2 ^ s) (fits : x.toNat * 2 ^ s < 2 ^ 64)
    (width : s < 64) : (u ||| x <<< UInt64.ofNat s).toNat = u.toNat + x.toNat * 2 ^ s := by
  have shift : (UInt64.ofNat s).toNat % 64 = s := by
    rw [UInt64.toNat_ofNat_of_lt' (by change s < 2 ^ 64; omega), Nat.mod_eq_of_lt width]
  rw [UInt64.toNat_or, UInt64.toNat_shiftLeft, shift, Nat.shiftLeft_eq, Nat.mod_eq_of_lt fits, Nat.or_comm,
    ← Nat.shiftLeft_eq, ← Nat.shiftLeft_add_eq_or_of_lt low, Nat.shiftLeft_eq, Nat.add_comm]

theorem mul_two_pow_lt {x n s : Nat} (lt : x < 2 ^ n) (width : s + n ≤ 64) : x * 2 ^ s < 2 ^ 64 :=
  calc x * 2 ^ s < 2 ^ n * 2 ^ s := Nat.mul_lt_mul_of_pos_right lt (Nat.two_pow_pos s)
    _ = 2 ^ (s + n) := by rw [← Nat.pow_add, Nat.add_comm]
    _ ≤ 2 ^ 64 := Nat.pow_le_pow_right (by decide) width

theorem toUInt64_toUInt8_of_lt {v : UInt64} (small : v.toNat < 2 ^ 8) : v.toUInt8.toUInt64 = v := by
  rw [← UInt64.toNat_inj]
  simpa using Nat.mod_eq_of_lt small

theorem continued_low {v : UInt64} : ((v.toUInt8 ||| 0x80) &&& 0x7f).toUInt64.toNat = v.toNat % 2 ^ 7 := by
  have low : ∀ n : Nat, (n ||| 2 ^ 7) &&& (2 ^ 7 - 1) = n % 2 ^ 7 := by
    intro n
    rw [Nat.and_two_pow_sub_one_eq_mod, Nat.or_mod_two_pow, Nat.mod_self, Nat.or_zero]
  simpa [Nat.mod_mod_of_dvd] using low (v.toNat % 256)

theorem continued_high {v : UInt64} : ¬v.toUInt8 ||| 0x80 < 0x80 := by
  rw [UInt8.lt_iff_toNat_lt, UInt8.toNat_or]
  exact Nat.not_lt.mpr Nat.right_le_or

theorem saveUintLoop_of_lt {v : UInt64} (small : v < 0x80) (fuel : Nat) : saveUintLoop fuel v = [v.toUInt8] := by
  cases fuel with
  | zero => rfl
  | succ fuel => simp [saveUintLoop, UInt64.not_le.mpr small]

theorem saveUintLoop_of_le {v : UInt64} (large : 0x80 ≤ v) (fuel : Nat) :
    saveUintLoop (fuel + 1) v = (v.toUInt8 ||| 0x80) :: saveUintLoop fuel (v >>> 7) := by
  simp [saveUintLoop, large]

theorem loadUintLoop_last {u s : UInt64} {left : Nat} {b : UInt8} (last : b < 0x80) (fits : ¬(left = 0 ∧ 1 < b))
    (rest : List UInt8) : loadUintLoop u s (left + 1) (b :: rest) = some (u ||| b.toUInt64 <<< s, rest) := by
  simp [loadUintLoop, last, fits]

theorem loadUintLoop_continued {u s : UInt64} {left : Nat} {b : UInt8} (continued : ¬b < 0x80)
    (rest : List UInt8) :
    loadUintLoop u s (left + 1) (b :: rest) = loadUintLoop (u ||| (b &&& 0x7f).toUInt64 <<< s) (s + 7) left rest := by
  simp [loadUintLoop, continued]

theorem loadUintLoop_saveUintLoop (rest : List UInt8) (left : Nat) :
    ∀ (fuel : Nat) (u v : UInt64) (s : Nat), left ≤ fuel → v.toNat < 2 ^ (7 * left + 1) →
      u.toNat < 2 ^ s → s + 7 * left + 1 ≤ 64 →
      loadUintLoop u (UInt64.ofNat s) (left + 1) (saveUintLoop fuel v ++ rest) =
        some (u ||| v <<< UInt64.ofNat s, rest) := by
  induction left with
  | zero =>
      intro fuel u v s _ small _ _
      have byte : v < 0x80 := by rw [UInt64.lt_iff_toNat_lt]; simp at small ⊢; omega
      rw [saveUintLoop_of_lt byte, List.singleton_append,
        loadUintLoop_last (by rw [UInt8.lt_iff_toNat_lt]; simp; omega) (by simp [UInt8.lt_iff_toNat_lt]; omega),
        toUInt64_toUInt8_of_lt (by simp at small; omega)]
  | succ left ih =>
      intro fuel u v s enough small low width
      obtain ⟨fuel, rfl⟩ : ∃ f, fuel = f + 1 := ⟨fuel - 1, by omega⟩
      by_cases byte : v < 0x80
      · rw [saveUintLoop_of_lt byte, List.singleton_append,
          loadUintLoop_last (by rw [UInt8.lt_iff_toNat_lt, UInt64.lt_iff_toNat_lt] at *; simp at *; omega)
            (by omega),
          toUInt64_toUInt8_of_lt (by rw [UInt64.lt_iff_toNat_lt] at byte; simp at byte; omega)]
      -- a continued byte: the low seven bits go below `s`, the rest is written from `s + 7`
      have shifted : (v >>> 7).toNat = v.toNat / 2 ^ 7 := by simp [Nat.shiftRight_eq_div_pow]
      have next : UInt64.ofNat s + 7 = UInt64.ofNat (s + 7) := by
        rw [UInt64.ofNat_add]
        rfl
      have lowBound : v.toNat % 2 ^ 7 * 2 ^ s + 2 ^ s ≤ 2 ^ 7 * 2 ^ s := by
        rw [← Nat.succ_mul]
        exact Nat.mul_le_mul_right _ (Nat.mod_lt _ (by decide))
      have readLow : (u ||| ((v.toUInt8 ||| 0x80) &&& 0x7f).toUInt64 <<< UInt64.ofNat s).toNat =
          u.toNat + v.toNat % 2 ^ 7 * 2 ^ s := by
        rw [toNat_or_shiftLeft low (by rw [continued_low]; exact mul_two_pow_lt (Nat.mod_lt _ (by decide)) (by omega))
          (by omega), continued_low]
      have lowSmall : (u ||| ((v.toUInt8 ||| 0x80) &&& 0x7f).toUInt64 <<< UInt64.ofNat s).toNat < 2 ^ (s + 7) := by
        rw [readLow, Nat.pow_add]
        omega
      have highSmall : (v >>> 7).toNat < 2 ^ (7 * left + 1) := by
        rw [shifted, Nat.div_lt_iff_lt_mul (by decide), ← Nat.pow_add]
        exact Nat.lt_of_lt_of_le small (Nat.pow_le_pow_right (by decide) (by omega))
      rw [saveUintLoop_of_le (by rw [UInt64.not_lt] at byte; exact byte), List.cons_append,
        loadUintLoop_continued continued_high, next,
        ih fuel (u ||| ((v.toUInt8 ||| 0x80) &&& 0x7f).toUInt64 <<< UInt64.ofNat s) (v >>> 7) (s + 7)
          (by omega) highSmall lowSmall (by omega)]
      congr 2
      rw [← UInt64.toNat_inj, toNat_or_shiftLeft lowSmall
          (mul_two_pow_lt highSmall (by omega)) (by omega), readLow,
        toNat_or_shiftLeft low (mul_two_pow_lt small (by omega)) (by omega), shifted]
      calc u.toNat + v.toNat % 2 ^ 7 * 2 ^ s + v.toNat / 2 ^ 7 * 2 ^ (s + 7)
          = u.toNat + (v.toNat % 2 ^ 7 + 2 ^ 7 * (v.toNat / 2 ^ 7)) * 2 ^ s := by ring
        _ = u.toNat + v.toNat * 2 ^ s := by rw [Nat.mod_add_div]

theorem loadUint_saveUint (u : UInt64) (rest : List UInt8) : loadUint (saveUint u ++ rest) = some (u, rest) := by
  have back := loadUintLoop_saveUintLoop rest 9 9 0 u 0 le_rfl u.toNat_lt (by decide) (by decide)
  rw [loadUint, saveUint]
  simpa using back

/-! ## The zig-zag codec -/

theorem lt_zero_iff_toNat {i : Int64} : i < 0 ↔ 2 ^ 63 ≤ i.toUInt64.toNat := by
  have bound := i.toUInt64.toNat_lt
  rw [Int64.lt_iff_toInt_lt, Int64.toInt, BitVec.toInt, ← Int64.toBitVec_toUInt64, UInt64.toNat_toBitVec]
  split <;> simp <;> omega

theorem eq_of_toUInt64_toNat {a b : Int64} (same : a.toUInt64.toNat = b.toUInt64.toNat) : a = b := by
  rw [← Int64.toBitVec_inj, ← Int64.toBitVec_toUInt64, ← Int64.toBitVec_toUInt64 b]
  exact congrArg UInt64.toBitVec (UInt64.toNat_inj.mp same)

theorem zigzag_encode (i : Int64) :
    (if i < 0 then ~~~(i.toUInt64 <<< 1) else i.toUInt64 <<< 1).toNat =
      if 2 ^ 63 ≤ i.toUInt64.toNat then 2 ^ 65 - 1 - 2 * i.toUInt64.toNat else 2 * i.toUInt64.toNat := by
  have doubled : (i.toUInt64 <<< 1).toNat = 2 * i.toUInt64.toNat % 2 ^ 64 := by
    simp [UInt64.toNat_shiftLeft, Nat.shiftLeft_eq, Nat.mul_comm]
  have bound := i.toUInt64.toNat_lt
  by_cases negative : i < 0
  · rw [if_pos negative, if_pos (lt_zero_iff_toNat.mp negative), UInt64.toNat_not, doubled, UInt64.size]
    have := lt_zero_iff_toNat.mp negative
    omega
  · rw [if_neg negative, if_neg (mt lt_zero_iff_toNat.mpr negative), doubled]
    have := mt lt_zero_iff_toNat.mpr negative
    omega

theorem zigzag_decode (u : UInt64) :
    (if u &&& 1 ≠ 0 then ~~~(u >>> 1).toInt64 else (u >>> 1).toInt64).toUInt64.toNat =
      if u.toNat % 2 = 1 then 2 ^ 64 - 1 - u.toNat / 2 else u.toNat / 2 := by
  have odd : u &&& 1 ≠ 0 ↔ u.toNat % 2 = 1 := by
    rw [Ne, ← UInt64.toNat_inj]
    simp only [UInt64.toNat_and, UInt64.toNat_one, UInt64.toNat_zero, Nat.and_one_is_mod]
    omega
  have half : (u >>> 1).toNat = u.toNat / 2 := by simp [Nat.shiftRight_eq_div_pow]
  by_cases low : u.toNat % 2 = 1
  · rw [if_pos (odd.mpr low), if_pos low, Int64.toUInt64_not, UInt64.toUInt64_toInt64, UInt64.toNat_not, half]
    rfl
  · rw [if_neg (mt odd.mp low), if_neg low, UInt64.toUInt64_toInt64, half]

theorem loadInt_saveInt (i : Int64) (rest : List UInt8) : loadInt (saveInt i ++ rest) = some (i, rest) := by
  simp only [loadInt, saveInt, loadUint_saveUint, Option.bind_eq_bind, Option.bind_some]
  congr 2
  apply eq_of_toUInt64_toNat
  rw [zigzag_decode, zigzag_encode]
  have bound := i.toUInt64.toNat_lt
  split_ifs <;> omega

/-! ## Strings, type specs and references -/

@[simp] theorem saveUint_ne_nil (u : UInt64) : saveUint u ≠ [] := by
  rw [saveUint, saveUintLoop]
  split <;> simp

theorem length_saveUint_pos (u : UInt64) : 0 < (saveUint u).length :=
  List.length_pos_iff.mpr (saveUint_ne_nil u)

theorem loadBool_saveBool (b : Bool) (rest : List UInt8) : loadBool (saveBool b ++ rest) = some (b, rest) := by
  cases b <;> simp [loadBool, saveBool, loadUint_saveUint]

theorem loadString_saveString {s : List UInt8} (short : s.length < 2 ^ 64) (rest : List UInt8) :
    loadString (saveString s ++ rest) = some (s, rest) := by
  simp [loadString, saveString, loadUint_saveUint, UInt64.toNat_ofNat_of_lt' short]

theorem length_saveTypeSpec_pos (t : TypeSpec) : 0 < (saveTypeSpec t).length := by
  cases t <;> simp [saveTypeSpec, length_saveUint_pos]

theorem loadTypeSpec_saveTypeSpec : ∀ (fuel : Nat) (t : TypeSpec), (saveTypeSpec t).length ≤ fuel →
    ∀ rest, loadTypeSpec fuel (saveTypeSpec t ++ rest) = some (t, rest)
  | 0, t, fits, _ => absurd fits (Nat.not_le.mpr (length_saveTypeSpec_pos t))
  | fuel + 1, t, fits, rest => by
      cases t with
      | typeID id => simp [loadTypeSpec, saveTypeSpec, typeSpecTypeID, loadUint_saveUint]
      | pointer type =>
          simp only [saveTypeSpec, List.length_append] at fits
          have := length_saveUint_pos typeSpecPointer
          simp +decide [loadTypeSpec, saveTypeSpec, typeSpecTypeID, typeSpecPointer, loadUint_saveUint,
            loadTypeSpec_saveTypeSpec fuel type (by omega)]
      | array count type =>
          simp only [saveTypeSpec, List.length_append] at fits
          have := length_saveUint_pos typeSpecArray
          simp +decide [loadTypeSpec, saveTypeSpec, typeSpecTypeID, typeSpecPointer, typeSpecArray,
            loadUint_saveUint, loadTypeSpec_saveTypeSpec fuel type (by omega)]
      | slice type =>
          simp only [saveTypeSpec, List.length_append] at fits
          have := length_saveUint_pos typeSpecSlice
          simp +decide [loadTypeSpec, saveTypeSpec, typeSpecTypeID, typeSpecPointer, typeSpecArray,
            typeSpecSlice, loadUint_saveUint, loadTypeSpec_saveTypeSpec fuel type (by omega)]
      | map key value =>
          simp only [saveTypeSpec, List.length_append] at fits
          have := length_saveUint_pos typeSpecMap
          simp +decide [loadTypeSpec, saveTypeSpec, typeSpecTypeID, typeSpecPointer, typeSpecArray,
            typeSpecSlice, typeSpecMap, loadUint_saveUint, loadTypeSpec_saveTypeSpec fuel key (by omega),
            loadTypeSpec_saveTypeSpec fuel value (by omega)]
      | nil =>
          simp +decide [loadTypeSpec, saveTypeSpec, typeSpecTypeID, typeSpecPointer, typeSpecArray,
            typeSpecSlice, typeSpecMap, typeSpecNil, loadUint_saveUint]

/-- A `FieldName` is written as its negated length, so it must not be empty,
and that length a Go `int`. -/
def Dot.WellFormed : Dot → Prop
  | .index _ => True
  | .fieldName name => name ≠ [] ∧ name.length < 2 ^ 63

theorem loadDot_saveDot {d : Dot} (wellFormed : d.WellFormed) (rest : List UInt8) :
    loadDot (saveDot d ++ rest) = some (d, rest) := by
  cases d with
  | index i =>
      -- an index is below `2 ^ 32`, so its `Int` is not negative
      have nonnegative : 0 ≤ i.toUInt64.toInt64 := by
        rw [← Int64.not_lt, lt_zero_iff_toNat, UInt64.toUInt64_toInt64]
        have := i.toNat_lt
        simp only [UInt32.toNat_toUInt64]
        omega
      simp [loadDot, saveDot, loadInt_saveInt, nonnegative]
  | fieldName name =>
      obtain ⟨nonempty, short⟩ := wellFormed
      have positive : 0 < name.length := List.length_pos_iff.mpr nonempty
      have negative : ¬0 ≤ -Int64.ofNat name.length := by
        rw [Int64.le_iff_toInt_le, Int64.toInt_neg_ofNat_of_le (by omega)]
        simp
        omega
      have length : (Int64.ofNat name.length).toInt.toNat = name.length := by
        rw [Int64.toInt_ofNat_of_lt short]
        simp
      have notNegative : ¬Int64.ofNat name.length < 0 := by
        rw [Int64.lt_iff_toInt_lt, Int64.toInt_ofNat_of_lt short]
        simp
      simp only [loadDot, saveDot, List.append_assoc, loadInt_saveInt, Option.bind_eq_bind, Option.bind_some,
        negative, ↓reduceIte, Int64.neg_neg, notNegative, length, readFull_append]
      rfl

/-- A reference as `Ref.save` writes it and `loadRef` reads it back: a `Type`
exactly when there are dots, every dot well formed, and their count a Go
`int`. -/
structure Ref.WellFormed (r : Ref) : Prop where
  typed : r.type.isSome ↔ r.dots ≠ []
  dots : ∀ d ∈ r.dots, d.WellFormed
  count : r.dots.length < 2 ^ 63

theorem toNat_ofNat_length {n : Nat} (short : n < 2 ^ 63) : (UInt64.ofNat n).toNat = n :=
  UInt64.toNat_ofNat_of_lt' (Nat.lt_trans short (by decide))

theorem loadDots_saveDots {dots : List Dot} (wellFormed : ∀ d ∈ dots, d.WellFormed) (rest : List UInt8) :
    repeatLoad loadDot dots.length (dots.flatMap saveDot ++ rest) = some (dots, rest) := by
  rw [List.flatMap_def]
  apply repeatLoad_flatten
  rw [List.forall₂_map_right_iff, List.forall₂_same]
  exact fun d member => loadDot_saveDot (wellFormed d member)

theorem loadRef_saveRef {r : Ref} (wellFormed : r.WellFormed) {bytes : List UInt8} (saved : saveRef r = some bytes)
    {fuel : Nat} (fits : bytes.length ≤ fuel) (rest : List UInt8) : loadRef fuel (bytes ++ rest) = some (r, rest) := by
  obtain ⟨root, dots, type⟩ := r
  have count := toNat_ofNat_length wellFormed.count
  simp only [saveRef] at saved
  by_cases empty : dots = []
  · -- no dots: `Ref.save` writes no type and `loadRef` reads none
    subst empty
    have untyped : type = none := by simpa using wellFormed.typed
    subst untyped
    simp only [List.length_nil, show UInt64.ofNat 0 = 0 from rfl, ne_eq, not_true_eq_false, ↓reduceIte,
      Option.some.injEq] at saved
    subst saved
    simp [loadRef, loadUint_saveUint]
  · obtain ⟨t, rfl⟩ := Option.isSome_iff_exists.mp (wellFormed.typed.mpr empty)
    have nonzero : UInt64.ofNat dots.length ≠ 0 := by
      intro zero
      rw [zero, UInt64.toNat_zero] at count
      exact empty (List.length_eq_zero_iff.mp count.symm)
    simp only [ne_eq, nonzero, not_false_eq_true, ↓reduceIte, Option.some.injEq] at saved
    subst saved
    simp only [List.length_append] at fits
    simp [loadRef, loadUint_saveUint, count, loadDots_saveDots wellFormed.dots, nonzero,
      loadTypeSpec_saveTypeSpec fuel t (by omega)]

theorem loadSlice_saveSlice {s : Slice} (wellFormed : s.ref.WellFormed) {bytes : List UInt8}
    (saved : saveSlice s = some bytes) {fuel : Nat} (fits : bytes.length ≤ fuel) (rest : List UInt8) :
    loadSlice fuel (bytes ++ rest) = some (s, rest) := by
  obtain ⟨refBytes, refSaved, saved⟩ := bind_eq_some.mp saved
  simp only [pure, Option.some.injEq] at saved
  subst saved
  simp only [List.length_append] at fits
  have refBack := loadRef_saveRef wellFormed refSaved (show refBytes.length ≤ fuel by omega)
  simp [loadSlice, loadUint_saveUint, refBack]

/-- A `Type` whose name, field count and field names are Go `int` long. -/
structure TypeInfo.WellFormed (t : TypeInfo) : Prop where
  name : t.name.length < 2 ^ 63
  count : t.fields.length < 2 ^ 63
  fields : ∀ f ∈ t.fields, f.length < 2 ^ 63

theorem loadType_saveType {t : TypeInfo} (wellFormed : t.WellFormed) (rest : List UInt8) :
    loadType (saveType t ++ rest) = some (t, rest) := by
  have fields : repeatLoad loadString t.fields.length (t.fields.flatMap saveString ++ rest) = some (t.fields, rest) := by
    rw [List.flatMap_def]
    apply repeatLoad_flatten
    rw [List.forall₂_map_right_iff, List.forall₂_same]
    exact fun f member => loadString_saveString (Nat.lt_trans (wellFormed.fields f member) (by decide))
  simp [loadType, saveType, loadString_saveString (Nat.lt_trans wellFormed.name (by decide)), loadUint_saveUint,
    toNat_ofNat_length wellFormed.count, fields]

/-! ## Objects -/

/-- Objects of one dynamic type, as the elements of an array and the keys
and the values of a map are: `Load` reads all but the first with the first
one's `load`. -/
def SameTags (os : List Object) : Prop := ∀ o ∈ os, ∀ o' ∈ os, o.tag = o'.tag

instance : DecidablePred SameTags := fun os => inferInstanceAs (Decidable (∀ o ∈ os, ∀ o' ∈ os, o.tag = o'.tag))

/-- The invariants the encoder keeps on the objects it saves: the elements of
an array, the keys and the values of a map each of one dynamic type, every
reference well formed, a struct's fields one object, and every length a Go
`int`. What `Save` refuses by panicking (a map whose keys and values differ
in number, an interface whose type is `nil`, a typed-less reference with
dots) is left out by its returning `none`. -/
inductive Object.WellFormed : Object → Prop
  | bool (value : Bool) : WellFormed (.bool value)
  | int (value : Int64) : WellFormed (.int value)
  | uint (value : UInt64) : WellFormed (.uint value)
  | float32 (bits : UInt32) : WellFormed (.float32 bits)
  | float64 (bits : UInt64) : WellFormed (.float64 bits)
  | nil : WellFormed .nil
  | ref {ref : Ref} : ref.WellFormed → WellFormed (.ref ref)
  | string {bytes : List UInt8} : bytes.length < 2 ^ 63 → WellFormed (.string bytes)
  | slice {slice : Slice} : slice.ref.WellFormed → WellFormed (.slice slice)
  | array {contents : List Object} : contents.length < 2 ^ 63 → SameTags contents →
      (∀ o ∈ contents, WellFormed o) → WellFormed (.array contents)
  | map {keys values : List Object} : keys.length < 2 ^ 63 → SameTags keys → SameTags values →
      (∀ o ∈ keys, WellFormed o) → (∀ o ∈ values, WellFormed o) → WellFormed (.map keys values)
  | struct (typeID : UInt64) {fields : Object} : WellFormed fields → WellFormed (.struct typeID fields)
  | noObjects : WellFormed .noObjects
  | multipleObjects {objects : List Object} : objects.length < 2 ^ 63 → (∀ o ∈ objects, WellFormed o) →
      WellFormed (.multipleObjects objects)
  | interface (type : Option TypeSpec) {value : Object} : WellFormed value → WellFormed (.interface type value)
  | complex64 (re im : UInt32) : WellFormed (.complex64 re im)
  | complex128 (re im : UInt64) : WellFormed (.complex128 re im)
  | type {type : TypeInfo} : type.WellFormed → WellFormed (.type type)

/-! ## The branches of `saveBody` for nested objects -/

theorem saveBody_array_cons (first : Object) (rest : List Object) :
    saveBody (.array (first :: rest)) = (do
      let firstBody ← saveBody first
      let restBodies ← saveBodies rest
      pure (saveUint (UInt64.ofNat (rest.length + 1)) ++ saveUint first.tag ++ firstBody ++
        restBodies.flatten)) := rfl

theorem saveBody_map_cons (key value : Object) (otherKeys otherValues : List Object) :
    saveBody (.map (key :: otherKeys) (value :: otherValues)) =
      (if (key :: otherKeys).length ≠ (value :: otherValues).length then none
      else do
        let keyBody ← saveBody key
        let valueBody ← saveBody value
        let keyBodies ← saveBodies otherKeys
        let valueBodies ← saveBodies otherValues
        pure (saveUint (UInt64.ofNat (otherKeys.length + 1)) ++ saveUint key.tag ++ keyBody ++
          saveUint value.tag ++ valueBody ++
          ((keyBodies.zip valueBodies).map fun pair => pair.1 ++ pair.2).flatten)) := rfl

theorem saveBody_struct (typeID : UInt64) (fields : Object) :
    saveBody (.struct typeID fields) = (do
      let body ← saveBody fields
      pure (saveUint typeID ++ saveUint fields.tag ++ body)) := rfl

theorem saveBody_multipleObjects (objects : List Object) :
    saveBody (.multipleObjects objects) = (do
      let saved ← saveAll objects
      pure (saveUint (UInt64.ofNat objects.length) ++ saved.flatten)) := rfl

theorem saveBody_interface_some (type : TypeSpec) (value : Object) :
    saveBody (.interface (some type) value) = (do
      let body ← saveBody value
      pure (saveTypeSpec type ++ saveUint value.tag ++ body)) := rfl

theorem saveBodies_forall₂ : ∀ {os : List Object} {bodies : List (List UInt8)}, saveBodies os = some bodies →
    List.Forall₂ (fun o body => saveBody o = some body) os bodies
  | [], bodies, saved => by
      simp only [saveBodies, Option.some.injEq] at saved
      subst saved
      exact .nil
  | o :: os, bodies, saved => by
      rw [saveBodies, bind_eq_some] at saved
      obtain ⟨body, first, saved⟩ := saved
      obtain ⟨others, later, saved⟩ := bind_eq_some.mp saved
      simp only [pure, Option.some.injEq] at saved
      subst saved
      exact .cons first (saveBodies_forall₂ later)

theorem saveAll_forall₂ : ∀ {os : List Object} {saved : List (List UInt8)}, saveAll os = some saved →
    List.Forall₂ (fun o bytes => ∃ body, saveBody o = some body ∧ bytes = saveUint o.tag ++ body) os saved
  | [], saved, allSaved => by
      simp only [saveAll, Option.some.injEq] at allSaved
      subst allSaved
      exact .nil
  | o :: os, saved, allSaved => by
      rw [saveAll, bind_eq_some] at allSaved
      obtain ⟨body, first, allSaved⟩ := allSaved
      obtain ⟨others, later, allSaved⟩ := bind_eq_some.mp allSaved
      simp only [pure, Option.some.injEq] at allSaved
      subst allSaved
      exact .cons ⟨body, first, rfl⟩ (saveAll_forall₂ later)

/-! ## One branch of `loadBody` per tag

`loadBody`'s chain of tag tests, read off once for each tag, so that the
round-trip proofs below never unfold it. -/

section LoadBodyEquations

variable (fuel : Nat) (bytes : List UInt8)

theorem loadBody_typeBool : loadBody (fuel + 1) typeBool bytes = (do
    let (b, rest) ← loadBool bytes
    pure (.bool b, rest)) := rfl

theorem loadBody_typeInt : loadBody (fuel + 1) typeInt bytes = (do
    let (i, rest) ← loadInt bytes
    pure (.int i, rest)) := rfl

theorem loadBody_typeUint : loadBody (fuel + 1) typeUint bytes = (do
    let (u, rest) ← loadUint bytes
    pure (.uint u, rest)) := rfl

theorem loadBody_typeFloat32 : loadBody (fuel + 1) typeFloat32 bytes = (do
    let (n, rest) ← loadUint bytes
    pure (.float32 n.toUInt32, rest)) := rfl

theorem loadBody_typeFloat64 : loadBody (fuel + 1) typeFloat64 bytes = (do
    let (n, rest) ← loadUint bytes
    pure (.float64 n, rest)) := rfl

theorem loadBody_typeNil : loadBody (fuel + 1) typeNil bytes = pure (.nil, bytes) := rfl

theorem loadBody_typeRef : loadBody (fuel + 1) typeRef bytes = (do
    let (r, rest) ← loadRef fuel bytes
    pure (.ref r, rest)) := rfl

theorem loadBody_typeString : loadBody (fuel + 1) typeString bytes = (do
    let (s, rest) ← loadString bytes
    pure (.string s, rest)) := rfl

theorem loadBody_typeSlice : loadBody (fuel + 1) typeSlice bytes = (do
    let (s, rest) ← loadSlice fuel bytes
    pure (.slice s, rest)) := rfl

theorem loadBody_typeArray : loadBody (fuel + 1) typeArray bytes = (do
    let (l, rest) ← loadUint bytes
    if l = 0 then pure (.array [], rest)
    else do
      let (tag, rest) ← loadUint rest
      let (first, rest) ← loadBody fuel tag rest
      let (others, rest) ← repeatLoad (loadBody fuel first.tag) (l.toNat - 1) rest
      pure (.array (first :: others), rest)) := rfl

theorem loadBody_typeMap : loadBody (fuel + 1) typeMap bytes = (do
    let (l, rest) ← loadUint bytes
    if l = 0 then pure (.map [] [], rest)
    else do
      let (keyTag, rest) ← loadUint rest
      let (key, rest) ← loadBody fuel keyTag rest
      let (valueTag, rest) ← loadUint rest
      let (value, rest) ← loadBody fuel valueTag rest
      let (others, rest) ←
        repeatLoad (readPair (loadBody fuel key.tag) (loadBody fuel value.tag)) (l.toNat - 1) rest
      pure (.map (key :: others.map Prod.fst) (value :: others.map Prod.snd), rest)) := rfl

theorem loadBody_typeStruct : loadBody (fuel + 1) typeStruct bytes = (do
    let (typeID, rest) ← loadUint bytes
    let (tag, rest) ← loadUint rest
    let (fields, rest) ← loadBody fuel tag rest
    pure (.struct typeID fields, rest)) := rfl

theorem loadBody_typeNoObjects : loadBody (fuel + 1) typeNoObjects bytes = pure (.noObjects, bytes) := rfl

theorem loadBody_typeMultipleObjects : loadBody (fuel + 1) typeMultipleObjects bytes = (do
    let (l, rest) ← loadUint bytes
    let (objects, rest) ← repeatLoad (loadWith fuel) l.toNat rest
    pure (.multipleObjects objects, rest)) := rfl

theorem loadBody_typeInterface : loadBody (fuel + 1) typeInterface bytes = (do
    let (type, rest) ← loadTypeSpec fuel bytes
    let (tag, rest) ← loadUint rest
    let (value, rest) ← loadBody fuel tag rest
    pure (.interface (some type) value, rest)) := rfl

theorem loadBody_typeComplex64 : loadBody (fuel + 1) typeComplex64 bytes = (do
    let (re, rest) ← loadUint bytes
    let (im, rest) ← loadUint rest
    pure (.complex64 re.toUInt32 im.toUInt32, rest)) := rfl

theorem loadBody_typeComplex128 : loadBody (fuel + 1) typeComplex128 bytes = (do
    let (re, rest) ← loadUint bytes
    let (im, rest) ← loadUint rest
    pure (.complex128 re im, rest)) := rfl

theorem loadBody_typeType : loadBody (fuel + 1) typeType bytes = (do
    let (t, rest) ← loadType bytes
    pure (.type t, rest)) := rfl

end LoadBodyEquations

/-- `loadBody` with `fuel` reads back, from its tag, the body of every
well-formed object when the body is shorter than `fuel`: each level of
nesting writes a byte at least. -/
def BodiesLoad (fuel : Nat) : Prop :=
  ∀ o, o.WellFormed → ∀ body, saveBody o = some body → body.length < fuel →
    ∀ rest, loadBody fuel o.tag (body ++ rest) = some (o, rest)

section Step

variable {fuel : Nat} (back : BodiesLoad fuel)
include back

theorem bodies_back {os : List Object} {tag : UInt64} (tags : ∀ o ∈ os, o.tag = tag)
    (wellFormed : ∀ o ∈ os, o.WellFormed) {bodies : List (List UInt8)} (saved : saveBodies os = some bodies)
    (fits : bodies.flatten.length < fuel) :
    List.Forall₂ (fun o body => ∀ rest, loadBody fuel tag (body ++ rest) = some (o, rest)) os bodies := by
  have related := (List.forall₂_and_left _ _).mpr
    ⟨fun o member => And.intro (tags o member) (wellFormed o member), forall₂_length_le_flatten (saveBodies_forall₂ saved)⟩
  exact related.imp fun o body ⟨⟨sameTag, formed⟩, bodySaved, short⟩ =>
    sameTag ▸ back o formed body bodySaved (by omega)

theorem loadBody_array {first : Object} {others : List Object} (wellFormed : (Object.array (first :: others)).WellFormed)
    {body : List UInt8} (saved : saveBody (.array (first :: others)) = some body) (short : body.length < fuel + 1)
    (rest : List UInt8) : loadBody (fuel + 1) typeArray (body ++ rest) = some (.array (first :: others), rest) := by
  obtain _ | _ | _ | _ | _ | _ | _ | _ | _ | ⟨count, same, elements⟩ := wellFormed
  rw [saveBody_array_cons, bind_eq_some] at saved
  obtain ⟨firstBody, firstSaved, saved⟩ := saved
  obtain ⟨bodies, othersSaved, saved⟩ := bind_eq_some.mp saved
  simp only [pure, Option.some.injEq] at saved
  subst saved
  simp only [List.length_append] at short
  have tagWritten := length_saveUint_pos first.tag
  -- the others share the first one's tag, which is the only one written
  have othersBack := bodies_back back (fun o member => same o (.tail _ member) first (.head _))
    (fun o member => elements o (.tail _ member)) othersSaved (by omega)
  have length : (UInt64.ofNat (others.length + 1)).toNat = others.length + 1 := toNat_ofNat_length count
  have nonzero : UInt64.ofNat (others.length + 1) ≠ 0 := fun zero => by simp [zero] at length
  rw [loadBody_typeArray]
  simp only [List.append_assoc, loadUint_saveUint, Option.bind_eq_bind, Option.bind_some, nonzero, ↓reduceIte,
    back first (elements first (.head _)) firstBody firstSaved (by omega), length, Nat.add_sub_cancel,
    repeatLoad_flatten othersBack]
  rfl

theorem loadBody_map {key value : Object} {otherKeys otherValues : List Object}
    (wellFormed : (Object.map (key :: otherKeys) (value :: otherValues)).WellFormed) {body : List UInt8}
    (saved : saveBody (.map (key :: otherKeys) (value :: otherValues)) = some body) (short : body.length < fuel + 1)
    (rest : List UInt8) :
    loadBody (fuel + 1) typeMap (body ++ rest) = some (.map (key :: otherKeys) (value :: otherValues), rest) := by
  obtain _ | _ | _ | _ | _ | _ | _ | _ | _ | _ | ⟨count, sameKeys, sameValues, keysFormed, valuesFormed⟩ :=
    wellFormed
  rw [saveBody_map_cons] at saved
  split at saved
  · nomatch saved
  rename_i sameLength
  obtain ⟨keyBody, keySaved, saved⟩ := bind_eq_some.mp saved
  obtain ⟨valueBody, valueSaved, saved⟩ := bind_eq_some.mp saved
  obtain ⟨keyBodies, keysSaved, saved⟩ := bind_eq_some.mp saved
  obtain ⟨valueBodies, valuesSaved, saved⟩ := bind_eq_some.mp saved
  simp only [pure, Option.some.injEq] at saved
  subst saved
  have entries : otherKeys.length = otherValues.length := by simpa using sameLength
  have sameBodies : keyBodies.length = valueBodies.length := by
    rw [← (saveBodies_forall₂ keysSaved).length_eq, ← (saveBodies_forall₂ valuesSaved).length_eq, entries]
  simp only [List.length_append, length_flatten_zip sameBodies] at short
  have keyTag := length_saveUint_pos key.tag
  have valueTag := length_saveUint_pos value.tag
  -- after the first entry, keys are read with the first key's `load`, values with the first value's
  have keysBack := bodies_back back (fun o member => sameKeys o (.tail _ member) key (.head _))
    (fun o member => keysFormed o (.tail _ member)) keysSaved (by omega)
  have valuesBack := bodies_back back (fun o member => sameValues o (.tail _ member) value (.head _))
    (fun o member => valuesFormed o (.tail _ member)) valuesSaved (by omega)
  have entriesBack : repeatLoad (readPair (loadBody fuel key.tag) (loadBody fuel value.tag)) otherKeys.length
      (((keyBodies.zip valueBodies).map fun pair => pair.1 ++ pair.2).flatten ++ rest) =
        some (otherKeys.zip otherValues, rest) := by
    have zipLength : (otherKeys.zip otherValues).length = otherKeys.length := by
      rw [List.length_zip, entries, Nat.min_self]
    rw [← zipLength]
    exact repeatLoad_readPair keysBack valuesBack rest
  have length : (UInt64.ofNat (otherKeys.length + 1)).toNat = otherKeys.length + 1 := toNat_ofNat_length count
  have nonzero : UInt64.ofNat (otherKeys.length + 1) ≠ 0 := fun zero => by simp [zero] at length
  rw [loadBody_typeMap]
  simp only [List.append_assoc, loadUint_saveUint, Option.bind_eq_bind, Option.bind_some, nonzero, ↓reduceIte,
    back key (keysFormed key (.head _)) keyBody keySaved (by omega),
    back value (valuesFormed value (.head _)) valueBody valueSaved (by omega), length, Nat.add_sub_cancel,
    entriesBack, List.map_fst_zip (Nat.le_of_eq entries), List.map_snd_zip (Nat.le_of_eq entries.symm)]
  rfl

theorem loadBody_struct {typeID : UInt64} {fields : Object} (wellFormed : fields.WellFormed) {body : List UInt8}
    (saved : saveBody (.struct typeID fields) = some body) (short : body.length < fuel + 1) (rest : List UInt8) :
    loadBody (fuel + 1) typeStruct (body ++ rest) = some (.struct typeID fields, rest) := by
  rw [saveBody_struct] at saved
  obtain ⟨fieldsBody, fieldsSaved, saved⟩ := bind_eq_some.mp saved
  simp only [pure, Option.some.injEq] at saved
  subst saved
  simp only [List.length_append] at short
  have idWritten := length_saveUint_pos typeID
  rw [loadBody_typeStruct]
  simp only [List.append_assoc, loadUint_saveUint, Option.bind_eq_bind, Option.bind_some,
    back fields wellFormed fieldsBody fieldsSaved (by omega)]
  rfl

theorem loadBody_multipleObjects {objects : List Object} (count : objects.length < 2 ^ 63)
    (wellFormed : ∀ o ∈ objects, o.WellFormed) {body : List UInt8}
    (saved : saveBody (.multipleObjects objects) = some body) (short : body.length < fuel + 1) (rest : List UInt8) :
    loadBody (fuel + 1) typeMultipleObjects (body ++ rest) = some (.multipleObjects objects, rest) := by
  rw [saveBody_multipleObjects] at saved
  obtain ⟨allSaved, objectsSaved, saved⟩ := bind_eq_some.mp saved
  simp only [pure, Option.some.injEq] at saved
  subst saved
  simp only [List.length_append] at short
  -- each field is written by `Save` and read back by `Load`: its tag, then its body
  have related := (List.forall₂_and_left _ _).mpr
    ⟨wellFormed, forall₂_length_le_flatten (saveAll_forall₂ objectsSaved)⟩
  have objectsBack : List.Forall₂ (fun o bytes => ∀ rest, loadWith fuel (bytes ++ rest) = some (o, rest))
      objects allSaved :=
    related.imp fun o bytes ⟨formed, ⟨objectBody, objectSaved, written⟩, fits⟩ rest => by
      subst written
      simp only [List.length_append] at fits
      have := length_saveUint_pos o.tag
      simp only [loadWith, List.append_assoc, loadUint_saveUint, Option.bind_eq_bind, Option.bind_some,
        back o formed objectBody objectSaved (by omega)]
  rw [loadBody_typeMultipleObjects]
  simp only [List.append_assoc, loadUint_saveUint, Option.bind_eq_bind, Option.bind_some, toNat_ofNat_length count]
  rw [repeatLoad_flatten objectsBack]
  rfl

theorem loadBody_interface {type : TypeSpec} {value : Object} (wellFormed : value.WellFormed) {body : List UInt8}
    (saved : saveBody (.interface (some type) value) = some body) (short : body.length < fuel + 1)
    (rest : List UInt8) :
    loadBody (fuel + 1) typeInterface (body ++ rest) = some (.interface (some type) value, rest) := by
  rw [saveBody_interface_some] at saved
  obtain ⟨valueBody, valueSaved, saved⟩ := bind_eq_some.mp saved
  simp only [pure, Option.some.injEq] at saved
  subst saved
  simp only [List.length_append] at short
  have tagWritten := length_saveUint_pos value.tag
  have typeWritten := length_saveTypeSpec_pos type
  rw [loadBody_typeInterface]
  simp only [List.append_assoc, loadTypeSpec_saveTypeSpec fuel type (by omega), loadUint_saveUint,
    Option.bind_eq_bind, Option.bind_some, back value wellFormed valueBody valueSaved (by omega)]
  rfl

theorem bodiesLoad_succ : BodiesLoad (fuel + 1) := by
  intro o wellFormed body saved short rest
  cases wellFormed with
  | bool value =>
      simp only [saveBody, Option.some.injEq] at saved
      subst saved
      change loadBody _ typeBool _ = _
      rw [loadBody_typeBool]
      simp [loadBool_saveBool]
  | int value =>
      simp only [saveBody, Option.some.injEq] at saved
      subst saved
      change loadBody _ typeInt _ = _
      rw [loadBody_typeInt]
      simp [loadInt_saveInt]
  | uint value =>
      simp only [saveBody, Option.some.injEq] at saved
      subst saved
      change loadBody _ typeUint _ = _
      rw [loadBody_typeUint]
      simp [loadUint_saveUint]
  | float32 bits =>
      simp only [saveBody, Option.some.injEq] at saved
      subst saved
      change loadBody _ typeFloat32 _ = _
      rw [loadBody_typeFloat32]
      simp [loadUint_saveUint]
  | float64 bits =>
      simp only [saveBody, Option.some.injEq] at saved
      subst saved
      change loadBody _ typeFloat64 _ = _
      rw [loadBody_typeFloat64]
      simp [loadUint_saveUint]
  | nil =>
      simp only [saveBody, Option.some.injEq] at saved
      subst saved
      change loadBody _ typeNil _ = _
      rw [loadBody_typeNil]
      rfl
  | ref formed =>
      change loadBody _ typeRef _ = _
      rw [loadBody_typeRef]
      simp [loadRef_saveRef formed saved (Nat.le_of_lt_succ short)]
  | string length =>
      simp only [saveBody, Option.some.injEq] at saved
      subst saved
      change loadBody _ typeString _ = _
      rw [loadBody_typeString]
      simp [loadString_saveString (Nat.lt_trans length (by decide))]
  | slice formed =>
      change loadBody _ typeSlice _ = _
      rw [loadBody_typeSlice]
      simp [loadSlice_saveSlice formed saved (Nat.le_of_lt_succ short)]
  | array count same elements =>
      cases ‹List Object› with
      | nil =>
          simp only [saveBody, Option.some.injEq] at saved
          subst saved
          change loadBody _ typeArray _ = _
          rw [loadBody_typeArray]
          simp [loadUint_saveUint]
      | cons first others => exact loadBody_array back (.array count same elements) saved short rest
  | map count sameKeys sameValues keysFormed valuesFormed =>
      rename_i keys values
      cases keys with
      | nil =>
          cases values with
          | nil =>
              simp only [saveBody, List.length_nil, ne_eq, not_true_eq_false, ↓reduceIte, Option.some.injEq] at saved
              subst saved
              change loadBody _ typeMap _ = _
              rw [loadBody_typeMap]
              simp [loadUint_saveUint]
          | cons _ _ => simp [saveBody] at saved
      | cons key otherKeys =>
          cases values with
          | nil => simp [saveBody] at saved
          | cons value otherValues =>
              exact loadBody_map back (.map count sameKeys sameValues keysFormed valuesFormed) saved short rest
  | struct typeID formed => exact loadBody_struct back formed saved short rest
  | noObjects =>
      simp only [saveBody, Option.some.injEq] at saved
      subst saved
      change loadBody _ typeNoObjects _ = _
      rw [loadBody_typeNoObjects]
      rfl
  | multipleObjects count formed => exact loadBody_multipleObjects back count formed saved short rest
  | interface type formed =>
      cases type with
      | none => simp [saveBody] at saved
      | some type => exact loadBody_interface back formed saved short rest
  | complex64 re im =>
      simp only [saveBody, Option.some.injEq] at saved
      subst saved
      change loadBody _ typeComplex64 _ = _
      rw [loadBody_typeComplex64]
      simp [loadUint_saveUint]
  | complex128 re im =>
      simp only [saveBody, Option.some.injEq] at saved
      subst saved
      change loadBody _ typeComplex128 _ = _
      rw [loadBody_typeComplex128]
      simp [loadUint_saveUint]
  | type formed =>
      simp only [saveBody, Option.some.injEq] at saved
      subst saved
      change loadBody _ typeType _ = _
      rw [loadBody_typeType]
      simp [loadType_saveType formed]

end Step

theorem bodiesLoad : ∀ fuel, BodiesLoad fuel
  | 0 => fun _ _ _ _ short => absurd short (Nat.not_lt_zero _)
  | fuel + 1 => bodiesLoad_succ (bodiesLoad fuel)

/-- The state wire format round-trips. Every `uint64` and every `int64` is
read back from its varint and its zig-zag code; every object that keeps the
encoder's invariants and that `Save` writes is read back by `Load`, from
those bytes followed by anything, which `Load` leaves unread. -/
theorem load_save_round_trip :
    (∀ u rest, loadUint (saveUint u ++ rest) = some (u, rest)) ∧
    (∀ i rest, loadInt (saveInt i ++ rest) = some (i, rest)) ∧
    ∀ o : Object, o.WellFormed → ∀ bytes, save o = some bytes → ∀ rest, load (bytes ++ rest) = some (o, rest) := by
  refine ⟨loadUint_saveUint, loadInt_saveInt, ?_⟩
  intro o wellFormed bytes saved rest
  obtain ⟨body, bodySaved, written⟩ := Option.map_eq_some_iff.mp saved
  subst written
  have tagWritten := length_saveUint_pos o.tag
  simp only [load, loadWith, List.append_assoc, loadUint_saveUint, Option.bind_eq_bind, Option.bind_some]
  exact bodiesLoad _ o wellFormed body bodySaved (by simp only [List.length_append]; omega) rest

theorem load_save_round_trip_array :
    (Object.array [.uint 300, .uint 1]).WellFormed ∧ save (.array [.uint 300, .uint 1]) = some [9, 2, 2, 172, 2, 1] ∧
      load ([9, 2, 2, 172, 2, 1] ++ [7]) = some (.array [.uint 300, .uint 1], [7]) := by
  have formed : (Object.array [.uint 300, .uint 1]).WellFormed := by
    refine .array (by decide) (by decide) fun o member => ?_
    simp only [List.mem_cons, List.not_mem_nil, or_false] at member
    rcases member with rfl | rfl <;> exact .uint _
  have saved : save (.array [.uint 300, .uint 1]) = some [9, 2, 2, 172, 2, 1] := by decide
  exact ⟨formed, saved, load_save_round_trip.2.2 _ formed _ saved [7]⟩

end Cijitter.Wire
