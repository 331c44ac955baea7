import Cijitter.Lib.Decoder

/-! The wire format of the state package (`pkg/state/wire/wire.go`). `Save`
writes an object's type tag and then its body; `Load` reads the tag and
dispatches on it. An array or a map writes the tag of its first element (and
first value) only: the others are read by the first one's `load` method,
which is the body decoder of its tag. Writers and readers are byte lists;
Go's panics are `none`. Floating-point values are held as their bit
patterns, which `math.Float32bits` and `Float32frombits` carry across
unchanged; a `Complex64`, which the encoder builds from a `complex64`, is
held as the bits of its two `float32` parts. Recursion through nested
objects is bounded by `fuel`, which `load` sets to the length of its input:
every nested load reads a byte at least. -/

set_option autoImplicit false

namespace Cijitter.Wire

open Decoder

/-! ## Integers -/

/-- Iterations of `loadUint`'s loop; `left` counts those after this one, so
the last, `i == 9`, runs with `left = 0`. -/
def loadUintLoop (u s : UInt64) : Nat → List UInt8 → Option (UInt64 × List UInt8)
  | 0, _ => none
  | left + 1, bytes => do
      let (b, rest) ← readOne bytes
      if b < 0x80 then
        if left = 0 ∧ 1 < b then none
        else pure (u ||| b.toUInt64 <<< s, rest)
      else loadUintLoop (u ||| (b &&& 0x7f).toUInt64 <<< s) (s + 7) left rest

def loadUint (bytes : List UInt8) : Option (UInt64 × List UInt8) :=
  loadUintLoop 0 0 10 bytes

/-- `Uint.save`'s loop. Each iteration drops seven of the 64 bits, so after
nine what is left is below `0x80`: `fuel` never runs out first. -/
def saveUintLoop : Nat → UInt64 → List UInt8
  | 0, u => [u.toUInt8]
  | fuel + 1, u => if 0x80 ≤ u then (u.toUInt8 ||| 0x80) :: saveUintLoop fuel (u >>> 7) else [u.toUInt8]

def saveUint (u : UInt64) : List UInt8 :=
  saveUintLoop 9 u

/-- `loadInt`: the zig-zag code, sign in the lowest bit. -/
def loadInt (bytes : List UInt8) : Option (Int64 × List UInt8) := do
  let (u, rest) ← loadUint bytes
  let x := (u >>> 1).toInt64
  pure (if u &&& 1 ≠ 0 then ~~~x else x, rest)

def saveInt (i : Int64) : List UInt8 :=
  let u := i.toUInt64 <<< 1
  saveUint (if i < 0 then ~~~u else u)

def loadBool (bytes : List UInt8) : Option (Bool × List UInt8) := do
  let (b, rest) ← loadUint bytes
  pure (b = 1, rest)

def saveBool (b : Bool) : List UInt8 :=
  saveUint (if b then 1 else 0)

def loadString (bytes : List UInt8) : Option (List UInt8 × List UInt8) := do
  let (l, rest) ← loadUint bytes
  readFull l.toNat rest

def saveString (s : List UInt8) : List UInt8 :=
  saveUint (UInt64.ofNat s.length) ++ s

/-! ## Objects -/

inductive TypeSpec where
  | typeID (id : UInt64)
  | pointer (type : TypeSpec)
  | array (count : UInt64) (type : TypeSpec)
  | slice (type : TypeSpec)
  | map (key value : TypeSpec)
  | nil
  deriving DecidableEq, Repr

inductive Dot where
  | index (i : UInt32)
  | fieldName (name : List UInt8)
  deriving DecidableEq, Repr

/-- `Ref`; a `Type` of `nil` is `none`. -/
structure Ref where
  root : UInt64
  dots : List Dot
  type : Option TypeSpec
  deriving DecidableEq, Repr

structure Slice where
  length : UInt64
  capacity : UInt64
  ref : Ref
  deriving DecidableEq, Repr

/-- Go's `Type`: a type's name and the names of its fields. -/
structure TypeInfo where
  name : List UInt8
  fields : List (List UInt8)
  deriving DecidableEq, Repr

/-- The dynamic types an `Object` may have. A `Struct` keeps its fields as
one object: `noObjects`, a single field's own object, or `multipleObjects`.
An `Interface` whose `Type` is `nil` has `none`. -/
inductive Object where
  | bool (value : Bool)
  | int (value : Int64)
  | uint (value : UInt64)
  | float32 (bits : UInt32)
  | float64 (bits : UInt64)
  | nil
  | ref (ref : Ref)
  | string (bytes : List UInt8)
  | slice (slice : Slice)
  | array (contents : List Object)
  | map (keys values : List Object)
  | struct (typeID : UInt64) (fields : Object)
  | noObjects
  | multipleObjects (objects : List Object)
  | interface (type : Option TypeSpec) (value : Object)
  | complex64 (re im : UInt32)
  | complex128 (re im : UInt64)
  | type (type : TypeInfo)
  deriving Repr

def typeSpecTypeID : UInt64 := 0
def typeSpecPointer : UInt64 := 1
def typeSpecArray : UInt64 := 2
def typeSpecSlice : UInt64 := 3
def typeSpecMap : UInt64 := 4
def typeSpecNil : UInt64 := 5

def typeBool : UInt64 := 0
def typeInt : UInt64 := 1
def typeUint : UInt64 := 2
def typeFloat32 : UInt64 := 3
def typeFloat64 : UInt64 := 4
def typeNil : UInt64 := 5
def typeRef : UInt64 := 6
def typeString : UInt64 := 7
def typeSlice : UInt64 := 8
def typeArray : UInt64 := 9
def typeMap : UInt64 := 10
def typeStruct : UInt64 := 11
def typeNoObjects : UInt64 := 12
def typeMultipleObjects : UInt64 := 13
def typeInterface : UInt64 := 14
def typeComplex64 : UInt64 := 15
def typeComplex128 : UInt64 := 16
def typeType : UInt64 := 17

/-- The tag `Save` writes for an object's dynamic type. -/
def Object.tag : Object → UInt64
  | .bool _ => typeBool
  | .int _ => typeInt
  | .uint _ => typeUint
  | .float32 _ => typeFloat32
  | .float64 _ => typeFloat64
  | .nil => typeNil
  | .ref _ => typeRef
  | .string _ => typeString
  | .slice _ => typeSlice
  | .array _ => typeArray
  | .map _ _ => typeMap
  | .struct _ _ => typeStruct
  | .noObjects => typeNoObjects
  | .multipleObjects _ => typeMultipleObjects
  | .interface _ _ => typeInterface
  | .complex64 _ _ => typeComplex64
  | .complex128 _ _ => typeComplex128
  | .type _ => typeType

/-! ## Saving -/

def saveTypeSpec : TypeSpec → List UInt8
  | .typeID id => saveUint typeSpecTypeID ++ saveUint id
  | .pointer type => saveUint typeSpecPointer ++ saveTypeSpec type
  | .array count type => saveUint typeSpecArray ++ saveUint count ++ saveTypeSpec type
  | .slice type => saveUint typeSpecSlice ++ saveTypeSpec type
  | .map key value => saveUint typeSpecMap ++ saveTypeSpec key ++ saveTypeSpec value
  | .nil => saveUint typeSpecNil

/-- An `Index` as a non-negative `Int`, a `FieldName` as its negated length
followed by its bytes. -/
def saveDot : Dot → List UInt8
  | .index i => saveInt i.toUInt64.toInt64
  | .fieldName name => saveInt (-Int64.ofNat name.length) ++ name

/-- `Ref.save`; `saveTypeSpec` of a `nil` type panics. -/
def saveRef (r : Ref) : Option (List UInt8) :=
  let l := UInt64.ofNat r.dots.length
  let written := saveUint r.root ++ saveUint l ++ r.dots.flatMap saveDot
  if l ≠ 0 then
    match r.type with
    | some type => some (written ++ saveTypeSpec type)
    | none => none
  else some written

def saveSlice (s : Slice) : Option (List UInt8) := do
  let ref ← saveRef s.ref
  pure (saveUint s.length ++ saveUint s.capacity ++ ref)

def saveType (t : TypeInfo) : List UInt8 :=
  saveString t.name ++ saveUint (UInt64.ofNat t.fields.length) ++ t.fields.flatMap saveString

mutual

/-- The `save` method of an object's dynamic type: its body, without the tag. -/
def saveBody : Object → Option (List UInt8)
  | .bool b => some (saveBool b)
  | .int i => some (saveInt i)
  | .uint u => some (saveUint u)
  | .float32 bits => some (saveUint bits.toUInt64)
  | .float64 bits => some (saveUint bits)
  | .nil => some []
  | .ref r => saveRef r
  | .string s => some (saveString s)
  | .slice s => saveSlice s
  | .array [] => some (saveUint 0)
  | .array (first :: rest) => do
      let firstBody ← saveBody first
      let restBodies ← saveBodies rest
      pure (saveUint (UInt64.ofNat (rest.length + 1)) ++ saveUint first.tag ++ firstBody ++
        restBodies.flatten)
  | .map keys values =>
      if keys.length ≠ values.length then none
      else
        match keys, values with
        | key :: otherKeys, value :: otherValues => do
            let keyBody ← saveBody key
            let valueBody ← saveBody value
            let keyBodies ← saveBodies otherKeys
            let valueBodies ← saveBodies otherValues
            pure (saveUint (UInt64.ofNat (otherKeys.length + 1)) ++ saveUint key.tag ++ keyBody ++
              saveUint value.tag ++ valueBody ++
              ((keyBodies.zip valueBodies).map fun pair => pair.1 ++ pair.2).flatten)
        | _, _ => some (saveUint 0)
  | .struct typeID fields => do
      let body ← saveBody fields
      pure (saveUint typeID ++ saveUint fields.tag ++ body)
  | .noObjects => some []
  | .multipleObjects objects => do
      let saved ← saveAll objects
      pure (saveUint (UInt64.ofNat objects.length) ++ saved.flatten)
  | .interface type value =>
      match type with
      | some type => do
          let body ← saveBody value
          pure (saveTypeSpec type ++ saveUint value.tag ++ body)
      | none => none
  | .complex64 re im => some (saveUint re.toUInt64 ++ saveUint im.toUInt64)
  | .complex128 re im => some (saveUint re ++ saveUint im)
  | .type t => some (saveType t)

/-- The bodies of objects that share the first one's tag. -/
def saveBodies : List Object → Option (List (List UInt8))
  | [] => some []
  | o :: os => do
      let body ← saveBody o
      let bodies ← saveBodies os
      pure (body :: bodies)

/-- `Save` of each object: its tag, then its body. -/
def saveAll : List Object → Option (List (List UInt8))
  | [] => some []
  | o :: os => do
      let body ← saveBody o
      let saved ← saveAll os
      pure ((saveUint o.tag ++ body) :: saved)

end

/-- `Save`: the object's tag, then its body. -/
def save (o : Object) : Option (List UInt8) :=
  (saveUint o.tag ++ ·) <$> saveBody o

/-! ## Loading -/

def loadTypeSpec : Nat → List UInt8 → Option (TypeSpec × List UInt8)
  | 0, _ => none
  | fuel + 1, bytes => do
      let (hdr, rest) ← loadUint bytes
      if hdr = typeSpecTypeID then do
        let (id, rest) ← loadUint rest
        pure (.typeID id, rest)
      else if hdr = typeSpecPointer then do
        let (type, rest) ← loadTypeSpec fuel rest
        pure (.pointer type, rest)
      else if hdr = typeSpecArray then do
        let (count, rest) ← loadUint rest
        let (type, rest) ← loadTypeSpec fuel rest
        pure (.array count type, rest)
      else if hdr = typeSpecSlice then do
        let (type, rest) ← loadTypeSpec fuel rest
        pure (.slice type, rest)
      else if hdr = typeSpecMap then do
        let (key, rest) ← loadTypeSpec fuel rest
        let (value, rest) ← loadTypeSpec fuel rest
        pure (.map key value, rest)
      else if hdr = typeSpecNil then pure (.nil, rest)
      else none

/-- One dot of `loadRef`'s loop: a non-negative `Int` is an `Index`, a
negative one the length of a `FieldName` (`make` panics on a length that
negation leaves negative). -/
def loadDot (bytes : List UInt8) : Option (Dot × List UInt8) := do
  let (d, rest) ← loadInt bytes
  if 0 ≤ d then pure (.index d.toUInt64.toUInt32, rest)
  else if -d < 0 then none
  else do
    let (name, rest) ← readFull (-d).toInt.toNat rest
    pure (.fieldName name, rest)

def loadRef (fuel : Nat) (bytes : List UInt8) : Option (Ref × List UInt8) := do
  let (root, rest) ← loadUint bytes
  let (l, rest) ← loadUint rest
  let (dots, rest) ← repeatLoad loadDot l.toNat rest
  if l ≠ 0 then do
    let (type, rest) ← loadTypeSpec fuel rest
    pure (⟨root, dots, some type⟩, rest)
  else pure (⟨root, dots, none⟩, rest)

def loadSlice (fuel : Nat) (bytes : List UInt8) : Option (Slice × List UInt8) := do
  let (length, rest) ← loadUint bytes
  let (capacity, rest) ← loadUint rest
  let (ref, rest) ← loadRef fuel rest
  pure (⟨length, capacity, ref⟩, rest)

def loadType (bytes : List UInt8) : Option (TypeInfo × List UInt8) := do
  let (name, rest) ← loadString bytes
  let (l, rest) ← loadUint rest
  let (fields, rest) ← repeatLoad loadString l.toNat rest
  pure (⟨name, fields⟩, rest)

/-- The `load` method of the dynamic type with tag `hdr`, which `Load`'s
switch calls after reading the tag. -/
def loadBody : Nat → UInt64 → List UInt8 → Option (Object × List UInt8)
  | 0, _, _ => none
  | fuel + 1, hdr, bytes =>
      if hdr = typeBool then do
        let (b, rest) ← loadBool bytes
        pure (.bool b, rest)
      else if hdr = typeInt then do
        let (i, rest) ← loadInt bytes
        pure (.int i, rest)
      else if hdr = typeUint then do
        let (u, rest) ← loadUint bytes
        pure (.uint u, rest)
      else if hdr = typeFloat32 then do
        let (n, rest) ← loadUint bytes
        pure (.float32 n.toUInt32, rest)
      else if hdr = typeFloat64 then do
        let (n, rest) ← loadUint bytes
        pure (.float64 n, rest)
      else if hdr = typeNil then pure (.nil, bytes)
      else if hdr = typeRef then do
        let (r, rest) ← loadRef fuel bytes
        pure (.ref r, rest)
      else if hdr = typeString then do
        let (s, rest) ← loadString bytes
        pure (.string s, rest)
      else if hdr = typeSlice then do
        let (s, rest) ← loadSlice fuel bytes
        pure (.slice s, rest)
      else if hdr = typeArray then do
        let (l, rest) ← loadUint bytes
        if l = 0 then pure (.array [], rest)
        else do
          let (tag, rest) ← loadUint rest
          let (first, rest) ← loadBody fuel tag rest
          let (others, rest) ← repeatLoad (loadBody fuel first.tag) (l.toNat - 1) rest
          pure (.array (first :: others), rest)
      else if hdr = typeMap then do
        let (l, rest) ← loadUint bytes
        if l = 0 then pure (.map [] [], rest)
        else do
          let (keyTag, rest) ← loadUint rest
          let (key, rest) ← loadBody fuel keyTag rest
          let (valueTag, rest) ← loadUint rest
          let (value, rest) ← loadBody fuel valueTag rest
          let (others, rest) ←
            repeatLoad (readPair (loadBody fuel key.tag) (loadBody fuel value.tag)) (l.toNat - 1) rest
          pure (.map (key :: others.map Prod.fst) (value :: others.map Prod.snd), rest)
      else if hdr = typeStruct then do
        let (typeID, rest) ← loadUint bytes
        let (tag, rest) ← loadUint rest
        let (fields, rest) ← loadBody fuel tag rest
        pure (.struct typeID fields, rest)
      else if hdr = typeNoObjects then pure (.noObjects, bytes)
      else if hdr = typeMultipleObjects then do
        let (l, rest) ← loadUint bytes
        let (objects, rest) ← repeatLoad
          (fun bytes => do
            let (tag, rest) ← loadUint bytes
            loadBody fuel tag rest)
          l.toNat rest
        pure (.multipleObjects objects, rest)
      else if hdr = typeInterface then do
        let (type, rest) ← loadTypeSpec fuel bytes
        let (tag, rest) ← loadUint rest
        let (value, rest) ← loadBody fuel tag rest
        pure (.interface (some type) value, rest)
      else if hdr = typeComplex64 then do
        let (re, rest) ← loadUint bytes
        let (im, rest) ← loadUint rest
        pure (.complex64 re.toUInt32 im.toUInt32, rest)
      else if hdr = typeComplex128 then do
        let (re, rest) ← loadUint bytes
        let (im, rest) ← loadUint rest
        pure (.complex128 re im, rest)
      else if hdr = typeType then do
        let (t, rest) ← loadType bytes
        pure (.type t, rest)
      else none

/-- `Load` with a bound on how deep it may recurse. -/
def loadWith (fuel : Nat) (bytes : List UInt8) : Option (Object × List UInt8) := do
  let (hdr, rest) ← loadUint bytes
  loadBody fuel hdr rest

/-- `Load`. -/
def load (bytes : List UInt8) : Option (Object × List UInt8) :=
  loadWith bytes.length bytes

end Cijitter.Wire
