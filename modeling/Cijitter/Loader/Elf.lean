import Cijitter.Usermem.Access
import Cijitter.Lib.Bytes

/-! Loading an ELF file (`pkg/sentry/loader/elf.go`): `parseHeader` reads
the ELF header and the program headers from the file's bytes, and
`loadParsedELF` checks the `PT_LOAD` and `PT_INTERP` headers, reserves room
for a shared object and maps every segment. The memory manager is known
only through the calls the loader makes on it (`MMap`, `MUnmap`, `ZeroOut`)
and the file's `ConfigureMMap`: they are the fields of an `Env` over any
type of states. Addresses are natural numbers below `2 ^ 64`. A call that
fails keeps the state it reached; a panic of the source is `none`. The OS
of the file is always Linux and is left out. -/

set_option autoImplicit false

namespace Cijitter.Loader

open Usermem

inductive Error where
  | ENOEXEC
  | EACCES
  | EINVAL
  /-- An error of the memory manager or of the file, passed on. -/
  | other (code : Nat)
  deriving DecidableEq, Repr

inductive Arch where
  | AMD64
  | ARM64
  deriving DecidableEq, Repr

/-- `elf.ProgHeader`. -/
structure ProgHeader where
  type : Nat
  flags : Nat
  off : Nat
  vaddr : Nat
  paddr : Nat
  filesz : Nat
  memsz : Nat
  align : Nat
  deriving DecidableEq, Repr

/-- `elfInfo`. -/
structure ElfInfo where
  arch : Arch
  entry : Nat
  phdrs : List ProgHeader
  phdrSize : Nat
  phdrOff : Nat
  sharedObject : Bool
  deriving DecidableEq, Repr

/-- `loadedELF`, without the `auxv` that the caller fills in; `stop` is the
source's `end`. -/
structure LoadedELF where
  arch : Arch
  entry : Nat
  start : Nat
  stop : Nat
  interpreter : List UInt8
  phdrAddr : Nat
  phdrSize : Nat
  phdrNum : Nat
  deriving DecidableEq, Repr

/-- `loadedELF{}`: Go's zero value, whose `arch` is `AMD64`, the first
constant. -/
def LoadedELF.zero : LoadedELF :=
  ⟨.AMD64, 0, 0, 0, [], 0, 0, 0⟩

def ptLoad : Nat := 1

def ptInterp : Nat := 3

def header64Size : Nat := 64

def prog64Size : Nat := 56

def maxTotalPhdrSize : Nat := pageSize

/-- `linux.PATH_MAX`. -/
def pathMax : Nat := 4096

inductive ReadError where
  | EOF
  | ErrUnexpectedEOF
  | EINVAL
  deriving DecidableEq, Repr

/-- `ReadFull` of `n` bytes at `int64(offset)` from the file's bytes. -/
def readFull (file : List UInt8) (offset n : Nat) : Except ReadError (List UInt8) :=
  if offset ≥ 2 ^ 63 then .error .EINVAL
  else if offset + n ≤ file.length then .ok ((file.drop offset).take n)
  else if n = 0 ∨ offset ≥ file.length then .error .EOF
  else .error .ErrUnexpectedEOF

/-- What `parseHeader` makes of a failed read of bytes that always exist. -/
def readError : ReadError → Error
  | .EOF | .ErrUnexpectedEOF => .ENOEXEC
  | .EINVAL => .EINVAL

/-- The little-endian field of `width` bytes at `offset` of a header. -/
def field (bytes : List UInt8) (offset width : Nat) : Nat :=
  Bytes.leValue ((bytes.drop offset).take width)

/-- `binary.Unmarshal` of an `elf.Prog64`. -/
def prog64 (bytes : List UInt8) : ProgHeader :=
  ⟨field bytes 0 4, field bytes 4 4, field bytes 8 8, field bytes 16 8, field bytes 24 8,
    field bytes 32 8, field bytes 40 8, field bytes 48 8⟩

/-- The program headers, one `prog64Size` slice after the other. -/
def phdrsOf (phdrBuf : List UInt8) : Nat → List ProgHeader
  | 0 => []
  | n + 1 => prog64 (phdrBuf.take prog64Size) :: phdrsOf (phdrBuf.drop prog64Size) n

/-- `parseHeader`. -/
def parseHeader (file : List UInt8) : Except Error ElfInfo := do
  let ident ← (readFull file 0 16).mapError readError
  if ident.take 4 ≠ [0x7f, 0x45, 0x4c, 0x46] then throw .ENOEXEC
  -- 64-bit, little-endian, current version
  if ident[4]? ≠ some 2 then throw .ENOEXEC
  if ident[5]? ≠ some 1 then throw .ENOEXEC
  if ident[6]? ≠ some 1 then throw .ENOEXEC
  let hdr ← (readFull file 0 header64Size).mapError readError
  let a ← match field hdr 18 2 with
    | 62 => pure Arch.AMD64
    | 183 => pure Arch.ARM64
    | _ => throw Error.ENOEXEC
  let sharedObject ← match field hdr 16 2 with
    | 2 => pure false
    | 3 => pure true
    | _ => throw Error.ENOEXEC
  if field hdr 54 2 ≠ prog64Size then throw .ENOEXEC
  let phnum := field hdr 56 2
  let totalPhdrSize := prog64Size * phnum
  if totalPhdrSize < prog64Size then throw .ENOEXEC
  if totalPhdrSize > maxTotalPhdrSize then throw .ENOEXEC
  let phoff := field hdr 32 8
  let phdrBuf ← (readFull file phoff totalPhdrSize).mapError readError
  pure ⟨a, field hdr 24 8, phdrsOf phdrBuf phnum, prog64Size, phoff, sharedObject⟩

/-- `mmap.MMapOpts`, with the fields the loader sets. -/
structure MMapOpts where
  length : Nat
  offset : Nat
  addr : Nat
  fixed : Bool
  unmap : Bool
  isPrivate : Bool
  perms : AccessType
  maxPerms : AccessType
  deriving DecidableEq, Repr

/-- The memory manager's calls the loader makes, over states of type `σ`,
and the file's `ConfigureMMap`. -/
structure Env (σ : Type) where
  mmap : σ → MMapOpts → Except Error (Nat × σ)
  munmap : σ → Nat → Nat → Except Error σ
  zeroOut : σ → Nat → Nat → Except Error σ
  configureMMap : MMapOpts → Except Error MMapOpts

/-- `usermem.AnyAccess`. -/
def anyAccess : AccessType := ⟨true, true, true⟩

/-- `progFlagsAsPerms`: `PF_X` is 1, `PF_W` 2 and `PF_R` 4. -/
def progFlagsAsPerms (f : Nat) : AccessType :=
  ⟨f &&& 4 = 4, f &&& 2 = 2, f &&& 1 = 1⟩

/-- How far the loader got: a value and the state, or the error it returns
with the state it reached; `none` is a panic. -/
abbrev Step (σ α : Type) := Option (σ × Except Error α)

variable {σ : Type}

/-- The end of `mapSegment`: anonymous pages past the file's part. -/
def mapAnonymous (env : Env σ) (s : σ) (phdr : ProgHeader) (addr mapSize adjust : Nat) : Step σ Unit :=
  let memSize := phdr.memsz + adjust
  if memSize ≥ 2 ^ 64 then some (s, .error .ENOEXEC)
  else if mapSize < memSize then
    match addLength addr mapSize with
    | none => none
    | some anonAddr =>
      match roundUp (memSize - mapSize) with
      | none => some (s, .error .ENOEXEC)
      | some anonSize =>
        let prot : AccessType := { readWrite with execute := phdr.flags &&& 1 = 1 }
        match env.mmap s ⟨anonSize, 0, anonAddr, true, false, true, prot, anyAccess⟩ with
        | .error e => some (s, .error e)
        | .ok (_, s) => some (s, .ok ())
  else some (s, .ok ())

/-- The file part of `mapSegment`: the pages holding the segment's bytes,
with the end of the last page past them cleared. -/
def mapFile (env : Env σ) (s : σ) (phdr : ProgHeader) (addr fileSize mapSize adjust : Nat) : Step σ Unit :=
  if mapSize > 0 then
    -- `phdr.Off - adjust` as a `uint64`
    let fileOffset := (phdr.off + 2 ^ 64 - adjust) % 2 ^ 64
    let mopts : MMapOpts := ⟨mapSize, fileOffset, addr, true, true, true, progFlagsAsPerms phdr.flags, anyAccess⟩
    match env.configureMMap mopts with
    | .error e => some (s, .error e)
    | .ok mopts =>
      match env.mmap s mopts with
      | .error e => some (s, .error e)
      | .ok (_, s) =>
        if mapSize > fileSize then
          match addLength addr fileSize with
          | none => none
          | some zeroAddr =>
            match env.zeroOut s zeroAddr (mapSize - fileSize) with
            | .error e => some (s, .error e)
            | .ok s => some (s, .ok ())
        else some (s, .ok ())
  else some (s, .ok ())

/-- `mapSegment`: maps `phdr` at `offset + Vaddr`, rounded to pages. -/
def mapSegment (env : Env σ) (s : σ) (phdr : ProgHeader) (offset : Nat) : Step σ Unit :=
  let adjust := phdr.vaddr % pageSize
  match addLength offset phdr.vaddr with
  | none => some (s, .error .ENOEXEC)
  | some addr =>
    let addr := addr - adjust
    let fileSize := phdr.filesz + adjust
    if fileSize ≥ 2 ^ 64 then some (s, .error .ENOEXEC)
    else
      match roundUp fileSize with
      | none => some (s, .error .ENOEXEC)
      | some mapSize =>
        match mapFile env s phdr addr fileSize mapSize adjust with
        | some (s, .ok ()) => mapAnonymous env s phdr addr mapSize adjust
        | other => other

/-- What the first loop of `loadParsedELF` gathers from the program
headers. -/
structure Scan where
  first : Bool
  start : Nat
  stop : Nat
  interpreter : List UInt8
  deriving DecidableEq, Repr

/-- One turn of the first loop of `loadParsedELF`. -/
def scanPhdr (file : List UInt8) (scan : Scan) (phdr : ProgHeader) : Except Error Scan :=
  if phdr.type = ptLoad then
    let scan := if scan.first then { scan with first := false, start := phdr.vaddr } else scan
    if phdr.vaddr < scan.stop then .error .ENOEXEC
    else match addLength phdr.vaddr phdr.memsz with
      | none => .error .ENOEXEC
      | some stop => .ok { scan with stop := stop }
  else if phdr.type = ptInterp then
    if phdr.filesz < 2 then .error .ENOEXEC
    else if phdr.filesz > pathMax then .error .ENOEXEC
    else match readFull file phdr.off phdr.filesz with
      | .error _ => .error .ENOEXEC
      | .ok path =>
        if path.getLast? ≠ some 0 then .error .ENOEXEC
        else
          let interpreter := path.takeWhile (· ≠ 0)
          if interpreter = [] then .error .EACCES else .ok { scan with interpreter := interpreter }
  else .ok scan

def scanPhdrs (file : List UInt8) (phdrs : List ProgHeader) : Except Error Scan :=
  phdrs.foldlM (scanPhdr file) ⟨true, 0, 0, []⟩

/-- The shared-object part of `loadParsedELF`: an `MMap` of the whole size
finds room, which is unmapped at once, and its address becomes the load
offset of `start`, `end` and the entry. Gives the offset, the new `start`,
`end` and entry, or (on the left) what `loadParsedELF` returns. -/
def placeSharedObject (env : Env σ) (s : σ) (info : ElfInfo) (start stop sharedLoadOffset : Nat) :
    Option (σ × Except (Except Error LoadedELF) (Nat × Nat × Nat × Nat)) :=
  match roundUp (stop - start) with
  | none => some (s, .error (.error .ENOEXEC))
  | some totalSize =>
    match env.mmap s ⟨totalSize, 0, sharedLoadOffset, false, false, true, ⟨false, false, false⟩, ⟨false, false, false⟩⟩ with
    | .error e => some (s, .error (.error e))
    | .ok (offset, s) =>
      match env.munmap s offset totalSize with
      | .error _ => none
      | .ok s =>
        match addLength start offset, addLength stop offset with
        | some start, some stop =>
          match addLength info.entry offset with
          -- the source returns `err`, which holds the nil error of `MMap` here
          | none => some (s, .error (.ok LoadedELF.zero))
          | some entry => some (s, .ok (offset, start, stop, entry))
        | _, _ => none

/-- The second loop of `loadParsedELF`: maps every `PT_LOAD` segment with a
memory size. -/
def mapSegments (env : Env σ) (offset : Nat) : σ → List ProgHeader → Step σ Unit
  | s, [] => some (s, .ok ())
  | s, phdr :: phdrs =>
    if phdr.type = ptLoad ∧ phdr.memsz ≠ 0 then
      match mapSegment env s phdr offset with
      | some (s, .ok ()) => mapSegments env offset s phdrs
      | other => other
    else mapSegments env offset s phdrs

/-- `loadParsedELF`. -/
def loadParsedELF (env : Env σ) (s : σ) (file : List UInt8) (info : ElfInfo) (sharedLoadOffset : Nat) :
    Step σ LoadedELF :=
  match scanPhdrs file info.phdrs with
  | .error e => some (s, .error e)
  | .ok scan =>
    let placed : Option (σ × Except (Except Error LoadedELF) (Nat × Nat × Nat × Nat)) :=
      if info.sharedObject then placeSharedObject env s info scan.start scan.stop sharedLoadOffset
      else some (s, .ok (0, scan.start, scan.stop, info.entry))
    match placed with
    | none => none
    | some (s, .error returned) => some (s, returned)
    | some (s, .ok (offset, start, stop, entry)) =>
      match mapSegments env offset s info.phdrs with
      | none => none
      | some (s, .error e) => some (s, .error e)
      | some (s, .ok ()) =>
        let phdrAddr := (addLength start info.phdrOff).getD 0
        some (s, .ok ⟨info.arch, entry, start, stop, scan.interpreter, phdrAddr, info.phdrSize, info.phdrs.length⟩)

/-! ## The entry point of a shared object -/

theorem addLength_of_lt {v length : Nat} (fits : v + length < addrLimit) : addLength v length = some (v + length) :=
  if_pos fits

theorem addLength_of_le {v length : Nat} (wraps : addrLimit ≤ v + length) : addLength v length = none :=
  if_neg (Nat.not_lt.mpr wraps)

/-- For a shared object whose entry point plus the load offset that `MMap`
picks wraps around, `loadParsedELF` returns the zero `loadedELF` with a nil
error: the overflow check returns `err`, which still holds the nil error of
`MMap`. The result has no program headers, entry 0 and `start = end = 0`,
whatever the file says, and no segment is mapped. -/
theorem loadParsedELF_nil_error_on_entry_overflow (env : Env σ) (s s' s'' : σ) (file : List UInt8)
    (info : ElfInfo) (sharedLoadOffset : Nat) (scan : Scan) (totalSize offset : Nat)
    (shared : info.sharedObject = true) (scanned : scanPhdrs file info.phdrs = .ok scan)
    (sized : roundUp (scan.stop - scan.start) = some totalSize)
    (reserved : env.mmap s ⟨totalSize, 0, sharedLoadOffset, false, false, true, ⟨false, false, false⟩,
      ⟨false, false, false⟩⟩ = .ok (offset, s'))
    (released : env.munmap s' offset totalSize = .ok s'')
    (startFits : scan.start + offset < addrLimit) (stopFits : scan.stop + offset < addrLimit)
    (wraps : addrLimit ≤ info.entry + offset) :
    loadParsedELF env s file info sharedLoadOffset = some (s'', .ok LoadedELF.zero) := by
  have placed : placeSharedObject env s info scan.start scan.stop sharedLoadOffset =
      some (s'', .error (.ok LoadedELF.zero)) := by
    unfold placeSharedObject
    rw [sized]
    simp only [reserved, released, addLength_of_lt startFits, addLength_of_lt stopFits, addLength_of_le wraps]
  unfold loadParsedELF
  simp only [scanned, shared, if_true, placed]

set_option maxRecDepth 8000 in
/-- A 64-bit x86 shared object with one `PT_LOAD` header of 120 bytes at
address 0 and the entry point `2^64 - 1`, loaded by a memory manager that
finds room at `0x10000`: `parseHeader` accepts it and `loadParsedELF`
returns the zero `loadedELF` with a nil error, with no program headers for
the file's one. -/
theorem load_shared_object_entry_at_top :
    let file : List UInt8 := [0x7f, 0x45, 0x4c, 0x46, 2, 1, 1, 0, 0, 0, 0, 0, 0, 0, 0, 0] ++
      Bytes.leBytes 2 3 ++ Bytes.leBytes 2 62 ++ Bytes.leBytes 4 1 ++ Bytes.leBytes 8 (2 ^ 64 - 1) ++
      Bytes.leBytes 8 64 ++ Bytes.leBytes 8 0 ++ Bytes.leBytes 4 0 ++ Bytes.leBytes 2 64 ++
      Bytes.leBytes 2 56 ++ Bytes.leBytes 2 1 ++ Bytes.leBytes 2 0 ++ Bytes.leBytes 2 0 ++ Bytes.leBytes 2 0 ++
      Bytes.leBytes 4 1 ++ Bytes.leBytes 4 5 ++ Bytes.leBytes 8 0 ++ Bytes.leBytes 8 0 ++ Bytes.leBytes 8 0 ++
      Bytes.leBytes 8 120 ++ Bytes.leBytes 8 120 ++ Bytes.leBytes 8 4096
    let info : ElfInfo := ⟨.AMD64, 2 ^ 64 - 1, [⟨1, 5, 0, 0, 0, 120, 120, 4096⟩], 56, 64, true⟩
    let env : Env Unit := ⟨fun _ _ => .ok (0x10000, ()), fun _ _ _ => .ok (), fun _ _ _ => .ok (), .ok⟩
    parseHeader file = .ok info ∧
      loadParsedELF env () file info 0x10000 = some ((), .ok LoadedELF.zero) ∧
      LoadedELF.zero.phdrNum ≠ info.phdrs.length := by
  intro file info env
  have parsed : parseHeader file = .ok info := by decide
  have scanned : scanPhdrs file info.phdrs = .ok ⟨false, 0, 120, []⟩ := by decide
  exact ⟨parsed, loadParsedELF_nil_error_on_entry_overflow env () () () file info 0x10000 ⟨false, 0, 120, []⟩
    4096 0x10000 rfl scanned (by decide) rfl rfl (by decide) (by decide) (by decide), by decide⟩

end Cijitter.Loader
