import Cijitter.Mm.Vma

/-! The file descriptor table of a task (`pkg/sentry/kernel/fd_table.go`):
a growing array of descriptors, each holding a VFS1 or a VFS2 file and the
descriptor flags, with the number of occupied entries `used` and the hint
`next` where the search for a free descriptor starts. Files are values of
the type parameters; their reference counts are not followed. The
`RLIMIT_NOFILE` of the caller's context is `none` when the context carries
no limits, and otherwise its soft value. A panic of the source is `none`. -/

set_option autoImplicit false

namespace Cijitter.Kernel

open Syserror

/-- `FDFlags`. -/
structure FDFlags where
  closeOnExec : Bool
  deriving DecidableEq, Repr

/-- The file of a `descriptor`: of its two pointers exactly one is set. -/
inductive FileRef (File FileVFS2 : Type) where
  | vfs1 (file : File)
  | vfs2 (file : FileVFS2)
  deriving DecidableEq, Repr

structure Descriptor (File FileVFS2 : Type) where
  file : FileRef File FileVFS2
  flags : FDFlags
  deriving DecidableEq, Repr

/-- `FDTable`: `slice` is the `descriptorTable`, `none` for a nil entry. -/
structure FDTable (File FileVFS2 : Type) where
  next : Int
  used : Int
  slice : List (Option (Descriptor File FileVFS2))
  deriving DecidableEq, Repr

/-- `limits.Infinity`: `^uint64(0)`. -/
def infinity : UInt64 := 0xFFFFFFFFFFFFFFFF

/-- `math.MaxInt32`. -/
def maxInt32 : Int := 2 ^ 31 - 1

/-- Go's `int32(v)` of a `uint64`: its low 32 bits, read as a signed number. -/
def toInt32 (v : UInt64) : Int :=
  let low : Nat := v.toNat % 2 ^ 32
  if low < 2 ^ 31 then low else low - 2 ^ 32

variable {File FileVFS2 α : Type}

namespace FileRef

def vfs1? : FileRef File FileVFS2 → Option File
  | .vfs1 file => some file
  | .vfs2 _ => none

def vfs2? : FileRef File FileVFS2 → Option FileVFS2
  | .vfs1 _ => none
  | .vfs2 file => some file

end FileRef

namespace FDTable

/-- `Kernel.NewFDTable`. -/
def newFDTable : FDTable File FileVFS2 := ⟨0, 0, []⟩

/-- `getAll`: the descriptor at `fd`, and whether `fd` is inside the array. -/
def getAll (f : FDTable File FileVFS2) (fd : Int) : Option (Descriptor File FileVFS2) × Bool :=
  if fd ≥ f.slice.length then (none, false) else (f.slice[fd.toNat]?.join, true)

/-- `setAll`: grows the array to at least twice its length when `fd` is
past its end, stores the descriptor (none for two nil files) and counts the
entries that became occupied or free. -/
def setAll (f : FDTable File FileVFS2) (fd : Int) (file : Option (FileRef File FileVFS2))
    (flags : FDFlags) : FDTable File FileVFS2 :=
  let last := f.slice.length
  -- Grow the table as required.
  let slice :=
    if fd ≥ last then f.slice ++ List.replicate (max (fd.toNat + 1) (2 * last) - last) none
    else f.slice
  let desc : Option (Descriptor File FileVFS2) := file.map fun file => ⟨file, flags⟩
  let orig := slice[fd.toNat]?.join
  let used :=
    match orig, desc with
    | none, some _ => f.used + 1
    | some _, none => f.used - 1
    | _, _ => f.used
  ⟨f.next, used, slice.set fd.toNat desc⟩

/-- The limit checks that `NewFDs`, `NewFDsVFS2` and `NewFDVFS2` share: the
end of the search, `int32(lim.Cur)` unless the limit is infinite, or
`EMFILE` when `fd` is already at or past it. -/
def searchEnd (limit : Option UInt64) (fd : Int) : Except Errno Int :=
  match limit with
  | none => .ok maxInt32
  | some cur =>
    let stop := if cur ≠ infinity then toInt32 cur else maxInt32
    if fd ≥ stop then .error .EMFILE else .ok stop

/-- The install loop of `NewFDs`: `files` are those not yet installed and
`fds` the descriptors given so far. The fuel is the number of descriptors
left below `stop`, one a turn. -/
def installLoop (inject : α → FileRef File FileVFS2) (project : FileRef File FileVFS2 → Option α)
    (flags : FDFlags) (stop : Int) :
    Nat → FDTable File FileVFS2 → Int → List α → List Int → FDTable File FileVFS2 × List Int
  | 0, f, _, _, fds => (f, fds)
  | fuel + 1, f, i, files, fds =>
    match files with
    | [] => (f, fds)
    | file :: rest =>
      if i < stop then
        if ((f.getAll i).1.bind fun d => project d.file).isNone then
          installLoop inject project flags stop fuel (f.setAll i (some (inject file)) flags) (i + 1) rest
            (fds ++ [i])
        else installLoop inject project flags stop fuel f (i + 1) files fds
      else (f, fds)

/-- `NewFDs` and `NewFDsVFS2`, which differ only in the kind of file they
install and look for: `project` reads a descriptor's file of that kind. -/
def newFDsWith (inject : α → FileRef File FileVFS2) (project : FileRef File FileVFS2 → Option α)
    (f : FDTable File FileVFS2) (limit : Option UInt64) (fd : Int) (files : List α) (flags : FDFlags) :
    Option (FDTable File FileVFS2 × Except Errno (List Int)) :=
  if fd < 0 then some (f, .error .EINVAL)
  else
    match searchEnd limit fd with
    | .error err => some (f, .error err)
    | .ok stop =>
      -- From f.next to find available fd.
      let fd := if fd < f.next then f.next else fd
      let (g, fds) := installLoop inject project flags stop (stop - fd).toNat f fd files []
      if fds.length < files.length then
        -- Failure? Unwind existing FDs.
        some (fds.foldl (fun g i => g.setAll i none ⟨false⟩) g, .error .EMFILE)
      else if fd = g.next then
        -- `fds[len(fds)-1]` panics when no file was asked for.
        match fds.getLast? with
        | none => none
        | some last => some (⟨last + 1, g.used, g.slice⟩, .ok fds)
      else some (g, .ok fds)

def newFDs (f : FDTable File FileVFS2) (limit : Option UInt64) (fd : Int) (files : List File)
    (flags : FDFlags) : Option (FDTable File FileVFS2 × Except Errno (List Int)) :=
  newFDsWith FileRef.vfs1 FileRef.vfs1? f limit fd files flags

def newFDsVFS2 (f : FDTable File FileVFS2) (limit : Option UInt64) (fd : Int) (files : List FileVFS2)
    (flags : FDFlags) : Option (FDTable File FileVFS2 × Except Errno (List Int)) :=
  newFDsWith FileRef.vfs2 FileRef.vfs2? f limit fd files flags

/-- With a soft `RLIMIT_NOFILE` of `2^32`, `int32(lim.Cur)` is 0, so `NewFDs`
refuses with `EMFILE` on an empty table, where descriptor 0 is free and
below both the limit and `MaxInt32`. -/
theorem newFDs_emfile_below_limit :
    (newFDTable : FDTable Unit Unit).getAll 0 = (none, false) ∧
      (newFDTable : FDTable Unit Unit).newFDs (some 4294967296) 0 [()] ⟨false⟩ =
        some (newFDTable, .error .EMFILE) := by
  decide

/-- The search loop of `NewFDVFS2`, one descriptor a turn up to `stop`. -/
def newFDLoop (file : FileVFS2) (flags : FDFlags) (stop : Int) :
    Nat → FDTable File FileVFS2 → Int → FDTable File FileVFS2 × Except Errno Int
  | 0, f, _ => (f, .error .EMFILE)
  | fuel + 1, f, fd =>
    if fd < stop then
      if ((f.getAll fd).1.bind fun d => d.file.vfs2?).isNone then
        let g := f.setAll fd (some (.vfs2 file)) flags
        -- Update next search start position.
        (if fd = g.next then ⟨fd + 1, g.used, g.slice⟩ else g, .ok fd)
      else newFDLoop file flags stop fuel f (fd + 1)
    else (f, .error .EMFILE)

def newFDVFS2 (f : FDTable File FileVFS2) (limit : Option UInt64) (minfd : Int) (file : FileVFS2)
    (flags : FDFlags) : FDTable File FileVFS2 × Except Errno Int :=
  if minfd < 0 then (f, .error .EINVAL)
  else
    match searchEnd limit minfd with
    | .error err => (f, .error err)
    | .ok stop =>
      let fd := if minfd < f.next then f.next else minfd
      newFDLoop file flags stop (stop - fd).toNat f fd

/-- `newFDAt`, behind `NewFDAt` and `NewFDAtVFS2`: installs `file` at `fd`,
dropping what was there. -/
def newFDAt (f : FDTable File FileVFS2) (limit : Option UInt64) (fd : Int)
    (file : Option (FileRef File FileVFS2)) (flags : FDFlags) : FDTable File FileVFS2 × Option Errno :=
  if fd < 0 then (f, some .EBADF)
  else
    match limit with
    | some cur => if cur ≠ infinity ∧ fd.toNat ≥ cur.toNat then (f, some .EMFILE) else (f.setAll fd file flags, none)
    | none => (f.setAll fd file flags, none)

/-- `Remove`: lowers `next` to `fd` and clears the entry, returning its file. -/
def remove (f : FDTable File FileVFS2) (fd : Int) : FDTable File FileVFS2 × Option (FileRef File FileVFS2) :=
  if fd < 0 then (f, none)
  else
    -- Update current available position.
    let f : FDTable File FileVFS2 := if fd < f.next then ⟨fd, f.used, f.slice⟩ else f
    match (f.getAll fd).1 with
    | some orig => (f.setAll fd none ⟨false⟩, some orig.file)
    | none => (f, none)

/-- The walk of `forEach` in `RemoveIf`, over the descriptors from `fd` on;
clearing entries does not grow the array, so its length is the fuel. -/
def removeIfLoop (cond : Descriptor File FileVFS2 → Bool) :
    Nat → FDTable File FileVFS2 → Nat → FDTable File FileVFS2
  | 0, f, _ => f
  | fuel + 1, f, fd =>
    match f.getAll fd with
    | (_, false) => f
    | (some d, true) =>
      if cond d then
        let g := f.setAll fd none ⟨false⟩
        removeIfLoop cond fuel (if (fd : Int) < g.next then ⟨fd, g.used, g.slice⟩ else g) (fd + 1)
      else removeIfLoop cond fuel f (fd + 1)
    | (none, true) => removeIfLoop cond fuel f (fd + 1)

def removeIf (f : FDTable File FileVFS2) (cond : Descriptor File FileVFS2 → Bool) : FDTable File FileVFS2 :=
  removeIfLoop cond f.slice.length f 0

/-- The walk of `forEach` in `Fork`: each descriptor from `fd` on is set in
the clone. -/
def forkFrom (clone : FDTable File FileVFS2) (fd : Nat) :
    List (Option (Descriptor File FileVFS2)) → FDTable File FileVFS2
  | [] => clone
  | entry :: rest =>
    match entry with
    | some d => forkFrom (clone.setAll fd (some d.file) d.flags) (fd + 1) rest
    | none => forkFrom clone (fd + 1) rest

def fork (f : FDTable File FileVFS2) : FDTable File FileVFS2 :=
  forkFrom newFDTable 0 f.slice

end FDTable

end Cijitter.Kernel
