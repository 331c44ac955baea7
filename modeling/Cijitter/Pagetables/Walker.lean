import Mathlib
import Cijitter.Usermem.Access

/-! The amd64 page tables of the ring0 platform (`pkg/sentry/platform/ring0/
pagetables`): page table entries as the `uintptr` words Go stores, the tables
as pages of 512 entries found by their physical address, and the walker
whose four nested loops `Map`, `Unmap`, `IsEmpty` and `Lookup` run with their
visitors. An entry is the 64-bit word it is in the source; addresses are
natural numbers, with the `uintptr` sums and differences of the visitors and
of the ends of the walked ranges wrapping at `2 ^ 64` as they do there. The
walker's own steps from one entry to the next are not wrapped: a step reaches
`2 ^ 64` only from the last entry of every table, where the source's loops
end on their index instead. The allocator hands out fresh pages in order and
never reuses a freed one. -/

set_option autoImplicit false

namespace Cijitter.Pagetables

open Usermem

def lowerTop : Nat := 0x00007fffffffffff
def upperBottom : Nat := 0xffff800000000000

def pteShift : Nat := 12
def pmdShift : Nat := 21
def pudShift : Nat := 30
def pgdShift : Nat := 39

def pteSize : Nat := 1 <<< pteShift
def pmdSize : Nat := 1 <<< pmdShift
def pudSize : Nat := 1 <<< pudShift
def pgdSize : Nat := 1 <<< pgdShift

def entriesPerPage : Nat := 512

/-- `(start & (0x1ff << shift)) >> shift`: the index of `start` at a level. -/
def indexAt (start shift : Nat) : Nat :=
  (start &&& (0x1ff <<< shift)) >>> shift

/-- `x &^ m`: the bits of `x` that are not bits of `m`. -/
def andNot (x m : Nat) : Nat :=
  x &&& (x ^^^ m)

def present : UInt64 := 0x001
def writable : UInt64 := 0x002
def user : UInt64 := 0x004
def accessed : UInt64 := 0x020
def dirty : UInt64 := 0x040
def super : UInt64 := 0x080
def global : UInt64 := 0x100
def executeDisable : UInt64 := (1 : UInt64) <<< 63
def optionMask : UInt64 := executeDisable ||| 0xfff

structure MapOpts where
  accessType : AccessType
  global : Bool
  user : Bool
  deriving DecidableEq, Repr

structure PTE where
  bits : UInt64
  deriving DecidableEq, Repr

namespace PTE

def clear : PTE :=
  ⟨0⟩

def valid (p : PTE) : Bool :=
  p.bits &&& present != 0

def opts (p : PTE) : MapOpts :=
  ⟨⟨p.bits &&& present != 0, p.bits &&& writable != 0, p.bits &&& executeDisable == 0⟩,
    p.bits &&& global != 0, p.bits &&& user != 0⟩

/-- `SetSuper`, which callers only apply to an entry that is not valid. -/
def setSuper : PTE :=
  ⟨super⟩

def isSuper (p : PTE) : Bool :=
  p.bits &&& super != 0

/-- `Set`: the entry for `addr` with `opts`, keeping the super bit. -/
def set (p : PTE) (addr : Nat) (opts : MapOpts) : PTE :=
  if !opts.accessType.any then clear
  else
    let v := (UInt64.ofNat addr &&& ~~~optionMask) ||| present ||| accessed
    let v := if opts.user then v ||| user else v
    let v := if opts.global then v ||| global else v
    let v := if !opts.accessType.execute then v ||| executeDisable else v
    let v := if opts.accessType.write then v ||| writable ||| dirty else v
    ⟨if p.isSuper then v ||| super else v⟩

def setPageTable (addr : Nat) : PTE :=
  ⟨UInt64.ofNat addr ||| present ||| user ||| writable ||| accessed ||| dirty⟩

def address (p : PTE) : Nat :=
  (p.bits &&& ~~~optionMask).toNat

end PTE

/-- The tables by physical address, the root table, and where the allocator
puts the next table. -/
structure PageTables where
  tables : Nat → Nat → PTE
  root : Nat
  nextTable : Nat

namespace PageTables

def entry (pt : PageTables) (table index : Nat) : PTE :=
  pt.tables table index

def write (pt : PageTables) (table index : Nat) (e : PTE) : PageTables :=
  { pt with tables := Function.update pt.tables table (Function.update (pt.tables table) index e) }

/-- `Allocator.NewPTEs`: a fresh zeroed table and its physical address. -/
def newPTEs (pt : PageTables) : PageTables × Nat :=
  ({ pt with tables := Function.update pt.tables pt.nextTable fun _ => PTE.clear,
             nextTable := pt.nextTable + pteSize }, pt.nextTable)

/-- `New`: the root is the first table of an allocator whose pages start at
`base`. -/
def new (base : Nat) : PageTables :=
  let (pt, root) := newPTEs ⟨fun _ _ => PTE.clear, 0, base⟩
  { pt with root }

end PageTables

/-- A visitor: `visit` sees the start address, the entry and the alignment
mask of its level, and may change the entry. -/
structure Visitor (V : Type) where
  visit : V → Nat → PTE → Nat → V × PTE
  requiresAlloc : Bool
  requiresSplit : Bool

structure Walk (V : Type) where
  pt : PageTables
  visitor : V

def next (start size : Nat) : Nat :=
  andNot start (size - 1) + size

section Loops

variable {V : Type} (v : Visitor V)

/-- A level's loop ends with the walk, the new start and the number of
entries of the table it found clear or cleared. -/
abbrev LevelResult (V : Type) := Except String (Walk V × Nat × Nat)

/-- The innermost loop, over the 4 KiB entries of `table` from `index`;
`fuel` is the number of entries left in the table. -/
def pteLoop (table stop : Nat) : Nat → Nat → Walk V → Nat → Nat → LevelResult V
  | 0, _, w, start, clear => .ok (w, start, clear)
  | fuel + 1, index, w, start, clear =>
      if stop ≤ start then .ok (w, start, clear)
      else
        let e := w.pt.entry table index
        if !e.valid && !v.requiresAlloc then
          pteLoop table stop fuel (index + 1) w (start + pteSize) (clear + 1)
        else
          let (visitor, e) := v.visit w.visitor start e (pteSize - 1)
          let w : Walk V := ⟨w.pt.write table index e, visitor⟩
          if !e.valid then
            if v.requiresAlloc then .error "PTE not set after iteration with requiresAlloc!"
            else pteLoop table stop fuel (index + 1) w (start + pteSize) (clear + 1)
          else pteLoop table stop fuel (index + 1) w (start + pteSize) clear

/-- The loop over the entries of a PUD or PMD table: each covers `size`
bytes and is a super page or points at a table that `lower` walks. A split
super page gets children that are super pages themselves when
`splitSuper` (a 1 GiB page split into 2 MiB pages). -/
def superLoop (size : Nat) (splitSuper : Bool) (lower : Nat → Walk V → Nat → LevelResult V)
    (table stop : Nat) : Nat → Nat → Walk V → Nat → Nat → LevelResult V
  | 0, _, w, start, clear => .ok (w, start, clear)
  | fuel + 1, index, w, start, clear =>
      if stop ≤ start then .ok (w, start, clear)
      else
        -- Walk the table at `child`, and free it if all its entries are
        -- clear afterwards.
        let descend (w : Walk V) (child : Nat) : LevelResult V :=
          match lower child w start with
          | .error e => .error e
          | .ok (w, start, clearChild) =>
              if clearChild = entriesPerPage then
                superLoop size splitSuper lower table stop fuel (index + 1)
                  ⟨w.pt.write table index PTE.clear, w.visitor⟩ start (clear + 1)
              else superLoop size splitSuper lower table stop fuel (index + 1) w start clear
        let allocate (w : Walk V) : LevelResult V :=
          let (pt, child) := w.pt.newPTEs
          descend ⟨pt.write table index (PTE.setPageTable child), w.visitor⟩ child
        let e := w.pt.entry table index
        if !e.valid then
          if !v.requiresAlloc then
            superLoop size splitSuper lower table stop fuel (index + 1) w (next start size) (clear + 1)
          else if start &&& (size - 1) = 0 ∧ size ≤ stop - start then
            -- The range covers the whole entry: try a super page.
            let (visitor, e) := v.visit w.visitor start PTE.setSuper (size - 1)
            let w : Walk V := ⟨w.pt.write table index e, visitor⟩
            if e.valid then
              superLoop size splitSuper lower table stop fuel (index + 1) w (next start size) clear
            else allocate w
          else allocate w
        else if e.isSuper then
          if v.requiresSplit ∧ (start &&& (size - 1) ≠ 0 ∨ stop < next start size) then
            let (pt, child) := w.pt.newPTEs
            let base := if splitSuper then PTE.setSuper else PTE.clear
            let pt := { pt with tables := Function.update pt.tables child fun i =>
              if i < entriesPerPage then base.set (e.address + size / entriesPerPage * i) e.opts
              else PTE.clear }
            descend ⟨pt.write table index (PTE.setPageTable child), w.visitor⟩ child
          else
            -- A super page inside the range is visited as it is, and the
            -- walk moves on whether or not the visitor cleared it.
            let (visitor, e) := v.visit w.visitor start e (size - 1)
            superLoop size splitSuper lower table stop fuel (index + 1)
              ⟨w.pt.write table index e, visitor⟩ (next start size) (if e.valid then clear else clear + 1)
        else descend w e.address

def pteLevel (stop table : Nat) (w : Walk V) (start : Nat) : LevelResult V :=
  let index := indexAt start pteShift
  pteLoop v table stop (entriesPerPage - index) index w start 0

def pmdLevel (stop table : Nat) (w : Walk V) (start : Nat) : LevelResult V :=
  let index := indexAt start pmdShift
  superLoop v pmdSize false (pteLevel v stop) table stop (entriesPerPage - index) index w start 0

def pudLevel (stop table : Nat) (w : Walk V) (start : Nat) : LevelResult V :=
  let index := indexAt start pudShift
  superLoop v pudSize true (pmdLevel v stop) table stop (entriesPerPage - index) index w start 0

def pgdLoop (stop : Nat) : Nat → Nat → Walk V → Nat → Except String (Walk V × Nat)
  | 0, _, w, start => .ok (w, start)
  | fuel + 1, index, w, start =>
      if stop ≤ start then .ok (w, start)
      else
        let descend (w : Walk V) (child : Nat) : Except String (Walk V × Nat) :=
          match pudLevel v stop child w start with
          | .error e => .error e
          | .ok (w, start, clearChild) =>
              if clearChild = entriesPerPage then
                pgdLoop stop fuel (index + 1) ⟨w.pt.write w.pt.root index PTE.clear, w.visitor⟩ start
              else pgdLoop stop fuel (index + 1) w start
        let e := w.pt.entry w.pt.root index
        if !e.valid then
          if !v.requiresAlloc then pgdLoop stop fuel (index + 1) w (next start pgdSize)
          else
            let (pt, child) := w.pt.newPTEs
            descend ⟨pt.write pt.root index (PTE.setPageTable child), w.visitor⟩ child
        else descend w e.address

def iterateRangeCanonical (w : Walk V) (start stop : Nat) : Except String (Walk V) :=
  let index := indexAt start pgdShift
  (pgdLoop v stop (entriesPerPage - index) index w start).map Prod.fst

def iterateRange (w : Walk V) (start stop : Nat) : Except String (Walk V) :=
  if start % pteSize ≠ 0 then .error "unaligned start"
  else if stop < start then .error "start > end"
  else if start < lowerTop then
    if stop ≤ lowerTop then iterateRangeCanonical v w start stop
    else if stop ≤ upperBottom then
      if v.requiresAlloc then .error "alloc spans non-canonical range"
      else iterateRangeCanonical v w start lowerTop
    else if v.requiresAlloc then .error "alloc spans non-canonical range"
    else do
      let w ← iterateRangeCanonical v w start lowerTop
      iterateRangeCanonical v w upperBottom stop
  else if start < upperBottom then
    if v.requiresAlloc then .error "alloc spans non-canonical range"
    else if stop ≤ upperBottom then .ok w
    else iterateRangeCanonical v w upperBottom stop
  else iterateRangeCanonical v w start stop

end Loops

structure MapVisitor where
  target : Nat
  physical : Nat
  opts : MapOpts
  prev : Bool

def mapVisitor : Visitor MapVisitor where
  visit v start pte align :=
    let p := addrAdd v.physical (addrSub start v.target)
    let v := if pte.valid ∧ (pte.address ≠ p ∨ pte.opts ≠ v.opts) then { v with prev := true } else v
    -- An entry whose target is not aligned for its level is cleared.
    if p &&& align ≠ 0 then (v, PTE.clear) else (v, pte.set p v.opts)
  requiresAlloc := true
  requiresSplit := true

/-- `unmapVisitor` and `emptyVisitor` count what they visit. -/
def unmapVisitor : Visitor Nat where
  visit count _ _ _ := (count + 1, PTE.clear)
  requiresAlloc := false
  requiresSplit := true

def emptyVisitor : Visitor Nat where
  visit count _ pte _ := (count + 1, pte)
  requiresAlloc := false
  requiresSplit := false

structure LookupVisitor where
  target : Nat
  physical : Nat
  opts : MapOpts

def lookupVisitor : Visitor LookupVisitor where
  visit v start pte _ :=
    if !pte.valid then (v, pte)
    else ({ v with physical := addrAdd pte.address (addrSub start v.target), opts := pte.opts }, pte)
  requiresAlloc := false
  requiresSplit := false

namespace PageTables

def unmap (pt : PageTables) (addr length : Nat) : Except String (PageTables × Bool) :=
  (iterateRange unmapVisitor ⟨pt, 0⟩ addr (addrAdd addr length)).map fun w => (w.pt, 0 < w.visitor)

def map (pt : PageTables) (addr length : Nat) (opts : MapOpts) (physical : Nat) :
    Except String (PageTables × Bool) :=
  if !opts.accessType.any then pt.unmap addr length
  else
    (iterateRange mapVisitor ⟨pt, ⟨addr, physical, opts, false⟩⟩ addr (addrAdd addr length)).map
      fun w => (w.pt, w.visitor.prev)

def isEmpty (pt : PageTables) (addr length : Nat) : Except String (PageTables × Bool) :=
  (iterateRange emptyVisitor ⟨pt, 0⟩ addr (addrAdd addr length)).map fun w => (w.pt, w.visitor = 0)

def lookup (pt : PageTables) (addr : Nat) : Except String (PageTables × Nat × MapOpts) :=
  let mask := pteSize - 1
  let offset := addr &&& mask
  let start : LookupVisitor := ⟨andNot addr mask, 0, ⟨⟨false, false, false⟩, false, false⟩⟩
  -- `addr + 1` wraps only at the last address, which is not page-aligned and
  -- so is rejected before the end is compared.
  (iterateRange lookupVisitor ⟨pt, start⟩ addr (addr + 1)).map
    fun w => (w.pt, addrAdd w.visitor.physical offset, w.visitor.opts)

end PageTables

end Cijitter.Pagetables
