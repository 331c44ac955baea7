import Mathlib

/-! Pathnames (`pkg/fspath`): `Parse`, `Path.String`, and the iterator over
the components of a path. A pathname is a list of characters; the only
character compared is the separator, which is one byte in Go, so that
splitting on characters and on bytes agree. A Go panic is `none`.

`Parse` keeps the first component only; every later one is found by
`Iterator.Next`, whose loop over separators has no bound check and relies on
`Parse` having removed the trailing separators. -/

set_option autoImplicit false

namespace Cijitter.Fspath

def pathSep : Char := '/'

/-- `Iterator`: `partialPathname` runs from the start of the component to
the end of the last component of the pathname, and `stop` is the source's
`end`, the offset just after the component. -/
structure Iterator where
  partialPathname : List Char
  stop : Nat
  deriving DecidableEq, Repr

namespace Iterator

/-- The zero value, the terminal iterator. -/
def terminal : Iterator := ⟨[], 0⟩

def ok (it : Iterator) : Bool := it.partialPathname.length != 0

/-- `Iterator.String`. -/
def toString (it : Iterator) : List Char := it.partialPathname.take it.stop

def nextOk (it : Iterator) : Bool := it.stop != it.partialPathname.length

/-- `Iterator.Next`. Where only separators follow the component, the loop
that skips them indexes past the end and panics. -/
def next (it : Iterator) : Option Iterator :=
  if it.stop = it.partialPathname.length then some terminal
  else
    let rest := it.partialPathname.drop (it.stop + 1)
    let seps := (rest.takeWhile (· == pathSep)).length
    if seps = rest.length then none
    else
      let nextPartialPathname := rest.drop seps
      some ⟨nextPartialPathname, 1 + ((nextPartialPathname.drop 1).takeWhile (· != pathSep)).length⟩

/-- The iterators that `for pit := it; pit.Ok(); pit = pit.Next()` visits,
in order, in at most `fuel` steps; `none` where `Next` panics or the fuel
runs out. -/
def visit : Nat → Iterator → Option (List Iterator)
  | 0, _ => none
  | fuel + 1, it =>
    if it.ok then
      match it.next with
      | some next => (it :: ·) <$> visit fuel next
      | none => none
    else some []

/-- The whole loop: each step shortens `partialPathname`, so its length
bounds the steps. -/
def visitAll (it : Iterator) : Option (List Iterator) := visit (it.partialPathname.length + 1) it

end Iterator

/-- `Path`. -/
structure Path where
  begin : Iterator
  absolute : Bool
  dir : Bool
  deriving DecidableEq, Repr

/-- `Parse`. `i` is the number of leading separators and `j` the offset of
the last byte that is not one. -/
def parse (pathname : List Char) : Path :=
  if pathname = [] then ⟨.terminal, false, false⟩
  else
    let i := (pathname.takeWhile (· == pathSep)).length
    if i = pathname.length then ⟨.terminal, true, true⟩
    else
      let j := pathname.length - 1 - (pathname.reverse.takeWhile (· == pathSep)).length
      let firstEnd := i + 1 + ((pathname.drop (i + 1)).takeWhile (· != pathSep)).length
      ⟨⟨(pathname.drop i).take (j + 1 - i), firstEnd - i⟩, i != 0, j != pathname.length - 1⟩

/-- `Path.String`: the loop writes a separator before every component but
the first, and a trailing one for a directory with components. -/
def Path.toString (p : Path) : Option (List Char) :=
  p.begin.visitAll.map fun its =>
    (if p.absolute then [pathSep] else []) ++ [pathSep].intercalate (its.map Iterator.toString) ++
      (if p.dir && p.begin.ok then [pathSep] else [])

example : (parse "/a//bc/".toList).toString = some "/a/bc/".toList := by decide

end Cijitter.Fspath
