import Cijitter.Tcp.Sack
import Cijitter.Lib.OrderedTree

/-! The sender's SACK scoreboard (`pkg/tcpip/transport/tcp/sack_scoreboard.go`):
the ranges the peer has acknowledged selectively, kept disjoint in a
`github.com/google/btree` tree ordered by `SACKBlock.Less`, with the count of
bytes they hold. The tree is a parameter, `tree`, of any type `T`: the
properties take it to keep the B-tree's contract (`OrderedTree.Lawful`).
The visitors of `AscendGreaterOrEqual` and `DescendLessOrEqual` here only
change the loop's own variables, so each visits the tree as it was when the
loop began. -/

set_option autoImplicit false

namespace Cijitter.Tcp

/-- `SACKBlock.Less`: the blocks are ordered by their starts. -/
def SACKBlock.less (r b : SACKBlock) : Bool :=
  lessThan r.start b.start

/-- `v.Size(w)`: the number of sequence numbers from `v` up to `w`. -/
def seqSize (v w : SeqValue) : SeqSize :=
  w - v

structure SACKScoreboard (T : Type) where
  smss : UInt16
  maxSACKED : SeqValue
  sacked : SeqSize
  ranges : T

namespace SACKScoreboard

variable {T : Type} (tree : OrderedTree.Ops SACKBlock T)

/-- The most ranges the scoreboard takes; `Insert` then ignores new ones. -/
def maxSACKBlocks : Nat := 100

def newSACKScoreboard (smss : UInt16) (iss : SeqValue) : SACKScoreboard T :=
  ⟨smss, iss, 0, tree.new⟩

def empty (s : SACKScoreboard T) : Bool :=
  tree.len s.ranges = 0

/-- `Insert`'s visit of the ranges at or after the new one: they merge into it
up to the first hole. Its state is the block being inserted and the ranges
to delete. -/
def insertAscend (st : SACKBlock × List SACKBlock) (i : SACKBlock) : Bool × (SACKBlock × List SACKBlock) :=
  let r := st.1
  if i = r then (true, st)
  else if lessThan r.end i.start then (false, st)
  -- `i` lies inside the new block
  else if lessThan i.end r.end then (true, (r, st.2 ++ [i]))
  else (true, ({ r with «end» := i.end }, st.2 ++ [i]))

/-- `Insert`'s visit of the ranges at or before it: a range reaching into it
merges. -/
def insertDescend (st : SACKBlock × List SACKBlock) (i : SACKBlock) : Bool × (SACKBlock × List SACKBlock) :=
  let r := st.1
  if i = r then (true, st)
  else if lessThan i.end r.start then (false, st)
  else
    let r := { r with start := i.start }
    let r := if lessThan r.end i.end then { r with «end» := i.end } else r
    (true, (r, st.2 ++ [i]))

/-- `Insert`'s deletion loop: a range found in the tree comes off the count. -/
def deleteRange (acc : T × SeqSize) (i : SACKBlock) : T × SeqSize :=
  let deleted := tree.delete acc.1 i
  match deleted.2 with
  | some _ => (deleted.1, acc.2 - seqSize i.start i.end)
  | none => (deleted.1, acc.2)

/-- `SACKScoreboard.Insert`. -/
def insert (s : SACKScoreboard T) (r : SACKBlock) : SACKScoreboard T :=
  if maxSACKBlocks ≤ tree.len s.ranges then s
  else
    let maxSACKED := if lessThan s.maxSACKED (r.end - 1) then r.end - 1 else s.maxSACKED
    let up := OrderedTree.iterate insertAscend (tree.ascendGreaterOrEqual s.ranges r) (r, [])
    let down := OrderedTree.iterate insertDescend (tree.descendLessOrEqual s.ranges up.1) up
    let deleted := down.2.foldl (deleteRange tree) (s.ranges, s.sacked)
    let replaced := tree.replaceOrInsert deleted.1 down.1
    { s with
      maxSACKED := maxSACKED
      ranges := replaced.1
      sacked := if replaced.2.isNone then deleted.2 + seqSize down.1.start down.1.end else deleted.2 }

/-- `IsSACKED`'s visit of the ranges at or before `r`. -/
def isSACKEDTurn (r : SACKBlock) (found : Bool) (sacked : SACKBlock) : Bool × Bool :=
  if lessThan sacked.end r.start then (false, found)
  else if sacked.contains r then (false, true)
  else (true, found)

/-- `SACKScoreboard.IsSACKED`. -/
def isSACKED (s : SACKScoreboard T) (r : SACKBlock) : Bool :=
  if s.empty tree then false
  else OrderedTree.iterate (isSACKEDTurn r) (tree.descendLessOrEqual s.ranges r) false

/-- `Delete`'s visit of the ranges at or before `seq`, which never stops: the
ranges to delete, the rest after `seq` of a range reaching past it, and the
count. -/
def deleteTurn (seq : SeqValue) (st : List SACKBlock × List SACKBlock × SeqSize) (sb : SACKBlock) :
    List SACKBlock × List SACKBlock × SeqSize :=
  if sb = ⟨seq, seq + 1⟩ then st
  else if lessThanEq sb.end seq then (st.1 ++ [sb], st.2.1, st.2.2 - seqSize sb.start sb.end)
  else (st.1 ++ [sb], st.2.1 ++ [⟨seq, sb.end⟩], st.2.2 - seqSize sb.start seq)

/-- `SACKScoreboard.Delete`: everything before `seq` goes. -/
def delete (s : SACKScoreboard T) (seq : SeqValue) : SACKScoreboard T :=
  if s.empty tree then s
  else
    let visited := (tree.descendLessOrEqual s.ranges ⟨seq, seq + 1⟩).foldl (deleteTurn seq) ([], [], s.sacked)
    let ranges := visited.1.foldl (fun ranges sb => (tree.delete ranges sb).1) s.ranges
    let ranges := visited.2.1.foldl (fun ranges sb => (tree.replaceOrInsert ranges sb).1) ranges
    { s with ranges := ranges, sacked := visited.2.2 }

end SACKScoreboard

end Cijitter.Tcp
