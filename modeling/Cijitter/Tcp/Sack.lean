import Cijitter.Tcp.Seqnum
import Mathlib

/-! The SACK blocks a receiver advertises (`pkg/tcpip/transport/tcp/sack.go`):
at most `MaxSACKBlocks` ranges of sequence numbers received out of order, the
one holding the latest segment first. `UpdateSACKBlocks` merges a segment
into the blocks it touches and puts the result in front when it starts after
`rcvNxt`; `TrimSACKBlockList` drops what `rcvNxt` has passed. Go's array of
`MaxSACKBlocks` with its count `NumBlocks` is a list that carries its bound. -/

set_option autoImplicit false

namespace Cijitter.Tcp

/-- `header.SACKBlock`: the sequence numbers from `start` up to, not
including, `end`. -/
structure SACKBlock where
  start : SeqValue
  «end» : SeqValue
  deriving DecidableEq, Repr

/-- `SACKBlock.Contains`: `b` lies inside `r`. -/
def SACKBlock.contains (r b : SACKBlock) : Bool :=
  lessThanEq r.start b.start && lessThanEq b.end r.end

def maxSACKBlocks : Nat := 6

structure SACKInfo where
  blocks : List SACKBlock
  length_le : blocks.length ≤ maxSACKBlocks

namespace SACKInfo

def empty : SACKInfo :=
  ⟨[], Nat.zero_le _⟩

/-- One turn of `UpdateSACKBlocks`'s loop over the blocks: the blocks kept so
far, and the new block grown by those it touches. -/
def updateTurn (rcvNxt : SeqValue) (acc : List SACKBlock × SACKBlock) (b : SACKBlock) :
    List SACKBlock × SACKBlock :=
  let kept := acc.1
  let newSB := acc.2
  if lessThanEq b.end rcvNxt then (kept, newSB)
  else if lessThanEq newSB.start b.end && lessThanEq b.start newSB.end then
    (kept, ⟨if lessThan b.start newSB.start then b.start else newSB.start,
      if lessThan newSB.end b.end then b.end else newSB.end⟩)
  else (kept ++ [b], newSB)

def updateScan (rcvNxt : SeqValue) (blocks : List SACKBlock) (newSB : SACKBlock) : List SACKBlock × SACKBlock :=
  blocks.foldl (updateTurn rcvNxt) ([], newSB)

theorem updateTurn_length_le (rcvNxt : SeqValue) (acc : List SACKBlock × SACKBlock) (b : SACKBlock) :
    (updateTurn rcvNxt acc b).1.length ≤ acc.1.length + 1 := by
  unfold updateTurn
  dsimp only
  split
  · exact Nat.le_succ _
  · split
    · exact Nat.le_succ _
    · rw [List.length_append, List.length_singleton]

theorem foldl_updateTurn_length_le (rcvNxt : SeqValue) :
    ∀ (blocks : List SACKBlock) (acc : List SACKBlock × SACKBlock),
      (blocks.foldl (updateTurn rcvNxt) acc).1.length ≤ acc.1.length + blocks.length
  | [], acc => Nat.le_refl _
  | b :: rest, acc => by
      have turn := updateTurn_length_le rcvNxt acc b
      have later := foldl_updateTurn_length_le rcvNxt rest (updateTurn rcvNxt acc b)
      rw [List.foldl_cons, List.length_cons]
      omega

theorem updateScan_length_le (rcvNxt : SeqValue) (blocks : List SACKBlock) (newSB : SACKBlock) :
    (updateScan rcvNxt blocks newSB).1.length ≤ blocks.length := by
  have scanned := foldl_updateTurn_length_le rcvNxt blocks ([], newSB)
  rwa [List.length_nil, Nat.zero_add] at scanned

/-- The new block in front of the kept ones, the last of them dropped when
all `MaxSACKBlocks` are taken. -/
def pushFront (newSB : SACKBlock) (kept : List SACKBlock) (fits : kept.length ≤ maxSACKBlocks) : SACKInfo :=
  ⟨newSB :: (if kept.length = maxSACKBlocks then kept.dropLast else kept), by
    have six : maxSACKBlocks = 6 := rfl
    split
    · rename_i full
      rw [List.length_cons, List.length_dropLast]
      omega
    · rename_i notFull
      rw [List.length_cons]
      omega⟩

/-- `UpdateSACKBlocks`. -/
def updateSACKBlocks (sack : SACKInfo) (segStart segEnd rcvNxt : SeqValue) : SACKInfo :=
  let newSB : SACKBlock := ⟨segStart, segEnd⟩
  -- invalid blocks and blocks before `rcvNxt` are ignored
  if lessThanEq newSB.end newSB.start || lessThan newSB.end rcvNxt then sack
  else if sack.blocks.length = 0 then ⟨[newSB], by simp [maxSACKBlocks]⟩
  else
    let scanned := updateScan rcvNxt sack.blocks newSB
    have fits : scanned.1.length ≤ maxSACKBlocks :=
      Nat.le_trans (updateScan_length_le rcvNxt sack.blocks newSB) sack.length_le
    -- an out-of-order segment goes in front
    if lessThan rcvNxt scanned.2.start then pushFront scanned.2 scanned.1 fits
    else ⟨scanned.1, fits⟩

/-- `TrimSACKBlockList`'s treatment of one block. -/
def trimBlock (rcvNxt : SeqValue) (b : SACKBlock) : Option SACKBlock :=
  if lessThanEq b.end rcvNxt then none
  else if lessThan b.start rcvNxt then some { b with start := rcvNxt }
  else some b

/-- `TrimSACKBlockList`. -/
def trimSACKBlockList (sack : SACKInfo) (rcvNxt : SeqValue) : SACKInfo :=
  ⟨sack.blocks.filterMap (trimBlock rcvNxt), Nat.le_trans (List.length_filterMap_le _ _) sack.length_le⟩

/-- Into an empty list, `UpdateSACKBlocks` puts a segment that `rcvNxt` has
already passed: the block `[5, 10)` at `rcvNxt = 10`. -/
theorem updateSACKBlocks_keeps_acked_segment :
    (SACKInfo.empty.updateSACKBlocks 5 10 10).blocks = [⟨5, 10⟩] ∧ lessThan 5 10 = true := by
  decide

end SACKInfo

end Cijitter.Tcp
