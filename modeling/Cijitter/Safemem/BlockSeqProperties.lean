import Cijitter.Safemem.BlockSeq

/-! What a `BlockSeq` stands for, and that the code keeps to it. A list of
blocks stands for the addresses of its blocks one after another; cutting it
after or before `n` bytes (`dropBytes`, `takeBytes`) cuts those addresses.
Each of the three forms of a `BlockSeq` stands for such a list (`view`):
the window form for the non-empty blocks of its array from the offset, cut
at the limit. Under the invariants the source states for each form
(`Valid`), which every constructor and operation keeps, `Head` and `Tail`
are the first block of the view and the rest, `DropFirst64` and
`TakeFirst64` cut the view, and `CopySeq` copies the source's addresses
over the destination's one for one, when it writes no address twice and
reads none it wrote. -/

set_option autoImplicit false

namespace Cijitter.Safemem

/-! ## Sequences of blocks -/

namespace Block

/-- The addresses a block covers, in order. -/
def addresses (b : Block) : List Nat := List.range' b.start b.length

@[simp] theorem length_addresses (b : Block) : b.addresses.length = b.length := List.length_range'

theorem addresses_dropFirst64 (b : Block) (n : Nat) : (b.dropFirst64 n).addresses = b.addresses.drop n := by
  unfold dropFirst64 addresses
  split
  · rename_i past
    rw [List.drop_of_length_le (by simpa using past)]
    rfl
  · rw [List.drop_range']
    simp

theorem take_addresses (b : Block) {n : Nat} (fits : n ≤ b.length) : b.addresses.take n = List.range' b.start n := by
  have whole : b.addresses = List.range' b.start n ++ List.range' (b.start + n) (b.length - n) := by
    rw [addresses, List.range'_append_1, Nat.add_sub_cancel' fits]
  rw [whole, List.take_left' (by simp)]

theorem addresses_takeFirst64 (b : Block) (n : Nat) : (b.takeFirst64 n).addresses = b.addresses.take n := by
  unfold takeFirst64
  split
  · rename_i zero
    rw [zero, List.take_zero]
    rfl
  · split
    · rename_i past
      rw [List.take_of_length_le (by simpa using past)]
    · rename_i short
      rw [take_addresses b (by omega)]
      rfl

theorem length_dropFirst64 (b : Block) (n : Nat) : (b.dropFirst64 n).length = b.length - n := by
  unfold dropFirst64
  split
  · rename_i past
    show 0 = _
    omega
  · rfl

theorem length_takeFirst64 (b : Block) (n : Nat) : (b.takeFirst64 n).length = min n b.length := by
  unfold takeFirst64
  split
  · rename_i zero
    show 0 = _
    omega
  · split
    · omega
    · show n = _
      omega

theorem takeFirst64_of_pos (b : Block) {n : Nat} (pos : 0 < n) :
    b.takeFirst64 n = ⟨b.start, min n b.length, b.needSafecopy, Nat.lt_of_le_of_lt (Nat.min_le_right _ _) b.length_lt⟩ := by
  obtain ⟨start, length, needSafecopy, _⟩ := b
  unfold takeFirst64
  rw [if_neg (by omega)]
  split
  all_goals
    rename_i compared
    dsimp only at compared
    simp only [mk.injEq, true_and, and_true]
    omega

theorem dropFirst64_of_lt (b : Block) {n : Nat} (inside : n < b.length) :
    b.dropFirst64 n = ⟨b.start + n, b.length - n, b.needSafecopy, Nat.lt_of_le_of_lt (Nat.sub_le _ _) b.length_lt⟩ := by
  rw [dropFirst64, if_neg (by omega)]

theorem takeFirst64_of_length_le (b : Block) {n : Nat} (fits : b.length ≤ n) (pos : 0 < n) : b.takeFirst64 n = b := by
  rw [takeFirst64, if_neg (by omega), dif_pos fits]

theorem dropFirst64_dropFirst64 (b : Block) {offset n : Nat} (inside : offset + n < b.length) :
    (b.dropFirst64 offset).dropFirst64 n = b.dropFirst64 (offset + n) := by
  rw [dropFirst64_of_lt b (by omega), dropFirst64_of_lt _ (show n < b.length - offset by omega),
    dropFirst64_of_lt b inside]
  simp only [mk.injEq, and_true]
  omega

theorem takeFirst64_takeFirst64 (b : Block) {n limit : Nat} (below : n ≤ limit) :
    (b.takeFirst64 limit).takeFirst64 n = b.takeFirst64 n := by
  by_cases zero : n = 0
  · rw [zero]
    rfl
  · rw [takeFirst64_of_pos _ (by omega), takeFirst64_of_pos _ (by omega), takeFirst64_of_pos _ (by omega)]
    simp only [mk.injEq, true_and, and_true]
    omega

end Block

/-- The addresses of blocks one after another: the bytes the blocks stand
for. -/
def addresses (blocks : List Block) : List Nat := blocks.flatMap Block.addresses

@[simp] theorem addresses_nil : addresses [] = [] := rfl

@[simp] theorem addresses_cons (b : Block) (blocks : List Block) :
    addresses (b :: blocks) = b.addresses ++ addresses blocks := List.flatMap_cons

/-- The blocks that are not empty. -/
def nonEmpty (blocks : List Block) : List Block := blocks.filter (·.length ≠ 0)

theorem nonEmpty_cons_of_pos {b : Block} (blocks : List Block) (nonzero : 0 < b.length) :
    nonEmpty (b :: blocks) = b :: nonEmpty blocks :=
  List.filter_cons_of_pos (by simpa [Nat.pos_iff_ne_zero] using nonzero)

theorem nonEmpty_cons_of_zero {b : Block} (blocks : List Block) (zero : b.length = 0) :
    nonEmpty (b :: blocks) = nonEmpty blocks :=
  List.filter_cons_of_neg (by simpa using zero)

theorem addresses_nonEmpty : ∀ blocks : List Block, addresses (nonEmpty blocks) = addresses blocks
  | [] => rfl
  | b :: blocks => by
    by_cases empty : b.length = 0
    · have none : b.addresses = [] := List.eq_nil_of_length_eq_zero (by simpa using empty)
      rw [nonEmpty_cons_of_zero blocks empty, addresses_nonEmpty blocks, addresses_cons, none, List.nil_append]
    · rw [nonEmpty_cons_of_pos blocks (Nat.pos_of_ne_zero empty), addresses_cons, addresses_cons,
        addresses_nonEmpty blocks]

/-- The blocks of the first `n` bytes, the last of them cut at the `n`th. -/
def takeBytes : Nat → List Block → List Block
  | _, [] => []
  | n, b :: blocks => if n = 0 then [] else if n ≤ b.length then [b.takeFirst64 n] else b :: takeBytes (n - b.length) blocks

/-- The blocks after the first `n` bytes, the first of them cut at the `n`th. -/
def dropBytes : Nat → List Block → List Block
  | _, [] => []
  | n, b :: blocks => if n < b.length then b.dropFirst64 n :: blocks else dropBytes (n - b.length) blocks

theorem addresses_takeBytes : ∀ (n : Nat) (blocks : List Block), addresses (takeBytes n blocks) = (addresses blocks).take n
  | _, [] => by simp [takeBytes]
  | n, b :: blocks => by
    rw [takeBytes]
    split
    · rename_i zero
      rw [zero, List.take_zero, addresses_nil]
    · split
      · rename_i fits
        rw [addresses_cons, addresses_nil, List.append_nil, addresses_cons, Block.addresses_takeFirst64,
          List.take_append_of_le_length (by simpa using fits)]
      · rename_i beyond
        have whole : b.addresses.length ≤ n := by simp; omega
        rw [addresses_cons, addresses_cons, addresses_takeBytes, List.take_append, List.take_of_length_le whole,
          Block.length_addresses]

theorem addresses_dropBytes : ∀ (n : Nat) (blocks : List Block), addresses (dropBytes n blocks) = (addresses blocks).drop n
  | _, [] => by simp [dropBytes]
  | n, b :: blocks => by
    rw [dropBytes]
    split
    · rename_i inside
      rw [addresses_cons, addresses_cons, Block.addresses_dropFirst64, List.drop_append_of_le_length (by simp; omega)]
    · rename_i beyond
      have whole : b.addresses.length ≤ n := by simp; omega
      rw [addresses_dropBytes, addresses_cons, List.drop_append, List.drop_of_length_le whole, List.nil_append,
        Block.length_addresses]

theorem length_addresses_takeBytes (n : Nat) (blocks : List Block) :
    (addresses (takeBytes n blocks)).length = min n (addresses blocks).length := by
  rw [addresses_takeBytes, List.length_take]

/-- Every block is non-empty. -/
def AllNonEmpty (blocks : List Block) : Prop := ∀ b ∈ blocks, 0 < b.length

theorem allNonEmpty_nonEmpty (blocks : List Block) : AllNonEmpty (nonEmpty blocks) := by
  intro b member
  rw [nonEmpty, List.mem_filter] at member
  simpa [Nat.pos_iff_ne_zero] using member.2

theorem takeBytes_zero (blocks : List Block) : takeBytes 0 blocks = [] := by
  cases blocks <;> rfl

theorem takeBytes_cons_of_le {b : Block} {n : Nat} (blocks : List Block) (nonzero : 0 < n) (fits : n ≤ b.length) :
    takeBytes n (b :: blocks) = [b.takeFirst64 n] := by
  rw [takeBytes, if_neg (by omega), if_pos fits]

theorem takeBytes_cons_of_lt {b : Block} {n : Nat} (blocks : List Block) (beyond : b.length < n) :
    takeBytes n (b :: blocks) = b :: takeBytes (n - b.length) blocks := by
  rw [takeBytes, if_neg (by omega), if_neg (by omega)]

theorem dropBytes_cons_of_lt {b : Block} {n : Nat} (blocks : List Block) (inside : n < b.length) :
    dropBytes n (b :: blocks) = b.dropFirst64 n :: blocks := by
  rw [dropBytes, if_pos inside]

theorem dropBytes_cons_of_le {b : Block} {n : Nat} (blocks : List Block) (past : b.length ≤ n) :
    dropBytes n (b :: blocks) = dropBytes (n - b.length) blocks := by
  rw [dropBytes, if_neg (by omega)]

theorem AllNonEmpty.takeBytes {blocks : List Block} (solid : AllNonEmpty blocks) (n : Nat) :
    AllNonEmpty (takeBytes n blocks) := by
  induction blocks generalizing n with
  | nil => simp [Safemem.takeBytes, AllNonEmpty]
  | cons b blocks ih =>
    have first := solid b List.mem_cons_self
    have later : AllNonEmpty blocks := fun c member => solid c (List.mem_cons_of_mem b member)
    by_cases zero : n = 0
    · rw [zero, takeBytes_zero]
      simp [AllNonEmpty]
    by_cases fits : n ≤ b.length
    · rw [takeBytes_cons_of_le blocks (by omega) fits]
      intro c member
      rw [List.mem_singleton] at member
      rw [member, Block.length_takeFirst64]
      omega
    · rw [takeBytes_cons_of_lt blocks (by omega)]
      intro c member
      rcases List.mem_cons.mp member with rfl | later'
      · exact first
      · exact ih later _ c later'

theorem AllNonEmpty.dropBytes {blocks : List Block} (solid : AllNonEmpty blocks) (n : Nat) :
    AllNonEmpty (dropBytes n blocks) := by
  induction blocks generalizing n with
  | nil => simp [Safemem.dropBytes, AllNonEmpty]
  | cons b blocks ih =>
    have later : AllNonEmpty blocks := fun c member => solid c (List.mem_cons_of_mem b member)
    by_cases inside : n < b.length
    · rw [dropBytes_cons_of_lt blocks inside]
      intro c member
      rcases List.mem_cons.mp member with rfl | later'
      · rw [Block.length_dropFirst64]
        omega
      · exact later c later'
    · rw [dropBytes_cons_of_le blocks (by omega)]
      exact ih later _

theorem takeBytes_takeBytes {n limit : Nat} (below : n ≤ limit) (blocks : List Block) :
    takeBytes n (takeBytes limit blocks) = takeBytes n blocks := by
  induction blocks generalizing n limit with
  | nil => rfl
  | cons b blocks ih =>
    by_cases zero : n = 0
    · rw [zero, takeBytes_zero, takeBytes_zero]
    by_cases fits : limit ≤ b.length
    · rw [takeBytes_cons_of_le blocks (by omega) fits, takeBytes_cons_of_le [] (by omega) (by
        rw [Block.length_takeFirst64]; omega), takeBytes_cons_of_le blocks (by omega) (by omega),
        Block.takeFirst64_takeFirst64 b below]
    · rw [takeBytes_cons_of_lt blocks (by omega)]
      by_cases within : n ≤ b.length
      · rw [takeBytes_cons_of_le _ (by omega) within, takeBytes_cons_of_le _ (by omega) within]
      · rw [takeBytes_cons_of_lt _ (by omega), takeBytes_cons_of_lt _ (by omega), ih (by omega)]

theorem takeBytes_of_le {blocks : List Block} (solid : AllNonEmpty blocks) {n : Nat} (all : (addresses blocks).length ≤ n) :
    takeBytes n blocks = blocks := by
  induction blocks generalizing n with
  | nil => rfl
  | cons b blocks ih =>
    have first := solid b List.mem_cons_self
    have later : AllNonEmpty blocks := fun c member => solid c (List.mem_cons_of_mem b member)
    rw [addresses_cons, List.length_append, Block.length_addresses] at all
    by_cases fits : n ≤ b.length
    · -- the first block takes all `n` bytes, so no bytes are left for the others
      have none : addresses blocks = [] := List.eq_nil_of_length_eq_zero (by omega)
      have rest : blocks = [] := by
        cases blocks with
        | nil => rfl
        | cons c _ =>
          have := later c List.mem_cons_self
          have count := congrArg List.length none
          rw [addresses_cons, List.length_append, Block.length_addresses, List.length_nil] at count
          omega
      rw [rest, takeBytes_cons_of_le [] (by omega) fits, Block.takeFirst64_of_length_le b (by omega) (by omega)]
    · rw [takeBytes_cons_of_lt blocks (by omega), ih later (by omega)]

theorem dropBytes_of_le {blocks : List Block} {n : Nat} (all : (addresses blocks).length ≤ n) : dropBytes n blocks = [] := by
  induction blocks generalizing n with
  | nil => rfl
  | cons b blocks ih =>
    rw [addresses_cons, List.length_append, Block.length_addresses] at all
    rw [dropBytes_cons_of_le blocks (by omega), ih (by omega)]

theorem dropBytes_takeBytes_cons_of_lt {h : Block} (blocks : List Block) {n limit : Nat} (inside : n < h.length)
    (below : n < limit) :
    dropBytes n (takeBytes limit (h :: blocks)) = takeBytes (limit - n) (h.dropFirst64 n :: blocks) := by
  have shorter : (h.dropFirst64 n).length = h.length - n := Block.length_dropFirst64 h n
  by_cases fits : limit ≤ h.length
  · rw [takeBytes_cons_of_le blocks (by omega) fits, dropBytes_cons_of_lt [] (by rw [Block.length_takeFirst64]; omega),
      takeBytes_cons_of_le blocks (by omega) (by omega), Block.takeFirst64_of_pos _ (by omega),
      Block.dropFirst64_of_lt _ (show n < min limit h.length by omega), Block.dropFirst64_of_lt _ inside,
      Block.takeFirst64_of_pos _ (by omega)]
    simp only [List.cons.injEq, Block.mk.injEq, true_and, and_true]
    omega
  · rw [takeBytes_cons_of_lt blocks (by omega), dropBytes_cons_of_lt _ inside, takeBytes_cons_of_lt blocks (by omega),
      shorter, show limit - n - (h.length - n) = limit - h.length by omega]

/-! ## What a `BlockSeq` stands for -/

namespace BlockSeq

/-- The blocks a `BlockSeq` stands for: for the window form, those of the
array that are not empty, from `offset` bytes into the first and for `limit`
bytes. -/
def view : BlockSeq → List Block
  | empty => []
  | inline block => [block]
  | window first rest offset limit => takeBytes limit (nonEmpty (first.dropFirst64 offset :: rest))

/-- The invariants the source states for each form of a `BlockSeq`. -/
inductive Valid : BlockSeq → Prop
  | empty : Valid empty
  | inline {block : Block} (nonzero : 0 < block.length) : Valid (inline block)
  | window {first : Block} {rest : List Block} {offset limit : Nat} (several : rest ≠ [])
      (inside : offset < first.length) (nonzero : 0 < limit)
      (within : offset + limit ≤ first.length + (addresses rest).length) : Valid (window first rest offset limit)

theorem nonEmpty_skipEmpty : ∀ slice : List Block, nonEmpty (skipEmpty slice) = nonEmpty slice
  | [] => rfl
  | b :: rest => by
    unfold skipEmpty
    split
    · rfl
    · rename_i empty
      rw [nonEmpty_skipEmpty rest, nonEmpty_cons_of_zero rest (by simpa using empty)]

theorem addresses_skipEmpty (slice : List Block) : addresses (skipEmpty slice) = addresses slice := by
  rw [← addresses_nonEmpty, nonEmpty_skipEmpty, addresses_nonEmpty]

theorem head_skipEmpty_pos : ∀ {slice : List Block} {b : Block}, (skipEmpty slice).head? = some b → 0 < b.length
  | [], _, found => by cases found
  | c :: rest, b, found => by
    unfold skipEmpty at found
    split at found
    · rename_i nonzero
      cases found
      omega
    · exact head_skipEmpty_pos found

theorem blockSeqFromSliceLimited_spec (slice : List Block) (starts : ∀ b, slice.head? = some b → 0 < b.length)
    {limit : Nat} (nonzero : 0 < limit) (covered : limit ≤ (addresses slice).length) :
    Valid (blockSeqFromSliceLimited slice limit) ∧
      view (blockSeqFromSliceLimited slice limit) = takeBytes limit (nonEmpty slice) := by
  match slice, starts, covered with
  | [], _, covered => simp at covered; omega
  | [b], starts, covered =>
    have first := starts b rfl
    simp only [addresses_cons, addresses_nil, List.append_nil, Block.length_addresses] at covered
    have cut : (b.takeFirst64 limit).length = limit := by rw [Block.length_takeFirst64]; omega
    rw [blockSeqFromSliceLimited, blockSeqOf, if_neg (by omega), nonEmpty_cons_of_pos [] first,
      takeBytes_cons_of_le _ nonzero covered]
    exact ⟨.inline (by omega), rfl⟩
  | first :: second :: rest, starts, covered =>
    have nonzeroFirst := starts first rfl
    have whole : first.dropFirst64 0 = first := by
      rw [Block.dropFirst64_of_lt _ nonzeroFirst]
      rfl
    rw [addresses_cons, List.length_append, Block.length_addresses] at covered
    refine ⟨.window (List.cons_ne_nil _ _) nonzeroFirst nonzero (by omega), ?_⟩
    rw [blockSeqFromSliceLimited, view, whole]

theorem Valid.allNonEmpty {bs : BlockSeq} (valid : Valid bs) : AllNonEmpty bs.view := by
  cases valid with
  | empty => simp [view, AllNonEmpty]
  | inline nonzero =>
    intro b member
    rw [view, List.mem_singleton] at member
    exact member ▸ nonzero
  | window => exact (allNonEmpty_nonEmpty _).takeBytes _

theorem Valid.view_window {first : Block} {rest : List Block} {offset limit : Nat}
    (valid : Valid (BlockSeq.window first rest offset limit)) :
    (BlockSeq.window first rest offset limit).view = takeBytes limit (first.dropFirst64 offset :: nonEmpty rest) := by
  cases valid with
  | window _ inside =>
    rw [view, nonEmpty_cons_of_pos _ (by rw [Block.length_dropFirst64]; omega)]

theorem Valid.numBytes_eq {bs : BlockSeq} (valid : Valid bs) : bs.numBytes = (addresses bs.view).length := by
  cases valid with
  | empty => rfl
  | inline => simp [numBytes, view]
  | window _ inside _ within =>
    rw [numBytes, view, length_addresses_takeBytes, addresses_nonEmpty, addresses_cons, List.length_append,
      Block.addresses_dropFirst64, List.length_drop, Block.length_addresses]
    omega

theorem Valid.view_eq_nil_iff {bs : BlockSeq} (valid : Valid bs) : bs.view = [] ↔ bs.isEmpty := by
  have counted := valid.numBytes_eq
  cases valid with
  | empty => simp [view, isEmpty]
  | inline => simp [view, isEmpty]
  | window _ _ nonzero =>
    simp only [isEmpty, Bool.false_eq_true, iff_false]
    intro none
    rw [none, numBytes, addresses_nil, List.length_nil] at counted
    omega

theorem Valid.isEmpty_iff {bs : BlockSeq} (valid : Valid bs) : bs.isEmpty = true ↔ bs.numBytes = 0 := by
  cases valid with
  | empty => simp [isEmpty, numBytes]
  | inline nonzero => simp only [isEmpty, numBytes, Bool.false_eq_true, false_iff]; omega
  | window _ _ nonzero => simp only [isEmpty, numBytes, Bool.false_eq_true, false_iff]; omega

theorem Valid.head_eq {bs : BlockSeq} (valid : Valid bs) : bs.head = bs.view.head? := by
  cases bs with
  | empty => rfl
  | inline => rfl
  | window first rest offset limit =>
    have nonzero : 0 < limit := by cases valid with | window _ _ nonzero => exact nonzero
    rw [valid.view_window, head]
    by_cases fits : limit ≤ (first.dropFirst64 offset).length
    · rw [takeBytes_cons_of_le _ nonzero fits]
      rfl
    · rw [takeBytes_cons_of_lt _ (by omega), List.head?_cons, Block.takeFirst64_of_length_le _ (by omega) nonzero]

theorem Valid.windowTail {first : Block} {rest : List Block} {offset limit : Nat}
    (valid : Valid (BlockSeq.window first rest offset limit)) :
    Valid (windowTail first rest offset limit) ∧
      (windowTail first rest offset limit).view = (BlockSeq.window first rest offset limit).view.tail := by
  have viewed := valid.view_window
  cases valid with
  | window _ inside nonzero within =>
    have headLength : (first.dropFirst64 offset).length = first.length - offset := Block.length_dropFirst64 first offset
    unfold BlockSeq.windowTail
    dsimp only
    split
    · rename_i exhausted
      rw [viewed, takeBytes_cons_of_le _ nonzero exhausted]
      exact ⟨.empty, rfl⟩
    · rename_i more
      -- the rest of the array covers what is left of the limit
      obtain ⟨valid', viewed'⟩ := blockSeqFromSliceLimited_spec (skipEmpty rest) (fun _ found => head_skipEmpty_pos found)
        (show 0 < limit - (first.dropFirst64 offset).length by omega)
        (by rw [addresses_skipEmpty]; omega)
      rw [nonEmpty_skipEmpty] at viewed'
      rw [viewed, takeBytes_cons_of_lt _ (by omega), List.tail_cons]
      exact ⟨valid', viewed'⟩

theorem isEmpty_of_tail {bs rest : BlockSeq} (stepped : bs.tail = some rest) : bs.isEmpty = false := by
  cases bs with
  | empty => cases stepped
  | inline => rfl
  | window => rfl

theorem Valid.tail {bs : BlockSeq} (valid : Valid bs) (nonempty : bs.isEmpty = false) :
    ∃ rest, bs.tail = some rest ∧ Valid rest ∧ rest.view = bs.view.tail := by
  have viewed := valid
  cases valid with
  | empty => cases nonempty
  | inline => exact ⟨BlockSeq.empty, rfl, .empty, rfl⟩
  | window =>
    obtain ⟨valid', viewed'⟩ := viewed.windowTail
    exact ⟨_, rfl, valid', viewed'⟩

theorem Valid.dropFirst64Loop {bs : BlockSeq} (valid : Valid bs) {n : Nat} (below : n < bs.numBytes) :
    ∃ dropped, dropFirst64Loop n bs = some dropped ∧ Valid dropped ∧ dropped.view = dropBytes n bs.view := by
  fun_induction BlockSeq.dropFirst64Loop n bs with
  | case1 n => exact absurd below (Nat.not_lt_zero n)
  | case2 n block inside =>
    have shorter : (block.dropFirst64 n).length = block.length - n := Block.length_dropFirst64 block n
    refine ⟨_, rfl, ?_⟩
    rw [blockSeqOf, if_neg (by omega), view, view, dropBytes_cons_of_lt [] inside]
    exact ⟨.inline (by omega), rfl⟩
  | case3 n block past => exact absurd below past
  | case4 n first rest offset limit headLen inside =>
    obtain ⟨several, _, nonzero, within⟩ : rest ≠ [] ∧ offset < first.length ∧ 0 < limit ∧
        offset + limit ≤ first.length + (addresses rest).length := by
      cases valid with | window several inside nonzero within => exact ⟨several, inside, nonzero, within⟩
    -- the drop ends within the head block: the offset moves and the limit shrinks
    have valid' : Valid (BlockSeq.window first rest (offset + n) (limit - n)) :=
      .window several (by omega) (by simp only [numBytes] at below; omega) (by omega)
    refine ⟨_, rfl, valid', ?_⟩
    have headLength : (first.dropFirst64 offset).length = first.length - offset := Block.length_dropFirst64 first offset
    simp only [numBytes] at below
    rw [valid'.view_window, valid.view_window, dropBytes_takeBytes_cons_of_lt _ (by omega) below,
      Block.dropFirst64_dropFirst64 first (by omega)]
  | case5 n first rest offset limit headLen past ih =>
    obtain ⟨validTail, viewedTail⟩ := valid.windowTail
    have headLength : (first.dropFirst64 offset).length = first.length - offset := Block.length_dropFirst64 first offset
    have viewed := valid.view_window
    simp only [numBytes] at below
    rw [takeBytes_cons_of_lt _ (by omega)] at viewed
    -- the tail holds the bytes of the limit after the head block
    have tailBytes : (BlockSeq.windowTail first rest offset limit).numBytes = limit - (first.length - offset) := by
      have whole := valid.numBytes_eq
      rw [validTail.numBytes_eq, viewedTail, viewed, List.tail_cons]
      rw [viewed, addresses_cons, List.length_append, Block.length_addresses, numBytes] at whole
      omega
    obtain ⟨dropped, found, validDropped, viewedDropped⟩ := ih validTail (by omega)
    refine ⟨dropped, found, validDropped, ?_⟩
    rw [viewedDropped, viewedTail, viewed, List.tail_cons, dropBytes_cons_of_le _ (by omega), headLength]

theorem Valid.dropFirst64 {bs : BlockSeq} (valid : Valid bs) (n : Nat) :
    ∃ dropped, bs.dropFirst64 n = some dropped ∧ Valid dropped ∧ dropped.view = dropBytes n bs.view := by
  unfold BlockSeq.dropFirst64
  split
  · rename_i past
    rw [valid.numBytes_eq] at past
    exact ⟨_, rfl, .empty, (dropBytes_of_le past).symm⟩
  · exact valid.dropFirst64Loop (by omega)

theorem withLimit_inline (block : Block) (n : Nat) (below : n < (inline block).numBytes) :
    (inline block).withLimit n below =
      inline ⟨block.start, n, block.needSafecopy, Nat.lt_trans below block.length_lt⟩ := rfl

theorem withLimit_window (first : Block) (rest : List Block) (offset limit n : Nat)
    (below : n < (window first rest offset limit).numBytes) :
    (window first rest offset limit).withLimit n below = window first rest offset n := rfl

theorem Valid.takeFirst64 {bs : BlockSeq} (valid : Valid bs) (n : Nat) :
    Valid (bs.takeFirst64 n) ∧ (bs.takeFirst64 n).view = takeBytes n bs.view := by
  unfold BlockSeq.takeFirst64
  split
  · rename_i zero
    rw [zero, takeBytes_zero]
    exact ⟨.empty, rfl⟩
  · split
    · rename_i nonzero below
      cases valid with
      | empty => exact absurd below (Nat.not_lt_zero n)
      | @inline block =>
        have short : n < block.length := below
        refine ⟨.inline (by dsimp only; omega), ?_⟩
        rw [withLimit_inline, view, view, takeBytes_cons_of_le [] (by omega) (by omega),
          Block.takeFirst64_of_pos _ (by omega)]
        simp only [List.cons.injEq, Block.mk.injEq, true_and, and_true]
        omega
      | @window first rest offset limit several inside _ within =>
        have short : n < limit := below
        -- a window cut shorter keeps its array and offset
        refine ⟨.window several inside (by omega) (by omega), ?_⟩
        rw [withLimit_window, view, view, takeBytes_takeBytes (by omega)]
    · rename_i short
      rw [valid.numBytes_eq] at short
      exact ⟨valid, (takeBytes_of_le valid.allNonEmpty (by omega)).symm⟩

theorem valid_blockSeqOf (b : Block) : Valid (blockSeqOf b) ∧ (blockSeqOf b).view = nonEmpty [b] := by
  unfold blockSeqOf
  split
  · rename_i zero
    exact ⟨.empty, (by rw [nonEmpty_cons_of_zero [] zero]; rfl)⟩
  · rename_i nonzero
    exact ⟨.inline (by omega), (by rw [nonEmpty_cons_of_pos [] (by omega)]; rfl)⟩

theorem sumLengths_eq : ∀ (limit : Nat) (slice : List Block), limit < 2 ^ 64 →
    sumLengths limit slice = if limit + (addresses slice).length < 2 ^ 64 then some (limit + (addresses slice).length) else none
  | limit, [], small => by
    rw [sumLengths, addresses_nil, List.length_nil, Nat.add_zero, if_pos small]
  | limit, b :: rest, small => by
    have short : b.length < 2 ^ 63 := b.length_lt
    rw [sumLengths, addresses_cons, List.length_append, Block.length_addresses]
    by_cases fits : limit + b.length < 2 ^ 64
    · rw [Nat.mod_eq_of_lt fits, if_neg (by omega), sumLengths_eq (limit + b.length) rest fits, Nat.add_assoc]
    · -- the sum wraps below `limit`
      have wrapped : (limit + b.length) % 2 ^ 64 = limit + b.length - 2 ^ 64 := by omega
      rw [wrapped, if_pos (by omega), if_neg (by omega)]

theorem blockSeqFromSlice_spec (slice : List Block) :
    ((blockSeqFromSlice slice).isSome ↔ (addresses slice).length < 2 ^ 64) ∧
      ∀ bs, blockSeqFromSlice slice = some bs → Valid bs ∧ bs.view = nonEmpty slice := by
  have summed := sumLengths_eq 0 (skipEmpty slice) (by decide)
  rw [Nat.zero_add, addresses_skipEmpty] at summed
  unfold blockSeqFromSlice
  dsimp only
  rw [summed]
  split
  · rename_i fits
    refine ⟨⟨fun _ => fits, fun _ => rfl⟩, ?_⟩
    intro bs built
    cases built
    by_cases none : (addresses slice).length = 0
    · -- every block is empty, so nothing is left after them
      have skipped : skipEmpty slice = [] := by
        match found : skipEmpty slice with
        | [] => rfl
        | b :: rest =>
          have first := head_skipEmpty_pos (show (skipEmpty slice).head? = some b by rw [found]; rfl)
          have count := congrArg List.length (addresses_skipEmpty slice)
          rw [found, addresses_cons, List.length_append, Block.length_addresses] at count
          omega
      rw [← nonEmpty_skipEmpty, skipped]
      exact ⟨.empty, rfl⟩
    · obtain ⟨valid, viewed⟩ := blockSeqFromSliceLimited_spec (skipEmpty slice) (fun _ found => head_skipEmpty_pos found)
        (Nat.pos_of_ne_zero none) (by rw [addresses_skipEmpty])
      refine ⟨valid, ?_⟩
      rw [viewed, nonEmpty_skipEmpty, takeBytes_of_le (allNonEmpty_nonEmpty slice) (by rw [addresses_nonEmpty])]
  · rename_i long
    exact ⟨by simpa using long, fun _ none => by cases none⟩

theorem Valid.view_eq_head_cons {bs : BlockSeq} (valid : Valid bs) (nonempty : ¬bs.isEmpty = true) :
    ∃ b, bs.head = some b ∧ bs.view = b :: bs.view.tail := by
  rw [valid.head_eq]
  cases viewed : bs.view with
  | nil => exact absurd (valid.view_eq_nil_iff.mp viewed) nonempty
  | cons b rest => exact ⟨b, rfl, rfl⟩

theorem Valid.iovecsFromBlockSeq {bs : BlockSeq} (valid : Valid bs) :
    bs.iovecsFromBlockSeq = some (bs.view.map fun b => (b.start, b.length)) := by
  fun_induction BlockSeq.iovecsFromBlockSeq bs with
  | case1 bs empty => rw [(valid.view_eq_nil_iff).mpr empty, List.map_nil]
  | case2 bs nonempty b found zero =>
    obtain ⟨b', found', viewed⟩ := valid.view_eq_head_cons nonempty
    cases found.symm.trans found'
    have := valid.allNonEmpty b (by rw [viewed]; exact List.mem_cons_self)
    omega
  | case3 bs nonempty b found _ rest stepped ih =>
    obtain ⟨b', found', viewed⟩ := valid.view_eq_head_cons nonempty
    cases found.symm.trans found'
    obtain ⟨rest', stepped', validRest, viewedRest⟩ := valid.tail (by simpa using nonempty)
    cases stepped.symm.trans stepped'
    rw [ih validRest, viewedRest, viewed, List.map_cons, List.tail_cons]
    rfl
  | case4 bs nonempty b _ _ stepped =>
    obtain ⟨_, stepped', _⟩ := valid.tail (by simpa using nonempty)
    cases stepped.symm.trans stepped'
  | case5 bs nonempty found =>
    obtain ⟨_, found', _⟩ := valid.view_eq_head_cons nonempty
    cases found.symm.trans found'

theorem Valid.numBlocks {bs : BlockSeq} (valid : Valid bs) : bs.numBlocks = some bs.view.length := by
  fun_induction BlockSeq.numBlocks bs with
  | case1 bs empty => rw [(valid.view_eq_nil_iff).mpr empty, List.length_nil]
  | case2 bs nonempty rest stepped ih =>
    obtain ⟨rest', stepped', validRest, viewedRest⟩ := valid.tail (by simpa using nonempty)
    cases stepped.symm.trans stepped'
    obtain ⟨b, _, viewed⟩ := valid.view_eq_head_cons nonempty
    rw [ih validRest, viewedRest, viewed, List.tail_cons, List.length_cons]
    rfl
  | case3 bs nonempty stepped =>
    obtain ⟨_, stepped', _⟩ := valid.tail (by simpa using nonempty)
    cases stepped.symm.trans stepped'

theorem numBytes_of_isEmpty {bs : BlockSeq} (empty : bs.isEmpty = true) : bs.numBytes = 0 := by
  cases bs with
  | empty => rfl
  | inline => cases empty
  | window => cases empty

theorem copy_spec (mem : Nat → UInt8) (dst src : Block) :
    (copy mem dst src).1 = min dst.length src.length ∧
      Memory.Copied mem (copy mem dst src).2 (dst.addresses.take (min dst.length src.length))
        (src.addresses.take (min dst.length src.length)) := by
  have shorter : (if dst.length > src.length then src.length else dst.length) = min dst.length src.length := by
    split <;> omega
  rw [Block.take_addresses dst (Nat.min_le_left _ _), Block.take_addresses src (Nat.min_le_right _ _)]
  unfold copy
  rw [shorter]
  exact ⟨rfl, Memory.copied_write_read mem dst.start src.start _⟩

theorem copySeqLoop_spec : ∀ (fuel : Nat) (mem : Nat → UInt8) (done : Nat) {dsts srcs : BlockSeq},
    Valid dsts → Valid srcs → dsts.numBytes < fuel →
    ((addresses dsts.view).take (min dsts.numBytes srcs.numBytes)).Nodup →
    (∀ a ∈ (addresses dsts.view).take (min dsts.numBytes srcs.numBytes),
      a ∉ (addresses srcs.view).take (min dsts.numBytes srcs.numBytes)) →
    ∃ mem', copySeqLoop mem done dsts srcs fuel = some (done + min dsts.numBytes srcs.numBytes, mem') ∧
      Memory.Copied mem mem' ((addresses dsts.view).take (min dsts.numBytes srcs.numBytes))
        ((addresses srcs.view).take (min dsts.numBytes srcs.numBytes))
  | 0, _, _, _, _, _, _, room, _, _ => absurd room (Nat.not_lt_zero _)
  | fuel + 1, mem, done, dsts, srcs, validDsts, validSrcs, room, distinct, unread => by
    rw [copySeqLoop]
    by_cases both : !dsts.isEmpty && !srcs.isEmpty
    · rw [if_pos both]
      simp only [Bool.and_eq_true, Bool.not_eq_eq_eq_not, Bool.not_true] at both
      obtain ⟨b, headDsts, viewDsts⟩ := validDsts.view_eq_head_cons (by simp [both.1])
      obtain ⟨c, headSrcs, viewSrcs⟩ := validSrcs.view_eq_head_cons (by simp [both.2])
      have nonzeroB := validDsts.allNonEmpty b (by rw [viewDsts]; exact List.mem_cons_self)
      have nonzeroC := validSrcs.allNonEmpty c (by rw [viewSrcs]; exact List.mem_cons_self)
      obtain ⟨counted, firstCopy⟩ := copy_spec mem b c
      rw [headDsts, headSrcs]
      dsimp only
      generalize copy mem b c = copied at counted firstCopy ⊢
      obtain ⟨n, mid⟩ := copied
      dsimp only at counted firstCopy ⊢
      obtain ⟨dsts', dropDsts, validDsts', viewDsts'⟩ := validDsts.dropFirst64 n
      obtain ⟨srcs', dropSrcs, validSrcs', viewSrcs'⟩ := validSrcs.dropFirst64 n
      rw [dropDsts, dropSrcs]
      dsimp only
      -- the bytes as address lists, and how the first round splits them
      have bytesDsts := validDsts.numBytes_eq
      have bytesSrcs := validSrcs.numBytes_eq
      have bytesDsts' := validDsts'.numBytes_eq
      have bytesSrcs' := validSrcs'.numBytes_eq
      rw [viewDsts', addresses_dropBytes, List.length_drop, ← bytesDsts] at bytesDsts'
      rw [viewSrcs', addresses_dropBytes, List.length_drop, ← bytesSrcs] at bytesSrcs'
      have headBytesDsts : (addresses dsts.view).take n = b.addresses.take n := by
        rw [viewDsts, addresses_cons, List.take_append_of_le_length (by rw [Block.length_addresses]; omega)]
      have headBytesSrcs : (addresses srcs.view).take n = c.addresses.take n := by
        rw [viewSrcs, addresses_cons, List.take_append_of_le_length (by rw [Block.length_addresses]; omega)]
      have lengthB : b.length ≤ dsts.numBytes := by
        rw [bytesDsts, viewDsts, addresses_cons, List.length_append, Block.length_addresses]
        omega
      have lengthC : c.length ≤ srcs.numBytes := by
        rw [bytesSrcs, viewSrcs, addresses_cons, List.length_append, Block.length_addresses]
        omega
      have rest : min dsts'.numBytes srcs'.numBytes = min dsts.numBytes srcs.numBytes - n := by omega
      have split : ∀ bytes : List Nat, bytes.take (min dsts.numBytes srcs.numBytes) =
          bytes.take n ++ (bytes.drop n).take (min dsts'.numBytes srcs'.numBytes) := by
        intro bytes
        rw [rest, ← List.take_add, Nat.add_sub_cancel' (by omega)]
      rw [split] at distinct
      rw [split, split] at unread
      rw [split, split]
      rw [List.nodup_append] at distinct
      obtain ⟨mem', looped, secondCopy⟩ := copySeqLoop_spec fuel mid (done + n) validDsts' validSrcs'
        (by omega)
        (by rw [viewDsts', addresses_dropBytes]; exact distinct.2.1)
        (by
          rw [viewDsts', addresses_dropBytes, viewSrcs', addresses_dropBytes]
          exact fun a member => fun inSrcs => unread a (List.mem_append_right _ member) (List.mem_append_right _ inSrcs))
      rw [viewDsts', addresses_dropBytes, viewSrcs', addresses_dropBytes] at secondCopy
      refine ⟨mem', by rw [looped, rest, Nat.add_assoc, Nat.add_sub_cancel' (by omega)], ?_⟩
      rw [headBytesDsts, headBytesSrcs]
      rw [headBytesDsts] at distinct
      rw [headBytesDsts, headBytesSrcs] at unread
      rw [← counted] at firstCopy
      refine firstCopy.append secondCopy (fun a member later => distinct.2.2 a member a later rfl) ?_
      -- the later rounds read no byte the first round wrote
      intro a member written
      exact unread a (List.mem_append_left _ written) (List.mem_append_right _ member)
    · -- one of the sequences is empty, so nothing is copied
      have none : min dsts.numBytes srcs.numBytes = 0 := by
        have oneEmpty : dsts.isEmpty = true ∨ srcs.isEmpty = true := by
          simp only [Bool.and_eq_true, Bool.not_eq_eq_eq_not, Bool.not_true, not_and] at both
          cases found : dsts.isEmpty
          · exact .inr (by simpa using both found)
          · exact .inl rfl
        rcases oneEmpty with empty | empty <;> simp [numBytes_of_isEmpty empty]
      rw [if_neg both, none, List.take_zero, List.take_zero, Nat.add_zero]
      exact ⟨mem, rfl, Memory.Copied.nil mem⟩

theorem Valid.copySeq {dsts srcs : BlockSeq} (validDsts : Valid dsts) (validSrcs : Valid srcs) (mem : Nat → UInt8)
    (distinct : ((addresses dsts.view).take (min dsts.numBytes srcs.numBytes)).Nodup)
    (unread : ∀ a ∈ (addresses dsts.view).take (min dsts.numBytes srcs.numBytes),
      a ∉ (addresses srcs.view).take (min dsts.numBytes srcs.numBytes)) :
    ∃ mem', copySeq mem dsts srcs = some (min dsts.numBytes srcs.numBytes, mem') ∧
      Memory.Copied mem mem' ((addresses dsts.view).take (min dsts.numBytes srcs.numBytes))
        ((addresses srcs.view).take (min dsts.numBytes srcs.numBytes)) := by
  have copied := copySeqLoop_spec (dsts.numBytes + 1) mem 0 validDsts validSrcs (Nat.lt_succ_self _) distinct unread
  rwa [Nat.zero_add] at copied

/-! ## The sequences the code builds -/

/-- The sequences built by `BlockSeqOf` or `BlockSeqFromSlice` and then
changed by `DropFirst64`, `TakeFirst64` and `Tail`. -/
inductive Built : BlockSeq → Prop
  | of (b : Block) : Built (blockSeqOf b)
  | fromSlice {slice : List Block} {bs : BlockSeq} : blockSeqFromSlice slice = some bs → Built bs
  | dropFirst64 {bs dropped : BlockSeq} {n : Nat} : Built bs → bs.dropFirst64 n = some dropped → Built dropped
  | takeFirst64 {bs : BlockSeq} (n : Nat) : Built bs → Built (bs.takeFirst64 n)
  | tail {bs rest : BlockSeq} : Built bs → bs.tail = some rest → Built rest

theorem Built.valid {bs : BlockSeq} (built : Built bs) : Valid bs := by
  induction built with
  | of b => exact (valid_blockSeqOf b).1
  | fromSlice found => exact ((blockSeqFromSlice_spec _).2 _ found).1
  | dropFirst64 _ dropped valid =>
    obtain ⟨_, found, valid', _⟩ := valid.dropFirst64 _
    cases dropped.symm.trans found
    exact valid'
  | takeFirst64 n _ valid => exact (valid.takeFirst64 n).1
  | tail _ stepped valid =>
    obtain ⟨_, found, valid', _⟩ := valid.tail (isEmpty_of_tail stepped)
    cases stepped.symm.trans found
    exact valid'

theorem blockSeq_refines_blocks :
    (∀ b : Block, (blockSeqOf b).view = nonEmpty [b]) ∧
    (∀ (slice : List Block) (bs : BlockSeq), blockSeqFromSlice slice = some bs → bs.view = nonEmpty slice) ∧
    (∀ bs : BlockSeq, Built bs →
      (∀ b, bs.head = some b → 0 < b.length) ∧
      bs.iovecsFromBlockSeq = some (bs.view.map fun b => (b.start, b.length)) ∧
      bs.numBytes = (addresses bs.view).length ∧
      (bs.isEmpty = true ↔ bs.numBytes = 0) ∧
      (∀ n, ∃ dropped, bs.dropFirst64 n = some dropped ∧ dropped.view = dropBytes n bs.view ∧
        addresses dropped.view = (addresses bs.view).drop n) ∧
      (∀ n, (bs.takeFirst64 n).view = takeBytes n bs.view ∧
        addresses (bs.takeFirst64 n).view = (addresses bs.view).take n) ∧
      (∀ rest, bs.tail = some rest → rest.view = bs.view.tail)) ∧
    (∀ (dsts srcs : BlockSeq) (mem : Nat → UInt8), Built dsts → Built srcs →
      ((addresses dsts.view).take (min dsts.numBytes srcs.numBytes)).Nodup →
      (∀ a ∈ (addresses dsts.view).take (min dsts.numBytes srcs.numBytes),
        a ∉ (addresses srcs.view).take (min dsts.numBytes srcs.numBytes)) →
      ∃ mem', copySeq mem dsts srcs = some (min dsts.numBytes srcs.numBytes, mem') ∧
        Memory.Copied mem mem' ((addresses dsts.view).take (min dsts.numBytes srcs.numBytes))
          ((addresses srcs.view).take (min dsts.numBytes srcs.numBytes))) := by
  refine ⟨fun b => (valid_blockSeqOf b).2, fun slice bs found => ((blockSeqFromSlice_spec slice).2 bs found).2, ?_,
    fun dsts srcs mem builtDsts builtSrcs distinct unread =>
      builtDsts.valid.copySeq builtSrcs.valid mem distinct unread⟩
  intro bs built
  have valid := built.valid
  refine ⟨?_, valid.iovecsFromBlockSeq, valid.numBytes_eq, valid.isEmpty_iff, ?_, ?_, ?_⟩
  · -- a head is the first block of the view, and no block of the view is empty
    intro b found
    rw [valid.head_eq] at found
    exact valid.allNonEmpty b (List.mem_of_mem_head? found)
  · intro n
    obtain ⟨dropped, found, _, viewed⟩ := valid.dropFirst64 n
    exact ⟨dropped, found, viewed, by rw [viewed, addresses_dropBytes]⟩
  · intro n
    have viewed := (valid.takeFirst64 n).2
    exact ⟨viewed, by rw [viewed, addresses_takeBytes]⟩
  · intro rest stepped
    obtain ⟨_, found, _, viewed⟩ := valid.tail (isEmpty_of_tail stepped)
    cases stepped.symm.trans found
    exact viewed

theorem blockSeq_refines_blocks_on_two_bytes :
    ∃ mem', copySeq (fun a => a.toUInt8) (blockSeqOf ⟨100, 2, false, by decide⟩) (blockSeqOf ⟨200, 2, false, by decide⟩) =
      some (2, mem') ∧ [mem' 100, mem' 101] = [200, 201] := by
  obtain ⟨mem', copied, moved⟩ := blockSeq_refines_blocks.2.2.2 _ _ (fun a => a.toUInt8)
    (.of ⟨100, 2, false, by decide⟩) (.of ⟨200, 2, false, by decide⟩) (by decide)
    (by decide)
  exact ⟨mem', copied, moved.copied⟩

/-- Two blocks of the destination over the same byte: `CopySeq` writes the
byte twice, and the destination reads the second source byte in both
places. -/
theorem copySeq_into_aliased_blocks_keeps_last_byte :
    blockSeqFromSlice [⟨100, 1, false, by decide⟩, ⟨100, 1, false, by decide⟩] =
      some (.window ⟨100, 1, false, by decide⟩ [⟨100, 1, false, by decide⟩] 0 2) ∧
    ∃ mem', copySeq (fun a => a.toUInt8) (.window ⟨100, 1, false, by decide⟩ [⟨100, 1, false, by decide⟩] 0 2)
        (blockSeqOf ⟨200, 2, false, by decide⟩) = some (2, mem') ∧
      (addresses (BlockSeq.window ⟨100, 1, false, by decide⟩ [⟨100, 1, false, by decide⟩] 0 2).view).map mem' = [201, 201] ∧
      (addresses (blockSeqOf ⟨200, 2, false, by decide⟩).view).map (fun a => a.toUInt8) = [200, 201] := by
  refine ⟨by decide, ?_⟩
  simp [copySeq, copySeqLoop, dropFirst64, dropFirst64Loop, windowTail, head, isEmpty, numBytes, blockSeqOf, copy,
    Block.dropFirst64, Block.takeFirst64, skipEmpty, blockSeqFromSliceLimited, view, addresses, Block.addresses,
    nonEmpty, takeBytes]
  decide

end BlockSeq

end Cijitter.Safemem
