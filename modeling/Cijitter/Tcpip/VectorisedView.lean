import Mathlib

/-! `buffer.VectorisedView` (`pkg/tcpip/buffer/view.go`): a list of byte
views read as their concatenation, and a cached `size` of it. Views are
values here: the operations only reslice the views they hold and never write
into their bytes. Counts are natural numbers; the loops treat a negative
count as zero. A Go panic is `none`. -/

set_option autoImplicit false

namespace Cijitter.TcpipBuffer

/-- `View`: a slice of bytes. -/
abbrev View := List UInt8

inductive IoError where
  /-- `io.EOF`. -/
  | eof
  deriving DecidableEq, Repr

structure VectorisedView where
  views : List View
  size : Nat
  deriving DecidableEq, Repr

namespace VectorisedView

/-- `NewVectorisedView`. -/
def new (size : Nat) (views : List View) : VectorisedView :=
  ⟨views, size⟩

/-- `View.ToVectorisedView`. -/
def ofView (v : View) : VectorisedView :=
  if v.length = 0 then ⟨[], 0⟩ else new v.length [v]

/-- The loop that `TrimFront`, `Read` and `ReadToVV` share: while `count`
is positive and views are left, a first view shorter than `count` or as long
is passed to `emit` and removed (`removeFirst`), and a longer one gives its
first `count` bytes to `emit` and keeps the rest. -/
def consumeFront {α : Type} (emit : α → View → α) : List View → Nat → Nat → α → α × VectorisedView
  | [], size, _, acc => (acc, ⟨[], size⟩)
  | v :: rest, size, count, acc =>
      if count = 0 then (acc, ⟨v :: rest, size⟩)
      else if count < v.length then (emit acc (v.take count), ⟨v.drop count :: rest, size - count⟩)
      else consumeFront emit rest (size - v.length) (count - v.length) (emit acc v)

/-- `TrimFront`. -/
def trimFront (vv : VectorisedView) (count : Nat) : VectorisedView :=
  (consumeFront (fun _ _ => ()) vv.views vv.size count ()).2

/-- `Read` into a view of `count` bytes: the bytes copied, `io.EOF` when
there were none, and the view left. -/
def read (vv : VectorisedView) (count : Nat) : List UInt8 × Option IoError × VectorisedView :=
  let result := consumeFront (fun copied piece => copied ++ piece) vv.views vv.size count []
  (result.1, if result.1.length = 0 then some .eof else none, result.2)

/-- `AppendView`. -/
def appendView (vv : VectorisedView) (v : View) : VectorisedView :=
  if v.length = 0 then vv else ⟨vv.views ++ [v], vv.size + v.length⟩

/-- `Append`. -/
def append (vv vv2 : VectorisedView) : VectorisedView :=
  ⟨vv.views ++ vv2.views, vv.size + vv2.size⟩

/-- `ReadToVV`: the destination, the number of bytes copied, and the view left. -/
def readToVV (vv dst : VectorisedView) (count : Nat) : VectorisedView × Nat × VectorisedView :=
  let result :=
    consumeFront (fun moved piece => (moved.1.appendView piece, moved.2 + piece.length))
      vv.views vv.size count (dst, 0)
  (result.1.1, result.1.2, result.2)

/-- The loop of `CapLength` over the views, `kept` holding the views before
the current one; `none` when it runs past the last view without returning. -/
def capLengthLoop : List View → List View → Nat → Option (List View)
  | _, [], _ => none
  | kept, v :: rest, length =>
      if v.length ≥ length then
        if length = 0 then some kept else some (kept ++ [v.take length])
      else capLengthLoop (kept ++ [v]) rest (length - v.length)

/-- `CapLength`. -/
def capLength (vv : VectorisedView) (length : Int) : VectorisedView :=
  let length := if length < 0 then 0 else length.toNat
  if vv.size < length then vv
  else ⟨(capLengthLoop [] vv.views length).getD vv.views, length⟩

/-- `Clone`: the buffer argument only lends its storage to the copy. -/
def clone (vv : VectorisedView) : VectorisedView :=
  ⟨vv.views, vv.size⟩

/-- The copy loop of `PullUp` from `offset`: the bytes gathered into the new
first view and, once `count` of them are gathered, the views from the one it
stopped at, that one trimmed. `none` where the views run out first. -/
def pullUpLoop : List View → Nat → Nat → List UInt8 → Option (List UInt8 × List View)
  | [], offset, count, gathered => if offset < count then none else some (gathered, [])
  | v :: rest, offset, count, gathered =>
      if offset < count then
        let gathered := gathered ++ v.take (count - offset)
        if count - offset < v.length then some (gathered, v.drop (count - offset) :: rest)
        else pullUpLoop rest (offset + v.length) count gathered
      else some (gathered, v :: rest)

/-- `PullUp`: the first `count` bytes with whether there were as many, and
the view after it. -/
def pullUp (vv : VectorisedView) (count : Nat) : Option ((View × Bool) × VectorisedView) :=
  match vv.views with
  | [] => some (([], count = 0), vv)
  | first :: _ =>
      if count ≤ first.length then some ((first.take count, true), vv)
      else if vv.size < count then some (([], false), vv)
      else
        match pullUpLoop vv.views 0 count [] with
        | some (newFirst, rest) => some ((newFirst, true), ⟨newFirst :: rest, vv.size⟩)
        | none => none

/-! ## The flat byte string a view holds -/

/-- The view holds `bytes`: its views concatenate to them and its size
counts them. -/
structure Represents (vv : VectorisedView) (bytes : List UInt8) : Prop where
  flatten_views : vv.views.flatten = bytes
  size_eq : vv.size = bytes.length

theorem represents_new (views : List View) :
    Represents (new (views.map List.length).sum views) views.flatten :=
  ⟨rfl, List.length_flatten.symm⟩

theorem represents_ofView (v : View) : Represents (ofView v) v := by
  unfold ofView
  split
  · rename_i empty
    exact ⟨(List.length_eq_zero_iff.mp empty).symm ▸ rfl, empty.symm⟩
  · exact ⟨List.flatten_singleton, rfl⟩

section Consume

variable {α : Type} (emit : α → View → α)

theorem consumeFront_nil (size count : Nat) (acc : α) :
    consumeFront emit [] size count acc = (acc, ⟨[], size⟩) := rfl

theorem consumeFront_cons (v : View) (rest : List View) (size count : Nat) (acc : α) :
    consumeFront emit (v :: rest) size count acc =
      if count = 0 then (acc, ⟨v :: rest, size⟩)
      else if count < v.length then (emit acc (v.take count), ⟨v.drop count :: rest, size - count⟩)
      else consumeFront emit rest (size - v.length) (count - v.length) (emit acc v) := rfl

theorem consumeFront_represents :
    ∀ (views : List View) (size count : Nat) (acc : α), size = views.flatten.length →
      Represents (consumeFront emit views size count acc).2 (views.flatten.drop count)
  | [], size, count, acc, sized => by
      rw [consumeFront_nil]
      exact ⟨by simp, by simpa using sized⟩
  | v :: rest, size, count, acc, sized => by
      rw [List.flatten_cons, List.length_append] at sized
      rw [consumeFront_cons]
      split
      · rename_i none
        rw [none, List.drop_zero, List.flatten_cons]
        exact ⟨rfl, by rw [sized, List.length_append]⟩
      · split
        · rename_i _ inside
          rw [List.flatten_cons, List.drop_append_of_le_length (Nat.le_of_lt inside)]
          refine ⟨by rw [List.flatten_cons], ?_⟩
          simp only [List.length_append, List.length_drop]
          omega
        · rename_i _ past
          have after := consumeFront_represents rest (size - v.length) (count - v.length) (emit acc v)
            (by omega)
          have gone : v.drop count = [] := List.drop_eq_nil_of_le (by omega)
          rw [List.flatten_cons, List.drop_append, gone, List.nil_append]
          exact after

theorem consumeFront_collects {β : Type} (content : α → List β) (f : UInt8 → β)
    (appends : ∀ acc piece, content (emit acc piece) = content acc ++ piece.map f) :
    ∀ (views : List View) (size count : Nat) (acc : α),
      content (consumeFront emit views size count acc).1 = content acc ++ (views.flatten.take count).map f
  | [], size, count, acc => by
      rw [consumeFront_nil, List.flatten_nil, List.take_nil, List.map_nil, List.append_nil]
  | v :: rest, size, count, acc => by
      rw [consumeFront_cons]
      split
      · rename_i none
        rw [none, List.take_zero, List.map_nil, List.append_nil]
      · split
        · rename_i _ inside
          rw [appends, List.flatten_cons, List.take_append_of_le_length (Nat.le_of_lt inside)]
        · rename_i _ past
          have whole : v.take count = v := List.take_of_length_le (by omega)
          rw [consumeFront_collects content f appends rest, appends, List.flatten_cons, List.take_append,
            whole, List.map_append, List.append_assoc]

end Consume

section Operations

variable {vv : VectorisedView} {bytes : List UInt8}

theorem Represents.trimFront (holds : Represents vv bytes) (count : Nat) :
    Represents (vv.trimFront count) (bytes.drop count) := by
  have left := consumeFront_represents (fun _ _ => ()) vv.views vv.size count ()
    (by rw [holds.size_eq, holds.flatten_views])
  rwa [holds.flatten_views] at left

theorem Represents.read (holds : Represents vv bytes) (count : Nat) :
    (vv.read count).1 = bytes.take count ∧
      ((vv.read count).2.1 = some .eof ↔ bytes.take count = []) ∧
      Represents (vv.read count).2.2 (bytes.drop count) := by
  have sized : vv.size = vv.views.flatten.length := by rw [holds.size_eq, holds.flatten_views]
  have copied := consumeFront_collects (fun copied piece => copied ++ piece) id id
    (fun _ piece => by rw [List.map_id]; rfl) vv.views vv.size count []
  have left := consumeFront_represents (fun copied piece => copied ++ piece) vv.views vv.size count [] sized
  rw [holds.flatten_views] at copied left
  simp only [List.map_id, id, List.nil_append] at copied
  refine ⟨copied, ?_, left⟩
  simp only [VectorisedView.read, copied]
  cases bytes.take count with
  | nil => simp
  | cons b rest => simp

theorem Represents.appendView (holds : Represents vv bytes) (v : View) :
    Represents (vv.appendView v) (bytes ++ v) := by
  unfold VectorisedView.appendView
  split
  · rename_i empty
    rw [List.length_eq_zero_iff.mp empty, List.append_nil]
    exact holds
  · refine ⟨?_, ?_⟩
    · rw [List.flatten_append, holds.flatten_views, List.flatten_singleton]
    · rw [List.length_append, holds.size_eq]

theorem Represents.append (holds : Represents vv bytes) {vv2 : VectorisedView} {bytes2 : List UInt8}
    (holds2 : Represents vv2 bytes2) : Represents (vv.append vv2) (bytes ++ bytes2) := by
  refine ⟨?_, ?_⟩
  · rw [VectorisedView.append, List.flatten_append, holds.flatten_views, holds2.flatten_views]
  · rw [VectorisedView.append, List.length_append, holds.size_eq, holds2.size_eq]

theorem Represents.readToVV (holds : Represents vv bytes) {dst : VectorisedView} {dstBytes : List UInt8}
    (dstHolds : Represents dst dstBytes) (count : Nat) :
    Represents (vv.readToVV dst count).1 (dstBytes ++ bytes.take count) ∧
      (vv.readToVV dst count).2.1 = (bytes.take count).length ∧
      Represents (vv.readToVV dst count).2.2 (bytes.drop count) := by
  have sized : vv.size = vv.views.flatten.length := by rw [holds.size_eq, holds.flatten_views]
  let emit : VectorisedView × Nat → View → VectorisedView × Nat :=
    fun moved piece => (moved.1.appendView piece, moved.2 + piece.length)
  -- the destination holds what was moved, its size and the count grow by as much
  have appended (acc : VectorisedView × Nat) (piece : View) :
      (emit acc piece).1.views.flatten = acc.1.views.flatten ++ piece ∧
        (emit acc piece).1.size = acc.1.size + piece.length := by
    simp only [emit]
    unfold VectorisedView.appendView
    split
    · rename_i empty
      rw [List.length_eq_zero_iff.mp empty, List.append_nil, List.length_nil, Nat.add_zero]
      exact ⟨rfl, rfl⟩
    · exact ⟨by rw [List.flatten_append, List.flatten_singleton], rfl⟩
  have moved := consumeFront_collects emit (fun acc => acc.1.views.flatten) id
    (fun acc piece => by rw [List.map_id]; exact (appended acc piece).1) vv.views vv.size count (dst, 0)
  have sizes := consumeFront_collects emit (fun acc => List.replicate acc.1.size ()) (fun _ => ())
    (fun acc piece => by rw [(appended acc piece).2, List.replicate_add, List.map_const']) vv.views vv.size
    count (dst, 0)
  have counted := consumeFront_collects emit (fun acc => List.replicate acc.2 ()) (fun _ => ())
    (fun acc piece => by rw [List.replicate_add, List.map_const']) vv.views vv.size count (dst, 0)
  have left := consumeFront_represents emit vv.views vv.size count (dst, 0) sized
  rw [holds.flatten_views] at moved counted sizes left
  rw [List.map_id, dstHolds.flatten_views] at moved
  have sizeLength := congrArg List.length sizes
  have countLength := congrArg List.length counted
  simp only [List.length_replicate, List.length_append, List.length_map] at sizeLength countLength
  refine ⟨⟨moved, ?_⟩, ?_, left⟩
  · change (consumeFront emit vv.views vv.size count (dst, 0)).1.1.size = _
    rw [sizeLength, dstHolds.size_eq, List.length_append]
  · change (consumeFront emit vv.views vv.size count (dst, 0)).1.2 = _
    omega

theorem capLengthLoop_flatten :
    ∀ (kept views : List View) (length : Nat), length ≤ views.flatten.length →
      ((capLengthLoop kept views length).getD (kept ++ views)).flatten =
        kept.flatten ++ views.flatten.take length
  | kept, [], length, _ => by simp [capLengthLoop]
  | kept, v :: rest, length, short => by
      rw [List.flatten_cons, List.length_append] at short
      unfold capLengthLoop
      split
      · rename_i within
        split
        · rename_i zero
          rw [zero, List.take_zero, List.append_nil, Option.getD_some]
        · rw [Option.getD_some, List.flatten_append, List.flatten_singleton, List.flatten_cons,
            List.take_append_of_le_length within]
      · rename_i past
        have rest_short : length - v.length ≤ rest.flatten.length := by omega
        have after := capLengthLoop_flatten (kept ++ [v]) rest (length - v.length) rest_short
        rw [List.append_assoc, List.singleton_append] at after
        have whole : v.take length = v := List.take_of_length_le (by omega)
        rw [after, List.flatten_append, List.flatten_singleton, List.flatten_cons, List.take_append,
          whole, List.append_assoc]

theorem Represents.capLength (holds : Represents vv bytes) (length : Int) :
    Represents (vv.capLength length) (bytes.take length.toNat) := by
  have cut : (if length < 0 then 0 else length.toNat) = length.toNat := by
    split <;> omega
  unfold VectorisedView.capLength
  dsimp only
  rw [cut]
  split
  · rename_i longer
    rw [List.take_of_length_le (by rw [← holds.size_eq]; omega)]
    exact holds
  · rename_i within
    refine ⟨?_, ?_⟩
    · have kept := capLengthLoop_flatten [] vv.views length.toNat
        (by rw [holds.flatten_views, ← holds.size_eq]; omega)
      rw [List.nil_append, List.flatten_nil, List.nil_append, holds.flatten_views] at kept
      exact kept
    · simp only [List.length_take]
      rw [← holds.size_eq]
      omega

theorem Represents.clone (holds : Represents vv bytes) : Represents vv.clone bytes :=
  holds

theorem pullUpLoop_gathers :
    ∀ (views : List View) (offset count : Nat) (gathered : List UInt8),
      offset ≤ count → count - offset ≤ views.flatten.length →
        ∃ rest, pullUpLoop views offset count gathered =
            some (gathered ++ views.flatten.take (count - offset), rest) ∧
          rest.flatten = views.flatten.drop (count - offset)
  | [], offset, count, gathered, _, enough => by
      have done : count - offset = 0 := by simpa using enough
      refine ⟨[], ?_, by simp⟩
      rw [pullUpLoop, if_neg (by omega), done]
      simp
  | v :: rest, offset, count, gathered, started, enough => by
      rw [List.flatten_cons, List.length_append] at enough
      unfold pullUpLoop
      split
      · rename_i more
        dsimp only
        split
        · rename_i inside
          refine ⟨v.drop (count - offset) :: rest, ?_, ?_⟩
          · rw [List.flatten_cons, List.take_append_of_le_length (Nat.le_of_lt inside)]
          · rw [List.flatten_cons, List.flatten_cons, List.drop_append_of_le_length (Nat.le_of_lt inside)]
        · rename_i past
          obtain ⟨left, loop, flat⟩ := pullUpLoop_gathers rest (offset + v.length) count
            (gathered ++ v.take (count - offset)) (by omega) (by omega)
          have whole : v.take (count - offset) = v := List.take_of_length_le (by omega)
          have remaining : count - (offset + v.length) = count - offset - v.length := by omega
          refine ⟨left, ?_, ?_⟩
          · rw [loop, List.flatten_cons, List.take_append, whole, remaining, List.append_assoc]
          · have gone : v.drop (count - offset) = [] := List.drop_eq_nil_of_le (by omega)
            rw [flat, List.flatten_cons, List.drop_append, gone, List.nil_append, remaining]
      · rename_i done
        have zero : count - offset = 0 := by omega
        refine ⟨v :: rest, ?_, ?_⟩
        · rw [zero, List.take_zero, List.append_nil]
        · rw [zero, List.drop_zero]

theorem Represents.pullUp (holds : Represents vv bytes) (count : Nat) :
    ∃ vv', vv.pullUp count =
        some ((if count ≤ bytes.length then bytes.take count else [], decide (count ≤ bytes.length)), vv') ∧
      Represents vv' bytes := by
  have flat := holds.flatten_views
  unfold VectorisedView.pullUp
  split
  · rename_i empty
    rw [empty, List.flatten_nil] at flat
    subst flat
    refine ⟨vv, ?_, holds⟩
    by_cases zero : count = 0
    · simp [zero]
    · simp [zero]
  · rename_i first others views_eq
    rw [views_eq, List.flatten_cons] at flat
    have enough : first.length ≤ bytes.length := by rw [← flat, List.length_append]; omega
    split
    · rename_i short
      refine ⟨vv, ?_, holds⟩
      rw [if_pos (Nat.le_trans short enough), decide_eq_true (Nat.le_trans short enough), ← flat,
        List.take_append_of_le_length short]
    · rename_i long
      split
      · rename_i tooMany
        refine ⟨vv, ?_, holds⟩
        have beyond : ¬count ≤ bytes.length := by rw [← holds.size_eq]; omega
        rw [if_neg beyond, decide_eq_false beyond]
      · rename_i fits
        have within : count ≤ bytes.length := by rw [← holds.size_eq]; omega
        obtain ⟨rest, loop, rest_flat⟩ := pullUpLoop_gathers (first :: others) 0 count [] (Nat.zero_le _)
          (by rw [List.flatten_cons, flat, Nat.sub_zero]; exact within)
        rw [List.flatten_cons, flat, Nat.sub_zero, List.nil_append] at loop
        rw [List.flatten_cons, flat, Nat.sub_zero] at rest_flat
        rw [views_eq, loop]
        refine ⟨⟨bytes.take count :: rest, vv.size⟩, ?_, ⟨?_, holds.size_eq⟩⟩
        · simp only [if_pos within, decide_eq_true within]
        · rw [List.flatten_cons, rest_flat, List.take_append_drop]

example : (new 5 [[1, 2], [3, 4, 5]]).pullUp 3 = some (([1, 2, 3], true), ⟨[[1, 2, 3], [4, 5]], 5⟩) := by
  decide

end Operations

/-! ## Runs of operations -/

/-- The calls a user of a view makes; `readToVV` and `append` take their
other view as `NewVectorisedView` builds it from views. -/
inductive Op where
  | trimFront (count : Nat)
  | capLength (length : Int)
  | read (count : Nat)
  | readToVV (dst : List View) (count : Nat)
  | pullUp (count : Nat)
  | append (views : List View)
  | appendView (v : View)
  | clone
  deriving DecidableEq, Repr

/-- What a call returns: the bytes read and whether `io.EOF` came with them,
the destination's bytes and size with the count moved, the pulled-up view and
whether it was complete, or the bytes and size of the clone. -/
inductive Output where
  | nothing
  | read (bytes : List UInt8) (eof : Bool)
  | moved (dst : List UInt8) (dstSize : Nat) (copied : Nat)
  | pulled (view : View) (ok : Bool)
  | cloned (bytes : List UInt8) (size : Nat)
  deriving DecidableEq, Repr

def step (vv : VectorisedView) : Op → Option (Output × VectorisedView)
  | .trimFront count => some (.nothing, vv.trimFront count)
  | .capLength length => some (.nothing, vv.capLength length)
  | .read count =>
      let (bytes, err, vv) := vv.read count
      some (.read bytes (err = some .eof), vv)
  | .readToVV dst count =>
      let (dst, copied, vv) := vv.readToVV (new (dst.map List.length).sum dst) count
      some (.moved dst.views.flatten dst.size copied, vv)
  | .pullUp count =>
      match vv.pullUp count with
      | some ((view, ok), vv) => some (.pulled view ok, vv)
      | none => none
  | .append views => some (.nothing, vv.append (new (views.map List.length).sum views))
  | .appendView v => some (.nothing, vv.appendView v)
  | .clone => some (.cloned vv.clone.views.flatten vv.clone.size, vv)

/-- The same call on the flat byte string. -/
def flatStep (bytes : List UInt8) : Op → Output × List UInt8
  | .trimFront count => (.nothing, bytes.drop count)
  | .capLength length => (.nothing, bytes.take length.toNat)
  | .read count => (.read (bytes.take count) (bytes.take count = []), bytes.drop count)
  | .readToVV dst count =>
      (.moved (dst.flatten ++ bytes.take count) (dst.flatten ++ bytes.take count).length
        (bytes.take count).length, bytes.drop count)
  | .pullUp count =>
      if count ≤ bytes.length then (.pulled (bytes.take count) true, bytes) else (.pulled [] false, bytes)
  | .append views => (.nothing, bytes ++ views.flatten)
  | .appendView v => (.nothing, bytes ++ v)
  | .clone => (.cloned bytes bytes.length, bytes)

def run (vv : VectorisedView) : List Op → Option (List Output × VectorisedView)
  | [] => some ([], vv)
  | op :: ops =>
      match step vv op with
      | some (out, vv) => (run vv ops).map fun (outs, final) => (out :: outs, final)
      | none => none

def flatRun (bytes : List UInt8) : List Op → List Output × List UInt8
  | [] => ([], bytes)
  | op :: ops =>
      let (out, bytes) := flatStep bytes op
      let (outs, final) := flatRun bytes ops
      (out :: outs, final)

theorem Represents.step {vv : VectorisedView} {bytes : List UInt8} (holds : Represents vv bytes) (op : Op) :
    ∃ vv', step vv op = some ((flatStep bytes op).1, vv') ∧ Represents vv' (flatStep bytes op).2 := by
  cases op with
  | trimFront count => exact ⟨_, rfl, holds.trimFront count⟩
  | capLength length => exact ⟨_, rfl, holds.capLength length⟩
  | read count =>
      obtain ⟨copied, eof, left⟩ := holds.read count
      refine ⟨_, ?_, left⟩
      simp only [VectorisedView.step, flatStep, copied, Option.some.injEq, Prod.mk.injEq, Output.read.injEq,
        true_and, and_true]
      exact decide_eq_decide.mpr eof
  | readToVV dst count =>
      obtain ⟨moved, counted, left⟩ := holds.readToVV (represents_new dst) count
      refine ⟨_, ?_, left⟩
      simp only [VectorisedView.step, flatStep, moved.flatten_views, moved.size_eq, counted]
  | pullUp count =>
      obtain ⟨vv', pulled, left⟩ := holds.pullUp count
      refine ⟨vv', ?_, ?_⟩
      · simp only [VectorisedView.step, flatStep, pulled]
        split <;> simp_all
      · simp only [flatStep]
        split <;> exact left
  | append views => exact ⟨_, rfl, holds.append (represents_new views)⟩
  | appendView v => exact ⟨_, rfl, holds.appendView v⟩
  | clone =>
      refine ⟨_, ?_, holds⟩
      simp only [VectorisedView.step, flatStep, VectorisedView.clone, holds.flatten_views, holds.size_eq]

theorem Represents.run {vv : VectorisedView} {bytes : List UInt8} (holds : Represents vv bytes) (ops : List Op) :
    ∃ vv', run vv ops = some ((flatRun bytes ops).1, vv') ∧ Represents vv' (flatRun bytes ops).2 := by
  induction ops generalizing vv bytes with
  | nil => exact ⟨vv, rfl, holds⟩
  | cons op ops ih =>
      obtain ⟨next, stepped, nextHolds⟩ := holds.step op
      obtain ⟨final, ran, finalHolds⟩ := ih nextHolds
      refine ⟨final, ?_, finalHolds⟩
      rw [VectorisedView.run, stepped]
      dsimp only
      rw [ran]
      rfl

/-- A vectorised view built by `NewVectorisedView` with the total length of
its views, or by `View.ToVectorisedView`, refines the flat byte string: after
every sequence of calls its size is the length of its contents, and each call
returns, and leaves, what the same call on the flat string does. -/
theorem vectorisedView_refines_flat (views : List View) (v : View) (ops : List Op) :
    (∃ vv', run (new (views.map List.length).sum views) ops = some ((flatRun views.flatten ops).1, vv') ∧
        Represents vv' (flatRun views.flatten ops).2) ∧
      ∃ vv', run (ofView v) ops = some ((flatRun v ops).1, vv') ∧ Represents vv' (flatRun v ops).2 :=
  ⟨(represents_new views).run ops, (represents_ofView v).run ops⟩

end VectorisedView

end Cijitter.TcpipBuffer
