import Cijitter.Network.Fragmentation
import Cijitter.Network.ReassemblerProperties

/-! `Process` under one id reassembles its packet exactly, as long as the
fragments agree on where the packet ends, none comes later than the timeout
after another and the byte count stays at or below `highLimit`: every call
returns without error, a call reports done exactly when the fragments
received so far complete the packet, and it then returns the packet's bytes.
`Process` is `locate` (find or create the reassembler) followed by
`processAt` (run it and account for it); the two halves are stated apart. -/

set_option autoImplicit false

namespace Cijitter.Network

/-- The fragment an arrival carries. -/
def Arrival.piece (a : Arrival) : Piece :=
  ⟨a.first, a.last, a.more, a.vv⟩

/-- The payload bytes of the arrivals. -/
def arrivedBytes (arrivals : List Arrival) : Int :=
  (arrivals.map fun a => (a.vv.length : Int)).sum

theorem arrivedBytes_append (first second : List Arrival) :
    arrivedBytes (first ++ second) = arrivedBytes first + arrivedBytes second := by
  simp [arrivedBytes]

theorem arrivedBytes_singleton (a : Arrival) : arrivedBytes [a] = a.vv.length := by
  simp [arrivedBytes]

theorem arrivedBytes_eq_sum : ∀ arrivals : List Arrival,
    arrivedBytes arrivals = ((arrivals.map fun a => a.vv.length).sum : Nat)
  | [] => rfl
  | a :: rest => by
      rw [← List.singleton_append, arrivedBytes_append, arrivedBytes_singleton, arrivedBytes_eq_sum rest,
        List.map_append, List.sum_append, List.map_singleton, List.sum_singleton, Int.natCast_add]

theorem arrivedBytes_nonneg : ∀ arrivals : List Arrival, 0 ≤ arrivedBytes arrivals
  | [] => Int.le_refl 0
  | a :: rest => by
      have := arrivedBytes_nonneg rest
      simp only [arrivedBytes, List.map_cons, List.sum_cons] at this ⊢
      omega

theorem Complete.mono {L : Nat} {received more : List Piece} (complete : Complete L received)
    (included : ∀ q ∈ received, q ∈ more) : Complete L more := by
  obtain ⟨⟨q, member, final⟩, covered⟩ := complete
  refine ⟨⟨q, included q member, final⟩, fun n below => ?_⟩
  obtain ⟨p, inReceived, covers⟩ := covered n below
  exact ⟨p, included p inReceived, covers⟩

namespace Fragmentation

/-- The first half of `Process`: the reassembler for `id`, released and
replaced if too old, created if absent. -/
def locate (f : Fragmentation) (id : UInt32) (now : Int) : Fragmentation × Nat :=
  let found : Fragmentation × Option Nat :=
    match f.reassemblers.lookup id with
    | some ref => if (f.objects ref).tooOld now f.timeout then (f.release ref, none) else (f, some ref)
    | none => (f, none)
  match found.2 with
  | some ref => (found.1, ref)
  | none => found.1.create id now

/-- The second half of `Process`, on the reassembler `ref`. -/
def processAt (f : Fragmentation) (ref : Nat) (first last : UInt16) (more : Bool) (vv : List UInt8) :
    Fragmentation × Except ReassembleError (List UInt8 × Bool) :=
  let processed := (f.objects ref).process first last more vv
  let f := { f with objects := Function.update f.objects ref processed.1 }
  match processed.2.err with
  | some e => (f.release ref, .error e)
  | none =>
      let f := { f with size := f.size + processed.2.consumed }
      let f := if processed.2.done then f.release ref else f
      let f := if f.size > f.highLimit then evict f.rList.length f else f
      (f, .ok (processed.2.res, processed.2.done))

theorem process_eq_processAt (f : Fragmentation) (id : UInt32) (first last : UInt16) (more : Bool)
    (vv : List UInt8) (now : Int) :
    f.process id first last more vv now = (f.locate id now).1.processAt (f.locate id now).2 first last more vv :=
  rfl

theorem locate_of_found {f : Fragmentation} {id : UInt32} {now : Int} {ref : Nat}
    (found : f.reassemblers.lookup id = some ref) (fresh : (f.objects ref).tooOld now f.timeout = false) :
    f.locate id now = (f, ref) := by
  simp [locate, found, fresh]

theorem locate_of_absent {f : Fragmentation} {id : UInt32} {now : Int} (absent : f.reassemblers.lookup id = none) :
    f.locate id now = f.create id now := by
  simp [locate, absent]

theorem lookup_create (f : Fragmentation) (id : UInt32) (now : Int) :
    (f.create id now).1.reassemblers.lookup id = some (f.create id now).2 := by
  simp [create]

theorem processAt_of_open {f : Fragmentation} {ref : Nat} {first last : UInt16} {more : Bool} {vv : List UInt8}
    {r : Reassembler} {consumed : Int}
    (processed : (f.objects ref).process first last more vv = (r, ⟨[], false, consumed, none⟩))
    (within : f.size + consumed ≤ f.highLimit) :
    f.processAt ref first last more vv =
      ({ f with objects := Function.update f.objects ref r, size := f.size + consumed }, .ok ([], false)) := by
  simp only [processAt, processed]
  rw [if_neg (by simp; omega)]
  rfl

theorem processAt_of_done {f : Fragmentation} {ref : Nat} {first last : UInt16} {more : Bool} {vv : List UInt8}
    {r : Reassembler} {res : List UInt8} {consumed : Int}
    (processed : (f.objects ref).process first last more vv = (r, ⟨res, true, consumed, none⟩)) :
    (f.processAt ref first last more vv).2 = .ok (res, true) := by
  simp only [processAt, processed]

end Fragmentation

/-- A `Fragmentation` while the arrivals `received` for `id` have not
completed their packet: no reassembler for `id` before the first of them,
and after it one that tracks them, created at the time of one of them; the
count holds at most their bytes. -/
structure Reassembling (L : Nat) (id : UInt32) (high timeout : Int) (f : Fragmentation)
    (received : List Arrival) : Prop where
  sameLimit : f.highLimit = high
  sameTimeout : f.timeout = timeout
  counted : f.size ≤ arrivedBytes received
  reassembler : received = [] ∧ f.reassemblers.lookup id = none ∨
    ∃ ref, f.reassemblers.lookup id = some ref ∧ (∃ b ∈ received, (f.objects ref).creationTime = b.now) ∧
      Tracks L (f.objects ref) (received.map Arrival.piece)

theorem reassembling_new (L : Nat) (id : UInt32) (high low timeout : Int) :
    Reassembling L id high timeout (newFragmentation high low timeout) [] where
  sameLimit := rfl
  sameTimeout := rfl
  counted := Int.le_refl 0
  reassembler := Or.inl ⟨rfl, rfl⟩

/-- What `locate` finds for the next arrival: the reassembler for `id`,
tracking what was received, created at the time of an arrival. -/
structure Located (L : Nat) (id : UInt32) (f : Fragmentation) (received : List Arrival) (now : Int)
    (located : Fragmentation × Nat) : Prop where
  found : located.1.reassemblers.lookup id = some located.2
  created : (∃ b ∈ received, (located.1.objects located.2).creationTime = b.now) ∨
    (located.1.objects located.2).creationTime = now
  tracks : Tracks L (located.1.objects located.2) (received.map Arrival.piece)
  sameSize : located.1.size = f.size
  sameLimit : located.1.highLimit = f.highLimit
  sameTimeout : located.1.timeout = f.timeout

section Step

variable {L : Nat} {id : UInt32} {high timeout : Int} {f : Fragmentation} {received : List Arrival}

theorem Reassembling.locate (reassembling : Reassembling L id high timeout f received) {now : Int}
    (inTime : ∀ b ∈ received, now - b.now ≤ timeout) :
    Located L id f received now (f.locate id now) := by
  rcases reassembling.reassembler with ⟨rfl, absent⟩ | ⟨ref, found, ⟨b, member, createdAt⟩, tracks⟩
  · -- the first arrival creates the reassembler
    rw [Fragmentation.locate_of_absent absent]
    exact
      { found := f.lookup_create id now
        created := Or.inr (by simp [Fragmentation.create, newReassembler])
        tracks := by simpa [Fragmentation.create] using tracks_new L id now
        sameSize := rfl
        sameLimit := rfl
        sameTimeout := rfl }
  · -- a later one finds it, not yet too old
    have fresh : (f.objects ref).tooOld now f.timeout = false := by
      have := inTime b member
      simp only [Reassembler.tooOld, reassembling.sameTimeout, createdAt, decide_eq_false_iff_not]
      omega
    rw [Fragmentation.locate_of_found found fresh]
    exact ⟨found, Or.inl ⟨b, member, createdAt⟩, tracks, rfl, rfl, rfl⟩

theorem Reassembling.process_of_incomplete (reassembling : Reassembling L id high timeout f received)
    {a : Arrival} (sameId : a.id = id) (fits : a.piece.Fits L) (bound : L ≤ 65535)
    (inTime : ∀ b ∈ received, a.now - b.now ≤ timeout) (room : arrivedBytes (received ++ [a]) ≤ high)
    (incomplete : ¬Complete L ((received ++ [a]).map Arrival.piece)) :
    (f.process a.id a.first a.last a.more a.vv a.now).2 = .ok ([], false) ∧
      Reassembling L id high timeout (f.process a.id a.first a.last a.more a.vv a.now).1 (received ++ [a]) := by
  subst sameId
  rw [Fragmentation.process_eq_processAt]
  have located := reassembling.locate inTime
  generalize f.locate a.id a.now = F at located ⊢
  obtain ⟨g, ref⟩ := F
  rw [List.map_append, List.map_singleton] at incomplete
  have processed := located.tracks.process_of_incomplete fits bound incomplete
  dsimp only [Arrival.piece] at processed
  have consumed := (g.objects ref).store_consumed_le a.first a.last a.more a.vv
  have sameLimit : g.highLimit = high := located.sameLimit.trans reassembling.sameLimit
  have counted : g.size + ((g.objects ref).store a.first a.last a.more a.vv).2 ≤ arrivedBytes (received ++ [a]) := by
    have sameSize : g.size = f.size := located.sameSize
    have := reassembling.counted
    rw [arrivedBytes_append, arrivedBytes_singleton]
    omega
  rw [Fragmentation.processAt_of_open processed (by omega)]
  refine ⟨rfl, sameLimit, located.sameTimeout.trans reassembling.sameTimeout, counted,
    Or.inr ⟨ref, located.found, ?_, ?_⟩⟩
  · -- the reassembler keeps its creation time, that of an arrival
    simp only [Function.update_self, Reassembler.store_creationTime]
    rcases located.created with ⟨b, member, createdAt⟩ | createdNow
    · exact ⟨b, List.mem_append_left _ member, createdAt⟩
    · exact ⟨a, List.mem_append_right _ List.mem_cons_self, createdNow⟩
  · simp only [Function.update_self]
    rw [List.map_append, List.map_singleton]
    have stored := located.tracks.store fits bound
    dsimp only [Arrival.piece] at stored
    exact stored

theorem Reassembling.process_of_complete (reassembling : Reassembling L id high timeout f received)
    {a : Arrival} (sameId : a.id = id) (fits : a.piece.Fits L) (bound : L ≤ 65535)
    (inTime : ∀ b ∈ received, a.now - b.now ≤ timeout)
    (complete : Complete L ((received ++ [a]).map Arrival.piece)) :
    ∃ res, (f.process a.id a.first a.last a.more a.vv a.now).2 = .ok (res, true) ∧ res.length = L + 1 ∧
      ∀ k ≤ L, ∃ b ∈ received ++ [a], b.piece.Covers k ∧ res[k]? = b.vv[k - b.first.toNat]? := by
  subst sameId
  rw [Fragmentation.process_eq_processAt]
  have located := reassembling.locate inTime
  generalize f.locate a.id a.now = F at located ⊢
  obtain ⟨g, ref⟩ := F
  rw [List.map_append, List.map_singleton] at complete
  obtain ⟨res, processed, length, bytes⟩ := located.tracks.process_of_complete fits bound complete
  dsimp only [Arrival.piece] at processed
  refine ⟨res, Fragmentation.processAt_of_done processed, length, fun k below => ?_⟩
  obtain ⟨q, member, covers, byte⟩ := bytes k below
  have arrived : q ∈ (received ++ [a]).map Arrival.piece := by
    rw [List.map_append, List.map_singleton]
    exact member
  obtain ⟨b, inArrivals, rfl⟩ := List.mem_map.mp arrived
  exact ⟨b, inArrivals, covers, byte⟩

theorem Reassembling.run (bound : L ≤ 65535) (rest : List Arrival) :
    Reassembling L id high timeout f received → (∀ b ∈ rest, b.id = id) → (∀ b ∈ rest, b.piece.Fits L) →
      (∀ b ∈ received ++ rest, ∀ c ∈ rest, c.now - b.now ≤ timeout) → arrivedBytes (received ++ rest) ≤ high →
      ¬Complete L ((received ++ rest).map Arrival.piece) →
      Reassembling L id high timeout (StepRun.run Fragmentation.step f rest) (received ++ rest) := by
  induction rest generalizing f received with
  | nil =>
      intro reassembling _ _ _ _ _
      rw [StepRun.run_nil, List.append_nil]
      exact reassembling
  | cons a rest ih =>
      intro reassembling sameId fits inTime room incomplete
      have shifted : received ++ a :: rest = (received ++ [a]) ++ rest := by simp
      rw [shifted] at room incomplete inTime ⊢
      rw [StepRun.run_cons]
      have firstRoom : arrivedBytes (received ++ [a]) ≤ high := by
        rw [arrivedBytes_append (received ++ [a]) rest] at room
        have := arrivedBytes_nonneg rest
        omega
      have firstIncomplete : ¬Complete L ((received ++ [a]).map Arrival.piece) := fun complete =>
        incomplete (complete.mono fun q member => by
          rw [List.map_append]
          exact List.mem_append_left _ member)
      have stepped := (reassembling.process_of_incomplete (sameId a List.mem_cons_self) (fits a List.mem_cons_self)
        bound (fun b member => inTime b (List.mem_append_left _ (List.mem_append_left _ member)) a List.mem_cons_self)
        firstRoom firstIncomplete).2
      exact ih stepped (fun b member => sameId b (List.mem_cons_of_mem a member))
        (fun b member => fits b (List.mem_cons_of_mem a member))
        (fun b member c later => inTime b member c (List.mem_cons_of_mem a later)) room incomplete

end Step

theorem reassembling_of_run {L : Nat} (bound : L ≤ 65535) (high low timeout : Int) (id : UInt32) (pre : List Arrival)
    (sameId : ∀ b ∈ pre, b.id = id) (fits : ∀ b ∈ pre, b.piece.Fits L)
    (inTime : ∀ b ∈ pre, ∀ c ∈ pre, c.now - b.now ≤ timeout) (room : arrivedBytes pre ≤ high)
    (incomplete : ¬Complete L (pre.map Arrival.piece)) :
    Reassembling L id high timeout (StepRun.run Fragmentation.step (newFragmentation high low timeout) pre) pre := by
  have reassembling := Reassembling.run bound pre (reassembling_new L id high low timeout) sameId fits
    (by simpa using inTime) (by simpa using room) (by simpa using incomplete)
  rwa [List.nil_append] at reassembling

/-- Under one id, while the fragments agree on the packet's last byte `L`,
come within the timeout of each other and hold at most `highLimit` bytes,
each call of `Process` before the packet completes returns without error:
nothing and not done while the fragments received leave it incomplete, and
once they complete it, done with `L + 1` bytes, each the byte of a received
fragment covering its offset. -/
theorem process_reassembles_exactly {L : Nat} (bound : L ≤ 65535) (high low timeout : Int) (id : UInt32)
    (pre : List Arrival) (a : Arrival) (sameId : ∀ b ∈ pre ++ [a], b.id = id)
    (fits : ∀ b ∈ pre ++ [a], b.piece.Fits L)
    (inTime : ∀ b ∈ pre ++ [a], ∀ c ∈ pre ++ [a], c.now - b.now ≤ timeout)
    (room : arrivedBytes (pre ++ [a]) ≤ high) (incompleteBefore : ¬Complete L (pre.map Arrival.piece)) :
    (¬Complete L ((pre ++ [a]).map Arrival.piece) →
        ((StepRun.run Fragmentation.step (newFragmentation high low timeout) pre).process a.id a.first a.last a.more
          a.vv a.now).2 = .ok ([], false)) ∧
      (Complete L ((pre ++ [a]).map Arrival.piece) →
        ∃ res, ((StepRun.run Fragmentation.step (newFragmentation high low timeout) pre).process a.id a.first a.last
            a.more a.vv a.now).2 = .ok (res, true) ∧ res.length = L + 1 ∧
          ∀ k ≤ L, ∃ b ∈ pre ++ [a], b.piece.Covers k ∧ res[k]? = b.vv[k - b.first.toNat]?) := by
  have preRoom : arrivedBytes pre ≤ high := by
    rw [arrivedBytes_append, arrivedBytes_singleton] at room
    omega
  have reassembling := reassembling_of_run bound high low timeout id pre
    (fun b member => sameId b (List.mem_append_left _ member)) (fun b member => fits b (List.mem_append_left _ member))
    (fun b member c later => inTime b (List.mem_append_left _ member) c (List.mem_append_left _ later)) preRoom
    incompleteBefore
  have aId := sameId a (List.mem_append_right _ List.mem_cons_self)
  have aFits := fits a (List.mem_append_right _ List.mem_cons_self)
  have aInTime : ∀ b ∈ pre, a.now - b.now ≤ timeout := fun b member =>
    inTime b (List.mem_append_left _ member) a (List.mem_append_right _ List.mem_cons_self)
  exact ⟨fun incomplete => (reassembling.process_of_incomplete aId aFits bound aInTime room incomplete).1,
    fun complete => reassembling.process_of_complete aId aFits bound aInTime complete⟩

/-- Two halves of a 20-byte packet, the second one last. -/
theorem process_reassembles_two_halves :
    (19 ≤ 65535 ∧ (∀ b ∈ [(⟨1, 0, 9, true, List.replicate 10 7, 0⟩ : Arrival), ⟨1, 10, 19, false, List.replicate 10 8, 0⟩], b.id = 1) ∧
      (∀ b ∈ [(⟨1, 0, 9, true, List.replicate 10 7, 0⟩ : Arrival), ⟨1, 10, 19, false, List.replicate 10 8, 0⟩],
        b.piece.Fits 19) ∧
      (∀ b ∈ [(⟨1, 0, 9, true, List.replicate 10 7, 0⟩ : Arrival), ⟨1, 10, 19, false, List.replicate 10 8, 0⟩],
        ∀ c ∈ [(⟨1, 0, 9, true, List.replicate 10 7, 0⟩ : Arrival), ⟨1, 10, 19, false, List.replicate 10 8, 0⟩],
          c.now - b.now ≤ 30) ∧
      arrivedBytes [⟨1, 0, 9, true, List.replicate 10 7, 0⟩, ⟨1, 10, 19, false, List.replicate 10 8, 0⟩] ≤ 4194304 ∧
      ¬Complete 19 ([(⟨1, 0, 9, true, List.replicate 10 7, 0⟩ : Arrival)].map Arrival.piece)) ∧
    (¬Complete 19 ([(⟨1, 0, 9, true, List.replicate 10 7, 0⟩ : Arrival), ⟨1, 10, 19, false, List.replicate 10 8, 0⟩].map
          Arrival.piece) →
        ((StepRun.run Fragmentation.step (newFragmentation 4194304 3145728 30)
          [⟨1, 0, 9, true, List.replicate 10 7, 0⟩]).process 1 10 19 false (List.replicate 10 8) 0).2 = .ok ([], false)) ∧
      (Complete 19 ([(⟨1, 0, 9, true, List.replicate 10 7, 0⟩ : Arrival), ⟨1, 10, 19, false, List.replicate 10 8, 0⟩].map
          Arrival.piece) →
        ∃ res, ((StepRun.run Fragmentation.step (newFragmentation 4194304 3145728 30)
            [⟨1, 0, 9, true, List.replicate 10 7, 0⟩]).process 1 10 19 false (List.replicate 10 8) 0).2 =
              .ok (res, true) ∧ res.length = 19 + 1 ∧
          ∀ k ≤ 19, ∃ b ∈ [(⟨1, 0, 9, true, List.replicate 10 7, 0⟩ : Arrival), ⟨1, 10, 19, false, List.replicate 10 8, 0⟩],
            b.piece.Covers k ∧ res[k]? = b.vv[k - b.first.toNat]?) :=
  ⟨⟨by decide, by decide, by decide, by decide, by decide, by decide⟩,
    process_reassembles_exactly (L := 19) (by decide) 4194304 3145728 30 1 [⟨1, 0, 9, true, List.replicate 10 7, 0⟩]
      ⟨1, 10, 19, false, List.replicate 10 8, 0⟩ (by decide) (by decide) (by decide) (by decide) (by decide)⟩

/-- A fragment with more to come past the last fragment's end keeps a hole
open: `[10, 19]` leaves the hole `[20, 65535]`, which the last fragment
`[0, 4]` does not meet, so the packet `[0, 4]` is covered and never done. -/
theorem process_not_done_past_final :
    Complete 4 ([(⟨1, 10, 19, true, List.replicate 10 0, 0⟩ : Arrival), ⟨1, 0, 4, false, List.replicate 5 0, 0⟩].map
        Arrival.piece) ∧
      ((StepRun.run Fragmentation.step (newFragmentation 4194304 3145728 30)
        [⟨1, 10, 19, true, List.replicate 10 0, 0⟩]).process 1 0 4 false (List.replicate 5 0) 0).2 = .ok ([], false) := by
  decide

end Cijitter.Network
