import Mathlib

/-! Futex waiter queues (`pkg/sentry/kernel/futex`). Every `Manager` has its
own array of private buckets and shares one bucket for shared mappable keys
with the managers `Fork` made from it. A bucket is named by a `BucketRef`:
private bucket `index` of the array `array`, or shared bucket `id`; the
argument `private` of the calls is `isPrivate`. The
queues of all buckets and the state of every waiter live in one
`Futexes` record, as the lists and waiters do in memory; a waiter is named by
a number, and its channel `C` by the flag `woken` (the channel has room for
one send). The loops over a queue run on fuel; `none` is fuel that ran out.
Each call runs with its buckets locked, so the model runs each call at once. -/

set_option autoImplicit false

namespace Cijitter.Futex

inductive KeyKind where
  | KindPrivate
  | KindSharedPrivate
  | KindSharedMappable
  deriving DecidableEq, Repr

/-- `Key`: a `Mappable` is named by a number, 0 for nil. `MappingIdentity`
only carries a reference count and is left out. -/
structure Key where
  kind : KeyKind
  mappable : Nat
  offset : UInt64
  deriving DecidableEq, Repr

/-- `Key.release` drops the key's `Mappable`. -/
def Key.release (k : Key) : Key :=
  { k with mappable := 0 }

/-- `Key.matches`: a wakeup on `k2` wakes a waiter on `k`. -/
def Key.matches (k k2 : Key) : Bool :=
  k.kind == k2.kind && k.mappable == k2.mappable && k.offset == k2.offset

inductive Error where
  | EINVAL
  | EAGAIN
  | EFAULT
  deriving DecidableEq, Repr

/-- What the modelled calls ask of a `Target`: its 32-bit words and the keys
of its shared mappings. -/
structure Target where
  loadUint32 : UInt64 → Except Error UInt32
  getSharedKey : UInt64 → Except Error Key

/-- `check`. -/
def check (t : Target) (addr : UInt64) (val : UInt32) : Except Error Unit := do
  let cur ← t.loadUint32 addr
  if cur ≠ val then throw .EAGAIN

/-- `getKey`. -/
def getKey (t : Target) (addr : UInt64) (isPrivate : Bool) : Except Error Key :=
  if addr &&& 3 ≠ 0 then .error .EINVAL
  else if isPrivate then .ok ⟨.KindPrivate, 0, addr⟩
  else t.getSharedKey addr

def bucketCount : Nat := 1024

/-- `bucketIndexForAddr`; `uintptr` sums wrap modulo `2^64`, a multiple of
`bucketCount`. -/
def bucketIndexForAddr (addr : UInt64) : Nat :=
  let h1 := (addr >>> 2) + (addr >>> 12) + (addr >>> 22)
  let h2 := (addr >>> 32) + (addr >>> 42)
  (h1 + h2).toNat % bucketCount

inductive BucketRef where
  | privateBucket (array index : Nat)
  | sharedBucket (id : Nat)
  deriving DecidableEq, Repr

/-- `Manager`: its array of private buckets and its shared bucket. -/
structure Manager where
  privateBuckets : Nat
  sharedBucket : Nat
  deriving DecidableEq, Repr

/-- `NewManager`, given a fresh array and a fresh shared bucket. -/
def newManager (array shared : Nat) : Manager :=
  ⟨array, shared⟩

/-- `Fork`: a fresh array, the same shared bucket. -/
def Manager.fork (m : Manager) (array : Nat) : Manager :=
  ⟨array, m.sharedBucket⟩

/-- The fields of a `Waiter` the queues use. -/
structure WaiterState where
  bucket : Option BucketRef
  woken : Bool
  key : Key
  bitmask : UInt32
  deriving DecidableEq, Repr

/-- The queues of every bucket, and every waiter. -/
structure Futexes where
  buckets : BucketRef → List Nat
  waiters : Nat → WaiterState

namespace Manager

/-- `lockBucket`: the bucket of `k`. -/
def lockBucket (m : Manager) (k : Key) : BucketRef :=
  if k.kind = .KindSharedMappable then .sharedBucket m.sharedBucket
  else .privateBucket m.privateBuckets (bucketIndexForAddr k.offset)

/-- `lockBuckets`: the buckets of `k1` and `k2`. -/
def lockBuckets (m : Manager) (k1 k2 : Key) : BucketRef × BucketRef :=
  if k1.kind ≠ .KindSharedMappable ∧ k2.kind ≠ .KindSharedMappable then
    (.privateBucket m.privateBuckets (bucketIndexForAddr k1.offset),
      .privateBucket m.privateBuckets (bucketIndexForAddr k2.offset))
  else if k1.kind ≠ .KindSharedMappable then (m.lockBucket k1, .sharedBucket m.sharedBucket)
  else if k2.kind ≠ .KindSharedMappable then (.sharedBucket m.sharedBucket, m.lockBucket k2)
  else (.sharedBucket m.sharedBucket, .sharedBucket m.sharedBucket)

end Manager

/-- `w.Next()` in `list`: the waiter after `w`. -/
def nextOf (list : List Nat) (w : Nat) : Option Nat :=
  match list.dropWhile (· ≠ w) with
  | _ :: next :: _ => some next
  | _ => none

namespace Futexes

def setQueue (f : Futexes) (b : BucketRef) (list : List Nat) : Futexes :=
  { f with buckets := fun r => if r = b then list else f.buckets r }

def setWaiter (f : Futexes) (w : Nat) (state : WaiterState) : Futexes :=
  { f with waiters := fun v => if v = w then state else f.waiters v }

/-- `waiters.Remove(w)` on the queue of `b`. -/
def remove (f : Futexes) (b : BucketRef) (w : Nat) : Futexes :=
  f.setQueue b ((f.buckets b).erase w)

/-- `waiters.PushBack(w)` on the queue of `b`. -/
def pushBack (f : Futexes) (b : BucketRef) (w : Nat) : Futexes :=
  f.setQueue b (f.buckets b ++ [w])

/-- `wakeWaiterLocked`: `w` leaves the queue, is sent to, and has no
bucket. -/
def wakeWaiterLocked (f : Futexes) (b : BucketRef) (w : Nat) : Futexes :=
  let f := f.remove b w
  f.setWaiter w { f.waiters w with woken := true, bucket := none }

/-- The body of `requeueLocked` for one waiter: it leaves the queue of `b`,
takes `nkey`, and joins the back of the queue of `toBucket` (the source's `to`). -/
def requeueWaiter (f : Futexes) (b toBucket : BucketRef) (nkey : Key) (w : Nat) : Futexes :=
  let f := (f.remove b w).pushBack toBucket w
  f.setWaiter w { f.waiters w with key := nkey, bucket := some toBucket }

/-- The loop `wakeLocked` and `requeueLocked` share: from the front of the
queue of `b`, while `done < n`, a waiter that `selects` picks goes to `act`
and counts, and any other is passed. The next waiter is read before `act`
unlinks the current one. -/
def walk (b : BucketRef) (selects : WaiterState → Bool) (act : Futexes → Nat → Futexes) (n : Int) :
    Nat → Futexes → Option Nat → Int → Option (Futexes × Int)
  | 0, _, _, _ => none
  | fuel + 1, f, cursor, done =>
    match cursor with
    | none => some (f, done)
    | some w =>
      if done < n then
        let next := nextOf (f.buckets b) w
        if selects (f.waiters w) then walk b selects act n fuel (act f w) next (done + 1)
        else walk b selects act n fuel f next done
      else some (f, done)

/-- Turns enough for every run of `walk` over a queue of `length` waiters:
each turn hands a waiter on, which happens at most `n` times, or passes a
waiter that is never moved behind the cursor. -/
def walkFuel (n : Int) (length : Nat) : Nat :=
  n.toNat + length + 1

/-- `bucket.wakeLocked`. -/
def wakeLocked (f : Futexes) (b : BucketRef) (key : Key) (bitmask : UInt32) (n : Int) :
    Option (Futexes × Int) :=
  walk b (fun w => w.key.matches key && w.bitmask &&& bitmask ≠ 0) (fun f w => f.wakeWaiterLocked b w) n
    (walkFuel n (f.buckets b).length) f (f.buckets b).head? 0

/-- `bucket.requeueLocked`. -/
def requeueLocked (f : Futexes) (b toBucket : BucketRef) (key nkey : Key) (n : Int) : Option (Futexes × Int) :=
  walk b (fun w => w.key.matches key) (fun f w => f.requeueWaiter b toBucket nkey w) n
    (walkFuel n (f.buckets b).length) f (f.buckets b).head? 0

end Futexes

namespace Manager

/-- `Wake`. -/
def wake (m : Manager) (f : Futexes) (t : Target) (addr : UInt64) (isPrivate : Bool) (bitmask : UInt32)
    (n : Int) : Option (Futexes × Except Error Int) :=
  match getKey t addr isPrivate with
  | .error e => some (f, .error e)
  | .ok k => (f.wakeLocked (m.lockBucket k) k bitmask n).map fun (f, r) => (f, .ok r)

/-- `doRequeue`: the woken count is returned, the requeued one dropped. -/
def doRequeue (m : Manager) (f : Futexes) (t : Target) (addr naddr : UInt64) (isPrivate checkval : Bool)
    (val : UInt32) (nwake nreq : Int) : Option (Futexes × Except Error Int) :=
  match getKey t addr isPrivate, getKey t naddr isPrivate with
  | .error e, _ => some (f, .error e)
  | .ok _, .error e => some (f, .error e)
  | .ok k1, .ok k2 =>
    let (b1, b2) := m.lockBuckets k1 k2
    match (if checkval then check t addr val else .ok ()) with
    | .error e => some (f, .error e)
    | .ok () => do
      let (f, done) ← f.wakeLocked b1 k1 0xFFFFFFFF nwake
      let (f, _) ← f.requeueLocked b1 b2 k1 k2 nreq
      pure (f, .ok done)

/-- `Requeue`. -/
def requeue (m : Manager) (f : Futexes) (t : Target) (addr naddr : UInt64) (isPrivate : Bool)
    (nwake nreq : Int) : Option (Futexes × Except Error Int) :=
  m.doRequeue f t addr naddr isPrivate false 0 nwake nreq

/-- `RequeueCmp`. -/
def requeueCmp (m : Manager) (f : Futexes) (t : Target) (addr naddr : UInt64) (isPrivate : Bool)
    (val : UInt32) (nwake nreq : Int) : Option (Futexes × Except Error Int) :=
  m.doRequeue f t addr naddr isPrivate true val nwake nreq

/-- `WaitPrepare`: on success `w` is queued on its key's bucket with its
channel drained. -/
def waitPrepare (m : Manager) (f : Futexes) (w : Nat) (t : Target) (addr : UInt64) (isPrivate : Bool)
    (val : UInt32) (bitmask : UInt32) : Futexes × Except Error Unit :=
  match getKey t addr isPrivate with
  | .error e => (f, .error e)
  | .ok k =>
    let f := f.setWaiter w { f.waiters w with woken := false, key := k, bitmask := bitmask }
    let b := m.lockBucket k
    match check t addr val with
    | .error e => (f.setWaiter w { f.waiters w with key := k.release }, .error e)
    | .ok () =>
      let f := f.pushBack b w
      (f.setWaiter w { f.waiters w with bucket := some b }, .ok ())

end Manager

/-- `WaitComplete`: `w` leaves the bucket it is in, if any, and releases its
key. With the bucket locked, `w.bucket` cannot change, so the retry loop of
the source ends at its first turn. -/
def Futexes.waitComplete (f : Futexes) (w : Nat) : Futexes :=
  let f := match (f.waiters w).bucket with
    | none => f
    | some b =>
      let f := f.remove b w
      f.setWaiter w { f.waiters w with bucket := none }
  f.setWaiter w { f.waiters w with key := (f.waiters w).key.release }

/-! ## Requeue onto the same key

`requeueLocked` pushes each waiter it moves onto the back of the queue of
`to`. When `naddr` has the key of `addr`, `to` is the queue being walked and
the moved waiter still matches, so the walk meets it again. -/

@[simp] theorem Key.matches_self (k : Key) : k.matches k = true := by
  simp [Key.matches]

theorem nextOf_pair {c d : Nat} : nextOf [c, d] c = some d := by
  simp [nextOf, List.dropWhile]

namespace Futexes

@[simp] theorem setQueue_buckets_self (f : Futexes) (b : BucketRef) (list : List Nat) :
    (f.setQueue b list).buckets b = list := by
  simp [setQueue]

@[simp] theorem setQueue_waiters (f : Futexes) (b : BucketRef) (list : List Nat) :
    (f.setQueue b list).waiters = f.waiters := rfl

@[simp] theorem setWaiter_buckets (f : Futexes) (w : Nat) (state : WaiterState) :
    (f.setWaiter w state).buckets = f.buckets := rfl

@[simp] theorem remove_waiters (f : Futexes) (b : BucketRef) (w : Nat) : (f.remove b w).waiters = f.waiters := rfl

@[simp] theorem pushBack_waiters (f : Futexes) (b : BucketRef) (w : Nat) :
    (f.pushBack b w).waiters = f.waiters := rfl

theorem setWaiter_waiters (f : Futexes) (w v : Nat) (state : WaiterState) :
    (f.setWaiter w state).waiters v = if v = w then state else f.waiters v := rfl

theorem requeueWaiter_pair (f : Futexes) (b : BucketRef) (nkey : Key) {c d : Nat} (distinct : c ≠ d)
    (queue : f.buckets b = [c, d]) :
    (f.requeueWaiter b b nkey c).buckets b = [d, c] ∧
      ((f.requeueWaiter b b nkey c).waiters c).key = nkey ∧
      (f.requeueWaiter b b nkey c).waiters d = f.waiters d := by
  have erased : [c, d].erase c = [d] := by simp
  refine ⟨?_, ?_, ?_⟩
  · simp [requeueWaiter, pushBack, remove, queue, erased]
  · simp [requeueWaiter, setWaiter_waiters]
  · simp [requeueWaiter, setWaiter_waiters, Ne.symm distinct]

theorem walk_requeue_pair (b : BucketRef) (k : Key) (n : Int) (moves : Nat) :
    ∀ (fuel : Nat) (f : Futexes) (c d : Nat) (done : Int), moves < fuel → c ≠ d →
      f.buckets b = [c, d] → (f.waiters c).key = k → (f.waiters d).key = k → n - done = moves →
      ∃ f', walk b (fun w => w.key.matches k) (fun f w => f.requeueWaiter b b k w) n fuel f (some c) done =
        some (f', n) := by
  induction moves with
  | zero =>
    intro fuel f c d done enough _ _ _ _ last
    obtain ⟨fuel, rfl⟩ : ∃ rest, fuel = rest + 1 := ⟨fuel - 1, by omega⟩
    refine ⟨f, ?_⟩
    rw [walk, if_neg (by omega)]
    congr
    omega
  | succ moves ih =>
    intro fuel f c d done enough distinct queue keyC keyD left
    obtain ⟨fuel, rfl⟩ : ∃ rest, fuel = rest + 1 := ⟨fuel - 1, by omega⟩
    obtain ⟨swapped, keyMoved, other⟩ := requeueWaiter_pair f b k distinct queue
    have next := ih fuel (f.requeueWaiter b b k c) d c (done + 1) (by omega) (Ne.symm distinct) swapped
      (by rw [other]; exact keyD) keyMoved (by omega)
    rw [walk, if_pos (by omega), queue, nextOf_pair, keyC, Key.matches_self, if_pos rfl]
    exact next

end Futexes

/-- When two waiters wait on key `k` and `naddr` has the same key,
`requeueLocked` moves a waiter `n` times for every `n ≥ 0`: each moved
waiter joins the back of the queue being walked and is met again, so the
two waiters are moved over and over until `done` reaches `n`, not once
each. -/
theorem requeueLocked_same_key_moves_n_times (f : Futexes) (b : BucketRef) (k : Key) (c d : Nat) (n : Int)
    (distinct : c ≠ d) (queue : f.buckets b = [c, d]) (keyC : (f.waiters c).key = k)
    (keyD : (f.waiters d).key = k) (nonneg : 0 ≤ n) :
    ∃ f', f.requeueLocked b b k k n = some (f', n) := by
  have walked := Futexes.walk_requeue_pair b k n n.toNat (Futexes.walkFuel n (f.buckets b).length) f c d 0
    (by unfold Futexes.walkFuel; omega) distinct queue keyC keyD (by omega)
  rw [Futexes.requeueLocked, queue]
  rw [queue] at walked
  exact walked

/-- Two threads wait on the private futex word at `0x1000` (it holds 0), and
`Requeue(0x1000, 0x1000, nwake = 0, nreq = 3)` walks their queue: three
moves for two waiters, and the queue ends in the other order. -/
theorem requeue_prepared_pair_three_times :
    let t : Target := ⟨fun _ => .ok 0, fun _ => .error .EFAULT⟩
    let m := newManager 0 0
    let k : Key := ⟨.KindPrivate, 0, 0x1000⟩
    let idle : Futexes := ⟨fun _ => [], fun _ => ⟨none, false, k, 0⟩⟩
    let f := (m.waitPrepare (m.waitPrepare idle 1 t 0x1000 true 0 0xFFFFFFFF).1 2 t 0x1000 true 0 0xFFFFFFFF).1
    f.buckets (m.lockBucket k) = [1, 2] ∧ (f.waiters 1).key = k ∧ (f.waiters 2).key = k ∧
      (∃ f', f.requeueLocked (m.lockBucket k) (m.lockBucket k) k k 3 = some (f', 3)) ∧
      ((m.requeue f t 0x1000 0x1000 true 0 3).map fun (f, r) => (f.buckets (m.lockBucket k), r)) =
        some ([2, 1], .ok 0) := by
  intro t m k idle f
  have queue : f.buckets (m.lockBucket k) = [1, 2] := by decide
  have key1 : (f.waiters 1).key = k := by decide
  have key2 : (f.waiters 2).key = k := by decide
  exact ⟨queue, key1, key2,
    requeueLocked_same_key_moves_n_times f (m.lockBucket k) k 1 2 3 (by decide) queue key1 key2 (by decide),
    by decide⟩

end Cijitter.Futex
