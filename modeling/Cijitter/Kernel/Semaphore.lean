import Cijitter.Lib.Run
import Mathlib

/-! System V semaphore sets (`pkg/sentry/kernel/semaphore`): each semaphore
holds an `int16` value and a queue of waiters, each waiter the `sem_op` it
waits with and its channel. Go's `int16` is Lean's `Int16`, whose negation,
sums and comparisons wrap and compare as Go's do. Channels are named by
numbers; a call returns the channels it sent to, in order, and the channel
`ExecuteOps` would make for a new waiter is an argument. The permission check
of the caller's credentials against the set's owner and mode is the function
`allowed`. A panic of the source is `none`. -/

set_option autoImplicit false

namespace Cijitter.Semaphore

/-- `valueMax` (`SEMVMX`). -/
def valueMax : Int16 := 32767

/-- `linux.IPC_NOWAIT`. -/
def ipcNowait : Int16 := 0x800

/-- `linux.Sembuf`. -/
structure Sembuf where
  semNum : UInt16
  semOp : Int16
  semFlg : Int16
  deriving DecidableEq, Repr

inductive Error where
  | EIDRM
  | EFBIG
  | EACCES
  | ERANGE
  | ErrWouldBlock
  deriving DecidableEq, Repr

/-- `fs.PermMask`, with the two bits the modelled calls ask for. -/
structure PermMask where
  read : Bool
  write : Bool
  deriving DecidableEq, Repr

structure Waiter where
  value : Int16
  ch : Nat
  deriving DecidableEq, Repr

structure Sem where
  value : Int16
  waiters : List Waiter
  pid : Int32
  deriving DecidableEq, Repr

/-- `Set`, with the fields the modelled calls read and write. -/
structure Set where
  sems : List Sem
  dead : Bool
  deriving DecidableEq, Repr

namespace Sem

/-- The loop of `wakeWaiters`: a waiter whose `value` is above the
semaphore's stays queued, every other one is signalled and removed. -/
def wakeLoop (value : Int16) : List Waiter → List Waiter × List Nat
  | [] => ([], [])
  | w :: ws =>
    let (kept, woken) := wakeLoop value ws
    if value < w.value then (w :: kept, woken) else (kept, w.ch :: woken)

def wakeWaiters (sem : Sem) : Sem × List Nat :=
  let (kept, woken) := wakeLoop sem.value sem.waiters
  ({ sem with waiters := kept }, woken)

/-- A store of `value` and `pid` followed by `wakeWaiters`, as `SetVal`,
`SetValAll` and the end of `executeOps` make it. -/
def store (sem : Sem) (value : Int16) (pid : Int32) : Sem × List Nat :=
  wakeWaiters { sem with value := value, pid := pid }

end Sem

namespace Set

/-- The values of the semaphores, in order. -/
def values (s : Set) : List Int16 :=
  s.sems.map (·.value)

def findSem (s : Set) (num : Int32) : Option Sem :=
  if num < 0 ∨ num.toInt ≥ s.sems.length then none else s.sems[num.toInt.toNat]?

/-- Stores into semaphore `i` and collects the channels signalled. -/
def storeAt (s : Set) (i : Nat) (value : Int16) (pid : Int32) : Set × List Nat :=
  match s.sems[i]? with
  | none => (s, [])
  | some sem =>
    let (sem, woken) := sem.store value pid
    ({ s with sems := s.sems.set i sem }, woken)

/-- `SetVal`. -/
def setVal (s : Set) (allowed : PermMask → Bool) (num : Int32) (val : Int16) (pid : Int32) :
    Set × List Nat × Except Error Unit :=
  if val < 0 ∨ val > valueMax then (s, [], .error .ERANGE)
  else if !allowed ⟨false, true⟩ then (s, [], .error .EACCES)
  else if (s.findSem num).isNone then (s, [], .error .ERANGE)
  else
    let (s, woken) := s.storeAt num.toInt.toNat val pid
    (s, woken, .ok ())

/-- Stores `vs` into the semaphores from index `i` on: the loop of
`SetValAll` and the end of `executeOps`. -/
def storeAll (pid : Int32) : Nat → List Int16 → Set → Set × List Nat
  | _, [], s => (s, [])
  | i, v :: vs, s =>
    let (s, woken) := s.storeAt i v pid
    let (s, rest) := storeAll pid (i + 1) vs s
    (s, woken ++ rest)

/-- `SetValAll`; a `vals` of another length than the set panics. -/
def setValAll (s : Set) (allowed : PermMask → Bool) (vals : List UInt16) (pid : Int32) :
    Option (Set × List Nat × Except Error Unit) :=
  if vals.length ≠ s.sems.length then none
  else if vals.any (fun val => val > 32767) then some (s, [], .error .ERANGE)
  else if !allowed ⟨false, true⟩ then some (s, [], .error .EACCES)
  else
    let (s, woken) := storeAll pid 0 (vals.map (·.toInt16)) s
    some (s, woken, .ok ())

/-- Queues a waiter on semaphore `num`. -/
def pushWaiter (s : Set) (num : Nat) (w : Waiter) : Set :=
  { s with sems := s.sems.modify num fun sem => { sem with waiters := sem.waiters ++ [w] } }

/-- What `executeOps` returns: `none` when the operations were applied,
otherwise the channel of the new waiter and its semaphore. -/
abbrev Outcome := Except Error (Option (Nat × Int32))

/-- An operation that cannot go on yet: with `IPC_NOWAIT` the call fails,
otherwise a waiter with the raw `sem_op` is queued and its channel returned. -/
def block (s : Set) (ch : Nat) (op : Sembuf) : Set × List Nat × Outcome :=
  if op.semFlg &&& ipcNowait ≠ 0 then (s, [], .error .ErrWouldBlock)
  else (s.pushWaiter op.semNum.toNat ⟨op.semOp, ch⟩, [], .ok (some (ch, Int32.ofNat op.semNum.toNat)))

/-- The loop of `executeOps` over the operations, on the tentative values
`tmpVals`. -/
def executeOpsLoop (s : Set) (pid : Int32) (ch : Nat) : List Int16 → List Sembuf → Set × List Nat × Outcome
  | tmpVals, [] =>
    let (s, woken) := storeAll pid 0 tmpVals s
    (s, woken, .ok none)
  | tmpVals, op :: ops =>
    let tmp := tmpVals.getD op.semNum.toNat 0
    if op.semOp = 0 then
      if tmp ≠ 0 then block s ch op
      else executeOpsLoop s pid ch tmpVals ops
    else if op.semOp < 0 then
      if -op.semOp > valueMax then (s, [], .error .ERANGE)
      else if -op.semOp > tmp then block s ch op
      else executeOpsLoop s pid ch (tmpVals.set op.semNum.toNat (tmp + op.semOp)) ops
    else if tmp > valueMax - op.semOp then (s, [], .error .ERANGE)
    else executeOpsLoop s pid ch (tmpVals.set op.semNum.toNat (tmp + op.semOp)) ops

/-- The unexported `executeOps`, which `ExecuteOps` calls with `s.mu` held. -/
def executeOpsLocked (s : Set) (ops : List Sembuf) (pid : Int32) (ch : Nat) : Set × List Nat × Outcome :=
  executeOpsLoop s pid ch s.values ops

/-- `ExecuteOps`: refused on a removed set, for an operation on a semaphore
outside the set and without the permission the operations need. -/
def executeOps (s : Set) (allowed : PermMask → Bool) (ops : List Sembuf) (pid : Int32) (ch : Nat) :
    Set × List Nat × Outcome :=
  if s.dead then (s, [], .error .EIDRM)
  else if ops.any (fun op => (s.findSem (Int32.ofNat op.semNum.toNat)).isNone) then (s, [], .error .EFBIG)
  else
    let readOnly := ops.all (·.semOp = 0)
    if !allowed ⟨readOnly, !readOnly⟩ then (s, [], .error .EACCES)
    else s.executeOpsLocked ops pid ch

/-- `AbortWait`: the first waiter with channel `ch` leaves the queue of
semaphore `num`. -/
def abortWait (s : Set) (num : Int32) (ch : Nat) : Option Set :=
  if num < 0 ∨ num.toInt ≥ s.sems.length then none
  else some { s with sems := s.sems.modify num.toInt.toNat fun sem =>
    { sem with waiters := sem.waiters.eraseP (·.ch = ch) } }

/-- `destroy`: the set is dead and every waiter is signalled. The range over
`s.sems` works on copies of the semaphores, so its `Reset` empties a copy's
queue and the set keeps its waiters. -/
def destroy (s : Set) : Set × List Nat :=
  ({ s with dead := true }, (s.sems.map fun sem => sem.waiters.map (·.ch)).flatten)

end Set

/-! ## Values in range

A semaphore holds a value of `[0, SEMVMX]`. `SetVal` and `SetValAll` check
the values they store, and `executeOps` checks each operation against the
tentative value it changes; the check of a decrement negates `sem_op`, which
for `-32768` gives `-32768` back. -/

/-- A value a semaphore may hold. -/
def InRange (v : Int16) : Prop :=
  0 ≤ v ∧ v ≤ valueMax

instance : DecidablePred InRange :=
  fun v => inferInstanceAs (Decidable (0 ≤ v ∧ v ≤ valueMax))

theorem inRange_iff {v : Int16} : InRange v ↔ 0 ≤ v.toInt ∧ v.toInt ≤ 32767 := by
  rw [InRange, Int16.le_iff_toInt_le, Int16.le_iff_toInt_le]
  rfl

theorem toInt_neg_of_ne_min {x : Int16} (notMin : x ≠ -32768) : (-x).toInt = -x.toInt := by
  have low := Int16.le_toInt x
  have high : x.toInt ≤ 32767 := Int16.toInt_le x
  have ne : x.toInt ≠ -32768 := by
    intro eq
    apply notMin
    rw [← Int16.toInt_inj, eq]
    rfl
  rw [Int16.toInt_neg]
  apply Int.bmod_eq_of_le_mul_two <;> omega

theorem toInt_add_of_bounds {x y : Int16} (low : -2 ^ 15 ≤ x.toInt + y.toInt)
    (high : x.toInt + y.toInt < 2 ^ 15) : (x + y).toInt = x.toInt + y.toInt := by
  rw [Int16.toInt_add]
  apply Int.bmod_eq_of_le_mul_two <;> omega

theorem toInt_sub_of_bounds {x y : Int16} (low : -2 ^ 15 ≤ x.toInt - y.toInt)
    (high : x.toInt - y.toInt < 2 ^ 15) : (x - y).toInt = x.toInt - y.toInt := by
  rw [Int16.toInt_sub]
  apply Int.bmod_eq_of_le_mul_two <;> omega

theorem toInt_toInt16 {val : UInt16} (small : val.toNat ≤ 32767) : val.toInt16.toInt = val.toNat := by
  rw [← Int16.toInt_toBitVec, UInt16.toBitVec_toInt16, BitVec.toInt_eq_toNat_of_lt]
  · rfl
  · simp only [UInt16.toNat_toBitVec]
    omega

theorem inRange_zero : InRange 0 := by
  decide

theorem inRange_add_of_wait {tmp op : Int16} (range : InRange tmp) (negative : op < 0)
    (notMin : op ≠ -32768) (enough : ¬ -op > tmp) : InRange (tmp + op) := by
  rw [inRange_iff] at range ⊢
  rw [Int16.lt_iff_toInt_lt] at negative
  rw [gt_iff_lt, Int16.lt_iff_toInt_lt, toInt_neg_of_ne_min notMin] at enough
  have low := Int16.le_toInt op
  have zero : (0 : Int16).toInt = 0 := rfl
  rw [toInt_add_of_bounds (by omega) (by omega)]
  omega

theorem inRange_add_of_signal {tmp op : Int16} (range : InRange tmp) (nonnegative : ¬ op < 0)
    (room : ¬ tmp > valueMax - op) : InRange (tmp + op) := by
  rw [inRange_iff] at range ⊢
  have zero : (0 : Int16).toInt = 0 := rfl
  have max : valueMax.toInt = 32767 := rfl
  rw [Int16.lt_iff_toInt_lt, zero] at nonnegative
  have high : op.toInt ≤ 32767 := Int16.toInt_le op
  have difference : (valueMax - op).toInt = 32767 - op.toInt := by
    rw [toInt_sub_of_bounds] <;> omega
  rw [gt_iff_lt, Int16.lt_iff_toInt_lt, difference] at room
  rw [toInt_add_of_bounds (by omega) (by omega)]
  omega

theorem add_min_of_inRange {tmp : Int16} (range : InRange tmp) :
    ¬ -(-32768 : Int16) > valueMax ∧ ¬ -(-32768 : Int16) > tmp ∧ tmp + -32768 < 0 := by
  rw [inRange_iff] at range
  have negated : -(-32768 : Int16) = -32768 := by decide
  have min : (-32768 : Int16).toInt = -32768 := rfl
  have zero : (0 : Int16).toInt = 0 := rfl
  refine ⟨by decide, ?_, ?_⟩
  · rw [negated, gt_iff_lt, Int16.lt_iff_toInt_lt, min]
    omega
  · rw [Int16.lt_iff_toInt_lt, toInt_add_of_bounds (by omega) (by omega), min, zero]
    omega

namespace Set

/-- Every semaphore of the set holds a value in range. -/
def ValuesInRange (s : Set) : Prop :=
  ∀ v ∈ s.values, InRange v

theorem forall_mem_set {p : Int16 → Prop} {l : List Int16} {i : Nat} {v : Int16}
    (all : ∀ x ∈ l, p x) (new : p v) : ∀ x ∈ l.set i v, p x := by
  intro x member
  rcases List.mem_or_eq_of_mem_set member with old | rfl
  · exact all x old
  · exact new

@[simp] theorem value_wakeLoop (sem : Sem) : sem.wakeWaiters.1.value = sem.value := rfl

@[simp] theorem value_store (sem : Sem) (v : Int16) (pid : Int32) : (sem.store v pid).1.value = v := rfl

theorem values_storeAt (s : Set) (i : Nat) (v : Int16) (pid : Int32) :
    (s.storeAt i v pid).1.values = s.values.set i v := by
  unfold storeAt values
  cases found : s.sems[i]? with
  | none =>
    have outside : s.sems.length ≤ i := List.getElem?_eq_none_iff.mp found
    rw [List.set_eq_of_length_le (by simpa using outside)]
  | some sem =>
    simp only [List.map_set, value_store]

theorem map_value_modify (sems : List Sem) (n : Nat) (f : Sem → Sem)
    (keeps : ∀ sem, (f sem).value = sem.value) : (sems.modify n f).map (·.value) = sems.map (·.value) := by
  induction sems generalizing n with
  | nil => simp
  | cons sem sems ih =>
    cases n with
    | zero => simp [keeps]
    | succ n => simp [List.modify_succ_cons, ih]

@[simp] theorem values_pushWaiter (s : Set) (n : Nat) (w : Waiter) : (s.pushWaiter n w).values = s.values :=
  map_value_modify s.sems n _ fun _ => rfl

theorem values_block (s : Set) (ch : Nat) (op : Sembuf) : (s.block ch op).1.values = s.values := by
  unfold block
  split <;> simp

theorem ValuesInRange.of_values_eq {s s' : Set} (same : s'.values = s.values) (range : s.ValuesInRange) :
    s'.ValuesInRange := by
  unfold ValuesInRange
  rw [same]
  exact range

theorem inRange_storeAt {s : Set} {i : Nat} {v : Int16} (pid : Int32) (range : s.ValuesInRange)
    (stored : InRange v) : (s.storeAt i v pid).1.ValuesInRange := by
  unfold ValuesInRange
  rw [values_storeAt]
  exact forall_mem_set range stored

theorem inRange_storeAll (pid : Int32) (vs : List Int16) :
    ∀ (i : Nat) (s : Set), s.ValuesInRange → (∀ v ∈ vs, InRange v) → (storeAll pid i vs s).1.ValuesInRange := by
  induction vs with
  | nil => exact fun _ _ range _ => range
  | cons v vs ih =>
    intro i s range stored
    have head : InRange v := stored v List.mem_cons_self
    have stored' : ∀ x ∈ vs, InRange x := fun x member => stored x (List.mem_cons_of_mem v member)
    exact ih (i + 1) _ (inRange_storeAt pid range head) stored'

theorem inRange_executeOpsLoop (s : Set) (pid : Int32) (ch : Nat) (range : s.ValuesInRange)
    (ops : List Sembuf) (noMin : ∀ op ∈ ops, op.semOp ≠ -32768) :
    ∀ tmpVals : List Int16, (∀ v ∈ tmpVals, InRange v) → (s.executeOpsLoop pid ch tmpVals ops).1.ValuesInRange := by
  induction ops with
  | nil => exact fun tmpVals tentative => inRange_storeAll pid tmpVals 0 s range tentative
  | cons op ops ih =>
    intro tmpVals tentative
    have notMin : op.semOp ≠ -32768 := noMin op List.mem_cons_self
    have rest := ih fun op member => noMin op (List.mem_cons_of_mem _ member)
    have tmpRange : InRange (tmpVals.getD op.semNum.toNat 0) := by
      rw [List.getD_eq_getElem?_getD]
      cases found : tmpVals[op.semNum.toNat]? with
      | none => exact inRange_zero
      | some v => exact tentative v (List.mem_of_getElem? found)
    have blocked : (s.block ch op).1.ValuesInRange := ValuesInRange.of_values_eq (values_block s ch op) range
    unfold executeOpsLoop
    dsimp only
    -- the branches of one operation: wait for zero, decrement, increment
    split
    · split
      · exact blocked
      · exact rest tmpVals tentative
    · split
      · split
        · exact range
        · split
          · exact blocked
          · next negative _ enough =>
            exact rest _ (forall_mem_set tentative (inRange_add_of_wait tmpRange negative notMin enough))
      · split
        · exact range
        · next nonnegative room =>
          exact rest _ (forall_mem_set tentative (inRange_add_of_signal tmpRange nonnegative room))

theorem inRange_setVal (s : Set) (allowed : PermMask → Bool) (num : Int32) (val : Int16) (pid : Int32)
    (range : s.ValuesInRange) : (s.setVal allowed num val pid).1.ValuesInRange := by
  unfold setVal
  split
  · exact range
  · next checked =>
    have stored : InRange val := by
      rw [not_or, Int16.not_lt, gt_iff_lt, Int16.not_lt] at checked
      exact checked
    split
    · exact range
    · split
      · exact range
      · exact inRange_storeAt pid range stored

theorem inRange_setValAll (s : Set) (allowed : PermMask → Bool) (vals : List UInt16) (pid : Int32)
    (range : s.ValuesInRange) : ∀ result, s.setValAll allowed vals pid = some result → result.1.ValuesInRange := by
  intro result returned
  unfold setValAll at returned
  split at returned
  · cases returned
  · next sized =>
    split at returned
    · cases returned
      exact range
    · next checked =>
      have stored : ∀ v ∈ vals.map (·.toInt16), InRange v := by
        intro v member
        obtain ⟨val, listed, rfl⟩ := List.mem_map.mp member
        have small : val.toNat ≤ 32767 := by
          have unchecked := List.any_eq_false.mp (Bool.not_eq_true _ ▸ checked) val listed
          simp only [gt_iff_lt, decide_eq_true_eq, UInt16.lt_iff_toNat_lt] at unchecked
          simp only [UInt16.reduceToNat] at unchecked
          omega
        rw [inRange_iff, toInt_toInt16 small]
        omega
      split at returned
      · cases returned
        exact range
      · cases returned
        exact inRange_storeAll pid _ 0 s range stored

theorem inRange_executeOps (s : Set) (allowed : PermMask → Bool) (ops : List Sembuf) (pid : Int32) (ch : Nat)
    (range : s.ValuesInRange) (noMin : ∀ op ∈ ops, op.semOp ≠ -32768) :
    (s.executeOps allowed ops pid ch).1.ValuesInRange := by
  unfold executeOps
  split
  · exact range
  · split
    · exact range
    · dsimp only
      split
      · exact range
      · exact inRange_executeOpsLoop s pid ch range ops noMin _ range

theorem values_abortWait {s s' : Set} {num : Int32} {ch : Nat} (returned : s.abortWait num ch = some s') :
    s'.values = s.values := by
  unfold abortWait at returned
  split at returned
  · cases returned
  · cases returned
    exact map_value_modify s.sems _ _ fun _ => rfl

theorem values_destroy (s : Set) : s.destroy.1.values = s.values := rfl

end Set

/-- A set as `FindOrCreate` makes it: `nsems` semaphores of value 0. -/
def newSet (nsems : Nat) : Set :=
  ⟨List.replicate nsems ⟨0, [], 0⟩, false⟩

theorem valuesInRange_newSet (nsems : Nat) : (newSet nsems).ValuesInRange := by
  intro v member
  simp only [newSet, Set.values, List.map_replicate, List.mem_replicate] at member
  rw [member.2]
  exact inRange_zero

/-- The calls on one set. Each carries the verdict of the caller's
permission check, and `executeOps` the channel it would make. -/
inductive Action where
  | setVal (allowed : PermMask → Bool) (num : Int32) (val : Int16) (pid : Int32)
  | setValAll (allowed : PermMask → Bool) (vals : List UInt16) (pid : Int32)
  | executeOps (allowed : PermMask → Bool) (ops : List Sembuf) (pid : Int32) (ch : Nat)
  | abortWait (num : Int32) (ch : Nat)
  | destroy

/-- One call; a call that panics does so before it changes the set. -/
def step (s : Set) : Action → Set
  | .setVal allowed num val pid => (s.setVal allowed num val pid).1
  | .setValAll allowed vals pid => ((s.setValAll allowed vals pid).map (·.1)).getD s
  | .executeOps allowed ops pid ch => (s.executeOps allowed ops pid ch).1
  | .abortWait num ch => (s.abortWait num ch).getD s
  | .destroy => s.destroy.1

/-- The call has no operation `-32768`. -/
def Action.AvoidsMin : Action → Prop
  | .executeOps _ ops _ _ => ∀ op ∈ ops, op.semOp ≠ -32768
  | _ => True

theorem inRange_step (s : Set) (range : s.ValuesInRange) (action : Action) (avoids : action.AvoidsMin) :
    (step s action).ValuesInRange := by
  cases action with
  | setVal allowed num val pid => exact s.inRange_setVal allowed num val pid range
  | setValAll allowed vals pid =>
    cases returned : s.setValAll allowed vals pid with
    | none =>
      simp only [step, returned, Option.map_none, Option.getD_none]
      exact range
    | some result =>
      simp only [step, returned, Option.map_some, Option.getD_some]
      exact s.inRange_setValAll allowed vals pid range result returned
  | executeOps allowed ops pid ch => exact s.inRange_executeOps allowed ops pid ch range avoids
  | abortWait num ch =>
    cases returned : s.abortWait num ch with
    | none =>
      simp only [step, returned, Option.getD_none]
      exact range
    | some s' =>
      rw [step, returned, Option.getD_some]
      exact Set.ValuesInRange.of_values_eq (Set.values_abortWait returned) range
  | destroy => exact Set.ValuesInRange.of_values_eq (Set.values_destroy s) range

/-- Every semaphore keeps a value of `[0, SEMVMX]` over every run of calls
with no operation `-32768`. -/
theorem valuesInRange_run (actions : List Action) (avoids : ∀ action ∈ actions, action.AvoidsMin)
    (s : Set) (range : s.ValuesInRange) : (StepRun.run step s actions).ValuesInRange := by
  induction actions generalizing s with
  | nil => exact range
  | cons action actions ih =>
    have next := inRange_step s range action (avoids action List.mem_cons_self)
    exact ih (fun a member => avoids a (List.mem_cons_of_mem _ member)) _ next

theorem values_stay_in_range_on_new_set :
    (∀ action ∈ [Action.setVal (fun _ => true) 0 3 1, .executeOps (fun _ => true) [⟨0, -2, 0⟩, ⟨0, 1, 0⟩] 1 0],
      action.AvoidsMin) ∧ (newSet 1).ValuesInRange ∧
    (StepRun.run step (newSet 1)
      [.setVal (fun _ => true) 0 3 1, .executeOps (fun _ => true) [⟨0, -2, 0⟩, ⟨0, 1, 0⟩] 1 0]).ValuesInRange := by
  have avoids : ∀ action ∈ [Action.setVal (fun _ => true) 0 3 1,
      .executeOps (fun _ => true) [⟨0, -2, 0⟩, ⟨0, 1, 0⟩] 1 0], action.AvoidsMin := by
    simp only [List.mem_cons, List.mem_nil_iff, or_false, forall_eq_or_imp, forall_eq, Action.AvoidsMin, true_and]
    decide
  exact ⟨avoids, valuesInRange_newSet 1, valuesInRange_run _ avoids (newSet 1) (valuesInRange_newSet 1)⟩

namespace Set

theorem findSem_ofNat (s : Set) (n : UInt16) : s.findSem (Int32.ofNat n.toNat) = s.sems[n.toNat]? := by
  have small := n.toNat_lt
  have converted : (Int32.ofNat n.toNat).toInt = n.toNat := Int32.toInt_ofNat_of_lt (by omega)
  have zero : (0 : Int32).toInt = 0 := rfl
  unfold findSem
  split
  · next outside =>
    rw [Int32.lt_iff_toInt_lt, converted, zero] at outside
    symm
    apply List.getElem?_eq_none
    omega
  · rw [converted]
    rfl

theorem take_set_succ {l : List Int16} {i : Nat} {v : Int16} (inside : i < l.length) :
    (l.set i v).take (i + 1) = l.take i ++ [v] := by
  apply List.ext_getElem
  · simp only [List.length_take, List.length_set, List.length_append, List.length_singleton]
    omega
  · intro j _ _
    simp only [List.getElem_take, List.getElem_set, List.getElem_append]
    grind

@[simp] theorem storeAll_cons_fst (pid : Int32) (i : Nat) (v : Int16) (vs : List Int16) (s : Set) :
    (storeAll pid i (v :: vs) s).1 = (storeAll pid (i + 1) vs (s.storeAt i v pid).1).1 := rfl

theorem values_storeAll (pid : Int32) (vs : List Int16) :
    ∀ (i : Nat) (s : Set), i + vs.length = s.values.length → (storeAll pid i vs s).1.values = s.values.take i ++ vs := by
  induction vs with
  | nil =>
    intro i s sized
    rw [List.length_nil, Nat.add_zero] at sized
    rw [storeAll, List.take_of_length_le (Nat.le_of_eq sized.symm), List.append_nil]
  | cons v vs ih =>
    intro i s sized
    rw [List.length_cons] at sized
    have inside : i < s.values.length := by omega
    have stored := values_storeAt s i v pid
    have next := ih (i + 1) (s.storeAt i v pid).1 (by rw [stored, List.length_set]; omega)
    rw [storeAll_cons_fst, next, stored, take_set_succ inside, List.append_assoc, List.singleton_append]

theorem executeOps_of_checks (s : Set) (allowed : PermMask → Bool) (ops : List Sembuf) (pid : Int32) (ch : Nat)
    (alive : s.dead = false) (found : ∀ op ∈ ops, (s.findSem (Int32.ofNat op.semNum.toNat)).isSome)
    (permitted : allowed ⟨ops.all (·.semOp = 0), !ops.all (·.semOp = 0)⟩ = true) :
    s.executeOps allowed ops pid ch = s.executeOpsLocked ops pid ch := by
  have none : ops.any (fun op => (s.findSem (Int32.ofNat op.semNum.toNat)).isNone) = false := by
    simpa [Option.isNone_iff_eq_none, ← Option.isSome_iff_ne_none] using found
  simp only [executeOps, alive, none, permitted]
  rfl

theorem executeOpsLoop_decrement (s : Set) (pid : Int32) (ch : Nat) (tmpVals : List Int16) (op : Sembuf)
    (ops : List Sembuf) (nonzero : op.semOp ≠ 0) (negative : op.semOp < 0)
    (belowMax : ¬ -op.semOp > valueMax) (belowTmp : ¬ -op.semOp > tmpVals.getD op.semNum.toNat 0) :
    s.executeOpsLoop pid ch tmpVals (op :: ops) =
      s.executeOpsLoop pid ch (tmpVals.set op.semNum.toNat (tmpVals.getD op.semNum.toNat 0 + op.semOp)) ops := by
  rw [executeOpsLoop]
  simp only [nonzero, negative, belowMax, belowTmp, if_false, if_true]

end Set

/-- `ExecuteOps` applies a decrement by `-32768` to a semaphore of any value
in range, and the value becomes negative: `-op.SemOp` is `-32768` again, so
neither the check against `valueMax` nor the one against the tentative value
holds. -/
theorem executeOps_min_semOp_goes_negative (s : Set) (allowed : PermMask → Bool) (num : UInt16) (sem : Sem)
    (pid : Int32) (ch : Nat) (alive : s.dead = false) (found : s.sems[num.toNat]? = some sem)
    (alter : allowed ⟨false, true⟩ = true) (range : InRange sem.value) :
    (s.executeOps allowed [⟨num, -32768, 0⟩] pid ch).2.2 = .ok none ∧
      (s.executeOps allowed [⟨num, -32768, 0⟩] pid ch).1.values = s.values.set num.toNat (sem.value + -32768) ∧
      sem.value + -32768 < 0 := by
  obtain ⟨belowMax, belowTmp, negative⟩ := add_min_of_inRange range
  have tmp : s.values.getD num.toNat 0 = sem.value := by
    simp [Set.values, List.getD_eq_getElem?_getD, found]
  have inside : num.toNat < s.values.length := by
    simpa [Set.values] using (List.getElem?_eq_some_iff.mp found).1
  have checked := Set.executeOps_of_checks s allowed [⟨num, -32768, 0⟩] pid ch alive
    (by simpa [Set.findSem_ofNat, Set.values] using inside) (by simpa using alter)
  have decremented := Set.executeOpsLoop_decrement s pid ch s.values ⟨num, -32768, 0⟩ []
    (show (-32768 : Int16) ≠ 0 by decide) (show (-32768 : Int16) < 0 by decide) belowMax
    (by rw [tmp]; exact belowTmp)
  rw [tmp] at decremented
  have stored := Set.values_storeAll pid (s.values.set num.toNat (sem.value + -32768)) 0 s
    (by rw [List.length_set]; omega)
  rw [checked, Set.executeOpsLocked, decremented]
  exact ⟨rfl, stored, negative⟩

theorem executeOps_min_semOp_on_new_set :
    InRange (0 : Int16) ∧
      ((newSet 1).executeOps (fun _ => true) [⟨0, -32768, 0⟩] 0 0).2.2 = .ok none ∧
      ((newSet 1).executeOps (fun _ => true) [⟨0, -32768, 0⟩] 0 0).1.values =
        (newSet 1).values.set 0 (0 + -32768) ∧
      (0 : Int16) + -32768 < 0 :=
  ⟨inRange_zero,
    executeOps_min_semOp_goes_negative (newSet 1) (fun _ => true) 0 ⟨0, [], 0⟩ 0 0 rfl rfl rfl inRange_zero⟩

end Cijitter.Semaphore
