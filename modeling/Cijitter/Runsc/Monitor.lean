import Cijitter.Lib.GoStrings
import Cijitter.Lib.Run
import Mathlib

/-! The monitor loop of `runsc` (`runsc/main.go`): each round samples the
target page and its access count (`get_target_addr`), chooses the interval to
sleep by `delayStates`, and either lets the round pass (a strip) or sends the
page to the sandbox, sleeps for the delay window and sends the stop command.

The two floating-point computations of a round are read in exact
arithmetic: `int(float64(d) * 0.67)` is `⌊67d/100⌋` for every positive `d`
below `2^46`, which covers the difference of two 32-bit counts, and
`judge_delay`'s comparisons of `count` and `stddev/mean` with `0.1`, `0.2` and
`0.35` are made between the exact quotients, with a zero divisor comparing as
the infinity or NaN it gives. -/

set_option autoImplicit false

namespace Cijitter.Runsc

/-- `duration` and `interval`: the delay window and the base sampling
interval, in milliseconds. -/
def duration : Int := 8050

def interval : Int := 500

/-- What a round does that others see: a `time.Sleep` of some milliseconds
or a message on `msgChan`. -/
inductive MonitorEffect where
  | sleep (ms : Int)
  | send (msg : List Char)
  deriving DecidableEq, Repr

/-- The variables `monitor` keeps across rounds. -/
structure Monitor where
  lastAddrAcc : Fin 3 → Int
  lastDelay : Fin 3 → Bool
  index : Nat
  delayInterval : Int

/-- The state before the first round. -/
def Monitor.init : Monitor :=
  ⟨fun _ => 500, fun _ => true, 0, interval⟩

/-- `index % 3`. -/
def slot (index : Nat) : Fin 3 :=
  ⟨index % 3, Nat.mod_lt _ (by decide)⟩

/-- `delayStates`: the interval of this round and whether the previous round
delayed. -/
def delayStates (lastDelay : Fin 3 → Bool) (index : Nat) (delayInterval : Int) : Int × Bool :=
  if index = 0 then (interval, true)
  else
    let status := lastDelay (slot (index - 1))
    -- every turn of the loop tests `last_delay[index%3]`
    if (List.range 3).any fun _ => lastDelay (slot index) then (interval, status)
    else
      let delayInterval := delayInterval * 10
      (if delayInterval > 30000 then 30000 else delayInterval, status)

/-- `int(float64(diff) * 0.67)`. -/
def makeUp (diff : Int) : Int :=
  (diff * 67).tdiv 100

/-- `judge_delay(access, index)`. With `sum` the sum of the three counts, the
mean is `sum / 3` and the sum of squared deviations `spread / 9`, so
`stddev / mean ≤ a / b` is `b² · spread ≤ a² · sum²` for a positive `sum`. -/
def judgeDelay (access : Fin 3 → Int) (index : Fin 3) : Bool :=
  let sum := access 0 + access 1 + access 2
  let spread := (3 * access 0 - sum) ^ 2 + (3 * access 1 - sum) ^ 2 + (3 * access 2 - sum) ^ 2
  let prev := access (index + 2)
  let diff := if access index > prev then access index - prev else prev - access index
  -- `diff / prev ≤ a / b`: a negative `prev` gives a quotient at most zero
  let countLe (a b : Int) : Bool := if 0 < prev then b * diff ≤ a * prev else prev < 0
  let ratioLe (a b : Int) : Bool := if 0 < sum then b ^ 2 * spread ≤ a ^ 2 * sum ^ 2 else sum < 0
  if countLe 1 10 || ratioLe 1 5 || (ratioLe 7 20 && countLe 7 20) then !(sum < 300)
  else false

/-- `stopSig`, the message that ends a delay window. -/
def stopSig : List Char :=
  "0x00000 0".toList

/-- A result of `get_target_addr`: the address text and its access count,
or `none` when it fails. -/
abbrev Sample := Option (List Char × Int)

/-- One turn of `monitor`'s loop. -/
def monitorRound (s : Monitor) : Sample → Monitor × List MonitorEffect
  | none => (s, [.sleep s.delayInterval])
  | some (addr, accNum) =>
    let addrAcc := addr ++ ' ' :: GoStrings.itoa accNum
    let inx := slot s.index
    let (delayInterval, dstats) := delayStates s.lastDelay s.index s.delayInterval
    let index := s.index + 1
    let oldAcc := s.lastAddrAcc inx
    let lastAcc := s.lastAddrAcc (inx + 2)
    let accCmp := if dstats && decide (accNum < lastAcc) then accNum + makeUp (lastAcc - accNum)
      else accNum
    let lastAddrAcc := Function.update s.lastAddrAcc inx accCmp
    -- the end of a round that delays: send the page, wait, send the stop command
    let delayed (lastAddrAcc : Fin 3 → Int) : Monitor × List MonitorEffect :=
      (⟨lastAddrAcc, Function.update s.lastDelay inx true, index, interval⟩,
        (if GoStrings.contains addr ['0', 'x'] then [.send addrAcc] else []) ++
          [.sleep duration, .send stopSig, .sleep interval])
    if accNum > 3000 then delayed (Function.update lastAddrAcc inx oldAcc)
    else if decide (accCmp ≤ 80) || !judgeDelay lastAddrAcc inx then
      (⟨if dstats then Function.update lastAddrAcc inx oldAcc else lastAddrAcc,
          Function.update s.lastDelay inx false, index, delayInterval⟩,
        [.sleep delayInterval])
    else delayed lastAddrAcc

def monitorStep (s : Monitor) (sample : Sample) : Monitor :=
  (monitorRound s sample).1

/-- The effects of round `k` of a run over `samples`. -/
def roundEffects (samples : List Sample) (k : Nat) : List MonitorEffect :=
  match samples[k]? with
  | some sample => (monitorRound (StepRun.run monitorStep Monitor.init (samples.take k)) sample).2
  | none => []

/-! ## What one round can do -/

theorem any_range_const (b : Bool) : ((List.range 3).any fun _ => b) = b := by
  cases b <;> rfl

theorem delayStates_interval (lastDelay : Fin 3 → Bool) (index : Nat) (delayInterval : Int) :
    (delayStates lastDelay index delayInterval).1 =
      if index = 0 ∨ lastDelay (slot index) = true then interval
      else if delayInterval * 10 > 30000 then 30000 else delayInterval * 10 := by
  unfold delayStates
  by_cases first : index = 0
  · simp [first]
  · cases slotDelayed : lastDelay (slot index) <;> simp [first, any_range_const]

theorem monitorRound_cases (s : Monitor) (addr : List Char) (accNum : Int) :
    (monitorRound s (some (addr, accNum))).1.index = s.index + 1 ∧
      (((monitorRound s (some (addr, accNum))).1.lastDelay =
          Function.update s.lastDelay (slot s.index) true ∧
        (monitorRound s (some (addr, accNum))).1.delayInterval = interval ∧
        (monitorRound s (some (addr, accNum))).2 =
          (if GoStrings.contains addr ['0', 'x'] then [.send (addr ++ ' ' :: GoStrings.itoa accNum)]
            else []) ++ [.sleep duration, .send stopSig, .sleep interval]) ∨
      ((monitorRound s (some (addr, accNum))).1.lastDelay =
          Function.update s.lastDelay (slot s.index) false ∧
        (monitorRound s (some (addr, accNum))).1.delayInterval =
          (delayStates s.lastDelay s.index s.delayInterval).1 ∧
        (monitorRound s (some (addr, accNum))).2 =
          [.sleep (delayStates s.lastDelay s.index s.delayInterval).1])) := by
  rcases states : delayStates s.lastDelay s.index s.delayInterval with ⟨delayInterval, dstats⟩
  simp only [monitorRound, states]
  split_ifs <;> simp

/-! ## The interval stays between `interval` and `30000` -/

def Monitor.Bounded (s : Monitor) : Prop :=
  interval ≤ s.delayInterval ∧ s.delayInterval ≤ 30000

instance (s : Monitor) : Decidable s.Bounded :=
  inferInstanceAs (Decidable (_ ∧ _))

theorem delayStates_bounded {delayInterval : Int}
    (bounded : interval ≤ delayInterval ∧ delayInterval ≤ 30000) (lastDelay : Fin 3 → Bool)
    (index : Nat) :
    interval ≤ (delayStates lastDelay index delayInterval).1 ∧
      (delayStates lastDelay index delayInterval).1 ≤ 30000 := by
  rw [delayStates_interval]
  unfold interval at *
  split_ifs <;> omega

theorem monitorRound_bounded {s : Monitor} (bounded : s.Bounded) (sample : Sample) :
    (monitorRound s sample).1.Bounded := by
  cases sample with
  | none => exact bounded
  | some sample =>
    obtain ⟨addr, accNum⟩ := sample
    obtain ⟨-, ⟨-, delayed, -⟩ | ⟨-, strip, -⟩⟩ := monitorRound_cases s addr accNum
    · rw [Monitor.Bounded, delayed]
      decide
    · rw [Monitor.Bounded, strip]
      exact delayStates_bounded bounded _ _

theorem monitorRound_sleeps {s : Monitor} (bounded : s.Bounded) (sample : Sample) {ms : Int}
    (slept : .sleep ms ∈ (monitorRound s sample).2) :
    ms = duration ∨ interval ≤ ms ∧ ms ≤ 30000 := by
  cases sample with
  | none =>
    simp only [monitorRound, List.mem_singleton, MonitorEffect.sleep.injEq] at slept
    exact .inr (slept ▸ bounded)
  | some sample =>
    obtain ⟨addr, accNum⟩ := sample
    obtain ⟨-, ⟨-, -, effects⟩ | ⟨-, -, effects⟩⟩ := monitorRound_cases s addr accNum
    · rw [effects] at slept
      have sleeps : ms = duration ∨ ms = interval := by
        split_ifs at slept <;> simpa using slept
      rcases sleeps with window | base
      · exact .inl window
      · subst base
        exact .inr ⟨le_refl _, by decide⟩
    · rw [effects, List.mem_singleton, MonitorEffect.sleep.injEq] at slept
      exact .inr (slept ▸ delayStates_bounded bounded _ _)

theorem bounded_run (samples : List Sample) :
    (StepRun.run monitorStep Monitor.init samples).Bounded :=
  StepRun.run_invariant Monitor.Bounded (fun _ sample bounded => monitorRound_bounded bounded sample)
    (by decide) samples

theorem roundEffects_sleeps (samples : List Sample) (k : Nat) {ms : Int}
    (slept : .sleep ms ∈ roundEffects samples k) :
    ms = duration ∨ interval ≤ ms ∧ ms ≤ 30000 := by
  unfold roundEffects at slept
  split at slept
  · exact monitorRound_sleeps (bounded_run _) _ slept
  · exact absurd slept List.not_mem_nil

/-! ## Which rounds back off -/

/-- The round delays: it sends the stop command. -/
def Delays (s : Monitor) (sample : Sample) : Prop :=
  MonitorEffect.send stopSig ∈ (monitorRound s sample).2

theorem lastDelay_monitorRound_slot (s : Monitor) (addr : List Char) (accNum : Int) :
    (monitorRound s (some (addr, accNum))).1.lastDelay (slot s.index) ↔
      Delays s (some (addr, accNum)) := by
  unfold Delays
  obtain ⟨-, ⟨lastDelay, -, effects⟩ | ⟨lastDelay, -, effects⟩⟩ := monitorRound_cases s addr accNum
  · simp [lastDelay, effects]
  · simp [lastDelay, effects]

theorem lastDelay_monitorStep_of_ne (s : Monitor) (sample : Sample) {j : Fin 3}
    (other : j ≠ slot s.index) : (monitorStep s sample).lastDelay j = s.lastDelay j := by
  cases sample with
  | none => rfl
  | some sample =>
    obtain ⟨addr, accNum⟩ := sample
    obtain ⟨-, ⟨lastDelay, -⟩ | ⟨lastDelay, -⟩⟩ := monitorRound_cases s addr accNum <;>
      rw [monitorStep, lastDelay, Function.update_of_ne other]

theorem index_monitorStep (s : Monitor) {sample : Sample} (sampled : sample.isSome) :
    (monitorStep s sample).index = s.index + 1 := by
  obtain ⟨⟨addr, accNum⟩, rfl⟩ := Option.isSome_iff_exists.1 sampled
  exact (monitorRound_cases s addr accNum).1

theorem index_run (s : Monitor) {samples : List Sample}
    (sampled : ∀ sample ∈ samples, sample.isSome) :
    (StepRun.run monitorStep s samples).index = s.index + samples.length := by
  induction samples generalizing s with
  | nil => rfl
  | cons sample samples ih =>
    rw [StepRun.run_cons, ih _ fun other mem => sampled other (by simp [mem]),
      index_monitorStep s (sampled sample (by simp)), List.length_cons]
    omega

theorem slot_add_three (n : Nat) : slot (n + 3) = slot n := by
  simp [slot]

theorem slot_ne_add {n i : Nat} (pos : 0 < i) (small : i < 3) : slot n ≠ slot (n + i) := by
  simp only [slot, ne_eq, Fin.mk.injEq]
  omega

theorem lastDelay_monitorStep_slot {s : Monitor} {sample : Sample} (sampled : sample.isSome) :
    (monitorStep s sample).lastDelay (slot s.index) ↔ Delays s sample := by
  obtain ⟨⟨addr, accNum⟩, rfl⟩ := Option.isSome_iff_exists.1 sampled
  exact lastDelay_monitorRound_slot s addr accNum

theorem backs_off_iff_stripped {samples : List Sample}
    (sampled : ∀ sample ∈ samples, sample.isSome) (n : Nat) (inRange : n + 3 < samples.length) :
    interval < (delayStates (StepRun.run monitorStep Monitor.init (samples.take (n + 3))).lastDelay
      (StepRun.run monitorStep Monitor.init (samples.take (n + 3))).index
      (StepRun.run monitorStep Monitor.init (samples.take (n + 3))).delayInterval).1 ↔
      ¬ Delays (StepRun.run monitorStep Monitor.init (samples.take n)) samples[n] := by
  -- the three rounds from round `n`, one at a time
  set before := StepRun.run monitorStep Monitor.init (samples.take n)
  have third : StepRun.run monitorStep Monitor.init (samples.take (n + 3)) =
      monitorStep (monitorStep (monitorStep before samples[n]) samples[n + 1]) samples[n + 2] := by
    rw [List.take_succ_eq_append_getElem (by omega), List.take_succ_eq_append_getElem (by omega),
      List.take_succ_eq_append_getElem (by omega)]
    simp only [StepRun.run_concat, before]
  have index : before.index = n := by
    rw [index_run _ fun sample mem => sampled sample (List.mem_of_mem_take mem)]
    simp only [Monitor.init, List.length_take]
    omega
  have isSome : ∀ i (inside : i < samples.length), samples[i].isSome :=
    fun i inside => sampled _ (List.getElem_mem inside)
  -- rounds `n + 1` and `n + 2` write other slots
  set first := monitorStep before samples[n]
  set second := monitorStep first samples[n + 1]
  have firstIndex : first.index = n + 1 := by
    rw [index_monitorStep _ (isSome n (by omega)), index]
  have secondIndex : second.index = n + 2 := by
    rw [index_monitorStep _ (isSome (n + 1) (by omega)), firstIndex]
  have kept : (monitorStep second samples[n + 2]).lastDelay (slot n) =
      first.lastDelay (slot n) := by
    rw [lastDelay_monitorStep_of_ne _ _ (secondIndex ▸ slot_ne_add (by decide) (by decide)),
      lastDelay_monitorStep_of_ne _ _ (firstIndex ▸ slot_ne_add (by decide) (by decide))]
  have filled : first.lastDelay (slot n) ↔ Delays before samples[n] := by
    have slotFilled := lastDelay_monitorStep_slot (s := before) (isSome n (by omega))
    rwa [index] at slotFilled
  have bounded := bounded_run (samples.take (n + 3))
  rw [third] at bounded ⊢
  rw [delayStates_interval, index_monitorStep _ (isSome (n + 2) (by omega)), secondIndex,
    slot_add_three, kept, ← filled]
  unfold Monitor.Bounded interval at bounded
  unfold interval
  cases first.lastDelay (slot n) with
  | false =>
    -- the interval grows from at least `interval`
    have later : n + 2 + 1 ≠ 0 := by omega
    simp only [later, Bool.false_eq_true, or_self, if_false, not_false_eq_true, iff_true]
    split_ifs <;> omega
  | true => simp

/-- A strip, two rounds that delay, and a strip. The counts decide far from
every threshold of `judge_delay`: `2000` against two `500`s strips, and a
count above `3000` always delays. -/
def stripDelayDelayStrip : List Sample :=
  [some ("0x7f0000".toList, 2000), some ("0x7f0000".toList, 5000),
    some ("0x7f0000".toList, 5000), some ("0x7f0000".toList, 2000)]

theorem monitor_backs_off_after_delays :
    MonitorEffect.send stopSig ∈ roundEffects stripDelayDelayStrip 1 ∧
      MonitorEffect.send stopSig ∈ roundEffects stripDelayDelayStrip 2 ∧
      roundEffects stripDelayDelayStrip 3 = [.sleep 5000] := by
  decide

end Cijitter.Runsc
