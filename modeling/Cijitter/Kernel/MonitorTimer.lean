import Cijitter.Maid.TargetAddr
import Cijitter.Lib.Run

/-! The delay timer of a task (`Task.monitor_timer` in
`pkg/sentry/kernel/task_run.go`). It creates a ticker with `TAddr.WaitTime`,
defers its `Stop`, and after each tick that finds the task the worker and a
page to delay creates a new ticker with the current `WaitTime` before the
delay round. Go evaluates the receiver of `defer tick.Stop()` when the
`defer` runs, so the deferred call stops the first ticker only.

Each turn of the loop reads the shared state it depends on; the values it
reads are the turn's input, so a list of inputs covers every interleaving
with `Listen_target_addrs` and the hand-over of `Dthread.Worker`. -/

set_option autoImplicit false

namespace Cijitter.Kernel

open Maid

/-- A `time.Ticker`: its period (nanoseconds) and whether `Stop` was called. -/
structure Ticker where
  period : Int64
  stopped : Bool
  deriving DecidableEq, Repr

/-- `time.NewTicker(d)`, which panics unless `d` is positive. -/
def newTicker (d : Int64) : Option Ticker :=
  if d ≤ 0 then none else some ⟨d, false⟩

/-- `time.Duration(waitTime) * time.Microsecond`, in `int64`. -/
def microseconds (waitTime : Int) : Int64 :=
  Int64.ofInt waitTime * 1000

/-- One invocation of `monitor_timer`: the tickers it created, oldest first,
the one `tick` names, `index`, the pages it passed to `start_delay`, and
whether it returned. -/
structure MonitorTimer where
  tickers : List Ticker
  tick : Nat
  index : Int
  delays : List Nat
  returned : Bool
  deriving DecidableEq, Repr

/-- What a turn of the loop reads after `<-tick.C`: whether the task is
`Dthread.Worker`, `t.pgf`, and `TAddr`. -/
structure TimerInput where
  worker : Bool
  pgf : Bool
  tAddr : TargetAddr

/-- The ticker `defer tick.Stop()` stops: the first one. -/
def stopDeferred (tickers : List Ticker) : List Ticker :=
  tickers.modifyHead fun ticker => { ticker with stopped := true }

/-- The start of `monitor_timer`; `none` is a panic of `time.NewTicker`. -/
def monitorTimerStart (tAddr : TargetAddr) : Option MonitorTimer :=
  (newTicker (microseconds tAddr.waitTime)).map fun ticker => ⟨[ticker], 0, 0, [], false⟩

/-- One turn of the loop, after a tick. -/
def timerTurn (s : MonitorTimer) (input : TimerInput) : Option MonitorTimer :=
  if !input.worker then some s
  else
    let index := s.index + 1
    if !input.pgf then
      -- the monitor exits, and the deferred `Stop` runs
      some { s with index, returned := true, tickers := stopDeferred s.tickers }
    else if !input.tAddr.flag then some { s with index }
    else
      match newTicker (microseconds input.tAddr.waitTime) with
      | none => none
      | some ticker =>
        -- `pages` holds the one target page, and `start_delay` runs on it
        some { s with index, tickers := s.tickers ++ [ticker], tick := s.tickers.length,
                      delays := s.delays ++ [input.tAddr.addr] }

/-- A turn of the timer; a panic or a return ends the invocation. -/
def timerStep : Option MonitorTimer → TimerInput → Option MonitorTimer
  | none, _ => none
  | some s, input => if s.returned then some s else timerTurn s input

/-- The tickers of the invocation that are still running. -/
def MonitorTimer.running (s : MonitorTimer) : Nat :=
  s.tickers.countP fun ticker => !ticker.stopped

/-! ## Tickers over a run -/

/-- One ticker more than delay rounds; all of them running until the
invocation returns, and all but the first after. -/
def MonitorTimer.TickersMatch (s : MonitorTimer) : Prop :=
  s.tickers.length = s.delays.length + 1 ∧
    if s.returned then s.running = s.delays.length else ∀ ticker ∈ s.tickers, ticker.stopped = false

theorem running_stopDeferred {tickers : List Ticker}
    (allRunning : ∀ ticker ∈ tickers, ticker.stopped = false) :
    (stopDeferred tickers).countP (fun ticker => !ticker.stopped) = tickers.length - 1 := by
  cases tickers with
  | nil => rfl
  | cons first rest =>
    have restRunning : rest.countP (fun ticker => !ticker.stopped) = rest.length :=
      List.countP_eq_length.2 fun ticker mem => by
        simp [allRunning ticker (List.mem_cons_of_mem first mem)]
    simp [stopDeferred, restRunning]

theorem tickersMatch_start {tAddr : TargetAddr} {s : MonitorTimer}
    (started : monitorTimerStart tAddr = some s) : s.TickersMatch := by
  unfold monitorTimerStart newTicker at started
  split at started
  · cases started
  · cases started
    simp [MonitorTimer.TickersMatch]

theorem stopped_of_newTicker {d : Int64} {ticker : Ticker} (created : newTicker d = some ticker) :
    ticker.stopped = false := by
  unfold newTicker at created
  split at created
  · cases created
  · cases created
    rfl

theorem tickersMatch_timerTurn {s s' : MonitorTimer} (matched : s.TickersMatch)
    (running : s.returned = false) {input : TimerInput} (turned : timerTurn s input = some s') :
    s'.TickersMatch := by
  obtain ⟨length, allRunning⟩ := matched
  rw [running, if_neg (by decide)] at allRunning
  have unchanged : ∀ index, ({ s with index } : MonitorTimer).TickersMatch := fun _ =>
    ⟨length, by simpa [running] using allRunning⟩
  obtain ⟨worker, pgf, tAddr⟩ := input
  cases worker with
  | false =>
    simp only [timerTurn, Bool.not_false, ↓reduceIte, Option.some.injEq] at turned
    exact turned ▸ ⟨length, by simpa [running] using allRunning⟩
  | true =>
  cases pgf with
  | false =>
    -- the deferred `Stop` stops the first of the running tickers
    simp only [timerTurn, Bool.not_true, Bool.not_false, Bool.false_eq_true, ↓reduceIte,
      Option.some.injEq] at turned
    subst turned
    refine ⟨by simp [stopDeferred, length], ?_⟩
    rw [if_pos rfl, MonitorTimer.running, running_stopDeferred allRunning, length]
    rfl
  | true =>
  cases flag : tAddr.flag with
  | false =>
    simp only [timerTurn, flag, Bool.not_true, Bool.not_false, Bool.false_eq_true, ↓reduceIte,
      Option.some.injEq] at turned
    exact turned ▸ unchanged _
  | true =>
    -- a delay round: one new running ticker and one more page
    simp only [timerTurn, flag, Bool.not_true, Bool.false_eq_true, ↓reduceIte] at turned
    cases created : newTicker (microseconds tAddr.waitTime) with
    | none => simp only [created] at turned; cases turned
    | some ticker =>
      simp only [created, Option.some.injEq] at turned
      subst turned
      refine ⟨by simp [length], ?_⟩
      simp only [running, Bool.false_eq_true, if_false]
      intro other mem
      rcases List.mem_append.1 mem with old | new
      · exact allRunning other old
      · rw [List.mem_singleton.1 new]
        exact stopped_of_newTicker created

theorem tickersMatch_timerStep {state : Option MonitorTimer}
    (matched : ∀ s, state = some s → s.TickersMatch) (input : TimerInput) :
    ∀ s', timerStep state input = some s' → s'.TickersMatch := by
  intro s' stepped
  cases state with
  | none => cases stepped
  | some s =>
    simp only [timerStep] at stepped
    by_cases done : s.returned = true
    · rw [if_pos done, Option.some.injEq] at stepped
      exact stepped ▸ matched s rfl
    · rw [if_neg done] at stepped
      exact tickersMatch_timerTurn (matched s rfl) (by simpa using done) stepped

theorem tickersMatch_run (tAddr : TargetAddr) (inputs : List TimerInput) :
    ∀ s, StepRun.run timerStep (monitorTimerStart tAddr) inputs = some s → s.TickersMatch :=
  StepRun.run_invariant (fun state => ∀ s, state = some s → s.TickersMatch)
    (fun _ input matched => tickersMatch_timerStep matched input)
    (fun _ started => tickersMatch_start started) inputs

theorem monitorTimer_leaks_tickers (tAddr : TargetAddr) (inputs : List TimerInput)
    {s : MonitorTimer} (ran : StepRun.run timerStep (monitorTimerStart tAddr) inputs = some s) :
    s.tickers.length = s.delays.length + 1 ∧
      s.running = s.delays.length + if s.returned then 0 else 1 := by
  obtain ⟨length, running⟩ := tickersMatch_run tAddr inputs s ran
  refine ⟨length, ?_⟩
  cases returned : s.returned with
  | true => simpa [returned] using running
  | false =>
    -- before the return no ticker was stopped
    simp only [returned, Bool.false_eq_true, if_false] at running
    rw [MonitorTimer.running, List.countP_eq_length.2 fun ticker mem => by simp [running ticker mem],
      length]
    rfl

/-- A page to delay, as `Listen_target_addrs` sets `TAddr` for a count of `1`. -/
def delayedPage : TargetAddr :=
  ⟨0x7f0000, true, 899600, 100001⟩

/-- Two delay rounds, then the task stops faulting and the timer returns. -/
def twoRoundsThenExit : List TimerInput :=
  [⟨true, true, delayedPage⟩, ⟨true, true, delayedPage⟩, ⟨true, false, delayedPage⟩]

theorem two_rounds_leave_two_tickers :
    ∃ s, StepRun.run timerStep (monitorTimerStart delayedPage) twoRoundsThenExit = some s ∧
      s.returned = true ∧ s.delays.length = 2 ∧ s.running = 2 := by
  have ran : StepRun.run timerStep (monitorTimerStart delayedPage) twoRoundsThenExit =
      some ⟨[⟨100001000, true⟩, ⟨100001000, false⟩, ⟨100001000, false⟩], 2, 3,
        [0x7f0000, 0x7f0000], true⟩ := by
    decide
  exact ⟨_, ran, rfl, rfl, (monitorTimer_leaks_tickers _ _ ran).2⟩

end Cijitter.Kernel
