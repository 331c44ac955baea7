import Mathlib

/-! Kernel time (`pkg/sentry/kernel/time`): instants and durations in
nanoseconds as Go's `int64`, the saturating `Time.Add` and `Time.Sub`, and
the timer `Setting` with `At`, which counts the expirations of a periodic
timer up to a reading of its clock, and the two ways a setting is built
from a specification. -/

set_option autoImplicit false

namespace Cijitter.Ktime

/-- `time.Duration`. -/
abbrev Duration := Int64

/-- `Time`. -/
structure Time where
  ns : Int64
  deriving DecidableEq, Repr

def minTime : Time := ⟨Int64.minValue⟩

def maxTime : Time := ⟨Int64.maxValue⟩

def zeroTime : Time := ⟨0⟩

def minDuration : Duration := Int64.minValue

def maxDuration : Duration := Int64.maxValue

namespace Time

/-- `Time.Add`: it saturates where `t.ns + d` leaves the `int64` range. -/
def add (t : Time) (d : Duration) : Time :=
  if 0 < t.ns ∧ Int64.maxValue - t.ns < d then maxTime
  else if t.ns < 0 ∧ d < Int64.minValue - t.ns then minTime
  else ⟨t.ns + d⟩

def equal (t u : Time) : Bool := t.ns == u.ns

def before (t u : Time) : Bool := decide (t.ns < u.ns)

def after (t u : Time) : Bool := decide (u.ns < t.ns)

/-- `Time.Sub`: the difference is computed in `int64` and checked by adding
it back. -/
def sub (t u : Time) : Duration :=
  let dur := (t.ns - u.ns) * 1
  if (u.add dur).equal t then dur
  else if t.before u then minDuration
  else maxDuration

end Time

/-- `Setting`. -/
structure Setting where
  enabled : Bool
  next : Time
  period : Duration
  deriving DecidableEq, Repr

/-- `Setting.At`: the setting after the clock reads `now`, and the number of
expirations. -/
def Setting.at (s : Setting) (now : Time) : Setting × UInt64 :=
  if !s.enabled then (s, 0)
  else if s.next.after now then (s, 0)
  else if s.period = 0 then ({ s with enabled := false }, 1)
  else
    let exp := 1 + (now.sub s.next).toUInt64 / s.period.toUInt64
    ({ s with next := s.next.add (s.period.toUInt64 * exp).toInt64 }, exp)

inductive Errno where
  | EINVAL
  deriving DecidableEq, Repr

/-- `SettingFromSpecAt`: `value` is relative to `now`. -/
def settingFromSpecAt (value interval : Duration) (now : Time) : Except Errno Setting :=
  if value < 0 then .error .EINVAL
  else if value = 0 then .ok ⟨false, zeroTime, interval⟩
  else .ok ⟨true, now.add value, interval⟩

/-- `SettingFromAbsSpec`: `value` is an absolute time. -/
def settingFromAbsSpec (value : Time) (interval : Duration) : Except Errno Setting :=
  if value.before zeroTime then .error .EINVAL
  else if value = zeroTime then .ok ⟨false, zeroTime, interval⟩
  else .ok ⟨true, value, interval⟩

example : (Setting.at ⟨true, ⟨10⟩, 3⟩ ⟨17⟩) = (⟨true, ⟨19⟩, 3⟩, 3) := by decide

end Cijitter.Ktime
