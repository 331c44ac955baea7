import Cijitter.Usermem.Access
import Cijitter.Lib.GoStrings

/-! The sandbox side of Cijitter's control channel (`pkg/maid/maid.go`): the
global target page `TAddr` and `Listen_target_addrs`, which parses one
message of the monitor into it. -/

set_option autoImplicit false

namespace Cijitter.Maid

open Usermem

/-- `maid.TargetAddr`: the page to delay, whether delaying is on, and the
sleep and tick times (microseconds) of a delay round. -/
structure TargetAddr where
  addr : Nat
  flag : Bool
  sleepTime : Int
  waitTime : Int
  deriving DecidableEq, Repr

/-- `TAddr` as `maid.init` leaves it. -/
def TargetAddr.init : TargetAddr :=
  ⟨0, false, 0, 1000000⟩

/-- `Hex2addr`: drop every `0x` and newline, parse as 64-bit hexadecimal, and
round down to the page. -/
def hex2addr (hexStr : List Char) : Option Nat :=
  let cleaned := GoStrings.replaceAll (GoStrings.replaceAll hexStr ['0', 'x'] []) ['\n'] []
  (GoStrings.parseUint16 cleaned).map roundDown

/-- The sleep time of a round for the quotient `1/access/270` (Go integer
division): `(0.09 - q) * 10000000 - 400` truncated to an `int`. The quotient
is zero for every non-zero `access`, where the floating-point value is
exactly `899600`. -/
def sleepTimeOf (q : Int) : Int :=
  900000 - q * 10000000 - 400

/-- `Listen_target_addrs`: a message `"<hex address> <access count>"` starts
delaying that page; address zero stops delaying. Malformed messages leave
`TAddr` unchanged; an access count of zero divides by zero and panics. -/
def listenTargetAddrs (tAddr : TargetAddr) (addrInfo : List Char) : Except String TargetAddr :=
  match GoStrings.split addrInfo ' ' with
  | [addrText, accessText] =>
    match hex2addr addrText with
    | none => .ok tAddr
    | some addr =>
      let access := (GoStrings.atoi accessText).getD 1
      if addr = 0 then .ok { tAddr with addr := 0, flag := false }
      else if access = 0 then .error "runtime error: integer divide by zero"
      else
        .ok { addr, flag := true, sleepTime := sleepTimeOf ((1 : Int).tdiv access |>.tdiv 270),
              waitTime := (100000 : Int).tdiv access + 1 }
  | _ => .ok tAddr

/-- What `Task.monitor_timer` needs of `TAddr`: `time.NewTicker` panics
unless its period is positive, and `start_delay` sleeps `SleepTime`. -/
def TargetAddr.TimesValid (tAddr : TargetAddr) : Prop :=
  1 ≤ tAddr.waitTime ∧ 0 ≤ tAddr.sleepTime

instance (tAddr : TargetAddr) : Decidable tAddr.TimesValid :=
  inferInstanceAs (Decidable (_ ∧ _))

theorem TargetAddr.timesValid_init : TargetAddr.init.TimesValid := by
  decide

theorem sleepTimeOf_count (access : Int) :
    sleepTimeOf (((1 : Int).tdiv access).tdiv 270) = 899600 := by
  have small : ((1 : Int).tdiv access).natAbs ≤ 1 := by
    rw [Int.natAbs_tdiv]
    exact Nat.div_le_self _ _
  have zero : (((1 : Int).tdiv access).tdiv 270).natAbs = 0 := by
    rw [Int.natAbs_tdiv]
    exact Nat.div_eq_of_lt (by omega)
  rw [Int.natAbs_eq_zero.1 zero, sleepTimeOf]
  decide

theorem waitTime_pos_iff (access : Int) :
    1 ≤ (100000 : Int).tdiv access + 1 ↔ 0 ≤ access ∨ access < -100000 := by
  by_cases nonneg : 0 ≤ access
  · have : 0 ≤ (100000 : Int).tdiv access := Int.tdiv_nonneg (by decide) nonneg
    omega
  · obtain ⟨b, rfl⟩ : ∃ b, access = -b := ⟨-access, by omega⟩
    rw [Int.tdiv_neg, Int.tdiv_eq_ediv_of_nonneg (by decide)]
    have pos : 0 < b := by omega
    constructor
    · intro le
      by_contra small
      have : 1 ≤ (100000 : Int) / b := (Int.le_ediv_iff_mul_le pos).2 (by omega)
      omega
    · intro below
      have : (100000 : Int) / b = 0 := Int.ediv_eq_zero_of_lt (by decide) (by omega)
      omega

theorem listenTargetAddrs_timesValid {tAddr t : TargetAddr} (valid : tAddr.TimesValid)
    {addrInfo : List Char} (ok : listenTargetAddrs tAddr addrInfo = .ok t)
    (counts : ∀ addrText accessText access, GoStrings.split addrInfo ' ' = [addrText, accessText] →
      GoStrings.atoi accessText = some access → 0 < access ∨ access < -100000) :
    t.TimesValid := by
  unfold listenTargetAddrs at ok
  split at ok
  case h_2 => cases ok; exact valid
  rename_i addrText accessText pieces
  cases parsed : hex2addr addrText with
  | none => simp only [parsed, Except.ok.injEq] at ok; cases ok; exact valid
  | some addr =>
    simp only [parsed] at ok
    split_ifs at ok with stop zero
    · cases ok; exact valid
    · cases ok
      -- a count that does not parse defaults to `1`
      have count : 0 < (GoStrings.atoi accessText).getD 1 ∨
          (GoStrings.atoi accessText).getD 1 < -100000 := by
        cases atoi : GoStrings.atoi accessText with
        | none => exact .inl (by decide)
        | some access => exact counts addrText accessText access pieces atoi
      refine ⟨(waitTime_pos_iff _).2 (by omega), ?_⟩
      show 0 ≤ sleepTimeOf _
      rw [sleepTimeOf_count]
      decide

theorem listenTargetAddrs_breaks_times (tAddr : TargetAddr) :
    listenTargetAddrs tAddr "0x7f0000 0".toList = .error "runtime error: integer divide by zero" ∧
      listenTargetAddrs tAddr "0x7f0000 -1".toList = .ok ⟨0x7f0000, true, 899600, -99999⟩ ∧
      listenTargetAddrs tAddr "0x7f0000 x".toList = .ok ⟨0x7f0000, true, 899600, 100001⟩ := by
  have address : hex2addr "0x7f0000".toList = some 0x7f0000 := by decide
  have zero : GoStrings.split "0x7f0000 0".toList ' ' = ["0x7f0000".toList, "0".toList] := by
    decide
  have negative : GoStrings.split "0x7f0000 -1".toList ' ' = ["0x7f0000".toList, "-1".toList] := by
    decide
  have malformed : GoStrings.split "0x7f0000 x".toList ' ' = ["0x7f0000".toList, "x".toList] := by
    decide
  have zeroCount : GoStrings.atoi "0".toList = some 0 := by decide
  have negativeCount : GoStrings.atoi "-1".toList = some (-1) := by decide
  -- `strconv.Atoi` fails, and the count defaults to `1`
  have noCount : GoStrings.atoi "x".toList = none := by decide
  refine ⟨?_, ?_, ?_⟩
  · rw [listenTargetAddrs, zero]
    dsimp only
    rw [address, zeroCount]
    rfl
  · rw [listenTargetAddrs, negative]
    dsimp only
    rw [address, negativeCount]
    rfl
  · rw [listenTargetAddrs, malformed]
    dsimp only
    rw [address, noCount]
    rfl

end Cijitter.Maid
