import Cijitter.Ktime.Time

/-! `Time.Add` and `Time.Sub` are addition and subtraction clamped to the
`int64` range, and `Setting.At` counts expirations exactly while the elapsed
time and the advance of `Next` fit in an `int64`. Beyond that the advance is
converted to a `time.Duration` that wraps, and `Next` moves backwards. -/

set_option autoImplicit false

namespace Cijitter.Ktime

/-- The `int64` range. -/
def clamp (x : Int) : Int := max (-2 ^ 63) (min (2 ^ 63 - 1) x)

theorem bmod_of_range {x : Int} (low : -2 ^ 63 ≤ x) (high : x < 2 ^ 63) : x.bmod (2 ^ 64) = x :=
  Int.bmod_eq_of_le_mul_two (by omega) (by omega)

theorem toInt_toInt64_of_lt {u : UInt64} (small : u.toNat < 2 ^ 63) : u.toInt64.toInt = u.toNat := by
  show u.toBitVec.toInt = _
  rw [BitVec.toInt_eq_toNat_cond, if_pos (by simp; omega)]
  rfl

theorem toNat_toUInt64_of_nonneg {x : Int64} (nonneg : 0 ≤ x.toInt) : x.toUInt64.toNat = x.toInt.toNat := by
  rw [Int64.toNat_toUInt64_of_le (Int64.le_iff_toInt_le.mpr (by simpa using nonneg))]
  rfl

theorem Time.add_toInt (t : Time) (d : Duration) : (t.add d).ns.toInt = clamp (t.ns.toInt + d.toInt) := by
  have t_low := t.ns.le_toInt
  have t_high := t.ns.toInt_lt
  have d_low := d.le_toInt
  have d_high := d.toInt_lt
  unfold Time.add clamp
  split
  · next above =>
    rw [Int64.lt_iff_toInt_lt, Int64.lt_iff_toInt_lt, Int64.toInt_sub, Int64.toInt_maxValue, Int64.toInt_zero] at above
    rw [bmod_of_range (by omega) (by omega)] at above
    rw [maxTime, Int64.toInt_maxValue]
    omega
  · split
    · next below =>
      rw [Int64.lt_iff_toInt_lt, Int64.lt_iff_toInt_lt, Int64.toInt_sub, Int64.toInt_minValue,
        Int64.toInt_zero] at below
      rw [bmod_of_range (by omega) (by omega)] at below
      rw [minTime, Int64.toInt_minValue]
      omega
    · next not_above not_below =>
      rw [Int64.lt_iff_toInt_lt, Int64.lt_iff_toInt_lt, Int64.toInt_sub, Int64.toInt_zero] at not_above not_below
      simp only [Int64.toInt_maxValue, Int64.toInt_minValue] at not_above not_below
      -- the sum is in range in every case the two checks let through
      have in_range : -2 ^ 63 ≤ t.ns.toInt + d.toInt ∧ t.ns.toInt + d.toInt < 2 ^ 63 := by
        by_cases positive : 0 < t.ns.toInt
        · rw [bmod_of_range (by omega) (by omega)] at not_above
          omega
        · by_cases negative : t.ns.toInt < 0
          · rw [bmod_of_range (by omega) (by omega)] at not_below
            omega
          · omega
      rw [Int64.toInt_add, bmod_of_range in_range.1 in_range.2]
      omega

theorem Time.sub_toInt (t u : Time) : (t.sub u).toInt = clamp (t.ns.toInt - u.ns.toInt) := by
  have t_low := t.ns.le_toInt
  have t_high := t.ns.toInt_lt
  have u_low := u.ns.le_toInt
  have u_high := u.ns.toInt_lt
  have dur_eq : ((t.ns - u.ns) * 1).toInt = (t.ns.toInt - u.ns.toInt).bmod (2 ^ 64) := by
    rw [Int64.mul_one, Int64.toInt_sub]
  have added := Time.add_toInt u ((t.ns - u.ns) * 1)
  unfold Time.sub
  dsimp only
  by_cases in_range : -2 ^ 63 ≤ t.ns.toInt - u.ns.toInt ∧ t.ns.toInt - u.ns.toInt < 2 ^ 63
  · -- the difference is exact, and adding it back gives `t`
    rw [bmod_of_range in_range.1 in_range.2] at dur_eq
    have back : (u.add ((t.ns - u.ns) * 1)).equal t = true := by
      rw [Time.equal, beq_iff_eq, ← Int64.toInt_inj, added, dur_eq]
      unfold clamp
      omega
    rw [if_pos back, dur_eq]
    unfold clamp
    omega
  · by_cases high : 2 ^ 63 ≤ t.ns.toInt - u.ns.toInt
    · -- the difference wraps, and adding it back saturates at `MinTime`
      have dur_wrap : ((t.ns - u.ns) * 1).toInt = t.ns.toInt - u.ns.toInt - 2 ^ 64 := by
        rw [dur_eq, ← Int.sub_bmod_right, Int.natCast_pow, bmod_of_range (by omega) (by omega)]
        rfl
      have not_back : (u.add ((t.ns - u.ns) * 1)).equal t = false := by
        rw [Time.equal, beq_eq_false_iff_ne, ne_eq, ← Int64.toInt_inj, added, dur_wrap]
        unfold clamp
        omega
      have not_before : t.before u = false := by
        rw [Time.before, decide_eq_false_iff_not, Int64.lt_iff_toInt_lt]
        omega
      rw [if_neg (by rw [not_back]; decide), if_neg (by rw [not_before]; decide), maxDuration,
        Int64.toInt_maxValue]
      unfold clamp
      omega
    · -- the difference wraps, and adding it back saturates at `MaxTime`
      have dur_wrap : ((t.ns - u.ns) * 1).toInt = t.ns.toInt - u.ns.toInt + 2 ^ 64 := by
        rw [dur_eq, ← Int.add_bmod_right, Int.natCast_pow, bmod_of_range (by omega) (by omega)]
        rfl
      have not_back : (u.add ((t.ns - u.ns) * 1)).equal t = false := by
        rw [Time.equal, beq_eq_false_iff_ne, ne_eq, ← Int64.toInt_inj, added, dur_wrap]
        unfold clamp
        omega
      have before : t.before u = true := by
        rw [Time.before, decide_eq_true_iff, Int64.lt_iff_toInt_lt]
        omega
      rw [if_neg (by rw [not_back]; decide), if_pos before, minDuration, Int64.toInt_minValue]
      unfold clamp
      omega

/-! ## Setting.At -/

section At

variable (s : Setting) (now : Time)

/-- The number of expirations up to `now`: the `k ≥ 0` with
`Next + k * Period ≤ now`. -/
def expirations : Int := (now.ns.toInt - s.next.ns.toInt) / s.period.toInt + 1

theorem Setting.at_of_fits (enabled : s.enabled = true) (period_pos : 0 < s.period.toInt)
    (due : s.next.ns.toInt ≤ now.ns.toInt) (advance_fits : expirations s now * s.period.toInt < 2 ^ 63) :
    ((s.at now).2.toNat : Int) = expirations s now ∧ (s.at now).1.enabled = true ∧
      (s.at now).1.period = s.period ∧
      (s.at now).1.next.ns.toInt = min (2 ^ 63 - 1) (s.next.ns.toInt + expirations s now * s.period.toInt) := by
  unfold expirations at advance_fits ⊢
  have beyond := Int.lt_ediv_add_one_mul_self (now.ns.toInt - s.next.ns.toInt) period_pos
  have next_low := s.next.ns.le_toInt
  -- the elapsed time and the period as natural numbers
  obtain ⟨elapsed, elapsed_eq⟩ := Int.eq_ofNat_of_zero_le (by omega : 0 ≤ now.ns.toInt - s.next.ns.toInt)
  obtain ⟨period, period_eq⟩ := Int.eq_ofNat_of_zero_le (Int.le_of_lt period_pos)
  rw [elapsed_eq, period_eq, ← Int.natCast_ediv] at advance_fits beyond ⊢
  have sub_eq : (now.sub s.next).toUInt64.toNat = elapsed := by
    have sub_int : (now.sub s.next).toInt = elapsed := by
      rw [Time.sub_toInt, elapsed_eq]
      unfold clamp
      omega
    rw [toNat_toUInt64_of_nonneg (by omega), sub_int, Int.toNat_natCast]
  have period_nat : s.period.toUInt64.toNat = period := by
    rw [toNat_toUInt64_of_nonneg (Int.le_of_lt period_pos), period_eq, Int.toNat_natCast]
  have quotient_le : elapsed / period ≤ elapsed := Nat.div_le_self _ _
  have exp_nat : (1 + (now.sub s.next).toUInt64 / s.period.toUInt64).toNat = elapsed / period + 1 := by
    rw [UInt64.toNat_add, UInt64.toNat_div, sub_eq, period_nat, UInt64.toNat_one, Nat.mod_eq_of_lt (by omega)]
    omega
  have product_nat : (s.period.toUInt64 * (1 + (now.sub s.next).toUInt64 / s.period.toUInt64)).toNat =
      period * (elapsed / period + 1) := by
    have fits : (elapsed / period + 1) * period < 2 ^ 63 := by exact_mod_cast advance_fits
    rw [UInt64.toNat_mul, period_nat, exp_nat, Nat.mod_eq_of_lt (by rw [Nat.mul_comm]; omega)]
  have advance_int : (s.period.toUInt64 * (1 + (now.sub s.next).toUInt64 / s.period.toUInt64)).toInt64.toInt =
      ((elapsed / period : Nat) + 1) * period := by
    rw [toInt_toInt64_of_lt (by rw [product_nat, Nat.mul_comm]; exact_mod_cast advance_fits), product_nat,
      Nat.mul_comm, Int.natCast_mul, Int.natCast_add]
    rfl
  have not_after : s.next.after now = false := by
    rw [Time.after, decide_eq_false_iff_not, Int64.lt_iff_toInt_lt]
    omega
  have period_ne : s.period ≠ 0 := fun zero => by
    rw [zero, Int64.toInt_zero] at period_pos
    exact Int.lt_irrefl 0 period_pos
  simp only [Setting.at, enabled, not_after, period_ne, Bool.not_true, Bool.false_eq_true, if_false]
  refine ⟨by rw [exp_nat, Int.natCast_add]; rfl, trivial, trivial, ?_⟩
  rw [Time.add_toInt, advance_int]
  unfold clamp
  omega

theorem Setting.at_of_after (after : s.next.after now = true) : s.at now = (s, 0) := by
  unfold Setting.at
  cases s.enabled <;> simp [after]

theorem Setting.at_next_after (enabled : s.enabled = true) (period_pos : 0 < s.period.toInt)
    (due : s.next.ns.toInt ≤ now.ns.toInt) (advance_fits : expirations s now * s.period.toInt < 2 ^ 63)
    (below_max : s.next.ns.toInt + expirations s now * s.period.toInt < 2 ^ 63 ∨ now.ns.toInt < 2 ^ 63 - 1) :
    (s.at now).1.next.after now = true ∧ ((s.at now).1.at now).2 = 0 := by
  obtain ⟨-, -, -, next_eq⟩ := Setting.at_of_fits s now enabled period_pos due advance_fits
  have beyond := Int.lt_ediv_add_one_mul_self (now.ns.toInt - s.next.ns.toInt) period_pos
  have after : (s.at now).1.next.after now = true := by
    rw [Time.after, decide_eq_true_iff, Int64.lt_iff_toInt_lt, next_eq]
    unfold expirations at below_max ⊢
    omega
  exact ⟨after, by rw [Setting.at_of_after _ _ after]⟩

/-- `SettingFromAbsSpec(1 ns, 2^62 ns)` read at `MaxTime`: two expirations,
as it should, but the advance of `2^63` ns is converted to a negative
`time.Duration`, so that `Next` becomes `MinTime + 1`, before `now`, and the
same reading fires twice more. -/
theorem setting_at_wraps_next_before_now :
    settingFromAbsSpec ⟨1⟩ (2 ^ 62) = .ok ⟨true, ⟨1⟩, 2 ^ 62⟩ ∧
      expirations ⟨true, ⟨1⟩, 2 ^ 62⟩ maxTime = 2 ∧
      Setting.at ⟨true, ⟨1⟩, 2 ^ 62⟩ maxTime = (⟨true, ⟨Int64.minValue + 1⟩, 2 ^ 62⟩, 2) ∧
      Setting.at ⟨true, ⟨Int64.minValue + 1⟩, 2 ^ 62⟩ maxTime = (⟨true, minTime, 2 ^ 62⟩, 2) := by
  decide +kernel

theorem Setting.at_at_of_fits {early late : Time} (enabled : s.enabled = true) (period_pos : 0 < s.period.toInt)
    (due : s.next.ns.toInt ≤ early.ns.toInt) (ordered : early.ns.toInt ≤ late.ns.toInt)
    (advance_fits : expirations s late * s.period.toInt < 2 ^ 63)
    (below_max : s.next.ns.toInt + expirations s late * s.period.toInt < 2 ^ 63) :
    ((s.at early).2.toNat : Int) + (((s.at early).1.at late).2.toNat : Int) = expirations s late := by
  have monotone : expirations s early ≤ expirations s late := by
    unfold expirations
    have := Int.ediv_le_ediv period_pos (by omega : early.ns.toInt - s.next.ns.toInt ≤ late.ns.toInt - s.next.ns.toInt)
    omega
  have early_pos : 0 < expirations s early := by
    unfold expirations
    have := Int.ediv_nonneg (by omega : 0 ≤ early.ns.toInt - s.next.ns.toInt) (Int.le_of_lt period_pos)
    omega
  have advance_le : expirations s early * s.period.toInt ≤ expirations s late * s.period.toInt :=
    Int.mul_le_mul_of_nonneg_right monotone (Int.le_of_lt period_pos)
  obtain ⟨early_count, enabled', period_eq, next_eq⟩ :=
    Setting.at_of_fits s early enabled period_pos due (by omega)
  -- the first reading moves `Next` by its expirations, without saturating
  have next_eq' : (s.at early).1.next.ns.toInt = s.next.ns.toInt + expirations s early * s.period.toInt := by
    rw [next_eq]
    omega
  by_cases after : (s.at early).1.next.after late = true
  · -- the second reading finds nothing: both count up to the same period
    rw [Setting.at_of_after _ _ after, early_count]
    rw [Time.after, decide_eq_true_iff, Int64.lt_iff_toInt_lt, next_eq'] at after
    have below : (late.ns.toInt - s.next.ns.toInt) / s.period.toInt < expirations s early :=
      (Int.ediv_lt_iff_lt_mul period_pos).mpr (by omega)
    unfold expirations at below monotone ⊢
    simp only [UInt64.toNat_zero, Int.natCast_zero, Int.add_zero]
    omega
  · -- the second reading counts the periods after the first one's
    have due' : (s.at early).1.next.ns.toInt ≤ late.ns.toInt := by
      rw [Time.after, decide_eq_true_iff, Int64.lt_iff_toInt_lt] at after
      omega
    have rest_eq : expirations (s.at early).1 late = expirations s late - expirations s early := by
      unfold expirations
      rw [next_eq', period_eq]
      have shifted := Int.add_mul_ediv_right (late.ns.toInt - s.next.ns.toInt) (-expirations s early)
        (Int.ne_of_gt period_pos)
      rw [Int.neg_mul] at shifted
      unfold expirations at shifted ⊢
      rw [show late.ns.toInt - (s.next.ns.toInt + ((early.ns.toInt - s.next.ns.toInt) / s.period.toInt + 1) *
          s.period.toInt) = late.ns.toInt - s.next.ns.toInt + -(((early.ns.toInt - s.next.ns.toInt) /
          s.period.toInt + 1) * s.period.toInt) by omega, shifted]
      omega
    have rest_fits : expirations (s.at early).1 late * (s.at early).1.period.toInt < 2 ^ 63 := by
      rw [rest_eq, period_eq, Int.sub_mul]
      have := Int.mul_nonneg (Int.le_of_lt early_pos) (Int.le_of_lt period_pos)
      omega
    obtain ⟨late_count, -, -, -⟩ :=
      Setting.at_of_fits (s.at early).1 late enabled' (period_eq ▸ period_pos) due' rest_fits
    rw [early_count, late_count, rest_eq]
    omega

end At

end Cijitter.Ktime
