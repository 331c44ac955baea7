import Cijitter.Pgalloc.FindAvailableRange
import Cijitter.Lib.Align

/-! What `findAvailableRange` returns, on a sorted usage set whose segments
end within a file of non-negative size. The backward scan returns the
highest aligned start of a range that fits in a gap and in the file, or
nothing if no gap has one. The growth loop returns an aligned range starting
after the last segment and ending within a doubled file size below
`2 ^ 63`, and gives up only when no such range ends at or below `2 ^ 62`. -/

set_option autoImplicit false

namespace Cijitter.Pgalloc

open SegmentList

variable {V : Type}

/-- An aligned range of `length` at `s` fits in gap `j` of the usage set and
within the file. -/
def FitsIn (usage : List (Seg V)) (fileSize length alignment j s : Nat) : Prop :=
  alignment ∣ s ∧ gapStart usageMinKey usage j ≤ s ∧ s + length ≤ gapEnd usageMaxKey usage j ∧ s + length ≤ fileSize

section Words

variable {fileSize : Int64}

theorem toNatClampNeg_lt (fileSize : Int64) : fileSize.toNatClampNeg < 2 ^ 63 := by
  have := Int64.toInt_lt fileSize
  rw [← Int64.toNat_toInt]
  omega

theorem toNat_clamp (nonneg : 0 ≤ fileSize) {stop : Nat} (fits : stop < 2 ^ 64) :
    (if UInt64.ofNat stop > fileSize.toUInt64 then fileSize.toUInt64 else UInt64.ofNat stop).toNat =
      min stop fileSize.toNatClampNeg := by
  have size := Int64.toNat_toUInt64_of_le nonneg
  have ofNat : (UInt64.ofNat stop).toNat = stop := by
    rw [UInt64.toNat_ofNat', Nat.mod_eq_of_lt fits]
  split
  · rename_i larger
    rw [GT.gt, UInt64.lt_iff_toNat_lt, ofNat, size] at larger
    rw [size]
    omega
  · rename_i notLarger
    rw [GT.gt, UInt64.lt_iff_toNat_lt, ofNat, size] at notLarger
    rw [ofNat]
    omega

end Words

section Gaps

variable {usage : List (Seg V)} {fileSize : Nat}

theorem gapEnd_le_of_below (below : ∀ seg ∈ usage, seg.stop ≤ fileSize) (sorted : Sorted usage) (j : Nat) :
    gapEnd usageMaxKey usage j ≤ max fileSize usageMaxKey := by
  unfold gapEnd nextSegment
  cases found : usage[j]? with
  | none => exact Nat.le_max_right _ _
  | some seg =>
      have := sorted.nonempty found
      have := below seg (List.mem_of_getElem? found)
      dsimp only
      omega

theorem gapStart_le_of_below (below : ∀ seg ∈ usage, seg.stop ≤ fileSize) (j : Nat) :
    gapStart usageMinKey usage j ≤ fileSize := by
  unfold gapStart prevSegment
  split
  · rename_i seg found
    split at found
    · cases found
    · exact below seg (List.mem_of_getElem? found)
  · exact Nat.zero_le _

theorem not_fitsIn_of_short {alignment length j : Nat} (short : gapLength usageMinKey usageMaxKey usage j < length)
    (s : Nat) : ¬FitsIn usage fileSize length alignment j s := by
  rintro ⟨_, above, inside, _⟩
  unfold gapLength at short
  omega

end Gaps

section Scan

variable {usage : List (Seg V)} {fileSize : Int64} {length alignment : UInt64} {k : Nat}

theorem scanGaps_spec (sorted : Sorted usage) (nonneg : 0 ≤ fileSize)
    (below : ∀ seg ∈ usage, seg.stop ≤ fileSize.toNatClampNeg) (hk : k < 64) (power : alignment.toNat = 2 ^ k) :
    ∀ g, g ≤ usage.length →
      (∀ j s, g < j → j ≤ usage.length → ¬FitsIn usage fileSize.toNatClampNeg length.toNat (2 ^ k) j s) →
      (∀ fr, scanGaps usage fileSize length (alignment - 1) g = some fr →
        fr.stop.toNat = fr.start.toNat + length.toNat ∧
          (∃ j, j ≤ usage.length ∧ FitsIn usage fileSize.toNatClampNeg length.toNat (2 ^ k) j fr.start.toNat) ∧
          ∀ j s, j ≤ usage.length → FitsIn usage fileSize.toNatClampNeg length.toNat (2 ^ k) j s →
            s ≤ fr.start.toNat) ∧
      (scanGaps usage fileSize length (alignment - 1) g = none →
        ∀ j s, j ≤ usage.length → ¬FitsIn usage fileSize.toNatClampNeg length.toNat (2 ^ k) j s) := by
  intro g
  induction g using Nat.strong_induction_on with
  | _ g ih =>
  intro inside noneLater
  have small := toNatClampNeg_lt fileSize
  have endFits : gapEnd usageMaxKey usage g < 2 ^ 64 := by
    have := gapEnd_le_of_below below sorted g
    unfold usageMaxKey at this ⊢
    omega
  have startFits : gapStart usageMinKey usage g < 2 ^ 64 := by
    have := gapStart_le_of_below below g
    omega
  have startEq : (UInt64.ofNat (gapStart usageMinKey usage g)).toNat = gapStart usageMinKey usage g := by
    rw [UInt64.toNat_ofNat', Nat.mod_eq_of_lt startFits]
  have stopEq := toNat_clamp nonneg endFits
  rw [scanGaps]
  dsimp only
  generalize (if UInt64.ofNat (gapEnd usageMaxKey usage g) > fileSize.toUInt64 then fileSize.toUInt64
    else UInt64.ofNat (gapEnd usageMaxKey usage g)) = stop at stopEq ⊢
  -- the gaps up to `g` end at or before `g` ends
  have earlierEnd : ∀ j, j ≤ g → gapEnd usageMaxKey usage j ≤ gapEnd usageMaxKey usage g := by
    intro j before
    rcases Nat.lt_or_eq_of_le before with earlier | rfl
    · exact Nat.le_trans (gapEnd_le_gapStart sorted earlier inside)
        (gapStart_le_gapEnd sorted (fun seg member => ⟨Nat.zero_le _, Nat.le_trans (below seg member)
          (by unfold usageMaxKey; omega)⟩) (Nat.zero_le _) g)
    · exact Nat.le_refl _
  by_cases underflow : stop - length > stop
  · -- no gap up to `g` ends far enough from zero
    rw [if_pos underflow]
    rw [Align.sub_gt_iff] at underflow
    refine ⟨fun fr returned => (by cases returned), fun _ j s jInside fits => ?_⟩
    by_cases later : g < j
    · exact noneLater j s later jInside fits
    · obtain ⟨_, _, inGap, inFile⟩ := fits
      have := earlierEnd j (Nat.le_of_not_lt later)
      omega
  · rw [if_neg underflow]
    rw [Align.sub_gt_iff] at underflow
    have unaligned : (stop - length).toNat = stop.toNat - length.toNat :=
      UInt64.toNat_sub_of_le _ _ (UInt64.le_iff_toNat_le.mpr (Nat.le_of_not_lt underflow))
    have aligned : ((stop - length) &&& ~~~(alignment - 1)).toNat = (stop.toNat - length.toNat) / 2 ^ k * 2 ^ k := by
      rw [Align.toNat_and_not_mask hk power, unaligned]
    have alignedLe := Nat.div_mul_le_self (stop.toNat - length.toNat) (2 ^ k)
    -- every fitting start in gap `g` is at most the aligned one
    have highestHere : ∀ s, FitsIn usage fileSize.toNatClampNeg length.toNat (2 ^ k) g s →
        s ≤ (stop.toNat - length.toNat) / 2 ^ k * 2 ^ k := by
      rintro s ⟨dvd, _, inGap, inFile⟩
      exact Align.le_round_down (Nat.two_pow_pos k) dvd (by omega)
    by_cases found : (stop - length) &&& ~~~(alignment - 1) ≥ UInt64.ofNat (gapStart usageMinKey usage g)
    · rw [if_pos found]
      rw [GE.ge, UInt64.le_iff_toNat_le, startEq, aligned] at found
      have sum : (((stop - length) &&& ~~~(alignment - 1)) + length).toNat =
          ((stop - length) &&& ~~~(alignment - 1)).toNat + length.toNat := by
        rw [UInt64.toNat_add, aligned, Nat.mod_eq_of_lt (by have := stop.toNat_lt; omega)]
      refine ⟨fun fr returned => ?_, fun returned => by cases returned⟩
      cases returned
      refine ⟨sum, ?_, ?_⟩
      · rw [aligned]
        exact ⟨g, inside, Nat.dvd_mul_left _ _, found, by omega, by omega⟩
      · intro j s jInside fits
        rw [aligned]
        rcases Nat.lt_trichotomy j g with earlier | rfl | later
        · obtain ⟨_, _, inGap, _⟩ := fits
          have : gapEnd usageMaxKey usage j ≤ gapStart usageMinKey usage g := gapEnd_le_gapStart sorted earlier inside
          omega
        · exact highestHere s fits
        · exact absurd fits (noneLater j s later jInside)
    · rw [if_neg found]
      rw [GE.ge, UInt64.le_iff_toNat_le, startEq, aligned] at found
      have noneHere : ∀ s, ¬FitsIn usage fileSize.toNatClampNeg length.toNat (2 ^ k) g s := by
        intro s fits
        have := highestHere s fits
        have := fits.2.1
        omega
      obtain ⟨someSpec, noneSpec⟩ :=
        prevLargeEnoughGap_spec usageMinKey usageMaxKey usage length.toNat g
      split
      · rename_i prev prevFound
        obtain ⟨before, _, skipped⟩ := someSpec prev prevFound
        -- the gaps skipped are too short, gap `g` has no room
        refine ih prev before (by omega) fun j s later jInside => ?_
        rcases Nat.lt_or_ge j g with earlier | notEarlier
        · exact not_fitsIn_of_short (skipped j later earlier) s
        · rcases Nat.lt_or_eq_of_le notEarlier with after | rfl
          · exact noneLater j s after jInside
          · exact noneHere s
      · rename_i prevNone
        refine ⟨fun fr returned => (by cases returned), fun _ j s jInside => ?_⟩
        rcases Nat.lt_trichotomy j g with earlier | rfl | later
        · exact not_fitsIn_of_short (noneSpec prevNone j earlier) s
        · exact noneHere s
        · exact noneLater j s later jInside

end Scan


section Grow

variable {length alignment min : UInt64} {k : Nat}

/-- The file sizes the growth loop tries from `fileSize`: the first is
`chunkSize` for an empty file and twice the size otherwise, and each later
one twice the one before. -/
def grownSize (fileSize j : Nat) : Nat :=
  (if fileSize = 0 then 2 ^ 30 else 2 * fileSize) * 2 ^ j

theorem next_size {fileSize : Int64} (nonneg : 0 ≤ fileSize) (grows : ¬(2 * fileSize ≤ fileSize ∧ fileSize ≠ 0)) :
    0 ≤ (if 2 * fileSize ≤ fileSize then chunkSize else 2 * fileSize) ∧
      (if 2 * fileSize ≤ fileSize then chunkSize else 2 * fileSize).toNatClampNeg = grownSize fileSize.toNatClampNeg 0 ∧
      fileSize.toNatClampNeg < 2 ^ 62 := by
  have doubled := toInt_two_mul fileSize
  have low := Int64.le_toInt fileSize
  have high := Int64.toInt_lt fileSize
  have size := Int64.cast_toNatClampNeg fileSize nonneg
  rw [Int64.le_iff_toInt_le] at nonneg
  unfold grownSize
  split
  · rename_i notGrown
    have zero : fileSize = 0 := Classical.byContradiction fun nonzero => grows ⟨notGrown, nonzero⟩
    subst zero
    exact ⟨by decide, by decide, by decide⟩
  · rename_i grown
    rw [Int64.le_iff_toInt_le] at grown
    have small : fileSize.toInt < 2 ^ 62 := by
      split at doubled <;> (try split at doubled) <;> omega
    rw [if_neg (by omega : ¬fileSize.toInt < -2 ^ 62), if_pos small] at doubled
    refine ⟨?_, ?_, by omega⟩
    · rw [Int64.le_iff_toInt_le]
      show (0 : Int) ≤ _
      omega
    · rw [← Int64.toNat_toInt, doubled, if_neg (by omega)]
      simp only [Nat.pow_zero, Nat.mul_one]
      omega

theorem overflow_size {fileSize : Int64} (nonneg : 0 ≤ fileSize) (overflow : 2 * fileSize ≤ fileSize ∧ fileSize ≠ 0) :
    2 ^ 62 ≤ fileSize.toNatClampNeg := by
  have doubled := toInt_two_mul fileSize
  have size := Int64.cast_toNatClampNeg fileSize nonneg
  obtain ⟨notGrown, nonzero⟩ := overflow
  have positive : fileSize.toInt ≠ 0 := fun zero => nonzero (Int64.toInt_inj.mp (by rw [zero]; rfl))
  rw [Int64.le_iff_toInt_le] at notGrown nonneg
  split at doubled <;> (try split at doubled) <;> omega

theorem grownSize_succ {fileSize : Nat} (j : Nat) :
    grownSize fileSize (j + 1) = grownSize (grownSize fileSize 0) j := by
  unfold grownSize
  have positive : 0 < (if fileSize = 0 then 2 ^ 30 else 2 * fileSize) := by
    split <;> omega
  generalize (if fileSize = 0 then 2 ^ 30 else 2 * fileSize) = first at positive ⊢
  rw [Nat.pow_zero, Nat.mul_one, if_neg (by omega), Nat.pow_succ, Nat.mul_comm (2 ^ j) 2, Nat.mul_left_comm,
    Nat.mul_assoc]

theorem toNat_start (hk : k < 64) (power : alignment.toNat = 2 ^ k) {size : UInt64}
    (long : ¬size - length > size) :
    ((size - length) &&& ~~~(alignment - 1)).toNat = (size.toNat - length.toNat) / 2 ^ k * 2 ^ k := by
  rw [Align.sub_gt_iff] at long
  rw [Align.toNat_and_not_mask hk power,
    UInt64.toNat_sub_of_le _ _ (UInt64.le_iff_toNat_le.mpr (Nat.le_of_not_lt long))]

theorem growFile_some (hk : k < 64) (power : alignment.toNat = 2 ^ k) :
    ∀ (fileSize : Int64), 0 ≤ fileSize → ∀ fr, growFile length (alignment - 1) min fileSize = some fr →
      fr.stop.toNat = fr.start.toNat + length.toNat ∧ 2 ^ k ∣ fr.start.toNat ∧ min.toNat ≤ fr.start.toNat ∧
        ∃ j, fr.stop.toNat ≤ grownSize fileSize.toNatClampNeg j ∧ grownSize fileSize.toNatClampNeg j < 2 ^ 63 := by
  intro fileSize
  induction measured : growMeasure fileSize using Nat.strong_induction_on generalizing fileSize with
  | _ n ih =>
  intro nonneg fr returned
  rw [growFile] at returned
  dsimp only at returned
  split at returned
  · cases returned
  · rename_i grows
    obtain ⟨nextNonneg, nextSize, small⟩ := next_size nonneg grows
    have decreasing := growMeasure_next grows
    rw [measured] at decreasing
    generalize (if 2 * fileSize ≤ fileSize then chunkSize else 2 * fileSize) = next at nextNonneg nextSize decreasing returned
    have sizeEq := Int64.toNat_toUInt64_of_le nextNonneg
    -- a later size: the size reached is one of the sizes after this one
    have later : ∀ fr, growFile length (alignment - 1) min next = some fr →
        fr.stop.toNat = fr.start.toNat + length.toNat ∧ 2 ^ k ∣ fr.start.toNat ∧ min.toNat ≤ fr.start.toNat ∧
          ∃ j, fr.stop.toNat ≤ grownSize fileSize.toNatClampNeg j ∧ grownSize fileSize.toNatClampNeg j < 2 ^ 63 := by
      intro fr grown
      obtain ⟨stopEq, dvd, above, j, within, bound⟩ := ih _ decreasing next rfl nextNonneg fr grown
      refine ⟨stopEq, dvd, above, j + 1, ?_, ?_⟩ <;> rw [grownSize_succ, ← nextSize] <;> assumption
    split at returned
    · exact later fr returned
    · rename_i long
      have start := toNat_start hk power long
      rw [Align.sub_gt_iff, sizeEq] at long
      split at returned
      · rename_i above
        cases returned
        rw [GE.ge, UInt64.le_iff_toNat_le, start, sizeEq] at above
        have bound := Int64.toNat_toUInt64_of_le nextNonneg ▸ next.toUInt64.toNat_lt
        have alignedLe := Nat.div_mul_le_self (next.toNatClampNeg - length.toNat) (2 ^ k)
        have nextBound := toNatClampNeg_lt next
        refine ⟨?_, ?_, ?_, 0, ?_, ?_⟩
        · rw [UInt64.toNat_add, start, sizeEq, Nat.mod_eq_of_lt (by omega)]
        · rw [start]
          exact Nat.dvd_mul_left _ _
        · rw [start, sizeEq]
          exact above
        · rw [UInt64.toNat_add, start, sizeEq, Nat.mod_eq_of_lt (by omega), ← nextSize]
          omega
        · rw [← nextSize]
          exact nextBound
      · exact later fr returned

theorem growFile_none (hk : k < 64) (power : alignment.toNat = 2 ^ k) :
    ∀ (fileSize : Int64), 0 ≤ fileSize →
      (∀ s, 2 ^ k ∣ s → min.toNat ≤ s → fileSize.toNatClampNeg < s + length.toNat) →
      growFile length (alignment - 1) min fileSize = none →
      ∀ s, 2 ^ k ∣ s → min.toNat ≤ s → 2 ^ 62 < s + length.toNat := by
  intro fileSize
  induction measured : growMeasure fileSize using Nat.strong_induction_on generalizing fileSize with
  | _ n ih =>
  intro nonneg short returned
  rw [growFile] at returned
  dsimp only at returned
  split at returned
  · rename_i overflow
    intro s dvd above
    have := overflow_size nonneg overflow
    have := short s dvd above
    omega
  · rename_i grows
    obtain ⟨nextNonneg, nextSize, small⟩ := next_size nonneg grows
    have decreasing := growMeasure_next grows
    rw [measured] at decreasing
    generalize (if 2 * fileSize ≤ fileSize then chunkSize else 2 * fileSize) = next at nextNonneg nextSize decreasing returned
    have sizeEq := Int64.toNat_toUInt64_of_le nextNonneg
    split at returned
    · -- the next size is shorter than `length`: nothing ends within it
      rename_i tooShort
      rw [Align.sub_gt_iff, sizeEq] at tooShort
      exact ih _ decreasing next rfl nextNonneg (fun s _ _ => by omega) returned
    · rename_i long
      have start := toNat_start hk power long
      split at returned
      · cases returned
      · rename_i below
        rw [GE.ge, UInt64.le_iff_toNat_le, start, sizeEq] at below
        -- a range within the next size would start at or below the aligned start
        refine ih _ decreasing next rfl nextNonneg (fun s dvd above => ?_) returned
        by_contra fits
        have := Align.le_round_down (Nat.two_pow_pos k) dvd (show s ≤ next.toNatClampNeg - length.toNat by omega)
        omega

end Grow

/-- What `findAvailableRange` is for, on a file of `fileSize` bytes and for
an alignment of `2 ^ k`: a range it returns is exactly `length` long,
aligned, below `2 ^ 63` and overlapping no segment; when some gap has room
for an aligned range within the file it is such a range with the highest
start, and otherwise it starts after every segment. It returns nothing only
when no aligned range starting after every segment ends at or below
`2 ^ 62`. -/
def AvailableRange (usage : List (Seg V)) (fileSize length k : Nat) : Option FileRange → Prop
  | some fr =>
      fr.stop.toNat = fr.start.toNat + length ∧ 2 ^ k ∣ fr.start.toNat ∧ fr.stop.toNat < 2 ^ 63 ∧
        (∀ seg ∈ usage, fr.stop.toNat ≤ seg.start ∨ seg.stop ≤ fr.start.toNat) ∧
        ((∃ j s, j ≤ usage.length ∧ FitsIn usage fileSize length (2 ^ k) j s) →
          fr.stop.toNat ≤ fileSize ∧ (∃ j, j ≤ usage.length ∧ FitsIn usage fileSize length (2 ^ k) j fr.start.toNat) ∧
            ∀ j s, j ≤ usage.length → FitsIn usage fileSize length (2 ^ k) j s → s ≤ fr.start.toNat) ∧
        ((¬∃ j s, j ≤ usage.length ∧ FitsIn usage fileSize length (2 ^ k) j s) →
          ∀ seg ∈ usage, seg.stop ≤ fr.start.toNat)
  | none => ∀ s, 2 ^ k ∣ s → (∀ seg ∈ usage, seg.stop ≤ s) → 2 ^ 62 < s + length

/-- `findAvailableRange` does what it is for on a sorted usage set whose
segments end within a file of non-negative size, for every power-of-two
alignment. -/
theorem findAvailableRange_highest_fit (usage : List (Seg V)) (fileSize : Int64) (length alignment : UInt64) (k : Nat)
    (sorted : Sorted usage) (nonneg : 0 ≤ fileSize) (below : ∀ seg ∈ usage, seg.stop ≤ fileSize.toNatClampNeg)
    (hk : k < 64) (power : alignment.toNat = 2 ^ k) :
    AvailableRange usage fileSize.toNatClampNeg length.toNat k (findAvailableRange usage fileSize length alignment) := by
  have small := toNatClampNeg_lt fileSize
  have scan := @scanGaps_spec V usage fileSize length alignment k sorted nonneg below hk power usage.length
    (Nat.le_refl _) (fun j s later inside => absurd inside (by omega))
  unfold findAvailableRange
  dsimp only
  cases scanned : scanGaps usage fileSize length (alignment - 1) usage.length with
  | some fr =>
      -- the backward scan found room in a gap
      dsimp only [AvailableRange]
      obtain ⟨stopEq, ⟨j, jInside, fits⟩, highest⟩ := scan.1 fr scanned
      have inFile := fits.2.2.2
      refine ⟨stopEq, fits.1, by omega, fun seg member => ?_, fun _ => ⟨by omega, ⟨j, jInside, fits⟩, highest⟩,
        fun noFit => absurd ⟨j, _, jInside, fits⟩ noFit⟩
      rw [stopEq]
      exact disjoint_of_within_gap sorted jInside fits.2.1 fits.2.2.1 seg member
  | none =>
      dsimp only
      have noFit := scan.2 scanned
      have lastBelow := gapStart_le_of_below below usage.length
      have startEq : (UInt64.ofNat (gapStart usageMinKey usage usage.length)).toNat =
          gapStart usageMinKey usage usage.length := by
        rw [UInt64.toNat_ofNat', Nat.mod_eq_of_lt (by omega)]
      have powerBound : 2 ^ k ≤ 2 ^ 63 := Nat.pow_le_pow_right (by decide) (by omega)
      have minEq := Align.toNat_round_up hk power (UInt64.ofNat (gapStart usageMinKey usage usage.length))
        (by rw [startEq]; omega)
      rw [startEq] at minEq
      generalize (UInt64.ofNat (gapStart usageMinKey usage usage.length) + (alignment - 1)) &&& ~~~(alignment - 1)
        = min at minEq ⊢
      -- an aligned start after every segment is at or after `min`
      have afterAll : ∀ s, 2 ^ k ∣ s → (∀ seg ∈ usage, seg.stop ≤ s) → min.toNat ≤ s := fun s dvd all => by
        rw [minEq]
        exact Align.round_up_le (Nat.two_pow_pos k) dvd (lastGapStart_le (Nat.zero_le s) all)
      have lastLe := Align.le_round_up (Nat.two_pow_pos k) (gapStart usageMinKey usage usage.length)
      by_cases wraps : min + length < min
      · -- `min + length` wraps
        rw [if_pos wraps]
        dsimp only [AvailableRange]
        rw [Align.add_lt_self_iff] at wraps
        intro s dvd all
        have := afterAll s dvd all
        omega
      · -- nothing fits within the file: the growth loop decides
        rw [if_neg wraps]
        have short : ∀ s, 2 ^ k ∣ s → min.toNat ≤ s → fileSize.toNatClampNeg < s + length.toNat := by
          intro s dvd atLeast
          by_contra fits
          refine noFit usage.length s (Nat.le_refl _) ⟨dvd, by omega, ?_, by omega⟩
          rw [gapEnd_length]
          unfold usageMaxKey
          omega
        cases grown : growFile length (alignment - 1) min fileSize with
        | none =>
            dsimp only [AvailableRange]
            intro s dvd all
            exact growFile_none hk power fileSize nonneg short grown s dvd (afterAll s dvd all)
        | some fr =>
            dsimp only [AvailableRange]
            obtain ⟨stopEq, dvd, atLeast, j, within, bound⟩ := growFile_some hk power fileSize nonneg fr grown
            have lastStops : ∀ seg ∈ usage, seg.stop ≤ gapStart usageMinKey usage usage.length :=
              stop_le_lastGapStart sorted
            refine ⟨stopEq, dvd, by omega, fun seg member => Or.inr ?_,
              fun ⟨j, s, jInside, fits⟩ => absurd fits (noFit j s jInside), fun _ seg member => ?_⟩
            · have := lastStops seg member
              omega
            · have := lastStops seg member
              omega

/-- A page in the middle of a one-chunk file: the free page below it. -/
theorem findAvailableRange_one_page :
    (Sorted [(⟨4096, 8192, ()⟩ : Seg Unit)] ∧ (0 : Int64) ≤ 1073741824 ∧
        (∀ seg ∈ [(⟨4096, 8192, ()⟩ : Seg Unit)], seg.stop ≤ (1073741824 : Int64).toNatClampNeg) ∧ 12 < 64 ∧
        (4096 : UInt64).toNat = 2 ^ 12) ∧
      AvailableRange [(⟨4096, 8192, ()⟩ : Seg Unit)] (1073741824 : Int64).toNatClampNeg (4096 : UInt64).toNat 12
        (findAvailableRange [(⟨4096, 8192, ()⟩ : Seg Unit)] 1073741824 4096 4096) :=
  ⟨⟨by decide, by decide, by decide, by decide, by decide⟩,
    findAvailableRange_highest_fit _ _ _ _ 12 (by decide) (by decide) (by decide) (by decide) (by decide)⟩

/-- From an empty file the growth loop tries the sizes `2 ^ 30` to `2 ^ 62`
and then overflows: `2 ^ 62 + 4096` bytes at a `2 ^ 21` alignment are never
placed, though they fit below `2 ^ 63`. -/
theorem findAvailableRange_fails_below_top :
    findAvailableRange ([] : List (Seg Unit)) 0 4611686018427392000 2097152 = none ∧
      (4611686018427392000 : UInt64).toNat = 2 ^ 62 + 4096 ∧ (2097152 : UInt64).toNat = 2 ^ 21 ∧
      2 ^ 62 + 4096 < 2 ^ 63 := by
  have lengthEq : (4611686018427392000 : UInt64).toNat = 2 ^ 62 + 4096 := rfl
  refine ⟨?_, lengthEq, rfl, by decide⟩
  have scanned : scanGaps ([] : List (Seg Unit)) 0 4611686018427392000 (2097152 - 1) 0 = none := by
    rw [scanGaps]
    decide
  unfold findAvailableRange
  simp only [List.length_nil, scanned]
  rw [if_neg (by decide)]
  cases grown : growFile 4611686018427392000 (2097152 - 1)
    ((UInt64.ofNat (gapStart usageMinKey ([] : List (Seg Unit)) 0) + (2097152 - 1)) &&& ~~~(2097152 - 1)) 0 with
  | none => rfl
  | some fr =>
      exfalso
      obtain ⟨stopEq, _, _, j, within, bound⟩ := growFile_some (k := 21) (by decide) rfl 0 (by decide) fr grown
      -- every size tried from an empty file is a power of two below `2 ^ 63`
      have sizes : grownSize (0 : Int64).toNatClampNeg j = 2 ^ (30 + j) := by
        rw [grownSize, if_pos (by decide), Nat.pow_add]
      rw [sizes] at within bound
      have exponent : 30 + j ≤ 62 := by
        have := (Nat.pow_lt_pow_iff_right (by decide : 1 < 2)).mp (show 2 ^ (30 + j) < 2 ^ 63 from bound)
        omega
      have atMost := Nat.pow_le_pow_right (by decide : 0 < 2) exponent
      rw [lengthEq] at stopEq
      omega

end Cijitter.Pgalloc
