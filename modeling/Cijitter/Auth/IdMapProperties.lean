import Cijitter.Auth.IdMap

/-! What an ID map means. A segment maps the IDs `[start, stop)` onto the
IDs from its value on; `translate` is that mapping with IDs as numbers, and
`mapID` is `translate` with `NoID` for an unmapped ID. Every segment the
source builds fits below `NoID` on both sides (`SegFits`), which the overflow
checks of `trySetUIDMap` ensure and `idMapFunctions.Merge` keeps.

A namespace's maps from and to its parent `Agree` when each maps back what
the other maps. Adding an entry to both keeps that, since `Add` only
succeeds where neither map had anything, so that a run of `trySetUIDMap`
that succeeds leaves maps that agree. -/

set_option autoImplicit false

namespace Cijitter.Auth

open SegmentList

/-- A segment that maps IDs below `NoID` onto IDs below `NoID`. -/
structure SegFits (seg : Seg UInt32) : Prop where
  nonempty : seg.start < seg.stop
  stop_le : seg.stop ≤ noID.toNat
  value_le : seg.value.toNat + (seg.stop - seg.start) ≤ noID.toNat

/-- The ID a segment maps `key` to. -/
def idRead (seg : Seg UInt32) (key : Nat) : Nat := seg.value.toNat + (key - seg.start)

/-- The ID a map maps `key` to. -/
def translate (m : IdMapSet) (key : Nat) : Option Nat := readAt idRead key m

/-- An ID map as the source keeps it. -/
structure IdMapValid (m : IdMapSet) : Prop where
  sorted : Sorted m
  fits : ∀ seg ∈ m, SegFits seg

theorem noID_toNat : noID.toNat = 4294967295 := rfl

theorem toNat_ofNat_of_le_noID {n : Nat} (below : n ≤ noID.toNat) : (UInt32.ofNat n).toNat = n := by
  rw [UInt32.toNat_ofNat', Nat.mod_eq_of_lt]
  rw [noID_toNat] at below
  omega

theorem toNat_add_of_not_le {a b : UInt32} (no_wrap : ¬a + b ≤ a) : (a + b).toNat = a.toNat + b.toNat := by
  rw [UInt32.le_iff_toNat_le, UInt32.toNat_add] at no_wrap
  rw [UInt32.toNat_add]
  have := a.toNat_lt
  have := b.toNat_lt
  omega

/-! ## Merging -/

theorem idMapMerge_reads : MergeReads idMapMerge idRead SegFits := by
  intro first second merged first_fits second_fits merged_eq
  obtain ⟨touching, start_eq, stop_eq, merge_eq⟩ := tryMerge_eq_some merged_eq
  unfold idMapMerge at merge_eq
  split at merge_eq
  · cases merge_eq
  · next contiguous =>
    have value_eq : merged.value = first.value := (Option.some.inj merge_eq).symm
    have length_eq : (UInt32.ofNat first.stop - UInt32.ofNat first.start).toNat = first.stop - first.start := by
      have start_le := toNat_ofNat_of_le_noID (Nat.le_trans (Nat.le_of_lt first_fits.nonempty) first_fits.stop_le)
      have stop_le := toNat_ofNat_of_le_noID first_fits.stop_le
      rw [UInt32.toNat_sub_of_le _ _ (by rw [UInt32.le_iff_toNat_le, start_le, stop_le]; exact Nat.le_of_lt first_fits.nonempty),
        start_le, stop_le]
    -- the second segment starts mapping where the first stops
    have second_value : second.value.toNat = first.value.toNat + (first.stop - first.start) := by
      rw [← not_not.mp contiguous, UInt32.toNat_add, length_eq]
      have := first_fits.value_le
      rw [noID_toNat] at this
      omega
    have first_nonempty := first_fits.nonempty
    have second_value_le := second_fits.value_le
    have second_nonempty := second_fits.nonempty
    refine ⟨⟨?_, ?_, ?_⟩, fun key inside => ?_, fun key inside => ?_⟩
    · omega
    · rw [stop_eq]
      exact second_fits.stop_le
    · rw [value_eq, stop_eq, start_eq]
      omega
    · simp only [idRead, value_eq, start_eq]
    · simp only [Seg.Contains] at inside
      simp only [idRead, value_eq, start_eq]
      omega

/-! ## Translating an ID -/

theorem translate_eq_some {m : IdMapSet} {key n : Nat} (found : translate m key = some n) :
    ∃ seg ∈ m, seg.Contains key ∧ n = idRead seg key := by
  unfold translate readAt at found
  obtain ⟨seg, seg_found, rfl⟩ := Option.map_eq_some_iff.mp found
  obtain ⟨member, inside⟩ := findSegment_eq_some seg_found
  exact ⟨seg, member, inside, rfl⟩

theorem IdMapValid.translate_lt {m : IdMapSet} (valid : IdMapValid m) {key n : Nat}
    (found : translate m key = some n) : n < noID.toNat := by
  obtain ⟨seg, member, inside, rfl⟩ := translate_eq_some found
  have := (valid.fits seg member).value_le
  simp only [Seg.Contains] at inside
  simp only [idRead]
  omega

theorem IdMapValid.translate_noID {m : IdMapSet} (valid : IdMapValid m) : translate m noID.toNat = none :=
  readAt_eq_none.mpr fun seg member inside => by
    have := (valid.fits seg member).stop_le
    simp only [Seg.Contains] at inside
    omega

theorem IdMapValid.translate_of_mem {m : IdMapSet} (valid : IdMapValid m) {seg : Seg UInt32} (member : seg ∈ m)
    {key : Nat} (inside : seg.Contains key) : translate m key = some (idRead seg key) := by
  unfold translate readAt
  rw [findSegment_of_mem valid.sorted member inside]
  rfl

theorem IdMapValid.mapID_eq {m : IdMapSet} (valid : IdMapValid m) (id : UInt32) :
    mapID m id = ((translate m id.toNat).map UInt32.ofNat).getD noID := by
  unfold mapID
  split
  · next is_noID =>
    rw [is_noID, valid.translate_noID]
    rfl
  · cases found : findSegment id.toNat m with
    | none =>
      unfold translate readAt
      rw [found]
      rfl
    | some seg =>
      obtain ⟨member, inside⟩ := findSegment_eq_some found
      have fits := valid.fits seg member
      unfold translate readAt
      rw [found]
      simp only [Option.map_some, Option.getD_some, idRead]
      simp only [Seg.Contains] at inside
      have start_eq := toNat_ofNat_of_le_noID (n := seg.start) (by have := fits.stop_le; omega)
      apply UInt32.toNat_inj.mp
      rw [UInt32.toNat_add, UInt32.toNat_sub_of_le _ _ (by rw [UInt32.le_iff_toNat_le, start_eq]; exact inside.1),
        start_eq, UInt32.toNat_ofNat']

theorem IdMapValid.idMapAdd {m m' : IdMapSet} {start stop value : UInt32} (valid : IdMapValid m)
    (fits : SegFits ⟨start.toNat, stop.toNat, value⟩) (added : idMapAdd m start stop value = some m') :
    IdMapValid m' ∧ (∀ key, start.toNat ≤ key → key < stop.toNat → translate m key = none) ∧
      ∀ key, translate m' key =
        if start.toNat ≤ key ∧ key < stop.toNat then some (value.toNat + (key - start.toNat)) else translate m key := by
  obtain ⟨free, sorted, goods, reading⟩ := add_spec idMapMerge_reads valid.sorted valid.fits fits added
  refine ⟨⟨sorted, goods⟩, fun key low high => ?_, reading⟩
  unfold translate readAt
  rw [free key ⟨low, high⟩]
  rfl

/-! ## Maps that undo each other -/

/-- A namespace ID maps to a parent ID exactly when that parent ID maps back
to it. -/
def Agree (fromParent toParent : IdMapSet) : Prop :=
  ∀ own parentID, translate toParent own = some parentID ↔ translate fromParent parentID = some own

/-- A namespace's maps of one kind, as every run keeps them. -/
structure MapsValid (fromParent toParent : IdMapSet) : Prop where
  fromValid : IdMapValid fromParent
  toValid : IdMapValid toParent
  agree : Agree fromParent toParent

theorem mapsValid_nil : MapsValid [] [] :=
  ⟨⟨trivial, fun _ member => by cases member⟩, ⟨trivial, fun _ member => by cases member⟩,
    fun _ _ => by simp [translate, readAt]⟩

theorem MapsValid.toParent_eq_nil {toParent : IdMapSet} (valid : MapsValid [] toParent) : toParent = [] := by
  cases toParent with
  | nil => rfl
  | cons seg rest =>
    have fits := valid.toValid.fits seg List.mem_cons_self
    have mapped := valid.toValid.translate_of_mem List.mem_cons_self
      (show seg.Contains seg.start from ⟨Nat.le_refl _, fits.nonempty⟩)
    have back := (valid.agree seg.start _).mp mapped
    simp [translate, readAt] at back

private theorem agree_extend {f g f' g' : Nat → Option Nat} {low low' length : Nat}
    (inverse : ∀ own parentID, g own = some parentID ↔ f parentID = some own)
    (f_free : ∀ key, low ≤ key → key < low + length → f key = none)
    (g_free : ∀ key, low' ≤ key → key < low' + length → g key = none)
    (f_eq : ∀ key, f' key = if low ≤ key ∧ key < low + length then some (low' + (key - low)) else f key)
    (g_eq : ∀ key, g' key = if low' ≤ key ∧ key < low' + length then some (low + (key - low')) else g key) :
    ∀ own parentID, g' own = some parentID ↔ f' parentID = some own := by
  intro own parentID
  rw [f_eq, g_eq]
  by_cases own_new : low' ≤ own ∧ own < low' + length
  · rw [if_pos own_new]
    by_cases parent_new : low ≤ parentID ∧ parentID < low + length
    · rw [if_pos parent_new, Option.some.injEq, Option.some.injEq]
      omega
    · rw [if_neg parent_new]
      -- `own` was unmapped, so no old parent ID mapped to it
      constructor
      · intro mapped
        rw [Option.some.injEq] at mapped
        omega
      · intro mapped
        have back := (inverse own parentID).mpr mapped
        rw [g_free own own_new.1 own_new.2] at back
        cases back
  · rw [if_neg own_new]
    by_cases parent_new : low ≤ parentID ∧ parentID < low + length
    · rw [if_pos parent_new]
      constructor
      · intro mapped
        have back := (inverse own parentID).mp mapped
        rw [f_free parentID parent_new.1 parent_new.2] at back
        cases back
      · intro mapped
        rw [Option.some.injEq] at mapped
        omega
    · rw [if_neg parent_new]
      exact inverse own parentID

theorem MapsValid.addEntry {fromParent toParent fromParent' toParent' : IdMapSet} {e : IDMapEntry}
    (valid : MapsValid fromParent toParent)
    (own_fits : ¬e.firstID + e.length ≤ e.firstID) (parent_fits : ¬e.firstParentID + e.length ≤ e.firstParentID)
    (from_added : idMapAdd fromParent e.firstParentID (e.firstParentID + e.length) e.firstID = some fromParent')
    (to_added : idMapAdd toParent e.firstID (e.firstID + e.length) e.firstParentID = some toParent') :
    MapsValid fromParent' toParent' := by
  have last_eq := toNat_add_of_not_le own_fits
  have last_parent_eq := toNat_add_of_not_le parent_fits
  rw [UInt32.le_iff_toNat_le] at own_fits parent_fits
  have last_lt := (e.firstID + e.length).toNat_lt
  have last_parent_lt := (e.firstParentID + e.length).toNat_lt
  have from_fits : SegFits ⟨e.firstParentID.toNat, (e.firstParentID + e.length).toNat, e.firstID⟩ := by
    constructor <;> simp only [noID_toNat] <;> omega
  have to_fits : SegFits ⟨e.firstID.toNat, (e.firstID + e.length).toNat, e.firstParentID⟩ := by
    constructor <;> simp only [noID_toNat] <;> omega
  obtain ⟨from_valid, from_free, from_eq⟩ := valid.fromValid.idMapAdd from_fits from_added
  obtain ⟨to_valid, to_free, to_eq⟩ := valid.toValid.idMapAdd to_fits to_added
  rw [last_parent_eq] at from_free from_eq
  rw [last_eq] at to_free to_eq
  exact ⟨from_valid, to_valid, agree_extend valid.agree from_free to_free from_eq to_eq⟩

theorem MapsValid.addEntries {parentToParent : IdMapSet} :
    ∀ {entries : List IDMapEntry} {fromParent toParent fromParent' toParent' : IdMapSet},
      MapsValid fromParent toParent →
      trySetIDMapLoop parentToParent fromParent toParent entries = .ok (fromParent', toParent') →
      MapsValid fromParent' toParent'
  | [], _, _, _, _, valid, ok => by
    cases ok
    exact valid
  | e :: entries, fromParent, toParent, _, _, valid, ok => by
    unfold trySetIDMapLoop at ok
    dsimp only at ok
    split at ok
    · cases ok
    · next own_fits =>
      split at ok
      · cases ok
      · next parent_fits =>
        split at ok
        · cases ok
        · split at ok
          · cases ok
          · next fromParent' from_added =>
            split at ok
            · cases ok
            · next toParent' to_added =>
              exact MapsValid.addEntries (valid.addEntry own_fits parent_fits from_added to_added) ok

end Cijitter.Auth
