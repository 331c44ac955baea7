import Mathlib

/-! Nested finite maps read as counting functions. A map from keys to values
that count points of `T` counts the pairs of a key and such a point, with 0
where the key is absent; nesting the construction counts tuples of keys. Two
maps whose values are all non-trivial (each counts some point) and
determined by what they count are equal when they count alike. -/

set_option autoImplicit false

namespace CountMap

variable {K T V : Type} [DecidableEq K] (cnt : V → T → Int)

/-- What `m` counts at a key and a point below it. -/
def mapCount (m : Finmap fun _ : K => V) (x : K × T) : Int :=
  ((m.lookup x.1).map fun v => cnt v x.2).getD 0

/-- Every value of `m` satisfies `wf`. -/
def AllValues (wf : V → Prop) (m : Finmap fun _ : K => V) : Prop :=
  ∀ k v, m.lookup k = some v → wf v

/-- `m` has a key, and every value satisfies `wf`. -/
def Populated (wf : V → Prop) (m : Finmap fun _ : K => V) : Prop :=
  0 < m.keys.card ∧ AllValues wf m

variable {cnt}

theorem mapCount_lookup (m : Finmap fun _ : K => V) (k : K) (t : T) :
    mapCount cnt m (k, t) = ((m.lookup k).map fun v => cnt v t).getD 0 := rfl

@[simp] theorem mapCount_empty (x : K × T) : mapCount cnt (∅ : Finmap fun _ : K => V) x = 0 := by
  obtain ⟨k, t⟩ := x
  simp [mapCount_lookup, Finmap.lookup_empty]

theorem mapCount_insert (m : Finmap fun _ : K => V) (k : K) (v : V) (k' : K) (t : T) :
    mapCount cnt (m.insert k v) (k', t) = if k' = k then cnt v t else mapCount cnt m (k', t) := by
  by_cases same : k' = k
  · subst same
    simp [mapCount_lookup, Finmap.lookup_insert]
  · simp [mapCount_lookup, Finmap.lookup_insert_of_ne _ same, same]

theorem mapCount_erase (m : Finmap fun _ : K => V) (k k' : K) (t : T) :
    mapCount cnt (m.erase k) (k', t) = if k' = k then 0 else mapCount cnt m (k', t) := by
  by_cases same : k' = k
  · subst same
    simp [mapCount_lookup, Finmap.lookup_erase]
  · simp [mapCount_lookup, Finmap.lookup_erase_ne same, same]

theorem count_lookup_getD {default : V} (countsNothing : ∀ t, cnt default t = 0)
    (m : Finmap fun _ : K => V) (k : K) (t : T) :
    cnt ((m.lookup k).getD default) t = mapCount cnt m (k, t) := by
  rw [mapCount_lookup]
  cases m.lookup k with
  | none => exact countsNothing t
  | some v => rfl

theorem mapCount_getD_empty {U : Type} [DecidableEq U] (m : Finmap fun _ : K => Finmap fun _ : U => V)
    (k : K) (x : U × T) :
    mapCount cnt ((m.lookup k).getD ∅) x = mapCount (mapCount cnt) m (k, x) :=
  count_lookup_getD (fun _ => mapCount_empty _) m k x

theorem mapCount_of_card_zero {m : Finmap fun _ : K => V} (empty : m.keys.card = 0) (x : K × T) :
    mapCount cnt m x = 0 := by
  have absent : x.1 ∉ m := fun member =>
    (Finset.card_pos.mpr ⟨x.1, Finmap.mem_keys.mpr member⟩).ne' empty
  simp [mapCount, Finmap.lookup_eq_none.mpr absent]

theorem mapCount_erase_eq_insert {v : V} (zero : ∀ t, cnt v t = 0) (m : Finmap fun _ : K => V) (k : K) :
    mapCount cnt (m.erase k) = mapCount cnt (m.insert k v) := by
  funext x
  obtain ⟨k', t⟩ := x
  rw [mapCount_erase, mapCount_insert]
  split_ifs
  · exact (zero t).symm
  · rfl

theorem mapCount_insert_congr {v v' : V} (same : cnt v = cnt v') (m : Finmap fun _ : K => V) (k : K) :
    mapCount cnt (m.insert k v) = mapCount cnt (m.insert k v') := by
  funext x
  obtain ⟨k', t⟩ := x
  rw [mapCount_insert, mapCount_insert, same]

theorem mapCount_nonneg {wf : V → Prop} (nonneg : ∀ v, wf v → ∀ t, 0 ≤ cnt v t)
    {m : Finmap fun _ : K => V} (all : AllValues wf m) (x : K × T) : 0 ≤ mapCount cnt m x := by
  obtain ⟨k, t⟩ := x
  rw [mapCount_lookup]
  cases found : m.lookup k with
  | none => exact le_refl 0
  | some v => exact nonneg v (all k v found) t

theorem exists_mapCount_ne_zero {wf : V → Prop} (counts : ∀ v, wf v → ∃ t, cnt v t ≠ 0)
    {m : Finmap fun _ : K => V} (populated : Populated wf m) : ∃ x, mapCount cnt m x ≠ 0 := by
  obtain ⟨k, member⟩ := Finset.card_pos.mp populated.1
  obtain ⟨v, found⟩ := Finmap.mem_iff.mp (Finmap.mem_keys.mp member)
  obtain ⟨t, nonzero⟩ := counts v (populated.2 k v found)
  exact ⟨(k, t), by simpa [mapCount_lookup, found] using nonzero⟩

section Ext

variable {wf : V → Prop} (counts : ∀ v, wf v → ∃ t, cnt v t ≠ 0)
  (ext : ∀ v v', wf v → wf v' → (∀ t, cnt v t = cnt v' t) → v = v')
include counts ext

theorem eq_of_mapCount {m m' : Finmap fun _ : K => V} (wfm : AllValues wf m) (wfm' : AllValues wf m')
    (same : ∀ x, mapCount cnt m x = mapCount cnt m' x) : m = m' := by
  apply Finmap.ext_lookup
  intro k
  cases found : m.lookup k with
  | none =>
    cases found' : m'.lookup k with
    | none => rfl
    | some v' =>
      obtain ⟨t, nonzero⟩ := counts v' (wfm' k v' found')
      have := same (k, t)
      simp [mapCount_lookup, found, found'] at this
      exact absurd this.symm nonzero
  | some v =>
    cases found' : m'.lookup k with
    | none =>
      obtain ⟨t, nonzero⟩ := counts v (wfm k v found)
      have := same (k, t)
      simp [mapCount_lookup, found, found'] at this
      exact absurd this nonzero
    | some v' =>
      have agree : ∀ t, cnt v t = cnt v' t := fun t => by
        simpa [mapCount_lookup, found, found'] using same (k, t)
      rw [ext v v' (wfm k v found) (wfm' k v' found') agree]

theorem eq_of_mapCount_populated {m m' : Finmap fun _ : K => V} (wfm : Populated wf m)
    (wfm' : Populated wf m') (same : ∀ x, mapCount cnt m x = mapCount cnt m' x) : m = m' :=
  eq_of_mapCount counts ext wfm.2 wfm'.2 same

end Ext

section WellFormed

variable {wf : V → Prop}

theorem AllValues.insert {m : Finmap fun _ : K => V} (all : AllValues wf m) {v : V} (good : wf v) (k : K) :
    AllValues wf (m.insert k v) := by
  intro k' v' found
  by_cases same : k' = k
  · subst same
    rw [Finmap.lookup_insert, Option.some.injEq] at found
    exact found ▸ good
  · rw [Finmap.lookup_insert_of_ne _ same] at found
    exact all k' v' found

theorem AllValues.erase {m : Finmap fun _ : K => V} (all : AllValues wf m) (k : K) :
    AllValues wf (m.erase k) := by
  intro k' v' found
  by_cases same : k' = k
  · subst same
    rw [Finmap.lookup_erase] at found
    cases found
  · rw [Finmap.lookup_erase_ne same] at found
    exact all k' v' found

theorem Populated.insert {m : Finmap fun _ : K => V} (all : AllValues wf m) {v : V} (good : wf v) (k : K) :
    Populated wf (m.insert k v) :=
  ⟨Finset.card_pos.mpr ⟨k, Finmap.mem_keys.mpr (Finmap.mem_insert.mpr (.inl rfl))⟩, all.insert good k⟩

theorem AllValues.getD {U : Type} [DecidableEq U] {m : Finmap fun _ : K => Finmap fun _ : U => V}
    (all : AllValues (Populated wf) m) (k : K) : AllValues wf ((m.lookup k).getD ∅) := by
  cases found : m.lookup k with
  | none =>
    intro k' v' inner
    simp [Finmap.lookup_empty] at inner
  | some inner => exact (all k inner found).2

end WellFormed

end CountMap
