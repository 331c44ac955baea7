import Cijitter.Auth.IdMapProperties
import Mathlib

/-! User namespaces over every run. In every reachable arena each
namespace's maps of each kind are valid and undo each other (`Valid`): a
root gets the identity on every ID but `NoID`, a child gets empty maps, and
`SetUIDMap` either leaves the maps, removes both, or puts what a successful
`trySetUIDMap` built.

The maps of a namespace are then a partial bijection (`PEquiv`) from its
parent's IDs to its own, and the IDs of a namespace are related to kernel IDs
by the composition of these bijections from its root down (`Valid.chain`).
`MapFromKUID` is that composition and `MapToKUID` its inverse, with `NoID`
where it is undefined, so the two undo each other. -/

set_option autoImplicit false

namespace Cijitter.Auth

open SegmentList

/-! ## The invariant -/

/-- Every namespace's maps of both kinds are valid and undo each other. -/
def Valid (t : Namespaces) : Prop :=
  ∀ {i : Nat} {ns : UserNamespace}, t.namespaces[i]? = some ns →
    ∀ kind, MapsValid (ns.mapFromParent kind) (ns.mapToParent kind)

theorem valid_empty : Valid Namespaces.empty := fun found => by cases found

theorem Valid.push {t : Namespaces} (valid : Valid t) {ns : UserNamespace}
    (parent_ok : ∀ p, ns.parent = some p → p < t.namespaces.length)
    (ns_valid : ∀ kind, MapsValid (ns.mapFromParent kind) (ns.mapToParent kind)) :
    Valid (t.push ns parent_ok) := by
  intro j ns' found kind
  rw [Namespaces.getElem?_push] at found
  split at found
  · cases found
    exact ns_valid kind
  · exact valid found kind

theorem Valid.setMaps {t : Namespaces} (valid : Valid t) {i : Nat} {kind : IdKind} {fromParent toParent : IdMapSet}
    (maps_valid : MapsValid fromParent toParent) : Valid (t.setMaps i kind fromParent toParent) := by
  intro j ns' found kind'
  rw [Namespaces.getElem?_setMaps] at found
  split at found
  · obtain ⟨ns, old, rfl⟩ := Option.map_eq_some_iff.mp found
    rw [UserNamespace.mapFromParent_setMaps, UserNamespace.mapToParent_setMaps]
    split
    · exact maps_valid
    · exact valid old kind'
  · exact valid found kind'

theorem translate_rootIDMap (key : Nat) :
    translate [⟨0, 4294967295, 0⟩] key = if key < 4294967295 then some key else none := by
  rw [translate, readAt_cons]
  simp [Seg.Contains, idRead, readAt]

theorem mapsValid_root : MapsValid [⟨0, 4294967295, 0⟩] [⟨0, 4294967295, 0⟩] := by
  have valid : IdMapValid [⟨0, 4294967295, 0⟩] := by
    refine ⟨(by decide : (0 : Nat) < 4294967295), fun seg member => ?_⟩
    rw [List.mem_singleton] at member
    subst member
    constructor <;> simp [noID_toNat]
  refine ⟨valid, valid, fun own parentID => ?_⟩
  rw [translate_rootIDMap, translate_rootIDMap]
  by_cases own_below : own < 4294967295 <;> by_cases parent_below : parentID < 4294967295 <;>
    simp [own_below, parent_below, eq_comm] <;> omega

theorem newRootUserNamespace_eq :
    newRootUserNamespace = some ⟨none, 0, [⟨0, 4294967295, 0⟩], [⟨0, 4294967295, 0⟩],
      [⟨0, 4294967295, 0⟩], [⟨0, 4294967295, 0⟩]⟩ := by
  decide

theorem newChildUserNamespace_eq {t : Namespaces} {c : Credentials} {ns : UserNamespace}
    (created : newChildUserNamespace t c = .ok ns) : ns = ⟨some c.userNamespace, c.effectiveKUID, [], [], [], []⟩ := by
  unfold newChildUserNamespace at created
  split at created
  · cases created
  · split at created
    · cases created
    · split at created
      · cases created
      · cases created
        rfl

/-! ## What `SetUIDMap` does -/

theorem setIDMap_eq_some {kind : IdKind} {t t' : Namespaces} {c : Credentials} {i : Nat} {entries : List IDMapEntry}
    {err : Option Errno} (called : setIDMap kind t c i entries = some (t', err)) :
    (t' = t ∧ err.isSome) ∨ (t' = t.setMaps i kind [] [] ∧ err.isSome) ∨
      (err = none ∧ ∃ ns p parent fromParent toParent, t.namespaces[i]? = some ns ∧ ns.mapFromParent kind = [] ∧
        ns.parent = some p ∧ t.namespaces[p]? = some parent ∧
        trySetIDMap kind ns parent entries = .ok (fromParent, toParent) ∧ t' = t.setMaps i kind fromParent toParent) := by
  -- each check that fails returns the namespaces as they were
  have unchanged : ∀ e : Errno, some (t, some e) = some (t', err) →
      (t' = t ∧ err.isSome) ∨ (t' = t.setMaps i kind [] [] ∧ err.isSome) ∨
        (err = none ∧ ∃ ns p parent fromParent toParent, t.namespaces[i]? = some ns ∧ ns.mapFromParent kind = [] ∧
          ns.parent = some p ∧ t.namespaces[p]? = some parent ∧
          trySetIDMap kind ns parent entries = .ok (fromParent, toParent) ∧ t' = t.setMaps i kind fromParent toParent) := by
    intro e same
    cases same
    exact .inl ⟨rfl, rfl⟩
  unfold setIDMap at called
  split at called
  · cases called
  · next ns found =>
    split at called
    · exact unchanged _ called
    · next not_set =>
      have unset : ns.mapFromParent kind = [] := by simpa using not_set
      split at called
      · exact unchanged _ called
      · split at called
        · exact unchanged _ called
        · split at called
          · exact unchanged _ called
          · split at called
            · cases called
            · next p parent_eq =>
              split at called
              · cases called
              · next parent parent_found =>
                dsimp only at called
                split at called
                · exact unchanged _ called
                · split at called
                  · next fromParent toParent tried =>
                    cases called
                    exact .inr (.inr ⟨rfl, ns, p, parent, fromParent, toParent, found, unset, parent_eq,
                      parent_found, tried, rfl⟩)
                  · cases called
                    exact .inr (.inl ⟨rfl, rfl⟩)

theorem Valid.of_setIDMap {t t' : Namespaces} (valid : Valid t) {kind : IdKind} {c : Credentials} {i : Nat}
    {entries : List IDMapEntry} {err : Option Errno} (called : setIDMap kind t c i entries = some (t', err)) :
    Valid t' := by
  rcases setIDMap_eq_some called with ⟨rfl, _⟩ | ⟨rfl, _⟩ |
      ⟨_, ns, p, parent, fromParent, toParent, found, _, _, _, tried, rfl⟩
  · exact valid
  · exact valid.setMaps mapsValid_nil
  · exact valid.setMaps ((valid found kind).addEntries tried)

theorem Valid.of_step {t : Namespaces} (valid : Valid t) (action : Action) : Valid (step t action) := by
  cases action with
  | newRoot =>
    rw [step]
    split
    · next ns found =>
      rw [newRootUserNamespace_eq, Option.some.injEq] at found
      subst found
      exact valid.push _ fun kind => by cases kind <;> exact mapsValid_root
    · exact valid
  | newChild c =>
    rw [step]
    split
    · split
      · next ns created =>
        refine valid.push _ fun kind => ?_
        rw [newChildUserNamespace_eq created]
        cases kind <;> exact mapsValid_nil
      · exact valid
    · exact valid
  | setUIDMap c i entries =>
    rw [step]
    cases called : setUIDMap t c i entries with
    | none => exact valid
    | some result => exact valid.of_setIDMap called
  | setGIDMap c i entries =>
    rw [step]
    cases called : setGIDMap t c i entries with
    | none => exact valid
    | some result => exact valid.of_setIDMap called

theorem Reachable.valid {t : Namespaces} (reachable : Reachable t) : Valid t :=
  StepRun.Reachable.invariant Valid valid_empty (fun _ action _ valid => valid.of_step action) reachable

theorem Valid.setIDMap_failed {t t' : Namespaces} (valid : Valid t) {kind : IdKind} {c : Credentials} {i : Nat}
    {entries : List IDMapEntry} {err : Errno} {ns : UserNamespace} (found : t.namespaces[i]? = some ns)
    (unset : ns.mapFromParent kind = []) (called : setIDMap kind t c i entries = some (t', some err)) :
    ∃ ns', t'.namespaces[i]? = some ns' ∧ ns'.mapFromParent kind = [] ∧ ns'.mapToParent kind = [] := by
  rcases setIDMap_eq_some called with ⟨rfl, _⟩ | ⟨rfl, _⟩ | ⟨failed, _⟩
  · have maps_valid := valid found kind
    rw [unset] at maps_valid
    exact ⟨ns, found, unset, maps_valid.toParent_eq_nil⟩
  · refine ⟨ns.setMaps kind [] [], ?_, ?_, ?_⟩
    · rw [Namespaces.getElem?_setMaps, if_pos rfl, found]
      rfl
    · rw [UserNamespace.mapFromParent_setMaps, if_pos rfl]
    · rw [UserNamespace.mapToParent_setMaps, if_pos rfl]
  · cases failed

/-! ## The meaning of the maps -/

theorem IdMapValid.map_ofNat_eq_some {m : IdMapSet} (valid : IdMapValid m) {key : Nat} {id : UInt32} :
    (translate m key).map UInt32.ofNat = some id ↔ translate m key = some id.toNat := by
  constructor
  · intro mapped
    obtain ⟨n, found, rfl⟩ := Option.map_eq_some_iff.mp mapped
    rw [toNat_ofNat_of_le_noID (Nat.le_of_lt (valid.translate_lt found))]
    exact found
  · intro found
    rw [found, Option.map_some, UInt32.ofNat_toNat]

/-- A namespace's maps as a partial bijection from its parent's IDs to its own. -/
def MapsValid.toPEquiv {fromParent toParent : IdMapSet} (valid : MapsValid fromParent toParent) :
    UInt32 ≃. UInt32 where
  toFun parentID := (translate fromParent parentID.toNat).map UInt32.ofNat
  invFun own := (translate toParent own.toNat).map UInt32.ofNat
  inv parentID own := by
    show _ = some parentID ↔ _ = some own
    rw [valid.toValid.map_ofNat_eq_some, valid.fromValid.map_ofNat_eq_some]
    exact valid.agree own.toNat parentID.toNat

section PEquiv

variable {fromParent toParent : IdMapSet} (valid : MapsValid fromParent toParent)

@[simp] theorem MapsValid.toPEquiv_apply (parentID : UInt32) :
    valid.toPEquiv parentID = (translate fromParent parentID.toNat).map UInt32.ofNat := rfl

@[simp] theorem MapsValid.toPEquiv_symm_apply (own : UInt32) :
    valid.toPEquiv.symm own = (translate toParent own.toNat).map UInt32.ofNat := rfl

theorem MapsValid.toPEquiv_noID : valid.toPEquiv noID = none := by
  rw [valid.toPEquiv_apply, valid.fromValid.translate_noID]
  rfl

theorem MapsValid.mapID_fromParent (parentID : UInt32) :
    mapID fromParent parentID = (valid.toPEquiv parentID).getD noID := by
  rw [valid.fromValid.mapID_eq, valid.toPEquiv_apply]

theorem MapsValid.mapID_toParent (own : UInt32) :
    mapID toParent own = (valid.toPEquiv.symm own).getD noID := by
  rw [valid.toValid.mapID_eq, valid.toPEquiv_symm_apply]

end PEquiv

/-- What the maps along the parent chain mean: the partial bijection from
kernel IDs to the IDs of the namespace at `i`, composed from the root down. -/
def Valid.chain {t : Namespaces} (valid : Valid t) (kind : IdKind) (i : Nat) : UInt32 ≃. UInt32 :=
  match found : t.namespaces[i]? with
  | none => ⊥
  | some ns =>
    match _parent_eq : ns.parent with
    | none => PEquiv.refl UInt32
    | some p => (valid.chain kind p).trans (valid found kind).toPEquiv
termination_by i
decreasing_by exact t.parent_lt found _parent_eq

section Chain

variable {t : Namespaces} (valid : Valid t) (kind : IdKind) {i p : Nat} {ns : UserNamespace}

theorem Valid.chain_of_none (found : t.namespaces[i]? = none) : valid.chain kind i = ⊥ := by
  rw [Valid.chain]
  split
  · rfl
  · next ns' found' =>
    rw [found] at found'
    cases found'

theorem Valid.chain_of_root (found : t.namespaces[i]? = some ns) (root : ns.parent = none) :
    valid.chain kind i = PEquiv.refl UInt32 := by
  rw [Valid.chain]
  split
  · next none_found =>
    rw [found] at none_found
    cases none_found
  · next ns' found' =>
    rw [found] at found'
    cases found'
    split
    · rfl
    · next p' parent_eq =>
      rw [root] at parent_eq
      cases parent_eq

theorem Valid.chain_of_parent (found : t.namespaces[i]? = some ns) (parent_eq : ns.parent = some p) :
    valid.chain kind i = (valid.chain kind p).trans (valid found kind).toPEquiv := by
  rw [Valid.chain]
  split
  · next none_found =>
    rw [found] at none_found
    cases none_found
  · next ns' found' =>
    rw [found] at found'
    cases found'
    split
    · next root =>
      rw [parent_eq] at root
      cases root
    · next p' parent_eq' =>
      rw [parent_eq] at parent_eq'
      cases parent_eq'
      rfl

end Chain

theorem mapID_noID (m : IdMapSet) : mapID m noID = noID := if_pos rfl

private theorem trans_apply_eq_bind (f g : UInt32 ≃. UInt32) (id : UInt32) : f.trans g id = (f id).bind g := rfl

theorem mapToK_noID (t : Namespaces) (kind : IdKind) (i : Nat) : mapToK t kind i noID = noID := by
  induction i using Nat.strong_induction_on with
  | _ i ih =>
    cases found : t.namespaces[i]? with
    | none => exact mapToK_of_none noID found
    | some ns =>
      cases parent_eq : ns.parent with
      | none => exact mapToK_of_root noID found parent_eq
      | some p =>
        rw [mapToK_of_parent noID found parent_eq, mapID_noID]
        exact ih p (t.parent_lt found parent_eq)

theorem Valid.mapFromK_eq {t : Namespaces} (valid : Valid t) (kind : IdKind) (i : Nat) (kid : UInt32) :
    mapFromK t kind i kid = (valid.chain kind i kid).getD noID := by
  induction i using Nat.strong_induction_on with
  | _ i ih =>
    cases found : t.namespaces[i]? with
    | none => rw [mapFromK_of_none kid found, valid.chain_of_none kind found]; rfl
    | some ns =>
      cases parent_eq : ns.parent with
      | none => rw [mapFromK_of_root kid found parent_eq, valid.chain_of_root kind found parent_eq]; rfl
      | some p =>
        rw [mapFromK_of_parent kid found parent_eq, valid.chain_of_parent kind found parent_eq,
          ih p (t.parent_lt found parent_eq), (valid found kind).mapID_fromParent, trans_apply_eq_bind]
        -- the composition is undefined where the parent's chain is
        cases above : valid.chain kind p kid with
        | none => rw [Option.getD_none, (valid found kind).toPEquiv_noID]; rfl
        | some parentID => rfl

theorem Valid.mapToK_eq {t : Namespaces} (valid : Valid t) (kind : IdKind) (i : Nat) (id : UInt32) :
    mapToK t kind i id = ((valid.chain kind i).symm id).getD noID := by
  induction i using Nat.strong_induction_on generalizing id with
  | _ i ih =>
    cases found : t.namespaces[i]? with
    | none => rw [mapToK_of_none id found, valid.chain_of_none kind found]; rfl
    | some ns =>
      cases parent_eq : ns.parent with
      | none => rw [mapToK_of_root id found parent_eq, valid.chain_of_root kind found parent_eq]; rfl
      | some p =>
        have below := t.parent_lt found parent_eq
        rw [mapToK_of_parent id found parent_eq, valid.chain_of_parent kind found parent_eq, PEquiv.symm_trans_rev,
          ih p below, (valid found kind).mapID_toParent, trans_apply_eq_bind]
        cases up : (valid found kind).toPEquiv.symm id with
        | none =>
          -- an unmapped ID goes up as `NoID`, which the parent maps to `NoID`
          rw [Option.getD_none, ← ih p below noID, mapToK_noID]
          rfl
        | some parentID => rfl

theorem Valid.mapFromK_of_mapToK {t : Namespaces} (valid : Valid t) {kind : IdKind} {i : Nat} {id kid : UInt32}
    (mapped : mapToK t kind i id = kid) (ok : kid ≠ noID) : mapFromK t kind i kid = id := by
  rw [valid.mapToK_eq] at mapped
  rw [valid.mapFromK_eq]
  cases back : (valid.chain kind i).symm id with
  | none =>
    rw [back] at mapped
    exact absurd mapped.symm ok
  | some k =>
    rw [back, Option.getD_some] at mapped
    subst mapped
    rw [(PEquiv.eq_some_iff _).mp back]
    rfl

theorem Valid.mapToK_of_mapFromK {t : Namespaces} (valid : Valid t) {kind : IdKind} {i : Nat} {kid id : UInt32}
    (mapped : mapFromK t kind i kid = id) (ok : id ≠ noID) : mapToK t kind i id = kid := by
  rw [valid.mapFromK_eq] at mapped
  rw [valid.mapToK_eq]
  cases forth : valid.chain kind i kid with
  | none =>
    rw [forth] at mapped
    exact absurd mapped.symm ok
  | some k =>
    rw [forth, Option.getD_some] at mapped
    subst mapped
    rw [(PEquiv.eq_some_iff _).mpr forth]
    rfl

/-! ## `getIDMap` -/

/-- The IDs an entry of `getIDMap` covers. -/
def IDMapEntry.Covers (e : IDMapEntry) (id : UInt32) : Prop :=
  e.firstID.toNat ≤ id.toNat ∧ id.toNat < e.firstID.toNat + e.length.toNat

theorem SegFits.entry {seg : Seg UInt32} (fits : SegFits seg) :
    (UInt32.ofNat seg.start).toNat = seg.start ∧
      (UInt32.ofNat seg.stop - UInt32.ofNat seg.start).toNat = seg.stop - seg.start := by
  have start_eq := toNat_ofNat_of_le_noID (Nat.le_trans (Nat.le_of_lt fits.nonempty) fits.stop_le)
  have stop_eq := toNat_ofNat_of_le_noID fits.stop_le
  refine ⟨start_eq, ?_⟩
  rw [UInt32.toNat_sub_of_le _ _ (by rw [UInt32.le_iff_toNat_le, start_eq, stop_eq]; exact Nat.le_of_lt fits.nonempty),
    start_eq, stop_eq]

theorem IdMapValid.getIDMap_pairwise {m : IdMapSet} (valid : IdMapValid m) :
    (getIDMap m).Pairwise fun e f => e.firstID.toNat + e.length.toNat ≤ f.firstID.toNat := by
  rw [getIDMap, List.pairwise_map]
  refine valid.sorted.pairwise.imp_of_mem fun {first second} first_member second_member before => ?_
  obtain ⟨first_start, first_length⟩ := (valid.fits first first_member).entry
  obtain ⟨second_start, _⟩ := (valid.fits second second_member).entry
  have := (valid.fits first first_member).nonempty
  simp only [first_start, first_length, second_start]
  omega

theorem IdMapValid.covers_iff {m : IdMapSet} (valid : IdMapValid m) (id : UInt32) :
    (∃ e ∈ getIDMap m, e.Covers id) ↔ ∃ seg ∈ m, seg.Contains id.toNat := by
  simp only [getIDMap, List.mem_map]
  constructor
  · rintro ⟨_, ⟨seg, member, rfl⟩, covers⟩
    obtain ⟨start_eq, length_eq⟩ := (valid.fits seg member).entry
    have := (valid.fits seg member).nonempty
    simp only [IDMapEntry.Covers, start_eq, length_eq] at covers
    exact ⟨seg, member, covers.1, by omega⟩
  · rintro ⟨seg, member, inside⟩
    obtain ⟨start_eq, length_eq⟩ := (valid.fits seg member).entry
    have := (valid.fits seg member).nonempty
    simp only [Seg.Contains] at inside
    refine ⟨_, ⟨seg, member, rfl⟩, ?_⟩
    simp only [IDMapEntry.Covers, start_eq, length_eq]
    omega

theorem IdMapValid.getIDMap_spec {m : IdMapSet} (valid : IdMapValid m) :
    (getIDMap m).Pairwise (fun e f => e.firstID.toNat + e.length.toNat ≤ f.firstID.toNat) ∧
      ∀ id, (mapID m id ≠ noID ↔ ∃ e ∈ getIDMap m, e.Covers id) ∧
        ∀ e ∈ getIDMap m, e.Covers id → mapID m id = e.firstParentID + (id - e.firstID) := by
  refine ⟨valid.getIDMap_pairwise, fun id => ⟨?_, ?_⟩⟩
  · rw [valid.covers_iff, valid.mapID_eq]
    constructor
    · intro mapped
      cases found : translate m id.toNat with
      | none =>
        rw [found] at mapped
        exact absurd rfl mapped
      | some n =>
        obtain ⟨seg, member, inside, _⟩ := translate_eq_some found
        exact ⟨seg, member, inside⟩
    · rintro ⟨seg, member, inside⟩
      have found := valid.translate_of_mem member inside
      have below := valid.translate_lt found
      rw [found, Option.map_some, Option.getD_some]
      intro same
      have := congrArg UInt32.toNat same
      rw [toNat_ofNat_of_le_noID (Nat.le_of_lt below)] at this
      omega
  · intro e e_member covers
    obtain ⟨seg, member, rfl⟩ := List.mem_map.mp e_member
    have inside := (valid.covers_iff id).mp ⟨_, e_member, covers⟩
    obtain ⟨seg', member', inside'⟩ := inside
    have fits := valid.fits seg member
    obtain ⟨start_eq, length_eq⟩ := fits.entry
    have seg_inside : seg.Contains id.toNat := by
      simp only [IDMapEntry.Covers, start_eq, length_eq] at covers
      have := fits.nonempty
      exact ⟨covers.1, by omega⟩
    have not_noID : id ≠ noID := by
      intro is_noID
      have := fits.stop_le
      simp only [Seg.Contains, is_noID] at seg_inside
      omega
    unfold mapID
    rw [if_neg not_noID, findSegment_of_mem valid.sorted member seg_inside]

/-! ## Every reachable arena -/

theorem idMaps_are_inverse_partial_bijections :
    (∀ t, Reachable t → ∀ (kind : IdKind) (c : Credentials) (i : Nat) (entries : List IDMapEntry) (t' : Namespaces)
        (err : Errno) (ns : UserNamespace), t.namespaces[i]? = some ns → ns.mapFromParent kind = [] →
        setIDMap kind t c i entries = some (t', some err) →
        ∃ ns', t'.namespaces[i]? = some ns' ∧ ns'.mapFromParent kind = [] ∧ ns'.mapToParent kind = []) ∧
    (∀ t, Reachable t → ∀ (kind : IdKind) (i : Nat) (id kid : UInt32),
        mapToK t kind i id = kid → kid ≠ noID → mapFromK t kind i kid = id) ∧
    (∀ t, Reachable t → ∀ (kind : IdKind) (i : Nat) (kid id : UInt32),
        mapFromK t kind i kid = id → id ≠ noID → mapToK t kind i id = kid) ∧
    (∀ t, Reachable t → ∀ (kind : IdKind) (i : Nat) (ns : UserNamespace), t.namespaces[i]? = some ns →
        ∀ m, m = ns.mapFromParent kind ∨ m = ns.mapToParent kind →
          (getIDMap m).Pairwise (fun e f => e.firstID.toNat + e.length.toNat ≤ f.firstID.toNat) ∧
          ∀ id, (mapID m id ≠ noID ↔ ∃ e ∈ getIDMap m, e.Covers id) ∧
            ∀ e ∈ getIDMap m, e.Covers id → mapID m id = e.firstParentID + (id - e.firstID)) := by
  refine ⟨fun t reachable kind c i entries t' err ns found unset called =>
      Valid.setIDMap_failed (Reachable.valid reachable) found unset called,
    fun t reachable kind i id kid mapped ok => Valid.mapFromK_of_mapToK (Reachable.valid reachable) mapped ok,
    fun t reachable kind i kid id mapped ok => Valid.mapToK_of_mapFromK (Reachable.valid reachable) mapped ok,
    fun t reachable kind i ns found m is_map => ?_⟩
  have maps_valid := Reachable.valid reachable found kind
  rcases is_map with rfl | rfl
  · exact maps_valid.fromValid.getIDMap_spec
  · exact maps_valid.toValid.getIDMap_spec

theorem idMaps_are_inverse_partial_bijections_on_one_child :
    (∃ ns', ((StepRun.run step Namespaces.empty [.newRoot, .newChild ⟨0, 0, 0xFFFFFFFFFFFFFFFF, 0⟩]).setMaps
        1 .uid [] []).namespaces[1]? = some ns' ∧ ns'.mapFromParent .uid = [] ∧ ns'.mapToParent .uid = []) ∧
      mapFromK (StepRun.run step Namespaces.empty [.newRoot, .newChild ⟨0, 0, 0xFFFFFFFFFFFFFFFF, 0⟩,
        .setUIDMap ⟨0, 0, 0xFFFFFFFFFFFFFFFF, 0⟩ 1 [⟨0, 1000, 10⟩]]) .uid 1 1005 = 5 ∧
      mapToK (StepRun.run step Namespaces.empty [.newRoot, .newChild ⟨0, 0, 0xFFFFFFFFFFFFFFFF, 0⟩,
        .setUIDMap ⟨0, 0, 0xFFFFFFFFFFFFFFFF, 0⟩ 1 [⟨0, 1000, 10⟩]]) .uid 1 5 = 1005 ∧
      (getIDMap [⟨0, 10, 1000⟩]).Pairwise (fun e f => e.firstID.toNat + e.length.toNat ≤ f.firstID.toNat) := by
  obtain ⟨failed, from_kernel, to_kernel, entries⟩ := idMaps_are_inverse_partial_bijections
  refine ⟨failed (StepRun.run step Namespaces.empty [.newRoot, .newChild ⟨0, 0, 0xFFFFFFFFFFFFFFFF, 0⟩])
      ⟨_, rfl⟩ .uid ⟨0, 0, 0xFFFFFFFFFFFFFFFF, 0⟩ 1 [⟨0, 0, 10⟩, ⟨5, 100, 1⟩] _ .EINVAL
      ⟨some 0, 0, [], [], [], []⟩ (by decide +kernel) rfl (by decide +kernel),
    from_kernel (StepRun.run step Namespaces.empty [.newRoot, .newChild ⟨0, 0, 0xFFFFFFFFFFFFFFFF, 0⟩,
      .setUIDMap ⟨0, 0, 0xFFFFFFFFFFFFFFFF, 0⟩ 1 [⟨0, 1000, 10⟩]]) ⟨_, rfl⟩ .uid 1 5 1005 (by decide +kernel) (by decide),
    to_kernel (StepRun.run step Namespaces.empty [.newRoot, .newChild ⟨0, 0, 0xFFFFFFFFFFFFFFFF, 0⟩,
      .setUIDMap ⟨0, 0, 0xFFFFFFFFFFFFFFFF, 0⟩ 1 [⟨0, 1000, 10⟩]]) ⟨_, rfl⟩ .uid 1 1005 5 (by decide +kernel) (by decide),
    (entries (StepRun.run step Namespaces.empty [.newRoot, .newChild ⟨0, 0, 0xFFFFFFFFFFFFFFFF, 0⟩,
      .setUIDMap ⟨0, 0, 0xFFFFFFFFFFFFFFFF, 0⟩ 1 [⟨0, 1000, 10⟩]]) ⟨_, rfl⟩ .uid 1
      ⟨some 0, 0, [⟨1000, 1010, 0⟩], [⟨0, 10, 1000⟩], [], []⟩ (by decide +kernel) _ (.inr rfl)).1⟩

/-- A root namespace gets its maps when it is created, so `SetUIDMap` on it
fails with `EPERM` and leaves them. -/
theorem setUIDMap_on_root_fails_and_keeps_its_maps :
    Reachable (StepRun.run step Namespaces.empty [.newRoot]) ∧
      setUIDMap (StepRun.run step Namespaces.empty [.newRoot]) ⟨0, 0, 0xFFFFFFFFFFFFFFFF, 0⟩ 0 [⟨0, 0, 1⟩] =
        some (StepRun.run step Namespaces.empty [.newRoot], some .EPERM) ∧
      (StepRun.run step Namespaces.empty [.newRoot]).namespaces[0]?.map (·.uidMapFromParent) =
        some [⟨0, 4294967295, 0⟩] :=
  ⟨⟨[.newRoot], rfl⟩, by decide +kernel, by decide +kernel⟩

end Cijitter.Auth
