import Cijitter.Tcpip.Ports
import Cijitter.Lib.Run
import Mathlib

/-! The port manager's nested maps read as a count of reservation tuples.
`count` reads the four levels and the counter's slot for the flag bits;
`WellFormed` says that no level is empty and no counter is zero, which is what
makes equal counts give equal maps (`eq_of_count`). Every call is then
specified by its effect on the count, and a run of calls by `System`, the
maps with the reservations still live in them. -/

set_option autoImplicit false

namespace Cijitter.Ports

open CountMap

namespace FlagCounter

theorem totalRefs_eq_sum (c : FlagCounter) : c.totalRefs = ∑ i, c.refs i := by
  rw [Fin.sum_univ_eight]
  simp [totalRefs, nextFlag, List.finRange_succ]

theorem totalRefs_update (c : FlagCounter) (j : Fin nextFlag) (v : Int) :
    totalRefs ⟨Function.update c.refs j v⟩ = c.totalRefs - c.refs j + v := by
  rw [totalRefs_eq_sum, totalRefs_eq_sum, Finset.sum_update_of_mem (Finset.mem_univ j),
    Finset.sdiff_singleton_eq_erase, ← Finset.add_sum_erase _ _ (Finset.mem_univ j)]
  omega

theorem totalRefs_addRef (c : FlagCounter) (flags : BitFlags) : (c.addRef flags).totalRefs = c.totalRefs + 1 := by
  rw [addRef, totalRefs_update]
  omega

theorem refs_addRef (c : FlagCounter) (flags : BitFlags) (i : Fin nextFlag) :
    (c.addRef flags).refs i = c.refs i + if i = slot flags then 1 else 0 := by
  by_cases same : i = slot flags
  · subst same
    simp [addRef]
  · simp [addRef, same]

theorem refs_dropRef (c : FlagCounter) (flags : BitFlags) (i : Fin nextFlag) :
    (c.dropRef flags).refs i = c.refs i - if i = slot flags then 1 else 0 := by
  by_cases same : i = slot flags
  · subst same
    simp [dropRef]
  · simp [dropRef, same]

/-- `FlagCounter`s that the port manager stores: no negative count, and a
positive total. -/
def WellFormed (c : FlagCounter) : Prop :=
  (∀ i, 0 ≤ c.refs i) ∧ 0 < c.totalRefs

theorem totalRefs_nonneg {c : FlagCounter} (nonneg : ∀ i, 0 ≤ c.refs i) : 0 ≤ c.totalRefs := by
  rw [totalRefs_eq_sum]
  exact Finset.sum_nonneg fun i _ => nonneg i

theorem refs_eq_zero {c : FlagCounter} (nonneg : ∀ i, 0 ≤ c.refs i) (zero : c.totalRefs = 0) (i : Fin nextFlag) :
    c.refs i = 0 := by
  rw [totalRefs_eq_sum] at zero
  exact (Finset.sum_eq_zero_iff_of_nonneg fun j _ => nonneg j).mp zero i (Finset.mem_univ i)

theorem WellFormed.exists_ne_zero {c : FlagCounter} (wf : c.WellFormed) : ∃ i, c.refs i ≠ 0 := by
  by_contra none
  simp only [not_exists, not_not] at none
  have zero : c.totalRefs = 0 := by
    rw [totalRefs_eq_sum]
    exact Finset.sum_eq_zero fun i _ => none i
  exact absurd wf.2 (by omega)

theorem ext {c c' : FlagCounter} (same : ∀ i, c.refs i = c'.refs i) : c = c' := by
  cases c
  cases c'
  congr
  funext i
  exact same i

end FlagCounter

/-- A reservation as the port manager's multiset counts it: the port
descriptor, the bound address, the device, the destination and the flag
bits. -/
abbrev Tuple := PortDescriptor × Address × NICID × Destination × Fin nextFlag

def counterCount (c : FlagCounter) (i : Fin nextFlag) : Int := c.refs i

namespace PortManager

/-- How many reservations of each tuple the maps hold: the count in its
counter, 0 where a level is missing. -/
def count (s : PortManager) : Tuple → Int :=
  mapCount (mapCount (mapCount (mapCount counterCount))) s.allocatedPorts

/-- Every bound-address, device and port map is populated and every stored
counter well formed. -/
def WellFormed (s : PortManager) : Prop :=
  AllValues (Populated (Populated (Populated FlagCounter.WellFormed))) s.allocatedPorts

def setCounter (s : PortManager) (desc : PortDescriptor) (addr : Address) (dev : NICID) (dst : Destination)
    (n : FlagCounter) : PortManager :=
  let m := (s.allocatedPorts.lookup desc).getD ∅
  let d := (m.lookup addr).getD ∅
  let p := (d.lookup dev).getD ∅
  ⟨s.allocatedPorts.insert desc (m.insert addr (d.insert dev (p.insert dst n)))⟩

variable (s : PortManager) (desc : PortDescriptor) (addr : Address) (dev : NICID) (dst : Destination)

theorem addRef_eq_setCounter (flags : BitFlags) :
    s.addRef desc addr dev dst flags = s.setCounter desc addr dev dst ((s.counterAt desc addr dev dst).addRef flags) :=
  rfl

theorem count_setCounter (n : FlagCounter) (desc' : PortDescriptor) (addr' : Address) (dev' : NICID)
    (dst' : Destination) (i : Fin nextFlag) :
    (s.setCounter desc addr dev dst n).count (desc', addr', dev', dst', i) =
      if desc' = desc ∧ addr' = addr ∧ dev' = dev ∧ dst' = dst then n.refs i
      else s.count (desc', addr', dev', dst', i) := by
  simp only [count, setCounter, mapCount_insert]
  by_cases h1 : desc' = desc <;> by_cases h2 : addr' = addr <;> by_cases h3 : dev' = dev <;>
    by_cases h4 : dst' = dst <;> simp [h1, h2, h3, h4, mapCount_getD_empty, counterCount]

theorem count_counterAt (i : Fin nextFlag) :
    (s.counterAt desc addr dev dst).refs i = s.count (desc, addr, dev, dst, i) := by
  simp only [counterAt, count]
  rw [← mapCount_getD_empty, ← mapCount_getD_empty, ← mapCount_getD_empty]
  have zero : ∀ t, counterCount FlagCounter.zero t = 0 := fun _ => rfl
  exact count_lookup_getD zero _ dst i

variable {s}

theorem count_nonneg (wf : s.WellFormed) (t : Tuple) : 0 ≤ s.count t :=
  mapCount_nonneg (fun _ bound => mapCount_nonneg (fun _ device => mapCount_nonneg
    (fun _ port => mapCount_nonneg (fun _ good => good.1) port.2) device.2) bound.2) wf t

theorem count_setCounter_update (j : Fin nextFlag) (v : Int) (t : Tuple) :
    (s.setCounter desc addr dev dst ⟨Function.update (s.counterAt desc addr dev dst).refs j v⟩).count t =
      if t = (desc, addr, dev, dst, j) then v else s.count t := by
  obtain ⟨desc', addr', dev', dst', i⟩ := t
  rw [count_setCounter]
  by_cases path : desc' = desc ∧ addr' = addr ∧ dev' = dev ∧ dst' = dst
  · obtain ⟨rfl, rfl, rfl, rfl⟩ := path
    by_cases same : i = j
    · subst same
      simp
    · simp [count_counterAt, same]
  · have other : (desc', addr', dev', dst', i) ≠ (desc, addr, dev, dst, j) := by
      intro same
      simp only [Prod.mk.injEq] at same
      exact path ⟨same.1, same.2.1, same.2.2.1, same.2.2.2.1⟩
    rw [if_neg path, if_neg other]

theorem count_addRef (flags : BitFlags) (t : Tuple) :
    (s.addRef desc addr dev dst flags).count t =
      s.count t + if t = (desc, addr, dev, dst, slot flags) then 1 else 0 := by
  rw [addRef_eq_setCounter, FlagCounter.addRef, count_setCounter_update]
  split
  · subst_vars
    rw [count_counterAt]
  · rw [Int.add_zero]

theorem wellFormed_setCounter (wf : s.WellFormed) {n : FlagCounter} (good : n.WellFormed) :
    (s.setCounter desc addr dev dst n).WellFormed :=
  wf.insert (Populated.insert (wf.getD desc) (Populated.insert ((wf.getD desc).getD addr)
    (Populated.insert (((wf.getD desc).getD addr).getD dev) good dst) dev) addr) desc

theorem wellFormed_addRef (wf : s.WellFormed) (flags : BitFlags) :
    (s.addRef desc addr dev dst flags).WellFormed := by
  have nonneg : ∀ i, 0 ≤ (s.counterAt desc addr dev dst).refs i := fun i => by
    rw [count_counterAt]
    exact count_nonneg wf _
  rw [addRef_eq_setCounter]
  refine wellFormed_setCounter desc addr dev dst wf ⟨fun i => ?_, ?_⟩
  · rw [FlagCounter.refs_addRef]
    have := nonneg i
    split <;> omega
  · rw [FlagCounter.totalRefs_addRef]
    have := FlagCounter.totalRefs_nonneg nonneg
    omega

theorem exists_path_of_count {flags : BitFlags} (held : 1 ≤ s.count (desc, addr, dev, dst, slot flags)) :
    ∃ m d p n, s.allocatedPorts.lookup desc = some m ∧ m.lookup addr = some d ∧ d.lookup dev = some p ∧
      p.lookup dst = some n ∧ s.count (desc, addr, dev, dst, slot flags) = n.refs (slot flags) := by
  simp only [count, mapCount_lookup] at held ⊢
  cases hm : s.allocatedPorts.lookup desc with
  | none => simp [hm] at held
  | some m =>
    cases hd : m.lookup addr with
    | none => simp [hm, hd] at held
    | some d =>
      cases hp : d.lookup dev with
      | none => simp [hm, hd, hp] at held
      | some p =>
        cases hn : p.lookup dst with
        | none => simp [hm, hd, hp, hn] at held
        | some n => exact ⟨m, d, p, n, rfl, hd, hp, hn, by simp [hd, hp, hn, counterCount]⟩

theorem dropRef_eq_setCounter (wf : s.WellFormed) {flags : BitFlags}
    (held : 1 ≤ s.count (desc, addr, dev, dst, slot flags)) :
    (s.dropRef desc addr dev dst flags).count =
        (s.setCounter desc addr dev dst ((s.counterAt desc addr dev dst).dropRef flags)).count ∧
      (s.dropRef desc addr dev dst flags).WellFormed := by
  obtain ⟨m, d, p, n, hm, hd, hp, hn, counted⟩ := exists_path_of_count desc addr dev dst held
  have wfm := wf desc m hm
  have wfd := wfm.2 addr d hd
  have wfp := wfd.2 dev p hp
  have wfn : n.WellFormed := wfp.2 dst n hn
  have at_n : s.counterAt desc addr dev dst = n := by simp [counterAt, hm, hd, hp, hn]
  have nonneg : ∀ i, 0 ≤ (n.dropRef flags).refs i := fun i => by
    rw [FlagCounter.refs_dropRef]
    have := wfn.1 i
    split
    · subst_vars
      omega
    · omega
  -- Each pruned level is the same count as the level holding the emptied one.
  have c1 : ¬ (n.dropRef flags).totalRefs > 0 →
      mapCount counterCount (p.erase dst) = mapCount counterCount (p.insert dst (n.dropRef flags)) := fun empty =>
    mapCount_erase_eq_insert (FlagCounter.refs_eq_zero nonneg
      (by have := FlagCounter.totalRefs_nonneg nonneg; omega)) p dst
  have c2 : ¬ (p.erase dst).keys.card > 0 → ¬ (n.dropRef flags).totalRefs > 0 →
      mapCount (mapCount counterCount) (d.erase dev) =
        mapCount (mapCount counterCount) (d.insert dev (p.insert dst (n.dropRef flags))) := fun empty zero => by
    have none : (p.erase dst).keys.card = 0 := by omega
    rw [mapCount_erase_eq_insert (fun t => mapCount_of_card_zero none t) d dev]
    exact mapCount_insert_congr (c1 zero) d dev
  have c3 : ¬ (d.erase dev).keys.card > 0 → ¬ (p.erase dst).keys.card > 0 → ¬ (n.dropRef flags).totalRefs > 0 →
      mapCount (mapCount (mapCount counterCount)) (m.erase addr) =
        mapCount (mapCount (mapCount counterCount))
          (m.insert addr (d.insert dev (p.insert dst (n.dropRef flags)))) := fun empty pEmpty zero => by
    have none : (d.erase dev).keys.card = 0 := by omega
    rw [mapCount_erase_eq_insert (fun t => mapCount_of_card_zero none t) m addr]
    exact mapCount_insert_congr (c2 pEmpty zero) m addr
  simp only [at_n, setCounter, hm, hd, hp, Option.getD_some, dropRef, hn]
  split_ifs with h1 h2 h3 h4
  · refine ⟨rfl, ?_⟩
    have := wellFormed_setCounter desc addr dev dst wf (show (n.dropRef flags).WellFormed from ⟨nonneg, h1⟩)
    simpa [setCounter, hm, hd, hp] using this
  · exact ⟨mapCount_insert_congr (mapCount_insert_congr (mapCount_insert_congr (c1 h1) d dev) m addr) _ desc,
      wf.insert (Populated.insert wfm.2 (Populated.insert wfd.2 ⟨h2, wfp.2.erase dst⟩ dev) addr) desc⟩
  · exact ⟨mapCount_insert_congr (mapCount_insert_congr (c2 h2 h1) m addr) _ desc,
      wf.insert (Populated.insert wfm.2 ⟨h3, wfd.2.erase dev⟩ addr) desc⟩
  · exact ⟨mapCount_insert_congr (c3 h3 h2 h1) _ desc, wf.insert ⟨h4, wfm.2.erase addr⟩ desc⟩
  · have none : (m.erase addr).keys.card = 0 := by omega
    refine ⟨?_, wf.erase desc⟩
    show mapCount _ (s.allocatedPorts.erase desc) = _
    rw [mapCount_erase_eq_insert (fun t => mapCount_of_card_zero none t) _ desc]
    exact mapCount_insert_congr (c3 h3 h2 h1) _ desc

theorem count_dropRef (wf : s.WellFormed) {flags : BitFlags} (held : 1 ≤ s.count (desc, addr, dev, dst, slot flags))
    (t : Tuple) :
    (s.dropRef desc addr dev dst flags).count t =
      s.count t - if t = (desc, addr, dev, dst, slot flags) then 1 else 0 := by
  rw [(dropRef_eq_setCounter desc addr dev dst wf held).1, FlagCounter.dropRef, count_setCounter_update]
  split
  · subst_vars
    rw [count_counterAt]
  · rw [Int.sub_zero]

theorem eq_of_count {s' : PortManager} (wf : s.WellFormed) (wf' : s'.WellFormed)
    (same : ∀ t, s.count t = s'.count t) : s = s' := by
  have counts1 : ∀ c : FlagCounter, c.WellFormed → ∃ i, counterCount c i ≠ 0 := fun _ good =>
    good.exists_ne_zero
  have ext1 : ∀ c c' : FlagCounter, c.WellFormed → c'.WellFormed →
      (∀ i, counterCount c i = counterCount c' i) → c = c' := fun _ _ _ _ agree => FlagCounter.ext agree
  have counts2 : ∀ p : PortNode, Populated FlagCounter.WellFormed p → ∃ x, mapCount counterCount p x ≠ 0 :=
    fun _ good => exists_mapCount_ne_zero counts1 good
  have ext2 : ∀ p p' : PortNode, Populated FlagCounter.WellFormed p → Populated FlagCounter.WellFormed p' →
      (∀ x, mapCount counterCount p x = mapCount counterCount p' x) → p = p' :=
    fun _ _ good good' agree => eq_of_mapCount_populated counts1 ext1 good good' agree
  have counts3 : ∀ d : DeviceNode, Populated (Populated FlagCounter.WellFormed) d →
      ∃ x, mapCount (mapCount counterCount) d x ≠ 0 :=
    fun _ good => exists_mapCount_ne_zero counts2 good
  have ext3 : ∀ d d' : DeviceNode, Populated (Populated FlagCounter.WellFormed) d →
      Populated (Populated FlagCounter.WellFormed) d' →
      (∀ x, mapCount (mapCount counterCount) d x = mapCount (mapCount counterCount) d' x) → d = d' :=
    fun _ _ good good' agree => eq_of_mapCount_populated counts2 ext2 good good' agree
  have counts4 : ∀ b : BindAddresses, Populated (Populated (Populated FlagCounter.WellFormed)) b →
      ∃ x, mapCount (mapCount (mapCount counterCount)) b x ≠ 0 :=
    fun _ good => exists_mapCount_ne_zero counts3 good
  have ext4 : ∀ b b' : BindAddresses, Populated (Populated (Populated FlagCounter.WellFormed)) b →
      Populated (Populated (Populated FlagCounter.WellFormed)) b' →
      (∀ x, mapCount (mapCount (mapCount counterCount)) b x = mapCount (mapCount (mapCount counterCount)) b' x) →
      b = b' :=
    fun _ _ good good' agree => eq_of_mapCount_populated counts3 ext3 good good' agree
  cases s
  cases s'
  congr
  exact eq_of_mapCount counts4 ext4 wf wf' same

/-- The tuples one call reserves or releases: one for each listed network. -/
def tuplesOf (networks : List NetworkProtocolNumber) (transport : TransportProtocolNumber) (addr : Address)
    (port : UInt16) (dev : NICID) (dst : Destination) (flags : BitFlags) : List Tuple :=
  networks.map fun network => (⟨network, transport, port⟩, addr, dev, dst, slot flags)

section Networks

variable (transport : TransportProtocolNumber) (port : UInt16) (flags : BitFlags)

theorem count_tuplesOf_cons (network : NetworkProtocolNumber) (rest : List NetworkProtocolNumber) (t : Tuple) :
    ((tuplesOf (network :: rest) transport addr port dev dst flags).count t : Int) =
      (tuplesOf rest transport addr port dev dst flags).count t +
        if t = (⟨network, transport, port⟩, addr, dev, dst, slot flags) then 1 else 0 := by
  simp only [tuplesOf, List.map_cons, List.count_cons, beq_iff_eq, Nat.cast_add]
  by_cases same : t = (⟨network, transport, port⟩, addr, dev, dst, slot flags)
  · rw [if_pos same.symm, if_pos same, Nat.cast_one]
  · rw [if_neg (Ne.symm same), if_neg same, Nat.cast_zero]

theorem count_foldl_addRef (networks : List NetworkProtocolNumber) (s : PortManager) (t : Tuple) :
    (networks.foldl (fun s network => s.addRef ⟨network, transport, port⟩ addr dev dst flags) s).count t =
      s.count t + (tuplesOf networks transport addr port dev dst flags).count t := by
  induction networks generalizing s with
  | nil => simp [tuplesOf]
  | cons network rest ih =>
    rw [List.foldl_cons, ih, count_addRef, count_tuplesOf_cons]
    omega

theorem wellFormed_foldl_addRef (networks : List NetworkProtocolNumber) {s : PortManager} (wf : s.WellFormed) :
    (networks.foldl (fun s network => s.addRef ⟨network, transport, port⟩ addr dev dst flags) s).WellFormed := by
  induction networks generalizing s with
  | nil => exact wf
  | cons network rest ih => exact ih (wellFormed_addRef _ _ _ _ wf flags)

theorem foldl_dropRef (networks : List NetworkProtocolNumber) {s : PortManager} (wf : s.WellFormed)
    (held : ∀ t, ((tuplesOf networks transport addr port dev dst flags).count t : Int) ≤ s.count t) :
    (networks.foldl (fun s network => s.dropRef ⟨network, transport, port⟩ addr dev dst flags) s).WellFormed ∧
      ∀ t, (networks.foldl (fun s network => s.dropRef ⟨network, transport, port⟩ addr dev dst flags) s).count t =
        s.count t - (tuplesOf networks transport addr port dev dst flags).count t := by
  induction networks generalizing s with
  | nil => simp [tuplesOf, wf]
  | cons network rest ih =>
    have first : 1 ≤ s.count (⟨network, transport, port⟩, addr, dev, dst, slot flags) := by
      have := held (⟨network, transport, port⟩, addr, dev, dst, slot flags)
      rw [count_tuplesOf_cons, if_pos rfl] at this
      omega
    have counted := count_dropRef _ addr dev dst wf first
    have rest_held : ∀ t, ((tuplesOf rest transport addr port dev dst flags).count t : Int) ≤
        (s.dropRef ⟨network, transport, port⟩ addr dev dst flags).count t := fun t => by
      have := held t
      rw [count_tuplesOf_cons] at this
      rw [counted t]
      by_cases same : t = (⟨network, transport, port⟩, addr, dev, dst, slot flags)
      · rw [if_pos same] at this ⊢
        omega
      · rw [if_neg same] at this ⊢
        omega
    obtain ⟨wfRest, countRest⟩ := ih ((dropRef_eq_setCounter _ addr dev dst wf first).2) rest_held
    refine ⟨wfRest, fun t => ?_⟩
    rw [List.foldl_cons, countRest, counted, count_tuplesOf_cons]
    omega

end Networks

section Calls

variable (networks : List NetworkProtocolNumber) (transport : TransportProtocolNumber) (port : UInt16)
  (flags : Flags)

theorem reserveSpecificPort_spec :
    ((s.reserveSpecificPort networks transport addr port flags dev dst).2 = false →
        (s.reserveSpecificPort networks transport addr port flags dev dst).1 = s) ∧
      ((s.reserveSpecificPort networks transport addr port flags dev dst).2 = true →
        (s.reserveSpecificPort networks transport addr port flags dev dst).1 =
          networks.foldl (fun s network => s.addRef ⟨network, transport, port⟩ addr dev dst flags.bits) s) := by
  unfold reserveSpecificPort
  split <;> simp

end Calls

end PortManager

theorem pickEphemeralPortLoop_spec {σ : Type} {testPort : σ → UInt16 → σ × Except PortError Bool}
    (keeps : ∀ s p s', testPort s p = (s', .ok false) → s' = s)
    (neverFails : ∀ s p s' err, testPort s p ≠ (s', .error err)) (offset count : Nat) :
    ∀ (offsets : List Nat) (s : σ),
      (∀ s' err, PortManager.pickEphemeralPortLoop offset count testPort offsets s = (s', .error err) → s' = s) ∧
      (∀ s' port, PortManager.pickEphemeralPortLoop offset count testPort offsets s = (s', .ok port) →
        testPort s port = (s', .ok true))
  | [], _ => ⟨fun _ _ returned => by cases returned; rfl, fun _ _ returned => by cases returned⟩
  | i :: rest, s => by
    have ih := pickEphemeralPortLoop_spec keeps neverFails offset count rest s
    unfold PortManager.pickEphemeralPortLoop
    dsimp only
    rcases tested : testPort s (firstEphemeral + (offset + i) % count).toUInt16 with ⟨s', result⟩
    cases result with
    | error err => exact absurd tested (neverFails _ _ _ _)
    | ok accepted =>
      cases accepted with
      | true =>
        refine ⟨fun _ _ returned => (by cases returned), fun _ _ returned => ?_⟩
        cases returned
        exact tested
      | false =>
        rw [keeps _ _ _ tested]
        exact ih

namespace PortManager

variable {s : PortManager} {networks : List NetworkProtocolNumber} {transport : TransportProtocolNumber}
  {addr : Address} {port : UInt16} {flags : Flags} {dev : NICID} {dest : FullAddress}

theorem reservePort_test_spec (s₀ : PortManager) (p : UInt16) (s₁ : PortManager) (result : Except PortError Bool)
    (tested : (match s₀.reserveSpecificPort networks transport addr p flags dev (makeDestination dest) with
      | (s, ok) => (s, (.ok ok : Except PortError Bool))) = (s₁, result)) :
    ∃ ok, result = .ok ok ∧ (ok = false → s₁ = s₀) ∧
      (ok = true → s₁ = networks.foldl
        (fun s network => s.addRef ⟨network, transport, p⟩ addr dev (makeDestination dest) flags.bits) s₀) := by
  obtain ⟨refused, reserved⟩ := @reserveSpecificPort_spec s₀ addr dev (makeDestination dest) networks transport p flags
  rcases specific : s₀.reserveSpecificPort networks transport addr p flags dev (makeDestination dest) with ⟨s₂, ok⟩
  rw [specific] at tested refused reserved
  simp only [Prod.mk.injEq] at tested
  obtain ⟨rfl, rfl⟩ := tested
  exact ⟨ok, rfl, refused, reserved⟩

theorem reservePort_error {offset : Nat} {s' : PortManager} {err : PortError}
    (returned : s.reservePort networks transport addr port flags dev dest offset = (s', .error err)) : s' = s := by
  unfold reservePort at returned
  dsimp only at returned
  split at returned
  · obtain ⟨refused, _⟩ := @reserveSpecificPort_spec s addr dev (makeDestination dest) networks transport port flags
    rcases specific : s.reserveSpecificPort networks transport addr port flags dev (makeDestination dest)
      with ⟨s₂, ok⟩
    rw [specific] at returned refused
    cases ok with
    | false =>
      cases returned
      exact refused rfl
    | true => cases returned
  · refine (pickEphemeralPortLoop_spec (fun s₀ p s₁ tested => ?_) (fun s₀ p s₁ err tested => ?_) _ _ _ s).1
      _ _ returned
    · obtain ⟨ok, same, refused, _⟩ := reservePort_test_spec s₀ p s₁ _ tested
      cases same
      exact refused rfl
    · obtain ⟨ok, same, _, _⟩ := reservePort_test_spec s₀ p s₁ _ tested
      cases same

theorem reservePort_ok {offset : Nat} {s' : PortManager} {reserved : UInt16}
    (returned : s.reservePort networks transport addr port flags dev dest offset = (s', .ok reserved)) :
    s' = networks.foldl
      (fun s network => s.addRef ⟨network, transport, reserved⟩ addr dev (makeDestination dest) flags.bits) s := by
  unfold reservePort at returned
  dsimp only at returned
  split at returned
  · obtain ⟨_, accepted⟩ := @reserveSpecificPort_spec s addr dev (makeDestination dest) networks transport port flags
    rcases specific : s.reserveSpecificPort networks transport addr port flags dev (makeDestination dest)
      with ⟨s₂, ok⟩
    rw [specific] at returned accepted
    cases ok with
    | false => cases returned
    | true =>
      cases returned
      exact accepted rfl
  · have tested := (pickEphemeralPortLoop_spec (fun s₀ p s₁ tested => ?_) (fun s₀ p s₁ err tested => ?_) _ _ _ s).2
      _ _ returned
    · obtain ⟨ok, same, _, accepted⟩ := reservePort_test_spec s reserved s' _ tested
      cases same
      exact accepted rfl
    · obtain ⟨ok, same, refused, _⟩ := reservePort_test_spec s₀ p s₁ _ tested
      cases same
      exact refused rfl
    · obtain ⟨ok, same, _, _⟩ := reservePort_test_spec s₀ p s₁ _ tested
      cases same

theorem reserveTuple_loop_fst (flagBits : BitFlags) (dst : Destination) :
    ∀ (networks : List NetworkProtocolNumber) (init : PortManager × Bool),
      (networks.foldl (fun (s, undo) network =>
        let desc : PortDescriptor := ⟨network, transport, port⟩
        let n := s.counterAt desc addr dev dst
        (s.addRef desc addr dev dst flagBits,
          undo || (n.totalRefs ≠ 0 && n.intersectionRefs &&& flagBits == 0))) init).1 =
        networks.foldl (fun s network => s.addRef ⟨network, transport, port⟩ addr dev dst flagBits) init.1
  | [], _ => rfl
  | _ :: rest, _ => reserveTuple_loop_fst flagBits dst rest _

theorem releasePortLocked_foldl_addRef (wf : s.WellFormed) (flagBits : BitFlags) (dst : Destination) :
    (networks.foldl (fun s network => s.addRef ⟨network, transport, port⟩ addr dev dst flagBits) s).releasePortLocked
      networks transport addr port flagBits dev dst = s := by
  have wfAdded := wellFormed_foldl_addRef addr dev dst transport port flagBits networks wf
  have added := count_foldl_addRef addr dev dst transport port flagBits networks s
  obtain ⟨wfReleased, released⟩ := foldl_dropRef addr dev dst transport port flagBits networks wfAdded
    (fun t => by rw [added]; have := count_nonneg wf t; omega)
  exact eq_of_count wfReleased wf fun t => by rw [releasePortLocked, released, added]; omega

theorem reserveTuple_spec (wf : s.WellFormed) :
    ((s.reserveTuple networks transport addr port flags dev dest).2 = true →
        (s.reserveTuple networks transport addr port flags dev dest).1 =
          networks.foldl (fun s network =>
            s.addRef ⟨network, transport, port⟩ addr dev (makeDestination dest) flags.bits) s) ∧
      ((s.reserveTuple networks transport addr port flags dev dest).2 = false →
        (s.reserveTuple networks transport addr port flags dev dest).1 = s) := by
  have fst := @reserveTuple_loop_fst transport addr port dev flags.bits (makeDestination dest) networks (s, false)
  unfold reserveTuple
  dsimp only at fst ⊢
  generalize List.foldl _ (s, false) networks = looped at fst ⊢
  obtain ⟨reserved, undo⟩ := looped
  dsimp only at fst
  subst fst
  cases undo with
  | false => exact ⟨fun _ => rfl, fun refused => (by cases refused)⟩
  | true => exact ⟨fun accepted => (by cases accepted), fun _ => releasePortLocked_foldl_addRef wf _ _⟩

end PortManager

/-! ### The maps as a multiset of reservations -/

/-- The arguments of one reservation call, which `ReleasePort` repeats. -/
structure Request where
  networks : List NetworkProtocolNumber
  transport : TransportProtocolNumber
  addr : Address
  port : UInt16
  flags : Flags
  bindToDevice : NICID
  dest : FullAddress

def Request.tuples (r : Request) (port : UInt16) : List Tuple :=
  PortManager.tuplesOf r.networks r.transport r.addr port r.bindToDevice (makeDestination r.dest) r.flags.bits

/-- A call on the port manager. A release names a live reservation by its
place in `System.live`, and so repeats its arguments and returned port. -/
inductive Action
  | reservePort (request : Request) (offset : Nat)
  | reserveTuple (request : Request)
  | releasePort (index : Nat)

structure System where
  ports : PortManager
  live : List (Request × UInt16)

namespace System

def initial : System := ⟨newPortManager, []⟩

def step (sys : System) : Action → System
  | .reservePort r offset =>
    match sys.ports.reservePort r.networks r.transport r.addr r.port r.flags r.bindToDevice r.dest offset with
    | (ports, .ok port) => ⟨ports, (r, port) :: sys.live⟩
    | (ports, .error _) => ⟨ports, sys.live⟩
  | .reserveTuple r =>
    match sys.ports.reserveTuple r.networks r.transport r.addr r.port r.flags r.bindToDevice r.dest with
    | (ports, true) => ⟨ports, (r, r.port) :: sys.live⟩
    | (ports, false) => ⟨ports, sys.live⟩
  | .releasePort index =>
    match sys.live[index]? with
    | some (r, port) =>
      ⟨sys.ports.releasePort r.networks r.transport r.addr port r.flags r.bindToDevice r.dest,
        sys.live.eraseIdx index⟩
    | none => sys

/-- The abstract state: the tuples of every live reservation. -/
def reservations (sys : System) : Multiset Tuple :=
  (sys.live.flatMap fun (r, port) => r.tuples port : List Tuple)

theorem reservations_cons (ports : PortManager) (r : Request) (port : UInt16) (live : List (Request × UInt16)) :
    (⟨ports, (r, port) :: live⟩ : System).reservations = ↑(r.tuples port) + (⟨ports, live⟩ : System).reservations := by
  rw [reservations, reservations, List.flatMap_cons, Multiset.coe_add]

theorem reservations_eraseIdx (sys : System) {index : Nat} {r : Request} {port : UInt16}
    (named : sys.live[index]? = some (r, port)) :
    sys.reservations = ↑(r.tuples port) + (⟨sys.ports, sys.live.eraseIdx index⟩ : System).reservations := by
  obtain ⟨bound, named⟩ := List.getElem?_eq_some_iff.mp named
  have moved := (List.getElem_cons_eraseIdx_perm bound).flatMap_right fun ((r, port) : Request × UInt16) =>
    r.tuples port
  rw [named] at moved
  rw [reservations, reservations, Multiset.coe_add, Multiset.coe_eq_coe]
  exact moved.symm

end System

theorem count_coe_tuples (t : Tuple) (ts : List Tuple) : Multiset.count t (ts : Multiset Tuple) = ts.count t := by
  rw [Multiset.coe_count]
  -- `Multiset.count` compares with the `BEq` of `DecidableEq`, `List.count` on
  -- tuples with the product's; both are lawful
  congr
  exact lawful_beq_subsingleton _ _

namespace PortManager

/-- The maps are well formed and hold each tuple exactly as often as `M`. -/
def Represents (s : PortManager) (M : Multiset Tuple) : Prop :=
  s.WellFormed ∧ ∀ t, s.count t = M.count t

variable {s : PortManager} {M : Multiset Tuple} (r : Request)

theorem Represents.reserve (rep : s.Represents M) (port : UInt16) :
    (r.networks.foldl (fun s network =>
      s.addRef ⟨network, r.transport, port⟩ r.addr r.bindToDevice (makeDestination r.dest) r.flags.bits) s).Represents
      (M + r.tuples port) := by
  refine ⟨wellFormed_foldl_addRef _ _ _ _ _ _ _ rep.1, fun t => ?_⟩
  rw [count_foldl_addRef, rep.2, Multiset.count_add, count_coe_tuples, Request.tuples, Nat.cast_add]

theorem Represents.release {port : UInt16} (rep : s.Represents (M + r.tuples port)) :
    (s.releasePort r.networks r.transport r.addr port r.flags r.bindToDevice r.dest).Represents M := by
  have held : ∀ t, ((r.tuples port).count t : Int) ≤ s.count t := fun t => by
    rw [rep.2, Multiset.count_add, count_coe_tuples]
    omega
  obtain ⟨wf, released⟩ := foldl_dropRef _ _ _ _ _ _ _ rep.1 held
  refine ⟨wf, fun t => ?_⟩
  rw [releasePort, releasePortLocked, released, rep.2, Multiset.count_add, count_coe_tuples, Request.tuples]
  omega

variable {ports : PortManager}

theorem reservePort_represents {offset : Nat} {port : UInt16} (rep : s.Represents M)
    (called : s.reservePort r.networks r.transport r.addr r.port r.flags r.bindToDevice r.dest offset =
      (ports, .ok port)) :
    ports.Represents (M + r.tuples port) ∧
      ports.releasePort r.networks r.transport r.addr port r.flags r.bindToDevice r.dest = s := by
  rw [reservePort_ok called]
  exact ⟨rep.reserve r port, releasePortLocked_foldl_addRef rep.1 _ _⟩

theorem reserveTuple_represents (rep : s.Represents M)
    (called : s.reserveTuple r.networks r.transport r.addr r.port r.flags r.bindToDevice r.dest = (ports, true)) :
    ports.Represents (M + r.tuples r.port) ∧
      ports.releasePort r.networks r.transport r.addr r.port r.flags r.bindToDevice r.dest = s := by
  have accepted := (@reserveTuple_spec s r.networks r.transport r.addr r.port r.flags r.bindToDevice r.dest rep.1).1
  rw [called] at accepted
  obtain rfl : ports = _ := accepted rfl
  exact ⟨rep.reserve r r.port, releasePortLocked_foldl_addRef rep.1 _ _⟩

theorem reserveTuple_refused (rep : s.Represents M)
    (called : s.reserveTuple r.networks r.transport r.addr r.port r.flags r.bindToDevice r.dest = (ports, false)) :
    ports = s := by
  have refused := (@reserveTuple_spec s r.networks r.transport r.addr r.port r.flags r.bindToDevice r.dest rep.1).2
  rw [called] at refused
  exact refused rfl

end PortManager

namespace System

open PortManager

theorem represents_initial : initial.ports.Represents initial.reservations :=
  ⟨fun _ _ found => by simp [initial, newPortManager] at found, fun _ => by simp [initial, newPortManager, count, reservations]⟩

theorem represents_step {sys : System} (rep : sys.ports.Represents sys.reservations) (action : Action) :
    (sys.step action).ports.Represents (sys.step action).reservations := by
  cases action with
  | reservePort r offset =>
    rcases called : sys.ports.reservePort r.networks r.transport r.addr r.port r.flags r.bindToDevice r.dest offset
      with ⟨ports, result⟩
    cases result with
    | error err =>
      simp only [step, called]
      rw [reservePort_error called]
      exact rep
    | ok port =>
      simp only [step, called]
      rw [reservations_cons, add_comm]
      exact (reservePort_represents r rep called).1
  | reserveTuple r =>
    rcases called : sys.ports.reserveTuple r.networks r.transport r.addr r.port r.flags r.bindToDevice r.dest
      with ⟨ports, ok⟩
    cases ok with
    | false =>
      simp only [step, called]
      rw [reserveTuple_refused r rep called]
      exact rep
    | true =>
      simp only [step, called]
      rw [reservations_cons, add_comm]
      exact (reserveTuple_represents r rep called).1
  | releasePort index =>
    rcases named : sys.live[index]? with _ | ⟨r, port⟩
    · simp only [step, named]
      exact rep
    · simp only [step, named]
      rw [reservations_eraseIdx sys named, add_comm] at rep
      exact rep.release r

theorem represents_run (actions : List Action) :
    (StepRun.run step initial actions).ports.Represents (StepRun.run step initial actions).reservations :=
  StepRun.run_invariant (fun sys : System => sys.ports.Represents sys.reservations)
    (fun _ action rep => represents_step rep action) represents_initial actions

/-- Along every run of calls, each release repeating the arguments and port
of a live reservation, the maps count exactly the live reservations, with
every level populated and every counter positive. A failed call leaves the
maps as they are; a successful one adds one tuple for each network, at the
port it returns, and releasing with the same arguments takes exactly those
away again. -/
theorem ports_refine_reservations (actions : List Action) :
    let sys := StepRun.run step initial actions
    sys.ports.Represents sys.reservations ∧
      (∀ (r : Request) (offset : Nat) (ports : PortManager) (err : PortError),
        sys.ports.reservePort r.networks r.transport r.addr r.port r.flags r.bindToDevice r.dest offset =
          (ports, .error err) → ports = sys.ports) ∧
      (∀ (r : Request) (ports : PortManager),
        sys.ports.reserveTuple r.networks r.transport r.addr r.port r.flags r.bindToDevice r.dest = (ports, false) →
          ports = sys.ports) ∧
      (∀ (r : Request) (offset : Nat) (ports : PortManager) (port : UInt16),
        sys.ports.reservePort r.networks r.transport r.addr r.port r.flags r.bindToDevice r.dest offset =
            (ports, .ok port) →
          ports.Represents (sys.reservations + r.tuples port) ∧
            ports.releasePort r.networks r.transport r.addr port r.flags r.bindToDevice r.dest = sys.ports) ∧
      (∀ (r : Request) (ports : PortManager),
        sys.ports.reserveTuple r.networks r.transport r.addr r.port r.flags r.bindToDevice r.dest = (ports, true) →
          ports.Represents (sys.reservations + r.tuples r.port) ∧
            ports.releasePort r.networks r.transport r.addr r.port r.flags r.bindToDevice r.dest = sys.ports) ∧
      (∀ (index : Nat) (r : Request) (port : UInt16), sys.live[index]? = some (r, port) →
        (sys.ports.releasePort r.networks r.transport r.addr port r.flags r.bindToDevice r.dest).Represents
          (sys.reservations - r.tuples port)) := by
  intro sys
  have rep : sys.ports.Represents sys.reservations := represents_run actions
  refine ⟨rep, fun _ _ _ _ called => reservePort_error called, fun r _ called => reserveTuple_refused r rep called,
    fun r _ _ _ called => reservePort_represents r rep called, fun r _ called => reserveTuple_represents r rep called,
    fun index r port named => ?_⟩
  -- the released reservation's tuples are one summand of the live multiset
  have split := reservations_eraseIdx sys named
  rw [split, add_comm] at rep
  rw [split, add_tsub_cancel_left]
  exact rep.release r

theorem reserve_release_fresh_port :
    (newPortManager.reservePort [2048] 6 "10.0.0.1" 80 ⟨false, false, false⟩ 0 ⟨0, "", 0⟩ 0).2 = .ok 80 ∧
      (newPortManager.reservePort [2048] 6 "10.0.0.1" 80 ⟨false, false, false⟩ 0 ⟨0, "", 0⟩ 0).1.releasePort
        [2048] 6 "10.0.0.1" 80 ⟨false, false, false⟩ 0 ⟨0, "", 0⟩ = newPortManager :=
  ⟨by decide, ((ports_refine_reservations []).2.2.2.1 ⟨[2048], 6, "10.0.0.1", 80, ⟨false, false, false⟩, 0, ⟨0, "", 0⟩⟩
    0 _ 80 (Prod.ext rfl (by decide))).2⟩

end System

end Cijitter.Ports
