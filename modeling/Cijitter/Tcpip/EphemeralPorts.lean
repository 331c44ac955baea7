import Cijitter.Tcpip.Ports
import Mathlib

/-! The ports `pickEphemeralPort` tries. Turn `i` tries `FirstEphemeral +
(offset+i)%count` with the sum taken in `uint32`. As long as `offset + count`
stays within `2 ^ 32` the turns run through the ephemeral range once each,
rotated to start at `offset % count`, and the search is exhaustive. When the
sum wraps inside the loop the turns after the wrap restart at
`FirstEphemeral`; `2 ^ 32` is not a multiple of `numEphemeralPorts`, so some
ports are then tried twice and others never. -/

set_option autoImplicit false

namespace Cijitter.Ports

namespace PortManager

variable {σ : Type} {testPort : σ → UInt16 → σ × Except PortError Bool}

/-! ### The loop over the candidate ports -/

theorem tryPorts_of_refused {s : σ} :
    ∀ {ports : List UInt16}, (∀ p ∈ ports, testPort s p = (s, .ok false)) →
      tryPorts testPort ports s = (s, .error .noPortAvailable)
  | [], _ => rfl
  | port :: rest, refused => by
    unfold tryPorts
    rw [refused port List.mem_cons_self]
    exact tryPorts_of_refused fun p member => refused p (List.mem_cons_of_mem port member)

theorem mem_of_tryPorts_ok :
    ∀ {ports : List UInt16} {s s' : σ} {port : UInt16}, tryPorts testPort ports s = (s', .ok port) →
      port ∈ ports ∧ ∃ s₀, testPort s₀ port = (s', .ok true)
  | [], _, _, _, returned => by cases returned
  | first :: rest, s, s', port, returned => by
    unfold tryPorts at returned
    rcases tested : testPort s first with ⟨s₁, result⟩
    rw [tested] at returned
    rcases result with err | _ | _
    · cases returned
    · obtain ⟨member, s₀, accepted⟩ := mem_of_tryPorts_ok returned
      exact ⟨List.mem_cons_of_mem first member, s₀, accepted⟩
    · cases returned
      exact ⟨List.mem_cons_self, s, tested⟩

section Keeping

-- A test that refuses a port leaves the state as it was, and no test fails:
-- `ReservePort`'s test is one.
variable (keeps : ∀ s p s', testPort s p = (s', .ok false) → s' = s)
  (neverFails : ∀ s p s' err, testPort s p ≠ (s', .error err))
include keeps neverFails

theorem refused_of_tryPorts_error :
    ∀ {ports : List UInt16} {s s' : σ} {err : PortError}, tryPorts testPort ports s = (s', .error err) →
      err = .noPortAvailable ∧ s' = s ∧ ∀ p ∈ ports, testPort s p = (s, .ok false)
  | [], _, _, _, returned => by
    cases returned
    exact ⟨rfl, rfl, fun _ member => absurd member List.not_mem_nil⟩
  | first :: rest, s, s', err, returned => by
    unfold tryPorts at returned
    rcases tested : testPort s first with ⟨s₁, result⟩
    rw [tested] at returned
    rcases result with err' | _ | _
    · exact absurd tested (neverFails _ _ _ _)
    · -- the refused port kept the state, so the rest ran from `s`
      obtain rfl := keeps _ _ _ tested
      obtain ⟨noPort, same, refused⟩ := refused_of_tryPorts_error returned
      refine ⟨noPort, same, fun p member => ?_⟩
      rcases List.mem_cons.mp member with rfl | later
      · exact tested
      · exact refused p later
    · cases returned

end Keeping

/-! ### The ports of the turns -/

theorem numEphemeralPorts_eq : numEphemeralPorts = 49536 := rfl

theorem firstEphemeral_eq : firstEphemeral = 16000 := rfl

theorem toNat_ephemeralCandidate {offset count : UInt32} (i : UInt32) (pos : 0 < count.toNat)
    (small : count.toNat ≤ numEphemeralPorts) :
    (ephemeralCandidate offset count i).toNat = firstEphemeral + (offset.toNat + i.toNat) % 2 ^ 32 % count.toNat := by
  have below := Nat.mod_lt ((offset.toNat + i.toNat) % 2 ^ 32) pos
  unfold ephemeralCandidate
  rw [UInt32.toNat_toUInt16, UInt32.toNat_add, UInt32.toNat_mod, UInt32.toNat_add, UInt32.toNat_ofNat']
  rw [numEphemeralPorts_eq, firstEphemeral_eq] at *
  omega

theorem length_ephemeralCandidates (offset count : UInt32) :
    (ephemeralCandidates offset count).length = count.toNat := by
  simp [ephemeralCandidates]

/-- The ephemeral ports from `FirstEphemeral` on, `count` of them, in
increasing order. -/
def ephemeralRange (count : Nat) : List UInt16 :=
  (List.range count).map fun j => UInt16.ofNat (firstEphemeral + j)

theorem nodup_ephemeralRange {count : Nat} (small : count ≤ numEphemeralPorts) : (ephemeralRange count).Nodup := by
  refine List.Nodup.map_on (fun i iIn j jIn same => ?_) List.nodup_range
  have iBound := List.mem_range.mp iIn
  have jBound := List.mem_range.mp jIn
  have sameNat := congrArg UInt16.toNat same
  rw [UInt16.toNat_ofNat', UInt16.toNat_ofNat'] at sameNat
  rw [numEphemeralPorts_eq, firstEphemeral_eq] at *
  omega

theorem mem_ephemeralRange_iff {count : Nat} (small : count ≤ numEphemeralPorts) (port : UInt16) :
    port ∈ ephemeralRange count ↔ firstEphemeral ≤ port.toNat ∧ port.toNat < firstEphemeral + count := by
  unfold ephemeralRange
  rw [List.mem_map]
  constructor
  · rintro ⟨j, jIn, rfl⟩
    have jBound := List.mem_range.mp jIn
    rw [UInt16.toNat_ofNat']
    rw [numEphemeralPorts_eq, firstEphemeral_eq] at *
    omega
  · rintro ⟨atLeast, below⟩
    refine ⟨port.toNat - firstEphemeral, List.mem_range.mpr (by omega), UInt16.toNat_inj.mp ?_⟩
    rw [UInt16.toNat_ofNat', Nat.add_sub_cancel' atLeast]
    exact Nat.mod_eq_of_lt port.toNat_lt

theorem ephemeralCandidates_eq_rotate {offset count : UInt32} (pos : 0 < count.toNat)
    (small : count.toNat ≤ numEphemeralPorts) (noWrap : offset.toNat + count.toNat ≤ 2 ^ 32) :
    ephemeralCandidates offset count = (ephemeralRange count.toNat).rotate (offset.toNat % count.toNat) := by
  apply List.ext_getElem
  · simp [ephemeralCandidates, ephemeralRange]
  · intro i inCandidates _
    have iBound : i < count.toNat := by rwa [length_ephemeralCandidates] at inCandidates
    have turn : (i + offset.toNat % count.toNat) % count.toNat = (offset.toNat + i) % count.toNat := by
      rw [Nat.add_comm, Nat.mod_add_mod]
    have below := Nat.mod_lt (offset.toNat + i) pos
    rw [List.getElem_rotate]
    simp only [ephemeralCandidates, ephemeralRange, List.getElem_map, List.getElem_range, List.length_map,
      List.length_range]
    apply UInt16.toNat_inj.mp
    rw [toNat_ephemeralCandidate _ pos small, UInt16.toNat_ofNat', UInt32.toNat_ofNat', turn,
      Nat.mod_eq_of_lt (show i < 2 ^ 32 by omega), Nat.mod_eq_of_lt (show offset.toNat + i < 2 ^ 32 by omega)]
    rw [numEphemeralPorts_eq, firstEphemeral_eq] at *
    omega

theorem pickEphemeralPortLoop_eq_tryPorts (offset count : Nat) :
    ∀ (offsets : List Nat) (s : σ), pickEphemeralPortLoop offset count testPort offsets s =
      tryPorts testPort (offsets.map fun i => (firstEphemeral + (offset + i) % count).toUInt16) s
  | [], _ => rfl
  | i :: rest, s => by
    unfold pickEphemeralPortLoop
    rw [List.map_cons, tryPorts]
    dsimp only
    rcases testPort s (firstEphemeral + (offset + i) % count).toUInt16 with ⟨s₁, _ | _ | _⟩
    · rfl
    · exact pickEphemeralPortLoop_eq_tryPorts offset count rest s₁
    · rfl

theorem pickEphemeralPortLoop_eq_pickEphemeralPort {offset : Nat} (drawn : offset < numEphemeralPorts) (s : σ) :
    pickEphemeralPortLoop offset numEphemeralPorts testPort (List.range numEphemeralPorts) s =
      pickEphemeralPort (UInt32.ofNat offset) (UInt32.ofNat numEphemeralPorts) testPort s := by
  rw [pickEphemeralPortLoop_eq_tryPorts, pickEphemeralPort, ephemeralCandidates,
    show (UInt32.ofNat numEphemeralPorts).toNat = numEphemeralPorts from rfl]
  refine congrArg (tryPorts testPort · s) (List.map_congr_left fun i member => ?_)
  have iBound := List.mem_range.mp member
  apply UInt16.toNat_inj.mp
  rw [UInt16.toNat_ofNat', toNat_ephemeralCandidate _ (by decide) (Nat.le_refl _), UInt32.toNat_ofNat',
    UInt32.toNat_ofNat', show (UInt32.ofNat numEphemeralPorts).toNat = numEphemeralPorts from rfl]
  rw [numEphemeralPorts_eq, firstEphemeral_eq] at *
  have below := Nat.mod_lt (offset + i) (show 0 < 49536 by decide)
  rw [Nat.mod_eq_of_lt (show offset < 2 ^ 32 by omega), Nat.mod_eq_of_lt (show i < 2 ^ 32 by omega),
    Nat.mod_eq_of_lt (show offset + i < 2 ^ 32 by omega)]
  omega

/-- Over the whole ephemeral range and an offset that does not wrap,
`pickEphemeralPort` tries every ephemeral port once, in cyclic order from
`offset % numEphemeralPorts`; it fails only when the test refuses every
ephemeral port, and a port it returns is ephemeral and accepted. -/
theorem pickEphemeralPort_exhaustive (keeps : ∀ s p s', testPort s p = (s', .ok false) → s' = s)
    (neverFails : ∀ s p s' err, testPort s p ≠ (s', .error err)) {offset : UInt32}
    (noWrap : offset.toNat + numEphemeralPorts ≤ 2 ^ 32) :
    ephemeralCandidates offset (UInt32.ofNat numEphemeralPorts) =
        (ephemeralRange numEphemeralPorts).rotate (offset.toNat % numEphemeralPorts) ∧
      (ephemeralCandidates offset (UInt32.ofNat numEphemeralPorts)).Nodup ∧
      (∀ s s' err, pickEphemeralPort offset (UInt32.ofNat numEphemeralPorts) testPort s = (s', .error err) →
        err = .noPortAvailable ∧ s' = s ∧ ∀ p : UInt16, firstEphemeral ≤ p.toNat → testPort s p = (s, .ok false)) ∧
      (∀ s s' p, pickEphemeralPort offset (UInt32.ofNat numEphemeralPorts) testPort s = (s', .ok p) →
        firstEphemeral ≤ p.toNat ∧ ∃ s₀, testPort s₀ p = (s', .ok true)) := by
  have count : (UInt32.ofNat numEphemeralPorts).toNat = numEphemeralPorts := rfl
  have rotated : ephemeralCandidates offset (UInt32.ofNat numEphemeralPorts) = _ :=
    ephemeralCandidates_eq_rotate (by rw [count]; decide) (by rw [count]) (by rwa [count])
  rw [count] at rotated
  have ephemeral : ∀ p, p ∈ ephemeralCandidates offset (UInt32.ofNat numEphemeralPorts) ↔ firstEphemeral ≤ p.toNat := by
    intro p
    rw [rotated, List.mem_rotate, mem_ephemeralRange_iff (Nat.le_refl _)]
    have := p.toNat_lt
    rw [numEphemeralPorts_eq, firstEphemeral_eq] at *
    omega
  refine ⟨rotated, ?_, fun s s' err failed => ?_, fun s s' p picked => ?_⟩
  · rw [rotated]
    exact List.nodup_rotate.mpr (nodup_ephemeralRange (Nat.le_refl _))
  · obtain ⟨noPort, same, refused⟩ := refused_of_tryPorts_error keeps neverFails failed
    exact ⟨noPort, same, fun p atLeast => refused p ((ephemeral p).mpr atLeast)⟩
  · obtain ⟨member, accepted⟩ := mem_of_tryPorts_ok picked
    exact ⟨(ephemeral p).mp member, accepted⟩

/-- A test that accepts only `FirstEphemeral`, from offset 0: the turns run
through the range from its start. -/
theorem pickEphemeralPort_exhaustive_from_start :
    (0 : UInt32).toNat + numEphemeralPorts ≤ 2 ^ 32 ∧
      ephemeralCandidates 0 (UInt32.ofNat numEphemeralPorts) = ephemeralRange numEphemeralPorts :=
  have exhaustive := @pickEphemeralPort_exhaustive Unit (fun _ port => ((), .ok (port == 16000)))
    (fun _ _ _ _ => rfl) (fun _ _ _ _ refused => by cases refused) 0 (by decide)
  ⟨by decide, exhaustive.1.trans (List.rotate_zero _)⟩

theorem pickEphemeralPortStable_of_error {hint offset : UInt32} {s s' : σ} {err : PortError}
    (failed : tryPorts testPort (ephemeralCandidates (hint + offset) (UInt32.ofNat numEphemeralPorts)) s =
      (s', .error err)) :
    pickEphemeralPortStable hint offset testPort s = ((hint, s'), .error err) := by
  unfold pickEphemeralPortStable pickEphemeralPort
  rw [failed]

theorem toNat_ephemeralCandidate_of_wrap {offset count : UInt32} (i : UInt32) (pos : 0 < count.toNat)
    (small : count.toNat ≤ numEphemeralPorts) (wraps : 2 ^ 32 ≤ offset.toNat + i.toNat) :
    (ephemeralCandidate offset count i).toNat = firstEphemeral + (offset.toNat + i.toNat - 2 ^ 32) % count.toNat := by
  have offsetBound := offset.toNat_lt
  have iBound := i.toNat_lt
  rw [toNat_ephemeralCandidate i pos small, show (offset.toNat + i.toNat) % 2 ^ 32 = offset.toNat + i.toNat - 2 ^ 32 by
    omega]

theorem ne_last_of_mem_ephemeralCandidates_top :
    ∀ p ∈ ephemeralCandidates 4294967295 (UInt32.ofNat numEphemeralPorts), p ≠ 65535 := by
  have count : (UInt32.ofNat numEphemeralPorts).toNat = numEphemeralPorts := rfl
  have top : (4294967295 : UInt32).toNat = 4294967295 := rfl
  have last : (65535 : UInt16).toNat = 65535 := rfl
  intro p member hit
  simp only [ephemeralCandidates, List.mem_map, List.mem_range] at member
  obtain ⟨i, iBound, rfl⟩ := member
  rw [count, numEphemeralPorts_eq] at iBound
  have turn : (UInt32.ofNat i).toNat = i := by
    rw [UInt32.toNat_ofNat']
    omega
  have value := congrArg UInt16.toNat hit
  by_cases first : i = 0
  · -- the first turn, before the wrap, tries 63487
    subst first
    rw [toNat_ephemeralCandidate _ (by rw [count]; decide) (by rw [count]), count, turn, top, last,
      numEphemeralPorts_eq, firstEphemeral_eq] at value
    revert value
    decide
  · -- after the wrap turn `i` tries `FirstEphemeral + i - 1`
    rw [toNat_ephemeralCandidate_of_wrap _ (by rw [count]; decide) (by rw [count]) (by rw [turn, top]; omega), count,
      turn, top, last, numEphemeralPorts_eq, firstEphemeral_eq, Nat.mod_eq_of_lt (by omega)] at value
    omega

/-- `PickEphemeralPortStable` with a hint and offset summing to `2 ^ 32 - 1`
(any `uint32` offset may be passed): the first turn tries port 63487, the
next ones wrap to `FirstEphemeral` and go on up to 65534. Port 63487 comes
up a second time at turn 47488 and port 65535 never: a test that accepts
only 65535 gets `ErrNoPortAvailable`. -/
theorem pickEphemeralPortStable_never_tries_last_port :
    pickEphemeralPortStable 0 4294967295 (fun (_ : Unit) port => ((), .ok (port == 65535))) () =
        ((0, ()), .error .noPortAvailable) ∧
      (ephemeralCandidates 4294967295 (UInt32.ofNat numEphemeralPorts))[0]? = some 63487 ∧
      (ephemeralCandidates 4294967295 (UInt32.ofNat numEphemeralPorts))[47488]? = some 63487 := by
  have turn : ∀ i < numEphemeralPorts, (ephemeralCandidates 4294967295 (UInt32.ofNat numEphemeralPorts))[i]? =
      some (ephemeralCandidate 4294967295 (UInt32.ofNat numEphemeralPorts) (UInt32.ofNat i)) := by
    intro i iBound
    rw [ephemeralCandidates, List.getElem?_map, List.getElem?_range (by exact iBound)]
    rfl
  refine ⟨?_, (turn 0 (by decide)).trans (by decide), (turn 47488 (by decide)).trans (by decide)⟩
  have refused := @tryPorts_of_refused Unit (fun _ port => ((), .ok (port == 65535))) ()
    (ephemeralCandidates 4294967295 (UInt32.ofNat numEphemeralPorts))
    (fun p member => by simp [ne_last_of_mem_ephemeralCandidates_top p member])
  have shifted : (0 : UInt32) + 4294967295 = 4294967295 := rfl
  exact pickEphemeralPortStable_of_error (by rw [shifted]; exact refused)

end PortManager

end Cijitter.Ports
