import Cijitter.Shm.Registry
import Cijitter.Lib.Arena

/-! The registry over every run. `Valid` is what every reachable system
keeps: each segment's count is its own reference until `MarkDestroyed` plus
the references its users hold, and its memory has been released once when
the count is zero and never before; `shms` holds exactly the segments whose
memory has not been released, under their IDs, and `totalPages` is the sum
of their pages; `keysToShms` maps every key but `IPC_PRIVATE` exactly to the
segment carrying it, which is not pending destruction.

What each operation does to the segments is stated once (`incRef_eq`,
`decRef_eq_some`, `markDestroyed_eq_some`, `findOrCreate_eq_some`), and the
step lemma for each action is assembled from those. -/

set_option autoImplicit false

namespace Cijitter.SysVShm

/-! ## Pages -/

/-- The pages of a segment whose memory has not been released. -/
def livePages (s : Shm) : Nat := if s.releases = 0 then (s.effectiveSize / pageSize).toNat else 0

/-- The pages of the segments whose memory has not been released. -/
def alivePages (segments : List Shm) : Nat := (segments.map livePages).sum

theorem alivePages_modify {segments : List Shm} {p : Nat} {s : Shm} (found : segments[p]? = some s)
    (f : Shm → Shm) : alivePages (segments.modify p f) + livePages s = alivePages segments + livePages (f s) :=
  Arena.sum_map_modify livePages f segments p s found

theorem alivePages_append (segments : List Shm) (s : Shm) :
    alivePages (segments ++ [s]) = alivePages segments + livePages s := by
  simp [alivePages]

namespace Registry

variable (r : Registry) (p : Nat) (f : Shm → Shm)

@[simp] theorem modify_segments : (r.modify p f).segments = r.segments.modify p f := rfl

@[simp] theorem modify_shms : (r.modify p f).shms = r.shms := rfl

@[simp] theorem modify_keysToShms : (r.modify p f).keysToShms = r.keysToShms := rfl

@[simp] theorem modify_totalPages : (r.modify p f).totalPages = r.totalPages := rfl

theorem modify_modify (g : Shm → Shm) : (r.modify p f).modify p g = r.modify p (g ∘ f) := by
  simp only [modify, List.modify_modify_eq]

variable {r} {p} {r' : Registry}

theorem incRef_eq_some (incremented : r.incRef p = some r') :
    ∃ s, r.segments[p]? = some s ∧ 0 < s.refs ∧ r' = r.modify p fun s => { s with refs := s.refs + 1 } := by
  unfold incRef at incremented
  split at incremented
  · rename_i s found
    split at incremented
    · cases incremented
    · exact ⟨s, found, by omega, (Option.some.inj incremented).symm⟩
  · cases incremented

theorem decRef_eq_some (decremented : r.decRef p = some r') :
    ∃ s, r.segments[p]? = some s ∧
      ((s.refs - 1 ≠ 0 ∧ 0 ≤ s.refs - 1 ∧ r' = r.modify p fun s => { s with refs := s.refs - 1 }) ∨
       (s.refs - 1 = 0 ∧ s.key = ipcPrivate ∧
         r' = { r.modify p (fun s => { s with refs := s.refs - 1, releases := s.releases + 1 }) with
           shms := r.shms.erase s.id, totalPages := r.totalPages - s.effectiveSize / pageSize })) := by
  unfold decRef at decremented
  split at decremented
  · rename_i s found
    refine ⟨s, found, ?_⟩
    split at decremented
    · cases decremented
    · dsimp only at decremented
      split at decremented
      · rename_i last
        unfold destroy remove at decremented
        rw [modify_modify] at decremented
        simp only [modify_segments, List.getElem?_modify_eq, found, Option.map_eq_map, Option.map_some,
          Function.comp_apply] at decremented
        split at decremented
        · cases decremented
        · rename_i unkeyed
          exact .inr ⟨last, by simpa using unkeyed, (Option.some.inj decremented).symm⟩
      · exact .inl ⟨‹_›, by omega, (Option.some.inj decremented).symm⟩
  · cases decremented

theorem dissociateKey_of_keyed {s : Shm} (found : r.segments[p]? = some s) (keyed : s.key ≠ ipcPrivate) :
    r.dissociateKey p =
      { r.modify p (fun s => { s with key := ipcPrivate }) with keysToShms := r.keysToShms.erase s.key } := by
  simp only [dissociateKey, found, if_pos keyed]

theorem dissociateKey_of_unkeyed {s : Shm} (found : r.segments[p]? = some s) (unkeyed : s.key = ipcPrivate) :
    r.dissociateKey p = r := by
  simp only [dissociateKey, found, unkeyed, ne_eq, not_true_eq_false, if_false]

theorem dissociateKey_unkeyed {s : Shm} (found : (r.dissociateKey p).segments[p]? = some s) :
    s.key = ipcPrivate := by
  cases before : r.segments[p]? with
  | none => simp [dissociateKey, before] at found
  | some previous =>
    by_cases keyed : previous.key ≠ ipcPrivate
    · rw [dissociateKey_of_keyed before keyed] at found
      simp only [modify_segments, List.getElem?_modify_eq, before, Option.map_eq_map, Option.map_some,
        Option.some.injEq] at found
      rw [← found]
    · rw [dissociateKey_of_unkeyed before (not_not.mp keyed), before, Option.some.injEq] at found
      rw [← found]
      exact not_not.mp keyed

theorem markDestroyed_eq_some (marked : r.markDestroyed p = some r') :
    ∃ s, (r.dissociateKey p).segments[p]? = some s ∧
      (s.pendingDestruction = false ∧
          ((r.dissociateKey p).modify p fun s => { s with pendingDestruction := true }).decRef p = some r' ∨
        s.pendingDestruction = true ∧ r' = r.dissociateKey p) := by
  unfold markDestroyed at marked
  dsimp only at marked
  split at marked
  · rename_i s found
    refine ⟨s, found, ?_⟩
    cases pending : s.pendingDestruction
    · rw [pending] at marked
      exact .inl ⟨rfl, marked⟩
    · rw [pending] at marked
      exact .inr ⟨rfl, (Option.some.inj marked).symm⟩
  · cases marked

theorem findByID_eq_some {id : ID} (found : r.findByID id = (r', some p)) :
    r.shms.lookup id = some p ∧ r.incRef p = some r' := by
  unfold findByID at found
  split at found
  · rename_i q listed
    split at found
    · rename_i s at_q
      split at found
      · rename_i live
        simp only [Prod.mk.injEq, Option.some.injEq] at found
        obtain ⟨rfl, rfl⟩ := found
        simp only [incRef, at_q, if_neg (Int.not_le.mpr live), listed, and_self]
      · cases found
    · cases found
  · cases found

theorem findByID_eq_none {id : ID} (missed : r.findByID id = (r', none)) : r' = r := by
  unfold findByID at missed
  split at missed
  · split at missed
    · split at missed
      · cases missed
      · exact (Prod.mk.inj missed).1.symm
    · exact (Prod.mk.inj missed).1.symm
  · exact (Prod.mk.inj missed).1.symm

end Registry

theorem findUnusedID_fresh {shms : Finmap fun _ : ID => Nat} {lastIDUsed : ID} :
    ∀ (fuel : Nat) (id found : ID), findUnusedID shms lastIDUsed fuel id = some found → shms.lookup found = none
  | 0, _, _, searched => by cases searched
  | fuel + 1, id, found, searched => by
    unfold findUnusedID at searched
    split at searched
    · cases searched
    · split at searched
      · exact findUnusedID_fresh fuel _ found searched
      · split at searched
        · rename_i unused
          rw [← Option.some.inj searched]
          exact unused
        · exact findUnusedID_fresh fuel _ found searched

namespace Registry

variable {r r' : Registry} {allocated : Bool} {key : Key} {size : UInt64}

theorem newShm_eq_ok {p : Nat} (created : r.newShm allocated key size = some (r', .ok p)) :
    ∃ rounded id, Usermem.roundUp size.toNat = some rounded ∧ r.shms.lookup id = none ∧ p = r.segments.length ∧
      r' = ⟨r.segments ++ [⟨id, key, size, UInt64.ofNat rounded, 1, false, 0⟩], r.shms.insert id r.segments.length,
        r.keysToShms.insert key r.segments.length, r.totalPages + UInt64.ofNat rounded / pageSize, id⟩ := by
  unfold newShm at created
  split at created
  · cases created
  · rename_i rounded roundedUp
    dsimp only at created
    split at created
    · cases created
    · split at created
      · cases created
      · rename_i id searched
        simp only [Option.some.injEq, Prod.mk.injEq, Except.ok.injEq] at created
        obtain ⟨rfl, rfl⟩ := created
        exact ⟨rounded, id, roundedUp, findUnusedID_fresh _ _ _ searched, rfl, rfl⟩

theorem newShm_eq_error {e : Errno} (failed : r.newShm allocated key size = some (r', .error e)) : r' = r := by
  unfold newShm at failed
  split at failed
  · cases failed
  · dsimp only at failed
    split at failed
    · cases failed
      rfl
    · split at failed
      · cases failed
        rfl
      · cases failed

theorem findOrCreate_eq_some {permitted : Shm → Bool} {isPrivate create exclusive : Bool}
    {result : Except Errno Nat}
    (answered : r.findOrCreate permitted allocated key size isPrivate create exclusive = some (r', result)) :
    (∃ e, result = .error e ∧ r' = r) ∨
      (∃ p, result = .ok p ∧ isPrivate = false ∧ r.keysToShms.lookup key = some p ∧ r.incRef p = some r') ∨
      (∃ p created, result = .ok p ∧ size ≤ shmMax ∧ r.shms.keys.card < shmMni ∧
        (isPrivate = false → r.keysToShms.lookup key = none) ∧
        r.newShm allocated key size = some (created, .ok p) ∧ created.incRef p = some r') := by
  unfold findOrCreate at answered
  split at answered
  · cases answered
    exact .inl ⟨_, rfl, rfl⟩
  · rename_i bounded
    split at answered
    · cases answered
      exact .inl ⟨_, rfl, rfl⟩
    · rename_i room
      split at answered
      · -- an existing segment for the key
        rename_i p looked
        have keyed : isPrivate = false ∧ r.keysToShms.lookup key = some p := by
          cases isPrivate <;> simp_all
        split at answered
        · split at answered
          · cases answered
            exact .inl ⟨_, rfl, rfl⟩
          · split at answered
            · cases answered
              exact .inl ⟨_, rfl, rfl⟩
            · split at answered
              · cases answered
                exact .inl ⟨_, rfl, rfl⟩
              · obtain ⟨incremented, referenced, same⟩ := Option.map_eq_some_iff.mp answered
                cases same
                exact .inr (.inl ⟨p, rfl, keyed.1, keyed.2, referenced⟩)
        · cases answered
      · rename_i missed
        split at answered
        · cases answered
          exact .inl ⟨_, rfl, rfl⟩
        · rename_i creating
          have creates : (create || isPrivate) = true := by
            cases isPrivate <;> cases create <;> simp_all
          have within : size ≤ shmMax := by
            rw [creates, Bool.true_and] at bounded
            simp only [Bool.or_eq_true, decide_eq_true_eq, not_or, UInt64.not_lt] at bounded
            exact bounded.2
          have unkeyed : isPrivate = false → r.keysToShms.lookup key = none := by
            intro shared
            simpa [shared] using missed
          split at answered
          · cases answered
            exact .inl ⟨_, rfl, rfl⟩
          · split at answered
            · cases answered
              exact .inl ⟨_, rfl, rfl⟩
            · split at answered
              · rename_i created p made
                obtain ⟨incremented, referenced, same⟩ := Option.map_eq_some_iff.mp answered
                cases same
                exact .inr (.inr ⟨p, created, rfl, within, Nat.lt_of_not_le room, unkeyed, made, referenced⟩)
              · rename_i notCreated
                cases result with
                | error e => exact .inl ⟨e, rfl, newShm_eq_error answered⟩
                | ok p => exact absurd answered (notCreated r' p)

end Registry

/-! ## One segment

`Counted n s`: the count of `s` is its own reference, until it is marked for
destruction, plus the `n` references its users hold; its memory has been
released once exactly when the count is zero; and a segment that still has
a key has not been marked. Each lemma is one change the registry makes to a
segment. -/

structure Counted (held : Nat) (s : Shm) : Prop where
  refs_eq : s.refs = (if s.pendingDestruction then 0 else 1) + held
  releases_eq : s.releases = if s.refs = 0 then 1 else 0
  keyed_alive : s.key ≠ ipcPrivate → s.pendingDestruction = false

namespace Counted

variable {n : Nat} {s : Shm}

theorem refs_pos (counted : Counted (n + 1) s) : 0 < s.refs := by
  rw [counted.refs_eq]
  split <;> omega

theorem fresh (id : ID) (key : Key) (size effectiveSize : UInt64) :
    Counted 0 ⟨id, key, size, effectiveSize, 1, false, 0⟩ :=
  ⟨rfl, rfl, fun _ => rfl⟩

theorem incRef (counted : Counted n s) (live : 0 < s.refs) : Counted (n + 1) { s with refs := s.refs + 1 } := by
  refine ⟨?_, ?_, counted.keyed_alive⟩
  · simp only [counted.refs_eq]
    omega
  · simp only [counted.releases_eq, if_neg (Int.ne_of_gt live)]
    rw [if_neg (by omega)]

theorem decRef (counted : Counted (n + 1) s) (others : s.refs - 1 ≠ 0) :
    Counted n { s with refs := s.refs - 1 } := by
  refine ⟨?_, ?_, counted.keyed_alive⟩
  · simp only [counted.refs_eq]
    omega
  · simp only [counted.releases_eq, if_neg others]
    rw [if_neg (Int.ne_of_gt counted.refs_pos)]

theorem destroy (counted : Counted (n + 1) s) (last : s.refs - 1 = 0) :
    Counted n { s with refs := s.refs - 1, releases := s.releases + 1 } ∧ s.pendingDestruction = true ∧
      s.key = ipcPrivate ∧ s.releases = 0 ∧ n = 0 := by
  have refs := counted.refs_eq
  have marked : s.pendingDestruction = true := by
    cases pending : s.pendingDestruction
    · rw [pending] at refs
      simp only [Bool.false_eq_true, if_false] at refs
      omega
    · rfl
  have unkeyed : s.key = ipcPrivate := by
    by_contra keyed
    rw [counted.keyed_alive keyed] at marked
    cases marked
  have unreleased : s.releases = 0 := by
    rw [counted.releases_eq, if_neg (by omega)]
  rw [marked, if_pos rfl] at refs
  refine ⟨⟨?_, ?_, fun keyed => absurd unkeyed keyed⟩, marked, unkeyed, unreleased, by omega⟩
  · simp only [marked, if_true]
    omega
  · simp only [unreleased, last, if_true]

theorem markPending (counted : Counted n s) (unmarked : s.pendingDestruction = false) (unkeyed : s.key = ipcPrivate) :
    Counted (n + 1) { s with pendingDestruction := true } := by
  have refs := counted.refs_eq
  rw [unmarked] at refs
  refine ⟨?_, ?_, fun keyed => absurd unkeyed keyed⟩
  · simp only [if_true, refs, Bool.false_eq_true, if_false]
    omega
  · exact counted.releases_eq

theorem dissociate (counted : Counted n s) : Counted n { s with key := ipcPrivate } :=
  ⟨counted.refs_eq, counted.releases_eq, fun keyed => absurd rfl keyed⟩

end Counted

/-! ## The maps and the page count -/

/-- One for a segment whose memory has not been released. -/
def liveOne (s : Shm) : Nat := if s.releases = 0 then 1 else 0

/-- The segments whose memory has not been released. -/
def liveCount (segments : List Shm) : Nat := (segments.map liveOne).sum

/-- The pages of a segment of at most `SHMMAX` bytes. -/
def maxPages : Nat := 2 ^ 52 - 2 ^ 12

theorem alivePages_le : ∀ segments : List Shm, (∀ s ∈ segments, (s.effectiveSize / pageSize).toNat ≤ maxPages) →
    alivePages segments ≤ liveCount segments * maxPages
  | [], _ => by simp [alivePages, liveCount]
  | s :: segments, sized => by
    have rest := alivePages_le segments fun s' mem => sized s' (List.mem_cons_of_mem s mem)
    have first := sized s List.mem_cons_self
    simp only [alivePages, liveCount, List.map_cons, List.sum_cons, Nat.add_mul] at rest ⊢
    by_cases live : s.releases = 0
    · have head_pages : livePages s = (s.effectiveSize / pageSize).toNat := if_pos live
      have head_one : liveOne s = 1 := if_pos live
      rw [head_pages, head_one]
      omega
    · have head_pages : livePages s = 0 := if_neg live
      have head_one : liveOne s = 0 := if_neg live
      rw [head_pages, head_one]
      omega

/-- `shms` and `totalPages` describe the segments whose memory has not been
released; every segment has at most `maxPages` pages. -/
structure Indexed (r : Registry) : Prop where
  shms_exact : ∀ (id : ID) (p : Nat), r.shms.lookup id = some p ↔ ∃ s : Shm, r.segments[p]? = some s ∧ s.id = id ∧ s.releases = 0
  card_eq : r.shms.keys.card = liveCount r.segments
  sized : ∀ (p : Nat) (s : Shm), r.segments[p]? = some s → (s.effectiveSize / pageSize).toNat ≤ maxPages
  pages_eq : r.totalPages.toNat = alivePages r.segments

namespace Indexed

variable {r : Registry} {p : Nat} {s : Shm}

theorem pages_le (indexed : Indexed r) : r.totalPages.toNat ≤ r.shms.keys.card * maxPages := by
  rw [indexed.pages_eq, indexed.card_eq]
  apply alivePages_le
  intro s' mem
  obtain ⟨q, at_q⟩ := List.mem_iff_getElem?.mp mem
  exact indexed.sized q s' at_q

theorem withKeys (indexed : Indexed r) (keys : Finmap fun _ : Key => Nat) : Indexed { r with keysToShms := keys } :=
  ⟨indexed.shms_exact, indexed.card_eq, indexed.sized, indexed.pages_eq⟩

theorem lookup_of_live (indexed : Indexed r) (found : r.segments[p]? = some s) (live : s.releases = 0) :
    r.shms.lookup s.id = some p :=
  (indexed.shms_exact s.id p).mpr ⟨s, found, rfl, live⟩

theorem modify (indexed : Indexed r) (found : r.segments[p]? = some s) (f : Shm → Shm)
    (same_id : (f s).id = s.id) (same_size : (f s).effectiveSize = s.effectiveSize)
    (same_releases : (f s).releases = s.releases) : Indexed (r.modify p f) := by
  have same_at : ∀ q : Nat, (r.segments.modify p f)[q]?.map (fun s : Shm => (s.id, s.effectiveSize, s.releases)) =
      r.segments[q]?.map (fun s : Shm => (s.id, s.effectiveSize, s.releases)) := by
    intro q
    by_cases here : p = q
    · subst here
      simp [found, same_id, same_size, same_releases]
    · rw [List.getElem?_modify_ne f r.segments here]
  have counts := Arena.sum_map_modify liveOne f r.segments p s found
  have pages := alivePages_modify found f
  have same_one : liveOne (f s) = liveOne s := by simp only [liveOne, same_releases]
  have same_pages : livePages (f s) = livePages s := by simp only [livePages, same_releases, same_size]
  rw [same_one] at counts
  rw [same_pages] at pages
  refine ⟨fun id q => ?_, ?_, fun q s' at_q => ?_, ?_⟩
  · have := same_at q
    rw [Registry.modify_shms, Registry.modify_segments, indexed.shms_exact id q]
    cases before : r.segments[q]? <;> cases after : (r.segments.modify p f)[q]? <;>
      simp_all
  · rw [Registry.modify_shms, Registry.modify_segments, indexed.card_eq]
    unfold liveCount
    omega
  · rw [Registry.modify_segments] at at_q
    refine Arena.forall_modify indexed.sized found (fun _ _ _ bounded => bounded) ?_ q s' at_q
    rw [same_size]
    exact indexed.sized p s found
  · rw [Registry.modify_totalPages, Registry.modify_segments, indexed.pages_eq]
    omega

theorem release (indexed : Indexed r) (found : r.segments[p]? = some s) (live : s.releases = 0) (f : Shm → Shm)
    (same_size : (f s).effectiveSize = s.effectiveSize)
    (released : (f s).releases = s.releases + 1) :
    Indexed { r.modify p f with shms := r.shms.erase s.id, totalPages := r.totalPages - s.effectiveSize / pageSize } := by
  have listed := indexed.lookup_of_live found live
  have counts := Arena.sum_map_modify liveOne f r.segments p s found
  have pages := alivePages_modify found f
  have one_before : liveOne s = 1 := if_pos live
  have one_after : liveOne (f s) = 0 := if_neg (by omega)
  have pages_before : livePages s = (s.effectiveSize / pageSize).toNat := if_pos live
  have pages_after : livePages (f s) = 0 := if_neg (by omega)
  rw [one_before, one_after] at counts
  rw [pages_before, pages_after] at pages
  refine ⟨fun id q => ?_, ?_, fun q s' at_q => ?_, ?_⟩
  · show (r.shms.erase s.id).lookup id = some q ↔
      ∃ s' : Shm, (r.segments.modify p f)[q]? = some s' ∧ s'.id = id ∧ s'.releases = 0
    by_cases here : p = q
    · -- the released segment is in neither
      subst here
      rw [List.getElem?_modify_eq, found, Option.map_eq_map, Option.map_some]
      refine iff_of_false ?_ ?_
      · by_cases removed : id = s.id
        · subst removed
          rw [Finmap.lookup_erase]
          exact nofun
        · rw [Finmap.lookup_erase_ne removed]
          intro listed
          obtain ⟨s', at_p, named, _⟩ := (indexed.shms_exact id p).mp listed
          rw [found, Option.some.injEq] at at_p
          subst at_p
          exact removed named.symm
      · rintro ⟨s', made, _, live'⟩
        rw [Option.some.injEq] at made
        subst made
        omega
    · rw [List.getElem?_modify_ne f r.segments here]
      by_cases removed : id = s.id
      · subst removed
        rw [Finmap.lookup_erase]
        refine ⟨nofun, ?_⟩
        rintro ⟨s', at_q, same, live'⟩
        have other := (indexed.shms_exact s.id q).mpr ⟨s', at_q, same, live'⟩
        rw [listed] at other
        exact absurd (Option.some.inj other) here
      · rw [Finmap.lookup_erase_ne removed, indexed.shms_exact]
  · show (r.shms.erase s.id).keys.card = liveCount (r.segments.modify p f)
    have erased := Arena.card_keys_erase listed
    rw [indexed.card_eq] at erased
    unfold liveCount at erased ⊢
    omega
  · refine Arena.forall_modify indexed.sized found (fun _ _ _ bounded => bounded) ?_ q s' at_q
    rw [same_size]
    exact indexed.sized p s found
  · show (r.totalPages - s.effectiveSize / pageSize).toNat = alivePages (r.segments.modify p f)
    have within : s.effectiveSize / pageSize ≤ r.totalPages := by
      rw [UInt64.le_iff_toNat_le, indexed.pages_eq]
      omega
    rw [UInt64.toNat_sub_of_le _ _ within, indexed.pages_eq]
    omega

theorem pages_of_roundUp {size : UInt64} {rounded : Nat} (within : size ≤ shmMax)
    (roundedUp : Usermem.roundUp size.toNat = some rounded) :
    (UInt64.ofNat rounded / pageSize).toNat = rounded / 4096 ∧ rounded / 4096 ≤ maxPages := by
  unfold Usermem.roundUp Usermem.roundDown Usermem.pageSize Usermem.addrLimit at roundedUp
  split at roundedUp
  · have value := (Option.some.inj roundedUp).symm
    have bound := UInt64.le_iff_toNat_le.mp within
    have limit : shmMax.toNat = 2 ^ 64 - 1 - 2 ^ 24 := by decide +kernel
    have small : rounded < UInt64.size := by
      show _ < 2 ^ 64
      omega
    rw [UInt64.toNat_div, UInt64.toNat_ofNat_of_lt' small]
    refine ⟨rfl, ?_⟩
    unfold maxPages
    omega
  · cases roundedUp

theorem append (indexed : Indexed r) {id : ID} (fresh : r.shms.lookup id = none) {size : UInt64} {rounded : Nat}
    (within : size ≤ shmMax) (roundedUp : Usermem.roundUp size.toNat = some rounded)
    (room : r.shms.keys.card < shmMni) (key : Key) (keys : Finmap fun _ : Key => Nat) :
    Indexed ⟨r.segments ++ [⟨id, key, size, UInt64.ofNat rounded, 1, false, 0⟩], r.shms.insert id r.segments.length,
      keys, r.totalPages + UInt64.ofNat rounded / pageSize, id⟩ := by
  obtain ⟨new_pages, new_bound⟩ := pages_of_roundUp within roundedUp
  have total := indexed.pages_le
  refine ⟨fun id' q => ?_, ?_, ?_, ?_⟩
  · show (r.shms.insert id r.segments.length).lookup id' = some q ↔
      ∃ s' : Shm, (r.segments ++ [⟨id, key, size, UInt64.ofNat rounded, 1, false, 0⟩])[q]? = some s' ∧
        s'.id = id' ∧ s'.releases = 0
    rcases Nat.lt_or_ge q r.segments.length with before | after
    · rw [List.getElem?_append_left before]
      by_cases same : id' = id
      · subst same
        rw [Finmap.lookup_insert, Option.some.injEq]
        refine ⟨fun at_end => by omega, ?_⟩
        rintro ⟨s', at_q, same, live⟩
        have listed := (indexed.shms_exact s'.id q).mpr ⟨s', at_q, rfl, live⟩
        rw [same, fresh] at listed
        cases listed
      · rw [Finmap.lookup_insert_of_ne _ same, indexed.shms_exact]
    · rw [List.getElem?_append_right after, List.getElem?_singleton]
      by_cases same : id' = id
      · subst same
        rw [Finmap.lookup_insert, Option.some.injEq]
        by_cases last : q = r.segments.length
        · subst last
          simp
        · have beyond : ¬q - r.segments.length = 0 := by omega
          refine iff_of_false (fun at_end => last at_end.symm) ?_
          rintro ⟨s', made, _, _⟩
          rw [if_neg beyond] at made
          cases made
      · rw [Finmap.lookup_insert_of_ne _ same]
        have missing : r.shms.lookup id' ≠ some q := fun listed => by
          obtain ⟨s', at_q, _, _⟩ := (indexed.shms_exact id' q).mp listed
          have := (List.getElem?_eq_some_iff.mp at_q).1
          omega
        simp only [missing, false_iff]
        split
        · rintro ⟨s', made, named, _⟩
          cases made
          exact same named.symm
        · simp
  · show (r.shms.insert id r.segments.length).keys.card = liveCount (r.segments ++ _)
    rw [Arena.card_keys_insert fresh, indexed.card_eq]
    simp [liveCount, liveOne]
  · refine Arena.forall_append indexed.sized ?_
    show (UInt64.ofNat rounded / pageSize).toNat ≤ maxPages
    omega
  · show (r.totalPages + UInt64.ofNat rounded / pageSize).toNat = alivePages (r.segments ++ _)
    rw [alivePages_append, UInt64.toNat_add, new_pages, ← indexed.pages_eq]
    have fits : r.totalPages.toNat + rounded / 4096 < 2 ^ 64 := by
      have bounded : r.shms.keys.card * maxPages ≤ (shmMni - 1) * maxPages := Nat.mul_le_mul_right _ (by omega)
      unfold shmMni at bounded
      unfold maxPages at bounded total new_bound
      omega
    have new_live : livePages ⟨id, key, size, UInt64.ofNat rounded, 1, false, 0⟩ = rounded / 4096 := new_pages
    rw [Nat.mod_eq_of_lt fits, new_live]

end Indexed

/-! ## Every run

`Valid` is what every reachable system keeps. Each operation's lemma takes
the references its caller holds before and after, as `step` moves them. -/

structure Valid (t : System) : Prop where
  indexed : Indexed t.registry
  counted : ∀ (p : Nat) (s : Shm), t.registry.segments[p]? = some s → Counted (t.held.count p) s
  held_lt : ∀ p ∈ t.held, p < t.registry.segments.length

theorem valid_initial : Valid System.initial := by
  refine ⟨⟨fun id p => ?_, rfl, fun p s found => ?_, rfl⟩, fun p s found => ?_, fun p held => ?_⟩
  · simp [System.initial, newRegistry]
  · simp [System.initial, newRegistry] at found
  · simp [System.initial, newRegistry] at found
  · cases held

namespace Valid

variable {r r' : Registry} {held : List Nat} {p : Nat}

theorem incRef (valid : Valid ⟨r, held⟩) (incremented : r.incRef p = some r') : Valid ⟨r', p :: held⟩ := by
  obtain ⟨s, found, live, rfl⟩ := Registry.incRef_eq_some incremented
  refine ⟨valid.indexed.modify found _ rfl rfl rfl, ?_, fun q holding => ?_⟩
  · refine Arena.forall_modify valid.counted found (fun q s' other counted => ?_) ?_
    · rwa [List.count_cons_of_ne (Ne.symm other)]
    · rw [List.count_cons_self]
      exact (valid.counted p s found).incRef live
  · rw [Registry.modify_segments, List.length_modify]
    rcases List.mem_cons.mp holding with same | other
    · subst same
      exact (List.getElem?_eq_some_iff.mp found).1
    · exact valid.held_lt q other

theorem decRef (valid : Valid ⟨r, held⟩) (holding : p ∈ held) (decremented : r.decRef p = some r') :
    Valid ⟨r', held.erase p⟩ := by
  obtain ⟨s, found, dropped⟩ := Registry.decRef_eq_some decremented
  have counted : Counted (List.count p (held.erase p) + 1) s := by
    have positive := List.count_pos_iff.mpr holding
    rw [List.count_erase_self, Nat.sub_add_cancel positive]
    exact valid.counted p s found
  have others : ∀ q (s' : Shm), q ≠ p → Counted (held.count q) s' → Counted ((held.erase p).count q) s' :=
    fun q s' other counted => by rwa [List.count_erase_of_ne other]
  have held_lt : ∀ q ∈ held.erase p, q < r.segments.length :=
    fun q holding => valid.held_lt q (List.mem_of_mem_erase holding)
  rcases dropped with ⟨remaining, _, rfl⟩ | ⟨last, _, rfl⟩
  · refine ⟨valid.indexed.modify found _ rfl rfl rfl, ?_, ?_⟩
    · exact Arena.forall_modify valid.counted found others (counted.decRef remaining)
    · simpa only [Registry.modify_segments, List.length_modify] using held_lt
  · obtain ⟨destroyed, _, _, live, _⟩ := counted.destroy last
    refine ⟨valid.indexed.release found live _ rfl rfl, ?_, ?_⟩
    · exact Arena.forall_modify valid.counted found others destroyed
    · simpa only [Registry.modify_segments, List.length_modify] using held_lt

theorem dissociateKey (valid : Valid ⟨r, held⟩) : Valid ⟨r.dissociateKey p, held⟩ := by
  cases found : r.segments[p]? with
  | none => simpa only [Registry.dissociateKey, found] using valid
  | some s =>
    by_cases keyed : s.key ≠ ipcPrivate
    · rw [Registry.dissociateKey_of_keyed found keyed]
      refine ⟨(valid.indexed.modify found _ rfl rfl rfl).withKeys _, ?_, ?_⟩
      · exact Arena.forall_modify valid.counted found (fun _ _ _ counted => counted)
          (valid.counted p s found).dissociate
      · simpa only [Registry.modify_segments, List.length_modify] using valid.held_lt
    · rw [Registry.dissociateKey_of_unkeyed found (not_not.mp keyed)]
      exact valid

theorem markPending (valid : Valid ⟨r, held⟩) {s : Shm} (found : r.segments[p]? = some s)
    (unmarked : s.pendingDestruction = false) (unkeyed : s.key = ipcPrivate) :
    Valid ⟨r.modify p fun s => { s with pendingDestruction := true }, p :: held⟩ := by
  refine ⟨valid.indexed.modify found _ rfl rfl rfl, ?_, fun q holding => ?_⟩
  · refine Arena.forall_modify valid.counted found (fun q s' other counted => ?_) ?_
    · rwa [List.count_cons_of_ne (Ne.symm other)]
    · rw [List.count_cons_self]
      exact (valid.counted p s found).markPending unmarked unkeyed
  · rw [Registry.modify_segments, List.length_modify]
    rcases List.mem_cons.mp holding with same | other
    · subst same
      exact (List.getElem?_eq_some_iff.mp found).1
    · exact valid.held_lt q other

theorem markDestroyed (valid : Valid ⟨r, held⟩) (marked : r.markDestroyed p = some r') :
    Valid ⟨r', held⟩ := by
  have dissociated : Valid ⟨r.dissociateKey p, held⟩ := valid.dissociateKey
  obtain ⟨s, found, outcome⟩ := Registry.markDestroyed_eq_some marked
  rcases outcome with ⟨unmarked, decremented⟩ | ⟨_, rfl⟩
  · have pending := dissociated.markPending found unmarked (Registry.dissociateKey_unkeyed found)
    have dropped := pending.decRef List.mem_cons_self decremented
    rwa [List.erase_cons_head] at dropped
  · exact dissociated

theorem create (valid : Valid ⟨r, held⟩) {allocated : Bool} {key : Key} {size : UInt64}
    (within : size ≤ shmMax) (room : r.shms.keys.card < shmMni) (made : r.newShm allocated key size = some (r', .ok p)) :
    Valid ⟨r', held⟩ := by
  obtain ⟨rounded, id, roundedUp, fresh, rfl, rfl⟩ := Registry.newShm_eq_ok made
  have unheld : held.count r.segments.length = 0 :=
    List.count_eq_zero.mpr fun holding => Nat.lt_irrefl _ (valid.held_lt _ holding)
  refine ⟨valid.indexed.append fresh within roundedUp room key _, ?_, fun q holding => ?_⟩
  · refine Arena.forall_append valid.counted ?_
    rw [unheld]
    exact Counted.fresh _ _ _ _
  · show q < (r.segments ++ _).length
    rw [List.length_append]
    exact Nat.lt_add_right _ (valid.held_lt q holding)

theorem findOrCreate (valid : Valid ⟨r, held⟩) {permitted : Shm → Bool} {allocated : Bool} {key : Key}
    {size : UInt64} {isPrivate create exclusive : Bool} {result : Except Errno Nat}
    (answered : r.findOrCreate permitted allocated key size isPrivate create exclusive = some (r', result)) :
    Valid ⟨r', match result with | .ok p => p :: held | .error _ => held⟩ := by
  rcases Registry.findOrCreate_eq_some answered with
    ⟨e, rfl, rfl⟩ | ⟨p, rfl, _, _, incremented⟩ | ⟨p, created, rfl, within, room, _, made, incremented⟩
  · exact valid
  · exact valid.incRef incremented
  · exact (valid.create within room made).incRef incremented

theorem findByID (valid : Valid ⟨r, held⟩) {id : ID} (found : r.findByID id = (r', some p)) :
    Valid ⟨r', p :: held⟩ :=
  valid.incRef (Registry.findByID_eq_some found).2

end Valid

theorem Valid.step {t : System} (valid : Valid t) (action : Action) : Valid (step t action) := by
  obtain ⟨r, held⟩ := t
  cases action with
  | findOrCreate permitted allocated key size isPrivate create exclusive =>
    cases answered : r.findOrCreate permitted allocated key size isPrivate create exclusive with
    | none => simpa only [SysVShm.step, answered] using valid
    | some outcome =>
      obtain ⟨r', result⟩ := outcome
      have kept := valid.findOrCreate answered
      cases result <;> simpa only [SysVShm.step, answered] using kept
  | findByID id =>
    cases found : r.findByID id with
    | mk r' p =>
      cases p with
      | none =>
        rw [Registry.findByID_eq_none found] at *
        simpa only [SysVShm.step, found] using valid
      | some p => simpa only [SysVShm.step, found] using valid.findByID found
  | attach p =>
    by_cases holding : p ∈ held
    · cases incremented : r.incRef p with
      | none => simpa only [SysVShm.step, holding, if_true, incremented] using valid
      | some r' => simpa only [SysVShm.step, holding, if_true, incremented] using valid.incRef incremented
    · simpa only [SysVShm.step, holding, if_false] using valid
  | decRef p =>
    by_cases holding : p ∈ held
    · cases decremented : r.decRef p with
      | none => simpa only [SysVShm.step, holding, if_true, decremented] using valid
      | some r' => simpa only [SysVShm.step, holding, if_true, decremented] using valid.decRef holding decremented
    · simpa only [SysVShm.step, holding, if_false] using valid
  | markDestroyed p =>
    by_cases holding : p ∈ held
    · cases marked : r.markDestroyed p with
      | none => simpa only [SysVShm.step, holding, if_true, marked] using valid
      | some r' => simpa only [SysVShm.step, holding, if_true, marked] using valid.markDestroyed marked
    · simpa only [SysVShm.step, holding, if_false] using valid

theorem reachable_valid {t : System} (reachable : Reachable t) : Valid t :=
  StepRun.Reachable.invariant Valid valid_initial (fun _ action _ valid => valid.step action) reachable

/-! ## Keys

`shmget` passes `private` exactly for the key `IPC_PRIVATE`. Over its runs
`keysToShms` maps every other key exactly to the segment that carries it;
what it holds for `IPC_PRIVATE` itself is the last private segment created,
which `dissociateKey` never removes. -/

/-- `keysToShms` maps every key but `IPC_PRIVATE` exactly to the segment
that carries it. -/
def KeysExact (r : Registry) : Prop :=
  ∀ k, k ≠ ipcPrivate → ∀ p, r.keysToShms.lookup k = some p ↔ ∃ s : Shm, r.segments[p]? = some s ∧ s.key = k

/-- The flags `Shmget` passes to `FindOrCreate`. -/
def Action.FromShmget : Action → Prop
  | .findOrCreate _ _ key _ isPrivate _ _ => isPrivate = decide (key = ipcPrivate)
  | _ => True

namespace KeysExact

variable {r r' : Registry} {p : Nat} {s : Shm}

theorem modify (exact : KeysExact r) (found : r.segments[p]? = some s) (f : Shm → Shm)
    (same_key : (f s).key = s.key) : KeysExact (r.modify p f) := by
  intro k unprivate q
  rw [Registry.modify_keysToShms, Registry.modify_segments, exact k unprivate q]
  by_cases here : p = q
  · subst here
    simp [found, same_key]
  · rw [List.getElem?_modify_ne f r.segments here]

theorem dissociateKey (exact : KeysExact r) : KeysExact (r.dissociateKey p) := by
  cases found : r.segments[p]? with
  | none => simpa only [Registry.dissociateKey, found] using exact
  | some s =>
    by_cases keyed : s.key ≠ ipcPrivate
    · rw [Registry.dissociateKey_of_keyed found keyed]
      have owner : r.keysToShms.lookup s.key = some p := (exact s.key keyed p).mpr ⟨s, found, rfl⟩
      intro k unprivate q
      show (r.keysToShms.erase s.key).lookup k = some q ↔
        ∃ s' : Shm, (r.segments.modify p fun s => { s with key := ipcPrivate })[q]? = some s' ∧ s'.key = k
      by_cases here : p = q
      · -- the dissociated segment carries no key any more, and its key maps nowhere
        subst here
        rw [List.getElem?_modify_eq, found]
        refine iff_of_false (fun listed => ?_) ?_
        · by_cases erased : k = s.key
          · subst erased
            rw [Finmap.lookup_erase] at listed
            cases listed
          · rw [Finmap.lookup_erase_ne erased, exact k unprivate p] at listed
            obtain ⟨s', at_p, carries⟩ := listed
            rw [found, Option.some.injEq] at at_p
            subst at_p
            exact erased carries.symm
        · rintro ⟨s', made, carries⟩
          simp only [Option.map_eq_map, Option.map_some, Option.some.injEq] at made
          subst made
          exact unprivate carries.symm
      · rw [List.getElem?_modify_ne _ r.segments here]
        by_cases erased : k = s.key
        · subst erased
          rw [Finmap.lookup_erase]
          refine iff_of_false nofun ?_
          rintro ⟨s', at_q, carries⟩
          have other := (exact s.key keyed q).mpr ⟨s', at_q, carries⟩
          rw [owner] at other
          exact here (Option.some.inj other)
        · rw [Finmap.lookup_erase_ne erased, exact k unprivate q]
    · rw [Registry.dissociateKey_of_unkeyed found (not_not.mp keyed)]
      exact exact

theorem incRef (exact : KeysExact r) (incremented : r.incRef p = some r') : KeysExact r' := by
  obtain ⟨s, found, _, rfl⟩ := Registry.incRef_eq_some incremented
  exact exact.modify found _ rfl

theorem decRef (exact : KeysExact r) (decremented : r.decRef p = some r') : KeysExact r' := by
  obtain ⟨s, found, dropped⟩ := Registry.decRef_eq_some decremented
  rcases dropped with ⟨_, _, rfl⟩ | ⟨_, _, rfl⟩
  · exact exact.modify found _ rfl
  · exact exact.modify found _ rfl

theorem markDestroyed (exact : KeysExact r) (marked : r.markDestroyed p = some r') : KeysExact r' := by
  have dissociated : KeysExact (r.dissociateKey p) := exact.dissociateKey
  obtain ⟨s, found, outcome⟩ := Registry.markDestroyed_eq_some marked
  rcases outcome with ⟨_, decremented⟩ | ⟨_, rfl⟩
  · exact (dissociated.modify found _ rfl).decRef decremented
  · exact dissociated

theorem newShm (exact : KeysExact r) {allocated : Bool} {key : Key} {size : UInt64}
    (unused : key ≠ ipcPrivate → r.keysToShms.lookup key = none)
    (made : r.newShm allocated key size = some (r', .ok p)) : KeysExact r' := by
  obtain ⟨rounded, id, _, _, rfl, rfl⟩ := Registry.newShm_eq_ok made
  intro k unprivate q
  show (r.keysToShms.insert key r.segments.length).lookup k = some q ↔
    ∃ s' : Shm, (r.segments ++ [⟨id, key, size, UInt64.ofNat rounded, 1, false, 0⟩])[q]? = some s' ∧ s'.key = k
  rw [Arena.getElem?_append_singleton]
  by_cases same : k = key
  · subst same
    have unkeyed := unused unprivate
    rw [Finmap.lookup_insert, Option.some.injEq]
    by_cases before : q < r.segments.length
    · rw [if_pos before]
      refine iff_of_false (by omega) ?_
      intro carried
      have listed := (exact k unprivate q).mpr carried
      rw [unkeyed] at listed
      cases listed
    · rw [if_neg before]
      by_cases last : q = r.segments.length
      · simp [last]
      · simp only [if_neg last, reduceCtorEq, false_and, exists_false, iff_false]
        omega
  · rw [Finmap.lookup_insert_of_ne _ same, exact k unprivate q]
    by_cases before : q < r.segments.length
    · rw [if_pos before]
    · rw [if_neg before]
      refine iff_of_false (fun ⟨s', at_q, _⟩ => ?_) ?_
      · have := (List.getElem?_eq_some_iff.mp at_q).1
        omega
      · rintro ⟨s', made, carries⟩
        split at made
        · cases made
          exact same carries.symm
        · cases made

theorem findOrCreate (exact : KeysExact r) {permitted : Shm → Bool} {allocated : Bool} {key : Key}
    {size : UInt64} {isPrivate create exclusive : Bool} {result : Except Errno Nat}
    (fromShmget : isPrivate = decide (key = ipcPrivate))
    (answered : r.findOrCreate permitted allocated key size isPrivate create exclusive = some (r', result)) :
    KeysExact r' := by
  rcases Registry.findOrCreate_eq_some answered with
    ⟨e, rfl, rfl⟩ | ⟨p, rfl, _, _, incremented⟩ | ⟨p, created, rfl, _, _, unkeyed, made, incremented⟩
  · exact exact
  · exact exact.incRef incremented
  · have unused : key ≠ ipcPrivate → r.keysToShms.lookup key = none := fun keyed =>
      unkeyed (by simp [fromShmget, keyed])
    exact (exact.newShm unused made).incRef incremented

end KeysExact

theorem KeysExact.step {t : System} (exact : KeysExact t.registry) {action : Action} (fromShmget : action.FromShmget) :
    KeysExact (step t action).registry := by
  obtain ⟨r, held⟩ := t
  cases action with
  | findOrCreate permitted allocated key size isPrivate create exclusive =>
    cases answered : r.findOrCreate permitted allocated key size isPrivate create exclusive with
    | none => simpa only [SysVShm.step, answered] using exact
    | some outcome =>
      obtain ⟨r', result⟩ := outcome
      have kept := exact.findOrCreate fromShmget answered
      cases result <;> simpa only [SysVShm.step, answered] using kept
  | findByID id =>
    cases found : r.findByID id with
    | mk r' p =>
      cases p with
      | none =>
        rw [Registry.findByID_eq_none found] at *
        simpa only [SysVShm.step, found] using exact
      | some p => simpa only [SysVShm.step, found] using exact.incRef (Registry.findByID_eq_some found).2
  | attach p =>
    by_cases holding : p ∈ held
    · cases incremented : r.incRef p with
      | none => simpa only [SysVShm.step, holding, if_true, incremented] using exact
      | some r' => simpa only [SysVShm.step, holding, if_true, incremented] using exact.incRef incremented
    · simpa only [SysVShm.step, holding, if_false] using exact
  | decRef p =>
    by_cases holding : p ∈ held
    · cases decremented : r.decRef p with
      | none => simpa only [SysVShm.step, holding, if_true, decremented] using exact
      | some r' => simpa only [SysVShm.step, holding, if_true, decremented] using exact.decRef decremented
    · simpa only [SysVShm.step, holding, if_false] using exact
  | markDestroyed p =>
    by_cases holding : p ∈ held
    · cases marked : r.markDestroyed p with
      | none => simpa only [SysVShm.step, holding, if_true, marked] using exact
      | some r' => simpa only [SysVShm.step, holding, if_true, marked] using exact.markDestroyed marked
    · simpa only [SysVShm.step, holding, if_false] using exact

theorem keysExact_initial : KeysExact System.initial.registry := by
  intro k _ p
  simp [System.initial, newRegistry]

/-! ## What the runs keep, and what `FindOrCreate` answers -/

theorem reachable_accounts {t : System} (reachable : Reachable t) :
    (∀ id p, t.registry.shms.lookup id = some p ↔
        ∃ s : Shm, t.registry.segments[p]? = some s ∧ s.id = id ∧ s.releases = 0) ∧
      t.registry.totalPages.toNat = alivePages t.registry.segments ∧
      ∀ p (s : Shm), t.registry.segments[p]? = some s →
        s.releases ≤ 1 ∧ (s.releases = 1 ↔ s.pendingDestruction = true ∧ p ∉ t.held) := by
  have valid := reachable_valid reachable
  refine ⟨valid.indexed.shms_exact, valid.indexed.pages_eq, fun p s found => ?_⟩
  have counted := valid.counted p s found
  have refs := counted.refs_eq
  rw [counted.releases_eq, ← List.count_eq_zero]
  by_cases unreferenced : s.refs = 0
  · rw [if_pos unreferenced]
    cases pending : s.pendingDestruction
    · simp only [pending, Bool.false_eq_true, if_false] at refs
      omega
    · simp only [pending, if_true] at refs
      exact ⟨le_refl 1, iff_of_true rfl ⟨rfl, by omega⟩⟩
  · rw [if_neg unreferenced]
    refine ⟨Nat.zero_le 1, iff_of_false (by omega) ?_⟩
    rintro ⟨marked, unheld⟩
    simp only [marked, if_true, unheld] at refs
    omega

theorem shmget_keys_exact (actions : List Action)
    (fromShmget : StepRun.Allowed (fun _ action => action.FromShmget) step System.initial actions) :
    ∀ k, k ≠ ipcPrivate → ∀ p, (StepRun.run step System.initial actions).registry.keysToShms.lookup k = some p ↔
      ∃ s : Shm, (StepRun.run step System.initial actions).registry.segments[p]? = some s ∧ s.key = k ∧
        s.pendingDestruction = false := by
  have valid := reachable_valid ⟨actions, rfl⟩
  have exact : KeysExact (StepRun.run step System.initial actions).registry :=
    StepRun.Allowed.invariant (fun t => KeysExact t.registry) (fun _ _ exact allowed => exact.step allowed)
      keysExact_initial fromShmget
  intro k unprivate p
  rw [exact k unprivate p]
  constructor
  · rintro ⟨s, found, carries⟩
    refine ⟨s, found, carries, (valid.counted p s found).keyed_alive ?_⟩
    rw [carries]
    exact unprivate
  · rintro ⟨s, found, carries, _⟩
    exact ⟨s, found, carries⟩

theorem findOrCreate_existing {t : System} (valid : Valid t) (exact : KeysExact t.registry) {key : Key}
    (keyed : key ≠ ipcPrivate) {p : Nat} {s : Shm} (found : t.registry.segments[p]? = some s) (carries : s.key = key)
    {permitted : Shm → Bool} (allowed : permitted s = true) {size : UInt64} (fits : size ≤ s.size)
    {create exclusive : Bool} (reused : (create && exclusive) = false)
    (bounded : (create && (decide (size < shmMin) || decide (shmMax < size))) = false)
    (room : t.registry.shms.keys.card < shmMni) (allocated : Bool) :
    ∃ r', t.registry.incRef p = some r' ∧
      t.registry.findOrCreate permitted allocated key size false create exclusive = some (r', .ok p) := by
  have listed : t.registry.keysToShms.lookup key = some p := (exact key keyed p).mpr ⟨s, found, carries⟩
  have counted := valid.counted p s found
  have unmarked := counted.keyed_alive (carries ▸ keyed)
  have live : 0 < s.refs := by
    rw [counted.refs_eq, unmarked]
    simp only [Bool.false_eq_true, if_false]
    omega
  have incremented : t.registry.incRef p = some (t.registry.modify p fun s => { s with refs := s.refs + 1 }) := by
    simp only [Registry.incRef, found, if_neg (Int.not_le.mpr live)]
  refine ⟨_, incremented, ?_⟩
  have small : ¬s.size < size := UInt64.not_lt.mpr fits
  simp [Registry.findOrCreate, Bool.or_false, bounded, Nat.not_le.mpr room, listed, found, allowed, small, reused,
    incremented]

theorem findOrCreate_of_full (r : Registry) (full : shmMni ≤ r.shms.keys.card) (permitted : Shm → Bool)
    (allocated : Bool) (key : Key) (size : UInt64) (isPrivate create exclusive : Bool)
    (bounded : ((create || isPrivate) && (decide (size < shmMin) || decide (shmMax < size))) = false) :
    r.findOrCreate permitted allocated key size isPrivate create exclusive = some (r, .error .ENOSPC) := by
  simp [Registry.findOrCreate, bounded, full]

/-- `shmget(IPC_PRIVATE, 4096, IPC_CREAT)` and `shmctl(IPC_RMID)` on the
segment: its memory is released, and `keysToShms` still maps `IPC_PRIVATE`
to it. `shmget(5, 4096, IPC_CREAT)`, then `shmget(5, 0, IPC_CREAT)`: the
second call fails with `EINVAL` instead of returning the segment. -/
theorem private_key_outlives_segment_and_zero_size_refused :
    (let destroyed := StepRun.run step System.initial
        [.findOrCreate (fun _ => true) true ipcPrivate 4096 true true false, .decRef 0, .findByID 1,
          .markDestroyed 0, .decRef 0];
      destroyed.registry.keysToShms.lookup ipcPrivate = some 0 ∧ destroyed.registry.segments.map (·.releases) = [1] ∧
        destroyed.registry.shms.lookup 1 = none) ∧
    (let created := StepRun.run step System.initial
        [.findOrCreate (fun _ => true) true 5 4096 false true false, .decRef 0];
      created.registry.keysToShms.lookup 5 = some 0 ∧
        (created.registry.findOrCreate (fun _ => true) true 5 0 false true false).map Prod.snd =
          some (.error .EINVAL)) := by
  decide +kernel

end Cijitter.SysVShm
