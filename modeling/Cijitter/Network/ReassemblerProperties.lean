import Cijitter.Network.Reassembler
import Cijitter.Lib.BinaryHeapOrder

/-! What a reassembler computes. `updateHoles` leaves each open hole the
fragment meets marked deleted and appends what is left of it; the open
holes then hold exactly the offsets up to the packet's end that no fragment
covers, as long as the fragments agree on that end: each fragment with more
to come ends before it, each without ends at it. The heap holds fragments
covering everything received, popped in order of offset, so `reassemble`
finds no hole and returns a byte of a fragment at each offset. -/

set_option autoImplicit false

namespace Cijitter.Network

/-! ### `updateHoles` in closed form -/

namespace Hole

/-- The hole is open and the fragment `[first, last]` meets it: the test
`updateHoles` does not skip. -/
def hit (first last : UInt16) (h : Hole) : Bool :=
  !(h.deleted || first > h.last || last < h.first)

/-- The hole after the fragment: deleted if the fragment meets it. -/
def mark (first last : UInt16) (h : Hole) : Hole :=
  if h.hit first last then { h with deleted := true } else h

/-- What `updateHoles` appends for a hole the fragment meets. -/
def parts (first last : UInt16) (more : Bool) (h : Hole) : List Hole :=
  (if first > h.first then [⟨h.first, first - 1, false⟩] else []) ++
    (if last < h.last && more then [⟨last + 1, h.last, false⟩] else [])

end Hole

section UpdateHoles

variable (first last : UInt16) (more : Bool)

theorem updateHole_of_hit {st : List Hole × Nat × Bool} {i : Nat} {h : Hole} (found : st.1[i]? = some h)
    (hit : h.hit first last = true) :
    updateHole first last more st i =
      (st.1.set i { h with deleted := true } ++ h.parts first last more, st.2.1 + 1, true) := by
  unfold Hole.hit at hit
  unfold updateHole
  rw [found]
  simp only [Bool.not_eq_true'] at hit
  simp only [hit, Bool.false_eq_true, if_false, Hole.parts]
  split_ifs <;> simp

theorem updateHole_of_miss {st : List Hole × Nat × Bool} {i : Nat} {h : Hole} (found : st.1[i]? = some h)
    (miss : h.hit first last = false) : updateHole first last more st i = st := by
  unfold Hole.hit at miss
  unfold updateHole
  rw [found]
  simp only [Bool.not_eq_false'] at miss
  simp [miss]

theorem foldl_updateHole (holes : List Hole) (deleted : Nat) :
    ∀ m, m ≤ holes.length →
      (List.range m).foldl (updateHole first last more) (holes, deleted, false) =
        ((holes.take m).map (Hole.mark first last) ++ holes.drop m ++
            ((holes.take m).filter (Hole.hit first last)).flatMap (Hole.parts first last more),
          deleted + ((holes.take m).filter (Hole.hit first last)).length,
          (holes.take m).any (Hole.hit first last))
  | 0, _ => by simp
  | m + 1, inside => by
      rw [List.range_succ, List.foldl_append, foldl_updateHole holes deleted m (by omega), List.foldl_cons,
        List.foldl_nil]
      have split : holes.drop m = holes[m] :: holes.drop (m + 1) := List.drop_eq_getElem_cons (by omega)
      have prefixLength : ((holes.take m).map (Hole.mark first last)).length = m := by simp; omega
      have found : ((holes.take m).map (Hole.mark first last) ++ holes.drop m ++
          ((holes.take m).filter (Hole.hit first last)).flatMap (Hole.parts first last more))[m]? =
            some holes[m] := by
        rw [split, List.append_assoc, List.getElem?_append_right (by omega), prefixLength, Nat.sub_self]
        rfl
      have takeSucc : holes.take (m + 1) = holes.take m ++ [holes[m]] := List.take_succ_eq_append_getElem (by omega)
      cases hit : holes[m].hit first last
      · rw [updateHole_of_miss first last more found hit, takeSucc, split]
        have marked : holes[m].mark first last = holes[m] := by simp [Hole.mark, hit]
        simp only [List.map_append, List.map_cons, List.map_nil, marked, List.filter_append, List.filter_cons, hit,
          Bool.false_eq_true, if_false, List.filter_nil, List.append_nil, List.any_append, List.any_cons,
          List.any_nil, Bool.or_false, List.append_assoc, List.singleton_append]
      · rw [updateHole_of_hit first last more found hit, takeSucc, split]
        have marked : holes[m].mark first last = { holes[m] with deleted := true } := by simp [Hole.mark, hit]
        simp only [List.map_append, List.map_cons, List.map_nil, marked, List.filter_append, List.filter_cons, hit,
          if_true, List.filter_nil, List.flatMap_append, List.flatMap_cons, List.flatMap_nil, List.append_nil,
          List.length_append, List.length_cons, List.length_nil, List.any_append, List.any_cons, List.any_nil,
          List.append_assoc, List.singleton_append]
        rw [List.set_append_right _ _ (by omega), prefixLength, Nat.sub_self, List.cons_append, List.set_cons_zero]
        simp only [List.append_assoc, List.cons_append, Prod.mk.injEq]
        exact ⟨trivial, by omega, by simp⟩

theorem updateHoles_eq (r : Reassembler) :
    r.updateHoles first last more =
      ({ r with
          holes := r.holes.map (Hole.mark first last) ++
            (r.holes.filter (Hole.hit first last)).flatMap (Hole.parts first last more)
          deleted := r.deleted + (r.holes.filter (Hole.hit first last)).length },
        r.holes.any (Hole.hit first last)) := by
  unfold Reassembler.updateHoles
  rw [foldl_updateHole first last more r.holes r.deleted r.holes.length (Nat.le_refl _)]
  simp

end UpdateHoles

/-! ### The open holes are the offsets no fragment covers -/

/-- A fragment as `Process` receives it. -/
structure Piece where
  first : UInt16
  last : UInt16
  more : Bool
  vv : List UInt8

namespace Piece

def Covers (p : Piece) (n : Nat) : Prop :=
  p.first.toNat ≤ n ∧ n ≤ p.last.toNat

instance (p : Piece) (n : Nat) : Decidable (p.Covers n) :=
  inferInstanceAs (Decidable (_ ∧ _))

/-- A fragment of a packet whose last byte is at `L`: its payload is its
range, and it ends before `L` if more follow and at `L` if none do. -/
structure Fits (L : Nat) (p : Piece) : Prop where
  ordered : p.first.toNat ≤ p.last.toNat
  sized : p.vv.length = p.last.toNat - p.first.toNat + 1
  before : p.more = true → p.last.toNat < L
  final : p.more = false → p.last.toNat = L

instance (L : Nat) (p : Piece) : Decidable (p.Fits L) :=
  decidable_of_iff (_ ∧ _ ∧ _ ∧ _)
    ⟨fun ⟨ordered, sized, before, final⟩ => ⟨ordered, sized, before, final⟩,
      fun ⟨ordered, sized, before, final⟩ => ⟨ordered, sized, before, final⟩⟩

theorem Fits.last_le {L : Nat} {p : Piece} (fits : p.Fits L) : p.last.toNat ≤ L := by
  cases more : p.more
  · exact Nat.le_of_eq (fits.final more)
  · exact Nat.le_of_lt (fits.before more)

/-- What the heap stores of it. -/
def fragment (p : Piece) : Fragment :=
  ⟨p.first, p.vv⟩

end Piece

def Fragment.Covers (f : Fragment) (n : Nat) : Prop :=
  f.offset.toNat ≤ n ∧ n < f.offset.toNat + f.vv.length

theorem Piece.Fits.covers_fragment {L : Nat} {p : Piece} (fits : p.Fits L) (n : Nat) :
    p.fragment.Covers n ↔ p.Covers n := by
  simp only [Fragment.Covers, Piece.Covers, Piece.fragment, fits.sized]
  have := fits.ordered
  omega

def Hole.Holds (h : Hole) (n : Nat) : Prop :=
  h.deleted = false ∧ h.first.toNat ≤ n ∧ n ≤ h.last.toNat

def Covered (received : List Piece) (n : Nat) : Prop :=
  ∃ p ∈ received, p.Covers n

instance (received : List Piece) (n : Nat) : Decidable (Covered received n) :=
  inferInstanceAs (Decidable (∃ p ∈ received, p.Covers n))

/-- The last offset a hole may hold: the packet's end once its last fragment
is in, the last `uint16` before. -/
def top (L : Nat) (received : List Piece) : Nat :=
  if received.any (fun p => !p.more) then L else 65535

theorem covered_append {received : List Piece} {p : Piece} {n : Nat} :
    Covered (received ++ [p]) n ↔ Covered received n ∨ p.Covers n := by
  simp [Covered]

theorem top_append (L : Nat) (received : List Piece) (p : Piece) :
    top L (received ++ [p]) = if p.more then top L received else L := by
  unfold top
  cases final : p.more <;> simp [final]

theorem hit_iff {first last : UInt16} {h : Hole} :
    h.hit first last = true ↔ h.deleted = false ∧ first.toNat ≤ h.last.toNat ∧ h.first.toNat ≤ last.toNat := by
  unfold Hole.hit
  simp [UInt16.lt_iff_toNat_lt, and_assoc]

theorem mem_open_update {first last : UInt16} {more : Bool} {holes : List Hole} {h' : Hole} :
    (h' ∈ holes.map (Hole.mark first last) ++ (holes.filter (Hole.hit first last)).flatMap (Hole.parts first last more) ∧
        h'.deleted = false) ↔
      (h' ∈ holes ∧ h'.deleted = false ∧ h'.hit first last = false) ∨
        ∃ h ∈ holes, h.hit first last = true ∧ h' ∈ h.parts first last more := by
  constructor
  · rintro ⟨member, open'⟩
    rcases List.mem_append.mp member with marked | part
    · obtain ⟨h, original, rfl⟩ := List.mem_map.mp marked
      unfold Hole.mark at open' ⊢
      cases hit : h.hit first last
      · rw [hit] at open'
        exact Or.inl ⟨original, by simpa [hit] using open', hit⟩
      · simp [hit] at open'
    · obtain ⟨h, met, inParts⟩ := List.mem_flatMap.mp part
      obtain ⟨original, hit⟩ := List.mem_filter.mp met
      exact Or.inr ⟨h, original, hit, inParts⟩
  · rintro (⟨original, open', miss⟩ | ⟨h, original, hit, inParts⟩)
    · refine ⟨List.mem_append_left _ (List.mem_map.mpr ⟨h', original, ?_⟩), open'⟩
      simp [Hole.mark, miss]
    · refine ⟨List.mem_append_right _ (List.mem_flatMap.mpr ⟨h, List.mem_filter.mpr ⟨original, hit⟩, inParts⟩), ?_⟩
      unfold Hole.parts at inParts
      split_ifs at inParts <;> simp at inParts <;> rcases inParts with rfl | rfl <;> rfl

theorem mem_parts {first last : UInt16} {more : Bool} {h h' : Hole} :
    h' ∈ h.parts first last more ↔
      (h.first < first ∧ h' = ⟨h.first, first - 1, false⟩) ∨
        (last < h.last ∧ more = true ∧ h' = ⟨last + 1, h.last, false⟩) := by
  unfold Hole.parts
  by_cases head : h.first < first <;> by_cases tail : last < h.last <;> cases more <;> simp [head, tail]

theorem toNat_sub_one {first : UInt16} {start : UInt16} (above : start < first) :
    (first - 1).toNat = first.toNat - 1 := by
  rw [UInt16.lt_iff_toNat_lt] at above
  rw [UInt16.toNat_sub_of_le _ _ (by rw [UInt16.le_iff_toNat_le, UInt16.toNat_one]; omega), UInt16.toNat_one]

theorem toNat_add_one {last : UInt16} {stop : UInt16} (below : last < stop) :
    (last + 1).toNat = last.toNat + 1 := by
  rw [UInt16.lt_iff_toNat_lt] at below
  have := stop.toNat_lt
  rw [UInt16.toNat_add, UInt16.toNat_one, Nat.mod_eq_of_lt (by omega)]

theorem holds_parts {first last : UInt16} {more : Bool} {h : Hole} (n : Nat) :
    (∃ h' ∈ h.parts first last more, h'.Holds n) ↔
      (h.first.toNat ≤ n ∧ n < first.toNat) ∨ (more = true ∧ last.toNat < n ∧ n ≤ h.last.toNat) := by
  constructor
  · rintro ⟨h', member, holds⟩
    rcases mem_parts.mp member with ⟨head, rfl⟩ | ⟨tail, more, rfl⟩
    · obtain ⟨_, low, high⟩ := holds
      dsimp only at low high
      rw [toNat_sub_one head] at high
      have := UInt16.lt_iff_toNat_lt.mp head
      exact Or.inl ⟨low, by omega⟩
    · obtain ⟨_, low, high⟩ := holds
      dsimp only at low high
      rw [toNat_add_one tail] at low
      exact Or.inr ⟨more, by omega, high⟩
  · rintro (⟨low, high⟩ | ⟨more, low, high⟩)
    · have head : h.first < first := UInt16.lt_iff_toNat_lt.mpr (by omega)
      refine ⟨_, mem_parts.mpr (Or.inl ⟨head, rfl⟩), rfl, low, ?_⟩
      show n ≤ (first - 1).toNat
      rw [toNat_sub_one head]
      omega
    · have tail : last < h.last := UInt16.lt_iff_toNat_lt.mpr (by omega)
      refine ⟨_, mem_parts.mpr (Or.inr ⟨tail, more, rfl⟩), rfl, ?_, high⟩
      show (last + 1).toNat ≤ n
      rw [toNat_add_one tail]
      omega

/-- The open holes hold exactly the offsets up to `top` that no received
fragment covers, each open hole non-empty and bounded on either side by a
covered offset or the ends. -/
structure HolesTrack (L : Nat) (holes : List Hole) (received : List Piece) : Prop where
  nonempty : ∀ h ∈ holes, h.deleted = false → h.first.toNat ≤ h.last.toNat
  gaps : ∀ n, (∃ h ∈ holes, h.Holds n) ↔ n ≤ top L received ∧ ¬Covered received n
  lower : ∀ h ∈ holes, h.deleted = false → h.first.toNat = 0 ∨ Covered received (h.first.toNat - 1)
  upper : ∀ h ∈ holes, h.deleted = false → h.last.toNat = top L received ∨ Covered received (h.last.toNat + 1)

theorem holesTrack_new (L : Nat) : HolesTrack L [⟨0, 65535, false⟩] [] := by
  have topNil : top L [] = 65535 := rfl
  constructor
  · intro h member _
    rw [List.mem_singleton.mp member]
    decide
  · intro n
    rw [topNil]
    simp [Hole.Holds, Covered]
  · intro h member _
    rw [List.mem_singleton.mp member]
    exact Or.inl rfl
  · intro h member _
    rw [List.mem_singleton.mp member, topNil]
    exact Or.inl rfl

theorem covered_mono {received : List Piece} {p : Piece} {n : Nat} (covered : Covered received n) :
    Covered (received ++ [p]) n :=
  covered_append.mpr (Or.inl covered)

section Step

variable {L : Nat} {holes : List Hole} {received : List Piece} {p : Piece}

theorem HolesTrack.top_of_above (track : HolesTrack L holes received) (fits : ∀ q ∈ received, q.Fits L)
    {h : Hole} (member : h ∈ holes) (open' : h.deleted = false) (above : L < h.first.toNat) :
    top L received = L := by
  rcases track.lower h member open' with zero | ⟨q, inReceived, covers⟩
  · omega
  · obtain ⟨_, reaches⟩ := covers
    cases final : q.more
    · have anyFinal : received.any (fun p => !p.more) = true :=
        List.any_eq_true.mpr ⟨q, inReceived, by simp [final]⟩
      simp [top, anyFinal]
    · have := (fits q inReceived).before final
      omega

theorem top_append_le (bound : L ≤ 65535) (received : List Piece) (p : Piece) :
    top L (received ++ [p]) ≤ top L received := by
  rw [top_append]
  unfold top
  split_ifs <;> omega

theorem gaps_update (n : Nat) :
    (∃ h' ∈ holes.map (Hole.mark p.first p.last) ++
        (holes.filter (Hole.hit p.first p.last)).flatMap (Hole.parts p.first p.last p.more), h'.Holds n) ↔
      (∃ h ∈ holes, h.Holds n ∧ h.hit p.first p.last = false) ∨
        ∃ h ∈ holes, h.hit p.first p.last = true ∧
          ((h.first.toNat ≤ n ∧ n < p.first.toNat) ∨ (p.more = true ∧ p.last.toNat < n ∧ n ≤ h.last.toNat)) := by
  constructor
  · rintro ⟨h', member, holds⟩
    rcases mem_open_update.mp ⟨member, holds.1⟩ with ⟨original, _, miss⟩ | ⟨h, original, hit, inParts⟩
    · exact Or.inl ⟨h', original, holds, miss⟩
    · exact Or.inr ⟨h, original, hit, (holds_parts n).mp ⟨h', inParts, holds⟩⟩
  · rintro (⟨h, original, holds, miss⟩ | ⟨h, original, hit, part⟩)
    · exact ⟨h, (mem_open_update.mpr (Or.inl ⟨original, holds.1, miss⟩)).1, holds⟩
    · obtain ⟨h', inParts, holds⟩ := (holds_parts n).mpr part
      exact ⟨h', (mem_open_update.mpr (Or.inr ⟨h, original, hit, inParts⟩)).1, holds⟩

theorem HolesTrack.update (track : HolesTrack L holes received) (fits : ∀ q ∈ received, q.Fits L)
    (pFits : p.Fits L) (bound : L ≤ 65535) :
    HolesTrack L (holes.map (Hole.mark p.first p.last) ++
      (holes.filter (Hole.hit p.first p.last)).flatMap (Hole.parts p.first p.last p.more)) (received ++ [p]) := by
  have ordered := pFits.ordered
  constructor
  · intro h' member open'
    rcases mem_open_update.mp ⟨member, open'⟩ with ⟨original, stillOpen, _⟩ | ⟨h, _, _, inParts⟩
    · exact track.nonempty h' original stillOpen
    · rcases mem_parts.mp inParts with ⟨head, rfl⟩ | ⟨tail, _, rfl⟩
      · show h.first.toNat ≤ (p.first - 1).toNat
        rw [toNat_sub_one head]
        have := UInt16.lt_iff_toNat_lt.mp head
        omega
      · show (p.last + 1).toNat ≤ h.last.toNat
        rw [toNat_add_one tail]
        exact UInt16.lt_iff_toNat_lt.mp tail
  · intro n
    rw [gaps_update, top_append, covered_append]
    constructor
    · rintro (⟨h, member, holds, miss⟩ | ⟨h, member, hit, part⟩)
      · -- a hole the fragment misses
        obtain ⟨belowTop, uncovered⟩ := (track.gaps n).mp ⟨h, member, holds⟩
        obtain ⟨open', low, high⟩ := holds
        have misses : ¬(p.first.toNat ≤ h.last.toNat ∧ h.first.toNat ≤ p.last.toNat) := fun meets => by
          rw [hit_iff.mpr ⟨open', meets⟩] at miss
          cases miss
        refine ⟨?_, not_or.mpr ⟨uncovered, fun ⟨pLow, pHigh⟩ => misses ⟨by omega, by omega⟩⟩⟩
        cases final : p.more
        · rw [if_neg (by simp)]
          by_contra beyond
          have ends := pFits.final final
          have topL := track.top_of_above fits member open' (by omega)
          omega
        · rw [if_pos rfl]
          exact belowTop
      · -- what is left of a hole the fragment meets
        obtain ⟨open', meetsLow, meetsHigh⟩ := hit_iff.mp hit
        have holds : h.Holds n := by
          rcases part with ⟨low, high⟩ | ⟨_, low, high⟩
          · exact ⟨open', low, by omega⟩
          · exact ⟨open', by omega, high⟩
        obtain ⟨belowTop, uncovered⟩ := (track.gaps n).mp ⟨h, member, holds⟩
        refine ⟨?_, not_or.mpr ⟨uncovered, fun ⟨pLow, pHigh⟩ => by omega⟩⟩
        cases final : p.more
        · rw [if_neg (by simp)]
          have ends := pFits.final final
          rcases part with ⟨_, high⟩ | ⟨more, _, _⟩
          · omega
          · rw [final] at more
            cases more
        · rw [if_pos rfl]
          exact belowTop
    · rintro ⟨below, uncovered⟩
      obtain ⟨notOld, notP⟩ := not_or.mp uncovered
      have belowTop : n ≤ top L received := by
        have := top_append_le bound received p
        rw [top_append] at this
        omega
      obtain ⟨h, member, holds⟩ := (track.gaps n).mpr ⟨belowTop, notOld⟩
      cases hit : h.hit p.first p.last
      · exact Or.inl ⟨h, member, holds, hit⟩
      · refine Or.inr ⟨h, member, hit, ?_⟩
        obtain ⟨_, low, high⟩ := holds
        by_cases early : n < p.first.toNat
        · exact Or.inl ⟨low, early⟩
        · have late : p.last.toNat < n := by
            by_contra notLate
            exact notP ⟨by omega, by omega⟩
          cases final : p.more
          · rw [final, if_neg (by simp)] at below
            have := pFits.final final
            omega
          · exact Or.inr ⟨rfl, late, high⟩
  · intro h' member open'
    rcases mem_open_update.mp ⟨member, open'⟩ with ⟨original, stillOpen, _⟩ | ⟨h, original, hit, inParts⟩
    · rcases track.lower h' original stillOpen with zero | covered
      · exact Or.inl zero
      · exact Or.inr (covered_mono covered)
    · rcases mem_parts.mp inParts with ⟨_, rfl⟩ | ⟨tail, _, rfl⟩
      · rcases track.lower h original (hit_iff.mp hit).1 with zero | covered
        · exact Or.inl zero
        · exact Or.inr (covered_mono covered)
      · refine Or.inr (covered_append.mpr (Or.inr ⟨?_, ?_⟩))
        · show p.first.toNat ≤ (p.last + 1).toNat - 1
          rw [toNat_add_one tail]
          omega
        · show (p.last + 1).toNat - 1 ≤ p.last.toNat
          rw [toNat_add_one tail]
          omega
  · intro h' member open'
    rcases mem_open_update.mp ⟨member, open'⟩ with ⟨original, stillOpen, miss⟩ | ⟨h, original, hit, inParts⟩
    · rcases track.upper h' original stillOpen with atTop | covered
      · rw [top_append]
        cases final : p.more
        · -- the hole the last fragment misses ends at the packet's end already
          rw [if_neg (by simp)]
          have ends := pFits.final final
          have topL : top L received = L := by
            by_cases topIsL : top L received = L
            · exact topIsL
            · have top65535 : top L received = 65535 := by unfold top at topIsL ⊢; split_ifs at topIsL ⊢ <;> simp_all
              have reaches : p.first.toNat ≤ h'.last.toNat := by have := p.first.toNat_lt; omega
              have notMeets : ¬h'.first.toNat ≤ p.last.toNat := fun meets => by
                rw [hit_iff.mpr ⟨stillOpen, reaches, meets⟩] at miss
                cases miss
              exact track.top_of_above fits original stillOpen (by omega)
          exact Or.inl (by omega)
        · rw [if_pos rfl]
          exact Or.inl atTop
      · exact Or.inr (covered_mono covered)
    · rcases mem_parts.mp inParts with ⟨head, rfl⟩ | ⟨tail, more, rfl⟩
      · refine Or.inr (covered_append.mpr (Or.inr ⟨?_, ?_⟩))
        · show p.first.toNat ≤ (p.first - 1).toNat + 1
          rw [toNat_sub_one head]
          omega
        · show (p.first - 1).toNat + 1 ≤ p.last.toNat
          rw [toNat_sub_one head]
          have := UInt16.lt_iff_toNat_lt.mp head
          omega
      · rcases track.upper h original (hit_iff.mp hit).1 with atTop | covered
        · rw [top_append, more, if_pos rfl]
          exact Or.inl atTop
        · exact Or.inr (covered_mono covered)

end Step

/-! ### Reassembly -/

theorem fragmentLess_iff {a b : Fragment} : fragmentLess a b = true ↔ a.offset.toNat < b.offset.toNat := by
  simp [fragmentLess, UInt16.lt_iff_toNat_lt]

theorem fragmentLess_order : BinaryHeap.StrictWeakOrder fragmentLess where
  irrefl a := by
    cases less : fragmentLess a a
    · rfl
    · have := fragmentLess_iff.mp less
      omega
  trans a b c ab bc := fragmentLess_iff.mpr (by have := fragmentLess_iff.mp ab; have := fragmentLess_iff.mp bc; omega)
  negTrans a b c ab bc := by
    cases ac : fragmentLess a c
    · rfl
    · have := fragmentLess_iff.mp ac
      cases ab' : fragmentLess a b
      · cases bc' : fragmentLess b c
        · have notAB : ¬a.offset.toNat < b.offset.toNat := fun lt => by rw [fragmentLess_iff.mpr lt] at ab'; cases ab'
          have notBC : ¬b.offset.toNat < c.offset.toNat := fun lt => by rw [fragmentLess_iff.mpr lt] at bc'; cases bc'
          omega
        · rw [bc] at bc'
          cases bc'
      · rw [ab] at ab'
        cases ab'

/-- Each glued byte is the byte of a fragment covering its offset. -/
def Glued (frags : List Fragment) (views : List UInt8) : Prop :=
  ∀ k, k < views.length → ∃ f ∈ frags, f.Covers k ∧ views[k]? = f.vv[k - f.offset.toNat]?

theorem Glued.extend {all : List Fragment} {views : List UInt8} (glued : Glued all views) {curr : Fragment}
    (member : curr ∈ all) (early : curr.offset.toNat ≤ views.length) :
    Glued all (views ++ curr.vv.drop (views.length - curr.offset.toNat)) := by
  intro k inside
  by_cases old : k < views.length
  · obtain ⟨f, fMember, covers, byte⟩ := glued k old
    exact ⟨f, fMember, covers, by rw [List.getElem?_append_left old, byte]⟩
  · rw [List.length_append, List.length_drop] at inside
    refine ⟨curr, member, ⟨by omega, by omega⟩, ?_⟩
    rw [List.getElem?_append_right (by omega), List.getElem?_drop]
    congr 1
    omega

section Loop

variable {all : List Fragment} {L : Nat}

theorem reassembleLoop_spec (nonempty : ∀ f ∈ all, 0 < f.vv.length)
    (within : ∀ f ∈ all, f.offset.toNat + f.vv.length ≤ L + 1) (spanning : ∀ n ≤ L, ∃ f ∈ all, f.Covers n) :
    ∀ (fuel : Nat) (H : List Fragment) (views : List UInt8), H.length ≤ fuel →
      BinaryHeap.Ordered fragmentLess H → (∀ f ∈ H, f ∈ all) → views.length ≤ L + 1 → Glued all views →
      (∀ f ∈ all, f.offset.toNat + f.vv.length ≤ views.length ∨ f ∈ H) →
      ∃ payload, reassembleLoop fuel H views.length views = .ok payload ∧ payload.length = L + 1 ∧
        Glued all payload := by
  -- the heap empty, every fragment is glued, and the one covering `L` ends the bytes
  have finished : ∀ views : List UInt8, views.length ≤ L + 1 →
      (∀ f ∈ all, f.offset.toNat + f.vv.length ≤ views.length ∨ f ∈ ([] : List Fragment)) →
      views.length = L + 1 := by
    intro views short glued
    obtain ⟨g, gMember, _, reaches⟩ := spanning L (Nat.le_refl L)
    rcases glued g gMember with ends | absent
    · omega
    · exact absurd absent List.not_mem_nil
  intro fuel
  induction fuel with
  | zero =>
      intro H views length _ _ short glued gluedAll
      have empty : H = [] := List.eq_nil_of_length_eq_zero (by omega)
      subst empty
      exact ⟨views, rfl, finished views short gluedAll, glued⟩
  | succ fuel ih =>
      intro H views length ordered inAll short glued gluedAll
      unfold reassembleLoop
      cases popped : BinaryHeap.pop fragmentLess H with
      | none =>
          have empty : H = [] := by
            by_contra nonEmpty
            obtain ⟨_, _, some'⟩ := BinaryHeap.pop_of_ne_nil fragmentLess nonEmpty
            rw [some'] at popped
            cases popped
          subst empty
          exact ⟨views, rfl, finished views short gluedAll, glued⟩
      | some top =>
          obtain ⟨curr, rest⟩ := top
          obtain ⟨perm, least, restOrdered⟩ := BinaryHeap.pop_spec fragmentLess_order ordered popped
          have sizes := BinaryHeap.length_pop fragmentLess popped
          have currMember : curr ∈ all := inAll curr (perm.subset List.mem_cons_self)
          -- no fragment left starts after the glued bytes
          have early : curr.offset.toNat ≤ views.length := by
            by_cases room : views.length ≤ L
            · obtain ⟨g, gMember, covers⟩ := spanning views.length room
              rcases gluedAll g gMember with ends | remaining
              · exact absurd covers.2 (by omega)
              · have notLess := least g remaining
                have : ¬g.offset.toNat < curr.offset.toNat := fun lt => by
                  rw [fragmentLess_iff.mpr lt] at notLess
                  cases notLess
                exact Nat.le_trans (Nat.le_of_not_lt this) covers.1
            · have := within curr currMember
              have := nonempty curr currMember
              omega
          have next := ih rest (views ++ curr.vv.drop (views.length - curr.offset.toNat)) (by omega) restOrdered
            (fun f member => inAll f (perm.subset (List.mem_cons_of_mem curr member)))
            (by
              rw [List.length_append, List.length_drop]
              have := within curr currMember
              omega)
            (glued.extend currMember early)
            (by
              intro f member
              rw [List.length_append, List.length_drop]
              rcases gluedAll f member with ends | remaining
              · exact Or.inl (by omega)
              · rcases List.mem_cons.mp (perm.symm.subset remaining) with rfl | later
                · exact Or.inl (by omega)
                · exact Or.inr later)
          rw [List.length_append, List.length_drop] at next
          dsimp only
          by_cases overlaps : curr.offset.toNat < views.length
          · rw [if_pos overlaps]
            have sized : views.length + (curr.vv.length - (views.length - curr.offset.toNat)) =
                views.length + (curr.vv.drop (views.length - curr.offset.toNat)).length := by
              rw [List.length_drop]
            rw [← sized]
            exact next
          · have same : curr.offset.toNat = views.length := by omega
            rw [if_neg overlaps, if_neg (by omega)]
            rw [same, Nat.sub_self, List.drop_zero, Nat.sub_zero] at next
            exact next

theorem reassemble_spec {heap : List Fragment} (ordered : BinaryHeap.Ordered fragmentLess heap)
    (nonempty : ∀ f ∈ heap, 0 < f.vv.length) (within : ∀ f ∈ heap, f.offset.toNat + f.vv.length ≤ L + 1)
    (spanning : ∀ n ≤ L, ∃ f ∈ heap, f.Covers n) :
    ∃ payload, reassemble heap = .ok payload ∧ payload.length = L + 1 ∧ Glued heap payload := by
  obtain ⟨g, gMember, gCovers⟩ := spanning 0 (Nat.zero_le L)
  unfold reassemble
  cases popped : BinaryHeap.pop fragmentLess heap with
  | none =>
      obtain ⟨_, _, some'⟩ := BinaryHeap.pop_of_ne_nil fragmentLess (List.ne_nil_of_mem gMember)
      rw [some'] at popped
      cases popped
  | some top =>
      obtain ⟨curr, rest⟩ := top
      obtain ⟨perm, least, restOrdered⟩ := BinaryHeap.pop_spec fragmentLess_order ordered popped
      have currMember : curr ∈ heap := perm.subset List.mem_cons_self
      -- the first fragment popped starts at zero, as the one covering zero does
      have atZero : curr.offset = 0 := by
        have notLess := least g gMember
        have : ¬g.offset.toNat < curr.offset.toNat := fun lt => by
          rw [fragmentLess_iff.mpr lt] at notLess
          cases notLess
        apply UInt16.toNat_inj.mp
        have := gCovers.1
        simp only [UInt16.toNat_zero]
        omega
      dsimp only
      rw [if_neg (by simp [atZero])]
      have loop := @reassembleLoop_spec heap L nonempty within spanning rest.length rest curr.vv (Nat.le_refl _)
        restOrdered (fun f member => perm.subset (List.mem_cons_of_mem curr member))
        (by have := within curr currMember; omega)
        (by
          intro k inside
          refine ⟨curr, currMember, ⟨by simp [atZero], by simp [atZero]; exact inside⟩, ?_⟩
          simp [atZero])
        (by
          intro f member
          rcases List.mem_cons.mp (perm.symm.subset member) with rfl | later
          · exact Or.inl (by simp [atZero])
          · exact Or.inr later)
      exact loop

end Loop

/-! ### `process` against the fragments received -/

/-- The packet is complete once its last fragment is in and every offset up
to its end is covered. -/
def Complete (L : Nat) (received : List Piece) : Prop :=
  (∃ q ∈ received, q.more = false) ∧ ∀ n ≤ L, Covered received n

instance (L : Nat) (received : List Piece) : Decidable (Complete L received) :=
  inferInstanceAs (Decidable (_ ∧ _))

theorem top_of_final {L : Nat} {received : List Piece} (final : ∃ q ∈ received, q.more = false) :
    top L received = L := by
  obtain ⟨q, member, last⟩ := final
  have anyFinal : received.any (fun p => !p.more) = true := List.any_eq_true.mpr ⟨q, member, by simp [last]⟩
  simp [top, anyFinal]

theorem covered_top_iff {L : Nat} {received : List Piece} (fits : ∀ q ∈ received, q.Fits L) (bound : L ≤ 65535) :
    (∀ n ≤ top L received, Covered received n) ↔ Complete L received := by
  by_cases final : ∃ q ∈ received, q.more = false
  · rw [top_of_final final]
    exact ⟨fun covered => ⟨final, covered⟩, fun complete => complete.2⟩
  · have topMax : top L received = 65535 := by
      have noFinal : received.any (fun p => !p.more) = false := by
        simpa using final
      simp [top, noFinal]
    rw [topMax]
    constructor
    · intro covered
      obtain ⟨q, member, _, reaches⟩ := covered 65535 (Nat.le_refl _)
      cases more : q.more
      · exact absurd ⟨q, member, more⟩ final
      · have := (fits q member).before more
        omega
    · intro complete
      exact absurd complete.1 final

theorem parts_open {first last : UInt16} {more : Bool} {h h' : Hole} (member : h' ∈ h.parts first last more) :
    h'.deleted = false := by
  rcases mem_parts.mp member with ⟨_, rfl⟩ | ⟨_, _, rfl⟩ <;> rfl

theorem filter_deleted_mark (first last : UInt16) :
    ∀ holes : List Hole, ((holes.map (Hole.mark first last)).filter Hole.deleted).length =
      (holes.filter Hole.deleted).length + (holes.filter (Hole.hit first last)).length
  | [] => rfl
  | h :: rest => by
      have ih := filter_deleted_mark first last rest
      cases hit : h.hit first last
      · have marked : h.mark first last = h := by simp [Hole.mark, hit]
        cases deleted : h.deleted <;> simp [marked, hit, deleted, ih]
        omega
      · have marked : h.mark first last = { h with deleted := true } := by simp [Hole.mark, hit]
        have open' : h.deleted = false := (hit_iff.mp hit).1
        simp [marked, hit, open', ih]
        omega

theorem filter_deleted_update (first last : UInt16) (more : Bool) (holes : List Hole) :
    ((holes.map (Hole.mark first last) ++
        (holes.filter (Hole.hit first last)).flatMap (Hole.parts first last more)).filter Hole.deleted).length =
      (holes.filter Hole.deleted).length + (holes.filter (Hole.hit first last)).length := by
  have noneDeleted : ((holes.filter (Hole.hit first last)).flatMap (Hole.parts first last more)).filter Hole.deleted = [] :=
    List.filter_eq_nil_iff.mpr fun h' member => by
      obtain ⟨_, _, inParts⟩ := List.mem_flatMap.mp member
      simp [parts_open inParts]
  rw [List.filter_append, List.length_append, filter_deleted_mark, noneDeleted, List.length_nil, Nat.add_zero]

theorem not_lt_iff_all_deleted {holes : List Hole} {deleted : Nat}
    (counted : deleted = (holes.filter Hole.deleted).length) :
    ¬deleted < holes.length ↔ ∀ h ∈ holes, h.deleted = true := by
  rw [counted, ← List.length_filter_eq_length_iff]
  have := List.length_filter_le Hole.deleted holes
  omega

theorem HolesTrack.all_deleted_iff {L : Nat} {holes : List Hole} {received : List Piece}
    (track : HolesTrack L holes received) :
    (∀ h ∈ holes, h.deleted = true) ↔ ∀ n ≤ top L received, Covered received n := by
  constructor
  · intro allDeleted n below
    by_contra uncovered
    obtain ⟨h, member, open', _⟩ := (track.gaps n).mpr ⟨below, uncovered⟩
    rw [allDeleted h member] at open'
    cases open'
  · intro covered h member
    by_contra open'
    have holds : h.Holds h.first.toNat :=
      ⟨by simpa using open', Nat.le_refl _, track.nonempty h member (by simpa using open')⟩
    obtain ⟨below, uncovered⟩ := (track.gaps h.first.toNat).mp ⟨h, member, holds⟩
    exact uncovered (covered _ below)

/-- `process` after `updateHoles`: the fragment pushed on the heap and its
bytes added to `size` if it filled some hole, and the bytes consumed. -/
def Reassembler.store (r : Reassembler) (first last : UInt16) (more : Bool) (vv : List UInt8) : Reassembler × Int :=
  let updated := r.updateHoles first last more
  if updated.2 then
    ({ updated.1 with
        heap := BinaryHeap.push fragmentLess updated.1.heap ⟨first, vv⟩
        size := updated.1.size + vv.length }, vv.length)
  else (updated.1, 0)

namespace Reassembler

variable (r : Reassembler) (first last : UInt16) (more : Bool) (vv : List UInt8)

theorem process_of_not_done (notDone : r.done = false) :
    r.process first last more vv =
      if (r.store first last more vv).1.deleted < (r.store first last more vv).1.holes.length then
        ((r.store first last more vv).1, ⟨[], false, (r.store first last more vv).2, none⟩)
      else
        match reassemble (r.store first last more vv).1.heap with
        | .error e => ((r.store first last more vv).1, ⟨[], false, (r.store first last more vv).2, some e⟩)
        | .ok res => ({ (r.store first last more vv).1 with heap := [] }, ⟨res, true, (r.store first last more vv).2, none⟩) := by
  rw [Reassembler.process, if_neg (by simp [notDone])]
  rfl

@[simp] theorem store_holes :
    (r.store first last more vv).1.holes =
      r.holes.map (Hole.mark first last) ++ (r.holes.filter (Hole.hit first last)).flatMap (Hole.parts first last more) := by
  unfold store
  rw [updateHoles_eq]
  dsimp only
  split <;> rfl

@[simp] theorem store_deleted :
    (r.store first last more vv).1.deleted = r.deleted + (r.holes.filter (Hole.hit first last)).length := by
  unfold store
  rw [updateHoles_eq]
  dsimp only
  split <;> rfl

@[simp] theorem store_heap :
    (r.store first last more vv).1.heap =
      if r.holes.any (Hole.hit first last) then BinaryHeap.push fragmentLess r.heap ⟨first, vv⟩ else r.heap := by
  unfold store
  rw [updateHoles_eq]
  dsimp only
  split <;> rfl

@[simp] theorem store_done : (r.store first last more vv).1.done = r.done := by
  unfold store
  rw [updateHoles_eq]
  dsimp only
  split <;> rfl

@[simp] theorem store_creationTime : (r.store first last more vv).1.creationTime = r.creationTime := by
  unfold store
  rw [updateHoles_eq]
  dsimp only
  split <;> rfl

theorem store_consumed_le : (r.store first last more vv).2 ≤ vv.length := by
  unfold store
  dsimp only
  split <;> simp

end Reassembler

/-- What a reassembler not yet done keeps of the fragments received: the
holes track them, `deleted` counts the deleted holes, and the heap is in
order and holds received fragments covering every covered offset up to
`top`. -/
structure Tracks (L : Nat) (r : Reassembler) (received : List Piece) : Prop where
  holes : HolesTrack L r.holes received
  counted : r.deleted = (r.holes.filter Hole.deleted).length
  fits : ∀ q ∈ received, q.Fits L
  ordered : BinaryHeap.Ordered fragmentLess r.heap
  stored : ∀ f ∈ r.heap, ∃ q ∈ received, f = q.fragment
  spans : ∀ n ≤ top L received, Covered received n → ∃ f ∈ r.heap, f.Covers n
  notDone : r.done = false

theorem tracks_new (L : Nat) (id : UInt32) (now : Int) : Tracks L (newReassembler id now) [] where
  holes := holesTrack_new L
  counted := rfl
  fits _ member := absurd member List.not_mem_nil
  ordered := BinaryHeap.ordered_nil
  stored _ member := absurd member List.not_mem_nil
  spans _ _ covered := by
    obtain ⟨_, member, _⟩ := covered
    exact absurd member List.not_mem_nil
  notDone := rfl

section Process

variable {L : Nat} {r : Reassembler} {received : List Piece} {p : Piece}

theorem Tracks.covered_of_unused (track : Tracks L r received) (bound : L ≤ 65535)
    (unused : r.holes.any (Hole.hit p.first p.last) = false) {n : Nat} (below : n ≤ top L (received ++ [p]))
    (covers : p.Covers n) : Covered received n := by
  by_contra uncovered
  have topBelow : n ≤ top L received := Nat.le_trans below (top_append_le bound received p)
  obtain ⟨h, member, open', low, high⟩ := (track.holes.gaps n).mpr ⟨topBelow, uncovered⟩
  obtain ⟨coversLow, coversHigh⟩ := covers
  have hit : h.hit p.first p.last = true := hit_iff.mpr ⟨open', by omega, by omega⟩
  have used : r.holes.any (Hole.hit p.first p.last) = true := List.any_eq_true.mpr ⟨h, member, hit⟩
  rw [unused] at used
  cases used

theorem Tracks.store (track : Tracks L r received) (pFits : p.Fits L) (bound : L ≤ 65535) :
    Tracks L (r.store p.first p.last p.more p.vv).1 (received ++ [p]) := by
  have allFit : ∀ q ∈ received ++ [p], q.Fits L := by
    intro q member
    rcases List.mem_append.mp member with old | new
    · exact track.fits q old
    · rw [List.mem_singleton.mp new]
      exact pFits
  constructor
  · rw [Reassembler.store_holes]
    exact track.holes.update track.fits pFits bound
  · rw [Reassembler.store_deleted, Reassembler.store_holes, filter_deleted_update, track.counted]
  · exact allFit
  · rw [Reassembler.store_heap]
    split
    · exact track.ordered.push fragmentLess_order _
    · exact track.ordered
  · intro f member
    rw [Reassembler.store_heap] at member
    split at member
    · rcases List.mem_append.mp ((BinaryHeap.push_perm _ _).subset member) with old | new
      · obtain ⟨q, inReceived, rfl⟩ := track.stored f old
        exact ⟨q, List.mem_append_left _ inReceived, rfl⟩
      · exact ⟨p, List.mem_append_right _ List.mem_cons_self, List.mem_singleton.mp new⟩
    · obtain ⟨q, inReceived, rfl⟩ := track.stored f member
      exact ⟨q, List.mem_append_left _ inReceived, rfl⟩
  · intro n below covered
    rw [Reassembler.store_heap]
    have oldSpans : Covered received n → ∃ f ∈ r.heap, f.Covers n := fun old =>
      track.spans n (Nat.le_trans below (top_append_le bound received p)) old
    split
    · rcases covered_append.mp covered with old | new
      · obtain ⟨f, member, covers⟩ := oldSpans old
        exact ⟨f, (BinaryHeap.push_perm _ _).symm.subset (List.mem_append_left _ member), covers⟩
      · exact ⟨p.fragment, (BinaryHeap.push_perm _ _).symm.subset (List.mem_append_right _ List.mem_cons_self),
          (pFits.covers_fragment n).mpr new⟩
    · rename_i unused
      rcases covered_append.mp covered with old | new
      · exact oldSpans old
      · exact oldSpans (track.covered_of_unused bound (by simpa using unused) below new)
  · rw [Reassembler.store_done]
    exact track.notDone

theorem Tracks.process_of_incomplete (track : Tracks L r received) (pFits : p.Fits L) (bound : L ≤ 65535)
    (incomplete : ¬Complete L (received ++ [p])) :
    r.process p.first p.last p.more p.vv =
      ((r.store p.first p.last p.more p.vv).1, ⟨[], false, (r.store p.first p.last p.more p.vv).2, none⟩) := by
  have stored := track.store pFits bound
  have stillOpen : (r.store p.first p.last p.more p.vv).1.deleted < (r.store p.first p.last p.more p.vv).1.holes.length := by
    by_contra closed
    rw [not_lt_iff_all_deleted stored.counted, stored.holes.all_deleted_iff, covered_top_iff stored.fits bound] at closed
    exact incomplete closed
  rw [Reassembler.process_of_not_done _ _ _ _ _ track.notDone, if_pos stillOpen]

theorem Tracks.process_of_complete (track : Tracks L r received) (pFits : p.Fits L) (bound : L ≤ 65535)
    (complete : Complete L (received ++ [p])) :
    ∃ res, r.process p.first p.last p.more p.vv =
        ({ (r.store p.first p.last p.more p.vv).1 with heap := [] },
          ⟨res, true, (r.store p.first p.last p.more p.vv).2, none⟩) ∧
      res.length = L + 1 ∧ ∀ k ≤ L, ∃ q ∈ received ++ [p], q.Covers k ∧ res[k]? = q.vv[k - q.first.toNat]? := by
  have stored := track.store pFits bound
  have closed : ¬(r.store p.first p.last p.more p.vv).1.deleted < (r.store p.first p.last p.more p.vv).1.holes.length := by
    rw [not_lt_iff_all_deleted stored.counted, stored.holes.all_deleted_iff, covered_top_iff stored.fits bound]
    exact complete
  have topL := top_of_final (L := L) complete.1
  obtain ⟨res, reassembled, length, glued⟩ := reassemble_spec (L := L) stored.ordered
    (fun f member => by
      obtain ⟨q, inReceived, rfl⟩ := stored.stored f member
      simp [Piece.fragment, (stored.fits q inReceived).sized])
    (fun f member => by
      obtain ⟨q, inReceived, rfl⟩ := stored.stored f member
      have fits := stored.fits q inReceived
      have := fits.last_le
      have := fits.ordered
      simp only [Piece.fragment, fits.sized]
      omega)
    (fun n below => stored.spans n (by rw [topL]; exact below) (complete.2 n below))
  refine ⟨res, ?_, length, ?_⟩
  · rw [Reassembler.process_of_not_done _ _ _ _ _ track.notDone, if_neg closed, reassembled]
  · intro k below
    obtain ⟨f, member, covers, byte⟩ := glued k (by omega)
    obtain ⟨q, inReceived, rfl⟩ := stored.stored f member
    exact ⟨q, inReceived, ((stored.fits q inReceived).covers_fragment k).mp covers, byte⟩

end Process

end Cijitter.Network
