import Cijitter.Mm.Syscalls
import Cijitter.Lib.SegmentListProperties

/-! What `MProtect` does to the permissions of each address: every address
keeps its `realPerms` or gets exactly the requested ones, whether the call
succeeds or fails part-way, and the vma list stays a segment set, in order
and with non-empty segments. -/

set_option autoImplicit false

namespace Cijitter.Mm

open Usermem SegmentList Syserror

/-- The `realPerms` of the vma mapping `addr`, if one does. -/
def MemoryManager.realPermsAt (mm : MemoryManager) (addr : Nat) : Option AccessType :=
  (lookup addr mm.vmas).map Vma.realPerms

theorem vmaMerge_keeps (f : Vma → AccessType) (same : ∀ vma, f vma = vma.realPerms) :
    MergeKeeps vmaMerge f := by
  intro first second value merged
  unfold vmaMerge at merged
  split at merged
  · next agree =>
    cases merged
    exact ⟨rfl, by rw [same, same, agree.1]⟩
  · cases merged

theorem vmaSplit_keeps {W : Type} (f : Vma → W) : SplitKeeps vmaSplit f :=
  fun _ _ => ⟨rfl, rfl⟩

private theorem realPerms_pieces (ar : AddrRange) (realPerms : AccessType) (vseg : VmaSeg)
    (rest : List VmaSeg) (key : Nat) :
    (lookup key ((isolate vmaSplit vseg ar.start ar.stop).1 ++
        withPerms (isolate vmaSplit vseg ar.start ar.stop).2.1 realPerms ::
          (isolate vmaSplit vseg ar.start ar.stop).2.2 ++ rest)).map Vma.realPerms =
        (lookup key (vseg :: rest)).map Vma.realPerms ∨
      (lookup key ((isolate vmaSplit vseg ar.start ar.stop).1 ++
        withPerms (isolate vmaSplit vseg ar.start ar.stop).2.1 realPerms ::
          (isolate vmaSplit vseg ar.start ar.stop).2.2 ++ rest)).map Vma.realPerms = some realPerms := by
  have isolated := map_lookup_isolate (vmaSplit_keeps Vma.realPerms) vseg ar.start ar.stop key rest
  simp only [List.append_assoc, List.cons_append] at isolated ⊢
  rcases lookup_replace key (isolate vmaSplit vseg ar.start ar.stop).1
      ((isolate vmaSplit vseg ar.start ar.stop).2.2 ++ rest)
      (isolate vmaSplit vseg ar.start ar.stop).2.1
      (withPerms (isolate vmaSplit vseg ar.start ar.stop).2.1 realPerms) rfl rfl with same | updated
  · left
    rw [same]
    exact isolated
  · right
    rw [updated]
    rfl

theorem mprotectLoop_realPerms (ar : AddrRange) (realPerms : AccessType) (key : Nat) :
    ∀ (dataAS : UInt64) (vseg : VmaSeg) (rest : List VmaSeg),
      (lookup key (mprotectLoop ar realPerms dataAS vseg rest).1).map Vma.realPerms =
          (lookup key (vseg :: rest)).map Vma.realPerms ∨
        (lookup key (mprotectLoop ar realPerms dataAS vseg rest).1).map Vma.realPerms =
          some realPerms := by
  intro dataAS vseg rest
  induction rest generalizing dataAS vseg with
  | nil =>
    unfold mprotectLoop
    split
    · exact .inl rfl
    · dsimp only
      split
      · have pieces := realPerms_pieces ar realPerms vseg [] key
        simp only [List.append_nil] at pieces ⊢
        exact pieces
      · have pieces := realPerms_pieces ar realPerms vseg [] key
        simp only [List.append_nil] at pieces ⊢
        exact pieces
  | cons next rest ih =>
    unfold mprotectLoop
    split
    · exact .inl rfl
    · dsimp only
      split
      · exact realPerms_pieces ar realPerms vseg (next :: rest) key
      · split
        · rcases realPerms_pieces ar realPerms vseg
              (mprotectLoop ar realPerms (adjustDataAS dataAS
                (isolate vmaSplit vseg ar.start ar.stop).2.1
                (withPerms (isolate vmaSplit vseg ar.start ar.stop).2.1 realPerms)) next rest).1
              key with same | updated
          · rw [same]
            rw [lookup_cons, lookup_cons key vseg]
            split
            · exact .inl rfl
            · exact ih _ next
          · exact .inr updated
        · exact realPerms_pieces ar realPerms vseg (next :: rest) key

private theorem allNonempty_pieces (ar : AddrRange) (realPerms : AccessType) (vseg : VmaSeg)
    {rest : List VmaSeg} (nonempty : vseg.start < vseg.stop) (rest_nonempty : AllNonempty rest) :
    AllNonempty ((isolate vmaSplit vseg ar.start ar.stop).1 ++
      withPerms (isolate vmaSplit vseg ar.start ar.stop).2.1 realPerms ::
        (isolate vmaSplit vseg ar.start ar.stop).2.2 ++ rest) := by
  have pieces := @allNonempty_isolate _ vmaSplit vseg ar.start ar.stop nonempty
  simp only [allNonempty_append, allNonempty_cons] at pieces ⊢
  exact ⟨⟨pieces.1, pieces.2.1, pieces.2.2⟩, rest_nonempty⟩

theorem allNonempty_mprotectLoop (ar : AddrRange) (realPerms : AccessType) :
    ∀ (dataAS : UInt64) (vseg : VmaSeg) (rest : List VmaSeg), AllNonempty (vseg :: rest) →
      AllNonempty (mprotectLoop ar realPerms dataAS vseg rest).1 := by
  intro dataAS vseg rest
  induction rest generalizing dataAS vseg with
  | nil =>
    intro nonempty
    obtain ⟨vseg_nonempty, _⟩ := allNonempty_cons.mp nonempty
    unfold mprotectLoop
    split
    · exact nonempty
    · dsimp only
      split <;>
        simpa using @allNonempty_pieces ar realPerms vseg [] vseg_nonempty (fun _ member => by simp at member)
  | cons next rest ih =>
    intro nonempty
    obtain ⟨vseg_nonempty, rest_nonempty⟩ := allNonempty_cons.mp nonempty
    unfold mprotectLoop
    split
    · exact nonempty
    · dsimp only
      split
      · exact allNonempty_pieces ar realPerms vseg vseg_nonempty rest_nonempty
      · split
        · exact allNonempty_pieces ar realPerms vseg vseg_nonempty (ih _ next rest_nonempty)
        · exact allNonempty_pieces ar realPerms vseg vseg_nonempty rest_nonempty

theorem mergeVmas_realPerms (ar : AddrRange) (vmas : List VmaSeg) (nonempty : AllNonempty vmas)
    (key : Nat) :
    (lookup key (mergeVmas ar vmas)).map Vma.realPerms = (lookup key vmas).map Vma.realPerms := by
  have keeps := vmaMerge_keeps Vma.realPerms (fun _ => rfl)
  unfold mergeVmas
  rw [map_lookup_mergeAdjacent keeps _ _ key _ (allNonempty_mergeRange _ _ vmas nonempty),
    map_lookup_mergeRange keeps _ _ key vmas nonempty]

theorem allNonempty_mergeVmas (ar : AddrRange) (vmas : List VmaSeg) (nonempty : AllNonempty vmas) :
    AllNonempty (mergeVmas ar vmas) :=
  allNonempty_mergeAdjacent _ _ _ (allNonempty_mergeRange _ _ vmas nonempty)

theorem ordered_mprotectLoop (ar : AddrRange) (realPerms : AccessType) :
    ∀ (dataAS : UInt64) (vseg : VmaSeg) (rest pre : List VmaSeg), Ordered (pre ++ vseg :: rest) →
      Ordered (pre ++ (mprotectLoop ar realPerms dataAS vseg rest).1) := by
  intro dataAS vseg rest
  induction rest generalizing dataAS vseg with
  | nil =>
    intro pre ordered
    have pieces := @ordered_isolate _ vmaSplit (withPerms · realPerms) (fun _ => rfl) (fun _ => rfl)
      vseg ar.start ar.stop pre [] ordered
    unfold mprotectLoop
    split
    · exact ordered
    · dsimp only
      split <;> simpa using pieces
  | cons next rest ih =>
    intro pre ordered
    have pieces := @ordered_isolate _ vmaSplit (withPerms · realPerms) (fun _ => rfl) (fun _ => rfl)
      vseg ar.start ar.stop pre (next :: rest) ordered
    unfold mprotectLoop
    split
    · exact ordered
    · dsimp only
      split
      · simpa using pieces
      · split
        · -- The loop goes on into `next`, after the pieces of `vseg`.
          have continued := ih (adjustDataAS dataAS (isolate vmaSplit vseg ar.start ar.stop).2.1
            (withPerms (isolate vmaSplit vseg ar.start ar.stop).2.1 realPerms)) next
            (pre ++ ((isolate vmaSplit vseg ar.start ar.stop).1 ++
            withPerms (isolate vmaSplit vseg ar.start ar.stop).2.1 realPerms ::
              (isolate vmaSplit vseg ar.start ar.stop).2.2)) (by simpa using pieces)
          simpa using continued
        · simpa using pieces

theorem ordered_mergeVmas (ar : AddrRange) (vmas : List VmaSeg) (ordered : Ordered vmas) :
    Ordered (mergeVmas ar vmas) :=
  ordered_mergeAdjacent _ _ _ (ordered_mergeRange _ _ vmas ordered)

theorem mProtect_cases (mm : MemoryManager) (addr length : Nat) (realPerms : AccessType)
    (growsDown : Bool) :
    (mm.mProtect addr length realPerms growsDown).1 = mm ∨
      ∃ ar before vseg rest, mm.vmas = before ++ vseg :: rest ∧
        (mm.mProtect addr length realPerms growsDown).1 =
          (mprotectFrom mm ar realPerms before vseg rest).1 := by
  unfold MemoryManager.mProtect
  split
  · exact .inl rfl
  split
  · exact .inl rfl
  split
  · exact .inl rfl
  split
  · exact .inl rfl
  next ar _ =>
  obtain ⟨before, after, span_eq, split_eq⟩ :=
    span_split (fun vseg : VmaSeg => decide (vseg.stop ≤ ar.start)) mm.vmas
  have lowered : lowerBound ar.start mm.vmas = (before, after) := span_eq
  rw [lowered]
  cases after with
  | nil => exact .inl rfl
  | cons vseg rest =>
    dsimp only
    split
    · split
      · exact .inl rfl
      · split
        · exact .inl rfl
        · exact .inr ⟨_, before, vseg, rest, split_eq.symm, rfl⟩
    · split
      · exact .inl rfl
      · exact .inr ⟨_, before, vseg, rest, split_eq.symm, rfl⟩

private theorem mprotectFrom_spec (mm : MemoryManager) (ar : AddrRange) (realPerms : AccessType)
    (before : List VmaSeg) (vseg : VmaSeg) (rest : List VmaSeg)
    (nonempty : AllNonempty (before ++ vseg :: rest)) :
    AllNonempty (mprotectFrom mm ar realPerms before vseg rest).1.vmas ∧
      ∀ key, (mprotectFrom mm ar realPerms before vseg rest).1.realPermsAt key =
          (lookup key (before ++ vseg :: rest)).map Vma.realPerms ∨
        (mprotectFrom mm ar realPerms before vseg rest).1.realPermsAt key = some realPerms := by
  obtain ⟨before_nonempty, after_nonempty⟩ := allNonempty_append.mp nonempty
  have loop_nonempty := allNonempty_mprotectLoop ar realPerms mm.dataAS vseg rest after_nonempty
  have joined : AllNonempty (before ++ (mprotectLoop ar realPerms mm.dataAS vseg rest).1) :=
    allNonempty_append.mpr ⟨before_nonempty, loop_nonempty⟩
  refine ⟨allNonempty_mergeVmas ar _ joined, fun key => ?_⟩
  unfold MemoryManager.realPermsAt mprotectFrom
  dsimp only
  rw [mergeVmas_realPerms ar _ joined key, lookup_append, lookup_append]
  cases lookup key before with
  | some value => exact .inl rfl
  | none => exact mprotectLoop_realPerms ar realPerms key mm.dataAS vseg rest

theorem mProtect_spec (mm : MemoryManager) (addr length : Nat) (realPerms : AccessType)
    (growsDown : Bool) (nonempty : AllNonempty mm.vmas) :
    AllNonempty (mm.mProtect addr length realPerms growsDown).1.vmas ∧
      ∀ key, (mm.mProtect addr length realPerms growsDown).1.realPermsAt key = mm.realPermsAt key ∨
        (mm.mProtect addr length realPerms growsDown).1.realPermsAt key = some realPerms := by
  rcases mProtect_cases mm addr length realPerms growsDown with
    same | ⟨ar, before, vseg, rest, split_eq, result⟩
  · rw [same]
    exact ⟨nonempty, fun _ => .inl rfl⟩
  · rw [result]
    unfold MemoryManager.realPermsAt
    rw [split_eq]
    exact mprotectFrom_spec mm ar realPerms before vseg rest (split_eq ▸ nonempty)

theorem ordered_mProtect (mm : MemoryManager) (addr length : Nat) (realPerms : AccessType)
    (growsDown : Bool) (ordered : Ordered mm.vmas) :
    Ordered (mm.mProtect addr length realPerms growsDown).1.vmas := by
  rcases mProtect_cases mm addr length realPerms growsDown with
    same | ⟨ar, before, vseg, rest, split_eq, result⟩
  · rw [same]
    exact ordered
  · rw [result]
    exact ordered_mergeVmas ar _
      (ordered_mprotectLoop ar realPerms mm.dataAS vseg rest before (split_eq ▸ ordered))

theorem mProtect_sorted (mm : MemoryManager) (addr length : Nat) (realPerms : AccessType)
    (growsDown : Bool) (sorted : Sorted mm.vmas) :
    Sorted (mm.mProtect addr length realPerms growsDown).1.vmas := by
  obtain ⟨nonempty, ordered⟩ := (sorted_iff mm.vmas).mp sorted
  exact (sorted_iff _).mpr ⟨(mProtect_spec mm addr length realPerms growsDown nonempty).1,
    ordered_mProtect mm addr length realPerms growsDown ordered⟩

end Cijitter.Mm
