import Cijitter.Mm.Io
import Cijitter.Lib.SegmentListProperties

/-! A copy through internal mappings stops at the first address of its range
whose vma refuses the access: it reports `EFAULT` and transfers nothing from
that address on. Nothing on this path restores permissions, so a page that a
delay round cleared fails every such copy that reaches it. -/

set_option autoImplicit false

namespace Cijitter.Mm

open Usermem SegmentList Syserror

/-- No vma of `segs` that maps `page` allows `access`. -/
def Refuses (segs : List VmaSeg) (page : Nat) (access : AccessType) (ignorePermissions : Bool) : Prop :=
  ∀ vma, lookup page segs = some vma → (checkedPerms vma ignorePermissions).supersetOf access = false

theorem refuses_cons_of_contains {vseg : VmaSeg} {rest : List VmaSeg} {page : Nat}
    {access : AccessType} {ignorePermissions : Bool} (refuses : Refuses (vseg :: rest) page access ignorePermissions)
    (contains : vseg.Contains page) : (checkedPerms vseg.value ignorePermissions).supersetOf access = false :=
  refuses vseg.value (by rw [lookup_cons, if_pos contains])

theorem refuses_tail {vseg : VmaSeg} {rest : List VmaSeg} {page : Nat} {access : AccessType}
    {ignorePermissions : Bool} (refuses : Refuses (vseg :: rest) page access ignorePermissions)
    (outside : ¬vseg.Contains page) : Refuses rest page access ignorePermissions := by
  intro vma found
  exact refuses vma (by rw [lookup_cons, if_neg outside, found])

theorem getVMAsLoop_refused (ar : AddrRange) (access : AccessType) (ignorePermissions : Bool)
    {page : Nat} (below_end : page < ar.stop) :
    ∀ (segs : List VmaSeg) (gapStart addr : Nat), gapStart ≤ addr → addr ≤ page →
      Refuses segs page access ignorePermissions →
      (getVMAsLoop ar access ignorePermissions gapStart addr segs).2.isSome ∧
        (getVMAsLoop ar access ignorePermissions gapStart addr segs).1 ≤ page := by
  intro segs
  induction segs with
  | nil =>
      intro gapStart addr gap_le addr_le _
      exact ⟨rfl, by simp only [getVMAsLoop]; omega⟩
  | cons vseg rest ih =>
      intro gapStart addr gap_le addr_le refuses
      simp only [getVMAsLoop]
      split
      · exact ⟨rfl, by omega⟩
      · next mapped =>
          split
          · exact ⟨rfl, by omega⟩
          · next allowed =>
              have passes : (checkedPerms vseg.value ignorePermissions).supersetOf access = true := by
                simpa using allowed
              -- An accepted vma cannot contain the refused address.
              have before_page : vseg.stop ≤ page := by
                by_contra past
                have contains : vseg.Contains page := by
                  simp only [Seg.Contains]
                  omega
                rw [refuses_cons_of_contains refuses contains] at passes
                cases passes
              have outside : ¬vseg.Contains page := by
                simp only [Seg.Contains]
                omega
              split
              · omega
              · exact ih vseg.stop vseg.stop le_rfl before_page (refuses_tail refuses outside)

theorem lowerBound_before {key : Nat} {vmas : List VmaSeg} :
    ∀ vseg ∈ (lowerBound key vmas).1, vseg.stop ≤ key := by
  intro vseg member
  rw [lowerBound, List.span_eq_takeWhile_dropWhile] at member
  simpa using List.all_eq_true.mp List.all_takeWhile vseg member

theorem lookup_lowerBound {key page : Nat} {vmas : List VmaSeg} (above : key ≤ page) :
    lookup page vmas = lookup page (lowerBound key vmas).2 := by
  have whole : (lowerBound key vmas).1 ++ (lowerBound key vmas).2 = vmas := by
    rw [lowerBound, List.span_eq_takeWhile_dropWhile]
    exact List.takeWhile_append_dropWhile
  have missing : ∀ before : List VmaSeg, (∀ vseg ∈ before, vseg.stop ≤ key) →
      lookup page before = none := by
    intro before ended
    induction before with
    | nil => rfl
    | cons vseg rest ih =>
        have outside : ¬vseg.Contains page := by
          have stop_le := ended vseg List.mem_cons_self
          simp only [Seg.Contains]
          omega
        rw [lookup_cons, if_neg outside]
        exact ih fun other member => ended other (List.mem_cons_of_mem vseg member)
  conv => lhs; rw [← whole]
  rw [lookup_append, missing _ lowerBound_before, Option.none_or]

theorem getVMAsLocked_refused (mm : MemoryManager) (ar : AddrRange) (access : AccessType)
    (ignorePermissions : Bool) {page : Nat} (inside : ar.start ≤ page ∧ page < ar.stop)
    (refuses : Refuses mm.vmas page access ignorePermissions) :
    (mm.getVMAsLocked ar access ignorePermissions).err.isSome ∧
      (mm.getVMAsLocked ar access ignorePermissions).vendStart ≤ page := by
  have gap_le : (((lowerBound ar.start mm.vmas).1.getLast?.map Seg.stop).getD 0) ≤ ar.start := by
    cases last : (lowerBound ar.start mm.vmas).1.getLast? with
    | none => exact Nat.zero_le _
    | some vseg => exact lowerBound_before vseg (List.mem_of_getLast? last)
  have refuses_after : Refuses (lowerBound ar.start mm.vmas).2 page access ignorePermissions := by
    intro vma found
    rw [← lookup_lowerBound inside.1] at found
    exact refuses vma found
  exact getVMAsLoop_refused ar access ignorePermissions inside.2 _ _ ar.start gap_le inside.1
    refuses_after

theorem translateIOError_of_isSome {err : Option Errno} (failed : err.isSome = true) :
    translateIOError err = some .EFAULT := by
  cases err with
  | none => cases failed
  | some _ => rfl

theorem isSome_of_short {err : Option Errno} {stop reached : Nat}
    (short : err = none → stop ≤ reached) (below : reached < stop) : err.isSome = true := by
  cases err with
  | none => exact absurd (short rfl) (Nat.not_le.mpr below)
  | some _ => rfl

theorem cutRange_error {ar : AddrRange} {reached : Nat} {err fault : Option Errno}
    (cut : cutRange ar reached err = .error fault) : fault = translateIOError err ∧ reached < ar.stop := by
  unfold cutRange at cut
  split at cut
  · next below =>
      split at cut
      · cases cut
        exact ⟨rfl, below⟩
      · cases cut
  · cases cut

theorem cutRange_ok {ar cut_ar : AddrRange} {reached : Nat} {err : Option Errno}
    (cut : cutRange ar reached err = .ok cut_ar) :
    cut_ar.start = ar.start ∧ cut_ar.stop ≤ ar.stop ∧ (reached < ar.stop → cut_ar.stop = reached) := by
  unfold cutRange at cut
  split at cut
  · next below =>
      split at cut
      · cases cut
      · cases cut
        exact ⟨rfl, Nat.le_of_lt below, fun _ => rfl⟩
  · next above =>
      cases cut
      exact ⟨rfl, le_rfl, fun below => absurd below above⟩

section Copy

variable (pmas : PmaLayer) (access : AccessType)

/-- What the pma layer's documentation promises: `getPMAsLocked` and
`getPMAInternalMappingsLocked` stop short of a range only with an error. -/
structure PmaLayer.ReportsShort : Prop where
  pmas_short : ∀ range, (pmas.getPMAs range access).2 = none → range.stop ≤ (pmas.getPMAs range access).1
  mappings_short : ∀ range, (pmas.getInternalMappings range).2 = none →
    range.stop ≤ (pmas.getInternalMappings range).1

theorem withInternalMappings_refused (mm : MemoryManager) (ar : AddrRange) (ignorePermissions : Bool)
    {page : Nat} (inside : ar.start ≤ page ∧ page < ar.stop)
    (refuses : Refuses mm.vmas page access ignorePermissions)
    (existing_allowed : pmas.existing ar access ignorePermissions = true →
      (mm.getVMAsLocked ar access ignorePermissions).err = none)
    (short : pmas.ReportsShort access) :
    (mm.withInternalMappings pmas ar access ignorePermissions).2 = some .EFAULT ∧
      (mm.withInternalMappings pmas ar access ignorePermissions).1 ≤ page - ar.start := by
  obtain ⟨failed, gap_le⟩ := getVMAsLocked_refused mm ar access ignorePermissions inside refuses
  have not_existing : pmas.existing ar access ignorePermissions = false := by
    cases existing : pmas.existing ar access ignorePermissions with
    | false => rfl
    | true =>
        rw [existing_allowed existing] at failed
        cases failed
  unfold MemoryManager.withInternalMappings
  rw [not_existing, if_neg Bool.false_ne_true]
  dsimp only
  split
  · next fault cut =>
      rw [(cutRange_error cut).1]
      exact ⟨translateIOError_of_isSome failed, Nat.zero_le _⟩
  · next vmas_range cut =>
      obtain ⟨vmas_start, -, vmas_stop⟩ := cutRange_ok cut
      have vmas_below : vmas_range.stop ≤ page := by
        rw [vmas_stop (by omega)]
        exact gap_le
      split
      · next fault cut =>
          obtain ⟨fault_eq, below⟩ := cutRange_error cut
          rw [fault_eq]
          exact ⟨translateIOError_of_isSome (isSome_of_short (short.pmas_short _) below), Nat.zero_le _⟩
      · next pmas_range cut =>
          obtain ⟨pmas_start, pmas_stop, -⟩ := cutRange_ok cut
          split
          · next fault cut =>
              obtain ⟨fault_eq, below⟩ := cutRange_error cut
              rw [fault_eq]
              exact ⟨translateIOError_of_isSome (isSome_of_short (short.mappings_short _) below),
                Nat.zero_le _⟩
          · next mapped_range cut =>
              obtain ⟨mapped_start, mapped_stop, -⟩ := cutRange_ok cut
              have length_le : mapped_range.length ≤ page - ar.start := by
                simp only [AddrRange.length]
                omega
              -- Every error is reported as `EFAULT`, and the one from the vmas is there.
              split
              · next mapped_failed => exact ⟨translateIOError_of_isSome mapped_failed, length_le⟩
              · split
                · next pmas_failed => exact ⟨translateIOError_of_isSome pmas_failed, length_le⟩
                · exact ⟨translateIOError_of_isSome failed, length_le⟩

theorem checkIORange_some {mm : MemoryManager} {addr length : Nat} {ar : AddrRange}
    (checked : mm.checkIORange addr length = some ar) : ar.start = addr ∧ ar.stop = addr + length := by
  unfold MemoryManager.checkIORange toRange at checked
  split at checked
  · next ranged =>
      split at checked
      · split at ranged
        · cases ranged
          cases checked
          exact ⟨rfl, rfl⟩
        · cases ranged
      · cases checked
  · cases checked

theorem copy_refused (asCopy : Nat → Nat → Nat × Option Errno) (asioSupported : Bool)
    (mm : MemoryManager) (addr length : Nat) (opts : IOOpts) {page : Nat}
    (internal : (MemoryManager.asioEnabled asioSupported opts && decide (length < copyMapMinBytes)) = false)
    (inside : addr ≤ page ∧ page < addr + length)
    (refuses : Refuses mm.vmas page access opts.ignorePermissions)
    (existing_allowed : ∀ ar, pmas.existing ar access opts.ignorePermissions = true →
      (mm.getVMAsLocked ar access opts.ignorePermissions).err = none)
    (short : pmas.ReportsShort access) :
    (mm.copy access asCopy asioSupported pmas addr length opts).2 = some .EFAULT ∧
      (mm.copy access asCopy asioSupported pmas addr length opts).1 ≤ page - addr := by
  unfold MemoryManager.copy
  split
  · exact ⟨rfl, Nat.zero_le _⟩
  · next ar checked =>
      obtain ⟨same_start, same_stop⟩ := checkIORange_some checked
      have nonzero : length ≠ 0 := by omega
      rw [if_neg nonzero, if_neg (by simp [internal])]
      have within : ar.start ≤ page ∧ page < ar.stop := by omega
      rw [← same_start]
      exact withInternalMappings_refused pmas access mm ar opts.ignorePermissions within refuses
        (existing_allowed ar) short

end Copy

/-- While a delay round has a page cleared (its vma's effective permissions
are `NoAccess`), every `CopyIn` or `CopyOut` that checks permissions and goes
through internal mappings fails with `EFAULT` on a range holding the page,
having transferred none of its bytes from the page on; nothing on this path
restores the page. -/
theorem copy_fails_on_cleared_page (pmas : PmaLayer) (access : AccessType)
    (asCopy : Nat → Nat → Nat × Option Errno) (asioSupported : Bool) (mm : MemoryManager)
    (addr length : Nat) (opts : IOOpts) {page : Nat}
    (wanted : access.any = true) (checked : opts.ignorePermissions = false)
    (internal : (MemoryManager.asioEnabled asioSupported opts && decide (length < copyMapMinBytes)) = false)
    (cleared : (lookup page mm.vmas).map Vma.effectivePerms = some noAccess)
    (inside : addr ≤ page ∧ page < addr + length)
    (existing_allowed : ∀ ar, pmas.existing ar access false = true →
      (mm.getVMAsLocked ar access false).err = none)
    (short : pmas.ReportsShort access) :
    (mm.copy access asCopy asioSupported pmas addr length opts).2 = some .EFAULT ∧
      (mm.copy access asCopy asioSupported pmas addr length opts).1 ≤ page - addr := by
  have refuses : Refuses mm.vmas page access opts.ignorePermissions := by
    intro vma found
    rw [found, Option.map_some, Option.some.injEq] at cleared
    rw [checked, checkedPerms, if_neg Bool.false_ne_true, cleared, noAccess_supersetOf, wanted]
    rfl
  exact copy_refused pmas access asCopy asioSupported mm addr length opts internal inside refuses
    (by rw [checked]; exact existing_allowed) short

/-- A pma layer that already has, or at once gets, pmas and internal
mappings for every range. -/
def backsEverything : PmaLayer :=
  ⟨fun _ _ _ => false, fun ar _ => (ar.stop, none), fun ar => (ar.stop, none)⟩

/-- A process whose only vma is one private anonymous page at `0x10000`,
cleared to `NoAccess`. -/
def clearedPageMm : MemoryManager :=
  ⟨[⟨0x10000, 0x11000, ⟨noAccess, noAccess, ⟨true, true, true⟩, true, false⟩⟩], 0, 2 ^ 47⟩

theorem copyIn_cleared_page_faults :
    (clearedPageMm.copy ⟨true, false, false⟩ (fun _ _ => (0, none)) false backsEverything 0x10000 4096
        ⟨false, true⟩).2 = some .EFAULT ∧
      (clearedPageMm.copy ⟨true, false, false⟩ (fun _ _ => (0, none)) false backsEverything 0x10000 4096
        ⟨false, true⟩).1 ≤ 0x10000 - 0x10000 :=
  copy_fails_on_cleared_page backsEverything ⟨true, false, false⟩ (fun _ _ => (0, none)) false
    clearedPageMm 0x10000 4096 ⟨false, true⟩ rfl rfl rfl (by decide) (by decide)
    (fun _ existing => absurd existing Bool.false_ne_true) ⟨fun _ _ => le_rfl, fun _ _ => le_rfl⟩

end Cijitter.Mm
