import Cijitter.Kernel.Delay
import Cijitter.Mm.SyscallsProperties
import Cijitter.Mm.IoProperties

/-! What Cijitter's delay does to the permissions the application sees.

`Modify.perms` is keyed by the page alone, merges what each round read with
`Union` and is never cleared, and a fault restores it whether or not the page
is cleared at that moment. So a restore can undo the application's own later
`mprotect`. What does hold over every run is weaker: a fault path that
changes the permissions of an address sets them to the page's saved entry,
and that entry only holds permissions that delay rounds read for the page.

The permissions read so far are ghost state: `observedStep` runs the system
step and records, per page, the union of what the first half of each round
returned. -/

set_option autoImplicit false

namespace Cijitter.Kernel

open Usermem Mm Maid SegmentList StepRun

theorem mergeSavedPerms_subset {saved : Option AccessType} {orgPerms bound : AccessType}
    (saved_subset : ∀ perms, saved = some perms → perms.Subset bound)
    (org_subset : orgPerms.Subset bound) : (mergeSavedPerms saved orgPerms).Subset bound := by
  cases saved with
  | none => exact org_subset
  | some perms => exact AccessType.union_subset (saved_subset perms rfl) org_subset

/-- The ghost update: the first half of a round adds what it read for the
page to the page's observed permissions. -/
def observe (s : System) (seen : Nat → AccessType) : Action → Nat → AccessType
  | .delayRead t addr =>
    match t.delayPerms s.mms addr with
    | some perms => Function.update seen addr ((seen addr).union perms)
    | none => seen
  | _ => seen

def observedStep (backing : FaultBacking) (state : System × (Nat → AccessType))
    (action : Action) : System × (Nat → AccessType) :=
  (step backing state.1 action, observe state.1 state.2 action)

/-- Per page, every permission that a delay round of the run read for it. -/
def observedPerms (backing : FaultBacking) (initial : System) (actions : List Action) :
    Nat → AccessType :=
  (run (observedStep backing) (initial, fun _ => noAccess) actions).2

theorem run_observedStep_fst (backing : FaultBacking) (actions : List Action) :
    ∀ (s : System) (seen : Nat → AccessType),
      (run (observedStep backing) (s, seen) actions).1 = run (step backing) s actions := by
  induction actions with
  | nil => intro s seen; rfl
  | cons action actions ih =>
    intro s seen
    exact ih (step backing s action) (observe s seen action)

theorem observe_grows (s : System) (seen : Nat → AccessType) (action : Action) (page : Nat) :
    (seen page).Subset (observe s seen action page) := by
  cases action with
  | delayRead t addr =>
    simp only [observe]
    cases t.delayPerms s.mms addr with
    | none => exact AccessType.Subset.refl _
    | some perms =>
      dsimp only
      by_cases same : page = addr
      · subst same
        rw [Function.update_self]
        exact AccessType.subset_union_left _ _
      · rw [Function.update_of_ne same]
        exact AccessType.Subset.refl _
  | mprotect | delayLocked | fault | listen => exact AccessType.Subset.refl _

/-- What every reachable state keeps, against the permissions `seen` that
rounds have read: the saved and the pending permissions of a page were read
for it, and every memory manager's vmas stay non-empty. -/
structure DelayInvariant (s : System) (seen : Nat → AccessType) : Prop where
  saved_seen : ∀ page perms, s.modify.perms page = some perms → perms.Subset (seen page)
  pending_seen : ∀ tid page perms, s.pending tid = some (page, perms) → perms.Subset (seen page)
  nonempty : ∀ m, AllNonempty (s.mms m).vmas

theorem DelayInvariant.boot (mms : Nat → MemoryManager) (nonempty : ∀ m, AllNonempty (mms m).vmas) :
    DelayInvariant (System.boot mms) (fun _ => noAccess) where
  saved_seen _ _ none_saved := nomatch none_saved
  pending_seen _ _ _ none_pending := nomatch none_pending
  nonempty := nonempty

theorem DelayInvariant.mono {s : System} {seen seen' : Nat → AccessType}
    (valid : DelayInvariant s seen) (grows : ∀ page, (seen page).Subset (seen' page)) :
    DelayInvariant s seen' where
  saved_seen page perms saved := (valid.saved_seen page perms saved).trans (grows page)
  pending_seen tid page perms pending := (valid.pending_seen tid page perms pending).trans (grows page)
  nonempty := valid.nonempty

theorem update_mProtect_keeps (P : List VmaSeg → Prop)
    (keeps : ∀ (mm : MemoryManager) addr length perms growsDown, P mm.vmas →
      P (mm.mProtect addr length perms growsDown).1.vmas)
    {mms : Nat → MemoryManager} (holds : ∀ m, P (mms m).vmas) (target addr length : Nat)
    (perms : AccessType) (growsDown : Bool) :
    ∀ m, P ((Function.update mms target ((mms target).mProtect addr length perms growsDown).1) m).vmas := by
  intro m
  by_cases same : m = target
  · subst same
    rw [Function.update_self]
    exact keeps (mms m) addr length perms growsDown (holds m)
  · rw [Function.update_of_ne same]
    exact holds m

theorem allNonempty_update_mProtect {mms : Nat → MemoryManager}
    (nonempty : ∀ m, AllNonempty (mms m).vmas) (target addr length : Nat) (perms : AccessType)
    (growsDown : Bool) :
    ∀ m, AllNonempty ((Function.update mms target
      ((mms target).mProtect addr length perms growsDown).1) m).vmas :=
  update_mProtect_keeps AllNonempty
    (fun mm addr length perms growsDown valid => (mProtect_spec mm addr length perms growsDown valid).1)
    nonempty target addr length perms growsDown

theorem startDelayLocked_cases (s : System) (t : DelayTask) (addr : Nat) (orgPerms : AccessType) :
    startDelayLocked s t addr orgPerms = s ∨
      ((startDelayLocked s t addr orgPerms).modify.perms =
          Function.update s.modify.perms addr (some (mergeSavedPerms (s.modify.perms addr) orgPerms)) ∧
        (startDelayLocked s t addr orgPerms).mms =
          Function.update s.mms t.mm ((s.mms t.mm).mProtect addr pageSize noAccess false).1 ∧
        (startDelayLocked s t addr orgPerms).pending = s.pending) := by
  unfold startDelayLocked
  split
  · exact .inl rfl
  split
  · exact .inl rfl
  · right
    dsimp only
    -- Whether or not the `MProtect` fails, the permissions are saved first.
    split <;> exact ⟨rfl, rfl, rfl⟩

theorem handleSegFaults_cases (s : System) (t : DelayTask) (addr : Nat) :
    (handleSegFaults s t addr).1 = s ∨
      ∃ saved, s.modify.perms (roundDown addr) = some saved ∧
        (handleSegFaults s t addr).1.mms =
          Function.update s.mms t.mm ((s.mms t.mm).mProtect (roundDown addr) pageSize saved false).1 ∧
        (handleSegFaults s t addr).1.modify.perms = s.modify.perms ∧
        (handleSegFaults s t addr).1.pending = s.pending := by
  dsimp only [handleSegFaults]
  cases saved : s.modify.perms (roundDown addr) with
  | none => exact .inl rfl
  | some perms => exact .inr ⟨perms, rfl, rfl, rfl, rfl⟩

theorem faultPath_cases (backing : FaultBacking) (s : System) (t : DelayTask) (addr : Nat)
    (access : AccessType) :
    (faultPath backing s t addr access).1 = s ∨
      (faultPath backing s t addr access).1 = (handleSegFaults s t addr).1 := by
  unfold faultPath
  split
  · exact .inr rfl
  · exact .inl rfl

theorem step_mms (backing : FaultBacking) (s : System) (action : Action) :
    (step backing s action).mms = s.mms ∨
      ∃ target addr length perms growsDown, (step backing s action).mms =
        Function.update s.mms target ((s.mms target).mProtect addr length perms growsDown).1 := by
  cases action with
  | mprotect mm addr length perms growsDown => exact .inr ⟨mm, addr, length, perms, growsDown, rfl⟩
  | delayRead t addr => exact .inl rfl
  | delayLocked t =>
    simp only [step]
    cases s.pending t.tid with
    | none => exact .inl rfl
    | some read =>
      obtain ⟨addr, orgPerms⟩ := read
      dsimp only
      rcases startDelayLocked_cases { s with pending := Function.update s.pending t.tid none } t addr
          orgPerms with same | ⟨_, mms, _⟩
      · rw [same]
        exact .inl rfl
      · exact .inr ⟨t.mm, addr, pageSize, noAccess, false, mms⟩
  | fault t addr access =>
    simp only [step]
    split
    · rcases faultPath_cases backing s t addr access with same | restored
      · rw [same]
        exact .inl rfl
      · rw [restored]
        rcases handleSegFaults_cases s t addr with same | ⟨saved, _, mms, _⟩
        · rw [same]
          exact .inl rfl
        · exact .inr ⟨t.mm, roundDown addr, pageSize, saved, false, mms⟩
    · exact .inl rfl
  | listen addrInfo =>
    simp only [step]
    split <;> exact .inl rfl

section Invariant

variable {s : System} {seen : Nat → AccessType}

theorem startDelayLocked_invariant (valid : DelayInvariant s seen) (t : DelayTask) (addr : Nat)
    {orgPerms : AccessType} (read : orgPerms.Subset (seen addr)) :
    DelayInvariant (startDelayLocked s t addr orgPerms) seen := by
  rcases startDelayLocked_cases s t addr orgPerms with same | ⟨saved, mms, pending⟩
  · rw [same]
    exact valid
  refine ⟨?_, ?_, ?_⟩
  · intro page perms saved_at
    rw [saved] at saved_at
    by_cases at_addr : page = addr
    · subst at_addr
      rw [Function.update_self, Option.some.injEq] at saved_at
      rw [← saved_at]
      exact mergeSavedPerms_subset (valid.saved_seen page) read
    · rw [Function.update_of_ne at_addr] at saved_at
      exact valid.saved_seen page perms saved_at
  · intro tid page perms pending_at
    rw [pending] at pending_at
    exact valid.pending_seen tid page perms pending_at
  · rw [mms]
    exact allNonempty_update_mProtect valid.nonempty t.mm addr pageSize noAccess false

theorem handleSegFaults_invariant (valid : DelayInvariant s seen) (t : DelayTask) (addr : Nat) :
    DelayInvariant (handleSegFaults s t addr).1 seen := by
  rcases handleSegFaults_cases s t addr with same | ⟨saved, _, mms, perms, pending⟩
  · rw [same]
    exact valid
  refine ⟨?_, ?_, ?_⟩
  · rw [perms]
    exact valid.saved_seen
  · rw [pending]
    exact valid.pending_seen
  · rw [mms]
    exact allNonempty_update_mProtect valid.nonempty t.mm (roundDown addr) pageSize saved false

theorem delayRead_invariant (valid : DelayInvariant s seen) (backing : FaultBacking)
    (t : DelayTask) (addr : Nat) :
    DelayInvariant (step backing s (.delayRead t addr)) (observe s seen (.delayRead t addr)) := by
  have grown := valid.mono (observe_grows s seen (.delayRead t addr))
  refine ⟨grown.saved_seen, ?_, valid.nonempty⟩
  intro tid page perms pending_at
  simp only [step] at pending_at
  by_cases own : tid = t.tid
  · subst own
    rw [Function.update_self] at pending_at
    -- The task's own pending read is the one just taken.
    obtain ⟨read, read_eq, entry⟩ := Option.map_eq_some_iff.mp pending_at
    cases entry
    simp only [observe, read_eq, Function.update_self]
    exact AccessType.subset_union_right _ _
  · rw [Function.update_of_ne own] at pending_at
    exact grown.pending_seen tid page perms pending_at

theorem delayLocked_invariant (valid : DelayInvariant s seen) (backing : FaultBacking)
    (t : DelayTask) :
    DelayInvariant (step backing s (.delayLocked t)) seen := by
  simp only [step]
  cases pending_at : s.pending t.tid with
  | none => exact valid
  | some read =>
    obtain ⟨addr, orgPerms⟩ := read
    have taken : DelayInvariant { s with pending := Function.update s.pending t.tid none } seen := by
      refine ⟨valid.saved_seen, ?_, valid.nonempty⟩
      intro tid page perms entry
      by_cases own : tid = t.tid
      · subst own
        simp at entry
      · dsimp only at entry
        rw [Function.update_of_ne own] at entry
        exact valid.pending_seen tid page perms entry
    exact startDelayLocked_invariant taken t addr (valid.pending_seen t.tid addr orgPerms pending_at)

theorem step_invariant (valid : DelayInvariant s seen) (backing : FaultBacking) (action : Action) :
    DelayInvariant (step backing s action) (observe s seen action) := by
  cases action with
  | mprotect mm addr length perms growsDown =>
    refine ⟨valid.saved_seen, valid.pending_seen, ?_⟩
    exact allNonempty_update_mProtect valid.nonempty mm addr length perms growsDown
  | delayRead t addr => exact delayRead_invariant valid backing t addr
  | delayLocked t => exact delayLocked_invariant valid backing t
  | fault t addr access =>
    simp only [step, observe]
    split
    · rcases faultPath_cases backing s t addr access with same | restored
      · rw [same]
        exact valid
      · rw [restored]
        exact handleSegFaults_invariant valid t addr
    · exact valid
  | listen addrInfo =>
    simp only [step, observe]
    split
    · exact ⟨valid.saved_seen, valid.pending_seen, valid.nonempty⟩
    · exact valid

end Invariant

theorem run_invariant_observed (backing : FaultBacking) (mms : Nat → MemoryManager)
    (nonempty : ∀ m, AllNonempty (mms m).vmas) (actions : List Action) :
    DelayInvariant (run (step backing) (System.boot mms) actions)
      (observedPerms backing (System.boot mms) actions) := by
  have kept := @run_invariant (System × (Nat → AccessType)) Action (observedStep backing)
    (fun state => DelayInvariant state.1 state.2)
    (fun state action valid => step_invariant valid backing action)
    (System.boot mms, fun _ => noAccess) (DelayInvariant.boot mms nonempty) actions
  rw [← run_observedStep_fst backing actions (System.boot mms) (fun _ => noAccess)]
  exact kept

/-- In every run from boot, a fault path that changes the permissions of an
address in the faulting task's memory manager sets them to the faulting
page's saved entry, and that entry holds only permissions that delay rounds
of the run read for the page. -/
theorem faultPath_restores_observed (backing : FaultBacking) (mms : Nat → MemoryManager)
    (nonempty : ∀ m, AllNonempty (mms m).vmas) (actions : List Action) (t : DelayTask)
    (addr key : Nat) (access : AccessType)
    (changed : ((faultPath backing (run (step backing) (System.boot mms) actions) t addr access).1.mms
        t.mm).realPermsAt key ≠ ((run (step backing) (System.boot mms) actions).mms t.mm).realPermsAt key) :
    ∃ saved, (run (step backing) (System.boot mms) actions).modify.perms (roundDown addr) = some saved ∧
      ((faultPath backing (run (step backing) (System.boot mms) actions) t addr access).1.mms
          t.mm).realPermsAt key = some saved ∧
      saved.Subset (observedPerms backing (System.boot mms) actions (roundDown addr)) := by
  have valid := run_invariant_observed backing mms nonempty actions
  generalize run (step backing) (System.boot mms) actions = state at valid changed ⊢
  rcases faultPath_cases backing state t addr access with same | restored
  · rw [same] at changed
    exact absurd rfl changed
  rcases handleSegFaults_cases state t addr with same | ⟨saved, saved_at, mms_eq, -, -⟩
  · rw [restored, same] at changed
    exact absurd rfl changed
  refine ⟨saved, saved_at, ?_, valid.saved_seen _ saved saved_at⟩
  rw [restored, mms_eq, Function.update_self] at changed ⊢
  -- `MProtect` gives the key its old permissions or the saved ones.
  rcases (mProtect_spec (state.mms t.mm) (roundDown addr) pageSize saved false
      (valid.nonempty t.mm)).2 key with kept | updated
  · exact absurd kept changed
  · exact updated

/-- A process whose only vma is one private anonymous read-write page at
`0x10000`. -/
def onePageMm : MemoryManager :=
  ⟨[⟨0x10000, 0x11000, ⟨readWrite, readWrite.effective, ⟨true, true, true⟩, true, false⟩⟩], 4096, 2 ^ 47⟩

def appTask : DelayTask := ⟨"1", "app", 0, true, noAccess⟩

def backsEveryFault : FaultBacking := fun _ _ => none

/-- The monitor targets page `0x10000`, a round clears it, a write fault
restores it, the monitor stops delaying, and then the application makes the
page read-only. -/
def restoreAfterStop : List Action :=
  [.listen "0x10000 500".toList, .delayRead appTask 0x10000, .delayLocked appTask,
   .fault appTask 0x10000 ⟨false, true, false⟩, .listen "0x00000 0".toList,
   .mprotect 0 0x10000 pageSize ⟨true, false, false⟩ false]

theorem faultPath_restores_observed_after_stop :
    ∃ saved, (run (step backsEveryFault) (System.boot fun _ => onePageMm)
        restoreAfterStop).modify.perms (roundDown 0x10000) = some saved ∧
      ((faultPath backsEveryFault (run (step backsEveryFault) (System.boot fun _ => onePageMm)
          restoreAfterStop) appTask 0x10000 ⟨false, true, false⟩).1.mms appTask.mm).realPermsAt 0x10000 =
        some saved ∧
      saved.Subset (observedPerms backsEveryFault (System.boot fun _ => onePageMm) restoreAfterStop
        (roundDown 0x10000)) :=
  faultPath_restores_observed backsEveryFault (fun _ => onePageMm)
    (fun _ => by unfold AllNonempty; decide) restoreAfterStop appTask 0x10000 0x10000
    ⟨false, true, false⟩ (by decide)

/-- After the monitor has stopped delaying and the application has made its
page read-only, the page is not cleared, yet a write fault on it restores the
read-write permissions an earlier round saved, and the fault is handled
instead of raised. -/
theorem restore_grants_write_after_app_mprotect :
    (run (step backsEveryFault) (System.boot fun _ => onePageMm)
        restoreAfterStop).modify.modified 0x10000 = some 0 ∧
      ((run (step backsEveryFault) (System.boot fun _ => onePageMm)
        restoreAfterStop).mms 0).realPermsAt 0x10000 = some ⟨true, false, false⟩ ∧
      ((faultPath backsEveryFault (run (step backsEveryFault) (System.boot fun _ => onePageMm)
          restoreAfterStop) appTask 0x10000 ⟨false, true, false⟩).1.mms 0).realPermsAt 0x10000 =
        some readWrite ∧
      (faultPath backsEveryFault (run (step backsEveryFault) (System.boot fun _ => onePageMm)
          restoreAfterStop) appTask 0x10000 ⟨false, true, false⟩).2 = none := by
  decide

/-- After one delay round on page `0x10000`, a `CopyIn` of that page
through internal mappings fails with `EFAULT`; before the round the same
copy transfers the whole page. -/
theorem delay_round_fails_copyIn :
    ((run (step backsEveryFault) (System.boot fun _ => onePageMm)
        [.listen "0x10000 500".toList, .delayRead appTask 0x10000, .delayLocked appTask]).mms 0).copyIn
        (fun _ _ => (0, none)) false backsEverything 0x10000 4096 ⟨false, true⟩ = (0, some .EFAULT) ∧
      onePageMm.copyIn (fun _ _ => (0, none)) false backsEverything 0x10000 4096 ⟨false, true⟩ =
        (4096, none) := by
  decide

/-- A thread named `sh` in the application's process. -/
def shellTask : DelayTask := ⟨"2", "sh", 0, true, noAccess⟩

/-- A thread named `sh` of the process reads the page a round has just
cleared. It skips `Modify`'s lock and `handle_seg_faults`, so its fault is
not held until the round's sleep ends and nothing is restored:
`HandleUserFault` refuses the read with `EPERM`, the page stays cleared, and
the thread gets a `SIGSEGV` instead of resuming. The same read by the
application's own thread restores the page and is handled. -/
theorem shell_fault_on_cleared_page_not_resumed :
    (run (step backsEveryFault) (System.boot fun _ => onePageMm)
        [.listen "0x10000 500".toList, .delayRead appTask 0x10000, .delayLocked appTask]).modify.modified
        0x10000 = some 1 ∧
      (faultPath backsEveryFault (run (step backsEveryFault) (System.boot fun _ => onePageMm)
        [.listen "0x10000 500".toList, .delayRead appTask 0x10000, .delayLocked appTask]) shellTask 0x10000
        ⟨true, false, false⟩).2 = some .EPERM ∧
      ((faultPath backsEveryFault (run (step backsEveryFault) (System.boot fun _ => onePageMm)
        [.listen "0x10000 500".toList, .delayRead appTask 0x10000, .delayLocked appTask]) shellTask 0x10000
        ⟨true, false, false⟩).1.mms 0).realPermsAt 0x10000 = some noAccess ∧
      (faultPath backsEveryFault (run (step backsEveryFault) (System.boot fun _ => onePageMm)
        [.listen "0x10000 500".toList, .delayRead appTask 0x10000, .delayLocked appTask]) appTask 0x10000
        ⟨true, false, false⟩).2 = none := by
  decide

/-- In every run from boot with valid vma sets, every memory manager's vmas
stay a valid segment set: in order, disjoint and without empty segments. -/
theorem run_vmas_sorted (backing : FaultBacking) (mms : Nat → MemoryManager)
    (sorted : ∀ m, Sorted (mms m).vmas) (actions : List Action) :
    ∀ m, Sorted ((run (step backing) (System.boot mms) actions).mms m).vmas := by
  refine run_invariant (fun state : System => ∀ m, Sorted (state.mms m).vmas) ?_ sorted actions
  intro state action valid
  rcases step_mms backing state action with same | ⟨target, addr, length, perms, growsDown, updated⟩
  · rw [same]
    exact valid
  · rw [updated]
    exact update_mProtect_keeps Sorted (fun mm addr length perms growsDown =>
      mProtect_sorted mm addr length perms growsDown) valid target addr length perms growsDown

theorem vmas_sorted_after_restore :
    Sorted ((run (step backsEveryFault) (System.boot fun _ => onePageMm) restoreAfterStop).mms 0).vmas :=
  run_vmas_sorted backsEveryFault (fun _ => onePageMm) (fun _ => by simp [Sorted, onePageMm])
    restoreAfterStop 0

end Cijitter.Kernel
