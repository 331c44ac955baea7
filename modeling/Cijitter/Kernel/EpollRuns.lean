import Cijitter.Kernel.EpollDelivery

/-! Epoll over whole runs: what each step does to one entry, and from it how
one-shot, edge-triggered and level-triggered entries are reported over any
interleaving, and that a ready entry is never lost to `Readiness`. -/

set_option autoImplicit false

namespace Cijitter.Epoll

variable {F : Type} [DecidableEq F]

/-- No call on `id` holds `e.mu`. -/
def State.idleFor (s : State F) (id : FileIdentifier F) : Prop :=
  ∀ p, s.pending = some p → p.id ≠ id

/-- Neither `UpdateEntry` nor `RemoveEntry` of `id`. -/
def Action.keeps (id : FileIdentifier F) : Action F → Prop
  | .updateEntry id' .. | .removeEntry id' => id' ≠ id
  | _ => True

/-- The step runs the entry's `Callback`: its file's queue calls it, or
`initEntryReadiness` does. -/
def State.callsBack (s : State F) (a : Action F) (id : FileIdentifier F) : Prop :=
  a = .callback id ∨ (a = .resume ∧ s.pending = some (.callback id))

/-! ## One step, seen from one entry -/

omit [DecidableEq F] in
theorem lockedCall_of_busy {s : State F} (busy : s.pending.isSome)
    (call : Except Errno (State F)) : lockedCall s call = s := by
  simp [lockedCall, busy]

omit [DecidableEq F] in
theorem lockedCall_of_error (s : State F) (error : Errno) : lockedCall s (.error error) = s := by
  unfold lockedCall
  split <;> rfl

omit [DecidableEq F] in
theorem lockedCall_of_ok {s : State F} (idle : ¬ s.pending.isSome) (s' : State F) :
    lockedCall s (.ok s') = s' := by
  simp [lockedCall, idle]

theorem State.callback_of_ne {s : State F} {id id' : FileIdentifier F} (ne : id' ≠ id) :
    (∀ l, id' ∈ (s.callback id).lists l ↔ id' ∈ s.lists l) ∧
      (s.callback id).files id' = s.files id' := by
  unfold State.callback
  split
  · simp [ListFamily.mem_pushBack_of_ne ne, ListFamily.mem_remove_of_ne ne,
      Function.update_of_ne ne]
  · simp

theorem Consistent.callback_self {s : State F} (consistent : Consistent s) {id : FileIdentifier F}
    {entry : PollEntry} (present : s.files id = some entry) (notRelinking : ¬ s.relinking id) :
    (entry.curList = some .waitingList → id ∈ (s.callback id).lists .readyList) ∧
      (entry.curList ≠ some .waitingList → s.callback id = s) ∧
      ((s.callback id).files id).map PollEntry.settings = some entry.settings := by
  have waiting : (s.files id).bind (·.curList) = some .waitingList ↔
      entry.curList = some .waitingList := by simp [present]
  refine ⟨fun cur => ?_, fun cur => ?_, ?_⟩
  · have mem := consistent.mem_of_curList present notRelinking cur
    simp only [State.callback, waiting.2 cur, if_true]
    exact (State.mem_lists_move consistent.separated mem).2 (.inr ⟨rfl, rfl⟩)
  · unfold State.callback
    rw [if_neg fun eq => cur (waiting.1 eq)]
  · unfold State.callback
    split
    · rw [settings_setCurList]
      simp [present]
    · simp [present]

theorem State.resume_of_ne {s : State F} {p : Pending F} (pending : s.pending = some p)
    {id : FileIdentifier F} (ne : id ≠ p.id) :
    (∀ l, id ∈ s.resume.lists l ↔ id ∈ s.lists l) ∧ s.resume.files id = s.files id ∧
      ∀ q, s.resume.pending = some q → q.id = p.id := by
  cases p with
  | eventRegister i =>
    simp only [Pending.id] at ne
    simp [State.resume, pending, Function.update_of_ne ne, Pending.id]
  | checkReadiness i =>
    simp only [State.resume, pending]
    split
    · split <;> simp [Pending.id]
    · simp
  | callback i =>
    simp only [Pending.id] at ne
    obtain ⟨lists, files⟩ := State.callback_of_ne (s := s) ne
    simp [State.resume, pending, lists, files, Pending.id]
  | unlink i flags mask data =>
    simp only [Pending.id] at ne
    simp only [State.resume, pending]
    split <;> simp [ListFamily.mem_remove_of_ne ne, Pending.id]
  | relink i flags mask data =>
    simp only [Pending.id] at ne
    simp [State.resume, pending, State.initEntryReadiness, ListFamily.mem_pushBack_of_ne ne,
      Function.update_of_ne ne, Pending.id]
  | removeUnlink i =>
    simp only [Pending.id] at ne
    simp only [State.resume, pending]
    split <;> simp [ListFamily.mem_remove_of_ne ne, Function.update_of_ne ne]

omit [DecidableEq F] in
theorem State.idleFor_of_pending {s s' : State F} (pending : s'.pending = s.pending)
    {id : FileIdentifier F} (idle : s.idleFor id) : s'.idleFor id :=
  fun p pendingNow => idle p (pending ▸ pendingNow)

theorem step_frame {s : State F} {id : FileIdentifier F} (present : (s.files id).isSome)
    (idle : s.idleFor id) {a : Action F} (keeps : a.keeps id)
    (notRead : ∀ max, a ≠ .readEvents max) (notReadiness : ∀ mask, a ≠ .readiness mask)
    (notCall : a ≠ .callback id) :
    (∀ l, id ∈ (step s a).lists l ↔ id ∈ s.lists l) ∧ (step s a).files id = s.files id ∧
      (step s a).idleFor id := by
  have unchanged : (∀ l, id ∈ s.lists l ↔ id ∈ s.lists l) ∧ s.files id = s.files id ∧
      s.idleFor id := ⟨fun _ => Iff.rfl, rfl, idle⟩
  cases a with
  | addEntry i flags mask data =>
    by_cases busy : s.pending.isSome
    · rw [step, lockedCall_of_busy busy]
      exact unchanged
    by_cases taken : (s.files i).isSome
    · rw [step, State.addEntry, if_pos taken, lockedCall_of_error]
      exact unchanged
    · have ne : id ≠ i := by
        rintro rfl
        exact taken present
      rw [step, State.addEntry, if_neg taken, lockedCall_of_ok busy]
      refine ⟨fun l => ?_, ?_, fun q pending => ?_⟩
      · simp [State.initEntryReadiness, ListFamily.mem_pushBack_of_ne ne]
      · simp [State.initEntryReadiness, Function.update_of_ne ne]
      · simp only [State.initEntryReadiness, Option.some_inj] at pending
        subst pending
        exact Ne.symm ne
  | updateEntry i flags mask data =>
    simp only [Action.keeps] at keeps
    by_cases busy : s.pending.isSome
    · rw [step, lockedCall_of_busy busy]
      exact unchanged
    rcases found : s.files i with _ | entry
    · rw [step, State.updateEntry, found, lockedCall_of_error]
      exact unchanged
    · rw [step, State.updateEntry, found, lockedCall_of_ok busy]
      refine ⟨fun l => Iff.rfl, by simp [Function.update_of_ne (Ne.symm keeps)], ?_⟩
      intro q pending
      simp only [Option.some_inj] at pending
      subst pending
      exact keeps
  | removeEntry i =>
    simp only [Action.keeps] at keeps
    by_cases busy : s.pending.isSome
    · rw [step, lockedCall_of_busy busy]
      exact unchanged
    rcases found : s.files i with _ | entry
    · rw [step, State.removeEntry, found, lockedCall_of_error]
      exact unchanged
    · rw [step, State.removeEntry, found, lockedCall_of_ok busy]
      refine ⟨fun l => Iff.rfl, by simp [Function.update_of_ne (Ne.symm keeps)], ?_⟩
      intro q pending
      simp only [Option.some_inj] at pending
      subst pending
      exact keeps
  | resume =>
    rcases pending : s.pending with _ | p
    · simpa [step, State.resume, pending] using unchanged
    · have ne : id ≠ p.id := Ne.symm (idle p pending)
      obtain ⟨lists, files, pendingNow⟩ := State.resume_of_ne pending ne
      exact ⟨lists, files, fun q now => (pendingNow q now).symm ▸ Ne.symm ne⟩
  | readEvents max => exact absurd rfl (notRead max)
  | readiness mask => exact absurd rfl (notReadiness mask)
  | callback i =>
    have ne : id ≠ i := fun same => notCall (same ▸ rfl)
    simp only [step]
    split
    · obtain ⟨lists, files⟩ := State.callback_of_ne (s := s) ne
      exact ⟨lists, files, State.idleFor_of_pending (State.pending_callback s i) idle⟩
    · exact unchanged
  | setFileEvents file events => exact unchanged

theorem State.callback_lists {s : State F} {id id' : FileIdentifier F} {l : ListName}
    (separated : ListFamily.Separated s.lists) (mem : id' ∈ (s.callback id).lists l) :
    id' ∈ s.lists l ∨ (id' = id ∧ l = .readyList) := by
  unfold State.callback at mem
  split at mem
  · simp only [State.setCurList_eq, State.lists_setEntry, State.lists_pushBack,
      State.lists_remove, ListFamily.mem_pushBack] at mem
    rcases mem with old | ⟨isReady, same⟩
    · exact .inl ((ListFamily.mem_remove separated).1 old).1
    · exact .inr ⟨same, isReady⟩
  · exact .inl mem

theorem Consistent.resume_lists {s : State F} (consistent : Consistent s) {id : FileIdentifier F}
    {l : ListName} (mem : id ∈ s.resume.lists l) :
    id ∈ s.lists l ∨ l = .waitingList ∨ (l = .readyList ∧ s.pending = some (.callback id)) := by
  rcases pending : s.pending with _ | p
  · simp only [State.resume, pending] at mem
    exact .inl mem
  cases p with
  | eventRegister i => simp only [State.resume, pending] at mem; exact .inl mem
  | checkReadiness i =>
    simp only [State.resume, pending] at mem
    split at mem
    · split at mem <;> exact .inl mem
    · exact .inl mem
  | callback i =>
    simp only [State.resume, pending] at mem
    rcases State.callback_lists consistent.separated mem with old | ⟨same, isReady⟩
    · exact .inl old
    · exact .inr (.inr ⟨isReady, by rw [same]⟩)
  | unlink i flags mask data =>
    simp only [State.resume, pending] at mem
    split at mem
    · exact .inl ((ListFamily.mem_remove consistent.separated).1 mem).1
    · exact .inl mem
  | relink i flags mask data =>
    simp only [State.resume, pending, State.initEntryReadiness, State.setCurList_eq,
      State.lists_setEntry, State.lists_pushBack, State.modifyEntry_eq,
      ListFamily.mem_pushBack] at mem
    rcases mem with old | ⟨waiting, -⟩
    · exact .inl old
    · exact .inr (.inl waiting)
  | removeUnlink i =>
    simp only [State.resume, pending] at mem
    split at mem
    · exact .inl ((ListFamily.mem_remove consistent.separated).1 mem).1
    · exact .inl mem

theorem eventsAvailableLoop_disabled {it : List (FileIdentifier F)} {s : State F}
    (consistent : Consistent s) (readyList : s.lists .readyList = it) {id : FileIdentifier F}
    (mem : id ∈ (State.eventsAvailableLoop it s).2.lists .disabledList) :
    id ∈ s.lists .disabledList := by
  induction it generalizing s with
  | nil => simpa [State.eventsAvailableLoop] using mem
  | cons h it ih =>
    have memH : h ∈ s.lists .readyList := readyList ▸ List.mem_cons_self
    obtain ⟨-, -, (⟨-, stop⟩ | ⟨-, loop⟩)⟩ := eventsAvailableLoop_cons consistent readyList
    · rwa [stop] at mem
    rw [loop] at mem
    have moved := ih (consistent.move memH .waitingList (fun eq => absurd eq (by decide)))
      (State.readyList_move (by decide) readyList) mem
    rcases (State.mem_lists_move consistent.separated memH).1 moved with ⟨-, old⟩ | ⟨-, wrong⟩
    · exact old
    · exact absurd wrong (by decide)

omit [DecidableEq F] in
theorem Consistent.putBack_nil {s : State F} (consistent : Consistent s) :
    Consistent (s.putBack []) := by
  rwa [State.putBack, State.pushBackList_nil]

theorem step_disabled {s : State F} (consistent : Consistent s) {id : FileIdentifier F}
    (disabled : id ∈ s.lists .disabledList) (idle : s.idleFor id) {a : Action F}
    (keeps : a.keeps id) : id ∈ (step s a).lists .disabledList ∧ (step s a).idleFor id := by
  obtain ⟨entry, present, cur⟩ := consistent.listed _ id disabled
  have notReady : id ∉ s.lists .readyList := fun ready =>
    absurd (consistent.separated.unique id _ _ disabled ready) (by decide)
  have frame := fun (notRead : ∀ max, a ≠ .readEvents max)
      (notReadiness : ∀ mask, a ≠ .readiness mask) (notCall : a ≠ .callback id) => by
    obtain ⟨lists, -, idle'⟩ := step_frame (by simp [present]) idle keeps notRead notReadiness
      notCall
    exact And.intro ((lists _).2 disabled) idle'
  cases a with
  | readEvents max =>
    have start := consistent.putBack_nil
    exact ⟨readEventsLoop_keeps max [] start rfl notReady (State.mem_putBack disabled),
      State.idleFor_of_pending (readEventsLoop_frame max [] start rfl).1 idle⟩
  | readiness mask =>
    simp only [step, State.readiness]
    split
    · rcases eventsAvailableLoop_lists consistent rfl disabled with stays | ⟨wrong, -⟩
      · exact ⟨stays, State.idleFor_of_pending (eventsAvailableLoop_frame consistent rfl).1 idle⟩
      · exact absurd wrong (by decide)
    · exact ⟨disabled, idle⟩
  | callback i =>
    by_cases same : i = id
    · -- a disabled entry is not on the waiting list: `Callback` leaves it
      subst same
      have notRelinking : ¬ s.relinking i := fun relinking =>
        consistent.unlinked i _ relinking disabled
      have unchanged := (consistent.callback_self present notRelinking).2.1 (by rw [cur]; decide)
      simp only [step]
      split
      · rw [unchanged]
        exact ⟨disabled, idle⟩
      · exact ⟨disabled, idle⟩
    · exact frame (by simp) (by simp) (by simpa using same)
  | addEntry => exact frame (by simp) (by simp) (by simp)
  | updateEntry => exact frame (by simp) (by simp) (by simp)
  | removeEntry => exact frame (by simp) (by simp) (by simp)
  | resume => exact frame (by simp) (by simp) (by simp)
  | setFileEvents => exact frame (by simp) (by simp) (by simp)

theorem step_not_ready {s : State F} (consistent : Consistent s) {id : FileIdentifier F}
    (notReady : id ∉ s.lists .readyList) {a : Action F} (noCallback : ¬ s.callsBack a id) :
    id ∉ (step s a).lists .readyList := by
  cases a with
  | addEntry i flags mask data =>
    by_cases busy : s.pending.isSome
    · rwa [step, lockedCall_of_busy busy]
    by_cases taken : (s.files i).isSome
    · rwa [step, State.addEntry, if_pos taken, lockedCall_of_error]
    · rw [step, State.addEntry, if_neg taken, lockedCall_of_ok busy]
      simpa [State.initEntryReadiness, ListFamily.mem_pushBack] using notReady
  | updateEntry i flags mask data =>
    by_cases busy : s.pending.isSome
    · rwa [step, lockedCall_of_busy busy]
    rcases found : s.files i with _ | entry
    · rwa [step, State.updateEntry, found, lockedCall_of_error]
    · rwa [step, State.updateEntry, found, lockedCall_of_ok busy]
  | removeEntry i =>
    by_cases busy : s.pending.isSome
    · rwa [step, lockedCall_of_busy busy]
    rcases found : s.files i with _ | entry
    · rwa [step, State.removeEntry, found, lockedCall_of_error]
    · rwa [step, State.removeEntry, found, lockedCall_of_ok busy]
  | resume =>
    intro mem
    rcases consistent.resume_lists mem with old | wrong | ⟨-, calling⟩
    · exact notReady old
    · exact absurd wrong (by decide)
    · exact noCallback (.inr ⟨rfl, calling⟩)
  | readEvents max =>
    exact readEventsLoop_not_ready max [] consistent.putBack_nil rfl (by simpa using notReady)
  | readiness mask =>
    simp only [step, State.readiness]
    split
    · exact eventsAvailableLoop_not_ready consistent rfl notReady
    · exact notReady
  | callback i =>
    have ne : id ≠ i := fun same => noCallback (.inl (same ▸ rfl))
    simp only [step]
    split
    · rwa [(State.callback_of_ne (s := s) ne).1]
    · exact notReady
  | setFileEvents file events => exact notReady

theorem step_level {s : State F} (consistent : Consistent s) {id : FileIdentifier F}
    (mem : id ∈ s.lists .readyList) {entry : PollEntry} (present : s.files id = some entry)
    (level : entry.flags &&& oneShot = 0 ∧ entry.flags &&& edgeTriggered = 0)
    (ready : s.fileEvents id.file &&& entry.mask ≠ 0) (idle : s.idleFor id) {a : Action F}
    (keeps : a.keeps id) :
    id ∈ (step s a).lists .readyList ∧ (step s a).idleFor id ∧
      ∃ entry', (step s a).files id = some entry' ∧ entry'.settings = entry.settings := by
  have notRelinking : ¬ s.relinking id := fun relinking => consistent.unlinked id _ relinking mem
  have cur : entry.curList = some .readyList := by
    obtain ⟨entry', present', cur⟩ := consistent.listed _ id mem
    rw [present, Option.some_inj] at present'
    exact present' ▸ cur
  have readyEvents : s.readyEvents id entry ≠ 0 := by rwa [State.readyEvents_eq]
  have settled := fun (s' : State F)
      (settings : (s'.files id).map PollEntry.settings = (s.files id).map PollEntry.settings) =>
    show ∃ entry', s'.files id = some entry' ∧ entry'.settings = entry.settings by
      rw [present, Option.map_some] at settings
      obtain ⟨entry', present', same⟩ := Option.map_eq_some_iff.1 settings
      exact ⟨entry', present', same⟩
  have frame : (∀ max, a ≠ .readEvents max) → (∀ mask, a ≠ .readiness mask) →
      a ≠ .callback id → id ∈ (step s a).lists .readyList ∧ (step s a).idleFor id ∧
        ∃ entry', (step s a).files id = some entry' ∧ entry'.settings = entry.settings :=
    fun notRead notReadiness notCall => by
      obtain ⟨lists, files, idle'⟩ := step_frame (by simp [present]) idle keeps notRead
        notReadiness notCall
      exact ⟨(lists _).2 mem, idle', entry, files.trans present, rfl⟩
  cases a with
  | readEvents max =>
    have start := consistent.putBack_nil
    obtain ⟨pending, -, settings⟩ := readEventsLoop_frame max [] start rfl
    exact ⟨readEventsLoop_level_stays max [] start rfl present level readyEvents (State.mem_putBack mem),
      State.idleFor_of_pending pending idle, settled _ (settings id)⟩
  | readiness mask =>
    simp only [step, State.readiness]
    split
    · obtain ⟨pending, -, settings⟩ := eventsAvailableLoop_frame consistent rfl
      refine ⟨?_, State.idleFor_of_pending pending idle, settled _ (settings id)⟩
      rcases eventsAvailableLoop_lists consistent rfl mem with stays | ⟨-, -, entry', present', zero⟩
      · exact stays
      · rw [present, Option.some_inj] at present'
        exact absurd (present' ▸ zero) readyEvents
    · exact ⟨mem, idle, entry, present, rfl⟩
  | callback i =>
    by_cases same : i = id
    · -- an entry of the ready list is not on the waiting list: `Callback` leaves it
      subst same
      have unchanged := (consistent.callback_self present notRelinking).2.1 (by rw [cur]; decide)
      simp only [step]
      split
      · rw [unchanged]
        exact ⟨mem, idle, entry, present, rfl⟩
      · exact ⟨mem, idle, entry, present, rfl⟩
    · exact frame (by simp) (by simp) (by simpa using same)
  | addEntry => exact frame (by simp) (by simp) (by simp)
  | updateEntry => exact frame (by simp) (by simp) (by simp)
  | removeEntry => exact frame (by simp) (by simp) (by simp)
  | resume => exact frame (by simp) (by simp) (by simp)
  | setFileEvents => exact frame (by simp) (by simp) (by simp)

theorem step_enters_disabled {s : State F} (consistent : Consistent s) {id : FileIdentifier F}
    (before : id ∉ s.lists .disabledList) {a : Action F}
    (after : id ∈ (step s a).lists .disabledList) :
    ∃ max, a = .readEvents max ∧ id ∈ (s.reported max).map Prod.fst := by
  cases a with
  | readEvents max =>
    obtain ⟨p, mem, same⟩ := readEventsLoop_disabled_reported max [] consistent.putBack_nil rfl
      (by simpa using before) after
    exact ⟨max, rfl, List.mem_map.2 ⟨p, mem, same⟩⟩
  | addEntry i flags mask data =>
    exfalso
    by_cases busy : s.pending.isSome
    · rw [step, lockedCall_of_busy busy] at after; exact before after
    by_cases taken : (s.files i).isSome
    · rw [step, State.addEntry, if_pos taken, lockedCall_of_error] at after; exact before after
    · rw [step, State.addEntry, if_neg taken, lockedCall_of_ok busy] at after
      simp [State.initEntryReadiness, ListFamily.mem_pushBack] at after
      exact before after
  | updateEntry i flags mask data =>
    exfalso
    by_cases busy : s.pending.isSome
    · rw [step, lockedCall_of_busy busy] at after; exact before after
    rcases found : s.files i with _ | entry
    · rw [step, State.updateEntry, found, lockedCall_of_error] at after; exact before after
    · rw [step, State.updateEntry, found, lockedCall_of_ok busy] at after; exact before after
  | removeEntry i =>
    exfalso
    by_cases busy : s.pending.isSome
    · rw [step, lockedCall_of_busy busy] at after; exact before after
    rcases found : s.files i with _ | entry
    · rw [step, State.removeEntry, found, lockedCall_of_error] at after; exact before after
    · rw [step, State.removeEntry, found, lockedCall_of_ok busy] at after; exact before after
  | resume =>
    exfalso
    rcases consistent.resume_lists after with old | wrong | ⟨wrong, -⟩
    · exact before old
    · exact absurd wrong (by decide)
    · exact absurd wrong (by decide)
  | readiness mask =>
    exfalso
    simp only [step, State.readiness] at after
    split at after
    · exact before (eventsAvailableLoop_disabled consistent rfl after)
    · exact before after
  | callback i =>
    exfalso
    simp only [step] at after
    split at after
    · rcases State.callback_lists consistent.separated after with old | ⟨-, wrong⟩
      · exact before old
      · exact absurd wrong (by decide)
    · exact before after
  | setFileEvents file events => exact absurd after before

/-! ## Runs -/

/-- The run from `s` never runs the `Callback` of `id`. -/
def NoCallback (id : FileIdentifier F) : State F → List (Action F) → Prop
  | _, [] => True
  | s, a :: actions => ¬ s.callsBack a id ∧ NoCallback id (step s a) actions

/-- Along the run from `s`, nothing updates or removes `id`, and after every
step its file has an event of `mask` ready. -/
def StaysReady (id : FileIdentifier F) (mask : EventMask) : State F → List (Action F) → Prop
  | _, [] => True
  | s, a :: actions =>
    a.keeps id ∧ (step s a).fileEvents id.file &&& mask ≠ 0 ∧ StaysReady id mask (step s a) actions

theorem Consistent.run {s : State F} (consistent : Consistent s) (actions : List (Action F)) :
    Consistent (StepRun.run step s actions) :=
  StepRun.run_invariant Consistent (fun _ a consistent => consistent_step consistent a)
    consistent actions

theorem run_disabled {s : State F} (consistent : Consistent s) {id : FileIdentifier F}
    (disabled : id ∈ s.lists .disabledList) (idle : s.idleFor id) {actions : List (Action F)}
    (keeps : ∀ a ∈ actions, a.keeps id) :
    id ∈ (StepRun.run step s actions).lists .disabledList := by
  induction actions generalizing s with
  | nil => exact disabled
  | cons a actions ih =>
    obtain ⟨disabled', idle'⟩ := step_disabled consistent disabled idle (keeps a List.mem_cons_self)
    exact ih (consistent_step consistent a) disabled' idle'
      (fun a' mem => keeps a' (List.mem_cons_of_mem a mem))

theorem run_not_ready {s : State F} (consistent : Consistent s) {id : FileIdentifier F}
    (notReady : id ∉ s.lists .readyList) {actions : List (Action F)}
    (noCallback : NoCallback id s actions) :
    id ∉ (StepRun.run step s actions).lists .readyList := by
  induction actions generalizing s with
  | nil => exact notReady
  | cons a actions ih =>
    exact ih (consistent_step consistent a) (step_not_ready consistent notReady noCallback.1)
      noCallback.2

theorem PollEntry.mask_eq_of_settings {entry entry' : PollEntry}
    (same : entry'.settings = entry.settings) : entry'.mask = entry.mask :=
  congrArg (·.2.1) same

theorem PollEntry.flags_eq_of_settings {entry entry' : PollEntry}
    (same : entry'.settings = entry.settings) : entry'.flags = entry.flags :=
  congrArg (·.2.2) same

theorem run_level {s : State F} (consistent : Consistent s) {id : FileIdentifier F}
    (mem : id ∈ s.lists .readyList) {entry : PollEntry} (present : s.files id = some entry)
    (level : entry.flags &&& oneShot = 0 ∧ entry.flags &&& edgeTriggered = 0)
    (ready : s.fileEvents id.file &&& entry.mask ≠ 0) (idle : s.idleFor id)
    {actions : List (Action F)} (stays : StaysReady id entry.mask s actions) :
    id ∈ (StepRun.run step s actions).lists .readyList ∧
      ∃ entry', (StepRun.run step s actions).files id = some entry' ∧
        entry'.settings = entry.settings ∧
        (StepRun.run step s actions).fileEvents id.file &&& entry.mask ≠ 0 := by
  induction actions generalizing s entry with
  | nil => exact ⟨mem, entry, present, rfl, ready⟩
  | cons a actions ih =>
    obtain ⟨keeps, readyAfter, stays⟩ := stays
    obtain ⟨mem', idle', entry', present', same⟩ :=
      step_level consistent mem present level ready idle keeps
    have mask := PollEntry.mask_eq_of_settings same
    have flags := PollEntry.flags_eq_of_settings same
    obtain ⟨memEnd, entryEnd, presentEnd, sameEnd, readyEnd⟩ :=
      ih (consistent_step consistent a) mem' present' (by rwa [flags]) (by rwa [mask]) idle'
        (by rwa [mask])
    exact ⟨memEnd, entryEnd, presentEnd, sameEnd.trans same, by rwa [← mask]⟩

/-! ## What `ReadEvents` and `Readiness` see over runs -/

theorem Consistent.reported_ready {s : State F} (consistent : Consistent s) {max : Int}
    {id : FileIdentifier F} (mem : id ∈ (s.reported max).map Prod.fst) :
    id ∈ s.lists .readyList := by
  obtain ⟨p, inReported, rfl⟩ := List.mem_map.1 mem
  exact ((consistent.reported max).2.2 p inReported).1

theorem Consistent.reported_target {s : State F} (consistent : Consistent s) {max : Int}
    {p : FileIdentifier F × EpollEvent} (reported : p ∈ s.reported max) {entry : PollEntry}
    (present : s.files p.1 = some entry) :
    s.fileEvents p.1.file &&& entry.mask ≠ 0 ∧
      p.1 ∈ (step s (.readEvents max)).lists (turnTarget entry (s.readyEvents p.1 entry)) ∧
      (step s (.readEvents max)).fileEvents = s.fileEvents ∧
      (∃ entry', (step s (.readEvents max)).files p.1 = some entry' ∧
        entry'.settings = entry.settings) ∧
      (s.idleFor p.1 → (step s (.readEvents max)).idleFor p.1) := by
  obtain ⟨entry', present', ready, -, final⟩ := ((consistent.reported max).2.2 p reported).2
  rw [present, Option.some_inj] at present'
  subst present'
  obtain ⟨pending, fileEvents, settings⟩ :=
    readEventsLoop_frame max [] consistent.putBack_nil rfl
  have settled := settings p.1
  rw [present, Option.map_some] at settled
  obtain ⟨entry', present', same⟩ := Option.map_eq_some_iff.1 settled
  refine ⟨by rwa [State.readyEvents_eq] at ready, final, fileEvents, ⟨entry', present', same⟩,
    State.idleFor_of_pending pending⟩

theorem oneShot_reported_once {s : State F} (consistent : Consistent s) {max : Int}
    {p : FileIdentifier F × EpollEvent} (reported : p ∈ s.reported max) {entry : PollEntry}
    (present : s.files p.1 = some entry) (once : entry.flags &&& oneShot ≠ 0)
    (idle : s.idleFor p.1) {actions : List (Action F)} (keeps : ∀ a ∈ actions, a.keeps p.1)
    (max' : Int) :
    p.1 ∉ ((StepRun.run step (step s (.readEvents max)) actions).reported max').map Prod.fst := by
  obtain ⟨ready, placed, -, -, idleAfter⟩ := consistent.reported_target reported present
  have target : turnTarget entry (s.readyEvents p.1 entry) = .disabledList := by
    simp [turnTarget, State.readyEvents_eq, ready, once]
  rw [target] at placed
  have after := consistent_step consistent (.readEvents max)
  have disabled := run_disabled after placed (idleAfter idle) keeps
  intro again
  have inReady := (after.run actions).reported_ready again
  exact absurd ((after.run actions).separated.unique _ _ _ disabled inReady) (by decide)

theorem edge_reported_after_callback {s : State F} (consistent : Consistent s) {max : Int}
    {p : FileIdentifier F × EpollEvent} (reported : p ∈ s.reported max) {entry : PollEntry}
    (present : s.files p.1 = some entry)
    (edge : entry.flags &&& oneShot = 0 ∧ entry.flags &&& edgeTriggered ≠ 0)
    {actions : List (Action F)} (noCallback : NoCallback p.1 (step s (.readEvents max)) actions)
    (max' : Int) :
    p.1 ∉ ((StepRun.run step (step s (.readEvents max)) actions).reported max').map Prod.fst := by
  obtain ⟨ready, placed, -, -, -⟩ := consistent.reported_target reported present
  have target : turnTarget entry (s.readyEvents p.1 entry) = .waitingList := by
    simp [turnTarget, State.readyEvents_eq, ready, edge]
  rw [target] at placed
  have after := consistent_step consistent (.readEvents max)
  have notReady : p.1 ∉ (step s (.readEvents max)).lists .readyList := fun inReady =>
    absurd (after.separated.unique _ _ _ placed inReady) (by decide)
  exact fun again => run_not_ready after notReady noCallback
    ((after.run actions).reported_ready again)

theorem level_reported_while_ready {s : State F} (consistent : Consistent s) {max : Int}
    {p : FileIdentifier F × EpollEvent} (reported : p ∈ s.reported max) {entry : PollEntry}
    (present : s.files p.1 = some entry)
    (level : entry.flags &&& oneShot = 0 ∧ entry.flags &&& edgeTriggered = 0)
    (idle : s.idleFor p.1) {actions : List (Action F)}
    (stays : StaysReady p.1 entry.mask (step s (.readEvents max)) actions) {max' : Int}
    (room : ((StepRun.run step (step s (.readEvents max)) actions).readyCount
      ((StepRun.run step (step s (.readEvents max)) actions).lists .readyList) : Int) ≤ max') :
    p.1 ∈ ((StepRun.run step (step s (.readEvents max)) actions).reported max').map Prod.fst := by
  obtain ⟨ready, placed, fileEvents, ⟨entry', present', same⟩, idleAfter⟩ :=
    consistent.reported_target reported present
  have target : turnTarget entry (s.readyEvents p.1 entry) = .readyList := by
    simp [turnTarget, State.readyEvents_eq, ready, level]
  rw [target] at placed
  have mask := PollEntry.mask_eq_of_settings same
  have flags := PollEntry.flags_eq_of_settings same
  have after := consistent_step consistent (.readEvents max)
  obtain ⟨inReady, entryEnd, presentEnd, sameEnd, readyEnd⟩ :=
    run_level after placed present' (by rwa [flags]) (by rwa [fileEvents, mask]) (idleAfter idle)
      (by rwa [mask])
  have maskEnd := PollEntry.mask_eq_of_settings sameEnd
  obtain ⟨q, mem, same⟩ := readEventsLoop_reports_ready max' [] (after.run actions).putBack_nil rfl
    inReady presentEnd (by rwa [State.readyEvents_eq, maskEnd]) (by simpa using room)
  exact List.mem_map.2 ⟨q, mem, same⟩

theorem Consistent.callback_places {s : State F} (consistent : Consistent s)
    {id : FileIdentifier F} {entry : PollEntry} (present : s.files id = some entry)
    (notRelinking : ¬ s.relinking id) :
    id ∈ (s.callback id).lists .readyList ∨ id ∈ (s.callback id).lists .disabledList := by
  obtain ⟨toReady, unchanged, -⟩ := consistent.callback_self present notRelinking
  obtain ⟨l, cur, mem⟩ := consistent.curList_of_present present notRelinking
  by_cases waiting : entry.curList = some .waitingList
  · exact .inl (toReady waiting)
  · rw [unchanged waiting]
    cases l with
    | readyList => exact .inl mem
    | waitingList => exact absurd cur waiting
    | disabledList => exact .inr mem

theorem Consistent.readiness_or_disabled {s : State F} (consistent : Consistent s)
    {id : FileIdentifier F} {entry : PollEntry} (present : s.files id = some entry)
    (ready : s.fileEvents id.file &&& entry.mask ≠ 0)
    (placed : id ∈ s.lists .readyList ∨ id ∈ s.lists .disabledList) :
    (s.readiness eventIn).1 = eventIn ∨ id ∈ s.lists .disabledList := by
  rcases placed with inReady | disabled
  · exact .inl (consistent.readiness_eventIn inReady present (by rwa [State.readyEvents_eq]))
  · exact .inr disabled

theorem Consistent.readiness_after_call {s : State F} (consistent : Consistent s)
    {p : Pending F} (pending : s.pending = some p) (done : s.resume.pending = none)
    {entry : PollEntry} (present : s.resume.files p.id = some entry)
    (ready : s.resume.fileEvents p.id.file &&& entry.mask ≠ 0) :
    (s.resume.readiness eventIn).1 = eventIn ∨ p.id ∈ s.resume.lists .disabledList := by
  have after : Consistent s.resume := consistent.resume
  cases p with
  | callback id =>
    -- the call's own `Callback`, from `initEntryReadiness`
    have notRelinking := State.not_relinking pending (by simp) id
    obtain ⟨entry₀, present₀⟩ := Option.isSome_iff_exists.1
      (by simpa [Pending.id] using consistent.pendingPresent _ pending)
    have lists : s.resume.lists = (s.callback id).lists := by simp [State.resume, pending]
    refine after.readiness_or_disabled present ready ?_
    simp only [Pending.id, lists]
    exact consistent.callback_places present₀ notRelinking
  | checkReadiness id =>
    -- the check found the entry not ready, and nothing changed since
    have same : s.resume.files = s.files ∧ s.resume.fileEvents = s.fileEvents := by
      simp only [State.resume, pending]
      split
      · split <;> simp
      · simp
    rw [same.1] at present
    rw [same.2] at ready
    simp only [Pending.id] at present ready
    simp only [State.resume, pending, present, State.fileReadiness, UInt64.and_assoc,
      UInt64.and_self] at done
    split at done
    · simp at done
    · exact absurd (not_not.1 ‹_›) ready
  | eventRegister id => simp [State.resume, pending] at done
  | unlink id flags mask data =>
    simp only [State.resume, pending] at done
    split at done <;> simp at done
  | relink id flags mask data =>
    simp [State.resume, pending, State.initEntryReadiness] at done
  | removeUnlink id =>
    simp only [State.resume, pending, Pending.id] at present
    split at present <;> simp at present

/-! ## What epoll promises, in every reachable state -/

/-- Each entry of the map, but the one an `UpdateEntry` holding `e.mu` has
unlinked, is linked once, into the list its `curList` names and no other;
nothing else is linked. -/
def ListsExact (s : State F) : Prop :=
  (∀ l, (s.lists l).Nodup) ∧
  (∀ id entry, s.files id = some entry → ¬ s.relinking id →
    ∃ l, entry.curList = some l ∧ id ∈ s.lists l ∧ ∀ l', id ∈ s.lists l' → l' = l) ∧
  ∀ l id, id ∈ s.lists l → (s.files id).isSome

/-- `ReadEvents(max)` returns at most `max` events, for distinct entries, each
with the entry's data and the events its file has ready within its mask. -/
def ReadEventsExact (s : State F) : Prop :=
  ∀ max, (s.readEvents max).1 = (s.reported max).map Prod.snd ∧
    ((s.reported max).map Prod.fst).Nodup ∧ (s.reported max).length ≤ max.toNat ∧
    ∀ p ∈ s.reported max, ∃ entry, s.files p.1 = some entry ∧
      s.fileEvents p.1.file &&& entry.mask ≠ 0 ∧
      p.2 = ⟨(s.fileEvents p.1.file &&& entry.mask).toUInt32, entry.userData⟩

/-- A one-shot entry reported now is not reported again in any run that
neither updates nor removes it. -/
def OneShotOnce (s : State F) : Prop :=
  ∀ max p entry, p ∈ s.reported max → s.files p.1 = some entry →
    entry.flags &&& oneShot ≠ 0 → s.idleFor p.1 →
    ∀ actions, (∀ a ∈ actions, a.keeps p.1) → ∀ max',
      p.1 ∉ ((StepRun.run step (step s (.readEvents max)) actions).reported max').map Prod.fst

/-- An edge-triggered entry reported now is not reported again in any run
that does not run its `Callback`. -/
def EdgeAfterCallback (s : State F) : Prop :=
  ∀ max p entry, p ∈ s.reported max → s.files p.1 = some entry →
    entry.flags &&& oneShot = 0 → entry.flags &&& edgeTriggered ≠ 0 →
    ∀ actions, NoCallback p.1 (step s (.readEvents max)) actions → ∀ max',
      p.1 ∉ ((StepRun.run step (step s (.readEvents max)) actions).reported max').map Prod.fst

/-- A level-triggered entry reported now is reported again at the end of any
run that keeps its file ready and neither updates nor removes it, by a
`ReadEvents` with room for the ready entries of the ready list. -/
def LevelWhileReady (s : State F) : Prop :=
  ∀ max p entry, p ∈ s.reported max → s.files p.1 = some entry →
    entry.flags &&& oneShot = 0 → entry.flags &&& edgeTriggered = 0 → s.idleFor p.1 →
    ∀ actions, StaysReady p.1 entry.mask (step s (.readEvents max)) actions → ∀ max',
      ((StepRun.run step (step s (.readEvents max)) actions).readyCount
        ((StepRun.run step (step s (.readEvents max)) actions).lists .readyList) : Int) ≤ max' →
      p.1 ∈ ((StepRun.run step (step s (.readEvents max)) actions).reported max').map Prod.fst

/-- No lost wakeup: once `AddEntry` or `UpdateEntry` returns, and once the
file calls the entry back, `Readiness(EventIn)` holds while the file is ready
within the entry's mask, unless the entry is disabled; disabled entries are
one-shot entries that `ReadEvents` has reported. -/
def NoLostWakeup (s : State F) : Prop :=
  (∀ p entry, s.pending = some p → s.resume.pending = none → s.resume.files p.id = some entry →
    s.resume.fileEvents p.id.file &&& entry.mask ≠ 0 →
    (s.resume.readiness eventIn).1 = eventIn ∨ p.id ∈ s.resume.lists .disabledList) ∧
  (∀ id entry, s.files id = some entry → entry.waiter.isSome →
    s.fileEvents id.file &&& entry.mask ≠ 0 →
    ((step s (.callback id)).readiness eventIn).1 = eventIn ∨
      id ∈ (step s (.callback id)).lists .disabledList) ∧
  (∀ id ∈ s.lists .disabledList, ∃ entry, s.files id = some entry ∧ entry.flags &&& oneShot ≠ 0) ∧
  ∀ a id, id ∉ s.lists .disabledList → id ∈ (step s a).lists .disabledList →
    ∃ max, a = .readEvents max ∧ id ∈ (s.reported max).map Prod.fst

omit [DecidableEq F] in
theorem Consistent.listsExact {s : State F} (consistent : Consistent s) : ListsExact s := by
  refine ⟨consistent.separated.nodup, fun id entry present notRelinking => ?_, ?_⟩
  · obtain ⟨l, cur, mem⟩ := consistent.curList_of_present present notRelinking
    exact ⟨l, cur, mem, fun l' mem' => consistent.separated.unique id l' l mem' mem⟩
  · intro l id mem
    obtain ⟨entry, present, -⟩ := consistent.listed l id mem
    simp [present]

theorem Consistent.readEventsExact {s : State F} (consistent : Consistent s) :
    ReadEventsExact s := by
  intro max
  obtain ⟨nodup, length, reported⟩ := consistent.reported max
  refine ⟨rfl, nodup, length, fun p mem => ?_⟩
  obtain ⟨-, entry, present, ready, event, -⟩ := reported p mem
  rw [State.readyEvents_eq] at ready event
  exact ⟨entry, present, ready, event⟩

theorem Consistent.noLostWakeup {s : State F} (consistent : Consistent s) : NoLostWakeup s := by
  refine ⟨fun p entry pending done present ready =>
      consistent.readiness_after_call pending done present ready,
    fun id entry present registered ready => ?_, consistent.disabledOneShot,
    fun a id before after => step_enters_disabled consistent before after⟩
  have notRelinking : ¬ s.relinking id := fun ⟨flags, mask, data, relink⟩ => by
    have off := consistent.waiterOff id entry _ present relink rfl
    simp [off] at registered
  have called : step s (.callback id) = s.callback id := by
    simp [step, present, registered]
  obtain ⟨-, -, settled⟩ := consistent.callback_self present notRelinking
  obtain ⟨entry', present', same⟩ := Option.map_eq_some_iff.1 settled
  have fileEvents : (s.callback id).fileEvents = s.fileEvents := by
    unfold State.callback
    split <;> rfl
  rw [called]
  refine (consistent.callback (notRelinking)).readiness_or_disabled present' ?_
    (consistent.callback_places present notRelinking)
  rwa [fileEvents, PollEntry.mask_eq_of_settings same]

/-- Epoll over every interleaving of its calls, its callbacks and its files'
readiness: the lists stay exact, `ReadEvents` returns exactly the ready events,
one-shot, edge-triggered and level-triggered entries are reported as their
flags say, and no wakeup is lost. -/
theorem epoll_lists_and_delivery {fileEvents : F → EventMask} {s : State F}
    (reachable : StepRun.Reachable step (newEventPoll fileEvents) s) :
    ListsExact s ∧ ReadEventsExact s ∧ OneShotOnce s ∧ EdgeAfterCallback s ∧
      LevelWhileReady s ∧ NoLostWakeup s := by
  have consistent := consistent_of_reachable reachable
  refine ⟨consistent.listsExact, consistent.readEventsExact, ?_, ?_, ?_, consistent.noLostWakeup⟩
  · intro max p entry reported present once idle actions keeps max'
    exact oneShot_reported_once consistent reported present once idle keeps max'
  · intro max p entry reported present notOnce edge actions noCallback max'
    exact edge_reported_after_callback consistent reported present ⟨notOnce, edge⟩ noCallback max'
  · intro max p entry reported present notOnce notEdge idle actions stays max' room
    exact level_reported_while_ready consistent reported present ⟨notOnce, notEdge⟩ idle stays room

/-- `AddEntry` of a file with `EventIn` ready, level-triggered, run to its end. -/
def addReadyFile : List (Action Bool) :=
  [.addEntry ⟨true, 3⟩ 0 eventIn (1, 2), .resume, .resume, .resume]

theorem epoll_delivers_after_add :
    StepRun.Reachable step (newEventPoll fun _ => eventIn)
        (StepRun.run step (newEventPoll fun _ => eventIn) addReadyFile) ∧
      ListsExact (StepRun.run step (newEventPoll fun _ => eventIn) addReadyFile) ∧
      ReadEventsExact (StepRun.run step (newEventPoll fun _ => eventIn) addReadyFile) ∧
      OneShotOnce (StepRun.run step (newEventPoll fun _ => eventIn) addReadyFile) ∧
      EdgeAfterCallback (StepRun.run step (newEventPoll fun _ => eventIn) addReadyFile) ∧
      LevelWhileReady (StepRun.run step (newEventPoll fun _ => eventIn) addReadyFile) ∧
      NoLostWakeup (StepRun.run step (newEventPoll fun _ => eventIn) addReadyFile) :=
  ⟨⟨addReadyFile, rfl⟩, epoll_lists_and_delivery ⟨addReadyFile, rfl⟩⟩

example : ((StepRun.run step (newEventPoll fun _ => eventIn) addReadyFile).readEvents 1).1 =
    [⟨1, (1, 2)⟩] := by
  decide

end Cijitter.Epoll
