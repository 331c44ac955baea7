import Cijitter.Kernel.Epoll

/-! The lists of an epoll object stay consistent with its map over every
interleaving: every entry not in the middle of an `UpdateEntry` is linked into
exactly one of the three lists, the one its `curList` names, and nothing else
is linked. Every step is a move of one entry between lists, or links or
unlinks the entry whose call holds `e.mu`; `Consistent` is kept by each. -/

set_option autoImplicit false

namespace Cijitter.Epoll

variable {F : Type}

namespace State

variable (s : State F) (id : FileIdentifier F)

@[simp] theorem lists_pushBack (l : ListName) :
    (s.pushBack l id).lists = ListFamily.pushBack s.lists l id := rfl
@[simp] theorem files_pushBack (l : ListName) : (s.pushBack l id).files = s.files := rfl
@[simp] theorem pending_pushBack (l : ListName) : (s.pushBack l id).pending = s.pending := rfl
@[simp] theorem fileEvents_pushBack (l : ListName) :
    (s.pushBack l id).fileEvents = s.fileEvents := rfl

@[simp] theorem lists_pushBackList (l : ListName) (more : List (FileIdentifier F)) :
    (s.pushBackList l more).lists = ListFamily.pushBackList s.lists l more := rfl
@[simp] theorem files_pushBackList (l : ListName) (more : List (FileIdentifier F)) :
    (s.pushBackList l more).files = s.files := rfl
@[simp] theorem pending_pushBackList (l : ListName) (more : List (FileIdentifier F)) :
    (s.pushBackList l more).pending = s.pending := rfl
@[simp] theorem fileEvents_pushBackList (l : ListName) (more : List (FileIdentifier F)) :
    (s.pushBackList l more).fileEvents = s.fileEvents := rfl

end State

/-- The entry that `UpdateEntry` has unlinked and not yet linked again. -/
def State.relinking (s : State F) (id : FileIdentifier F) : Prop :=
  ∃ flags mask data, s.pending = some (.relink id flags mask data)

/-- The sections of `UpdateEntry` and `RemoveEntry` that run after
`EventUnregister`, while the entry's waiter is off the file's queue. -/
def Pending.unregistered : Pending F → FileIdentifier F → Prop
  | .unlink id .., id' | .relink id .., id' | .removeUnlink id, id' => id = id'
  | _, _ => False

/-- The lists and the entries they link agree: `Consistent` without the
facts about the call holding `e.mu`. -/
structure ListsConsistent (s : State F) : Prop where
  separated : ListFamily.Separated s.lists
  listed : ∀ l id, id ∈ s.lists l → ∃ entry, s.files id = some entry ∧ entry.curList = some l
  linked : ∀ id entry, s.files id = some entry → ¬ s.relinking id → ∃ l, id ∈ s.lists l
  unlinked : ∀ id l, s.relinking id → id ∉ s.lists l
  disabledOneShot : ∀ id ∈ s.lists .disabledList,
    ∃ entry, s.files id = some entry ∧ entry.flags &&& oneShot ≠ 0

/-- The invariant of the lists, the map and the call holding `e.mu`. -/
structure Consistent (s : State F) : Prop extends ListsConsistent s where
  pendingPresent : ∀ p, s.pending = some p → (s.files p.id).isSome
  waiterOff : ∀ id entry p, s.files id = some entry → s.pending = some p → p.unregistered id →
    entry.waiter = none

theorem consistent_newEventPoll (fileEvents : F → EventMask) :
    Consistent (newEventPoll fileEvents) where
  separated := ⟨fun _ => List.nodup_nil, fun _ _ _ mem => absurd mem List.not_mem_nil⟩
  listed _ _ mem := absurd mem List.not_mem_nil
  linked _ _ present := by simp [newEventPoll] at present
  unlinked _ _ _ mem := absurd mem List.not_mem_nil
  disabledOneShot _ mem := absurd mem List.not_mem_nil
  pendingPresent _ pending := by simp [newEventPoll] at pending
  waiterOff _ _ _ present := by simp [newEventPoll] at present

theorem ListsConsistent.frame {s s' : State F} (consistent : ListsConsistent s)
    (lists : s'.lists = s.lists)
    (entries : ∀ id, (s'.files id).map (fun entry => (entry.curList, entry.flags)) =
      (s.files id).map (fun entry => (entry.curList, entry.flags)))
    (relinking : ∀ id, s'.relinking id ↔ s.relinking id) : ListsConsistent s' where
  separated := lists ▸ consistent.separated
  listed l id mem := by
    obtain ⟨entry, present, cur⟩ := consistent.listed l id (lists ▸ mem)
    have same := entries id
    rw [present, Option.map_some, Option.map_eq_some_iff] at same
    obtain ⟨entry', present', fields⟩ := same
    exact ⟨entry', present', by simp_all⟩
  linked id entry present notRelinking := by
    have same := entries id
    rw [present, Option.map_some] at same
    obtain ⟨old, oldPresent, -⟩ := Option.map_eq_some_iff.1 same.symm
    obtain ⟨l, mem⟩ := consistent.linked id old oldPresent ((relinking id).not.1 notRelinking)
    exact ⟨l, lists ▸ mem⟩
  unlinked id l relinkingNow := lists ▸ consistent.unlinked id l ((relinking id).1 relinkingNow)
  disabledOneShot id mem := by
    obtain ⟨entry, present, flags⟩ := consistent.disabledOneShot id (lists ▸ mem)
    have same := entries id
    rw [present, Option.map_some, Option.map_eq_some_iff] at same
    obtain ⟨entry', present', fields⟩ := same
    exact ⟨entry', present', by simp_all⟩

theorem Consistent.of_lists {s s' : State F} (consistent : Consistent s)
    (lists : ListsConsistent s') (pending : s'.pending = s.pending)
    (waiters : ∀ id, (s'.files id).map (·.waiter) = (s.files id).map (·.waiter)) :
    Consistent s' where
  toListsConsistent := lists
  pendingPresent p pendingNow := by
    have same := waiters p.id
    have present := consistent.pendingPresent p (pending ▸ pendingNow)
    cases now : s'.files p.id <;> cases old : s.files p.id <;> simp_all
  waiterOff id entry p present pendingNow unregistered := by
    have same := waiters id
    rw [present, Option.map_some] at same
    obtain ⟨old, oldPresent, waiter⟩ := Option.map_eq_some_iff.1 same.symm
    rw [← waiter]
    exact consistent.waiterOff id old p oldPresent (pending ▸ pendingNow) unregistered

theorem ListsConsistent.mem_of_curList {s : State F} (consistent : ListsConsistent s)
    {id : FileIdentifier F} {entry : PollEntry} {l : ListName} (present : s.files id = some entry)
    (notRelinking : ¬ s.relinking id) (cur : entry.curList = some l) : id ∈ s.lists l := by
  obtain ⟨l', mem⟩ := consistent.linked id entry present notRelinking
  obtain ⟨entry', present', cur'⟩ := consistent.listed l' id mem
  rw [present, Option.some_inj] at present'
  subst present'
  rw [cur, Option.some_inj] at cur'
  exact cur' ▸ mem

variable [DecidableEq F]

namespace State

variable (s : State F) (id : FileIdentifier F)

@[simp] theorem lists_remove (l : ListName) :
    (s.remove l id).lists = ListFamily.remove s.lists l id := rfl
@[simp] theorem files_remove (l : ListName) : (s.remove l id).files = s.files := rfl
@[simp] theorem pending_remove (l : ListName) : (s.remove l id).pending = s.pending := rfl
@[simp] theorem fileEvents_remove (l : ListName) :
    (s.remove l id).fileEvents = s.fileEvents := rfl

@[simp] theorem lists_setEntry (entry : Option PollEntry) :
    (s.setEntry id entry).lists = s.lists := rfl
@[simp] theorem files_setEntry (entry : Option PollEntry) :
    (s.setEntry id entry).files = Function.update s.files id entry := rfl
@[simp] theorem pending_setEntry (entry : Option PollEntry) :
    (s.setEntry id entry).pending = s.pending := rfl
@[simp] theorem fileEvents_setEntry (entry : Option PollEntry) :
    (s.setEntry id entry).fileEvents = s.fileEvents := rfl

@[simp] theorem modifyEntry_eq (f : PollEntry → PollEntry) :
    s.modifyEntry id f = s.setEntry id ((s.files id).map f) := rfl

@[simp] theorem setCurList_eq (l : ListName) :
    s.setCurList id l = s.setEntry id ((s.files id).map fun entry => { entry with curList := some l }) :=
  rfl

omit [DecidableEq F] in
@[simp] theorem pushBackList_nil (l : ListName) : s.pushBackList l [] = s := by
  cases s
  simp [State.pushBackList]

theorem setCurList_of_curList {entry : PollEntry} {l : ListName} (present : s.files id = some entry)
    (cur : entry.curList = some l) : s.setCurList id l = s := by
  have same : { entry with curList := some l } = entry := by
    cases entry
    simp_all
  cases s
  simp_all [State.setCurList, State.modifyEntry, State.setEntry]

end State

theorem ListsConsistent.move {s : State F} (consistent : ListsConsistent s)
    {id : FileIdentifier F} {l : ListName} (mem : id ∈ s.lists l) (l' : ListName)
    (toDisabled : l' = .disabledList →
      ∃ entry, s.files id = some entry ∧ entry.flags &&& oneShot ≠ 0) :
    ListsConsistent (((s.remove l id).pushBack l' id).setCurList id l') := by
  obtain ⟨entry, present, -⟩ := consistent.listed l id mem
  have moved := fun (k : ListName) (b : FileIdentifier F) =>
    ListFamily.mem_move consistent.separated mem (j := l') (k := k) (b := b)
  refine ⟨?separated, ?listed, ?linked, ?unlinked, ?disabled⟩
  case separated => simpa using consistent.separated.move mem l'
  case listed =>
    intro l'' id' mem'
    simp only [State.setCurList_eq, State.lists_setEntry, State.lists_pushBack,
      State.lists_remove] at mem'
    rcases (moved _ _).1 mem' with ⟨ne, old⟩ | ⟨rfl, rfl⟩
    · simpa [Function.update_of_ne ne] using consistent.listed l'' id' old
    · simp [present]
  case linked =>
    intro id' entry' present' notRelinking
    by_cases same : id' = id
    · subst same
      exact ⟨l', by simpa using (moved _ _).2 (.inr ⟨rfl, rfl⟩)⟩
    · simp only [State.setCurList_eq, State.files_setEntry, Function.update_of_ne same,
        State.files_pushBack, State.files_remove] at present'
      obtain ⟨l'', old⟩ := consistent.linked id' entry' present' notRelinking
      exact ⟨l'', by simpa using (moved _ _).2 (.inl ⟨same, old⟩)⟩
  case unlinked =>
    intro id' l'' relinkingNow mem'
    simp only [State.setCurList_eq, State.lists_setEntry, State.lists_pushBack,
      State.lists_remove] at mem'
    rcases (moved _ _).1 mem' with ⟨-, old⟩ | ⟨rfl, -⟩
    · exact consistent.unlinked id' l'' relinkingNow old
    · exact consistent.unlinked id' l relinkingNow mem
  case disabled =>
    intro id' mem'
    simp only [State.setCurList_eq, State.lists_setEntry, State.lists_pushBack,
      State.lists_remove] at mem'
    rcases (moved _ _).1 mem' with ⟨ne, old⟩ | ⟨rfl, toL'⟩
    · simpa [Function.update_of_ne ne] using consistent.disabledOneShot id' old
    · obtain ⟨entry', present', flags⟩ := toDisabled toL'.symm
      simp [present', flags]

theorem waiters_setCurList (s : State F) (id : FileIdentifier F) (l : ListName)
    (id' : FileIdentifier F) :
    ((s.setCurList id l).files id').map (·.waiter) = (s.files id').map (·.waiter) := by
  by_cases same : id' = id
  · subst same
    cases present : s.files id' <;> simp [present]
  · simp [Function.update_of_ne same]

theorem Consistent.move {s : State F} (consistent : Consistent s)
    {id : FileIdentifier F} {l : ListName} (mem : id ∈ s.lists l) (l' : ListName)
    (toDisabled : l' = .disabledList →
      ∃ entry, s.files id = some entry ∧ entry.flags &&& oneShot ≠ 0) :
    Consistent (((s.remove l id).pushBack l' id).setCurList id l') :=
  consistent.of_lists (consistent.toListsConsistent.move mem l' toDisabled) rfl
    (waiters_setCurList _ id l')

theorem Consistent.callback {s : State F} (consistent : Consistent s) {id : FileIdentifier F}
    (notRelinking : ¬ s.relinking id) : Consistent (s.callback id) := by
  unfold State.callback
  split
  case isTrue waiting =>
    obtain ⟨entry, present, cur⟩ := Option.bind_eq_some_iff.1 waiting
    exact consistent.move (consistent.mem_of_curList present notRelinking cur) .readyList
      (fun eq => absurd eq (by decide))
  case isFalse => exact consistent

namespace State

variable {s : State F} {id : FileIdentifier F} {it : List (FileIdentifier F)}

theorem readyList_remove (readyList : s.lists .readyList = id :: it) :
    (s.remove .readyList id).lists .readyList = it := by
  simp [ListFamily.remove, readyList]

theorem readyList_move {l' : ListName} (ne : l' ≠ .readyList)
    (readyList : s.lists .readyList = id :: it) :
    (((s.remove .readyList id).pushBack l' id).setCurList id l').lists .readyList = it := by
  simp [ListFamily.pushBack, Function.update_of_ne (Ne.symm ne), ListFamily.remove, readyList]

theorem pushBackList_move {l' : ListName} (ne : l' ≠ .readyList) (mem : id ∈ s.lists .readyList)
    (more : List (FileIdentifier F)) :
    (((s.remove .readyList id).pushBack l' id).setCurList id l').pushBackList .readyList more =
      (((s.pushBackList .readyList more).remove .readyList id).pushBack l' id).setCurList id l' := by
  have lists := ListFamily.pushBackList_move ne mem more
  cases s
  simp_all [State.remove, State.pushBack, State.pushBackList, State.setEntry]

theorem pushBackList_remove_append {entry : PollEntry} (mem : id ∈ s.lists .readyList)
    (present : s.files id = some entry) (cur : entry.curList = some .readyList)
    (more : List (FileIdentifier F)) :
    (s.remove .readyList id).pushBackList .readyList (more ++ [id]) =
      (((s.pushBackList .readyList more).remove .readyList id).pushBack .readyList id).setCurList
        id .readyList := by
  have lists := ListFamily.pushBackList_remove_append mem more
  rw [setCurList_of_curList _ _ (by simpa using present) cur]
  cases s
  simp_all [State.remove, State.pushBack, State.pushBackList]

end State

theorem Consistent.eventsAvailableLoop (it : List (FileIdentifier F)) {s : State F}
    (consistent : Consistent s) (readyList : s.lists .readyList = it) :
    Consistent (State.eventsAvailableLoop it s).2 := by
  -- each entry that is not ready moves to the waiting list; the loop walks the ready list
  induction it generalizing s with
  | nil => simpa [State.eventsAvailableLoop] using consistent
  | cons id it ih =>
    have mem : id ∈ s.lists .readyList := readyList ▸ List.mem_cons_self
    obtain ⟨entry, present, -⟩ := consistent.listed .readyList id mem
    simp only [State.eventsAvailableLoop, present]
    split
    · exact consistent
    · exact ih (consistent.move mem .waitingList (fun eq => absurd eq (by decide)))
        (State.readyList_move (by decide) readyList)

/-! ## One turn of the `ReadEvents` loop -/

/-- The events an entry has ready within its mask, as `ReadEvents` computes them. -/
def State.readyEvents (s : State F) (id : FileIdentifier F) (entry : PollEntry) : EventMask :=
  s.fileReadiness id.file entry.mask &&& entry.mask

/-- The event `ReadEvents` reports for an entry it looks at, if it is ready. -/
def State.report (s : State F) (id : FileIdentifier F) (entry : PollEntry) :
    List (FileIdentifier F × EpollEvent) :=
  if s.readyEvents id entry = 0 then []
  else [(id, ⟨(s.readyEvents id entry).toUInt32, entry.userData⟩)]

/-- The list `ReadEvents` leaves an entry in once it has looked at it. -/
def turnTarget (entry : PollEntry) (ready : EventMask) : ListName :=
  if ready = 0 then .waitingList
  else if entry.flags &&& oneShot ≠ 0 then .disabledList
  else if entry.flags &&& edgeTriggered ≠ 0 then .waitingList
  else .readyList

/-- The state `ReadEvents` would leave if it stopped now: `localList` back on the ready list. -/
abbrev State.putBack (s : State F) (localList : List (FileIdentifier F)) : State F :=
  s.pushBackList .readyList localList

theorem readEventsLoop_turn {max : Int} {it : List (FileIdentifier F)} {s : State F}
    {ret : List (FileIdentifier F × EpollEvent)} {localList : List (FileIdentifier F)}
    {id : FileIdentifier F} (consistent : Consistent (s.putBack localList))
    (readyList : s.lists .readyList = id :: it) (room : (ret.length : Int) < max) :
    ∃ entry, s.files id = some entry ∧ ∃ s' localList',
      State.readEventsLoop max (id :: it) s ret localList =
        State.readEventsLoop max it s' (ret ++ s.report id entry) localList' ∧
      s'.putBack localList' =
        ((((s.putBack localList).remove .readyList id).pushBack
          (turnTarget entry (s.readyEvents id entry)) id).setCurList id
          (turnTarget entry (s.readyEvents id entry))) ∧
      s'.lists .readyList = it := by
  have mem : id ∈ s.lists .readyList := readyList ▸ List.mem_cons_self
  have memBack : id ∈ (s.putBack localList).lists .readyList := by
    simp [ListFamily.pushBackList, mem]
  obtain ⟨entry, present, cur⟩ := consistent.listed .readyList id memBack
  simp only [State.files_pushBackList] at present
  refine ⟨entry, present, ?_⟩
  simp only [State.readEventsLoop, room, if_true, present]
  by_cases notReady : s.readyEvents id entry = 0
  · have reportNil : s.report id entry = [] := by simp [State.report, notReady]
    simp only [State.readyEvents] at notReady
    rw [if_pos notReady, reportNil, List.append_nil]
    refine ⟨_, localList, rfl, ?_, State.readyList_move (by decide) readyList⟩
    simp only [State.readyEvents, turnTarget, notReady, if_true]
    exact State.pushBackList_move (by decide) mem localList
  have reportEq : s.report id entry =
      [(id, ⟨(s.readyEvents id entry).toUInt32, entry.userData⟩)] := by
    simp [State.report, notReady]
  simp only [State.readyEvents] at notReady reportEq
  rw [if_neg notReady, reportEq]
  by_cases once : entry.flags &&& oneShot ≠ 0
  · rw [if_pos once]
    refine ⟨_, localList, rfl, ?_, State.readyList_move (by decide) readyList⟩
    simp only [State.readyEvents, turnTarget, notReady, once, if_false, if_true, ne_eq,
      not_false_eq_true]
    exact State.pushBackList_move (by decide) mem localList
  rw [if_neg once]
  by_cases edge : entry.flags &&& edgeTriggered ≠ 0
  · rw [if_pos edge]
    refine ⟨_, localList, rfl, ?_, State.readyList_move (by decide) readyList⟩
    simp only [State.readyEvents, turnTarget, notReady, once, edge, if_false, if_true, ne_eq,
      not_false_eq_true]
    exact State.pushBackList_move (by decide) mem localList
  rw [if_neg edge]
  refine ⟨s.remove .readyList id, localList ++ [id], rfl, ?_, State.readyList_remove readyList⟩
  simp only [State.readyEvents, turnTarget, notReady, once, edge, if_false]
  exact State.pushBackList_remove_append mem present cur localList

theorem turnTarget_disabled {entry : PollEntry} {ready : EventMask}
    (target : turnTarget entry ready = .disabledList) : entry.flags &&& oneShot ≠ 0 := by
  unfold turnTarget at target
  split_ifs at target with zero once
  exact once

/-- What an entry holds apart from where it is linked and registered. -/
def PollEntry.settings (entry : PollEntry) : (Int32 × Int32) × EventMask × EntryFlags :=
  (entry.userData, entry.mask, entry.flags)

theorem settings_setCurList (s : State F) (id : FileIdentifier F) (l : ListName)
    (id' : FileIdentifier F) :
    ((s.setCurList id l).files id').map PollEntry.settings = (s.files id').map PollEntry.settings := by
  by_cases same : id' = id
  · subst same
    cases found : s.files id' <;> simp [found, PollEntry.settings]
  · simp [Function.update_of_ne same]

/-- What one turn of the `ReadEvents` loop at `id` leaves, seen in the state it
would leave if it stopped: the entry moved to `turnTarget`, nothing else moved,
no other entry and no file changed, and the state still consistent. -/
structure Turn (s : State F) (localList : List (FileIdentifier F)) (id : FileIdentifier F)
    (entry : PollEntry) (s' : State F) (localList' : List (FileIdentifier F)) : Prop where
  consistent : Consistent (s'.putBack localList')
  lists : ∀ id' l, id' ∈ (s'.putBack localList').lists l ↔
    (id' ≠ id ∧ id' ∈ (s.putBack localList).lists l) ∨
      (id' = id ∧ l = turnTarget entry (s.readyEvents id entry))
  fileEvents : s'.fileEvents = s.fileEvents
  files : ∀ id', id' ≠ id → s'.files id' = s.files id'
  settings : ∀ id', (s'.files id').map PollEntry.settings = (s.files id').map PollEntry.settings
  pending : s'.pending = s.pending

omit [DecidableEq F] in
theorem State.mem_putBack {s : State F} {id : FileIdentifier F} {localList : List (FileIdentifier F)}
    {l : ListName} (mem : id ∈ s.lists l) : id ∈ (s.putBack localList).lists l := by
  simp only [State.lists_pushBackList, ListFamily.mem_pushBackList]
  exact .inl mem

theorem readEventsLoop_turn_frame {s s' : State F} {localList localList' : List (FileIdentifier F)}
    {id : FileIdentifier F} {entry : PollEntry} (consistent : Consistent (s.putBack localList))
    (mem : id ∈ s.lists .readyList) (present : s.files id = some entry)
    (putBack : s'.putBack localList' =
      ((((s.putBack localList).remove .readyList id).pushBack
        (turnTarget entry (s.readyEvents id entry)) id).setCurList id
        (turnTarget entry (s.readyEvents id entry)))) :
    Turn s localList id entry s' localList' := by
  have memBack : id ∈ (s.putBack localList).lists .readyList := State.mem_putBack mem
  refine ⟨putBack ▸ consistent.move memBack _ (fun target => ⟨entry, present,
    turnTarget_disabled target⟩), fun id' l => ?_, ?_, fun id' ne => ?_, fun id' => ?_, ?_⟩
  · rw [putBack]
    simpa using ListFamily.mem_move consistent.separated memBack (k := l) (b := id')
  · simpa using congrArg State.fileEvents putBack
  · simpa [Function.update_of_ne ne] using congrArg (State.files · id') putBack
  · have files := congrArg (fun v : State F => (v.files id').map PollEntry.settings) putBack
    simp only [State.files_pushBackList] at files
    rw [files, settings_setCurList]
    rfl
  · simpa using congrArg State.pending putBack

theorem readEventsLoop_cons {max : Int} {it : List (FileIdentifier F)} {s : State F}
    {ret : List (FileIdentifier F × EpollEvent)} {localList : List (FileIdentifier F)}
    {id : FileIdentifier F} (consistent : Consistent (s.putBack localList))
    (readyList : s.lists .readyList = id :: it) (room : (ret.length : Int) < max) :
    ∃ entry, s.files id = some entry ∧ ∃ s' localList',
      State.readEventsLoop max (id :: it) s ret localList =
        State.readEventsLoop max it s' (ret ++ s.report id entry) localList' ∧
      s'.lists .readyList = it ∧ Turn s localList id entry s' localList' := by
  obtain ⟨entry, present, s', localList', loop, putBack, readyList'⟩ :=
    readEventsLoop_turn consistent readyList room
  exact ⟨entry, present, s', localList', loop, readyList',
    readEventsLoop_turn_frame consistent (readyList ▸ List.mem_cons_self) present putBack⟩

theorem readEventsLoop_stop {max : Int} {it : List (FileIdentifier F)} {s : State F}
    {ret : List (FileIdentifier F × EpollEvent)} {localList : List (FileIdentifier F)}
    (stop : it = [] ∨ ¬ (ret.length : Int) < max) :
    State.readEventsLoop max it s ret localList = (ret, s.putBack localList) := by
  rcases stop with rfl | full
  · rfl
  · cases it <;> simp [State.readEventsLoop, full]

theorem Consistent.readEventsLoop (max : Int) (it : List (FileIdentifier F)) {s : State F}
    (ret : List (FileIdentifier F × EpollEvent)) (localList : List (FileIdentifier F))
    (consistent : Consistent (s.putBack localList))
    (readyList : s.lists .readyList = it) :
    Consistent (State.readEventsLoop max it s ret localList).2 := by
  -- the loop keeps consistent the state it would leave if it stopped here
  induction it generalizing s ret localList with
  | nil => rwa [readEventsLoop_stop (.inl rfl)]
  | cons id it ih =>
    by_cases room : (ret.length : Int) < max
    · obtain ⟨entry, -, s', localList', loop, readyList', turn⟩ :=
        readEventsLoop_cons consistent readyList room
      rw [loop]
      exact ih _ _ turn.consistent readyList'
    · rwa [readEventsLoop_stop (.inr room)]

theorem Consistent.unregister {s : State F} (consistent : Consistent s) (idle : s.pending = none)
    {id : FileIdentifier F} {entry : PollEntry} (present : s.files id = some entry) (p : Pending F)
    (pendingId : p.id = id) (notRelink : ∀ flags mask data, p ≠ .relink id flags mask data) :
    Consistent { s.setEntry id (some { entry with waiter := none }) with pending := some p } := by
  have notRelinking : ∀ id', ¬ State.relinking { s.setEntry id (some { entry with waiter := none }) with pending := some p } id' := by
    rintro id' ⟨flags, mask, data, relink⟩
    cases p <;> simp_all [Pending.id]
  have idleRelinking : ∀ id', ¬ s.relinking id' := by
    rintro id' ⟨flags, mask, data, relink⟩
    simp_all
  refine ⟨consistent.frame rfl ?entries (fun id' => iff_of_false (notRelinking id') (idleRelinking id')), ?present, ?waiter⟩
  case entries =>
    intro id'
    by_cases same : id' = id
    · subst same
      simp [present]
    · simp [Function.update_of_ne same]
  case present =>
    intro p' pending
    simp only [Option.some_inj] at pending
    subst pending
    simp [pendingId]
  case waiter =>
    intro id' entry' p' present' pending unregistered
    simp only [Option.some_inj] at pending
    subst pending
    have same : id = id' := by
      cases p <;> simp_all [Pending.unregistered, Pending.id]
    subst same
    simp only [State.files_setEntry, Function.update_self, Option.some_inj] at present'
    rw [← present']

omit [DecidableEq F] in
theorem State.relinking_unique {s : State F} {id id' : FileIdentifier F} (first : s.relinking id)
    (second : s.relinking id') : id = id' := by
  obtain ⟨_, _, _, first⟩ := first
  obtain ⟨_, _, _, second⟩ := second
  rw [first, Option.some_inj] at second
  cases second
  rfl

omit [DecidableEq F] in
theorem ListsConsistent.withPending {s : State F} (consistent : ListsConsistent s)
    (notRelinking : ∀ id, ¬ s.relinking id) (p : Option (Pending F))
    (notRelink : ∀ id flags mask data, p ≠ some (.relink id flags mask data))
    (present : ∀ q, p = some q → (s.files q.id).isSome)
    (registered : ∀ q id, p = some q → ¬ q.unregistered id) : Consistent { s with pending := p } where
  toListsConsistent := consistent.frame rfl (fun _ => rfl)
    (fun id => iff_of_false (fun ⟨flags, mask, data, relink⟩ => notRelink id flags mask data relink)
      (notRelinking id))
  pendingPresent := present
  waiterOff _ _ q _ pending unregistered := absurd unregistered (registered q _ pending)

theorem Consistent.eventRegister {s : State F} (consistent : Consistent s) {id : FileIdentifier F}
    (pending : s.pending = some (.eventRegister id)) :
    Consistent { s.modifyEntry id (fun entry => { entry with waiter := some entry.mask }) with
      pending := some (.checkReadiness id) } := by
  have notRelinking : ∀ id', ¬ s.relinking id' := by
    rintro id' ⟨_, _, _, relink⟩
    simp [pending] at relink
  have present := consistent.pendingPresent _ pending
  refine ListsConsistent.withPending (s := s.modifyEntry id _) ?lists notRelinking _
    (by simp) (fun q pendingNow => ?present) (fun q id' pendingNow => ?registered)
  case lists =>
    refine consistent.frame rfl (fun id' => ?_) (fun _ => Iff.rfl)
    by_cases same : id' = id
    · subst same
      cases found : s.files id' <;> simp [found]
    · simp [Function.update_of_ne same]
  case present =>
    simp only [Option.some_inj] at pendingNow
    subst pendingNow
    simpa [Pending.id] using present
  case registered =>
    simp only [Option.some_inj] at pendingNow
    subst pendingNow
    simp [Pending.unregistered]

theorem Consistent.modifyEntry_relinking {s : State F} (consistent : Consistent s)
    {id : FileIdentifier F} (relinking : s.relinking id) (f : PollEntry → PollEntry)
    (waiter : ∀ entry, (f entry).waiter = entry.waiter) : Consistent (s.modifyEntry id f) := by
  have nowhere : ∀ l id', id' ∈ s.lists l → id' ≠ id := fun l id' mem same =>
    consistent.unlinked id l relinking (same ▸ mem)
  have entries : ∀ id', id' ≠ id → (s.modifyEntry id f).files id' = s.files id' := fun id' ne => by
    simp [Function.update_of_ne ne]
  refine consistent.of_lists ⟨consistent.separated, ?listed, ?linked, consistent.unlinked,
    ?disabled⟩ rfl (fun id' => ?waiters)
  case listed =>
    intro l id' mem
    rw [entries id' (nowhere l id' mem)]
    exact consistent.listed l id' mem
  case linked =>
    intro id' entry present notRelinking
    have ne : id' ≠ id := fun same => notRelinking (same ▸ relinking)
    rw [entries id' ne] at present
    exact consistent.linked id' entry present notRelinking
  case disabled =>
    intro id' mem
    rw [entries id' (nowhere _ id' mem)]
    exact consistent.disabledOneShot id' mem
  case waiters =>
    by_cases same : id' = id
    · subst same
      cases found : s.files id' <;> simp [found, waiter]
    · rw [entries id' same]

theorem Consistent.initEntryReadiness {s : State F} (consistent : Consistent s)
    {id : FileIdentifier F} (relinking : s.relinking id) :
    Consistent (s.initEntryReadiness id) := by
  obtain ⟨flags, mask, data, pending⟩ := relinking
  obtain ⟨entry, present⟩ := Option.isSome_iff_exists.1 (consistent.pendingPresent _ pending)
  simp only [Pending.id] at present
  have nowhere : ∀ l, id ∉ s.lists l := fun l =>
    consistent.unlinked id l ⟨flags, mask, data, pending⟩
  have others : ∀ id', id' ≠ id → ¬ s.relinking id' := fun id' ne relinkingOther =>
    ne (State.relinking_unique relinkingOther ⟨flags, mask, data, pending⟩)
  have entries : ∀ id', id' ≠ id → (s.initEntryReadiness id).files id' = s.files id' :=
    fun id' ne => by simp [State.initEntryReadiness, Function.update_of_ne ne]
  have linkedNow : ∀ l id', id' ∈ (s.initEntryReadiness id).lists l ↔
      id' ∈ s.lists l ∨ (l = .waitingList ∧ id' = id) := fun l id' => by
    simp [State.initEntryReadiness, ListFamily.mem_pushBack]
  have oldNe : ∀ l id', id' ∈ s.lists l → id' ≠ id := fun l id' mem same =>
    nowhere l (same ▸ mem)
  refine ⟨⟨?separated, ?listed, ?linked, ?unlinked, ?disabled⟩, ?present, ?waiter⟩
  case separated =>
    simpa [State.initEntryReadiness] using consistent.separated.pushBack .waitingList nowhere
  case listed =>
    intro l id' mem
    rcases (linkedNow l id').1 mem with old | ⟨rfl, rfl⟩
    · rw [entries id' (oldNe l id' old)]
      exact consistent.listed l id' old
    · simp [State.initEntryReadiness, present]
  case linked =>
    intro id' entry' _ _
    by_cases same : id' = id
    · exact ⟨.waitingList, (linkedNow _ _).2 (.inr ⟨rfl, same⟩)⟩
    · rw [entries id' same] at *
      obtain ⟨l, mem⟩ := consistent.linked id' entry' ‹_› (others id' same)
      exact ⟨l, (linkedNow l id').2 (.inl mem)⟩
  case unlinked =>
    rintro id' l ⟨_, _, _, relink⟩
    simp [State.initEntryReadiness] at relink
  case disabled =>
    intro id' mem
    rcases (linkedNow _ id').1 mem with old | ⟨wrong, -⟩
    · rw [entries id' (oldNe _ id' old)]
      exact consistent.disabledOneShot id' old
    · exact absurd wrong (by decide)
  case present =>
    intro q pendingNow
    simp only [State.initEntryReadiness, Option.some_inj] at pendingNow
    subst pendingNow
    simp [State.initEntryReadiness, Pending.id, present]
  case waiter =>
    intro id' _ q _ pendingNow unregistered
    simp only [State.initEntryReadiness, Option.some_inj] at pendingNow
    subst pendingNow
    simp [Pending.unregistered] at unregistered

omit [DecidableEq F] in
theorem ListsConsistent.curList_of_present {s : State F} (consistent : ListsConsistent s)
    {id : FileIdentifier F} {entry : PollEntry} (present : s.files id = some entry)
    (notRelinking : ¬ s.relinking id) : ∃ l, entry.curList = some l ∧ id ∈ s.lists l := by
  obtain ⟨l, mem⟩ := consistent.linked id entry present notRelinking
  obtain ⟨entry', present', cur⟩ := consistent.listed l id mem
  rw [present, Option.some_inj] at present'
  exact ⟨l, present' ▸ cur, mem⟩

theorem Consistent.unlink {s : State F} (consistent : Consistent s) {id : FileIdentifier F}
    {flags : EntryFlags} {mask : EventMask} {data : Int32 × Int32}
    (pending : s.pending = some (.unlink id flags mask data)) {l : ListName} (mem : id ∈ s.lists l) :
    Consistent { s.remove l id with pending := some (.relink id flags mask data) } := by
  have before : ∀ id', ¬ s.relinking id' := by
    rintro id' ⟨_, _, _, relink⟩
    simp [pending] at relink
  have relinkingNow : ∀ id', State.relinking { s.remove l id with
      pending := some (.relink id flags mask data) } id' ↔ id' = id := fun id' => by
    constructor
    · rintro ⟨_, _, _, relink⟩
      simp only [Option.some_inj, Pending.relink.injEq] at relink
      exact relink.1.symm
    · rintro rfl
      exact ⟨flags, mask, data, rfl⟩
  have removed := fun (l' : ListName) (id' : FileIdentifier F) =>
    ListFamily.mem_remove consistent.separated (i := l) (a := id) (j := l') (b := id')
  refine ⟨⟨consistent.separated.remove l id, ?listed, ?linked, ?unlinked, ?disabled⟩, ?present,
    ?waiter⟩
  case listed =>
    intro l' id' mem'
    exact consistent.listed l' id' ((removed l' id').1 mem').1
  case linked =>
    intro id' entry present notRelinking
    have ne : id' ≠ id := fun same => notRelinking ((relinkingNow id').2 same)
    obtain ⟨l', old⟩ := consistent.linked id' entry present (before id')
    exact ⟨l', (removed l' id').2 ⟨old, fun _ => ne⟩⟩
  case unlinked =>
    intro id' l' relinking
    rw [(relinkingNow id').1 relinking]
    exact ListFamily.not_mem_remove consistent.separated mem l'
  case disabled =>
    intro id' mem'
    exact consistent.disabledOneShot id' ((removed _ id').1 mem').1
  case present =>
    intro q pendingNow
    simp only [Option.some_inj] at pendingNow
    subst pendingNow
    simpa [Pending.id] using consistent.pendingPresent _ pending
  case waiter =>
    intro id' entry q present pendingNow unregistered
    simp only [Option.some_inj] at pendingNow
    subst pendingNow
    exact consistent.waiterOff id' entry _ present pending unregistered

theorem Consistent.removeUnlink {s : State F} (consistent : Consistent s) {id : FileIdentifier F}
    (pending : s.pending = some (.removeUnlink id)) {l : ListName} (mem : id ∈ s.lists l) :
    Consistent { (s.remove l id).setEntry id none with pending := none } := by
  have before : ∀ id', ¬ s.relinking id' := by
    rintro id' ⟨_, _, _, relink⟩
    simp [pending] at relink
  have removed := fun (l' : ListName) (id' : FileIdentifier F) =>
    ListFamily.mem_remove consistent.separated (i := l) (a := id) (j := l') (b := id')
  have gone : ∀ l' id', id' ∈ ListFamily.remove s.lists l id l' → id' ≠ id := fun l' id' mem' same =>
    ListFamily.not_mem_remove consistent.separated mem l' (same ▸ mem')
  refine ListsConsistent.withPending (s := (s.remove l id).setEntry id none)
    ⟨consistent.separated.remove l id, ?listed, ?linked,
    fun id' _ relinking => absurd relinking (before id'), ?disabled⟩ before none (by simp) (by simp)
    (by simp)
  case listed =>
    intro l' id' mem'
    simp only [State.lists_setEntry, State.lists_remove] at mem'
    simpa [Function.update_of_ne (gone l' id' mem')] using
      consistent.listed l' id' ((removed l' id').1 mem').1
  case linked =>
    intro id' entry present _
    have ne : id' ≠ id := by
      rintro rfl
      simp at present
    simp only [State.files_setEntry, Function.update_of_ne ne, State.files_remove] at present
    obtain ⟨l', old⟩ := consistent.linked id' entry present (before id')
    exact ⟨l', (removed l' id').2 ⟨old, fun _ => ne⟩⟩
  case disabled =>
    intro id' mem'
    simp only [State.lists_setEntry, State.lists_remove] at mem'
    simpa [Function.update_of_ne (gone _ id' mem')] using
      consistent.disabledOneShot id' ((removed _ id').1 mem').1

omit [DecidableEq F] in
theorem State.not_relinking {s : State F} {p : Pending F} (pending : s.pending = some p)
    (notRelink : ∀ id flags mask data, p ≠ .relink id flags mask data) (id : FileIdentifier F) :
    ¬ s.relinking id := by
  rintro ⟨flags, mask, data, relink⟩
  rw [pending, Option.some_inj] at relink
  exact notRelink id flags mask data relink

theorem State.pending_callback (s : State F) (id : FileIdentifier F) :
    (s.callback id).pending = s.pending := by
  unfold State.callback
  split <;> rfl

theorem Consistent.setEntry_relinking {s : State F} (consistent : Consistent s)
    (idle : s.pending = none) {id : FileIdentifier F} (absent : s.files id = none)
    {entry : PollEntry} (off : entry.waiter = none) (flags : EntryFlags) (mask : EventMask)
    (data : Int32 × Int32) :
    Consistent { s.setEntry id (some entry) with pending := some (.relink id flags mask data) } := by
  have before : ∀ id', ¬ s.relinking id' := by
    rintro id' ⟨_, _, _, relink⟩
    simp [idle] at relink
  have listedNe : ∀ l id', id' ∈ s.lists l → id' ≠ id := fun l id' mem same => by
    obtain ⟨_, present, -⟩ := consistent.listed l id' mem
    simp [same, absent] at present
  have relinkingNow : ∀ id', State.relinking { s.setEntry id (some entry) with
      pending := some (.relink id flags mask data) } id' → id' = id := by
    rintro id' ⟨_, _, _, relink⟩
    simp only [Option.some_inj, Pending.relink.injEq] at relink
    exact relink.1.symm
  refine ⟨⟨consistent.separated, ?listed, ?linked, ?unlinked, ?disabled⟩, ?present, ?waiter⟩
  case listed =>
    intro l id' mem
    simpa [Function.update_of_ne (listedNe l id' mem)] using consistent.listed l id' mem
  case linked =>
    intro id' entry' present notRelinking
    have ne : id' ≠ id := by
      rintro rfl
      exact notRelinking ⟨flags, mask, data, rfl⟩
    simp only [State.files_setEntry, Function.update_of_ne ne] at present
    exact consistent.linked id' entry' present (before id')
  case unlinked =>
    intro id' l relinking mem
    exact listedNe l id' mem (relinkingNow id' relinking)
  case disabled =>
    intro id' mem
    simpa [Function.update_of_ne (listedNe _ id' mem)] using consistent.disabledOneShot id' mem
  case present =>
    intro q pendingNow
    simp only [Option.some_inj] at pendingNow
    subst pendingNow
    simp [Pending.id]
  case waiter =>
    intro id' entry' q present pendingNow unregistered
    simp only [Option.some_inj] at pendingNow
    subst pendingNow
    simp only [Pending.unregistered] at unregistered
    subst unregistered
    simp only [State.files_setEntry, Function.update_self, Option.some_inj] at present
    exact present ▸ off

theorem Consistent.resume {s : State F} (consistent : Consistent s) : Consistent s.resume := by
  rcases pending : s.pending with _ | p
  · simpa [State.resume, pending] using consistent
  -- one case for each section the call holding `e.mu` can run next
  cases p with
  | eventRegister id =>
    simp only [State.resume, pending]
    exact consistent.eventRegister pending
  | checkReadiness id =>
    have notRelinking := State.not_relinking pending (by simp)
    have present := consistent.pendingPresent _ pending
    simp only [Pending.id] at present
    simp only [State.resume, pending]
    split
    · split
      · exact consistent.withPending notRelinking _ (by simp)
          (fun q eq => by simp only [Option.some_inj] at eq; subst eq; exact present)
          (fun q _ eq => by simp only [Option.some_inj] at eq; subst eq; simp [Pending.unregistered])
      · exact consistent.withPending notRelinking none (by simp) (by simp) (by simp)
    · exact consistent.withPending notRelinking none (by simp) (by simp) (by simp)
  | callback id =>
    have notRelinking := State.not_relinking pending (by simp)
    have called := consistent.callback (notRelinking id)
    simp only [State.resume, pending]
    refine called.withPending (fun id' => ?_) none (by simp) (by simp) (by simp)
    exact State.not_relinking ((State.pending_callback s id).trans pending) (by simp) id'
  | unlink id flags mask data =>
    obtain ⟨entry, present⟩ := Option.isSome_iff_exists.1 (consistent.pendingPresent _ pending)
    simp only [Pending.id] at present
    obtain ⟨l, cur, mem⟩ := consistent.curList_of_present present
      (State.not_relinking pending (by simp) id)
    have curEq : (s.files id).bind (·.curList) = some l := by simp [present, cur]
    simp only [State.resume, pending, curEq]
    exact consistent.unlink pending mem
  | relink id flags mask data =>
    simp only [State.resume, pending]
    have relinking : s.relinking id := ⟨flags, mask, data, pending⟩
    exact (consistent.modifyEntry_relinking relinking
      (fun entry => { entry with flags, mask, userData := data }) (fun _ => rfl)).initEntryReadiness
      relinking
  | removeUnlink id =>
    obtain ⟨entry, present⟩ := Option.isSome_iff_exists.1 (consistent.pendingPresent _ pending)
    simp only [Pending.id] at present
    obtain ⟨l, cur, mem⟩ := consistent.curList_of_present present
      (State.not_relinking pending (by simp) id)
    have curEq : (s.files id).bind (·.curList) = some l := by simp [present, cur]
    simp only [State.resume, pending, curEq]
    exact consistent.removeUnlink pending mem

theorem consistent_step {s : State F} (consistent : Consistent s) (a : Action F) :
    Consistent (step s a) := by
  cases a with
  | addEntry id flags mask data =>
    simp only [step, lockedCall]
    split
    case isTrue => exact consistent
    case isFalse idle =>
      by_cases present : (s.files id).isSome
      · simp only [State.addEntry, present, if_true]
        exact consistent
      · simp only [State.addEntry, present]
        exact (consistent.setEntry_relinking (by simpa using idle) (by simpa using present) rfl
          flags mask data).initEntryReadiness ⟨flags, mask, data, rfl⟩
  | updateEntry id flags mask data =>
    simp only [step, lockedCall]
    split
    case isTrue => exact consistent
    case isFalse idle =>
      rcases present : s.files id with _ | entry
      · simp only [State.updateEntry, present]
        exact consistent
      · simp only [State.updateEntry, present]
        exact consistent.unregister (by simpa using idle) present _ rfl (by simp)
  | removeEntry id =>
    simp only [step, lockedCall]
    split
    case isTrue => exact consistent
    case isFalse idle =>
      rcases present : s.files id with _ | entry
      · simp only [State.removeEntry, present]
        exact consistent
      · simp only [State.removeEntry, present]
        exact consistent.unregister (by simpa using idle) present _ rfl (by simp)
  | resume => exact consistent.resume
  | readEvents max =>
    have start := Consistent.readEventsLoop (s := s) max (s.lists .readyList) [] []
      (by rw [State.putBack, State.pushBackList_nil]; exact consistent) rfl
    simpa [step, State.readEvents] using start
  | readiness mask =>
    simp only [step, State.readiness]
    split
    · exact consistent.eventsAvailableLoop _ rfl
    · exact consistent
  | callback id =>
    simp only [step]
    split
    case isFalse => exact consistent
    case isTrue registered =>
      refine consistent.callback fun ⟨flags, mask, data, relink⟩ => ?_
      obtain ⟨entry, present⟩ := Option.isSome_iff_exists.1 (consistent.pendingPresent _ relink)
      simp only [Pending.id] at present
      have off := consistent.waiterOff id entry _ present relink rfl
      simp [present, off] at registered
  | setFileEvents file events =>
    exact consistent.of_lists (consistent.frame rfl (fun _ => rfl) (fun _ => Iff.rfl)) rfl
      (fun _ => rfl)

theorem consistent_of_reachable {fileEvents : F → EventMask} {s : State F}
    (reachable : StepRun.Reachable step (newEventPoll fileEvents) s) : Consistent s :=
  StepRun.Reachable.invariant Consistent (consistent_newEventPoll fileEvents)
    (fun _ a _ consistent => consistent_step consistent a) reachable


end Cijitter.Epoll
