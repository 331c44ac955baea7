import Cijitter.Kernel.EpollProperties

/-! What epoll delivers: the events `ReadEvents` returns, where it leaves each
entry it reports, and how entries stay in or out of the ready list over a run.
One-shot entries wait in the disabled list until `UpdateEntry`, edge-triggered
ones in the waiting list until a callback, and level-triggered ones that stay
ready stay in the ready list; `Readiness` sees every ready entry of that list. -/

set_option autoImplicit false

namespace Cijitter.Epoll

variable {F : Type} [DecidableEq F]

omit [DecidableEq F] in
theorem State.readyEvents_eq (s : State F) (id : FileIdentifier F) (entry : PollEntry) :
    s.readyEvents id entry = s.fileEvents id.file &&& entry.mask := by
  simp [State.readyEvents, State.fileReadiness, UInt64.and_assoc]

theorem State.mem_lists_move {v : State F} (separated : ListFamily.Separated v.lists)
    {h : FileIdentifier F} {l₀ : ListName} (mem : h ∈ v.lists l₀) {t l : ListName}
    {id : FileIdentifier F} :
    id ∈ (((v.remove l₀ h).pushBack t h).setCurList h t).lists l ↔
      (id ≠ h ∧ id ∈ v.lists l) ∨ (id = h ∧ l = t) := by
  simpa using ListFamily.mem_move separated mem (k := l) (b := id)

omit [DecidableEq F] in
theorem State.readyList_nodup {s : State F} {localList : List (FileIdentifier F)}
    (consistent : Consistent (s.putBack localList)) : (s.lists .readyList).Nodup := by
  have nodup := consistent.separated.nodup .readyList
  simp only [State.lists_pushBackList, ListFamily.pushBackList, Function.update_self] at nodup
  exact (List.nodup_append.1 nodup).1

omit [DecidableEq F] in
theorem State.report_congr {s s' : State F} (fileEvents : s'.fileEvents = s.fileEvents)
    (id : FileIdentifier F) (entry : PollEntry) : s'.report id entry = s.report id entry := by
  simp [State.report, State.readyEvents_eq, fileEvents]

omit [DecidableEq F] in
theorem State.readyEvents_congr {s s' : State F} (fileEvents : s'.fileEvents = s.fileEvents)
    (id : FileIdentifier F) (entry : PollEntry) : s'.readyEvents id entry = s.readyEvents id entry := by
  simp [State.readyEvents_eq, fileEvents]

omit [DecidableEq F] in
theorem State.report_sublist (s : State F) (id : FileIdentifier F) (entry : PollEntry) :
    ((s.report id entry).map Prod.fst).Sublist [id] := by
  unfold State.report
  split <;> simp

/-- The entries of `ids` whose file has events ready within their mask: how
many events `ReadEvents` can find there. -/
def State.readyCount (s : State F) (ids : List (FileIdentifier F)) : Nat :=
  (ids.filter fun id => (s.files id).any fun entry => s.readyEvents id entry != 0).length

omit [DecidableEq F] in
theorem State.readyCount_cons (s : State F) {id : FileIdentifier F} {entry : PollEntry}
    (present : s.files id = some entry) (ids : List (FileIdentifier F)) :
    s.readyCount (id :: ids) = (s.report id entry).length + s.readyCount ids := by
  unfold State.readyCount State.report
  by_cases zero : s.readyEvents id entry = 0
  · simp [present, zero]
  · simp [present, zero]
    omega

omit [DecidableEq F] in
theorem State.readyCount_congr {s s' : State F} {ids : List (FileIdentifier F)}
    (files : ∀ id ∈ ids, s'.files id = s.files id) (fileEvents : s'.fileEvents = s.fileEvents) :
    s'.readyCount ids = s.readyCount ids := by
  unfold State.readyCount
  congr 1
  refine List.filter_congr fun id mem => ?_
  simp only [files id mem, State.readyEvents_congr fileEvents]

/-! ## The `ReadEvents` loop -/

section ReadEvents

variable (max : Int)

theorem readEventsLoop_keeps {it : List (FileIdentifier F)} {s : State F}
    (ret : List (FileIdentifier F × EpollEvent)) {localList : List (FileIdentifier F)}
    (consistent : Consistent (s.putBack localList)) (readyList : s.lists .readyList = it)
    {id : FileIdentifier F} (notIn : id ∉ it) {l : ListName}
    (mem : id ∈ (s.putBack localList).lists l) :
    id ∈ (State.readEventsLoop max it s ret localList).2.lists l := by
  induction it generalizing s ret localList with
  | nil => rwa [readEventsLoop_stop (.inl rfl)]
  | cons h it ih =>
    by_cases room : (ret.length : Int) < max
    · obtain ⟨entry, -, s', localList', loop, readyList', turn⟩ :=
        readEventsLoop_cons consistent readyList room
      rw [loop]
      refine ih _ turn.consistent readyList' (fun inIt => notIn (List.mem_cons_of_mem h inIt)) ?_
      exact (turn.lists id l).2 (.inl ⟨fun same => notIn (same ▸ List.mem_cons_self), mem⟩)
    · rwa [readEventsLoop_stop (.inr room)]

theorem readEventsLoop_not_ready {it : List (FileIdentifier F)} {s : State F}
    (ret : List (FileIdentifier F × EpollEvent)) {localList : List (FileIdentifier F)}
    (consistent : Consistent (s.putBack localList)) (readyList : s.lists .readyList = it)
    {id : FileIdentifier F} (notReady : id ∉ (s.putBack localList).lists .readyList) :
    id ∉ (State.readEventsLoop max it s ret localList).2.lists .readyList := by
  induction it generalizing s ret localList with
  | nil => rwa [readEventsLoop_stop (.inl rfl)]
  | cons h it ih =>
    by_cases room : (ret.length : Int) < max
    · obtain ⟨entry, -, s', localList', loop, readyList', turn⟩ :=
        readEventsLoop_cons consistent readyList room
      have ne : id ≠ h := fun same =>
        notReady (State.mem_putBack (same ▸ readyList ▸ List.mem_cons_self))
      rw [loop]
      refine ih _ turn.consistent readyList' fun mem => ?_
      rcases (turn.lists id _).1 mem with ⟨-, old⟩ | ⟨same, -⟩
      · exact notReady old
      · exact ne same
    · rwa [readEventsLoop_stop (.inr room)]

theorem readEventsLoop_level_stays {it : List (FileIdentifier F)} {s : State F}
    (ret : List (FileIdentifier F × EpollEvent)) {localList : List (FileIdentifier F)}
    (consistent : Consistent (s.putBack localList)) (readyList : s.lists .readyList = it)
    {id : FileIdentifier F} {entry : PollEntry} (present : s.files id = some entry)
    (level : entry.flags &&& oneShot = 0 ∧ entry.flags &&& edgeTriggered = 0)
    (ready : s.readyEvents id entry ≠ 0) (mem : id ∈ (s.putBack localList).lists .readyList) :
    id ∈ (State.readEventsLoop max it s ret localList).2.lists .readyList := by
  induction it generalizing s ret localList with
  | nil => rwa [readEventsLoop_stop (.inl rfl)]
  | cons h it ih =>
    by_cases room : (ret.length : Int) < max
    · obtain ⟨entry', present', s', localList', loop, readyList', turn⟩ :=
        readEventsLoop_cons consistent readyList room
      rw [loop]
      by_cases same : id = h
      · -- the entry is reported and put back; the rest of the loop does not touch it
        subst same
        have nodup := State.readyList_nodup consistent
        rw [readyList] at nodup
        have target : turnTarget entry' (s.readyEvents id entry') = .readyList := by
          rw [present, Option.some_inj] at present'
          subst present'
          simp [turnTarget, ready, level]
        refine readEventsLoop_keeps max _ turn.consistent readyList' ?_ ((turn.lists id _).2
          (.inr ⟨rfl, target.symm⟩))
        exact (List.nodup_cons.1 nodup).1
      · refine ih _ turn.consistent readyList' ?_ ?_ ((turn.lists id _).2 (.inl ⟨same, mem⟩))
        · rw [turn.files id same, present]
        · rwa [State.readyEvents_eq, turn.fileEvents, ← State.readyEvents_eq]
    · rwa [readEventsLoop_stop (.inr room)]

theorem readEventsLoop_reports {it : List (FileIdentifier F)} {s : State F}
    (ret : List (FileIdentifier F × EpollEvent)) {localList : List (FileIdentifier F)}
    (consistent : Consistent (s.putBack localList)) (readyList : s.lists .readyList = it) :
    ∃ new, (State.readEventsLoop max it s ret localList).1 = ret ++ new ∧
      (new.map Prod.fst).Sublist it ∧
      ∀ p ∈ new, ∃ entry, s.files p.1 = some entry ∧ p ∈ s.report p.1 entry ∧
        p.1 ∈ (State.readEventsLoop max it s ret localList).2.lists
          (turnTarget entry (s.readyEvents p.1 entry)) := by
  induction it generalizing s ret localList with
  | nil => exact ⟨[], by rw [readEventsLoop_stop (.inl rfl)]; simp, by simp, by simp⟩
  | cons h it ih =>
    by_cases room : (ret.length : Int) < max
    · obtain ⟨entry, present, s', localList', loop, readyList', turn⟩ :=
        readEventsLoop_cons consistent readyList room
      have notIn : h ∉ it := by
        have nodup := State.readyList_nodup consistent
        rw [readyList] at nodup
        exact (List.nodup_cons.1 nodup).1
      obtain ⟨new, result, sublist, reported⟩ :=
        ih (ret ++ s.report h entry) turn.consistent readyList'
      rw [loop]
      refine ⟨s.report h entry ++ new, by rw [result, List.append_assoc], ?_, ?_⟩
      · rw [List.map_append]
        exact (s.report_sublist h entry).append sublist
      · intro p mem
        rcases List.mem_append.1 mem with here | later
        · -- reported in this turn: it sits in its target, where the rest leaves it
          obtain ⟨id', event⟩ := p
          have first : id' = h := by
            simpa using (s.report_sublist h entry).subset (List.mem_map_of_mem here)
          subst first
          refine ⟨entry, present, here, readEventsLoop_keeps max _ turn.consistent readyList' notIn ?_⟩
          exact (turn.lists _ _).2 (.inr ⟨rfl, rfl⟩)
        · obtain ⟨entry', present', inReport, final⟩ := reported p later
          have ne : p.1 ≠ h := fun same =>
            notIn (same ▸ sublist.subset (List.mem_map_of_mem later))
          rw [turn.files p.1 ne] at present'
          rw [State.report_congr turn.fileEvents] at inReport
          rw [State.readyEvents_congr turn.fileEvents] at final
          exact ⟨entry', present', inReport, final⟩
    · exact ⟨[], by rw [readEventsLoop_stop (.inr room)]; simp, by simp, by simp⟩

omit [DecidableEq F] in
theorem length_report_le (s : State F) (id : FileIdentifier F) (entry : PollEntry) :
    (s.report id entry).length ≤ 1 := by
  unfold State.report
  split <;> simp

theorem readEventsLoop_length {it : List (FileIdentifier F)} {s : State F}
    (ret : List (FileIdentifier F × EpollEvent)) {localList : List (FileIdentifier F)}
    (consistent : Consistent (s.putBack localList)) (readyList : s.lists .readyList = it)
    (bound : ret.length ≤ max.toNat) :
    (State.readEventsLoop max it s ret localList).1.length ≤ max.toNat := by
  induction it generalizing s ret localList with
  | nil => rwa [readEventsLoop_stop (.inl rfl)]
  | cons h it ih =>
    by_cases room : (ret.length : Int) < max
    · obtain ⟨entry, -, s', localList', loop, readyList', turn⟩ :=
        readEventsLoop_cons consistent readyList room
      rw [loop]
      refine ih _ turn.consistent readyList' ?_
      have one := length_report_le s h entry
      rw [List.length_append]
      omega
    · rwa [readEventsLoop_stop (.inr room)]

theorem readEventsLoop_reports_ready {it : List (FileIdentifier F)} {s : State F}
    (ret : List (FileIdentifier F × EpollEvent)) {localList : List (FileIdentifier F)}
    (consistent : Consistent (s.putBack localList)) (readyList : s.lists .readyList = it)
    {id : FileIdentifier F} (inIt : id ∈ it) {entry : PollEntry} (present : s.files id = some entry)
    (ready : s.readyEvents id entry ≠ 0) (room : (ret.length : Int) + s.readyCount it ≤ max) :
    ∃ p ∈ (State.readEventsLoop max it s ret localList).1, p.1 = id := by
  induction it generalizing s ret localList with
  | nil => exact absurd inIt List.not_mem_nil
  | cons h it ih =>
    have positive : 0 < s.readyCount (h :: it) := by
      unfold State.readyCount
      exact List.length_pos_of_mem (List.mem_filter.2 ⟨inIt, by simp [present, ready]⟩)
    have hasRoom : (ret.length : Int) < max := by omega
    obtain ⟨entry', present', s', localList', loop, readyList', turn⟩ :=
      readEventsLoop_cons consistent readyList hasRoom
    have notIn : h ∉ it := by
      have nodup := State.readyList_nodup consistent
      rw [readyList] at nodup
      exact (List.nodup_cons.1 nodup).1
    rw [loop]
    by_cases same : id = h
    · -- reported in this turn, and the rest of the loop keeps what it has
      subst same
      rw [present, Option.some_inj] at present'
      subst present'
      obtain ⟨new, result, -, -⟩ :=
        readEventsLoop_reports max (ret ++ s.report id entry) turn.consistent readyList'
      refine ⟨(id, ⟨(s.readyEvents id entry).toUInt32, entry.userData⟩), ?_, rfl⟩
      rw [result]
      simp [State.report, ready]
    · have counted := s.readyCount_cons present' it
      have unchanged : s'.readyCount it = s.readyCount it :=
        State.readyCount_congr (fun id' mem => turn.files id' fun eq => notIn (eq ▸ mem))
          turn.fileEvents
      refine ih _ turn.consistent readyList' (List.mem_of_ne_of_mem same inIt) ?_ ?_ ?_
      · rw [turn.files id same, present]
      · rwa [State.readyEvents_congr turn.fileEvents]
      · rw [List.length_append, unchanged]
        push_cast
        omega

theorem readEventsLoop_frame {it : List (FileIdentifier F)} {s : State F}
    (ret : List (FileIdentifier F × EpollEvent)) {localList : List (FileIdentifier F)}
    (consistent : Consistent (s.putBack localList)) (readyList : s.lists .readyList = it) :
    (State.readEventsLoop max it s ret localList).2.pending = s.pending ∧
      (State.readEventsLoop max it s ret localList).2.fileEvents = s.fileEvents ∧
      ∀ id, ((State.readEventsLoop max it s ret localList).2.files id).map PollEntry.settings =
        (s.files id).map PollEntry.settings := by
  induction it generalizing s ret localList with
  | nil => rw [readEventsLoop_stop (.inl rfl)]; simp
  | cons h it ih =>
    by_cases room : (ret.length : Int) < max
    · obtain ⟨entry, -, s', localList', loop, readyList', turn⟩ :=
        readEventsLoop_cons consistent readyList room
      obtain ⟨pending, fileEvents, settings⟩ :=
        ih (ret ++ s.report h entry) turn.consistent readyList'
      rw [loop]
      exact ⟨pending.trans turn.pending, fileEvents.trans turn.fileEvents,
        fun id => (settings id).trans (turn.settings id)⟩
    · rw [readEventsLoop_stop (.inr room)]; simp

theorem readEventsLoop_disabled_reported {it : List (FileIdentifier F)} {s : State F}
    (ret : List (FileIdentifier F × EpollEvent)) {localList : List (FileIdentifier F)}
    (consistent : Consistent (s.putBack localList)) (readyList : s.lists .readyList = it)
    {id : FileIdentifier F} (before : id ∉ (s.putBack localList).lists .disabledList)
    (after : id ∈ (State.readEventsLoop max it s ret localList).2.lists .disabledList) :
    ∃ p ∈ (State.readEventsLoop max it s ret localList).1, p.1 = id := by
  induction it generalizing s ret localList with
  | nil => rw [readEventsLoop_stop (.inl rfl)] at after; exact absurd after before
  | cons h it ih =>
    by_cases room : (ret.length : Int) < max
    · obtain ⟨entry, present, s', localList', loop, readyList', turn⟩ :=
        readEventsLoop_cons consistent readyList room
      have notIn : h ∉ it := by
        have nodup := State.readyList_nodup consistent
        rw [readyList] at nodup
        exact (List.nodup_cons.1 nodup).1
      rw [loop] at after ⊢
      obtain ⟨new, result, -, -⟩ :=
        readEventsLoop_reports max (ret ++ s.report h entry) turn.consistent readyList'
      by_cases same : id = h
      · -- the entry moved here; it reaches the disabled list only if reported here
        subst same
        have target : turnTarget entry (s.readyEvents id entry) = .disabledList := by
          have placed := readEventsLoop_keeps max (ret ++ s.report id entry) turn.consistent
            readyList' notIn ((turn.lists id _).2 (.inr ⟨rfl, rfl⟩))
          exact (Consistent.readEventsLoop max it _ _ turn.consistent readyList').separated.unique
            id _ _ placed after
        have ready : s.readyEvents id entry ≠ 0 := by
          intro zero
          simp [turnTarget, zero] at target
        refine ⟨(id, ⟨(s.readyEvents id entry).toUInt32, entry.userData⟩), ?_, rfl⟩
        rw [result]
        simp [State.report, ready]
      · refine ih _ turn.consistent readyList' (fun inDisabled => ?_) after
        rcases (turn.lists id _).1 inDisabled with ⟨-, old⟩ | ⟨wrong, -⟩
        · exact before old
        · exact same wrong
    · rw [readEventsLoop_stop (.inr room)] at after; exact absurd after before

end ReadEvents

/-! ## The `eventsAvailable` loop -/

section EventsAvailable

omit [DecidableEq F] in
theorem State.readyEvents_eq_fileReadiness (s : State F) (id : FileIdentifier F)
    (entry : PollEntry) : s.readyEvents id entry = s.fileReadiness id.file entry.mask := by
  rw [State.readyEvents_eq]
  rfl

theorem eventsAvailableLoop_cons {it : List (FileIdentifier F)} {s : State F}
    {id : FileIdentifier F} (consistent : Consistent s)
    (readyList : s.lists .readyList = id :: it) :
    ∃ entry, s.files id = some entry ∧
      ((s.readyEvents id entry ≠ 0 ∧ State.eventsAvailableLoop (id :: it) s = (true, s)) ∨
        (s.readyEvents id entry = 0 ∧ State.eventsAvailableLoop (id :: it) s =
          State.eventsAvailableLoop it
            (((s.remove .readyList id).pushBack .waitingList id).setCurList id .waitingList))) := by
  obtain ⟨entry, present, -⟩ :=
    consistent.listed .readyList id (readyList ▸ List.mem_cons_self)
  refine ⟨entry, present, ?_⟩
  rw [State.readyEvents_eq_fileReadiness]
  by_cases zero : s.fileReadiness id.file entry.mask = 0
  · exact .inr ⟨zero, by simp [State.eventsAvailableLoop, present, zero]⟩
  · exact .inl ⟨zero, by simp [State.eventsAvailableLoop, present, zero]⟩

theorem eventsAvailableLoop_true {it : List (FileIdentifier F)} {s : State F}
    (consistent : Consistent s) (readyList : s.lists .readyList = it) {id : FileIdentifier F}
    (inIt : id ∈ it) {entry : PollEntry} (present : s.files id = some entry)
    (ready : s.readyEvents id entry ≠ 0) : (State.eventsAvailableLoop it s).1 = true := by
  induction it generalizing s with
  | nil => exact absurd inIt List.not_mem_nil
  | cons h it ih =>
    have mem : h ∈ s.lists .readyList := readyList ▸ List.mem_cons_self
    obtain ⟨entry', present', (⟨-, stop⟩ | ⟨notReady, loop⟩)⟩ :=
      eventsAvailableLoop_cons consistent readyList
    · rw [stop]
    · have ne : id ≠ h := by
        rintro rfl
        rw [present, Option.some_inj] at present'
        exact ready (present' ▸ notReady)
      rw [loop]
      refine ih (consistent.move mem .waitingList (fun eq => absurd eq (by decide)))
        (State.readyList_move (by decide) readyList) (List.mem_of_ne_of_mem ne inIt) ?_ ready
      simp [Function.update_of_ne ne, present]

theorem eventsAvailableLoop_lists {it : List (FileIdentifier F)} {s : State F}
    (consistent : Consistent s) (readyList : s.lists .readyList = it) {id : FileIdentifier F}
    {l : ListName} (mem : id ∈ s.lists l) :
    id ∈ (State.eventsAvailableLoop it s).2.lists l ∨
      (l = .readyList ∧ id ∈ (State.eventsAvailableLoop it s).2.lists .waitingList ∧
        ∃ entry, s.files id = some entry ∧ s.readyEvents id entry = 0) := by
  induction it generalizing s l with
  | nil => exact .inl (by simpa [State.eventsAvailableLoop] using mem)
  | cons h it ih =>
    have memH : h ∈ s.lists .readyList := readyList ▸ List.mem_cons_self
    obtain ⟨entry', present', (⟨-, stop⟩ | ⟨notReady, loop⟩)⟩ :=
      eventsAvailableLoop_cons consistent readyList
    · exact .inl (by rw [stop]; exact mem)
    rw [loop]
    have consistent' := consistent.move memH .waitingList (fun eq => absurd eq (by decide))
    have moved : ∀ l', id ∈ (((s.remove .readyList h).pushBack .waitingList h).setCurList h
        .waitingList).lists l' ↔ (id ≠ h ∧ id ∈ s.lists l') ∨ (id = h ∧ l' = .waitingList) :=
      fun _ => State.mem_lists_move consistent.separated memH
    by_cases same : id = h
    · -- the head is not ready: it moves to the waiting list and stays there
      subst same
      have ready := consistent.separated.unique id l .readyList mem memH
      refine .inr ⟨ready, ?_, entry', present', notReady⟩
      rcases ih consistent' (State.readyList_move (by decide) readyList)
          ((moved .waitingList).2 (.inr ⟨rfl, rfl⟩)) with stays | ⟨wrong, -⟩
      · exact stays
      · exact absurd wrong (by decide)
    · rcases ih consistent' (State.readyList_move (by decide) readyList)
          ((moved l).2 (.inl ⟨same, mem⟩)) with stays | ⟨isReady, waiting, entry, present, zero⟩
      · exact .inl stays
      · refine .inr ⟨isReady, waiting, entry, ?_, ?_⟩
        · simpa [Function.update_of_ne same] using present
        · have sameEvents : (((s.remove .readyList h).pushBack .waitingList h).setCurList h
              .waitingList).fileEvents = s.fileEvents := rfl
          rwa [State.readyEvents_congr sameEvents] at zero

theorem eventsAvailableLoop_not_ready {it : List (FileIdentifier F)} {s : State F}
    (consistent : Consistent s) (readyList : s.lists .readyList = it) {id : FileIdentifier F}
    (notReady : id ∉ s.lists .readyList) :
    id ∉ (State.eventsAvailableLoop it s).2.lists .readyList := by
  induction it generalizing s with
  | nil => simpa [State.eventsAvailableLoop] using notReady
  | cons h it ih =>
    have memH : h ∈ s.lists .readyList := readyList ▸ List.mem_cons_self
    obtain ⟨-, -, (⟨-, stop⟩ | ⟨-, loop⟩)⟩ := eventsAvailableLoop_cons consistent readyList
    · rwa [stop]
    rw [loop]
    refine ih (consistent.move memH .waitingList (fun eq => absurd eq (by decide)))
      (State.readyList_move (by decide) readyList) fun mem => ?_
    rcases (State.mem_lists_move consistent.separated memH).1 mem with ⟨-, old⟩ | ⟨-, wrong⟩
    · exact notReady old
    · exact absurd wrong (by decide)

theorem eventsAvailableLoop_frame {it : List (FileIdentifier F)} {s : State F}
    (consistent : Consistent s) (readyList : s.lists .readyList = it) :
    (State.eventsAvailableLoop it s).2.pending = s.pending ∧
      (State.eventsAvailableLoop it s).2.fileEvents = s.fileEvents ∧
      ∀ id, ((State.eventsAvailableLoop it s).2.files id).map PollEntry.settings =
        (s.files id).map PollEntry.settings := by
  induction it generalizing s with
  | nil => simp [State.eventsAvailableLoop]
  | cons h it ih =>
    have memH : h ∈ s.lists .readyList := readyList ▸ List.mem_cons_self
    obtain ⟨-, -, (⟨-, stop⟩ | ⟨-, loop⟩)⟩ := eventsAvailableLoop_cons consistent readyList
    · simp [stop]
    rw [loop]
    obtain ⟨pending, fileEvents, settings⟩ :=
      ih (consistent.move memH .waitingList (fun eq => absurd eq (by decide)))
        (State.readyList_move (by decide) readyList)
    exact ⟨pending, fileEvents, fun id => (settings id).trans (settings_setCurList _ h _ id)⟩

theorem Consistent.readiness_eventIn {s : State F} (consistent : Consistent s)
    {id : FileIdentifier F} (mem : id ∈ s.lists .readyList) {entry : PollEntry}
    (present : s.files id = some entry) (ready : s.readyEvents id entry ≠ 0) :
    (s.readiness eventIn).1 = eventIn := by
  have available := eventsAvailableLoop_true consistent rfl mem present ready
  simp [State.readiness, State.eventsAvailable, available, eventIn]

end EventsAvailable

/-! ## `ReadEvents` and `Readiness` -/

/-- The entries `ReadEvents` reports, each with the event it returns for it. -/
def State.reported (s : State F) (max : Int) : List (FileIdentifier F × EpollEvent) :=
  (State.readEventsLoop max (s.lists .readyList) s [] []).1

omit [DecidableEq F] in
theorem State.mem_report {s : State F} {id : FileIdentifier F} {entry : PollEntry}
    {p : FileIdentifier F × EpollEvent} (mem : p ∈ s.report id entry) :
    p.1 = id ∧ s.readyEvents id entry ≠ 0 ∧
      p.2 = ⟨(s.readyEvents id entry).toUInt32, entry.userData⟩ := by
  unfold State.report at mem
  split at mem
  · exact absurd mem List.not_mem_nil
  · rw [List.mem_singleton] at mem
    subst mem
    exact ⟨rfl, ‹_›, rfl⟩

theorem Consistent.reported {s : State F} (consistent : Consistent s) (max : Int) :
    ((s.reported max).map Prod.fst).Nodup ∧ (s.reported max).length ≤ max.toNat ∧
      ∀ p ∈ s.reported max, p.1 ∈ s.lists .readyList ∧ ∃ entry, s.files p.1 = some entry ∧
        s.readyEvents p.1 entry ≠ 0 ∧ p.2 = ⟨(s.readyEvents p.1 entry).toUInt32, entry.userData⟩ ∧
        p.1 ∈ (s.readEvents max).2.lists (turnTarget entry (s.readyEvents p.1 entry)) := by
  have start : Consistent (s.putBack []) := by rwa [State.putBack, State.pushBackList_nil]
  obtain ⟨new, result, sublist, reported⟩ :=
    readEventsLoop_reports max [] start rfl
  simp only [List.nil_append] at result
  refine ⟨?_, ?_, fun p mem => ?_⟩
  · rw [State.reported, result]
    exact sublist.nodup (consistent.separated.nodup .readyList)
  · exact readEventsLoop_length max [] start rfl (by simp)
  · rw [State.reported, result] at mem
    obtain ⟨entry, present, inReport, final⟩ := reported p mem
    obtain ⟨-, ready, event⟩ := State.mem_report inReport
    exact ⟨sublist.subset (List.mem_map_of_mem mem), entry, present, ready, event, final⟩

end Cijitter.Epoll
