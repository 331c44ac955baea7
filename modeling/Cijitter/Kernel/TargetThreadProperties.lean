import Cijitter.Kernel.TargetThread

/-! What `Dthread` records over every run of starts, renames and exits.
Every live task that `Task.Start` registered stays registered in its group.
The converse fails twice over. The exit path tests the name the task has
then, so a task renamed to `sh`, `bash` or `syscall` leaves its id behind;
and `Worker` is one global, which the first task of a new group takes from
a live worker of another group and which stays with it when its group
empties. -/

set_option autoImplicit false

namespace Cijitter.Kernel

open StepRun

/-- `id` is a key of the map of group `g`. -/
def Registered (threads : Int → Option GroupThreads) (g : Int) (id : String) : Prop :=
  ∃ group, threads g = some group ∧ id ∈ group

/-- The registration that `Task.Start` makes for `task`. -/
def TaskInfo.RegistersAs (task : TaskInfo) (g : Int) (id : String) : Prop :=
  delayEligible task.name = true ∧ task.group = g ∧ task.id = id

theorem registered_none {threads : Int → Option GroupThreads} {g : Int}
    (missing : threads g = none) (id : String) : ¬Registered threads g id := by
  rintro ⟨group, present, _⟩
  rw [missing] at present
  cases present

theorem registered_update (threads : Int → Option GroupThreads) (changed g : Int)
    (group : GroupThreads) (id : String) :
    Registered (Function.update threads changed (some group)) g id ↔
      (g = changed ∧ id ∈ group) ∨ (g ≠ changed ∧ Registered threads g id) := by
  by_cases same : g = changed
  · subst same
    simp [Registered]
  · simp only [Registered, Function.update_of_ne same, same, false_and, false_or, ne_eq,
      not_false_eq_true, true_and]

theorem registered_start (d : TargetThread) (task : TaskInfo) (g : Int) (id : String) :
    Registered (d.start task).threads g id ↔ Registered d.threads g id ∨ task.RegistersAs g id := by
  unfold TargetThread.start
  split
  · next eligible =>
      cases existing : d.threads task.group with
      | none =>
          rw [registered_update]
          by_cases same : g = task.group
          · subst same
            have fresh := registered_none existing id
            simp only [AList.singleton, AList.mem_keys, AList.keys, List.keys, List.map_cons,
              List.map_nil, List.mem_singleton, TaskInfo.RegistersAs, eligible]
            tauto
          · simp only [same, TaskInfo.RegistersAs]
            tauto
      | some group =>
          rw [registered_update]
          by_cases same : g = task.group
          · subst same
            simp only [Registered, existing, AList.mem_insert, TaskInfo.RegistersAs, eligible]
            grind
          · simp only [same, TaskInfo.RegistersAs]
            tauto
  · next ineligible =>
      simp only [TaskInfo.RegistersAs]
      simp at ineligible
      simp [ineligible]

theorem pickKey_some_mem {keys : List String} {choice : Nat} {thread : String}
    (picked : pickKey keys choice = some thread) : thread ∈ keys :=
  List.mem_of_getElem? picked

theorem runExit_present (d : TargetThread) (task : TaskInfo) (name : String) (choice : Nat)
    (eligible : delayEligible name = true) {group : GroupThreads}
    (present : d.threads task.group = some group) :
    ∃ remaining : GroupThreads,
      (d.runExit task name choice).threads = Function.update d.threads task.group (some remaining) ∧
      ∀ id, id ∈ remaining ↔ id ≠ task.id ∧ id ∈ group := by
  have erased : ∀ id, id ∈ group.erase task.id ↔ id ≠ task.id ∧ id ∈ group := fun _ => AList.mem_erase
  unfold TargetThread.runExit
  simp only [eligible, if_true, present]
  split
  · split
    · next thread picked =>
        -- the new worker is one of the keys left, marked 1
        have kept : thread ∈ group.erase task.id := AList.mem_keys.mpr (pickKey_some_mem picked)
        refine ⟨(group.erase task.id).insert thread 1, rfl, fun id => ?_⟩
        rw [AList.mem_insert, erased]
        constructor
        · rintro (rfl | member)
          · exact (erased _).mp kept
          · exact member
        · exact Or.inr
    · exact ⟨group.erase task.id, rfl, erased⟩
  · exact ⟨group.erase task.id, rfl, erased⟩

/-- The exit of a task keeps every other task's registration. -/
theorem registered_runExit_of_ne (d : TargetThread) (task : TaskInfo) (name : String) (choice : Nat)
    {g : Int} {id : String} (registered : Registered d.threads g id) (other : id ≠ task.id) :
    Registered (d.runExit task name choice).threads g id := by
  cases eligible : delayEligible name with
  | false =>
      unfold TargetThread.runExit
      rw [eligible]
      exact registered
  | true =>
      cases present : d.threads task.group with
      | none =>
          unfold TargetThread.runExit
          rw [eligible, if_pos rfl, present]
          exact registered
      | some group =>
          obtain ⟨remaining, threads_eq, members⟩ := runExit_present d task name choice eligible present
          rw [threads_eq, registered_update]
          by_cases same : g = task.group
          · subst same
            obtain ⟨found, present', member⟩ := registered
            rw [present, Option.some.injEq] at present'
            subst present'
            exact .inl ⟨rfl, (members id).mpr ⟨other, member⟩⟩
          · exact .inr ⟨same, registered⟩

/-- What every run keeps of the registry: live tasks have distinct ids, and
each live task whose name at `Task.Start` was eligible is registered under
its id in its group. -/
structure RegistryInvariant (s : Tasks) : Prop where
  unique : (s.live.map (·.info.id)).Nodup
  registered : ∀ l ∈ s.live, delayEligible l.info.name = true → Registered s.dthread.threads l.info.group l.info.id

theorem RegistryInvariant.init : RegistryInvariant Tasks.init :=
  ⟨List.nodup_nil, fun _ absent => absurd absent List.not_mem_nil⟩

theorem RegistryInvariant.start {s : Tasks} (valid : RegistryInvariant s) (task : TaskInfo) :
    RegistryInvariant (taskStep s (.start task)) := by
  simp only [taskStep]
  split
  · exact valid
  · next fresh =>
      have fresh_id : task.id ∉ s.live.map (·.info.id) := by simpa using fresh
      refine ⟨List.nodup_cons.mpr ⟨fresh_id, valid.unique⟩, fun l member eligible => ?_⟩
      rw [registered_start]
      rcases List.mem_cons.mp member with rfl | earlier
      · exact .inr ⟨eligible, rfl, rfl⟩
      · exact .inl (valid.registered l earlier eligible)

theorem RegistryInvariant.rename {s : Tasks} (valid : RegistryInvariant s) (task : TaskInfo) (name : String) :
    RegistryInvariant (taskStep s (.rename task name)) := by
  -- a rename changes a live task's name and nothing `Task.Start` read
  have info : ∀ l : LiveTask, (if l.info = task then { l with name } else l).info = l.info := fun l => by
    split <;> rfl
  have ids : (taskStep s (.rename task name)).live.map (·.info.id) = s.live.map (·.info.id) := by
    simp only [taskStep, List.map_map]
    exact List.map_congr_left fun l _ => congrArg TaskInfo.id (info l)
  refine ⟨ids ▸ valid.unique, fun l' member eligible => ?_⟩
  obtain ⟨l, live, renamed⟩ := List.mem_map.mp member
  subst renamed
  rw [info] at eligible ⊢
  exact valid.registered l live eligible

theorem RegistryInvariant.exit {s : Tasks} (valid : RegistryInvariant s) (task : TaskInfo) (choice : Nat) :
    RegistryInvariant (taskStep s (.exit task choice)) := by
  simp only [taskStep]
  split
  · next l found =>
      have live := List.mem_of_find?_eq_some found
      have own : l.info = task := by simpa using List.find?_some found
      refine ⟨((List.erase_sublist).map _).nodup valid.unique, fun l' member eligible => ?_⟩
      -- another live task has another id, which the exit keeps
      have other : l'.info.id ≠ task.id := by
        intro same
        have equal : l' = l :=
          List.inj_on_of_nodup_map valid.unique (List.mem_of_mem_erase member) live (by rw [same, own])
        subst equal
        exact (List.Nodup.of_map _ valid.unique).not_mem_erase member
      exact registered_runExit_of_ne _ task l.name choice (valid.registered l' (List.mem_of_mem_erase member) eligible) other
  · exact valid

/-- Two tasks of group 1 and one of group 2 start; the group 2 task, now the
worker, exits; the first task of group 1 takes the name `sh` and exits. -/
def strandingRun : List TaskEvent :=
  [.start ⟨"app", 1, 1⟩, .start ⟨"app", 3, 1⟩, .start ⟨"app", 2, 2⟩, .exit ⟨"app", 2, 2⟩ 0,
    .rename ⟨"app", 1, 1⟩ "sh", .exit ⟨"app", 1, 1⟩ 0]

/-- After `strandingRun` only `app-3` is live, yet group 1 still records the
exited `app-1`, and the worker is the exited `app-2`: no live task performs
delay rounds. -/
theorem dthread_strands_worker_and_exited_ids :
    (run taskStep Tasks.init strandingRun).live.map (·.info.id) = ["app-3"] ∧
      ((run taskStep Tasks.init strandingRun).dthread.threads 1).map AList.keys = some ["app-3", "app-1"] ∧
      (run taskStep Tasks.init strandingRun).dthread.worker = "app-2" := by
  decide

end Cijitter.Kernel
