import Mathlib
import Cijitter.Lib.Run

/-! Cijitter's registry of delay workers, `Dthread` (`pkg/sentry/kernel`).
`Task.Start` registers every delay-eligible task under its thread group, and
the first task of a group not seen before becomes the `Worker`, the one task
whose `monitor_timer` performs delay rounds. When a task's `Task.run` loop
ends, the task is deregistered, and if it was the worker, the role passes to
some task left in its group: whichever one Go's map iteration yields first.
Both test the name the task has at the time, which `exec` (a new
`TaskContext`) and `PR_SET_NAME` (`SetName`) change in between.

The registry is a step function over the events that read or change it: a
task starting, a task renamed, and a task exiting. The kernel's task set is
modelled by the live tasks; it starts each task once and a task exits once. -/

set_option autoImplicit false

namespace Cijitter.Kernel

open StepRun

/-- A Go `map[string]int` of one thread group's registered tasks. -/
abbrev GroupThreads := AList (fun _ : String => Int)

/-- What `Task.Start` and `Task.run` read of a task: `t.tc.Name`, the TID,
and `t.ThreadGroup().ID()`. -/
structure TaskInfo where
  name : String
  tid : Nat
  group : Int
  deriving DecidableEq, Repr

/-- `fmt.Sprintf("%s-%d", t.tc.Name, tid)`: the id under which a task is
registered, and `t.tid`. -/
def TaskInfo.id (task : TaskInfo) : String :=
  task.name ++ "-" ++ toString task.tid

/-- Tasks named `sh`, `bash` or `syscall` take no part in delaying. -/
def delayEligible (name : String) : Bool :=
  name != "sh" && name != "bash" && name != "syscall"

structure TargetThread where
  threads : Int → Option GroupThreads
  worker : String

def newTargetThread : TargetThread :=
  ⟨fun _ => none, ""⟩

/-- The key that `for thread := range m { ...; break }` visits first. Go
randomises the order, so every key is the first for some `choice`. -/
def pickKey (keys : List String) (choice : Nat) : Option String :=
  keys[choice % keys.length]?

def TargetThread.start (d : TargetThread) (task : TaskInfo) : TargetThread :=
  if delayEligible task.name then
    match d.threads task.group with
    | none => ⟨Function.update d.threads task.group (some (AList.singleton task.id 1)), task.id⟩
    | some threads =>
        { d with threads := Function.update d.threads task.group (some (threads.insert task.id 0)) }
  else d

/-- The deregistration at the end of `Task.run`, with the hand-over of the
worker role to the task `pickKey` chooses. It tests `name`, the task's name
at its exit, and removes `t.tid`, the id `run` set from the name it had when
it began, which is the id `Task.Start` registered. -/
def TargetThread.runExit (d : TargetThread) (task : TaskInfo) (name : String) (choice : Nat) : TargetThread :=
  if delayEligible name then
    match d.threads task.group with
    | none => d
    | some threads =>
        let threads := threads.erase task.id
        if task.id = d.worker then
          match pickKey threads.keys choice with
          | some thread => ⟨Function.update d.threads task.group (some (threads.insert thread 1)), thread⟩
          | none => { d with threads := Function.update d.threads task.group (some threads) }
        else { d with threads := Function.update d.threads task.group (some threads) }
  else d

/-- A live task: what `Task.Start` read of it, and `t.tc.Name` now. -/
structure LiveTask where
  info : TaskInfo
  name : String
  deriving DecidableEq, Repr

structure Tasks where
  dthread : TargetThread
  live : List LiveTask

/-- A task starts, a task takes a new name (`exec` or `PR_SET_NAME`), or a
task's `Task.run` ends with the given map-order choice. -/
inductive TaskEvent where
  | start (task : TaskInfo)
  | rename (task : TaskInfo) (name : String)
  | exit (task : TaskInfo) (choice : Nat)

/-- One event. The kernel starts a task only while no live task has its id,
and renames and ends only live tasks; other events leave the state alone. -/
def taskStep (s : Tasks) : TaskEvent → Tasks
  | .start task =>
      if s.live.any (·.info.id = task.id) then s
      else ⟨s.dthread.start task, ⟨task, task.name⟩ :: s.live⟩
  | .rename task name => ⟨s.dthread, s.live.map fun l => if l.info = task then { l with name } else l⟩
  | .exit task choice =>
      match s.live.find? (·.info = task) with
      | some l => ⟨s.dthread.runExit task l.name choice, s.live.erase l⟩
      | none => s

/-- No task yet and `Dthread` as `newTargetThread` creates it. -/
def Tasks.init : Tasks :=
  ⟨newTargetThread, []⟩

end Cijitter.Kernel
