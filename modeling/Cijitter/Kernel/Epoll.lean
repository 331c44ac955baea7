import Cijitter.Lib.ListFamily
import Cijitter.Lib.Run

/-! The sentry's epoll object (`kernel/epoll/epoll.go`): the map of observed
files, the three lists an entry moves between, and the calls that move it.

`AddEntry`, `UpdateEntry` and `RemoveEntry` run under `e.mu`, one at a time;
each is a few sections under `listsMu` or under the file's queue lock, and the
other goroutines (`ReadEvents`, `Readiness`, the waiter callbacks) run between
them. The state records which section the holder of `e.mu` runs next
(`pending`), and `resume` runs it. The files are abstract: each has a set of
ready events, which the environment changes at any time, and its waiter queue
may call an entry's `Callback` at any time while the entry is registered.
Lists hold file identifiers; the map gives their entries. -/

set_option autoImplicit false

namespace Cijitter.Epoll

/-- `waiter.EventMask`. -/
abbrev EventMask := UInt64

def eventIn : EventMask := 0x01

/-- `EntryFlags`, a bit mask. -/
abbrev EntryFlags := Int64

def oneShot : EntryFlags := 1

def edgeTriggered : EntryFlags := 2

inductive Errno where
  | EEXIST
  | ENOENT
deriving DecidableEq, Repr

/-- `FileIdentifier`: the observed file and the descriptor it was added under. -/
structure FileIdentifier (F : Type) where
  file : F
  fd : Int32
deriving DecidableEq

inductive ListName where
  | readyList
  | waitingList
  | disabledList
deriving DecidableEq, Repr

/-- `pollEntry`. `waiter` is the mask its waiter is registered with on the
file's queue, `none` while it is not registered. -/
structure PollEntry where
  userData : Int32 × Int32
  mask : EventMask
  flags : EntryFlags
  curList : Option ListName
  waiter : Option EventMask

/-- `linux.EpollEvent`. -/
structure EpollEvent where
  events : UInt32
  data : Int32 × Int32
deriving DecidableEq

/-- The section the call holding `e.mu` runs next. -/
inductive Pending (F : Type) where
  | eventRegister (id : FileIdentifier F)
  | checkReadiness (id : FileIdentifier F)
  | callback (id : FileIdentifier F)
  | unlink (id : FileIdentifier F) (flags : EntryFlags) (mask : EventMask) (data : Int32 × Int32)
  | relink (id : FileIdentifier F) (flags : EntryFlags) (mask : EventMask) (data : Int32 × Int32)
  | removeUnlink (id : FileIdentifier F)

def Pending.id {F : Type} : Pending F → FileIdentifier F
  | .eventRegister id | .checkReadiness id | .callback id | .unlink id .. | .relink id ..
  | .removeUnlink id => id

/-- An `EventPoll`, the section its `e.mu` holder runs next, and the events
each observed file has ready. -/
structure State (F : Type) where
  files : FileIdentifier F → Option PollEntry
  lists : ListName → List (FileIdentifier F)
  pending : Option (Pending F)
  fileEvents : F → EventMask

/-- `NewEventPoll`, over files whose ready events are `fileEvents`. -/
def newEventPoll {F : Type} (fileEvents : F → EventMask) : State F :=
  ⟨fun _ => none, fun _ => [], none, fileEvents⟩

variable {F : Type} [DecidableEq F]

namespace State

/-- The file's `Readiness(mask)`. -/
def fileReadiness (s : State F) (file : F) (mask : EventMask) : EventMask :=
  s.fileEvents file &&& mask

def remove (s : State F) (l : ListName) (id : FileIdentifier F) : State F :=
  { s with lists := ListFamily.remove s.lists l id }

def pushBack (s : State F) (l : ListName) (id : FileIdentifier F) : State F :=
  { s with lists := ListFamily.pushBack s.lists l id }

def pushBackList (s : State F) (l : ListName) (more : List (FileIdentifier F)) : State F :=
  { s with lists := ListFamily.pushBackList s.lists l more }

def setEntry (s : State F) (id : FileIdentifier F) (entry : Option PollEntry) : State F :=
  { s with files := Function.update s.files id entry }

def modifyEntry (s : State F) (id : FileIdentifier F) (f : PollEntry → PollEntry) : State F :=
  s.setEntry id ((s.files id).map f)

def setCurList (s : State F) (id : FileIdentifier F) (l : ListName) : State F :=
  s.modifyEntry id fun entry => { entry with curList := some l }

def eventsAvailableLoop : List (FileIdentifier F) → State F → Bool × State F
  | [], s => (false, s)
  | id :: it, s =>
    match s.files id with
    | none => eventsAvailableLoop it s
    | some entry =>
      if s.fileReadiness id.file entry.mask ≠ 0 then (true, s)
      else
        -- not ready, so moved to the waiting list
        eventsAvailableLoop it
          (((s.remove .readyList id).pushBack .waitingList id).setCurList id .waitingList)

/-- `eventsAvailable`. -/
def eventsAvailable (s : State F) : Bool × State F :=
  eventsAvailableLoop (s.lists .readyList) s

/-- `Readiness`. -/
def readiness (s : State F) (mask : EventMask) : EventMask × State F :=
  if mask &&& eventIn ≠ 0 then
    let (available, s) := s.eventsAvailable
    (if available then eventIn else 0, s)
  else (0, s)

/-- The loop of `ReadEvents`, over the entries the ready list held when it
started; `local` holds the level-triggered entries to put back at its end.
Each event is kept with the entry it reports. -/
def readEventsLoop (max : Int) :
    List (FileIdentifier F) → State F → List (FileIdentifier F × EpollEvent) →
      List (FileIdentifier F) → List (FileIdentifier F × EpollEvent) × State F
  | [], s, ret, localList => (ret, s.pushBackList .readyList localList)
  | id :: it, s, ret, localList =>
    if (ret.length : Int) < max then
      match s.files id with
      | none => readEventsLoop max it s ret localList
      | some entry =>
        let ready := s.fileReadiness id.file entry.mask &&& entry.mask
        if ready = 0 then
          readEventsLoop max it
            (((s.remove .readyList id).pushBack .waitingList id).setCurList id .waitingList)
            ret localList
        else
          let ret := ret ++ [(id, ⟨ready.toUInt32, entry.userData⟩)]
          let s := s.remove .readyList id
          if entry.flags &&& oneShot ≠ 0 then
            readEventsLoop max it ((s.pushBack .disabledList id).setCurList id .disabledList)
              ret localList
          else if entry.flags &&& edgeTriggered ≠ 0 then
            readEventsLoop max it ((s.pushBack .waitingList id).setCurList id .waitingList)
              ret localList
          else readEventsLoop max it s ret (localList ++ [id])
    else (ret, s.pushBackList .readyList localList)

/-- `ReadEvents`. -/
def readEvents (s : State F) (max : Int) : List EpollEvent × State F :=
  let (ret, s) := readEventsLoop max (s.lists .readyList) s [] []
  (ret.map Prod.snd, s)

/-- `pollEntry.Callback`: an entry of the waiting list moves to the ready list. -/
def callback (s : State F) (id : FileIdentifier F) : State F :=
  if (s.files id).bind (·.curList) = some .waitingList then
    ((s.remove .waitingList id).pushBack .readyList id).setCurList id .readyList
  else s

/-- The first section of `initEntryReadiness`: the entry starts off in the
waiting list; registering and the readiness check follow. -/
def initEntryReadiness (s : State F) (id : FileIdentifier F) : State F :=
  { (s.pushBack .waitingList id).setCurList id .waitingList with
    pending := some (.eventRegister id) }

/-- `AddEntry`, up to its first section. -/
def addEntry (s : State F) (id : FileIdentifier F) (flags : EntryFlags) (mask : EventMask)
    (data : Int32 × Int32) : Except Errno (State F) :=
  if (s.files id).isSome then .error .EEXIST
  else .ok ((s.setEntry id (some ⟨data, mask, flags, none, none⟩)).initEntryReadiness id)

/-- `UpdateEntry`, up to `EventUnregister`. -/
def updateEntry (s : State F) (id : FileIdentifier F) (flags : EntryFlags) (mask : EventMask)
    (data : Int32 × Int32) : Except Errno (State F) :=
  match s.files id with
  | none => .error .ENOENT
  | some entry =>
    .ok { s.setEntry id (some { entry with waiter := none }) with
      pending := some (.unlink id flags mask data) }

/-- `RemoveEntry`, up to `EventUnregister`. -/
def removeEntry (s : State F) (id : FileIdentifier F) : Except Errno (State F) :=
  match s.files id with
  | none => .error .ENOENT
  | some entry =>
    .ok { s.setEntry id (some { entry with waiter := none }) with
      pending := some (.removeUnlink id) }

/-- The `e.mu` holder runs its next section. -/
def resume (s : State F) : State F :=
  match s.pending with
  | none => s
  | some (.eventRegister id) =>
    { s.modifyEntry id (fun entry => { entry with waiter := some entry.mask }) with
      pending := some (.checkReadiness id) }
  | some (.checkReadiness id) =>
    match s.files id with
    | some entry =>
      if s.fileReadiness id.file entry.mask &&& entry.mask ≠ 0 then
        { s with pending := some (.callback id) }
      else { s with pending := none }
    | none => { s with pending := none }
  | some (.callback id) => { s.callback id with pending := none }
  | some (.unlink id flags mask data) =>
    -- `entry.curList.Remove(entry)`: `curList` is left naming the old list
    match (s.files id).bind (·.curList) with
    | some l => { s.remove l id with pending := some (.relink id flags mask data) }
    | none => { s with pending := some (.relink id flags mask data) }
  | some (.relink id flags mask data) =>
    (s.modifyEntry id fun entry => { entry with flags, mask, userData := data }).initEntryReadiness id
  | some (.removeUnlink id) =>
    let s := match (s.files id).bind (·.curList) with
      | some l => s.remove l id
      | none => s
    { s.setEntry id none with pending := none }

end State

/-- What the goroutines and the files can do next. A call that needs `e.mu`
while another holds it has not started yet, so it changes nothing. -/
inductive Action (F : Type) where
  | addEntry (id : FileIdentifier F) (flags : EntryFlags) (mask : EventMask) (data : Int32 × Int32)
  | updateEntry (id : FileIdentifier F) (flags : EntryFlags) (mask : EventMask)
      (data : Int32 × Int32)
  | removeEntry (id : FileIdentifier F)
  | resume
  | readEvents (max : Int)
  | readiness (mask : EventMask)
  | callback (id : FileIdentifier F)
  | setFileEvents (file : F) (events : EventMask)

/-- A call under `e.mu`: it waits while another holds it, and on an error it
returns with nothing changed. -/
def lockedCall (s : State F) (call : Except Errno (State F)) : State F :=
  if s.pending.isSome then s
  else match call with
    | .ok s' => s'
    | .error _ => s

def step (s : State F) : Action F → State F
  | .addEntry id flags mask data => lockedCall s (s.addEntry id flags mask data)
  | .updateEntry id flags mask data => lockedCall s (s.updateEntry id flags mask data)
  | .removeEntry id => lockedCall s (s.removeEntry id)
  | .resume => s.resume
  | .readEvents max => (s.readEvents max).2
  | .readiness mask => (s.readiness mask).2
  | .callback id =>
    -- the file's queue calls back only entries registered on it
    if ((s.files id).bind (·.waiter)).isSome then s.callback id else s
  | .setFileEvents file events => { s with fileEvents := Function.update s.fileEvents file events }

end Cijitter.Epoll
