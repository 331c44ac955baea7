import Cijitter.Mm.Syscalls
import Cijitter.Maid.TargetAddr
import Cijitter.Lib.Run
import Mathlib

/-! Cijitter's page-permission delay (`pkg/sentry/kernel/task_run.go`). A
delay round (`Task.start_delay`) reads the target page's permissions, then
under the global `Modify` lock saves them and clears the page to
`NoAccess`; an application fault (`runApp.execute`) first lets
`handle_seg_faults` restore the saved permissions and then handles the fault.

The system is a step function over the memory managers of all processes,
`Modify`, `TAddr` and the permissions each task's round has read but not yet
used: `start_delay` reads them before it takes the lock, so its two halves
are separate actions and any other action may come between them. -/

set_option autoImplicit false

namespace Cijitter.Kernel

open Usermem Mm Maid Syserror

/-- `kernel.ShareAddr`, the global `Modify`, without `master`, which only
log messages read. -/
structure ShareAddr where
  modified : Nat → Option Int
  perms : Nat → Option AccessType

/-- The task fields a delay round and a fault read: `t.tid`, `t.tc.Name`,
which memory manager `t.MemoryManager()` is, `t.atFlag` and `t.At`. -/
structure DelayTask where
  tid : String
  name : String
  mm : Nat
  atFlag : Bool
  faultAccess : AccessType

/-- The state the delay mechanism acts on. -/
structure System where
  mms : Nat → MemoryManager
  modify : ShareAddr
  tAddr : TargetAddr
  pending : String → Option (Nat × AccessType)

/-- The first half of `start_delay`, before `Modify.Lock()`: the permissions
`GetAddrPerms` reads for the page, unless the round gives up. -/
def DelayTask.delayPerms (t : DelayTask) (mms : Nat → MemoryManager) (addr : Nat) :
    Option AccessType :=
  if !t.atFlag then none
  else if addr = 0 then none
  else
    match (mms t.mm).getAddrPerms addr t.faultAccess with
    | .ok perms => some perms
    | .error _ => none

/-- What `start_delay` saves for a page: the permissions it read, merged
with those saved for the page before. -/
def mergeSavedPerms (saved : Option AccessType) (orgPerms : AccessType) : AccessType :=
  match saved with
  | none => orgPerms
  | some perms => perms.union orgPerms

/-- The second half of `start_delay`, under `Modify`'s lock, with the
permissions `orgPerms` read before it: check that `TAddr` still targets the
page and that no round has it cleared, save the permissions, clear the page,
and mark it modified. -/
def startDelayLocked (s : System) (t : DelayTask) (addr : Nat) (orgPerms : AccessType) : System :=
  if !s.tAddr.flag || s.tAddr.addr ≠ addr then s
  else if s.modify.modified addr = some 1 then s
  else
    let saved := mergeSavedPerms (s.modify.perms addr) orgPerms
    let modify := { s.modify with perms := Function.update s.modify.perms addr (some saved) }
    let (mm, err) := (s.mms t.mm).mProtect addr pageSize noAccess false
    let mms := Function.update s.mms t.mm mm
    match err with
    | some _ => { s with modify, mms }
    | none => { s with modify := { modify with modified := Function.update modify.modified addr (some 1) }, mms }

/-- `Task.start_delay` run without interruption. -/
def startDelay (s : System) (t : DelayTask) (addr : Nat) : System :=
  match t.delayPerms s.mms addr with
  | none => s
  | some orgPerms => startDelayLocked s t addr orgPerms

/-- `Task.handle_seg_faults`: if permissions were ever saved for the faulting
page, `MProtect` it back to them and mark it unmodified, whether or not the
`MProtect` succeeds. The flag says whether the page had saved permissions. -/
def handleSegFaults (s : System) (t : DelayTask) (addr : Nat) : System × Bool :=
  let newAddr := roundDown addr
  match s.modify.perms newAddr with
  | none => (s, false)
  | some orgPerms =>
    let (mm, _) := (s.mms t.mm).mProtect newAddr pageSize orgPerms false
    ({ s with mms := Function.update s.mms t.mm mm,
              modify := { s.modify with
                modified := Function.update s.modify.modified newAddr (some 0) } }, true)

/-- Tasks named `sh` or `bash` bypass `handle_seg_faults`. -/
def restoresOnFault (name : String) : Bool :=
  name != "sh" && name != "bash"

/-- The fault path of `runApp.execute` for an access `at.Any()`: Cijitter's
restore, then `MemoryManager.HandleUserFault`; `none` means the fault was
handled and the application resumes. -/
def faultPath (backing : FaultBacking) (s : System) (t : DelayTask) (addr : Nat)
    (access : AccessType) : System × Option Errno :=
  let s := if restoresOnFault t.name then (handleSegFaults s t addr).1 else s
  (s, (s.mms t.mm).handleUserFault backing addr access)

/-- What may happen next: an application `mprotect` in one memory manager,
either half of a delay round, an application fault with some access, or a
message from the monitor. -/
inductive Action where
  | mprotect (mm addr length : Nat) (perms : AccessType) (growsDown : Bool)
  | delayRead (t : DelayTask) (addr : Nat)
  | delayLocked (t : DelayTask)
  | fault (t : DelayTask) (addr : Nat) (access : AccessType)
  | listen (addrInfo : List Char)

/-- One step of the system. A message whose access count is zero panics the
sentry; the model then keeps the state, which only adds runs. -/
def step (backing : FaultBacking) (s : System) : Action → System
  | .mprotect mm addr length perms growsDown =>
    { s with mms := Function.update s.mms mm ((s.mms mm).mProtect addr length perms growsDown).1 }
  | .delayRead t addr =>
    { s with pending := Function.update s.pending t.tid ((t.delayPerms s.mms addr).map (addr, ·)) }
  | .delayLocked t =>
    match s.pending t.tid with
    | none => s
    | some (addr, orgPerms) =>
      startDelayLocked { s with pending := Function.update s.pending t.tid none } t addr orgPerms
  | .fault t addr access =>
    if access.any then (faultPath backing s t addr access).1 else s
  | .listen addrInfo =>
    match listenTargetAddrs s.tAddr addrInfo with
    | .ok tAddr => { s with tAddr }
    | .error _ => s

/-- The system at boot: nothing saved, nothing pending, `TAddr` as
initialised, and the given memory managers. -/
def System.boot (mms : Nat → MemoryManager) : System :=
  ⟨mms, ⟨fun _ => none, fun _ => none⟩, TargetAddr.init, fun _ => none⟩

end Cijitter.Kernel
