import Mathlib

/-! The objects of the monitor's access tracker (`monitor/kernel/daptrace.c`):
regions of a task's address space, each with the address it samples and the
number of accesses seen there, and the tasks it tracks. Random draws
(`prandom_u32_state`) come from a stream that the caller passes along, so
every sequence of draws is covered. -/

set_option autoImplicit false

namespace Cijitter.Monitor

/-- `struct mapia_region`. -/
structure MapiaRegion where
  vmStart : UInt64
  vmEnd : UInt64
  samplingAddr : UInt64
  nrAccesses : UInt32
  deriving DecidableEq, Repr

/-- `struct mapia_task`: its pid and its regions in list order. -/
structure MapiaTask where
  pid : UInt64
  regions : List MapiaRegion
  deriving DecidableEq, Repr

/-- The next value of `prandom_u32_state`, and the rest of the stream. -/
def prandom (draws : List UInt32) : UInt32 × List UInt32 :=
  (draws.headD 0, draws.tail)

/-- `mapia_sampling_target`: an address of the region drawn at random. -/
def mapiaSamplingTarget (r : MapiaRegion) (draws : List UInt32) : UInt64 × List UInt32 :=
  if r.vmEnd - r.vmStart = 0 then (r.vmStart, draws)
  else
    let (value, draws) := prandom draws
    (r.vmStart + value.toUInt64 % (r.vmEnd - r.vmStart), draws)

/-- `mapia_new_region`, with `kmalloc` succeeding. -/
def mapiaNewRegion (vmStart vmEnd : UInt64) (draws : List UInt32) : MapiaRegion × List UInt32 :=
  let r : MapiaRegion := ⟨vmStart, vmEnd, 0, 0⟩
  let (samplingAddr, draws) := mapiaSamplingTarget r draws
  ({ r with samplingAddr }, draws)

end Cijitter.Monitor
