import Cijitter.Network.Fragmentation

/-! The byte count of `Fragmentation`. `Process` adds a fragment's bytes to a
reassembler's `size` inside `reassembler.process`, but to the count only after
`process` returns without error; `release` then takes the reassembler's whole
`size` off the count, so a reassembly error takes off bytes the count never
held. -/

set_option autoImplicit false

namespace Cijitter.Network

namespace Fragmentation

/-- The bytes the reassemblers in the map hold. -/
def heldBytes (f : Fragmentation) : Int :=
  (f.reassemblers.map fun entry => (f.objects entry.2).size).sum

end Fragmentation

/-- Three fragments of one packet: `[10, 19]` with more to come, `[0, 4]` and
`[20, 24]` without. The last one deletes the last hole, the heap glues
`[0, 4]` and finds `[10, 19]` after a hole, and the failed reassembly is
released with 20 bytes of which the count holds 15. -/
def holeArrivals (id : UInt32) : List Arrival :=
  [⟨id, 10, 19, true, List.replicate 10 0, 0⟩, ⟨id, 0, 4, false, List.replicate 5 0, 0⟩,
    ⟨id, 20, 24, false, List.replicate 5 0, 0⟩]

/-- Alone, the failed reassembly drives the count below zero and `release`
logs it; after ten bytes of another packet, the count ends five bytes below
what the map's reassemblers hold. -/
theorem release_counts_unconsumed_fragment :
    (StepRun.run Fragmentation.step (newFragmentation 4194304 3145728 30) (holeArrivals 1)).logged = [-5] ∧
      let f := StepRun.run Fragmentation.step (newFragmentation 4194304 3145728 30)
        (⟨2, 0, 9, true, List.replicate 10 0, 0⟩ :: holeArrivals 1)
      f.size = 5 ∧ f.heldBytes = 10 := by
  decide

end Cijitter.Network
