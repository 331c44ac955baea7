import Cijitter.Lib.Bytes

/-! The monitor kernel module's report of its target pages
(`monitor/kernel/daptrace.c`): `output_targets_addr` writes the ten target
addresses (`unsigned long`) and their access counts (`int`) to
`/monitor/log/targetAddrs.list` with `kernel_write`. -/

set_option autoImplicit false

namespace Cijitter.Monitor

open Bytes

/-- `kernel_write(fp, buf, len, &pos)` on the file's bytes: `len` bytes at
`*pos`, after which `*pos` has advanced by `len`. -/
def kernelWrite (file : List UInt8) (bytes : List UInt8) (pos : Nat) : List UInt8 × Nat :=
  (writeAt file pos bytes, pos + bytes.length)

/-- One iteration of the loop of `output_targets_addr`, on x86-64 (8-byte
little-endian `unsigned long`, 4-byte two's complement `int`). After each
`kernel_write` the loop advances `pos` by the length once more. -/
def writeTarget (targetsAddr : Fin 10 → UInt64) (nrTargetsAddr : Fin 10 → Int32)
    (state : List UInt8 × Nat) (i : Fin 10) : List UInt8 × Nat :=
  let len := 8
  let (file, pos) := kernelWrite state.1 (leBytes len (targetsAddr i).toNat) state.2
  let pos := pos + len
  let lenAcc := 4
  let (file, pos) := kernelWrite file (leBytes lenAcc (nrTargetsAddr i).toBitVec.toNat) pos
  (file, pos + lenAcc)

/-- `output_targets_addr`: the bytes of the file, which `filp_open` opens
without truncating, after the loop from `pos = 0`. -/
def outputTargetsAddr (existing : List UInt8) (targetsAddr : Fin 10 → UInt64)
    (nrTargetsAddr : Fin 10 → Int32) : List UInt8 :=
  ((List.finRange 10).foldl (writeTarget targetsAddr nrTargetsAddr) (existing, 0)).1

end Cijitter.Monitor
