import Cijitter.Lib.GoStrings

/-! `read_sample_logs` (`runsc/main.go`): the sandbox launcher reads the
monitor's target file eight bytes at a time. Every third word is an address,
formatted with `0x%x` and appended to `addrs_order`; the word two after it
is stored as that address's access count. -/

set_option autoImplicit false

namespace Cijitter.Runsc

open Bytes GoStrings

/-- The locals of `read_sample_logs` that survive an iteration. -/
structure SampleLogsState where
  addrAccess : List Char → Option Int
  addrsOrder : List (List Char)
  addr : List Char
  access : Int
  k : Int
  index : Nat
  loc : Nat

def SampleLogsState.init : SampleLogsState :=
  ⟨fun _ => none, [], "0x000000".toList, 0, 0, 0, 0⟩

/-- One iteration of the loop, on the bytes `fp.Read(data)` returned. A
short read leaves `k` as the previous word set it. -/
def readSampleStep (state : SampleLogsState) (data : List UInt8) : SampleLogsState :=
  let state := { state with k := (binaryReadInt64 data).getD state.k }
  let state :=
    if state.index % 3 = 0 then
      { state with addr := sprintfHex state.k, addrsOrder := state.addrsOrder ++ [sprintfHex state.k],
                   loc := state.index + 2 }
    else state
  let state :=
    if state.index = state.loc then
      { state with access := state.k,
                   addrAccess := Function.update state.addrAccess state.addr (some state.k) }
    else state
  { state with index := state.index + 1 }

/-- `read_sample_logs` on the file's bytes: a regular file returns eight
bytes per read until a shorter last read, then `io.EOF`. -/
def readSampleLogs (file : List UInt8) : List (List Char) × (List Char → Option Int) :=
  let final := (readPieces 8 [] file).foldl readSampleStep SampleLogsState.init
  (final.addrsOrder, final.addrAccess)

end Cijitter.Runsc
