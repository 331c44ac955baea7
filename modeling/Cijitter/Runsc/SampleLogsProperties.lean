import Cijitter.Monitor.OutputTargets
import Cijitter.Runsc.SampleLogs
import Mathlib

/-! What `read_sample_logs` reads back from the file `output_targets_addr`
writes. The writer leaves a record of 24 bytes per target (address, 8-byte
hole, count, 4-byte hole), and the reader's grouping of words by three
follows that stride. Only the file ends after the last count, without its
hole: the last read returns four bytes, `binary.Read` fails on them, and the
last address gets the zero of the hole before. -/

set_option autoImplicit false

namespace Cijitter.Runsc

open Bytes GoStrings Cijitter.Monitor

/-- The twenty bytes one iteration of `output_targets_addr` writes past the
hole before them: the address, an 8-byte hole, and the count. -/
def targetBytes (addr : UInt64) (count : Int32) : List UInt8 :=
  leBytes 8 addr.toNat ++ List.replicate 8 0 ++ leBytes 4 count.toBitVec.toNat

/-- A target with the 4-byte hole the next iteration leaves after it. -/
def targetRecord (addr : UInt64) (count : Int32) : List UInt8 :=
  targetBytes addr count ++ List.replicate 4 0

@[simp] theorem length_targetBytes (addr : UInt64) (count : Int32) :
    (targetBytes addr count).length = 20 := by
  simp [targetBytes]

theorem length_flatten_targetRecord (targetsAddr : Fin 10 → UInt64) (nrTargetsAddr : Fin 10 → Int32)
    (targets : List (Fin 10)) :
    ((targets.map fun i => targetRecord (targetsAddr i) (nrTargetsAddr i)).flatten).length =
      24 * targets.length := by
  induction targets with
  | nil => rfl
  | cons i rest ih =>
      rw [List.map_cons, List.flatten_cons, List.length_append, ih, List.length_cons]
      simp only [targetRecord, List.length_append, length_targetBytes, List.length_replicate]
      omega

section Writer

variable (targetsAddr : Fin 10 → UInt64) (nrTargetsAddr : Fin 10 → Int32)

theorem writeTarget_of_le {file : List UInt8} {pos : Nat} (i : Fin 10) (past : file.length ≤ pos) :
    writeTarget targetsAddr nrTargetsAddr (file, pos) i =
      (file ++ List.replicate (pos - file.length) 0 ++
        targetBytes (targetsAddr i) (nrTargetsAddr i), pos + 24) := by
  have first_length :
      (file ++ List.replicate (pos - file.length) 0 ++ leBytes 8 (targetsAddr i).toNat).length =
        pos + 8 := by
    simp only [List.length_append, List.length_replicate, length_leBytes]
    omega
  simp only [writeTarget, kernelWrite]
  rw [writeAt_of_le _ past, writeAt_of_le _ (by rw [first_length]; omega), first_length]
  simp only [length_leBytes, targetBytes, List.append_assoc, Nat.add_sub_cancel_left]

theorem foldl_writeTarget (init : List (Fin 10)) (last : Fin 10) :
    (init ++ [last]).foldl (writeTarget targetsAddr nrTargetsAddr) ([], 0) =
      ((init.map fun i => targetRecord (targetsAddr i) (nrTargetsAddr i)).flatten ++
        targetBytes (targetsAddr last) (nrTargetsAddr last), 24 * (init.length + 1)) := by
  induction init using List.reverseRec generalizing last with
  | nil =>
      simp only [List.nil_append, List.foldl_cons, List.foldl_nil]
      rw [writeTarget_of_le targetsAddr nrTargetsAddr last (Nat.le_refl 0)]
      simp
  | append_singleton init previous ih =>
      rw [List.foldl_append, ih previous]
      have file_length : ((init.map fun i => targetRecord (targetsAddr i) (nrTargetsAddr i)).flatten ++
          targetBytes (targetsAddr previous) (nrTargetsAddr previous)).length =
          24 * init.length + 20 := by
        rw [List.length_append, length_flatten_targetRecord, length_targetBytes]
      simp only [List.foldl_cons, List.foldl_nil]
      rw [writeTarget_of_le targetsAddr nrTargetsAddr last (by rw [file_length]; omega), file_length]
      have hole : 24 * (init.length + 1) - (24 * init.length + 20) = 4 := by omega
      simp only [hole, List.map_append, List.map_cons, List.map_nil, List.flatten_append,
        List.flatten_cons, List.flatten_nil, List.append_nil, targetRecord, List.append_assoc,
        List.length_append, List.length_cons, List.length_nil]
      refine Prod.ext rfl ?_
      dsimp only
      omega

theorem outputTargetsAddr_new :
    outputTargetsAddr [] targetsAddr nrTargetsAddr =
      ((List.finRange 9).map fun i =>
          targetRecord (targetsAddr i.castSucc) (nrTargetsAddr i.castSucc)).flatten ++
        targetBytes (targetsAddr 9) (nrTargetsAddr 9) := by
  unfold outputTargetsAddr
  rw [List.finRange_succ_last, foldl_writeTarget, List.map_map]
  rfl

end Writer

section Reader

variable {ι : Type} (addrOf : ι → UInt64) (countOf : ι → Int32)

/-- What the three reads of a full record return. -/
def recordReads (addr : UInt64) (count : Int32) : List (List UInt8) :=
  [leBytes 8 addr.toNat, List.replicate 8 0, leBytes 4 count.toBitVec.toNat ++ List.replicate 4 0]

theorem readPieces_targets (init : List ι) (lastAddr : UInt64) (lastCount : Int32) :
    readPieces 8 [] ((init.map fun i => targetRecord (addrOf i) (countOf i)).flatten ++
        targetBytes lastAddr lastCount) =
      (init.map fun i => recordReads (addrOf i) (countOf i)).flatten ++
        [leBytes 8 lastAddr.toNat, List.replicate 8 0, leBytes 4 lastCount.toBitVec.toNat] := by
  have nonempty : ∀ {bytes : List UInt8}, bytes.length = 8 → bytes ≠ [] := fun full =>
    List.ne_nil_of_length_pos (by omega)
  induction init with
  | nil =>
      simp only [List.map_nil, List.flatten_nil, List.nil_append, targetBytes, List.append_assoc]
      rw [readPieces_append 8 [] _ _ (by simp) (nonempty (by simp)),
        readPieces_append 8 [] _ _ (by simp) (nonempty (by simp)),
        readPieces_short 8 [] _ (by simp) (List.ne_nil_of_length_pos (by simp))]
      rfl
  | cons i rest ih =>
      simp only [List.map_cons, List.flatten_cons, targetRecord, targetBytes, List.append_assoc]
      rw [readPieces_append 8 [] _ _ (by simp) (nonempty (by simp)),
        readPieces_append 8 [] _ _ (by simp) (nonempty (by simp)),
        ← List.append_assoc (leBytes 4 _), readPieces_append 8 [] _ _ (by simp) (nonempty (by simp))]
      simp only [targetRecord, targetBytes, List.append_assoc] at ih
      rw [ih]
      rfl

theorem binaryReadInt64_addr (addr : UInt64) :
    binaryReadInt64 (leBytes 8 addr.toNat) = some (signedValue 64 addr.toNat) := by
  have width : (256 : Nat) ^ 8 = 2 ^ 64 := rfl
  have fits : addr.toNat % 256 ^ 8 = addr.toNat := by
    rw [width]
    exact Nat.mod_eq_of_lt addr.toNat_lt
  rw [binaryReadInt64, if_neg (by simp), List.take_of_length_le (by simp), leValue_leBytes, fits]

theorem binaryReadInt64_hole : binaryReadInt64 (List.replicate 8 0) = some 0 := by
  rw [binaryReadInt64, if_neg (by simp), List.take_of_length_le (by simp), leValue_zeros]
  simp [signedValue]

theorem binaryReadInt64_count (count : Int32) :
    binaryReadInt64 (leBytes 4 count.toBitVec.toNat ++ List.replicate 4 0) =
      some (count.toBitVec.toNat : Int) := by
  have bound : count.toBitVec.toNat < 2 ^ 32 := count.toBitVec.isLt
  have width : (256 : Nat) ^ 4 = 2 ^ 32 := rfl
  have fits : count.toBitVec.toNat % 256 ^ 4 = count.toBitVec.toNat := by
    rw [width]
    exact Nat.mod_eq_of_lt bound
  have small : count.toBitVec.toNat < 2 ^ (64 - 1) :=
    Nat.lt_of_lt_of_le bound (Nat.pow_le_pow_right (by decide) (by decide))
  rw [binaryReadInt64, if_neg (by simp), List.take_of_length_le (by simp), leValue_append,
    leValue_leBytes, leValue_zeros, fits, Nat.mul_zero, Nat.add_zero, signedValue_of_lt small]

theorem binaryReadInt64_short (count : Int32) :
    binaryReadInt64 (leBytes 4 count.toBitVec.toNat) = none := by
  simp [binaryReadInt64]

theorem foldl_readSampleStep_record (state : SampleLogsState) (aligned : state.index % 3 = 0)
    (addr : UInt64) (third : List UInt8) :
    ([leBytes 8 addr.toNat, List.replicate 8 0, third].foldl readSampleStep state).addrsOrder =
        state.addrsOrder ++ [sprintfHex (signedValue 64 addr.toNat)] ∧
      ([leBytes 8 addr.toNat, List.replicate 8 0, third].foldl readSampleStep state).addrAccess =
        Function.update state.addrAccess (sprintfHex (signedValue 64 addr.toNat))
          (some ((binaryReadInt64 third).getD 0)) ∧
      ([leBytes 8 addr.toNat, List.replicate 8 0, third].foldl readSampleStep state).index =
        state.index + 3 := by
  have second : (state.index + 1) % 3 ≠ 0 := by omega
  have third_word : (state.index + 1 + 1) % 3 ≠ 0 := by omega
  have no_count : state.index ≠ state.index + 2 := by omega
  have no_count_second : state.index + 1 ≠ state.index + 2 := by omega
  simp only [List.foldl_cons, List.foldl_nil, readSampleStep, binaryReadInt64_addr,
    binaryReadInt64_hole, Option.getD_some, aligned, second, third_word, no_count, no_count_second,
    if_true, if_false]
  exact ⟨trivial, trivial, trivial⟩

theorem foldl_readSampleStep_records (init : List ι) :
    ∀ state : SampleLogsState, state.index % 3 = 0 →
      (((init.map fun i => recordReads (addrOf i) (countOf i)).flatten).foldl readSampleStep
          state).addrsOrder =
          state.addrsOrder ++ init.map (fun i => sprintfHex (signedValue 64 (addrOf i).toNat)) ∧
        (((init.map fun i => recordReads (addrOf i) (countOf i)).flatten).foldl readSampleStep
          state).addrAccess =
          init.foldl (fun access i => Function.update access (sprintfHex (signedValue 64 (addrOf i).toNat))
            (some ((countOf i).toBitVec.toNat : Int))) state.addrAccess ∧
        (((init.map fun i => recordReads (addrOf i) (countOf i)).flatten).foldl readSampleStep
          state).index % 3 = 0 := by
  induction init with
  | nil =>
      intro state aligned
      exact ⟨by simp, rfl, aligned⟩
  | cons i rest ih =>
      intro state aligned
      obtain ⟨order, access, index⟩ :=
        foldl_readSampleStep_record state aligned (addrOf i)
          (leBytes 4 (countOf i).toBitVec.toNat ++ List.replicate 4 0)
      rw [binaryReadInt64_count, Option.getD_some] at access
      rw [List.map_cons, List.flatten_cons, List.foldl_append]
      generalize next_eq : List.foldl readSampleStep state (recordReads (addrOf i) (countOf i)) = next
      have read_record : List.foldl readSampleStep state [leBytes 8 (addrOf i).toNat,
          List.replicate 8 0, leBytes 4 (countOf i).toBitVec.toNat ++ List.replicate 4 0] = next := next_eq
      rw [read_record] at order access index
      obtain ⟨rest_order, rest_access, rest_index⟩ := ih next (by omega)
      refine ⟨?_, ?_, rest_index⟩
      · rw [rest_order, order, List.append_assoc, List.singleton_append, List.map_cons]
      · rw [rest_access, access, List.foldl_cons]

end Reader

/-- `read_sample_logs` after `output_targets_addr` on a new file: the ten
addresses come back in order, formatted with `0x%x` from their 64-bit
pattern; each of the first nine maps to its count's 32-bit pattern (a later
duplicate winning), and the tenth maps to `0` whatever its count. -/
theorem readSampleLogs_outputTargetsAddr (targetsAddr : Fin 10 → UInt64)
    (nrTargetsAddr : Fin 10 → Int32) :
    readSampleLogs (outputTargetsAddr [] targetsAddr nrTargetsAddr) =
      ((List.finRange 10).map fun i => sprintfHex (signedValue 64 (targetsAddr i).toNat),
        Function.update
          ((List.finRange 9).foldl (fun access i => Function.update access
              (sprintfHex (signedValue 64 (targetsAddr i.castSucc).toNat))
              (some ((nrTargetsAddr i.castSucc).toBitVec.toNat : Int))) fun _ => none)
          (sprintfHex (signedValue 64 (targetsAddr 9).toNat)) (some 0)) := by
  rw [outputTargetsAddr_new]
  unfold readSampleLogs
  rw [readPieces_targets (fun i : Fin 9 => targetsAddr i.castSucc) (fun i => nrTargetsAddr i.castSucc),
    List.foldl_append]
  -- The nine full records, then the last one with its short read.
  obtain ⟨order, access, aligned⟩ := foldl_readSampleStep_records
    (fun i : Fin 9 => targetsAddr i.castSucc) (fun i => nrTargetsAddr i.castSucc) (List.finRange 9)
    SampleLogsState.init rfl
  generalize List.foldl readSampleStep SampleLogsState.init
    ((List.finRange 9).map fun i => recordReads (targetsAddr i.castSucc) (nrTargetsAddr i.castSucc)).flatten
    = middle at order access aligned
  obtain ⟨last_order, last_access, -⟩ := foldl_readSampleStep_record middle aligned (targetsAddr 9)
    (leBytes 4 (nrTargetsAddr 9).toBitVec.toNat)
  rw [binaryReadInt64_short, Option.getD_none] at last_access
  refine Prod.ext ?_ ?_
  · dsimp only
    rw [last_order, order, List.finRange_succ_last, List.map_append, List.map_map]
    rfl
  · dsimp only
    rw [last_access, access]
    rfl

set_option maxRecDepth 20000 in
/-- Targets `0x1000, ..., 0xa000` with counts `10, ..., 1`: the ninth
address reads back with its count, the tenth with `0` instead of `1`. -/
theorem sampleLogs_last_count_lost :
    (readSampleLogs (outputTargetsAddr [] (fun i => UInt64.ofNat (0x1000 * (i.val + 1)))
        (fun i => Int32.ofNat (10 - i.val)))).2 (sprintfHex 0x9000) = some 2 ∧
      (readSampleLogs (outputTargetsAddr [] (fun i => UInt64.ofNat (0x1000 * (i.val + 1)))
        (fun i => Int32.ofNat (10 - i.val)))).2 (sprintfHex 0xa000) = some 0 := by
  decide

end Cijitter.Runsc
