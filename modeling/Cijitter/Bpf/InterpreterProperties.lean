import Cijitter.Bpf.Interpreter

/-! What `Compile`'s validation guarantees to `Exec`. The check of one
instruction is followed class by class, as Go's switch reads the opcode: every
opcode it accepts is one of the cases of `Exec`'s switch, and what it checks
of the operands is what the case needs (a scratch register that exists, a
non-zero constant divisor, a jump target inside the program). A compiled
program's last instruction returns, so from any instruction the loop either
stops or moves forward inside the program. -/

set_option autoImplicit false

namespace Cijitter.Bpf

open Code

/-! ## Opcodes -/

theorem unusedBitsMask_testBit : ∀ j, j < 16 → 8 ≤ j → unusedBitsMask.toNat.testBit j = true := by
  decide

theorem lt_of_unusedBits {op : UInt16} (unused : op &&& unusedBitsMask = 0) : op.toNat < 2 ^ 8 := by
  have masked : op.toNat &&& unusedBitsMask.toNat = 0 := by
    simpa using congrArg UInt16.toNat unused
  apply Nat.lt_pow_two_of_testBit
  intro j above
  by_cases high : 16 ≤ j
  · exact Nat.testBit_lt_two_pow
      (Nat.lt_of_lt_of_le op.toNat_lt_size (Nat.pow_le_pow_right Nat.zero_lt_two high))
  · have bit := congrArg (fun v => Nat.testBit v j) masked
    simpa [Nat.testBit_and, unusedBitsMask_testBit j (by omega) above] using bit

theorem opcode_forall {P : UInt16 → Prop} [DecidablePred P]
    (all : ∀ n : Fin (2 ^ 8), P (UInt16.ofNat n)) {op : UInt16}
    (unused : op &&& unusedBitsMask = 0) : P op := by
  simpa using all ⟨op.toNat, lt_of_unusedBits unused⟩

theorem opcode_fields {op : UInt16} (unused : op &&& unusedBitsMask = 0) :
    op = op &&& instructionClassMask ||| op &&& loadModeMask ||| op &&& loadSizeMask ∧
      op = op &&& instructionClassMask ||| op &&& aluMask ||| op &&& srcAluJmpMask ∧
      op = op &&& instructionClassMask ||| op &&& miscMask ∧
      (op &&& instructionClassMask = ld ∨ op &&& instructionClassMask = ldx ∨
        op &&& instructionClassMask = st ∨ op &&& instructionClassMask = stx ∨
        op &&& instructionClassMask = alu ∨ op &&& instructionClassMask = jmp ∨
        op &&& instructionClassMask = ret ∨ op &&& instructionClassMask = misc) ∧
      (op &&& srcAluJmpMask = k ∨ op &&& srcAluJmpMask = x) :=
  @opcode_forall (fun op =>
      op = op &&& instructionClassMask ||| op &&& loadModeMask ||| op &&& loadSizeMask ∧
      op = op &&& instructionClassMask ||| op &&& aluMask ||| op &&& srcAluJmpMask ∧
      op = op &&& instructionClassMask ||| op &&& miscMask ∧
      (op &&& instructionClassMask = ld ∨ op &&& instructionClassMask = ldx ∨
        op &&& instructionClassMask = st ∨ op &&& instructionClassMask = stx ∨
        op &&& instructionClassMask = alu ∨ op &&& instructionClassMask = jmp ∨
        op &&& instructionClassMask = ret ∨ op &&& instructionClassMask = misc) ∧
      (op &&& srcAluJmpMask = k ∨ op &&& srcAluJmpMask = x))
    _ (by decide +kernel) op unused

/-! ## The check of one instruction -/

/-- What `Compile` asks of an instruction of form `f` at `pc` beyond its
opcode: scratch registers in range, no division by a constant zero, and
jumps that land inside the program. -/
def Insn.operandsValid (length pc : Nat) (i : BPFInstruction) : Insn → Prop
  | .ldMemW | .ldxMemW | .st | .stx => i.k.toNat < scratchMemRegisters
  | .alu .div .k | .alu .mod .k => i.k ≠ 0
  | .ja => pc + i.k.toNat + 1 < length
  | .jmp _ _ => pc + i.jumpIfTrue.toNat + 1 < length ∧ pc + i.jumpIfFalse.toNat + 1 < length
  | _ => True

theorem passed_of_rejecting {c : Prop} [Decidable c] {e : ErrorCode} {rest : Option ErrorCode}
    (accepted : (if c then some e else rest) = none) : ¬c ∧ rest = none := by
  by_cases hc : c
  · rw [if_pos hc] at accepted
    nomatch accepted
  · rw [if_neg hc] at accepted
    exact ⟨hc, accepted⟩

theorem holds_of_rejecting {c : Prop} [Decidable c] {e : ErrorCode} {rest : Option ErrorCode}
    (accepted : (if c then rest else some e) = none) : c ∧ rest = none := by
  by_cases hc : c
  · rw [if_pos hc] at accepted
    exact ⟨hc, accepted⟩
  · rw [if_neg hc] at accepted
    nomatch accepted

theorem checkInstruction_accepts {length pc : Nat} {i : BPFInstruction}
    (accepted : checkInstruction length pc i = none) :
    ∃ f, decode i.opCode = some f ∧ f.operandsValid length pc i := by
  -- The masks that `Compile` reads under other names cover the same bits.
  simp only [checkInstruction, show storeUnusedBitsMask = miscMask from rfl,
    show jmpMask = aluMask from rfl, show retUnusedBitsMask = loadModeMask from rfl,
    show srcRetMask = loadSizeMask from rfl] at accepted
  obtain ⟨used, accepted⟩ := passed_of_rejecting accepted
  have unused : i.opCode &&& unusedBitsMask = 0 := not_not.mp used
  obtain ⟨loadFields, aluFields, miscFields, classes, src⟩ := opcode_fields unused
  -- From here on the opcode is its fields; the goal's opcode is rewritten to
  -- them once the class is known.
  generalize i.opCode &&& instructionClassMask = cls at accepted loadFields aluFields miscFields classes
  generalize i.opCode &&& loadSizeMask = size at accepted loadFields
  generalize i.opCode &&& loadModeMask = mode at accepted loadFields
  generalize i.opCode &&& srcAluJmpMask = source at accepted aluFields src
  generalize i.opCode &&& aluMask = operation at accepted aluFields
  generalize i.opCode &&& miscMask = extra at accepted miscFields
  -- `Ld`: a word from any of five places, a half-word or a byte only from the input.
  by_cases load : cls = ld
  · rw [if_pos load] at accepted
    rw [loadFields, load]
    by_cases width : size = w
    · rw [if_pos width] at accepted
      subst width
      obtain ⟨valid, accepted⟩ := passed_of_rejecting accepted
      obtain ⟨register, -⟩ := passed_of_rejecting accepted
      simp only [ne_eq, not_and_or, not_not] at valid
      rcases valid with rfl | rfl | rfl | rfl | rfl
      · exact ⟨_, rfl, trivial⟩
      · exact ⟨_, rfl, trivial⟩
      · exact ⟨_, rfl, trivial⟩
      · refine ⟨.ldMemW, rfl, ?_⟩
        simpa [Insn.operandsValid] using register
      · exact ⟨_, rfl, trivial⟩
    · rw [if_neg width] at accepted
      obtain ⟨narrow, accepted⟩ := holds_of_rejecting accepted
      obtain ⟨valid, -⟩ := passed_of_rejecting accepted
      simp only [ne_eq, not_and_or, not_not] at valid
      rcases narrow with rfl | rfl <;> rcases valid with rfl | rfl <;> exact ⟨_, rfl, trivial⟩
  rw [if_neg load] at accepted
  -- `Ldx`: a word, or the byte `Msh` turns into a header length.
  by_cases loadX : cls = ldx
  · rw [if_pos loadX] at accepted
    rw [loadFields, loadX]
    by_cases width : size = w
    · rw [if_pos width] at accepted
      subst width
      obtain ⟨valid, accepted⟩ := passed_of_rejecting accepted
      obtain ⟨register, -⟩ := passed_of_rejecting accepted
      simp only [ne_eq, not_and_or, not_not] at valid
      rcases valid with rfl | rfl | rfl
      · exact ⟨_, rfl, trivial⟩
      · refine ⟨.ldxMemW, rfl, ?_⟩
        simpa [Insn.operandsValid] using register
      · exact ⟨_, rfl, trivial⟩
    · rw [if_neg width] at accepted
      obtain ⟨rfl, accepted⟩ := holds_of_rejecting accepted
      obtain ⟨valid, -⟩ := passed_of_rejecting accepted
      rw [not_not.mp valid]
      exact ⟨_, rfl, trivial⟩
  rw [if_neg loadX] at accepted
  -- `St` and `Stx` have no field besides the class.
  by_cases store : cls = st ∨ cls = stx
  · rw [if_pos store] at accepted
    obtain ⟨unusedStore, accepted⟩ := passed_of_rejecting accepted
    obtain ⟨register, -⟩ := passed_of_rejecting accepted
    rw [miscFields, not_not.mp unusedStore]
    have inRange : i.k.toNat < scratchMemRegisters := Nat.lt_of_not_le register
    rcases store with rfl | rfl
    · exact ⟨.st, rfl, inRange⟩
    · exact ⟨.stx, rfl, inRange⟩
  rw [if_neg store] at accepted
  -- `Alu`: an operation and its source; `Neg` takes no source.
  by_cases arith : cls = alu
  · rw [if_pos arith] at accepted
    rw [aluFields, arith]
    by_cases plain : operation ∈ [add, sub, mul, Code.or, Code.and, lsh, rsh, Code.xor]
    · simp only [List.mem_cons, List.not_mem_nil, or_false] at plain
      rcases plain with rfl | rfl | rfl | rfl | rfl | rfl | rfl | rfl <;>
        rcases src with rfl | rfl <;> exact ⟨_, rfl, trivial⟩
    rw [if_neg plain] at accepted
    by_cases divides : operation = div ∨ operation = mod
    · rw [if_pos divides] at accepted
      obtain ⟨nonzero, -⟩ := passed_of_rejecting accepted
      rcases divides with rfl | rfl <;> rcases src with rfl | rfl
      · exact ⟨.alu .div .k, rfl, fun zero => nonzero ⟨rfl, zero⟩⟩
      · exact ⟨_, rfl, trivial⟩
      · exact ⟨.alu .mod .k, rfl, fun zero => nonzero ⟨rfl, zero⟩⟩
      · exact ⟨_, rfl, trivial⟩
    rw [if_neg divides] at accepted
    obtain ⟨rfl, accepted⟩ := holds_of_rejecting accepted
    obtain ⟨noSource, -⟩ := passed_of_rejecting accepted
    rw [not_not.mp noSource]
    exact ⟨_, rfl, trivial⟩
  rw [if_neg arith] at accepted
  -- `Jmp`: `Ja` takes no source, the conditional jumps either.
  by_cases branch : cls = jmp
  · rw [if_pos branch] at accepted
    rw [aluFields, branch]
    by_cases always : operation = ja
    · rw [if_pos always] at accepted
      subst always
      obtain ⟨noSource, accepted⟩ := passed_of_rejecting accepted
      obtain ⟨target, -⟩ := passed_of_rejecting accepted
      rw [not_not.mp noSource]
      exact ⟨.ja, rfl, Nat.lt_of_not_le target⟩
    rw [if_neg always] at accepted
    obtain ⟨conditional, accepted⟩ := holds_of_rejecting accepted
    obtain ⟨targetTrue, accepted⟩ := passed_of_rejecting accepted
    obtain ⟨targetFalse, -⟩ := passed_of_rejecting accepted
    have inside : Insn.operandsValid length pc i (.jmp .jeq .k) :=
      And.intro (Nat.lt_of_not_le targetTrue) (Nat.lt_of_not_le targetFalse)
    simp only [List.mem_cons, List.not_mem_nil, or_false] at conditional
    rcases conditional with rfl | rfl | rfl | rfl <;>
      rcases src with rfl | rfl <;> exact ⟨_, rfl, inside⟩
  rw [if_neg branch] at accepted
  -- `Ret` of `K` or of `A`.
  by_cases returns : cls = ret
  · rw [if_pos returns] at accepted
    rw [loadFields, returns]
    obtain ⟨noMode, accepted⟩ := passed_of_rejecting accepted
    obtain ⟨valid, -⟩ := passed_of_rejecting accepted
    rw [not_not.mp noMode]
    simp only [ne_eq, not_and_or, not_not] at valid
    rcases valid with rfl | rfl <;> exact ⟨_, rfl, trivial⟩
  rw [if_neg returns] at accepted
  -- No class is left but `Misc`, the switch's last case.
  have other : cls = misc := by
    simp only [load, loadX, branch, arith, returns, false_or] at classes
    simp only [not_or] at store
    simpa [store] using classes
  rw [miscFields, other]
  obtain ⟨valid, -⟩ := passed_of_rejecting accepted
  simp only [ne_eq, not_and_or, not_not] at valid
  rcases valid with rfl | rfl <;> exact ⟨_, rfl, trivial⟩

/-! ## One instruction -/

theorem loaded_next {machine next : Machine} {value : Option UInt32} {offset : Nat}
    (stepped : loaded machine value = .next next offset) : offset = 0 := by
  cases value with
  | none => nomatch stepped
  | some v => exact (Outcome.next.inj stepped).2.symm

theorem loaded_failed {machine : Machine} {value : Option UInt32} {code : ErrorCode}
    (stepped : loaded machine value = .failed code) : code = .invalidLoad := by
  cases value with
  | none => exact (Outcome.failed.inj stepped).symm
  | some v => nomatch stepped

theorem offset_of_next {length pc : Nat} {input : InputBytes} {machine next : Machine}
    {i : BPFInstruction} {f : Insn} {offset : Nat}
    (stepped : execInsn input machine i f = .next next offset) (valid : f.operandsValid length pc i) :
    offset = 0 ∨ pc + offset + 1 < length := by
  cases f with
  | ja =>
      simp only [execInsn, Outcome.next.injEq] at stepped
      exact Or.inr (stepped.2 ▸ valid)
  | jmp op src =>
      simp only [execInsn, Outcome.next.injEq] at stepped
      rw [← stepped.2]
      split
      · exact Or.inr valid.1
      · exact Or.inr valid.2
  | ldAbs width | ldInd width =>
      unfold execInsn at stepped
      split at stepped <;> first | contradiction | exact Or.inl (loaded_next stepped)
  | ldxMshB =>
      simp only [execInsn] at stepped
      split at stepped
      · exact Or.inl (Outcome.next.inj stepped).2.symm
      · nomatch stepped
  | alu op src =>
      simp only [execInsn] at stepped
      split at stepped
      · nomatch stepped
      · exact Or.inl (Outcome.next.inj stepped).2.symm
  | retK | retA => nomatch stepped
  | _ =>
      simp only [execInsn, Outcome.next.injEq] at stepped
      exact Or.inl stepped.2.symm

theorem execInsn_failed {input : InputBytes} {machine : Machine} {i : BPFInstruction} {f : Insn}
    {code : ErrorCode} (stepped : execInsn input machine i f = .failed code) :
    code = .invalidLoad ∨ code = .divisionByZero ∧ machine.x = 0 := by
  cases f with
  | ldAbs width | ldInd width =>
      unfold execInsn at stepped
      split at stepped <;> first | contradiction | exact Or.inl (loaded_failed stepped)
  | ldxMshB =>
      simp only [execInsn] at stepped
      split at stepped
      · nomatch stepped
      · exact Or.inl (Outcome.failed.inj stepped).symm
  | alu op src =>
      simp only [execInsn] at stepped
      split at stepped
      · rename_i zero
        exact Or.inr ⟨(Outcome.failed.inj stepped).symm, zero.2.2⟩
      · nomatch stepped
  | _ => nomatch stepped

/-- The scratch register `M[K]` an instruction reads or writes. -/
def Insn.scratchRegister (i : BPFInstruction) : Insn → Option Nat
  | .ldMemW | .ldxMemW | .st | .stx => some i.k.toNat
  | _ => none

/-- The divisor of a division or modulo, `K` or `X`. -/
def Insn.divisor (machine : Machine) (i : BPFInstruction) : Insn → Option UInt32
  | .alu .div src | .alu .mod src => some (src.operand machine i)
  | _ => none

/-- What running the instruction at `pc` on `machine` must not do: touch a
scratch register `M` does not have, or divide by zero (a zero divisor has to
stop the program with `DivisionByZero` first). -/
def StepSafe (insns : List BPFInstruction) (input : InputBytes) (pc : Nat) (machine : Machine) :
    Prop :=
  ∀ i f, insns[pc]? = some i → decode i.opCode = some f →
    (∀ r ∈ f.scratchRegister i, r < scratchMemRegisters) ∧
    ∀ d ∈ f.divisor machine i, d = 0 → execInsn input machine i f = .failed .divisionByZero

theorem scratchRegister_lt {length pc : Nat} {i : BPFInstruction} {f : Insn}
    (valid : f.operandsValid length pc i) : ∀ r ∈ f.scratchRegister i, r < scratchMemRegisters := by
  intro r member
  cases f <;> simp only [Insn.scratchRegister, Option.mem_def, reduceCtorEq, Option.some.injEq] at member <;>
    exact member ▸ valid

theorem divisor_zero {length pc : Nat} {input : InputBytes} {machine : Machine} {i : BPFInstruction}
    {f : Insn} (valid : f.operandsValid length pc i) :
    ∀ d ∈ f.divisor machine i, d = 0 → execInsn input machine i f = .failed .divisionByZero := by
  intro d member zero
  match f, valid, member with
  | .alu .div .k, valid, member
  | .alu .mod .k, valid, member => exact absurd ((Option.some.inj member).trans zero) valid
  | .alu .div .x, _, member
  | .alu .mod .x, _, member =>
      have : machine.x = 0 := (Option.some.inj member).trans zero
      simp [execInsn, this]

/-! ## Validation -/

theorem firstInvalid_eq_none {length : Nat} {insns : List BPFInstruction} :
    ∀ {start : Nat}, firstInvalid length start insns = none →
      ∀ j (h : j < insns.length), checkInstruction length (start + j) insns[j] = none := by
  induction insns with
  | nil => intro _ _ j h; exact absurd h (Nat.not_lt_zero j)
  | cons i rest ih =>
      intro start accepted j h
      simp only [firstInvalid] at accepted
      split at accepted
      · nomatch accepted
      · rename_i checked
        cases j with
        | zero => exact checked
        | succ j =>
            have later := ih accepted j (by simpa using h)
            rwa [Nat.add_right_comm, Nat.add_assoc] at later

section Valid

variable {insns : List BPFInstruction} (valid : validate insns = none)
include valid

theorem length_pos_of_validate : 0 < insns.length := by
  simp only [validate] at valid
  split at valid
  · nomatch valid
  · omega

theorem checked_of_validate {pc : Nat} (inside : pc < insns.length) :
    checkInstruction insns.length pc insns[pc] = none := by
  simp only [validate] at valid
  split at valid
  · nomatch valid
  split at valid
  · split at valid
    · nomatch valid
    · simpa using firstInvalid_eq_none valid pc inside
  · nomatch valid

theorem last_returns_of_validate {pc : Nat} (inside : pc < insns.length) (last : pc + 1 = insns.length) :
    decode insns[pc].opCode = some .retK ∨ decode insns[pc].opCode = some .retA := by
  simp only [validate] at valid
  split at valid
  · nomatch valid
  split at valid
  · rename_i final found
    split at valid
    · nomatch valid
    rename_i returns
    have : final = insns[pc] := by
      rw [List.getLast?_eq_getElem?] at found
      simp only [show insns.length - 1 = pc by omega, List.getElem?_eq_getElem inside,
        Option.some.injEq] at found
      exact found.symm
    subst this
    simp only [ne_eq, not_and_or, not_not] at returns
    rcases returns with code | code <;> rw [code]
    · exact Or.inl rfl
    · exact Or.inr rfl
  · nomatch valid

end Valid

/-! ## Runs -/

/-- The instructions `Exec` runs from `pc`, with the machine each starts
from, as `execFrom` runs them on the same fuel. -/
def execTrace (insns : List BPFInstruction) (input : InputBytes) :
    Nat → Nat → Machine → List (Nat × Machine)
  | 0, _, _ => []
  | fuel + 1, pc, machine =>
      match insns[pc]? with
      | none => []
      | some i =>
          match decode i.opCode with
          | none => [(pc, machine)]
          | some form =>
              match execInsn input machine i form with
              | .next next offset => (pc, machine) :: execTrace insns input fuel (pc + offset + 1) next
              | _ => [(pc, machine)]

section Fetched

variable {insns : List BPFInstruction} (input : InputBytes) {fuel pc : Nat} {machine : Machine}
  {i : BPFInstruction} {f : Insn}
  (fetched : insns[pc]? = some i) (decoded : decode i.opCode = some f)
include fetched decoded

theorem execFrom_next {next : Machine} {offset : Nat}
    (stepped : execInsn input machine i f = .next next offset) :
    execFrom insns input (fuel + 1) pc machine = execFrom insns input fuel (pc + offset + 1) next := by
  dsimp only [execFrom]
  simp only [fetched, decoded, stepped]

theorem execFrom_returned {value : UInt32} (stepped : execInsn input machine i f = .returned value) :
    execFrom insns input (fuel + 1) pc machine = .ok value := by
  dsimp only [execFrom]
  simp only [fetched, decoded, stepped]

theorem execFrom_failed {code : ErrorCode} (stepped : execInsn input machine i f = .failed code) :
    execFrom insns input (fuel + 1) pc machine = .error ⟨code, pc⟩ := by
  dsimp only [execFrom]
  simp only [fetched, decoded, stepped]

theorem execTrace_next {next : Machine} {offset : Nat}
    (stepped : execInsn input machine i f = .next next offset) :
    execTrace insns input (fuel + 1) pc machine =
      (pc, machine) :: execTrace insns input fuel (pc + offset + 1) next := by
  dsimp only [execTrace]
  simp only [fetched, decoded, stepped]

theorem execTrace_stop (stops : ∀ next offset, execInsn input machine i f ≠ .next next offset) :
    execTrace insns input (fuel + 1) pc machine = [(pc, machine)] := by
  -- The equation of `execTrace`'s last case takes `stops` as its side condition.
  simp only [execTrace, fetched, decoded]

end Fetched

section Run

variable {insns : List BPFInstruction} (valid : validate insns = none) (input : InputBytes)
include valid

theorem step_of_validate {pc : Nat} (inside : pc < insns.length) :
    ∃ f, decode insns[pc].opCode = some f ∧ f.operandsValid insns.length pc insns[pc] ∧
      ∀ machine next offset, execInsn input machine insns[pc] f = .next next offset →
        pc + offset + 1 < insns.length := by
  obtain ⟨f, decoded, operands⟩ := checkInstruction_accepts (checked_of_validate valid inside)
  refine ⟨f, decoded, operands, fun machine next offset stepped => ?_⟩
  rcases offset_of_next stepped operands with still | jumped
  · subst still
    by_contra atEnd
    have returns := last_returns_of_validate valid inside (by omega)
    rw [decoded, Option.some.injEq, Option.some.injEq] at returns
    rcases returns with rfl | rfl <;> nomatch stepped
  · exact jumped

theorem stepSafe_of_validate {pc : Nat} (inside : pc < insns.length) (machine : Machine) :
    StepSafe insns input pc machine := by
  intro i f fetched decoded
  obtain ⟨f', decoded', operands, -⟩ := step_of_validate valid input inside
  rw [List.getElem?_eq_getElem inside, Option.some.injEq] at fetched
  subst fetched
  rw [decoded, Option.some.injEq] at decoded'
  subst decoded'
  exact ⟨scratchRegister_lt operands, divisor_zero operands⟩

theorem execFrom_error_of_validate : ∀ {fuel pc : Nat} {machine : Machine},
    pc < insns.length → insns.length ≤ pc + fuel → ∀ e, execFrom insns input fuel pc machine = .error e →
      ∃ state, (e.pc, state) ∈ execTrace insns input fuel pc machine ∧
        ∃ i f, insns[e.pc]? = some i ∧ decode i.opCode = some f ∧ execInsn input state i f = .failed e.code := by
  intro fuel
  induction fuel with
  | zero => intro pc machine inside enough; omega
  | succ fuel ih =>
      intro pc machine inside enough e result
      obtain ⟨f, decoded, -, forward⟩ := step_of_validate valid input inside
      have fetched := List.getElem?_eq_getElem inside
      cases stepped : execInsn input machine insns[pc] f with
      | next next offset =>
          rw [execFrom_next input fetched decoded stepped] at result
          obtain ⟨state, member, failing⟩ := ih (forward machine next offset stepped) (by omega) e result
          rw [execTrace_next input fetched decoded stepped]
          exact ⟨state, List.mem_cons_of_mem _ member, failing⟩
      | returned value =>
          rw [execFrom_returned input fetched decoded stepped] at result
          nomatch result
      | failed code =>
          rw [execFrom_failed input fetched decoded stepped, Except.error.injEq] at result
          subst result
          have stops : ∀ next offset, execInsn input machine insns[pc] f ≠ .next next offset := by
            intro next offset moved
            rw [stepped] at moved
            nomatch moved
          rw [execTrace_stop input fetched decoded stops]
          exact ⟨machine, List.mem_singleton_self _, insns[pc], f, fetched, decoded, stepped⟩

theorem execFrom_enough_fuel : ∀ {fuel fuel' pc : Nat} {machine : Machine},
    pc < insns.length → insns.length ≤ pc + fuel → insns.length ≤ pc + fuel' →
      execFrom insns input fuel pc machine = execFrom insns input fuel' pc machine := by
  intro fuel
  induction fuel with
  | zero => intro fuel' pc machine inside enough; omega
  | succ fuel ih =>
      intro fuel' pc machine inside enough enough'
      obtain ⟨fuel', rfl⟩ : ∃ rest, fuel' = rest + 1 := ⟨fuel' - 1, by omega⟩
      obtain ⟨f, decoded, -, forward⟩ := step_of_validate valid input inside
      have fetched := List.getElem?_eq_getElem inside
      cases stepped : execInsn input machine insns[pc] f with
      | next next offset =>
          rw [execFrom_next input fetched decoded stepped, execFrom_next input fetched decoded stepped]
          exact ih (forward machine next offset stepped) (by omega) (by omega)
      | returned value =>
          rw [execFrom_returned input fetched decoded stepped, execFrom_returned input fetched decoded stepped]
      | failed code =>
          rw [execFrom_failed input fetched decoded stepped, execFrom_failed input fetched decoded stepped]

theorem execTrace_inside : ∀ {fuel pc : Nat} {machine : Machine}, pc < insns.length →
    (execTrace insns input fuel pc machine).length ≤ insns.length - pc ∧
      ∀ step ∈ execTrace insns input fuel pc machine, pc ≤ step.1 ∧ step.1 < insns.length := by
  intro fuel
  induction fuel with
  | zero => intro pc machine inside; simp [execTrace]
  | succ fuel ih =>
      intro pc machine inside
      obtain ⟨f, decoded, -, forward⟩ := step_of_validate valid input inside
      have fetched := List.getElem?_eq_getElem inside
      by_cases moves : ∃ next offset, execInsn input machine insns[pc] f = .next next offset
      · obtain ⟨next, offset, stepped⟩ := moves
        have later := forward machine next offset stepped
        obtain ⟨length, steps⟩ := @ih _ next later
        rw [execTrace_next input fetched decoded stepped]
        refine ⟨by simp only [List.length_cons]; omega, ?_⟩
        intro step member
        rcases List.mem_cons.mp member with rfl | member
        · exact ⟨Nat.le_refl _, inside⟩
        · have := steps step member
          omega
      · simp only [not_exists] at moves
        rw [execTrace_stop input fetched decoded moves]
        refine ⟨by simp only [List.length_singleton]; omega, ?_⟩
        intro step member
        rw [List.mem_singleton.mp member]
        exact ⟨Nat.le_refl _, inside⟩

end Run

/-- `Compile` makes `Exec` safe: on every input a compiled program executes
at most one instruction per instruction of the program whatever the fuel,
the fuel `Exec` gives it is enough, no executed instruction touches a
scratch register past `M`'s end or divides by zero, and the only errors are
`InvalidLoad` and a `DivisionByZero` raised when `X` is zero. -/
theorem exec_compiled_safe (p : Program) (input : InputBytes) :
    (∀ fuel, (execTrace p.instructions input fuel 0 Machine.init).length ≤ p.instructions.length) ∧
    (∀ fuel, p.instructions.length ≤ fuel →
      execFrom p.instructions input fuel 0 Machine.init = exec p input) ∧
    (∀ step ∈ execTrace p.instructions input p.instructions.length 0 Machine.init,
      StepSafe p.instructions input step.1 step.2) ∧
    ∀ e, exec p input = .error e →
      ∃ state, (e.pc, state) ∈ execTrace p.instructions input p.instructions.length 0 Machine.init ∧
        (e.code = .invalidLoad ∨ e.code = .divisionByZero ∧ state.x = 0) := by
  have nonempty := length_pos_of_validate p.valid
  refine ⟨fun fuel => ?_, fun fuel enough => ?_, fun step member => ?_, ?_⟩
  · simpa using (@execTrace_inside _ p.valid input fuel 0 Machine.init nonempty).1
  · exact execFrom_enough_fuel p.valid input nonempty (by omega) (by omega)
  · have inside := (execTrace_inside p.valid input nonempty).2 step member
    exact stepSafe_of_validate p.valid input inside.2 step.2
  · intro e result
    obtain ⟨state, member, _, _, _, _, failing⟩ :=
      execFrom_error_of_validate p.valid input nonempty (by omega) e result
    exact ⟨state, member, execInsn_failed failing⟩

end Cijitter.Bpf
