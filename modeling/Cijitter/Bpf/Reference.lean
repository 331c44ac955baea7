import Cijitter.Bpf.Interpreter

/-! Classic BPF as Linux runs it (`Documentation/networking/filter.txt` and
the interpreter of `net/core/filter.c`), the reference `Exec` is meant to
follow: 32-bit wrapping arithmetic, jumps relative to the next instruction,
scratch registers that start at zero, `BPF_MISC|BPF_TAX` copying A into X
and `BPF_MISC|BPF_TXA` copying X into A, and `BPF_LDX|BPF_MSH` loading
`4 * (byte & 0xf)`. A load outside the input and a division by a zero X end
Linux's filter; the reference reports them as `Exec`'s errors, so that only
what the program computes is compared. Shifts by 32 or more, which C leaves
undefined, give zero as in Go. -/

set_option autoImplicit false

namespace Cijitter.Bpf

/-- One instruction of the reference machine. -/
def linuxExecInsn (input : InputBytes) (machine : Machine) (i : BPFInstruction) : Insn → Outcome
  | .ldImmW => .next { machine with a := i.k } 0
  | .ldAbs 4 => loaded machine (input.load32 i.k)
  | .ldAbs 2 => loaded machine (input.load16 i.k)
  | .ldAbs _ => loaded machine (input.load8 i.k)
  | .ldInd 4 => loaded machine (input.load32 (machine.x + i.k))
  | .ldInd 2 => loaded machine (input.load16 (machine.x + i.k))
  | .ldInd _ => loaded machine (input.load8 (machine.x + i.k))
  | .ldMemW => .next { machine with a := machine.m i.k.toNat } 0
  | .ldLenW => .next { machine with a := input.length } 0
  | .ldxImmW => .next { machine with x := i.k } 0
  | .ldxMemW => .next { machine with x := machine.m i.k.toNat } 0
  | .ldxLenW => .next { machine with x := input.length } 0
  | .ldxMshB =>
      match input.load8 i.k with
      | some value => .next { machine with x := (value &&& 0xf) <<< 2 } 0
      | none => .failed .invalidLoad
  | .st => .next { machine with m := Function.update machine.m i.k.toNat machine.a } 0
  | .stx => .next { machine with m := Function.update machine.m i.k.toNat machine.x } 0
  | .alu op src =>
      if (op = .div ∨ op = .mod) ∧ src = .x ∧ machine.x = 0 then .failed .divisionByZero
      else .next { machine with a := op.apply machine.a (src.operand machine i) } 0
  | .aluNeg => .next { machine with a := 0 - machine.a } 0
  | .ja => .next machine i.k.toNat
  | .jmp op src =>
      .next machine
        (if op.holds machine.a (src.operand machine i) then i.jumpIfTrue.toNat else i.jumpIfFalse.toNat)
  | .retK => .returned i.k
  | .retA => .returned machine.a
  -- X = A
  | .tax => .next { machine with x := machine.a } 0
  -- A = X
  | .txa => .next { machine with a := machine.x } 0

/-- The reference machine's loop, with `Exec`'s bound on its iterations. -/
def linuxExecFrom (insns : List BPFInstruction) (input : InputBytes) :
    Nat → Nat → Machine → Except Error UInt32
  | 0, pc, _ => .error ⟨.invalidEndOfProgram, pc⟩
  | fuel + 1, pc, machine =>
      match insns[pc]? with
      | none => .error ⟨.invalidEndOfProgram, pc⟩
      | some i =>
          match decode i.opCode with
          | none => .error ⟨.invalidOpcode, pc⟩
          | some form =>
              match linuxExecInsn input machine i form with
              | .next machine offset => linuxExecFrom insns input fuel (pc + offset + 1) machine
              | .returned value => .ok value
              | .failed code => .error ⟨code, pc⟩

def linuxExec (p : Program) (input : InputBytes) : Except Error UInt32 :=
  linuxExecFrom p.instructions input p.instructions.length 0 Machine.init

theorem execFrom_succ (insns : List BPFInstruction) (input : InputBytes) (fuel pc : Nat) (machine : Machine) :
    execFrom insns input (fuel + 1) pc machine =
      match insns[pc]? with
      | none => .error ⟨.invalidEndOfProgram, pc⟩
      | some i =>
          match decode i.opCode with
          | none => .error ⟨.invalidOpcode, pc⟩
          | some form =>
              match execInsn input machine i form with
              | .next machine offset => execFrom insns input fuel (pc + offset + 1) machine
              | .returned value => .ok value
              | .failed code => .error ⟨code, pc⟩ := rfl

theorem linuxExecFrom_succ (insns : List BPFInstruction) (input : InputBytes) (fuel pc : Nat)
    (machine : Machine) :
    linuxExecFrom insns input (fuel + 1) pc machine =
      match insns[pc]? with
      | none => .error ⟨.invalidEndOfProgram, pc⟩
      | some i =>
          match decode i.opCode with
          | none => .error ⟨.invalidOpcode, pc⟩
          | some form =>
              match linuxExecInsn input machine i form with
              | .next machine offset => linuxExecFrom insns input fuel (pc + offset + 1) machine
              | .returned value => .ok value
              | .failed code => .error ⟨code, pc⟩ := rfl

theorem mask_shiftLeft_two (value : UInt32) : (value &&& 0xf) <<< 2 = 4 * (value &&& 0xf) := by
  apply UInt32.toNat_inj.mp
  have small : (value &&& 0xf).toNat < 16 := by
    rw [UInt32.toNat_and]
    exact Nat.lt_of_le_of_lt Nat.and_le_right (by decide)
  simp only [UInt32.toNat_shiftLeft, UInt32.toNat_mul, Nat.shiftLeft_eq]
  simp only [UInt32.reduceToNat, Nat.reduceMod, Nat.reducePow]
  omega

theorem execInsn_eq_linuxExecInsn (input : InputBytes) (machine : Machine) (i : BPFInstruction) {form : Insn}
    (notTax : form ≠ .tax) (notTxa : form ≠ .txa) :
    execInsn input machine i form = linuxExecInsn input machine i form := by
  cases form with
  | ldAbs width => rcases width with _ | _ | _ | _ | _ | width <;> rfl
  | ldInd width => rcases width with _ | _ | _ | _ | _ | width <;> rfl
  | ldxMshB =>
      -- the two `match`es on the load are different auxiliary functions
      simp only [execInsn, linuxExecInsn]
      cases input.load8 i.k with
      | none => rfl
      | some value => simp only [mask_shiftLeft_two]
  | tax => exact absurd rfl notTax
  | txa => exact absurd rfl notTxa
  | _ => rfl

theorem execFrom_eq_linuxExecFrom {insns : List BPFInstruction} (input : InputBytes)
    (noTransfers : ∀ i ∈ insns, decode i.opCode ≠ some .tax ∧ decode i.opCode ≠ some .txa) :
    ∀ (fuel pc : Nat) (machine : Machine),
      execFrom insns input fuel pc machine = linuxExecFrom insns input fuel pc machine
  | 0, _, _ => rfl
  | fuel + 1, pc, machine => by
      rw [execFrom_succ, linuxExecFrom_succ]
      cases fetched : insns[pc]? with
      | none => rfl
      | some i =>
          have transfers := noTransfers i (List.mem_of_getElem? fetched)
          dsimp only
          cases decoded : decode i.opCode with
          | none => rfl
          | some form =>
              have notTax : form ≠ .tax := fun same => transfers.1 (by rw [decoded, same])
              have notTxa : form ≠ .txa := fun same => transfers.2 (by rw [decoded, same])
              dsimp only
              rw [← execInsn_eq_linuxExecInsn input machine i notTax notTxa]
              cases execInsn input machine i form with
              | next machine offset => exact execFrom_eq_linuxExecFrom input noTransfers fuel _ machine
              | returned value => rfl
              | failed code => rfl

theorem exec_eq_linuxExec (p : Program) (input : InputBytes)
    (noTransfers : ∀ i ∈ p.instructions, decode i.opCode ≠ some .tax ∧ decode i.opCode ≠ some .txa) :
    exec p input = linuxExec p input :=
  execFrom_eq_linuxExecFrom input noTransfers _ _ _

/-- `A = 5; TAX; RET A`. -/
def taxProgram : List BPFInstruction :=
  [stmt (Code.ld ||| Code.imm ||| Code.w) 5, stmt (Code.misc ||| Code.tax) 0, stmt (Code.ret ||| Code.a) 0]

/-- `Compile` accepts `A = 5; TAX; RET A`; Linux copies A into X and returns
5, `Exec` copies X into A and returns 0. -/
theorem exec_tax_differs_from_linux :
    ∃ p, compile taxProgram = .ok p ∧ exec p ⟨[]⟩ = .ok 0 ∧ linuxExec p ⟨[]⟩ = .ok 5 :=
  ⟨⟨taxProgram, by decide⟩, rfl, by decide, by decide⟩

end Cijitter.Bpf
