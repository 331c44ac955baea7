import Cijitter.Lib.Bytes
import Mathlib

/-! gVisor's classic BPF virtual machine (`pkg/bpf`): the instruction word of
`linux.BPFInstruction`, `Compile`'s validation, and `Exec` over an input of
bytes (`InputBytes` in little-endian order, as seccomp data is marshalled).
`Exec` switches on the whole opcode; here that switch is `decode` into the
instruction forms it lists, followed by a match on the form. -/

set_option autoImplicit false

namespace Cijitter.Bpf

structure BPFInstruction where
  opCode : UInt16
  jumpIfTrue : UInt8
  jumpIfFalse : UInt8
  k : UInt32
  deriving DecidableEq, Repr

def stmt (code : UInt16) (k : UInt32) : BPFInstruction :=
  ⟨code, 0, 0, k⟩

def jump (code : UInt16) (k : UInt32) (jt jf : UInt8) : BPFInstruction :=
  ⟨code, jt, jf, k⟩

def maxInstructions : Nat := 4096

def scratchMemRegisters : Nat := 16

-- The fields of an opcode (`bpf.go`): class, load size and mode, source,
-- and the ALU and jump operations.
namespace Code

def ld : UInt16 := 0x00
def ldx : UInt16 := 0x01
def st : UInt16 := 0x02
def stx : UInt16 := 0x03
def alu : UInt16 := 0x04
def jmp : UInt16 := 0x05
def ret : UInt16 := 0x06
def misc : UInt16 := 0x07
def instructionClassMask : UInt16 := 0x07

def w : UInt16 := 0x00
def h : UInt16 := 0x08
def b : UInt16 := 0x10
def loadSizeMask : UInt16 := 0x18

def imm : UInt16 := 0x00
def abs : UInt16 := 0x20
def ind : UInt16 := 0x40
def mem : UInt16 := 0x60
def len : UInt16 := 0x80
def msh : UInt16 := 0xa0
def loadModeMask : UInt16 := 0xe0

def k : UInt16 := 0x00
def x : UInt16 := 0x08
def a : UInt16 := 0x10
def srcAluJmpMask : UInt16 := 0x08
def srcRetMask : UInt16 := 0x18

def add : UInt16 := 0x00
def sub : UInt16 := 0x10
def mul : UInt16 := 0x20
def div : UInt16 := 0x30
def or : UInt16 := 0x40
def and : UInt16 := 0x50
def lsh : UInt16 := 0x60
def rsh : UInt16 := 0x70
def neg : UInt16 := 0x80
def mod : UInt16 := 0x90
def xor : UInt16 := 0xa0
def aluMask : UInt16 := 0xf0

def ja : UInt16 := 0x00
def jeq : UInt16 := 0x10
def jgt : UInt16 := 0x20
def jge : UInt16 := 0x30
def jset : UInt16 := 0x40
def jmpMask : UInt16 := 0xf0

def tax : UInt16 := 0x00
def txa : UInt16 := 0x80
def miscMask : UInt16 := 0xf8

def unusedBitsMask : UInt16 := 0xff00
def storeUnusedBitsMask : UInt16 := 0xf8
def retUnusedBitsMask : UInt16 := 0xe0

end Code

open Code

inductive ErrorCode where
  | divisionByZero
  | invalidEndOfProgram
  | invalidInstructionCount
  | invalidJumpTarget
  | invalidLoad
  | invalidOpcode
  | invalidRegister
  deriving DecidableEq, Repr

structure Error where
  code : ErrorCode
  pc : Nat
  deriving DecidableEq, Repr

/-- `Compile`'s check of the instruction at `pc` in a program of `length`. -/
def checkInstruction (length pc : Nat) (i : BPFInstruction) : Option ErrorCode :=
  let op := i.opCode
  if op &&& unusedBitsMask ≠ 0 then some .invalidOpcode
  else
    let mode := op &&& loadModeMask
    let cls := op &&& instructionClassMask
    if cls = ld then
      let size := op &&& loadSizeMask
      if size = w then
        if mode ≠ imm ∧ mode ≠ abs ∧ mode ≠ ind ∧ mode ≠ mem ∧ mode ≠ len then some .invalidOpcode
        else if mode = mem ∧ scratchMemRegisters ≤ i.k.toNat then some .invalidRegister
        else none
      else if size = h ∨ size = b then
        if mode ≠ abs ∧ mode ≠ ind then some .invalidOpcode else none
      else some .invalidOpcode
    else if cls = ldx then
      let size := op &&& loadSizeMask
      if size = w then
        if mode ≠ imm ∧ mode ≠ mem ∧ mode ≠ len then some .invalidOpcode
        else if mode = mem ∧ scratchMemRegisters ≤ i.k.toNat then some .invalidRegister
        else none
      else if size = b then
        if mode ≠ msh then some .invalidOpcode else none
      else some .invalidOpcode
    else if cls = st ∨ cls = stx then
      if op &&& storeUnusedBitsMask ≠ 0 then some .invalidOpcode
      else if scratchMemRegisters ≤ i.k.toNat then some .invalidRegister
      else none
    else if cls = alu then
      let aluOp := op &&& aluMask
      if aluOp ∈ [add, sub, mul, or, and, lsh, rsh, xor] then none
      else if aluOp = div ∨ aluOp = mod then
        if op &&& srcAluJmpMask = k ∧ i.k = 0 then some .divisionByZero else none
      else if aluOp = neg then
        if op &&& srcAluJmpMask ≠ 0 then some .invalidOpcode else none
      else some .invalidOpcode
    else if cls = jmp then
      let jmpOp := op &&& jmpMask
      if jmpOp = ja then
        if op &&& srcAluJmpMask ≠ 0 then some .invalidOpcode
        else if length ≤ pc + i.k.toNat + 1 then some .invalidJumpTarget
        else none
      else if jmpOp ∈ [jeq, jgt, jge, jset] then
        if length ≤ pc + i.jumpIfTrue.toNat + 1 then some .invalidJumpTarget
        else if length ≤ pc + i.jumpIfFalse.toNat + 1 then some .invalidJumpTarget
        else none
      else some .invalidOpcode
    else if cls = ret then
      if op &&& retUnusedBitsMask ≠ 0 then some .invalidOpcode
      else if op &&& srcRetMask ≠ k ∧ op &&& srcRetMask ≠ a then some .invalidOpcode
      else none
    else
      if op &&& miscMask ≠ tax ∧ op &&& miscMask ≠ txa then some .invalidOpcode else none

/-- The first instruction from `pc` on that `Compile` rejects. -/
def firstInvalid (length : Nat) : Nat → List BPFInstruction → Option Error
  | _, [] => none
  | pc, i :: rest =>
      match checkInstruction length pc i with
      | some code => some ⟨code, pc⟩
      | none => firstInvalid length (pc + 1) rest

/-- `Compile` without building the `Program`: the error it returns, if any. -/
def validate (insns : List BPFInstruction) : Option Error :=
  if insns.length = 0 ∨ maxInstructions < insns.length then
    some ⟨.invalidInstructionCount, insns.length⟩
  else
    match insns.getLast? with
    | some last =>
        if last.opCode ≠ ret ||| k ∧ last.opCode ≠ ret ||| a then
          some ⟨.invalidEndOfProgram, insns.length - 1⟩
        else firstInvalid insns.length 0 insns
    | none => some ⟨.invalidInstructionCount, 0⟩

/-- `bpf.Program`: instructions that `Compile` accepted. -/
structure Program where
  instructions : List BPFInstruction
  valid : validate instructions = none

def compile (insns : List BPFInstruction) : Except Error Program :=
  match accepted : validate insns with
  | none => .ok ⟨insns, accepted⟩
  | some e => .error e

/-- `InputBytes` with little-endian order. -/
structure InputBytes where
  data : List UInt8

def InputBytes.load (input : InputBytes) (width : Nat) (off : UInt32) : Option Nat :=
  if input.data.length < off.toNat + width then none
  else some (Bytes.leValue ((input.data.drop off.toNat).take width))

def InputBytes.load32 (input : InputBytes) (off : UInt32) : Option UInt32 :=
  (input.load 4 off).map UInt32.ofNat

def InputBytes.load16 (input : InputBytes) (off : UInt32) : Option UInt32 :=
  (input.load 2 off).map UInt32.ofNat

def InputBytes.load8 (input : InputBytes) (off : UInt32) : Option UInt32 :=
  (input.load 1 off).map UInt32.ofNat

def InputBytes.length (input : InputBytes) : UInt32 :=
  UInt32.ofNat input.data.length

structure Machine where
  a : UInt32
  x : UInt32
  m : Nat → UInt32

def Machine.init : Machine :=
  ⟨0, 0, fun _ => 0⟩

inductive Src where
  | k
  | x
  deriving DecidableEq, Repr

inductive AluOp where
  | add | sub | mul | div | or | and | lsh | rsh | mod | xor
  deriving DecidableEq, Repr

inductive JmpOp where
  | jeq | jgt | jge | jset
  deriving DecidableEq, Repr

/-- The instruction forms of `Exec`'s switch. -/
inductive Insn where
  | ldImmW
  | ldAbs (width : Nat)
  | ldInd (width : Nat)
  | ldMemW
  | ldLenW
  | ldxImmW
  | ldxMemW
  | ldxLenW
  | ldxMshB
  | st
  | stx
  | alu (op : AluOp) (src : Src)
  | aluNeg
  | ja
  | jmp (op : JmpOp) (src : Src)
  | retK
  | retA
  | tax
  | txa
  deriving DecidableEq, Repr

def Src.code : Src → UInt16
  | .k => Code.k
  | .x => Code.x

def AluOp.code : AluOp → UInt16
  | .add => Code.add | .sub => Code.sub | .mul => Code.mul | .div => Code.div
  | .or => Code.or | .and => Code.and | .lsh => Code.lsh | .rsh => Code.rsh
  | .mod => Code.mod | .xor => Code.xor

def JmpOp.code : JmpOp → UInt16
  | .jeq => Code.jeq | .jgt => Code.jgt | .jge => Code.jge | .jset => Code.jset

def widthCode : Nat → UInt16
  | 4 => w
  | 2 => h
  | _ => b

def Insn.code : Insn → UInt16
  | .ldImmW => Code.ld ||| Code.imm ||| Code.w
  | .ldAbs width => Code.ld ||| Code.abs ||| widthCode width
  | .ldInd width => Code.ld ||| Code.ind ||| widthCode width
  | .ldMemW => Code.ld ||| Code.mem ||| Code.w
  | .ldLenW => Code.ld ||| Code.len ||| Code.w
  | .ldxImmW => Code.ldx ||| Code.imm ||| Code.w
  | .ldxMemW => Code.ldx ||| Code.mem ||| Code.w
  | .ldxLenW => Code.ldx ||| Code.len ||| Code.w
  | .ldxMshB => Code.ldx ||| Code.msh ||| Code.b
  | .st => Code.st
  | .stx => Code.stx
  | .alu op src => Code.alu ||| op.code ||| src.code
  | .aluNeg => Code.alu ||| Code.neg
  | .ja => Code.jmp ||| Code.ja
  | .jmp op src => Code.jmp ||| op.code ||| src.code
  | .retK => Code.ret ||| Code.k
  | .retA => Code.ret ||| Code.a
  | .tax => Code.misc ||| Code.tax
  | .txa => Code.misc ||| Code.txa

def aluOps : List AluOp :=
  [.add, .sub, .mul, .div, .or, .and, .lsh, .rsh, .mod, .xor]

def jmpOps : List JmpOp :=
  [.jeq, .jgt, .jge, .jset]

/-- Every case of `Exec`'s switch. -/
def allInsns : List Insn :=
  ([.ldImmW, .ldAbs 4, .ldAbs 2, .ldAbs 1, .ldInd 4, .ldInd 2, .ldInd 1, .ldMemW, .ldLenW,
    .ldxImmW, .ldxMemW, .ldxLenW, .ldxMshB, .st, .stx] : List Insn) ++
  (aluOps.flatMap fun op => ([.alu op .k, .alu op .x] : List Insn)) ++
  ([.aluNeg, .ja] : List Insn) ++
  (jmpOps.flatMap fun op => ([.jmp op .k, .jmp op .x] : List Insn)) ++
  ([.retK, .retA, .tax, .txa] : List Insn)

def decode (opCode : UInt16) : Option Insn :=
  allInsns.find? fun form => form.code = opCode

/-- Go's `<<` and `>>` on `uint32`: a shift by 32 or more gives zero. -/
def shiftLeft (value count : UInt32) : UInt32 :=
  if count.toNat < 32 then value <<< count else 0

def shiftRight (value count : UInt32) : UInt32 :=
  if count.toNat < 32 then value >>> count else 0

def AluOp.apply : AluOp → UInt32 → UInt32 → UInt32
  | .add, a, v => a + v
  | .sub, a, v => a - v
  | .mul, a, v => a * v
  | .div, a, v => a / v
  | .or, a, v => a ||| v
  | .and, a, v => a &&& v
  | .lsh, a, v => shiftLeft a v
  | .rsh, a, v => shiftRight a v
  | .mod, a, v => a % v
  | .xor, a, v => a ^^^ v

def JmpOp.holds : JmpOp → UInt32 → UInt32 → Bool
  | .jeq, a, v => a == v
  | .jgt, a, v => decide (v < a)
  | .jge, a, v => decide (v ≤ a)
  | .jset, a, v => (a &&& v) != 0

/-- What an instruction does: the machine and the offset added to `pc`
before the loop's increment, a returned value, or an error. -/
inductive Outcome where
  | next (machine : Machine) (offset : Nat)
  | returned (value : UInt32)
  | failed (code : ErrorCode)

def loaded (machine : Machine) : Option UInt32 → Outcome
  | some value => .next { machine with a := value } 0
  | none => .failed .invalidLoad

def Src.operand (machine : Machine) (i : BPFInstruction) : Src → UInt32
  | .k => i.k
  | .x => machine.x

def execInsn (input : InputBytes) (machine : Machine) (i : BPFInstruction) : Insn → Outcome
  | .ldImmW => .next { machine with a := i.k } 0
  | .ldAbs 4 => loaded machine (input.load32 i.k)
  | .ldAbs 2 => loaded machine (input.load16 i.k)
  | .ldAbs _ => loaded machine (input.load8 i.k)
  | .ldInd 4 => loaded machine (input.load32 (machine.x + i.k))
  | .ldInd 2 => loaded machine (input.load16 (machine.x + i.k))
  | .ldInd _ => loaded machine (input.load8 (machine.x + i.k))
  | .ldMemW => .next { machine with a := machine.m i.k.toNat } 0
  | .ldLenW => .next { machine with a := input.length } 0
  | .ldxImmW => .next { machine with x := i.k } 0
  | .ldxMemW => .next { machine with x := machine.m i.k.toNat } 0
  | .ldxLenW => .next { machine with x := input.length } 0
  | .ldxMshB =>
      match input.load8 i.k with
      | some value => .next { machine with x := 4 * (value &&& 0xf) } 0
      | none => .failed .invalidLoad
  | .st => .next { machine with m := Function.update machine.m i.k.toNat machine.a } 0
  | .stx => .next { machine with m := Function.update machine.m i.k.toNat machine.x } 0
  | .alu op src =>
      -- Division and modulo by a zero `X` fail at run time; by a zero `K`
      -- they were rejected by `Compile`.
      if (op = .div ∨ op = .mod) ∧ src = .x ∧ machine.x = 0 then .failed .divisionByZero
      else .next { machine with a := op.apply machine.a (src.operand machine i) } 0
  | .aluNeg => .next { machine with a := 0 - machine.a } 0
  | .ja => .next machine i.k.toNat
  | .jmp op src =>
      .next machine
        (if op.holds machine.a (src.operand machine i) then i.jumpIfTrue.toNat else i.jumpIfFalse.toNat)
  | .retK => .returned i.k
  | .retA => .returned machine.a
  | .tax => .next { machine with a := machine.x } 0
  | .txa => .next { machine with x := machine.a } 0

/-- `Exec`'s loop from `pc`. Every instruction moves `pc` forward, so a
program of `n` instructions leaves the loop within `n` iterations; `fuel`
counts them, and runs out only past the end of the program. -/
def execFrom (insns : List BPFInstruction) (input : InputBytes) :
    Nat → Nat → Machine → Except Error UInt32
  | 0, pc, _ => .error ⟨.invalidEndOfProgram, pc⟩
  | fuel + 1, pc, machine =>
      match insns[pc]? with
      | none => .error ⟨.invalidEndOfProgram, pc⟩
      | some i =>
          match decode i.opCode with
          | none => .error ⟨.invalidOpcode, pc⟩
          | some form =>
              match execInsn input machine i form with
              | .next machine offset => execFrom insns input fuel (pc + offset + 1) machine
              | .returned value => .ok value
              | .failed code => .error ⟨code, pc⟩

def exec (p : Program) (input : InputBytes) : Except Error UInt32 :=
  execFrom p.instructions input p.instructions.length 0 Machine.init

end Cijitter.Bpf
