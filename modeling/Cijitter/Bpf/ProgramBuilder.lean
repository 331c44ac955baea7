import Cijitter.Bpf.Interpreter

/-! `bpf.ProgramBuilder` (`pkg/bpf/program_builder.go`): instructions whose
jump targets are labels, resolved to offsets once the program is complete.
Go keys labels by their names; the builder here is generic in the type of
names, which only need equality and the text errors show. The label map is a
list in order of first use: Go visits its map in an unspecified order, which
only decides which of several errors `Instructions` reports. -/

set_option autoImplicit false

namespace Cijitter.Bpf

open Code

def labelTarget : UInt8 := 255

def labelDirectTarget : UInt32 := 0xFFFFFFFF

inductive JmpType where
  | jDirect
  | jTrue
  | jFalse
  deriving DecidableEq, Repr

structure Source where
  line : Nat
  jt : JmpType
  deriving DecidableEq, Repr

/-- Go's `label`; a `target` of `-1` is `none`. -/
structure Label where
  sources : List Source
  target : Option Nat
  deriving DecidableEq, Repr

structure ProgramBuilder (L : Type) where
  labels : List (L × Label)
  instructions : List BPFInstruction

/-- `%v` of a `linux.BPFInstruction`. -/
def BPFInstruction.format (i : BPFInstruction) : String :=
  "\x7b" ++ toString i.opCode.toNat ++ " " ++ toString i.jumpIfTrue.toNat ++ " " ++
    toString i.jumpIfFalse.toNat ++ " " ++ toString i.k.toNat ++ "\x7d"

namespace ProgramBuilder

variable {L : Type} [DecidableEq L] [ToString L]

def new : ProgramBuilder L :=
  ⟨[], []⟩

def findLabel (b : ProgramBuilder L) (name : L) : Option Label :=
  (b.labels.find? fun entry => entry.1 = name).map Prod.snd

def setLabel (b : ProgramBuilder L) (name : L) (l : Label) : ProgramBuilder L :=
  { b with labels := b.labels.map fun entry => if entry.1 = name then (name, l) else entry }

def addStmt (b : ProgramBuilder L) (code : UInt16) (k : UInt32) : ProgramBuilder L :=
  { b with instructions := b.instructions ++ [stmt code k] }

def addJump (b : ProgramBuilder L) (code : UInt16) (k : UInt32) (jt jf : UInt8) : ProgramBuilder L :=
  { b with instructions := b.instructions ++ [jump code k jt jf] }

def addLabelSource (b : ProgramBuilder L) (labelName : L) (t : JmpType) : ProgramBuilder L :=
  let source : Source := ⟨b.instructions.length, t⟩
  match b.findLabel labelName with
  | none => { b with labels := b.labels ++ [(labelName, ⟨[source], none⟩)] }
  | some l => b.setLabel labelName { l with sources := l.sources ++ [source] }

def addDirectJumpLabel (b : ProgramBuilder L) (labelName : L) : ProgramBuilder L :=
  (b.addLabelSource labelName .jDirect).addJump (jmp ||| ja) labelDirectTarget 0 0

def addJumpTrueLabel (b : ProgramBuilder L) (code : UInt16) (k : UInt32) (jtLabel : L) (jf : UInt8) :
    ProgramBuilder L :=
  (b.addLabelSource jtLabel .jTrue).addJump code k labelTarget jf

def addJumpFalseLabel (b : ProgramBuilder L) (code : UInt16) (k : UInt32) (jt : UInt8) (jfLabel : L) :
    ProgramBuilder L :=
  (b.addLabelSource jfLabel .jFalse).addJump code k jt labelTarget

def addJumpLabels (b : ProgramBuilder L) (code : UInt16) (k : UInt32) (jtLabel jfLabel : L) :
    ProgramBuilder L :=
  ((b.addLabelSource jtLabel .jTrue).addLabelSource jfLabel .jFalse).addJump code k labelTarget labelTarget

def addLabel (b : ProgramBuilder L) (name : L) : Except String (ProgramBuilder L) :=
  match b.findLabel name with
  | none => .error ("Adding a label that hasn't been used is not allowed: " ++ toString name)
  | some l =>
      match l.target with
      | some target =>
          .error ("label \"" ++ toString name ++ "\" target already set: " ++ toString target)
      | none => .ok (b.setLabel name { l with target := some b.instructions.length })

/-- The patch of one reference to the label `key` at `target`. -/
def resolveSource (key : L) (target : Nat) (insns : List BPFInstruction) (s : Source) :
    Except String (List BPFInstruction) :=
  match insns[s.line]? with
  | none => .error "index out of range"
  | some inst =>
      if target ≤ s.line then .error "cannot jump backwards"
      else
        let offset := target - s.line - 1
        let tooLarge := "jump offset to label '" ++ toString key ++ "' is too large: " ++
          toString offset ++ ", inst: " ++ inst.format ++ ", lineno: " ++ toString s.line
        match s.jt with
        | .jDirect =>
            if labelDirectTarget.toNat < offset then .error tooLarge
            else if inst.k ≠ labelDirectTarget then .error "jump target is not a label"
            else .ok (insns.set s.line { inst with k := UInt32.ofNat offset })
        | .jTrue =>
            if labelTarget.toNat < offset then .error tooLarge
            else if inst.jumpIfTrue ≠ labelTarget then .error "jump target is not a label"
            else .ok (insns.set s.line { inst with jumpIfTrue := UInt8.ofNat offset })
        | .jFalse =>
            if labelTarget.toNat < offset then .error tooLarge
            else if inst.jumpIfFalse ≠ labelTarget then .error "jump target is not a label"
            else .ok (insns.set s.line { inst with jumpIfFalse := UInt8.ofNat offset })

def resolveLabel (insns : List BPFInstruction) (entry : L × Label) :
    Except String (List BPFInstruction) :=
  match entry.2.target with
  | none => .error ("label target not set: " ++ toString entry.1)
  | some target =>
      if insns.length ≤ target then .error "target is beyond end of ProgramBuilder"
      else entry.2.sources.foldlM (resolveSource entry.1 target) insns

/-- `Instructions`: the program with every label resolved. -/
def resolvedInstructions (b : ProgramBuilder L) : Except String (List BPFInstruction) :=
  b.labels.foldlM resolveLabel b.instructions

end ProgramBuilder

end Cijitter.Bpf
