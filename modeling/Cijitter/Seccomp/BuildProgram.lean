import Mathlib
import Cijitter.Bpf.ProgramBuilder
import Cijitter.Lib.GoStrings

/-! The seccomp rule compiler (`pkg/seccomp/seccomp.go`, `seccomp_rules.go`):
`BuildProgram` checks the architecture, finds the system call number in a
balanced search tree over every number any rule set names, and then tries
the rule sets for that number in order, each guarded by a vsyscall check if
it asks for one and followed by its argument checks. -/

set_option autoImplicit false

namespace Cijitter.Seccomp

open Bpf Bpf.Code

/-- The names of the program's labels. Go builds them with `fmt.Sprintf`;
the formats start differently and separate their numbers with `_`, so two
names are equal exactly when these values are. -/
inductive LabelName where
  | defaultLabel
  | index (sysno : Nat)
  | checkArgs (sysno : Nat)
  | vsyscallViolation (ruleSetIdx sysno : Nat)
  | ruleViolation (ruleSetIdx sysno idx : Nat)
  | rule (ruleSetIdx sysno idx : Nat) (name : String)
  deriving DecidableEq, Repr

instance : ToString LabelName where
  toString
    | .defaultLabel => "default_action"
    | .index sysno => "index_" ++ toString sysno
    | .checkArgs sysno => "checkArgs_" ++ toString sysno
    | .vsyscallViolation ruleSetIdx sysno =>
        "vsyscallViolation_" ++ toString ruleSetIdx ++ "_" ++ toString sysno
    | .ruleViolation ruleSetIdx sysno idx =>
        "ruleViolation_" ++ toString ruleSetIdx ++ "_" ++ toString sysno ++ "_" ++ toString idx
    | .rule ruleSetIdx sysno idx name =>
        "rule_" ++ toString ruleSetIdx ++ "_" ++ toString sysno ++ "_" ++ toString idx ++ "_" ++ name

abbrev Builder := ProgramBuilder LabelName

def skipOneInst : UInt8 := 1

def seccompDataOffsetNR : UInt32 := 0
def seccompDataOffsetArch : UInt32 := 4
def seccompDataOffsetIPLow : UInt32 := 8
def seccompDataOffsetIPHigh : UInt32 := 12
def seccompDataOffsetArgs : Nat := 16

def seccompDataOffsetArgLow (i : Nat) : UInt32 :=
  UInt32.ofNat (seccompDataOffsetArgs + i * 8)

def seccompDataOffsetArgHigh (i : Nat) : UInt32 :=
  seccompDataOffsetArgLow i + 4

def linuxAuditArch : UInt32 := 0xc000003e

def ruleIP : Nat := 6

/-- The values a `Rule` entry may hold besides `nil`. -/
inductive Matcher where
  | allowAny
  | allowValue (value : UInt64)
  | greaterThan (value : UInt64)
  deriving DecidableEq, Repr

/-- `Rule`, a `[7]interface{}` of six arguments and the instruction pointer.
Entries past the end of `args` are `nil`, as in a Go literal `Rule{...}`. -/
structure Rule where
  args : List (Option Matcher)
  length_le : args.length ≤ 7
  deriving DecidableEq

abbrev SyscallRules := AList fun _ : Nat => List Rule

structure RuleSet where
  rules : SyscallRules
  action : UInt32
  vsyscall : Bool

/-- `BPFAction.String`. -/
def actionString (a : UInt32) : List Char :=
  let data := toString (a &&& 0xffff).toNat
  let full := a &&& 0xffff0000
  if full = 0x80000000 then "kill process".toList
  else if full = 0 then "kill thread".toList
  else if full = 0x00030000 then ("trap (" ++ data ++ ")").toList
  else if full = 0x00050000 then ("errno (" ++ data ++ ")").toList
  else if full = 0x7ff00000 then ("trace (" ++ data ++ ")").toList
  else if full = 0x7fff0000 then "allow".toList
  else "invalid action: ".toList ++ GoStrings.sprintfHex a.toNat

def syscallName (sysno : Nat) : String :=
  "syscall_" ++ toString sysno

/-- One argument check of rule `ruleidx`: the matcher of entry `i`, and
whether it needs the rule's violation label. -/
def addMatcherCheck (ruleSetIdx sysno ruleidx i : Nat) (p : Builder) : Matcher → Builder × Bool
  | .allowAny => (p, false)
  | .allowValue a =>
      let (offsetLow, offsetHigh) :=
        if i = ruleIP then (seccompDataOffsetIPLow, seccompDataOffsetIPHigh)
        else (seccompDataOffsetArgLow i, seccompDataOffsetArgHigh i)
      let violation := LabelName.ruleViolation ruleSetIdx sysno ruleidx
      let p := (p.addStmt (ld ||| abs ||| w) offsetLow).addJumpFalseLabel (jmp ||| jeq ||| k)
        (a.toUInt32) 0 violation
      let p := (p.addStmt (ld ||| abs ||| w) offsetHigh).addJumpFalseLabel (jmp ||| jeq ||| k)
        ((a >>> 32).toUInt32) 0 violation
      (p, true)
  | .greaterThan a =>
      let (offsetLow, offsetHigh) :=
        if i = ruleIP then (seccompDataOffsetIPLow, seccompDataOffsetIPHigh)
        else (seccompDataOffsetArgLow i, seccompDataOffsetArgHigh i)
      let violation := LabelName.ruleViolation ruleSetIdx sysno ruleidx
      let good := LabelName.rule ruleSetIdx sysno ruleidx ("gt" ++ toString i)
      let high := (a >>> 32).toUInt32
      let p := (p.addStmt (ld ||| abs ||| w) offsetHigh).addJumpFalseLabel (jmp ||| jge ||| k) high 0
        violation
      let p := p.addJumpFalseLabel (jmp ||| jeq ||| k) high 0 good
      let p := (p.addStmt (ld ||| abs ||| w) offsetLow).addJumpFalseLabel (jmp ||| jgt ||| k)
        a.toUInt32 0 violation
      -- Go ignores the error of this `AddLabel`.
      match p.addLabel good with
      | .ok labelled => (labelled, true)
      | .error _ => (p, true)

/-- The checks of one rule, its `Ret` of the action, and the label its
failed checks jump to. -/
def addRuleCheck (action : UInt32) (ruleSetIdx sysno : Nat) (p : Builder) (entry : Rule × Nat) :
    Except String Builder :=
  let (rule, ruleidx) := entry
  let (p, labelled) := rule.args.zipIdx.foldl
    (fun (state : Builder × Bool) (arg : Option Matcher × Nat) =>
      match arg.1 with
      | none => state
      | some matcher =>
          let (p, used) := addMatcherCheck ruleSetIdx sysno ruleidx arg.2 state.1 matcher
          (p, state.2 || used))
    (p, false)
  let p := p.addStmt (ret ||| k) action
  if labelled then p.addLabel (.ruleViolation ruleSetIdx sysno ruleidx) else .ok p

def addSyscallArgsCheck (p : Builder) (rules : List Rule) (action : UInt32) (ruleSetIdx sysno : Nat) :
    Except String Builder :=
  rules.zipIdx.foldlM (addRuleCheck action ruleSetIdx sysno) p

/-- The search tree of `createBST`; `nil` is Go's `nil` child. -/
inductive Node where
  | nil
  | node (value : Nat) (left right : Node)
  deriving DecidableEq, Repr

def Node.label : Node → LabelName
  | .nil => .defaultLabel
  | .node value _ _ => .index value

/-- `createBST`: the middle element at the root, the elements before it on
the left and those after it on the right. The recursion is on `fuel`, which
the length of the slice bounds. -/
def createBST : Nat → List Nat → Node
  | 0, _ => .nil
  | fuel + 1, syscalls =>
      let i := syscalls.length / 2
      match syscalls[i]? with
      | none => .nil
      | some value =>
          .node value (if 0 < i then createBST fuel (syscalls.take i) else .nil)
            (if i + 1 < syscalls.length then createBST fuel (syscalls.drop (i + 1)) else .nil)

/-- The code for rule set `ruleSetIdx` at system call `sysno`; `emitted`
says a blanket action has already been emitted for it. -/
def addRuleSetCheck (sysno : Nat) (state : Builder × Bool) (entry : RuleSet × Nat) :
    Except String (Builder × Bool) := do
  let (p, emitted) := state
  let (rs, ruleSetIdx) := entry
  match rs.rules.lookup sysno with
  | none => pure (p, emitted)
  | some rules =>
      if emitted then
        throw ("unreachable action for " ++ syscallName sysno ++ ": " ++
          String.ofList (['0', 'x'] ++ GoStrings.sprintfHexString (actionString rs.action)) ++
          " (rule set " ++ toString ruleSetIdx ++ ")")
      let p := if rs.vsyscall then
          (p.addStmt (ld ||| abs ||| w) seccompDataOffsetIPHigh).addJumpFalseLabel
            (jmp ||| jset ||| k) 0x80000000 0 (.vsyscallViolation ruleSetIdx sysno)
        else p
      let (p, emitted) ← if rules = [] then pure (p.addStmt (ret ||| k) rs.action, true)
        else do
          let p ← addSyscallArgsCheck p rules rs.action ruleSetIdx sysno
          pure (p, emitted)
      let p ← if rs.vsyscall then p.addLabel (.vsyscallViolation ruleSetIdx sysno) else pure p
      pure (p, emitted)

def buildBSTProgram (rules : List RuleSet) (root : Bool) (sysno : Nat) (left right : Node)
    (p : Builder) : Except String Builder := do
  -- The root is never the target of a jump, so it has no label.
  let p ← if root then pure p else p.addLabel (.index sysno)
  let p := p.addJumpTrueLabel (jmp ||| jeq ||| k) (UInt32.ofNat sysno) (.checkArgs sysno) 0
  let p := if left = .nil ∧ right = .nil then p.addDirectJumpLabel .defaultLabel
    else
      ((p.addJump (jmp ||| jgt ||| k) (UInt32.ofNat sysno) 0 skipOneInst).addDirectJumpLabel
        right.label).addDirectJumpLabel left.label
  let p ← p.addLabel (.checkArgs sysno)
  let (p, emitted) ← rules.zipIdx.foldlM (addRuleSetCheck sysno) (p, false)
  -- Only when no blanket action was emitted does the code end in a jump to
  -- the default action.
  pure (if emitted then p else p.addDirectJumpLabel .defaultLabel)

/-- `node.traverse` with `buildBSTProgram`: a node, then its left subtree,
then its right subtree. -/
def traverse (rules : List RuleSet) : Node → Bool → Builder → Except String Builder
  | .nil, _, p => pure p
  | .node sysno left right, root, p => do
      let p ← buildBSTProgram rules root sysno left right p
      let p ← traverse rules left false p
      traverse rules right false p

def requiredSyscalls (rules : List RuleSet) : List Nat :=
  ((rules.flatMap fun rs => rs.rules.keys).dedup).insertionSort (· ≤ ·)

def buildIndex (rules : List RuleSet) (p : Builder) : Except String Builder :=
  let syscalls := requiredSyscalls rules
  -- `createBST` indexes the middle of an empty slice and panics.
  if syscalls = [] then .error "runtime error: index out of range [0] with length 0"
  else traverse rules (createBST syscalls.length syscalls) true (p.addStmt (ld ||| abs ||| w) seccompDataOffsetNR)

def buildProgram (rules : List RuleSet) (defaultAction : UInt32) :
    Except String (List BPFInstruction) := do
  let p := ((ProgramBuilder.new.addStmt (ld ||| abs ||| w) seccompDataOffsetArch).addJump
    (jmp ||| jeq ||| k) linuxAuditArch skipOneInst 0).addDirectJumpLabel .defaultLabel
  let p ← buildIndex rules p
  let p ← p.addLabel .defaultLabel
  (p.addStmt (ret ||| k) defaultAction).resolvedInstructions

end Cijitter.Seccomp
