import Cijitter.Seccomp.BuildProgram

/-! What a seccomp filter built from rule sets is meant to return, and the
input a filter reads: `seccomp_data` marshalled in little-endian order. -/

set_option autoImplicit false

namespace Cijitter.Seccomp

open Bpf

structure SeccompData where
  nr : UInt32
  arch : UInt32
  instructionPointer : UInt64
  args : Fin 6 → UInt64

/-- `binary.Marshal` of `seccomp_data`: 64 bytes. -/
def SeccompData.asInput (d : SeccompData) : InputBytes :=
  ⟨Bytes.leBytes 4 d.nr.toNat ++ Bytes.leBytes 4 d.arch.toNat ++
    Bytes.leBytes 8 d.instructionPointer.toNat ++
    (List.finRange 6).flatMap fun i => Bytes.leBytes 8 (d.args i).toNat⟩

/-- The value a rule entry constrains: an argument, or for entry `RuleIP`
the instruction pointer. -/
def SeccompData.entry (d : SeccompData) (i : Nat) : UInt64 :=
  if h : i < 6 then d.args ⟨i, h⟩ else d.instructionPointer

def Matcher.holds (value : UInt64) : Matcher → Bool
  | .allowAny => true
  | .allowValue a => value == a
  | .greaterThan a => decide (a < value)

def Rule.matches (d : SeccompData) (rule : Rule) : Bool :=
  rule.args.zipIdx.all fun entry =>
    match entry.1 with
    | none => true
    | some matcher => matcher.holds (d.entry entry.2)

/-- A rule set applies when it has an entry for the system call, its
vsyscall check (bit 63 of the instruction pointer) passes if it asks for
one, and its rule list is empty or has a rule whose matchers all hold. -/
def RuleSet.applies (d : SeccompData) (rs : RuleSet) : Bool :=
  match rs.rules.lookup d.nr.toNat with
  | none => false
  | some rules =>
      (!rs.vsyscall || d.instructionPointer >>> 63 == 1) && (rules.isEmpty || rules.any (Rule.matches d))

/-- The action of the first rule set that applies, or the default action. -/
def expectedAction (rules : List RuleSet) (defaultAction : UInt32) (d : SeccompData) : UInt32 :=
  if d.arch ≠ linuxAuditArch then defaultAction
  else
    match rules.find? (RuleSet.applies d) with
    | some rs => rs.action
    | none => defaultAction

/-- Build, compile and run the filter on `d`; `none` when `BuildProgram`
fails. -/
def runFilter (rules : List RuleSet) (defaultAction : UInt32) (d : SeccompData) :
    Option (Except Error UInt32) :=
  match buildProgram rules defaultAction with
  | .error _ => none
  | .ok insns =>
      match compile insns with
      | .error e => some (.error e)
      | .ok p => some (exec p d.asInput)

/-- Rule set 0 allows system call 2 only from the vsyscall page; rule set 1
traps system call 1. -/
def vsyscallRules : List RuleSet :=
  [⟨AList.insert 2 [] ∅, 0x7fff0000, true⟩, ⟨AList.insert 1 [] ∅, 0x00030000, false⟩]

theorem vsyscall_miss_runs_into_next_node :
    runFilter vsyscallRules 0x80000000 ⟨2, linuxAuditArch, 0x100000000, fun _ => 0⟩ =
        some (.ok 0x00030000) ∧
      expectedAction vsyscallRules 0x80000000 ⟨2, linuxAuditArch, 0x100000000, fun _ => 0⟩ =
        0x80000000 := by
  decide

end Cijitter.Seccomp
