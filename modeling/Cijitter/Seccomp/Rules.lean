import Cijitter.Seccomp.Semantics

/-! `SyscallRules.AddRule` and `SyscallRules.Merge` (`pkg/seccomp/seccomp_rules.go`),
and the invocations a rule map allows: those whose number it maps to an empty
rule list, which allows every argument vector, or to a list with a rule whose
matchers all hold. Both operations keep the empty list's meaning when they
append to it by putting `Rule{}`, whose entries are all `nil`, in front.
Go's maps are values here; `Merge` visits the other map's entries in the
order of its association list, which is one of the orders Go may take. -/

set_option autoImplicit false

namespace Cijitter.Seccomp

/-- `Rule{}`: every entry `nil`. -/
def Rule.empty : Rule := ⟨[], Nat.zero_le _⟩

theorem Rule.empty_matches (d : SeccompData) : Rule.empty.matches d = true := rfl

/-- What one rule list allows: everything when it is empty, otherwise the
invocations one of its rules matches. -/
def rulesAllow (rules : List Rule) (d : SeccompData) : Bool :=
  rules.isEmpty || rules.any (Rule.matches d)

namespace SyscallRules

def allows (sr : SyscallRules) (d : SeccompData) : Bool :=
  match sr.lookup d.nr.toNat with
  | none => false
  | some rules => rulesAllow rules d

/-- "An empty rules means allow all. Honor it when more rules are added." -/
def honorAllowAll (cur : List Rule) : List Rule :=
  if cur.length = 0 then cur ++ [Rule.empty] else cur

/-- `SyscallRules.AddRule`. -/
def addRule (sr : SyscallRules) (sysno : Nat) (r : Rule) : SyscallRules :=
  match sr.lookup sysno with
  | some cur => sr.insert sysno (honorAllowAll cur ++ [r])
  | none => sr.insert sysno [r]

/-- One turn of `Merge`'s loop: unlike `AddRule`, it also replaces an empty
list of the other map by `[]Rule{{}}` before appending it. -/
def mergeEntry (sr : SyscallRules) (sysno : Nat) (rs : List Rule) : SyscallRules :=
  match sr.lookup sysno with
  | some cur =>
      let rs := if rs.length = 0 then [Rule.empty] else rs
      sr.insert sysno (honorAllowAll cur ++ rs)
  | none => sr.insert sysno rs

/-- `SyscallRules.Merge`. -/
def merge (sr other : SyscallRules) : SyscallRules :=
  other.entries.foldl (fun sr entry => mergeEntry sr entry.1 entry.2) sr

theorem allows_insert (sr : SyscallRules) (sysno : Nat) (rules : List Rule) (d : SeccompData) :
    allows (sr.insert sysno rules) d = if d.nr.toNat = sysno then rulesAllow rules d else allows sr d := by
  by_cases same : d.nr.toNat = sysno
  · rw [if_pos same, allows, same, AList.lookup_insert]
  · rw [if_neg same, allows, allows, AList.lookup_insert_ne same]

theorem rulesAllow_honorAllowAll_append (cur : List Rule) {rs : List Rule} (nonempty : rs ≠ [])
    (d : SeccompData) : rulesAllow (honorAllowAll cur ++ rs) d = (rulesAllow cur d || rulesAllow rs d) := by
  have appended : (honorAllowAll cur ++ rs).isEmpty = false := by
    cases rs with
    | nil => exact absurd rfl nonempty
    | cons r rs => simp
  rw [rulesAllow, appended, Bool.false_or, List.any_append, rulesAllow, rulesAllow,
    List.isEmpty_eq_false_iff.mpr nonempty, Bool.false_or]
  cases cur with
  | nil => simp [honorAllowAll, Rule.empty_matches]
  | cons rule rules => simp [honorAllowAll]

theorem allows_addRule (sr : SyscallRules) (sysno : Nat) (r : Rule) (d : SeccompData) :
    allows (sr.addRule sysno r) d = (allows sr d || (d.nr.toNat == sysno && r.matches d)) := by
  have single : rulesAllow [r] d = r.matches d := by simp [rulesAllow]
  unfold addRule
  split
  · rename_i cur found
    rw [allows_insert, rulesAllow_honorAllowAll_append cur (List.cons_ne_nil r []), single]
    by_cases same : d.nr.toNat = sysno
    · rw [if_pos same, allows, same, found]
      simp
    · simp [same]
  · rename_i absent
    rw [allows_insert, single]
    by_cases same : d.nr.toNat = sysno
    · rw [if_pos same, allows, same, absent]
      simp
    · simp [same]

theorem allows_mergeEntry (sr : SyscallRules) (sysno : Nat) (rs : List Rule) (d : SeccompData) :
    allows (sr.mergeEntry sysno rs) d = (allows sr d || (sysno == d.nr.toNat && rulesAllow rs d)) := by
  unfold mergeEntry
  split
  · rename_i cur found
    -- the empty list of the other map becomes `Rule{}`, which allows as much
    have replaced : rulesAllow (if rs.length = 0 then [Rule.empty] else rs) d = rulesAllow rs d := by
      cases rs with
      | nil => rfl
      | cons r rs => rfl
    have nonempty : (if rs.length = 0 then [Rule.empty] else rs) ≠ [] := by
      cases rs with
      | nil => exact List.cons_ne_nil _ _
      | cons r rs => exact List.cons_ne_nil _ _
    rw [allows_insert, rulesAllow_honorAllowAll_append cur nonempty, replaced]
    by_cases same : d.nr.toNat = sysno
    · rw [if_pos same, allows, same, found]
      simp
    · simp [same, Ne.symm same]
  · rename_i absent
    rw [allows_insert]
    by_cases same : d.nr.toNat = sysno
    · rw [if_pos same, allows, same, absent]
      simp
    · simp [same, Ne.symm same]

theorem allows_foldl_mergeEntry (d : SeccompData) :
    ∀ (entries : List (Sigma fun _ : Nat => List Rule)) (sr : SyscallRules),
      allows (entries.foldl (fun sr entry => mergeEntry sr entry.1 entry.2) sr) d =
        (allows sr d || entries.any fun entry => entry.1 == d.nr.toNat && rulesAllow entry.2 d)
  | [], sr => by simp
  | entry :: rest, sr => by
      rw [List.foldl_cons, allows_foldl_mergeEntry d rest, allows_mergeEntry, List.any_cons, Bool.or_assoc]

theorem allows_iff_entries (sr : SyscallRules) (d : SeccompData) :
    allows sr d = sr.entries.any fun entry => entry.1 == d.nr.toNat && rulesAllow entry.2 d := by
  unfold allows
  split
  · rename_i absent
    symm
    rw [List.any_eq_false]
    intro entry member
    have found : entry.2 ∈ sr.lookup entry.1 := AList.mem_lookup_iff.mpr member
    by_cases same : entry.1 = d.nr.toNat
    · rw [same, absent] at found
      exact absurd found (Option.not_mem_none _)
    · simp [same]
  · rename_i rules found
    have member : (⟨d.nr.toNat, rules⟩ : Sigma fun _ : Nat => List Rule) ∈ sr.entries :=
      AList.mem_lookup_iff.mp found
    apply Bool.eq_iff_iff.mpr
    constructor
    · intro allowed
      exact List.any_eq_true.mpr ⟨_, member, by rw [beq_self_eq_true, Bool.true_and]; exact allowed⟩
    · intro any
      obtain ⟨entry, entryMember, holds⟩ := List.any_eq_true.mp any
      simp only [Bool.and_eq_true, beq_iff_eq] at holds
      obtain ⟨same, allowed⟩ := holds
      have again : entry.2 ∈ sr.lookup entry.1 := AList.mem_lookup_iff.mpr entryMember
      rw [same, found, Option.mem_def, Option.some.injEq] at again
      rw [again]
      exact allowed

theorem allows_merge (sr other : SyscallRules) (d : SeccompData) :
    allows (sr.merge other) d = (allows sr d || allows other d) := by
  rw [merge, allows_foldl_mergeEntry, allows_iff_entries other]

/-- `AddRule` and `Merge` compute unions of what the maps allow. -/
theorem addRule_merge_allow_unions (sr other : SyscallRules) (sysno : Nat) (r : Rule) (d : SeccompData) :
    (allows (sr.addRule sysno r) d = true ↔ allows sr d = true ∨ d.nr.toNat = sysno ∧ r.matches d = true) ∧
      (allows (sr.merge other) d = true ↔ allows sr d = true ∨ allows other d = true) := by
  rw [allows_addRule, allows_merge]
  simp

end SyscallRules

end Cijitter.Seccomp
