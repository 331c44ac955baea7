import Cijitter.Bpf.ProgramBuilder
import Mathlib

/-! What `ProgramBuilder.Instructions` computes. A label reference names one
field of its jump, `K` for a direct jump and `JumpIfTrue` or `JumpIfFalse` for a
conditional one, and resolving it writes there the offset from the jump to the
label's line. Resolution succeeds only when every label is placed, inside the
program, after each of its uses and within reach of the field; it then patches
exactly the referenced fields. The call sequences a user writes are read in
`Layout`, which records what the calls ask for without the builder's label map:
the instructions, every reference with its line, and the line each label is
placed at. A built builder `Tracks` the layout of its calls, so what
`Instructions` returns is stated over the calls alone. -/

set_option autoImplicit false

namespace Cijitter.Bpf

/-- The field a reference of this kind names, as a number. -/
def JmpType.field : JmpType → BPFInstruction → Nat
  | .jDirect, i => i.k.toNat
  | .jTrue, i => i.jumpIfTrue.toNat
  | .jFalse, i => i.jumpIfFalse.toNat

/-- The largest offset the field holds, which is also the placeholder the
builder leaves in it. -/
def JmpType.limit : JmpType → Nat
  | .jDirect => labelDirectTarget.toNat
  | .jTrue => labelTarget.toNat
  | .jFalse => labelTarget.toNat

def JmpType.patch : JmpType → BPFInstruction → Nat → BPFInstruction
  | .jDirect, i, offset => { i with k := UInt32.ofNat offset }
  | .jTrue, i, offset => { i with jumpIfTrue := UInt8.ofNat offset }
  | .jFalse, i, offset => { i with jumpIfFalse := UInt8.ofNat offset }

namespace JmpType

theorem field_patch_self (jt : JmpType) (i : BPFInstruction) {offset : Nat} (fits : offset ≤ jt.limit) :
    jt.field (jt.patch i offset) = offset := by
  cases jt with
  | jDirect =>
      simp only [limit, labelDirectTarget, UInt32.reduceToNat] at fits
      simp only [field, patch, UInt32.toNat_ofNat']
      omega
  | jTrue =>
      simp only [limit, labelTarget, UInt8.reduceToNat] at fits
      simp only [field, patch, UInt8.toNat_ofNat']
      omega
  | jFalse =>
      simp only [limit, labelTarget, UInt8.reduceToNat] at fits
      simp only [field, patch, UInt8.toNat_ofNat']
      omega

theorem field_patch_of_ne {jt other : JmpType} (differ : other ≠ jt) (i : BPFInstruction) (offset : Nat) :
    other.field (jt.patch i offset) = other.field i := by
  cases jt <;> cases other <;> first | exact absurd rfl differ | rfl

theorem opCode_patch (jt : JmpType) (i : BPFInstruction) (offset : Nat) : (jt.patch i offset).opCode = i.opCode := by
  cases jt <;> rfl

end JmpType

namespace ProgramBuilder

variable {L : Type}

/-! ### Resolving the references to one label -/

section Resolution

variable [ToString L]

/-- `inst'` is `inst`, at line `idx`, with each field that `sources` names set
to its offset to `target`. -/
structure PatchedAt (target : Nat) (sources : List Source) (idx : Nat) (inst inst' : BPFInstruction) : Prop where
  opCode_eq : inst'.opCode = inst.opCode
  field_eq : ∀ jt : JmpType,
    jt.field inst' = if (⟨idx, jt⟩ : Source) ∈ sources then target - idx - 1 else jt.field inst

/-- `out` is `insns` with the references `sources` to a label at `target`
resolved, each of them inside the program, before the target and within reach. -/
structure Patches (target : Nat) (sources : List Source) (insns out : List BPFInstruction) : Prop where
  length_eq : out.length = insns.length
  fits : ∀ s ∈ sources, s.line < insns.length ∧ s.line < target ∧ target - s.line - 1 ≤ s.jt.limit
  patched : ∀ idx inst, insns[idx]? = some inst → ∃ inst', out[idx]? = some inst' ∧ PatchedAt target sources idx inst inst'

theorem Patches.nil (target : Nat) (insns : List BPFInstruction) : Patches target [] insns insns where
  length_eq := rfl
  fits := fun _ absent => absurd absent List.not_mem_nil
  patched := fun _ inst fetched => ⟨inst, fetched, rfl, fun _ => by simp⟩

theorem Patches.cons {target : Nat} {s : Source} {rest : List Source} {insns mid out : List BPFInstruction}
    (first : Patches target [s] insns mid) (others : Patches target rest mid out) :
    Patches target (s :: rest) insns out where
  length_eq := others.length_eq.trans first.length_eq
  fits := by
    intro s' member
    rcases List.mem_cons.mp member with same | later
    · exact first.fits s' (List.mem_singleton.mpr same)
    · rw [← first.length_eq]
      exact others.fits s' later
  patched := by
    intro idx inst fetched
    obtain ⟨inst', fetched', patched'⟩ := first.patched idx inst fetched
    obtain ⟨inst'', fetched'', patched''⟩ := others.patched idx inst' fetched'
    refine ⟨inst'', fetched'', patched''.opCode_eq.trans patched'.opCode_eq, fun jt => ?_⟩
    rw [patched''.field_eq, patched'.field_eq]
    by_cases later : (⟨idx, jt⟩ : Source) ∈ rest
    · simp [later]
    · by_cases here : (⟨idx, jt⟩ : Source) = s <;> simp [later, here]

theorem resolveSource_eq_ok {key : L} {target : Nat} {insns out : List BPFInstruction} {s : Source}
    (resolved : resolveSource key target insns s = .ok out) :
    ∃ inst, insns[s.line]? = some inst ∧ s.line < target ∧ target - s.line - 1 ≤ s.jt.limit ∧
      out = insns.set s.line (s.jt.patch inst (target - s.line - 1)) := by
  obtain ⟨line, jt⟩ := s
  unfold resolveSource at resolved
  cases fetched : insns[line]? with
  | none =>
      rw [fetched] at resolved
      cases resolved
  | some inst =>
      rw [fetched] at resolved
      dsimp only at resolved
      split at resolved
      · cases resolved
      · rename_i before
        -- the three kinds check the same two conditions on their own field
        cases jt with
        | jDirect =>
            dsimp only at resolved
            split at resolved
            · cases resolved
            · split at resolved
              · cases resolved
              · cases resolved
                exact ⟨inst, rfl, by dsimp only; omega, by simp only [JmpType.limit]; omega, rfl⟩
        | jTrue =>
            dsimp only at resolved
            split at resolved
            · cases resolved
            · split at resolved
              · cases resolved
              · cases resolved
                exact ⟨inst, rfl, by dsimp only; omega, by simp only [JmpType.limit]; omega, rfl⟩
        | jFalse =>
            dsimp only at resolved
            split at resolved
            · cases resolved
            · split at resolved
              · cases resolved
              · cases resolved
                exact ⟨inst, rfl, by dsimp only; omega, by simp only [JmpType.limit]; omega, rfl⟩

theorem Patches.of_resolveSource {key : L} {target : Nat} {insns mid : List BPFInstruction} {s : Source}
    (resolved : resolveSource key target insns s = .ok mid) : Patches target [s] insns mid := by
  obtain ⟨inst, fetched, before, fits, rfl⟩ := resolveSource_eq_ok resolved
  have inside : s.line < insns.length := (List.getElem?_eq_some_iff.mp fetched).1
  refine ⟨List.length_set, ?_, ?_⟩
  · intro s' member
    rw [List.mem_singleton.mp member]
    exact ⟨inside, before, fits⟩
  · intro idx inst0 fetched0
    by_cases here : s.line = idx
    · subst here
      rw [fetched] at fetched0
      cases fetched0
      refine ⟨_, List.getElem?_set_self inside, s.jt.opCode_patch inst _, fun jt => ?_⟩
      by_cases sameKind : jt = s.jt
      · subst sameKind
        rw [if_pos (List.mem_singleton.mpr rfl), JmpType.field_patch_self _ _ fits]
      · have other : (⟨s.line, jt⟩ : Source) ∉ [s] := by
          rw [List.mem_singleton]
          intro same
          exact sameKind (congrArg Source.jt same)
        rw [if_neg other, JmpType.field_patch_of_ne sameKind]
    · refine ⟨inst0, by rw [List.getElem?_set_ne here, fetched0], rfl, fun jt => ?_⟩
      have other : (⟨idx, jt⟩ : Source) ∉ [s] := by
        rw [List.mem_singleton]
        intro same
        exact here (congrArg Source.line same).symm
      rw [if_neg other]

theorem Patches.of_foldlM {key : L} {target : Nat} :
    ∀ (sources : List Source) (insns out : List BPFInstruction),
      sources.foldlM (resolveSource key target) insns = .ok out → Patches target sources insns out
  | [], insns, out, resolved => by
      cases resolved
      exact Patches.nil target insns
  | s :: rest, insns, out, resolved => by
      rw [List.foldlM_cons] at resolved
      cases first : resolveSource key target insns s with
      | error e =>
          rw [first] at resolved
          cases resolved
      | ok mid =>
          rw [first] at resolved
          exact (Patches.of_resolveSource first).cons (Patches.of_foldlM rest mid out resolved)

theorem resolveLabel_eq_ok {insns out : List BPFInstruction} {entry : L × Label}
    (resolved : resolveLabel insns entry = .ok out) :
    ∃ target, entry.2.target = some target ∧ target < insns.length ∧ Patches target entry.2.sources insns out := by
  unfold resolveLabel at resolved
  cases placed : entry.2.target with
  | none =>
      rw [placed] at resolved
      cases resolved
  | some target =>
      rw [placed] at resolved
      dsimp only at resolved
      split at resolved
      · cases resolved
      · rename_i inside
        exact ⟨target, rfl, by omega, Patches.of_foldlM _ insns out resolved⟩

/-! ### Resolving every label -/

/-- No line and field is referenced by two labels. -/
def SourcesDisjoint (labels : List (L × Label)) : Prop :=
  labels.Pairwise fun entry entry' => ∀ s ∈ entry.2.sources, s ∉ entry'.2.sources

/-- `out` is `insns` with every label of `labels` resolved. -/
structure Resolves (labels : List (L × Label)) (insns out : List BPFInstruction) : Prop where
  length_eq : out.length = insns.length
  placed : ∀ entry ∈ labels, ∃ target, entry.2.target = some target ∧ target < insns.length ∧
    ∀ s ∈ entry.2.sources, s.line < target ∧ target - s.line - 1 ≤ s.jt.limit ∧
      out[s.line]?.map s.jt.field = some (target - s.line - 1)
  unchanged : ∀ idx inst, insns[idx]? = some inst → ∃ inst', out[idx]? = some inst' ∧ inst'.opCode = inst.opCode ∧
    ∀ jt : JmpType, (∀ entry ∈ labels, (⟨idx, jt⟩ : Source) ∉ entry.2.sources) → jt.field inst' = jt.field inst

omit [ToString L] in
theorem Resolves.nil (insns : List BPFInstruction) : Resolves ([] : List (L × Label)) insns insns where
  length_eq := rfl
  placed := fun _ absent => absurd absent List.not_mem_nil
  unchanged := fun _ inst fetched => ⟨inst, fetched, rfl, fun _ _ => rfl⟩

omit [ToString L] in
theorem Resolves.cons {entry : L × Label} {rest : List (L × Label)} {target : Nat}
    {insns mid out : List BPFInstruction} (placed : entry.2.target = some target) (inside : target < insns.length)
    (first : Patches target entry.2.sources insns mid) (others : Resolves rest mid out)
    (apart : ∀ entry' ∈ rest, ∀ s ∈ entry.2.sources, s ∉ entry'.2.sources) :
    Resolves (entry :: rest) insns out where
  length_eq := others.length_eq.trans first.length_eq
  placed := by
    intro entry' member
    rcases List.mem_cons.mp member with rfl | later
    · refine ⟨target, placed, inside, fun s referenced => ?_⟩
      obtain ⟨inLine, before, fits⟩ := first.fits s referenced
      obtain ⟨inst, fetched⟩ : ∃ inst, insns[s.line]? = some inst := ⟨_, List.getElem?_eq_getElem inLine⟩
      obtain ⟨inst', fetched', patched'⟩ := first.patched _ inst fetched
      obtain ⟨inst'', fetched'', _, kept⟩ := others.unchanged _ inst' fetched'
      have untouched : ∀ entry' ∈ rest, (⟨s.line, s.jt⟩ : Source) ∉ entry'.2.sources :=
        fun entry' later => apart entry' later s referenced
      refine ⟨before, fits, ?_⟩
      rw [fetched'', Option.map_some, kept s.jt untouched, patched'.field_eq, if_pos referenced]
    · rw [← first.length_eq]
      exact others.placed entry' later
  unchanged := by
    intro idx inst fetched
    obtain ⟨inst', fetched', patched'⟩ := first.patched idx inst fetched
    obtain ⟨inst'', fetched'', sameCode, kept⟩ := others.unchanged idx inst' fetched'
    refine ⟨inst'', fetched'', sameCode.trans patched'.opCode_eq, fun jt unreferenced => ?_⟩
    have notFirst := unreferenced entry List.mem_cons_self
    rw [kept jt fun entry' later => unreferenced entry' (List.mem_cons_of_mem _ later), patched'.field_eq,
      if_neg notFirst]

theorem Resolves.of_foldlM :
    ∀ (labels : List (L × Label)) (insns out : List BPFInstruction), SourcesDisjoint labels →
      labels.foldlM resolveLabel insns = .ok out → Resolves labels insns out
  | [], insns, out, _, resolved => by
      cases resolved
      exact Resolves.nil insns
  | entry :: rest, insns, out, disjoint, resolved => by
      rw [List.foldlM_cons] at resolved
      cases first : resolveLabel insns entry with
      | error e =>
          rw [first] at resolved
          cases resolved
      | ok mid =>
          rw [first] at resolved
          obtain ⟨apart, restDisjoint⟩ := List.pairwise_cons.mp disjoint
          obtain ⟨target, placed, inside, patches⟩ := resolveLabel_eq_ok first
          exact Resolves.cons placed inside patches (Resolves.of_foldlM rest mid out restDisjoint resolved)
            apart

end Resolution

/-! ### The label map -/

section LabelMap

variable [DecidableEq L]

theorem findLabel_eq_none_iff (b : ProgramBuilder L) (name : L) :
    b.findLabel name = none ↔ name ∉ b.labels.map Prod.fst := by
  simp only [findLabel, Option.map_eq_none_iff, List.find?_eq_none, decide_eq_true_eq, List.mem_map]
  constructor
  · rintro unnamed ⟨entry, member, rfl⟩
    exact unnamed entry member rfl
  · intro absent entry member named
    exact absent ⟨entry, member, named⟩

theorem mem_labels_iff {b : ProgramBuilder L} (keysNodup : (b.labels.map Prod.fst).Nodup) (entry : L × Label) :
    entry ∈ b.labels ↔ b.findLabel entry.1 = some entry.2 := by
  constructor
  · intro member
    obtain ⟨found, foundEq⟩ : ∃ found, b.labels.find? (fun e => e.1 = entry.1) = some found :=
      Option.isSome_iff_exists.mp (List.find?_isSome.mpr ⟨entry, member, by simp⟩)
    have sameKey : found.1 = entry.1 := by simpa using List.find?_some foundEq
    have same : found = entry :=
      List.inj_on_of_nodup_map keysNodup (List.mem_of_find?_eq_some foundEq) member sameKey
    rw [findLabel, foundEq, same, Option.map_some]
  · intro found
    obtain ⟨e, foundEq, second⟩ := Option.map_eq_some_iff.mp found
    have sameKey : e.1 = entry.1 := by simpa using List.find?_some foundEq
    have same : e = entry := Prod.ext sameKey second
    exact same ▸ List.mem_of_find?_eq_some foundEq

theorem findLabel_append_new {b : ProgramBuilder L} {name : L} (absent : b.findLabel name = none) (l : Label)
    (name' : L) :
    ({ b with labels := b.labels ++ [(name, l)] } : ProgramBuilder L).findLabel name' =
      if name' = name then some l else b.findLabel name' := by
  by_cases same : name' = name
  · subst same
    simp only [findLabel] at absent
    rw [if_pos rfl, findLabel, List.find?_append, Option.map_eq_none_iff.mp absent]
    simp
  · rw [if_neg same]
    simp only [findLabel, List.find?_append]
    cases (b.labels.find? fun entry => entry.1 = name') with
    | some entry => rfl
    | none => simp [Ne.symm same]

theorem findLabel_setLabel {b : ProgramBuilder L} {name : L} (present : b.findLabel name ≠ none) (l : Label)
    (name' : L) :
    (b.setLabel name l).findLabel name' = if name' = name then some l else b.findLabel name' := by
  -- the replaced entries keep their names, so the search stops at the same entry
  have sameSearch : ((fun entry : L × Label => decide (entry.1 = name')) ∘
      fun entry => if entry.1 = name then (name, l) else entry) = fun entry => decide (entry.1 = name') := by
    funext entry
    by_cases replaced : entry.1 = name <;> simp [replaced]
  simp only [findLabel, setLabel, List.find?_map, sameSearch, Option.map_map]
  cases found : (b.labels.find? fun entry => entry.1 = name') with
  | none =>
      have absent : name' ≠ name := by
        rintro rfl
        simp [findLabel, found] at present
      rw [if_neg absent]
      rfl
  | some entry =>
      have key : entry.1 = name' := by simpa using List.find?_some found
      by_cases same : name' = name
      · simp [key, same]
      · simp [key, same]

theorem keys_setLabel (b : ProgramBuilder L) (name : L) (l : Label) :
    (b.setLabel name l).labels.map Prod.fst = b.labels.map Prod.fst := by
  simp only [setLabel, List.map_map]
  apply List.map_congr_left
  intro entry _
  by_cases replaced : entry.1 = name <;> simp [replaced]

end LabelMap

/-! ### Call sequences and what they ask for -/

/-- A call of one of the builder's methods. -/
inductive Call (L : Type) where
  | addStmt (code : UInt16) (k : UInt32)
  | addJump (code : UInt16) (k : UInt32) (jt jf : UInt8)
  | addDirectJumpLabel (labelName : L)
  | addJumpTrueLabel (code : UInt16) (k : UInt32) (jtLabel : L) (jf : UInt8)
  | addJumpFalseLabel (code : UInt16) (k : UInt32) (jt : UInt8) (jfLabel : L)
  | addJumpLabels (code : UInt16) (k : UInt32) (jtLabel jfLabel : L)
  | addLabel (name : L)

section Calls

variable [DecidableEq L] [ToString L]

/-- One call on a builder. `AddLabel`'s error leaves the builder as it was, and
its caller may go on. -/
def Call.apply (b : ProgramBuilder L) : Call L → ProgramBuilder L
  | .addStmt code k => b.addStmt code k
  | .addJump code k jt jf => b.addJump code k jt jf
  | .addDirectJumpLabel labelName => b.addDirectJumpLabel labelName
  | .addJumpTrueLabel code k jtLabel jf => b.addJumpTrueLabel code k jtLabel jf
  | .addJumpFalseLabel code k jt jfLabel => b.addJumpFalseLabel code k jt jfLabel
  | .addJumpLabels code k jtLabel jfLabel => b.addJumpLabels code k jtLabel jfLabel
  | .addLabel name =>
      match b.addLabel name with
      | .ok b' => b'
      | .error _ => b

theorem Call.apply_addLabel (b : ProgramBuilder L) (name : L) :
    (Call.addLabel name).apply b =
      match b.addLabel name with
      | .ok b' => b'
      | .error _ => b := rfl

/-- `NewProgramBuilder` followed by the calls. -/
def build (calls : List (Call L)) : ProgramBuilder L :=
  calls.foldl Call.apply new

end Calls

/-- What a call sequence asks for: its instructions, with the placeholders in
the labelled fields; each label reference, with the line of its jump and the
field it names; and the line each label is placed at, the one after the first
`AddLabel` of it that follows a use. -/
structure Layout (L : Type) where
  instructions : List BPFInstruction
  references : List (L × Source)
  placement : L → Option Nat

namespace Layout

open Code

variable [DecidableEq L]

def empty : Layout L :=
  ⟨[], [], fun _ => none⟩

def emit (layout : Layout L) (inst : BPFInstruction) : Layout L :=
  { layout with instructions := layout.instructions ++ [inst] }

/-- A reference from the instruction emitted next. -/
def reference (layout : Layout L) (name : L) (jt : JmpType) : Layout L :=
  { layout with references := layout.references ++ [(name, ⟨layout.instructions.length, jt⟩)] }

def place (layout : Layout L) (name : L) : Layout L :=
  if name ∈ layout.references.map Prod.fst ∧ layout.placement name = none then
    { layout with placement := Function.update layout.placement name (some layout.instructions.length) }
  else layout

def step (layout : Layout L) : Call L → Layout L
  | .addStmt code k => layout.emit (stmt code k)
  | .addJump code k jt jf => layout.emit (jump code k jt jf)
  | .addDirectJumpLabel labelName =>
      (layout.reference labelName .jDirect).emit (jump (jmp ||| ja) labelDirectTarget 0 0)
  | .addJumpTrueLabel code k jtLabel jf => (layout.reference jtLabel .jTrue).emit (jump code k labelTarget jf)
  | .addJumpFalseLabel code k jt jfLabel => (layout.reference jfLabel .jFalse).emit (jump code k jt labelTarget)
  | .addJumpLabels code k jtLabel jfLabel =>
      ((layout.reference jtLabel .jTrue).reference jfLabel .jFalse).emit (jump code k labelTarget labelTarget)
  | .addLabel name => layout.place name

def ofCalls (calls : List (Call L)) : Layout L :=
  calls.foldl step empty

/-- The references to one label, in the order of the calls. -/
def sourcesOf (layout : Layout L) (name : L) : List Source :=
  (layout.references.filter fun ref => ref.1 = name).map Prod.snd

theorem place_of_placeable {layout : Layout L} {name : L}
    (placeable : name ∈ layout.references.map Prod.fst ∧ layout.placement name = none) :
    layout.place name =
      { layout with placement := Function.update layout.placement name (some layout.instructions.length) } :=
  if_pos placeable

theorem place_of_not {layout : Layout L} {name : L}
    (taken : ¬(name ∈ layout.references.map Prod.fst ∧ layout.placement name = none)) : layout.place name = layout :=
  if_neg taken

theorem mem_sourcesOf (layout : Layout L) (name : L) (s : Source) :
    s ∈ layout.sourcesOf name ↔ (name, s) ∈ layout.references := by
  simp only [sourcesOf, List.mem_map, List.mem_filter, decide_eq_true_eq]
  constructor
  · rintro ⟨⟨name', s'⟩, ⟨member, rfl⟩, rfl⟩
    exact member
  · intro member
    exact ⟨(name, s), ⟨member, rfl⟩, rfl⟩

theorem sourcesOf_reference (layout : Layout L) (name : L) (jt : JmpType) (name' : L) :
    (layout.reference name jt).sourcesOf name' =
      layout.sourcesOf name' ++ if name = name' then [⟨layout.instructions.length, jt⟩] else [] := by
  by_cases same : name = name' <;> simp [sourcesOf, reference, same]

theorem sourcesOf_eq_nil {layout : Layout L} {name : L} (unused : name ∉ layout.references.map Prod.fst) :
    layout.sourcesOf name = [] := by
  apply List.eq_nil_iff_forall_not_mem.mpr
  intro s member
  exact unused (List.mem_map.mpr ⟨_, (mem_sourcesOf layout name s).mp member, rfl⟩)

/-- What every layout of calls satisfies: a field is referenced once, from a
line already emitted, and only used labels are placed. -/
structure Valid (layout : Layout L) : Prop where
  references_nodup : (layout.references.map Prod.snd).Nodup
  references_lt : ∀ ref ∈ layout.references, ref.2.line < layout.instructions.length
  unplaced : ∀ name, name ∉ layout.references.map Prod.fst → layout.placement name = none

omit [DecidableEq L] in
theorem valid_empty : (empty : Layout L).Valid :=
  ⟨List.nodup_nil, fun _ absent => absurd absent List.not_mem_nil, fun _ _ => rfl⟩

omit [DecidableEq L] in
theorem Valid.emit_with {layout : Layout L} (valid : layout.Valid) (extra : List (L × Source))
    (fromNext : ∀ ref ∈ extra, ref.2.line = layout.instructions.length) (distinct : (extra.map Prod.snd).Nodup)
    (inst : BPFInstruction) :
    (⟨layout.instructions ++ [inst], layout.references ++ extra, layout.placement⟩ : Layout L).Valid where
  references_nodup := by
    rw [List.map_append, List.nodup_append]
    refine ⟨valid.references_nodup, distinct, ?_⟩
    intro s old s' new same
    obtain ⟨ref, member, rfl⟩ := List.mem_map.mp old
    obtain ⟨ref', member', rfl⟩ := List.mem_map.mp new
    have earlier := valid.references_lt ref member
    have next := fromNext ref' member'
    rw [same] at earlier
    omega
  references_lt := by
    intro ref member
    rw [List.length_append, List.length_singleton]
    rcases List.mem_append.mp member with old | new
    · have := valid.references_lt ref old
      omega
    · have := fromNext ref new
      omega
  unplaced := by
    intro name unused
    apply valid.unplaced name
    intro used
    exact unused (List.map_append ▸ List.mem_append_left _ used)

omit [DecidableEq L] in
theorem Valid.emit {layout : Layout L} (valid : layout.Valid) (inst : BPFInstruction) : (layout.emit inst).Valid := by
  have emitted := valid.emit_with [] (fun _ absent => absurd absent List.not_mem_nil) List.nodup_nil inst
  rwa [List.append_nil] at emitted

theorem Valid.place {layout : Layout L} (valid : layout.Valid) (name : L) : (layout.place name).Valid := by
  unfold Layout.place
  split
  · rename_i placeable
    refine ⟨valid.references_nodup, valid.references_lt, fun name' unused => ?_⟩
    dsimp only at unused ⊢
    have differ : name' ≠ name := fun same => unused (same ▸ placeable.1)
    rw [Function.update_of_ne differ]
    exact valid.unplaced name' unused
  · exact valid

theorem Valid.step {layout : Layout L} (valid : layout.Valid) : ∀ call : Call L, (layout.step call).Valid
  | .addStmt code k => valid.emit (stmt code k)
  | .addJump code k jt jf => valid.emit (jump code k jt jf)
  | .addDirectJumpLabel labelName =>
      valid.emit_with [(labelName, ⟨layout.instructions.length, .jDirect⟩)] (by simp) (List.nodup_singleton _)
        (jump (jmp ||| ja) labelDirectTarget 0 0)
  | .addJumpTrueLabel code k jtLabel jf =>
      valid.emit_with [(jtLabel, ⟨layout.instructions.length, .jTrue⟩)] (by simp) (List.nodup_singleton _)
        (jump code k labelTarget jf)
  | .addJumpFalseLabel code k jt jfLabel =>
      valid.emit_with [(jfLabel, ⟨layout.instructions.length, .jFalse⟩)] (by simp) (List.nodup_singleton _)
        (jump code k jt labelTarget)
  | .addJumpLabels code k jtLabel jfLabel => by
      -- both references are from the one jump, in its two fields
      have both := valid.emit_with [(jtLabel, ⟨layout.instructions.length, .jTrue⟩),
        (jfLabel, ⟨layout.instructions.length, .jFalse⟩)] (by simp) (by simp) (jump code k labelTarget labelTarget)
      simpa only [Layout.step, Layout.reference, Layout.emit, List.append_assoc, List.cons_append, List.nil_append,
        List.length_append, List.length_singleton] using both
  | .addLabel name => valid.place name

end Layout

/-! ### A built builder tracks the layout of its calls -/

section Tracking

variable [DecidableEq L] [ToString L]

/-- The builder holds the layout's instructions and one entry for each used
label, with the label's references and placement. -/
structure Tracks (b : ProgramBuilder L) (layout : Layout L) : Prop where
  instructions_eq : b.instructions = layout.instructions
  keys_nodup : (b.labels.map Prod.fst).Nodup
  findLabel_eq : ∀ name, b.findLabel name =
    if name ∈ layout.references.map Prod.fst then some ⟨layout.sourcesOf name, layout.placement name⟩ else none

omit [ToString L] in
theorem tracks_new : Tracks (new : ProgramBuilder L) Layout.empty :=
  ⟨rfl, List.nodup_nil, fun name => by simp [findLabel, new, Layout.empty]⟩

omit [ToString L] in
theorem Tracks.emit {b : ProgramBuilder L} {layout : Layout L} (tracks : Tracks b layout) (inst : BPFInstruction) :
    Tracks { b with instructions := b.instructions ++ [inst] } (layout.emit inst) :=
  ⟨by rw [tracks.instructions_eq]; rfl, tracks.keys_nodup, tracks.findLabel_eq⟩

omit [ToString L] in
theorem Tracks.findLabel_of_used {b : ProgramBuilder L} {layout : Layout L} (tracks : Tracks b layout) {name : L}
    (used : name ∈ layout.references.map Prod.fst) :
    b.findLabel name = some ⟨layout.sourcesOf name, layout.placement name⟩ := by
  rw [tracks.findLabel_eq, if_pos used]

omit [ToString L] in
theorem Tracks.findLabel_of_unused {b : ProgramBuilder L} {layout : Layout L} (tracks : Tracks b layout)
    {name : L} (unused : name ∉ layout.references.map Prod.fst) : b.findLabel name = none := by
  rw [tracks.findLabel_eq, if_neg unused]

omit [ToString L] in
theorem Tracks.addLabelSource {b : ProgramBuilder L} {layout : Layout L} (tracks : Tracks b layout)
    (unplaced : ∀ name, name ∉ layout.references.map Prod.fst → layout.placement name = none) (name : L)
    (jt : JmpType) : Tracks (b.addLabelSource name jt) (layout.reference name jt) := by
  have line : b.instructions.length = layout.instructions.length := by rw [tracks.instructions_eq]
  have keys : (layout.reference name jt).references.map Prod.fst = layout.references.map Prod.fst ++ [name] := by
    simp [Layout.reference]
  have named : name ∈ (layout.reference name jt).references.map Prod.fst := by
    rw [keys]
    exact List.mem_append_right _ (List.mem_singleton_self _)
  -- the other labels keep their entries
  have others : ∀ name', name' ≠ name →
      b.findLabel name' = if name' ∈ (layout.reference name jt).references.map Prod.fst then
        some ⟨(layout.reference name jt).sourcesOf name', (layout.reference name jt).placement name'⟩ else none := by
    intro name' same
    rw [keys, Layout.sourcesOf_reference, if_neg (Ne.symm same), List.append_nil, tracks.findLabel_eq]
    by_cases old : name' ∈ layout.references.map Prod.fst
    · rw [if_pos (List.mem_append_left _ old), if_pos old]
      rfl
    · rw [if_neg old, if_neg]
      simp [old, same]
  unfold ProgramBuilder.addLabelSource
  by_cases used : name ∈ layout.references.map Prod.fst
  · rw [tracks.findLabel_of_used used]
    refine ⟨tracks.instructions_eq, by rw [keys_setLabel]; exact tracks.keys_nodup, fun name' => ?_⟩
    rw [findLabel_setLabel (by rw [tracks.findLabel_of_used used]; exact Option.some_ne_none _)]
    by_cases same : name' = name
    · subst same
      rw [if_pos rfl, if_pos named, Layout.sourcesOf_reference, if_pos rfl, line]
      rfl
    · rw [if_neg same, others name' same]
  · rw [tracks.findLabel_of_unused used]
    refine ⟨tracks.instructions_eq, ?_, fun name' => ?_⟩
    · rw [List.map_append, List.map_singleton, ← List.concat_eq_append, List.nodup_concat]
      exact ⟨(findLabel_eq_none_iff b name).mp (tracks.findLabel_of_unused used), tracks.keys_nodup⟩
    · rw [findLabel_append_new (tracks.findLabel_of_unused used)]
      by_cases same : name' = name
      · subst same
        rw [if_pos rfl, if_pos named, Layout.sourcesOf_reference, if_pos rfl, Layout.sourcesOf_eq_nil used,
          List.nil_append, line]
        show _ = some (⟨_, layout.placement name'⟩ : Label)
        rw [unplaced name' used]
      · rw [if_neg same, others name' same]

omit [DecidableEq L] [ToString L] in
theorem unplaced_reference {layout : Layout L}
    (unplaced : ∀ name, name ∉ layout.references.map Prod.fst → layout.placement name = none) (name : L)
    (jt : JmpType) : ∀ name', name' ∉ (layout.reference name jt).references.map Prod.fst →
      (layout.reference name jt).placement name' = none := by
  intro name' unused
  apply unplaced name'
  intro used
  exact unused (by simp only [Layout.reference, List.map_append]; exact List.mem_append_left _ used)

theorem Tracks.addLabel {b : ProgramBuilder L} {layout : Layout L} (tracks : Tracks b layout) (name : L) :
    Tracks ((Call.addLabel name).apply b) (layout.place name) := by
  rw [Call.apply_addLabel]
  unfold ProgramBuilder.addLabel
  by_cases used : name ∈ layout.references.map Prod.fst
  · rw [tracks.findLabel_of_used used]
    dsimp only
    cases placed : layout.placement name with
    | some target =>
        rw [Layout.place_of_not (by simp [placed])]
        exact tracks
    | none =>
        rw [Layout.place_of_placeable ⟨used, placed⟩]
        refine ⟨tracks.instructions_eq, by rw [keys_setLabel]; exact tracks.keys_nodup, fun name' => ?_⟩
        rw [findLabel_setLabel (by rw [tracks.findLabel_of_used used]; exact Option.some_ne_none _)]
        dsimp only
        -- placing changes only the placement, and only the placed label's
        by_cases same : name' = name
        · subst same
          rw [if_pos rfl, if_pos used, Function.update_self, tracks.instructions_eq]
          rfl
        · rw [if_neg same, tracks.findLabel_eq, Function.update_of_ne same]
          rfl
  · rw [tracks.findLabel_of_unused used, Layout.place_of_not fun placeable => used placeable.1]
    exact tracks

theorem Tracks.apply {b : ProgramBuilder L} {layout : Layout L} (tracks : Tracks b layout) (valid : layout.Valid) :
    ∀ call : Call L, Tracks (call.apply b) (layout.step call)
  | .addStmt code k => tracks.emit (stmt code k)
  | .addJump code k jt jf => tracks.emit (jump code k jt jf)
  | .addDirectJumpLabel labelName =>
      (tracks.addLabelSource valid.unplaced labelName .jDirect).emit (jump (Code.jmp ||| Code.ja) labelDirectTarget 0 0)
  | .addJumpTrueLabel code k jtLabel jf =>
      (tracks.addLabelSource valid.unplaced jtLabel .jTrue).emit (jump code k labelTarget jf)
  | .addJumpFalseLabel code k jt jfLabel =>
      (tracks.addLabelSource valid.unplaced jfLabel .jFalse).emit (jump code k jt labelTarget)
  | .addJumpLabels code k jtLabel jfLabel =>
      ((tracks.addLabelSource valid.unplaced jtLabel .jTrue).addLabelSource
        (unplaced_reference valid.unplaced jtLabel .jTrue) jfLabel .jFalse).emit
        (jump code k labelTarget labelTarget)
  | .addLabel name => tracks.addLabel name

theorem Tracks.foldl : ∀ (calls : List (Call L)) {b : ProgramBuilder L} {layout : Layout L},
    Tracks b layout → layout.Valid →
      Tracks (calls.foldl Call.apply b) (calls.foldl Layout.step layout) ∧ (calls.foldl Layout.step layout).Valid
  | [], _, _, tracks, valid => ⟨tracks, valid⟩
  | call :: rest, _, _, tracks, valid => Tracks.foldl rest (tracks.apply valid call) (valid.step call)

theorem tracks_build (calls : List (Call L)) :
    Tracks (build calls) (Layout.ofCalls calls) ∧ (Layout.ofCalls calls).Valid :=
  Tracks.foldl calls tracks_new Layout.valid_empty

end Tracking

/-! ### What `Instructions` returns for a call sequence -/

section Instructions

variable [DecidableEq L] [ToString L]

omit [ToString L] in
theorem Tracks.entry_eq {b : ProgramBuilder L} {layout : Layout L} (tracks : Tracks b layout) {entry : L × Label}
    (member : entry ∈ b.labels) :
    entry.1 ∈ layout.references.map Prod.fst ∧ entry.2 = ⟨layout.sourcesOf entry.1, layout.placement entry.1⟩ := by
  have found := (mem_labels_iff tracks.keys_nodup entry).mp member
  rw [tracks.findLabel_eq] at found
  by_cases used : entry.1 ∈ layout.references.map Prod.fst
  · rw [if_pos used] at found
    exact ⟨used, (Option.some.inj found).symm⟩
  · rw [if_neg used] at found
    cases found

omit [ToString L] in
theorem Tracks.mem_labels {b : ProgramBuilder L} {layout : Layout L} (tracks : Tracks b layout) {name : L}
    {s : Source} (referenced : (name, s) ∈ layout.references) :
    (name, (⟨layout.sourcesOf name, layout.placement name⟩ : Label)) ∈ b.labels ∧ s ∈ layout.sourcesOf name := by
  have used : name ∈ layout.references.map Prod.fst := List.mem_map.mpr ⟨_, referenced, rfl⟩
  exact ⟨(mem_labels_iff tracks.keys_nodup _).mpr (tracks.findLabel_of_used used),
    (Layout.mem_sourcesOf _ _ _).mpr referenced⟩

omit [ToString L] in
theorem Tracks.sourcesDisjoint {b : ProgramBuilder L} {layout : Layout L} (tracks : Tracks b layout)
    (valid : layout.Valid) : SourcesDisjoint b.labels := by
  have keysApart : b.labels.Pairwise fun entry entry' => entry.1 ≠ entry'.1 :=
    List.pairwise_map.mp tracks.keys_nodup
  refine keysApart.imp_of_mem fun {entry entry'} member member' apart s fromFirst fromSecond => apart ?_
  rw [(tracks.entry_eq member).2] at fromFirst
  rw [(tracks.entry_eq member').2] at fromSecond
  have first := (Layout.mem_sourcesOf _ _ _).mp fromFirst
  have second := (Layout.mem_sourcesOf _ _ _).mp fromSecond
  exact (Prod.mk.inj (List.inj_on_of_nodup_map valid.references_nodup first second rfl)).1

/-- `out` is the layout's program with every reference resolved: its label is
placed inside the program, after it and within reach of its field, and the
field holds the offset to that line. Every other field is as the calls gave it. -/
structure Layout.Resolved (layout : Layout L) (out : List BPFInstruction) : Prop where
  length_eq : out.length = layout.instructions.length
  placed : ∀ ref ∈ layout.references, ∃ target, layout.placement ref.1 = some target ∧ ref.2.line < target ∧
    target < layout.instructions.length ∧ target - ref.2.line - 1 ≤ ref.2.jt.limit ∧
    out[ref.2.line]?.map ref.2.jt.field = some (target - ref.2.line - 1)
  unchanged : ∀ idx inst, layout.instructions[idx]? = some inst → ∃ inst', out[idx]? = some inst' ∧
    inst'.opCode = inst.opCode ∧
    ∀ jt : JmpType, (∀ name, (name, (⟨idx, jt⟩ : Source)) ∉ layout.references) → jt.field inst' = jt.field inst

theorem resolvedInstructions_build_eq_ok {calls : List (Call L)} {out : List BPFInstruction}
    (resolved : (build calls).resolvedInstructions = .ok out) : (Layout.ofCalls calls).Resolved out := by
  obtain ⟨tracks, valid⟩ := tracks_build calls
  have resolves := Resolves.of_foldlM _ _ _ (tracks.sourcesDisjoint valid) resolved
  refine ⟨by rw [resolves.length_eq, tracks.instructions_eq], ?_, ?_⟩
  · intro ref referenced
    obtain ⟨entry, source⟩ := tracks.mem_labels referenced
    obtain ⟨target, placed, inside, fits⟩ := resolves.placed _ entry
    obtain ⟨before, reach, field⟩ := fits ref.2 source
    exact ⟨target, placed, before, tracks.instructions_eq ▸ inside, reach, field⟩
  · intro idx inst fetched
    obtain ⟨inst', fetched', sameCode, kept⟩ := resolves.unchanged idx inst (tracks.instructions_eq ▸ fetched)
    refine ⟨inst', fetched', sameCode, fun jt unreferenced => kept jt fun entry member fromEntry => ?_⟩
    rw [(tracks.entry_eq member).2] at fromEntry
    exact unreferenced entry.1 ((Layout.mem_sourcesOf _ _ _).mp fromEntry)

/-- A forward conditional jump to a label placed two instructions on. -/
example :
    (build [.addJumpTrueLabel (Code.jmp ||| Code.jeq ||| Code.k) 1 (0 : Nat) 0,
      .addStmt (Code.ret ||| Code.k) 0, .addLabel 0, .addStmt (Code.ret ||| Code.k) 1]).resolvedInstructions =
      .ok [jump (Code.jmp ||| Code.jeq ||| Code.k) 1 1 0, stmt (Code.ret ||| Code.k) 0,
        stmt (Code.ret ||| Code.k) 1] := by
  decide

/-- Resolution is what the calls ask for: on success every labelled field
holds the offset to the line after its label's `AddLabel` and every other
field is as given, and it fails when a used label is not placed, is placed at
the end, before a use, or out of a field's reach. -/
theorem instructions_resolve_labels (calls : List (Call L)) :
    let layout := Layout.ofCalls calls
    (∀ out, (build calls).resolvedInstructions = .ok out →
      out.length = layout.instructions.length ∧
      (∀ ref ∈ layout.references, ∃ target, layout.placement ref.1 = some target ∧
        ref.2.line < target ∧ target < layout.instructions.length ∧
        out[ref.2.line]?.map ref.2.jt.field = some (target - ref.2.line - 1)) ∧
      ∀ idx inst, layout.instructions[idx]? = some inst → ∃ inst', out[idx]? = some inst' ∧
        inst'.opCode = inst.opCode ∧
        ∀ jt : JmpType, (∀ name, (name, (⟨idx, jt⟩ : Source)) ∉ layout.references) →
          jt.field inst' = jt.field inst) ∧
    ∀ ref ∈ layout.references,
      (layout.placement ref.1 = none ∨ ∃ target, layout.placement ref.1 = some target ∧
        (layout.instructions.length ≤ target ∨ target ≤ ref.2.line ∨ ref.2.jt.limit < target - ref.2.line - 1)) →
      ∃ e, (build calls).resolvedInstructions = .error e := by
  dsimp only
  refine ⟨fun out resolved => ?_, fun ref referenced unresolvable => ?_⟩
  · have patched := resolvedInstructions_build_eq_ok resolved
    refine ⟨patched.length_eq, fun ref referenced => ?_, patched.unchanged⟩
    obtain ⟨target, placed, before, inside, _, field⟩ := patched.placed ref referenced
    exact ⟨target, placed, before, inside, field⟩
  · cases result : (build calls).resolvedInstructions with
    | error e => exact ⟨e, rfl⟩
    | ok out =>
        -- a successful resolution would have placed the label within reach
        obtain ⟨target, placed, before, inside, reach, _⟩ :=
          (resolvedInstructions_build_eq_ok result).placed ref referenced
        exfalso
        rcases unresolvable with unplaced | ⟨target', placed', wrong⟩
        · rw [placed] at unplaced
          cases unplaced
        · rw [placed] at placed'
          cases placed'
          omega

end Instructions

end ProgramBuilder

end Cijitter.Bpf
