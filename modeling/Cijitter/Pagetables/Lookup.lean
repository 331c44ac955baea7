import Mathlib
import Cijitter.Pagetables.WalkerProperties

/-! `Lookup` read against the MMU. The walk over the one page at `addr`
visits, at every level, only the entry for `addr`, and stops at the entry the
hardware walk ends at; `lookupVisitor` reports that entry's address and
options. A super page is visited at the looked-up address itself, so the
offset inside it is never added. -/

set_option autoImplicit false

namespace Cijitter.Pagetables

open Usermem

/-- What the walk finds at one level: nothing below an entry that is not
valid, the entry itself if it is a super page of `size` bytes, and otherwise
what the table it points at holds. -/
def levelLeaf (size : Nat) (e : PTE) (below : Nat → Option (PTE × Nat)) : Option (PTE × Nat) :=
  if !e.valid then none else if e.isSuper then some (e, size) else below e.address

def pteLeaf (pt : PageTables) (table v : Nat) : Option (PTE × Nat) :=
  let pte := pt.entry table (indexAt v pteShift)
  if !pte.valid then none else some (pte, pteSize)

def pmdLeaf (pt : PageTables) (table v : Nat) : Option (PTE × Nat) :=
  levelLeaf pmdSize (pt.entry table (indexAt v pmdShift)) fun child => pteLeaf pt child v

def pudLeaf (pt : PageTables) (table v : Nat) : Option (PTE × Nat) :=
  levelLeaf pudSize (pt.entry table (indexAt v pudShift)) fun child => pmdLeaf pt child v

/-- The entry the MMU walk for `v` ends at, with the size of the memory it
maps. -/
def leaf (pt : PageTables) (v : Nat) : Option (PTE × Nat) :=
  let pgd := pt.entry pt.root (indexAt v pgdShift)
  if !pgd.valid then none else pudLeaf pt pgd.address v

theorem translate_eq_leaf (pt : PageTables) (v : Nat) (aligned : v % pteSize = 0) :
    translate pt v = (leaf pt v).map fun l => (l.1.address + v % l.2, l.1.opts) := by
  simp only [translate, leaf, pudLeaf, pmdLeaf, pteLeaf, levelLeaf]
  split_ifs <;> simp [aligned]

section Bits

theorem pteSize_eq : pteSize = 2 ^ pteShift :=
  Nat.one_shiftLeft pteShift

theorem andNot_two_pow_sub_one (x k : Nat) : andNot x (2 ^ k - 1) = x / 2 ^ k * 2 ^ k := by
  apply Nat.eq_of_testBit_eq
  intro i
  rw [testBit_andNot, Nat.testBit_two_pow_sub_one, ← Nat.shiftRight_eq_div_pow, ← Nat.shiftLeft_eq,
    Nat.testBit_shiftLeft, Nat.testBit_shiftRight]
  by_cases low : i < k
  · simp [low]
  · have high : k + (i - k) = i := by omega
    have le : k ≤ i := by omega
    simp [low, high, le]

theorem lt_next (start k : Nat) : start < next start (1 <<< k) := by
  rw [next, Nat.one_shiftLeft, andNot_two_pow_sub_one]
  exact Nat.lt_div_mul_add (Nat.two_pow_pos k)

theorem indexAt_eq_div_mod (start shift : Nat) : indexAt start shift = start / 2 ^ shift % 2 ^ 9 := by
  have mask : (0x1ff : Nat) = 2 ^ 9 - 1 := rfl
  apply Nat.eq_of_testBit_eq
  intro j
  rw [indexAt, mask, Nat.testBit_shiftRight, Nat.testBit_and, Nat.testBit_shiftLeft,
    Nat.testBit_two_pow_sub_one, Nat.testBit_mod_two_pow, Nat.testBit_div_two_pow]
  simp only [ge_iff_le, Nat.le_add_right, decide_true, Nat.add_sub_cancel_left, Bool.true_and,
    Nat.add_comm j shift]
  rw [Bool.and_comm]

theorem levelFuel (start shift : Nat) : ∃ fuel, entriesPerPage - indexAt start shift = fuel + 1 := by
  have inside : indexAt start shift < entriesPerPage := by
    rw [indexAt_eq_div_mod]
    exact Nat.mod_lt _ (Nat.two_pow_pos 9)
  exact ⟨entriesPerPage - indexAt start shift - 1, by omega⟩

end Bits

@[simp] theorem PageTables.write_entry (pt : PageTables) (table index : Nat) :
    pt.write table index (pt.entry table index) = pt := by
  simp [PageTables.write, PageTables.entry]

section Loops

variable {V : Type} (v : Visitor V)

theorem pteLoop_of_stop_le {table stop start : Nat} (past : stop ≤ start) (fuel index : Nat)
    (w : Walk V) (clear : Nat) :
    pteLoop v table stop fuel index w start clear = .ok (w, start, clear) := by
  cases fuel with
  | zero => rfl
  | succ fuel => rw [pteLoop, if_pos past]

theorem superLoop_of_stop_le {size : Nat} {splitSuper : Bool}
    {lower : Nat → Walk V → Nat → LevelResult V} {table stop start : Nat} (past : stop ≤ start)
    (fuel index : Nat) (w : Walk V) (clear : Nat) :
    superLoop v size splitSuper lower table stop fuel index w start clear =
      .ok (w, start, clear) := by
  cases fuel with
  | zero => rfl
  | succ fuel => rw [superLoop, if_pos past]

theorem pgdLoop_of_stop_le {stop start : Nat} (past : stop ≤ start) (fuel index : Nat)
    (w : Walk V) :
    pgdLoop v stop fuel index w start = .ok (w, start) := by
  cases fuel with
  | zero => rfl
  | succ fuel => rw [pgdLoop, if_pos past]

end Loops

section Lookup

@[simp] theorem lookupVisitor_requiresAlloc : lookupVisitor.requiresAlloc = false := rfl

@[simp] theorem lookupVisitor_requiresSplit : lookupVisitor.requiresSplit = false := rfl

/-- An entry's address is a `uintptr`, so adding nothing to it does not wrap. -/
@[simp] theorem PTE.addrAdd_address_zero (p : PTE) : addrAdd p.address 0 = p.address :=
  addrAdd_zero (UInt64.toNat_lt _)

/-- What `lookupVisitor` holds once the walk from `start` has found `l`. -/
def found (s : LookupVisitor) (start : Nat) : Option (PTE × Nat) → LookupVisitor
  | none => s
  | some (e, _) => { s with physical := addrAdd e.address (addrSub start s.target), opts := e.opts }

theorem lookupVisitor_visit (s : LookupVisitor) (start : Nat) (e : PTE) (size : Nat) :
    lookupVisitor.visit s start e (size - 1) =
      (found s start (if !e.valid then none else some (e, size)), e) := by
  cases valid : e.valid <;> simp [lookupVisitor, found, valid]

/-- A level's loop that ends past `stop` with the tables as they were, the
visitor at `visitor`, and fewer clear entries than a table has, so that the
level above frees nothing. -/
def Settles {V : Type} (r : LevelResult V) (pt : PageTables) (visitor : V) (stop : Nat) : Prop :=
  ∃ start clear,
    r = .ok (⟨pt, visitor⟩, start, clear) ∧ stop ≤ start ∧ clear < entriesPerPage

-- Each level below visits the entry for `start` and then stops: the next
-- entry begins past `start + 1`.

theorem pteLoop_lookup (table start fuel index : Nat) (w : Walk LookupVisitor) :
    Settles (pteLoop lookupVisitor table (start + 1) (fuel + 1) index w start 0) w.pt
      (found w.visitor start
        (let pte := w.pt.entry table index; if !pte.valid then none else some (pte, pteSize)))
      (start + 1) := by
  have past : start + 1 ≤ start + pteSize := Nat.add_le_add_left (by decide) start
  cases valid : (w.pt.entry table index).valid with
  | false =>
      refine ⟨start + pteSize, 1, ?_, past, by decide⟩
      simp [pteLoop, valid, found, pteLoop_of_stop_le lookupVisitor past]
  | true =>
      refine ⟨start + pteSize, 0, ?_, past, by decide⟩
      simp [pteLoop, valid, lookupVisitor_visit, pteLoop_of_stop_le lookupVisitor past]

theorem pteLevel_lookup (table start : Nat) (w : Walk LookupVisitor) :
    Settles (pteLevel lookupVisitor (start + 1) table w start) w.pt
      (found w.visitor start (pteLeaf w.pt table start)) (start + 1) := by
  obtain ⟨fuel, fuel_eq⟩ := levelFuel start pteShift
  simp only [pteLevel, fuel_eq]
  exact pteLoop_lookup table start fuel _ w

theorem superLoop_lookup (size : Nat) (splitSuper : Bool)
    (lower : Nat → Walk LookupVisitor → Nat → LevelResult LookupVisitor)
    (table start fuel index : Nat) (w : Walk LookupVisitor) (below : Nat → Option (PTE × Nat))
    (past : start < next start size)
    (descends : (w.pt.entry table index).valid = true → (w.pt.entry table index).isSuper = false →
      Settles (lower (w.pt.entry table index).address w start) w.pt
        (found w.visitor start (below (w.pt.entry table index).address)) (start + 1)) :
    Settles (superLoop lookupVisitor size splitSuper lower table (start + 1) (fuel + 1) index w start 0)
      w.pt (found w.visitor start (levelLeaf size (w.pt.entry table index) below)) (start + 1) := by
  have stop_le : start + 1 ≤ next start size := past
  cases valid : (w.pt.entry table index).valid with
  | false =>
      refine ⟨next start size, 1, ?_, stop_le, by decide⟩
      simp [superLoop, valid, levelLeaf, found, superLoop_of_stop_le lookupVisitor stop_le]
  | true =>
      cases super : (w.pt.entry table index).isSuper with
      | true =>
          -- Lookup never splits: the super page is visited at `start`.
          refine ⟨next start size, 0, ?_, stop_le, by decide⟩
          simp [superLoop, valid, super, levelLeaf, lookupVisitor_visit,
            superLoop_of_stop_le lookupVisitor stop_le]
      | false =>
          obtain ⟨start', clear, lowered, stop_le', few⟩ := descends valid super
          refine ⟨start', 0, ?_, stop_le', by decide⟩
          simp [superLoop, valid, super, levelLeaf, lowered, few.ne,
            superLoop_of_stop_le lookupVisitor stop_le']

theorem pmdLevel_lookup (table start : Nat) (w : Walk LookupVisitor) :
    Settles (pmdLevel lookupVisitor (start + 1) table w start) w.pt
      (found w.visitor start (pmdLeaf w.pt table start)) (start + 1) := by
  obtain ⟨fuel, fuel_eq⟩ := levelFuel start pmdShift
  simp only [pmdLevel, fuel_eq]
  exact superLoop_lookup _ _ _ table start fuel _ w _ (lt_next start pmdShift)
    fun _ _ => pteLevel_lookup _ start w

theorem pudLevel_lookup (table start : Nat) (w : Walk LookupVisitor) :
    Settles (pudLevel lookupVisitor (start + 1) table w start) w.pt
      (found w.visitor start (pudLeaf w.pt table start)) (start + 1) := by
  obtain ⟨fuel, fuel_eq⟩ := levelFuel start pudShift
  simp only [pudLevel, fuel_eq]
  exact superLoop_lookup _ _ _ table start fuel _ w _ (lt_next start pudShift)
    fun _ _ => pmdLevel_lookup _ start w

theorem pgdLoop_lookup (start fuel index : Nat) (w : Walk LookupVisitor) :
    ∃ start', pgdLoop lookupVisitor (start + 1) (fuel + 1) index w start =
      .ok (⟨w.pt, found w.visitor start
        (let pgd := w.pt.entry w.pt.root index
         if !pgd.valid then none else pudLeaf w.pt pgd.address start)⟩,
        start') := by
  cases valid : (w.pt.entry w.pt.root index).valid with
  | false =>
      have stop_le : start + 1 ≤ next start pgdSize := lt_next start pgdShift
      exact ⟨next start pgdSize,
        by simp [pgdLoop, valid, found, pgdLoop_of_stop_le lookupVisitor stop_le]⟩
  | true =>
      obtain ⟨start', clear, lowered, stop_le, few⟩ :=
        pudLevel_lookup (w.pt.entry w.pt.root index).address start w
      exact ⟨start',
        by simp [pgdLoop, valid, lowered, few.ne, pgdLoop_of_stop_le lookupVisitor stop_le]⟩

theorem iterateRange_lookup (pt : PageTables) (s : LookupVisitor) (addr : Nat)
    (aligned : addr % pteSize = 0) (canonical : addr < lowerTop ∨ upperBottom ≤ addr) :
    iterateRange lookupVisitor ⟨pt, s⟩ addr (addr + 1) =
      .ok ⟨pt, found s addr (leaf pt addr)⟩ := by
  have canonicalRange : iterateRange lookupVisitor ⟨pt, s⟩ addr (addr + 1) =
      iterateRangeCanonical lookupVisitor ⟨pt, s⟩ addr (addr + 1) := by
    rcases canonical with lower | upper
    · have below : addr + 1 ≤ lowerTop := lower
      simp [iterateRange, aligned, lower, below]
    · have above : ¬ addr < upperBottom := Nat.not_lt.mpr upper
      have notLower : ¬ addr < lowerTop := fun lower => above (Nat.lt_trans lower (by decide))
      simp [iterateRange, aligned, notLower, above]
  obtain ⟨fuel, fuel_eq⟩ := levelFuel addr pgdShift
  obtain ⟨start', walked⟩ := pgdLoop_lookup addr fuel (indexAt addr pgdShift) ⟨pt, s⟩
  simp only [canonicalRange, iterateRangeCanonical, fuel_eq, walked]
  rfl

theorem lookup_eq_leaf (pt : PageTables) (addr : Nat) (aligned : addr % pteSize = 0)
    (canonical : addr < lowerTop ∨ upperBottom ≤ addr) :
    pt.lookup addr = .ok (pt, match leaf pt addr with
      | some (e, _) => (e.address, e.opts)
      | none => (0, ⟨⟨false, false, false⟩, false, false⟩)) := by
  have target : andNot addr (pteSize - 1) = addr := by
    rw [pteSize_eq, andNot_two_pow_sub_one]
    exact Nat.div_mul_cancel (Nat.dvd_of_mod_eq_zero (pteSize_eq ▸ aligned))
  have offset : addr &&& (pteSize - 1) = 0 := by
    rw [pteSize_eq, Nat.and_two_pow_sub_one_eq_mod, ← pteSize_eq, aligned]
  simp only [PageTables.lookup, iterateRange_lookup pt _ addr aligned canonical, offset, target]
  cases leaf pt addr with
  | none => rfl
  | some l => simp [found, Except.map]

/-- The tables after the first `Map` of `hugePageRemap`: one 2 MiB page at
physical 0. -/
def hugePageTables : PageTables :=
  match (PageTables.new pteSize).map 0 pmdSize userReadWrite 0 with
  | .ok (pt, _) => pt
  | .error _ => PageTables.new pteSize

theorem lookup_inside_huge_page :
    hugePageTables.lookup pteSize = .ok (hugePageTables, 0, userReadWrite) ∧
      translate hugePageTables pteSize = some (pteSize, userReadWrite) := by
  have walk : (match leaf hugePageTables pteSize with
      | some (e, _) => (e.address, e.opts)
      | none => (0, ⟨⟨false, false, false⟩, false, false⟩)) = (0, userReadWrite) := by
    decide +kernel
  refine ⟨?_, by decide +kernel⟩
  rw [lookup_eq_leaf hugePageTables pteSize (by decide) (.inl (by decide)), walk]

end Lookup

end Cijitter.Pagetables
