import Mathlib
import Cijitter.Pagetables.Walker

/-! What the page tables translate, read the way the MMU reads them, and
what `Map` leaves in them after a huge page is mapped again. -/

set_option autoImplicit false

namespace Cijitter.Pagetables

open Usermem

/-- The translation of the page at `v`: the 4-level walk from the root, a
super page at the PUD or PMD level ending it with the offset inside the
super page added. -/
def translate (pt : PageTables) (v : Nat) : Option (Nat × MapOpts) :=
  let pgd := pt.entry pt.root (indexAt v pgdShift)
  if !pgd.valid then none
  else
    let pud := pt.entry pgd.address (indexAt v pudShift)
    if !pud.valid then none
    else if pud.isSuper then some (pud.address + v % pudSize, pud.opts)
    else
      let pmd := pt.entry pud.address (indexAt v pmdShift)
      if !pmd.valid then none
      else if pmd.isSuper then some (pmd.address + v % pmdSize, pmd.opts)
      else
        let pte := pt.entry pmd.address (indexAt v pteShift)
        if !pte.valid then none else some (pte.address, pte.opts)

@[simp] theorem testBit_andNot (x m i : Nat) :
    (andNot x m).testBit i = (x.testBit i && !m.testBit i) := by
  simp only [andNot, Nat.testBit_and, Nat.testBit_xor]
  cases x.testBit i <;> cases m.testBit i <;> rfl

def userReadWrite : MapOpts :=
  ⟨⟨true, true, false⟩, false, true⟩

/-- The first 2 MiB mapped at physical 0, which installs a huge page, and
then mapped again at physical 4096. -/
def hugePageRemap : Except String (PageTables × PageTables × Bool) :=
  match (PageTables.new pteSize).map 0 pmdSize userReadWrite 0 with
  | .error e => .error e
  | .ok (first, _) =>
      match first.map 0 pmdSize userReadWrite pteSize with
      | .error e => .error e
      | .ok (second, prev) => .ok (first, second, prev)

theorem remap_of_huge_page_drops_range :
    hugePageRemap.toOption.map (fun r =>
        (translate r.1 0, translate r.2.1 0, translate r.2.1 (pmdSize - pteSize), r.2.2)) =
      some (some (0, userReadWrite), none, none, true) := by
  decide +kernel

end Cijitter.Pagetables
