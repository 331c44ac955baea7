import Mathlib

/-! VFS1 path resolution (`pkg/sentry/fs`). `MountNamespace.FindLink` splits a
path with `SplitFirst` and walks it one component at a time with `Dirent.walk`,
resolving every component but the last with `resolve`; `FindInode` resolves the
last one too. `resolve` follows a symlink either to the dirent `Inode.Getlink`
hands back or, for an ordinary symlink, by walking its `Readlink` target from the
symlink's parent through `FindInode`, so the three are mutually recursive. The
traversal budget `*remainingTraversals` is shared by all the calls of one
resolution: here it is passed in and handed back, never larger than it was.

The dirent tree is read, not changed: no rename runs during the walk, so a
child found under `d` (cached in `d.children`, or loaded by `Inode.Lookup` and
hashed under `d` by `hashChild`) has `d` as its parent. The inode operations the
walk calls are fields of `Tree`. A panic of the source is `none`. -/

set_option autoImplicit false

namespace Cijitter.Fs

/-- The errors the walk returns or passes on. `resolveViaReadlink` is
`ErrResolveViaReadlink`, which `Getlink` answers for a symlink that is to be
followed through `Readlink`; `errno` is any other error of a file system. -/
inductive Error where
  | ENOTDIR
  | ENOENT
  | ELOOP
  | ENOLINK
  | resolveViaReadlink
  | errno (n : Nat)
  deriving DecidableEq, Repr

/-- A dirent tree over dirents `D`, which the source compares by pointer. -/
structure Tree (D : Type) where
  parent : D → Option D
  isDir : D → Bool
  /-- `Inode.CheckPermission(ctx, PermMask{Execute: true})`. -/
  checkExecute : D → Option Error
  /-- The named child `walk` finds: the cached child, or `Inode.Lookup`. -/
  lookup : D → List Char → Except Error D
  getlink : D → Except Error D
  readlink : D → Except Error (List Char)
  /-- A bound on the length of the chain of parents, which ends. -/
  depth : D → Nat
  lookup_parent : ∀ d name c, lookup d name = .ok c → parent c = some d
  depth_parent : ∀ d p, parent d = some p → depth p < depth d

/-! ## Paths -/

/-- The loop of `TrimTrailingSlashes`: each turn drops one trailing slash, but
never the slash of "/". As each turn shortens `dir`, `dir.length` turns are
enough (`trimTrailingSlashesLoop_done`). -/
def trimTrailingSlashesLoop : Nat → List Char → Bool → List Char × Bool
  | 0, dir, changed => (dir, changed)
  | fuel + 1, dir, changed =>
    if 1 < dir.length ∧ dir.getLast? = some '/' then
      trimTrailingSlashesLoop fuel dir.dropLast true
    else (dir, changed)

def trimTrailingSlashes (dir : List Char) : List Char × Bool :=
  trimTrailingSlashesLoop dir.length dir false

/-- `SplitFirst`: the first component and the rest, with the slashes between
them dropped; "/" is the first component of an absolute path. -/
def splitFirst (path : List Char) : List Char × List Char :=
  let path := (trimTrailingSlashes path).1
  if path = [] then (['.'], [])
  else
    match path.span (· != '/') with
    | (_, []) => (path, [])
    | ([], _ :: rest) => (['/'], rest)
    | (current, _ :: rest) => (current, rest.dropWhile (· == '/'))

theorem trimTrailingSlashesLoop_length_le (fuel : Nat) (dir : List Char) (changed : Bool) :
    (trimTrailingSlashesLoop fuel dir changed).1.length ≤ dir.length := by
  induction fuel generalizing dir changed with
  | zero => exact Nat.le_refl _
  | succ fuel ih =>
    dsimp only [trimTrailingSlashesLoop]
    split
    · have shorter := ih dir.dropLast true
      simp only [List.length_dropLast] at shorter
      omega
    · simp

theorem trimTrailingSlashesLoop_done (fuel : Nat) (dir : List Char) (changed : Bool)
    (enough : dir.length ≤ fuel) :
    ¬ (1 < (trimTrailingSlashesLoop fuel dir changed).1.length ∧
      (trimTrailingSlashesLoop fuel dir changed).1.getLast? = some '/') := by
  induction fuel generalizing dir changed with
  | zero =>
    dsimp only [trimTrailingSlashesLoop]
    omega
  | succ fuel ih =>
    dsimp only [trimTrailingSlashesLoop]
    split
    · exact ih dir.dropLast true (by simp only [List.length_dropLast]; omega)
    · assumption

theorem splitFirst_length_lt (path : List Char) (nonempty : path ≠ []) :
    (splitFirst path).2.length < path.length := by
  have trimmed : (trimTrailingSlashes path).1.length ≤ path.length :=
    trimTrailingSlashesLoop_length_le _ _ _
  have positive : 0 < path.length := List.length_pos_iff.mpr nonempty
  unfold splitFirst
  generalize (trimTrailingSlashes path).1 = p at trimmed
  have whole := List.takeWhile_append_dropWhile (p := (· != '/')) (l := p)
  dsimp only
  split
  · simpa using positive
  rw [List.span_eq_takeWhile_dropWhile]
  split
  · simpa using positive
  -- in the two other cases the rest is what follows the first slash
  · rename_i rest split
    simp only [Prod.mk.injEq] at split
    rw [split.1, split.2] at whole
    simp only [← whole, List.nil_append, List.length_cons] at trimmed ⊢
    omega
  · rename_i current rest _ split
    simp only [Prod.mk.injEq] at split
    rw [split.1, split.2] at whole
    have dropped := List.length_dropWhile_le (· == '/') rest
    rw [← whole] at trimmed
    simp only [List.length_append, List.length_cons] at trimmed ⊢
    omega

example : splitFirst "a//b/".toList = ("a".toList, "b".toList) := by decide
example : splitFirst "///".toList = (['/'], []) := by decide

/-! ## Results and the budget -/

variable {D : Type}

/-- What a call of the resolution functions ends with: `none` for a panic, or
its result with the budget left, which is never more than the budget `b` given. -/
abbrev Resolved (D : Type) (b : Nat) := Option (Except Error D × {b' : Nat // b' ≤ b})

/-- A result reached from the budget an earlier step left, seen against the
budget before that step. -/
def Resolved.weaken {b₁ b₂ : Nat} (le : b₁ ≤ b₂) : Resolved D b₁ → Resolved D b₂
  | none => none
  | some (r, b') => some (r, ⟨b'.1, le_trans b'.2 le⟩)

theorem Resolved.ok_of_weaken {b₁ b₂ : Nat} {le : b₁ ≤ b₂} {x : Resolved D b₁} {d : D}
    {b' : {b' // b' ≤ b₂}} (weakened : x.weaken le = some (.ok d, b')) :
    ∃ b₁', x = some (.ok d, b₁') := by
  match x, weakened with
  | some (.ok _, b₁'), rfl => exact ⟨b₁', rfl⟩

/-- `FindLink`'s loop over leading "/" components: `none` when the path is only
slashes and the walk ends at `root`, else where the walk starts and what it walks. -/
def skipSlashes (root current : D) (first remainder : List Char) :
    Option (D × List Char × List Char) :=
  if first = ['/'] then
    if _ : remainder = [] then none
    else skipSlashes root root (splitFirst remainder).1 (splitFirst remainder).2
  else some (current, first, remainder)
termination_by remainder.length
decreasing_by exact splitFirst_length_lt remainder ‹_›

theorem skipSlashes_start {root current c : D} {first remainder f r : List Char}
    (skipped : skipSlashes root current first remainder = some (c, f, r)) : c = current ∨ c = root := by
  fun_induction skipSlashes root current first remainder with
  | case1 => cases skipped
  | case2 _ _ _ ih => exact .inr ((ih skipped).elim id id)
  | case3 =>
    simp only [Option.some.injEq, Prod.mk.injEq] at skipped
    exact .inl skipped.1.symm

/-! ## Dirents -/

variable [DecidableEq D]

/-- `Dirent.descendantOf`: `d` is `p` or below it. -/
def Tree.descendantOf (t : Tree D) (d p : D) : Bool :=
  if d = p then true
  else
    match _ : t.parent d with
    | none => false
    | some q => t.descendantOf q p
termination_by t.depth d
decreasing_by exact t.depth_parent d q ‹_›

/-- `Dirent.walk` of one component from `d`, never above `root`: ".." at
`root` or at a dirent without a parent is ".". -/
def Tree.walk (t : Tree D) (root d : D) (name : List Char) : Except Error D :=
  if !t.isDir d then .error .ENOTDIR
  else if name = [] ∨ name = ['.'] then .ok d
  else if name = ['.', '.'] then
    if d = root then .ok d
    else
      match t.parent d with
      | none => .ok d
      | some p => .ok p
  else t.lookup d name

section Descendants

variable {t : Tree D} {root : D}

theorem Tree.descendantOf_self (d : D) : t.descendantOf d d = true := by
  rw [Tree.descendantOf]
  simp

theorem Tree.descendantOf_of_ne_of_parent {d p q : D} (ne : d ≠ p) (parent : t.parent d = some q) :
    t.descendantOf d p = t.descendantOf q p := by
  rw [Tree.descendantOf]
  simp only [ne, if_false]
  split <;> simp_all

theorem Tree.descendantOf_of_parent {c d : D} (parent : t.parent c = some d)
    (within : t.descendantOf d root = true) : t.descendantOf c root = true := by
  by_cases same : c = root
  · rw [same]
    exact t.descendantOf_self root
  · rw [t.descendantOf_of_ne_of_parent same parent]
    exact within

theorem Tree.descendantOf_parent {d p : D} (within : t.descendantOf d root = true)
    (notRoot : d ≠ root) (parent : t.parent d = some p) : t.descendantOf p root = true := by
  rwa [t.descendantOf_of_ne_of_parent notRoot parent] at within

theorem Tree.walk_within {d n : D} {name : List Char} (within : t.descendantOf d root = true)
    (walked : t.walk root d name = .ok n) : t.descendantOf n root = true := by
  unfold Tree.walk at walked
  split at walked
  · cases walked
  split at walked
  · cases walked
    exact within
  split at walked
  -- ".." goes to the parent only strictly below `root`
  · split at walked
    · cases walked
      exact within
    · rename_i notRoot
      split at walked
      · cases walked
        exact within
      · rename_i p parent
        cases walked
        exact t.descendantOf_parent within notRoot parent
  · exact t.descendantOf_of_parent (t.lookup_parent d name n walked) within

end Descendants

/-! ## FindLink, FindInode and resolve -/

/-- The checks `FindLink` makes before each step of the walk, elided at `root`. -/
def checkWalk (t : Tree D) (root current : D) : Option Error :=
  if current = root then none
  else if !t.isDir current then some .ENOTDIR
  else t.checkExecute current

/-! The resolution functions terminate by the traversal budget, then by which
function calls which (`resolve` before the walk loop before `findLink` before
`findInode`), then by the length of the path left to walk. -/

theorem lex_of_tag_lt {b i j m n : Nat} (b' : {b' // b' ≤ b}) (tag : i < j) :
    Prod.Lex (· < ·) (Prod.Lex (· < ·) (· < ·)) (b'.1, i, m) (b, j, n) := by
  rcases Nat.lt_or_eq_of_le b'.2 with lt | eq
  · exact Prod.Lex.left _ _ lt
  · rw [eq]
    exact Prod.Lex.right _ (Prod.Lex.left _ _ tag)

theorem lex_of_length_lt {b i m n : Nat} (b' : {b' // b' ≤ b}) (shorter : m < n) :
    Prod.Lex (· < ·) (Prod.Lex (· < ·) (· < ·)) (b'.1, i, m) (b, i, n) := by
  rcases Nat.lt_or_eq_of_le b'.2 with lt | eq
  · exact Prod.Lex.left _ _ lt
  · rw [eq]
    exact Prod.Lex.right _ (Prod.Lex.right _ shorter)

theorem lex_of_budget_lt {b b' i j m n : Nat} (lt : b' < b) :
    Prod.Lex (· < ·) (Prod.Lex (· < ·) (· < ·)) (b', i, m) (b, j, n) :=
  Prod.Lex.left _ _ lt

section Resolution

variable (t : Tree D) (root : D)

mutual

/-- The loop of `FindLink`, at `current` with the component `first` to walk
and the path `remainder` after it. -/
def findLinkLoop (current : D) (first remainder : List Char) (b : Nat) : Resolved D b :=
  match checkWalk t root current with
  | some e => some (.error e, ⟨b, le_rfl⟩)
  | none =>
    match t.walk root current first with
    | .error e => some (.error e, ⟨b, le_rfl⟩)
    | .ok next =>
      if _ : remainder = [] then some (.ok next, ⟨b, le_rfl⟩)
      else
        -- every component but the last is resolved before the walk goes on
        match resolve next b with
        | none => none
        | some (.error e, b') => some (.error e, b')
        | some (.ok current', b') =>
          (findLinkLoop current' (splitFirst remainder).1 (splitFirst remainder).2 b'.1).weaken b'.2
termination_by (b, 1, remainder.length)
decreasing_by
  · exact lex_of_tag_lt ⟨b, le_rfl⟩ (by decide)
  · exact lex_of_length_lt b' (splitFirst_length_lt remainder ‹_›)

/-- `MountNamespace.FindLink`: the walk starts at `wd`, or at `root` when there
is none or the path is absolute. -/
def findLink (wd : Option D) (path : List Char) (b : Nat) : Resolved D b :=
  if path = [] then none
  else
    match skipSlashes root (wd.getD root) (splitFirst path).1 (splitFirst path).2 with
    | none => some (.ok root, ⟨b, le_rfl⟩)
    | some (current, first, remainder) => findLinkLoop current first remainder b
termination_by (b, 2, 0)
decreasing_by exact lex_of_tag_lt ⟨b, le_rfl⟩ (by decide)

/-- `MountNamespace.FindInode`: `FindLink`, then `resolve` on what it found. -/
def findInode (wd : Option D) (path : List Char) (b : Nat) : Resolved D b :=
  match findLink wd path b with
  | none => none
  | some (.error e, b') => some (.error e, b')
  | some (.ok d, b') => (resolve d b'.1).weaken b'.2
termination_by (b, 3, 0)
decreasing_by
  · exact lex_of_tag_lt ⟨b, le_rfl⟩ (by decide)
  · exact lex_of_tag_lt b' (by decide)

/-- `MountNamespace.resolve`. A `Readlink` target is walked from the symlink's
parent, with the budget spent before the walk. -/
def resolve (node : D) (b : Nat) : Resolved D b :=
  match t.getlink node with
  | .ok target =>
    if b = 0 then some (.error .ELOOP, ⟨b, le_rfl⟩) else some (.ok target, ⟨b, le_rfl⟩)
  | .error .ENOLINK => some (.ok node, ⟨b, le_rfl⟩)
  | .error .resolveViaReadlink =>
    if _ : b = 0 then some (.error .ELOOP, ⟨b, le_rfl⟩)
    else
      match t.readlink node with
      | .error e => some (.error e, ⟨b, le_rfl⟩)
      | .ok targetPath => (findInode (t.parent node) targetPath (b - 1)).weaken (Nat.sub_le b 1)
  | .error e => some (.error e, ⟨b, le_rfl⟩)
termination_by (b, 0, 0)
decreasing_by exact lex_of_budget_lt (by omega)

end

/-! One lemma per branch the runs below take, so that a run is evaluated by
rewriting and no proof unfolds the functions again. -/

variable {t root}

end Resolution

/-! ## Containment -/

section Containment

variable (t : Tree D) (root : D)

/- Every dirent the resolution functions return is below `root`, given that the
one they start from is, that `Getlink` hands back only dirents below `root`, and
that `root` is not itself a symlink followed through `Readlink` (else its target
is walked from its parent, above `root`). The proofs follow the functions. -/
mutual

theorem findLinkLoop_within (rootResolved : t.getlink root ≠ .error .resolveViaReadlink)
    (getlinkWithin : ∀ node target, t.getlink node = .ok target → t.descendantOf target root = true)
    (current : D) (first remainder : List Char) (b : Nat)
    (within : t.descendantOf current root = true) (d : D) (b' : {b' // b' ≤ b})
    (found : findLinkLoop t root current first remainder b = some (.ok d, b')) :
    t.descendantOf d root = true := by
  rw [findLinkLoop] at found
  split at found
  · cases found
  split at found
  · cases found
  rename_i next walked
  have nextWithin := t.walk_within within walked
  split at found
  · cases found
    exact nextWithin
  split at found
  · cases found
  · cases found
  · rename_i current' b₁ resolved
    have currentWithin :=
      resolve_within rootResolved getlinkWithin next b nextWithin current' b₁ resolved
    obtain ⟨b₂, looped⟩ := Resolved.ok_of_weaken found
    exact findLinkLoop_within rootResolved getlinkWithin current' _ _ b₁.1 currentWithin d b₂ looped
termination_by (b, 1, remainder.length)
decreasing_by
  · exact lex_of_tag_lt ⟨b, le_rfl⟩ (by decide)
  · exact lex_of_length_lt _ (splitFirst_length_lt remainder ‹_›)

theorem resolve_within (rootResolved : t.getlink root ≠ .error .resolveViaReadlink)
    (getlinkWithin : ∀ node target, t.getlink node = .ok target → t.descendantOf target root = true)
    (node : D) (b : Nat) (within : t.descendantOf node root = true) (d : D) (b' : {b' // b' ≤ b})
    (found : resolve t root node b = some (.ok d, b')) : t.descendantOf d root = true := by
  rw [resolve] at found
  split at found
  · rename_i linked
    split at found
    · cases found
    · cases found
      exact getlinkWithin node _ linked
  · cases found
    exact within
  · rename_i viaReadlink
    split at found
    · cases found
    split at found
    · cases found
    rename_i targetPath _
    -- `node` is not `root`, so its parent, where the target is walked from, is below `root`
    have notRoot : node ≠ root := fun same => rootResolved (same ▸ viaReadlink)
    have parentWithin : ∀ w, t.parent node = some w → t.descendantOf w root = true :=
      fun w parent => t.descendantOf_parent within notRoot parent
    obtain ⟨b₁, resolved⟩ := Resolved.ok_of_weaken found
    exact findInode_within rootResolved getlinkWithin (t.parent node) targetPath (b - 1)
      parentWithin d b₁ resolved
  · cases found
termination_by (b, 0, 0)
decreasing_by exact lex_of_budget_lt (by omega)

theorem findLink_within (rootResolved : t.getlink root ≠ .error .resolveViaReadlink)
    (getlinkWithin : ∀ node target, t.getlink node = .ok target → t.descendantOf target root = true)
    (wd : Option D) (path : List Char) (b : Nat)
    (wdWithin : ∀ w, wd = some w → t.descendantOf w root = true) (d : D) (b' : {b' // b' ≤ b})
    (found : findLink t root wd path b = some (.ok d, b')) : t.descendantOf d root = true := by
  rw [findLink] at found
  split at found
  · cases found
  split at found
  · cases found
    exact t.descendantOf_self _
  · rename_i current first remainder skipped
    -- the walk starts at `wd`, or at `root` for an absolute path
    have currentWithin : t.descendantOf current root = true := by
      rcases skipSlashes_start skipped with fromWd | fromRoot
      · rw [fromWd]
        cases wd with
        | none => exact t.descendantOf_self root
        | some w => exact wdWithin w rfl
      · rw [fromRoot]
        exact t.descendantOf_self root
    exact findLinkLoop_within rootResolved getlinkWithin current first remainder b currentWithin d b' found
termination_by (b, 2, 0)
decreasing_by exact lex_of_tag_lt ⟨b, le_rfl⟩ (by decide)

theorem findInode_within (rootResolved : t.getlink root ≠ .error .resolveViaReadlink)
    (getlinkWithin : ∀ node target, t.getlink node = .ok target → t.descendantOf target root = true)
    (wd : Option D) (path : List Char) (b : Nat)
    (wdWithin : ∀ w, wd = some w → t.descendantOf w root = true) (d : D) (b' : {b' // b' ≤ b})
    (found : findInode t root wd path b = some (.ok d, b')) : t.descendantOf d root = true := by
  rw [findInode] at found
  split at found
  · cases found
  · cases found
  · rename_i link b₁ linked
    have linkWithin := findLink_within rootResolved getlinkWithin wd path b wdWithin link b₁ linked
    obtain ⟨b₂, resolved⟩ := Resolved.ok_of_weaken found
    exact resolve_within rootResolved getlinkWithin link b₁.1 linkWithin d b₂ resolved
termination_by (b, 3, 0)
decreasing_by
  · exact lex_of_tag_lt ⟨b, le_rfl⟩ (by decide)
  · exact lex_of_tag_lt _ (by decide)

end

end Containment

end Cijitter.Fs
