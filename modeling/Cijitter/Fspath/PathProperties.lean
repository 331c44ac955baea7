import Cijitter.Fspath.Path
import Mathlib

/-! `Parse` against the components of a pathname. The components of `s` are
the non-empty pieces of `s` split on `/`; everything the iterator proofs use
about them is `components_append_sep` and its corollaries.

An iterator that `Parse` or `Next` builds is `Canonical`: its text neither
starts nor ends with a separator and `end` closes its first component. From a
canonical iterator `Next` never panics and gives a canonical iterator for the
components after the first (`Canonical.next_spec`), so the loop over a parsed
path visits exactly the components of the pathname. -/

set_option autoImplicit false

namespace Cijitter.Fspath

open Iterator

/-! ## Components -/

/-- `C(s)`: the non-empty pieces of `s` split on `/`, in order. -/
def components (s : List Char) : List (List Char) := (s.splitOn pathSep).filter (!·.isEmpty)

@[simp] theorem components_nil : components [] = [] := rfl

theorem components_append_sep (x y : List Char) :
    components (x ++ pathSep :: y) = components x ++ components y := by
  unfold components
  rw [List.splitOn_append_cons_self, List.filter_append]

theorem components_seps_append {seps : List Char} (all_sep : ∀ c ∈ seps, c = pathSep) (y : List Char) :
    components (seps ++ y) = components y := by
  induction seps with
  | nil => rfl
  | cons c seps ih =>
    obtain rfl := all_sep c List.mem_cons_self
    rw [List.cons_append, ← List.nil_append (pathSep :: _), components_append_sep, components_nil,
      List.nil_append]
    exact ih fun d member => all_sep d (List.mem_cons_of_mem _ member)

theorem components_of_sep_not_mem {w : List Char} (nonempty : w ≠ []) (sep_free : pathSep ∉ w) :
    components w = [w] := by
  unfold components
  rw [List.splitOn_eq_singleton sep_free]
  simp [nonempty]

theorem sep_not_mem_of_mem_splitOn : ∀ {s w : List Char}, w ∈ s.splitOn pathSep → pathSep ∉ w
  | [], w, member => by
    rw [List.splitOn_nil, List.mem_singleton] at member
    subst member
    exact List.not_mem_nil
  | c :: s, w, member => by
    rw [List.splitOn_cons_eq_if_modifyHead] at member
    split at member
    · rcases List.mem_cons.mp member with rfl | member
      · exact List.not_mem_nil
      · exact sep_not_mem_of_mem_splitOn member
    · next not_sep =>
      obtain ⟨first, rest, split_eq⟩ := List.exists_cons_of_ne_nil (List.splitOn_ne_nil pathSep s)
      rw [split_eq, List.modifyHead_cons] at member
      rcases List.mem_cons.mp member with rfl | member
      · rw [List.mem_cons, not_or]
        exact ⟨fun same => not_sep (by rw [same]; exact beq_self_eq_true _),
          sep_not_mem_of_mem_splitOn (split_eq ▸ List.mem_cons_self)⟩
      · exact sep_not_mem_of_mem_splitOn (split_eq ▸ List.mem_cons_of_mem _ member)

theorem mem_components {s w : List Char} (member : w ∈ components s) : w ≠ [] ∧ pathSep ∉ w := by
  obtain ⟨split_member, nonempty⟩ := List.mem_filter.mp member
  exact ⟨by simpa using nonempty, sep_not_mem_of_mem_splitOn split_member⟩

theorem components_intercalate {cs : List (List Char)} (valid : ∀ w ∈ cs, w ≠ [] ∧ pathSep ∉ w) :
    components ([pathSep].intercalate cs) = cs := by
  cases cs with
  | nil => rfl
  | cons w ws =>
    unfold components
    rw [List.splitOn_intercalate pathSep (fun w member => (valid w member).2) (List.cons_ne_nil w ws),
      List.filter_eq_self]
    intro w member
    simpa using (valid w member).1

/-! ## Canonical iterators -/

theorem takeWhile_append_of_head {p : Char → Bool} (xs : List Char) {ys : List Char}
    (stops : ∀ y ∈ ys.head?, p y = false) : (xs ++ ys).takeWhile p = xs.takeWhile p := by
  induction xs with
  | nil =>
    cases ys with
    | nil => rfl
    | cons y ys => simp [stops y rfl]
  | cons x xs ih =>
    simp only [List.cons_append, List.takeWhile_cons, ih]

theorem dropWhile_head {p : Char → Bool} {text rest : List Char} {x : Char}
    (rest_eq : text.dropWhile p = x :: rest) : p x = false := by
  have := List.head?_dropWhile_not p text
  rwa [rest_eq] at this

/-- An iterator as `Parse` and `Next` build it: its text neither starts nor
ends with a separator, and `end` closes its first component. -/
structure Iterator.Canonical (it : Iterator) : Prop where
  stop_eq : it.stop = (it.partialPathname.takeWhile (· != pathSep)).length
  head_ne : it.partialPathname.head? ≠ some pathSep
  last_ne : it.partialPathname.getLast? ≠ some pathSep

theorem canonical_terminal : terminal.Canonical := ⟨rfl, nofun, nofun⟩

theorem Iterator.Canonical.first {it : Iterator} (canonical : it.Canonical) (ok : it.ok = true) :
    it.toString ≠ [] ∧ pathSep ∉ it.toString ∧
      it.partialPathname = it.toString ++ it.partialPathname.dropWhile (· != pathSep) := by
  have split := (List.takeWhile_append_dropWhile (p := (· != pathSep)) (l := it.partialPathname)).symm
  have to_string : it.toString = it.partialPathname.takeWhile (· != pathSep) := by
    calc it.toString
        = (it.partialPathname.takeWhile (· != pathSep) ++ it.partialPathname.dropWhile (· != pathSep)).take
            (it.partialPathname.takeWhile (· != pathSep)).length := by
          rw [toString, canonical.stop_eq, List.takeWhile_append_dropWhile]
      _ = it.partialPathname.takeWhile (· != pathSep) := List.take_left
  rw [to_string]
  refine ⟨fun empty => ?_, fun member => by simpa using List.mem_takeWhile_imp member, split⟩
  obtain ⟨c, rest, text_eq⟩ := List.exists_cons_of_ne_nil (by simpa [Iterator.ok] using ok)
  have not_sep : c ≠ pathSep := fun same => canonical.head_ne (by rw [text_eq, same]; rfl)
  rw [text_eq, List.takeWhile_cons_of_pos (by simpa using not_sep)] at empty
  exact List.cons_ne_nil _ _ empty

theorem Iterator.Canonical.next_spec {it : Iterator} (canonical : it.Canonical) (ok : it.ok = true) :
    ∃ next, it.next = some next ∧ next.Canonical ∧ next.partialPathname.length < it.partialPathname.length ∧
      components it.partialPathname = it.toString :: components next.partialPathname ∧
      next.ok = it.nextOk := by
  obtain ⟨nonempty, sep_free, split⟩ := canonical.first ok
  have stop_eq : it.stop = it.toString.length := by
    rw [canonical.stop_eq, toString, canonical.stop_eq, List.length_take,
      Nat.min_eq_left (List.takeWhile_prefix _).length_le]
  cases rest_eq : it.partialPathname.dropWhile (· != pathSep) with
  | nil =>
    -- the last component
    rw [rest_eq, List.append_nil] at split
    have at_end : it.stop = it.partialPathname.length := by rw [stop_eq, ← split]
    refine ⟨terminal, by simp [Iterator.next, at_end], canonical_terminal, ?_, ?_, ?_⟩
    · exact List.length_pos_iff.mpr (by simpa [Iterator.ok] using ok)
    · rw [terminal, split, components_of_sep_not_mem nonempty sep_free, ← split, components_nil]
    · simp [terminal, Iterator.ok, Iterator.nextOk, at_end]
  | cons x rest =>
    have x_sep : x = pathSep := by simpa using dropWhile_head rest_eq
    subst x_sep
    rw [rest_eq] at split
    -- the separators after the component, and the text from the next one on
    set seps := rest.takeWhile (· == pathSep)
    set following := rest.dropWhile (· == pathSep)
    have rest_split : rest = seps ++ following := List.takeWhile_append_dropWhile.symm
    have following_ne : following ≠ [] := by
      intro empty
      apply canonical.last_ne
      have all_sep : ∀ c ∈ pathSep :: seps, c = pathSep := by
        intro c member
        rcases List.mem_cons.mp member with same | member
        · exact same
        · simpa using List.mem_takeWhile_imp member
      rw [split, rest_split, empty, List.append_nil, List.getLast?_append_of_ne_nil _ (List.cons_ne_nil _ _)]
      obtain ⟨last, last_eq⟩ := Option.isSome_iff_exists.mp (List.getLast?_isSome.mpr (List.cons_ne_nil pathSep seps))
      rw [last_eq, all_sep last (List.mem_of_getLast? last_eq)]
    obtain ⟨y, after, following_eq⟩ := List.exists_cons_of_ne_nil following_ne
    have y_not_sep : y ≠ pathSep := by
      simpa using dropWhile_head (following_eq ▸ rfl : rest.dropWhile (· == pathSep) = y :: after)
    have dropped : it.partialPathname.drop (it.stop + 1) = rest := by
      rw [stop_eq, split, ← List.singleton_append, ← List.append_assoc]
      exact List.drop_left' (by simp)
    have not_at_end : it.stop ≠ it.partialPathname.length := by
      rw [stop_eq, split]
      simp
    have skipped : rest.drop seps.length = following := by
      nth_rewrite 1 [rest_split]
      exact List.drop_left
    have seps_short : seps.length ≠ rest.length := by
      rw [rest_split, List.length_append, following_eq, List.length_cons]
      omega
    refine ⟨⟨following, (following.takeWhile (· != pathSep)).length⟩, ?_, ⟨rfl, ?_, ?_⟩, ?_, ?_, ?_⟩
    · simp only [Iterator.next, if_neg not_at_end, dropped]
      rw [if_neg seps_short, skipped, following_eq, List.drop_one, List.tail_cons,
        List.takeWhile_cons_of_pos (by simpa using y_not_sep), List.length_cons, Nat.add_comm]
    · rw [following_eq]
      simpa using y_not_sep
    · have last_eq : it.partialPathname.getLast? = following.getLast? := by
        rw [split, rest_split, ← List.cons_append, ← List.append_assoc, List.getLast?_append_of_ne_nil _ following_ne]
      rw [← last_eq]
      exact canonical.last_ne
    · rw [split, rest_split]
      simp only [List.length_append, List.length_cons]
      omega
    · have all_sep : ∀ c ∈ seps, c = pathSep := fun c member => by simpa using List.mem_takeWhile_imp member
      rw [split, components_append_sep, components_of_sep_not_mem nonempty sep_free, rest_split,
        components_seps_append all_sep]
      rfl
    · simp [Iterator.ok, Iterator.nextOk, not_at_end, following_eq]

theorem Iterator.Canonical.visit {it : Iterator} (canonical : it.Canonical) {fuel : Nat}
    (enough : it.partialPathname.length < fuel) :
    ∃ its, it.visit fuel = some its ∧ its.map Iterator.toString = components it.partialPathname ∧
      ∀ pit ∈ its, ∃ next, pit.next = some next ∧ next.ok = pit.nextOk := by
  induction fuel generalizing it with
  | zero => exact absurd enough (Nat.not_lt_zero _)
  | succ fuel inductionHypothesis =>
    by_cases ok : it.ok = true
    · obtain ⟨next, next_eq, next_canonical, shorter, split, next_ok⟩ := canonical.next_spec ok
      obtain ⟨its, visited, strings, steps⟩ := inductionHypothesis next_canonical (by omega)
      refine ⟨it :: its, by simp [Iterator.visit, ok, next_eq, visited], by rw [List.map_cons, strings, split], ?_⟩
      intro pit member
      rcases List.mem_cons.mp member with rfl | member
      · exact ⟨next, next_eq, next_ok⟩
      · exact steps pit member
    · have empty : it.partialPathname = [] := by simpa [Iterator.ok] using ok
      exact ⟨[], by simp [Iterator.visit, ok], by rw [empty]; rfl, nofun⟩

theorem Iterator.Canonical.ok_iff {it : Iterator} (canonical : it.Canonical) :
    it.ok = true ↔ components it.partialPathname ≠ [] := by
  by_cases ok : it.ok = true
  · obtain ⟨_, _, _, _, split, _⟩ := canonical.next_spec ok
    simp [ok, split]
  · have empty : it.partialPathname = [] := by simpa [Iterator.ok] using ok
    simp [ok, empty]

/-! ## Parse -/

theorem components_append_seps (x : List Char) {seps : List Char} (all_sep : ∀ c ∈ seps, c = pathSep) :
    components (x ++ seps) = components x := by
  cases seps with
  | nil => rw [List.append_nil]
  | cons c seps =>
    obtain rfl := all_sep c List.mem_cons_self
    rw [components_append_sep, ← List.append_nil seps,
      components_seps_append (fun d member => all_sep d (List.mem_cons_of_mem _ member)), components_nil,
      List.append_nil]

theorem head?_seps_append {lead rest : List Char} (all_sep : ∀ c ∈ lead, c = pathSep)
    (head_ne : rest.head? ≠ some pathSep) : (lead ++ rest).head? = some pathSep ↔ lead ≠ [] := by
  cases lead with
  | nil => simpa using head_ne
  | cons c lead => simp [all_sep c List.mem_cons_self]

theorem getLast?_append_seps {rest trail : List Char} (all_sep : ∀ c ∈ trail, c = pathSep)
    (last_ne : rest.getLast? ≠ some pathSep) : (rest ++ trail).getLast? = some pathSep ↔ trail ≠ [] := by
  rw [← List.head?_reverse, List.reverse_append]
  have reversed := head?_seps_append (fun c member => all_sep c (List.mem_reverse.mp member))
    (show rest.reverse.head? ≠ some pathSep by rwa [List.head?_reverse])
  simpa using reversed

theorem exists_trim {s : List Char} (not_all : ∃ c ∈ s, c ≠ pathSep) :
    ∃ lead middle trail, s = lead ++ middle ++ trail ∧ (∀ c ∈ lead, c = pathSep) ∧ (∀ c ∈ trail, c = pathSep) ∧
      middle.head? ≠ some pathSep ∧ middle.getLast? ≠ some pathSep ∧ middle ≠ [] := by
  set unled := s.dropWhile (· == pathSep)
  set trail := (unled.reverse.takeWhile (· == pathSep)).reverse
  set middle := (unled.reverse.dropWhile (· == pathSep)).reverse
  have lead_seps : ∀ c ∈ s.takeWhile (· == pathSep), c = pathSep := fun c member => by
    simpa using List.mem_takeWhile_imp member
  have trail_seps : ∀ c ∈ trail, c = pathSep := fun c member => by
    simpa using List.mem_takeWhile_imp (List.mem_reverse.mp member)
  have unled_eq : unled = middle ++ trail := by
    calc unled = unled.reverse.reverse := (List.reverse_reverse unled).symm
      _ = (unled.reverse.takeWhile (· == pathSep) ++ unled.reverse.dropWhile (· == pathSep)).reverse := by
        rw [List.takeWhile_append_dropWhile]
      _ = middle ++ trail := List.reverse_append
  have s_eq : s = s.takeWhile (· == pathSep) ++ middle ++ trail := by
    rw [List.append_assoc, ← unled_eq]
    exact List.takeWhile_append_dropWhile.symm
  cases kept : unled.reverse.dropWhile (· == pathSep) with
  | nil =>
    -- then every character is a separator
    exfalso
    obtain ⟨c, member, not_sep⟩ := not_all
    have middle_nil : middle = [] := by simp [middle, kept]
    rw [s_eq, middle_nil, List.append_nil, List.mem_append] at member
    rcases member with member | member
    · exact not_sep (lead_seps c member)
    · exact not_sep (trail_seps c member)
  | cons x rest =>
    have x_not_sep : x ≠ pathSep := by simpa using dropWhile_head kept
    have middle_ne : middle ≠ [] := by simp [middle, kept]
    have last_eq : middle.getLast? = some x := by simp [middle, kept]
    have head_eq : middle.head? = unled.head? := by
      rw [unled_eq, List.head?_append]
      obtain ⟨y, _, middle_eq⟩ := List.exists_cons_of_ne_nil middle_ne
      simp [middle_eq]
    refine ⟨_, middle, trail, s_eq, lead_seps, trail_seps, ?_, by simpa [last_eq] using x_not_sep, middle_ne⟩
    rw [head_eq]
    cases unled_head : unled with
    | nil => simp
    | cons y _ =>
      have : (y == pathSep) = false := @dropWhile_head (· == pathSep) s _ y unled_head
      simpa using this

theorem parse_trim {lead middle trail : List Char} (lead_seps : ∀ c ∈ lead, c = pathSep)
    (trail_seps : ∀ c ∈ trail, c = pathSep) (head_ne : middle.head? ≠ some pathSep)
    (last_ne : middle.getLast? ≠ some pathSep) (nonempty : middle ≠ []) :
    parse (lead ++ middle ++ trail) =
      ⟨⟨middle, (middle.takeWhile (· != pathSep)).length⟩, !lead.isEmpty, !trail.isEmpty⟩ := by
  obtain ⟨x, rest, middle_eq⟩ := List.exists_cons_of_ne_nil nonempty
  have x_not_sep : x ≠ pathSep := fun same => head_ne (by rw [middle_eq, same]; rfl)
  have leading : (lead ++ middle ++ trail).takeWhile (· == pathSep) = lead := by
    rw [List.append_assoc, List.takeWhile_append_of_pos (by simpa using lead_seps), middle_eq,
      List.cons_append, List.takeWhile_cons_of_neg (by simpa using x_not_sep), List.append_nil]
  have trailing : (lead ++ middle ++ trail).reverse.takeWhile (· == pathSep) = trail.reverse := by
    obtain ⟨y, rest', reversed⟩ := List.exists_cons_of_ne_nil (List.reverse_ne_nil_iff.mpr nonempty)
    have y_not_sep : y ≠ pathSep := fun same => last_ne (by rw [← List.head?_reverse, reversed, same]; rfl)
    rw [List.reverse_append, List.takeWhile_append_of_pos (by simpa using trail_seps), List.reverse_append,
      reversed, List.cons_append, List.takeWhile_cons_of_neg (by simpa using y_not_sep), List.append_nil]
  have first : ((lead ++ middle ++ trail).drop (lead.length + 1)).takeWhile (· != pathSep) =
      (middle.drop 1).takeWhile (· != pathSep) := by
    rw [List.append_assoc, List.drop_length_add_append, List.drop_append_of_le_length
      (by rw [middle_eq]; simp)]
    apply takeWhile_append_of_head
    intro c head
    simp [trail_seps c (List.mem_of_mem_head? head)]
  have middle_length : 0 < middle.length := List.length_pos_iff.mpr nonempty
  unfold parse
  rw [if_neg (by simp [nonempty]), leading, trailing]
  dsimp only
  rw [first, if_neg (by simp only [List.length_append]; omega)]
  simp only [List.length_append, List.length_reverse]
  have taken : lead.length + middle.length + trail.length - 1 - trail.length + 1 - lead.length = middle.length := by
    omega
  rw [taken, List.append_assoc, List.drop_left, List.take_left]
  simp only [Path.mk.injEq, Iterator.mk.injEq, true_and]
  refine ⟨?_, ?_, ?_⟩
  · rw [middle_eq, List.drop_one, List.tail_cons, List.takeWhile_cons_of_pos (by simpa using x_not_sep),
      List.length_cons]
    omega
  · cases lead <;> simp
  · cases trail <;> simp
    omega

theorem parse_all_seps {s : List Char} (nonempty : s ≠ []) (all_sep : ∀ c ∈ s, c = pathSep) :
    parse s = ⟨terminal, true, true⟩ := by
  unfold parse
  rw [if_neg nonempty, List.takeWhile_eq_self_iff.mpr (by simpa using all_sep), if_pos rfl]

theorem parse_spec (s : List Char) :
    (parse s).begin.Canonical ∧ components (parse s).begin.partialPathname = components s ∧
      ((parse s).absolute = true ↔ s.head? = some pathSep) ∧
      ((parse s).dir = true ↔ s.getLast? = some pathSep) := by
  by_cases empty : s = []
  · subst empty
    exact ⟨canonical_terminal, rfl, by simp [parse], by simp [parse]⟩
  by_cases all_sep : ∀ c ∈ s, c = pathSep
  · -- only separators
    rw [parse_all_seps empty all_sep]
    obtain ⟨c, rest, s_eq⟩ := List.exists_cons_of_ne_nil empty
    obtain ⟨last, last_eq⟩ := Option.isSome_iff_exists.mp (List.getLast?_isSome.mpr empty)
    refine ⟨canonical_terminal, ?_, ?_, ?_⟩
    · rw [← List.append_nil s, components_seps_append all_sep]
      rfl
    · simp [s_eq, all_sep c (s_eq ▸ List.mem_cons_self)]
    · simp [last_eq, all_sep last (List.mem_of_getLast? last_eq)]
  · obtain ⟨lead, middle, trail, rfl, lead_seps, trail_seps, head_ne, last_ne, nonempty⟩ :=
      exists_trim (by simpa using all_sep)
    rw [parse_trim lead_seps trail_seps head_ne last_ne nonempty]
    refine ⟨⟨rfl, head_ne, last_ne⟩, ?_, ?_, ?_⟩
    · rw [components_append_seps _ trail_seps, components_seps_append lead_seps]
    · rw [List.append_assoc, head?_seps_append lead_seps (by rwa [List.head?_append_of_ne_nil _ nonempty])]
      simp
    · rw [getLast?_append_seps trail_seps (by rwa [List.getLast?_append_of_ne_nil _ nonempty])]
      simp

/-! ## Path.String -/

theorem isChain_of_sep_not_mem {w : List Char} (sep_free : pathSep ∉ w) :
    w.IsChain fun a b => ¬(a = pathSep ∧ b = pathSep) := by
  induction w with
  | nil => exact List.isChain_nil
  | cons c w ih =>
    rw [List.mem_cons, not_or] at sep_free
    exact List.isChain_cons.mpr ⟨fun _ _ both => sep_free.1 both.1.symm, ih sep_free.2⟩

theorem intercalate_shape : ∀ {cs : List (List Char)}, (∀ w ∈ cs, w ≠ [] ∧ pathSep ∉ w) →
    ([pathSep].intercalate cs).head? ≠ some pathSep ∧ ([pathSep].intercalate cs).getLast? ≠ some pathSep ∧
      ([pathSep].intercalate cs).IsChain fun a b => ¬(a = pathSep ∧ b = pathSep)
  | [], _ => ⟨nofun, nofun, List.isChain_nil⟩
  | [w], valid => by
    rw [List.intercalate_singleton]
    obtain ⟨_, sep_free⟩ := valid w List.mem_cons_self
    exact ⟨fun head => sep_free (List.mem_of_head? head), fun last => sep_free (List.mem_of_getLast? last),
      isChain_of_sep_not_mem sep_free⟩
  | w :: v :: vs, valid => by
    obtain ⟨head_ne, last_ne, chain⟩ := intercalate_shape fun u member => valid u (List.mem_cons_of_mem w member)
    obtain ⟨w_nonempty, w_sep_free⟩ := valid w List.mem_cons_self
    obtain ⟨x, rest, v_eq⟩ := List.exists_cons_of_ne_nil (valid v (by simp)).1
    have joined_ne : [pathSep].intercalate (v :: vs) ≠ [] := by
      rw [v_eq, List.intercalate_cons_cons_left]
      exact List.cons_ne_nil _ _
    rw [List.intercalate_cons_cons]
    refine ⟨?_, ?_, ?_⟩
    · rw [List.append_assoc, List.head?_append_of_ne_nil _ w_nonempty]
      exact fun head => w_sep_free (List.mem_of_head? head)
    · rwa [List.getLast?_append_of_ne_nil _ joined_ne]
    · refine List.IsChain.append (List.IsChain.append (isChain_of_sep_not_mem w_sep_free)
        (List.isChain_singleton _) ?_) chain ?_
      · intro a last _ _ both
        exact w_sep_free (both.1 ▸ List.mem_of_getLast? last)
      · intro _ _ b head both
        exact head_ne (Option.mem_def.mp (both.2 ▸ head))

theorem framed_shape (pre suf : List Char) {text : List Char} (pre_eq : pre = [] ∨ pre = [pathSep])
    (suf_eq : suf = [] ∨ suf = [pathSep]) (suf_text : suf ≠ [] → text ≠ [])
    (head_ne : text.head? ≠ some pathSep) (last_ne : text.getLast? ≠ some pathSep)
    (chain : text.IsChain fun a b => ¬(a = pathSep ∧ b = pathSep)) :
    components (pre ++ text ++ suf) = components text ∧
      ((pre ++ text ++ suf).head? = some pathSep ↔ pre ≠ []) ∧
      (text ≠ [] → ((pre ++ text ++ suf).getLast? = some pathSep ↔ suf ≠ [])) ∧
      (pre ++ text ++ suf).IsChain fun a b => ¬(a = pathSep ∧ b = pathSep) := by
  have pre_seps : ∀ c ∈ pre, c = pathSep := by rcases pre_eq with rfl | rfl <;> simp
  have suf_seps : ∀ c ∈ suf, c = pathSep := by rcases suf_eq with rfl | rfl <;> simp
  -- what follows the leading separator does not start with one
  have rest_head : (text ++ suf).head? ≠ some pathSep := by
    by_cases text_empty : text = []
    · have suf_empty : suf = [] := by_contra fun suf_ne => suf_text suf_ne text_empty
      simp [text_empty, suf_empty]
    · rwa [List.head?_append_of_ne_nil _ text_empty]
  refine ⟨?_, ?_, fun text_ne => ?_, ?_⟩
  · rw [components_append_seps _ suf_seps, components_seps_append pre_seps]
  · rw [List.append_assoc]
    exact head?_seps_append pre_seps rest_head
  · exact getLast?_append_seps suf_seps (by rwa [List.getLast?_append_of_ne_nil _ text_ne])
  · have pre_chain : pre.IsChain fun a b => ¬(a = pathSep ∧ b = pathSep) := by
      rcases pre_eq with rfl | rfl
      · exact List.isChain_nil
      · exact List.isChain_singleton _
    have suf_chain : suf.IsChain fun a b => ¬(a = pathSep ∧ b = pathSep) := by
      rcases suf_eq with rfl | rfl
      · exact List.isChain_nil
      · exact List.isChain_singleton _
    rw [List.append_assoc]
    refine List.IsChain.append pre_chain (List.IsChain.append chain suf_chain ?_) ?_
    · intro a last _ _ both
      exact last_ne (Option.mem_def.mp (both.1 ▸ last))
    · intro _ _ b head both
      exact rest_head (Option.mem_def.mp (both.2 ▸ head))

theorem parse_toString (s : List Char) :
    ∃ t, (parse s).toString = some t ∧ components t = components s ∧
      (t.head? = some pathSep ↔ (parse s).absolute = true) ∧
      (components s ≠ [] → (t.getLast? = some pathSep ↔ (parse s).dir = true)) ∧
      t.IsChain fun a b => ¬(a = pathSep ∧ b = pathSep) := by
  obtain ⟨canonical, same_components, -, -⟩ := parse_spec s
  obtain ⟨its, visited, strings, -⟩ := canonical.visit (Nat.lt_succ_self _)
  rw [same_components] at strings
  have ok_iff := canonical.ok_iff
  rw [same_components] at ok_iff
  have valid : ∀ w ∈ its.map Iterator.toString, w ≠ [] ∧ pathSep ∉ w := fun w member =>
    mem_components (strings ▸ member)
  obtain ⟨head_ne, last_ne, chain⟩ := intercalate_shape valid
  have text_ne : components s ≠ [] → [pathSep].intercalate (its.map Iterator.toString) ≠ [] := by
    intro nonempty empty
    apply nonempty
    rw [← strings, ← components_intercalate valid, empty, components_nil]
  obtain ⟨written_components, head_iff, last_iff, written_chain⟩ := framed_shape
    (if (parse s).absolute then [pathSep] else []) (if (parse s).dir && (parse s).begin.ok then [pathSep] else [])
    (by split <;> simp) (by split <;> simp)
    (fun suf_ne => text_ne (ok_iff.mp (by by_contra not_ok; simp [not_ok] at suf_ne)))
    head_ne last_ne chain
  refine ⟨_, by simp only [Path.toString, visitAll, visited, Option.map_some], ?_, ?_, fun nonempty => ?_,
    written_chain⟩
  · rw [written_components, components_intercalate valid, strings]
  · rw [head_iff]
    split <;> simp [*]
  · rw [last_iff (text_ne nonempty)]
    have ok := ok_iff.mpr nonempty
    split <;> simp_all

/-! ## Parse is faithful -/

theorem parse_is_faithful_and_string_round_trips (s : List Char) :
    ((parse s).absolute = true ↔ s.head? = some pathSep) ∧
      ((parse s).dir = true ↔ s.getLast? = some pathSep) ∧
      (∃ its, (parse s).begin.visitAll = some its ∧ its.map Iterator.toString = components s ∧
        ∀ it ∈ its, ∃ next, it.next = some next ∧ next.ok = it.nextOk) ∧
      ∃ t, (parse s).toString = some t ∧ (parse t).absolute = (parse s).absolute ∧
        (components s ≠ [] → (parse t).dir = (parse s).dir) ∧
        (parse t).begin.visitAll.map (·.map Iterator.toString) = some (components s) ∧
        ¬[pathSep, pathSep] <:+: t := by
  obtain ⟨canonical, same_components, absolute_iff, dir_iff⟩ := parse_spec s
  obtain ⟨its, visited, strings, steps⟩ := canonical.visit (Nat.lt_succ_self _)
  refine ⟨absolute_iff, dir_iff, ⟨its, visited, strings.trans same_components, steps⟩, ?_⟩
  -- parse the written string again
  obtain ⟨t, written, written_components, head_iff, last_iff, chain⟩ := parse_toString s
  obtain ⟨canonical', same_components', absolute_iff', dir_iff'⟩ := parse_spec t
  obtain ⟨its', visited', strings', -⟩ := canonical'.visit (Nat.lt_succ_self _)
  refine ⟨t, written, Bool.eq_iff_iff.mpr (absolute_iff'.trans head_iff),
    fun nonempty => Bool.eq_iff_iff.mpr (dir_iff'.trans (last_iff nonempty)), ?_, fun repeated => ?_⟩
  · rw [visitAll, visited', Option.map_some, strings', same_components', written_components]
  · exact List.isChain_pair.mp ( List.IsChain.infix chain repeated) ⟨rfl, rfl⟩

end Cijitter.Fspath
