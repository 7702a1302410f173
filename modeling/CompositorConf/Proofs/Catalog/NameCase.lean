import CompositorConf.Proofs.Catalog.Names
import Mathlib.Data.List.Forall2

/-!
# Paths that differ in the case of their names

Names of sections are compared up to ASCII case, with one exception: the root of a
document has a name of its own, which is compared exactly, since in lower case it
is the name of a section.

* `SameNames` relates paths that differ in the case of their names;
* `findSection?_congr` says of every catalog that such paths lead to the same section
  if both begin with the name of the root or both do not;
* `standard_findSection?_eq_iff` says of the standard catalog when else they do.
-/

namespace CompositorConf

open Text

/-- Paths of the same length whose names are pairwise equal up to ASCII case. -/
def SameNames (first second : List String) : Prop :=
  List.Forall₂ (fun name other => equalIgnoringCase name other = true)
    first second

theorem SameNames.symm {first second : List String}
    (same : SameNames first second) : SameNames second first := by
  apply same.flip.imp
  intro name other equal
  exact equalIgnoringCase_symm equal

theorem sameNames_iff {first second : List String} :
    SameNames first second ↔
      first.map lowerName = second.map lowerName := by
  rw [← List.forall₂_eq_eq_eq, List.forall₂_map_left_iff,
    List.forall₂_map_right_iff]
  simp only [SameNames, equalIgnoringCase_iff_lowerName]

instance (first second : List String) : Decidable (SameNames first second) :=
  decidable_of_iff _ sameNames_iff.symm

namespace Catalog

section Paths

variable {catalog : Catalog} {first second : List String}
  {name other : String}

theorem topLevel?_congr (equal : equalIgnoringCase name other = true) :
    catalog.topLevel? name = catalog.topLevel? other :=
  SectionDefinition.named?_congr equal

theorem foldlM_subsection?_congr (same : SameNames first second)
    (outermost : SectionDefinition) :
    first.foldlM SectionDefinition.subsection? outermost =
      second.foldlM SectionDefinition.subsection? outermost := by
  induction same generalizing outermost with
  | nil => rfl
  | @cons name other first second equal _ inductionHypothesis =>
      have sameInner : outermost.subsection? name =
          outermost.subsection? other := SectionDefinition.named?_congr equal
      rw [List.foldlM_cons, List.foldlM_cons, sameInner]
      cases outermost.subsection? other with
      | none => rfl
      | some inner => exact inductionHypothesis inner

theorem topLevel?_bind_congr (equal : equalIgnoringCase name other = true)
    (same : SameNames first second) :
    ((catalog.topLevel? name).bind fun outermost =>
        first.foldlM SectionDefinition.subsection? outermost) =
      (catalog.topLevel? other).bind fun outermost =>
        second.foldlM SectionDefinition.subsection? outermost := by
  rw [topLevel?_congr equal]
  simp only [foldlM_subsection?_congr same]

/-- A path of one name leads to the outermost section of that name: the name of
the root is that of a section in another case. -/
theorem findSection?_singleton (name : String) :
    catalog.findSection? [name] = catalog.topLevel? name := by
  by_cases isRoot : name = rootName
  · rw [isRoot]
    exact topLevel?_congr (by decide)
  · rw [findSection?_cons [] isRoot]
    cases catalog.topLevel? name <;> rfl

/-- Paths that both begin with the name of the root, or both do not, lead to the
same section. -/
theorem findSection?_congr (same : SameNames first second)
    (alike : first.head? = some rootName ↔ second.head? = some rootName) :
    catalog.findSection? first = catalog.findSection? second := by
  cases same with
  | nil => rfl
  | @cons name other first second equal rest =>
      simp only [List.head?_cons, Option.some.injEq] at alike
      by_cases isRoot : name = rootName
      · rw [isRoot, alike.mp isRoot]
        cases rest with
        | nil => rfl
        | cons next others =>
            rw [findSection?_root_cons, findSection?_root_cons]
            exact topLevel?_bind_congr next others
      · have otherNot : other ≠ rootName := fun same => isRoot (alike.mpr same)
        rw [findSection?_cons _ isRoot, findSection?_cons _ otherNot]
        exact topLevel?_bind_congr equal rest

end Paths

section Standard

variable {first second rest : List String} {general name other next : String}

/-- A path behind the name of the root, and the same path behind another case of
it, do not both lead to a section. -/
theorem standard_findSection?_root_cons
    (equal : equalIgnoringCase general rootName = true)
    (different : general ≠ rootName) {definition : SectionDefinition}
    (found : standard.findSection? (general :: next :: rest) =
      some definition) :
    standard.findSection? (rootName :: next :: rest) = none := by
  rw [findSection?_cons _ different, topLevel?_congr equal] at found
  obtain ⟨outermost, isOutermost, deeper⟩ := Option.bind_eq_some_iff.mp found
  rw [List.foldlM_cons] at deeper
  obtain ⟨inner, isInner, _⟩ := Option.bind_eq_some_iff.mp deeper
  rw [findSection?_root_cons,
    standard_topLevel?_of_inner isOutermost isInner]
  rfl

/-- If just the first of two such paths begins with the name of the root, and goes
on behind it, then both lead to the same section only by leading nowhere. -/
theorem eq_none_of_root_apart (same : SameNames first second)
    (long : ¬ first.length ≤ 1) (isRoot : first.head? = some rootName)
    (isNot : second.head? ≠ some rootName)
    (equal : standard.findSection? first = standard.findSection? second) :
    standard.findSection? first = none := by
  match first, second, same, long with
  | [_], _, .cons _ .nil, long => simp at long
  | name :: next :: rest, general :: other :: deeper,
      .cons isGeneral (.cons isNext isRest), _ =>
      rw [List.head?_cons, Option.some.injEq] at isRoot
      subst isRoot
      have different : general ≠ rootName := by simpa using isNot
      have backwards := equalIgnoringCase_symm isGeneral
      cases found : standard.findSection? (general :: other :: deeper) with
      | none => rw [equal, found]
      | some definition =>
          have behindRoot :=
            standard_findSection?_root_cons backwards different found
          rw [findSection?_root_cons] at behindRoot ⊢
          rw [topLevel?_bind_congr isNext isRest, behindRoot]

/-- Two paths that differ in the case of their names lead to the same section
exactly if both begin with the name of the root or both do not, or they have at
most one name, or neither leads anywhere. -/
theorem standard_findSection?_eq_iff (same : SameNames first second) :
    standard.findSection? first = standard.findSection? second ↔
      (first.head? = some rootName ↔ second.head? = some rootName) ∨
        first.length ≤ 1 ∨ standard.findSection? first = none ∧
          standard.findSection? second = none := by
  constructor
  · intro equal
    by_cases alike : first.head? = some rootName ↔ second.head? = some rootName
    · exact Or.inl alike
    · right
      by_cases short : first.length ≤ 1
      · exact Or.inl short
      · right
        by_cases isRoot : first.head? = some rootName
        · have isNot : second.head? ≠ some rootName :=
            fun alsoRoot => alike (iff_of_true isRoot alsoRoot)
          have none := eq_none_of_root_apart same short isRoot isNot equal
          exact ⟨none, equal ▸ none⟩
        · have alsoRoot : second.head? = some rootName := by
            by_contra isNot
            exact alike (iff_of_false isRoot isNot)
          rw [same.length_eq] at short
          have none :=
            eq_none_of_root_apart same.symm short alsoRoot isRoot equal.symm
          exact ⟨equal.symm ▸ none, none⟩
  · intro reasons
    rcases reasons with alike | short | none
    · exact findSection?_congr same alike
    · cases same with
      | nil => rfl
      | @cons name other _ _ equal rest =>
          cases rest with
          | nil =>
              rw [findSection?_singleton, findSection?_singleton,
                topLevel?_congr equal]
          | cons => simp at short
    · rw [none.1, none.2]

end Standard

end Catalog

end CompositorConf
