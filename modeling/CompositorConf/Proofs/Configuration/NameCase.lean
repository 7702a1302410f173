import CompositorConf.Proofs.Catalog.NameCase
import CompositorConf.Proofs.Configuration.Decoding
import CompositorConf.Proofs.Document.NameCase
import CompositorConf.Proofs.Text.Pieces

/-!
# Checking documents that differ in the case of section names

* `lookedUpPath` is the path of the section in which an assignment is looked up, and
  `LookedUpAlike` says when the paths of two assignments lead to the same section;
* `FailsAt` finds the assignment at which checking fails, and `SameOutcome` relates
  documents that are both accepted or fail alike at the same assignment;
* `recased_names_mean_alike` is the result.
-/

namespace CompositorConf

open Text Document

/-- An error with the path that it shows in lower case. -/
def DecodeError.lowered : DecodeError → DecodeError
  | .unknownVariable path key available =>
      .unknownVariable (lowerName path) key available
  | .typeMismatch path key expected found =>
      .typeMismatch (lowerName path) key expected found
  | .unresolvedVariable path key raw =>
      .unresolvedVariable (lowerName path) key raw

/-- An error without the path that it shows. -/
def DecodeError.pathless : DecodeError → DecodeError
  | .unknownVariable _ key available => .unknownVariable "" key available
  | .typeMismatch _ key expected found => .typeMismatch "" key expected found
  | .unresolvedVariable _ key raw => .unresolvedVariable "" key raw

theorem DecodeError.pathless_lowered (error : DecodeError) :
    error.lowered.pathless = error.pathless := by
  cases error <;> rfl

namespace Configuration

/-- The path of the section in which an assignment is looked up: names of the root
are left out, and the categories of the key are added. -/
def lookedUpPath (item : List String × Assignment) : List String :=
  (splitCategoryKey item.1 item.2.key).1

/-- The paths of two assignments agree up to the case of their names, or hold one
name at most. -/
def ShownAlike (first second : List String × Assignment) : Prop :=
  SameNames (lookedUpPath first) (lookedUpPath second) ∨
    (lookedUpPath first).length ≤ 1 ∧ (lookedUpPath second).length ≤ 1

/-- The paths of two assignments lead to the same section: they are shown alike, or
neither leads anywhere. -/
def LookedUpAlike (catalog : Catalog) (first second : List String × Assignment) :
    Prop :=
  ShownAlike first second ∨
    catalog.findSection? (lookedUpPath first) = none ∧
      catalog.findSection? (lookedUpPath second) = none

/-- The same assignment in sections whose paths differ in the case of their
names. -/
structure SamePlace (first second : List String × Assignment) : Prop where
  path : SameNames first.1 second.1
  assignment : first.2 = second.2

section Paths

variable {catalog : Catalog} {path other rest : List String}
  {first second : List String × Assignment}

/-- A name that is left in a path is that of the root up to case, or that of a name
left in the other path. -/
theorem exists_left_of_mem (same : SameNames path other) {name : String}
    (member : name ∈ path) :
    equalIgnoringCase rootName name = true ∨
      ∃ counterpart ∈ other.filter (· ≠ rootName),
        equalIgnoringCase counterpart name = true := by
  obtain ⟨counterpart, counterpartMember, equal⟩ :=
    exists_of_mem_of_forall₂ same member
  have backwards := equalIgnoringCase_symm equal
  by_cases isRoot : counterpart = rootName
  · rw [isRoot] at backwards
    exact Or.inl backwards
  · right
    refine ⟨counterpart, List.mem_filter.mpr ⟨counterpartMember, ?_⟩, backwards⟩
    simpa using isRoot

/-- Where one name is left at most, the names left are equal up to case, if the
root's stands for none. -/
theorem headD_filter_of_short (same : SameNames path other)
    (short : (path.filter (· ≠ rootName)).length ≤ 1)
    (otherShort : (other.filter (· ≠ rootName)).length ≤ 1) :
    equalIgnoringCase ((path.filter (· ≠ rootName)).headD rootName)
      ((other.filter (· ≠ rootName)).headD rootName) = true := by
  have left (name : String) (member : name ∈ path.filter (· ≠ rootName)) :=
    exists_left_of_mem same (List.mem_of_mem_filter member)
  have otherLeft (name : String)
      (member : name ∈ other.filter (· ≠ rootName)) :=
    exists_left_of_mem same.symm (List.mem_of_mem_filter member)
  generalize path.filter (· ≠ rootName) = names at left otherLeft short ⊢
  generalize other.filter (· ≠ rootName) = others
    at left otherLeft otherShort ⊢
  match names, others, short, otherShort with
  | [], [], _, _ => exact equalIgnoringCase_refl rootName
  | [name], [], _, _ =>
      have isRoot := left name List.mem_cons_self
      simp only [List.not_mem_nil, false_and, exists_false, or_false] at isRoot
      exact equalIgnoringCase_symm isRoot
  | [], [name], _, _ =>
      have isRoot := otherLeft name List.mem_cons_self
      simp only [List.not_mem_nil, false_and, exists_false, or_false] at isRoot
      exact isRoot
  | [name], [second], _, _ =>
      have forwards := left name List.mem_cons_self
      have backwards := otherLeft second List.mem_cons_self
      simp only [List.mem_singleton, exists_eq_left,
        equalIgnoringCase_iff_lowerName] at forwards backwards
      simp only [List.headD_cons, equalIgnoringCase_iff_lowerName]
      rcases forwards with isRoot | equal
      · rcases backwards with alsoRoot | equal
        · rw [← isRoot, alsoRoot]
        · exact equal
      · exact equal.symm

theorem findSection?_of_short (short : path.length ≤ 1) :
    catalog.findSection? path = catalog.topLevel? (path.headD rootName) := by
  match path, short with
  | [], _ => exact Catalog.topLevel?_congr (by decide)
  | [name], _ => exact Catalog.findSection?_singleton name

theorem lowerName_shownPath_of_short (short : path.length ≤ 1) :
    lowerName (shownPath path) = lowerName (path.headD rootName) := by
  match path, short with
  | [], _ => decide
  | [name], _ => simp [shownPath]

theorem lowerAscii_shownPath_cons (name : String) (rest : List String) :
    lowerAscii (shownPath (name :: rest)) =
      lowerAscii name ++ (rest.map lowerAscii).flatMap (':' :: ·) := by
  have joined : [':'].intercalate (name.toList :: rest.map String.toList) =
      name.toList ++ (rest.map String.toList).flatMap (':' :: ·) :=
    intercalate_append_cons [] name.toList (rest.map String.toList)
  have colon : Char.toLower ':' = ':' := by decide
  have separator : ":".toList = [':'] := by decide
  rw [lowerAscii, shownPath, String.toList_intercalate, List.map_cons, separator]
  · rw [joined, List.map_append, List.map_flatMap, List.flatMap_map,
      List.flatMap_map]
    simp only [List.map_cons, colon]
    rfl
  · simp

theorem lowerName_shownPath_congr (same : SameNames path other) :
    lowerName (shownPath path) = lowerName (shownPath other) := by
  cases same with
  | nil => rfl
  | @cons name other path others equal rest =>
      have names : path.map lowerAscii = others.map lowerAscii := by
        rw [← List.forall₂_eq_eq_eq, List.forall₂_map_left_iff,
          List.forall₂_map_right_iff]
        exact rest.imp fun _ _ => equalIgnoringCase_iff.mp
      rw [lowerName, lowerName, lowerAscii_shownPath_cons,
        lowerAscii_shownPath_cons, names, equalIgnoringCase_iff.mp equal]

/-- The names left in paths that agree up to case begin alike: neither begins with
the name of the root, unless nothing is left of both. -/
theorem head?_lookedUpPath (same : SamePlace first second)
    (alike : SameNames (lookedUpPath first) (lookedUpPath second)) :
    (lookedUpPath first).head? = some rootName ↔
      (lookedUpPath second).head? = some rootName := by
  have head (names categories : List String) (nonempty : names ≠ [])
      (left : ∀ name ∈ names, name ≠ rootName) :
      (names ++ categories).head? ≠ some rootName := by
    cases names with
    | nil => exact absurd rfl nonempty
    | cons name rest =>
        simpa using left name List.mem_cons_self
  have left (path : List String) :
      ∀ name ∈ path.filter (· ≠ rootName), name ≠ rootName := by
    intro name member
    simpa using (List.mem_filter.mp member).2
  have lengths := alike.length_eq
  simp only [lookedUpPath, splitCategoryKey, ← same.assignment,
    List.length_append] at lengths ⊢
  by_cases nothing : first.1.filter (· ≠ rootName) = []
  · have alsoNothing : second.1.filter (· ≠ rootName) = [] := by
      rw [← List.length_eq_zero_iff]
      rw [nothing, List.length_nil] at lengths
      omega
    rw [nothing, alsoNothing]
  · have alsoSome : second.1.filter (· ≠ rootName) ≠ [] := by
      intro empty
      rw [empty, List.length_nil] at lengths
      exact nothing (List.length_eq_zero_iff.mp (by omega))
    exact iff_of_false (head _ _ nothing (left _)) (head _ _ alsoSome (left _))

/-- Assignments at the same place are looked up in the same section, and shown
under the same path up to case. -/
theorem findSection?_of_shownAlike (catalog : Catalog) (same : SamePlace first second)
    (alike : ShownAlike first second) :
    catalog.findSection? (lookedUpPath first) =
        catalog.findSection? (lookedUpPath second) ∧
      lowerName (shownPath (lookedUpPath first)) =
        lowerName (shownPath (lookedUpPath second)) := by
  rcases alike with agree | ⟨short, otherShort⟩
  · exact ⟨Catalog.findSection?_congr agree (head?_lookedUpPath same agree),
      lowerName_shownPath_congr agree⟩
  · rw [findSection?_of_short short, findSection?_of_short otherShort,
      lowerName_shownPath_of_short short,
      lowerName_shownPath_of_short otherShort]
    have equal : equalIgnoringCase ((lookedUpPath first).headD rootName)
        ((lookedUpPath second).headD rootName) = true := by
      simp only [lookedUpPath, splitCategoryKey, ← same.assignment]
        at short otherShort ⊢
      by_cases plain : (keySegments first.2.key).dropLast = []
      · rw [plain, List.append_nil] at short otherShort ⊢
        rw [List.append_nil]
        exact headD_filter_of_short same.path short otherShort
      · have positive := List.length_pos_of_ne_nil plain
        rw [List.length_append] at short otherShort
        have nothing : first.1.filter (· ≠ rootName) = [] :=
          List.length_eq_zero_iff.mp (by omega)
        have alsoNothing : second.1.filter (· ≠ rootName) = [] :=
          List.length_eq_zero_iff.mp (by omega)
        rw [nothing, alsoNothing]
        exact equalIgnoringCase_refl _
    exact ⟨Catalog.topLevel?_congr equal,
      equalIgnoringCase_iff_lowerName.mp equal⟩

/-- Where one assignment sets a variable another does, and where it fails the other
fails with an error that is the same in a view. -/
structure ComesToSame (view : DecodeError → DecodeError) (catalog : Catalog)
    (first second : List String × Assignment) : Prop where
  sets : ∀ {definition value}, Sets catalog first definition value →
    Sets catalog second definition value
  fails : ∀ {error}, Fails catalog first error →
    ∃ otherError, Fails catalog second otherError ∧ view error = view otherError

theorem ComesToSame.pathless
    (same : ComesToSame DecodeError.lowered catalog first second) :
    ComesToSame DecodeError.pathless catalog first second where
  sets := same.sets
  fails := by
    intro error fails
    obtain ⟨otherError, otherFails, equal⟩ := same.fails fails
    refine ⟨otherError, otherFails, ?_⟩
    rw [← DecodeError.pathless_lowered, equal, DecodeError.pathless_lowered]

theorem declares_iff_of_shownAlike (same : SamePlace first second)
    (alike : ShownAlike first second) {definition : VariableDefinition} :
    Declares catalog first definition ↔ Declares catalog second definition := by
  have found := (findSection?_of_shownAlike catalog same alike).1
  simp only [lookedUpPath] at found
  rw [Declares, Declares, found, same.assignment]
  exact Iff.rfl

theorem target_key (same : SamePlace first second) :
    (target first).2 = (target second).2 := by
  rw [target, target, splitCategoryKey, splitCategoryKey, same.assignment]

theorem comesToSame_of_shownAlike (same : SamePlace first second)
    (alike : ShownAlike first second) :
    ComesToSame DecodeError.lowered catalog first second := by
  obtain ⟨found, shown⟩ := findSection?_of_shownAlike catalog same alike
  have key := target_key same
  have path : lowerName (target first).1 = lowerName (target second).1 := shown
  have declares {definition : VariableDefinition} :
      Declares catalog first definition ↔ Declares catalog second definition :=
    declares_iff_of_shownAlike same alike
  constructor
  · intro definition value sets
    exact ⟨declares.mp sets.declared, same.assignment ▸ sets.plain,
      same.assignment ▸ sets.coerced⟩
  · intro error fails
    cases fails with
    | unknown missing =>
        have names : availableNames catalog first =
            availableNames catalog second := by
          simp only [lookedUpPath] at found
          rw [availableNames, availableNames, found]
        refine ⟨_, .unknown fun definition declared =>
          missing definition (declares.mpr declared), ?_⟩
        simp only [DecodeError.lowered, path, key, names]
    | @unresolved definition raw declared custom =>
        refine ⟨_, .unresolved (declares.mp declared)
          (same.assignment ▸ custom), ?_⟩
        simp only [DecodeError.lowered, path, key]
    | @mismatched definition declared plain mismatch =>
        refine ⟨_, .mismatched (declares.mp declared)
          (same.assignment ▸ plain) (same.assignment ▸ mismatch), ?_⟩
        simp only [DecodeError.lowered, path, key, same.assignment]

/-- An assignment that leads to no section sets nothing, and no names are
available. -/
theorem undeclared_of_findSection?_eq_none {item : List String × Assignment}
    (missing : catalog.findSection? (lookedUpPath item) = none) :
    (∀ definition, ¬ Declares catalog item definition) ∧
      availableNames catalog item = [] := by
  rw [lookedUpPath] at missing
  constructor
  · rintro definition ⟨owner, isOwner, _⟩
    rw [missing] at isOwner
    cases isOwner
  · rw [availableNames, missing]

theorem comesToSame_of_findSection?_eq_none (same : SamePlace first second)
    (missing : catalog.findSection? (lookedUpPath first) = none)
    (otherMissing : catalog.findSection? (lookedUpPath second) = none) :
    ComesToSame DecodeError.pathless catalog first second := by
  obtain ⟨undeclared, noNames⟩ := undeclared_of_findSection?_eq_none missing
  obtain ⟨otherUndeclared, noOtherNames⟩ :=
    undeclared_of_findSection?_eq_none otherMissing
  constructor
  · intro definition value sets
    exact absurd sets.declared (undeclared definition)
  · intro error fails
    cases fails with
    | unknown _ =>
        refine ⟨_, .unknown otherUndeclared, ?_⟩
        simp only [DecodeError.pathless, target_key same, noNames, noOtherNames]
    | unresolved declared _ => exact absurd declared (undeclared _)
    | mismatched declared _ _ => exact absurd declared (undeclared _)

theorem comesToSame_of_lookedUpAlike (same : SamePlace first second)
    (alike : LookedUpAlike catalog first second) :
    ComesToSame DecodeError.pathless catalog first second := by
  rcases alike with shown | ⟨missing, otherMissing⟩
  · exact (comesToSame_of_shownAlike same shown).pathless
  · exact comesToSame_of_findSection?_eq_none same missing otherMissing

end Paths

/-! ## Documents -/

section Documents

variable {catalog : Catalog} {root other : Section} {index : Nat}
  {error : DecodeError}

/-- Checking fails at the assignment with an index: all before it set a variable,
and it fails. -/
def FailsAt (catalog : Catalog) (root : Section) (index : Nat)
    (error : DecodeError) : Prop :=
  ∃ before item after, locatedAssignments root = before ++ item :: after ∧
    before.length = index ∧
    (∀ earlier ∈ before,
      ∃ definition value, Sets catalog earlier definition value) ∧
    Fails catalog item error

/-- Two documents are both accepted, or checking fails at the same assignment of
both, with errors that are the same in a view. -/
def SameOutcome (view : DecodeError → DecodeError) (catalog : Catalog)
    (root other : Section) : Prop :=
  (∃ configuration otherConfiguration,
    decode catalog root = .ok configuration ∧
      decode catalog other = .ok otherConfiguration) ∨
  ∃ index error otherError,
    decode catalog root = .error error ∧
      decode catalog other = .error otherError ∧
        FailsAt catalog root index error ∧
          FailsAt catalog other index otherError ∧
            view error = view otherError

theorem decode_of_failsAt (fails : FailsAt catalog root index error) :
    decode catalog root = .error error := by
  obtain ⟨before, item, after, split, _, earlier, fails⟩ := fails
  rw [decode_eq_error_iff, settingsOf_eq_error_iff]
  simp only [exists_settingOf_iff, settingOf_eq_error_iff]
  exact ⟨before, item, after, split, earlier, fails⟩

theorem exists_failsAt (failed : decode catalog root = .error error) :
    ∃ index, FailsAt catalog root index error := by
  rw [decode_eq_error_iff, settingsOf_eq_error_iff] at failed
  simp only [exists_settingOf_iff, settingOf_eq_error_iff] at failed
  obtain ⟨before, item, after, split, earlier, fails⟩ := failed
  exact ⟨before.length, before, item, after, split, rfl, earlier, fails⟩

theorem sameOutcome_of_forall₂ {view : DecodeError → DecodeError}
    (same : List.Forall₂ (ComesToSame view catalog) (locatedAssignments root)
      (locatedAssignments other)) : SameOutcome view catalog root other := by
  have setsBoth {items others : List (List String × Assignment)}
      (pairs : List.Forall₂ (ComesToSame view catalog) items others)
      (sets : ∀ item ∈ items,
        ∃ definition value, Sets catalog item definition value) :
      ∀ item ∈ others,
        ∃ definition value, Sets catalog item definition value := by
    intro item member
    obtain ⟨counterpart, counterpartMember, comes⟩ :=
      exists_of_mem_of_forall₂ pairs.flip member
    obtain ⟨definition, value, isSet⟩ := sets counterpart counterpartMember
    exact ⟨definition, value, comes.sets isSet⟩
  cases outcome : decode catalog root with
  | ok configuration =>
      left
      have sets := exists_decode_iff.mp ⟨configuration, outcome⟩
      obtain ⟨otherConfiguration, accepted⟩ :=
        exists_decode_iff.mpr (setsBoth same sets)
      exact ⟨configuration, otherConfiguration, outcome, accepted⟩
  | error error =>
      right
      obtain ⟨index, before, item, after, split, length, earlier, fails⟩ :=
        exists_failsAt outcome
      rw [split] at same
      obtain ⟨otherBefore, otherItem, otherAfter, otherSplit, pairs, comes, _⟩ :=
        forall₂_append_cons same
      obtain ⟨otherError, otherFails, sameError⟩ := comes.fails fails
      have otherFailsAt : FailsAt catalog other index otherError :=
        ⟨otherBefore, otherItem, otherAfter, otherSplit,
          pairs.length_eq.symm.trans length, setsBoth pairs earlier, otherFails⟩
      exact ⟨index, error, otherError, outcome, decode_of_failsAt otherFailsAt,
        ⟨before, item, after, split, length, earlier, fails⟩, otherFailsAt,
        sameError⟩

theorem located_renamed (change : String → String) (current : Section) :
    ∀ path : List String,
      (current.renamed change).located (path.map change) =
        (current.located path).map fun item =>
          (item.1.map change, item.2.renamed change) := by
  induction current using Section.induct with
  | step current inductionHypothesis =>
      intro path
      have name (inner : Section) :
          (inner.renamed change).name = change inner.name := by
        cases inner
        rfl
      rw [Section.located_eq, Section.located_eq, Section.renamed_subsections,
        Section.locatedAll_eq_flatMap, Section.locatedAll_eq_flatMap,
        List.flatMap_map, List.map_cons, List.map_flatMap]
      apply congrArg (List.cons _)
      apply List.flatMap_congr
      intro inner member
      have below := inductionHypothesis inner member (path ++ [inner.name])
      rwa [List.map_append, List.map_singleton, ← name] at below

theorem locatedAssignments_renamed (change : String → String)
    (root : Section) :
    locatedAssignments (root.renamed change) =
      (locatedAssignments root).map fun item =>
        (item.1.map change, item.2) := by
  have located := located_renamed change root []
  have kept (current : Section) :
      (current.renamed change).assignments = current.assignments := by
    cases current
    rfl
  rw [List.map_nil] at located
  rw [locatedAssignments, located, List.flatMap_map, locatedAssignments,
    List.map_flatMap]
  simp only [kept, List.map_map]
  rfl

theorem samePlace_of_renamed
    (alike : root.renamed lowerName = other.renamed lowerName) :
    List.Forall₂ SamePlace (locatedAssignments root)
      (locatedAssignments other) := by
  have same := congrArg locatedAssignments alike
  rw [locatedAssignments_renamed, locatedAssignments_renamed,
    ← List.forall₂_eq_eq_eq, List.forall₂_map_left_iff,
    List.forall₂_map_right_iff] at same
  apply same.imp
  intro item otherItem equal
  obtain ⟨paths, assignments⟩ := Prod.mk.inj equal
  exact ⟨sameNames_iff.mpr paths, assignments⟩

end Documents

/-- Names of sections mean the same in any case, apart from that of the root, which
is compared exactly.  Two paths that differ in the case of their names lead to the
same section exactly if both begin with the name of the root or both do not, or
they have at most one name, or neither leads anywhere.  Two texts that differ in
the case of section names fail alike or have the same assignments in the same
order.  They have the same outcome, but for the paths that errors show, if each
assignment is looked up under paths that agree up to case, have at most one name, or
lead nowhere; and errors show the same path up to case if none of them only leads
nowhere. -/
theorem recased_names_mean_alike :
    (∀ path other : List String, SameNames path other →
      (Catalog.standard.findSection? path =
          Catalog.standard.findSection? other ↔
        (path.head? = some rootName ↔ other.head? = some rootName) ∨
          path.length ≤ 1 ∨ Catalog.standard.findSection? path = none ∧
            Catalog.standard.findSection? other = none)) ∧
    ∀ text other : List Char,
      List.Forall₂ IsRecased (lines text) (lines other) →
      (∀ error, parse Catalog.standard text = .error error ↔
        parse Catalog.standard other = .error error) ∧
      ∀ root otherRoot, parse Catalog.standard text = .ok root →
        parse Catalog.standard other = .ok otherRoot →
        List.Forall₂ SamePlace (locatedAssignments root)
          (locatedAssignments otherRoot) ∧
        (List.Forall₂ (LookedUpAlike Catalog.standard) (locatedAssignments root)
            (locatedAssignments otherRoot) →
          SameOutcome DecodeError.pathless Catalog.standard root otherRoot) ∧
        (List.Forall₂ ShownAlike (locatedAssignments root)
            (locatedAssignments otherRoot) →
          SameOutcome DecodeError.lowered Catalog.standard root otherRoot) := by
  constructor
  · intro path other same
    exact Catalog.standard_findSection?_eq_iff same
  · intro text other recased
    have trees := parse_recased Catalog.standard recased
    constructor
    · intro error
      have failed (outcome : Except ParseError Section) :
          outcome = .error error ↔
            outcome.map (Section.renamed lowerName) = .error error := by
        cases outcome <;> simp [Except.map]
      rw [failed, trees, ← failed]
    · intro root otherRoot parsed otherParsed
      rw [parsed, otherParsed] at trees
      have places := samePlace_of_renamed (Except.ok.inj trees)
      have both {alike : List String × Assignment → List String × Assignment → Prop}
          {view : DecodeError → DecodeError}
          (comes : ∀ item otherItem, SamePlace item otherItem →
            alike item otherItem → ComesToSame view Catalog.standard item otherItem)
          (pairs : List.Forall₂ alike (locatedAssignments root)
            (locatedAssignments otherRoot)) :
          SameOutcome view Catalog.standard root otherRoot :=
        sameOutcome_of_forall₂ (List.Forall₂.mp comes places pairs)
      exact ⟨places, both fun _ _ => comesToSame_of_lookedUpAlike,
        both fun _ _ => comesToSame_of_shownAlike⟩

/-- A section named as the root, and one in capitals that sets a number to a
word. -/
def capitalText : List Char :=
  ("General \x7b\n  gaps_in = 5\n\x7d\n" ++
    "DECORATION \x7b\n  rounding = x\n\x7d\n").toList

/-- The same text with the names of its sections in lower case. -/
def lowerText : List Char :=
  ("general \x7b\n  gaps_in = 5\n\x7d\n" ++
    "decoration \x7b\n  rounding = x\n\x7d\n").toList

theorem capitalText_recased :
    List.Forall₂ IsRecased (lines capitalText) (lines lowerText) := by
  have split : lines capitalText =
      ["General \x7b".toList, "  gaps_in = 5".toList, "\x7d".toList,
        "DECORATION \x7b".toList, "  rounding = x".toList, "\x7d".toList,
        []] := by decide +kernel
  have lowerSplit : lines lowerText =
      ["general \x7b".toList, "  gaps_in = 5".toList, "\x7d".toList,
        "decoration \x7b".toList, "  rounding = x".toList, "\x7d".toList,
        []] := by decide +kernel
  rw [split, lowerSplit]
  exact .cons (.of_not_mem (by decide) (by decide))
    (.cons (.refl _) (.cons (.refl _)
      (.cons (.of_not_mem (by decide) (by decide))
        (.cons (.refl _) (.cons (.refl _) (.cons (.refl _) .nil))))))

/-- A section that no catalog knows, inside one with the root's name. -/
def lostText : List Char :=
  "General \x7b\n  lost \x7b\n    enabled = true\n  \x7d\n\x7d\n".toList

def lowerLostText : List Char :=
  "general \x7b\n  lost \x7b\n    enabled = true\n  \x7d\n\x7d\n".toList

/-- Texts that differ in the case of the root's name on their first line only. -/
theorem recased_of_lines {text other : List Char} {rest : List (List Char)}
    (split : lines text = "General \x7b".toList :: rest)
    (otherSplit : lines other = "general \x7b".toList :: rest) :
    List.Forall₂ IsRecased (lines text) (lines other) := by
  rw [split, otherSplit]
  exact .cons (.of_not_mem (by decide) (by decide))
    (List.forall₂_same.mpr fun line _ => .refl line)

theorem lostText_recased :
    List.Forall₂ IsRecased (lines lostText) (lines lowerLostText) :=
  @recased_of_lines _ _ (lines lostText).tail (by decide +kernel)
    (by decide +kernel)

theorem recased_names_sample :
    Catalog.standard.findSection? ["Decoration", "BLUR"] =
        Catalog.standard.findSection? ["decoration", "blur"] ∧
      (∃ root other, parse Catalog.standard capitalText = .ok root ∧
        parse Catalog.standard lowerText = .ok other ∧
        SameOutcome DecodeError.lowered Catalog.standard root other) ∧
      ∃ root other, parse Catalog.standard lostText = .ok root ∧
        parse Catalog.standard lowerLostText = .ok other ∧
        (locatedAssignments root).map lookedUpPath = [["lost"]] ∧
        (locatedAssignments other).map lookedUpPath = [["general", "lost"]] ∧
        SameOutcome DecodeError.pathless Catalog.standard root other := by
  have evaluated : (parse Catalog.standard capitalText).toOption.map
      (fun root => (locatedAssignments root).map lookedUpPath) =
        some [[], ["DECORATION"]] := by
    decide +kernel
  have otherEvaluated : (parse Catalog.standard lowerText).toOption.map
      (fun root => (locatedAssignments root).map lookedUpPath) =
        some [["general"], ["decoration"]] := by
    decide +kernel
  have lostEvaluated : (parse Catalog.standard lostText).toOption.map
      (fun root => (locatedAssignments root).map lookedUpPath) =
        some [["lost"]] := by
    decide +kernel
  have lowerLostEvaluated : (parse Catalog.standard lowerLostText).toOption.map
      (fun root => (locatedAssignments root).map lookedUpPath) =
        some [["general", "lost"]] := by
    decide +kernel
  refine ⟨?_, ?_, ?_⟩
  · exact (recased_names_mean_alike.1 _ _ (by decide)).mpr
      (Or.inl (by decide))
  · obtain ⟨root, parsed, paths⟩ := exists_parse_of_map evaluated
    obtain ⟨other, otherParsed, otherPaths⟩ := exists_parse_of_map otherEvaluated
    have alike : List.Forall₂ (fun path otherPath =>
        SameNames path otherPath ∨ path.length ≤ 1 ∧ otherPath.length ≤ 1)
        ((locatedAssignments root).map lookedUpPath)
        ((locatedAssignments other).map lookedUpPath) := by
      rw [paths, otherPaths]
      exact .cons (by decide) (.cons (by decide) .nil)
    rw [List.forall₂_map_left_iff, List.forall₂_map_right_iff] at alike
    exact ⟨root, other, parsed, otherParsed,
      ((recased_names_mean_alike.2 _ _ capitalText_recased).2 root other
        parsed otherParsed).2.2 alike⟩
  · obtain ⟨root, parsed, paths⟩ := exists_parse_of_map lostEvaluated
    obtain ⟨other, otherParsed, otherPaths⟩ :=
      exists_parse_of_map lowerLostEvaluated
    have missing : List.Forall₂ (fun path otherPath =>
        Catalog.standard.findSection? path = none ∧
          Catalog.standard.findSection? otherPath = none)
        ((locatedAssignments root).map lookedUpPath)
        ((locatedAssignments other).map lookedUpPath) := by
      have nowhere : (Catalog.standard.findSection? ["lost"]).isNone ∧
          (Catalog.standard.findSection? ["general", "lost"]).isNone := by
        decide +kernel
      rw [paths, otherPaths]
      exact .cons (nowhere.imp Option.isNone_iff_eq_none.mp
        Option.isNone_iff_eq_none.mp) .nil
    rw [List.forall₂_map_left_iff, List.forall₂_map_right_iff] at missing
    exact ⟨root, other, parsed, otherParsed, paths, otherPaths,
      ((recased_names_mean_alike.2 _ _ lostText_recased).2 root other
        parsed otherParsed).2.1 (missing.imp fun _ _ => Or.inr)⟩

def snapText : List Char :=
  "general \x7b\n  snap \x7b\n    enabled = true\n  \x7d\n\x7d\n".toList

def rootSnapText : List Char :=
  "General \x7b\n  snap \x7b\n    enabled = true\n  \x7d\n\x7d\n".toList

/-- Behind its own name in this case, the root's `snap` is not found, and of two
texts that differ in the case of that name only one is accepted. -/
theorem root_name_apart :
    (SameNames ["General", "snap"] ["general", "snap"] ∧
      Catalog.standard.findSection? ["General", "snap"] ≠
        Catalog.standard.findSection? ["general", "snap"]) ∧
    List.Forall₂ IsRecased (lines rootSnapText) (lines snapText) ∧
    ∃ root other, parse Catalog.standard rootSnapText = .ok root ∧
      parse Catalog.standard snapText = .ok other ∧
      decode Catalog.standard root =
        .error (.unknownVariable "snap" "enabled" []) ∧
      ∃ configuration, decode Catalog.standard other = .ok configuration := by
  have recased :
      List.Forall₂ IsRecased (lines rootSnapText) (lines snapText) :=
    @recased_of_lines _ _ (lines rootSnapText).tail (by decide +kernel)
      (by decide +kernel)
  have evaluated : (parse Catalog.standard rootSnapText).toOption.map
      (fun root => match decode Catalog.standard root with
        | .error error => some error
        | .ok _ => none) =
        some (some (.unknownVariable "snap" "enabled" [])) := by
    decide +kernel
  have otherEvaluated : (parse Catalog.standard snapText).toOption.map
      (fun root => (decode Catalog.standard root).toOption.isSome) =
        some true := by
    decide +kernel
  obtain ⟨root, parsed, failed⟩ := exists_parse_of_map evaluated
  obtain ⟨other, otherParsed, accepted⟩ := exists_parse_of_map otherEvaluated
  refine ⟨⟨by decide, ?_⟩, recased, root, other, parsed, otherParsed, ?_, ?_⟩
  · have apart : (Catalog.standard.findSection? ["General", "snap"]).isSome ≠
        (Catalog.standard.findSection? ["general", "snap"]).isSome := by
      decide +kernel
    exact fun same => apart (congrArg Option.isSome same)
  · cases outcome : decode Catalog.standard root with
    | error error =>
        rw [outcome] at failed
        exact congrArg Except.error (Option.some.inj failed)
    | ok configuration =>
        rw [outcome] at failed
        cases failed
  · cases outcome : decode Catalog.standard other with
    | error error =>
        rw [outcome] at accepted
        cases accepted
    | ok configuration => exact ⟨configuration, rfl⟩

end Configuration

end CompositorConf
