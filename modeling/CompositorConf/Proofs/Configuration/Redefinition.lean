import CompositorConf.Proofs.Catalog.Names
import CompositorConf.Proofs.Configuration.Decoding
import CompositorConf.Proofs.Document.TreeOrder

/-!
# Variables that are assigned more than once

A configuration keeps one value for each shown path and name.  Assignments of one
variable of the catalog can be spelled in several ways: in a section or with its
name in front of the key, and in any case.  Each way to spell the path has an
entry of its own, and for each entry the last assignment in the tree is kept.

* `findSection?_of_shownPath` reads a shown path back;
* `HasEntry` says which entries of a configuration are for a variable, and
  `hasEntry_iff` and `existsUnique_hasEntry_iff` which and how many there are;
* `decode_keeps_assignments` is the result for a whole document;
* `nestedRounding` sets a variable in a section and again below it, and
  `twiceGeneral` in two sections that differ in case.
-/

namespace CompositorConf

open Text Document

namespace Configuration

section Paths

variable {catalog : Catalog} {names : List String}
  {definition : SectionDefinition}

/-- What a path leads to is found again under the path as it is shown. -/
theorem findSection?_of_shownPath (wellNamed : catalog.WellNamed)
    (found : catalog.findSection? names = some definition) :
    catalog.findSection? (keySegments (shownPath names)) =
      some definition := by
  cases names with
  | nil =>
      have single : keySegments generalName = [generalName] := by
        decide +kernel
      have isGeneral : catalog.topLevel? generalName = some definition := found
      rw [shownPath, single, Catalog.findSection?_cons [] (by decide),
        isGeneral]
      rfl
  | cons first rest =>
      have plain := wellNamed.not_mem_colon found
      have split := keySegments_intercalate (List.cons_ne_nil first rest) plain
      rw [shownPath, split]
      · exact found
      · exact List.cons_ne_nil first rest

end Paths

/-- The assignment at a place is for a variable of the catalog. -/
def Resolves (catalog : Catalog) (found : LocatedVariable)
    (place : Placed Assignment) : Prop :=
  catalog.resolve? place.path place.item.key = some found

/-- The shown path and the name under which the assignment at a place is kept. -/
def entryOf (place : Placed Assignment) : String × String :=
  target (place.path, place.item)

theorem entryOf_eq (place : Placed Assignment) :
    entryOf place =
      (shownPath (splitCategoryKey place.path place.item.key).1,
        (splitCategoryKey place.path place.item.key).2) :=
  rfl

/-- A shown path and a name lead to a variable of the catalog. -/
structure StandsFor (catalog : Catalog) (found : LocatedVariable)
    (entry : String × String) : Prop where
  owner : catalog.findSection? (keySegments entry.1) = some found.owner
  declared : found.owner.lookup? entry.2 = some found.definition

/-- A configuration has a value under a shown path and a name that lead to a
variable of the catalog. -/
structure HasEntry (catalog : Catalog) (configuration : Configuration)
    (found : LocatedVariable) (entry : String × String) : Prop where
  isSet : (configuration.get? entry.1 entry.2).isSome
  standsFor : StandsFor catalog found entry

section Assignments

variable {catalog : Catalog} {text : List Char} {root : Section}
  {configuration : Configuration} {found : LocatedVariable}
  {place latest : Placed Assignment} {entry : String × String} {value : Value}

theorem locatedAssignments_eq_map (root : Section) :
    locatedAssignments root =
      (Listing.assignments.placed root).map fun place =>
        (place.path, place.item) := by
  rw [locatedAssignments, Listing.placed, List.map_flatMap]
  simp only [List.map_map, Function.comp_def]
  rfl

theorem sets_of_decode (decoded : decode catalog root = .ok configuration)
    (member : place ∈ Listing.assignments.placed root) :
    ∃ definition value,
      Sets catalog (place.path, place.item) definition value := by
  apply exists_decode_iff.mp ⟨configuration, decoded⟩
  rw [locatedAssignments_eq_map]
  exact List.mem_map.mpr ⟨place, member, rfl⟩

theorem standsFor_entryOf_iff (wellNamed : catalog.WellNamed)
    {definition : VariableDefinition}
    (declares : Declares catalog (place.path, place.item) definition) :
    StandsFor catalog found (entryOf place) ↔ Resolves catalog found place := by
  obtain ⟨owner, isOwner, declared⟩ := declares
  have shown := findSection?_of_shownPath wellNamed isOwner
  rw [Resolves, Catalog.resolve?_eq_some_iff]
  constructor
  · rintro ⟨isFound, variableFound⟩
    have same : owner = found.owner :=
      Option.some.inj (shown.symm.trans isFound)
    rw [← same]
    exact ⟨isOwner, same ▸ variableFound⟩
  · rintro ⟨isFound, variableFound⟩
    have same : owner = found.owner :=
      Option.some.inj (isOwner.symm.trans isFound)
    rw [same] at shown
    exact ⟨shown, variableFound⟩

theorem get?_isSome_iff (decoded : decode catalog root = .ok configuration) :
    (configuration.get? entry.1 entry.2).isSome ↔
      ∃ place ∈ Listing.assignments.placed root, entryOf place = entry := by
  obtain ⟨settings, checked, rfl⟩ := decode_eq_ok_iff.mp decoded
  refine (valueIn?_isSome_iff (settingsOf_eq_ok_iff.mp checked) _ _).trans ?_
  rw [locatedAssignments_eq_map]
  constructor
  · rintro ⟨item, member, same⟩
    obtain ⟨place, placed, rfl⟩ := List.mem_map.mp member
    exact ⟨place, placed, same⟩
  · rintro ⟨place, placed, same⟩
    exact ⟨_, List.mem_map_of_mem placed, same⟩

/-- The value under a path and a name is that of the last assignment in the tree
that is kept under them. -/
theorem get?_eq_some_iff (parsed : parse catalog text = .ok root)
    (decoded : decode catalog root = .ok configuration) :
    configuration.get? entry.1 entry.2 = some value ↔
      ∃ survivor definition,
        Listing.assignments.IsLast root (entryOf · = entry) survivor ∧
          Sets catalog (survivor.path, survivor.item) definition value := by
  obtain ⟨settings, checked, rfl⟩ := decode_eq_ok_iff.mp decoded
  refine (valueIn?_eq_some_iff (settingsOf_eq_ok_iff.mp checked)).trans ?_
  rw [locatedAssignments_eq_map]
  constructor
  · rintro ⟨before, item, after, definition, split, isTarget, none, sets⟩
    obtain ⟨placesBefore, rest, placed, _, others⟩ :=
      List.map_eq_append_iff.mp split
    obtain ⟨survivor, placesAfter, rfl, rfl, rfl⟩ :=
      List.map_eq_cons_iff.mp others
    have isLast := (Listing.isLast_iff_split parsed).mpr
      ⟨placesBefore, placesAfter, placed, isTarget,
        fun later member => none _ (List.mem_map_of_mem member)⟩
    exact ⟨survivor, definition, isLast, sets⟩
  · rintro ⟨survivor, definition, isLast, sets⟩
    obtain ⟨before, after, split, isTarget, none⟩ :=
      (Listing.isLast_iff_split parsed).mp isLast
    refine ⟨before.map fun place => (place.path, place.item), _,
      after.map fun place => (place.path, place.item), definition, ?_,
      isTarget, ?_, sets⟩
    · rw [split, List.map_append, List.map_cons]
    · intro later member
      obtain ⟨other, otherMember, rfl⟩ := List.mem_map.mp member
      exact none other otherMember

/-- The entries for a variable are the ways in which its assignments spell it. -/
theorem hasEntry_iff (wellNamed : catalog.WellNamed)
    (decoded : decode catalog root = .ok configuration) :
    HasEntry catalog configuration found entry ↔
      ∃ place ∈ Listing.assignments.placed root,
        Resolves catalog found place ∧ entryOf place = entry := by
  constructor
  · rintro ⟨isSet, standsFor⟩
    obtain ⟨place, member, rfl⟩ := (get?_isSome_iff decoded).mp isSet
    obtain ⟨_, _, sets⟩ := sets_of_decode decoded member
    have resolves := (standsFor_entryOf_iff wellNamed sets.declared).mp standsFor
    exact ⟨place, member, resolves, rfl⟩
  · rintro ⟨place, member, resolves, rfl⟩
    obtain ⟨_, _, sets⟩ := sets_of_decode decoded member
    constructor
    · exact (get?_isSome_iff decoded).mpr ⟨place, member, rfl⟩
    · exact (standsFor_entryOf_iff wellNamed sets.declared).mpr resolves

theorem HasEntry.resolves (wellNamed : catalog.WellNamed)
    (decoded : decode catalog root = .ok configuration)
    (hasEntry : HasEntry catalog configuration found entry)
    (member : place ∈ Listing.assignments.placed root)
    (same : entryOf place = entry) : Resolves catalog found place := by
  obtain ⟨_, _, sets⟩ := sets_of_decode decoded member
  apply (standsFor_entryOf_iff wellNamed sets.declared).mp
  rw [same]
  exact hasEntry.standsFor

theorem Sets.definition_eq {definition : VariableDefinition}
    (sets : Sets catalog (place.path, place.item) definition value)
    (resolves : Resolves catalog found place) :
    definition = found.definition := by
  have declares : Declares catalog (place.path, place.item) found.definition :=
    declares_iff_resolve?.mpr ⟨found.owner, resolves⟩
  exact sets.declared.unique declares

/-- An entry has the value of the last assignment in the tree that is spelled in
its way. -/
theorem HasEntry.survives (wellNamed : catalog.WellNamed)
    (parsed : parse catalog text = .ok root)
    (decoded : decode catalog root = .ok configuration)
    (hasEntry : HasEntry catalog configuration found entry) :
    ∃ survivor latest value,
      Listing.assignments.Survives root (entryOf · = entry) survivor latest ∧
        Sets catalog (survivor.path, survivor.item) found.definition value ∧
        configuration.get? entry.1 entry.2 = some value := by
  obtain ⟨value, isValue⟩ := Option.isSome_iff_exists.mp hasEntry.isSet
  obtain ⟨survivor, definition, isLast, sets⟩ :=
    (get?_eq_some_iff parsed decoded).mp isValue
  have spelled : ∃ place ∈ Listing.assignments.placed root,
      entryOf place = entry := ⟨survivor, isLast.member, isLast.chosen⟩
  obtain ⟨latest, isLatest⟩ := Listing.exists_isLatest spelled
  have resolves :=
    hasEntry.resolves wellNamed decoded isLast.member isLast.chosen
  rw [sets.definition_eq resolves] at sets
  exact ⟨survivor, latest, value, isLast.survives parsed isLatest, sets,
    isValue⟩

/-- There is one entry for a variable exactly if it is set, and spelled in one
way. -/
theorem existsUnique_hasEntry_iff (wellNamed : catalog.WellNamed)
    (decoded : decode catalog root = .ok configuration) :
    (∃! entry, HasEntry catalog configuration found entry) ↔
      (∃ place ∈ Listing.assignments.placed root,
        Resolves catalog found place) ∧
        ∀ first ∈ Listing.assignments.placed root,
          ∀ second ∈ Listing.assignments.placed root,
            Resolves catalog found first → Resolves catalog found second →
              entryOf first = entryOf second := by
  constructor
  · rintro ⟨entry, hasEntry, unique⟩
    obtain ⟨place, member, resolves, _⟩ :=
      (hasEntry_iff wellNamed decoded).mp hasEntry
    refine ⟨⟨place, member, resolves⟩, ?_⟩
    intro first firstMember second secondMember firstResolves secondResolves
    have firstEntry := unique (entryOf first)
      ((hasEntry_iff wellNamed decoded).mpr
        ⟨first, firstMember, firstResolves, rfl⟩)
    have secondEntry := unique (entryOf second)
      ((hasEntry_iff wellNamed decoded).mpr
        ⟨second, secondMember, secondResolves, rfl⟩)
    rw [firstEntry, secondEntry]
  · rintro ⟨⟨place, member, resolves⟩, alike⟩
    refine ⟨entryOf place, (hasEntry_iff wellNamed decoded).mpr
      ⟨place, member, resolves, rfl⟩, ?_⟩
    intro entry hasEntry
    obtain ⟨other, otherMember, otherResolves, same⟩ :=
      (hasEntry_iff wellNamed decoded).mp hasEntry
    rw [← same]
    exact alike other otherMember place member otherResolves resolves

/-- The assignment on the greatest line is the one that is kept, if all
assignments of its variable are spelled as it is and none stands in a section
inside its own. -/
theorem get?_of_isLatest (wellNamed : catalog.WellNamed)
    (parsed : parse catalog text = .ok root)
    (decoded : decode catalog root = .ok configuration)
    (isLatest :
      Listing.assignments.IsLatest root (Resolves catalog found) latest)
    (alike : ∀ other ∈ Listing.assignments.placed root,
      Resolves catalog found other →
        entryOf other = entryOf latest ∧
          other.holder ∉ latest.holder.descendants) :
    (∀ entry, HasEntry catalog configuration found entry ↔
      entry = entryOf latest) ∧
      ∃ value,
        Sets catalog (latest.path, latest.item) found.definition value ∧
          configuration.get? (entryOf latest).1 (entryOf latest).2 =
            some value := by
  have hasEntry : HasEntry catalog configuration found (entryOf latest) :=
    (hasEntry_iff wellNamed decoded).mpr
      ⟨latest, isLatest.member, isLatest.chosen, rfl⟩
  have resolves : ∀ other ∈ Listing.assignments.placed root,
      entryOf other = entryOf latest → Resolves catalog found other :=
    fun other member same => hasEntry.resolves wellNamed decoded member same
  -- All assignments of the variable have one spelling, so nothing is lost by
  -- looking at the spelling alone.
  have latestSpelled :
      Listing.assignments.IsLatest root (entryOf · = entryOf latest) latest :=
    ⟨isLatest.member, rfl, fun other member same =>
      isLatest.greatest other member (resolves other member same)⟩
  have isLast :
      Listing.assignments.IsLast root (entryOf · = entryOf latest) latest := by
    rw [Listing.isLast_iff_of_isLatest parsed latestSpelled]
    intro other member same
    exact (alike other member (resolves other member same)).2
  obtain ⟨survivor, _, value, survives, sets, isValue⟩ :=
    hasEntry.survives wellNamed parsed decoded
  rw [survives.isLast.unique isLast] at sets
  refine ⟨?_, value, sets, isValue⟩
  intro entry
  constructor
  · intro other
    obtain ⟨place, member, isVariable, rfl⟩ :=
      (hasEntry_iff wellNamed decoded).mp other
    exact (alike place member isVariable).1
  · intro same
    rw [same]
    exact hasEntry

/-- **Each spelling of a variable keeps its last assignment in the tree.**  For a
variable of the standard catalog, a configuration has one entry for each way in
which assignments spell it.  The value of an entry is that of the last assignment
in the tree that is spelled so, which is the one on the greatest line exactly if
none stands in a section inside its own.  So the assignment on the greatest line
of the document is the only one kept if all are spelled alike and none stands in
a section inside its own. -/
theorem decode_keeps_assignments (parsed : parse .standard text = .ok root)
    (decoded : decode .standard root = .ok configuration)
    (found : LocatedVariable) :
    (∀ entry, HasEntry .standard configuration found entry ↔
      ∃ place ∈ Listing.assignments.placed root,
        Resolves .standard found place ∧ entryOf place = entry) ∧
      (∀ entry, HasEntry .standard configuration found entry →
        ∃ survivor latest value,
          Listing.assignments.Survives root (entryOf · = entry) survivor
              latest ∧
            Sets .standard (survivor.path, survivor.item) found.definition
              value ∧
            configuration.get? entry.1 entry.2 = some value) ∧
      ((∃! entry, HasEntry .standard configuration found entry) ↔
        (∃ place ∈ Listing.assignments.placed root,
          Resolves .standard found place) ∧
          ∀ first ∈ Listing.assignments.placed root,
            ∀ second ∈ Listing.assignments.placed root,
              Resolves .standard found first →
                Resolves .standard found second →
                  entryOf first = entryOf second) ∧
      ∀ latest,
        Listing.assignments.IsLatest root (Resolves .standard found) latest →
          (∀ other ∈ Listing.assignments.placed root,
            Resolves .standard found other →
              entryOf other = entryOf latest ∧
                other.holder ∉ latest.holder.descendants) →
            (∀ entry, HasEntry .standard configuration found entry ↔
              entry = entryOf latest) ∧
              ∃ value,
                Sets .standard (latest.path, latest.item) found.definition
                    value ∧
                  configuration.get? (entryOf latest).1 (entryOf latest).2 =
                    some value := by
  have wellNamed := Catalog.standard_wellNamed
  refine ⟨?_, ?_, ?_, ?_⟩
  · intro entry
    exact hasEntry_iff wellNamed decoded
  · intro entry hasEntry
    exact hasEntry.survives wellNamed parsed decoded
  · exact existsUnique_hasEntry_iff wellNamed decoded
  · intro latest isLatest alike
    exact get?_of_isLatest wellNamed parsed decoded isLatest alike

def nestedRounding : List Char :=
  ("decoration \x7b\n  rounding = 1\n\x7d\n" ++
    "decoration:rounding = 2\n").toList

/-- What is kept of the text is what stands in the section. -/
structure KeepsInner (root : Section) (configuration : Configuration)
    (found : LocatedVariable) (latest : Placed Assignment) : Prop where
  parsed : parse .standard nestedRounding = .ok root
  decoded : decode .standard root = .ok configuration
  isLatest :
    Listing.assignments.IsLatest root (Resolves .standard found) latest
  latestLine : latest.item.value.span.start.line = 3
  hasEntry : HasEntry .standard configuration found ("decoration", "rounding")
  keptLine :
    (configuration.get? "decoration" "rounding").map (·.span.start.line) =
      some 1

theorem exists_rounding :
    ∃ found, Catalog.standard.resolve? ["decoration"] "rounding" = some found ∧
      Catalog.standard.resolve? [] "decoration:rounding" = some found := by
  have isFound :
      (Catalog.standard.resolve? ["decoration"] "rounding").isSome = true := by
    decide +kernel
  have split : splitCategoryKey [] "decoration:rounding" =
      splitCategoryKey ["decoration"] "rounding" := by
    decide +kernel
  obtain ⟨found, resolved⟩ := Option.isSome_iff_exists.mp isFound
  refine ⟨found, resolved, ?_⟩
  rw [← resolved, Catalog.resolve?, split]
  rfl

theorem decode_nestedRounding :
    ∃ root configuration, parse .standard nestedRounding = .ok root ∧
      decode .standard root = .ok configuration ∧
      ((configuration.get? "decoration" "rounding").map (·.span.start.line),
        (Listing.assignments.placed root).map fun place =>
          ((place.path, place.item.key), place.item.position.line,
            place.item.value.span.start.line)) =
        (some 1, [(([], "decoration:rounding"), 3, 3),
          ((["decoration"], "rounding"), 1, 1)]) := by
  apply exists_decode_of_map (fun root configuration =>
    ((configuration.get? "decoration" "rounding").map (·.span.start.line),
      (Listing.assignments.placed root).map fun place =>
        ((place.path, place.item.key), place.item.position.line,
          place.item.value.span.start.line)))
  decide +kernel

theorem exists_keepsInner :
    ∃ root configuration found latest,
      KeepsInner root configuration found latest := by
  obtain ⟨root, configuration, parsed, decoded, view⟩ := decode_nestedRounding
  obtain ⟨found, inside, below⟩ := exists_rounding
  obtain ⟨latest, rest, placed, seen, others⟩ :=
    List.map_eq_cons_iff.mp (congrArg Prod.snd view)
  obtain ⟨inner, none, rfl, innerSeen, isNil⟩ := List.map_eq_cons_iff.mp others
  rw [List.map_eq_nil_iff.mp isNil] at placed
  simp only [Prod.mk.injEq] at seen innerSeen
  have resolves : Resolves .standard found latest := by
    rw [Resolves, seen.1.1, seen.1.2]
    exact below
  have innerResolves : Resolves .standard found inner := by
    rw [Resolves, innerSeen.1.1, innerSeen.1.2]
    exact inside
  have isLatest :
      Listing.assignments.IsLatest root (Resolves .standard found) latest := by
    apply Listing.isLatest_of_cons placed resolves
    intro other member
    rw [List.mem_singleton.mp member]
    change inner.item.position.line ≤ latest.item.position.line
    omega
  have innerEntry : entryOf inner = ("decoration", "rounding") := by
    rw [entryOf_eq, innerSeen.1.1, innerSeen.1.2]
    decide +kernel
  have innerMember : inner ∈ Listing.assignments.placed root := by
    rw [placed]
    exact List.mem_cons_of_mem _ List.mem_cons_self
  have hasEntry :=
    (hasEntry_iff Catalog.standard_wellNamed decoded).mpr
      ⟨inner, innerMember, innerResolves, innerEntry⟩
  exact ⟨root, configuration, found, latest, parsed, decoded, isLatest,
    seen.2.2, hasEntry, congrArg Prod.fst view⟩

/-- The assignment in the section is kept. -/
theorem nestedRounding_keeps_assignments :
    ∃ root configuration found latest, ∃ survivor : Placed Assignment,
      ∃ value, KeepsInner root configuration found latest ∧
        Sets .standard (survivor.path, survivor.item) found.definition
          value ∧
        value.span.start.line = 1 := by
  obtain ⟨root, configuration, found, latest, keeps⟩ := exists_keepsInner
  obtain ⟨survivor, _, value, _, sets, isSet⟩ :=
    (decode_keeps_assignments keeps.parsed keeps.decoded found).2.1 _
      keeps.hasEntry
  have line := keeps.keptLine
  rw [isSet, Option.map_some, Option.some.injEq] at line
  exact ⟨root, configuration, found, latest, survivor, value, keeps, sets,
    line⟩

def twiceGeneral : List Char :=
  ("general \x7b\n  gaps_in = 1\n\x7d\n" ++
    "GENERAL \x7b\n  gaps_in = 2\n\x7d\n").toList

theorem decode_twiceGeneral :
    ∃ root configuration, parse .standard twiceGeneral = .ok root ∧
      decode .standard root = .ok configuration ∧
      ((Listing.assignments.placed root).map fun place =>
        (place.path, place.item.key)) =
        [(["general"], "gaps_in"), (["GENERAL"], "gaps_in")] := by
  apply exists_decode_of_map (fun root _ =>
    (Listing.assignments.placed root).map fun place =>
      (place.path, place.item.key))
  decide +kernel

theorem exists_gapsIn :
    ∃ found, Catalog.standard.resolve? ["general"] "gaps_in" = some found ∧
      Catalog.standard.resolve? ["GENERAL"] "gaps_in" = some found := by
  have isFound :
      (Catalog.standard.resolve? ["general"] "gaps_in").isSome = true := by
    decide +kernel
  obtain ⟨found, resolved⟩ := Option.isSome_iff_exists.mp isFound
  refine ⟨found, resolved, ?_⟩
  have same : Catalog.standard.topLevel? "GENERAL" =
      Catalog.standard.topLevel? "general" :=
    SectionDefinition.named?_congr (by decide +kernel)
  have owners : Catalog.standard.findSection? ["GENERAL"] =
      Catalog.standard.findSection? ["general"] := by
    rw [Catalog.findSection?_cons [] (by decide),
      Catalog.findSection?_cons [] (by decide), same]
  have capital : splitCategoryKey ["GENERAL"] "gaps_in" =
      (["GENERAL"], "gaps_in") := by decide +kernel
  have small : splitCategoryKey ["general"] "gaps_in" =
      (["general"], "gaps_in") := by decide +kernel
  rw [Catalog.resolve?_eq_some_iff, small] at resolved
  rw [Catalog.resolve?_eq_some_iff, capital]
  exact ⟨owners.trans resolved.1, resolved.2⟩

/-- Two entries are kept for the variable of the text. -/
theorem exists_two_entries :
    ∃ (root : Section) (configuration : Configuration)
      (found : LocatedVariable), parse .standard twiceGeneral = .ok root ∧
      decode .standard root = .ok configuration ∧
      HasEntry .standard configuration found ("general", "gaps_in") ∧
      HasEntry .standard configuration found ("GENERAL", "gaps_in") := by
  have wellNamed := Catalog.standard_wellNamed
  obtain ⟨root, configuration, parsed, decoded, view⟩ := decode_twiceGeneral
  obtain ⟨found, small, capital⟩ := exists_gapsIn
  obtain ⟨first, rest, placed, seen, others⟩ := List.map_eq_cons_iff.mp view
  obtain ⟨second, none, rfl, secondSeen, _⟩ := List.map_eq_cons_iff.mp others
  simp only [Prod.mk.injEq] at seen secondSeen
  refine ⟨root, configuration, found, parsed, decoded, ?_, ?_⟩
  · apply (hasEntry_iff wellNamed decoded).mpr
    refine ⟨first, by simp [placed], ?_, ?_⟩
    · rw [Resolves, seen.1, seen.2]
      exact small
    · rw [entryOf_eq, seen.1, seen.2]
      decide +kernel
  · apply (hasEntry_iff wellNamed decoded).mpr
    refine ⟨second, by simp [placed], ?_, ?_⟩
    · rw [Resolves, secondSeen.1, secondSeen.2]
      exact capital
    · rw [entryOf_eq, secondSeen.1, secondSeen.2]
      decide +kernel

/-- An entry for a variable need not have the value of the assignment on the
greatest line, and need not be the only one. -/
theorem later_assignment_lost :
    (¬ ∀ (text : List Char) (root : Section) (configuration : Configuration)
        (found : LocatedVariable) (latest : Placed Assignment)
        (entry : String × String),
        parse .standard text = .ok root →
          decode .standard root = .ok configuration →
            Listing.assignments.IsLatest root (Resolves .standard found)
                latest →
              HasEntry .standard configuration found entry →
                ∃ value,
                  configuration.get? entry.1 entry.2 = some value ∧
                    Sets .standard (latest.path, latest.item)
                      found.definition value) ∧
      ¬ ∀ (text : List Char) (root : Section) (configuration : Configuration)
        (found : LocatedVariable) (entry other : String × String),
        parse .standard text = .ok root →
          decode .standard root = .ok configuration →
            HasEntry .standard configuration found entry →
              HasEntry .standard configuration found other →
                entry = other := by
  constructor
  · intro overrides
    obtain ⟨root, configuration, found, latest, keeps⟩ := exists_keepsInner
    obtain ⟨value, isSet, sets⟩ := overrides _ root configuration found latest
      _ keeps.parsed keeps.decoded keeps.isLatest keeps.hasEntry
    have isLine : value.span.start.line = 3 := by
      rw [Value.coerce_span sets.coerced]
      exact keeps.latestLine
    have kept := keeps.keptLine
    rw [isSet, Option.map_some, isLine] at kept
    exact absurd kept (by decide)
  · intro single
    obtain ⟨root, configuration, found, parsed, decoded, small, capital⟩ :=
      exists_two_entries
    have same :=
      single _ root configuration found _ _ parsed decoded small capital
    exact absurd same (by decide)

end Assignments

end Configuration

end CompositorConf
