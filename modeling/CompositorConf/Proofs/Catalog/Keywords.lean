import CompositorConf.Proofs.Catalog.Prefixes
import CompositorConf.Proofs.Document.Entries
import Mathlib.Data.List.Pairwise

/-!
# Which keyword a key belongs to

A keyword takes its name with any of its flags behind it, so a catalog with flags
takes infinitely many keys.  Whether two keywords share one of them is decided by
their names.

* `KeywordDefinition.IsSpelledBy` are the keys of a keyword, and `accepts_iff`
  says that these are the ones it accepts;
* `exists_shared_key_iff` says when two keywords share a key;
* `findKeyword?_eq_some_iff` finds the keyword of a key where no two keywords
  share one, and `findKeyword?_of_perm` says that their order does not matter
  then;
* `standard_findKeyword?_exactly` is the result for the standard catalog and for
  the variables that it declares.
-/

namespace CompositorConf

open Text Document

namespace KeywordDefinition

/-- A key is the name of a keyword with flags behind it, in any order and number.
A keyword without flags has one key only. -/
def IsSpelledBy (keyword : KeywordDefinition) (key : String) : Prop :=
  ∃ letters, key.toList = keyword.name.toList ++ letters ∧
    ∀ letter ∈ letters, letter ∈ keyword.flags

section Keys

variable {keyword first second : KeywordDefinition} {key : String}

theorem accepts_iff : keyword.accepts key = true ↔ keyword.IsSpelledBy key := by
  constructor
  · exact keyword.exists_flags_of_accepts
  · rintro ⟨letters, split, areFlags⟩
    have isPrefix := List.isPrefixOf?_eq_some_iff_append_eq.mpr split.symm
    rw [accepts, isPrefix]
    simpa using areFlags

theorem isSpelledBy_name : keyword.IsSpelledBy keyword.name :=
  ⟨[], (List.append_nil _).symm, List.forall_mem_nil _⟩

/-- If two keywords share a key, one of the names begins with the other one, and
flags make up the rest. -/
theorem isSpelledBy_name_of_shared (isFirst : first.IsSpelledBy key)
    (isSecond : second.IsSpelledBy key) :
    first.IsSpelledBy second.name ∨ second.IsSpelledBy first.name := by
  obtain ⟨letters, split, areFlags⟩ := isFirst
  obtain ⟨otherLetters, otherSplit, areOtherFlags⟩ := isSecond
  rw [split] at otherSplit
  rcases List.append_eq_append_iff.mp otherSplit with
    ⟨more, longer, rest⟩ | ⟨more, longer, rest⟩
  · rw [rest, List.forall_mem_append] at areFlags
    exact Or.inl ⟨more, longer, areFlags.1⟩
  · rw [rest, List.forall_mem_append] at areOtherFlags
    exact Or.inr ⟨more, longer, areOtherFlags.1⟩

/-- Two keywords share a key exactly if one of them takes the other one's name. -/
theorem exists_shared_key_iff :
    (∃ key, first.accepts key = true ∧ second.accepts key = true) ↔
      first.accepts second.name = true ∨ second.accepts first.name = true := by
  simp only [accepts_iff]
  constructor
  · rintro ⟨key, isFirst, isSecond⟩
    exact isSpelledBy_name_of_shared isFirst isSecond
  · rintro (taken | taken)
    · exact ⟨second.name, taken, isSpelledBy_name⟩
    · exact ⟨first.name, isSpelledBy_name, taken⟩

end Keys

end KeywordDefinition

namespace Catalog

/-- No key belongs to two keywords of the catalog. -/
def KeywordsApart (catalog : Catalog) : Prop :=
  catalog.keywords.Pairwise fun first second =>
    ¬ ∃ key, first.accepts key = true ∧ second.accepts key = true

section Apart

variable {catalog reordered : Catalog} {keyword : KeywordDefinition}
  {key : String}

theorem KeywordsApart.eq (apart : catalog.KeywordsApart)
    {first second : KeywordDefinition} (firstMember : first ∈ catalog.keywords)
    (secondMember : second ∈ catalog.keywords)
    (isFirst : first.accepts key = true)
    (isSecond : second.accepts key = true) : first = second := by
  by_contra different
  have symmetric : Std.Symm fun first second : KeywordDefinition =>
      ¬ ∃ key, first.accepts key = true ∧ second.accepts key = true :=
    ⟨fun _ _ none shared => none (shared.imp fun _ both => both.symm)⟩
  exact List.Pairwise.forall apart firstMember secondMember different
    ⟨key, isFirst, isSecond⟩

theorem of_findKeyword? (found : catalog.findKeyword? key = some keyword) :
    keyword ∈ catalog.keywords ∧ keyword.accepts key = true := by
  rw [findKeyword?] at found
  have accepted := List.find?_some found
  exact ⟨List.mem_of_find?_eq_some found, accepted⟩

theorem findKeyword?_eq_some_iff (apart : catalog.KeywordsApart) :
    catalog.findKeyword? key = some keyword ↔
      keyword ∈ catalog.keywords ∧ keyword.IsSpelledBy key := by
  rw [← KeywordDefinition.accepts_iff]
  constructor
  · exact of_findKeyword?
  · rintro ⟨member, accepted⟩
    obtain ⟨other, found⟩ : ∃ other, catalog.findKeyword? key = some other := by
      rw [← Option.isSome_iff_exists, findKeyword?, List.find?_isSome]
      exact ⟨keyword, member, accepted⟩
    obtain ⟨otherMember, otherAccepted⟩ := of_findKeyword? found
    rw [found, apart.eq otherMember member otherAccepted accepted]

theorem KeywordsApart.of_perm (apart : catalog.KeywordsApart)
    (same : reordered.keywords.Perm catalog.keywords) :
    reordered.KeywordsApart :=
  List.Pairwise.perm apart same.symm
    fun none shared => none (shared.imp fun _ both => both.symm)

/-- The order of keywords that share no key makes no difference. -/
theorem findKeyword?_of_perm (apart : catalog.KeywordsApart)
    (same : reordered.keywords.Perm catalog.keywords) (key : String) :
    reordered.findKeyword? key = catalog.findKeyword? key := by
  ext keyword
  rw [findKeyword?_eq_some_iff apart,
    findKeyword?_eq_some_iff (apart.of_perm same), same.mem_iff]

end Apart

/-- A name stands in a key alone, or behind a colon. -/
def IsKeyOf (name key : String) : Prop :=
  key = name ∨ ∃ categories, key = categories ++ ":" ++ name

section Variables

variable {catalog : Catalog} {owner : SectionDefinition}
  {declared : VariableDefinition} {key : String}

/-- No keyword takes the key of a variable, whatever stands before the colon. -/
theorem WellNamed.findKeyword?_of_isKeyOf (wellNamed : catalog.WellNamed)
    (plain : catalog.KeywordsAvoid ':') (ownerMember : owner ∈ catalog.allSections)
    (member : declared ∈ owner.declarations) (isKey : IsKeyOf declared.name key) :
    catalog.findKeyword? key = none := by
  rcases isKey with rfl | ⟨categories, rfl⟩
  · exact wellNamed.unaccepted owner ownerMember declared member
  · exact plain.findKeyword?_eq_none (by simp)

/-- A line whose key no keyword takes records no statement. -/
theorem ne_statement_of_findKeyword? {line : List Char} {number : Nat}
    (refused : catalog.findKeyword? (String.ofList (keyText line)) = none)
    (content : Statement) :
    entryOfLine? catalog line number ≠ some (.statement content) := by
  intro recorded
  cases recordedAs_of_entryOfLine? recorded with
  | ofStatement _ accepted _ _ =>
      rw [refused] at accepted
      cases accepted

end Variables

theorem standard_keywordsApart : standard.KeywordsApart := by
  have checked : standard.keywords.Pairwise fun first second =>
      ¬ (first.accepts second.name = true ∨
        second.accepts first.name = true) := by
    decide +kernel
  exact checked.imp fun none shared =>
    none (KeywordDefinition.exists_shared_key_iff.mp shared)

/-- **Keywords are recognised exactly.**  The keyword of a key is the one whose
name, with flags of it behind, spells the key.  No two keywords accept a common
key, so any order of the keywords finds the same.  No keyword accepts the name of
a declared variable, alone or behind any categories, so no line that sets one is
recorded as a statement. -/
theorem standard_findKeyword?_exactly :
    (∀ key keyword, standard.findKeyword? key = some keyword ↔
      keyword ∈ standard.keywords ∧ keyword.IsSpelledBy key) ∧
    (standard.keywords.Pairwise fun first second =>
      ¬ ∃ key, first.accepts key = true ∧ second.accepts key = true) ∧
    (∀ reordered : Catalog, reordered.keywords.Perm standard.keywords →
      ∀ key, reordered.findKeyword? key = standard.findKeyword? key) ∧
    ∀ owner ∈ standard.allSections, ∀ declared ∈ owner.declarations,
      ∀ key, IsKeyOf declared.name key →
        standard.findKeyword? key = none ∧
        ∀ line number content, keyText line = key.toList →
          entryOfLine? standard line number ≠ some (.statement content) := by
  refine ⟨?_, standard_keywordsApart, ?_, ?_⟩
  · intro key keyword
    exact findKeyword?_eq_some_iff standard_keywordsApart
  · intro reordered same
    exact findKeyword?_of_perm standard_keywordsApart same
  · intro owner ownerMember declared member key isKey
    have refused : standard.findKeyword? key = none :=
      standard_wellNamed.findKeyword?_of_isKeyOf standard_keywordsAvoid_colon
        ownerMember member isKey
    refine ⟨refused, ?_⟩
    intro line number content keyed
    apply ne_statement_of_findKeyword?
    rw [keyed, String.ofList_toList, refused]

/-- The standard catalog with its keywords in the opposite order. -/
def reversedStandard : Catalog :=
  { standard with keywords := standard.keywords.reverse }

/-- A keyword with two flags is found from either end of the catalog, and the key
of a variable behind its category is no keyword. -/
theorem standard_recognizes_bindle :
    (∃ keyword, standard.findKeyword? "bindle" = some keyword ∧
      keyword.name = "bind") ∧
    reversedStandard.findKeyword? "bindle" = standard.findKeyword? "bindle" ∧
    standard.findKeyword? "general:layout" = none ∧
    ∀ content, entryOfLine? standard "general:layout = tall".toList 0 ≠
      some (.statement content) := by
  obtain ⟨exactly, _, anyOrder, declarations⟩ := standard_findKeyword?_exactly
  obtain ⟨bind, bindMember, named, allFlags⟩ : ∃ keyword ∈ standard.keywords,
      keyword.name = "bind" ∧ ['l', 'e'].all keyword.flags.contains := by
    decide +kernel
  have flags : ∀ letter ∈ ['l', 'e'], letter ∈ bind.flags := by
    intro letter member
    exact List.contains_iff_mem.mp (List.all_eq_true.mp allFlags letter member)
  have spelled : bind.IsSpelledBy "bindle" := by
    refine ⟨['l', 'e'], ?_, flags⟩
    rw [named]
    decide
  obtain ⟨owner, ownerMember, declared, member, layout⟩ :
      ∃ owner ∈ standard.allSections, ∃ declared ∈ owner.declarations,
        declared.name = "layout" := by
    decide +kernel
  have isKey : IsKeyOf declared.name "general:layout" := by
    rw [layout]
    exact Or.inr ⟨"general", by decide⟩
  obtain ⟨refused, noStatement⟩ :=
    declarations owner ownerMember declared member "general:layout" isKey
  refine ⟨⟨bind, (exactly _ _).mpr ⟨bindMember, spelled⟩, named⟩, ?_, refused,
    ?_⟩
  · exact anyOrder reversedStandard (List.reverse_perm _) "bindle"
  · intro content
    exact noStatement _ 0 content (by decide)

end Catalog

end CompositorConf
