import CompositorConf.Catalog.Lookup
import CompositorConf.Catalog.Standard
import CompositorConf.Proofs.Text.Ascii
import Mathlib.Data.List.Basic

/-!
# Names in a catalog

What a path of names can lead to, and which names a catalog can declare so that a
document is able to spell them.

* `of_findSection?` says that a path leads to a section of the catalog, and which
  names it can hold;
* `WellNamed` catalogs declare names that no document has to escape, and
  `standard_wellNamed` says that the standard catalog is one;
* `findSection?_leaveOut` says when names of the root can be left out of a path,
  and `exists_resolve?` when a declaration is found by its name below a path;
* `standard_resolve?_of_doubled` says that nothing is found below two names of
  the root.
-/

namespace CompositorConf

open Text

theorem keySegments_intercalate {names : List String} (nonempty : names ≠ [])
    (plain : ∀ name ∈ names, ':' ∉ name.toList) :
    keySegments (":".intercalate names) = names := by
  have pieces : ∀ piece ∈ names.map String.toList, ':' ∉ piece := by
    intro piece member
    obtain ⟨name, nameMember, same⟩ := List.mem_map.mp member
    rw [← same]
    exact plain name nameMember
  have split :
      (":".intercalate names).toList.splitOn ':' = names.map String.toList := by
    rw [String.toList_intercalate]
    apply List.splitOn_intercalate ':' pieces
    simpa using nonempty
  rw [keySegments, split, List.map_map]
  simp [Function.comp_def]

/-- A key without categories is looked up at its own path. -/
theorem splitCategoryKey_of_plain {key : String} (plain : ':' ∉ key.toList)
    (path : List String) :
    splitCategoryKey path key = (path.filter (· ≠ rootName), key) := by
  have single : keySegments key = [key] := by
    have split := keySegments_intercalate (List.cons_ne_nil key [])
      (List.forall_mem_singleton.mpr plain)
    rwa [String.intercalate_singleton] at split
  simp [splitCategoryKey, keyName, single]

theorem keyName_of_plain {key : String} (plain : ':' ∉ key.toList) :
    keyName key = key :=
  congrArg Prod.snd (splitCategoryKey_of_plain plain [])

/-- A keyword accepts nothing but its name followed by flags. -/
theorem KeywordDefinition.exists_flags_of_accepts
    {keyword : KeywordDefinition} {key : String}
    (accepted : keyword.accepts key = true) :
    ∃ letters, key.toList = keyword.name.toList ++ letters ∧
      ∀ letter ∈ letters, letter ∈ keyword.flags := by
  rw [accepts] at accepted
  cases isPrefix : List.isPrefixOf? keyword.name.toList key.toList with
  | none =>
      rw [isPrefix] at accepted
      cases accepted
  | some letters =>
      have whole := List.isPrefixOf?_eq_some_iff_append_eq.mp isPrefix
      rw [isPrefix] at accepted
      exact ⟨letters, whole.symm, by simpa using accepted⟩

namespace SectionDefinition

variable {definitions : List SectionDefinition}
  {definition : SectionDefinition} {declared : VariableDefinition}
  {name first second : String}

theorem named?_congr (equal : equalIgnoringCase first second = true) :
    named? definitions first = named? definitions second := by
  have same : lowerAscii first = lowerAscii second :=
    equalIgnoringCase_iff.mp equal
  simp only [named?, equalIgnoringCase, same]

theorem mem_of_named? (found : named? definitions name = some definition) :
    definition ∈ definitions ∧
      equalIgnoringCase definition.name name = true := by
  rw [named?] at found
  have accepted := List.find?_some found
  exact ⟨List.mem_of_find?_eq_some found, accepted⟩

theorem mem_of_lookup? (found : definition.lookup? name = some declared) :
    declared ∈ definition.declarations ∧ declared.name = name := by
  rw [lookup?] at found
  have named := List.find?_some found
  exact ⟨List.mem_of_find?_eq_some found, beq_iff_eq.mp named⟩

/-- A declared name is found, though not always at the given declaration. -/
theorem exists_lookup?_of_mem
    (member : declared ∈ definition.declarations) :
    ∃ found, definition.lookup? declared.name = some found := by
  have isFound : (definition.lookup? declared.name).isSome := by
    rw [lookup?, List.find?_isSome]
    exact ⟨declared, member, beq_iff_eq.mpr rfl⟩
  exact Option.isSome_iff_exists.mp isFound

mutual

/-- A list in pre-order holds, with a section, all sections directly in it. -/
theorem mem_preorder_of_subsection :
    ∀ (definition : SectionDefinition) {outer inner : SectionDefinition},
      outer ∈ definition.preorder → inner ∈ outer.subsections →
        inner ∈ definition.preorder
  | ⟨_, _, subsections⟩, _, _, outerMember, innerMember => by
      rw [preorder, List.mem_cons] at outerMember
      rw [preorder]
      apply List.mem_cons_of_mem
      rcases outerMember with same | below
      · rw [same] at innerMember
        exact mem_preorderAll_of_mem innerMember
      · exact mem_preorderAll_of_subsection subsections below innerMember

theorem mem_preorderAll_of_subsection :
    ∀ (definitions : List SectionDefinition) {outer inner : SectionDefinition},
      outer ∈ preorderAll definitions → inner ∈ outer.subsections →
        inner ∈ preorderAll definitions
  | [], _, _, outerMember, _ => absurd outerMember List.not_mem_nil
  | definition :: rest, _, _, outerMember, innerMember => by
      rw [preorderAll, List.mem_append] at outerMember ⊢
      rcases outerMember with first | later
      · exact Or.inl
          (mem_preorder_of_subsection definition first innerMember)
      · exact Or.inr
          (mem_preorderAll_of_subsection rest later innerMember)

theorem mem_preorderAll_of_mem :
    ∀ {definitions : List SectionDefinition} {definition : SectionDefinition},
      definition ∈ definitions → definition ∈ preorderAll definitions
  | [], _, member => absurd member List.not_mem_nil
  | ⟨path, declarations, subsections⟩ :: rest, _, member => by
      rw [preorderAll, List.mem_append]
      rcases List.mem_cons.mp member with same | later
      · rw [same, preorder]
        exact Or.inl List.mem_cons_self
      · exact Or.inr (mem_preorderAll_of_mem later)

end

end SectionDefinition

namespace Catalog

variable {catalog : Catalog} {path : List String}
  {definition : SectionDefinition} {name : String}

/-- Some section of a catalog is declared directly in another one under a name,
up to case. -/
def DeclaresInside (catalog : Catalog) (name : String) : Prop :=
  ∃ outer ∈ catalog.allSections, ∃ inner ∈ outer.subsections,
    equalIgnoringCase inner.name name = true

theorem mem_allSections_of_topLevel?
    (found : catalog.topLevel? name = some definition) :
    definition ∈ catalog.allSections :=
  SectionDefinition.mem_preorderAll_of_mem
    (SectionDefinition.mem_of_named? found).1

/-- A path from a section leads to a section of the catalog, by names that are
declared inside others. -/
theorem of_foldlM_subsection? {outermost : SectionDefinition}
    (member : outermost ∈ catalog.allSections) {rest : List String}
    (found : rest.foldlM SectionDefinition.subsection? outermost =
      some definition) :
    definition ∈ catalog.allSections ∧
      ∀ name ∈ rest, catalog.DeclaresInside name := by
  induction rest generalizing outermost with
  | nil =>
      cases found
      exact ⟨member, fun _ nameMember => absurd nameMember List.not_mem_nil⟩
  | cons next rest inductionHypothesis =>
      rw [List.foldlM_cons] at found
      obtain ⟨inner, isInner, deeper⟩ := Option.bind_eq_some_iff.mp found
      obtain ⟨innerMember, equal⟩ := SectionDefinition.mem_of_named? isInner
      have innerAll : inner ∈ catalog.allSections :=
        SectionDefinition.mem_preorderAll_of_subsection _ member innerMember
      obtain ⟨definitionMember, names⟩ := inductionHypothesis innerAll deeper
      refine ⟨definitionMember, ?_⟩
      rw [List.forall_mem_cons]
      exact ⟨⟨outermost, member, inner, innerMember, equal⟩, names⟩

theorem findSection?_cons {first : String} (rest : List String)
    (other : first ≠ rootName) :
    catalog.findSection? (first :: rest) =
      (catalog.topLevel? first).bind fun outermost =>
        rest.foldlM SectionDefinition.subsection? outermost := by
  have different : (first :: rest).head? ≠ some rootName := by
    intro same
    exact other (Option.some.inj same)
  rw [findSection?, if_neg different]

theorem findSection?_root_cons (first : String) (rest : List String) :
    catalog.findSection? (rootName :: first :: rest) =
      (catalog.topLevel? first).bind fun outermost =>
        rest.foldlM SectionDefinition.subsection? outermost :=
  rfl

/-- Names that are followed from the outermost sections lead to a section of the
catalog, and each is that of some section, up to case. -/
theorem of_topLevel?_bind {first : String} {rest : List String}
    (found : ((catalog.topLevel? first).bind fun outermost =>
      rest.foldlM SectionDefinition.subsection? outermost) =
        some definition) :
    definition ∈ catalog.allSections ∧
      ∀ name ∈ first :: rest, ∃ declared ∈ catalog.allSections,
        equalIgnoringCase declared.name name = true := by
  obtain ⟨outermost, isOutermost, deeper⟩ := Option.bind_eq_some_iff.mp found
  have outermostMember : outermost ∈ catalog.allSections :=
    mem_allSections_of_topLevel? isOutermost
  obtain ⟨member, names⟩ := of_foldlM_subsection? outermostMember deeper
  refine ⟨member, ?_⟩
  rw [List.forall_mem_cons]
  constructor
  · exact ⟨outermost, outermostMember,
      (SectionDefinition.mem_of_named? isOutermost).2⟩
  · intro name nameMember
    obtain ⟨outer, outerMember, inner, innerMember, equal⟩ :=
      names name nameMember
    have declared : inner ∈ catalog.allSections :=
      SectionDefinition.mem_preorderAll_of_subsection _ outerMember innerMember
    exact ⟨inner, declared, equal⟩

/-- A path leads to a section of the catalog.  Each name on it is that of the
root, or that of some section, up to case. -/
theorem of_findSection? (found : catalog.findSection? path = some definition) :
    definition ∈ catalog.allSections ∧
      ∀ name ∈ path, name = rootName ∨
        ∃ declared ∈ catalog.allSections,
          equalIgnoringCase declared.name name = true := by
  match path, found with
  | [], found =>
      exact ⟨mem_allSections_of_topLevel? found,
        fun _ member => absurd member List.not_mem_nil⟩
  | first :: rest, found =>
      by_cases isRoot : first = rootName
      · rw [isRoot] at found ⊢
        cases rest with
        | nil =>
            refine ⟨mem_allSections_of_topLevel? found, ?_⟩
            intro name member
            exact Or.inl (List.mem_singleton.mp member)
        | cons second rest =>
            rw [findSection?_root_cons] at found
            obtain ⟨member, names⟩ := of_topLevel?_bind found
            refine ⟨member, ?_⟩
            rw [List.forall_mem_cons]
            exact ⟨Or.inl rfl, fun name member => Or.inr (names name member)⟩
      · rw [findSection?_cons rest isRoot] at found
        obtain ⟨member, names⟩ := of_topLevel?_bind found
        exact ⟨member, fun name nameMember => Or.inr (names name nameMember)⟩

/-- The characters of which names of variables are made. -/
def isNameCharacter (character : Char) : Bool :=
  character.isLower || character.isDigit || character == '_' ||
    character == '.'

/-- Characters that make the name of a variable. -/
def IsName (name : List Char) : Prop :=
  name ≠ [] ∧ ∀ character ∈ name, isNameCharacter character = true

/-- A catalog whose names a document can spell.  Names of sections have no colon,
and none of those inside others is that of the root; names of variables consist
of plain characters, and no keyword accepts them. -/
structure WellNamed (catalog : Catalog) : Prop where
  sections : ∀ declared ∈ catalog.allSections, ':' ∉ declared.name.toList
  inner :
    ∀ outer ∈ catalog.allSections, ∀ inner ∈ outer.subsections,
      equalIgnoringCase inner.name rootName = false
  plain :
    ∀ owner ∈ catalog.allSections, ∀ declared ∈ owner.declarations,
      IsName declared.name.toList
  unaccepted :
    ∀ owner ∈ catalog.allSections, ∀ declared ∈ owner.declarations,
      catalog.findKeyword? declared.name = none

theorem isBlank_of_isNameCharacter {character : Char}
    (plain : isNameCharacter character = true) :
    isBlank character = false := by
  have code : (character.toNat = 46 ∨ character.toNat = 95) ∨
      (48 ≤ character.toNat ∧ character.toNat ≤ 57) ∨
        (97 ≤ character.toNat ∧ character.toNat ≤ 122) := by
    simp only [isNameCharacter, isLower_iff, Char.isDigit, Bool.or_eq_true,
      Bool.and_eq_true, decide_eq_true_eq, beq_iff_eq,
      UInt32.le_iff_toNat_le] at plain
    rcases plain with ((lower | digit) | same) | same
    · exact Or.inr (Or.inr lower)
    · exact Or.inr (Or.inl digit)
    · rw [same]
      decide
    · rw [same]
      decide
  simp only [isBlank, Bool.or_eq_false_iff, Bool.and_eq_false_iff,
    decide_eq_false_iff_not, beq_eq_false_iff_ne]
  omega

theorem IsName.not_mem {characters : List Char} {other : Char}
    (isName : IsName characters) (otherNot : isNameCharacter other = false) :
    other ∉ characters := by
  intro member
  rw [isName.2 other member] at otherNot
  cases otherNot

section WellNamed

variable {rest : List String}

theorem WellNamed.not_mem_colon (wellNamed : catalog.WellNamed)
    (found : catalog.findSection? path = some definition) :
    ∀ name ∈ path, ':' ∉ name.toList := by
  intro name member colon
  rcases (of_findSection? found).2 name member with
    same | ⟨declared, declaredMember, equal⟩
  · rw [same] at colon
    exact absurd colon (by decide)
  · exact wellNamed.sections declared declaredMember
      (mem_of_equalIgnoringCase (by decide) (by decide)
        (equalIgnoringCase_symm equal) colon)

/-- No section inside another has the name of the root. -/
theorem WellNamed.ne_root (wellNamed : catalog.WellNamed)
    (declares : catalog.DeclaresInside name) : name ≠ rootName := by
  obtain ⟨outer, outerMember, inner, innerMember, equal⟩ := declares
  intro isRoot
  rw [isRoot, wellNamed.inner outer outerMember inner innerMember] at equal
  cases equal

/-- Behind an outermost section no path holds the name of the root. -/
theorem WellNamed.filter_eq_self (wellNamed : catalog.WellNamed)
    {first : String}
    (found : ((catalog.topLevel? first).bind fun outermost =>
      rest.foldlM SectionDefinition.subsection? outermost) =
        some definition) :
    rest.filter (· ≠ rootName) = rest := by
  obtain ⟨outermost, isOutermost, deeper⟩ := Option.bind_eq_some_iff.mp found
  have names :=
    (of_foldlM_subsection? (mem_allSections_of_topLevel? isOutermost) deeper).2
  rw [List.filter_eq_self]
  intro name member
  exact decide_eq_true (wellNamed.ne_root (names name member))

/-- All names of the root can be left out of a path, unless it begins with two of
them and goes on: the second of two then stands for an outermost section. -/
theorem WellNamed.findSection?_leaveOut (wellNamed : catalog.WellNamed)
    (found : catalog.findSection? path = some definition)
    (single : ∀ next rest, path ≠ rootName :: rootName :: next :: rest) :
    catalog.findSection? (path.filter (· ≠ rootName)) = some definition := by
  match path, found, single with
  | [], found, _ => exact found
  | first :: rest, found, single =>
      by_cases isRoot : first = rootName
      · rw [isRoot] at found single ⊢
        rw [List.filter_cons_of_neg (by simp)]
        cases rest with
        | nil => exact found
        | cons second rest =>
            rw [findSection?_root_cons] at found
            have others := wellNamed.filter_eq_self found
            by_cases again : second = rootName
            · rw [again] at found single ⊢
              have none : rest = [] := by
                cases rest with
                | nil => rfl
                | cons next rest => exact absurd rfl (single next rest)
              rw [none] at found ⊢
              obtain ⟨outermost, isOutermost, same⟩ :=
                Option.bind_eq_some_iff.mp found
              cases same
              rw [← isOutermost, List.filter_cons_of_neg (by simp)]
              exact SectionDefinition.named?_congr (by decide)
            · rw [List.filter_cons_of_pos (by simpa using again), others,
                findSection?_cons rest again]
              exact found
      · rw [findSection?_cons rest isRoot] at found
        rw [List.filter_cons_of_pos (by simpa using isRoot),
          wellNamed.filter_eq_self found, findSection?_cons rest isRoot]
        exact found

/-- What a path declares is found there by its key, unless the path begins with
two names of the root and goes on. -/
theorem WellNamed.exists_resolve? (wellNamed : catalog.WellNamed)
    {declared : VariableDefinition}
    (found : catalog.findSection? path = some definition)
    (member : declared ∈ definition.declarations)
    (single : ∀ next rest, path ≠ rootName :: rootName :: next :: rest) :
    ∃ variableFound,
      catalog.resolve? path declared.name =
        some ⟨definition, variableFound⟩ := by
  have isName : IsName declared.name.toList :=
    wellNamed.plain definition (of_findSection? found).1 declared member
  have split :=
    splitCategoryKey_of_plain (isName.not_mem (by decide)) path
  obtain ⟨variableFound, isFound⟩ :=
    SectionDefinition.exists_lookup?_of_mem member
  refine ⟨variableFound, ?_⟩
  rw [resolve?, split]
  dsimp only
  rw [wellNamed.findSection?_leaveOut found single, Option.bind_eq_bind,
    Option.bind_some, isFound]
  rfl

end WellNamed

def acceptsCharacters (flags name key : List Char) : Bool :=
  match List.isPrefixOf? name key with
  | some letters => letters.all fun letter => letter ∈ flags
  | none => false

/-- Whether a name consists of plain characters and is no keyword, read off its
bytes. -/
def isSpelledPlainly (catalog : Catalog) (name : String) : Bool :=
  isAscii name && !(byteCharacters name).isEmpty &&
    (byteCharacters name).all isNameCharacter &&
    catalog.keywords.all fun keyword =>
      !acceptsCharacters keyword.flags (byteCharacters keyword.name)
        (byteCharacters name)

theorem plain_of_isSpelledPlainly
    (spelled : catalog.isSpelledPlainly name = true) :
    IsName name.toList := by
  simp only [isSpelledPlainly, Bool.and_eq_true] at spelled
  obtain ⟨⟨⟨ascii, some⟩, plain⟩, _⟩ := spelled
  rw [toList_of_isAscii ascii]
  exact ⟨by simpa using some, List.all_eq_true.mp plain⟩

theorem findKeyword?_of_isSpelledPlainly
    (keywords : ∀ keyword ∈ catalog.keywords, isAscii keyword.name = true)
    (spelled : catalog.isSpelledPlainly name = true) :
    catalog.findKeyword? name = none := by
  simp only [isSpelledPlainly, Bool.and_eq_true] at spelled
  obtain ⟨⟨⟨ascii, _⟩, _⟩, refused⟩ := spelled
  rw [findKeyword?, List.find?_eq_none]
  intro keyword member accepts
  have refuses := List.all_eq_true.mp refused keyword member
  rw [← toList_of_isAscii ascii,
    ← toList_of_isAscii (keywords keyword member)] at refuses
  have accepted : acceptsCharacters keyword.flags keyword.name.toList
      name.toList = true := accepts
  rw [accepted] at refuses
  cases refuses

theorem standard_isSpelledPlainly :
    ∀ owner ∈ standard.allSections, ∀ declared ∈ owner.declarations,
      standard.isSpelledPlainly declared.name = true := by
  have checked :
      (standard.allSections.all fun owner =>
        owner.declarations.all fun declared =>
          standard.isSpelledPlainly declared.name) = true := by
    decide +kernel
  intro owner ownerMember declared member
  exact List.all_eq_true.mp (List.all_eq_true.mp checked owner ownerMember)
    declared member

theorem standard_wellNamed : standard.WellNamed where
  sections := by decide +kernel
  inner := by decide +kernel
  plain := fun owner ownerMember declared member =>
    plain_of_isSpelledPlainly
      (standard_isSpelledPlainly owner ownerMember declared member)
  unaccepted := fun owner ownerMember declared member =>
    findKeyword?_of_isSpelledPlainly (by decide +kernel)
      (standard_isSpelledPlainly owner ownerMember declared member)

/-- No section inside the one for the root is an outermost one as well. -/
theorem standard_topLevel?_of_inner {general inner : SectionDefinition}
    {name : String} (isGeneral : standard.topLevel? rootName = some general)
    (isInner : general.subsection? name = some inner) :
    standard.topLevel? name = none := by
  have checked :
      ((standard.topLevel? rootName).all fun general =>
        general.subsections.all fun inner =>
          (standard.topLevel? inner.name).isNone) = true := by
    decide +kernel
  rw [isGeneral, Option.all_some, List.all_eq_true] at checked
  obtain ⟨member, equal⟩ := SectionDefinition.mem_of_named? isInner
  have none := Option.isNone_iff_eq_none.mp (checked inner member)
  rw [← none]
  exact (SectionDefinition.named?_congr equal).symm

/-- What a path that begins with two names of the root and goes on declares is not
found there by its key. -/
theorem standard_resolve?_of_doubled {definition : SectionDefinition}
    {next : String} {rest : List String} {key : String}
    (found : standard.findSection? (rootName :: rootName :: next :: rest) =
      some definition) (plain : ':' ∉ key.toList) :
    standard.resolve? (rootName :: rootName :: next :: rest) key = none := by
  rw [findSection?_root_cons] at found
  have others := standard_wellNamed.filter_eq_self found
  obtain ⟨general, isGeneral, deeper⟩ := Option.bind_eq_some_iff.mp found
  rw [List.foldlM_cons] at deeper
  obtain ⟨inner, isInner, _⟩ := Option.bind_eq_some_iff.mp deeper
  have none : standard.topLevel? next = none :=
    standard_topLevel?_of_inner isGeneral isInner
  have different : next ≠ rootName := by
    intro same
    rw [same, isGeneral] at none
    cases none
  have left : (rootName :: rootName :: next :: rest).filter (· ≠ rootName) =
      next :: rest := by
    rw [List.filter_cons_of_neg (by simp), List.filter_cons_of_neg (by simp),
      others]
  rw [resolve?, splitCategoryKey_of_plain plain, left]
  dsimp only
  rw [findSection?_cons rest different, none]
  rfl

end Catalog

end CompositorConf
