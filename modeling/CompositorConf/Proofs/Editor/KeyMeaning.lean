import CompositorConf.Editor.Completion
import CompositorConf.Editor.Hover
import CompositorConf.Proofs.Configuration
import CompositorConf.Proofs.Document.Places
import CompositorConf.Proofs.Text.Cursor

/-!
# What a key means to the editor

Hover, completion and checking look up the key of an assignment at the same
path: that of the section in which the assignment was recorded.

* `Hover.at?_of_mem` and `Completion.items_of_mem` reduce both to the first `=`
  of a line;
* `key_means_one_thing` is the result for a whole text.
-/

namespace CompositorConf

open Text Document

namespace Hover

variable {catalog : Catalog} {text line : List Char} {number : Nat}

/-- Hover looks up the key of the line at the path of the cursor. -/
theorem at?_of_mem (found : (lines text)[number]? = some line)
    (member : '=' ∈ line) (column : Nat) :
    at? catalog text ⟨number, column⟩ =
      (markdownFor? catalog (pathIn catalog text ⟨number, column⟩)
        (String.ofList (keyText line))).map fun markdown =>
          ⟨markdown, contentRange (dropReturn line) number⟩ := by
  obtain ⟨after, cut, _⟩ := cutAtEquals?_dropReturn member
  have atLine : lineAt text number = some (dropReturn line) := by
    rw [lineAt, found, Option.map_some]
  rw [at?]
  dsimp only
  rw [atLine, Option.bind_eq_bind, Option.bind_some, cut,
    Option.bind_eq_bind, Option.bind_some, ← keyText]
  cases markdownFor? catalog (pathIn catalog text ⟨number, column⟩)
    (String.ofList (keyText line)) <;> rfl

theorem pathIn_of_parse {root : Section}
    (parsed : parse catalog text = .ok root) (position : Position) :
    pathIn catalog text position = root.pathAt position := by
  rw [pathIn, parsed]

/-- A key that stands for a variable is documented by that variable. -/
theorem markdownFor?_of_resolve? {path : List String} {key : String}
    {found : LocatedVariable}
    (resolved : catalog.resolve? path key = some found) :
    markdownFor? catalog path key = some (variableMarkdown found) := by
  rw [markdownFor?, resolved, Option.some_or]

end Hover

namespace Completion

variable {catalog : Catalog} {text line : List Char} {root : Section}
  {number : Nat}

/-- Behind the first `=` of a line values are offered, for the key in front of
it. -/
theorem items_of_mem (parsed : parse catalog text = .ok root)
    (found : (lines text)[number]? = some line) (member : '=' ∈ line)
    {column : Nat} (behind : equalsColumn line < column) :
    ∃ afterToCursor,
      takeUnits column (dropReturn line) =
          line.takeWhile (· ≠ '=') ++ '=' :: afterToCursor ∧
        items catalog text ⟨number, column⟩ =
          valueItems catalog root number (takeUnits column (dropReturn line))
            (line.takeWhile (· ≠ '=')) afterToCursor := by
  obtain ⟨afterToCursor, cut, split⟩ := cutAtEquals?_takeUnits member behind
  have atLine : lineAt text number = some (dropReturn line) := by
    rw [lineAt, found, Option.map_some]
  refine ⟨afterToCursor, split, ?_⟩
  rw [items]
  dsimp only
  rw [atLine, parsed]
  dsimp only
  rw [takeBytes_byteIndexOf, cut]

/-- The kind that is expected for a key that no keyword accepts is that of the
variable it stands for at the path of the `=`. -/
theorem expectedKind_of_not_keyword {before : List Char}
    (refused : catalog.findKeyword? (String.ofList (trim before)) = none)
    (afterToCursor : List Char) :
    expectedKind catalog root number before afterToCursor =
      ((catalog.resolve? (root.pathAt ⟨number, utf16Length before⟩)
        (String.ofList (trim before))).map (·.definition.kind)).getD
          .string := by
  rw [expectedKind]
  dsimp only
  rw [refused]
  dsimp only
  cases catalog.resolve? (root.pathAt ⟨number, utf16Length before⟩)
    (String.ofList (trim before)) <;> rfl

end Completion

/-- Hover up to the first `=` of a line, and completion of a value behind it, look
up the key of the line's assignment at a path. -/
structure LooksUp (catalog : Catalog) (text : List Char) (root : Section)
    (path : List String) (assignment : Assignment) (line : List Char) :
    Prop where
  hoverPath :
    ∀ column ≤ equalsColumn line,
      Hover.pathIn catalog text ⟨assignment.position.line, column⟩ = path
  hover :
    ∀ column ≤ equalsColumn line,
      Hover.at? catalog text ⟨assignment.position.line, column⟩ =
        (Hover.markdownFor? catalog path assignment.key).map fun markdown =>
          ⟨markdown, Hover.contentRange (dropReturn line)
            assignment.position.line⟩
  completion :
    ∀ column, equalsColumn line < column →
      ∃ afterToCursor,
        Completion.items catalog text ⟨assignment.position.line, column⟩ =
          Completion.valueItems catalog root assignment.position.line
            (takeUnits column (dropReturn line)) (line.takeWhile (· ≠ '='))
            afterToCursor
  kind :
    ∀ afterToCursor,
      Completion.expectedKind catalog root assignment.position.line
          (line.takeWhile (· ≠ '=')) afterToCursor =
        ((catalog.resolve? path assignment.key).map
          (·.definition.kind)).getD .string

/-- Checking, hover and completion take the key of an assignment for the same
variable. -/
structure Means (catalog : Catalog) (text : List Char) (root : Section)
    (path : List String) (assignment : Assignment) (line : List Char)
    (found : LocatedVariable) : Prop where
  checked :
    Configuration.settingOf catalog path assignment =
      Configuration.checkAgainst
        (Configuration.shownPath (splitCategoryKey path assignment.key).1)
        (splitCategoryKey path assignment.key).2 found.definition assignment
  shown :
    ∀ column ≤ equalsColumn line,
      Hover.at? catalog text ⟨assignment.position.line, column⟩ =
        some ⟨Hover.variableMarkdown found,
          Hover.contentRange (dropReturn line) assignment.position.line⟩
  completed :
    ∀ afterToCursor,
      Completion.expectedKind catalog root assignment.position.line
          (line.takeWhile (· ≠ '=')) afterToCursor =
        found.definition.kind

section Keys

variable {catalog : Catalog} {text line : List Char} {root current : Section}
  {path : List String} {assignment : Assignment} {found : LocatedVariable}

theorem LooksUp.means
    (looksUp : LooksUp catalog text root path assignment line)
    (resolved : catalog.resolve? path assignment.key = some found) :
    Means catalog text root path assignment line found where
  checked := Configuration.settingOf_of_resolve? resolved
  shown := by
    intro column bound
    rw [looksUp.hover column bound, Hover.markdownFor?_of_resolve? resolved,
      Option.map_some]
  completed := by
    intro afterToCursor
    rw [looksUp.kind afterToCursor, resolved, Option.map_some,
      Option.getD_some]

theorem looksUp_of_parse (parsed : parse catalog text = .ok root)
    (located : (path, current) ∈ root.located [])
    (member : assignment ∈ current.assignments)
    (isLine : (lines text)[assignment.position.line]? = some line)
    (recorded :
      entryOfLine? catalog line assignment.position.line =
        some (.assignment assignment)) :
    LooksUp catalog text root path assignment line := by
  have isEntry : Entry.assignment assignment ∈ current.entries :=
    Section.assignment_mem_entries member
  have equals : '=' ∈ line := mem_of_entryOfLine? recorded
  obtain ⟨_, refused, keyed⟩ := key_of_entryOfLine? recorded
  have pathAt : ∀ column ≤ equalsColumn line,
      root.pathAt ⟨assignment.position.line, column⟩ = path :=
    fun _ bound =>
      pathAt_of_le_equalsColumn parsed located isEntry isLine bound
  have hoverPath : ∀ column ≤ equalsColumn line,
      Hover.pathIn catalog text ⟨assignment.position.line, column⟩ =
        path := by
    intro column bound
    rw [Hover.pathIn_of_parse parsed, pathAt column bound]
  refine
    { hoverPath := hoverPath
      hover := ?_
      completion := ?_
      kind := ?_ }
  · intro column bound
    rw [Hover.at?_of_mem isLine equals, hoverPath column bound, keyed]
  · intro column behind
    obtain ⟨afterToCursor, _, offered⟩ :=
      Completion.items_of_mem parsed isLine equals behind
    exact ⟨afterToCursor, offered⟩
  · intro afterToCursor
    rw [keyed, Completion.expectedKind_of_not_keyword refused]
    have atEquals := pathAt (equalsColumn line) (Nat.le_refl _)
    rw [equalsColumn] at atEquals
    rw [atEquals]
    rfl

/-- **A key means one thing.**  An assignment belongs to the section that holds
it, and its key is looked up by hover and by completion at the path of that
section, as checking does.  So where checking finds a variable, hover shows that
variable, and completion offers values of its kind. -/
theorem key_means_one_thing (parsed : parse catalog text = .ok root)
    (located : (path, current) ∈ root.located [])
    (member : assignment ∈ current.assignments) :
    root.innermostAt assignment.position = current ∧
      (path, assignment) ∈ Configuration.locatedAssignments root ∧
      ∃ line, (lines text)[assignment.position.line]? = some line ∧
        '=' ∈ line ∧
        LooksUp catalog text root path assignment line ∧
        ((∀ shown key available,
            Configuration.settingOf catalog path assignment ≠
              .error (.unknownVariable shown key available)) →
          ∃ found, Means catalog text root path assignment line found) := by
  have inTree : current ∈ root.preorder :=
    Section.mem_preorder_of_mem_located root located
  have isEntry : Entry.assignment assignment ∈ current.entries :=
    Section.assignment_mem_entries member
  obtain ⟨line, isLine, recorded⟩ :=
    exists_line_of_entry parsed inTree isEntry
  have looksUp : LooksUp catalog text root path assignment line :=
    looksUp_of_parse parsed located member isLine recorded
  refine ⟨?_, ?_, line, isLine, mem_of_entryOfLine? recorded, looksUp, ?_⟩
  · exact innermostAt_of_key parsed located isEntry
      (keySpan_contains_position parsed inTree isEntry)
  · exact Configuration.mem_locatedAssignments_iff.mpr
      ⟨current, located, member⟩
  · intro known
    cases resolved : catalog.resolve? path assignment.key with
    | none =>
        obtain ⟨shown, key, available, unknown⟩ :=
          Configuration.settingOf_unknown_iff.mpr resolved
        exact absurd unknown (known shown key available)
    | some found => exact ⟨found, looksUp.means resolved⟩

/-- The key in the section that the sample leaves open. -/
theorem sample_key_means :
    ∃ root current assignment line found,
      parse sampleCatalog sampleText = .ok root ∧
      (["open"], current) ∈ root.located [] ∧
      assignment ∈ current.assignments ∧
      root.innermostAt assignment.position = current ∧
      Means sampleCatalog sampleText root ["open"] assignment line found := by
  have evaluated :
      (parse sampleCatalog sampleText).toOption.map
          (fun root => (Configuration.locatedAssignments root).map
            fun item => (item.1, item.2.key)) =
        some [([], "a"), (["a = b"], "k"), (["a = b", "inner"], "k"),
          (["open"], "k")] := by
    decide +kernel
  obtain ⟨root, parsed, names⟩ := exists_parse_of_map evaluated
  have named : (["open"], "k") ∈
      (Configuration.locatedAssignments root).map
        fun item => (item.1, item.2.key) := by
    rw [names]
    decide
  obtain ⟨⟨path, assignment⟩, isLocated, same⟩ := List.mem_map.mp named
  obtain ⟨rfl, keyed⟩ := Prod.mk.inj same
  obtain ⟨current, located, member⟩ :=
    Configuration.mem_locatedAssignments_iff.mp isLocated
  obtain ⟨innermost, _, line, _, _, _, means⟩ :=
    key_means_one_thing parsed located member
  have known : ∀ shown key available,
      Configuration.settingOf sampleCatalog ["open"] assignment ≠
        .error (.unknownVariable shown key available) := by
    intro shown key available unknown
    have unresolved := Configuration.settingOf_unknown_iff.mp
      ⟨shown, key, available, unknown⟩
    rw [keyed] at unresolved
    have resolved :
        (sampleCatalog.resolve? ["open"] "k").isSome = true := by
      decide +kernel
    rw [unresolved] at resolved
    exact absurd resolved (by decide)
  obtain ⟨found, isMeant⟩ := means known
  exact ⟨root, current, assignment, line, found, parsed, located, member,
    innermost, isMeant⟩

end Keys

end CompositorConf
