import CompositorConf.Catalog.Standard
import CompositorConf.Proofs.Document.Enclosing
import CompositorConf.Proofs.Editor.KeyMeaning
import CompositorConf.Proofs.Editor.Repainting
import CompositorConf.Proofs.Value.Coercion

/-!
# Accepting a colour

Where a variable takes a colour, completion offers the spellings of one, each
with a place for the digits.  An item is accepted by applying its edit, and the
digits it proposes may be kept.

* `TextEdit.filledIn` is an edit whose places hold what is proposed for them, and
  `exists_spells_of_snippet` says that every spelling then is one;
* `AwaitsColor` is an assignment of such a variable with a bare line, which has
  only blanks and `$` behind its `=`, and `colorItems_of_awaitsColor` says what is
  offered at the end of that line;
* `Becomes` is what an edit makes of an assignment, and
  `becomes_of_insertion` what inserting a spelling makes of this one;
* `accepted_color_is_read` is the result: a colour is read exactly if no `$` was
  there, since an item is put behind the `$` and not in its place.
-/

namespace CompositorConf

open Text Document

/-- Where a character of a snippet stands: outside of all places to fill in, in
the number of a place, or in what is proposed for it. -/
inductive SnippetPart where
  | outside
  | number
  | proposal
  deriving DecidableEq, Repr

/-- A snippet from a character on, with all places filled in as proposed. -/
def filledFrom : SnippetPart → List Char → List Char
  | _, [] => []
  | .outside, '$' :: '{' :: rest => filledFrom .number rest
  | .outside, character :: rest => character :: filledFrom .outside rest
  | .number, ':' :: rest => filledFrom .proposal rest
  | .number, _ :: rest => filledFrom .number rest
  | .proposal, '}' :: rest => filledFrom .outside rest
  | .proposal, character :: rest => character :: filledFrom .proposal rest

namespace TextEdit

/-- The edit of a snippet with all places filled in as proposed. -/
def filledIn (edit : TextEdit) : TextEdit :=
  { edit with
    newText := String.ofList (filledFrom .outside edit.newText.toList) }

theorem applyTo_filledIn (edit : TextEdit) (text : List Char) :
    edit.filledIn.applyTo text =
      textBefore (lines text) edit.range.start ++
        filledFrom .outside edit.newText.toList ++
        textBehind (lines text) edit.range.stop := by
  rw [applyTo, filledIn, String.toList_ofList]

end TextEdit

namespace Completion

open Rgba

/-- Every snippet for a colour spells one when it is filled in. -/
theorem exists_spells_of_snippet {snippet : ColorSnippet}
    (member : snippet ∈ colorSnippets) :
    ∃ color, Spells (filledFrom .outside snippet.body.toList) color := by
  have read : ∀ snippet ∈ colorSnippets,
      trim (filledFrom .outside snippet.body.toList) =
          filledFrom .outside snippet.body.toList ∧
        (ofLiteral? (filledFrom .outside snippet.body.toList)).isSome := by
    decide +kernel
  obtain ⟨trimmed, isRead⟩ := read snippet member
  obtain ⟨color, literal⟩ := Option.isSome_iff_exists.mp isRead
  rw [ofLiteral?_eq_some_iff, trimmed] at literal
  exact ⟨color, literal⟩

end Completion

/-- No value has been written yet: there are only blanks and `$`. -/
def IsBare (after : List Char) : Prop :=
  ∀ character ∈ after, isBlank character = true ∨ character = '$'

instance (after : List Char) : Decidable (IsBare after) :=
  decidable_of_iff
    (after.all fun character => isBlank character || character == '$')
    (by simp [IsBare])

/-- An assignment of a variable that takes colours, with only blanks and `$`
behind the first `=` of its line. -/
structure AwaitsColor (catalog : Catalog) (text : List Char)
    (path : List String) (assignment : Assignment) (found : LocatedVariable)
    (before after : List Char) : Prop where
  placed :
    ∃ root current, parse catalog text = .ok root ∧
      (path, current) ∈ root.located [] ∧ assignment ∈ current.assignments
  resolved : catalog.resolve? path assignment.key = some found
  takesColor :
    found.definition.kind = .color ∨ found.definition.kind = .gradient
  isLine :
    (lines text)[assignment.position.line]? = some (before ++ '=' :: after)
  missing : '=' ∉ before
  bare : IsBare after

/-- The place at the end of a line. -/
def endOfLine (number : Nat) (line : List Char) : Span :=
  .ofColumns number (utf16Length (dropReturn line))
    (utf16Length (dropReturn line))

section Lines

variable {catalog : Catalog} {text : List Char} {path : List String}
  {assignment : Assignment} {found : LocatedVariable}
  {before after : List Char}

theorem dropReturn_of_equals (before after : List Char) :
    dropReturn (before ++ '=' :: after) = before ++ '=' :: dropReturn after :=
  dropReturn_append_cons (by decide) before after

theorem IsBare.not_mem (bare : IsBare after) {character : Char}
    (visible : isBlank character = false) (other : character ≠ '$') :
    character ∉ after := by
  intro member
  rcases bare character member with blank | dollar
  · rw [visible] at blank
    cases blank
  · exact other dollar

theorem IsBare.dropReturn (bare : IsBare after) : IsBare (dropReturn after) :=
  fun character member =>
    bare character ((dropReturn_isInitial after).subset member)

/-- Values can be offered at the end of the line, unless it ends with the `=`. -/
theorem contextOf?_of_bare (bare : IsBare after) (before : List Char) :
    Completion.contextOf? (before ++ '=' :: after) = none ↔ after = [] := by
  rcases List.eq_nil_or_concat after with rfl | ⟨between, last, rfl⟩
  · simp [Completion.contextOf?, isBlank_equals]
  · rw [List.concat_eq_append] at bare ⊢
    rw [← List.cons_append, ← List.append_assoc, Completion.contextOf?,
      List.getLast?_concat]
    rcases bare last (List.mem_append_right _ List.mem_cons_self) with
      blank | rfl
    · by_cases dollar : last = '$'
      · simp [dollar]
      · simp [dollar, blank]
    · simp

theorem colorItems_of_kind (cursor : Span) {kind : ValueKind}
    (takesColor : kind = .color ∨ kind = .gradient) :
    Completion.kindItems cursor kind =
      Completion.colorSnippets.map (Completion.colorItem cursor) := by
  rcases takesColor with rfl | rfl
  · rfl
  · rfl

theorem AwaitsColor.recorded
    (awaits : AwaitsColor catalog text path assignment found before after) :
    hasContent (before ++ '=' :: after) = true ∧
      entryOfLine? catalog (before ++ '=' :: after) assignment.position.line =
        some (.assignment assignment) := by
  obtain ⟨root, current, parsed, located, member⟩ := awaits.placed
  have inTree : current ∈ root.preorder :=
    Section.mem_preorder_of_mem_located root located
  obtain ⟨line, isLine, content, recorded⟩ :=
    exists_contentLine_of_entry parsed inTree
      (Section.assignment_mem_entries member)
  obtain rfl : line = before ++ '=' :: after :=
    Option.some.inj (isLine.symm.trans awaits.isLine)
  exact ⟨content, recorded⟩

/-- At the end of the line every spelling is offered, to be inserted there. -/
theorem colorItems_of_awaitsColor
    (awaits : AwaitsColor catalog text path assignment found before after)
    {column : Nat}
    (atEnd : utf16Length (dropReturn (before ++ '=' :: after)) ≤ column) :
    (Completion.items catalog text ⟨assignment.position.line, column⟩).filter
        (fun item => item.kind = .color) =
      if dropReturn after = [] then []
      else Completion.colorSnippets.map (Completion.colorItem
        (endOfLine assignment.position.line (before ++ '=' :: after))) := by
  obtain ⟨root, current, parsed, located, member⟩ := awaits.placed
  have equals : '=' ∈ before ++ '=' :: after := by simp
  have whole : takeUnits column (dropReturn (before ++ '=' :: after)) =
      before ++ '=' :: dropReturn after := by
    rw [takeUnits_of_le atEnd, dropReturn_of_equals]
  have behind : equalsColumn (before ++ '=' :: after) < column := by
    have inFront : '=' ∈ takeUnits column
        (dropReturn (before ++ '=' :: after)) := by
      simp [whole]
    exact (equals_mem_takeUnits_iff.mp inFront).2
  obtain ⟨afterToCursor, _, offered⟩ :=
    Completion.items_of_mem parsed awaits.isLine equals behind
  have looksUp := looksUp_of_parse parsed located member awaits.isLine
    awaits.recorded.2
  have kind := (looksUp.means awaits.resolved).completed afterToCursor
  have context := contextOf?_of_bare awaits.bare.dropReturn before
  rw [offered, whole, Completion.valueItems]
  cases found : Completion.contextOf? (before ++ '=' :: dropReturn after) with
  | none =>
      rw [if_pos (context.mp found)]
      rfl
  | some place =>
      have some : dropReturn after ≠ [] := by
        intro empty
        rw [context.mpr empty] at found
        cases found
      dsimp only
      rw [kind, colorItems_of_kind _ awaits.takesColor, if_neg some,
        List.filter_append, endOfLine, dropReturn_of_equals]
      -- Custom variables are offered as well, but not as colours.
      have noVariable (range : Span) :
          (root.allVariables.map (Completion.variableItem range)).filter
            (fun item => item.kind = .color) = [] := by
        simp [Completion.variableItem]
      rw [noVariable, List.nil_append, List.filter_eq_self]
      intro item isItem
      obtain ⟨snippet, _, rfl⟩ := List.mem_map.mp isItem
      rfl

theorem colorItem_mem_items
    (awaits : AwaitsColor catalog text path assignment found before after)
    (some : dropReturn after ≠ []) {column : Nat}
    (atEnd : utf16Length (dropReturn (before ++ '=' :: after)) ≤ column)
    {snippet : Completion.ColorSnippet}
    (member : snippet ∈ Completion.colorSnippets) :
    Completion.colorItem
        (endOfLine assignment.position.line (before ++ '=' :: after)) snippet ∈
      Completion.items catalog text ⟨assignment.position.line, column⟩ := by
  have offered := colorItems_of_awaitsColor awaits atEnd
  rw [if_neg some] at offered
  apply List.mem_of_mem_filter
  rw [offered]
  exact List.mem_map_of_mem member

end Lines

section Insertion

variable {catalog : Catalog} {before body ending literal : List Char}
  {color : Rgba}

theorem hasVisibleEnds_of_insertion (spells : Rgba.Spells literal color)
    (body : List Char) : HasVisibleEnds (trimStart body ++ literal) where
  nonempty :=
    List.append_ne_nil_of_right_ne_nil _
      (hasVisibleEnds_of_spells spells).nonempty
  first := by
    intro character isFirst
    have stopped := List.head?_dropWhile_not isBlank body
    rw [← trimStart] at stopped
    cases rest : trimStart body with
    | nil =>
        rw [rest, List.nil_append] at isFirst
        exact (hasVisibleEnds_of_spells spells).first character isFirst
    | cons first others =>
        rw [rest] at isFirst stopped
        obtain rfl : first = character := Option.some.inj isFirst
        simpa using stopped
  last := by
    intro character isLast
    have ends := hasVisibleEnds_of_spells spells
    rw [List.getLast?_append_of_ne_nil _ ends.nonempty] at isLast
    exact ends.last character isLast

/-- The value of the line is the spelling, behind whatever stood there from the
first `$` on. -/
theorem entryOfLine?_of_insertion {number : Nat} {assignment : Assignment}
    {after : List Char}
    (recorded : entryOfLine? catalog (before ++ '=' :: after) number =
      some (.assignment assignment))
    (missing : '=' ∉ before) (bare : IsBare body)
    (returns : ∀ character ∈ ending, character = '\r')
    (spells : Rgba.Spells literal color) :
    ∃ start,
      entryOfLine? catalog (before ++ '=' :: (body ++ literal ++ ending))
          number =
        some (.assignment
          { assignment with
            value := Value.classify (trimStart body ++ literal) start
            rawValue := String.ofList (trimStart body ++ literal) }) := by
  have slot : IsSlot (body.takeWhile isBlank) ending := by
    refine ⟨fun _ => List.mem_takeWhile_imp, ?_⟩
    intro character member
    rw [returns character ((List.takeWhile_prefix _).subset member)]
    decide
  have uncommented : '#' ∉ trimStart body ++ literal := by
    rw [List.mem_append, mem_trimStart_iff (by decide), not_or]
    exact ⟨bare.not_mem (by decide) (by decide),
      (isPlain_of_spells spells).not_mem (by decide) (by decide)⟩
  have shape : body ++ literal ++ ending =
      body.takeWhile isBlank ++ (trimStart body ++ literal) ++ ending := by
    rw [trimStart, ← List.append_assoc, List.takeWhile_append_dropWhile]
  rw [shape]
  exact ⟨_, entryOfLine?_of_value recorded missing slot
    (hasVisibleEnds_of_insertion spells body) uncommented⟩

/-- Only the line itself changes, in front of its carriage return. -/
theorem lines_of_insertion {text after : List Char}
    {front back : List (List Char)} {newText : String}
    (split : lines text = front ++ (before ++ '=' :: after) :: back)
    (isEnding : after = dropReturn after ++ ending)
    (single : '\n' ∉ newText.toList) :
    lines (TextEdit.applyTo
        ⟨endOfLine front.length (before ++ '=' :: after), newText⟩ text) =
      front ++
        (before ++ '=' :: (dropReturn after ++ newText.toList ++ ending)) ::
          back := by
  have shape (inserted : List Char) :
      before ++ '=' :: (dropReturn after ++ inserted ++ ending) =
        (before ++ '=' :: dropReturn after) ++ inserted ++ ending := by
    simp
  have uncut : lines text =
      front ++ ((before ++ '=' :: dropReturn after) ++ [] ++ ending) ::
        back := by
    rw [← shape, List.append_nil, ← isEnding]
    exact split
  have inserted := TextEdit.lines_applyTo uncut single
  rw [shape, endOfLine, dropReturn_of_equals]
  exact inserted

/-- A spelling that was put at the end of such a line is read as a colour exactly
if no `$` stands before it. -/
theorem coerce_of_insertion (bare : IsBare body)
    (spells : Rgba.Spells literal color) {kind : ValueKind}
    (takesColor : kind = .color ∨ kind = .gradient) (start : Position) :
    ((Value.classify (trimStart body ++ literal) start).coerce kind
        (String.ofList (trimStart body ++ literal))).isSome = true ↔
      '$' ∉ body := by
  obtain ⟨refers, reads⟩ := Value.coerce_classify_iff kind
    (String.ofList (trimStart body ++ literal)) start
  rw [String.toList_ofList] at refers reads
  by_cases dollar : '$' ∈ body
  · have kept : '$' ∈ trimStart body ++ literal :=
      List.mem_append_left _ ((mem_trimStart_iff (by decide)).mpr dollar)
    rw [refers kept]
    simp [dollar]
  · have allBlank : trimStart body = [] := by
      rw [trimStart, List.dropWhile_eq_nil_iff]
      intro character member
      apply (bare character member).resolve_right
      rintro rfl
      exact dollar member
    rw [allBlank, List.nil_append] at reads ⊢
    have noDollar : '$' ∉ literal :=
      (isPlain_of_spells spells).not_mem (by decide) (by decide)
    have notCustom : kind ≠ .custom := by
      rintro rfl
      simp at takesColor
    have declared : (kind.declaredGrammar literal start).isSome = true := by
      have read := Rgba.ofLiteral?_of_spells spells
      rcases takesColor with rfl | rfl
      · simp [ValueKind.declaredGrammar, ValueKind.grammar,
          Grammar.colorGrammar, read]
      · rw [Value.declaredGrammar_of_literal read]
        rfl
    simp [(reads noDollar notCustom).1.mpr declared, dollar]

end Insertion

/-! ## Documents -/

/-- In another text an assignment stands where a given one stood, in a section
with the same names around it, and has its key. -/
structure Becomes (catalog : Catalog) (other : List Char)
    (path : List String) (assignment replaced : Assignment) : Prop where
  placed :
    ∃ root current, parse catalog other = .ok root ∧
      (path, current) ∈ root.located [] ∧ replaced ∈ current.assignments
  key : replaced.key = assignment.key
  position : replaced.position = assignment.position

section Documents

variable {catalog : Catalog} {text : List Char} {path : List String}
  {assignment : Assignment} {found : LocatedVariable}
  {before after : List Char}

/-- No two assignments stand on one line. -/
theorem Becomes.unique {first second : Assignment}
    (isFirst : Becomes catalog text path assignment first)
    (isSecond : Becomes catalog text path assignment second) :
    first = second := by
  have recordedOf {replaced : Assignment}
      (becomes : Becomes catalog text path assignment replaced) :
      ∃ line, (lines text)[assignment.position.line]? = some line ∧
        entryOfLine? catalog line assignment.position.line =
          some (.assignment replaced) := by
    obtain ⟨root, current, parsed, located, member⟩ := becomes.placed
    rw [← becomes.position]
    exact exists_line_of_entry parsed
      (Section.mem_preorder_of_mem_located root located)
      (Section.assignment_mem_entries member)
  obtain ⟨line, isLine, recorded⟩ := recordedOf isFirst
  obtain ⟨other, isOther, otherRecorded⟩ := recordedOf isSecond
  obtain rfl : line = other := Option.some.inj (isLine.symm.trans isOther)
  have same := Option.some.inj (recorded.symm.trans otherRecorded)
  exact Entry.assignment.inj same

/-- A line that records something can be exchanged for another one, if neither
opens a section: what the other one records stands in a section with the same names
around it. -/
theorem exists_located_of_exchanged {other line otherLine : List Char}
    {front back : List (List Char)} {root current : Section}
    {entry otherEntry : Entry}
    (parsed : parse catalog text = .ok root)
    (split : lines text = front ++ line :: back)
    (otherSplit : lines other = front ++ otherLine :: back)
    (content : hasContent line = true ∧ hasContent otherLine = true)
    (opensNot :
      opensSection line = false ∧ opensSection otherLine = false)
    (recorded : entryOfLine? catalog line front.length = some entry)
    (otherRecorded :
      entryOfLine? catalog otherLine front.length = some otherEntry)
    (located : (path, current) ∈ root.located [])
    (member : entry ∈ current.entries) :
    ∃ edited holder, parse catalog other = .ok edited ∧
      (path, holder) ∈ edited.located [] ∧ otherEntry ∈ holder.entries := by
  have closesNot := closesSection_of_mem (mem_of_entryOfLine? recorded)
  have otherClosesNot :=
    closesSection_of_mem (mem_of_entryOfLine? otherRecorded)
  obtain ⟨edited, isEdited⟩ := exists_parse_of_line parsed split otherSplit
    (opensNot.2.trans opensNot.1.symm) (otherClosesNot.trans closesNot.symm)
  obtain ⟨holder, otherLocated, otherMember⟩ :=
    located_of_entryOfLine? isEdited otherSplit content.2 opensNot.2
      otherClosesNot otherRecorded
  have samePath : path = openPath front :=
    path_of_entryOfLine? parsed split content.1 opensNot.1 closesNot recorded
      located member
  rw [← samePath] at otherLocated
  exact ⟨edited, holder, isEdited, otherLocated, otherMember⟩

/-- A spelling can be put at the end of the line. -/
theorem becomes_of_insertion
    (awaits : AwaitsColor catalog text path assignment found before after)
    {newText : String} {color : Rgba}
    (spells : Rgba.Spells newText.toList color) :
    ∃ replaced start,
      Becomes catalog
        (TextEdit.applyTo
          ⟨endOfLine assignment.position.line (before ++ '=' :: after),
            newText⟩ text)
        path assignment replaced ∧
      replaced.rawValue =
        String.ofList (trimStart (dropReturn after) ++ newText.toList) ∧
      replaced.value =
        Value.classify (trimStart (dropReturn after) ++ newText.toList)
          start := by
  obtain ⟨root, current, parsed, located, member⟩ := awaits.placed
  obtain ⟨content, recorded⟩ := awaits.recorded
  obtain ⟨ending, isEnding, returns⟩ := exists_return after
  obtain ⟨front, back, split, length⟩ :=
    exists_split_of_getElem? awaits.isLine
  rw [← length] at recorded ⊢
  obtain ⟨start, newRecorded⟩ :=
    entryOfLine?_of_insertion recorded awaits.missing awaits.bare.dropReturn
      returns spells
  have newSplit := lines_of_insertion split isEnding
    (Rgba.not_mem_of_spells spells (by decide))
  -- Neither line has a brace behind its first `=`, and both begin alike.
  have noBrace : '{' ∉ after := awaits.bare.not_mem (by decide) (by decide)
  have newNoBrace :
      '{' ∉ dropReturn after ++ newText.toList ++ ending := by
    have inSpelling : '{' ∉ newText.toList :=
      (isPlain_of_spells spells).not_mem (by decide) (by decide)
    rw [isEnding, List.mem_append, not_or] at noBrace
    simp [noBrace, inSpelling]
  have newContent := content
  rw [hasContent_append_cons, ← hasContent_append_cons before
    (dropReturn after ++ newText.toList ++ ending)] at newContent
  obtain ⟨edited, holder, newParsed, newLocated, newMember⟩ :=
    exists_located_of_exchanged parsed split newSplit ⟨content, newContent⟩
      ⟨opensSection_of_not_mem before noBrace,
        opensSection_of_not_mem before newNoBrace⟩
      recorded newRecorded located (Section.assignment_mem_entries member)
  have listed := Section.assignment_mem_entries_iff.mp newMember
  exact ⟨_, start, ⟨⟨edited, holder, newParsed, newLocated, listed⟩, rfl, rfl⟩,
    rfl, rfl⟩

/-- What the edit of a spelling makes of the assignment. -/
theorem becomes_of_snippet
    (awaits : AwaitsColor catalog text path assignment found before after)
    {snippet : Completion.ColorSnippet}
    (member : snippet ∈ Completion.colorSnippets) :
    ∃ replaced,
      Becomes catalog
        (TextEdit.applyTo
          (TextEdit.filledIn
            ⟨endOfLine assignment.position.line (before ++ '=' :: after),
              snippet.body⟩) text)
        path assignment replaced ∧
      ((replaced.value.coerce found.definition.kind
          replaced.rawValue).isSome = true ↔ '$' ∉ after) := by
  obtain ⟨color, spells⟩ := Completion.exists_spells_of_snippet member
  rw [← String.toList_ofList (l := filledFrom .outside snippet.body.toList)]
    at spells
  obtain ⟨replaced, start, becomes, raw, value⟩ :=
    becomes_of_insertion awaits spells
  have dollar : '$' ∈ dropReturn after ↔ '$' ∈ after :=
    ⟨fun kept => (dropReturn_isInitial after).subset kept,
      mem_dropReturn (by decide)⟩
  refine ⟨replaced, becomes, ?_⟩
  rw [raw, value, coerce_of_insertion awaits.bare.dropReturn spells
    awaits.takesColor start, dollar]

/-- **An accepted colour is read as one unless a `$` stands before it.**  Take an
assignment of a variable that takes colours, with only blanks and `$` behind the
`=` of its line, and the cursor at the end of that line.  If anything stands behind
the `=`, every spelling of a colour is offered there.  With the edit of such an
item, its places filled in as proposed, the text can still be read, and the
assignment stands where it did.  Its value can be read as the declared kind exactly
if there was no `$`: the edit leaves a `$` in front of the colour, which makes it a
reference. -/
theorem accepted_color_is_read
    (awaits : AwaitsColor catalog text path assignment found before after)
    {column : Nat}
    (atEnd : utf16Length (dropReturn (before ++ '=' :: after)) ≤ column) :
    ((Completion.items catalog text
          ⟨assignment.position.line, column⟩).filter
        (fun item => item.kind = .color) =
      if dropReturn after = [] then []
      else Completion.colorSnippets.map (Completion.colorItem
        (endOfLine assignment.position.line (before ++ '=' :: after)))) ∧
    ∀ item ∈ Completion.items catalog text
        ⟨assignment.position.line, column⟩,
      item.kind = .color →
      ∃ edit replaced, item.edit = some edit ∧
        Becomes catalog (edit.filledIn.applyTo text) path assignment
          replaced ∧
        (∀ other, Becomes catalog (edit.filledIn.applyTo text) path assignment
          other → other = replaced) ∧
        ((replaced.value.coerce found.definition.kind
            replaced.rawValue).isSome = true ↔ '$' ∉ after) := by
  have offered := colorItems_of_awaitsColor awaits atEnd
  refine ⟨offered, ?_⟩
  intro item isItem isColor
  have isSnippet : item ∈ (Completion.items catalog text
      ⟨assignment.position.line, column⟩).filter
        (fun item => item.kind = .color) :=
    List.mem_filter.mpr ⟨isItem, decide_eq_true isColor⟩
  rw [offered] at isSnippet
  split at isSnippet
  · exact absurd isSnippet List.not_mem_nil
  · obtain ⟨snippet, member, rfl⟩ := List.mem_map.mp isSnippet
    obtain ⟨replaced, becomes, coerced⟩ := becomes_of_snippet awaits member
    exact ⟨_, replaced, rfl, becomes, fun _ other => other.unique becomes,
      coerced⟩

def borderText (after : List Char) : List Char :=
  "general \x7b\n".toList ++ "  col.active_border ".toList ++ '=' :: after ++
    "\n\x7d\n".toList

theorem borderText_awaitsColor (sample : after ∈ [[' '], [' ', '$']]) :
    ∃ assignment found,
      AwaitsColor .standard (borderText after) ["general"] assignment found
        "  col.active_border ".toList after ∧
      assignment.position.line = 1 := by
  have evaluated : ∀ after ∈ [[' '], [' ', '$']],
      (parse .standard (borderText after)).toOption.map
          (fun root => (Configuration.locatedAssignments root).map
            fun item => (item.1, item.2.key, item.2.position.line)) =
        some [(["general"], "col.active_border", 1)] := by
    decide +kernel
  have secondLine : ∀ after ∈ [[' '], [' ', '$']],
      (lines (borderText after))[1]? =
        some ("  col.active_border ".toList ++ '=' :: after) := by
    decide +kernel
  have allBare : ∀ after ∈ [[' '], [' ', '$']], IsBare after :=
    List.forall_mem_cons.mpr
      ⟨by decide, List.forall_mem_singleton.mpr (by decide)⟩
  have declared :
      (Catalog.standard.resolve? ["general"] "col.active_border").map
        (·.definition.kind) = some .gradient := by
    decide +kernel
  obtain ⟨root, parsed, names⟩ :=
    exists_parse_of_map (evaluated after sample)
  obtain ⟨⟨path, assignment⟩, listed, same⟩ := List.map_eq_singleton_iff.mp names
  obtain ⟨rfl, keyed, placed⟩ := (by simpa using same :
    path = ["general"] ∧ assignment.key = "col.active_border" ∧
      assignment.position.line = 1)
  have isListed : (["general"], assignment) ∈
      Configuration.locatedAssignments root := by
    rw [listed]
    exact List.mem_singleton_self _
  obtain ⟨current, located, member⟩ :=
    Configuration.mem_locatedAssignments_iff.mp isListed
  obtain ⟨found, resolved, kind⟩ := Option.map_eq_some_iff.mp declared
  have isLine := secondLine after sample
  rw [← keyed] at resolved
  rw [← placed] at isLine
  exact ⟨assignment, found,
    ⟨⟨root, current, parsed, located, member⟩, resolved, Or.inr kind, isLine,
      by decide, allBare after sample⟩, placed⟩

/-- Without a `$` the border gets its colour. -/
theorem borderText_gets_color :
    ∃ assignment found item edit replaced,
      AwaitsColor .standard (borderText [' ']) ["general"] assignment found
        "  col.active_border ".toList [' '] ∧
      item ∈ Completion.items .standard (borderText [' ']) ⟨1, 22⟩ ∧
      item.kind = .color ∧ item.edit = some edit ∧
      edit.filledIn.applyTo (borderText [' ']) =
        borderText " rgba(ffffffff)".toList ∧
      Becomes .standard (borderText " rgba(ffffffff)".toList) ["general"]
        assignment replaced ∧
      (replaced.value.coerce found.definition.kind
        replaced.rawValue).isSome = true := by
  obtain ⟨assignment, found, awaits, placed⟩ :=
    borderText_awaitsColor List.mem_cons_self
  have atEnd : utf16Length
      (dropReturn ("  col.active_border ".toList ++ '=' :: [' '])) ≤ 22 := by
    decide
  have isItem := colorItem_mem_items awaits (by decide) atEnd
    (List.mem_cons_self (a := Completion.colorSnippets.head (by decide)))
  obtain ⟨_, accepted⟩ := accepted_color_is_read awaits atEnd
  obtain ⟨edit, replaced, isEdit, becomes, _, coerced⟩ :=
    accepted _ isItem rfl
  rw [placed] at isItem isEdit
  have applied : edit.filledIn.applyTo (borderText [' ']) =
      borderText " rgba(ffffffff)".toList := by
    rw [← Option.some.inj isEdit, TextEdit.applyTo_filledIn]
    decide +kernel
  rw [applied] at becomes
  exact ⟨assignment, found, _, edit, replaced, awaits, isItem, rfl, isEdit,
    applied, becomes, coerced.mpr (by decide)⟩

/-- With a `$` the border gets a reference, which is not read as a colour. -/
theorem borderText_gets_reference :
    ∃ assignment found item edit replaced,
      AwaitsColor .standard (borderText [' ', '$']) ["general"] assignment
        found "  col.active_border ".toList [' ', '$'] ∧
      item ∈ Completion.items .standard (borderText [' ', '$']) ⟨1, 23⟩ ∧
      item.kind = .color ∧ item.edit = some edit ∧
      edit.filledIn.applyTo (borderText [' ', '$']) =
        borderText " $rgba(ffffffff)".toList ∧
      Becomes .standard (borderText " $rgba(ffffffff)".toList) ["general"]
        assignment replaced ∧
      (∀ other,
        Becomes .standard (borderText " $rgba(ffffffff)".toList) ["general"]
          assignment other → other = replaced) ∧
      replaced.value.coerce found.definition.kind replaced.rawValue =
        none := by
  obtain ⟨assignment, found, awaits, placed⟩ := borderText_awaitsColor
    (List.mem_cons_of_mem _ List.mem_cons_self)
  have atEnd : utf16Length
      (dropReturn ("  col.active_border ".toList ++ '=' :: [' ', '$'])) ≤
        23 := by
    decide
  have member : Completion.colorSnippets.head (by decide) ∈
      Completion.colorSnippets :=
    List.head_mem _
  have isItem := colorItem_mem_items awaits (by decide) atEnd member
  obtain ⟨replaced, becomes, coerced⟩ := becomes_of_snippet awaits member
  rw [placed] at isItem becomes
  have applied : TextEdit.applyTo
        (TextEdit.filledIn
          ⟨endOfLine 1 ("  col.active_border ".toList ++ '=' :: [' ', '$']),
            (Completion.colorSnippets.head (by decide)).body⟩)
        (borderText [' ', '$']) =
      borderText " $rgba(ffffffff)".toList := by
    rw [TextEdit.applyTo_filledIn]
    decide +kernel
  rw [applied] at becomes
  have fails : ¬ (replaced.value.coerce found.definition.kind
      replaced.rawValue).isSome = true := by
    rw [coerced]
    decide
  exact ⟨assignment, found, _, _, replaced, awaits, isItem, rfl, rfl, applied,
    becomes, fun _ other => other.unique becomes,
    Option.not_isSome_iff_eq_none.mp fails⟩

end Documents

end CompositorConf
