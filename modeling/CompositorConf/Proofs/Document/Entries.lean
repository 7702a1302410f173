import CompositorConf.Proofs.Document.Scopes

/-!
# Every line with an `=` is recorded once, where it stands

* `Section.ownedFrom` lists the entries of a tree, each with the line that
  opened its section;
* `recordedEntries` lists what the lines of a text record, each with the section
  that is innermost before its line;
* `RecordedAs` says which kind of entry a line becomes;
* `records_of_readLines` says that the open sections hold what was recorded.
-/

namespace CompositorConf

open Text Document

namespace Document

/-- What a line with an `=` becomes: a custom variable if its key begins with
`$`, else a statement if a keyword accepts the key, else an assignment. -/
inductive RecordedAs (catalog : Catalog) (line : List Char) (number : Nat) :
    Entry → Prop
  | ofVariable {name : List Char} {content : Assignment} :
      keyText line = '$' :: name →
      content.key = String.ofList name →
      content.position.line = number →
      RecordedAs catalog line number (.variable content)
  | ofStatement {content : Statement} :
      (keyText line).head? ≠ some '$' →
      (catalog.findKeyword? (String.ofList (keyText line))).isSome = true →
      content.keyword = String.ofList (keyText line) →
      content.position.line = number →
      RecordedAs catalog line number (.statement content)
  | ofAssignment {content : Assignment} :
      (keyText line).head? ≠ some '$' →
      catalog.findKeyword? (String.ofList (keyText line)) = none →
      content.key = String.ofList (keyText line) →
      content.position.line = number →
      RecordedAs catalog line number (.assignment content)

/-- What a line records after others, with the number of the line that opened the
section which is innermost before it: one entry for a line with content and an
`=`, and nothing for any other. -/
def recordedAfter (catalog : Catalog) (before : List (List Char))
    (line : List Char) : Option (Option Nat × Entry) :=
  if hasContent line = true ∧ '=' ∈ line then
    (entryOfLine? catalog line before.length).map fun entry =>
      (innermostOpen before, entry)
  else
    none

/-- What the lines of a text record, in their order. -/
def recordedEntries (catalog : Catalog) (source : List (List Char)) :
    List (Option Nat × Entry) :=
  source.zipIdx.filterMap fun item =>
    recordedAfter catalog (source.take item.2) item.1

theorem recordedAs_of_entryOfLine? {catalog : Catalog} {line : List Char}
    {number : Nat} {entry : Entry}
    (recorded : entryOfLine? catalog line number = some entry) :
    RecordedAs catalog line number entry := by
  have member : '=' ∈ line := mem_of_entryOfLine? recorded
  obtain ⟨pair, split, keyed⟩ := splitKeyValue?_of_mem number member
  rw [entryOfLine?, split, Option.map_some, Option.some.injEq] at recorded
  rw [← recorded, entryOf]
  split
  · next name key =>
      exact RecordedAs.ofVariable (keyed.symm.trans key) rfl rfl
  · next different =>
      have plain : (keyText line).head? ≠ some '$' := by
        intro dollar
        rw [← keyed] at dollar
        obtain ⟨rest, key⟩ := List.head?_eq_some_iff.mp dollar
        exact different rest key
      dsimp only
      split
      · next accepted =>
          rw [keyed] at accepted
          exact RecordedAs.ofStatement plain accepted
            (congrArg String.ofList keyed) rfl
      · next refused =>
          rw [keyed, Bool.not_eq_true, Option.isSome_eq_false_iff,
            Option.isNone_iff_eq_none] at refused
          exact RecordedAs.ofAssignment plain refused
            (congrArg String.ofList keyed) rfl

/-- The key of an assignment is that of its line: it has no `$`, and no keyword
accepts it. -/
theorem key_of_entryOfLine? {catalog : Catalog} {line : List Char}
    {number : Nat} {assignment : Assignment}
    (recorded :
      entryOfLine? catalog line number = some (.assignment assignment)) :
    (keyText line).head? ≠ some '$' ∧
      catalog.findKeyword? (String.ofList (keyText line)) = none ∧
      assignment.key = String.ofList (keyText line) := by
  have kind : RecordedAs catalog line number (.assignment assignment) :=
    recordedAs_of_entryOfLine? recorded
  cases kind with
  | ofAssignment plain refused keyed _ => exact ⟨plain, refused, keyed⟩

section Concat

variable {catalog : Catalog} {before : List (List Char)} {line : List Char}

theorem recordedEntries_concat :
    recordedEntries catalog (before ++ [line]) =
      recordedEntries catalog before ++
        (recordedAfter catalog before line).toList := by
  rw [recordedEntries, List.zipIdx_append, List.filterMap_append]
  congr 1
  · rw [recordedEntries]
    apply List.filterMap_congr
    rintro ⟨earlier, number⟩ member
    have inside : number < before.length :=
      (List.getElem?_eq_some_iff.mp
        (List.mk_mem_zipIdx_iff_getElem?.mp member)).1
    rw [List.take_append_of_le_length (Nat.le_of_lt inside)]
  · rw [List.zipIdx_singleton, Nat.zero_add, List.filterMap_cons,
      List.take_append_of_le_length (Nat.le_refl _), List.take_length]
    cases recordedAfter catalog before line <;> rfl

theorem recordedAfter_eq_some (content : hasContent line = true)
    {entry : Entry}
    (recorded : entryOfLine? catalog line before.length = some entry) :
    recordedAfter catalog before line = some (innermostOpen before, entry) := by
  rw [recordedAfter, if_pos ⟨content, mem_of_entryOfLine? recorded⟩, recorded,
    Option.map_some]

theorem recordedAfter_eq_none
    (recorded : entryOfLine? catalog line before.length = none) :
    recordedAfter catalog before line = none := by
  have missing : '=' ∉ line := entryOfLine?_eq_none_iff.mp recorded
  rw [recordedAfter, if_neg (fun both => missing both.2)]

theorem recordedAfter_of_not_hasContent
    (contentNot : hasContent line = false) :
    recordedAfter catalog before line = none := by
  rw [recordedAfter, if_neg (by simp [contentNot])]

end Concat

end Document

namespace Section

/-- The entries of a section, marked with an owner, and those of all sections
inside it, marked with the line that opened their section. -/
def ownedFrom (owner : Option Nat) (current : Section) :
    List (Option Nat × Entry) :=
  current.entries.map (fun entry => (owner, entry)) ++
    current.descendants.flatMap fun inner =>
      inner.entries.map fun entry => (some inner.span.start.line, entry)

/-- The lines of each of the three lists of a section increase. -/
structure LinesIncrease (current : Section) : Prop where
  assignments :
    current.assignments.Pairwise fun first second =>
      first.position.line < second.position.line
  customVariables :
    current.customVariables.Pairwise fun first second =>
      first.position.line < second.position.line
  statements :
    current.statements.Pairwise fun first second =>
      first.position.line < second.position.line

variable (owner : Option Nat) (current inner : Section) (stop : Position)

@[simp] theorem endingAt_ownedFrom :
    (current.endingAt stop).ownedFrom owner = current.ownedFrom owner := by
  simp [ownedFrom]

theorem addSubsection_ownedFrom :
    (current.addSubsection inner).ownedFrom owner =
      current.ownedFrom owner ++
        inner.ownedFrom (some inner.span.start.line) := by
  simp [ownedFrom, preorder_eq inner]

theorem record_ownedFrom (entry : Entry) :
    ((record current entry).ownedFrom owner).Perm
      (current.ownedFrom owner ++ [(owner, entry)]) := by
  have direct :
      ((record current entry).entries.map fun entry => (owner, entry)).Perm
        (current.entries.map (fun entry => (owner, entry)) ++
          [(owner, entry)]) := by
    simpa using (entries_record current entry).map fun entry => (owner, entry)
  rw [ownedFrom, ownedFrom, record_descendants]
  refine (direct.append_right _).trans ?_
  rw [List.append_assoc, List.append_assoc]
  exact List.perm_append_comm.append_left _

/-- What is picked out of the entries of every section is what the sections list,
in the order of the tree. -/
theorem ownedFrom_filterMap {Item : Type} {pick : Entry → Option Item}
    {listed : Section → List Item}
    (own : ∀ holder : Section, holder.entries.filterMap pick = listed holder)
    (owner : Option Nat) (current : Section) :
    ((current.ownedFrom owner).filterMap fun item => pick item.2) =
      current.preorder.flatMap listed := by
  have marked : ∀ (mark : Option Nat) (holder : Section),
      ((holder.entries.map fun entry => (mark, entry)).filterMap
        fun item => pick item.2) = listed holder := by
    intro mark holder
    rw [List.filterMap_map]
    exact own holder
  rw [ownedFrom, List.filterMap_append, marked, List.filterMap_flatMap,
    preorder_eq, List.flatMap_cons]
  simp only [marked]

theorem opened_ownedFrom (name : String) (start : Position) :
    (opened name start).ownedFrom owner = [] := rfl

theorem opened_linesIncrease (name : String) (start : Position) :
    (opened name start).LinesIncrease :=
  ⟨List.Pairwise.nil, List.Pairwise.nil, List.Pairwise.nil⟩

variable {current} in
theorem LinesIncrease.endingAt (increase : current.LinesIncrease) :
    (current.endingAt stop).LinesIncrease :=
  ⟨increase.assignments, increase.customVariables, increase.statements⟩

variable {current} in
theorem LinesIncrease.addSubsection (increase : current.LinesIncrease) :
    (current.addSubsection inner).LinesIncrease :=
  ⟨increase.assignments, increase.customVariables, increase.statements⟩

end Section

namespace Document

open OpenSections

/-- The lines that opened the open sections, the innermost first; the root was
opened by no line. -/
def openOwners : Section → List Section → List Nat
  | _, [] => []
  | innermost, parent :: outer =>
      innermost.span.start.line :: openOwners parent outer

/-- The entries of the open sections and of all sections inside them, each with
the line that opened its section. -/
def openOwned : Section → List Section → List (Option Nat × Entry)
  | innermost, [] => innermost.ownedFrom none
  | innermost, parent :: outer =>
      openOwned parent outer ++
        innermost.ownedFrom (some innermost.span.start.line)

section Owned

variable (innermost parent inner : Section) (outer : List Section)

theorem openOwned_addSubsection :
    openOwned (parent.addSubsection inner) outer =
      openOwned parent outer ++
        inner.ownedFrom (some inner.span.start.line) := by
  cases outer with
  | nil => exact Section.addSubsection_ownedFrom none parent inner
  | cons next rest =>
      rw [openOwned, openOwned, Section.addSubsection_ownedFrom,
        List.append_assoc, Section.addSubsection_span]

theorem openOwned_record (entry : Entry) :
    (openOwned (record innermost entry) outer).Perm
      (openOwned innermost outer ++
        [((openOwners innermost outer).head?, entry)]) := by
  cases outer with
  | nil => exact Section.record_ownedFrom none innermost entry
  | cons parent rest =>
      rw [openOwned, openOwned, openOwners, List.head?_cons,
        List.append_assoc, Section.record_span]
      exact (Section.record_ownedFrom _ innermost entry).append_left _

theorem openOwners_record (entry : Entry) :
    openOwners (record innermost entry) outer = openOwners innermost outer := by
  cases outer with
  | nil => rfl
  | cons parent rest => rw [openOwners, openOwners, Section.record_span]

theorem openOwners_addSubsection :
    openOwners (parent.addSubsection inner) outer = openOwners parent outer := by
  cases outer <;> rfl

theorem closeAll_ownedFrom (stop : Position) :
    (closeAll stop innermost outer).ownedFrom none =
      openOwned innermost outer := by
  induction outer generalizing innermost with
  | nil => rfl
  | cons parent rest inductionHypothesis =>
      rw [closeAll, inductionHypothesis, openOwned_addSubsection,
        Section.endingAt_ownedFrom, openOwned]
      rfl

end Owned

/-- What holds of all lines that opened the open sections holds of the one that
opened the innermost section, and of the others when that section is closed. -/
theorem forall_mem_openOwners_cons {innermost parent : Section}
    {outer : List Section} {keeps : Nat → Prop} (inner : Section) :
    (∀ line ∈ openOwners innermost (parent :: outer), keeps line) ↔
      keeps innermost.span.start.line ∧
        ∀ line ∈ openOwners (parent.addSubsection inner) outer,
          keeps line := by
  rw [openOwners, List.forall_mem_cons, openOwners_addSubsection]

/-- The open sections hold exactly what the lines read have recorded, and were
opened by the lines that are open. -/
structure Records (catalog : Catalog) (source : List (List Char))
    (sections : OpenSections) : Prop where
  owned :
    (openOwned sections.innermost sections.outer).Perm
      (recordedEntries catalog source)
  owners :
    openOwners sections.innermost sections.outer = openLines source

variable {catalog : Catalog} {before : List (List Char)} {line : List Char}
  {sections : OpenSections}

theorem Records.innermost (records : Records catalog before sections) :
    (openOwners sections.innermost sections.outer).head? =
      innermostOpen before := by
  rw [records.owners, innermostOpen]

/-- After a line has recorded its entry, the entries are those of one line more;
the lines that are open are unchanged so far. -/
theorem Records.applyEntry (records : Records catalog before sections)
    (content : hasContent line = true) :
    (openOwned
        (sections.applyEntry
          (entryOfLine? catalog line before.length)).innermost
        sections.outer).Perm
      (recordedEntries catalog (before ++ [line])) ∧
    openOwners
        (sections.applyEntry
          (entryOfLine? catalog line before.length)).innermost
        sections.outer = openLines before := by
  rw [recordedEntries_concat]
  cases recorded : entryOfLine? catalog line before.length with
  | none =>
      rw [recordedAfter_eq_none recorded, Option.toList_none, List.append_nil]
      exact ⟨records.owned, records.owners⟩
  | some entry =>
      rw [recordedAfter_eq_some content recorded, Option.toList_some]
      constructor
      · refine (openOwned_record _ _ entry).trans ?_
        rw [records.innermost]
        exact records.owned.append_right _
      · exact (openOwners_record _ _ entry).trans records.owners

theorem Records.step {current next : Progress}
    (records : Records catalog before current.sections)
    (read : LineRead catalog before.length line current next) :
    Records catalog (before ++ [line]) next.sections := by
  cases read with
  | passed contentNot =>
      constructor
      · rw [recordedEntries_concat, recordedAfter_of_not_hasContent contentNot,
          Option.toList_none, List.append_nil]
        exact records.owned
      · rw [openLines_concat_of_neither
          (opensSection_of_not_hasContent contentNot)
          (closesSection_of_not_hasContent contentNot)]
        exact records.owners
  | opened opens =>
      obtain ⟨owned, owners⟩ :=
        records.applyEntry (hasContent_of_opens opens)
      constructor
      · rw [push, openOwned, Section.opened_ownedFrom, List.append_nil,
          applyEntry_outer]
        exact owned
      · rw [push, openOwners, applyEntry_outer, owners,
          openLines_concat_of_opens opens]
        rfl
  | @closed closes parent outer around =>
      have missing : entryOfLine? catalog line before.length = none :=
        entryOfLine?_eq_none_iff.mpr (not_mem_of_closes closes)
      have owned := records.owned
      have owners := records.owners
      rw [around] at owned owners
      constructor
      · rw [recordedEntries_concat, recordedAfter_eq_none missing,
          Option.toList_none, List.append_nil, openOwned_addSubsection,
          Section.endingAt_ownedFrom]
        exact owned
      · rw [openLines_concat_of_closes closes, ← owners,
          openOwners_addSubsection, openOwners, List.tail_cons]
  | kept content opensNot closesNot =>
      obtain ⟨owned, owners⟩ := records.applyEntry content
      constructor
      · rw [applyEntry_outer]
        exact owned
      · rw [applyEntry_outer, openLines_concat_of_neither opensNot closesNot]
        exact owners

theorem records_of_readLines {source : List (List Char)}
    {progress : Progress}
    (run : readLines catalog .start 0 source = .ok progress) :
    Records catalog source progress.sections :=
  readLines_induction (motive := fun source progress =>
      Records catalog source progress.sections)
    ⟨List.Perm.refl [], rfl⟩
    (fun _ _ _ _ records read => records.step read) source run

end Document

end CompositorConf
