import CompositorConf.Proofs.Document.Reading
import CompositorConf.Proofs.Document.Tree

/-!
# An entry inside sections

What an entry is recorded under are the names of the sections that are open before
its line, wherever these sections end later.

* `Section.placedEntries` lists the entries of a tree with the names that lead to
  them, and `OpenSections.placed` does so for sections that are still open;
* opening lines only make the path longer (`readLines_opening`), and closing lines
  change nothing of what was recorded (`readLines_closing`);
* `parse_wrapped` is the result for a text of opening lines, one line with an
  entry, and closing lines.
-/

namespace CompositorConf

open Text Document

namespace Section

/-- The entries of a section and of all sections inside it, in the order of
`located`, each with the names that lead to its section. -/
def placedEntries (path : List String) (current : Section) :
    List (List String × Entry) :=
  (current.located path).flatMap fun place =>
    place.2.entries.map fun entry => (place.1, entry)

section Entries

variable (path : List String) (current inner : Section)

theorem placedEntries_eq :
    current.placedEntries path =
      (current.entries.map fun entry => (path, entry)) ++
        current.subsections.flatMap fun inner =>
          inner.placedEntries (path ++ [inner.name]) := by
  rw [placedEntries, located_eq, List.flatMap_cons, locatedAll_eq_flatMap,
    List.flatMap_assoc]
  rfl

theorem opened_placedEntries (name : String) (start : Position) :
    (opened name start).placedEntries path = [] := rfl

theorem endingAt_placedEntries (stop : Position) :
    (current.endingAt stop).placedEntries path = current.placedEntries path := by
  rw [placedEntries_eq, placedEntries_eq, endingAt_entries,
    endingAt_subsections]

theorem addSubsection_placedEntries :
    (current.addSubsection inner).placedEntries path =
      current.placedEntries path ++ inner.placedEntries (path ++ [inner.name]) := by
  rw [placedEntries_eq, placedEntries_eq path current, addSubsection_entries,
    addSubsection_subsections, List.flatMap_append, List.flatMap_singleton,
    List.append_assoc]

variable {path current} in
theorem record_placedEntries (bare : current.placedEntries path = [])
    (entry : Entry) :
    (record current entry).placedEntries path = [(path, entry)] := by
  rw [placedEntries_eq, List.append_eq_nil_iff, List.map_eq_nil_iff] at bare
  obtain ⟨noEntries, noInner⟩ := bare
  have only : (record current entry).entries = [entry] := by
    have recorded := entries_record current entry
    rw [noEntries, List.nil_append] at recorded
    exact List.perm_singleton.mp recorded
  rw [placedEntries_eq, record_subsections, noInner, only]
  rfl

end Entries

theorem exists_mem_placedEntries {root current : Section} {entry : Entry}
    (member : current ∈ root.preorder) (entryMember : entry ∈ current.entries) :
    ∃ path, (path, entry) ∈ root.placedEntries [] := by
  obtain ⟨path, located⟩ := exists_located_of_mem_preorder member []
  refine ⟨path, ?_⟩
  rw [placedEntries, List.mem_flatMap]
  exact ⟨(path, current), located, List.mem_map_of_mem entryMember⟩

end Section

namespace Document

open OpenSections

def openNames : Section → List Section → List String
  | _, [] => []
  | innermost, parent :: outer => openNames parent outer ++ [innermost.name]

/-- The entries of the open sections and of all sections inside them, each with
the names that lead to its section. -/
def openPlaced : Section → List Section → List (List String × Entry)
  | innermost, [] => innermost.placedEntries []
  | innermost, parent :: outer =>
      openPlaced parent outer ++
        innermost.placedEntries (openNames parent outer ++ [innermost.name])

section Open

variable (innermost parent inner : Section) (outer : List Section)

theorem openPlaced_addSubsection :
    openPlaced (parent.addSubsection inner) outer =
      openPlaced parent outer ++
        inner.placedEntries (openNames parent outer ++ [inner.name]) := by
  cases outer with
  | nil => exact Section.addSubsection_placedEntries [] parent inner
  | cons next rest =>
      rw [openPlaced, openPlaced, openNames,
        Section.addSubsection_placedEntries, Section.addSubsection_name]
      exact (List.append_assoc _ _ _).symm

theorem openPlaced_close (stop : Position) :
    openPlaced (parent.addSubsection (innermost.endingAt stop)) outer =
      openPlaced innermost (parent :: outer) := by
  rw [openPlaced_addSubsection, Section.endingAt_placedEntries, openPlaced]
  rfl

theorem closeAll_placedEntries (stop : Position) :
    (closeAll stop innermost outer).placedEntries [] =
      openPlaced innermost outer := by
  induction outer generalizing innermost with
  | nil => rfl
  | cons parent rest inductionHypothesis =>
      rw [closeAll, inductionHypothesis, openPlaced_close]

variable {innermost outer} in
theorem openPlaced_record (bare : openPlaced innermost outer = [])
    (entry : Entry) :
    openPlaced (record innermost entry) outer =
      [(openNames innermost outer, entry)] := by
  cases outer with
  | nil => exact Section.record_placedEntries bare entry
  | cons parent rest =>
      rw [openPlaced, List.append_eq_nil_iff] at bare
      rw [openPlaced, bare.1, Section.record_name,
        Section.record_placedEntries bare.2]
      rfl

end Open

namespace OpenSections

/-- The names that lead to the innermost section. -/
def path (sections : OpenSections) : List String :=
  openNames sections.innermost sections.outer

/-- What is recorded in the open sections and inside them. -/
def placed (sections : OpenSections) : List (List String × Entry) :=
  openPlaced sections.innermost sections.outer

theorem push_path (sections : OpenSections) (inner : Section) :
    (sections.push inner).path = sections.path ++ [inner.name] := rfl

theorem push_placed (sections : OpenSections) (name : String)
    (start : Position) :
    (sections.push (.opened name start)).placed = sections.placed := by
  rw [placed, push, openPlaced, Section.opened_placedEntries, List.append_nil]
  rfl

end OpenSections

section Runs

variable {catalog : Catalog} {progress : Progress} {number : Nat}
  {line : List Char}

theorem readLine_of_opens (opens : opensSection line = true)
    (noEquals : '=' ∉ line) :
    readLine catalog progress number line =
      .ok ⟨progress.sections.push
          (.opened (openedName line) ⟨number, braceColumn line⟩),
        lineEnd number line⟩ := by
  rw [readLine_of_hasContent number progress (hasContent_of_opens opens),
    entryOfLine?_eq_none_iff.mpr noEquals, braceOf_of_opens number opens]
  rfl

variable (catalog) in
/-- Lines that open sections record nothing, and lead into these sections. -/
theorem readLines_opening {openers : List (List Char)}
    (allOpen : ∀ line ∈ openers, opensSection line = true ∧ '=' ∉ line) :
    ∀ (progress : Progress) (number : Nat),
      ∃ next, readLines catalog progress number openers = .ok next ∧
        next.sections.placed = progress.sections.placed ∧
        next.sections.path = progress.sections.path ++ openers.map openedName ∧
        next.sections.outer.length =
          progress.sections.outer.length + openers.length := by
  induction openers with
  | nil =>
      intro progress number
      exact ⟨progress, rfl, rfl, (List.append_nil _).symm, rfl⟩
  | cons line rest inductionHypothesis =>
      intro progress number
      rw [List.forall_mem_cons] at allOpen
      obtain ⟨⟨opens, noEquals⟩, others⟩ := allOpen
      obtain ⟨next, run, placed, path, depth⟩ := inductionHypothesis others
        ⟨progress.sections.push
            (.opened (openedName line) ⟨number, braceColumn line⟩),
          lineEnd number line⟩ (number + 1)
      refine ⟨next, ?_, ?_, ?_, ?_⟩
      · rw [readLines, readLine_of_opens opens noEquals]
        exact run
      · rw [placed, push_placed]
      · rw [path, push_path, List.append_assoc]
        rfl
      · rw [depth, push, List.length_cons, List.length_cons]
        omega

variable (catalog) in
theorem readLines_closing {closers : List (List Char)}
    (allClose : ∀ line ∈ closers, closesSection line = true) :
    ∀ (progress : Progress) (number : Nat),
      closers.length ≤ progress.sections.outer.length →
        ∃ next, readLines catalog progress number closers = .ok next ∧
          next.sections.placed = progress.sections.placed := by
  induction closers with
  | nil => exact fun progress _ _ => ⟨progress, rfl, rfl⟩
  | cons line rest inductionHypothesis =>
      intro progress number enough
      rw [List.forall_mem_cons] at allClose
      cases around : progress.sections.outer with
      | nil =>
          rw [around] at enough
          exact absurd enough (by simp)
      | cons parent outer =>
          rw [around, List.length_cons, List.length_cons] at enough
          have step : readLine catalog progress number line = _ :=
            readLine_of_closes number progress allClose.1
          rw [around] at step
          have remaining : rest.length ≤ outer.length := by omega
          obtain ⟨next, run, placed⟩ := inductionHypothesis allClose.2
            ⟨⟨parent.addSubsection (progress.sections.innermost.endingAt
                ⟨number, indentation line⟩), outer⟩, lineEnd number line⟩
            (number + 1) remaining
          refine ⟨next, ?_, ?_⟩
          · rw [readLines, step]
            exact run
          · rw [placed, OpenSections.placed, openPlaced_close, ← around]
            rfl

/-- The first entry of a text is placed in the innermost section, also if its line
opens a section of its own. -/
theorem readLine_records {entry : Entry}
    (bare : progress.sections.placed = [])
    (content : hasContent line = true) (closesNot : closesSection line = false)
    (recorded : entryOfLine? catalog line number = some entry) :
    ∃ next, readLine catalog progress number line = .ok next ∧
      next.sections.placed = [(progress.sections.path, entry)] ∧
      progress.sections.outer.length ≤ next.sections.outer.length := by
  have placed : (progress.sections.applyEntry (some entry)).placed =
      [(progress.sections.path, entry)] := openPlaced_record bare entry
  rw [readLine_of_hasContent number progress content, recorded]
  cases opens : opensSection line with
  | true =>
      -- The section that the line opens is bare, and the entry stands around it.
      rw [braceOf_of_opens number opens]
      refine ⟨_, rfl, ?_, ?_⟩
      · rw [push_placed]
        exact placed
      · exact Nat.le_succ _
  | false =>
      rw [braceOf_of_neither number content opens closesNot]
      exact ⟨_, rfl, placed, Nat.le_refl _⟩

end Runs

/-- **An entry stands where it was opened.**  A text whose first lines open
sections, whose next line has an entry and whose other lines close sections again,
though not more than were opened, is a document with that entry only, and the names
of the opened sections lead to it. -/
theorem parse_wrapped {catalog : Catalog} {text line : List Char}
    {openers closers : List (List Char)} {entry : Entry}
    (split : lines text = openers ++ line :: closers)
    (allOpen : ∀ line ∈ openers, opensSection line = true ∧ '=' ∉ line)
    (allClose : ∀ line ∈ closers, closesSection line = true)
    (enough : closers.length ≤ openers.length)
    (content : hasContent line = true) (closesNot : closesSection line = false)
    (recorded : entryOfLine? catalog line openers.length = some entry) :
    ∃ root, parse catalog text = .ok root ∧
      root.placedEntries [] = [(openers.map openedName, entry)] := by
  obtain ⟨inside, openRun, bare, path, depth⟩ :=
    readLines_opening catalog allOpen .start 0
  rw [← Nat.zero_add openers.length] at recorded
  obtain ⟨filled, lineRun, placed, deeper⟩ :=
    readLine_records bare content closesNot recorded
  obtain ⟨last, closeRun, kept⟩ :=
    readLines_closing catalog allClose filled
      (0 + openers.length + 1) (by
        have started : Progress.start.sections.outer.length = 0 := rfl
        omega)
  have run : readLines catalog .start 0 (lines text) = .ok last := by
    rw [split, readLines_append, openRun]
    dsimp only
    rw [readLines, lineRun]
    exact closeRun
  obtain ⟨stop, ends⟩ := finish_eq_endingAt last
  refine ⟨last.finish, parse_eq_ok_iff.mpr ⟨last, run, rfl⟩, ?_⟩
  rw [ends, Section.endingAt_placedEntries, closeAll_placedEntries]
  have whole : last.sections.placed = [(openers.map openedName, entry)] := by
    rw [kept, placed, path]
    rfl
  exact whole

end Document

end CompositorConf
