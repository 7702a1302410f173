import CompositorConf.Proofs.Document.Reading

/-!
# Braces decide how a document is read

Whether a text is a document, and which sections its tree has, depends only on
which of its lines open and which close a section.

* `NeverExceeds` says that no beginning of the lines closes more sections than
  it opens;
* `Follows` ties the open sections to the lines read, and is kept by each line;
* `parse_follows_braces` is the result for a whole text.
-/

namespace CompositorConf

open Text Document

namespace Document

def openingCount (source : List (List Char)) : Nat :=
  source.countP opensSection

def closingCount (source : List (List Char)) : Nat :=
  source.countP closesSection

/-- No beginning of the lines closes more sections than it opens. -/
def NeverExceeds (source : List (List Char)) : Prop :=
  ∀ before, before <+: source → closingCount before ≤ openingCount before

/-- The line with the given number closes a section, and is the first with which
more sections are closed than opened. -/
def FirstExcess (source : List (List Char)) (number : Nat) : Prop :=
  ∃ before line after,
    source = before ++ line :: after ∧ before.length = number ∧
      closesSection line = true ∧ NeverExceeds before ∧
        openingCount (before ++ [line]) < closingCount (before ++ [line])

/-- The greatest number by which the opening lines of a beginning of the lines
outnumber its closing lines. -/
def IsPeak (source : List (List Char)) (depth : Nat) : Prop :=
  (∃ before, before <+: source ∧
      openingCount before = closingCount before + depth) ∧
    ∀ before, before <+: source →
      openingCount before ≤ closingCount before + depth

/-- Number and section name of each line that opens a section. -/
def openings (source : List (List Char)) : List (Nat × String) :=
  (source.zipIdx.filter fun item => opensSection item.1).map
    fun item => (item.2, openedName item.1)

section Counting

variable {before : List (List Char)} {line : List Char}

theorem openingCount_concat_of_opens (opens : opensSection line = true) :
    openingCount (before ++ [line]) = openingCount before + 1 := by
  simp [openingCount, opens]

theorem openingCount_concat_of_not (opensNot : opensSection line = false) :
    openingCount (before ++ [line]) = openingCount before := by
  simp [openingCount, opensNot]

theorem closingCount_concat_of_closes (closes : closesSection line = true) :
    closingCount (before ++ [line]) = closingCount before + 1 := by
  simp [closingCount, closes]

theorem closingCount_concat_of_not (closesNot : closesSection line = false) :
    closingCount (before ++ [line]) = closingCount before := by
  simp [closingCount, closesNot]

theorem openings_concat_of_opens (opens : opensSection line = true) :
    openings (before ++ [line]) =
      openings before ++ [(before.length, openedName line)] := by
  simp [openings, List.zipIdx_append, opens]

theorem openings_concat_of_not (opensNot : opensSection line = false) :
    openings (before ++ [line]) = openings before := by
  simp [openings, List.zipIdx_append, opensNot]

theorem neverExceeds_nil : NeverExceeds [] := by
  intro initial isInitial
  rw [List.prefix_nil.mp isInitial]
  exact Nat.le_refl _

theorem NeverExceeds.concat (never : NeverExceeds before)
    (bound : closingCount (before ++ [line]) ≤ openingCount (before ++ [line])) :
    NeverExceeds (before ++ [line]) := by
  intro initial isInitial
  rcases List.prefix_concat_iff.mp isInitial with equal | shorter
  · rw [equal]
    exact bound
  · exact never initial shorter

theorem isPeak_nil : IsPeak [] 0 := by
  refine ⟨⟨[], List.prefix_rfl, rfl⟩, ?_⟩
  intro initial isInitial
  rw [List.prefix_nil.mp isInitial]
  exact Nat.le_refl _

theorem IsPeak.concat {depth level : Nat} (peak : IsPeak before depth)
    (surplus :
      openingCount (before ++ [line]) = closingCount (before ++ [line]) + level) :
    IsPeak (before ++ [line]) (max depth level) := by
  obtain ⟨⟨highest, isInitial, reached⟩, bound⟩ := peak
  constructor
  · rcases Nat.le_total depth level with below | above
    · refine ⟨before ++ [line], List.prefix_rfl, ?_⟩
      rw [Nat.max_eq_right below]
      exact surplus
    · refine ⟨highest, isInitial.trans (List.prefix_append before [line]), ?_⟩
      rw [Nat.max_eq_left above]
      exact reached
  · intro initial isInitial'
    rcases List.prefix_concat_iff.mp isInitial' with equal | shorter
    · rw [equal, surplus]
      exact Nat.add_le_add_left (Nat.le_max_right depth level) _
    · exact Nat.le_trans (bound initial shorter)
        (Nat.add_le_add_left (Nat.le_max_left depth level) _)

theorem closesSection_of_opens (opens : opensSection line = true) :
    closesSection line = false := by
  cases closes : closesSection line with
  | false => rfl
  | true =>
      rw [opensSection_of_closes closes] at opens
      exact absurd opens (by decide)

theorem opensSection_of_not_hasContent (contentNot : hasContent line = false) :
    opensSection line = false := by
  rw [opensSection, contentNot, Bool.false_and]

theorem closesSection_of_not_hasContent
    (contentNot : hasContent line = false) :
    closesSection line = false := by
  cases closes : closesSection line with
  | false => rfl
  | true =>
      rw [hasContent_of_closes closes] at contentNot
      exact contentNot

end Counting

end Document

namespace Section

/-- The line that opened a section, and the section's name. -/
def heading (current : Section) : Nat × String :=
  (current.span.start.line, current.name)

def headings (current : Section) : List (Nat × String) :=
  current.preorder.map heading

theorem headings_eq (current : Section) :
    current.headings = current.heading :: current.descendants.map heading := by
  rw [headings, preorder_eq, List.map_cons]

@[simp] theorem endingAt_headings (current : Section) (stop : Position) :
    (current.endingAt stop).headings = current.headings := by
  rw [headings_eq, headings_eq, endingAt_descendants]
  rfl

@[simp] theorem record_headings (current : Section) (entry : Entry) :
    (record current entry).headings = current.headings := by
  rw [headings_eq, headings_eq, record_descendants, heading, heading,
    record_span, record_name]

theorem addSubsection_headings (current inner : Section) :
    (current.addSubsection inner).headings =
      current.headings ++ inner.headings := by
  rw [headings_eq, headings_eq current, addSubsection_descendants,
    List.map_append, List.cons_append]
  rfl

end Section

namespace Document.OpenSections

/-- The headings of the open sections and of all sections inside them, as the
tree will list them; the second argument are the outer sections. -/
def openHeadings : Section → List Section → List (Nat × String)
  | innermost, [] => innermost.headings
  | innermost, parent :: outer =>
      openHeadings parent outer ++ innermost.headings

/-- The depth that the tree will have if no further line is read. -/
def openDepth : Section → List Section → Nat
  | innermost, [] => innermost.maxDepth
  | innermost, parent :: outer =>
      max (openDepth parent outer) (outer.length + 1 + innermost.maxDepth)

/-- Close the innermost section, a number of times. -/
def closeTimes? (stop : Position) : Nat → OpenSections → Option OpenSections
  | 0, sections => some sections
  | count + 1, sections =>
      (sections.close? stop).bind (closeTimes? stop count)

section Closing

variable (stop : Position) (inner innermost parent : Section)
  (outer : List Section)

theorem openHeadings_addSubsection :
    openHeadings (parent.addSubsection inner) outer =
      openHeadings parent outer ++ inner.headings := by
  cases outer with
  | nil => exact Section.addSubsection_headings parent inner
  | cons next rest =>
      rw [openHeadings, openHeadings, Section.addSubsection_headings,
        List.append_assoc]

theorem openDepth_addSubsection :
    openDepth (parent.addSubsection inner) outer =
      max (openDepth parent outer) (outer.length + 1 + inner.maxDepth) := by
  cases outer with
  | nil =>
      rw [openDepth, openDepth, Section.addSubsection_maxDepth]
      simp only [List.length_nil, Nat.zero_add, Nat.add_comm 1]
  | cons next rest =>
      rw [openDepth, openDepth, Section.addSubsection_maxDepth]
      simp only [List.length_cons]
      omega

/-- There are at least as many levels as open sections around the innermost. -/
theorem length_le_openDepth : outer.length ≤ openDepth innermost outer := by
  cases outer with
  | nil => exact Nat.zero_le _
  | cons parent rest =>
      rw [openDepth, List.length_cons]
      omega

theorem closeAll_headings :
    (closeAll stop innermost outer).headings = openHeadings innermost outer := by
  induction outer generalizing innermost with
  | nil => rfl
  | cons parent rest inductionHypothesis =>
      rw [closeAll, inductionHypothesis, openHeadings_addSubsection,
        Section.endingAt_headings, openHeadings]

theorem closeAll_maxDepth :
    (closeAll stop innermost outer).maxDepth = openDepth innermost outer := by
  induction outer generalizing innermost with
  | nil => rfl
  | cons parent rest inductionHypothesis =>
      rw [closeAll, inductionHypothesis, openDepth_addSubsection,
        Section.endingAt_maxDepth, openDepth]

/-- Closing as often as there are outer sections never fails. -/
theorem closeTimes?_length :
    closeTimes? stop outer.length ⟨innermost, outer⟩ =
      some ⟨closeAll stop innermost outer, []⟩ := by
  induction outer generalizing innermost with
  | nil => rfl
  | cons parent rest inductionHypothesis =>
      rw [List.length_cons, closeTimes?, close?, Option.bind_some,
        inductionHypothesis, closeAll]

end Closing

theorem openHeadings_applyEntry (sections : OpenSections)
    (entry : Option Entry) :
    openHeadings (sections.applyEntry entry).innermost sections.outer =
      openHeadings sections.innermost sections.outer := by
  cases entry with
  | none => rfl
  | some entry =>
      cases around : sections.outer <;>
        simp [applyEntry, openHeadings]

theorem openDepth_applyEntry (sections : OpenSections)
    (entry : Option Entry) :
    openDepth (sections.applyEntry entry).innermost sections.outer =
      openDepth sections.innermost sections.outer := by
  cases entry with
  | none => rfl
  | some entry =>
      cases around : sections.outer <;>
        simp [applyEntry, openDepth]

end Document.OpenSections

namespace Document

open OpenSections

/-- How the open sections depend on the braces of the lines read. -/
structure Follows (source : List (List Char)) (sections : OpenSections) :
    Prop where
  never : NeverExceeds source
  surplus :
    openingCount source = closingCount source + sections.outer.length
  headings :
    openHeadings sections.innermost sections.outer =
      (0, rootName) :: openings source
  peak : IsPeak source (openDepth sections.innermost sections.outer)

theorem follows_start : Follows [] Progress.start.sections where
  never := neverExceeds_nil
  surplus := rfl
  headings := rfl
  peak := isPeak_nil

/-- A line without a brace leaves everything as it was. -/
theorem Follows.keep {before : List (List Char)} {line : List Char}
    {sections : OpenSections} (follows : Follows before sections)
    (opensNot : opensSection line = false)
    (closesNot : closesSection line = false) :
    Follows (before ++ [line]) sections := by
  have surplus :
      openingCount (before ++ [line]) =
        closingCount (before ++ [line]) + sections.outer.length := by
    rw [openingCount_concat_of_not opensNot,
      closingCount_concat_of_not closesNot, follows.surplus]
  have level :
      sections.outer.length ≤
        openDepth sections.innermost sections.outer :=
    length_le_openDepth sections.innermost sections.outer
  refine ⟨follows.never.concat ?_, surplus, ?_, ?_⟩
  · rw [surplus]
    exact Nat.le_add_right _ _
  · rw [follows.headings, openings_concat_of_not opensNot]
  · rw [← Nat.max_eq_left level]
    exact follows.peak.concat surplus

theorem Follows.applyEntry {source : List (List Char)}
    {sections : OpenSections} (follows : Follows source sections)
    (entry : Option Entry) : Follows source (sections.applyEntry entry) where
  never := follows.never
  surplus := by
    rw [applyEntry_outer]
    exact follows.surplus
  headings := by
    rw [applyEntry_outer, openHeadings_applyEntry]
    exact follows.headings
  peak := by
    rw [applyEntry_outer, openDepth_applyEntry]
    exact follows.peak

theorem Follows.push {before : List (List Char)} {line : List Char}
    {sections : OpenSections} (follows : Follows before sections)
    (opens : opensSection line = true) (column : Nat) :
    Follows (before ++ [line])
      (sections.push
        (.opened (openedName line) ⟨before.length, column⟩)) := by
  have surplus :
      openingCount (before ++ [line]) =
        closingCount (before ++ [line]) + (sections.outer.length + 1) := by
    rw [openingCount_concat_of_opens opens,
      closingCount_concat_of_not (closesSection_of_opens opens),
      follows.surplus, Nat.add_assoc]
  refine ⟨follows.never.concat ?_, surplus, ?_, ?_⟩
  · rw [surplus]
    exact Nat.le_add_right _ _
  · rw [OpenSections.push, openHeadings, follows.headings,
      openings_concat_of_opens opens, List.cons_append]
    rfl
  · rw [OpenSections.push, openDepth, Section.opened_maxDepth, Nat.add_zero]
    exact follows.peak.concat surplus

theorem Follows.close {before : List (List Char)} {line : List Char}
    {innermost parent : Section} {outer : List Section}
    (follows : Follows before ⟨innermost, parent :: outer⟩)
    (closes : closesSection line = true) (stop : Position) :
    Follows (before ++ [line])
      ⟨parent.addSubsection (innermost.endingAt stop), outer⟩ := by
  have opensNot : opensSection line = false := opensSection_of_closes closes
  have surplus :
      openingCount (before ++ [line]) =
        closingCount (before ++ [line]) + outer.length := by
    rw [openingCount_concat_of_not opensNot,
      closingCount_concat_of_closes closes, follows.surplus]
    simp only [List.length_cons]
    omega
  have depth :
      openDepth (parent.addSubsection (innermost.endingAt stop)) outer =
        openDepth innermost (parent :: outer) := by
    rw [openDepth_addSubsection, Section.endingAt_maxDepth, openDepth]
  have level : outer.length ≤ openDepth innermost (parent :: outer) := by
    rw [← depth]
    exact length_le_openDepth _ outer
  refine ⟨follows.never.concat ?_, surplus, ?_, ?_⟩
  · rw [surplus]
    exact Nat.le_add_right _ _
  · rw [openHeadings_addSubsection, Section.endingAt_headings,
      openings_concat_of_not opensNot, ← follows.headings, openHeadings]
  · rw [depth, ← Nat.max_eq_left level]
    exact follows.peak.concat surplus

/-- Every line that is read keeps the open sections in step with the lines. -/
theorem Follows.step {before : List (List Char)} {line : List Char}
    {current next : Progress} (follows : Follows before current.sections)
    (read : LineRead catalog before.length line current next) :
    Follows (before ++ [line]) next.sections := by
  cases read with
  | passed contentNot =>
      exact follows.keep (opensSection_of_not_hasContent contentNot)
        (closesSection_of_not_hasContent contentNot)
  | opened opens =>
      exact (follows.applyEntry _).push opens _
  | @closed closes parent outer around =>
      refine Follows.close ?_ closes _
      rw [← around]
      exact follows
  | kept content opensNot closesNot =>
      exact (follows.applyEntry _).keep opensNot closesNot

theorem follows_of_readLines {catalog : Catalog}
    {source : List (List Char)} {progress : Progress}
    (run : readLines catalog .start 0 source = .ok progress) :
    Follows source progress.sections :=
  readLines_induction (motive := fun source progress =>
      Follows source progress.sections)
    follows_start
    (fun _ _ _ _ follows read => follows.step read) source run

variable {catalog : Catalog} {text : List Char}

/-- Whatever was read, the tree keeps the headings and the depth of the open
sections. -/
theorem finish_headings (progress : Progress) :
    progress.finish.headings =
      openHeadings progress.sections.innermost progress.sections.outer := by
  obtain ⟨stop, finished⟩ := finish_eq_endingAt progress
  rw [finished, Section.endingAt_headings, closeAll_headings]

theorem finish_maxDepth (progress : Progress) :
    progress.finish.maxDepth =
      openDepth progress.sections.innermost progress.sections.outer := by
  obtain ⟨stop, finished⟩ := finish_eq_endingAt progress
  rw [finished, Section.endingAt_maxDepth, closeAll_maxDepth]

theorem neverExceeds_of_parse {root : Section}
    (parsed : parse catalog text = .ok root) : NeverExceeds (lines text) := by
  obtain ⟨progress, run, _⟩ := parse_eq_ok_iff.mp parsed
  exact (follows_of_readLines run).never

theorem firstExcess_of_parse {error : ParseError}
    (failed : parse catalog text = .error error) :
    FirstExcess (lines text) error.line := by
  obtain ⟨before, line, after, progress, split, run, closes, none, rfl⟩ :=
    readLines_eq_error (lines text) (parse_eq_error_iff.mp failed)
  have follows : Follows before progress.sections := follows_of_readLines run
  have balanced : openingCount before = closingCount before := by
    have surplus := follows.surplus
    rw [none] at surplus
    exact surplus
  refine ⟨before, line, after, split, rfl, closes, follows.never, ?_⟩
  rw [openingCount_concat_of_not (opensSection_of_closes closes),
    closingCount_concat_of_closes closes, balanced]
  exact Nat.lt_succ_self _

theorem not_neverExceeds_of_firstExcess {source : List (List Char)}
    {number : Nat} (excess : FirstExcess source number) :
    ¬ NeverExceeds source := by
  obtain ⟨before, line, after, rfl, _, _, _, more⟩ := excess
  intro never
  have bound := never (before ++ [line]) ⟨after, by simp⟩
  exact absurd bound (Nat.not_le_of_lt more)

/-- A text is a document exactly if its lines never close more sections than
they opened. -/
theorem exists_parse_iff :
    (∃ root, parse catalog text = .ok root) ↔ NeverExceeds (lines text) := by
  constructor
  · rintro ⟨root, parsed⟩
    exact neverExceeds_of_parse parsed
  · intro never
    cases outcome : parse catalog text with
    | ok root => exact ⟨root, rfl⟩
    | error error =>
        exact absurd never
          (not_neverExceeds_of_firstExcess (firstExcess_of_parse outcome))

theorem headings_of_parse {root : Section}
    (parsed : parse catalog text = .ok root) :
    root.descendants.map Section.heading = openings (lines text) := by
  obtain ⟨progress, run, rfl⟩ := parse_eq_ok_iff.mp parsed
  have headings := finish_headings progress
  rw [(follows_of_readLines run).headings, Section.headings_eq] at headings
  exact (List.cons.inj headings).2

/-- The sections that are open after the last line can be closed one by one, and
what is left is the root, up to where it ends. -/
theorem closeTimes?_of_readLines {progress : Progress}
    (run : readLines catalog .start 0 (lines text) = .ok progress) :
    ∃ closed stop,
      progress.sections.closeTimes? progress.last
          progress.sections.outer.length = some ⟨closed, []⟩ ∧
        parse catalog text = .ok (closed.endingAt stop) := by
  obtain ⟨stop, finished⟩ := finish_eq_endingAt progress
  refine ⟨_, stop, closeTimes?_length _ _ _, ?_⟩
  exact parse_eq_ok_iff.mpr ⟨progress, run, finished⟩

/-- **Braces decide.**  A text is a document exactly if no beginning of its lines
closes more sections than it opens, and the error names the first line that
does.  The sections still open at the end can always be closed.  The tree of a
document lists the root and then one section for each opening line, in the order
of the lines, and is as deep as the lines ever nest. -/
theorem parse_follows_braces (catalog : Catalog) (text : List Char) :
    ((∃ root, parse catalog text = .ok root) ↔ NeverExceeds (lines text)) ∧
      (∀ error, parse catalog text = .error error →
        FirstExcess (lines text) error.line) ∧
      (∀ progress, readLines catalog .start 0 (lines text) = .ok progress →
        ∃ closed stop,
          progress.sections.closeTimes? progress.last
              progress.sections.outer.length = some ⟨closed, []⟩ ∧
            parse catalog text = .ok (closed.endingAt stop)) ∧
      ∀ root, parse catalog text = .ok root →
        (∃ inner, root.preorder = root :: inner ∧
          inner.map Section.heading = openings (lines text)) ∧
        IsPeak (lines text) root.maxDepth := by
  refine ⟨exists_parse_iff, fun _ => firstExcess_of_parse,
    fun _ => closeTimes?_of_readLines, ?_⟩
  intro root parsed
  refine ⟨⟨root.descendants, Section.preorder_eq root,
    headings_of_parse parsed⟩, ?_⟩
  obtain ⟨progress, run, rfl⟩ := parse_eq_ok_iff.mp parsed
  rw [finish_maxDepth]
  exact (follows_of_readLines run).peak

end Document

end CompositorConf
