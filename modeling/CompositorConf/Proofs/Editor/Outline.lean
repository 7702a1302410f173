import CompositorConf.Editor.Symbol
import CompositorConf.Proofs.Document.Places

namespace CompositorConf

open Text Document

namespace DocumentSymbol

/-- At every depth, the ranges of the children of a symbol lie inside its
own. -/
inductive Nested : DocumentSymbol → Prop
  | leaf {name detail : String} {kind : SymbolKind} {position : Position} :
      Nested (.leaf name detail kind position)
  | branch {name : String} {range : Span} {children : List DocumentSymbol} :
      (∀ child ∈ children, range.encloses child.range) →
      (∀ child ∈ children, Nested child) →
        Nested (.branch name range children)

def ofSection (inner : Section) : DocumentSymbol :=
  .branch inner.name inner.span (outline inner)

theorem branches_eq_map (sections : List Section) :
    branches sections = sections.map ofSection := by
  induction sections with
  | nil => rfl
  | cons first rest inductionHypothesis =>
      rw [branches, inductionHypothesis, List.map_cons]
      rfl

theorem outline_eq (current : Section) :
    outline current =
      current.assignments.map ofAssignment ++
        current.customVariables.map ofVariable ++
          current.subsections.map ofSection := by
  rw [← branches_eq_map]
  cases current
  rfl

/-- A symbol of an outline stands for an entry of the section, at its position,
or for a section directly inside it. -/
theorem mem_outline {current : Section} {symbol : DocumentSymbol}
    (member : symbol ∈ outline current) :
    (∃ entry ∈ current.entries, symbol.range = .collapsed entry.position ∧
        symbol.Nested) ∨
      ∃ inner ∈ current.subsections, symbol = ofSection inner := by
  rw [outline_eq, List.mem_append, List.mem_append] at member
  rcases member with (isAssignment | isVariable) | isSection
  · obtain ⟨content, contentMember, rfl⟩ := List.mem_map.mp isAssignment
    left
    exact ⟨.assignment content, Section.assignment_mem_entries contentMember,
      rfl, Nested.leaf⟩
  · obtain ⟨content, contentMember, rfl⟩ := List.mem_map.mp isVariable
    left
    exact ⟨.variable content, Section.variable_mem_entries contentMember,
      rfl, Nested.leaf⟩
  · obtain ⟨inner, innerMember, rfl⟩ := List.mem_map.mp isSection
    exact Or.inr ⟨inner, innerMember, rfl⟩

/-- What a section holds is shown inside its span. -/
theorem encloses_range_of_mem_outline {current : Section}
    (arranged : current.Arranged)
    (holds : ∀ entry ∈ current.entries,
      current.contains entry.position = true) :
    ∀ symbol ∈ outline current, current.span.encloses symbol.range := by
  intro symbol member
  rcases mem_outline member with
    ⟨entry, entryMember, range, _⟩ | ⟨inner, innerMember, same⟩
  · rw [range]
    exact Span.contains_iff.mp (holds entry entryMember)
  · rw [same]
    exact arranged.inside inner innerMember

theorem nested_of_mem_outline (current : Section) :
    (∀ inner ∈ current.descendants, inner.Arranged ∧
      ∀ entry ∈ inner.entries, inner.contains entry.position = true) →
      ∀ symbol ∈ outline current, symbol.Nested := by
  induction current using Section.induct with
  | step current inductionHypothesis =>
      intro places symbol member
      rcases mem_outline member with
        ⟨_, _, _, nested⟩ | ⟨inner, child, same⟩
      · exact nested
      · have placesInside : ∀ below ∈ inner.preorder, below.Arranged ∧
            ∀ entry ∈ below.entries,
              below.contains entry.position = true := by
          intro below belowMember
          exact places below
            (Section.mem_descendants_of_child child belowMember)
        obtain ⟨arranged, holds⟩ :=
          placesInside inner inner.self_mem_preorder
        rw [same]
        apply Nested.branch
        · exact encloses_range_of_mem_outline arranged holds
        · apply inductionHypothesis inner child
          intro below belowMember
          exact placesInside below
            (Section.mem_preorder_of_mem_descendants belowMember)

end DocumentSymbol

namespace Document

variable {catalog : Catalog} {text : List Char} {root : Section}

/-- Every section inside the root contains the positions of its entries. -/
theorem contains_position_of_parse (parsed : parse catalog text = .ok root) :
    ∀ current ∈ root.descendants, ∀ entry ∈ current.entries,
      current.contains entry.position = true := by
  intro current member entry entryMember
  have inKey : (keySpan text entry).contains entry.position = true :=
    keySpan_contains_position parsed
      (Section.mem_preorder_of_mem_descendants member) entryMember
  exact contains_of_key parsed member entryMember inKey

/-- **Laminar sections.**  Every section but the root has a width, lies inside
the section around it, and ends before the next one beside it begins; its
entries stand in its span.  So the chain at a position is the root followed by
exactly the sections that contain the position, each directly inside the one
before it, and in the outline every symbol lies inside the one above it. -/
theorem parse_laminar (parsed : parse catalog text = .ok root) :
    (∀ current ∈ root.descendants,
      current.span.start < current.span.stop ∧
        ∀ entry ∈ current.entries,
          current.contains entry.position = true) ∧
    (∀ outer ∈ root.preorder,
      (∀ inner ∈ outer.subsections, outer.span.encloses inner.span) ∧
        outer.subsections.Pairwise fun earlier later =>
          earlier.span.stop < later.span.start) ∧
    (∀ position,
      root.chainAt position =
          root :: root.descendants.filter (·.contains position) ∧
        (root.chainAt position).IsChain fun outer inner =>
          inner ∈ outer.subsections) ∧
    ∀ symbol ∈ DocumentSymbol.outline root, symbol.Nested := by
  have contained := contains_position_of_parse parsed
  refine ⟨?_, ?_, ?_, ?_⟩
  · intro current member
    exact ⟨proper_of_parse parsed member, contained current member⟩
  · intro outer member
    have arranged := arranged_of_parse parsed member
    exact ⟨arranged.inside, arranged.apart⟩
  · intro position
    exact ⟨Section.chainAt_eq_filter root position (laminar_of_parse parsed),
      Section.chainAt_isChain root position⟩
  · apply DocumentSymbol.nested_of_mem_outline root
    intro inner member
    have arranged : inner.Arranged :=
      arranged_of_parse parsed (Section.mem_preorder_of_mem_descendants member)
    exact ⟨arranged, contained inner member⟩

/-- The sections around a place in the sample. -/
theorem sample_laminar :
    ∃ root, parse sampleCatalog sampleText = .ok root ∧
      (root.chainAt ⟨4, 6⟩).map (·.name) = ["General", "a = b", "inner"] ∧
      root.chainAt ⟨4, 6⟩ =
        root :: root.descendants.filter (·.contains ⟨4, 6⟩) := by
  have evaluated :
      (parse sampleCatalog sampleText).toOption.map
          (fun root => (root.chainAt ⟨4, 6⟩).map (·.name)) =
        some ["General", "a = b", "inner"] := by
    decide +kernel
  obtain ⟨root, parsed, names⟩ := exists_parse_of_map evaluated
  exact ⟨root, parsed, names, ((parse_laminar parsed).2.2.1 ⟨4, 6⟩).1⟩

end Document

end CompositorConf
