import CompositorConf.Document.Parser

/-!
# Section trees

Equations for the trees that reading builds: what opening, ending, nesting and
recording do to the fields of a section, and to the lists read off a tree.

* `Section.induct` proves a property of every section from the sections
  directly inside it;
* `Section.entries` collects what stands directly in a section;
* `mem_descendants_iff` and `mem_located_iff` describe a tree by the
  sections directly inside its root.
-/

namespace CompositorConf

open Document

namespace Document.Entry

/-- Where the line of an entry begins. -/
def position : Entry → Position
  | .variable content => content.position
  | .statement content => content.position
  | .assignment content => content.position

end Document.Entry

namespace Section

/-- The entries of the section itself, one list after the other. -/
def entries (current : Section) : List Entry :=
  current.assignments.map .assignment ++
    current.customVariables.map .variable ++
      current.statements.map .statement

theorem assignment_mem_entries {current : Section} {content : Assignment}
    (member : content ∈ current.assignments) :
    Entry.assignment content ∈ current.entries := by
  apply List.mem_append_left
  apply List.mem_append_left
  exact List.mem_map_of_mem member

theorem assignment_mem_entries_iff {current : Section}
    {content : Assignment} :
    Entry.assignment content ∈ current.entries ↔
      content ∈ current.assignments := by
  simp [entries]

theorem variable_mem_entries {current : Section} {content : Assignment}
    (member : content ∈ current.customVariables) :
    Entry.variable content ∈ current.entries := by
  apply List.mem_append_left
  apply List.mem_append_right
  exact List.mem_map_of_mem member

theorem statement_mem_entries {current : Section} {content : Statement}
    (member : content ∈ current.statements) :
    Entry.statement content ∈ current.entries := by
  apply List.mem_append_right
  exact List.mem_map_of_mem member

theorem statement_mem_entries_iff {current : Section} {content : Statement} :
    Entry.statement content ∈ current.entries ↔ content ∈ current.statements := by
  simp [entries]

/-- The sections inside a section, at any depth. -/
def descendants (current : Section) : List Section :=
  preorderAll current.subsections

mutual

/-- A property holds of every section if it holds of a section whenever it holds
of the sections directly inside it. -/
theorem induct {motive : Section → Prop}
    (step : ∀ current,
      (∀ inner ∈ current.subsections, motive inner) → motive current) :
    ∀ current, motive current
  | ⟨_, _, _, _, _, subsections⟩ => step _ (inductAll step subsections)

theorem inductAll {motive : Section → Prop}
    (step : ∀ current,
      (∀ inner ∈ current.subsections, motive inner) → motive current) :
    ∀ sections : List Section, ∀ inner ∈ sections, motive inner
  | [], _, member => absurd member List.not_mem_nil
  | first :: rest, inner, member => by
      rcases List.mem_cons.mp member with equal | restMember
      · rw [equal]
        exact induct step first
      · exact inductAll step rest inner restMember

end

section Fields

variable (current inner : Section) (name : String) (start stop : Position)

@[simp] theorem opened_name : (opened name start).name = name := rfl

@[simp] theorem opened_span : (opened name start).span = ⟨start, start⟩ := rfl

@[simp] theorem opened_subsections :
    (opened name start).subsections = [] := rfl

@[simp] theorem opened_entries : (opened name start).entries = [] := rfl

@[simp] theorem endingAt_name :
    (current.endingAt stop).name = current.name := rfl

@[simp] theorem endingAt_span :
    (current.endingAt stop).span = ⟨current.span.start, stop⟩ := rfl

@[simp] theorem endingAt_subsections :
    (current.endingAt stop).subsections = current.subsections := rfl

@[simp] theorem endingAt_entries :
    (current.endingAt stop).entries = current.entries := rfl

@[simp] theorem addSubsection_name :
    (current.addSubsection inner).name = current.name := rfl

@[simp] theorem addSubsection_span :
    (current.addSubsection inner).span = current.span := rfl

@[simp] theorem addSubsection_subsections :
    (current.addSubsection inner).subsections =
      current.subsections ++ [inner] := rfl

theorem forall_mem_addSubsection {holds : Section → Prop} :
    (∀ below ∈ (current.addSubsection inner).subsections, holds below) ↔
      (∀ below ∈ current.subsections, holds below) ∧ holds inner := by
  rw [addSubsection_subsections, List.forall_mem_append,
    List.forall_mem_singleton]

@[simp] theorem addSubsection_entries :
    (current.addSubsection inner).entries = current.entries := rfl

@[simp] theorem record_name (entry : Entry) :
    (record current entry).name = current.name := by
  cases entry <;> rfl

@[simp] theorem record_span (entry : Entry) :
    (record current entry).span = current.span := by
  cases entry <;> rfl

@[simp] theorem record_subsections (entry : Entry) :
    (record current entry).subsections = current.subsections := by
  cases entry <;> rfl

end Fields

private theorem perm_move_to_end {Item : Type} (item : Item)
    (front back : List Item) :
    (front ++ [item] ++ back).Perm (front ++ back ++ [item]) := by
  rw [List.append_assoc, List.append_assoc]
  exact List.perm_append_comm.append_left front

/-- Recording adds one entry and keeps all others. -/
theorem entries_record (current : Section) (entry : Entry) :
    (record current entry).entries.Perm (current.entries ++ [entry]) := by
  match entry with
  | .variable content =>
      simpa [entries, record] using
        perm_move_to_end (Entry.variable content)
          (current.assignments.map Entry.assignment ++
            current.customVariables.map Entry.variable)
          (current.statements.map Entry.statement)
  | .statement content =>
      simp [entries, record]
  | .assignment content =>
      simpa [entries, record] using
        perm_move_to_end (Entry.assignment content)
          (current.assignments.map Entry.assignment)
          (current.customVariables.map Entry.variable ++
            current.statements.map Entry.statement)

theorem mem_entries_record {current : Section} {entry recorded : Entry} :
    entry ∈ (record current recorded).entries ↔
      entry ∈ current.entries ∨ entry = recorded := by
  rw [(entries_record current recorded).mem_iff, List.mem_append,
    List.mem_singleton]

theorem preorder_eq (current : Section) :
    current.preorder = current :: current.descendants := by
  cases current
  rfl

theorem mem_preorder_iff {current inner : Section} :
    inner ∈ current.preorder ↔
      inner = current ∨ inner ∈ current.descendants := by
  rw [preorder_eq, List.mem_cons]

theorem self_mem_preorder (current : Section) :
    current ∈ current.preorder :=
  mem_preorder_iff.mpr (Or.inl rfl)

theorem mem_preorder_of_mem_descendants {current inner : Section}
    (member : inner ∈ current.descendants) : inner ∈ current.preorder :=
  mem_preorder_iff.mpr (Or.inr member)

theorem preorderAll_eq_flatMap (sections : List Section) :
    preorderAll sections = sections.flatMap preorder := by
  induction sections with
  | nil => rfl
  | cons first rest inductionHypothesis =>
      rw [preorderAll, inductionHypothesis, List.flatMap_cons]

theorem allStatements_eq (current : Section) :
    current.allStatements =
      current.statements ++ current.subsections.flatMap allStatements := by
  rw [allStatements, preorder_eq, List.flatMap_cons, descendants,
    preorderAll_eq_flatMap, List.flatMap_assoc]
  rfl

/-- The sections inside a section are those directly inside it with all inside
them. -/
theorem mem_descendants_iff {current inner : Section} :
    inner ∈ current.descendants ↔
      ∃ child ∈ current.subsections, inner ∈ child.preorder := by
  rw [descendants, preorderAll_eq_flatMap, List.mem_flatMap]

theorem mem_descendants_of_child {current child inner : Section}
    (childMember : child ∈ current.subsections)
    (member : inner ∈ child.preorder) : inner ∈ current.descendants :=
  mem_descendants_iff.mpr ⟨child, childMember, member⟩

/-- Every section inside another lies directly inside some section of the
tree. -/
theorem exists_parent_of_mem_descendants (current : Section) :
    ∀ inner ∈ current.descendants,
      ∃ outer ∈ current.preorder, inner ∈ outer.subsections := by
  induction current using induct with
  | step current inductionHypothesis =>
      intro inner member
      obtain ⟨child, childMember, inside⟩ := mem_descendants_iff.mp member
      rcases mem_preorder_iff.mp inside with same | below
      · rw [same]
        exact ⟨current, self_mem_preorder current, childMember⟩
      · obtain ⟨outer, outerMember, parent⟩ :=
          inductionHypothesis child childMember inner below
        have inTree : outer ∈ current.descendants :=
          mem_descendants_of_child childMember outerMember
        exact ⟨outer, mem_preorder_of_mem_descendants inTree, parent⟩

theorem child_preorder_sublist {current child : Section}
    (member : child ∈ current.subsections) :
    child.preorder.Sublist current.descendants := by
  obtain ⟨before, after, split⟩ := List.append_of_mem member
  rw [descendants, preorderAll_eq_flatMap, split, List.flatMap_append,
    List.flatMap_cons]
  exact (List.sublist_append_left _ _).trans (List.sublist_append_right _ _)

/-- What a tree lists of a section inside it stands in the same order in the list
of the whole tree. -/
theorem preorder_sublist (current : Section) :
    ∀ inner ∈ current.preorder, inner.preorder.Sublist current.preorder := by
  induction current using induct with
  | step current inductionHypothesis =>
      intro inner member
      rcases mem_preorder_iff.mp member with same | below
      · simp [same]
      · obtain ⟨child, childMember, inside⟩ := mem_descendants_iff.mp below
        have deeper : inner.preorder.Sublist child.preorder :=
          inductionHypothesis child childMember inner inside
        have around : child.preorder.Sublist current.descendants :=
          child_preorder_sublist childMember
        rw [preorder_eq current]
        exact (deeper.trans around).trans (List.sublist_cons_self _ _)

theorem preorder_length_lt {current inner : Section}
    (member : inner ∈ current.descendants) :
    inner.preorder.length < current.preorder.length := by
  obtain ⟨child, childMember, inside⟩ := mem_descendants_iff.mp member
  have deeper : inner.preorder.length ≤ child.preorder.length :=
    (preorder_sublist child inner inside).length_le
  have around : child.preorder.length ≤ current.descendants.length :=
    (child_preorder_sublist childMember).length_le
  rw [preorder_eq current, List.length_cons]
  omega

/-- Of two sections at most one lies inside the other. -/
theorem not_mem_descendants_of_mem {current inner : Section}
    (member : inner ∈ current.descendants) :
    current ∉ inner.descendants := by
  intro back
  have forth := preorder_length_lt member
  have again := preorder_length_lt back
  omega

theorem not_mem_descendants_self (current : Section) :
    current ∉ current.descendants :=
  fun member => not_mem_descendants_of_mem member member

theorem mem_descendants_of_mem_preorder {root outer inner : Section}
    (outerMember : outer ∈ root.preorder)
    (member : inner ∈ outer.descendants) : inner ∈ root.descendants := by
  have sublist := preorder_sublist root outer outerMember
  have isFound : inner ∈ root.preorder :=
    sublist.subset (mem_preorder_of_mem_descendants member)
  rcases mem_preorder_iff.mp isFound with same | below
  · have shorter := preorder_length_lt member
    have longer := sublist.length_le
    rw [same] at shorter
    omega
  · exact below

@[simp] theorem opened_descendants (name : String) (start : Position) :
    (opened name start).descendants = [] := rfl

@[simp] theorem endingAt_descendants (current : Section) (stop : Position) :
    (current.endingAt stop).descendants = current.descendants := rfl

@[simp] theorem record_descendants (current : Section) (entry : Entry) :
    (record current entry).descendants = current.descendants := by
  cases entry <;> rfl

@[simp] theorem addSubsection_descendants (current inner : Section) :
    (current.addSubsection inner).descendants =
      current.descendants ++ inner.preorder := by
  simp [descendants, preorderAll_eq_flatMap]

theorem maxDepth_eq (current : Section) :
    current.maxDepth = maxDepthAll current.subsections := by
  cases current
  rfl

theorem maxDepthAll_append (first second : List Section) :
    maxDepthAll (first ++ second) =
      max (maxDepthAll first) (maxDepthAll second) := by
  induction first with
  | nil => simp [maxDepthAll]
  | cons head rest inductionHypothesis =>
      rw [List.cons_append, maxDepthAll, maxDepthAll, inductionHypothesis,
        Nat.max_assoc]

@[simp] theorem opened_maxDepth (name : String) (start : Position) :
    (opened name start).maxDepth = 0 := rfl

@[simp] theorem endingAt_maxDepth (current : Section) (stop : Position) :
    (current.endingAt stop).maxDepth = current.maxDepth := by
  rw [maxDepth_eq, maxDepth_eq, endingAt_subsections]

@[simp] theorem record_maxDepth (current : Section) (entry : Entry) :
    (record current entry).maxDepth = current.maxDepth := by
  rw [maxDepth_eq, maxDepth_eq, record_subsections]

/-- A section one level further in makes a tree one deeper than itself. -/
theorem addSubsection_maxDepth (current inner : Section) :
    (current.addSubsection inner).maxDepth =
      max current.maxDepth (inner.maxDepth + 1) := by
  rw [maxDepth_eq, maxDepth_eq current, addSubsection_subsections,
    maxDepthAll_append]
  simp [maxDepthAll]

theorem located_eq (path : List String) (current : Section) :
    current.located path =
      (path, current) :: locatedAll path current.subsections := by
  cases current
  rfl

theorem locatedAll_eq_flatMap (path : List String) (sections : List Section) :
    locatedAll path sections =
      sections.flatMap fun inner => inner.located (path ++ [inner.name]) := by
  induction sections with
  | nil => rfl
  | cons first rest inductionHypothesis =>
      rw [locatedAll, inductionHypothesis, List.flatMap_cons]

theorem mem_locatedAll_iff {path : List String} {sections : List Section}
    {item : List String × Section} :
    item ∈ locatedAll path sections ↔
      ∃ inner ∈ sections, item ∈ inner.located (path ++ [inner.name]) := by
  rw [locatedAll_eq_flatMap, List.mem_flatMap]

/-- A located section is the section itself, or lies inside one of those
directly inside it. -/
theorem mem_located_iff {path : List String} {current : Section}
    {item : List String × Section} :
    item ∈ current.located path ↔
      item = (path, current) ∨
        ∃ inner ∈ current.subsections,
          item ∈ inner.located (path ++ [inner.name]) := by
  rw [located_eq, List.mem_cons, mem_locatedAll_iff]

/-- Every located section is one of the pre-order. -/
theorem mem_preorder_of_mem_located (current : Section) :
    ∀ {path names : List String} {found : Section},
      (names, found) ∈ current.located path → found ∈ current.preorder := by
  induction current using induct with
  | step current inductionHypothesis =>
      intro path names found member
      rcases mem_located_iff.mp member with equal | ⟨inner, child, innerMember⟩
      · cases equal
        exact self_mem_preorder current
      · apply mem_preorder_of_mem_descendants
        exact mem_descendants_of_child child
          (inductionHypothesis inner child innerMember)

/-- The located sections of a tree are those of its pre-order. -/
theorem located_map_snd (current : Section) :
    ∀ path, (current.located path).map Prod.snd = current.preorder := by
  induction current using induct with
  | step current inductionHypothesis =>
      intro path
      have below : current.subsections.map
          (fun inner => (inner.located (path ++ [inner.name])).map Prod.snd) =
            current.subsections.map preorder :=
        List.map_congr_left fun inner member => inductionHypothesis inner member _
      rw [located_eq, preorder_eq, List.map_cons, locatedAll_eq_flatMap,
        List.map_flatMap, descendants, preorderAll_eq_flatMap, List.flatMap_def,
        below, List.flatMap_def]

theorem exists_located_of_mem_preorder {current inner : Section}
    (member : inner ∈ current.preorder) (base : List String) :
    ∃ path, (path, inner) ∈ current.located base := by
  rw [← located_map_snd current base] at member
  obtain ⟨⟨path, found⟩, located, same⟩ := List.mem_map.mp member
  have equality : found = inner := same
  rw [equality] at located
  exact ⟨path, located⟩

theorem chainAt_eq (position : Position) (current : Section) :
    current.chainAt position =
      current :: chainAtFirst position current.subsections := by
  cases current
  rfl

end Section

end CompositorConf
