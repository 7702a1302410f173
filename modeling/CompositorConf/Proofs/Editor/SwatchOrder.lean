import CompositorConf.Catalog.Standard
import CompositorConf.Proofs.Document.TreeOrder
import CompositorConf.Proofs.Editor.Repainting
import CompositorConf.Proofs.Value.Gradient

/-!
# The order of colour swatches

The swatches of a document are the colour literals of its assignments, in the
order of the tree, in which a section comes before the sections inside it.

* `Value.literalSpans` says where the colour literals of a value stand, and
  `literalSpans_pairwise` that they come one after the other;
* `recordedAssignments` are the assignments of a document in the order of its
  lines, and `recordedLiterals` their colour literals;
* `literals_increase_iff` says when the order of the tree is that of the lines;
* `all_follows_tree` is the result for a whole document;
* `bordersText` has a colour below a section that holds one.
-/

namespace CompositorConf

open Text Document

namespace Span

/-- A span ends before another one begins. -/
def EndsBefore (first second : Span) : Prop :=
  first.stop < second.start

/-- Of two spans, one ends before the other one begins. -/
def Apart (first second : Span) : Prop :=
  first.EndsBefore second ∨ second.EndsBefore first

theorem EndsBefore.line_le {first second : Span}
    (endsBefore : first.EndsBefore second) :
    first.stop.line ≤ second.start.line :=
  Position.line_le_of_lt endsBefore

end Span

/-- The spans of the colour literals of a value: of the value itself if it is a
colour, and of its stops if it is a gradient. -/
def Value.literalSpans (value : Value) : List Span :=
  match value.data with
  | .color _ => [value.span]
  | .gradient gradient => gradient.stops.map ColorStop.span
  | _ => []

theorem map_range_ofValue (value : Value) :
    (Swatch.ofValue value).map Swatch.range = value.literalSpans := by
  rw [Swatch.ofValue, Value.literalSpans]
  cases value.data with
  | gradient gradient => exact List.map_map
  | _ => rfl

/-- The literals of a value come one after the other. -/
theorem literalSpans_pairwise (text : List Char) (start : Position) :
    (Value.classify text start).literalSpans.Pairwise Span.EndsBefore := by
  rw [Value.literalSpans]
  cases data : (Value.classify text start).data with
  | color color => exact List.pairwise_singleton _ _
  | gradient gradient =>
      rw [List.pairwise_map]
      exact (stops_pairwise (classify_eq_gradient_iff.mp data)).1
  | _ => exact List.Pairwise.nil

namespace Document

def recordedAssignments (catalog : Catalog) (source : List (List Char)) :
    List Assignment :=
  (recordedEntries catalog source).filterMap fun item => item.2.assignment?

/-- The colour literals of the assignments that the lines of a text record. -/
def recordedLiterals (catalog : Catalog) (source : List (List Char)) :
    List Span :=
  (recordedAssignments catalog source).flatMap (·.value.literalSpans)

theorem recordedAssignments_increase (catalog : Catalog)
    (source : List (List Char)) :
    (recordedAssignments catalog source).Pairwise fun first second =>
      first.position.line < second.position.line := by
  apply recordedEntries_filterMap_increase
  intro entry content isAssignment
  rw [position_of_assignment? isAssignment]

section Texts

variable {catalog : Catalog} {text : List Char} {root : Section}
  {assignment first second : Assignment}

theorem allAssignments_perm (parsed : parse catalog text = .ok root) :
    root.allAssignments.Perm (recordedAssignments catalog (lines text)) := by
  rw [Section.allAssignments, ← Section.ownedFrom_filterMap
    Section.entries_filterMap_assignment? none root]
  exact (ownedFrom_of_parse parsed).filterMap _

/-- The literals of an assignment come one after the other. -/
theorem literalSpans_of_assignment (parsed : parse catalog text = .ok root)
    (member : assignment ∈ root.allAssignments) :
    assignment.value.literalSpans.Pairwise Span.EndsBefore := by
  obtain ⟨_, _, _, _, _, recorded⟩ := exists_line_of_assignment parsed member
  obtain ⟨before, after, rfl, missing⟩ :=
    List.eq_append_cons_of_mem (mem_of_entryOfLine? recorded)
  rw [value_of_entryOfLine? recorded missing]
  exact literalSpans_pairwise _ _

/-- The literals of an assignment begin and end on its line. -/
theorem line_of_literalSpan (parsed : parse catalog text = .ok root)
    (member : assignment ∈ root.allAssignments) {span : Span}
    (isLiteral : span ∈ assignment.value.literalSpans) :
    span.start.line = assignment.position.line ∧
      span.stop.line = assignment.position.line := by
  rw [← map_range_ofValue] at isLiteral
  obtain ⟨swatch, painted, rfl⟩ := List.mem_map.mp isLiteral
  obtain ⟨start, stop, range⟩ := Swatch.range_of_swatch parsed member painted
  rw [range]
  exact ⟨rfl, rfl⟩

/-- The literals of an assignment end before those of another one begin. -/
def LiteralsBefore (first second : Assignment) : Prop :=
  ∀ span ∈ first.value.literalSpans, ∀ other ∈ second.value.literalSpans,
    span.EndsBefore other

theorem literalsBefore_of_lt (parsed : parse catalog text = .ok root)
    (firstMember : first ∈ root.allAssignments)
    (secondMember : second ∈ root.allAssignments)
    (earlier : first.position.line < second.position.line) :
    LiteralsBefore first second := by
  intro span isLiteral other isOther
  have stops := (line_of_literalSpan parsed firstMember isLiteral).2
  have starts := (line_of_literalSpan parsed secondMember isOther).1
  apply Or.inl
  rw [stops, starts]
  exact earlier

/-- The order of the literals is that of the lines, where there are any. -/
theorem literalsBefore_iff (parsed : parse catalog text = .ok root)
    (firstMember : first ∈ root.allAssignments)
    (secondMember : second ∈ root.allAssignments)
    (apart : first.position.line ≠ second.position.line) :
    LiteralsBefore first second ↔
      (first.value.literalSpans ≠ [] → second.value.literalSpans ≠ [] →
        first.position.line < second.position.line) := by
  constructor
  · intro before someFirst someSecond
    obtain ⟨span, isLiteral⟩ := List.exists_mem_of_ne_nil _ someFirst
    obtain ⟨other, isOther⟩ := List.exists_mem_of_ne_nil _ someSecond
    have bound := (before span isLiteral other isOther).line_le
    rw [(line_of_literalSpan parsed firstMember isLiteral).2,
      (line_of_literalSpan parsed secondMember isOther).1] at bound
    exact Nat.lt_of_le_of_ne bound apart
  · intro increase span isLiteral other isOther
    have earlier : first.position.line < second.position.line :=
      increase (List.ne_nil_of_mem isLiteral) (List.ne_nil_of_mem isOther)
    exact literalsBefore_of_lt parsed firstMember secondMember earlier span
      isLiteral other isOther

theorem recordedLiterals_pairwise (parsed : parse catalog text = .ok root) :
    (recordedLiterals catalog (lines text)).Pairwise Span.EndsBefore := by
  have inTree {assignment : Assignment}
      (member : assignment ∈ recordedAssignments catalog (lines text)) :
      assignment ∈ root.allAssignments :=
    (allAssignments_perm parsed).mem_iff.mpr member
  rw [recordedLiterals, List.pairwise_flatMap]
  constructor
  · intro assignment member
    exact literalSpans_of_assignment parsed (inTree member)
  · apply (recordedAssignments_increase catalog (lines text)).imp_of_mem
    intro first second firstMember secondMember earlier
    exact literalsBefore_of_lt parsed (inTree firstMember)
      (inTree secondMember) earlier

/-- The order of the tree is that of the lines exactly if no section has a colour
below one of a section inside it. -/
theorem literals_increase_iff (parsed : parse catalog text = .ok root) :
    (root.allAssignments.flatMap (·.value.literalSpans)).Pairwise
        Span.EndsBefore ↔
      ∀ outer ∈ root.preorder, ∀ inner ∈ outer.descendants,
        ∀ first ∈ outer.assignments, ∀ second ∈ inner.assignments,
          first.value.literalSpans ≠ [] → second.value.literalSpans ≠ [] →
            first.position.line < second.position.line := by
  have apart := (Listing.pairwise_iff Listing.assignments parsed
    fun _ _ _ _ earlier => Nat.ne_of_lt earlier).mp (assignments_apart parsed)
  have ordered := Listing.pairwise_iff Listing.assignments parsed
    fun _ firstMember _ secondMember =>
      literalsBefore_of_lt parsed firstMember secondMember
  have within : ∀ assignment ∈ root.allAssignments,
      assignment.value.literalSpans.Pairwise Span.EndsBefore :=
    fun _ member => literalSpans_of_assignment parsed member
  rw [List.pairwise_flatMap, and_iff_right within]
  refine ordered.trans ?_
  refine forall₂_congr fun outer outerMember => ?_
  refine forall₂_congr fun inner inside => ?_
  refine forall₂_congr fun first firstMember => ?_
  refine forall₂_congr fun second secondMember => ?_
  have innerMember : inner ∈ root.preorder :=
    Section.mem_preorder_of_mem_descendants
      (Section.mem_descendants_of_mem_preorder outerMember inside)
  exact literalsBefore_iff parsed
    (List.mem_flatMap.mpr ⟨outer, outerMember, firstMember⟩)
    (List.mem_flatMap.mpr ⟨inner, innerMember, secondMember⟩)
    (apart outer outerMember inner inside first firstMember second
      secondMember)

end Texts

end Document

namespace Swatch

section Documents

variable {catalog : Catalog} {text : List Char} {root : Section}

theorem map_range_all (root : Section) :
    (all root).map Swatch.range =
      root.allAssignments.flatMap (·.value.literalSpans) := by
  rw [all, List.map_flatMap]
  simp only [map_range_ofValue]

/-- **Swatches come in the order of the tree.**  The ranges of the swatches are
exactly the spans of the colours and the stops of gradients among the assignments
of the text, each once, and they stand apart from each other.  They are listed as
the tree lists the assignments: those of a section before those of the sections
inside it, and otherwise by lines.  So they increase exactly if no section has a
colour below one of a section inside it. -/
theorem all_follows_tree (parsed : parse catalog text = .ok root) :
    ((all root).map Swatch.range).Perm
        (recordedLiterals catalog (lines text)) ∧
      (recordedLiterals catalog (lines text)).Pairwise Span.EndsBefore ∧
      ((all root).map Swatch.range).Pairwise Span.Apart ∧
      (all root).map Swatch.range =
        (Listing.assignments.placed root).flatMap
          (·.item.value.literalSpans) ∧
      (Listing.assignments.placed root).Pairwise
        Listing.assignments.Precedes ∧
      (((all root).map Swatch.range).Pairwise Span.EndsBefore ↔
        ∀ outer ∈ root.preorder, ∀ inner ∈ outer.descendants,
          ∀ first ∈ outer.assignments, ∀ second ∈ inner.assignments,
            first.value.literalSpans ≠ [] → second.value.literalSpans ≠ [] →
              first.position.line < second.position.line) := by
  have increase := recordedLiterals_pairwise parsed
  have listed : (Listing.assignments.placed root).map Placed.item =
      root.allAssignments :=
    Listing.placed_map_item Listing.assignments root
  have perm : ((all root).map Swatch.range).Perm
      (recordedLiterals catalog (lines text)) := by
    rw [map_range_all]
    exact (allAssignments_perm parsed).flatMap_right _
  refine ⟨perm, increase, ?_, ?_,
    Listing.placed_pairwise Listing.assignments parsed, ?_⟩
  · have apart := increase.imp fun {first second} before =>
      (Or.inl before : first.Apart second)
    exact perm.symm.pairwise apart Or.symm
  · rw [map_range_all, ← listed, List.flatMap_map]
  · rw [map_range_all]
    exact literals_increase_iff parsed

def bordersText : List Char :=
  ("general \x7b\n  col.active_border = rgb(ff0000)\n\x7d\n" ++
    "general:col.inactive_border = rgb(00ff00)\n").toList

theorem all_bordersText :
    ∃ root, parse .standard bordersText = .ok root ∧
      (all root).map Swatch.range =
        [.ofColumns 3 30 41, .ofColumns 1 22 33] := by
  have evaluated : (parse .standard bordersText).toOption.map
        (fun root => (all root).map Swatch.range) =
      some [.ofColumns 3 30 41, .ofColumns 1 22 33] := by
    decide +kernel
  exact exists_parse_of_map evaluated

/-- The lower colour comes first, and both are there. -/
theorem bordersText_follows_tree :
    ∃ root, parse .standard bordersText = .ok root ∧
      (all root).map Swatch.range =
        [.ofColumns 3 30 41, .ofColumns 1 22 33] ∧
      ((all root).map Swatch.range).Perm
        [.ofColumns 1 22 33, .ofColumns 3 30 41] := by
  obtain ⟨root, parsed, order⟩ := all_bordersText
  refine ⟨root, parsed, order, ?_⟩
  have recorded : recordedLiterals .standard (lines bordersText) =
      [.ofColumns 1 22 33, .ofColumns 3 30 41] := by
    decide +kernel
  rw [← recorded]
  exact (all_follows_tree parsed).1

/-- Swatches need not come in the order of the lines. -/
theorem swatches_out_of_order :
    ¬ ∀ (catalog : Catalog) (text : List Char) (root : Section),
      parse catalog text = .ok root →
        ((all root).map Swatch.range).Pairwise Span.EndsBefore := by
  intro increase
  obtain ⟨root, parsed, order⟩ := all_bordersText
  have increasing := increase _ _ root parsed
  rw [order, List.pairwise_pair] at increasing
  have lineBound := increasing.line_le
  exact absurd lineBound (by decide)

end Documents

end Swatch

end CompositorConf
