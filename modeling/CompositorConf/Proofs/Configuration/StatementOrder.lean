import CompositorConf.Proofs.Configuration.Decoding
import CompositorConf.Proofs.Document.TreeOrder
import CompositorConf.Catalog.Standard

/-!
# The order of statements

A configuration keeps the statements of a document in the order of the tree, in
which a section comes before the sections inside it.

* `recordedStatements` are the statements of a document in the order of its
  lines;
* `allStatements_increase_iff` says when the order of the tree is that of the
  lines;
* `decode_keeps_statements` is the result for a whole document;
* `bindsText` has a statement below a section that holds one.
-/

namespace CompositorConf

open Text Document

namespace Document

def Entry.statement? : Entry → Option Statement
  | .statement content => some content
  | .variable _ => none
  | .assignment _ => none

/-- The statements that the lines of a text record, in their order. -/
def recordedStatements (catalog : Catalog) (source : List (List Char)) :
    List Statement :=
  (recordedEntries catalog source).filterMap fun item => item.2.statement?

theorem recordedStatements_increase (catalog : Catalog)
    (source : List (List Char)) :
    (recordedStatements catalog source).Pairwise fun first second =>
      first.position.line < second.position.line := by
  apply recordedEntries_filterMap_increase
  intro entry content isStatement
  cases entry <;> cases isStatement
  rfl

end Document

namespace Section

theorem entries_filterMap_statement? (current : Section) :
    current.entries.filterMap Entry.statement? = current.statements := by
  have noAssignment :
      (current.assignments.map Entry.assignment).filterMap Entry.statement? =
        [] := by
    simp [Entry.statement?]
  have noVariable :
      (current.customVariables.map Entry.variable).filterMap
        Entry.statement? = [] := by
    simp [Entry.statement?]
  rw [entries, List.filterMap_append, List.filterMap_append, noAssignment,
    noVariable, List.filterMap_map]
  exact List.filterMap_some

theorem ownedFrom_filterMap_statement? (owner : Option Nat)
    (current : Section) :
    ((current.ownedFrom owner).filterMap fun item => item.2.statement?) =
      current.allStatements :=
  ownedFrom_filterMap entries_filterMap_statement? owner current

end Section

section Trees

variable {catalog : Catalog} {text : List Char} {root : Section}

theorem allStatements_perm (parsed : parse catalog text = .ok root) :
    root.allStatements.Perm (recordedStatements catalog (lines text)) := by
  rw [← Section.ownedFrom_filterMap_statement? none root]
  exact (ownedFrom_of_parse parsed).filterMap _

/-- The order of the tree is that of the lines exactly if no section has a
statement below one of a section inside it. -/
theorem allStatements_increase_iff (parsed : parse catalog text = .ok root) :
    (root.allStatements.Pairwise fun first second =>
        first.position.line < second.position.line) ↔
      ∀ outer ∈ root.preorder, ∀ inner ∈ outer.descendants,
        ∀ first ∈ outer.statements, ∀ second ∈ inner.statements,
          first.position.line < second.position.line :=
  Listing.pairwise_iff Listing.statements parsed
    fun _ _ _ _ increase => increase

end Trees

namespace Configuration

section Statements

variable {catalog : Catalog} {text : List Char} {root : Section}
  {configuration : Configuration}

theorem statements_of_decode
    (decoded : decode catalog root = .ok configuration) :
    configuration.statements = root.allStatements := by
  obtain ⟨_, _, rfl⟩ := decode_eq_ok_iff.mp decoded
  rfl

/-- **Statements are kept in the order of the tree.**  A configuration holds
exactly the statements that the lines of the text record, each once, and they
stand as the tree lists them: those of a section before those of the sections
inside it, and otherwise by lines.  This is the order of the lines exactly if no
section has a statement below one of a section inside it. -/
theorem decode_keeps_statements (parsed : parse catalog text = .ok root)
    (decoded : decode catalog root = .ok configuration) :
    configuration.statements.Perm (recordedStatements catalog (lines text)) ∧
      ((recordedStatements catalog (lines text)).Pairwise
        fun first second => first.position.line < second.position.line) ∧
      (Listing.statements.placed root).map Placed.item =
        configuration.statements ∧
      (Listing.statements.placed root).Pairwise Listing.statements.Precedes ∧
      ((configuration.statements.Pairwise fun first second =>
          first.position.line < second.position.line) ↔
        ∀ outer ∈ root.preorder, ∀ inner ∈ outer.descendants,
          ∀ first ∈ outer.statements, ∀ second ∈ inner.statements,
            first.position.line < second.position.line) := by
  rw [statements_of_decode decoded]
  refine ⟨allStatements_perm parsed, recordedStatements_increase _ _, ?_, ?_,
    ?_⟩
  · exact Listing.placed_map_item Listing.statements root
  · exact Listing.placed_pairwise Listing.statements parsed
  · exact allStatements_increase_iff parsed

def bindsText : List Char :=
  "input \x7b\n  bind = SUPER, A\n\x7d\nbind = SUPER, B\n".toList

theorem decode_bindsText :
    ∃ root configuration, parse .standard bindsText = .ok root ∧
      decode .standard root = .ok configuration ∧
      configuration.statements.map (·.position.line) = [3, 1] := by
  apply exists_decode_of_map (fun _ configuration =>
    configuration.statements.map (·.position.line))
  decide +kernel

/-- The lower statement comes first, and both are there. -/
theorem bindsText_keeps_statements :
    ∃ root configuration, parse .standard bindsText = .ok root ∧
      decode .standard root = .ok configuration ∧
      configuration.statements.map (·.position.line) = [3, 1] ∧
      (configuration.statements.map (·.position.line)).Perm [1, 3] := by
  obtain ⟨root, configuration, parsed, decoded, order⟩ := decode_bindsText
  refine ⟨root, configuration, parsed, decoded, order, ?_⟩
  have recorded :
      (recordedStatements .standard (lines bindsText)).map
        (·.position.line) = [1, 3] := by
    decide +kernel
  rw [← recorded]
  exact (decode_keeps_statements parsed decoded).1.map _

/-- A configuration need not keep statements in the order of the lines. -/
theorem statements_out_of_order :
    ¬ ∀ (catalog : Catalog) (text : List Char) (root : Section)
      (configuration : Configuration),
      parse catalog text = .ok root →
        decode catalog root = .ok configuration →
          configuration.statements.Pairwise fun first second =>
            first.position.line < second.position.line := by
  intro increase
  obtain ⟨root, configuration, parsed, decoded, order⟩ := decode_bindsText
  have increasing := increase _ _ root configuration parsed decoded
  rw [← List.pairwise_map, order] at increasing
  exact absurd increasing (by decide)

end Statements

end Configuration

end CompositorConf
