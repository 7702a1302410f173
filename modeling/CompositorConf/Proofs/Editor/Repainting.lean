import CompositorConf.Editor.Swatch
import CompositorConf.Proofs.Document.Rewording
import CompositorConf.Proofs.Document.ValueSlot
import CompositorConf.Proofs.Editor.TextEdits
import CompositorConf.Proofs.Value.Replacement

/-!
# Writing back a picked colour

A picked colour takes the place of one literal, and no other swatch of the
document changes, but for those behind it on the same line, which move with the
text.

* `ofValue_of_replaced` says so of a value, and `exists_repaint` of a line;
* `all_of_repaint` says so of a document, for every spelling of a colour;
* `repaint_is_local` is the result for the edit that the editor is sent.
-/

namespace CompositorConf

open Text Document Grammar Rgba

section Spellings

variable {literal front piece back : List Char} {color : Rgba}

theorem hasVisibleEnds_of_spells (spells : Spells literal color) :
    HasVisibleEnds literal := by
  apply HasVisibleEnds.of_forall
  · rintro rfl
    exact nomatch beginsAsLiteral_of_spells spells
  · exact isBlank_of_spells spells

theorem isPlain_of_spells (spells : Spells literal color) : IsPlain literal :=
  fun character member =>
    Or.inr (isLiteralCharacter_of_spells spells character member)

theorem IsPlain.replaced (plain : IsPlain (front ++ piece ++ back))
    (literalPlain : IsPlain literal) : IsPlain (front ++ literal ++ back) := by
  rw [IsPlain, List.forall_mem_append, List.forall_mem_append] at plain ⊢
  exact ⟨⟨plain.1.1, literalPlain⟩, plain.2⟩

end Spellings

/-- The span of a text of the given width that begins where another span does. -/
def Span.withWidth (span : Span) (width : Nat) : Span :=
  .ofColumns span.start.line span.start.column (span.start.column + width)

namespace Swatch

/-- A swatch is another one whose range has moved. -/
structure Moved (old new : Nat) (first second : Swatch) : Prop where
  color : second.color = first.color
  range : first.range.Moved old new second.range

section Values

variable {text : List Char} {start : Position} {earlier later : List Swatch}
  {swatch : Swatch}

theorem ofValue_of_color {color : Rgba} (spells : Spells text color) :
    ofValue (Value.classify text start) =
      [⟨.ofColumns start.line start.column
        (start.column + utf16Length text), color⟩] := by
  have plain := isPlain_of_spells spells
  have single : ' ' ∉ text := not_mem_of_spells spells (by decide)
  have data :
      Value.dataBy ValueKind.precedence text start = .color color :=
    dataBy_of_color (beginsAsLiteral_of_spells spells)
      (plain.not_mem (by decide) (by decide)) single
      (ofLiteral?_of_spells spells)
  rw [Value.classify, data]
  rfl

theorem ofValue_of_gradient {gradient : Gradient}
    (ends : HasVisibleEnds text)
    (accepted : gradientGrammar text start = some (.gradient gradient)) :
    ofValue (Value.classify text start) =
      gradient.stops.map fun stop => ⟨stop.span, stop.color⟩ := by
  have plain := isPlain_of_gradientGrammar accepted
  have data := dataBy_of_gradient
    (beginsAsLiteral_of_gradientGrammar accepted ends.first)
    (plain.not_mem (by decide) (by decide)) accepted
  rw [Value.classify, data]
  rfl

/-- A value with swatches is one colour literal or a gradient. -/
theorem color_or_gradient
    (painted : ofValue (Value.classify text start) ≠ []) :
    (∃ color, ofLiteral? text = some color ∧
        ofValue (Value.classify text start) =
          [⟨Value.spanOf text start, color⟩]) ∨
      ∃ gradient, gradientGrammar text start = some (.gradient gradient) ∧
        ofValue (Value.classify text start) =
          gradient.stops.map fun stop => ⟨stop.span, stop.color⟩ := by
  rw [ofValue] at painted ⊢
  cases data : (Value.classify text start).data with
  | color color =>
      left
      have accepted := grammar_of_dataBy data (by simp [ValueData.kind])
      obtain ⟨other, read, same⟩ := Option.map_eq_some_iff.mp accepted
      cases same
      exact ⟨color, read, rfl⟩
  | gradient gradient =>
      right
      exact ⟨gradient, grammar_of_dataBy data (by simp [ValueData.kind]), rfl⟩
  | _ =>
      rw [data] at painted
      exact absurd rfl painted

/-- A value can be written with another literal in the place of one of its
swatches. -/
theorem ofValue_of_replaced (ends : HasVisibleEnds text)
    (found : ofValue (Value.classify text start) =
      earlier ++ swatch :: later) :
    IsPlain text ∧ ∃ front piece back, text = front ++ piece ++ back ∧
      ofLiteral? piece = some swatch.color ∧
      swatch.range = .ofColumns start.line
        (start.column + utf16Length front)
        (start.column + utf16Length front + utf16Length piece) ∧
      ∀ {literal : List Char} {color : Rgba}, Spells literal color →
        ∃ moved, ofValue
            (Value.classify (front ++ literal ++ back) start) =
            earlier ++ ⟨.ofColumns start.line
              (start.column + utf16Length front)
              (start.column + utf16Length front + utf16Length literal),
                color⟩ :: moved ∧
          List.Forall₂ (Moved (utf16Length piece) (utf16Length literal))
            later moved := by
  have painted : ofValue (Value.classify text start) ≠ [] := by
    rw [found]
    exact List.append_ne_nil_of_right_ne_nil earlier (List.cons_ne_nil _ _)
  rcases color_or_gradient painted with
    ⟨color, read, alone⟩ | ⟨gradient, accepted, stops⟩
  -- A single colour is the whole value; in a gradient one token is replaced.
  · rw [alone] at found
    obtain ⟨rfl, isOnly⟩ | ⟨_, empty⟩ :=
      List.append_eq_singleton_iff.mp found.symm
    · obtain ⟨rfl, rfl⟩ := List.cons.inj isOnly
      refine ⟨isPlain_of_ofLiteral? read, [], text, [], ?_, read, rfl, ?_⟩
      · rw [List.nil_append, List.append_nil]
      · intro literal other spells
        rw [List.nil_append, List.append_nil, ofValue_of_color spells]
        exact ⟨[], rfl, List.Forall₂.nil⟩
    · cases empty
  · rw [stops] at found
    obtain ⟨earlierStops, rest, split, rfl, isRest⟩ :=
      List.map_eq_append_iff.mp found
    obtain ⟨stop, laterStops, rfl, rfl, rfl⟩ := List.map_eq_cons_iff.mp isRest
    obtain ⟨front, piece, back, rfl, read, span, replaced⟩ :=
      gradientGrammar_of_replaced accepted split
    refine ⟨isPlain_of_gradientGrammar accepted, front, piece, back, rfl, read,
      span, ?_⟩
    intro literal color spells
    obtain ⟨moved, movedAccepted, all⟩ := replaced spells
    refine ⟨moved.map fun stop => ⟨stop.span, stop.color⟩, ?_, ?_⟩
    · rw [ofValue_of_gradient (ends.replaced (hasVisibleEnds_of_spells spells))
        movedAccepted, List.map_append, List.map_cons]
    · rw [List.forall₂_map_left_iff, List.forall₂_map_right_iff]
      exact all.imp fun _ _ isMoved => ⟨isMoved.color, isMoved.span⟩

end Values

theorem exists_slot_of_painted {catalog : Catalog} {line : List Char}
    {number : Nat} {assignment : Assignment}
    (recorded : entryOfLine? catalog line number =
      some (.assignment assignment))
    (painted : ofValue assignment.value ≠ []) :
    ∃ key blanks value back, '=' ∉ key ∧ IsSlot blanks back ∧
      HasVisibleEnds value ∧ '#' ∉ value ∧
        line = key ++ '=' :: (blanks ++ value ++ back) := by
  obtain ⟨key, after, rfl, missing⟩ :=
    List.eq_append_cons_of_mem (mem_of_entryOfLine? recorded)
  have nonempty : valueText after ≠ [] := by
    intro empty
    rw [value_of_entryOfLine? recorded missing, empty] at painted
    exact painted rfl
  obtain ⟨ends, plain, blanks, back, slot, whole⟩ := exists_slot nonempty
  refine ⟨key, blanks, valueText after, back, missing, slot, ends, plain, ?_⟩
  rw [← whole]

/-- A line can be written with another literal in the place of a swatch. -/
theorem exists_repaint {catalog : Catalog} {line : List Char} {number : Nat}
    {assignment : Assignment} {earlier later : List Swatch} {swatch : Swatch}
    (recorded : entryOfLine? catalog line number =
      some (.assignment assignment))
    (found : ofValue assignment.value = earlier ++ swatch :: later) :
    ∃ front piece back, line = front ++ piece ++ back ∧
      ofLiteral? piece = some swatch.color ∧
      swatch.range = .ofColumns number (utf16Length front)
        (utf16Length front + utf16Length piece) ∧
      ∀ {literal : List Char} {color : Rgba}, Spells literal color →
        ActsAlike line (front ++ literal ++ back) ∧ ∃ replaced moved,
          entryOfLine? catalog (front ++ literal ++ back) number =
              some (.assignment replaced) ∧
            ofValue replaced.value = earlier ++
              ⟨.ofColumns number (utf16Length front)
                (utf16Length front + utf16Length literal), color⟩ :: moved ∧
            List.Forall₂ (Moved (utf16Length piece) (utf16Length literal))
              later moved := by
  have painted : ofValue assignment.value ≠ [] := by
    rw [found]
    exact List.append_ne_nil_of_right_ne_nil earlier (List.cons_ne_nil _ _)
  obtain ⟨key, blanks, value, back, missing, slot, ends, uncommented, rfl⟩ :=
    exists_slot_of_painted recorded painted
  rw [value_of_entryOfLine? recorded missing,
    slot.valueText_eq ends uncommented, slot.valueColumn_eq ends] at found
  obtain ⟨plain, front, piece, rest, rfl, read, range, repaint⟩ :=
    ofValue_of_replaced ends found
  have line (text : List Char) :
      (key ++ '=' :: (blanks ++ front)) ++ text ++ (rest ++ back) =
        key ++ '=' :: (blanks ++ (front ++ text ++ rest) ++ back) := by
    simp
  have width : utf16Length (key ++ '=' :: (blanks ++ front)) =
      utf16Length key + 1 + utf16Length blanks + utf16Length front := by
    rw [utf16Length_append, utf16Length, utf16Length_append, ← Nat.add_assoc,
      ← Nat.add_assoc]
    rfl
  refine ⟨key ++ '=' :: (blanks ++ front), piece, rest ++ back,
    (line piece).symm, read, ?_, ?_⟩
  · rw [range, width]
  · intro literal color spells
    have newEnds := ends.replaced (hasVisibleEnds_of_spells spells)
    have newPlain := plain.replaced (isPlain_of_spells spells)
    obtain ⟨moved, newSwatches, all⟩ := repaint spells
    have newRecorded := entryOfLine?_of_value recorded missing slot newEnds
      (newPlain.not_mem (by decide) (by decide))
    rw [line literal, width]
    refine ⟨⟨?_, ?_, ?_⟩, _, moved, newRecorded, newSwatches, all⟩
    · rw [hasContent_append_cons, hasContent_append_cons]
    · exact opensSection_of_values ends
        (plain.not_mem (by decide) (by decide)) newEnds
        (newPlain.not_mem (by decide) (by decide))
    · rw [closesSection_of_mem (by simp), closesSection_of_mem (by simp)]

/-- What becomes of a swatch behind one on the given line whose literal gets
another width: it keeps its colour, and moves with the text if it is on that
line. -/
structure Follows (line old new : Nat) (first second : Swatch) : Prop where
  color : second.color = first.color
  sameLine : first.range.start.line = line →
    first.range.Moved old new second.range
  otherLine : first.range.start.line ≠ line → second.range = first.range

section Documents

variable {catalog : Catalog} {text : List Char} {root : Section}
  {earlier later : List Swatch} {swatch : Swatch}

/-- A swatch stands on the line of its assignment. -/
theorem range_of_swatch (parsed : parse catalog text = .ok root)
    {assignment : Assignment} (member : assignment ∈ root.allAssignments)
    (painted : swatch ∈ ofValue assignment.value) :
    ∃ start stop,
      swatch.range = .ofColumns assignment.position.line start stop := by
  obtain ⟨before, line, after, _, placed, recorded⟩ :=
    exists_line_of_assignment parsed member
  obtain ⟨earlier, later, found⟩ := List.append_of_mem painted
  obtain ⟨_, _, _, _, _, range, _⟩ := exists_repaint recorded found
  rw [placed] at range
  exact ⟨_, _, range⟩

theorem line_of_swatch (parsed : parse catalog text = .ok root)
    {assignment : Assignment} (member : assignment ∈ root.allAssignments)
    (painted : swatch ∈ ofValue assignment.value) :
    swatch.range.start.line = assignment.position.line := by
  obtain ⟨start, stop, range⟩ := range_of_swatch parsed member painted
  rw [range]
  rfl

/-- Any spelling of a colour can take the place of the literal of a swatch: the
text can still be read, and its swatches are those from before, apart from the
one that was replaced and those that follow it. -/
theorem all_of_repaint (parsed : parse catalog text = .ok root)
    (found : all root = earlier ++ swatch :: later) {newText : String}
    {color : Rgba} (spells : Spells newText.toList color) :
    ∃ piece edited moved,
      textAt? (lines text) swatch.range = some piece ∧
      parse catalog (TextEdit.applyTo ⟨swatch.range, newText⟩ text) =
        .ok edited ∧
      all edited = earlier ++
        ⟨swatch.range.withWidth (utf16Length newText.toList), color⟩ ::
          moved ∧
      textAt? (lines (TextEdit.applyTo ⟨swatch.range, newText⟩ text))
          (swatch.range.withWidth (utf16Length newText.toList)) =
        some newText.toList ∧
      List.Forall₂ (Follows swatch.range.start.line (utf16Length piece)
        (utf16Length newText.toList)) later moved := by
  obtain ⟨front, assignment, back, own, ownLater, listed, ownFound, rfl, rfl⟩ :=
    exists_split_of_flatMap found
  have member : assignment ∈ root.allAssignments := by
    rw [listed]
    exact List.mem_append_right _ List.mem_cons_self
  obtain ⟨before, line, after, split, placed, recorded⟩ :=
    exists_line_of_assignment parsed member
  obtain ⟨lineFront, piece, lineBack, rfl, _, range, repaint⟩ :=
    exists_repaint recorded ownFound
  obtain ⟨alike, replaced, moved, otherRecorded, newOwn, allMoved⟩ :=
    repaint spells
  have single : '\n' ∉ newText.toList :=
    not_mem_of_spells spells (by decide)
  have newSplit := TextEdit.lines_applyTo split single
  rw [← range] at newSplit
  obtain ⟨edited, otherParsed⟩ := exists_parse_of_line parsed split newSplit
    alike.opens alike.closes
  obtain ⟨newListed, elsewhere⟩ := allAssignments_of_line parsed otherParsed
    split newSplit alike recorded otherRecorded listed
  have newRange : swatch.range.withWidth (utf16Length newText.toList) =
      .ofColumns before.length (utf16Length lineFront)
        (utf16Length lineFront + utf16Length newText.toList) := by
    rw [range]
    rfl
  refine ⟨piece, edited, moved ++ back.flatMap fun other => ofValue other.value,
    ?_, otherParsed, ?_, ?_, ?_⟩
  · rw [split, range]
    exact textAt?_of_standsAt (by simp) ⟨lineFront, lineBack, rfl, rfl⟩
  · rw [all, newListed, List.flatMap_append, List.flatMap_cons, newOwn, newRange]
    simp only [List.append_assoc, List.cons_append]
  · rw [newSplit, newRange]
    exact textAt?_of_standsAt (by simp) ⟨lineFront, lineBack, rfl, rfl⟩
  -- Swatches behind the edited one are of the same assignment and on its line,
  -- or of other assignments, none of which stands on that line.
  · have onLine : ∀ other ∈ ownLater, other.range.start.line = before.length := by
      intro other otherMember
      rw [placed]
      apply line_of_swatch parsed member
      rw [ownFound]
      exact List.mem_append_right _ (List.mem_cons_of_mem _ otherMember)
    have offLine : ∀ other ∈ back.flatMap fun other => ofValue other.value,
        other.range.start.line ≠ before.length := by
      intro other otherMember
      obtain ⟨holder, holderMember, painted⟩ := List.mem_flatMap.mp otherMember
      rw [line_of_swatch parsed (by
        rw [listed]
        exact List.mem_append_right _ (List.mem_cons_of_mem _ holderMember))
        painted]
      exact elsewhere holder (List.mem_append_right _ holderMember)
    rw [range]
    apply List.rel_append
    · apply ((List.forall₂_and_left _ _).mpr ⟨onLine, allMoved⟩).imp
      rintro first second ⟨isOnLine, isMoved⟩
      exact ⟨isMoved.color, fun _ => isMoved.range, absurd isOnLine⟩
    · rw [List.forall₂_same]
      intro other otherMember
      exact ⟨rfl, fun isOnLine => absurd isOnLine (offLine other otherMember),
        fun _ => rfl⟩

/-- **A picked colour is written back in place.**  Take any swatch of a text that
can be read, and any colour.  With the edit that writes the colour at the swatch,
the text can still be read and has as many swatches.  The swatch begins where it
did, its range is that of the new literal, and its colour is the one the literal
spells.  The swatches before it are unchanged; those behind it keep their colour,
and their range too, except that on the same line it moves by the difference in
width. -/
theorem repaint_is_local (parsed : parse catalog text = .ok root)
    (found : all root = earlier ++ swatch :: later)
    (color : Channels Binary32) :
    ∃ piece edited decoded moved,
      textAt? (lines text) swatch.range = some piece ∧
      parse catalog
          (TextEdit.applyTo ⟨swatch.range, presentation color⟩ text) =
        .ok edited ∧
      (all edited).length = (all root).length ∧
      all edited = earlier ++
        ⟨swatch.range.withWidth (utf16Length (presentation color).toList),
          decoded⟩ :: moved ∧
      textAt?
          (lines (TextEdit.applyTo ⟨swatch.range, presentation color⟩ text))
          (swatch.range.withWidth
            (utf16Length (presentation color).toList)) =
        some (presentation color).toList ∧
      ofLiteral? (presentation color).toList = some decoded ∧
      List.Forall₂ (Follows swatch.range.start.line (utf16Length piece)
        (utf16Length (presentation color).toList)) later moved := by
  obtain ⟨decoded, spells⟩ :=
    UnitColor.exists_spells_literalOf (color.map (Binary.convert .double))
  have written : Spells (presentation color).toList decoded := by
    rw [presentation, String.toList_ofList]
    exact spells
  obtain ⟨piece, edited, moved, cut, isEdited, swatches, newCut, follow⟩ :=
    all_of_repaint parsed found written
  refine ⟨piece, edited, decoded, moved, cut, isEdited, ?_, swatches, newCut,
    ofLiteral?_of_spells written, follow⟩
  rw [swatches, found, List.length_append, List.length_append,
    List.length_cons, List.length_cons, follow.length_eq]

def gradientText : List Char :=
  "general \x7b\n  border = rgb(ff0000) 0xff00ff00 45deg\n\x7d\n".toList

def paleBlue : Channels Binary32 where
  red := Binary.zero .single false
  green := Binary.zero .single false
  blue := Binary.ofInt .single 1
  alpha := Binary.ofRatio .single false 1 2

/-- Three more characters for the first colour move the second one by three. -/
theorem gradientText_repaint_is_local :
    ∃ root edited decoded second,
      parse sampleCatalog gradientText = .ok root ∧
      (all root).map (·.range) = [.ofColumns 1 11 22, .ofColumns 1 23 33] ∧
      presentation paleBlue = "rgba(0000ff80)" ∧
      parse sampleCatalog
          (TextEdit.applyTo ⟨.ofColumns 1 11 22, presentation paleBlue⟩
            gradientText) =
        .ok edited ∧
      all edited = [⟨.ofColumns 1 11 25, decoded⟩, second] ∧
      second.range = .ofColumns 1 26 36 := by
  have evaluated : (parse sampleCatalog gradientText).toOption.map all =
      some ([] ++ ⟨.ofColumns 1 11 22, ⟨0xFF, 0, 0, 0xFF⟩⟩ ::
        [⟨.ofColumns 1 23 33, ⟨0, 0xFF, 0, 0xFF⟩⟩]) := by
    decide +kernel
  have literal : presentation paleBlue = "rgba(0000ff80)" := by
    decide +kernel
  obtain ⟨root, parsed, found⟩ := exists_parse_of_map evaluated
  obtain ⟨piece, edited, decoded, moved, cut, isEdited, _, swatches, _, _,
    follow⟩ := repaint_is_local parsed found paleBlue
  have replaced : textAt? (lines gradientText) (.ofColumns 1 11 22) =
      some "rgb(ff0000)".toList := by
    decide +kernel
  obtain rfl : piece = "rgb(ff0000)".toList :=
    Option.some.inj (cut.symm.trans replaced)
  obtain ⟨second, others, follows, nothing, rfl⟩ :=
    List.forall₂_cons_left_iff.mp follow
  rw [List.forall₂_nil_left_iff] at nothing
  have range := follows.sameLine rfl
  refine ⟨root, edited, decoded, second, parsed, ?_, literal, isEdited, ?_, ?_⟩
  · rw [found]
    rfl
  · rw [swatches, nothing, literal]
    rfl
  · rw [literal] at range
    have oldWidth : utf16Length "rgb(ff0000)".toList = 11 := by decide
    have newWidth : utf16Length "rgba(0000ff80)".toList = 14 := by decide
    rw [oldWidth, newWidth] at range
    exact range.eq_ofColumns ⟨by decide, by decide⟩

end Documents

end Swatch

end CompositorConf
