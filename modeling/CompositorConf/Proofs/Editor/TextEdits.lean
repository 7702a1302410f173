import CompositorConf.Editor.Completion
import CompositorConf.Proofs.Text.Pieces
import CompositorConf.Proofs.Text.Slice

namespace CompositorConf

open Text

namespace Text

def dropUnits (units : Nat) (line : List Char) : List Char :=
  line.drop (takeUnits units line).length

def textBefore (source : List (List Char)) (position : Position) :
    List Char :=
  (source.take position.line).flatMap (· ++ ['\n']) ++
    takeUnits position.column (source[position.line]?.getD [])

def textBehind (source : List (List Char)) (position : Position) :
    List Char :=
  dropUnits position.column (source[position.line]?.getD []) ++
    (source.drop (position.line + 1)).flatMap ('\n' :: ·)

theorem dropUnits_append (front rest : List Char) :
    dropUnits (utf16Length front) (front ++ rest) = rest := by
  rw [dropUnits, takeUnits_append, List.drop_left]

section Line

variable {before after : List (List Char)} (front rest : List Char)

theorem textBefore_of_line :
    textBefore (before ++ (front ++ rest) :: after)
        ⟨before.length, utf16Length front⟩ =
      before.flatMap (· ++ ['\n']) ++ front := by
  rw [textBefore, List.take_left, List.getElem?_append_right (Nat.le_refl _),
    Nat.sub_self, List.getElem?_cons_zero, Option.getD_some, takeUnits_append]

theorem textBehind_of_line :
    textBehind (before ++ (front ++ rest) :: after)
        ⟨before.length, utf16Length front⟩ =
      rest ++ after.flatMap ('\n' :: ·) := by
  have later : (before ++ (front ++ rest) :: after).drop (before.length + 1) =
      after := by
    simp
  rw [textBehind, later, List.getElem?_append_right (Nat.le_refl _),
    Nat.sub_self, List.getElem?_cons_zero, Option.getD_some, dropUnits_append]

end Line

end Text

namespace TextEdit

/-- A text with an edit applied to it. -/
def applyTo (edit : TextEdit) (text : List Char) : List Char :=
  textBefore (lines text) edit.range.start ++ edit.newText.toList ++
    textBehind (lines text) edit.range.stop

/-- An edit within a line puts its text in the place of a piece of that line,
and keeps all other lines. -/
theorem lines_applyTo {text front piece back : List Char}
    {before after : List (List Char)} {newText : String}
    (split : lines text = before ++ (front ++ piece ++ back) :: after)
    (single : '\n' ∉ newText.toList) :
    lines (applyTo
        ⟨.ofColumns before.length (utf16Length front)
          (utf16Length front + utf16Length piece), newText⟩ text) =
      before ++ (front ++ newText.toList ++ back) :: after := by
  have isLine : front ++ piece ++ back ∈ lines text := by
    rw [split]
    exact List.mem_append_right _ List.mem_cons_self
  have kept : '\n' ∉ front ++ piece ++ back :=
    not_mem_of_mem_splitOn _ isLine
  have uncut : '\n' ∉ front ++ newText.toList ++ back := by
    rw [List.mem_append, List.mem_append, not_or, not_or] at kept ⊢
    exact ⟨⟨kept.1.1, single⟩, kept.2⟩
  have shape : applyTo
        ⟨.ofColumns before.length (utf16Length front)
          (utf16Length front + utf16Length piece), newText⟩ text =
      before.flatMap (· ++ ['\n']) ++ (front ++ newText.toList ++ back) ++
        after.flatMap ('\n' :: ·) := by
    rw [applyTo, Span.ofColumns, split]
    dsimp only
    rw [← utf16Length_append, textBehind_of_line, List.append_assoc front,
      textBefore_of_line]
    simp only [List.append_assoc]
  rw [shape]
  exact splitOn_of_replaced split uncut

end TextEdit

end CompositorConf
