import CompositorConf.Proofs.Document.Nesting

/-!
# The section that a line stands in

Which section is innermost before a line is a matter of matching braces: it is
the last one opened such that the lines since then are balanced.

* `Balanced` lines close exactly the sections that they open;
* `Encloses` is the matching of braces, and `innermostOpen` computes it;
* `encloses_innermostOpen` says that the two agree.
-/

namespace CompositorConf.Document

open Text

/-- Lines that close every section they open, and no other. -/
structure Balanced (source : List (List Char)) : Prop where
  never : NeverExceeds source
  even : openingCount source = closingCount source

/-- The section that is innermost after some lines is the one that the line with
the given number opened, or the root: since then, all that was opened was closed
again. -/
def Encloses (source : List (List Char)) : Option Nat → Prop
  | none => Balanced source
  | some number =>
      ∃ front line inside,
        source = front ++ line :: inside ∧ front.length = number ∧
          opensSection line = true ∧ Balanced inside

/-- The open sections after one more line, each named by the number of the line
that opened it; the innermost comes first. -/
def openLinesAfter (stack : List Nat) (item : List Char × Nat) : List Nat :=
  if opensSection item.1 then item.2 :: stack
  else if closesSection item.1 then stack.tail
  else stack

/-- The numbers of the lines that opened the sections which are open after some
lines, the innermost first. -/
def openLines (source : List (List Char)) : List Nat :=
  source.zipIdx.foldl openLinesAfter []

/-- The number of the line that opened the section which is innermost after some
lines, if it is not the root. -/
def innermostOpen (source : List (List Char)) : Option Nat :=
  (openLines source).head?

/-- Open sections, each opened by its line and followed by balanced lines. -/
inductive OpenedBy : List (List Char) → List Nat → Prop
  | root {source : List (List Char)} :
      Balanced source → OpenedBy source []
  | inside {front : List (List Char)} {stack : List Nat} {line : List Char}
      {inside : List (List Char)} :
      OpenedBy front stack →
      opensSection line = true →
      Balanced inside →
      OpenedBy (front ++ line :: inside) (front.length :: stack)

theorem openingCount_append (first second : List (List Char)) :
    openingCount (first ++ second) =
      openingCount first + openingCount second :=
  List.countP_append

theorem closingCount_append (first second : List (List Char)) :
    closingCount (first ++ second) =
      closingCount first + closingCount second :=
  List.countP_append

theorem NeverExceeds.of_initial {first second : List (List Char)}
    (never : NeverExceeds second) (isPrefix : first <+: second) :
    NeverExceeds first := by
  intro initial isInitial
  exact never initial (isInitial.trans isPrefix)

theorem NeverExceeds.append {first second : List (List Char)}
    (firstNever : NeverExceeds first) (secondNever : NeverExceeds second) :
    NeverExceeds (first ++ second) := by
  induction second using List.reverseRecOn with
  | nil =>
      rw [List.append_nil]
      exact firstNever
  | append_singleton before line inductionHypothesis =>
      have earlier : NeverExceeds (first ++ before) :=
        inductionHypothesis
          (secondNever.of_initial (List.prefix_append before [line]))
      have firstBound := firstNever first List.prefix_rfl
      have secondBound :=
        secondNever (before ++ [line]) List.prefix_rfl
      rw [← List.append_assoc]
      refine earlier.concat ?_
      rw [List.append_assoc, openingCount_append, closingCount_append]
      exact Nat.add_le_add firstBound secondBound

theorem balanced_nil : Balanced [] :=
  ⟨neverExceeds_nil, rfl⟩

theorem Balanced.append {first second : List (List Char)}
    (firstBalanced : Balanced first) (secondBalanced : Balanced second) :
    Balanced (first ++ second) where
  never := firstBalanced.never.append secondBalanced.never
  even := by
    rw [openingCount_append, closingCount_append, firstBalanced.even,
      secondBalanced.even]

theorem Balanced.single {line : List Char}
    (opensNot : opensSection line = false)
    (closesNot : closesSection line = false) : Balanced [line] where
  never := by
    refine neverExceeds_nil.concat ?_
    rw [closingCount_concat_of_not closesNot]
    exact Nat.zero_le _
  even := by
    simp [openingCount, closingCount, opensNot, closesNot]

/-- A section with balanced lines in it is balanced. -/
theorem Balanced.wrap {opener closer : List Char}
    {inside : List (List Char)} (balanced : Balanced inside)
    (opens : opensSection opener = true)
    (closes : closesSection closer = true) :
    Balanced (opener :: inside ++ [closer]) := by
  have opensNot : opensSection closer = false := opensSection_of_closes closes
  have closesNot : closesSection opener = false :=
    closesSection_of_opens opens
  have openerNever : NeverExceeds [opener] := by
    refine neverExceeds_nil.concat ?_
    rw [closingCount_concat_of_not closesNot]
    exact Nat.zero_le _
  have even :
      openingCount (opener :: inside ++ [closer]) =
        closingCount (opener :: inside ++ [closer]) := by
    rw [openingCount_concat_of_not opensNot,
      closingCount_concat_of_closes closes, ← List.singleton_append,
      openingCount_append, closingCount_append, balanced.even, Nat.add_comm]
    simp [openingCount, closingCount, opens, closesNot]
  exact ⟨(openerNever.append balanced.never).concat (Nat.le_of_eq even.symm),
    even⟩

section OpenLines

variable {before : List (List Char)} {line : List Char}

theorem openLines_concat :
    openLines (before ++ [line]) =
      openLinesAfter (openLines before) (line, before.length) := by
  simp [openLines, List.zipIdx_append]

theorem openLines_concat_of_opens (opens : opensSection line = true) :
    openLines (before ++ [line]) = before.length :: openLines before := by
  rw [openLines_concat, openLinesAfter, if_pos opens]

theorem openLines_concat_of_closes (closes : closesSection line = true) :
    openLines (before ++ [line]) = (openLines before).tail := by
  rw [openLines_concat, openLinesAfter,
    if_neg (by rw [opensSection_of_closes closes]; decide), if_pos closes]

theorem openLines_concat_of_neither (opensNot : opensSection line = false)
    (closesNot : closesSection line = false) :
    openLines (before ++ [line]) = openLines before := by
  rw [openLines_concat, openLinesAfter, if_neg (by rw [opensNot]; decide),
    if_neg (by rw [closesNot]; decide)]

end OpenLines

/-- Balanced lines leave open what was open before them. -/
theorem OpenedBy.append {source more : List (List Char)} {stack : List Nat}
    (opened : OpenedBy source stack) (balanced : Balanced more) :
    OpenedBy (source ++ more) stack := by
  cases opened with
  | root earlier => exact OpenedBy.root (earlier.append balanced)
  | inside outer opens inner =>
      rw [List.append_assoc, List.cons_append]
      exact OpenedBy.inside outer opens (inner.append balanced)

/-- A closing line ends the innermost of the open sections. -/
theorem OpenedBy.close {before : List (List Char)} {line : List Char}
    {stack : List Nat} (opened : OpenedBy before stack)
    (closes : closesSection line = true)
    (never : NeverExceeds (before ++ [line])) :
    OpenedBy (before ++ [line]) stack.tail := by
  cases opened with
  | root balanced =>
      have bound := never (before ++ [line]) List.prefix_rfl
      rw [openingCount_concat_of_not (opensSection_of_closes closes),
        closingCount_concat_of_closes closes, balanced.even] at bound
      exact absurd bound (Nat.not_succ_le_self _)
  | inside outer opens inner =>
      rw [List.append_assoc]
      exact outer.append (inner.wrap opens closes)

theorem openedBy_openLines {source : List (List Char)}
    (never : NeverExceeds source) : OpenedBy source (openLines source) := by
  induction source using List.reverseRecOn with
  | nil => exact OpenedBy.root balanced_nil
  | append_singleton before line inductionHypothesis =>
      have opened : OpenedBy before (openLines before) :=
        inductionHypothesis
          (never.of_initial (List.prefix_append before [line]))
      cases opens : opensSection line with
      | true =>
          rw [openLines_concat_of_opens opens]
          exact OpenedBy.inside opened opens balanced_nil
      | false =>
          cases closes : closesSection line with
          | true =>
              rw [openLines_concat_of_closes closes]
              exact opened.close closes never
          | false =>
              rw [openLines_concat_of_neither opens closes]
              exact opened.append (Balanced.single opens closes)

/-- The innermost open section is the last one opened that was not closed
since. -/
theorem encloses_innermostOpen {source : List (List Char)}
    (never : NeverExceeds source) :
    Encloses source (innermostOpen source) := by
  have opened := openedBy_openLines never
  rw [innermostOpen]
  generalize openLines source = stack at opened ⊢
  cases opened with
  | root balanced => exact balanced
  | @inside front stack line inside outer opens balanced =>
      exact ⟨front, line, inside, rfl, rfl, opens, balanced⟩

end CompositorConf.Document
