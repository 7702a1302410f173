import CompositorConf.Proofs.Sequence
import CompositorConf.Proofs.Value.Overlap

/-!
# Masks of modifiers

A mask is written as names of modifiers with other characters between them.

* `Modifier.Spells` are the names of a modifier in any ASCII case, and
  `SpellsMask` the texts of masks that are not empty;
* `pieces_append` takes the first name off a text, so that
  `forall₂_pieces_of_spellsMask` and `spellsMask_of_forall₂_pieces` find a name in
  every piece of these texts and of no others;
* `SpellsMask.forall₂_nameWords` says the same of the words of such a text;
* `classify_modmask_exactly` says which texts are classified as masks.
-/

namespace CompositorConf

open Text Grammar

namespace Modifier

/-- A text is a name of a modifier, in any ASCII case. -/
def Spells (text : List Char) (modifier : Modifier) : Prop :=
  ∃ spelling, (spelling, modifier) ∈ names ∧
    equalIgnoringCase spelling (String.ofList text) = true

variable {text : List Char} {modifier : Modifier}

theorem ofName?_eq_some_iff :
    ofName? (String.ofList text) = some modifier ↔ Spells text modifier := by
  rw [ofName?, Option.map_eq_some_iff]
  constructor
  · rintro ⟨entry, found, rfl⟩
    exact ⟨entry.1, List.mem_of_find?_eq_some found,
      List.find?_some (p := fun entry : String × Modifier =>
        equalIgnoringCase entry.1 (String.ofList text)) found⟩
  · rintro ⟨spelling, member, equal⟩
    have one : ∀ entry ∈ names, ∀ other ∈ names,
        lowerAscii entry.1 = lowerAscii other.1 → entry.2 = other.2 := by
      decide
    cases found : names.find? fun entry =>
        equalIgnoringCase entry.1 (String.ofList text) with
    | none =>
        rw [List.find?_eq_none] at found
        exact absurd equal (found _ member)
    | some entry =>
        have entryEqual := List.find?_some (p := fun entry : String × Modifier =>
          equalIgnoringCase entry.1 (String.ofList text)) found
        have same : lowerAscii entry.1 = lowerAscii spelling :=
          (equalIgnoringCase_iff.mp entryEqual).trans
            (equalIgnoringCase_iff.mp equal).symm
        exact ⟨entry, rfl, one entry (List.mem_of_find?_eq_some found) _ member
          same⟩

theorem lowerAscii_of_spells (spells : Spells text modifier) :
    ∃ entry ∈ names, lowerAscii entry.1 = text.map Char.toLower := by
  obtain ⟨spelling, member, equal⟩ := spells
  refine ⟨_, member, ?_⟩
  rw [equalIgnoringCase_iff.mp equal, lowerAscii, String.toList_ofList]

theorem Spells.ne_nil (spells : Spells text modifier) : text ≠ [] := by
  have nonempty : ∀ entry ∈ names, lowerAscii entry.1 ≠ [] := by decide
  obtain ⟨entry, member, same⟩ := lowerAscii_of_spells spells
  rintro rfl
  exact nonempty entry member same

theorem Spells.isNameCharacter (spells : Spells text modifier) :
    ∀ character ∈ text, Grammar.isNameCharacter character = true := by
  have letters : ∀ entry ∈ names,
      (lowerAscii entry.1).all Grammar.isNameCharacter = true := by
    decide
  have caseless := apply_toLower Grammar.isNameCharacter (by decide)
  obtain ⟨entry, member, same⟩ := lowerAscii_of_spells spells
  intro character inText
  rw [← caseless]
  apply List.all_eq_true.mp (letters entry member)
  rw [same]
  exact List.mem_map_of_mem inText

end Modifier

/-- A text that can stand between two modifiers: it is not empty, and has neither
ASCII letters nor digits, nor the mark of a reference. -/
def SeparatesModifiers (text : List Char) : Prop :=
  text ≠ [] ∧ ∀ character ∈ text,
    isNameCharacter character = false ∧ character ≠ '$'

/-- A text writes one or more modifiers, separated from each other. -/
inductive SpellsMask : List Char → List Modifier → Prop
  | last {name : List Char} {modifier : Modifier}
      (spells : Modifier.Spells name modifier) : SpellsMask name [modifier]
  | more {name separator rest : List Char} {modifier : Modifier}
      {modifiers : List Modifier} (spells : Modifier.Spells name modifier)
      (separates : SeparatesModifiers separator)
      (further : SpellsMask rest modifiers) :
      SpellsMask (name ++ (separator ++ rest)) (modifier :: modifiers)

section Masks

variable {text name separator rest : List Char} {modifier : Modifier}
  {modifiers : List Modifier}

theorem SpellsMask.exists_front (spells : SpellsMask text modifiers) :
    ∃ name rest modifier, text = name ++ rest ∧ Modifier.Spells name modifier := by
  cases spells with
  | last spells => exact ⟨_, [], _, (List.append_nil _).symm, spells⟩
  | more spells => exact ⟨_, _, _, rfl, spells⟩

/-- A mask begins with a character of a name. -/
theorem SpellsMask.head? (spells : SpellsMask text modifiers) :
    ∀ character ∈ text.head?, isNameCharacter character = true := by
  obtain ⟨name, rest, modifier, rfl, named⟩ := spells.exists_front
  obtain ⟨first, others, rfl⟩ := List.exists_cons_of_ne_nil named.ne_nil
  intro character same
  rw [← Option.some.inj same]
  exact named.isNameCharacter first List.mem_cons_self

theorem SpellsMask.ne_nil (spells : SpellsMask text modifiers) : text ≠ [] := by
  obtain ⟨name, rest, modifier, rfl, named⟩ := spells.exists_front
  exact List.append_ne_nil_of_left_ne_nil named.ne_nil rest

/-- A mask ends with a character of a name. -/
theorem SpellsMask.getLast? (spells : SpellsMask text modifiers) :
    ∀ character ∈ text.getLast?, isNameCharacter character = true := by
  induction spells with
  | last spells =>
      intro character isLast
      exact spells.isNameCharacter character (List.mem_of_getLast? isLast)
  | more spells separates further inductionHypothesis =>
      rw [List.getLast?_append_of_ne_nil _
          (List.append_ne_nil_of_right_ne_nil _ further.ne_nil),
        List.getLast?_append_of_ne_nil _ further.ne_nil]
      exact inductionHypothesis

/-- No mask has the mark of a reference. -/
theorem SpellsMask.not_mem (spells : SpellsMask text modifiers) :
    '$' ∉ text := by
  have foreign {name : List Char} {modifier : Modifier}
      (named : Modifier.Spells name modifier) : '$' ∉ name := fun member =>
    absurd (named.isNameCharacter '$' member) (by decide)
  induction spells with
  | last spells => exact foreign spells
  | more spells separates further inductionHypothesis =>
      rw [List.mem_append, List.mem_append, not_or, not_or]
      exact ⟨foreign spells, fun member => (separates.2 '$' member).2 rfl,
        inductionHypothesis⟩

theorem pieces_of_isNameCharacter
    (isName : ∀ character ∈ text, isNameCharacter character = true) :
    pieces text = [text] := by
  rw [pieces, List.takeWhile_eq_self_iff.mpr isName,
    List.dropWhile_eq_nil_iff.mpr isName]
  rfl

/-- The first name of a text is a piece, and the other pieces are those behind the
separators that follow it. -/
theorem pieces_append
    (isName : ∀ character ∈ name, isNameCharacter character = true)
    (nonempty : separator ≠ [])
    (separates : ∀ character ∈ separator, isNameCharacter character = false)
    (begins : ∀ character ∈ rest.head?, isNameCharacter character = true) :
    pieces (name ++ (separator ++ rest)) = name :: pieces rest := by
  have dropped : dropSeparators (separator ++ rest) = rest := by
    rw [dropSeparators, List.dropWhile_append_of_pos (by simpa using separates)]
    cases rest with
    | nil => rfl
    | cons head tail =>
        exact List.dropWhile_cons_of_neg (by simp [begins head rfl])
  obtain ⟨first, others, rfl⟩ := List.exists_cons_of_ne_nil nonempty
  have stops : ¬ isNameCharacter first = true := by
    simp [separates first List.mem_cons_self]
  rw [pieces, List.takeWhile_append_of_pos isName,
    List.dropWhile_append_of_pos isName, List.cons_append,
    List.takeWhile_cons_of_neg stops, List.dropWhile_cons_of_neg stops,
    List.append_nil, if_neg (by simp), ← List.cons_append, dropped]

/-- A text is a name, or begins with one that is followed by separators; behind
these it is at its end or another name begins. -/
theorem exists_split_of_pieces (text : List Char) :
    (∀ character ∈ text, isNameCharacter character = true) ∨
      ∃ name separator rest, text = name ++ (separator ++ rest) ∧
        (∀ character ∈ name, isNameCharacter character = true) ∧
        separator ≠ [] ∧
        (∀ character ∈ separator, isNameCharacter character = false) ∧
        ∀ character ∈ rest.head?, isNameCharacter character = true := by
  by_cases whole : text.dropWhile isNameCharacter = []
  · exact Or.inl (List.dropWhile_eq_nil_iff.mp whole)
  · right
    have after := List.takeWhile_append_dropWhile
      (p := fun character => !isNameCharacter character)
      (l := text.dropWhile isNameCharacter)
    refine ⟨text.takeWhile isNameCharacter,
      (text.dropWhile isNameCharacter).takeWhile
        fun character => !isNameCharacter character,
      (text.dropWhile isNameCharacter).dropWhile
        fun character => !isNameCharacter character, ?_,
      fun _ => List.mem_takeWhile_imp, ?_, ?_, ?_⟩
    · rw [after, List.takeWhile_append_dropWhile]
    · obtain ⟨first, others, split⟩ := List.exists_cons_of_ne_nil whole
      have stopped : isNameCharacter first = false := by
        have found := List.head?_dropWhile_not isNameCharacter text
        rwa [split] at found
      rw [split, List.takeWhile_cons_of_pos (by simp [stopped])]
      exact List.cons_ne_nil first _
    · intro character member
      simpa using List.mem_takeWhile_imp member
    · intro character isHead
      have stopped := List.head?_dropWhile_not
        (fun character => !isNameCharacter character)
        (text.dropWhile isNameCharacter)
      rw [Option.mem_def.mp isHead] at stopped
      simpa using stopped

theorem forall₂_pieces_of_spellsMask (spells : SpellsMask text modifiers) :
    List.Forall₂ Modifier.Spells (pieces text) modifiers := by
  induction spells with
  | last spells =>
      rw [pieces_of_isNameCharacter spells.isNameCharacter]
      exact .cons spells .nil
  | more spells separates further inductionHypothesis =>
      rw [pieces_append spells.isNameCharacter separates.1
        (fun character member => (separates.2 character member).1)
        further.head?]
      exact .cons spells inductionHypothesis

/-- Where every piece is the name of a modifier, and nothing the mark of a
reference, the text is a mask. -/
theorem spellsMask_of_forall₂_pieces (text : List Char) :
    ∀ {modifiers : List Modifier}, '$' ∉ text →
      List.Forall₂ Modifier.Spells (pieces text) modifiers →
        SpellsMask text modifiers := by
  induction length : text.length using Nat.strong_induction_on
    generalizing text with
  | _ size inductionHypothesis =>
      intro modifiers plain named
      rcases exists_split_of_pieces text with isName |
        ⟨name, separator, rest, rfl, isName, nonempty, separates, begins⟩
      · rw [pieces_of_isNameCharacter isName,
          List.forall₂_cons_left_iff] at named
        obtain ⟨modifier, others, spells, none, rfl⟩ := named
        rw [List.forall₂_nil_left_iff.mp none]
        exact .last spells
      · rw [pieces_append isName nonempty separates begins,
          List.forall₂_cons_left_iff] at named
        obtain ⟨modifier, others, spells, further, rfl⟩ := named
        rw [List.mem_append, List.mem_append, not_or, not_or] at plain
        have shorter : rest.length < size := by
          have positive := List.length_pos_iff.mpr nonempty
          rw [← length, List.length_append, List.length_append]
          omega
        refine .more spells ⟨nonempty, ?_⟩
          (inductionHypothesis rest.length shorter rest rfl plain.2.2 further)
        intro character member
        refine ⟨separates character member, ?_⟩
        rintro rfl
        exact plain.2.1 member

/-- The words of a text: its longest pieces of ASCII letters and digits. -/
def nameWords (text : List Char) : List (List Char) :=
  (text.splitOnP fun character => !isNameCharacter character).filter
    fun word => !word.isEmpty

theorem nameWords_of_isNameCharacter (nonempty : text ≠ [])
    (isName : ∀ character ∈ text, isNameCharacter character = true) :
    nameWords text = [text] := by
  rw [nameWords, List.splitOnP_eq_singleton (by simpa using isName),
    List.filter_eq_self, List.forall_mem_singleton]
  simpa using nonempty

theorem nameWords_append_cons (front : List Char) {character : Char}
    (separates : isNameCharacter character = false) (back : List Char) :
    nameWords (front ++ character :: back) =
      nameWords front ++ nameWords back := by
  rw [nameWords, List.splitOnP_append_cons front back (by simp [separates]),
    List.filter_append]
  rfl

theorem nameWords_append_of_separates
    (separates : ∀ character ∈ separator, isNameCharacter character = false)
    (back : List Char) : nameWords (separator ++ back) = nameWords back := by
  induction separator with
  | nil => rfl
  | cons character separator inductionHypothesis =>
      rw [List.forall_mem_cons] at separates
      have first := nameWords_append_cons [] separates.1 (separator ++ back)
      rw [List.nil_append] at first
      rw [List.cons_append, first, inductionHypothesis separates.2]
      rfl

/-- The words of a mask are the names of its modifiers. -/
theorem SpellsMask.forall₂_nameWords (spells : SpellsMask text modifiers) :
    List.Forall₂ Modifier.Spells (nameWords text) modifiers := by
  induction spells with
  | last spells =>
      rw [nameWords_of_isNameCharacter spells.ne_nil spells.isNameCharacter]
      exact .cons spells .nil
  | @more name separator rest _ _ spells separates further
      inductionHypothesis =>
      have foreign : ∀ character ∈ separator,
          isNameCharacter character = false := fun character member =>
        (separates.2 character member).1
      obtain ⟨first, others, rfl⟩ := List.exists_cons_of_ne_nil separates.1
      rw [List.forall_mem_cons] at foreign
      rw [List.cons_append, nameWords_append_cons _ foreign.1,
        nameWords_append_of_separates foreign.2,
        nameWords_of_isNameCharacter spells.ne_nil spells.isNameCharacter]
      exact .cons spells inductionHypothesis

end Masks

section Classification

variable {text : List Char} {start : Position} {modifiers : List Modifier}

theorem modmaskGrammar_eq_some_iff :
    modmaskGrammar text start = some (.modmask modifiers) ↔
      (text = [] ∧ modifiers = []) ∨
        (text ≠ [] ∧
          List.Forall₂ Modifier.Spells (pieces text) modifiers) := by
  rw [modmaskGrammar]
  cases text with
  | nil => simp [eq_comm]
  | cons first rest =>
      rw [if_neg (by simp)]
      simp [mapM_eq_some_iff, Modifier.ofName?_eq_some_iff]

/-- A text is classified as a mask if the grammar of masks accepts it and it is no
reference. -/
theorem classify_eq_modmask_iff :
    (Value.classify text start).data = .modmask modifiers ↔
      '$' ∉ text ∧
        modmaskGrammar text start = some (.modmask modifiers) := by
  constructor
  · intro read
    constructor
    · intro reference
      have isCustom : (Value.classify text start).data.kind = .custom :=
        Value.classify_kind_eq_custom_iff.mpr reference
      rw [read] at isCustom
      cases isCustom
    · exact grammar_of_dataBy read (by simp [ValueData.kind])
  · rintro ⟨plain, accepted⟩
    have tried : ValueKind.modmask ∈ ValueKind.precedence := by decide
    have onlyCustom : ∀ kind, (kind, ValueKind.modmask) ∈ ValueKind.overlaps →
        kind = .custom := by
      intro kind
      cases kind <;> decide
    rcases Value.dataBy_eq_or_overlap (fun _ member => member)
      Value.precedence_keepsOverlaps tried accepted with same | overlap
    · exact same
    · exact absurd
        (Value.classify_kind_eq_custom_iff.mp (onlyCustom _ overlap)) plain

theorem classify_eq_modmask_iff_spellsMask :
    (Value.classify text start).data = .modmask modifiers ↔
      (text = [] ∧ modifiers = []) ∨ SpellsMask text modifiers := by
  rw [classify_eq_modmask_iff, modmaskGrammar_eq_some_iff]
  constructor
  · rintro ⟨plain, empty | ⟨_, named⟩⟩
    · exact Or.inl empty
    · exact Or.inr (spellsMask_of_forall₂_pieces text plain named)
  · rintro (⟨rfl, rfl⟩ | spells)
    · exact ⟨List.not_mem_nil, Or.inl ⟨rfl, rfl⟩⟩
    · exact ⟨spells.not_mem,
        Or.inr ⟨spells.ne_nil, forall₂_pieces_of_spellsMask spells⟩⟩

theorem exists_spellsMask_of_kind (nonempty : text ≠ [])
    (isMask : (Value.classify text start).kind = .modmask) :
    ∃ modifiers, SpellsMask text modifiers := by
  obtain ⟨modifiers, read⟩ : ∃ modifiers,
      (Value.classify text start).data = .modmask modifiers := by
    rw [Value.kind] at isMask
    generalize (Value.classify text start).data = data at isMask
    cases data with
    | modmask modifiers => exact ⟨modifiers, rfl⟩
    | _ => cases isMask
  exact ⟨modifiers, (classify_eq_modmask_iff_spellsMask.mp read).resolve_left
    fun empty => nonempty empty.1⟩

/-- **Masks are written with the names of their modifiers.**  A text is classified
as a mask of some modifiers exactly if it is empty and there are none, or if it
writes them one after the other, in any of their names and any ASCII case, with
separators between them.  So no text is a mask that begins or ends with a character
which is no ASCII letter or digit, or that has a word which names no modifier. -/
theorem classify_modmask_exactly (text : List Char) (start : Position) :
    (∀ modifiers,
        (Value.classify text start).data = .modmask modifiers ↔
          (text = [] ∧ modifiers = []) ∨ SpellsMask text modifiers) ∧
      (∀ character, isNameCharacter character = false →
        text.head? = some character ∨ text.getLast? = some character →
          (Value.classify text start).kind ≠ .modmask) ∧
      ∀ word ∈ nameWords text, (∀ modifier, ¬ Modifier.Spells word modifier) →
        (Value.classify text start).kind ≠ .modmask := by
  refine ⟨fun _ => classify_eq_modmask_iff_spellsMask, ?_, ?_⟩
  · intro character foreign atEnd isMask
    have nonempty : text ≠ [] := by
      rintro rfl
      rcases atEnd with atEnd | atEnd
      · cases atEnd
      · cases atEnd
    obtain ⟨modifiers, spells⟩ := exists_spellsMask_of_kind nonempty isMask
    have isName : isNameCharacter character = true := by
      rcases atEnd with first | last
      · exact spells.head? character first
      · exact spells.getLast? character last
    rw [foreign] at isName
    cases isName
  · intro word member unknown isMask
    have nonempty : text ≠ [] := by
      rintro rfl
      have nothing : nameWords [] = [] := by decide
      rw [nothing] at member
      exact absurd member List.not_mem_nil
    obtain ⟨modifiers, spells⟩ := exists_spellsMask_of_kind nonempty isMask
    obtain ⟨modifier, _, named⟩ :=
      exists_of_mem_of_forall₂ spells.forall₂_nameWords member
    exact unknown modifier named

/-- Two modifiers by other names, in mixed case and with a run of separators between
them; with a separator at the end, or with an unknown word, they are no mask. -/
theorem classify_super_and_control :
    SpellsMask ("wIn".toList ++ (" + ".toList ++ "Ctrl".toList))
        [.super, .control] ∧
      (Value.classify "wIn + Ctrl".toList ⟨0, 4⟩).data =
        .modmask [.super, .control] ∧
      (Value.classify "wIn + Ctrl,".toList ⟨0, 4⟩).kind ≠ .modmask ∧
      (Value.classify "wIn + Q".toList ⟨0, 4⟩).kind ≠ .modmask := by
  have win : Modifier.Spells "wIn".toList .super :=
    ⟨"WIN", by decide, by decide⟩
  have control : Modifier.Spells "Ctrl".toList .control :=
    ⟨"CTRL", by decide, by decide⟩
  have separates : SeparatesModifiers " + ".toList :=
    ⟨by decide, by simp [isNameCharacter]⟩
  have spells := SpellsMask.more win separates (.last control)
  have unknown : ∀ modifier, ¬ Modifier.Spells ['Q'] modifier := by
    intro modifier named
    have unnamed : Modifier.ofName? (String.ofList ['Q']) = none := by decide
    rw [← Modifier.ofName?_eq_some_iff, unnamed] at named
    cases named
  refine ⟨spells, ?_, ?_, ?_⟩
  · exact ((classify_modmask_exactly _ _).1 _).mpr (Or.inr spells)
  · exact (classify_modmask_exactly _ _).2.1 ',' (by decide)
      (Or.inr (by decide))
  · exact (classify_modmask_exactly _ _).2.2 ['Q'] (by decide) unknown

end Classification

end CompositorConf
