import CompositorConf.Json.Printer
import CompositorConf.Proofs.Number.Overflow
import CompositorConf.Proofs.Value.Coercion
import CompositorConf.Proofs.Value.Gradient

/-!
# Which values are finite

The numbers of a value are rounded from numerals in its text.

* `HasNumeral` says which numerals stand in a text of some kind, and
  `ValueData.ReadsNumerals` that the numbers of a content are what these are rounded
  to;
* `readsNumerals_classify` says so of a classified text, and
  `classify_isFinite_iff` that it is finite unless such a numeral overflows;
* `coerce_isFinite_iff` says that re-reading neither loses nor adds an infinite
  number, unless the text is taken instead;
* `Json.numeral_eq_null_iff` says that the others are written as null.
-/

namespace CompositorConf

open Text Grammar

/-- The numbers of a content: a number, the components of a pair or the angle of a
gradient. -/
def ValueData.numbers : ValueData → List Binary32
  | .float number => [number]
  | .vec2 horizontal vertical => [horizontal, vertical]
  | .gradient value => [value.angle]
  | _ => []

/-- A content has only finite numbers. -/
def ValueData.IsFinite (data : ValueData) : Prop :=
  ∀ number ∈ data.numbers, number.isFinite = true

theorem ValueData.isFinite_of_numbers {data : ValueData}
    (noNumbers : data.numbers = []) : data.IsFinite := by
  rw [ValueData.IsFinite, noNumbers]
  exact fun _ member => absurd member List.not_mem_nil

theorem ValueData.isFinite_iff_of_single {data : ValueData} {number : Binary32}
    (single : data.numbers = [number]) :
    data.IsFinite ↔ number.isFinite = true := by
  rw [ValueData.IsFinite, single, List.forall_mem_singleton]

/-- A numeral stands in a text of a kind: it is the whole text, a component of a pair
or the digits of an angle. -/
inductive HasNumeral (text : List Char) : ValueKind → Decimal → Prop
  | whole {numeral : Decimal} :
      Decimal.parse? text = some numeral → HasNumeral text .float numeral
  | component {piece : List Char} {numeral : Decimal} :
      piece ∈ text.splitOn ' ' → Decimal.parse? piece = some numeral →
        HasNumeral text .vec2 numeral
  | angle {digits : List Char} :
      digits ++ "deg".toList ∈ text.splitOn ' ' → digits ≠ [] →
        (∀ digit ∈ digits, Decimal.isDigit digit = true) →
          HasNumeral text .gradient ⟨false, Decimal.digitsValue digits, 0⟩

/-- The numbers of a content are what the numerals of a text are rounded to.  The
angle of a gradient that has no numeral is zero. -/
structure ValueData.ReadsNumerals (text : List Char) (data : ValueData) :
    Prop where
  each :
    ∀ numeral, HasNumeral text data.kind numeral →
      Decimal.toBinary .single numeral ∈ data.numbers
  only :
    ∀ number ∈ data.numbers, number = Binary.zero .single false ∨
      ∃ numeral, HasNumeral text data.kind numeral ∧
        Decimal.toBinary .single numeral = number

namespace Grammar

variable {text : List Char} {start : Position} {texts : List (List Char)}
  {colors : List Rgba} {angle : Binary32}

theorem SpellsStops.angle_of_mem (spells : SpellsStops texts colors angle)
    (member : text ∈ texts) {other : Binary32}
    (isAngle : angle? text = some other) : other = angle := by
  induction spells with
  | none => exact absurd member List.not_mem_nil
  | angle nonempty allDigits isNumber =>
      rw [List.mem_singleton.mp member,
        angle?_eq_some_iff.mpr ⟨_, rfl, nonempty, allDigits, isNumber⟩]
        at isAngle
      exact (Option.some.inj isAngle).symm
  | color literal _ inductionHypothesis =>
      rcases List.mem_cons.mp member with rfl | further
      · rw [ofLiteral?_of_angle? isAngle] at literal
        cases literal
      · exact inductionHypothesis further

theorem SpellsStops.zero_or_angle (spells : SpellsStops texts colors angle) :
    angle = Binary.zero .single false ∨
      ∃ text ∈ texts, angle? text = some angle := by
  induction spells with
  | none => exact Or.inl rfl
  | angle nonempty allDigits isNumber =>
      exact Or.inr ⟨_, List.mem_singleton_self _,
        angle?_eq_some_iff.mpr ⟨_, rfl, nonempty, allDigits, isNumber⟩⟩
  | color _ _ inductionHypothesis =>
      rcases inductionHypothesis with isZero | ⟨text, member, isAngle⟩
      · exact Or.inl isZero
      · exact Or.inr ⟨text, List.mem_cons_of_mem _ member, isAngle⟩

theorem readsNumerals_of_float {number : Binary32}
    (accepted : floatGrammar text start = some (.float number)) :
    (ValueData.float number).ReadsNumerals text := by
  obtain ⟨_, isNumber, same⟩ := Option.map_eq_some_iff.mp accepted
  cases same
  obtain ⟨written, read, isRounded⟩ := Option.map_eq_some_iff.mp isNumber
  constructor
  · intro numeral has
    cases has with
    | whole otherRead =>
        rw [read] at otherRead
        cases otherRead
        rw [isRounded]
        exact List.mem_singleton_self _
  · intro other member
    rw [List.mem_singleton.mp member]
    exact Or.inr ⟨written, .whole read, isRounded⟩

theorem readsNumerals_of_vec2 {horizontal vertical : Binary32}
    (accepted : vec2Grammar text start = some (.vec2 horizontal vertical)) :
    (ValueData.vec2 horizontal vertical).ReadsNumerals text := by
  simp only [vec2Grammar] at accepted
  split at accepted
  · next first second pieces =>
      simp only [Option.bind_eq_bind, Option.bind_eq_some_iff, Option.pure_def,
        Option.some.injEq, ValueData.vec2.injEq] at accepted
      obtain ⟨_, isFirst, _, isSecond, rfl, rfl⟩ := accepted
      obtain ⟨left, leftRead, isLeft⟩ := Option.map_eq_some_iff.mp isFirst
      obtain ⟨right, rightRead, isRight⟩ := Option.map_eq_some_iff.mp isSecond
      constructor
      · intro numeral has
        cases has with
        | component member otherRead =>
            rw [pieces] at member
            rcases List.mem_pair.mp member with rfl | rfl
            · rw [leftRead] at otherRead
              cases otherRead
              exact List.mem_pair.mpr (Or.inl isLeft)
            · rw [rightRead] at otherRead
              cases otherRead
              exact List.mem_pair.mpr (Or.inr isRight)
      · intro number member
        rcases List.mem_pair.mp member with rfl | rfl
        · refine Or.inr ⟨left, .component ?_ leftRead, isLeft⟩
          rw [pieces]
          exact List.mem_pair.mpr (Or.inl rfl)
        · refine Or.inr ⟨right, .component ?_ rightRead, isRight⟩
          rw [pieces]
          exact List.mem_pair.mpr (Or.inr rfl)
  · cases accepted

theorem readsNumerals_of_gradient {gradient : Gradient}
    (accepted : gradientGrammar text start = some (.gradient gradient)) :
    (ValueData.gradient gradient).ReadsNumerals text := by
  obtain ⟨colors, spells, _⟩ := stops_of_gradientGrammar accepted
  rw [map_text_tokens] at spells
  constructor
  · intro numeral has
    cases has with
    | @angle digits member nonempty allDigits =>
        have isAngle : angle? (digits ++ "deg".toList) =
            some (Decimal.toBinary .single
              ⟨false, Decimal.digitsValue digits, 0⟩) :=
          angle?_eq_some_iff.mpr ⟨digits, rfl, nonempty, allDigits,
            Decimal.toBinary_of_natural _⟩
        have kept : digits ++ "deg".toList ∈
            (text.splitOn ' ').filter fun piece => !piece.isEmpty :=
          List.mem_filter.mpr ⟨member, by simp⟩
        rw [spells.angle_of_mem kept isAngle]
        exact List.mem_singleton_self _
  · intro number member
    rw [List.mem_singleton.mp member]
    rcases spells.zero_or_angle with isZero | ⟨piece, kept, isAngle⟩
    · exact Or.inl isZero
    · obtain ⟨digits, rfl, nonempty, allDigits, isNumber⟩ :=
        angle?_eq_some_iff.mp isAngle
      rw [isNumber, ← Decimal.toBinary_of_natural]
      exact Or.inr ⟨_, .angle (List.mem_of_mem_filter kept) nonempty allDigits,
        rfl⟩

end Grammar

namespace Value

variable {text : List Char} {start : Position}

/-- A classified text has the numbers of its numerals. -/
theorem readsNumerals_classify (text : List Char) (start : Position) :
    (classify text start).data.ReadsNumerals text := by
  have accepted {data : ValueData} (isData : (classify text start).data = data)
      (other : data.kind ≠ .string) :
      data.kind.grammar text start = some data :=
    grammar_of_dataBy isData other
  cases found : (classify text start).data with
  | float number =>
      have isFloat : floatGrammar text start = some (.float number) :=
        accepted found nofun
      exact readsNumerals_of_float isFloat
  | vec2 horizontal vertical =>
      have isVec2 : vec2Grammar text start =
          some (.vec2 horizontal vertical) := accepted found nofun
      exact readsNumerals_of_vec2 isVec2
  | gradient gradient =>
      have isGradient : gradientGrammar text start =
          some (.gradient gradient) := accepted found nofun
      exact readsNumerals_of_gradient isGradient
  | _ =>
      constructor
      · intro numeral has
        cases has
      · intro number member
        exact absurd member List.not_mem_nil

theorem isFinite_of_readsNumerals {data : ValueData}
    (reads : data.ReadsNumerals text) :
    data.IsFinite ↔ ∀ numeral, HasNumeral text data.kind numeral →
      ¬ numeral.Overflows .single := by
  have finite_iff (numeral : Decimal) :
      (Decimal.toBinary .single numeral).isFinite = true ↔
        ¬ numeral.Overflows .single :=
    Decimal.toBinary_isFinite_iff (by decide) (by decide) numeral
  constructor
  · intro finite numeral has
    exact (finite_iff numeral).mp (finite _ (reads.each numeral has))
  · intro within number member
    rcases reads.only number member with rfl | ⟨numeral, has, rfl⟩
    · rfl
    · exact (finite_iff numeral).mpr (within numeral has)

theorem classify_isFinite_iff :
    (classify text start).data.IsFinite ↔
      ∀ numeral, HasNumeral text (classify text start).kind numeral →
        ¬ numeral.Overflows .single :=
  isFinite_of_readsNumerals (readsNumerals_classify text start)

theorem ne_nan_of_readsNumerals {data : ValueData}
    (reads : data.ReadsNumerals text) :
    ∀ number ∈ data.numbers, number ≠ .nan := by
  intro number member
  rcases reads.only number member with rfl | ⟨numeral, _, rfl⟩
  · exact nofun
  · exact Decimal.toBinary_ne_nan .single numeral

/-- An integer that was read has 64 bits, which is far from the bound. -/
theorem ofInt_isFinite_of_classify {number : Int}
    (isInteger : (classify text start).data = .integer number) :
    (Binary.ofInt .single number).isFinite = true := by
  have accepted : integerGrammar text start = some (.integer number) :=
    grammar_of_dataBy isInteger nofun
  obtain ⟨_, read, same⟩ := Option.map_eq_some_iff.mp accepted
  cases same
  obtain ⟨_, _, _, bounds⟩ := Decimal.digits_of_parseInteger? read
  have small : number.natAbs < 2 ^ 64 := by
    simp only [integerBounds] at bounds
    omega
  exact Binary.ofInt_isFinite (by decide) (by decide) small (by decide)

/-- Re-reading keeps a value finite, and keeps it from being so unless its text is
taken instead. -/
theorem coerce_isFinite_iff {declared : ValueKind} {raw : String}
    {result : Value}
    (coerced : (classify text start).coerce declared raw = some result) :
    result.data.IsFinite ↔
      (classify text start).data.IsFinite ∨ declared = .string := by
  obtain ⟨data, isData, rfl⟩ := Option.map_eq_some_iff.mp coerced
  obtain ⟨_, kind, rereads⟩ := coerceData_eq_some_iff.mp isData
  have finite_of {found : ValueData}
      (isFound : (classify text start).data = found)
      (noNumbers : found.numbers = []) :
      (classify text start).data.IsFinite ∨ declared = .string := by
    rw [isFound]
    exact Or.inl (ValueData.isFinite_of_numbers noNumbers)
  cases rereads with
  | same =>
      refine ⟨Or.inl, ?_⟩
      rintro (finite | rfl)
      · exact finite
      · have isString : (classify text start).data =
            .string (String.ofList text) := dataBy_of_string kind
        dsimp only
        rw [isString]
        exact ValueData.isFinite_of_numbers rfl
  | text =>
      exact iff_of_true (ValueData.isFinite_of_numbers rfl) (Or.inr kind.symm)
  | wholeDigit isBool =>
      exact iff_of_true (ValueData.isFinite_of_numbers rfl)
        (finite_of isBool rfl)
  | @digit truth isBool =>
      have finite : (Binary.ofInt .single (if truth then 1 else 0)).isFinite =
          true := by
        cases truth <;> decide
      exact iff_of_true ((ValueData.isFinite_iff_of_single rfl).mpr finite)
        (finite_of isBool rfl)
  | whole isInteger =>
      have finite := ofInt_isFinite_of_classify isInteger
      exact iff_of_true ((ValueData.isFinite_iff_of_single rfl).mpr finite)
        (finite_of isInteger rfl)
  | stop isColor =>
      exact iff_of_true ((ValueData.isFinite_iff_of_single rfl).mpr rfl)
        (finite_of isColor rfl)

end Value

namespace Json

section Letters

variable {format : BinaryFormat} {digits : List Char}

theorem n_not_mem_toDigits (value : Nat) : 'n' ∉ Nat.toDigits 10 value := by
  intro member
  have digit := Nat.isDigit_of_mem_toDigits (by decide) (by decide) member
  exact absurd digit (by decide)

theorem n_not_mem_plain (lacks : 'n' ∉ digits) (whole : Int) :
    'n' ∉ Number.plain digits whole := by
  have front : 'n' ∉ digits.take whole.toNat :=
    fun member => lacks (List.mem_of_mem_take member)
  have back : 'n' ∉ digits.drop whole.toNat :=
    fun member => lacks (List.mem_of_mem_drop member)
  rw [Number.plain]
  split
  · simp [lacks]
  · split
    · simp [lacks]
    · simp [front, back]

theorem n_not_mem_scientific (lacks : 'n' ∉ digits) (exponent : Int) :
    'n' ∉ Number.scientific digits exponent := by
  have front : 'n' ∉ digits.take 1 :=
    fun member => lacks (List.mem_of_mem_take member)
  have back : 'n' ∉ digits.tail :=
    fun member => lacks (List.mem_of_mem_tail member)
  have power := n_not_mem_toDigits exponent.natAbs
  rw [Number.scientific]
  split <;> split <;> simp [lacks, front, back, power]

/-- A finite number is written without the letters of null. -/
theorem n_not_mem_numeral (negative : Bool) (significand : Nat)
    (exponent : Int) :
    'n' ∉ (numeral
      (.finite negative significand exponent : Binary format)).toList := by
  have sign : 'n' ∉ (if negative then ['-'] else []) := by
    cases negative <;> decide
  have places : 'n' ∉
      (Binary.shortestPlaces format significand exponent).1 :=
    n_not_mem_toDigits _
  rw [numeral]
  dsimp only
  split
  · simp [sign]
  · simp only [String.toList_ofList, List.mem_append, not_or]
    refine ⟨sign, ?_⟩
    split
    · exact n_not_mem_scientific places _
    · split
      · simp [n_not_mem_plain places]
      · exact n_not_mem_plain places _

end Letters

theorem numeral_eq_null_iff {format : BinaryFormat} (number : Binary format) :
    numeral number = "null" ↔ number.isFinite = false := by
  cases number with
  | finite negative significand exponent =>
      refine iff_of_false ?_ nofun
      intro isNull
      have lacks := @n_not_mem_numeral format negative significand exponent
      rw [isNull] at lacks
      exact lacks (by decide)
  | infinite negative => exact iff_of_true rfl rfl
  | nan => exact iff_of_true rfl rfl

end Json

end CompositorConf
