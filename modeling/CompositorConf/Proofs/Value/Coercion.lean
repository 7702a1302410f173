import CompositorConf.Proofs.Configuration.Decoding
import CompositorConf.Proofs.Value.Overlap
import CompositorConf.Value.Coercion

/-!
# Re-reading undoes precedence

A text is first classified by precedence and then re-read as the kind that is
declared.  Both steps together read it by the grammar of the declared kind alone.

* `ValueKind.declaredGrammar` is that grammar: a single colour counts as a gradient
  with one stop;
* `ValueData.unsignZero` drops the sign of a zero, which does not survive the
  reading as an integer;
* `coerceData_eq_some_iff` says what a value can be re-read as, by `Rereads`;
* `exists_declared_of_rereads` and `exists_rereads_of_declared` are the two
  directions, and `coerce_classify_iff` is the result.
-/

namespace CompositorConf

open Text Grammar

def Gradient.ofSingle (color : Rgba) (span : Span) : Gradient :=
  ⟨[⟨color, span⟩], Binary.zero .single false⟩

/-- What a text is read as where a kind is declared and no other is tried. -/
def ValueKind.declaredGrammar (declared : ValueKind) : Grammar :=
  fun text start =>
    match declared with
    | .gradient =>
        (gradientGrammar text start).or
          ((Rgba.ofLiteral? text).map fun color =>
            .gradient (.ofSingle color (Value.spanOf text start)))
    | other => other.grammar text start

/-- A content in which a negative zero has become a positive one. -/
def ValueData.unsignZero : ValueData → ValueData
  | .float number =>
      .float (if number = Binary.zero .single true then Binary.zero .single false
        else number)
  | other => other

namespace Value

open ValueKind

variable {declared : ValueKind} {value result : Value} {raw : String}
  {start : Position} {data : ValueData}

/-- What a value can be re-read as: itself, its text, and a value of a wider kind
with the same text. -/
inductive Rereads (value : Value) (raw : String) : ValueData → Prop
  | same : Rereads value raw value.data
  | text : value.data.kind ≠ .string → Rereads value raw (.string raw)
  | wholeDigit {truth : Bool} :
      value.data = .bool truth → raw = "0" ∨ raw = "1" →
        Rereads value raw (.integer (if truth then 1 else 0))
  | digit {truth : Bool} :
      value.data = .bool truth → raw = "0" ∨ raw = "1" →
        Rereads value raw
          (.float (Binary.ofInt .single (if truth then 1 else 0)))
  | whole {number : Int} :
      value.data = .integer number →
        Rereads value raw (.float (Binary.ofInt .single number))
  | stop {color : Rgba} :
      value.data = .color color →
        Rereads value raw (.gradient (.ofSingle color value.span))

theorem rereads_of_coerceData
    (coerced : coerceData declared value raw = some data) :
    Rereads value raw data := by
  unfold coerceData at coerced
  split at coerced
  case h_1 | h_15 => cases coerced
  case h_3 notString =>
    cases coerced
    apply Rereads.text
    intro isString
    cases found : value.data with
    | string text => exact notString text found
    | _ =>
        rw [found] at isString
        cases isString
  case h_5 isBool | h_7 isBool =>
    rw [Option.ite_none_right_eq_some] at coerced
    obtain ⟨isDigit, isData⟩ := coerced
    cases isData
    first
      | exact .wholeDigit isBool isDigit
      | exact .digit isBool isDigit
  case h_8 isInteger =>
    cases coerced
    exact .whole isInteger
  case h_10 isColor =>
    cases coerced
    exact .stop isColor
  all_goals
    next content =>
      cases coerced
      rw [← content]
      exact .same

/-- A reference is not re-read as anything. -/
theorem coerceData_of_custom (custom : value.data.kind = .custom) :
    coerceData declared value raw = none := by
  unfold coerceData
  cases found : value.data with
  | custom text => rfl
  | _ =>
      rw [found] at custom
      cases custom

theorem coerceData_of_same (notCustom : value.data.kind ≠ .custom) :
    coerceData value.data.kind value raw = some value.data := by
  unfold coerceData
  cases found : value.data with
  | custom text =>
      rw [found] at notCustom
      exact absurd rfl notCustom
  | _ => rfl

theorem coerceData_of_text (notCustom : value.data.kind ≠ .custom)
    (notString : value.data.kind ≠ .string) :
    coerceData .string value raw = some (.string raw) := by
  unfold coerceData
  cases found : value.data with
  | custom text =>
      rw [found] at notCustom
      exact absurd rfl notCustom
  | string text =>
      rw [found] at notString
      exact absurd rfl notString
  | _ => rfl

/-- Re-reading is decided by the kind that is declared, references apart. -/
theorem coerceData_eq_some_iff :
    coerceData declared value raw = some data ↔
      value.data.kind ≠ .custom ∧ data.kind = declared ∧
        Rereads value raw data := by
  constructor
  · intro coerced
    refine ⟨?_, coerceData_kind coerced, rereads_of_coerceData coerced⟩
    intro custom
    rw [coerceData_of_custom custom] at coerced
    cases coerced
  · intro ⟨notCustom, kind, rereads⟩
    subst kind
    cases rereads with
    | same => exact coerceData_of_same notCustom
    | text notString => exact coerceData_of_text notCustom notString
    | wholeDigit isBool isDigit | digit isBool isDigit =>
        simp only [coerceData, isBool, ValueData.kind, if_pos isDigit]
    | whole isInteger => simp only [coerceData, isInteger, ValueData.kind]
    | stop isColor =>
        simp only [coerceData, isColor, ValueData.kind, Gradient.ofSingle]

/-- The text of a digit is read alike as a word, an integer and a number. -/
theorem numbers_of_digit {truth : Bool}
    (word : boolGrammar raw.toList start = some (.bool truth))
    (digit : raw = "0" ∨ raw = "1") :
    integerGrammar raw.toList start =
        some (.integer (if truth then 1 else 0)) ∧
      floatGrammar raw.toList start =
        some (.float (Binary.ofInt .single (if truth then 1 else 0))) := by
  rcases digit with rfl | rfl
  · have isFalse : boolGrammar "0".toList start = some (.bool false) := rfl
    rw [isFalse] at word
    cases word
    constructor
    · rfl
    · rfl
  · have isTrue : boolGrammar "1".toList start = some (.bool true) := rfl
    rw [isTrue] at word
    cases word
    constructor
    · rfl
    · rfl

/-- The text of an integer is read as the same number, and the number keeps the
sign of a zero. -/
theorem float_of_integer {text : List Char} {number : Int}
    (accepted : integerGrammar text start = some (.integer number)) :
    ∃ decimal, floatGrammar text start = some (.float decimal) ∧
      (ValueData.float (Binary.ofInt .single number)).unsignZero =
        (ValueData.float decimal).unsignZero := by
  obtain ⟨value, read, same⟩ := Option.map_eq_some_iff.mp accepted
  cases same
  obtain ⟨nonempty, allDigits, isValue, bounds⟩ :=
    Decimal.digits_of_parseInteger? read
  have numeral := Decimal.parse?_of_digits nonempty allDigits
  refine ⟨_, by rw [floatGrammar, number?, numeral]; rfl, ?_⟩
  generalize Decimal.digitsValue (Decimal.splitSign text).2 = digits at isValue
  generalize (Decimal.splitSign text).1 = negative at isValue
  by_cases zero : digits = 0
  · have isZero : number = 0 := by
      rw [isValue, zero]
      simp
    rw [isZero, zero]
    cases negative <;> rfl
  · have bounded : digits < 10 ^ BinaryFormat.single.exponentCount := by
      have small : digits ≤ 0x8000000000000000 := by
        simp only [integerBounds] at bounds
        split at isValue <;> omega
      exact lt_of_le_of_lt small (by decide)
    rw [Decimal.toBinary_of_integer negative zero bounded, ← isValue]

/-- Of the words for true and false only the digits are numbers. -/
theorem digit_of_word_of_float {text : List Char} {word : ValueData}
    (isWord : boolGrammar text start = some word)
    (accepted : floatGrammar text start = some data) :
    String.ofList text = "0" ∨ String.ofList text = "1" := by
  have words : ∀ word ∈ truthWords, (Decimal.parse? word).isSome = true →
      String.ofList word = "0" ∨ String.ofList word = "1" := by
    decide
  apply words text (mem_truthWords isWord)
  obtain ⟨number, read, _⟩ := Option.map_eq_some_iff.mp accepted
  obtain ⟨numeral, isNumeral, _⟩ := Option.map_eq_some_iff.mp read
  rw [isNumeral]
  rfl

theorem declaredGrammar_of_grammar {text : List Char}
    (accepted : declared.grammar text start = some data) :
    declared.declaredGrammar text start = some data := by
  cases declared with
  | gradient =>
      have gradient : gradientGrammar text start = some data := accepted
      simp only [declaredGrammar, gradient, Option.some_or]
  | _ => exact accepted

/-- A single colour is a gradient of one stop, since it is no gradient of more. -/
theorem declaredGrammar_of_literal {text : List Char} {color : Rgba}
    (literal : Rgba.ofLiteral? text = some color) :
    ValueKind.gradient.declaredGrammar text start =
      some (.gradient (.ofSingle color (spanOf text start))) := by
  have single : gradientGrammar text start = none := by
    by_contra several
    obtain ⟨_, isGradient⟩ := Option.ne_none_iff_exists'.mp several
    rw [ofLiteral?_of_gradient isGradient] at literal
    cases literal
  simp only [declaredGrammar, single, literal, Option.none_or, Option.map_some]

/-- Besides what its own grammar accepts, a kind is declared for single colours
if it is that of gradients. -/
theorem grammar_or_single_of_declaredGrammar {text : List Char}
    (accepted : declared.declaredGrammar text start = some data) :
    declared.grammar text start = some data ∨
      declared = .gradient ∧ ∃ color, Rgba.ofLiteral? text = some color := by
  cases declared with
  | gradient =>
      rcases Option.or_eq_some_iff.mp accepted with gradient | ⟨_, single⟩
      · exact Or.inl gradient
      · obtain ⟨color, literal, _⟩ := Option.map_eq_some_iff.mp single
        exact Or.inr ⟨rfl, color, literal⟩
  | _ => exact Or.inl accepted

/-- What no grammar accepts is its own text. -/
theorem dataBy_of_string {text : List Char}
    (isString : (dataBy precedence text start).kind = .string) :
    dataBy precedence text start = .string (String.ofList text) := by
  cases found : precedence.findSome? fun kind => kind.grammar text start with
  | none =>
      rw [dataBy, found]
      rfl
  | some data =>
      obtain ⟨kind, member, accepted⟩ := List.exists_of_findSome?_eq_some found
      have noString : ValueKind.string ∉ precedence := by decide
      rw [dataBy, found, Option.getD_some, kind_of_grammar accepted] at isString
      rw [isString] at member
      exact absurd member noString

/-- What a classified text is re-read as is what the declared grammar reads. -/
theorem exists_declared_of_rereads
    (rereads : Rereads (classify raw.toList start) raw data) :
    ∃ read, data.kind.declaredGrammar raw.toList start = some read ∧
      data.unsignZero = read.unsignZero := by
  have accepted {found : ValueData}
      (isFound : (classify raw.toList start).data = found)
      (other : found.kind ≠ .string) :
      found.kind.grammar raw.toList start = some found :=
    grammar_of_dataBy isFound other
  cases rereads with
  | same =>
      refine ⟨_, ?_, rfl⟩
      by_cases isString : (classify raw.toList start).data.kind = .string
      · rw [isString]
        exact congrArg some (dataBy_of_string isString).symm
      · exact declaredGrammar_of_grammar (accepted rfl isString)
  | text =>
      refine ⟨.string raw, ?_, rfl⟩
      exact congrArg (fun text => some (ValueData.string text))
        String.ofList_toList
  | @wholeDigit truth isBool digit =>
      have word : boolGrammar raw.toList start = some (.bool truth) :=
        accepted isBool nofun
      exact ⟨_, (numbers_of_digit word digit).1, rfl⟩
  | @digit truth isBool digit =>
      have word : boolGrammar raw.toList start = some (.bool truth) :=
        accepted isBool nofun
      exact ⟨_, (numbers_of_digit word digit).2, rfl⟩
  | @whole number isInteger =>
      have integer : integerGrammar raw.toList start = some (.integer number) :=
        accepted isInteger nofun
      obtain ⟨decimal, isFloat, same⟩ := float_of_integer integer
      exact ⟨_, isFloat, same⟩
  | @stop color isColor =>
      obtain ⟨_, literal, same⟩ :=
        Option.map_eq_some_iff.mp (accepted isColor nofun)
      cases same
      exact ⟨_, declaredGrammar_of_literal literal, rfl⟩

theorem eq_bool_of_kind (isBool : data.kind = .bool) :
    ∃ truth, data = .bool truth := by
  cases data with
  | bool truth => exact ⟨truth, rfl⟩
  | _ => cases isBool

theorem eq_integer_of_kind (isInteger : data.kind = .integer) :
    ∃ number, data = .integer number := by
  cases data with
  | integer number => exact ⟨number, rfl⟩
  | _ => cases isInteger

/-- A text that was classified by an overlapping kind can be re-read. -/
theorem exists_rereads_of_overlap (plain : '$' ∉ raw.toList)
    (accepted : declared.grammar raw.toList start = some data)
    (overlap :
      ((classify raw.toList start).data.kind, declared) ∈ overlaps) :
    ∃ reread, reread.kind = declared ∧
      Rereads (classify raw.toList start) raw reread := by
  have read : (classify raw.toList start).data.kind.grammar raw.toList start =
      some (classify raw.toList start).data :=
    grammar_of_dataBy rfl (kind_ne_string_of_overlap overlap)
  have isDigit {word number : ValueData}
      (isWord : boolGrammar raw.toList start = some word)
      (isNumber : floatGrammar raw.toList start = some number) :
      raw = "0" ∨ raw = "1" := by
    have digit := digit_of_word_of_float isWord isNumber
    rw [String.ofList_toList] at digit
    exact digit
  simp only [overlaps, List.mem_cons, List.not_mem_nil, or_false,
    Prod.mk.injEq] at overlap
  rcases overlap with
    ⟨kind, rfl⟩ | ⟨kind, rfl⟩ | ⟨kind, rfl⟩ | ⟨kind, rfl⟩
  · exact absurd (classify_kind_eq_custom_iff.mp kind) plain
  · obtain ⟨truth, isBool⟩ := eq_bool_of_kind kind
    rw [kind] at read
    obtain ⟨number, _, same⟩ := Option.map_eq_some_iff.mp accepted
    subst same
    obtain ⟨_, isFloat, _⟩ := float_of_integer accepted
    exact ⟨_, rfl, .wholeDigit isBool (isDigit read isFloat)⟩
  · obtain ⟨truth, isBool⟩ := eq_bool_of_kind kind
    rw [kind] at read
    exact ⟨_, rfl, .digit isBool (isDigit read accepted)⟩
  · obtain ⟨number, isInteger⟩ := eq_integer_of_kind kind
    exact ⟨_, rfl, .whole isInteger⟩

/-- A text that the declared grammar accepts can be re-read from what it was
classified as. -/
theorem exists_rereads_of_declared (plain : '$' ∉ raw.toList)
    (notCustom : declared ≠ .custom)
    (accepted : declared.declaredGrammar raw.toList start = some data) :
    ∃ reread, reread.kind = declared ∧
      Rereads (classify raw.toList start) raw reread := by
  have classified {kind : ValueKind} {found : ValueData}
      (tried : kind ∈ precedence)
      (isFound : kind.grammar raw.toList start = some found) :
      (classify raw.toList start).data = found ∨
        ((classify raw.toList start).data.kind, kind) ∈ overlaps :=
    dataBy_eq_or_overlap (fun _ member => member) precedence_keepsOverlaps
      tried isFound
  rcases grammar_or_single_of_declaredGrammar accepted with
    isRead | ⟨rfl, color, literal⟩
  · by_cases isString : declared = .string
    · subst isString
      by_cases same : (classify raw.toList start).data.kind = .string
      · exact ⟨_, same, .same⟩
      · exact ⟨.string raw, rfl, .text same⟩
    · have tried : declared ∈ precedence := by
        revert isString notCustom
        cases declared <;> decide
      rcases classified tried isRead with same | overlap
      · refine ⟨_, ?_, .same⟩
        rw [same]
        exact kind_of_grammar isRead
      · exact exists_rereads_of_overlap plain isRead overlap
  · have isColor : ValueKind.color.grammar raw.toList start =
        some (.color color) := by
      simp only [ValueKind.grammar, colorGrammar, literal, Option.map_some]
    rcases classified (by decide) isColor with same | overlap
    · exact ⟨_, rfl, .stop same⟩
    · have alone : ∀ pair ∈ overlaps, pair.2 ≠ .color := by decide
      exact absurd rfl (alone _ overlap)

/-- Classifying a text without a reference and re-reading it as the declared kind
is reading it by the declared grammar: one succeeds if and only if the other does,
with the same content up to the sign of a zero, on the span of the text.  A text
with a reference is not re-read as anything. -/
theorem coerce_classify_iff (declared : ValueKind) (raw : String)
    (start : Position) :
    ('$' ∈ raw.toList →
      (classify raw.toList start).coerce declared raw = none) ∧
    ('$' ∉ raw.toList → declared ≠ .custom →
      (((classify raw.toList start).coerce declared raw).isSome = true ↔
        (declared.declaredGrammar raw.toList start).isSome = true) ∧
      ∀ result, (classify raw.toList start).coerce declared raw = some result →
        result.kind = declared ∧
          result.span = (classify raw.toList start).span ∧
          ∃ data, declared.declaredGrammar raw.toList start = some data ∧
            result.data.unsignZero = data.unsignZero) := by
  constructor
  · intro reference
    have isCustom : (classify raw.toList start).data.kind = .custom :=
      classify_kind_eq_custom_iff.mpr reference
    rw [coerce, coerceData_of_custom isCustom]
    rfl
  · intro plain notCustom
    have payload {result : Value}
        (coerced : (classify raw.toList start).coerce declared raw =
          some result) :
        ∃ data, declared.declaredGrammar raw.toList start = some data ∧
          result.data.unsignZero = data.unsignZero := by
      obtain ⟨data, isData, rfl⟩ := Option.map_eq_some_iff.mp coerced
      obtain ⟨_, rfl, rereads⟩ := coerceData_eq_some_iff.mp isData
      exact exists_declared_of_rereads rereads
    constructor
    · constructor
      · intro coerced
        obtain ⟨result, isResult⟩ := Option.isSome_iff_exists.mp coerced
        obtain ⟨data, accepted, _⟩ := payload isResult
        rw [accepted]
        rfl
      · intro accepted
        obtain ⟨data, isRead⟩ := Option.isSome_iff_exists.mp accepted
        obtain ⟨reread, kind, rereads⟩ :=
          exists_rereads_of_declared plain notCustom isRead
        have noReference : (classify raw.toList start).data.kind ≠ .custom :=
          mt classify_kind_eq_custom_iff.mp plain
        have coerced :=
          coerceData_eq_some_iff.mpr ⟨noReference, kind, rereads⟩
        rw [coerce, coerced]
        rfl
    · intro result coerced
      exact ⟨coerce_kind coerced, coerce_span coerced, payload coerced⟩

/-- A negative zero is classified as an integer and can be re-read as a number,
and a reference not even as a string. -/
theorem coerce_negative_zero :
    (∃ result data,
      (classify "-0".toList ⟨0, 0⟩).coerce .float "-0" = some result ∧
        ValueKind.float.declaredGrammar "-0".toList ⟨0, 0⟩ = some data ∧
          result.data.unsignZero = data.unsignZero) ∧
      (classify "$gap".toList ⟨0, 0⟩).coerce .string "$gap" = none := by
  constructor
  · obtain ⟨_, agrees⟩ := coerce_classify_iff .float "-0" ⟨0, 0⟩
    obtain ⟨accepted, payload⟩ := agrees (by decide) (by decide)
    obtain ⟨result, coerced⟩ :=
      Option.isSome_iff_exists.mp (accepted.mpr (by decide))
    obtain ⟨_, _, data, isRead, same⟩ := payload result coerced
    exact ⟨result, data, coerced, isRead, same⟩
  · exact (coerce_classify_iff .string "$gap" ⟨0, 0⟩).1 (by decide)

end Value

end CompositorConf
