import CompositorConf.Proofs.Text.Hex
import CompositorConf.Proofs.Text.Utf8
import CompositorConf.Text.Percent

namespace CompositorConf.Text.Percent

def code (character : Char) : UInt8 :=
  UInt8.ofNat character.toNat

/-- Bytes and a way to write them: each as itself, unless it is a percent sign, or
as a percent sign and two digits of either case. -/
inductive Writes : List UInt8 → List UInt8 → Prop
  | nil : Writes [] []
  | plain {byte : UInt8} {bytes spelled : List UInt8} :
      byte ≠ sign → Writes bytes spelled →
      Writes (byte :: bytes) (byte :: spelled)
  | escape {byte : UInt8} {high low : Char} {bytes spelled : List UInt8} :
      WritesBytes [high, low] [byte] → Writes bytes spelled →
      Writes (byte :: bytes) (sign :: code high :: code low :: spelled)

/-- A text that begins with two digits. -/
def BeginsWithDigits : List Char → Prop
  | high :: low :: _ => IsHexDigit high ∧ IsHexDigit low
  | _ => False

instance : DecidablePred BeginsWithDigits
  | high :: low :: _ =>
      inferInstanceAs (Decidable (IsHexDigit high ∧ IsHexDigit low))
  | [] | [_] => inferInstanceAs (Decidable False)

/-- A text in which every percent sign begins an escape. -/
def NoStray (text : List Char) : Prop :=
  ∀ before after, text = before ++ '%' :: after → BeginsWithDigits after

/-- A byte that begins no escape in front of others. -/
def NoEscape (first : UInt8) (rest : List UInt8) : Prop :=
  ∀ high low more, rest = high :: low :: more → escape? first high low = none

section Bytes

variable {first high low byte mark : UInt8} {bytes spelled rest after : List UInt8}

theorem writesBytes_single_iff {high low : Char} :
    WritesBytes [high, low] [byte] ↔ hexByte? high low = some byte := by
  simp [writesBytes_cons_iff, writesBytes_nil_iff]

theorem ofNat_code {character : Char} (ascii : character.toNat < 0x80) :
    Char.ofNat (code character).toNat = character := by
  rw [code, UInt8.toNat_ofNat', Nat.mod_eq_of_lt (by omega), Char.ofNat_toNat]

theorem escaped?_code {high low : Char} (isHigh : IsHexDigit high)
    (isLow : IsHexDigit low) :
    escaped? (code high) (code low) = hexByte? high low := by
  rw [escaped?, ofNat_code (toNat_lt_of_isHexDigit isHigh),
    ofNat_code (toNat_lt_of_isHexDigit isLow)]

theorem decodeBytes_escape {high low : Char}
    (isByte : hexByte? high low = some byte) (rest : List UInt8) :
    decodeBytes (sign :: code high :: code low :: rest) =
      byte :: decodeBytes rest := by
  obtain ⟨isHigh, isLow⟩ := exists_hexByte?_iff.mp ⟨byte, isByte⟩
  rw [decodeBytes, escape?, if_pos rfl, escaped?_code isHigh isLow, isByte]

theorem decodeBytes_cons (noEscape : NoEscape first rest) :
    decodeBytes (first :: rest) = first :: decodeBytes rest := by
  rcases rest with _ | ⟨high, _ | ⟨low, more⟩⟩
  · rfl
  · rfl
  · rw [decodeBytes, noEscape high low more rfl]

theorem noEscape_of_ne (plain : first ≠ sign) (rest : List UInt8) :
    NoEscape first rest :=
  fun _ _ _ _ => if_neg plain

/-- What is written in escapes is read back. -/
theorem decodeBytes_of_writes (writes : Writes bytes spelled) :
    decodeBytes spelled = bytes := by
  induction writes with
  | nil => rfl
  | plain different _ inductionHypothesis =>
      rw [decodeBytes_cons (noEscape_of_ne different _), inductionHypothesis]
  | escape digits _ inductionHypothesis =>
      rw [decodeBytes_escape (writesBytes_single_iff.mp digits),
        inductionHypothesis]

theorem escape?_eq_none (noDigits : ¬ (IsHexDigit (Char.ofNat high.toNat) ∧
      IsHexDigit (Char.ofNat low.toNat))) (first : UInt8) :
    escape? first high low = none := by
  rw [← exists_hexByte?_iff, ← Option.isSome_iff_exists,
    Option.not_isSome_iff_eq_none] at noDigits
  rw [escape?, escaped?, noDigits, ite_self]

/-- An input is cut by a byte that is no digit and begins no escape. -/
theorem decodeBytes_append_cons (noDigit : ¬ IsHexDigit (Char.ofNat mark.toNat))
    (noEscape : NoEscape mark after) (before : List UInt8) :
    decodeBytes (before ++ mark :: after) =
      decodeBytes before ++ mark :: decodeBytes after := by
  induction before using decodeBytes.induct with
  | case1 first high low rest value isEscape inductionHypothesis =>
      rw [List.cons_append, List.cons_append, List.cons_append, decodeBytes,
        decodeBytes, isEscape]
      dsimp only
      rw [inductionHypothesis, List.cons_append]
  | case2 first high low rest isEscape inductionHypothesis =>
      rw [List.cons_append, List.cons_append, List.cons_append, decodeBytes,
        decodeBytes, isEscape]
      dsimp only
      rw [← List.cons_append, ← List.cons_append, inductionHypothesis,
        List.cons_append]
  | case3 before short =>
      -- The byte would be the first or the second digit of an escape that begins
      -- before it.
      have atHigh (first : UInt8) : NoEscape first (mark :: after) := by
        rintro high low more split
        obtain ⟨rfl, _⟩ := List.cons.inj split
        exact escape?_eq_none (fun digits => noDigit digits.1) first
      have atLow (first high : UInt8) : NoEscape first (high :: mark :: after) := by
        rintro other low more split
        obtain ⟨_, rest⟩ := List.cons.inj split
        obtain ⟨rfl, _⟩ := List.cons.inj rest
        exact escape?_eq_none (fun digits => noDigit digits.2) first
      rcases before with _ | ⟨first, _ | ⟨high, _ | ⟨low, rest⟩⟩⟩
      · exact decodeBytes_cons noEscape
      · change decodeBytes (first :: mark :: after) =
          first :: mark :: decodeBytes after
        rw [decodeBytes_cons (atHigh first), decodeBytes_cons noEscape]
      · change decodeBytes (first :: high :: mark :: after) =
          first :: high :: mark :: decodeBytes after
        rw [decodeBytes_cons (atLow first high), decodeBytes_cons (atHigh high),
          decodeBytes_cons noEscape]
      · exact absurd rfl (short first high low rest)

end Bytes

section Texts

variable {mark : Char} {text before after : List Char}

theorem noEscape_encode (noDigits : ¬ BeginsWithDigits text) (first : UInt8) :
    NoEscape first (Utf8.encode text) := by
  rintro high low more encoded
  apply escape?_eq_none
  rintro ⟨isHigh, isLow⟩
  have small (byte : UInt8) (digit : IsHexDigit (Char.ofNat byte.toNat)) :
      byte.toNat < 0x80 := by
    have bound := toNat_lt_of_isHexDigit digit
    have width : byte.toNat < 0x100 := byte.toNat_lt
    rwa [Utf8.toNat_ofNat (.inl (by omega))] at bound
  obtain ⟨rest, rfl, isRest⟩ :=
    Utf8.exists_of_encode_ascii (small high isHigh) encoded
  obtain ⟨rest, rfl, _⟩ := Utf8.exists_of_encode_ascii (small low isLow) isRest
  exact noDigits ⟨isHigh, isLow⟩

/-- A text is cut by an ASCII character that is no digit and begins no escape. -/
theorem decode_append_cons (ascii : mark.toNat < 0x80)
    (noDigit : ¬ IsHexDigit mark)
    (noEscape : mark = '%' → ¬ BeginsWithDigits after) (before : List Char) :
    decode (before ++ mark :: after) = decode before ++ mark :: decode after := by
  have isMark : Char.ofNat (code mark).toNat = mark := ofNat_code ascii
  have isStray : NoEscape (code mark) (Utf8.encode after) := by
    by_cases isSign : mark = '%'
    · exact noEscape_encode (noEscape isSign) (code mark)
    · apply noEscape_of_ne
      intro same
      rw [same] at isMark
      exact isSign isMark.symm
  rw [decode, Utf8.encode_append_ascii ascii, ← code,
    decodeBytes_append_cons (by rwa [isMark]) isStray, code,
    Utf8.decodeLossy_append_ascii ascii, ← decode, ← decode]

theorem decodeBytes_eq_nil_iff {bytes : List UInt8} :
    decodeBytes bytes = [] ↔ bytes = [] := by
  fun_cases decodeBytes bytes <;> simp_all

/-- Every character is read as something. -/
theorem decode_eq_nil_iff : decode text = [] ↔ text = [] := by
  rw [decode, Utf8.decodeLossy_eq_nil_iff, decodeBytes_eq_nil_iff]
  cases text with
  | nil => exact iff_of_true rfl rfl
  | cons character rest =>
      obtain ⟨lead, tail, encoded⟩ := Utf8.exists_encodeChar character
      rw [Utf8.encode, List.flatMap_cons, encoded]
      exact iff_of_false (List.cons_ne_nil _ _) (List.cons_ne_nil _ _)

theorem ne_sign_of_mem_encodeChar {character : Char}
    (different : character ≠ '%') :
    ∀ byte ∈ String.utf8EncodeChar character, byte ≠ sign := by
  obtain ⟨lead, tail, encoded⟩ := Utf8.exists_encodeChar character
  obtain ⟨⟨bounds, isBounds, fits⟩, _⟩ := Utf8.fits_of_encodeChar encoded
  rw [encoded, List.forall_mem_cons]
  constructor
  · rintro rfl
    have alone : Utf8.encode [character] = sign :: tail := by
      rw [Utf8.encode, List.flatMap_singleton, encoded]
    obtain ⟨more, isSign, _⟩ := Utf8.exists_of_encode_ascii (by decide) alone
    exact different (List.cons.inj isSign).1
  · rintro _ member rfl
    have continuing := (Utf8.sequence_of_fits isBounds fits).le sign member
    exact absurd continuing (by decide)

theorem writes_of_plain {bytes : List UInt8}
    (plain : ∀ byte ∈ bytes, byte ≠ sign) : Writes bytes bytes := by
  induction bytes with
  | nil => exact .nil
  | cons byte rest inductionHypothesis =>
      obtain ⟨isPlain, later⟩ := List.forall_mem_cons.mp plain
      exact .plain isPlain (inductionHypothesis later)

theorem Writes.append {bytes spelled moreBytes moreSpelled : List UInt8}
    (writes : Writes bytes spelled) (later : Writes moreBytes moreSpelled) :
    Writes (bytes ++ moreBytes) (spelled ++ moreSpelled) := by
  induction writes with
  | nil => exact later
  | plain different _ inductionHypothesis =>
      exact .plain different inductionHypothesis
  | escape digits _ inductionHypothesis =>
      exact .escape digits inductionHypothesis

theorem NoStray.of_append {front more : List Char}
    (noStray : NoStray (front ++ more)) : NoStray more := by
  rintro before after rfl
  exact noStray (front ++ before) after (List.append_assoc ..).symm

theorem encode_cons (ascii : mark.toNat < 0x80) (text : List Char) :
    Utf8.encode (mark :: text) = code mark :: Utf8.encode text :=
  Utf8.encode_append_ascii ascii [] text

/-- Such a text begins with an escape or with a character that is no percent
sign. -/
theorem NoStray.exists_front {character : Char} {rest : List Char}
    (noStray : NoStray (character :: rest)) :
    ∃ front more bytes, character :: rest = front ++ more ∧ front ≠ [] ∧
      Writes bytes (Utf8.encode front) := by
  by_cases isSign : character = '%'
  · have digits : BeginsWithDigits rest := noStray [] rest (by rw [isSign]; rfl)
    rcases rest with _ | ⟨high, _ | ⟨low, more⟩⟩
    · cases digits
    · cases digits
    · obtain ⟨byte, isByte⟩ := exists_hexByte?_iff.mpr digits
      refine ⟨[character, high, low], more, [byte], rfl, List.cons_ne_nil _ _, ?_⟩
      rw [isSign, encode_cons (by decide),
        encode_cons (toNat_lt_of_isHexDigit digits.1),
        encode_cons (toNat_lt_of_isHexDigit digits.2)]
      exact .escape (writesBytes_single_iff.mpr isByte) .nil
  · refine ⟨[character], rest, _, rfl, List.cons_ne_nil _ _, writes_of_plain ?_⟩
    rw [Utf8.encode, List.flatMap_singleton]
    exact ne_sign_of_mem_encodeChar isSign

/-- A text in which every percent sign begins an escape writes some bytes. -/
theorem exists_writes (text : List Char) (noStray : NoStray text) :
    ∃ bytes, Writes bytes (Utf8.encode text) := by
  cases text with
  | nil => exact ⟨[], .nil⟩
  | cons character rest =>
      obtain ⟨front, more, bytes, split, nonempty, writes⟩ :=
        noStray.exists_front
      have shorter : more.length < (character :: rest).length := by
        have positive := List.length_pos_of_ne_nil nonempty
        rw [split, List.length_append]
        omega
      rw [split] at noStray
      obtain ⟨later, writesLater⟩ := exists_writes more noStray.of_append
      rw [split, Utf8.encode, List.flatMap_append]
      exact ⟨bytes ++ later, writes.append writesLater⟩
termination_by text.length

end Texts

/-- **Percent escapes are undone.**  A text is read back however its bytes are
written, and other bytes are read with U+FFFD for every fault.  A percent sign that
begins no escape stands for itself, wherever it stands, and cuts its text into two
that are read on their own; a text without such a sign writes some bytes. -/
theorem decode_exactly :
    (∀ text spelled, Writes (Utf8.encode text) (Utf8.encode spelled) →
      decode spelled = text) ∧
    (∀ bytes spelled, Writes bytes (Utf8.encode spelled) →
      Utf8.ReadsLossily bytes (decode spelled)) ∧
    (∀ before after, ¬ BeginsWithDigits after →
      decode (before ++ '%' :: after) = decode before ++ '%' :: decode after) ∧
    ∀ spelled, NoStray spelled → ∃ bytes, Writes bytes (Utf8.encode spelled) := by
  refine ⟨fun text spelled writes => ?_, fun bytes spelled writes => ?_,
    fun before after noDigits => ?_, exists_writes⟩
  · rw [decode, decodeBytes_of_writes writes, Utf8.decodeLossy_encode]
  · rw [decode, decodeBytes_of_writes writes]
    exact Utf8.readsLossily_decodeLossy bytes
  · exact decode_append_cons (by decide) (by decide) (fun _ => noDigits) before

/-- An accented letter in digits of both cases, its first byte alone, and a percent
sign behind it with one digit. -/
theorem accented_letter_is_decoded :
    decode "%c3%A9%25/".toList = "é%/".toList ∧
      Utf8.ReadsLossily [0xC3, code '('] (decode "%C3(".toList) ∧
      decode ("%c3%A9".toList ++ '%' :: "2".toList) =
        decode "%c3%A9".toList ++ '%' :: decode "2".toList ∧
      ∃ bytes, Writes bytes (Utf8.encode ['%', '2', 'F']) := by
  obtain ⟨readBack, readLossily, cut, written⟩ := decode_exactly
  refine ⟨readBack _ _ ?_, readLossily _ _ ?_, cut _ _ (by decide), written _ ?_⟩
  · have bytes : Utf8.encode "é%/".toList = [0xC3, 0xA9, sign, code '/'] := by
      decide +kernel
    have spelled : Utf8.encode "%c3%A9%25/".toList =
        [sign, code 'c', code '3', sign, code 'A', code '9', sign, code '2',
          code '5', code '/'] := by
      decide +kernel
    rw [bytes, spelled]
    exact .escape (by decide) (.escape (by decide) (.escape (by decide)
      (.plain (by decide) .nil)))
  · have spelled : Utf8.encode "%C3(".toList =
        [sign, code 'C', code '3', code '('] := by
      decide +kernel
    rw [spelled]
    exact .escape (by decide) (.plain (by decide) .nil)
  · rintro (_ | ⟨first, before⟩) after split
    · obtain ⟨_, rfl⟩ := List.cons.inj split
      decide
    · have inside : '%' ∈ ['2', 'F'] := by
        rw [(List.cons.inj split).2]
        exact List.mem_append_right before List.mem_cons_self
      exact absurd inside (by decide)

end CompositorConf.Text.Percent
