import ClojureBuild.Proofs.Json.Grammar

/-!
# Reading what the grammar spells

Every text that is JSON for a value is read as this value, however it is written.  So no text is
JSON for two values.
-/

namespace ClojureBuild.Json

/-! ## Blanks -/

theorem Blank.nil : Blank [] :=
  nofun

theorem skipSpaces_append {before rest : List Char} (blank : Blank before) :
    skipSpaces (before ++ rest) = skipSpaces rest :=
  List.dropWhile_append_of_pos blank

theorem skipSpaces_cons {first : Char} {rest : List Char} (solid : isSpace first = false) :
    skipSpaces (first :: rest) = first :: rest := by
  rw [skipSpaces, List.dropWhile_cons_of_neg (by simp [solid])]

/-- Blanks before a letter that is none are passed over. -/
theorem skipSpaces_append_cons {before : List Char} {first : Char} (blank : Blank before)
    (solid : isSpace first = false) (rest : List Char) :
    skipSpaces (before ++ first :: rest) = first :: rest := by
  rw [skipSpaces_append blank, skipSpaces_cons solid]

/-! ## Quoted texts -/

theorem hexQuad?_of_spellsUnit {digits : List Char} {unit : Nat}
    (spelled : SpellsUnit digits unit) :
    ∃ first second third fourth,
      digits = [first, second, third, fourth] ∧
        hexQuad? first second third fourth = some unit := by
  match digits, spelled.four with
  | [first, second, third, fourth], _ =>
      refine ⟨first, second, third, fourth, rfl, ?_⟩
      simp only [hexQuad?]
      rw [if_pos spelled.hexadecimal, spelled.value]

theorem not_surrogate (letter : Char) : ¬ (0xD800 ≤ letter.toNat ∧ letter.toNat ≤ 0xDFFF) := by
  have valid : letter.toNat.isValidChar := letter.valid
  unfold Nat.isValidChar at valid
  omega

theorem plainUnit?_toNat (letter : Char) : plainUnit? letter.toNat = some letter := by
  have plain := not_surrogate letter
  rw [plainUnit?, if_neg (by simpa using plain), Char.ofNat_toNat]

theorem plainEscape?_of_mem {mark letter : Char} (known : (mark, letter) ∈ namedEscapes) :
    mark ≠ 'u' ∧ plainEscape? mark = some letter := by
  simp only [namedEscapes, List.mem_cons, List.not_mem_nil, or_false, Prod.mk.injEq] at known
  rcases known with ⟨rfl, rfl⟩ | ⟨rfl, rfl⟩ | ⟨rfl, rfl⟩ | ⟨rfl, rfl⟩ | ⟨rfl, rfl⟩ |
    ⟨rfl, rfl⟩ | ⟨rfl, rfl⟩ | ⟨rfl, rfl⟩ <;> decide

/-- The letters of one character are read before the rest. -/
theorem readQuoted_of_spellsChar {first rest text left : List Char} {letter : Char}
    (spelled : SpellsChar first letter) (read : readQuoted rest = some (text, left)) :
    readQuoted (first ++ rest) = some (letter :: text, left) := by
  cases spelled with
  | plain printable noQuote noBackslash =>
      have notLow : ¬ letter.toNat < 0x20 := by omega
      rw [List.singleton_append, readQuoted.eq_5 letter rest noQuote
        (fun _ _ _ _ _ same _ => noBackslash same) (fun _ _ same _ => noBackslash same)]
      simp [notLow, noBackslash, read]
  | named known =>
      obtain ⟨noNumber, meant⟩ := plainEscape?_of_mem known
      rw [List.cons_append, List.singleton_append, readQuoted.eq_4 _ rest
        (fun _ _ _ _ _ same _ => noNumber same), meant]
      simp [read]
  | numbered unit =>
      obtain ⟨a, b, c, d, rfl, number⟩ := hexQuad?_of_spellsUnit unit
      simp [readQuoted, number, plainUnit?_toNat, read]
  | @paired _ _ highUnit lowUnit _ firstUnit secondUnit isHigh isLow number =>
      obtain ⟨a, b, c, d, rfl, high⟩ := hexQuad?_of_spellsUnit firstUnit
      obtain ⟨e, f, g, h, rfl, low⟩ := hexQuad?_of_spellsUnit secondUnit
      have noPlain : plainUnit? highUnit = none := by
        rw [plainUnit?, if_pos (by simp; omega)]
      have meant : surrogatePair? highUnit lowUnit = some letter := by
        rw [surrogatePair?, if_pos (by simp; omega), ← number, Char.ofNat_toNat]
      simp [readQuoted, high, low, noPlain, meant, read]

theorem readQuoted_of_spellsText {letters text : List Char}
    (spelled : SpellsText letters text) (rest : List Char) :
    readQuoted (letters ++ '"' :: rest) = some (text, rest) := by
  induction spelled with
  | nil => rfl
  | cons spelledFirst _ inductionHypothesis =>
      rw [List.append_assoc]
      exact readQuoted_of_spellsChar spelledFirst inductionHypothesis

/-! ## Numbers -/

/-- No letter that could continue digits comes first. -/
def NoDigitFirst (letters : List Char) : Prop :=
  ∀ letter ∈ letters.head?, letter.isDigit = false

theorem takeWhile_digits {digits rest : List Char} (isDigits : Digits digits)
    (stops : NoDigitFirst rest) :
    (digits ++ rest).takeWhile Char.isDigit = digits ∧
      (digits ++ rest).dropWhile Char.isDigit = rest := by
  rw [List.takeWhile_append_of_pos isDigits.decimal, List.dropWhile_append_of_pos isDigits.decimal]
  cases rest with
  | nil => simp
  | cons first others =>
      have noDigit : first.isDigit = false := stops first rfl
      simp [noDigit]

/-- Digits do not start with anything else. -/
theorem Digits.append_ne_cons {digits rest later : List Char} {mark : Char}
    (isDigits : Digits digits) (noDigit : mark.isDigit = false) :
    digits ++ rest ≠ mark :: later := by
  intro same
  cases digits with
  | nil => exact isDigits.nonempty rfl
  | cons first others =>
      have isDigit := isDigits.decimal first List.mem_cons_self
      rw [(List.cons.inj same).1, noDigit] at isDigit
      exact Bool.noConfusion isDigit

theorem readWhole_append {whole rest : List Char} (isWhole : Whole whole)
    (stops : NoDigitFirst rest) :
    readWhole (whole ++ rest) = some (whole, rest) := by
  obtain ⟨taken, left⟩ := takeWhile_digits isWhole.toDigits stops
  rw [readWhole, taken, left]
  split
  · exact absurd rfl isWhole.nonempty
  · rename_i others
    rw [isWhole.noLeadingZero rfl]
    rfl
  · rfl

/-- No letter that could continue a number comes first. -/
structure EndsNumber (letters : List Char) : Prop where
  digit : NoDigitFirst letters
  noPoint : letters.head? ≠ some '.'
  noMark : ∀ letter ∈ letters.head?, letter ≠ 'e' ∧ letter ≠ 'E'

theorem SpellsExponent.noDigitFirst {letters rest : List Char} {exponent : Option Int}
    (spelled : SpellsExponent letters exponent) (ends : EndsNumber rest) :
    NoDigitFirst (letters ++ rest) ∧ (letters ++ rest).head? ≠ some '.' := by
  cases spelled with
  | absent => exact ⟨ends.digit, ends.noPoint⟩
  | power isMark _ _ =>
      rcases isMark with rfl | rfl <;> simp [NoDigitFirst, Char.isDigit]

theorem readFraction_append {letters rest : List Char} {fraction : Option (List Char)}
    (spelled : SpellsFraction letters fraction) (stops : NoDigitFirst rest)
    (noPoint : rest.head? ≠ some '.') :
    readFraction (letters ++ rest) = some (fraction, rest) := by
  cases spelled with
  | absent =>
      rw [List.nil_append, readFraction.eq_2 rest (by rintro later rfl; exact noPoint rfl)]
  | @digits digits isDigits =>
      obtain ⟨taken, left⟩ := takeWhile_digits isDigits stops
      have nonempty : digits.isEmpty = false := by simpa using isDigits.nonempty
      simp only [List.cons_append, readFraction, taken, left, nonempty]
      rfl

theorem readExponent_append {letters rest : List Char} {exponent : Option Int}
    (spelled : SpellsExponent letters exponent) (ends : EndsNumber rest) :
    readExponent (letters ++ rest) = some (exponent, rest) := by
  cases spelled with
  | absent =>
      cases rest with
      | nil => rfl
      | cons first others =>
          have noMark := ends.noMark first rfl
          simp [readExponent, noMark]
  | @power mark sign digits negative isMark signed isDigits =>
      have marked : (mark = 'e' || mark = 'E') = true := by simpa using isMark
      obtain ⟨taken, left⟩ := takeWhile_digits isDigits ends.digit
      have nonempty : digits.isEmpty = false := by simpa using isDigits.nonempty
      simp only [List.cons_append, List.append_assoc, readExponent, marked, if_true]
      cases signed with
      | plus => simp [taken, left, nonempty]
      | minus => simp [taken, left, nonempty]
      | absent =>
          rw [List.nil_append]
          split
          · rename_i same
            exact absurd same (isDigits.append_ne_cons rfl)
          · rename_i same
            exact absurd same (isDigits.append_ne_cons rfl)
          · simp [taken, left, nonempty]

/-- A letter that can start a number. -/
def Numeric (letter : Char) : Prop :=
  letter = '-' ∨ letter.isDigit = true

theorem Numeric.ne {letter mark : Char} (numeric : Numeric letter) (noMinus : mark ≠ '-')
    (noDigit : mark.isDigit = false) : letter ≠ mark := by
  rintro rfl
  rcases numeric with minus | digit
  · exact noMinus minus
  · rw [noDigit] at digit
    exact Bool.noConfusion digit

theorem Numeric.solid {letter : Char} (numeric : Numeric letter) : isSpace letter = false := by
  have others (mark : Char) (noMinus : mark ≠ '-') (noDigit : mark.isDigit = false) :
      letter ≠ mark := numeric.ne noMinus noDigit
  simp [isSpace, others ' ', others '\n', others '\t', others '\r']

/-- A number starts with a minus sign or with a digit. -/
theorem SpellsNumber.exists_first {letters : List Char} {value : Json}
    (spelled : SpellsNumber letters value) :
    ∃ first rest, letters = first :: rest ∧ Numeric first := by
  cases spelled with
  | @parts negative whole _ _ _ _ isWhole _ _ =>
      cases negative with
      | true => exact ⟨'-', _, rfl, .inl rfl⟩
      | false =>
          cases whole with
          | nil => exact absurd rfl isWhole.nonempty
          | cons first others =>
              exact ⟨first, _, rfl, .inr (isWhole.decimal first List.mem_cons_self)⟩

theorem readNumber_append {letters rest : List Char} {value : Json}
    (spelled : SpellsNumber letters value) (ends : EndsNumber rest) :
    readNumber (letters ++ rest) = some (value, rest) := by
  cases spelled with
  | @parts negative whole fractionLetters exponentLetters _ _ isWhole inFraction inExponent =>
      obtain ⟨noDigit, noPoint⟩ := inExponent.noDigitFirst ends
      have wholeStops : NoDigitFirst (fractionLetters ++ (exponentLetters ++ rest)) := by
        cases inFraction with
        | absent => exact noDigit
        | digits _ => simp [NoDigitFirst, Char.isDigit]
      have wholeRead := readWhole_append isWhole wholeStops
      have fractionRead := readFraction_append inFraction noDigit noPoint
      have exponentRead := readExponent_append inExponent ends
      simp only [List.append_assoc]
      cases negative with
      | true =>
          simp [readNumber, minusSign, wholeRead, fractionRead, exponentRead]
      | false =>
          -- `simp` finds this in the context when it passes the case of a minus sign.
          have noMinus (later : List Char) :
              whole ++ (fractionLetters ++ (exponentLetters ++ rest)) ≠ '-' :: later :=
            isWhole.append_ne_cons rfl
          simp [readNumber, minusSign, wholeRead, fractionRead, exponentRead]

/-! ## Lists -/

/-- What may come after a value: nothing, a blank, a comma or a closing mark. -/
def EndsValue (letters : List Char) : Prop :=
  ∀ letter ∈ letters.head?,
    isSpace letter = true ∨ letter = ',' ∨ letter = ']' ∨ letter = '\x7d'

theorem EndsValue.endsNumber {letters : List Char} (ends : EndsValue letters) :
    EndsNumber letters := by
  have excluded (letter : Char) (first : letter ∈ letters.head?) :
      letter.isDigit = false ∧ letter ≠ '.' ∧ letter ≠ 'e' ∧ letter ≠ 'E' := by
    rcases ends letter first with blank | rfl | rfl | rfl
    · simp only [isSpace, Bool.or_eq_true, decide_eq_true_eq, or_assoc] at blank
      rcases blank with rfl | rfl | rfl | rfl <;> decide
    all_goals decide
  exact ⟨fun letter first => (excluded letter first).1,
    fun point => (excluded '.' point).2.1 rfl, fun letter first => (excluded letter first).2.2⟩

theorem EndsValue.after_blanks {after rest : List Char} (blank : Blank after)
    (ends : EndsValue rest) : EndsValue (after ++ rest) := by
  cases after with
  | nil => exact ends
  | cons first others =>
      intro letter isFirst
      rw [List.cons_append, List.head?_cons, Option.mem_some] at isFirst
      exact .inl (blank letter (isFirst ▸ List.mem_cons_self))

/-- Letters that start, after blanks, with something that closes nothing. -/
def Opens (letters : List Char) : Prop :=
  ∃ before first rest, letters = before ++ first :: rest ∧ Blank before ∧
    isSpace first = false ∧ first ≠ ']' ∧ first ≠ '\x7d'

theorem Opens.append {letters : List Char} (opens : Opens letters) (later : List Char) :
    Opens (letters ++ later) := by
  obtain ⟨before, first, rest, rfl, blank, solid⟩ := opens
  exact ⟨before, first, rest ++ later, by simp, blank, solid⟩

theorem Opens.prepend {before letters : List Char} (opens : Opens letters)
    (blank : Blank before) : Opens (before ++ letters) := by
  obtain ⟨between, first, rest, rfl, blankBetween, solid⟩ := opens
  refine ⟨before ++ between, first, rest, by simp, ?_, solid⟩
  intro letter member
  rcases List.mem_append.1 member with early | late
  · exact blank letter early
  · exact blankBetween letter late

/-- A reader takes every item that is spelled with fewer letters than a bound, all but blanks at
its end, wherever the item can end. -/
def Takes {α : Type} (readItem : List Char → Option (α × List Char))
    (Spells : List Char → α → Prop) (bound : Nat) : Prop :=
  ∀ ⦃letters : List Char⦄ ⦃item : α⦄ ⦃rest : List Char⦄, Spells letters item →
    letters.length < bound → EndsValue rest →
      ∃ after, Blank after ∧ readItem (letters ++ rest) = some (item, after ++ rest)

section Lists

variable {α : Type} {readItem : List Char → Option (α × List Char)}
variable {Spells : List Char → α → Prop} {bound : Nat} {closing : Char}

/-- A list is read up to its closing mark, if the fuel exceeds the number of its letters. -/
theorem readItems_of_listed (takes : Takes readItem Spells bound)
    (closes : closing = ']' ∨ closing = '\x7d') {letters : List Char} {items : List α}
    (listed : Listed Spells letters items) (short : letters.length < bound) {fuel : Nat}
    (enough : letters.length < fuel) (rest : List Char) :
    readItems readItem closing fuel (letters ++ closing :: rest) = some (items, rest) := by
  -- Along the list the fuel decreases by one with each item, and the letters by its comma at least.
  induction listed generalizing fuel with
  | last spelled =>
      obtain ⟨left, rfl⟩ := Nat.exists_eq_add_one_of_ne_zero (Nat.ne_zero_of_lt enough)
      have ends : EndsValue (closing :: rest) := by
        rcases closes with rfl | rfl <;> simp [EndsValue]
      obtain ⟨after, blank, read⟩ := takes spelled short ends
      have skipped : skipSpaces (after ++ closing :: rest) = closing :: rest :=
        skipSpaces_append_cons blank (by rcases closes with rfl | rfl <;> rfl) rest
      rcases closes with rfl | rfl <;> simp [readItems, read, skipped]
  | @more letters others item items spelled _ inductionHypothesis =>
      obtain ⟨left, rfl⟩ := Nat.exists_eq_add_one_of_ne_zero (Nat.ne_zero_of_lt enough)
      rw [List.length_append, List.length_cons] at short enough
      have ends : EndsValue (',' :: (others ++ closing :: rest)) := by simp [EndsValue]
      obtain ⟨after, blank, read⟩ := takes spelled (by omega) ends
      have skipped : skipSpaces (after ++ ',' :: (others ++ closing :: rest)) =
          ',' :: (others ++ closing :: rest) := skipSpaces_append_cons blank rfl _
      have later : readItems readItem closing left (others ++ closing :: rest) =
          some (items, rest) := inductionHypothesis (by omega) (by omega)
      simp [readItems, read, skipped, later]

theorem Listed.opens (opens : ∀ ⦃letters item⦄, Spells letters item → Opens letters)
    {letters : List Char} {items : List α} (listed : Listed Spells letters items) :
    Opens letters := by
  cases listed with
  | last spelled => exact opens spelled
  | more spelled _ => exact (opens spelled).append _

theorem readBetween_of_listed (takes : Takes readItem Spells bound)
    (opens : ∀ ⦃letters item⦄, Spells letters item → Opens letters)
    (closes : closing = ']' ∨ closing = '\x7d') {letters : List Char} {items : List α}
    (listed : Listed Spells letters items) (short : letters.length < bound) (rest : List Char) :
    readBetween readItem closing (letters ++ closing :: rest) = some (items, rest) := by
  obtain ⟨before, first, others, startsWith, blank, solid, noBracket, noBrace⟩ :=
    (listed.opens opens).append (closing :: rest)
  have differs : first ≠ closing := by
    rcases closes with rfl | rfl
    · exact noBracket
    · exact noBrace
  rw [readBetween, startsWith, skipSpaces_append_cons blank solid]
  simp only [differs, if_false]
  rw [← startsWith]
  exact readItems_of_listed takes closes listed short (by simp) rest

theorem readBetween_of_blank (readItem : List Char → Option (α × List Char))
    (closes : closing = ']' ∨ closing = '\x7d') {letters : List Char}
    (blank : Blank letters) (rest : List Char) :
    readBetween readItem closing (letters ++ closing :: rest) = some ([], rest) := by
  rw [readBetween, skipSpaces_append_cons blank (by rcases closes with rfl | rfl <;> rfl)]
  simp

end Lists

/-! ## Fields -/

theorem SpellsField.opens {SpellsValue : List Char → Json → Prop} {letters : List Char}
    {field : String × Json} (spelled : SpellsField SpellsValue letters field) :
    Opens letters := by
  cases spelled with
  | named blankBefore _ _ _ => exact ⟨_, '"', _, rfl, blankBefore, by decide⟩

theorem takes_readField {readItem : List Char → Option (Json × List Char)}
    {SpellsValue : List Char → Json → Prop} {bound : Nat}
    (takes : Takes readItem SpellsValue bound) :
    Takes (readField readItem) (SpellsField SpellsValue) bound := by
  intro letters field rest spelled short ends
  cases spelled with
  | @named before quoted name between letters value blankBefore spelledName blankBetween
      spelledValue =>
      simp only [List.length_append, List.length_cons] at short
      obtain ⟨after, blank, read⟩ := takes spelledValue (by omega) ends
      have quoteFound (others : List Char) :
          skipSpaces (before ++ '"' :: others) = '"' :: others :=
        skipSpaces_append_cons blankBefore rfl others
      have colonFound (others : List Char) :
          skipSpaces (between ++ ':' :: others) = ':' :: others :=
        skipSpaces_append_cons blankBetween rfl others
      have nameRead := readQuoted_of_spellsText spelledName
      refine ⟨after, blank, ?_⟩
      simp only [List.append_assoc, List.cons_append, readField, quoteFound]
      simp [nameRead, colonFound, read]

/-! ## Values -/

/-- A letter that can start a number starts no other value. -/
theorem readValue_of_numeric {before rest : List Char} {first : Char} (bound : Nat)
    (blank : Blank before) (numeric : Numeric first) :
    readValue (bound + 1) (before ++ first :: rest) = readNumber (first :: rest) := by
  have others (mark : Char) (noMinus : mark ≠ '-') (noDigit : mark.isDigit = false)
      {later : List Char} : first :: rest ≠ mark :: later :=
    fun same => numeric.ne noMinus noDigit (List.cons.inj same).1
  rw [readValue, skipSpaces_append_cons blank numeric.solid]
  split
  · rename_i same
    exact absurd same (List.cons_ne_nil first rest)
  · rename_i same
    exact absurd same (others '"' (by decide) rfl)
  · rename_i same
    exact absurd same (others '[' (by decide) rfl)
  · rename_i same
    exact absurd same (others '\x7b' (by decide) rfl)
  · rename_i same
    exact absurd same (others 'n' (by decide) rfl)
  · rename_i same
    exact absurd same (others 't' (by decide) rfl)
  · rename_i same
    exact absurd same (others 'f' (by decide) rfl)
  · rfl

theorem Spells.opens {letters : List Char} {value : Json} (spelled : Spells letters value) :
    Opens letters := by
  cases spelled with
  | number spelledNumber =>
      obtain ⟨first, rest, rfl, numeric⟩ := spelledNumber.exists_first
      exact ⟨[], first, rest, rfl, Blank.nil, numeric.solid,
        numeric.ne (by decide) rfl, numeric.ne (by decide) rfl⟩
  | null | yes | no => exact ⟨[], _, _, rfl, Blank.nil, by decide⟩
  | text _ | emptyArray _ | array _ | emptyObject _ | object _ =>
      exact ⟨[], _, _, rfl, Blank.nil, by decide⟩

theorem Padded.opens {letters : List Char} {value : Json}
    (spelled : Padded Spells letters value) : Opens letters := by
  cases spelled with
  | within blankBefore spelledValue _ =>
      exact (spelledValue.opens.append _).prepend blankBefore

/-- A value is read wherever it can end, if the bound on the depth exceeds the number of its
letters. -/
theorem readValue_of_spells {bound : Nat} {before letters rest : List Char} {value : Json}
    (blank : Blank before) (spelled : Spells letters value) (short : letters.length < bound)
    (ends : EndsValue rest) :
    readValue bound (before ++ (letters ++ rest)) = some (value, rest) := by
  -- What an array or an object holds has fewer letters than itself, as it has two marks more.
  induction bound generalizing before letters rest value with
  | zero => exact absurd short (Nat.not_lt_zero _)
  | succ bound inductionHypothesis =>
      have takes : Takes (readValue bound) (Padded Spells) bound := by
        intro letters value rest padded short ends
        cases padded with
        | @within before letters after _ blankBefore spelledValue blankAfter =>
            simp only [List.length_append] at short
            refine ⟨after, blankAfter, ?_⟩
            rw [List.append_assoc, List.append_assoc]
            exact inductionHypothesis blankBefore spelledValue (by omega)
              (ends.after_blanks blankAfter)
      have found (first : Char) (solid : isSpace first = false) (others : List Char) :
          skipSpaces (before ++ first :: others) = first :: others :=
        skipSpaces_append_cons blank solid others
      cases spelled with
      | number spelledNumber =>
          obtain ⟨first, others, startsWith, numeric⟩ := spelledNumber.exists_first
          have read := readNumber_append spelledNumber ends.endsNumber
          rw [startsWith] at read ⊢
          rw [List.cons_append, readValue_of_numeric bound blank numeric]
          exact read
      | null => simp [readValue, found 'n' rfl]
      | yes => simp [readValue, found 't' rfl]
      | no => simp [readValue, found 'f' rfl]
      | text spelledText =>
          have read := readQuoted_of_spellsText spelledText rest
          simp [readValue, found '"' rfl, read]
      | emptyArray blankWithin =>
          have read := readBetween_of_blank (readValue bound) (.inl rfl) blankWithin rest
          simp [readValue, found '[' rfl, read]
      | array listed =>
          simp only [List.length_cons, List.length_append] at short
          have read := readBetween_of_listed takes (fun _ _ => Padded.opens) (.inl rfl) listed
            (by omega) rest
          simp [readValue, found '[' rfl, read]
      | emptyObject blankWithin =>
          have read :=
            readBetween_of_blank (readField (readValue bound)) (.inr rfl) blankWithin rest
          simp [readValue, found '\x7b' rfl, read, ofFields]
      | object listed =>
          simp only [List.length_cons, List.length_append] at short
          have read := readBetween_of_listed (takes_readField takes)
            (fun _ _ => SpellsField.opens) (.inr rfl) listed (by omega) rest
          simp [readValue, found '\x7b' rfl, read]

/-- A text that is JSON for a value is read as this value. -/
theorem parse?_of_denotes {text : String} {value : Json} (denotes : Denotes text value) :
    parse? text = some value := by
  unfold Denotes at denotes
  generalize written : text.toList = letters at denotes
  cases denotes with
  | @within before letters after _ blankBefore spelled blankAfter =>
      have short : letters.length < text.length + 1 := by
        rw [← String.length_toList, written]
        simp only [List.length_append]
        omega
      have ends : EndsValue after := by
        intro letter first
        exact .inl (blankAfter letter (List.mem_of_mem_head? first))
      rw [parse?, written, readValue_of_spells blankBefore spelled short ends]
      have nothing : skipSpaces after = [] := by
        rw [← List.append_nil after, skipSpaces_append blankAfter]
        rfl
      simp [nothing]

/-- No text is JSON for two values. -/
theorem Denotes.unique {text : String} {left right : Json} (first : Denotes text left)
    (second : Denotes text right) : left = right :=
  Option.some.inj ((parse?_of_denotes first).symm.trans (parse?_of_denotes second))

end ClojureBuild.Json
