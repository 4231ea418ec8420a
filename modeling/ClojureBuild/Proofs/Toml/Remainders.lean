import ClojureBuild.Toml.Value

/-!
# What readers leave

A reader takes letters from the front only: what it leaves is an end of what it was given.
-/

namespace ClojureBuild.Toml

variable {α β : Type} {letters rest : List Char}

/-- What a reader leaves is an end of what it was given. -/
def LeavesEnd (reader : Reader α) : Prop :=
  ∀ ⦃letters value rest⦄, reader letters = some (value, rest) → rest <:+ letters

@[grind →]
theorem suffix_of_cons_suffix {letter : Char} (suffix : letter :: rest <:+ letters) :
    rest <:+ letters :=
  (List.suffix_cons letter rest).trans suffix

/-! ## Gaps -/

theorem skipBlanks_suffix (letters : List Char) : skipBlanks letters <:+ letters :=
  List.dropWhile_suffix isBlank

theorem skipGapsIn_suffix (inComment : Bool) (letters : List Char) :
    skipGapsIn inComment letters <:+ letters := by
  fun_induction skipGapsIn inComment letters <;> grind

theorem skipComment_suffix (letters : List Char) : skipComment letters <:+ letters := by
  unfold skipComment
  split
  · exact (List.dropWhile_suffix isPrintable).trans (List.suffix_cons _ _)
  · exact List.suffix_rfl

theorem lineBreak?_suffix (read : lineBreak? letters = some rest) : rest <:+ letters := by
  unfold lineBreak? at read
  grind


theorem endOfLine?_suffix (read : endOfLine? letters = some rest) : rest <:+ letters := by
  have skipped := (skipComment_suffix (skipBlanks letters)).trans (skipBlanks_suffix letters)
  unfold endOfLine? at read
  split at read
  next => grind
  next => exact (lineBreak?_suffix read).trans skipped

/-! ## Quoted texts -/

theorem rest_of_prepend {letter : Char} {reading : Option (List Char × List Char)}
    {value : List Char} (read : prepend letter reading = some (value, rest)) :
    ∃ others, reading = some (others, rest) := by
  cases reading with
  | none =>
      cases read
  | some held =>
      cases read
      exact ⟨held.1, rfl⟩

theorem rest_of_prependChar? {letter : Option Char} {reading : Option (List Char × List Char)}
    {value : List Char} (read : prependChar? letter reading = some (value, rest)) :
    ∃ others, reading = some (others, rest) := by
  obtain ⟨_, _, prepended⟩ := Option.bind_eq_some_iff.mp read
  exact rest_of_prepend prepended

attribute [local grind →] rest_of_prepend rest_of_prependChar?

theorem leavesEnd_readBasic : LeavesEnd readBasic := by
  intro letters value rest read
  fun_induction readBasic letters generalizing value with
  | case4 a b c d e f g h rest inductionHypothesis =>
      obtain ⟨others, behind⟩ := rest_of_prependChar? read
      exact (inductionHypothesis behind).trans ⟨['\\', 'U', a, b, c, d, e, f, g, h], rfl⟩
  | _ => grind

theorem leavesEnd_readLiteral : LeavesEnd readLiteral := by
  intro letters value rest read
  fun_induction readLiteral letters generalizing value <;> grind

theorem leavesEnd_readBasicLines (joining : Bool) : LeavesEnd (readBasicLines joining) := by
  intro letters value rest read
  fun_induction readBasicLines joining letters generalizing value with
  | case10 joining a b c d e f g h rest inductionHypothesis =>
      obtain ⟨others, behind⟩ := rest_of_prependChar? read
      exact (inductionHypothesis behind).trans ⟨['\\', 'U', a, b, c, d, e, f, g, h], rfl⟩
  | _ => grind

theorem leavesEnd_readLiteralLines : LeavesEnd readLiteralLines := by
  intro letters value rest read
  fun_induction readLiteralLines letters generalizing value <;> grind

theorem dropLineBreak_suffix (letters : List Char) : dropLineBreak letters <:+ letters := by
  unfold dropLineBreak
  cases found : lineBreak? letters with
  | none =>
      exact List.suffix_rfl
  | some rest =>
      exact lineBreak?_suffix found

theorem leavesEnd_readQuoted : LeavesEnd readQuoted := by
  intro letters value rest read
  unfold readQuoted at read
  split at read
  next rest =>
    exact ((leavesEnd_readBasicLines false read).trans (dropLineBreak_suffix rest)).trans
      ⟨['"', '"', '"'], rfl⟩
  next rest =>
    exact ((leavesEnd_readLiteralLines read).trans (dropLineBreak_suffix rest)).trans
      ⟨['\'', '\'', '\''], rfl⟩
  next rest =>
    exact (leavesEnd_readBasic read).trans ⟨['"'], rfl⟩
  next rest =>
    exact (leavesEnd_readLiteral read).trans ⟨['\''], rfl⟩
  next =>
    cases read

/-! ## Moments -/

theorem leavesEnd_readPair (least greatest : Nat) : LeavesEnd (readPair least greatest) := by
  intro letters value rest read
  fun_cases readPair least greatest letters <;> grind [readPair]

theorem leavesEnd_readMark (mark : Char) : LeavesEnd (readMark mark) := by
  intro letters value rest read
  fun_cases readMark mark letters <;> grind [readMark]

theorem leavesEnd_readMonthAndDay (year : Nat) : LeavesEnd (readMonthAndDay year) := by
  intro letters value rest read
  simp only [readMonthAndDay, Option.bind_eq_bind, Option.bind_eq_some_iff, Prod.exists] at read
  obtain ⟨month, afterMonth, readMonth, _, afterMark, marked, day, left, readDay, ⟨⟩⟩ := read
  exact ((leavesEnd_readPair _ _ readDay).trans (leavesEnd_readMark _ marked)).trans
    (leavesEnd_readPair _ _ readMonth)

theorem skipSecondFraction_suffix (letters : List Char) :
    skipSecondFraction letters <:+ letters := by
  unfold skipSecondFraction
  split
  next digit rest =>
    split
    · exact (List.dropWhile_suffix Char.isDigit).trans ⟨['.', digit], rfl⟩
    · exact List.suffix_rfl
  next =>
    exact List.suffix_rfl

theorem leavesEnd_readTime : LeavesEnd readTime := by
  intro letters value rest read
  simp only [readTime, Option.bind_eq_bind, Option.bind_eq_some_iff, Prod.exists] at read
  obtain ⟨hour, afterHour, readHour, _, minutes, marked, minute, afterMinute, readMinute, _,
    seconds, markedAgain, second, left, readSecond, ⟨⟩⟩ := read
  have untilMinute := (leavesEnd_readPair _ _ readMinute).trans
    ((leavesEnd_readMark _ marked).trans (leavesEnd_readPair _ _ readHour))
  exact (skipSecondFraction_suffix left).trans <| (leavesEnd_readPair _ _ readSecond).trans <|
    (leavesEnd_readMark _ markedAgain).trans untilMinute

theorem leavesEnd_readOffset : LeavesEnd readOffset := by
  intro letters value rest read
  unfold readOffset at read
  split at read
  next => grind
  next => grind
  next letter after _ _ =>
    split at read
    next =>
      simp only [Option.bind_eq_bind, Option.bind_eq_some_iff, Prod.exists] at read
      obtain ⟨hour, afterHour, readHour, _, minutes, marked, minute, left, readMinute, ⟨⟩⟩ := read
      exact ((leavesEnd_readPair _ _ readMinute).trans ((leavesEnd_readMark _ marked).trans
        (leavesEnd_readPair _ _ readHour))).trans (List.suffix_cons letter after)
    next => grind
  next => grind

theorem leavesEnd_readTimeOfDate : LeavesEnd readTimeOfDate := by
  intro letters value rest read
  unfold readTimeOfDate at read
  split at read
  next => grind
  next letter after =>
    split at read
    next =>
      simp only [Option.bind_eq_bind, Option.bind_eq_some_iff, Prod.exists] at read
      obtain ⟨_, afterTime, readTime, readOffset⟩ := read
      exact ((leavesEnd_readOffset readOffset).trans (leavesEnd_readTime readTime)).trans
        (List.suffix_cons letter after)
    next => grind

theorem startsDate?_suffix {year : Nat} (starts : startsDate? letters = some (year, rest)) :
    rest <:+ letters := by
  unfold startsDate? at starts
  split at starts
  next a b c d after =>
    split at starts
    · cases starts
      exact ⟨[a, b, c, d, '-'], rfl⟩
    · cases starts
  next =>
    cases starts

theorem leavesEnd_readMoment : LeavesEnd readMoment := by
  intro letters value rest read
  unfold readMoment at read
  split at read
  next year after starts =>
    simp only [Option.bind_eq_bind, Option.bind_eq_some_iff, Prod.exists] at read
    obtain ⟨_, afterDay, readDay, readTime⟩ := read
    exact ((leavesEnd_readTimeOfDate readTime).trans (leavesEnd_readMonthAndDay year readDay)).trans
      (startsDate?_suffix starts)
  next =>
    exact leavesEnd_readTime read

/-! ## Numbers -/

theorem leavesEnd_readMoreDigits (base : Nat) : LeavesEnd (readMoreDigits base) := by
  intro letters value rest read
  fun_induction readMoreDigits base letters generalizing value <;>
    grind [Option.map_eq_some_iff]

theorem leavesEnd_readDigits (base : Nat) : LeavesEnd (readDigits base) := by
  intro letters value rest read
  unfold readDigits at read
  split at read
  next =>
    cases read
  next letter after =>
    split at read
    next =>
      obtain ⟨⟨digits, left⟩, readMore, ⟨⟩⟩ := Option.map_eq_some_iff.mp read
      exact (leavesEnd_readMoreDigits base readMore).trans (List.suffix_cons letter after)
    next =>
      cases read

theorem leavesEnd_readWhole : LeavesEnd readWhole := by
  intro letters value rest read
  unfold readWhole at read
  split at read
  next after =>
    cases read
    exact List.suffix_cons '0' _
  next =>
    exact leavesEnd_readDigits 10 read

theorem readSign_suffix (letters : List Char) : (readSign letters).2 <:+ letters := by
  unfold readSign
  split
  · exact List.suffix_cons '-' _
  · exact List.suffix_cons '+' _
  · exact List.suffix_rfl

theorem leavesEnd_readBased (base : Nat) : LeavesEnd (readBased base) := by
  intro letters value rest read
  simp only [readBased, Option.bind_eq_bind, Option.bind_eq_some_iff, Prod.exists] at read
  obtain ⟨digits, left, readDigits, number, _, ⟨⟩⟩ := read
  exact leavesEnd_readDigits base readDigits

theorem leavesEnd_readFraction : LeavesEnd readFraction := by
  intro letters value rest read
  unfold readFraction at read
  split at read
  next after =>
    exact (leavesEnd_readDigits 10 read).trans (List.suffix_cons '.' after)
  next =>
    cases read
    exact List.suffix_rfl

theorem leavesEnd_readExponent : LeavesEnd readExponent := by
  intro letters value rest read
  unfold readExponent at read
  split at read
  next letter after =>
    split at read
    next =>
      simp only [Option.bind_eq_bind, Option.bind_eq_some_iff, Prod.exists] at read
      obtain ⟨digits, left, readDigits, ⟨⟩⟩ := read
      exact ((leavesEnd_readDigits 10 readDigits).trans (readSign_suffix after)).trans
        (List.suffix_cons letter after)
    next =>
      cases read
      exact List.suffix_rfl
  next =>
    cases read
    exact List.suffix_rfl

theorem leavesEnd_readUnsigned (negative : Bool) : LeavesEnd (readUnsigned negative) := by
  intro letters value rest read
  simp only [readUnsigned, Option.bind_eq_bind, Option.bind_eq_some_iff, Prod.exists] at read
  obtain ⟨whole, afterWhole, readWhole, fraction, afterFraction, readFraction, exponent, left,
    readExponent, finished⟩ := read
  have taken := (leavesEnd_readExponent readExponent).trans <|
    (leavesEnd_readFraction readFraction).trans (leavesEnd_readWhole readWhole)
  split at finished
  all_goals
    obtain ⟨number, _, same⟩ := Option.bind_eq_some_iff.mp finished
    cases same
    exact taken

theorem leavesEnd_readNumber : LeavesEnd readNumber := by
  intro letters value rest read
  unfold readNumber at read
  split at read
  next after =>
    exact (leavesEnd_readBased 16 read).trans ⟨['0', 'x'], rfl⟩
  next after =>
    exact (leavesEnd_readBased 8 read).trans ⟨['0', 'o'], rfl⟩
  next after =>
    exact (leavesEnd_readBased 2 read).trans ⟨['0', 'b'], rfl⟩
  next =>
    have unsigned := readSign_suffix letters
    split at read
    next negative after signed =>
      cases read
      rw [signed] at unsigned
      exact List.IsSuffix.trans ⟨['i', 'n', 'f'], rfl⟩ unsigned
    next negative after signed =>
      cases read
      rw [signed] at unsigned
      exact List.IsSuffix.trans ⟨['n', 'a', 'n'], rfl⟩ unsigned
    next negative after _ _ signed =>
      rw [signed] at unsigned
      exact (leavesEnd_readUnsigned negative read).trans unsigned

theorem leavesEnd_readScalar : LeavesEnd readScalar := by
  intro letters value rest read
  unfold readScalar at read
  split at read
  next after =>
    cases read
    exact ⟨['t', 'r', 'u', 'e'], rfl⟩
  next after =>
    cases read
    exact ⟨['f', 'a', 'l', 's', 'e'], rfl⟩
  next first after _ _ =>
    split at read
    next =>
      obtain ⟨⟨content, left⟩, readQuoted, ⟨⟩⟩ := Option.bind_eq_some_iff.mp read
      exact leavesEnd_readQuoted readQuoted
    next =>
      split at read
      next =>
        obtain ⟨⟨_, left⟩, readMoment, ⟨⟩⟩ := Option.bind_eq_some_iff.mp read
        exact leavesEnd_readMoment readMoment
      next =>
        obtain ⟨⟨number, left⟩, readNumber, ⟨⟩⟩ := Option.bind_eq_some_iff.mp read
        exact leavesEnd_readNumber readNumber
  next =>
    cases read

end ClojureBuild.Toml
