import ClojureBuild.Json.Printer
import ClojureBuild.Proofs.Json.Reading
import Mathlib.Data.List.Basic

/-!
# Printed values

The indented form of a value is JSON for this value and for no other, and it is read back.  This
holds for all values but those with decimal numbers, which are printed as the nearest number of 64
bits, and with integers that do not fit into 64 bits.
-/

namespace ClojureBuild.Json

/-! ## Quoted texts -/

theorem spellsUnit_control (code : Nat) (low : code < 0x20) :
    SpellsUnit ['0', '0', hexDigit (code / 16), hexDigit (code % 16)] code := by
  have written : ∀ code < 0x20,
      ['0', '0', hexDigit (code / 16), hexDigit (code % 16)].all (Text.isDigitTo 16) = true ∧
        Text.valueOfDigits 16 ['0', '0', hexDigit (code / 16), hexDigit (code % 16)] = code := by
    decide
  obtain ⟨hexadecimal, value⟩ := written code low
  exact ⟨rfl, hexadecimal, value⟩

/-- What is printed for a character spells it. -/
theorem spellsChar_escapeChar (letter : Char) : SpellsChar (escapeChar letter) letter := by
  unfold escapeChar
  split_ifs with isQuote isBackslash isBreak isTab isReturn isBackspace isFeed isLow
  · subst isQuote
    exact .named (by decide)
  · subst isBackslash
    exact .named (by decide)
  · subst isBreak
    exact .named (by decide)
  · subst isTab
    exact .named (by decide)
  · subst isReturn
    exact .named (by decide)
  · subst isBackspace
    exact .named (by decide)
  · subst isFeed
    exact .named (by decide)
  · exact .numbered (spellsUnit_control letter.toNat isLow)
  · exact .plain (Nat.le_of_not_lt isLow) isQuote isBackslash

theorem spellsText_flatMap (letters : List Char) :
    SpellsText (letters.flatMap escapeChar) letters := by
  induction letters with
  | nil => exact .nil
  | cons first rest inductionHypothesis =>
      rw [List.flatMap_cons]
      exact .cons (spellsChar_escapeChar first) inductionHypothesis

theorem spells_quote (text : String) : Spells (quote text).toList (.text text) := by
  have spelled := Spells.text (spellsText_flatMap text.toList)
  simpa [quote] using spelled

/-! ## Integers -/

theorem digits_toDigits (number : Nat) : Digits (Nat.toDigits 10 number) where
  nonempty := Nat.toDigits_ne_nil
  decimal _ member := Nat.isDigit_of_mem_toDigits (by decide) (by decide) member

theorem valueOfDigits_eq_ofDigitChars {digits : List Char}
    (decimal : ∀ digit ∈ digits, digit.isDigit = true) (start : Nat) :
    digits.foldl (fun value digit => value * 10 + (Text.hexValue? digit).getD 0) start =
      Nat.ofDigitChars 10 digits start := by
  induction digits generalizing start with
  | nil => rfl
  | cons first rest inductionHypothesis =>
      have isDigit := decimal first List.mem_cons_self
      have value : (Text.hexValue? first).getD 0 = first.toNat - '0'.toNat := by
        simp [Text.hexValue?, isDigit]
      rw [List.foldl_cons, Nat.ofDigitChars_cons, value, Nat.mul_comm]
      exact inductionHypothesis (fun digit member => decimal digit (.tail first member)) _

theorem valueOfDigits_toDigits (number : Nat) :
    Text.valueOfDigits 10 (Nat.toDigits 10 number) = number := by
  rw [Text.valueOfDigits, valueOfDigits_eq_ofDigitChars (digits_toDigits number).decimal,
    Nat.ofDigitChars_toDigits (by decide) (by decide)]

theorem whole_toDigits (number : Nat) : Whole (Nat.toDigits 10 number) where
  toDigits := digits_toDigits number
  noLeadingZero := by
    intro leading
    induction number using Nat.strongRecOn with
    | ind number inductionHypothesis =>
        by_cases single : number < 10
        · rw [Nat.toDigits_of_lt_base single] at leading ⊢
          simpa using leading
        · have several : 10 ≤ number := Nat.le_of_not_lt single
          -- the digits in front are those of a positive number, so they are not a lone zero
          rw [Nat.toDigits_of_base_le (by decide) several] at leading
          have front : (Nat.toDigits 10 (number / 10)).head? = some '0' := by
            rwa [List.head?_append_of_ne_nil _ Nat.toDigits_ne_nil] at leading
          have alone := inductionHypothesis (number / 10) (by omega) front
          have zero := valueOfDigits_toDigits (number / 10)
          rw [alone] at zero
          have noLead : Text.valueOfDigits 10 ['0'] = 0 := rfl
          omega

/-- An integer that fits into 64 bits, with or without a sign. -/
def FitsWord (value : Int) : Prop :=
  -0x8000000000000000 ≤ value ∧ value < 0x10000000000000000

/-- A natural number with a sign in front. -/
theorem spellsNumber_repr (negative : Bool) (number : Nat) :
    SpellsNumber (minusSign negative ++ number.repr.toList)
      (ofNumberParts negative (Nat.toDigits 10 number) none none) := by
  have spelled := SpellsNumber.parts negative (whole_toDigits number) .absent .absent
  simpa [Nat.repr] using spelled

theorem spellsNumber_toString {value : Int} (fits : FitsWord value) :
    SpellsNumber (toString value).toList (.integer value) := by
  unfold FitsWord at fits
  cases value with
  | ofNat number =>
      have read : ofNumberParts false (Nat.toDigits 10 number) none none =
          .integer (Int.ofNat number) := by
        have low : number < Nat.pow 2 64 := by
          rw [Int.ofNat_eq_natCast] at fits
          rw [Nat.pow_eq]
          omega
        simp [ofNumberParts, valueOfDigits_toDigits, low]
      rw [← read]
      exact spellsNumber_repr false number
  | negSucc number =>
      have read : ofNumberParts true (Nat.toDigits 10 (number + 1)) none none =
          .integer (Int.negSucc number) := by
        have low : number + 1 ≤ Nat.pow 2 63 := by
          rw [Nat.pow_eq]
          omega
        simp [ofNumberParts, valueOfDigits_toDigits, low]
        omega
      have shown : (toString (Int.negSucc number)).toList =
          minusSign true ++ (number + 1).repr.toList :=
        String.toList_append
      rw [← read, shown]
      exact spellsNumber_repr true (number + 1)

/-! ## Objects -/

/-- Fields in ascending order of their names, each name once. -/
def Ascending (fields : List (String × Json)) : Prop :=
  fields.Pairwise fun left right => left.1 < right.1

/-- A field whose name comes last is set at the end. -/
theorem insertField_of_last {name : String} {value : Json} {fields : List (String × Json)}
    (last : ∀ field ∈ fields, field.1 < name) :
    insertField name value fields = fields ++ [(name, value)] := by
  induction fields with
  | nil => rfl
  | cons first rest inductionHypothesis =>
      have before := last first List.mem_cons_self
      have differs : name ≠ first.1 := fun same => String.lt_irrefl name (same ▸ before)
      have notAbove : ¬ name < first.1 := fun above => String.lt_asymm before above
      rw [insertField, if_neg differs, if_neg notAbove, List.cons_append,
        inductionHypothesis fun field member => last field (.tail first member)]

theorem foldl_insertField_of_ascending {fields : List (String × Json)}
    (sorted : List (String × Json)) (ascending : Ascending (sorted ++ fields)) :
    fields.foldl (fun sorted field => insertField field.1 field.2 sorted) sorted =
      sorted ++ fields := by
  induction fields generalizing sorted with
  | nil => simp
  | cons first rest inductionHypothesis =>
      have last : ∀ field ∈ sorted, field.1 < first.1 := fun field member =>
        (List.pairwise_append.1 ascending).2.2 field member first List.mem_cons_self
      rw [List.foldl_cons, insertField_of_last last,
        inductionHypothesis _ (by simpa using ascending), List.append_assoc,
        List.singleton_append]

/-- Fields that are in order already are kept as they are. -/
theorem ofFields_of_ascending {fields : List (String × Json)} (ascending : Ascending fields) :
    ofFields fields = .object fields :=
  congrArg Json.object (foldl_insertField_of_ascending [] ascending)

/-! ## Values -/

/-- A value that its indented form writes without loss. -/
inductive Exact : Json → Prop
  | null : Exact .null
  | boolean (value : Bool) : Exact (.boolean value)
  | integer {value : Int} (fits : FitsWord value) : Exact (.integer value)
  | text (value : String) : Exact (.text value)
  | array {elements : List Json} (exact : ∀ element ∈ elements, Exact element) :
      Exact (.array elements)
  | object {fields : List (String × Json)} (ascending : Ascending fields)
      (exact : ∀ field ∈ fields, Exact field.2) :
      Exact (.object fields)

theorem Exact.ofTexts (texts : List String) : Exact (.ofTexts texts) := by
  refine .array ?_
  intro element member
  obtain ⟨text, _, rfl⟩ := List.mem_map.1 member
  exact .text text

/-- An object with the given names in front of exact values is exact. -/
theorem Exact.object_of_names {fields : List (String × Json)} {names : List String}
    (sorted : names.Pairwise (· < ·)) (named : fields.map Prod.fst = names)
    (exact : (fields.map Prod.snd).Forall Exact) : Exact (.object fields) := by
  rw [← named, List.pairwise_map] at sorted
  refine .object sorted ?_
  intro field member
  exact List.forall_iff_forall_mem.1 exact field.2 (List.mem_map_of_mem member)

theorem blank_lineBreak (depth : Nat) : Blank (lineBreak depth).toList := by
  intro letter member
  simp only [lineBreak, String.toList_ofList, List.mem_cons, List.mem_replicate] at member
  rcases member with rfl | ⟨_, rfl⟩ <;> rfl

/-- An element on its line. -/
def elementLine (depth : Nat) (element : Json) : String :=
  lineBreak (depth + 1) ++ element.prettyAt (depth + 1)

/-- A field on its line. -/
def fieldLine (depth : Nat) (field : String × Json) : String :=
  lineBreak (depth + 1) ++ quote field.1 ++ ": " ++ field.2.prettyAt (depth + 1)

/-- What writes items one by one with commas between them joins their lines. -/
theorem eq_joinWith {α : Type} {write : List α → String} {line : α → String}
    (none : write [] = "") (last : ∀ item, write [item] = line item)
    (more : ∀ item next rest,
      write (item :: next :: rest) = line item ++ "," ++ write (next :: rest))
    (items : List α) : write items = Text.joinWith "," (items.map line) := by
  induction items with
  | nil => exact none
  | cons first rest inductionHypothesis =>
      cases rest with
      | nil => exact last first
      | cons next others =>
          rw [more, inductionHypothesis]
          rfl

theorem prettyElements_eq (depth : Nat) (elements : List Json) :
    prettyAt.prettyElements depth elements =
      Text.joinWith "," (elements.map (elementLine depth)) :=
  eq_joinWith rfl (fun _ => rfl) (fun _ _ _ => rfl) elements

theorem prettyFields_eq (depth : Nat) (fields : List (String × Json)) :
    prettyAt.prettyFields depth fields =
      Text.joinWith "," (fields.map (fieldLine depth)) :=
  eq_joinWith rfl (fun _ => rfl) (fun _ _ _ => rfl) fields

/-- Items joined by commas are listed, also with blanks after the last one. -/
theorem listed_joinWith {α : Type} {Spells : List Char → α → Prop} (line : α → String)
    {items : List α} (nonempty : items ≠ [])
    (spelled : ∀ item ∈ items, ∀ after, Blank after → Spells ((line item).toList ++ after) item)
    {after : List Char} (blank : Blank after) :
    Listed Spells ((Text.joinWith "," (items.map line)).toList ++ after) items := by
  induction items with
  | nil => exact absurd rfl nonempty
  | cons first rest inductionHypothesis =>
      cases rest with
      | nil => exact .last (spelled first List.mem_cons_self after blank)
      | cons next others =>
          have firstSpelled := spelled first List.mem_cons_self [] Blank.nil
          have later := inductionHypothesis (List.cons_ne_nil _ _)
            (fun item member => spelled item (.tail first member))
          have listed := Listed.more firstSpelled later
          simpa [Text.joinWith] using listed

theorem padded_elementLine {depth : Nat} {element : Json} {after : List Char}
    (spelled : Spells (element.prettyAt (depth + 1)).toList element) (blank : Blank after) :
    Padded Spells ((elementLine depth element).toList ++ after) element := by
  have padded := Padded.within (blank_lineBreak (depth + 1)) spelled blank
  simpa [elementLine] using padded

theorem spellsField_fieldLine {depth : Nat} {field : String × Json} {after : List Char}
    (spelled : Spells (field.2.prettyAt (depth + 1)).toList field.2) (blank : Blank after) :
    SpellsField (Padded Spells) ((fieldLine depth field).toList ++ after) field := by
  have blankBefore : Blank [' '] := by simp [Blank, isSpace]
  have named := SpellsField.named (blank_lineBreak (depth + 1))
    (spellsText_flatMap field.1.toList) Blank.nil (Padded.within blankBefore spelled blank)
  simpa [fieldLine, quote] using named

/-- The indented form spells its value, at every depth. -/
theorem spells_prettyAt {value : Json} (exact : value.Exact) (depth : Nat) :
    Spells (value.prettyAt depth).toList value := by
  induction exact generalizing depth with
  | null => simpa [prettyAt] using Spells.null
  | boolean value =>
      cases value with
      | true => simpa [prettyAt] using Spells.yes
      | false => simpa [prettyAt] using Spells.no
  | integer fits => simpa [prettyAt] using Spells.number (spellsNumber_toString fits)
  | text value => simpa [prettyAt] using spells_quote value
  | @array elements _ inductionHypothesis =>
      cases elements with
      | nil => simpa [prettyAt] using Spells.emptyArray Blank.nil
      | cons first rest =>
          have listed := listed_joinWith (elementLine depth) (List.cons_ne_nil first rest)
            (fun element member _ blank =>
              padded_elementLine (inductionHypothesis element member (depth + 1)) blank)
            (blank_lineBreak depth)
          rw [prettyAt, prettyElements_eq]
          simpa using Spells.array listed
  | @object fields ascending _ inductionHypothesis =>
      cases fields with
      | nil => simpa [prettyAt] using Spells.emptyObject Blank.nil
      | cons first rest =>
          have listed := listed_joinWith (fieldLine depth) (List.cons_ne_nil first rest)
            (fun field member _ blank =>
              spellsField_fieldLine (inductionHypothesis field member (depth + 1)) blank)
            (blank_lineBreak depth)
          rw [prettyAt, prettyFields_eq, ← ofFields_of_ascending ascending]
          simpa using Spells.object listed

/-- A text conveys a value: it is JSON for this value and for no other, and is read as it. -/
structure Conveys (text : String) (value : Json) : Prop where
  denotes_iff : ∀ other, Denotes text other ↔ other = value
  read : parse? text = some value

theorem Denotes.conveys {text : String} {value : Json} (denotes : Denotes text value) :
    Conveys text value where
  denotes_iff _ := ⟨fun also => also.unique denotes, fun same => same ▸ denotes⟩
  read := parse?_of_denotes denotes

/-- The indented form of a value conveys it. -/
theorem Exact.conveys_pretty {value : Json} (exact : value.Exact) :
    Conveys value.pretty value := by
  have padded := Padded.within Blank.nil (spells_prettyAt exact 0) Blank.nil
  exact Denotes.conveys (by simpa [Denotes, pretty] using padded)

example : (ofTexts ["a\"\x01", "é"]).pretty = "[\n  \"a\\\"\\u0001\",\n  \"é\"\n]" := by
  rfl

/-- Two values with the same indented form are equal. -/
theorem Exact.pretty_eq_iff {left right : Json} (leftExact : left.Exact)
    (rightExact : right.Exact) : left.pretty = right.pretty ↔ left = right := by
  constructor
  · intro same
    have read := leftExact.conveys_pretty.read
    rw [same, rightExact.conveys_pretty.read] at read
    exact (Option.some.inj read).symm
  · exact congrArg pretty

end ClojureBuild.Json
