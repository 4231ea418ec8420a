import ClojureBuild.Proofs.Config.UnknownKeys
import ClojureBuild.Proofs.Text.Lines
import ClojureBuild.Proofs.Toml.KeyPlaces
import Mathlib.Data.List.TakeWhile

/-!
# Where warnings point

The reader of a configuration knows where each unknown key stands, but a warning is made from the name
alone: it shows what follows the last dot of the name, and the first line that this occurs on.  So it
points at its key exactly if the name has no dot and no line before that of the key mentions it.
-/

namespace ClojureBuild

open Outline Setting

/-! ## What a configuration reports -/

section Readers

variable (format : DocumentFormat)

theorem CompilerOptions.outline_tells :
    CompilerOptions.outline.Tells (CompilerOptions.read format) := by
  have tell : TellMembers _ CompilerOptions.members :=
    .plain (.plain (.plain (.plain (.plain .nil))))
  exact tell.readRecord "SecondaryOptions" .default format

theorem ToolchainSettings.outline_tells :
    ToolchainSettings.outline.Tells (ToolchainSettings.read format) := by
  have tell : TellMembers _ ToolchainSettings.members := .plain (.plain (.plain (.plain .nil)))
  exact tell.readRecord "ToolchainConfig" .default format

theorem CompileSettings.outline_tells :
    CompileSettings.outline.Tells (CompileSettings.read format) := by
  have tell : TellMembers _ CompileSettings.members :=
    .plain <| .plain <| .nested CompilerOptions.outline_tells <|
      .nested CompilerOptions.outline_tells <| .nested CompilerOptions.outline_tells .nil
  exact tell.readRecord "CompileConfig" .default format

theorem ProjectSettings.outline_tells :
    ProjectSettings.outline.Tells (ProjectSettings.read format) := by
  have tell : TellMembers _ ProjectSettings.members := .plain (.plain (.plain .nil))
  exact tell.readRecord "ProjectConfig" .default format

theorem Config.outline_tells : Config.outline.Tells (Config.read format) := by
  have tell : TellMembers _ Config.members :=
    .nested ToolchainSettings.outline_tells <| .nested CompileSettings.outline_tells <|
      .nested ProjectSettings.outline_tells .nil
  exact tell.readRecord "Config" .default format

end Readers

namespace Config

/-! ## The line of a key -/

/-- The number of lines that end before a key, found by its place as an excerpt finds it. -/
def rowOf? (content : String) (key : Key) : Option Nat :=
  key.place.map fun place =>
    (Toml.lineAndColumn (content.toList.take (content.toList.length - place.atStart))).1

/-- A key is written on a row: the text spells its name behind as many line breaks. -/
def WrittenOnRow (content : String) (key : Key) (row : Nat) : Prop :=
  ∃ before spelled after, content.toList = before ++ (spelled ++ after) ∧
    Toml.readKeyName (spelled ++ after) = some (key.name.toList, after) ∧
      before.count '\n' = row

/-- A key is written without quotes. -/
def WrittenBare (content : String) (key : Key) : Prop :=
  key.name ≠ "" ∧ (∀ letter ∈ key.name.toList, Toml.isBareKeyLetter letter) ∧
    ∃ before after, content.toList = before ++ (key.name.toList ++ after) ∧
      key.place = some (Toml.extentBetween (key.name.toList ++ after) after)

/-- A key is written in quotes. -/
def WrittenInQuotes (content : String) (key : Key) : Prop :=
  ∃ before quote after, content.toList = before ++ quote :: after ∧ (quote = '"' ∨ quote = '\'') ∧
    key.place.map Extent.atStart = some (after.length + 1)

/-- No line before that of a key mentions its name. -/
def FirstMentioned (content : String) (key : Key) : Prop :=
  ∃ row, rowOf? content key = some row ∧
    ∀ earlier ∈ (Text.lines content).take row, ¬ Text.contains key.name earlier

/-- The line of a key shows its name. -/
def ShownInPlace (content : String) (key : Key) : Prop :=
  ∃ row line, rowOf? content key = some row ∧ (Text.lines content)[row]? = some line ∧
    Text.contains key.name line

/-- A warning points at a key: it has the name of the key and the number of its line. -/
def PointsAt (content : String) (key : Key) (warning : Warning) : Prop :=
  warning.key = key.name ∧ warning.line = (rowOf? content key).map (· + 1)

variable {content : String} {key : Key} {row : Nat} {file : Path}

theorem rowOf?_of_place {before after : List Char} {stop : Nat}
    (spelled : content.toList = before ++ after) (place : key.place = some ⟨after.length, stop⟩) :
    rowOf? content key = some (before.count '\n') := by
  rw [rowOf?, place, Option.map_some, spelled, List.length_append, Nat.add_sub_cancel,
    List.take_left, Toml.lineAndColumn]

theorem exists_row_of_writtenIn (written : Toml.WrittenIn content.toList key) :
    ∃ row, rowOf? content key = some row ∧ WrittenOnRow content key row := by
  obtain ⟨before, spelled, after, isContent, place, reads⟩ := written
  exact ⟨_, rowOf?_of_place isContent place, before, spelled, after, isContent, reads, rfl⟩

theorem writtenBare_or_writtenInQuotes (written : Toml.WrittenIn content.toList key) :
    WrittenBare content key ∨ WrittenInQuotes content key := by
  obtain ⟨before, spelled, after, isContent, place, reads⟩ := written
  have quoted {quote : Char} {rest : List Char} (isQuote : quote = '"' ∨ quote = '\'')
      (starts : spelled ++ after = quote :: rest) : WrittenInQuotes content key := by
    refine ⟨before, quote, rest, by rw [isContent, starts], isQuote, ?_⟩
    rw [place, starts]
    rfl
  unfold Toml.readKeyName at reads
  split at reads
  next rest starts =>
    exact .inr (quoted (.inl rfl) starts)
  next rest starts =>
    exact .inr (quoted (.inr rfl) starts)
  next =>
    dsimp only at reads
    split at reads
    · cases reads
    next notEmpty =>
      rw [Option.some_inj, Prod.mk.injEq] at reads
      obtain ⟨isName, isRest⟩ := reads
      have whole : key.name.toList ++ after = spelled ++ after := by
        have parts := @List.takeWhile_append_dropWhile _ Toml.isBareKeyLetter (spelled ++ after)
        rwa [isName, isRest] at parts
      obtain rfl := List.append_cancel_right whole
      refine .inl ⟨?_, ?_, before, after, isContent, place⟩
      · intro noName
        rw [isName, noName] at notEmpty
        exact notEmpty rfl
      · rw [← isName]
        exact fun letter => List.mem_takeWhile_imp

theorem notMem_of_writtenBare (written : WrittenBare content key) {letter : Char}
    (notBare : ¬ Toml.isBareKeyLetter letter) : letter ∉ key.name.toList :=
  fun member => notBare (written.2.1 letter member)

/-- A key without quotes is shown on its line. -/
theorem shownInPlace_of_writtenBare (written : WrittenBare content key) :
    ShownInPlace content key := by
  obtain ⟨before, after, isContent, place⟩ := written.2.2
  have nonempty : key.name.toList ≠ [] := mt String.toList_eq_nil_iff.mp written.1
  obtain ⟨line, found, onLine⟩ := Text.exists_line_of_word isContent nonempty
    (notMem_of_writtenBare written (by decide)) (notMem_of_writtenBare written (by decide))
  exact ⟨_, line, rowOf?_of_place isContent place, found, Text.contains_iff_isInfix.mpr onLine⟩

/-! ## Where warnings point -/

/-- The line that is found for a name is that of its key exactly if this is the first line that shows
the name. -/
theorem lineOf?_eq_iff (isRow : rowOf? content key = some row) :
    lineOf? content key.name = (rowOf? content key).map (· + 1) ↔
      ShownInPlace content key ∧ FirstMentioned content key := by
  have sameRow : lineOf? content key.name = (rowOf? content key).map (· + 1) ↔
      (Text.lines content).findIdx? (Text.contains key.name) = some row := by
    simp only [lineOf?, isRow, Option.map_some, Option.map_eq_some_iff, Nat.add_right_cancel_iff,
      exists_eq_right]
  rw [sameRow, List.findIdx?_eq_some_iff_getElem]
  constructor
  · rintro ⟨isLine, shown, unmentioned⟩
    refine ⟨⟨row, _, isRow, List.getElem?_eq_getElem isLine, shown⟩, row, isRow, ?_⟩
    intro earlier member
    obtain ⟨number, within, rfl⟩ := List.mem_take_iff_getElem.mp member
    exact unmentioned number (Nat.lt_of_lt_of_le within (Nat.min_le_left _ _))
  · rintro ⟨⟨shownRow, line, isShownRow, found, shown⟩, firstRow, isFirstRow, unmentioned⟩
    obtain rfl : shownRow = row := Option.some_inj.mp (isShownRow.symm.trans isRow)
    obtain rfl : firstRow = shownRow := Option.some_inj.mp (isFirstRow.symm.trans isRow)
    obtain ⟨isLine, rfl⟩ := List.getElem?_eq_some_iff.mp found
    refine ⟨isLine, shown, fun number within => unmentioned _ ?_⟩
    exact List.mem_take_iff_getElem.mpr ⟨number, Nat.lt_min.mpr ⟨within, Nat.lt_trans within isLine⟩, rfl⟩

theorem warning_pointsAt_iff (isRow : rowOf? content key = some row) :
    PointsAt content key (warningAbout content file key.name) ↔
      '.' ∉ key.name.toList ∧ ShownInPlace content key ∧ FirstMentioned content key := by
  rw [← lineOf?_eq_iff isRow, ← Text.lastField_eq_self_iff]
  constructor
  · rintro ⟨sameName, sameLine⟩
    dsimp only [warningAbout] at sameName sameLine
    exact ⟨sameName, sameName ▸ sameLine⟩
  · rintro ⟨sameName, sameLine⟩
    refine ⟨sameName, ?_⟩
    dsimp only [warningAbout]
    rw [sameName, sameLine]

/-- Every warning is about one thing to report, in order: an unknown key, which is written on its row, or
a moment in the place of a section.  The warnings are those about the unknown keys, each with the name
of its key and the number of its line, exactly if there is no such moment, no name has a dot, and the
line of each key shows its name while none before it does.  For a key without quotes nothing is asked but
that no line before its own mentions it. -/
theorem warnings_point_at_keys_iff {document : Setting} {config : Config} {warnings : List Warning}
    (isDocument : Toml.read? content = some document)
    (accepted : parse content file = .ok (config, warnings)) :
    warnings = (outline.findings document).map (warningAbout content file ∘ reportedName) ∧
    (∀ key ∈ outline.strayKeys document, ∃ row, rowOf? content key = some row ∧
      WrittenOnRow content key row) ∧
    (List.Forall₂ (PointsAt content) (outline.strayKeys document) warnings ↔
      none ∉ outline.findings document ∧ ∀ key ∈ outline.strayKeys document,
        '.' ∉ key.name.toList ∧ ShownInPlace content key ∧ FirstMentioned content key) ∧
    ∀ key ∈ outline.strayKeys document, WrittenInQuotes content key ∨
      WrittenBare content key ∧ '.' ∉ key.name.toList ∧ ShownInPlace content key := by
  obtain ⟨unknown, readDocument, rfl⟩ := read_of_parse isDocument accepted
  have told : unknown = (outline.findings document).map reportedName :=
    outline_tells .toml document _ readDocument
  have written : ∀ key ∈ outline.strayKeys document, Toml.WrittenIn content.toList key := by
    intro key member
    exact holds_of_mem_findings outline document (Toml.allKeys_of_read? isDocument)
      (List.reduceOption_mem_iff.mp member)
  have located := fun key member => exists_row_of_writtenIn (written key member)
  refine ⟨?all, located, ?pointing, ?bare⟩
  case all =>
    rw [told, List.map_map]
  case pointing =>
    by_cases noMoment : none ∉ outline.findings document
    · -- Each warning is about one unknown key.
      rw [told, reportedNames_of_none_notMem noMoment, ← strayKeys, List.map_map,
        List.forall₂_map_right_iff, List.forall₂_same]
      refine ⟨fun points => ⟨noMoment, fun key member => ?_⟩, fun inPlace key member => ?_⟩
      · obtain ⟨row, isRow, _⟩ := located key member
        exact (warning_pointsAt_iff isRow).mp (points key member)
      · obtain ⟨row, isRow, _⟩ := located key member
        exact (warning_pointsAt_iff isRow).mpr (inPlace.2 key member)
    · -- There are more warnings than unknown keys.
      refine iff_of_false (fun points => ?_) fun inPlace => noMoment inPlace.1
      have fewer := List.reduceOption_length_lt_iff.mpr (not_not.mp noMoment)
      have sameLength := points.length_eq
      rw [told, List.length_map, List.length_map] at sameLength
      exact absurd sameLength (Nat.ne_of_lt fewer)
  case bare =>
    intro key member
    obtain isBare | inQuotes := writtenBare_or_writtenInQuotes (written key member)
    · exact .inr ⟨isBare, notMem_of_writtenBare isBare (by decide),
        shownInPlace_of_writtenBare isBare⟩
    · exact .inl inQuotes

/-- A misspelt key that nothing before it mentions is pointed at. -/
theorem warning_points_at_misspelt_key :
    parse "[compile]\nlib = 2\n" ⟨"cljc.toml"⟩ =
        .ok (.default, [⟨"lib", ⟨"cljc.toml"⟩, some 2, some "libs"⟩]) ∧
      List.Forall₂ (PointsAt "[compile]\nlib = 2\n") [⟨"lib", some ⟨8, 5⟩⟩]
        [⟨"lib", ⟨"cljc.toml"⟩, some 2, some "libs"⟩] := by
  let document := compileDocument ⟨17, 10⟩ ⟨18, 1⟩ [(⟨"lib", some ⟨8, 5⟩⟩, .integer (some ⟨2, 1⟩) 2)]
  have isDocument : Toml.read? "[compile]\nlib = 2\n" = some document := by
    rfl
  have accepted : parse "[compile]\nlib = 2\n" ⟨"cljc.toml"⟩ =
      .ok (.default, [⟨"lib", ⟨"cljc.toml"⟩, some 2, some "libs"⟩]) := by
    have read : Config.read .toml document = .ok ⟨.default, ["lib"]⟩ := by
      rfl
    have warnings : ["lib"].map (warningAbout "[compile]\nlib = 2\n" ⟨"cljc.toml"⟩) =
        [⟨"lib", ⟨"cljc.toml"⟩, some 2, some "libs"⟩] := by
      decide +kernel
    rw [← warnings]
    exact parse_of_read isDocument read
  have found : outline.findings document = [some ⟨"lib", some ⟨8, 5⟩⟩] := by
    rfl
  have stray : outline.strayKeys document = [⟨"lib", some ⟨8, 5⟩⟩] := by
    rfl
  obtain ⟨_, _, pointing, _⟩ := warnings_point_at_keys_iff isDocument accepted
  rw [found, stray] at pointing
  refine ⟨accepted, pointing.mpr ⟨by decide, List.forall_mem_singleton.mpr ⟨by decide, ?_, ?_⟩⟩⟩
  · exact ⟨1, "lib = 2", by decide +kernel, by decide +kernel, by decide +kernel⟩
  · exact ⟨1, by decide +kernel, by decide +kernel⟩

/-- A comment that mentions a misspelt key before it is pointed at in its place. -/
theorem warning_points_at_comment :
    ∃ document, Toml.read? "[compile]\n# lib\nlib = 2\n" = some document ∧
      outline.strayKeys document = [⟨"lib", some ⟨8, 5⟩⟩] ∧
      rowOf? "[compile]\n# lib\nlib = 2\n" ⟨"lib", some ⟨8, 5⟩⟩ = some 2 ∧
      parse "[compile]\n# lib\nlib = 2\n" ⟨"cljc.toml"⟩ =
        .ok (.default, [⟨"lib", ⟨"cljc.toml"⟩, some 2, some "libs"⟩]) ∧
      ¬ List.Forall₂ (PointsAt "[compile]\n# lib\nlib = 2\n") (outline.strayKeys document)
        [⟨"lib", ⟨"cljc.toml"⟩, some 2, some "libs"⟩] := by
  let document := compileDocument ⟨23, 16⟩ ⟨24, 1⟩ [(⟨"lib", some ⟨8, 5⟩⟩, .integer (some ⟨2, 1⟩) 2)]
  have isDocument : Toml.read? "[compile]\n# lib\nlib = 2\n" = some document := by
    rfl
  have stray : outline.strayKeys document = [⟨"lib", some ⟨8, 5⟩⟩] := by
    rfl
  have row : rowOf? "[compile]\n# lib\nlib = 2\n" ⟨"lib", some ⟨8, 5⟩⟩ = some 2 := by
    decide +kernel
  refine ⟨document, isDocument, stray, row, ?accepted, ?astray⟩
  case accepted =>
    have read : Config.read .toml document = .ok ⟨.default, ["lib"]⟩ := by
      rfl
    have warnings : ["lib"].map (warningAbout "[compile]\n# lib\nlib = 2\n" ⟨"cljc.toml"⟩) =
        [⟨"lib", ⟨"cljc.toml"⟩, some 2, some "libs"⟩] := by
      decide +kernel
    rw [← warnings]
    exact parse_of_read isDocument read
  case astray =>
    rw [stray, List.forall₂_cons]
    rintro ⟨⟨_, sameLine⟩, _⟩
    rw [row] at sameLine
    exact absurd sameLine (by decide)

end Config

end ClojureBuild
