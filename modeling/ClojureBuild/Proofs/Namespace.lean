import ClojureBuild.Namespace
import ClojureBuild.Proofs.Path.Below
import ClojureBuild.Proofs.Text.Encoding

/-!
# Namespaces and the paths of their sources

The segments of a namespace are plain names, and so are their bytes and the names that lead to its
source and to its artifact.  A path spells a namespace exactly when its components, a leading dot
aside, are the names that lead to the source of that namespace.
-/

namespace ClojureBuild

theorem plainName_of_canBeSegment {text : String} (segment : canBeSegment text = true) :
    PlainName text ∧ '.' ∉ text.toList := by
  simp only [canBeSegment, Bool.and_eq_true, Bool.not_eq_true', List.all_eq_true,
    decide_eq_true_eq] at segment
  obtain ⟨nonempty, letters⟩ := segment
  have noDot : '.' ∉ text.toList := by
    intro member
    have held := letters '.' member
    simp at held
  refine ⟨⟨?_, ?_, ?_, ?_⟩, noDot⟩
  · rintro rfl
    simp at nonempty
  · rintro rfl
    exact noDot (by decide)
  · rintro rfl
    exact noDot (by decide)
  · intro member
    have held := letters '/' member
    simp at held

theorem PlainName.encode {text : String} (plain : PlainName text) :
    PlainName (Text.encode text) where
  nonempty := fun empty => plain.nonempty (Text.encode_eq_empty_iff.1 empty)
  notCurrent := fun same => plain.notCurrent (Text.encode_injective same)
  notParent := fun same => plain.notParent (Text.encode_injective same)
  noSlash := by
    rw [Text.mem_encode_iff (by decide)]
    exact plain.noSlash

theorem plainName_append
    {text suffix : String} (plain : PlainName text) (noDot : '.' ∉ text.toList)
    (noSlash : '/' ∉ suffix.toList) : PlainName (text ++ suffix) := by
  obtain ⟨letter, rest, split⟩ :=
    List.exists_cons_of_ne_nil (show text.toList ≠ [] by simpa using plain.nonempty)
  have letterNotDot : letter ≠ '.' := by
    rintro rfl
    exact noDot (by simp [split])
  have firstLetter :
      ∀ other : String, other.toList.head? = some '.' → text ++ suffix ≠ other := by
    intro other startsWithDot equality
    have letters := congrArg (fun whole => whole.toList.head?) equality
    simp [split, startsWithDot, letterNotDot] at letters
  refine ⟨?_, firstLetter "." (by decide), firstLetter ".." (by decide), ?_⟩
  · intro empty
    have letters := congrArg String.toList empty
    simp [split] at letters
  · intro member
    rw [String.toList_append, List.mem_append] at member
    exact member.elim plain.noSlash noSlash

namespace Namespace

variable {defined : Namespace}

/-! ## The names that lead to a source -/

/-- The last segment of a namespace. -/
def lastSegment (defined : Namespace) : String :=
  defined.segments.getLast defined.nonempty

theorem segments_eq (defined : Namespace) :
    defined.segments = defined.segments.dropLast ++ [defined.lastSegment] :=
  (List.dropLast_concat_getLast defined.nonempty).symm

/-- The directories of a namespace and its last segment with an ending, in bytes. -/
def namesWith (suffix : String) (defined : Namespace) : List ByteText :=
  (defined.segments.dropLast ++ [defined.lastSegment ++ suffix]).map Text.encode

/-- The names that lead to the source of a namespace. -/
def sourceNames (defined : Namespace) : List ByteText :=
  defined.namesWith sourceSuffix

/-- The names that lead to the artifact of a namespace. -/
def artifactNames (defined : Namespace) : List ByteText :=
  defined.namesWith artifactSuffix

theorem canBeSegment_of_mem {segment : String} (member : segment ∈ defined.segments) :
    canBeSegment segment = true :=
  List.all_eq_true.1 defined.valid segment member

theorem lastSegment_mem (defined : Namespace) : defined.lastSegment ∈ defined.segments :=
  List.getLast_mem defined.nonempty

theorem namesWith_ne_nil (suffix : String) (defined : Namespace) :
    defined.namesWith suffix ≠ [] := by
  simp [namesWith]

theorem namesWith_eq (suffix : String) (defined : Namespace) :
    defined.namesWith suffix = defined.segments.dropLast.map Text.encode ++
      [Text.encode (defined.lastSegment ++ suffix)] := by
  rw [namesWith, List.map_append, List.map_singleton]

theorem plainName_of_mem_namesWith
    {suffix : String} (noSlash : '/' ∉ suffix.toList) :
    ∀ name ∈ defined.namesWith suffix, PlainName name := by
  intro name member
  obtain ⟨text, listed, rfl⟩ := List.mem_map.1 member
  apply PlainName.encode
  rcases List.mem_append.1 listed with inFront | isLast
  · exact (plainName_of_canBeSegment
      (canBeSegment_of_mem (List.dropLast_subset _ inFront))).1
  · rw [List.mem_singleton.1 isLast]
    obtain ⟨plain, noDot⟩ :=
      plainName_of_canBeSegment (canBeSegment_of_mem defined.lastSegment_mem)
    exact plainName_append plain noDot noSlash

theorem plainName_of_mem_sourceNames (defined : Namespace) :
    ∀ name ∈ defined.sourceNames, PlainName name :=
  plainName_of_mem_namesWith (by decide)

theorem plainName_of_mem_artifactNames (defined : Namespace) :
    ∀ name ∈ defined.artifactNames, PlainName name :=
  plainName_of_mem_namesWith (by decide)

theorem joinWith_concat_append (separator suffix : String) (front : List String) (last : String) :
    Text.joinWith separator (front ++ [last ++ suffix]) =
      Text.joinWith separator (front ++ [last]) ++ suffix := by
  by_cases frontEmpty : front = []
  · subst frontEmpty
    rfl
  · rw [Text.joinWith_append separator frontEmpty (List.cons_ne_nil _ _),
      Text.joinWith_append separator frontEmpty (List.cons_ne_nil _ _)]
    simp [Text.joinWith, String.append_assoc]

theorem pathWith_eq (suffix : String) (defined : Namespace) :
    defined.pathWith suffix = ⟨Text.joinWith "/" (defined.namesWith suffix)⟩ := by
  have slash : Text.encode "/" = "/" := by decide
  have joined :=
    Text.encode_joinWith "/" (defined.segments.dropLast ++ [defined.lastSegment ++ suffix])
  rw [joinWith_concat_append, ← segments_eq, slash] at joined
  rw [pathWith, Path.ofText, namesWith, joined]

theorem join_pathWith {suffix : String} (noSlash : '/' ∉ suffix.toList) (base : Path)
    (defined : Namespace) :
    base.join (defined.pathWith suffix) = base.below (defined.namesWith suffix) := by
  rw [pathWith_eq,
    Path.below_eq_join base (namesWith_ne_nil suffix defined) (plainName_of_mem_namesWith noSlash)]

theorem join_sourcePath (base : Path) (defined : Namespace) :
    base.join defined.sourcePath = base.below defined.sourceNames :=
  join_pathWith (by decide) base defined

theorem join_artifactPath (base : Path) (defined : Namespace) :
    base.join defined.artifactPath = base.below defined.artifactNames :=
  join_pathWith (by decide) base defined

/-- Namespaces differ in the names that lead to their files. -/
theorem namesWith_injective {left right : Namespace} {suffix : String}
    (sameNames : left.namesWith suffix = right.namesWith suffix) : left = right := by
  obtain ⟨sameFront, sameLast⟩ :=
    List.append_inj' ((List.map_inj_right fun _ _ same => Text.encode_injective same).1 sameNames)
      rfl
  have sameSegment : left.lastSegment = right.lastSegment := by
    have letters := congrArg String.toList (List.singleton_inj.1 sameLast)
    apply String.toList_injective
    simpa using letters
  have sameSegments : left.segments = right.segments := by
    rw [segments_eq left, segments_eq right, sameFront, sameSegment]
  cases left
  cases right
  simpa using sameSegments

/-! ## Paths that spell a namespace -/

theorem ofSegments?_eq_some_iff {segments : List String} :
    ofSegments? segments = some defined ↔ defined.segments = segments := by
  constructor
  · intro read
    unfold ofSegments? at read
    split at read
    · split at read
      · cases read
        rfl
      · cases read
    · cases read
  · rintro rfl
    simp [ofSegments?, defined.nonempty, defined.valid]

/-- A name is what comes before its last dot, the dot, and what comes after it. -/
theorem eq_append_of_splitName
    {name stem extension : String} (split : Path.splitName name = (stem, some extension)) :
    name = stem ++ "." ++ extension := by
  have joined := Text.joinWith_fields '.' name
  unfold Path.splitName at split
  cases fields : (Text.fields '.' name).reverse with
  | nil =>
      simp [fields] at split
  | cons last others =>
      have whole : Text.fields '.' name = others.reverse ++ [last] := by
        rw [← List.reverse_reverse (Text.fields '.' name), fields, List.reverse_cons]
      cases others with
      | nil =>
          simp [fields] at split
      | cons next rest =>
          have parts :
              Text.joinWith "." (next :: rest).reverse = stem ∧ last = extension := by
            rw [fields] at split
            split at split
            · cases split
            · cases split
            · cases split
            · next equality =>
                obtain ⟨rfl, rfl⟩ := List.cons.inj equality
                simpa using split
          have dot : String.singleton '.' = "." := by decide
          rw [← joined, whole, dot,
            Text.joinWith_append "." (by simp) (List.cons_ne_nil last []), parts.1, parts.2]
          rfl

/-- The name of a source file splits at its only dot. -/
theorem splitName_append_sourceSuffix
    {stem : ByteText} (nonempty : stem ≠ "") (noDot : '.' ∉ stem.toList) :
    Path.splitName (stem ++ sourceSuffix) = (stem, some "clj") := by
  have suffix : stem ++ sourceSuffix = stem ++ String.singleton '.' ++ "clj" := by
    apply String.toList_injective
    simp [sourceSuffix]
  have fields : Text.fields '.' (stem ++ sourceSuffix) = [stem, "clj"] := by
    have extension : Text.fields '.' "clj" = ["clj"] := by decide
    rw [suffix, Text.fields_append, Text.fields_of_notMem noDot, extension]
    rfl
  unfold Path.splitName
  rw [fields]
  simp [nonempty, Text.joinWith]

theorem directorySegments?_eq_some_iff
    {components : List Path.Component} {directories : List String} :
    directorySegments? components = some directories ↔
      components.filter (fun component => component ≠ .current) =
        (directories.map Text.encode).map .name := by
  induction components generalizing directories with
  | nil =>
      simp [directorySegments?]
  | cons head tail inductionHypothesis =>
      cases head with
      | top =>
          simp only [directorySegments?, reduceCtorEq, false_iff]
          cases directories with
          | nil =>
              simp
          | cons first rest =>
              simp
      | current =>
          simpa [directorySegments?] using inductionHypothesis
      | parent =>
          simp only [directorySegments?, reduceCtorEq, false_iff]
          cases directories with
          | nil =>
              simp
          | cons first rest =>
              simp
      | name text =>
          rw [directorySegments?, List.filter_cons_of_pos (by simp)]
          cases directories with
          | nil =>
              cases Text.decode? text <;> simp
          | cons first rest =>
              rw [List.map_cons, List.map_cons, List.cons.injEq, Path.Component.name.injEq,
                ← Text.decode?_eq_some_iff, ← inductionHypothesis]
              cases Text.decode? text with
              | none =>
                  simp
              | some segment =>
                  simp only [Option.map_eq_some_iff, List.cons.injEq, Option.some.injEq]
                  constructor
                  · rintro ⟨others, read, rfl, rfl⟩
                    exact ⟨rfl, read⟩
                  · rintro ⟨rfl, read⟩
                    exact ⟨rest, read, rfl, rfl⟩

/-- What comes after the first component is no leading dot. -/
theorem current_notMem_later (pieces : List String) :
    Path.Component.current ∉ pieces.filterMap Path.laterComponent? :=
  fun member => (Path.ne_of_mem_later member).2 rfl

theorem current_notMem_tail (path : Path) : Path.Component.current ∉ path.components.tail := by
  obtain ⟨first, later, split⟩ := List.exists_cons_of_ne_nil path.pieces_ne_nil
  simp only [Path.components, split]
  cases Path.firstComponent? path.isAbsolute first with
  | none =>
      intro member
      exact current_notMem_later later (List.mem_of_mem_tail member)
  | some component =>
      exact current_notMem_later later

theorem fileName?_eq_some_iff {path : Path} {name : String} :
    path.fileName? = some name ↔ ∃ initial, path.components = initial ++ [.name name] := by
  rw [Path.fileName?, Option.bind_eq_some_iff]
  constructor
  · intro named
    obtain ⟨component, isLast, isName⟩ := named
    obtain ⟨initial, split⟩ := List.getLast?_eq_some_iff.1 isLast
    cases component with
    | top =>
        cases isName
    | current =>
        cases isName
    | parent =>
        cases isName
    | name text =>
        cases isName
        exact ⟨initial, split⟩
  · intro ends
    obtain ⟨initial, split⟩ := ends
    exact ⟨.name name, by rw [split, List.getLast?_concat], rfl⟩

/-- A path with the extension of sources is named after its stem. -/
theorem exists_fileName_of_hasSourceExtension {path : Path}
    (extension : hasSourceExtension path = true) :
    ∃ stem, path.stem? = some stem ∧ path.fileName? = some (stem ++ sourceSuffix) := by
  simp only [hasSourceExtension, Path.extension?, beq_iff_eq, Option.bind_eq_some_iff]
    at extension
  obtain ⟨fileName, named, split⟩ := extension
  have whole : Path.splitName fileName = ((Path.splitName fileName).1, some "clj") :=
    Prod.ext rfl split
  refine ⟨(Path.splitName fileName).1, by simp [Path.stem?, named], ?_⟩
  have suffix : sourceSuffix = "." ++ "clj" := by decide
  rw [suffix, ← String.append_assoc, ← eq_append_of_splitName whole, named]

theorem stemSegment?_eq_some_iff {path : Path} {segment : String} :
    stemSegment? path = some segment ↔ path.stem? = some (Text.encode segment) := by
  rw [stemSegment?, Option.bind_eq_some_iff]
  constructor
  · rintro ⟨stem, isStem, read⟩
    rw [isStem, Text.decode?_eq_some_iff.1 read]
  · intro isStem
    exact ⟨_, isStem, Text.decode?_encode segment⟩

theorem encode_append_sourceSuffix (text : String) :
    Text.encode (text ++ sourceSuffix) = Text.encode text ++ sourceSuffix := by
  have itself : Text.encode sourceSuffix = sourceSuffix := by decide
  rw [Text.encode_append, itself]

/-- What a path spells has its components, a leading dot aside, for the names of its source. -/
theorem components_of_ofSourcePath? {path : Path} (read : ofSourcePath? path = some defined) :
    path.components.filter (fun component => component ≠ .current) =
      defined.sourceNames.map .name := by
  unfold ofSourcePath? at read
  split at read
  · next extension =>
      obtain ⟨stem, isStem, named⟩ := exists_fileName_of_hasSourceExtension extension
      split at read
      · next segment front spelled directories =>
          rw [stemSegment?_eq_some_iff, isStem, Option.some.injEq] at spelled
          have segments := ofSegments?_eq_some_iff.1 read
          rw [segments_eq defined] at segments
          obtain ⟨sameFront, sameLast⟩ := List.append_inj' segments rfl
          obtain ⟨initial, components⟩ := fileName?_eq_some_iff.1 named
          have frontRead := directorySegments?_eq_some_iff.1 directories
          rw [components, List.dropLast_concat] at frontRead
          rw [components, List.filter_append, frontRead, sourceNames, namesWith, sameFront,
            List.singleton_inj.1 sameLast, List.map_append, List.map_append, List.map_singleton,
            List.map_singleton, encode_append_sourceSuffix, spelled]
          simp
      · cases read
  · cases read

/-- The last component of a path is no dot if there is another one. -/
theorem last_ne_current {path : Path} {initial : List Path.Component} {last : Path.Component}
    (split : path.components = initial ++ [last])
    (solid : path.components.filter (fun component => component ≠ .current) ≠ []) :
    last ≠ .current := by
  rintro rfl
  cases initial with
  | nil =>
      simp [split] at solid
  | cons first rest =>
      have tailFree := current_notMem_tail path
      simp [split] at tailFree

/-- The components of a path that spells a namespace, a leading dot aside, are the names that lead
to its source. -/
theorem ofSourcePath?_eq_some_iff {path : Path} :
    ofSourcePath? path = some defined ↔
      path.components.filter (fun component => component ≠ .current) =
        defined.sourceNames.map .name := by
  refine ⟨components_of_ofSourcePath?, ?_⟩
  intro components
  have solid : path.components.filter (fun component => component ≠ .current) ≠ [] := by
    rw [components]
    simp [sourceNames, namesWith]
  have written : path.components ≠ [] := by
    intro empty
    simp [empty] at solid
  obtain ⟨initial, last, split⟩ := (List.eq_nil_or_concat path.components).resolve_left written
  rw [List.concat_eq_append] at split
  have parts :
      initial.filter (fun component => component ≠ .current) =
          (defined.segments.dropLast.map Text.encode).map .name ∧
        last = .name (Text.encode defined.lastSegment ++ sourceSuffix) := by
    have lastKept : [last].filter (fun component => component ≠ .current) = [last] := by
      simp [last_ne_current split solid]
    rw [split, List.filter_append, sourceNames, namesWith, List.map_append, List.map_append,
      List.map_singleton, encode_append_sourceSuffix, lastKept] at components
    obtain ⟨sameFront, sameLast⟩ := List.append_inj' components rfl
    exact ⟨sameFront, List.singleton_inj.1 sameLast⟩
  have named : path.fileName? = some (Text.encode defined.lastSegment ++ sourceSuffix) :=
    fileName?_eq_some_iff.2 ⟨initial, by rw [split, parts.2]⟩
  have directories : directorySegments? path.components.dropLast =
      some defined.segments.dropLast := by
    rw [directorySegments?_eq_some_iff, split, List.dropLast_concat]
    exact parts.1
  obtain ⟨plain, noDot⟩ :=
    plainName_of_canBeSegment (canBeSegment_of_mem defined.lastSegment_mem)
  have nameSplit := splitName_append_sourceSuffix plain.encode.nonempty
    (by rw [Text.mem_encode_iff (by decide)]; exact noDot)
  have extension : hasSourceExtension path = true := by
    simp [hasSourceExtension, Path.extension?, named, nameSplit]
  have stem : stemSegment? path = some defined.lastSegment := by
    rw [stemSegment?_eq_some_iff]
    simp [Path.stem?, named, nameSplit]
  rw [ofSourcePath?, if_pos extension, stem, directories]
  exact ofSegments?_eq_some_iff.2 (segments_eq defined)

/-- Plain names spell a namespace exactly when they lead to its source. -/
theorem ofSourcePath?_joinWith_eq_some_iff
    {names : List String} (nonempty : names ≠ []) (plain : ∀ name ∈ names, PlainName name) :
    ofSourcePath? ⟨Text.joinWith "/" names⟩ = some defined ↔ names = defined.sourceNames := by
  have namesOnly :
      (names.map Path.Component.name).filter (fun component => component ≠ .current) =
        names.map .name := by
    rw [List.filter_eq_self]
    intro component member
    obtain ⟨name, -, rfl⟩ := List.mem_map.1 member
    simp
  rw [ofSourcePath?_eq_some_iff, Path.components_joinWith nonempty plain, namesOnly]
  constructor
  · intro equality
    exact List.map_inj_right (fun _ _ same => Path.Component.name.inj same) |>.1 equality
  · rintro rfl
    rfl

/-- The path of a source spells its namespace. -/
theorem ofSourcePath?_sourcePath (defined : Namespace) :
    ofSourcePath? defined.sourcePath = some defined := by
  rw [sourcePath, pathWith_eq]
  exact (ofSourcePath?_joinWith_eq_some_iff (namesWith_ne_nil _ defined)
    defined.plainName_of_mem_sourceNames).2 rfl

/-- A path that spells a namespace is relative, and its pieces without fillers are the names that
lead to the source. -/
theorem pieces_of_ofSourcePath?
    {path : Path} (read : ofSourcePath? path = some defined) :
    path.isAbsolute = false ∧
      path.pieces.filter (fun piece => !Path.isFiller piece) = defined.sourceNames := by
  have components := ofSourcePath?_eq_some_iff.1 read
  have relative : path.isAbsolute = false := by
    cases absolute : path.isAbsolute with
    | false =>
        rfl
    | true =>
        rw [Path.components_of_isAbsolute absolute] at components
        have member : Path.Component.top ∈ defined.sourceNames.map Path.Component.name := by
          rw [← components]
          simp
        obtain ⟨name, -, equality⟩ := List.mem_map.1 member
        cases equality
  refine ⟨relative, ?_⟩
  rw [Path.filter_components_of_relative relative] at components
  rw [Path.filter_eq_map_text, components, List.map_map]
  exact List.map_id defined.sourceNames

end Namespace

end ClojureBuild
