import ClojureBuild.Proofs.Build.Detection
import ClojureBuild.Proofs.Namespace.Spelling
import ClojureBuild.Proofs.Workspace.Survey

/-!
# One namespace for each source file

Below a root that can be walked, every source file gives one namespace if its directories and its
stem are texts without dots and backslashes, and one notice otherwise.  The paths of the namespaces
are the relative paths of the files, in the order of the walk.
-/

namespace ClojureBuild

/-! ## Which paths spell a namespace -/

/-- Whether a text is free of dots and backslashes. -/
def isClean (text : String) : Bool :=
  !text.toList.contains '.' && !text.toList.contains '\\'

theorem isClean_iff {text : String} :
    isClean text = true ↔ '.' ∉ text.toList ∧ '\\' ∉ text.toList := by
  simp [isClean]

/-- Whether bytes spell a text. -/
def spellsText (bytes : ByteText) : Bool :=
  (Text.decode? bytes).isSome

theorem spellsText_iff {bytes : ByteText} :
    spellsText bytes = true ↔ ∃ text, bytes = Text.encode text := by
  rw [spellsText, Option.isSome_iff_exists]
  exact exists_congr fun _ => Text.decode?_eq_some_iff

theorem exists_map_of_forall {α β : Type} {property : β → Prop} {image : β → α} {items : List α}
    (each : ∀ item ∈ items, ∃ origin, property origin ∧ item = image origin) :
    ∃ origins : List β, (∀ origin ∈ origins, property origin) ∧ items = origins.map image := by
  induction items with
  | nil =>
      exact ⟨[], List.forall_mem_nil _, rfl⟩
  | cons item rest inductionHypothesis =>
      rw [List.forall_mem_cons] at each
      obtain ⟨origin, holds, isImage⟩ := each.1
      obtain ⟨origins, allHold, areImages⟩ := inductionHypothesis each.2
      refine ⟨origin :: origins, List.forall_mem_cons.2 ⟨holds, allHold⟩, ?_⟩
      rw [isImage, areImages, List.map_cons]

theorem exists_map_encode {names : List ByteText}
    (areTexts : ∀ name ∈ names, spellsText name = true) :
    ∃ texts : List String, names = texts.map Text.encode := by
  obtain ⟨texts, -, spelled⟩ := exists_map_of_forall fun name member =>
    have ⟨text, isText⟩ := spellsText_iff.1 (areTexts name member)
    ⟨text, trivial, isText⟩
  exact ⟨texts, spelled⟩

theorem isClean_encode (text : String) : isClean (Text.encode text) = isClean text := by
  rw [Bool.eq_iff_iff, isClean_iff, isClean_iff, Text.mem_encode_iff (by decide),
    Text.mem_encode_iff (by decide)]

theorem canBeSegment_iff_of_plain {text : String} (nonempty : text ≠ "")
    (noSlash : '/' ∉ text.toList) : canBeSegment text = true ↔ isClean text = true := by
  rw [canBeSegment_iff, isClean_iff]
  simp [nonempty, noSlash]

namespace Path

variable {root left right : Path} {lefts rights front names : List ByteText} {last : ByteText}

/-- Whether the names of the directories and the stem of a relative path all pass a test. -/
def namesPass (test : ByteText → Bool) (relative : Path) : Bool :=
  (relative.components.dropLast.all fun component => test component.text) &&
    relative.stem?.all test

/-- Whether the directories and the stem of a relative path are free of dots and backslashes. -/
def isCleanlyNamed (relative : Path) : Bool :=
  relative.namesPass isClean

/-- Whether the directories and the stem of a relative path are texts. -/
def isReadablyNamed (relative : Path) : Bool :=
  relative.namesPass spellsText

theorem before_iff :
    left.Before right ↔
      componentsAtMost left.components right.components = true ∧
        left.components ≠ right.components := by
  rw [Before, atMost, ← Bool.not_eq_true, same_iff]

/-- Paths below a root are in the order of their relative paths. -/
theorem before_joinWith_iff (leftNonempty : lefts ≠ [])
    (leftPlain : ∀ name ∈ lefts, PlainName name) (rightNonempty : rights ≠ [])
    (rightPlain : ∀ name ∈ rights, PlainName name) :
    (Path.mk (Text.joinWith "/" lefts)).Before ⟨Text.joinWith "/" rights⟩ ↔
      (root.below lefts).Before (root.below rights) := by
  rw [before_iff, before_iff, components_joinWith leftNonempty leftPlain,
    components_joinWith rightNonempty rightPlain, components_below root leftPlain,
    components_below root rightPlain, componentsAtMost_append, ne_eq, ne_eq,
    List.append_cancel_left_eq]

end Path

namespace Namespace

variable {defined : Namespace} {front names : List ByteText} {last : ByteText}

theorem splitName_ne_empty_stem {name : ByteText} :
    Path.splitName name ≠ ("", some "clj") := by
  intro split
  have whole := eq_append_of_splitName split
  have bare : ("" ++ "." ++ "clj" : String) = ".clj" := by
    decide
  rw [whole, bare] at split
  revert split
  decide

theorem isSome_ofSegments? {segments : List String} (nonempty : segments ≠ []) :
    (ofSegments? segments).isSome = segments.all canBeSegment := by
  rw [ofSegments?, dif_pos nonempty]
  by_cases valid : segments.all canBeSegment = true
  · rw [dif_pos valid, valid]
    rfl
  · rw [dif_neg valid, Bool.eq_false_iff.2 valid]
    rfl

theorem all_canBeSegment_eq {segments : List String}
    (plain : ∀ segment ∈ segments, segment ≠ "" ∧ '/' ∉ segment.toList) :
    segments.all canBeSegment = segments.all isClean := by
  rw [Bool.eq_iff_iff, List.all_eq_true, List.all_eq_true]
  apply forall₂_congr
  intro segment member
  obtain ⟨nonempty, noSlash⟩ := plain segment member
  exact canBeSegment_iff_of_plain nonempty noSlash

theorem namesPass_joinWith (test : ByteText → Bool)
    (plainNames : ∀ name ∈ front ++ [last], PlainName name) :
    Path.namesPass test ⟨Text.joinWith "/" (front ++ [last])⟩ =
      (front ++ [(Path.splitName last).1]).all test := by
  have components := Path.components_joinWith (List.concat_ne_nil _ _) plainNames
  have named : (Path.mk (Text.joinWith "/" (front ++ [last]))).fileName? = some last := by
    rw [List.map_append, List.map_singleton] at components
    exact fileName?_eq_some_iff.2 ⟨_, components⟩
  rw [Path.namesPass, components, Path.stem?, named]
  simp [Path.Component.text, Function.comp_def]

/-- What is before and after the last dot of a plain name has no slash, and is not all empty. -/
theorem plain_stem {name : ByteText} (plain : PlainName name)
    (isSource : (Path.splitName name).2 = some "clj") :
    (Path.splitName name).1 ≠ "" ∧ '/' ∉ (Path.splitName name).1.toList := by
  have parts : Path.splitName name = ((Path.splitName name).1, some "clj") :=
    Prod.ext rfl isSource
  have whole := eq_append_of_splitName parts
  constructor
  · intro empty
    rw [empty] at parts
    exact splitName_ne_empty_stem parts
  · intro slash
    have noSlash := plain.noSlash
    rw [whole] at noSlash
    simp [slash] at noSlash

theorem directorySegments?_map_name_eq_some_iff {directories : List String} :
    directorySegments? (front.map .name) = some directories ↔
      front = directories.map Text.encode := by
  have names : (front.map Path.Component.name).filter (fun component => component ≠ .current) =
      front.map .name := by
    rw [List.filter_eq_self]
    intro component member
    obtain ⟨name, -, rfl⟩ := List.mem_map.1 member
    rfl
  rw [directorySegments?_eq_some_iff, names]
  exact (List.map_injective_iff.2 fun _ _ => Path.Component.name.inj).eq_iff

/-- Names spell the segments of a namespace when they are texts without dots and backslashes. -/
theorem isSome_spelled {stem : ByteText}
    (plain : ∀ name ∈ front ++ [stem], name ≠ "" ∧ '/' ∉ name.toList) :
    (match Text.decode? stem, directorySegments? (front.map .name) with
      | some stem, some directories => ofSegments? (directories ++ [stem])
      | _, _ => none).isSome =
      ((front ++ [stem]).all spellsText && (front ++ [stem]).all isClean) := by
  split
  · next segment directories stemRead directoriesRead =>
      have areTexts : front ++ [stem] = (directories ++ [segment]).map Text.encode := by
        rw [List.map_append, List.map_singleton, ← Text.decode?_eq_some_iff.1 stemRead,
          ← directorySegments?_map_name_eq_some_iff.1 directoriesRead]
      have plainTexts : ∀ text ∈ directories ++ [segment], text ≠ "" ∧ '/' ∉ text.toList := by
        intro text member
        have inBytes := plain (Text.encode text) (areTexts ▸ List.mem_map_of_mem member)
        rwa [ne_eq, Text.encode_eq_empty_iff, Text.mem_encode_iff (by decide)] at inBytes
      rw [isSome_ofSegments? (List.concat_ne_nil _ _), all_canBeSegment_eq plainTexts, areTexts,
        List.all_map, List.all_map]
      simp [Function.comp_def, spellsText, isClean_encode]
  · next unread =>
      have unreadable : (front ++ [stem]).all spellsText = false := by
        rw [Bool.eq_false_iff, ne_eq, List.all_eq_true, List.forall_mem_append,
          List.forall_mem_singleton]
        rintro ⟨directoriesSpell, stemSpells⟩
        obtain ⟨segment, isStem⟩ := spellsText_iff.1 stemSpells
        obtain ⟨directories, areDirectories⟩ := exists_map_encode directoriesSpell
        exact unread segment directories (Text.decode?_eq_some_iff.2 isStem)
          (directorySegments?_map_name_eq_some_iff.2 areDirectories)
      rw [unreadable]
      rfl

/-- The relative path of a source file spells a namespace when its directories and its stem are texts
and have no dots and no backslashes. -/
theorem isSome_ofSourcePath?_joinWith (nonempty : names ≠ [])
    (plainNames : ∀ name ∈ names, PlainName name) :
    (ofSourcePath? ⟨Text.joinWith "/" names⟩).isSome =
      (hasSourceExtension ⟨Text.joinWith "/" names⟩ &&
        Path.isReadablyNamed ⟨Text.joinWith "/" names⟩ &&
          Path.isCleanlyNamed ⟨Text.joinWith "/" names⟩) := by
  obtain ⟨front, last, rfl⟩ := (List.eq_nil_or_concat' names).resolve_left nonempty
  have components := Path.components_joinWith nonempty plainNames
  rw [List.map_append, List.map_singleton] at components
  have named : (Path.mk (Text.joinWith "/" (front ++ [last]))).fileName? = some last :=
    fileName?_eq_some_iff.2 ⟨_, components⟩
  rw [ofSourcePath?, stemSegment?, Path.stem?, named, components, List.dropLast_concat,
    Path.isReadablyNamed, Path.isCleanlyNamed, namesPass_joinWith _ plainNames,
    namesPass_joinWith _ plainNames]
  cases extension : hasSourceExtension ⟨Text.joinWith "/" (front ++ [last])⟩ with
  | false =>
      rfl
  | true =>
      have isExtension : (Path.splitName last).2 = some "clj" := by
        simpa [hasSourceExtension, Path.extension?, named] using extension
      have plain : ∀ name ∈ front ++ [(Path.splitName last).1],
          name ≠ "" ∧ '/' ∉ name.toList := by
        rw [List.forall_mem_append, List.forall_mem_singleton] at plainNames ⊢
        exact ⟨fun name member => ⟨(plainNames.1 name member).nonempty,
          (plainNames.1 name member).noSlash⟩, plain_stem plainNames.2 isExtension⟩
      rw [if_pos rfl, Option.map_some, Option.bind_some]
      exact isSome_spelled plain

end Namespace

/-! ## What a walk finds -/

namespace Workspace

variable {workspace : Workspace} {root : Path} {files : List Path}

/-- The files of a walk lie below its root. -/
theorem exists_names_of_walk (wellFormed : workspace.tree.WellFormed)
    (directory : workspace.isDirectory root = true)
    (done : (workspace.walk root none).1 = .ok files) :
    ∃ listed : List (List ByteText),
      (∀ names ∈ listed, names ≠ [] ∧ ∀ name ∈ names, PlainName name) ∧
        files = listed.map root.below := by
  cases named : root.same standardInput with
  | true =>
      rw [walk, named, if_pos rfl] at done
      cases done
      exact ⟨[], List.forall_mem_nil _, rfl⟩
  | false =>
      apply exists_map_of_forall
      intro file member
      obtain ⟨names, finds, isFile⟩ := (mem_walk_iff wellFormed directory named done).1 member
      exact ⟨names, ⟨finds.nonempty, finds.plain⟩, isFile⟩

/-- A walk warns of links only. -/
theorem exists_loop_of_mem_walk {notice : Notice}
    (done : (workspace.walk root none).1 = .ok files)
    (warned : notice ∈ (workspace.walk root none).2) :
    ∃ child ancestor, notice = .linkLoop child ancestor := by
  rw [walk] at done warned
  split at done
  · next named =>
      rw [if_pos named] at warned
      cases warned
  · next unnamed =>
      rw [if_neg unnamed, collect_snd (collect_eq_ok_iff.1 done).1] at warned
      obtain ⟨visit, -, isNotice⟩ := List.mem_filterMap.1 warned
      obtain ⟨child, ancestor, -, isLoop⟩ := Visit.notice?_eq_some_iff.1 isNotice
      exact ⟨child, ancestor, isLoop⟩

end Workspace

/-! ## What detection makes of it -/

namespace Build

variable {root : Path} {namespaces : List Namespace} {progress later : Progress}

/-- The relative path that names spell. -/
def relativePath (names : List ByteText) : Path :=
  ⟨Text.joinWith "/" names⟩

/-- Whether a file below a root has the extension of sources, and the name of a directory or its stem
is no text or holds a dot or a backslash. -/
def isSkipped (root file : Path) : Bool :=
  (file.relativeTo? root).any fun relative =>
    Namespace.hasSourceExtension relative &&
      !(relative.isReadablyNamed && relative.isCleanlyNamed)

section Listed

variable {names : List ByteText} {listed : List (List ByteText)}

theorem sourcePath_of_ofSourcePath? (nonempty : names ≠ [])
    (plainNames : ∀ name ∈ names, PlainName name) {defined : Namespace}
    (read : Namespace.ofSourcePath? (relativePath names) = some defined) :
    defined.sourcePath = relativePath names := by
  rw [Namespace.sourcePath, Namespace.pathWith_eq, relativePath,
    (Namespace.ofSourcePath?_joinWith_eq_some_iff nonempty plainNames).1 read]
  rfl

variable (plain : ∀ names ∈ listed, names ≠ [] ∧ ∀ name ∈ names, PlainName name)

include plain in
theorem relativeTo?_listed (root : Path) :
    (listed.map root.below).map (fun file => file.relativeTo? root) =
      (listed.map relativePath).map some := by
  rw [List.map_map, List.map_map]
  apply List.map_congr_left
  intro names member
  obtain ⟨nonempty, plainNames⟩ := plain names member
  exact Path.relativeTo?_below root nonempty plainNames

include plain in
/-- The namespaces of files have the relative paths of those files whose names can be read and are
clean. -/
theorem map_sourcePath_listed (root : Path) :
    ((listed.map root.below).filterMap (namespaceOf? root)).map Namespace.sourcePath =
      (listed.map relativePath).filter fun relative =>
        Namespace.hasSourceExtension relative && relative.isReadablyNamed &&
          relative.isCleanlyNamed := by
  induction listed with
  | nil =>
      rfl
  | cons names rest inductionHypothesis =>
      rw [List.forall_mem_cons] at plain
      obtain ⟨⟨nonempty, plainNames⟩, restPlain⟩ := plain
      have isSome : (Namespace.ofSourcePath? (relativePath names)).isSome =
          (Namespace.hasSourceExtension (relativePath names) &&
            (relativePath names).isReadablyNamed && (relativePath names).isCleanlyNamed) :=
        Namespace.isSome_ofSourcePath?_joinWith nonempty plainNames
      have read : namespaceOf? root (root.below names) =
          Namespace.ofSourcePath? (relativePath names) := by
        rw [namespaceOf?, Path.relativeTo?_below root nonempty plainNames]
        rfl
      rw [List.map_cons, List.map_cons, List.filterMap_cons, List.filter_cons, read, ← isSome]
      cases found : Namespace.ofSourcePath? (relativePath names) with
      | none =>
          exact inductionHypothesis restPlain
      | some defined =>
          simp only [List.map_cons, Option.isSome_some, if_true,
            sourcePath_of_ofSourcePath? nonempty plainNames found, inductionHypothesis restPlain]

include plain in
/-- Source files that no namespace belongs to are those whose names cannot be read or are not clean. -/
theorem unmapped_listed (root : Path) :
    unmapped root (listed.map root.below) = (listed.map root.below).filter (isSkipped root) := by
  apply List.filter_congr
  intro file member
  obtain ⟨names, inListed, rfl⟩ := List.mem_map.1 member
  obtain ⟨nonempty, plainNames⟩ := plain names inListed
  have isSome := Namespace.isSome_ofSourcePath?_joinWith nonempty plainNames
  rw [isSourceBelow, namespaceOf?, isSkipped, Path.relativeTo?_below root nonempty plainNames,
    Option.any_some, Option.bind_some, Option.any_some, ← Option.not_isSome, isSome,
    Bool.and_assoc]
  cases Namespace.hasSourceExtension ⟨Text.joinWith "/" names⟩ <;> rfl

include plain in
theorem ascending_listed (ascending : (listed.map root.below).Pairwise Path.Before) :
    (listed.map relativePath).Pairwise Path.Before := by
  rw [List.pairwise_map] at ascending ⊢
  apply ascending.imp_of_mem
  intro lefts rights leftListed rightListed before
  obtain ⟨leftNonempty, leftPlain⟩ := plain lefts leftListed
  obtain ⟨rightNonempty, rightPlain⟩ := plain rights rightListed
  exact (Path.before_joinWith_iff leftNonempty leftPlain rightNonempty rightPlain).2 before

end Listed

theorem nodup_of_before {paths : List Path} (ascending : paths.Pairwise Path.Before) :
    paths.Nodup := by
  apply ascending.imp
  intro left right before same
  rw [same] at before
  exact before.not_before before

theorem after_namespacesBelow_eq_ok
    (done : (namespacesBelow root).after progress = (.ok namespaces, later)) :
    progress.workspace.isDirectory root = true ∧
      ∃ files, (progress.workspace.walk root none).1 = .ok files ∧
        namespaces = files.filterMap (namespaceOf? root) ∧
          later = { progress with
            notices := progress.notices ++ (progress.workspace.walk root none).2 ++
              (unmapped root files).map .unmappedSource } := by
  obtain ⟨_, checked, isDirectory, walking⟩ := after_bind_eq_ok_iff.1 done
  rw [after_checkRoot] at isDirectory
  obtain ⟨isRoot, rfl⟩ := Prod.mk.inj isDirectory
  rw [after_bind_of_ok (after_get progress), after_bind_eq_ok_iff] at walking
  obtain ⟨files, walked, listing, reporting⟩ := walking
  rw [after_ofReported] at listing
  obtain ⟨found, rfl⟩ := Prod.mk.inj listing
  rw [mapError_eq_ok_iff] at found
  cases reporting
  refine ⟨?_, files, found, rfl, rfl⟩
  by_contra noDirectory
  rw [if_neg noDirectory] at isRoot
  cases isRoot

/-- Detection below a root, through whatever links, gives one namespace for each source file.

The paths of the namespaces are the relative paths of the walked files that have the extension of
sources and whose directories and stem are texts without dots and backslashes, in the strict order of
the walk.  Every other walked file with this extension is told of in one notice, and nothing else
happens besides the notices of the walk. -/
theorem namespaces_are_readable_source_files (wellFormed : progress.workspace.tree.WellFormed)
    (done : (namespacesBelow root).after progress = (.ok namespaces, later)) :
    ∃ files, ∃ relatives : List Path,
      (progress.workspace.walk root none).1 = .ok files ∧
        files.map (fun file => file.relativeTo? root) = relatives.map some ∧
        namespaces.Nodup ∧
        namespaces.map Namespace.sourcePath =
          relatives.filter (fun relative =>
            Namespace.hasSourceExtension relative && relative.isReadablyNamed &&
              relative.isCleanlyNamed) ∧
        (namespaces.map Namespace.sourcePath).Pairwise Path.Before ∧
        later = { progress with
          notices := progress.notices ++ (progress.workspace.walk root none).2 ++
            (files.filter (isSkipped root)).map .unmappedSource } ∧
        (files.filter (isSkipped root)).Nodup ∧
        ∀ notice ∈ (progress.workspace.walk root none).2, ∀ file, notice ≠ .unmappedSource file := by
  obtain ⟨directory, files, walked, rfl, rfl⟩ := after_namespacesBelow_eq_ok done
  have ascending := Workspace.ascending_of_walk wellFormed directory walked
  obtain ⟨listed, plain, rfl⟩ := Workspace.exists_names_of_walk wellFormed directory walked
  have sourcePaths := map_sourcePath_listed plain root
  have sourcesAscending :
      (((listed.map root.below).filterMap (namespaceOf? root)).map
        Namespace.sourcePath).Pairwise Path.Before := by
    rw [sourcePaths]
    exact (ascending_listed plain ascending).filter _
  refine ⟨_, listed.map relativePath, walked, relativeTo?_listed plain root, ?_, sourcePaths,
    sourcesAscending, ?_, ?_, ?_⟩
  · exact (nodup_of_before sourcesAscending).of_map _
  · rw [unmapped_listed plain root]
  · exact (nodup_of_before ascending).filter _
  · intro notice warned file same
    obtain ⟨child, ancestor, isLoop⟩ := Workspace.exists_loop_of_mem_walk walked warned
    rw [isLoop] at same
    cases same

/-- Source files with and without dots in their names and directories, beside a link back and a file
whose name is no text. -/
def dottedSources : Workspace where
  tree :=
    ⟨[([], .directory ⟨0⟩), (["d"], .directory ⟨0⟩), (["d", "a"], .directory ⟨0⟩),
      (["d", "a", "b.clj"], .file [] ⟨0⟩ 420), (["d", "a", "c.d.clj"], .file [] ⟨0⟩ 420),
      (["d", "a", "l"], .link ⟨"/d"⟩), (["d", "a-b.clj"], .file [] ⟨0⟩ 420),
      (["d", "x.y"], .directory ⟨0⟩), (["d", "x.y", "z.clj"], .file [] ⟨0⟩ 420),
      (["d", ".clj"], .file [] ⟨0⟩ 420), (["d", "caf\xe9.clj"], .file [] ⟨0⟩ 420)]⟩
  current := []
  home := ⟨"/home"⟩
  clock := ⟨0⟩

theorem namespaces_of_dottedSources :
    dottedSources.tree.WellFormed ∧
      (namespacesBelow ⟨"d"⟩).after (.start dottedSources) =
        (.ok [⟨["a", "b"], by decide, by decide⟩, ⟨["a-b"], by decide, by decide⟩],
          ⟨dottedSources, [],
            [.linkLoop ⟨"d/a/l"⟩ ⟨"d"⟩, .unmappedSource ⟨"d/a/c.d.clj"⟩,
              .unmappedSource ⟨"d/caf\xe9.clj"⟩, .unmappedSource ⟨"d/x.y/z.clj"⟩]⟩) ∧
        ∃ files, ∃ relatives : List Path,
          (dottedSources.walk ⟨"d"⟩ none).1 = .ok files ∧
            files.map (fun file => file.relativeTo? ⟨"d"⟩) = relatives.map some ∧
              [⟨"a/b.clj"⟩, ⟨"a-b.clj"⟩] = relatives.filter fun relative =>
                Namespace.hasSourceExtension relative && relative.isReadablyNamed &&
                  relative.isCleanlyNamed := by
  have wellFormed : (Progress.start dottedSources).workspace.tree.WellFormed := by
    decide +kernel
  have done :
      (namespacesBelow ⟨"d"⟩).after (.start dottedSources) =
        (.ok [⟨["a", "b"], by decide, by decide⟩, ⟨["a-b"], by decide, by decide⟩],
          ⟨dottedSources, [],
            [.linkLoop ⟨"d/a/l"⟩ ⟨"d"⟩, .unmappedSource ⟨"d/a/c.d.clj"⟩,
              .unmappedSource ⟨"d/caf\xe9.clj"⟩, .unmappedSource ⟨"d/x.y/z.clj"⟩]⟩) := by
    rfl
  obtain ⟨files, relatives, walked, related, -, sourcePaths, -⟩ :=
    namespaces_are_readable_source_files wellFormed done
  exact ⟨wellFormed, done, files, relatives, walked, related, sourcePaths⟩

/-- One source file whose name has no dot and no backslash before its extension, and is no text. -/
def unreadableSource : Workspace where
  tree :=
    ⟨[([], .directory ⟨0⟩), (["d"], .directory ⟨0⟩), (["d", "caf\xe9.clj"], .file [] ⟨0⟩ 420)]⟩
  current := []
  home := ⟨"/home"⟩
  clock := ⟨0⟩

/-- A source file that is cleanly named defines no namespace if its name is no text. -/
theorem unreadable_source_defines_no_namespace :
    (namespacesBelow ⟨"d"⟩).after (.start unreadableSource) =
        (.ok [], ⟨unreadableSource, [], [.unmappedSource ⟨"d/caf\xe9.clj"⟩]⟩) ∧
      (unreadableSource.walk ⟨"d"⟩ none).1 = .ok [⟨"d/caf\xe9.clj"⟩] ∧
        (Path.mk "d/caf\xe9.clj").relativeTo? ⟨"d"⟩ = some ⟨"caf\xe9.clj"⟩ ∧
          ([] : List Namespace).map Namespace.sourcePath ≠
            [⟨"caf\xe9.clj"⟩].filter fun relative =>
              Namespace.hasSourceExtension relative && relative.isCleanlyNamed := by
  refine ⟨?_, ?_, ?_, ?_⟩
  · rfl
  · rfl
  · decide +kernel
  · decide +kernel

end Build

end ClojureBuild
