import Mathlib.Data.List.Induction
import Mathlib.Data.List.Nodup
import ClojureBuild.FileTree.Resolve
import ClojureBuild.Proofs.Path.Steps

/-!
# Plain trees

A tree is well formed when its top is a directory, everything else stands in a directory under a
name that an entry can have, and no location is held twice.  It is plain when there are no links in
it either.  Putting a file or a directory into a directory keeps a tree plain, and so does removing
whatever stands below a location.
-/

namespace ClojureBuild

/-- A name that an entry of a directory can have. -/
structure FileName (name : String) : Prop extends PlainName name where
  noZero : '\x00' ∉ name.toList
  short : name.length ≤ FileTree.longestName

theorem fileName_iff (name : String) :
    FileName name ↔
      (name ≠ "" ∧ name ≠ "." ∧ name ≠ ".." ∧ '/' ∉ name.toList) ∧ '\x00' ∉ name.toList ∧
        name.length ≤ FileTree.longestName :=
  ⟨fun fileName =>
      ⟨⟨fileName.nonempty, fileName.notCurrent, fileName.notParent, fileName.noSlash⟩,
        fileName.noZero, fileName.short⟩,
    fun ⟨⟨nonempty, notCurrent, notParent, noSlash⟩, noZero, short⟩ =>
      ⟨⟨nonempty, notCurrent, notParent, noSlash⟩, noZero, short⟩⟩

/-- A piece that the system takes as a name is one that an entry can have. -/
theorem FileName.of_mem_body {path : Path} {name : String}
    (inBody : name ∈ path.body) (noZero : '\x00' ∉ path.text.toList)
    (solid : name ≠ "" ∧ name ≠ "." ∧ name ≠ "..")
    (short : name.length ≤ FileTree.longestName) : FileName name := by
  have isStep := (path.mem_steps_iff name).2 ⟨inBody, solid.1, solid.2.1⟩
  exact ⟨⟨solid.1, solid.2.1, solid.2.2, Path.slash_notMem_of_mem_body inBody⟩,
    path.zero_notMem_text_iff.1 noZero name isStep, short⟩

instance (name : String) : Decidable (FileName name) :=
  decidable_of_iff _ (fileName_iff name).symm

namespace FileTree

/-! ## Looking up -/

theorem lookup_filter_key {α : Type}
    (kept : Location → Bool) (entries : List (Location × α)) (location : Location) :
    (entries.filter fun held => kept held.1).lookup location =
      if kept location then entries.lookup location else none := by
  induction entries with
  | nil =>
      simp
  | cons held rest inductionHypothesis =>
      obtain ⟨key, entry⟩ := held
      by_cases same : location = key
      · subst same
        cases keeps : kept location with
        | false =>
            simp [keeps, inductionHypothesis]
        | true =>
            simp [keeps]
      · have differs : (location == key) = false := by
          simpa using same
        cases keeps : kept key with
        | false =>
            simp [keeps, inductionHypothesis, List.lookup_cons, differs]
        | true =>
            simp [keeps, inductionHypothesis, List.lookup_cons, differs]

theorem find?_set (tree : FileTree) (location other : Location) (entry : Entry) :
    (tree.set location entry).find? other =
      if other = location then some entry else tree.find? other := by
  by_cases same : other = location
  · simp [set, find?, same]
  · have differs : (other == location) = false := by
      simpa using same
    have erased := lookup_filter_key (fun key => decide (key ≠ location)) tree.entries other
    simp only [set, find?, erase, List.lookup_cons, differs, erased]
    simp [same]

theorem find?_set_self (tree : FileTree) (location : Location) (entry : Entry) :
    (tree.set location entry).find? location = some entry := by
  simp [find?_set]

theorem find?_set_of_ne
    {location other : Location} (differs : other ≠ location)
    (tree : FileTree) (entry : Entry) :
    (tree.set location entry).find? other = tree.find? other := by
  simp [find?_set, differs]

theorem find?_eraseAll (tree : FileTree) (location other : Location) :
    (tree.eraseAll location).find? other =
      if location <+: other then none else tree.find? other := by
  have erased := lookup_filter_key (fun key => !location.isPrefixOf key) tree.entries other
  simp only [eraseAll, find?, erased]
  by_cases inside : location <+: other
  · have flag : location.isPrefixOf other = true := List.isPrefixOf_iff_prefix.2 inside
    rw [if_pos inside, flag]
    rfl
  · have flag : location.isPrefixOf other = false :=
      Bool.eq_false_iff.2 fun isPrefix => inside (List.isPrefixOf_iff_prefix.1 isPrefix)
    rw [if_neg inside, flag]
    rfl

theorem mem_entries_of_find?
    {tree : FileTree} {location : Location} {entry : Entry}
    (found : tree.find? location = some entry) :
    (location, entry) ∈ tree.entries := by
  obtain ⟨front, rest, split, _⟩ := List.lookup_eq_some_iff.1 found
  simp [split]

/-! ## What stands at a location -/

theorem find?_of_mem_entries
    {tree : FileTree} (distinct : (tree.entries.map Prod.fst).Nodup)
    {location : Location} {entry : Entry} (member : (location, entry) ∈ tree.entries) :
    tree.find? location = some entry := by
  obtain ⟨front, rest, split⟩ := List.append_of_mem member
  refine List.lookup_eq_some_iff.2 ⟨front, rest, split, ?_⟩
  intro held inFront
  rw [split, List.map_append, List.nodup_append] at distinct
  have differ := distinct.2.2 held.1 (List.mem_map_of_mem inFront) location (by simp)
  exact bne_iff_ne.2 differ.symm

/-- A directory stands at a location. -/
def HoldsDirectory (tree : FileTree) (location : Location) : Prop :=
  ∃ modified, tree.find? location = some (.directory modified)

/-- A regular file stands at a location. -/
def HoldsFile (tree : FileTree) (location : Location) : Prop :=
  ∃ content modified mode, tree.find? location = some (.file content modified mode)

/-- Well-formed trees: the entries of directories, below one directory at the top. -/
structure WellFormed (tree : FileTree) : Prop where
  top : tree.HoldsDirectory []
  parent : ∀ {location name entry},
    tree.find? (location ++ [name]) = some entry → tree.HoldsDirectory location
  named : ∀ {location name entry},
    tree.find? (location ++ [name]) = some entry → FileName name
  distinct : (tree.entries.map Prod.fst).Nodup

/-- Well-formed trees without links. -/
structure Plain (tree : FileTree) : Prop extends WellFormed tree where
  linkless : ∀ location target, tree.find? location ≠ some (.link target)

variable {tree : FileTree} {location : Location}

theorem HoldsFile.not_holdsDirectory (file : tree.HoldsFile location) :
    ¬ tree.HoldsDirectory location := by
  rintro ⟨modified, directory⟩
  obtain ⟨content, changed, mode, found⟩ := file
  rw [found] at directory
  cases directory

namespace WellFormed

/-- Whatever lies in between is a directory. -/
theorem holdsDirectory_of_append
    (wellFormed : tree.WellFormed) {names : List String} {entry : Entry}
    (nonempty : names ≠ []) (found : tree.find? (location ++ names) = some entry) :
    tree.HoldsDirectory location := by
  induction names using List.reverseRecOn generalizing entry with
  | nil =>
      exact absurd rfl nonempty
  | append_singleton front last inductionHypothesis =>
      rw [← List.append_assoc] at found
      obtain ⟨modified, directory⟩ := wellFormed.parent found
      by_cases frontEmpty : front = []
      · subst frontEmpty
        exact ⟨modified, by simpa using directory⟩
      · exact inductionHypothesis frontEmpty directory

/-- Above an entry there is always an entry. -/
theorem present_of_append
    (wellFormed : tree.WellFormed) {names : List String} {entry : Entry}
    (found : tree.find? (location ++ names) = some entry) :
    ∃ above, tree.find? location = some above := by
  by_cases nonempty : names = []
  · rw [nonempty, List.append_nil] at found
    exact ⟨entry, found⟩
  · obtain ⟨modified, directory⟩ := wellFormed.holdsDirectory_of_append nonempty found
    exact ⟨_, directory⟩

theorem find?_append_of_holdsFile
    (wellFormed : tree.WellFormed) {names : List String}
    (nonempty : names ≠ []) (file : tree.HoldsFile location) :
    tree.find? (location ++ names) = none := by
  cases found : tree.find? (location ++ names) with
  | none =>
      rfl
  | some entry =>
      exact absurd (wellFormed.holdsDirectory_of_append nonempty found)
        file.not_holdsDirectory

theorem fileName_of_mem
    (wellFormed : tree.WellFormed) {names : List String} {entry : Entry}
    (found : tree.find? (location ++ names) = some entry) :
    ∀ name ∈ names, FileName name := by
  induction names using List.reverseRecOn generalizing entry with
  | nil =>
      simp
  | append_singleton front last inductionHypothesis =>
      rw [← List.append_assoc] at found
      obtain ⟨modified, directory⟩ := wellFormed.parent found
      intro name member
      rcases List.mem_append.1 member with inFront | isLast
      · exact inductionHypothesis directory name inFront
      · rw [List.mem_singleton.1 isLast]
        exact wellFormed.named found

theorem plainName_of_holdsFile
    (wellFormed : tree.WellFormed) {names : List String}
    (file : tree.HoldsFile (location ++ names)) : ∀ name ∈ names, PlainName name := by
  obtain ⟨content, modified, mode, found⟩ := file
  exact fun name member => (wellFormed.fileName_of_mem found name member).toPlainName

/-- An entry lies no deeper than there are entries. -/
theorem length_lt_of_find?
    (wellFormed : tree.WellFormed) {entry : Entry} (found : tree.find? location = some entry) :
    location.length < tree.entries.length := by
  let initials := (List.range (location.length + 1)).map fun count => location.take count
  have initialsDistinct : initials.Nodup := by
    refine List.Nodup.map_on ?_ List.nodup_range
    intro first firstMember second secondMember equality
    have lengths := congrArg List.length equality
    simp only [List.mem_range] at firstMember secondMember
    simp only [List.length_take] at lengths
    omega
  have initialsHeld : initials ⊆ tree.entries.map Prod.fst := by
    intro initial member
    obtain ⟨count, _, rfl⟩ := List.mem_map.1 member
    have split : location.take count ++ location.drop count = location :=
      List.take_append_drop count location
    rw [← split] at found
    obtain ⟨above, held⟩ := wellFormed.present_of_append found
    exact List.mem_map.2 ⟨_, mem_entries_of_find? held, rfl⟩
  have bound := initialsDistinct.length_le_of_subset initialsHeld
  simp only [initials, List.length_map, List.length_range] at bound
  omega

/-- An entry put into a directory, in place of no directory unless it is one itself, keeps a tree
well-formed. -/
theorem set
    (wellFormed : tree.WellFormed) {name : String} {entry : Entry}
    (directory : tree.HoldsDirectory location) (fileName : FileName name)
    (replaces : tree.HoldsDirectory (location ++ [name]) → entry.isDirectory = true) :
    (tree.set (location ++ [name]) entry).WellFormed where
  top := by
    obtain ⟨modified, found⟩ := wellFormed.top
    exact ⟨modified, by rw [find?_set_of_ne (by simp), found]⟩
  parent := by
    intro place child held found
    have placeHeld : tree.HoldsDirectory place := by
      by_cases same : place ++ [child] = location ++ [name]
      · obtain ⟨rfl, -⟩ := List.append_inj' same rfl
        exact directory
      · rw [find?_set_of_ne same] at found
        exact wellFormed.parent found
    by_cases replaced : place = location ++ [name]
    · subst replaced
      have kind := replaces placeHeld
      cases entry with
      | directory modified =>
          exact ⟨modified, find?_set_self tree _ _⟩
      | file content modified mode =>
          simp [Entry.isDirectory] at kind
      | link target =>
          simp [Entry.isDirectory] at kind
    · obtain ⟨modified, placeFound⟩ := placeHeld
      exact ⟨modified, by rw [find?_set_of_ne replaced, placeFound]⟩
  named := by
    intro place child held found
    by_cases same : place ++ [child] = location ++ [name]
    · obtain ⟨-, sameName⟩ := List.append_inj' same rfl
      rw [List.singleton_inj.1 sameName]
      exact fileName
    · rw [find?_set_of_ne same] at found
      exact wellFormed.named found
  distinct := by
    simp only [FileTree.set, erase, List.map_cons, List.nodup_cons]
    refine ⟨by simp, ?_⟩
    exact wellFormed.distinct.sublist (List.filter_sublist.map Prod.fst)

end WellFormed

namespace Plain

/-- What stands at a location of a plain tree is a directory or a file. -/
theorem holds_of_find?
    (plain : tree.Plain) {entry : Entry} (found : tree.find? location = some entry) :
    tree.HoldsDirectory location ∨ tree.HoldsFile location := by
  cases entry with
  | directory modified =>
      exact Or.inl ⟨modified, found⟩
  | file content modified mode =>
      exact Or.inr ⟨content, modified, mode, found⟩
  | link target =>
      exact absurd found (plain.linkless location target)

theorem set
    (plain : tree.Plain) {name : String} {entry : Entry}
    (directory : tree.HoldsDirectory location) (fileName : FileName name)
    (notLink : entry.isLink = false)
    (replaces : tree.HoldsDirectory (location ++ [name]) → entry.isDirectory = true) :
    (tree.set (location ++ [name]) entry).Plain where
  toWellFormed := plain.toWellFormed.set directory fileName replaces
  linkless := by
    intro place target found
    by_cases same : place = location ++ [name]
    · rw [same, find?_set_self] at found
      rw [Option.some.inj found] at notLink
      simp [Entry.isLink] at notLink
    · rw [find?_set_of_ne same] at found
      exact plain.linkless place target found

/-- A tree stays plain when everything from a location down is removed. -/
theorem eraseAll
    (plain : tree.Plain) (nonempty : location ≠ []) : (tree.eraseAll location).Plain where
  top := by
    obtain ⟨modified, found⟩ := plain.top
    exact ⟨modified, by simp [find?_eraseAll, nonempty, found]⟩
  parent := by
    intro place child held found
    rw [find?_eraseAll] at found
    split at found
    · cases found
    · next outside =>
        obtain ⟨modified, directory⟩ := plain.parent found
        refine ⟨modified, ?_⟩
        rw [find?_eraseAll, if_neg, directory]
        intro inside
        exact outside (inside.trans (List.prefix_append place [child]))
  named := by
    intro place child held found
    rw [find?_eraseAll] at found
    split at found
    · cases found
    · exact plain.named found
  distinct :=
    plain.distinct.sublist (List.filter_sublist.map Prod.fst)
  linkless := by
    intro place target found
    rw [find?_eraseAll] at found
    split at found
    · cases found
    · exact plain.linkless place target found

end Plain

/-! ## Checking trees -/

theorem holdsDirectory_iff (tree : FileTree) (location : Location) :
    tree.HoldsDirectory location ↔ (tree.find? location).any Entry.isDirectory = true := by
  cases found : tree.find? location with
  | none =>
      simp [HoldsDirectory, found]
  | some entry =>
      cases entry with
      | directory modified =>
          simp [HoldsDirectory, found, Entry.isDirectory]
      | file content modified mode =>
          simp [HoldsDirectory, found, Entry.isDirectory]
      | link target =>
          simp [HoldsDirectory, found, Entry.isDirectory]

instance (tree : FileTree) (location : Location) : Decidable (tree.HoldsDirectory location) :=
  decidable_of_iff _ (tree.holdsDirectory_iff location).symm

/-- An entry other than the top stands in a directory under a name that it can have. -/
def StandsInDirectory (tree : FileTree) (held : Location × Entry) : Prop :=
  held.1 = [] ∨ tree.HoldsDirectory held.1.dropLast ∧ FileName (held.1.getLastD "")

instance (tree : FileTree) (held : Location × Entry) : Decidable (tree.StandsInDirectory held) :=
  inferInstanceAs (Decidable (_ ∨ _ ∧ _))

theorem wellFormed_iff (tree : FileTree) :
    tree.WellFormed ↔
      tree.HoldsDirectory [] ∧ (tree.entries.map Prod.fst).Nodup ∧
        ∀ held ∈ tree.entries, tree.StandsInDirectory held := by
  constructor
  · intro wellFormed
    refine ⟨wellFormed.top, wellFormed.distinct, ?_⟩
    rintro ⟨location, entry⟩ member
    have found := find?_of_mem_entries wellFormed.distinct member
    rcases List.eq_nil_or_concat location with rfl | ⟨front, name, rfl⟩
    · exact Or.inl rfl
    · rw [List.concat_eq_append] at found ⊢
      right
      rw [List.dropLast_concat, List.getLastD_concat]
      exact ⟨wellFormed.parent found, wellFormed.named found⟩
  · rintro ⟨top, distinct, stands⟩
    have inDirectory :
        ∀ {location : Location} {name : String} {entry : Entry},
          tree.find? (location ++ [name]) = some entry →
            tree.HoldsDirectory location ∧ FileName name := by
      intro location name entry found
      rcases stands _ (mem_entries_of_find? found) with isTop | ⟨directory, fileName⟩
      · simp at isTop
      · rw [List.dropLast_concat] at directory
        rw [List.getLastD_concat] at fileName
        exact ⟨directory, fileName⟩
    exact
      { top := top
        parent := fun found => (inDirectory found).1
        named := fun found => (inDirectory found).2
        distinct := distinct }

instance (tree : FileTree) : Decidable tree.WellFormed :=
  decidable_of_iff _ tree.wellFormed_iff.symm

/-- An entry stands in a directory, unless it is the top, and is no link. -/
def StandsPlainly (tree : FileTree) (held : Location × Entry) : Prop :=
  held.2.isLink = false ∧
    (held.1 = [] ∨ tree.HoldsDirectory held.1.dropLast ∧ FileName (held.1.getLastD ""))

instance (tree : FileTree) (held : Location × Entry) : Decidable (tree.StandsPlainly held) :=
  inferInstanceAs (Decidable (_ ∧ (_ ∨ _ ∧ _)))

theorem plain_iff (tree : FileTree) :
    tree.Plain ↔
      tree.HoldsDirectory [] ∧ (tree.entries.map Prod.fst).Nodup ∧
        ∀ held ∈ tree.entries, tree.StandsPlainly held := by
  constructor
  · intro plain
    obtain ⟨top, distinct, stands⟩ := tree.wellFormed_iff.1 plain.toWellFormed
    refine ⟨top, distinct, ?_⟩
    rintro ⟨location, entry⟩ member
    refine ⟨?_, stands (location, entry) member⟩
    cases entry with
    | directory modified =>
        rfl
    | file content modified mode =>
        rfl
    | link target =>
        exact absurd (find?_of_mem_entries distinct member) (plain.linkless location target)
  · rintro ⟨top, distinct, stands⟩
    have inDirectories := fun held member => (stands held member).2
    refine ⟨tree.wellFormed_iff.2 ⟨top, distinct, inDirectories⟩, ?_⟩
    intro location target found
    have notLink := (stands _ (mem_entries_of_find? found)).1
    cases notLink

instance (tree : FileTree) : Decidable tree.Plain :=
  decidable_of_iff _ tree.plain_iff.symm

end FileTree

end ClojureBuild
