import ClojureBuild.Proofs.Namespace.Spelling
import ClojureBuild.Proofs.Path.Order
import Mathlib.Data.List.Nodup

/-!
# Sources and artifacts in one tree

The directories that lead to the source and to the artifact of a namespace have no dots in their
names, while the names of these files have one.  So a file of a namespace never lies in the way of a
file of any namespace, and two namespaces never share one.
-/

namespace ClojureBuild

/-- A path leads to something below another one. -/
def Path.ProperlyAbove (above path : Path) : Prop :=
  above.components <+: path.components ∧ above.components ≠ path.components

namespace Namespace

variable {left right defined : Namespace} {suffix leftSuffix rightSuffix : String}

/-! ## Names with an ending -/

/-- An ending that makes the last segment of a namespace the name of a file. -/
structure IsEnding (suffix : String) : Prop where
  dotted : '.' ∈ suffix.toList
  noSlash : '/' ∉ suffix.toList

theorem isEnding_sourceSuffix : IsEnding sourceSuffix where
  dotted := by decide
  noSlash := by decide

theorem isEnding_artifactSuffix : IsEnding artifactSuffix where
  dotted := by decide
  noSlash := by decide

theorem components_pathWith (ending : IsEnding suffix) (defined : Namespace) :
    (defined.pathWith suffix).components = (defined.namesWith suffix).map .name := by
  rw [pathWith_eq]
  exact Path.components_joinWith (namesWith_ne_nil suffix defined)
    (plainName_of_mem_namesWith ending.noSlash)

/-- What leads to a file has the names of its directories only, none of which is a file's. -/
theorem eq_of_isPrefix_namesWith (ending : IsEnding leftSuffix)
    (leads : left.namesWith leftSuffix <+: right.namesWith rightSuffix) :
    left.namesWith leftSuffix = right.namesWith rightSuffix := by
  obtain ⟨others, split⟩ := leads
  rcases List.eq_nil_or_concat others with rfl | ⟨front, last, rfl⟩
  · rw [← split, List.append_nil]
  · -- the name of the file would be a segment of the other namespace
    rw [List.concat_eq_append, ← List.append_assoc, namesWith_eq rightSuffix] at split
    have directories : left.namesWith leftSuffix ++ front = right.segments.dropLast.map Text.encode :=
      (List.append_inj' split rfl).1
    have member : left.lastSegment ++ leftSuffix ∈ right.segments := by
      apply List.dropLast_subset
      rw [← List.mem_map_of_injective Text.encode_injective, ← directories, namesWith_eq]
      simp
    have undotted := (canBeSegment_iff.1 (canBeSegment_of_mem member)).2.1
    rw [String.toList_append, List.mem_append] at undotted
    exact absurd (Or.inr ending.dotted) undotted

theorem not_properlyAbove_pathWith (leftEnding : IsEnding leftSuffix)
    (rightEnding : IsEnding rightSuffix) :
    ¬ (left.pathWith leftSuffix).ProperlyAbove (right.pathWith rightSuffix) := by
  rintro ⟨leads, differs⟩
  rw [components_pathWith leftEnding, components_pathWith rightEnding] at leads differs
  have names : left.namesWith leftSuffix <+: right.namesWith rightSuffix :=
    (List.prefix_map_iff_of_injective fun _ _ => Path.Component.name.inj).1 leads
  exact differs (by rw [eq_of_isPrefix_namesWith leftEnding names])

/-- Files are the same when the same names lead to them. -/
theorem pathWith_same_iff (leftEnding : IsEnding leftSuffix) (rightEnding : IsEnding rightSuffix) :
    (left.pathWith leftSuffix).same (right.pathWith rightSuffix) = true ↔
      left.namesWith leftSuffix = right.namesWith rightSuffix := by
  rw [Path.same_iff, components_pathWith leftEnding, components_pathWith rightEnding]
  exact List.map_inj_right fun _ _ sameName => Path.Component.name.inj sameName

theorem pathWith_same_self_iff (ending : IsEnding suffix) :
    (left.pathWith suffix).same (right.pathWith suffix) = true ↔ left = right := by
  rw [pathWith_same_iff ending ending]
  constructor
  · exact namesWith_injective
  · rintro rfl
    rfl

/-- A source ends in another letter than an artifact. -/
theorem sourceNames_ne_artifactNames (left right : Namespace) :
    left.sourceNames ≠ right.artifactNames := by
  intro same
  rw [sourceNames, artifactNames, namesWith_eq, namesWith_eq] at same
  have sameFile := Text.encode_injective (List.singleton_inj.1 (List.append_inj' same rfl).2)
  have sameLetter := congrArg (fun name => name.toList.getLast?) sameFile
  simp [sourceSuffix, artifactSuffix, List.getLast?_append] at sameLetter

/-- A file with an ending lies in the directory that all segments but the last one spell. -/
theorem parent?_pathWith (ending : IsEnding suffix) (defined : Namespace) :
    (defined.pathWith suffix).parent? =
      some ⟨Text.joinWith "/" (defined.segments.dropLast.map Text.encode)⟩ := by
  rw [pathWith_eq, namesWith_eq]
  refine Path.parent?_joinWith ?_
  rw [← namesWith_eq]
  exact plainName_of_mem_namesWith ending.noSlash

/-! ## Where the files of a namespace lie -/

/-- A path goes on from wherever it is joined to, by plain names only. -/
structure StaysBelow (path : Path) : Prop where
  relative : path.isAbsolute = false
  plain : ∀ component ∈ path.components, ∃ name, PlainName name ∧ component = .name name
  joined : ∀ target : Path, (target.join path).components = target.components ++ path.components
  below : ∀ target : Path, target.ProperlyAbove (target.join path)

theorem staysBelow_pathWith (ending : IsEnding suffix) (defined : Namespace) :
    StaysBelow (defined.pathWith suffix) := by
  have components := components_pathWith ending defined
  have plainNames : ∀ name ∈ defined.namesWith suffix, PlainName name :=
    plainName_of_mem_namesWith ending.noSlash
  have joined (target : Path) : (target.join (defined.pathWith suffix)).components =
      target.components ++ (defined.pathWith suffix).components := by
    rw [join_pathWith ending.noSlash, Path.components_below target plainNames, components]
  refine ⟨?_, ?_, joined, ?_⟩
  · obtain ⟨first, rest, split⟩ := List.exists_cons_of_ne_nil (namesWith_ne_nil suffix defined)
    rw [pathWith_eq, split]
    exact Path.isAbsolute_joinWith rest (plainNames first (by simp [split]))
  · intro component member
    rw [components] at member
    obtain ⟨name, inNames, rfl⟩ := List.mem_map.1 member
    exact ⟨name, plainNames name inNames, rfl⟩
  · intro target
    rw [Path.ProperlyAbove, joined]
    refine ⟨List.prefix_append _ _, ?_⟩
    rw [ne_eq, List.self_eq_append_right, components, List.map_eq_nil_iff]
    exact namesWith_ne_nil suffix defined

/-- The paths of the files of a namespace. -/
def places (defined : Namespace) : List Path :=
  [defined.sourcePath, defined.artifactPath]

theorem exists_ending_of_mem_places {place : Path} (member : place ∈ defined.places) :
    ∃ suffix, IsEnding suffix ∧ place = defined.pathWith suffix := by
  rw [places, List.mem_cons, List.mem_singleton] at member
  rcases member with rfl | rfl
  · exact ⟨sourceSuffix, isEnding_sourceSuffix, rfl⟩
  · exact ⟨artifactSuffix, isEnding_artifactSuffix, rfl⟩

/-- Different namespaces have different sources and different artifacts, and no source is an artifact.
No file of a namespace lies on the way to a file of a namespace.  Both files of a namespace lie in
one directory, and wherever their paths are joined to, they lie below. -/
theorem files_of_namespaces_keep_apart (left right : Namespace) :
    (left.artifactPath.same right.artifactPath = true ↔ left = right) ∧
      (left.sourcePath.same right.sourcePath = true ↔ left = right) ∧
        left.sourcePath.same right.artifactPath = false ∧
          (∀ above ∈ left.places, ∀ path ∈ right.places, ¬ above.ProperlyAbove path) ∧
            (∃ directory, left.sourcePath.parent? = some directory ∧
              left.artifactPath.parent? = some directory) ∧
              ∀ place ∈ left.places, StaysBelow place := by
  refine ⟨pathWith_same_self_iff isEnding_artifactSuffix,
    pathWith_same_self_iff isEnding_sourceSuffix, ?_, ?_, ?_, ?_⟩
  · rw [Bool.eq_false_iff, ne_eq, sourcePath, artifactPath,
      pathWith_same_iff isEnding_sourceSuffix isEnding_artifactSuffix]
    exact sourceNames_ne_artifactNames left right
  · intro above aboveMember path member
    obtain ⟨leftSuffix, leftEnding, rfl⟩ := exists_ending_of_mem_places aboveMember
    obtain ⟨rightSuffix, rightEnding, rfl⟩ := exists_ending_of_mem_places member
    exact not_properlyAbove_pathWith leftEnding rightEnding
  · exact ⟨_, parent?_pathWith isEnding_sourceSuffix left,
      parent?_pathWith isEnding_artifactSuffix left⟩
  · intro place member
    obtain ⟨suffix, ending, rfl⟩ := exists_ending_of_mem_places member
    exact staysBelow_pathWith ending left

end Namespace

end ClojureBuild
