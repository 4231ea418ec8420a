import ClojureBuild.FileTree.Walk
import ClojureBuild.Proofs.FileTree.FilesBelow
import ClojureBuild.Proofs.Workspace.Lookup

/-!
# Going down from a root

Which entries a walk comes to in a tree with any links.  It goes into a directory unless that is the
skipped path or a link back to a directory that it is already inside of.  A link therefore leads to
a directory that no link on the way led to before, and between two links the tree only gets deeper:
there is a bound on how far down a walk can go.
-/

namespace ClojureBuild.Workspace

variable {workspace : Workspace} {skip : Option Path} {root : Path}
variable {names front other : List String} {name : String} {location place : Location}

/-! ## Directories on the way -/

/-- On the way to names below a root lies the directory at a location, which `front` leads to. -/
structure LiesAbove (workspace : Workspace) (root : Path) (names front : List String)
    (location : Location) : Prop where
  isInitial : front <+: names
  differs : front ≠ names
  leads : workspace.LeadsToDirectory (root.below front) location

/-- Names below a root end in a link to a directory that lies on the way to them. -/
def LeadsBack (workspace : Workspace) (root : Path) (names : List String) : Prop :=
  workspace.isLink (root.below names) = true ∧
    ∃ location, workspace.LeadsToDirectory (root.below names) location ∧
      ∃ front, workspace.LiesAbove root names front location

theorem not_liesAbove_nil : ¬ workspace.LiesAbove root [] front location := by
  intro inside
  exact inside.differs (List.prefix_nil.1 inside.isInitial)

theorem not_leadsBack_nil : ¬ workspace.LeadsBack root [] := by
  intro back
  obtain ⟨-, location, -, front, inside⟩ := back
  exact not_liesAbove_nil inside

theorem isPrefix_concat_and_ne_iff {α : Type} {initial front : List α} {last : α} :
    initial <+: front ++ [last] ∧ initial ≠ front ++ [last] ↔ initial <+: front := by
  rw [List.prefix_concat_iff]
  constructor
  · intro proper
    exact proper.1.resolve_left proper.2
  · intro isInitial
    refine ⟨Or.inr isInitial, ?_⟩
    intro whole
    have shorter := isInitial.length_le
    rw [whole, List.length_append] at shorter
    exact absurd shorter (Nat.not_succ_le_self front.length)

theorem liesAbove_concat_iff :
    workspace.LiesAbove root (names ++ [name]) front location ↔
      front <+: names ∧ workspace.LeadsToDirectory (root.below front) location := by
  constructor
  · intro inside
    exact ⟨isPrefix_concat_and_ne_iff.1 ⟨inside.isInitial, inside.differs⟩, inside.leads⟩
  · intro inside
    obtain ⟨isInitial, differs⟩ := isPrefix_concat_and_ne_iff.2 inside.1
    exact ⟨isInitial, differs, inside.2⟩

/-! ## What is come to -/

/-- A walk from a root goes into the directory at a location, which names lead to. -/
structure Enters (workspace : Workspace) (skip : Option Path) (root : Path) (names : List String)
    (location : Location) : Prop where
  leads : workspace.LeadsToDirectory (root.below names) location
  kept : names = [] ∨ skip.any (root.below names).same = false
  onward : ¬ workspace.LeadsBack root names

/-- A walk from a root comes to what names lead to: each name is one of an entry in the directory
that it has gone into before. -/
def Meets (workspace : Workspace) (skip : Option Path) (root : Path) (names : List String) : Prop :=
  ∀ front name, front ++ [name] <+: names →
    ∃ location, workspace.Enters skip root front location ∧ name ∈ workspace.tree.names location

theorem meets_nil : workspace.Meets skip root [] := by
  intro front name isInitial
  simp at isInitial

theorem meets_concat_iff :
    workspace.Meets skip root (names ++ [name]) ↔
      workspace.Meets skip root names ∧
        ∃ location, workspace.Enters skip root names location ∧
          name ∈ workspace.tree.names location := by
  constructor
  · intro met
    refine ⟨?_, met names name List.prefix_rfl⟩
    intro front next isInitial
    exact met front next (isInitial.trans (List.prefix_append names [name]))
  · intro met front next isInitial
    cases List.prefix_concat_iff.1 isInitial with
    | inl whole =>
        obtain ⟨sameFront, sameName⟩ := List.append_inj' whole rfl
        cases sameName
        rw [sameFront]
        exact met.2
    | inr within =>
        exact met.1 front next within

theorem Meets.enters {rest : List String}
    (met : workspace.Meets skip root (names ++ name :: rest)) :
    ∃ location, workspace.Enters skip root names location ∧
      name ∈ workspace.tree.names location := by
  apply met names name
  exact ⟨rest, (List.append_cons names name rest).symm⟩

theorem Meets.enters_initial {initial : List String} (met : workspace.Meets skip root names)
    (isInitial : initial <+: names) (differs : initial ≠ names) :
    ∃ location, workspace.Enters skip root initial location := by
  obtain ⟨rest, whole⟩ := isInitial
  cases rest with
  | nil =>
      rw [List.append_nil] at whole
      exact absurd whole differs
  | cons name rest =>
      rw [← whole] at met
      obtain ⟨location, enters, -⟩ := met.enters
      exact ⟨location, enters⟩

theorem Meets.fileName (wellFormed : workspace.tree.WellFormed)
    (met : workspace.Meets skip root names) : ∀ name ∈ names, FileName name := by
  induction names using List.reverseRecOn with
  | nil =>
      intro name member
      cases member
  | append_singleton front last inductionHypothesis =>
      obtain ⟨metFront, location, -, held⟩ := meets_concat_iff.1 met
      obtain ⟨entry, found⟩ := FileTree.mem_names_iff.1 held
      intro name member
      cases List.mem_append.1 member with
      | inl inFront =>
          exact inductionHypothesis metFront name inFront
      | inr isLast =>
          rw [List.mem_singleton.1 isLast]
          exact wellFormed.named found

theorem Meets.plainName (wellFormed : workspace.tree.WellFormed)
    (met : workspace.Meets skip root names) : ∀ name ∈ names, PlainName name :=
  fun name member => (met.fileName wellFormed name member).toPlainName

/-- A walk comes to whatever names lead to, unless it stops on the way. -/
theorem meets_of_status {entry : Entry} (written : root.text ≠ "")
    (plainNames : ∀ name ∈ names, PlainName name)
    (found : workspace.status (root.below names) = .ok (place, entry))
    (goesOn : ∀ initial, initial ≠ [] → initial <+: names → initial ≠ names →
      skip.any (root.below initial).same = false ∧ ¬ workspace.LeadsBack root initial) :
    workspace.Meets skip root names := by
  induction names using List.reverseRecOn generalizing place entry with
  | nil =>
      exact meets_nil
  | append_singleton front last inductionHypothesis =>
      have frontPlain : ∀ name ∈ front, PlainName name :=
        fun name member => plainNames name (List.mem_append_left [last] member)
      have lastPlain := plainNames last (by simp)
      have frontWritten : (root.below front).text ≠ "" := by
        cases List.eq_nil_or_concat front with
        | inl empty =>
            rw [empty]
            exact written
        | inr nonempty =>
            obtain ⟨initial, name, split⟩ := nonempty
            rw [List.concat_eq_append] at split
            rw [split, Path.below_concat]
            exact Path.text_join_plain_ne_empty _ (frontPlain name (by simp [split]))
      rw [Path.below_concat] at found
      obtain ⟨location, leads, entryHeld⟩ :=
        exists_leadsToDirectory_of_status frontWritten lastPlain found
      obtain ⟨modified, foundFront⟩ := leads
      refine meets_concat_iff.2 ⟨?_, location, ?_, FileTree.mem_names_iff.2 entryHeld⟩
      · apply inductionHypothesis frontPlain foundFront
        intro initial nonempty isInitial differs
        have proper : initial <+: front ++ [last] ∧ initial ≠ front ++ [last] :=
          isPrefix_concat_and_ne_iff.2 isInitial
        exact goesOn initial nonempty proper.1 proper.2
      · by_cases atRoot : front = []
        · subst atRoot
          exact ⟨⟨modified, foundFront⟩, Or.inl rfl, not_leadsBack_nil⟩
        · have proper : front <+: front ++ [last] ∧ front ≠ front ++ [last] :=
            isPrefix_concat_and_ne_iff.2 List.prefix_rfl
          have goesIn := goesOn front atRoot proper.1 proper.2
          exact ⟨⟨modified, foundFront⟩, Or.inr goesIn.1, goesIn.2⟩

/-! ## How far down a walk goes -/

/-- On the way to names every link has led to a directory that was not on the way yet, and between
links the walk has gone down the tree itself. -/
theorem Meets.exists_entered (wellFormed : workspace.tree.WellFormed)
    (met : workspace.Meets skip root names) (enters : workspace.Enters skip root names location) :
    ∃ entered : List Location, entered.Nodup ∧
      (∀ place ∈ entered, ∃ front, front <+: names ∧
        workspace.LeadsToDirectory (root.below front) place) ∧
      names.length ≤ entered.length * workspace.tree.entries.length + location.length := by
  induction names using List.reverseRecOn generalizing location with
  | nil =>
      exact ⟨[], List.nodup_nil, by simp, by simp⟩
  | append_singleton front name inductionHypothesis =>
      obtain ⟨metFront, above, entersFront, held⟩ := meets_concat_iff.1 met
      obtain ⟨entered, distinct, onTheWay, bounded⟩ := inductionHypothesis metFront entersFront
      obtain ⟨entry, found⟩ := FileTree.mem_names_iff.1 held
      have fileName := wellFormed.named found
      have leads := enters.leads
      rw [Path.below_concat] at leads
      have stillOnTheWay : ∀ place ∈ entered, ∃ initial, initial <+: front ++ [name] ∧
          workspace.LeadsToDirectory (root.below initial) place := by
        intro place member
        obtain ⟨initial, isInitial, leadsThere⟩ := onTheWay place member
        exact ⟨initial, isInitial.trans (List.prefix_append front [name]), leadsThere⟩
      -- An entry of the tree makes the location longer; a link may make it short again, but only at
      -- the price of a new directory.
      cases linked : entry.isLink with
      | false =>
          obtain ⟨modified, foundThere⟩ := leads
          have deeper := entersFront.leads.status_join fileName found linked
          rw [foundThere] at deeper
          cases deeper
          refine ⟨entered, distinct, stillOnTheWay, ?_⟩
          rw [List.length_append, List.length_append]
          omega
      | true =>
          have isLink : workspace.isLink (root.below (front ++ [name])) = true := by
            rw [Path.below_concat, isLink, entersFront.leads.look_join fileName found]
            exact linked
          have isNew : location ∉ entered := by
            intro member
            obtain ⟨initial, isInitial, leadsThere⟩ := onTheWay location member
            exact enters.onward
              ⟨isLink, location, enters.leads, initial,
                liesAbove_concat_iff.2 ⟨isInitial, leadsThere⟩⟩
          refine ⟨location :: entered, List.nodup_cons.2 ⟨isNew, distinct⟩, ?_, ?_⟩
          · intro place member
            cases List.mem_cons.1 member with
            | inl same =>
                rw [same]
                exact ⟨front ++ [name], List.prefix_rfl, enters.leads⟩
            | inr earlier =>
                exact stillOnTheWay place earlier
          · obtain ⟨modified, directory⟩ := entersFront.leads.holdsDirectory
            have depth := wellFormed.length_lt_of_find? directory
            rw [List.length_append, List.length_singleton, List.length_cons, Nat.add_mul, Nat.one_mul]
            omega

theorem Meets.length_lt_walkBound (wellFormed : workspace.tree.WellFormed)
    (met : workspace.Meets skip root names) : names.length < workspace.walkBound := by
  rw [walkBound, Nat.pow_eq, Nat.pow_two, Nat.add_mul, Nat.mul_add]
  cases List.eq_nil_or_concat names with
  | inl empty =>
      rw [empty, List.length_nil]
      omega
  | inr nonempty =>
      obtain ⟨front, name, split⟩ := nonempty
      rw [List.concat_eq_append] at split
      rw [split] at met ⊢
      obtain ⟨metFront, location, enters, -⟩ := meets_concat_iff.1 met
      obtain ⟨entered, distinct, onTheWay, bounded⟩ := metFront.exists_entered wellFormed enters
      have within : entered ⊆ workspace.tree.entries.map Prod.fst := by
        intro place member
        obtain ⟨initial, -, leads⟩ := onTheWay place member
        obtain ⟨modified, directory⟩ := leads.holdsDirectory
        exact List.mem_map_of_mem (FileTree.mem_entries_of_find? directory)
      have few := distinct.length_le_of_subset within
      rw [List.length_map] at few
      have product := Nat.mul_le_mul_right workspace.tree.entries.length few
      obtain ⟨modified, directory⟩ := enters.leads.holdsDirectory
      have depth := wellFormed.length_lt_of_find? directory
      rw [List.length_append, List.length_singleton]
      omega

end ClojureBuild.Workspace
