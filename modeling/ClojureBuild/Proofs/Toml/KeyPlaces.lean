import ClojureBuild.Proofs.Setting.Keys
import ClojureBuild.Proofs.Toml.Remainders
import ClojureBuild.Toml.Document

/-!
# Where keys are written

Every key of a document, at whatever depth, stands where its place says: the letters there spell its
name.
-/

namespace ClojureBuild

namespace Toml

open Setting Setting.AllKeys

/-! ## Putting tables together -/

section Tables

variable {holds : Key → Prop} {fields changed inner taken : Fields} {key : Key} {path : List Key}
variable {value table : Setting} {name : String} {form : TableForm} {dottedKeys : Bool}

theorem allKeys_of_find? (all : onFields holds fields) (found : fields.find? name = some value) :
    value.AllKeys holds := by
  induction fields with
  | nil =>
      cases found
  | cons field rest inductionHypothesis =>
      obtain ⟨key, held⟩ := field
      obtain ⟨_, heldAll, restAll⟩ := all
      rw [Fields.find?] at found
      split at found
      · cases found
        exact heldAll
      · exact inductionHypothesis restAll found

theorem onFields_replace (all : onFields holds fields) (valueAll : value.AllKeys holds) :
    onFields holds (fields.replace name value) := by
  induction fields with
  | nil =>
      exact all
  | cons field rest inductionHypothesis =>
      obtain ⟨key, held⟩ := field
      obtain ⟨keyHolds, heldAll, restAll⟩ := all
      rw [Fields.replace]
      split
      · exact ⟨keyHolds, valueAll, restAll⟩
      · exact ⟨keyHolds, heldAll, inductionHypothesis restAll⟩

theorem onFields_erase (all : onFields holds fields) : onFields holds (fields.erase name) := by
  rw [onFields_iff] at all ⊢
  exact fun field member => all field (List.mem_filter.mp member).1

theorem onFields_add? (all : onFields holds fields) (keyHolds : holds key)
    (valueAll : value.AllKeys holds) (added : fields.add? key value = some changed) :
    onFields holds changed := by
  rw [Fields.add?] at added
  split at added
  · cases added
  · cases added
    exact onFields_append.mpr ⟨all, keyHolds, valueAll, trivial⟩

/-- A change of a table that keeps the property of all keys, and takes something out that has another
property. -/
def ChangeKeeps (holds : Key → Prop) {α : Type} (suits : α → Prop)
    (change : TableForm → Fields → Option (α × Fields)) : Prop :=
  ∀ ⦃form fields taken changed⦄, onFields holds fields → change form fields = some (taken, changed) →
    suits taken ∧ onFields holds changed

theorem ChangeKeeps.changeAt {α : Type} (suits : α → Prop)
    {change : TableForm → Fields → Option (α × Fields)} (keeps : ChangeKeeps holds suits change)
    (dottedKeys : Bool) (pathHolds : ∀ key ∈ path, holds key) :
    ChangeKeeps holds suits (changeAt dottedKeys change path) := by
  intro form fields taken changed all done
  induction path generalizing form fields taken changed with
  | nil =>
      exact keeps all done
  | cons key path inductionHypothesis =>
      obtain ⟨keyHolds, restHolds⟩ := List.forall_mem_cons.mp pathHolds
      have inside := @inductionHypothesis restHolds
      rw [Toml.changeAt] at done
      split at done
      case h_1 absent =>
        -- The table is made for the rest of the path.
        obtain ⟨⟨found, inner⟩, changedInner, ⟨⟩⟩ := Option.bind_eq_some_iff.mp done
        obtain ⟨suited, innerAll⟩ := inside onFields_nil changedInner
        exact ⟨suited, onFields_append.mpr ⟨all, keyHolds, innerAll, trivial⟩⟩
      case h_2 place form inner held =>
        split at done
        · obtain ⟨⟨found, after⟩, changedInner, ⟨⟩⟩ := Option.bind_eq_some_iff.mp done
          obtain ⟨suited, afterAll⟩ := inside (allKeys_of_find? all held) changedInner
          exact ⟨suited, onFields_replace all afterAll⟩
        · cases done
      case h_3 place elements held =>
        split at done
        next lastPlace form inner last =>
          obtain ⟨⟨found, after⟩, changedInner, ⟨⟩⟩ := Option.bind_eq_some_iff.mp done
          have elementsAll : onElements holds elements := allKeys_of_find? all held
          have lastAll := onElements_iff.mp elementsAll _ (List.mem_of_getLast? last)
          obtain ⟨suited, afterAll⟩ := inside lastAll changedInner
          refine ⟨suited, onFields_replace all (onElements_append.mpr ⟨?_, afterAll, trivial⟩)⟩
          rw [onElements_iff] at elementsAll ⊢
          exact fun element member => elementsAll element (List.dropLast_subset elements member)
        next =>
          cases done
      case h_4 =>
        cases done

theorem splitPath?_eq_some {front : List Key} (split : splitPath? path = some (front, key)) :
    path = front ++ [key] := by
  fun_induction splitPath? path generalizing front key with
  | case1 =>
      cases split
  | case2 only =>
      cases split
      rfl
  | case3 first next path inductionHypothesis =>
      obtain ⟨⟨others, last⟩, splitRest, ⟨⟩⟩ := Option.map_eq_some_iff.mp split
      rw [inductionHypothesis splitRest, List.cons_append]

/-- The keys of a path are those that lead to its table and the one in it. -/
theorem forall_mem_of_splitPath? {front : List Key} (pathHolds : ∀ key ∈ path, holds key)
    (split : splitPath? path = some (front, key)) : (∀ key ∈ front, holds key) ∧ holds key := by
  rwa [splitPath?_eq_some split, List.forall_mem_append, List.forall_mem_singleton] at pathHolds

theorem onFields_assign? (pathHolds : ∀ key ∈ path, holds key) (valueAll : value.AllKeys holds)
    (all : onFields holds fields) (assigned : assign? path value fields = some changed) :
    onFields holds changed := by
  simp only [assign?, Option.bind_eq_bind, Option.bind_eq_some_iff, Prod.exists] at assigned
  obtain ⟨front, key, split, _, after, done, ⟨⟩⟩ := assigned
  obtain ⟨frontHolds, keyHolds⟩ := forall_mem_of_splitPath? pathHolds split
  refine (ChangeKeeps.changeAt (fun _ => True) ?_ true frontHolds all done).2
  intro form inner taken changed innerAll added
  dsimp only at added
  split at added
  · obtain ⟨left, addedKey, ⟨⟩⟩ := Option.map_eq_some_iff.mp added
    exact ⟨trivial, onFields_add? innerAll keyHolds valueAll addedKey⟩
  · cases added

theorem onFields_takeImplied? (pathHolds : ∀ key ∈ path, holds key) (all : onFields holds fields)
    (took : takeImplied? path fields = some (taken, changed)) :
    onFields holds taken ∧ onFields holds changed := by
  simp only [takeImplied?, Option.bind_eq_bind, Option.bind_eq_some_iff, Prod.exists] at took
  obtain ⟨front, key, split, done⟩ := took
  obtain ⟨frontHolds, _⟩ := forall_mem_of_splitPath? pathHolds split
  refine ChangeKeeps.changeAt (onFields holds) ?_ false frontHolds all done
  intro form inner taken changed innerAll tookInner
  dsimp only at tookInner
  split at tookInner
  next =>
    cases tookInner
    exact ⟨onFields_nil, innerAll⟩
  next place implied held =>
    cases tookInner
    exact ⟨allKeys_of_find? innerAll held, onFields_erase innerAll⟩
  next =>
    cases tookInner

theorem onFields_addTable? (pathHolds : ∀ key ∈ path, holds key) (tableAll : table.AllKeys holds)
    (all : onFields holds fields) (added : addTable? path table fields = some changed) :
    onFields holds changed := by
  simp only [addTable?, Option.bind_eq_bind, Option.bind_eq_some_iff, Prod.exists] at added
  obtain ⟨front, key, split, _, after, done, ⟨⟩⟩ := added
  obtain ⟨frontHolds, keyHolds⟩ := forall_mem_of_splitPath? pathHolds split
  refine (ChangeKeeps.changeAt (fun _ => True) ?_ false frontHolds all done).2
  intro form inner taken changed innerAll addedInner
  obtain ⟨left, addedKey, ⟨⟩⟩ := Option.map_eq_some_iff.mp addedInner
  exact ⟨trivial, onFields_add? innerAll keyHolds tableAll addedKey⟩

theorem onFields_addElement? (pathHolds : ∀ key ∈ path, holds key) (tableAll : table.AllKeys holds)
    (all : onFields holds fields) (added : addElement? path table fields = some changed) :
    onFields holds changed := by
  simp only [addElement?, Option.bind_eq_bind, Option.bind_eq_some_iff, Prod.exists] at added
  obtain ⟨front, key, split, _, after, done, ⟨⟩⟩ := added
  obtain ⟨frontHolds, keyHolds⟩ := forall_mem_of_splitPath? pathHolds split
  refine (ChangeKeeps.changeAt (fun _ => True) ?_ false frontHolds all done).2
  intro form inner taken changed innerAll addedInner
  dsimp only at addedInner
  split at addedInner
  next =>
    cases addedInner
    exact ⟨trivial, onFields_append.mpr
      ⟨innerAll, keyHolds, onElements_iff.mpr (List.forall_mem_singleton.mpr tableAll),
        onFields_nil⟩⟩
  next place elements held =>
    cases addedInner
    have elementsAll : onElements holds elements := allKeys_of_find? innerAll held
    have oneMore : onElements holds (elements ++ [table]) :=
      onElements_append.mpr ⟨elementsAll, tableAll, trivial⟩
    exact ⟨trivial, onFields_replace innerAll oneMore⟩
  next =>
    cases addedInner

theorem onFields_ofAssignments? {assignments : List (List Key × Setting)}
    (all : ∀ assignment ∈ assignments,
      (∀ key ∈ assignment.1, holds key) ∧ assignment.2.AllKeys holds)
    (made : ofAssignments? assignments = some changed) : onFields holds changed := by
  suffices from_ : ∀ fields, onFields holds fields →
      assignments.foldlM (fun fields assignment => assign? assignment.1 assignment.2 fields) fields =
        some changed → onFields holds changed from from_ [] onFields_nil made
  clear made
  induction assignments with
  | nil =>
      rintro fields fieldsAll ⟨⟩
      exact fieldsAll
  | cons assignment rest inductionHypothesis =>
      obtain ⟨⟨pathHolds, valueAll⟩, restAll⟩ := List.forall_mem_cons.mp all
      intro fields fieldsAll made
      rw [List.foldlM_cons] at made
      obtain ⟨next, assigned, madeRest⟩ := Option.bind_eq_some_iff.mp made
      exact inductionHypothesis restAll next
        (onFields_assign? pathHolds valueAll fieldsAll assigned) madeRest

end Tables

/-! ## Documents under construction -/

section Drafts

variable {holds : Key → Prop} {draft next : Draft} {fields : Fields}

/-- Every key of a statement has a property. -/
def Statement.AllKeys (holds : Key → Prop) : Statement → Prop
  | .assignment path value => (∀ key ∈ path, holds key) ∧ value.AllKeys holds
  | .header path _ => ∀ key ∈ path, holds key
  | .elementHeader path _ => ∀ key ∈ path, holds key

/-- Every key of the header of a section has a property. -/
def Section.AllKeys (holds : Key → Prop) : Section → Prop
  | .top => True
  | .table path _ => ∀ key ∈ path, holds key
  | .element path _ => ∀ key ∈ path, holds key

/-- Every key of a draft has a property. -/
structure Draft.AllKeys (holds : Key → Prop) (draft : Draft) : Prop where
  finished : onFields holds draft.finished
  opened : draft.opened.AllKeys holds
  fields : onFields holds draft.fields

theorem Draft.AllKeys.close? (all : draft.AllKeys holds) (closed : draft.close? = some fields) :
    onFields holds fields := by
  obtain ⟨finishedAll, openedAll, fieldsAll⟩ := all
  obtain ⟨finished, opened, held⟩ := draft
  cases opened with
  | top =>
      cases closed
      exact fieldsAll
  | table path place =>
      have tableAll : (Setting.table (some place) .headed held).AllKeys holds := fieldsAll
      exact onFields_addTable? openedAll tableAll finishedAll closed
  | element path place =>
      have tableAll : (Setting.table (some place) .headed held).AllKeys holds := fieldsAll
      exact onFields_addElement? openedAll tableAll finishedAll closed

theorem Section.AllKeys.reach {opened : Section} (all : opened.AllKeys holds) (value : Setting) :
    (Draft.reach opened value).AllKeys holds := by
  unfold Draft.reach
  split <;> exact all

theorem Draft.AllKeys.add? {statement : Statement} (all : draft.AllKeys holds)
    (statementAll : statement.AllKeys holds) (added : draft.add? statement = some next) :
    next.AllKeys holds := by
  cases statement with
  | assignment path value =>
      obtain ⟨pathHolds, valueAll⟩ := statementAll
      obtain ⟨fields, assigned, ⟨⟩⟩ := Option.bind_eq_some_iff.mp added
      exact ⟨all.finished, all.opened.reach value,
        onFields_assign? pathHolds valueAll all.fields assigned⟩
  | header path place =>
      simp only [Draft.add?, Option.bind_eq_bind, Option.bind_eq_some_iff, Prod.exists] at added
      obtain ⟨finished, closed, implied, others, took, ⟨⟩⟩ := added
      obtain ⟨impliedAll, othersAll⟩ := onFields_takeImplied? statementAll (all.close? closed) took
      exact ⟨othersAll, statementAll, impliedAll⟩
  | elementHeader path place =>
      obtain ⟨finished, closed, admitted⟩ := Option.bind_eq_some_iff.mp added
      split at admitted
      · cases admitted
        exact ⟨all.close? closed, statementAll, onFields_nil⟩
      · cases admitted

theorem onFields_ofStatements? {statements : List Statement}
    (all : ∀ statement ∈ statements, statement.AllKeys holds)
    (made : ofStatements? statements = some fields) : onFields holds fields := by
  obtain ⟨draft, added, closed⟩ := Option.bind_eq_some_iff.mp made
  suffices from_ : ∀ start : Draft, start.AllKeys holds →
      statements.foldlM Draft.add? start = some draft → draft.AllKeys holds from
    (from_ .empty ⟨onFields_nil, trivial, onFields_nil⟩ added).close? closed
  clear made added
  induction statements with
  | nil =>
      rintro start startAll ⟨⟩
      exact startAll
  | cons statement rest inductionHypothesis =>
      obtain ⟨statementAll, restAll⟩ := List.forall_mem_cons.mp all
      intro start startAll added
      rw [List.foldlM_cons] at added
      obtain ⟨next, addedFirst, addedRest⟩ := Option.bind_eq_some_iff.mp added
      exact inductionHypothesis restAll next (startAll.add? statementAll addedFirst) addedRest

end Drafts

/-! ## Reading -/

/-- A key stands at its place in a text: the letters from there on start with a spelling of its name,
and its place ends where the spelling does. -/
def WrittenIn (content : List Char) (key : Key) : Prop :=
  ∃ before spelled after, content = before ++ (spelled ++ after) ∧
    key.place = some (extentBetween (spelled ++ after) after) ∧
      readKeyName (spelled ++ after) = some (key.name.toList, after)

section Readers

variable {α : Type} {content letters rest : List Char}

/-- What a reader reads anywhere in a text has a property, and what it leaves is an end of the
text. -/
def ReadsIn (content : List Char) (suits : α → Prop) (reader : Reader α) : Prop :=
  ∀ ⦃letters value rest⦄, letters <:+ content → reader letters = some (value, rest) →
    suits value ∧ rest <:+ content

theorem leavesEnd_readKeyName : LeavesEnd readKeyName := by
  intro letters value rest read
  unfold readKeyName at read
  split at read
  next after =>
    exact (leavesEnd_readBasic read).trans (List.suffix_cons '"' after)
  next after =>
    exact (leavesEnd_readLiteral read).trans (List.suffix_cons '\'' after)
  next =>
    dsimp only at read
    split at read
    · cases read
    · cases read
      exact List.dropWhile_suffix isBareKeyLetter

theorem readsIn_readKey : ReadsIn content (WrittenIn content) readKey := by
  intro letters key rest inside read
  simp only [readKey, Option.bind_eq_bind, Option.bind_eq_some_iff, Prod.exists] at read
  obtain ⟨name, after, readName, ⟨⟩⟩ := read
  obtain ⟨spelled, rfl⟩ := leavesEnd_readKeyName readName
  have left : rest <:+ content := (List.suffix_append spelled rest).trans inside
  obtain ⟨before, rfl⟩ := inside
  refine ⟨⟨before, spelled, rest, rfl, rfl, ?_⟩, left⟩
  rw [readName, String.toList_ofList]

theorem readsIn_readKeysWithin (bound : Nat) :
    ReadsIn content (fun path => ∀ key ∈ path, WrittenIn content key) (readKeysWithin bound) := by
  intro letters path rest inside read
  induction bound generalizing letters path rest with
  | zero =>
      cases read
  | succ bound inductionHypothesis =>
      simp only [readKeysWithin, Option.bind_eq_bind, Option.bind_eq_some_iff, Prod.exists] at read
      obtain ⟨key, after, readFirst, readRest⟩ := read
      obtain ⟨written, afterInside⟩ :=
        readsIn_readKey ((skipBlanks_suffix letters).trans inside) readFirst
      have skipped := (skipBlanks_suffix after).trans afterInside
      split at readRest
      next later dotted =>
        obtain ⟨⟨keys, left⟩, readKeys, ⟨⟩⟩ := Option.bind_eq_some_iff.mp readRest
        rw [dotted] at skipped
        obtain ⟨othersWritten, leftInside⟩ :=
          inductionHypothesis ((List.suffix_cons '.' later).trans skipped) readKeys
        exact ⟨List.forall_mem_cons.mpr ⟨written, othersWritten⟩, leftInside⟩
      next =>
        cases readRest
        exact ⟨List.forall_mem_singleton.mpr written, skipped⟩

theorem readsIn_readPath :
    ReadsIn content (fun path => ∀ key ∈ path, WrittenIn content key) readPath :=
  readsIn_readKeysWithin (nestingLimit - 1)

theorem allKeys_of_readScalar {holds : Key → Prop} {value : Setting}
    (read : readScalar letters = some (value, rest)) : value.AllKeys holds := by
  unfold readScalar at read
  split at read
  next =>
    cases read
    trivial
  next =>
    cases read
    trivial
  next =>
    split at read
    next =>
      obtain ⟨_, _, ⟨⟩⟩ := Option.bind_eq_some_iff.mp read
      trivial
    next =>
      split at read
      next =>
        obtain ⟨_, _, ⟨⟩⟩ := Option.bind_eq_some_iff.mp read
        trivial
      next =>
        obtain ⟨⟨number, _⟩, _, ⟨⟩⟩ := Option.bind_eq_some_iff.mp read
        cases number <;> trivial
  next =>
    cases read

/-- Every key of what a reader of settings reads stands at its place. -/
abbrev ReadsWritten (content : List Char) (reader : Reader Setting) : Prop :=
  ReadsIn content (Setting.AllKeys (WrittenIn content)) reader

theorem readsWritten_readScalar : ReadsWritten content readScalar :=
  fun _ _ _ inside read =>
    ⟨allKeys_of_readScalar read, (leavesEnd_readScalar read).trans inside⟩

variable {reader : Reader Setting}

theorem ReadsIn.readElements (reads : ReadsWritten content reader) (fuel : Nat) :
    ReadsIn content (onElements (WrittenIn content)) (readElements reader fuel) := by
  intro letters elements rest inside read
  induction fuel generalizing letters elements rest with
  | zero =>
      cases read
  | succ fuel inductionHypothesis =>
      rw [Toml.readElements] at read
      have skipped := (skipGapsIn_suffix false letters).trans inside
      split at read
      next left closed =>
        cases read
        rw [skipGaps] at closed
        rw [closed] at skipped
        exact ⟨trivial, (List.suffix_cons ']' rest).trans skipped⟩
      next =>
        obtain ⟨⟨element, after⟩, readElement, readRest⟩ := Option.bind_eq_some_iff.mp read
        obtain ⟨written, afterInside⟩ := reads skipped readElement
        have afterSkipped := (skipGapsIn_suffix false after).trans afterInside
        dsimp only at readRest
        split at readRest
        next more comma =>
          obtain ⟨⟨others, left⟩, readOthers, ⟨⟩⟩ := Option.bind_eq_some_iff.mp readRest
          rw [skipGaps] at comma
          rw [comma] at afterSkipped
          obtain ⟨othersWritten, leftInside⟩ :=
            inductionHypothesis ((List.suffix_cons ',' more).trans afterSkipped) readOthers
          exact ⟨⟨written, othersWritten⟩, leftInside⟩
        next left closed =>
          cases readRest
          rw [skipGaps] at closed
          rw [closed] at afterSkipped
          exact ⟨⟨written, trivial⟩, (List.suffix_cons ']' rest).trans afterSkipped⟩
        next =>
          cases readRest

/-- Every key of an assignment stands at its place. -/
def AssignmentWritten (content : List Char) (assignment : List Key × Setting) : Prop :=
  (∀ key ∈ assignment.1, WrittenIn content key) ∧ assignment.2.AllKeys (WrittenIn content)

theorem ReadsIn.readAssignment (reads : ReadsWritten content reader) :
    ReadsIn content (AssignmentWritten content) (readAssignment reader) := by
  intro letters assignment rest inside read
  obtain ⟨⟨path, afterPath⟩, readPath, readRest⟩ := Option.bind_eq_some_iff.mp read
  obtain ⟨pathWritten, afterInside⟩ := readsIn_readPath inside readPath
  dsimp only at readRest
  split at readRest
  next after =>
    obtain ⟨⟨value, left⟩, readValue, ⟨⟩⟩ := Option.bind_eq_some_iff.mp readRest
    have start := (skipBlanks_suffix after).trans ((List.suffix_cons '=' after).trans afterInside)
    obtain ⟨valueWritten, leftInside⟩ := reads start readValue
    exact ⟨⟨pathWritten, valueWritten⟩, leftInside⟩
  next =>
    cases readRest

theorem ReadsIn.readAssignments (reads : ReadsWritten content reader) (fuel : Nat) :
    ReadsIn content (fun assignments => ∀ one ∈ assignments, AssignmentWritten content one)
      (readAssignments reader fuel) := by
  intro letters assignments rest inside read
  induction fuel generalizing letters assignments rest with
  | zero =>
      cases read
  | succ fuel inductionHypothesis =>
      obtain ⟨⟨assignment, after⟩, readFirst, readRest⟩ := Option.bind_eq_some_iff.mp read
      obtain ⟨written, afterInside⟩ := reads.readAssignment inside readFirst
      have skipped := (skipBlanks_suffix after).trans afterInside
      dsimp only at readRest
      split at readRest
      next more comma =>
        obtain ⟨⟨others, left⟩, readOthers, ⟨⟩⟩ := Option.bind_eq_some_iff.mp readRest
        rw [comma] at skipped
        obtain ⟨othersWritten, leftInside⟩ :=
          inductionHypothesis ((List.suffix_cons ',' more).trans skipped) readOthers
        exact ⟨List.forall_mem_cons.mpr ⟨written, othersWritten⟩, leftInside⟩
      next left closed =>
        cases readRest
        rw [closed] at skipped
        exact ⟨List.forall_mem_singleton.mpr written,
          (List.suffix_cons '\x7d' rest).trans skipped⟩
      next =>
        cases readRest

theorem ReadsIn.readBraced (reads : ReadsWritten content reader) :
    ReadsIn content (fun assignments => ∀ one ∈ assignments, AssignmentWritten content one)
      (readBraced reader) := by
  intro letters assignments rest inside read
  have skipped := (skipBlanks_suffix letters).trans inside
  rw [Toml.readBraced] at read
  split at read
  next left closed =>
    cases read
    rw [closed] at skipped
    exact ⟨List.forall_mem_nil _, (List.suffix_cons '\x7d' rest).trans skipped⟩
  next =>
    exact reads.readAssignments letters.length skipped read

theorem readsWritten_readNested (depth : Nat) : ReadsWritten content (readNested depth) := by
  induction depth with
  | zero =>
      exact readsWritten_readScalar
  | succ depth inductionHypothesis =>
      intro letters value rest inside read
      rw [readNested.eq_def] at read
      dsimp only at read
      split at read
      next after =>
        obtain ⟨⟨elements, left⟩, readElements, ⟨⟩⟩ := Option.bind_eq_some_iff.mp read
        exact inductionHypothesis.readElements _ ((List.suffix_cons '[' after).trans inside)
          readElements
      next after =>
        simp only [Option.bind_eq_bind, Option.bind_eq_some_iff, Prod.exists] at read
        obtain ⟨assignments, left, readBraced, fields, made, ⟨⟩⟩ := read
        obtain ⟨written, leftInside⟩ :=
          inductionHypothesis.readBraced ((List.suffix_cons '\x7b' after).trans inside) readBraced
        exact ⟨onFields_ofAssignments? written made, leftInside⟩
      next =>
        exact readsWritten_readScalar inside read

theorem readsWritten_readValue : ReadsWritten content readValue :=
  readsWritten_readNested (nestingLimit - 1)

theorem readsIn_readStatement :
    ReadsIn content (Statement.AllKeys (WrittenIn content)) readStatement := by
  intro letters statement rest inside read
  unfold readStatement at read
  split at read
  next after =>
    obtain ⟨⟨path, left⟩, readPath, readRest⟩ := Option.bind_eq_some_iff.mp read
    have start : after <:+ content := List.IsSuffix.trans ⟨['[', '['], rfl⟩ inside
    obtain ⟨written, leftInside⟩ := readsIn_readPath start readPath
    split at readRest
    next same =>
      obtain ⟨_, ended, ⟨⟩⟩ := Option.bind_eq_some_iff.mp readRest
      cases same
      exact ⟨written, (endOfLine?_suffix ended).trans
        (List.IsSuffix.trans ⟨[']', ']'], rfl⟩ leftInside)⟩
    next =>
      cases readRest
  next after _ =>
    obtain ⟨⟨path, left⟩, readPath, readRest⟩ := Option.bind_eq_some_iff.mp read
    have start : after <:+ content := (List.suffix_cons '[' after).trans inside
    obtain ⟨written, leftInside⟩ := readsIn_readPath start readPath
    split at readRest
    next same =>
      obtain ⟨_, ended, ⟨⟩⟩ := Option.bind_eq_some_iff.mp readRest
      cases same
      exact ⟨written, (endOfLine?_suffix ended).trans
        (List.IsSuffix.trans ⟨[']'], rfl⟩ leftInside)⟩
    next =>
      cases readRest
  next =>
    simp only [Option.bind_eq_bind, Option.bind_eq_some_iff, Prod.exists] at read
    obtain ⟨path, value, left, readAssignment, after, ended, ⟨⟩⟩ := read
    obtain ⟨written, leftInside⟩ := readsWritten_readValue.readAssignment inside readAssignment
    exact ⟨written, (endOfLine?_suffix ended).trans leftInside⟩

theorem allKeys_of_readStatements {fuel : Nat} {statements : List Statement}
    (inside : letters <:+ content) (read : readStatements fuel letters = some statements) :
    ∀ statement ∈ statements, statement.AllKeys (WrittenIn content) := by
  induction fuel generalizing letters statements with
  | zero =>
      cases read
  | succ fuel inductionHypothesis =>
      rw [readStatements] at read
      have skipped := (skipGapsIn_suffix false letters).trans inside
      split at read
      next =>
        cases read
        exact List.forall_mem_nil _
      next =>
        simp only [Option.bind_eq_bind, Option.bind_eq_some_iff, Prod.exists] at read
        obtain ⟨statement, after, readFirst, others, readOthers, ⟨⟩⟩ := read
        obtain ⟨written, afterInside⟩ := readsIn_readStatement skipped readFirst
        exact List.forall_mem_cons.mpr ⟨written, inductionHypothesis afterInside readOthers⟩

theorem withoutOrderMark_suffix (letters : List Char) : withoutOrderMark letters <:+ letters := by
  unfold withoutOrderMark
  split
  · exact List.suffix_cons _ _
  · exact List.suffix_rfl

/-- Every key of a document stands at its place in the text. -/
theorem allKeys_of_read? {text : String} {document : Setting} (isDocument : read? text = some document) :
    document.AllKeys (WrittenIn text.toList) := by
  simp only [read?, Option.bind_eq_bind, Option.bind_eq_some_iff] at isDocument
  obtain ⟨statements, readAll, fields, made, ⟨⟩⟩ := isDocument
  exact onFields_ofStatements?
    (allKeys_of_readStatements (withoutOrderMark_suffix text.toList) readAll) made

end Readers

end Toml

end ClojureBuild
