import ClojureBuild.Proofs.Shares
import Mathlib.Data.List.Basic

/-!
# Who gets which file

A file goes to the first language, by priority, that is present among all files and whose compiler
accepts the file.  That earlier languages have already taken their files does not matter: the only
files that two compilers accept are Java files, and these all go to the first compiler there is.
-/

namespace ClojureBuild

/-- Items taken label by label are those that have one of the labels. -/
theorem flatMap_filter_perm {α β : Type} [DecidableEq β] {labels : List β} (distinct : labels.Nodup)
    (label? : α → Option β) (items : List α) :
    (labels.flatMap fun label => items.filter fun item => label? item == some label).Perm
      (items.filter fun item => labels.any fun label => label? item == some label) := by
  induction labels with
  | nil =>
      simp
  | cons head tail inductionHypothesis =>
      obtain ⟨notAgain, tailDistinct⟩ := List.nodup_cons.1 distinct
      let wanted := fun item => (head :: tail).any fun label => label? item == some label
      have first :
          (items.filter wanted).filter (fun item => label? item == some head) =
            items.filter fun item => label? item == some head := by
        rw [List.filter_filter]
        apply List.filter_congr
        intro item _
        cases labelled : label? item == some head with
        | false =>
            simp
        | true =>
            simp [wanted, labelled]
      have others :
          (items.filter wanted).filter (fun item => !(label? item == some head)) =
            items.filter fun item => tail.any fun label => label? item == some label := by
        rw [List.filter_filter]
        apply List.filter_congr
        intro item _
        cases labelled : label? item == some head with
        | false =>
            simp [wanted, labelled]
        | true =>
            rw [beq_iff_eq] at labelled
            have foreign : ∀ label ∈ tail, head ≠ label :=
              fun label member same => notAgain (same ▸ member)
            simpa [labelled] using foreign
      have split := List.filter_append_perm (fun item => label? item == some head)
        (items.filter wanted)
      rw [first, others] at split
      rw [List.flatMap_cons]
      exact ((inductionHypothesis tailDistinct).append_left _).trans split

namespace Language

variable {language other : Language} {file : Path} {files : List Path}

/-- The language whose compiler gets a file. -/
def owner? (files : List Path) (file : Path) : Option Language :=
  byPriority.find? fun language => language.isPresent files && language.accepts file

/-- Whether a file has the extension of a secondary language. -/
def isSecondary (file : Path) : Bool :=
  ["scala", "groovy", "java"].any fun extension => file.extension? == some extension

theorem isSecondary_iff : isSecondary file = true ↔ ∃ language, owns language file = true := by
  constructor
  · intro secondary
    obtain ⟨extension, listed, spelled⟩ := List.any_eq_true.1 secondary
    simp only [List.mem_cons, List.not_mem_nil, or_false] at listed
    obtain rfl | rfl | rfl := listed
    · exact ⟨.scala, spelled⟩
    · exact ⟨.groovy, spelled⟩
    · exact ⟨.java, spelled⟩
  · intro owned
    obtain ⟨language, owns⟩ := owned
    refine List.any_eq_true.2 ⟨language.extension, ?_, owns⟩
    cases language <;> decide

/-- Every compiler accepts Java files. -/
theorem accepts_of_java_owns (owned : Language.java.owns file = true) (language : Language) :
    language.accepts file = true := by
  have extension : file.extension? = some Language.java.extension := by
    simpa [owns] using owned
  rw [accepts, extension]
  cases language <;> decide

theorem isSecondary_of_accepts (accepted : language.accepts file = true) :
    isSecondary file = true := by
  cases owns_of_accepts accepted with
  | inl own =>
      exact isSecondary_iff.2 ⟨language, own⟩
  | inr java =>
      exact isSecondary_iff.2 ⟨.java, java⟩

theorem byPriority_nodup : byPriority.Nodup := by
  decide

theorem present_nodup (files : List Path) : (present files).Nodup :=
  byPriority_nodup.sublist List.filter_sublist

theorem owner?_eq_find? (files : List Path) (file : Path) :
    owner? files file = (present files).find? fun language => language.accepts file := by
  simp [owner?, present, List.find?_filter]

theorem isSecondary_iff_owner? (member : file ∈ files) :
    isSecondary file = true ↔ ∃ language, owner? files file = some language := by
  rw [← Option.isSome_iff_exists, owner?, List.find?_isSome]
  constructor
  · intro secondary
    obtain ⟨language, owned⟩ := isSecondary_iff.1 secondary
    refine ⟨language, mem_byPriority language, ?_⟩
    rw [isPresent_of_mem member owned, accepts_of_owns owned]
    rfl
  · intro accepted
    obtain ⟨language, -, presentAndAccepts⟩ := accepted
    exact isSecondary_of_accepts (Bool.and_eq_true_iff.1 presentAndAccepts).2

/-- Where a joint compiler is present `javac` gets nothing. -/
theorem owner?_ne_java (isPresent : language.isPresent files = true) (joint : language ≠ .java) :
    owner? files file ≠ some .java := by
  intro owned
  have accepted : Language.java.accepts file = true := by
    rw [owner?_eq_find?] at owned
    exact List.find?_some (p := fun language : Language => language.accepts file) owned
  have java : Language.java.owns file = true := (owns_of_accepts accepted).elim id id
  have takes := accepts_of_java_owns java
  cases language with
  | scala =>
      simp [owner?, byPriority, isPresent, takes] at owned
  | groovy =>
      simp only [owner?, byPriority, List.find?_cons, isPresent, takes] at owned
      split at owned <;> cases owned
  | java =>
      exact joint rfl

end Language

namespace Share

variable {languages : List Language} {file : Path} {remaining : List Path} {share : Share}

/-! ## Dealing in closed form -/

/-- The files that a language gets when every file goes to the first language that accepts it. -/
def ofFirst (languages : List Language) (remaining : List Path) (language : Language) : Share :=
  ⟨language, remaining.filter fun file =>
    languages.find? (fun other => other.accepts file) == some language⟩

/-- A language is present as long as its compiler accepts any of the files that are left. -/
def AllServed (languages : List Language) (remaining : List Path) : Prop :=
  ∀ language ∈ languages, ∀ file ∈ remaining, language.accepts file = true →
    language.isPresent remaining = true

/-- What one language leaves are no Java files, so each other compiler accepts of them only those in
its own language. -/
theorem AllServed.tail {head : Language} {tail : List Language} :
    AllServed tail (remaining.filter fun file => !head.accepts file) := by
  intro language member file left accepted
  refine Language.isPresent_of_mem left ?_
  apply (Language.owns_of_accepts accepted).resolve_right
  intro java
  have refused := (List.mem_filter.1 left).2
  rw [Language.accepts_of_java_owns java head] at refused
  cases refused

theorem ofFirst_cons_self (head : Language) (tail : List Language) (remaining : List Path) :
    ofFirst (head :: tail) remaining head = ⟨head, remaining.filter head.accepts⟩ := by
  rw [ofFirst, mk.injEq]
  refine ⟨rfl, List.filter_congr ?_⟩
  intro file _
  rw [List.find?_cons]
  cases accepted : head.accepts file with
  | true =>
      simp
  | false =>
      rw [beq_eq_false_iff_ne]
      intro found
      have contrary := List.find?_some (p := fun other : Language => other.accepts file) found
      rw [accepted] at contrary
      cases contrary

theorem ofFirst_cons_of_ne {head language : Language} (differs : language ≠ head)
    (tail : List Language) (remaining : List Path) :
    ofFirst (head :: tail) remaining language =
      ofFirst tail (remaining.filter fun file => !head.accepts file) language := by
  rw [ofFirst, ofFirst, mk.injEq, List.filter_filter]
  refine ⟨rfl, List.filter_congr ?_⟩
  intro file _
  rw [List.find?_cons]
  cases accepted : head.accepts file with
  | true =>
      simp [differs.symm]
  | false =>
      simp

/-- Dealing in turn gives every file to the first language that accepts it, and no language gets an
empty share. -/
theorem deal_eq (distinct : languages.Nodup) (served : AllServed languages remaining) :
    deal languages remaining =
      (languages.map (ofFirst languages remaining)).filter fun share => !share.files.isEmpty := by
  induction languages generalizing remaining with
  | nil =>
      rfl
  | cons head tail inductionHypothesis =>
      obtain ⟨notAgain, tailDistinct⟩ := List.nodup_cons.1 distinct
      have others :
          tail.map (ofFirst (head :: tail) remaining) =
            tail.map (ofFirst tail (remaining.filter fun file => !head.accepts file)) := by
        apply List.map_congr_left
        intro language member
        apply ofFirst_cons_of_ne
        intro same
        exact notAgain (same ▸ member)
      rw [deal, List.map_cons, ofFirst_cons_self, others, List.filter_cons]
      cases isPresent : head.isPresent remaining with
      | true =>
          obtain ⟨file, member, owned⟩ := List.any_eq_true.1 isPresent
          have taken : remaining.filter head.accepts ≠ [] :=
            List.ne_nil_of_mem (List.mem_filter.2 ⟨member, Language.accepts_of_owns owned⟩)
          rw [inductionHypothesis tailDistinct AllServed.tail]
          simp [taken]
      | false =>
          -- a language that is absent accepts nothing that is left
          have refused : ∀ file ∈ remaining, head.accepts file = false := by
            intro file member
            apply Bool.eq_false_iff.2
            intro accepted
            rw [served head List.mem_cons_self file member accepted] at isPresent
            cases isPresent
          have nothing : remaining.filter head.accepts = [] := by
            rw [List.filter_eq_nil_iff]
            intro file member
            simp [refused file member]
          have everything : remaining.filter (fun file => !head.accepts file) = remaining := by
            rw [List.filter_eq_self]
            intro file member
            simp [refused file member]
          have served' : AllServed tail remaining :=
            fun language member => served language (List.mem_cons_of_mem head member)
          rw [nothing, everything, inductionHypothesis tailDistinct served']
          simp

/-- A language only gets a share while files of its own are left. -/
theorem exists_owned_of_mem_deal (dealt : share ∈ deal languages remaining) :
    ∃ file ∈ share.files, share.language.owns file = true := by
  induction languages generalizing remaining with
  | nil =>
      cases dealt
  | cons head tail inductionHypothesis =>
      rw [deal] at dealt
      split at dealt
      · next isPresent =>
          cases List.mem_cons.1 dealt with
          | inl first =>
              subst first
              obtain ⟨file, member, owned⟩ := List.any_eq_true.1 isPresent
              exact ⟨file, List.mem_filter.2 ⟨member, Language.accepts_of_owns owned⟩, owned⟩
          | inr later =>
              exact inductionHypothesis later
      · exact inductionHypothesis dealt

end Share

namespace Language

variable {language : Language} {files : List Path}

/-- The positions, with their files, of the files that a language gets. -/
def numberedFor (files : List Path) (language : Language) : List (Path × Nat) :=
  files.zipIdx.filter fun numbered => owner? files numbered.1 == some language

theorem map_numberedFor (files : List Path) (language : Language) :
    (numberedFor files language).map Prod.fst =
      files.filter fun file => owner? files file == some language := by
  have unnumbered : files.zipIdx.map Prod.fst = files := List.zipIdx_map_fst 0 files
  conv_rhs => rw [← unnumbered, List.filter_map, unnumbered]
  rfl

end Language

namespace SecondaryPolicy

variable {policy : SecondaryPolicy} {files : List Path} {share : Share}

/-- When all languages are compiled, each gets the files it is the owner of, if there are any. -/
theorem shares_all_eq (files : List Path) :
    SecondaryPolicy.all.shares files =
      ((Language.present files).map fun language =>
          ⟨language, (Language.numberedFor files language).map Prod.fst⟩).filter
        fun share : Share => !share.files.isEmpty := by
  have served : Share.AllServed (Language.present files) files := by
    intro language member _ _ _
    exact (List.mem_filter.1 member).2
  rw [shares, languages, Share.deal_eq (Language.present_nodup files) served]
  congr 2
  funext language
  rw [Share.ofFirst, Language.map_numberedFor]
  simp only [Language.owner?_eq_find?]

/-- The first match gets what it would get if the others were compiled as well. -/
theorem shares_firstMatch_eq (files : List Path) :
    SecondaryPolicy.firstMatch.shares files = (SecondaryPolicy.all.shares files).take 1 := by
  have foremost : Language.foremost? files = (Language.present files).head? := by
    rw [Language.foremost?, Language.present, List.head?_filter]
  rw [shares, shares, languages, languages, foremost]
  cases isPresent : Language.present files with
  | nil =>
      rfl
  | cons head tail =>
      have headPresent : head.isPresent files = true := by
        have member : head ∈ Language.present files := by
          simp [isPresent]
        exact (List.mem_filter.1 member).2
      simp [Share.deal, headPresent]

/-- What every share of a list of files is like. -/
structure WellDealt (files : List Path) (share : Share) : Prop where
  part : share.files.Sublist files
  accepted : ∀ file ∈ share.files, share.language.accepts file = true
  owned : ∃ file ∈ share.files, share.language.owns file = true

theorem wellDealt_of_mem_shares (dealt : share ∈ policy.shares files) : WellDealt files share where
  part := (of_mem_shares dealt).1
  accepted := fun file member => ((of_mem_shares dealt).2 file member).1
  owned := Share.exists_owned_of_mem_deal dealt

/-- Shares divide a list of files by position: each holds the files at the positions of its language,
and the positions of all shares are those of the files with the extension of a secondary language,
each of them once. -/
structure Divides (files : List Path) (shares : List Share) : Prop where
  gets : ∀ share ∈ shares, share.files = (Language.numberedFor files share.language).map Prod.fst
  once : (shares.flatMap fun share => Language.numberedFor files share.language).Perm
    (files.zipIdx.filter fun numbered => Language.isSecondary numbered.1)

theorem mem_shares_all_iff :
    share ∈ SecondaryPolicy.all.shares files ↔
      share.files = (Language.numberedFor files share.language).map Prod.fst ∧ share.files ≠ [] := by
  rw [shares_all_eq, List.mem_filter, List.mem_map]
  constructor
  · intro dealt
    obtain ⟨⟨language, -, rfl⟩, nonempty⟩ := dealt
    exact ⟨rfl, by simpa using nonempty⟩
  · intro held
    obtain ⟨gets, nonempty⟩ := held
    refine ⟨⟨share.language, ?_, ?_⟩, by simpa using nonempty⟩
    · obtain ⟨file, member⟩ := List.exists_mem_of_ne_nil _ nonempty
      rw [gets, Language.map_numberedFor, List.mem_filter, beq_iff_eq,
        Language.owner?_eq_find?] at member
      exact List.mem_of_find?_eq_some member.2
    · rw [← gets]

theorem divides_shares_all (files : List Path) :
    Divides files (SecondaryPolicy.all.shares files) where
  gets := fun share dealt => (mem_shares_all_iff.1 dealt).1
  once := by
    have distinct : ((SecondaryPolicy.all.shares files).map Share.language).Nodup :=
      Language.byPriority_nodup.sublist (languages_shares_sublist _ _)
    have labelled :=
      flatMap_filter_perm distinct (fun numbered : Path × Nat =>
        Language.owner? files numbered.1) files.zipIdx
    rw [List.flatMap_map] at labelled
    refine labelled.trans (List.Perm.of_eq (List.filter_congr ?_))
    intro numbered member
    have listed : numbered.1 ∈ files := List.fst_mem_of_mem_zipIdx member
    rw [Bool.eq_iff_iff, Language.isSecondary_iff_owner? listed, List.any_map, List.any_eq_true]
    constructor
    · intro owned
      obtain ⟨share, -, isOwner⟩ := owned
      exact ⟨share.language, by simpa using isOwner⟩
    · intro owned
      obtain ⟨language, isOwner⟩ := owned
      have gets : numbered ∈ Language.numberedFor files language :=
        List.mem_filter.2 ⟨member, by simpa using isOwner⟩
      refine ⟨⟨language, (Language.numberedFor files language).map Prod.fst⟩, ?_, ?_⟩
      · exact mem_shares_all_iff.2 ⟨rfl, List.ne_nil_of_mem (List.mem_map_of_mem gets)⟩
      · simpa using isOwner

end SecondaryPolicy

/-- Under either policy the languages get their shares in the order of priority, each of them at most
one, and a share holds some of the files in their given order, all of them accepted by the compiler of
its language and at least one written in it.  When all languages are compiled the shares divide the
files by position: a file with the extension of a secondary language goes to the first language that is
present and accepts it, and Java has no share where a file in one of the others is present.  The first
match is the first of these shares. -/
theorem shares_divide_files_among_owners (files : List Path) :
    (∀ policy : SecondaryPolicy,
      ((policy.shares files).map Share.language).Sublist [.scala, .groovy, .java] ∧
        ((policy.shares files).map Share.language).Nodup ∧
          ∀ share ∈ policy.shares files, SecondaryPolicy.WellDealt files share) ∧
      SecondaryPolicy.Divides files (SecondaryPolicy.all.shares files) ∧
        ((∃ file ∈ files, Language.scala.owns file = true ∨ Language.groovy.owns file = true) →
          ∀ share ∈ SecondaryPolicy.all.shares files, share.language ≠ .java) ∧
          SecondaryPolicy.firstMatch.shares files =
            (SecondaryPolicy.all.shares files).take 1 := by
  refine ⟨?_, SecondaryPolicy.divides_shares_all files, ?_,
    SecondaryPolicy.shares_firstMatch_eq files⟩
  · intro policy
    have inOrder := policy.languages_shares_sublist files
    exact ⟨inOrder, Language.byPriority_nodup.sublist inOrder,
      fun share => SecondaryPolicy.wellDealt_of_mem_shares⟩
  · intro joint share dealt java
    obtain ⟨gets, nonempty⟩ := SecondaryPolicy.mem_shares_all_iff.1 dealt
    obtain ⟨file, member⟩ := List.exists_mem_of_ne_nil _ nonempty
    rw [gets, Language.map_numberedFor, List.mem_filter, beq_iff_eq, java] at member
    obtain ⟨other, listed, owned⟩ := joint
    cases owned with
    | inl scala =>
        exact Language.owner?_ne_java (Language.isPresent_of_mem listed scala) (by decide) member.2
    | inr groovy =>
        exact Language.owner?_ne_java (Language.isPresent_of_mem listed groovy) (by decide) member.2

/-- A repeated Java file goes to `scalac` both times, since there is a Scala file. -/
theorem repeated_java_file_goes_to_scala :
    SecondaryPolicy.all.shares [⟨"A.java"⟩, ⟨"B.groovy"⟩, ⟨"A.java"⟩, ⟨"C.scala"⟩] =
        [⟨.scala, [⟨"A.java"⟩, ⟨"A.java"⟩, ⟨"C.scala"⟩]⟩, ⟨.groovy, [⟨"B.groovy"⟩]⟩] ∧
      SecondaryPolicy.Divides [⟨"A.java"⟩, ⟨"B.groovy"⟩, ⟨"A.java"⟩, ⟨"C.scala"⟩]
        (SecondaryPolicy.all.shares [⟨"A.java"⟩, ⟨"B.groovy"⟩, ⟨"A.java"⟩, ⟨"C.scala"⟩]) ∧
        ∀ share ∈ SecondaryPolicy.all.shares
            [⟨"A.java"⟩, ⟨"B.groovy"⟩, ⟨"A.java"⟩, ⟨"C.scala"⟩], share.language ≠ .java := by
  obtain ⟨-, divides, noJava, -⟩ :=
    shares_divide_files_among_owners [⟨"A.java"⟩, ⟨"B.groovy"⟩, ⟨"A.java"⟩, ⟨"C.scala"⟩]
  exact ⟨by decide +kernel, divides, noJava ⟨⟨"B.groovy"⟩, by decide +kernel, by decide +kernel⟩⟩

end ClojureBuild
