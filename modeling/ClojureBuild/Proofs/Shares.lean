import ClojureBuild.Language.Share
import ClojureBuild.Proofs.Namespace
import ClojureBuild.Proofs.Path.Order

/-!
# Shares of the compilers

What a compiler accepts is told by the name of a file.  Every file that a policy covers is in exactly
one of the shares it deals.
-/

namespace ClojureBuild

namespace Path

variable {left right base : Path} {names : List String}

theorem fileName?_of_same (same : left.same right = true) : left.fileName? = right.fileName? := by
  rw [fileName?, fileName?, same_iff.1 same]

theorem fileName?_below
    (nonempty : names ≠ []) (plainNames : ∀ name ∈ names, PlainName name) :
    (base.below names).fileName? = names.getLast? := by
  rcases (List.eq_nil_or_concat names).resolve_left nonempty with ⟨front, last, rfl⟩
  rw [fileName?, components_below base plainNames, List.concat_eq_append, List.map_append,
    ← List.append_assoc, List.map_singleton, List.getLast?_concat, List.getLast?_concat]
  rfl

end Path

namespace Language

variable {language other : Language} {left right file : Path} {files : List Path}

theorem accepts_of_fileName? (same : left.fileName? = right.fileName?) :
    language.accepts left = language.accepts right := by
  rw [accepts, accepts, Path.extension?, Path.extension?, same]

theorem owns_of_fileName? (same : left.fileName? = right.fileName?) :
    language.owns left = language.owns right := by
  rw [owns, owns, Path.extension?, Path.extension?, same]

theorem mem_byPriority (language : Language) : language ∈ byPriority := by
  cases language <;> decide

theorem isPresent_of_mem (member : file ∈ files) (owned : language.owns file = true) :
    language.isPresent files = true :=
  List.any_eq_true.2 ⟨file, member, owned⟩

theorem accepts_of_owns (owned : language.owns file = true) : language.accepts file = true := by
  have extension : file.extension? = some language.extension := by
    simpa [owns] using owned
  rw [accepts, extension]
  cases language with
  | scala => decide
  | groovy => decide
  | java => decide

/-- A compiler accepts the files of its own language and Java files. -/
theorem owns_of_accepts (accepted : language.accepts file = true) :
    language.owns file = true ∨ Language.java.owns file = true := by
  rw [accepts] at accepted
  split at accepted
  · next extension spelled =>
      have listed : extension ∈ language.compiledExtensions := by
        simpa using accepted
      cases language with
      | scala =>
          simpa [owns, spelled, compiledExtensions, Language.extension, name] using listed
      | groovy =>
          simpa [owns, spelled, compiledExtensions, Language.extension, name] using listed
      | java =>
          simpa [owns, spelled, compiledExtensions, Language.extension, name] using listed
  · cases accepted

theorem eq_of_owns (left : language.owns file = true) (right : other.owns file = true) :
    language = other := by
  have spelled : some language.extension = some other.extension := by
    rw [owns, beq_iff_eq] at left right
    rw [← left, right]
  cases language <;> cases other <;> first | rfl | exact absurd spelled (by decide)

end Language

namespace Share

variable {languages : List Language} {file : Path} {remaining : List Path} {share : Share}

theorem of_mem_deal (dealt : share ∈ deal languages remaining) :
    share.language ∈ languages ∧ share.files.Sublist remaining ∧
      ∀ file ∈ share.files, share.language.accepts file = true := by
  induction languages generalizing remaining with
  | nil =>
      cases dealt
  | cons language rest inductionHypothesis =>
      rw [deal] at dealt
      split at dealt
      · rcases List.mem_cons.1 dealt with rfl | later
        · refine ⟨List.mem_cons_self, List.filter_sublist, ?_⟩
          intro file member
          exact (List.mem_filter.1 member).2
        · obtain ⟨inRest, part, accepted⟩ := inductionHypothesis later
          exact ⟨List.mem_cons_of_mem language inRest, part.trans List.filter_sublist, accepted⟩
      · obtain ⟨inRest, part, accepted⟩ := inductionHypothesis dealt
        exact ⟨List.mem_cons_of_mem language inRest, part, accepted⟩

/-- Languages get their shares in order, each at most one. -/
theorem languages_deal_sublist :
    ((deal languages remaining).map Share.language).Sublist languages := by
  induction languages generalizing remaining with
  | nil =>
      exact List.Sublist.refl []
  | cons language rest inductionHypothesis =>
      rw [deal]
      split
      · exact inductionHypothesis.cons_cons language
      · exact inductionHypothesis.cons language

/-- How many of the shares hold a file. -/
def holders (file : Path) (shares : List Share) : Nat :=
  shares.countP fun share => decide (file ∈ share.files)

theorem holders_deal_of_notMem (missing : file ∉ remaining) :
    holders file (deal languages remaining) = 0 := by
  rw [holders, List.countP_eq_zero]
  intro share dealt held
  exact missing ((of_mem_deal dealt).2.1.subset (of_decide_eq_true held))

/-- A file is dealt once, to the first language that is still present and accepts it.  Its own
language is present as long as the file is left. -/
theorem holders_deal_eq_one
    (member : file ∈ remaining) (owned : ∃ language ∈ languages, language.owns file = true) :
    holders file (deal languages remaining) = 1 := by
  induction languages generalizing remaining with
  | nil =>
      obtain ⟨language, inNone, -⟩ := owned
      cases inNone
  | cons language rest inductionHypothesis =>
      have ownerBehind (foreign : language.owns file ≠ true) :
          ∃ other ∈ rest, other.owns file = true := by
        obtain ⟨owner, listed, owns⟩ := owned
        rcases List.mem_cons.1 listed with rfl | inRest
        · exact absurd owns foreign
        · exact ⟨owner, inRest, owns⟩
      rw [deal]
      split
      · rw [holders, List.countP_cons, ← holders]
        by_cases accepted : language.accepts file = true
        · have taken : file ∉ remaining.filter fun file => !language.accepts file := by
            simp [List.mem_filter, accepted]
          rw [holders_deal_of_notMem taken]
          simp [member, accepted]
        · have left : file ∈ remaining.filter fun file => !language.accepts file :=
            List.mem_filter.2 ⟨member, by simpa using accepted⟩
          have foreign : language.owns file ≠ true :=
            fun owns => accepted (Language.accepts_of_owns owns)
          rw [inductionHypothesis left (ownerBehind foreign)]
          simp [accepted]
      · next absent =>
          have foreign : language.owns file ≠ true :=
            fun owns => absent (Language.isPresent_of_mem member owns)
          exact inductionHypothesis member (ownerBehind foreign)

end Share

namespace SecondaryPolicy

variable {policy : SecondaryPolicy} {files : List Path} {file : Path} {share : Share}

/-- Whether a policy has a file compiled: all files of the secondary languages, or those that the
compiler of the foremost language accepts. -/
def covers (policy : SecondaryPolicy) (files : List Path) (file : Path) : Bool :=
  match policy with
  | .all => Language.byPriority.any fun language => language.owns file
  | .firstMatch => (Language.foremost? files).any fun language => language.accepts file

theorem covers_of_fileName? {left right : Path} (policy : SecondaryPolicy) (files : List Path)
    (same : left.fileName? = right.fileName?) :
    policy.covers files left = policy.covers files right := by
  cases policy with
  | firstMatch =>
      simp only [covers, Language.accepts_of_fileName? same]
  | all =>
      simp only [covers, Language.owns_of_fileName? same]

theorem of_mem_shares (dealt : share ∈ policy.shares files) :
    share.files.Sublist files ∧
      ∀ file ∈ share.files, share.language.accepts file = true ∧ policy.covers files file = true := by
  obtain ⟨listed, part, accepted⟩ := Share.of_mem_deal dealt
  refine ⟨part, fun file member => ⟨accepted file member, ?_⟩⟩
  cases policy with
  | firstMatch =>
      rw [languages, Option.mem_toList] at listed
      simp [covers, listed, accepted file member]
  | all =>
      rw [covers, List.any_eq_true]
      rcases Language.owns_of_accepts (accepted file member) with owned | java
      · exact ⟨share.language, Language.mem_byPriority share.language, owned⟩
      · exact ⟨.java, Language.mem_byPriority .java, java⟩

theorem holders_shares_eq_one (member : file ∈ files) (covered : policy.covers files file = true) :
    Share.holders file (policy.shares files) = 1 := by
  cases policy with
  | firstMatch =>
      rw [covers, Option.any_eq_true] at covered
      obtain ⟨language, foremost, accepted⟩ := covered
      have present : language.isPresent files = true :=
        List.find?_some (p := fun other : Language => other.isPresent files) foremost
      simp [shares, languages, foremost, Share.deal, present, Share.holders, member, accepted]
  | all =>
      rw [covers, List.any_eq_true] at covered
      obtain ⟨language, listed, owned⟩ := covered
      refine Share.holders_deal_eq_one member ⟨language, ?_, owned⟩
      exact List.mem_filter.2 ⟨listed, Language.isPresent_of_mem member owned⟩

theorem languages_shares_sublist (policy : SecondaryPolicy) (files : List Path) :
    ((policy.shares files).map Share.language).Sublist Language.byPriority := by
  apply Share.languages_deal_sublist.trans
  cases policy with
  | firstMatch =>
      rw [languages]
      cases found : Language.foremost? files with
      | none =>
          exact List.nil_sublist _
      | some language =>
          exact List.singleton_sublist.2 (Language.mem_byPriority language)
  | all =>
      exact List.filter_sublist

end SecondaryPolicy

/-- Where no file is written in a secondary language there is nothing to share. -/
theorem shares_of_unowned
    {files : List Path} (policy : SecondaryPolicy)
    (unowned : ∀ file ∈ files, ∀ language : Language, language.owns file = false) :
    policy.shares files = [] := by
  have absent : ∀ language : Language, language.isPresent files = false := by
    intro language
    rw [Language.isPresent, List.any_eq_false]
    intro file member owned
    rw [unowned file member language] at owned
    cases owned
  have noLanguages : policy.languages files = [] := by
    cases policy with
    | firstMatch =>
        simp [SecondaryPolicy.languages, Language.foremost?, absent]
    | all =>
        simp [SecondaryPolicy.languages, Language.present, absent]
  rw [SecondaryPolicy.shares, noLanguages, Share.deal]

end ClojureBuild
