import ClojureBuild.Proofs.Text.Fields
import ClojureBuild.Text.Encoding

/-!
# Writing texts in bytes and reading them back

Bytes fall into pieces without loss, and the pieces of a text in UTF-8 are its letters.  So bytes are
read as a text exactly when they are its bytes.
-/

namespace ClojureBuild.Text

variable {letter : Char} {text left right : String}

/-! ## The bytes of one letter -/

theorem toNat_ofNat_of_isValidChar {number : Nat} (valid : number.isValidChar) :
    (Char.ofNat number).toNat = number := by
  rw [Char.ofNat, dif_pos valid]
  rfl

theorem toNat_ofNat_of_lt {number : Nat} (isByte : number < 0x100) :
    (Char.ofNat number).toNat = number :=
  toNat_ofNat_of_isValidChar (Or.inl (by omega))

theorem toNat_letter (letter : Char) :
    letter.toNat < 0xD800 ∨ 0xDFFF < letter.toNat ∧ letter.toNat < 0x110000 :=
  letter.valid

theorem ofByte_eq {written meant : Nat} (same : written = meant) (isByte : meant < 0x100) :
    ofByte (UInt8.ofNat written) = Char.ofNat meant := by
  rw [same, ofByte, UInt8.toNat_ofNat_of_lt' isByte]

/-- How a letter is spelled, by the size of its number. -/
theorem encodeLetter_cases (letter : Char) :
    (letter.toNat < 0x80 ∧ encodeLetter letter = [letter]) ∨
      (0x80 ≤ letter.toNat ∧ letter.toNat < 0x800 ∧
        encodeLetter letter = [Char.ofNat (0xC0 + letter.toNat / 64),
          Char.ofNat (0x80 + letter.toNat % 64)]) ∨
      (0x800 ≤ letter.toNat ∧ letter.toNat < 0x10000 ∧
        encodeLetter letter = [Char.ofNat (0xE0 + letter.toNat / 4096),
          Char.ofNat (0x80 + letter.toNat / 64 % 64), Char.ofNat (0x80 + letter.toNat % 64)]) ∨
      (0x10000 ≤ letter.toNat ∧
        encodeLetter letter = [Char.ofNat (0xF0 + letter.toNat / 262144),
          Char.ofNat (0x80 + letter.toNat / 4096 % 64),
          Char.ofNat (0x80 + letter.toNat / 64 % 64), Char.ofNat (0x80 + letter.toNat % 64)]) := by
  have valid := toNat_letter letter
  have number : letter.val.toNat = letter.toNat := rfl
  rw [encodeLetter, String.utf8EncodeChar, number]
  by_cases one : letter.toNat < 0x80
  · refine .inl ⟨one, ?_⟩
    have itself : Char.ofNat letter.toNat = letter := Char.ofNat_toNat letter
    rw [if_pos (by omega), List.map_singleton, ofByte_eq rfl (by omega), itself]
  by_cases two : letter.toNat < 0x800
  · refine .inr (.inl ⟨by omega, two, ?_⟩)
    rw [if_neg (by omega), if_pos (by omega), List.map_cons, List.map_singleton]
    congr 2
    · exact ofByte_eq (by omega) (by omega)
    · exact ofByte_eq (by omega) (by omega)
  by_cases three : letter.toNat < 0x10000
  · refine .inr (.inr (.inl ⟨by omega, three, ?_⟩))
    rw [if_neg (by omega), if_neg (by omega), if_pos (by omega), List.map_cons, List.map_cons,
      List.map_singleton]
    congr 3
    · exact ofByte_eq (by omega) (by omega)
    · exact ofByte_eq (by omega) (by omega)
    · exact ofByte_eq (by omega) (by omega)
  · refine .inr (.inr (.inr ⟨by omega, ?_⟩))
    rw [if_neg (by omega), if_neg (by omega), if_neg (by omega), List.map_cons, List.map_cons,
      List.map_cons, List.map_singleton]
    congr 4
    · exact ofByte_eq (by omega) (by omega)
    · exact ofByte_eq (by omega) (by omega)
    · exact ofByte_eq (by omega) (by omega)
    · exact ofByte_eq (by omega) (by omega)

theorem encodeLetter_of_ascii (ascii : letter.toNat < 0x80) : encodeLetter letter = [letter] := by
  rcases encodeLetter_cases letter with ⟨-, spelled⟩ | ⟨large, -⟩ | ⟨large, -⟩ | ⟨large, -⟩
  · exact spelled
  · omega
  · omega
  · omega

/-- The bytes of letters beyond ASCII have numbers beyond ASCII. -/
theorem eq_of_mem_encodeLetter {byte : Char} (ascii : byte.toNat < 0x80)
    (member : byte ∈ encodeLetter letter) : byte = letter := by
  have valid := toNat_letter letter
  rcases encodeLetter_cases letter with ⟨-, spelled⟩ | ⟨-, small, spelled⟩ |
    ⟨-, small, spelled⟩ | ⟨-, spelled⟩
  · rw [spelled] at member
    exact List.mem_singleton.1 member
  all_goals
    rw [spelled] at member
    simp only [List.mem_cons, List.not_mem_nil, or_false] at member
    exfalso
  · rcases member with rfl | rfl
    all_goals
      rw [toNat_ofNat_of_lt (by omega)] at ascii
      omega
  · rcases member with rfl | rfl | rfl
    all_goals
      rw [toNat_ofNat_of_lt (by omega)] at ascii
      omega
  · rcases member with rfl | rfl | rfl | rfl
    all_goals
      rw [toNat_ofNat_of_lt (by omega)] at ascii
      omega

/-! ## The piece at the front -/

theorem within_isPrefix (bounds : List (Nat × Nat)) (rest : List Char) :
    within bounds rest <+: rest := by
  induction bounds generalizing rest with
  | nil =>
      exact List.nil_prefix
  | cons bound bounds inductionHypothesis =>
      cases rest with
      | nil =>
          exact List.nil_prefix
      | cons byte rest =>
          rw [within]
          split
          · exact (List.prefix_cons_inj byte).2 (inductionHypothesis rest)
          · exact List.nil_prefix

theorem within_cons_of_le {least greatest : Nat} {bounds : List (Nat × Nat)} {byte : Char}
    {rest : List Char} (atLeast : least ≤ byte.toNat) (atMost : byte.toNat ≤ greatest) :
    within ((least, greatest) :: bounds) (byte :: rest) = byte :: within bounds rest := by
  rw [within, if_pos ⟨atLeast, atMost⟩]

/-- Bytes that lie within all the bounds. -/
theorem exists_of_length_within {least greatest : Nat} {bounds : List (Nat × Nat)}
    {rest : List Char}
    (all : (within ((least, greatest) :: bounds) rest).length = bounds.length + 1) :
    ∃ byte others, within ((least, greatest) :: bounds) rest = byte :: within bounds others ∧
      (within bounds others).length = bounds.length ∧
        least ≤ byte.toNat ∧ byte.toNat ≤ greatest := by
  cases rest with
  | nil =>
      cases all
  | cons byte others =>
      rw [within] at all ⊢
      split at all
      · next bounded =>
          rw [if_pos bounded]
          exact ⟨byte, others, rfl, Nat.succ.inj all, bounded⟩
      · cases all

theorem exists_of_length_within_follower {bounds : List (Nat × Nat)} {rest : List Char}
    (all : (within (follower :: bounds) rest).length = bounds.length + 1) :
    ∃ byte others, within (follower :: bounds) rest = byte :: within bounds others ∧
      (within bounds others).length = bounds.length ∧ 0x80 ≤ byte.toNat ∧ byte.toNat ≤ 0xBF :=
  exists_of_length_within all

theorem le_of_ite_le {condition : Prop} [Decidable condition] {special usual number : Nat}
    (bounded : (if condition then special else usual) ≤ number) (atLeast : usual ≤ special) :
    usual ≤ number ∧ (condition → special ≤ number) := by
  split at bounded
  · exact ⟨Nat.le_trans atLeast bounded, fun _ => bounded⟩
  · next otherwise =>
      exact ⟨bounded, fun holds => absurd holds otherwise⟩

theorem le_of_le_ite {condition : Prop} [Decidable condition] {special usual number : Nat}
    (bounded : number ≤ if condition then special else usual) (atMost : special ≤ usual) :
    number ≤ usual ∧ (condition → number ≤ special) := by
  split at bounded
  · exact ⟨Nat.le_trans bounded atMost, fun _ => bounded⟩
  · next otherwise =>
      exact ⟨bounded, fun holds => absurd holds otherwise⟩

theorem eq_nil_of_within_nil (rest : List Char) : within [] rest = [] := by
  rw [within]
  intro _ _ _ _ _ impossible
  cases impossible

theorem ofNat_eq_of_eq (letter : Char) {number : Nat} (same : number = letter.toNat) :
    Char.ofNat number = letter := by
  rw [same, Char.ofNat_toNat]

section Assembled

variable {first second third fourth : Char} {rest : List Char}

theorem assemble_two :
    assemble first [second] = Char.ofNat (first.toNat % 32 * 64 + second.toNat % 64) :=
  rfl

theorem assemble_three :
    assemble first [second, third] =
      Char.ofNat ((first.toNat % 16 * 64 + second.toNat % 64) * 64 + third.toNat % 64) := by
  simp [assemble]

theorem assemble_four :
    assemble first [second, third, fourth] =
      Char.ofNat (((first.toNat % 8 * 64 + second.toNat % 64) * 64 + third.toNat % 64) * 64 +
        fourth.toNat % 64) := by
  simp [assemble]

theorem frontPiece_one (small : first.toNat < 0x80) : frontPiece first rest = .letter first := by
  have followers : followers? first.toNat = some [] := by
    rw [followers?, if_pos small]
  simp only [frontPiece, followers, eq_nil_of_within_nil]
  exact (if_pos rfl).trans (congrArg Piece.letter (Char.ofNat_toNat first))

theorem frontPiece_two (large : 0xC2 ≤ first.toNat) (small : first.toNat < 0xE0)
    (secondLarge : 0x80 ≤ second.toNat) (secondSmall : second.toNat ≤ 0xBF) :
    frontPiece first (second :: rest) = .letter (assemble first [second]) := by
  have followers : followers? first.toNat = some [follower] := by
    rw [followers?, if_neg (by omega), if_neg (by omega), if_pos small]
  have taken : within [follower] (second :: rest) = [second] := by
    rw [follower, within_cons_of_le secondLarge secondSmall, eq_nil_of_within_nil]
  simp only [frontPiece, followers, taken]
  exact if_pos rfl

theorem frontPiece_three (large : 0xE0 ≤ first.toNat) (small : first.toNat < 0xF0)
    (secondLarge : (if first.toNat = 0xE0 then 0xA0 else 0x80) ≤ second.toNat)
    (secondSmall : second.toNat ≤ if first.toNat = 0xED then 0x9F else 0xBF)
    (thirdLarge : 0x80 ≤ third.toNat) (thirdSmall : third.toNat ≤ 0xBF) :
    frontPiece first (second :: third :: rest) = .letter (assemble first [second, third]) := by
  have followers : followers? first.toNat =
      some [(if first.toNat = 0xE0 then 0xA0 else 0x80,
        if first.toNat = 0xED then 0x9F else 0xBF), follower] := by
    rw [followers?, if_neg (by omega), if_neg (by omega), if_neg (by omega), if_pos small]
  have taken : within [(if first.toNat = 0xE0 then 0xA0 else 0x80,
      if first.toNat = 0xED then 0x9F else 0xBF), follower] (second :: third :: rest) =
        [second, third] := by
    rw [within_cons_of_le secondLarge secondSmall, follower,
      within_cons_of_le thirdLarge thirdSmall, eq_nil_of_within_nil]
  simp only [frontPiece, followers, taken]
  exact if_pos rfl

theorem frontPiece_four (large : 0xF0 ≤ first.toNat) (small : first.toNat < 0xF5)
    (secondLarge : (if first.toNat = 0xF0 then 0x90 else 0x80) ≤ second.toNat)
    (secondSmall : second.toNat ≤ if first.toNat = 0xF4 then 0x8F else 0xBF)
    (thirdLarge : 0x80 ≤ third.toNat) (thirdSmall : third.toNat ≤ 0xBF)
    (fourthLarge : 0x80 ≤ fourth.toNat) (fourthSmall : fourth.toNat ≤ 0xBF) :
    frontPiece first (second :: third :: fourth :: rest) =
      .letter (assemble first [second, third, fourth]) := by
  have followers : followers? first.toNat =
      some [(if first.toNat = 0xF0 then 0x90 else 0x80,
        if first.toNat = 0xF4 then 0x8F else 0xBF), follower, follower] := by
    rw [followers?, if_neg (by omega), if_neg (by omega), if_neg (by omega), if_neg (by omega),
      if_pos small]
  have taken : within [(if first.toNat = 0xF0 then 0x90 else 0x80,
      if first.toNat = 0xF4 then 0x8F else 0xBF), follower, follower]
        (second :: third :: fourth :: rest) = [second, third, fourth] := by
    rw [within_cons_of_le secondLarge secondSmall, follower,
      within_cons_of_le thirdLarge thirdSmall, within_cons_of_le fourthLarge fourthSmall,
      eq_nil_of_within_nil]
  simp only [frontPiece, followers, taken]
  exact if_pos rfl

end Assembled

/-- A letter stands at the front of what begins with its bytes. -/
theorem frontPiece_of_encodeLetter {first : Char} {later : List Char}
    (spelled : encodeLetter letter = first :: later) (rest : List Char) :
    frontPiece first (later ++ rest) = .letter letter := by
  have valid := toNat_letter letter
  rcases encodeLetter_cases letter with ⟨small, bytes⟩ | ⟨large, small, bytes⟩ |
    ⟨large, small, bytes⟩ | ⟨large, bytes⟩
  all_goals
    rw [spelled] at bytes
    obtain ⟨rfl, rfl⟩ := List.cons.inj bytes
  · exact frontPiece_one small
  · have head : (Char.ofNat (0xC0 + letter.toNat / 64)).toNat = 0xC0 + letter.toNat / 64 :=
      toNat_ofNat_of_lt (by omega)
    have second : (Char.ofNat (0x80 + letter.toNat % 64)).toNat = 0x80 + letter.toNat % 64 :=
      toNat_ofNat_of_lt (by omega)
    rw [List.cons_append, frontPiece_two (by omega) (by omega) (by omega) (by omega),
      assemble_two, head, second, ofNat_eq_of_eq letter (by omega)]
  · have head : (Char.ofNat (0xE0 + letter.toNat / 4096)).toNat = 0xE0 + letter.toNat / 4096 :=
      toNat_ofNat_of_lt (by omega)
    have second : (Char.ofNat (0x80 + letter.toNat / 64 % 64)).toNat =
        0x80 + letter.toNat / 64 % 64 :=
      toNat_ofNat_of_lt (by omega)
    have third : (Char.ofNat (0x80 + letter.toNat % 64)).toNat = 0x80 + letter.toNat % 64 :=
      toNat_ofNat_of_lt (by omega)
    rw [List.cons_append, List.cons_append, frontPiece_three (by omega) (by omega)
        (by rw [head, second]; split <;> omega) (by rw [head, second]; split <;> omega)
        (by omega) (by omega),
      assemble_three, head, second, third, ofNat_eq_of_eq letter (by omega)]
  · have head : (Char.ofNat (0xF0 + letter.toNat / 262144)).toNat =
        0xF0 + letter.toNat / 262144 :=
      toNat_ofNat_of_lt (by omega)
    have second : (Char.ofNat (0x80 + letter.toNat / 4096 % 64)).toNat =
        0x80 + letter.toNat / 4096 % 64 :=
      toNat_ofNat_of_lt (by omega)
    have third : (Char.ofNat (0x80 + letter.toNat / 64 % 64)).toNat =
        0x80 + letter.toNat / 64 % 64 :=
      toNat_ofNat_of_lt (by omega)
    have fourth : (Char.ofNat (0x80 + letter.toNat % 64)).toNat = 0x80 + letter.toNat % 64 :=
      toNat_ofNat_of_lt (by omega)
    rw [List.cons_append, List.cons_append, List.cons_append,
      frontPiece_four (by omega) (by omega) (by rw [head, second]; split <;> omega)
        (by rw [head, second]; split <;> omega) (by omega) (by omega) (by omega) (by omega),
      assemble_four, head, second, third, fourth, ofNat_eq_of_eq letter (by omega)]

section Spelled

variable {first second third fourth : Char} {number : Nat}

/-- The bytes of the letter with a number that takes two bytes. -/
theorem encodeLetter_ofNat_two (large : 0x80 ≤ number) (small : number < 0x800)
    (isFirst : 0xC0 + number / 64 = first.toNat) (isSecond : 0x80 + number % 64 = second.toNat) :
    encodeLetter (Char.ofNat number) = [first, second] := by
  have isNumber : (Char.ofNat number).toNat = number :=
    toNat_ofNat_of_isValidChar (Or.inl (by omega))
  rcases encodeLetter_cases (Char.ofNat number) with ⟨tooSmall, -⟩ | ⟨-, -, spelled⟩ |
    ⟨tooLarge, -⟩ | ⟨tooLarge, -⟩
  · omega
  · rw [spelled, isNumber, ofNat_eq_of_eq first isFirst, ofNat_eq_of_eq second isSecond]
  · omega
  · omega

/-- The bytes of the letter with a number that takes three bytes. -/
theorem encodeLetter_ofNat_three (large : 0x800 ≤ number) (small : number < 0x10000)
    (noSurrogate : number < 0xD800 ∨ 0xDFFF < number)
    (isFirst : 0xE0 + number / 4096 = first.toNat)
    (isSecond : 0x80 + number / 64 % 64 = second.toNat)
    (isThird : 0x80 + number % 64 = third.toNat) :
    encodeLetter (Char.ofNat number) = [first, second, third] := by
  have isNumber : (Char.ofNat number).toNat = number := by
    apply toNat_ofNat_of_isValidChar
    rw [Nat.isValidChar]
    omega
  rcases encodeLetter_cases (Char.ofNat number) with ⟨tooSmall, -⟩ | ⟨-, tooSmall, -⟩ |
    ⟨-, -, spelled⟩ | ⟨tooLarge, -⟩
  · omega
  · omega
  · rw [spelled, isNumber, ofNat_eq_of_eq first isFirst, ofNat_eq_of_eq second isSecond,
      ofNat_eq_of_eq third isThird]
  · omega

/-- The bytes of the letter with a number that takes four bytes. -/
theorem encodeLetter_ofNat_four (large : 0x10000 ≤ number) (small : number < 0x110000)
    (isFirst : 0xF0 + number / 262144 = first.toNat)
    (isSecond : 0x80 + number / 4096 % 64 = second.toNat)
    (isThird : 0x80 + number / 64 % 64 = third.toNat)
    (isFourth : 0x80 + number % 64 = fourth.toNat) :
    encodeLetter (Char.ofNat number) = [first, second, third, fourth] := by
  have isNumber : (Char.ofNat number).toNat = number := by
    apply toNat_ofNat_of_isValidChar
    rw [Nat.isValidChar]
    omega
  rcases encodeLetter_cases (Char.ofNat number) with ⟨tooSmall, -⟩ | ⟨-, tooSmall, -⟩ |
    ⟨-, tooSmall, -⟩ | ⟨-, spelled⟩
  · omega
  · omega
  · omega
  · rw [spelled, isNumber, ofNat_eq_of_eq first isFirst, ofNat_eq_of_eq second isSecond,
      ofNat_eq_of_eq third isThird, ofNat_eq_of_eq fourth isFourth]

end Spelled

/-- The bytes that are put together are those of the letter they give. -/
theorem encodeLetter_assemble {first : Char} {bounds : List (Nat × Nat)} {rest : List Char}
    (begins : followers? first.toNat = some bounds)
    (all : (within bounds rest).length = bounds.length) :
    encodeLetter (assemble first (within bounds rest)) = first :: within bounds rest := by
  rw [followers?] at begins
  split at begins
  · next small =>
      cases begins
      rw [eq_nil_of_within_nil]
      exact (congrArg encodeLetter (Char.ofNat_toNat first)).trans (encodeLetter_of_ascii small)
  split at begins
  · cases begins
  split at begins
  · cases begins
    obtain ⟨second, others, taken, -, secondLarge, secondSmall⟩ :=
      exists_of_length_within_follower all
    rw [taken, eq_nil_of_within_nil, assemble_two]
    exact encodeLetter_ofNat_two (by omega) (by omega) (by omega) (by omega)
  split at begins
  · cases begins
    obtain ⟨second, others, taken, allOthers, secondLarge, secondSmall⟩ :=
      exists_of_length_within all
    obtain ⟨third, final, takenThen, -, thirdLarge, thirdSmall⟩ :=
      exists_of_length_within_follower allOthers
    replace secondLarge := le_of_ite_le secondLarge (by omega)
    replace secondSmall := le_of_le_ite secondSmall (by omega)
    rw [taken, takenThen, eq_nil_of_within_nil, assemble_three]
    exact encodeLetter_ofNat_three (by omega) (by omega) (by omega) (by omega) (by omega)
      (by omega)
  split at begins
  · cases begins
    obtain ⟨second, others, taken, allOthers, secondLarge, secondSmall⟩ :=
      exists_of_length_within all
    obtain ⟨third, more, takenThen, allMore, thirdLarge, thirdSmall⟩ :=
      exists_of_length_within_follower allOthers
    obtain ⟨fourth, final, takenLast, -, fourthLarge, fourthSmall⟩ :=
      exists_of_length_within_follower allMore
    replace secondLarge := le_of_ite_le secondLarge (by omega)
    replace secondSmall := le_of_le_ite secondSmall (by omega)
    rw [taken, takenThen, takenLast, eq_nil_of_within_nil, assemble_four]
    exact encodeLetter_ofNat_four (by omega) (by omega) (by omega) (by omega) (by omega)
      (by omega)
  · cases begins

/-- The piece at the front has the first bytes. -/
theorem exists_bytes_frontPiece (first : Char) (rest : List Char) :
    ∃ later others, (frontPiece first rest).bytes = first :: later ∧ rest = later ++ others := by
  rw [frontPiece]
  cases begins : followers? first.toNat with
  | none =>
      exact ⟨[], rest, rfl, rfl⟩
  | some bounds =>
      obtain ⟨others, split⟩ := within_isPrefix bounds rest
      refine ⟨within bounds rest, others, ?_, split.symm⟩
      dsimp only
      split
      · next all =>
          exact encodeLetter_assemble begins all
      · rfl

/-! ## All pieces -/

theorem piecesAfter_eq (skipped : Nat) (letters : List Char) :
    piecesAfter skipped letters = piecesAfter 0 (letters.drop skipped) := by
  induction letters generalizing skipped with
  | nil =>
      rw [List.drop_nil]
      cases skipped <;> rfl
  | cons first rest inductionHypothesis =>
      cases skipped with
      | zero =>
          rfl
      | succ skipped =>
          exact inductionHypothesis skipped

/-- After the piece at the front come the pieces of the bytes after it. -/
theorem piecesAfter_cons {first : Char} {later others : List Char}
    (front : (frontPiece first (later ++ others)).bytes = first :: later) :
    piecesAfter 0 (first :: (later ++ others)) =
      frontPiece first (later ++ others) :: piecesAfter 0 others := by
  rw [piecesAfter]
  simp only [front]
  rw [piecesAfter_eq, List.length_cons, Nat.add_sub_cancel, List.drop_left]

/-- No byte is lost. -/
theorem flatMap_bytes_piecesAfter (letters : List Char) :
    (piecesAfter 0 letters).flatMap Piece.bytes = letters := by
  induction length : letters.length using Nat.strongRecOn generalizing letters with
  | ind size inductionHypothesis =>
      cases letters with
      | nil =>
          rfl
      | cons first rest =>
          obtain ⟨later, others, front, rfl⟩ := exists_bytes_frontPiece first rest
          have shorter : others.length < size := by
            rw [← length, List.length_cons, List.length_append]
            omega
          rw [piecesAfter_cons front, List.flatMap_cons, front,
            inductionHypothesis _ shorter others rfl, List.cons_append]

theorem piecesAfter_flatMap_encodeLetter (letters : List Char) :
    piecesAfter 0 (letters.flatMap encodeLetter) = letters.map Piece.letter := by
  induction letters with
  | nil =>
      rfl
  | cons letter rest inductionHypothesis =>
      cases spelled : encodeLetter letter with
      | nil =>
          have nonempty : String.utf8EncodeChar letter ≠ [] := String.utf8EncodeChar_ne_nil
          exact absurd (List.map_eq_nil_iff.1 spelled) nonempty
      | cons first later =>
          have front := frontPiece_of_encodeLetter spelled (rest.flatMap encodeLetter)
          have bytes : (frontPiece first (later ++ rest.flatMap encodeLetter)).bytes =
              first :: later := by
            rw [front, Piece.bytes, spelled]
          rw [List.flatMap_cons, spelled, List.cons_append, piecesAfter_cons bytes, front,
            inductionHypothesis, List.map_cons]

/-! ## Texts -/

@[simp]
theorem toList_encode (text : String) :
    (encode text).toList = text.toList.flatMap encodeLetter := by
  rw [encode, String.toList_ofList]

theorem pieces_encode (text : String) : pieces (encode text) = text.toList.map Piece.letter := by
  rw [pieces, toList_encode, piecesAfter_flatMap_encodeLetter]

theorem flatMap_bytes_pieces (text : ByteText) : (pieces text).flatMap Piece.bytes = text.toList :=
  flatMap_bytes_piecesAfter text.toList

theorem mapM_letter?_eq_some_iff {found : List Piece} {letters : List Char} :
    found.mapM Piece.letter? = some letters ↔ found = letters.map Piece.letter := by
  induction found generalizing letters with
  | nil =>
      cases letters <;> simp
  | cons piece rest inductionHypothesis =>
      cases piece with
      | broken bytes =>
          cases letters <;> simp [List.mapM_cons, Piece.letter?]
      | letter spelled =>
          rw [List.mapM_cons]
          simp only [Piece.letter?, Option.pure_def, Option.bind_eq_bind, Option.bind_some,
            Option.bind_eq_some_iff, Option.some.injEq, inductionHypothesis]
          constructor
          · rintro ⟨others, rfl, rfl⟩
            rfl
          · intro same
            cases letters with
            | nil =>
                cases same
            | cons letter others =>
                obtain ⟨sameLetter, sameOthers⟩ := List.cons.inj same
                cases sameLetter
                exact ⟨others, sameOthers, rfl⟩

/-- Bytes are read as a text exactly when they are its bytes. -/
theorem decode?_eq_some_iff {bytes : ByteText} :
    decode? bytes = some text ↔ bytes = encode text := by
  rw [decode?, Option.map_eq_some_iff]
  constructor
  · rintro ⟨letters, all, rfl⟩
    have whole := flatMap_bytes_pieces bytes
    rw [mapM_letter?_eq_some_iff.1 all, List.flatMap_map] at whole
    apply String.toList_injective
    rw [toList_encode, String.toList_ofList, ← whole]
    rfl
  · rintro rfl
    exact ⟨text.toList, mapM_letter?_eq_some_iff.2 (pieces_encode text), String.ofList_toList⟩

@[simp]
theorem decode?_encode (text : String) : decode? (encode text) = some text :=
  decode?_eq_some_iff.2 rfl

theorem encode_injective : Function.Injective encode := by
  intro left right same
  have read := decode?_encode left
  rw [same, decode?_encode] at read
  exact (Option.some.inj read).symm

@[simp]
theorem decodeLossy_encode (text : String) : decodeLossy (encode text) = text := by
  rw [decodeLossy, pieces_encode, List.map_map]
  have itself : (fun piece => (Piece.letter? piece).getD '\uFFFD') ∘ Piece.letter = id := rfl
  rw [itself, List.map_id, String.ofList_toList]

@[simp]
theorem encode_append (left right : String) :
    encode (left ++ right) = encode left ++ encode right := by
  apply String.toList_injective
  simp

@[simp]
theorem encode_empty : encode "" = "" :=
  rfl

theorem encode_eq_empty_iff : encode text = "" ↔ text = "" :=
  encode_injective.eq_iff' encode_empty

/-- Letters of ASCII are their own bytes, and they are in no other letter. -/
theorem mem_encode_iff (ascii : letter.toNat < 0x80) :
    letter ∈ (encode text).toList ↔ letter ∈ text.toList := by
  rw [toList_encode, List.mem_flatMap]
  constructor
  · rintro ⟨spelled, member, inBytes⟩
    rw [eq_of_mem_encodeLetter ascii inBytes]
    exact member
  · intro member
    refine ⟨letter, member, ?_⟩
    rw [encodeLetter_of_ascii ascii]
    exact List.mem_singleton_self letter

theorem encode_joinWith (separator : String) (texts : List String) :
    encode (joinWith separator texts) = joinWith (encode separator) (texts.map encode) := by
  induction texts with
  | nil =>
      rfl
  | cons text rest inductionHypothesis =>
      cases rest with
      | nil =>
          rfl
      | cons next others =>
          rw [joinWith_cons _ _ (List.cons_ne_nil next others), encode_append, encode_append,
            inductionHypothesis]
          rfl

end ClojureBuild.Text
