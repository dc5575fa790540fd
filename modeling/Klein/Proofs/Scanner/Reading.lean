import Klein.Proofs.Scanner.Spelling

namespace Klein

open Text

/-- A word: a letter, and then letters, digits and underscores, not too many of them. -/
structure IsWord (text : String) : Prop where
  initial : ∃ c ∈ text.toList.head?, c.isAlpha = true
  chars : ∀ c ∈ text.toList, isWordChar c = true
  length_le : text.length ≤ maxWordLength

/-- The lexemes of one character that is neither a letter nor a digit. -/
def signs : List String :=
  ["(", ")", ",", ":", "+", "-", "*", "/", "<", "="]

/-- What the scanner takes as one token. -/
def IsLexeme (text : String) : Prop :=
  IsWord text ∨ IsNumeral text ∨ text ∈ signs

/-- A lexeme ends before the rest of a text: behind a word or a numeral there is a delimiter or
    nothing, and behind an opening parenthesis there is no star. -/
structure Bounded (text : String) (rest : List Char) : Prop where
  delimited : IsWord text ∨ IsNumeral text → ∀ c ∈ rest.head?, isDelimiter c = true
  uncommented : text = "(" → ∀ c ∈ rest.head?, c ≠ '*'

-- the first character is looked at directly: it is not searched for among all characters
instance (text : String) : Decidable (IsWord text) :=
  decidable_of_iff
    (text.toList.head?.any Char.isAlpha = true ∧ text.toList.all isWordChar = true ∧
      text.length ≤ maxWordLength) (by
    rw [Option.any_eq_true, List.all_eq_true]
    exact ⟨fun h => ⟨h.1, h.2.1, h.2.2⟩, fun h => ⟨h.initial, h.chars, h.length_le⟩⟩)

instance (text : String) : Decidable (IsNumeral text) :=
  decidable_of_iff
    (text.toList.all Char.isDigit = true ∧
      (text = "0" ∨ text.toList.head?.any (· ≠ '0') = true) ∧ numeralValue text ≤ maxInteger) (by
    simp only [Option.any_eq_true, List.all_eq_true, decide_eq_true_eq]
    exact ⟨fun h => ⟨h.1, h.2.1, h.2.2⟩, fun h => ⟨h.digits, h.canonical, h.value_le⟩⟩)

instance (text : String) : Decidable (IsLexeme text) :=
  inferInstanceAs (Decidable (_ ∨ _))

instance (text : String) (rest : List Char) : Decidable (Bounded text rest) :=
  decidable_of_iff
    ((IsWord text ∨ IsNumeral text → rest.head?.all isDelimiter = true) ∧
      (text = "(" → rest.head?.all (· ≠ '*') = true)) (by
    simp only [Option.all_eq_true, decide_eq_true_eq]
    exact ⟨fun h => ⟨h.1, h.2⟩, fun h => ⟨h.delimited, h.uncommented⟩⟩)

theorem IsName.isWord {text : String} (hname : IsName text) : IsWord text :=
  ⟨hname.initial, hname.chars, hname.length_le⟩

theorem isWord_of_mem_reservedWords {text : String} (hreserved : text ∈ reservedWords) :
    IsWord text := by
  have hchecked : ∀ text ∈ reservedWords, IsWord text := by decide +kernel
  exact hchecked text hreserved

/-- A sign is no word and no numeral. -/
theorem not_word_or_numeral_of_mem_signs {text : String} (hsign : text ∈ signs) :
    ¬(IsWord text ∨ IsNumeral text) := by
  have hchecked : ∀ text ∈ signs, ¬(IsWord text ∨ IsNumeral text) := by decide +kernel
  exact hchecked text hsign

/-- Lexemes are the spellings of the kinds of token. -/
theorem isLexeme_iff_spells {text : String} : IsLexeme text ↔ ∃ kind : Kind, kind.Spells text := by
  have hfixed : ∀ word ∈ reservedWords ++ signs,
      word = "true" ∨ word = "false" ∨ ∃ kind ∈ Kind.all, kind.spelling? = some word := by
    decide
  have hspelled : ∀ word ∈ reservedWords ++ signs, ∃ kind : Kind, kind.Spells word := by
    intro word hword
    rcases hfixed word hword with htrue | hfalse | ⟨kind, -, hkind⟩
    · exact ⟨.boolean, .inl htrue⟩
    · exact ⟨.boolean, .inr hfalse⟩
    · exact ⟨kind, Kind.spells_of_spelling hkind⟩
  constructor
  · rintro (hword | hnumeral | hsign)
    · by_cases hreserved : text ∈ reservedWords
      · exact hspelled text (List.mem_append_left _ hreserved)
      · exact ⟨.identifier, hword.initial, hword.chars, hword.length_le, hreserved⟩
    · exact ⟨.integer, hnumeral⟩
    · exact hspelled text (List.mem_append_right _ hsign)
  · rintro ⟨kind, hspells⟩
    have hlisted : ∀ kind : Kind, ∀ word ∈ kind.spelling?, word ∈ reservedWords ∨ word ∈ signs := by
      intro kind
      cases kind <;> decide
    have hother : ∀ word, word ∈ reservedWords ∨ word ∈ signs → IsLexeme word := by
      rintro word (hreserved | hsign)
      · exact .inl (isWord_of_mem_reservedWords hreserved)
      · exact .inr (.inr hsign)
    cases kind with
    | identifier => exact .inl (IsName.isWord hspells)
    | integer => exact .inr (.inl hspells)
    | boolean => rcases hspells with rfl | rfl <;> exact hother _ (.inl (by decide))
    | _ => exact hother text (hlisted _ text hspells)

theorem not_isWordChar_of_isDelimiter {c : Char} (hdelimiter : isDelimiter c = true) :
    isWordChar c = false := by
  simp only [isDelimiter, isPunctuation, isOperator, isGapChar, Bool.or_eq_true, beq_iff_eq]
    at hdelimiter
  rcases hdelimiter with
    ((((rfl | rfl) | rfl) | rfl) | (((((rfl | rfl) | rfl) | rfl) | rfl) | rfl)) |
      (((rfl | rfl) | rfl) | rfl)
  all_goals rfl

/-- Characters of a class are split off where the rest of a text starts with another one. -/
private theorem span_of_head {inside : Char → Bool} {text rest : List Char}
    (hchars : ∀ c ∈ text, inside c = true) (hrest : ∀ c ∈ rest.head?, inside c = false) :
    (text ++ rest).takeWhile inside = text ∧ (text ++ rest).dropWhile inside = rest := by
  rw [List.takeWhile_append_of_pos hchars, List.dropWhile_append_of_pos hchars]
  cases rest with
  | nil => simp
  | cons c rest => simp [hrest c rfl]

private theorem readWord_of_chars {text rest : List Char}
    (hchars : ∀ c ∈ text, isWordChar c = true)
    (hrest : ∀ c ∈ rest.head?, isDelimiter c = true) :
    readWord (text ++ rest) = ⟨.ofKind (wordKind (String.ofList text)), text, rest⟩ := by
  obtain ⟨htaken, hdropped⟩ := span_of_head hchars
    fun c hc => not_isWordChar_of_isDelimiter (hrest c hc)
  cases rest with
  | nil => simp only [readWord, htaken, hdropped]
  | cons c rest => simp only [readWord, htaken, hdropped, hrest c rfl, if_true]

private theorem readInteger_of_chars {text rest : List Char}
    (hchars : ∀ c ∈ text, c.isDigit = true) (hrest : ∀ c ∈ rest.head?, isDelimiter c = true) :
    readInteger (text ++ rest) = ⟨.ofKind (integerKind (String.ofList text)), text, rest⟩ := by
  have hdigit : ∀ c ∈ rest.head?, c.isDigit = false := by
    intro c hc
    have hword := not_isWordChar_of_isDelimiter (hrest c hc)
    simp_all [isWordChar]
  obtain ⟨htaken, hdropped⟩ := span_of_head hchars hdigit
  cases rest with
  | nil => simp only [readInteger, htaken, hdropped]
  | cons c rest => simp only [readInteger, htaken, hdropped, hrest c rfl, if_true]

private theorem readZero_of_head {rest : List Char}
    (hrest : ∀ c ∈ rest.head?, isDelimiter c = true) :
    readZero rest = ⟨.lexeme .integer, ['0'], rest⟩ := by
  cases rest with
  | nil => rfl
  | cons c rest => simp only [readZero, hrest c rfl, if_true]

private theorem readParen_of_head {rest : List Char} (hrest : ∀ c ∈ rest.head?, c ≠ '*') :
    readParen rest = ⟨.lexeme .leftParen, ['('], rest⟩ := by
  fun_cases readParen rest with
  | case1 body => exact absurd rfl (hrest '*' rfl)
  | case2 body => exact absurd rfl (hrest '*' rfl)
  | case3 => rfl

private theorem wordKind_of_name {text : String} (hname : IsName text) :
    wordKind text = .ok .identifier := by
  have hfree := hname.free
  simp only [reservedWords, List.mem_cons, List.not_mem_nil, or_false, not_or] at hfree
  have hkeyword : keywordKind? text = none := by
    simp only [keywordKind?, List.find?_eq_none, List.mem_cons, List.not_mem_nil, or_false]
    rintro kind (rfl | rfl | rfl | rfl | rfl | rfl | rfl | rfl | rfl | rfl) hspelling
    all_goals simp_all [Kind.spelling?]
  rw [wordKind, if_neg (Nat.not_lt.mpr hname.length_le), hkeyword]
  simp [hfree]

/-- A numeral has few digits, because the first of them counts. -/
private theorem length_le_of_numeral {text : String} (hnumeral : IsNumeral text) :
    text.length ≤ maxNumeralDigits := by
  rcases hnumeral.canonical with rfl | ⟨c, hc, hzero⟩
  · exact Nat.le_of_ble_eq_true rfl
  obtain ⟨cs, hcs⟩ : ∃ cs, text.toList = c :: cs := List.head?_eq_some_iff.mp hc
  have hfirst : c.toNat - '0'.toNat ≠ 0 := by
    have hdigit := hnumeral.digits c (by simp [hcs])
    simp only [Char.isDigit, Bool.and_eq_true, decide_eq_true_eq] at hdigit
    have hlow : '0'.toNat ≤ c.toNat := hdigit.1
    have hne : c.toNat ≠ '0'.toNat := fun heq => hzero (Char.toNat_inj.mp heq)
    omega
  -- with `n` digits of which the first is not zero, the value is at least a tenth of `10 ^ n`
  have hpow := Nat.pow_length_le_mul_ofDigits (b := 8)
    (l := (cs.reverse.map fun c => c.toNat - '0'.toNat) ++ [c.toNat - '0'.toNat]) (by simp)
    (by simpa using hfirst)
  have hvalue := hnumeral.value_le
  have hlength : text.length = cs.length + 1 := by
    rw [← String.length_toList, hcs, List.length_cons]
  have hbound : 10 ^ text.length < 10 ^ 11 := by
    simp only [numeralValue, hcs, List.reverse_cons, List.map_append, List.map_cons, List.map_nil,
      maxInteger] at hvalue
    simp only [List.length_append, List.length_map, List.length_reverse, List.length_singleton,
      ← hlength, Nat.reduceAdd] at hpow
    omega
  have hshort : text.length < 11 := (Nat.pow_lt_pow_iff_right (by decide)).mp hbound
  rw [maxNumeralDigits]
  omega

theorem readInteger_of_numeral {text : String} (hnumeral : IsNumeral text) :
    readInteger? text = some (numeralValue text : Int) := by
  have hne : text.toList ≠ [] := by
    intro hnil
    have := hnumeral.canonical
    simp_all
  rw [readInteger_of_digits hne hnumeral.digits, if_pos (length_le_of_numeral hnumeral)]

private theorem integerKind_of_numeral {text : String} (hnumeral : IsNumeral text) :
    integerKind text = .ok .integer := by
  have hvalue := hnumeral.value_le
  rw [integerKind, readInteger_of_numeral hnumeral]
  simp only
  rw [if_neg (by omega)]

private theorem readPiece_of_word {text : String} {kind : Kind} {c : Char} {cs rest : List Char}
    (htext : text.toList = c :: cs) (hword : IsWord text) (hkind : wordKind text = .ok kind)
    (hrest : Bounded text rest) : readPiece c (cs ++ rest) = ⟨.lexeme kind, text.toList, rest⟩ := by
  obtain ⟨d, hd, hinitial⟩ := hword.initial
  obtain rfl : c = d := by simpa [htext] using hd
  have hread := readWord_of_chars hword.chars (hrest.delimited (.inl hword))
  rw [String.ofList_toList, hkind, htext] at hread
  rw [readPiece, if_pos hinitial, ← List.cons_append, hread, htext]
  rfl

private theorem readPiece_of_numeral {text : String} {c : Char} {cs rest : List Char}
    (htext : text.toList = c :: cs) (hnumeral : IsNumeral text) (hrest : Bounded text rest) :
    readPiece c (cs ++ rest) = ⟨.lexeme .integer, text.toList, rest⟩ := by
  have hdigit : c.isDigit = true := hnumeral.digits c (by simp [htext])
  have hdelimited := hrest.delimited (.inr hnumeral)
  have halpha : ¬c.isAlpha = true := by
    delta Char.isAlpha Char.isUpper Char.isLower
    simp only [Char.isDigit, Bool.and_eq_true, Bool.or_eq_true, decide_eq_true_eq,
      UInt32.le_iff_toNat_le] at hdigit ⊢
    have hhigh : c.val.toNat ≤ 57 := hdigit.2
    rintro (⟨hlow, -⟩ | ⟨hlow, -⟩)
    · have hupper : 65 ≤ c.val.toNat := hlow
      omega
    · have hlower : 97 ≤ c.val.toNat := hlow
      omega
  rw [readPiece, if_neg halpha]
  rcases hnumeral.canonical with rfl | ⟨d, hd, hzero⟩
  · obtain ⟨rfl, rfl⟩ : '0' = c ∧ [] = cs := by simpa using htext
    rw [if_pos rfl, List.nil_append, readZero_of_head hdelimited]
    rfl
  · obtain rfl : c = d := by simpa [htext] using hd
    have hread := readInteger_of_chars hnumeral.digits hdelimited
    rw [String.ofList_toList, integerKind_of_numeral hnumeral, htext] at hread
    rw [if_neg hzero, if_pos hdigit, ← List.cons_append, hread, htext]
    rfl

/-- A spelling that ends before the rest of a text is read as its kind. -/
theorem readPiece_of_spells {kind : Kind} {text : String} {c : Char} {cs rest : List Char}
    (hspells : kind.Spells text) (htext : text.toList = c :: cs) (hrest : Bounded text rest) :
    readPiece c (cs ++ rest) = ⟨.lexeme kind, text.toList, rest⟩ := by
  cases kind with
  | identifier =>
    exact readPiece_of_word htext (IsName.isWord hspells) (wordKind_of_name hspells) hrest
  | integer => exact readPiece_of_numeral htext hspells hrest
  | endOfFile => cases hspells
  | boolean =>
    rcases hspells with rfl | rfl
    · exact readPiece_of_word htext (isWord_of_mem_reservedWords (by decide)) (by decide) hrest
    · exact readPiece_of_word htext (isWord_of_mem_reservedWords (by decide)) (by decide) hrest
  | keywordInteger | keywordBoolean | keywordIf | keywordThen | keywordElse | keywordNot
  | keywordAnd | keywordOr | keywordFunction | keywordPrint =>
    cases hspells
    exact readPiece_of_word htext (isWord_of_mem_reservedWords (by decide)) (by decide) hrest
  | leftParen =>
    cases hspells
    cases htext
    exact readParen_of_head (hrest.uncommented rfl)
  | rightParen | comma | colon | plus | minus | times | divide | lessThan | equal =>
    cases hspells
    cases htext
    rfl

theorem Kind.Spells.toList_ne_nil {kind : Kind} {text : String} (hspells : kind.Spells text) :
    text.toList ≠ [] := by
  intro hnil
  cases kind with
  | identifier =>
    obtain ⟨c, hc, -⟩ := IsName.initial hspells
    simp [hnil] at hc
  | integer =>
    rcases IsNumeral.canonical hspells with rfl | ⟨c, hc, -⟩
    · cases hnil
    · simp [hnil] at hc
  | endOfFile => cases hspells
  | boolean => rcases hspells with rfl | rfl <;> cases hnil
  | _ =>
    cases hspells
    cases hnil

/-- A text spells one kind of token only. -/
theorem Kind.Spells.unique {kind other : Kind} {text : String} (hspells : kind.Spells text)
    (hother : other.Spells text) : kind = other := by
  obtain ⟨c, cs, htext⟩ := List.exists_cons_of_ne_nil hspells.toList_ne_nil
  -- both kinds are what is read where the text stands alone
  have halone : Bounded text [] := ⟨by simp, by simp⟩
  have hread := readPiece_of_spells hspells htext halone
  rw [readPiece_of_spells hother htext halone] at hread
  simpa using hread.symm

/-- The scanner finds the token of a spelling that comes next. -/
theorem look_of_spells {kind : Kind} {text : String} {rest : List Char} (position : Position)
    (spelling : String) (hspells : kind.Spells text) (hrest : Bounded text rest) :
    look position spelling (text.toList ++ rest) =
      { outcome := .ok ⟨kind, tokenValue kind text, position⟩
        start := position
        startText := text.toList ++ rest
        reached := position.after text.toList
        reachedText := rest
        spelling := text } := by
  cases htext : text.toList with
  | nil => exact absurd htext hspells.toList_ne_nil
  | cons c cs =>
    have hread := readPiece_of_spells hspells htext hrest
    have hsame : String.ofList (c :: cs) = text := by rw [← htext, String.ofList_toList]
    rw [List.cons_append, look]
    split
    · rename_i hgap
      simp [hread] at hgap
    · rename_i found hfound
      rw [hread] at hfound ⊢
      injection hfound with hkind
      rw [hkind, htext, hsame]
    · rename_i fault hfault
      simp [hread] at hfault

/-- The inside of a comment. A star takes the character behind it with it, which may be anything
    but the parenthesis that would end the comment. -/
inductive IsCommentBody : List Char → Prop
  | nil : IsCommentBody []
  | char {c : Char} {cs : List Char} : c ≠ '*' → IsCommentBody cs → IsCommentBody (c :: cs)
  | star {c : Char} {cs : List Char} : c ≠ ')' → IsCommentBody cs → IsCommentBody ('*' :: c :: cs)

/-- What may stand between lexemes: blanks and comments. -/
inductive IsGap : List Char → Prop
  | nil : IsGap []
  | blank {c : Char} {cs : List Char} : c ∈ ['\t', '\n', '\r', ' '] → IsGap cs → IsGap (c :: cs)
  | comment {body cs : List Char} : IsCommentBody body → IsGap cs →
      IsGap ('(' :: '*' :: (body ++ '*' :: ')' :: cs))

theorem IsGap.append {gap other : List Char} (h : IsGap gap) (hother : IsGap other) :
    IsGap (gap ++ other) := by
  induction h with
  | nil => exact hother
  | blank hc _ ih => exact .blank hc ih
  | @comment body cs hbody _ ih =>
    have hsplit : '(' :: '*' :: (body ++ '*' :: ')' :: cs) ++ other =
        '(' :: '*' :: (body ++ '*' :: ')' :: (cs ++ other)) := by simp
    rw [hsplit]
    exact .comment hbody ih

private theorem readComment_cons {c : Char} {cs : List Char} (hc : c ≠ '*') :
    readComment (c :: cs) = (c :: (readComment cs).1, (readComment cs).2) := by
  rw [readComment]
  · simp_all
  · simp_all

/-- A comment is read up to the first place where it can end. -/
theorem readComment_of_body {body : List Char} (hbody : IsCommentBody body) (rest : List Char) :
    readComment (body ++ '*' :: ')' :: rest) = (body ++ ['*', ')'], some rest) := by
  induction hbody with
  | nil => simp [readComment]
  | char hc _ ih => rw [List.cons_append, readComment_cons hc, ih, List.cons_append]
  | star hc _ ih => simp [readComment, hc, ih]

/-- What is read as a comment that ends has the form of one. -/
theorem exists_body_of_readComment {text rest : List Char}
    (hread : (readComment text).2 = some rest) :
    ∃ body, IsCommentBody body ∧ (readComment text).1 = body ++ ['*', ')'] := by
  fun_induction readComment text with
  | case1 => cases hread
  | case2 => cases hread
  | case3 cs => exact ⟨[], .nil, rfl⟩
  | case4 c cs hc taken ending hrest ih =>
    rw [hrest] at ih
    obtain ⟨body, hbody, rfl⟩ := ih hread
    exact ⟨'*' :: c :: body, .star hc hbody, rfl⟩
  | case5 c cs hlast hstar taken ending hrest ih =>
    rw [hrest] at ih
    obtain ⟨body, hbody, rfl⟩ := ih hread
    refine ⟨c :: body, .char ?_ hbody, rfl⟩
    rintro rfl
    cases cs <;> simp_all

private theorem ofKind_ne_gap (kind : Except LexicalFault Kind) : Piece.ofKind kind ≠ .gap := by
  cases kind <;> simp [Piece.ofKind]

/-- What is decided by the character behind it is no gap, and if it is a lexeme, then a delimiter
    stands there, or nothing. -/
private theorem piece_of_head (kind : Except LexicalFault Kind) (faulty : Char → Piece)
    {rest : List Char} {piece : Piece}
    (hpiece : piece = match rest with
      | [] => .ofKind kind
      | c :: _ => if isDelimiter c then .ofKind kind else faulty c)
    (hfaulty : ∀ c, ∃ fault, faulty c = .fault fault) :
    piece ≠ .gap ∧ ∀ found, piece = .lexeme found → ∀ c ∈ rest.head?, isDelimiter c = true := by
  cases rest with
  | nil => exact ⟨hpiece ▸ ofKind_ne_gap kind, by simp⟩
  | cons c rest =>
    obtain ⟨fault, hfault⟩ := hfaulty c
    by_cases hdelimiter : isDelimiter c = true
    · simp only [hdelimiter, if_true] at hpiece
      exact ⟨hpiece ▸ ofKind_ne_gap kind, by simpa using fun _ _ => hdelimiter⟩
    · simp only [hdelimiter, hfault] at hpiece
      simp [hpiece]

private theorem readWord_piece (text : List Char) :
    (readWord text).piece ≠ .gap ∧ ∀ found, (readWord text).piece = .lexeme found →
      ∀ c ∈ (readWord text).rest.head?, isDelimiter c = true :=
  piece_of_head _ _ rfl fun c => ⟨.characterInWord c, rfl⟩

private theorem readInteger_piece (text : List Char) :
    (readInteger text).piece ≠ .gap ∧ ∀ found, (readInteger text).piece = .lexeme found →
      ∀ c ∈ (readInteger text).rest.head?, isDelimiter c = true :=
  piece_of_head _ _ rfl fun c => ⟨.characterInInteger c, rfl⟩

private theorem readZero_piece (rest : List Char) :
    (readZero rest).piece ≠ .gap ∧ ∀ found, (readZero rest).piece = .lexeme found →
      ∀ c ∈ (readZero rest).rest.head?, isDelimiter c = true := by
  refine piece_of_head (.ok .integer)
    (fun c => if c.isDigit then .fault .leadingZero else .fault (.characterInInteger c)) rfl
    fun c => ?_
  split
  · exact ⟨_, rfl⟩
  · exact ⟨_, rfl⟩

/-- What is read as a gap has the form of one. -/
theorem isGap_of_readPiece {c : Char} {cs : List Char} :
    (readPiece c cs).piece = .gap → IsGap (readPiece c cs).taken := by
  fun_cases readPiece c cs with
  | case1 halpha => exact fun hgap => absurd hgap (readWord_piece _).1
  | case2 => exact fun hgap => absurd hgap (readZero_piece _).1
  | case3 => exact fun hgap => absurd hgap (readInteger_piece _).1
  | case4 => exact fun hgap => absurd hgap (ofKind_ne_gap _)
  | case5 =>
    fun_cases readParen cs with
    | case1 body taken rest hread =>
      obtain ⟨inner, hinner, htaken⟩ := exists_body_of_readComment (congrArg Prod.snd hread)
      obtain rfl : taken = inner ++ ['*', ')'] := by rw [← htaken, hread]
      exact fun _ => .comment hinner .nil
    | case2 | case3 =>
      intro hgap
      cases hgap
  | case6 _ _ _ _ _ hgap => exact fun _ => .blank (by simpa [isGapChar, or_assoc] using hgap) .nil
  | case7 => exact fun hgap => absurd hgap (ofKind_ne_gap _)
  | case8 =>
    intro hgap
    cases hgap

private theorem singleton_mem_signs {c : Char}
    (hsign : isOperator c = true ∨ isPunctuation c = true) : String.ofList [c] ∈ signs := by
  simp only [isOperator, isPunctuation, Bool.or_eq_true, beq_iff_eq] at hsign
  rcases hsign with (((((rfl | rfl) | rfl) | rfl) | rfl) | rfl) | (((rfl | rfl) | rfl) | rfl)
  all_goals decide

/-- A word or a numeral is read only up to a delimiter. -/
private theorem delimited_of_readPiece {c : Char} {cs : List Char} {kind : Kind} :
    (readPiece c cs).piece = .lexeme kind →
      IsWord (String.ofList (readPiece c cs).taken) ∨
        IsNumeral (String.ofList (readPiece c cs).taken) →
      ∀ d ∈ (readPiece c cs).rest.head?, isDelimiter d = true := by
  fun_cases readPiece c cs with
  | case1 => exact fun hlexeme _ => (readWord_piece _).2 kind hlexeme
  | case2 => exact fun hlexeme _ => (readZero_piece _).2 kind hlexeme
  | case3 => exact fun hlexeme _ => (readInteger_piece _).2 kind hlexeme
  | case4 _ _ _ hoperator =>
    exact fun _ hword =>
      absurd hword (not_word_or_numeral_of_mem_signs (singleton_mem_signs (.inl hoperator)))
  | case5 =>
    fun_cases readParen cs with
    | case1 | case2 =>
      intro hlexeme
      cases hlexeme
    | case3 =>
      exact fun _ hword => absurd hword
        (not_word_or_numeral_of_mem_signs (singleton_mem_signs (c := '(') (.inr rfl)))
  | case6 | case8 =>
    intro hlexeme
    cases hlexeme
  | case7 _ _ _ _ _ _ hpunctuation =>
    exact fun _ hword =>
      absurd hword (not_word_or_numeral_of_mem_signs (singleton_mem_signs (.inr hpunctuation)))

/-- A lexeme is read only where it ends before the rest of the text. -/
theorem bounded_of_readPiece {c : Char} {cs : List Char} {kind : Kind}
    (hlexeme : (readPiece c cs).piece = .lexeme kind) :
    Bounded (String.ofList (readPiece c cs).taken) (readPiece c cs).rest := by
  refine ⟨delimited_of_readPiece hlexeme, fun hparen d hd => ?_⟩
  have htaken : (readPiece c cs).taken = ['('] := by
    rw [← String.toList_ofList (l := (readPiece c cs).taken), hparen]
    rfl
  have happend := readPiece_append c cs
  rw [htaken] at happend
  obtain ⟨rfl, hrest⟩ : '(' = c ∧ (readPiece c cs).rest = cs := by simpa using happend
  rw [hrest] at hd
  rintro rfl
  -- what starts with a parenthesis and a star is a comment
  obtain ⟨body, rfl⟩ : ∃ body, cs = '*' :: body := List.head?_eq_some_iff.mp hd
  have hread : readPiece '(' ('*' :: body) = readParen ('*' :: body) := rfl
  rw [hread] at hlexeme
  simp only [readParen] at hlexeme
  split at hlexeme
  · cases hlexeme
  · cases hlexeme

end Klein
