import Klein.Scanner
import Mathlib.Data.List.TakeWhile
import Mathlib.Data.Nat.Digits.Lemmas

namespace Klein

open Text

/-- The words that name nothing because they have a meaning of their own. -/
def reservedWords : List String :=
  ["integer", "boolean", "if", "then", "else", "not", "and", "or", "function", "print", "true",
   "false"]

/-- A name: a letter, and then letters, digits and underscores, not too many of them and not a
    reserved word. -/
structure IsName (text : String) : Prop where
  initial : ∃ c ∈ text.toList.head?, c.isAlpha = true
  chars : ∀ c ∈ text.toList, isWordChar c = true
  length_le : text.length ≤ maxWordLength
  free : text ∉ reservedWords

theorem IsName.ne_print {name : String} (hname : IsName name) : name ≠ "print" := by
  rintro rfl
  exact hname.free (by decide)

/-- The number that decimal digits write. -/
def numeralValue (text : String) : Nat :=
  Nat.ofDigits 10 (text.toList.reverse.map fun c => c.toNat - '0'.toNat)

/-- A numeral: digits, of which the first is zero only if it is the only one, for a number that
    is not too great. -/
structure IsNumeral (text : String) : Prop where
  digits : ∀ c ∈ text.toList, c.isDigit = true
  canonical : text = "0" ∨ ∃ c ∈ text.toList.head?, c ≠ '0'
  value_le : numeralValue text ≤ maxInteger

/-- The spellings of the tokens of a kind. The end of a text has none. -/
def Kind.Spells : Kind → String → Prop
  | .identifier, text => IsName text
  | .integer, text => IsNumeral text
  | .boolean, text => text = "true" ∨ text = "false"
  | kind, text => kind.spelling? = some text

/-- A token whose value is a spelling of its kind, where tokens of the kind have a value. -/
def Token.Genuine (token : Token) : Prop :=
  match token.kind with
  | .identifier | .integer | .boolean => ∃ text, token.value = some text ∧ token.kind.Spells text
  | _ => True

private theorem decimalDigit_of_isDigit {c : Char} (hdigit : c.isDigit = true) :
    decimalDigit? c = some (c.toNat - '0'.toNat) := by
  have hbounds : 0x30 ≤ c.toNat ∧ c.toNat < 0x30 + 10 := by
    simp only [Char.isDigit, Bool.and_eq_true, decide_eq_true_eq] at hdigit
    have hlow : '0'.toNat ≤ c.toNat := hdigit.1
    have hhigh : c.toNat ≤ '9'.toNat := hdigit.2
    exact ⟨hlow, Nat.lt_succ_of_le hhigh⟩
  simp only [decimalDigit?, zeroDigits, List.find?_cons, hbounds.1, hbounds.2, decide_true,
    Bool.and_self, Option.map_some]
  rfl

private theorem numeralDigits_of_digits {cs : List Char} (hne : cs ≠ [])
    (hdigits : ∀ c ∈ cs, c.isDigit = true) :
    numeralDigits? cs = some (cs.map fun c => c.toNat - '0'.toNat) := by
  fun_induction numeralDigits? cs with
  | case1 => exact absurd rfl hne
  | case2 c => simp [decimalDigit_of_isDigit (hdigits c (by simp))]
  | case3 c cs ih => exact absurd (hdigits '_' (by simp)) (by decide)
  | case4 c cs hcs hunderscore ih =>
    have hrest := ih (fun hnil => hcs (by simp_all)) (fun d hd => hdigits d (by simp [hd]))
    simp [decimalDigit_of_isDigit (hdigits c (by simp)), hrest]

private theorem ofDigits_eq (digits : List Nat) :
    Text.ofDigits digits = Nat.ofDigits 10 digits.reverse := by
  induction digits using List.reverseRecOn with
  | nil => rfl
  | append_singleton digits d ih =>
    simp only [Text.ofDigits, List.foldl_append, List.foldl_cons, List.foldl_nil] at ih ⊢
    rw [ih]
    simp [Nat.ofDigits_cons, Nat.add_comm]

private theorem digit_ne {c d : Char} (hc : c.isDigit = true) (hd : d.isDigit = false) : c ≠ d := by
  rintro rfl
  simp [hc] at hd

private theorem isNumeralBlank_of_isDigit {c : Char} (hdigit : c.isDigit = true) :
    isNumeralBlank c = false := by
  simp only [Char.isDigit, Bool.and_eq_true, decide_eq_true_eq] at hdigit
  have hlow : '0'.toNat ≤ c.toNat := hdigit.1
  have hhigh : c.toNat ≤ '9'.toNat := hdigit.2
  simp only [isNumeralBlank, isBlank, inRanges, blankRanges, List.any_cons, List.any_nil]
  have hlow : 48 ≤ c.toNat := hlow
  have hhigh : c.toNat ≤ 57 := hhigh
  simp
  omega

private theorem dropWhile_blank_of_digits {cs : List Char} (hdigits : ∀ c ∈ cs, c.isDigit = true) :
    cs.dropWhile isNumeralBlank = cs := by
  cases cs with
  | nil => rfl
  | cons c cs =>
    exact List.dropWhile_cons_of_neg (by simp [isNumeralBlank_of_isDigit (hdigits c (by simp))])

/-- Digits are read as the number that they write, unless there are too many of them. -/
theorem readInteger_of_digits {text : String} (hne : text.toList ≠ [])
    (hdigits : ∀ c ∈ text.toList, c.isDigit = true) :
    readInteger? text =
      if text.length ≤ maxNumeralDigits then some (numeralValue text : Int) else none := by
  have hbody : ((text.toList.dropWhile isNumeralBlank).reverse.dropWhile isNumeralBlank).reverse =
      text.toList := by
    rw [dropWhile_blank_of_digits hdigits,
      dropWhile_blank_of_digits (fun c hc => hdigits c (List.mem_reverse.mp hc)),
      List.reverse_reverse]
  have hvalue :
      Text.ofDigits (text.toList.map fun c => c.toNat - '0'.toNat) = numeralValue text := by
    rw [ofDigits_eq, numeralValue, List.map_reverse]
  have hread := numeralDigits_of_digits hne hdigits
  unfold readInteger?
  rw [hbody]
  cases htext : text.toList with
  | nil => exact absurd htext hne
  | cons c cs =>
    have hc := hdigits c (by simp [htext])
    have hminus : c ≠ '-' := digit_ne hc (by decide)
    have hplus : c ≠ '+' := digit_ne hc (by decide)
    rw [htext] at hread hvalue
    have hlength : text.length = cs.length + 1 := by
      rw [← String.length_toList, htext, List.length_cons]
    simp [hminus, hplus, hread, hlength, guard]
    split <;> simp_all

theorem Kind.spells_of_spelling {kind : Kind} {text : String}
    (hspelling : kind.spelling? = some text) : kind.Spells text := by
  cases kind <;> simp_all [Kind.Spells, Kind.spelling?]

/-- A word is of the kind that its spelling says. -/
private theorem wordKind_spells {text : String} {kind : Kind}
    (hinitial : ∃ c ∈ text.toList.head?, c.isAlpha = true)
    (hchars : ∀ c ∈ text.toList, isWordChar c = true) (hkind : wordKind text = .ok kind) :
    kind.Spells text := by
  unfold wordKind at hkind
  split at hkind
  · cases hkind
  · rename_i hlength
    split at hkind
    · rename_i found hfound
      injection hkind with hkind
      subst hkind
      exact Kind.spells_of_spelling (Kind.spelling_of_find hfound)
    · rename_i hkeyword
      injection hkind with hkind
      subst hkind
      split
      · rename_i hboolean
        simpa [Kind.Spells] using hboolean
      · rename_i hboolean
        refine ⟨hinitial, hchars, Nat.le_of_not_lt hlength, ?_⟩
        intro hreserved
        simp only [reservedWords, List.mem_cons, List.not_mem_nil, or_false] at hreserved
        rcases hreserved with rfl | rfl | rfl | rfl | rfl | rfl | rfl | rfl | rfl | rfl | rfl | rfl
        all_goals revert hkeyword hboolean; decide

private theorem integerKind_spells {text : String} {kind : Kind}
    (hinitial : ∃ c ∈ text.toList.head?, c ≠ '0')
    (hdigits : ∀ c ∈ text.toList, c.isDigit = true) (hkind : integerKind text = .ok kind) :
    kind.Spells text := by
  have hne : text.toList ≠ [] := by
    intro hnil
    simp [hnil] at hinitial
  unfold integerKind at hkind
  rw [readInteger_of_digits hne hdigits] at hkind
  split at hkind
  · cases hkind
  · rename_i n hread
    split at hkind
    · cases hkind
    · rename_i hbounds
      injection hkind with hkind
      subst hkind
      refine ⟨hdigits, .inr hinitial, ?_⟩
      split at hread
      · injection hread with hread
        omega
      · cases hread

private theorem readWord_spells {text : List Char} {kind : Kind}
    (hinitial : ∃ c ∈ text.head?, c.isAlpha = true)
    (hpiece : (readWord text).piece = .lexeme kind) :
    kind.Spells (String.ofList (readWord text).taken) := by
  have hchars : ∀ c ∈ text.takeWhile isWordChar, isWordChar c = true :=
    fun c hc => List.mem_takeWhile_imp hc
  have hhead : ∃ c ∈ (text.takeWhile isWordChar).head?, c.isAlpha = true := by
    obtain ⟨c, hc, halpha⟩ := hinitial
    refine ⟨c, ?_, halpha⟩
    rw [List.head?_takeWhile, Option.mem_def.mp hc]
    simp [isWordChar, halpha]
  have hword : wordKind (String.ofList (text.takeWhile isWordChar)) = .ok kind :=
    wordKind_of_readWord hpiece
  change kind.Spells (String.ofList (text.takeWhile isWordChar))
  exact wordKind_spells (by simpa using hhead) (by simpa using hchars) hword

private theorem readInteger_spells {text : List Char} {kind : Kind}
    (hinitial : ∃ c ∈ text.head?, c.isDigit = true ∧ c ≠ '0')
    (hpiece : (readInteger text).piece = .lexeme kind) :
    kind.Spells (String.ofList (readInteger text).taken) := by
  have hdigits : ∀ c ∈ text.takeWhile Char.isDigit, c.isDigit = true :=
    fun c hc => List.mem_takeWhile_imp hc
  have hhead : ∃ c ∈ (text.takeWhile Char.isDigit).head?, c ≠ '0' := by
    obtain ⟨c, hc, hdigit, hzero⟩ := hinitial
    refine ⟨c, ?_, hzero⟩
    rw [List.head?_takeWhile, Option.mem_def.mp hc]
    simp [hdigit]
  have hinteger : integerKind (String.ofList (text.takeWhile Char.isDigit)) = .ok kind :=
    integerKind_of_readInteger hpiece
  change kind.Spells (String.ofList (text.takeWhile Char.isDigit))
  exact integerKind_spells (by simpa using hhead) (by simpa using hdigits) hinteger

private theorem readZero_spells {rest : List Char} {kind : Kind}
    (hpiece : (readZero rest).piece = .lexeme kind) :
    kind.Spells (String.ofList (readZero rest).taken) := by
  have hkind : kind = .integer := by
    dsimp only [readZero] at hpiece
    split at hpiece
    · cases hpiece; rfl
    · split at hpiece
      · cases hpiece; rfl
      · split at hpiece <;> cases hpiece
  subst hkind
  change IsNumeral "0"
  exact ⟨List.all_eq_true.mp rfl, .inl rfl, by decide⟩

private theorem readParen_spells {text : List Char} {kind : Kind}
    (hpiece : (readParen text).piece = .lexeme kind) :
    kind.Spells (String.ofList (readParen text).taken) := by
  fun_cases readParen text with
  | case1 body taken rest hread => simp [readParen, hread] at hpiece
  | case2 body taken hread => simp [readParen, hread] at hpiece
  | case3 hstar =>
    simp only [readParen] at hpiece
    injection hpiece with hkind
    subst hkind
    rfl

/-- What is read as a token of a kind spells that kind. -/
theorem readPiece_spells {c : Char} {cs : List Char} {kind : Kind}
    (hpiece : (readPiece c cs).piece = .lexeme kind) :
    kind.Spells (String.ofList (readPiece c cs).taken) := by
  unfold readPiece at hpiece ⊢
  split at hpiece
  · rename_i halpha
    rw [if_pos halpha]
    exact readWord_spells ⟨c, rfl, halpha⟩ hpiece
  rename_i halpha
  rw [if_neg halpha]
  split at hpiece
  · rename_i hzero
    rw [if_pos hzero]
    exact readZero_spells hpiece
  rename_i hzero
  rw [if_neg hzero]
  split at hpiece
  · rename_i hdigit
    rw [if_pos hdigit]
    exact readInteger_spells ⟨c, rfl, hdigit, hzero⟩ hpiece
  rename_i hdigit
  rw [if_neg hdigit]
  split at hpiece
  · rename_i hoperator
    rw [if_pos hoperator]
    exact Kind.spells_of_spelling (spelling_of_operatorKind (Piece.ofKind_eq_lexeme hpiece))
  rename_i hoperator
  rw [if_neg hoperator]
  split at hpiece
  · rename_i hparen
    rw [if_pos hparen]
    exact readParen_spells hpiece
  rename_i hparen
  rw [if_neg hparen]
  split at hpiece
  · cases hpiece
  rename_i hgap
  rw [if_neg hgap]
  split at hpiece
  · rename_i hpunctuation
    rw [if_pos hpunctuation]
    exact Kind.spells_of_spelling (spelling_of_punctuationKind (Piece.ofKind_eq_lexeme hpiece))
  · cases hpiece

private theorem genuine_of_spells {kind : Kind} {text : String} (position : Position)
    (hspells : kind.Spells text) :
    (⟨kind, tokenValue kind text, position⟩ : Token).Genuine := by
  cases kind with
  | identifier | integer | boolean => exact ⟨text, rfl, hspells⟩
  | _ => trivial

/-- The scanner finds genuine tokens only. -/
theorem look_genuine {position : Position} {spelling : String} {text : List Char} {token : Token}
    (hlook : (look position spelling text).outcome = .ok token) : token.Genuine := by
  fun_induction look position spelling text with
  | case1 position spelling =>
    injection hlook with htoken
    subst htoken
    trivial
  | case2 position spelling c cs reading reached spelling' hpiece ih => exact ih hlook
  | case3 position spelling c cs reading reached spelling' kind hpiece =>
    have hspells : kind.Spells spelling' := readPiece_spells hpiece
    injection hlook with htoken
    subst htoken
    exact genuine_of_spells position hspells
  | case4 => simp_all

theorem Scanner.next_genuine {s after : Scanner} {token : Token}
    (hnext : s.next = (.ok token, after)) : token.Genuine := by
  unfold next at hnext
  split at hnext
  · cases hnext
  · dsimp only at hnext
    split at hnext
    · rename_i found hlook
      injection hnext with htoken
      injection htoken with htoken
      subst htoken
      exact look_genuine hlook
    · cases hnext

/-- All tokens of a scanner are genuine. -/
theorem Scanner.drain_genuine (s : Scanner) : ∀ token ∈ s.drain.1, token.Genuine := by
  fun_induction drain s with
  | case1 s hend => simp
  | case2 s hopen token after hnext tokens fault last hdrain ih =>
    intro other hmem
    rcases List.mem_cons.mp hmem with rfl | hmem
    · exact next_genuine hnext
    · exact ih other (by simpa [hdrain] using hmem)
  | case3 s hopen e after hnext => simp

end Klein
