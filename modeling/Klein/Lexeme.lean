import Klein.Token
import Klein.Text.Decimal
import Klein.Text.Printable

namespace Klein

open Text

/-- What can be wrong with a text at the place where the scanner stands. -/
inductive LexicalFault
  | illegalCharacter (c : Char)
  | characterInWord (c : Char)
  | wordTooLong
  | leadingZero
  | characterInInteger (c : Char)
  | illegalInteger (text : String)
  | integerOutOfRange
  | unknownOperator (text : String)
  | unknownPunctuation (text : String)
  | unterminatedComment
deriving DecidableEq, Repr

/-- The greatest integer that a literal may write. -/
def maxInteger : Nat := 2147483647

/-- The length of the longest word. -/
def maxWordLength : Nat := 256

namespace LexicalFault

def message : LexicalFault → String
  | illegalCharacter c => s!"Illegal character \"{c}\" when looking for next token."
  | characterInWord c =>
    let shown := if isPrintable c then String.singleton c else s!"utf8:{c.toNat}"
    s!"Invalid character \"{shown}\" in identifier. " ++
      "Only alphanumeric characters and underscores allowed."
  | wordTooLong => s!"Identifiers cannot be longer than {maxWordLength} characters"
  | leadingZero => "Integer cannot start with leading 0"
  | characterInInteger c => s!"Invalid character \"{c}\" in integer"
  | illegalInteger text => s!"Encountered illegal integer \"{text}\""
  | integerOutOfRange =>
    s!"Integer literal must be bounded between 0 (incl) and {maxInteger} (incl)."
  | unknownOperator text => s!"Unable to categorize operator: \"{text}\""
  | unknownPunctuation text => s!"Unable to categorize punctuation: \"{text}\""
  | unterminatedComment => "All comments must be terminated before program ends"

end LexicalFault

/-- A character that may stand inside a word. -/
def isWordChar (c : Char) : Bool :=
  c.isAlpha || c.isDigit || c == '_'

def isOperator (c : Char) : Bool :=
  c == '+' || c == '-' || c == '*' || c == '/' || c == '<' || c == '='

def isPunctuation (c : Char) : Bool :=
  c == '(' || c == ')' || c == ',' || c == ':'

/-- A blank between lexemes. -/
def isGapChar (c : Char) : Bool :=
  c == '\t' || c == '\n' || c == '\r' || c == ' '

/-- A character that may follow a word or an integer. -/
def isDelimiter (c : Char) : Bool :=
  isPunctuation c || isOperator c || isGapChar c

def operatorKind? (text : String) : Option Kind :=
  [Kind.plus, .minus, .times, .divide, .lessThan, .equal].find? (·.spelling? == some text)

def punctuationKind? (text : String) : Option Kind :=
  [Kind.leftParen, .rightParen, .comma, .colon].find? (·.spelling? == some text)

def keywordKind? (text : String) : Option Kind :=
  [Kind.keywordInteger, .keywordBoolean, .keywordIf, .keywordThen, .keywordElse, .keywordNot,
    .keywordAnd, .keywordOr, .keywordFunction, .keywordPrint].find? (·.spelling? == some text)

/-- The kind of a word: a keyword, a boolean or an identifier. -/
def wordKind (text : String) : Except LexicalFault Kind :=
  if maxWordLength < text.length then .error .wordTooLong
  else
    match keywordKind? text with
    | some kind => .ok kind
    | none => .ok (if text == "true" || text == "false" then .boolean else .identifier)

def operatorKind (text : String) : Except LexicalFault Kind :=
  match operatorKind? text with
  | some kind => .ok kind
  | none => .error (.unknownOperator text)

def punctuationKind (text : String) : Except LexicalFault Kind :=
  match punctuationKind? text with
  | some kind => .ok kind
  | none => .error (.unknownPunctuation text)

/-- The kind of a numeral: an integer, if it can be read and is within bounds. -/
def integerKind (text : String) : Except LexicalFault Kind :=
  match readInteger? text with
  | none => .error (.illegalInteger text)
  | some n => if n < 0 ∨ maxInteger < n then .error .integerOutOfRange else .ok .integer

/-- What stands at the front of a text. -/
inductive Piece
  | gap
  | lexeme (kind : Kind)
  | fault (fault : LexicalFault)
deriving DecidableEq, Repr

/-- A piece of text with the characters that were read for it and those that follow. -/
structure Reading where
  piece : Piece
  taken : List Char
  rest : List Char
deriving DecidableEq, Repr

def Piece.ofKind (kind : Except LexicalFault Kind) : Piece :=
  match kind with
  | .ok k => .lexeme k
  | .error e => .fault e

/-- Read a comment after its opening. A star takes the next character with it: a closing
    parenthesis ends the comment, and any other character, a star too, is passed over. The first
    part is what was read, and the second what follows the comment, if it ends. -/
def readComment : List Char → List Char × Option (List Char)
  | [] => ([], none)
  | ['*'] => (['*'], none)
  | '*' :: c :: cs =>
    if c = ')' then (['*', ')'], some cs)
    else
      let (taken, rest) := readComment cs
      ('*' :: c :: taken, rest)
  | c :: cs =>
    let (taken, rest) := readComment cs
    (c :: taken, rest)

/-- Read a word up to its last character. -/
def readWord (text : List Char) : Reading :=
  let taken := text.takeWhile isWordChar
  let rest := text.dropWhile isWordChar
  let piece := match rest with
    | [] => .ofKind (wordKind (String.ofList taken))
    | c :: _ =>
      if isDelimiter c then .ofKind (wordKind (String.ofList taken)) else .fault (.characterInWord c)
  { piece, taken, rest }

/-- Read an integer that does not start with a zero. -/
def readInteger (text : List Char) : Reading :=
  let taken := text.takeWhile Char.isDigit
  let rest := text.dropWhile Char.isDigit
  let piece := match rest with
    | [] => .ofKind (integerKind (String.ofList taken))
    | c :: _ =>
      if isDelimiter c then .ofKind (integerKind (String.ofList taken))
      else .fault (.characterInInteger c)
  { piece, taken, rest }

/-- Read the integer zero, which stands alone. -/
def readZero (rest : List Char) : Reading :=
  let piece := match rest with
    | [] => .lexeme .integer
    | c :: _ =>
      if isDelimiter c then .lexeme .integer
      else if c.isDigit then .fault .leadingZero
      else .fault (.characterInInteger c)
  { piece, taken := ['0'], rest }

/-- Read a parenthesis, which opens a comment if a star follows it. -/
def readParen : List Char → Reading
  | '*' :: body =>
    match readComment body with
    | (taken, some rest) => ⟨.gap, '(' :: '*' :: taken, rest⟩
    | (taken, none) => ⟨.fault .unterminatedComment, '(' :: '*' :: taken, []⟩
  | rest => ⟨.lexeme .leftParen, ['('], rest⟩

/-- Read the piece at the front of a text whose first character is given. -/
def readPiece (c : Char) (cs : List Char) : Reading :=
  if c.isAlpha then readWord (c :: cs)
  else if c = '0' then readZero cs
  else if c.isDigit then readInteger (c :: cs)
  else if isOperator c then ⟨.ofKind (operatorKind (String.singleton c)), [c], cs⟩
  else if c = '(' then readParen cs
  else if isGapChar c then ⟨.gap, [c], cs⟩
  else if isPunctuation c then ⟨.ofKind (punctuationKind (String.singleton c)), [c], cs⟩
  else ⟨.fault (.illegalCharacter c), [], c :: cs⟩

theorem readComment_append (text : List Char) :
    (readComment text).1 ++ (readComment text).2.getD [] = text := by
  fun_induction readComment text <;> simp_all

theorem readParen_append (text : List Char) :
    (readParen text).taken ++ (readParen text).rest = '(' :: text := by
  fun_cases readParen text with
  | case1 body taken rest hread =>
    have := readComment_append body
    simp_all
  | case2 body taken hread =>
    have := readComment_append body
    simp_all
  | case3 => rfl

/-- Nothing is lost: what was read and what follows make up the text. -/
theorem readPiece_append (c : Char) (cs : List Char) :
    (readPiece c cs).taken ++ (readPiece c cs).rest = c :: cs := by
  fun_cases readPiece c cs <;>
    simp_all [readWord, readInteger, readZero, readParen_append, List.takeWhile_append_dropWhile]

/-- Only at a character that starts no piece is nothing read. -/
theorem readPiece_taken_ne_nil {c : Char} {cs : List Char}
    (hpiece : (readPiece c cs).piece ≠ .fault (.illegalCharacter c)) :
    (readPiece c cs).taken ≠ [] := by
  fun_cases readPiece c cs <;>
    simp_all [readPiece, readWord, readInteger, readZero, isWordChar]
  fun_cases readParen cs <;> simp_all

/-- Past a gap or a lexeme less text is left. -/
theorem readPiece_rest_length_lt {c : Char} {cs : List Char}
    (hpiece : (readPiece c cs).piece ≠ .fault (.illegalCharacter c)) :
    (readPiece c cs).rest.length < (c :: cs).length := by
  have hpos := List.length_pos_iff.mpr (readPiece_taken_ne_nil hpiece)
  have hlength := congrArg List.length (readPiece_append c cs)
  simp only [List.length_append] at hlength
  omega

end Klein
