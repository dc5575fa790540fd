import Klein.Position
import Klein.Text.Quoted

namespace Klein

/-- The kinds of token, in the order in which a diagnostic lists them. -/
inductive Kind
  | integer
  | keywordInteger
  | keywordBoolean
  | keywordIf
  | keywordThen
  | keywordElse
  | keywordNot
  | keywordAnd
  | keywordOr
  | keywordFunction
  | keywordPrint
  | boolean
  | identifier
  | leftParen
  | rightParen
  | comma
  | colon
  | plus
  | minus
  | times
  | divide
  | lessThan
  | equal
  | endOfFile
deriving DecidableEq, Repr, Inhabited

namespace Kind

def all : List Kind :=
  [integer, keywordInteger, keywordBoolean, keywordIf, keywordThen, keywordElse, keywordNot,
   keywordAnd, keywordOr, keywordFunction, keywordPrint, boolean, identifier, leftParen, rightParen,
   comma, colon, plus, minus, times, divide, lessThan, equal, endOfFile]

/-- The name of a kind in a table of rules. -/
def name : Kind → String
  | integer => "integer"
  | keywordInteger => "keyword_integer"
  | keywordBoolean => "keyword_boolean"
  | keywordIf => "keyword_if"
  | keywordThen => "keyword_then"
  | keywordElse => "keyword_else"
  | keywordNot => "keyword_not"
  | keywordAnd => "keyword_and"
  | keywordOr => "keyword_or"
  | keywordFunction => "keyword_function"
  | keywordPrint => "keyword_print"
  | boolean => "boolean"
  | identifier => "identifier"
  | leftParen => "left_paren"
  | rightParen => "right_paren"
  | comma => "comma"
  | colon => "colon"
  | plus => "plus"
  | minus => "minus"
  | times => "times"
  | divide => "divide"
  | lessThan => "less_than"
  | equal => "equal"
  | endOfFile => "end_of_file"

def ofName? (text : String) : Option Kind :=
  all.find? fun kind => kind.name == text

/-- The name of a kind in a list of tokens. -/
def label (kind : Kind) : String :=
  kind.name.map Char.toUpper

/-- The spelling of a kind whose tokens are all written alike. -/
def spelling? : Kind → Option String
  | keywordInteger => some "integer"
  | keywordBoolean => some "boolean"
  | keywordIf => some "if"
  | keywordThen => some "then"
  | keywordElse => some "else"
  | keywordNot => some "not"
  | keywordAnd => some "and"
  | keywordOr => some "or"
  | keywordFunction => some "function"
  | keywordPrint => some "print"
  | leftParen => some "("
  | rightParen => some ")"
  | comma => some ","
  | colon => some ":"
  | plus => some "+"
  | minus => some "-"
  | times => some "*"
  | divide => some "/"
  | lessThan => some "<"
  | equal => some "="
  | integer | boolean | identifier | endOfFile => none

/-- A kind as a diagnostic names it: its spelling between quotes, or its label. -/
def display (kind : Kind) : String :=
  match kind.spelling? with
  | some text => "\"" ++ text ++ "\""
  | none => kind.label

end Kind

/-- A token with the place where it starts. Integers, booleans and identifiers have their spelling
    as a value. -/
structure Token where
  kind : Kind
  value : Option String := none
  position : Position := {}
deriving DecidableEq, Repr, Inhabited

def Token.toString (token : Token) : String :=
  match token.value with
  | some value => token.kind.label ++ ":" ++ value
  | none => token.kind.label

/-- What a token may be compared with. -/
inductive Token.Operand
  | token (t : Token)
  | kind (k : Kind)
  | other
deriving DecidableEq, Repr

/-- A token was compared with something else. -/
inductive Token.OperandError
  | notComparable
deriving DecidableEq, Repr

def Token.OperandError.message : Token.OperandError → String
  | notComparable => "Tokens can only be compared with other tokens or TokenTypes"

/-- A token agrees with an equal token and with its kind. -/
def Token.agrees (token : Token) : Token.Operand → Except Token.OperandError Bool
  | .token t => .ok (token = t)
  | .kind k => .ok (token.kind = k)
  | .other => .error .notComparable

/-- A word that names no kind of token. -/
structure InvalidKind where
  text : String
deriving DecidableEq, Repr

def InvalidKind.message (e : InvalidKind) : String :=
  Text.quoted e.text ++ " is not a valid TokenType"

def Kind.ofName (text : String) : Except InvalidKind Kind :=
  match Kind.ofName? text with
  | some kind => .ok kind
  | none => .error ⟨text⟩

end Klein
