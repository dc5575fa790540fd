import Klein.Index

namespace Klein

/-- A place in a text. Lines and columns count from one, the offset counts characters from the
    start of the text. -/
structure Position where
  line : Int := 1
  column : Int := 1
  offset : Int := 0
deriving DecidableEq, Repr, Inhabited

namespace Position

/-- The place a number of characters further on the same line. -/
def advance (p : Position) (count : Int) : Position :=
  { p with column := p.column + count, offset := p.offset + count }

/-- The start of the next line, after its line feed has been passed. -/
def newline (p : Position) : Position :=
  { p with line := p.line + 1, column := 1 }

/-- The place after one more character. -/
def afterChar (p : Position) (c : Char) : Position :=
  if c = '\n' then (p.advance 1).newline else p.advance 1

/-- The place after some more characters. -/
def after (p : Position) (text : List Char) : Position :=
  text.foldl afterChar p

def toString (p : Position) : String :=
  s!"Line {p.line} Position {p.column}"

/-- What may be added to a place or compared with it. -/
inductive Operand
  | place (p : Position)
  | count (n : Int)
  | other
deriving DecidableEq, Repr

/-- Why a place and an operand do not go together. -/
inductive OperandError
  | notAddable
  | notComparable
deriving DecidableEq, Repr

def OperandError.message : OperandError → String
  | notAddable => "Cannot add non-integer to position"
  | notComparable => "Positions can only be compared with other positions or ints"

/-- Advance by a count. Nothing else can be added to a place. -/
def add (p : Position) : Operand → Except OperandError Position
  | .count n => .ok (p.advance n)
  | _ => .error .notAddable

/-- Two places agree if all their parts do. A place agrees with a count that is its offset. -/
def agrees (p : Position) : Operand → Except OperandError Bool
  | .place q => .ok (p = q)
  | .count n => .ok (p.offset = n)
  | .other => .error .notComparable

/-- The character of a text at the offset of a place. -/
def charIn (p : Position) (text : String) : Except IndexError Char :=
  elementAt "string" "Position" text.toList p.offset

end Position

end Klein
