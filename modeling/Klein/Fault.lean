import Klein.Position
import Klein.Text.Wrap

namespace Klein

open Text

/-- The text of a place that may be unknown. -/
def placeText (position : Option Position) : String :=
  match position with
  | some p => p.toString
  | none => "None"

/-- The report of a fault that the scanner found. -/
def lexicalReport (position : Option Position) (message : String) : String :=
  wrapMessage s!"Klein Lexical Error at {placeText position}: {message}"

def semanticReport (message : String) : String :=
  wrapMessage s!"Klein Semantic Error: {message}"

def codeReport (message : String) : String :=
  wrapMessage s!"Klein Code Generation Error: {message}"

/-- The column of the caret under an excerpt: the columns of the lines before it are taken off as
    long as the line at hand is too short. -/
def caretColumn (column : Int) : List String → Int
  | [] => column
  | line :: rest =>
    if column > (line.length : Int) - 1 then caretColumn (column - (line.length - 1)) rest else column

/-- A source line with its number in front, wrapped to the width of a message, and a caret below it
    that points at a column. -/
def excerpt (line : String) (position : Position) : Except InvalidWidth String := do
  let number := toString position.line
  let gutter := number.length + 1
  let wrapped ← wrap ((messageWidth : Int) - gutter) line
  let marked := (split '\n' wrapped).mapIdx fun i part =>
    if i = 0 then number ++ "|" ++ part else copies gutter " " ++ part
  let caret := copies (caretColumn position.column marked + 1) " " ++ "^"
  return join "\n" (marked ++ [caret])

/-- The report of a fault that the parser found. The source line is shown where both it and the
    place are known. -/
def parseReport (position : Option Position) (line : Option String) (message : String) :
    Except InvalidWidth String := do
  let shown ← match line, position with
    | some line, some position => (excerpt line position).map ("\n" ++ ·)
    | _, _ => pure ""
  return wrapMessage s!"Klein Parse Error: {placeText position}{shown}\n{message}"

end Klein
