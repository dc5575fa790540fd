import Klein.Text.Blank
import Klein.Text.Chunk
import Klein.Text.Lines

namespace Klein.Text

/-- The distance between tab stops. -/
def tabWidth : Nat := 8

/-- Tabs are replaced by blanks up to the next tab stop. The column is the number of characters
    written on the line so far. -/
def expandTabsFrom (column : Nat) : List Char → List Char
  | [] => []
  | c :: cs =>
    if c = '\t' then
      let width := tabWidth - column % tabWidth
      List.replicate width ' ' ++ expandTabsFrom (column + width) cs
    else c :: expandTabsFrom (if c = '\n' ∨ c = '\r' then 0 else column + 1) cs

/-- A finished line from its chunks in reverse order. A blank chunk at its end is dropped, and a
    line without chunks is no line. -/
def closeLine (current : List (List Char)) : List (List Char) :=
  let kept := match current with
    | last :: rest => if allBlank last then rest else current
    | [] => []
  if kept.isEmpty then [] else [kept.reverse.flatten]

/-- Fill lines with chunks. A chunk goes to the current line while the line's width allows it, and
    the first chunk of a line always goes there. A blank chunk that would open a line is dropped
    unless no line has been finished before. -/
def fillLines (width : Nat) (finished : Bool) (current : List (List Char)) (used : Nat) :
    List (List Char) → List (List Char)
  | [] => closeLine current
  | chunk :: rest =>
    if current.isEmpty then fillLines width finished [chunk] chunk.length rest
    else if used + chunk.length ≤ width then
      fillLines width finished (chunk :: current) (used + chunk.length) rest
    else
      let line := closeLine current
      let finished := finished || !line.isEmpty
      line ++
        if finished && allBlank chunk then fillLines width finished [] 0 rest
        else fillLines width finished [chunk] chunk.length rest

/-- The lines into which one line is wrapped. -/
def wrapLine (width : Nat) (line : List Char) : List (List Char) :=
  fillLines width false [] 0 (chunks (expandTabsFrom 0 line))

/-- A text whose lines are wrapped to a width. Blank lines are dropped, and a word that is longer
    than the width stands on a line of its own. -/
def wrapLines (width : Nat) (text : String) : List String :=
  ((lines text.toList).filter fun line => !allBlank line).map fun line =>
    join "\n" ((wrapLine width line).map String.ofList)

/-- A width to which nothing can be wrapped. -/
structure InvalidWidth where
  width : Int
deriving DecidableEq, Repr

def InvalidWidth.message (e : InvalidWidth) : String :=
  s!"invalid width {e.width} (must be > 0)"

/-- The text wrapped to a width. A width that is not positive is refused, unless the text is blank
    and there is nothing to wrap. -/
def wrap (width : Int) (text : String) : Except InvalidWidth String :=
  if width ≤ 0 ∧ !(lines text.toList).all allBlank then .error ⟨width⟩
  else .ok (join "\n" (wrapLines width.toNat text))

/-- The width of a message. -/
def messageWidth : Nat := 80

/-- A message wrapped to its usual width. -/
def wrapMessage (text : String) : String :=
  join "\n" (wrapLines messageWidth text)

end Klein.Text
