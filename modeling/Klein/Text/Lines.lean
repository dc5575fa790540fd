namespace Klein.Text

/-- The pieces of a text between the occurrences of a separator. There is always one more piece
    than there are separators, so the empty text has one empty piece. -/
def splitAt (separator : Char) : List Char → List (List Char)
  | [] => [[]]
  | c :: cs =>
    if c = separator then [] :: splitAt separator cs
    else
      match splitAt separator cs with
      | [] => [[c]]
      | piece :: pieces => (c :: piece) :: pieces

/-- The pieces of a string between the occurrences of a separator. -/
def split (separator : Char) (text : String) : List String :=
  (splitAt separator text.toList).map String.ofList

/-- The characters that end a line. A carriage return followed by a line feed ends one line. -/
def isLineEnd (c : Char) : Bool :=
  [0xa, 0xb, 0xc, 0xd, 0x1c, 0x1d, 0x1e, 0x85, 0x2028, 0x2029].contains c.toNat

/-- Continue a line whose characters so far are given in reverse. -/
def linesFrom (current : List Char) : List Char → List (List Char)
  | [] => if current.isEmpty then [] else [current.reverse]
  | '\r' :: '\n' :: cs => current.reverse :: linesFrom [] cs
  | c :: cs =>
    if isLineEnd c then current.reverse :: linesFrom [] cs else linesFrom (c :: current) cs

/-- The lines of a text without their ends. An end on the last line adds no empty line after it. -/
def lines (text : List Char) : List (List Char) :=
  linesFrom [] text

/-- Every way to end a line with a carriage return is replaced by a line feed. -/
def unifyLineEnds : List Char → List Char
  | [] => []
  | '\r' :: '\n' :: cs => '\n' :: unifyLineEnds cs
  | c :: cs => (if c = '\r' then '\n' else c) :: unifyLineEnds cs

/-- Several copies of a text in a row; none for a count that is not positive. -/
def copies (count : Int) (text : String) : String :=
  String.join (List.replicate count.toNat text)

/-- The strings with a separator between neighbours. -/
def join (separator : String) (parts : List String) : String :=
  separator.intercalate parts

@[simp]
theorem join_one (separator text : String) : join separator [text] = text :=
  String.intercalate_singleton

theorem join_cons_cons (separator first second : String) (rest : List String) :
    join separator (first :: second :: rest) =
      first ++ separator ++ join separator (second :: rest) :=
  String.intercalate_cons_cons

/-- Blanks before a text up to a width. -/
def padLeft (width : Nat) (text : String) : String :=
  String.ofList (List.replicate (width - text.length) ' ') ++ text

/-- Blanks after a text up to a width. -/
def padRight (width : Nat) (text : String) : String :=
  text ++ String.ofList (List.replicate (width - text.length) ' ')

end Klein.Text
