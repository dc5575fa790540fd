import Klein.Text.Ranges

namespace Klein.Text

/-- The code points of blank characters: the ASCII controls that separate, the space, and the
    spaces and separators of other scripts. -/
def blankRanges : List (Nat × Nat) :=
  [(0x9, 0xd), (0x1c, 0x20), (0x85, 0x85), (0xa0, 0xa0), (0x1680, 0x1680), (0x2000, 0x200a),
   (0x2028, 0x2029), (0x202f, 0x202f), (0x205f, 0x205f), (0x3000, 0x3000)]

/-- A character that is dropped at the ends of a trimmed text. -/
def isBlank (c : Char) : Bool :=
  inRanges blankRanges c

/-- The text without blank characters at either end. -/
def trim (text : List Char) : List Char :=
  ((text.dropWhile isBlank).reverse.dropWhile isBlank).reverse

/-- A text of blank characters only, the empty one included. -/
def allBlank (text : List Char) : Bool :=
  text.all isBlank

end Klein.Text
