import Klein.Text.Word

namespace Klein.Text

/-- The characters that separate words when a line is wrapped. -/
def isSpacing (c : Char) : Bool :=
  c == ' ' || c == '\t' || c == '\n' || c == '\x0b' || c == '\x0c' || c == '\r'

/-- A character after which a dash of several hyphens may stand: part of a word, or a mark that
    closes one. -/
def closesWord (c : Char) : Bool :=
  isWord c || c == '!' || c == '"' || c == '\'' || c == '&' || c == '.' || c == ',' || c == '?'

/-- A dash of at least two hyphens with a word right after it. -/
def startsDash (after : List Char) : Bool :=
  decide (2 ≤ (after.takeWhile (· == '-')).length) &&
    ((after.dropWhile (· == '-')).head?.map isWord).getD false

/-- A dash between two words. The characters before it are given nearest first. -/
def dashBetween (before after : List Char) : Bool :=
  (before.head?.map closesWord).getD false && startsDash after

/-- The hyphen at the front of the text may end a chunk: at least two letters stand before it,
    next to it or joined by another hyphen, and two letters follow it in the same way. -/
def hyphenBreaks (before after : List Char) : Bool :=
  (match before with
    | x :: '-' :: y :: _ => isLetter x && isLetter y
    | x :: y :: _ => isLetter x && isLetter y
    | _ => false) &&
  (match after with
    | '-' :: x :: '-' :: y :: _ => isLetter x && isLetter y
    | '-' :: x :: y :: _ => isLetter x && isLetter y
    | _ => false)

/-- What the chunk that is being read consists of. -/
inductive ChunkKind
  | spacing
  | dash
  | word
deriving DecidableEq, Repr

/-- The kind of chunk that starts at the front of a text. -/
def ChunkKind.starting (before after : List Char) : ChunkKind :=
  if (after.head?.map isSpacing).getD false then .spacing
  else if dashBetween before after then .dash
  else .word

/-- The next character belongs to a chunk of this kind that has already begun. -/
def ChunkKind.continues (kind : ChunkKind) (before : List Char) (c : Char) (cs : List Char) : Bool :=
  match kind with
  | .spacing => isSpacing c
  | .dash => c == '-'
  | .word => !isSpacing c && !dashBetween before (c :: cs)

/-- Continue a chunk whose characters so far are given in reverse. The kind is absent where a new
    chunk has to start. -/
def chunksFrom (kind : Option ChunkKind) (before current : List Char) : List Char → List (List Char)
  | [] => if current.isEmpty then [] else [current.reverse]
  | c :: cs =>
    match kind with
    | some kind =>
      if kind = .word ∧ hyphenBreaks before (c :: cs) then
        (c :: current).reverse :: chunksFrom none (c :: before) [] cs
      else if kind.continues before c cs then chunksFrom (some kind) (c :: before) (c :: current) cs
      else current.reverse :: chunksFrom (some (.starting before (c :: cs))) (c :: before) [c] cs
    | none => chunksFrom (some (.starting before (c :: cs))) (c :: before) [c] cs

/-- The parts of a line between which it may be broken: runs of spacing, dashes between words, and
    words, cut after a hyphen that joins two words. Put together they are the line. -/
def chunks (line : List Char) : List (List Char) :=
  chunksFrom none [] [] line

end Klein.Text
