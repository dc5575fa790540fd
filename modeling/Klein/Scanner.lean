import Klein.Fault
import Klein.Lexeme

namespace Klein

open Text

/-- A lexical fault with its place. -/
structure LexicalError where
  fault : LexicalFault
  position : Position
deriving DecidableEq, Repr

def LexicalError.message (e : LexicalError) : String :=
  lexicalReport (some e.position) e.fault.message

/-- Why the scanner has no token to give. -/
inductive ScanError
  | lexical (e : LexicalError)
  | terminated
deriving DecidableEq, Repr

def ScanError.message : ScanError → String
  | .lexical e => e.message
  | .terminated => "Cannot call next on a terminated scanner"

/-- A line that a text does not have. -/
structure NoSuchLine where
  index : Int
deriving DecidableEq, Repr

def NoSuchLine.message (e : NoSuchLine) : String :=
  s!"Cannot access line number {e.index}: outside of program"

/-- A line of a text by its index from zero. -/
def sourceLine (source : String) (index : Int) : Except NoSuchLine String :=
  if index < 0 then .error ⟨index⟩
  else
    match (split '\n' source)[index.toNat]? with
    | some line => .ok line
    | none => .error ⟨index⟩

/-- Integers, booleans and identifiers have their spelling as a value. -/
def tokenValue (kind : Kind) (spelling : String) : Option String :=
  match kind with
  | .integer | .boolean | .identifier => some spelling
  | _ => none

/-- What looking for a token comes to: the token or the fault, the place where it starts with the
    text from there, the place that was reached with the text from there, and the spelling of the
    piece read last. -/
structure Sighting where
  outcome : Except LexicalError Token
  start : Position
  startText : List Char
  reached : Position
  reachedText : List Char
  spelling : String

/-- Look for the next token past any gaps. At the end of the text no further piece is read. -/
def look (position : Position) (spelling : String) (text : List Char) : Sighting :=
  match text with
  | [] => ⟨.ok ⟨.endOfFile, none, position⟩, position, [], position, [], spelling⟩
  | c :: cs =>
    let reading := readPiece c cs
    let reached := position.after reading.taken
    let spelling := String.ofList reading.taken
    match _ : reading.piece with
    | .gap => look reached spelling reading.rest
    | .lexeme kind =>
      ⟨.ok ⟨kind, tokenValue kind spelling, position⟩, position, c :: cs, reached, reading.rest,
        spelling⟩
    | .fault fault =>
      ⟨.error ⟨fault, reached⟩, position, c :: cs, reached, reading.rest, spelling⟩
termination_by text.length
decreasing_by
  rename_i hgap
  exact readPiece_rest_length_lt (by simp only [reading] at hgap; simp [hgap])

/-- A scanner over a text. It stands at `position`. While it looks for a token it works its way
    ahead from `working`, before the text in `pending`, and keeps the spelling of the piece that it
    read last. -/
structure Scanner where
  position : Position := {}
  working : Position := {}
  pending : List Char
  spelling : String := ""
  terminated : Bool := false
deriving DecidableEq, Repr

namespace Scanner

def ofText (text : String) : Scanner :=
  { pending := text.toList }

def hasNext (s : Scanner) : Bool :=
  !s.terminated

/-- Take the next token. After a fault the scanner stands where the faulty piece starts, but will
    work on from where the fault was met. -/
def next (s : Scanner) : Except ScanError Token × Scanner :=
  if s.terminated then (.error .terminated, s)
  else
    let sighting := look s.working s.spelling s.pending
    match sighting.outcome with
    | .ok token =>
      (.ok token,
        { position := sighting.reached
          working := sighting.reached
          pending := sighting.reachedText
          spelling := sighting.spelling
          terminated := token.kind = .endOfFile })
    | .error e =>
      (.error (.lexical e),
        { position := sighting.start
          working := sighting.reached
          pending := sighting.reachedText
          spelling := sighting.spelling })

/-- Look at the next token without taking it. The scanner moves past the gaps before it. -/
def peek (s : Scanner) : Except ScanError Token × Scanner :=
  if s.terminated then (.error .terminated, s)
  else
    let sighting := look s.working s.spelling s.pending
    match sighting.outcome with
    | .ok token =>
      (.ok token,
        { position := sighting.start
          working := sighting.start
          pending := sighting.startText
          spelling := sighting.spelling })
    | .error e =>
      (.error (.lexical e),
        { position := sighting.start
          working := sighting.reached
          pending := sighting.reachedText
          spelling := sighting.spelling })

/-- The token that a spelling of some kind makes at the scanner's place. Its value is the piece
    read last. -/
def tokenOf (s : Scanner) (kind : Except LexicalFault Kind) : Except LexicalError Token :=
  match kind with
  | .ok kind => .ok ⟨kind, tokenValue kind s.spelling, s.position⟩
  | .error fault => .error ⟨fault, s.working⟩

end Scanner

/-- A kind that is found by a spelling has this spelling. -/
theorem Kind.spelling_of_find {kinds : List Kind} {text : String} {kind : Kind}
    (hfound : kinds.find? (·.spelling? == some text) = some kind) :
    kind.spelling? = some text := by
  simpa using List.find?_some hfound

theorem spelling_of_operatorKind {text : String} {kind : Kind}
    (hkind : operatorKind text = .ok kind) : kind.spelling? = some text := by
  unfold operatorKind at hkind
  split at hkind
  · rename_i found hfound
    cases hkind
    exact Kind.spelling_of_find hfound
  · cases hkind

theorem spelling_of_punctuationKind {text : String} {kind : Kind}
    (hkind : punctuationKind text = .ok kind) : kind.spelling? = some text := by
  unfold punctuationKind at hkind
  split at hkind
  · rename_i found hfound
    cases hkind
    exact Kind.spelling_of_find hfound
  · cases hkind

/-- The end of a text has no spelling. -/
private theorem ne_endOfFile_of_spelling {kind : Kind} {text : String}
    (hspelling : kind.spelling? = some text) : kind ≠ .endOfFile := by
  rintro rfl
  cases hspelling

private theorem wordKind_ne_endOfFile {text : String} {kind : Kind}
    (hkind : wordKind text = .ok kind) : kind ≠ .endOfFile := by
  unfold wordKind at hkind
  split at hkind
  · cases hkind
  · split at hkind
    · rename_i found hfound
      cases hkind
      exact ne_endOfFile_of_spelling (Kind.spelling_of_find hfound)
    · cases hkind
      split <;> decide

private theorem integerKind_ne_endOfFile {text : String} {kind : Kind}
    (hkind : integerKind text = .ok kind) : kind ≠ .endOfFile := by
  unfold integerKind at hkind
  split at hkind
  · cases hkind
  · split at hkind <;> cases hkind
    decide

theorem Piece.ofKind_eq_lexeme {found : Except LexicalFault Kind} {kind : Kind}
    (hpiece : Piece.ofKind found = .lexeme kind) : found = .ok kind := by
  cases found <;> simp_all [Piece.ofKind]

/-- A word that is read is judged as a whole. -/
theorem wordKind_of_readWord {text : List Char} {kind : Kind}
    (hpiece : (readWord text).piece = .lexeme kind) :
    wordKind (String.ofList (text.takeWhile isWordChar)) = .ok kind := by
  dsimp only [readWord] at hpiece
  split at hpiece
  · exact Piece.ofKind_eq_lexeme hpiece
  · split at hpiece
    · exact Piece.ofKind_eq_lexeme hpiece
    · cases hpiece

/-- A numeral that is read is judged as a whole. -/
theorem integerKind_of_readInteger {text : List Char} {kind : Kind}
    (hpiece : (readInteger text).piece = .lexeme kind) :
    integerKind (String.ofList (text.takeWhile Char.isDigit)) = .ok kind := by
  dsimp only [readInteger] at hpiece
  split at hpiece
  · exact Piece.ofKind_eq_lexeme hpiece
  · split at hpiece
    · exact Piece.ofKind_eq_lexeme hpiece
    · cases hpiece

private theorem readZero_ne_endOfFile {text : List Char} {kind : Kind}
    (hpiece : (readZero text).piece = .lexeme kind) : kind ≠ .endOfFile := by
  dsimp only [readZero] at hpiece
  rintro rfl
  split at hpiece
  · cases hpiece
  · split at hpiece
    · cases hpiece
    · split at hpiece <;> cases hpiece

private theorem readParen_ne_endOfFile {text : List Char} {kind : Kind}
    (hpiece : (readParen text).piece = .lexeme kind) : kind ≠ .endOfFile := by
  rintro rfl
  fun_cases readParen text <;> simp_all [readParen]

/-- No piece of a text is the token that stands for its end. -/
theorem readPiece_lexeme_ne_endOfFile {c : Char} {cs : List Char} {kind : Kind}
    (hpiece : (readPiece c cs).piece = .lexeme kind) : kind ≠ .endOfFile := by
  unfold readPiece at hpiece
  split at hpiece
  · exact wordKind_ne_endOfFile (wordKind_of_readWord hpiece)
  split at hpiece
  · exact readZero_ne_endOfFile hpiece
  split at hpiece
  · exact integerKind_ne_endOfFile (integerKind_of_readInteger hpiece)
  split at hpiece
  · exact ne_endOfFile_of_spelling (spelling_of_operatorKind (Piece.ofKind_eq_lexeme hpiece))
  split at hpiece
  · exact readParen_ne_endOfFile hpiece
  split at hpiece
  · cases hpiece
  split at hpiece
  · exact ne_endOfFile_of_spelling (spelling_of_punctuationKind (Piece.ofKind_eq_lexeme hpiece))
  · cases hpiece

/-- A token other than the end of the text takes some of the text. -/
theorem look_reachedText_length_lt {position : Position} {spelling : String} {text : List Char}
    {token : Token} (hlook : (look position spelling text).outcome = .ok token)
    (hkind : token.kind ≠ .endOfFile) :
    (look position spelling text).reachedText.length < text.length := by
  fun_induction look position spelling text with
  | case1 position spelling =>
    injection hlook with htoken
    subst htoken
    exact absurd rfl hkind
  | case2 position spelling c cs reading reached spelling' hpiece ih =>
    have hlt : reading.rest.length < (c :: cs).length :=
      readPiece_rest_length_lt (by simp only [reading] at hpiece; simp [hpiece])
    exact Nat.lt_trans (ih hlook) hlt
  | case3 position spelling c cs reading reached spelling' kind hpiece =>
    exact readPiece_rest_length_lt (by simp only [reading] at hpiece; simp [hpiece])
  | case4 => simp_all

namespace Scanner

/-- How much is left to scan: the pending text and the end of the text. -/
def remaining (s : Scanner) : Nat :=
  if s.terminated then 0 else s.pending.length + 1

/-- Taking a token leaves less to scan. -/
theorem remaining_next_lt {s after : Scanner} {token : Token} (hopen : ¬s.terminated = true)
    (hnext : s.next = (.ok token, after)) : after.remaining < s.remaining := by
  unfold next at hnext
  rw [if_neg hopen] at hnext
  dsimp only at hnext
  split at hnext
  · rename_i found hlook
    have hlt := look_reachedText_length_lt hlook
    injection hnext with htoken hafter
    injection htoken with htoken
    subst hafter htoken
    by_cases hend : found.kind = .endOfFile <;> simp_all [remaining]
  · injection hnext with htoken
    cases htoken

/-- The tokens that are left, up to the end of the text or to the first fault. -/
def drain (s : Scanner) : List Token × Option ScanError × Scanner :=
  if s.terminated then ([], none, s)
  else
    match _ : s.next with
    | (.ok token, after) =>
      let (tokens, fault, last) := after.drain
      (token :: tokens, fault, last)
    | (.error e, after) => ([], some e, after)
termination_by s.remaining
decreasing_by exact remaining_next_lt ‹_› ‹_›

end Scanner

end Klein
