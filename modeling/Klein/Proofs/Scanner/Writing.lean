import Klein.Proofs.Scanner.Division

namespace Klein

open Text

/-- A spelling of a kind of token. -/
structure Lexeme where
  kind : Kind
  text : String

/-- The lexeme of a kind that has one spelling only. -/
def Kind.lexeme (kind : Kind) : Lexeme :=
  ⟨kind, kind.spelling?.getD ""⟩

/-- The text of some lexemes, with a space between neighbours. -/
def writeLexemes (lexemes : List Lexeme) : String :=
  join " " (lexemes.map Lexeme.text)

/-- A text that ends here, or goes on with a space. -/
def Spaced (rest : List Char) : Prop :=
  ∀ c ∈ rest.head?, c = ' '

theorem Spaced.bounded {rest : List Char} (hrest : Spaced rest) (text : String) :
    Bounded text rest := by
  refine ⟨fun _ c hc => ?_, fun _ c hc => ?_⟩
  · rw [hrest c hc]
    decide
  · rw [hrest c hc]
    decide

/-- What the parser sees of a token: its kind, and its value if it has one. -/
def Token.mark (token : Token) : Kind × Option String :=
  (token.kind, token.value)

def Lexeme.mark (lexeme : Lexeme) : Kind × Option String :=
  (lexeme.kind, tokenValue lexeme.kind lexeme.text)

/-- The marks of some lexemes and the end of the text. -/
def marks (lexemes : List Lexeme) : List (Kind × Option String) :=
  lexemes.map Lexeme.mark ++ [(.endOfFile, none)]

/-- The text of lexemes that follow another one. -/
def trail : List Lexeme → List Char
  | [] => []
  | lexeme :: lexemes => ' ' :: (lexeme.text.toList ++ trail lexemes)

theorem spaced_trail (lexemes : List Lexeme) : Spaced (trail lexemes) := by
  cases lexemes with
  | nil => simp [Spaced, trail]
  | cons lexeme lexemes => simp [Spaced, trail]

theorem writeLexemes_cons (lexeme : Lexeme) (lexemes : List Lexeme) :
    (writeLexemes (lexeme :: lexemes)).toList = lexeme.text.toList ++ trail lexemes := by
  rw [writeLexemes, join, String.toList_intercalate]
  induction lexemes generalizing lexeme with
  | nil => simp [trail]
  | cons other lexemes ih =>
    simp only [List.map_cons, List.intercalate_cons_cons, trail] at ih ⊢
    rw [ih]
    simp

namespace Scanner

variable {lexemes : List Lexeme}

/-- A lexeme behind a gap is scanned as a token of its kind, before what follows it. -/
private theorem Ready.drain_lexeme {s : Scanner} {position : Position} {lexeme : Lexeme}
    {gap rest : List Char} (hgap : IsGap gap) (hspells : lexeme.kind.Spells lexeme.text)
    (hrest : Spaced rest) (h : s.Ready position (gap ++ (lexeme.text.toList ++ rest))) :
    ∃ (token : Token) (after : Scanner) (place : Position), token.mark = lexeme.mark ∧
      after.Ready place rest ∧ s.drain = (token :: after.drain.1, after.drain.2) := by
  obtain ⟨after, hnext, hafter⟩ := h.next hgap hspells (hrest.bounded lexeme.text)
  exact ⟨_, after, _, rfl, hafter, drain_of_next_ok hnext⟩

/-- Lexemes that follow another one are scanned as tokens of their kinds. -/
theorem Ready.drain_trail {s : Scanner} {position : Position}
    (hspells : ∀ lexeme ∈ lexemes, lexeme.kind.Spells lexeme.text)
    (h : s.Ready position (trail lexemes)) :
    ∃ tokens last, s.drain = (tokens, none, last) ∧ tokens.map Token.mark = marks lexemes := by
  induction lexemes generalizing s position with
  | nil =>
    obtain ⟨last, hdrain⟩ := h.drain_end .nil
    exact ⟨_, last, hdrain, rfl⟩
  | cons lexeme lexemes ih =>
    have hspace : IsGap [' '] := .blank (by decide) .nil
    obtain ⟨token, after, place, hmark, hafter, hdrain⟩ :=
      Ready.drain_lexeme hspace (hspells lexeme (by simp)) (spaced_trail lexemes) h
    obtain ⟨tokens, last, hlast, hmarks⟩ :=
      ih (fun other hother => hspells other (by simp [hother])) hafter
    refine ⟨token :: tokens, last, by rw [hdrain, hlast], ?_⟩
    rw [List.map_cons, hmark, hmarks]
    rfl

/-- Lexemes that are written are scanned as tokens of their kinds, and then the text ends. -/
theorem drain_writeLexemes (hspells : ∀ lexeme ∈ lexemes, lexeme.kind.Spells lexeme.text) :
    ∃ tokens last, (ofText (writeLexemes lexemes)).drain = (tokens, none, last) ∧
      tokens.map Token.mark = marks lexemes := by
  have h := ready_ofText (writeLexemes lexemes)
  cases lexemes with
  | nil => exact h.drain_trail hspells
  | cons lexeme lexemes =>
    rw [writeLexemes_cons] at h
    obtain ⟨token, after, place, hmark, hafter, hdrain⟩ :=
      Ready.drain_lexeme .nil (hspells lexeme (by simp)) (spaced_trail lexemes) h
    obtain ⟨tokens, last, hlast, hmarks⟩ :=
      hafter.drain_trail fun other hother => hspells other (by simp [hother])
    refine ⟨token :: tokens, last, by rw [hdrain, hlast], ?_⟩
    rw [List.map_cons, hmark, hmarks]
    rfl

end Scanner

end Klein
