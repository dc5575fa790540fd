import Klein.Analysis.Program
import Klein.Code
import Klein.Grammar.Table
import Klein.Parse
import Klein.Tree.Display
import Klein.Tree.Graph
import Klein.Tree.Height

namespace Klein

open Grammar Machine Text

/-- The programs of the command line. -/
inductive Tool
  | listTokens
  | parseProgram
  | astToText
  | astToDot
  | displaySymbolTable
  | compile
deriving DecidableEq, Repr

namespace Tool

def all : List Tool :=
  [listTokens, parseProgram, astToText, astToDot, displaySymbolTable, compile]

def name : Tool → String
  | listTokens => "list_tokens"
  | parseProgram => "parse_program"
  | astToText => "ast_to_text"
  | astToDot => "ast_to_dot"
  | displaySymbolTable => "display_symbol_table"
  | compile => "compile"

def ofName? (text : String) : Option Tool :=
  all.find? fun tool => tool.name == text

end Tool

/-- What a program writes, and the code with which it ends. -/
structure Output where
  text : String
  exitCode : Nat := 0
deriving DecidableEq, Repr

/-- How deep the work on a text may nest, if there is a limit. A character of a word and a level of
    a tree count as one step down each, and a star in a comment counts as two: one for the star, and
    one for what is read behind it. -/
abbrev Nesting := Option Nat

/-- The limit under which the programs run from the command line. -/
def usualNesting : Nat := 994

/-- A depth is within the limit. -/
def Nesting.allows (nesting : Nesting) (depth : Nat) : Bool :=
  match nesting with
  | some limit => depth ≤ limit
  | none => true

/-- How deep reading a comment nests after its opening. A star takes the next character with it, so
    of two stars in a row only the first one counts. -/
def commentDepth : List Char → Nat
  | [] => 0
  | ['*'] => 1
  | '*' :: c :: cs => if c = ')' then 2 else 2 + commentDepth cs
  | _ :: cs => commentDepth cs

/-- How deep reading a piece nests. -/
def Reading.depth (reading : Reading) : Nat :=
  match reading.taken with
  | '(' :: '*' :: body => 2 + commentDepth body
  | taken => taken.length

/-- The offset of the first piece of a text whose reading nests too deep. Nothing is read past a
    fault. -/
def deepPiece? (nesting : Nesting) (offset : Nat) (text : List Char) : Option Nat :=
  match text with
  | [] => none
  | c :: cs =>
    let reading := readPiece c cs
    if !nesting.allows reading.depth then some offset
    else
      match _ : reading.piece with
      | .fault _ => none
      | .gap | .lexeme _ => deepPiece? nesting (offset + reading.taken.length) reading.rest
termination_by text.length
decreasing_by
  all_goals
    rename_i hpiece
    exact readPiece_rest_length_lt (by simp only [reading] at hpiece; simp [hpiece])

/-- The tokens of a text as far as the limit lets them be read, whether all of them were, and the
    fault that ended them. -/
def tokensWithin (nesting : Nesting) (text : String) : List Token × Bool × Option ScanError :=
  let (tokens, fault, _) := (Scanner.ofText text).drain
  match deepPiece? nesting 0 text.toList with
  | some offset => (tokens.filter fun t => t.position.offset < offset, false, none)
  | none => (tokens, true, fault)

/-- What the programs say when they cannot go on. -/
def giveUp : String :=
  "Klein Error: unable to continue processing\n"

/-- What the program that lists tokens says when it cannot go on. -/
def giveUpScanning : String :=
  "Klein Lexical Error: unable to continue scanning\n"

/-- The message of a fault in a text. Other faults are not explained to the user. -/
def ParseError.explanation (source : String) : ParseError → String
  | e@(.scan (.lexical _)) => e.message source ++ "\n"
  | e@(.unexpected ..) => e.message source ++ "\n"
  | e@(.noRule ..) => e.message source ++ "\n"
  | e@(.unfinished _) => e.message source ++ "\n"
  | e@(.notProgram _) => e.message source ++ "\n"
  | _ => giveUp

/-- Parse a text within a limit. -/
def parseWithin (nesting : Nesting) (text : String) : Except ParseError Program :=
  match tokensWithin nesting text with
  | (_, true, _) => parse text
  | (tokens, false, _) => parseStream rules (.listed tokens .terminated)

/-- The tokens of a text, one on each line. -/
def tokenListing (nesting : Nesting) (text : String) : String :=
  let (tokens, complete, fault) := tokensWithin nesting text
  let ending := match complete, fault with
    | false, _ => giveUpScanning
    | true, some e => e.message ++ "\n"
    | true, none => ""
  String.join (tokens.map fun t => t.toString ++ "\n") ++ ending

/-- The outline of a program, as far as the limit lets it be written. -/
def outlineListing (nesting : Nesting) (p : Program) : String :=
  match (Node.program p).display {} with
  | .ok lines =>
    let shown := lines.takeWhile fun w => nesting.allows w.depth
    writtenText shown ++ if shown.length = lines.length then "" else giveUp
  | .error _ => giveUp

/-- The graph of a program, as far as the limit lets it be written. -/
def graphListing (nesting : Nesting) (name : Nat → String) (p : Program) : String :=
  match (Node.program p).sketch with
  | .ok sketch =>
    let lines := (sketch.statements 0).1.zip (sketch.depths 2)
    let shown := lines.takeWhile fun (_, depth) => nesting.allows depth
    graphOpening ++ String.join (shown.map fun (s, _) => s.toString name ++ "\n") ++
      if shown.length = lines.length then graphClosing else giveUp
  | .error _ => giveUp

/-- The symbol table of a program and the issues of its analysis. -/
def symbolListing (nesting : Nesting) (p : Program) : String :=
  if !nesting.allows p.height then giveUp
  else
    let r := Analysis.analyze p
    match r.error with
    | none => r.state.table.toString ++ "\n" ++ r.state.issueText
    | some (.issues n) => r.state.issueText ++ Analysis.Error.message (.issues n) ++ "\n"
    | some (.fault _) => giveUp

/-- The code of a program, or why there is none. -/
def compileText (nesting : Nesting) (text : String) (l : Layout) : Output × Layout :=
  match parseWithin nesting text with
  | .error e => (⟨e.explanation text, 1⟩, l)
  | .ok p =>
    if !nesting.allows p.height then (⟨giveUp, 1⟩, l)
    else
      let r := Analysis.analyze p
      match r.error with
      | some (.issues n) =>
        (⟨r.state.issueText ++ Analysis.Error.message (.issues n) ++ "\n", 1⟩, l)
      | some (.fault _) => (⟨giveUp, 1⟩, l)
      | none =>
        match (programCode r.state.table r.program).print l with
        | (.ok listing, l) => (⟨listing, 0⟩, l)
        | (.error (.index _), l) => (⟨giveUp, 1⟩, l)
        | (.error e, l) => (⟨e.message ++ "\n", 1⟩, l)

/-- Show a program that parses, or explain why it does not. -/
def showProgram (nesting : Nesting) (text : String) (view : Program → String) : Output :=
  match parseWithin nesting text with
  | .ok p => ⟨view p, 0⟩
  | .error e => ⟨e.explanation text, 0⟩

/-- Run a program on a text. Only the compiler moves the layout of the listing on. -/
def Tool.run (nesting : Nesting) (l : Layout) (text : String) : Tool → Output × Layout
  | listTokens => (⟨tokenListing nesting text, 0⟩, l)
  | parseProgram => (showProgram nesting text fun _ => "valid program\n", l)
  | astToText => (showProgram nesting text (outlineListing nesting), l)
  | astToDot => (showProgram nesting text (graphListing nesting ToString.toString), l)
  | displaySymbolTable => (showProgram nesting text (symbolListing nesting), l)
  | compile => compileText nesting text l

/-- The table of rules on one line. -/
def tableListing : String :=
  Table.standard.toString ++ "\n"

/-- The file that holds the example for the analysis. -/
def examplePath : String :=
  "programs/semantic-errors.kln"

/-- Why the example cannot be shown. -/
inductive ExampleError
  | missingFile
  | parse (source : String) (e : ParseError)
  | analysis (e : Analysis.Error)

def ExampleError.message : ExampleError → String
  | missingFile => s!"[Errno 2] No such file or directory: {Text.quoted examplePath}"
  | parse source e => e.message source
  | analysis e => e.message

/-- The outline of the example and its symbol table. -/
def exampleListing (contents : Option String) : Except ExampleError String := do
  let some contents := contents | throw .missingFile
  let source := String.ofList (unifyLineEnds contents.toList)
  match parse source with
  | .error e => throw (.parse source e)
  | .ok p =>
    let r := Analysis.analyze p
    match r.error with
    | some e => throw (.analysis e)
    | none => return outlineListing none r.program ++ "\n" ++ r.state.table.toString ++ "\n"

end Klein
