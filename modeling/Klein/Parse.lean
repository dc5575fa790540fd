import Klein.Grammar.Rules
import Klein.Scanner
import Klein.Tree.Build

namespace Klein

open Grammar Text

/-- Why a text cannot be parsed. A token stands for the place where parsing stopped. -/
inductive ParseError
  | scan (e : ScanError)
  | unexpected (expected : Kind) (token : Token)
  | noRule (nonterminal : Nonterminal) (options : List Kind) (token : Token)
  | noOptions
  | build (e : BuildError)
  | unfinished (nodes : NodeStack)
  | notProgram (node : Node)
  | endless

/-- The kinds of token that a nonterminal may start with, or be empty before. -/
def Grammar.Rules.options (rules : Rules) (nonterminal : Nonterminal) : List Kind :=
  Kind.all.filter fun kind => (rules nonterminal kind).isSome

/-- What a diagnostic says about the kinds that were possible. -/
def expectedText : List Kind → String
  | [kind] => s!"Expected {kind.display}."
  | kinds =>
    "Expected one of the following options: " ++ join ", " (kinds.map Kind.display) ++ "."

/-- The report of a fault at a token, with the source line of the token. -/
def tokenReport (source : String) (token : Token) (message : String) : String :=
  match sourceLine source (token.position.line - 1) with
  | .error e => e.message
  | .ok line =>
    match parseReport (some token.position) (some line) message with
    | .ok report => report
    | .error e => e.message

/-- The report of a fault that belongs to no place. -/
def placelessReport (message : String) : String :=
  wrapMessage s!"Klein Parse Error: {placeText none}\n{message}"

def ParseError.message (source : String) : ParseError → String
  | scan e => e.message
  | unexpected expected token =>
    tokenReport source token s!"Expected {expected.display} and received {token.kind.display}"
  | noRule nonterminal options token =>
    tokenReport source token
      (s!"Invalid transition from {nonterminal.label} to {token.kind.display}.\n" ++
        expectedText options)
  | noOptions => "list index out of range"
  | build e => e.message
  | unfinished nodes =>
    placelessReport
      ("Expected 1 value in semantic stack when done parsing. " ++
        s!"Instead encountered {nodes.length} items: {NodeStack.toString nodes}")
  | notProgram node =>
    placelessReport
      s!"Expected parsing to return a program instead received {node.form.name}"
  | endless => "parsing does not end"

/-- Where a parser gets its tokens: from a scanner, or from a list, with what comes of asking for
    more tokens than it has. -/
inductive TokenStream
  | scanner (s : Scanner)
  | listed (tokens : List Token) (ending : ScanError)

namespace TokenStream

def ofText (text : String) : TokenStream :=
  .scanner (.ofText text)

/-- Look at the next token without taking it. -/
def peek : TokenStream → Except ScanError Token × TokenStream
  | scanner s => (s.peek.1, scanner s.peek.2)
  | listed [] ending => (.error ending, listed [] ending)
  | listed (token :: tokens) ending => (.ok token, listed (token :: tokens) ending)

/-- Take the next token. -/
def next : TokenStream → Except ScanError Token × TokenStream
  | scanner s => (s.next.1, scanner s.next.2)
  | listed [] ending => (.error ending, listed [] ending)
  | listed (token :: tokens) ending => (.ok token, listed tokens ending)

/-- A bound on the number of tokens that are left. -/
def size : TokenStream → Nat
  | scanner s => s.remaining
  | listed tokens _ => tokens.length

end TokenStream

/-- A parser at work: the items that are still to be matched, the tokens ahead, the nodes that wait
    for their parents, and the token read last. -/
structure Parser where
  items : List Item := [.nonterminal .program, .token .endOfFile]
  stream : TokenStream
  nodes : NodeStack := []
  recent : Option Token := none

namespace Parser

/-- Deal with the first item: take a token and match it, replace a nonterminal by its rule before
    the token ahead, or run an action. -/
def step (rules : Rules) (p : Parser) : Item → Except ParseError Parser
  | .token kind =>
    match p.stream.next with
    | (.error e, _) => .error (.scan e)
    | (.ok token, stream) =>
      if token.kind = kind then .ok { p with stream, recent := some token }
      else .error (.unexpected kind token)
  | .nonterminal nonterminal =>
    match p.stream.peek with
    | (.error e, _) => .error (.scan e)
    | (.ok token, stream) =>
      match rules nonterminal token.kind with
      | some rule => .ok { p with items := rule ++ p.items, stream, recent := some token }
      | none =>
        let options := rules.options nonterminal
        if options.isEmpty then .error .noOptions
        else .error (.noRule nonterminal options token)
  | .action action =>
    match p.nodes.act p.recent action with
    | (.ok _, nodes) => .ok { p with nodes }
    | (.error e, _) => .error (.build e)

/-- Parse within a number of steps, until no item is left. -/
def run (rules : Rules) (fuel : Nat) (p : Parser) : Except ParseError Parser :=
  match p.items, fuel with
  | [], _ => .ok p
  | _ :: _, 0 => .error .endless
  | item :: items, fuel + 1 =>
    match step rules { p with items } item with
    | .ok p => run rules fuel p
    | .error e => .error e

end Parser

/-- The length of the longest rule. -/
def Grammar.Rules.width (rules : Rules) : Nat :=
  (Nonterminal.all.flatMap fun n => Kind.all.map fun k => ((rules n k).getD []).length).foldl max 0

/-- A number of steps within which parsing ends if it ends at all. Between two tokens no
    nonterminal can stand below itself in a finite derivation, so an item is dealt with in at most
    `(width + 1) ^ (count + 1)` steps, and no more items than that are added before each token. -/
def Grammar.Rules.budget (rules : Rules) (tokens : Nat) : Nat :=
  (tokens + 3) * (rules.width + 1).pow (2 * (Nonterminal.all.length + 1))

/-- Parse the tokens of a stream by some rules. -/
def parseStream (rules : Rules) (stream : TokenStream) : Except ParseError Program :=
  match Parser.run rules (rules.budget stream.size) { stream } with
  | .error e => .error e
  | .ok final =>
    match final.nodes with
    | [.program p] => .ok p
    | [node] => .error (.notProgram node)
    | nodes => .error (.unfinished nodes)

/-- Parse a text by some rules. -/
def parseWith (rules : Rules) (text : String) : Except ParseError Program :=
  parseStream rules (.ofText text)

/-- Parse a Klein program. -/
def parse (text : String) : Except ParseError Program :=
  parseWith rules text

end Klein
