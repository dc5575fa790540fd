import Klein.Grammar.Rules
import Klein.Text.Blank
import Klein.Text.Lines
import Klein.Text.Quoted

namespace Klein.Grammar

open Text

/-- One rule of a table. -/
structure Entry where
  nonterminal : Nonterminal
  kind : Kind
  rule : List Item
deriving DecidableEq, Repr

/-- A table of rules in the order in which its cells were filled first. -/
structure Table where
  entries : List Entry := []
deriving DecidableEq, Repr

namespace Table

def rules (table : Table) : Rules := fun nonterminal kind =>
  (table.entries.find? fun e => e.nonterminal = nonterminal ∧ e.kind = kind).map (·.rule)

/-- Fill a cell. A cell that is filled again keeps its place. -/
def insert (table : Table) (entry : Entry) : Table :=
  if (table.rules entry.nonterminal entry.kind).isSome then
    ⟨table.entries.map fun e =>
      if e.nonterminal = entry.nonterminal ∧ e.kind = entry.kind then entry else e⟩
  else ⟨table.entries ++ [entry]⟩

/-- The table of Klein's rules, row by row. -/
def standard : Table :=
  ⟨Nonterminal.all.flatMap fun nonterminal =>
    columns.filterMap fun kind =>
      (Grammar.rules nonterminal kind).map fun rule => ⟨nonterminal, kind, rule⟩⟩

end Table

/-- What can be wrong with the rows of a table. -/
inductive TableError
  | noHeader
  | invalidKind (e : InvalidKind)
  | invalidNonterminal (text : String)
  | noColumn
  | invalidWord (cell word : String)
deriving DecidableEq, Repr

def TableError.message : TableError → String
  | noHeader => "pop from empty list"
  | invalidKind e => e.message
  | invalidNonterminal text => quoted text ++ " is not a valid NonTerminal"
  | noColumn => "list index out of range"
  | invalidWord cell word => s!"Found invalid value in cell \"{cell}\", specifically \"{word}\""

/-- The rule that a cell writes: its items with one space between them, or `None` for no item. -/
def parseCell (cell : String) : Except TableError (List Item) :=
  if cell == "None" then .ok []
  else
    (split ' ' cell).mapM fun word =>
      match Item.ofName? word with
      | some item => .ok item
      | none => .error (.invalidWord cell word)

/-- Fill the cells of one row. Every cell needs a column, and an empty cell is left out. -/
def fillRow (nonterminal : Nonterminal) : Table → List Kind → List String → Except TableError Table
  | table, _, [] => .ok table
  | _, [], _ :: _ => .error .noColumn
  | table, kind :: kinds, cell :: cells =>
    if cell == "" then fillRow nonterminal table kinds cells
    else do
      let rule ← parseCell cell
      fillRow nonterminal (table.insert ⟨nonterminal, kind, rule⟩) kinds cells

/-- The cells of a row: the parts between commas, without blanks at the ends of the row. -/
def rowCells (row : String) : List String :=
  split ',' (String.ofList (trim row.toList))

/-- The kind that heads a column. -/
def columnKind (text : String) : Except TableError Kind :=
  match Kind.ofName text with
  | .ok kind => .ok kind
  | .error e => .error (.invalidKind e)

/-- The table that rows of cells write. The first row holds the kinds of the columns, and each
    further row a nonterminal and its rules. -/
def Table.ofRows (rows : List String) : Except TableError Table := do
  match rows.map rowCells with
  | [] => .error .noHeader
  | header :: rest =>
    let kinds ← header.tail.mapM columnKind
    rest.foldlM
      (fun table cells => do
        match Nonterminal.ofName? (cells.headD "") with
        | some nonterminal => fillRow nonterminal table kinds cells.tail
        | none => .error (.invalidNonterminal (cells.headD "")))
      {}

/-- A member of a named family with its name and its word. -/
def memberText (family label word : String) : String :=
  s!"<{family}.{label}: {quoted word}>"

def Item.toString : Item → String
  | .nonterminal n => memberText "NonTerminal" n.label n.name
  | .token k => memberText "TokenType" k.label k.name
  | .action a => memberText "SemanticAction" (a.name.map Char.toUpper) a.name

def Entry.toString (e : Entry) : String :=
  let key := "(" ++ (Item.nonterminal e.nonterminal).toString ++ ", " ++ (Item.token e.kind).toString ++ ")"
  key ++ ": [" ++ join ", " (e.rule.map Item.toString) ++ "]"

/-- The rules of a table on one line. -/
def Table.toString (table : Table) : String :=
  "\x7b" ++ join ", " (table.entries.map Entry.toString) ++ "\x7d"

end Klein.Grammar
