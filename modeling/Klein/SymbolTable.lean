import Klein.Ty
import Klein.Index

namespace Klein

open Text

/-- What a symbol stands for. -/
inductive SymbolKind
  | localName
  | parameter
  | global
deriving DecidableEq, Repr

/-- The names of a set in order, with one more. -/
def insertName (name : String) : List String → List String
  | [] => [name]
  | other :: rest =>
    if name < other then name :: other :: rest
    else if name = other then other :: rest
    else other :: insertName name rest

/-- The names of a list in order, each once. -/
def sortedNames (names : List String) : List String :=
  names.foldl (fun sorted name => insertName name sorted) []

/-- A symbol with its type. A function's symbol has its parameters too, and the names of the
    functions that it calls and of those that call it, in order. -/
structure Symbol where
  name : String
  kind : SymbolKind
  type : Ty
  parameters : List (String × Ty) := []
  calls : List String := []
  callers : List String := []
deriving Repr

namespace Symbol

def addCall (s : Symbol) (callee : String) : Symbol :=
  { s with calls := insertName callee s.calls }

def addCaller (s : Symbol) (caller : String) : Symbol :=
  { s with callers := insertName caller s.callers }

def toString (s : Symbol) : String :=
  let parameters := join ", " (s.parameters.map fun (name, type) => name ++ ": " ++ type.toString)
  let row (title text : String) (shown : Bool) : List String :=
    if shown then ["\t" ++ title ++ " = " ++ text] else []
  join "\n"
    (s.name :: ("\tsymbol_type = " ++ s.type.toString) ::
      (row "parameters" parameters (!s.parameters.isEmpty) ++
       row "functions it calls" (join ", " s.calls) (!s.calls.isEmpty) ++
       row "functions that call it" (join ", " s.callers) (!s.callers.isEmpty)))

end Symbol

/-- The symbols bound in one scope, in the order in which they were bound. -/
abbrev Scope := List (String × Symbol)

/-- The scopes that are open, the innermost first. -/
structure SymbolTable where
  scopes : List Scope := [[]]
deriving Repr

/-- Why a symbol table refuses an operation. -/
inductive SymbolError
  | noScopeToExit
  | noCurrentScope
  | alreadyBound (name : String)
  | unknownCallee (caller callee : String)
deriving DecidableEq, Repr

def SymbolError.message : SymbolError → String
  | noScopeToExit => "pop from empty list"
  | noCurrentScope => "list index out of range"
  | alreadyBound name => s!"Duplicated symbol {name}"
  | unknownCallee caller callee =>
    s!"Trying to update backreference from {caller} to non-existant function {callee}"

namespace SymbolTable

def level (t : SymbolTable) : Nat :=
  t.scopes.length

def enter (t : SymbolTable) : SymbolTable :=
  ⟨[] :: t.scopes⟩

/-- Leave the innermost scope, if there is one. -/
def leave (t : SymbolTable) : SymbolTable :=
  ⟨t.scopes.tail⟩

def exit (t : SymbolTable) : Except SymbolError SymbolTable :=
  if t.scopes.isEmpty then .error .noScopeToExit else .ok t.leave

/-- The symbol bound to a name in the innermost scope that binds it. -/
def lookup (t : SymbolTable) (name : String) : Option Symbol :=
  t.scopes.findSome? fun scope => scope.lookup name

/-- The symbol bound to a name in the innermost scope. -/
def lookupCurrent (t : SymbolTable) (name : String) : Except SymbolError (Option Symbol) :=
  match t.scopes with
  | [] => .error .noCurrentScope
  | scope :: _ => .ok (scope.lookup name)

/-- Bind a name in the innermost scope. A name is bound only once there. -/
def bind (t : SymbolTable) (name : String) (symbol : Symbol) : Except SymbolError SymbolTable :=
  match t.scopes with
  | [] => .error .noCurrentScope
  | scope :: rest =>
    if (scope.lookup name).isSome then .error (.alreadyBound name)
    else .ok ⟨(scope ++ [(name, symbol)]) :: rest⟩

/-- The keys of a scope by its index, the outermost scope first. -/
def keysAt (t : SymbolTable) (index : Int) : Except IndexError (List String) :=
  (elementAt "list" "int" t.scopes.reverse index).map fun scope => scope.map Prod.fst

/-- All symbols, those of outer scopes first, and those of one scope in the order of binding. -/
def symbols (t : SymbolTable) : List Symbol :=
  t.scopes.reverse.flatMap fun scope => scope.map Prod.snd

/-- Change the symbol of a key where a scope binds it. -/
def modifyScope (key : String) (f : Symbol → Symbol) (scope : Scope) : Scope :=
  scope.map fun (k, s) => if k = key then (k, f s) else (k, s)

/-- Change the symbol of a key in the innermost of some scopes that binds it. -/
def modifyScopes (key : String) (f : Symbol → Symbol) : List Scope → List Scope
  | [] => []
  | scope :: rest =>
    if (scope.lookup key).isSome then modifyScope key f scope :: rest
    else scope :: modifyScopes key f rest

/-- Change the symbol that a name stands for. -/
def modify (t : SymbolTable) (name : String) (f : Symbol → Symbol) : SymbolTable :=
  ⟨modifyScopes name f t.scopes⟩

/-- Enter a caller into the symbols of the functions that it calls. -/
def addCallers (t : SymbolTable) (caller : String) :
    List String → SymbolTable × Option SymbolError
  | [] => (t, none)
  | callee :: rest =>
    if (t.lookup callee).isNone then (t, some (.unknownCallee caller callee))
    else addCallers (t.modify callee (·.addCaller caller)) caller rest

/-- Enter the callers of all functions, as far as the functions that are called exist. -/
def updateCallersOf (t : SymbolTable) : List Symbol → SymbolTable × Option SymbolError
  | [] => (t, none)
  | symbol :: rest =>
    match t.addCallers symbol.name symbol.calls with
    | (t, none) => t.updateCallersOf rest
    | (t, some e) => (t, some e)

def updateCallers (t : SymbolTable) : SymbolTable × Option SymbolError :=
  t.updateCallersOf t.symbols

/-- The texts of the symbols, with an empty line before each scope but the outermost. -/
def toString (t : SymbolTable) : String :=
  let scopeLines (scope : Scope) : List String := scope.map fun (_, symbol) => symbol.toString
  match t.scopes.reverse with
  | [] => ""
  | outermost :: inner => join "\n" (scopeLines outermost ++ inner.flatMap fun s => "" :: scopeLines s)

end SymbolTable

end Klein
