import Klein.Analysis.Expr
import Klein.Fault

namespace Klein.Analysis

/-- Whose calls are noted: those of a function in the symbol table, or of none, in which case the
    calls are kept here. -/
inductive Caller
  | function (name : String)
  | detached (calls : List String)
deriving DecidableEq, Repr

/-- The function that is being checked: its parameters, and the names used so far, in order. -/
structure Context where
  caller : Caller
  parameters : List String := []
  used : List String := []
deriving DecidableEq, Repr

/-- The state of an analysis. -/
structure State where
  table : SymbolTable := {}
  issues : List Issue := []
  place : Option String := none
  context : Option Context := none

namespace State

def report (s : State) (issues : List Issue) : State :=
  { s with issues := s.issues ++ issues }

/-- What an expression is checked in at this point. -/
def env (s : State) : Env :=
  { resolve := s.table.lookup, place := s.place, inFunction := s.context.isSome }

/-- Note the calls of a function. -/
def addCalls (s : State) (calls : List String) : State :=
  match s.context with
  | none => s
  | some context =>
    match context.caller with
    | .function name =>
      { s with table := calls.foldl (fun t callee => t.modify name (·.addCall callee)) s.table }
    | .detached before =>
      let caller := .detached (calls.foldl (fun names callee => insertName callee names) before)
      { s with context := some { context with caller } }

/-- Note the names that were used. -/
def addUsed (s : State) (names : List String) : State :=
  { s with context := s.context.map fun context =>
      { context with used := names.foldl (fun used name => insertName name used) context.used } }

/-- The functions that the function being checked calls, as far as they have been noted. -/
def noted (s : State) (context : Context) : List String :=
  match context.caller with
  | .function name => ((s.table.lookup name).map (·.calls)).getD []
  | .detached calls => calls

end State

/-- A part of a program after it has been checked with a state, the state after it, and the fault
    that ended it, if there was one. -/
structure Outcome (α : Type) where
  tree : α
  state : State
  fault : Option Fault := none

def checkType (t : TypeNode) : TypeNode :=
  { t with tag := some t.base.ty }

def checkParameter (p : Parameter) : Parameter :=
  { p with tag := some p.type.base.ty, type := checkType p.type }

/-- Check parameters one after another and bind their names, each name once. -/
def checkParametersFrom (seen : List String) (s : State) : List Parameter → Outcome (List Parameter)
  | [] => ⟨[], s, none⟩
  | p :: rest =>
    if seen.contains p.name then
      let others := checkParametersFrom seen (s.report [.duplicateParameter s.place p.name]) rest
      { others with tree := checkParameter p :: others.tree }
    else
      match s.table.bind p.name ⟨p.name, .parameter, p.type.base.ty, [], [], []⟩ with
      | .error e => ⟨checkParameter p :: rest, s, some (.symbol e)⟩
      | .ok table =>
        let others := checkParametersFrom (p.name :: seen) { s with table } rest
        { others with tree := checkParameter p :: others.tree }

/-- The annotations of parameters in order. -/
def parameterTypes (items : List Parameter) : List Ty :=
  items.map fun p => p.type.base.ty

def checkParameters (s : State) (l : ParameterList) : Outcome ParameterList :=
  let items := checkParametersFrom [] s l.items
  let tag := if items.fault.isSome then l.tag else some (.sequence (parameterTypes l.items))
  ⟨⟨tag, items.tree⟩, items.state, items.fault⟩

/-- Take over what was found in a part that opens no scope. -/
def Checked.outcome {α : Type} (checked : Checked α) (s : State) : Outcome α :=
  let f := checked.findings
  ⟨checked.tree, ((s.report f.issues).addUsed f.used).addCalls f.calls, f.fault⟩

/-- The parameters of a definition that its body did not use, in order. -/
def unusedParameters (parameters used : List String) : List String :=
  (sortedNames parameters).filter fun name => !used.contains name

/-- Check a definition: its parameters in a scope of their own, its body in a scope inside that
    one, and then whether the body comes to the declared type. -/
def checkDefinition (s : State) (d : Definition) : Outcome Definition :=
  if (s.table.lookup d.name).isNone then ⟨d, s, some (.unboundFunction d.name)⟩
  else
    let place := some d.name
    let parameters := checkParameters { s with place, table := s.table.enter } d.parameters
    match parameters.fault with
    | some fault => ⟨{ d with parameters := parameters.tree }, parameters.state, some fault⟩
    | none =>
      let returnType := checkType d.returnType
      let names := d.parameters.items.map (·.name)
      let inside := { parameters.state with
        table := parameters.state.table.enter
        context := some { caller := .function d.name, parameters := names } }
      let body := checkBody inside.env d.body
      let f := body.findings
      match f.fault with
      | some fault => ⟨{ d with parameters := parameters.tree, returnType, body := body.tree },
          ((inside.report f.issues).addUsed f.used), some fault⟩
      | none =>
        let unused := (unusedParameters names f.used).map (Issue.unusedParameter place)
        let wanted := d.returnType.base.ty
        let mismatch :=
          if body.type.agrees wanted then [] else [Issue.wrongResult d.name wanted body.type]
        let left := { inside with table := inside.table.leave.leave }
        let state := (((left.report f.issues).report unused).addUsed f.used).addCalls f.calls
        let tag := some (.function (parameterTypes d.parameters.items) wanted)
        ⟨{ d with tag, parameters := parameters.tree, returnType, body := body.tree },
          state.report mismatch, none⟩

/-- Check definitions one after another, up to the first fault. -/
def checkDefinitions (s : State) : List Definition → Outcome (List Definition)
  | [] => ⟨[], s, none⟩
  | d :: rest =>
    let first := checkDefinition s d
    match first.fault with
    | some fault => ⟨first.tree :: rest, first.state, some fault⟩
    | none =>
      let others := checkDefinitions first.state rest
      { others with tree := first.tree :: others.tree }

/-- Check any node of a tree. -/
def checkNode (s : State) : Node → Outcome Node
  | .program p => wrap (fun items => .program ⟨items⟩) (checkDefinitions s p.definitions)
  | .definitionList items => wrap .definitionList (checkDefinitions s items)
  | .definition d => wrap .definition (checkDefinition s d)
  | .parameterList l => wrap .parameterList (checkParameters s l)
  | .parameter p => ⟨.parameter (checkParameter p), s, none⟩
  | .type t => ⟨.type (checkType t), s, none⟩
  | .body b => wrap .body ((checkBody s.env b).outcome s)
  | .expr e => wrap .expr ((checkExpr s.env e).outcome s)
  | .argumentList l => wrap .argumentList ((checkArgumentList s.env l).outcome s)
  | .argument a => wrap .argument ((checkArgument s.env a).outcome s)
where
  wrap {α : Type} (f : α → Node) (o : Outcome α) : Outcome Node :=
    ⟨f o.tree, o.state, o.fault⟩

/-- The function for output, which every program can call. -/
def printSymbol : Symbol :=
  { name := "print"
    kind := .global
    type := .function [.union [.integer, .boolean]] .empty }

/-- The symbol of a defined function. -/
def functionSymbol (d : Definition) : Symbol :=
  { name := d.name
    kind := .global
    type := .function (parameterTypes d.parameters.items) d.returnType.base.ty
    parameters := d.parameters.items.map fun p => (p.name, p.type.base.ty) }

/-- Bind the names of functions to the signatures of their first definitions. -/
def declareFrom (seen : List String) (s : State) : List Definition → State × Option Fault
  | [] => (if seen.contains "main" then s else s.report [.missingMain], none)
  | d :: rest =>
    if seen.contains d.name then declareFrom seen (s.report [.duplicateFunction d.name]) rest
    else
      match s.table.bind d.name (functionSymbol d) with
      | .error e => (s, some (.symbol e))
      | .ok table => declareFrom (d.name :: seen) { s with table } rest

/-- Bind the names of all functions of a program. -/
def declare (s : State) (p : Program) : State × Option Fault :=
  match s.table.bind printSymbol.name printSymbol with
  | .error e => (s, some (.symbol e))
  | .ok table => declareFrom [] { s with table } p.definitions

/-- Warnings for functions that nobody calls. -/
def unusedFunctions (table : SymbolTable) : List Issue :=
  table.symbols.filterMap fun symbol =>
    if symbol.name = "main" ∨ symbol.name = "print" ∨ !symbol.callers.isEmpty then none
    else some (.unusedFunction symbol.name)

/-- Why an analysis rejects a program. -/
inductive Error
  | fault (f : Fault)
  | issues (count : Nat)
deriving DecidableEq, Repr

def Error.message : Error → String
  | .fault f => f.message
  | .issues count =>
    let noun := if count = 1 then "error" else "errors"
    semanticReport s!"Encountered {count} {noun} when analyzing ast"

/-- A program after its analysis. -/
structure Result where
  program : Program
  state : State
  error : Option Error

def errorCount (issues : List Issue) : Nat :=
  issues.countP Issue.isError

def warningCount (issues : List Issue) : Nat :=
  issues.countP fun issue => !issue.isError

/-- Analyse a program: bind its functions, check its definitions, enter the callers of each
    function, and warn of functions that nobody calls. It is rejected if there is an error. -/
def analyze (p : Program) : Result :=
  match declare {} p with
  | (s, some f) => ⟨p, s, some (.fault f)⟩
  | (s, none) =>
    let checked := checkDefinitions s p.definitions
    let program : Program := ⟨checked.tree⟩
    match checked.fault with
    | some f => ⟨program, checked.state, some (.fault f)⟩
    | none =>
      match checked.state.table.updateCallers with
      | (table, some e) => ⟨program, { checked.state with table }, some (.fault (.symbol e))⟩
      | (table, none) =>
        let state := { checked.state with table }.report (unusedFunctions table)
        let count := errorCount state.issues
        ⟨program, state, if count = 0 then none else some (.issues count)⟩

/-- The issues of an analysis as they are shown to the user. -/
def State.issueText (s : State) : String :=
  String.join (s.issues.map fun issue => issue.report ++ "\n")

end Klein.Analysis
