import Klein.Analysis.Issue
import Klein.SymbolTable

namespace Klein.Analysis

/-- Why an analysis cannot go on. -/
inductive Fault
  | unboundFunction (name : String)
  | identifierOutsideFunction
  | callOutsideFunction
  | symbol (e : SymbolError)
deriving DecidableEq, Repr

def Fault.message : Fault → String
  | unboundFunction name => s!"Inside of unbound function {name}"
  | identifierOutsideFunction => "Referenced identifier without being in a context"
  | callOutsideFunction => "Called a function without being in a context"
  | symbol e => e.message

/-- What an expression is checked in: the meaning of names, the function it stands in for
    diagnostics, and whether uses and calls of names can be noted. -/
structure Env where
  resolve : String → Option Symbol
  place : Option String
  inFunction : Bool

/-- What checking a part of a program brings to light: issues, the names that are used and the
    functions that are called, in the order in which they were met, and a fault if one ended it. -/
structure Findings where
  issues : List Issue := []
  used : List String := []
  calls : List String := []
  fault : Option Fault := none

namespace Findings

def ofIssue (issue : Issue) : Findings :=
  { issues := [issue] }

/-- Findings of two parts, one checked after the other. After a fault nothing more is checked. -/
def append (first second : Findings) : Findings :=
  if first.fault.isSome then first
  else
    { issues := first.issues ++ second.issues
      used := first.used ++ second.used
      calls := first.calls ++ second.calls
      fault := second.fault }

instance : Append Findings := ⟨append⟩

end Findings

/-- A part of a program after it has been checked: the part with its tags, the annotation it came
    to, and what was found. The annotation counts only if there was no fault. -/
structure Checked (α : Type) where
  tree : α
  type : Ty
  findings : Findings

/-- A part that is checked after another one, and left as it was if that one ended in a fault. -/
def Checked.after {α : Type} (checked : Checked α) (old : α) (before : Findings) : Checked α :=
  if before.fault.isSome then { checked with tree := old, findings := before }
  else { checked with findings := before ++ checked.findings }

/-- The annotation of a node and the issues of its own, from those of its parts. -/
structure Verdict where
  type : Ty
  findings : Findings := {}

/-- Give a node its annotation once its parts have been checked. After a fault it keeps its tag. -/
def conclude {α : Type} (old : Tag) (build : Tag → α) (before : Findings) (verdict : Verdict) :
    Checked α :=
  let findings := before ++ verdict.findings
  ⟨build (if findings.fault.isSome then old else some verdict.type), verdict.type, findings⟩

/-- A node with an issue gets the error annotation. -/
def Verdict.wrong (issue : Issue) : Verdict :=
  ⟨.error, .ofIssue issue⟩

/-- The verdict on an operator whose operands have to agree with one annotation. The first operand
    that does not is the issue. -/
def judgeOperands (place : Option String) (form : Form) (wanted result : Ty) :
    List (String × Ty) → Verdict
  | [] => ⟨result, {}⟩
  | (operand, found) :: rest =>
    if found.agrees wanted then judgeOperands place form wanted result rest
    else .wrong (.wrongOperand place operand form wanted found)

def judgeUnary (place : Option String) (op : UnaryOp) (value : Ty) : Verdict :=
  match op with
  | .minus => judgeOperands place (.unaryOp op) .integer .integer [("value", value)]
  | .not => judgeOperands place (.unaryOp op) .boolean .boolean [("value", value)]

def judgeBinary (place : Option String) (op : BinaryOp) (left right : Ty) : Verdict :=
  let operands := [("left side", left), ("right side", right)]
  match op with
  | .plus | .minus | .times | .divide =>
    judgeOperands place (.binaryOp op) .integer .integer operands
  | .lessThan => judgeOperands place (.binaryOp op) .integer .boolean operands
  | .and | .or => judgeOperands place (.binaryOp op) .boolean .boolean operands
  | .equals => ⟨if left.agrees .error || right.agrees .error then .error else .boolean, {}⟩

/-- A conditional has the annotation of its branches if they agree, and offers both otherwise. -/
def judgeConditional (place : Option String) (condition consequent alternative : Ty) :
    Verdict :=
  let result := if consequent.agrees alternative then consequent else .union [consequent, alternative]
  judgeOperands place .conditional .boolean result [("condition", condition)]

def judgeIdentifier (env : Env) (name : String) : Verdict :=
  match env.resolve name with
  | none => .wrong (.missingIdentifier env.place name)
  | some symbol =>
    match symbol.type with
    | .function .. => .wrong (.functionAsIdentifier env.place symbol.name)
    | type =>
      if env.inFunction then ⟨type, { used := [name] }⟩
      else ⟨type, { fault := some .identifierOutsideFunction }⟩

/-- The verdict on the arguments of a call against the parameters of the function. -/
def judgeArguments (place : Option String) (callee : String) (wanted found : List Ty)
    (result : Ty) : Verdict :=
  if (Ty.sequence found).agrees (.sequence wanted) then ⟨result, {}⟩
  else if wanted.length < found.length then
    .wrong (.tooManyArguments place callee wanted.length found.length)
  else if found.length < wanted.length then
    .wrong (.tooFewArguments place callee wanted.length found.length)
  else .wrong (.wrongArguments place callee wanted found)

def judgeCall (env : Env) (callee : String) (found : List Ty) : Verdict :=
  match env.resolve callee with
  | none => .wrong (.missingFunction env.place callee)
  | some symbol =>
    match symbol.type with
    | .function wanted result =>
      if env.inFunction then
        let verdict := judgeArguments env.place callee wanted found result
        { verdict with findings := { calls := [symbol.name] } ++ verdict.findings }
      else ⟨.error, { fault := some .callOutsideFunction }⟩
    | _ => .wrong (.parameterAsFunction env.place callee)

/-- Arguments after they have been checked, with the annotations they came to. -/
structure CheckedArguments where
  tree : Arguments
  types : List Ty
  findings : Findings

mutual

/-- Check an expression: its parts from left to right, and then itself. -/
def checkExpr (env : Env) : Expr → Checked Expr
  | .integer _ text => ⟨.integer (some .integer) text, .integer, {}⟩
  | .boolean _ text => ⟨.boolean (some .boolean) text, .boolean, {}⟩
  | .identifier tag name => conclude tag (.identifier · name) {} (judgeIdentifier env name)
  | .unary tag op value =>
    let v := checkExpr env value
    conclude tag (.unary · op v.tree) v.findings (judgeUnary env.place op v.type)
  | .binary tag op left right =>
    let l := checkExpr env left
    let r := (checkExpr env right).after right l.findings
    conclude tag (.binary · op l.tree r.tree) r.findings (judgeBinary env.place op l.type r.type)
  | .conditional tag condition consequent alternative =>
    let c := checkExpr env condition
    let t := (checkExpr env consequent).after consequent c.findings
    let e := (checkExpr env alternative).after alternative t.findings
    conclude tag (.conditional · c.tree t.tree e.tree) e.findings
      (judgeConditional env.place c.type t.type e.type)
  | .call tag callee listTag arguments =>
    let a := checkArguments env arguments
    let list := if a.findings.fault.isSome then listTag else some (.sequence a.types)
    conclude tag (.call · callee list a.tree) a.findings (judgeCall env callee a.types)

/-- Check arguments from left to right. -/
def checkArguments (env : Env) : Arguments → CheckedArguments
  | .nil => ⟨.nil, [], {}⟩
  | .cons tag value rest =>
    let v := checkExpr env value
    let others := checkArguments env rest
    if v.findings.fault.isSome then ⟨.cons tag v.tree rest, [], v.findings⟩
    else
      ⟨.cons (some v.type) v.tree others.tree, v.type :: others.types,
        v.findings ++ others.findings⟩

end

def checkArgumentList (env : Env) (l : ArgumentList) : Checked ArgumentList :=
  let a := checkArguments env l.items
  conclude l.tag (fun tag => ⟨tag, a.tree⟩) a.findings ⟨.sequence a.types, {}⟩

def checkArgument (env : Env) (a : Argument) : Checked Argument :=
  let v := checkExpr env a.value
  conclude a.tag (fun tag => ⟨tag, v.tree⟩) v.findings ⟨v.type, {}⟩

def checkCall (env : Env) (c : Call) : Checked Call :=
  let a := checkArguments env c.arguments.items
  let list := if a.findings.fault.isSome then c.arguments.tag else some (.sequence a.types)
  conclude c.tag (fun tag => ⟨tag, c.callee, ⟨list, a.tree⟩⟩) a.findings (judgeCall env c.callee a.types)

/-- Calls after they have been checked. -/
structure CheckedCalls where
  tree : List Call
  findings : Findings

def checkCalls (env : Env) : List Call → CheckedCalls
  | [] => ⟨[], {}⟩
  | c :: rest =>
    let v := checkCall env c
    let others := checkCalls env rest
    if v.findings.fault.isSome then ⟨v.tree :: rest, v.findings⟩
    else ⟨v.tree :: others.tree, v.findings ++ others.findings⟩

/-- Check a body: the calls made for their output, and then the expression that is its value. -/
def checkBody (env : Env) (b : Body) : Checked Body :=
  let p := checkCalls env b.prints
  let r := (checkExpr env b.result).after b.result p.findings
  conclude b.tag (fun tag => ⟨tag, p.tree, r.tree⟩) r.findings ⟨r.type, {}⟩

end Klein.Analysis
