import Klein.Index
import Klein.Tree.Form

namespace Klein

/-- What a part of a node holds: one node, or several. -/
inductive Part
  | one (node : Node)
  | many (nodes : List Node)

/-- An identifier where it only names something. -/
def nameNode (name : String) : Node :=
  .expr (.identifier none name)

namespace Node

/-- The parts of an expression by name. -/
def exprParts : Expr → List (String × Part)
  | .unary _ _ value => [("value", .one (.expr value))]
  | .binary _ _ left right => [("left_side", .one (.expr left)), ("right_side", .one (.expr right))]
  | .conditional _ condition consequent alternative =>
    [("condition", .one (.expr condition)), ("consequent", .one (.expr consequent)),
     ("alternative", .one (.expr alternative))]
  | .call _ callee listTag arguments =>
    [("function_name", .one (nameNode callee)),
     ("argument_list", .one (.argumentList ⟨listTag, arguments⟩))]
  | _ => []

/-- The parts of a node by name, in the order in which they are written. -/
def parts : Node → List (String × Part)
  | program p => [("definition_list", .one (.definitionList p.definitions))]
  | definitionList items => [("definitions", .many (items.map .definition))]
  | definition d =>
    [("name", .one (nameNode d.name)), ("parameters", .one (.parameterList d.parameters)),
     ("return_type", .one (.type d.returnType)), ("body", .one (.body d.body))]
  | parameterList l => [("parameters", .many (l.items.map .parameter))]
  | parameter p => [("name", .one (nameNode p.name)), ("type", .one (.type p.type))]
  | body b =>
    [("print_expressions", .many (b.prints.map fun c => .expr c.toExpr)),
     ("body", .one (.expr b.result))]
  | expr e => exprParts e
  | argumentList l => [("arguments", .many (l.items.toList.map .argument))]
  | argument a => [("value", .one (.expr a.value))]
  | type _ => []

end Node

/-- A step from a node to one below it: a part of a node, or one of several nodes. -/
inductive PathStep
  | part (name : String)
  | index (i : Int)
deriving DecidableEq, Repr

/-- Why a path leads nowhere. -/
inductive PathError
  | noPart (form name : String)
  | index (e : IndexError)
  | notOne
deriving DecidableEq, Repr

def PathError.message : PathError → String
  | noPart form name => s!"'{form}' object has no attribute '{name}'"
  | index e => e.message
  | notOne => "the path does not lead to one node"

def Part.step : Part → PathStep → Except PathError Part
  | one node, .part name =>
    match node.parts.lookup name with
    | some part => .ok part
    | none => .error (.noPart node.form.name name)
  | one _, .index _ => .error .notOne
  | many _, .part name => .error (.noPart "tuple" name)
  | many nodes, .index i =>
    match elementAt "tuple" "int" nodes i with
    | .ok node => .ok (one node)
    | .error e => .error (.index e)

/-- The node to which a path leads. -/
def Node.follow (node : Node) (path : List PathStep) : Except PathError Node := do
  match ← path.foldlM Part.step (.one node) with
  | .one node => return node
  | .many _ => throw .notOne

end Klein
