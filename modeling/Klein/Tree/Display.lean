import Klein.Tree.Outline

namespace Klein

open Text

/-- A line that is written while a tree is walked, with the number of nodes from the start of the
    walk down to the one that writes it. -/
structure Written where
  depth : Nat
  line : String
deriving DecidableEq, Repr

/-- An operand with its name: on one line if it is a leaf, and otherwise the name with the lines of
    the operand below it. -/
def Expr.displaySide (i : Indent) (depth : Nat) (name : String) (e : Expr) (below : List Written) :
    List Written :=
  if e.isLeaf then [⟨depth, (i.deeper 1).line (name ++ " " ++ e.title)⟩]
  else ⟨depth, (i.deeper 1).line name⟩ :: below

mutual

/-- The lines that a walk down an expression writes. -/
def Expr.display (i : Indent) (depth : Nat) : Expr → List Written
  | .integer tag text => [⟨depth, i.line (Expr.integer tag text).title⟩]
  | .boolean tag text => [⟨depth, i.line (Expr.boolean tag text).title⟩]
  | .identifier tag name => [⟨depth, i.line (Expr.identifier tag name).title⟩]
  | .unary tag op value =>
    ⟨depth, i.line (Expr.unary tag op value).title⟩ ::
      value.displaySide i depth "value" (value.display (i.deeper 2) (depth + 1))
  | .binary tag op left right =>
    ⟨depth, i.line (Expr.binary tag op left right).title⟩ ::
      (left.displaySide i depth "left_side" (left.display (i.deeper 2) (depth + 1)) ++
       right.displaySide i depth "right_side" (right.display (i.deeper 2) (depth + 1)))
  | .conditional tag condition consequent alternative =>
    ⟨depth, i.line (Expr.conditional tag condition consequent alternative).title⟩ ::
      (⟨depth, (i.deeper 1).line "condition"⟩ :: condition.display (i.deeper 2) (depth + 1) ++
       ⟨depth, (i.deeper 1).line "consequent"⟩ :: consequent.display (i.deeper 2) (depth + 1) ++
       ⟨depth, (i.deeper 1).line "alternative"⟩ :: alternative.display (i.deeper 2) (depth + 1))
  | .call _ callee _ arguments =>
    ⟨depth, i.line "function call"⟩ :: ⟨depth, (i.deeper 1).line ("name " ++ callee)⟩ ::
      arguments.display (i.deeper 1) (depth + 1)

/-- The lines for a list of arguments, with a heading unless it is empty. -/
def Arguments.display (i : Indent) (depth : Nat) : Arguments → List Written
  | .nil => []
  | .cons _ value rest =>
    ⟨depth, i.line "arguments"⟩ ::
      (value.display (i.deeper 1) (depth + 2) ++ rest.displayEach (i.deeper 1) (depth + 2))

/-- The lines for each of some arguments. -/
def Arguments.displayEach (i : Indent) (depth : Nat) : Arguments → List Written
  | .nil => []
  | .cons _ value rest => value.display i depth ++ rest.displayEach i depth

end

def Parameter.display (i : Indent) (depth : Nat) (p : Parameter) : List Written :=
  [⟨depth, i.line (p.type.base.toString ++ " " ++ p.name)⟩]

def ParameterList.display (i : Indent) (depth : Nat) (l : ParameterList) : List Written :=
  l.items.flatMap (Parameter.display i (depth + 1))

def Body.display (i : Indent) (depth : Nat) (b : Body) : List Written :=
  (b.prints.flatMap fun c => c.toExpr.display i (depth + 1)) ++ b.result.display i (depth + 1)

def Definition.display (i : Indent) (depth : Nat) (d : Definition) : List Written :=
  [⟨depth, i.line Form.definition.name⟩, ⟨depth, (i.deeper 1).line ("name " ++ d.name)⟩,
    ⟨depth, (i.deeper 1).line "parameters"⟩] ++
  d.parameters.display (i.deeper 2) (depth + 1) ++
  [⟨depth, (i.deeper 1).line ("returns " ++ d.returnType.base.toString)⟩,
    ⟨depth, (i.deeper 1).line "body"⟩] ++
  d.body.display (i.deeper 2) (depth + 1)

def displayDefinitions (i : Indent) (depth : Nat) (items : List Definition) : List Written :=
  items.flatMap (Definition.display i (depth + 1))

/-- The lines that a walk down a node writes, in order. A type cannot be shown on its own. -/
def Node.display (i : Indent) (node : Node) : Except NotShown (List Written) :=
  match node with
  | program p =>
    .ok (⟨1, i.line Form.program.name⟩ :: displayDefinitions (i.deeper 1) 2 p.definitions)
  | definitionList items => .ok (displayDefinitions i 1 items)
  | definition d => .ok (d.display i 1)
  | parameterList l => .ok (l.display i 1)
  | parameter p => .ok (p.display i 1)
  | type _ => .error ⟨node⟩
  | body b => .ok (b.display i 1)
  | expr e => .ok (e.display i 1)
  | argumentList l => .ok (l.items.display i 1)
  | argument a => .ok (a.value.display i 2)

/-- Written lines as one text. -/
def writtenText (lines : List Written) : String :=
  String.join (lines.map fun w => w.line ++ "\n")

end Klein
