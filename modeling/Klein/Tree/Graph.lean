import Klein.Tree.Outline

namespace Klein

open Text

mutual

/-- A drawing of a tree: labelled points, each with branches to the points below it. -/
inductive Sketch
  | point (label : String) (branches : Branches)

/-- The branches of a point in order, labelled or not. -/
inductive Branches
  | nil
  | cons (label : Option String) (target : Sketch) (rest : Branches)

end

def Branches.ofList : List (Option String × Sketch) → Branches
  | [] => nil
  | (label, target) :: rest => cons label target (ofList rest)

/-- A point with branches that have no labels. -/
def Sketch.over (label : String) (targets : List Sketch) : Sketch :=
  .point label (.ofList (targets.map fun target => (none, target)))

mutual

def Expr.sketch : Expr → Sketch
  | .integer tag text => .point (Expr.integer tag text).title .nil
  | .boolean tag text => .point (Expr.boolean tag text).title .nil
  | .identifier tag name => .point (Expr.identifier tag name).title .nil
  | .unary tag op value => .point (Expr.unary tag op value).title (.cons none value.sketch .nil)
  | .binary tag op left right =>
    .point (Expr.binary tag op left right).title
      (.cons (some "left_side") left.sketch (.cons (some "right_side") right.sketch .nil))
  | .conditional tag condition consequent alternative =>
    .point (Expr.conditional tag condition consequent alternative).title
      (.cons (some "condition") condition.sketch
        (.cons (some "consequent") consequent.sketch
          (.cons (some "alternative") alternative.sketch .nil)))
  | .call tag callee listTag arguments =>
    .point ((Expr.call tag callee listTag arguments).title ++ "\n" ++ callee)
      (.cons none (.point Form.argumentList.name arguments.branches) .nil)

def Arguments.branches : Arguments → Branches
  | .nil => .nil
  | .cons _ value rest =>
    .cons none (.point Form.argument.name (.cons none value.sketch .nil)) rest.branches

end

def Parameter.sketch (p : Parameter) : Sketch :=
  .point ("name " ++ p.name ++ "\ntype " ++ p.type.base.toString) .nil

def ParameterList.sketch (l : ParameterList) : Sketch :=
  .over Form.parameterList.name (l.items.map Parameter.sketch)

def Body.sketch (b : Body) : Sketch :=
  .over Form.body.name ((b.prints.map fun c => c.toExpr.sketch) ++ [b.result.sketch])

def Definition.sketch (d : Definition) : Sketch :=
  .point
    (Form.definition.name ++ "\nname " ++ d.name ++ "\nreturns " ++ d.returnType.base.toString)
    (.cons (some "parameters") d.parameters.sketch (.cons (some "body") d.body.sketch .nil))

def sketchDefinitions (items : List Definition) : Sketch :=
  .over Form.definitionList.name (items.map Definition.sketch)

/-- The drawing of a node. A type cannot be shown on its own. -/
def Node.sketch (node : Node) : Except NotShown Sketch :=
  match node with
  | program p => .ok (.over node.title [sketchDefinitions p.definitions])
  | definitionList items => .ok (sketchDefinitions items)
  | definition d => .ok d.sketch
  | parameterList l => .ok l.sketch
  | parameter p => .ok p.sketch
  | type _ => .error ⟨node⟩
  | body b => .ok b.sketch
  | expr e => .ok e.sketch
  | argumentList l => .ok (.point node.title l.items.branches)
  | argument a => .ok (.over node.title [a.value.sketch])

/-- A statement of a graph over points that are told apart by what is given for each. -/
inductive Statement (ι : Type)
  | point (id : ι) (label : String)
  | branch (source target : ι) (label : Option String)
deriving DecidableEq, Repr

/-- A statement in the notation for graphs, with the names of the points. -/
def Statement.toString {ι : Type} (name : ι → String) : Statement ι → String
  | point id label => name id ++ " [label = \"" ++ label ++ "\"]"
  | branch source target none => name source ++ " -> " ++ name target
  | branch source target (some label) =>
    name source ++ " -> " ++ name target ++ " [label = \"" ++ label ++ "\"]"

mutual

/-- The statements for a drawing whose first point has the given number, and the next free number.
    A branch is stated right before the point that it leads to. -/
def Sketch.statements (id : Nat) : Sketch → List (Statement Nat) × Nat
  | .point label branches =>
    let (below, next) := branches.statements id (id + 1)
    (.point id label :: below, next)

def Branches.statements (source next : Nat) : Branches → List (Statement Nat) × Nat
  | .nil => ([], next)
  | .cons label target rest =>
    let (here, next') := target.statements next
    let (others, last) := rest.statements source next'
    (.branch source next label :: here ++ others, last)

end

mutual

/-- How deep a walk down a drawing has come when it makes each of its statements, if the first one
    is made at the given depth. A branch and the point below it are one step down each. -/
def Sketch.depths (depth : Nat) : Sketch → List Nat
  | .point _ branches => depth :: branches.depths (depth + 1)

def Branches.depths (depth : Nat) : Branches → List Nat
  | .nil => []
  | .cons _ target rest => depth :: target.depths (depth + 1) ++ rest.depths depth

end

def graphOpening : String := "digraph ast \x7b\n"

def graphClosing : String := "\x7d\n"

/-- A drawing as the text of a graph. Points are numbered from zero in the order in which they are
    stated. -/
def Sketch.graph (name : Nat → String) (sketch : Sketch) : String :=
  graphOpening ++ String.join ((sketch.statements 0).1.map fun s => s.toString name ++ "\n") ++
    graphClosing

end Klein
