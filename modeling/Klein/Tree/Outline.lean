import Klein.Tree.Form

namespace Klein

open Text

/-- A node that cannot be shown. -/
structure NotShown where
  node : Node

def NotShown.message (e : NotShown) : String :=
  s!"Node of type {e.node.title} has not yet been implemented"

/-- How an outline is indented: the text that is repeated, and the level that it starts at. -/
structure Indent where
  level : Int := 0
  spacer : String := "  "

namespace Indent

def deeper (i : Indent) (levels : Int) : Indent :=
  { i with level := i.level + levels }

/-- A line at this level. -/
def line (i : Indent) (text : String) : String :=
  copies i.level i.spacer ++ text

@[simp]
theorem deeper_deeper (i : Indent) (levels more : Int) :
    (i.deeper levels).deeper more = i.deeper (levels + more) := by
  simp [deeper, Int.add_assoc]

end Indent

mutual

/-- The lines of the outline of an expression. -/
def Expr.outline (i : Indent) : Expr → List String
  | .integer tag text => [i.line (Expr.integer tag text).title]
  | .boolean tag text => [i.line (Expr.boolean tag text).title]
  | .identifier tag name => [i.line (Expr.identifier tag name).title]
  | .unary tag op value =>
    i.line (Expr.unary tag op value).title ::
      (if value.isLeaf then [(i.deeper 1).line ("value " ++ value.title)]
       else (i.deeper 1).line "value" :: value.outline (i.deeper 2))
  | .binary tag op left right =>
    i.line (Expr.binary tag op left right).title ::
      ((if left.isLeaf then [(i.deeper 1).line ("left_side " ++ left.title)]
        else (i.deeper 1).line "left_side" :: left.outline (i.deeper 2)) ++
       (if right.isLeaf then [(i.deeper 1).line ("right_side " ++ right.title)]
        else (i.deeper 1).line "right_side" :: right.outline (i.deeper 2)))
  | .conditional tag condition consequent alternative =>
    i.line (Expr.conditional tag condition consequent alternative).title ::
      ((i.deeper 1).line "condition" :: condition.outline (i.deeper 2) ++
       (i.deeper 1).line "consequent" :: consequent.outline (i.deeper 2) ++
       (i.deeper 1).line "alternative" :: alternative.outline (i.deeper 2))
  | .call _ callee _ arguments =>
    i.line "function call" :: (i.deeper 1).line ("name " ++ callee) ::
      match arguments with
      | .nil => []
      | .cons tag value rest =>
        (i.deeper 1).line "arguments" :: (Arguments.cons tag value rest).outline (i.deeper 2)

/-- The lines of the outlines of arguments. -/
def Arguments.outline (i : Indent) : Arguments → List String
  | .nil => []
  | .cons _ value rest => value.outline i ++ rest.outline i

end

/-- The lines for a list of arguments. An empty list has no outline. -/
def ArgumentList.outline? (i : Indent) (l : ArgumentList) : Option (List String) :=
  match l.items with
  | .nil => none
  | items => some (i.line "arguments" :: items.outline (i.deeper 1))

def Parameter.outline (i : Indent) (p : Parameter) : List String :=
  [i.line (p.type.base.toString ++ " " ++ p.name)]

def Body.outline (i : Indent) (b : Body) : List String :=
  (b.prints.flatMap fun c => c.toExpr.outline i) ++ b.result.outline i

def Definition.outline (i : Indent) (d : Definition) : List String :=
  i.line (Node.definition d).title :: (i.deeper 1).line ("name " ++ d.name) ::
    (i.deeper 1).line "parameters" ::
    d.parameters.items.flatMap (Parameter.outline (i.deeper 2)) ++
    (i.deeper 1).line ("returns " ++ d.returnType.base.toString) ::
    (i.deeper 1).line "body" :: d.body.outline (i.deeper 2)

/-- The lines of the outline of a node. There are none for an empty list of arguments, and a type
    cannot be shown on its own. -/
def Node.outline? (i : Indent) (node : Node) : Except NotShown (Option (List String)) :=
  match node with
  | program p =>
    .ok (some (i.line node.title :: p.definitions.flatMap (Definition.outline (i.deeper 1))))
  | definitionList items => .ok (some (items.flatMap (Definition.outline i)))
  | definition d => .ok (some (d.outline i))
  | parameterList l => .ok (some (l.items.flatMap (Parameter.outline i)))
  | parameter p => .ok (some (p.outline i))
  | type _ => .error ⟨node⟩
  | body b => .ok (some (b.outline i))
  | expr e => .ok (some (e.outline i))
  | argumentList l => .ok (l.outline? i)
  | argument a => .ok (some (a.value.outline i))

/-- The outline of a node as one text. -/
def Node.text (i : Indent) (node : Node) : Except NotShown (Option String) :=
  (node.outline? i).map fun lines => lines.map (join "\n")

end Klein
