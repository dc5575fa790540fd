import Klein.Tree.Form

namespace Klein

/-- A node in the listing of a tree: its depth, its title and its tag. -/
structure Listed where
  depth : Nat
  title : String
  tag : Tag

/-- A name in the listing. It carries no tag. -/
def listName (depth : Nat) (name : String) : Listed :=
  ⟨depth, (Expr.identifier none name).title, none⟩

mutual

/-- The nodes of an expression, each before those below it. -/
def Expr.listing (depth : Nat) : Expr → List Listed
  | .integer tag text => [⟨depth, (Expr.integer tag text).title, tag⟩]
  | .boolean tag text => [⟨depth, (Expr.boolean tag text).title, tag⟩]
  | .identifier tag name => [⟨depth, (Expr.identifier tag name).title, tag⟩]
  | .unary tag op value => ⟨depth, op.formName, tag⟩ :: value.listing (depth + 1)
  | .binary tag op left right =>
    ⟨depth, op.formName, tag⟩ :: (left.listing (depth + 1) ++ right.listing (depth + 1))
  | .conditional tag condition consequent alternative =>
    ⟨depth, Form.conditional.name, tag⟩ ::
      (condition.listing (depth + 1) ++ consequent.listing (depth + 1) ++
        alternative.listing (depth + 1))
  | .call tag callee listTag arguments =>
    ⟨depth, Form.call.name, tag⟩ :: listName (depth + 1) callee ::
      ⟨depth + 1, Form.argumentList.name, listTag⟩ :: arguments.listing (depth + 2)

def Arguments.listing (depth : Nat) : Arguments → List Listed
  | .nil => []
  | .cons tag value rest =>
    ⟨depth, Form.argument.name, tag⟩ :: (value.listing (depth + 1) ++ rest.listing depth)

end

def TypeNode.listing (depth : Nat) (t : TypeNode) : List Listed :=
  [⟨depth, t.base.toString, t.tag⟩]

def Parameter.listing (depth : Nat) (p : Parameter) : List Listed :=
  ⟨depth, Form.parameter.name, p.tag⟩ :: listName (depth + 1) p.name :: p.type.listing (depth + 1)

def ParameterList.listing (depth : Nat) (l : ParameterList) : List Listed :=
  ⟨depth, Form.parameterList.name, l.tag⟩ :: l.items.flatMap (Parameter.listing (depth + 1))

def ArgumentList.listing (depth : Nat) (l : ArgumentList) : List Listed :=
  ⟨depth, Form.argumentList.name, l.tag⟩ :: l.items.listing (depth + 1)

def Argument.listing (depth : Nat) (a : Argument) : List Listed :=
  ⟨depth, Form.argument.name, a.tag⟩ :: a.value.listing (depth + 1)

def Body.listing (depth : Nat) (b : Body) : List Listed :=
  ⟨depth, Form.body.name, b.tag⟩ ::
    ((b.prints.flatMap fun c => c.toExpr.listing (depth + 1)) ++ b.result.listing (depth + 1))

def Definition.listing (depth : Nat) (d : Definition) : List Listed :=
  ⟨depth, Form.definition.name, d.tag⟩ :: listName (depth + 1) d.name ::
    (d.parameters.listing (depth + 1) ++ d.returnType.listing (depth + 1) ++
      d.body.listing (depth + 1))

def listDefinitions (depth : Nat) (items : List Definition) : List Listed :=
  ⟨depth, Form.definitionList.name, none⟩ :: items.flatMap (Definition.listing (depth + 1))

/-- The nodes of a tree from a node down, each before those below it, in the order in which they
    are written. -/
def Node.listing : Node → List Listed
  | .program p => ⟨0, Form.program.name, none⟩ :: listDefinitions 1 p.definitions
  | .definitionList items => listDefinitions 0 items
  | .definition d => d.listing 0
  | .parameterList l => l.listing 0
  | .parameter p => p.listing 0
  | .type t => t.listing 0
  | .body b => b.listing 0
  | .expr e => e.listing 0
  | .argumentList l => l.listing 0
  | .argument a => a.listing 0

end Klein
