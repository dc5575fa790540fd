import Klein.Tree.Form

namespace Klein

/-- Two tags are alike if both are absent, or if both are there and agree. -/
def tagsAlike : Tag → Tag → Bool
  | none, none => true
  | some a, some b => a.agrees b
  | _, _ => false

mutual

/-- Two expressions have the same shape and the same values, and their tags are alike. -/
def Expr.alike : Expr → Expr → Bool
  | .integer tag text, e =>
    match e with
    | .integer tag' text' => tagsAlike tag tag' && text == text'
    | _ => false
  | .boolean tag text, e =>
    match e with
    | .boolean tag' text' => tagsAlike tag tag' && text == text'
    | _ => false
  | .identifier tag name, e =>
    match e with
    | .identifier tag' name' => tagsAlike tag tag' && name == name'
    | _ => false
  | .unary tag op value, e =>
    match e with
    | .unary tag' op' value' => tagsAlike tag tag' && decide (op = op') && value.alike value'
    | _ => false
  | .binary tag op left right, e =>
    match e with
    | .binary tag' op' left' right' =>
      tagsAlike tag tag' && decide (op = op') && left.alike left' && right.alike right'
    | _ => false
  | .conditional tag condition consequent alternative, e =>
    match e with
    | .conditional tag' condition' consequent' alternative' =>
      tagsAlike tag tag' && condition.alike condition' && consequent.alike consequent' &&
        alternative.alike alternative'
    | _ => false
  | .call tag callee listTag arguments, e =>
    match e with
    | .call tag' callee' listTag' arguments' =>
      tagsAlike tag tag' && callee == callee' && tagsAlike listTag listTag' &&
        arguments.alike arguments'
    | _ => false

def Arguments.alike : Arguments → Arguments → Bool
  | .nil, l =>
    match l with
    | .nil => true
    | _ => false
  | .cons tag value rest, l =>
    match l with
    | .cons tag' value' rest' => tagsAlike tag tag' && value.alike value' && rest.alike rest'
    | _ => false

end

/-- Two lists have the same length and their members are alike one by one. -/
def listsAlike {α : Type} (alike : α → α → Bool) : List α → List α → Bool
  | [], [] => true
  | a :: as, b :: bs => alike a b && listsAlike alike as bs
  | _, _ => false

def TypeNode.alike (a b : TypeNode) : Bool :=
  tagsAlike a.tag b.tag && decide (a.base = b.base)

def Parameter.alike (a b : Parameter) : Bool :=
  tagsAlike a.tag b.tag && a.name == b.name && a.type.alike b.type

def ParameterList.alike (a b : ParameterList) : Bool :=
  tagsAlike a.tag b.tag && listsAlike Parameter.alike a.items b.items

def ArgumentList.alike (a b : ArgumentList) : Bool :=
  tagsAlike a.tag b.tag && a.items.alike b.items

def Argument.alike (a b : Argument) : Bool :=
  tagsAlike a.tag b.tag && a.value.alike b.value

def Call.alike (a b : Call) : Bool :=
  a.toExpr.alike b.toExpr

def Body.alike (a b : Body) : Bool :=
  tagsAlike a.tag b.tag && listsAlike Call.alike a.prints b.prints && a.result.alike b.result

def Definition.alike (a b : Definition) : Bool :=
  tagsAlike a.tag b.tag && a.name == b.name && a.parameters.alike b.parameters &&
    a.returnType.alike b.returnType && a.body.alike b.body

/-- Two nodes are of one form, and alike in all that they hold. -/
def Node.alike : Node → Node → Bool
  | .program a, .program b => listsAlike Definition.alike a.definitions b.definitions
  | .definitionList a, .definitionList b => listsAlike Definition.alike a b
  | .definition a, .definition b => a.alike b
  | .parameterList a, .parameterList b => a.alike b
  | .parameter a, .parameter b => a.alike b
  | .type a, .type b => a.alike b
  | .body a, .body b => a.alike b
  | .expr a, .expr b => a.alike b
  | .argumentList a, .argumentList b => a.alike b
  | .argument a, .argument b => a.alike b
  | _, _ => false

end Klein
