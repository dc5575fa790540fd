import Klein.Ty

namespace Klein

/-- The annotation of a node, absent until the node has been checked. -/
abbrev Tag := Option Ty

/-- The types that a program can name. -/
inductive BaseType
  | integer
  | boolean
deriving DecidableEq, Repr, Inhabited

def BaseType.toString : BaseType → String
  | integer => "Integer"
  | boolean => "Boolean"

def BaseType.ty : BaseType → Ty
  | integer => .integer
  | boolean => .boolean

inductive UnaryOp
  | not
  | minus
deriving DecidableEq, Repr, Inhabited

inductive BinaryOp
  | equals
  | lessThan
  | or
  | plus
  | minus
  | times
  | divide
  | and
deriving DecidableEq, Repr, Inhabited

mutual

/-- An expression. A call carries a tag for its list of arguments beside its own. -/
inductive Expr
  | integer (tag : Tag) (text : String)
  | boolean (tag : Tag) (text : String)
  | identifier (tag : Tag) (name : String)
  | unary (tag : Tag) (op : UnaryOp) (value : Expr)
  | binary (tag : Tag) (op : BinaryOp) (left right : Expr)
  | conditional (tag : Tag) (condition consequent alternative : Expr)
  | call (tag : Tag) (callee : String) (listTag : Tag) (arguments : Arguments)

/-- The arguments of a call, each with a tag of its own. -/
inductive Arguments
  | nil
  | cons (tag : Tag) (value : Expr) (rest : Arguments)

end

/-- A type where it is written in a program. -/
structure TypeNode where
  tag : Tag := none
  base : BaseType

structure Parameter where
  tag : Tag := none
  name : String
  type : TypeNode

structure ParameterList where
  tag : Tag := none
  items : List Parameter

structure Argument where
  tag : Tag := none
  value : Expr

structure ArgumentList where
  tag : Tag := none
  items : Arguments

structure Call where
  tag : Tag := none
  callee : String
  arguments : ArgumentList

/-- The body of a function: calls made for their output, and the expression that is its value. -/
structure Body where
  tag : Tag := none
  prints : List Call
  result : Expr

structure Definition where
  tag : Tag := none
  name : String
  parameters : ParameterList
  returnType : TypeNode
  body : Body

structure Program where
  definitions : List Definition

/-- Any node of a tree. -/
inductive Node
  | program (p : Program)
  | definitionList (items : List Definition)
  | definition (d : Definition)
  | parameterList (l : ParameterList)
  | parameter (p : Parameter)
  | type (t : TypeNode)
  | body (b : Body)
  | expr (e : Expr)
  | argumentList (l : ArgumentList)
  | argument (a : Argument)

namespace Arguments

def ofList : List Argument → Arguments
  | [] => nil
  | a :: rest => cons a.tag a.value (ofList rest)

def toList : Arguments → List Argument
  | nil => []
  | cons tag value rest => ⟨tag, value⟩ :: rest.toList

@[simp]
theorem toList_ofList (items : List Argument) : (ofList items).toList = items := by
  induction items <;> simp_all [ofList, toList]

@[simp]
theorem ofList_toList (items : Arguments) : ofList items.toList = items := by
  match items with
  | nil => rfl
  | cons tag value rest => simp [ofList, toList, ofList_toList rest]

end Arguments

def Call.toExpr (c : Call) : Expr :=
  .call c.tag c.callee c.arguments.tag c.arguments.items

def Expr.toCall? : Expr → Option Call
  | .call tag callee listTag arguments => some ⟨tag, callee, ⟨listTag, arguments⟩⟩
  | _ => none

def Expr.tag : Expr → Tag
  | .integer tag _ => tag
  | .boolean tag _ => tag
  | .identifier tag _ => tag
  | .unary tag _ _ => tag
  | .binary tag _ _ _ => tag
  | .conditional tag _ _ _ => tag
  | .call tag _ _ _ => tag

/-- An expression that has no expressions below it. -/
def Expr.isLeaf : Expr → Bool
  | .integer .. | .boolean .. | .identifier .. => true
  | _ => false

end Klein
