import Klein.Tree.Basic

namespace Klein

/-- The forms of nodes, the general ones included. -/
inductive Form
  | node
  | program
  | definitionList
  | definition
  | parameterList
  | parameter
  | type
  | integerType
  | booleanType
  | body
  | expression
  | unary
  | unaryOp (op : UnaryOp)
  | binary
  | binaryOp (op : BinaryOp)
  | conditional
  | call
  | argumentList
  | argument
  | literal
  | integerLiteral
  | booleanLiteral
  | identifier
deriving DecidableEq, Repr

def UnaryOp.formName : UnaryOp → String
  | not => "NotExpression"
  | minus => "UnaryMinusExpression"

def BinaryOp.formName : BinaryOp → String
  | equals => "EqualsExpression"
  | lessThan => "LessThanExpression"
  | or => "OrExpression"
  | plus => "PlusExpression"
  | minus => "MinusExpression"
  | times => "TimesExpression"
  | divide => "DivideExpression"
  | and => "AndExpression"

namespace Form

def all : List Form :=
  [node, program, definitionList, definition, parameterList, parameter, type, integerType,
   booleanType, body, expression, unary, unaryOp .not, unaryOp .minus, binary, binaryOp .equals,
   binaryOp .lessThan, binaryOp .or, binaryOp .plus, binaryOp .minus, binaryOp .times,
   binaryOp .divide, binaryOp .and, conditional, call, argumentList, argument, literal,
   integerLiteral, booleanLiteral, identifier]

def name : Form → String
  | node => "ASTNode"
  | program => "Program"
  | definitionList => "DefinitionList"
  | definition => "Definition"
  | parameterList => "ParameterList"
  | parameter => "IdWithType"
  | type => "Type"
  | integerType => "IntegerType"
  | booleanType => "BooleanType"
  | body => "Body"
  | expression => "Expression"
  | unary => "UnaryExpression"
  | unaryOp op => op.formName
  | binary => "BinaryExpression"
  | binaryOp op => op.formName
  | conditional => "IfExpression"
  | call => "FunctionCallExpression"
  | argumentList => "ArgumentList"
  | argument => "Argument"
  | literal => "Literal"
  | integerLiteral => "IntegerLiteral"
  | booleanLiteral => "BooleanLiteral"
  | identifier => "Identifier"

def ofName? (text : String) : Option Form :=
  all.find? fun form => form.name == text

/-- A form and the more general ones that it belongs to. -/
def lineage : Form → List Form
  | node => [node]
  | integerType => [integerType, type, node]
  | booleanType => [booleanType, type, node]
  | unary => [unary, expression, node]
  | unaryOp op => [unaryOp op, unary, expression, node]
  | binary => [binary, expression, node]
  | binaryOp op => [binaryOp op, binary, expression, node]
  | conditional => [conditional, expression, node]
  | call => [call, expression, node]
  | literal => [literal, expression, node]
  | integerLiteral => [integerLiteral, literal, expression, node]
  | booleanLiteral => [booleanLiteral, literal, expression, node]
  | identifier => [identifier, expression, node]
  | form => [form, node]

end Form

def BaseType.form : BaseType → Form
  | integer => .integerType
  | boolean => .booleanType

def Expr.form : Expr → Form
  | .integer .. => .integerLiteral
  | .boolean .. => .booleanLiteral
  | .identifier .. => .identifier
  | .unary _ op _ => .unaryOp op
  | .binary _ op _ _ => .binaryOp op
  | .conditional .. => .conditional
  | .call .. => .call

/-- The text that stands for an expression where it is mentioned. -/
def Expr.title (e : Expr) : String :=
  match e with
  | .integer _ text => e.form.name ++ " " ++ text
  | .boolean _ text => e.form.name ++ " " ++ text
  | .identifier _ name => e.form.name ++ " " ++ name
  | _ => e.form.name

namespace Node

def form : Node → Form
  | program _ => .program
  | definitionList _ => .definitionList
  | definition _ => .definition
  | parameterList _ => .parameterList
  | parameter _ => .parameter
  | type t => t.base.form
  | body _ => .body
  | expr e => e.form
  | argumentList _ => .argumentList
  | argument _ => .argument

/-- The node is of a form, or of one that belongs to it. -/
def isA (node : Node) (form : Form) : Bool :=
  node.form.lineage.contains form

/-- The text that stands for a node where it is mentioned. -/
def title : Node → String
  | type t => t.base.toString
  | expr e => e.title
  | node => node.form.name

def tag : Node → Tag
  | program _ => none
  | definitionList _ => none
  | definition d => d.tag
  | parameterList l => l.tag
  | parameter p => p.tag
  | type t => t.tag
  | body b => b.tag
  | expr e => e.tag
  | argumentList l => l.tag
  | argument a => a.tag

end Node

/-- The annotation of a node that has none was asked for. -/
structure Unannotated where
  node : Node

def Unannotated.message (e : Unannotated) : String :=
  s!"Cannot get unset type annotation for node {e.node.title}"

def Node.ty (node : Node) : Except Unannotated Ty :=
  match node.tag with
  | some a => .ok a
  | none => .error ⟨node⟩

end Klein
