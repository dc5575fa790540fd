import Klein.Grammar.Basic
import Klein.Index
import Klein.Tree.Form

namespace Klein

open Grammar

/-- Why an action cannot build its node. -/
inductive BuildError
  | emptyStack
  | wrongForm (node : Node) (expected : Form)
  | noToken (form : Form)
  | noValue (form : Form) (token : Token)

def BuildError.message : BuildError → String
  | emptyStack => "pop from empty list"
  | wrongForm node expected =>
    s!"Expected {node.title} to be type {expected.name} instead found {node.form.name}"
  | noToken form => s!"No most recent token found when generating {form.name}"
  | noValue form token =>
    s!"Most recent token missing value found when generating {form.name}: {token.toString}"

/-- The nodes that wait for their parents, the last one first. -/
abbrev NodeStack := List Node

/-- A step that works on the waiting nodes. What it has taken stays taken when it fails. -/
abbrev Builder := ExceptT BuildError (StateM NodeStack)

namespace Builder

def pop : Builder Node := do
  match ← get with
  | [] => throw .emptyStack
  | node :: rest =>
    set rest
    return node

/-- Take a node, which has to be of a form that the given function accepts. -/
def popAs {α : Type} (expected : Form) (accept : Node → Option α) : Builder α := do
  let node ← pop
  match accept node with
  | some a => return a
  | none => throw (.wrongForm node expected)

/-- Take nodes as long as the given function accepts them, and give them in the order in which they
    were put there. -/
def popAll {α : Type} (accept : Node → Option α) : Builder (List α) := do
  let stack ← get
  let run := stack.takeWhile fun node => (accept node).isSome
  set (stack.drop run.length)
  return (run.filterMap accept).reverse

end Builder

namespace Node

def definitions? : Node → Option (List Definition)
  | definitionList items => some items
  | _ => none

def definition? : Node → Option Definition
  | definition d => some d
  | _ => none

def parameters? : Node → Option ParameterList
  | parameterList l => some l
  | _ => none

def parameter? : Node → Option Parameter
  | parameter p => some p
  | _ => none

def type? : Node → Option TypeNode
  | type t => some t
  | _ => none

def body? : Node → Option Body
  | body b => some b
  | _ => none

def expr? : Node → Option Expr
  | expr e => some e
  | _ => none

def identifier? : Node → Option String
  | expr (.identifier _ name) => some name
  | _ => none

def call? : Node → Option Call
  | expr e => e.toCall?
  | _ => none

def arguments? : Node → Option ArgumentList
  | argumentList l => some l
  | _ => none

def argument? : Node → Option Argument
  | argument a => some a
  | _ => none

end Node

namespace Builder

def popExpr : Builder Expr := popAs .expression Node.expr?

/-- The value of the token read last. -/
def tokenText (form : Form) : Option Token → Builder String
  | none => throw (.noToken form)
  | some token =>
    match token.value with
    | some value => return value
    | none => throw (.noValue form token)

/-- The name that the token read last stands for: its value, or the word `print`. -/
def tokenName (recent : Option Token) : Builder String :=
  match recent with
  | some { kind := .keywordPrint, .. } => return "print"
  | _ => tokenText .identifier recent

def binary (op : BinaryOp) : Builder Node := do
  let right ← popExpr
  let left ← popExpr
  return .expr (.binary none op left right)

def unary (op : UnaryOp) : Builder Node := do
  return .expr (.unary none op (← popExpr))

/-- The node that an action makes from waiting nodes and the token read last. -/
def ofAction (recent : Option Token) : Action → Builder Node
  | .makeProgram => do
    return .program ⟨← popAs .definitionList Node.definitions?⟩
  | .makeDefinitionList => do
    return .definitionList (← popAll Node.definition?)
  | .makeDefinition => do
    let body ← popAs .body Node.body?
    let returnType ← popAs .type Node.type?
    let parameters ← popAs .parameterList Node.parameters?
    let name ← popAs .identifier Node.identifier?
    return .definition { name, parameters, returnType, body }
  | .makeIdentifier => do
    return .expr (.identifier none (← tokenName recent))
  | .makeParameterList => do
    return .parameterList { items := ← popAll Node.parameter? }
  | .makeIdWithType => do
    let type ← popAs .type Node.type?
    let name ← popAs .identifier Node.identifier?
    return .parameter { name, type }
  | .makeIntegerType => return .type { base := .integer }
  | .makeBooleanType => return .type { base := .boolean }
  | .makeBody => do
    let result ← popExpr
    let prints ← popAll Node.call?
    return .body { prints, result }
  | .makeFunctionCallExpression => do
    let arguments ← popAs .argumentList Node.arguments?
    let callee ← popAs .identifier Node.identifier?
    return .expr (.call none callee arguments.tag arguments.items)
  | .makeEqualsExpression => binary .equals
  | .makeLessThanExpression => binary .lessThan
  | .makeOrExpression => binary .or
  | .makePlusExpression => binary .plus
  | .makeMinusExpression => binary .minus
  | .makeTimesExpression => binary .times
  | .makeDivideExpression => binary .divide
  | .makeAndExpression => binary .and
  | .makeNotExpression => unary .not
  | .makeUnaryMinusExpression => unary .minus
  | .makeIfExpression => do
    let alternative ← popExpr
    let consequent ← popExpr
    let condition ← popExpr
    return .expr (.conditional none condition consequent alternative)
  | .makeArgumentList => do
    return .argumentList { items := .ofList (← popAll Node.argument?) }
  | .makeArgument => do
    return .argument { value := ← popExpr }
  | .makeIntegerLiteral => do
    return .expr (.integer none (← tokenText .integerLiteral recent))
  | .makeBooleanLiteral => do
    return .expr (.boolean none (← tokenText .booleanLiteral recent))

end Builder

namespace NodeStack

/-- Run an action and put its node on the stack. -/
def act (stack : NodeStack) (recent : Option Token) (action : Action) :
    Except BuildError Unit × NodeStack :=
  match (Builder.ofAction recent action).run.run stack with
  | (.ok node, rest) => (.ok (), node :: rest)
  | (.error e, rest) => (.error e, rest)

/-- The node that was put there last. -/
def top (stack : NodeStack) : Except IndexError Node :=
  elementAt "list" "int" stack.reverse (-1)

/-- Take the last node if it is of a form. -/
def popIf (stack : NodeStack) (form : Form) : Option Node × NodeStack :=
  match stack with
  | node :: rest => if node.isA form then (some node, rest) else (none, stack)
  | [] => (none, stack)

/-- The titles of the waiting nodes, the first one first. -/
def toString (stack : NodeStack) : String :=
  Text.join "," (stack.reverse.map Node.title)

end NodeStack

end Klein
