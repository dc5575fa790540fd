import Klein.Tree.Build
import Mathlib.Data.List.TakeWhile

namespace Klein

open Grammar

/-- The action that builds an operation from its operands. -/
def BinaryOp.action : BinaryOp → Action
  | equals => .makeEqualsExpression
  | lessThan => .makeLessThanExpression
  | or => .makeOrExpression
  | plus => .makePlusExpression
  | minus => .makeMinusExpression
  | times => .makeTimesExpression
  | divide => .makeDivideExpression
  | and => .makeAndExpression

def UnaryOp.action : UnaryOp → Action
  | not => .makeNotExpression
  | minus => .makeUnaryMinusExpression

namespace NodeStack

variable {recent : Option Token} {stack : NodeStack}

@[simp]
theorem act_makeProgram (items : List Definition) :
    act (.definitionList items :: stack) recent .makeProgram =
      (.ok (), .program ⟨items⟩ :: stack) := rfl

@[simp]
theorem act_makeDefinition (b : Body) (t : TypeNode) (l : ParameterList) (tag : Tag)
    (name : String) :
    act (.body b :: .type t :: .parameterList l :: .expr (.identifier tag name) :: stack) recent
      .makeDefinition =
      (.ok (), .definition { name, parameters := l, returnType := t, body := b } :: stack) := rfl

@[simp]
theorem act_makeIdWithType (t : TypeNode) (tag : Tag) (name : String) :
    act (.type t :: .expr (.identifier tag name) :: stack) recent .makeIdWithType =
      (.ok (), .parameter { name, type := t } :: stack) := rfl

@[simp]
theorem act_makeIntegerType :
    act stack recent .makeIntegerType = (.ok (), .type { base := .integer } :: stack) := rfl

@[simp]
theorem act_makeBooleanType :
    act stack recent .makeBooleanType = (.ok (), .type { base := .boolean } :: stack) := rfl

@[simp]
theorem act_makeFunctionCallExpression (l : ArgumentList) (tag : Tag) (callee : String) :
    act (.argumentList l :: .expr (.identifier tag callee) :: stack) recent
      .makeFunctionCallExpression =
      (.ok (), .expr (.call none callee l.tag l.items) :: stack) := rfl

@[simp]
theorem act_makeIfExpression (condition consequent alternative : Expr) :
    act (.expr alternative :: .expr consequent :: .expr condition :: stack) recent
      .makeIfExpression =
      (.ok (), .expr (.conditional none condition consequent alternative) :: stack) := rfl

@[simp]
theorem act_makeArgument (e : Expr) :
    act (.expr e :: stack) recent .makeArgument = (.ok (), .argument { value := e } :: stack) := rfl

@[simp]
theorem act_unary (op : UnaryOp) (value : Expr) :
    act (.expr value :: stack) recent op.action =
      (.ok (), .expr (.unary none op value) :: stack) := by
  cases op <;> rfl

@[simp]
theorem act_binary (op : BinaryOp) (left right : Expr) :
    act (.expr right :: .expr left :: stack) recent op.action =
      (.ok (), .expr (.binary none op left right) :: stack) := by
  cases op <;> rfl

theorem act_makeIdentifier {token : Token} {name : String} (hkind : token.kind = .identifier)
    (hvalue : token.value = some name) :
    act stack (some token) .makeIdentifier =
      (.ok (), .expr (.identifier none name) :: stack) := by
  obtain ⟨kind, value, position⟩ := token
  subst hkind hvalue
  rfl

theorem act_makeIdentifier_print {token : Token} (hkind : token.kind = .keywordPrint) :
    act stack (some token) .makeIdentifier =
      (.ok (), .expr (.identifier none "print") :: stack) := by
  obtain ⟨kind, value, position⟩ := token
  subst hkind
  rfl

theorem act_makeIntegerLiteral {token : Token} {text : String} (hvalue : token.value = some text) :
    act stack (some token) .makeIntegerLiteral =
      (.ok (), .expr (.integer none text) :: stack) := by
  obtain ⟨kind, value, position⟩ := token
  subst hvalue
  rfl

theorem act_makeBooleanLiteral {token : Token} {text : String} (hvalue : token.value = some text) :
    act stack (some token) .makeBooleanLiteral =
      (.ok (), .expr (.boolean none text) :: stack) := by
  obtain ⟨kind, value, position⟩ := token
  subst hvalue
  rfl

/-- Taking nodes as long as they are accepted takes exactly a run of them, in front of a node that
    is not. -/
theorem popAll_run {α : Type} {accept : Node → Option α} {f : α → Node}
    (hf : ∀ a, accept (f a) = some a) (items : List α)
    (hrest : ∀ node ∈ stack.head?, accept node = none) :
    (Builder.popAll accept).run.run (items.map f ++ stack) = (.ok items.reverse, stack) := by
  have hnone : stack.takeWhile (fun node => (accept node).isSome) = [] := by
    cases stack with
    | nil => rfl
    | cons node stack => simp [hrest node (by simp)]
  have hrun : (items.map f ++ stack).takeWhile (fun node => (accept node).isSome) =
      items.map f := by
    rw [List.takeWhile_append_of_pos (by simp [hf]), hnone, List.append_nil]
  have hitems : (items.map f).filterMap accept = items := by
    have hsome : accept ∘ f = some := funext hf
    rw [List.filterMap_map, hsome, List.filterMap_some]
  change (Except.ok ((List.filterMap accept _).reverse), List.drop (List.length _) _) = _
  rw [hrun, hitems, List.drop_left]

theorem run_bind_of_ok {α β : Type} {x : Builder α} {f : α → Builder β} {a : α}
    {before after : NodeStack} (hx : x.run.run before = (.ok a, after)) :
    (x >>= f).run.run before = (f a).run.run after := by
  rw [ExceptT.run_bind, StateT.run_bind, hx]
  rfl

theorem act_makeDefinitionList (items : List Definition)
    (hrest : ∀ node ∈ stack.head?, node.definition? = none) :
    act (items.map .definition ++ stack) recent .makeDefinitionList =
      (.ok (), .definitionList items.reverse :: stack) := by
  have hrun := popAll_run (f := .definition) (fun _ => rfl) items hrest
  rw [act, Builder.ofAction, run_bind_of_ok hrun]
  rfl

theorem act_makeParameterList (items : List Parameter)
    (hrest : ∀ node ∈ stack.head?, node.parameter? = none) :
    act (items.map .parameter ++ stack) recent .makeParameterList =
      (.ok (), .parameterList { items := items.reverse } :: stack) := by
  have hrun := popAll_run (f := .parameter) (fun _ => rfl) items hrest
  rw [act, Builder.ofAction, run_bind_of_ok hrun]
  rfl

theorem act_makeArgumentList (items : List Argument)
    (hrest : ∀ node ∈ stack.head?, node.argument? = none) :
    act (items.map .argument ++ stack) recent .makeArgumentList =
      (.ok (), .argumentList { items := .ofList items.reverse } :: stack) := by
  have hrun := popAll_run (f := .argument) (fun _ => rfl) items hrest
  rw [act, Builder.ofAction, run_bind_of_ok hrun]
  rfl

theorem act_makeBody (result : Expr) (calls : List Call)
    (hrest : ∀ node ∈ stack.head?, node.call? = none) :
    act (.expr result :: (calls.map (fun c => Node.expr c.toExpr) ++ stack)) recent .makeBody =
      (.ok (), .body { prints := calls.reverse, result } :: stack) := by
  have hresult : Builder.popExpr.run.run
      (.expr result :: (calls.map (fun c => Node.expr c.toExpr) ++ stack)) =
        (.ok result, calls.map (fun c => Node.expr c.toExpr) ++ stack) := rfl
  have hrun := popAll_run (f := fun c => Node.expr c.toExpr) (fun _ => rfl) calls hrest
  rw [act, Builder.ofAction, run_bind_of_ok hresult, run_bind_of_ok hrun]
  rfl

end NodeStack

end Klein
