import Klein.Proofs.Parser.Acceptance
import Klein.Proofs.Tree.Printing

namespace Klein

open Grammar

/-- A property that passes to a node without annotation from the nodes below it. -/
structure Node.Ascends (R : Node → Prop) : Prop where
  program : ∀ {items : List Definition}, R (.definitionList items) → R (.program ⟨items⟩)
  definitionList : ∀ {items : List Definition}, (∀ d ∈ items, R (.definition d)) →
    R (.definitionList items)
  definition : ∀ {name : String} {l : ParameterList} {t : TypeNode} {b : Body},
    R (.parameterList l) → R (.type t) → R (.body b) →
    R (.definition { name, parameters := l, returnType := t, body := b })
  parameterList : ∀ {items : List Parameter}, (∀ p ∈ items, R (.parameter p)) →
    R (.parameterList { items })
  parameter : ∀ {name : String} {t : TypeNode}, R (.type t) → R (.parameter { name, type := t })
  type : ∀ base : BaseType, R (.type { base })
  body : ∀ {prints : List Call} {result : Expr}, (∀ c ∈ prints, R (.expr c.toExpr)) →
    R (.expr result) → R (.body { prints, result })
  integer : ∀ text : String, R (.expr (.integer none text))
  boolean : ∀ text : String, R (.expr (.boolean none text))
  identifier : ∀ name : String, R (.expr (.identifier none name))
  unary : ∀ {op : UnaryOp} {value : Expr}, R (.expr value) → R (.expr (.unary none op value))
  binary : ∀ {op : BinaryOp} {left right : Expr}, R (.expr left) → R (.expr right) →
    R (.expr (.binary none op left right))
  conditional : ∀ {condition consequent alternative : Expr}, R (.expr condition) →
    R (.expr consequent) → R (.expr alternative) →
    R (.expr (.conditional none condition consequent alternative))
  call : ∀ {callee : String} {l : ArgumentList}, R (.argumentList l) →
    R (.expr (.call none callee l.tag l.items))
  argumentList : ∀ {items : List Argument}, (∀ a ∈ items, R (.argument a)) →
    R (.argumentList { items := .ofList items })
  argument : ∀ {value : Expr}, R (.expr value) → R (.argument { value })

namespace Builder

variable {R : Node → Prop} {α β : Type} {x : Builder α} {P : α → Prop} {Q : β → Prop}

/-- From nodes with a property a step comes to such nodes, and what it gives has another one. -/
def Keeps (R : Node → Prop) (x : Builder α) (P : α → Prop) : Prop :=
  ∀ stack : NodeStack, (∀ node ∈ stack, R node) →
    (∀ node ∈ (x.run.run stack).2, R node) ∧ ∀ a, (x.run.run stack).1 = .ok a → P a

theorem keeps_pure {a : α} (ha : P a) : Keeps R (pure a : Builder α) P := by
  intro stack hstack
  refine ⟨hstack, fun b hb => ?_⟩
  cases hb
  exact ha

theorem keeps_throw (e : BuildError) : Keeps R (throw e : Builder α) P :=
  fun _ hstack => ⟨hstack, fun _ ha => nomatch ha⟩

theorem Keeps.bind {f : α → Builder β} (hx : Keeps R x P) (hf : ∀ a, P a → Keeps R (f a) Q) :
    Keeps R (x >>= f) Q := by
  intro stack hstack
  obtain ⟨hafter, hgiven⟩ := hx stack hstack
  rw [ExceptT.run_bind, StateT.run_bind]
  rcases hrun : x.run.run stack with ⟨e | a, after⟩
  · rw [hrun] at hafter
    exact ⟨hafter, fun b hb => nomatch hb⟩
  · rw [hrun] at hafter hgiven
    exact hf a (hgiven a rfl) after hafter

theorem keeps_pop : Keeps R pop R := by
  intro stack hstack
  cases stack with
  | nil => exact ⟨hstack, fun a ha => nomatch ha⟩
  | cons node rest =>
    obtain ⟨hnode, hrest⟩ := List.forall_mem_cons.mp hstack
    refine ⟨hrest, fun a ha => ?_⟩
    cases ha
    exact hnode

theorem keeps_popAs {form : Form} {accept : Node → Option α} (wrap : α → Node)
    (hwrap : ∀ node a, accept node = some a → node = wrap a) :
    Keeps R (popAs form accept) fun a => R (wrap a) := by
  refine keeps_pop.bind fun node hnode => ?_
  cases hfound : accept node with
  | none => exact keeps_throw _
  | some a => exact keeps_pure (hwrap node a hfound ▸ hnode)

theorem keeps_popAll {accept : Node → Option α} (wrap : α → Node)
    (hwrap : ∀ node a, accept node = some a → node = wrap a) :
    Keeps R (popAll accept) fun items => ∀ a ∈ items, R (wrap a) := by
  intro stack hstack
  refine ⟨fun node hnode => hstack node (List.mem_of_mem_drop hnode), fun items hitems => ?_⟩
  cases hitems
  intro a ha
  rw [List.mem_reverse, List.mem_filterMap] at ha
  obtain ⟨node, hnode, hfound⟩ := ha
  exact hwrap node a hfound ▸ hstack node ((List.takeWhile_prefix _).subset hnode)

theorem keeps_popExpr : Keeps R popExpr fun e => R (.expr e) :=
  keeps_popAs .expr (by intro node _ h; cases node <;> cases h; rfl)

theorem keeps_popName : Keeps R (popAs .identifier Node.identifier?) fun _ => True := by
  refine keeps_pop.bind fun node _ => ?_
  cases node.identifier? with
  | none => exact keeps_throw _
  | some name => exact keeps_pure trivial

theorem keeps_tokenText (form : Form) (recent : Option Token) :
    Keeps R (tokenText form recent) fun _ => True := by
  unfold tokenText
  split
  · exact keeps_throw _
  · split
    · exact keeps_pure trivial
    · exact keeps_throw _

theorem keeps_tokenName (recent : Option Token) : Keeps R (tokenName recent) fun _ => True := by
  unfold tokenName
  split
  · exact keeps_pure trivial
  · exact keeps_tokenText _ _

variable (h : Node.Ascends R)
include h

theorem keeps_unary (op : UnaryOp) : Keeps R (unary op) R :=
  keeps_popExpr.bind fun _ hvalue => keeps_pure (h.unary hvalue)

theorem keeps_binary (op : BinaryOp) : Keeps R (binary op) R :=
  keeps_popExpr.bind fun _ hright => keeps_popExpr.bind fun _ hleft =>
    keeps_pure (h.binary hleft hright)

/-- The node that an action makes has the property if those that it takes have it. -/
theorem keeps_ofAction (recent : Option Token) (action : Action) :
    Keeps R (ofAction recent action) R := by
  cases action with
  | makeProgram =>
    refine (keeps_popAs .definitionList ?_).bind fun _ hitems => keeps_pure (h.program hitems)
    intro node _ h
    cases node <;> cases h
    rfl
  | makeDefinitionList =>
    refine (keeps_popAll .definition ?_).bind fun _ hitems => keeps_pure (h.definitionList hitems)
    intro node _ h
    cases node <;> cases h
    rfl
  | makeDefinition =>
    refine (keeps_popAs .body ?_).bind fun _ hbody => (keeps_popAs .type ?_).bind fun _ htype =>
      (keeps_popAs .parameterList ?_).bind fun _ hparameters => keeps_popName.bind fun _ _ =>
        keeps_pure (h.definition hparameters htype hbody)
    all_goals
      intro node _ h
      cases node <;> cases h
      rfl
  | makeIdentifier =>
    exact (keeps_tokenName recent).bind fun name _ => keeps_pure (h.identifier name)
  | makeParameterList =>
    refine (keeps_popAll .parameter ?_).bind fun _ hitems => keeps_pure (h.parameterList hitems)
    intro node _ h
    cases node <;> cases h
    rfl
  | makeIdWithType =>
    refine (keeps_popAs .type ?_).bind fun _ htype => keeps_popName.bind fun _ _ =>
      keeps_pure (h.parameter htype)
    intro node _ h
    cases node <;> cases h
    rfl
  | makeIntegerType | makeBooleanType => exact keeps_pure (h.type _)
  | makeBody =>
    refine keeps_popExpr.bind fun _ hresult =>
      (keeps_popAll (fun c : Call => .expr c.toExpr) ?_).bind fun _ hprints =>
        keeps_pure (h.body hprints hresult)
    intro node _ h
    cases node with
    | expr e =>
      cases e <;> cases h
      rfl
    | _ => cases h
  | makeFunctionCallExpression =>
    refine (keeps_popAs .argumentList ?_).bind fun _ hlist => keeps_popName.bind fun _ _ =>
      keeps_pure (h.call hlist)
    intro node _ h
    cases node <;> cases h
    rfl
  | makeEqualsExpression | makeLessThanExpression | makeOrExpression | makePlusExpression
  | makeMinusExpression | makeTimesExpression | makeDivideExpression | makeAndExpression =>
    exact keeps_binary h _
  | makeNotExpression | makeUnaryMinusExpression => exact keeps_unary h _
  | makeIfExpression =>
    exact keeps_popExpr.bind fun _ halternative => keeps_popExpr.bind fun _ hconsequent =>
      keeps_popExpr.bind fun _ hcondition =>
        keeps_pure (h.conditional hcondition hconsequent halternative)
  | makeArgumentList =>
    refine (keeps_popAll .argument ?_).bind fun _ hitems => keeps_pure (h.argumentList hitems)
    intro node _ h
    cases node <;> cases h
    rfl
  | makeArgument => exact keeps_popExpr.bind fun _ hvalue => keeps_pure (h.argument hvalue)
  | makeIntegerLiteral =>
    exact (keeps_tokenText _ recent).bind fun text _ => keeps_pure (h.integer text)
  | makeBooleanLiteral =>
    exact (keeps_tokenText _ recent).bind fun text _ => keeps_pure (h.boolean text)

end Builder

/-- An action keeps the property. -/
theorem NodeStack.ascends_act {R : Node → Prop} (h : Node.Ascends R) {stack after : NodeStack}
    {recent : Option Token} {action : Action} (hstack : ∀ node ∈ stack, R node)
    (hact : stack.act recent action = (.ok (), after)) : ∀ node ∈ after, R node := by
  obtain ⟨hrest, hmade⟩ := Builder.keeps_ofAction h recent action stack hstack
  unfold NodeStack.act at hact
  rcases hrun : (Builder.ofAction recent action).run.run stack with ⟨e | node, rest⟩
  · rw [hrun] at hact
    cases hact
  · rw [hrun] at hact hrest hmade
    cases hact
    exact List.forall_mem_cons.mpr ⟨hmade node rfl, hrest⟩

namespace Parser

variable {R : Node → Prop}

/-- The nodes of a parser that is at work keep the property. -/
theorem Reaches.ascends (h : Node.Ascends R) {p q : Parser} {taken : List Token}
    (hreaches : Reaches p taken q) (hnodes : ∀ node ∈ p.nodes, R node) :
    ∀ node ∈ q.nodes, R node := by
  induction hreaches with
  | refl => exact hnodes
  | @step p q r item items taken hitems hstep _ ih =>
    refine ih ?_
    cases item with
    | token kind =>
      obtain ⟨token, stream, -, -, rfl⟩ := step_token_eq_ok.mp hstep
      exact hnodes
    | nonterminal n =>
      obtain ⟨token, stream, rule, -, -, rfl⟩ := step_nonterminal_eq_ok.mp hstep
      exact hnodes
    | action a =>
      obtain ⟨nodes, hact, rfl⟩ := step_action_eq_ok.mp hstep
      exact NodeStack.ascends_act h hnodes hact

/-- What passes upwards holds of a program that was parsed. -/
theorem ascends_of_parse (h : Node.Ascends R) {text : String} {p : Program}
    (hparse : parse text = .ok p) : R (.program p) := by
  obtain ⟨final, hrun, hnodes⟩ := parse_eq_ok_iff.mp hparse
  obtain ⟨taken, hreaches, -⟩ := reaches_of_run hrun
  exact hreaches.ascends h (by simp) _ (by simp [hnodes])

end Parser

/-- Neither the node nor any node below it has an annotation. -/
def Node.Bare : Node → Prop
  | program p => p.bare = p
  | definitionList items => items.map Definition.bare = items
  | definition d => d.bare = d
  | parameterList l => l.bare = l
  | parameter p => p.bare = p
  | type t => t.bare = t
  | body b => b.bare = b
  | expr e => e.bare = e
  | argumentList l => l.tag = none ∧ l.items.bare = l.items
  | argument a => a.tag = none ∧ a.value.bare = a.value

theorem Call.bare_eq_self_iff {c : Call} : c.bare = c ↔ c.toExpr.bare = c.toExpr := by
  obtain ⟨tag, callee, listTag, items⟩ := c
  simp [Call.bare, Call.toExpr, Expr.bare]

theorem Arguments.bare_ofList {items : List Argument}
    (hitems : ∀ a ∈ items, Node.Bare (.argument a)) :
    (Arguments.ofList items).bare = .ofList items := by
  induction items with
  | nil => rfl
  | cons a items ih =>
    obtain ⟨⟨htag, hvalue⟩, hrest⟩ := List.forall_mem_cons.mp hitems
    rw [ofList, Arguments.bare, hvalue, ih hrest, htag]

theorem Node.ascends_bare : Node.Ascends Node.Bare where
  program hitems := congrArg Program.mk hitems
  definitionList hitems := (List.map_congr_left hitems).trans (List.map_id _)
  definition hparameters htype hbody := by simp_all [Node.Bare, Definition.bare]
  parameterList hitems :=
    congrArg (ParameterList.mk none) ((List.map_congr_left hitems).trans (List.map_id _))
  parameter htype := by simp_all [Node.Bare, Parameter.bare]
  type base := rfl
  body hprints hresult := by
    have hcalls := List.map_congr_left fun c hc => Call.bare_eq_self_iff.mpr (hprints c hc)
    simp_all [Node.Bare, Body.bare]
  integer text := rfl
  boolean text := rfl
  identifier name := rfl
  unary hvalue := by simp_all [Node.Bare, Expr.bare]
  binary hleft hright := by simp_all [Node.Bare, Expr.bare]
  conditional hcondition hconsequent halternative := by simp_all [Node.Bare, Expr.bare]
  call hlist := by simp_all [Node.Bare, Expr.bare]
  argumentList hitems := ⟨rfl, Arguments.bare_ofList hitems⟩
  argument hvalue := ⟨rfl, hvalue⟩

/-- A parser annotates nothing. -/
theorem Parser.bare_of_parse {text : String} {p : Program} (hparse : parse text = .ok p) :
    p.bare = p :=
  ascends_of_parse Node.ascends_bare hparse

end Klein
