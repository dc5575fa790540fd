import Klein.Proofs.Parser.Run
import Klein.Proofs.Tree.Building
import Klein.Proofs.Tree.Legal

namespace Klein.Parser

open Grammar

/-- From these waiting nodes a nonterminal comes to waiting nodes with a property, whatever it
    matches. A rule keeps the promise of its nonterminal if its items do, so that no action can fail
    in a run. -/
def Promises (Q : NodeStack → Prop) (stack : NodeStack) : Nonterminal → Prop
  | .program => stack = [] ∧ ∀ p : Program, p.Legal → Q [.program p]
  | .definitionList =>
    ∀ items : List Definition, (∀ d ∈ items, d.Legal) → Q (items.map .definition ++ stack)
  | .definition => ∀ d : Definition, d.Legal → Q (.definition d :: stack)
  | .parameterList | .formalParameters | .formalParametersRest =>
    ∀ items : List Parameter, (∀ p ∈ items, IsName p.name) → Q (items.map .parameter ++ stack)
  | .idWithType => ∀ p : Parameter, IsName p.name → Q (.parameter p :: stack)
  | .typeName => ∀ t : TypeNode, Q (.type t :: stack)
  | .body =>
    ∃ (calls : List Call) (t : TypeNode) (rest : NodeStack), (∀ c ∈ calls, c.IsPrint) ∧
      stack = calls.map (fun c => .expr c.toExpr) ++ .type t :: rest ∧
      ∀ b : Body, b.Legal → Q (.body b :: .type t :: rest)
  | .printExpression => ∀ c : Call, c.IsPrint → Q (.expr c.toExpr :: stack)
  | .expression | .simpleExpression | .term | .factor | .literal =>
    ∀ e : Expr, e.Legal → Q (.expr e :: stack)
  | .expressionRest | .simpleExpressionRest | .termRest =>
    ∃ (left : Expr) (rest : NodeStack), stack = .expr left :: rest ∧ left.Legal ∧
      ∀ e : Expr, e.Legal → Q (.expr e :: rest)
  | .factorRest =>
    ∃ (name : String) (rest : NodeStack), stack = .expr (.identifier none name) :: rest ∧
      IsName name ∧ ∀ e : Expr, e.Legal → Q (.expr e :: rest)
  | .argumentList | .formalArguments | .formalArgumentsRest =>
    ∀ items : List Argument, (∀ a ∈ items, a.value.Legal) → Q (items.map .argument ++ stack)

/-- From these waiting nodes some items come to waiting nodes with a property: no action among them
    fails, whatever genuine tokens are matched. -/
def Builds (Q : NodeStack → Prop) : List Item → Option Token → NodeStack → Prop
  | [], _, stack => Q stack
  | .token k :: items, _, stack =>
    ∀ token : Token, token.kind = k → token.Genuine → Builds Q items (some token) stack
  | .action a :: items, recent, stack =>
    ∃ after, stack.act recent a = (.ok (), after) ∧ Builds Q items recent after
  | .nonterminal n :: items, _, stack =>
    Promises (fun after => ∀ recent, Builds Q items recent after) stack n

variable {P Q : NodeStack → Prop} {items others : List Item} {recent : Option Token}
  {stack : NodeStack} {n : Nonterminal}

theorem Promises.mono (hPQ : ∀ stack, P stack → Q stack) (h : Promises P stack n) :
    Promises Q stack n := by
  cases n with
  | program => exact ⟨h.1, fun p hp => hPQ _ (h.2 p hp)⟩
  | definitionList | parameterList | formalParameters | formalParametersRest | argumentList
  | formalArguments | formalArgumentsRest => exact fun items hitems => hPQ _ (h items hitems)
  | definition | idWithType | printExpression | expression | simpleExpression | term | factor
  | literal => exact fun node hnode => hPQ _ (h node hnode)
  | typeName => exact fun t => hPQ _ (h t)
  | body =>
    obtain ⟨calls, t, rest, hcalls, hstack, hbody⟩ := h
    exact ⟨calls, t, rest, hcalls, hstack, fun b hb => hPQ _ (hbody b hb)⟩
  | expressionRest | simpleExpressionRest | termRest =>
    obtain ⟨left, rest, hstack, hleft, he⟩ := h
    exact ⟨left, rest, hstack, hleft, fun e hlegal => hPQ _ (he e hlegal)⟩
  | factorRest =>
    obtain ⟨name, rest, hstack, hname, he⟩ := h
    exact ⟨name, rest, hstack, hname, fun e hlegal => hPQ _ (he e hlegal)⟩

theorem Builds.append
    (h : Builds (fun after => ∀ recent, Builds Q others recent after) items recent stack) :
    Builds Q (items ++ others) recent stack := by
  induction items generalizing recent stack with
  | nil => exact h recent
  | cons item items ih =>
    cases item with
    | token k => exact fun token hkind hgenuine => ih (h token hkind hgenuine)
    | action a =>
      obtain ⟨after, hact, hafter⟩ := h
      exact ⟨after, hact, ih hafter⟩
    | nonterminal n => exact Promises.mono (fun _ hafter recent => ih (hafter recent)) h

private theorem name_of_genuine {token : Token} (hkind : token.kind = .identifier)
    (hgenuine : token.Genuine) : ∃ name, token.value = some name ∧ IsName name := by
  simpa [Token.Genuine, hkind, Kind.Spells] using hgenuine

/-- Reading a name puts it on the stack. -/
theorem Builds.identifier
    (h : ∀ name recent, IsName name →
      Builds Q items recent (.expr (.identifier none name) :: stack)) :
    Builds Q (.token .identifier :: .action .makeIdentifier :: items) recent stack := by
  intro token hkind hgenuine
  obtain ⟨name, hvalue, hname⟩ := name_of_genuine hkind hgenuine
  exact ⟨_, NodeStack.act_makeIdentifier hkind hvalue, h name _ hname⟩

/-- An operator builds its operation from what is on the stack and the operand behind it, and then
    stands where its left operand stood. -/
private theorem Builds.operation {k : Kind} {operand rest : Nonterminal} (op : BinaryOp)
    {left : Expr} (hleft : left.Legal)
    (hoperand : ∀ {R : NodeStack → Prop} {stack : NodeStack},
      (∀ e : Expr, e.Legal → R (.expr e :: stack)) → Promises R stack operand)
    (hrest : ∀ {R : NodeStack → Prop} {stack : NodeStack} {left : Expr}, left.Legal →
      (∀ e : Expr, e.Legal → R (.expr e :: stack)) → Promises R (.expr left :: stack) rest)
    (h : ∀ e : Expr, e.Legal → Q (.expr e :: stack)) :
    Builds Q [.token k, .nonterminal operand, .action op.action, .nonterminal rest] recent
      (.expr left :: stack) := by
  intro token _ _
  apply hoperand
  intro right hright recent
  refine ⟨_, NodeStack.act_binary op left right, ?_⟩
  exact hrest ⟨hleft, hright⟩ fun e he _ => h e he

private theorem builds_definition (hitems : items ∈ productions .definition)
    (h : Promises Q stack .definition) : Builds Q items recent stack := by
  simp only [productions, List.mem_singleton] at hitems
  subst hitems
  intro _ _ _
  apply Builds.identifier
  intro name _ hname _ _ _ parameters hparameters _
  refine ⟨_, NodeStack.act_makeParameterList parameters (by simp [Node.parameter?]), ?_⟩
  intro _ _ _ _ _ _ t _
  refine ⟨[], t, _, by simp, rfl, ?_⟩
  intro b hb _
  refine ⟨_, NodeStack.act_makeDefinition .., ?_⟩
  exact h _ ⟨hname, by simpa using hparameters, hb⟩

private theorem builds_parameters (hitems : items ∈ productions .parameterList ∨
      items ∈ productions .formalParameters ∨ items ∈ productions .formalParametersRest)
    (h : Promises Q stack .parameterList) : Builds Q items recent stack := by
  simp only [productions, List.mem_cons, List.not_mem_nil, or_false] at hitems
  have hadd : ∀ p : Parameter, IsName p.name → ∀ rest : List Parameter,
      (∀ p ∈ rest, IsName p.name) → Q (rest.map .parameter ++ .parameter p :: stack) := by
    intro p hp rest hrest
    have hlonger := h (rest ++ [p]) (by
      intro q hq
      rcases List.mem_append.mp hq with hq | hq
      · exact hrest q hq
      · rw [List.mem_singleton.mp hq]
        exact hp)
    simpa using hlonger
  rcases hitems with (rfl | rfl) | rfl | rfl | rfl
  · exact h [] (by simp)
  · exact fun ps hps _ => h ps hps
  · exact fun p hp _ rest hrest _ => hadd p hp rest hrest
  · exact fun _ _ _ p hp _ rest hrest _ => hadd p hp rest hrest
  · exact h [] (by simp)

private theorem builds_arguments (hitems : items ∈ productions .argumentList ∨
      items ∈ productions .formalArguments ∨ items ∈ productions .formalArgumentsRest)
    (h : Promises Q stack .argumentList) : Builds Q items recent stack := by
  simp only [productions, List.mem_cons, List.not_mem_nil, or_false] at hitems
  have hadd : ∀ e : Expr, e.Legal → ∀ recent, Builds Q
      [.action .makeArgument, .nonterminal .formalArgumentsRest] recent (.expr e :: stack) := by
    intro e he recent
    refine ⟨_, NodeStack.act_makeArgument e, ?_⟩
    intro rest hrest _
    have hlonger := h (rest ++ [{ value := e }]) (by
      intro a ha
      rcases List.mem_append.mp ha with ha | ha
      · exact hrest a ha
      · rw [List.mem_singleton.mp ha]
        exact he)
    simpa [Builds] using hlonger
  rcases hitems with (rfl | rfl) | rfl | rfl | rfl
  · exact h [] (by simp)
  · exact fun args hargs _ => h args hargs
  · exact hadd
  · exact fun _ _ _ => hadd
  · exact h [] (by simp)

private theorem builds_body (hitems : items ∈ productions .body) (h : Promises Q stack .body) :
    Builds Q items recent stack := by
  obtain ⟨calls, t, rest, hcalls, rfl, hbody⟩ := h
  simp only [productions, List.mem_cons, List.not_mem_nil, or_false] at hitems
  rcases hitems with rfl | rfl
  · intro c hc _
    refine ⟨c :: calls, t, rest, by simpa using ⟨hc, hcalls⟩, rfl, ?_⟩
    exact fun b hb _ => hbody b hb
  · intro e he _
    refine ⟨_, NodeStack.act_makeBody e calls (by simp [Node.call?]), ?_⟩
    exact hbody _ ⟨by simpa using hcalls, he⟩

private theorem builds_printExpression (hitems : items ∈ productions .printExpression)
    (h : Promises Q stack .printExpression) : Builds Q items recent stack := by
  simp only [productions, List.mem_singleton] at hitems
  subst hitems
  intro token hkind _
  refine ⟨_, NodeStack.act_makeIdentifier_print hkind, ?_⟩
  intro _ _ _ e he _
  refine ⟨_, NodeStack.act_makeArgument e, _,
    NodeStack.act_makeArgumentList [{ value := e }] (by simp [Node.argument?]), ?_⟩
  intro _ _ _
  refine ⟨_, NodeStack.act_makeFunctionCallExpression .., ?_⟩
  exact h { callee := "print", arguments := { items := .cons none e .nil } }
    ⟨rfl, none, e, rfl, he⟩

private theorem builds_factor (hitems : items ∈ productions .factor)
    (h : Promises Q stack .factor) : Builds Q items recent stack := by
  simp only [productions, List.mem_cons, List.not_mem_nil, or_false] at hitems
  rcases hitems with rfl | rfl | rfl | rfl | rfl | rfl
  · exact fun e he _ => h e he
  · exact fun _ _ _ e he _ => ⟨_, NodeStack.act_unary .not e, h _ he⟩
  · exact fun _ _ _ e he _ => ⟨_, NodeStack.act_unary .minus e, h _ he⟩
  · apply Builds.identifier
    exact fun name _ hname => ⟨name, stack, rfl, hname, fun e he _ => h e he⟩
  · intro _ _ _ condition hcondition _ _ _ _ consequent hconsequent _ _ _ _ alternative
      halternative _
    exact ⟨_, NodeStack.act_makeIfExpression .., h _ ⟨hcondition, hconsequent, halternative⟩⟩
  · exact fun _ _ _ e he _ _ _ _ => h e he

private theorem builds_factorRest (hitems : items ∈ productions .factorRest)
    (h : Promises Q stack .factorRest) : Builds Q items recent stack := by
  obtain ⟨name, rest, rfl, hname, he⟩ := h
  simp only [productions, List.mem_cons, List.not_mem_nil, or_false] at hitems
  rcases hitems with rfl | rfl
  · intro _ _ _ args hargs _
    refine ⟨_, NodeStack.act_makeArgumentList args (by simp [Node.argument?]), ?_⟩
    intro _ _ _
    refine ⟨_, NodeStack.act_makeFunctionCallExpression .., ?_⟩
    exact he _ ⟨hname, Arguments.legal_ofList (by simpa using hargs)⟩
  · exact he _ hname

private theorem builds_literal (hitems : items ∈ productions .literal)
    (h : Promises Q stack .literal) : Builds Q items recent stack := by
  simp only [productions, List.mem_cons, List.not_mem_nil, or_false] at hitems
  rcases hitems with rfl | rfl
  · intro token hkind hgenuine
    obtain ⟨text, hvalue, htext⟩ : ∃ text, token.value = some text ∧ IsNumeral text := by
      simpa [Token.Genuine, hkind, Kind.Spells] using hgenuine
    exact ⟨_, NodeStack.act_makeIntegerLiteral hvalue, h _ htext⟩
  · intro token hkind hgenuine
    obtain ⟨text, hvalue, htext⟩ :
        ∃ text, token.value = some text ∧ (text = "true" ∨ text = "false") := by
      simpa [Token.Genuine, hkind, Kind.Spells] using hgenuine
    exact ⟨_, NodeStack.act_makeBooleanLiteral hvalue, h _ htext⟩

/-- The actions of an alternative do what its nonterminal promises. -/
theorem builds_of_production (hitems : items ∈ productions n) (h : Promises Q stack n) :
    Builds Q items recent stack := by
  cases n with
  | program =>
    obtain ⟨rfl, hp⟩ := h
    simp only [productions, List.mem_singleton] at hitems
    subst hitems
    intro ds hds _
    refine ⟨_, NodeStack.act_makeDefinitionList ds (by simp), _, NodeStack.act_makeProgram _, ?_⟩
    exact hp _ (by simpa [Program.Legal] using hds)
  | definitionList =>
    simp only [productions, List.mem_cons, List.not_mem_nil, or_false] at hitems
    rcases hitems with rfl | rfl
    · exact h [] (by simp)
    · intro d hd _ ds hds _
      have hlonger := h (ds ++ [d]) (by simpa [or_imp, forall_and] using ⟨hds, hd⟩)
      simpa [Builds] using hlonger
  | definition => exact builds_definition hitems h
  | parameterList => exact builds_parameters (.inl hitems) h
  | formalParameters => exact builds_parameters (.inr (.inl hitems)) h
  | formalParametersRest => exact builds_parameters (.inr (.inr hitems)) h
  | idWithType =>
    simp only [productions, List.mem_singleton] at hitems
    subst hitems
    apply Builds.identifier
    intro name _ hname _ _ _ t _
    exact ⟨_, NodeStack.act_makeIdWithType .., h _ hname⟩
  | typeName =>
    simp only [productions, List.mem_cons, List.not_mem_nil, or_false] at hitems
    rcases hitems with rfl | rfl
    · exact fun _ _ _ => ⟨_, NodeStack.act_makeIntegerType, h _⟩
    · exact fun _ _ _ => ⟨_, NodeStack.act_makeBooleanType, h _⟩
  | body => exact builds_body hitems h
  | printExpression => exact builds_printExpression hitems h
  | expression | simpleExpression | term =>
    simp only [productions, List.mem_singleton] at hitems
    subst hitems
    exact fun left hleft _ => ⟨left, stack, rfl, hleft, fun e he _ => h e he⟩
  | expressionRest =>
    obtain ⟨left, rest, rfl, hleft, he⟩ := h
    simp only [productions, List.mem_cons, List.not_mem_nil, or_false] at hitems
    rcases hitems with rfl | rfl | rfl
    · exact Builds.operation .equals hleft id (fun hl h => ⟨_, _, rfl, hl, h⟩) he
    · exact Builds.operation .lessThan hleft id (fun hl h => ⟨_, _, rfl, hl, h⟩) he
    · exact he left hleft
  | simpleExpressionRest =>
    obtain ⟨left, rest, rfl, hleft, he⟩ := h
    simp only [productions, List.mem_cons, List.not_mem_nil, or_false] at hitems
    rcases hitems with rfl | rfl | rfl | rfl
    · exact Builds.operation .or hleft id (fun hl h => ⟨_, _, rfl, hl, h⟩) he
    · exact Builds.operation .plus hleft id (fun hl h => ⟨_, _, rfl, hl, h⟩) he
    · exact Builds.operation .minus hleft id (fun hl h => ⟨_, _, rfl, hl, h⟩) he
    · exact he left hleft
  | termRest =>
    obtain ⟨left, rest, rfl, hleft, he⟩ := h
    simp only [productions, List.mem_cons, List.not_mem_nil, or_false] at hitems
    rcases hitems with rfl | rfl | rfl | rfl
    · exact Builds.operation .times hleft id (fun hl h => ⟨_, _, rfl, hl, h⟩) he
    · exact Builds.operation .divide hleft id (fun hl h => ⟨_, _, rfl, hl, h⟩) he
    · exact Builds.operation .and hleft id (fun hl h => ⟨_, _, rfl, hl, h⟩) he
    · exact he left hleft
  | factor => exact builds_factor hitems h
  | factorRest => exact builds_factorRest hitems h
  | argumentList => exact builds_arguments (.inl hitems) h
  | formalArguments => exact builds_arguments (.inr (.inl hitems)) h
  | formalArgumentsRest => exact builds_arguments (.inr (.inr hitems)) h
  | literal => exact builds_literal hitems h

end Klein.Parser
